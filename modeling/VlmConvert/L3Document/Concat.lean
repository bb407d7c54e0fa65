import VlmConvert.L3Document.Document

/-!
# One document behind another

`a.followedBy b` is `a` with the items of `b` behind its own: the references
inside `b` move by the number of items `a` has of their kind. Images are left
out of the comparison (`withoutImages`): a crop spends a budget that the page
shares.

Every change a mapper makes to `b` is the same change, moved, behind `a`
(`stampItem_followedBy`, `addItemChild_followedBy`).

Result: `finalize_followedBy`, finalizing both and putting one behind the
other is finalizing the two together.
-/
namespace VlmConvert.L3

open Bytes L2

/-! ## Moving references -/

def BodyChild.shift (base : BodyChild.Kind → Nat) (child : BodyChild) : BodyChild :=
  ⟨child.kind, base child.kind + child.index⟩

def BodyChild.Kind.all : List BodyChild.Kind :=
  [.text, .picture, .table, .keyValue, .group, .fieldRegion]

/-- A reference to an item, with the item moved; other text stays. -/
def shiftRef (base : BodyChild.Kind → Nat) (ref : Bytes) : Bytes :=
  match BodyChild.Kind.all.find? fun kind =>
      (ascii "#/" ++ kind.list ++ ascii "/").isPrefixOf ref with
  | some kind => bodyChildRef ⟨kind, base kind + ofDigits (ref.drop (kind.list.length + 3))⟩
  | none => ref

section Refs
variable (base : BodyChild.Kind → Nat)

theorem shiftRef_bodyChildRef (child : BodyChild) :
    shiftRef base (bodyChildRef child) = bodyChildRef (child.shift base) := by
  obtain ⟨kind, i⟩ := child
  have hfind : (BodyChild.Kind.all.find? fun k =>
      (ascii "#/" ++ k.list ++ ascii "/").isPrefixOf (bodyChildRef ⟨kind, i⟩)) = some kind := by
    cases kind <;>
      simp [BodyChild.Kind.all, BodyChild.Kind.list, bodyChildRef, ascii, List.isPrefixOf]
  have hdrop : (bodyChildRef ⟨kind, i⟩).drop (kind.list.length + 3) = decimal i := by
    have hlen : kind.list.length + 3 = (ascii "#/" ++ kind.list ++ ascii "/").length := by
      simp [ascii]
    rw [hlen]
    exact List.drop_left
  simp only [shiftRef, hfind, hdrop, ofDigits_decimal]
  rfl

theorem shiftRef_bodyRef : shiftRef base bodyRef = bodyRef := rfl

end Refs

/-! ## Moving items -/

def Node.shift (base : BodyChild.Kind → Nat) (node : Node) : Node where
  selfRef := shiftRef base node.selfRef
  parent := node.parent.map (shiftRef base)
  children := node.children.map (shiftRef base)

def BaseTextItem.shift (base : BodyChild.Kind → Nat) : BaseTextItem → BaseTextItem
  | .code item => .code { item with
      toNode := item.toNode.shift base
      captions := item.captions.map (shiftRef base)
      footnotes := item.footnotes.map (shiftRef base) }
  | item => item.mapBase fun text => { text with toNode := text.toNode.shift base }

def PictureItem.shift (base : BodyChild.Kind → Nat) (item : PictureItem) : PictureItem :=
  { item with
    toNode := item.toNode.shift base
    captions := item.captions.map (shiftRef base)
    footnotes := item.footnotes.map (shiftRef base) }

def TableItem.shift (base : BodyChild.Kind → Nat) (item : TableItem) : TableItem :=
  { item with
    toNode := item.toNode.shift base
    captions := item.captions.map (shiftRef base)
    footnotes := item.footnotes.map (shiftRef base) }

def GroupItem.shift (base : BodyChild.Kind → Nat) (item : GroupItem) : GroupItem :=
  { item with toNode := item.toNode.shift base }

def KeyValueItem.shift (base : BodyChild.Kind → Nat) (item : KeyValueItem) : KeyValueItem :=
  { item with toNode := item.toNode.shift base }

def FieldRegionItem.shift (base : BodyChild.Kind → Nat) (item : FieldRegionItem) :
    FieldRegionItem :=
  { item with toNode := item.toNode.shift base }

def PictureItem.withoutImage (item : PictureItem) : PictureItem := { item with image := none }

namespace Document

/-- The items and body children of `b` behind those of `a`. -/
def followedBy (a b : Document) : Document :=
  { a with
    body := { a.body with children := a.body.children ++ b.body.children.map (shiftRef a.size) }
    groups := a.groups ++ b.groups.map (·.shift a.size)
    texts := a.texts ++ b.texts.map (·.shift a.size)
    pictures := a.pictures ++ b.pictures.map (·.shift a.size)
    tables := a.tables ++ b.tables.map (·.shift a.size)
    keyValueItems := a.keyValueItems ++ b.keyValueItems.map (·.shift a.size)
    fieldRegions := a.fieldRegions ++ b.fieldRegions.map (·.shift a.size) }

def withoutImages (doc : Document) : Document :=
  { doc with pictures := doc.pictures.map PictureItem.withoutImage }

@[simp] theorem withoutImages_size (doc : Document) : doc.withoutImages.size = doc.size := by
  funext kind
  cases kind <;> simp [size, withoutImages]

@[simp] theorem size_followedBy (a b : Document) (kind : BodyChild.Kind) :
    (a.followedBy b).size kind = a.size kind + b.size kind := by
  cases kind <;> simp [size, followedBy]

theorem followedBy_empty (a : Document) : a.followedBy {} = a := by
  simp [followedBy]

end Document

/-! ## Adding one item -/

section Add
variable (a b : Document)

theorem followedBy_addTexts (item : BaseTextItem) :
    a.followedBy (b.addTexts item) = (a.followedBy b).addTexts (item.shift a.size) := by
  simp [Document.followedBy, Document.addTexts]

theorem followedBy_addPictures (item : PictureItem) :
    a.followedBy (b.addPictures item) = (a.followedBy b).addPictures (item.shift a.size) := by
  simp [Document.followedBy, Document.addPictures]

theorem followedBy_addTables (item : TableItem) :
    a.followedBy (b.addTables item) = (a.followedBy b).addTables (item.shift a.size) := by
  simp [Document.followedBy, Document.addTables]

theorem followedBy_addGroups (item : GroupItem) :
    a.followedBy (b.addGroups item) = (a.followedBy b).addGroups (item.shift a.size) := by
  simp [Document.followedBy, Document.addGroups]

theorem followedBy_addKeyValueItems (item : KeyValueItem) :
    a.followedBy (b.addKeyValueItems item) =
      (a.followedBy b).addKeyValueItems (item.shift a.size) := by
  simp [Document.followedBy, Document.addKeyValueItems]

/-- A text item that refers to nothing is the same wherever it stands. -/
theorem BaseTextItem.shift_eq {item : BaseTextItem} (hnode : item.node = {})
    (hlinks : item.links = [])
    (base : BodyChild.Kind → Nat) : item.shift base = item := by
  cases item with
  | code item =>
    obtain ⟨node, _, _, _, _, _, _, captions, footnotes, _, _⟩ := item
    obtain ⟨hcaptions, hfootnotes⟩ := List.append_eq_nil_iff.1 hlinks
    have hitem : node = {} := hnode
    have hcap : captions = [] := hcaptions
    have hfoot : footnotes = [] := hfootnotes
    subst hitem hcap hfoot
    rfl
  | _ text =>
    obtain ⟨node, _⟩ := text
    have hitem : node = {} := hnode
    subst hitem
    rfl

end Add

/-! ## Changing one item -/

section Modify
variable {α β : Type}

theorem modify_append_left {l : List α} {i : Nat} (m : List α) (f : α → α) (h : i < l.length) :
    (l ++ m).modify i f = l.modify i f ++ m := by
  apply List.ext_getElem?
  intro j
  rw [List.getElem?_modify]
  by_cases hj : j < l.length
  · rw [List.getElem?_append_left hj, List.getElem?_append_left (by simpa using hj),
      List.getElem?_modify]
  · have hle : l.length ≤ j := Nat.le_of_not_lt hj
    rw [List.getElem?_append_right hle, List.getElem?_append_right (by simpa using hle),
      List.length_modify]
    simp [show i ≠ j by omega]

theorem modify_append_right (l : List β) (m : List α) (i : Nat) {g : α → β} {f : α → α} {f' : β → β}
    (h : ∀ x, f' (g x) = g (f x)) :
    (l ++ m.map g).modify (l.length + i) f' = l ++ (m.modify i f).map g := by
  apply List.ext_getElem?
  intro j
  rw [List.getElem?_modify]
  by_cases hj : j < l.length
  · rw [List.getElem?_append_left hj, List.getElem?_append_left hj]
    simp [show l.length + i ≠ j by omega]
  · have hle : l.length ≤ j := Nat.le_of_not_lt hj
    rw [List.getElem?_append_right hle, List.getElem?_append_right hle, List.getElem?_map,
      List.getElem?_map, List.getElem?_modify]
    cases m[j - l.length]? with
    | none => simp
    | some x =>
      by_cases hi : i = j - l.length
      · simp [hi, h, show l.length + (j - l.length) = j by omega]
      · simp [hi, show l.length + i ≠ j by omega]

theorem map_modify_comm (m : List α) (i : Nat) {g : α → β} {f : α → α} {f' : β → β}
    (h : ∀ x, f' (g x) = g (f x)) : (m.map g).modify i f' = (m.modify i f).map g := by
  simpa using modify_append_right [] m i h

end Modify

section Move
variable (a b : Document) (child : BodyChild)

/-- Stamping in the second document. -/
theorem stampItem_followedBy (parent : Bytes) :
    stampItem (a.followedBy b) (child.shift a.size) (shiftRef a.size parent) =
      a.followedBy (stampItem b child parent) := by
  obtain ⟨kind, i⟩ := child
  have hself := shiftRef_bodyChildRef a.size ⟨kind, i⟩
  cases kind <;>
    simp only [stampItem, BodyChild.shift, Document.followedBy, Document.mk.injEq, true_and,
      and_true] <;>
    refine modify_append_right _ _ _ ?_ <;> intro item
  case text => cases item <;>
    simp [stampTextItem, stampTextRef, BaseTextItem.shift, BaseTextItem.mapBase, Node.shift, hself,
      BodyChild.shift]
  all_goals
    simp [PictureItem.shift, TableItem.shift, KeyValueItem.shift, GroupItem.shift,
      FieldRegionItem.shift, Node.shift, hself, BodyChild.shift]

/-- A child reference in the second document. -/
theorem addItemChild_followedBy (ref : Bytes) :
    addItemChild (a.followedBy b) (child.shift a.size) (shiftRef a.size ref) =
      a.followedBy (addItemChild b child ref) := by
  obtain ⟨kind, i⟩ := child
  cases kind with
  | keyValue => rfl
  | text =>
    simp only [addItemChild, BodyChild.shift, Document.followedBy, Document.mk.injEq, true_and,
      and_true]
    refine modify_append_right _ _ _ fun item => ?_
    cases item <;>
      simp [BaseTextItem.addChild, BaseTextItem.shift, BaseTextItem.mapBase, Node.shift]
  | _ =>
    simp only [addItemChild, BodyChild.shift, Document.followedBy, Document.mk.injEq, true_and,
      and_true]
    refine modify_append_right _ _ _ fun item => ?_
    simp [PictureItem.shift, TableItem.shift, GroupItem.shift, FieldRegionItem.shift, Node.shift]

theorem addBodyChild_followedBy (ref : Bytes) :
    addBodyChild (a.followedBy b) (shiftRef a.size ref) = a.followedBy (addBodyChild b ref) := by
  simp [addBodyChild, Document.followedBy]

@[simp] theorem stampItem_size (parent : Bytes) : (stampItem a child parent).size = a.size := by
  obtain ⟨kind, i⟩ := child
  funext k
  cases kind <;> cases k <;> simp [stampItem, Document.size]

/-- Stamping in the first document. -/
theorem stampItem_front {parent : Bytes} (h : child.index < a.size child.kind) :
    stampItem (a.followedBy b) child parent = (stampItem a child parent).followedBy b := by
  obtain ⟨kind, i⟩ := child
  have hsize := stampItem_size a ⟨kind, i⟩ parent
  unfold Document.followedBy
  rw [hsize]
  cases kind <;>
    simp only [stampItem, Document.mk.injEq, true_and, and_true] <;>
    exact modify_append_left _ _ h

theorem addBodyChild_front {ref : Bytes} (h : b.body.children = []) :
    addBodyChild (a.followedBy b) ref = (addBodyChild a ref).followedBy b := by
  have hsize : (addBodyChild a ref).size = a.size := by
    funext k
    cases k <;> rfl
  unfold Document.followedBy
  rw [hsize, h]
  simp [addBodyChild]

end Move

/-! ## Finalizing -/

section Finalize
variable (page : PageContext)

/-- The items under the body, stamped. -/
def stampOrder (order : List BodyChild) (doc : Document) : Document :=
  order.foldl (fun doc child => addBodyChild (stampItem doc child bodyRef) (bodyChildRef child)) doc

theorem stampOrder_front (b : Document) (hb : b.body.children = []) (order : List BodyChild) :
    ∀ a : Document, (∀ r ∈ order, r.index < a.size r.kind) →
      stampOrder order (a.followedBy b) = (stampOrder order a).followedBy b := by
  induction order with
  | nil => intro a _; rfl
  | cons child order ih =>
    intro a hrange
    have hsize : ∀ k, (addBodyChild (stampItem a child bodyRef) (bodyChildRef child)).size k =
      a.size k := by
      intro k
      rw [← congrFun (stampItem_size a child bodyRef) k]
      cases k <;> rfl
    simp only [stampOrder, List.foldl_cons]
    rw [stampItem_front _ _ _ (hrange child (by simp)), addBodyChild_front _ _ hb]
    exact ih _ fun r hr => by
      rw [hsize]
      exact hrange r (by simp [hr])

theorem stampOrder_followedBy (a : Document) (order : List BodyChild) : ∀ b : Document,
    stampOrder (order.map (·.shift a.size)) (a.followedBy b) =
      a.followedBy (stampOrder order b) := by
  induction order with
  | nil => intro b; rfl
  | cons child order ih =>
    intro b
    have hstamp := stampItem_followedBy a b child bodyRef
    rw [shiftRef_bodyRef] at hstamp
    simp only [stampOrder, List.map_cons, List.foldl_cons]
    rw [hstamp, ← shiftRef_bodyChildRef, addBodyChild_followedBy]
    exact ih _

theorem stampOrder_size (order : List BodyChild) : ∀ doc : Document,
    (stampOrder order doc).size = doc.size := by
  induction order with
  | nil => intro doc; rfl
  | cons child order ih =>
    intro doc
    refine (ih _).trans ?_
    funext k
    rw [← congrFun (stampItem_size doc child bodyRef) k]
    cases k <;> rfl

/-- **Finalized together or one behind the other**: the same document. -/
theorem finalize_followedBy {a b : Document} {front back : List BodyChild}
    (hrange : ∀ r ∈ front, r.index < a.size r.kind) (hb : b.body.children = []) :
    finalizeDocument (a.followedBy b) page (front ++ back.map (·.shift a.size)) =
      (finalizeDocument a page front).followedBy (finalizeDocument b page back) := by
  have hstart : startBody (a.followedBy b) page =
    (startBody a page).followedBy (startBody b page) := rfl
  have hsize : (startBody a page).size = a.size := rfl
  have hset : ∀ a b : Document, setPage (a.followedBy b) page =
      (setPage a page).followedBy (setPage b page) := fun _ _ => rfl
  have hfold : ∀ (order : List BodyChild) (doc : Document), finalizeDocument doc page order =
      setPage (stampOrder order (startBody doc page)) page := fun _ _ => rfl
  rw [hfold, hfold, hfold, hstart, ← hset]
  congr 1
  have happ : stampOrder (front ++ back.map (·.shift a.size))
      ((startBody a page).followedBy (startBody b page)) =
      stampOrder (back.map (·.shift a.size)) (stampOrder front
        ((startBody a page).followedBy (startBody b page))) := List.foldl_append
  rw [happ, stampOrder_front (startBody b page) hb front (startBody a page) hrange]
  have hmoved := stampOrder_followedBy (stampOrder front (startBody a page)) back (startBody b page)
  rw [stampOrder_size, hsize] at hmoved
  exact hmoved

theorem stampItem_withoutImages (doc : Document) (child : BodyChild) (parent : Bytes) :
    stampItem doc.withoutImages child parent = (stampItem doc child parent).withoutImages := by
  obtain ⟨kind, i⟩ := child
  cases kind with
  | picture =>
    simp only [stampItem, Document.withoutImages, Document.mk.injEq, true_and, and_true]
    exact map_modify_comm _ _ fun item => rfl
  | _ => rfl

theorem addItemChild_withoutImages (doc : Document) (child : BodyChild) (ref : Bytes) :
    addItemChild doc.withoutImages child ref = (addItemChild doc child ref).withoutImages := by
  obtain ⟨kind, i⟩ := child
  cases kind with
  | picture =>
    simp only [addItemChild, Document.withoutImages, Document.mk.injEq, true_and, and_true]
    exact map_modify_comm _ _ fun item => rfl
  | _ => rfl

theorem finalize_withoutImages (doc : Document) (order : List BodyChild) :
    finalizeDocument doc.withoutImages page order =
      (finalizeDocument doc page order).withoutImages := by
  have hfold : ∀ (order : List BodyChild) (doc : Document),
      stampOrder order doc.withoutImages = (stampOrder order doc).withoutImages := by
    intro order
    induction order with
    | nil => intro doc; rfl
    | cons child order ih =>
      intro doc
      simp only [stampOrder, List.foldl_cons]
      rw [stampItem_withoutImages]
      exact ih (addBodyChild (stampItem doc child bodyRef) (bodyChildRef child))
  exact congrArg (setPage · page) (hfold order (startBody doc page))

end Finalize

end VlmConvert.L3
