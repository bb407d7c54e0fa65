import VlmConvert.L3Document.LayoutWriter

/-!
# Captions of adjacent blocks

`LayoutWriter::link_adjacent_captions` (`src/mapping/layout.cpp:911-961`):
block `i` spans the body children from `starts[i]` up to `starts[i + 1]`, and
a caption block of one caption is linked to the one neighbour block that is a
single picture or table without a caption. Every index into `starts`, the
body and the item lists is checked, and `none` is an index out of range (UB in
the source), so that the pass stays inside them is a theorem. `size_t`
subtraction wraps.

Results: `run_sound`, the body of every writer names items of its document,
each once, and `linkAdjacentCaptions_links`, what the pass links.
-/
namespace VlmConvert.L3.LayoutWriter

open Bytes L2

/-! ## The pass -/

section Pass
variable (w : LayoutWriter) (starts : List Nat) (codeOwners : Bool)

/-- mirrors src/mapping/layout.cpp:869-877 -/
def hasCaptions (owner : BodyChild) : Option Bool :=
  match owner.kind with
  | .picture => w.doc.pictures[owner.index]?.map fun item => !item.captions.isEmpty
  | .table => w.doc.tables[owner.index]?.map fun item => !item.captions.isEmpty
  | _ => some false

/-- mirrors src/mapping/layout.cpp:879-909 -/
def labelOf (ref : BodyChild) : Option DocItemLabel :=
  match ref.kind with
  | .picture => some .picture
  | .table => some .table
  | .text => w.doc.texts[ref.index]?.map fun item => match item with
    | .code _ => .code
    | .title base | .sectionHeader base _ | .listItem base _ _ | .formula base | .text base =>
      base.label
    | .fieldHeading _ | .fieldValue _ _ => .unspecified
  | _ => some .unspecified

/-- `child_counts_` counts the entries under each item.
mirrors src/mapping/layout.cpp:517-531 -/
def childCount (ref : BodyChild) : Nat := w.entries.countP fun e => e.2 == some ref

/-- mirrors src/mapping/layout.cpp:915-919 -/
def blockSpan (i : Nat) : Option (Nat × Nat) := do
  let begin_ ← starts[i]?
  let end_ ← if i + 1 < starts.length then starts[i + 1]? else some w.body.length
  return (begin_, end_)

/-- The body child of a block of one, if it is one. -/
def blockItem (i : Nat) : Option (Option BodyChild) := do
  let (begin_, end_) ← blockSpan w starts i
  if subSize end_ begin_ ≠ 1 then return none
  let ref ← w.body[begin_]?
  return some ref

/-- The caption of a caption block, if it holds one that can be linked.
mirrors src/mapping/layout.cpp:921-938 -/
def blockCaption (i : Nat) : Option (Option BodyChild) := do
  let some caption ← blockItem w starts i | return none
  if caption.kind ≠ .text then return none
  if (← labelOf w caption) ≠ .caption then return none
  let item ← w.doc.texts[caption.index]?
  match item with
  | .text base =>
    if (trim base.text).isEmpty ∨ childCount w caption ≠ 0 then return none
    return some caption
  | _ => return none

def isCode : BaseTextItem → Bool
  | .code _ => true
  | _ => false

/-- Whether an item counts as an owner.
mirrors src/mapping/layout.cpp:949-951 -/
def countsAsOwner (owner : BodyChild) : Option Bool :=
  if owner.kind = .picture ∨ owner.kind = .table then some true
  else if codeOwners = true ∧ owner.kind = .text then w.doc.texts[owner.index]?.map isCode
  else some false

/-- mirrors src/mapping/layout.cpp:941-953 -/
def neighborOwner (neighbor : Nat) : Option (Option BodyChild) := do
  if starts.length ≤ neighbor then return none
  let some owner ← blockItem w starts neighbor | return none
  if ← countsAsOwner w codeOwners owner then return some owner
  return none

/-- The owners next to block `i`; `i - 1` wraps for block 0.
mirrors src/mapping/layout.cpp:939-954 -/
def neighborOwners (i : Nat) : Option (List BodyChild) := do
  let left ← neighborOwner w starts codeOwners (subSize i 1)
  let right ← neighborOwner w starts codeOwners (i + 1)
  return left.toList ++ right.toList

/-- The link to an only owner; a code item is never linked.
mirrors src/mapping/layout.cpp:955-960 -/
def linkOwner (owner caption : BodyChild) : Option LayoutWriter := do
  if owner.kind = .text then return w
  if ← hasCaptions w owner then return w
  return linkCaption w owner caption

/-- One caption block.
mirrors src/mapping/layout.cpp:920-960 -/
def linkAdjacent (i : Nat) : Option LayoutWriter := do
  if starts.length ≤ i then return w
  let some caption ← blockCaption w starts i | return w
  let owners ← neighborOwners w starts codeOwners i
  match owners with
  | [owner] => linkOwner w owner caption
  | _ => return w

end Pass

/-- mirrors src/mapping/layout.cpp:911-961 -/
def linkAdjacentCaptions (starts : List Nat) (codeOwners : Bool) :
    LayoutWriter → List Nat → Option LayoutWriter
  | w, [] => some w
  | w, i :: captionBlocks => do
    let w' ← linkAdjacent w starts codeOwners i
    linkAdjacentCaptions starts codeOwners w' captionBlocks

/-! ## What the pass is about -/

/-- The body names items of the document, each once. -/
structure Sound (w : LayoutWriter) : Prop where
  held : ∀ r ∈ w.body, (w.doc.node r).isSome = true
  nodup : w.body.Nodup

/-- Block starts of a body: in order, inside it, and as many as a `size_t`
counts. -/
structure Blocks (w : LayoutWriter) (starts : List Nat) : Prop where
  sorted : starts.Pairwise (· ≤ ·)
  inside : ∀ s ∈ starts, s ≤ w.body.length
  count : starts.length < 2 ^ 64

/-- Block `i` is the one item `r`. -/
def SingleItem (w : LayoutWriter) (starts : List Nat) (i : Nat) (r : BodyChild) : Prop :=
  ∃ begin_, starts[i]? = some begin_ ∧ (starts[i + 1]?).getD w.body.length = begin_ + 1 ∧
    w.body[begin_]? = some r

/-- A picture or a table, and a code item where these count. -/
def IsOwner (w : LayoutWriter) (codeOwners : Bool) (r : BodyChild) : Prop :=
  r.kind = .picture ∨ r.kind = .table ∨
    (codeOwners = true ∧ r.kind = .text ∧ ∃ item, w.doc.texts[r.index]? = some (.code item))

/-- Block `i` is a single owner. -/
def OwnerBlock (w : LayoutWriter) (starts : List Nat) (codeOwners : Bool) (i : Nat)
    (r : BodyChild) :
    Prop := SingleItem w starts i r ∧ IsOwner w codeOwners r

/-- `caption` is the caption of block `i`, and `owner` the only owner next to
it. -/
structure Adjacent (w : LayoutWriter) (starts : List Nat) (codeOwners : Bool) (i : Nat)
    (owner caption : BodyChild) : Prop where
  caption_block : SingleItem w starts i caption
  caption_label : labelOf w caption = some .caption
  owner_block : ∃ n, (n + 1 = i ∨ n = i + 1) ∧ SingleItem w starts n owner
  owner_kind : owner.kind = .picture ∨ owner.kind = .table
  only : ∀ n left right, n + 1 = i → OwnerBlock w starts codeOwners n left →
    ¬OwnerBlock w starts codeOwners (i + 1) right

/-! ## One block -/

section Block
variable {w : LayoutWriter} {starts : List Nat} {codeOwners : Bool} {i : Nat}

theorem SingleItem.lt {r : BodyChild} (h : SingleItem w starts i r) : i < starts.length := by
  obtain ⟨begin_, hbegin, -⟩ := h
  exact (List.getElem?_eq_some_iff.1 hbegin).1

theorem SingleItem.mem {r : BodyChild} (h : SingleItem w starts i r) : r ∈ w.body := by
  obtain ⟨begin_, -, -, hr⟩ := h
  exact List.mem_of_getElem? hr

/-- Where a block begins and ends. -/
theorem blockSpan_eq (hb : Blocks w starts) (hi : i < starts.length) :
    ∃ begin_ end_, blockSpan w starts i = some (begin_, end_) ∧ starts[i]? = some begin_ ∧
      (starts[i + 1]?).getD w.body.length = end_ ∧ begin_ ≤ end_ ∧ end_ ≤ w.body.length := by
  have hbegin : starts[i]? = some starts[i] := List.getElem?_eq_getElem hi
  unfold blockSpan
  by_cases hnext : i + 1 < starts.length
  · have hend : starts[i + 1]? = some starts[i + 1] := List.getElem?_eq_getElem hnext
    refine ⟨starts[i], starts[i + 1], ?_, hbegin, ?_, ?_, ?_⟩
    · simp [hbegin, hnext]
    · simp [hend]
    · exact List.pairwise_iff_getElem.1 hb.sorted i (i + 1) hi hnext (by omega)
    · exact hb.inside _ (List.getElem_mem hnext)
  · have hend : starts[i + 1]? = none := List.getElem?_eq_none (by omega)
    refine ⟨starts[i], w.body.length, ?_, hbegin, ?_, ?_, Nat.le_refl _⟩
    · simp [hbegin, hnext]
    · simp [hend]
    · exact hb.inside _ (List.getElem_mem hi)

/-- A block is read without leaving the starts and the body. -/
theorem blockItem_eq (hb : Blocks w starts) (hi : i < starts.length) :
    ∃ item, blockItem w starts i = some item ∧ ∀ r, item = some r ↔ SingleItem w starts i r := by
  obtain ⟨begin_, end_, hspan, hbegin, hend, hle, hlen⟩ := blockSpan_eq hb hi
  unfold blockItem
  simp only [hspan, Option.bind_eq_bind, Option.bind_some, subSize_of_le hle]
  by_cases hone : end_ - begin_ = 1
  · have hat : w.body[begin_]? = some w.body[begin_] := List.getElem?_eq_getElem (by omega)
    refine ⟨some w.body[begin_], by simp [hone, hat], fun r => ?_⟩
    constructor
    · rintro ⟨⟩
      exact ⟨begin_, hbegin, by omega, hat⟩
    · rintro ⟨begin', hbegin', -, hr⟩
      rw [hbegin, Option.some.injEq] at hbegin'
      rw [← hbegin', hat] at hr
      exact hr
  · refine ⟨none, by simp [hone], fun r => ?_⟩
    constructor
    · rintro ⟨⟩
    · rintro ⟨begin', hbegin', hend', -⟩
      rw [hbegin, Option.some.injEq] at hbegin'
      omega

theorem Sound.text_held (hw : Sound w) {r : BodyChild} (hr : r ∈ w.body) (hk : r.kind = .text) :
    ∃ item, w.doc.texts[r.index]? = some item := by
  have hnode := hw.held r hr
  obtain ⟨k, j⟩ := r
  cases hk
  rw [Document.node, Option.isSome_map] at hnode
  exact Option.isSome_iff_exists.1 hnode

theorem Sound.hasCaptions_held (hw : Sound w) {r : BodyChild} (hr : r ∈ w.body) :
    ∃ b, hasCaptions w r = some b := by
  have hnode := hw.held r hr
  obtain ⟨k, j⟩ := r
  rw [← Option.isSome_iff_exists]
  cases k <;> simp_all [hasCaptions, Document.node]

/-- The caption of a block is its one item. -/
theorem blockCaption_eq (hw : Sound w) (hb : Blocks w starts) (hi : i < starts.length) :
    ∃ caption, blockCaption w starts i = some caption ∧
      ∀ r, caption = some r → SingleItem w starts i r ∧ labelOf w r = some .caption := by
  obtain ⟨item, hitem, hsingle⟩ := blockItem_eq hb hi
  unfold blockCaption
  rw [hitem]
  cases item with
  | none => exact ⟨none, rfl, by rintro r ⟨⟩⟩
  | some r =>
    have hr := (hsingle r).1 rfl
    simp only [Option.bind_eq_bind, Option.bind_some]
    by_cases hk : r.kind = .text
    · obtain ⟨item, hitem⟩ := hw.text_held hr.mem hk
      have hlabel : ∃ label, labelOf w r = some label := by
        rw [labelOf, hk]
        simp [hitem]
      obtain ⟨label, hlabel⟩ := hlabel
      by_cases hcap : label = .caption
      · cases item with
        | text base =>
          by_cases hplain : (trim base.text).isEmpty ∨ childCount w r ≠ 0
          · refine ⟨none, ?_, by rintro r ⟨⟩⟩
            simpa [hk, hlabel, hcap, hitem, or_iff_not_imp_left] using hplain
          · refine ⟨some r, by simpa [hk, hlabel, hcap, hitem] using hplain, ?_⟩
            rintro r' ⟨⟩
            exact ⟨hr, hcap ▸ hlabel⟩
        | _ => exact ⟨none, by simp [hk, hlabel, hcap, hitem], by rintro r ⟨⟩⟩
      · exact ⟨none, by simp [hk, hlabel, hcap], by rintro r ⟨⟩⟩
    · exact ⟨none, by simp [hk], by rintro r ⟨⟩⟩

theorem countsAsOwner_eq (hw : Sound w) {r : BodyChild} (hr : r ∈ w.body) :
    ∃ b, countsAsOwner w codeOwners r = some b ∧ (b = true ↔ IsOwner w codeOwners r) := by
  unfold countsAsOwner IsOwner
  by_cases hpt : r.kind = .picture ∨ r.kind = .table
  · rw [if_pos hpt]
    exact ⟨true, rfl, iff_of_true rfl (by tauto)⟩
  rw [if_neg hpt]
  by_cases hcode : codeOwners = true ∧ r.kind = .text
  · obtain ⟨item, hitem⟩ := hw.text_held hr hcode.2
    rw [if_pos hcode, hitem]
    refine ⟨isCode item, rfl, ?_⟩
    cases item <;> simp_all [isCode]
  · rw [if_neg hcode]
    exact ⟨false, rfl, iff_of_false Bool.false_ne_true (by tauto)⟩

/-- A neighbour's owner is found without leaving the starts and the body. -/
theorem neighborOwner_eq (hw : Sound w) (hb : Blocks w starts) (n : Nat) :
    ∃ owner, neighborOwner w starts codeOwners n = some owner ∧
      ∀ r, owner = some r ↔ OwnerBlock w starts codeOwners n r := by
  unfold neighborOwner
  by_cases hn : starts.length ≤ n
  · rw [if_pos hn]
    refine ⟨none, rfl, fun r => iff_of_false (by rintro ⟨⟩) ?_⟩
    rintro ⟨hsingle, -⟩
    exact absurd hsingle.lt (by omega)
  rw [if_neg hn]
  obtain ⟨item, hitem, hsingle⟩ := blockItem_eq hb (Nat.lt_of_not_le hn)
  rw [hitem]
  cases item with
  | none =>
    refine ⟨none, rfl, fun r => iff_of_false (by rintro ⟨⟩) ?_⟩
    rintro ⟨hr, -⟩
    cases (hsingle r).2 hr
  | some o =>
    have ho := (hsingle o).1 rfl
    obtain ⟨b, hcounts, hb⟩ := @countsAsOwner_eq w codeOwners hw o ho.mem
    -- the block's item is the only candidate
    have hsame : ∀ r, OwnerBlock w starts codeOwners n r → o = r := fun r hr =>
      Option.some.inj ((hsingle r).2 hr.1)
    cases b with
    | true =>
      refine ⟨some o, by simp [hcounts], fun r => ⟨?_, fun hr => by rw [hsame r hr]⟩⟩
      rintro ⟨⟩
      exact ⟨ho, hb.1 rfl⟩
    | false =>
      refine ⟨none, by simp [hcounts], fun r => iff_of_false (by rintro ⟨⟩) fun hr => ?_⟩
      exact absurd (hb.2 (hsame r hr ▸ hr.2)) Bool.false_ne_true

/-- The owners on both sides; block 0 has none on its left. -/
theorem neighborOwners_eq (hw : Sound w) (hb : Blocks w starts) (hi : i < starts.length) :
    ∃ left right, neighborOwners w starts codeOwners i = some (left.toList ++ right.toList) ∧
      (∀ r, left = some r ↔ ∃ n, n + 1 = i ∧ OwnerBlock w starts codeOwners n r) ∧
      (∀ r, right = some r ↔ OwnerBlock w starts codeOwners (i + 1) r) := by
  obtain ⟨left, hleft, hl⟩ := @neighborOwner_eq w starts codeOwners hw hb (subSize i 1)
  obtain ⟨right, hright, hr⟩ := @neighborOwner_eq w starts codeOwners hw hb (i + 1)
  refine ⟨left, right, by simp [neighborOwners, hleft, hright], fun r => ?_, hr⟩
  rw [hl]
  cases i with
  | zero =>
    have hwrap : starts.length ≤ subSize 0 1 := Nat.le_pred_of_lt hb.count
    constructor
    · rintro ⟨hsingle, -⟩
      exact absurd hsingle.lt (by omega)
    · rintro ⟨n, hn, -⟩
      omega
  | succ i =>
    rw [subSize_of_le (by omega), Nat.add_sub_cancel]
    constructor
    · intro h
      exact ⟨i, rfl, h⟩
    · rintro ⟨n, hn, h⟩
      rwa [← Nat.succ.inj hn]

theorem linkOwner_cases (hw : Sound w) {owner : BodyChild} (caption : BodyChild)
    (howner : owner ∈ w.body) : linkOwner w owner caption = some w ∨
      linkOwner w owner caption = some (linkCaption w owner caption) ∧ owner.kind ≠ .text ∧
        hasCaptions w owner = some false := by
  unfold linkOwner
  by_cases hk : owner.kind = .text
  · exact Or.inl (if_pos hk)
  obtain ⟨b, hhas⟩ := hw.hasCaptions_held howner
  cases b with
  | true => exact Or.inl (by simp [hk, hhas])
  | false => exact Or.inr ⟨by simp [hk, hhas], hk, hhas⟩

/-- **One caption block** is left alone, or linked to the only owner next to
it, which has no caption. -/
theorem linkAdjacent_cases (hw : Sound w) (hb : Blocks w starts) (i : Nat) :
    linkAdjacent w starts codeOwners i = some w ∨
    ∃ owner caption, linkAdjacent w starts codeOwners i = some (linkCaption w owner caption) ∧
      Adjacent w starts codeOwners i owner caption ∧ hasCaptions w owner = some false := by
  unfold linkAdjacent
  by_cases hi : starts.length ≤ i
  · exact Or.inl (by simp [hi])
  obtain ⟨caption, hcaption, hcap⟩ := blockCaption_eq hw hb (Nat.lt_of_not_le hi)
  obtain ⟨left, right, howners, hleft, hright⟩ :=
    @neighborOwners_eq w starts codeOwners i hw hb (Nat.lt_of_not_le hi)
  simp only [if_neg hi, hcaption, Option.bind_eq_bind, Option.bind_some, Option.pure_def]
  cases caption with
  | none => exact Or.inl rfl
  | some caption =>
    obtain ⟨hblock, hlabel⟩ := hcap caption rfl
    simp only [howners, Option.bind_some]
    -- an owner on one side only
    have hone : ∀ owner, (∃ n, (n + 1 = i ∨ n = i + 1) ∧ OwnerBlock w starts codeOwners n owner) →
        (left = none ∨ right = none) → linkOwner w owner caption = some w ∨
        ∃ owner' caption', linkOwner w owner caption = some (linkCaption w owner' caption') ∧
          Adjacent w starts codeOwners i owner' caption' ∧ hasCaptions w owner' = some false := by
      rintro owner ⟨n, hn, hsingle, hisowner⟩ hnone
      refine (linkOwner_cases hw caption hsingle.mem).imp_right ?_
      rintro ⟨hlink, hk, hfree⟩
      refine ⟨owner, caption, hlink, ⟨hblock, hlabel, ⟨n, hn, hsingle⟩, ?_, ?_⟩, hfree⟩
      · rcases hisowner with h | h | h
        · exact Or.inl h
        · exact Or.inr h
        · exact absurd h.2.1 hk
      · intro m l r hm hl hr
        rcases hnone with h | h
        · rw [(hleft l).2 ⟨m, hm, hl⟩] at h
          cases h
        · rw [(hright r).2 hr] at h
          cases h
    cases left with
    | none =>
      cases right with
      | none => exact Or.inl rfl
      | some owner => exact hone owner ⟨i + 1, Or.inr rfl, (hright owner).1 rfl⟩ (Or.inl rfl)
    | some owner =>
      cases right with
      | none =>
        obtain ⟨n, hn, howner⟩ := (hleft owner).1 rfl
        exact hone owner ⟨n, Or.inl hn, howner⟩ (Or.inr rfl)
      | some owner' => exact Or.inl rfl

end Block

/-! ## The whole pass -/

section Pass
variable {w : LayoutWriter} {starts : List Nat} {codeOwners : Bool}

/-- The pass's links, applied. -/
def linkAll (w : LayoutWriter) (links : List (BodyChild × BodyChild)) : LayoutWriter :=
  links.foldl (fun w l => linkCaption w l.1 l.2) w

/-- A link to a picture or table changes its captions and nothing the pass
looks at before. -/
theorem linkCaption_frame {owner : BodyChild} (caption : BodyChild)
    (hk : owner.kind = .picture ∨ owner.kind = .table) :
    (linkCaption w owner caption).body = w.body ∧
      (linkCaption w owner caption).doc.texts = w.doc.texts := by
  unfold linkCaption
  rcases hk with hk | hk <;> rw [hk] <;> exact ⟨rfl, rfl⟩

theorem Sound.linkCaption (hw : Sound w) (owner caption : BodyChild) :
    Sound (linkCaption w owner caption) := by
  have hedit := edited_linkCaption (w := w) owner caption
  refine ⟨fun r hr => ?_, ?_⟩
  · rw [hedit.node]
    exact hw.held r (hedit.body ▸ hr)
  · rw [hedit.body]
    exact hw.nodup

/-- Of a list in which one item got a caption, an item without any is another
one. -/
theorem free_of_modify {α : Type} {l : List α} {f : α → α} {captions : α → List Bytes}
    (hf : ∀ a, captions (f a) ≠ []) {i j : Nat}
    (h : (l.modify i f)[j]?.map (fun a => !(captions a).isEmpty) = some false) :
    j ≠ i ∧ l[j]?.map (fun a => !(captions a).isEmpty) = some false := by
  rw [List.getElem?_modify] at h
  by_cases hij : i = j
  · subst hij
    cases hl : l[i]? with
    | none => simp [hl] at h
    | some a => simp [hl, hf a] at h
  · simp only [if_neg hij, Option.map_eq_map, Option.map_id_fun', id_eq] at h
    exact ⟨fun e => hij e.symm, h⟩

/-- What an earlier link leaves of the captions of an owner. -/
theorem hasCaptions_linkCaption {owner caption o : BodyChild}
    (hk : owner.kind = .picture ∨ owner.kind = .table)
    (h : hasCaptions (linkCaption w owner caption) o = some false) :
    o ≠ owner ∧ hasCaptions w o = some false := by
  obtain ⟨k, i⟩ := owner
  obtain ⟨k', j⟩ := o
  rcases hk with hk | hk
  · cases hk
    cases k' with
    | picture =>
      obtain ⟨hne, hfree⟩ := free_of_modify (fun _ => by simp) h
      exact ⟨fun e => hne (congrArg BodyChild.index e), hfree⟩
    | _ => exact ⟨by rintro ⟨⟩, h⟩
  · cases hk
    cases k' with
    | table =>
      obtain ⟨hne, hfree⟩ := free_of_modify (fun _ => by simp) h
      exact ⟨fun e => hne (congrArg BodyChild.index e), hfree⟩
    | _ => exact ⟨by rintro ⟨⟩, h⟩

/-- Two single blocks hold two items. -/
theorem SingleItem.ne (hw : Sound w) (hb : Blocks w starts) {i j : Nat} {r r' : BodyChild}
    (hij : i < j)
    (hi : SingleItem w starts i r) (hj : SingleItem w starts j r') : r ≠ r' := by
  obtain ⟨begin_, hbegin, hend, hr⟩ := hi
  obtain ⟨begin', hbegin', -, hr'⟩ := hj
  obtain ⟨hjlen, hjeq⟩ := List.getElem?_eq_some_iff.1 hbegin'
  have hnext : starts[i + 1]? = some starts[i + 1] := List.getElem?_eq_getElem (by omega)
  rw [hnext, Option.getD_some] at hend
  have hle : starts[i + 1] ≤ starts[j] := by
    rcases Nat.lt_or_eq_of_le hij with h | h
    · exact List.pairwise_iff_getElem.1 hb.sorted (i + 1) j (by omega) hjlen h
    · subst h
      exact Nat.le_refl _
  rintro rfl
  have heq : begin_ = begin' :=
    (List.getElem?_inj (List.getElem?_eq_some_iff.1 hr).1 hw.nodup).1 (hr.trans hr'.symm)
  omega

section Frame
variable {w' : LayoutWriter} (hbody : w'.body = w.body) (htexts : w'.doc.texts = w.doc.texts)
include hbody htexts

theorem Adjacent.frame {i : Nat} {owner caption : BodyChild}
    (h : Adjacent w' starts codeOwners i owner caption) :
    Adjacent w starts codeOwners i owner caption := by
  have hsingle : ∀ n r, SingleItem w' starts n r ↔ SingleItem w starts n r := by
    intro n r
    rw [SingleItem, SingleItem, hbody]
  have howner : ∀ n r, OwnerBlock w' starts codeOwners n r ↔
    OwnerBlock w starts codeOwners n r := by
    intro n r
    rw [OwnerBlock, OwnerBlock, hsingle, IsOwner, IsOwner, htexts]
  have hlabel : ∀ r, labelOf w' r = labelOf w r := by
    intro r
    rw [labelOf, labelOf, htexts]
  refine ⟨(hsingle _ _).1 h.caption_block, hlabel _ ▸ h.caption_label, ?_, h.owner_kind, ?_⟩
  · obtain ⟨n, hn, hs⟩ := h.owner_block
    exact ⟨n, hn, (hsingle _ _).1 hs⟩
  · intro n l r hn hl hr
    exact h.only n l r hn ((howner _ _).2 hl) ((howner _ _).2 hr)

end Frame

/-- **The whole pass** links captions of caption blocks to owners without a
caption, each owner and each caption once. -/
theorem linkAdjacentCaptions_made (captionBlocks : List Nat) : ∀ {w : LayoutWriter}, Sound w →
    Blocks w starts → captionBlocks.Pairwise (· < ·) →
    ∃ made, linkAdjacentCaptions starts codeOwners w captionBlocks = some (linkAll w made) ∧
      (made.map Prod.fst).Nodup ∧ (made.map Prod.snd).Nodup ∧
      ∀ l ∈ made, hasCaptions w l.1 = some false ∧
        ∃ i ∈ captionBlocks, Adjacent w starts codeOwners i l.1 l.2 := by
  induction captionBlocks with
  | nil =>
    intro w _ _ _
    exact ⟨[], rfl, List.nodup_nil, List.nodup_nil, fun l hl => by cases hl⟩
  | cons i captionBlocks ih =>
    intro w hw hb hblocks
    rw [List.pairwise_cons] at hblocks
    rw [linkAdjacentCaptions]
    rcases @linkAdjacent_cases w starts codeOwners hw hb i with
      hskip | ⟨owner, caption, hlink, hadj, hfree⟩
    · obtain ⟨made, hmade, howners, hcaptions, hall⟩ := ih hw hb hblocks.2
      refine ⟨made, by simp [hskip, hmade], howners, hcaptions, fun l hl => ?_⟩
      obtain ⟨hfree, j, hj, hadj⟩ := hall l hl
      exact ⟨hfree, j, List.mem_cons_of_mem _ hj, hadj⟩
    · obtain ⟨hbody, htexts⟩ := @linkCaption_frame w owner caption hadj.owner_kind
      have hb' : Blocks (linkCaption w owner caption) starts :=
        ⟨hb.sorted, fun s hs => by rw [hbody]; exact hb.inside s hs, hb.count⟩
      obtain ⟨made, hmade, howners, hcaptions, hall⟩ :=
        ih (hw.linkCaption owner caption) hb' hblocks.2
      have hlater : ∀ l ∈ made, l.1 ≠ owner ∧ hasCaptions w l.1 = some false ∧
          ∃ j ∈ captionBlocks, Adjacent w starts codeOwners j l.1 l.2 := by
        intro l hl
        obtain ⟨hfree', j, hj, hadj'⟩ := hall l hl
        obtain ⟨hne, hfree''⟩ := hasCaptions_linkCaption hadj.owner_kind hfree'
        exact ⟨hne, hfree'', j, hj, hadj'.frame hbody htexts⟩
      refine ⟨(owner, caption) :: made, by simp [hlink, hmade, linkAll], ?_, ?_, fun l hl => ?_⟩
      · rw [List.map_cons, List.nodup_cons]
        refine ⟨fun hmem => ?_, howners⟩
        obtain ⟨l, hl, he⟩ := List.mem_map.1 hmem
        exact (hlater l hl).1 he
      · rw [List.map_cons, List.nodup_cons]
        refine ⟨fun hmem => ?_, hcaptions⟩
        obtain ⟨l, hl, he⟩ := List.mem_map.1 hmem
        obtain ⟨-, -, j, hj, hadj'⟩ := hlater l hl
        exact SingleItem.ne hw hb (hblocks.1 j hj) hadj.caption_block hadj'.caption_block he.symm
      · rcases List.mem_cons.1 hl with rfl | hl
        · exact ⟨hfree, i, List.mem_cons_self, hadj⟩
        · obtain ⟨-, hfree', j, hj, hadj'⟩ := hlater l hl
          exact ⟨hfree', j, List.mem_cons_of_mem _ hj, hadj'⟩

end Pass

/-- The body of a writer names items of its document, each once. -/
theorem run_sound (page : PageContext) (raster : PageRaster) (byteSizeLong : TableCell → Nat)
    (warnings : Option (List PageWarning)) (ops : List Op)
    (hvalid : ValidRun page raster byteSizeLong { warnings := warnings } [] ops) :
    Sound (run page raster byteSizeLong { warnings := warnings } [] ops).1 := by
  obtain ⟨f, hinv⟩ := run_inv page raster byteSizeLong ops (inv_init warnings) hvalid
  refine ⟨fun r hr => ?_, ?_⟩
  · rw [hinv.body] at hr
    exact (hinv.items r).2 (Forest.mem_nodes.2 ⟨none, Forest.mem_children.1 hr⟩)
  · rw [hinv.body]
    exact f.children_nodup none

/-- **What the adjacent-caption pass links.** For every writer state (its body
names items of the document, each once: `run_sound`), block starts in order
and inside the body, and caption blocks in strictly increasing order: the pass
reads nothing outside the starts, the body and the item lists, and comes to a
sequence of `link_caption` calls in which no owner and no caption comes twice.
Each owner had no caption, is a picture or table, and is the one item of a
block next to the block whose one item is the caption; and a caption between
two blocks of one owner each is in none of them. -/
theorem linkAdjacentCaptions_links (w : LayoutWriter) (hw : Sound w) (starts : List Nat)
    (hb : Blocks w starts) (captionBlocks : List Nat) (hblocks : captionBlocks.Pairwise (· < ·))
    (codeOwners : Bool) :
    ∃ made, linkAdjacentCaptions starts codeOwners w captionBlocks = some (linkAll w made) ∧
      (made.map Prod.fst).Nodup ∧ (made.map Prod.snd).Nodup ∧
      (∀ l ∈ made, hasCaptions w l.1 = some false ∧ (l.1.kind = .picture ∨ l.1.kind = .table) ∧
        ∃ i ∈ captionBlocks, SingleItem w starts i l.2 ∧
          ∃ n, (n + 1 = i ∨ n = i + 1) ∧ SingleItem w starts n l.1) ∧
      (∀ i ∈ captionBlocks, ∀ caption left right n, SingleItem w starts i caption → n + 1 = i →
        OwnerBlock w starts codeOwners n left → OwnerBlock w starts codeOwners (i + 1) right →
        ∀ owner, (owner, caption) ∉ made) := by
  obtain ⟨made, hmade, howners, hcaptions, hall⟩ :=
    @linkAdjacentCaptions_made starts codeOwners captionBlocks w hw hb hblocks
  refine ⟨made, hmade, howners, hcaptions, fun l hl => ?_, ?_⟩
  · obtain ⟨hfree, i, hi, hadj⟩ := hall l hl
    exact ⟨hfree, hadj.owner_kind, i, hi, hadj.caption_block, hadj.owner_block⟩
  · intro i _ caption left right n hcaption hn hleft hright owner hmem
    obtain ⟨-, j, -, hadj⟩ := hall _ hmem
    -- the caption is the item of one block only
    have hij : i = j := by
      rcases Nat.lt_trichotomy i j with h | h | h
      · exact absurd rfl (SingleItem.ne hw hb h hcaption hadj.caption_block)
      · exact h
      · exact absurd rfl (SingleItem.ne hw hb h hadj.caption_block hcaption)
    subst hij
    exact hadj.only n left right hn hleft hright

/-- A picture, its caption and a text. -/
def sampleCaptionOps : List Op := [
  .picture none none,
  .text .caption none (ascii "Fig. 1") none,
  .text .text none (ascii "As shown") none]

def sampleWriter : LayoutWriter :=
  (run samplePage sampleRaster (fun cell => cell.text.length + 20) { warnings := none } []
    sampleCaptionOps).1

theorem linkAdjacentCaptions_links_sample :
    ∃ made, linkAdjacentCaptions [0, 1, 2] false sampleWriter [1] =
      some (linkAll sampleWriter made) ∧
      (made.map Prod.fst).Nodup ∧ (made.map Prod.snd).Nodup ∧
      (∀ l ∈ made, hasCaptions sampleWriter l.1 = some false ∧
        (l.1.kind = .picture ∨ l.1.kind = .table) ∧
        ∃ i ∈ [1], SingleItem sampleWriter [0, 1, 2] i l.2 ∧
          ∃ n, (n + 1 = i ∨ n = i + 1) ∧ SingleItem sampleWriter [0, 1, 2] n l.1) ∧
      (∀ i ∈ [1], ∀ caption left right n, SingleItem sampleWriter [0, 1, 2] i caption → n + 1 = i →
        OwnerBlock sampleWriter [0, 1, 2] false n left →
        OwnerBlock sampleWriter [0, 1, 2] false (i + 1) right →
          ∀ owner, (owner, caption) ∉ made) := by
  have hvalid : ValidRun samplePage sampleRaster (fun cell => cell.text.length + 20)
      { warnings := none } [] sampleCaptionOps := by
    refine ⟨?_, ?_, ?_, trivial⟩ <;> rintro q ⟨⟩
  have hblocks : Blocks sampleWriter [0, 1, 2] := ⟨by decide, by decide, by decide⟩
  exact linkAdjacentCaptions_links sampleWriter (run_sound samplePage sampleRaster _ none _ hvalid)
    [0, 1, 2] hblocks [1] (List.pairwise_singleton _ _) false

end VlmConvert.L3.LayoutWriter
