import VlmConvert.L1Text.MarkupText

/-!
# The stack of open elements

`TreeBuilder` of `src/mapping/markup_tree.cpp` as it works: one tree, and a
stack of pointers into it. Elements are linked when they are opened and are
never moved, and children are only added at the end, so a pointer is a path
of child indices from the root.

`Markup.Builder` keeps the open elements apart from the tree. The two agree
call by call (`Sim`), and that every stacked element is the last child of the
one below it is what makes them agree.

Results:

* `rightSpine_run`: the stack is the tree's right spine after every call.
* `parseMarkup_spec`: the parser as a whole.
-/
namespace VlmConvert.L1

open Bytes

/-! ## Paths -/

/-- Changes the children of the node at a path. -/
def MarkupNode.modifyAt :
    List Nat → (List MarkupNode → List MarkupNode) → MarkupNode → MarkupNode
  | _, _, .text t => .text t
  | [], f, .element tag attrs children => .element tag attrs (f children)
  | i :: path, f, .element tag attrs children =>
    .element tag attrs (children.modify i (modifyAt path f))

def MarkupNode.nodeAt : List Nat → MarkupNode → Option MarkupNode
  | [], node => some node
  | i :: path, node => node.children[i]?.bind (nodeAt path)

/-! ## The builder -/

/-- The tree and the stack, innermost first; the root is last and never
leaves it.
mirrors src/mapping/markup_tree.cpp:129-134, 209-212 -/
structure TreeBuilder where
  root : MarkupNode
  stack : List (List Nat)

def TreeBuilder.start : TreeBuilder := ⟨.element (ascii "root") [] [], [[]]⟩

def TreeBuilder.top (t : TreeBuilder) : List Nat := t.stack.headD []

def TreeBuilder.node (t : TreeBuilder) (path : List Nat) : MarkupNode :=
  (t.root.nodeAt path).getD (.text [])

/-- The tags of the open elements, innermost first. -/
def TreeBuilder.tags (t : TreeBuilder) : List Bytes :=
  t.stack.dropLast.map fun path => (t.node path).tag

/-- mirrors src/mapping/markup_tree.cpp:136-150 -/
def TreeBuilder.text (t : TreeBuilder) (raw : Bytes) : TreeBuilder :=
  if raw.isEmpty then t
  else { t with root := t.root.modifyAt t.top fun children => extendText children raw }

/-- mirrors src/mapping/markup_tree.cpp:183-195 -/
def closeCount (targets : List Bytes) (boundary : Bytes → Bool) : List Bytes → Option Nat
  | [] => none
  | tag :: rest =>
    if tag ∈ targets then some 1
    else if boundary tag then none
    else (closeCount targets boundary rest).map (· + 1)

/-- mirrors src/mapping/markup_tree.cpp:182-209 -/
def TreeBuilder.implicitClose (t : TreeBuilder) (name : Bytes) : TreeBuilder :=
  let go (targets : List Bytes) (boundary : Bytes → Bool) : TreeBuilder :=
    match closeCount targets boundary t.tags with
    | none => t
    | some n => { t with stack := t.stack.drop n }
  if name == ascii "td" || name == ascii "th" then
    go [ascii "td", ascii "th"] fun tag => tag == ascii "tr" || tag == ascii "table"
  else if name == ascii "tr" then go [ascii "tr"] fun tag => tag == ascii "table"
  else if name == ascii "li" then go [ascii "li"] fun tag => tag == ascii "ul" || tag == ascii "ol"
  else if name == ascii "p" then
    go [ascii "p"] fun tag => tag != ascii "p" && decide (tag ∈ kHtmlBlockTags)
  else t

/-- mirrors src/mapping/markup_tree.cpp:152-166 -/
def TreeBuilder.openTag (mode : MarkupMode) (t : TreeBuilder) (tag : Tag) : TreeBuilder :=
  let t := if mode = .html then t.implicitClose tag.name else t
  let empty := tag.selfClosing || (mode == .html && decide (tag.name ∈ kVoidTags))
  let raw := t.top ++ [(t.node t.top).children.length]
  let root := t.root.modifyAt t.top fun children => children ++ [.element tag.name tag.attrs []]
  if !empty && decide (t.stack.length ≤ kMaxMarkupDepth) then ⟨root, raw :: t.stack⟩
  else ⟨root, t.stack⟩

/-- mirrors src/mapping/markup_tree.cpp:168-175 -/
def TreeBuilder.closeTag (t : TreeBuilder) (name : Bytes) : TreeBuilder :=
  match t.tags.findIdx? (· == name) with
  | none => t
  | some i => { t with stack := t.stack.drop (i + 1) }

def TreeBuilder.step (mode : MarkupMode) (t : TreeBuilder) : Event → TreeBuilder
  | .text raw => t.text raw
  | .openTag tag => t.openTag mode tag
  | .closeTag name => t.closeTag name

def TreeBuilder.run (mode : MarkupMode) (events : List Event) : TreeBuilder :=
  events.foldl (TreeBuilder.step mode) .start

/-! ## The right spine -/

/-- `above` is the last child of the element at `below`. -/
def LastChild (root : MarkupNode) (above below : List Nat) : Prop :=
  ∃ node, root.nodeAt below = some node ∧ 0 < node.children.length ∧
    above = below ++ [node.children.length - 1]

/-- Every stacked element is the last child of the one below it, and the root
is at the bottom. -/
def RightSpine (t : TreeBuilder) : Prop :=
  t.stack.getLast? = some [] ∧ t.stack.IsChain (LastChild t.root)

/-- The tree of children with open elements behind them, outermost first. -/
def nest : List MarkupNode → List Frame → List MarkupNode
  | nodes, [] => nodes
  | nodes, f :: frames => nodes ++ [.element f.tag f.attrs (nest f.children frames)]

/-- The path to the innermost of them. -/
def spine : List MarkupNode → List Frame → List Nat
  | _, [] => []
  | nodes, f :: frames => nodes.length :: spine f.children frames

/-- The paths to the open elements, innermost first. -/
def stackOf (root : List MarkupNode) : List Frame → List (List Nat)
  | [] => [[]]
  | f :: frames => spine root (f :: frames).reverse :: stackOf root frames

/-- The children of the innermost of some open elements. -/
def innermost (nodes : List MarkupNode) (frames : List Frame) : List MarkupNode :=
  (frames.getLast?.map Frame.children).getD nodes

section Spine

theorem innermost_cons (f : Frame) (frames : List Frame) (nodes : List MarkupNode) :
    innermost nodes (f :: frames) = innermost f.children frames := by
  cases frames with
  | nil => rfl
  | cons g frames =>
    rw [innermost, innermost, List.getLast?_cons_cons]
    cases hlast : (g :: frames).getLast? with
    | none => simp at hlast
    | some last => rfl

theorem innermost_tag (f : Frame) (frames : List Frame) (tag : Bytes) :
    ((f :: frames).getLast?.map Frame.tag).getD tag =
      (frames.getLast?.map Frame.tag).getD f.tag := by
  cases frames with
  | nil => rfl
  | cons g frames =>
    rw [List.getLast?_cons_cons]
    cases hlast : (g :: frames).getLast? with
    | none => simp at hlast
    | some last => rfl

theorem spine_append (more : List Frame) : ∀ (frames : List Frame) (nodes : List MarkupNode),
    spine nodes (frames ++ more) = spine nodes frames ++ spine (innermost nodes frames) more := by
  intro frames
  induction frames with
  | nil => intro nodes; rfl
  | cons f frames ih =>
    intro nodes
    rw [List.cons_append, spine, spine, ih, List.cons_append, innermost_cons]

/-- The node at the path of some open elements, with more of them inside. -/
theorem nodeAt_spine (more : List Frame) : ∀ (frames : List Frame) (nodes : List MarkupNode)
    (tag : Bytes) (attrs : List (Bytes × Bytes)), ∃ attrs',
    MarkupNode.nodeAt (spine nodes frames) (.element tag attrs (nest nodes (frames ++ more))) =
      some (.element ((frames.getLast?.map Frame.tag).getD tag) attrs'
        (nest (innermost nodes frames) more)) := by
  intro frames
  induction frames with
  | nil => intro nodes tag attrs; exact ⟨attrs, rfl⟩
  | cons f frames ih =>
    intro nodes tag attrs
    obtain ⟨attrs', hat⟩ := ih f.children f.tag f.attrs
    refine ⟨attrs', ?_⟩
    have hchild : ∀ node : MarkupNode, (nodes ++ [node])[nodes.length]? = some node := by simp
    rw [List.cons_append, spine, nest, MarkupNode.nodeAt, MarkupNode.children, hchild,
      Option.bind_some, hat, innermost_cons, innermost_tag]

theorem modifyAt_spine (g : List MarkupNode → List MarkupNode) (f : Frame) :
    ∀ (frames : List Frame) (nodes : List MarkupNode) (tag : Bytes) (attrs : List (Bytes × Bytes)),
    MarkupNode.modifyAt (spine nodes (frames ++ [f])) g
        (.element tag attrs (nest nodes (frames ++ [f]))) =
      .element tag attrs (nest nodes (frames ++ [{ f with children := g f.children }])) := by
  have hlast : ∀ (nodes : List MarkupNode) (node : MarkupNode) (h : MarkupNode → MarkupNode),
      (nodes ++ [node]).modify nodes.length h = nodes ++ [h node] := by
    intro nodes node h
    induction nodes with
    | nil => rfl
    | cons first nodes ih =>
      rw [List.cons_append, List.length_cons, List.modify_succ_cons, ih]
      rfl
  intro frames
  induction frames with
  | nil =>
    intro nodes tag attrs
    simp only [List.nil_append, spine, nest, MarkupNode.modifyAt, hlast]
  | cons e frames ih =>
    intro nodes tag attrs
    simp only [List.cons_append, spine, nest, MarkupNode.modifyAt, hlast, ih]

/-- Closing the innermost element changes no tree. -/
theorem nest_close (g f : Frame) : ∀ (frames : List Frame) (nodes : List MarkupNode),
    nest nodes (frames ++ [g] ++ [f]) =
      nest nodes (frames ++
        [{ g with children := g.children ++ [.element f.tag f.attrs f.children] }]) := by
  intro frames
  induction frames with
  | nil => intro nodes; rfl
  | cons e frames ih =>
    intro nodes
    simp only [List.cons_append, nest]
    rw [ih]

theorem spine_concat (nodes : List MarkupNode) (frames : List Frame) (f : Frame) :
    spine nodes (frames ++ [f]) = spine nodes frames ++ [(innermost nodes frames).length] :=
  spine_append [f] frames nodes

theorem length_stackOf (root : List MarkupNode) (frames : List Frame) :
    (stackOf root frames).length = frames.length + 1 := by
  induction frames with
  | nil => rfl
  | cons f frames ih => rw [stackOf, List.length_cons, ih, List.length_cons]

theorem head_stackOf (root : List MarkupNode) (frames : List Frame) :
    (stackOf root frames).headD [] = spine root frames.reverse := by
  cases frames <;> rfl

/-- The innermost element's children have no say in the paths. -/
theorem stackOf_children (root : List MarkupNode) (f : Frame) (frames : List Frame)
    (children : List MarkupNode) :
    stackOf root ({ f with children := children } :: frames) = stackOf root (f :: frames) := by
  rw [stackOf, stackOf, List.reverse_cons, List.reverse_cons, spine_concat, spine_concat]

section Outer
variable (root : List MarkupNode) (tag : Bytes) (attrs : List (Bytes × Bytes))

/-- The tags on the stack are those of the open elements. -/
theorem tags_stackOf : ∀ outer inner : List Frame,
    (stackOf root outer).dropLast.map (fun path => ((MarkupNode.nodeAt path
      (.element tag attrs (nest root (inner ++ outer).reverse))).getD (.text [])).tag) =
      outer.map Frame.tag := by
  intro outer
  induction outer with
  | nil => intro inner; rfl
  | cons f outer ih =>
    intro inner
    have hne : stackOf root outer ≠ [] := by cases outer <;> simp [stackOf]
    obtain ⟨attrs', hat⟩ := nodeAt_spine inner.reverse (f :: outer).reverse root tag attrs
    have hrest := ih (inner ++ [f])
    rw [List.append_assoc, List.singleton_append] at hrest
    rw [← List.reverse_append] at hat
    rw [stackOf, List.dropLast_cons_of_ne_nil hne, List.map_cons, hrest, hat, List.map_cons]
    simp [MarkupNode.tag]

theorem chain_stackOf : ∀ outer inner : List Frame, (stackOf root outer).IsChain
    (LastChild (.element tag attrs (nest root (inner ++ outer).reverse))) := by
  intro outer
  induction outer with
  | nil => intro inner; exact List.IsChain.singleton _
  | cons f outer ih =>
    intro inner
    obtain ⟨attrs', hat⟩ := nodeAt_spine (f :: inner.reverse) outer.reverse root tag attrs
    have hsplit : outer.reverse ++ f :: inner.reverse = (inner ++ f :: outer).reverse := by simp
    rw [hsplit] at hat
    have hrest := ih (inner ++ [f])
    rw [List.append_assoc, List.singleton_append] at hrest
    rw [stackOf, List.isChain_cons]
    refine ⟨fun below hbelow => ?_, hrest⟩
    have hpath : below = spine root outer.reverse := by
      have hhead := head_stackOf root outer
      rw [List.headD_eq_head?_getD, hbelow] at hhead
      exact hhead
    refine ⟨_, hpath ▸ hat, ?_, ?_⟩
    · simp [MarkupNode.children, nest]
    · rw [hpath, List.reverse_cons, spine_concat]
      simp [MarkupNode.children, nest]

end Outer

end Spine

/-! ## The two builders agree -/

/-- The tree with its stack, and the same tree with its open elements apart. -/
structure Sim (t : TreeBuilder) (b : Builder) : Prop where
  root_eq : t.root = .element (ascii "root") [] (nest b.root b.frames.reverse)
  stack_eq : t.stack = stackOf b.root b.frames

/-- The innermost open element's children, changed. -/
def Builder.mapTop (g : List MarkupNode → List MarkupNode) (b : Builder) : Builder :=
  match b.frames with
  | [] => { b with root := g b.root }
  | f :: rest => { b with frames := { f with children := g f.children } :: rest }

theorem addChild_mapTop (b : Builder) (node : MarkupNode) :
    b.addChild node = b.mapTop fun children => children ++ [node] := by
  obtain ⟨frames, root⟩ := b
  cases frames <;> rfl

theorem text_mapTop (b : Builder) (raw : Bytes) :
    b.text raw = if raw.isEmpty then b else b.mapTop fun children => extendText children raw := by
  obtain ⟨frames, root⟩ := b
  cases frames <;> rfl

section Sim
variable {t : TreeBuilder} {b : Builder}

theorem sim_start : Sim .start ⟨[], []⟩ := ⟨rfl, rfl⟩

theorem Sim.top_eq (h : Sim t b) : t.top = spine b.root b.frames.reverse := by
  rw [TreeBuilder.top, h.stack_eq, head_stackOf]

theorem Sim.tags_eq (h : Sim t b) : t.tags = b.frames.map Frame.tag := by
  have htags := tags_stackOf b.root (ascii "root") [] b.frames []
  rw [List.nil_append] at htags
  unfold TreeBuilder.tags TreeBuilder.node
  rw [h.stack_eq, h.root_eq]
  exact htags

/-- **The stack is the tree's right spine.** -/
theorem Sim.rightSpine (h : Sim t b) : RightSpine t := by
  have hlast : ∀ frames : List Frame, (stackOf b.root frames).getLast? = some [] := by
    intro frames
    induction frames with
    | nil => rfl
    | cons f frames ih =>
      rw [stackOf, List.getLast?_cons, ih]
      rfl
  have hchain := chain_stackOf b.root (ascii "root") [] b.frames []
  rw [List.nil_append] at hchain
  constructor
  · rw [h.stack_eq]; exact hlast b.frames
  · rw [h.stack_eq, h.root_eq]; exact hchain

theorem Sim.mapTop (h : Sim t b) (g : List MarkupNode → List MarkupNode) :
    Sim { t with root := t.root.modifyAt t.top g } (b.mapTop g) := by
  have htop := h.top_eq
  obtain ⟨hroot, hstack⟩ := h
  obtain ⟨frames, root⟩ := b
  cases frames with
  | nil =>
    refine ⟨?_, hstack⟩
    rw [hroot, htop]
    rfl
  | cons f frames =>
    refine ⟨?_, ?_⟩
    · have hmodify := modifyAt_spine g f frames.reverse root (ascii "root") []
      simp only [List.reverse_cons] at hroot htop
      rw [hroot, htop, hmodify]
      simp [Builder.mapTop]
    · rw [hstack]
      exact (stackOf_children root f frames _).symm

/-- An element closed is a path dropped. -/
theorem Sim.pop (h : Sim t b) (hopen : b.frames ≠ []) :
    Sim { t with stack := t.stack.drop 1 } b.pop := by
  obtain ⟨hroot, hstack⟩ := h
  obtain ⟨frames, root⟩ := b
  cases frames with
  | nil => exact absurd rfl hopen
  | cons f frames =>
    cases frames with
    | nil =>
      refine ⟨?_, ?_⟩
      · rw [hroot]; rfl
      · rw [hstack]; rfl
    | cons g frames =>
      have hclose := nest_close g f frames.reverse root
      refine ⟨?_, ?_⟩
      · simp only [List.reverse_cons] at hroot
        rw [hroot, hclose]
        simp [Builder.pop, Builder.addChild]
      · rw [hstack, stackOf, List.drop_one, List.tail_cons]
        exact (stackOf_children root g frames _).symm

theorem Sim.popN : ∀ (n : Nat) {t : TreeBuilder} {b : Builder}, Sim t b → n ≤ b.frames.length →
    Sim { t with stack := t.stack.drop n } (b.popN n) := by
  intro n
  induction n with
  | zero => intro t b h _; exact h
  | succ n ih =>
    intro t b h hn
    have hne : b.frames ≠ [] := by
      intro he
      rw [he] at hn
      exact Nat.not_succ_le_zero n hn
    have hpop := ih (h.pop hne) (by rw [length_pop]; omega)
    rw [List.drop_drop, Nat.add_comm] at hpop
    exact hpop

theorem Sim.text (h : Sim t b) (raw : Bytes) : Sim (t.text raw) (b.text raw) := by
  rw [text_mapTop, TreeBuilder.text]
  split
  · exact h
  · exact h.mapTop _

theorem closeUpTo_tags (targets : List Bytes) (boundary : Bytes → Bool) (frames : List Frame) :
    closeUpTo targets boundary frames = closeCount targets boundary (frames.map Frame.tag) ∧
      ∀ n, closeUpTo targets boundary frames = some n → n ≤ frames.length := by
  induction frames with
  | nil => exact ⟨rfl, fun n h => nomatch h⟩
  | cons f frames ih =>
    obtain ⟨heq, hle⟩ := ih
    rw [List.map_cons, closeUpTo, closeCount, heq]
    refine ⟨rfl, fun n h => ?_⟩
    split at h
    · rw [← Option.some.inj h]; exact Nat.succ_le_succ (Nat.zero_le _)
    · split at h
      · cases h
      · obtain ⟨m, hm, rfl⟩ := Option.map_eq_some_iff.1 h
        exact Nat.succ_le_succ (hle m (heq.trans hm))

theorem Sim.implicitClose (h : Sim t b) (name : Bytes) :
    Sim (t.implicitClose name) (b.implicitClose name) := by
  have hgo : ∀ (targets : List Bytes) (boundary : Bytes → Bool),
      Sim (match closeCount targets boundary t.tags with
        | none => t
        | some n => { t with stack := t.stack.drop n })
        (match closeUpTo targets boundary b.frames with
        | none => b
        | some n => b.popN n) := by
    intro targets boundary
    obtain ⟨heq, hle⟩ := closeUpTo_tags targets boundary b.frames
    rw [h.tags_eq, ← heq]
    cases hclose : closeUpTo targets boundary b.frames with
    | none => exact h
    | some n => exact Sim.popN n h (hle n hclose)
  unfold TreeBuilder.implicitClose Builder.implicitClose
  dsimp only
  split
  · exact hgo _ _
  split
  · exact hgo _ _
  split
  · exact hgo _ _
  split
  · exact hgo _ _
  · exact h

theorem Sim.closeTag (h : Sim t b) (name : Bytes) : Sim (t.closeTag name) (b.closeTag name) := by
  have hfind : t.tags.findIdx? (· == name) = b.frames.findIdx? (·.tag == name) := by
    rw [h.tags_eq, List.findIdx?_map]
    rfl
  unfold TreeBuilder.closeTag Builder.closeTag
  rw [hfind]
  cases hi : b.frames.findIdx? (·.tag == name) with
  | none => exact h
  | some i => exact Sim.popN (i + 1) h (List.findIdx?_eq_some_iff_getElem.1 hi).1

/-- An element opened: linked like a closed one, with its path on the stack. -/
theorem Sim.push (h : Sim t b) (name : Bytes) (attrs : List (Bytes × Bytes)) :
    Sim ⟨t.root.modifyAt t.top fun children => children ++ [.element name attrs []],
        (t.top ++ [(t.node t.top).children.length]) :: t.stack⟩
      { b with frames := ⟨name, attrs, []⟩ :: b.frames } := by
  have hlinked := h.mapTop fun children => children ++ [.element name attrs []]
  obtain ⟨attrs', hat⟩ := nodeAt_spine [] b.frames.reverse b.root (ascii "root") []
  rw [List.append_nil, ← h.root_eq, ← h.top_eq] at hat
  refine ⟨?_, ?_⟩
  · obtain ⟨frames, root⟩ := b
    cases frames with
    | nil => exact hlinked.root_eq
    | cons f frames =>
      have hclose := nest_close f ⟨name, attrs, []⟩ frames.reverse root
      rw [hlinked.root_eq]
      simp only [List.reverse_cons, Builder.mapTop]
      rw [hclose]
  · have hlen : (t.node t.top).children.length = (innermost b.root b.frames.reverse).length := by
      rw [TreeBuilder.node, hat]
      rfl
    rw [stackOf, List.reverse_cons, spine_concat, h.top_eq.symm, hlen, h.stack_eq]

theorem Sim.openTag (h : Sim t b) (mode : MarkupMode) (tag : Tag) :
    Sim (t.openTag mode tag) (b.openTag mode tag) := by
  have hclosed : Sim (if mode = .html then t.implicitClose tag.name else t)
      (if mode = .html then b.implicitClose tag.name else b) := by
    split
    · exact h.implicitClose tag.name
    · exact h
  unfold TreeBuilder.openTag Builder.openTag
  dsimp only
  generalize (if mode = .html then t.implicitClose tag.name else t) = t' at hclosed ⊢
  generalize (if mode = .html then b.implicitClose tag.name else b) = b' at hclosed ⊢
  have hlen : t'.stack.length = b'.frames.length + 1 := by
    rw [hclosed.stack_eq, length_stackOf]
  rw [hlen]
  split
  · exact hclosed.push tag.name tag.attrs
  · rw [addChild_mapTop]
    exact hclosed.mapTop _

/-- One call. -/
theorem Sim.step (h : Sim t b) (mode : MarkupMode) (event : Event) :
    Sim (t.step mode event) (b.step mode event) := by
  cases event with
  | text raw => exact h.text raw
  | openTag tag => exact h.openTag mode tag
  | closeTag name => exact h.closeTag name

/-- All calls. -/
theorem Sim.run (mode : MarkupMode) (events : List Event) : ∀ {t : TreeBuilder} {b : Builder},
    Sim t b → Sim (events.foldl (TreeBuilder.step mode) t)
      (events.foldl (Builder.step mode) b) := by
  induction events with
  | nil => intro t b h; exact h
  | cons event events ih => intro t b h; exact ih (h.step mode event)

theorem Sim.take (h : Sim t b) : t.root = b.take := by
  have hall := Sim.popN b.frames.length h (Nat.le_refl _)
  have hroot := hall.root_eq
  rw [frames_popN_all] at hroot
  exact hroot

end Sim

theorem rightSpine_run (mode : MarkupMode) (events : List Event) :
    RightSpine (TreeBuilder.run mode events) :=
  (Sim.run mode events sim_start).rightSpine

/-! ## Depth -/

mutual
/-- How far below a node its deepest descendant is. -/
def MarkupNode.levels : MarkupNode → Nat
  | .text _ => 0
  | .element _ _ children => levelsIn children
def levelsIn : List MarkupNode → Nat
  | [] => 0
  | child :: rest => max (child.levels + 1) (levelsIn rest)
end

/-- What each open element holds stays within the limit from where it is. -/
def ShallowFrames : List Frame → Prop
  | [] => True
  | f :: rest => rest.length + 1 + levelsIn f.children ≤ kMaxMarkupDepth + 1 ∧ ShallowFrames rest

structure Shallow (b : Builder) : Prop where
  opened : b.frames.length ≤ kMaxMarkupDepth
  root_le : levelsIn b.root ≤ kMaxMarkupDepth + 1
  frames_le : ShallowFrames b.frames

section Depth

theorem levelsIn_append (l m : List MarkupNode) :
    levelsIn (l ++ m) = max (levelsIn l) (levelsIn m) := by
  induction l with
  | nil => simp [levelsIn]
  | cons node l ih => rw [List.cons_append, levelsIn, levelsIn, ih, Nat.max_assoc]

theorem levelsIn_extendText (nodes : List MarkupNode) (raw : Bytes) :
    levelsIn (extendText nodes raw) ≤ max (levelsIn nodes) 1 := by
  unfold extendText
  split
  · rename_i text hlast
    obtain ⟨front, rfl⟩ := List.getLast?_eq_some_iff.1 hlast
    rw [List.dropLast_concat, levelsIn_append, levelsIn_append]
    simp only [levelsIn, MarkupNode.levels]
    omega
  · rw [levelsIn_append]
    simp [levelsIn, MarkupNode.levels]

variable {b : Builder}

/-- A leaf at the end of the innermost element. -/
theorem Shallow.mapTop (h : Shallow b) {g : List MarkupNode → List MarkupNode}
    (hg : ∀ nodes, levelsIn (g nodes) ≤ max (levelsIn nodes) 1) : Shallow (b.mapTop g) := by
  obtain ⟨hopened, hroot, hframes⟩ := h
  obtain ⟨frames, root⟩ := b
  cases frames with
  | nil =>
    have hle := hg root
    refine ⟨hopened, ?_, trivial⟩
    simp only [Builder.mapTop] at hroot ⊢
    omega
  | cons f rest =>
    have hle := hg f.children
    obtain ⟨hf, hrest⟩ := hframes
    refine ⟨hopened, hroot, ?_, hrest⟩
    dsimp only [List.length_cons] at hopened ⊢
    omega

theorem Shallow.pop (h : Shallow b) : Shallow b.pop := by
  obtain ⟨hopened, hroot, hframes⟩ := h
  obtain ⟨frames, root⟩ := b
  cases frames with
  | nil => exact ⟨hopened, hroot, hframes⟩
  | cons f rest =>
    obtain ⟨hf, hrest⟩ := hframes
    cases rest with
    | nil =>
      refine ⟨Nat.zero_le _, ?_, trivial⟩
      simp only [Builder.pop, Builder.addChild, levelsIn_append, levelsIn, MarkupNode.levels,
        List.length_nil] at hroot hf ⊢
      omega
    | cons g rest =>
      obtain ⟨hg, hrest⟩ := hrest
      refine ⟨Nat.le_of_succ_le hopened, hroot, ?_, hrest⟩
      simp only [levelsIn_append, levelsIn, MarkupNode.levels, List.length_cons] at hf hg ⊢
      omega

theorem Shallow.popN : ∀ (n : Nat) {b : Builder}, Shallow b → Shallow (b.popN n) := by
  intro n
  induction n with
  | zero => intro b h; exact h
  | succ n ih => intro b h; exact ih h.pop

theorem Shallow.openTag (h : Shallow b) (mode : MarkupMode) (tag : Tag) :
    Shallow (b.openTag mode tag) := by
  have hclosed : Shallow (if mode = .html then b.implicitClose tag.name else b) := by
    split
    · obtain ⟨n, hn⟩ := implicitClose_popN b tag.name
      rw [hn]
      exact h.popN n
    · exact h
  unfold Builder.openTag
  dsimp only
  generalize (if mode = .html then b.implicitClose tag.name else b) = b' at hclosed ⊢
  split
  · rename_i hpush
    have hroom : b'.frames.length + 1 ≤ kMaxMarkupDepth := by
      rw [Bool.and_eq_true, decide_eq_true_eq] at hpush
      exact hpush.2
    refine ⟨hroom, hclosed.root_le, ?_, hclosed.frames_le⟩
    exact Nat.le_succ_of_le hroom
  · rw [addChild_mapTop]
    refine hclosed.mapTop fun nodes => ?_
    rw [levelsIn_append]
    exact Nat.le_refl _

theorem Shallow.step (h : Shallow b) (mode : MarkupMode) (event : Event) :
    Shallow (b.step mode event) := by
  cases event with
  | text raw =>
    rw [Builder.step, text_mapTop]
    split
    · exact h
    · exact h.mapTop fun nodes => levelsIn_extendText nodes raw
  | openTag tag => exact h.openTag mode tag
  | closeTag name =>
    obtain ⟨n, hn⟩ := closeTag_popN b name
    rw [Builder.step, hn]
    exact h.popN n

theorem Shallow.run (mode : MarkupMode) (events : List Event) : ∀ {b : Builder}, Shallow b →
    Shallow (events.foldl (Builder.step mode) b) := by
  induction events with
  | nil => intro b h; exact h
  | cons event events ih => intro b h; exact ih (h.step mode event)

theorem levels_parseMarkup (mode : MarkupMode) (text : Bytes) :
    (parseMarkup mode text).levels ≤ kMaxMarkupDepth + 1 := by
  have hstart : Shallow ⟨[], []⟩ := ⟨Nat.zero_le _, Nat.zero_le _, trivial⟩
  rw [parseMarkup_events, Builder.take, MarkupNode.levels]
  exact (Shallow.popN _ (Shallow.run mode (parseEvents mode text) hstart)).root_le

end Depth

/-! ## The loop ends -/

/-- A run of the loop from the pending text and the rest, without fuel: the
calls it makes before it ends.
mirrors src/mapping/markup_tree.cpp:312-391 -/
inductive ParserRun (mode : MarkupMode) : Bytes → Bytes → List Event → Prop
  | done {pending rest} (h : findByte 0x3C rest = none) :
      ParserRun mode pending rest [.text (pending ++ rest)]
  | step {pending rest before open_ calls pending' rest' events}
      (hfind : findByte 0x3C rest = some (before, open_))
      (hopen : openEvents mode (pending ++ before) open_ = (calls, pending', rest'))
      (hrun : ParserRun mode pending' rest' events) :
      ParserRun mode pending rest (calls ++ events)

theorem parserRun_eventsLoop (mode : MarkupMode) : ∀ {n : Nat} {pending rest : Bytes},
    rest.length ≤ n → ParserRun mode pending rest (eventsLoop mode n pending rest) := by
  intro n
  induction n with
  | zero =>
    intro pending rest hn
    have hrest : rest = [] := List.length_eq_zero_iff.1 (Nat.le_zero.1 hn)
    subst hrest
    exact .done rfl
  | succ n ih =>
    intro pending rest hn
    rw [eventsLoop]
    cases hfind : findByte 0x3C rest with
    | none => exact .done hfind
    | some r =>
      obtain ⟨before, open_⟩ := r
      obtain ⟨hsplit, hpos⟩ := findByte_eq hfind
      have hlen := congrArg List.length hsplit
      have hless := openEvents_length mode (pending ++ before) hpos
      rw [List.length_append] at hlen
      have hfuel : (openEvents mode (pending ++ before) open_).2.2.length ≤ n := by omega
      exact .step hfind rfl (ih hfuel)

/-- **The parser, on every text.** Its loop ends; the tree it builds has the
text's character data, decoded and in order, and nothing else; after every
call each stacked element is the last child of the one below it; and no node
is deeper than the limit and one. -/
theorem parseMarkup_spec (mode : MarkupMode) (text : Bytes) :
    ParserRun mode [] text (parseEvents mode text) ∧
      (TreeBuilder.run mode (parseEvents mode text)).root = parseMarkup mode text ∧
      (markupPieces mode text).flatMap MarkupPiece.source = text ∧
      (parseMarkup mode text).chars = (markupPieces mode text).flatMap MarkupPiece.chars ∧
      (∀ events, events <+: parseEvents mode text → RightSpine (TreeBuilder.run mode events)) ∧
      (parseMarkup mode text).levels ≤ kMaxMarkupDepth + 1 := by
  refine ⟨parserRun_eventsLoop mode (Nat.le_refl _), ?_, markupPieces_source text,
    chars_parseMarkup mode text, fun events _ => rightSpine_run mode events,
    levels_parseMarkup mode text⟩
  rw [parseMarkup_events]
  exact (Sim.run mode (parseEvents mode text) sim_start).take

end VlmConvert.L1
