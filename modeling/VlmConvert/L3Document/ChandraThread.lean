import VlmConvert.L3Document.ChandraWalk

/-!
# Mappings on one thread

The worker maps its responses one after another, and goes on behind an
exception (`src/service/vlm_convert_service.cpp:420-433`). Only `t_skip_chem`
passes from one mapping to the next: `picture` sets it for the content it walks
and sets it back behind the walk, but not behind an exception.

Results:
* `mapped_thread`: when a mapping leaves `t_skip_chem` set.
* `mapAll_fresh`: without such a mapping, every response is mapped as on a
  fresh thread.
* `cut_taints`: behind such a mapping, some response is not.
-/
namespace VlmConvert.L3.Chandra

open Bytes L1 L2 Doclang Interruptible

/-! ## The entry points -/

mutual
/-- The outer layout blocks, in document order.
mirrors src/mapping/chandra.cpp:824-840 -/
def findBlocks : MarkupNode → List MarkupNode
  | .text _ => []
  | .element _ _ children => findBlocksIn children
def findBlocksIn : List MarkupNode → List MarkupNode
  | [] => []
  | child :: rest =>
    (if child.isText then []
      else if child.hasAttr (ascii "data-label") || child.hasAttr (ascii "data-bbox") then [child]
      else findBlocks child) ++ findBlocksIn rest
end

/-- mirrors src/mapping/chandra.cpp:831-835 -/
def isBlankPage (blocks : List MarkupNode) : Bool :=
  blocks.any fun block => (block :: descendants block).any fun node =>
    node.attr (ascii "data-label") [] == ascii "Blank-Page"

/-- mirrors src/mapping/chandra.cpp:848-851 -/
def isTranscription (child : MarkupNode) : Bool :=
  !child.isText && child.tag != ascii "script" && child.tag != ascii "style" &&
    child.tag != ascii "head"

section EntryPoints
variable (env : Env)

/-- The fuel of a walk over the trees below a node. -/
def fuel (node : MarkupNode) : Nat := 3 * height node + 2

def finishPage : Builder (Except Bytes (Document × Option (List PageWarning))) := do
  let s ← state
  pure (LayoutWriter.finish env.page env.raster s.out.writer (ascii "Chandra") true)

/-- mirrors src/mapping/chandra.cpp:842-861 -/
def walkPage (root : MarkupNode) : Builder Unit :=
  if (findBlocks root).isEmpty then do
    let _ ← walk env (fuel root) (root.children.filter isTranscription) none none .text
    pure ()
  else (findBlocks root).foldlM (fun _ node => do
    let _ ← block env (fuel root) node none none .text
    pure ()) ()

/-- mirrors src/mapping/chandra.cpp:811-868 -/
def mapChandraHtml (text : Bytes) : Builder (Except Bytes (Document × Option (List PageWarning))) :=
  let root := parseMarkup .html text
  if (pyStrip text).isEmpty then finishPage env
  else if (findBlocks root).isEmpty && (root.children.filter isTranscription).isEmpty then
    pure (.error (ascii "Chandra response contains no HTML transcription or layout blocks"))
  else do
    walkPage env root
    let s ← state
    if s.out.writer.entries.isEmpty && !isBlankPage (findBlocks root) then
      pure (.error (ascii "Chandra HTML contains no document content"))
    else finishPage env

/-- mirrors src/mapping/chandra.cpp:752-762 -/
def addHtmlFragment (html : Bytes) (label : DocItemLabel) (box : Option BoundingBox)
    (parent : Option BodyChild) : Builder Bool :=
  let root := parseMarkup .html html
  if (descendants root).isEmpty then pure false
  else do
    let _ ← walk env (fuel root) root.children parent (box.map fun box => { box := some box }) label
    pure true

/-- The captions of a table as text.
mirrors src/mapping/chandra.cpp:772-779 -/
def flattenCaptions (table : MarkupNode) : MarkupNode :=
  .element table.tag table.attrs (table.children.map fun child =>
    if !child.isText && (child.tag == ascii "caption" || child.tag == ascii "figcaption") then
      .element child.tag child.attrs [.text (htmlText child)]
    else child)

/-- mirrors src/mapping/chandra.cpp:764-789 -/
def addHtmlTable (html : Bytes) (box : Option BoundingBox) (parent : Option BodyChild) :
    Builder (Option BodyChild) :=
  match (findElement (ascii "table") (parseMarkup .html html)).filter fun table =>
    !(chandraTableCells table).isEmpty with
  | none => pure none
  | some found => do
    let before ← state
    let table := flattenCaptions found
    let _ ← Chandra.table env (fuel table) table parent (some { box := box, textOwner := false })
    let s ← state
    if s.out.writer.entries.length = before.out.writer.entries.length then pure none
    else pure (some ⟨.table, s.out.writer.doc.tables.length - 1⟩)

end EntryPoints

/-! ## Jobs -/

/-- A response for the builder, or a fragment of one for a writer. -/
inductive Call
  | page (text : Bytes) (warnings : Option (List PageWarning))
  | fragment (out : ChandraWriter) (html : Bytes) (label : DocItemLabel) (box : Option BoundingBox)
      (parent : Option BodyChild)
  | table (out : ChandraWriter) (html : Bytes) (box : Option BoundingBox)
      (parent : Option BodyChild)

structure Job where
  env : Env
  call : Call

inductive Answer
  | page (made : Except Bytes (Document × Option (List PageWarning)))
  | fragment (added : Bool)
  | table (made : Option BodyChild)

/-- What a mapping produced: its answer, and the writer with the document. -/
structure Mapped where
  answer : Answer
  out : ChandraWriter

namespace Job
variable (job : Job)

def program : Builder Answer :=
  match job.call with
  | .page text _ => .page <$> mapChandraHtml job.env text
  | .fragment _ html label box parent => .fragment <$> addHtmlFragment job.env html label box parent
  | .table _ html box parent => .table <$> addHtmlTable job.env html box parent

/-- The writer a mapping starts with. -/
def out : ChandraWriter :=
  match job.call with
  | .page _ warnings => { writer := { warnings := warnings } }
  | .fragment out _ _ _ _ | .table out _ _ _ => out

/-- A builder of its own, on a thread that left `t_skip_chem` as it is. -/
def start (tSkipChem : Bool) : State := { out := job.out, tSkipChem := tSkipChem }

/-- The product of a mapping, unless an exception cuts it short after `fuse`
points, and the state it leaves. -/
def run (tSkipChem : Bool) (fuse : Option Nat) : Option Mapped × State :=
  match job.program (fuse, job.start tSkipChem) with
  | .ok answer (_, s) => (some ⟨answer, s.out⟩, s)
  | .error _ (_, s) => (none, s)

/-- The product on a fresh thread. -/
def fresh : Option Mapped := (job.run false none).1

/-- The mapping was cut short in the content of a picture that holds exactly one
`<chem>`. -/
def CutInPicture (tSkipChem : Bool) (fuse : Option Nat) : Prop :=
  (job.run tSkipChem fuse).1 = none ∧ (job.run tSkipChem fuse).2.walked.headD false = true

end Job

/-- The products of a thread's mappings, one after another, each with the points
it passes before an exception. -/
def mapAll (tSkipChem : Bool) : List (Job × Option Nat) → List (Option Mapped)
  | [] => []
  | (job, fuse) :: jobs =>
    (job.run tSkipChem fuse).1 :: mapAll (job.run tSkipChem fuse).2.tSkipChem jobs

/-- No mapping of the run is cut short in a picture that holds exactly one
`<chem>`. -/
def CutsApart (tSkipChem : Bool) : List (Job × Option Nat) → Prop
  | [] => True
  | (job, fuse) :: jobs => ¬ job.CutInPicture tSkipChem fuse ∧
    CutsApart (job.run tSkipChem fuse).2.tSkipChem jobs

/-! ## The flag -/

mutual
theorem height_findBlocks :
    ∀ (node : MarkupNode), ∀ block ∈ findBlocks node, height block < height node
  | .text _, block, h => by simp [findBlocks] at h
  | .element _ _ children, block, h => Nat.lt_succ_of_le (height_findBlocksIn children block h)
theorem height_findBlocksIn :
    ∀ (l : List MarkupNode), ∀ block ∈ findBlocksIn l, height block ≤ heightIn l
  | [], block, h => by simp [findBlocksIn] at h
  | child :: rest, block, h => by
    rw [findBlocksIn] at h
    rw [heightIn]
    rcases List.mem_append.1 h with h | h
    · refine Nat.le_trans ?_ (Nat.le_max_left _ _)
      split at h
      · simp at h
      · split at h
        · exact Nat.le_of_eq (congrArg height (List.mem_singleton.1 h))
        · exact Nat.le_of_lt (height_findBlocks child block h)
    · exact Nat.le_trans (height_findBlocksIn rest block h) (Nat.le_max_right _ _)
end

theorem sound_finishPage (env : Env) : Sound (finishPage env) :=
  sound_state.bind fun _ => sound_pure _

theorem sound_walkPage (env : Env) (root : MarkupNode) : Sound (walkPage env root) := by
  unfold walkPage
  refine .ite ?_ (sound_foldlM _ (fun _ node hnode => ?_) ())
  · have hnodes : heightIn (root.children.filter isTranscription) ≤ heightIn root.children :=
      heightIn_le fun child hchild => height_le_heightIn (List.mem_of_mem_filter hchild)
    have hchildren := height_children root
    exact ((enough env _).walk _ _ _ _ (by unfold fuel; omega)).bind fun _ => sound_pure _
  · have := height_findBlocks root node hnode
    exact ((enough env _).block _ _ _ _ (by unfold fuel; omega)).bind fun _ => sound_pure _

theorem sound_mapChandraHtml (env : Env) (text : Bytes) : Sound (mapChandraHtml env text) := by
  unfold mapChandraHtml
  refine .ite (sound_finishPage env) (.ite (sound_pure _) ?_)
  refine (sound_walkPage env _).bind fun _ => sound_state.bind fun s => ?_
  exact .ite (sound_pure _) (sound_finishPage env)

theorem sound_addHtmlFragment (env : Env) (html : Bytes) (label : DocItemLabel)
    (box : Option BoundingBox) (parent : Option BodyChild) :
    Sound (addHtmlFragment env html label box parent) := by
  unfold addHtmlFragment
  refine .ite (sound_pure _) ?_
  have hchildren := height_children (parseMarkup .html html)
  exact ((enough env _).walk _ _ _ _ (by unfold fuel; omega)).bind fun _ => sound_pure _

theorem sound_addHtmlTable (env : Env) (html : Bytes) (box : Option BoundingBox)
    (parent : Option BodyChild) : Sound (addHtmlTable env html box parent) := by
  unfold addHtmlTable
  split
  · exact sound_pure _
  · refine sound_state.bind fun before => ?_
    refine ((enough env _).table _ _ _ (by unfold fuel; omega)).bind fun _ =>
      sound_state.bind fun s => ?_
    exact .ite (sound_pure _) (sound_pure _)

theorem Job.sound (job : Job) : Sound job.program := by
  unfold Job.program
  split
  · exact (sound_mapChandraHtml _ _).map _
  · exact (sound_addHtmlFragment _ _ _ _ _).map _
  · exact (sound_addHtmlTable _ _ _ _).map _

/-- A mapping from a fresh thread comes to an end. -/
theorem Job.meets (job : Job) :
    Meets job.program (fun _ => Walking []) State.Mirrored (job.start false) :=
  job.sound.flags [] (job.start false) ⟨rfl, rfl, rfl⟩

/-- **The flag a mapping leaves on a fresh thread**: set exactly by an exception
in the content of a picture that holds exactly one `<chem>`. -/
theorem mapped_thread (job : Job) (fuse : Option Nat) :
    (job.run false fuse).2.tSkipChem = true ↔ job.CutInPicture false fuse := by
  unfold Job.CutInPicture Job.run
  cases hrun : job.program (fuse, job.start false) with
  | ok answer c =>
    have hwalking := (job.meets.returned hrun).2
    simp [hwalking.thread]
  | error e c =>
    have hmirrored : c.2.Mirrored := (job.meets.stopped hrun).2
    rw [State.Mirrored] at hmirrored
    simp [hmirrored]

theorem not_cut {job : Job} {fuse : Option Nat} (h : (job.run false fuse).2.tSkipChem = false) :
    ¬ job.CutInPicture false fuse := by
  rw [← mapped_thread, h]
  exact Bool.false_ne_true

/-- What a mapping on a fresh thread produces, it produces there when nothing
stops it. -/
theorem mapped_fresh {job : Job} {fuse : Option Nat} {mapped : Mapped}
    (h : (job.run false fuse).1 = some mapped) : job.fresh = some mapped := by
  unfold Job.run at h
  cases hrun : job.program (fuse, job.start false) with
  | ok answer c =>
    rw [hrun] at h
    unfold Job.fresh Job.run
    rw [(job.meets.returned hrun).1]
    exact h
  | error e c =>
    rw [hrun] at h
    cases h

/-- **Every response is mapped as on a fresh thread**, whatever was mapped and
cut short before, as long as no exception comes in the content of a picture
that holds exactly one `<chem>`. -/
theorem mapAll_fresh (jobs : List (Job × Option Nat)) (h : CutsApart false jobs) (i : Nat)
    (job : Job)
    (fuse : Option Nat) (mapped : Mapped) (hjob : jobs[i]? = some (job, fuse))
    (hmapped : (mapAll false jobs)[i]? = some (some mapped)) : job.fresh = some mapped := by
  induction jobs generalizing i with
  | nil => simp at hjob
  | cons first jobs ih =>
    obtain ⟨first, fuse'⟩ := first
    have hflag : (first.run false fuse').2.tSkipChem = false :=
      Bool.eq_false_iff.2 fun hset => h.1 ((mapped_thread first fuse').1 hset)
    have hrest := h.2
    rw [mapAll, hflag] at hmapped
    rw [hflag] at hrest
    cases i with
    | zero =>
      obtain ⟨rfl, rfl⟩ := Prod.mk.inj (Option.some.inj hjob)
      exact mapped_fresh (Option.some.inj hmapped)
    | succ i => exact ih hrest i hjob hmapped

/-! ## A tainted thread -/

def sampleEnv : Env := ⟨samplePage, sampleRaster, fun _ => 0, fun _ => none⟩

def pageJob (text : String) : Job := ⟨sampleEnv, .page (ascii text) none⟩

/-- A page with a molecule in a picture, beside a paragraph. -/
def figureJob : Job := pageJob "<figure><chem>C</chem><p>x</p></figure>"

/-- A page with a molecule in a paragraph. -/
def paragraphJob : Job := pageJob "<p>a <b><chem>CC</chem></b></p>"

/-- The texts of a mapped page. -/
def pageTexts : Option Mapped → Option (List Bytes)
  | some ⟨.page (.ok made), _⟩ => some (made.1.texts.map itemText)
  | _ => none

theorem paragraphJob_fresh : pageTexts paragraphJob.fresh = some [ascii "a", ascii "CC"] := by
  decide +kernel

/-- The molecule is gone. -/
theorem paragraphJob_tainted : pageTexts (paragraphJob.run true none).1 = some [ascii "a"] := by
  decide +kernel

/-- **A mapping cut short in the content of a picture that holds exactly one
`<chem>` changes the next one.** -/
theorem cut_taints {job : Job} {fuse : Option Nat} (h : job.CutInPicture false fuse) :
    ∃ later mapped, (mapAll false [(job, fuse), (later, none)])[1]? = some (some mapped) ∧
      later.fresh ≠ some mapped := by
  cases hrun : (paragraphJob.run true none).1 with
  | none =>
    have htainted := paragraphJob_tainted
    rw [hrun] at htainted
    cases htainted
  | some mapped =>
    refine ⟨paragraphJob, mapped, ?_, fun hfresh => ?_⟩
    · simp only [mapAll, (mapped_thread job fuse).2 h, hrun, List.getElem?_cons_succ,
        List.getElem?_cons_zero]
    · have htexts := paragraphJob_tainted
      rw [hrun, ← hfresh, paragraphJob_fresh] at htexts
      revert htexts
      decide

/-- The walk of the figure stops at its paragraph. -/
theorem figureJob_cut : figureJob.CutInPicture false (some 6) := by
  refine ⟨?_, by decide +kernel⟩
  exact Option.isNone_iff_eq_none.1 (by decide +kernel)

/-- A figure cut short at its paragraph, and the next page. -/
theorem mapAll_not_fresh :
    ¬ ∀ (jobs : List (Job × Option Nat)) (i : Nat) (job : Job) (fuse : Option Nat)
      (mapped : Mapped),
      jobs[i]? = some (job, fuse) → (mapAll false jobs)[i]? = some (some mapped) →
      job.fresh = some mapped := by
  intro h
  obtain ⟨later, mapped, hmapped, hne⟩ := cut_taints figureJob_cut
  exact hne (h [(figureJob, some 6), (later, none)] 1 later none mapped rfl hmapped)

/-- A figure cut short before its picture, and the next page. -/
theorem mapAll_fresh_sample : ∃ mapped,
    (mapAll false [(figureJob, some 2), (paragraphJob, none)])[1]? = some (some mapped) ∧
      paragraphJob.fresh = some mapped := by
  have hflag : (figureJob.run false (some 2)).2.tSkipChem = false := by decide +kernel
  have hcuts : CutsApart false [(figureJob, some 2), (paragraphJob, none)] := by
    refine ⟨not_cut hflag, ?_, trivial⟩
    rw [hflag]
    exact not_cut (by decide +kernel)
  have hsome : (paragraphJob.run false none).1.isSome = true := by decide +kernel
  obtain ⟨mapped, hrun⟩ := Option.isSome_iff_exists.1 hsome
  have hmapped : (mapAll false [(figureJob, some 2), (paragraphJob, none)])[1]? =
    some (some mapped) := by
    simp only [mapAll, hflag, hrun, List.getElem?_cons_succ, List.getElem?_cons_zero]
  exact ⟨mapped, hmapped, mapAll_fresh _ hcuts 1 paragraphJob none mapped rfl hmapped⟩

end VlmConvert.L3.Chandra
