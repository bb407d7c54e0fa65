import VlmConvert.L3Document.Doctags

/-!
# DocTags: a cut response

The tokenizer looks ahead without bound: for a '>', for `</otsl>`, for a
container's close tag. When the text ends first it takes the rest. So on a
prefix of a response it goes the same way as on the whole until a look-ahead
fails, and what is left then is one element or one container.

`scan` is the loop without its fuel. `step_append` compares one turn on a
text and on a longer one, `scan_append` whole scans.

Result: `doctags_truncation`, all emissions on a prefix but the last are the
first emissions on the whole response.
-/
namespace VlmConvert.L3.Doctags

open Bytes L2

namespace Scan

/-! ## The loop without fuel -/

theorem container_length (s : Scan) (token open_ behind : Bytes) :
    (s.container token open_ behind).2.2.length ≤ behind.length := by
  unfold container
  dsimp only
  split
  · rename_i content end_ h
    have := congrArg List.length (findSub_eq h)
    simp only [List.length_append, List.length_drop] at this ⊢
    omega
  · exact Nat.zero_le _

/-- A tag's effect does not depend on the text around it, unless it opens a
group container. -/
def TagEffect (s : Scan) (token : Bytes) (f : Bytes → Bytes → Scan × List Emission × Bytes) :
    Prop :=
  (∃ s' emitted, ∀ open_ behind, f open_ behind = (s', emitted, behind)) ∨
    ∀ open_ behind, f open_ behind = s.container token open_ behind

theorem TagEffect.ite {s : Scan} {token : Bytes} {c : Prop} [Decidable c]
    {f g : Bytes → Bytes → Scan × List Emission × Bytes} (hf : TagEffect s token f)
    (hg : TagEffect s token g) :
    TagEffect s token fun open_ behind => if c then f open_ behind else g open_ behind := by
  by_cases h : c
  · simpa [h] using hf
  · simpa [h] using hg

theorem tag_effect (s : Scan) (token : Bytes) : TagEffect s token (s.tag token) := by
  have hsame : ∀ s' emitted, TagEffect s token fun _ behind => (s', emitted, behind) :=
    fun s' emitted => .inl ⟨s', emitted, fun _ _ => rfl⟩
  unfold tag
  iterate 6 refine .ite (hsame _ _) ?_
  refine .ite (.inr fun _ _ => rfl) ?_
  iterate 2 refine .ite (hsame _ _) ?_
  exact .ite (.ite (hsame _ _) (hsame _ _)) (hsame _ _)

theorem tag_length (s : Scan) (token open_ behind : Bytes) :
    (s.tag token open_ behind).2.2.length ≤ behind.length := by
  rcases tag_effect s token with ⟨s', emitted, h⟩ | h
  · rw [h]
  · rw [h]
    exact container_length s token open_ behind

theorem step_length (s : Scan) {rest : Bytes} (h : rest ≠ []) :
    (s.step rest).2.2.length < rest.length := by
  have hpos := List.length_pos_iff.2 h
  unfold step
  split
  · split
    · rename_i body end_ hfind
      have hlen := congrArg List.length (findSub_eq hfind)
      have hpre := (findSub_starts hfind).length_le
      simp only [List.length_append, List.length_drop] at hlen ⊢
      have : (ascii "</otsl>").length = 7 := rfl
      omega
    · exact hpos
  · split
    · exact hpos
    · rename_i before open_ hfind
      obtain ⟨heq, hopen⟩ := findByte_eq hfind
      have hlen := congrArg List.length heq
      rw [List.length_append] at hlen
      split
      · simp only [List.length_drop]
        omega
      · split
        · exact hpos
        · rename_i tag_ close hclose
          obtain ⟨heq', hpos'⟩ := findByte_eq hclose
          have hlen' := congrArg List.length heq'
          have := tag_length (s.addText before) (tag_.drop 1) open_ (close.drop 1)
          rw [List.length_append] at hlen'
          rw [List.length_drop] at this
          omega

theorem loop_fuel : ∀ {n : Nat} {s : Scan} {rest : Bytes}, rest.length ≤ n →
    loop n s rest = loop rest.length s rest := by
  intro n
  induction n using Nat.strongRecOn with
  | ind n ih =>
    intro s rest hle
    cases rest with
    | nil => cases n <;> rfl
    | cons b rest =>
      cases n with
      | zero => simp at hle
      | succ n =>
        have hstep : (s.step (b :: rest)).2.2.length < (b :: rest).length := s.step_length (by simp)
        simp only [List.length_cons] at hle hstep
        simp only [loop, List.length_cons]
        rw [ih n (Nat.lt_succ_self n) (by omega), ih rest.length (by omega) (by omega)]

/-- The emissions from a state on. -/
def scan (s : Scan) (rest : Bytes) : List Emission := loop rest.length s rest

theorem scan_nil (s : Scan) : s.scan [] = s.flushed := rfl

theorem scan_step (s : Scan) {rest : Bytes} (h : rest ≠ []) :
    s.scan rest = (s.step rest).2.1 ++ (s.step rest).1.scan (s.step rest).2.2 := by
  have hstep := s.step_length h
  cases rest with
  | nil => exact absurd rfl h
  | cons b rest =>
    simp only [List.length_cons] at hstep
    unfold scan
    simp only [List.length_cons, loop]
    rw [loop_fuel (by omega)]

/-! ## A longer text -/

theorem container_append (s : Scan) (token open_ behind more : Bytes) :
    s.container token (open_ ++ more) (behind ++ more) =
      ((s.container token open_ behind).1, (s.container token open_ behind).2.1,
        (s.container token open_ behind).2.2 ++ more) ∨
    (s.container token open_ behind).2.2 = [] ∧
      ((s.container token open_ behind).2.1 ++
        (s.container token open_ behind).1.flushed).dropLast <+:
        (s.container token (open_ ++ more) (behind ++ more)).2.1 := by
  unfold container
  dsimp only
  cases hfind : findSub (ascii "</" ++ token ++ ascii ">") behind with
  | some r =>
    obtain ⟨content, end_⟩ := r
    left
    have hlen : (ascii "</" ++ token ++ ascii ">").length ≤ end_.length :=
      (findSub_starts hfind).length_le
    rw [findSub_append_right more hfind]
    dsimp only
    rw [List.drop_append_of_le_length hlen]
  | none =>
    -- the container takes the rest: what was flushed before it is certain
    right
    refine ⟨rfl, ?_⟩
    have hflush : s.flush.flushed = [] := rfl
    rw [hflush, List.append_nil, List.dropLast_concat]
    split <;> exact List.prefix_append _ _

theorem flushed_dropLast (s : Scan) : s.flushed.dropLast = [] := by
  unfold flushed
  split <;> rfl

/-- One turn on a text and on a longer one: the same, or the shorter text ends
in it and only its last emission is uncertain. -/
theorem step_append (s : Scan) (rest more : Bytes) :
    s.step (rest ++ more) = ((s.step rest).1, (s.step rest).2.1, (s.step rest).2.2 ++ more) ∨
    (s.step rest).2.2 = [] ∧ ((s.step rest).2.1 ++ (s.step rest).1.flushed).dropLast <+:
      (s.step (rest ++ more)).2.1 := by
  have hlast : ∀ (s' : Scan) (emitted : List Emission),
      ([] ++ s'.flushed).dropLast <+: emitted := by
    intro s' emitted
    rw [List.nil_append, flushed_dropLast]
    exact List.nil_prefix
  by_cases hotsl : s.inOtsl = true
  · cases hfind : findSub (ascii "</otsl>") rest with
    | some r =>
      obtain ⟨body, end_⟩ := r
      have hlen : 7 ≤ end_.length := (findSub_starts hfind).length_le
      left
      simp only [step, hotsl, if_true, hfind, findSub_append_right more hfind]
      rw [List.drop_append_of_le_length hlen]
    | none =>
      right
      simp only [step, hotsl, if_true, hfind]
      exact ⟨trivial, hlast _ _⟩
  · cases hfind : findByte 0x3C rest with
    | none =>
      right
      simp only [step, hotsl, hfind]
      exact ⟨rfl, hlast _ _⟩
    | some r =>
      obtain ⟨before, open_⟩ := r
      have hfind' := findByte_append_right more hfind
      match open_, hfind, hfind' with
      | [], hfind, _ => exact absurd (findByte_eq hfind).2 (by simp)
      | [b], hfind, _ =>
        right
        simp only [step, hotsl, hfind]
        exact ⟨rfl, hlast _ _⟩
      | b :: c :: open_, hfind, hfind' =>
        have hopens : opensTag (b :: c :: open_ ++ more) = opensTag (b :: c :: open_) := rfl
        by_cases hopen : opensTag (b :: c :: open_) = true
        · cases hclose : findByte 0x3E (b :: c :: open_) with
          | none =>
            right
            simp only [step, hotsl, hfind, hopen, hclose]
            exact ⟨rfl, hlast _ _⟩
          | some r =>
            obtain ⟨tag_, close⟩ := r
            have hpos := (findByte_eq hclose).2
            have hclose' := findByte_append_right more hclose
            have hdrop : (close ++ more).drop 1 = close.drop 1 ++ more :=
              List.drop_append_of_le_length hpos
            simp only [step, hotsl, hfind, hfind', hopens, hopen, hclose, hclose', hdrop,
              Bool.not_true, Bool.false_eq_true, if_false]
            rcases tag_effect (s.addText before) (tag_.drop 1) with ⟨s', emitted, h⟩ | h
            · simp only [h]
              exact .inl trivial
            · simp only [h]
              exact container_append _ _ _ _ more
        · left
          simp only [step, hotsl, hfind, hfind', hopens, hopen]
          rfl

theorem dropLast_append_le {α : Type} {a b c : List α} (h : b.dropLast <+: c) :
    (a ++ b).dropLast <+: a ++ c := by
  cases b with
  | nil =>
    rw [List.append_nil]
    exact (List.dropLast_prefix a).trans (List.prefix_append a c)
  | cons x b =>
    rw [List.dropLast_append_of_ne_nil (by simp)]
    exact (List.prefix_append_right_inj a).2 h

/-- All emissions on a text but the last come first on a longer one. -/
theorem scan_append (more : Bytes) : ∀ (n : Nat) (s : Scan) (rest : Bytes), rest.length = n →
    (s.scan rest).dropLast <+: s.scan (rest ++ more) := by
  intro n
  induction n using Nat.strongRecOn with
  | ind n ih =>
    intro s rest hn
    by_cases hrest : rest = []
    · subst hrest
      rw [scan_nil, flushed_dropLast]
      exact List.nil_prefix
    · have hmore : rest ++ more ≠ [] := by simp [hrest]
      rw [s.scan_step hrest, s.scan_step hmore]
      rcases step_append s rest more with h | ⟨hend, h⟩
      · rw [h]
        have hlt := s.step_length hrest
        exact dropLast_append_le (ih _ (hn ▸ hlt) _ _ rfl)
      · rw [hend, scan_nil]
        exact h.trans (List.prefix_append _ _)

end Scan

/-! ## What reaches the document -/

/-- What one emission adds: an element with its caption in front, or a group
with its children. -/
structure Added where
  texts : List BaseTextItem
  pictures : List PictureItem
  tables : List TableItem
  groups : List GroupItem
  keyValueItems : List KeyValueItem
  order : List BodyChild

def Added.between (before after : EmitState) : Added where
  texts := after.doc.texts.drop before.doc.texts.length
  pictures := after.doc.pictures.drop before.doc.pictures.length
  tables := after.doc.tables.drop before.doc.tables.length
  groups := after.doc.groups.drop before.doc.groups.length
  keyValueItems := after.doc.keyValueItems.drop before.doc.keyValueItems.length
  order := after.order.drop before.order.length

section Trace
variable (page : PageContext) (raster : PageRaster) (byteSizeLong : TableCell → Nat)

/-- What each emission adds, those that add nothing left out. -/
def added (s : MapState) : List Emission → List Added
  | [] => []
  | emission :: emissions =>
    let s' := emit page raster byteSizeLong s emission
    (if s'.items = s.items then [] else [Added.between s.toEmitState s'.toEmitState]) ++
      added s' emissions

/-- `map_doctags` as the sequence of its emissions. -/
def mapEmissions (warnings : Option (List PageWarning)) (text : Bytes) : List Added :=
  added page raster byteSizeLong { warnings := warnings } (Scan.emissions text)

theorem added_append (first second : List Emission) : ∀ s : MapState,
    added page raster byteSizeLong s (first ++ second) = added page raster byteSizeLong s first ++
      added page raster byteSizeLong (emitAll page raster byteSizeLong s first) second := by
  induction first with
  | nil => intro s; rfl
  | cons emission first ih =>
    intro s
    simp only [List.cons_append, added, List.append_assoc]
    rw [ih]
    rfl

theorem added_mono {first second : List Emission} (h : first <+: second) (s : MapState) :
    added page raster byteSizeLong s first <+: added page raster byteSizeLong s second := by
  obtain ⟨rest, rfl⟩ := h
  rw [added_append]
  exact List.prefix_append _ _

/-- The last emission adds one entry or none. -/
theorem added_dropLast (emissions : List Emission) (s : MapState) :
    (added page raster byteSizeLong s emissions).dropLast <+:
      added page raster byteSizeLong s emissions.dropLast := by
  cases emissions using List.reverseRecOn with
  | nil => exact List.prefix_refl _
  | append_singleton emissions emission =>
    rw [added_append, List.dropLast_concat]
    refine (Scan.dropLast_append_le (c := []) ?_).trans (by rw [List.append_nil])
    simp only [added, List.append_nil]
    split <;> exact List.prefix_refl _

/-- **A cut response loses at most its last emission.** Cut `text` at any
byte: all that the mapper adds for the prefix, but the last, is what it adds
first for the whole. -/
theorem doctags_truncation (warnings : Option (List PageWarning)) {cut text : Bytes}
    (h : cut <+: text) :
    (mapEmissions page raster byteSizeLong warnings cut).dropLast <+:
      mapEmissions page raster byteSizeLong warnings text := by
  obtain ⟨more, rfl⟩ := h
  have hscan : (Scan.emissions cut).dropLast <+: Scan.emissions (cut ++ more) :=
    Scan.scan_append more cut.length {} cut rfl
  exact (added_dropLast page raster byteSizeLong _ _).trans
    (added_mono page raster byteSizeLong hscan _)

end Trace

/-- A table, a list and a picture. -/
def sampleText : Bytes :=
  ascii "<otsl><fcel>a<nl></otsl><unordered_list><list_item>b</list_item></unordered_list>" ++
    ascii "<picture><caption>c</caption></picture>"

/-- Cut inside the list. -/
theorem doctags_truncation_sample :
    sampleText.take 50 <+: sampleText ∧
    (mapEmissions samplePage sampleRaster (fun cell => cell.text.length + 20) none
      (sampleText.take 50)).length = 2 ∧
    (mapEmissions samplePage sampleRaster (fun cell => cell.text.length + 20) none
      sampleText).length = 3 ∧
    (mapEmissions samplePage sampleRaster (fun cell => cell.text.length + 20) none
      (sampleText.take 50)).dropLast <+:
        mapEmissions samplePage sampleRaster (fun cell => cell.text.length + 20) none sampleText :=
  ⟨List.take_prefix _ _, by decide +kernel, by decide +kernel,
    doctags_truncation _ _ _ _ (List.take_prefix _ _)⟩

end VlmConvert.L3.Doctags
