import VlmConvert.L3Document.NemotronPage
import VlmConvert.L3Document.WriterGrowth

/-!
# How a builder's writer grows

The Chandra walk and the items the dots.ocr and Nemotron Parse mappers share
pass parents and owners on as they go. `Builds` is partial correctness of a
program against a writer it starts from: a run that returns let the writer grow,
and returned items of it. An exception leaves no page.

Results: `walks`, every part of the walk, `builds_addInlineText` and its kin, the
shared items, and `builds_mapChandraHtml`, `Dots.builds_mapDotsJson`,
`Nemotron.builds_mapNemotronParseV2` and `Nemotron.builds_mapNemotronParseV35`.
-/
namespace VlmConvert.L3.Chandra

open Bytes L1 L2 Doclang Interruptible LayoutWriter

/-- A run from a writer that grew from `w` lets it grow, and returns what `Q`
says of the writer then. -/
def Builds {α : Type} (env : Env) (w : LayoutWriter) (m : Builder α) (Q : α → LayoutWriter → Prop) :
    Prop :=
  ∀ c a c', m c = .ok a c' → Grows env.page w c.2.out.writer →
    Grows env.page w c'.2.out.writer ∧ Q a c'.2.out.writer

/-- A result that is no item. -/
def Anything {α : Type} (_ : α) (_ : LayoutWriter) : Prop := True

/-- An item or none. -/
def Held (item : Option BodyChild) (w : LayoutWriter) : Prop := w.HasParent item

section Rules
variable {env : Chandra.Env} {w : LayoutWriter} {α β : Type} {Q : α → LayoutWriter → Prop}
    {R : β → LayoutWriter → Prop}

theorem builds_pure {a : α} (h : ∀ w', Grows env.page w w' → Q a w') : Builds env w (pure a) Q := by
  rintro c _ _ ⟨⟩ hc
  exact ⟨hc, h _ hc⟩

theorem builds_done (a : α) : Builds env w (pure a) Anything := builds_pure fun _ _ => trivial

theorem Builds.mono {Q' : α → LayoutWriter → Prop} {m : Builder α} (h : Builds env w m Q)
    (hQ : ∀ a w', Q a w' → Q' a w') : Builds env w m Q' := by
  intro c a c' hrun hc
  obtain ⟨hgrows, hq⟩ := h c a c' hrun hc
  exact ⟨hgrows, hQ a _ hq⟩

theorem Builds.bind {m : Builder α} {f : α → Builder β} (h : Builds env w m Q)
    (hf : ∀ a w', Grows env.page w w' → Q a w' → Builds env w' (f a) R) :
    Builds env w (m >>= f) R := by
  intro c b c' hrun hc
  cases hm : m c with
  | ok a between =>
    rw [bind_ok hm] at hrun
    obtain ⟨hgrows, hq⟩ := h c a between hm hc
    obtain ⟨hgrows', hr⟩ := hf a _ hgrows hq between b c' hrun hgrows.order.grows
    exact ⟨hgrows.trans hgrows', hr⟩
  | error e between =>
    rw [bind_error hm] at hrun
    cases hrun

theorem Builds.map {m : Builder α} (h : Builds env w m Q) (f : α → β)
    (hR : ∀ a w', Q a w' → R (f a) w') :
    Builds env w (f <$> m) R := by
  have hmap : f <$> m = m >>= fun a => pure (f a) := by
    funext c
    simp only [Functor.map, EStateM.map, Bind.bind, EStateM.bind, Pure.pure, EStateM.pure]
  rw [hmap]
  intro c b c' hrun hc
  cases hm : m c with
  | ok a between =>
    rw [bind_ok hm] at hrun
    cases hrun
    obtain ⟨hgrows, hq⟩ := h c a c' hm hc
    exact ⟨hgrows, hR a _ hq⟩
  | error e between =>
    rw [bind_error hm] at hrun
    cases hrun

theorem Builds.ite {p : Prop} [Decidable p] {m m' : Builder α} (h : Builds env w m Q)
    (h' : Builds env w m' Q) : Builds env w (if p then m else m') Q := by
  split
  · exact h
  · exact h'

theorem builds_exhausted : Builds env w (exhausted : Builder α) Q := by
  rintro c a c' ⟨⟩

theorem builds_state : Builds env w state fun s w' => s.out.writer = w' := by
  rintro c _ _ ⟨⟩ hc
  exact ⟨hc, rfl⟩

theorem builds_point : Builds env w point Anything := by
  rintro ⟨fuse, s⟩ a c' hrun hc
  cases fuse with
  | none =>
    cases hrun
    exact ⟨hc, trivial⟩
  | some k =>
    cases k with
    | zero => cases hrun
    | succ k =>
      cases hrun
      exact ⟨hc, trivial⟩

/-- A change of the state. -/
theorem builds_update {f : State → State} (hf : ∀ s, Grows env.page w s.out.writer →
    Grows env.page s.out.writer (f s).out.writer) : Builds env w (update f) Anything := by
  rintro c _ _ ⟨⟩ hc
  exact ⟨hc.trans (hf c.2 hc), trivial⟩

/-- A change of the state beside the writer. -/
theorem builds_beside {f : State → State} (hf : ∀ s, (f s).out = s.out) :
    Builds env w (update f) Anything :=
  builds_update fun s hs => by
    rw [hf s]
    exact hs.order.grows

/-- The rule of a loop. -/
theorem builds_foldlM {f : β → α → Builder β} (hR : ∀ b w w', Grows env.page w w' → R b w → R b w')
    (l : List α) : ∀ {w : LayoutWriter} {b : β}, R b w →
      (∀ b, ∀ a ∈ l, ∀ w', Grows env.page w w' → R b w' → Builds env w' (f b a) R) →
      Builds env w (l.foldlM f b) R := by
  induction l with
  | nil => exact fun hb _ => builds_pure fun w' hw' => hR _ _ w' hw' hb
  | cons a l ih =>
    intro w b hb hf
    rw [List.foldlM_cons]
    refine Builds.bind (Q := R) ?_ fun b' w' hw' hb' => ?_
    · intro c b' c' hrun hc
      obtain ⟨hgrows, hr⟩ :=
        hf b a List.mem_cons_self _ hc (hR _ _ _ hc hb) c b' c' hrun hc.order.grows
      exact ⟨hc.trans hgrows, hr⟩
    · refine ih hb' fun b a ha w'' hw'' => ?_
      exact hf b a (List.mem_cons_of_mem _ ha) w'' (hw'.trans hw'')

theorem builds_forM {f : Unit → α → Builder Unit} (l : List α)
    (hf : ∀ a ∈ l, ∀ w', Grows env.page w w' → Builds env w' (f () a) Anything) :
    Builds env w (l.foldlM f ()) Anything :=
  builds_foldlM (fun _ _ _ _ _ => trivial) l trivial fun _ a ha w' hw' _ => hf a ha w' hw'

end Rules

section Operations
variable {env : Chandra.Env} {w : LayoutWriter} {parent : Option BodyChild}

/-- What was true of the items is true of a writer that grew. -/
theorem Held.grows {page : PageContext} {item : Option BodyChild} {w w' : LayoutWriter}
    (hw : Grows page w w')
    (h : Held item w) : Held item w' := hw.parent h

theorem held_none : Held none w := hasParent_none

theorem held_some {r : BodyChild} : Held (some r) w ↔ w.Has r :=
  ⟨fun h => h r rfl, hasParent_some⟩

theorem builds_op {o : Op} (ho : o.On w) : Builds env w (op env o) Held := by
  refine builds_point.bind fun _ w' hw' _ => ?_
  rintro c _ _ ⟨⟩ hc
  have hgrown := hw'.trans hc
  obtain ⟨hgrows, hmade⟩ := grown_apply env.raster env.byteSizeLong hc.order (ho.grows hgrown)
  exact ⟨hc.trans hgrows, hmade⟩

/-- A change of pictures and tables. -/
theorem builds_edit {f : ChandraWriter → ChandraWriter} (hf : ∀ out : ChandraWriter,
    Grows env.page w out.writer → Grows env.page out.writer (f out).writer) :
    Builds env w (edit f) Anything :=
  builds_point.bind fun _ _ hw' _ => builds_update fun s hs => hf s.out (hw'.trans hs)

/-- An edit of an item just made. -/
theorem builds_editItem {item : Option BodyChild} {edit : BodyChild → Op} (h : Held item w)
    (hedit : ∀ ref, w.Has ref → (edit ref).On w) :
    Builds env w (editItem env item edit) Anything := by
  unfold editItem
  cases item with
  | none => exact builds_done ()
  | some ref => exact (builds_op (hedit ref (held_some.1 h))).bind fun _ _ _ _ => builds_done ()

theorem builds_setOrig {item : Option BodyChild} (text : Bytes) (h : Held item w) :
    Builds env w (editItem env item (.setOrig · text)) Anything :=
  builds_editItem h fun _ href => href

theorem builds_setHeadingLevels (before : Nat) (level : Int) :
    Builds env w (setHeadingLevels env before level) Anything := by
  refine builds_state.bind fun s w' _ hs => builds_forM _ fun i hi w'' hw'' => ?_
  have hlt : i < w'.doc.texts.length := by
    have := List.mem_range'_1.1 hi
    rw [hs] at this
    omega
  exact (builds_op (o := .setHeadingLevel i level) (hw''.keeps (has_text.2 hlt))).bind
    fun _ _ _ _ => builds_done ()

theorem builds_setLayer {item : Option BodyChild} (layer : ContentLayer) (h : Held item w) :
    Builds env w (setLayer env item layer) Anything := by
  unfold setLayer
  cases item with
  | none => exact builds_done ()
  | some ref =>
    exact (builds_op (o := .setContentLayer ref layer) (held_some.1 h)).bind fun _ _ _ _ =>
      builds_done ()

end Operations

/-! ## Runs -/

section Runs
variable {env : Chandra.Env} {w : LayoutWriter} {parent : Option BodyChild}

theorem builds_outerItem (label : DocItemLabel) (layer : ContentLayer) (prov : Option Provenance)
    (h : Held parent w) :
    Builds env w (outerItem env label layer parent prov) fun r w' => Held r.1 w' := by
  unfold outerItem
  refine .ite (builds_pure fun w' hw' => h.grows hw') ?_
  refine Builds.bind (builds_op h) fun item w' _ hitem => ?_
  refine (builds_setLayer layer hitem).bind fun _ w'' hw'' _ => ?_
  exact builds_pure fun _ hw => (hitem.grows hw'').grows hw

theorem builds_groupRuns (kept : List Run) (label : DocItemLabel) (layer : ContentLayer)
    (prov : Option Provenance) (h : Held parent w) :
    Builds env w (groupRuns env kept label layer parent prov) fun r w' => Held r.1 w' := by
  unfold groupRuns
  refine .ite ?_ (builds_pure fun w' hw' => h.grows hw')
  refine (builds_outerItem label layer prov h).bind fun outer w' _ houter => ?_
  refine Builds.bind (builds_op houter) fun group w'' _ hgroup => ?_
  refine (builds_setLayer layer hgroup).bind fun _ w₃ hw₃ _ => ?_
  exact builds_pure fun _ hw => (hgroup.grows hw₃).grows hw

theorem builds_emitRun (alone : Bool) (label : DocItemLabel) (layer : ContentLayer)
    (prov : Option Provenance) (run : Run) (h : Held parent w) :
    Builds env w (emitRun env alone label layer parent prov run) Anything := by
  unfold emitRun
  refine builds_state.bind fun s w' hw' _ => ?_
  have hparent := h.grows hw'
  dsimp only
  split
  · rename_i ref href
    refine Builds.bind (builds_op ?_) fun _ _ _ _ => builds_done _
    exact hparent ref (Option.eq_some_of_filter_eq_some href)
  · refine Builds.bind (builds_op hparent) fun item w'' _ hitem => ?_
    exact (builds_setLayer layer hitem).bind fun _ _ _ _ => builds_done _

theorem builds_emitRuns (runs : List Run) (prov : Option Provenance) (label : DocItemLabel)
    (h : Held parent w) : Builds env w (emitRuns env runs parent prov label) Anything := by
  unfold emitRuns
  refine builds_point.bind fun _ w₁ hw₁ _ => builds_state.bind fun s w₂ hw₂ _ => ?_
  dsimp only
  refine .ite (builds_done _) ?_
  refine (builds_groupRuns _ _ _ prov ((h.grows hw₁).grows hw₂)).bind fun outer w₃ _ houter => ?_
  refine Builds.bind (Q := Anything) ?_ fun prov w₄ _ _ => ?_
  · refine builds_foldlM (fun _ _ _ _ _ => trivial) _ trivial fun prov run _ w' hw' _ => ?_
    exact builds_emitRun _ _ _ prov run (houter.grows hw')
  · exact (builds_setHeadingLevels _ _).bind fun _ _ _ _ => builds_done prov

/-- The texts written since `before` are linked to their owner. -/
theorem builds_linkCaptions (before : Nat) (label : DocItemLabel) (h : Held parent w) :
    Builds env w (linkCaptions env before label parent) Anything := by
  unfold linkCaptions
  refine builds_state.bind fun s w' hw' hs => ?_
  cases parent with
  | none => exact builds_done ()
  | some owner =>
    refine .ite (builds_forM _ fun i hi w'' hw'' => builds_state.bind fun _ w₃ hw₃ _ => ?_)
      (builds_done ())
    have hlt : i < w'.doc.texts.length := by
      have := List.mem_range'_1.1 hi
      rw [hs] at this
      omega
    have howner : w₃.Has owner := held_some.1 (((h.grows hw').grows hw'').grows hw₃)
    have htext : w₃.Has ⟨.text, i⟩ := hw₃.keeps (hw''.keeps (has_text.2 hlt))
    refine .ite (Builds.bind (builds_op ?_) fun _ _ _ _ => builds_done ()) (builds_done ())
    split
    · exact ⟨howner, htext, rfl⟩
    · exact ⟨howner, htext, rfl⟩

theorem builds_setTagLevel (tag : Bytes) (before : Nat) :
    Builds env w (setTagLevel env tag before) Anything :=
  .ite (builds_setHeadingLevels _ _) (builds_done ())

end Runs

/-! ## The walk -/

/-- Every part of the walk, with `n` steps of fuel, from any writer that has its
parent. -/
structure Walks (env : Env) (n : Nat) : Prop where
  walk : ∀ {w parent} (children : List MarkupNode) (prov : Option Provenance)
    (label : DocItemLabel),
    Held parent w → Builds env w (walk env n children parent prov label) Anything
  block : ∀ {w parent} (node : MarkupNode) (prov : Option Provenance) (label : DocItemLabel),
    Held parent w → Builds env w (block env n node parent prov label) Anything
  list : ∀ {w parent} (node : MarkupNode), Held parent w →
    Builds env w (list env n node parent) Anything
  table : ∀ {w parent} (node : MarkupNode) (prov : Option Provenance),
    Held parent w → Builds env w (table env n node parent prov) Anything
  picture : ∀ {w parent} (node : MarkupNode) (prov : Option Provenance),
    Held parent w → Builds env w (picture env n node parent prov) Anything

section Walk
variable {env : Env} {n : Nat} {w : LayoutWriter} {parent : Option BodyChild}

theorem Walks.succ_walk (h : Walks env n) (children : List MarkupNode) (prov : Option Provenance)
    (label : DocItemLabel) (hp : Held parent w) :
    Builds env w (Chandra.walk env (n + 1) children parent prov label) Anything := by
  rw [Chandra.walk]
  refine Builds.bind (Q := Anything) ?_ fun left w' hw' _ => builds_emitRuns _ _ _ (hp.grows hw')
  refine builds_foldlM (fun _ _ _ _ _ => trivial) _ trivial fun left node _ w' hw' _ => ?_
  refine builds_point.bind fun _ w₁ hw₁ _ => builds_state.bind fun s w₂ hw₂ _ => ?_
  have hparent := ((hp.grows hw').grows hw₁).grows hw₂
  refine .ite (builds_done _) (.ite (builds_done _) ?_)
  refine (builds_emitRuns _ _ _ hparent).bind fun prov w₃ hw₃ _ => ?_
  exact (h.block node prov label (hparent.grows hw₃)).bind fun _ _ _ _ => builds_done _

theorem Walks.succ_block (h : Walks env n) (node : MarkupNode) (outer : Option Provenance)
    (label : DocItemLabel) (hp : Held parent w) :
    Builds env w (Chandra.block env (n + 1) node parent outer label) Anything := by
  rw [Chandra.block]
  refine builds_point.bind fun _ w' hw' _ => ?_
  have hparent := hp.grows hw'
  refine Builds.map (Q := Anything) ?_ _ fun _ _ _ => trivial
  refine .ite (h.picture _ _ hparent)
    (.ite (h.table _ _ hparent) (.ite ?_ (.ite ?_ (.ite ?_ (.ite ?_
    (.ite ?_ (.ite ?_ (.ite (builds_done _) ?_))))))))
  · exact (h.list _ hparent).bind fun _ _ _ _ => builds_done _
  · exact Builds.bind (builds_op hparent) fun _ _ _ _ => builds_done _
  · exact Builds.bind (builds_op hparent) fun _ _ _ _ => builds_done _
  · exact builds_state.bind fun s w'' hw'' _ => builds_emitRuns _ _ _ (hparent.grows hw'')
  · refine Builds.bind (builds_op hparent) fun region w'' _ hregion => ?_
    exact (h.walk _ _ _ hregion).bind fun _ _ _ _ => builds_done _
  · refine builds_state.bind fun s w₁ hw₁ _ => ?_
    refine (h.walk _ _ _ (hparent.grows hw₁)).bind fun prov w₂ hw₂ _ => ?_
    refine (builds_linkCaptions _ _ ((hparent.grows hw₁).grows hw₂)).bind fun _ _ _ _ =>
      builds_done _
  · refine builds_state.bind fun s w₁ hw₁ _ => ?_
    refine (h.walk _ _ _ (hparent.grows hw₁)).bind fun prov w₂ _ _ => ?_
    exact (builds_setTagLevel _ _).bind fun _ _ _ _ => builds_done _

theorem Walks.succ_list (h : Walks env n) (node : MarkupNode) (hp : Held parent w) :
    Builds env w (Chandra.list env (n + 1) node parent) Anything := by
  rw [Chandra.list]
  refine Builds.bind (builds_op hp) fun group w' _ hgroup => ?_
  refine Builds.bind (Q := Anything) ?_ fun _ _ _ _ => builds_done ()
  refine builds_foldlM (fun _ _ _ _ _ => trivial) _ trivial fun number child _ w'' hw'' _ => ?_
  have hlist := hgroup.grows hw''
  refine .ite (builds_done _) (.ite ?_ ?_)
  · exact (h.list child hlist).bind fun _ _ _ _ => builds_done _
  · refine Builds.bind (builds_op hlist) fun item w₃ _ hitem => ?_
    exact (h.walk _ _ _ hitem).bind fun _ _ _ _ => builds_done _

/-- The cells of a table just made. -/
theorem builds_fillTable {table : Option BodyChild} (cells : List SpanCell)
    (richRefs : List Bytes) :
    Builds env w (edit (fillTable env table cells richRefs)) Anything := by
  refine builds_edit fun out hw => ?_
  unfold fillTable
  cases table with
  | none => exact hw.order.grows
  | some ref =>
    have hfilled : Grows env.page out.writer { out.writer with doc := { out.writer.doc with
        tables := out.writer.doc.tables.modify ref.index fun item =>
          { item with data := some (fillSpanTable env.byteSizeLong cells).1 } } } := by
      refine grows_tables hw.order ?_ ?_ ?_ _
      · exact fun _ => rfl
      · exact fun _ => rfl
      intro item hitem
      refine ⟨hitem.1, hitem.2.1, ?_⟩
      rintro data ⟨⟩
      exact fillSpanTable_inCaps env.byteSizeLong cells
    exact hfilled.trans (hfilled.order.congr rfl rfl rfl)

theorem Walks.succ_table (h : Walks env n) (node : MarkupNode) (prov : Option Provenance)
    (hp : Held parent w) : Builds env w (Chandra.table env (n + 1) node parent prov) Anything := by
  rw [Chandra.table]
  refine .ite (h.walk _ _ _ hp) ?_
  refine Builds.bind (builds_op hp) fun table w₁ _ htable => ?_
  refine Builds.bind (Q := Anything) ?_ fun richRefs w₂ hw₂ _ => ?_
  · refine builds_foldlM (fun _ _ _ _ _ => trivial) _ trivial fun refs source _ w' hw' _ => ?_
    refine .ite (builds_done _) ?_
    refine Builds.bind (builds_op (htable.grows hw')) fun group w'' _ hgroup => ?_
    refine (h.walk _ _ _ hgroup).bind fun _ _ _ _ => ?_
    exact builds_state.bind fun _ _ _ _ => builds_done _
  · refine (builds_fillTable _ _).bind fun _ w₃ hw₃ _ => ?_
    refine Builds.bind (Q := Anything) ?_ fun _ _ _ _ => builds_done _
    refine builds_forM _ fun child _ w' hw' => ?_
    have hcell := ((htable.grows hw₂).grows hw₃).grows hw'
    exact (h.block _ _ _ hcell).bind fun _ _ _ _ => builds_done _

theorem builds_describePicture {picture : Option BodyChild} (description : Bytes) :
    Builds env w (edit (describePicture picture description)) Anything := by
  refine builds_edit fun out hw => ?_
  unfold describePicture
  split
  · exact hw.order.grows
  · split
    · exact hw.order.grows
    · refine grows_pictures hw.order ?_ ?_ ?_ _
      · exact fun _ => rfl
      · exact fun _ => rfl
      intro item hitem
      refine ⟨hitem.1, hitem.2.1, fun data hdata => hitem.2.2 data ?_⟩
      simpa [PictureItem.charts] using hdata

theorem builds_setMolecule {picture : Option BodyChild} (chemicals : List MarkupNode) :
    Builds env w (edit (setMolecule picture chemicals)) Anything := by
  refine builds_edit fun out hw => ?_
  unfold setMolecule
  split
  · dsimp only
    split
    · exact hw.order.grows
    · exact hw.order.grows
  · exact hw.order.grows

theorem Walks.succ_picture (h : Walks env n) (node : MarkupNode) (prov : Option Provenance)
    (hp : Held parent w) :
    Builds env w (Chandra.picture env (n + 1) node parent prov) Anything := by
  rw [Chandra.picture]
  generalize named (ascii "chem") node = chemicals
  refine Builds.bind (builds_op hp) fun picture w₁ _ hpicture => ?_
  refine (builds_describePicture _).bind fun _ w₂ hw₂ _ => ?_
  refine (builds_setMolecule chemicals).bind fun _ w₃ hw₃ _ => ?_
  refine .ite (builds_done _) (builds_state.bind fun saved w₄ hw₄ _ => ?_)
  have henter : ∀ s : State, (enterPicture (chemicals.length == 1) s).out = s.out := fun _ => rfl
  have hleave : ∀ s : State, (leavePicture saved s).out = s.out := fun _ => rfl
  refine (builds_beside henter).bind fun _ w₅ hw₅ _ => ?_
  have hcontent := (((hpicture.grows hw₂).grows hw₃).grows hw₄).grows hw₅
  refine (h.walk _ _ _ hcontent).bind fun _ _ _ _ => ?_
  exact (builds_beside hleave).bind fun _ _ _ _ => builds_done _

/-- **The walk lets the writer grow.** -/
theorem walks (env : Env) (n : Nat) : Walks env n := by
  induction n with
  | zero =>
    refine ⟨fun _ _ _ _ => ?_, fun _ _ _ _ => ?_, fun _ _ => ?_, fun _ _ _ => ?_, fun _ _ _ => ?_⟩
    · rw [Chandra.walk]
      exact builds_exhausted
    · rw [Chandra.block]
      exact builds_exhausted
    · rw [Chandra.list]
      exact builds_exhausted
    · rw [Chandra.table]
      exact builds_exhausted
    · rw [Chandra.picture]
      exact builds_exhausted
  | succ n ih => exact ⟨ih.succ_walk, ih.succ_block, ih.succ_list, ih.succ_table, ih.succ_picture⟩

end Walk

/-! ## Fragments -/

section Fragments
variable {env : Chandra.Env} {w : LayoutWriter} {item parent : Option BodyChild}

theorem builds_addHtmlFragment (html : Bytes) (label : DocItemLabel) (box : Option BoundingBox)
    (hp : Held parent w) : Builds env w (addHtmlFragment env html label box parent) Anything :=
  .ite (builds_done _) (((walks env _).walk _ _ _ hp).bind fun _ _ _ _ => builds_done _)

theorem builds_addHtmlTable (html : Bytes) (box : Option BoundingBox) (hp : Held parent w) :
    Builds env w (addHtmlTable env html box parent) Anything := by
  unfold addHtmlTable
  split
  · exact builds_done _
  · refine builds_state.bind fun before w' hw' _ => ?_
    refine ((walks env _).table _ _ (hp.grows hw')).bind fun _ _ _ _ => ?_
    exact builds_state.bind fun _ _ _ _ => .ite (builds_done _) (builds_done _)

theorem builds_addInlineText (text : Bytes) (label : DocItemLabel) (box : Option BoundingBox)
    (hp : Held parent w) : Builds env w (addInlineText env text label box parent) Anything := by
  unfold addInlineText
  refine .ite (builds_done _) (.ite (builds_addHtmlFragment _ _ _ hp) ?_)
  refine Builds.bind (builds_op hasParent_none) fun item w₁ _ hitem => ?_
  refine (builds_setOrig _ hitem).bind fun _ w₂ hw₂ _ => ?_
  exact builds_addHtmlFragment _ _ _ (hitem.grows hw₂)

theorem builds_fillInline (text : Bytes) (hitem : Held item w) :
    Builds env w (fillInline env item text) Anything := by
  unfold fillInline fillPlain
  refine (builds_addInlineText _ _ _ hitem).bind fun filled w' hw' _ => ?_
  exact .ite (builds_done ()) (builds_editItem (hitem.grows hw') fun _ hhas => hhas)

theorem builds_headingItem (isTitle : Bool) (box : Option BoundingBox) (body : Bytes) :
    Builds env w (headingItem env isTitle box body) Anything := by
  unfold headingItem
  refine Builds.bind (builds_op ?_) fun item w' _ hitem => ?_
  · split
    · exact hasParent_none
    · exact hasParent_none
  · refine (builds_setOrig _ hitem).bind fun _ w'' hw'' _ => ?_
    exact builds_fillInline _ (hitem.grows hw'')

theorem builds_openList (hlist : Held item w) : Builds env w (openList env item) Held :=
  .ite (builds_pure fun _ hw' => hlist.grows hw') (builds_op hasParent_none)

theorem builds_inlineListItem (box : Option BoundingBox) (body itemBody : Bytes) (ordered : Bool)
    (marker : Bytes) (hlist : Held parent w) :
    Builds env w (inlineListItem env box body itemBody ordered marker parent) Anything := by
  unfold inlineListItem
  refine Builds.bind (builds_op hlist) fun item w' _ hitem => ?_
  refine (builds_setOrig _ hitem).bind fun _ w'' hw'' _ => ?_
  exact builds_fillInline _ (hitem.grows hw'')

theorem builds_inlineItem (text : Bytes) (label : DocItemLabel) (box : Option BoundingBox)
    (hp : Held parent w) : Builds env w (inlineItem env text label box parent) Anything := by
  unfold inlineItem plainItem
  refine (builds_addInlineText _ _ _ hp).bind fun made w' hw' _ => .ite (builds_done ()) ?_
  exact Builds.bind (builds_op (hp.grows hw')) fun item _ _ hitem =>
    builds_setOrig text hitem

theorem builds_emptyTable (made : Option BodyChild) (box : Option BoundingBox)
    (hp : Held parent w) :
    Builds env w (emptyTable env made box parent) Anything :=
  .ite (builds_done ()) (Builds.bind (builds_op hp) fun _ _ _ _ => builds_done ())

theorem builds_inlineTable (html : Option Bytes) (box : Option BoundingBox) (hp : Held parent w) :
    Builds env w (inlineTable env html box parent) Anything := by
  unfold inlineTable
  split
  · exact builds_emptyTable none box hp
  · exact (builds_addHtmlTable _ _ hp).bind fun made w' hw' _ =>
      builds_emptyTable made box (hp.grows hw')

theorem builds_linkedBlocks (starts captionBlocks : List Nat) (codeOwners : Bool) :
    Builds env w (edit (linkedBlocks starts captionBlocks codeOwners)) Anything := by
  refine builds_edit fun out hw => ?_
  unfold linkedBlocks
  cases hlinked : linkAdjacentCaptions starts codeOwners out.writer captionBlocks with
  | none => exact hw.order.grows
  | some linked => exact grows_linkAdjacentCaptions captionBlocks hw.order hlinked

end Fragments

/-! ## Chandra and dots.ocr pages -/

section Pages
variable {env : Chandra.Env} {w : LayoutWriter}

theorem builds_finishAs (formatName : Bytes) : Builds env w (finishAs env formatName) Anything :=
  builds_state.bind fun _ _ _ _ => builds_done _

theorem builds_finishPage : Builds env w (finishPage env) Anything :=
  builds_state.bind fun _ _ _ _ => builds_done _

theorem builds_walkPage (root : MarkupNode) : Builds env w (walkPage env root) Anything := by
  refine .ite ?_ (builds_forM _ fun node _ w' _ => ?_)
  · exact ((walks env _).walk _ _ _ held_none).bind fun _ _ _ _ => builds_done _
  · exact ((walks env _).block _ _ _ held_none).bind fun _ _ _ _ => builds_done _

theorem builds_mapChandraHtml (text : Bytes) : Builds env w (mapChandraHtml env text) Anything := by
  unfold mapChandraHtml
  refine .ite builds_finishPage (.ite (builds_done _) ?_)
  refine (builds_walkPage _).bind fun _ _ _ _ => builds_state.bind fun _ _ _ _ => ?_
  exact .ite (builds_done _) builds_finishPage

end Pages

end VlmConvert.L3.Chandra

namespace VlmConvert.L3.Dots

open Bytes L2 Doclang Chandra LayoutWriter

section Pages
variable {env : Chandra.Env} {w : LayoutWriter}

theorem builds_emitText (category body : Bytes) (label : DocItemLabel) (box : Option BoundingBox) :
    Builds env w (emitText env category body label box) Anything := by
  unfold emitText
  split
  · exact Builds.bind (builds_op hasParent_none) fun item _ _ hitem => builds_setOrig body hitem
  · refine .ite ?_ (builds_inlineItem _ _ _ held_none)
    exact Builds.bind (builds_op hasParent_none) fun _ _ _ _ => builds_done ()

theorem builds_emitElement {list : Option BodyChild} (category body : Bytes)
    (box : Option BoundingBox)
    (hlist : Held list w) : Builds env w (emitElement env list category body box) Held := by
  unfold emitElement emitOther
  refine .ite ?_ ?_
  · refine (builds_openList hlist).bind fun list w' _ hopen => ?_
    refine (builds_inlineListItem _ _ _ _ _ hopen).bind fun _ w'' hw'' _ => ?_
    exact builds_pure fun _ hw => (hopen.grows hw'').grows hw
  · refine Builds.bind (Q := Anything) ?_ fun _ _ _ _ => builds_pure fun _ _ => held_none
    refine .ite (builds_inlineTable _ _ held_none) (.ite ?_ (.ite (builds_headingItem _ _ _)
      (builds_emitText _ _ _ _)))
    exact Builds.bind (builds_op hasParent_none) fun _ _ _ _ => builds_done ()

theorem builds_mapDotsJson (json : JsonReader) (text : Bytes) :
    Builds env w (mapDotsJson env json text) Anything := by
  unfold mapDotsJson
  refine Builds.bind (Q := fun loop : Loop => Held loop.list) ?_ fun loop w' _ _ => ?_
  · refine builds_foldlM (fun _ _ _ hw h => h.grows hw) _ held_none
      fun loop element _ w' hw' hlist => ?_
    unfold Loop.step
    refine builds_state.bind fun s w'' hw'' _ => ?_
    unfold Loop.emit
    dsimp only
    split
    · exact builds_pure fun _ hw => (Held.grows hw'' hlist).grows hw
    · refine (builds_emitElement _ _ _ (Held.grows hw'' hlist)).bind fun list w₃ _ hopen => ?_
      exact builds_pure fun _ hw => hopen.grows hw
  · exact (builds_linkedBlocks _ _ _).bind fun _ _ _ _ => builds_finishAs _

end Pages

end VlmConvert.L3.Dots

namespace VlmConvert.L3.Nemotron

open Bytes L2 Doclang Chandra Interruptible LayoutWriter

section Pages
variable {env : Chandra.Env} {w : LayoutWriter} {item : Option BodyChild}

theorem builds_setTabularChart (title : Bytes) (rows : List (List Bytes)) :
    Builds env w (edit (setTabularChart item title rows)) Anything := by
  refine builds_edit fun out hw => ?_
  unfold setTabularChart
  split
  · exact hw.order.grows
  · exact grows_setTabularChart hw.order _ _ _ _

theorem on_v2TextOp (label raw : Bytes) (box : BoundingBox) : (v2TextOp label raw box).On w := by
  unfold v2TextOp
  split
  · exact hasParent_none
  · split
    · exact hasParent_none
    · split
      · exact hasParent_none
      · exact hasParent_none

theorem builds_emitV2 (region : Region Float) (hlist : Held item w) :
    Builds env w (emitV2 env item region) Held := by
  unfold emitV2 emitV2Other
  refine .ite ?_ (Builds.bind (Q := Anything) (.ite ?_ (.ite ?_ (.ite ?_ ?_))) fun _ _ _ _ => ?_)
  · refine (builds_openList hlist).bind fun list w₁ _ hopen => ?_
    refine Builds.bind (builds_op hopen) fun item w₂ hw₂ hitem => ?_
    refine (builds_setOrig _ hitem).bind fun _ w₃ hw₃ _ => ?_
    exact builds_pure fun _ hw => ((hopen.grows hw₂).grows hw₃).grows hw
  · exact Builds.bind (builds_op hasParent_none) fun _ _ _ _ => builds_done ()
  · exact Builds.bind (builds_op hasParent_none) fun _ _ _ _ => builds_done ()
  · exact Builds.bind (builds_op hasParent_none) fun _ _ _ _ => builds_setTabularChart _ _
  · exact Builds.bind (builds_op (on_v2TextOp _ _ _)) fun _ _ _ hmade => builds_setOrig _ hmade
  · exact builds_pure fun _ _ => held_none

theorem builds_mapNemotronParseV2 (text : Bytes) :
    Builds env w (mapNemotronParseV2 env text) Anything := by
  unfold mapNemotronParseV2
  refine Builds.bind (Q := Held) ?_ fun _ _ _ _ => builds_finishAs _
  refine builds_foldlM (fun _ _ _ hw h => h.grows hw) _ held_none fun list region _ w' _ hlist => ?_
  exact builds_emitV2 region hlist

/-- Items made since are items. -/
theorem builds_furnish (label : DocItemLabel) (before : Document) :
    Builds env w (furnish env label before) Anything := by
  refine .ite (builds_state.bind fun s w' _ hs => builds_forM _ fun ref href w'' hw'' => ?_)
    (builds_done ())
  have hhas : w'.Has ref := by
    subst hs
    refine (node_isSome _ _).2 ?_
    rcases List.mem_append.1 href with href | href
    all_goals
      obtain ⟨i, hi, rfl⟩ := List.mem_map.1 href
      have := List.mem_range'_1.1 hi
      simp only [Document.size]
      omega
  exact builds_editItem (held_some.2 (hw''.keeps hhas)) fun _ h => h

theorem builds_richText (text : Bytes) (label : DocItemLabel) (box : Option BoundingBox)
    (hp : Held item w) : Builds env w (richText env text label box item) Anything := by
  unfold richText
  refine builds_state.bind fun before w' hw' _ => ?_
  exact (builds_inlineItem _ _ _ (hp.grows hw')).bind fun _ _ _ _ => builds_furnish _ _

theorem builds_chart (text : Bytes) (box : Option BoundingBox) :
    Builds env w (chart env text box) Anything := by
  refine builds_forM _ fun chart _ w' _ => ?_
  refine Builds.bind (builds_op hasParent_none) fun picture _ _ _ => builds_edit fun out hw => ?_
  unfold fillChart
  cases picture with
  | none => exact hw.order.grows
  | some ref =>
    have hclassified := grows_classifyPicture hw.order ref (chartLabel chart.type) []
    exact hclassified.trans (grows_setTabularChart hclassified.order _ _ _ _)

theorem builds_emitV35Other (label body : Bytes) (box : Option BoundingBox) :
    Builds env w (emitV35Other env label body box) Anything := by
  unfold emitV35Other describedPicture
  refine .ite (builds_inlineTable _ _ held_none) (.ite (builds_chart _ _) (.ite ?_
    (.ite (builds_headingItem _ _ _) (.ite ?_ (.ite ?_ (builds_richText _ _ _ held_none))))))
  · refine Builds.bind (builds_op hasParent_none) fun picture _ _ hpicture => ?_
    exact .ite (builds_done ()) (builds_richText _ _ _ hpicture)
  · exact Builds.bind (builds_op hasParent_none) fun item _ _ hitem => builds_setOrig body hitem
  · exact Builds.bind (builds_op hasParent_none) fun _ _ _ _ => builds_done ()

/-- The open list and the open table of contents. -/
theorem builds_step {loop : Loop} (block : Region Float)
    (hloop : Held loop.list w ∧ Held loop.toc w) :
    Builds env w (loop.step env block) fun loop w' => Held loop.list w' ∧ Held loop.toc w' := by
  unfold Loop.step
  refine builds_state.bind fun s w' hw' _ => ?_
  obtain ⟨hlist, htoc⟩ := hloop
  unfold Loop.emit
  refine .ite ?_ (.ite ?_ ?_)
  · refine (builds_openList (Held.grows hw' hlist)).bind fun list w₁ _ hopen => ?_
    refine (builds_inlineListItem _ _ _ _ _ hopen).bind fun _ w₂ hw₂ _ => ?_
    exact builds_pure fun _ hw => ⟨(hopen.grows hw₂).grows hw, held_none⟩
  · unfold openToc emitTocLine
    refine Builds.bind (Q := Held) (.ite ?_ (builds_op hasParent_none)) fun toc w₁ _ hopen => ?_
    · exact builds_pure fun _ hw => (Held.grows hw' htoc).grows hw
    · refine Builds.bind (Q := Anything) ?_ fun _ w₂ hw₂ _ => ?_
      · exact .ite (builds_inlineTable _ _ hopen) (builds_richText _ _ _ hopen)
      · exact builds_pure fun _ hw => ⟨held_none, (hopen.grows hw₂).grows hw⟩
  · exact (builds_emitV35Other _ _ _).bind fun _ _ _ _ => builds_pure fun _ _ =>
      ⟨held_none, held_none⟩

theorem builds_mapNemotronParseV35 (text : Bytes) :
    Builds env w (mapNemotronParseV35 env text) Anything := by
  unfold mapNemotronParseV35
  refine Builds.bind (Q := fun loop w' => Held loop.list w' ∧ Held loop.toc w') ?_
    fun loop _ _ _ => ?_
  · refine builds_foldlM (fun _ _ _ hw h => ⟨h.1.grows hw, h.2.grows hw⟩) _ ⟨held_none,
      held_none⟩ ?_
    exact fun loop block _ w' _ hloop => builds_step block hloop
  · exact (builds_linkedBlocks _ _ _).bind fun _ _ _ _ => builds_finishAs _

end Pages

end VlmConvert.L3.Nemotron
