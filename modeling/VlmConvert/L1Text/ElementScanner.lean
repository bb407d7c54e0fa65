import VlmConvert.Core.Bytes
import VlmConvert.Core.CachedSearch

/-!
# The element scanner

`ElementScanner` (`src/mapping/html.cpp:57-137`) walks the elements
`<name ...>content</name>` of a fixed set of tag names. It looks for a `>` and
for each closing tag through a cache (`Core/CachedSearch.lean`), so that a page
of unclosed tags is read once. The scanner here takes its two searches as a
parameter; `cachedSearches` are those of the source and `freshSearches` search
from the start every time.

The caches are right because no search starts before an earlier one for the
same thing: no `<` stands in a tag name or right behind it, so the scanner's
next `<` lies behind the name it has looked at.

Result: `elements_exact`, the two scanners return the same elements.
-/
namespace VlmConvert.L1.Html

open Bytes

/-! ## Searches -/

/-- mirrors src/mapping/html.cpp:29-39 -/
def atCi (text : Bytes) (pos : Nat) (name : Bytes) : Bool :=
  if text.length < pos || text.length - pos < name.length then false
  else ((text.drop pos).take name.length).map toLower == name

/-- mirrors src/mapping/html.cpp:41-49 -/
def findCi (text needle : Bytes) (from_ : Nat) : Option Nat :=
  firstFrom (fun i => atCi text i needle) text.length from_

def isAt (text : Bytes) (c : UInt8) (i : Nat) : Bool := text[i]? == some c

/-- `std::string_view::find` of one character, from a position. -/
def findFrom (text : Bytes) (c : UInt8) (from_ : Nat) : Option Nat :=
  firstFrom (isAt text c) text.length from_

def closeTag (name : Bytes) : Bytes := ascii "</" ++ name ++ ascii ">"

/-- How the scanner looks for the next `>` and for the closing tag of a name;
the state is what it keeps between searches. -/
structure Searches (σ : Type) where
  nextGt : σ → Nat → Option Nat × σ
  nextClose : σ → Nat → Nat → Option Nat × σ

/-- mirrors src/mapping/html.cpp:104-110, 134-136 -/
structure Caches where
  gt : Cached := {}
  close : List Cached

/-- mirrors src/mapping/html.cpp:112-130 -/
def cachedSearches (text : Bytes) (names : List Bytes) : Searches Caches where
  nextGt s from_ :=
    let r := s.gt.query (isAt text 0x3E) text.length from_
    (r.1, { s with gt := r.2 })
  nextClose s name from_ :=
    let tag := closeTag (names.getD name [])
    let r := (s.close.getD name {}).query (fun i => atCi text i tag) text.length from_
    (r.1, { s with close := s.close.set name r.2 })

/-- Searches without a cache. -/
def freshSearches (text : Bytes) (names : List Bytes) : Searches Unit where
  nextGt _ from_ := (findFrom text 0x3E from_, ())
  nextClose _ name from_ := (findCi text (closeTag (names.getD name [])) from_, ())

/-! ## The scanner -/

/-- mirrors src/mapping/html.cpp:52-55 -/
structure Found where
  name : Bytes
  content : Bytes
  deriving DecidableEq, Repr

/-- mirrors src/mapping/html.cpp:80-85 -/
def opensName (text : Bytes) (open_ : Nat) (name : Bytes) : Bool :=
  atCi text (open_ + 1) name && match text[open_ + 1 + name.length]? with
    | none => false
    | some c => isSpace c || c == 0x3E || c == 0x2F

theorem findFrom_bounds {text : Bytes} {c : UInt8} {from_ k : Nat}
    (h : findFrom text c from_ = some k) :
    from_ ≤ k ∧ k < text.length :=
  ⟨(firstFrom_spec h).1, (firstFrom_spec h).2.1⟩

/-- The `<` at `open_` opens the `i`-th name: what the call returns and where
the scanner goes on, or nothing if the element is never closed.
mirrors src/mapping/html.cpp:86-97 -/
def tryElement {σ : Type} (searches : Searches σ) (text : Bytes) (names : List Bytes) (s : σ)
    (open_ i : Nat) : Option (Option Found × Nat) × σ :=
  let name := names.getD i []
  match searches.nextGt s (open_ + 1 + name.length) with
  | (none, s) => (some (none, text.length), s)
  | (some gt, s) =>
    match searches.nextClose s i (gt + 1) with
    | (none, s) => (none, s)
    | (some close, s) =>
      (some (some ⟨name, (text.drop (gt + 1)).take (close - gt - 1)⟩,
        close + (closeTag name).length), s)

/-- One call: the element, what the searches keep, and the position.
mirrors src/mapping/html.cpp:74-101 -/
def next {σ : Type} (searches : Searches σ) (text : Bytes) (names : List Bytes) (s : σ)
    (pos : Nat) :
    Option Found × σ × Nat :=
  match _hopen : findFrom text 0x3C pos with
  | none => (none, s, pos)
  | some open_ =>
    match names.findIdx? (opensName text open_) with
    | none => next searches text names s (open_ + 1)
    | some i =>
      match tryElement searches text names s open_ i with
      | (none, s) => next searches text names s (open_ + 1)
      | (some (found, pos), s) => (found, s, pos)
termination_by text.length - pos
decreasing_by
  all_goals
    have := findFrom_bounds _hopen
    omega

/-- What `n` calls return, one after the other. -/
def calls {σ : Type} (searches : Searches σ) (text : Bytes) (names : List Bytes) :
    Nat → σ → Nat → List (Option Found)
  | 0, _, _ => []
  | n + 1, s, pos =>
    let r := next searches text names s pos
    r.1 :: calls searches text names n r.2.1 r.2.2

/-- The tag names `map_html` scans for.
mirrors src/mapping/html.cpp:223-224, 237, 277-278 -/
inductive TagSet
  | blocks | cells | rows

def TagSet.names : TagSet → List Bytes
  | .blocks => ["h1", "h2", "h3", "h4", "h5", "h6", "p", "li", "pre", "code", "table"].map ascii
  | .cells => ["th", "td"].map ascii
  | .rows => ["tr"].map ascii

/-! ## No search starts before an earlier one -/

section Names
variable {text : Bytes} {names : List Bytes} {open_ : Nat} {name : Bytes}

theorem toLower_lt : toLower 0x3C = 0x3C := rfl

/-- The bytes of a name the scanner has found. -/
theorem atCi_byte {pos k : Nat} {c : UInt8} (h : atCi text pos name = true) (hk : k < name.length)
    (hc : text[pos + k]? = some c) : toLower c ∈ name := by
  unfold atCi at h
  split at h
  · cases h
  · rw [beq_iff_eq] at h
    have hget : (((text.drop pos).take name.length).map toLower)[k]? = some (toLower c) := by
      rw [List.getElem?_map, List.getElem?_take_of_lt hk, List.getElem?_drop, hc]
      rfl
    rw [h] at hget
    exact List.mem_of_getElem? hget

/-- No `<` stands in a name or right behind it. -/
theorem opensName_behind (hname : 0x3C ∉ name) (h : opensName text open_ name = true) {q : Nat}
    (hq : open_ < q) (hlt : isAt text 0x3C q = true) : open_ + 1 + name.length < q := by
  rw [opensName, Bool.and_eq_true] at h
  obtain ⟨hat, hend⟩ := h
  rw [isAt, beq_iff_eq] at hlt
  by_contra hle
  rcases Nat.lt_or_eq_of_le (Nat.le_of_not_lt hle) with hq' | hq'
  · have hmem := atCi_byte (k := q - (open_ + 1)) hat (by omega)
      (by rw [show open_ + 1 + (q - (open_ + 1)) = q by omega]; exact hlt)
    exact hname (toLower_lt ▸ hmem)
  · rw [← hq', hlt] at hend
    cases hend

end Names

/-- The cache for `>` holds its search, which does not start behind the next
`<`. -/
structure GtFits (text : Bytes) (c : Cached) (pos : Nat) : Prop where
  valid : c.Valid (isAt text 0x3E) text.length
  start : c.searched = true → ∀ q, pos ≤ q → isAt text 0x3C q = true → c.from_ ≤ q

/-- The cache for a closing tag holds its search, which does not start behind
a `>` after the next `<`. -/
structure CloseFits (text tag : Bytes) (c : Cached) (pos : Nat) : Prop where
  valid : c.Valid (fun j => atCi text j tag) text.length
  start : c.searched = true → ∀ q g, pos ≤ q → isAt text 0x3C q = true → q < g →
    isAt text 0x3E g = true → c.from_ ≤ g + 1

structure CachesFit (text : Bytes) (names : List Bytes) (s : Caches) (pos : Nat) : Prop where
  gt : GtFits text s.gt pos
  count : s.close.length = names.length
  close : ∀ i, CloseFits text (closeTag (names.getD i [])) (s.close.getD i {}) pos

section Exact
variable {text : Bytes} {names : List Bytes}

theorem next_eq {σ : Type} (searches : Searches σ) (s : σ) (pos : Nat) :
    next searches text names s pos = match findFrom text 0x3C pos with
      | none => (none, s, pos)
      | some open_ => match names.findIdx? (opensName text open_) with
        | none => next searches text names s (open_ + 1)
        | some i => match tryElement searches text names s open_ i with
          | (none, s) => next searches text names s (open_ + 1)
          | (some (found, pos), s) => (found, s, pos) := by
  rw [next]
  split
  · rename_i h
    rw [h]
  · rename_i h
    rw [h]

theorem GtFits.later {c : Cached} {pos pos' : Nat} (h : GtFits text c pos) (hle : pos ≤ pos') :
    GtFits text c pos' :=
  ⟨h.valid, fun hs q hq => h.start hs q (Nat.le_trans hle hq)⟩

theorem CloseFits.later {tag : Bytes} {c : Cached} {pos pos' : Nat} (h : CloseFits text tag c pos)
    (hle : pos ≤ pos') : CloseFits text tag c pos' :=
  ⟨h.valid, fun hs q g hq => h.start hs q g (Nat.le_trans hle hq)⟩

theorem CachesFit.later {s : Caches} {pos pos' : Nat} (h : CachesFit text names s pos)
    (hle : pos ≤ pos') :
    CachesFit text names s pos' :=
  ⟨h.gt.later hle, h.count, fun i => (h.close i).later hle⟩

section Found
variable {pos open_ nameEnd : Nat} (hpos : pos ≤ open_) (hopen : isAt text 0x3C open_ = true)
  (hend : open_ < nameEnd) (hbehind : ∀ q, open_ < q → isAt text 0x3C q = true → nameEnd < q)
include hpos hopen hend hbehind

/-- The search for the `>` of a tag whose name ends at `nameEnd`. -/
theorem GtFits.query {c : Cached} (h : GtFits text c pos) :
    (c.query (isAt text 0x3E) text.length nameEnd).1 = findFrom text 0x3E nameEnd ∧
      GtFits text (c.query (isAt text 0x3E) text.length nameEnd).2 (open_ + 1) := by
  obtain ⟨heq, hvalid, hfrom⟩ := Cached.query_eq nameEnd h.valid fun hs =>
    Nat.le_trans (h.start hs open_ hpos hopen) (Nat.le_of_lt hend)
  refine ⟨heq, hvalid, fun _ q hq hlt => ?_⟩
  have := hbehind q hq hlt
  omega

/-- The search for its closing tag. -/
theorem CloseFits.query {tag : Bytes} {c : Cached} {gt : Nat} (h : CloseFits text tag c pos)
    (hgt : findFrom text 0x3E nameEnd = some gt) :
    (c.query (fun j => atCi text j tag) text.length (gt + 1)).1 = findCi text tag (gt + 1) ∧
      CloseFits text tag (c.query (fun j => atCi text j tag) text.length (gt + 1)).2
        (open_ + 1) := by
  obtain ⟨hle, -, hat, hfirst⟩ := firstFrom_spec hgt
  obtain ⟨heq, hvalid, hfrom⟩ := Cached.query_eq (gt + 1) h.valid fun hs =>
    h.start hs open_ gt hpos hopen (by omega) hat
  refine ⟨heq, hvalid, fun _ q g hq hlt hqg hg => ?_⟩
  -- the first `>` behind the name lies at or before any `>` behind the next `<`
  have hq' := hbehind q hq hlt
  have hle' : gt ≤ g := by
    by_contra hlt'
    rw [hfirst g (by omega) (by omega)] at hg
    cases hg
  omega

end Found

theorem getD_set {α : Type} (l : List α) (i j : Nat) (a d : α) :
    (i = j ∧ (l.set i a).getD j d = a) ∨ (l.set i a).getD j d = l.getD j d := by
  simp only [List.getD_eq_getElem?_getD, List.getElem?_set]
  by_cases hij : i = j
  · by_cases hi : i < l.length
    · exact Or.inl ⟨hij, by simp [hij, hij ▸ hi]⟩
    · exact Or.inr (by simp [hij, hij ▸ hi])
  · exact Or.inr (by simp [hij])

/-- One opening tag. -/
theorem tryElement_exact {s : Caches} {pos open_ i : Nat} (hfit : CachesFit text names s pos)
    (hpos : pos ≤ open_) (hat : isAt text 0x3C open_ = true) (hlen : open_ < text.length)
    (hbehind : ∀ q, open_ < q → isAt text 0x3C q = true →
      open_ + 1 + (names.getD i []).length < q) :
    ∃ result s', tryElement (cachedSearches text names) text names s open_ i = (result, s') ∧
      tryElement (freshSearches text names) text names () open_ i = (result, ()) ∧
      CachesFit text names s' (open_ + 1) ∧ ∀ r, result = some r → open_ + 1 ≤ r.2 := by
  obtain ⟨hgt, hgtfits⟩ := hfit.gt.query hpos hat (by omega) hbehind
  unfold tryElement
  simp only [cachedSearches, freshSearches, hgt]
  cases hres : findFrom text 0x3E (open_ + 1 + (names.getD i []).length) with
  | none =>
    refine ⟨_, _, rfl, rfl, ⟨hgtfits, hfit.count, fun j => (hfit.close j).later (by omega)⟩, ?_⟩
    rintro r ⟨⟩
    exact hlen
  | some gt =>
    obtain ⟨hclose, hclosefits⟩ := (hfit.close i).query hpos hat (by omega) hbehind hres
    have hbounds := findFrom_bounds hres
    simp only [hclose]
    have hfit' : ∀ c, CloseFits text (closeTag (names.getD i [])) c (open_ + 1) → ∀ gtCache,
        GtFits text gtCache (open_ + 1) →
        CachesFit text names { gt := gtCache, close := s.close.set i c } (open_ + 1) := by
      intro c hc gtCache hgtCache
      refine ⟨hgtCache, by rw [List.length_set]; exact hfit.count, fun j => ?_⟩
      rcases getD_set s.close i j c {} with ⟨rfl, he⟩ | he
      · dsimp only
        rwa [he]
      · dsimp only
        rw [he]
        exact (hfit.close j).later (by omega)
    cases hfound : findCi text (closeTag (names.getD i [])) (gt + 1) with
    | none => exact ⟨_, _, rfl, rfl, hfit' _ hclosefits _ hgtfits, by rintro r ⟨⟩⟩
    | some close =>
      refine ⟨_, _, rfl, rfl, hfit' _ hclosefits _ hgtfits, ?_⟩
      rintro r ⟨⟩
      have := (firstFrom_spec hfound).1
      dsimp only
      omega

/-- **One call** of the cached scanner is one of the fresh scanner, and leaves
the caches fit. -/
theorem next_exact (hnames : ∀ name ∈ names, 0x3C ∉ name) : ∀ (n pos : Nat) (s : Caches),
    text.length - pos ≤ n → CachesFit text names s pos →
    ∃ found s' pos', next (cachedSearches text names) text names s pos = (found, s', pos') ∧
      next (freshSearches text names) text names () pos = (found, (), pos') ∧
      CachesFit text names s' pos' := by
  intro n
  induction n with
  | zero =>
    intro pos s hn hfit
    have hnone : findFrom text 0x3C pos = none := firstFrom_eq_none.2 fun j hj hjl => by omega
    rw [next_eq, next_eq, hnone]
    exact ⟨_, _, _, rfl, rfl, hfit⟩
  | succ n ih =>
    intro pos s hn hfit
    rw [next_eq, next_eq]
    cases hopen : findFrom text 0x3C pos with
    | none => exact ⟨_, _, _, rfl, rfl, hfit⟩
    | some open_ =>
      obtain ⟨hpos, hlen⟩ := findFrom_bounds hopen
      have hat := (firstFrom_spec hopen).2.2.1
      dsimp only
      cases hi : names.findIdx? (opensName text open_) with
      | none => exact ih (open_ + 1) s (by omega) (hfit.later (by omega))
      | some i =>
        obtain ⟨hlt, hopens, -⟩ := List.findIdx?_eq_some_iff_getElem.1 hi
        have hget : names.getD i [] = names[i] := by
          rw [List.getD_eq_getElem?_getD, List.getElem?_eq_getElem hlt]
          rfl
        have hbehind : ∀ q, open_ < q → isAt text 0x3C q = true →
            open_ + 1 + (names.getD i []).length < q := by
          rw [hget]
          exact fun q hq hq' => opensName_behind (hnames _ (List.getElem_mem hlt)) hopens hq hq'
        obtain ⟨result, s', hcached, hfresh, hfit', hresult⟩ :=
          tryElement_exact hfit hpos hat hlen hbehind
        dsimp only
        rw [hcached, hfresh]
        cases result with
        | none => exact ih (open_ + 1) s' (by omega) hfit'
        | some r => exact ⟨_, _, _, rfl, rfl, hfit'.later (hresult r rfl)⟩

/-- Any number of calls. -/
theorem calls_exact (hnames : ∀ name ∈ names, 0x3C ∉ name) (n : Nat) : ∀ (s : Caches) (pos : Nat),
    CachesFit text names s pos → calls (cachedSearches text names) text names n s pos =
      calls (freshSearches text names) text names n () pos := by
  induction n with
  | zero => intro s pos _; rfl
  | succ n ih =>
    intro s pos hfit
    obtain ⟨found, s', pos', hcached, hfresh, hfit'⟩ :=
      next_exact hnames _ pos s (Nat.le_refl _) hfit
    rw [calls, calls, hcached, hfresh, ih s' pos' hfit']

end Exact

/-- **The cached searches are exact.** For every text and each of the tag-name
sets of `map_html`, however often `next` is called, the scanner returns what it
would return if it searched afresh every time. -/
theorem elements_exact (text : Bytes) (tags : TagSet) (n : Nat) :
    calls (cachedSearches text tags.names) text tags.names n
        { close := List.replicate tags.names.length {} } 0 =
      calls (freshSearches text tags.names) text tags.names n () 0 := by
  have hnames : ∀ name ∈ tags.names, 0x3C ∉ name := by
    cases tags <;> decide
  refine calls_exact hnames n _ 0 ⟨⟨by rintro ⟨⟩, by rintro ⟨⟩⟩, List.length_replicate, fun i => ?_⟩
  have hempty : (List.replicate tags.names.length ({} : Cached)).getD i {} = {} := by
    rw [List.getD_eq_getElem?_getD, List.getElem?_replicate]
    split <;> rfl
  dsimp only
  rw [hempty]
  exact ⟨by rintro ⟨⟩, by rintro ⟨⟩⟩

end VlmConvert.L1.Html
