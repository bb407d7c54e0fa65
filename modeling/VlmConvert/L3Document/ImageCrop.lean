import Mathlib.Data.Rat.Floor
import Mathlib.Tactic.Linarith
import VlmConvert.L3Document.LayoutWriter

/-!
# Crops of the page raster

`PageRaster` of `src/mapping/image_crop.cpp`: the raster is decoded on the
first crop, each crop is charged to the page's budget, cut out, encoded and
attached as a data URI. Decoding and encoding are stb's (`Stb`); coordinates
and the area budget, `double` in the source, are rationals; the counters are
`uint64_t` and `size_t`.

A read outside the decoded pixels is undefined in the source: here the whole
call is `none`.

Results:

* `crop_budget`: what any sequence of crops may spend, and that none of them
  reads outside the raster.
* `cropPictures_run` and `writer_crops`: the mappers' raster is an `oracle` of
  this one; what they attach and count is a run of it.
* `crop_area_over_budget`: the two kinds of area budget that are not kept.
-/
namespace VlmConvert.L3.ImageCrop

open Bytes L2

/-! ## The codec -/

/-- stb: the size a header claims, the pixels of an image, four bytes each and
row by row, and a PNG of some pixels. -/
structure Stb where
  info : Bytes → Option (Int32 × Int32)
  load : Bytes → Option (Int32 × Int32 × Bytes)
  writePng : Nat → Nat → Bytes → Option Bytes
  load_size : ∀ {png : Bytes} {w h : Int32} {pixels : Bytes}, load png = some (w, h, pixels) →
    pixels.length = w.toNatClampNeg * h.toNatClampNeg * 4

/-- mirrors src/mapping/image_crop.cpp:26-27 -/
def kAlphabet : Bytes :=
  ascii "ABCDEFGHIJKLMNOPQRSTUVWXYZabcdefghijklmnopqrstuvwxyz0123456789+/"

/-- The digit of `group` that starts at bit `shift`. -/
def base64Digit (group shift : Nat) : UInt8 := kAlphabet.getD (group / 2 ^ shift % 64) 0

/-- mirrors src/mapping/image_crop.cpp:25-44 -/
def base64Encode : Bytes → Bytes
  | [] => []
  | [a] =>
    let group := a.toNat * 65536
    [base64Digit group 18, base64Digit group 12, 0x3D, 0x3D]
  | [a, b] =>
    let group := a.toNat * 65536 + b.toNat * 256
    [base64Digit group 18, base64Digit group 12, base64Digit group 6, 0x3D]
  | a :: b :: c :: rest =>
    let group := a.toNat * 65536 + b.toNat * 256 + c.toNat
    [base64Digit group 18, base64Digit group 12, base64Digit group 6, base64Digit group 0] ++
      base64Encode rest

/-! ## The raster -/

/-- mirrors src/mapping/image_crop.h:33-44 -/
structure CropBudget where
  maxCrops : UInt64
  maxAreaPages : ℚ
  maxInlineBytes : UInt64

/-- What the raster is made with. -/
structure Page where
  png : Bytes
  width : UInt32
  height : UInt32
  budget : CropBudget

/-- mirrors src/mapping/image_crop.h:85-98 -/
structure PageRaster where
  tried : Bool := false
  tooLarge : Bool := false
  pixels : Option Bytes := none
  width : Nat := 0
  height : Nat := 0
  decodes : Nat := 0
  crops : Nat := 0
  croppedPixels : Nat := 0
  inlineBytes : Nat := 0
  inlineBytesSpent : Bool := false

/-- mirrors src/mapping/image_crop.h:52-58 -/
inductive Crop
  | attached | failed | overBudget | overByteCap | rasterTooLarge
  deriving DecidableEq, Repr

structure ImageRef where
  mimetype : Bytes := []
  dpi : Nat := 0
  width : Nat := 0
  height : Nat := 0
  uri : Bytes := []
  deriving DecidableEq, Repr

def ImageRef.area (image : ImageRef) : Nat := image.width * image.height

/-- In the coordinates of the declared page. -/
structure Box where
  left : ℚ
  top : ℚ
  right : ℚ
  bottom : ℚ

/-- In pixels of the decoded raster, without its right and bottom edge. -/
structure Region where
  x1 : Nat
  y1 : Nat
  x2 : Nat
  y2 : Nat
  deriving DecidableEq

section Calls
variable (stb : Stb) (page : Page)

/-- What stb is given: its lengths are `int`. -/
def pngBytes : Bytes := page.png.take (2 ^ 31 - 1)

/-- mirrors src/mapping/image_crop.cpp:66-96 -/
def decode (s : PageRaster) : Bool × PageRaster :=
  if s.tried then (s.pixels.isSome, s)
  else
    match stb.info (pngBytes page) with
    | none => (false, { s with tried := true })
    | some (w, h) =>
      if w ≤ 0 ∨ h ≤ 0 then (false, { s with tried := true })
      else
        let s := { s with tried := true, width := w.toNatClampNeg, height := h.toNatClampNeg }
        if s.width * s.height > kMaxRasterPixels then (false, { s with tooLarge := true })
        else
          let s := { s with decodes := s.decodes + 1 }
          match stb.load (pngBytes page) with
          | none => (false, s)
          | some (w', h', pixels) =>
            if w' ≠ w ∨ h' ≠ h then (false, s) else (true, { s with pixels := some pixels })

/-- A factor of the raster's pixels to the page's. -/
def scale (raster page : Nat) : ℚ := if page > 0 then (raster : ℚ) / page else 1

/-- `std::clamp` to the raster's edge. -/
def clampTo (edge : Nat) (x : Int) : Nat := (max 0 (min x edge)).toNat

/-- mirrors src/mapping/image_crop.cpp:104-116 -/
def regionOf (s : PageRaster) (box : Box) : Region where
  x1 := clampTo s.width (box.left * scale s.width page.width.toNat).floor
  y1 := clampTo s.height (box.top * scale s.height page.height.toNat).floor
  x2 := clampTo s.width (box.right * scale s.width page.width.toNat).ceil
  y2 := clampTo s.height (box.bottom * scale s.height page.height.toNat).ceil

/-- `std::copy_n`; past the end it is undefined. -/
def readBytes (pixels : Bytes) (start n : Nat) : Option Bytes :=
  if start + n ≤ pixels.length then some ((pixels.drop start).take n) else none

/-- mirrors src/mapping/image_crop.cpp:138-143 -/
def copyRegion (pixels : Bytes) (width : Nat) (r : Region) : Option Bytes :=
  ((List.range (r.y2 - r.y1)).mapM fun row =>
    readBytes pixels (((r.y1 + row) * width + r.x1) * 4) ((r.x2 - r.x1) * 4)).map List.flatten

/-- What is done with the encoded crop.
mirrors src/mapping/image_crop.cpp:145-167 -/
def attach (s : PageRaster) (r : Region) (encoded : Option Bytes) (image : ImageRef) :
    Crop × PageRaster × ImageRef :=
  match encoded with
  | none | some [] => (.failed, s, image)
  | some bytes =>
    let uri := ascii "data:image/png;base64," ++ base64Encode bytes
    if uri.length > subSize page.budget.maxInlineBytes.toNat s.inlineBytes then
      (.overByteCap, { s with inlineBytesSpent := true }, image)
    else
      (.attached, { s with inlineBytes := (s.inlineBytes + uri.length) % 2 ^ 64 },
        ⟨ascii "image/png", 72, r.x2 - r.x1, r.y2 - r.y1, uri⟩)

/-- mirrors src/mapping/image_crop.cpp:98-168 -/
def crop (s : PageRaster) (box : Box) (image : ImageRef) : Option (Crop × PageRaster × ImageRef) :=
  match decode stb page s with
  | (false, s) => some (if s.tooLarge then .rasterTooLarge else .failed, s, image)
  | (true, s) =>
    let r := regionOf page s box
    if r.x2 ≤ r.x1 ∨ r.y2 ≤ r.y1 then some (.failed, s, image)
    else if s.inlineBytesSpent then some (.overByteCap, s, image)
    else
      let area := (r.x2 - r.x1) * (r.y2 - r.y1)
      let charged : Nat := (s.croppedPixels + area) % 2 ^ 64
      if s.crops ≥ page.budget.maxCrops.toNat ∨
          (charged : ℚ) > page.budget.maxAreaPages * s.width * s.height then
        some (.overBudget, s, image)
      else do
        -- count and area are charged before the crop is encoded
        let s := { s with crops := (s.crops + 1) % 2 ^ 64, croppedPixels := charged }
        let copied ← copyRegion (← s.pixels) s.width r
        some (attach page s r (stb.writePng (r.x2 - r.x1) (r.y2 - r.y1) copied) image)

/-- A page's crops in turn, each with the image it may fill. -/
def run (s : PageRaster) : List (Box × ImageRef) → Option (PageRaster × List (Crop × ImageRef))
  | [] => some (s, [])
  | (box, image) :: calls => do
    let (outcome, s, image) ← crop stb page s box image
    let (s, log) ← run s calls
    some (s, (outcome, image) :: log)

end Calls

/-- The images that came back. -/
def attachedImages (log : List (Crop × ImageRef)) : List ImageRef :=
  (log.filter fun entry => entry.1 == .attached).map Prod.snd

/-! ## What a state has spent -/

section Spent
variable (stb : Stb) (page : Page)

/-- The raster is decoded at most once, and only within the pixel cap. -/
structure Decoded (s : PageRaster) : Prop where
  fresh : s.tried = false → s = {}
  once : s.decodes ≤ 1
  allowed : 0 < s.decodes → ∃ w h, stb.info (pngBytes page) = some (w, h) ∧
    w.toNatClampNeg * h.toNatClampNeg ≤ kMaxRasterPixels
  buffer : ∀ pixels, s.pixels = some pixels →
    pixels.length = s.width * s.height * 4 ∧ s.width * s.height ≤ kMaxRasterPixels

/-- The area counter cannot wrap before the area budget runs out. -/
def NoWrap (s : PageRaster) : Prop :=
  (page.budget.maxAreaPages + 1) * (s.width * s.height) < 2 ^ 64

/-- The counters against the images attached so far. -/
structure Spent (s : PageRaster) (images : List ImageRef) : Prop extends Decoded stb page s where
  bytes : s.inlineBytes = (images.map fun image => image.uri.length).sum
  bytes_le : s.inlineBytes ≤ page.budget.maxInlineBytes.toNat
  count : images.length ≤ s.crops
  crops_le : s.crops ≤ page.budget.maxCrops.toNat
  idle : s.crops = 0 → s.croppedPixels = 0
  area : NoWrap page s → (images.map ImageRef.area).sum ≤ s.croppedPixels ∧
    (0 < s.crops → (s.croppedPixels : ℚ) ≤ page.budget.maxAreaPages * s.width * s.height)

theorem spent_start : Spent stb page {} [] where
  fresh := fun _ => rfl
  once := Nat.zero_le 1
  allowed := nofun
  buffer := nofun
  bytes := rfl
  bytes_le := Nat.zero_le _
  count := Nat.le_refl 0
  crops_le := Nat.zero_le _
  idle := fun _ => rfl
  area := fun _ => ⟨Nat.le_refl 0, nofun⟩

variable {stb page} {s : PageRaster} {images : List ImageRef}

theorem decode_tried (h : s.tried = true) : decode stb page s = (s.pixels.isSome, s) := by
  rw [decode, if_pos h]

/-- The first call decodes; nothing is spent yet. -/
theorem decode_fresh {r : Bool × PageRaster} (hr : decode stb page {} = r) :
    r.1 = r.2.pixels.isSome ∧ Decoded stb page r.2 ∧ r.2.crops = 0 ∧ r.2.croppedPixels = 0 ∧
      r.2.inlineBytes = 0 ∧ r.2.inlineBytesSpent = false := by
  rw [decode, if_neg (by simp)] at hr
  subst hr
  split
  · exact ⟨rfl, ⟨nofun, Nat.zero_le 1, nofun, nofun⟩, rfl, rfl, rfl, rfl⟩
  · rename_i w h hinfo
    split
    · exact ⟨rfl, ⟨nofun, Nat.zero_le 1, nofun, nofun⟩, rfl, rfl, rfl, rfl⟩
    · dsimp only
      split
      · exact ⟨rfl, ⟨nofun, Nat.zero_le 1, nofun, nofun⟩, rfl, rfl, rfl, rfl⟩
      · rename_i hsmall
        have hallowed : w.toNatClampNeg * h.toNatClampNeg ≤ kMaxRasterPixels :=
          Nat.le_of_not_lt hsmall
        split
        · exact ⟨rfl, ⟨nofun, Nat.le_refl 1, fun _ => ⟨w, h, hinfo, hallowed⟩, nofun⟩, rfl, rfl,
            rfl, rfl⟩
        · rename_i w' h' pixels hload
          split
          · exact ⟨rfl, ⟨nofun, Nat.le_refl 1, fun _ => ⟨w, h, hinfo, hallowed⟩, nofun⟩, rfl, rfl,
              rfl, rfl⟩
          · rename_i hsame
            rw [not_or, not_not, not_not] at hsame
            obtain ⟨rfl, rfl⟩ := hsame
            refine ⟨rfl, ⟨nofun, Nat.le_refl 1, fun _ => ⟨w', h', hinfo, hallowed⟩, ?_⟩, rfl, rfl,
              rfl, rfl⟩
            intro px hpx
            rw [← Option.some.inj hpx]
            exact ⟨stb.load_size hload, hallowed⟩

theorem Spent.decode (h : Spent stb page s images) :
    ∃ s', decode stb page s = (s'.pixels.isSome, s') ∧ Spent stb page s' images ∧
      s'.inlineBytesSpent = s.inlineBytesSpent := by
  cases htried : s.tried with
  | true => exact ⟨s, decode_tried htried, h, rfl⟩
  | false =>
    have hs : s = {} := h.fresh htried
    subst hs
    have himages : images = [] := List.length_eq_zero_iff.1 (Nat.le_zero.1 h.count)
    subst himages
    obtain ⟨hsome, hdecoded, hcrops, hpixels, hbytes, hspent⟩ := @decode_fresh stb page _ rfl
    refine ⟨_, Prod.ext hsome rfl,
      ⟨hdecoded, hbytes, ?_, ?_, ?_, fun _ => hpixels, fun _ => ⟨Nat.zero_le _, ?_⟩⟩, hspent⟩
    · omega
    · exact Nat.zero_le _
    · omega
    · intro hpos
      omega

end Spent

/-! ## The pixels of a crop -/

theorem clampTo_le (edge : Nat) (x : Int) : clampTo edge x ≤ edge := by
  unfold clampTo
  omega

theorem mapM_isSome {α β : Type} {f : α → Option β} :
    ∀ {l : List α}, (∀ x ∈ l, (f x).isSome = true) →
    ∃ ys, l.mapM f = some ys := by
  intro l
  induction l with
  | nil => intro _; exact ⟨[], rfl⟩
  | cons x l ih =>
    intro h
    obtain ⟨y, hy⟩ := Option.isSome_iff_exists.1 (h x List.mem_cons_self)
    obtain ⟨ys, hys⟩ := ih fun x' hx' => h x' (List.mem_cons_of_mem x hx')
    exact ⟨y :: ys, by simp [List.mapM_cons, hy, hys]⟩

/-- Every row of a region inside the raster is inside its pixels. -/
theorem copyRegion_inside {pixels : Bytes} {width height : Nat} {r : Region}
    (hsize : pixels.length = width * height * 4) (hx : r.x1 < r.x2) (hx2 : r.x2 ≤ width)
    (hy2 : r.y2 ≤ height) : ∃ copied, copyRegion pixels width r = some copied := by
  have hrows : ∀ row ∈ List.range (r.y2 - r.y1),
      (readBytes pixels (((r.y1 + row) * width + r.x1) * 4) ((r.x2 - r.x1) * 4)).isSome = true := by
    intro row hrow
    have hrow := List.mem_range.1 hrow
    have hbelow : (r.y1 + row + 1) * width ≤ height * width := Nat.mul_le_mul_right width (by omega)
    rw [Nat.add_mul, Nat.one_mul, Nat.mul_comm height] at hbelow
    rw [readBytes, if_pos]
    · rfl
    · omega
  obtain ⟨rows, hcopy⟩ := mapM_isSome hrows
  exact ⟨rows.flatten, by rw [copyRegion, hcopy]; rfl⟩

/-! ## One crop -/

section Step
variable {stb : Stb} {page : Page} {s : PageRaster} {images : List ImageRef}

/-- Count and area of one more crop. -/
def charged (s : PageRaster) (area : Nat) : PageRaster :=
  { s with crops := (s.crops + 1) % 2 ^ 64, croppedPixels := (s.croppedPixels + area) % 2 ^ 64 }

/-- What is charged is room for one more image. -/
theorem Spent.charge (h : Spent stb page s images) {pixels : Bytes}
    (hpixels : s.pixels = some pixels)
    {area : Nat} (harea : area ≤ s.width * s.height) (hcrops : s.crops < page.budget.maxCrops.toNat)
    (hbudget : (((s.croppedPixels + area) % 2 ^ 64 : Nat) : ℚ) ≤
      page.budget.maxAreaPages * s.width * s.height) :
    Spent stb page (charged s area) images ∧ images.length < (charged s area).crops ∧
      (NoWrap page s → (images.map ImageRef.area).sum + area ≤ (charged s area).croppedPixels) := by
  have hsmall := (h.buffer pixels hpixels).2
  have hmax := page.budget.maxCrops.toNat_lt
  have hnext : (s.crops + 1) % 2 ^ 64 = s.crops + 1 := Nat.mod_eq_of_lt (by omega)
  have hwhole : NoWrap page s → (s.croppedPixels + area) % 2 ^ 64 = s.croppedPixels + area := by
    intro hwrap
    refine Nat.mod_eq_of_lt ?_
    rcases Nat.eq_zero_or_pos s.crops with hzero | hpos
    · rw [h.idle hzero]
      simp only [kMaxRasterPixels] at hsmall
      omega
    · have hspent := (h.area hwrap).2 hpos
      have harea' : (area : ℚ) ≤ s.width * s.height := by exact_mod_cast harea
      have hlt : ((s.croppedPixels + area : Nat) : ℚ) < ((2 ^ 64 : Nat) : ℚ) := by
        rw [NoWrap] at hwrap
        push_cast
        linarith
      exact_mod_cast hlt
  have hroom : NoWrap page s →
    (images.map ImageRef.area).sum + area ≤ (charged s area).croppedPixels := by
    intro hwrap
    have := (h.area hwrap).1
    show _ ≤ (s.croppedPixels + area) % 2 ^ 64
    rw [hwhole hwrap]
    omega
  have hcount := h.count
  refine ⟨⟨⟨?_, h.once, h.allowed, h.buffer⟩, h.bytes, h.bytes_le, ?_, ?_, ?_, ?_⟩, ?_, hroom⟩
  · intro htried
    have hs := h.fresh htried
    rw [hs] at hpixels
    cases hpixels
  · show images.length ≤ (s.crops + 1) % 2 ^ 64
    omega
  · show (s.crops + 1) % 2 ^ 64 ≤ _
    omega
  · intro hzero
    have : (s.crops + 1) % 2 ^ 64 = 0 := hzero
    omega
  · intro hwrap
    exact ⟨Nat.le_of_add_right_le (hroom hwrap), fun _ => hbudget⟩
  · show images.length < (s.crops + 1) % 2 ^ 64
    omega

/-- What one call does to the counters, the flag and the image. -/
structure Step (stb : Stb) (page : Page) (s : PageRaster) (images : List ImageRef)
    (image : ImageRef)
    (r : Crop × PageRaster × ImageRef) : Prop where
  spent : Spent stb page r.2.1 (images ++ if r.1 = .attached then [r.2.2] else [])
  untouched : r.1 ≠ .attached → r.2.2 = image
  sticky : s.inlineBytesSpent = true → r.1 ≠ .attached ∧ r.2.1.inlineBytesSpent = true
  capped : r.1 = .overByteCap → r.2.1.inlineBytesSpent = true

/-- A call that returns early changes no counter. -/
theorem Spent.early (h : Spent stb page s images) (image : ImageRef) {outcome : Crop}
    (hnot : outcome ≠ .attached) (hcap : outcome = .overByteCap → s.inlineBytesSpent = true) :
    Step stb page s images image (outcome, s, image) where
  spent := by
    rw [if_neg hnot, List.append_nil]
    exact h
  untouched := fun _ => rfl
  sticky := fun hs => ⟨hnot, hs⟩
  capped := hcap

theorem Spent.step_attach (h : Spent stb page s images) (hroom : images.length < s.crops)
    {r : Region}
    (harea : NoWrap page s →
      (images.map ImageRef.area).sum + (r.x2 - r.x1) * (r.y2 - r.y1) ≤ s.croppedPixels)
    (hspent : s.inlineBytesSpent = false) (encoded : Option Bytes) (image : ImageRef) :
    Step stb page s images image (attach page s r encoded image) := by
  have hmax := page.budget.maxInlineBytes.toNat_lt
  have hle := h.bytes_le
  have htried : s.tried ≠ false := by
    intro hfresh
    rw [h.fresh hfresh] at hroom
    cases hroom
  have hnone : ∀ {outcome : Crop}, outcome ≠ .attached → outcome ≠ .overByteCap →
      Step stb page s images image (outcome, s, image) :=
    fun hnot hcap => h.early image hnot fun e => absurd e hcap
  unfold attach
  split
  · exact hnone nofun nofun
  · exact hnone nofun nofun
  · rename_i bytes _
    dsimp only
    generalize ascii "data:image/png;base64," ++ base64Encode bytes = uri
    have hsub : subSize page.budget.maxInlineBytes.toNat s.inlineBytes =
        page.budget.maxInlineBytes.toNat - s.inlineBytes := subSize_of_le hle
    split
    · refine ⟨?_, fun _ => rfl, fun hs => ?_, fun _ => rfl⟩
      · rw [if_neg nofun, List.append_nil]
        exact { h with fresh := fun hfresh => absurd hfresh htried }
      · rw [hspent] at hs
        cases hs
    · rename_i hfits
      rw [hsub] at hfits
      have hbytes : (s.inlineBytes + uri.length) % 2 ^ 64 = s.inlineBytes + uri.length :=
        Nat.mod_eq_of_lt (by omega)
      refine ⟨?_, fun hnot => absurd rfl hnot, fun hs => ?_, nofun⟩
      · rw [if_pos rfl]
        refine ⟨⟨fun hfresh => absurd hfresh htried, h.once, h.allowed, h.buffer⟩, ?_, ?_, ?_,
          h.crops_le, h.idle, fun hwrap => ?_⟩
        · show (s.inlineBytes + uri.length) % 2 ^ 64 = _
          rw [hbytes, h.bytes]
          simp
        · show (s.inlineBytes + uri.length) % 2 ^ 64 ≤ _
          omega
        · rw [List.length_append]
          exact hroom
        · refine ⟨?_, (h.area hwrap).2⟩
          have := harea hwrap
          simpa [ImageRef.area] using this
      · rw [hspent] at hs
        cases hs

/-- A crop that is charged. -/
theorem crop_charged {s' : PageRaster} {box : Box} {image : ImageRef} {r : Region} {pixels : Bytes}
    (hdecode : decode stb page s = (true, s')) (hregion : regionOf page s' box = r)
    (hx : r.x1 < r.x2)
    (hy : r.y1 < r.y2) (hspent : s'.inlineBytesSpent = false)
    (hcrops : s'.crops < page.budget.maxCrops.toNat)
    (hbudget : (((s'.croppedPixels + (r.x2 - r.x1) * (r.y2 - r.y1)) % 2 ^ 64 : Nat) : ℚ) ≤
      page.budget.maxAreaPages * s'.width * s'.height) (hpixels : s'.pixels = some pixels) :
    crop stb page s box image = (copyRegion pixels s'.width r).map fun copied =>
      attach page (charged s' ((r.x2 - r.x1) * (r.y2 - r.y1))) r
        (stb.writePng (r.x2 - r.x1) (r.y2 - r.y1) copied) image := by
  rw [crop, hdecode]
  dsimp only
  rw [hregion, if_neg (by omega), if_neg (by simp [hspent]), if_neg]
  · show (s'.pixels.bind fun pixels => (copyRegion pixels s'.width r).bind fun copied =>
      some (attach page
      (charged s' ((r.x2 - r.x1) * (r.y2 - r.y1))) r _ image)) = _
    rw [hpixels, Option.bind_some, Option.map_eq_bind]
    rfl
  · rw [not_or, ge_iff_le, Nat.not_le, gt_iff_lt, not_lt]
    exact ⟨hcrops, hbudget⟩

/-- **One crop** keeps the books and reads inside the raster. -/
theorem Spent.step_crop (h : Spent stb page s images) (box : Box) (image : ImageRef) :
    ∃ r, crop stb page s box image = some r ∧ Step stb page s images image r := by
  obtain ⟨s', hdecode, h', hflag⟩ := h.decode
  have lift : ∀ {r}, Step stb page s' images image r → Step stb page s images image r :=
    fun hr => ⟨hr.spent, hr.untouched, fun hs => hr.sticky (hflag.trans hs), hr.capped⟩
  cases hpixels : s'.pixels with
  | none =>
    rw [hpixels] at hdecode
    refine ⟨_, by rw [crop, hdecode]; rfl, lift (h'.early image ?_ ?_)⟩
    · split <;> nofun
    · split <;> nofun
  | some pixels =>
    rw [hpixels, Option.isSome_some] at hdecode
    obtain ⟨hsize, -⟩ := h'.buffer pixels hpixels
    have hx2 : (regionOf page s' box).x2 ≤ s'.width := clampTo_le _ _
    have hy2 : (regionOf page s' box).y2 ≤ s'.height := clampTo_le _ _
    generalize hr : regionOf page s' box = r at hx2 hy2
    have hcrop := crop.eq_def stb page s box image
    rw [hdecode] at hcrop
    simp only [hr] at hcrop
    by_cases hempty : r.x2 ≤ r.x1 ∨ r.y2 ≤ r.y1
    · exact ⟨_, hcrop.trans (if_pos hempty), lift (h'.early image nofun nofun)⟩
    rw [if_neg hempty] at hcrop
    rw [not_or, Nat.not_le, Nat.not_le] at hempty
    by_cases hspent : s'.inlineBytesSpent = true
    · exact ⟨_, hcrop.trans (if_pos hspent), lift (h'.early image nofun fun _ => hspent)⟩
    rw [if_neg hspent] at hcrop
    by_cases hover : s'.crops ≥ page.budget.maxCrops.toNat ∨
        (((s'.croppedPixels + (r.x2 - r.x1) * (r.y2 - r.y1)) % 2 ^ 64 : Nat) : ℚ) >
          page.budget.maxAreaPages * s'.width * s'.height
    · exact ⟨_, hcrop.trans (if_pos hover), lift (h'.early image nofun nofun)⟩
    rw [not_or, ge_iff_le, Nat.not_le, gt_iff_lt, not_lt] at hover
    have harea : (r.x2 - r.x1) * (r.y2 - r.y1) ≤ s'.width * s'.height :=
      Nat.mul_le_mul (by omega) (by omega)
    obtain ⟨hcharged, hroom, hpaid⟩ := h'.charge hpixels harea hover.1 hover.2
    obtain ⟨copied, hcopy⟩ := copyRegion_inside hsize hempty.1 hx2 hy2
    have hattach := hcharged.step_attach hroom hpaid (Bool.eq_false_iff.2 hspent)
      (stb.writePng (r.x2 - r.x1) (r.y2 - r.y1) copied) image
    refine ⟨_, ?_, lift ⟨hattach.spent, hattach.untouched, hattach.sticky, hattach.capped⟩⟩
    rw [crop_charged hdecode hr hempty.1 hempty.2
      (Bool.eq_false_iff.2 hspent) hover.1 hover.2 hpixels, hcopy,
      Option.map_some]

end Step

/-! ## A page's crops -/

section Run
variable {stb : Stb} {page : Page}

theorem attachedImages_cons (entry : Crop × ImageRef) (log : List (Crop × ImageRef)) :
    attachedImages (entry :: log) = (if entry.1 = .attached then [entry.2] else []) ++
      attachedImages log := by
  by_cases h : entry.1 = .attached
  · simp [attachedImages, h]
  · simp [attachedImages, h]

/-- Any sequence of calls from a state with books. -/
theorem run_spent (calls : List (Box × ImageRef)) : ∀ {s : PageRaster} {images : List ImageRef},
    Spent stb page s images → ∃ s' log, run stb page s calls = some (s', log) ∧
      Spent stb page s' (images ++ attachedImages log) ∧
      List.Forall₂ (fun call entry => entry.1 ≠ .attached → entry.2 = call.2) calls log ∧
      (s.inlineBytesSpent = true → ∀ entry ∈ log, entry.1 ≠ .attached) ∧
      log.Pairwise fun earlier later => earlier.1 = .overByteCap → later.1 ≠ .attached := by
  induction calls with
  | nil =>
    intro s images h
    refine ⟨s, [], rfl, ?_, .nil, nofun, .nil⟩
    rw [attachedImages, List.filter_nil, List.map_nil, List.append_nil]
    exact h
  | cons call calls ih =>
    intro s images h
    obtain ⟨r, hcrop, hstep⟩ := h.step_crop call.1 call.2
    obtain ⟨s', log, hrun, hspent, hkept, hsticky, hcapped⟩ := ih hstep.spent
    refine ⟨s', (r.1, r.2.2) :: log, ?_, ?_, .cons hstep.untouched hkept, ?_, .cons ?_ hcapped⟩
    · simp only [run, hcrop, Option.bind_eq_bind, Option.bind_some, hrun]
    · rw [attachedImages_cons, ← List.append_assoc]
      exact hspent
    · intro hs entry hentry
      rcases List.mem_cons.1 hentry with rfl | hentry
      · exact (hstep.sticky hs).1
      · exact hsticky (hstep.sticky hs).2 entry hentry
    · intro entry hentry hcap
      exact hsticky (hstep.capped hcap) entry hentry

end Run

/-- **The crop budget of a page.** Whatever boxes are asked for, the calls read
inside the raster, the attached URIs are what `inline_bytes` says and within
the cap, the attached crops are within the count and, as long as the counter
cannot wrap, within the area, nothing is attached once the byte cap refused a
crop, the raster is decoded at most once and never above the pixel cap, and a
call that attaches nothing leaves its image alone. -/
theorem crop_budget (stb : Stb) (page : Page) (calls : List (Box × ImageRef)) :
    ∃ s log, run stb page {} calls = some (s, log) ∧
      s.inlineBytes = ((attachedImages log).map fun image => image.uri.length).sum ∧
      s.inlineBytes ≤ page.budget.maxInlineBytes.toNat ∧
      (attachedImages log).length ≤ page.budget.maxCrops.toNat ∧
      (attachedImages log ≠ [] →
        (page.budget.maxAreaPages + 1) * (s.width * s.height) < 2 ^ 64 →
        (((attachedImages log).map ImageRef.area).sum : ℚ) ≤
          page.budget.maxAreaPages * (s.width * s.height)) ∧
      (log.Pairwise fun earlier later => earlier.1 = .overByteCap → later.1 ≠ .attached) ∧
      s.decodes ≤ 1 ∧
      (0 < s.decodes → ∃ w h, stb.info (pngBytes page) = some (w, h) ∧
        w.toNatClampNeg * h.toNatClampNeg ≤ kMaxRasterPixels) ∧
      List.Forall₂ (fun call entry => entry.1 ≠ .attached → entry.2 = call.2) calls log := by
  obtain ⟨s, log, hrun, hspent, hkept, -, hcapped⟩ := run_spent calls (spent_start stb page)
  rw [List.nil_append] at hspent
  refine ⟨s, log, hrun, hspent.bytes, hspent.bytes_le, hspent.count.trans hspent.crops_le, ?_,
    hcapped, hspent.once, hspent.allowed, hkept⟩
  intro hne hwrap
  obtain ⟨hsum, hbudget⟩ := hspent.area hwrap
  have hpos : 0 < s.crops := Nat.lt_of_lt_of_le (List.length_pos_iff.2 hne) hspent.count
  have hsum' : (((attachedImages log).map ImageRef.area).sum : ℚ) ≤ s.croppedPixels := by
    exact_mod_cast hsum
  linarith [hbudget hpos]

/-! ## The raster the mappers ask -/

/-- The boxes asked for in turn: what each call attached, and the books after it. -/
def cropPictures (raster : L3.PageRaster) (state : CropState) :
    List BoundingBox → List (Option Wire) × CropState
  | [] => ([], state)
  | box :: boxes =>
    let r := cropPicture raster state box
    let rest := cropPictures raster r.2 boxes
    (r.1 :: rest.1, rest.2)

section Oracle
variable (stb : Stb) (page : Page) (place : BoundingBox → Box) (wire : ImageRef → Wire)

/-- Every box is asked for with a fresh image. -/
def calls (boxes : List BoundingBox) : List (Box × ImageRef) := boxes.map fun box => (place box, {})

/-- The raster behind the crops of some boxes. -/
def rasterAfter (boxes : List BoundingBox) : PageRaster :=
  ((run stb page {} (calls place boxes)).map Prod.fst).getD {}

/-- What a mapper is told of a call. -/
def told (outcome : Crop) (image : ImageRef) : L3.Crop :=
  match outcome with
  | .attached => .attached (wire image)
  | .failed => .failed
  | .overBudget => .overBudget
  | .overByteCap => .overByteCap
  | .rasterTooLarge => .rasterTooLarge

/-- The raster as the mappers ask it: a call is made on the raster behind the
calls before it. `place` reads a box's numbers, `wire` writes an image out. -/
def oracle : L3.PageRaster where
  crop requests box :=
    ((crop stb page (rasterAfter stb page place requests) (place box) {}).map fun r =>
      told wire r.1 r.2.2).getD .failed
  inlineBytes boxes := (rasterAfter stb page place boxes).inlineBytes
  width boxes := (rasterAfter stb page place boxes).width
  height boxes := (rasterAfter stb page place boxes).height

/-- What a mapper makes of a log entry. -/
def wired (entry : Crop × ImageRef) : Option Wire :=
  if entry.1 = .attached then some (wire entry.2) else none

/-- The books of a log. -/
def booked (boxes : List BoundingBox) (log : List (Crop × ImageRef)) : CropState where
  requests := boxes
  overBudget := log.countP (·.1 == .overBudget)
  overBytes := log.countP (·.1 == .overByteCap)
  tooLarge := log.countP (·.1 == .rasterTooLarge)

variable {stb page place}

theorem run_append {calls more : List (Box × ImageRef)} {s s' s'' : PageRaster}
    {log log' : List (Crop × ImageRef)} (h : run stb page s calls = some (s', log))
    (h' : run stb page s' more = some (s'', log')) :
    run stb page s (calls ++ more) = some (s'', log ++ log') := by
  induction calls generalizing s log with
  | nil =>
    cases h
    exact h'
  | cons call calls ih =>
    simp only [run, Option.bind_eq_bind, Option.bind_eq_some_iff] at h
    obtain ⟨r, hcrop, ⟨t, rest⟩, hrest, heq⟩ := h
    cases heq
    simp only [List.cons_append, run, hcrop, Option.bind_eq_bind, Option.bind_some, ih hrest]

/-- One more crop, against the call it stands for. -/
theorem cropPicture_oracle {boxes : List BoundingBox} {s s' : PageRaster}
    {log : List (Crop × ImageRef)} {outcome : Crop} {image : ImageRef}
    (hrun : run stb page {} (calls place boxes) = some (s, log)) (box : BoundingBox)
    (hcrop : crop stb page s (place box) {} = some (outcome, s', image)) :
    cropPicture (oracle stb page place wire) (booked boxes log) box =
      (wired wire (outcome, image), booked (boxes ++ [box]) (log ++ [(outcome, image)])) := by
  have hraster : rasterAfter stb page place boxes = s := by rw [rasterAfter, hrun]; rfl
  have htold : (oracle stb page place wire).crop boxes box = told wire outcome image := by
    show ((crop stb page (rasterAfter stb page place boxes) (place box) {}).map _).getD _ = _
    rw [hraster, hcrop]
    rfl
  have hrequests : (booked boxes log).requests = boxes := rfl
  rw [cropPicture, hrequests, htold]
  cases outcome <;> simp [told, wired, booked, List.countP_append]

/-- A mapper's crops against the run they stand for, from any point of it. -/
theorem cropPictures_from (boxes : List BoundingBox) : ∀ (asked : List BoundingBox)
    (s : PageRaster) (log : List (Crop × ImageRef)) (images : List ImageRef),
    run stb page {} (calls place asked) = some (s, log) → Spent stb page s images →
    ∃ s' log', run stb page {} (calls place (asked ++ boxes)) = some (s', log ++ log') ∧
      cropPictures (oracle stb page place wire) (booked asked log) boxes =
        (log'.map (wired wire), booked (asked ++ boxes) (log ++ log')) := by
  induction boxes with
  | nil =>
    intro asked s log images hrun _
    refine ⟨s, [], ?_, ?_⟩
    · rw [List.append_nil, List.append_nil]
      exact hrun
    · rw [List.append_nil, List.append_nil]
      rfl
  | cons box boxes ih =>
    intro asked s log images hrun hspent
    obtain ⟨⟨outcome, t, image⟩, hcrop, hstep⟩ := hspent.step_crop (place box) {}
    have hnext : run stb page {} (calls place (asked ++ [box])) =
        some (t, log ++ [(outcome, image)]) := by
      rw [calls, List.map_append]
      refine run_append hrun ?_
      simp only [List.map_cons, List.map_nil, run, hcrop, Option.bind_eq_bind, Option.bind_some]
    obtain ⟨s', log', hrun', hbooks⟩ := ih _ t _ _ hnext hstep.spent
    refine ⟨s', (outcome, image) :: log', ?_, ?_⟩
    · rw [← List.append_cons, ← List.append_cons] at hrun'
      exact hrun'
    · rw [cropPictures, cropPicture_oracle wire hrun box hcrop]
      dsimp only
      rw [hbooks, ← List.append_cons, ← List.append_cons]
      rfl

/-- **The mappers' crops are the raster's.** Whatever boxes are asked for, a
mapper attaches the images of the raster's run and books its refusals. -/
theorem cropPictures_run (boxes : List BoundingBox) :
    ∃ s log, run stb page {} (calls place boxes) = some (s, log) ∧
      Spent stb page s (attachedImages log) ∧
      cropPictures (oracle stb page place wire) {} boxes =
        (log.map (wired wire), booked boxes log) ∧
      (oracle stb page place wire).inlineBytes boxes = s.inlineBytes ∧
      (oracle stb page place wire).width boxes = s.width ∧
      (oracle stb page place wire).height boxes = s.height := by
  obtain ⟨s, log, hrun, hbooks⟩ :=
    cropPictures_from wire boxes [] {} [] [] rfl (spent_start stb page)
  rw [List.nil_append, List.nil_append] at hrun hbooks
  have hraster : rasterAfter stb page place boxes = s := by rw [rasterAfter, hrun]; rfl
  obtain ⟨s', log', hrun', hspent, -⟩ := run_spent (calls place boxes) (spent_start stb page)
  rw [hrun] at hrun'
  cases hrun'
  exact ⟨s, log, hrun, hspent, hbooks, congrArg PageRaster.inlineBytes hraster,
    congrArg PageRaster.width hraster, congrArg PageRaster.height hraster⟩

end Oracle

/-! ## The crops of a writer -/

/-- The images of a writer's pictures. -/
def imagesOf (w : LayoutWriter) : List Wire := (w.doc.pictures.map PictureItem.image).filterMap id

section Writer
variable (page : PageContext) (raster : L3.PageRaster) (byteSizeLong : TableCell → Nat)
variable {w : LayoutWriter} {state : CropState}

/-- The writer asked for the crops of `boxes` and kept what they attached. -/
def Crops (w w' : LayoutWriter) (boxes : List BoundingBox) : Prop :=
  w'.crops = (cropPictures raster w.crops boxes).2 ∧
    imagesOf w' = imagesOf w ++ (cropPictures raster w.crops boxes).1.filterMap id

variable {raster} in
theorem crops_none {w' : LayoutWriter} (h : w'.crops = w.crops)
    (himages : imagesOf w' = imagesOf w) : Crops raster w w' [] :=
  ⟨h, himages.trans (List.append_nil _).symm⟩

theorem cropPictures_append (boxes more : List BoundingBox) :
    cropPictures raster state (boxes ++ more) =
      ((cropPictures raster state boxes).1 ++
        (cropPictures raster (cropPictures raster state boxes).2 more).1,
        (cropPictures raster (cropPictures raster state boxes).2 more).2) := by
  induction boxes generalizing state with
  | nil => rfl
  | cons box boxes ih => simp only [List.cons_append, cropPictures, ih]

theorem imagesOf_picture (box : Option BoundingBox) (parent : Option BodyChild) :
    imagesOf (LayoutWriter.picture page raster w box parent).1 =
      imagesOf w ++ (match box with
        | some box => if page.png.isEmpty then none else (cropPicture raster w.crops box).1
        | none => none).toList := by
  unfold LayoutWriter.picture
  show ((w.doc.pictures ++ [_]).map PictureItem.image).filterMap id = _
  rw [List.map_append, List.filterMap_append]
  cases box with
  | none => rfl
  | some box =>
    dsimp only
    split
    · rfl
    · show _ ++ [(cropPicture raster w.crops box).1].filterMap id = _
      cases (cropPicture raster w.crops box).1 <;> rfl

theorem crops_picture (box : Option BoundingBox) (parent : Option BodyChild) :
    ∃ boxes, Crops raster w (LayoutWriter.picture page raster w box parent).1 boxes := by
  have himages := imagesOf_picture page raster (w := w) box parent
  cases box with
  | none => exact ⟨[], crops_none rfl (himages.trans (List.append_nil _))⟩
  | some box =>
    by_cases hpng : page.png.isEmpty = true
    · simp only [hpng, if_true] at himages
      refine ⟨[], crops_none ?_ (himages.trans (List.append_nil _))⟩
      simp [LayoutWriter.picture, LayoutWriter.addEntry, hpng]
    · simp only [hpng, Bool.false_eq_true, if_false] at himages
      refine ⟨[box], ?_, himages.trans ?_⟩
      · simp [LayoutWriter.picture, LayoutWriter.addEntry, hpng, cropPictures]
      · show _ = _ ++ [(cropPicture raster w.crops box).1].filterMap id
        cases (cropPicture raster w.crops box).1 <;> rfl

/-- An operation asks for one crop at most, and keeps every image. -/
theorem crops_apply (op : LayoutWriter.Op) :
    ∃ boxes, Crops raster w (LayoutWriter.apply page raster byteSizeLong w op).1 boxes := by
  have hkept : ∀ {w' : LayoutWriter}, w'.crops = w.crops →
      w'.doc.pictures.map PictureItem.image = w.doc.pictures.map PictureItem.image →
      ∃ boxes, Crops raster w w' boxes := fun h himages =>
    ⟨[], crops_none h (congrArg (List.filterMap id) himages)⟩
  cases op with
  | picture box parent => exact crops_picture page raster box parent
  | table box cells parent =>
    simp only [LayoutWriter.apply, LayoutWriter.table]
    split <;> exact hkept rfl rfl
  | styledText label box body formatting hyperlink parent =>
    cases label <;> exact hkept rfl rfl
  | setText ref body formatting hyperlink =>
    simp only [LayoutWriter.apply, LayoutWriter.setText]
    split <;> exact hkept rfl rfl
  | setOrig ref orig =>
    simp only [LayoutWriter.apply, LayoutWriter.setOrig]
    split <;> exact hkept rfl rfl
  | setContentLayer ref layer =>
    simp only [LayoutWriter.apply, LayoutWriter.setContentLayer]
    split <;> exact hkept rfl rfl
  | linkCaption owner caption =>
    simp only [LayoutWriter.apply, LayoutWriter.linkCaption]
    split
    · exact hkept rfl (map_modify _ _ _ _ fun _ => rfl)
    · exact hkept rfl rfl
    · exact hkept rfl rfl
    · exact hkept rfl rfl
  | linkFootnote owner footnote =>
    simp only [LayoutWriter.apply, LayoutWriter.linkFootnote]
    split
    · exact hkept rfl (map_modify _ _ _ _ fun _ => rfl)
    · exact hkept rfl rfl
    · exact hkept rfl rfl
    · exact hkept rfl rfl
  | _ => exact hkept rfl rfl

theorem crops_run (ops : List LayoutWriter.Op) : ∀ (w : LayoutWriter) (returned : List BodyChild),
    ∃ boxes, Crops raster w (LayoutWriter.run page raster byteSizeLong w returned ops).1 boxes := by
  induction ops with
  | nil => exact fun w _ => ⟨[], crops_none rfl rfl⟩
  | cons op ops ih =>
    intro w returned
    obtain ⟨boxes, hcrops, himages⟩ := crops_apply page raster byteSizeLong (w := w) op
    obtain ⟨more, hcrops', himages'⟩ := ih (LayoutWriter.apply page raster byteSizeLong w op).1
      (returned ++ (LayoutWriter.apply page raster byteSizeLong w op).2.toList)
    refine ⟨boxes ++ more, ?_, ?_⟩
    · rw [LayoutWriter.run, hcrops', hcrops, cropPictures_append]
    · rw [LayoutWriter.run, himages', himages, hcrops, cropPictures_append, List.filterMap_append,
        List.append_assoc]

end Writer

theorem filterMap_wired (wire : ImageRef → Wire) (log : List (Crop × ImageRef)) :
    (log.map (wired wire)).filterMap id = (attachedImages log).map wire := by
  induction log with
  | nil => rfl
  | cons entry log ih =>
    rw [List.map_cons, attachedImages_cons, List.map_append, ← ih]
    by_cases h : entry.1 = .attached <;> simp [wired, h]

/-- **A writer within the budget.** Whatever operations are run on a new writer
that asks the modelled raster, its pictures carry exactly the images of the
raster's run over the boxes it asked for, its books are that run's, and the run
keeps the page's budget. -/
theorem writer_crops (stb : Stb) (page : Page) (place : BoundingBox → Box)
    (wire : ImageRef → Wire) (context : PageContext) (byteSizeLong : TableCell → Nat)
    (warnings : Option (List PageWarning)) (ops : List LayoutWriter.Op) :
    ∃ w returned s log, LayoutWriter.run context (oracle stb page place wire) byteSizeLong
        { warnings := warnings } [] ops = (w, returned) ∧
      run stb page {} (calls place w.crops.requests) = some (s, log) ∧
      Spent stb page s (attachedImages log) ∧ w.crops = booked w.crops.requests log ∧
      imagesOf w = (attachedImages log).map wire := by
  obtain ⟨boxes, hcrops, himages⟩ := crops_run context (oracle stb page place wire) byteSizeLong
    ops { warnings := warnings } []
  obtain ⟨s, log, hrun, hspent, hbooks, -⟩ := @cropPictures_run stb page place wire boxes
  have hstart : ({ warnings := warnings } : LayoutWriter).crops = {} := rfl
  rw [hstart, hbooks] at hcrops himages
  refine ⟨_, _, s, log, rfl, ?_, hspent, ?_, ?_⟩
  · rw [hcrops]
    exact hrun
  · rw [hcrops]
    rfl
  · rw [himages, filterMap_wired]
    rfl

/-! ## Budgets that are not kept -/

def squarePixels : Bytes := List.replicate (4096 * 4096 * 4) 0

theorem length_squarePixels : squarePixels.length = 4096 * 4096 * 4 := List.length_replicate

/-- A codec of one square image and one encoding. -/
def squareStb : Stb where
  info _ := some (4096, 4096)
  load _ := some (4096, 4096, squarePixels)
  writePng _ _ _ := some [0x89]
  load_size := by
    intro _ w h pixels hload
    cases hload
    exact length_squarePixels

def squarePage (budget : CropBudget) : Page := ⟨[], 4096, 4096, budget⟩

def wholeSquare : Box × ImageRef := (⟨0, 0, 4096, 4096⟩, {})

def squareUri : Bytes := ascii "data:image/png;base64," ++ base64Encode [0x89]

def squareImage : ImageRef := ⟨ascii "image/png", 72, 4096, 4096, squareUri⟩

/-- The raster after `k` crops of the whole square. -/
def squareAfter (k : Nat) : PageRaster where
  tried := true
  pixels := some squarePixels
  width := 4096
  height := 4096
  decodes := 1
  crops := k
  croppedPixels := k * 2 ^ 24 % 2 ^ 64
  inlineBytes := k * 26

section Square
variable (budget : CropBudget)

theorem decode_start : decode squareStb (squarePage budget) {} = (true, squareAfter 0) := rfl

theorem decode_square (k : Nat) :
    decode squareStb (squarePage budget) (squareAfter k) = (true, squareAfter k) := rfl

theorem region_square (k : Nat) :
    regionOf (squarePage budget) (squareAfter k) wholeSquare.1 = ⟨0, 0, 4096, 4096⟩ := by
  have hscale : scale 4096 4096 = 1 := by norm_num [scale]
  have hfloor : clampTo 4096 ((0 : ℚ) * 1).floor = 0 := by decide +kernel
  have hceil : clampTo 4096 ((4096 : ℚ) * 1).ceil = 4096 := by decide +kernel
  show (⟨clampTo 4096 ((0 : ℚ) * scale 4096 4096).floor,
    clampTo 4096 ((0 : ℚ) * scale 4096 4096).floor,
    clampTo 4096 ((4096 : ℚ) * scale 4096 4096).ceil,
      clampTo 4096 ((4096 : ℚ) * scale 4096 4096).ceil⟩ :
    Region) = _
  rw [hscale, hfloor, hceil]

/-- One more crop within count, area and bytes. -/
theorem crop_square {k : Nat} (hcrops : k < budget.maxCrops.toNat)
    (harea : (((k + 1) * 2 ^ 24 % 2 ^ 64 : Nat) : ℚ) ≤ budget.maxAreaPages * (4096 : Nat) *
    (4096 : Nat))
    (hbytes : (k + 1) * 26 ≤ budget.maxInlineBytes.toNat) (hfew : k + 1 < 2 ^ 58) :
    crop squareStb (squarePage budget) (squareAfter k) wholeSquare.1 wholeSquare.2 =
      some (.attached, squareAfter (k + 1), squareImage) := by
  have hpixels : (k * 2 ^ 24 % 2 ^ 64 + (4096 - 0) * (4096 - 0)) % 2 ^ 64 =
    (k + 1) * 2 ^ 24 % 2 ^ 64 := by
    omega
  have hcharge : charged (squareAfter k) ((4096 - 0) * (4096 - 0)) =
      { squareAfter (k + 1) with inlineBytes := k * 26 } := by
    have hcount : (k + 1) % 2 ^ 64 = k + 1 := Nat.mod_eq_of_lt (by omega)
    simp only [charged, squareAfter, hcount, hpixels]
  obtain ⟨copied, hcopy⟩ := @copyRegion_inside squarePixels 4096 4096 ⟨0, 0, 4096, 4096⟩
    length_squarePixels (by decide) (Nat.le_refl _) (Nat.le_refl _)
  have hbudget : (((k * 2 ^ 24 % 2 ^ 64 + (4096 - 0) * (4096 - 0)) % 2 ^ 64 : Nat) : ℚ) ≤
      budget.maxAreaPages * (4096 : Nat) * (4096 : Nat) := by
    rw [hpixels]
    exact harea
  rw [crop_charged (decode_square budget k) (region_square budget k) (by decide)
    (by decide) rfl hcrops hbudget rfl]
  show (copyRegion squarePixels 4096 ⟨0, 0, 4096, 4096⟩).map _ = _
  rw [hcopy, Option.map_some, hcharge]
  have huri : squareUri.length = 26 := rfl
  have hroom : ¬squareUri.length > subSize budget.maxInlineBytes.toNat (k * 26) := by
    rw [subSize_of_le (by omega), huri]
    omega
  have hsum : (k * 26 + squareUri.length) % 2 ^ 64 = (k + 1) * 26 := by
    rw [huri]
    omega
  refine congrArg some ((if_neg hroom).trans ?_)
  show (Crop.attached,
    { squareAfter (k + 1) with inlineBytes := (k * 26 + squareUri.length) % 2 ^ 64 },
    squareImage) = _
  rw [hsum]
  rfl

/-- Whole-square crops, one after the other. -/
theorem run_square {n : Nat} (hcrops : n ≤ budget.maxCrops.toNat)
    (harea : (2 : ℚ) ^ 64 ≤ budget.maxAreaPages * (4096 : Nat) * (4096 : Nat))
    (hbytes : n * 26 ≤ budget.maxInlineBytes.toNat) (hfew : n < 2 ^ 58) : ∀ {j k : Nat}, k + j = n →
    run squareStb (squarePage budget) (squareAfter k) (List.replicate j wholeSquare) =
      some (squareAfter n, List.replicate j (.attached, squareImage)) := by
  intro j
  induction j with
  | zero =>
    intro k hk
    rw [Nat.add_zero] at hk
    rw [hk]
    rfl
  | succ j ih =>
    intro k hk
    have hwrapped : (((k + 1) * 2 ^ 24 % 2 ^ 64 : Nat) : ℚ) ≤ budget.maxAreaPages * (4096 : Nat) *
      (4096 : Nat) := by
      have hlt : ((k + 1) * 2 ^ 24 % 2 ^ 64 : Nat) < 2 ^ 64 := Nat.mod_lt _ (by decide)
      have hlt' : (((k + 1) * 2 ^ 24 % 2 ^ 64 : Nat) : ℚ) < 2 ^ 64 := by exact_mod_cast hlt
      linarith
    rw [List.replicate_succ, List.replicate_succ, run,
      crop_square budget (by omega) hwrapped (by omega) (by omega)]
    simp only [Option.bind_eq_bind, Option.bind_some]
    rw [ih (by omega)]
    rfl

theorem crop_start (box : Box) (image : ImageRef) :
    crop squareStb (squarePage budget) {} box image =
    crop squareStb (squarePage budget) (squareAfter 0) box image := by
  rw [crop, crop, decode_start, decode_square]

theorem attachedImages_replicate (n : Nat) (image : ImageRef) :
    attachedImages (List.replicate n (.attached, image)) = List.replicate n image := by
  induction n with
  | zero => rfl
  | succ n ih =>
    rw [List.replicate_succ, List.replicate_succ, attachedImages_cons, ih]
    rfl

end Square

def negativeBudget : CropBudget := ⟨100, -1, 3145728⟩

def wideBudget : CropBudget := ⟨1099511627777, 2 ^ 40, 28587302322202⟩

/-- A negative area budget is below the area of no crops at all, and one that
`uint64_t` cannot hold is never reached by the counter: `2 ^ 40 + 1` crops of a
square of `2 ^ 24` pixels are attached where `2 ^ 40` are allowed. -/
theorem crop_area_over_budget :
    (∃ s log, run squareStb (squarePage negativeBudget) {} [wholeSquare] = some (s, log) ∧
      negativeBudget.maxAreaPages * (s.width * s.height) <
        (((attachedImages log).map ImageRef.area).sum : ℚ)) ∧
    ∃ s log, run squareStb (squarePage wideBudget) {} (List.replicate (2 ^ 40 + 1) wholeSquare) =
        some (s, log) ∧
      wideBudget.maxAreaPages * (s.width * s.height) <
        (((attachedImages log).map ImageRef.area).sum : ℚ) := by
  constructor
  · have hcrop : crop squareStb (squarePage negativeBudget) {} wholeSquare.1 wholeSquare.2 =
        some (.overBudget, squareAfter 0, wholeSquare.2) := by
      have hover : (((0 * 2 ^ 24 % 2 ^ 64 + (4096 - 0) * (4096 - 0)) % 2 ^ 64 : Nat) : ℚ) >
          (-1 : ℚ) * (4096 : Nat) * (4096 : Nat) := by norm_num
      rw [crop_start, crop, decode_square]
      dsimp only
      rw [region_square, if_neg (by decide), if_neg (by decide)]
      exact if_pos (Or.inr hover)
    refine ⟨squareAfter 0, [(.overBudget, wholeSquare.2)], ?_, ?_⟩
    · show (crop _ _ _ wholeSquare.1 wholeSquare.2).bind _ = _
      rw [hcrop]
      rfl
    · show (-1 : ℚ) * ((4096 : Nat) * (4096 : Nat)) < (0 : Nat)
      norm_num
  · have hrun : run squareStb (squarePage wideBudget) {} (List.replicate (2 ^ 40 + 1) wholeSquare) =
        some (squareAfter (2 ^ 40 + 1), List.replicate (2 ^ 40 + 1) (.attached, squareImage)) := by
      have hsquare :=
        run_square wideBudget (n := 2 ^ 40 + 1) (Nat.le_refl _) (by norm_num [wideBudget])
        (Nat.le_refl _) (by decide) (Nat.zero_add _)
      rw [List.replicate_succ, run] at hsquare ⊢
      rw [crop_start]
      exact hsquare
    refine ⟨_, _, hrun, ?_⟩
    rw [attachedImages_replicate, List.map_replicate, List.sum_replicate]
    show (2 ^ 40 : ℚ) * ((4096 : Nat) * (4096 : Nat)) < (((2 ^ 40 + 1) * (4096 * 4096) : Nat) : ℚ)
    norm_num

end VlmConvert.L3.ImageCrop
