import Rocr.Lib.Word

/-!
# Rectangle copies on the SDMA engine

`BlitSdma::SubmitCopyRectCommand` (`amd_blit_sdma.cpp`) checks a
`hsa_amd_memory_async_copy_rect` request and hands it to
`BuildCopyRectCommand`, which cuts the rectangle into tiles, one
`COPY_LINEAR_RECT` packet each.  A tile copies `rect_x + 1` elements of
`2 ^ element` bytes per row, `rect_y + 1` rows and `rect_z + 1` slices; the
loops over `y` and `z` step by the largest `rect_y` and `rect_z` a packet can
hold, and the loop over `x` picks for each tile the largest element the
tile's width, its start and the pitches allow.

Packets are modelled by the values their fields hold after the store, so a
value too wide for its bit field shows up truncated.  The loops run with fuel:
`none` means the fuel ran out.

Each row is cut into tiles that cover it exactly, every tile's element count
held exactly in `rect_x` (`buildRow_covers`).  The loops over `y` and `z`
count in `uint32_t`: when `range.y` exceeds `2^32 - max_y` the counter wraps
before reaching it and the copy is never built (`tiles_eq_none`), for a
request that all checks accept (`tall_copy_never_built`).
-/

namespace BlitSdma

open Word

/-- `hsa_pitched_ptr_t`. -/
structure PitchedPtr where
  base : UInt64
  pitch : UInt64
  slice : UInt64
deriving DecidableEq, Repr

/-- `hsa_dim3_t`. -/
structure Dim3 where
  x : UInt32
  y : UInt32
  z : UInt32
deriving DecidableEq, Repr

/-- The arguments of a rectangle copy. -/
structure RectCopy where
  dst : PitchedPtr
  dstOffset : Dim3
  src : PitchedPtr
  srcOffset : Dim3
  range : Dim3
deriving DecidableEq, Repr

/-- The field widths of a `COPY_LINEAR_RECT` packet format. -/
structure RectFormat where
  pitchBits : Nat
  sliceBits : Nat
  rectXyBits : Nat
  rectZBits : Nat
  /-- The width of `src_offset_x` and `dst_offset_x`. -/
  offsetXBits : Nat
deriving DecidableEq, Repr

/-- `SDMA_PKT_COPY_LINEAR_RECT`, before GFX12. -/
def RectFormat.common : RectFormat := ⟨19, 28, 14, 11, 14⟩

/-- `SDMA_PKT_COPY_LINEAR_RECT_GFX12`. -/
def RectFormat.gfx12 : RectFormat := ⟨16, 32, 16, 14, 16⟩

/-- The packet format for an agent's major ISA version (`isGFX12Plus`). -/
def rectFormat (majorVersion : Nat) : RectFormat :=
  if majorVersion ≥ 12 then .gfx12 else .common

/-- Both packet formats have room for the counts `BuildCopyRectCommand` stores
in `rect_x`. -/
theorem rectFormat_rectXyBits (majorVersion : Nat) :
    4 ≤ (rectFormat majorVersion).rectXyBits ∧ (rectFormat majorVersion).rectXyBits < 32 := by
  unfold rectFormat
  split <;> decide

/-- `max_pitch`, in elements. -/
def RectFormat.maxPitch (f : RectFormat) : UInt32 := 1 <<< f.pitchBits.toUInt32

/-- `max_slice`, in elements. -/
def RectFormat.maxSlice (f : RectFormat) : UInt64 := 1 <<< f.sliceBits.toUInt64

/-- `max_x`, in elements. -/
def RectFormat.maxX (f : RectFormat) : UInt32 := 1 <<< f.rectXyBits.toUInt32

/-- `max_x` is two to the width of `rect_x`. -/
theorem maxX_toNat {f : RectFormat} (h : f.rectXyBits < 32) : f.maxX.toNat = 2 ^ f.rectXyBits := by
  have h' : f.rectXyBits % 4294967296 = f.rectXyBits := Nat.mod_eq_of_lt (by omega)
  have h'' : f.rectXyBits % 32 = f.rectXyBits := Nat.mod_eq_of_lt h
  simp only [RectFormat.maxX, UInt32.toNat_shiftLeft, UInt32.toNat_one, Nat.toUInt32_eq,
    UInt32.toNat_ofNat', h', h'', Nat.one_shiftLeft]
  exact Nat.mod_eq_of_lt (Nat.pow_lt_pow_right (by decide) h)

/-- `max_y`, in rows. -/
def RectFormat.maxY (f : RectFormat) : UInt32 := 1 <<< f.rectXyBits.toUInt32

/-- `max_z`, in slices. -/
def RectFormat.maxZ (f : RectFormat) : UInt32 := 1 <<< f.rectZBits.toUInt32

/-- `maxAlignedElement`: `__builtin_ctz(width | 16)`, the largest element, of
at most 16 bytes, whose size divides `width`. -/
def maxAlignedElement (width : UInt64) : Nat :=
  (width ||| 16).toUInt32.toBitVec.ctz.toNat

/-- The bits of the word `__builtin_ctz` reads in `maxAlignedElement`. -/
theorem testBit_alignWord (w : UInt64) (i : Nat) :
    (w ||| 16).toUInt32.toBitVec.toNat.testBit i =
      (decide (i < 32) && (w.toNat.testBit i || decide (i = 4))) := by
  have hw : (w ||| 16).toUInt32.toBitVec.toNat = w.toNat % 2 ^ 32 ||| 2 ^ 4 := by simp
  rw [hw, Nat.testBit_or, Nat.testBit_mod_two_pow, Nat.testBit_two_pow]
  by_cases h4 : i = 4
  · simp [h4]
  · simp [h4, Ne.symm h4]

theorem maxAlignedElement_le (w : UInt64) : maxAlignedElement w ≤ 4 :=
  ctz_le_of_getLsbD (by rw [← BitVec.testBit_toNat, testBit_alignWord]; simp)

theorem pow_maxAlignedElement_dvd (w : UInt64) : 2 ^ maxAlignedElement w ∣ w.toNat := by
  apply two_pow_dvd_of_testBit
  intro i hi
  have h := testBit_of_lt_ctz hi
  have h4 := maxAlignedElement_le w
  rw [testBit_alignWord] at h
  simp at h
  exact (h (by omega)).1

/-- What a bit field of `bits` bits holds after a value is stored in it. -/
def field (bits : Nat) (v : Int) : Nat := (v % 2 ^ bits).toNat

/-- A stored value that fits its field is kept. -/
theorem field_of_lt {bits : Nat} {v : Int} (h0 : 0 ≤ v) (h : v < 2 ^ bits) : field bits v = v.toNat := by
  simp [field, Int.emod_eq_of_lt h0 h]

/-- The fields of a `COPY_LINEAR_RECT` packet that `BuildCopyRectCommand`
sets, as stored; an address is its two dwords together. -/
structure RectPacket where
  element : Nat
  srcAddr : UInt64
  srcOffsetX : Nat
  srcPitch : Nat
  srcSlicePitch : Nat
  dstAddr : UInt64
  dstOffsetX : Nat
  dstPitch : Nat
  dstSlicePitch : Nat
  rectX : Nat
  rectY : Nat
  rectZ : Nat
deriving DecidableEq, Repr

/-- The bytes of a row that a packet copies. -/
def RectPacket.width (p : RectPacket) : Nat := (p.rectX + 1) * 2 ^ p.element

namespace RectCopy

variable (f : RectFormat) (c : RectCopy)

/-- `max_ele`: the largest element in which the pitches, and the slices when
the copy goes along Z, are whole. -/
def maxEle : Nat :=
  let e := min (maxAlignedElement c.src.pitch) (maxAlignedElement c.dst.pitch)
  if c.range.z ≠ 1 then min e (min (maxAlignedElement c.src.slice) (maxAlignedElement c.dst.slice))
  else e

/-- `min_ele`: the smallest element any tile may use. -/
def minEle : Nat :=
  min (min c.maxEle (maxAlignedElement c.range.x.toUInt64))
    (min (maxAlignedElement (c.srcOffset.x % 4).toUInt64)
      (maxAlignedElement (c.dstOffset.x % 4).toUInt64))

/-- The element and the element count of the tile starting at `x`. -/
def tileElement (maxEle : Nat) (x : UInt32) : Nat × Nat :=
  let width := c.range.x - x
  -- the largest element describing the tile's start once its base is aligned
  let alignedEle := min (min (maxAlignedElement ((c.srcOffset.x + x) % 4).toUInt64)
    (maxAlignedElement ((c.dstOffset.x + x) % 4).toUInt64)) maxEle
  let element := min (maxAlignedElement width.toUInt64) alignedEle
  let xcount := width.toNat >>> element
  -- too wide: drop the width restriction and clip the count to `max_x`
  if xcount > f.maxX.toNat then (alignedEle, min (width.toNat >>> alignedEle) f.maxX.toNat)
  else (element, xcount)

/-- The packet of the tile at `x`, `y`, `z`, and the `x` of the next tile. -/
def tile (maxEle : Nat) (x y z : UInt32) : RectPacket × UInt32 :=
  let (element, xcount) := c.tileElement f maxEle x
  let sbase := c.src.base + c.srcOffset.x.toUInt64 + x.toUInt64 +
    (c.srcOffset.y + y).toUInt64 * c.src.pitch + (c.srcOffset.z + z).toUInt64 * c.src.slice
  let dbase := c.dst.base + c.dstOffset.x.toUInt64 + x.toUInt64 +
    (c.dstOffset.y + y).toUInt64 * c.dst.pitch + (c.dstOffset.z + z).toUInt64 * c.dst.slice
  let soff := (sbase % 4).toNat >>> element
  let doff := (dbase % 4).toNat >>> element
  (⟨field 3 element, sbase &&& ~~~3, field f.offsetXBits soff,
    field f.pitchBits ((c.src.pitch >>> element.toUInt64).toNat - 1),
    if c.range.z = 1 then 0 else field f.sliceBits ((c.src.slice >>> element.toUInt64).toNat - 1),
    dbase &&& ~~~3, field f.offsetXBits doff,
    field f.pitchBits ((c.dst.pitch >>> element.toUInt64).toNat - 1),
    if c.range.z = 1 then 0 else field f.sliceBits ((c.dst.slice >>> element.toUInt64).toNat - 1),
    field f.rectXyBits (xcount - 1),
    field f.rectXyBits ((min (c.range.y - y) f.maxY).toNat - 1),
    field f.rectZBits ((min (c.range.z - z) f.maxZ).toNat - 1)⟩,
   x + (xcount <<< element).toUInt32)

/-- The `while (x < range->x)` loop: the tiles of the row at `y`, `z`. -/
def buildRow (maxEle : Nat) (y z : UInt32) : Nat → UInt32 → Option (List RectPacket)
  | 0, _ => none
  | fuel + 1, x =>
    if x < c.range.x then
      let t := c.tile f maxEle x y z
      (buildRow maxEle y z fuel t.2).map (t.1 :: ·)
    else some []

/-- The loops over `z` and `y`, each round a row. -/
def tiles (fuel : Nat) : Option (List RectPacket) :=
  forUpTo c.range.z f.maxZ
    (fun z => forUpTo c.range.y f.maxY (fun y => c.buildRow f c.maxEle y z fuel 0) fuel 0) fuel 0

/-- `BuildCopyRectCommand`. -/
def buildCopyRectCommand (fuel : Nat) : Except String (Option (List RectPacket)) :=
  -- the pitches and slices must fit their fields in the smallest element
  if c.src.pitch >>> c.minEle.toUInt64 > f.maxPitch.toUInt64 ∨
      c.dst.pitch >>> c.minEle.toUInt64 > f.maxPitch.toUInt64 then
    .error "Copy rect pitch out of limits.\n"
  else if c.range.z ≠ 1 ∧ (c.src.slice >>> c.minEle.toUInt64 > f.maxSlice ∨
      c.dst.slice >>> c.minEle.toUInt64 > f.maxSlice) then
    .error "Copy rect slice out of limits.\n"
  else .ok (c.tiles f fuel)

/-- The copy as a 2D copy along X and Z, for pitches too wide for a packet:
rows become slices. -/
def wideXZ : RectCopy where
  src := ⟨c.src.base + c.srcOffset.z.toUInt64 * c.src.slice + c.srcOffset.y.toUInt64 * c.src.pitch,
    0, c.src.pitch⟩
  dst := ⟨c.dst.base + c.dstOffset.z.toUInt64 * c.dst.slice + c.dstOffset.y.toUInt64 * c.dst.pitch,
    0, c.dst.pitch⟩
  srcOffset := ⟨c.srcOffset.x, 0, 0⟩
  dstOffset := ⟨c.dstOffset.x, 0, 0⟩
  range := ⟨c.range.x, 1, c.range.y⟩

/-! ## Tiles -/

/-- Every tile uses an element of at most 16 bytes and from one to `max_x`
elements, within what is left of the row. -/
theorem tileElement_spec (hxy : 4 ≤ f.rectXyBits) (hxy' : f.rectXyBits < 32) (maxEle : Nat)
    {x : UInt32} (hx : x < c.range.x) :
    (c.tileElement f maxEle x).1 ≤ 4 ∧ 1 ≤ (c.tileElement f maxEle x).2 ∧
      (c.tileElement f maxEle x).2 ≤ 2 ^ f.rectXyBits ∧
      (c.tileElement f maxEle x).2 * 2 ^ (c.tileElement f maxEle x).1 ≤ (c.range.x - x).toNat := by
  have hmax := maxX_toNat hxy'
  have h16 : 2 ^ 4 ≤ 2 ^ f.rectXyBits := Nat.pow_le_pow_right (by decide) hxy
  have hwpos : 0 < (c.range.x - x).toNat := by
    rw [UInt32.toNat_sub_of_le _ _ (UInt32.le_of_lt hx)]
    have := UInt32.lt_iff_toNat_lt.mp hx
    omega
  unfold tileElement
  dsimp only
  generalize hA : min (min (maxAlignedElement ((c.srcOffset.x + x) % 4).toUInt64)
    (maxAlignedElement ((c.dstOffset.x + x) % 4).toUInt64)) maxEle = aligned
  have ha : aligned ≤ 4 := hA ▸ le_trans (min_le_left _ _) (le_trans (min_le_left _ _) (maxAlignedElement_le _))
  generalize hW : c.range.x - x = width at hwpos ⊢
  -- the element fitting the width divides it
  have hm := pow_maxAlignedElement_dvd width.toUInt64
  rw [UInt32.toNat_toUInt64] at hm
  obtain ⟨q, hq⟩ := dvd_trans (Nat.pow_dvd_pow 2 (min_le_left (maxAlignedElement width.toUInt64) aligned)) hm
  have hpow : 0 < 2 ^ min (maxAlignedElement width.toUInt64) aligned := Nat.two_pow_pos _
  have hcount : width.toNat >>> min (maxAlignedElement width.toUInt64) aligned = q := by
    rw [Nat.shiftRight_eq_div_pow, hq, Nat.mul_div_cancel_left q hpow]
  rw [hcount, hmax]
  split
  · rename_i hwide
    have hq' : width.toNat ≥ q := by rw [hq]; exact Nat.le_mul_of_pos_left q hpow
    have hA4 : 2 ^ aligned ≤ 2 ^ 4 := Nat.pow_le_pow_right (by decide) ha
    refine ⟨ha, ?_, min_le_right _ _, ?_⟩
    · rw [Nat.shiftRight_eq_div_pow]
      apply Nat.le_min.mpr
      constructor
      · exact (Nat.le_div_iff_mul_le (Nat.two_pow_pos _)).mpr (by omega)
      · omega
    · rw [Nat.shiftRight_eq_div_pow]
      calc min (width.toNat / 2 ^ aligned) (2 ^ f.rectXyBits) * 2 ^ aligned
          ≤ width.toNat / 2 ^ aligned * 2 ^ aligned := Nat.mul_le_mul_right _ (min_le_left _ _)
        _ ≤ width.toNat := Nat.div_mul_le_self _ _
  · rename_i hnarrow
    refine ⟨le_trans (min_le_right _ _) ha, ?_, by omega, ?_⟩
    · rcases Nat.eq_zero_or_pos q with h0 | h0
      · rw [h0, Nat.mul_zero] at hq
        omega
      · exact h0
    · rw [hq, Nat.mul_comm]

/-- A tile copies `xcount` elements of `2 ^ element` bytes a row, and the next
tile starts where it ends. -/
theorem tile_spec (hxy : 4 ≤ f.rectXyBits) (hxy' : f.rectXyBits < 32) (maxEle : Nat)
    {x : UInt32} (y z : UInt32) (hx : x < c.range.x) :
    (c.tile f maxEle x y z).1.width =
        (c.tileElement f maxEle x).2 * 2 ^ (c.tileElement f maxEle x).1 ∧
      (c.tile f maxEle x y z).2.toNat =
        x.toNat + (c.tileElement f maxEle x).2 * 2 ^ (c.tileElement f maxEle x).1 := by
  have hspec := c.tileElement_spec f hxy hxy' maxEle hx
  have hsub : (c.range.x - x).toNat = c.range.x.toNat - x.toNat :=
    UInt32.toNat_sub_of_le _ _ (UInt32.le_of_lt hx)
  have hlt := c.range.x.toNat_lt
  unfold tile
  generalize c.tileElement f maxEle x = t at hspec ⊢
  obtain ⟨e, n⟩ := t
  obtain ⟨he, hn, hn', hw⟩ := hspec
  dsimp only at he hn hn' hw ⊢
  -- the element and the count are stored exactly
  have h8 : field 3 e = e := by
    rw [field_of_lt (by omega) (by have : (e : Int) ≤ 4 := by exact_mod_cast he
                                   omega)]
    simp
  have hx' : field f.rectXyBits ((n : Int) - 1) = n - 1 := by
    have h : (n : Int) ≤ ((2 ^ f.rectXyBits : Nat) : Int) := Int.ofNat_le.mpr hn'
    push_cast at h
    rw [field_of_lt (by omega) (by omega)]
    omega
  constructor
  · simp only [RectPacket.width, h8, hx']
    rw [Nat.sub_add_cancel hn]
  · -- the tile ends within the row, so the counter does not wrap
    have hxn := UInt32.lt_iff_toNat_lt.mp hx
    simp only [UInt32.toNat_add, Nat.shiftLeft_eq, Nat.toUInt32_eq, UInt32.toNat_ofNat']
    generalize n * 2 ^ e = w at hw ⊢
    rw [Nat.mod_eq_of_lt (by omega : w < 2 ^ 32)]
    exact Nat.mod_eq_of_lt (by omega)

/-- With enough fuel, the row from `x` on is cut into tiles whose widths add
up to what is left of the row. -/
theorem buildRow_covers (hxy : 4 ≤ f.rectXyBits) (hxy' : f.rectXyBits < 32) (maxEle : Nat)
    (y z : UInt32) (fuel : Nat) {x : UInt32} (hx : x ≤ c.range.x)
    (hfuel : (c.range.x - x).toNat < fuel) :
    ∃ pkts, c.buildRow f maxEle y z fuel x = some pkts ∧
      (pkts.map RectPacket.width).sum = (c.range.x - x).toNat := by
  induction fuel generalizing x with
  | zero => omega
  | succ fuel ih =>
    have hsub : (c.range.x - x).toNat = c.range.x.toNat - x.toNat := UInt32.toNat_sub_of_le _ _ hx
    unfold buildRow
    split
    · rename_i hlt
      -- one tile, then the rest of the row from where it ends
      obtain ⟨hwidth, hnext⟩ := c.tile_spec f hxy hxy' maxEle y z hlt
      obtain ⟨he, hn, hn', hw⟩ := c.tileElement_spec f hxy hxy' maxEle hlt
      have hpos : 0 < (c.tileElement f maxEle x).2 * 2 ^ (c.tileElement f maxEle x).1 :=
        Nat.mul_pos hn (Nat.two_pow_pos _)
      generalize (c.tileElement f maxEle x).2 * 2 ^ (c.tileElement f maxEle x).1 = w
        at hwidth hnext hw hpos
      have hle : (c.tile f maxEle x y z).2 ≤ c.range.x := by
        rw [UInt32.le_iff_toNat_le, hnext]
        omega
      have hsub' := UInt32.toNat_sub_of_le _ _ hle
      obtain ⟨pkts, hrow, hsum⟩ := ih hle (by omega)
      refine ⟨_, by dsimp only; rw [hrow]; rfl, ?_⟩
      simp only [List.map_cons, List.sum_cons, hsum, hwidth, hsub']
      omega
    · rename_i hge
      have : x = c.range.x := UInt32.le_antisymm hx (UInt32.not_lt.mp hge)
      exact ⟨[], rfl, by simp [this]⟩

/-- A row of `0x10001` bytes with aligned bases and pitches, wider than
`max_x` elements of 16 bytes. -/
def wideRow : RectCopy :=
  ⟨⟨0x1000, 0x20000, 0⟩, ⟨0, 0, 0⟩, ⟨0x40000, 0x20000, 0⟩, ⟨0, 0, 0⟩, ⟨0x10001, 1, 1⟩⟩

/-- The wide row is cut where the count is clipped to `max_x`: a tile of
`0x1000` elements of 16 bytes, then one of a single byte. -/
theorem buildRow_covers_wide_row :
    ∃ pkts, wideRow.buildRow (rectFormat 9) wideRow.maxEle 0 0 65538 0 = some pkts ∧
      (pkts.map RectPacket.width).sum = 65537 ∧ pkts.map RectPacket.width = [65536, 1] := by
  obtain ⟨pkts, hrow, hsum⟩ := buildRow_covers (rectFormat 9) wideRow
    (rectFormat_rectXyBits 9).1 (rectFormat_rectXyBits 9).2 wideRow.maxEle 0 0 65538
    (show (0 : UInt32) ≤ wideRow.range.x by decide) (by decide)
  have hwidths : (wideRow.buildRow (rectFormat 9) wideRow.maxEle 0 0 65538 0).map
      (List.map RectPacket.width) = some [65536, 1] := by decide +kernel
  rw [hrow] at hwidths
  exact ⟨pkts, hrow, hsum, Option.some.inj hwidths⟩

/-- When `range.y` exceeds `2 ^ 32 - max_y`, the loop over `y` never exits and
no copy is built, whatever the fuel. -/
theorem tiles_eq_none (hy : 2 ^ 32 - f.maxY.toNat < c.range.y.toNat)
    (hstep : f.maxY.toNat ∣ 2 ^ 32) (hz : 0 < c.range.z) (fuel : Nat) : c.tiles f fuel = none := by
  have hrow : ∀ z, forUpTo c.range.y f.maxY (fun y => c.buildRow f c.maxEle y z fuel 0) fuel 0 = none :=
    fun z => forUpTo_eq_none _ hstep hy fuel (Nat.dvd_zero _)
  unfold tiles
  cases fuel with
  | zero => rfl
  | succ fuel =>
    rw [forUpTo, if_pos hz, hrow]
    rfl

end RectCopy

/-- `BlitSdma::SubmitCopyRectCommand`, up to the submission of the packets. -/
def submitCopyRectCommand (majorVersion : Nat) (c : RectCopy) (fuel : Nat) :
    Except String (Option (List RectPacket)) :=
  if c.dst.base % 4 ≠ 0 ∨ c.src.base % 4 ≠ 0 then .error "Copy rect base address not aligned."
  else if c.dst.pitch % 4 ≠ 0 ∨ c.src.pitch % 4 ≠ 0 then .error "Copy rect pitch not aligned."
  else if c.dst.slice % 4 ≠ 0 ∨ c.src.slice % 4 ≠ 0 then .error "Copy rect slice not aligned."
  else if c.srcOffset.x.toUInt64 + c.range.x.toUInt64 > c.src.pitch ∨
      c.dstOffset.x.toUInt64 + c.range.x.toUInt64 > c.dst.pitch then
    .error "Copy rect width out of range."
  else if c.src.slice ≠ 0 ∧ c.srcOffset.y.toUInt64 + c.range.y.toUInt64 > c.src.slice / c.src.pitch then
    .error "Copy rect height out of range."
  else if c.dst.slice ≠ 0 ∧ c.dstOffset.y.toUInt64 + c.range.y.toUInt64 > c.dst.slice / c.dst.pitch then
    .error "Copy rect height out of range."
  else if c.range.z > 1 ∧ (c.src.slice = 0 ∨ c.dst.slice = 0) then .error "Copy rect slice needed."
  else
    let f := rectFormat majorVersion
    if c.range.z = 1 ∧ (c.src.pitch > f.maxPitch.toUInt64 ∨ c.dst.pitch > f.maxPitch.toUInt64) then
      c.wideXZ.buildCopyRectCommand f fuel
    else c.buildCopyRectCommand f fuel

/-- A copy of 4 bytes by `2^32 - 1` rows of pitch 4, without slices, on a
pre-GFX12 agent: every check passes, and the loop over `y` never ends. -/
theorem tall_copy_never_built (fuel : Nat) :
    submitCopyRectCommand 9
      ⟨⟨0x1000, 4, 0⟩, ⟨0, 0, 0⟩, ⟨0x2000, 4, 0⟩, ⟨0, 0, 0⟩, ⟨4, 0xFFFFFFFF, 1⟩⟩ fuel = .ok none := by
  have h := RectCopy.tiles_eq_none (rectFormat 9)
    ⟨⟨0x1000, 4, 0⟩, ⟨0, 0, 0⟩, ⟨0x2000, 4, 0⟩, ⟨0, 0, 0⟩, ⟨4, 0xFFFFFFFF, 1⟩⟩
    (by decide) (by decide) (by decide) fuel
  unfold submitCopyRectCommand RectCopy.buildCopyRectCommand
  rw [if_neg (by decide), if_neg (by decide), if_neg (by decide), if_neg (by decide),
    if_neg (by decide), if_neg (by decide), if_neg (by decide)]
  dsimp only
  rw [if_neg (by decide), if_neg (by decide +kernel), if_neg (by decide), h]

end BlitSdma
