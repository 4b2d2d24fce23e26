import Mathlib
import Rocr.Lib.Word

/-!
# Reserved apertures of `libhsakmt`

A `manageable_aperture` of `fmm.c` hands out virtual address ranges inside
`[base, limit]`.  The ranges in use are kept in `vm_ranges`, a doubly linked
list of `vm_area_t` with inclusive bounds, sorted by address; adjacent ranges
are coalesced into one area.  Each allocation is followed by
`guard_pages` unused pages to catch overruns.

The list is modelled as a Lean `List`: the position of an area in the list is
what its `prev` and `next` links encode.  Addresses are `UInt64`, since the
code computes with `uint64_t` and `void *` and its bounds checks depend on
their wrapping.  `PAGE_SIZE` is `hsakmt_page_size`, read from `sysconf` at
open time; it is a parameter here.

`reserved_aperture_allocate_aligned` searches the list for the first hole
large enough for the request and its guard pages.  When no hole is found it
checks the space after the last area with `limit - start + 1 < size`; once the
candidate `start` lies beyond `limit + 1` the subtraction wraps and the check
passes, so the request is served above `limit`
(`allocate_past_limit`).

A request without an address is placed at a candidate start: `ALIGN_UP` of
`base`, or of the end of an area plus one, plus an offset that aligns the end
of the buffer when the requested alignment is at most a page.  With a power of
two alignment such a start is aligned (`alignUp_toNat_mod`,
`alignUp_add_offset_end`).  The gaps the scan examines are `requestGaps`; when
the areas keep their order (`AreasFrom`) and the first candidate is not `NULL`
(`base` is not, or the offset is positive), a gap that admits the request at
its candidate makes the scan return a start
(`holeSearch_served`): a candidate that wraps past `2 ^ 64` makes every later
candidate wrap (`le_candidate_of_le`), so the scan never stops at a wrapped
`NULL` before an admitting gap.
-/

namespace Fmm

/-- `GPU_HUGE_PAGE_SIZE`. -/
def gpuHugePageSize : UInt64 := (2 : UInt64) <<< 20

/-- `ALIGN_UP(x, align)`. -/
def alignUp (x align : UInt64) : UInt64 := (x + align - 1) &&& ~~~(align - 1)

/-- `vm_area_t`: the inclusive range `[start, end]`. -/
structure Area where
  start : UInt64
  /-- `end`. -/
  last : UInt64
deriving DecidableEq, Repr

/-- The fields of `manageable_aperture_t` that the reserved-aperture
operations read and write. -/
structure Aperture where
  base : UInt64
  limit : UInt64
  align : UInt64
  guardPages : UInt32
  vmRanges : List Area
deriving DecidableEq, Repr

variable (pageSize : UInt64)

/-- `vm_align_area_size`: the request and its guard pages. -/
def vmAlignAreaSize (app : Aperture) (size : UInt64) : UInt64 :=
  size + app.guardPages.toUInt64 * pageSize

/-- `vm_find`: the position of the area containing `address`. -/
def vmFind (ranges : List Area) (address : UInt64) : Option Nat :=
  ranges.findIdx? fun a => decide (a.start ≤ address) && decide (address ≤ a.last)

/-- The loop `while (align < GPU_HUGE_PAGE_SIZE && size >= (align << 1))
align <<= 1`, with one step of fuel for each bit: it runs out only for
`align = 0`, where the C loop does not stop. -/
def growAlign (size : UInt64) : Nat → UInt64 → UInt64
  | 0, align => align
  | fuel + 1, align =>
      if align < gpuHugePageSize ∧ size ≥ align <<< 1 then growAlign size fuel (align <<< 1)
      else align

/-- The hole search of `reserved_aperture_allocate_aligned`: from the area
`cur` (`none` for `NULL`) and the candidate `start`, walk the areas `rest`
that begin at position `i`.  It stops at the first area `next` that begins
above `start` with at least `size` bytes in between, and returns `cur`, the
position of `next` and whether there is one, and `start`.  Without a fixed
`address` each step moves `start` past the area just passed. -/
def holeSearch (address size align offset : UInt64) :
    Option Area → UInt64 → Nat → List Area → Option Area × Nat × Bool × UInt64
  | cur, start, i, [] => (cur, i, false, start)
  | cur, start, i, next :: rest =>
      if next.start > start ∧ next.start - start ≥ size then (cur, i, true, start)
      else
        holeSearch address size align offset (some next)
          (if address = 0 then alignUp (next.last + 1) align + offset else start) (i + 1) rest

/-- `reserved_aperture_allocate_aligned(app, address, size, align)`: the
aperture and the address returned, `0` for `NULL`.  `address = 0` asks for
any address; otherwise for exactly `address`. -/
def reservedApertureAllocateAligned (app : Aperture) (address size align : UInt64) :
    Aperture × UInt64 :=
  let origAlign := align
  let align := if align < app.align then app.align else align
  -- big buffers are aligned to the next power of two up to the huge page size
  let align := growAlign size 64 align
  -- without a requested alignment the end of the buffer is aligned
  let offset := if origAlign ≤ pageSize then align - (size &&& (align - 1)) else 0
  let size := vmAlignAreaSize pageSize app size
  let start := if address ≠ 0 then address else alignUp app.base align + offset
  let (cur, i, hasNext, start) := holeSearch address size align offset none start 0 app.vmRanges
  if !hasNext ∧ app.limit - start + 1 < size then (app, 0)
  else
    match cur with
    | some c =>
        if address ≠ 0 ∧ address < alignUp (c.last + 1) align then (app, 0)
        else if c.last + 1 = start then
          -- extend the area before the hole
          ({ app with vmRanges := app.vmRanges.set (i - 1) { c with last := start + (size - 1) } },
            start)
        else
          ({ app with vmRanges := app.vmRanges.insertIdx i ⟨start, start + (size - 1)⟩ }, start)
    | none => ({ app with vmRanges := app.vmRanges.insertIdx i ⟨start, start + (size - 1)⟩ }, start)

/-- `reserved_aperture_release(app, address, size)` on `vm_ranges`: remove
the range `[address, address + size + guard)` from the area containing
`address`, shrinking the area from either end or splitting it.  The `mmap`
that drops the CPU mapping of a CPU-accessible aperture changes no field. -/
def reservedApertureRelease (app : Aperture) (address size : UInt64) : Aperture :=
  let size := vmAlignAreaSize pageSize app size
  match vmFind app.vmRanges address with
  | none => app
  | some i =>
      match app.vmRanges[i]? with
      | none => app
      | some area =>
          let sizeOfRegion := area.last - area.start + 1
          if sizeOfRegion = size then { app with vmRanges := app.vmRanges.eraseIdx i }
          else if sizeOfRegion > size then
            if area.start = address then
              { app with vmRanges := app.vmRanges.set i { area with start := area.start + size } }
            else if area.last - address + 1 = size then
              { app with vmRanges := app.vmRanges.set i { area with last := area.last - size } }
            else
              -- split the area around the released range
              let shrunk := app.vmRanges.set i { area with last := address - 1 }
              { app with vmRanges := shrunk.insertIdx (i + 1) ⟨address + size, area.last⟩ }
          else app

/-- An aperture of three pages `[0x10000, 0x12FFF]` with one guard page: the
first one-page request takes `[0x11000, 0x12FFF]`, up to `limit`; the second
is served at `0x14000`, past `limit`, because `limit - start + 1` wraps. -/
theorem allocate_past_limit :
    reservedApertureAllocateAligned 0x1000
        (reservedApertureAllocateAligned 0x1000 ⟨0x10000, 0x12FFF, 0x1000, 1, []⟩ 0 0x1000 0).1
        0 0x1000 0 =
      (⟨0x10000, 0x12FFF, 0x1000, 1, [⟨0x11000, 0x12FFF⟩, ⟨0x14000, 0x15FFF⟩]⟩, 0x14000) := by
  decide

open Word

/-- A power of two that fits in a `uint64_t` has an exponent below 64. -/
theorem lt_64_of_toNat_eq_two_pow {a : UInt64} {k : Nat} (hk : a.toNat = 2 ^ k) : k < 64 :=
  (Nat.pow_lt_pow_iff_right (by decide)).1 (hk ▸ UInt64.toNat_lt a)

/-- `ALIGN_UP(x, align)` for a power of two `align` rounds up modulo `2 ^ 64`. -/
theorem alignUp_toNat {x align : UInt64} {k : Nat} (hk : align.toNat = 2 ^ k) :
    (alignUp x align).toNat = roundUp x.toNat (2 ^ k) % 2 ^ 64 := by
  have hlt : 2 ^ k < 2 ^ 64 := hk ▸ UInt64.toNat_lt align
  have hk64 := lt_64_of_toNat_eq_two_pow hk
  have hpos := Nat.one_le_two_pow (n := k)
  have hsum : (x + align - 1).toNat = (x.toNat + 2 ^ k - 1) % 2 ^ 64 := by
    simp only [UInt64.toNat_sub, UInt64.toNat_add, hk, UInt64.toNat_one]
    omega
  have hmask : (~~~(align - 1)).toNat = 2 ^ 64 - 2 ^ k := by
    simp only [UInt64.toNat_not, UInt64.toNat_sub, hk, UInt64.toNat_one, UInt64.size]
    omega
  rw [alignUp, UInt64.toNat_and, hsum, hmask, mask_eq_roundUp_mod _ (Nat.le_of_lt hk64)]

/-! ## Requests without an address -/

/-- The alignment `reserved_aperture_allocate_aligned` places a request with:
the larger of `align` and `app->align`, grown for big buffers. -/
def allocAlign (app : Aperture) (size align : UInt64) : UInt64 :=
  growAlign size 64 (if align < app.align then app.align else align)

/-- The offset added to every candidate start: with a requested alignment of at
most a page it puts the end of the buffer on the alignment, otherwise `0`. -/
def allocOffset (app : Aperture) (size align : UInt64) : UInt64 :=
  if align ≤ pageSize then allocAlign app size align - (size &&& (allocAlign app size align - 1))
  else 0

/-- The hole search `reserved_aperture_allocate_aligned` runs for a request
without an address, from the first candidate above `base`. -/
def holeSearchFromBase (app : Aperture) (size align : UInt64) :
    Option Area × Nat × Bool × UInt64 :=
  holeSearch 0 (vmAlignAreaSize pageSize app size) (allocAlign app size align)
    (allocOffset pageSize app size align) none
    (alignUp app.base (allocAlign app size align) + allocOffset pageSize app size align) 0
    app.vmRanges

/-- A request without an address gets the start the hole search stops at,
unless the space after the last area is too small. -/
theorem reservedApertureAllocateAligned_snd_zero (app : Aperture) (size align : UInt64) :
    (reservedApertureAllocateAligned pageSize app 0 size align).2 =
      if (holeSearchFromBase pageSize app size align).2.2.1 = false ∧
          app.limit - (holeSearchFromBase pageSize app size align).2.2.2 + 1 <
            vmAlignAreaSize pageSize app size then 0
      else (holeSearchFromBase pageSize app size align).2.2.2 := by
  rcases hsearch : holeSearchFromBase pageSize app size align with ⟨cur, i, hasNext, start⟩
  simp only [holeSearchFromBase, allocAlign, allocOffset] at hsearch
  simp only [reservedApertureAllocateAligned, hsearch, ne_eq, not_true_eq_false, if_false, Bool.not_eq_true',
    false_and]
  cases cur with
  | none => split_ifs <;> rfl
  | some c =>
    split_ifs
    · rfl
    · -- the area before the hole is extended or a new one inserted: both return `start`
      dsimp only
      split_ifs <;> rfl


/-- The alignment a request is placed with is a power of two when `align` is
one and `app->align` is `0` or one: growing it only doubles it below the huge
page size. -/
theorem growAlign_isPowerOfTwo (size : UInt64) (fuel : Nat) {align : UInt64}
    (h : align.toNat.isPowerOfTwo) : (growAlign size fuel align).toNat.isPowerOfTwo := by
  induction fuel generalizing align with
  | zero => exact h
  | succ fuel ih =>
    simp only [growAlign]
    split_ifs with hgrow
    · apply ih
      obtain ⟨k, hk⟩ := h
      have hsmall : align.toNat < 2 ^ 21 := by
        have := UInt64.lt_iff_toNat_lt.1 hgrow.1
        simpa [gpuHugePageSize] using this
      have hdouble : (align <<< 1).toNat = align.toNat * 2 := by
        rw [UInt64.toNat_shiftLeft, Nat.shiftLeft_eq]
        simp only [UInt64.toNat_one, Nat.one_mod, pow_one]
        omega
      exact ⟨k + 1, by rw [hdouble, hk, pow_succ]⟩
    · exact h

theorem allocAlign_isPowerOfTwo {app : Aperture} (size : UInt64) {align : UInt64}
    (happ : app.align = 0 ∨ app.align.toNat.isPowerOfTwo) (halign : align.toNat.isPowerOfTwo) :
    (allocAlign app size align).toNat.isPowerOfTwo := by
  apply growAlign_isPowerOfTwo
  split_ifs with hlt
  · rcases happ with h0 | hpow
    · simp [h0, UInt64.lt_iff_toNat_lt] at hlt
    · exact hpow
  · exact halign


section Search

variable {size align offset : UInt64}

/-- Without a fixed address the search stops at its first candidate or at one
it derived from the end of an area it passed. -/
theorem holeSearch_start (cur : Option Area) (start : UInt64) (i : Nat) (rest : List Area) :
    (holeSearch 0 size align offset cur start i rest).2.2.2 = start ∨
      ∃ a ∈ rest, (holeSearch 0 size align offset cur start i rest).2.2.2 =
        alignUp (a.last + 1) align + offset := by
  induction rest generalizing cur start i with
  | nil => exact Or.inl rfl
  | cons next rest ih =>
    simp only [holeSearch, if_true]
    split_ifs
    · exact Or.inl rfl
    · rcases ih (some next) (alignUp (next.last + 1) align + offset) (i + 1) with h | ⟨a, ha, h⟩
      · exact Or.inr ⟨next, List.mem_cons_self, h⟩
      · exact Or.inr ⟨a, List.mem_cons_of_mem next ha, h⟩

end Search

/-- A start rounded up to a power of two `align` is a multiple of it. -/
theorem alignUp_toNat_mod {x align : UInt64} {k : Nat} (hk : align.toNat = 2 ^ k) :
    (alignUp x align).toNat % 2 ^ k = 0 := by
  have hk64 : k ≤ 64 := Nat.le_of_lt (lt_64_of_toNat_eq_two_pow hk)
  rw [alignUp_toNat hk]
  exact Nat.mod_eq_zero_of_dvd ((Nat.dvd_mod_iff (Nat.pow_dvd_pow 2 hk64)).2 (dvd_roundUp _ _))

/-- The offset `align - (size & (align - 1))` for a power of two `align`: what
`size` lacks of a multiple of `align`, and `align` itself when it lacks nothing. -/
theorem endOffset_toNat {size align : UInt64} {k : Nat} (hk : align.toNat = 2 ^ k) :
    (align - (size &&& (align - 1))).toNat = 2 ^ k - size.toNat % 2 ^ k := by
  have hpos := Nat.one_le_two_pow (n := k)
  have hlow : (size &&& (align - 1)).toNat = size.toNat % 2 ^ k := by
    rw [UInt64.toNat_and, UInt64.toNat_sub_of_le _ _ (UInt64.le_iff_toNat_le.2 (by simpa [hk])),
      UInt64.toNat_one, hk, Nat.and_two_pow_sub_one_eq_mod]
  have hmod := Nat.mod_lt size.toNat (Nat.two_pow_pos k)
  rw [UInt64.toNat_sub_of_le _ _ (UInt64.le_iff_toNat_le.2 (by omega)), hlow, hk]

/-- Adding `align - (size & (align - 1))` to a start rounded up to a power of two
`align` puts the end of `size` bytes placed there on a multiple of `align`. -/
theorem alignUp_add_offset_end {x size align : UInt64} {k : Nat} (hk : align.toNat = 2 ^ k) :
    ((alignUp x align + (align - (size &&& (align - 1)))).toNat + size.toNat) % 2 ^ k = 0 := by
  have hk64 : k ≤ 64 := Nat.le_of_lt (lt_64_of_toNat_eq_two_pow hk)
  have hoff : (align - (size &&& (align - 1))).toNat = 2 ^ k - size.toNat % 2 ^ k :=
    endOffset_toNat hk
  -- the sum is a multiple of `2 ^ k` before it wraps, and `2 ^ k` divides `2 ^ 64`
  have hsum : 2 ^ k ∣ (alignUp x align).toNat + (2 ^ k - size.toNat % 2 ^ k) + size.toNat := by
    have hsplit : 2 ^ k - size.toNat % 2 ^ k + size.toNat = 2 ^ k * (size.toNat / 2 ^ k + 1) := by
      have := Nat.div_add_mod size.toNat (2 ^ k)
      rw [Nat.mul_add, Nat.mul_one]
      omega
    rw [Nat.add_assoc, hsplit]
    exact Nat.dvd_add (Nat.dvd_of_mod_eq_zero (alignUp_toNat_mod hk)) (Nat.dvd_mul_right _ _)
  rw [UInt64.toNat_add, hoff, Nat.add_mod, Nat.mod_mod_of_dvd _ (Nat.pow_dvd_pow 2 hk64),
    ← Nat.add_mod]
  exact Nat.mod_eq_zero_of_dvd hsum


/-! ## The gaps a request can go to -/

/-- A stretch `[lo, bound)` of addresses between two areas of `vm_ranges` (or
between `base` and the first, or the last and `limit`), with the candidate
start the scan computes for it. -/
structure Gap where
  lo : Nat
  bound : Nat
  start : UInt64
deriving DecidableEq, Repr

/-- `bytes` bytes placed at the candidate start lie inside the gap. -/
def Gap.Admits (g : Gap) (bytes : Nat) : Prop :=
  g.lo ≤ g.start.toNat ∧ g.start.toNat + bytes ≤ g.bound

instance (g : Gap) (bytes : Nat) : Decidable (g.Admits bytes) :=
  inferInstanceAs (Decidable (_ ∧ _))

/-- The gaps from address `lo` on, the first with candidate `start`: the gap
after an area starts at its `end + 1`, with candidate
`ALIGN_UP(end + 1, align) + offset`; the last gap ends at `limit`. -/
def gapsFrom (limit align offset : UInt64) : Nat → UInt64 → List Area → List Gap
  | lo, start, [] => [⟨lo, limit.toNat + 1, start⟩]
  | lo, start, a :: rest =>
      ⟨lo, a.start.toNat, start⟩ ::
        gapsFrom limit align offset (a.last.toNat + 1) (alignUp (a.last + 1) align + offset) rest

/-- The gaps of `app` for a request of `size` bytes aligned to `align`. -/
def requestGaps (app : Aperture) (size align : UInt64) : List Gap :=
  gapsFrom app.limit (allocAlign app size align) (allocOffset pageSize app size align)
    app.base.toNat (alignUp app.base (allocAlign app size align) + allocOffset pageSize app size align)
    app.vmRanges

/-- The bytes a request takes with its guard pages, counted without wrapping. -/
def requestBytes (app : Aperture) (size : UInt64) : Nat :=
  size.toNat + app.guardPages.toNat * pageSize.toNat

/-- The order `vm_ranges` keeps: every area `[start, end]` is nonempty and lies
at or above `lo`, which is `base` for the first area and the end of the area
before plus one for the others. -/
def AreasFrom : Nat → List Area → Prop
  | _, [] => True
  | lo, a :: rest => lo ≤ a.start.toNat ∧ a.start.toNat ≤ a.last.toNat ∧ AreasFrom (a.last.toNat + 1) rest

instance decAreasFrom : (lo : Nat) → (areas : List Area) → Decidable (AreasFrom lo areas)
  | _, [] => isTrue trivial
  | _, a :: rest =>
      have := decAreasFrom (a.last.toNat + 1) rest
      inferInstanceAs (Decidable (_ ∧ _ ∧ _))

/-- What the call needs from the hole search to return the start it found: the
start is not `NULL` and the check on the space after the last area passes. -/
def Served (limit size : UInt64) (r : Option Area × Nat × Bool × UInt64) : Prop :=
  r.2.2.2 ≠ 0 ∧ ¬ (r.2.2.1 = false ∧ limit - r.2.2.2 + 1 < size)


section Gaps

variable {limit size align offset : UInt64} {k : Nat}

theorem ne_zero_of_lt_toNat {x : UInt64} {n : Nat} (h : n < x.toNat) : x ≠ 0 := by
  rintro rfl
  simp at h

/-- The test that stops the scan at `next`: `next` begins above `start` with at
least `size` bytes in between. -/
theorem fits_iff (start next : UInt64) (hsize : 0 < size.toNat) :
    (next > start ∧ next - start ≥ size) ↔ start.toNat + size.toNat ≤ next.toNat := by
  constructor
  · rintro ⟨hgt, hge⟩
    have hgt' := UInt64.lt_iff_toNat_lt.1 hgt
    rw [ge_iff_le, UInt64.le_iff_toNat_le, UInt64.toNat_sub_of_le _ _ (UInt64.le_of_lt hgt)] at hge
    omega
  · intro h
    have hgt : next > start := UInt64.lt_iff_toNat_lt.2 (by omega)
    refine ⟨hgt, ?_⟩
    rw [ge_iff_le, UInt64.le_iff_toNat_le, UInt64.toNat_sub_of_le _ _ (UInt64.le_of_lt hgt)]
    omega

/-- The check on the space after the last area passes for a nonzero start whose
`size` bytes end by `limit + 1`. -/
theorem not_tail_short {start : UInt64} (hstart : 0 < start.toNat)
    (hfit : start.toNat + size.toNat ≤ limit.toNat + 1) (hsize : 0 < size.toNat) :
    ¬ limit - start + 1 < size := by
  have hle : start ≤ limit := UInt64.le_iff_toNat_le.2 (by omega)
  have hlimit := UInt64.toNat_lt limit
  rw [UInt64.lt_iff_toNat_lt, UInt64.toNat_add, UInt64.toNat_sub_of_le _ _ hle, UInt64.toNat_one,
    Nat.mod_eq_of_lt (by omega)]
  omega

/-- The candidate start for the gap from `lo`, read as a number: `lo` rounded
up, plus the offset, modulo `2 ^ 64`. -/
theorem candidate_toNat (hk : align.toNat = 2 ^ k) (lo : Nat) :
    (alignUp (UInt64.ofNat lo) align + offset).toNat =
      (roundUp (lo % 2 ^ 64) (2 ^ k) + offset.toNat) % 2 ^ 64 := by
  rw [UInt64.toNat_add, alignUp_toNat hk, UInt64.toNat_ofNat', Nat.mod_add_mod]

/-- If the candidate of a gap from `lo'` does not wrap below `lo'`, neither does
the candidate of a gap from any `lo ≤ lo'`: rounding up is monotone, and a
candidate that wraps lands below its gap. -/
theorem le_candidate_of_le (hk : align.toNat = 2 ^ k) (hoff : offset.toNat ≤ 2 ^ k)
    {lo lo' : Nat} (hle : lo ≤ lo') (h' : lo' ≤ (alignUp (UInt64.ofNat lo') align + offset).toNat) :
    lo ≤ (alignUp (UInt64.ofNat lo) align + offset).toNat := by
  have hk64 := lt_64_of_toNat_eq_two_pow hk
  have hA : 2 ^ k ≤ 2 ^ 63 := Nat.pow_le_pow_right (by decide) (by omega)
  have hlo' : lo' < 2 ^ 64 := lt_of_le_of_lt h' (UInt64.toNat_lt _)
  rw [candidate_toNat hk, Nat.mod_eq_of_lt hlo'] at h'
  have hlo : lo < 2 ^ 64 := by omega
  rw [candidate_toNat hk, Nat.mod_eq_of_lt hlo]
  have hup' := roundUp_le lo' (2 ^ k)
  have hup := le_roundUp lo (Nat.two_pow_pos k)
  have hmono := roundUp_mono (2 ^ k) hle
  have hnowrap : roundUp lo' (2 ^ k) + offset.toNat < 2 ^ 64 := by
    by_contra hwrap
    have hwrap' : (roundUp lo' (2 ^ k) + offset.toNat) % 2 ^ 64 =
        roundUp lo' (2 ^ k) + offset.toNat - 2 ^ 64 := by
      rw [Nat.mod_eq_sub_mod (by omega), Nat.mod_eq_of_lt (by omega)]
    omega
  have hsmall : roundUp lo (2 ^ k) + offset.toNat < 2 ^ 64 := by omega
  rw [Nat.mod_eq_of_lt hsmall]
  omega

/-- The candidate after an area is the candidate of the gap from its end plus one. -/
theorem alignUp_last_add_one (a : Area) :
    alignUp (a.last + 1) align + offset =
      alignUp (UInt64.ofNat (a.last.toNat + 1)) align + offset := by
  rw [(UInt64.ofNat_eq_iff_mod_eq_toNat (a.last.toNat + 1) (a.last + 1)).2 rfl]

/-- Every gap from `lo` on starts at or above `lo`, has the candidate of its own
start, and ends by `2 ^ 64`. -/
theorem gapsFrom_spec {lo : Nat} {start : UInt64} {areas : List Area} (hareas : AreasFrom lo areas)
    (hstart : start = alignUp (UInt64.ofNat lo) align + offset) :
    ∀ g ∈ gapsFrom limit align offset lo start areas,
      lo ≤ g.lo ∧ g.start = alignUp (UInt64.ofNat g.lo) align + offset ∧ g.bound ≤ 2 ^ 64 := by
  induction areas generalizing lo start with
  | nil =>
    intro g hg
    simp only [gapsFrom, List.mem_singleton] at hg
    subst hg
    exact ⟨le_refl lo, hstart, UInt64.toNat_lt limit⟩
  | cons a rest ih =>
    intro g hg
    obtain ⟨hlo, hse, hrest⟩ := hareas
    simp only [gapsFrom, List.mem_cons] at hg
    rcases hg with rfl | hg
    · exact ⟨le_refl lo, hstart, Nat.le_of_lt (UInt64.toNat_lt a.start)⟩
    · obtain ⟨hle, hg⟩ := ih hrest (alignUp_last_add_one a) g hg
      exact ⟨by omega, hg⟩

/-- If some gap from `lo` on admits `bytes` bytes at its candidate, the
candidate of the first gap has not wrapped below `lo`. -/
theorem le_start_of_admits (hk : align.toNat = 2 ^ k) (hoff : offset.toNat ≤ 2 ^ k)
    {lo : Nat} {start : UInt64} {areas : List Area} {bytes : Nat} (hareas : AreasFrom lo areas)
    (hstart : start = alignUp (UInt64.ofNat lo) align + offset)
    (hadm : ∃ g ∈ gapsFrom limit align offset lo start areas, g.Admits bytes) :
    lo ≤ start.toNat := by
  obtain ⟨g, hg, hgadm⟩ := hadm
  obtain ⟨hle, hgstart, -⟩ := gapsFrom_spec hareas hstart g hg
  rw [hstart]
  exact le_candidate_of_le hk hoff hle (hgstart ▸ hgadm.1)

/-- A candidate that has not wrapped below its gap is not `NULL` when the gap
starts above address `0` or the offset is positive: from `0` the candidate is
the offset itself. -/
theorem candidate_pos (hk : align.toNat = 2 ^ k) {lo : Nat} {start : UInt64}
    (hlo : 0 < lo ∨ 0 < offset.toNat) (hstart : start = alignUp (UInt64.ofNat lo) align + offset)
    (hle : lo ≤ start.toNat) : 0 < start.toNat := by
  rcases Nat.eq_zero_or_pos lo with rfl | hpos
  · have hoff := hlo.resolve_left (lt_irrefl 0)
    rw [hstart, candidate_toNat hk, Nat.zero_mod, roundUp_zero, Nat.zero_add,
      Nat.mod_eq_of_lt (UInt64.toNat_lt offset)]
    exact hoff
  · omega

/-- **The scan finds a gap that admits the request.**  If some gap from `lo` on
admits `size` bytes at its candidate, the hole search from the first candidate
stops at a nonzero start that passes the check after the last area.  By
induction over the areas: the scan passes an area only when the gap before it
does not admit the request, and it stops at one only when its candidate has not
wrapped, which `le_start_of_admits` gives from any admitting gap further on. -/
theorem holeSearch_served (hk : align.toNat = 2 ^ k) (hoff : offset.toNat ≤ 2 ^ k)
    (hsize : 0 < size.toNat) (cur : Option Area) (i : Nat) {lo : Nat} {start : UInt64}
    {areas : List Area} (hlo : 0 < lo ∨ 0 < offset.toNat) (hareas : AreasFrom lo areas)
    (hstart : start = alignUp (UInt64.ofNat lo) align + offset)
    (hadm : ∃ g ∈ gapsFrom limit align offset lo start areas, g.Admits size.toNat) :
    Served limit size (holeSearch 0 size align offset cur start i areas) := by
  induction areas generalizing lo start cur i with
  | nil =>
    obtain ⟨g, hg, hgadm⟩ := hadm
    simp only [gapsFrom, List.mem_singleton] at hg
    subst hg
    obtain ⟨hfirst, hfit⟩ := hgadm
    have hpos : 0 < start.toNat := candidate_pos hk hlo hstart hfirst
    exact ⟨ne_zero_of_lt_toNat hpos, fun h => not_tail_short hpos hfit hsize h.2⟩
  | cons next rest ih =>
    simp only [holeSearch, if_true]
    by_cases hfit : next.start > start ∧ next.start - start ≥ size
    · rw [if_pos hfit]
      have hle : lo ≤ start.toNat := le_start_of_admits hk hoff hareas hstart hadm
      exact ⟨ne_zero_of_lt_toNat (candidate_pos hk hlo hstart hle), by simp⟩
    · rw [if_neg hfit]
      obtain ⟨hlo', hse, hrest⟩ := hareas
      apply ih (some next) (i + 1) (Or.inl (by omega)) hrest (alignUp_last_add_one next)
      obtain ⟨g, hg, hgadm⟩ := hadm
      simp only [gapsFrom, List.mem_cons] at hg
      rcases hg with rfl | hg
      · -- the gap before `next` admits the request, so the scan stops at `next`
        exact absurd ((fits_iff start next.start hsize).2 hgadm.2) hfit
      · exact ⟨g, hg, hgadm⟩

end Gaps


/-- The guard pages and the request, added as `uint64_t`, when their count fits. -/
theorem vmAlignAreaSize_toNat {app : Aperture} {size : UInt64}
    (h : requestBytes pageSize app size < 2 ^ 64) :
    (vmAlignAreaSize pageSize app size).toNat = requestBytes pageSize app size := by
  unfold requestBytes at h ⊢
  have hguard : app.guardPages.toNat * pageSize.toNat < 2 ^ 64 := by omega
  rw [vmAlignAreaSize, UInt64.toNat_add, UInt64.toNat_mul, UInt32.toNat_toUInt64,
    Nat.mod_eq_of_lt hguard, Nat.mod_eq_of_lt h]

theorem allocOffset_toNat_le {app : Aperture} {size align : UInt64} {k : Nat}
    (hk : (allocAlign app size align).toNat = 2 ^ k) :
    (allocOffset pageSize app size align).toNat ≤ 2 ^ k := by
  unfold allocOffset
  split_ifs
  · rw [endOffset_toNat hk]
    omega
  · simp

/-- With a requested alignment of at most a page the offset is positive: it is
what `size` lacks of a multiple of the alignment, or the whole alignment. -/
theorem allocOffset_pos {app : Aperture} {size align : UInt64} {k : Nat}
    (hk : (allocAlign app size align).toNat = 2 ^ k) (h : align ≤ pageSize) :
    0 < (allocOffset pageSize app size align).toNat := by
  rw [allocOffset, if_pos h, endOffset_toNat hk]
  have := Nat.mod_lt size.toNat (Nat.two_pow_pos k)
  omega

/-- A request without an address that is not refused gets a candidate start:
`ALIGN_UP` of `base` or of the end of an area plus one, plus the offset. -/
theorem reservedApertureAllocateAligned_eq_candidate {app : Aperture} {size align : UInt64}
    (hne : (reservedApertureAllocateAligned pageSize app 0 size align).2 ≠ 0) :
    ∃ x, (reservedApertureAllocateAligned pageSize app 0 size align).2 =
      alignUp x (allocAlign app size align) + allocOffset pageSize app size align := by
  rw [reservedApertureAllocateAligned_snd_zero] at hne ⊢
  split_ifs at hne ⊢
  · exact absurd rfl hne
  · rcases @holeSearch_start (vmAlignAreaSize pageSize app size) _ _ none
        (alignUp app.base (allocAlign app size align) + allocOffset pageSize app size align) 0
        app.vmRanges with h | ⟨a, -, h⟩
    · exact ⟨app.base, h⟩
    · exact ⟨a.last + 1, h⟩

/-- A request without an address is not refused when one of the gaps admits it
with its guard pages at the gap's candidate start, provided the alignment is
a power of two and `base` is not `NULL` or the requested alignment is at most a
page, so that the first candidate is not `NULL`. -/
theorem reservedApertureAllocateAligned_ne_zero {app : Aperture} {size align : UInt64} {k : Nat}
    (hareas : AreasFrom app.base.toNat app.vmRanges) (hbase : 0 < app.base.toNat ∨ align ≤ pageSize)
    (hk : (allocAlign app size align).toNat = 2 ^ k) (hsize : 0 < size.toNat)
    (hadm : ∃ g ∈ requestGaps pageSize app size align, g.Admits (requestBytes pageSize app size)) :
    (reservedApertureAllocateAligned pageSize app 0 size align).2 ≠ 0 := by
  obtain ⟨g, hg, hgadm⟩ := hadm
  have hstart : alignUp app.base (allocAlign app size align) + allocOffset pageSize app size align =
      alignUp (UInt64.ofNat app.base.toNat) (allocAlign app size align) +
        allocOffset pageSize app size align := by
    rw [UInt64.ofNat_toNat]
  have hfirst : 0 < app.base.toNat ∨ 0 < (allocOffset pageSize app size align).toNat :=
    hbase.imp_right (allocOffset_pos pageSize hk)
  -- the candidate of the gap is not `NULL` and the gap ends by `2 ^ 64`, so the
  -- request and its guard pages fit in a word
  obtain ⟨hle, hgstart, hbound⟩ := gapsFrom_spec hareas hstart g hg
  have hgpos : 0 < g.start.toNat :=
    candidate_pos hk (hfirst.imp_left fun h => by omega) hgstart hgadm.1
  have hbytes : requestBytes pageSize app size < 2 ^ 64 := by
    have := hgadm.2
    omega
  have hsize' := vmAlignAreaSize_toNat pageSize hbytes
  have hpos : 0 < (vmAlignAreaSize pageSize app size).toNat := by
    rw [hsize']
    unfold requestBytes
    omega
  have hserved : Served app.limit (vmAlignAreaSize pageSize app size)
      (holeSearchFromBase pageSize app size align) :=
    holeSearch_served hk (allocOffset_toNat_le pageSize hk) hpos none 0 hfirst hareas hstart
      ⟨g, hg, hsize' ▸ hgadm⟩
  rw [reservedApertureAllocateAligned_snd_zero, if_neg hserved.2]
  exact hserved.1

theorem reservedApertureAllocateAligned_placement (app : Aperture) (size align : UInt64)
    (hareas : AreasFrom app.base.toNat app.vmRanges) (hbase : 0 < app.base.toNat ∨ align ≤ pageSize)
    (happ : app.align = 0 ∨ app.align.toNat.isPowerOfTwo) (halign : align.toNat.isPowerOfTwo)
    (hsize : 0 < size.toNat) :
    ((reservedApertureAllocateAligned pageSize app 0 size align).2 ≠ 0 →
      if align ≤ pageSize then
        ((reservedApertureAllocateAligned pageSize app 0 size align).2.toNat + size.toNat) %
          (allocAlign app size align).toNat = 0
      else
        (reservedApertureAllocateAligned pageSize app 0 size align).2.toNat %
          (allocAlign app size align).toNat = 0) ∧
    ((reservedApertureAllocateAligned pageSize app 0 size align).2 = 0 →
      ∀ g ∈ requestGaps pageSize app size align, ¬ g.Admits (requestBytes pageSize app size)) := by
  obtain ⟨k, hk⟩ := allocAlign_isPowerOfTwo size happ halign
  constructor
  · intro hne
    obtain ⟨x, hx⟩ := reservedApertureAllocateAligned_eq_candidate pageSize hne
    rw [hx, hk]
    unfold allocOffset
    split_ifs
    · exact alignUp_add_offset_end hk
    · simpa using alignUp_toNat_mod hk
  · intro hnull g hg hadm
    exact reservedApertureAllocateAligned_ne_zero pageSize hareas hbase hk hsize ⟨g, hg, hadm⟩ hnull

/-- An aperture at `0x10000` whose first two pages are taken: a one-page request
with one guard page goes to `0x13000`, its end on a page boundary. -/
theorem reservedApertureAllocateAligned_placement_one_area :
    AreasFrom (0x10000 : UInt64).toNat [⟨0x10000, 0x11FFF⟩] ∧
      (reservedApertureAllocateAligned 0x1000 ⟨0x10000, 0x1FFFF, 0x1000, 1, [⟨0x10000, 0x11FFF⟩]⟩
        0 0x1000 0x1000).2 = 0x13000 ∧
      (((reservedApertureAllocateAligned 0x1000 ⟨0x10000, 0x1FFFF, 0x1000, 1, [⟨0x10000, 0x11FFF⟩]⟩
          0 0x1000 0x1000).2 ≠ 0 →
        if (0x1000 : UInt64) ≤ 0x1000 then
          ((reservedApertureAllocateAligned 0x1000
              ⟨0x10000, 0x1FFFF, 0x1000, 1, [⟨0x10000, 0x11FFF⟩]⟩ 0 0x1000 0x1000).2.toNat +
            (0x1000 : UInt64).toNat) %
            (allocAlign ⟨0x10000, 0x1FFFF, 0x1000, 1, [⟨0x10000, 0x11FFF⟩]⟩ 0x1000 0x1000).toNat = 0
        else
          (reservedApertureAllocateAligned 0x1000
              ⟨0x10000, 0x1FFFF, 0x1000, 1, [⟨0x10000, 0x11FFF⟩]⟩ 0 0x1000 0x1000).2.toNat %
            (allocAlign ⟨0x10000, 0x1FFFF, 0x1000, 1, [⟨0x10000, 0x11FFF⟩]⟩ 0x1000 0x1000).toNat = 0) ∧
      ((reservedApertureAllocateAligned 0x1000 ⟨0x10000, 0x1FFFF, 0x1000, 1, [⟨0x10000, 0x11FFF⟩]⟩
          0 0x1000 0x1000).2 = 0 →
        ∀ g ∈ requestGaps 0x1000 ⟨0x10000, 0x1FFFF, 0x1000, 1, [⟨0x10000, 0x11FFF⟩]⟩ 0x1000 0x1000,
          ¬ g.Admits (requestBytes 0x1000 ⟨0x10000, 0x1FFFF, 0x1000, 1, [⟨0x10000, 0x11FFF⟩]⟩ 0x1000))) :=
  ⟨by decide, by decide,
    reservedApertureAllocateAligned_placement 0x1000 ⟨0x10000, 0x1FFFF, 0x1000, 1, [⟨0x10000, 0x11FFF⟩]⟩
      0x1000 0x1000 (by decide) (Or.inl (by decide)) (Or.inr ⟨12, by decide⟩) ⟨12, by decide⟩
      (by decide)⟩

end Fmm
