import Mathlib
import Rocr.Kmt.Aperture
import Rocr.Lib.Intervals

/-!
# Runs of a reserved aperture

`reserved_aperture_allocate_aligned` and `reserved_aperture_release` are the
only writers of a reserved aperture's `vm_ranges`; every caller in `fmm.c`
takes `fmm_mutex` around them and releases only what an allocation returned,
with the size it asked for.  This file follows the aperture through any
sequence of such calls (`Reachable`) and proves what the list is for:

1.  `vm_ranges` stays sorted, and its areas cover exactly the addresses of the
    live allocations with their guard pages, each allocation inside one area
    (`Tracks`, `Reachable.tracks`).
2.  A request is either refused, with the aperture unchanged and `NULL`
    returned, or served at a start whose range overlaps no live allocation; a
    request for a fixed address is served there.
3.  Releasing what an allocation just returned gives back the aperture as it
    was, list and all.

The hole search is specified once as a split of the list into the areas passed
and the rest (`holeSearch_spec`); a served request then puts its range into the
gap (`Placed`), and a release takes the range out of the one area holding it,
leaving the pieces `Intervals.cut` describes (`reservedApertureRelease_cut`).
Addresses are compared as numbers through `Area.toNat`; the hypotheses of a
request (`Request`) are what keeps the `uint64_t` arithmetic of the call from
wrapping.
-/

namespace Fmm

open Intervals Word

variable (pageSize : UInt64)

/-- An area as the interval of addresses it holds. -/
def Area.toNat (a : Area) : Nat × Nat := (a.start.toNat, a.last.toNat)

@[simp] theorem Area.toNat_fst (a : Area) : a.toNat.1 = a.start.toNat := rfl

@[simp] theorem Area.toNat_snd (a : Area) : a.toNat.2 = a.last.toNat := rfl

/-- The areas of `vm_ranges` as intervals of addresses. -/
def ranges (app : Aperture) : List (Nat × Nat) := app.vmRanges.map Area.toNat

/-- The addresses an allocation `(start, size)` holds with its guard pages. -/
def Holds (app : Aperture) (r : UInt64 × UInt64) (x : Nat) : Prop :=
  r.1.toNat ≤ x ∧ x < r.1.toNat + requestBytes pageSize app r.2

/-- **The invariant of a reserved aperture** with the allocations `live`
(start and size, as returned and as asked for).  `vm_ranges` is sorted, its
areas cover exactly the addresses the live allocations hold with their guard
pages, each allocation lies inside one area, and no two live allocations
share an address.  `base` is not `NULL` and `align` is a power of two, as
`fmm_init_process_apertures` sets them up. -/
structure Tracks (app : Aperture) (live : List (UInt64 × UInt64)) : Prop where
  base_pos : 0 < app.base.toNat
  align_pow : app.align.toNat.isPowerOfTwo
  sorted : SortedFrom 0 (ranges app)
  covers : ∀ x, Covers (ranges app) x ↔ ∃ r ∈ live, Holds pageSize app r x
  inside : ∀ r ∈ live, Inside (ranges app) r.1.toNat (r.1.toNat + requestBytes pageSize app r.2)
  bytes_pos : ∀ r ∈ live, 0 < requestBytes pageSize app r.2
  no_wrap : ∀ r ∈ live, r.1.toNat + requestBytes pageSize app r.2 < 2 ^ 64
  disjoint : live.Pairwise fun r q => ∀ x, Holds pageSize app r x → ¬ Holds pageSize app q x

/-- The highest address the aperture has handed out, or `base`. -/
def topOf (app : Aperture) : Nat :=
  app.vmRanges.foldr (fun a m => max a.last.toNat m) app.base.toNat

/-- The hole search `reserved_aperture_allocate_aligned` runs for a request,
from `address` or from the first candidate above `base`. -/
def allocSearch (app : Aperture) (address size align : UInt64) : Option Area × Nat × Bool × UInt64 :=
  holeSearch address (vmAlignAreaSize pageSize app size) (allocAlign app size align)
    (allocOffset pageSize app size align) none
    (if address ≠ 0 then address
      else alignUp app.base (allocAlign app size align) + allocOffset pageSize app size align)
    0 app.vmRanges

/-- What a caller passes `reserved_aperture_allocate_aligned`: a request that
takes at least a byte with its guard pages, an alignment that is `0` (the
aperture's own) or a power of two, and an aperture and address far enough
below `2 ^ 64` that no candidate start or end the call computes wraps. -/
structure Request (app : Aperture) (address size align : UInt64) : Prop where
  bytes_pos : 0 < requestBytes pageSize app size
  align_pow : align = 0 ∨ align.toNat.isPowerOfTwo
  no_wrap : max (topOf app) address.toNat + 2 * (allocAlign app size align).toNat +
    requestBytes pageSize app size < 2 ^ 64

theorem le_topOf_of_mem {app : Aperture} {a : Area} (ha : a ∈ app.vmRanges) : a.last.toNat ≤ topOf app := by
  obtain ⟨base, limit, align, guardPages, vmRanges⟩ := app
  unfold topOf
  dsimp only at ha ⊢
  induction vmRanges with
  | nil => cases ha
  | cons b rest ih =>
    simp only [List.foldr_cons]
    rcases List.mem_cons.mp ha with rfl | ha
    · exact le_max_left _ _
    · exact le_max_of_le_right (ih ha)

theorem base_le_topOf (app : Aperture) : app.base.toNat ≤ topOf app := by
  obtain ⟨base, limit, align, guardPages, vmRanges⟩ := app
  unfold topOf
  dsimp only
  induction vmRanges with
  | nil => exact le_rfl
  | cons b rest ih =>
    simp only [List.foldr_cons]
    exact le_max_of_le_right ih

/-- With the aperture's alignment a power of two, a request asking for none
or for a power of two is placed with a power of two. -/
theorem allocAlign_isPowerOfTwo_of_app {app : Aperture} (size : UInt64) {align : UInt64}
    (happ : app.align.toNat.isPowerOfTwo) (halign : align = 0 ∨ align.toNat.isPowerOfTwo) :
    (allocAlign app size align).toNat.isPowerOfTwo := by
  rcases halign with rfl | halign
  · -- `0` is below any power of two, so the aperture's alignment is taken
    apply growAlign_isPowerOfTwo
    obtain ⟨k, hk⟩ := happ
    have hpos : (0 : UInt64) < app.align := UInt64.lt_iff_toNat_lt.2 (by simp [hk])
    rw [if_pos hpos]
    exact ⟨k, hk⟩
  · exact allocAlign_isPowerOfTwo size (Or.inr happ) halign

section Candidate

variable {x align offset : UInt64} {k : Nat}

/-- `ALIGN_UP` to a power of two rounds up when it does not wrap. -/
theorem alignUp_toNat_of_le (hk : align.toNat = 2 ^ k) (hx : x.toNat + 2 ^ k ≤ 2 ^ 64) :
    (alignUp x align).toNat = roundUp x.toNat (2 ^ k) := by
  have hup := roundUp_le x.toNat (2 ^ k)
  have hpos := Nat.one_le_two_pow (n := k)
  rw [alignUp_toNat hk, Nat.mod_eq_of_lt (by omega)]

/-- A candidate start `ALIGN_UP(x, align) + offset` with an offset of at most
`align` lies in `[x, x + 2 * align)` when that stays below `2 ^ 64`. -/
theorem candidate_bounds (hk : align.toNat = 2 ^ k) (hoff : offset.toNat ≤ 2 ^ k)
    (hx : x.toNat + 2 * 2 ^ k ≤ 2 ^ 64) :
    x.toNat ≤ (alignUp x align + offset).toNat ∧ (alignUp x align + offset).toNat < x.toNat + 2 * 2 ^ k := by
  have hup := alignUp_toNat_of_le (x := x) hk (by omega)
  have hge := le_roundUp x.toNat (Nat.two_pow_pos k)
  have hle := roundUp_le x.toNat (2 ^ k)
  have hpos := Nat.one_le_two_pow (n := k)
  have hsum : roundUp x.toNat (2 ^ k) + offset.toNat < 2 ^ 64 := by omega
  rw [UInt64.toNat_add, hup, Nat.mod_eq_of_lt hsum]
  omega

end Candidate

theorem toNat_add_one_of_eq {a b : UInt64} (h : a + 1 = b) (hb : 0 < b.toNat) : a.toNat + 1 = b.toNat := by
  have ha := UInt64.toNat_lt a
  rw [← h, UInt64.toNat_add, UInt64.toNat_one] at hb ⊢
  by_cases hmax : a.toNat + 1 < 2 ^ 64
  · rw [Nat.mod_eq_of_lt hmax]
  · rw [show a.toNat + 1 = 2 ^ 64 by omega, Nat.mod_self] at hb
    omega

/-- The last address of a range of `bytes` bytes at `start` that fits below `2 ^ 64`. -/
theorem last_toNat {start size : UInt64} {bytes : Nat} (hsize : size.toNat = bytes) (hpos : 0 < bytes)
    (hwrap : start.toNat + bytes < 2 ^ 64) : (start + (size - 1)).toNat + 1 = start.toNat + bytes := by
  have hle : (1 : UInt64) ≤ size := UInt64.le_iff_toNat_le.2 (by simp; omega)
  rw [UInt64.toNat_add, UInt64.toNat_sub_of_le _ _ hle, UInt64.toNat_one, hsize, Nat.mod_eq_of_lt (by omega)]
  omega

/-! ## The hole search -/

section Search

variable {address size align offset : UInt64}

/-- **Where the hole search stops.**  It has passed the areas `pre` and stands
before the rest `post`: its position is the count of `pre`, its `cur` the last
of them, and the first of `post`, if any, begins above the start it returns
with room for `size` bytes.  The start is the one it was given while nothing
was passed, and after an area `c` the candidate from the end of `c` when no
address was asked for.  By induction over the areas, one step per area passed. -/
theorem holeSearch_spec {cur cur' : Option Area} {start start' : UInt64} {i i' : Nat}
    {hasNext : Bool} {rest : List Area}
    (h : holeSearch address size align offset cur start i rest = (cur', i', hasNext, start')) :
    ∃ pre post, rest = pre ++ post ∧ i' = i + pre.length ∧ cur' = pre.getLast?.or cur ∧
      (∀ n ∈ post.head?, n.start > start' ∧ n.start - start' ≥ size) ∧
      (pre = [] → start' = start) ∧
      (∀ c ∈ pre.getLast?, start' = if address = 0 then alignUp (c.last + 1) align + offset else start) := by
  induction rest generalizing cur start i with
  | nil =>
    simp only [holeSearch, Prod.mk.injEq] at h
    obtain ⟨rfl, rfl, -, rfl⟩ := h
    exact ⟨[], [], rfl, rfl, rfl, by simp, fun _ => rfl, by simp⟩
  | cons next rest ih =>
    simp only [holeSearch] at h
    by_cases hfit : next.start > start ∧ next.start - start ≥ size
    · -- the search stops before `next`
      rw [if_pos hfit] at h
      simp only [Prod.mk.injEq] at h
      obtain ⟨rfl, rfl, -, rfl⟩ := h
      exact ⟨[], next :: rest, rfl, rfl, rfl, by simpa using hfit, fun _ => rfl, by simp⟩
    · -- the search passes `next`, with `next` as `cur` and the candidate after it
      rw [if_neg hfit] at h
      obtain ⟨pre, post, rfl, hi, hcur, hpost, hnil, hlast⟩ := ih h
      refine ⟨next :: pre, post, rfl, by simp [hi]; omega, ?_, hpost, by simp, ?_⟩
      · rw [hcur]
        cases pre with
        | nil => simp
        | cons p pre' => simp [List.getLast?_cons]
      · intro c hc
        cases pre with
        | nil =>
          obtain rfl : next = c := by simpa using hc
          exact hnil rfl
        | cons p pre' =>
          have hc' := hlast c (by rwa [List.getLast?_cons_cons] at hc)
          by_cases ha : address = 0 <;> simpa [ha] using hc'

end Search

/-! ## What an allocation does -/

section Allocate

variable {app app' : Aperture} {address size align start : UInt64}

/-- **The outcomes of `reserved_aperture_allocate_aligned`.**  A refusal
returns `NULL` and the aperture as it was.  Otherwise the hole search stopped
at `cur` and position `i`: with no area before the hole the range is inserted
at `i`; after an area `c` that the fixed address does not fall before, `c`
grows over the range when it ends right before it, and the range is inserted
at `i` when it does not. -/
theorem reservedApertureAllocateAligned_cases
    (h : reservedApertureAllocateAligned pageSize app address size align = (app', start)) :
    (start = 0 ∧ app' = app) ∨
      ∃ cur i hasNext, allocSearch pageSize app address size align = (cur, i, hasNext, start) ∧
        ((cur = none ∧ app' = { app with vmRanges := (app.vmRanges.insertIdx i
            ⟨start, start + (vmAlignAreaSize pageSize app size - 1)⟩) }) ∨
          ∃ c, cur = some c ∧ ¬ (address ≠ 0 ∧ address < alignUp (c.last + 1) (allocAlign app size align)) ∧
            ((c.last + 1 = start ∧ app' = { app with vmRanges := (app.vmRanges.set (i - 1)
                { c with last := start + (vmAlignAreaSize pageSize app size - 1) }) }) ∨
              (c.last + 1 ≠ start ∧ app' = { app with vmRanges := (app.vmRanges.insertIdx i
                ⟨start, start + (vmAlignAreaSize pageSize app size - 1)⟩) }))) := by
  rcases hs : allocSearch pageSize app address size align with ⟨cur, i, hasNext, start'⟩
  simp only [allocSearch, allocAlign, allocOffset] at hs
  simp only [reservedApertureAllocateAligned, hs] at h
  rw [show growAlign size 64 (if align < app.align then app.align else align) = allocAlign app size align
    from rfl] at h
  split_ifs at h with hlimit
  · -- the space after the last area is too small
    simp only [Prod.mk.injEq] at h
    exact Or.inl ⟨h.2.symm, h.1.symm⟩
  · cases cur with
    | none =>
      simp only [Prod.mk.injEq] at h
      obtain ⟨rfl, rfl⟩ := h
      exact Or.inr ⟨none, i, hasNext, rfl, Or.inl ⟨rfl, rfl⟩⟩
    | some c =>
      dsimp only at h
      split_ifs at h with hbefore hadj
      · -- the fixed address lies before the end of `c`
        simp only [Prod.mk.injEq] at h
        exact Or.inl ⟨h.2.symm, h.1.symm⟩
      · simp only [Prod.mk.injEq] at h
        obtain ⟨rfl, rfl⟩ := h
        exact Or.inr ⟨some c, i, hasNext, rfl, Or.inr ⟨c, rfl, hbefore, Or.inl ⟨hadj, rfl⟩⟩⟩
      · simp only [Prod.mk.injEq] at h
        obtain ⟨rfl, rfl⟩ := h
        exact Or.inr ⟨some c, i, hasNext, rfl, Or.inr ⟨c, rfl, hbefore, Or.inr ⟨hadj, rfl⟩⟩⟩

/-- How a served request changes `vm_ranges`: the areas `pre` before the hole
end below `start` and those after it begin above `last`; the range
`[start, last]` becomes an area between them, or the end of the last area of
`pre` when that one ends right before `start`. -/
inductive Placed (app : Aperture) (start last : UInt64) : Aperture → Prop
  | insert (pre post : List Area) : app.vmRanges = pre ++ post →
      (∀ c ∈ pre.getLast?, c.last.toNat < start.toNat) → (∀ n ∈ post.head?, last.toNat < n.start.toNat) →
      Placed app start last { app with vmRanges := pre ++ ⟨start, last⟩ :: post }
  | extend (pre post : List Area) (c : Area) : app.vmRanges = pre ++ c :: post → c.last + 1 = start →
      (∀ n ∈ post.head?, last.toNat < n.start.toNat) →
      Placed app start last { app with vmRanges := pre ++ { c with last := last } :: post }

/-- **What a request does.**  It is refused with `NULL` and the aperture as it
was, or it is served at a nonzero `start` whose range with its guard pages
fits below `2 ^ 64`, at the fixed address if one was asked for, and the range
is placed into `vm_ranges` between the areas below and above it. -/
theorem reservedApertureAllocateAligned_placed (hbase : 0 < app.base.toNat)
    (happ : app.align.toNat.isPowerOfTwo) (hr : Request pageSize app address size align)
    (h : reservedApertureAllocateAligned pageSize app address size align = (app', start)) :
    (start = 0 ∧ app' = app) ∨
      (0 < start.toNat ∧ start.toNat + requestBytes pageSize app size < 2 ^ 64 ∧
        (address ≠ 0 → start = address) ∧
        Placed app start (start + (vmAlignAreaSize pageSize app size - 1)) app') := by
  rcases reservedApertureAllocateAligned_cases pageSize h with hnull | ⟨cur, i, hasNext, hs, hcases⟩
  · exact Or.inl hnull
  right
  obtain ⟨pre, post, hL, hi, hcur, hfit, hnil, hlast⟩ := holeSearch_spec hs
  rw [Option.or_none] at hcur
  simp only [Nat.zero_add] at hi
  obtain ⟨k, hk⟩ := allocAlign_isPowerOfTwo_of_app size happ hr.align_pow
  have hoff := allocOffset_toNat_le pageSize hk
  have hwrap := hr.no_wrap
  rw [hk] at hwrap
  have hbytes := hr.bytes_pos
  have hS := vmAlignAreaSize_toNat pageSize (show requestBytes pageSize app size < 2 ^ 64 by omega)
  have htop : ∀ c ∈ pre, c.last.toNat ≤ topOf app := fun c hc => le_topOf_of_mem (by rw [hL]; simp [hc])
  have hbtop := base_le_topOf app
  have hc1 : ∀ c ∈ pre, (c.last + 1).toNat = c.last.toNat + 1 := fun c hc => by
    have := htop c hc
    rw [UInt64.toNat_add, UInt64.toNat_one, Nat.mod_eq_of_lt (by omega)]
  -- the start the search returned, and how it lies above the areas passed
  have hstart : 0 < start.toNat ∧ start.toNat + requestBytes pageSize app size < 2 ^ 64 ∧
      (address ≠ 0 → start = address) ∧
      (∀ c ∈ pre.getLast?, ¬ (address ≠ 0 ∧ address < alignUp (c.last + 1) (allocAlign app size align)) →
        c.last.toNat < start.toNat) := by
    by_cases ha : address = 0
    · -- no fixed address: the candidate above `base`, or above the last area passed
      rcases hpre : pre.getLast? with _ | c
      · have hst := hnil (List.getLast?_eq_none_iff.1 hpre)
        rw [if_neg (not_not.2 ha)] at hst
        obtain ⟨hlo, hhi⟩ := candidate_bounds (x := app.base) hk hoff (by omega)
        rw [← hst] at hlo hhi
        exact ⟨by omega, by omega, fun h => absurd ha h, by simp⟩
      · have hc := List.mem_of_getLast? hpre
        have hst := hlast c hpre
        rw [if_pos ha] at hst
        have := htop c hc
        obtain ⟨hlo, hhi⟩ := candidate_bounds (x := c.last + 1) hk hoff (by rw [hc1 c hc]; omega)
        rw [← hst, hc1 c hc] at hlo hhi
        refine ⟨by omega, by omega, fun h => absurd ha h, fun c' hc' _ => ?_⟩
        obtain rfl : c = c' := by simpa using hc'
        omega
    · -- a fixed address: the search keeps it, and the check after `cur` puts it above `cur`
      have hst : start = address := by
        rcases hpre : pre.getLast? with _ | c
        · simpa [ha] using hnil (List.getLast?_eq_none_iff.1 hpre)
        · simpa [ha] using hlast c hpre
      subst hst
      have hpos : 0 < start.toNat := by simpa using UInt64.lt_iff_toNat_lt.1 (UInt64.pos_iff_ne_zero.2 ha)
      refine ⟨hpos, by omega, fun _ => rfl, fun c hc hcheck => ?_⟩
      have hc' := List.mem_of_getLast? hc
      have := htop c hc'
      have hup := alignUp_toNat_of_le (x := c.last + 1) hk (by rw [hc1 c hc']; omega)
      have hge := le_roundUp (c.last + 1).toNat (Nat.two_pow_pos k)
      have habove : alignUp (c.last + 1) (allocAlign app size align) ≤ start := by
        simpa [ha] using hcheck
      rw [UInt64.le_iff_toNat_le, hup] at habove
      rw [hc1 c hc'] at hge habove
      omega
  obtain ⟨hpos, hfits, haddr, hbelow⟩ := hstart
  refine ⟨hpos, hfits, haddr, ?_⟩
  -- the range ends before the first area after the hole
  have hend := last_toNat hS hbytes hfits
  have hpost : ∀ n ∈ post.head?, (start + (vmAlignAreaSize pageSize app size - 1)).toNat < n.start.toNat := by
    intro n hn
    have := (fits_iff start n.start (by omega)).1 (hfit n hn)
    omega
  rcases hcases with ⟨rfl, rfl⟩ | ⟨c, rfl, hcheck, ⟨hadj, rfl⟩ | ⟨hadj, rfl⟩⟩
  · -- nothing passed: the range goes first
    obtain rfl : pre = [] := List.getLast?_eq_none_iff.1 hcur.symm
    rw [hL, hi]
    exact Placed.insert [] post hL (by simp) hpost
  · -- the area before the hole ends right before the range and grows over it
    obtain ⟨pre', rfl⟩ := List.getLast?_eq_some_iff.1 hcur.symm
    have hL' : app.vmRanges = pre' ++ c :: post := by simp [hL]
    rw [hL', hi]
    simpa using Placed.extend pre' post c hL' hadj hpost
  · rw [hL, hi, insertIdx_length_append]
    exact Placed.insert pre post hL (fun c' hc' => hbelow c' hc' (by
      obtain rfl : c = c' := by simpa [← hcur] using hc'
      exact hcheck)) hpost

end Allocate

/-! ## A placement keeps the invariant -/

section Placed

variable {app app' : Aperture} {start last : UInt64}

@[simp] theorem Area.toNat_mk (s l : UInt64) : (Area.mk s l).toNat = (s.toNat, l.toNat) := rfl

@[simp] theorem Area.toNat_with_last (c : Area) (l : UInt64) :
    ({ c with last := l } : Area).toNat = (c.start.toNat, l.toNat) := rfl

@[simp] theorem Area.toNat_with_start (c : Area) (s : UInt64) :
    ({ c with start := s } : Area).toNat = (s.toNat, c.last.toNat) := rfl

@[simp] theorem vmAlignAreaSize_with (app : Aperture) (l : List Area) (size : UInt64) :
    vmAlignAreaSize pageSize { app with vmRanges := l } size = vmAlignAreaSize pageSize app size := rfl

@[simp] theorem ranges_with (app : Aperture) (l : List Area) :
    ranges { app with vmRanges := l } = l.map Area.toNat := rfl

/-- A placement changes nothing but `vm_ranges`. -/
theorem Placed.eq (hp : Placed app start last app') : ∃ l, app' = { app with vmRanges := l } := by
  cases hp with
  | insert pre post => exact ⟨_, rfl⟩
  | extend pre post c => exact ⟨_, rfl⟩

theorem Placed.sorted (hp : Placed app start last app') (hs : SortedFrom 0 (ranges app))
    (hstart : 0 < start.toNat) (hle : start.toNat ≤ last.toNat) : SortedFrom 0 (ranges app') := by
  cases hp with
  | insert pre post hL hpre hpost =>
    rw [ranges, hL, List.map_append] at hs
    obtain ⟨hpre', hpost'⟩ := sortedFrom_append.mp hs
    rw [ranges_with, List.map_append, List.map_cons]
    exact sortedFrom_insert hpre' hpost' (next_le (Nat.zero_le _) (by simpa using hpre)) hle
      (by simpa using hpost)
  | extend pre post c hL hadj hpost =>
    have hc := toNat_add_one_of_eq hadj hstart
    rw [ranges, hL, List.map_append, List.map_cons] at hs
    obtain ⟨hpre', hb, hcs, hpost'⟩ := sortedFrom_append.mp hs
    rw [ranges_with, List.map_append, List.map_cons, Area.toNat_with_last]
    exact sortedFrom_insert hpre' hpost' hb (by simp at hcs ⊢; omega) (by simpa using hpost)

/-- A placement adds exactly the range to the cover. -/
theorem Placed.covers (hp : Placed app start last app') (hs : SortedFrom 0 (ranges app))
    (hstart : 0 < start.toNat) (hle : start.toNat ≤ last.toNat) (x : Nat) :
    Covers (ranges app') x ↔ Covers (ranges app) x ∨ (start.toNat ≤ x ∧ x ≤ last.toNat) := by
  cases hp with
  | insert pre post hL _ _ =>
    rw [ranges_with, ranges, hL, List.map_append, List.map_append, List.map_cons]
    exact covers_insert
  | extend pre post c hL hadj _ =>
    have hc := toNat_add_one_of_eq hadj hstart
    rw [ranges, hL] at hs
    rw [ranges_with, ranges, hL]
    have hcs := (hs.le_of_mem (i := c.toNat) (by simp)).2
    have hgrow : Covers (pre.map Area.toNat ++ (c.toNat.1, last.toNat) :: post.map Area.toNat) x ↔
        Covers (pre.map Area.toNat ++ c.toNat :: post.map Area.toNat) x ∨
          (c.toNat.2 + 1 ≤ x ∧ x ≤ last.toNat) := covers_grow hcs (by simp; omega)
    simp only [Area.toNat_fst, Area.toNat_snd, hc] at hgrow
    simpa using hgrow

/-- The range a placement takes was covered by no area before. -/
theorem Placed.fresh (hp : Placed app start last app') (hs : SortedFrom 0 (ranges app))
    (hstart : 0 < start.toNat) {x : Nat} (hx : start.toNat ≤ x) (hxl : x ≤ last.toNat) :
    ¬ Covers (ranges app) x := by
  cases hp with
  | insert pre post hL hpre hpost =>
    rw [ranges, hL, List.map_append] at hs ⊢
    exact hs.not_covers_gap (le_trans (next_le (Nat.zero_le _) (by simpa using hpre)) hx)
      (by simpa using hpost) hxl
  | extend pre post c hL hadj hpost =>
    have hc := toNat_add_one_of_eq hadj hstart
    have hsplit : (pre ++ c :: post).map Area.toNat =
        (pre.map Area.toNat ++ [c.toNat]) ++ post.map Area.toNat := by simp
    rw [ranges, hL, hsplit] at hs ⊢
    exact hs.not_covers_gap (by simp; omega) (by simpa using hpost) hxl

/-- The range lies inside one area after the placement. -/
theorem Placed.inside_new (hp : Placed app start last app') (hs : SortedFrom 0 (ranges app))
    (hstart : 0 < start.toNat) : Inside (ranges app') start.toNat (last.toNat + 1) := by
  cases hp with
  | insert pre post _ _ _ => exact ⟨(start.toNat, last.toNat), by simp, le_rfl, le_rfl⟩
  | extend pre post c hL hadj _ =>
    have hc := toNat_add_one_of_eq hadj hstart
    rw [ranges, hL] at hs
    have hcs := (hs.le_of_mem (i := c.toNat) (by simp)).2
    exact ⟨(c.start.toNat, last.toNat), by simp, by simp at hcs; omega, le_rfl⟩

/-- What lay inside one area still does after a placement. -/
theorem Placed.inside_old (hp : Placed app start last app') (hstart : 0 < start.toNat)
    (hle : start.toNat ≤ last.toNat) {lo hi : Nat} (h : Inside (ranges app) lo hi) :
    Inside (ranges app') lo hi := by
  cases hp with
  | insert pre post hL _ _ =>
    rw [ranges, hL, List.map_append] at h
    rw [ranges_with, List.map_append, List.map_cons]
    exact h.insert _
  | extend pre post c hL hadj _ =>
    have hc := toNat_add_one_of_eq hadj hstart
    rw [ranges, hL, List.map_append, List.map_cons] at h
    rw [ranges_with, List.map_append, List.map_cons]
    exact h.grow (by simp) (by simp; omega)

variable {live : List (UInt64 × UInt64)} {size : UInt64}

/-- **A served request keeps the invariant**, with its range live. -/
theorem Tracks.placed (ht : Tracks pageSize app live) (hp : Placed app start last app')
    (hstart : 0 < start.toNat) (hpos : 0 < requestBytes pageSize app size)
    (hwrap : start.toNat + requestBytes pageSize app size < 2 ^ 64)
    (hlast : last.toNat + 1 = start.toNat + requestBytes pageSize app size) :
    Tracks pageSize app' ((start, size) :: live) := by
  obtain ⟨l, rfl⟩ := hp.eq
  have hle : start.toNat ≤ last.toNat := by omega
  -- the guard pages, and so what an allocation holds, are those of `app`
  have hbytes : ∀ s, requestBytes pageSize { app with vmRanges := l } s = requestBytes pageSize app s :=
    fun _ => rfl
  have hnew : ∀ x, Holds pageSize { app with vmRanges := l } (start, size) x ↔
      start.toNat ≤ x ∧ x ≤ last.toNat := by
    intro x
    simp only [Holds, hbytes]
    omega
  refine ⟨ht.base_pos, ht.align_pow, hp.sorted ht.sorted hstart hle, fun x => ?_, ?_, ?_, ?_, ?_⟩
  · rw [hp.covers ht.sorted hstart hle x, ht.covers x]
    simp only [List.mem_cons, exists_eq_or_imp, hnew]
    exact or_comm
  · intro r hr
    rcases List.mem_cons.mp hr with rfl | hr
    · rw [hbytes, ← hlast]
      exact hp.inside_new ht.sorted hstart
    · exact hp.inside_old hstart hle (ht.inside r hr)
  · intro r hr
    rcases List.mem_cons.mp hr with rfl | hr
    · exact hpos
    · exact ht.bytes_pos r hr
  · intro r hr
    rcases List.mem_cons.mp hr with rfl | hr
    · exact hwrap
    · exact ht.no_wrap r hr
  · refine List.pairwise_cons.2 ⟨fun q hq x hx hqx => ?_, ht.disjoint⟩
    have hx' := (hnew x).1 hx
    exact hp.fresh ht.sorted hstart hx'.1 hx'.2 ((ht.covers x).2 ⟨q, hq, hqx⟩)

end Placed

/-! ## What a release does -/

section Release

variable {app : Aperture} {live : List (UInt64 × UInt64)} {address size : UInt64}

/-- Every area of a tracked aperture ends below `2 ^ 64 - 1`: its last address
is held by a live allocation, which fits below `2 ^ 64`. -/
theorem Tracks.last_lt (ht : Tracks pageSize app live) {a : Area} (ha : a ∈ app.vmRanges) :
    a.last.toNat + 1 < 2 ^ 64 := by
  have hmem : a.toNat ∈ ranges app := List.mem_map_of_mem ha
  have hle := (ht.sorted.le_of_mem hmem).2
  obtain ⟨r, hr, hx⟩ := (ht.covers a.last.toNat).1 ⟨a.toNat, hmem, hle, le_rfl⟩
  have := ht.no_wrap r hr
  unfold Holds at hx
  omega

/-- `vm_find` returns the position of an area holding `address`. -/
theorem vmFind_some {areas : List Area} {k : Nat} (h : vmFind areas address = some k) :
    ∃ hk : k < areas.length, areas[k].start ≤ address ∧ address ≤ areas[k].last := by
  obtain ⟨hk, hp, -⟩ := List.findIdx?_eq_some_iff_getElem.1 h
  exact ⟨hk, by simpa using hp⟩

/-- `vm_find` finds an area whenever one holds `address`. -/
theorem vmFind_isSome {areas : List Area} (h : ∃ a ∈ areas, a.start ≤ address ∧ address ≤ a.last) :
    ∃ k, vmFind areas address = some k := by
  cases hf : vmFind areas address with
  | some k => exact ⟨k, rfl⟩
  | none =>
    obtain ⟨a, ha, h1, h2⟩ := h
    have := List.findIdx?_eq_none_iff.1 hf a ha
    simp [h1, h2] at this

/-- **The area a release works on.**  `vm_find` returns for the start of a
live allocation the area the allocation lies in: some area holds it, and the
areas of a sorted list are disjoint. -/
theorem Tracks.vmFind_live (ht : Tracks pageSize app live) (hr : (address, size) ∈ live) :
    ∃ k, ∃ hk : k < app.vmRanges.length, vmFind app.vmRanges address = some k ∧
      app.vmRanges[k].start.toNat ≤ address.toNat ∧
      address.toNat + requestBytes pageSize app size ≤ app.vmRanges[k].last.toNat + 1 := by
  obtain ⟨b, hb, hlo, hhi⟩ := ht.inside _ hr
  have hpos : 0 < requestBytes pageSize app size := ht.bytes_pos _ hr
  obtain ⟨a, ha, rfl⟩ := List.mem_map.1 hb
  simp only [Area.toNat_fst, Area.toNat_snd] at hlo hhi
  obtain ⟨k, hfind⟩ := vmFind_isSome ⟨a, ha, UInt64.le_iff_toNat_le.2 hlo,
    UInt64.le_iff_toNat_le.2 (by omega)⟩
  obtain ⟨hk, hks, hkl⟩ := vmFind_some hfind
  rw [UInt64.le_iff_toNat_le] at hks hkl
  refine ⟨k, hk, hfind, ?_⟩
  -- the area found and `a` both hold `address`: they are the same area
  have hsplit := take_append_cons app.vmRanges hk
  have hs := ht.sorted
  rw [ranges, hsplit, List.map_append, List.map_cons] at hs
  rw [hsplit] at ha
  rcases List.mem_append.1 ha with hpre | hmid
  · exact absurd ⟨a.toNat, List.mem_map_of_mem hpre, hlo, by simp; omega⟩
      (hs.not_covers_pre (x := address.toNat) (by simpa using hks))
  · rcases List.mem_cons.1 hmid with rfl | hpost
    · exact ⟨hlo, hhi⟩
    · exact absurd ⟨a.toNat, List.mem_map_of_mem hpost, hlo, by simp; omega⟩
        (hs.not_covers_post (x := address.toNat) (by simpa using hkl))

/-- **What a release does** to a tracked aperture: the area holding the range
of a live allocation is replaced by the pieces `cut` leaves of it, which are
nothing, the area shrunk from either end, or the two parts around the range. -/
theorem reservedApertureRelease_cut (ht : Tracks pageSize app live) (hr : (address, size) ∈ live) :
    ∃ pre a post l, app.vmRanges = pre ++ a :: post ∧
      reservedApertureRelease pageSize app address size = { app with vmRanges := l } ∧
      l.map Area.toNat = pre.map Area.toNat ++
        (cut a.toNat address.toNat (address.toNat + requestBytes pageSize app size - 1) ++
          post.map Area.toNat) ∧
      a.start.toNat ≤ address.toNat ∧
      address.toNat + requestBytes pageSize app size ≤ a.last.toNat + 1 := by
  obtain ⟨k, hk, hfind, hlo, hhi⟩ := ht.vmFind_live pageSize hr
  have hpos : 0 < requestBytes pageSize app size := ht.bytes_pos _ hr
  have hwrap : address.toNat + requestBytes pageSize app size < 2 ^ 64 := ht.no_wrap _ hr
  have hS := vmAlignAreaSize_toNat pageSize (show requestBytes pageSize app size < 2 ^ 64 by omega)
  have hlast := ht.last_lt pageSize (List.getElem_mem hk)
  have hget : app.vmRanges[k]? = some app.vmRanges[k] := List.getElem?_eq_getElem hk
  obtain ⟨pre, post, hL, hlen⟩ : ∃ pre post, app.vmRanges = pre ++ app.vmRanges[k] :: post ∧
      pre.length = k := ⟨_, _, take_append_cons app.vmRanges hk, by simp; omega⟩
  generalize app.vmRanges[k] = a at hlo hhi hlast hget hL
  subst hlen
  -- the sizes the call compares, as numbers
  have hsa : a.start ≤ a.last := UInt64.le_iff_toNat_le.2 (by omega)
  have hreg : (a.last - a.start + 1).toNat = a.last.toNat - a.start.toNat + 1 := by
    rw [UInt64.toNat_add, UInt64.toNat_sub_of_le _ _ hsa, UInt64.toNat_one, Nat.mod_eq_of_lt (by omega)]
  have htail : (a.last - address + 1).toNat = a.last.toNat - address.toNat + 1 := by
    rw [UInt64.toNat_add, UInt64.toNat_sub_of_le _ _ (UInt64.le_iff_toNat_le.2 (by omega)), UInt64.toNat_one,
      Nat.mod_eq_of_lt (by omega)]
  have hend : (address + vmAlignAreaSize pageSize app size).toNat =
      address.toNat + requestBytes pageSize app size := by
    rw [UInt64.toNat_add, hS, Nat.mod_eq_of_lt hwrap]
  unfold reservedApertureRelease
  simp only [hfind, hget]
  rw [hL]
  refine ⟨pre, a, post, ?_⟩
  split_ifs with hwhole hlarger hfront hback
  · -- the range is the whole area: it is removed
    have h := congrArg UInt64.toNat hwhole
    rw [hreg, hS] at h
    refine ⟨pre ++ post, rfl, by rw [eraseIdx_length_append], ?_, hlo, hhi⟩
    have c1 : ¬ a.start.toNat < address.toNat := by omega
    have c2 : ¬ address.toNat + requestBytes pageSize app size - 1 < a.last.toNat := by omega
    simp [cut, c1, c2]
  · -- the range is the front of the area: the area starts after it
    have hl := UInt64.lt_iff_toNat_lt.1 hlarger
    rw [hreg, hS] at hl
    have hf := congrArg UInt64.toNat hfront
    have hstart : (a.start + vmAlignAreaSize pageSize app size).toNat =
        address.toNat + requestBytes pageSize app size := by rw [hfront, hend]
    refine ⟨pre ++ { a with start := a.start + vmAlignAreaSize pageSize app size } :: post, rfl,
      by simp, ?_, hlo, hhi⟩
    have c1 : ¬ a.start.toNat < address.toNat := by omega
    have c2 : address.toNat + requestBytes pageSize app size - 1 < a.last.toNat := by omega
    have c3 : address.toNat + requestBytes pageSize app size - 1 + 1 =
        address.toNat + requestBytes pageSize app size := by omega
    simp [cut, c1, c2, c3, hstart]
  · -- the range is the back of the area: the area ends before it
    have hl := UInt64.lt_iff_toNat_lt.1 hlarger
    rw [hreg, hS] at hl
    have hf : a.start.toNat ≠ address.toNat := fun h => hfront (UInt64.toNat_inj.1 h)
    have hb := congrArg UInt64.toNat hback
    rw [htail, hS] at hb
    have hlast' : (a.last - vmAlignAreaSize pageSize app size).toNat =
        a.last.toNat - requestBytes pageSize app size := by
      rw [UInt64.toNat_sub_of_le _ _ (UInt64.le_iff_toNat_le.2 (by omega)), hS]
    refine ⟨pre ++ { a with last := a.last - vmAlignAreaSize pageSize app size } :: post, rfl,
      by simp, ?_, hlo, hhi⟩
    have c1 : a.start.toNat < address.toNat := by omega
    have c2 : ¬ address.toNat + requestBytes pageSize app size - 1 < a.last.toNat := by omega
    have c3 : a.last.toNat - requestBytes pageSize app size = address.toNat - 1 := by omega
    simp [cut, c1, c2, c3, hlast']
  · -- the range is inside the area: the area is split around it
    have hl := UInt64.lt_iff_toNat_lt.1 hlarger
    rw [hreg, hS] at hl
    have hf : a.start.toNat ≠ address.toNat := fun h => hfront (UInt64.toNat_inj.1 h)
    have hb : a.last.toNat - address.toNat + 1 ≠ requestBytes pageSize app size := by
      rw [← htail, ← hS]
      exact fun h => hback (UInt64.toNat_inj.1 h)
    have hbefore : (address - 1).toNat = address.toNat - 1 := by
      rw [UInt64.toNat_sub_of_le _ _ (UInt64.le_iff_toNat_le.2 (by simp; omega)), UInt64.toNat_one]
    refine ⟨pre ++ { a with last := address - 1 } ::
        ⟨address + vmAlignAreaSize pageSize app size, a.last⟩ :: post, rfl, ?_, ?_, hlo, hhi⟩
    · simp only [List.set_append_right, le_refl, Nat.sub_self, List.set_cons_zero]
      rw [insertIdx_succ_length_append]
    · have c1 : a.start.toNat < address.toNat := by omega
      have c2 : address.toNat + requestBytes pageSize app size - 1 < a.last.toNat := by omega
      have c3 : address.toNat + requestBytes pageSize app size - 1 + 1 =
          address.toNat + requestBytes pageSize app size := by omega
      simp [cut, c1, c2, c3, hbefore, hend]
  · -- a live allocation never outgrows its area
    have hl := UInt64.lt_iff_toNat_lt.1 (UInt64.lt_of_le_of_ne (UInt64.not_lt.1 hlarger) hwhole)
    rw [hreg, hS] at hl
    omega

/-- **A release of a live allocation keeps the invariant**, with the
allocation no longer live. -/
theorem Tracks.release (ht : Tracks pageSize app live) (hr : (address, size) ∈ live) :
    Tracks pageSize (reservedApertureRelease pageSize app address size) (live.erase (address, size)) := by
  obtain ⟨pre, a, post, l, hL, hrel, hl, hlo, hhi⟩ := reservedApertureRelease_cut pageSize ht hr
  rw [hrel]
  have hpos : 0 < requestBytes pageSize app size := ht.bytes_pos _ hr
  have hs := ht.sorted
  rw [ranges, hL, List.map_append, List.map_cons] at hs
  have hb : next 0 (pre.map Area.toNat) ≤ a.start.toNat := (sortedFrom_append.mp hs).2.1
  have ha1 : a.toNat.1 ≤ address.toNat := hlo
  have ha2 : address.toNat + requestBytes pageSize app size - 1 ≤ a.toNat.2 := by
    rw [Area.toNat_snd]
    omega
  have hst : address.toNat ≤ address.toNat + requestBytes pageSize app size - 1 := by omega
  -- the released range is `[s, t]` with `s = address`, `t = address + bytes - 1`
  have hheld : ∀ x, Holds pageSize app (address, size) x ↔
      address.toNat ≤ x ∧ x ≤ address.toNat + requestBytes pageSize app size - 1 := by
    intro x
    dsimp only [Holds]
    omega
  have hcut := sortedFrom_cut hb ha1 hst ha2
  refine ⟨ht.base_pos, ht.align_pow, ?_, fun x => ?_, fun q hq => ?_,
    fun q hq => ht.bytes_pos q (List.mem_of_mem_erase hq), fun q hq => ht.no_wrap q (List.mem_of_mem_erase hq),
    ht.disjoint.sublist List.erase_sublist⟩
  · rw [ranges_with, hl]
    exact sortedFrom_replace hs hcut.1 hcut.2
  · -- the cover loses exactly the range, which no other live allocation holds
    rw [ranges_with, hl, covers_replace hs ha1 ha2 fun y => covers_cut ha1 hst ha2,
      ← List.map_cons, ← List.map_append, ← hL, ← ranges, ht.covers x, ← hheld]
    exact (exists_mem_erase_iff ht.disjoint hr x).symm
  · -- another allocation lies in its area on one side of the range, so in a piece left of it
    have hq' := List.mem_of_mem_erase hq
    have hqpos := ht.bytes_pos q hq'
    have hin := ht.inside q hq'
    rw [ranges, hL, List.map_append, List.map_cons] at hin
    rw [ranges_with, hl]
    refine hin.replace fun hqlo hqhi => inside_cut ha1 ha2 hqlo hqhi (by omega) ?_
    refine le_or_lt_of_disjoint hst (by omega) fun x hx hqx => ?_
    exact apart_of_mem_erase ht.disjoint hr hq x ((hheld x).2 hx) hqx

/-- `vm_find` stops at the first area holding `address`. -/
theorem vmFind_append_cons {pre post : List Area} {a : Area}
    (hpre : ∀ c ∈ pre, ¬ (c.start ≤ address ∧ address ≤ c.last)) (ha : a.start ≤ address ∧ address ≤ a.last) :
    vmFind (pre ++ a :: post) address = some pre.length := by
  unfold vmFind
  rw [List.findIdx?_append, List.findIdx?_eq_none_iff.2 (by simpa using hpre), List.findIdx?_cons]
  simp [ha.1, ha.2]

/-- **Releasing what was just placed gives the aperture back.**  The range
is the first area to hold `start`: a new area is removed whole, and an area
that grew over the range shrinks back to its old end. -/
theorem Placed.release {app app' : Aperture} {start : UInt64}
    (hp : Placed app start (start + (vmAlignAreaSize pageSize app size - 1)) app')
    (hs : SortedFrom 0 (ranges app)) (hstart : 0 < start.toNat) (hpos : 0 < requestBytes pageSize app size)
    (hwrap : start.toNat + requestBytes pageSize app size < 2 ^ 64) :
    reservedApertureRelease pageSize app' start size = app := by
  have hS := vmAlignAreaSize_toNat pageSize (show requestBytes pageSize app size < 2 ^ 64 by omega)
  have hlast := last_toNat hS hpos hwrap
  have hback : start + (vmAlignAreaSize pageSize app size - 1) - start + 1 =
      vmAlignAreaSize pageSize app size := by grind
  -- no area of `app` holds `start`
  have hfresh : ∀ c ∈ app.vmRanges, ¬ (c.start ≤ start ∧ start ≤ c.last) := fun c hc ⟨h1, h2⟩ =>
    hp.fresh hs hstart le_rfl (by omega)
      ⟨c.toNat, List.mem_map_of_mem hc, UInt64.le_iff_toNat_le.1 h1, UInt64.le_iff_toNat_le.1 h2⟩
  cases hp with
  | insert pre post hL _ _ =>
    have hfind : vmFind (pre ++ ⟨start, start + (vmAlignAreaSize pageSize app size - 1)⟩ :: post) start =
        some pre.length :=
      vmFind_append_cons (fun c hc => hfresh c (by simp [hL, hc]))
        ⟨UInt64.le_iff_toNat_le.2 (by dsimp only; omega), UInt64.le_iff_toNat_le.2 (by dsimp only; omega)⟩
    unfold reservedApertureRelease
    simp only [vmAlignAreaSize_with, hfind, List.getElem?_append_right le_rfl, Nat.sub_self,
      List.getElem?_cons_zero, hback, if_true, eraseIdx_length_append]
    rw [← hL]
  | extend pre post c hL hadj _ =>
    have hc := toNat_add_one_of_eq hadj hstart
    have hcs : c.start.toNat ≤ c.last.toNat :=
      (hs.le_of_mem (List.mem_map_of_mem (f := Area.toNat) (by simp [hL] : c ∈ app.vmRanges))).2
    have hfind : vmFind (pre ++ { c with last := start + (vmAlignAreaSize pageSize app size - 1) } :: post)
        start = some pre.length :=
      vmFind_append_cons (fun c' hc' => hfresh c' (by simp [hL, hc']))
        ⟨UInt64.le_iff_toNat_le.2 (by dsimp only; omega), UInt64.le_iff_toNat_le.2 (by dsimp only; omega)⟩
    -- the grown area is larger than the range, starts below it and ends with it
    have hregion : (start + (vmAlignAreaSize pageSize app size - 1) - c.start + 1).toNat =
        start.toNat + requestBytes pageSize app size - c.start.toNat := by
      rw [UInt64.toNat_add, UInt64.toNat_sub_of_le _ _ (UInt64.le_iff_toNat_le.2 (by omega)),
        UInt64.toNat_one, Nat.mod_eq_of_lt (by omega)]
      omega
    have hne : ¬ (start + (vmAlignAreaSize pageSize app size - 1) - c.start + 1 =
        vmAlignAreaSize pageSize app size) := fun h => by
      have := congrArg UInt64.toNat h
      omega
    have hgt : start + (vmAlignAreaSize pageSize app size - 1) - c.start + 1 >
        vmAlignAreaSize pageSize app size := UInt64.lt_iff_toNat_lt.2 (by omega)
    have hfront : ¬ (c.start = start) := fun h => by
      have := congrArg UInt64.toNat h
      omega
    have hshrunk : start + (vmAlignAreaSize pageSize app size - 1) - vmAlignAreaSize pageSize app size =
        c.last := by grind
    unfold reservedApertureRelease
    simp only [vmAlignAreaSize_with, hfind, List.getElem?_append_right le_rfl, Nat.sub_self,
      List.getElem?_cons_zero, if_neg hne, if_pos hgt, if_neg hfront, hback, if_true, hshrunk]
    simp only [List.set_append_right _ _ le_rfl, Nat.sub_self, List.set_cons_zero]
    rw [← hL]

end Release

/-! ## Runs -/

/-- A call a caller holding `fmm_mutex` makes on a reserved aperture. -/
inductive Call where
  | allocate (address size align : UInt64)
  | release (address size : UInt64)
deriving DecidableEq, Repr

/-- The calls `fmm.c` makes: a request as `Request` describes it, and the
release of a live allocation with the size it was asked for. -/
def Call.Ok (app : Aperture) (live : List (UInt64 × UInt64)) : Call → Prop
  | .allocate address size align => Request pageSize app address size align
  | .release address size => (address, size) ∈ live

/-- The aperture after a call, and the allocations then live: one that returns
other than `NULL` is live until it is released. -/
def Call.apply (app : Aperture) (live : List (UInt64 × UInt64)) :
    Call → Aperture × List (UInt64 × UInt64)
  | .allocate address size align =>
      match reservedApertureAllocateAligned pageSize app address size align with
      | (app', start) => (app', if start = 0 then live else (start, size) :: live)
  | .release address size =>
      (reservedApertureRelease pageSize app address size, live.erase (address, size))

/-- The states a reserved aperture reaches from its setup (no area in use,
`base` not `NULL`, `align` a power of two) through the calls `fmm.c` makes. -/
inductive Reachable : Aperture → List (UInt64 × UInt64) → Prop
  | init (app : Aperture) : app.vmRanges = [] → 0 < app.base.toNat → app.align.toNat.isPowerOfTwo →
      Reachable app []
  | step {app : Aperture} {live : List (UInt64 × UInt64)} (c : Call) : Reachable app live →
      c.Ok pageSize app live → Reachable (c.apply pageSize app live).1 (c.apply pageSize app live).2

section Run

variable {app app' : Aperture} {live : List (UInt64 × UInt64)} {address size align start : UInt64}

theorem Tracks.init (hnil : app.vmRanges = []) (hbase : 0 < app.base.toNat)
    (halign : app.align.toNat.isPowerOfTwo) : Tracks pageSize app [] := by
  refine ⟨hbase, halign, by simp [ranges, hnil], fun x => ?_, by simp, by simp, by simp, List.Pairwise.nil⟩
  simp [ranges, hnil]

/-- A request on a tracked aperture keeps the invariant, with what it returns live. -/
theorem Tracks.allocate (ht : Tracks pageSize app live) (hr : Request pageSize app address size align)
    (h : reservedApertureAllocateAligned pageSize app address size align = (app', start)) :
    Tracks pageSize app' (if start = 0 then live else (start, size) :: live) := by
  rcases reservedApertureAllocateAligned_placed pageSize ht.base_pos ht.align_pow hr h with
    ⟨rfl, rfl⟩ | ⟨hpos, hwrap, -, hp⟩
  · exact ht
  · rw [if_neg (ne_zero_of_lt_toNat hpos)]
    have hS := vmAlignAreaSize_toNat pageSize (show requestBytes pageSize app size < 2 ^ 64 by omega)
    exact ht.placed pageSize hp hpos hr.bytes_pos hwrap (last_toNat hS hr.bytes_pos hwrap)

/-- Every call `fmm.c` makes keeps the invariant. -/
theorem Tracks.step (ht : Tracks pageSize app live) (c : Call) (hc : c.Ok pageSize app live) :
    Tracks pageSize (c.apply pageSize app live).1 (c.apply pageSize app live).2 := by
  cases c with
  | allocate address size align =>
    rcases h : reservedApertureAllocateAligned pageSize app address size align with ⟨app', start⟩
    simp only [Call.apply, h]
    exact ht.allocate pageSize hc h
  | release address size => exact ht.release pageSize hc

theorem Reachable.tracks (h : Reachable pageSize app live) : Tracks pageSize app live := by
  induction h with
  | init app hnil hbase halign => exact Tracks.init pageSize hnil hbase halign
  | step c _ hc ih => exact ih.step pageSize c hc

/-- An aperture at `0x10000` with one guard page of `0x1000` bytes, after one
request of a page: the request and its guard page take `[0x11000, 0x12FFF]`. -/
theorem reachable_one_request :
    Reachable 0x1000 ⟨0x10000, 0x1FFFFF, 0x1000, 1, [⟨0x11000, 0x12FFF⟩]⟩ [(0x11000, 0x1000)] := by
  have h : Reachable 0x1000 _ _ := Reachable.step (.allocate 0 0x1000 0)
    (Reachable.init ⟨0x10000, 0x1FFFFF, 0x1000, 1, []⟩ rfl (by decide) ⟨12, by decide⟩)
    ⟨by decide, Or.inl rfl, by decide⟩
  have happly : Call.apply 0x1000 ⟨0x10000, 0x1FFFFF, 0x1000, 1, []⟩ [] (.allocate 0 0x1000 0) =
      (⟨0x10000, 0x1FFFFF, 0x1000, 1, [⟨0x11000, 0x12FFF⟩]⟩, [(0x11000, 0x1000)]) := by decide
  rwa [happly] at h

/-- **In every reachable state `vm_ranges` tracks the live allocations.**
The areas are sorted and disjoint, they cover exactly the addresses the live
allocations hold with their guard pages, each allocation lies inside one area,
and no two live allocations share an address. -/
theorem reachable_vmRanges_exact (h : Reachable pageSize app live) :
    SortedFrom 0 (ranges app) ∧
      (∀ x, Covers (ranges app) x ↔ ∃ r ∈ live, Holds pageSize app r x) ∧
      (∀ r ∈ live, Inside (ranges app) r.1.toNat (r.1.toNat + requestBytes pageSize app r.2)) ∧
      live.Pairwise fun r q => ∀ x, Holds pageSize app r x → ¬ Holds pageSize app q x := by
  have ht := h.tracks
  exact ⟨ht.sorted, ht.covers, ht.inside, ht.disjoint⟩

/-- The aperture of `reachable_one_request` after a second request of a page,
for the fixed address `0x16000`. -/
def twoRequests : Aperture :=
  ⟨0x10000, 0x1FFFFF, 0x1000, 1, [⟨0x11000, 0x12FFF⟩, ⟨0x16000, 0x17FFF⟩]⟩

theorem reachable_two_requests :
    Reachable 0x1000 twoRequests [(0x16000, 0x1000), (0x11000, 0x1000)] := by
  have h := Reachable.step (.allocate 0x16000 0x1000 0) reachable_one_request
    ⟨by decide, Or.inl rfl, by decide⟩
  have happly : Call.apply 0x1000 ⟨0x10000, 0x1FFFFF, 0x1000, 1, [⟨0x11000, 0x12FFF⟩]⟩
      [(0x11000, 0x1000)] (.allocate 0x16000 0x1000 0) =
        (twoRequests, [(0x16000, 0x1000), (0x11000, 0x1000)]) := by decide
  rwa [happly] at h

theorem reachable_vmRanges_exact_two_requests :
    SortedFrom 0 (ranges twoRequests) ∧
      (∀ x, Covers (ranges twoRequests) x ↔
        ∃ r ∈ [((0x16000 : UInt64), (0x1000 : UInt64)), (0x11000, 0x1000)],
          Holds 0x1000 twoRequests r x) ∧
      (∀ r ∈ [((0x16000 : UInt64), (0x1000 : UInt64)), (0x11000, 0x1000)],
        Inside (ranges twoRequests) r.1.toNat (r.1.toNat + requestBytes 0x1000 twoRequests r.2)) ∧
      [((0x16000 : UInt64), (0x1000 : UInt64)), (0x11000, 0x1000)].Pairwise fun r q =>
        ∀ x, Holds 0x1000 twoRequests r x → ¬ Holds 0x1000 twoRequests q x :=
  reachable_vmRanges_exact 0x1000 reachable_two_requests

/-- **A request overlaps nothing live.**  In every reachable state a request
`fmm.c` makes is refused with `NULL` and the aperture unchanged, or it returns
a start other than `NULL`, the address asked for if one was, whose range with
its guard pages holds no address a live allocation holds. -/
theorem reachable_allocate_fresh (hreach : Reachable pageSize app live)
    (hr : Request pageSize app address size align)
    (h : reservedApertureAllocateAligned pageSize app address size align = (app', start)) :
    (start = 0 ∧ app' = app) ∨
      (start ≠ 0 ∧ (address ≠ 0 → start = address) ∧
        ∀ r ∈ live, ∀ x, Holds pageSize app (start, size) x → ¬ Holds pageSize app r x) := by
  have ht := hreach.tracks
  rcases reservedApertureAllocateAligned_placed pageSize ht.base_pos ht.align_pow hr h with
    hnull | ⟨hpos, hwrap, haddr, hp⟩
  · exact Or.inl hnull
  · have hS := vmAlignAreaSize_toNat pageSize (show requestBytes pageSize app size < 2 ^ 64 by omega)
    have ht' := ht.placed pageSize hp hpos hr.bytes_pos hwrap (last_toNat hS hr.bytes_pos hwrap)
    obtain ⟨l, rfl⟩ := hp.eq
    exact Or.inr ⟨ne_zero_of_lt_toNat hpos, haddr, (List.pairwise_cons.1 ht'.disjoint).1⟩

/-- A second request, for the fixed address `0x16000`, is served there. -/
theorem reachable_allocate_fresh_fixed :
    ((0x16000 : UInt64) = 0 ∧
        (⟨0x10000, 0x1FFFFF, 0x1000, 1, [⟨0x11000, 0x12FFF⟩, ⟨0x16000, 0x17FFF⟩]⟩ : Aperture) =
          ⟨0x10000, 0x1FFFFF, 0x1000, 1, [⟨0x11000, 0x12FFF⟩]⟩) ∨
      ((0x16000 : UInt64) ≠ 0 ∧ ((0x16000 : UInt64) ≠ 0 → (0x16000 : UInt64) = 0x16000) ∧
        ∀ r ∈ [((0x11000 : UInt64), (0x1000 : UInt64))], ∀ x,
          Holds 0x1000 ⟨0x10000, 0x1FFFFF, 0x1000, 1, [⟨0x11000, 0x12FFF⟩]⟩ (0x16000, 0x1000) x →
            ¬ Holds 0x1000 ⟨0x10000, 0x1FFFFF, 0x1000, 1, [⟨0x11000, 0x12FFF⟩]⟩ r x) :=
  reachable_allocate_fresh 0x1000 reachable_one_request ⟨by decide, Or.inl rfl, by decide⟩ (by decide)

/-- **Releasing an allocation undoes it.**  In every reachable state, when a
request is served at `start`, releasing `start` with the size asked for gives
back the aperture as it was before the request, `vm_ranges` and all. -/
theorem reachable_release_allocate (hreach : Reachable pageSize app live)
    (hr : Request pageSize app address size align)
    (h : reservedApertureAllocateAligned pageSize app address size align = (app', start))
    (hstart : start ≠ 0) :
    reservedApertureRelease pageSize app' start size = app := by
  have ht := hreach.tracks
  rcases reservedApertureAllocateAligned_placed pageSize ht.base_pos ht.align_pow hr h with
    ⟨rfl, -⟩ | ⟨hpos, hwrap, -, hp⟩
  · exact absurd rfl hstart
  · exact hp.release pageSize ht.sorted hpos hr.bytes_pos hwrap

theorem reachable_release_allocate_fixed :
    reservedApertureRelease 0x1000 ⟨0x10000, 0x1FFFFF, 0x1000, 1, [⟨0x11000, 0x12FFF⟩, ⟨0x16000, 0x17FFF⟩]⟩
      0x16000 0x1000 = ⟨0x10000, 0x1FFFFF, 0x1000, 1, [⟨0x11000, 0x12FFF⟩]⟩ :=
  reachable_release_allocate 0x1000 reachable_one_request ⟨by decide, Or.inl rfl, by decide⟩
    (show reservedApertureAllocateAligned 0x1000 ⟨0x10000, 0x1FFFFF, 0x1000, 1, [⟨0x11000, 0x12FFF⟩]⟩
      0x16000 0x1000 0 =
        (⟨0x10000, 0x1FFFFF, 0x1000, 1, [⟨0x11000, 0x12FFF⟩, ⟨0x16000, 0x17FFF⟩]⟩, 0x16000) by decide)
    (by decide)

/-- **A release frees exactly its range.**  In every reachable state,
releasing a live allocation takes exactly the addresses it held out of the
cover of `vm_ranges`, and every other live allocation stays inside an area. -/
theorem reachable_release_exact (hreach : Reachable pageSize app live) (hr : (address, size) ∈ live) :
    (∀ x, Covers (ranges (reservedApertureRelease pageSize app address size)) x ↔
      Covers (ranges app) x ∧ ¬ Holds pageSize app (address, size) x) ∧
    ∀ q ∈ live.erase (address, size),
      Inside (ranges (reservedApertureRelease pageSize app address size)) q.1.toNat
        (q.1.toNat + requestBytes pageSize app q.2) := by
  have ht := hreach.tracks
  have ht' := ht.release pageSize hr
  obtain ⟨pre, a, post, l, -, hrel, -⟩ := reservedApertureRelease_cut pageSize ht hr
  rw [hrel] at ht' ⊢
  refine ⟨fun x => ?_, ht'.inside⟩
  rw [ht'.covers x, ht.covers x]
  exact exists_mem_erase_iff ht.disjoint hr x

/-- Releasing the first of the two allocations leaves the area of the second. -/
theorem reachable_release_exact_two_requests :
    reservedApertureRelease 0x1000 twoRequests 0x11000 0x1000 =
        ⟨0x10000, 0x1FFFFF, 0x1000, 1, [⟨0x16000, 0x17FFF⟩]⟩ ∧
      (∀ x, Covers (ranges (reservedApertureRelease 0x1000 twoRequests 0x11000 0x1000)) x ↔
        Covers (ranges twoRequests) x ∧ ¬ Holds 0x1000 twoRequests (0x11000, 0x1000) x) ∧
      ∀ q ∈ [((0x16000 : UInt64), (0x1000 : UInt64)), (0x11000, 0x1000)].erase (0x11000, 0x1000),
        Inside (ranges (reservedApertureRelease 0x1000 twoRequests 0x11000 0x1000)) q.1.toNat
          (q.1.toNat + requestBytes 0x1000 twoRequests q.2) :=
  ⟨by decide, reachable_release_exact 0x1000 reachable_two_requests (by simp)⟩

end Run

end Fmm
