import Rocr.Util.Flag

/-!
# The CU mask of an AQL queue

`AqlQueue::SetCUMasking` sets the compute units a queue may run on: the
user's mask of `num_cu_mask_count` bits (all CUs for `0`), combined by AND
with the agent's mask from `HSA_CU_MASK` (`Flag::cu_mask`, none meaning every
CU) and trimmed to the agent's `cu_count` CUs.  It reports
`HSA_STATUS_CU_MASK_REDUCED` when it drops a bit the user set.  On a device
with work group processors a mask must enable CUs in even-aligned pairs, and
the driver call `hsaKmtSetQueueCUMask` is an oracle.

Bit `cu` of a mask is bit `cu % 32` of its dword `cu / 32`, `0` past its
end (`cuBit`).  The mask stored is the user's mask AND the global mask AND
the CUs that exist (`setCUMasking_cuBit`), and a refused call leaves the
stored mask as it was (`setCUMasking_failed_unchanged`); `GetCUMasking`
reads back what was stored (`getCUMasking_setCUMasking`).  The reduced flag,
though, also counts bits of CUs that do not exist: a user mask of all 32
bits on a 16-CU agent whose global mask enables all 16 is reported reduced
(`reduced_without_disabled_cu`).
-/

namespace Aql

/-- The `hsa_status_t` values of `SetCUMasking`. -/
inductive Status where
  | success
  | cuMaskReduced
  | errorInvalidArgument
  | error
deriving DecidableEq, Repr

/-- What `SetCUMasking` reads of its agent: the CU count and the major
version of its ISA. -/
structure Agent where
  cuCount : Nat
  majorVersion : Nat
deriving DecidableEq, Repr

/-- `Flag::cu_mask(gpu_index)`: the dwords `HSA_CU_MASK` installed for the
GPU, none if it names none. -/
def globalMaskOf (cuMask : OrdMap Nat (List Nat)) (gpuIndex : Nat) : List UInt32 :=
  ((cuMask.find? gpuIndex).getD []).map UInt32.ofNat

/-- The user's mask: all ones over the agent's dwords for a count of `0`,
else the `num_cu_mask_count / 32` dwords of `cu_mask`. -/
def userMask (numCuMaskCount : Nat) (cuMask : List UInt32) (maskDwords : Nat) : List UInt32 :=
  if numCuMaskCount = 0 then List.replicate maskDwords 0xFFFFFFFF
  else (List.range (numCuMaskCount / 32)).map fun i => cuMask.getD i 0

/-- The global mask applied to the user's mask over the smallest range of
dwords, with whether a set bit was dropped. -/
def applyGlobalMask (globalMask mask : List UInt32) (maskDwords : Nat) : List UInt32 × Bool :=
  if globalMask.isEmpty then (mask.take (min mask.length maskDwords), false)
  else
    let limit := min (min globalMask.length mask.length) maskDwords
    let clipped := (mask.drop limit).any (· ≠ 0)
    let mask := mask.take limit
    let clipped := clipped || (List.zipWith (fun m g => decide (m &&& ~~~g ≠ 0)) mask globalMask).any id
    (List.zipWith (· &&& ·) mask globalMask, clipped)

/-- The last dword trimmed to the physical CUs, when the mask reaches it. -/
def clipTail (mask : List UInt32) (maskDwords : Nat) (tailMask : UInt32) : List UInt32 :=
  if mask.length = maskDwords ∧ tailMask ≠ 0 then
    mask.set (maskDwords - 1) (mask.getD (maskDwords - 1) 0 &&& tailMask)
  else mask

/-- Every even-aligned pair of CUs is enabled whole or not at all. -/
def wgpPairsOk (mask : List UInt32) : Bool :=
  (List.range (mask.length * 16)).all fun j =>
    let i := 2 * j
    let cuPair := (mask.getD (i / 32) 0 >>> UInt32.ofNat (i % 32)) &&& 3
    cuPair = 0 || cuPair = 3

/-- The mask `SetCUMasking` computes before taking `mask_lock_`, and
whether it dropped a bit the user set. -/
def computeMask (a : Agent) (globalMask : List UInt32) (numCuMaskCount : Nat) (cuMask : List UInt32) :
    List UInt32 × Bool :=
  let maskDwords := (a.cuCount + 31) / 32
  -- mask to trim the last dword to the physical CU count
  let tailMask : UInt32 := (1 <<< UInt32.ofNat (a.cuCount % 32)) - 1
  let (mask, clipped) := applyGlobalMask globalMask (userMask numCuMaskCount cuMask maskDwords) maskDwords
  (clipTail mask maskDwords tailMask, clipped)

/-- `SetCUMasking(num_cu_mask_count, cu_mask)` on a queue whose `cu_mask_`
is `current`: the status and the new `cu_mask_`. -/
def setCUMasking (a : Agent) (globalMask : List UInt32) (driverOk : Bool) (current : List UInt32)
    (numCuMaskCount : Nat) (cuMask : List UInt32) : Status × List UInt32 :=
  let (mask, clipped) := computeMask a globalMask numCuMaskCount cuMask
  let status := if clipped then Status.cuMaskReduced else .success
  -- a mask is applied unless it is the default at queue creation
  if !current.isEmpty || numCuMaskCount ≠ 0 || !globalMask.isEmpty then
    if a.majorVersion ≥ 10 && !wgpPairsOk mask then (.errorInvalidArgument, current)
    else if !driverOk then (.error, current)
    else (status, mask)
  else (status, mask)

/-- `GetCUMasking(num_cu_mask_count)`: the first `num_cu_mask_count / 32`
dwords of `cu_mask_`, padded with zeros. -/
def getCUMasking (current : List UInt32) (numCuMaskCount : Nat) : List UInt32 :=
  let userDwordCount := numCuMaskCount / 32
  current.take userDwordCount ++ List.replicate (userDwordCount - current.length) 0

/-- Bit `cu` of a mask. -/
def cuBit (mask : List UInt32) (cu : Nat) : Bool := (mask.getD (cu / 32) 0).toNat.testBit (cu % 32)

section Bits

theorem cuBit_eq (mask : List UInt32) (cu : Nat) :
    cuBit mask cu = ((mask[cu / 32]?).getD 0).toNat.testBit (cu % 32) := by
  rw [cuBit, List.getD_eq_getElem?_getD]

/-- Past the end of a mask every bit is clear. -/
theorem cuBit_of_length_le {mask : List UInt32} {cu : Nat} (h : mask.length ≤ cu / 32) :
    cuBit mask cu = false := by
  rw [cuBit_eq, List.getElem?_eq_none h]
  exact Nat.zero_testBit _

theorem cuBit_take (mask : List UInt32) (n cu : Nat) :
    cuBit (mask.take n) cu = (decide (cu / 32 < n) && cuBit mask cu) := by
  rw [cuBit_eq, cuBit_eq, List.getElem?_take]
  by_cases h : cu / 32 < n
  · simp [h]
  · simp only [h, if_false, decide_false, Bool.false_and, Option.getD_none]
    exact Nat.zero_testBit _

theorem cuBit_zipWith_and (m g : List UInt32) (cu : Nat) :
    cuBit (List.zipWith (· &&& ·) m g) cu = (cuBit m cu && cuBit g cu) := by
  rw [cuBit_eq, cuBit_eq, cuBit_eq, List.getElem?_zipWith]
  cases m[cu / 32]? <;> cases g[cu / 32]? <;> simp [UInt32.toNat_and, Nat.testBit_and]

/-- The tail mask keeps the bits below `cu_count % 32`. -/
theorem tailMask_toNat (c : Nat) :
    ((1 <<< UInt32.ofNat (c % 32)) - 1 : UInt32).toNat = 2 ^ (c % 32) - 1 := by
  have hlt : c % 32 < 32 := Nat.mod_lt _ (by decide)
  have hpow : 2 ^ (c % 32) < 2 ^ 32 := Nat.pow_lt_pow_right (by decide) hlt
  have hshift : (1 <<< UInt32.ofNat (c % 32) : UInt32).toNat = 2 ^ (c % 32) := by
    rw [UInt32.toNat_shiftLeft, UInt32.toNat_ofNat', Nat.mod_eq_of_lt (by omega : c % 32 < 2 ^ 32),
      Nat.mod_eq_of_lt hlt, UInt32.toNat_one, Nat.one_shiftLeft, Nat.mod_eq_of_lt hpow]
  rw [UInt32.toNat_sub_of_le _ _ (by rw [UInt32.le_iff_toNat_le, hshift]; exact Nat.one_le_two_pow), hshift,
    UInt32.toNat_one]


theorem applyGlobalMask_length_le (g m : List UInt32) (d : Nat) : (applyGlobalMask g m d).1.length ≤ d := by
  unfold applyGlobalMask
  split
  · simp only [List.length_take]
    omega
  · simp only [List.length_zipWith, List.length_take]
    omega

/-- The global mask keeps a user's bit within the agent's dwords when it
sets it too; no global mask keeps every bit. -/
theorem applyGlobalMask_cuBit (g m : List UInt32) (d cu : Nat) :
    cuBit (applyGlobalMask g m d).1 cu = (decide (cu / 32 < d) && cuBit m cu && (g.isEmpty || cuBit g cu)) := by
  unfold applyGlobalMask
  by_cases hm : cu / 32 < m.length
  · split
    · next hg =>
      simp only [cuBit_take, hg, Bool.true_or, Bool.and_true]
      congr 1
      simp only [decide_eq_decide]
      omega
    · next hg =>
      simp only [cuBit_zipWith_and, cuBit_take, hg, Bool.false_or]
      by_cases hgl : cu / 32 < g.length
      · have hlim : cu / 32 < min (min g.length m.length) d ↔ cu / 32 < d := by omega
        simp only [hlim]
      · rw [cuBit_of_length_le (Nat.le_of_not_lt hgl)]
        simp
  · -- past the user's mask both sides are clear
    rw [cuBit_of_length_le (Nat.le_of_not_lt hm)]
    split
    · simp only [cuBit_take, cuBit_of_length_le (Nat.le_of_not_lt hm), Bool.and_false, Bool.false_and]
    · simp only [cuBit_zipWith_and, cuBit_take, cuBit_of_length_le (Nat.le_of_not_lt hm), Bool.and_false,
        Bool.false_and]


theorem lt_length_of_cuBit {mask : List UInt32} {cu : Nat} (h : cuBit mask cu = true) : cu / 32 < mask.length :=
  Nat.lt_of_not_le fun hle => by rw [cuBit_of_length_le hle] at h; cases h

/-- Keeping only the CUs below `c` changes no bit the mask sets below `c`. -/
theorem cuBit_and_lt {mask : List UInt32} {cu c : Nat} (h : cu / 32 < mask.length → cu < c) :
    (cuBit mask cu && decide (cu < c)) = cuBit mask cu := by
  cases hb : cuBit mask cu
  · rfl
  · simp [h (lt_length_of_cuBit hb)]

/-- Trimming the last dword keeps exactly the bits of the CUs that exist, in
a mask no longer than the agent's dwords. -/
theorem clipTail_cuBit {mask : List UInt32} {c : Nat} (hlen : mask.length ≤ (c + 31) / 32) (cu : Nat) :
    cuBit (clipTail mask ((c + 31) / 32) ((1 <<< UInt32.ofNat (c % 32)) - 1)) cu =
      (cuBit mask cu && decide (cu < c)) := by
  have hpos : 1 ≤ 2 ^ (c % 32) := Nat.one_le_two_pow
  have htail : ((1 <<< UInt32.ofNat (c % 32)) - 1 : UInt32) ≠ 0 ↔ c % 32 ≠ 0 := by
    rw [ne_eq, ne_eq, ← UInt32.toNat_inj, tailMask_toNat, UInt32.toNat_zero]
    constructor
    · intro h hc
      rw [hc] at h
      exact h rfl
    · intro hc h
      have := Nat.le_self_pow hc 2
      omega
  unfold clipTail
  split
  · next hfull =>
    obtain ⟨hfull, hnz⟩ := hfull
    have hc := htail.mp hnz
    rw [cuBit_eq, List.getElem?_set]
    by_cases hcu : (c + 31) / 32 - 1 = cu / 32
    · -- the last dword, trimmed to the CUs below `cu_count`
      rw [if_pos hcu, if_pos (by omega), Option.getD_some, UInt32.toNat_and, Nat.testBit_and, tailMask_toNat,
        Nat.testBit_two_pow_sub_one, cuBit, hcu]
      congr 1
      simp only [decide_eq_decide]
      omega
    · rw [if_neg hcu, ← cuBit_eq]
      exact (cuBit_and_lt fun _ => by omega).symm
  · next hfull =>
    refine (cuBit_and_lt fun hlt => ?_).symm
    -- below the last dword every CU exists; in it, the mask reaches it only with no tail to trim
    by_cases hlast : cu / 32 = (c + 31) / 32 - 1
    · have hmod : c % 32 = 0 := by
        by_contra hc
        exact hfull ⟨by omega, htail.mpr hc⟩
      omega
    · omega


end Bits

/-- The mask `SetCUMasking` computes is, bit by bit, the user's mask AND the
global mask (when there is one) AND the CUs that exist. -/
theorem computeMask_cuBit (a : Agent) (g : List UInt32) (numCuMaskCount : Nat) (cuMask : List UInt32) (cu : Nat) :
    cuBit (computeMask a g numCuMaskCount cuMask).1 cu =
      (cuBit (userMask numCuMaskCount cuMask ((a.cuCount + 31) / 32)) cu && (g.isEmpty || cuBit g cu) &&
        decide (cu < a.cuCount)) := by
  simp only [computeMask]
  rw [clipTail_cuBit (applyGlobalMask_length_le _ _ _), applyGlobalMask_cuBit]
  -- a CU that exists lies in the agent's dwords
  by_cases hc : cu < a.cuCount
  · have hd : cu / 32 < (a.cuCount + 31) / 32 := by omega
    simp [hc, hd]
  · simp [hc]

/-- A call refused by the WGP pairing check or by the driver leaves `cu_mask_`
as it was. -/
theorem setCUMasking_failed_unchanged {a : Agent} {g : List UInt32} {driverOk : Bool} {current : List UInt32}
    {numCuMaskCount : Nat} {cuMask : List UInt32}
    (h : (setCUMasking a g driverOk current numCuMaskCount cuMask).1 = .errorInvalidArgument ∨
      (setCUMasking a g driverOk current numCuMaskCount cuMask).1 = .error) :
    (setCUMasking a g driverOk current numCuMaskCount cuMask).2 = current := by
  rcases hc : computeMask a g numCuMaskCount cuMask with ⟨mask, clipped⟩
  simp only [setCUMasking, hc] at h ⊢
  split_ifs at h ⊢ <;> simp_all

/-- A call that succeeds stores the mask it computed. -/
theorem setCUMasking_stored {a : Agent} {g : List UInt32} {driverOk : Bool} {current : List UInt32}
    {numCuMaskCount : Nat} {cuMask : List UInt32}
    (h : (setCUMasking a g driverOk current numCuMaskCount cuMask).1 = .success ∨
      (setCUMasking a g driverOk current numCuMaskCount cuMask).1 = .cuMaskReduced) :
    (setCUMasking a g driverOk current numCuMaskCount cuMask).2 = (computeMask a g numCuMaskCount cuMask).1 := by
  rcases hc : computeMask a g numCuMaskCount cuMask with ⟨mask, clipped⟩
  simp only [setCUMasking, hc] at h ⊢
  split_ifs at h ⊢ <;> simp_all

/-- **What `SetCUMasking` leaves in `cu_mask_`.**  A call that succeeds,
reduced or not, stores bit by bit the user's mask AND the global mask (when
there is one) AND the CUs that exist; a call refused by the WGP pairing check
or by the driver leaves `cu_mask_` as it was. -/
theorem setCUMasking_cuBit (a : Agent) (g : List UInt32) (driverOk : Bool) (current : List UInt32)
    (numCuMaskCount : Nat) (cuMask : List UInt32) :
    ((setCUMasking a g driverOk current numCuMaskCount cuMask).1 = .success ∨
        (setCUMasking a g driverOk current numCuMaskCount cuMask).1 = .cuMaskReduced →
      ∀ cu, cuBit (setCUMasking a g driverOk current numCuMaskCount cuMask).2 cu =
        (cuBit (userMask numCuMaskCount cuMask ((a.cuCount + 31) / 32)) cu &&
          (g.isEmpty || cuBit g cu) && decide (cu < a.cuCount))) ∧
    ((setCUMasking a g driverOk current numCuMaskCount cuMask).1 = .errorInvalidArgument ∨
        (setCUMasking a g driverOk current numCuMaskCount cuMask).1 = .error →
      (setCUMasking a g driverOk current numCuMaskCount cuMask).2 = current) := by
  refine ⟨fun hok cu => ?_, setCUMasking_failed_unchanged⟩
  rw [setCUMasking_stored hok, computeMask_cuBit]

/-- `GetCUMasking(n)` reads the first `n / 32` dwords of the mask and zeros
after them. -/
theorem getCUMasking_cuBit (current : List UInt32) (numCuMaskCount cu : Nat) :
    cuBit (getCUMasking current numCuMaskCount) cu = (decide (cu / 32 < numCuMaskCount / 32) && cuBit current cu) := by
  unfold getCUMasking
  rw [cuBit_eq, List.getElem?_append, cuBit_eq]
  simp only [List.length_take]
  by_cases hlt : cu / 32 < min (numCuMaskCount / 32) current.length
  · rw [if_pos hlt, List.getElem?_take, if_pos (by omega)]
    simp [show cu / 32 < numCuMaskCount / 32 by omega]
  · -- the zeros after the mask, or nothing
    rw [if_neg hlt, List.getElem?_replicate]
    have hz : ((if cu / 32 - min (numCuMaskCount / 32) current.length < numCuMaskCount / 32 - current.length
        then some 0 else none : Option UInt32)).getD 0 = 0 := by
      split <;> rfl
    rw [hz, UInt32.toNat_zero, Nat.zero_testBit]
    by_cases hn : cu / 32 < numCuMaskCount / 32
    · rw [List.getElem?_eq_none (by omega)]
      simp
    · simp [hn]

/-- **`GetCUMasking` after `SetCUMasking`.**  Bit `cu` reads back set exactly
when it lies in the first `n / 32` dwords and, after a call that succeeds,
reduced or not, the user's mask, the global mask (when there is one) and the
CU count all allow it, or, after a refused call, the mask before the call
had it. -/
theorem getCUMasking_setCUMasking (a : Agent) (g : List UInt32) (driverOk : Bool)
    (current : List UInt32) (numCuMaskCount : Nat) (cuMask : List UInt32) (n cu : Nat) :
    cuBit (getCUMasking (setCUMasking a g driverOk current numCuMaskCount cuMask).2 n) cu =
      (decide (cu / 32 < n / 32) &&
        if (setCUMasking a g driverOk current numCuMaskCount cuMask).1 = .success ∨
            (setCUMasking a g driverOk current numCuMaskCount cuMask).1 = .cuMaskReduced then
          cuBit (userMask numCuMaskCount cuMask ((a.cuCount + 31) / 32)) cu &&
            (g.isEmpty || cuBit g cu) && decide (cu < a.cuCount)
        else cuBit current cu) := by
  obtain ⟨hstored, hrefused⟩ := setCUMasking_cuBit a g driverOk current numCuMaskCount cuMask
  rw [getCUMasking_cuBit]
  split_ifs with hok
  · rw [hstored hok cu]
  · -- the two other statuses are the refusals
    have hfail : (setCUMasking a g driverOk current numCuMaskCount cuMask).1 = .errorInvalidArgument ∨
        (setCUMasking a g driverOk current numCuMaskCount cuMask).1 = .error := by
      revert hok
      cases (setCUMasking a g driverOk current numCuMaskCount cuMask).1 <;> simp
    rw [hrefused hfail]

/-- `HSA_CU_MASK=0:0-15` on one GPU of 16 CUs installs the mask `0xFFFF`.  A
queue given the user mask `0xFFFFFFFF`, which enables every CU the global
mask enables, gets the mask `0xFFFF` and `HSA_STATUS_CU_MASK_REDUCED`,
though no CU that exists was disabled. -/
theorem reduced_without_disabled_cu :
    globalMaskOf ((Flag.parseMasks ['0', ':', '0', '-', '1', '5'] 1 16).getD .empty) 0 = [0xFFFF] ∧
    setCUMasking ⟨16, 9⟩ [0xFFFF] true [0xFFFF] 32 [0xFFFFFFFF] = (.cuMaskReduced, [0xFFFF]) ∧
    ∀ cu < 16, cuBit [0xFFFFFFFF] cu = true → cuBit [0xFFFF] cu = true := by
  decide

end Aql
