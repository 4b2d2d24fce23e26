import Rocr.Lib.OrdMap

/-!
# Virtual memory handles of the runtime

The `hsa_amd_vmem_*` calls of `runtime.cpp` manage three maps, all under
`memory_lock_`:

* `reserved_address_map_`, the virtual address ranges reserved with
  `VMemoryAddressReserve`, each with the number of mappings it holds;
* `memory_handle_map_`, the physical allocations created with
  `VMemoryHandleCreate` or imported from a dmabuf, each with a reference
  count (create, import and retain add one, release takes one) and a use
  count (the mappings of it);
* `mapped_handle_map_`, the ranges mapped with `VMemoryHandleMap`, each
  pointing at its reservation and its memory handle.

A memory handle is given back to its region when release or unmap drops the
last of both counts.  The driver and `libdrm` calls are oracles: the answer
each one gives is an argument of the operation.  Of the driver, only what
its allocators document is assumed: a new reservation lies clear of the
reservations already made, and a new allocation is not one of the handles
still in the map, which are live allocations (`Op.driverOk`).  The agents a mapping is
made accessible to (`VMemorySetAccess`) are not modelled, so a mapping has
none and `VMemoryHandleUnmap` has none to unmap first.  Addresses and sizes
are natural numbers: the apertures the driver hands out lie far below
`2^64`, and `hsakmt_fmm_export_dma_buf_fd` refuses a mapping larger than its
allocation, so `va + size` never wraps.

In every state the calls can reach, the mappings are disjoint and each lies
in one reservation, every use count is the number of mappings using the
handle, no handle outlives both of its counts, every call that succeeds
changes the reference counts by the references it takes or gives back
(`Op.references`), and every call that fails leaves the state as it was
(`reachable_guarantees`).
-/

namespace Runtime

/-- The `hsa_status_t` values of the virtual memory calls. -/
inductive Status where
  | success
  | errorInvalidArgument
  | errorInvalidAllocation
  | errorInvalidAgent
  | errorResourceFree
  | errorOutOfResources
  | errorIncompatibleArguments
  | error
deriving DecidableEq, Repr

/-- `AddressHandle`: a reserved range of `size` bytes. -/
structure AddressHandle where
  size : Nat
  useCount : Int
deriving DecidableEq, Repr

/-- `MemoryHandle`: a physical allocation of `size` bytes. -/
structure MemoryHandle where
  size : Nat
  refCount : Int
  useCount : Int
deriving DecidableEq, Repr

/-- `MappedHandle`: its memory handle and its reservation, by their keys in
`memory_handle_map_` and `reserved_address_map_`, and its size. -/
structure MappedHandle where
  memHandle : Nat
  addressHandle : Nat
  size : Nat
deriving DecidableEq, Repr

/-- The three maps, and the memory handles given back to their regions
(`region->Free`), in order. -/
structure State where
  reservedAddressMap : OrdMap Nat AddressHandle
  memoryHandleMap : OrdMap Nat MemoryHandle
  mappedHandleMap : OrdMap Nat MappedHandle
  freed : List Nat

/-- The runtime before any virtual memory call. -/
def init : State := ⟨.empty, .empty, .empty, []⟩

/-- `VMemoryAddressReserve`: `alloc` is the address `hsaKmtAllocMemoryAlign`
reserves, at the requested address or elsewhere, or `none` when both
attempts fail. -/
def State.vMemoryAddressReserve (s : State) (size : Nat) (alloc : Option Nat) : Status × State :=
  match alloc with
  | none => (.errorOutOfResources, s)
  | some addr =>
    (.success, { s with reservedAddressMap := s.reservedAddressMap.assign addr ⟨size, 0⟩ })

/-- `VMemoryAddressFree`: `kmtFreed` says whether `hsaKmtFreeMemory`
succeeds. -/
def State.vMemoryAddressFree (s : State) (va size : Nat) (kmtFreed : Bool) : Status × State :=
  match s.reservedAddressMap.find? va with
  | none => (.errorInvalidAllocation, s)
  | some a =>
    if size ≠ a.size then (.errorInvalidArgument, s)
    else if a.useCount > 0 then (.errorResourceFree, s)
    else if !kmtFreed then (.error, s)
    else (.success, { s with reservedAddressMap := s.reservedAddressMap.erase va })

/-- `VMemoryHandleCreate`: `allocate` is what `region->Allocate` returns.  The
handle is placed with `emplace`, which leaves a present key alone.  The page
size is a power of two, so `IsMultipleOf` is divisibility. -/
def State.vMemoryHandleCreate (s : State) (size pageSize : Nat) (allocate : Except Status Nat) :
    Status × State :=
  if size % pageSize ≠ 0 then (.errorInvalidArgument, s)
  else match allocate with
    | .error e => (e, s)
    | .ok handle =>
      (.success, { s with memoryHandleMap := s.memoryHandleMap.insert handle ⟨size, 1, 0⟩ })

/-- `VMemoryHandleRelease`: the handle is given back once neither a reference
nor a mapping is left. -/
def State.vMemoryHandleRelease (s : State) (handle : Nat) : Status × State :=
  match s.memoryHandleMap.find? handle with
  | none => (.errorInvalidAllocation, s)
  | some m =>
    if m.refCount = 0 then (.errorInvalidAllocation, s)
    -- mappings still outstanding: the last unmap gives the handle back
    else if m.refCount - 1 = 0 ∧ ¬ m.useCount > 0 then
      (.success, { s with memoryHandleMap := s.memoryHandleMap.erase handle,
                          freed := s.freed ++ [handle] })
    else
      let memory := s.memoryHandleMap.modify handle fun m => { m with refCount := m.refCount - 1 }
      (.success, { s with memoryHandleMap := memory })

/-- The outcome of the driver and `libdrm` calls of `VMemoryHandleMap`. -/
inductive MapDriver where
  /-- `hsaKmtExportDMABufHandle` fails. -/
  | exportFails
  /-- `amdgpu_bo_import` fails. -/
  | importFails
  /-- `GetAmdgpuDeviceArgs` fails. -/
  | deviceArgsFail
  | ok
deriving DecidableEq, Repr

/-- The reservation holding `[va, va + size)`, found as the greatest one
starting at or below `va`. -/
def holdingReservation (m : OrdMap Nat AddressHandle) (va size : Nat) : Option Nat :=
  match m.floor va with
  | none => none
  | some r =>
    match m.find? r with
    | some a => if r ≤ va ∧ va + size ≤ r + a.size then some r else none
    | none => none

/-- Whether `[va, va + size)` meets a mapped range: the one starting at or
below `va`, or the first one above it. -/
def overlapsMapped (m : OrdMap Nat MappedHandle) (va size : Nat) : Bool :=
  (match m.floor va with
    | some k =>
      match m.find? k with
      | some h => decide (k + h.size > va)
      | none => false
    | none => false) ||
  (match m.lowerBound va with
    | some k => decide (va + size > k)
    | none => false)

/-- `VMemoryHandleMap`. -/
def State.vMemoryHandleMap (s : State) (va size handle : Nat) (driver : MapDriver) :
    Status × State :=
  match holdingReservation s.reservedAddressMap va size with
  | none => (.errorInvalidArgument, s)
  | some r =>
    if overlapsMapped s.mappedHandleMap va size then (.errorInvalidArgument, s)
    else match s.memoryHandleMap.find? handle with
    | none => (.errorInvalidArgument, s)
    | some _ =>
      match driver with
      | .exportFails => (.errorOutOfResources, s)
      | .importFails => (.error, s)
      | .deviceArgsFail => (.error, s)
      | .ok =>
        let reserved := s.reservedAddressMap.modify r fun a => { a with useCount := a.useCount + 1 }
        let memory := s.memoryHandleMap.modify handle fun m => { m with useCount := m.useCount + 1 }
        (.success, { s with mappedHandleMap := s.mappedHandleMap.insert va ⟨handle, r, size⟩,
                            reservedAddressMap := reserved, memoryHandleMap := memory })

/-- `VMemoryHandleUnmap`: `boFreed` says whether `amdgpu_bo_free` succeeds. -/
def State.vMemoryHandleUnmap (s : State) (va size : Nat) (boFreed : Bool) : Status × State :=
  match s.mappedHandleMap.find? va with
  | none => (.errorInvalidAllocation, s)
  | some mh =>
    if mh.size ≠ size then (.errorInvalidArgument, s)
    else if !boFreed then (.error, s)
    else
      let reserved := s.reservedAddressMap.modify mh.addressHandle
        fun a => { a with useCount := a.useCount - 1 }
      let memory := s.memoryHandleMap.modify mh.memHandle fun m => { m with useCount := m.useCount - 1 }
      let s := { s with reservedAddressMap := reserved, memoryHandleMap := memory,
                        mappedHandleMap := s.mappedHandleMap.erase va }
      match memory.find? mh.memHandle with
      | some m =>
        -- the handle was released while this mapping was outstanding
        if m.useCount = 0 ∧ m.refCount = 0 then
          (.success, { s with memoryHandleMap := memory.erase mh.memHandle,
                              freed := s.freed ++ [mh.memHandle] })
        else (.success, s)
      | none => (.success, s)

/-- `VMemoryImportShareableHandle`: `registered` is the allocation address
and size `hsaKmtRegisterGraphicsHandleToNodes` reports for the dmabuf, or
`none` when it fails; `regionFound` says whether a region of the owning agent
allows allocation, and `pointerKnown` whether `hsaKmtQueryPointerInfo`
knows the address. -/
def State.vMemoryImportShareableHandle (s : State) (registered : Option (Nat × Nat))
    (regionFound pointerKnown : Bool) : Status × State :=
  match registered with
  | none => (.errorIncompatibleArguments, s)
  | some (thunkHandle, size) =>
    match s.memoryHandleMap.find? thunkHandle with
    -- imported before: one more reference
    | some _ =>
      let memory := s.memoryHandleMap.modify thunkHandle fun m => { m with refCount := m.refCount + 1 }
      (.success, { s with memoryHandleMap := memory })
    | none =>
      if !regionFound then (.errorInvalidAllocation, s)
      else if !pointerKnown then (.errorInvalidAllocation, s)
      else (.success, { s with memoryHandleMap := s.memoryHandleMap.insert thunkHandle ⟨size, 1, 0⟩ })

/-- `VMemoryRetainAllocHandle`: one more reference to the handle mapped at
`va`. -/
def State.vMemoryRetainAllocHandle (s : State) (va : Nat) : Status × State :=
  match s.mappedHandleMap.find? va with
  | none => (.errorInvalidAllocation, s)
  | some mh =>
    let memory := s.memoryHandleMap.modify mh.memHandle fun m => { m with refCount := m.refCount + 1 }
    (.success, { s with memoryHandleMap := memory })

/-- A virtual memory call, with the answers of the driver calls it makes. -/
inductive Op where
  | addressReserve (size : Nat) (alloc : Option Nat)
  | addressFree (va size : Nat) (kmtFreed : Bool)
  | handleCreate (size pageSize : Nat) (allocate : Except Status Nat)
  | handleRelease (handle : Nat)
  | handleMap (va size handle : Nat) (driver : MapDriver)
  | handleUnmap (va size : Nat) (boFreed : Bool)
  | importShareableHandle (registered : Option (Nat × Nat)) (regionFound pointerKnown : Bool)
  | retainAllocHandle (va : Nat)

/-- A call through its `hsa_amd_vmem_*` entry point, which refuses a zero size
(`IS_ZERO`) and a null address (`IS_BAD_PTR`) first. -/
def State.step (s : State) : Op → Status × State
  | .addressReserve size alloc =>
    if size = 0 then (.errorInvalidArgument, s) else s.vMemoryAddressReserve size alloc
  | .addressFree va size kmtFreed =>
    if va = 0 ∨ size = 0 then (.errorInvalidArgument, s) else s.vMemoryAddressFree va size kmtFreed
  | .handleCreate size pageSize allocate =>
    if size = 0 then (.errorInvalidArgument, s) else s.vMemoryHandleCreate size pageSize allocate
  | .handleRelease handle => s.vMemoryHandleRelease handle
  | .handleMap va size handle driver =>
    if va = 0 ∨ size = 0 then (.errorInvalidArgument, s)
    else s.vMemoryHandleMap va size handle driver
  | .handleUnmap va size boFreed =>
    if va = 0 ∨ size = 0 then (.errorInvalidArgument, s) else s.vMemoryHandleUnmap va size boFreed
  | .importShareableHandle registered regionFound pointerKnown =>
    s.vMemoryImportShareableHandle registered regionFound pointerKnown
  | .retainAllocHandle va =>
    if va = 0 then (.errorInvalidArgument, s) else s.vMemoryRetainAllocHandle va

/-- Whether `[a, a + size)` lies clear of every reservation. -/
def clearOf (m : OrdMap Nat AddressHandle) (a size : Nat) : Bool :=
  m.entries.all fun e => a + size ≤ e.1 || e.1 + e.2.size ≤ a

/-- What the driver documents of its answers: the address allocator hands
out a range clear of every range it has reserved, and `region->Allocate`
memory that is not allocated, so not a handle of the map. -/
def Op.driverOk (s : State) : Op → Bool
  | .addressReserve size (some a) => clearOf s.reservedAddressMap a size
  | .handleCreate _ _ (.ok handle) => (s.memoryHandleMap.find? handle).isNone
  | _ => true

/-- The states the calls reach from the start, the driver answering as it
documents. -/
inductive Reachable : State → Prop
  | init : Reachable init
  | step {s : State} (op : Op) : Reachable s → op.driverOk s = true → Reachable (s.step op).2

/-! ## The invariant -/

/-- Counts the mappings in reservation `r`. -/
def refersTo (r : Nat) (_ : Nat) (mh : MappedHandle) : Nat := if mh.addressHandle = r then 1 else 0

/-- Counts the mappings of memory handle `h`. -/
def usesHandle (h : Nat) (_ : Nat) (mh : MappedHandle) : Nat := if mh.memHandle = h then 1 else 0

/-- The reservations and the mappings: nonempty, pairwise disjoint, each
mapping inside the reservation it points at, whose use count counts it. -/
structure MappingsWf (rs : OrdMap Nat AddressHandle) (ms : OrdMap Nat MappedHandle) : Prop where
  reserved_pos : ∀ r a, rs.find? r = some a → 0 < a.size
  reserved_apart : ∀ r a r' a', rs.find? r = some a → rs.find? r' = some a' → r ≠ r' →
    r + a.size ≤ r' ∨ r' + a'.size ≤ r
  mapped_pos : ∀ va mh, ms.find? va = some mh → 0 < mh.size
  mapped_apart : ∀ va mh va' mh', ms.find? va = some mh → ms.find? va' = some mh' → va ≠ va' →
    va + mh.size ≤ va' ∨ va' + mh'.size ≤ va
  inside : ∀ va mh, ms.find? va = some mh → ∃ a, rs.find? mh.addressHandle = some a ∧
    mh.addressHandle ≤ va ∧ va + mh.size ≤ mh.addressHandle + a.size
  address_use : ∀ r a, rs.find? r = some a → a.useCount = ms.sumBy (refersTo r)

/-- The memory handles and the mappings: every mapping's handle is present,
every use count counts the mappings of the handle, and no handle is left
with neither a reference nor a mapping. -/
structure HandlesWf (hs : OrdMap Nat MemoryHandle) (ms : OrdMap Nat MappedHandle) : Prop where
  refers : ∀ va mh, ms.find? va = some mh → ∃ m, hs.find? mh.memHandle = some m
  memory_use : ∀ h m, hs.find? h = some m → m.useCount = ms.sumBy (usesHandle h)
  live : ∀ h m, hs.find? h = some m → 0 < m.refCount ∨ 0 < m.useCount
  ref_nonneg : ∀ h m, hs.find? h = some m → 0 ≤ m.refCount

/-- The invariant of the runtime's virtual memory state. -/
structure State.Inv (s : State) : Prop where
  mappings : MappingsWf s.reservedAddressMap s.mappedHandleMap
  handles : HandlesWf s.memoryHandleMap s.mappedHandleMap

theorem inv_init : init.Inv where
  mappings := ⟨by simp [init], by simp [init], by simp [init], by simp [init], by simp [init],
    by simp [init]⟩
  handles := ⟨by simp [init], by simp [init], by simp [init], by simp [init]⟩

/-- No mapping uses a handle whose mappings count to zero. -/
theorem unused_of_sum_zero {ms : OrdMap Nat MappedHandle} {h : Nat}
    (hz : ms.sumBy (usesHandle h) = 0) : ∀ va mh, ms.find? va = some mh → mh.memHandle ≠ h := by
  intro va mh hmh heq
  have := (OrdMap.sumBy_eq_zero_iff _ ms).mp hz va mh hmh
  simp [usesHandle, heq] at this

/-- No mapping lies in a reservation whose mappings count to zero. -/
theorem unreferenced_of_sum_zero {ms : OrdMap Nat MappedHandle} {r : Nat}
    (hz : ms.sumBy (refersTo r) = 0) : ∀ va mh, ms.find? va = some mh → mh.addressHandle ≠ r := by
  intro va mh hmh heq
  have := (OrdMap.sumBy_eq_zero_iff _ ms).mp hz va mh hmh
  simp [refersTo, heq] at this

section Handles

variable {hs : OrdMap Nat MemoryHandle} {ms : OrdMap Nat MappedHandle}

/-- A change of one handle's reference count that keeps it alive. -/
theorem HandlesWf.modifyRef (hw : HandlesWf hs ms) {k : Nat} {m : MemoryHandle}
    (hm : hs.find? k = some m) (f : MemoryHandle → MemoryHandle)
    (huse : (f m).useCount = m.useCount) (href : 0 ≤ (f m).refCount)
    (hlive : 0 < (f m).refCount ∨ 0 < m.useCount) : HandlesWf (hs.modify k f) ms where
  refers va mh hmh := by
    obtain ⟨m', hm'⟩ := hw.refers va mh hmh
    by_cases hk : mh.memHandle = k
    · exact ⟨f m, by simp [hk, hm]⟩
    · exact ⟨m', by simp [hk, hm']⟩
  memory_use h m' hm' := by
    by_cases hk : h = k
    · subst hk
      simp only [OrdMap.find?_modify, if_true, hm, Option.map_some, Option.some.injEq] at hm'
      rw [← hm', huse]
      exact hw.memory_use h m hm
    · simp only [OrdMap.find?_modify, hk, if_false] at hm'
      exact hw.memory_use h m' hm'
  live h m' hm' := by
    by_cases hk : h = k
    · subst hk
      simp only [OrdMap.find?_modify, if_true, hm, Option.map_some, Option.some.injEq] at hm'
      rw [← hm', huse]
      exact hlive
    · simp only [OrdMap.find?_modify, hk, if_false] at hm'
      exact hw.live h m' hm'
  ref_nonneg h m' hm' := by
    by_cases hk : h = k
    · subst hk
      simp only [OrdMap.find?_modify, if_true, hm, Option.map_some, Option.some.injEq] at hm'
      exact hm' ▸ href
    · simp only [OrdMap.find?_modify, hk, if_false] at hm'
      exact hw.ref_nonneg h m' hm'

/-- Giving back a handle no mapping uses. -/
theorem HandlesWf.erase (hw : HandlesWf hs ms) {k : Nat}
    (hunused : ∀ va mh, ms.find? va = some mh → mh.memHandle ≠ k) : HandlesWf (hs.erase k) ms where
  refers va mh hmh := by
    obtain ⟨m, hm⟩ := hw.refers va mh hmh
    exact ⟨m, by simp [hunused va mh hmh, hm]⟩
  memory_use h m hm := by
    by_cases hk : h = k
    · simp [hk] at hm
    · simp only [OrdMap.find?_erase, hk, if_false] at hm
      exact hw.memory_use h m hm
  live h m hm := by
    by_cases hk : h = k
    · simp [hk] at hm
    · simp only [OrdMap.find?_erase, hk, if_false] at hm
      exact hw.live h m hm
  ref_nonneg h m hm := by
    by_cases hk : h = k
    · simp [hk] at hm
    · simp only [OrdMap.find?_erase, hk, if_false] at hm
      exact hw.ref_nonneg h m hm

/-- A new handle with one reference and no mapping; `emplace` leaves a present
one alone. -/
theorem HandlesWf.insert (hw : HandlesWf hs ms) (k size : Nat) :
    HandlesWf (hs.insert k ⟨size, 1, 0⟩) ms := by
  cases hk : hs.find? k with
  | some m => rwa [OrdMap.insert_of_some _ hk]
  | none =>
    rw [OrdMap.insert_of_none _ hk]
    -- no mapping uses the absent key
    have hunused : ∀ va mh, ms.find? va = some mh → mh.memHandle ≠ k := by
      intro va mh hmh heq
      obtain ⟨m, hm⟩ := hw.refers va mh hmh
      rw [heq, hk] at hm
      cases hm
    refine ⟨?_, ?_, ?_, ?_⟩
    · intro va mh hmh
      obtain ⟨m, hm⟩ := hw.refers va mh hmh
      exact ⟨m, by simp [hunused va mh hmh, hm]⟩
    · intro h m hm
      by_cases hhk : h = k
      · subst hhk
        simp only [OrdMap.find?_assign, if_true, Option.some.injEq] at hm
        subst hm
        have hz : ms.sumBy (usesHandle h) = 0 :=
          (OrdMap.sumBy_eq_zero_iff _ ms).mpr fun va mh hmh => by
            simp [usesHandle, hunused va mh hmh]
        simp [hz]
      · simp only [OrdMap.find?_assign, hhk, if_false] at hm
        exact hw.memory_use h m hm
    · intro h m hm
      by_cases hhk : h = k
      · simp only [hhk, OrdMap.find?_assign, if_true, Option.some.injEq] at hm
        subst hm
        simp
      · simp only [OrdMap.find?_assign, hhk, if_false] at hm
        exact hw.live h m hm
    · intro h m hm
      by_cases hhk : h = k
      · simp only [hhk, OrdMap.find?_assign, if_true, Option.some.injEq] at hm
        subst hm
        simp
      · simp only [OrdMap.find?_assign, hhk, if_false] at hm
        exact hw.ref_nonneg h m hm

/-- The mappings of `h` once the one at `va` is dropped. -/
theorem sumBy_usesHandle_erase {va h : Nat} {mh : MappedHandle} (hmh : ms.find? va = some mh) :
    (((ms.erase va).sumBy (usesHandle h) : Nat) : Int) =
      ms.sumBy (usesHandle h) - if mh.memHandle = h then 1 else 0 := by
  have hsum := OrdMap.sumBy_erase (usesHandle h) hmh
  by_cases hh : mh.memHandle = h <;> simp only [usesHandle, hh, if_true, if_false] at hsum ⊢ <;> omega

/-- A new mapping of a present handle, counted in its use count. -/
theorem HandlesWf.addMapping (hw : HandlesWf hs ms) {va handle r size : Nat} {m : MemoryHandle}
    (hm : hs.find? handle = some m) (hva : ms.find? va = none) :
    HandlesWf (hs.modify handle fun m => { m with useCount := m.useCount + 1 })
      (ms.assign va ⟨handle, r, size⟩) where
  refers k mh hmh := by
    by_cases hk : k = va
    · simp only [hk, OrdMap.find?_assign, if_true, Option.some.injEq] at hmh
      subst hmh
      exact ⟨_, OrdMap.find?_modify_of_some _ hm⟩
    · simp only [OrdMap.find?_assign, hk, if_false] at hmh
      obtain ⟨m', hm'⟩ := hw.refers k mh hmh
      exact ⟨_, OrdMap.find?_modify_of_some _ hm'⟩
  memory_use h m' hm' := by
    obtain ⟨m0, h0, rfl⟩ := OrdMap.find?_modify_eq_some hm'
    rw [OrdMap.sumBy_assign_of_none _ _ hva, Int.natCast_add, ← hw.memory_use h m0 h0]
    by_cases hh : h = handle
    · simp [hh, usesHandle]
    · simp [hh, usesHandle, Ne.symm hh]
  live h m' hm' := by
    obtain ⟨m0, h0, rfl⟩ := OrdMap.find?_modify_eq_some hm'
    split_ifs
    · -- a use count counts mappings, so it is not negative
      have := hw.memory_use h m0 h0
      right
      dsimp only
      omega
    · exact hw.live h m0 h0
  ref_nonneg h m' hm' := by
    obtain ⟨m0, h0, rfl⟩ := OrdMap.find?_modify_eq_some hm'
    split_ifs <;> exact hw.ref_nonneg h m0 h0

/-- Dropping the mapping at `va` from a handle that stays alive. -/
theorem HandlesWf.removeMapping (hw : HandlesWf hs ms) {va : Nat} {mh : MappedHandle} {m : MemoryHandle}
    (hmh : ms.find? va = some mh) (hm : hs.find? mh.memHandle = some m)
    (hlive : 0 < m.refCount ∨ 0 < m.useCount - 1) :
    HandlesWf (hs.modify mh.memHandle fun m => { m with useCount := m.useCount - 1 })
      (ms.erase va) where
  refers k mh' hmh' := by
    have hk : k ≠ va := by
      intro hk
      simp [hk] at hmh'
    simp only [OrdMap.find?_erase, hk, if_false] at hmh'
    obtain ⟨m', hm'⟩ := hw.refers k mh' hmh'
    exact ⟨_, OrdMap.find?_modify_of_some _ hm'⟩
  memory_use h m' hm' := by
    obtain ⟨m0, h0, rfl⟩ := OrdMap.find?_modify_eq_some hm'
    rw [sumBy_usesHandle_erase hmh, ← hw.memory_use h m0 h0]
    by_cases hh : h = mh.memHandle
    · simp [hh]
    · simp [hh, Ne.symm hh]
  live h m' hm' := by
    obtain ⟨m0, h0, rfl⟩ := OrdMap.find?_modify_eq_some hm'
    split_ifs with hh
    · subst hh
      rw [hm] at h0
      cases h0
      exact hlive
    · exact hw.live h m0 h0
  ref_nonneg h m' hm' := by
    obtain ⟨m0, h0, rfl⟩ := OrdMap.find?_modify_eq_some hm'
    split_ifs <;> exact hw.ref_nonneg h m0 h0

/-- Dropping the last mapping of a released handle, and the handle with it. -/
theorem HandlesWf.removeLastMapping (hw : HandlesWf hs ms) {va : Nat} {mh : MappedHandle}
    {m : MemoryHandle} (hmh : ms.find? va = some mh) (hm : hs.find? mh.memHandle = some m)
    (hlast : m.useCount - 1 = 0) :
    HandlesWf ((hs.modify mh.memHandle fun m => { m with useCount := m.useCount - 1 }).erase mh.memHandle)
      (ms.erase va) := by
  rw [OrdMap.erase_modify]
  -- the mapping at `va` was the handle's last one
  have hz : (ms.erase va).sumBy (usesHandle mh.memHandle) = 0 := by
    have := sumBy_usesHandle_erase (h := mh.memHandle) hmh
    have := hw.memory_use _ m hm
    simp only [if_true] at *
    omega
  have hunused := unused_of_sum_zero hz
  refine ⟨?_, ?_, ?_, ?_⟩
  · intro k mh' hmh'
    have hne := hunused k mh' hmh'
    have hk : k ≠ va := by
      intro hk
      simp [hk] at hmh'
    simp only [OrdMap.find?_erase, hk, if_false] at hmh'
    obtain ⟨m', hm'⟩ := hw.refers k mh' hmh'
    exact ⟨m', by simp [hne, hm']⟩
  · intro h m' hm'
    by_cases hh : h = mh.memHandle
    · simp [hh] at hm'
    · simp only [OrdMap.find?_erase, hh, if_false] at hm'
      rw [sumBy_usesHandle_erase hmh, ← hw.memory_use h m' hm']
      simp [Ne.symm hh]
  · intro h m' hm'
    by_cases hh : h = mh.memHandle
    · simp [hh] at hm'
    · simp only [OrdMap.find?_erase, hh, if_false] at hm'
      exact hw.live h m' hm'
  · intro h m' hm'
    by_cases hh : h = mh.memHandle
    · simp [hh] at hm'
    · simp only [OrdMap.find?_erase, hh, if_false] at hm'
      exact hw.ref_nonneg h m' hm'

end Handles

section Mappings

variable {rs : OrdMap Nat AddressHandle} {ms : OrdMap Nat MappedHandle}

/-- Every mapping points at a present reservation, so an absent key counts no
mapping. -/
theorem MappingsWf.unreferenced_of_none (hw : MappingsWf rs ms) {r : Nat} (hr : rs.find? r = none) :
    ∀ va mh, ms.find? va = some mh → mh.addressHandle ≠ r := by
  intro va mh hmh heq
  obtain ⟨a, ha, -⟩ := hw.inside va mh hmh
  rw [heq, hr] at ha
  cases ha

/-- A new reservation clear of the others. -/
theorem MappingsWf.assignFresh (hw : MappingsWf rs ms) {addr size : Nat} (hpos : 0 < size)
    (hclear : ∀ r a, rs.find? r = some a → addr + size ≤ r ∨ r + a.size ≤ addr) :
    MappingsWf (rs.assign addr ⟨size, 0⟩) ms := by
  have habs : rs.find? addr = none := by
    cases h : rs.find? addr with
    | none => rfl
    | some a =>
      have := hw.reserved_pos addr a h
      rcases hclear addr a h with h1 | h1 <;> omega
  have hunref := hw.unreferenced_of_none habs
  refine ⟨?_, ?_, hw.mapped_pos, hw.mapped_apart, ?_, ?_⟩
  · intro r a ha
    by_cases hr : r = addr
    · simp only [hr, OrdMap.find?_assign, if_true, Option.some.injEq] at ha
      exact ha ▸ hpos
    · simp only [OrdMap.find?_assign, hr, if_false] at ha
      exact hw.reserved_pos r a ha
  · intro r a r' a' ha ha' hne
    by_cases hr : r = addr
    · subst hr
      have hr' : r' ≠ r := Ne.symm hne
      simp only [OrdMap.find?_assign, if_true, Option.some.injEq] at ha
      simp only [OrdMap.find?_assign, hr', if_false] at ha'
      subst ha
      exact hclear r' a' ha'
    · by_cases hr' : r' = addr
      · subst hr'
        simp only [OrdMap.find?_assign, if_true, Option.some.injEq] at ha'
        simp only [OrdMap.find?_assign, hr, if_false] at ha
        subst ha'
        exact (hclear r a ha).symm
      · simp only [OrdMap.find?_assign, hr, hr', if_false] at ha ha'
        exact hw.reserved_apart r a r' a' ha ha' hne
  · intro va mh hmh
    obtain ⟨a, ha, hlo, hhi⟩ := hw.inside va mh hmh
    exact ⟨a, by simp [hunref va mh hmh, ha], hlo, hhi⟩
  · intro r a ha
    by_cases hr : r = addr
    · subst hr
      simp only [OrdMap.find?_assign, if_true, Option.some.injEq] at ha
      subst ha
      have hz : ms.sumBy (refersTo r) = 0 :=
        (OrdMap.sumBy_eq_zero_iff _ ms).mpr fun va mh hmh => by simp [refersTo, hunref va mh hmh]
      simp [hz]
    · simp only [OrdMap.find?_assign, hr, if_false] at ha
      exact hw.address_use r a ha

/-- Dropping a reservation that holds no mapping. -/
theorem MappingsWf.erase (hw : MappingsWf rs ms) {r : Nat} {a : AddressHandle}
    (ha : rs.find? r = some a) (hfree : ¬ a.useCount > 0) : MappingsWf (rs.erase r) ms := by
  have hz : ms.sumBy (refersTo r) = 0 := by
    have := hw.address_use r a ha
    omega
  have hunref := unreferenced_of_sum_zero hz
  refine ⟨?_, ?_, hw.mapped_pos, hw.mapped_apart, ?_, ?_⟩
  · intro r' a' ha'
    by_cases hr : r' = r
    · simp [hr] at ha'
    · simp only [OrdMap.find?_erase, hr, if_false] at ha'
      exact hw.reserved_pos r' a' ha'
  · intro r₁ a₁ r₂ a₂ h₁ h₂ hne
    by_cases hr₁ : r₁ = r
    · simp [hr₁] at h₁
    · by_cases hr₂ : r₂ = r
      · simp [hr₂] at h₂
      · simp only [OrdMap.find?_erase, hr₁, hr₂, if_false] at h₁ h₂
        exact hw.reserved_apart r₁ a₁ r₂ a₂ h₁ h₂ hne
  · intro va mh hmh
    obtain ⟨a', ha', hlo, hhi⟩ := hw.inside va mh hmh
    exact ⟨a', by simp [hunref va mh hmh, ha'], hlo, hhi⟩
  · intro r' a' ha'
    by_cases hr : r' = r
    · simp [hr] at ha'
    · simp only [OrdMap.find?_erase, hr, if_false] at ha'
      exact hw.address_use r' a' ha'

/-- The reservation `holdingReservation` finds holds the range. -/
theorem holdingReservation_spec {va size r : Nat} (h : holdingReservation rs va size = some r) :
    ∃ a, rs.find? r = some a ∧ r ≤ va ∧ va + size ≤ r + a.size := by
  unfold holdingReservation at h
  split at h
  · cases h
  · split at h
    · rename_i a ha
      split_ifs at h with hin
      cases h
      exact ⟨a, ha, hin⟩
    · cases h

/-- A range `overlapsMapped` passes lies clear of every mapping: the one
starting at or below it ends before it, and every later one starts after the
first one above it. -/
theorem MappingsWf.apart_of_not_overlaps (hw : MappingsWf rs ms) {va size : Nat}
    (h : overlapsMapped ms va size = false) :
    ∀ k mh, ms.find? k = some mh → va + size ≤ k ∨ k + mh.size ≤ va := by
  intro k mh hmh
  unfold overlapsMapped at h
  rw [Bool.or_eq_false_iff] at h
  obtain ⟨hbelow, habove⟩ := h
  have hk := OrdMap.mem_keys_of_find? hmh
  rcases le_or_gt k va with hle | hlt
  · -- the floor `j` of `va` lies between `k` and `va`, and ends before `va`
    obtain ⟨j, hj⟩ : ∃ j, ms.floor va = some j := by
      cases hf : ms.floor va with
      | none => exact absurd ((OrdMap.floor_eq_none_iff ms va).mp hf k hk) (not_lt.mpr hle)
      | some j => exact ⟨j, rfl⟩
    obtain ⟨hjk, -, hmax⟩ := (OrdMap.floor_eq_some_iff ms va j).mp hj
    obtain ⟨mj, hmj⟩ := OrdMap.find?_of_mem_keys hjk
    have hend : j + mj.size ≤ va := by simpa [hj, hmj] using hbelow
    right
    by_cases hkj : k = j
    · subst hkj
      rw [hmj] at hmh
      cases hmh
      exact hend
    · have hkle := hmax k hk hle
      rcases hw.mapped_apart k mh j mj hmh hmj hkj with h1 | h1 <;> omega
  · -- the first mapping above `va` starts after the range
    left
    obtain ⟨j, hj⟩ : ∃ j, ms.lowerBound va = some j := by
      cases hb : ms.lowerBound va with
      | none => exact absurd ((OrdMap.lowerBound_eq_none_iff ms va).mp hb k hk) (not_lt.mpr hlt.le)
      | some j => exact ⟨j, rfl⟩
    obtain ⟨-, -, hmin⟩ := (OrdMap.lowerBound_eq_some_iff ms va j).mp hj
    rw [hj] at habove
    have hstart : va + size ≤ j := by simpa using habove
    have := hmin k hk hlt.le
    omega

/-- A nonempty range clear of every mapping is not itself mapped. -/
theorem MappingsWf.find?_of_apart (hw : MappingsWf rs ms) {va size : Nat} (hpos : 0 < size)
    (hapart : ∀ k mh, ms.find? k = some mh → va + size ≤ k ∨ k + mh.size ≤ va) :
    ms.find? va = none := by
  cases h : ms.find? va with
  | none => rfl
  | some mh =>
    have := hw.mapped_pos va mh h
    rcases hapart va mh h with h1 | h1 <;> omega

/-- A new mapping inside reservation `r` and clear of the others, counted in
`r`'s use count. -/
theorem MappingsWf.addMapping (hw : MappingsWf rs ms) {r va size handle : Nat} {a : AddressHandle}
    (hr : rs.find? r = some a) (hlo : r ≤ va) (hhi : va + size ≤ r + a.size) (hpos : 0 < size)
    (hapart : ∀ k mh, ms.find? k = some mh → va + size ≤ k ∨ k + mh.size ≤ va) :
    MappingsWf (rs.modify r fun a => { a with useCount := a.useCount + 1 })
      (ms.assign va ⟨handle, r, size⟩) := by
  have hva := hw.find?_of_apart hpos hapart
  refine ⟨?_, ?_, ?_, ?_, ?_, ?_⟩
  · intro r' a' h'
    obtain ⟨a0, h0, rfl⟩ := OrdMap.find?_modify_eq_some h'
    split_ifs <;> exact hw.reserved_pos r' a0 h0
  · intro r₁ a₁ r₂ a₂ h₁ h₂ hne
    obtain ⟨b₁, hb₁, rfl⟩ := OrdMap.find?_modify_eq_some h₁
    obtain ⟨b₂, hb₂, rfl⟩ := OrdMap.find?_modify_eq_some h₂
    split_ifs <;> exact hw.reserved_apart r₁ b₁ r₂ b₂ hb₁ hb₂ hne
  · intro k mh hmh
    by_cases hk : k = va
    · simp only [hk, OrdMap.find?_assign, if_true, Option.some.injEq] at hmh
      exact hmh ▸ hpos
    · simp only [OrdMap.find?_assign, hk, if_false] at hmh
      exact hw.mapped_pos k mh hmh
  · intro k₁ m₁ k₂ m₂ h₁ h₂ hne
    by_cases hk₁ : k₁ = va
    · subst hk₁
      have hk₂ : k₂ ≠ k₁ := Ne.symm hne
      simp only [OrdMap.find?_assign, if_true, Option.some.injEq] at h₁
      simp only [OrdMap.find?_assign, hk₂, if_false] at h₂
      subst h₁
      exact hapart k₂ m₂ h₂
    · by_cases hk₂ : k₂ = va
      · subst hk₂
        simp only [OrdMap.find?_assign, if_true, Option.some.injEq] at h₂
        simp only [OrdMap.find?_assign, hk₁, if_false] at h₁
        subst h₂
        exact (hapart k₁ m₁ h₁).symm
      · simp only [OrdMap.find?_assign, hk₁, hk₂, if_false] at h₁ h₂
        exact hw.mapped_apart k₁ m₁ k₂ m₂ h₁ h₂ hne
  · intro k mh hmh
    by_cases hk : k = va
    · simp only [hk, OrdMap.find?_assign, if_true, Option.some.injEq] at hmh
      subst hmh
      exact ⟨_, OrdMap.find?_modify_of_some _ hr, by simpa [hk] using hlo, by simpa [hk] using hhi⟩
    · simp only [OrdMap.find?_assign, hk, if_false] at hmh
      obtain ⟨a', ha', hlo', hhi'⟩ := hw.inside k mh hmh
      refine ⟨_, OrdMap.find?_modify_of_some _ ha', hlo', ?_⟩
      split_ifs <;> exact hhi'
  · intro r' a' h'
    obtain ⟨a0, h0, rfl⟩ := OrdMap.find?_modify_eq_some h'
    rw [OrdMap.sumBy_assign_of_none _ _ hva, Int.natCast_add, ← hw.address_use r' a0 h0]
    by_cases hr' : r' = r
    · simp [hr', refersTo]
    · simp [hr', refersTo, Ne.symm hr']

/-- Dropping the mapping at `va`, no longer counted in its reservation. -/
theorem MappingsWf.removeMapping (hw : MappingsWf rs ms) {va : Nat} {mh : MappedHandle}
    (hmh : ms.find? va = some mh) :
    MappingsWf (rs.modify mh.addressHandle fun a => { a with useCount := a.useCount - 1 })
      (ms.erase va) := by
  refine ⟨?_, ?_, ?_, ?_, ?_, ?_⟩
  · intro r' a' h'
    obtain ⟨a0, h0, rfl⟩ := OrdMap.find?_modify_eq_some h'
    split_ifs <;> exact hw.reserved_pos r' a0 h0
  · intro r₁ a₁ r₂ a₂ h₁ h₂ hne
    obtain ⟨b₁, hb₁, rfl⟩ := OrdMap.find?_modify_eq_some h₁
    obtain ⟨b₂, hb₂, rfl⟩ := OrdMap.find?_modify_eq_some h₂
    split_ifs <;> exact hw.reserved_apart r₁ b₁ r₂ b₂ hb₁ hb₂ hne
  · intro k m hm
    by_cases hk : k = va
    · simp [hk] at hm
    · simp only [OrdMap.find?_erase, hk, if_false] at hm
      exact hw.mapped_pos k m hm
  · intro k₁ m₁ k₂ m₂ h₁ h₂ hne
    by_cases hk₁ : k₁ = va
    · simp [hk₁] at h₁
    · by_cases hk₂ : k₂ = va
      · simp [hk₂] at h₂
      · simp only [OrdMap.find?_erase, hk₁, hk₂, if_false] at h₁ h₂
        exact hw.mapped_apart k₁ m₁ k₂ m₂ h₁ h₂ hne
  · intro k m hm
    by_cases hk : k = va
    · simp [hk] at hm
    · simp only [OrdMap.find?_erase, hk, if_false] at hm
      obtain ⟨a', ha', hlo', hhi'⟩ := hw.inside k m hm
      refine ⟨_, OrdMap.find?_modify_of_some _ ha', hlo', ?_⟩
      split_ifs <;> exact hhi'
  · intro r' a' h'
    obtain ⟨a0, h0, rfl⟩ := OrdMap.find?_modify_eq_some h'
    have hsum := OrdMap.sumBy_erase (refersTo r') hmh
    have huse := hw.address_use r' a0 h0
    by_cases hr' : r' = mh.addressHandle
    · simp only [hr', if_true, refersTo] at hsum huse ⊢
      push_cast [← hsum] at huse ⊢
      omega
    · simp only [hr', if_false, refersTo, Ne.symm hr'] at hsum huse ⊢
      omega

/-- A reservation that holds no mapping meets none: every mapping lies in
another reservation, which is apart from it. -/
theorem MappingsWf.apart_of_unreferenced (hw : MappingsWf rs ms) {r : Nat} {a : AddressHandle}
    (hr : rs.find? r = some a) (hunref : ∀ va mh, ms.find? va = some mh → mh.addressHandle ≠ r) :
    ∀ va mh, ms.find? va = some mh → va + mh.size ≤ r ∨ r + a.size ≤ va := by
  intro va mh hmh
  obtain ⟨a', ha', hlo, hhi⟩ := hw.inside va mh hmh
  rcases hw.reserved_apart r a mh.addressHandle a' hr ha' (Ne.symm (hunref va mh hmh)) with h | h <;>
    omega

/-- A mapping points at a reservation exactly when it lies inside it: it lies
inside its own, and the others are apart from that one. -/
theorem MappingsWf.refersTo_iff_inside (hw : MappingsWf rs ms) {r va : Nat} {a : AddressHandle}
    {mh : MappedHandle} (hr : rs.find? r = some a) (hmh : ms.find? va = some mh) :
    mh.addressHandle = r ↔ r ≤ va ∧ va + mh.size ≤ r + a.size := by
  obtain ⟨a', ha', hlo, hhi⟩ := hw.inside va mh hmh
  have hpos := hw.mapped_pos va mh hmh
  constructor
  · rintro rfl
    rw [hr] at ha'
    cases ha'
    exact ⟨hlo, hhi⟩
  · rintro ⟨hlo', hhi'⟩
    by_contra hne
    rcases hw.reserved_apart _ a' r a ha' hr hne with h | h <;> omega

/-- The use count of a reservation is the number of mappings inside its
range. -/
theorem MappingsWf.address_count (hw : MappingsWf rs ms) {r : Nat} {a : AddressHandle}
    (hr : rs.find? r = some a) :
    a.useCount = ms.sumBy (fun va mh => if r ≤ va ∧ va + mh.size ≤ r + a.size then 1 else 0) := by
  rw [hw.address_use r a hr]
  congr 1
  apply OrdMap.sumBy_congr
  intro va mh hmh
  simp only [refersTo, hw.refersTo_iff_inside hr hmh]

end Mappings

/-! ## What one call does -/

/-- Whether `[a, a + size)` is clear of every reservation, entry by entry. -/
theorem clearOf_spec {m : OrdMap Nat AddressHandle} {a size : Nat} (h : clearOf m a size = true) :
    ∀ r v, m.find? r = some v → a + size ≤ r ∨ r + v.size ≤ a := by
  intro r v hv
  have he := List.all_eq_true.mp h (r, v) (OrdMap.mem_entries_of_find? hv)
  simpa using he

/-- What one call does to the memory handles: it keeps every handle and gives
none back, or it gives back exactly one, which it drops from the map and whose
counts before the call added up to the one count the call takes away. -/
inductive FreeStep (s s' : State) : Prop
  | keep : s'.freed = s.freed →
      (∀ h ∈ s.memoryHandleMap.keys, h ∈ s'.memoryHandleMap.keys) → FreeStep s s'
  | give (h : Nat) (m : MemoryHandle) : s.memoryHandleMap.find? h = some m →
      0 ≤ m.refCount → 0 ≤ m.useCount → m.refCount + m.useCount = 1 →
      s'.freed = s.freed ++ [h] → h ∉ s'.memoryHandleMap.keys →
      (∀ h' ∈ s.memoryHandleMap.keys, h' ≠ h → h' ∈ s'.memoryHandleMap.keys) → FreeStep s s'

/-- A reservation a call drops met no mapping. -/
def ReserveStep (s s' : State) : Prop :=
  ∀ r a, s.reservedAddressMap.find? r = some a → r ∉ s'.reservedAddressMap.keys →
    ∀ va mh, s.mappedHandleMap.find? va = some mh → va + mh.size ≤ r ∨ r + a.size ≤ va

/-- A call that keeps every reservation drops none. -/
theorem ReserveStep.of_keys {s s' : State}
    (h : ∀ r ∈ s.reservedAddressMap.keys, r ∈ s'.reservedAddressMap.keys) : ReserveStep s s' := by
  intro r a hr hr'
  exact absurd (h r (OrdMap.mem_keys_of_find? hr)) hr'

/-- The reference count of handle `h`, `0` once the handle is gone. -/
def State.refCountOf (s : State) (h : Nat) : Int :=
  ((s.memoryHandleMap.find? h).map MemoryHandle.refCount).getD 0

/-- The references a call takes on handle `h` when it succeeds: one on the
handle `VMemoryHandleCreate` or `VMemoryImportShareableHandle` returns, one
on the handle mapped at the address `VMemoryRetainAllocHandle` is given, and
one given back on the handle `VMemoryHandleRelease` is given. -/
def Op.references (s : State) (h : Nat) : Op → Int
  | .handleCreate _ _ (.ok handle) => if h = handle then 1 else 0
  | .importShareableHandle (some (thunkHandle, _)) _ _ => if h = thunkHandle then 1 else 0
  | .retainAllocHandle va =>
    match s.mappedHandleMap.find? va with
    | some mh => if h = mh.memHandle then 1 else 0
    | none => 0
  | .handleRelease handle => if h = handle then -1 else 0
  | _ => 0

/-- What the runtime guarantees of call `op`: a call that fails changes
nothing, one that succeeds changes every reference count by the references
it takes, the handles it gives back are the ones it drops, and the
reservations it drops are empty. -/
structure StepGuarantees (op : Op) (s : State) (r : Status × State) : Prop where
  unchanged : r.1 ≠ .success → r.2 = s
  references : r.1 = .success → ∀ h, r.2.refCountOf h = s.refCountOf h + op.references s h
  frees : FreeStep s r.2
  reservations : ReserveStep s r.2

/-- The guarantees of a call, and the invariant after it. -/
structure CallOk (op : Op) (s : State) (r : Status × State) : Prop extends StepGuarantees op s r where
  inv : r.2.Inv

variable {s : State} {op : Op}

/-- A call that returns the state it was given, with an error or as a call
that takes no reference. -/
theorem CallOk.refl (hi : s.Inv) (st : Status) (hr : st = .success → ∀ h, op.references s h = 0) :
    CallOk op s (st, s) where
  unchanged _ := rfl
  references hst h := by
    rw [hr hst h, Int.add_zero]
  frees := .keep rfl fun _ h => h
  reservations := ReserveStep.of_keys fun _ h => h
  inv := hi

/-- A call that fails returns the state it was given. -/
theorem CallOk.fail (hi : s.Inv) {st : Status} (hst : st ≠ .success) : CallOk op s (st, s) :=
  CallOk.refl hi st fun h => absurd h hst

/-- A successful call that gives nothing back and drops no reservation. -/
theorem CallOk.of_success {s' : State} (hi : s'.Inv) (hf : s'.freed = s.freed)
    (href : ∀ h, s'.refCountOf h = s.refCountOf h + op.references s h)
    (hm : ∀ h ∈ s.memoryHandleMap.keys, h ∈ s'.memoryHandleMap.keys)
    (hr : ∀ r ∈ s.reservedAddressMap.keys, r ∈ s'.reservedAddressMap.keys) :
    CallOk op s (.success, s') where
  unchanged h := absurd rfl h
  references _ := href
  frees := .keep hf hm
  reservations := ReserveStep.of_keys hr
  inv := hi

/-! ### The reference counts after a call -/

section References

variable {s' : State} {k : Nat} {m : MemoryHandle}

/-- A call that keeps the memory handles keeps every reference count. -/
theorem refCountOf_of_map_eq (he : s'.memoryHandleMap = s.memoryHandleMap) :
    ∀ h, s'.refCountOf h = s.refCountOf h := by
  intro h
  rw [State.refCountOf, he, State.refCountOf]

/-- Updating handle `k` in place by `f`, which adds `d` to its reference count. -/
theorem refCountOf_modify (hm : s.memoryHandleMap.find? k = some m) (f : MemoryHandle → MemoryHandle)
    {d : Int} (he : s'.memoryHandleMap = s.memoryHandleMap.modify k f)
    (hf : (f m).refCount = m.refCount + d) :
    ∀ h, s'.refCountOf h = s.refCountOf h + if h = k then d else 0 := by
  intro h
  simp only [State.refCountOf, he, OrdMap.find?_modify]
  split_ifs with hk
  · subst hk
    simp [hm, hf]
  · simp

/-- Updating handle `k` in place without touching its reference count. -/
theorem refCountOf_modify_keep (f : MemoryHandle → MemoryHandle)
    (he : s'.memoryHandleMap = s.memoryHandleMap.modify k f) (hf : ∀ m, (f m).refCount = m.refCount) :
    ∀ h, s'.refCountOf h = s.refCountOf h := by
  intro h
  simp only [State.refCountOf, he, OrdMap.find?_modify]
  split_ifs with hk
  · subst hk
    cases s.memoryHandleMap.find? h <;> simp [hf]
  · rfl

/-- Placing a new handle `k` with one reference. -/
theorem refCountOf_insert (hk : s.memoryHandleMap.find? k = none) (size : Nat)
    (he : s'.memoryHandleMap = s.memoryHandleMap.insert k ⟨size, 1, 0⟩) :
    ∀ h, s'.refCountOf h = s.refCountOf h + if h = k then 1 else 0 := by
  intro h
  simp only [State.refCountOf, he, OrdMap.insert_of_none _ hk, OrdMap.find?_assign]
  split_ifs with hhk
  · subst hhk
    simp [hk]
  · simp

/-- Giving back handle `k` when the call takes its count to `0`. -/
theorem refCountOf_erase (hm : s.memoryHandleMap.find? k = some m) {d : Int} (hd : m.refCount + d = 0)
    (he : s'.memoryHandleMap = s.memoryHandleMap.erase k) :
    ∀ h, s'.refCountOf h = s.refCountOf h + if h = k then d else 0 := by
  intro h
  simp only [State.refCountOf, he, OrdMap.find?_erase]
  split_ifs with hk
  · subst hk
    simp [hm, hd]
  · simp

/-- A call that keeps every reference count and takes no reference. -/
theorem refCounts_keep (hkeep : ∀ h, s'.refCountOf h = s.refCountOf h)
    (hz : ∀ h, op.references s h = 0) :
    ∀ h, s'.refCountOf h = s.refCountOf h + op.references s h := by
  intro h
  rw [hkeep, hz, Int.add_zero]

end References

/-- A use count counts mappings, so it is not negative. -/
theorem State.Inv.useCount_nonneg (hi : s.Inv) {h : Nat} {m : MemoryHandle}
    (hm : s.memoryHandleMap.find? h = some m) : 0 ≤ m.useCount := by
  rw [hi.handles.memory_use h m hm]
  exact Int.natCast_nonneg _

theorem State.Inv.vMemoryAddressReserve (hi : s.Inv) {size : Nat} {alloc : Option Nat}
    (hpos : 0 < size) (hclear : ∀ a, alloc = some a → clearOf s.reservedAddressMap a size = true) :
    CallOk (.addressReserve size alloc) s (s.vMemoryAddressReserve size alloc) := by
  cases alloc with
  | none => exact CallOk.fail hi (by decide)
  | some a =>
    refine CallOk.of_success ⟨?_, hi.handles⟩ rfl (refCounts_keep (refCountOf_of_map_eq rfl) fun _ => rfl)
      (fun _ h => h) ?_
    · exact hi.mappings.assignFresh hpos (clearOf_spec (hclear a rfl))
    · intro r hr
      exact (OrdMap.mem_keys_assign _ _ _ _).mpr (Or.inr hr)

theorem State.Inv.vMemoryAddressFree (hi : s.Inv) (va size : Nat) (kmtFreed : Bool) :
    CallOk (.addressFree va size kmtFreed) s (s.vMemoryAddressFree va size kmtFreed) := by
  unfold State.vMemoryAddressFree
  split
  · exact CallOk.fail hi (by decide)
  · rename_i a ha
    split_ifs with hsize huse hkmt
    · exact CallOk.fail hi (by decide)
    · exact CallOk.fail hi (by decide)
    · exact CallOk.fail hi (by decide)
    · refine ⟨⟨fun h => absurd rfl h, fun _ => refCounts_keep (refCountOf_of_map_eq rfl) fun _ => rfl,
        .keep rfl fun _ h => h, ?_⟩, ⟨hi.mappings.erase ha huse, hi.handles⟩⟩
      -- the reservation dropped is `va`, which holds no mapping
      intro r a' hr hr'
      have hrva : r = va := by
        by_contra hne
        exact hr' ((OrdMap.mem_keys_erase _ _ _).mpr ⟨hne, OrdMap.mem_keys_of_find? hr⟩)
      subst hrva
      rw [ha] at hr
      cases hr
      have hz : s.mappedHandleMap.sumBy (refersTo r) = 0 := by
        have := hi.mappings.address_use r a ha
        omega
      exact hi.mappings.apart_of_unreferenced ha (unreferenced_of_sum_zero hz)

theorem State.Inv.vMemoryHandleCreate (hi : s.Inv) (size pageSize : Nat) (allocate : Except Status Nat)
    (hfresh : ∀ handle, allocate = .ok handle → s.memoryHandleMap.find? handle = none) :
    CallOk (.handleCreate size pageSize allocate) s (s.vMemoryHandleCreate size pageSize allocate) := by
  unfold State.vMemoryHandleCreate
  split_ifs
  · exact CallOk.fail hi (by decide)
  · cases allocate with
    | error e => exact CallOk.refl hi e fun _ _ => rfl
    | ok handle =>
      refine CallOk.of_success ⟨hi.mappings, hi.handles.insert handle size⟩ rfl
        (refCountOf_insert (hfresh handle rfl) size rfl) ?_ (fun _ h => h)
      intro h hh
      exact (OrdMap.mem_keys_insert _ _ _ _).mpr (Or.inr hh)

theorem State.Inv.vMemoryHandleRelease (hi : s.Inv) (handle : Nat) :
    CallOk (.handleRelease handle) s (s.vMemoryHandleRelease handle) := by
  unfold State.vMemoryHandleRelease
  split
  · exact CallOk.fail hi (by decide)
  · rename_i m hm
    have huse := hi.useCount_nonneg hm
    have href := hi.handles.ref_nonneg handle m hm
    split_ifs with hzero hlast
    · exact CallOk.fail hi (by decide)
    · -- the last reference of an unmapped handle: it is given back
      have hz : s.mappedHandleMap.sumBy (usesHandle handle) = 0 := by
        have := hi.handles.memory_use handle m hm
        omega
      refine ⟨⟨fun h => absurd rfl h, fun _ => refCountOf_erase hm (d := -1) (by omega) rfl, ?_,
        ReserveStep.of_keys fun _ h => h⟩, ⟨hi.mappings, hi.handles.erase (unused_of_sum_zero hz)⟩⟩
      refine .give handle m hm href huse (by omega) rfl ?_ ?_
      · simp [OrdMap.mem_keys_erase]
      · intro h' hh' hne
        exact (OrdMap.mem_keys_erase _ _ _).mpr ⟨hne, hh'⟩
    · -- references are left, or mappings: one reference fewer
      refine CallOk.of_success ⟨hi.mappings, ?_⟩ rfl ?_ ?_ (fun _ h => h)
      · exact hi.handles.modifyRef hm (fun m => { m with refCount := m.refCount - 1 }) rfl
          (by dsimp only; omega) (by dsimp only; omega)
      · exact refCountOf_modify hm (fun m => { m with refCount := m.refCount - 1 }) rfl rfl
      · intro h hh
        rwa [OrdMap.keys_modify]

theorem State.Inv.vMemoryHandleMap (hi : s.Inv) {va size : Nat} (hpos : 0 < size) (handle : Nat)
    (driver : MapDriver) :
    CallOk (.handleMap va size handle driver) s (s.vMemoryHandleMap va size handle driver) := by
  unfold State.vMemoryHandleMap
  split
  · exact CallOk.fail hi (by decide)
  · rename_i r hhold
    obtain ⟨a, ha, hlo, hhi⟩ := holdingReservation_spec hhold
    split
    · exact CallOk.fail hi (by decide)
    · rename_i hover
      have hapart := hi.mappings.apart_of_not_overlaps (Bool.eq_false_iff.mpr hover)
      have hva := hi.mappings.find?_of_apart hpos hapart
      split
      · exact CallOk.fail hi (by decide)
      · rename_i m hm
        cases driver with
        | exportFails => exact CallOk.fail hi (by decide)
        | importFails => exact CallOk.fail hi (by decide)
        | deviceArgsFail => exact CallOk.fail hi (by decide)
        | ok =>
          dsimp only
          rw [OrdMap.insert_of_none _ hva]
          refine CallOk.of_success ⟨?_, ?_⟩ rfl ?_ ?_ ?_
          · exact hi.mappings.addMapping ha hlo hhi hpos hapart
          · exact hi.handles.addMapping hm hva
          · exact refCounts_keep
              (refCountOf_modify_keep (fun m => { m with useCount := m.useCount + 1 }) rfl fun _ => rfl)
              fun _ => rfl
          · intro h hh
            rwa [OrdMap.keys_modify]
          · intro r' hr'
            rwa [OrdMap.keys_modify]

theorem State.Inv.vMemoryHandleUnmap (hi : s.Inv) (va size : Nat) (boFreed : Bool) :
    CallOk (.handleUnmap va size boFreed) s (s.vMemoryHandleUnmap va size boFreed) := by
  unfold State.vMemoryHandleUnmap
  split
  · exact CallOk.fail hi (by decide)
  · rename_i mh hmh
    split_ifs with hsize hbo
    · exact CallOk.fail hi (by decide)
    · exact CallOk.fail hi (by decide)
    · obtain ⟨m, hm⟩ := hi.handles.refers va mh hmh
      have hmappings := hi.mappings.removeMapping hmh
      -- the mapping at `va` is one of the handle's, so its use count is positive
      have hused : 1 ≤ m.useCount := by
        have hsum := sumBy_usesHandle_erase (h := mh.memHandle) hmh
        have huse := hi.handles.memory_use _ m hm
        simp only [if_true] at hsum
        omega
      have href := hi.handles.ref_nonneg _ m hm
      have hkeys : ∀ r ∈ s.reservedAddressMap.keys, r ∈ (s.reservedAddressMap.modify mh.addressHandle
          fun a => { a with useCount := a.useCount - 1 }).keys := by
        intro r hr
        rwa [OrdMap.keys_modify]
      have hm' : (s.memoryHandleMap.modify mh.memHandle fun m => { m with useCount := m.useCount - 1 }).find?
          mh.memHandle = some { m with useCount := m.useCount - 1 } := by
        simp [hm]
      dsimp only
      simp only [hm']
      split_ifs with hdead
      · -- the handle was released while mapped: its last mapping gives it back
        refine ⟨⟨fun h => absurd rfl h, fun _ => refCounts_keep ?_ fun _ => rfl, ?_,
          ReserveStep.of_keys hkeys⟩, ⟨hmappings, hi.handles.removeLastMapping hmh hm hdead.1⟩⟩
        · -- its reference count was already `0`
          intro h
          rw [refCountOf_erase hm (d := 0) (by simpa using hdead.2) (OrdMap.erase_modify _ _ _) h,
            ite_self, Int.add_zero]
        · refine .give mh.memHandle m hm href (by omega) (by omega) rfl ?_ ?_
          · simp [OrdMap.mem_keys_erase]
          · intro h' hh' hne
            refine (OrdMap.mem_keys_erase _ _ _).mpr ⟨hne, ?_⟩
            rwa [OrdMap.keys_modify]
      · refine CallOk.of_success ⟨hmappings, ?_⟩ rfl ?_ ?_ hkeys
        · exact hi.handles.removeMapping hmh hm (by omega)
        · exact refCounts_keep
            (refCountOf_modify_keep (fun m => { m with useCount := m.useCount - 1 }) rfl fun _ => rfl)
            fun _ => rfl
        · intro h hh
          rwa [OrdMap.keys_modify]

theorem State.Inv.vMemoryImportShareableHandle (hi : s.Inv) (registered : Option (Nat × Nat))
    (regionFound pointerKnown : Bool) :
    CallOk (.importShareableHandle registered regionFound pointerKnown) s
      (s.vMemoryImportShareableHandle registered regionFound pointerKnown) := by
  unfold State.vMemoryImportShareableHandle
  split
  · exact CallOk.fail hi (by decide)
  · rename_i thunkHandle size
    split
    · -- imported before: one more reference
      rename_i m hm
      have href := hi.handles.ref_nonneg _ m hm
      refine CallOk.of_success ⟨hi.mappings, ?_⟩ rfl ?_ ?_ (fun _ h => h)
      · exact hi.handles.modifyRef hm (fun m => { m with refCount := m.refCount + 1 }) rfl
          (by dsimp only; omega) (Or.inl (by dsimp only; omega))
      · exact refCountOf_modify hm (fun m => { m with refCount := m.refCount + 1 }) rfl rfl
      · intro h hh
        rwa [OrdMap.keys_modify]
    · rename_i hnone
      split_ifs
      · exact CallOk.fail hi (by decide)
      · exact CallOk.fail hi (by decide)
      · refine CallOk.of_success ⟨hi.mappings, hi.handles.insert thunkHandle size⟩ rfl
          (refCountOf_insert hnone size rfl) ?_ (fun _ h => h)
        intro h hh
        exact (OrdMap.mem_keys_insert _ _ _ _).mpr (Or.inr hh)

theorem State.Inv.vMemoryRetainAllocHandle (hi : s.Inv) (va : Nat) :
    CallOk (.retainAllocHandle va) s (s.vMemoryRetainAllocHandle va) := by
  unfold State.vMemoryRetainAllocHandle
  split
  · exact CallOk.fail hi (by decide)
  · rename_i mh hmh
    obtain ⟨m, hm⟩ := hi.handles.refers va mh hmh
    have href := hi.handles.ref_nonneg _ m hm
    have hrefs : ∀ h, Op.references s h (.retainAllocHandle va) = if h = mh.memHandle then 1 else 0 := by
      intro h
      simp only [Op.references, hmh]
    refine CallOk.of_success ⟨hi.mappings, ?_⟩ rfl ?_ ?_ (fun _ h => h)
    · exact hi.handles.modifyRef hm (fun m => { m with refCount := m.refCount + 1 }) rfl
        (by dsimp only; omega) (Or.inl (by dsimp only; omega))
    · intro h
      rw [hrefs]
      exact refCountOf_modify hm (fun m => { m with refCount := m.refCount + 1 }) rfl rfl h
    · intro h hh
      rwa [OrdMap.keys_modify]

/-- Every call, through its entry point, the driver answering as documented. -/
theorem State.Inv.step (hi : s.Inv) (op : Op) (hok : op.driverOk s = true) :
    CallOk op s (s.step op) := by
  cases op with
  | addressReserve size alloc =>
    simp only [State.step]
    split_ifs with h0
    · exact CallOk.fail hi (by decide)
    · refine hi.vMemoryAddressReserve (Nat.pos_of_ne_zero h0) ?_
      rintro a rfl
      exact hok
  | addressFree va size kmtFreed =>
    simp only [State.step]
    split_ifs
    · exact CallOk.fail hi (by decide)
    · exact hi.vMemoryAddressFree va size kmtFreed
  | handleCreate size pageSize allocate =>
    simp only [State.step]
    split_ifs
    · exact CallOk.fail hi (by decide)
    · refine hi.vMemoryHandleCreate size pageSize allocate ?_
      rintro handle rfl
      simpa [Op.driverOk] using hok
  | handleRelease handle => exact hi.vMemoryHandleRelease handle
  | handleMap va size handle driver =>
    simp only [State.step]
    split_ifs with h0
    · exact CallOk.fail hi (by decide)
    · exact hi.vMemoryHandleMap (Nat.pos_of_ne_zero fun h => h0 (Or.inr h)) handle driver
  | handleUnmap va size boFreed =>
    simp only [State.step]
    split_ifs
    · exact CallOk.fail hi (by decide)
    · exact hi.vMemoryHandleUnmap va size boFreed
  | importShareableHandle registered regionFound pointerKnown =>
    exact hi.vMemoryImportShareableHandle registered regionFound pointerKnown
  | retainAllocHandle va =>
    simp only [State.step]
    split_ifs
    · exact CallOk.fail hi (by decide)
    · exact hi.vMemoryRetainAllocHandle va

/-- The invariant holds in every state the calls reach. -/
theorem Reachable.inv (h : Reachable s) : s.Inv := by
  induction h with
  | init => exact inv_init
  | step op _ hok ih => exact (ih.step op hok).inv

/-! ## The guarantees -/

/-- What the runtime guarantees of its virtual memory state: the reservations
and the mappings are disjoint ranges, every mapping lies in a reservation and
refers to a present memory handle, every use count is the number of mappings
inside the reservation or of the handle, and every handle still has a
reference or a mapping. -/
structure State.Guarantees (s : State) : Prop where
  reserved_apart : ∀ r a r' a', s.reservedAddressMap.find? r = some a →
    s.reservedAddressMap.find? r' = some a' → r ≠ r' → r + a.size ≤ r' ∨ r' + a'.size ≤ r
  mapped_apart : ∀ va mh va' mh', s.mappedHandleMap.find? va = some mh →
    s.mappedHandleMap.find? va' = some mh' → va ≠ va' → va + mh.size ≤ va' ∨ va' + mh'.size ≤ va
  inside : ∀ va mh, s.mappedHandleMap.find? va = some mh →
    ∃ r a, s.reservedAddressMap.find? r = some a ∧ r ≤ va ∧ va + mh.size ≤ r + a.size
  address_count : ∀ r a, s.reservedAddressMap.find? r = some a →
    a.useCount = s.mappedHandleMap.sumBy (fun va mh => if r ≤ va ∧ va + mh.size ≤ r + a.size then 1 else 0)
  memory_count : ∀ h m, s.memoryHandleMap.find? h = some m →
    m.useCount = s.mappedHandleMap.sumBy (usesHandle h)
  live : ∀ h m, s.memoryHandleMap.find? h = some m → 0 < m.refCount ∨ 0 < m.useCount
  referenced : ∀ va mh, s.mappedHandleMap.find? va = some mh → mh.memHandle ∈ s.memoryHandleMap.keys

theorem State.Inv.guarantees (hi : s.Inv) : s.Guarantees where
  reserved_apart := hi.mappings.reserved_apart
  mapped_apart := hi.mappings.mapped_apart
  inside va mh hmh := ⟨mh.addressHandle, hi.mappings.inside va mh hmh⟩
  address_count _ _ hr := hi.mappings.address_count hr
  memory_count := hi.handles.memory_use
  live := hi.handles.live
  referenced va mh hmh := by
    obtain ⟨m, hm⟩ := hi.handles.refers va mh hmh
    exact OrdMap.mem_keys_of_find? hm

theorem reachable_guarantees (h : Reachable s) :
    s.Guarantees ∧ ∀ op, op.driverOk s = true → StepGuarantees op s (s.step op) :=
  ⟨h.inv.guarantees, fun op hok => (h.inv.step op hok).toStepGuarantees⟩

theorem reserve_create_map_guarantees :
    ∃ s : State, s = (((init.step (.addressReserve 8192 (some 4096))).2.step
        (.handleCreate 4096 4096 (.ok 7))).2.step (.handleMap 4096 4096 7 .ok)).2 ∧
      s.Guarantees ∧ ∀ op, op.driverOk s = true → StepGuarantees op s (s.step op) :=
  ⟨_, rfl, reachable_guarantees (.step _ (.step _ (.step _ .init rfl) rfl) rfl)⟩

end Runtime
