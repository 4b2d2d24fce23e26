import Mathlib

/-!
# Registered user memory

On a dGPU without the SVM API, `hsaKmtRegisterMemory`,
`hsaKmtRegisterMemoryToNodes` and `hsaKmtRegisterMemoryWithFlags` register a
host range through `hsakmt_fmm_register_memory`: a range seen for the first
time gets a userptr object, with a BO from KFD, in the user tree of the dGPU
aperture, keyed by its address and size; a range registered again only counts
one more registration.  `hsaKmtDeregisterMemory` finds the object by its
start address alone and releases it through `__fmm_release`, which frees the
BO and drops the object once the last registration is gone.  KFD's
allocation and free calls succeed.

An object's registration count is raised before the check that a second
registration asks for the same nodes, so a registration refused with
`HSAKMT_STATUS_MEMORY_ALREADY_REGISTERED` still counts, and the matching
deregistration no longer frees the BO (`refused_registration_counts`).
-/

namespace Fmm

/-- The fields of a userptr `vm_object_t` the registration calls use; the
device-id array is the GPU ids, its size in bytes four times their number. -/
structure VmObject where
  userptr : Nat
  userptrSize : Nat
  registrationCount : Nat
  registeredDeviceIdArray : List Nat
deriving DecidableEq, Repr

/-- `HSAKMT_STATUS` values of these calls. -/
inductive KmtStatus where
  | success
  | memoryAlreadyRegistered
  | memoryNotRegistered
deriving DecidableEq, Repr

/-- The user tree of the dGPU aperture, in key order, and the userptr ranges
whose BO has been freed, in order. -/
structure UserState where
  userTree : List VmObject
  freed : List (Nat × Nat)
deriving DecidableEq, Repr

namespace UserState

def init : UserState := ⟨[], []⟩

/-- `vm_find_object_by_userptr`: with a size, the object of exactly that
address and size; with size `0`, the one object at that address, and none if
several start there. -/
def findByUserptr (s : UserState) (address size : Nat) : Option VmObject :=
  if size ≠ 0 then s.userTree.find? fun o => o.userptr = address ∧ o.userptrSize = size
  else
    match s.userTree.filter fun o => o.userptr = address with
    | [o] => some o
    | _ => none

/-- Replace the object of a key. -/
def update (s : UserState) (o : VmObject) : UserState :=
  { s with userTree := s.userTree.map fun x =>
      if x.userptr = o.userptr ∧ x.userptrSize = o.userptrSize then o else x }

/-- `__fmm_release` of a userptr object: one registration fewer, and at the
last the BO is freed and the object leaves the tree. -/
def fmmRelease (s : UserState) (o : VmObject) : UserState :=
  let o := { o with registrationCount := o.registrationCount - 1 }
  if o.registrationCount > 0 then s.update o
  else
    { userTree := s.userTree.filter fun x => ¬ (x.userptr = o.userptr ∧ x.userptrSize = o.userptrSize),
      freed := s.freed ++ [(o.userptr, o.userptrSize)] }

/-- The device-id array step of `hsakmt_fmm_register_memory`, reached with
the object found or just made: a second array must equal the first. -/
def setDeviceIds (s : UserState) (o : VmObject) (gpuIdArray : List Nat) : KmtStatus × UserState :=
  if o.registeredDeviceIdArray.length > 0 then
    -- multiple registration is allowed, but not changing nodes
    if gpuIdArray ≠ o.registeredDeviceIdArray then (.memoryAlreadyRegistered, s)
    else (.success, s)
  else if gpuIdArray.length > 0 then (.success, s.update { o with registeredDeviceIdArray := gpuIdArray })
  else (.success, s)

/-- `hsakmt_fmm_register_memory` on a host range of a dGPU without the SVM
API; `fmm_register_user_memory` inserts a new object with one registration. -/
def registerMemory (s : UserState) (address size : Nat) (gpuIdArray : List Nat) : KmtStatus × UserState :=
  match s.findByUserptr address size with
  | none =>
    let o : VmObject := ⟨address, size, 1, []⟩
    let s := { s with userTree := s.userTree ++ [o] }
    if gpuIdArray.length = 0 then (.success, s) else s.setDeviceIds o gpuIdArray
  | some o =>
    -- an existing userptr: one more registration, before the node check
    let o := { o with registrationCount := o.registrationCount + 1 }
    (s.update o).setDeviceIds o gpuIdArray

/-- `hsakmt_fmm_deregister_memory` on a host range: a userptr object is
released. -/
def deregisterMemory (s : UserState) (address : Nat) : KmtStatus × UserState :=
  match s.findByUserptr address 0 with
  | none => (.memoryNotRegistered, s)
  | some o => (.success, s.fmmRelease o)

/-- The registration count of the object of a range, `0` for none. -/
def count (s : UserState) (address size : Nat) : Nat :=
  ((s.findByUserptr address size).map VmObject.registrationCount).getD 0

/-- After an update, the object of a key is found as updated. -/
theorem findByUserptr_update {s : UserState} {o o' : VmObject} {size : Nat} (hsize : size ≠ 0)
    (hfind : s.findByUserptr o.userptr size = some o) (hkey : o'.userptr = o.userptr)
    (hsz : o'.userptrSize = o.userptrSize) : (s.update o').findByUserptr o.userptr size = some o' := by
  unfold findByUserptr at hfind ⊢
  simp only [hsize, ne_eq, not_false_eq_true, if_true] at hfind ⊢
  have hkeyed := List.find?_some hfind
  simp only [decide_eq_true_eq] at hkeyed
  -- the update keeps every key, so the search finds the same entry, updated
  rw [update, List.find?_map]
  have hcomp : ((fun x : VmObject => decide (x.userptr = o.userptr ∧ x.userptrSize = size)) ∘
      fun x => if x.userptr = o'.userptr ∧ x.userptrSize = o'.userptrSize then o' else x) =
      fun x => decide (x.userptr = o.userptr ∧ x.userptrSize = size) := by
    funext x
    by_cases hx : x.userptr = o'.userptr ∧ x.userptrSize = o'.userptrSize
    · simp only [Function.comp_apply, hx, and_self, if_true, hkey, hsz, hkeyed.2]
    · simp [hx]
  rw [hcomp, hfind]
  simp [hkey, hsz]

/-- A registration of a range already registered to other nodes is refused,
and still counts. -/
theorem registerMemory_refused_counts {s : UserState} {address size : Nat} {ids : List Nat}
    {o : VmObject} (hsize : size ≠ 0) (hfind : s.findByUserptr address size = some o)
    (hset : o.registeredDeviceIdArray ≠ []) (hdiff : ids ≠ o.registeredDeviceIdArray) :
    (s.registerMemory address size ids).1 = .memoryAlreadyRegistered ∧
      (s.registerMemory address size ids).2.count address size = o.registrationCount + 1 := by
  have hkey : o.userptr = address := by
    unfold findByUserptr at hfind
    simp only [hsize, ne_eq, not_false_eq_true, if_true] at hfind
    have hkeyed := List.find?_some hfind
    simp only [decide_eq_true_eq] at hkeyed
    exact hkeyed.1
  subst hkey
  have hlen : o.registeredDeviceIdArray.length > 0 := List.length_pos_of_ne_nil hset
  have hfound := @findByUserptr_update s o { o with registrationCount := o.registrationCount + 1 } size
    hsize hfind rfl rfl
  simp only [registerMemory, hfind, setDeviceIds, hlen, hdiff, if_true, ne_eq, not_false_eq_true,
    count, hfound, Option.map_some, Option.getD_some, and_self]

/-- Register `[0x1000, 0x3000)` to GPU 1, register it again to GPU 2 (refused),
and deregister it once: one registration succeeded and one was released, but
the object keeps a registration and its BO is not freed. -/
theorem refused_registration_counts :
    (init.registerMemory 0x1000 0x2000 [1]).1 = .success ∧
    ((init.registerMemory 0x1000 0x2000 [1]).2.registerMemory 0x1000 0x2000 [2]).1 =
      .memoryAlreadyRegistered ∧
    ((init.registerMemory 0x1000 0x2000 [1]).2.registerMemory 0x1000 0x2000 [2]).2.count 0x1000 0x2000 = 2 ∧
    (((init.registerMemory 0x1000 0x2000 [1]).2.registerMemory 0x1000 0x2000 [2]).2.deregisterMemory 0x1000) =
      (.success, ⟨[⟨0x1000, 0x2000, 1, [1]⟩], []⟩) := by
  -- the second registration names other nodes than the object's
  have hrefused := @registerMemory_refused_counts (init.registerMemory 0x1000 0x2000 [1]).2 0x1000 0x2000
    [2] ⟨0x1000, 0x2000, 1, [1]⟩ (by decide) (by decide) (by decide) (by decide)
  exact ⟨by decide, hrefused.1, hrefused.2, by decide⟩

end UserState

end Fmm
