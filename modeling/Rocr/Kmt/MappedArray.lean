import Mathlib
import Rocr.Kmt.MapNodes

/-!
# The mapped device array, as the C code keeps it

`remove_device_ids_from_mapped_array` compacts the object's
`mapped_device_id_array` in place: index `i` reads every id, index `j` writes
back those not in the array handed in, and when `j` ends at zero the array is
freed and the pointer set to null.  Handed the mapped array itself, it only
empties it.  `add_device_ids_to_mapped_array` removes the ids it is handed,
grows the array with `realloc` and copies them in after the kept ones.

`Compacted` is the loop's invariant: after `i` passes the first `j` slots hold
the kept ids among the first `i`, in their order, and the slots from `i` on
are untouched (`Compacted.step`, `compacted_range`).  So the in-place helpers
compute the list model of `Rocr.Kmt.MapNodes` (`removeDeviceIdsInPlace_eq`,
`addDeviceIdsInPlace_eq`).

Over a run of `_fmm_map_to_gpu` and `_fmm_unmap_from_gpu` calls, the GPUs the
buffer is mapped to are what the ioctls issued leave mapped: a map ioctl adds
its devices, an unmap ioctl removes them (`Ioctl.mappedAfter`).  When every
ioctl handles all of its devices and lists none twice, the mapped array stays
duplicate-free and holds exactly those GPUs (`Tracks.runCalls`,
`mappedDeviceIdArray_bookkeeping`).
-/

namespace Fmm.GpuMap

/-! ## The in-place helpers -/

/-- One pass of the loop in `remove_device_ids_from_mapped_array`: the id at
`i` is copied down to `j` when it is not in `idsArray`. -/
def compactStep (idsArray : List UInt32) (s : List UInt32 × Nat) (i : Nat) : List UInt32 × Nat :=
  if !idInArray (s.1.getD i 0) idsArray then (s.1.set s.2 (s.1.getD i 0), s.2 + 1) else s

/-- The loop of `remove_device_ids_from_mapped_array`, `i` running over the
mapped array: the array after it, and `j`. -/
def compactMappedArray (mapped idsArray : List UInt32) : List UInt32 × Nat :=
  (List.range mapped.length).foldl (compactStep idsArray) (mapped, 0)

/-- `remove_device_ids_from_mapped_array` as the C code runs it: the ids left
in the array, or `none` for the null pointer it leaves when there are none. -/
def removeDeviceIdsInPlace (mapped : List UInt32) : IdsArray → Option (List UInt32)
  | .mapped => none
  | .given idsArray =>
    let s := compactMappedArray mapped idsArray
    if s.2 = 0 then none else some (s.1.take s.2)

/-- `add_device_ids_to_mapped_array` as the C code runs it when `realloc`
succeeds: the array after the removal (empty when null), grown by the ids,
which are copied in from index `j` on. -/
def addDeviceIdsInPlace (mapped idsArray : List UInt32) : List UInt32 :=
  (removeDeviceIdsInPlace mapped (.given idsArray)).getD [] ++ idsArray

/-- What the loop has done after `i` passes: the array keeps its length, its
first `j` slots hold the ids among the first `i` that are not in `idsArray`,
in order, and the slots from `i` on are untouched. -/
structure Compacted (mapped idsArray : List UInt32) (i : Nat) (s : List UInt32 × Nat) : Prop where
  length_eq : s.1.length = mapped.length
  le : s.2 ≤ i
  kept : s.1.take s.2 = (mapped.take i).filter fun id => !idInArray id idsArray
  rest : s.1.drop i = mapped.drop i

section Loop

variable {mapped idsArray : List UInt32}

/-- One pass keeps the invariant: the slot at `i` still holds the old id,
and `j ≤ i` keeps the write below the slots not yet read. -/
theorem Compacted.step {i : Nat} {s : List UInt32 × Nat} (h : Compacted mapped idsArray i s)
    (hi : i < mapped.length) : Compacted mapped idsArray (i + 1) (compactStep idsArray s i) := by
  obtain ⟨a, j⟩ := s
  obtain ⟨hlen, hle, hkept, hrest⟩ := h
  dsimp only at hlen hle hkept hrest
  have hread : a.getD i 0 = mapped[i] := by
    have h0 := congrArg (·[0]?) hrest
    simp only [List.getElem?_drop, Nat.add_zero] at h0
    rw [List.getD_eq_getElem?_getD, h0, List.getElem?_eq_getElem hi, Option.getD_some]
  have hnext : a.drop (i + 1) = mapped.drop (i + 1) := by
    rw [← List.drop_drop, hrest, List.drop_drop]
  have htake : mapped.take (i + 1) = mapped.take i ++ [mapped[i]] := by
    rw [List.take_add_one, List.getElem?_eq_getElem hi]
    rfl
  simp only [compactStep, hread]
  by_cases hk : idInArray mapped[i] idsArray = true
  · -- an id of `idsArray`: nothing is written
    rw [hk, Bool.not_true, if_neg Bool.false_ne_true]
    refine ⟨hlen, by dsimp only; omega, ?_, hnext⟩
    rw [htake, List.filter_append, ← hkept]
    simp [hk]
  · -- a kept id: copied down to slot `j`
    have hj : j < a.length := by omega
    rw [Bool.not_eq_true] at hk
    rw [hk, Bool.not_false, if_pos rfl]
    refine ⟨by rw [List.length_set, hlen], by dsimp only; omega, ?_, ?_⟩
    · dsimp only
      rw [List.take_add_one, List.take_set_of_le le_rfl, List.getElem?_set_self hj, hkept, htake,
        List.filter_append]
      simp [hk]
    · rw [List.drop_set_of_lt (by omega), hnext]

/-- The invariant after the first `i` passes, by induction on `i`. -/
theorem compacted_range {i : Nat} (hi : i ≤ mapped.length) :
    Compacted mapped idsArray i ((List.range i).foldl (compactStep idsArray) (mapped, 0)) := by
  induction i with
  | zero => exact ⟨rfl, le_rfl, by simp, rfl⟩
  | succ i ih =>
    rw [List.range_succ, List.foldl_append, List.foldl_cons, List.foldl_nil]
    exact (ih (by omega)).step (by omega)

/-- After the loop, `j` counts the kept ids and the first `j` slots hold them. -/
theorem compactMappedArray_spec (mapped idsArray : List UInt32) :
    (compactMappedArray mapped idsArray).2 =
        (removeDeviceIdsFromMappedArray mapped (.given idsArray)).length ∧
      (compactMappedArray mapped idsArray).1.take (compactMappedArray mapped idsArray).2 =
        removeDeviceIdsFromMappedArray mapped (.given idsArray) := by
  obtain ⟨hlen, hle, hkept, -⟩ := @compacted_range mapped idsArray _ (le_refl mapped.length)
  rw [List.take_length] at hkept
  refine ⟨?_, hkept⟩
  have hcount := congrArg List.length hkept
  rw [List.length_take, hlen, Nat.min_eq_left hle] at hcount
  exact hcount

end Loop

example : compactMappedArray [1, 2, 3, 4] [2] = ([1, 3, 4, 4], 3) := by decide

/-- The in-place removal leaves the list model's ids, and a null pointer
exactly when there are none. -/
theorem removeDeviceIdsInPlace_eq (mapped : List UInt32) (a : IdsArray) :
    removeDeviceIdsInPlace mapped a =
      if removeDeviceIdsFromMappedArray mapped a = [] then none
      else some (removeDeviceIdsFromMappedArray mapped a) := by
  cases a with
  | mapped => simp [removeDeviceIdsInPlace, removeDeviceIdsFromMappedArray]
  | given idsArray =>
    obtain ⟨hcount, hkept⟩ := compactMappedArray_spec mapped idsArray
    simp only [removeDeviceIdsInPlace]
    rw [hkept, hcount]
    simp only [List.length_eq_zero_iff]

theorem addDeviceIdsInPlace_eq (mapped idsArray : List UInt32) :
    addDeviceIdsInPlace mapped idsArray = addDeviceIdsToMappedArray mapped idsArray := by
  rw [addDeviceIdsInPlace, removeDeviceIdsInPlace_eq, addDeviceIdsToMappedArray]
  split_ifs with h
  · rw [h, Option.getD_none]
  · rfl

/-! ## The calls, one at a time -/

section Calls

variable (env : Env) (obj : VmObject)

/-- `_fmm_map_to_gpu` either issues no ioctl and keeps the mapped array, or
issues one map ioctl and, when that maps all of its devices, adds them. -/
theorem fmmMapToGpu_cases (nodesToMap : Option (List UInt32)) :
    ((fmmMapToGpu env obj nodesToMap).2.2 = [] ∧
        (fmmMapToGpu env obj nodesToMap).2.1.mappedDeviceIdArray = obj.mappedDeviceIdArray) ∨
      ∃ ids, (fmmMapToGpu env obj nodesToMap).2.2 = [.map obj.handle ids] ∧
        (env.FullSuccess (.map obj.handle ids) →
          (fmmMapToGpu env obj nodesToMap).2.1.mappedDeviceIdArray =
            addDeviceIdsToMappedArray obj.mappedDeviceIdArray ids) := by
  unfold fmmMapToGpu
  by_cases huser : obj.userptr = true ∧ obj.mappingCount ≠ 0
  · rw [if_pos huser]
    exact Or.inl ⟨rfl, rfl⟩
  · -- the ids are the ones `nodes_to_map`, the registered array or the
    -- default picks; the ioctl is logged whatever it answers
    rw [if_neg huser]
    dsimp only
    refine Or.inr ⟨?ids, ?log, ?full⟩
    case log =>
      simp only [apply_ite Prod.snd, ite_self]
      rfl
    intro hfull
    have h := hfull
    unfold Env.FullSuccess Env.answer Ioctl.ids at h
    simp only [h, ne_eq, not_true_eq_false, if_false, List.take_length]

/-- `_fmm_unmap_from_gpu` issues no ioctl and keeps the mapped array, or
unmaps the ids it is handed and, when all are unmapped, removes them, or
unmaps the whole mapped array and empties it. -/
theorem fmmUnmapFromGpu_cases (deviceIdsArray : List UInt32) :
    ((fmmUnmapFromGpu env obj deviceIdsArray).2.2 = [] ∧
        (fmmUnmapFromGpu env obj deviceIdsArray).2.1.mappedDeviceIdArray =
          obj.mappedDeviceIdArray) ∨
      ((fmmUnmapFromGpu env obj deviceIdsArray).2.2 = [.unmap obj.handle deviceIdsArray] ∧
        (env.FullSuccess (.unmap obj.handle deviceIdsArray) →
          (fmmUnmapFromGpu env obj deviceIdsArray).2.1.mappedDeviceIdArray =
            removeDeviceIdsFromMappedArray obj.mappedDeviceIdArray (.given deviceIdsArray))) ∨
      ((fmmUnmapFromGpu env obj deviceIdsArray).2.2 = [.unmap obj.handle obj.mappedDeviceIdArray] ∧
        (fmmUnmapFromGpu env obj deviceIdsArray).2.1.mappedDeviceIdArray = []) := by
  unfold fmmUnmapFromGpu
  split_ifs with huser hids hmapped
  · exact Or.inl ⟨rfl, rfl⟩
  · refine Or.inr (Or.inl ⟨rfl, fun hfull => ?_⟩)
    have h : env.unmapMemoryFromGpu obj.handle deviceIdsArray = ⟨0, deviceIdsArray.length⟩ := hfull
    simp only [h, List.take_length]
  · exact Or.inr (Or.inr ⟨rfl, rfl⟩)
  · exact Or.inl ⟨rfl, rfl⟩

end Calls

/-! ## The GPUs mapped over a run -/

/-- The GPUs a buffer mapped to `s` is mapped to after an ioctl that handles
all of its devices. -/
def Ioctl.mappedAfter (s : Set UInt32) : Ioctl → Set UInt32
  | .map _ ids => s ∪ {x | x ∈ ids}
  | .unmap _ ids => s \ {x | x ∈ ids}

/-- A call on the object: `_fmm_map_to_gpu` with its `nodes_to_map`, or
`_fmm_unmap_from_gpu` with its device ids (none for a null array). -/
inductive MapCall where
  | map (nodesToMap : Option (List UInt32))
  | unmap (deviceIdsArray : List UInt32)

/-- The object after a call, and the ioctls the call issued. -/
def MapCall.apply (env : Env) (obj : VmObject) : MapCall → VmObject × List Ioctl
  | .map nodesToMap => (fmmMapToGpu env obj nodesToMap).2
  | .unmap deviceIdsArray => (fmmUnmapFromGpu env obj deviceIdsArray).2

/-- Calls one after the other on the object: the object after them, and every
ioctl issued, in order. -/
def runCalls (env : Env) : VmObject → List MapCall → VmObject × List Ioctl
  | obj, [] => (obj, [])
  | obj, c :: cs =>
    let r := c.apply env obj
    let rest := runCalls env r.1 cs
    (rest.1, r.2 ++ rest.2)

/-- The mapped array is duplicate-free and holds exactly the GPUs of `s`. -/
structure Tracks (s : Set UInt32) (array : List UInt32) : Prop where
  nodup : array.Nodup
  mem_iff : ∀ x, x ∈ array ↔ x ∈ s

/-- An ioctl the run may issue: it handles all of its devices and lists none
twice. -/
def Handled (env : Env) (c : Ioctl) : Prop :=
  env.FullSuccess c ∧ c.ids.Nodup

section Tracking

variable {env : Env} {s : Set UInt32} {array : List UInt32}

theorem Tracks.add (h : Tracks s array) {ids : List UInt32} (hids : ids.Nodup) :
    Tracks (s ∪ {x | x ∈ ids}) (addDeviceIdsToMappedArray array ids) := by
  refine ⟨nodup_addDeviceIdsToMappedArray h.nodup hids, fun x => ?_⟩
  rw [mem_addDeviceIdsToMappedArray, h.mem_iff]
  rfl

theorem Tracks.remove (h : Tracks s array) (ids : List UInt32) :
    Tracks (s \ {x | x ∈ ids}) (removeDeviceIdsFromMappedArray array (.given ids)) := by
  refine ⟨nodup_removeDeviceIdsFromMappedArray h.nodup _, fun x => ?_⟩
  rw [mem_removeDeviceIdsFromMappedArray_given, h.mem_iff]
  rfl

/-- Unmapping every GPU of the array leaves none. -/
theorem Tracks.removeAll (h : Tracks s array) : Tracks (s \ {x | x ∈ array}) [] := by
  refine ⟨List.nodup_nil, fun x => ?_⟩
  simp only [List.not_mem_nil, Set.mem_sdiff, Set.mem_ofPred_eq, false_iff, not_and, not_not]
  exact (h.mem_iff x).mpr

/-- **Step.**  A call whose ioctls are all handled keeps the array tracking the
GPUs its ioctls leave mapped. -/
theorem Tracks.apply {obj : VmObject} (h : Tracks s obj.mappedDeviceIdArray) (c : MapCall)
    (hok : ∀ i ∈ (c.apply env obj).2, Handled env i) :
    Tracks ((c.apply env obj).2.foldl Ioctl.mappedAfter s) (c.apply env obj).1.mappedDeviceIdArray := by
  cases c with
  | map nodesToMap =>
    simp only [MapCall.apply] at hok ⊢
    rcases fmmMapToGpu_cases env obj nodesToMap with ⟨hlog, hkeep⟩ | ⟨ids, hlog, hadd⟩
    · rw [hlog, hkeep]
      exact h
    · have hids := hok _ (by rw [hlog]; exact List.mem_singleton_self _)
      rw [hlog, hadd hids.1]
      exact h.add hids.2
  | unmap deviceIdsArray =>
    simp only [MapCall.apply] at hok ⊢
    rcases fmmUnmapFromGpu_cases env obj deviceIdsArray with
      ⟨hlog, hkeep⟩ | ⟨hlog, hremove⟩ | ⟨hlog, hempty⟩
    · rw [hlog, hkeep]
      exact h
    · have hids := hok _ (by rw [hlog]; exact List.mem_singleton_self _)
      rw [hlog, hremove hids.1]
      exact h.remove deviceIdsArray
    · rw [hlog, hempty]
      exact h.removeAll

/-- **Run.**  By induction on the calls: when every ioctl of the run is
handled, the array tracks the GPUs the whole log leaves mapped. -/
theorem Tracks.runCalls {obj : VmObject} (h : Tracks s obj.mappedDeviceIdArray)
    (calls : List MapCall) (hok : ∀ i ∈ (runCalls env obj calls).2, Handled env i) :
    Tracks ((runCalls env obj calls).2.foldl Ioctl.mappedAfter s)
      (runCalls env obj calls).1.mappedDeviceIdArray := by
  induction calls generalizing obj s with
  | nil => exact h
  | cons c cs ih =>
    simp only [GpuMap.runCalls, List.foldl_append] at hok ⊢
    have hstep := h.apply c fun i hi => hok i (List.mem_append_left _ hi)
    exact ih hstep fun i hi => hok i (List.mem_append_right _ hi)

end Tracking

theorem mappedDeviceIdArray_bookkeeping (env : Env) (obj : VmObject) (calls : List MapCall)
    (hnodup : obj.mappedDeviceIdArray.Nodup)
    (hok : ∀ c ∈ (runCalls env obj calls).2, env.FullSuccess c ∧ c.ids.Nodup) :
    (∀ mapped idsArray : List UInt32,
      removeDeviceIdsInPlace mapped (.given idsArray) =
          (if mapped.filter (fun id => id ∉ idsArray) = [] then none
            else some (mapped.filter fun id => id ∉ idsArray)) ∧
        addDeviceIdsInPlace mapped idsArray =
          mapped.filter (fun id => id ∉ idsArray) ++ idsArray) ∧
    (runCalls env obj calls).1.mappedDeviceIdArray.Nodup ∧
    {x | x ∈ (runCalls env obj calls).1.mappedDeviceIdArray} =
      (runCalls env obj calls).2.foldl Ioctl.mappedAfter {x | x ∈ obj.mappedDeviceIdArray} := by
  refine ⟨fun mapped idsArray => ⟨?_, ?_⟩, ?_⟩
  · rw [removeDeviceIdsInPlace_eq, removeDeviceIdsFromMappedArray, filter_not_idInArray]
  · rw [addDeviceIdsInPlace_eq, addDeviceIdsToMappedArray, removeDeviceIdsFromMappedArray,
      filter_not_idInArray]
  · have h := Tracks.runCalls ⟨hnodup, fun _ => Iff.rfl⟩ calls hok
    exact ⟨h.nodup, Set.ext h.mem_iff⟩

/-- Mapping GPUs `1` and `2`, unmapping `1`, then mapping `3`. -/
theorem mappedDeviceIdArray_bookkeeping_three_calls :
    (runCalls fullSuccessEnv ⟨7, false, 0, [], []⟩
        [.map (some [1, 2]), .unmap [1], .map (some [3])]).2 =
      [.map 7 [1, 2], .unmap 7 [1], .map 7 [3]] ∧
    (runCalls fullSuccessEnv ⟨7, false, 0, [], []⟩
        [.map (some [1, 2]), .unmap [1], .map (some [3])]).1.mappedDeviceIdArray = [2, 3] ∧
    {x | x ∈ (runCalls fullSuccessEnv ⟨7, false, 0, [], []⟩
        [.map (some [1, 2]), .unmap [1], .map (some [3])]).1.mappedDeviceIdArray} =
      (runCalls fullSuccessEnv ⟨7, false, 0, [], []⟩
        [.map (some [1, 2]), .unmap [1], .map (some [3])]).2.foldl Ioctl.mappedAfter
          {x | x ∈ ([] : List UInt32)} :=
  ⟨rfl, rfl, (mappedDeviceIdArray_bookkeeping fullSuccessEnv ⟨7, false, 0, [], []⟩
    [.map (some [1, 2]), .unmap [1], .map (some [3])] (by decide) (by decide)).2.2⟩

end Fmm.GpuMap
