import Mathlib

/-!
# Mapping a buffer to a set of GPUs

`hsakmt_fmm_map_to_gpu_nodes` makes the GPUs a buffer is mapped to the nodes it
is given.  It unmaps the buffer from the mapped GPUs that are not among them
(`_fmm_unmap_from_gpu`), then maps it to the nodes that are not mapped yet
(`_fmm_map_to_gpu`).  The object's `mapped_device_id_array` records the GPUs the
buffer is mapped to: each ioctl reports in `n_success` how many of its devices
it handled, and `remove_device_ids_from_mapped_array` and
`add_device_ids_to_mapped_array` update the array with those.

KFD is a parameter (`Env`): what each ioctl answers for a handle and a device
list.  The object is the one `vm_find_object` found; an array is a list of GPU
ids, its byte size four times its length.

When every ioctl issued maps or unmaps all its devices, a call that passes the
parameter checks leaves the buffer mapped to exactly the nodes, the GPUs that
stay first in their old order (`remapNodes_full`); it unmaps exactly the
mapped GPUs outside the nodes and maps exactly the nodes not mapped.  A call
that issues no ioctl leaves the object as it was
(`mapToGpuNodes_eq_of_no_ioctl`).
-/

namespace Fmm.GpuMap

/-- `HSAKMT_STATUS` values of these calls; `ioctlCode` is the return code of a
failed unmap ioctl, which `hsakmt_fmm_map_to_gpu_nodes` passes on as its
status. -/
inductive KmtStatus where
  | success
  | error
  | invalidParameter
  | ioctlCode (ret : Int)
deriving DecidableEq, Repr

/-- The fields of a `vm_object_t` the mapping calls read and write. -/
structure VmObject where
  handle : UInt64
  userptr : Bool
  mappingCount : Nat
  registeredDeviceIdArray : List UInt32
  mappedDeviceIdArray : List UInt32
deriving DecidableEq, Repr

/-- The aperture `vm_find_object` found the object in. -/
inductive ApertureKind where
  | memHandle
  | cpuvm
  | other (isCpuAccessible : Bool)
deriving DecidableEq, Repr

/-- What a map or unmap ioctl reports: its return code and `n_success`. -/
structure IoctlResult where
  ret : Int
  nSuccess : Nat
deriving DecidableEq, Repr

/-- An ioctl issued: `AMDKFD_IOC_MAP_MEMORY_TO_GPU` or
`AMDKFD_IOC_UNMAP_MEMORY_FROM_GPU`, with the handle and the device ids. -/
inductive Ioctl where
  | map (handle : UInt64) (ids : List UInt32)
  | unmap (handle : UInt64) (ids : List UInt32)
deriving DecidableEq, Repr

def Ioctl.ids : Ioctl → List UInt32
  | .map _ ids => ids
  | .unmap _ ids => ids

/-- What the calls take from outside: KFD's answers, `all_gpu_id_array`, the
devices `_fmm_map_to_gpu` maps when none are given or registered (the usable
peers of the object's GPU, or all GPUs), and `_fmm_map_to_gpu_userptr`, which
is not modelled here. -/
structure Env where
  mapMemoryToGpu : UInt64 → List UInt32 → IoctlResult
  unmapMemoryFromGpu : UInt64 → List UInt32 → IoctlResult
  allGpuIdArray : List UInt32
  defaultMapIds : List UInt32
  fmmMapToGpuUserptr : VmObject → List UInt32 → KmtStatus × VmObject × List Ioctl

def Env.answer (env : Env) : Ioctl → IoctlResult
  | .map handle ids => env.mapMemoryToGpu handle ids
  | .unmap handle ids => env.unmapMemoryFromGpu handle ids

/-- The ioctl succeeded on every device it was given. -/
def Env.FullSuccess (env : Env) (c : Ioctl) : Prop :=
  env.answer c = ⟨0, c.ids.length⟩

instance (env : Env) : DecidablePred env.FullSuccess :=
  fun c => inferInstanceAs (Decidable (env.answer c = ⟨0, c.ids.length⟩))

/-- `id_in_array`. -/
def idInArray (id : UInt32) (idsArray : List UInt32) : Bool :=
  idsArray.contains id

/-- The device ids handed to `remove_device_ids_from_mapped_array`: the
object's own mapped array, or another array. -/
inductive IdsArray where
  | mapped
  | given (ids : List UInt32)

/-- `remove_device_ids_from_mapped_array`: the mapped ids not in the array;
handed the mapped array itself, it empties it. -/
def removeDeviceIdsFromMappedArray (mapped : List UInt32) : IdsArray → List UInt32
  | .mapped => []
  | .given ids => mapped.filter fun id => !idInArray id ids

/-- `add_device_ids_to_mapped_array`: drop the ids already there, then append
them. -/
def addDeviceIdsToMappedArray (mapped ids : List UInt32) : List UInt32 :=
  removeDeviceIdsFromMappedArray mapped (.given ids) ++ ids

/-- `_fmm_unmap_from_gpu` on a found object: the return code, the object
after, and the ioctls issued. -/
def fmmUnmapFromGpu (env : Env) (obj : VmObject) (deviceIdsArray : List UInt32) :
    Int × VmObject × List Ioctl :=
  if obj.userptr ∧ 1 < obj.mappingCount then
    (0, { obj with mappingCount := obj.mappingCount - 1 }, [])
  else if deviceIdsArray ≠ [] then
    let r := env.unmapMemoryFromGpu obj.handle deviceIdsArray
    (r.ret, { obj with
        mappedDeviceIdArray := removeDeviceIdsFromMappedArray obj.mappedDeviceIdArray
          (.given (deviceIdsArray.take r.nSuccess))
        mappingCount := 0 }, [.unmap obj.handle deviceIdsArray])
  else if obj.mappedDeviceIdArray ≠ [] then
    -- the ioctl gets the mapped array itself, so the helper empties it
    -- whatever `n_success` says
    let r := env.unmapMemoryFromGpu obj.handle obj.mappedDeviceIdArray
    (r.ret, { obj with
        mappedDeviceIdArray := removeDeviceIdsFromMappedArray obj.mappedDeviceIdArray .mapped
        mappingCount := 0 }, [.unmap obj.handle obj.mappedDeviceIdArray])
  else (0, obj, [])

/-- `_fmm_map_to_gpu` on a found object; `none` is a null `nodes_to_map`. -/
def fmmMapToGpu (env : Env) (obj : VmObject) (nodesToMap : Option (List UInt32)) :
    KmtStatus × VmObject × List Ioctl :=
  if obj.userptr ∧ obj.mappingCount ≠ 0 then
    (.success, { obj with mappingCount := obj.mappingCount + 1 }, [])
  else
    let ids := match nodesToMap with
      | some nodes => nodes
      | none =>
        if obj.registeredDeviceIdArray ≠ [] then obj.registeredDeviceIdArray
        else env.defaultMapIds
    let r := env.mapMemoryToGpu obj.handle ids
    if r.ret ≠ 0 then (.error, obj, [.map obj.handle ids])
    else
      (.success, { obj with
          mappedDeviceIdArray := addDeviceIdsToMappedArray obj.mappedDeviceIdArray
            (ids.take r.nSuccess)
          mappingCount := 1 }, [.map obj.handle ids])

/-- The ids the nodes must be among: the object's registered ids, or all GPUs
when none are registered. -/
def registeredNodeIdArray (env : Env) (obj : VmObject) : List UInt32 :=
  if obj.registeredDeviceIdArray ≠ [] then obj.registeredDeviceIdArray else env.allGpuIdArray

/-- The unmap half of `hsakmt_fmm_map_to_gpu_nodes`: unmap the buffer from the
mapped GPUs that are not among the nodes, if there are any. -/
def unmapNotIncluded (env : Env) (obj : VmObject) (nodesToMap : List UInt32) :
    Int × VmObject × List Ioctl :=
  let tempNodeIdArray := obj.mappedDeviceIdArray.filter fun id => !idInArray id nodesToMap
  if tempNodeIdArray ≠ [] then fmmUnmapFromGpu env obj tempNodeIdArray else (0, obj, [])

/-- The map half: map the buffer to the nodes that are not mapped yet, if there
are any. -/
def mapNotMapped (env : Env) (obj : VmObject) (nodesToMap : List UInt32) :
    KmtStatus × VmObject × List Ioctl :=
  let mapNodeIdArray := nodesToMap.filter fun id => !idInArray id obj.mappedDeviceIdArray
  if mapNodeIdArray ≠ [] then fmmMapToGpu env obj (some mapNodeIdArray)
  else (.success, obj, [])

/-- `hsakmt_fmm_map_to_gpu_nodes` after its checks: the unmap half, and the map
half when the unmap succeeded. -/
def remapNodes (env : Env) (obj : VmObject) (nodesToMap : List UInt32) :
    KmtStatus × VmObject × List Ioctl :=
  let u := unmapNotIncluded env obj nodesToMap
  if u.1 ≠ 0 then (.ioctlCode u.1, u.2.1, u.2.2)
  else
    let m := mapNotMapped env u.2.1 nodesToMap
    (if m.1 = .success then .success else .error, m.2.1, u.2.2 ++ m.2.2)

/-- `hsakmt_fmm_map_to_gpu_nodes` for an object `vm_find_object` found in an
aperture of the given kind. -/
def mapToGpuNodes (env : Env) (kind : ApertureKind) (obj : VmObject)
    (nodesToMap : List UInt32) : KmtStatus × VmObject × List Ioctl :=
  if nodesToMap = [] then (.invalidParameter, obj, [])
  -- allocates VA only
  else if obj.handle = 0 then (.invalidParameter, obj, [])
  else match kind with
    | .memHandle => (.invalidParameter, obj, [])
    | .cpuvm | .other false => (.error, obj, [])
    | .other true =>
      if obj.userptr then env.fmmMapToGpuUserptr obj nodesToMap
      else if nodesToMap.any fun id => !idInArray id (registeredNodeIdArray env obj) then
        (.error, obj, [])
      else remapNodes env obj nodesToMap

/-! ## The mapped array -/

@[simp] theorem idInArray_eq_true {id : UInt32} {ids : List UInt32} :
    idInArray id ids = true ↔ id ∈ ids := by
  simp [idInArray]

@[simp] theorem idInArray_eq_false {id : UInt32} {ids : List UInt32} :
    idInArray id ids = false ↔ id ∉ ids := by
  simp [idInArray]

@[simp] theorem mem_removeDeviceIdsFromMappedArray_given {x : UInt32} {mapped ids : List UInt32} :
    x ∈ removeDeviceIdsFromMappedArray mapped (.given ids) ↔ x ∈ mapped ∧ x ∉ ids := by
  simp [removeDeviceIdsFromMappedArray]

theorem nodup_removeDeviceIdsFromMappedArray {mapped : List UInt32} (h : mapped.Nodup) :
    ∀ a, (removeDeviceIdsFromMappedArray mapped a).Nodup
  | .mapped => List.nodup_nil
  | .given _ => h.filter _

@[simp] theorem mem_addDeviceIdsToMappedArray {x : UInt32} {mapped ids : List UInt32} :
    x ∈ addDeviceIdsToMappedArray mapped ids ↔ x ∈ mapped ∨ x ∈ ids := by
  rw [addDeviceIdsToMappedArray, List.mem_append, mem_removeDeviceIdsFromMappedArray_given]
  tauto

/-- The ids are appended once each: no id is both kept and appended. -/
theorem nodup_addDeviceIdsToMappedArray {mapped ids : List UInt32} (hm : mapped.Nodup)
    (hi : ids.Nodup) : (addDeviceIdsToMappedArray mapped ids).Nodup := by
  apply List.nodup_append.mpr
  refine ⟨nodup_removeDeviceIdsFromMappedArray hm _, hi, ?_⟩
  intro x hx y hy hxy
  rw [mem_removeDeviceIdsFromMappedArray_given] at hx
  exact hx.2 (hxy ▸ hy)

/-- Ids not in the mapped array are appended after it, unchanged. -/
theorem addDeviceIdsToMappedArray_of_disjoint {mapped ids : List UInt32}
    (h : ∀ x ∈ ids, x ∉ mapped) : addDeviceIdsToMappedArray mapped ids = mapped ++ ids := by
  rw [addDeviceIdsToMappedArray, removeDeviceIdsFromMappedArray, List.filter_eq_self.mpr]
  intro x hx
  simpa using fun hi => h x hi hx

/-! ## The two calls -/

section Calls

variable {env : Env} {obj : VmObject}

theorem fmmUnmapFromGpu_log {ids : List UInt32} (huser : obj.userptr = false) (hids : ids ≠ []) :
    (fmmUnmapFromGpu env obj ids).2.2 = [.unmap obj.handle ids] := by
  simp [fmmUnmapFromGpu, huser, hids]

/-- A non-userptr object's map ioctl is issued whatever it answers. -/
theorem fmmMapToGpu_log {ids : List UInt32} (huser : obj.userptr = false) :
    (fmmMapToGpu env obj (some ids)).2.2 = [.map obj.handle ids] := by
  simp only [fmmMapToGpu, huser, Bool.false_eq_true, false_and, if_false]
  split <;> rfl

theorem fmmUnmapFromGpu_of_full {ids : List UInt32} (huser : obj.userptr = false) (hids : ids ≠ [])
    (hfull : env.FullSuccess (.unmap obj.handle ids)) :
    fmmUnmapFromGpu env obj ids =
      (0, { obj with
          mappedDeviceIdArray := removeDeviceIdsFromMappedArray obj.mappedDeviceIdArray (.given ids)
          mappingCount := 0 }, [.unmap obj.handle ids]) := by
  have h : env.unmapMemoryFromGpu obj.handle ids = ⟨0, ids.length⟩ := hfull
  simp only [fmmUnmapFromGpu, huser, hids, h, Bool.false_eq_true, false_and, if_false, ne_eq,
    not_false_eq_true, if_true, List.take_length]

theorem fmmMapToGpu_of_full {ids : List UInt32} (huser : obj.userptr = false)
    (hfull : env.FullSuccess (.map obj.handle ids)) :
    fmmMapToGpu env obj (some ids) =
      (.success, { obj with
          mappedDeviceIdArray := addDeviceIdsToMappedArray obj.mappedDeviceIdArray ids
          mappingCount := 1 }, [.map obj.handle ids]) := by
  have h : env.mapMemoryToGpu obj.handle ids = ⟨0, ids.length⟩ := hfull
  simp only [fmmMapToGpu, huser, h, Bool.false_eq_true, false_and, if_false, ne_eq,
    not_true_eq_false, List.take_length]

end Calls

/-! ## The two halves under full success -/

section Halves

variable {env : Env} {obj : VmObject} {nodes : List UInt32}

/-- When its unmap, if any, unmaps every device, the unmap half keeps the
mapped GPUs that are among the nodes, in their order. -/
theorem unmapNotIncluded_full (huser : obj.userptr = false)
    (hfull : ∀ c ∈ (unmapNotIncluded env obj nodes).2.2, env.FullSuccess c) :
    ∃ count, unmapNotIncluded env obj nodes =
      (0, { obj with
          mappedDeviceIdArray := obj.mappedDeviceIdArray.filter fun id => idInArray id nodes
          mappingCount := count },
        if obj.mappedDeviceIdArray.filter (fun id => !idInArray id nodes) = [] then []
        else [.unmap obj.handle (obj.mappedDeviceIdArray.filter fun id => !idInArray id nodes)]) := by
  by_cases hU : obj.mappedDeviceIdArray.filter (fun id => !idInArray id nodes) = []
  · -- nothing to unmap: every mapped GPU is among the nodes
    have hkeep : obj.mappedDeviceIdArray.filter (fun id => idInArray id nodes) =
        obj.mappedDeviceIdArray := by
      rw [List.filter_eq_self]
      intro x hx
      simpa using List.filter_eq_nil_iff.mp hU x hx
    refine ⟨obj.mappingCount, ?_⟩
    simp only [unmapNotIncluded, hU, hkeep, ne_eq, not_true_eq_false, if_false, if_true]
  · have hlog : (unmapNotIncluded env obj nodes).2.2 =
        [.unmap obj.handle (obj.mappedDeviceIdArray.filter fun id => !idInArray id nodes)] := by
      simp only [unmapNotIncluded, hU, ne_eq, not_false_eq_true, if_true]
      exact fmmUnmapFromGpu_log huser hU
    have hcall := fmmUnmapFromGpu_of_full huser hU
      (hfull _ (by rw [hlog]; exact List.mem_singleton_self _))
    have hkeep : removeDeviceIdsFromMappedArray obj.mappedDeviceIdArray
        (.given (obj.mappedDeviceIdArray.filter fun id => !idInArray id nodes)) =
        obj.mappedDeviceIdArray.filter (fun id => idInArray id nodes) := by
      unfold removeDeviceIdsFromMappedArray
      apply List.filter_congr
      intro x hx
      rw [Bool.eq_iff_iff]
      by_cases hn : x ∈ nodes <;> simp [hx, hn]
    refine ⟨0, ?_⟩
    simp only [unmapNotIncluded, hU, ne_eq, not_false_eq_true, if_true, if_false, hcall, hkeep]

/-- When its map, if any, maps every device, the map half appends the nodes
that were not mapped, in their order. -/
theorem mapNotMapped_full (huser : obj.userptr = false)
    (hfull : ∀ c ∈ (mapNotMapped env obj nodes).2.2, env.FullSuccess c) :
    (mapNotMapped env obj nodes).1 = .success ∧
      (mapNotMapped env obj nodes).2.1.mappedDeviceIdArray =
        obj.mappedDeviceIdArray ++ nodes.filter (fun id => !idInArray id obj.mappedDeviceIdArray) ∧
      (mapNotMapped env obj nodes).2.2 =
        if nodes.filter (fun id => !idInArray id obj.mappedDeviceIdArray) = [] then []
        else [.map obj.handle (nodes.filter fun id => !idInArray id obj.mappedDeviceIdArray)] := by
  by_cases hV : nodes.filter (fun id => !idInArray id obj.mappedDeviceIdArray) = []
  · simp only [mapNotMapped, hV, ne_eq, not_true_eq_false, if_false, if_true, List.append_nil,
      and_self]
  · have hlog : (mapNotMapped env obj nodes).2.2 =
        [.map obj.handle (nodes.filter fun id => !idInArray id obj.mappedDeviceIdArray)] := by
      simp only [mapNotMapped, hV, ne_eq, not_false_eq_true, if_true]
      exact fmmMapToGpu_log huser
    have hcall := fmmMapToGpu_of_full huser
      (hfull _ (by rw [hlog]; exact List.mem_singleton_self _))
    have hdisj : ∀ x ∈ nodes.filter (fun id => !idInArray id obj.mappedDeviceIdArray),
        x ∉ obj.mappedDeviceIdArray := by
      intro x hx
      simpa using (List.mem_filter.mp hx).2
    simp only [mapNotMapped, hV, ne_eq, not_false_eq_true, if_true, if_false, hcall,
      addDeviceIdsToMappedArray_of_disjoint hdisj, and_self]

theorem unmapNotIncluded_of_no_ioctl (huser : obj.userptr = false)
    (hlog : (unmapNotIncluded env obj nodes).2.2 = []) :
    unmapNotIncluded env obj nodes = (0, obj, []) := by
  by_cases hU : obj.mappedDeviceIdArray.filter (fun id => !idInArray id nodes) = []
  · simp [unmapNotIncluded, hU]
  · simp [unmapNotIncluded, hU, fmmUnmapFromGpu_log huser hU] at hlog

theorem mapNotMapped_of_no_ioctl (huser : obj.userptr = false)
    (hlog : (mapNotMapped env obj nodes).2.2 = []) :
    mapNotMapped env obj nodes = (.success, obj, []) := by
  by_cases hV : nodes.filter (fun id => !idInArray id obj.mappedDeviceIdArray) = []
  · simp [mapNotMapped, hV]
  · simp [mapNotMapped, hV, fmmMapToGpu_log huser] at hlog

end Halves

/-! ## The whole call -/

section Run

variable {env : Env} {obj : VmObject} {nodes : List UInt32}

theorem mem_remapNodes_of_unmap {c : Ioctl} (hc : c ∈ (unmapNotIncluded env obj nodes).2.2) :
    c ∈ (remapNodes env obj nodes).2.2 := by
  by_cases hret : (unmapNotIncluded env obj nodes).1 = 0 <;> simp [remapNodes, hret, hc]

/-- **Remapping.**  When every ioctl issued succeeds on all its devices, the
buffer ends mapped to the mapped GPUs among the nodes, in their order, then to
the nodes that were not mapped, in theirs; the unmap gets exactly the mapped
GPUs outside the nodes and the map exactly the nodes not mapped. -/
theorem remapNodes_full (huser : obj.userptr = false)
    (hfull : ∀ c ∈ (remapNodes env obj nodes).2.2, env.FullSuccess c) :
    (remapNodes env obj nodes).1 = .success ∧
      (remapNodes env obj nodes).2.1.mappedDeviceIdArray =
        obj.mappedDeviceIdArray.filter (fun id => idInArray id nodes) ++
          nodes.filter (fun id => !idInArray id obj.mappedDeviceIdArray) ∧
      (remapNodes env obj nodes).2.2 =
        (if obj.mappedDeviceIdArray.filter (fun id => !idInArray id nodes) = [] then []
          else [.unmap obj.handle (obj.mappedDeviceIdArray.filter fun id => !idInArray id nodes)]) ++
        (if nodes.filter (fun id => !idInArray id obj.mappedDeviceIdArray) = [] then []
          else [.map obj.handle (nodes.filter fun id => !idInArray id obj.mappedDeviceIdArray)]) := by
  obtain ⟨count, hu⟩ :=
    unmapNotIncluded_full huser fun c hc => hfull c (mem_remapNodes_of_unmap hc)
  -- after the unmap the mapped array is the old one cut to the nodes, so the
  -- nodes it lacks are the ones the old array lacked
  have hlack : nodes.filter (fun id => !idInArray id
        (obj.mappedDeviceIdArray.filter fun id => idInArray id nodes)) =
      nodes.filter (fun id => !idInArray id obj.mappedDeviceIdArray) := by
    apply List.filter_congr
    intro x hx
    rw [Bool.eq_iff_iff]
    simp [hx]
  simp only [remapNodes, hu, ne_eq, not_true_eq_false, if_false] at hfull ⊢
  obtain ⟨hst, hmapped, hmlog⟩ :=
    mapNotMapped_full (by exact huser) fun c hc => hfull c (List.mem_append_right _ hc)
  dsimp only at hmapped hmlog
  refine ⟨by simp [hst], ?_, ?_⟩
  · rw [hmapped, hlack]
  · rw [hmlog, hlack]

/-- After the checks, a call that issues no ioctl has nothing to unmap and
nothing to map. -/
theorem remapNodes_of_no_ioctl (huser : obj.userptr = false)
    (hlog : (remapNodes env obj nodes).2.2 = []) : (remapNodes env obj nodes).2.1 = obj := by
  have hu : (unmapNotIncluded env obj nodes).2.2 = [] := by
    apply List.eq_nil_iff_forall_not_mem.mpr
    intro c hc
    simpa [hlog] using mem_remapNodes_of_unmap hc
  simp only [remapNodes, unmapNotIncluded_of_no_ioctl huser hu, ne_eq, not_true_eq_false,
    if_false, List.nil_append] at hlog ⊢
  rw [mapNotMapped_of_no_ioctl huser hlog]

/-- A call that issues no ioctl leaves a non-userptr object as it was. -/
theorem mapToGpuNodes_eq_of_no_ioctl {kind : ApertureKind} (huser : obj.userptr = false)
    (hlog : (mapToGpuNodes env kind obj nodes).2.2 = []) :
    (mapToGpuNodes env kind obj nodes).2.1 = obj := by
  by_cases hnodes : nodes = []
  · simp [mapToGpuNodes, hnodes]
  by_cases hhandle : obj.handle = 0
  · simp [mapToGpuNodes, hhandle]
  rcases kind with _ | _ | _ | _
  · simp [mapToGpuNodes, hnodes, hhandle]
  · simp [mapToGpuNodes, hnodes, hhandle]
  · simp [mapToGpuNodes, hnodes, hhandle]
  · simp only [mapToGpuNodes, hnodes, hhandle, huser, Bool.false_eq_true, if_false] at hlog ⊢
    split_ifs at hlog ⊢
    · rfl
    · exact remapNodes_of_no_ioctl huser hlog

/-- With every id registered, a call that passes the parameter checks goes on
to remap. -/
theorem mapToGpuNodes_eq_remapNodes (huser : obj.userptr = false) (hnodes : nodes ≠ [])
    (hhandle : obj.handle ≠ 0) (hreg : ∀ id ∈ nodes, id ∈ registeredNodeIdArray env obj) :
    mapToGpuNodes env (.other true) obj nodes = remapNodes env obj nodes := by
  have hall : (nodes.any fun id => !idInArray id (registeredNodeIdArray env obj)) = false := by
    rw [List.any_eq_false]
    intro id hid
    simpa using hreg id hid
  simp only [mapToGpuNodes, hnodes, hhandle, huser, hall, Bool.false_eq_true, if_false]

/-- The mapped ids outside the nodes, as `id_in_array` picks them. -/
theorem filter_not_idInArray (l ids : List UInt32) :
    l.filter (fun id => !idInArray id ids) = l.filter (fun id => id ∉ ids) := by
  apply List.filter_congr
  intro x _
  by_cases h : x ∈ ids <;> simp [h]

theorem mapToGpuNodes_maps_exactly_nodes {kind : ApertureKind} (huser : obj.userptr = false)
    (hmapped : obj.mappedDeviceIdArray.Nodup) (hnodup : nodes.Nodup)
    (hreg : ∀ id ∈ nodes, id ∈ registeredNodeIdArray env obj)
    (hfull : ∀ c ∈ (mapToGpuNodes env kind obj nodes).2.2, env.FullSuccess c) :
    (nodes ≠ [] ∧ obj.handle ≠ 0 ∧ kind = .other true →
      (mapToGpuNodes env kind obj nodes).1 = .success ∧
      (∀ id, id ∈ (mapToGpuNodes env kind obj nodes).2.1.mappedDeviceIdArray ↔ id ∈ nodes) ∧
      (mapToGpuNodes env kind obj nodes).2.1.mappedDeviceIdArray.Nodup ∧
      (mapToGpuNodes env kind obj nodes).2.2 =
        (if obj.mappedDeviceIdArray.filter (fun id => id ∉ nodes) = [] then []
          else [.unmap obj.handle (obj.mappedDeviceIdArray.filter fun id => id ∉ nodes)]) ++
        (if nodes.filter (fun id => id ∉ obj.mappedDeviceIdArray) = [] then []
          else [.map obj.handle (nodes.filter fun id => id ∉ obj.mappedDeviceIdArray)])) ∧
    ((mapToGpuNodes env kind obj nodes).2.2 = [] → (mapToGpuNodes env kind obj nodes).2.1 = obj) := by
  refine ⟨?_, mapToGpuNodes_eq_of_no_ioctl huser⟩
  rintro ⟨hnodes, hhandle, rfl⟩
  rw [mapToGpuNodes_eq_remapNodes huser hnodes hhandle hreg] at hfull ⊢
  obtain ⟨hst, hresult, hlog⟩ := remapNodes_full huser hfull
  rw [hresult, hlog, filter_not_idInArray, filter_not_idInArray]
  refine ⟨hst, ?_, ?_, rfl⟩
  · intro id
    by_cases hM : id ∈ obj.mappedDeviceIdArray <;> simp [hM]
  · -- the kept GPUs are mapped ones, the appended nodes are not
    apply List.nodup_append.mpr
    refine ⟨hmapped.filter _, hnodup.filter _, ?_⟩
    intro x hx y hy hxy
    subst hxy
    simp only [List.mem_filter, decide_eq_true_eq] at hx hy
    exact hy.2 hx.1

/-- KFD answering every map and unmap with success on all devices, over GPUs
`1`, `2` and `3`. -/
def fullSuccessEnv : Env where
  mapMemoryToGpu _ ids := ⟨0, ids.length⟩
  unmapMemoryFromGpu _ ids := ⟨0, ids.length⟩
  allGpuIdArray := [1, 2, 3]
  defaultMapIds := [1, 2, 3]
  fmmMapToGpuUserptr obj _ := (.success, obj, [])

theorem mapToGpuNodes_maps_exactly_nodes_two_gpus :
    (∀ c ∈ (mapToGpuNodes fullSuccessEnv (.other true) ⟨7, false, 1, [], [1, 2]⟩ [2, 3]).2.2,
        fullSuccessEnv.FullSuccess c) ∧
      (mapToGpuNodes fullSuccessEnv (.other true) ⟨7, false, 1, [], [1, 2]⟩ [2, 3]).2 =
        (⟨7, false, 1, [], [2, 3]⟩, [.unmap 7 [1], .map 7 [3]]) ∧
      (([2, 3] : List UInt32) ≠ [] ∧ (7 : UInt64) ≠ 0 ∧ ApertureKind.other true = .other true →
        (mapToGpuNodes fullSuccessEnv (.other true) ⟨7, false, 1, [], [1, 2]⟩ [2, 3]).1 = .success ∧
        (∀ id, id ∈ (mapToGpuNodes fullSuccessEnv (.other true) ⟨7, false, 1, [], [1, 2]⟩
            [2, 3]).2.1.mappedDeviceIdArray ↔ id ∈ [2, 3]) ∧
        (mapToGpuNodes fullSuccessEnv (.other true) ⟨7, false, 1, [], [1, 2]⟩
          [2, 3]).2.1.mappedDeviceIdArray.Nodup ∧
        (mapToGpuNodes fullSuccessEnv (.other true) ⟨7, false, 1, [], [1, 2]⟩ [2, 3]).2.2 =
          (if ([1, 2] : List UInt32).filter (fun id => id ∉ [2, 3]) = [] then []
            else [.unmap 7 ([1, 2].filter fun id => id ∉ [2, 3])]) ++
          (if ([2, 3] : List UInt32).filter (fun id => id ∉ [1, 2]) = [] then []
            else [.map 7 ([2, 3].filter fun id => id ∉ [1, 2])])) ∧
      ((mapToGpuNodes fullSuccessEnv (.other true) ⟨7, false, 1, [], [1, 2]⟩ [2, 3]).2.2 = [] →
        (mapToGpuNodes fullSuccessEnv (.other true) ⟨7, false, 1, [], [1, 2]⟩ [2, 3]).2.1 =
          ⟨7, false, 1, [], [1, 2]⟩) :=
  have hfull : ∀ c ∈ (mapToGpuNodes fullSuccessEnv (.other true) ⟨7, false, 1, [], [1, 2]⟩
      [2, 3]).2.2, fullSuccessEnv.FullSuccess c :=
    fun c _ => by cases c <;> rfl
  ⟨hfull, rfl, mapToGpuNodes_maps_exactly_nodes rfl (by decide) (by decide)
    (by simp [registeredNodeIdArray, fullSuccessEnv]) hfull⟩

end Run

end Fmm.GpuMap
