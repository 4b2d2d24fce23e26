import Rocr.Runtime.VMemory
import Rocr.Lib.Chain

/-!
# Finding mapped handles by address

Four calls of `runtime.cpp` find the mappings of `mapped_handle_map_` that
an address or a range meets, each with its own search:

* `VMemoryHandleMap` refuses a range that meets a mapping, looking at the
  last mapping starting at or below it and the first one above it
  (`overlapsMapped`);
* `VMemorySetAccess` collects the mappings tiling `[va, va + size)`, each
  found by its exact start (`collectMappedHandles`);
* `VMemoryMapAllowAccess` takes the mapping holding `va` and the mappings
  following it without a gap (`mapAllowAccessHandles`);
* `VMemoryGetAccess` takes the last mapping starting at or below `va` if
  `va` is not past its end (`getAccessHandle`).

The permissions `VMemorySetAccessPerHandle` records in a mapping's
`allowed_agents` are an oracle here: the status each per-handle call returns,
and for `VMemoryGetAccess` the permission recorded for the agent.

Over disjoint mappings, the first three agree with the half-open ranges
`[first, first + size)`.  `VMemoryGetAccess` compares the end with `<=`, so
the address just past a mapping, with nothing mapped there, is found in it
(`vMemoryGetAccess_at_end`, `get_access_past_mapping_end`).
-/

namespace Runtime

/-- `hsa_access_permission_t`. -/
inductive AccessPermission where
  | none
  | ro
  | wo
  | rw
deriving DecidableEq, Repr

/-- The first status of the per-handle calls that is not a success. -/
def firstFailure (statuses : List Status) : Status :=
  (statuses.find? (· ≠ .success)).getD .success

/-- `[va, stop)` is tiled by the mappings `ks`: each starts where the one
before it ends, from `va` on, until one reaches `stop`. -/
inductive Tiles (ms : OrdMap Nat MappedHandle) (stop : Nat) : Nat → List Nat → Prop
  | done {va : Nat} : stop ≤ va → Tiles ms stop va []
  | next {va : Nat} {mh : MappedHandle} {ks : List Nat} : va < stop → ms.find? va = some mh →
      Tiles ms stop (va + mh.size) ks → Tiles ms stop va (va :: ks)

/-- `ks` is the mapping at `k` and the mappings after it, each starting where
the one before it ends, up to the first that does not. -/
inductive ContiguousRun (ms : OrdMap Nat MappedHandle) : Nat → List Nat → Prop
  | last {k : Nat} {mh : MappedHandle} : ms.find? k = some mh → ms.upperBound k ≠ some (k + mh.size) →
      ContiguousRun ms k [k]
  | next {k : Nat} {mh : MappedHandle} {ks : List Nat} : ms.find? k = some mh →
      ms.upperBound k = some (k + mh.size) → ContiguousRun ms (k + mh.size) ks → ContiguousRun ms k (k :: ks)

section Lookups

variable (ms : OrdMap Nat MappedHandle)

/-- The mapping `VMemoryGetAccess` settles on: the last one starting at or
below `va`, when `va` is not past its end. -/
def getAccessHandle (va : Nat) : Option Nat :=
  match ms.floor va with
  | none => none
  | some k =>
    match ms.find? k with
    | some mh => if k ≤ va ∧ va ≤ k + mh.size then some k else none
    | none => none

/-- `VMemoryGetAccess`: `allowedAgents k` is the permission the
`allowed_agents` of mapping `k` record for the agent, and `gpu` whether the
agent is a valid GPU. -/
def vMemoryGetAccess (allowedAgents : Nat → Option AccessPermission) (va : Nat) (gpu : Bool) :
    Status × AccessPermission :=
  match getAccessHandle ms va with
  | none => (.errorInvalidAllocation, .none)
  | some k =>
    if !gpu then (.errorInvalidAgent, .none)
    else
      match allowedAgents k with
      | some perms => (.success, perms)
      -- set access was not called on this memory handle
      | none => (.success, .none)

/-- The loop of `VMemorySetAccess`: the mappings tiling `[va_chunk, stop)`,
each found by its exact start. -/
def collectMappedHandles (stop : Nat) : Nat → Nat → Option (List Nat)
  | 0, _ => none
  | fuel + 1, vaChunk =>
    if vaChunk < stop then
      match ms.find? vaChunk with
      | none => none
      | some mh => (collectMappedHandles stop fuel (vaChunk + mh.size)).map (vaChunk :: ·)
    else some []

/-- The do-while loop of `VMemoryMapAllowAccess` from mapping `k`: it, and
the mappings following it without a gap. -/
def contiguousHandles : Nat → Nat → List Nat
  | 0, _ => []
  | fuel + 1, k =>
    match ms.find? k with
    | none => []
    | some mh =>
      k :: match ms.upperBound k with
        | some next => if next = k + mh.size then contiguousHandles fuel next else []
        | none => []

/-- The mappings `VMemoryMapAllowAccess` sets access on: from the one
holding `va`. -/
def mapAllowAccessHandles (va : Nat) : List Nat :=
  match ms.floor va with
  | none => []
  | some k =>
    match ms.find? k with
    | some mh => if k + mh.size > va then contiguousHandles ms ms.size k else []
    | none => []

/-- `VMemoryMapAllowAccess`, with `agentsValid` whether every agent is
valid. -/
def vMemoryMapAllowAccess (va : Nat) (agentsValid : Bool) (setAccessPerHandle : Nat → Status) :
    Status :=
  if !agentsValid then .errorInvalidAgent
  else
    match mapAllowAccessHandles ms va with
    | [] => .errorInvalidAllocation
    | handles => firstFailure (handles.map setAccessPerHandle)

end Lookups

/-- `VMemorySetAccess`: the range must lie in one reservation and be tiled
by mappings.  Each mapping is at least a byte, so `size + 1` rounds of the
loop are enough. -/
def State.vMemorySetAccess (s : State) (va size : Nat) (agentsValid : Bool)
    (setAccessPerHandle : Nat → Status) : Status :=
  if !agentsValid then .errorInvalidAgent
  else
    match holdingReservation s.reservedAddressMap va size with
    | none => .errorInvalidArgument
    | some _ =>
      match collectMappedHandles s.mappedHandleMap (va + size) (size + 1) va with
      | none => .errorInvalidAllocation
      | some handles => firstFailure (handles.map setAccessPerHandle)

section Mappings

variable {rs : OrdMap Nat AddressHandle} {ms : OrdMap Nat MappedHandle}

/-- No mapping starts inside another. -/
theorem MappingsWf.not_start_inside (hw : MappingsWf rs ms) {k j : Nat} {mh : MappedHandle}
    (hk : ms.find? k = some mh) (hj : j ∈ ms.keys) (hlo : k < j) (hhi : j < k + mh.size) : False := by
  obtain ⟨mj, hmj⟩ := OrdMap.find?_of_mem_keys hj
  rcases hw.mapped_apart k mh j mj hk hmj (Nat.ne_of_lt hlo) with h | h <;> omega

/-- The last mapping starting at or below an address in `[k, k + size]` is
`k`, unless another mapping starts at `k + size` itself. -/
theorem MappingsWf.floor_eq (hw : MappingsWf rs ms) {k va : Nat} {mh : MappedHandle}
    (hk : ms.find? k = some mh) (hle : k ≤ va) (hva : va ≤ k + mh.size)
    (hgap : va = k + mh.size → ms.find? va = none) : ms.floor va = some k := by
  rw [OrdMap.floor_eq_some_iff]
  refine ⟨OrdMap.mem_keys_of_find? hk, hle, fun i hi hiva => Nat.le_of_not_lt fun hki => ?_⟩
  rcases Nat.lt_or_ge i (k + mh.size) with hin | hend
  · exact hw.not_start_inside hk hi hki hin
  · have hiv : i = va := by omega
    have hnone := hgap (by omega)
    rw [← hiv, OrdMap.find?_eq_none_iff] at hnone
    exact hnone hi

theorem getAccessHandle_spec {va k : Nat} (h : getAccessHandle ms va = some k) :
    ∃ mh, ms.find? k = some mh ∧ k ≤ va ∧ va ≤ k + mh.size := by
  unfold getAccessHandle at h
  split at h
  · cases h
  · split at h
    · next mh hmh =>
      split_ifs at h with hin
      cases h
      exact ⟨mh, hmh, hin⟩
    · cases h

/-- Once `VMemoryGetAccess` settles on a mapping, a valid GPU gets the
permission recorded for it. -/
theorem vMemoryGetAccess_of_getAccessHandle {va k : Nat} (h : getAccessHandle ms va = some k)
    (allowedAgents : Nat → Option AccessPermission) :
    vMemoryGetAccess ms allowedAgents va true = (.success, (allowedAgents k).getD .none) := by
  simp only [vMemoryGetAccess, h, Bool.not_true, Bool.false_eq_true, if_false]
  cases allowedAgents k <;> rfl

/-- `VMemoryGetAccess` succeeds for a valid GPU only where it settles on a
mapping. -/
theorem getAccessHandle_of_vMemoryGetAccess {va : Nat} {allowedAgents : Nat → Option AccessPermission}
    (h : (vMemoryGetAccess ms allowedAgents va true).1 = .success) :
    ∃ k, getAccessHandle ms va = some k := by
  cases hget : getAccessHandle ms va with
  | none => simp [vMemoryGetAccess, hget] at h
  | some k => exact ⟨k, rfl⟩

/-- `VMemoryGetAccess` finds the mapping holding an address. -/
theorem MappingsWf.getAccessHandle_of_inside (hw : MappingsWf rs ms) {k va : Nat} {mh : MappedHandle}
    (hk : ms.find? k = some mh) (hle : k ≤ va) (hlt : va < k + mh.size) :
    getAccessHandle ms va = some k := by
  have hfloor := hw.floor_eq hk hle (Nat.le_of_lt hlt) (fun h => absurd h (Nat.ne_of_lt hlt))
  simp [getAccessHandle, hfloor, hk, hle, Nat.le_of_lt hlt]

/-- At the address just past a mapping, where no mapping starts,
`VMemoryGetAccess` succeeds with that mapping's permission, though no mapping
holds the address. -/
theorem MappingsWf.vMemoryGetAccess_at_end (hw : MappingsWf rs ms) {k : Nat} {mh : MappedHandle}
    (hk : ms.find? k = some mh) (hgap : ms.find? (k + mh.size) = none)
    (allowedAgents : Nat → Option AccessPermission) :
    vMemoryGetAccess ms allowedAgents (k + mh.size) true = (.success, (allowedAgents k).getD .none) ∧
      ∀ j mj, ms.find? j = some mj → ¬ (j ≤ k + mh.size ∧ k + mh.size < j + mj.size) := by
  have hfloor := hw.floor_eq hk (Nat.le_add_right k mh.size) (Nat.le_refl _) (fun _ => hgap)
  refine ⟨?_, ?_⟩
  · have hget : getAccessHandle ms (k + mh.size) = some k := by
      simp [getAccessHandle, hfloor, hk]
    exact vMemoryGetAccess_of_getAccessHandle hget allowedAgents
  · rintro j mj hmj ⟨hlo, hhi⟩
    by_cases hjk : j = k
    · subst hjk
      rw [hk] at hmj
      cases hmj
      exact Nat.lt_irrefl _ hhi
    · rcases hw.mapped_apart k mh j mj hk hmj (Ne.symm hjk) with h | h
      · have hj : j = k + mh.size := by omega
        rw [hj, hgap] at hmj
        cases hmj
      · omega

/-- Reserve `[0x1000, 0x3000)`, create a handle of `0x1000` bytes and map it
at `[0x1000, 0x2000)`.  At `0x2000`, where nothing is mapped,
`VMemoryGetAccess` succeeds, while `VMemoryMapAllowAccess` and
`VMemorySetAccess` find no mapping there. -/
theorem get_access_past_mapping_end :
    ∃ s : State, s = (((init.step (.addressReserve 0x2000 (some 0x1000))).2.step
        (.handleCreate 0x1000 0x1000 (.ok 7))).2.step (.handleMap 0x1000 0x1000 7 .ok)).2 ∧
      s.mappedHandleMap.entries = [(0x1000, ⟨7, 0x1000, 0x1000⟩)] ∧
      vMemoryGetAccess s.mappedHandleMap (fun _ => none) 0x2000 true = (.success, .none) ∧
      vMemoryMapAllowAccess s.mappedHandleMap 0x2000 true (fun _ => .success) = .errorInvalidAllocation ∧
      s.vMemorySetAccess 0x2000 0x1000 true (fun _ => .success) = .errorInvalidAllocation :=
  ⟨_, rfl, by decide⟩

/-- Over disjoint mappings, `VMemoryHandleMap` refuses a nonempty range
exactly when it meets a mapping. -/
theorem MappingsWf.overlapsMapped_iff (hw : MappingsWf rs ms) {va size : Nat} (hpos : 0 < size) :
    overlapsMapped ms va size = true ↔
      ∃ k mh, ms.find? k = some mh ∧ k < va + size ∧ va < k + mh.size := by
  constructor
  · intro h
    unfold overlapsMapped at h
    rw [Bool.or_eq_true] at h
    rcases h with hbelow | habove
    · -- the last mapping at or below `va` reaches past it
      split at hbelow
      · next k hk =>
        split at hbelow
        · next mh hmh =>
          have hle := ((OrdMap.floor_eq_some_iff ms va k).mp hk).2.1
          exact ⟨k, mh, hmh, by omega, by simpa using hbelow⟩
        · cases hbelow
      · cases hbelow
    · -- the first mapping above `va` starts before the range ends
      split at habove
      · next k hk =>
        obtain ⟨hkm, hle, -⟩ := (OrdMap.lowerBound_eq_some_iff ms va k).mp hk
        obtain ⟨mh, hmh⟩ := OrdMap.find?_of_mem_keys hkm
        have := hw.mapped_pos k mh hmh
        exact ⟨k, mh, hmh, by simpa using habove, by omega⟩
      · cases habove
  · rintro ⟨k, mh, hmh, hlo, hhi⟩
    cases h : overlapsMapped ms va size with
    | true => rfl
    | false =>
      rcases hw.apart_of_not_overlaps h k mh hmh with h1 | h1 <;> omega

/-- Where every mapping is at least a byte, the loop of `VMemorySetAccess`
collects `ks` exactly when `ks` tiles the range. -/
theorem collectMappedHandles_eq_some_iff (hpos : ∀ va mh, ms.find? va = some mh → 0 < mh.size)
    {stop fuel va : Nat} (hfuel : stop - va < fuel) {ks : List Nat} :
    collectMappedHandles ms stop fuel va = some ks ↔ Tiles ms stop va ks := by
  induction fuel generalizing va ks with
  | zero => omega
  | succ fuel ih =>
    rw [collectMappedHandles]
    by_cases hlt : va < stop
    · rw [if_pos hlt]
      cases hmh : ms.find? va with
      | none =>
        refine ⟨fun h => (by cases h), fun ht => ?_⟩
        cases ht with
        | done h => omega
        | next _ hf _ => rw [hmh] at hf; cases hf
      | some mh =>
        have hsz := hpos va mh hmh
        have ih' := @ih (va + mh.size) (by omega)
        constructor
        · intro h
          obtain ⟨ks', hks', rfl⟩ := Option.map_eq_some_iff.mp h
          exact .next hlt hmh (ih'.mp hks')
        · intro ht
          cases ht with
          | done h => omega
          | next _ hf hrest =>
            rw [hmh] at hf
            cases hf
            simp [ih'.mpr hrest]
    · rw [if_neg hlt]
      constructor
      · intro h
        cases h
        exact .done (by omega)
      · intro ht
        cases ht with
        | done _ => rfl
        | next h _ _ => exact absurd h hlt

/-- A range in a reservation and tiled by mappings gets the per-handle calls
on its mappings, in order. -/
theorem State.Inv.vMemorySetAccess_of_tiles {s : State} (hi : s.Inv) {va size r : Nat}
    (hr : holdingReservation s.reservedAddressMap va size = some r) {ks : List Nat}
    (ht : Tiles s.mappedHandleMap (va + size) va ks) (setAccessPerHandle : Nat → Status) :
    s.vMemorySetAccess va size true setAccessPerHandle = firstFailure (ks.map setAccessPerHandle) := by
  have hks := (@collectMappedHandles_eq_some_iff s.mappedHandleMap hi.mappings.mapped_pos (va + size)
    (size + 1) va (by omega) ks).mpr ht
  simp [State.vMemorySetAccess, hr, hks]

/-- A range in a reservation and not tiled by mappings is refused with
`HSA_STATUS_ERROR_INVALID_ALLOCATION`. -/
theorem State.Inv.vMemorySetAccess_of_not_tiled {s : State} (hi : s.Inv) {va size r : Nat}
    (hr : holdingReservation s.reservedAddressMap va size = some r)
    (hnt : ∀ ks, ¬ Tiles s.mappedHandleMap (va + size) va ks) (setAccessPerHandle : Nat → Status) :
    s.vMemorySetAccess va size true setAccessPerHandle = .errorInvalidAllocation := by
  cases hc : collectMappedHandles s.mappedHandleMap (va + size) (size + 1) va with
  | none => simp [State.vMemorySetAccess, hr, hc]
  | some ks =>
    exact absurd ((@collectMappedHandles_eq_some_iff s.mappedHandleMap hi.mappings.mapped_pos (va + size)
      (size + 1) va (by omega) ks).mp hc) (hnt ks)

/-- With a round for each mapping from `k` on, the do-while loop of
`VMemoryMapAllowAccess` takes the run of contiguous mappings from `k`. -/
theorem contiguousHandles_run {fuel k : Nat} {mh : MappedHandle}
    (hfuel : (ms.keys.filter fun j => decide (k ≤ j)).length ≤ fuel) (hk : ms.find? k = some mh) :
    ContiguousRun ms k (contiguousHandles ms fuel k) := by
  induction fuel generalizing k mh with
  | zero =>
    have hmem : k ∈ ms.keys.filter fun j => decide (k ≤ j) := by
      simp [OrdMap.mem_keys_of_find? hk]
    have := List.length_pos_of_mem hmem
    omega
  | succ fuel ih =>
    rw [contiguousHandles, hk]
    cases hub : ms.upperBound k with
    | none => exact .last hk (by simp [hub])
    | some next =>
      by_cases hn : next = k + mh.size
      · subst hn
        obtain ⟨hnext, hlt, -⟩ := (OrdMap.upperBound_eq_some_iff ms k _).mp hub
        obtain ⟨mn, hmn⟩ := OrdMap.find?_of_mem_keys hnext
        -- one key fewer lies at or above the next mapping
        have hfewer := Chain.length_filter_le_lt (OrdMap.mem_keys_of_find? hk) hlt
        simpa using ContiguousRun.next hk hub (ih (by omega) hmn)
      · simpa [hn] using ContiguousRun.last hk (by simpa [hub] using hn)

/-- `VMemoryMapAllowAccess` sets access on the run of contiguous mappings
from the one holding `va`. -/
theorem MappingsWf.mapAllowAccessHandles_run (hw : MappingsWf rs ms) {k va : Nat} {mh : MappedHandle}
    (hk : ms.find? k = some mh) (hle : k ≤ va) (hlt : va < k + mh.size) :
    ContiguousRun ms k (mapAllowAccessHandles ms va) := by
  have hfloor := hw.floor_eq hk hle (Nat.le_of_lt hlt) (fun h => absurd h (Nat.ne_of_lt hlt))
  have hfuel : (ms.keys.filter fun j => decide (k ≤ j)).length ≤ ms.size := by
    have := List.length_filter_le (fun j => decide (k ≤ j)) ms.keys
    simpa [OrdMap.keys, OrdMap.size] using this
  simpa [mapAllowAccessHandles, hfloor, hk, hlt] using contiguousHandles_run hfuel hk

/-- No mapping holds `va`: `VMemoryMapAllowAccess` finds nothing. -/
theorem mapAllowAccessHandles_eq_nil {va : Nat}
    (hnone : ∀ k mh, ms.find? k = some mh → ¬ (k ≤ va ∧ va < k + mh.size)) :
    mapAllowAccessHandles ms va = [] := by
  unfold mapAllowAccessHandles
  split
  · rfl
  · next k hk =>
    have hle := ((OrdMap.floor_eq_some_iff ms va k).mp hk).2.1
    split
    · next mh hmh =>
      rw [if_neg]
      exact fun hgt => hnone k mh hmh ⟨hle, hgt⟩
    · rfl

/-- A run of contiguous mappings holds at least its first mapping. -/
theorem ContiguousRun.ne_nil {k : Nat} {ks : List Nat} (h : ContiguousRun ms k ks) : ks ≠ [] := by
  cases h <;> simp

end Mappings

/-! ## The four searches in reachable states -/

section Reachable

variable {s : State}

/-- **`VMemorySetAccess` in a reachable state.**  A range inside one
reservation gets the per-handle calls on the mappings tiling it, in order, and
is refused with `HSA_STATUS_ERROR_INVALID_ALLOCATION` when no mappings tile
it. -/
theorem reachable_vMemorySetAccess (hs : Reachable s) {va size r : Nat}
    (hr : holdingReservation s.reservedAddressMap va size = some r)
    (setAccessPerHandle : Nat → Status) :
    (∀ ks, Tiles s.mappedHandleMap (va + size) va ks →
      s.vMemorySetAccess va size true setAccessPerHandle =
        firstFailure (ks.map setAccessPerHandle)) ∧
    ((∀ ks, ¬ Tiles s.mappedHandleMap (va + size) va ks) →
      s.vMemorySetAccess va size true setAccessPerHandle = .errorInvalidAllocation) :=
  ⟨fun _ ht => hs.inv.vMemorySetAccess_of_tiles hr ht setAccessPerHandle,
    fun hnt => hs.inv.vMemorySetAccess_of_not_tiled hr hnt setAccessPerHandle⟩

/-- The mapping of `[0x1000, 0x2000)` tiles the range of its own bytes. -/
theorem reachable_vMemorySetAccess_one_mapping :
    ∃ s : State, s = (((init.step (.addressReserve 0x2000 (some 0x1000))).2.step
        (.handleCreate 0x1000 0x1000 (.ok 7))).2.step (.handleMap 0x1000 0x1000 7 .ok)).2 ∧
      s.vMemorySetAccess 0x1000 0x1000 true (fun _ => .success) = .success := by
  refine ⟨_, rfl, ?_⟩
  have hs : Reachable (((init.step (.addressReserve 0x2000 (some 0x1000))).2.step
      (.handleCreate 0x1000 0x1000 (.ok 7))).2.step (.handleMap 0x1000 0x1000 7 .ok)).2 :=
    .step _ (.step _ (.step _ .init rfl) rfl) rfl
  exact (reachable_vMemorySetAccess hs rfl _).1 [0x1000] (.next (by decide) rfl (.done (by decide)))

/-- **`VMemoryMapAllowAccess` in a reachable state.**  From an address that a
mapping holds, it sets access on the run of contiguous mappings from that
mapping and returns the first failure of the per-handle calls; from an address
that no mapping holds, it returns `HSA_STATUS_ERROR_INVALID_ALLOCATION`. -/
theorem reachable_vMemoryMapAllowAccess (hs : Reachable s) (va : Nat)
    (setAccessPerHandle : Nat → Status) :
    (∀ k mh, s.mappedHandleMap.find? k = some mh → k ≤ va → va < k + mh.size →
      ContiguousRun s.mappedHandleMap k (mapAllowAccessHandles s.mappedHandleMap va) ∧
        vMemoryMapAllowAccess s.mappedHandleMap va true setAccessPerHandle =
          firstFailure ((mapAllowAccessHandles s.mappedHandleMap va).map setAccessPerHandle)) ∧
    ((∀ k mh, s.mappedHandleMap.find? k = some mh → ¬ (k ≤ va ∧ va < k + mh.size)) →
      vMemoryMapAllowAccess s.mappedHandleMap va true setAccessPerHandle =
        .errorInvalidAllocation) := by
  refine ⟨fun k mh hk hle hlt => ?_, fun hnone => ?_⟩
  · have hrun := hs.inv.mappings.mapAllowAccessHandles_run hk hle hlt
    refine ⟨hrun, ?_⟩
    -- the run holds at least the mapping of `va`
    obtain ⟨k', ks, hks⟩ := List.exists_cons_of_ne_nil hrun.ne_nil
    simp [vMemoryMapAllowAccess, hks]
  · simp [vMemoryMapAllowAccess, mapAllowAccessHandles_eq_nil hnone]

/-- Map access from an address inside the mapping of `[0x1000, 0x2000)`. -/
theorem reachable_vMemoryMapAllowAccess_inside :
    ∃ s : State, s = (((init.step (.addressReserve 0x2000 (some 0x1000))).2.step
        (.handleCreate 0x1000 0x1000 (.ok 7))).2.step (.handleMap 0x1000 0x1000 7 .ok)).2 ∧
      ContiguousRun s.mappedHandleMap 0x1000 (mapAllowAccessHandles s.mappedHandleMap 0x1800) ∧
      vMemoryMapAllowAccess s.mappedHandleMap 0x1800 true (fun _ => .success) =
        firstFailure ((mapAllowAccessHandles s.mappedHandleMap 0x1800).map fun _ => .success) := by
  refine ⟨_, rfl, ?_⟩
  have hs : Reachable (((init.step (.addressReserve 0x2000 (some 0x1000))).2.step
      (.handleCreate 0x1000 0x1000 (.ok 7))).2.step (.handleMap 0x1000 0x1000 7 .ok)).2 :=
    .step _ (.step _ (.step _ .init rfl) rfl) rfl
  exact (reachable_vMemoryMapAllowAccess hs 0x1800 _).1 0x1000 _ rfl (by decide) (by decide)

/-- **`VMemoryGetAccess` in a reachable state.**  A valid GPU gets the
permission of the mapping holding the address; whenever the call succeeds the
address lies in a mapping or just past its end; and just past the end of a
mapping, where no mapping starts, it succeeds with that mapping's permission
although no mapping holds the address. -/
theorem reachable_vMemoryGetAccess (hs : Reachable s)
    (allowedAgents : Nat → Option AccessPermission) :
    (∀ va k mh, s.mappedHandleMap.find? k = some mh → k ≤ va → va < k + mh.size →
      vMemoryGetAccess s.mappedHandleMap allowedAgents va true =
        (.success, (allowedAgents k).getD .none)) ∧
    (∀ va, (vMemoryGetAccess s.mappedHandleMap allowedAgents va true).1 = .success →
      ∃ k mh, s.mappedHandleMap.find? k = some mh ∧ k ≤ va ∧ va ≤ k + mh.size) ∧
    (∀ k mh, s.mappedHandleMap.find? k = some mh → s.mappedHandleMap.find? (k + mh.size) = none →
      vMemoryGetAccess s.mappedHandleMap allowedAgents (k + mh.size) true =
        (.success, (allowedAgents k).getD .none) ∧
      ∀ j mj, s.mappedHandleMap.find? j = some mj → ¬ (j ≤ k + mh.size ∧ k + mh.size < j + mj.size)) := by
  have hw := hs.inv.mappings
  refine ⟨fun va k mh hk hle hlt => ?_, fun va hok => ?_,
    fun k mh hk hgap => hw.vMemoryGetAccess_at_end hk hgap allowedAgents⟩
  · exact vMemoryGetAccess_of_getAccessHandle (hw.getAccessHandle_of_inside hk hle hlt) allowedAgents
  · obtain ⟨k, hget⟩ := getAccessHandle_of_vMemoryGetAccess hok
    obtain ⟨mh, hk, hin⟩ := getAccessHandle_spec hget
    exact ⟨k, mh, hk, hin⟩

/-- Access at an address inside the mapping of `[0x1000, 0x2000)` and just
past its end. -/
theorem reachable_vMemoryGetAccess_one_mapping :
    ∃ s : State, s = (((init.step (.addressReserve 0x2000 (some 0x1000))).2.step
        (.handleCreate 0x1000 0x1000 (.ok 7))).2.step (.handleMap 0x1000 0x1000 7 .ok)).2 ∧
      vMemoryGetAccess s.mappedHandleMap (fun _ => some .rw) 0x1800 true = (.success, .rw) ∧
      vMemoryGetAccess s.mappedHandleMap (fun _ => some .rw) 0x2000 true = (.success, .rw) := by
  refine ⟨_, rfl, ?_⟩
  have hs : Reachable (((init.step (.addressReserve 0x2000 (some 0x1000))).2.step
      (.handleCreate 0x1000 0x1000 (.ok 7))).2.step (.handleMap 0x1000 0x1000 7 .ok)).2 :=
    .step _ (.step _ (.step _ .init rfl) rfl) rfl
  have h := reachable_vMemoryGetAccess hs (fun _ => some .rw)
  exact ⟨h.1 0x1800 0x1000 _ rfl (by decide) (by decide), (h.2.2 0x1000 _ rfl rfl).1⟩

/-- **`VMemoryHandleMap`'s overlap check in a reachable state.**  It refuses
a nonempty range exactly when the range meets a mapping. -/
theorem reachable_overlapsMapped_iff (hs : Reachable s) {va size : Nat} (hpos : 0 < size) :
    overlapsMapped s.mappedHandleMap va size = true ↔
      ∃ k mh, s.mappedHandleMap.find? k = some mh ∧ k < va + size ∧ va < k + mh.size :=
  hs.inv.mappings.overlapsMapped_iff hpos

/-- A range that starts inside the mapping of `[0x1000, 0x2000)` meets it. -/
theorem reachable_overlapsMapped_iff_inside :
    ∃ s : State, s = (((init.step (.addressReserve 0x2000 (some 0x1000))).2.step
        (.handleCreate 0x1000 0x1000 (.ok 7))).2.step (.handleMap 0x1000 0x1000 7 .ok)).2 ∧
      (overlapsMapped s.mappedHandleMap 0x1800 0x1000 = true ↔
        ∃ k mh, s.mappedHandleMap.find? k = some mh ∧ k < 0x1800 + 0x1000 ∧ 0x1800 < k + mh.size) := by
  refine ⟨_, rfl, ?_⟩
  exact reachable_overlapsMapped_iff (.step _ (.step _ (.step _ .init rfl) rfl) rfl) (by decide)

end Reachable

end Runtime
