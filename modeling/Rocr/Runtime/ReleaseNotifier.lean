import Mathlib
import Rocr.Runtime.VMemory

/-!
# Release notifiers of the allocation map

`Runtime::AllocateMemory` records every allocation in `allocation_map_`, keyed
by its base and holding the size the region rounded the request up to.
`RegisterReleaseNotifier(ptr, callback, user_data)` appends a notifier to the
allocation holding `ptr`, found as the last base at or below it
(`upper_bound(ptr)` stepped back once).  `DeregisterReleaseNotifier(ptr,
callback)` removes the matching notifiers of that allocation with a loop that
overwrites a match with the last notifier, pops the vector and steps its
`size_t` index back, below zero when the match is at index `0`.
`FreeMemory(ptr)` erases the allocation under the lock and runs its notifiers
after releasing it.

The region's answers to `Allocate` and `Free` are arguments of the calls.  The
size requested and the allocation flags are not modelled: no call here reads
them besides the ASAN header check.

What a history of calls means for one allocation is stated without the map:
`view b calls` is its size and the multiset of notifiers registered on it and
not deregistered since, or `none` when it is not live.  While the live
allocations have non-null bases, positive sizes and disjoint ranges
(`Apart`), the map agrees with that view after every call, and each call does
what the view says (`releaseNotifiers_spec`).  Without those premises it does
not: freeing the null pointer succeeds, and an empty allocation inside
another hides it from `RegisterReleaseNotifier`
(`releaseNotifiers_null_and_empty`).
-/

namespace Runtime

/-- `AllocationRegion::notifier_t`: the pointer a notifier was registered at,
its callback (compared as a function pointer) and its user data. -/
structure Notifier where
  ptr : Nat
  callback : Nat
  userData : Nat
deriving DecidableEq, Repr

/-- Whether `DeregisterReleaseNotifier(ptr, callback)` removes a notifier. -/
def Notifier.Matches (n : Notifier) (ptr callback : Nat) : Bool :=
  n.ptr == ptr && n.callback == callback

/-- An `allocation_map_` entry, `AllocationRegion`: its region (`none` for an
imported fragment), its size and its notifier vector (`none` while the
`unique_ptr` holding it is empty). -/
structure AllocationRegion where
  region : Option Nat
  size : Nat
  notifiers : Option (List Notifier)
deriving DecidableEq, Repr

/-- `allocation_map_`, keyed by base address. -/
abbrev AllocationMap := OrdMap Nat AllocationRegion

/-- `Runtime::AllocateMemory`, given the answer of `region->Allocate`: the
address and the size it rounded the request up to, or its error. -/
def allocateMemory (m : AllocationMap) (region : Nat) (allocate : Except Status (Nat × Nat)) :
    Status × AllocationMap :=
  match allocate with
  | .error e => (e, m)
  | .ok (address, size) => (.success, m.assign address ⟨some region, size, none⟩)

/-- `Runtime::FreeMemory`: the status, the map when the lock is released, and
the notifiers it then calls, in order.  `regionFree` is whether
`region->Free` succeeds; when it fails and no system event handler takes the
error the process aborts. -/
def freeMemory (m : AllocationMap) (ptr : Nat) (regionFree : Bool) :
    Status × AllocationMap × List Notifier :=
  if ptr = 0 then (.success, m, [])
  else
    match m.find? ptr with
    | none => (.errorInvalidAllocation, m, [])
    | some a =>
      -- imported fragments can't be released with FreeMemory
      if a.region = none then (.errorInvalidArgument, m, [])
      else (if regionFree then .success else .error, m.erase ptr, a.notifiers.getD [])

/-- `Runtime::RegisterReleaseNotifier`. -/
def registerReleaseNotifier (m : AllocationMap) (ptr callback userData : Nat) :
    Status × AllocationMap :=
  -- `--allocation_map_.upper_bound(ptr)`, unless that is `begin()`
  match m.floor ptr with
  | none => (.errorInvalidAllocation, m)
  | some base =>
    match m.find? base with
    | none => (.errorInvalidAllocation, m)
    | some a =>
      if a.region = none then (.errorInvalidAllocation, m)
      else if base ≤ ptr ∧ ptr < base + a.size then
        (.success, m.assign base
          { a with notifiers := some (a.notifiers.getD [] ++ [⟨ptr, callback, userData⟩]) })
      else (.errorInvalidAllocation, m)

/-- The loop of `DeregisterReleaseNotifier` from index `i`, with `found`
whether it has set `ret` to `HSA_STATUS_SUCCESS`.  A match is overwritten with
the last notifier and the vector popped; `i--` then `i++` leave `i` where it
was, through `2^64 - 1` when it is `0`.  Each turn removes a notifier or
moves `i` on, so `fuel` at least the notifiers left to visit runs it out. -/
def deregisterLoop (ptr callback : Nat) : Nat → List Notifier → UInt64 → Bool → List Notifier × Bool
  | 0, v, _, found => (v, found)
  | fuel + 1, v, i, found =>
    if h : i.toNat < v.length then
      if v[i.toNat].Matches ptr callback then
        deregisterLoop ptr callback fuel ((v.set i.toNat v[v.length - 1]).dropLast) (i - 1 + 1) true
      else deregisterLoop ptr callback fuel v (i + 1) found
    else (v, found)

/-- `Runtime::DeregisterReleaseNotifier`. -/
def deregisterReleaseNotifier (m : AllocationMap) (ptr callback : Nat) : Status × AllocationMap :=
  match m.floor ptr with
  | none => (.errorInvalidArgument, m)
  | some base =>
    match m.find? base with
    | none => (.errorInvalidArgument, m)
    | some a =>
      if base ≤ ptr ∧ ptr < base + a.size then
        match a.notifiers with
        | none => (.errorInvalidArgument, m)
        | some v =>
          let r := deregisterLoop ptr callback v.length v 0 false
          (if r.2 then .success else .errorInvalidArgument,
            m.assign base { a with notifiers := some r.1 })
      else (.errorInvalidArgument, m)

/-- A call on the allocation map, with the answers the region gives it. -/
inductive Call where
  | allocateMemory (region : Nat) (allocate : Except Status (Nat × Nat))
  | freeMemory (ptr : Nat) (regionFree : Bool)
  | registerReleaseNotifier (ptr callback userData : Nat)
  | deregisterReleaseNotifier (ptr callback : Nat)

/-- A call's status, the map after it, and the notifiers it calls. -/
def Call.apply (m : AllocationMap) : Call → Status × AllocationMap × List Notifier
  | .allocateMemory region allocate =>
    let r := Runtime.allocateMemory m region allocate
    (r.1, r.2, [])
  | .freeMemory ptr regionFree => Runtime.freeMemory m ptr regionFree
  | .registerReleaseNotifier ptr callback userData =>
    let r := Runtime.registerReleaseNotifier m ptr callback userData
    (r.1, r.2, [])
  | .deregisterReleaseNotifier ptr callback =>
    let r := Runtime.deregisterReleaseNotifier m ptr callback
    (r.1, r.2, [])

/-- The map after a sequence of calls. -/
def runCalls (m : AllocationMap) (calls : List Call) : AllocationMap :=
  calls.foldl (fun m c => (c.apply m).2.1) m

/-! ## What a history of calls means for one allocation -/

/-- One call's effect on allocation `b`, seen as its size and the notifiers
registered on it and not deregistered since (`none` when it is not live).
Allocating at `b` makes it live with no notifiers, freeing `b` ends it, and
a registration or deregistration at an address inside it adds the notifier or
drops the matching ones. -/
def Call.view (b : Nat) (v : Option (Nat × Multiset Notifier)) : Call → Option (Nat × Multiset Notifier)
  | .allocateMemory _ (.ok (base, size)) => if base = b then some (size, 0) else v
  | .allocateMemory _ (.error _) => v
  | .freeMemory ptr _ => if ptr = b then none else v
  | .registerReleaseNotifier ptr callback userData =>
    v.map fun e => if b ≤ ptr ∧ ptr < b + e.1 then (e.1, ⟨ptr, callback, userData⟩ ::ₘ e.2) else e
  | .deregisterReleaseNotifier ptr callback =>
    v.map fun e =>
      if b ≤ ptr ∧ ptr < b + e.1 then (e.1, e.2.filter fun n => n.Matches ptr callback = false) else e

/-- Allocation `b` after a history of calls. -/
def view (b : Nat) (calls : List Call) : Option (Nat × Multiset Notifier) :=
  calls.foldl (Call.view b) none

/-- An entry of the map seen the same way. -/
def AllocationRegion.view (a : AllocationRegion) : Nat × Multiset Notifier :=
  (a.size, (a.notifiers.getD [] : Multiset Notifier))

/-- The premise of the results: the live allocations have non-null bases,
positive sizes and pairwise disjoint ranges, and each notifier vector is short
enough for its `size_t` index. -/
structure Apart (m : AllocationMap) : Prop where
  base_ne_zero : ∀ b a, m.find? b = some a → b ≠ 0
  size_pos : ∀ b a, m.find? b = some a → 0 < a.size
  disjoint : ∀ b a b' a', m.find? b = some a → m.find? b' = some a' → b ≠ b' →
    b + a.size ≤ b' ∨ b' + a'.size ≤ b
  size_fits : ∀ b a, m.find? b = some a → (a.notifiers.getD []).length < 2 ^ 64

/-- `Apart`, read over the entries of the map. -/
theorem apart_iff (m : AllocationMap) :
    Apart m ↔ (∀ e ∈ m.entries,
        e.1 ≠ 0 ∧ 0 < e.2.size ∧ (e.2.notifiers.getD []).length < 2 ^ 64) ∧
      ∀ e ∈ m.entries, ∀ e' ∈ m.entries, e.1 ≠ e'.1 →
        e.1 + e.2.size ≤ e'.1 ∨ e'.1 + e'.2.size ≤ e.1 := by
  constructor
  · intro hw
    refine ⟨fun e he => ?_, fun e he e' he' hne => ?_⟩
    · have ha := OrdMap.find?_of_mem_entries he
      exact ⟨hw.base_ne_zero _ _ ha, hw.size_pos _ _ ha, hw.size_fits _ _ ha⟩
    · exact hw.disjoint _ _ _ _ (OrdMap.find?_of_mem_entries he) (OrdMap.find?_of_mem_entries he') hne
  · rintro ⟨hentry, hdisjoint⟩
    refine ⟨fun b a ha => ?_, fun b a ha => ?_, fun b a b' a' ha ha' hne => ?_, fun b a ha => ?_⟩
    · exact (hentry _ (OrdMap.mem_entries_of_find? ha)).1
    · exact (hentry _ (OrdMap.mem_entries_of_find? ha)).2.1
    · exact hdisjoint _ (OrdMap.mem_entries_of_find? ha) _ (OrdMap.mem_entries_of_find? ha') hne
    · exact (hentry _ (OrdMap.mem_entries_of_find? ha)).2.2

instance : DecidablePred Apart := fun m => decidable_of_iff _ (apart_iff m).symm

/-- Every entry was made by `AllocateMemory`: none is an imported fragment. -/
def NoImports (m : AllocationMap) : Prop := ∀ b a, m.find? b = some a → a.region ≠ none

/-! ## The deregistration loop -/

section Loop

/-- Overwriting entry `i` with the last entry and popping the list removes
entry `i`, up to order. -/
theorem perm_cons_set_last_dropLast {α : Type} {v : List α} {i : Nat} (hi : i < v.length) :
    v.Perm (v[i] :: (v.set i v[v.length - 1]).dropLast) := by
  have hlast : v.length - 1 < v.length := by omega
  -- the swap of entries `i` and `last` is a permutation, and popping it drops
  -- what was entry `i`
  let w := (v.set i v[v.length - 1]).set (v.length - 1) v[i]
  have hswap : w.Perm v := List.set_set_perm hi hlast
  have hne : w ≠ [] := List.ne_nil_of_length_pos (by simp [w]; omega)
  have hget : w.getLast hne = v[i] := by simp [w, List.getLast_eq_getElem]
  have hdrop : w.dropLast = (v.set i v[v.length - 1]).dropLast := by
    simp only [w, List.dropLast_eq_take, List.length_set]
    exact List.take_set_of_le (Nat.le_refl _)
  calc v.Perm w := hswap.symm
    _ = w.dropLast ++ [v[i]] := by rw [← hget, List.dropLast_concat_getLast]
    List.Perm _ (v[i] :: w.dropLast) := List.perm_append_singleton _ _
    _ = v[i] :: (v.set i v[v.length - 1]).dropLast := by rw [hdrop]

variable {ptr callback : Nat}

/-- The loop stops with what it has once no notifier is left to match. -/
theorem deregisterLoop_exit {v : List Notifier} {found : Bool}
    (hall : ∀ n ∈ v, n.Matches ptr callback = false) :
    v.Perm (v.filter fun n => !n.Matches ptr callback) ∧
      found = (found || v.any fun n => n.Matches ptr callback) := by
  have hfilter : (v.filter fun n => !n.Matches ptr callback) = v :=
    List.filter_eq_self.mpr fun n hn => by simp [hall n hn]
  have hany : (v.any fun n => n.Matches ptr callback) = false :=
    List.any_eq_false.mpr fun n hn => by simp [hall n hn]
  rw [hfilter, hany, Bool.or_false]
  exact ⟨List.Perm.refl v, rfl⟩

/-- **The loop.**  From index `i`, with no match before it and enough fuel
for the notifiers left, the loop keeps exactly the notifiers that do not
match, up to order, and reports whether any did. -/
theorem deregisterLoop_spec {fuel : Nat} {v : List Notifier} {i : UInt64} {found : Bool}
    (hv : v.length < 2 ^ 64) (hi : i.toNat ≤ v.length) (hfuel : v.length - i.toNat ≤ fuel)
    (hpre : ∀ n ∈ v.take i.toNat, n.Matches ptr callback = false) :
    (deregisterLoop ptr callback fuel v i found).1.Perm (v.filter fun n => !n.Matches ptr callback) ∧
      (deregisterLoop ptr callback fuel v i found).2 =
        (found || v.any fun n => n.Matches ptr callback) := by
  induction fuel generalizing v i found with
  | zero =>
    -- out of fuel only once every notifier has been visited
    rw [List.take_of_length_le (by omega)] at hpre
    exact deregisterLoop_exit hpre
  | succ fuel ih =>
    by_cases hlt : i.toNat < v.length
    · by_cases hm : v[i.toNat].Matches ptr callback = true
      · -- a match: the last notifier moves into slot `i`, which the loop visits again
        let v' := (v.set i.toNat v[v.length - 1]).dropLast
        have hlen : v'.length = v.length - 1 := by simp [v']
        have htake : v'.take i.toNat = v.take i.toNat := by
          simp only [v', List.dropLast_eq_take, List.take_take, List.length_set]
          rw [Nat.min_eq_left (by omega), List.take_set_of_le (Nat.le_refl _)]
        have hidx : i - 1 + 1 = i := by simp
        obtain ⟨hperm, hret⟩ := @ih v' i true (by omega) (by omega) (by omega) (htake ▸ hpre)
        simp only [deregisterLoop, dif_pos hlt, if_pos hm, hidx]
        have hdrop : (v.filter fun n => !n.Matches ptr callback).Perm
            (v'.filter fun n => !n.Matches ptr callback) := by
          have := (perm_cons_set_last_dropLast hlt).filter fun n => !n.Matches ptr callback
          rwa [List.filter_cons_of_neg (by simp [hm])] at this
        have hany : (v.any fun n => n.Matches ptr callback) = true :=
          List.any_eq_true.mpr ⟨_, List.getElem_mem hlt, hm⟩
        exact ⟨hperm.trans hdrop.symm, by rw [hret, hany]; simp⟩
      · -- no match: the loop moves on to `i + 1`, which does not wrap
        have hnext : (i + 1).toNat = i.toNat + 1 := by
          rw [UInt64.toNat_add]
          simp only [UInt64.toNat_one]
          omega
        have hpre' : ∀ n ∈ v.take (i + 1).toNat, n.Matches ptr callback = false := by
          intro n hn
          rw [hnext, List.take_add_one, List.getElem?_eq_getElem hlt] at hn
          rcases List.mem_append.mp hn with hn | hn
          · exact hpre n hn
          · have hn' : n = v[i.toNat] := by simpa using hn
            rw [hn']
            simpa using hm
        simp only [deregisterLoop, dif_pos hlt, if_neg hm]
        exact ih hv (by omega) (by omega) hpre'
    · simp only [deregisterLoop, dif_neg hlt]
      rw [List.take_of_length_le (by omega)] at hpre
      exact deregisterLoop_exit hpre

/-- Run from index `0` with the vector's length as fuel, as
`DeregisterReleaseNotifier` does, the loop removes exactly the matches. -/
theorem deregisterLoop_full {v : List Notifier} (hv : v.length < 2 ^ 64) :
    (deregisterLoop ptr callback v.length v 0 false).1.Perm
        (v.filter fun n => !n.Matches ptr callback) ∧
      (deregisterLoop ptr callback v.length v 0 false).2 = v.any fun n => n.Matches ptr callback := by
  have h := @deregisterLoop_spec ptr callback v.length v 0 false hv (by simp) (by simp) (by simp)
  rwa [Bool.false_or] at h

end Loop

/-! ## The allocation holding an address -/

section Holder

variable {m : AllocationMap} {b p : Nat} {a : AllocationRegion}

/-- In an apart map, the allocation holding an address is the last one at or
below it, which `upper_bound` stepped back once finds. -/
theorem Apart.floor_eq (hw : Apart m) (ha : m.find? b = some a) (hlo : b ≤ p)
    (hhi : p < b + a.size) : m.floor p = some b := by
  rw [OrdMap.floor_eq_some_iff]
  refine ⟨OrdMap.mem_keys_of_find? ha, hlo, fun j hj hjp => Nat.le_of_not_lt fun hbj => ?_⟩
  -- a later base at or below `p` would start inside allocation `b`
  obtain ⟨aj, haj⟩ := OrdMap.find?_of_mem_keys hj
  have hpos := hw.size_pos j aj haj
  rcases hw.disjoint b a j aj ha haj (Nat.ne_of_lt hbj) with h | h <;> omega

/-- No other allocation holds an address that allocation `b` holds. -/
theorem Apart.not_inside_of_ne (hw : Apart m) (ha : m.find? b = some a) (hlo : b ≤ p)
    (hhi : p < b + a.size) {j : Nat} (hj : j ≠ b) :
    ∀ aj, m.find? j = some aj → ¬ (j ≤ p ∧ p < j + aj.size) := by
  intro aj haj hin
  have hfj := hw.floor_eq haj hin.1 hin.2
  rw [hw.floor_eq ha hlo hhi] at hfj
  exact hj (Option.some.inj hfj).symm

theorem registerReleaseNotifier_of_holder (hw : Apart m) (hr : NoImports m)
    (ha : m.find? b = some a) (hlo : b ≤ p) (hhi : p < b + a.size) (callback userData : Nat) :
    registerReleaseNotifier m p callback userData =
      (.success, m.assign b
        { a with notifiers := some (a.notifiers.getD [] ++ [⟨p, callback, userData⟩]) }) := by
  simp only [registerReleaseNotifier, hw.floor_eq ha hlo hhi, ha, hr b a ha, if_false, hlo, hhi,
    and_self, if_true]

theorem registerReleaseNotifier_of_no_holder
    (hno : ∀ j aj, m.find? j = some aj → ¬ (j ≤ p ∧ p < j + aj.size)) (callback userData : Nat) :
    registerReleaseNotifier m p callback userData = (.errorInvalidAllocation, m) := by
  unfold registerReleaseNotifier
  split
  · rfl
  · next base _ =>
    split
    · rfl
    · next aj haj =>
      split_ifs with hreg hin
      · rfl
      · exact absurd hin (hno base aj haj)
      · rfl

/-- `DeregisterReleaseNotifier` at an address that allocation `b` holds: it
succeeds exactly when a notifier of `b` matches, and leaves `b` with the rest
of its notifiers and every other entry as it was. -/
theorem deregisterReleaseNotifier_of_holder (hw : Apart m) (ha : m.find? b = some a)
    (hlo : b ≤ p) (hhi : p < b + a.size) (callback : Nat) :
    ((deregisterReleaseNotifier m p callback).1 = .success ↔
        (a.notifiers.getD []).any fun n => n.Matches p callback) ∧
      ∀ j, ((deregisterReleaseNotifier m p callback).2.find? j).map AllocationRegion.view =
        if j = b then
          some (a.size, (a.notifiers.getD [] : Multiset Notifier).filter
            fun n => n.Matches p callback = false)
        else (m.find? j).map AllocationRegion.view := by
  have hfl := hw.floor_eq ha hlo hhi
  cases hn : a.notifiers with
  | none =>
    -- no vector yet: nothing to remove, and the view of `b` is empty already
    simp only [deregisterReleaseNotifier, hfl, ha, hlo, hhi, and_self, if_true, hn]
    refine ⟨by simp, fun j => ?_⟩
    split_ifs with hj
    · subst hj
      simp [ha, AllocationRegion.view, hn]
    · rfl
  | some v =>
    have hv : v.length < 2 ^ 64 := by simpa [hn] using hw.size_fits b a ha
    obtain ⟨hperm, hret⟩ := @deregisterLoop_full p callback v hv
    simp only [deregisterReleaseNotifier, hfl, ha, hlo, hhi, and_self, if_true, hn, Option.getD_some]
    refine ⟨by simp [hret], fun j => ?_⟩
    rw [OrdMap.find?_assign]
    split_ifs with hj
    · simp [AllocationRegion.view, Multiset.coe_eq_coe.mpr hperm]
    · rfl

theorem deregisterReleaseNotifier_of_no_holder
    (hno : ∀ j aj, m.find? j = some aj → ¬ (j ≤ p ∧ p < j + aj.size)) (callback : Nat) :
    deregisterReleaseNotifier m p callback = (.errorInvalidArgument, m) := by
  unfold deregisterReleaseNotifier
  split
  · rfl
  · next base _ =>
    split
    · rfl
    · next aj haj =>
      rw [if_neg (hno base aj haj)]

theorem freeMemory_of_live (hr : NoImports m) (hz : b ≠ 0) (ha : m.find? b = some a)
    (regionFree : Bool) :
    freeMemory m b regionFree =
      (if regionFree then .success else .error, m.erase b, a.notifiers.getD []) := by
  simp only [freeMemory, hz, if_false, ha, hr b a ha]

theorem freeMemory_of_not_live (hz : b ≠ 0) (hn : m.find? b = none) (regionFree : Bool) :
    freeMemory m b regionFree = (.errorInvalidAllocation, m, []) := by
  simp only [freeMemory, hz, if_false, hn]

end Holder

/-! ## No call imports a fragment -/

section Imports

variable {m : AllocationMap}

/-- Rewriting an entry without touching its region keeps the map free of
imports. -/
theorem NoImports.assign (hr : NoImports m) (b : Nat) {a : AllocationRegion}
    (hreg : a.region ≠ none) : NoImports (m.assign b a) := by
  intro j aj hj
  rw [OrdMap.find?_assign] at hj
  split_ifs at hj with hjb
  · cases hj
    exact hreg
  · exact hr j aj hj

theorem NoImports.assign_of_region (hr : NoImports m) {b : Nat} {a a' : AllocationRegion}
    (ha : m.find? b = some a) (hreg : a'.region = a.region) : NoImports (m.assign b a') :=
  hr.assign b (hreg ▸ hr b a ha)

theorem NoImports.erase (hr : NoImports m) (b : Nat) : NoImports (m.erase b) := by
  intro j aj hj
  rw [OrdMap.find?_erase] at hj
  split_ifs at hj
  exact hr j aj hj

theorem NoImports.registerReleaseNotifier (hr : NoImports m) (p callback userData : Nat) :
    NoImports (registerReleaseNotifier m p callback userData).2 := by
  unfold Runtime.registerReleaseNotifier
  split
  · exact hr
  · split
    · exact hr
    · next a ha =>
      split_ifs
      · exact hr
      · exact hr.assign_of_region ha rfl
      · exact hr

theorem NoImports.deregisterReleaseNotifier (hr : NoImports m) (p callback : Nat) :
    NoImports (deregisterReleaseNotifier m p callback).2 := by
  unfold Runtime.deregisterReleaseNotifier
  split
  · exact hr
  · split
    · exact hr
    · next a ha =>
      split_ifs
      · split
        · exact hr
        · exact hr.assign_of_region ha rfl
      · exact hr

/-- Every call keeps the map free of imports: only `AllocateMemory` adds
entries, and it records their region. -/
theorem NoImports.apply (hr : NoImports m) (c : Call) : NoImports (c.apply m).2.1 := by
  cases c with
  | allocateMemory region allocate =>
    rcases allocate with e | ⟨base, size⟩
    · exact hr
    · exact hr.assign base (by simp)
  | freeMemory ptr regionFree =>
    simp only [Call.apply]
    by_cases hz : ptr = 0
    · subst hz
      simp only [freeMemory, if_true]
      exact hr
    · cases ha : m.find? ptr with
      | none =>
        rw [freeMemory_of_not_live hz ha]
        exact hr
      | some a =>
        rw [freeMemory_of_live hr hz ha]
        exact hr.erase ptr
  | registerReleaseNotifier p callback userData => exact hr.registerReleaseNotifier p callback userData
  | deregisterReleaseNotifier p callback => exact hr.deregisterReleaseNotifier p callback

end Imports

/-! ## The map refines the history -/

section Refinement

variable {m : AllocationMap}

/-- A registration or deregistration at an address outside allocation `j`
leaves its view. -/
theorem map_view_of_outside {j p : Nat} (f : Nat × Multiset Notifier → Nat × Multiset Notifier)
    (hout : ∀ aj, m.find? j = some aj → ¬ (j ≤ p ∧ p < j + aj.size)) :
    ((m.find? j).map AllocationRegion.view).map (fun e => if j ≤ p ∧ p < j + e.1 then f e else e) =
      (m.find? j).map AllocationRegion.view := by
  cases hj : m.find? j with
  | none => rfl
  | some aj => simp [AllocationRegion.view, hout aj hj]

theorem view_allocateMemory (region : Nat) (allocate : Except Status (Nat × Nat)) (j : Nat) :
    ((allocateMemory m region allocate).2.find? j).map AllocationRegion.view =
      Call.view j ((m.find? j).map AllocationRegion.view) (.allocateMemory region allocate) := by
  rcases allocate with e | ⟨base, size⟩
  · rfl
  · simp only [allocateMemory, Call.view, OrdMap.find?_assign]
    by_cases hj : j = base
    · subst hj
      simp [AllocationRegion.view]
    · simp [hj, Ne.symm hj]

theorem view_freeMemory (hw : Apart m) (hr : NoImports m) (ptr : Nat) (regionFree : Bool) (j : Nat) :
    ((freeMemory m ptr regionFree).2.1.find? j).map AllocationRegion.view =
      Call.view j ((m.find? j).map AllocationRegion.view) (.freeMemory ptr regionFree) := by
  simp only [Call.view]
  by_cases hz : ptr = 0
  · -- freeing the null pointer changes nothing, and nothing is live at `0`
    subst hz
    have hnull : m.find? 0 = none :=
      Option.eq_none_iff_forall_ne_some.mpr fun a ha => hw.base_ne_zero 0 a ha rfl
    simp only [freeMemory, if_true]
    split_ifs with hj
    · rw [← hj, hnull]
      rfl
    · rfl
  · cases ha : m.find? ptr with
    | none =>
      rw [freeMemory_of_not_live hz ha]
      split_ifs with hj
      · rw [← hj, ha]
        rfl
      · rfl
    | some a =>
      rw [freeMemory_of_live hr hz ha, OrdMap.find?_erase]
      by_cases hj : j = ptr
      · simp [hj]
      · simp [hj, Ne.symm hj]

theorem view_registerReleaseNotifier (hw : Apart m) (hr : NoImports m) (p callback userData j : Nat) :
    ((registerReleaseNotifier m p callback userData).2.find? j).map AllocationRegion.view =
      Call.view j ((m.find? j).map AllocationRegion.view)
        (.registerReleaseNotifier p callback userData) := by
  simp only [Call.view]
  by_cases hh : ∃ b a, m.find? b = some a ∧ b ≤ p ∧ p < b + a.size
  · obtain ⟨b, a, ha, hlo, hhi⟩ := hh
    rw [registerReleaseNotifier_of_holder hw hr ha hlo hhi, OrdMap.find?_assign]
    by_cases hj : j = b
    · subst hj
      simp [ha, AllocationRegion.view, hlo, hhi]
    · rw [if_neg hj]
      exact (map_view_of_outside _ (hw.not_inside_of_ne ha hlo hhi hj)).symm
  · have hno : ∀ j aj, m.find? j = some aj → ¬ (j ≤ p ∧ p < j + aj.size) :=
      fun j aj haj hin => hh ⟨j, aj, haj, hin⟩
    rw [registerReleaseNotifier_of_no_holder hno]
    exact (map_view_of_outside _ (hno j)).symm

theorem view_deregisterReleaseNotifier (hw : Apart m) (p callback j : Nat) :
    ((deregisterReleaseNotifier m p callback).2.find? j).map AllocationRegion.view =
      Call.view j ((m.find? j).map AllocationRegion.view) (.deregisterReleaseNotifier p callback) := by
  simp only [Call.view]
  by_cases hh : ∃ b a, m.find? b = some a ∧ b ≤ p ∧ p < b + a.size
  · obtain ⟨b, a, ha, hlo, hhi⟩ := hh
    rw [(deregisterReleaseNotifier_of_holder hw ha hlo hhi callback).2 j]
    by_cases hj : j = b
    · subst hj
      simp [ha, AllocationRegion.view, hlo, hhi]
    · rw [if_neg hj]
      exact (map_view_of_outside _ (hw.not_inside_of_ne ha hlo hhi hj)).symm
  · have hno : ∀ j aj, m.find? j = some aj → ¬ (j ≤ p ∧ p < j + aj.size) :=
      fun j aj haj hin => hh ⟨j, aj, haj, hin⟩
    rw [deregisterReleaseNotifier_of_no_holder hno]
    exact (map_view_of_outside _ (hno j)).symm

/-- **Step.**  On an apart map with no imports, every call changes each
entry as the history's view of it changes. -/
theorem view_apply (hw : Apart m) (hr : NoImports m) (c : Call) (j : Nat) :
    ((c.apply m).2.1.find? j).map AllocationRegion.view =
      Call.view j ((m.find? j).map AllocationRegion.view) c := by
  cases c with
  | allocateMemory region allocate => exact view_allocateMemory region allocate j
  | freeMemory ptr regionFree => exact view_freeMemory hw hr ptr regionFree j
  | registerReleaseNotifier p callback userData =>
    exact view_registerReleaseNotifier hw hr p callback userData j
  | deregisterReleaseNotifier p callback => exact view_deregisterReleaseNotifier hw p callback j

theorem view_append (b : Nat) (calls : List Call) (c : Call) :
    view b (calls ++ [c]) = Call.view b (view b calls) c := by
  simp [view]

/-- The run invariant: no entry is imported, and every entry is what the
history says of its allocation. -/
structure Tracks (m : AllocationMap) (calls : List Call) : Prop where
  noImports : NoImports m
  view_eq : ∀ j, (m.find? j).map AllocationRegion.view = view j calls

theorem Tracks.apply {calls : List Call} (ht : Tracks m calls) (hw : Apart m) (c : Call) :
    Tracks (c.apply m).2.1 (calls ++ [c]) where
  noImports := ht.noImports.apply c
  view_eq j := by rw [view_apply hw ht.noImports c j, ht.view_eq j, view_append]

theorem runCalls_append (m : AllocationMap) (calls : List Call) (c : Call) :
    runCalls m (calls ++ [c]) = (c.apply (runCalls m calls)).2.1 := by
  simp [runCalls]

/-- **Run.**  While every state of a run from the empty map is apart, the map
tracks the history. -/
theorem tracks_runCalls (calls : List Call)
    (hapart : ∀ i ≤ calls.length, Apart (runCalls .empty (calls.take i))) :
    Tracks (runCalls .empty calls) calls := by
  induction calls using List.reverseRecOn with
  | nil => exact ⟨fun j a hj => by simp [runCalls] at hj, fun j => rfl⟩
  | append_singleton calls c ih =>
    -- the states before `c` are those of the shorter run
    have hprefix : ∀ i ≤ calls.length, Apart (runCalls .empty (calls.take i)) := by
      intro i hi
      have := hapart i (by simp; omega)
      rwa [List.take_append_of_le_length hi] at this
    have hw : Apart (runCalls .empty calls) := by
      simpa using hprefix calls.length (Nat.le_refl _)
    rw [runCalls_append]
    exact (ih hprefix).apply hw c

end Refinement

/-! ## Each call against the history -/

section Calls

variable {m : AllocationMap} {calls : List Call}

theorem Tracks.view_of_find? (ht : Tracks m calls) {b : Nat} {a : AllocationRegion}
    (ha : m.find? b = some a) : view b calls = some a.view := by
  rw [← ht.view_eq b, ha]
  rfl

theorem Tracks.find?_of_view (ht : Tracks m calls) {b size : Nat} {pending : Multiset Notifier}
    (hv : view b calls = some (size, pending)) :
    ∃ a, m.find? b = some a ∧ a.size = size ∧ (a.notifiers.getD [] : Multiset Notifier) = pending := by
  rw [← ht.view_eq b, Option.map_eq_some_iff] at hv
  obtain ⟨a, ha, hview⟩ := hv
  exact ⟨a, ha, congrArg Prod.fst hview, congrArg Prod.snd hview⟩

/-- The allocations live in the map are those live in the history. -/
theorem Tracks.exists_holder_iff (ht : Tracks m calls) (p : Nat) :
    (∃ b a, m.find? b = some a ∧ b ≤ p ∧ p < b + a.size) ↔
      ∃ b size pending, view b calls = some (size, pending) ∧ b ≤ p ∧ p < b + size := by
  constructor
  · rintro ⟨b, a, ha, hin⟩
    exact ⟨b, a.size, _, ht.view_of_find? ha, hin⟩
  · rintro ⟨b, size, pending, hv, hlo, hhi⟩
    obtain ⟨a, ha, rfl, -⟩ := ht.find?_of_view hv
    exact ⟨b, a, ha, hlo, hhi⟩

theorem Tracks.registerReleaseNotifier_success_iff (ht : Tracks m calls) (hw : Apart m)
    (p callback userData : Nat) :
    (registerReleaseNotifier m p callback userData).1 = .success ↔
      ∃ b size pending, view b calls = some (size, pending) ∧ b ≤ p ∧ p < b + size := by
  rw [← ht.exists_holder_iff p]
  constructor
  · intro hs
    by_contra hh
    rw [registerReleaseNotifier_of_no_holder (fun j aj haj hin => hh ⟨j, aj, haj, hin⟩)] at hs
    cases hs
  · rintro ⟨b, a, ha, hlo, hhi⟩
    rw [registerReleaseNotifier_of_holder hw ht.noImports ha hlo hhi]

theorem Tracks.freeMemory_of_view (ht : Tracks m calls) (hw : Apart m) {b size : Nat}
    {pending : Multiset Notifier} (hv : view b calls = some (size, pending)) (regionFree : Bool) :
    ((freeMemory m b regionFree).2.2 : Multiset Notifier) = pending ∧
      (freeMemory m b regionFree).2.1.find? b = none := by
  obtain ⟨a, ha, -, hpending⟩ := ht.find?_of_view hv
  rw [freeMemory_of_live ht.noImports (hw.base_ne_zero b a ha) ha]
  exact ⟨hpending, by simp⟩

theorem Tracks.deregisterReleaseNotifier_success_iff (ht : Tracks m calls) (hw : Apart m)
    (p callback : Nat) :
    (deregisterReleaseNotifier m p callback).1 = .success ↔
      ∃ b size pending, view b calls = some (size, pending) ∧ b ≤ p ∧ p < b + size ∧
        ∃ n ∈ pending, n.Matches p callback = true := by
  by_cases hh : ∃ b a, m.find? b = some a ∧ b ≤ p ∧ p < b + a.size
  · obtain ⟨b, a, ha, hlo, hhi⟩ := hh
    rw [(deregisterReleaseNotifier_of_holder hw ha hlo hhi callback).1, List.any_eq_true]
    constructor
    · rintro ⟨n, hn, hmatch⟩
      exact ⟨b, a.size, _, ht.view_of_find? ha, hlo, hhi, n, Multiset.mem_coe.mpr hn, hmatch⟩
    · -- the allocation the history names is `b`, the only one holding `p`
      rintro ⟨j, size, pending, hv, hjlo, hjhi, n, hn, hmatch⟩
      obtain ⟨aj, haj, rfl, hpending⟩ := ht.find?_of_view hv
      have hjb : j = b := by
        by_contra hne
        exact hw.not_inside_of_ne ha hlo hhi hne aj haj ⟨hjlo, hjhi⟩
      subst hjb
      rw [ha] at haj
      cases haj
      rw [← hpending] at hn
      exact ⟨n, Multiset.mem_coe.mp hn, hmatch⟩
  · have hno : ∀ j aj, m.find? j = some aj → ¬ (j ≤ p ∧ p < j + aj.size) :=
      fun j aj haj hin => hh ⟨j, aj, haj, hin⟩
    rw [deregisterReleaseNotifier_of_no_holder hno]
    constructor
    · intro hs
      cases hs
    · rintro ⟨j, size, pending, hv, hjlo, hjhi, -⟩
      exact absurd ((ht.exists_holder_iff p).mpr ⟨j, size, pending, hv, hjlo, hjhi⟩) hh

theorem Tracks.freeMemory_of_not_view (ht : Tracks m calls) {ptr : Nat} (hz : ptr ≠ 0)
    (hv : view ptr calls = none) (regionFree : Bool) :
    freeMemory m ptr regionFree = (.errorInvalidAllocation, m, []) := by
  have hn : m.find? ptr = none := by
    rw [← ht.view_eq ptr, Option.map_eq_none_iff] at hv
    exact hv
  exact freeMemory_of_not_live hz hn regionFree

/-- **Release notifiers.**  Along any history of calls from the empty map whose
states keep the live allocations at non-null bases, with positive sizes and
disjoint ranges: the map holds exactly the live allocations, each with the
notifiers registered on it and not deregistered since; registration succeeds
exactly at an address inside a live allocation; freeing a live allocation
takes it out of the map and then calls each of its pending notifiers once;
deregistration removes exactly the matching notifiers of the allocation
holding the address and succeeds exactly when there was one; and freeing a
non-null address that is not a live base fails and changes nothing. -/
theorem releaseNotifiers_spec (calls : List Call)
    (hapart : ∀ i ≤ calls.length, Apart (runCalls .empty (calls.take i))) :
    (∀ j, ((runCalls .empty calls).find? j).map AllocationRegion.view = view j calls) ∧
    (∀ p callback userData,
      (registerReleaseNotifier (runCalls .empty calls) p callback userData).1 = .success ↔
        ∃ b size pending, view b calls = some (size, pending) ∧ b ≤ p ∧ p < b + size) ∧
    (∀ b regionFree size pending, view b calls = some (size, pending) →
      ((freeMemory (runCalls .empty calls) b regionFree).2.2 : Multiset Notifier) = pending ∧
        (freeMemory (runCalls .empty calls) b regionFree).2.1.find? b = none) ∧
    (∀ p callback,
      (∀ j, ((deregisterReleaseNotifier (runCalls .empty calls) p callback).2.find? j).map
          AllocationRegion.view = Call.view j (view j calls) (.deregisterReleaseNotifier p callback)) ∧
      ((deregisterReleaseNotifier (runCalls .empty calls) p callback).1 = .success ↔
        ∃ b size pending, view b calls = some (size, pending) ∧ b ≤ p ∧ p < b + size ∧
          ∃ n ∈ pending, n.Matches p callback = true)) ∧
    (∀ ptr regionFree, ptr ≠ 0 → view ptr calls = none →
      freeMemory (runCalls .empty calls) ptr regionFree =
        (.errorInvalidAllocation, runCalls .empty calls, [])) := by
  have ht := tracks_runCalls calls hapart
  have hw : Apart (runCalls .empty calls) := by
    simpa using hapart calls.length (Nat.le_refl _)
  refine ⟨ht.view_eq, ht.registerReleaseNotifier_success_iff hw,
    fun b regionFree size pending hv => ht.freeMemory_of_view hw hv regionFree,
    fun p callback => ⟨fun j => ?_, ht.deregisterReleaseNotifier_success_iff hw p callback⟩,
    fun ptr regionFree hz hv => ht.freeMemory_of_not_view hz hv regionFree⟩
  rw [view_deregisterReleaseNotifier hw, ht.view_eq j]

theorem releaseNotifiers_spec_free_after_deregister :
    ((freeMemory (runCalls .empty
        [.allocateMemory 1 (.ok (0x1000, 0x1000)), .registerReleaseNotifier 0x1800 7 0,
          .registerReleaseNotifier 0x1800 7 0, .registerReleaseNotifier 0x1900 8 1,
          .deregisterReleaseNotifier 0x1800 7]) 0x1000 true).2.2 : Multiset Notifier) =
        {⟨0x1900, 8, 1⟩} ∧
      (freeMemory (runCalls .empty
        [.allocateMemory 1 (.ok (0x1000, 0x1000)), .registerReleaseNotifier 0x1800 7 0,
          .registerReleaseNotifier 0x1800 7 0, .registerReleaseNotifier 0x1900 8 1,
          .deregisterReleaseNotifier 0x1800 7]) 0x1000 true).2.1.find? 0x1000 = none :=
  (releaseNotifiers_spec _ (by decide)).2.2.1 0x1000 true 0x1000 _ (by decide)

/-- Without the premises: freeing the null pointer succeeds though nothing is
live at `0`, and an empty allocation at `0x2000`, disjoint from the live
`[0x1000, 0x3000)`, is what `upper_bound` stepped back finds for `0x2800`, so
registering there fails. -/
theorem releaseNotifiers_null_and_empty :
    (freeMemory .empty 0 true).1 = .success ∧
      view 0x1000 [.allocateMemory 1 (.ok (0x1000, 0x2000)), .allocateMemory 1 (.ok (0x2000, 0))] =
        some (0x2000, 0) ∧
      (registerReleaseNotifier (runCalls .empty
        [.allocateMemory 1 (.ok (0x1000, 0x2000)), .allocateMemory 1 (.ok (0x2000, 0))])
        0x2800 7 0).1 = .errorInvalidAllocation := by
  decide

end Calls

end Runtime
