import Mathlib
import Rocr.Lib.Ordered

/-!
# Ordered maps with unique keys

`OrdMap κ ν` is `std::map<κ, ν>`: a list of entries kept in strictly
increasing key order, the order being a field of the structure so that an
unordered map cannot be built.  An iterator into such a map is its key, with
`none` for `end()`; the iterator operations of the standard library become
searches of the key list:

* `find? m k` is `m.find(k)->second`;
* `assign m k v` is `m[k] = v`, `insert m k v` is `m.insert({k, v})`, which
  leaves a present key alone;
* `lowerBound`, `upperBound` are `m.lower_bound(k)`, `m.upper_bound(k)`;
* `floor m k` is `--m.upper_bound(k)` and `below m k` is `--it` for an
  iterator at key `k`;
* `first?`, `last?` are `m.begin()` and `m.rbegin()`.

The lemmas describe every operation by its effect on `find?` and on key
membership, and every search by an order statement, so that no later proof
looks inside the entry list.
-/

/-- `std::map<κ, ν>`: entries in strictly increasing key order. -/
structure OrdMap (κ ν : Type) [LinearOrder κ] where
  entries : List (κ × ν)
  ordered : (entries.map Prod.fst).Pairwise (· < ·)

namespace OrdMap

variable {κ ν : Type} [LinearOrder κ]

/-! ## Entry lists -/

/-- Overwrite or insert a key in a key-ordered entry list. -/
def assignList (k : κ) (v : ν) : List (κ × ν) → List (κ × ν)
  | [] => [(k, v)]
  | e :: es =>
      if k < e.1 then (k, v) :: e :: es
      else if k = e.1 then (k, v) :: es
      else e :: assignList k v es

theorem mem_keys_assignList (k j : κ) (v : ν) (es : List (κ × ν)) :
    j ∈ (assignList k v es).map Prod.fst ↔ j = k ∨ j ∈ es.map Prod.fst := by
  induction es with
  | nil => simp [assignList]
  | cons e es ih =>
      unfold assignList
      split_ifs with hlt heq
      · simp
      · subst heq
        simp
      · simp only [List.map_cons, List.mem_cons, ih]
        tauto

theorem assignList_ordered (k : κ) (v : ν) (es : List (κ × ν))
    (h : (es.map Prod.fst).Pairwise (· < ·)) :
    ((assignList k v es).map Prod.fst).Pairwise (· < ·) := by
  induction es with
  | nil => simp [assignList]
  | cons e es ih =>
      rw [List.map_cons, List.pairwise_cons] at h
      unfold assignList
      split_ifs with hlt heq
      · rw [List.map_cons, List.pairwise_cons, List.map_cons, List.pairwise_cons]
        refine ⟨?_, h.1, h.2⟩
        intro j hj
        rcases List.mem_cons.mp hj with rfl | hj
        · exact hlt
        · exact lt_trans hlt (h.1 j hj)
      · subst heq
        rw [List.map_cons, List.pairwise_cons]
        exact h
      · rw [List.map_cons, List.pairwise_cons]
        refine ⟨?_, ih h.2⟩
        intro j hj
        rcases (mem_keys_assignList k j v es).mp hj with rfl | hj
        · exact lt_of_le_of_ne (not_lt.mp hlt) (Ne.symm heq)
        · exact h.1 j hj

theorem find?_assignList (k j : κ) (v : ν) (es : List (κ × ν)) :
    ((assignList k v es).find? (fun e => decide (e.1 = j))).map Prod.snd =
      if j = k then some v else (es.find? (fun e => decide (e.1 = j))).map Prod.snd := by
  induction es with
  | nil => by_cases hj : j = k <;> simp [assignList, hj, eq_comm]
  | cons e es ih =>
      obtain ⟨a, b⟩ := e
      by_cases hlt : k < a
      · rw [assignList, if_pos hlt]
        by_cases hjk : j = k
        · subst hjk; simp
        · simp [hjk, Ne.symm hjk]
      · by_cases hka : k = a
        · subst hka
          rw [assignList, if_neg hlt, if_pos rfl]
          by_cases hjk : j = k
          · subst hjk; simp
          · simp [hjk, Ne.symm hjk]
        · rw [assignList, if_neg hlt, if_neg hka]
          by_cases haj : a = j
          · subst haj
            simp [Ne.symm hka]
          · simp only [List.find?_cons, haj, decide_false]
            rw [ih]

/-! ## Operations -/

/-- The empty map. -/
def empty : OrdMap κ ν := ⟨[], by simp⟩

/-- The keys in increasing order. -/
def keys (m : OrdMap κ ν) : List κ := m.entries.map Prod.fst

/-- `m.find(k)`: the value stored under `k`. -/
def find? (m : OrdMap κ ν) (k : κ) : Option ν :=
  (m.entries.find? (fun e => decide (e.1 = k))).map Prod.snd

/-- `m.size()`. -/
def size (m : OrdMap κ ν) : Nat := m.entries.length

/-- `m[k] = v`. -/
def assign (m : OrdMap κ ν) (k : κ) (v : ν) : OrdMap κ ν :=
  ⟨assignList k v m.entries, assignList_ordered k v m.entries m.ordered⟩

/-- `m.insert({k, v})` and `m.emplace(k, v)`: a present key is left alone. -/
def insert (m : OrdMap κ ν) (k : κ) (v : ν) : OrdMap κ ν :=
  if (m.find? k).isSome then m else m.assign k v

/-- Update the value under `k` in place; an absent key is left absent. -/
def modify (m : OrdMap κ ν) (k : κ) (f : ν → ν) : OrdMap κ ν :=
  ⟨m.entries.map (fun e => if e.1 = k then (e.1, f e.2) else e), by
    have hkeys : (m.entries.map (fun e => if e.1 = k then (e.1, f e.2) else e)).map
        Prod.fst = m.entries.map Prod.fst := by
      rw [List.map_map]
      apply List.map_congr_left
      intro e _
      by_cases he : e.1 = k <;> simp [he]
    rw [hkeys]
    exact m.ordered⟩

/-- `Node& n = m[k]; f(n);`: the value under `k`, or `d` when `k` is absent, is
updated and stored. -/
def upsert (m : OrdMap κ ν) (k : κ) (d : ν) (f : ν → ν) : OrdMap κ ν :=
  m.assign k (f ((m.find? k).getD d))

/-- `m.erase(k)`. -/
def erase (m : OrdMap κ ν) (k : κ) : OrdMap κ ν :=
  ⟨m.entries.filter (fun e => decide (e.1 ≠ k)),
    m.ordered.sublist (List.filter_sublist.map Prod.fst)⟩

/-- `m.lower_bound(k)`: the least key not below `k`. -/
def lowerBound (m : OrdMap κ ν) (k : κ) : Option κ := m.keys.find? (fun j => decide (k ≤ j))

/-- `m.upper_bound(k)`: the least key above `k`. -/
def upperBound (m : OrdMap κ ν) (k : κ) : Option κ := m.keys.find? (fun j => decide (k < j))

/-- `--m.upper_bound(k)`: the greatest key not above `k`. -/
def floor (m : OrdMap κ ν) (k : κ) : Option κ := m.keys.reverse.find? (fun j => decide (j ≤ k))

/-- `--it` for an iterator at `k`: the greatest key below `k`. -/
def below (m : OrdMap κ ν) (k : κ) : Option κ := m.keys.reverse.find? (fun j => decide (j < k))

/-- `m.begin()`. -/
def first? (m : OrdMap κ ν) : Option κ := m.keys.head?

/-- `m.rbegin()`. -/
def last? (m : OrdMap κ ν) : Option κ := m.keys.getLast?

/-- The sum of `g` over the entries. -/
def sumBy (m : OrdMap κ ν) (g : κ → ν → Nat) : Nat := (m.entries.map (fun e => g e.1 e.2)).sum

/-! ## Lookup and key membership -/

theorem keys_ordered (m : OrdMap κ ν) : m.keys.Pairwise (· < ·) := m.ordered

theorem mem_keys_iff (m : OrdMap κ ν) (k : κ) : k ∈ m.keys ↔ (m.find? k).isSome := by
  simp [keys, find?, List.find?_isSome]

theorem find?_eq_none_iff (m : OrdMap κ ν) (k : κ) : m.find? k = none ↔ k ∉ m.keys := by
  rw [mem_keys_iff, Option.not_isSome_iff_eq_none]

theorem mem_keys_of_find? {m : OrdMap κ ν} {k : κ} {v : ν} (h : m.find? k = some v) :
    k ∈ m.keys := by
  rw [mem_keys_iff, h]
  rfl

theorem find?_of_mem_keys {m : OrdMap κ ν} {k : κ} (h : k ∈ m.keys) :
    ∃ v, m.find? k = some v :=
  Option.isSome_iff_exists.mp ((mem_keys_iff m k).mp h)

theorem mem_entries_of_find? {m : OrdMap κ ν} {k : κ} {v : ν} (h : m.find? k = some v) :
    (k, v) ∈ m.entries := by
  obtain ⟨e, he, rfl⟩ := Option.map_eq_some_iff.mp h
  have hk : e.1 = k := by simpa using List.find?_some he
  rw [← hk]
  exact List.mem_of_find?_eq_some he

/-- The value of an entry is the one found under its key: the keys are
distinct. -/
theorem find?_of_mem_entries {m : OrdMap κ ν} {k : κ} {v : ν} (h : (k, v) ∈ m.entries) :
    m.find? k = some v := by
  obtain ⟨w, hw⟩ := find?_of_mem_keys (List.mem_map_of_mem (f := Prod.fst) h)
  have hnodup : (m.entries.map Prod.fst).Nodup := m.keys_ordered.imp ne_of_lt
  have hkw := List.inj_on_of_nodup_map hnodup (mem_entries_of_find? hw) h rfl
  rw [hw, (Prod.mk.inj hkw).2]

@[simp] theorem find?_empty (k : κ) : (empty : OrdMap κ ν).find? k = none := rfl

@[simp] theorem find?_assign (m : OrdMap κ ν) (k j : κ) (v : ν) :
    (m.assign k v).find? j = if j = k then some v else m.find? j :=
  find?_assignList k j v m.entries

theorem mem_keys_assign (m : OrdMap κ ν) (k j : κ) (v : ν) :
    j ∈ (m.assign k v).keys ↔ j = k ∨ j ∈ m.keys :=
  mem_keys_assignList k j v m.entries

@[simp] theorem find?_upsert (m : OrdMap κ ν) (k j : κ) (d : ν) (f : ν → ν) :
    (m.upsert k d f).find? j = if j = k then some (f ((m.find? k).getD d)) else m.find? j :=
  find?_assign _ _ _ _

theorem mem_keys_upsert (m : OrdMap κ ν) (k j : κ) (d : ν) (f : ν → ν) :
    j ∈ (m.upsert k d f).keys ↔ j = k ∨ j ∈ m.keys :=
  mem_keys_assign _ _ _ _

theorem keys_modify (m : OrdMap κ ν) (k : κ) (f : ν → ν) : (m.modify k f).keys = m.keys := by
  unfold modify keys
  rw [List.map_map]
  apply List.map_congr_left
  intro e _
  by_cases he : e.1 = k <;> simp [he]

@[simp] theorem find?_modify (m : OrdMap κ ν) (k j : κ) (f : ν → ν) :
    (m.modify k f).find? j = if j = k then (m.find? k).map f else m.find? j := by
  obtain ⟨es, hl⟩ := m
  simp only [modify, find?]
  clear hl
  induction es with
  | nil => simp
  | cons e es ih =>
      obtain ⟨a, b⟩ := e
      rw [List.map_cons, List.find?_cons, List.find?_cons]
      by_cases hak : a = k
      · subst hak
        rw [if_pos rfl, List.find?_cons]
        by_cases hja : j = a
        · subst hja; simp
        · simp only [Ne.symm hja, decide_false, decide_true, hja, if_false]
          rw [ih, if_neg hja]
      · rw [if_neg hak]
        by_cases haj : a = j
        · subst haj
          simp [hak]
        · simp only [haj, decide_false]
          rw [ih]
          by_cases hjk : j = k
          · subst hjk; simp [hak]
          · simp [hjk, haj]

@[simp] theorem find?_erase (m : OrdMap κ ν) (k j : κ) :
    (m.erase k).find? j = if j = k then none else m.find? j := by
  obtain ⟨es, hl⟩ := m
  simp only [erase, find?]
  clear hl
  induction es with
  | nil => simp
  | cons e es ih =>
      obtain ⟨a, b⟩ := e
      rw [List.filter_cons]
      by_cases hak : a = k
      · subst hak
        simp only [ne_eq, not_true_eq_false, decide_false, Bool.false_eq_true, if_false]
        rw [ih]
        by_cases hja : j = a
        · simp [hja]
        · simp [hja, Ne.symm hja]
      · simp only [ne_eq, hak, not_false_eq_true, decide_true, if_true, List.find?_cons]
        by_cases haj : a = j
        · subst haj; simp [hak]
        · simp only [haj, decide_false]
          rw [ih]

theorem mem_keys_erase (m : OrdMap κ ν) (k j : κ) : j ∈ (m.erase k).keys ↔ j ≠ k ∧ j ∈ m.keys := by
  rw [mem_keys_iff, mem_keys_iff, find?_erase]
  by_cases hjk : j = k <;> simp [hjk]

/-- A map of one entry has one key. -/
theorem eq_of_size_eq_one {m : OrdMap κ ν} {k j : κ} (h : m.size = 1) (hk : k ∈ m.keys)
    (hj : j ∈ m.keys) : j = k := by
  have hlen : m.keys.length = 1 := by simpa [keys, size] using h
  obtain ⟨x, hx⟩ := List.length_eq_one_iff.mp hlen
  rw [hx, List.mem_singleton] at hk hj
  rw [hj, hk]

/-- A second assignment under a key overrides the first. -/
theorem assign_assign (m : OrdMap κ ν) (k : κ) (v w : ν) :
    (m.assign k v).assign k w = m.assign k w := by
  obtain ⟨es, hl⟩ := m
  simp only [assign, mk.injEq]
  clear hl
  induction es with
  | nil => simp [assignList]
  | cons e es ih =>
      by_cases hlt : k < e.1
      · simp [assignList, hlt]
      · by_cases heq : k = e.1
        · simp [assignList, heq]
        · simp [assignList, hlt, heq, ih]

/-- A present entry after an in-place update. -/
theorem find?_modify_of_some {m : OrdMap κ ν} {k j : κ} {v : ν} (f : ν → ν)
    (h : m.find? j = some v) : (m.modify k f).find? j = some (if j = k then f v else v) := by
  by_cases hj : j = k
  · subst hj
    simp [h]
  · simp [hj, h]

/-- An entry after an in-place update comes from an entry before it. -/
theorem find?_modify_eq_some {m : OrdMap κ ν} {k j : κ} {f : ν → ν} {v' : ν}
    (h : (m.modify k f).find? j = some v') : ∃ v, m.find? j = some v ∧ v' = if j = k then f v else v := by
  by_cases hj : j = k
  · subst hj
    simp only [find?_modify, if_true] at h
    obtain ⟨v, hv, rfl⟩ := Option.map_eq_some_iff.mp h
    exact ⟨v, hv, by simp⟩
  · simp only [find?_modify, hj, if_false] at h
    exact ⟨v', h, by simp [hj]⟩

/-- Erasing a key forgets an update made to it. -/
theorem erase_modify (m : OrdMap κ ν) (k : κ) (f : ν → ν) : (m.modify k f).erase k = m.erase k := by
  obtain ⟨es, hl⟩ := m
  simp only [modify, erase, mk.injEq]
  clear hl
  induction es with
  | nil => rfl
  | cons e es ih =>
    by_cases he : e.1 = k
    · simpa [he] using ih
    · simpa [he] using ih

theorem insert_of_none {m : OrdMap κ ν} {k : κ} (v : ν) (h : m.find? k = none) :
    m.insert k v = m.assign k v := by
  simp [insert, h]

theorem insert_of_some {m : OrdMap κ ν} {k : κ} {w : ν} (v : ν) (h : m.find? k = some w) :
    m.insert k v = m := by
  simp [insert, h]

theorem mem_keys_insert (m : OrdMap κ ν) (k j : κ) (v : ν) :
    j ∈ (m.insert k v).keys ↔ j = k ∨ j ∈ m.keys := by
  unfold insert
  split_ifs with hk
  · constructor
    · exact Or.inr
    · rintro (rfl | hj)
      · exact (mem_keys_iff m j).mpr hk
      · exact hj
  · exact mem_keys_assign m k j v

/-! ## Searches -/

theorem lowerBound_eq_some_iff (m : OrdMap κ ν) (k j : κ) :
    m.lowerBound k = some j ↔ j ∈ m.keys ∧ k ≤ j ∧ ∀ i ∈ m.keys, k ≤ i → j ≤ i := by
  unfold lowerBound
  simpa using Ordered.find?_eq_some_iff m.keys_ordered (p := fun i => decide (k ≤ i)) (a := j)

theorem lowerBound_eq_none_iff (m : OrdMap κ ν) (k : κ) :
    m.lowerBound k = none ↔ ∀ i ∈ m.keys, i < k := by
  simp [lowerBound]

theorem upperBound_eq_some_iff (m : OrdMap κ ν) (k j : κ) :
    m.upperBound k = some j ↔ j ∈ m.keys ∧ k < j ∧ ∀ i ∈ m.keys, k < i → j ≤ i := by
  unfold upperBound
  simpa using Ordered.find?_eq_some_iff m.keys_ordered (p := fun i => decide (k < i)) (a := j)

theorem floor_eq_some_iff (m : OrdMap κ ν) (k j : κ) :
    m.floor k = some j ↔ j ∈ m.keys ∧ j ≤ k ∧ ∀ i ∈ m.keys, i ≤ k → i ≤ j := by
  unfold floor
  simpa using
    Ordered.find?_reverse_eq_some_iff m.keys_ordered (p := fun i => decide (i ≤ k)) (a := j)

theorem floor_eq_none_iff (m : OrdMap κ ν) (k : κ) :
    m.floor k = none ↔ ∀ i ∈ m.keys, k < i := by
  simp [floor]

theorem below_eq_some_iff (m : OrdMap κ ν) (k j : κ) :
    m.below k = some j ↔ j ∈ m.keys ∧ j < k ∧ ∀ i ∈ m.keys, i < k → i ≤ j := by
  unfold below
  simpa using
    Ordered.find?_reverse_eq_some_iff m.keys_ordered (p := fun i => decide (i < k)) (a := j)

theorem first?_eq_some_iff (m : OrdMap κ ν) (j : κ) :
    m.first? = some j ↔ j ∈ m.keys ∧ ∀ i ∈ m.keys, j ≤ i :=
  Ordered.head?_eq_some_iff m.keys_ordered

theorem last?_eq_some_iff (m : OrdMap κ ν) (j : κ) :
    m.last? = some j ↔ j ∈ m.keys ∧ ∀ i ∈ m.keys, i ≤ j :=
  Ordered.getLast?_eq_some_iff m.keys_ordered

/-- A map whose entries are another's with each value rewritten by `g` finds
the rewritten values. -/
theorem find?_of_entries_eq_map {m m' : OrdMap κ ν} {g : ν → ν}
    (h : m'.entries = m.entries.map (fun e => (e.1, g e.2))) (k : κ) :
    m'.find? k = (m.find? k).map g := by
  unfold find?
  rw [h, List.find?_map, Option.map_map, Option.map_map]
  rfl

/-! ## Sums over the entries -/

section Sums

variable (g : κ → ν → Nat)

/-- The entry found under `k` is unique: the keys after it are larger. -/
private theorem find?_cons_eq {a k : κ} {b v : ν} {es : List (κ × ν)}
    (hl : ((a, b) :: es).map Prod.fst |>.Pairwise (· < ·))
    (h : ((((a, b) :: es).find? (fun e => decide (e.1 = k))).map Prod.snd) = some v) :
    (a = k ∧ b = v ∧ ∀ e ∈ es, e.1 ≠ k) ∨
      (a ≠ k ∧ ((es.find? (fun e => decide (e.1 = k))).map Prod.snd) = some v) := by
  rw [List.map_cons, List.pairwise_cons] at hl
  by_cases hak : a = k
  · subst hak
    refine Or.inl ⟨rfl, by simpa using h, ?_⟩
    intro e he hek
    exact absurd (hl.1 e.1 (List.mem_map_of_mem he)) (by rw [hek]; exact lt_irrefl _)
  · refine Or.inr ⟨hak, by simpa [hak] using h⟩

theorem sumBy_modify {m : OrdMap κ ν} {k : κ} {v : ν} (f : ν → ν) (h : m.find? k = some v) :
    (m.modify k f).sumBy g + g k v = m.sumBy g + g k (f v) := by
  obtain ⟨es, hl⟩ := m
  unfold sumBy modify find? at *
  dsimp only at *
  induction es with
  | nil => simp at h
  | cons e es ih =>
      obtain ⟨a, b⟩ := e
      rcases find?_cons_eq hl h with ⟨rfl, rfl, hnone⟩ | ⟨hak, hrest⟩
      · have hid : es.map (fun e => if e.1 = a then (e.1, f e.2) else e) = es := by
          conv_rhs => rw [← List.map_id es]
          apply List.map_congr_left
          intro e he
          simp [hnone e he]
        simp only [List.map_cons, if_true, hid, List.sum_cons]
        omega
      · have ih' := ih (List.pairwise_cons.mp (by simpa using hl)).2 hrest
        simp only [List.map_cons, hak, if_false, List.sum_cons] at ih' ⊢
        omega

theorem sumBy_erase {m : OrdMap κ ν} {k : κ} {v : ν} (h : m.find? k = some v) :
    (m.erase k).sumBy g + g k v = m.sumBy g := by
  obtain ⟨es, hl⟩ := m
  unfold sumBy erase find? at *
  dsimp only at *
  induction es with
  | nil => simp at h
  | cons e es ih =>
      obtain ⟨a, b⟩ := e
      rcases find?_cons_eq hl h with ⟨rfl, rfl, hnone⟩ | ⟨hak, hrest⟩
      · have hid : es.filter (fun e => decide (e.1 ≠ a)) = es :=
          List.filter_eq_self.mpr (fun e he => by simpa using hnone e he)
        simp only [List.filter_cons, ne_eq, not_true_eq_false, decide_false,
          Bool.false_eq_true, if_false, hid, List.map_cons, List.sum_cons]
        omega
      · have ih' := ih (List.pairwise_cons.mp (by simpa using hl)).2 hrest
        simp only [List.filter_cons, ne_eq, hak, not_false_eq_true, decide_true, if_true,
          List.map_cons, List.sum_cons] at ih' ⊢
        omega

theorem sumBy_assign_of_none {m : OrdMap κ ν} {k : κ} (v : ν) (h : m.find? k = none) :
    (m.assign k v).sumBy g = m.sumBy g + g k v := by
  obtain ⟨es, hl⟩ := m
  unfold sumBy assign find? at *
  dsimp only at *
  induction es with
  | nil => simp [assignList]
  | cons e es ih =>
      obtain ⟨a, b⟩ := e
      have hak : a ≠ k := by
        intro hak
        subst hak
        simp at h
      have hrest : ((es.find? (fun e => decide (e.1 = k))).map Prod.snd) = none := by
        simpa [hak] using h
      have ih' := ih (List.pairwise_cons.mp (by simpa using hl)).2 hrest
      unfold assignList
      split_ifs with hlt heq
      · simp only [List.map_cons, List.sum_cons]
        omega
      · exact absurd heq.symm hak
      · simp only [List.map_cons, List.sum_cons] at ih' ⊢
        omega

/-- On a present key, assignment is an in-place update. -/
private theorem assignList_eq_map {k : κ} {v w : ν} {es : List (κ × ν)}
    (hl : (es.map Prod.fst).Pairwise (· < ·))
    (h : ((es.find? (fun e => decide (e.1 = k))).map Prod.snd) = some w) :
    assignList k v es = es.map (fun e => if e.1 = k then (e.1, v) else e) := by
  induction es with
  | nil => simp at h
  | cons e es ih =>
      obtain ⟨a, b⟩ := e
      rcases find?_cons_eq hl h with ⟨rfl, rfl, hnone⟩ | ⟨hak, hrest⟩
      · have hid : es.map (fun e => if e.1 = a then (e.1, v) else e) = es := by
          conv_rhs => rw [← List.map_id es]
          apply List.map_congr_left
          intro e he
          simp [hnone e he]
        simp [assignList, hid]
      · rw [List.map_cons, List.pairwise_cons] at hl
        obtain ⟨x, hx, -⟩ := Option.map_eq_some_iff.mp hrest
        have hxk : x.1 = k := by simpa using List.find?_some hx
        have hka : a < k := hxk ▸ hl.1 x.1 (List.mem_map_of_mem (List.mem_of_find?_eq_some hx))
        have hgt : ¬ k < a := not_lt.mpr hka.le
        simp [assignList, hgt, Ne.symm hak, hak, ih hl.2 hrest]

theorem sumBy_assign_of_some {m : OrdMap κ ν} {k : κ} {w : ν} (v : ν) (h : m.find? k = some w) :
    (m.assign k v).sumBy g + g k w = m.sumBy g + g k v := by
  have hmod : m.assign k v = m.modify k (fun _ => v) := by
    obtain ⟨es, hl⟩ := m
    simp only [assign, modify, mk.injEq]
    exact assignList_eq_map hl h
  rw [hmod]
  exact sumBy_modify g (fun _ => v) h

/-- Storing back the value already present changes nothing. -/
theorem assign_of_find? {m : OrdMap κ ν} {k : κ} {v : ν} (h : m.find? k = some v) :
    m.assign k v = m := by
  obtain ⟨es, hl⟩ := m
  simp only [assign, mk.injEq]
  rw [assignList_eq_map hl h]
  conv_rhs => rw [← List.map_id es]
  apply List.map_congr_left
  rintro ⟨a, b⟩ hab
  by_cases hak : a = k
  · subst hak
    have hb : b = v := by
      have hfind : (es.find? (fun e => decide (e.1 = a))).map Prod.snd = some b := by
        clear h
        induction es with
        | nil => simp at hab
        | cons e es ih =>
            obtain ⟨c, d⟩ := e
            rw [List.map_cons, List.pairwise_cons] at hl
            rcases List.mem_cons.mp hab with heq | hmem
            · cases heq; simp
            · have hca : c < a := hl.1 a (List.mem_map_of_mem hmem)
              simp [hca.ne, ih hl.2 hmem]
      exact Option.some.inj (hfind.symm.trans h)
    simp [hb]
  · simp [hak]

/-- A sum whose summand depends on the key alone is a sum over the keys. -/
theorem sumBy_eq_sum_keys (m : OrdMap κ ν) {f : κ → Nat}
    (hf : ∀ k v, m.find? k = some v → g k v = f k) : m.sumBy g = (m.keys.map f).sum := by
  unfold sumBy keys
  rw [List.map_map]
  congr 1
  exact List.map_congr_left fun e he => hf e.1 e.2 (find?_of_mem_entries he)

/-- Sums agree when their summands agree on the entries. -/
theorem sumBy_congr {m : OrdMap κ ν} {g' : κ → ν → Nat}
    (h : ∀ k v, m.find? k = some v → g k v = g' k v) : m.sumBy g = m.sumBy g' := by
  unfold sumBy
  congr 1
  exact List.map_congr_left fun e he => h e.1 e.2 (find?_of_mem_entries he)

/-- A sum is zero exactly when every entry contributes zero. -/
theorem sumBy_eq_zero_iff (m : OrdMap κ ν) :
    m.sumBy g = 0 ↔ ∀ k v, m.find? k = some v → g k v = 0 := by
  unfold sumBy
  rw [List.sum_eq_zero_iff_forall_eq_nat]
  constructor
  · intro h k v hkv
    exact h _ (List.mem_map.mpr ⟨(k, v), mem_entries_of_find? hkv, rfl⟩)
  · intro h x hx
    obtain ⟨e, he, rfl⟩ := List.mem_map.mp hx
    exact h e.1 e.2 (find?_of_mem_entries he)

/-- Summing over a map whose values are another's rewritten by `f`. -/
theorem sumBy_of_entries_eq_map {m m' : OrdMap κ ν} {f : ν → ν}
    (h : m'.entries = m.entries.map (fun e => (e.1, f e.2))) :
    m'.sumBy g = m.sumBy (fun k v => g k (f v)) := by
  unfold sumBy
  rw [h, List.map_map]
  rfl

end Sums

end OrdMap
