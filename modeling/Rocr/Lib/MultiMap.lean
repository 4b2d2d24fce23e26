import Rocr.Lib.Ordered

/-!
# Ordered multimaps with node identity

`MultiMap κ ν` is `std::multimap<κ, ν>`.  Unlike a map, a multimap may hold
several equal entries, and the code that uses one keeps iterators to single
nodes and erases through them, so a node is given an identity: every entry
carries a number drawn from `nextId` when it is inserted, and an iterator is
that number (`none` for `end()`).

Entries are kept in key order, equal keys in insertion order: `insert` places
a new entry after every entry whose key is not above its own, which is where
`std::multimap::insert` puts it.  `lowerBound k` is the first node whose key
is not below `k`, the node `lower_bound` returns.
-/

/-- One node of a multimap: its identity, key and value. -/
structure MultiMap.Node (κ ν : Type) where
  id : Nat
  key : κ
  value : ν
deriving DecidableEq, Repr

/-- `std::multimap<κ, ν>`: nodes in key order, with distinct identities below
`nextId`. -/
structure MultiMap (κ ν : Type) [LinearOrder κ] where
  nodes : List (MultiMap.Node κ ν)
  nextId : Nat
  sorted : (nodes.map MultiMap.Node.key).Pairwise (· ≤ ·)
  fresh : ∀ n ∈ nodes, n.id < nextId
  distinct : (nodes.map MultiMap.Node.id).Nodup

namespace MultiMap

variable {κ ν : Type} [LinearOrder κ]

/-- Place a node after every node whose key is not above its own. -/
def insertList (n : Node κ ν) : List (Node κ ν) → List (Node κ ν)
  | [] => [n]
  | m :: ms => if n.key < m.key then n :: m :: ms else m :: insertList n ms

theorem mem_insertList (n x : Node κ ν) (ms : List (Node κ ν)) :
    x ∈ insertList n ms ↔ x = n ∨ x ∈ ms := by
  induction ms with
  | nil => simp [insertList]
  | cons m ms ih =>
      unfold insertList
      split_ifs
      · simp
      · simp only [List.mem_cons, ih]
        tauto

theorem insertList_sorted (n : Node κ ν) (ms : List (Node κ ν))
    (h : (ms.map Node.key).Pairwise (· ≤ ·)) :
    ((insertList n ms).map Node.key).Pairwise (· ≤ ·) := by
  induction ms with
  | nil => simp [insertList]
  | cons m ms ih =>
      rw [List.map_cons, List.pairwise_cons] at h
      unfold insertList
      split_ifs with hlt
      · rw [List.map_cons, List.pairwise_cons, List.map_cons, List.pairwise_cons]
        refine ⟨?_, h.1, h.2⟩
        intro k hk
        rcases List.mem_cons.mp hk with rfl | hk
        · exact hlt.le
        · exact hlt.le.trans (h.1 k hk)
      · rw [List.map_cons, List.pairwise_cons]
        refine ⟨?_, ih h.2⟩
        intro k hk
        obtain ⟨x, hx, rfl⟩ := List.mem_map.mp hk
        rcases (mem_insertList n x ms).mp hx with rfl | hx
        · exact not_lt.mp hlt
        · exact h.1 x.key (List.mem_map_of_mem hx)

theorem insertList_perm (n : Node κ ν) (ms : List (Node κ ν)) :
    (insertList n ms).Perm (n :: ms) := by
  induction ms with
  | nil => simp [insertList]
  | cons m ms ih =>
      unfold insertList
      split_ifs
      · exact List.Perm.refl _
      · exact (ih.cons m).trans (List.Perm.swap n m ms)

/-- The empty multimap. -/
def empty : MultiMap κ ν := ⟨[], 0, by simp, by simp, by simp⟩

/-- `insert({k, v})`: the new map and the iterator to the new node. -/
def insert (m : MultiMap κ ν) (k : κ) (v : ν) : MultiMap κ ν × Nat :=
  (⟨insertList ⟨m.nextId, k, v⟩ m.nodes, m.nextId + 1,
    insertList_sorted _ _ m.sorted,
    by
      intro n hn
      rcases (mem_insertList _ n m.nodes).mp hn with rfl | hn
      · exact Nat.lt_succ_self _
      · exact Nat.lt_succ_of_lt (m.fresh n hn),
    by
      have hp := ((insertList_perm ⟨m.nextId, k, v⟩ m.nodes).map Node.id).nodup_iff
      rw [hp, List.map_cons, List.nodup_cons]
      refine ⟨?_, m.distinct⟩
      intro hmem
      obtain ⟨x, hx, hxid⟩ := List.mem_map.mp hmem
      exact absurd (m.fresh x hx) (by rw [hxid]; exact Nat.lt_irrefl m.nextId)⟩,
   m.nextId)

/-- `erase(it)`: remove the node an iterator designates. -/
def erase (m : MultiMap κ ν) (i : Nat) : MultiMap κ ν :=
  ⟨m.nodes.filter (fun n => decide (n.id ≠ i)), m.nextId,
    m.sorted.sublist (List.filter_sublist.map Node.key),
    fun n hn => m.fresh n (List.mem_of_mem_filter hn),
    m.distinct.sublist (List.filter_sublist.map Node.id)⟩

/-- `*it`: the key and value of the node an iterator designates. -/
def get? (m : MultiMap κ ν) (i : Nat) : Option (κ × ν) :=
  (m.nodes.find? (fun n => decide (n.id = i))).map (fun n => (n.key, n.value))

/-- `lower_bound(k)`: the first node whose key is not below `k`. -/
def lowerBound (m : MultiMap κ ν) (k : κ) : Option Nat :=
  (m.nodes.find? (fun n => decide (k ≤ n.key))).map Node.id

/-- `size()`. -/
def size (m : MultiMap κ ν) : Nat := m.nodes.length

/-- The entries as key-value pairs, in iteration order. -/
def pairs (m : MultiMap κ ν) : List (κ × ν) := m.nodes.map (fun n => (n.key, n.value))

omit [LinearOrder κ] in
/-- Rewriting node values keeps the keys. -/
theorem keys_map_value (f : Node κ ν → ν) (ns : List (Node κ ν)) :
    (ns.map fun n => ({ n with value := f n } : Node κ ν)).map Node.key = ns.map Node.key := by
  simp

omit [LinearOrder κ] in
/-- Rewriting node values keeps the identities. -/
theorem ids_map_value (f : Node κ ν → ν) (ns : List (Node κ ν)) :
    (ns.map fun n => ({ n with value := f n } : Node κ ν)).map Node.id = ns.map Node.id := by
  simp

/-- `it->second = f(it->second)`: update the node an iterator designates in
place. -/
def modify (m : MultiMap κ ν) (i : Nat) (f : ν → ν) : MultiMap κ ν :=
  ⟨m.nodes.map (fun n => { n with value := if n.id = i then f n.value else n.value }), m.nextId,
    by rw [keys_map_value]; exact m.sorted,
    by
      intro n hn
      obtain ⟨x, hx, rfl⟩ := List.mem_map.mp hn
      exact m.fresh x hx,
    by rw [ids_map_value]; exact m.distinct⟩

/-- The nodes from `upper_bound(k)` to `end()`, in iteration order: the first
node whose key is above `k` and every node after it. -/
def fromUpperBound (m : MultiMap κ ν) (k : κ) : List (Node κ ν) :=
  m.nodes.dropWhile (fun n => decide (n.key ≤ k))

/-! ### Nodes by identity -/

section Identity

variable {m : MultiMap κ ν} {x y : Node κ ν} {i : Nat}

/-- Two nodes of a multimap with one identity are the same node. -/
theorem eq_of_id_eq (hx : x ∈ m.nodes) (hy : y ∈ m.nodes) (h : x.id = y.id) : x = y :=
  List.inj_on_of_nodup_map m.distinct hx hy h

/-- A node is found by its identity. -/
theorem get?_of_mem (hx : x ∈ m.nodes) : m.get? x.id = some (x.key, x.value) := by
  obtain ⟨y, hy⟩ : ∃ y, m.nodes.find? (fun n => decide (n.id = x.id)) = some y :=
    Option.isSome_iff_exists.mp (List.find?_isSome.mpr ⟨x, hx, by simp⟩)
  have hyid : y.id = x.id := by simpa using List.find?_some hy
  have hxy : y = x := eq_of_id_eq (List.mem_of_find?_eq_some hy) hx hyid
  simp [get?, hy, hxy]

theorem nodes_erase : (m.erase i).nodes = m.nodes.filter (fun n => decide (n.id ≠ i)) := rfl

theorem nodes_modify {f : ν → ν} :
    (m.modify i f).nodes = m.nodes.map (fun n => { n with value := if n.id = i then f n.value else n.value }) :=
  rfl

@[simp] theorem mem_erase : x ∈ (m.erase i).nodes ↔ x ∈ m.nodes ∧ x.id ≠ i := by
  simp [erase]

@[simp] theorem mem_modify {f : ν → ν} :
    x ∈ (m.modify i f).nodes ↔ ∃ n ∈ m.nodes, { n with value := if n.id = i then f n.value else n.value } = x := by
  simp [modify]

@[simp] theorem mem_insert {k : κ} {v : ν} :
    x ∈ (m.insert k v).1.nodes ↔ x = ⟨m.nextId, k, v⟩ ∨ x ∈ m.nodes :=
  mem_insertList _ _ _

@[simp] theorem insert_snd {k : κ} {v : ν} : (m.insert k v).2 = m.nextId := rfl

/-- A node of another identity than the one modified is kept as it is. -/
theorem mem_modify_of_ne {f : ν → ν} (hx : x ∈ m.nodes) (h : x.id ≠ i) : x ∈ (m.modify i f).nodes :=
  List.mem_map.mpr ⟨x, hx, by simp [h]⟩

/-- The nodes from `upper_bound(k)` on are nodes of the map. -/
theorem mem_of_mem_fromUpperBound {k : κ} (hx : x ∈ m.fromUpperBound k) : x ∈ m.nodes :=
  (List.dropWhile_suffix _).subset hx

/-- The identity handed out by `insert` is of no node yet. -/
theorem ne_nextId (hx : x ∈ m.nodes) : x.id ≠ m.nextId := (m.fresh x hx).ne

/-- `lower_bound(k)` designates a node whose key is not below `k`. -/
theorem lowerBound_eq_some {k : κ} (h : m.lowerBound k = some i) :
    ∃ x ∈ m.nodes, x.id = i ∧ k ≤ x.key := by
  obtain ⟨x, hx, rfl⟩ := Option.map_eq_some_iff.mp h
  exact ⟨x, List.mem_of_find?_eq_some hx, rfl, by simpa using List.find?_some hx⟩

end Identity

end MultiMap
