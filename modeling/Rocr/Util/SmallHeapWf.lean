import Rocr.Lib.Chain
import Rocr.Util.SmallHeap

/-!
# Well-formed small heaps

The invariant that every operation of `SmallHeap` keeps, split the way the
operations touch it:

* **`Layout`**: the keys of `memory` tile `[pool, pool + length)`, each node
  ending where the next key begins, between the guards at `0` and
  `0xFFFFFFFFFFFFFFFF`.  The tiling is stated as a successor relation over the
  key set (`Chain.IsSucc`), so that splitting a node is inserting a key and
  merging two nodes is removing one.
* **`Links`**: `next` and `prior` thread the free nodes in address order from
  guard to guard (`Chain.Threaded`).  A node is free when its `next` is not the
  guard at `0`, which is what `isfree` tests once `memory.begin()` is known to
  be that guard.
* **`Apart`**: no free node ends where another begins (eager compaction).
* `total_free` is the total length of the free nodes.

Each primitive update (`insertafter`, `remove`, `merge`, and the two ways of
splitting a node) is described here by its effect on `get`, the key set and
the free length; the operation modules combine these descriptions and never
unfold the updates again.
-/

namespace SmallHeap

open Chain

namespace Heap

/-- Whether the node at `k` is free: its `next` is not the guard at `0`. -/
def freeAt (h : Heap) (k : Nat) : Bool := (h.get k).next != some 0

/-- The keys of the free nodes, guards included. -/
def FreeKey (h : Heap) : Nat → Prop := Mem h.memory.keys h.freeAt

/-- The length a node contributes to `total_free`. -/
def freeLen (n : Node) : Nat := if n.next = some 0 then 0 else n.len

/-- The total length of the free nodes. -/
def freeBytes (h : Heap) : Nat := h.memory.sumBy fun _ n => freeLen n

/-- Where the node after `k` starts: the end of `k`, or the upper guard once
`k` reaches the end of the pool. -/
def succAddr (h : Heap) (k : Nat) : Nat :=
  if k + (h.get k).len = h.pool + h.length then guardHigh else k + (h.get k).len

/-- The nodes tile `[pool, pool + length)` between the two guards. -/
structure Layout (h : Heap) : Prop where
  pool_pos : 0 < h.pool
  pool_end : h.pool + h.length < guardHigh
  mem_zero : 0 ∈ h.memory.keys
  mem_guardHigh : guardHigh ∈ h.memory.keys
  zero_len : (h.get 0).len = 0
  guardHigh_len : (h.get guardHigh).len = 0
  range : ∀ k ∈ h.memory.keys, k ≠ 0 → k ≠ guardHigh →
    h.pool ≤ k ∧ k + (h.get k).len ≤ h.pool + h.length
  tiled : ∀ k ∈ h.memory.keys, k ≠ 0 → k ≠ guardHigh →
    IsSucc (· ∈ h.memory.keys) k (h.succAddr k)

/-- The free list threads the free nodes in address order, guard to guard. -/
abbrev Links (h : Heap) : Prop :=
  Threaded h.FreeKey (fun k => (h.get k).next) (fun k => (h.get k).prior) 0 guardHigh

/-- No free node ends where another free node begins. -/
def Apart (h : Heap) : Prop :=
  ∀ a b, h.FreeKey a → h.FreeKey b → a + (h.get a).len = b → a = b

/-- A well-formed heap. -/
structure Wf (h : Heap) : Prop where
  layout : h.Layout
  links : h.Links
  apart : h.Apart
  total : h.totalFree = h.freeBytes

section Basic

variable {h : Heap} {k x : Nat}

theorem freeKey_iff : h.FreeKey k ↔ k ∈ h.memory.keys ∧ (h.get k).next ≠ some 0 := by
  simp [FreeKey, Mem, freeAt]

theorem freeAt_eq_false_iff : h.freeAt k = false ↔ (h.get k).next = some 0 := by
  simp [freeAt]

theorem freeAt_eq_false_iff_not (hk : k ∈ h.memory.keys) : h.freeAt k = false ↔ ¬ h.FreeKey k := by
  simp [FreeKey, Mem, hk]

/-- A used node is none of the free ones. -/
theorem FreeKey.ne_of_used {y : Nat} (hy : h.FreeKey y) (hu : h.freeAt k = false) : k ≠ y := by
  rintro rfl
  rw [hy.2] at hu
  exact Bool.noConfusion hu

theorem freeLen_of_used {n : Node} (hn : n.next = some 0) : freeLen n = 0 := by
  simp [freeLen, hn]

theorem freeLen_of_free {n : Node} (hn : n.next ≠ some 0) : freeLen n = n.len := by
  simp [freeLen, hn]

namespace Layout

variable (hl : h.Layout)
include hl

/-- Only the guards have length zero among the nodes a request can reach. -/
theorem ne_guards_of_len_pos (hpos : 0 < (h.get k).len) : k ≠ 0 ∧ k ≠ guardHigh := by
  constructor
  · rintro rfl
    rw [hl.zero_len] at hpos
    omega
  · rintro rfl
    rw [hl.guardHigh_len] at hpos
    omega

theorem lt_guardHigh (hk : k ∈ h.memory.keys) (hkM : k ≠ guardHigh) : k < guardHigh := by
  by_cases hk0 : k = 0
  · subst hk0
    decide
  · have hr := hl.range k hk hk0 hkM
    have he := hl.pool_end
    omega

theorem le_guardHigh (hk : k ∈ h.memory.keys) : k ≤ guardHigh := by
  by_cases hkM : k = guardHigh
  · exact hkM.le
  · exact (hl.lt_guardHigh hk hkM).le

theorem end_lt_guardHigh (hk : k ∈ h.memory.keys) (hk0 : k ≠ 0) (hkM : k ≠ guardHigh) :
    k + (h.get k).len < guardHigh := by
  have hr := hl.range k hk hk0 hkM
  have he := hl.pool_end
  omega

theorem end_le_succAddr (hk : k ∈ h.memory.keys) (hk0 : k ≠ 0) (hkM : k ≠ guardHigh) :
    k + (h.get k).len ≤ h.succAddr k := by
  unfold succAddr
  split_ifs
  · exact (hl.end_lt_guardHigh hk hk0 hkM).le
  · exact le_rfl

/-- No key starts inside a node. -/
theorem not_mem_of_lt_end (hk : k ∈ h.memory.keys) (hk0 : k ≠ 0) (hkM : k ≠ guardHigh)
    (hkx : k < x) (hx : x < k + (h.get k).len) : x ∉ h.memory.keys := fun hxK =>
  (hl.tiled k hk hk0 hkM).not_between hxK hkx (lt_of_lt_of_le hx (hl.end_le_succAddr hk hk0 hkM))

/-- A node ends at or before every later key. -/
theorem end_le_of_lt {y : Nat} (hk : k ∈ h.memory.keys) (hk0 : k ≠ 0) (hkM : k ≠ guardHigh)
    (hy : y ∈ h.memory.keys) (hky : k < y) : k + (h.get k).len ≤ y :=
  (hl.end_le_succAddr hk hk0 hkM).trans ((hl.tiled k hk hk0 hkM).le_of_lt hy hky)

/-- No node other than `c` ends strictly inside `c`. -/
theorem end_ne_of_inside {a c m : Nat} (ha : a ∈ h.memory.keys) (hc : c ∈ h.memory.keys)
    (hc0 : c ≠ 0) (hcM : c ≠ guardHigh) (hac : a ≠ c) (hcm : c < m)
    (hmc : m < c + (h.get c).len) : a + (h.get a).len ≠ m := by
  rcases lt_or_gt_of_ne hac with halt | hagt
  · by_cases ha0 : a = 0
    · subst ha0
      rw [hl.zero_len]
      omega
    · have haM : a ≠ guardHigh := (halt.trans (hl.lt_guardHigh hc hcM)).ne
      have hend := hl.end_le_of_lt ha ha0 haM hc halt
      omega
  · have hend := hl.end_le_of_lt hc hc0 hcM ha hagt
    omega

/-- A node that ends where a later key begins is followed by that key. -/
theorem isSucc_of_end_eq {y : Nat} (hk : k ∈ h.memory.keys) (hk0 : k ≠ 0) (hkM : k ≠ guardHigh)
    (hy : y ∈ h.memory.keys) (hyM : y ≠ guardHigh) (hky : k < y) (hend : k + (h.get k).len = y) :
    IsSucc (· ∈ h.memory.keys) k y := by
  have ht := hl.tiled k hk hk0 hkM
  unfold succAddr at ht
  split_ifs at ht with hlast
  · -- the last node of the pool is followed by the upper guard, not by `y`
    exact (ht.not_between hy hky (hl.lt_guardHigh hy hyM)).elim
  · rwa [hend] at ht

theorem begin_eq : h.begin = some 0 :=
  (OrdMap.first?_eq_some_iff _ _).mpr ⟨hl.mem_zero, fun i _ => Nat.zero_le i⟩

theorem last?_eq : h.memory.last? = some guardHigh :=
  (OrdMap.last?_eq_some_iff _ _).mpr ⟨hl.mem_guardHigh, fun _ hi => hl.le_guardHigh hi⟩

theorem isfree_get : h.isfree (h.get k) = h.freeAt k := by
  simp [isfree, freeAt, hl.begin_eq]

/-- The backward scan of `free` finds the greatest free key below `ptr`. -/
theorem freeBefore_eq_some_iff (ptr b : Nat) :
    h.freeBefore ptr = some b ↔ h.FreeKey b ∧ b < ptr ∧ ∀ c, h.FreeKey c → c < ptr → c ≤ b := by
  unfold freeBefore
  rw [Ordered.find?_reverse_eq_some_iff (OrdMap.keys_ordered _)]
  simp only [hl.isfree_get, Bool.and_eq_true, decide_eq_true_eq, FreeKey, Mem]
  constructor
  · rintro ⟨hb, ⟨hbp, hfb⟩, hmax⟩
    exact ⟨⟨hb, hfb⟩, hbp, fun c hc hcp => hmax c hc.1 ⟨hcp, hc.2⟩⟩
  · rintro ⟨⟨hb, hfb⟩, hbp, hmax⟩
    exact ⟨hb, ⟨hbp, hfb⟩, fun c hc hcp => hmax c ⟨hc, hcp.2⟩ hcp.1⟩

end Layout

end Basic

/-! ## The primitive updates

What `insertafter`, `remove` and `merge` do to `get`, the keys and the free
length, under the side conditions the operations establish before calling
them. -/

section Updates

variable {h : Heap} {c k lo hi p q x : Nat}

theorem begin_eq_of_mem_zero (h0 : 0 ∈ h.memory.keys) : h.begin = some 0 :=
  (OrdMap.first?_eq_some_iff _ _).mpr ⟨h0, fun i _ => Nat.zero_le i⟩

theorem freeLen_with_prior (n : Node) (y : Iter) : freeLen { n with prior := y } = freeLen n := rfl

theorem freeLen_with_next {n : Node} {y : Iter} (hn : n.next ≠ some 0) (hy : y ≠ some 0) :
    freeLen { n with next := y } = freeLen n := by
  simp [freeLen, hn, hy]

theorem freeBytes_setNode (hk : k ∈ h.memory.keys) (f : Node → Node) :
    (h.setNode k f).freeBytes + freeLen (h.get k) = h.freeBytes + freeLen (f (h.get k)) := by
  obtain ⟨v, hv⟩ := OrdMap.find?_of_mem_keys hk
  have hget : h.get k = v := by simp [get, hv]
  rw [hget]
  exact OrdMap.sumBy_modify _ f hv

/-- A write that keeps the node's free length keeps the total. -/
theorem freeBytes_setNode_of_freeLen (hk : k ∈ h.memory.keys) {f : Node → Node}
    (hf : freeLen (f (h.get k)) = freeLen (h.get k)) : (h.setNode k f).freeBytes = h.freeBytes := by
  have := freeBytes_setNode hk f
  omega

theorem freeBytes_upsertNode (hk : k ∉ h.memory.keys) (f : Node → Node) :
    (h.upsertNode k f).freeBytes = h.freeBytes + freeLen (f Node.blank) := by
  have hnone := (OrdMap.find?_eq_none_iff _ _).mpr hk
  unfold freeBytes upsertNode OrdMap.upsert
  rw [hnone, Option.getD_none]
  exact OrdMap.sumBy_assign_of_none _ _ hnone

theorem freeBytes_eraseNode (hk : k ∈ h.memory.keys) :
    (h.eraseNode k).freeBytes + freeLen (h.get k) = h.freeBytes := by
  obtain ⟨v, hv⟩ := OrdMap.find?_of_mem_keys hk
  have hget : h.get k = v := by simp [get, hv]
  rw [hget]
  exact OrdMap.sumBy_erase _ hv

/-! ### `insertafter` -/

theorem insertafter_eq (hq : (h.get p).next = some q) (x : Nat) :
    h.insertafter p x =
      ((h.setNode x fun n => { n with next := some q, prior := some p }).setNode p
        fun n => { n with next := some x }).setNode q fun n => { n with prior := some x } := by
  simp only [insertafter, hq, setIter_some]

theorem keys_insertafter (p x : Nat) : (h.insertafter p x).memory.keys = h.memory.keys := by
  unfold insertafter
  cases (h.get p).next <;> simp [setIter]

theorem get_insertafter (hq : (h.get p).next = some q) (hp : p ∈ h.memory.keys)
    (hx : x ∈ h.memory.keys) (hqK : q ∈ h.memory.keys) (hpx : p ≠ x) (hqx : q ≠ x) (hqp : q ≠ p)
    (j : Nat) :
    (h.insertafter p x).get j =
      if j = q then { h.get q with prior := some x }
      else if j = p then { h.get p with next := some x }
      else if j = x then { h.get x with next := some q, prior := some p }
      else h.get j := by
  have hp1 : p ∈ (h.setNode x fun n => { n with next := some q, prior := some p }).memory.keys := by
    simpa using hp
  have hq2 : q ∈ ((h.setNode x fun n => { n with next := some q, prior := some p }).setNode p
      fun n => { n with next := some x }).memory.keys := by
    simpa using hqK
  rw [insertafter_eq hq]
  by_cases hjq : j = q
  · subst hjq
    rw [get_setNode_self hq2, get_setNode_of_ne hqp, get_setNode_of_ne hqx, if_pos rfl]
  rw [get_setNode_of_ne hjq, if_neg hjq]
  by_cases hjp : j = p
  · subst hjp
    rw [get_setNode_self hp1, get_setNode_of_ne hpx, if_pos rfl]
  rw [get_setNode_of_ne hjp, if_neg hjp]
  by_cases hjx : j = x
  · subst hjx
    rw [get_setNode_self hx, if_pos rfl]
  rw [get_setNode_of_ne hjx, if_neg hjx]

/-! ### `remove` -/

theorem remove_eq (hp : (h.get c).prior = some p) (hq : (h.get c).next = some q) (hpc : p ≠ c) :
    h.remove c =
      ((h.setNode p fun n => { n with next := some q }).setNode q
        fun n => { n with prior := some p }).setNode c fun n => { n with next := h.begin } := by
  simp only [remove, hp, setIter_some, get_setNode_of_ne (Ne.symm hpc), hq, begin_setNode]

theorem keys_setIter (it : Iter) (f : Node → Node) :
    (h.setIter it f).memory.keys = h.memory.keys := by
  cases it <;> simp [setIter]

@[simp] theorem setIter_pool (it : Iter) (f : Node → Node) : (h.setIter it f).pool = h.pool := by
  cases it <;> rfl

@[simp] theorem setIter_length (it : Iter) (f : Node → Node) :
    (h.setIter it f).length = h.length := by
  cases it <;> rfl

@[simp] theorem setIter_totalFree (it : Iter) (f : Node → Node) :
    (h.setIter it f).totalFree = h.totalFree := by
  cases it <;> rfl

@[simp] theorem setIter_high (it : Iter) (f : Node → Node) : (h.setIter it f).high = h.high := by
  cases it <;> rfl

@[simp] theorem remove_pool : (h.remove c).pool = h.pool := by simp [remove]
@[simp] theorem remove_length : (h.remove c).length = h.length := by simp [remove]
@[simp] theorem remove_totalFree : (h.remove c).totalFree = h.totalFree := by simp [remove]
@[simp] theorem remove_high : (h.remove c).high = h.high := by simp [remove]
@[simp] theorem insertafter_pool : (h.insertafter p x).pool = h.pool := by simp [insertafter]
@[simp] theorem insertafter_length : (h.insertafter p x).length = h.length := by
  simp [insertafter]
@[simp] theorem insertafter_totalFree : (h.insertafter p x).totalFree = h.totalFree := by
  simp [insertafter]
@[simp] theorem insertafter_high : (h.insertafter p x).high = h.high := by simp [insertafter]

theorem keys_remove (c : Nat) : (h.remove c).memory.keys = h.memory.keys := by
  simp only [remove, keys_setNode, keys_setIter]

theorem get_remove (hp : (h.get c).prior = some p) (hq : (h.get c).next = some q)
    (hc : c ∈ h.memory.keys) (hpK : p ∈ h.memory.keys) (hqK : q ∈ h.memory.keys)
    (hpc : p ≠ c) (hqc : q ≠ c) (hpq : p ≠ q) (j : Nat) :
    (h.remove c).get j =
      if j = c then { h.get c with next := h.begin }
      else if j = q then { h.get q with prior := some p }
      else if j = p then { h.get p with next := some q }
      else h.get j := by
  have hq1 : q ∈ (h.setNode p fun n => { n with next := some q }).memory.keys := by
    simpa using hqK
  have hc2 : c ∈ ((h.setNode p fun n => { n with next := some q }).setNode q
      fun n => { n with prior := some p }).memory.keys := by
    simpa using hc
  rw [remove_eq hp hq hpc]
  by_cases hjc : j = c
  · subst hjc
    rw [get_setNode_self hc2, get_setNode_of_ne (Ne.symm hqc), get_setNode_of_ne (Ne.symm hpc),
      if_pos rfl]
  rw [get_setNode_of_ne hjc, if_neg hjc]
  by_cases hjq : j = q
  · subst hjq
    rw [get_setNode_self hq1, get_setNode_of_ne (Ne.symm hpq), if_pos rfl]
  rw [get_setNode_of_ne hjq, if_neg hjq]
  by_cases hjp : j = p
  · subst hjp
    rw [get_setNode_self hpK, if_pos rfl]
  rw [get_setNode_of_ne hjp, if_neg hjp]

/-! ### `merge` -/

theorem merge_of_ne (hne : lo + (h.get lo).len ≠ hi) : h.merge lo hi = (h, hi) := by
  simp [merge, hne]

theorem merge_eq (hadj : lo + (h.get lo).len = hi) (hq : (h.get hi).next = some q) :
    h.merge lo hi =
      (((h.setNode lo fun n => { n with len := n.len + (h.get hi).len, next := some q }).setNode q
        fun n => { n with prior := some lo }).eraseNode hi, lo) := by
  simp [merge, hadj, hq]

theorem get_merge (hadj : lo + (h.get lo).len = hi) (hq : (h.get hi).next = some q)
    (hlo : lo ∈ h.memory.keys) (hqK : q ∈ h.memory.keys) (hqlo : q ≠ lo) (j : Nat) :
    (h.merge lo hi).1.get j =
      if j = hi then Node.blank
      else if j = q then { h.get q with prior := some lo }
      else if j = lo then { h.get lo with len := (h.get lo).len + (h.get hi).len, next := some q }
      else h.get j := by
  have hq1 : q ∈ (h.setNode lo fun n =>
      { n with len := n.len + (h.get hi).len, next := some q }).memory.keys := by
    simpa using hqK
  rw [merge_eq hadj hq, get_eraseNode]
  by_cases hjhi : j = hi
  · rw [if_pos hjhi, if_pos hjhi]
  rw [if_neg hjhi, if_neg hjhi]
  by_cases hjq : j = q
  · subst hjq
    rw [get_setNode_self hq1, get_setNode_of_ne hqlo, if_pos rfl]
  rw [get_setNode_of_ne hjq, if_neg hjq]
  by_cases hjlo : j = lo
  · subst hjlo
    rw [get_setNode_self hlo, if_pos rfl]
  rw [get_setNode_of_ne hjlo, if_neg hjlo]

theorem mem_keys_merge (hadj : lo + (h.get lo).len = hi) (hq : (h.get hi).next = some q) :
    j ∈ (h.merge lo hi).1.memory.keys ↔ j ≠ hi ∧ j ∈ h.memory.keys := by
  rw [merge_eq hadj hq, mem_keys_eraseNode]
  simp

end Updates

/-! ## What the updates keep

The tiling depends only on the keys and the lengths, the free list only on
the free keys and their links.  Splitting a node inserts a key into the
tiling and merging two removes one; linking a node into the free list and
unlinking it are `Chain.Threaded.link` and `Chain.Threaded.unlink`. -/

section Keep

variable {h h' : Heap} {c k lo hi m p q x : Nat}

theorem succAddr_eq_of_len (hpool : h'.pool = h.pool) (hlength : h'.length = h.length)
    (hlen : (h'.get k).len = (h.get k).len) : h'.succAddr k = h.succAddr k := by
  simp [succAddr, hpool, hlength, hlen]

namespace Layout

/-- A layout survives any change that keeps the keys and the lengths. -/
theorem of_eq (hl : h.Layout) (hpool : h'.pool = h.pool) (hlength : h'.length = h.length)
    (hkeys : h'.memory.keys = h.memory.keys)
    (hlen : ∀ k ∈ h.memory.keys, (h'.get k).len = (h.get k).len) : h'.Layout where
  pool_pos := hpool ▸ hl.pool_pos
  pool_end := by rw [hpool, hlength]; exact hl.pool_end
  mem_zero := hkeys ▸ hl.mem_zero
  mem_guardHigh := hkeys ▸ hl.mem_guardHigh
  zero_len := by rw [hlen 0 hl.mem_zero]; exact hl.zero_len
  guardHigh_len := by rw [hlen guardHigh hl.mem_guardHigh]; exact hl.guardHigh_len
  range k hk hk0 hkM := by
    rw [hkeys] at hk
    rw [hpool, hlength, hlen k hk]
    exact hl.range k hk hk0 hkM
  tiled k hk hk0 hkM := by
    rw [hkeys] at hk ⊢
    rw [succAddr_eq_of_len hpool hlength (hlen k hk)]
    exact hl.tiled k hk hk0 hkM

/-- Splitting the node at `c` at the address `m` inside it. -/
theorem split (hl : h.Layout) (hc : c ∈ h.memory.keys) (hc0 : c ≠ 0) (hcM : c ≠ guardHigh)
    (hcm : c < m) (hmc : m < c + (h.get c).len)
    (hpool : h'.pool = h.pool) (hlength : h'.length = h.length)
    (hkeys : ∀ k, k ∈ h'.memory.keys ↔ k ∈ h.memory.keys ∨ k = m)
    (hlenc : (h'.get c).len = m - c) (hlenm : (h'.get m).len = c + (h.get c).len - m)
    (hlen : ∀ k ∈ h.memory.keys, k ≠ c → (h'.get k).len = (h.get k).len) : h'.Layout := by
  have hrc := hl.range c hc hc0 hcM
  have htc := hl.tiled c hc hc0 hcM
  have hmsucc : m < h.succAddr c := lt_of_lt_of_le hmc (hl.end_le_succAddr hc hc0 hcM)
  have hK : ∀ y, (y ∈ h.memory.keys ∨ y = m) ↔ y ∈ h'.memory.keys := fun y => (hkeys y).symm
  refine ⟨hpool ▸ hl.pool_pos, ?_, (hkeys 0).mpr (Or.inl hl.mem_zero),
    (hkeys guardHigh).mpr (Or.inl hl.mem_guardHigh), ?_, ?_, ?_, ?_⟩
  · rw [hpool, hlength]
    exact hl.pool_end
  · rw [hlen 0 hl.mem_zero (Ne.symm hc0)]
    exact hl.zero_len
  · rw [hlen guardHigh hl.mem_guardHigh (Ne.symm hcM)]
    exact hl.guardHigh_len
  · intro k hk hk0 hkM
    rw [hpool, hlength]
    rcases (hkeys k).mp hk with hk | rfl
    · by_cases hkc : k = c
      · subst hkc
        rw [hlenc]
        omega
      · rw [hlen k hk hkc]
        exact hl.range k hk hk0 hkM
    · rw [hlenm]
      omega
  · intro k hk hk0 hkM
    rcases (hkeys k).mp hk with hk | rfl
    · by_cases hkc : k = c
      · -- the lower part now ends at `m`, before the end of the pool
        subst hkc
        have hsucc : h'.succAddr k = m := by
          rw [succAddr, hlenc, hpool, hlength, if_neg (by omega)]
          omega
        rw [hsucc]
        exact (isSucc_insert_left htc hcm hmsucc).congr hK
      · rw [succAddr_eq_of_len hpool hlength (hlen k hk hkc)]
        exact ((hl.tiled k hk hk0 hkM).insert_of_ne htc hcm hmsucc hkc).congr hK
    · -- the upper part ends where the whole node ended
      have hsucc : h'.succAddr k = h.succAddr c := by
        have hend : k + (h'.get k).len = c + (h.get c).len := by
          rw [hlenm]
          omega
        rw [succAddr, succAddr, hend, hpool, hlength]
      rw [hsucc]
      exact (isSucc_insert_right htc hcm hmsucc).congr hK

/-- Merging the node at `hi` into the node at `lo` that ends where it begins. -/
theorem merge (hl : h.Layout) (hlo : lo ∈ h.memory.keys) (hlo0 : lo ≠ 0)
    (hhi : hi ∈ h.memory.keys) (hhiM : hi ≠ guardHigh) (hlohi : lo < hi)
    (hadj : lo + (h.get lo).len = hi)
    (hpool : h'.pool = h.pool) (hlength : h'.length = h.length)
    (hkeys : ∀ k, k ∈ h'.memory.keys ↔ k ∈ h.memory.keys ∧ k ≠ hi)
    (hlenlo : (h'.get lo).len = (h.get lo).len + (h.get hi).len)
    (hlen : ∀ k ∈ h.memory.keys, k ≠ lo → k ≠ hi → (h'.get k).len = (h.get k).len) :
    h'.Layout := by
  have hloM : lo ≠ guardHigh := (lt_of_lt_of_le hlohi (hl.le_guardHigh hhi)).ne
  have hhi0 : hi ≠ 0 := (Nat.lt_of_le_of_lt (Nat.zero_le lo) hlohi).ne'
  have hrhi := hl.range hi hhi hhi0 hhiM
  have hsucc1 : IsSucc (· ∈ h.memory.keys) lo hi :=
    hl.isSucc_of_end_eq hlo hlo0 hloM hhi hhiM hlohi hadj
  have hsucc2 := hl.tiled hi hhi hhi0 hhiM
  have hK : ∀ y, (y ∈ h.memory.keys ∧ y ≠ hi) ↔ y ∈ h'.memory.keys := fun y => (hkeys y).symm
  refine ⟨hpool ▸ hl.pool_pos, ?_, (hkeys 0).mpr ⟨hl.mem_zero, Ne.symm hhi0⟩,
    (hkeys guardHigh).mpr ⟨hl.mem_guardHigh, Ne.symm hhiM⟩, ?_, ?_, ?_, ?_⟩
  · rw [hpool, hlength]
    exact hl.pool_end
  · rw [hlen 0 hl.mem_zero (Ne.symm hlo0) (Ne.symm hhi0)]
    exact hl.zero_len
  · rw [hlen guardHigh hl.mem_guardHigh (Ne.symm hloM) (Ne.symm hhiM)]
    exact hl.guardHigh_len
  · intro k hk hk0 hkM
    obtain ⟨hk, hkhi⟩ := (hkeys k).mp hk
    rw [hpool, hlength]
    by_cases hklo : k = lo
    · subst hklo
      rw [hlenlo]
      have hrlo := hl.range k hk hk0 hkM
      omega
    · rw [hlen k hk hklo hkhi]
      exact hl.range k hk hk0 hkM
  · intro k hk hk0 hkM
    obtain ⟨hk, hkhi⟩ := (hkeys k).mp hk
    by_cases hklo : k = lo
    · -- the merged node ends where `hi` ended
      subst hklo
      have hsucc : h'.succAddr k = h.succAddr hi := by
        have hend : k + (h'.get k).len = hi + (h.get hi).len := by
          rw [hlenlo]
          omega
        rw [succAddr, succAddr, hend, hpool, hlength]
      rw [hsucc]
      exact (isSucc_erase hsucc1 hsucc2).congr hK
    · rw [succAddr_eq_of_len hpool hlength (hlen k hk hklo hkhi)]
      exact ((hl.tiled k hk hk0 hkM).erase_of_ne hsucc1 hkhi hklo).congr hK

end Layout

/-! ### Heaps with the same node map

Operations that first adjust `total_free` and then edit the map are read
through a heap with the same map as before. -/

theorem get_of_memory_eq (hm : h'.memory = h.memory) (k : Nat) : h'.get k = h.get k := by
  simp [get, hm]

theorem freeKey_of_memory_eq (hm : h'.memory = h.memory) (y : Nat) :
    h'.FreeKey y ↔ h.FreeKey y := by
  simp [FreeKey, Mem, freeAt, get, hm]

theorem freeAt_of_memory_eq (hm : h'.memory = h.memory) (y : Nat) : h'.freeAt y = h.freeAt y := by
  simp [freeAt, get, hm]

theorem freeBytes_of_memory_eq (hm : h'.memory = h.memory) : h'.freeBytes = h.freeBytes := by
  simp [freeBytes, hm]

theorem Layout.of_memory_eq (hl : h.Layout) (hm : h'.memory = h.memory)
    (hpool : h'.pool = h.pool) (hlength : h'.length = h.length) : h'.Layout :=
  hl.of_eq hpool hlength (by rw [hm]) fun k _ => by rw [get_of_memory_eq hm]

theorem links_of_memory_eq (hL : h.Links) (hm : h'.memory = h.memory) : h'.Links :=
  hL.congr (fun y => (freeKey_of_memory_eq hm y).symm) (fun y _ => by rw [get_of_memory_eq hm])
    (fun y _ => by rw [get_of_memory_eq hm])

/-- Apartness survives shrinking the free set without changing lengths. -/
theorem Apart.of_subset (ha : h.Apart) (hsub : ∀ y, h'.FreeKey y → h.FreeKey y)
    (hlen : ∀ y, h'.FreeKey y → (h'.get y).len = (h.get y).len) : h'.Apart := by
  intro a b hfa hfb hab
  rw [hlen a hfa] at hab
  exact ha a b (hsub a hfa) (hsub b hfb) hab

theorem Apart.of_memory_eq (ha : h.Apart) (hm : h'.memory = h.memory) : h'.Apart :=
  ha.of_subset (fun y hy => (freeKey_of_memory_eq hm y).mp hy)
    (fun y _ => by rw [get_of_memory_eq hm])

end Keep

/-! ## Linking and unlinking free nodes -/

section Relink

variable {h h' : Heap} {b c hi lo p q x : Nat}

/-- The free list after a change that unlinks the free node `c`. -/
theorem links_of_unlink (hL : h.Links) (hpc : IsSucc h.FreeKey p c) (hcq : IsSucc h.FreeKey c q)
    (hF : ∀ y, h'.FreeKey y ↔ h.FreeKey y ∧ y ≠ c)
    (hnp : (h'.get p).next = some q) (hpq : (h'.get q).prior = some p)
    (hnext : ∀ y, h.FreeKey y → y ≠ c → y ≠ p → (h'.get y).next = (h.get y).next)
    (hprior : ∀ y, h.FreeKey y → y ≠ c → y ≠ q → (h'.get y).prior = (h.get y).prior) :
    h'.Links :=
  (hL.unlink hpc hcq hnp hpq hnext hprior).congr (fun y => (hF y).symm)
    (fun _ _ => rfl) (fun _ _ => rfl)

/-- The free list after a change that links the node `x` in after `b`. -/
theorem links_of_link (hL : h.Links) (hbq : IsSucc h.FreeKey b q) (hbx : b < x) (hxq : x < q)
    (hF : ∀ y, h'.FreeKey y ↔ h.FreeKey y ∨ y = x)
    (hnb : (h'.get b).next = some x) (hnx : (h'.get x).next = some q)
    (hpx : (h'.get x).prior = some b) (hpq : (h'.get q).prior = some x)
    (hnext : ∀ y, h.FreeKey y → y ≠ b → (h'.get y).next = (h.get y).next)
    (hprior : ∀ y, h.FreeKey y → y ≠ q → (h'.get y).prior = (h.get y).prior) : h'.Links :=
  (hL.link hbq hbx hxq hnb hnx hpx hpq hnext hprior).congr (fun y => (hF y).symm)
    (fun _ _ => rfl) (fun _ _ => rfl)

/-- The free list after a change that keeps the free nodes and their links. -/
theorem links_of_same (hL : h.Links) (hF : ∀ y, h'.FreeKey y ↔ h.FreeKey y)
    (hnext : ∀ y, h.FreeKey y → (h'.get y).next = (h.get y).next)
    (hprior : ∀ y, h.FreeKey y → (h'.get y).prior = (h.get y).prior) : h'.Links :=
  hL.congr (fun y => (hF y).symm) hnext hprior

/-- A successor is never the guard at `0`. -/
theorem succ_ne_zero {S : Nat → Prop} (hab : IsSucc S b c) : c ≠ 0 :=
  (Nat.lt_of_le_of_lt (Nat.zero_le b) hab.lt).ne'

/-! ### `remove` -/

section Remove

variable (hl : h.Layout) (hL : h.Links) (hpc : IsSucc h.FreeKey p c)
  (hcq : IsSucc h.FreeKey c q)
include hl hL hpc hcq

theorem remove_get (j : Nat) :
    (h.remove c).get j =
      if j = c then { h.get c with next := some 0 }
      else if j = q then { h.get q with prior := some p }
      else if j = p then { h.get p with next := some q }
      else h.get j := by
  rw [get_remove (hL.prior_eq hpc) (hL.next_eq hcq) hpc.2.1.1 hpc.1.1 hcq.2.1.1 hpc.lt.ne
    hcq.lt.ne' (hpc.lt.trans hcq.lt).ne, hl.begin_eq]

theorem freeKey_remove (y : Nat) : (h.remove c).FreeKey y ↔ h.FreeKey y ∧ y ≠ c := by
  rw [freeKey_iff, freeKey_iff, keys_remove, remove_get hl hL hpc hcq]
  by_cases hyc : y = c
  · simp [hyc]
  rw [if_neg hyc]
  by_cases hyq : y = q
  · subst hyq
    simp [hyc]
  rw [if_neg hyq]
  by_cases hyp : y = p
  · -- `p` now links to `q`, and was free already
    subst hyp
    have hfree := freeKey_iff.mp hpc.1
    simp [hfree.1, hfree.2, hyc, succ_ne_zero hcq]
  · rw [if_neg hyp]
    simp [hyc]

theorem links_remove : (h.remove c).Links := by
  have hpq : p ≠ q := (hpc.lt.trans hcq.lt).ne
  refine links_of_unlink hL hpc hcq (freeKey_remove hl hL hpc hcq) ?_ ?_ ?_ ?_
  · rw [remove_get hl hL hpc hcq, if_neg hpc.lt.ne, if_neg hpq, if_pos rfl]
  · rw [remove_get hl hL hpc hcq, if_neg hcq.lt.ne', if_pos rfl]
  · intro y _ hyc hyp
    rw [remove_get hl hL hpc hcq, if_neg hyc]
    by_cases hyq : y = q
    · rw [if_pos hyq, hyq]
    · rw [if_neg hyq, if_neg hyp]
  · intro y _ hyc hyq
    rw [remove_get hl hL hpc hcq, if_neg hyc, if_neg hyq]
    by_cases hyp : y = p
    · rw [if_pos hyp, hyp]
    · rw [if_neg hyp]

/-- `remove` only relinks: every length stays. -/
theorem remove_len (j : Nat) : ((h.remove c).get j).len = (h.get j).len := by
  rw [remove_get hl hL hpc hcq]
  split_ifs with hjc hjq hjp
  · rw [hjc]
  · rw [hjq]
  · rw [hjp]
  · rfl

theorem layout_remove : (h.remove c).Layout :=
  hl.of_eq remove_pool remove_length (keys_remove c) fun k _ => remove_len hl hL hpc hcq k

/-- `remove` takes the node's length out of the free total. -/
theorem freeBytes_remove : (h.remove c).freeBytes + (h.get c).len = h.freeBytes := by
  have hpK := hpc.1.1
  have hfp := (freeKey_iff.mp hpc.1).2
  have hfc := (freeKey_iff.mp hpc.2.1).2
  have hpc' : c ≠ p := hpc.lt.ne'
  have hqc : c ≠ q := hcq.lt.ne
  rw [remove_eq (hL.prior_eq hpc) (hL.next_eq hcq) hpc.lt.ne, hl.begin_eq]
  -- `p` and `q` keep their free lengths; `c` gives all of its length up
  have h1 := freeBytes_setNode_of_freeLen hpK
    (f := fun n => { n with next := some q }) (freeLen_with_next hfp (by simpa using succ_ne_zero hcq))
  have h2 := freeBytes_setNode_of_freeLen (h := h.setNode p fun n => { n with next := some q })
    (by simpa using hcq.2.1.1) (f := fun n => { n with prior := some p }) (freeLen_with_prior _ _)
  have h3 := freeBytes_setNode
    (h := (h.setNode p fun n => { n with next := some q }).setNode q
      fun n => { n with prior := some p }) (by simpa using hpc.2.1.1)
    (fun n => { n with next := some 0 })
  rw [get_setNode_of_ne hqc, get_setNode_of_ne hpc', freeLen_of_free hfc,
    freeLen_of_used rfl] at h3
  omega

end Remove

/-! ### `insertafter` of a used node -/

section Insert

variable (hl : h.Layout) (hL : h.Links) (hbq : IsSucc h.FreeKey b q)
  (hx : x ∈ h.memory.keys) (hxu : h.freeAt x = false) (hbx : b < x) (hxq : x < q)
include hl hL hbq hx hxu hbx hxq

omit hl hxu in
theorem insertafter_get (j : Nat) :
    (h.insertafter b x).get j =
      if j = q then { h.get q with prior := some x }
      else if j = b then { h.get b with next := some x }
      else if j = x then { h.get x with next := some q, prior := some b }
      else h.get j :=
  get_insertafter (hL.next_eq hbq) hbq.1.1 hx hbq.2.1.1 hbx.ne hxq.ne' hbq.lt.ne' j

omit hl in
theorem freeKey_insertafter (y : Nat) :
    (h.insertafter b x).FreeKey y ↔ h.FreeKey y ∨ y = x := by
  have hx0 : x ≠ 0 := (Nat.lt_of_le_of_lt (Nat.zero_le b) hbx).ne'
  rw [freeKey_iff, freeKey_iff, keys_insertafter, insertafter_get hL hbq hx hbx hxq]
  by_cases hyq : y = q
  · subst hyq
    have hfree := freeKey_iff.mp hbq.2.1
    simp [hfree.1, hfree.2]
  rw [if_neg hyq]
  by_cases hyb : y = b
  · subst hyb
    have hfree := freeKey_iff.mp hbq.1
    simp [hfree.1, hfree.2, hx0]
  rw [if_neg hyb]
  by_cases hyx : y = x
  · subst hyx
    simp [hx, succ_ne_zero hbq]
  · rw [if_neg hyx]
    simp [hyx]

omit hl in
theorem links_insertafter : (h.insertafter b x).Links := by
  have hxF : ∀ y, h.FreeKey y → y ≠ x := by
    rintro y hy rfl
    rw [hy.2] at hxu
    exact Bool.noConfusion hxu
  have hget := insertafter_get hL hbq hx hbx hxq
  refine links_of_link hL hbq hbx hxq (freeKey_insertafter hL hbq hx hxu hbx hxq)
    ?_ ?_ ?_ ?_ ?_ ?_
  · rw [hget, if_neg hbq.lt.ne, if_pos rfl]
  · rw [hget, if_neg hxq.ne, if_neg hbx.ne', if_pos rfl]
  · rw [hget, if_neg hxq.ne, if_neg hbx.ne', if_pos rfl]
  · rw [hget, if_pos rfl]
  · intro y hy hyb
    rw [hget, if_neg hyb, if_neg (hxF y hy)]
    by_cases hyq : y = q
    · rw [if_pos hyq, hyq]
    · rw [if_neg hyq]
  · intro y hy hyq
    rw [hget, if_neg hyq, if_neg (hxF y hy)]
    by_cases hyb : y = b
    · rw [if_pos hyb, hyb]
    · rw [if_neg hyb]

omit hl hxu in
/-- `insertafter` only relinks: every length stays. -/
theorem insertafter_len (j : Nat) : ((h.insertafter b x).get j).len = (h.get j).len := by
  rw [insertafter_get hL hbq hx hbx hxq]
  split_ifs with hjq hjb hjx
  · rw [hjq]
  · rw [hjb]
  · rw [hjx]
  · rfl

omit hxu in
theorem layout_insertafter : (h.insertafter b x).Layout :=
  hl.of_eq insertafter_pool insertafter_length (keys_insertafter b x)
    fun k _ => insertafter_len hL hbq hx hbx hxq k

omit hl hxq in
/-- Linking a used node in adds its length to the free total. -/
theorem freeBytes_insertafter : (h.insertafter b x).freeBytes = h.freeBytes + (h.get x).len := by
  have hbK := hbq.1.1
  have hfb := (freeKey_iff.mp hbq.1).2
  have hused : (h.get x).next = some 0 := freeAt_eq_false_iff.mp hxu
  have hq0 : some q ≠ some 0 := by simpa using succ_ne_zero hbq
  have hx0 : some x ≠ some 0 := by simpa using (Nat.lt_of_le_of_lt (Nat.zero_le b) hbx).ne'
  rw [insertafter_eq (hL.next_eq hbq)]
  -- `x` starts to count with its whole length; `b` and `q` keep theirs
  have h1 := freeBytes_setNode hx (fun n => { n with next := some q, prior := some b })
  rw [freeLen_of_used hused, freeLen_of_free (by simpa using hq0)] at h1
  dsimp only at h1
  have h2 := freeBytes_setNode_of_freeLen
    (h := h.setNode x fun n => { n with next := some q, prior := some b })
    (by simpa using hbK) (f := fun n => { n with next := some x })
    (by rw [get_setNode_of_ne hbx.ne]; exact freeLen_with_next hfb hx0)
  have h3 := freeBytes_setNode_of_freeLen
    (h := (h.setNode x fun n => { n with next := some q, prior := some b }).setNode b
      fun n => { n with next := some x })
    (by simpa using hbq.2.1.1) (f := fun n => { n with prior := some x }) (freeLen_with_prior _ _)
  omega

end Insert

/-! ### `merge` of two adjacent free nodes -/

@[simp] theorem merge_pool : (h.merge lo hi).1.pool = h.pool := by
  unfold merge
  split <;> simp [eraseNode]

@[simp] theorem merge_length : (h.merge lo hi).1.length = h.length := by
  unfold merge
  split <;> simp [eraseNode]

@[simp] theorem merge_totalFree : (h.merge lo hi).1.totalFree = h.totalFree := by
  unfold merge
  split <;> simp [eraseNode]

@[simp] theorem merge_high : (h.merge lo hi).1.high = h.high := by
  unfold merge
  split <;> simp [eraseNode]

section Merge

variable (hl : h.Layout) (hL : h.Links) (hlh : IsSucc h.FreeKey lo hi)
  (hhq : IsSucc h.FreeKey hi q) (hadj : lo + (h.get lo).len = hi)
include hl hL hlh hhq hadj

omit hl in
theorem merge_get (j : Nat) :
    (h.merge lo hi).1.get j =
      if j = hi then Node.blank
      else if j = q then { h.get q with prior := some lo }
      else if j = lo then { h.get lo with len := (h.get lo).len + (h.get hi).len, next := some q }
      else h.get j :=
  get_merge hadj (hL.next_eq hhq) hlh.1.1 hhq.2.1.1 (hlh.lt.trans hhq.lt).ne' j

omit hl in
/-- `lo` takes the length of `hi`, which leaves the map. -/
theorem merge_len (j : Nat) :
    ((h.merge lo hi).1.get j).len =
      if j = hi then 0 else if j = lo then (h.get lo).len + (h.get hi).len else (h.get j).len := by
  rw [merge_get hL hlh hhq hadj]
  by_cases hjq : j = q
  · subst hjq
    rw [if_neg hhq.lt.ne', if_pos rfl, if_neg hhq.lt.ne', if_neg (hlh.lt.trans hhq.lt).ne']
  · rw [if_neg hjq]
    split_ifs <;> rfl

omit hl hlh in
theorem merge_snd : (h.merge lo hi).2 = lo := by
  rw [merge_eq hadj (hL.next_eq hhq)]

omit hl in
theorem freeKey_merge (y : Nat) : (h.merge lo hi).1.FreeKey y ↔ h.FreeKey y ∧ y ≠ hi := by
  rw [freeKey_iff, freeKey_iff, mem_keys_merge hadj (hL.next_eq hhq),
    merge_get hL hlh hhq hadj]
  by_cases hyhi : y = hi
  · simp [hyhi]
  rw [if_neg hyhi]
  by_cases hyq : y = q
  · subst hyq
    simp [hyhi]
  rw [if_neg hyq]
  by_cases hylo : y = lo
  · subst hylo
    have hfree := freeKey_iff.mp hlh.1
    simp [hfree.1, hfree.2, hyhi, succ_ne_zero hhq]
  · rw [if_neg hylo]
    simp [hyhi, and_comm]

omit hl in
theorem links_merge : (h.merge lo hi).1.Links := by
  have hloq : lo ≠ q := (hlh.lt.trans hhq.lt).ne
  have hget := merge_get hL hlh hhq hadj
  refine links_of_unlink hL hlh hhq (freeKey_merge hL hlh hhq hadj) ?_ ?_ ?_ ?_
  · rw [hget, if_neg hlh.lt.ne, if_neg hloq, if_pos rfl]
  · rw [hget, if_neg hhq.lt.ne', if_pos rfl]
  · intro y _ hyhi hylo
    rw [hget, if_neg hyhi, if_neg hylo]
    by_cases hyq : y = q
    · rw [if_pos hyq, hyq]
    · rw [if_neg hyq]
  · intro y _ hyhi hyq
    rw [hget, if_neg hyhi, if_neg hyq]
    by_cases hylo : y = lo
    · rw [if_pos hylo, hylo]
    · rw [if_neg hylo]

theorem layout_merge : (h.merge lo hi).1.Layout := by
  have hlo0 : lo ≠ 0 := by
    rintro rfl
    rw [hl.zero_len] at hadj
    exact hlh.lt.ne hadj
  have hhiM : hi ≠ guardHigh := (hhq.lt.trans_le (hl.le_guardHigh hhq.2.1.1)).ne
  have hget := merge_get hL hlh hhq hadj
  refine hl.merge hlh.1.1 hlo0 hlh.2.1.1 hhiM hlh.lt hadj merge_pool merge_length ?_ ?_ ?_
  · intro k
    rw [mem_keys_merge hadj (hL.next_eq hhq), and_comm]
  · rw [hget, if_neg hlh.lt.ne, if_neg (hlh.lt.trans hhq.lt).ne, if_pos rfl]
  · intro k _ hklo hkhi
    rw [hget, if_neg hkhi, if_neg hklo]
    by_cases hkq : k = q
    · rw [if_pos hkq, hkq]
    · rw [if_neg hkq]

omit hl in
/-- Merging moves length between two free nodes, so the free total stays. -/
theorem freeBytes_merge : (h.merge lo hi).1.freeBytes = h.freeBytes := by
  have hflo := (freeKey_iff.mp hlh.1).2
  have hfhi := (freeKey_iff.mp hlh.2.1).2
  have hq0 : some q ≠ some 0 := by simpa using succ_ne_zero hhq
  rw [merge_eq hadj (hL.next_eq hhq)]
  -- `lo` gains the length of `hi`, which leaves the map
  have h1 := freeBytes_setNode hlh.1.1
    (fun n => { n with len := n.len + (h.get hi).len, next := some q })
  rw [freeLen_of_free hflo, freeLen_of_free (by simpa using hq0)] at h1
  have h2 := freeBytes_setNode_of_freeLen
    (h := h.setNode lo fun n => { n with len := n.len + (h.get hi).len, next := some q })
    (by simpa using hhq.2.1.1) (f := fun n => { n with prior := some lo }) (freeLen_with_prior _ _)
  have h3 := freeBytes_eraseNode
    (h := (h.setNode lo fun n => { n with len := n.len + (h.get hi).len, next := some q }).setNode q
      fun n => { n with prior := some lo }) (k := hi) (by simpa using hlh.2.1.1)
  rw [get_setNode_of_ne hhq.lt.ne, get_setNode_of_ne hlh.lt.ne', freeLen_of_free hfhi] at h3
  dsimp only at h1 ⊢
  omega

end Merge

end Relink

end Heap

end SmallHeap
