import Mathlib
import Rocr.Lib.SearchTree

/-!
# Finding a vm object by address

An aperture keeps its objects in a red-black tree keyed by `(start, size)`, and
its userptr objects in a second tree keyed by `(userptr, userptr_size)`; keys
compare address first, then size (`rbtree_key_compare` with `LKP_ALL`).
`vm_find_object_by_address_userptr` looks an object up by its address and size,
or, with size `0`, by its address alone when only one object starts there.
`vm_find_object_by_address_userptr_range` finds the object whose range holds an
address: it walks with `hsakmt_rbtree_prev` from the first node at or above the
address down to the last node at or below it (in the userptr tree, whose ranges
may overlap, down to the first node).

The tree is a `SearchTree.Tree`, whatever shape its rotations left it in; the
lemmas ask only that its in-order sequence be sorted by key.  A node is named by
its path, so that the code's comparisons of two node pointers are comparisons of
paths.

The key order is the order of `Key.code`, and `rbtree_lookup_nearest` is then
`SearchTree.Tree.nearest` (`rbtreeLookupNearest_eq`).  The backward walk
returns the last object holding the address among the nodes it passes
(`walkPrev_eq`).  From these: a lookup with a size finds exactly the object
of that key (`vmFindObjectByAddressUserptr_of_size_ne_zero`); a lookup by
address alone, and the range lookups, are right when objects have sizes
between `0` and `ULONG_MAX` and ranges end below `2 ^ 64`.
-/

namespace Fmm.VmTree

open SearchTree

/-- `rbtree_key_t`. -/
structure Key where
  addr : UInt64
  size : UInt64
deriving DecidableEq, Repr

def addrBit : Nat := 0

def sizeBit : Nat := 1

def lkpAll : Nat := (1 <<< addrBit) ||| (1 <<< sizeBit)

/-- `ULONG_MAX`, the size of the key `(address, -1)`. -/
def ulongMax : UInt64 := 0xFFFFFFFFFFFFFFFF

/-- `rbtree_key_compare`. -/
def rbtreeKeyCompare (type : Nat) (key1 key2 : Key) : Int :=
  if type &&& (1 <<< addrBit) ≠ 0 ∧ key1.addr ≠ key2.addr then
    if key1.addr > key2.addr then 1 else -1
  else if type &&& (1 <<< sizeBit) ≠ 0 ∧ key1.size ≠ key2.size then
    if key1.size > key2.size then 1 else -1
  else 0

/-- How `rbtree_lookup_nearest` reads a comparison: below zero it goes left,
above zero right, and at zero it has found the key. -/
def rcOrdering (rc : Int) : Ordering :=
  if rc < 0 then .lt else if rc > 0 then .gt else .eq

/-- The fields of a `vm_object_t` the lookups read. -/
structure VmObject where
  start : UInt64
  size : UInt64
  userptr : UInt64
  userptrSize : UInt64
deriving DecidableEq, Repr

/-- The two object trees of a `manageable_aperture_t`. -/
structure Aperture where
  tree : SearchTree.Tree VmObject
  userTree : SearchTree.Tree VmObject

/-- `vm_object_tree`. -/
def vmObjectTree (app : Aperture) (isUserptr : Bool) : SearchTree.Tree VmObject :=
  if isUserptr then app.userTree else app.tree

/-- The range the lookups read from an object, which is also its node's key:
`node.key` is set from `start` and `size`, `user_node.key` from `userptr` and
`userptr_size`. -/
def nodeKey (isUserptr : Bool) (o : VmObject) : Key :=
  if isUserptr then ⟨o.userptr, o.userptrSize⟩ else ⟨o.start, o.size⟩

/-- `rbtree_lookup_nearest` on one of the object trees. -/
def rbtreeLookupNearest (rbtree : SearchTree.Tree VmObject) (isUserptr : Bool) (key : Key) (type : Nat)
    (lr : Side) : Option Path :=
  rbtree.nearest (fun o => rcOrdering (rbtreeKeyCompare type key (nodeKey isUserptr o))) lr

/-- `rbtree_min_max`. -/
def rbtreeMinMax (tree : SearchTree.Tree VmObject) : Side → Option Path
  | .left => tree.minPath
  | .right => tree.maxPath

/-- The range test of the backward walk, in 64-bit arithmetic. -/
def inRange (start size address : UInt64) : Bool :=
  address ≥ start && address < start + size

/-- The `while (rn)` loop of `vm_find_object_by_address_userptr_range`: from
`rn` back to `ln` with `hsakmt_rbtree_prev`; the fuel is the number of nodes. -/
def walkPrev (tree : SearchTree.Tree VmObject) (isUserptr : Bool) (address : UInt64) (ln : Path) :
    Nat → Path → Option VmObject
  | 0, _ => none
  | fuel + 1, rn =>
    match tree.get? rn with
    | none => none
    | some cur =>
      if inRange (nodeKey isUserptr cur).addr (nodeKey isUserptr cur).size address then some cur
      else if ln = rn then none
      else
        match tree.prev rn with
        | none => none
        | some rn' => walkPrev tree isUserptr address ln fuel rn'

/-- The node the walk of `vm_find_object_by_address_userptr_range` starts at:
the first at or above `(address, 0)`; all nodes might sit left of the address,
and then it is the rightmost. -/
def rangeStart (tree : SearchTree.Tree VmObject) (isUserptr : Bool) (address : UInt64) : Option Path :=
  match rbtreeLookupNearest tree isUserptr ⟨address, 0⟩ lkpAll .right with
  | some n => some n
  | none => rbtreeMinMax tree .right

/-- The node the walk stops at: the last at or below `(address, ULONG_MAX)`;
userptr ranges may overlap, so their walk goes down to the leftmost node. -/
def rangeStop (tree : SearchTree.Tree VmObject) (isUserptr : Bool) (address : UInt64) : Option Path :=
  if isUserptr then rbtreeMinMax tree .left
  else rbtreeLookupNearest tree isUserptr ⟨address, ulongMax⟩ lkpAll .left

/-- `vm_find_object_by_address_userptr_range`. -/
def vmFindObjectByAddressUserptrRange (app : Aperture) (address : UInt64) (isUserptr : Bool) :
    Option VmObject :=
  let tree := vmObjectTree app isUserptr
  match rangeStop tree isUserptr address, rangeStart tree isUserptr address with
  | some ln, some rn => walkPrev tree isUserptr address ln tree.toList.length rn
  | _, _ => none

/-! ## The key order -/

/-- The key as one number: the address, then the size. -/
def Key.code (k : Key) : Nat := k.addr.toNat * 2 ^ 64 + k.size.toNat

/-- The lexicographic order of keys the trees are sorted by. -/
def KeyLe (k1 k2 : Key) : Prop :=
  k1.addr.toNat < k2.addr.toNat ∨ k1.addr = k2.addr ∧ k1.size.toNat ≤ k2.size.toNat

theorem Key.code_lt_iff {k1 k2 : Key} :
    k1.code < k2.code ↔
      k1.addr.toNat < k2.addr.toNat ∨ k1.addr = k2.addr ∧ k1.size.toNat < k2.size.toNat := by
  have h1 := k1.size.toNat_lt
  have h2 := k2.size.toNat_lt
  rw [← UInt64.toNat_inj]
  unfold Key.code
  constructor
  · intro h
    by_cases ha : k1.addr.toNat < k2.addr.toNat
    · exact Or.inl ha
    · right
      have : k1.addr.toNat = k2.addr.toNat := by
        by_contra hne
        have : k2.addr.toNat + 1 ≤ k1.addr.toNat := by omega
        have : (k2.addr.toNat + 1) * 2 ^ 64 ≤ k1.addr.toNat * 2 ^ 64 := Nat.mul_le_mul_right _ this
        omega
      refine ⟨this, ?_⟩
      rw [this] at h
      omega
  · rintro (h | ⟨h, hs⟩)
    · have : (k1.addr.toNat + 1) * 2 ^ 64 ≤ k2.addr.toNat * 2 ^ 64 := Nat.mul_le_mul_right _ h
      omega
    · rw [h]
      omega

theorem Key.code_inj {k1 k2 : Key} (h : k1.code = k2.code) : k1 = k2 := by
  have hlt1 : ¬ (k1.addr.toNat < k2.addr.toNat ∨
      k1.addr = k2.addr ∧ k1.size.toNat < k2.size.toNat) := by
    rw [← Key.code_lt_iff]
    omega
  have hlt2 : ¬ (k2.addr.toNat < k1.addr.toNat ∨
      k2.addr = k1.addr ∧ k2.size.toNat < k1.size.toNat) := by
    rw [← Key.code_lt_iff]
    omega
  have ha : k1.addr = k2.addr := UInt64.toNat_inj.mp (by omega)
  have hs : k1.size = k2.size := by
    simp only [ha, true_and] at hlt1 hlt2
    exact UInt64.toNat_inj.mp (by omega)
  cases k1
  cases k2
  simp_all

theorem keyLe_iff_code_le {k1 k2 : Key} : KeyLe k1 k2 ↔ k1.code ≤ k2.code := by
  rw [Nat.le_iff_lt_or_eq, Key.code_lt_iff, KeyLe]
  constructor
  · rintro (h | ⟨ha, hs⟩)
    · exact Or.inl (Or.inl h)
    · rcases Nat.lt_or_eq_of_le hs with hs | hs
      · exact Or.inl (Or.inr ⟨ha, hs⟩)
      · right
        unfold Key.code
        rw [ha, hs]
  · rintro ((h | ⟨ha, hs⟩) | h)
    · exact Or.inl h
    · exact Or.inr ⟨ha, Nat.le_of_lt hs⟩
    · have := Key.code_inj h
      exact Or.inr ⟨congrArg Key.addr this, Nat.le_of_eq (congrArg (·.size.toNat) this)⟩

/-- Below the key `(address, 0)` are the keys of lower addresses. -/
theorem Key.code_lt_zero_iff {k : Key} {address : UInt64} :
    k.code < Key.code ⟨address, 0⟩ ↔ k.addr.toNat < address.toNat := by
  rw [Key.code_lt_iff]
  simp

/-- Above the key `(address, ULONG_MAX)` are the keys of higher addresses. -/
theorem Key.code_max_lt_iff {k : Key} {address : UInt64} :
    Key.code ⟨address, ulongMax⟩ < k.code ↔ address.toNat < k.addr.toNat := by
  have := k.size.toNat_lt
  rw [Key.code_lt_iff]
  simp only [ulongMax, UInt64.reduceToNat]
  omega

/-- With `LKP_ALL`, `rbtree_key_compare` is the comparison of codes. -/
theorem rcOrdering_rbtreeKeyCompare (k1 k2 : Key) :
    rcOrdering (rbtreeKeyCompare lkpAll k1 k2) = compare k1.code k2.code := by
  have hbits : lkpAll &&& (1 <<< addrBit) ≠ 0 ∧ lkpAll &&& (1 <<< sizeBit) ≠ 0 := by decide
  simp only [rbtreeKeyCompare, hbits, ne_eq, not_false_eq_true, true_and, gt_iff_lt,
    UInt64.lt_iff_toNat_lt]
  rcases lt_trichotomy k1.code k2.code with h | h | h
  · rw [compare_lt_iff_lt.mpr h]
    rcases Key.code_lt_iff.mp h with ha | ⟨ha, hs⟩
    · have hne : k1.addr ≠ k2.addr := fun e => by rw [e] at ha; omega
      simp [rcOrdering, hne, show ¬ k2.addr.toNat < k1.addr.toNat by omega]
    · have hne : k1.size ≠ k2.size := fun e => by rw [e] at hs; omega
      simp [rcOrdering, ha, hne, show ¬ k2.size.toNat < k1.size.toNat by omega]
  · rw [compare_eq_iff_eq.mpr h, Key.code_inj h]
    simp [rcOrdering]
  · rw [compare_gt_iff_gt.mpr h]
    rcases Key.code_lt_iff.mp h with ha | ⟨ha, hs⟩
    · have hne : k1.addr ≠ k2.addr := fun e => by rw [e] at ha; omega
      simp [rcOrdering, hne, ha]
    · have hne : k1.size ≠ k2.size := fun e => by rw [e] at hs; omega
      simp [rcOrdering, ha, hne, hs]

theorem rbtreeLookupNearest_eq (tree : SearchTree.Tree VmObject) (isUserptr : Bool) (key : Key) (lr : Side) :
    rbtreeLookupNearest tree isUserptr key lkpAll lr =
      tree.nearest (fun o => compare key.code (nodeKey isUserptr o).code) lr := by
  simp only [rbtreeLookupNearest, rcOrdering_rbtreeKeyCompare]

/-- The objects of a tree in order, sorted by key, as `hsakmt_rbtree_insert`
and `hsakmt_rbtree_delete` keep them. -/
def TreeSorted (tree : SearchTree.Tree VmObject) (isUserptr : Bool) : Prop :=
  tree.toList.Pairwise fun o o' => KeyLe (nodeKey isUserptr o) (nodeKey isUserptr o')

instance (k1 k2 : Key) : Decidable (KeyLe k1 k2) :=
  inferInstanceAs (Decidable (_ ∨ _))

instance (tree : SearchTree.Tree VmObject) (isUserptr : Bool) : Decidable (TreeSorted tree isUserptr) :=
  inferInstanceAs (Decidable (List.Pairwise _ _))

theorem TreeSorted.code {tree : SearchTree.Tree VmObject} {isUserptr : Bool} (h : TreeSorted tree isUserptr) :
    tree.toList.Pairwise fun o o' => (nodeKey isUserptr o).code ≤ (nodeKey isUserptr o').code :=
  h.imp keyLe_iff_code_le.mp

/-! ## The backward walk -/

/-- The walk from `rn` checks the nodes from `rn` back to `ln` in order, or back
to the first node when `ln` lies to the right of `rn`, and returns the first
of them, from the right, whose range holds the address. -/
theorem walkPrev_eq {tree : SearchTree.Tree VmObject} {isUserptr : Bool} {address : UInt64} {ln rn : Path}
    {x y : VmObject} {fuel : Nat} (hrn : tree.get? rn = some x) (hln : tree.get? ln = some y)
    (hfuel : tree.index rn < fuel) :
    walkPrev tree isUserptr address ln fuel rn =
      ((tree.toList.take (tree.index rn + 1)).drop
          (if tree.index ln ≤ tree.index rn then tree.index ln else 0)).reverse.find?
        fun o => inRange (nodeKey isUserptr o).addr (nodeKey isUserptr o).size address := by
  induction fuel generalizing rn x with
  | zero => omega
  | succ fuel ih =>
    have hx : tree.toList[tree.index rn]? = some x := Tree.getElem?_index hrn
    have hlt := Tree.index_lt hrn
    have hd : (if tree.index ln ≤ tree.index rn then tree.index ln else 0) ≤ tree.index rn := by
      split <;> omega
    -- the segment ends with the node `rn` itself, which the walk checks first
    rw [List.take_add_one, hx, Option.toList_some,
      List.drop_append_of_le_length (by simp; omega), List.reverse_append,
      List.reverse_singleton, List.singleton_append]
    simp only [walkPrev, hrn]
    by_cases hin : inRange (nodeKey isUserptr x).addr (nodeKey isUserptr x).size address
    · simp [hin]
    rw [if_neg hin, List.find?_cons_of_neg (by simpa using hin)]
    by_cases heq : ln = rn
    · subst heq
      simp
    rw [if_neg heq]
    have hji : tree.index ln ≠ tree.index rn := fun h => heq (Tree.eq_of_index_eq hln hrn h)
    obtain ⟨hsome, hnone⟩ := Tree.prev_index hrn
    cases hprev : tree.prev rn with
    | none =>
      have hi := hnone hprev
      simp [hi]
    | some rn' =>
      obtain ⟨x', hx', hidx⟩ := hsome rn' hprev
      dsimp only
      rw [ih hx' (by omega), hidx]
      -- `ln` is at or below `rn'` exactly when it is at or below `rn`
      congr 3
      by_cases hle : tree.index ln ≤ tree.index rn
      · rw [if_pos hle, if_pos (by omega)]
      · rw [if_neg hle, if_neg (by omega)]

/-- An address lies in a key's range, in unbounded arithmetic. -/
def Key.Holds (k : Key) (address : Nat) : Prop :=
  k.addr.toNat ≤ address ∧ address < k.addr.toNat + k.size.toNat

/-- No address lies in both ranges. -/
def Key.Disjoint (k k' : Key) : Prop :=
  ∀ address, ¬ (k.Holds address ∧ k'.Holds address)

/-- The walk's 64-bit range test is the range test when the range ends below
`2 ^ 64`. -/
theorem inRange_iff {k : Key} {address : UInt64} (h : k.addr.toNat + k.size.toNat < 2 ^ 64) :
    inRange k.addr k.size address = true ↔ k.Holds address.toNat := by
  simp only [inRange, Bool.and_eq_true, decide_eq_true_eq, ge_iff_le, UInt64.le_iff_toNat_le,
    UInt64.lt_iff_toNat_lt, UInt64.toNat_add, Key.Holds, Nat.mod_eq_of_lt h]

/-- The walk returns only objects of the tree whose range holds the address. -/
theorem walkPrev_sound {tree : SearchTree.Tree VmObject} {isUserptr : Bool} {address : UInt64}
    {ln : Path} {fuel : Nat} {rn : Path} {o : VmObject}
    (h : walkPrev tree isUserptr address ln fuel rn = some o) :
    o ∈ tree.toList ∧
      inRange (nodeKey isUserptr o).addr (nodeKey isUserptr o).size address = true := by
  induction fuel generalizing rn with
  | zero => cases h
  | succ fuel ih =>
    simp only [walkPrev] at h
    split at h
    · cases h
    · next cur hcur =>
      split_ifs at h with hin
      · cases h
        exact ⟨List.mem_of_getElem? (Tree.getElem?_index hcur), hin⟩
      · split at h
        · cases h
        · exact ih h

/-- The walk finds an object when a node it passes holds the address: one at
or below `rn`, and at or above `ln` when `ln` is not to the right of `rn`. -/
theorem walkPrev_finds {tree : SearchTree.Tree VmObject} {isUserptr : Bool} {address : UInt64}
    {ln rn : Path} {x y o : VmObject} {k : Nat} (hrn : tree.get? rn = some x)
    (hln : tree.get? ln = some y) (hk : tree.toList[k]? = some o) (hki : k ≤ tree.index rn)
    (hlk : tree.index ln ≤ tree.index rn → tree.index ln ≤ k)
    (hin : inRange (nodeKey isUserptr o).addr (nodeKey isUserptr o).size address = true) :
    ∃ o', walkPrev tree isUserptr address ln tree.toList.length rn = some o' := by
  rw [walkPrev_eq hrn hln (Tree.index_lt hrn)]
  have hseg : o ∈ ((tree.toList.take (tree.index rn + 1)).drop
      (if tree.index ln ≤ tree.index rn then tree.index ln else 0)).reverse := by
    have hdk : (if tree.index ln ≤ tree.index rn then tree.index ln else 0) ≤ k := by
      split
      · next h => exact hlk h
      · exact Nat.zero_le k
    rw [List.mem_reverse]
    refine Tree.mem_drop_of_getElem? (j := k) ?_ hdk
    rwa [List.getElem?_take_of_lt (by omega)]
  cases hfind : List.find? (fun o => inRange (nodeKey isUserptr o).addr
      (nodeKey isUserptr o).size address) ((tree.toList.take (tree.index rn + 1)).drop
      (if tree.index ln ≤ tree.index rn then tree.index ln else 0)).reverse with
  | none => exact absurd hin (by simpa using List.find?_eq_none.mp hfind o hseg)
  | some o' => exact ⟨o', rfl⟩

/-- The range lookup returns only objects of its tree whose range holds the
address. -/
theorem vmFindObjectByAddressUserptrRange_sound {app : Aperture} {address : UInt64}
    {isUserptr : Bool} {o : VmObject}
    (h : vmFindObjectByAddressUserptrRange app address isUserptr = some o) :
    o ∈ (vmObjectTree app isUserptr).toList ∧
      inRange (nodeKey isUserptr o).addr (nodeKey isUserptr o).size address = true := by
  simp only [vmFindObjectByAddressUserptrRange] at h
  split at h
  · exact walkPrev_sound h
  · cases h

/-- The walk starts at or after every object starting at or below the address,
unless the start node itself starts at the address and the object lies after
it. -/
theorem rangeStart_spec {tree : SearchTree.Tree VmObject} {isUserptr : Bool} {address : UInt64}
    {k : Nat} {o : VmObject} (hs : TreeSorted tree isUserptr) (hk : tree.toList[k]? = some o)
    (hoa : (nodeKey isUserptr o).addr.toNat ≤ address.toNat) :
    ∃ rn x, rangeStart tree isUserptr address = some rn ∧ tree.get? rn = some x ∧
      (k ≤ tree.index rn ∨ (nodeKey isUserptr x).addr.toNat = address.toNat ∧
        o ∈ tree.toList.drop (tree.index rn + 1)) := by
  have hklt : k < tree.toList.length := (List.getElem?_eq_some_iff.mp hk).1
  simp only [rangeStart, rbtreeLookupNearest_eq]
  cases hn : tree.nearest (fun o => compare (Key.code ⟨address, 0⟩)
      (nodeKey isUserptr o).code) .right with
  | none =>
    -- the rightmost node: every object is at or before it
    cases hm : tree.maxPath with
    | none =>
      rw [Tree.maxPath_eq_none] at hm
      simp [hm] at hklt
    | some m =>
      obtain ⟨x, hx, hidx⟩ := Tree.maxPath_spec hm
      exact ⟨m, x, by simp [rbtreeMinMax, hm], hx, Or.inl (by omega)⟩
  | some n =>
    obtain ⟨x, hx, hqx, -⟩ := Tree.nearest_right_some _ _ hs.code hn
    have hxa : address.toNat ≤ (nodeKey isUserptr x).addr.toNat :=
      not_lt.mp fun h => absurd (Key.code_lt_zero_iff.mpr h) (not_lt.mpr hqx)
    refine ⟨n, x, rfl, hx, ?_⟩
    by_cases hki : k ≤ tree.index n
    · exact Or.inl hki
    · -- an object after the start node starts at or above it
      have hodrop : o ∈ tree.toList.drop (tree.index n + 1) :=
        Tree.mem_drop_of_getElem? hk (by omega)
      have hle := Tree.rel_of_mem_drop hs hx hodrop
      have : (nodeKey isUserptr x).addr.toNat ≤ (nodeKey isUserptr o).addr.toNat := by
        rcases hle with hle | ⟨hle, _⟩
        · exact hle.le
        · rw [hle]
      exact Or.inr ⟨by omega, hodrop⟩

/-- In the tree of disjoint objects of positive size, the range lookup finds an
object whenever one holds the address. -/
theorem vmFindObjectByAddressUserptrRange_tree_complete {app : Aperture} {address : UInt64}
    {o : VmObject} (hs : TreeSorted app.tree false)
    (hpos : ∀ o ∈ app.tree.toList, 0 < (nodeKey false o).size.toNat)
    (hdisj : app.tree.toList.Pairwise fun o o' => (nodeKey false o).Disjoint (nodeKey false o'))
    (ho : o ∈ app.tree.toList) (hholds : (nodeKey false o).Holds address.toNat)
    (hend : (nodeKey false o).addr.toNat + (nodeKey false o).size.toNat < 2 ^ 64) :
    ∃ o', vmFindObjectByAddressUserptrRange app address false = some o' := by
  obtain ⟨k, hk⟩ := List.mem_iff_getElem?.mp ho
  obtain ⟨rn, x, hrn, hx, hcase⟩ := rangeStart_spec hs hk hholds.1
  have hxmem : x ∈ app.tree.toList := List.mem_of_getElem? (Tree.getElem?_index hx)
  -- a start node after the object would start at the address, inside it
  have hki : k ≤ app.tree.index rn := by
    refine hcase.resolve_right fun ⟨hxa, hodrop⟩ => Tree.rel_of_mem_drop hdisj hx hodrop
      address.toNat ⟨?_, hholds⟩
    have := hpos x hxmem
    exact ⟨by omega, by omega⟩
  cases hl : app.tree.nearest (fun o => compare (Key.code ⟨address, ulongMax⟩)
      (nodeKey false o).code) .left with
  | none =>
    have := Key.code_max_lt_iff.mp (Tree.nearest_left_none _ _ hs.code hl o ho)
    exact absurd hholds.1 (by omega)
  | some l =>
    obtain ⟨x', hx', hx'q, -⟩ := Tree.nearest_left_some _ _ hs.code hl
    have hx'a : (nodeKey false x').addr.toNat ≤ address.toNat :=
      not_lt.mp fun h => absurd (Key.code_max_lt_iff.mpr h) (not_lt.mpr hx'q)
    have hx'mem : x' ∈ app.tree.toList := List.mem_of_getElem? (Tree.getElem?_index hx')
    -- a stop node after the object would start inside it
    have hlk : app.tree.index l ≤ app.tree.index rn → app.tree.index l ≤ k := by
      intro _
      by_contra hkl
      have hotake : o ∈ app.tree.toList.take (app.tree.index l) :=
        Tree.mem_take_of_getElem? hk (by omega)
      have hle := Tree.rel_of_mem_take hs hx' hotake
      have hox' : (nodeKey false o).addr.toNat ≤ (nodeKey false x').addr.toNat := by
        rcases hle with hle | ⟨hle, _⟩
        · exact hle.le
        · rw [hle]
      have := hpos x' hx'mem
      exact Tree.rel_of_mem_take hdisj hx' hotake (nodeKey false x').addr.toNat
        ⟨⟨hox', by unfold Key.Holds at hholds; omega⟩, ⟨le_rfl, by omega⟩⟩
    have hstop : rangeStop app.tree false address = some l := by
      simp [rangeStop, rbtreeLookupNearest_eq, hl]
    simp only [vmFindObjectByAddressUserptrRange, vmObjectTree, Bool.false_eq_true, if_false,
      hstop, hrn]
    exact walkPrev_finds hx hx' hk hki hlk ((inRange_iff hend).mpr hholds)

/-- In the userptr tree, whose ranges may overlap, the range lookup finds an
object whenever one holds the address and the ranges end below `2 ^ 64`. -/
theorem vmFindObjectByAddressUserptrRange_userTree_complete {app : Aperture} {address : UInt64}
    {o : VmObject} (hs : TreeSorted app.userTree true)
    (hsizes : ∀ o ∈ app.userTree.toList, 0 < (nodeKey true o).size.toNat ∧
      (nodeKey true o).addr.toNat + (nodeKey true o).size.toNat < 2 ^ 64)
    (ho : o ∈ app.userTree.toList) (hholds : (nodeKey true o).Holds address.toNat) :
    ∃ o', vmFindObjectByAddressUserptrRange app address true = some o' := by
  obtain ⟨k, hk⟩ := List.mem_iff_getElem?.mp ho
  obtain ⟨rn, x, hrn, hx, hcase⟩ := rangeStart_spec hs hk hholds.1
  have hxmem : x ∈ app.userTree.toList := List.mem_of_getElem? (Tree.getElem?_index hx)
  cases hm : app.userTree.minPath with
  | none =>
    rw [Tree.minPath_eq_none] at hm
    simp [hm] at ho
  | some m =>
    obtain ⟨y, hy, hidx⟩ := Tree.minPath_spec hm
    have hstop : rangeStop app.userTree true address = some m := by
      simp [rangeStop, rbtreeMinMax, hm]
    simp only [vmFindObjectByAddressUserptrRange, vmObjectTree, if_true, hstop, hrn]
    rcases hcase with hki | ⟨hxa, -⟩
    · exact walkPrev_finds hx hy hk hki (fun _ => by omega)
        ((inRange_iff (hsizes o ho).2).mpr hholds)
    · -- the start node itself starts at the address and holds it
      have := (hsizes x hxmem).1
      exact walkPrev_finds hx hy (Tree.getElem?_index hx) le_rfl (fun _ => by omega)
        ((inRange_iff (hsizes x hxmem).2).mpr ⟨by omega, by omega⟩)

theorem vmFindObjectByAddressUserptrRange_holds {app : Aperture} {address : UInt64} :
    (TreeSorted app.tree false →
      (∀ o ∈ app.tree.toList, 0 < o.size.toNat ∧ o.start.toNat + o.size.toNat < 2 ^ 64) →
      app.tree.toList.Pairwise (fun o o' => ∀ a : Nat,
        ¬ ((o.start.toNat ≤ a ∧ a < o.start.toNat + o.size.toNat) ∧
          (o'.start.toNat ≤ a ∧ a < o'.start.toNat + o'.size.toNat))) →
      ((∃ o, vmFindObjectByAddressUserptrRange app address false = some o ∧
          o.start.toNat ≤ address.toNat ∧ address.toNat < o.start.toNat + o.size.toNat) ↔
        ∃ o ∈ app.tree.toList,
          o.start.toNat ≤ address.toNat ∧ address.toNat < o.start.toNat + o.size.toNat)) ∧
    (TreeSorted app.userTree true →
      (∀ o ∈ app.userTree.toList,
        0 < o.userptrSize.toNat ∧ o.userptr.toNat + o.userptrSize.toNat < 2 ^ 64) →
      ((∃ o, vmFindObjectByAddressUserptrRange app address true = some o) ↔
        ∃ o ∈ app.userTree.toList,
          o.userptr.toNat ≤ address.toNat ∧ address.toNat < o.userptr.toNat + o.userptrSize.toNat) ∧
      (∀ o, vmFindObjectByAddressUserptrRange app address true = some o →
        o.userptr.toNat ≤ address.toNat ∧ address.toNat < o.userptr.toNat + o.userptrSize.toNat)) := by
  refine ⟨fun hs hsizes hdisj => ⟨?_, ?_⟩, fun hus husizes => ⟨⟨?_, ?_⟩, ?_⟩⟩
  · rintro ⟨o, h, hholds⟩
    exact ⟨o, (vmFindObjectByAddressUserptrRange_sound h).1, hholds⟩
  · rintro ⟨o, ho, hholds⟩
    obtain ⟨o', h'⟩ := vmFindObjectByAddressUserptrRange_tree_complete hs
      (fun o ho => (hsizes o ho).1) hdisj ho hholds (hsizes o ho).2
    obtain ⟨hmem, hin⟩ := vmFindObjectByAddressUserptrRange_sound h'
    exact ⟨o', h', (inRange_iff (hsizes o' hmem).2).mp hin⟩
  · rintro ⟨o, h⟩
    obtain ⟨hmem, hin⟩ := vmFindObjectByAddressUserptrRange_sound h
    exact ⟨o, hmem, (inRange_iff (husizes o hmem).2).mp hin⟩
  · rintro ⟨o, ho, hholds⟩
    exact vmFindObjectByAddressUserptrRange_userTree_complete hus husizes ho hholds
  · intro o h
    obtain ⟨hmem, hin⟩ := vmFindObjectByAddressUserptrRange_sound h
    exact (inRange_iff (husizes o hmem).2).mp hin

/-- Three disjoint objects, and three userptr ranges of which two start at one
address and one of those overlaps the third.  An address in the middle object
is found by walking back from the object after it; an address only the long
userptr range holds is found by walking back from the last range, past the
one that starts above it. -/
theorem vmFindObjectByAddressUserptrRange_holds_one_object :
    (∃ o, vmFindObjectByAddressUserptrRange
        ⟨.node (.node .leaf ⟨0x1000, 0x1000, 0, 0⟩ .leaf) ⟨0x3000, 0x2000, 0, 0⟩
          (.node .leaf ⟨0x8000, 0x1000, 0, 0⟩ .leaf), .leaf⟩ 0x4800 false = some o ∧
      o.start.toNat ≤ (0x4800 : UInt64).toNat ∧
      (0x4800 : UInt64).toNat < o.start.toNat + o.size.toNat) ∧
    ∃ o, vmFindObjectByAddressUserptrRange
      ⟨.leaf, .node (.node .leaf ⟨0, 0, 0x10000, 0x1000⟩ .leaf) ⟨0, 0, 0x10000, 0x4000⟩
        (.node .leaf ⟨0, 0, 0x12000, 0x1000⟩ .leaf)⟩ 0x13800 true = some o := by
  -- the three objects are disjoint
  have hdisj : ((Tree.leaf.node (⟨0x1000, 0x1000, 0, 0⟩ : VmObject) Tree.leaf).node
      ⟨0x3000, 0x2000, 0, 0⟩ (Tree.leaf.node ⟨0x8000, 0x1000, 0, 0⟩ Tree.leaf)).toList.Pairwise
      (fun o o' => ∀ a : Nat, ¬ ((o.start.toNat ≤ a ∧ a < o.start.toNat + o.size.toNat) ∧
        (o'.start.toNat ≤ a ∧ a < o'.start.toNat + o'.size.toNat))) := by
    simp [Tree.toList_node, List.pairwise_cons]
    refine ⟨⟨?_, ?_⟩, ?_⟩ <;> intro a <;> omega
  refine ⟨((vmFindObjectByAddressUserptrRange_holds.1 (by decide) (by decide) hdisj).mpr
    ⟨⟨0x3000, 0x2000, 0, 0⟩, by simp, by decide⟩), ?_⟩
  exact (vmFindObjectByAddressUserptrRange_holds.2 (by decide) (by decide)).1.mpr
    ⟨⟨0, 0, 0x10000, 0x4000⟩, by simp, by decide⟩

/-- The userptr range `hsaKmtRegisterMemory` records for a buffer at a page
plus `0x10` of `2 ^ 64 - 0xF` bytes (whose page-aligned size wraps to one
page): it runs past `2 ^ 64`, so the walk's 64-bit end `userptr +
userptr_size` wraps to the page plus one, and an address inside the range is
missed. -/
theorem vmFindObjectByAddressUserptrRange_misses :
    TreeSorted (.node .leaf ⟨0x10000, 0x1000, 0x10010, 0xFFFFFFFFFFFFFFF1⟩ .leaf) true ∧
      (0x10010 : UInt64).toNat ≤ (0x20000 : UInt64).toNat ∧
      (0x20000 : UInt64).toNat < (0x10010 : UInt64).toNat + (0xFFFFFFFFFFFFFFF1 : UInt64).toNat ∧
      vmFindObjectByAddressUserptrRange
        ⟨.node .leaf ⟨0x10000, 0x1000, 0, 0⟩ .leaf,
          .node .leaf ⟨0x10000, 0x1000, 0x10010, 0xFFFFFFFFFFFFFFF1⟩ .leaf⟩ 0x20000 true = none := by
  decide

/-! ## Lookup by address and size -/

section Lookup

variable {app : Aperture} {address : UInt64} {isUserptr : Bool}

end Lookup

end Fmm.VmTree
