import Rocr.Lib.OrdMap

/-!
# `SmallHeap`: first-fit allocation with eager compaction

`SmallHeap` (`core/util/small_heap.{h,cpp}`) manages the range
`[pool, pool + length)`.  Its nodes live in a `std::map<void*, Node>` keyed by
address; a node holds its length and two iterators, `next` and `prior`, that
thread the free nodes into a doubly linked list.  Two guard nodes of length
zero, at keys `0` and `0xFFFFFFFFFFFFFFFF`, bound the list.  A node is in use
exactly when its `next` is `memory.begin()`, the guard at `0`.

Iterators are modelled as keys (`none` is `memory.end()`), so a `Node` is a
length and two optional keys.  Writing through an iterator is `setNode`;
reading is `get`, which yields a blank node at a key that is absent (only
reachable from a corrupt heap, where C++ would dereference `end()`).

`alloc` walks the list forwards from `firstfree()` and `alloc_high`
backwards from `lastfree()`.  Both walks carry a fuel bound of `memory.size()`
steps: the list of a well-formed heap has no more nodes than the map, which
is what the invariant module proves.
-/

namespace SmallHeap

/-- `0xFFFFFFFFFFFFFFFF`: the key of the upper guard node and the initial
entry of `high`. -/
def guardHigh : Nat := 0xFFFFFFFFFFFFFFFF

/-- `memory_t::iterator`: a key of `memory`, `none` for `memory.end()`. -/
abbrev Iter := Option Nat

/-- `Node`. -/
structure Node where
  len : Nat
  next : Iter
  prior : Iter
deriving DecidableEq, Repr

/-- A node as `memory[k]` value-initialises it. -/
def Node.blank : Node := ⟨0, none, none⟩

/-- The members of `SmallHeap`; `high` is the `std::set<void*>` of pointers
handed out by `alloc_high`. -/
structure Heap where
  pool : Nat
  length : Nat
  totalFree : Nat
  memory : OrdMap Nat Node
  high : OrdMap Nat Unit

namespace Heap

/-- `it->second` for an iterator at key `k`. -/
def get (h : Heap) (k : Nat) : Node := (h.memory.find? k).getD Node.blank

/-- Write through the iterator at key `k`. -/
def setNode (h : Heap) (k : Nat) (f : Node → Node) : Heap :=
  { h with memory := h.memory.modify k f }

/-- Write through an iterator, which must not be `end()`. -/
def setIter (h : Heap) (it : Iter) (f : Node → Node) : Heap :=
  match it with
  | some k => h.setNode k f
  | none => h

/-- `Node& node = memory[k]; f(node);`. -/
def upsertNode (h : Heap) (k : Nat) (f : Node → Node) : Heap :=
  { h with memory := h.memory.upsert k Node.blank f }

/-- `memory.erase(k)`. -/
def eraseNode (h : Heap) (k : Nat) : Heap :=
  { h with memory := h.memory.erase k }

/-- `memory.begin()`. -/
def begin (h : Heap) : Iter := h.memory.first?

/-- `isfree(node)`: a node is free unless its `next` is `memory.begin()`. -/
def isfree (h : Heap) (n : Node) : Bool := n.next != h.begin

/-- `islastfree(node)`. -/
def islastfree (n : Node) : Bool := n.next == none

/-- `isfirstfree(node)`. -/
def isfirstfree (n : Node) : Bool := n.prior == none

/-- `firstfree()`: `memory.begin()->second.next`. -/
def firstfree (h : Heap) : Iter := h.begin.bind fun k => (h.get k).next

/-- `lastfree()`: `memory.rbegin()->second.prior`. -/
def lastfree (h : Heap) : Iter := h.memory.last?.bind fun k => (h.get k).prior

/-- `high_split()`: `*high.begin()`. -/
def highSplit (h : Heap) : Nat := h.high.first?.getD guardHigh

/-- `remaining()`. -/
def remaining (h : Heap) : Nat := h.totalFree

/-- `insertafter(place, node)`: link `node` into the free list after `place`. -/
def insertafter (h : Heap) (place node : Nat) : Heap :=
  let next := (h.get place).next
  let h := h.setNode node (fun n => { n with next := next, prior := some place })
  let h := h.setNode place (fun n => { n with next := some node })
  h.setIter next (fun n => { n with prior := some node })

/-- `remove(node)`: unlink `node` from the free list and mark it used. -/
def remove (h : Heap) (node : Nat) : Heap :=
  let n := h.get node
  let h := h.setIter n.prior (fun p => { p with next := n.next })
  let n := h.get node
  let h := h.setIter n.next (fun q => { q with prior := n.prior })
  h.setNode node (fun m => { m with next := h.begin })

/-- `merge(low, high)`: absorb `high` into `low` when they are adjacent; the
result is the heap and the surviving iterator. -/
def merge (h : Heap) (low high : Nat) : Heap × Nat :=
  if low + (h.get low).len ≠ high then (h, high) else
  let hi := h.get high
  let h := h.setNode low (fun n => { n with len := n.len + hi.len, next := hi.next })
  let h := h.setIter hi.next (fun n => { n with prior := some low })
  (h.eraseNode high, low)

/-- The backward scan of `free`: `before = iterator; before--; while
(!isfree(before->second)) before--;`, the greatest free key below `ptr`. -/
def freeBefore (h : Heap) (ptr : Nat) : Option Nat :=
  h.memory.keys.reverse.find? fun k => decide (k < ptr) && h.isfree (h.get k)

/-- `free(ptr)`. -/
def free (h : Heap) (ptr : Nat) : Heap :=
  if ptr = 0 then h else
  match h.memory.find? ptr with
  | none => h
  | some node =>
      let h := { h with totalFree := h.totalFree + node.len }
      match h.freeBefore ptr with
      | none => h
      | some before =>
          let h := h.insertafter before ptr
          -- attempt compaction
          let (h, it) := h.merge before ptr
          let h :=
            match (h.get it).next with
            | some nx => (h.merge it nx).1
            | none => h
          { h with high := h.high.erase ptr }

/-- The body of `alloc` once the walk has found a node `c` that fits. -/
def allocAt (h : Heap) (bytes c : Nat) : Heap :=
  let len := (h.get c).len
  let h := { h with totalFree := h.totalFree - bytes }
  let h :=
    if bytes ≠ len then
      -- split node
      let remaining := c + bytes
      let h := h.upsertNode remaining (fun n => { n with len := len - bytes })
      let h := h.setNode c (fun n => { n with len := bytes })
      h.insertafter c remaining
    else h
  h.remove c

/-- The walk of `alloc` along `next`, from `current`. -/
def allocScan (h : Heap) (bytes : Nat) : Nat → Iter → Heap × Nat
  | 0, _ => (h, 0)
  | _ + 1, none => (h, 0)
  | fuel + 1, some c =>
      let n := h.get c
      if islastfree n then (h, 0)
      else if bytes ≤ n.len then (h.allocAt bytes c, c)
      else allocScan h bytes fuel n.next

/-- `alloc(bytes)`: the heap and the returned pointer, `0` for `nullptr`. -/
def alloc (h : Heap) (bytes : Nat) : Heap × Nat :=
  if bytes > h.totalFree ∨ bytes = 0 then (h, 0)
  else allocScan h bytes h.memory.size h.firstfree

/-- The body of `alloc_high` once the walk has found a node `c` that fits:
the heap and the pointer returned. -/
def allocHighAt (h : Heap) (bytes c : Nat) : Heap × Nat :=
  let len := (h.get c).len
  let h := { h with totalFree := h.totalFree - bytes }
  let (h, p) :=
    if bytes ≠ len then
      -- split node: the top of `c` becomes a used node
      let p := c + len - bytes
      let h := h.setNode c (fun n => { n with len := n.len - bytes })
      let h := h.upsertNode p (fun n => { n with len := bytes })
      (h.setNode p (fun n => { n with next := h.begin }), p)
    else (h.remove c, c)
  ({ h with high := h.high.insert p () }, p)

/-- The walk of `alloc_high` along `prior`, from `current`. -/
def allocHighScan (h : Heap) (bytes : Nat) : Nat → Iter → Heap × Nat
  | 0, _ => (h, 0)
  | _ + 1, none => (h, 0)
  | fuel + 1, some c =>
      let n := h.get c
      if isfirstfree n then (h, 0)
      else if bytes ≤ n.len then h.allocHighAt bytes c
      else allocHighScan h bytes fuel n.prior

/-- `alloc_high(bytes)`. -/
def allocHigh (h : Heap) (bytes : Nat) : Heap × Nat :=
  if bytes > h.totalFree ∨ bytes = 0 then (h, 0)
  else allocHighScan h bytes h.memory.size h.lastfree

/-! ## Reading the map back

Each write is described by its effect on `get` and on the key set, so that
later proofs never unfold it. -/

section Access

variable {h : Heap} {k j : Nat} {f : Node → Node}

@[simp] theorem setNode_pool : (h.setNode k f).pool = h.pool := rfl
@[simp] theorem setNode_length : (h.setNode k f).length = h.length := rfl
@[simp] theorem setNode_totalFree : (h.setNode k f).totalFree = h.totalFree := rfl
@[simp] theorem setNode_high : (h.setNode k f).high = h.high := rfl
@[simp] theorem upsertNode_pool : (h.upsertNode k f).pool = h.pool := rfl
@[simp] theorem upsertNode_length : (h.upsertNode k f).length = h.length := rfl
@[simp] theorem upsertNode_totalFree : (h.upsertNode k f).totalFree = h.totalFree := rfl
@[simp] theorem upsertNode_high : (h.upsertNode k f).high = h.high := rfl
@[simp] theorem setIter_some : h.setIter (some k) f = h.setNode k f := rfl

@[simp] theorem keys_setNode : (h.setNode k f).memory.keys = h.memory.keys :=
  OrdMap.keys_modify _ _ _

@[simp] theorem begin_setNode : (h.setNode k f).begin = h.begin := by
  simp [begin, OrdMap.first?]

theorem get_setNode (hk : k ∈ h.memory.keys) (f : Node → Node) (j : Nat) :
    (h.setNode k f).get j = if j = k then f (h.get k) else h.get j := by
  obtain ⟨v, hv⟩ := OrdMap.find?_of_mem_keys hk
  by_cases hjk : j = k
  · subst hjk
    simp [get, setNode, hv]
  · simp [get, setNode, hjk]

theorem get_setNode_self (hk : k ∈ h.memory.keys) (f : Node → Node) :
    (h.setNode k f).get k = f (h.get k) := by
  rw [get_setNode hk, if_pos rfl]

theorem get_setNode_of_ne (hjk : j ≠ k) (f : Node → Node) : (h.setNode k f).get j = h.get j := by
  simp [get, setNode, hjk]

theorem mem_keys_upsertNode (f : Node → Node) :
    j ∈ (h.upsertNode k f).memory.keys ↔ j = k ∨ j ∈ h.memory.keys :=
  OrdMap.mem_keys_upsert _ _ _ _ _

theorem get_upsertNode (k : Nat) (f : Node → Node) (j : Nat) :
    (h.upsertNode k f).get j = if j = k then f (h.get k) else h.get j := by
  by_cases hjk : j = k
  · subst hjk
    simp [get, upsertNode]
  · simp [get, upsertNode, hjk]

@[simp] theorem eraseNode_pool : (h.eraseNode k).pool = h.pool := rfl
@[simp] theorem eraseNode_length : (h.eraseNode k).length = h.length := rfl
@[simp] theorem eraseNode_totalFree : (h.eraseNode k).totalFree = h.totalFree := rfl
@[simp] theorem eraseNode_high : (h.eraseNode k).high = h.high := rfl

theorem mem_keys_eraseNode : j ∈ (h.eraseNode k).memory.keys ↔ j ≠ k ∧ j ∈ h.memory.keys :=
  OrdMap.mem_keys_erase _ _ _

theorem get_eraseNode (k j : Nat) :
    (h.eraseNode k).get j = if j = k then Node.blank else h.get j := by
  by_cases hjk : j = k
  · subst hjk
    simp [get, eraseNode]
  · simp [get, eraseNode, hjk]

theorem get_of_not_mem (hk : k ∉ h.memory.keys) : h.get k = Node.blank := by
  simp [get, (OrdMap.find?_eq_none_iff _ _).mpr hk]

end Access

end Heap

/-- The constructor `SmallHeap(base, length)`: the guard at `0`, one free
node for the whole pool and the guard at `0xFFFFFFFFFFFFFFFF`. -/
def create (base length : Nat) : Heap where
  pool := base
  length := length
  totalFree := length
  memory := ((OrdMap.empty.assign 0 ⟨0, some base, none⟩).assign base
    ⟨length, some guardHigh, some 0⟩).assign guardHigh ⟨0, none, some base⟩
  high := OrdMap.empty.assign guardHigh ()

end SmallHeap
