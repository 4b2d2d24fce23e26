import Rocr.Lib.OrdMap

/-!
# SVM prefetch ranges

`Runtime::SvmPrefetch` records each asynchronous prefetch as a `PrefetchOp`
and its page-aligned range in `prefetch_map_`, keyed by base address.  A new
range first trims or removes the parts of older ranges it covers: a range
overlapped at its end is shortened, one overlapped at its start is erased
and its tail reinserted, and the ranges of one op stay linked in a doubly
linked list threaded through the map (`prev`, `next`, `end()` at both ends),
headed by the op's `prefetch_map_entry`.  When the prefetch completes, its
chain is walked and erased.  `Runtime::GetSVMPrefetchAgent` reads the map to
find the one node a query range is prefetched to, asking KFD
(`hsaKmtSVMGetAttr`, an oracle here) about the holes between the ranges.

Iterators are keys (`none` for `end()`), and ops are numbered in the order
they are made.  The trimming loop starts one entry before the query and stops
at the first entry at or above its end; a zero-length query has a start equal
to its end, so it trims nothing, and its insertion finds the key of a range
starting at the same page already present (`zero_length_prefetch_collides`).
The scan of `GetSVMPrefetchAgent` takes its expected node from the first entry
it visits, before checking that the entry meets the query
(`disjoint_range_changes_agent`).
-/

namespace Prefetch

/-- `PrefetchRange`: the bytes of the range, its op, and its neighbours in
the op's chain. -/
structure PrefetchRange where
  bytes : Nat
  op : Nat
  prev : Option Nat
  next : Option Nat
deriving DecidableEq, Repr

/-- The fields of `PrefetchOp` the map code reads and writes. -/
structure PrefetchOp where
  base : Nat
  size : Nat
  nodeId : UInt32
  prefetchMapEntry : Option Nat
deriving DecidableEq, Repr

/-- `prefetch_map_` and the live prefetch ops. -/
structure State where
  prefetchMap : OrdMap Nat PrefetchRange
  ops : OrdMap Nat PrefetchOp
  nextOp : Nat

def init : State := ⟨.empty, .empty, 0⟩

/-- `AlignDown(x, a)`. -/
def alignDown (x a : Nat) : Nat := x / a * a

/-- `AlignUp(x, a)`. -/
def alignUp (x a : Nat) : Nat := (x + a - 1) / a * a

/-- `upper_bound(base)`, stepped back once unless it is `begin()`. -/
def scanStart {ν : Type} (m : OrdMap Nat ν) (base : Nat) : Option Nat :=
  match m.upperBound base with
  | some k => if m.first? = some k then some k else m.below k
  | none => m.last?

namespace State

/-- The split in the trimming loop: the tail `[iend, iend + bytes)` of the
range at `k` is inserted after it in its op's chain. -/
def splitAt (s : State) (k iend bytes : Nat) : State :=
  match s.prefetchMap.find? k with
  | none => s
  | some r =>
    -- `it` is the node under `iend`, the new one or one already there
    let m := s.prefetchMap.insert iend ⟨bytes, r.op, none, none⟩
    let m := m.modify iend fun x => { x with prev := some k, next := r.next }
    let m := m.modify k fun x => { x with next := some iend }
    let m := match r.next with
      | some n => m.modify n fun x => { x with prev := some iend }
      | none => m
    { s with prefetchMap := m }

/-- The range at `k` leaves its op's chain and the map. -/
def unlink (s : State) (k : Nat) : State :=
  match s.prefetchMap.find? k with
  | none => s
  | some r =>
    match r.prev with
    -- the first node of its chain: the op's entry moves to the next one
    | none =>
      let m := match r.next with
        | some n => s.prefetchMap.modify n fun x => { x with prev := none }
        | none => s.prefetchMap
      { s with prefetchMap := m.erase k,
               ops := s.ops.modify r.op fun o => { o with prefetchMapEntry := r.next } }
    | some p =>
      let m := s.prefetchMap.modify p fun x => { x with next := r.next }
      let m := match r.next with
        | some n => m.modify n fun x => { x with prev := some p }
        | none => m
      { s with prefetchMap := m.erase k }

/-- The loop `while (start != stop)` of `SvmPrefetch` over the ranges that
may meet `[base, endAddr)`. -/
def trimLoop (base endAddr : Nat) (stop : Option Nat) : Nat → State → Option Nat → State
  | 0, s, _ => s
  | fuel + 1, s, start =>
    if start = stop then s
    else
      match start with
      | none => s
      | some k =>
        match s.prefetchMap.find? k with
        | none => s
        | some r =>
          let startEnd := k + r.bytes
          let ibase := max k base
          let iend := min startEnd endAddr
          if ibase < iend then
            let s := if iend < startEnd then s.splitAt k iend (startEnd - iend) else s
            -- the part before the new range stays, shortened
            if k < ibase then
              let s := { s with prefetchMap := s.prefetchMap.modify k fun x => { x with bytes := ibase - k } }
              trimLoop base endAddr stop fuel s (s.prefetchMap.upperBound k)
            else
              let s := s.unlink k
              trimLoop base endAddr stop fuel s (s.prefetchMap.upperBound k)
          else trimLoop base endAddr stop fuel s (s.prefetchMap.upperBound k)

/-- `SvmPrefetch` up to the scheduling of the prefetch: the new op, the
trimmed map and the new range; the flag is whether the insertion of the new
range succeeds (`ret.second`). -/
def svmPrefetch (s : State) (ptr size : Nat) (nodeId : UInt32) : State × Bool :=
  let base := alignDown ptr 4096
  let endAddr := alignUp (ptr + size) 4096
  let len := endAddr - base
  let op := s.nextOp
  let s := { s with ops := s.ops.assign op ⟨base, len, nodeId, none⟩, nextOp := op + 1 }
  let stop := s.prefetchMap.lowerBound endAddr
  -- every pass moves to a larger key, and the splits add at most one
  let s := trimLoop base endAddr stop (2 * s.prefetchMap.size + 2) s (scanStart s.prefetchMap base)
  let inserted := s.prefetchMap.find? base = none
  let m := s.prefetchMap.insert base ⟨len, op, none, none⟩
  let m := m.modify base fun x => { x with prev := none, next := none }
  ({ s with prefetchMap := m, ops := s.ops.modify op fun o => { o with prefetchMapEntry := some base } },
    inserted)

/-- A prefetch of `[0x1000, 0x2000)`, then one of zero bytes at `0x1000` while
the first is outstanding: the second trims nothing, its insertion fails, and
its op takes the first op's range as the head of its own chain. -/
theorem zero_length_prefetch_collides :
    (init.svmPrefetch 0x1000 0x1000 1).2 = true ∧
    ((init.svmPrefetch 0x1000 0x1000 1).1.svmPrefetch 0x1000 0 2).2 = false ∧
    ((init.svmPrefetch 0x1000 0x1000 1).1.svmPrefetch 0x1000 0 2).1.ops.find? 1 =
      some ⟨0x1000, 0, 2, some 0x1000⟩ ∧
    ((init.svmPrefetch 0x1000 0x1000 1).1.svmPrefetch 0x1000 0 2).1.prefetchMap.find? 0x1000 =
      some ⟨0x1000, 0, none, none⟩ := by
  decide

/-- The walk of `removePrefetchRanges` down a chain. -/
def removeLoop : Nat → OrdMap Nat PrefetchRange → Option Nat → OrdMap Nat PrefetchRange
  | 0, m, _ => m
  | _ + 1, m, none => m
  | fuel + 1, m, some k =>
    match m.find? k with
    | none => m
    | some r => removeLoop fuel (m.erase k) r.next

/-- The completion of prefetch `op`: its chain is erased and the op deleted. -/
def complete (s : State) (op : Nat) : State :=
  match s.ops.find? op with
  | none => s
  | some o =>
    { s with prefetchMap := removeLoop (s.prefetchMap.size + 1) s.prefetchMap o.prefetchMapEntry,
             ops := s.ops.erase op }

/-- The node of the op a range belongs to. -/
def nodeOf (s : State) (r : PrefetchRange) : UInt32 := ((s.ops.find? r.op).map PrefetchOp.nodeId).getD 0

/-- `prefetch_node` before any answer: `-2`. -/
def unknownNode : UInt32 := 0xFFFFFFFE

/-- The scan of `GetSVMPrefetchAgent` over the ranges from `start` to `stop`:
`none` when it returns `nullptr`, otherwise the untrimmed rest of the query
and the holes met so far. -/
def scanLoop (s : State) (endAddr : Nat) (stop : Option Nat) (prefetchNode : UInt32) :
    Nat → Option Nat → Nat → List (Nat × Nat) → Option (Nat × List (Nat × Nat))
  | 0, _, base, holes => some (base, holes)
  | fuel + 1, start, base, holes =>
    if start = stop then some (base, holes)
    else
      match start with
      | none => some (base, holes)
      | some k =>
        match s.prefetchMap.find? k with
        | none => some (base, holes)
        | some r =>
          let startEnd := k + r.bytes
          let ibase := max base k
          let iend := min endAddr startEnd
          if ibase < iend then
            if prefetchNode ≠ s.nodeOf r then none
            else
              let holes := if base < ibase then holes ++ [(base, ibase - base)] else holes
              scanLoop s endAddr stop prefetchNode fuel (s.prefetchMap.upperBound k) iend holes
          else scanLoop s endAddr stop prefetchNode fuel (s.prefetchMap.upperBound k) base holes

/-- The loop over the holes: KFD's answer for each (`-1` for none or mixed)
must agree with the node so far. -/
def holesLoop (loc : Nat → Nat → UInt32) : List (Nat × Nat) → UInt32 → Option UInt32
  | [], node => some node
  | (b, len) :: hs, node =>
    let v := loc b len
    if v = 0xFFFFFFFF then none
    else
      let node := if node = unknownNode then v else node
      if node ≠ v then none else holesLoop loc hs node

/-- `GetSVMPrefetchAgent`: the node whose first agent it returns, or `none`
for `nullptr`; `loc b len` is what `hsaKmtSVMGetAttr` reports for the hole
`[b, b + len)`. -/
def getSVMPrefetchAgent (s : State) (ptr size : Nat) (loc : Nat → Nat → UInt32) : Option UInt32 :=
  let base := alignDown ptr 4096
  let endAddr := alignUp (ptr + size) 4096
  let start := scanStart s.prefetchMap base
  let stop := s.prefetchMap.lowerBound endAddr
  -- the expected node is taken from the first entry visited
  let prefetchNode :=
    if start ≠ stop then
      match start with
      | some k => ((s.prefetchMap.find? k).map s.nodeOf).getD unknownNode
      | none => unknownNode
    else unknownNode
  match scanLoop s endAddr stop prefetchNode (s.prefetchMap.size + 1) start base [] with
  | none => none
  | some (base, holes) =>
    let holes := if base < endAddr then holes ++ [(base, endAddr - base)] else holes
    holesLoop loc holes prefetchNode

/-- A range `[0, 0x1000)` prefetched to node 1 lies next to the query
`[0x1000, 0x2000)` without meeting it, and KFD places the query on node 2:
with the range present the query reports `nullptr`, without it node 2. -/
theorem disjoint_range_changes_agent :
    ((init.svmPrefetch 0 0x1000 1).1.getSVMPrefetchAgent 0x1000 0x1000 fun _ _ => 2) = none ∧
    (init.svmPrefetch 0 0x1000 1).1.prefetchMap.find? 0 = some ⟨0x1000, 0, none, none⟩ ∧
    (init.getSVMPrefetchAgent 0x1000 0x1000 fun _ _ => 2) = some 2 := by
  decide

end State

end Prefetch
