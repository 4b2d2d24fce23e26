import Rocr.Lib.MultiMap
import Rocr.Lib.OrdMap

/-!
# The scratch cache of a GPU agent

`ScratchCache` (`scratch_cache.h`) keeps the scratch allocations of an
agent's queues in a `std::multimap` keyed by size, each node free, allocated,
or allocated with a trim pending, and one reserved node outside the map.
`available_bytes_` counts the bytes of the free nodes.  The cache gives a
node's memory back through its deallocator, `GpuAgent::ReleaseScratch`, which
returns it to the scratch pool and, for a node recorded as large, takes its
size off `scratch_used_large_`: here every cache call returns the
deallocations it makes (`Release`), and the agent applies them in order.

`GpuAgent::AcquireQueueMainScratch` decides whether a request is large, tries
the cache, then three new pool allocations with the cache trimmed between
them and the reserved node as the last resort, then reduced occupancy.  The
scratch pool and the driver are oracles: the answer to each allocation
attempt (`PoolAnswer`) is an argument of the call.

A queue's `ScratchInfo` is kept per queue (`System`), and the calls are
operations on the agent and one queue (`Op`).  The size of the large
allocations the agent counts agrees with the nodes recorded as large until
`use_reserved` records a large request on the reserved node without counting
it; `free_reserve` at teardown then takes its size off the count
(`reserved_large_teardown_wraps`).
-/

namespace Scratch

/-- `node`: a scratch allocation, its base address (`0` for `nullptr`),
whether it is large, and its `STATE` bits. -/
structure Node where
  base : Nat
  large : Bool
  state : UInt32
deriving DecidableEq, Repr

namespace Node

/-- `FREE` of `node::STATE`. -/
def State.free : UInt32 := 0

/-- `ALLOC` of `node::STATE`. -/
def State.alloc : UInt32 := 1

/-- `TRIM` of `node::STATE`. -/
def State.trim : UInt32 := 2

def isFree (n : Node) : Bool := n.state == State.free

def trimPending (n : Node) : Bool := n.state == (State.alloc ||| State.trim)

def trim (n : Node) : Node := { n with state := n.state ||| State.trim }

def free (n : Node) : Node := { n with state := State.free }

def alloc (n : Node) : Node := { n with state := State.alloc }

end Node

/-- The fields of `ScratchInfo` the scratch calls read and write.  A main
scratch node of `none` is `map.end()`, which marks the reserved node. -/
structure ScratchInfo where
  dispatchSize : Nat
  large : Bool
  useOnceLimit : Nat
  retry : Bool
  cooperative : Bool
  mainSize : Nat
  mainWavesPerGroup : Nat
  mainQueueBase : Nat
  mainScratchNode : Option Nat
  altSize : Nat
  altQueueBase : Nat
  altScratchNode : Nat
deriving DecidableEq, Repr

/-- A queue's scratch before any scratch call. -/
def ScratchInfo.empty : ScratchInfo := ⟨0, false, 0, false, false, 0, 0, 0, none, 0, 0, 0⟩

/-- The arguments of one call of the deallocator. -/
structure Release where
  base : Nat
  size : Nat
  large : Bool
deriving DecidableEq, Repr

/-- The cache: `map`, `available_bytes_` and `reserved_`. -/
structure ScratchCache where
  map : MultiMap Nat Node
  availableBytes : UInt64
  reserved : Nat × Node

namespace ScratchCache

/-- An empty cache, its reserved node a default `node` of no bytes. -/
def init : ScratchCache := ⟨.empty, 0, (0, ⟨0, false, Node.State.free⟩)⟩

/-- `size - 1` in `size_t`: a zero size wraps to the largest key. -/
def predSize (size : Nat) : Nat := if size = 0 then 2 ^ 64 - 1 else size - 1

/-- The first free small node of exactly `size` bytes at or after
`upper_bound(size - 1)`: the loop of `allocAlt` and of `allocMain` for a small
request. -/
def findSmall (c : ScratchCache) (size : Nat) : Option (MultiMap.Node Nat Node) :=
  ((c.map.fromUpperBound (predSize size)).takeWhile fun n => n.key == size).find?
    fun n => n.value.isFree && !n.value.large

/-- Mark node `n` allocated and take its bytes off `available_bytes_`. -/
def take (c : ScratchCache) (n : MultiMap.Node Nat Node) : ScratchCache :=
  { c with map := c.map.modify n.id Node.alloc, availableBytes := c.availableBytes - UInt64.ofNat n.key }

/-- `allocMain`: a small request takes a free small node of exactly its size,
a large one the first free node not below its size. -/
def allocMain (c : ScratchCache) (info : ScratchInfo) : Option (ScratchCache × ScratchInfo) :=
  let found :=
    if c.map.fromUpperBound (predSize info.mainSize) = [] then none
    else if !info.large then c.findSmall info.mainSize
    else (c.map.fromUpperBound (predSize info.mainSize)).find? fun n => n.value.isFree
  found.map fun n =>
    (c.take n, { info with mainQueueBase := n.value.base, mainScratchNode := some n.id })

/-- The release of a node of the map, shared by `freeMain` and `freeAlt`: a
node whose trim is pending is deallocated and erased, another is marked
free. -/
def freeNode (c : ScratchCache) (i : Nat) : ScratchCache × List Release :=
  match c.map.get? i with
  -- an iterator to no node: the callers never pass one
  | none => (c, [])
  | some (size, n) =>
    if n.trimPending then ({ c with map := c.map.erase i }, [⟨n.base, size, n.large⟩])
    else ({ c with map := c.map.modify i Node.free, availableBytes := c.availableBytes + UInt64.ofNat size }, [])

/-- `freeMain`: the reserved node is only marked free. -/
def freeMain (c : ScratchCache) (info : ScratchInfo) : ScratchCache × List Release :=
  match info.mainScratchNode with
  | none =>
    ({ c with reserved := (c.reserved.1, c.reserved.2.free),
              availableBytes := c.availableBytes + UInt64.ofNat c.reserved.1 }, [])
  | some i => c.freeNode i

/-- A new allocated node, shared by `insertMain` and `insertAlt`. -/
def insertNode (c : ScratchCache) (size base : Nat) (large : Bool) : ScratchCache × Nat :=
  let (map, it) := c.map.insert size (Node.alloc ⟨base, large, Node.State.free⟩)
  ({ c with map }, it)

def insertMain (c : ScratchCache) (info : ScratchInfo) : ScratchCache × ScratchInfo :=
  let (c, it) := c.insertNode info.mainSize info.mainQueueBase info.large
  (c, { info with mainScratchNode := some it })

/-- The loop of `trim` over the nodes still to visit. -/
def trimLoop (trimNodesInUse : Bool) : List (MultiMap.Node Nat Node) → ScratchCache →
    ScratchCache × List Release
  | [], c => (c, [])
  | n :: ns, c =>
    if n.value.isFree then
      let c := { c with availableBytes := c.availableBytes - UInt64.ofNat n.key, map := c.map.erase n.id }
      let (c, rs) := trimLoop trimNodesInUse ns c
      (c, ⟨n.value.base, n.key, n.value.large⟩ :: rs)
    else
      let c := if trimNodesInUse then { c with map := c.map.modify n.id Node.trim } else c
      trimLoop trimNodesInUse ns c

/-- `trim`: free nodes are deallocated, the others marked for trimming when
`trimNodesInUse`; returns whether the map was nonempty. -/
def trim (c : ScratchCache) (trimNodesInUse : Bool) : (ScratchCache × List Release) × Bool :=
  (trimLoop trimNodesInUse c.map.nodes c, !c.map.nodes.isEmpty)

/-- `allocAlt`: a free small node of exactly the requested size. -/
def allocAlt (c : ScratchCache) (info : ScratchInfo) : Option (ScratchCache × ScratchInfo) :=
  let found := if c.map.fromUpperBound (predSize info.altSize) = [] then none else c.findSmall info.altSize
  found.map fun n => (c.take n, { info with altQueueBase := n.value.base, altScratchNode := n.id })

def freeAlt (c : ScratchCache) (info : ScratchInfo) : ScratchCache × List Release :=
  c.freeNode info.altScratchNode

def insertAlt (c : ScratchCache) (info : ScratchInfo) : ScratchCache × ScratchInfo :=
  let (c, it) := c.insertNode info.altSize info.altQueueBase false
  (c, { info with altScratchNode := it })

def freeBytes (c : ScratchCache) : UInt64 := c.availableBytes

def reservedBytes (c : ScratchCache) : Nat := c.reserved.1

/-- `reserve`: a free, small reserved node of `bytes` bytes. -/
def reserve (c : ScratchCache) (bytes base : Nat) : ScratchCache :=
  { c with availableBytes := c.availableBytes + UInt64.ofNat bytes,
           reserved := (bytes, ⟨base, false, Node.State.free⟩) }

/-- `use_reserved`: the reserved node, if free and large enough, takes the
request, and its `large` flag with it. -/
def useReserved (c : ScratchCache) (info : ScratchInfo) : Option (ScratchCache × ScratchInfo) :=
  if !c.reserved.2.isFree || decide (info.mainSize > c.reserved.1) then none
  else
    let n := Node.alloc { c.reserved.2 with large := info.large }
    some ({ c with reserved := (c.reserved.1, n), availableBytes := c.availableBytes - UInt64.ofNat c.reserved.1 },
          { info with mainQueueBase := n.base, mainScratchNode := none })

/-- `free_reserve`: the reserved node is deallocated with its `large` flag;
its state bits are left as they are. -/
def freeReserve (c : ScratchCache) : ScratchCache × List Release :=
  let rs : List Release := if c.reserved.1 ≠ 0 then [⟨c.reserved.2.base, c.reserved.1, c.reserved.2.large⟩] else []
  ({ c with availableBytes := c.availableBytes - UInt64.ofNat c.reserved.1,
            reserved := (0, { c.reserved.2 with base := 0, large := false }) }, rs)

end ScratchCache

/-- `MAX_WAVE_SCRATCH`, the largest scratch of one wave. -/
def maxWaveScratch : Nat := 8387584

/-- `AlignUp(x, a)`. -/
def alignUp (x a : Nat) : Nat := (x + a - 1) / a * a

/-- The scratch state of the agent: the cache, `scratch_used_large_`, and the
deallocations made so far, in order. -/
structure GpuAgent where
  scratchCache : ScratchCache
  scratchUsedLarge : UInt64
  released : List Release

namespace GpuAgent

def init : GpuAgent := ⟨ScratchCache.init, 0, []⟩

/-- `ReleaseScratch`: the memory goes back to the pool, and a large node's
size comes off `scratch_used_large_`. -/
def releaseScratch (a : GpuAgent) (r : Release) : GpuAgent :=
  { a with scratchUsedLarge := if r.large then a.scratchUsedLarge - UInt64.ofNat r.size else a.scratchUsedLarge,
           released := a.released ++ [r] }

/-- A cache call that deallocates: the new cache, then each deallocation. -/
def withCache (a : GpuAgent) (r : ScratchCache × List Release) : GpuAgent :=
  r.2.foldl releaseScratch { a with scratchCache := r.1 }

/-- The answer of the pool and the driver to one allocation attempt. -/
structure PoolAnswer where
  /-- What `scratch_pool_.alloc` or `alloc_high` returns, `0` for `nullptr`. -/
  base : Nat
  /-- Whether the base lies above `scratch_pool_.high_split()`. -/
  aboveSplit : Bool
  /-- Whether the agent has the full profile or `hsaKmtMapMemoryToGPU` succeeds. -/
  mapped : Bool
deriving DecidableEq, Repr

/-- The next answer; once the given answers run out, every attempt fails. -/
def nextAnswer : List PoolAnswer → PoolAnswer × List PoolAnswer
  | [] => (⟨0, false, false⟩, [])
  | p :: ps => (p, ps)

/-- What `AcquireQueueMainScratch` and `AcquireQueueAltScratch` read of the
agent and the runtime besides the cache. -/
structure AgentEnv where
  /-- `scratch_pool_.size()` and `scratch_pool_.remaining()`. -/
  poolSize : Nat
  poolRemaining : Nat
  /-- `isa_->GetMajorVersion()`. -/
  majorVersion : Nat
  noScratchReclaim : Bool
  noScratchThreadLimiter : Bool
  queueScratchLen : Nat
  /-- The scratch of one wave, main and alternate, aligned to 1024. -/
  sizePerWave : Nat
  altSizePerWave : Nat
  /-- `NumFComputeCores / NumSIMDPerCU` and `NumShaderBanks / NumXcc`. -/
  numCus : Nat
  sePerXcc : Nat
  /-- Whether `AddScratchNotifier` succeeds. -/
  notifierAdded : Bool
deriving DecidableEq, Repr

/-- The attempts `for (int i = 0; i < 3; i++)` of `AcquireQueueMainScratch`:
`.inl` when the lambda returns, `.inr` when the loop runs out. -/
def mainAttempts (large : Bool) : List Nat → GpuAgent → ScratchInfo → List PoolAnswer →
    (GpuAgent × ScratchInfo) ⊕ (GpuAgent × ScratchInfo × List PoolAnswer)
  | [], a, info, answers => .inr (a, info, answers)
  | i :: is, a, info, answers =>
    let (p, answers) := nextAnswer answers
    let info := { info with mainQueueBase := p.base, large := large || p.aboveSplit }
    if p.base ≠ 0 ∧ p.mapped then
      let used := if info.large then a.scratchUsedLarge + UInt64.ofNat info.mainSize else a.scratchUsedLarge
      let (c, info) := a.scratchCache.insertMain info
      .inl ({ a with scratchCache := c, scratchUsedLarge := used }, info)
    else
      let info := { info with mainQueueBase := 0 }
      -- the first failure trims the free nodes, the second every node, the
      -- third tries the reserved node
      match i with
      | 0 => mainAttempts large is (a.withCache (a.scratchCache.trim false).1) info answers
      | 1 => mainAttempts large is (a.withCache (a.scratchCache.trim true).1) info answers
      | _ =>
        match a.scratchCache.useReserved info with
        | some (c, info) => .inl ({ a with scratchCache := c }, info)
        | none => mainAttempts large is a info answers

/-- The loop `while (waves_per_cu != 0)` of `AcquireQueueMainScratch`, one
pool answer an iteration; once the answers run out the remaining attempts
fail and change nothing. -/
def reduceOccupancy (env : AgentEnv) (info : ScratchInfo) : List PoolAnswer → GpuAgent → UInt64 →
    GpuAgent × ScratchInfo
  | [], a, _ => (a, info)
  | p :: ps, a, wavesPerCu =>
    if wavesPerCu = 0 then (a, info)
    else
      let size := wavesPerCu.toNat * env.numCus * env.sizePerWave
      if p.base ≠ 0 ∧ p.mapped then
        let info := { info with mainQueueBase := p.base, mainSize := size, large := true }
        let (c, info) := a.scratchCache.insertMain info
        ({ a with scratchCache := c, scratchUsedLarge := a.scratchUsedLarge + UInt64.ofNat size }, info)
      else
        let step :=
          if wavesPerCu.toNat ≤ info.mainWavesPerGroup ∧ env.sePerXcc < info.mainWavesPerGroup ∧
              info.mainWavesPerGroup % env.sePerXcc = 0 then env.sePerXcc
          else info.mainWavesPerGroup
        reduceOccupancy env info ps a (wavesPerCu - UInt64.ofNat step)

/-- `AcquireQueueMainScratch`, from the size check on. -/
def acquireQueueMainScratch (a : GpuAgent) (env : AgentEnv) (info : ScratchInfo)
    (answers : List PoolAnswer) : GpuAgent × ScratchInfo :=
  let info := { info with mainSize := if info.mainSize = 0 then env.queueScratchLen else info.mainSize,
                          retry := false }
  if env.sizePerWave > maxWaveScratch then (a, info)
  else
    let smallLimit := env.poolSize >>> 3
    let large := decide (info.mainSize > info.useOnceLimit) ||
      decide (UInt64.ofNat env.poolSize - UInt64.ofNat env.poolRemaining - a.scratchCache.freeBytes +
        UInt64.ofNat info.mainSize > UInt64.ofNat smallLimit)
    -- legacy devices and a disabled reclaim use small scratch only
    let useReclaim := !(decide (env.majorVersion < 8) || env.noScratchReclaim)
    let large := large && useReclaim
    let info := { info with mainSize := alignUp (if large then info.dispatchSize else info.mainSize) 4096,
                            large := large }
    match a.scratchCache.allocMain info with
    | some (c, info) => ({ a with scratchCache := c }, info)
    | none =>
      match mainAttempts large [0, 1, 2] a info answers with
      | .inl r => r
      | .inr (a, info, answers) =>
        if a.scratchUsedLarge ≠ 0 then (a, { info with retry := env.notifierAdded })
        else if info.cooperative || !useReclaim || env.noScratchThreadLimiter then (a, info)
        else
          let totalWaves := info.mainSize / env.sizePerWave
          let wavesPerCu := alignUp (totalWaves / env.numCus) info.mainWavesPerGroup
          reduceOccupancy env info answers a (UInt64.ofNat wavesPerCu)

def releaseQueueMainScratch (a : GpuAgent) (info : ScratchInfo) : GpuAgent × ScratchInfo :=
  if info.mainQueueBase = 0 then (a, info)
  else (a.withCache (a.scratchCache.freeMain info), { info with mainQueueBase := 0 })

/-- The attempts `for (int i = 0; i < 2; i++)` of `AcquireQueueAltScratch`. -/
def altAttempts : List Nat → GpuAgent → ScratchInfo → List PoolAnswer → GpuAgent × ScratchInfo
  | [], a, info, _ => (a, info)
  | i :: is, a, info, answers =>
    let (p, answers) := nextAnswer answers
    let info := { info with altQueueBase := p.base }
    if p.base ≠ 0 ∧ p.mapped then
      let (c, info) := a.scratchCache.insertAlt info
      ({ a with scratchCache := c }, info)
    else
      altAttempts is (a.withCache (a.scratchCache.trim (i ≠ 0)).1) { info with altQueueBase := 0 } answers

/-- `AcquireQueueAltScratch`, from the size check on. -/
def acquireQueueAltScratch (a : GpuAgent) (env : AgentEnv) (info : ScratchInfo)
    (answers : List PoolAnswer) : GpuAgent × ScratchInfo :=
  if env.altSizePerWave > maxWaveScratch then (a, info)
  else
    let info := { info with altSize := alignUp info.altSize 4096 }
    match a.scratchCache.allocAlt info with
    | some (c, info) => ({ a with scratchCache := c }, info)
    | none => altAttempts [0, 1] a info answers

def releaseQueueAltScratch (a : GpuAgent) (info : ScratchInfo) : GpuAgent × ScratchInfo :=
  if info.altQueueBase = 0 then (a, info)
  else (a.withCache (a.scratchCache.freeAlt info), { info with altQueueBase := 0 })

/-- `ReserveScratch`: `reservedSz` is the configured limit, clamped to the
device's, `available` what `hsaKmtAvailableMemory` reports, and `base` the
pool allocation when it is mapped (`none`: the call throws before reserving). -/
def reserveScratch (a : GpuAgent) (reservedSz available : Nat) (base : Option Nat) : GpuAgent :=
  if a.scratchCache.reservedBytes = 0 ∧ reservedSz ≠ 0 ∧ available > 8 * reservedSz then
    match base with
    | some b => { a with scratchCache := a.scratchCache.reserve reservedSz b }
    | none => a
  else a

/-- `GpuAgent::Trim`, past the queues' own reclaim. -/
def trim (a : GpuAgent) : GpuAgent := a.withCache (a.scratchCache.trim false).1

/-- The scratch part of `~GpuAgent`: `trim(true)`, then `free_reserve`. -/
def teardown (a : GpuAgent) : GpuAgent :=
  let a := a.withCache (a.scratchCache.trim true).1
  a.withCache a.scratchCache.freeReserve

end GpuAgent

/-- What a queue sets in its `ScratchInfo` before `AcquireQueueMainScratch`. -/
structure MainRequest where
  mainSize : Nat
  dispatchSize : Nat
  useOnceLimit : Nat
  mainWavesPerGroup : Nat
  cooperative : Bool
deriving DecidableEq, Repr

/-- A scratch call of one queue, or of the agent, with the oracles' answers. -/
inductive Op where
  | acquireMain (q : Nat) (request : MainRequest) (env : GpuAgent.AgentEnv)
      (answers : List GpuAgent.PoolAnswer)
  | releaseMain (q : Nat)
  | acquireAlt (q : Nat) (altSize : Nat) (env : GpuAgent.AgentEnv) (answers : List GpuAgent.PoolAnswer)
  | releaseAlt (q : Nat)
  | reserveScratch (reservedSz available : Nat) (base : Option Nat)
  | trim
  | teardown

/-- The agent and the `ScratchInfo` of each queue. -/
structure System where
  agent : GpuAgent
  queues : OrdMap Nat ScratchInfo

namespace System

def init : System := ⟨GpuAgent.init, .empty⟩

/-- The scratch of queue `q`. -/
def info (s : System) (q : Nat) : ScratchInfo := (s.queues.find? q).getD ScratchInfo.empty

/-- The agent and queue `q` after a call on them. -/
def put (s : System) (q : Nat) (r : GpuAgent × ScratchInfo) : System :=
  ⟨r.1, s.queues.assign q r.2⟩

def step (s : System) : Op → System
  | .acquireMain q r env answers =>
    let info := { (s.info q) with
      mainSize := r.mainSize, dispatchSize := r.dispatchSize, useOnceLimit := r.useOnceLimit,
      mainWavesPerGroup := r.mainWavesPerGroup, cooperative := r.cooperative }
    s.put q (s.agent.acquireQueueMainScratch env info answers)
  | .releaseMain q => s.put q (s.agent.releaseQueueMainScratch (s.info q))
  | .acquireAlt q altSize env answers =>
    s.put q (s.agent.acquireQueueAltScratch env { (s.info q) with altSize } answers)
  | .releaseAlt q => s.put q (s.agent.releaseQueueAltScratch (s.info q))
  | .reserveScratch reservedSz available base =>
    { s with agent := s.agent.reserveScratch reservedSz available base }
  | .trim => { s with agent := s.agent.trim }
  | .teardown => { s with agent := s.agent.teardown }

def run (s : System) (ops : List Op) : System := ops.foldl step s

/-- A large request served by the reserved node: reserve 1 MiB, ask for 2 MiB
above the single-use limit with every pool attempt failing, release, and
tear the agent down.  The reserved node is recorded large with nothing
counted, and teardown takes its size off `scratch_used_large_`, which wraps. -/
theorem reserved_large_teardown_wraps :
    (init.run [.reserveScratch 0x100000 0x1000000 (some 0x1000),
      .acquireMain 0 ⟨0x200000, 0x1000, 0x100000, 4, false⟩
        ⟨0x4000000, 0x4000000, 9, false, false, 0x10000, 1024, 1024, 64, 4, false⟩ []]).agent.scratchCache.reserved =
        (0x100000, ⟨0x1000, true, Node.State.alloc⟩) ∧
    (init.run [.reserveScratch 0x100000 0x1000000 (some 0x1000),
      .acquireMain 0 ⟨0x200000, 0x1000, 0x100000, 4, false⟩
        ⟨0x4000000, 0x4000000, 9, false, false, 0x10000, 1024, 1024, 64, 4, false⟩ []]).agent.scratchUsedLarge = 0 ∧
    (init.run [.reserveScratch 0x100000 0x1000000 (some 0x1000),
      .acquireMain 0 ⟨0x200000, 0x1000, 0x100000, 4, false⟩
        ⟨0x4000000, 0x4000000, 9, false, false, 0x10000, 1024, 1024, 64, 4, false⟩ [],
      .releaseMain 0, .teardown]).agent.released = [⟨0x1000, 0x100000, true⟩] ∧
    (init.run [.reserveScratch 0x100000 0x1000000 (some 0x1000),
      .acquireMain 0 ⟨0x200000, 0x1000, 0x100000, 4, false⟩
        ⟨0x4000000, 0x4000000, 9, false, false, 0x10000, 1024, 1024, 64, 4, false⟩ [],
      .releaseMain 0, .teardown]).agent.scratchUsedLarge = 0 - 0x100000 := by
  decide

end System

end Scratch
