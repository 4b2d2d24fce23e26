import Mathlib

/-!
# Performance counter traces

`hsaKmtPmcRegisterTrace` sorts the privileged counters it is given by block,
checks each block against its concurrent limit, and lays a `perf_trace` out
in one `calloc`: the header, one `perf_trace_block` per block, then the
blocks' `counter_id` arrays and their `perf_event_fd` arrays, each block
indexing the two flat arrays through a running offset.  The `TraceId` it
returns is the allocation's address, and the other six entry points
dereference it.

The memory is a heap of live blocks whose `free` and whose reads fault on an
address that is not live, so that a call that touches only live memory is a
call that does not fault.  The layout is as intended for every distribution
of counters over blocks (`registerTrace_layout`): the blocks are the
distinct block indices in increasing order, each with its counters in input
order, and the arrays are pairwise disjoint inside the allocation.  But
`hsaKmtPmcRegisterTrace` frees the trace before it returns `SUCCESS`
(`registerTrace_frees`), so every later call on the `TraceId` that gets past
its argument checks reads freed memory (`call_on_freed_faults`), and
`hsaKmtPmcUnregisterTrace` would free it a second time.
-/

namespace Pmc

/-- `HSA_PERF_MAGIC4CC`. -/
def perfMagic4cc : UInt32 := 0x54415348

/-- `PERFCOUNTER_BLOCKID__MAX`. -/
def blockIdMax : Nat := 24

/-- `MAX_COUNTERS` of `hsaKmtPmcRegisterTrace`. -/
def maxCounters : Nat := 512

/-- `BITS_PER_BYTE`. -/
def bitsPerByte : Nat := 8

/-- `sizeof(struct perf_trace)`: four words, the buffer pointer and its size. -/
def perfTraceSize : Nat := 32

/-- `sizeof(struct perf_trace_block)`: the block id, the count and two pointers. -/
def perfTraceBlockSize : Nat := 24

/-- `HSA_PROFILE_TYPE`. -/
inductive ProfileType
  | privilegedImmediate
  | privilegedStreaming
  | nonprivImmediate
  | nonprivStreaming
  deriving DecidableEq, Repr

/-- `Type <= HSA_PROFILE_TYPE_PRIVILEGED_STREAMING`: only these counters are
registered. -/
def ProfileType.privileged : ProfileType → Bool
  | .privilegedImmediate | .privilegedStreaming => true
  | .nonprivImmediate | .nonprivStreaming => false

/-- The statuses these entry points return. -/
inductive Status
  | success
  | error
  | invalidParameter
  | noMemory
  | invalidHandle
  | invalidNodeUnit
  | unavailable
  deriving DecidableEq, Repr

/-- The fields of an `HsaCounter` that registering reads. -/
structure Counter where
  blockIndex : Nat
  counterId : UInt64
  counterSizeInBits : Nat
  type : ProfileType
  deriving DecidableEq, Repr

/-- `enum perf_trace_state`. -/
inductive TraceState
  | stopped
  | started
  deriving DecidableEq, Repr

/-- `struct perf_trace_block`: the block id, the count, and the addresses of
its `counter_id` and `perf_event_fd` arrays with what they hold. -/
structure TraceBlock where
  blockId : Nat
  numCounters : Nat
  counterId : Nat
  perfEventFd : Nat
  counterIds : List UInt64
  fds : List Int
  deriving DecidableEq, Repr

/-- `struct perf_trace`. -/
structure PerfTrace where
  magic4cc : UInt32
  gpuId : Nat
  state : TraceState
  numBlocks : Nat
  buf : Nat
  bufSize : Nat
  blocks : List TraceBlock
  deriving DecidableEq, Repr

/-- `HsaPmcTraceRoot`. -/
structure TraceRoot where
  numberOfPasses : Nat
  traceBufferMinSizeBytes : UInt64
  traceId : Nat
  deriving DecidableEq, Repr

/-- What the entry points ask of the rest of the thunk and of the kernel. -/
structure Env where
  /-- `counter_props` is allocated. -/
  counterPropsReady : Bool
  /-- `hsakmt_validate_nodeid`: the node's gpu id, or `none`. -/
  validateNodeid : Nat → Option Nat
  /-- `get_block_concurrent_limit(node, block)`; `0` for a block the node lacks. -/
  concurrentLimit : Nat → Nat → Nat
  /-- Whether the perf event ioctl on a descriptor succeeds. -/
  ioctlOk : Int → Bool
  /-- `readn` of a perf event's counts: its value, or `none` on a short read. -/
  readCount : Int → Option UInt64
  /-- `PAGE_SIZE`. -/
  pageSize : UInt64

/-- A call that touches memory that is not live. -/
inductive Fault
  | notLive (addr : Nat)
  | invalidFree (addr : Nat)
  deriving DecidableEq, Repr

/-- The heap: the next fresh address (never `NULL`), the live blocks, all
below it, and the trace records written at each address (a freed record
stays as it was). -/
structure State where
  next : Nat
  live : List Nat
  mem : Nat → Option PerfTrace
  next_pos : 0 < next
  live_lt : ∀ a ∈ live, a < next

/-! ## The heap -/

namespace State

/-- `calloc`: a fresh block at `next`. -/
def calloc (s : State) (size : Nat) : Nat × State :=
  (s.next,
    { next := s.next + size + 1
      live := s.next :: s.live
      mem := s.mem
      next_pos := by omega
      live_lt := by
        intro a ha
        rcases List.mem_cons.1 ha with rfl | ha
        · omega
        · have := s.live_lt a ha
          omega })

/-- `free`: faults on an address that is not live. -/
def free (s : State) (a : Nat) : Except Fault State :=
  if a ∈ s.live then
    .ok { s with
          live := s.live.erase a
          live_lt := fun b hb => s.live_lt b (List.mem_of_mem_erase hb) }
  else .error (.invalidFree a)

/-- Reading the trace record at `a`: faults when `a` is not live. -/
def read (s : State) (a : Nat) : Except Fault (Option PerfTrace) :=
  if a ∈ s.live then .ok (s.mem a) else .error (.notLive a)

/-- Writing the trace record at `a`: faults when `a` is not live. -/
def write (s : State) (a : Nat) (t : PerfTrace) : Except Fault State :=
  if a ∈ s.live then .ok { s with mem := Function.update s.mem a (some t) }
  else .error (.notLive a)

/-- `trace->magic4cc != HSA_PERF_MAGIC4CC`: the trace at `a` if its magic
matches; a live block holding no trace does not match. -/
def lookup (s : State) (a : Nat) : Except Fault (Option PerfTrace) := do
  let t ← s.read a
  return t.filter (·.magic4cc == perfMagic4cc)

end State

/-! ## `hsaKmtPmcRegisterTrace` -/

/-- What the first loop gathers: `min_buf_size`, `counter_id[block][...]`
(its length is `num_counters[block]`) and `total_counters`. -/
structure Sorted where
  minBufSize : Nat
  counterId : Nat → List UInt64
  totalCounters : Nat

/-- The empty gathering. -/
def Sorted.empty : Sorted := ⟨0, fun _ => [], 0⟩

/-- The first loop: a block index out of range fails the call, whatever the
counter's type; a privileged counter is appended to its block. -/
def sortCounters : List Counter → Sorted → Option Sorted
  | [], acc => some acc
  | c :: cs, acc =>
    if blockIdMax ≤ c.blockIndex then none
    else if !c.type.privileged then sortCounters cs acc
    else sortCounters cs
      { minBufSize := acc.minBufSize + c.counterSizeInBits / bitsPerByte
        counterId := Function.update acc.counterId c.blockIndex
          (acc.counterId c.blockIndex ++ [c.counterId])
        totalCounters := acc.totalCounters + 1 }

/-- The second loop: each block with counters must exist on the node and
hold them all at once; the blocks are counted. -/
def countBlocks (env : Env) (nodeId : Nat) (ids : Nat → List UInt64) :
    List Nat → Nat → Option Nat
  | [], n => some n
  | i :: is, n =>
    if ids i = [] then countBlocks env nodeId ids is n
    else if env.concurrentLimit nodeId i = 0 then none
    else if env.concurrentLimit nodeId i < (ids i).length then none
    else countBlocks env nodeId ids is (n + 1)

/-- The third loop: each block with counters gets the next `counter_id` and
`perf_event_fd` arrays, at the running offsets `counterOff` and `fdOff`; the
descriptors are `0`, as `calloc` left them. -/
def layoutBlocks (ids : Nat → List UInt64) : List Nat → Nat → Nat → List TraceBlock
  | [], _, _ => []
  | i :: is, counterOff, fdOff =>
    if ids i = [] then layoutBlocks ids is counterOff fdOff
    else ⟨i, (ids i).length, counterOff, fdOff, ids i, List.replicate (ids i).length 0⟩ ::
      layoutBlocks ids is (counterOff + 8 * (ids i).length) (fdOff + 4 * (ids i).length)

/-- The size of the one `calloc`. -/
def traceSize (numBlocks totalCounters : Nat) : Nat :=
  perfTraceSize + perfTraceBlockSize * numBlocks + 8 * totalCounters + 4 * totalCounters

/-- The checks of `hsaKmtPmcRegisterTrace` before its allocation, with
`Counters` and `TraceRoot` not null: the node's gpu id, what the first loop
gathered and the number of blocks, or the status the call returns. -/
def registerChecks (env : Env) (nodeId : Nat) (counters : List Counter) :
    Except Status (Nat × Sorted × Nat) :=
  if !env.counterPropsReady then .error .noMemory
  else if counters = [] then .error .invalidParameter
  else match env.validateNodeid nodeId with
    | none => .error .invalidNodeUnit
    | some gpuId =>
      if maxCounters < counters.length then .error .noMemory
      else match sortCounters counters Sorted.empty with
        | none => .error .invalidParameter
        | some sorted =>
          match countBlocks env nodeId sorted.counterId (List.range blockIdMax) 0 with
          | none | some 0 => .error .invalidParameter
          | some (numBlocks + 1) => .ok (gpuId, sorted, numBlocks + 1)

/-- The trace `hsaKmtPmcRegisterTrace` writes into its allocation at
`trace`: the `counter_id` arrays start after the block records, the
`perf_event_fd` arrays after the counter ids. -/
def traceRecord (gpuId : Nat) (sorted : Sorted) (numBlocks trace : Nat) : PerfTrace where
  magic4cc := perfMagic4cc
  gpuId := gpuId
  state := .stopped
  numBlocks := numBlocks
  buf := 0
  bufSize := 0
  blocks := layoutBlocks sorted.counterId (List.range blockIdMax)
    (trace + perfTraceSize + perfTraceBlockSize * numBlocks)
    (trace + perfTraceSize + perfTraceBlockSize * numBlocks + 8 * sorted.totalCounters)

/-- `hsaKmtPmcRegisterTrace`: the status, the trace root on success, and the
heap afterwards. -/
def registerTrace (env : Env) (nodeId : Nat) (counters : List Counter) (s : State) :
    Except Fault (Status × Option TraceRoot × State) :=
  match registerChecks env nodeId counters with
  | .error st => return (st, none, s)
  | .ok (gpuId, sorted, numBlocks) => do
    let (trace, s) := s.calloc (traceSize numBlocks sorted.totalCounters)
    let s ← s.write trace (traceRecord gpuId sorted numBlocks trace)
    let root : TraceRoot :=
      { numberOfPasses := 1
        traceBufferMinSizeBytes :=
          (sorted.minBufSize.toUInt64 + env.pageSize - 1) &&& ~~~(env.pageSize - 1)
        traceId := trace }
    -- `free(trace)` comes before the return
    let s ← s.free trace
    return (.success, some root, s)

/-! ## The calls on a registered trace -/

/-- `perf_trace_ioctl` on one block: a negative descriptor is
`UNAVAILABLE`, a failed ioctl is `ERROR`. -/
def blockIoctl (env : Env) (b : TraceBlock) : Status :=
  match b.fds.find? fun fd => fd < 0 || !env.ioctlOk fd with
  | none => .success
  | some fd => if fd < 0 then .unavailable else .error

/-- The first failing block's status, with the blocks before it. -/
def firstFailure (env : Env) : List TraceBlock → Option (Status × List TraceBlock)
  | [] => none
  | b :: bs =>
    if blockIoctl env b = .success then
      (firstFailure env bs).map fun (st, before) => (st, b :: before)
    else some (blockIoctl env b, [])

/-- `hsaKmtPmcStopTrace`. -/
def stopTrace (env : Env) (traceId : Nat) (s : State) : Except Fault (Status × State) := do
  if traceId = 0 then return (.invalidParameter, s)
  let some t ← s.lookup traceId | return (.invalidHandle, s)
  match firstFailure env t.blocks with
  | some (st, _) => return (st, s)
  | none =>
    let s ← s.write traceId { t with state := .stopped }
    return (.success, s)

/-- `hsaKmtPmcStartTrace`; on a failure the blocks enabled before it are
disabled again, which writes no memory. -/
def startTrace (env : Env) (traceId buf bufSize : Nat) (s : State) :
    Except Fault (Status × State) := do
  if traceId = 0 || buf = 0 || bufSize = 0 then return (.invalidParameter, s)
  let some t ← s.lookup traceId | return (.invalidHandle, s)
  match firstFailure env t.blocks with
  | some (st, _) => return (st, s)
  | none =>
    let s ← s.write traceId { t with state := .started, buf := buf, bufSize := bufSize }
    return (.success, s)

/-- The counter loop of `hsaKmtPmcQueryTrace` over the descriptors left, with
`buf_filled` bytes used: each value is read and stored at the next word of
the trace buffer. -/
def queryLoop (env : Env) (buf bufSize : Nat) : List Int → Nat → Status × List (Nat × UInt64)
  | [], _ => (.success, [])
  | fd :: fds, filled =>
    if bufSize < filled + 8 then (.noMemory, [])
    else if fd < 0 then (.error, [])
    else match env.readCount fd with
      | none => (.error, [])
      | some v =>
        let (st, rest) := queryLoop env buf bufSize fds (filled + 8)
        (st, (buf + filled, v) :: rest)

/-- `hsaKmtPmcQueryTrace`: the status and the stores into the trace buffer,
as addresses and values. -/
def queryTrace (env : Env) (traceId : Nat) (s : State) :
    Except Fault (Status × List (Nat × UInt64)) := do
  if traceId = 0 then return (.invalidParameter, [])
  let some t ← s.lookup traceId | return (.invalidHandle, [])
  return queryLoop env t.buf t.bufSize (t.blocks.flatMap (·.fds)) 0

/-- `hsaKmtPmcAcquireTraceAccess`. -/
def acquireTraceAccess (env : Env) (nodeId traceId : Nat) (s : State) : Except Fault Status := do
  if traceId = 0 then return .invalidParameter
  let some _ ← s.lookup traceId | return .invalidHandle
  if (env.validateNodeid nodeId).isNone then return .invalidNodeUnit
  return .success

/-- `hsaKmtPmcReleaseTraceAccess`. -/
def releaseTraceAccess (traceId : Nat) (s : State) : Except Fault Status := do
  if traceId = 0 then return .invalidParameter
  let some _ ← s.lookup traceId | return .invalidHandle
  return .success

/-- `hsaKmtPmcUnregisterTrace`: a started trace is stopped first, then freed. -/
def unregisterTrace (env : Env) (nodeId traceId : Nat) (s : State) :
    Except Fault (Status × State) := do
  if traceId = 0 then return (.invalidParameter, s)
  let some gpuId := env.validateNodeid nodeId | return (.invalidNodeUnit, s)
  let some t ← s.lookup traceId | return (.invalidHandle, s)
  if t.gpuId ≠ gpuId then return (.invalidNodeUnit, s)
  let (st, s) ← if t.state = .started then stopTrace env traceId s else pure (.success, s)
  if st ≠ .success then return (st, s)
  let s ← s.free traceId
  return (.success, s)

/-! ## The trace is freed before `SUCCESS` -/

namespace State

/-- The next fresh address, which `calloc` returns, is not live. -/
theorem next_not_live (s : State) : s.next ∉ s.live :=
  fun h => Nat.lt_irrefl _ (s.live_lt _ h)

/-- Every call reads the trace's magic first, and faults there on a block
that is not live. -/
theorem lookup_of_not_live {s : State} {a : Nat} (h : a ∉ s.live) :
    s.lookup a = .error (.notLive a) := by
  simp [lookup, read, h]

end State

/-- A successful `hsaKmtPmcRegisterTrace` has passed its checks and returns
the address of a fresh allocation, which it has filled and freed: the
`TraceId` is not live afterwards, though the trace is still in memory. -/
theorem registerTrace_frees {env : Env} {nodeId : Nat} {counters : List Counter}
    {s s' : State} {st : Status} {root : TraceRoot}
    (h : registerTrace env nodeId counters s = .ok (st, some root, s')) :
    st = .success ∧ root.traceId = s.next ∧ root.traceId ∉ s'.live ∧ s'.live = s.live ∧
      ∃ gpuId sorted numBlocks,
        registerChecks env nodeId counters = .ok (gpuId, sorted, numBlocks) ∧
        s'.mem root.traceId = some (traceRecord gpuId sorted numBlocks root.traceId) := by
  unfold registerTrace at h
  rcases hc : registerChecks env nodeId counters with st' | ⟨gpuId, sorted, numBlocks⟩
  · simp [hc, pure, Except.pure] at h
  · simp [hc, State.calloc, State.write, State.free, bind, Except.bind, pure, Except.pure] at h
    obtain ⟨rfl, rfl, rfl⟩ := h
    refine ⟨rfl, rfl, ?_, ?_, gpuId, sorted, numBlocks, rfl, by simp⟩
    · exact s.next_not_live
    · simp

/-- On a `TraceId` that is not live, every call that gets past its argument
checks faults on reading the trace's magic. -/
theorem call_on_freed_faults {env : Env} {s : State} {traceId : Nat}
    (hid : traceId ≠ 0) (hlive : traceId ∉ s.live) :
    stopTrace env traceId s = .error (.notLive traceId) ∧
    queryTrace env traceId s = .error (.notLive traceId) ∧
    releaseTraceAccess traceId s = .error (.notLive traceId) ∧
    (∀ nodeId, acquireTraceAccess env nodeId traceId s = .error (.notLive traceId)) ∧
    (∀ buf bufSize, buf ≠ 0 → bufSize ≠ 0 →
      startTrace env traceId buf bufSize s = .error (.notLive traceId)) ∧
    (∀ nodeId, (env.validateNodeid nodeId).isSome →
      unregisterTrace env nodeId traceId s = .error (.notLive traceId)) := by
  have hlookup := State.lookup_of_not_live hlive
  refine ⟨?_, ?_, ?_, fun nodeId => ?_, fun buf bufSize hbuf hsize => ?_, fun nodeId hnode => ?_⟩
  · simp [stopTrace, hid, hlookup, bind, Except.bind]
  · simp [queryTrace, hid, hlookup, bind, Except.bind]
  · simp [releaseTraceAccess, hid, hlookup, bind, Except.bind]
  · simp [acquireTraceAccess, hid, hlookup, bind, Except.bind]
  · simp [startTrace, hid, hbuf, hsize, hlookup, bind, Except.bind]
  · obtain ⟨gpuId, hgpu⟩ := Option.isSome_iff_exists.1 hnode
    simp [unregisterTrace, hid, hgpu, hlookup, bind, Except.bind]

/-- After any successful `hsaKmtPmcRegisterTrace`, its `TraceId` names no live
memory, and each of the calls on it that gets past its argument checks reads
freed memory; `hsaKmtPmcUnregisterTrace` faults there before it would free
the trace a second time. -/
theorem registerTrace_dangling {env : Env} {nodeId : Nat} {counters : List Counter}
    {s s' : State} {root : TraceRoot}
    (h : registerTrace env nodeId counters s = .ok (.success, some root, s')) :
    root.traceId ∉ s'.live ∧
    stopTrace env root.traceId s' = .error (.notLive root.traceId) ∧
    queryTrace env root.traceId s' = .error (.notLive root.traceId) ∧
    releaseTraceAccess root.traceId s' = .error (.notLive root.traceId) ∧
    (∀ nodeId', acquireTraceAccess env nodeId' root.traceId s' = .error (.notLive root.traceId)) ∧
    (∀ buf bufSize, buf ≠ 0 → bufSize ≠ 0 →
      startTrace env root.traceId buf bufSize s' = .error (.notLive root.traceId)) ∧
    (∀ nodeId', (env.validateNodeid nodeId').isSome →
      unregisterTrace env nodeId' root.traceId s' = .error (.notLive root.traceId)) := by
  obtain ⟨-, hid, hlive, -⟩ := registerTrace_frees h
  have hpos : root.traceId ≠ 0 := by rw [hid]; exact Nat.pos_iff_ne_zero.1 s.next_pos
  exact ⟨hlive, call_on_freed_faults hpos hlive⟩

/-- One privileged counter of block `0` registered on a node whose gpu id is
`1`, from an empty heap: the `TraceId` is `1`, and every call on it faults. -/
theorem registerTrace_dangling_one_counter :
    ∃ root s', registerTrace ⟨true, fun _ => some 1, fun _ _ => 4, fun _ => true, fun _ => some 0, 4096⟩
        0 [⟨0, 7, 64, .privilegedImmediate⟩] ⟨1, [], fun _ => none, by decide, by simp⟩ =
        .ok (.success, some root, s') ∧ root.traceId = 1 ∧
      root.traceId ∉ s'.live ∧
      stopTrace ⟨true, fun _ => some 1, fun _ _ => 4, fun _ => true, fun _ => some 0, 4096⟩
        root.traceId s' = .error (.notLive root.traceId) := by
  obtain ⟨root, s', h⟩ : ∃ root s', registerTrace
      ⟨true, fun _ => some 1, fun _ _ => 4, fun _ => true, fun _ => some 0, 4096⟩
      0 [⟨0, 7, 64, .privilegedImmediate⟩] ⟨1, [], fun _ => none, by decide, by simp⟩ =
      .ok (.success, some root, s') := ⟨_, _, rfl⟩
  obtain ⟨-, hid, -⟩ := registerTrace_frees h
  obtain ⟨hlive, hstop, -⟩ := registerTrace_dangling h
  exact ⟨root, s', h, hid, hlive, hstop⟩

/-! ## The layout of a registered trace -/

section Layout

variable (ids : Nat → List UInt64)

/-- The counters the arrays of the blocks `is` hold together. -/
def countersOf (is : List Nat) : Nat := (is.map fun i => (ids i).length).sum

/-- The blocks laid out are those with counters, in the order of `is`. -/
theorem layoutBlocks_blockIds (is : List Nat) (counterOff fdOff : Nat) :
    (layoutBlocks ids is counterOff fdOff).map (·.blockId) = is.filter fun i => ids i ≠ [] := by
  induction is generalizing counterOff fdOff with
  | nil => rfl
  | cons i is ih =>
    by_cases hi : ids i = []
    · simp [layoutBlocks, hi, ih]
    · simp [layoutBlocks, hi, ih]

/-- Each block laid out holds its block's counter ids, and as many
descriptors. -/
theorem layoutBlocks_arrays (is : List Nat) (counterOff fdOff : Nat) :
    ∀ b ∈ layoutBlocks ids is counterOff fdOff,
      b.counterIds = ids b.blockId ∧ b.numCounters = (ids b.blockId).length ∧
        b.fds.length = b.numCounters := by
  induction is generalizing counterOff fdOff with
  | nil => simp [layoutBlocks]
  | cons i is ih =>
    by_cases hi : ids i = []
    · simpa [layoutBlocks, hi] using ih counterOff fdOff
    · simp only [layoutBlocks, hi, if_false, List.mem_cons, forall_eq_or_imp]
      exact ⟨by simp, ih _ _⟩

/-- Each block's arrays lie in the flat arrays of all the blocks `is`. -/
theorem layoutBlocks_bounds (is : List Nat) (counterOff fdOff : Nat) :
    ∀ b ∈ layoutBlocks ids is counterOff fdOff,
      counterOff ≤ b.counterId ∧ b.counterId + 8 * b.numCounters ≤ counterOff + 8 * countersOf ids is ∧
      fdOff ≤ b.perfEventFd ∧ b.perfEventFd + 4 * b.numCounters ≤ fdOff + 4 * countersOf ids is := by
  induction is generalizing counterOff fdOff with
  | nil => simp [layoutBlocks]
  | cons i is ih =>
    by_cases hi : ids i = []
    · simpa [layoutBlocks, hi, countersOf] using ih counterOff fdOff
    · simp only [layoutBlocks, hi, if_false, List.mem_cons, forall_eq_or_imp]
      refine ⟨by simp only [countersOf, List.map_cons, List.sum_cons]; omega, fun b hb => ?_⟩
      have := ih _ _ b hb
      simp only [countersOf, List.map_cons, List.sum_cons] at this ⊢
      omega

/-- The arrays of a block end before those of every later block begin. -/
theorem layoutBlocks_pairwise (is : List Nat) (counterOff fdOff : Nat) :
    (layoutBlocks ids is counterOff fdOff).Pairwise fun b b' =>
      b.counterId + 8 * b.numCounters ≤ b'.counterId ∧
        b.perfEventFd + 4 * b.numCounters ≤ b'.perfEventFd := by
  induction is generalizing counterOff fdOff with
  | nil => simp [layoutBlocks]
  | cons i is ih =>
    by_cases hi : ids i = []
    · simpa [layoutBlocks, hi] using ih counterOff fdOff
    · simp only [layoutBlocks, hi, if_false, List.pairwise_cons]
      refine ⟨fun b hb => ?_, ih _ _⟩
      have := layoutBlocks_bounds ids is _ _ b hb
      omega

end Layout

/-- Appending to one block adds one counter for each time the block is listed. -/
theorem countersOf_append (ids : Nat → List UInt64) (b : Nat) (x : UInt64) (is : List Nat) :
    countersOf (Function.update ids b (ids b ++ [x])) is = countersOf ids is + is.count b := by
  induction is with
  | nil => rfl
  | cons i is ih =>
    simp only [countersOf, List.map_cons, List.sum_cons] at ih ⊢
    rw [ih]
    by_cases hib : i = b
    · subst hib
      simp
      omega
    · simp [hib]
      omega

/-- What the first loop gathers: every block index is in range, each block's
ids are its privileged counters' ids in input order, and `total_counters`
counts what the arrays hold. -/
theorem sortCounters_spec {cs : List Counter} {acc sorted : Sorted}
    (h : sortCounters cs acc = some sorted)
    (htotal : acc.totalCounters = countersOf acc.counterId (List.range blockIdMax)) :
    (∀ c ∈ cs, c.blockIndex < blockIdMax) ∧
    (∀ i, sorted.counterId i = acc.counterId i ++
      (cs.filter fun c => c.type.privileged && c.blockIndex == i).map (·.counterId)) ∧
    sorted.totalCounters = countersOf sorted.counterId (List.range blockIdMax) := by
  induction cs generalizing acc with
  | nil =>
    simp only [sortCounters, Option.some.injEq] at h
    subst h
    simp [htotal]
  | cons c cs ih =>
    simp only [sortCounters] at h
    by_cases hb : blockIdMax ≤ c.blockIndex
    · simp [hb] at h
    · rw [if_neg hb] at h
      by_cases hp : c.type.privileged
      · rw [if_neg (by simp [hp])] at h
        -- the counter goes to the end of its block, which is listed once
        have htotal' : acc.totalCounters + 1 =
            countersOf (Function.update acc.counterId c.blockIndex
              (acc.counterId c.blockIndex ++ [c.counterId])) (List.range blockIdMax) := by
          rw [countersOf_append, htotal, List.count_eq_one_of_mem List.nodup_range
            (List.mem_range.2 (by omega))]
        obtain ⟨hrange, hids, htot⟩ := ih h htotal'
        refine ⟨?_, fun i => ?_, htot⟩
        · simpa [Nat.not_le.1 hb] using hrange
        · rw [hids i]
          by_cases hi : c.blockIndex = i
          · subst hi
            simp [hp]
          · simp [Function.update_of_ne (Ne.symm hi), hp, hi]
      · rw [if_pos (by simp [hp])] at h
        obtain ⟨hrange, hids, htot⟩ := ih h htotal
        refine ⟨?_, fun i => ?_, htot⟩
        · simpa [Nat.not_le.1 hb] using hrange
        · simp [hids i, hp]

/-- The second loop counts the blocks with counters, each within its limit. -/
theorem countBlocks_spec {env : Env} {nodeId : Nat} {ids : Nat → List UInt64} {is : List Nat}
    {n m : Nat} (h : countBlocks env nodeId ids is n = some m) :
    m = n + (is.filter fun i => ids i ≠ []).length ∧
      ∀ i ∈ is, ids i ≠ [] → (ids i).length ≤ env.concurrentLimit nodeId i := by
  induction is generalizing n with
  | nil =>
    simp only [countBlocks, Option.some.injEq] at h
    simp [h]
  | cons i is ih =>
    simp only [countBlocks] at h
    by_cases hi : ids i = []
    · rw [if_pos hi] at h
      obtain ⟨hm, hlim⟩ := ih h
      exact ⟨by simp [hi, hm], by simpa [hi] using hlim⟩
    · rw [if_neg hi] at h
      split_ifs at h with h0 hlt
      obtain ⟨hm, hlim⟩ := ih h
      refine ⟨by simp [hi, hm]; omega, ?_⟩
      simp only [List.mem_cons, forall_eq_or_imp]
      exact ⟨fun _ => by omega, hlim⟩

/-- A call that passes the checks has sorted the counters and counted the
blocks. -/
theorem registerChecks_ok {env : Env} {nodeId : Nat} {counters : List Counter}
    {gpuId numBlocks : Nat} {sorted : Sorted}
    (h : registerChecks env nodeId counters = .ok (gpuId, sorted, numBlocks)) :
    sortCounters counters Sorted.empty = some sorted ∧
      countBlocks env nodeId sorted.counterId (List.range blockIdMax) 0 = some numBlocks := by
  -- each check that fails makes the result an error
  by_cases hready : env.counterPropsReady = false
  · simp [registerChecks, hready] at h
  by_cases hnil : counters = []
  · simp [registerChecks, hready, hnil] at h
  rcases hnode : env.validateNodeid nodeId with _ | gpuId'
  · simp [registerChecks, hready, hnil, hnode] at h
  by_cases hmax : maxCounters < counters.length
  · simp [registerChecks, hready, hnil, hnode, hmax] at h
  rcases hsort : sortCounters counters Sorted.empty with _ | sorted'
  · simp [registerChecks, hready, hnil, hnode, hmax, hsort] at h
  rcases hcount : countBlocks env nodeId sorted'.counterId (List.range blockIdMax) 0 with _ | _ | n
  · simp [registerChecks, hready, hnil, hnode, hmax, hsort, hcount] at h
  · simp [registerChecks, hready, hnil, hnode, hmax, hsort, hcount] at h
  · simp [registerChecks, hready, hnil, hnode, hmax, hsort, hcount] at h
    obtain ⟨-, rfl, rfl⟩ := h
    exact ⟨rfl, hcount⟩

/-- The trace a successful `hsaKmtPmcRegisterTrace` lays out, for every
distribution of counters over blocks: one block for each block index with
privileged counters, in increasing order; each block's `counter_id` array
holds those counters' ids in input order; the `counter_id` arrays follow the
header and the block records, the `perf_event_fd` arrays follow them, all
inside the allocation and each block's arrays before the next block's. -/
theorem registerTrace_layout {env : Env} {nodeId : Nat} {counters : List Counter}
    {s s' : State} {st : Status} {root : TraceRoot}
    (h : registerTrace env nodeId counters s = .ok (st, some root, s')) :
    ∃ t total, s'.mem root.traceId = some t ∧ t.magic4cc = perfMagic4cc ∧
      t.numBlocks = t.blocks.length ∧
      t.blocks.map (·.blockId) = (List.range blockIdMax).filter
        (fun i => counters.any fun c => c.type.privileged && c.blockIndex == i) ∧
      (∀ b ∈ t.blocks, b.counterIds =
        (counters.filter fun c => c.type.privileged && c.blockIndex == b.blockId).map (·.counterId)) ∧
      (∀ b ∈ t.blocks,
        root.traceId + perfTraceSize + perfTraceBlockSize * t.numBlocks ≤ b.counterId ∧
        b.counterId + 8 * b.numCounters ≤
          root.traceId + perfTraceSize + perfTraceBlockSize * t.numBlocks + 8 * total ∧
        root.traceId + perfTraceSize + perfTraceBlockSize * t.numBlocks + 8 * total ≤ b.perfEventFd ∧
        b.perfEventFd + 4 * b.numCounters ≤ root.traceId + traceSize t.numBlocks total) ∧
      t.blocks.Pairwise fun b b' =>
        b.counterId + 8 * b.numCounters ≤ b'.counterId ∧
          b.perfEventFd + 4 * b.numCounters ≤ b'.perfEventFd := by
  obtain ⟨-, -, -, -, gpuId, sorted, numBlocks, hchecks, hmem⟩ := registerTrace_frees h
  obtain ⟨hsort, hcount⟩ := registerChecks_ok hchecks
  obtain ⟨-, hids, htotal⟩ := sortCounters_spec hsort (by simp [Sorted.empty, countersOf])
  obtain ⟨hnb, -⟩ := countBlocks_spec hcount
  -- a block has counters exactly when some privileged counter names it
  have hnonempty : ∀ i, (sorted.counterId i ≠ []) =
      (counters.any fun c => c.type.privileged && c.blockIndex == i) := by
    intro i
    simp [hids i, Sorted.empty, List.filter_eq_nil_iff]
  have hblockIds := layoutBlocks_blockIds sorted.counterId (List.range blockIdMax)
    (root.traceId + perfTraceSize + perfTraceBlockSize * numBlocks)
    (root.traceId + perfTraceSize + perfTraceBlockSize * numBlocks + 8 * sorted.totalCounters)
  refine ⟨traceRecord gpuId sorted numBlocks root.traceId, sorted.totalCounters, hmem, rfl,
    ?_, ?_, ?_, ?_, layoutBlocks_pairwise _ _ _ _⟩
  · rw [traceRecord, ← List.length_map, hblockIds, hnb, Nat.zero_add]
  · rw [traceRecord, hblockIds]
    refine List.filter_congr fun i _ => ?_
    rw [Bool.eq_iff_iff, decide_eq_true_iff, hnonempty i]
  · intro b hb
    rw [(layoutBlocks_arrays _ _ _ _ b hb).1, hids]
    simp [Sorted.empty]
  · intro b hb
    have := layoutBlocks_bounds _ _ _ _ b hb
    rw [← htotal] at this
    simp only [traceRecord, traceSize] at this ⊢
    omega

/-- Three counters over blocks 2, 0 and 2: the trace has blocks 0 and 2, and
block 2 holds its two ids in input order. -/
theorem registerTrace_layout_two_blocks :
    ∃ root s' t, registerTrace ⟨true, fun _ => some 1, fun _ _ => 4, fun _ => true, fun _ => some 0, 4096⟩
        0 [⟨2, 5, 64, .privilegedImmediate⟩, ⟨0, 7, 64, .privilegedImmediate⟩,
          ⟨2, 9, 64, .privilegedImmediate⟩] ⟨1, [], fun _ => none, by decide, by simp⟩ =
        .ok (.success, some root, s') ∧ s'.mem root.traceId = some t ∧
      t.blocks.map (·.blockId) = [0, 2] ∧ ∀ b ∈ t.blocks, b.blockId = 2 → b.counterIds = [5, 9] := by
  obtain ⟨root, s', h⟩ : ∃ root s', registerTrace
      ⟨true, fun _ => some 1, fun _ _ => 4, fun _ => true, fun _ => some 0, 4096⟩
      0 [⟨2, 5, 64, .privilegedImmediate⟩, ⟨0, 7, 64, .privilegedImmediate⟩,
        ⟨2, 9, 64, .privilegedImmediate⟩] ⟨1, [], fun _ => none, by decide, by simp⟩ =
      .ok (.success, some root, s') := ⟨_, _, rfl⟩
  obtain ⟨t, -, hmem, -, -, hblocks, hids, -⟩ := registerTrace_layout h
  refine ⟨root, s', t, h, hmem, by rw [hblocks]; decide, fun b hb h2 => ?_⟩
  rw [hids b hb, h2]
  decide

end Pmc
