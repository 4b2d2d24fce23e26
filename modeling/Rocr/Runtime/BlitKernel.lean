import Mathlib

/-!
# Asynchronous copies on the blit kernel queue

`BlitKernel::SubmitLinearCopyCommand` runs in each thread that asks for an
asynchronous copy.  Under `reservation_lock_` it takes the write indices of
its barrier packets and its dispatch packet (`AcquireWriteIndex`, which spins
until the packets fit in the ring), writes the barrier packets, takes a
kernel-argument slot from `kernarg_async_counter_` (`ObtainAsyncKernelCopyArg`,
outside the lock), writes the copy's phase bounds into it, writes the
dispatch packet (`PopulateQueue`) and rings the doorbell
(`ReleaseWriteIndex`).  The packet processor consumes a valid packet at the
read index up to the doorbell; a dispatch it has launched reads its kernel
arguments at any time until it completes.

Each thread is a program counter over these steps, and a run interleaves
the threads' steps with the processor's.  The reservations of the threads
are disjoint and lie within one ring of the read index in every reachable
state (`reachable_reservations_disjoint`).  The argument slots, however, go
round by the counter alone (`obtainAsyncKernelCopyArg_slot`): with two
threads on a two-packet queue a third copy rewrites the slot of a dispatch
the processor has not yet launched, whose kernel then reads the third copy's
bounds (`kernarg_slot_reused`).
-/

namespace Blit

/-- The blit queue: `size` packets, a power of two a `uint32_t` mask covers,
and the agent's `num_cus_`. -/
structure Queue where
  size : Nat
  numCus : Nat
  size_pow : size.isPowerOfTwo
  size_le : size ≤ 2 ^ 32

/-- `queue_bitmask_`, and `kernarg_async_mask_`: the ring's size less one. -/
def Queue.mask (q : Queue) : Nat := q.size - 1

/-- The kernel arguments of the two copy kernels. -/
inductive KernelArgs where
  | copyAligned (phase1SrcStart phase1DstStart phase2SrcStart phase2DstStart phase3SrcStart
      phase3DstStart phase4SrcStart phase4DstStart phase4SrcEnd phase4DstEnd : UInt64)
      (numWorkitems : UInt32)
  | copyMisaligned (phase1SrcStart phase1DstStart phase2SrcStart phase2DstStart phase2SrcEnd
      phase2DstEnd : UInt64) (numWorkitems : UInt32)
deriving DecidableEq, Repr

/-- The unroll and vector width of the copy shaders. -/
def kCopyAlignedUnroll : Nat := 1
def kCopyAlignedVecWidth : Nat := 4
def kCopyMisalignedUnroll : Nat := 4

/-- The phase bounds `SubmitLinearCopyCommand` computes for a copy of `size`
bytes from `src` to `dst`. -/
def copyKernelArgs (numCus : Nat) (dst src size : UInt64) : KernelArgs :=
  let numWorkitems := 64 * 4 * numCus
  if src &&& 3 = dst &&& 3 then
    -- phase 1 (byte copy) ends when the destination is 0x100-aligned
    let phase1Size := min size ((0x100 - (dst &&& 0xFF)) &&& 0xFF)
    let phase2Block := UInt64.ofNat (numWorkitems * 4 * kCopyAlignedUnroll * kCopyAlignedVecWidth)
    let phase2Size := (size - phase1Size) / phase2Block * phase2Block
    let phase3Size := (size - phase1Size - phase2Size) / 4 * 4
    .copyAligned src dst (src + phase1Size) (dst + phase1Size) (src + phase1Size + phase2Size)
      (dst + phase1Size + phase2Size) (src + phase1Size + phase2Size + phase3Size)
      (dst + phase1Size + phase2Size + phase3Size) (src + size) (dst + size) (UInt32.ofNat numWorkitems)
  else
    let phase1Block := UInt64.ofNat (numWorkitems * 1 * kCopyMisalignedUnroll)
    let phase1Size := size / phase1Block * phase1Block
    .copyMisaligned src dst (src + phase1Size) (dst + phase1Size) (src + size) (dst + size)
      (UInt32.ofNat numWorkitems)

/-- A copy request: its destination, source, size and number of dependency
signals. -/
structure Copy where
  dst : UInt64
  src : UInt64
  size : UInt64
  depSignals : Nat
deriving DecidableEq, Repr

/-- `num_barrier_packet`: one barrier packet for every five signals. -/
def Copy.numBarrierPacket (c : Copy) : Nat := (c.depSignals + 4) / 5

/-- `total_num_packet`: the barrier packets and the dispatch packet. -/
def Copy.totalNumPacket (c : Copy) : Nat := c.numBarrierPacket + 1

/-- A valid packet in the ring: a barrier, or the dispatch of a thread's
copy with the kernel-argument slot it points to. -/
inductive Packet where
  | barrierAnd
  | kernelDispatch (thread kernarg : Nat)
deriving DecidableEq, Repr

/-- Where a thread is in `SubmitLinearCopyCommand`. -/
inductive Pc where
  | start
  | reserved
  | barriersWritten
  | argsWritten
  | populated
  | released
deriving DecidableEq, Repr

/-- A thread: its copy, where it is, its first write index and its
kernel-argument slot. -/
structure Thread where
  copy : Copy
  pc : Pc
  writeIndex : Nat
  kernarg : Nat
deriving DecidableEq, Repr

/-- The packet indices a thread has reserved, once it has. -/
def Thread.reservation (th : Thread) : Option (Nat × Nat) :=
  if th.pc = .start then none else some (th.writeIndex, th.writeIndex + th.copy.totalNumPacket)

/-- The queue and its threads: the write and read indices, the doorbell
value, the ring (a valid header is `some`), the `kernarg_async_` pool and its
counter, the dispatches launched and not complete (thread and slot), and the
arguments each kernel read, in order. -/
structure State where
  writeIndex : Nat
  readIndex : Nat
  doorbell : Option Nat
  ring : List (Option Packet)
  kernargAsync : List (Option KernelArgs)
  kernargAsyncCounter : UInt32
  threads : List Thread
  running : List (Nat × Nat)
  kernelReads : List (Nat × Option KernelArgs)
deriving DecidableEq, Repr

namespace State

/-- An empty queue after `Initialize`, and a thread for each copy. -/
def init (q : Queue) (copies : List Copy) : State :=
  ⟨0, 0, none, List.replicate q.size none, List.replicate q.size none, 0,
    copies.map fun c => ⟨c, .start, 0, 0⟩, [], []⟩

def setThread (s : State) (t : Nat) (th : Thread) : State := { s with threads := s.threads.set t th }

/-- `AcquireWriteIndex(num_packet)` under the reservation lock: the write
index moves on, and the call returns once the packets fit before the read
index comes round. -/
def acquireWriteIndex (q : Queue) (s : State) (numPacket : Nat) : Option (Nat × State) :=
  if s.writeIndex + numPacket - s.readIndex ≤ q.size then
    some (s.writeIndex, { s with writeIndex := s.writeIndex + numPacket })
  else none

/-- The barrier packets at `write_index` and on. -/
def writeBarriers (q : Queue) (writeIndex numBarrierPacket : Nat) (ring : List (Option Packet)) :
    List (Option Packet) :=
  (List.range numBarrierPacket).foldl (fun r i => r.set ((writeIndex + i) &&& q.mask) (some .barrierAnd)) ring

/-- `ObtainAsyncKernelCopyArg`: the slot the counter names, and the counter
moved on. -/
def obtainAsyncKernelCopyArg (q : Queue) (s : State) : Nat × State :=
  ((s.kernargAsyncCounter &&& UInt32.ofNat q.mask).toNat,
    { s with kernargAsyncCounter := s.kernargAsyncCounter + 1 })

/-- `PopulateQueue`: the dispatch packet at `index`. -/
def populateQueue (q : Queue) (s : State) (index t kernarg : Nat) : State :=
  { s with ring := s.ring.set (index &&& q.mask) (some (.kernelDispatch t kernarg)) }

/-- `ReleaseWriteIndex`: the doorbell gets the last packet's index. -/
def releaseWriteIndex (s : State) (writeIndex numPacket : Nat) : State :=
  { s with doorbell := some (writeIndex + numPacket - 1) }

/-- One step of thread `t` through `SubmitLinearCopyCommand`; `none` when it
has returned or must still wait. -/
def submitLinearCopyCommand (q : Queue) (s : State) (t : Nat) : Option State :=
  match s.threads[t]? with
  | none => none
  | some th =>
    match th.pc with
    | .start =>
      (acquireWriteIndex q s th.copy.totalNumPacket).map fun (w, s) =>
        s.setThread t { th with pc := .reserved, writeIndex := w }
    | .reserved =>
      some ({ s with ring := writeBarriers q th.writeIndex th.copy.numBarrierPacket s.ring }.setThread t
        { th with pc := .barriersWritten })
    | .barriersWritten =>
      let (index, s) := obtainAsyncKernelCopyArg q s
      let args := copyKernelArgs q.numCus th.copy.dst th.copy.src th.copy.size
      some ({ s with kernargAsync := s.kernargAsync.set index (some args) }.setThread t
        { th with pc := .argsWritten, kernarg := index })
    | .argsWritten =>
      some ((populateQueue q s (th.writeIndex + th.copy.numBarrierPacket) t th.kernarg).setThread t
        { th with pc := .populated })
    | .populated =>
      some ((releaseWriteIndex s th.writeIndex th.copy.totalNumPacket).setThread t
        { th with pc := .released })
    | .released => none

/-- The packet processor takes the valid packet at the read index, up to the
doorbell and the write index; a dispatch starts running. -/
def consume (q : Queue) (s : State) : Option State :=
  match s.doorbell, s.ring[s.readIndex &&& q.mask]? with
  | some d, some (some p) =>
    if s.readIndex < s.writeIndex ∧ s.readIndex ≤ d then
      let s := { s with ring := s.ring.set (s.readIndex &&& q.mask) none, readIndex := s.readIndex + 1 }
      match p with
      | .barrierAnd => some s
      | .kernelDispatch t k => some { s with running := s.running ++ [(t, k)] }
    else none
  | _, _ => none

/-- Running dispatch `i` reads its kernel arguments. -/
def kernelRead (s : State) (i : Nat) : Option State :=
  match s.running[i]? with
  | some (t, k) => some { s with kernelReads := s.kernelReads ++ [(t, (s.kernargAsync[k]?).join)] }
  | none => none

/-- Running dispatch `i` completes and decrements its signal. -/
def complete (s : State) (i : Nat) : Option State :=
  if i < s.running.length then some { s with running := s.running.eraseIdx i } else none

end State

/-- A step of the system: a thread's step or the processor's. -/
inductive Event where
  | thread (t : Nat)
  | consume
  | kernelRead (i : Nat)
  | complete (i : Nat)
deriving DecidableEq, Repr

namespace State

def step (q : Queue) (s : State) : Event → Option State
  | .thread t => s.submitLinearCopyCommand q t
  | .consume => s.consume q
  | .kernelRead i => s.kernelRead i
  | .complete i => s.complete i

/-- The state after a schedule of events, `none` if one is not enabled. -/
def run (q : Queue) (s : State) : List Event → Option State
  | [] => some s
  | e :: es => (s.step q e).bind fun s => s.run q es

/-- The states reachable from the threads of `copies`. -/
inductive Reachable (q : Queue) (copies : List Copy) : State → Prop
  | init : Reachable q copies (init q copies)
  | step {s s' : State} (e : Event) : Reachable q copies s → s.step q e = some s' → Reachable q copies s'

/-- The reserved ranges of the threads, by thread. -/
def reservations (s : State) : List (Option (Nat × Nat)) := s.threads.map Thread.reservation

/-- The ring's bookkeeping: the read index never passes the write index,
which stays within one ring of it; every reservation ends below the write
index, and two threads' reservations are disjoint. -/
structure Inv (q : Queue) (s : State) : Prop where
  read_le_write : s.readIndex ≤ s.writeIndex
  write_le : s.writeIndex ≤ s.readIndex + q.size
  below_write : ∀ i a b : Nat, s.reservations[i]? = some (some (a, b)) → b ≤ s.writeIndex
  disjoint : ∀ i j a b a' b' : Nat, i ≠ j → s.reservations[i]? = some (some (a, b)) →
    s.reservations[j]? = some (some (a', b')) → b ≤ a' ∨ b' ≤ a

end State

end Blit

namespace Blit

namespace State

variable {q : Queue}

/-- Setting a thread to one with the same reservation keeps every
reservation. -/
theorem reservations_setThread {s : State} {t : Nat} {th th' : Thread} (ht : s.threads[t]? = some th)
    (hr : th'.reservation = th.reservation) : (s.setThread t th').reservations = s.reservations := by
  unfold reservations setThread
  apply List.ext_getElem?
  intro i
  rw [List.map_set, List.getElem?_set]
  split
  · next hti =>
    subst hti
    obtain ⟨hlt, hth⟩ := List.getElem?_eq_some_iff.mp ht
    simp [hlt, hth, hr]
  · rfl

/-- A step that keeps both indices and every reservation keeps the
invariant. -/
theorem Inv.frame {s s' : State} (h : s.Inv q) (hw : s'.writeIndex = s.writeIndex)
    (hrd : s'.readIndex = s.readIndex) (hres : s'.reservations = s.reservations) : s'.Inv q where
  read_le_write := hw ▸ hrd ▸ h.read_le_write
  write_le := hw ▸ hrd ▸ h.write_le
  below_write i a b hi := hw ▸ h.below_write i a b (hres ▸ hi)
  disjoint i j a b a' b' hij hi hj := h.disjoint i j a b a' b' hij (hres ▸ hi) (hres ▸ hj)

theorem reservations_setThread_eq_set (s : State) (t : Nat) (th' : Thread) :
    (s.setThread t th').reservations = s.reservations.set t th'.reservation := List.map_set

/-- Reserving `[w, w + n)` at the write index: the new range starts where
every other one ends at the latest. -/
theorem Inv.acquire {s : State} {t n : Nat} {th : Thread} (h : s.Inv q)
    (hfit : s.writeIndex + n - s.readIndex ≤ q.size) (hn : th.copy.totalNumPacket = n) :
    ({ s with writeIndex := s.writeIndex + n }.setThread t
      { th with pc := .reserved, writeIndex := s.writeIndex }).Inv q := by
  have hnew : ({ th with pc := .reserved, writeIndex := s.writeIndex } : Thread).reservation =
      some (s.writeIndex, s.writeIndex + n) := by
    simp [Thread.reservation, hn]
  -- what the new reservations read at `i`: the new range at `t`, the old ones elsewhere
  have hat : ∀ i a b, ({ s with writeIndex := s.writeIndex + n }.setThread t
      { th with pc := .reserved, writeIndex := s.writeIndex }).reservations[i]? = some (some (a, b)) →
      (t = i ∧ a = s.writeIndex ∧ b = s.writeIndex + n) ∨ (t ≠ i ∧ s.reservations[i]? = some (some (a, b))) := by
    intro i a b hi
    rw [reservations_setThread_eq_set, hnew, List.getElem?_set] at hi
    by_cases hti : t = i
    · simp only [hti, if_true] at hi
      split at hi
      · simp only [Option.some.injEq, Prod.mk.injEq] at hi
        exact Or.inl ⟨hti, hi.1.symm, hi.2.symm⟩
      · simp at hi
    · simp only [hti, if_false] at hi
      exact Or.inr ⟨hti, hi⟩
  refine ⟨?_, ?_, ?_, ?_⟩
  · have := h.read_le_write
    simp only [setThread]
    omega
  · have := h.read_le_write
    simp only [setThread]
    omega
  · intro i a b hi
    simp only [setThread]
    rcases hat i a b hi with ⟨-, -, rfl⟩ | ⟨-, hold⟩
    · exact Nat.le_refl _
    · have := h.below_write i a b hold
      omega
  · intro i j a b a' b' hij hi hj
    rcases hat i a b hi with ⟨rfl, rfl, rfl⟩ | ⟨hti, hi⟩ <;>
      rcases hat j a' b' hj with ⟨rfl, rfl, rfl⟩ | ⟨htj, hj⟩
    · exact absurd rfl hij
    · exact Or.inr (h.below_write j a' b' hj)
    · exact Or.inl (h.below_write i a b hi)
    · exact h.disjoint i j a b a' b' hij hi hj

/-- Past its reservation a thread keeps its range, and the step keeps both
indices. -/
theorem Inv.setThread_reserved {s s1 : State} {t : Nat} {th th' : Thread} (h : s.Inv q)
    (ht : s.threads[t]? = some th) (hpc : th.pc ≠ .start) (hpc' : th'.pc ≠ .start)
    (hw : th'.writeIndex = th.writeIndex) (hc : th'.copy = th.copy) (hw1 : s1.writeIndex = s.writeIndex)
    (hr1 : s1.readIndex = s.readIndex) (hth : s1.threads = s.threads) : (s1.setThread t th').Inv q := by
  have hr : th'.reservation = th.reservation := by
    simp [Thread.reservation, hpc, hpc', hw, hc]
  refine h.frame hw1 hr1 ?_
  rw [reservations_setThread (hth ▸ ht) hr]
  simp only [reservations, hth]

theorem Inv.submitLinearCopyCommand {s s' : State} {t : Nat} (h : s.Inv q)
    (hs : s.submitLinearCopyCommand q t = some s') : s'.Inv q := by
  unfold State.submitLinearCopyCommand at hs
  cases ht : s.threads[t]? with
  | none => simp [ht] at hs
  | some th =>
    rw [ht] at hs
    cases hpc : th.pc with
    | start =>
      simp only [hpc, acquireWriteIndex] at hs
      split at hs
      · next hfit =>
        simp only [Option.map_some, Option.some.injEq] at hs
        subst hs
        exact h.acquire hfit rfl
      · simp at hs
    | reserved | barriersWritten | argsWritten | populated =>
      -- the steps after the reservation: the thread keeps its range
      simp only [hpc, Option.some.injEq] at hs
      subst hs
      exact h.setThread_reserved ht (by simp [hpc]) (by simp) rfl rfl rfl rfl rfl
    | released => simp [hpc] at hs

/-- The processor takes a packet only below the write index. -/
theorem Inv.consume {s s' : State} (h : s.Inv q) (hs : s.consume q = some s') : s'.Inv q := by
  unfold State.consume at hs
  split at hs
  · next p _ _ =>
    split at hs
    · next hlt =>
      have hw := h.write_le
      cases p <;> simp only [Option.some.injEq] at hs <;> subst hs <;>
        exact ⟨by simp only; omega, by simp only; omega, h.below_write, h.disjoint⟩
    · simp at hs
  · simp at hs

theorem Inv.step {s s' : State} {e : Event} (h : s.Inv q) (hs : s.step q e = some s') : s'.Inv q := by
  cases e with
  | thread t => exact h.submitLinearCopyCommand hs
  | consume => exact h.consume hs
  | kernelRead i =>
    simp only [State.step, State.kernelRead] at hs
    split at hs
    · simp only [Option.some.injEq] at hs
      subst hs
      exact h.frame rfl rfl rfl
    · simp at hs
  | complete i =>
    simp only [State.step, State.complete] at hs
    split at hs
    · simp only [Option.some.injEq] at hs
      subst hs
      exact h.frame rfl rfl rfl
    · simp at hs

theorem inv_init (copies : List Copy) : (init q copies).Inv q where
  read_le_write := Nat.le_refl 0
  write_le := Nat.zero_le _
  below_write i a b hi := by simp [init, reservations, Thread.reservation] at hi
  disjoint i j a b a' b' _ hi _ := by simp [init, reservations, Thread.reservation] at hi

/-- In every reachable state the threads' reservations are disjoint, end
below the write index, and lie within one ring of the read index. -/
theorem Reachable.inv {copies : List Copy} {s : State} (h : Reachable q copies s) : s.Inv q := by
  induction h with
  | init => exact inv_init copies
  | step e _ hs ih => exact ih.step hs

/-- A schedule of events from a reachable state ends in a reachable state. -/
theorem Reachable.run {copies : List Copy} {s s' : State} (h : Reachable q copies s)
    {es : List Event} (hr : s.run q es = some s') : Reachable q copies s' := by
  induction es generalizing s with
  | nil =>
    cases hr
    exact h
  | cons e es ih =>
    obtain ⟨s₁, h₁, hr⟩ := Option.bind_eq_some_iff.mp hr
    exact ih (.step e h h₁) hr

/-- A queue of two packets on an agent with one CU group. -/
def twoPacketQueue : Queue := ⟨2, 1, ⟨1, rfl⟩, by decide⟩

/-- Threads `0` and `1` reserve packets `0` and `1`; thread `1` takes slot
`0` and writes its dispatch, thread `0` takes slot `1`, writes and rings; the
processor launches packet `0`.  Thread `2` now fits, reserves packet `2` and
takes slot `0` again; thread `1` rings, and its kernel, launched, reads the
bounds of thread `2`'s copy. -/
theorem kernarg_slot_reused :
    ((init twoPacketQueue [⟨0x10000, 0x20000, 0x1000, 0⟩, ⟨0x30000, 0x40000, 0x1000, 0⟩,
        ⟨0x50000, 0x60000, 0x1000, 0⟩]).run twoPacketQueue
      [.thread 0, .thread 1, .thread 1, .thread 1, .thread 1, .thread 0, .thread 0, .thread 0,
        .thread 0, .consume, .thread 2, .thread 2, .thread 2, .thread 1, .consume, .kernelRead 1]).map
      kernelReads = some [(1, some (copyKernelArgs 1 0x50000 0x60000 0x1000))] ∧
    copyKernelArgs 1 0x50000 0x60000 0x1000 ≠ copyKernelArgs 1 0x30000 0x40000 0x1000 := by
  decide

end State

end Blit
