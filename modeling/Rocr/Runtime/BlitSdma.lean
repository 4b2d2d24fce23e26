import Mathlib

/-!
# The SDMA ring of `BlitSdma`

`BlitSdma::SubmitCommand` puts a copy command on the ring of an SDMA engine:
under `reservation_lock_` it reserves `total_command_size + pad_size` bytes
(`AcquireWriteAddress`), writes the polls of the dependency signals, the
copy, the completion and interrupt commands and a no-op pad up to
`min_submission_size_`, and publishes the new write index once every earlier
reservation is published (`ReleaseWriteAddress`).  A reservation that would
run past the end of the ring first reserves the rest of the ring for no-ops
(`PadRingToEnd`) and starts again at the next lap.

The ring indices are `RingIndexTy` values, `uint32_t` or `uint64_t` by
instantiation, and wrap modulo `2^width`.  The engine's read index is the
hardware's `Queue_read_ptr`.

Alongside, `bytes_written_` records, for the slot of each command, how many
bytes had been queued once the engine passes it, and `PendingBytes` is the
bytes queued less the record at the read index.  Neither the no-op region of
`PadRingToEnd`, whose end wraps to `0` (`padRingToEnd_bytesWritten`), nor a
submission's trailing pad (`submitCommand_pad_unrecorded`) is recorded: a
call records only the slots of its commands (`submitCommand_bytesWritten`),
and a read index stopped at either pad sees a record left from an earlier
lap, or the initial `0` (`pending_bytes_at_pad`).
-/

namespace Sdma

/-- `BlitSdmaBase::kQueueSize`. -/
def kQueueSize : Nat := 1024 * 1024

theorem kQueueSize_eq : kQueueSize = 2 ^ 20 := rfl

/-- An instantiation of the `BlitSdma` template: the width of `RingIndexTy`,
`HwIndexMonotonic` and `useGCR`. -/
structure Variant where
  width : Nat
  hwIndexMonotonic : Bool
  useGCR : Bool
deriving DecidableEq, Repr

/-- `BlitSdmaV2V3`. -/
def blitSdmaV2V3 : Variant := ⟨32, false, false⟩

/-- `BlitSdmaV4`. -/
def blitSdmaV4 : Variant := ⟨64, true, false⟩

/-- `BlitSdmaV5`. -/
def blitSdmaV5 : Variant := ⟨64, true, true⟩

/-- `a + b` in `RingIndexTy`. -/
def Variant.add (v : Variant) (a b : Nat) : Nat := (a + b) % 2 ^ v.width

/-- `a - b` in `RingIndexTy`. -/
def Variant.sub (v : Variant) (a b : Nat) : Nat := (a + (2 ^ v.width - b % 2 ^ v.width)) % 2 ^ v.width

/-- The engine's side: the instantiation, `platform_atomic_support_` and
`min_submission_size_`. -/
structure Engine where
  variant : Variant
  platformAtomicSupport : Bool
  minSubmissionSize : Nat

/-- The sizes of the SDMA packets `SubmitCommand` writes. -/
def linearCopyCommandSize : Nat := 28
def fenceCommandSize : Nat := 16
def pollCommandSize : Nat := 24
def flushCommandSize : Nat := 24
def atomicCommandSize : Nat := 32
def timestampCommandSize : Nat := 12
def trapCommandSize : Nat := 8
def gcrCommandSize : Nat := 20

/-- `WrapIntoRing`. -/
def wrapIntoRing (index : Nat) : Nat := index &&& (kQueueSize - 1)

theorem wrapIntoRing_eq_mod (index : Nat) : wrapIntoRing index = index % kQueueSize := by
  rw [wrapIntoRing, kQueueSize_eq, Nat.and_two_pow_sub_one_eq_mod]

/-- The slot of `bytes_written_` for a ring offset: the first `uint64_t`
beginning at or after it. -/
def convert (index : Nat) : Nat := (index + 8 - 1) / 8

/-- `bytes_written_[index] = value`. -/
def setBytesWritten (data : Nat → Nat) (index value : Nat) : Nat → Nat :=
  fun i => if i = convert index then value else data i

/-- `bytes_written_.fill(start, stop, value)`. -/
def fillBytesWritten (data : Nat → Nat) (start stop value : Nat) : Nat → Nat :=
  fun i => if convert start ≤ i ∧ i < convert stop then value else data i

/-- The engine's ring: the reserve and commit indices, the hardware read,
write and doorbell registers, the bytes queued, and `bytes_written_` by
slot. -/
structure State where
  cachedReserveIndex : Nat
  cachedCommitIndex : Nat
  queueReadPtr : Nat
  queueWritePtr : Nat
  queueDoorbell : Nat
  bytesQueued : Nat
  bytesWritten : Nat → Nat

/-- The ring after `Initialize`: every index `0`, and `bytes_written_`
zeroed by `resize`. -/
def State.init : State := ⟨0, 0, 0, 0, 0, 0, fun _ => 0⟩

/-- A command of a submission: a packet whose slot records the bytes queued
before the submission or after it, or the copy command, whose slots all
record the bytes before it. -/
inductive Command where
  | packet (size : Nat) (post : Bool)
  | copy (size : Nat)
deriving DecidableEq, Repr

def Command.size : Command → Nat
  | .packet size _ => size
  | .copy size => size

/-- What a `SubmitCommand` call puts on the ring: its copy command and the
bytes it moves, the values of its dependency signals, whether it takes
timestamps (`profiling_enabled` for a gang leader or a call outside a gang),
whether the HDP flush is enabled and supported, the number of gang signals
of a gang leader, the completion signal's value less one, and whether the
signal has a mailbox. -/
structure Submission where
  cmdSize : Nat
  size : Nat
  depSignalValues : List Nat
  timestamps : Bool
  hdpFlush : Bool
  gangSignals : Nat
  completionSignalValue : Nat
  mailbox : Bool
deriving DecidableEq, Repr

/-- The polls of the dependency signals: one for a signal, two when its
upper half is set. -/
def pollCommands (depSignalValues : List Nat) : List Command :=
  depSignalValues.flatMap fun value =>
    if value = 0 then []
    else if value >>> 32 ≠ 0 then [.packet pollCommandSize false, .packet pollCommandSize false]
    else [.packet pollCommandSize false]

/-- The commands of a gang leader: for each gang signal, a poll for the gang
item and its decrement. -/
def gangCommands (e : Engine) (gangSignals : Nat) : List Command :=
  (List.replicate gangSignals
    [.packet pollCommandSize false,
      .packet (if e.platformAtomicSupport then atomicCommandSize else fenceCommandSize) true]).flatten

/-- The decrement of the completion signal: an atomic, or one or two
fences. -/
def syncCommands (e : Engine) (completionSignalValue : Nat) : List Command :=
  if e.platformAtomicSupport then [.packet atomicCommandSize true]
  else if completionSignalValue > 2 ^ 32 - 1 then [.packet fenceCommandSize true, .packet fenceCommandSize true]
  else [.packet fenceCommandSize true]

/-- The commands of `SubmitCommand`, in the order it writes them. -/
def commands (e : Engine) (sub : Submission) : List Command :=
  List.flatten
    [pollCommands sub.depSignalValues,
      if sub.timestamps then [.packet timestampCommandSize false] else [],
      if e.variant.hwIndexMonotonic && sub.hdpFlush then [.packet flushCommandSize false] else [],
      if e.variant.useGCR then [.packet gcrCommandSize false] else [],
      [.copy sub.cmdSize],
      if e.variant.useGCR then [.packet gcrCommandSize true] else [],
      if sub.timestamps then [.packet timestampCommandSize true] else [],
      gangCommands e sub.gangSignals,
      syncCommands e sub.completionSignalValue,
      if sub.mailbox then [.packet fenceCommandSize true, .packet trapCommandSize true] else []]

/-- `total_command_size`. -/
def totalCommandSize (e : Engine) (sub : Submission) : Nat := ((commands e sub).map Command.size).sum

/-- `pad_size`. -/
def padSize (e : Engine) (sub : Submission) : Nat :=
  if totalCommandSize e sub < e.minSubmissionSize then e.minSubmissionSize - totalCommandSize e sub else 0

/-- The records `SubmitCommand` makes in `bytes_written_` for its commands,
from the wrapped index on. -/
def recordCommands (prior post : Nat) : List Command → Nat → (Nat → Nat) → Nat → Nat
  | [], _, data => data
  | .packet size isPost :: cmds, wrappedIndex, data =>
    recordCommands prior post cmds (wrappedIndex + size)
      (setBytesWritten data wrappedIndex (if isPost then post else prior))
  | .copy size :: cmds, wrappedIndex, data =>
    recordCommands prior post cmds (wrappedIndex + size) (fillBytesWritten data wrappedIndex (wrappedIndex + size) prior)

namespace State

variable (v : Variant)

/-- The read index: the hardware's for a monotonic one, else the index below
the commit index that the hardware's offset into the ring names. -/
def readIndex (s : State) : Nat :=
  if v.hwIndexMonotonic then s.queueReadPtr
  else
    let distToReadIndex := wrapIntoRing (v.sub s.cachedCommitIndex s.queueReadPtr)
    v.sub s.cachedCommitIndex distToReadIndex

/-- `CanWriteUpto`: the read index has come within one ring of `upto`. -/
def canWriteUpto (s : State) (uptoIndex : Nat) : Bool := v.sub uptoIndex (s.readIndex v) < kQueueSize

/-- `UpdateWriteAndDoorbellRegister`, once every earlier reservation is
published (`none` while the commit index is not yet `curr`). -/
def updateWriteAndDoorbellRegister (s : State) (currIndex newIndex : Nat) : Option State :=
  if s.cachedCommitIndex = currIndex then
    let hw := if v.hwIndexMonotonic then newIndex else wrapIntoRing newIndex
    some { s with queueWritePtr := hw, queueDoorbell := hw, cachedCommitIndex := newIndex }
  else none

/-- `PadRingToEnd`: reserve the rest of the ring for no-ops, record them in
`bytes_written_` and publish them; `none` while the engine has not read far
enough. -/
def padRingToEnd (s : State) (currIndex : Nat) : Option State :=
  let newIndex := v.add currIndex (kQueueSize - wrapIntoRing currIndex)
  if !s.canWriteUpto v newIndex then none
  else
    let s := { s with
      cachedReserveIndex := newIndex
      bytesWritten := fillBytesWritten s.bytesWritten (wrapIntoRing currIndex) (wrapIntoRing newIndex)
        s.bytesQueued }
    s.updateWriteAndDoorbellRegister v currIndex newIndex

/-- The loop of `AcquireWriteAddress`: the index reserved, or `none` while it
waits for the engine. -/
def acquireWriteAddress (cmdSize : Nat) : Nat → State → Option (Nat × State)
  | 0, _ => none
  | fuel + 1, s =>
    let currIndex := s.cachedReserveIndex
    -- a region crossing the end of the ring: pad to the end and retry
    if wrapIntoRing (v.add currIndex cmdSize) < cmdSize then
      (s.padRingToEnd v currIndex).bind (acquireWriteAddress cmdSize fuel)
    else
      let newIndex := v.add currIndex cmdSize
      if !s.canWriteUpto v newIndex then none
      else some (currIndex, { s with cachedReserveIndex := newIndex })

/-- `ReleaseWriteAddress`. -/
def releaseWriteAddress (s : State) (currIndex cmdSize : Nat) : Option State :=
  if cmdSize > kQueueSize then some s
  else s.updateWriteAndDoorbellRegister v currIndex (v.add currIndex cmdSize)

end State

/-- `HSA_STATUS_SUCCESS`, or `HSA_STATUS_ERROR_OUT_OF_RESOURCES` for a
submission as large as the ring. -/
inductive Status where
  | success
  | errorOutOfResources
deriving DecidableEq, Repr

namespace State

/-- `SubmitCommand` on an engine with nothing else in flight; `none` while
it waits for the engine to read. -/
def submitCommand (e : Engine) (s : State) (sub : Submission) : Option (Status × State) :=
  let cmdSize := totalCommandSize e sub + padSize e sub
  -- the ring is full when all but one byte is written
  if cmdSize ≥ kQueueSize then some (.errorOutOfResources, s)
  else
    match acquireWriteAddress e.variant cmdSize 2 s with
    | none => none
    | some (currIndex, s) =>
      let prior := s.bytesQueued
      let post := (s.bytesQueued + sub.size) % 2 ^ 64
      let data := recordCommands prior post (commands e sub) (wrapIntoRing currIndex) s.bytesWritten
      let s := { s with bytesQueued := post, bytesWritten := data }
      (s.releaseWriteAddress e.variant currIndex cmdSize).map fun s => (.success, s)

/-- The engine reads on to `read`. -/
def advance (s : State) (read : Nat) : State := { s with queueReadPtr := read }

/-- `PendingBytes`. -/
def pendingBytes (v : Variant) (s : State) : Nat :=
  let commit := s.cachedCommitIndex
  let read := s.readIndex v
  if commit = read then 0
  else (s.bytesQueued + (2 ^ 64 - s.bytesWritten (convert (wrapIntoRing read)))) % 2 ^ 64

end State

/-- A fill whose end slot is not past its start slot writes nothing. -/
theorem fillBytesWritten_of_le {data : Nat → Nat} {start stop value : Nat} (h : convert stop ≤ convert start) :
    fillBytesWritten data start stop value = data := by
  funext i
  simp only [fillBytesWritten]
  rw [if_neg (by omega)]

/-- The end of `PadRingToEnd`'s region wraps to `0`, so it records nothing in
`bytes_written_`: a read index in its no-ops finds what an earlier lap left
there. -/
theorem padRingToEnd_bytesWritten {v : Variant} (hw : 20 ≤ v.width) {s s' : State} {currIndex : Nat}
    (h : s.padRingToEnd v currIndex = some s') : s'.bytesWritten = s.bytesWritten := by
  -- `curr + (kQueueSize - curr % kQueueSize)` is a multiple of `kQueueSize`, which divides `2^width`
  have hdvd : kQueueSize ∣ 2 ^ v.width := by
    rw [kQueueSize_eq]
    exact Nat.pow_dvd_pow 2 hw
  have hwrap : wrapIntoRing (v.add currIndex (kQueueSize - wrapIntoRing currIndex)) = 0 := by
    rw [wrapIntoRing_eq_mod, wrapIntoRing_eq_mod, Variant.add, Nat.mod_mod_of_dvd _ hdvd, kQueueSize]
    omega
  unfold State.padRingToEnd at h
  dsimp only at h
  split at h
  · cases h
  · simp only [State.updateWriteAndDoorbellRegister] at h
    split at h
    · simp only [Option.some.injEq] at h
      subst h
      simp only [hwrap]
      exact fillBytesWritten_of_le (Nat.zero_le _)
    · cases h

/-- The records of commands written from `start` lie below the slot of
their end, where every packet is at least a slot long. -/
theorem recordCommands_above {prior post : Nat} (cmds : List Command)
    (hsz : ∀ size isPost, Command.packet size isPost ∈ cmds → 8 ≤ size) (start : Nat) (data : Nat → Nat)
    {i : Nat} (hi : convert (start + (cmds.map Command.size).sum) ≤ i) :
    recordCommands prior post cmds start data i = data i := by
  induction cmds generalizing start data with
  | nil => rfl
  | cons cmd cmds ih =>
    have hrest : ∀ size isPost, Command.packet size isPost ∈ cmds → 8 ≤ size :=
      fun size isPost hm => hsz size isPost (List.mem_cons_of_mem _ hm)
    simp only [List.map_cons, List.sum_cons] at hi
    cases cmd with
    | packet size isPost =>
      have h8 := hsz size isPost List.mem_cons_self
      rw [recordCommands, ih hrest _ _ (by simp only [Command.size] at hi ⊢; rwa [Nat.add_assoc])]
      -- the packet's slot is below the end of the commands
      simp only [setBytesWritten, convert, Command.size] at hi ⊢
      exact if_neg (by omega)
    | copy size =>
      rw [recordCommands, ih hrest _ _ (by simp only [Command.size] at hi ⊢; rwa [Nat.add_assoc])]
      simp only [fillBytesWritten, convert, Command.size] at hi ⊢
      exact if_neg (by omega)

/-- Every packet of a submission is at least a slot of `bytes_written_`
long. -/
theorem commands_packet_size {e : Engine} {sub : Submission} {size : Nat} {isPost : Bool}
    (h : Command.packet size isPost ∈ commands e sub) : 8 ≤ size := by
  simp [commands, pollCommands, gangCommands, syncCommands, mem_ite, pollCommandSize, timestampCommandSize,
    flushCommandSize, gcrCommandSize, atomicCommandSize, fenceCommandSize, trapCommandSize] at h
  -- the polls of the dependency signals, then the packets of fixed size
  rcases h with ⟨a, -, h⟩ | h <;> grind

/-- `SubmitCommand` records nothing past its commands: the slots of its
trailing pad keep what they held. -/
theorem submitCommand_pad_unrecorded (e : Engine) (sub : Submission) (prior post start : Nat)
    (data : Nat → Nat) {i : Nat} (hi : convert (start + totalCommandSize e sub) ≤ i) :
    recordCommands prior post (commands e sub) start data i = data i :=
  recordCommands_above _ (fun _ _ hm => commands_packet_size hm) start data hi

/-- The records of commands written from `start` lie at or above its slot. -/
theorem recordCommands_below {prior post : Nat} (cmds : List Command) (start : Nat) (data : Nat → Nat)
    {i : Nat} (hi : i < convert start) : recordCommands prior post cmds start data i = data i := by
  induction cmds generalizing start data with
  | nil => rfl
  | cons cmd cmds ih =>
    -- the next command starts no lower, so `i` stays below its slot
    have hnext : ∀ size, i < convert (start + size) := fun size => by
      simp only [convert] at hi ⊢
      omega
    cases cmd with
    | packet size isPost =>
      rw [recordCommands, ih _ _ (hnext size)]
      simp only [setBytesWritten]
      exact if_neg (by omega)
    | copy size =>
      rw [recordCommands, ih _ _ (hnext size)]
      simp only [fillBytesWritten]
      exact if_neg (by omega)

/-- Reserving ring space records nothing in `bytes_written_`, even when it
pads to the end of the ring first. -/
theorem acquireWriteAddress_bytesWritten {v : Variant} (hw : 20 ≤ v.width) {cmdSize : Nat} (fuel : Nat)
    {s s' : State} {currIndex : Nat} (h : State.acquireWriteAddress v cmdSize fuel s = some (currIndex, s')) :
    s'.bytesWritten = s.bytesWritten := by
  induction fuel generalizing s with
  | zero => cases h
  | succ fuel ih =>
    unfold State.acquireWriteAddress at h
    dsimp only at h
    split at h
    · obtain ⟨s₁, hpad, hrest⟩ := Option.bind_eq_some_iff.1 h
      rw [ih hrest, padRingToEnd_bytesWritten hw hpad]
    · split at h
      · cases h
      · cases h
        rfl

/-- Publishing the write index records nothing in `bytes_written_`. -/
theorem releaseWriteAddress_bytesWritten {v : Variant} {s s' : State} {currIndex cmdSize : Nat}
    (h : s.releaseWriteAddress v currIndex cmdSize = some s') : s'.bytesWritten = s.bytesWritten := by
  unfold State.releaseWriteAddress State.updateWriteAndDoorbellRegister at h
  split at h
  · cases h
    rfl
  · split at h
    · cases h
      rfl
    · cases h

/-- Publishing the write index moves the commit index to the end of the
reservation. -/
theorem releaseWriteAddress_commit {v : Variant} {s s' : State} {currIndex cmdSize : Nat}
    (hsize : cmdSize ≤ kQueueSize) (h : s.releaseWriteAddress v currIndex cmdSize = some s') :
    s'.cachedCommitIndex = v.add currIndex cmdSize := by
  unfold State.releaseWriteAddress State.updateWriteAndDoorbellRegister at h
  rw [if_neg (by omega)] at h
  split at h
  · cases h
    rfl
  · cases h

/-- **What `SubmitCommand` records.**  On every instantiation, a call that
succeeds publishes the ring up to the end of the region it reserved, and
changes `bytes_written_` only in the slots of its commands, from the slot of
the reserved offset to the slot of their end: neither the no-ops of
`PadRingToEnd` nor its own trailing pad are recorded. -/
theorem submitCommand_bytesWritten {e : Engine} (hw : 20 ≤ e.variant.width) {s s' : State}
    {sub : Submission} (h : s.submitCommand e sub = some (.success, s')) :
    ∃ currIndex, s'.cachedCommitIndex =
        e.variant.add currIndex (totalCommandSize e sub + padSize e sub) ∧
      ∀ i, i < convert (wrapIntoRing currIndex) ∨
          convert (wrapIntoRing currIndex + totalCommandSize e sub) ≤ i →
        s'.bytesWritten i = s.bytesWritten i := by
  unfold State.submitCommand at h
  dsimp only at h
  split at h
  · -- a submission as large as the ring fails
    cases h
  · rename_i hsize
    split at h
    · cases h
    · rename_i currIndex s₁ hacq
      obtain ⟨s₂, hrel, hst⟩ := Option.map_eq_some_iff.1 h
      cases hst
      refine ⟨currIndex, releaseWriteAddress_commit (by omega) hrel, fun i hi => ?_⟩
      rw [releaseWriteAddress_bytesWritten hrel, ← acquireWriteAddress_bytesWritten hw 2 hacq]
      rcases hi with hi | hi
      · exact recordCommands_below _ _ _ hi
      · exact submitCommand_pad_unrecorded e sub _ _ _ _ hi

/-- A 28-byte copy with its 32-byte atomic on a `BlitSdmaV4` engine with a
minimum submission of 256 bytes. -/
theorem submitCommand_bytesWritten_copy :
    ∃ s', State.init.submitCommand ⟨blitSdmaV4, true, 256⟩ ⟨28, 0x1000, [], false, false, 0, 0, false⟩ =
        some (.success, s') ∧
      ∃ currIndex, s'.cachedCommitIndex = blitSdmaV4.add currIndex
          (totalCommandSize ⟨blitSdmaV4, true, 256⟩ ⟨28, 0x1000, [], false, false, 0, 0, false⟩ +
            padSize ⟨blitSdmaV4, true, 256⟩ ⟨28, 0x1000, [], false, false, 0, 0, false⟩) ∧
        ∀ i, i < convert (wrapIntoRing currIndex) ∨ convert (wrapIntoRing currIndex +
            totalCommandSize ⟨blitSdmaV4, true, 256⟩ ⟨28, 0x1000, [], false, false, 0, 0, false⟩) ≤ i →
          s'.bytesWritten i = State.init.bytesWritten i := by
  obtain ⟨s', h⟩ : ∃ s', State.init.submitCommand ⟨blitSdmaV4, true, 256⟩
      ⟨28, 0x1000, [], false, false, 0, 0, false⟩ = some (.success, s') := ⟨_, rfl⟩
  exact ⟨s', h, submitCommand_bytesWritten (by decide) h⟩

/-- On a `BlitSdmaV4` engine with a minimum submission of 256 bytes, a copy
of `0x1000` bytes (one 28-byte copy packet and the 32-byte atomic) is padded
with 196 bytes of no-ops; with the engine stopped at the pad, past the copy,
`PendingBytes` is `0x1000`.  With no minimum, a copy of `0x1000` bytes taking
560032 bytes of ring, read by the engine, then a copy of `0x2000` bytes
taking 504032: the second pads the rest of the first lap; with the engine
stopped at that pad, past the first copy and before the second,
`PendingBytes` is `0x3000`. -/
theorem pending_bytes_at_pad :
    ((State.init.submitCommand ⟨blitSdmaV4, true, 256⟩ ⟨28, 0x1000, [], false, false, 0, 0, false⟩).map
        fun r => (r.2.cachedCommitIndex, (r.2.advance 60).pendingBytes blitSdmaV4)) = some (256, 0x1000) ∧
    ((State.init.submitCommand ⟨blitSdmaV4, true, 0⟩ ⟨560000, 0x1000, [], false, false, 0, 0, false⟩).bind
        fun r => ((r.2.advance 560032).submitCommand ⟨blitSdmaV4, true, 0⟩
          ⟨504000, 0x2000, [], false, false, 0, 0, false⟩).map
            fun r => (r.2.cachedCommitIndex, r.2.pendingBytes blitSdmaV4)) = some (1552608, 0x3000) := by
  decide +kernel

end Sdma
