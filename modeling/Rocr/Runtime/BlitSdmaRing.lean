import Rocr.Runtime.BlitSdma

/-!
# Concurrent submissions on the SDMA ring

Any number of threads run `BlitSdma::SubmitCommand` on one engine.  Each
takes `reservation_lock_` and runs `AcquireWriteAddress` under it: the
reservation of its `total_command_size + pad_size` bytes at the reserve
index, which waits (`CanWriteUpto`) until the engine has read far enough,
and pads the rest of the ring first (`PadRingToEnd`) when the bytes would
run past its end.  The padding is published at once, inside the lock, once
every earlier reservation is published; the thread's own reservation is
published after the lock is released (`ReleaseWriteAddress`), again in
order.  Meanwhile the engine reads on, never past the published write
index.

The machine state is the engine's `State`, with its `RingIndexTy` values
modulo `2^width`; beside it the system keeps the unbounded indices these
values stand for (`reserve`, `commit`, `read`) and each thread's program
counter, whose indices are unbounded too.  In every reachable state
(`reachable_ring_safe`) the read, commit and reserve indices are ordered
within one ring, the reservations outstanding are disjoint, lie after the
commit index and each within one lap of the ring, and the read index the
code reconstructs for a wrapping hardware index is the engine's; every step
moves the reserve and commit indices forward only, and publishes a
reservation only when every reservation before it is published.
-/

namespace Sdma

/-- Where a `SubmitCommand` thread is: before the lock; at the top of the
loop of `AcquireWriteAddress`; in `CanWriteUpto` having loaded the hardware
read pointer `hwReadIndex` but not yet the commit index; waiting to publish
the no-ops of `PadRingToEnd` over `[curr, new)`; holding its reservation
from `curr` with the lock released; or returned. -/
inductive Pc where
  | idle
  | acquire
  | checkRead (hwReadIndex : Nat)
  | padWait (curr new : Nat)
  | reserved (curr : Nat)
  | done
deriving DecidableEq, Repr

/-- The program counters inside `reservation_lock_`. -/
def Pc.holdsLock : Pc → Bool
  | .acquire | .checkRead _ | .padWait _ _ => true
  | _ => false

/-- A thread, with the size it reserves: a submission always has a copy and
a completion command, so it is never empty. -/
structure Thread where
  cmdSize : Nat
  cmdSize_pos : 0 < cmdSize
  pc : Pc

/-- The reservation a thread holds. -/
def Thread.segment (th : Thread) : Option (Nat × Nat) :=
  match th.pc with
  | .padWait curr new => some (curr, new)
  | .reserved curr => some (curr, curr + th.cmdSize)
  | _ => none

/-- The engine's machine state, the indices its values stand for, the holder
of `reservation_lock_` and the threads. -/
structure Ring where
  sdma : State
  reserve : Nat
  commit : Nat
  read : Nat
  lock : Option Nat
  threads : List Thread

/-- A step: a thread's, or the engine reading `d` bytes on. -/
inductive Event where
  | lock (t : Nat)
  | loadReadPtr (t : Nat)
  | acquire (t : Nat)
  | padPublish (t : Nat)
  | release (t : Nat)
  | engine (d : Nat)
deriving DecidableEq, Repr

namespace Ring

variable (v : Variant)

/-- The engine's read register for the read index `x`: the index itself,
or its offset in the ring for a wrapping hardware index. -/
def hwIndex (x : Nat) : Nat := if v.hwIndexMonotonic then x % 2 ^ v.width else wrapIntoRing x

/-- A fresh engine and a thread for each reservation size. -/
def init (sizes : List { n : Nat // 0 < n }) : Ring :=
  ⟨State.init, 0, 0, 0, none, sizes.map fun n => ⟨n.1, n.2, .idle⟩⟩

def setThread (s : Ring) (t : Nat) (th : Thread) : Ring := { s with threads := s.threads.set t th }

/-- Taking `reservation_lock_`; a reservation as large as the ring fails at
once (`nullptr`, and `HSA_STATUS_ERROR_OUT_OF_RESOURCES`) and gives the lock
back. -/
def lockStep (s : Ring) (t : Nat) : Option Ring :=
  match s.threads[t]? with
  | some ⟨n, hn, .idle⟩ =>
    if s.lock = none then
      -- the ring is full when all but one byte is written
      if n ≥ kQueueSize then some (s.setThread t ⟨n, hn, .done⟩)
      else some ({ s with lock := some t }.setThread t ⟨n, hn, .acquire⟩)
    else none
  | _ => none

/-- `CanWriteUpto` loads the hardware read pointer. -/
def loadReadPtrStep (s : Ring) (t : Nat) : Option Ring :=
  match s.threads[t]? with
  | some ⟨n, hn, .acquire⟩ => some (s.setThread t ⟨n, hn, .checkRead s.sdma.queueReadPtr⟩)
  | _ => none

/-- The rest of one round of the loop of `AcquireWriteAddress`, with the read
pointer as loaded and the commit index as it is now: wait and go round
again, pad the ring to its end, or reserve.  `reservation_lock_` makes the
`Cas` on `cached_reserve_index_` succeed. -/
def acquireStep (s : Ring) (t : Nat) : Option Ring :=
  match s.threads[t]? with
  | some ⟨n, hn, .checkRead hw⟩ =>
    let engine := { s.sdma with queueReadPtr := hw }
    let currIndex := s.sdma.cachedReserveIndex
    if wrapIntoRing (v.add currIndex n) < n then
      -- `PadRingToEnd`: reserve the rest of the ring for no-ops
      let pad := kQueueSize - wrapIntoRing currIndex
      let newIndex := v.add currIndex pad
      if engine.canWriteUpto v newIndex then
        let sdma := { s.sdma with
          cachedReserveIndex := newIndex
          bytesWritten := fillBytesWritten s.sdma.bytesWritten (wrapIntoRing currIndex)
            (wrapIntoRing newIndex) s.sdma.bytesQueued }
        some ({ s with sdma := sdma, reserve := s.reserve + pad }.setThread t
          ⟨n, hn, .padWait s.reserve (s.reserve + pad)⟩)
      else some (s.setThread t ⟨n, hn, .acquire⟩)
    else
      let newIndex := v.add currIndex n
      if engine.canWriteUpto v newIndex then
        let sdma := { s.sdma with cachedReserveIndex := newIndex }
        some ({ s with sdma := sdma, reserve := s.reserve + n, lock := none }.setThread t
          ⟨n, hn, .reserved s.reserve⟩)
      else some (s.setThread t ⟨n, hn, .acquire⟩)
  | _ => none

/-- The no-ops of `PadRingToEnd` published, once every earlier reservation
is; the holder goes round the loop again. -/
def padPublishStep (s : Ring) (t : Nat) : Option Ring :=
  match s.threads[t]? with
  | some ⟨n, hn, .padWait curr new⟩ =>
    (s.sdma.updateWriteAndDoorbellRegister v (curr % 2 ^ v.width) (new % 2 ^ v.width)).map fun sdma =>
      { s with sdma := sdma, commit := new }.setThread t ⟨n, hn, .acquire⟩
  | _ => none

/-- `ReleaseWriteAddress` of a thread's reservation, once every earlier
reservation is published. -/
def releaseStep (s : Ring) (t : Nat) : Option Ring :=
  match s.threads[t]? with
  | some ⟨n, hn, .reserved curr⟩ =>
    (s.sdma.releaseWriteAddress v (curr % 2 ^ v.width) n).map fun sdma =>
      { s with sdma := sdma, commit := curr + n }.setThread t ⟨n, hn, .done⟩
  | _ => none

/-- The engine reads `d` bytes on, not past the published write index. -/
def engineStep (s : Ring) (d : Nat) : Option Ring :=
  if s.read + d ≤ s.commit then
    some { s with read := s.read + d, sdma := { s.sdma with queueReadPtr := hwIndex v (s.read + d) } }
  else none

def step (s : Ring) : Event → Option Ring
  | .lock t => s.lockStep t
  | .loadReadPtr t => s.loadReadPtrStep t
  | .acquire t => s.acquireStep v t
  | .padPublish t => s.padPublishStep v t
  | .release t => s.releaseStep v t
  | .engine d => s.engineStep v d

/-- A run of events, stopping at the first that cannot be taken. -/
def run (s : Ring) : List Event → Option Ring
  | [] => some s
  | e :: es => (s.step v e).bind fun s' => run s' es

/-- The states reachable from the threads of `sizes`, over every
interleaving. -/
inductive Reachable (sizes : List { n : Nat // 0 < n }) : Ring → Prop
  | init : Reachable sizes (init sizes)
  | step {s s' : Ring} (e : Event) : Reachable sizes s → s.step v e = some s' → Reachable sizes s'

/-- The reservations of distinct threads do not overlap. -/
def SegmentsDisjoint (ts : List Thread) : Prop :=
  ∀ (t u : Nat) (th th' : Thread) (a b a' b' : Nat), t ≠ u → ts[t]? = some th → ts[u]? = some th' →
    th.segment = some (a, b) → th'.segment = some (a', b') → b ≤ a' ∨ b' ≤ a

/-- What the invariant asks of thread `t`: inside the lock, the lock is its
own and it reserves less than the ring; the read pointer it has loaded is
that of a read index at most the engine's and less than a ring behind the
reserve index; its reservation lies after the commit index, up to the
reserve index, and within one lap of the ring. -/
structure ThreadInv (s : Ring) (t : Nat) (th : Thread) : Prop where
  holder : th.pc.holdsLock → s.lock = some t
  size_lt : th.pc.holdsLock → th.cmdSize < kQueueSize
  snapshot : ∀ hw, th.pc = .checkRead hw →
    ∃ r, hw = hwIndex v r ∧ r ≤ s.read ∧ s.reserve < r + kQueueSize
  bounds : ∀ a b, th.segment = some (a, b) → s.commit ≤ a ∧ a < b ∧ b ≤ s.reserve
  lap : ∀ a b, th.segment = some (a, b) → wrapIntoRing a + (b - a) ≤ kQueueSize

/-- The invariant: the engine reads behind the commit index, which is at most
the reserve index, less than a ring ahead of the read index; the engine's
registers hold these indices truncated to `RingIndexTy`; every thread keeps
`ThreadInv`, and the reservations are disjoint. -/
structure Inv (s : Ring) : Prop where
  read_le_commit : s.read ≤ s.commit
  commit_le_reserve : s.commit ≤ s.reserve
  reserve_lt : s.reserve < s.read + kQueueSize
  reserveIndex_eq : s.sdma.cachedReserveIndex = s.reserve % 2 ^ v.width
  commitIndex_eq : s.sdma.cachedCommitIndex = s.commit % 2 ^ v.width
  readPtr_eq : s.sdma.queueReadPtr = hwIndex v s.read
  writePtr_eq : s.sdma.queueWritePtr = hwIndex v s.commit
  doorbell_eq : s.sdma.queueDoorbell = hwIndex v s.commit
  threads : ∀ t th, s.threads[t]? = some th → ThreadInv v s t th
  disjoint : SegmentsDisjoint s.threads

/-! ## Indices modulo the width of `RingIndexTy` -/

section Arith

variable {v : Variant}

theorem width_ge (hv : v.width = 32 ∨ v.width = 64) : 20 ≤ v.width := by
  omega

/-- The ring's offset of an index survives the truncation to `RingIndexTy`. -/
theorem wrapIntoRing_mod_width (hw : 20 ≤ v.width) (x : Nat) :
    wrapIntoRing (x % 2 ^ v.width) = x % kQueueSize := by
  rw [wrapIntoRing_eq_mod, kQueueSize_eq]
  exact Nat.mod_mod_of_dvd x (Nat.pow_dvd_pow 2 hw)

theorem add_mod_width (x n : Nat) : v.add (x % 2 ^ v.width) n = (x + n) % 2 ^ v.width := by
  simp [Variant.add]

/-- The wrapping difference of two indices is their distance when it fits. -/
theorem sub_mod_width (hv : v.width = 32 ∨ v.width = 64) {x y : Nat} (hyx : y ≤ x)
    (hlt : x - y < 2 ^ v.width) : v.sub (x % 2 ^ v.width) y = x - y := by
  unfold Variant.sub
  rcases hv with h | h <;> rw [h] at hlt ⊢ <;> omega

/-- Two indices less than a lap of `RingIndexTy` apart are equal when their
truncations are. -/
theorem eq_of_mod_width (hv : v.width = 32 ∨ v.width = 64) {x y : Nat} (hxy : x ≤ y)
    (hlt : y < x + 2 ^ v.width) (h : x % 2 ^ v.width = y % 2 ^ v.width) : x = y := by
  rcases hv with hw | hw <;> rw [hw] at hlt h <;> omega

theorem hwIndex_mod_width (hw : 20 ≤ v.width) (x : Nat) :
    (if v.hwIndexMonotonic then x % 2 ^ v.width else wrapIntoRing (x % 2 ^ v.width)) = hwIndex v x := by
  simp [hwIndex, wrapIntoRing_mod_width hw, wrapIntoRing_eq_mod]

/-- `CanWriteUpto` reconstructs the read index from the commit index and the
read register: the read index itself when the commit index is less than a
ring ahead of it. -/
theorem readIndex_eq_mod (hv : v.width = 32 ∨ v.width = 64) {st : State} {r c : Nat}
    (hc : st.cachedCommitIndex = c % 2 ^ v.width) (hr : st.queueReadPtr = hwIndex v r)
    (hrc : r ≤ c) (hcr : c < r + kQueueSize) : st.readIndex v = r % 2 ^ v.width := by
  unfold State.readIndex
  rw [hc, hr]
  cases hm : v.hwIndexMonotonic
  · simp only [hwIndex, hm, wrapIntoRing_eq_mod, Bool.false_eq_true, if_false]
    unfold Variant.sub
    rcases hv with h | h <;> rw [h] <;> simp only [kQueueSize] at hcr ⊢ <;> omega
  · simp [hwIndex, hm]

/-- `CanWriteUpto` against a read index `r`: whether `x` is less than a
ring ahead of it. -/
theorem canWriteUpto_mod (hv : v.width = 32 ∨ v.width = 64) {st : State} {r x : Nat}
    (hread : st.readIndex v = r % 2 ^ v.width) (hrx : r ≤ x) (hx : x < r + 2 * kQueueSize) :
    st.canWriteUpto v (x % 2 ^ v.width) = decide (x < r + kQueueSize) := by
  have hlt : x - r < 2 ^ v.width := by
    rcases hv with h | h <;> rw [h] <;> simp only [kQueueSize] at hx <;> omega
  unfold State.canWriteUpto
  rw [hread, Variant.sub, Nat.mod_mod, ← Variant.sub, sub_mod_width hv hrx hlt]
  simp only [decide_eq_decide]
  omega

end Arith

/-! ## Steps -/

section Steps

variable {v : Variant} {s s' : Ring} {t : Nat}

@[simp] theorem setThread_sdma (th : Thread) : (s.setThread t th).sdma = s.sdma := rfl
@[simp] theorem setThread_reserve (th : Thread) : (s.setThread t th).reserve = s.reserve := rfl
@[simp] theorem setThread_commit (th : Thread) : (s.setThread t th).commit = s.commit := rfl
@[simp] theorem setThread_read (th : Thread) : (s.setThread t th).read = s.read := rfl
@[simp] theorem setThread_lock (th : Thread) : (s.setThread t th).lock = s.lock := rfl
@[simp] theorem setThread_threads (th : Thread) : (s.setThread t th).threads = s.threads.set t th := rfl

theorem getElem?_set_self_eq {α : Type} {l : List α} {x y : α} (h : (l.set t x)[t]? = some y) :
    y = x := by
  rw [List.getElem?_set_self'] at h
  cases hl : l[t]? <;> simp_all

/-- A property of every entry of a list holds after `set` when it holds of
the new entry and of the others. -/
theorem forall_getElem?_set {α : Type} {P : Nat → α → Prop} {l : List α} {x : α}
    (hnew : P t x) (hold : ∀ u y, u ≠ t → l[u]? = some y → P u y) :
    ∀ u y, (l.set t x)[u]? = some y → P u y := by
  intro u y hu
  by_cases hut : u = t
  · subst hut
    obtain rfl := getElem?_set_self_eq hu
    exact hnew
  · rw [List.getElem?_set_ne (Ne.symm hut)] at hu
    exact hold u y hut hu

/-- A new reservation after every other one keeps the reservations
disjoint; so does giving one up. -/
theorem SegmentsDisjoint.set {ts : List Thread} (h : SegmentsDisjoint ts) {th : Thread}
    (hnew : ∀ a b : Nat, th.segment = some (a, b) → ∀ (u : Nat) (thu : Thread) (a' b' : Nat),
      u ≠ t → ts[u]? = some thu → thu.segment = some (a', b') → b' ≤ a) :
    SegmentsDisjoint (ts.set t th) := by
  intro u w thu thw a b a' b' huw hu hw hsu hsw
  by_cases hut : u = t
  · subst hut
    rw [List.getElem?_set_ne huw] at hw
    obtain rfl : thu = th := getElem?_set_self_eq hu
    exact Or.inr (hnew a b hsu w thw a' b' (Ne.symm huw) hw hsw)
  · rw [List.getElem?_set_ne (Ne.symm hut)] at hu
    by_cases hwt : w = t
    · subst hwt
      obtain rfl : thw = th := getElem?_set_self_eq hw
      exact Or.inl (hnew a' b' hsw u thu a b hut hu hsu)
    · rw [List.getElem?_set_ne (Ne.symm hwt)] at hw
      exact h u w thu thw a b a' b' huw hu hw hsu hsw

/-- A thread keeps `ThreadInv` through a step of another that keeps its lock,
moves the read and reserve indices forward (the reserve index only for the
lock's holder), and the commit index no further than its reservation. -/
theorem ThreadInv.frame {th : Thread} (h : ThreadInv v s t th)
    (hlock : s.lock = some t → s'.lock = some t) (hread : s.read ≤ s'.read)
    (hreserve : s.reserve ≤ s'.reserve) (hheld : s.lock = some t → s'.reserve = s.reserve)
    (hcommit : ∀ a b, th.segment = some (a, b) → s'.commit ≤ a) : ThreadInv v s' t th where
  holder hl := hlock (h.holder hl)
  size_lt := h.size_lt
  snapshot hw hpc := by
    obtain ⟨r, hr, hrs, hres⟩ := h.snapshot hw hpc
    have hsame : s'.reserve = s.reserve := hheld (h.holder (by simp [hpc, Pc.holdsLock]))
    exact ⟨r, hr, hrs.trans hread, by omega⟩
  bounds a b hs := by
    obtain ⟨-, hab, hb⟩ := h.bounds a b hs
    exact ⟨hcommit a b hs, hab, hb.trans hreserve⟩
  lap := h.lap

theorem ThreadInv.setThread {th x : Thread} {u : Nat} (h : ThreadInv v s t th) :
    ThreadInv v (s.setThread u x) t th :=
  h.frame id le_rfl le_rfl (fun _ => rfl) fun a b hs => (h.bounds a b hs).1

/-- A thread with no reservation, not in `CanWriteUpto`, keeps `ThreadInv`
when it holds the lock whenever its program counter says so. -/
theorem threadInv_quiet {th : Thread} (hseg : th.segment = none)
    (hcheck : ∀ hw, th.pc ≠ .checkRead hw)
    (hlock : th.pc.holdsLock → s.lock = some t ∧ th.cmdSize < kQueueSize) : ThreadInv v s t th where
  holder hl := (hlock hl).1
  size_lt hl := (hlock hl).2
  snapshot hw hpc := absurd hpc (hcheck hw)
  bounds a b hs := by simp [hseg] at hs
  lap a b hs := by simp [hseg] at hs

theorem inv_init (sizes : List { n : Nat // 0 < n }) : (init sizes).Inv v where
  read_le_commit := le_rfl
  commit_le_reserve := le_rfl
  reserve_lt := by simp [init, kQueueSize]
  reserveIndex_eq := by simp [init, State.init]
  commitIndex_eq := by simp [init, State.init]
  readPtr_eq := by simp [init, State.init, hwIndex, wrapIntoRing_eq_mod]
  writePtr_eq := by simp [init, State.init, hwIndex, wrapIntoRing_eq_mod]
  doorbell_eq := by simp [init, State.init, hwIndex, wrapIntoRing_eq_mod]
  threads t th ht := by
    obtain ⟨n, hn, -, rfl⟩ : ∃ n hn, sizes[t]? = some ⟨n, hn⟩ ∧ (⟨n, hn, .idle⟩ : Thread) = th := by
      simpa [init] using ht
    exact threadInv_quiet rfl (fun _ h => by cases h) (fun h => by cases h)
  disjoint t u th th' a b a' b' _ ht _ hs _ := by
    obtain ⟨n, hn, -, rfl⟩ : ∃ n hn, sizes[t]? = some ⟨n, hn⟩ ∧ (⟨n, hn, .idle⟩ : Thread) = th := by
      simpa [init] using ht
    simp [Thread.segment] at hs

/-- `UpdateWriteAndDoorbellRegister` goes ahead only from the commit index,
and moves the commit index, the write pointer and the doorbell to the new
index and nothing else. -/
theorem updateWriteAndDoorbellRegister_eq_some {st st' : State} {c x : Nat}
    (h : st.updateWriteAndDoorbellRegister v c x = some st') :
    st.cachedCommitIndex = c ∧ st' = { st with
      queueWritePtr := if v.hwIndexMonotonic then x else wrapIntoRing x
      queueDoorbell := if v.hwIndexMonotonic then x else wrapIntoRing x
      cachedCommitIndex := x } := by
  unfold State.updateWriteAndDoorbellRegister at h
  by_cases hc : st.cachedCommitIndex = c
  · rw [if_pos hc] at h
    exact ⟨hc, (Option.some.inj h).symm⟩
  · rw [if_neg hc] at h
    cases h

theorem lockStep_cases (h : s.lockStep t = some s') :
    ∃ n hn, s.threads[t]? = some ⟨n, hn, .idle⟩ ∧ s.lock = none ∧
      (kQueueSize ≤ n ∧ s' = s.setThread t ⟨n, hn, .done⟩ ∨
        n < kQueueSize ∧ s' = { s with lock := some t }.setThread t ⟨n, hn, .acquire⟩) := by
  unfold lockStep at h
  split at h
  · rename_i n hn ht
    split_ifs at h with hl hk
    · exact ⟨n, hn, ht, hl, .inl ⟨hk, (Option.some.inj h).symm⟩⟩
    · exact ⟨n, hn, ht, hl, .inr ⟨by omega, (Option.some.inj h).symm⟩⟩
  · cases h

theorem loadReadPtrStep_cases (h : s.loadReadPtrStep t = some s') :
    ∃ n hn, s.threads[t]? = some ⟨n, hn, .acquire⟩ ∧
      s' = s.setThread t ⟨n, hn, .checkRead s.sdma.queueReadPtr⟩ := by
  unfold loadReadPtrStep at h
  split at h
  · exact ⟨_, _, ‹_›, (Option.some.inj h).symm⟩
  · cases h

theorem padPublishStep_cases (h : s.padPublishStep v t = some s') :
    ∃ n hn curr new sdma, s.threads[t]? = some ⟨n, hn, .padWait curr new⟩ ∧
      s.sdma.updateWriteAndDoorbellRegister v (curr % 2 ^ v.width) (new % 2 ^ v.width) = some sdma ∧
      s' = { s with sdma := sdma, commit := new }.setThread t ⟨n, hn, .acquire⟩ := by
  unfold padPublishStep at h
  split at h
  · obtain ⟨sdma, hu, rfl⟩ := Option.map_eq_some_iff.mp h
    exact ⟨_, _, _, _, sdma, ‹_›, hu, rfl⟩
  · cases h

/-- `ReleaseWriteAddress` publishes the whole reservation: it lies within
one lap, so it is never larger than the ring. -/
theorem Inv.releaseStep_cases (hinv : s.Inv v) (h : s.releaseStep v t = some s') :
    ∃ n hn curr sdma, s.threads[t]? = some ⟨n, hn, .reserved curr⟩ ∧
      s.sdma.updateWriteAndDoorbellRegister v (curr % 2 ^ v.width) ((curr + n) % 2 ^ v.width) =
        some sdma ∧
      s' = { s with sdma := sdma, commit := curr + n }.setThread t ⟨n, hn, .done⟩ := by
  unfold releaseStep at h
  split at h
  · rename_i n hn curr ht
    obtain ⟨sdma, hu, rfl⟩ := Option.map_eq_some_iff.mp h
    have hlap := (hinv.threads t _ ht).lap curr (curr + n) rfl
    have hle : ¬n > kQueueSize := by omega
    rw [State.releaseWriteAddress, if_neg hle, add_mod_width] at hu
    exact ⟨n, hn, curr, sdma, ht, hu, rfl⟩
  · cases h

theorem engineStep_cases {d : Nat} (h : s.engineStep v d = some s') :
    s.read + d ≤ s.commit ∧
      s' = { s with read := s.read + d, sdma := { s.sdma with queueReadPtr := hwIndex v (s.read + d) } } := by
  unfold engineStep at h
  split_ifs at h with hd
  exact ⟨hd, (Option.some.inj h).symm⟩

/-- A step of thread `t` alone keeps the invariant when `t` keeps
`ThreadInv` and its reservation, if any, comes after every other. -/
theorem Inv.setThread (hinv : s.Inv v) {th : Thread} (hnew : ThreadInv v s t th)
    (hlast : ∀ a b : Nat, th.segment = some (a, b) → ∀ (u : Nat) (thu : Thread) (a' b' : Nat),
      u ≠ t → s.threads[u]? = some thu → thu.segment = some (a', b') → b' ≤ a) :
    (s.setThread t th).Inv v where
  read_le_commit := hinv.read_le_commit
  commit_le_reserve := hinv.commit_le_reserve
  reserve_lt := hinv.reserve_lt
  reserveIndex_eq := hinv.reserveIndex_eq
  commitIndex_eq := hinv.commitIndex_eq
  readPtr_eq := hinv.readPtr_eq
  writePtr_eq := hinv.writePtr_eq
  doorbell_eq := hinv.doorbell_eq
  threads := forall_getElem?_set hnew.setThread fun u thu _ hu => (hinv.threads u thu hu).setThread
  disjoint := hinv.disjoint.set hlast

theorem Inv.setThread_quiet (hinv : s.Inv v) {th : Thread} (hseg : th.segment = none)
    (hcheck : ∀ hw, th.pc ≠ .checkRead hw)
    (hlock : th.pc.holdsLock → s.lock = some t ∧ th.cmdSize < kQueueSize) :
    (s.setThread t th).Inv v :=
  hinv.setThread (threadInv_quiet hseg hcheck hlock) fun a b hs => by simp [hseg] at hs

/-- Taking a free lock. -/
theorem Inv.takeLock (hinv : s.Inv v) (hl : s.lock = none) : { s with lock := some t }.Inv v where
  read_le_commit := hinv.read_le_commit
  commit_le_reserve := hinv.commit_le_reserve
  reserve_lt := hinv.reserve_lt
  reserveIndex_eq := hinv.reserveIndex_eq
  commitIndex_eq := hinv.commitIndex_eq
  readPtr_eq := hinv.readPtr_eq
  writePtr_eq := hinv.writePtr_eq
  doorbell_eq := hinv.doorbell_eq
  threads u thu hu := (hinv.threads u thu hu).frame (by simp [hl]) le_rfl le_rfl (fun _ => rfl)
    fun a b hs => ((hinv.threads u thu hu).bounds a b hs).1
  disjoint := hinv.disjoint

theorem Inv.lockStep (hinv : s.Inv v) (h : s.lockStep t = some s') : s'.Inv v := by
  obtain ⟨n, hn, -, hl, ⟨-, rfl⟩ | ⟨hk, rfl⟩⟩ := lockStep_cases h
  · exact hinv.setThread_quiet rfl (fun _ => nofun) nofun
  · exact (hinv.takeLock hl).setThread_quiet rfl (fun _ => nofun) fun _ => ⟨rfl, hk⟩

theorem Inv.loadReadPtrStep (hinv : s.Inv v) (h : s.loadReadPtrStep t = some s') : s'.Inv v := by
  obtain ⟨n, hn, ht, rfl⟩ := loadReadPtrStep_cases h
  have hold := hinv.threads t _ ht
  have hnew : ThreadInv v s t ⟨n, hn, .checkRead s.sdma.queueReadPtr⟩ := {
    holder := fun _ => hold.holder rfl
    size_lt := fun _ => hold.size_lt rfl
    snapshot := fun hw hpc => by
      cases hpc
      exact ⟨s.read, hinv.readPtr_eq, le_rfl, hinv.reserve_lt⟩
    bounds := fun a b hs => by simp [Thread.segment] at hs
    lap := fun a b hs => by simp [Thread.segment] at hs }
  exact hinv.setThread hnew fun a b hs => by simp [Thread.segment] at hs

theorem mod_add_pad (x : Nat) : x % kQueueSize + (kQueueSize - x % kQueueSize) = kQueueSize := by
  unfold kQueueSize
  omega

/-- Bytes that do not run past the end of the ring lie within one lap. -/
theorem lap_of_not_wrap {x n : Nat} (hn : n < kQueueSize) (h : ¬(x + n) % kQueueSize < n) :
    x % kQueueSize + n ≤ kQueueSize := by
  unfold kQueueSize at *
  omega

/-- One round of `AcquireWriteAddress`, from a read pointer loaded for the
read index `r`: it goes round again, pads the ring to its end, or reserves
`n` bytes at the reserve index. -/
theorem Inv.acquireStep_cases (hv : v.width = 32 ∨ v.width = 64) (hinv : s.Inv v)
    (h : s.acquireStep v t = some s') :
    ∃ n hn r, s.threads[t]? = some ⟨n, hn, .checkRead (hwIndex v r)⟩ ∧ r ≤ s.read ∧
      (s' = s.setThread t ⟨n, hn, .acquire⟩ ∨
        (∃ pad bw, s.reserve % kQueueSize + pad = kQueueSize ∧ s.reserve + pad < r + kQueueSize ∧
          s' = { s with
              sdma := { s.sdma with cachedReserveIndex := (s.reserve + pad) % 2 ^ v.width, bytesWritten := bw }
              reserve := s.reserve + pad }.setThread t ⟨n, hn, .padWait s.reserve (s.reserve + pad)⟩) ∨
        (s.reserve % kQueueSize + n ≤ kQueueSize ∧ s.reserve + n < r + kQueueSize ∧
          s' = { s with
              sdma := { s.sdma with cachedReserveIndex := (s.reserve + n) % 2 ^ v.width }
              reserve := s.reserve + n
              lock := none }.setThread t ⟨n, hn, .reserved s.reserve⟩)) := by
  unfold acquireStep at h
  split at h
  · rename_i n hn hw ht
    have hold := hinv.threads t _ ht
    obtain ⟨r, rfl, hr, hres⟩ := hold.snapshot hw rfl
    have hK : n < kQueueSize := hold.size_lt rfl
    have hc := hinv.commit_le_reserve
    have hrc := hinv.read_le_commit
    -- `CanWriteUpto` sees the read index `r`
    have hread : ({ s.sdma with queueReadPtr := hwIndex v r } : State).readIndex v = r % 2 ^ v.width :=
      readIndex_eq_mod hv hinv.commitIndex_eq rfl (hr.trans hrc) (by omega)
    have hadd : ∀ k, v.add s.sdma.cachedReserveIndex k = (s.reserve + k) % 2 ^ v.width := by
      simp [hinv.reserveIndex_eq, add_mod_width]
    have hwrapc : wrapIntoRing s.sdma.cachedReserveIndex = s.reserve % kQueueSize := by
      rw [hinv.reserveIndex_eq, wrapIntoRing_mod_width (width_ge hv)]
    refine ⟨n, hn, r, ht, hr, ?_⟩
    dsimp only at h hread
    simp only [hadd, hwrapc, wrapIntoRing_mod_width (width_ge hv)] at h
    have hpad := mod_add_pad s.reserve
    generalize kQueueSize - s.reserve % kQueueSize = pad at h hpad
    split_ifs at h with hwrap hcan hcan
    · have h1 : r ≤ s.reserve + pad := by omega
      have h2 : s.reserve + pad < r + 2 * kQueueSize := by omega
      rw [canWriteUpto_mod hv hread h1 h2, decide_eq_true_eq] at hcan
      exact .inr (.inl ⟨pad, _, hpad, hcan, (Option.some.inj h).symm⟩)
    · exact .inl (Option.some.inj h).symm
    · have h1 : r ≤ s.reserve + n := by omega
      have h2 : s.reserve + n < r + 2 * kQueueSize := by omega
      rw [canWriteUpto_mod hv hread h1 h2, decide_eq_true_eq] at hcan
      exact .inr (.inr ⟨lap_of_not_wrap hK hwrap, hcan, (Option.some.inj h).symm⟩)
    · exact .inl (Option.some.inj h).symm
  · cases h

/-- The holder reserves `[reserve, reserve + k)` for itself: its reservation
comes after every other, and the others keep `ThreadInv`. -/
theorem Inv.others_of_reserve (hinv : s.Inv v) (hl : s.lock = some t)
    (hlock : ∀ u, u ≠ t → s.lock = some u → s'.lock = some u) (hread : s'.read = s.read)
    (hreserve : s.reserve ≤ s'.reserve) (hcommit : s'.commit = s.commit) :
    ∀ u thu, u ≠ t → s.threads[u]? = some thu → ThreadInv v s' u thu := by
  intro u thu hut hu
  have hthu := hinv.threads u thu hu
  refine hthu.frame (hlock u hut) hread.ge hreserve (fun hu' => ?_) fun a b hs => ?_
  · exact absurd (hl.symm.trans hu') (by simpa using Ne.symm hut)
  · rw [hcommit]
    exact (hthu.bounds a b hs).1

theorem Inv.pad (hinv : s.Inv v) {n : Nat} {hn : 0 < n} {hw r pad : Nat} {bw : Nat → Nat}
    (ht : s.threads[t]? = some ⟨n, hn, .checkRead hw⟩) (hr : r ≤ s.read)
    (hpad : s.reserve % kQueueSize + pad = kQueueSize) (hcan : s.reserve + pad < r + kQueueSize) :
    ({ s with
        sdma := { s.sdma with cachedReserveIndex := (s.reserve + pad) % 2 ^ v.width, bytesWritten := bw }
        reserve := s.reserve + pad }.setThread t ⟨n, hn, .padWait s.reserve (s.reserve + pad)⟩).Inv v := by
  have hold := hinv.threads t _ ht
  have hl : s.lock = some t := hold.holder rfl
  have hpos : s.reserve % kQueueSize < kQueueSize := Nat.mod_lt _ (by decide)
  have hc := hinv.commit_le_reserve
  exact {
    read_le_commit := hinv.read_le_commit
    commit_le_reserve := by simp; omega
    reserve_lt := by simp; omega
    reserveIndex_eq := rfl
    commitIndex_eq := hinv.commitIndex_eq
    readPtr_eq := hinv.readPtr_eq
    writePtr_eq := hinv.writePtr_eq
    doorbell_eq := hinv.doorbell_eq
    threads := forall_getElem?_set
      { holder := fun _ => hl
        size_lt := fun _ => hold.size_lt rfl
        snapshot := fun _ => nofun
        bounds := fun a b hs => by simp [Thread.segment] at hs ⊢; omega
        lap := fun a b hs => by
          simp only [Thread.segment, Option.some.injEq, Prod.mk.injEq] at hs
          obtain ⟨rfl, rfl⟩ := hs
          rw [wrapIntoRing_eq_mod]
          omega }
      (hinv.others_of_reserve hl (fun _ _ => id) rfl (by simp) rfl)
    disjoint := hinv.disjoint.set fun a b hs u thu a' b' _ hu hs' => by
      simp only [Thread.segment, Option.some.injEq, Prod.mk.injEq] at hs
      have := ((hinv.threads u thu hu).bounds a' b' hs').2.2
      omega }

theorem Inv.reserve (hinv : s.Inv v) {n : Nat} {hn : 0 < n} {hw r : Nat}
    (ht : s.threads[t]? = some ⟨n, hn, .checkRead hw⟩) (hr : r ≤ s.read)
    (hlap : s.reserve % kQueueSize + n ≤ kQueueSize) (hcan : s.reserve + n < r + kQueueSize) :
    ({ s with
        sdma := { s.sdma with cachedReserveIndex := (s.reserve + n) % 2 ^ v.width }
        reserve := s.reserve + n
        lock := none }.setThread t ⟨n, hn, .reserved s.reserve⟩).Inv v := by
  have hl : s.lock = some t := (hinv.threads t _ ht).holder rfl
  have hc := hinv.commit_le_reserve
  exact {
    read_le_commit := hinv.read_le_commit
    commit_le_reserve := by simp; omega
    reserve_lt := by simp; omega
    reserveIndex_eq := rfl
    commitIndex_eq := hinv.commitIndex_eq
    readPtr_eq := hinv.readPtr_eq
    writePtr_eq := hinv.writePtr_eq
    doorbell_eq := hinv.doorbell_eq
    threads := forall_getElem?_set
      { holder := nofun
        size_lt := nofun
        snapshot := fun _ => nofun
        bounds := fun a b hs => by simp [Thread.segment] at hs ⊢; omega
        lap := fun a b hs => by
          simp only [Thread.segment, Option.some.injEq, Prod.mk.injEq] at hs
          obtain ⟨rfl, rfl⟩ := hs
          rw [wrapIntoRing_eq_mod]
          omega }
      (hinv.others_of_reserve hl (fun u hut hu => absurd (hl.symm.trans hu) (by simpa using Ne.symm hut))
        rfl (by simp) rfl)
    disjoint := hinv.disjoint.set fun a b hs u thu a' b' _ hu hs' => by
      simp only [Thread.segment, Option.some.injEq, Prod.mk.injEq] at hs
      have := ((hinv.threads u thu hu).bounds a' b' hs').2.2
      omega }

theorem Inv.acquireStep (hv : v.width = 32 ∨ v.width = 64) (hinv : s.Inv v)
    (h : s.acquireStep v t = some s') : s'.Inv v := by
  obtain ⟨n, hn, r, ht, hr, rfl | ⟨pad, bw, hpad, hcan, rfl⟩ | ⟨hlap, hcan, rfl⟩⟩ :=
    hinv.acquireStep_cases hv h
  · have hold := hinv.threads t _ ht
    exact hinv.setThread_quiet rfl (fun _ => nofun) fun _ => ⟨hold.holder rfl, hold.size_lt rfl⟩
  · exact hinv.pad ht hr hpad hcan
  · exact hinv.reserve ht hr hlap hcan

/-- A reservation is published only from the commit index: its start and
the commit index are less than a lap of `RingIndexTy` apart, so equal
truncations mean equal indices. -/
theorem Inv.commit_eq_of_segment (hv : v.width = 32 ∨ v.width = 64) (hinv : s.Inv v)
    {th : Thread} {curr new : Nat} (ht : s.threads[t]? = some th)
    (hseg : th.segment = some (curr, new)) (hc : s.sdma.cachedCommitIndex = curr % 2 ^ v.width) :
    s.commit = curr := by
  obtain ⟨h1, h2, h3⟩ := (hinv.threads t th ht).bounds curr new hseg
  have h5 := hinv.reserve_lt
  have h4 := hinv.read_le_commit
  have hK : kQueueSize ≤ 2 ^ v.width := by
    rw [kQueueSize_eq]
    exact Nat.pow_le_pow_right (by decide) (width_ge hv)
  exact eq_of_mod_width hv h1 (by omega) (hinv.commitIndex_eq ▸ hc)

/-- Publishing the reservation `[curr, new)` of thread `t`, which then holds
none: every other reservation lies after it. -/
theorem Inv.publish (hv : v.width = 32 ∨ v.width = 64) (hinv : s.Inv v) {th th' : Thread}
    {curr new : Nat} {sdma : State} (ht : s.threads[t]? = some th)
    (hseg : th.segment = some (curr, new))
    (hu : s.sdma.updateWriteAndDoorbellRegister v (curr % 2 ^ v.width) (new % 2 ^ v.width) = some sdma)
    (hseg' : th'.segment = none) (hcheck : ∀ hw, th'.pc ≠ .checkRead hw)
    (hlock : th'.pc.holdsLock → s.lock = some t ∧ th'.cmdSize < kQueueSize) :
    ({ s with sdma := sdma, commit := new }.setThread t th').Inv v := by
  obtain ⟨hc, rfl⟩ := updateWriteAndDoorbellRegister_eq_some hu
  have hcommit := hinv.commit_eq_of_segment hv ht hseg hc
  obtain ⟨-, hlt, hle⟩ := (hinv.threads t th ht).bounds curr new hseg
  have hafter : ∀ u thu a b, u ≠ t → s.threads[u]? = some thu → thu.segment = some (a, b) →
      new ≤ a := by
    intro u thu a b hut hu hs
    obtain ⟨h1, h2, -⟩ := (hinv.threads u thu hu).bounds a b hs
    rcases hinv.disjoint t u th thu curr new a b (Ne.symm hut) ht hu hseg hs with h | h <;> omega
  have hrc := hinv.read_le_commit
  exact {
    read_le_commit := by simp; omega
    commit_le_reserve := hle
    reserve_lt := hinv.reserve_lt
    reserveIndex_eq := hinv.reserveIndex_eq
    commitIndex_eq := rfl
    readPtr_eq := hinv.readPtr_eq
    writePtr_eq := hwIndex_mod_width (width_ge hv) new
    doorbell_eq := hwIndex_mod_width (width_ge hv) new
    threads := forall_getElem?_set (threadInv_quiet hseg' hcheck hlock) fun u thu hut hu =>
      (hinv.threads u thu hu).frame id le_rfl le_rfl (fun _ => rfl) fun a b hs =>
        hafter u thu a b hut hu hs
    disjoint := hinv.disjoint.set fun a b hs => by simp [hseg'] at hs }

theorem Inv.padPublishStep (hv : v.width = 32 ∨ v.width = 64) (hinv : s.Inv v)
    (h : s.padPublishStep v t = some s') : s'.Inv v := by
  obtain ⟨n, hn, curr, new, sdma, ht, hu, rfl⟩ := padPublishStep_cases h
  have hold := hinv.threads t _ ht
  exact hinv.publish hv ht rfl hu rfl (fun _ => nofun) fun _ => ⟨hold.holder rfl, hold.size_lt rfl⟩

theorem Inv.releaseStep (hv : v.width = 32 ∨ v.width = 64) (hinv : s.Inv v)
    (h : s.releaseStep v t = some s') : s'.Inv v := by
  obtain ⟨n, hn, curr, sdma, ht, hu, rfl⟩ := hinv.releaseStep_cases h
  exact hinv.publish hv ht rfl hu rfl (fun _ => nofun) nofun

theorem Inv.engineStep {d : Nat} (hinv : s.Inv v) (h : s.engineStep v d = some s') : s'.Inv v := by
  obtain ⟨hd, rfl⟩ := engineStep_cases h
  have hres := hinv.reserve_lt
  exact {
    read_le_commit := hd
    commit_le_reserve := hinv.commit_le_reserve
    reserve_lt := by simp; omega
    reserveIndex_eq := hinv.reserveIndex_eq
    commitIndex_eq := hinv.commitIndex_eq
    readPtr_eq := rfl
    writePtr_eq := hinv.writePtr_eq
    doorbell_eq := hinv.doorbell_eq
    threads := fun u thu hu => (hinv.threads u thu hu).frame id (by simp) le_rfl (fun _ => rfl)
      fun a b hs => ((hinv.threads u thu hu).bounds a b hs).1
    disjoint := hinv.disjoint }

theorem Inv.step (hv : v.width = 32 ∨ v.width = 64) (hinv : s.Inv v) {e : Event}
    (h : s.step v e = some s') : s'.Inv v := by
  cases e with
  | lock t => exact hinv.lockStep h
  | loadReadPtr t => exact hinv.loadReadPtrStep h
  | acquire t => exact hinv.acquireStep hv h
  | padPublish t => exact hinv.padPublishStep hv h
  | release t => exact hinv.releaseStep hv h
  | engine d => exact hinv.engineStep h

/-- A run from a reachable state ends in a reachable state. -/
theorem Reachable.run {sizes : List { n : Nat // 0 < n }} (hr : Reachable v sizes s) {es : List Event}
    (h : s.run v es = some s') : Reachable v sizes s' := by
  induction es generalizing s with
  | nil =>
      cases h
      exact hr
  | cons e es ih =>
      obtain ⟨s₁, h₁, hrest⟩ := Option.bind_eq_some_iff.mp h
      exact ih (.step e hr h₁) hrest

theorem Reachable.inv (hv : v.width = 32 ∨ v.width = 64) {sizes : List { n : Nat // 0 < n }}
    (h : Reachable v sizes s) : s.Inv v := by
  induction h with
  | init => exact inv_init sizes
  | step e _ hs ih => exact ih.step hv hs

/-- Publishing a reservation moves the commit index forward, from the start
of that reservation to its end. -/
theorem Inv.publish_indices (hv : v.width = 32 ∨ v.width = 64) (hinv : s.Inv v) {th : Thread}
    {curr new : Nat} {sdma : State} (ht : s.threads[t]? = some th)
    (hseg : th.segment = some (curr, new))
    (hu : s.sdma.updateWriteAndDoorbellRegister v (curr % 2 ^ v.width) (new % 2 ^ v.width) = some sdma) :
    s.commit ≤ new ∧ th.segment = some (s.commit, new) := by
  have hc := hinv.commit_eq_of_segment hv ht hseg (updateWriteAndDoorbellRegister_eq_some hu).1
  obtain ⟨-, hlt, -⟩ := (hinv.threads t th ht).bounds curr new hseg
  subst hc
  exact ⟨hlt.le, hseg⟩

/-- Every step moves the indices forward only, and the commit index only to
the end of the reservation that starts at it. -/
theorem Inv.step_indices (hv : v.width = 32 ∨ v.width = 64) (hinv : s.Inv v) {e : Event}
    (h : s.step v e = some s') :
    s.reserve ≤ s'.reserve ∧ s.commit ≤ s'.commit ∧ s.read ≤ s'.read ∧
      (s'.commit ≠ s.commit →
        ∃ (u : Nat) (th : Thread), s.threads[u]? = some th ∧ th.segment = some (s.commit, s'.commit)) := by
  cases e with
  | lock t =>
    obtain ⟨n, hn, -, -, ⟨-, rfl⟩ | ⟨-, rfl⟩⟩ := lockStep_cases h <;>
      exact ⟨le_rfl, le_rfl, le_rfl, fun hne => absurd rfl hne⟩
  | loadReadPtr t =>
    obtain ⟨n, hn, -, rfl⟩ := loadReadPtrStep_cases h
    exact ⟨le_rfl, le_rfl, le_rfl, fun hne => absurd rfl hne⟩
  | acquire t =>
    obtain ⟨n, hn, r, -, -, rfl | ⟨pad, bw, -, -, rfl⟩ | ⟨-, -, rfl⟩⟩ := hinv.acquireStep_cases hv h
    · exact ⟨le_rfl, le_rfl, le_rfl, fun hne => absurd rfl hne⟩
    · exact ⟨by simp, le_rfl, le_rfl, fun hne => absurd rfl hne⟩
    · exact ⟨by simp, le_rfl, le_rfl, fun hne => absurd rfl hne⟩
  | padPublish t =>
    obtain ⟨n, hn, curr, new, sdma, ht, hu, rfl⟩ := padPublishStep_cases h
    obtain ⟨hle, hseg⟩ := hinv.publish_indices hv ht rfl hu
    exact ⟨le_rfl, hle, le_rfl, fun _ => ⟨t, _, ht, hseg⟩⟩
  | release t =>
    obtain ⟨n, hn, curr, sdma, ht, hu, rfl⟩ := hinv.releaseStep_cases h
    obtain ⟨hle, hseg⟩ := hinv.publish_indices hv ht rfl hu
    exact ⟨le_rfl, hle, le_rfl, fun _ => ⟨t, _, ht, hseg⟩⟩
  | engine d =>
    obtain ⟨-, rfl⟩ := engineStep_cases h
    exact ⟨le_rfl, le_rfl, by simp, fun hne => absurd rfl hne⟩

theorem reachable_ring_safe (hv : v.width = 32 ∨ v.width = 64) {sizes : List { n : Nat // 0 < n }}
    (h : Reachable v sizes s) :
    s.Inv v ∧ s.sdma.readIndex v = s.read % 2 ^ v.width ∧
      ∀ e s', s.step v e = some s' →
        s.reserve ≤ s'.reserve ∧ s.commit ≤ s'.commit ∧ s.read ≤ s'.read ∧
          (s'.commit ≠ s.commit →
            ∃ (u : Nat) (th : Thread), s.threads[u]? = some th ∧
              th.segment = some (s.commit, s'.commit)) := by
  have hinv := h.inv hv
  have hc := hinv.commit_le_reserve
  have hr := hinv.reserve_lt
  refine ⟨hinv, ?_, fun e s' hs => hinv.step_indices hv hs⟩
  exact readIndex_eq_mod hv hinv.commitIndex_eq hinv.readPtr_eq hinv.read_le_commit (by omega)

/-- Two threads on a `BlitSdmaV2V3` ring: the first reserves all but 100
bytes of the ring and the engine reads them; the second, of 200 bytes, pads
the last 100 bytes of the ring with no-ops, publishes them, waits for the
engine to pass them, reserves 200 bytes from the start of the ring's second
lap and releases them, and the engine reads them. -/
theorem reachable_ring_safe_v2v3 :
    (blitSdmaV2V3.width = 32 ∨ blitSdmaV2V3.width = 64) ∧
      ∃ s, Reachable blitSdmaV2V3 [⟨1048476, by decide⟩, ⟨200, by decide⟩] s ∧
        s.read = 1048776 ∧ s.commit = 1048776 ∧ s.reserve = 1048776 ∧
        s.Inv blitSdmaV2V3 ∧ s.sdma.readIndex blitSdmaV2V3 = s.read % 2 ^ blitSdmaV2V3.width := by
  have hrun : ((init [⟨1048476, by decide⟩, ⟨200, by decide⟩]).run blitSdmaV2V3
      [.lock 0, .loadReadPtr 0, .acquire 0, .release 0, .engine 1048476, .lock 1, .loadReadPtr 1,
        .acquire 1, .padPublish 1, .engine 100, .loadReadPtr 1, .acquire 1, .release 1,
        .engine 200]).map (fun s => (s.read, s.commit, s.reserve)) =
      some (1048776, 1048776, 1048776) := by
    decide +kernel
  obtain ⟨s, hs, hvals⟩ := Option.map_eq_some_iff.mp hrun
  simp only [Prod.mk.injEq] at hvals
  have hr := Reachable.init.run hs
  exact ⟨Or.inl rfl, s, hr, hvals.1, hvals.2.1, hvals.2.2,
    (reachable_ring_safe (Or.inl rfl : blitSdmaV2V3.width = 32 ∨ blitSdmaV2V3.width = 64) hr).1,
    (reachable_ring_safe (Or.inl rfl : blitSdmaV2V3.width = 32 ∨ blitSdmaV2V3.width = 64) hr).2.1⟩

end Steps

end Ring

end Sdma
