import Mathlib

/-!
# Packet interception queues

An `InterceptQueue` (`intercept_queue.cpp`) stands in front of a hardware
queue, the wrapped queue.  Packets the application writes to it are handed one
at a time to a chain of interceptors; a rewrite handler may pass any number of
batches on through the `PacketWriter`, and the last handler of the chain, the
static `Submit`, places each batch on the wrapped ring with
`InterceptQueue::Submit`.  What does not fit is stashed in `overflow_` behind
a retry barrier, whose completion rings the doorbell again so that
`StoreRelaxed` resubmits it.

The wrapped queue is modelled by its size and its `uint64_t` write and read
indices.  Its ring is modelled by the trace of what becomes visible to the
packet processor, in order.  The trace also records each batch handed to the
final handler and each marker callback; the handlers before the final one are
user code and appear only as the batches they hand over.  `InterceptQueue` is
the only producer of the wrapped queue and runs under `lock_`, so the
compare-and-swap on the write index always succeeds.

With a chain that hands over at most one batch per input packet, the packets
reach the ring in the order they were handed over (`run_inOrder`).  A
rewrite that hands over a second batch while the first waits in `overflow_`
breaks that order (`second_batch_overtakes_overflow`).  When the ring is full
and the last retry barrier sits at the read index, a deferred batch adds a
retry barrier with no free slot (`submit_overfills`).
-/

namespace InterceptQueue

/-- A packet as `InterceptQueue` sees it: an
`AMD_AQL_FORMAT_INTERCEPT_MARKER` packet, named by its callback, or any other
AQL packet, named by its contents. -/
inductive Packet where
  | marker (callback : Nat)
  | aql (contents : Nat)
deriving DecidableEq, Repr

/-- `IsInterceptMarkerPacket`. -/
def Packet.isMarker : Packet → Bool
  | .marker _ => true
  | .aql _ => false

/-- What a slot of the wrapped ring holds once its header is stored. -/
inductive Slot where
  | packet (p : Packet)
  /-- The barrier-AND packet whose completion signal is `async_doorbell_`. -/
  | retry
deriving DecidableEq, Repr

/-- What can be observed of an intercept queue. -/
inductive Event where
  /-- The final submit handler receives a batch. -/
  | hand (batch : List Packet)
  /-- A marker's callback is invoked with an index of the wrapped ring. -/
  | callback (marker : Nat) (index : UInt64)
  /-- The slot at an index of the wrapped ring is made visible to the packet
  processor. -/
  | publish (index : UInt64) (slot : Slot)
deriving DecidableEq, Repr

/-- The state of an intercept queue and of the queue it wraps. -/
structure State where
  /-- The wrapped queue's `hsa_queue.size`. -/
  size : UInt64
  /-- The wrapped queue's write index. -/
  write : UInt64
  /-- The wrapped queue's read index. -/
  read : UInt64
  retryIndex : UInt64
  overflow : List Packet
  /-- The valid packets of the intercept queue from `next_packet_` on. -/
  queued : List Packet
  trace : List Event
deriving DecidableEq, Repr

/-- The state right after construction, in front of an empty wrapped queue. -/
def init (size : UInt64) : State := ⟨size, 0, 0, 0, [], [], []⟩

/-- `IsPendingRetryPoint`: whether the last retry barrier has certainly not
been processed. -/
def State.isPendingRetryPoint (s : State) (wrappedCurrentReadIndex : UInt64) : Bool :=
  decide (s.retryIndex > wrappedCurrentReadIndex)

/-- The number of slots `Submit` reserves for `n` packets that are not
markers, given the free slots of the wrapped ring. -/
def reserveCount (size freeSlots : UInt64) (pendingRetryPoint : Bool) (n : UInt64) : UInt64 :=
  -- more packets than the ring holds: fill it, keeping a slot for the barrier
  if n ≥ size then freeSlots - (if pendingRetryPoint then 0 else 1)
  -- otherwise all or nothing
  else if freeSlots < n + (if pendingRetryPoint then 0 else 1) then 0
  else n

/-- The retry barrier of `Submit`, placed at the write index. -/
def State.addRetryBarrier (s : State) : State :=
  { s with write := s.write + 1, retryIndex := s.write,
           trace := s.trace ++ [.publish s.write .retry] }

/-- What the copy loop of `Submit` does: the callbacks it invokes, the packets
it writes with their indices, and `packets_index`, the number of packets it
consumes. -/
structure Copy where
  callbacks : List (Nat × UInt64)
  written : List (UInt64 × Packet)
  consumed : Nat

/-- The copy loop of `Submit`, with `submitted_count` packets left to write
at `write + write_index`.  A marker is consumed without a slot; its callback
gets the index the next packet is written to.  The source reads past the
batch when `submitted_count` exceeds the packets left, which only a wrapped
`submitted_count` makes happen; the model stops at the end. -/
def copyLoop (write : UInt64) : Nat → UInt64 → List Packet → Copy
  | _, _, [] => ⟨[], [], 0⟩
  | n, writeIndex, .marker cb :: ps =>
    let c := copyLoop write n writeIndex ps
    ⟨(cb, write + writeIndex) :: c.callbacks, c.written, c.consumed + 1⟩
  | 0, _, .aql _ :: _ => ⟨[], [], 0⟩
  | n + 1, writeIndex, .aql a :: ps =>
    let c := copyLoop write n (writeIndex + 1) ps
    ⟨c.callbacks, (write + writeIndex, .aql a) :: c.written, c.consumed + 1⟩

/-- The events of a copy: the callbacks, then the written packets, which all
become visible when the first one's header is stored. -/
def Copy.events (c : Copy) : List Event :=
  c.callbacks.map (fun k => .callback k.1 k.2) ++ c.written.map fun w => .publish w.1 (.packet w.2)

/-- `InterceptQueue::Submit`: places what it can of a batch on the wrapped
ring and returns the number of packets consumed. -/
def State.submit (s : State) (packets : List Packet) : State × Nat :=
  if packets.length = 0 then (s, 0) else
  let count := packets.length.toUInt64
  let markerCount := (packets.countP Packet.isMarker).toUInt64
  let freeSlots := s.size - (s.write - s.read)
  let pendingRetryPoint := s.isPendingRetryPoint s.read
  let submittedCount := reserveCount s.size freeSlots pendingRetryPoint (count - markerCount)
  -- packets are deferred: make sure a retry barrier will bring them back
  let s := if submittedCount < count - markerCount ∧ pendingRetryPoint = false then
    s.addRetryBarrier else s
  let c := copyLoop s.write submittedCount.toNat 0 packets
  ({ s with write := s.write + submittedCount, trace := s.trace ++ c.events }, c.consumed)

/-- The static `Submit`, the final submit handler of the chain: it submits
the batch and stashes what was not consumed in `overflow_`. -/
def State.finalSubmit (s : State) (packets : List Packet) : State :=
  let s := { s with trace := s.trace ++ [Event.hand packets] }
  let r := s.submit packets
  if r.2 = packets.length then r.1
  else { r.1 with overflow := r.1.overflow ++ packets.drop r.2 }

/-- An interceptor chain, seen from the final submit handler: the batches it
hands over for one input packet, in order. -/
abbrev Chain := Packet → List (List Packet)

variable (chain : Chain)

/-- The packet loop of `StoreRelaxed`: each packet goes through the chain, and
the loop stops after a packet whose rewrite left packets in `overflow_`.
Returns the packets not processed. -/
def State.processPackets : State → List Packet → State × List Packet
  | s, [] => (s, [])
  | s, p :: ps =>
    let s := (chain p).foldl State.finalSubmit s
    if s.overflow = [] then s.processPackets ps else (s, ps)

/-- Runs the packet loop over the queued packets. -/
def State.dispatch (s : State) : State :=
  let r := s.processPackets chain s.queued
  { r.1 with queued := r.2 }

/-- `InterceptQueue::StoreRelaxed`: resubmits `overflow_` and, once it is
empty, processes the queued packets. -/
def State.storeRelaxed (s : State) : State :=
  if s.overflow = [] then s.dispatch chain
  else
    let r := s.submit s.overflow
    -- no space for the overflow means no space for other packets either
    if r.2 < s.overflow.length then { r.1 with overflow := s.overflow.drop r.2 }
    else { r.1 with overflow := [] }.dispatch chain

/-- What can happen next to an intercept queue. -/
inductive Action where
  /-- The application writes a valid packet. -/
  | write (p : Packet)
  /-- The doorbell rings, from the application or from a retry barrier's
  completion. -/
  | doorbell
  /-- The wrapped queue's packet processor consumes a slot. -/
  | consume
deriving DecidableEq, Repr

/-- One action.  The read index never passes the write index. -/
def State.step (s : State) : Action → State
  | .write p => { s with queued := s.queued ++ [p] }
  | .doorbell => s.storeRelaxed chain
  | .consume => if s.read < s.write then { s with read := s.read + 1 } else s

/-- A run of actions. -/
def State.run (s : State) (as : List Action) : State :=
  as.foldl (State.step chain) s

/-! ## Order of the packets -/

/-- The packets an event hands to the final submit handler. -/
def Event.handed : Event → List Packet
  | .hand batch => batch
  | _ => []

/-- The markers (`true`) or other packets (`false`) an event passes on:
a marker by invoking its callback, another packet by publishing it. -/
def Event.emitted : Bool → Event → List Packet
  | true, .callback cb _ => [.marker cb]
  | false, .publish _ (.packet p) => [p]
  | _, _ => []

@[simp] theorem handed_hand (batch) : Event.handed (.hand batch) = batch := rfl

@[simp] theorem handed_callback (cb i) : Event.handed (.callback cb i) = [] := rfl

@[simp] theorem handed_publish (i slot) : Event.handed (.publish i slot) = [] := rfl

@[simp] theorem emitted_hand (b batch) : Event.emitted b (.hand batch) = [] := by
  cases b <;> rfl

@[simp] theorem emitted_callback (b cb i) :
    Event.emitted b (.callback cb i) = if b then [.marker cb] else [] := by
  cases b <;> rfl

@[simp] theorem emitted_publish (b i p) :
    Event.emitted b (.publish i (.packet p)) = if b then [] else [p] := by
  cases b <;> rfl

@[simp] theorem emitted_retry (b i) : Event.emitted b (.publish i .retry) = [] := by
  cases b <;> rfl

/-- Packets leave in the order they were handed over: for markers and for the
other packets, those passed on so far followed by those in `overflow_` are
those handed to the final submit handler. -/
def State.InOrder (s : State) : Prop :=
  ∀ b, s.trace.flatMap (Event.emitted b) ++ s.overflow.filter (·.isMarker == b) =
    (s.trace.flatMap Event.handed).filter (·.isMarker == b)

section Copy

variable (write : UInt64)

theorem copyLoop_consumed_le (n i ps) : (copyLoop write n i ps).consumed ≤ ps.length := by
  induction ps generalizing n i with
  | nil => simp [copyLoop]
  | cons p ps ih =>
    cases p with
    | marker cb => simpa [copyLoop] using ih n i
    | aql a =>
      cases n with
      | zero => simp [copyLoop]
      | succ n => simpa [copyLoop] using ih n (i + 1)

theorem copyLoop_written (n i ps) :
    (copyLoop write n i ps).written.map Prod.snd =
      (ps.take (copyLoop write n i ps).consumed).filter (!·.isMarker) := by
  induction ps generalizing n i with
  | nil => simp [copyLoop]
  | cons p ps ih =>
    cases p with
    | marker cb => simpa [copyLoop, Packet.isMarker] using ih n i
    | aql a =>
      cases n with
      | zero => simp [copyLoop]
      | succ n => simpa [copyLoop, Packet.isMarker] using ih n (i + 1)

theorem copyLoop_callbacks (n i ps) :
    (copyLoop write n i ps).callbacks.map (Packet.marker ·.1) =
      (ps.take (copyLoop write n i ps).consumed).filter (·.isMarker) := by
  induction ps generalizing n i with
  | nil => simp [copyLoop]
  | cons p ps ih =>
    cases p with
    | marker cb => simpa [copyLoop, Packet.isMarker] using ih n i
    | aql a =>
      cases n with
      | zero => simp [copyLoop]
      | succ n => simpa [copyLoop, Packet.isMarker] using ih n (i + 1)

@[simp] theorem Copy.events_handed (c : Copy) : c.events.flatMap Event.handed = [] := by
  simp [Copy.events, List.flatMap_map]

theorem Copy.events_emitted (c : Copy) (b) :
    c.events.flatMap (Event.emitted b) =
      if b then c.callbacks.map (Packet.marker ·.1) else c.written.map Prod.snd := by
  cases b <;> simp [Copy.events, List.flatMap_map, ← List.map_eq_flatMap]

/-- The copy loop passes on, in order, what it consumes. -/
theorem copyLoop_emitted (b n i ps) :
    (copyLoop write n i ps).events.flatMap (Event.emitted b) =
      (ps.take (copyLoop write n i ps).consumed).filter (·.isMarker == b) := by
  rw [Copy.events_emitted]
  cases b
  · simpa using copyLoop_written write n i ps
  · simpa using copyLoop_callbacks write n i ps

end Copy

section Submit

variable (s : State) (ps : List Packet)

theorem submit_consumed_le : (s.submit ps).2 ≤ ps.length := by
  unfold State.submit
  split
  · simp
  · dsimp only
    split <;> exact copyLoop_consumed_le ..

theorem submit_handed :
    (s.submit ps).1.trace.flatMap Event.handed = s.trace.flatMap Event.handed := by
  unfold State.submit
  split
  · rfl
  · dsimp only
    split <;> simp [State.addRetryBarrier]

/-- `submit` passes on, in order, the packets it consumes. -/
theorem submit_emitted (b) :
    (s.submit ps).1.trace.flatMap (Event.emitted b) =
      s.trace.flatMap (Event.emitted b) ++ (ps.take (s.submit ps).2).filter (·.isMarker == b) := by
  unfold State.submit
  split
  · simp
  · dsimp only
    split <;> simp [State.addRetryBarrier, copyLoop_emitted]

/-- `submit` writes only the write index, the retry index and the trace. -/
theorem submit_frame :
    ∃ w r tr, (s.submit ps).1 = { s with write := w, retryIndex := r, trace := tr } := by
  unfold State.submit
  split
  · exact ⟨s.write, s.retryIndex, s.trace, rfl⟩
  · dsimp only
    split
    · exact ⟨_, _, _, rfl⟩
    · exact ⟨_, _, _, rfl⟩

@[simp] theorem submit_size : (s.submit ps).1.size = s.size := by
  obtain ⟨w, r, tr, h⟩ := submit_frame s ps
  rw [h]

@[simp] theorem submit_read : (s.submit ps).1.read = s.read := by
  obtain ⟨w, r, tr, h⟩ := submit_frame s ps
  rw [h]

@[simp] theorem submit_overflow : (s.submit ps).1.overflow = s.overflow := by
  obtain ⟨w, r, tr, h⟩ := submit_frame s ps
  rw [h]

@[simp] theorem submit_queued : (s.submit ps).1.queued = s.queued := by
  obtain ⟨w, r, tr, h⟩ := submit_frame s ps
  rw [h]

end Submit

section Order

/-- A step keeps the order when it passes on the first `k` packets of `L`,
keeps the others in `overflow_`, and `L` is the old overflow followed by what
the step handed over. -/
theorem State.InOrder.of_passes {s s' : State} (h : s.InOrder) (L H : List Packet) (k : Nat)
    (hL : s.overflow ++ H = L)
    (he : ∀ b, s'.trace.flatMap (Event.emitted b) =
      s.trace.flatMap (Event.emitted b) ++ (L.take k).filter (·.isMarker == b))
    (hh : s'.trace.flatMap Event.handed = s.trace.flatMap Event.handed ++ H)
    (ho : s'.overflow = L.drop k) : s'.InOrder := by
  intro b
  rw [he, hh, ho, List.filter_append, ← h b, List.append_assoc, ← List.filter_append,
    List.take_append_drop, ← hL, List.filter_append, List.append_assoc]

/-- The final submit handler passes on a prefix of the batch and appends the
rest to `overflow_`. -/
theorem finalSubmit_passes (s : State) (ps : List Packet) :
    let k := ({ s with trace := s.trace ++ [Event.hand ps] }.submit ps).2
    (∀ b, (s.finalSubmit ps).trace.flatMap (Event.emitted b) =
      s.trace.flatMap (Event.emitted b) ++ (ps.take k).filter (·.isMarker == b)) ∧
    (s.finalSubmit ps).trace.flatMap Event.handed = s.trace.flatMap Event.handed ++ ps ∧
    (s.finalSubmit ps).overflow = s.overflow ++ ps.drop k := by
  intro k
  have hk : k ≤ ps.length := submit_consumed_le ..
  unfold State.finalSubmit
  dsimp only
  split
  · rename_i hall
    refine ⟨fun b => ?_, ?_, ?_⟩
    · simp [submit_emitted, k]
    · simp [submit_handed]
    · simp [k, hall]
  · refine ⟨fun b => ?_, ?_, ?_⟩
    · simp [submit_emitted, k]
    · simp [submit_handed]
    · simp [k]

theorem State.InOrder.finalSubmit {s : State} (h : s.InOrder) (ho : s.overflow = [])
    (ps : List Packet) : (s.finalSubmit ps).InOrder := by
  obtain ⟨he, hh, hov⟩ := finalSubmit_passes s ps
  exact h.of_passes ps ps _ (by simp [ho]) he hh (by simp [hov, ho])

/-- A chain that hands over at most one batch for each packet: the final
submit handler then always starts with an empty `overflow_`. -/
def SingleBatch : Prop := ∀ p, (chain p).length ≤ 1

variable {chain}

theorem State.InOrder.processPackets (hc : SingleBatch chain) {s : State} (h : s.InOrder)
    (ho : s.overflow = []) (ps : List Packet) : (s.processPackets chain ps).1.InOrder := by
  induction ps generalizing s with
  | nil => exact h
  | cons p ps ih =>
    -- the rewrite of `p`: no batch, or one batch submitted with an empty overflow
    have hp : ((chain p).foldl State.finalSubmit s).InOrder := by
      have := hc p
      match hcp : chain p with
      | [] => exact h
      | [batch] => exact h.finalSubmit ho batch
      | _ :: _ :: _ => simp [hcp] at this
    unfold State.processPackets
    dsimp only
    split
    · rename_i hempty
      exact ih hp hempty
    · exact hp

theorem State.InOrder.dispatch (hc : SingleBatch chain) {s : State} (h : s.InOrder)
    (ho : s.overflow = []) : (s.dispatch chain).InOrder :=
  h.processPackets hc ho s.queued

/-- Resubmitting `overflow_` passes on a prefix of it and keeps the rest. -/
theorem State.InOrder.storeRelaxed (hc : SingleBatch chain) {s : State} (h : s.InOrder) :
    (s.storeRelaxed chain).InOrder := by
  have he := submit_emitted s s.overflow
  have hh := submit_handed s s.overflow
  unfold State.storeRelaxed
  split
  · rename_i ho
    exact h.dispatch hc ho
  · dsimp only
    split
    · exact h.of_passes s.overflow [] _ (by simp) he (by simpa using hh) rfl
    · rename_i hall
      have hr : ({ (s.submit s.overflow).1 with overflow := [] } : State).InOrder :=
        h.of_passes s.overflow [] _ (by simp) he (by simpa using hh)
          (by simp [List.drop_eq_nil_of_le (Nat.le_of_not_lt hall)])
      exact hr.dispatch hc rfl

theorem State.InOrder.step (hc : SingleBatch chain) {s : State} (h : s.InOrder) (a : Action) :
    (s.step chain a).InOrder := by
  cases a with
  | write p => exact h
  | doorbell => exact h.storeRelaxed hc
  | consume =>
    simp only [State.step]
    split
    · exact h
    · exact h

theorem State.InOrder.run (hc : SingleBatch chain) {s : State} (h : s.InOrder) (as : List Action) :
    (s.run chain as).InOrder := by
  induction as generalizing s with
  | nil => exact h
  | cons a as ih => exact ih (h.step hc a)

/-- With a chain that hands over at most one batch per packet, markers are
called back and the other packets published in the order they were handed
to the final submit handler, and `overflow_` holds the rest in that order. -/
theorem run_inOrder (hc : SingleBatch chain) (size : UInt64) (as : List Action) :
    ((init size).run chain as).InOrder :=
  State.InOrder.run hc (fun _ => rfl) as

/-- A chain that hands each packet over alone keeps the order on a ring of
four slots, through a deferred batch and the doorbell its barrier rings. -/
theorem run_inOrder_pass_through :
    ((init 4).run (fun p => [[p]]) [.write (.aql 10), .doorbell, .consume, .write (.aql 11),
      .doorbell, .consume, .consume, .consume, .doorbell]).InOrder :=
  run_inOrder (show SingleBatch fun p => [[p]] from fun _ => Nat.le_refl 1) 4 _

end Order

/-! ## Where the order and the free slot are lost -/

/-- A rewrite handler that calls the `PacketWriter` twice for the packet
`aql 11`. -/
def splitRewrite : Chain
  | .aql 10 => [[.aql 0, .aql 1]]
  | .aql 11 => [[.aql 2, .aql 3, .aql 4], [.aql 5]]
  | p => [[p]]

/-- `aql 10` is rewritten and one of its packets consumed; the first batch of
`aql 11` is then deferred behind a retry barrier, and its second batch fits in
the slot left.  The packet processor reaches the barrier, whose completion
rings the doorbell. -/
def splitActions : List Action :=
  [.write (.aql 10), .doorbell, .consume, .write (.aql 11), .doorbell,
    .consume, .consume, .consume, .doorbell]

/-- On a wrapped queue of four slots, `aql 5` reaches the ring before `aql 2`,
`aql 3` and `aql 4`, which were handed over before it. -/
theorem second_batch_overtakes_overflow :
    ((init 4).run splitRewrite splitActions).trace.flatMap Event.handed =
        [.aql 0, .aql 1, .aql 2, .aql 3, .aql 4, .aql 5] ∧
      ((init 4).run splitRewrite splitActions).trace.flatMap (Event.emitted false) =
        [.aql 0, .aql 1, .aql 5, .aql 2, .aql 3, .aql 4] ∧
      ((init 4).run splitRewrite splitActions).overflow = [] := by
  decide

/-- With no slot free and no barrier pending, a batch smaller than the ring is
deferred. -/
theorem reserveCount_deferred {size n : UInt64} (hn : n < size) :
    reserveCount size 0 false n = 0 := by
  have hlt := UInt64.lt_iff_toNat_lt.mp hn
  have hsz := size.toNat_lt
  have h1 : (0 : UInt64) < n + 1 := by
    rw [UInt64.lt_iff_toNat_lt, UInt64.toNat_add]
    simp
    omega
  have h2 : ¬ size ≤ n := UInt64.not_le.mpr hn
  simp [reserveCount, h2, h1]

/-- When the wrapped ring is full and the last retry barrier sits at the read
index, `IsPendingRetryPoint` reports no barrier pending, so a batch that is
deferred gets a new retry barrier although no slot is free: it is written at
`write`, the slot of the unconsumed packet at `read`, and the write index
runs `size + 1` ahead of the read index. -/
theorem submit_overfills (s : State) (ps : List Packet) (hfull : s.write - s.read = s.size)
    (hretry : s.retryIndex ≤ s.read) (hpkt : ∀ p ∈ ps, p.isMarker = false)
    (hne : ps ≠ []) (hlen : ps.length < s.size.toNat) :
    (s.submit ps).1.trace = s.trace ++ [.publish s.write .retry] ∧
      (s.submit ps).1.write - s.read = s.size + 1 := by
  have hcount : ps.countP Packet.isMarker = 0 := List.countP_eq_zero.mpr (by simpa using hpkt)
  have hfree : s.size - (s.write - s.read) = 0 := by rw [hfull, UInt64.sub_self]
  have hpend : s.isPendingRetryPoint s.read = false := by
    simpa [State.isPendingRetryPoint] using hretry
  have hnat : ps.length.toUInt64.toNat = ps.length := by
    have := s.size.toNat_lt
    rw [Nat.toUInt64_eq, UInt64.toNat_ofNat', Nat.mod_eq_of_lt (by omega)]
  have hn : ps.length.toUInt64 < s.size := by
    rw [UInt64.lt_iff_toNat_lt, hnat]
    exact hlen
  have hn0 : (0 : UInt64) < ps.length.toUInt64 := by
    rw [UInt64.lt_iff_toNat_lt, hnat]
    exact List.length_pos_iff.mpr hne
  -- nothing is reserved, so the copy loop stops at the first packet
  have hcopy : ∀ w, copyLoop w 0 0 ps = ⟨[], [], 0⟩ := by
    intro w
    match ps, hpkt with
    | [], _ => rfl
    | .aql a :: rest, _ => rfl
    | .marker cb :: rest, h => simp [Packet.isMarker] at h
  unfold State.submit
  simp [hne, hcount, hfree, hpend, reserveCount_deferred hn, hn0, State.addRetryBarrier, hcopy,
    Copy.events]
  rw [← hfull]
  grind

/-- On an empty ring with no barrier pending, a batch of at least `size`
packets fills the ring: a retry barrier at the read index, then `size - 1`
packets. -/
theorem submit_fills (s : State) (ps : List Packet) (hempty : s.write = s.read)
    (hretry : s.retryIndex ≤ s.read) (hpkt : ∀ p ∈ ps, p.isMarker = false)
    (hsize : 0 < s.size) (hlen : s.size.toNat ≤ ps.length) (hlen' : ps.length < 2 ^ 64) :
    (s.submit ps).1.write - s.read = s.size ∧ (s.submit ps).1.retryIndex = s.read := by
  have hcount : ps.countP Packet.isMarker = 0 := List.countP_eq_zero.mpr (by simpa using hpkt)
  have hfree : s.size - (s.write - s.read) = s.size := by
    rw [hempty, UInt64.sub_self, UInt64.sub_zero]
  have hpend : s.isPendingRetryPoint s.read = false := by
    simpa [State.isPendingRetryPoint] using hretry
  have hnat : ps.length.toUInt64.toNat = ps.length := by
    rw [Nat.toUInt64_eq, UInt64.toNat_ofNat', Nat.mod_eq_of_lt hlen']
  have hn : s.size ≤ ps.length.toUInt64 := by
    rw [UInt64.le_iff_toNat_le, hnat]
    exact hlen
  have hpos := UInt64.lt_iff_toNat_lt.mp hsize
  have hne : ps ≠ [] := by
    simp at hpos
    exact List.ne_nil_of_length_pos (by omega)
  have h1 : (1 : UInt64) ≤ s.size := by
    rw [UInt64.le_iff_toNat_le]
    simp at hpos ⊢
    omega
  -- the ring cannot hold the batch, so all but the barrier's slot is taken
  have hlt : s.size - 1 < ps.length.toUInt64 := by
    rw [UInt64.lt_iff_toNat_lt, hnat, UInt64.toNat_sub_of_le _ _ h1]
    simp at hpos ⊢
    omega
  unfold State.submit
  simp [hne, hcount, hfree, hpend, reserveCount, hn, hlt, State.addRetryBarrier]
  constructor
  · rw [hempty]
    grind
  · exact hempty

/-- The barrier at the read index of a ring filled by a large batch is not
pending for `IsPendingRetryPoint`: if the packet processor has not moved when
the next batch, smaller than the ring, is submitted, that batch's retry
barrier takes a slot the ring does not have. -/
theorem fill_then_overfill (s : State) (ps qs : List Packet) (hempty : s.write = s.read)
    (hretry : s.retryIndex ≤ s.read) (hps : ∀ p ∈ ps, p.isMarker = false)
    (hsize : 0 < s.size) (hlen : s.size.toNat ≤ ps.length) (hlen' : ps.length < 2 ^ 64)
    (hqs : ∀ q ∈ qs, q.isMarker = false) (hne : qs ≠ []) (hqlen : qs.length < s.size.toNat) :
    ((s.submit ps).1.submit qs).1.write - s.read = s.size + 1 := by
  obtain ⟨hfull, hbarrier⟩ := submit_fills s ps hempty hretry hps hsize hlen hlen'
  have h := submit_overfills (s.submit ps).1 qs (by simpa using hfull)
    (by simp [hbarrier]) hqs hne (by simpa using hqlen)
  simpa using h.2

/-- Four packets fill a ring of four slots; one more packet, submitted before
the packet processor moves, takes a fifth slot for its barrier. -/
theorem fill_then_overfill_four_slots :
    (((init 4).submit [.aql 0, .aql 1, .aql 2, .aql 3]).1.submit [.aql 4]).1.write -
      (init 4).read = (init 4).size + 1 :=
  fill_then_overfill (init 4) _ _ rfl (by decide) (by decide) (by decide) (by decide) (by decide)
    (by decide) (by decide) (by decide)

end InterceptQueue
