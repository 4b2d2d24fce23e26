import Mathlib

/-!
# The AIE queue's doorbell

An `AieAqlQueue` has a ring of `N` packets with the write and read dispatch
ids of an AQL queue.  The application writes AIE ERT packets, packet `i` in
slot `i mod N`, moves the write index, and rings the doorbell; the doorbell
(`StoreRelaxed`, `StoreRelease`) runs `SubmitCmd` from the read index to the
write index, which hands each run of `START_CU` packets to the driver as one
command chain (`XdnaDriver::SubmitCmdChain`, an oracle that succeeds).

`SubmitCmd` takes the read index by value and nothing writes it back, and it
reads packet `cur_id` at `queue_base + cur_id`: a doorbell hands the driver
every packet from the read index to the write index and leaves the read
index where it was (`storeRelaxed_wellFormed`), so every doorbell starts
again from the queue's first packet (`second_doorbell_resubmits`).  A read past the
ring's `N` slots is `none`.
-/

namespace Aie

inductive Opcode where
  | startCu
  | other
deriving DecidableEq, Repr

/-- An AIE ERT packet: whether its header is `VENDOR_SPECIFIC` with AMD format
`AIE_ERT`, and its opcode. -/
structure Packet where
  ertHeader : Bool
  opcode : Opcode
deriving DecidableEq, Repr

/-- The queue: its ring, its dispatch ids, and the packet ids handed to the
driver so far, in order. -/
structure AieAqlQueue where
  ring : List Packet
  writeDispatchId : Nat
  readDispatchId : Nat
  submitted : List Nat
deriving DecidableEq, Repr

namespace AieAqlQueue

/-- A new queue of `n` packets, its ring holding `blank` packets. -/
def create (n : Nat) (blank : Packet) : AieAqlQueue := ⟨List.replicate n blank, 0, 0, []⟩

/-- The packet at `queue_base + id`. -/
def packetAt (ring : List Packet) (id : Nat) : Option Packet := ring[id]?

/-- The peek loop over the packets after `cur_id`: the length of the run of
`START_CU` packets before the write index. -/
def peekRun (ring : List Packet) (writeId : Nat) : Nat → Nat → Nat
  | 0, _ => 0
  | fuel + 1, peak =>
    if peak < writeId ∧ (packetAt ring peak).map Packet.opcode = some .startCu then
      peekRun ring writeId fuel (peak + 1) + 1
    else 0

/-- `SubmitCmd` from `cur_id` to the write index: the packet ids handed to the
driver, and whether it ends with `HSA_STATUS_SUCCESS`. -/
def submitCmd (ring : List Packet) (writeId : Nat) : Nat → Nat → List Nat × Bool
  | 0, _ => ([], true)
  | fuel + 1, curId =>
    if curId < writeId then
      match packetAt ring curId with
      | some pkt =>
        if !pkt.ertHeader then ([], false)
        else
          match pkt.opcode with
          | .startCu =>
            let n := peekRun ring writeId writeId (curId + 1) + 1
            let (ids, ok) := submitCmd ring writeId fuel (curId + n)
            ((List.range n).map (curId + ·) ++ ids, ok)
          | .other => ([], false)
      -- past the ring buffer
      | none => ([], false)
    else ([], true)

/-- The doorbell: `SubmitCmd` from the read index, which it does not move. -/
def storeRelaxed (q : AieAqlQueue) : AieAqlQueue :=
  { q with submitted := q.submitted ++ (submitCmd q.ring q.writeDispatchId q.writeDispatchId q.readDispatchId).1 }

/-- The application writes packet `write index` into its slot and moves the
write index on. -/
def writePacket (q : AieAqlQueue) (p : Packet) : AieAqlQueue :=
  { q with ring := q.ring.set (q.writeDispatchId % q.ring.length) p, writeDispatchId := q.writeDispatchId + 1 }

/-- A packet the application writes for the driver: an ERT header and
`START_CU`. -/
def WellFormed (ring : List Packet) (lo hi : Nat) : Prop :=
  ∀ i, lo ≤ i → i < hi → packetAt ring i = some ⟨true, .startCu⟩

/-- Over well-formed packets the peek loop runs to the write index. -/
theorem peekRun_wellFormed {ring : List Packet} {w peak : Nat} (fuel : Nat)
    (h : WellFormed ring peak w) (hf : w - peak ≤ fuel) : peekRun ring w fuel peak = w - peak := by
  induction fuel generalizing peak with
  | zero =>
    unfold peekRun
    omega
  | succ fuel ih =>
    unfold peekRun
    by_cases hlt : peak < w
    · have hpk : packetAt ring peak = some ⟨true, .startCu⟩ := h peak (Nat.le_refl _) hlt
      have hrest : WellFormed ring (peak + 1) w := fun i hi hiw => h i (by omega) hiw
      rw [if_pos ⟨hlt, by simp [hpk]⟩, ih hrest (by omega)]
      omega
    · rw [if_neg (fun hc => hlt hc.1)]
      omega

/-- Over well-formed packets `SubmitCmd` hands the driver every id from
`cur_id` to the write index, as one chain. -/
theorem submitCmd_wellFormed {ring : List Packet} {w curId : Nat} (fuel : Nat)
    (h : WellFormed ring curId w) (hf : curId < w → 0 < fuel) :
    submitCmd ring w fuel curId = ((List.range (w - curId)).map (curId + ·), true) := by
  cases fuel with
  | zero =>
    have hle : w ≤ curId := by
      by_contra hlt
      exact absurd (hf (by omega)) (Nat.lt_irrefl 0)
    simp [submitCmd, Nat.sub_eq_zero_of_le hle]
  | succ fuel =>
    unfold submitCmd
    by_cases hlt : curId < w
    · have hpk : packetAt ring curId = some ⟨true, .startCu⟩ := h curId (Nat.le_refl _) hlt
      have hrun := @peekRun_wellFormed ring w (curId + 1) w
        (fun i hi hiw => h i (by omega) hiw) (by omega)
      -- the run of `START_CU` packets ends at the write index, where the loop stops
      have hn : w - (curId + 1) + 1 = w - curId := by omega
      have hstop : submitCmd ring w fuel w = ([], true) := by
        cases fuel <;> simp [submitCmd]
      simp only [if_pos hlt, hpk, Bool.not_true, Bool.false_eq_true, if_false, hrun, hn,
        Nat.add_sub_cancel' (Nat.le_of_lt hlt), hstop, List.append_nil]
    · simp [if_neg hlt, Nat.sub_eq_zero_of_le (Nat.le_of_not_lt hlt)]

/-- A doorbell over well-formed packets hands the driver every packet from the
read index to the write index, and leaves the read index where it was. -/
theorem storeRelaxed_wellFormed {q : AieAqlQueue} (h : WellFormed q.ring q.readDispatchId q.writeDispatchId) :
    q.storeRelaxed.submitted =
        q.submitted ++ (List.range (q.writeDispatchId - q.readDispatchId)).map (q.readDispatchId + ·) ∧
      q.storeRelaxed.readDispatchId = q.readDispatchId := by
  refine ⟨?_, rfl⟩
  unfold storeRelaxed
  rw [submitCmd_wellFormed _ h (by omega)]

/-- A ring of four, one `START_CU` packet and a doorbell, then a second packet
and a second doorbell: packet `0` goes to the driver twice, and the read
index stays `0`. -/
theorem second_doorbell_resubmits :
    (((((create 4 ⟨false, .other⟩).writePacket ⟨true, .startCu⟩).storeRelaxed).writePacket
        ⟨true, .startCu⟩).storeRelaxed).submitted = [0, 0, 1] ∧
    (((((create 4 ⟨false, .other⟩).writePacket ⟨true, .startCu⟩).storeRelaxed).writePacket
        ⟨true, .startCu⟩).storeRelaxed).readDispatchId = 0 := by
  have hwf₁ : WellFormed ((create 4 ⟨false, .other⟩).writePacket ⟨true, .startCu⟩).ring 0 1 := by
    intro i _ hi
    obtain rfl : i = 0 := by omega
    decide
  have hwf₂ : WellFormed ((((create 4 ⟨false, .other⟩).writePacket ⟨true, .startCu⟩).storeRelaxed).writePacket
      ⟨true, .startCu⟩).ring 0 2 := by
    intro i _ hi
    interval_cases i <;> decide
  -- the first doorbell hands packet `0` on and leaves the read index at `0`,
  -- so the second hands packets `0` and `1`
  have hfirst := storeRelaxed_wellFormed hwf₁
  have hsecond := storeRelaxed_wellFormed hwf₂
  refine ⟨hsecond.1.trans ?_, hsecond.2.trans hfirst.2⟩
  rw [show (((create 4 ⟨false, .other⟩).writePacket ⟨true, .startCu⟩).storeRelaxed.writePacket
      ⟨true, .startCu⟩).submitted = ((create 4 ⟨false, .other⟩).writePacket ⟨true, .startCu⟩).storeRelaxed.submitted
      from rfl, hfirst.1]
  decide

end AieAqlQueue

end Aie
