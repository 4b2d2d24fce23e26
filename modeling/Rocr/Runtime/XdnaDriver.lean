import Mathlib

/-!
# Command chains for the XDNA driver

`XdnaDriver::SubmitCmdChain` turns a run of AIE ERT `START_CU` packets into
command buffer objects.  For each packet, `RegisterCmdBOs` looks the
instruction sequence and the operands of the payload up in the driver's
address map; then a command BO of `4 + 4 * count` bytes is asked of
`CreateCmd` (an oracle here) and filled with the header, the CU mask and a
copy of the payload.  A last BO holds the chain of command handles.

The payload of a packet whose header count is `c` is the CU mask followed by
`c - 1` data words (`hsa_amd_aie_ert_start_kernel_data_t`).  The fill puts
the CU mask in `data[0]` and copies `c` words of the payload's `data` into
`data[1..c]`: it reads one word past the packet and writes one word past the
size it asked for (`fillCmd_store_at_size`).  The header count is an 11-bit
field, so `c + 3` wraps for `c ≥ 2045`.  `GetOperandCount` computes
`(c - 6) / 2` in `uint32_t`: for `c < 6` it wraps to about `2^31`, and
`RegisterCmdBOs` goes on reading operands (`registerCmdBOs_reads_operand`).
The chain BO is asked for `4 * (n + 1)` bytes and receives a 24-byte
`amdxdna_cmd_chain` and `8 * n` bytes of handles (`fillChain_store_past_size`).
-/

namespace Xdna

/-- `NON_OPERAND_COUNT`: the payload words before the operands. -/
def nonOperandCount : UInt32 := 6

/-- `CMD_COUNT_SIZE_INCREASE`: the words the driver puts before each command
of a chain. -/
def cmdCountSizeIncrease : Nat := 3

/-- `INSTR_SIZE_BYTES`. -/
def instrSizeBytes : UInt32 := 4

/-- `CMD_PKT_PAYLOAD_INSTRUCTION_SEQUENCE_IDX`. -/
def instructionSequenceIdx : Nat := 2

/-- `CMD_PKT_PAYLOAD_INSTRUCTION_SEQUENCE_SIZE_IDX`. -/
def instructionSequenceSizeIdx : Nat := 4

/-- `DEV_ADDR_BASE`. -/
def devAddrBase : UInt64 := 0x04000000

/-- `DEV_ADDR_OFFSET_MASK`. -/
def devAddrOffsetMask : UInt64 := 0x02FFFFFF

/-- `HSA_AMD_AIE_ERT_STATE_NEW`. -/
def ertStateNew : UInt32 := 1

/-- `HSA_AMD_AIE_ERT_CMD_CHAIN`. -/
def ertCmdChain : UInt32 := 19

/-- `GetOperandCount`, in `uint32_t`. -/
def getOperandCount (argCount : UInt32) : UInt32 := (argCount - nonOperandCount) / 2

/-- `Concat<uint64_t, uint32_t>(hi, lo)`. -/
def concat (hi lo : UInt32) : UInt64 := (hi.toUInt64 <<< 32) ||| lo.toUInt64

/-- An AIE ERT packet as `SubmitCmdChain` reads it: the header's state,
11-bit count and opcode, and the memory from its payload on, word by word.
`payload 0` is the CU mask and `payload (i + 1)` is `data[i]`; the packet's
own words are those below `count`. -/
structure Packet where
  state : UInt32
  count : Nat
  count_lt : count < 2 ^ 11
  opcode : UInt32
  payload : Nat → UInt32

/-- `cmd_pkt_payload->data`. -/
def Packet.data (pkt : Packet) (i : Nat) : UInt32 := pkt.payload (i + 1)

/-- `bo_args`, `bo_sizes` and `bo_addrs`, which `RegisterCmdBOs` appends to. -/
structure BoLists where
  args : List UInt32
  sizes : List UInt32
  addrs : List UInt64
  deriving DecidableEq, Repr

/-- One store into a BO: `width` bytes at byte `offset`. -/
structure Store where
  offset : Nat
  width : Nat
  value : Nat
  deriving DecidableEq, Repr

/-- A command BO as `SubmitCmdChain` fills it: the size asked of `CreateCmd`,
the header fields of `amdxdna_cmd`, and the stores after the header, in
order. -/
structure Cmd where
  size : Nat
  state : UInt32
  extraCuMasks : Nat
  count : Nat
  opcode : UInt32
  stores : List Store
  deriving DecidableEq, Repr

/-! ## `RegisterCmdBOs` -/

/-- The operand loop of `RegisterCmdBOs`: `n` operands are left, from
`operand_iter = iter`; each address `data[5 + 2 iter + 1]:data[5 + 2 iter]`
is looked up, and a missing one ends the call with an error, keeping what
was pushed. -/
def operandLoop (data : Nat → UInt32) (mappings : UInt64 → Option UInt32) :
    Nat → UInt32 → BoLists → Bool × BoLists
  | 0, _, bo => (true, bo)
  | n + 1, iter, bo =>
    let operandIndex : UInt32 := 5 + 2 * iter
    let operandAddr := concat (data (operandIndex + 1).toNat) (data operandIndex.toNat)
    match mappings operandAddr with
    | none => (false, bo)
    | some handle =>
      operandLoop data mappings n (iter + 1)
        { bo with args := bo.args ++ [handle], addrs := bo.addrs ++ [operandAddr] }

/-- `XdnaDriver::RegisterCmdBOs`: the status, the BO lists, and the payload
data with the instruction address turned into a device address. -/
def registerCmdBOs (count : UInt32) (bo : BoLists) (data : Nat → UInt32)
    (mappings : UInt64 → Option UInt32) : Bool × BoLists × (Nat → UInt32) :=
  let numOperands := getOperandCount count
  let instrAddr := concat (data (instructionSequenceIdx + 1)) (data instructionSequenceIdx)
  match mappings instrAddr with
  | none => (false, bo, data)
  | some instrHandle =>
    let bo : BoLists :=
      { args := bo.args ++ [instrHandle]
        sizes := bo.sizes ++ [data instructionSequenceSizeIdx * instrSizeBytes]
        addrs := bo.addrs ++ [instrAddr] }
    match operandLoop data mappings numOperands.toNat 0 bo with
    | (false, bo) => (false, bo, data)
    | (true, bo) =>
      let sizeStart : UInt32 := 5 + 2 * numOperands
      let sizes := (List.range numOperands.toNat).map fun i => data (sizeStart + i.toUInt32).toNat
      (true, { bo with sizes := bo.sizes ++ sizes },
        Function.update data instructionSequenceIdx
          (devAddrBase ||| (instrAddr &&& devAddrOffsetMask)).toUInt32)

/-! ## Filling the command BOs -/

/-- The fill of one packet's command BO in `SubmitCmdChain`, from the payload
data as `RegisterCmdBOs` left it: `cmd_size = sizeof(amdxdna_cmd) + 4 *
count`, the 11-bit header count `count + CMD_COUNT_SIZE_INCREASE`, the CU mask
in `data[0]`, and `memcpy(cmd->data + 1, payload->data, 4 * count)`. -/
def fillCmd (pkt : Packet) (data : Nat → UInt32) : Cmd where
  size := 4 + pkt.count * 4
  state := pkt.state
  extraCuMasks := 0
  count := (pkt.count + cmdCountSizeIncrease) % 2 ^ 11
  opcode := pkt.opcode
  stores := ⟨4, 4, (pkt.payload 0).toNat⟩ ::
    (List.range pkt.count).map fun i => ⟨8 + 4 * i, 4, (data i).toNat⟩

/-- The fill of the chain BO: `(n + 1) * 4` bytes are asked for; the
`amdxdna_cmd_chain` at `data` holds `command_count`, `submit_index`,
`error_index` and three reserved words, then the 64-bit handles. -/
def fillChain (handles : List UInt32) : Cmd where
  size := (handles.length + 1) * 4
  state := ertStateNew
  extraCuMasks := 0
  count := (24 + handles.length * 8) % 2 ^ 11
  opcode := ertCmdChain
  stores := [⟨4, 4, handles.length⟩, ⟨8, 4, 0⟩, ⟨12, 4, 0⟩] ++
    handles.mapIdx fun i h => ⟨28 + 8 * i, 8, h.toNat⟩

/-- The packet loop of `SubmitCmdChain`: each packet is registered, then its
command BO is created (`CreateCmd` gives a handle or fails) and filled.  The
BO lists and the command BOs so far, with their handles, are carried. -/
def packetLoop (mappings : UInt64 → Option UInt32) (createCmd : Nat → Option UInt32) :
    List Packet → BoLists → List (UInt32 × Cmd) → Bool × BoLists × List (UInt32 × Cmd)
  | [], bo, cmds => (true, bo, cmds)
  | pkt :: pkts, bo, cmds =>
    match registerCmdBOs pkt.count.toUInt32 bo pkt.data mappings with
    | (false, bo, _) => (false, bo, cmds)
    | (true, bo, data) =>
      match createCmd (4 + pkt.count * 4) with
      | none => (false, bo, cmds)
      | some handle => packetLoop mappings createCmd pkts bo (cmds ++ [(handle, fillCmd pkt data)])

/-- `XdnaDriver::SubmitCmdChain` up to the submission: the status and every
command BO filled, the chain BO last.  The BO syncs, the execution and the
unmapping that follow write no command BO and are left out. -/
def submitCmdChain (mappings : UInt64 → Option UInt32) (createCmd : Nat → Option UInt32)
    (pkts : List Packet) : Bool × List Cmd :=
  match packetLoop mappings createCmd pkts ⟨[], [], []⟩ [] with
  | (false, _, cmds) => (false, cmds.map Prod.snd)
  | (true, _, cmds) =>
    match createCmd ((cmds.length + 1) * 4) with
    | none => (false, cmds.map Prod.snd)
    | some _ => (true, cmds.map Prod.snd ++ [fillChain (cmds.map Prod.fst)])

/-! ## Stores past the size asked for -/

/-- A store reaches past a BO of `size` bytes. -/
def Store.Past (size : Nat) (s : Store) : Prop := size < s.offset + s.width

/-- The fill of a packet ends with a whole word at `cmd_size`: the CU mask
when the count is `0`, and otherwise `data[count - 1]`, which is the payload's
word `count`, one past the packet. -/
theorem fillCmd_store_at_size (pkt : Packet) (data : Nat → UInt32) :
    (⟨(fillCmd pkt data).size, 4,
        (if pkt.count = 0 then pkt.payload 0 else data (pkt.count - 1)).toNat⟩ : Store) ∈
      (fillCmd pkt data).stores := by
  obtain ⟨state, c, hc, opcode, payload⟩ := pkt
  cases c with
  | zero => simp [fillCmd]
  | succ k =>
    simp only [fillCmd, List.mem_cons, List.mem_map, List.mem_range]
    exact Or.inr ⟨k, by omega, by simp; omega⟩

/-- The chain BO receives bytes past the `(n + 1) * 4` it asked for: the
`error_index` word when there are fewer than three handles, and the last
handle otherwise. -/
theorem fillChain_store_past_size (handles : List UInt32) :
    ∃ s ∈ (fillChain handles).stores, s.Past (fillChain handles).size := by
  simp only [fillChain, Store.Past, List.mem_append, List.mem_cons, List.mem_mapIdx]
  by_cases hn : handles.length < 3
  · exact ⟨⟨12, 4, 0⟩, by simp, by simp; omega⟩
  · refine ⟨⟨28 + 8 * (handles.length - 1), 8, handles[handles.length - 1].toNat⟩,
      Or.inr ⟨handles.length - 1, by omega, rfl⟩, by simp; omega⟩

/-! ## Reading operands of a short packet -/

/-- `GetOperandCount` of a count below `NON_OPERAND_COUNT` wraps to at least
`2^31 - 3` operands. -/
theorem getOperandCount_wraps {c : UInt32} (hc : c < nonOperandCount) :
    2 ^ 31 - 3 ≤ (getOperandCount c).toNat := by
  unfold getOperandCount nonOperandCount at *
  have hc' : c.toNat < 6 := by simpa [UInt32.lt_iff_toNat_lt] using hc
  rw [UInt32.toNat_div, UInt32.toNat_sub]
  simp
  omega

section Register

variable (data : Nat → UInt32) (mappings : UInt64 → Option UInt32)

/-- The operand loop only appends to the address list. -/
theorem operandLoop_addrs (n : Nat) (iter : UInt32) (bo : BoLists) :
    bo.addrs <+: (operandLoop data mappings n iter bo).2.addrs := by
  induction n generalizing iter bo with
  | zero => simp [operandLoop]
  | succ n ih =>
    simp only [operandLoop]
    split
    · exact List.prefix_rfl
    · refine List.IsPrefix.trans ?_ (ih (iter + 1) _)
      exact List.prefix_append _ _

/-- With the instruction sequence found, the addresses `RegisterCmdBOs`
returns are those of its operand loop, whether or not the loop fails. -/
theorem registerCmdBOs_addrs (count : UInt32) (bo : BoLists) {instrHandle : UInt32}
    (hinstr : mappings (concat (data 3) (data 2)) = some instrHandle) :
    (registerCmdBOs count bo data mappings).2.1.addrs =
      (operandLoop data mappings (getOperandCount count).toNat 0
        { args := bo.args ++ [instrHandle]
          sizes := bo.sizes ++ [data instructionSequenceSizeIdx * instrSizeBytes]
          addrs := bo.addrs ++ [concat (data 3) (data 2)] }).2.addrs := by
  simp only [registerCmdBOs, instructionSequenceIdx, hinstr]
  split <;> simp_all

/-- `RegisterCmdBOs` changes no payload word but the instruction address. -/
theorem registerCmdBOs_data (count : UInt32) (bo : BoLists) {i : Nat}
    (hi : i ≠ instructionSequenceIdx) :
    (registerCmdBOs count bo data mappings).2.2 i = data i := by
  simp only [registerCmdBOs]
  split
  · rfl
  · split
    · rfl
    · exact Function.update_of_ne hi _ _

/-- A packet whose count is below `NON_OPERAND_COUNT` is not rejected: once
its instruction sequence is found, `RegisterCmdBOs` reads the first operand
from `data[6]:data[5]` and records it. -/
theorem registerCmdBOs_reads_operand {count : UInt32} (hc : count < nonOperandCount)
    (bo : BoLists) {instrHandle operandHandle : UInt32}
    (hinstr : mappings (concat (data 3) (data 2)) = some instrHandle)
    (hoperand : mappings (concat (data 6) (data 5)) = some operandHandle) :
    concat (data 6) (data 5) ∈ (registerCmdBOs count bo data mappings).2.1.addrs := by
  obtain ⟨n, hn⟩ : ∃ n, (getOperandCount count).toNat = n + 1 :=
    ⟨(getOperandCount count).toNat - 1, by have := getOperandCount_wraps hc; omega⟩
  rw [registerCmdBOs_addrs data mappings count bo hinstr, hn]
  -- the first iteration reads operand 0 at `data[5]` and `data[6]`
  have hfirst : (5 + 2 * (0 : UInt32)).toNat = 5 ∧ (5 + 2 * (0 : UInt32) + 1).toNat = 6 := by decide
  simp only [operandLoop, hfirst, hoperand]
  exact (operandLoop_addrs data mappings n _ _).subset (by simp)

end Register

/-- A five-word packet whose instruction sequence and first operand are
mapped: the operand address from the payload's words 6 and 7 is recorded. -/
theorem registerCmdBOs_reads_operand_five_words :
    concat 7 6 ∈ (registerCmdBOs 5 ⟨[], [], []⟩ (fun i => (i + 1).toUInt32)
      (fun a => if a = concat 4 3 ∨ a = concat 7 6 then some 7 else none)).2.1.addrs :=
  @registerCmdBOs_reads_operand (fun i => (i + 1).toUInt32)
    (fun a => if a = concat 4 3 ∨ a = concat 7 6 then some 7 else none) 5 (by decide) _ 7 7
    (by decide) (by decide)

/-! ## `SubmitCmdChain` -/

section Submit

variable {mappings : UInt64 → Option UInt32} {createCmd : Nat → Option UInt32}

/-- Each command BO of the packet loop is one it was given or the fill of
one of its packets, from payload data that differs from the packet's at most
in the instruction address. -/
theorem packetLoop_cmds (pkts : List Packet) (bo : BoLists) (cmds : List (UInt32 × Cmd))
    {p : UInt32 × Cmd} (hp : p ∈ (packetLoop mappings createCmd pkts bo cmds).2.2) :
    p ∈ cmds ∨ ∃ pkt ∈ pkts, ∃ data : Nat → UInt32,
      (∀ i, i ≠ instructionSequenceIdx → data i = pkt.data i) ∧ p.2 = fillCmd pkt data := by
  induction pkts generalizing bo cmds with
  | nil => exact Or.inl hp
  | cons pkt pkts ih =>
    simp only [packetLoop] at hp
    -- the registration result is named so that its data can be traced back
    rcases hreg : registerCmdBOs pkt.count.toUInt32 bo pkt.data mappings with ⟨ok, bo', data⟩
    have hdata : ∀ i, i ≠ instructionSequenceIdx → data i = pkt.data i := by
      intro i hi
      have := registerCmdBOs_data pkt.data mappings pkt.count.toUInt32 bo hi
      rwa [hreg] at this
    rw [hreg] at hp
    cases ok with
    | false => exact Or.inl hp
    | true =>
      simp only at hp
      split at hp
      · exact Or.inl hp
      · rcases ih _ _ hp with hp | ⟨pkt', hpkt', data', hdata', hfill⟩
        · rcases List.mem_append.1 hp with hp | hp
          · exact Or.inl hp
          · simp only [List.mem_singleton] at hp
            exact Or.inr ⟨pkt, by simp, data, hdata, by rw [hp]⟩
        · exact Or.inr ⟨pkt', by simp [hpkt'], data', hdata', hfill⟩

/-- Every command BO `SubmitCmdChain` fills is either the chain BO or the
fill of one of its packets from the packet's payload data, but for the
instruction address. -/
theorem submitCmdChain_cmds (pkts : List Packet) {cmd : Cmd}
    (hcmd : cmd ∈ (submitCmdChain mappings createCmd pkts).2) :
    (∃ handles, cmd = fillChain handles) ∨ ∃ pkt ∈ pkts, ∃ data : Nat → UInt32,
      (∀ i, i ≠ instructionSequenceIdx → data i = pkt.data i) ∧ cmd = fillCmd pkt data := by
  -- a command of the packet loop comes from a packet, since the loop starts with none
  have hloop : ∀ c ∈ (packetLoop mappings createCmd pkts ⟨[], [], []⟩ []).2.2.map Prod.snd,
      ∃ pkt ∈ pkts, ∃ data : Nat → UInt32,
        (∀ i, i ≠ instructionSequenceIdx → data i = pkt.data i) ∧ c = fillCmd pkt data := by
    intro c hc
    obtain ⟨p, hp, rfl⟩ := List.mem_map.1 hc
    rcases packetLoop_cmds pkts _ [] hp with hnil | hpkt
    · simp at hnil
    · exact hpkt
  simp only [submitCmdChain] at hcmd
  rcases hres : packetLoop mappings createCmd pkts ⟨[], [], []⟩ [] with ⟨ok, bo, cmds⟩
  rw [hres] at hcmd hloop
  cases ok with
  | false => exact Or.inr (hloop cmd hcmd)
  | true =>
    simp only at hcmd
    split at hcmd
    · exact Or.inr (hloop cmd hcmd)
    · rcases List.mem_append.1 hcmd with hcmd | hcmd
      · exact Or.inr (hloop cmd hcmd)
      · exact Or.inl ⟨_, List.mem_singleton.1 hcmd⟩

/-- Every command BO `SubmitCmdChain` fills receives a store past the size it
asked `CreateCmd` for. -/
theorem submitCmdChain_store_past_size (pkts : List Packet) {cmd : Cmd}
    (hcmd : cmd ∈ (submitCmdChain mappings createCmd pkts).2) :
    ∃ s ∈ cmd.stores, s.Past cmd.size := by
  rcases submitCmdChain_cmds pkts hcmd with ⟨handles, rfl⟩ | ⟨pkt, -, data, -, rfl⟩
  · exact fillChain_store_past_size handles
  · exact ⟨_, fillCmd_store_at_size pkt data, by simp [Store.Past]⟩

/-- The command BO of a six-word packet is asked for 28 bytes and receives a
store past them. -/
theorem submitCmdChain_store_past_size_six_words :
    ∃ cmd ∈ (submitCmdChain (fun a => if a = concat 4 3 then some 7 else none) (fun _ => some 1)
        [⟨1, 6, by decide, 0, fun i => i.toUInt32⟩]).2,
      cmd.size = 28 ∧ ∃ s ∈ cmd.stores, s.Past cmd.size := by
  obtain ⟨cmd, hcmd, hsize⟩ : ∃ cmd ∈ (submitCmdChain (fun a => if a = concat 4 3 then some 7 else none)
      (fun _ => some 1) [⟨1, 6, by decide, 0, fun i => i.toUInt32⟩]).2, cmd.size = 28 :=
    ⟨_, List.mem_cons_self, rfl⟩
  exact ⟨cmd, hcmd, hsize, submitCmdChain_store_past_size _ hcmd⟩

end Submit

/-- A six-word packet whose instruction sequence is mapped: its command BO is
asked for 28 bytes and receives the payload's word 6 at byte 28, and the chain
BO is asked for 8 bytes and receives 36.  A five-word packet is not rejected:
`RegisterCmdBOs` records its first operand from the payload's words 6 and 7,
past the packet.  A packet of 2045 words gets the header count 0. -/
theorem submitCmdChain_overruns :
    submitCmdChain (fun a => if a = concat 4 3 then some 7 else none) (fun _ => some 1)
        [⟨1, 6, by decide, 0, fun i => i.toUInt32⟩] =
      (true, [⟨28, 1, 0, 9, 0, [⟨4, 4, 0⟩, ⟨8, 4, 1⟩, ⟨12, 4, 2⟩, ⟨16, 4, 0x04000003⟩,
          ⟨20, 4, 4⟩, ⟨24, 4, 5⟩, ⟨28, 4, 6⟩]⟩,
        ⟨8, 1, 0, 32, 19, [⟨4, 4, 1⟩, ⟨8, 4, 0⟩, ⟨12, 4, 0⟩, ⟨28, 8, 1⟩]⟩]) ∧
    (registerCmdBOs 5 ⟨[], [], []⟩ (fun i => (i + 1).toUInt32)
        (fun a => if a = concat 4 3 ∨ a = concat 7 6 then some 7 else none)).2.1 =
      ⟨[7, 7], [20], [concat 4 3, concat 7 6]⟩ ∧
    ∀ (pkt : Packet) (data : Nat → UInt32), pkt.count = 2045 → (fillCmd pkt data).count = 0 := by
  refine ⟨by decide, by decide, fun pkt data hc => ?_⟩
  simp [fillCmd, hc, cmdCountSizeIncrease]

end Xdna
