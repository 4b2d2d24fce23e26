import Mathlib

/-!
# Loading a code object into an executable

`ExecutableImpl::LoadCodeObject` (`executable.cpp`), for code objects of
version 2 and later: after its checks it records a `LoadedCodeObjectImpl`,
allocates one load segment covering every `PT_LOAD` header
(`LoadSegmentsV2`) and copies each header's image into it, loads the
symbols, and applies the dynamic relocations.  Code objects of version 1,
with one segment per header and static relocations, are not modelled.

A `Segment` is its allocation, its size and the ELF address it starts at;
the writes the loader makes into segments are returned as `Write`s, and a
step that would dereference the null segment `VirtualAddressSegment` returns
for an address outside every segment ends in `Fault.nullSegment`.  The
segment allocator is an oracle.

`ApplyDynamicRelocation` checks only that the first byte of its target lies
in a segment before storing four or eight bytes there
(`relocation_overruns_segment`), and `LoadCodeObject` returns its errors with
the loaded code object, its segment and its symbols left in the executable
(`failed_load_stays_loaded`).
-/

namespace Loader

/-- The `hsa_status_t` values of loading. -/
inductive Status where
  | success
  | errorFrozenExecutable
  | errorInvalidCodeObject
  | errorOutOfResources
  | errorVariableUndefined
  | errorVariableAlreadyDefined
deriving DecidableEq, Repr

/-- `loader::Segment`: the allocation `ptr` of `size` bytes holding the ELF
addresses from `vaddr` on. -/
structure Segment where
  ptr : Nat
  size : Nat
  vaddr : Nat
deriving DecidableEq, Repr

namespace Segment

def isAddressInSegment (s : Segment) (addr : Nat) : Bool := s.vaddr ≤ addr && addr < s.vaddr + s.size

def offset (s : Segment) (addr : Nat) : Nat := addr - s.vaddr

/-- `Address`: the allocation address of an ELF address. -/
def address (s : Segment) (addr : Nat) : Nat := s.ptr + s.offset addr

end Segment

/-- `width` bytes stored by `Segment::Copy` at ELF address `vaddr` of
segment `seg`. -/
structure Write where
  seg : Segment
  vaddr : Nat
  width : Nat
deriving DecidableEq, Repr

/-- A write that stays in its segment. -/
def Write.inBounds (w : Write) : Prop := w.seg.vaddr ≤ w.vaddr ∧ w.vaddr + w.width ≤ w.seg.vaddr + w.seg.size

instance (w : Write) : Decidable w.inBounds := inferInstanceAs (Decidable (_ ∧ _))

/-- How a loader step ends when it does not succeed: an error status, or a
dereference of a null segment. -/
inductive Fault where
  | status (s : Status)
  | nullSegment
deriving DecidableEq, Repr

/-- A `PT_LOAD` program header. -/
structure DataSegment where
  vaddr : Nat
  memSize : Nat
  imageSize : Nat
deriving DecidableEq, Repr

/-- The ELF type of a relocation's symbol. -/
inductive SymType where
  | object
  | kernel
  | func
  | notype
  | other
deriving DecidableEq, Repr

structure RelSymbol where
  name : String
  type : SymType
  value : Nat
deriving DecidableEq, Repr

inductive RelocType where
  | abs32Hi
  | abs32Lo
  | abs32
  | abs64
  | relative64
  | other
deriving DecidableEq, Repr

structure Relocation where
  offset : Nat
  type : RelocType
  symbol : RelSymbol
  addend : Nat
deriving DecidableEq, Repr

/-- A symbol of the code object's symbol table. -/
structure CodeSymbol where
  name : String
  isDeclaration : Bool
  isKernel : Bool
  isLocal : Bool
  value : Nat
deriving DecidableEq, Repr

/-- A code object of version 2 or later: its headers, symbols and dynamic
relocation sections. -/
structure CodeObject where
  majorVersion : Nat
  minorVersion : Nat
  two_le : 2 ≤ majorVersion
  dataSegments : List DataSegment
  symbols : List CodeSymbol
  relocationSections : List (List Relocation)

/-- `VirtualAddressSegment`: the segment of the last loaded code object
holding an address. -/
def virtualAddressSegment (segs : List Segment) (vaddr : Nat) : Option Segment :=
  segs.find? fun s => s.isAddressInSegment vaddr

/-- `LoadSegmentsV2`: one segment from the first header's address to the end
of the last one, and a copy of each header's image; `alloc` is what
`SegmentAlloc` returns. -/
def loadSegmentsV2 (c : CodeObject) (alloc : Option Nat) : Except Status (Segment × List Write) :=
  match c.dataSegments.head?, c.dataSegments.getLast? with
  | some first, some last =>
    match alloc with
    | none => .error .errorOutOfResources
    | some ptr =>
      let seg : Segment := ⟨ptr, last.vaddr + last.memSize, first.vaddr⟩
      -- `Copy` writes nothing for an empty image
      .ok (seg, c.dataSegments.filterMap fun d =>
        if d.imageSize > 0 then some ⟨seg, d.vaddr, d.imageSize⟩ else none)
  | _, _ => .error .errorInvalidCodeObject

/-- The symbol address of `ApplyDynamicRelocation`: `agentSymbol` is the
address of an external symbol among the agent's symbols. -/
def symbolAddress (segs : List Segment) (agentSymbol : String → Option Nat) (sym : RelSymbol) :
    Except Fault Nat :=
  match sym.type with
  | .object | .kernel | .func =>
    match virtualAddressSegment segs sym.value with
    | none => .error .nullSegment
    | some symSeg => .ok (symSeg.address sym.value)
  -- external symbols must be defined before loading
  | .notype => .ok ((agentSymbol sym.name).getD 0)
  | .other => .error (.status .errorInvalidCodeObject)

/-- The number of bytes a relocation stores, once its symbol address is
known. -/
def relocationWidth (type : RelocType) (symAddr : Nat) : Except Fault Nat :=
  match type with
  | .abs32Hi | .abs32Lo | .abs32 =>
    if symAddr = 0 then .error (.status .errorVariableUndefined) else .ok 4
  | .abs64 => if symAddr = 0 then .error (.status .errorVariableUndefined) else .ok 8
  | .relative64 => .ok 8
  | .other => .error (.status .errorInvalidCodeObject)

/-- `ApplyDynamicRelocation`: the store is made through the segment holding
its first byte. -/
def applyDynamicRelocation (segs : List Segment) (agentSymbol : String → Option Nat)
    (rel : Relocation) : Except Fault Write :=
  (symbolAddress segs agentSymbol rel.symbol).bind fun symAddr =>
    (relocationWidth rel.type ((symAddr + rel.addend) % 2 ^ 64)).bind fun width =>
      match virtualAddressSegment segs rel.offset with
      | none => .error .nullSegment
      | some relSeg => .ok ⟨relSeg, rel.offset, width⟩

/-- The loop over the relocations of one section, then over the sections
(`ApplyRelocations`), collecting the writes. -/
def applyRelocations (segs : List Segment) (agentSymbol : String → Option Nat) :
    List Relocation → Except Fault (List Write)
  | [] => .ok []
  | rel :: rels => do
    let w ← applyDynamicRelocation segs agentSymbol rel
    let ws ← applyRelocations segs agentSymbol rels
    pure (w :: ws)

/-- A code object loaded into the executable, with its segments. -/
structure LoadedCodeObject where
  agent : Nat
  loadedSegments : List Segment
deriving DecidableEq, Repr

/-- An entry of `objects`: a loaded code object, by its place in
`loaded_code_objects`, or a segment. -/
inductive Object where
  | loadedCodeObject (n : Nat)
  | segment (s : Segment)
deriving DecidableEq, Repr

/-- The parts of `ExecutableImpl` loading changes; symbols are their
addresses, under their name, and the agent for agent symbols. -/
structure Executable where
  frozen : Bool
  programSymbols : List (String × Nat)
  agentSymbols : List ((String × Nat) × Nat)
  loadedCodeObjects : List LoadedCodeObject
  objects : List Object
deriving DecidableEq, Repr

namespace Executable

def empty : Executable := ⟨false, [], [], [], []⟩

def agentSymbol (e : Executable) (agent : Nat) (name : String) : Option Nat :=
  (e.agentSymbols.find? fun p => p.1 = (name, agent)).map Prod.snd

/-- `DefineAgentExternalVariable`. -/
def defineAgentExternalVariable (e : Executable) (name : String) (agent address : Nat) :
    Status × Executable :=
  if e.frozen then (.errorFrozenExecutable, e)
  else if (e.agentSymbol agent name).isSome then (.errorVariableAlreadyDefined, e)
  else (.success, { e with agentSymbols := e.agentSymbols ++ [((name, agent), address)] })

/-- `LoadSymbol` for code object version 2 or later, where a definition is an
agent symbol exactly when the agent is not null. -/
def loadSymbol (e : Executable) (agent : Nat) (seg : Segment) (sym : CodeSymbol) :
    Except Status Executable :=
  if sym.isDeclaration then
    -- `LoadDeclarationSymbol`
    if (e.programSymbols.find? fun p => p.1 = sym.name).isNone ∧ (e.agentSymbol agent sym.name).isNone then
      .error .errorVariableUndefined
    else .ok e
  else if agent ≠ 0 then
    if (e.agentSymbol agent sym.name).isSome then .error .errorVariableAlreadyDefined
    else .ok { e with agentSymbols := e.agentSymbols ++ [((sym.name, agent), seg.address sym.value)] }
  else if (e.programSymbols.find? fun p => p.1 = sym.name).isSome then .error .errorVariableAlreadyDefined
  else .ok { e with programSymbols := e.programSymbols ++ [(sym.name, seg.address sym.value)] }

/-- The symbol loop of `LoadCodeObject`: local symbols other than kernels are
skipped; the first failure returns, with the symbols loaded before it. -/
def loadSymbols (agent : Nat) (seg : Segment) : List CodeSymbol → Executable → Status × Executable
  | [], e => (.success, e)
  | sym :: syms, e =>
    if !sym.isKernel && sym.isLocal then loadSymbols agent seg syms e
    else
      match e.loadSymbol agent seg sym with
      | .error st => (st, e)
      | .ok e => loadSymbols agent seg syms e

/-- `ApplyRelocations` for version 2 or later: dynamic relocations need
version 2.1. -/
def applyAllRelocations (c : CodeObject) (segs : List Segment) (agentSymbol : String → Option Nat) :
    Except Fault (List Write) :=
  if c.relocationSections ≠ [] ∧ c.majorVersion = 2 ∧ c.minorVersion < 1 then
    .error (.status .errorInvalidCodeObject)
  else applyRelocations segs agentSymbol c.relocationSections.flatten

/-- `LoadCodeObject` for a code object of version 2 or later that passes the
checks before the first change to the executable; `alloc` is the
segment allocator's answer.  Returns the status, the executable, and the
writes made into the segments, or the null-segment dereference. -/
def loadCodeObject (e : Executable) (agent : Nat) (c : CodeObject) (alloc : Option Nat) :
    Except Fault (Status × Executable × List Write) :=
  if e.frozen then .ok (.errorFrozenExecutable, e, [])
  else if c.majorVersion > 6 then .ok (.errorInvalidCodeObject, e, [])
  else
    let e := { e with objects := e.objects ++ [.loadedCodeObject e.loadedCodeObjects.length],
                      loadedCodeObjects := e.loadedCodeObjects ++ [⟨agent, []⟩] }
    match loadSegmentsV2 c alloc with
    | .error st => .ok (st, e, [])
    | .ok (seg, copies) =>
      let e := { e with objects := e.objects ++ [.segment seg],
                        loadedCodeObjects := e.loadedCodeObjects.dropLast ++ [⟨agent, [seg]⟩] }
      match loadSymbols agent seg c.symbols e with
      | (.success, e) =>
        match applyAllRelocations c [seg] (e.agentSymbol agent) with
        | .error (.status st) => .ok (st, e, copies)
        | .error .nullSegment => .error .nullSegment
        | .ok ws => .ok (.success, e, copies ++ ws)
      | (st, e) => .ok (st, e, copies)

/-- One header `[0, 0x1000)` and an eight-byte `R_AMDGPU_ABS64` store at
`0xFFF`, its last byte: the load succeeds, and the store runs seven bytes past
the segment.  A store at `0x1000`, outside it, dereferences the null
segment instead of failing. -/
theorem relocation_overruns_segment :
    empty.loadCodeObject 1 ⟨2, 1, by decide, [⟨0, 0x1000, 0x1000⟩], [],
        [[⟨0xFFF, .abs64, ⟨"v", .object, 0⟩, 0⟩]]⟩ (some 0x10000) =
      .ok (.success, ⟨false, [], [], [⟨1, [⟨0x10000, 0x1000, 0⟩]⟩],
          [.loadedCodeObject 0, .segment ⟨0x10000, 0x1000, 0⟩]⟩,
        [⟨⟨0x10000, 0x1000, 0⟩, 0, 0x1000⟩, ⟨⟨0x10000, 0x1000, 0⟩, 0xFFF, 8⟩]) ∧
    ¬ (⟨⟨0x10000, 0x1000, 0⟩, 0xFFF, 8⟩ : Write).inBounds ∧
    empty.loadCodeObject 1 ⟨2, 1, by decide, [⟨0, 0x1000, 0x1000⟩], [],
        [[⟨0x1000, .abs64, ⟨"v", .object, 0⟩, 0⟩]]⟩ (some 0x10000) = .error .nullSegment := by
  decide

/-- A code object defining kernel `k` with a relocation against the external
variable `x`: loading it before `x` is defined fails, yet leaves the loaded
code object, its segment and `k` in the executable, so that loading it again
once `x` is defined fails on `k`, where a first load after the definition
succeeds. -/
theorem failed_load_stays_loaded :
    empty.loadCodeObject 1 ⟨2, 1, by decide, [⟨0, 0x100, 0x100⟩], [⟨"k", false, true, false, 0⟩],
        [[⟨0x10, .abs64, ⟨"x", .notype, 0⟩, 0⟩]]⟩ (some 0x10000) =
      .ok (.errorVariableUndefined, ⟨false, [], [(("k", 1), 0x10000)], [⟨1, [⟨0x10000, 0x100, 0⟩]⟩],
          [.loadedCodeObject 0, .segment ⟨0x10000, 0x100, 0⟩]⟩, [⟨⟨0x10000, 0x100, 0⟩, 0, 0x100⟩]) ∧
    (⟨false, [], [(("k", 1), 0x10000)], [⟨1, [⟨0x10000, 0x100, 0⟩]⟩],
        [.loadedCodeObject 0, .segment ⟨0x10000, 0x100, 0⟩]⟩ : Executable).defineAgentExternalVariable
        "x" 1 0x20000 =
      (.success, ⟨false, [], [(("k", 1), 0x10000), (("x", 1), 0x20000)], [⟨1, [⟨0x10000, 0x100, 0⟩]⟩],
        [.loadedCodeObject 0, .segment ⟨0x10000, 0x100, 0⟩]⟩) ∧
    (⟨false, [], [(("k", 1), 0x10000), (("x", 1), 0x20000)], [⟨1, [⟨0x10000, 0x100, 0⟩]⟩],
        [.loadedCodeObject 0, .segment ⟨0x10000, 0x100, 0⟩]⟩ : Executable).loadCodeObject 1
        ⟨2, 1, by decide, [⟨0, 0x100, 0x100⟩], [⟨"k", false, true, false, 0⟩],
          [[⟨0x10, .abs64, ⟨"x", .notype, 0⟩, 0⟩]]⟩ (some 0x30000) =
      .ok (.errorVariableAlreadyDefined, ⟨false, [], [(("k", 1), 0x10000), (("x", 1), 0x20000)],
          [⟨1, [⟨0x10000, 0x100, 0⟩]⟩, ⟨1, [⟨0x30000, 0x100, 0⟩]⟩],
          [.loadedCodeObject 0, .segment ⟨0x10000, 0x100, 0⟩, .loadedCodeObject 1,
            .segment ⟨0x30000, 0x100, 0⟩]⟩, [⟨⟨0x30000, 0x100, 0⟩, 0, 0x100⟩]) ∧
    ((empty.defineAgentExternalVariable "x" 1 0x20000).2.loadCodeObject 1
        ⟨2, 1, by decide, [⟨0, 0x100, 0x100⟩], [⟨"k", false, true, false, 0⟩],
          [[⟨0x10, .abs64, ⟨"x", .notype, 0⟩, 0⟩]]⟩ (some 0x30000)).map (·.1) = .ok .success := by
  decide

end Executable

end Loader
