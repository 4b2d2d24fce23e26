import Rocr.Code.ElfNote
import Rocr.Lib.Word

/-!
# The AMD notes of a code object

`AmdHsaCode` records what it knows about a code object in `"AMD"` notes:
the code object version, the HSAIL version and profile, the ISA (vendor and
architecture names with three numbers), the producer and its options.  Each
writer lays a descriptor out in a buffer and `GElfNoteSection::addNote`
appends the record to the note section through `Buffer`, every field aligned
to four bytes; each reader finds the first note of its type with `getNote`
and decodes the descriptor, reading names with `GetNoteString`.

On a section the writers built, `getNote` walks the records one by one
(`noteLoop_records`) and every reader but one returns what the first writer
of its type wrote, whatever notes stand before or after it
(`reader_build`).  The exception is `AddNoteIsa`: it sizes its buffer with
`sizeof(amdgpu_hsa_note_producer_t)`, sixteen bytes, where the names start at
byte sixteen of an `amdgpu_hsa_note_isa_t`, so the architecture name's `NUL`
falls out of the descriptor (`isaDesc_eq`).  `GetNoteIsa` reads the name with
its `NUL` counted, and the byte after the descriptor decides it: the
padding when there is some, and otherwise the next note's first byte or
nothing at all (`getNoteIsa_build`).
-/

namespace Elf

/-- `alignUp(num, align)` on buffer sizes; the alignments used are powers of
two, where the mask of the source and the rounding here agree. -/
def alignUpSize (num align : Nat) : Nat := (num + align - 1) / align * align

/-- `Buffer::align(align)`: zero bytes up to the next multiple of `align`. -/
def Buffer.align (data : List UInt8) (align : Nat) : List UInt8 :=
  data ++ List.replicate (alignUpSize data.length align - data.length) 0

/-- `Buffer::addRaw(src, size, align)`. -/
def Buffer.add (data : List UInt8) (src : List UInt8) (align : Nat) : List UInt8 :=
  Buffer.align data align ++ src

/-- The little-endian bytes of a `uint16_t`. -/
def u16Bytes (x : UInt16) : List UInt8 := [x.toUInt8, (x >>> 8).toUInt8]

/-- The little-endian bytes of a `uint32_t`. -/
def u32Bytes (x : UInt32) : List UInt8 :=
  [x.toUInt8, (x >>> 8).toUInt8, (x >>> 16).toUInt8, (x >>> 24).toUInt8]

/-- A little-endian `uint16_t` of the data at `off`. -/
def readU16 (buf : List UInt8) (off : Nat) : Option UInt16 :=
  if off + 2 ≤ buf.length then
    some (UInt16.ofNat ((buf.getD off 0).toNat + 256 * (buf.getD (off + 1) 0).toNat))
  else none

/-- `NOTE_RECORD_ALIGNMENT`. -/
def noteRecordAlignment : Nat := 4

/-- `GElfNoteSection::addNote`: the name size (`addStringLength`), the
descriptor size and the type, the name with its `NUL` (`addString`), then
the descriptor, each aligned to the record alignment. -/
def addNote (data : List UInt8) (name : List UInt8) (type : UInt32) (desc : List UInt8) :
    List UInt8 :=
  let data := Buffer.add data (u32Bytes (name.length + 1).toUInt32) noteRecordAlignment
  let data := Buffer.add data (u32Bytes desc.length.toUInt32) noteRecordAlignment
  let data := Buffer.add data (u32Bytes type) noteRecordAlignment
  let data := Buffer.add data (name ++ [0]) noteRecordAlignment
  let data := Buffer.align data noteRecordAlignment
  if 0 < desc.length then
    Buffer.align (Buffer.add data desc noteRecordAlignment) noteRecordAlignment
  else data

end Elf

namespace HsaCode

open Elf

/-- `NT_AMD_HSA_CODE_OBJECT_VERSION`. -/
def ntAmdHsaCodeObjectVersion : UInt32 := 1

/-- `NT_AMD_HSA_HSAIL`. -/
def ntAmdHsaHsail : UInt32 := 2

/-- `NT_AMD_HSA_ISA_VERSION`. -/
def ntAmdHsaIsaVersion : UInt32 := 3

/-- `NT_AMD_HSA_PRODUCER`. -/
def ntAmdHsaProducer : UInt32 := 4

/-- `NT_AMD_HSA_PRODUCER_OPTIONS`. -/
def ntAmdHsaProducerOptions : UInt32 := 5

/-- The note name `"AMD"`. -/
def amdName : List UInt8 := [65, 77, 68]

/-- `sizeof(amdgpu_hsa_note_code_object_version_t)`. -/
def codeObjectVersionSize : Nat := 8

/-- `sizeof(amdgpu_hsa_note_hsail_t)`: two words and three bytes, padded. -/
def hsailSize : Nat := 12

/-- `sizeof(amdgpu_hsa_note_isa_t)`: two half-words, three words and one
character, padded. -/
def isaSize : Nat := 20

/-- `sizeof(amdgpu_hsa_note_producer_t)`: two half-words, two words and one
character, padded. -/
def producerSize : Nat := 16

/-- `sizeof(amdgpu_hsa_note_producer_options_t)`: a half-word and one
character, padded. -/
def producerOptionsSize : Nat := 4

/-! ## The writers -/

/-- `AmdHsaCode::AddAmdNote`. -/
def addAmdNote (data : List UInt8) (type : UInt32) (desc : List UInt8) : List UInt8 :=
  addNote data amdName type desc

/-- The `amdgpu_hsa_note_code_object_version_t` of `AddNoteCodeObjectVersion`. -/
def codeObjectVersionDesc (major minor : UInt32) : List UInt8 := u32Bytes major ++ u32Bytes minor

/-- `AmdHsaCode::AddNoteCodeObjectVersion`. -/
def addNoteCodeObjectVersion (data : List UInt8) (major minor : UInt32) : List UInt8 :=
  addAmdNote data ntAmdHsaCodeObjectVersion (codeObjectVersionDesc major minor)

/-- The `amdgpu_hsa_note_hsail_t` of `AddNoteHsail`; the padding byte is zero
from the `memset`. -/
def hsailDesc (hsailMajor hsailMinor : UInt32) (profile machineModel roundingMode : UInt8) :
    List UInt8 :=
  u32Bytes hsailMajor ++ u32Bytes hsailMinor ++ [profile, machineModel, roundingMode, 0]

/-- `AmdHsaCode::AddNoteHsail`. -/
def addNoteHsail (data : List UInt8) (hsailMajor hsailMinor : UInt32)
    (profile machineModel roundingMode : UInt8) : List UInt8 :=
  addAmdNote data ntAmdHsaHsail (hsailDesc hsailMajor hsailMinor profile machineModel roundingMode)

/-- What `AddNoteIsa` writes from the start of its buffer: the
`amdgpu_hsa_note_isa_t` fields, then the vendor and the architecture names,
each with its `NUL`. -/
def isaLayout (vendor arch : List UInt8) (major minor stepping : UInt32) : List UInt8 :=
  u16Bytes (vendor.length + 1).toUInt16 ++ u16Bytes (arch.length + 1).toUInt16 ++
    u32Bytes major ++ u32Bytes minor ++ u32Bytes stepping ++ vendor ++ [0] ++ arch ++ [0]

/-- The descriptor of `AddNoteIsa`: its buffer has
`sizeof(amdgpu_hsa_note_producer_t) + vendor + arch + 1` bytes. -/
def isaDesc (vendor arch : List UInt8) (major minor stepping : UInt32) : List UInt8 :=
  (isaLayout vendor arch major minor stepping).take (producerSize + vendor.length + arch.length + 1)

/-- `AmdHsaCode::AddNoteIsa`. -/
def addNoteIsa (data : List UInt8) (vendor arch : List UInt8) (major minor stepping : UInt32) :
    List UInt8 :=
  addAmdNote data ntAmdHsaIsaVersion (isaDesc vendor arch major minor stepping)

/-- The descriptor of `AddNoteProducer`: after the `memset`, the
`amdgpu_hsa_note_producer_t` fields and the name with its `NUL`. -/
def producerDesc (major minor : UInt32) (producer : List UInt8) : List UInt8 :=
  let size := producerSize + producer.length
  (u16Bytes producer.length.toUInt16 ++ u16Bytes 0 ++ u32Bytes major ++ u32Bytes minor ++
    producer ++ [0] ++ List.replicate size 0).take size

/-- `AmdHsaCode::AddNoteProducer`. -/
def addNoteProducer (data : List UInt8) (major minor : UInt32) (producer : List UInt8) :
    List UInt8 :=
  addAmdNote data ntAmdHsaProducer (producerDesc major minor producer)

/-- The descriptor of `AddNoteProducerOptions`: the size and the options with
their `NUL`; the buffer is not cleared, and its last byte is what it held. -/
def producerOptionsDesc (options : List UInt8) (uninit : UInt8) : List UInt8 :=
  let size := producerOptionsSize + options.length
  (u16Bytes options.length.toUInt16 ++ options ++ [0] ++ List.replicate size uninit).take size

/-- `AmdHsaCode::AddNoteProducerOptions`. -/
def addNoteProducerOptions (data : List UInt8) (options : List UInt8) (uninit : UInt8) :
    List UInt8 :=
  addAmdNote data ntAmdHsaProducerOptions (producerOptionsDesc options uninit)

/-- A call of one of the note writers. -/
inductive Writer
  | codeObjectVersion (major minor : UInt32)
  | hsail (hsailMajor hsailMinor : UInt32) (profile machineModel roundingMode : UInt8)
  | isa (vendor arch : List UInt8) (major minor stepping : UInt32)
  | producer (major minor : UInt32) (producer : List UInt8)
  | producerOptions (options : List UInt8) (uninit : UInt8)

/-- The note section after one more writer. -/
def Writer.apply (data : List UInt8) : Writer → List UInt8
  | .codeObjectVersion major minor => addNoteCodeObjectVersion data major minor
  | .hsail hmaj hmin p m r => addNoteHsail data hmaj hmin p m r
  | .isa vendor arch major minor stepping => addNoteIsa data vendor arch major minor stepping
  | .producer major minor name => addNoteProducer data major minor name
  | .producerOptions options uninit => addNoteProducerOptions data options uninit

/-- The type and the descriptor a writer hands to `AddAmdNote`. -/
def Writer.note : Writer → UInt32 × List UInt8
  | .codeObjectVersion major minor => (ntAmdHsaCodeObjectVersion, codeObjectVersionDesc major minor)
  | .hsail hmaj hmin p m r => (ntAmdHsaHsail, hsailDesc hmaj hmin p m r)
  | .isa vendor arch major minor stepping =>
    (ntAmdHsaIsaVersion, isaDesc vendor arch major minor stepping)
  | .producer major minor name => (ntAmdHsaProducer, producerDesc major minor name)
  | .producerOptions options uninit => (ntAmdHsaProducerOptions, producerOptionsDesc options uninit)

/-- The note section of a new code object after the writers, in order. -/
def build (ws : List Writer) : List UInt8 := ws.foldl Writer.apply []

/-! ## The readers -/

/-- `AmdHsaCode::GetAmdNote`: the offset and size of the first `"AMD"`
descriptor of the type, when it is at least `minSize` bytes long.  The walk
has a fuel of one round per byte, more than a section of whole records
needs. -/
def getAmdNote (data : List UInt8) (type : UInt32) (minSize : Nat) : Option (Nat × Nat) :=
  match getNote data amdName type (data.length + 1) with
  | some (.found desc descSize) =>
    if minSize ≤ descSize.toNat then some (desc, descSize.toNat) else none
  | _ => none

/-- `GetNoteCodeObjectVersion`: the major and minor versions. -/
def getNoteCodeObjectVersion (data : List UInt8) : Option (UInt32 × UInt32) := do
  let (desc, _) ← getAmdNote data ntAmdHsaCodeObjectVersion codeObjectVersionSize
  let major ← readU32 data desc
  let minor ← readU32 data (desc + 4)
  return (major, minor)

/-- `GetNoteHsail`. -/
def getNoteHsail (data : List UInt8) : Option (UInt32 × UInt32 × UInt8 × UInt8 × UInt8) := do
  let (desc, _) ← getAmdNote data ntAmdHsaHsail hsailSize
  let hsailMajor ← readU32 data desc
  let hsailMinor ← readU32 data (desc + 4)
  return (hsailMajor, hsailMinor, data.getD (desc + 8) 0, data.getD (desc + 9) 0,
    data.getD (desc + 10) 0)

/-- `GetNoteIsa`: the architecture name starts after the vendor name as
decoded, and is `GetNoteString` of `architecture_name_size` bytes. -/
def getNoteIsa (data : List UInt8) :
    Option (List UInt8 × List UInt8 × UInt32 × UInt32 × UInt32) := do
  let (desc, _) ← getAmdNote data ntAmdHsaIsaVersion isaSize
  let vendorSize ← readU16 data desc
  let archSize ← readU16 data (desc + 2)
  let vendor ← getNoteString data vendorSize.toUInt32 (desc + 16)
  let arch ← getNoteString data archSize.toUInt32 (desc + 16 + vendor.length + 1)
  let major ← readU32 data (desc + 4)
  let minor ← readU32 data (desc + 8)
  let stepping ← readU32 data (desc + 12)
  return (vendor, arch, major, minor, stepping)

/-- `GetNoteProducer`. -/
def getNoteProducer (data : List UInt8) : Option (UInt32 × UInt32 × List UInt8) := do
  let (desc, _) ← getAmdNote data ntAmdHsaProducer producerSize
  let nameSize ← readU16 data desc
  let major ← readU32 data (desc + 4)
  let minor ← readU32 data (desc + 8)
  let name ← getNoteString data nameSize.toUInt32 (desc + 12)
  return (major, minor, name)

/-- `GetNoteProducerOptions`. -/
def getNoteProducerOptions (data : List UInt8) : Option (List UInt8) := do
  let (desc, _) ← getAmdNote data ntAmdHsaProducerOptions producerOptionsSize
  let optionsSize ← readU16 data desc
  getNoteString data optionsSize.toUInt32 (desc + 2)

end HsaCode

namespace Elf

/-! ## Reading back what was written -/

@[simp] theorem length_u16Bytes (x : UInt16) : (u16Bytes x).length = 2 := rfl

@[simp] theorem length_u32Bytes (x : UInt32) : (u32Bytes x).length = 4 := rfl

theorem readU32_u32Bytes (pre rest : List UInt8) (x : UInt32) :
    readU32 (pre ++ u32Bytes x ++ rest) pre.length = some x := by
  have hlen : pre.length + 4 ≤ (pre ++ u32Bytes x ++ rest).length := by simp [u32Bytes]
  simp only [readU32, hlen, if_true, Option.some.injEq]
  simp [List.range_succ, u32Bytes, List.getD_eq_getElem?_getD, List.getElem?_append_right]
  rw [← UInt32.toNat_inj]
  simp [Nat.shiftRight_eq_div_pow]
  have hx := x.toNat_lt
  omega

theorem readU16_u16Bytes (pre rest : List UInt8) (x : UInt16) :
    readU16 (pre ++ u16Bytes x ++ rest) pre.length = some x := by
  have hlen : pre.length + 2 ≤ (pre ++ u16Bytes x ++ rest).length := by simp [u16Bytes]
  simp only [readU16, hlen, if_true, Option.some.injEq]
  simp [u16Bytes, List.getD_eq_getElem?_getD]
  rw [← UInt16.toNat_inj]
  simp [Nat.shiftRight_eq_div_pow]
  have hx := x.toNat_lt
  omega

theorem le_length_of_drop {data l : List UInt8} {off : Nat} (h : data.drop off = l)
    (hl : l ≠ []) : off ≤ data.length := by
  by_contra hlt
  rw [List.drop_of_length_le (by omega)] at h
  exact hl h.symm

/-- The data cut at an offset, as the bytes before it and those from it on. -/
theorem take_append_of_drop {data l : List UInt8} {off : Nat} (h : data.drop off = l)
    (hoff : off ≤ data.length) : data = data.take off ++ l ∧ (data.take off).length = off :=
  ⟨by rw [← h, List.take_append_drop], List.length_take_of_le hoff⟩

/-- A word is read back where its bytes stand. -/
theorem readU32_of_take {data : List UInt8} {off : Nat} {x : UInt32}
    (h : (data.drop off).take 4 = u32Bytes x) : readU32 data off = some x := by
  have hdrop : data.drop off = u32Bytes x ++ (data.drop off).drop 4 := by
    rw [← h, List.take_append_drop]
  obtain ⟨hsplit, hlen⟩ := take_append_of_drop hdrop (le_length_of_drop hdrop (by simp [u32Bytes]))
  have hread := readU32_u32Bytes (data.take off) ((data.drop off).drop 4) x
  rwa [List.append_assoc, ← hsplit, hlen] at hread

theorem readU16_of_take {data : List UInt8} {off : Nat} {x : UInt16}
    (h : (data.drop off).take 2 = u16Bytes x) : readU16 data off = some x := by
  have hdrop : data.drop off = u16Bytes x ++ (data.drop off).drop 2 := by
    rw [← h, List.take_append_drop]
  obtain ⟨hsplit, hlen⟩ := take_append_of_drop hdrop (le_length_of_drop hdrop (by simp [u16Bytes]))
  have hread := readU16_u16Bytes (data.take off) ((data.drop off).drop 2) x
  rwa [List.append_assoc, ← hsplit, hlen] at hread

theorem drop_add_of_drop {data l : List UInt8} {off : Nat} (pre : List UInt8)
    (h : data.drop off = pre ++ l) : data.drop (off + pre.length) = l := by
  rw [← List.drop_drop, h, List.drop_left]

theorem getD_of_drop {data rest : List UInt8} {off : Nat} {b : UInt8}
    (h : data.drop off = b :: rest) : data.getD off 0 = b := by
  have hget : data[off]? = some b := by
    rw [← Nat.add_zero off, ← List.getElem?_drop, h]
    rfl
  simp [List.getD_eq_getElem?_getD, hget]

/-- A name is read back where its bytes stand, less a final `NUL`. -/
theorem getNoteString_of_take {data s : List UInt8} {off : Nat}
    (h : (data.drop off).take s.length = s) (hs : s.length < 2 ^ 32) :
    getNoteString data s.length.toUInt32 off =
      some (if s.getLast? = some 0 then s.dropLast else s) := by
  by_cases hnil : s = []
  · subst hnil
    rfl
  have hsize := Word.toNat_toUInt32 hs
  have hne : s.length.toUInt32 ≠ 0 := fun h0 => by
    rw [h0] at hsize
    exact hnil (List.eq_nil_of_length_eq_zero hsize.symm)
  have hfit : off + s.length ≤ data.length := by
    have hlen := congrArg List.length h
    have hpos := List.length_pos_of_ne_nil hnil
    simp only [List.length_take, List.length_drop] at hlen
    omega
  simp only [getNoteString, hne, if_false, hsize, hfit, if_true, h]

/-- A name without `NUL` bytes is read back whole. -/
theorem getNoteString_of_take_of_not_mem {data s : List UInt8} {off : Nat}
    (h : (data.drop off).take s.length = s) (hs : s.length < 2 ^ 32) (hnul : 0 ∉ s) :
    getNoteString data s.length.toUInt32 off = some s := by
  have hlast : s.getLast? ≠ some 0 := fun h' => hnul (List.mem_of_getLast? h')
  simp [getNoteString_of_take h hs, hlast]

/-- A size below `2 ^ 16`, stored in a `uint16_t` and widened. -/
theorem toUInt32_toUInt16 {n : Nat} (h : n < 2 ^ 16) : n.toUInt16.toUInt32 = n.toUInt32 := by
  rw [← UInt32.toNat_inj]
  simp
  omega

/-- A name read with one byte more than it has: the byte after it is
dropped when it is `NUL` and kept otherwise. -/
theorem getNoteString_succ_of_take {data s : List UInt8} {off : Nat} {b : UInt8}
    (h : (data.drop off).take (s.length + 1) = s ++ [b]) (hs : s.length + 1 < 2 ^ 32) :
    getNoteString data (s.length + 1).toUInt32 off = some (if b = 0 then s else s ++ [b]) := by
  have hread := getNoteString_of_take (s := s ++ [b]) (by simpa using h) (by simpa using hs)
  by_cases hb : b = 0 <;> simpa [hb] using hread

theorem getNoteString_succ_of_drop {data s rest : List UInt8} {off : Nat} {b : UInt8}
    (h : data.drop off = s ++ b :: rest) (hs : s.length + 1 < 2 ^ 32) :
    getNoteString data (s.length + 1).toUInt32 off = some (if b = 0 then s else s ++ [b]) :=
  getNoteString_succ_of_take (by rw [h]; simp [List.take_append, List.take_of_length_le]) hs

/-- A name read one byte past the end of the data is a read out of bounds. -/
theorem getNoteString_past_of_drop {data s : List UInt8} {off : Nat}
    (h : data.drop off = s) (hs : s.length + 1 < 2 ^ 32) :
    getNoteString data (s.length + 1).toUInt32 off = none := by
  have hsize := Word.toNat_toUInt32 hs
  have hne : (s.length + 1).toUInt32 ≠ 0 := fun h0 => by
    rw [h0] at hsize
    simp at hsize
  have hover : ¬ off + (s.length + 1) ≤ data.length := by
    have hlen := congrArg List.length h
    simp only [List.length_drop] at hlen
    omega
  rw [getNoteString, if_neg hne, hsize, if_neg hover]

/-! ## The records `addNote` appends -/

/-- The bytes `addNote` appends to a section whose size is a multiple of
four: the header, then the name with its `NUL` and the descriptor, each
padded to four bytes. -/
def noteRecord (name : List UInt8) (type : UInt32) (desc : List UInt8) : List UInt8 :=
  u32Bytes (name.length + 1).toUInt32 ++ u32Bytes desc.length.toUInt32 ++ u32Bytes type ++
    Buffer.align (name ++ [0]) 4 ++ Buffer.align desc 4

/-- The records of a list of notes, one after another. -/
def noteRecords (name : List UInt8) (notes : List (UInt32 × List UInt8)) : List UInt8 :=
  (notes.map fun n => noteRecord name n.1 n.2).flatten

theorem length_align (data : List UInt8) :
    (Buffer.align data 4).length = alignUpSize data.length 4 := by
  simp [Buffer.align, alignUpSize]
  omega

/-- Aligning after a prefix of whole words aligns what follows it. -/
theorem align_append {pre : List UInt8} (hpre : 4 ∣ pre.length) (l : List UInt8) :
    Buffer.align (pre ++ l) 4 = pre ++ Buffer.align l 4 := by
  simp only [Buffer.align, List.length_append, alignUpSize, List.append_assoc]
  congr 3
  omega

theorem align_of_dvd {l : List UInt8} (hl : 4 ∣ l.length) : Buffer.align l 4 = l := by
  simpa [Buffer.align, alignUpSize] using align_append hl []

theorem four_dvd_length_align (l : List UInt8) : 4 ∣ (Buffer.align l 4).length := by
  rw [length_align, alignUpSize]
  omega

theorem length_noteRecord (name : List UInt8) (type : UInt32) (desc : List UInt8) :
    (noteRecord name type desc).length =
      12 + alignUpSize (name.length + 1) 4 + alignUpSize desc.length 4 := by
  simp [noteRecord, u32Bytes, length_align]
  omega

theorem four_dvd_length_noteRecord (name : List UInt8) (type : UInt32) (desc : List UInt8) :
    4 ∣ (noteRecord name type desc).length := by
  rw [length_noteRecord, alignUpSize, alignUpSize]
  omega

/-- On a section of whole words, `addNote` appends one record. -/
theorem addNote_eq {data : List UInt8} (hdata : 4 ∣ data.length) (name : List UInt8)
    (type : UInt32) (desc : List UInt8) :
    addNote data name type desc = data ++ noteRecord name type desc := by
  have hword : ∀ (pre : List UInt8) (x : UInt32), 4 ∣ pre.length → 4 ∣ (pre ++ u32Bytes x).length := by
    intro pre x h
    simp [u32Bytes]
    omega
  simp only [addNote, Buffer.add, noteRecordAlignment, align_of_dvd hdata]
  have h1 := hword data (name.length + 1).toUInt32 hdata
  have h2 := hword _ desc.length.toUInt32 h1
  have h3 := hword _ type h2
  rw [align_of_dvd h1, align_of_dvd h2, align_of_dvd h3, align_append h3]
  have h4 : 4 ∣ (data ++ u32Bytes (name.length + 1).toUInt32 ++ u32Bytes desc.length.toUInt32 ++
      u32Bytes type ++ Buffer.align (name ++ [0]) 4).length := by
    have := four_dvd_length_align (name ++ [0])
    simp only [List.length_append] at h3 this ⊢
    omega
  rw [align_of_dvd h4]
  split_ifs with hdesc
  · rw [align_append h4]
    simp [noteRecord]
  · obtain rfl : desc = [] := List.eq_nil_of_length_eq_zero (by omega)
    simp [noteRecord, Buffer.align, alignUpSize]

/-- `alignUp(x, 4)` rounds up to a multiple of four when it does not wrap. -/
theorem alignUp_four_toNat {x : UInt32} (hx : x.toNat + 3 < 2 ^ 32) :
    (alignUp x 4).toNat = alignUpSize x.toNat 4 := by
  have hnot : (~~~(4 - 1 : UInt32)).toNat = 2 ^ 32 - 2 ^ 2 := by decide
  have hsum : (x + 4 - 1).toNat = x.toNat + 3 := by
    simp [UInt32.toNat_sub, UInt32.toNat_add]
    omega
  rw [alignUp, UInt32.toNat_and, hnot, hsum, Word.land_two_pow_sub_two_pow (by omega) hx,
    alignUpSize]
  omega

/-! ## Walking the records -/

/-- One round of `getNote` at the start of a record whose name is the one
sought: a record of the type sought is found, its descriptor after the
header and the padded name; a record of another type is stepped over. -/
theorem noteLoop_record {pre rest name desc : List UInt8} {t type : UInt32} (fuel : Nat)
    (hlen : (pre ++ noteRecord name t desc ++ rest).length < 2 ^ 32) :
    noteLoop (pre ++ noteRecord name t desc ++ rest) name type (fuel + 1) pre.length.toUInt32 =
      if type = t then
        some (.found (pre.length + 12 + alignUpSize (name.length + 1) 4) desc.length.toUInt32)
      else noteLoop (pre ++ noteRecord name t desc ++ rest) name type fuel
        (pre ++ noteRecord name t desc).length.toUInt32 := by
  have hrec := length_noteRecord name t desc
  simp only [List.length_append] at hlen
  simp only [alignUpSize] at hrec
  have hoff : pre.length.toUInt32.toNat = pre.length := Word.toNat_toUInt32 (by omega)
  have hdescsz : (desc.length.toUInt32).toNat = desc.length := Word.toNat_toUInt32 (by omega)
  have hin : pre.length < (pre ++ noteRecord name t desc ++ rest).length := by
    simp only [List.length_append]
    omega
  -- the header's three words and the name, read where `addNote` wrote them
  have r0 : readU32 (pre ++ noteRecord name t desc ++ rest) pre.length =
      some (name.length + 1).toUInt32 :=
    readU32_of_take (by simp [noteRecord, u32Bytes])
  have r1 : readU32 (pre ++ noteRecord name t desc ++ rest) (pre.length + 4) =
      some desc.length.toUInt32 :=
    readU32_of_take (by simp [noteRecord, List.drop_length_add_append, u32Bytes])
  have r2 : readU32 (pre ++ noteRecord name t desc ++ rest) (pre.length + 4 + 4) = some t :=
    readU32_of_take (by simp [noteRecord, Nat.add_assoc, List.drop_length_add_append, u32Bytes])
  have hname : getNoteString (pre ++ noteRecord name t desc ++ rest) (name.length + 1).toUInt32
      (pre.length + nhdrSize) = some name := by
    simpa using getNoteString_succ_of_take (b := 0)
      (by simp [noteRecord, nhdrSize, Buffer.align, List.drop_length_add_append, u32Bytes,
        List.take_append, List.take_of_length_le])
      (by omega)
  have hau1 : (alignUp (name.length + 1).toUInt32 4).toNat = alignUpSize (name.length + 1) 4 := by
    rw [alignUp_four_toNat (by rw [Word.toNat_toUInt32 (by omega)]; omega),
      Word.toNat_toUInt32 (by omega)]
  have hau2 : (alignUp desc.length.toUInt32 4).toNat = alignUpSize desc.length 4 := by
    rw [alignUp_four_toNat (by omega), hdescsz]
  -- the next record starts where this one ends
  have hnext : pre.length.toUInt32 + UInt32.ofNat nhdrSize + alignUp (name.length + 1).toUInt32 4 +
      alignUp desc.length.toUInt32 4 = (pre ++ noteRecord name t desc).length.toUInt32 := by
    rw [← UInt32.toNat_inj]
    simp only [UInt32.toNat_add, hoff, hau1, hau2, List.length_append, hrec, Nat.toUInt32_eq,
      UInt32.toNat_ofNat', nhdrSize, alignUpSize]
    omega
  simp only [noteLoop, hoff, hin, if_true, r0, r1, r2, hname, hau1, hnext]
  by_cases htype : type = t <;> simp [htype, nhdrSize]

/-- `getNote` steps over records of other types and stops at the first
record of the type sought. -/
theorem noteLoop_records {name desc rest : List UInt8} {type : UInt32}
    (notes : List (UInt32 × List UInt8)) (pre : List UInt8) (fuel : Nat)
    (htypes : ∀ n ∈ notes, n.1 ≠ type) (hfuel : notes.length < fuel)
    (hlen : (pre ++ noteRecords name notes ++ noteRecord name type desc ++ rest).length < 2 ^ 32) :
    noteLoop (pre ++ noteRecords name notes ++ noteRecord name type desc ++ rest) name type fuel
        pre.length.toUInt32 =
      some (.found ((pre ++ noteRecords name notes).length + 12 + alignUpSize (name.length + 1) 4)
        desc.length.toUInt32) := by
  induction notes generalizing pre fuel with
  | nil =>
    obtain ⟨f, rfl⟩ : ∃ f, fuel = f + 1 := ⟨fuel - 1, by simp at hfuel; omega⟩
    simp only [noteRecords, List.map_nil, List.flatten_nil, List.append_nil] at hlen ⊢
    rw [noteLoop_record f hlen, if_pos rfl]
  | cons n notes ih =>
    obtain ⟨f, rfl⟩ : ∃ f, fuel = f + 1 := ⟨fuel - 1, by simp at hfuel; omega⟩
    have hsplit : pre ++ noteRecords name (n :: notes) ++ noteRecord name type desc ++ rest =
        pre ++ noteRecord name n.1 n.2 ++
          (noteRecords name notes ++ noteRecord name type desc ++ rest) := by
      simp [noteRecords]
    have hlen' : (pre ++ noteRecord name n.1 n.2 ++
        (noteRecords name notes ++ noteRecord name type desc ++ rest)).length < 2 ^ 32 := by
      rwa [← hsplit]
    rw [hsplit, noteLoop_record f hlen', if_neg (Ne.symm (htypes n (by simp)))]
    have hnext := ih (pre ++ noteRecord name n.1 n.2) f (fun m hm => htypes m (by simp [hm]))
      (by simp at hfuel; omega) (by simpa [noteRecords] using hlen)
    simpa [noteRecords] using hnext

/-- Every record is longer than a byte, so a walk with a round per byte
reaches any record. -/
theorem length_le_noteRecords (name : List UInt8) (notes : List (UInt32 × List UInt8)) :
    notes.length ≤ (noteRecords name notes).length := by
  induction notes with
  | nil => simp [noteRecords]
  | cons n notes ih =>
    have hrec := length_noteRecord name n.1 n.2
    simp only [noteRecords, List.map_cons, List.flatten_cons, List.length_append,
      List.length_cons] at ih ⊢
    omega

end Elf

namespace HsaCode

open Elf

/-! ## What the writers build -/

/-- Every writer is `AddAmdNote` of its type and descriptor. -/
theorem Writer.apply_eq (data : List UInt8) (w : Writer) :
    w.apply data = addNote data amdName w.note.1 w.note.2 := by
  cases w <;> rfl

/-- On a section of whole words, each writer appends its record. -/
theorem foldl_apply (ws : List Writer) (acc : List UInt8) (hacc : 4 ∣ acc.length) :
    ws.foldl Writer.apply acc = acc ++ noteRecords amdName (ws.map Writer.note) := by
  induction ws generalizing acc with
  | nil => simp [noteRecords]
  | cons w ws ih =>
    have hnext : 4 ∣ (acc ++ noteRecord amdName w.note.1 w.note.2).length := by
      rw [List.length_append]
      exact Nat.dvd_add hacc (four_dvd_length_noteRecord ..)
    rw [List.foldl_cons, Writer.apply_eq, addNote_eq hacc, ih _ hnext]
    simp [noteRecords]

theorem build_eq (ws : List Writer) : build ws = noteRecords amdName (ws.map Writer.note) := by
  simpa [build] using foldl_apply ws [] (Nat.dvd_zero 4)

theorem build_append_cons (pre post : List Writer) (w : Writer) :
    build (pre ++ w :: post) = build pre ++ noteRecord amdName w.note.1 w.note.2 ++ build post := by
  simp [build_eq, noteRecords]

/-- **The reader's walk.**  In a section the writers built, `GetAmdNote`
finds the descriptor of the first writer of the type sought, sixteen bytes
into its record, and checks its size. -/
theorem getAmdNote_build {pre post : List Writer} {w : Writer} (minSize : Nat)
    (hpre : ∀ v ∈ pre, v.note.1 ≠ w.note.1)
    (hlen : (build (pre ++ w :: post)).length < 2 ^ 32) :
    getAmdNote (build (pre ++ w :: post)) w.note.1 minSize =
      if minSize ≤ w.note.2.length then some ((build pre).length + 16, w.note.2.length)
      else none := by
  have hdata : build (pre ++ w :: post) = [] ++ noteRecords amdName (pre.map Writer.note) ++
      noteRecord amdName w.note.1 w.note.2 ++ build post := by
    rw [build_append_cons, build_eq pre, List.nil_append]
  have hrec := length_noteRecord amdName w.note.1 w.note.2
  have hcount := length_le_noteRecords amdName (pre.map Writer.note)
  rw [hdata] at hlen ⊢
  simp only [getAmdNote, getNote]
  rw [show (0 : UInt32) = ([] : List UInt8).length.toUInt32 from rfl,
    noteLoop_records (pre.map Writer.note) [] _ (by simpa using hpre) ?fuel hlen]
  case fuel =>
    simp only [List.length_append, List.length_map] at hcount ⊢
    omega
  simp only [List.length_append] at hlen
  have hdesc : w.note.2.length.toUInt32.toNat = w.note.2.length := by
    apply Word.toNat_toUInt32
    simp only [hrec, alignUpSize] at hlen
    omega
  simp [hdesc, build_eq, alignUpSize, amdName]

/-- The bytes from a descriptor on: the descriptor, its padding and the
records after it. -/
theorem drop_build_desc (pre post : List Writer) (w : Writer) :
    (build (pre ++ w :: post)).drop ((build pre).length + 16) =
      w.note.2 ++ List.replicate (alignUpSize w.note.2.length 4 - w.note.2.length) 0 ++
        build post := by
  rw [build_append_cons, List.append_assoc, List.append_assoc, List.drop_length_add_append]
  simp [noteRecord, Buffer.align, alignUpSize, amdName, u32Bytes]

/-- The records after a descriptor start with the size of the name `"AMD"`
and its `NUL`. -/
theorem build_cons (w : Writer) (ws : List Writer) :
    ∃ rest, build (w :: ws) = 4 :: rest := by
  simp [build_eq, noteRecords, noteRecord, amdName, u32Bytes]

/-! ## The descriptors -/

/-- `AddNoteIsa`'s buffer ends one byte short: the architecture name's `NUL`
is not in the descriptor. -/
theorem isaDesc_eq (vendor arch : List UInt8) (major minor stepping : UInt32) :
    isaDesc vendor arch major minor stepping =
      u16Bytes (vendor.length + 1).toUInt16 ++ u16Bytes (arch.length + 1).toUInt16 ++
        u32Bytes major ++ u32Bytes minor ++ u32Bytes stepping ++ vendor ++ [0] ++ arch := by
  have hsize : producerSize + vendor.length + arch.length + 1 =
      (u16Bytes (vendor.length + 1).toUInt16 ++ u16Bytes (arch.length + 1).toUInt16 ++
        u32Bytes major ++ u32Bytes minor ++ u32Bytes stepping ++ vendor ++ [0] ++ arch).length := by
    simp [producerSize, u16Bytes, u32Bytes]
    omega
  rw [isaDesc, isaLayout, hsize, List.take_left]

/-- The descriptor of `AddNoteProducer`: the name's `NUL` and three zero
bytes of padding after it. -/
theorem producerDesc_eq (major minor : UInt32) (name : List UInt8) :
    producerDesc major minor name =
      u16Bytes name.length.toUInt16 ++ u16Bytes 0 ++ u32Bytes major ++ u32Bytes minor ++ name ++
        [0, 0, 0, 0] := by
  have hsize : producerSize + name.length = (u16Bytes name.length.toUInt16 ++ u16Bytes 0 ++
      u32Bytes major ++ u32Bytes minor ++ name ++ [0]).length + 3 := by
    simp [producerSize, u16Bytes, u32Bytes]
    omega
  rw [producerDesc, hsize, List.take_length_add_append]
  simp

/-- The descriptor of `AddNoteProducerOptions` ends with the options' `NUL`
and the byte the buffer held. -/
theorem producerOptionsDesc_eq (options : List UInt8) (uninit : UInt8) :
    producerOptionsDesc options uninit =
      u16Bytes options.length.toUInt16 ++ options ++ [0, uninit] := by
  have hsize : producerOptionsSize + options.length =
      (u16Bytes options.length.toUInt16 ++ options ++ [0]).length + 1 := by
    simp [producerOptionsSize, u16Bytes]
    omega
  rw [producerOptionsDesc, hsize, List.take_length_add_append]
  simp

/-! ## Each reader on what the writers built -/

section Readers

variable {pre post : List Writer}

/-- `GetNoteCodeObjectVersion` returns what the first
`AddNoteCodeObjectVersion` wrote. -/
theorem getNoteCodeObjectVersion_build {major minor : UInt32}
    (hpre : ∀ v ∈ pre, v.note.1 ≠ ntAmdHsaCodeObjectVersion)
    (hlen : (build (pre ++ .codeObjectVersion major minor :: post)).length < 2 ^ 32) :
    getNoteCodeObjectVersion (build (pre ++ .codeObjectVersion major minor :: post)) =
      some (major, minor) := by
  have hnote := getAmdNote_build (w := .codeObjectVersion major minor) codeObjectVersionSize hpre hlen
  have hdrop := drop_build_desc pre post (.codeObjectVersion major minor)
  simp only [Writer.note, codeObjectVersionDesc] at hnote hdrop
  generalize build (pre ++ .codeObjectVersion major minor :: post) = data at hnote hdrop
  generalize (build pre).length + 16 = d at hnote hdrop
  have r0 : readU32 data d = some major := readU32_of_take (by simp [hdrop, u32Bytes])
  have r1 : readU32 data (d + 4) = some minor := by
    apply readU32_of_take
    rw [← List.drop_drop, hdrop]
    simp [u32Bytes]
  simp only [getNoteCodeObjectVersion, hnote]
  simp [codeObjectVersionSize, u32Bytes, r0, r1]

/-- `GetNoteHsail` returns what the first `AddNoteHsail` wrote. -/
theorem getNoteHsail_build {hsailMajor hsailMinor : UInt32} {profile machineModel roundingMode : UInt8}
    (hpre : ∀ v ∈ pre, v.note.1 ≠ ntAmdHsaHsail)
    (hlen : (build (pre ++ .hsail hsailMajor hsailMinor profile machineModel roundingMode ::
      post)).length < 2 ^ 32) :
    getNoteHsail (build (pre ++ .hsail hsailMajor hsailMinor profile machineModel roundingMode ::
      post)) = some (hsailMajor, hsailMinor, profile, machineModel, roundingMode) := by
  have hnote := getAmdNote_build
    (w := .hsail hsailMajor hsailMinor profile machineModel roundingMode) hsailSize hpre hlen
  have hdrop := drop_build_desc pre post
    (.hsail hsailMajor hsailMinor profile machineModel roundingMode)
  simp only [Writer.note, hsailDesc] at hnote hdrop
  generalize build (pre ++ .hsail hsailMajor hsailMinor profile machineModel roundingMode ::
    post) = data at hnote hdrop
  generalize (build pre).length + 16 = d at hnote hdrop
  have r0 : readU32 data d = some hsailMajor := readU32_of_take (by simp [hdrop, u32Bytes])
  have r1 : readU32 data (d + 4) = some hsailMinor := by
    apply readU32_of_take
    rw [← List.drop_drop, hdrop]
    simp [u32Bytes]
  -- the three bytes after the two words
  have hbytes : data.drop (d + 8) = profile :: machineModel :: roundingMode :: 0 ::
      (List.replicate (alignUpSize 12 4 - 12) 0 ++ build post) := by
    rw [← List.drop_drop, hdrop]
    simp [u32Bytes]
  have b0 := getD_of_drop hbytes
  have b1 : data.getD (d + 9) 0 = machineModel :=
    getD_of_drop (by rw [show d + 9 = d + 8 + 1 by omega, ← List.drop_drop, hbytes]; rfl)
  have b2 : data.getD (d + 10) 0 = roundingMode :=
    getD_of_drop (by rw [show d + 10 = d + 8 + 2 by omega, ← List.drop_drop, hbytes]; rfl)
  simp only [List.getD_eq_getElem?_getD] at b0 b1 b2
  simp only [getNoteHsail, hnote]
  simp [hsailSize, u32Bytes, r0, r1, b0, b1, b2]

/-- `GetNoteProducer` returns what the first `AddNoteProducer` wrote, for a
name without `NUL` bytes shorter than `2 ^ 16`. -/
theorem getNoteProducer_build {major minor : UInt32} {name : List UInt8}
    (hpre : ∀ v ∈ pre, v.note.1 ≠ ntAmdHsaProducer)
    (hshort : name.length < 2 ^ 16) (hnul : 0 ∉ name)
    (hlen : (build (pre ++ .producer major minor name :: post)).length < 2 ^ 32) :
    getNoteProducer (build (pre ++ .producer major minor name :: post)) =
      some (major, minor, name) := by
  have hnote := getAmdNote_build (w := .producer major minor name) producerSize hpre hlen
  have hdrop := drop_build_desc pre post (.producer major minor name)
  simp only [Writer.note, producerDesc_eq] at hnote hdrop
  rw [if_pos (by simp [producerSize]; omega)] at hnote
  generalize build (pre ++ .producer major minor name :: post) = data at hnote hdrop
  generalize (build pre).length + 16 = d at hnote hdrop
  have r0 : readU16 data d = some name.length.toUInt16 := readU16_of_take (by simp [hdrop, u16Bytes])
  have r1 : readU32 data (d + 4) = some major := by
    apply readU32_of_take
    rw [← List.drop_drop, hdrop]
    simp [u16Bytes, u32Bytes]
  have r2 : readU32 data (d + 8) = some minor := by
    apply readU32_of_take
    rw [← List.drop_drop, hdrop]
    simp [u16Bytes, u32Bytes]
  have hname : getNoteString data name.length.toUInt32 (d + 12) = some name := by
    apply getNoteString_of_take_of_not_mem _ (by omega) hnul
    rw [← List.drop_drop, hdrop]
    simp [u16Bytes, u32Bytes]
  simp [getNoteProducer, hnote, r0, r1, r2, toUInt32_toUInt16 hshort, hname]

/-- `GetNoteProducerOptions` returns what the first `AddNoteProducerOptions`
wrote, for options without `NUL` bytes shorter than `2 ^ 16`, whatever the
byte the buffer held after them. -/
theorem getNoteProducerOptions_build {options : List UInt8} {uninit : UInt8}
    (hpre : ∀ v ∈ pre, v.note.1 ≠ ntAmdHsaProducerOptions)
    (hshort : options.length < 2 ^ 16) (hnul : 0 ∉ options)
    (hlen : (build (pre ++ .producerOptions options uninit :: post)).length < 2 ^ 32) :
    getNoteProducerOptions (build (pre ++ .producerOptions options uninit :: post)) =
      some options := by
  have hnote := getAmdNote_build (w := .producerOptions options uninit) producerOptionsSize hpre hlen
  have hdrop := drop_build_desc pre post (.producerOptions options uninit)
  simp only [Writer.note, producerOptionsDesc_eq] at hnote hdrop
  rw [if_pos (by simp [producerOptionsSize]; omega)] at hnote
  generalize build (pre ++ .producerOptions options uninit :: post) = data at hnote hdrop
  generalize (build pre).length + 16 = d at hnote hdrop
  have r0 : readU16 data d = some options.length.toUInt16 :=
    readU16_of_take (by simp [hdrop, u16Bytes])
  have hoptions : getNoteString data options.length.toUInt32 (d + 2) = some options := by
    apply getNoteString_of_take_of_not_mem _ (by omega) hnul
    rw [← List.drop_drop, hdrop]
    simp [u16Bytes]
  simp [getNoteProducerOptions, hnote, r0, toUInt32_toUInt16 hshort, hoptions]

/-- `GetNoteIsa` once the ISA note is found at `d` and its header and vendor
name read back: the architecture name is whatever its `GetNoteString` gives. -/
theorem getNoteIsa_of_reads {data vendor : List UInt8} {d len : Nat} {vendorSize archSize : UInt16}
    {major minor stepping : UInt32}
    (hnote : getAmdNote data ntAmdHsaIsaVersion isaSize = some (d, len))
    (r0 : readU16 data d = some vendorSize) (r1 : readU16 data (d + 2) = some archSize)
    (hv : getNoteString data vendorSize.toUInt32 (d + 16) = some vendor)
    (r2 : readU32 data (d + 4) = some major) (r3 : readU32 data (d + 8) = some minor)
    (r4 : readU32 data (d + 12) = some stepping) :
    getNoteIsa data = (getNoteString data archSize.toUInt32 (d + 16 + vendor.length + 1)).map
      fun arch => (vendor, arch, major, minor, stepping) := by
  simp only [getNoteIsa, hnote, r0, r1, hv, r2, r3, r4, Option.bind_eq_bind, Option.bind_some]
  cases getNoteString data archSize.toUInt32 (d + 16 + vendor.length + 1) <;> rfl

/-- **`GetNoteIsa` on what `AddNoteIsa` wrote.**  The vendor name and the
numbers are read back, and the architecture name only when the descriptor
is padded: when the names' lengths add up to `3` modulo `4`, the byte read in
place of its `NUL` is the next note's first byte, `4`, or lies past the
section.  With fewer than three characters in all, the descriptor is
shorter than an `amdgpu_hsa_note_isa_t` and the note is refused. -/
theorem getNoteIsa_build {vendor arch : List UInt8} {major minor stepping : UInt32}
    (hpre : ∀ v ∈ pre, v.note.1 ≠ ntAmdHsaIsaVersion)
    (hvendor : vendor.length + 1 < 2 ^ 16) (harch : arch.length + 1 < 2 ^ 16)
    (hlen : (build (pre ++ .isa vendor arch major minor stepping :: post)).length < 2 ^ 32) :
    getNoteIsa (build (pre ++ .isa vendor arch major minor stepping :: post)) =
      if vendor.length + arch.length < 3 then none
      else if (vendor.length + arch.length) % 4 = 3 then
        (if post = [] then none else some (vendor, arch ++ [4], major, minor, stepping))
      else some (vendor, arch, major, minor, stepping) := by
  have hnote := getAmdNote_build (w := .isa vendor arch major minor stepping) isaSize hpre hlen
  have hdrop := drop_build_desc pre post (.isa vendor arch major minor stepping)
  have hdesc : (isaDesc vendor arch major minor stepping).length =
      vendor.length + arch.length + 17 := by
    simp [isaDesc_eq]
    omega
  simp only [Writer.note, hdesc] at hnote hdrop
  rw [isaDesc_eq] at hdrop
  generalize build (pre ++ .isa vendor arch major minor stepping :: post) = data at hnote hdrop
  generalize (build pre).length + 16 = d at hnote hdrop
  by_cases hshort : vendor.length + arch.length < 3
  · rw [if_neg (by simp [isaSize]; omega)] at hnote
    simp only [getNoteIsa, hnote, Option.bind_eq_bind, Option.bind_none, if_pos hshort]
  rw [if_pos (by simp [isaSize]; omega)] at hnote
  have harch_drop : data.drop (d + 16 + vendor.length + 1) = arch ++ (List.replicate
      (alignUpSize (vendor.length + arch.length + 17) 4 - (vendor.length + arch.length + 17)) 0 ++
        build post) := by
    rw [show d + 16 + vendor.length + 1 = d + (u16Bytes (vendor.length + 1).toUInt16 ++
      u16Bytes (arch.length + 1).toUInt16 ++ u32Bytes major ++ u32Bytes minor ++
        u32Bytes stepping ++ vendor ++ [0]).length by simp; omega]
    apply drop_add_of_drop
    rw [hdrop]
    simp only [List.append_assoc]
  have hvendor_drop : data.drop (d + 16) = vendor ++ 0 :: (arch ++ (List.replicate
      (alignUpSize (vendor.length + arch.length + 17) 4 - (vendor.length + arch.length + 17)) 0 ++
        build post)) := by
    rw [show d + 16 = d + (u16Bytes (vendor.length + 1).toUInt16 ++
      u16Bytes (arch.length + 1).toUInt16 ++ u32Bytes major ++ u32Bytes minor ++
        u32Bytes stepping).length by simp]
    apply drop_add_of_drop
    rw [hdrop]
    simp
  have r0 : readU16 data d = some (vendor.length + 1).toUInt16 :=
    readU16_of_take (by simp [hdrop, u16Bytes])
  have r1 : readU16 data (d + 2) = some (arch.length + 1).toUInt16 := by
    apply readU16_of_take
    rw [← List.drop_drop, hdrop]
    simp [u16Bytes]
  have r2 : readU32 data (d + 4) = some major := by
    apply readU32_of_take
    rw [← List.drop_drop, hdrop]
    simp [u16Bytes, u32Bytes]
  have r3 : readU32 data (d + 8) = some minor := by
    apply readU32_of_take
    rw [← List.drop_drop, hdrop]
    simp [u16Bytes, u32Bytes]
  have r4 : readU32 data (d + 12) = some stepping := by
    apply readU32_of_take
    rw [← List.drop_drop, hdrop]
    simp [u16Bytes, u32Bytes]
  have hv : getNoteString data (vendor.length + 1).toUInt16.toUInt32 (d + 16) = some vendor := by
    rw [toUInt32_toUInt16 hvendor]
    simpa using getNoteString_succ_of_drop hvendor_drop (by omega)
  by_cases hwrap : (vendor.length + arch.length) % 4 = 3
  · -- no padding: the byte read as the name's `NUL` follows the descriptor
    have hpad : alignUpSize (vendor.length + arch.length + 17) 4 -
        (vendor.length + arch.length + 17) = 0 := by
      simp only [alignUpSize]
      omega
    rw [hpad, List.replicate_zero, List.nil_append] at harch_drop
    cases post with
    | nil =>
      have harch_read : getNoteString data (arch.length + 1).toUInt16.toUInt32
          (d + 16 + vendor.length + 1) = none := by
        rw [toUInt32_toUInt16 harch]
        exact getNoteString_past_of_drop (by simpa [build] using harch_drop) (by omega)
      rw [getNoteIsa_of_reads hnote r0 r1 hv r2 r3 r4, harch_read]
      simp [hshort, hwrap]
    | cons w ws =>
      obtain ⟨rest, hrest⟩ := build_cons w ws
      rw [hrest] at harch_drop
      have harch_read : getNoteString data (arch.length + 1).toUInt16.toUInt32
          (d + 16 + vendor.length + 1) = some (arch ++ [4]) := by
        rw [toUInt32_toUInt16 harch]
        simpa using getNoteString_succ_of_drop harch_drop (by omega)
      rw [getNoteIsa_of_reads hnote r0 r1 hv r2 r3 r4, harch_read]
      simp [hshort, hwrap]
  · -- the descriptor's padding supplies the `NUL`
    have hpad : alignUpSize (vendor.length + arch.length + 17) 4 -
        (vendor.length + arch.length + 17) = (alignUpSize (vendor.length + arch.length + 17) 4 -
          (vendor.length + arch.length + 17) - 1) + 1 := by
      simp only [alignUpSize]
      omega
    rw [hpad, List.replicate_succ, List.cons_append] at harch_drop
    have harch_read : getNoteString data (arch.length + 1).toUInt16.toUInt32
        (d + 16 + vendor.length + 1) = some arch := by
      rw [toUInt32_toUInt16 harch]
      simpa using getNoteString_succ_of_drop harch_drop (by omega)
    rw [getNoteIsa_of_reads hnote r0 r1 hv r2 r3 r4, harch_read]
    simp [hshort, hwrap]

/-- Vendor `"AMD"` and architecture `"gfx9"`, seven characters in all: with a
producer note after it the architecture reads back as `"gfx9"` and the byte
`4`, and as the only note it does not read back at all. -/
theorem getNoteIsa_misreads_arch :
    getNoteIsa (build [.isa amdName [103, 102, 120, 57] 9 0 0, .producer 1 0 [120]]) =
        some (amdName, [103, 102, 120, 57, 4], 9, 0, 0) ∧
      getNoteIsa (build [.isa amdName [103, 102, 120, 57] 9 0 0]) = none := by
  decide +kernel

/-! ## Every reader -/

/-- What the writer's arguments must satisfy for its reader to find them:
names and options shorter than `2 ^ 16` with their `NUL`, and, for the
strings the readers stop at a `NUL`, no `NUL` inside. -/
def Writer.Fits : Writer → Prop
  | .codeObjectVersion .. | .hsail .. => True
  | .isa vendor arch .. => vendor.length + 1 < 2 ^ 16 ∧ arch.length + 1 < 2 ^ 16
  | .producer _ _ name => name.length < 2 ^ 16 ∧ 0 ∉ name
  | .producerOptions options _ => options.length < 2 ^ 16 ∧ 0 ∉ options

instance : DecidablePred Writer.Fits := fun w => by
  cases w <;> unfold Writer.Fits <;> infer_instance

/-- What the reader of the writer's note type returns on `data`, when the
writer's note is followed by the notes of `post`: what the writer wrote,
but for the ISA note, whose architecture name depends on the padding. -/
def Writer.Reads (post : List Writer) (data : List UInt8) : Writer → Prop
  | .codeObjectVersion major minor => getNoteCodeObjectVersion data = some (major, minor)
  | .hsail hsailMajor hsailMinor profile machineModel roundingMode =>
    getNoteHsail data = some (hsailMajor, hsailMinor, profile, machineModel, roundingMode)
  | .isa vendor arch major minor stepping =>
    getNoteIsa data =
      if vendor.length + arch.length < 3 then none
      else if (vendor.length + arch.length) % 4 = 3 then
        (if post = [] then none else some (vendor, arch ++ [4], major, minor, stepping))
      else some (vendor, arch, major, minor, stepping)
  | .producer major minor name => getNoteProducer data = some (major, minor, name)
  | .producerOptions options _ => getNoteProducerOptions data = some options

/-- **The readers on a built section.**  For every sequence of writers and
every writer in it that is the first of its note type, the reader of that
type returns what the writer wrote, whatever notes stand before or after it;
the ISA note as `getNoteIsa_build` says. -/
theorem reader_build {w : Writer} (hpre : ∀ v ∈ pre, v.note.1 ≠ w.note.1) (hfits : w.Fits)
    (hlen : (build (pre ++ w :: post)).length < 2 ^ 32) :
    w.Reads post (build (pre ++ w :: post)) := by
  cases w with
  | codeObjectVersion major minor => exact getNoteCodeObjectVersion_build hpre hlen
  | hsail hsailMajor hsailMinor profile machineModel roundingMode => exact getNoteHsail_build hpre hlen
  | isa vendor arch major minor stepping => exact getNoteIsa_build hpre hfits.1 hfits.2 hlen
  | producer major minor name => exact getNoteProducer_build hpre hfits.1 hfits.2 hlen
  | producerOptions options uninit => exact getNoteProducerOptions_build hpre hfits.1 hfits.2 hlen

/-- Vendor `"AMD"` and architecture `"gfx900"`, nine characters in all,
after a version and an HSAIL note: the descriptor is padded, and the ISA
reads back whole. -/
theorem reader_build_gfx900 :
    getNoteIsa (build ([.codeObjectVersion 2 1, .hsail 1 0 1 1 0] ++
      .isa amdName [103, 102, 120, 57, 48, 48] 9 0 0 :: [.producer 1 0 [120]])) =
      some (amdName, [103, 102, 120, 57, 48, 48], 9, 0, 0) := by
  have h : (Writer.isa amdName [103, 102, 120, 57, 48, 48] 9 0 0).Reads [.producer 1 0 [120]]
      (build ([.codeObjectVersion 2 1, .hsail 1 0 1 1 0] ++
        .isa amdName [103, 102, 120, 57, 48, 48] 9 0 0 :: [.producer 1 0 [120]])) :=
    reader_build (by decide) (by decide) (by decide +kernel)
  exact h.trans (by decide +kernel)

end Readers

end HsaCode
