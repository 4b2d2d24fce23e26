import Mathlib

/-!
# Walking the notes of an ELF note section

`GElfNoteSection::getNote` (`amd_elf_image.cpp`) looks for the note of a
given name and type in the data of an `SHT_NOTE` section: from offset `0` it
reads each `Elf64_Nhdr` (name size, descriptor size, type, twelve bytes),
compares the name when the type matches, and moves a `uint32_t` offset past
the header and the name and descriptor, each rounded up to four bytes by the
`uint32_t` overload of `alignUp`.

The section data is a list of bytes, its length `d_size`.  A read past the
data ends the walk in `outOfBounds`; the loop runs on fuel, and `none` means
the fuel ran out.  Nothing bounds the sizes in a header, so a name size of
`0xFFFFFFF4` moves the offset by exactly `2^32`, back to where it was, and
the walk never ends (`note_walk_loops`).
-/

namespace Elf

/-- How the walk ends: the offset and size of the descriptor found, no
note of that name and type, or a read past the data. -/
inductive NoteResult where
  | found (desc : Nat) (descSize : UInt32)
  | notFound
  | outOfBounds
deriving DecidableEq, Repr

/-- A little-endian `uint32_t` of the data at `off`. -/
def readU32 (buf : List UInt8) (off : Nat) : Option UInt32 :=
  if off + 4 ≤ buf.length then
    some (UInt32.ofNat ((List.range 4).foldr (fun i a => 256 * a + (buf.getD (off + i) 0).toNat) 0))
  else none

/-- `alignUp(uint32_t num, uint32_t align)`. -/
def alignUp (num align : UInt32) : UInt32 := (num + align - 1) &&& ~~~(align - 1)

/-- `GetNoteString(s_size, s)`: the name, without a final `NUL`. -/
def getNoteString (buf : List UInt8) (sSize : UInt32) (off : Nat) : Option (List UInt8) :=
  if sSize = 0 then some []
  else if off + sSize.toNat ≤ buf.length then
    let s := (buf.drop off).take sSize.toNat
    some (if s.getLast? = some 0 then s.dropLast else s)
  else none

/-- The size of `Elf64_Nhdr`. -/
def nhdrSize : Nat := 12

/-- The loop `while (note_offset < data->d_size)` of `getNote`. -/
def noteLoop (buf : List UInt8) (name : List UInt8) (type : UInt32) : Nat → UInt32 → Option NoteResult
  | 0, _ => none
  | fuel + 1, noteOffset =>
    if noteOffset.toNat < buf.length then
      match readU32 buf noteOffset.toNat, readU32 buf (noteOffset.toNat + 4),
          readU32 buf (noteOffset.toNat + 8) with
      | some namesz, some descsz, some ntype =>
        -- `note_offset += sizeof(Elf64_Nhdr) + alignUp(n_namesz, 4) + alignUp(n_descsz, 4)`
        let next := noteOffset + UInt32.ofNat nhdrSize + alignUp namesz 4 + alignUp descsz 4
        if type = ntype then
          match getNoteString buf namesz (noteOffset.toNat + nhdrSize) with
          | none => some .outOfBounds
          | some noteName =>
            if name = noteName then
              some (.found (noteOffset.toNat + nhdrSize + (alignUp namesz 4).toNat) descsz)
            else noteLoop buf name type fuel next
        else noteLoop buf name type fuel next
      | _, _, _ => some .outOfBounds
    else some .notFound

/-- `getNote(name, type)` over the section data. -/
def getNote (buf : List UInt8) (name : List UInt8) (type : UInt32) (fuel : Nat) : Option NoteResult :=
  noteLoop buf name type fuel 0

/-- A header whose sizes move the offset by a multiple of `2^32` and whose
type is not the one sought keeps the walk where it is, however long it runs. -/
theorem noteLoop_stuck {buf name : List UInt8} {type namesz descsz ntype : UInt32} {off : UInt32}
    (hin : off.toNat < buf.length) (hname : readU32 buf off.toNat = some namesz)
    (hdesc : readU32 buf (off.toNat + 4) = some descsz) (htype : readU32 buf (off.toNat + 8) = some ntype)
    (hne : type ≠ ntype) (hstep : UInt32.ofNat nhdrSize + alignUp namesz 4 + alignUp descsz 4 = 0)
    (fuel : Nat) : noteLoop buf name type fuel off = none := by
  induction fuel with
  | zero => rfl
  | succ fuel ih =>
    -- the offset comes back to `off`, so the next round is the same round
    have hback : off + UInt32.ofNat nhdrSize + alignUp namesz 4 + alignUp descsz 4 = off := by
      rw [UInt32.add_assoc, UInt32.add_assoc, ← UInt32.add_assoc (UInt32.ofNat nhdrSize), hstep,
        UInt32.add_zero]
    simp only [noteLoop, hin, if_true, hname, hdesc, htype, hne, if_false, hback, ih]

/-- Twelve bytes of note data: one header with name size `0xFFFFFFF4`,
descriptor size `0` and type `1`.  A search for type `2` never ends.  And a
sixteen-byte note named `AMD` with descriptor size `100` is found with its
descriptor reaching past the data. -/
theorem note_walk_loops :
    (∀ fuel, getNote [0xF4, 0xFF, 0xFF, 0xFF, 0, 0, 0, 0, 1, 0, 0, 0] [65, 77, 68] 2 fuel = none) ∧
    getNote [4, 0, 0, 0, 100, 0, 0, 0, 1, 0, 0, 0, 65, 77, 68, 0] [65, 77, 68] 1 2 = some (.found 16 100) := by
  refine ⟨fun fuel => ?_, by decide⟩
  exact @noteLoop_stuck _ _ 2 0xFFFFFFF4 0 1 0 (by decide)
    (by decide) (by decide) (by decide) (by decide) (by decide) fuel

end Elf
