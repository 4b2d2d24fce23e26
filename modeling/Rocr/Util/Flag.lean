import Mathlib
import Rocr.Lib.OrdMap

/-!
# Parsing `HSA_CU_MASK`

`Flag::parse_masks` (`flag.cpp`) reads the CU masks of `HSA_CU_MASK`: sets
`GPU_list : CU_list` separated by `;`, each list of ids and id ranges
separated by `,`, a CU list possibly a hex mask `0x…`.  It removes blanks,
switches to upper case, and installs the sets one by one into `cu_mask_`,
stopping at the first set it rejects.  The lists are parsed by `get_elements`
over `split`, which returns no field for an empty string and drops an empty
last field, with `strtoul` reading the ids.

Indexing an empty vector is undefined behaviour: a parse that would index an
empty `split` result returns `none`.  An id range with a missing end, such as
`3-`, splits to the one field `3` and is read as the id `3`
(`missing_range_end_accepted`), and an empty element indexes the empty split
of `""`.
-/

namespace Flag

/-- `split`: the fields of `str` between separators; an empty string has no
field, and an empty last field is dropped. -/
def split (sep : Char) : Nat → List Char → List (List Char)
  | 0, _ => []
  | fuel + 1, str =>
    if str = [] then []
    else
      match str.findIdx? (· = sep) with
      | none => [str]
      | some pos => str.take pos :: split sep fuel (str.drop (pos + 1))

/-- `split` of a whole string. -/
def splitAll (str : List Char) (sep : Char) : List (List Char) := split sep str.length str

/-- The value of a string of decimal digits. -/
def decimalValue (ds : List Char) : Nat := ds.foldl (fun a c => 10 * a + (c.toNat - '0'.toNat)) 0

/-- `strtoul(s, &end, 10)` on a string without blanks: the `unsigned long`
value and the characters from `end` on.  Without digits nothing is
converted and `end` is `s`; a value past `ULONG_MAX` saturates. -/
def strtoul (s : List Char) : Nat × List Char :=
  let (neg, t) : Bool × List Char := match s with
    | '+' :: t => (false, t)
    | '-' :: t => (true, t)
    | _ => (false, s)
  let digits := t.takeWhile Char.isDigit
  if digits = [] then (0, s)
  else
    let v := decimalValue digits
    let v := if v ≥ 2 ^ 64 then 2 ^ 64 - 1 else if neg then (2 ^ 64 - v) % 2 ^ 64 else v
    (v, t.drop digits.length)

/-- How `get_elements` ends: its sorted ids (none when it rejects the list),
or an index into an empty `split` result. -/
inductive Elements where
  | ids (l : List Nat)
  | emptyIndex
deriving DecidableEq, Repr

/-- One `ID` or `ID-ID` field of `get_elements`, appended to `ret`: `none`
for the empty index, `some none` when the field is rejected. -/
def parseRange (maxElement : Nat) (field : List Char) (ret : List Nat) : Option (Option (List Nat)) :=
  let range := splitAll field '-'
  -- failure, too many `-`s
  if range.length > 2 then some none
  else
    match range with
    | [] => none
    | first :: rest =>
      let (v, e) := strtoul first
      let index := v % 2 ^ 32
      if e ≠ [] then some none
      else
        let ret := if index ≤ maxElement then ret ++ [index] else ret
        match rest with
        | [] => some (some ret)
        | second :: _ =>
          let (v2, e2) := strtoul second
          let secondindex := v2 % 2 ^ 32
          if e2 ≠ [] then some none
          else if secondindex < index then some none
          else
            let secondindex := min secondindex maxElement
            -- `i < secondindex + 1` in `uint32_t`
            let stop := (secondindex + 1) % 2 ^ 32
            some (some (ret ++ (List.range (stop - (index + 1))).map (index + 1 + ·)))

/-- The loop of `get_elements` over its fields. -/
def elementsLoop (maxElement : Nat) : List (List Char) → List Nat → Option (Option (List Nat))
  | [], ret => some (some ret)
  | field :: fields, ret =>
    match parseRange maxElement field ret with
    | none => none
    | some none => some none
    | some (some ret) => elementsLoop maxElement fields ret

/-- `get_elements`: the ids of an id list, sorted, and none at all when the
list is rejected or repeats an id. -/
def getElements (str : List Char) (maxElement : Nat) : Elements :=
  match elementsLoop maxElement (splitAll str ',') [] with
  | none => .emptyIndex
  | some none => .ids []
  | some (some ret) =>
    let ret := ret.insertionSort (· ≤ ·)
    if ret.Nodup then .ids ret else .ids []

/-- The value of a string of hex digits. -/
def hexValue (ds : List Char) : Nat :=
  ds.foldl (fun a c => 16 * a + (if c.isDigit then c.toNat - '0'.toNat else c.toNat - 'A'.toNat + 10)) 0

/-- `isxdigit` on an upper-case string. -/
def isHexDigit (c : Char) : Bool := c.isDigit || ('A' ≤ c && c ≤ 'F') || ('a' ≤ c && c ≤ 'f')

/-- The dwords of a hex mask, least significant first, eight digits each
from the end. -/
def hexChunks : Nat → List Char → List Nat
  | 0, _ => []
  | fuel + 1, cu =>
    if cu = [] then []
    else hexValue (cu.drop (cu.length - 8)) :: hexChunks fuel (cu.take (cu.length - 8))

/-- Drop the zero dwords at the top. -/
def trimZeros (mask : List Nat) : List Nat := (mask.reverse.dropWhile (· = 0)).reverse

/-- The dword mask with the bits of `ids` set. -/
def maskOf (ids : List Nat) (maxdword : Nat) : List Nat :=
  (List.range maxdword).map fun d => ((ids.filter (· / 32 = d)).map fun id => 2 ^ (id % 32)).sum

/-- The CU list of a set: its dword mask, `some none` when the set is
rejected, `none` for the empty index. -/
def cuList (cu : List Char) (maxCU : Nat) : Option (Option (List Nat)) :=
  if cu[1]? = some 'X' then
    if cu.head? ≠ some '0' then some none
    else
      let cu := cu.drop 2
      if !cu.all isHexDigit then some none
      else
        let mask := hexChunks cu.length cu
        -- trim dwords beyond the CU count, then the zero dwords at the top
        let maxDwords := maxCU / 32 + 1
        let mask := if maxDwords < mask.length then mask.take maxDwords else mask
        let mask := trimZeros mask
        if mask = [] then some none else some (some mask)
  else
    match getElements cu maxCU with
    | .emptyIndex => none
    | .ids [] => some none
    | .ids cuIndices =>
      let maxdword := (cuIndices.getLastD 0) / 32 + 1
      some (some (maskOf cuIndices maxdword))

/-- The loop of `parse_masks` over the sets, installing each into `cu_mask_`
until one is rejected; `none` for the empty index. -/
def setsLoop (maxGpu maxCU : Nat) : List (List Char) → OrdMap Nat (List Nat) → Option (OrdMap Nat (List Nat))
  | [], cuMask => some cuMask
  | set :: sets, cuMask =>
    match splitAll set ':' with
    | [gpus, cu] =>
      match cuList cu maxCU with
      | none => none
      | some none => some cuMask
      | some (some mask) =>
        match getElements gpus maxGpu with
        | .emptyIndex => none
        | .ids [] => some cuMask
        | .ids gpuIndex =>
          -- no GPU repeated across sets
          if gpuIndex.any fun id => (cuMask.find? id).isSome then some cuMask
          else setsLoop maxGpu maxCU sets (gpuIndex.foldl (fun m id => m.assign id mask) cuMask)
    | _ => some cuMask

/-- `std::isspace` in the classic locale. -/
def isSpace (c : Char) : Bool :=
  c = ' ' || c = '\t' || c = '\n' || c = '\r' || c = Char.ofNat 11 || c = Char.ofNat 12

/-- `Flag::parse_masks` from an empty `cu_mask_`: the masks it installs, or
`none` when it indexes an empty `split` result. -/
def parseMasks (var : List Char) (maxGpu maxCU : Nat) : Option (OrdMap Nat (List Nat)) :=
  let v := (var.filter fun c => !isSpace c).map Char.toUpper
  setsLoop maxGpu maxCU (splitAll v ';') .empty

/-- `HSA_CU_MASK=0:3-`, a CU range with no end, is read as CU 3 of GPU 0; and
`,1:0x1`, with an empty GPU element, indexes an empty `split` result. -/
theorem missing_range_end_accepted :
    (parseMasks ['0', ':', '3', '-'] 1 64).map OrdMap.entries = some [(0, [8])] ∧
    (parseMasks ['0', ':', '-', '5'] 1 64).map OrdMap.entries = some [(0, [63])] ∧
    parseMasks [',', '1', ':', '0', 'x', '1'] 2 64 = none := by
  decide

end Flag
