import Rocr.Util.SimpleHeap
import Rocr.Lib.Word

/-!
# IPC handles of GPU memory

`Runtime::IPCCreate` shares an allocation with another process through the
eight words of an `hsa_amd_ipc_memory_t`.  On the thunk path the words are
the thunk's `HsaSharedMemoryStruct` for the whole block the allocation lies
in, and `hsaKmtShareMemory` writes the block's `SizeInPages` into word 6.
When the allocation is a fragment of its block (a `SimpleHeap`
sub-allocation), word 6 carries the fragment as well: bit 31 set, and the
offset in pages in bits 0 to 8.  `IPCAttach` takes the bits out again
(`extractFragment`), imports the block through the cleaned handle and offsets
the import by the fragment.  On the dmabuf path word 6 holds the fragment
bits alone.

The three fields share word 6 when the block's size in pages is a multiple
of `512` below `2 ^ 31` and the offset is below `512` pages
(`extractFragment_markFragment`); `IPCCreate` then hands `IPCAttach` what it
needs to find the fragment in the imported block (`ipcAttach_ipcCreate`).
`IPCCreate`'s guard, `len <= 0x7FFFFFFF000`, bounds the fragment's length
and not its block's: a request above 2 MiB gets a block rounded up to 2 MiB
(`alloc_large`), and one just under 8 TiB a block of exactly `2 ^ 43` bytes,
whose `SizeInPages` is bit 31 itself.  `IPCAttach` clears it along with the
fragment flag (`extractFragment_markFragment_size`).
-/

namespace Ipc

open SimpleHeap

/-- `pageSize` of `IPCCreate`. -/
def pageSize : Nat := 4096

/-- `PAGE_SHIFT` of the thunk. -/
def pageShift : Nat := 12

/-- The largest length `IPCCreate` shares. -/
def maxShareLength : Nat := 0x7FFFFFFF000

/-- A fragment's block must be aligned to 2 MiB. -/
def fragmentBlockAlignment : Nat := 2 * 1024 * 1024

/-- Bit 31 of word 6: the handle is of a fragment. -/
def fragmentFlag : UInt32 := 0x80000000

/-- Bits 0 to 8 of word 6: the fragment's offset in pages. -/
def fragmentOffsetMask : UInt32 := 0x1FF

/-- `hsa_amd_ipc_memory_t`: eight `uint32_t`.  On the thunk path it is an
`HsaSharedMemoryStruct`, whose word 6 is `SizeInPages`. -/
abbrev Handle := Vector UInt32 8

/-- The errors these calls return. -/
inductive Status
  | error
  | invalidArgument
  | invalidAllocation
  | outOfResources
deriving DecidableEq, Repr

/-- What `IPCCreate` reads of `PtrInfo`: the allocation from
`allocation_map_` (`agentBaseAddress`, `sizeInBytes`), the thunk block it
lies in (`block.base`, `block.length`) and the owning agent. -/
structure PointerInfo where
  agentBaseAddress : Nat
  sizeInBytes : Nat
  blockBase : Nat
  blockLength : Nat
  ownerIsCpu : Bool
  nodeId : UInt32
deriving DecidableEq, Repr

/-- The thunk, the kernel and the process as these calls see them.
`exportHandle` is the share record `hsakmt_fmm_share_memory` builds for the
object at an address before it sets `SizeInPages` (`none` when a lookup or
the export ioctl fails); `importHandle` reserves an area of a size and
imports a handle into it; `mapOk` is `hsaKmtMapMemoryToGPU`;
`exportDmaBufOk` and `socketServerOk` are the dmabuf export and the socket
server's setup. -/
structure Env where
  dmabufSupported : Bool
  exportHandle : Nat → Option Handle
  importHandle : Handle → Nat → Option Nat
  mapOk : Bool
  exportDmaBufOk : Bool
  socketServerOk : Bool
  pid : UInt32

/-! ## Creating a handle -/

/-- `hsakmt_fmm_share_memory`: the share record of an object, with
`SizeInPages` in word 6; sizes of `2 ^ 44` bytes or more are refused. -/
def shareMemory (env : Env) (memoryAddress sizeInBytes : Nat) : Option Handle :=
  if sizeInBytes ≥ 2 ^ (32 + pageShift) then none
  else (env.exportHandle memoryAddress).map fun sh =>
    sh.set 6 (sizeInBytes >>> pageShift).toUInt32

/-- `handle->handle[6] |= 0x80000000 | fragOffset`. -/
def markFragment (handle : Handle) (fragOffset : UInt32) : Handle :=
  handle.set 6 (handle[6] ||| (fragmentFlag ||| fragOffset))

/-- The dmabuf path of `IPCCreate`, after the checks it shares with the
thunk path: the pointer in words 0 and 1, the socket server's name in word
2, whether the owner is a CPU in word 3, its node in word 4, and the
fragment bits alone in word 6. -/
def dmabufHandle (env : Env) (ptr : Nat) (info : PointerInfo) (useFrag : Bool)
    (fragOffset : UInt32) : Except Status Handle :=
  let handle : Handle := ((((Vector.replicate 8 0).set 0 (ptr % 2 ^ 32).toUInt32).set 1
    (ptr / 2 ^ 32).toUInt32).set 2 env.pid).set 3 (if info.ownerIsCpu then 1 else 0)
  if info.ownerIsCpu ∧ useFrag then .error .invalidArgument
  else
    let handle := handle.set 4 info.nodeId
    let handle := if useFrag then markFragment handle fragOffset else handle
    if !env.exportDmaBufOk then .error .error
    else if !env.socketServerOk then .error .error
    else .ok handle

section Create

variable {σ : Type} (a : Allocator σ)

/-- `Runtime::IPCCreate(ptr, len, handle)`: the handle, and the heap of the
allocation's region, whose block `IPCFragmentExport` discards on the thunk
path so that the fragment is not handed out again. -/
def ipcCreate (env : Env) (heap : Heap σ) (ptr len : Nat) (info : PointerInfo) :
    Except Status (Handle × Heap σ) :=
  if len > maxShareLength then .error .invalidArgument
  else if info.agentBaseAddress ≠ ptr ∨
      (info.sizeInBytes ≠ len ∧ alignUp info.sizeInBytes pageSize ≠ len) then
    .error .invalidArgument
  else
    let useFrag := decide (info.blockBase ≠ ptr ∨ info.blockLength ≠ len)
    let fragOffset := ((ptr - info.blockBase) / pageSize).toUInt32
    if useFrag ∧ info.blockBase % fragmentBlockAlignment ≠ 0 then .error .invalidArgument
    else if !env.dmabufSupported then
      match shareMemory env info.blockBase info.blockLength with
      | none => .error .invalidArgument
      | some sh =>
        if useFrag then
          match discardBlock a heap ptr with
          | (heap, true) => .ok (markFragment sh fragOffset, heap)
          | (_, false) => .error .invalidAllocation
        else .ok (sh, heap)
    else (dmabufHandle env ptr info useFrag fragOffset).map fun handle => (handle, heap)

/-- `Runtime::AllocateMemory` from a GPU region whose allocations its
`SimpleHeap` serves: `AllocateImpl` refuses sizes above the region's largest
allocation and aligns the size up to the page size before `fragment_alloc`.
The result is the heap and the pointer; `allocation_map_` records the size
asked for. -/
def allocateMemory (kPageSize maxSingleAllocSize : Nat) (heap : Heap σ) (size : Nat) :
    Option (Heap σ × Nat) :=
  if size > maxSingleAllocSize then none else some (alloc a heap (alignUp size kPageSize))

end Create

/-! ## Attaching to a handle -/

/-- The fragment bits `IPCAttach` takes out of word 6: `isFragment`,
`fragOffset` in bytes, and the handle with the bits cleared. -/
def extractFragment (handle : Handle) : Bool × UInt32 × Handle :=
  if handle[6] &&& fragmentFlag ≠ 0 then
    (true, (handle[6] &&& fragmentOffsetMask) * 4096,
      handle.set 6 (handle[6] &&& ~~~(fragmentFlag ||| fragmentOffsetMask)))
  else (false, 0, handle)

/-- `hsaKmtRegisterSharedHandle`: the address the object is imported at, and
its size, `SizeInPages << PAGE_SHIFT`. -/
def registerSharedHandle (env : Env) (handle : Handle) : Option (Nat × Nat) :=
  let sizeInBytes := handle[6].toNat <<< pageShift
  (env.importHandle handle sizeInBytes).map fun addr => (addr, sizeInBytes)

/-- What a successful `IPCAttach` leaves: the pointer it returns, the length
of the `allocation_map_` entry `fixFragment` records at it, and the object
imported. -/
structure Attached where
  mappedPtr : Nat
  length : Nat
  importAddress : Nat
  importSize : Nat
deriving DecidableEq, Repr

/-- `Runtime::IPCAttach(handle, len, ...)` on the thunk path.  `fixFragment`
computes `importSize - fragOffset` in `size_t`. -/
def ipcAttach (env : Env) (handle : Handle) (len : Nat) : Except Status Attached :=
  let (isFragment, fragOffset, importHandle) := extractFragment handle
  match registerSharedHandle env importHandle with
  | none => .error .invalidArgument
  | some (importAddress, importSize) =>
    if !env.mapOk then .error .outOfResources
    else if isFragment then
      .ok ⟨importAddress + fragOffset.toNat,
        min len ((importSize + 2 ^ 64 - fragOffset.toNat) % 2 ^ 64), importAddress, importSize⟩
    else .ok ⟨importAddress, len, importAddress, importSize⟩

/-! ## Word 6 -/

section Word6

variable {n f : Nat}

/-- Bit 31, a size in pages that is a multiple of `512` and an offset below
`512` pages lie in disjoint bits. -/
theorem or_fragment_bits (hn : 512 ∣ n) (hf : f < 512) :
    n ||| (2 ^ 31 ||| f) = (n + f) ||| 2 ^ 31 := by
  rw [Nat.or_comm (2 ^ 31) f, ← Nat.or_assoc, Word.or_eq_add_of_dvd (k := 9) hn hf]

theorem fragment_bits_flag : ((n + f) ||| 2 ^ 31) &&& 2 ^ 31 ≠ 0 := by
  intro h0
  have hbit := congrArg (Nat.testBit · 31) h0
  simp only [Nat.testBit_and, Nat.testBit_or, Nat.testBit_two_pow_self, Bool.or_true,
    Bool.and_self, Nat.zero_testBit] at hbit
  exact Bool.noConfusion hbit

theorem fragment_bits_offset (hn : 512 ∣ n) (hf : f < 512) :
    ((n + f) ||| 2 ^ 31) &&& (2 ^ 9 - 1) = f := by
  rw [Nat.and_two_pow_sub_one_eq_mod, Nat.or_mod_two_pow]
  have hhigh : 2 ^ 31 % 2 ^ 9 = 0 := by decide
  rw [hhigh, Nat.or_zero]
  omega

theorem fragment_bits_size (hn : 512 ∣ n) (hf : f < 512) :
    ((n + f) ||| 2 ^ 31) &&& (2 ^ 31 - 2 ^ 9) = n % 2 ^ 31 := by
  rw [Word.land_two_pow_sub_two_pow_mod _ (by decide), Nat.or_mod_two_pow, Nat.mod_self,
    Nat.or_zero]
  omega

end Word6

/-- **Word 6, taken apart.**  `IPCAttach` reads back the flag and the offset
`IPCCreate` put into word 6 over a size in pages that is a multiple of `512`,
and clears bit 31 of the size along with them. -/
theorem extractFragment_markFragment_size (handle : Handle) (fragOffset : UInt32)
    (hsize : 512 ∣ handle[6].toNat) (hoff : fragOffset.toNat < 512) :
    extractFragment (markFragment handle fragOffset) =
      (true, fragOffset * 4096, handle.set 6 (handle[6].toNat % 2 ^ 31).toUInt32) := by
  have hword : (markFragment handle fragOffset)[6].toNat =
      (handle[6].toNat + fragOffset.toNat) ||| 2 ^ 31 := by
    rw [markFragment, Vector.getElem_set_self, UInt32.toNat_or, UInt32.toNat_or,
      show fragmentFlag.toNat = 2 ^ 31 from rfl]
    exact or_fragment_bits hsize hoff
  have hflag : (markFragment handle fragOffset)[6] &&& fragmentFlag ≠ 0 := by
    intro h0
    have hnat := congrArg UInt32.toNat h0
    simp only [UInt32.toNat_and, hword] at hnat
    exact fragment_bits_flag hnat
  have hoffset : (markFragment handle fragOffset)[6] &&& fragmentOffsetMask = fragOffset := by
    rw [← UInt32.toNat_inj, UInt32.toNat_and, hword]
    exact fragment_bits_offset hsize hoff
  have hcleared : (markFragment handle fragOffset)[6] &&& ~~~(fragmentFlag ||| fragmentOffsetMask) =
      (handle[6].toNat % 2 ^ 31).toUInt32 := by
    have hmask : (~~~(fragmentFlag ||| fragmentOffsetMask)).toNat = 2 ^ 31 - 2 ^ 9 := by decide
    rw [← UInt32.toNat_inj, UInt32.toNat_and, hword, hmask, fragment_bits_size hsize hoff,
      UInt32.toNat_ofNat_of_lt' (Nat.lt_of_lt_of_le (Nat.mod_lt _ (by decide)) (by decide))]
  rw [extractFragment, if_pos hflag, hoffset, hcleared, markFragment, Vector.set_set]

/-- With a size below `2 ^ 31` pages the handle comes back whole. -/
theorem extractFragment_markFragment (handle : Handle) (fragOffset : UInt32)
    (hsize : 512 ∣ handle[6].toNat) (hbelow : handle[6].toNat < 2 ^ 31)
    (hoff : fragOffset.toNat < 512) :
    extractFragment (markFragment handle fragOffset) = (true, fragOffset * 4096, handle) := by
  have hmod : (handle[6].toNat % 2 ^ 31).toUInt32 = handle[6] := by
    rw [Nat.mod_eq_of_lt hbelow]
    exact UInt32.ofNat_toNat
  rw [extractFragment_markFragment_size handle fragOffset hsize hoff, hmod, Vector.set_getElem_self]

/-- A handle without bit 31 is not a fragment's. -/
theorem extractFragment_of_lt (handle : Handle) (hbelow : handle[6].toNat < 2 ^ 31) :
    extractFragment handle = (false, 0, handle) := by
  have hbit : handle[6].toNat.testBit 31 = false := Nat.testBit_lt_two_pow hbelow
  have hclear : handle[6] &&& fragmentFlag = 0 := by
    rw [← UInt32.toNat_inj, UInt32.toNat_and, show fragmentFlag.toNat = 2 ^ 31 from rfl]
    apply Nat.eq_of_testBit_eq
    intro i
    simp only [Nat.testBit_and, Nat.testBit_two_pow, UInt32.toNat_zero, Nat.zero_testBit]
    by_cases hi : 31 = i
    · subst hi
      simp [hbit]
    · simp [hi]
  simp [extractFragment, hclear]

/-! ## What `IPCCreate` hands `IPCAttach` -/

/-- The share record's word 6 is the size in pages. -/
theorem shareMemory_sizeInPages {env : Env} {base size : Nat} {sh : Handle}
    (h : shareMemory env base size = some sh) : sh[6].toNat = size / pageSize := by
  unfold shareMemory at h
  split_ifs at h with hbig
  obtain ⟨rec, -, rfl⟩ := Option.map_eq_some_iff.mp h
  have hpages : size >>> pageShift < 2 ^ 32 := by
    rw [Nat.shiftRight_eq_div_pow, pageShift]
    simp only [pageShift] at hbig
    omega
  rw [Vector.getElem_set_self, Word.toNat_toUInt32 hpages, Nat.shiftRight_eq_div_pow]
  rfl

/-- On the dmabuf path word 6 holds the fragment bits alone, and they come
apart into the flag and the offset, leaving zero. -/
theorem extractFragment_dmabufHandle {env : Env} {ptr : Nat} {info : PointerInfo}
    {useFrag : Bool} {fragOffset : UInt32} {handle : Handle}
    (h : dmabufHandle env ptr info useFrag fragOffset = .ok handle)
    (hoff : fragOffset.toNat < 512) :
    ∃ cleared : Handle, cleared[6] = 0 ∧
      extractFragment handle = (useFrag, if useFrag then fragOffset * 4096 else 0, cleared) := by
  -- the flags decide which of the returns is taken
  cases useFrag <;> cases hcpu : info.ownerIsCpu <;> cases hexport : env.exportDmaBufOk <;>
    cases hserver : env.socketServerOk <;> simp [dmabufHandle, hcpu, hexport, hserver] at h <;>
    subst h
  · exact ⟨_, by simp, extractFragment_of_lt _ (by simp)⟩
  · exact ⟨_, by simp, extractFragment_of_lt _ (by simp)⟩
  · exact ⟨_, by simp, extractFragment_markFragment_size _ fragOffset (by simp) hoff⟩

section Create

variable {σ : Type} (a : Allocator σ)

/-- A successful `IPCCreate` on the thunk path passed its checks, and its
handle is the share record of the block, marked when the allocation is a
fragment of it. -/
theorem ipcCreate_thunk {env : Env} {heap heap' : Heap σ} {ptr len : Nat} {info : PointerInfo}
    {handle : Handle} (hthunk : env.dmabufSupported = false)
    (h : ipcCreate a env heap ptr len info = .ok (handle, heap')) :
    len ≤ maxShareLength ∧ info.agentBaseAddress = ptr ∧
      ∃ sh, shareMemory env info.blockBase info.blockLength = some sh ∧
        handle = if info.blockBase ≠ ptr ∨ info.blockLength ≠ len then
          markFragment sh ((ptr - info.blockBase) / pageSize).toUInt32 else sh := by
  simp only [ipcCreate, hthunk, Bool.not_false, if_true] at h
  split_ifs at h with hlen hinfo hfrag huse
  · -- a fragment: its block is discarded before the marked handle is returned
    rcases hshare : shareMemory env info.blockBase info.blockLength with _ | sh
    · simp [hshare] at h
    rcases hdiscard : discardBlock a heap ptr with ⟨heap'', _ | _⟩ <;>
      simp [hshare, hdiscard] at h
    simp only [decide_eq_true_eq] at huse
    exact ⟨by omega, by tauto, sh, rfl, by simp [huse, h.1]⟩
  · rcases hshare : shareMemory env info.blockBase info.blockLength with _ | sh <;>
      simp [hshare] at h
    simp only [decide_eq_true_eq] at huse
    exact ⟨by omega, by tauto, sh, rfl, by simp [huse, h.1]⟩

/-- **`IPCAttach` decodes what `IPCCreate` encoded.**  For an allocation at
a whole number of pages below 512 pages into a block of a whole number of
2 MiB below 8 TiB, the handle `IPCCreate` makes on the thunk path is taken
apart into whether the allocation is a fragment of the block, its offset in
the block, and the block's share record with the `SizeInPages` the thunk
wrote. -/
theorem extractFragment_ipcCreate {env : Env} {heap heap' : Heap σ} {ptr len : Nat}
    {info : PointerInfo} {handle : Handle} (hthunk : env.dmabufSupported = false)
    (h : ipcCreate a env heap ptr len info = .ok (handle, heap'))
    (hpage : pageSize ∣ ptr - info.blockBase) (hoff : ptr - info.blockBase < 512 * pageSize)
    (hblock : fragmentBlockAlignment ∣ info.blockLength) (hsize : info.blockLength < 2 ^ 43) :
    ∃ sh, shareMemory env info.blockBase info.blockLength = some sh ∧
      extractFragment handle =
        (decide (info.blockBase ≠ ptr ∨ info.blockLength ≠ len), (ptr - info.blockBase).toUInt32,
          sh) := by
  obtain ⟨-, -, sh, hshare, rfl⟩ := ipcCreate_thunk a hthunk h
  have hpages := shareMemory_sizeInPages hshare
  have hbelow : sh[6].toNat < 2 ^ 31 := by
    rw [hpages, pageSize]
    omega
  refine ⟨sh, hshare, ?_⟩
  by_cases huse : info.blockBase ≠ ptr ∨ info.blockLength ≠ len
  · -- a fragment: offset and size share word 6
    have h512 : 512 ∣ sh[6].toNat := by
      rw [hpages]
      simp only [fragmentBlockAlignment] at hblock
      simp only [pageSize]
      omega
    simp only [pageSize] at hpage hoff
    have hpages : (((ptr - info.blockBase) / pageSize).toUInt32).toNat =
        (ptr - info.blockBase) / 4096 :=
      Word.toNat_toUInt32 (by simp only [pageSize]; omega)
    have hfrag : (((ptr - info.blockBase) / pageSize).toUInt32).toNat < 512 := by
      rw [hpages]
      omega
    rw [if_pos huse, extractFragment_markFragment sh _ h512 hbelow hfrag, decide_eq_true huse]
    congr 2
    rw [← UInt32.toNat_inj, UInt32.toNat_mul, hpages, show (4096 : UInt32).toNat = 4096 from rfl,
      Word.toNat_toUInt32 (by omega)]
    omega
  · -- the whole block: the share record as it is
    have hbase : info.blockBase = ptr := by tauto
    rw [if_neg huse, extractFragment_of_lt sh hbelow, decide_eq_false huse, hbase, Nat.sub_self]
    rfl

end Create

/-- `IPCAttach` of a handle whose fragment bits come apart into `isFragment`,
`fragOffset` and a cleaned handle that the thunk imports. -/
theorem ipcAttach_of_extractFragment {env : Env} {handle sh : Handle} {isFragment : Bool}
    {fragOffset : UInt32} {importAddress importSize len : Nat}
    (hextract : extractFragment handle = (isFragment, fragOffset, sh))
    (himport : registerSharedHandle env sh = some (importAddress, importSize))
    (hmap : env.mapOk = true) :
    ipcAttach env handle len = .ok (if isFragment then
      ⟨importAddress + fragOffset.toNat,
        min len ((importSize + 2 ^ 64 - fragOffset.toNat) % 2 ^ 64), importAddress, importSize⟩
      else ⟨importAddress, len, importAddress, importSize⟩) := by
  cases isFragment <;> simp [ipcAttach, hextract, himport, hmap]

/-- The thunk imports a block of the size in pages it was given. -/
theorem registerSharedHandle_size {env : Env} {sh : Handle} {base size importAddress : Nat}
    (hshare : shareMemory env base size = some sh) (hpage : pageSize ∣ size)
    (himport : env.importHandle sh size = some importAddress) :
    registerSharedHandle env sh = some (importAddress, size) := by
  have hbytes : sh[6].toNat <<< pageShift = size := by
    rw [shareMemory_sizeInPages hshare, Nat.shiftLeft_eq]
    simp only [pageSize, pageShift] at hpage ⊢
    omega
  simp [registerSharedHandle, hbytes, himport]

/-- The thunk path with every thunk call succeeding: zero share words, and
imports at `0x200000000`. -/
def thunkPathEnv : Env :=
  ⟨false, fun _ => some (Vector.replicate 8 0), fun _ _ => some 0x200000000, true, true, true, 0⟩

/-- The dmabuf path with every call succeeding. -/
def dmabufPathEnv : Env := { thunkPathEnv with dmabufSupported := true }

/-- A fragment one page into its block, shared on the dmabuf path: word 6
comes apart into the flag and the offset of one page. -/
theorem extractFragment_dmabufHandle_one_page :
    ∃ handle, dmabufHandle dmabufPathEnv 0x100001000
        ⟨0x100001000, 4096, 0x100000000, 0x200000, false, 0⟩ true 1 = .ok handle ∧
      ∃ cleared : Handle, cleared[6] = 0 ∧ extractFragment handle = (true, 1 * 4096, cleared) := by
  obtain ⟨handle, h⟩ : ∃ handle, dmabufHandle dmabufPathEnv 0x100001000
      ⟨0x100001000, 4096, 0x100000000, 0x200000, false, 0⟩ true 1 = .ok handle := ⟨_, rfl⟩
  exact ⟨handle, h, extractFragment_dmabufHandle h (by decide)⟩

section Create

variable {σ : Type} (a : Allocator σ)

/-- **The fragment is found in the imported block.**  Under the conditions
of `extractFragment_ipcCreate`, an `IPCAttach` whose import and mapping
succeed returns the imported block's address plus the fragment's offset in
its block.  For a fragment it records the shorter of `len` and the rest of
the block; for a whole block, `len` as it is given. -/
theorem ipcAttach_ipcCreate {env : Env} {heap heap' : Heap σ} {ptr len len' : Nat}
    {info : PointerInfo} {handle : Handle} (hthunk : env.dmabufSupported = false)
    (h : ipcCreate a env heap ptr len info = .ok (handle, heap'))
    (hpage : pageSize ∣ ptr - info.blockBase) (hoff : ptr - info.blockBase < 512 * pageSize)
    (hinside : ptr - info.blockBase ≤ info.blockLength)
    (hblock : fragmentBlockAlignment ∣ info.blockLength) (hsize : info.blockLength < 2 ^ 43)
    {importAddress : Nat} (himport : ∀ sh, env.importHandle sh info.blockLength = some importAddress)
    (hmap : env.mapOk = true) :
    ipcAttach env handle len' = .ok (if info.blockBase ≠ ptr ∨ info.blockLength ≠ len then
      ⟨importAddress + (ptr - info.blockBase), min len' (info.blockLength - (ptr - info.blockBase)),
        importAddress, info.blockLength⟩
      else ⟨importAddress, len', importAddress, info.blockLength⟩) := by
  obtain ⟨sh, hshare, hextract⟩ := extractFragment_ipcCreate a hthunk h hpage hoff hblock hsize
  have hreg := registerSharedHandle_size hshare
    (Nat.dvd_trans (by decide) hblock) (himport sh)
  have hoffNat : ((ptr - info.blockBase).toUInt32).toNat = ptr - info.blockBase :=
    Word.toNat_toUInt32 (by simp only [pageSize] at hoff; omega)
  rw [ipcAttach_of_extractFragment hextract hreg hmap, hoffNat]
  by_cases huse : info.blockBase ≠ ptr ∨ info.blockLength ≠ len
  · -- `importSize - fragOffset` does not wrap: the fragment lies in the block
    have hwrap : (info.blockLength + 2 ^ 64 - (ptr - info.blockBase)) % 2 ^ 64 =
        info.blockLength - (ptr - info.blockBase) := by
      omega
    rw [decide_eq_true huse, if_pos rfl, if_pos huse, hwrap]
  · rw [decide_eq_false huse, if_neg Bool.false_ne_true, if_neg huse]

/-- The second of two pages allocated from an empty heap is a fragment one
page into its 2 MiB block; attached with its own length, it is found one page
into the imported block. -/
theorem ipcAttach_ipcCreate_second_page :
    ∃ handle heap', ipcCreate bumpAllocator thunkPathEnv
        (alloc bumpAllocator (alloc bumpAllocator (init 0x100000000) 4096).1 4096).1
        0x100001000 4096 ⟨0x100001000, 4096, 0x100000000, 0x200000, false, 0⟩ =
          .ok (handle, heap') ∧
      ipcAttach thunkPathEnv handle 4096 = .ok ⟨0x200001000, 4096, 0x200000000, 0x200000⟩ := by
  obtain ⟨handle, heap', h⟩ : ∃ handle heap', ipcCreate bumpAllocator thunkPathEnv
      (alloc bumpAllocator (alloc bumpAllocator (init 0x100000000) 4096).1 4096).1
      0x100001000 4096 ⟨0x100001000, 4096, 0x100000000, 0x200000, false, 0⟩ =
        .ok (handle, heap') := ⟨_, _, rfl⟩
  refine ⟨handle, heap', h, ?_⟩
  rw [ipcAttach_ipcCreate bumpAllocator rfl h (by decide) (by decide) (by decide) (by decide)
    (by decide) (fun _ => rfl) rfl]
  decide

end Create

/-- A 4 MiB allocation is a whole block of its own; attached with a length
of 8 MiB, its `allocation_map_` entry is 8 MiB long.  A request of
`2 ^ 43 - 4096` bytes on a region of 8 TiB passes `IPCCreate`'s guard but
gets a block of `2 ^ 43` bytes: word 6 is bit 31 alone, and `IPCAttach`
reads it as a fragment at offset 0 of a block of no pages. -/
theorem ipcAttach_misreads_handle :
    (∃ heap, allocateMemory bumpAllocator 4096 (2 ^ 34) (init 0x100000000) 0x400000 =
        some (heap, 0x100000000) ∧ heap.blockAllocator = 0x100000000 + 0x400000 ∧
      ∃ handle heap', ipcCreate bumpAllocator thunkPathEnv heap 0x100000000 0x400000
          ⟨0x100000000, 0x400000, 0x100000000, 0x400000, false, 0⟩ = .ok (handle, heap') ∧
        ipcAttach thunkPathEnv handle 0x800000 =
          .ok ⟨0x200000000, 0x800000, 0x200000000, 0x400000⟩) ∧
    (∃ heap, allocateMemory bumpAllocator 4096 (2 ^ 43) (init 0x100000000) (2 ^ 43 - 4096) =
        some (heap, 0x100000000) ∧ heap.blockAllocator = 0x100000000 + 2 ^ 43 ∧
      ∃ handle heap', ipcCreate bumpAllocator thunkPathEnv heap 0x100000000 (2 ^ 43 - 4096)
          ⟨0x100000000, 2 ^ 43 - 4096, 0x100000000, 2 ^ 43, false, 0⟩ = .ok (handle, heap') ∧
        handle[6] = 0x80000000 ∧ extractFragment handle = (true, 0, handle.set 6 0)) :=
  ⟨⟨_, rfl, by decide +kernel, _, _, rfl, by decide +kernel⟩,
    ⟨_, rfl, by decide +kernel, _, _, rfl, by decide +kernel, by decide +kernel⟩⟩

end Ipc
