import Rocr.Lib.OrdMap
import Rocr.Lib.MultiMap

/-!
# `SimpleHeap`: best-fit sub-allocation of blocks

`SimpleHeap<Allocator>` (`core/util/simple_heap.h`) hands out fragments of
blocks obtained from a block allocator.  Its state is three containers and
two counters:

* `free_list_`, a multimap from fragment size to fragment base, searched with
  `lower_bound` for the best fit;
* `block_list_`, a map from block base to that block's fragment map, each
  fragment carrying an iterator to its free-list node, a size, a `discard`
  flag and a `free` flag;
* `block_cache_`, a deque of whole blocks kept for reuse;
* `in_use_size_` and `cache_size_`.

Every member function is modelled as a function of the whole state.  The
block allocator (`MemoryRegion::BlockAllocator`) rounds a request up to its
block size itself; where the memory comes from (`AllocateImpl`) is a
parameter, `Allocator.allocate`, over an abstract allocator state.

The last part of the file follows the `discard` flag.  `free` of a fragment
of a discarded block returns before the fragment is marked free, so its
neighbours never see it as free: once every fragment of a discarded block
with at least two fragments is in use, no `free` and no `discardBlock`
changes that block again (`stuck_free`, `stuck_discardBlock`,
`stuck_run`), even after all of its allocations have been freed.
-/

namespace SimpleHeap

/-- `Fragment_T`: a fragment of a block, with the iterator to its free-list
node (`none` is `free_list_.end()`). -/
structure Fragment where
  freeListEntry : Option Nat
  size : Nat
  discard : Bool
  free : Bool
deriving DecidableEq, Repr

/-- `Block`: a whole block, as the block cache holds it. -/
structure Block where
  basePtr : Nat
  length : Nat
deriving DecidableEq, Repr

/-- `AlignDown` of `core/util/utils.h`. -/
def alignDown (value alignment : Nat) : Nat := (value / alignment) * alignment

/-- `AlignUp` of `core/util/utils.h`. -/
def alignUp (value alignment : Nat) : Nat := alignDown (value + alignment - 1) alignment

/-- The block allocator: its `block_size()`, and the memory calls behind its
`alloc` and `free` over an allocator state `σ`.  `allocate s n` is the base of
a fresh block of `n` bytes. -/
structure Allocator (σ : Type) where
  blockSize : Nat
  allocate : σ → Nat → Nat × σ
  release : σ → Nat → Nat → σ

/-- `BlockAllocator::alloc(request_size, allocated_size)`: the request is
rounded up to the block size; the result is the base, the rounded size and the
new allocator state. -/
def Allocator.alloc {σ : Type} (a : Allocator σ) (s : σ) (requestSize : Nat) :
    Nat × Nat × σ :=
  let bsize := alignUp requestSize a.blockSize
  let (base, s') := a.allocate s bsize
  (base, bsize, s')

/-- The members of `SimpleHeap` over an allocator state `σ`. -/
structure Heap (σ : Type) where
  blockAllocator : σ
  freeList : MultiMap Nat Nat
  blockList : OrdMap Nat (OrdMap Nat Fragment)
  blockCache : List Block
  inUseSize : Nat
  cacheSize : Nat

variable {σ : Type} (a : Allocator σ)

/-- The constructor: empty containers and zero counters. -/
def init (s : σ) : Heap σ :=
  ⟨s, MultiMap.empty, OrdMap.empty, [], 0, 0⟩

/-- `makeFragment(Len)`: a fragment in use. -/
def makeFragment (len : Nat) : Fragment := ⟨none, len, false, false⟩

/-- `makeFragment(Iterator, Len)`: a free fragment with its free-list node. -/
def makeFreeFragment (entry : Nat) (len : Nat) : Fragment := ⟨some entry, len, false, true⟩

/-- `setUsed`. -/
def setUsed (f : Fragment) : Fragment := { f with free := false, freeListEntry := none }

/-- `setFree`. -/
def setFree (f : Fragment) (entry : Nat) : Fragment := { f with freeListEntry := some entry, free := true }

/-- `removeFreeListEntry`: erase the fragment's free-list node, if it has one. -/
def removeFreeListEntry (fl : MultiMap Nat Nat) (f : Fragment) : MultiMap Nat Nat × Fragment :=
  match f.freeListEntry with
  | some i => (fl.erase i, { f with freeListEntry := none })
  | none => (fl, f)

/-- `discard(node)`. -/
def discardFragment (fl : MultiMap Nat Nat) (f : Fragment) : MultiMap Nat Nat × Fragment :=
  let (fl, f) := removeFreeListEntry fl f
  (fl, { f with discard := true })

/-- The loop of `balance()`: release blocks from the front of the cache while
it holds more than one block and more than twice the in-use size. -/
def balanceLoop (s : σ) (inUse : Nat) : List Block → Nat → σ × List Block × Nat
  | b :: c :: rest, cacheSize =>
      if cacheSize > inUse * 2 then
        balanceLoop (a.release s b.basePtr b.length) inUse (c :: rest) (cacheSize - b.length)
      else (s, b :: c :: rest, cacheSize)
  | cache, cacheSize => (s, cache, cacheSize)

/-- `balance()`. -/
def balance (h : Heap σ) : Heap σ :=
  let (s, cache, cacheSize) := balanceLoop a h.blockAllocator h.inUseSize h.blockCache h.cacheSize
  { h with blockAllocator := s, blockCache := cache, cacheSize := cacheSize }

/-- `trim()`: release every cached block. -/
def trim (h : Heap σ) : Heap σ :=
  { h with
    blockAllocator := h.blockCache.foldl (fun s b => a.release s b.basePtr b.length) h.blockAllocator
    blockCache := []
    cacheSize := 0 }

/-- `default_block_size()`. -/
def defaultBlockSize : Nat := a.blockSize

/-- The loop of `discardBlock`: mark every fragment for discard, removing its
free-list node, and add up the sizes. -/
def discardFragments (fl : MultiMap Nat Nat) :
    List (Nat × Fragment) → MultiMap Nat Nat × List (Nat × Fragment) × Nat
  | [] => (fl, [], 0)
  | (k, f) :: rest =>
      let (fl, f) := discardFragment fl f
      let (fl, rest, size) := discardFragments fl rest
      (fl, (k, f) :: rest, f.size + size)

theorem discardFragments_keys (fl : MultiMap Nat Nat) (es : List (Nat × Fragment)) :
    (discardFragments fl es).2.1.map Prod.fst = es.map Prod.fst := by
  induction es generalizing fl with
  | nil => rfl
  | cons e es ih =>
      obtain ⟨k, f⟩ := e
      simp [discardFragments, ih]

/-- `discardBlock(ptr)`: the new heap and the returned flag. -/
def discardBlock (h : Heap σ) (ptr : Nat) : Heap σ × Bool :=
  if ptr = 0 then (h, true) else
  match h.blockList.floor ptr with
  | none => (h, false)
  | some blk =>
      let fragMap := (h.blockList.find? blk).getD OrdMap.empty
      match fragMap.first?, fragMap.last? with
      | some lo, some hi =>
          let first := (fragMap.find? lo).getD (makeFragment 0)
          let last := (fragMap.find? hi).getD (makeFragment 0)
          if ptr < lo ∨ hi + last.size ≤ ptr then (h, false)
          else if first.discard then (h, true)
          else
            let r := discardFragments h.freeList fragMap.entries
            let fragMap' : OrdMap Nat Fragment := ⟨r.2.1, by
              rw [discardFragments_keys]
              exact fragMap.ordered⟩
            let h := { h with freeList := r.1, blockList := h.blockList.assign blk fragMap',
                              inUseSize := h.inUseSize - r.2.2 }
            (balance a h, true)
      | _, _ => (h, false)

/-- `alloc(bytes)` when the free list has a fitting fragment: the node `id`
holds its size and base. -/
def allocFromFreeList (h : Heap σ) (bytes id : Nat) : Heap σ × Nat :=
  let (size, base) := (h.freeList.get? id).getD (0, 0)
  let fl := h.freeList.erase id
  -- the containing block and fragment
  let blk := (h.blockList.floor base).getD 0
  let fragMap := (h.blockList.find? blk).getD OrdMap.empty
  let fragMap := fragMap.modify base (fun f => setUsed { f with size := bytes })
  let (fl, fragMap) :=
    if size > bytes then
      let (fl, entry) := fl.insert (size - bytes) (base + bytes)
      (fl, fragMap.assign (base + bytes) (makeFreeFragment entry (size - bytes)))
    else (fl, fragMap)
  ({ h with freeList := fl, blockList := h.blockList.assign blk fragMap }, base)

/-- `alloc(bytes)`: the new heap and the returned base. -/
def alloc (h : Heap σ) (bytes : Nat) : Heap σ × Nat :=
  match h.freeList.lowerBound bytes with
  | some id => allocFromFreeList h bytes id
  | none =>
      -- no usable fragment: a cached block, or a new one
      let (h, base, size) :=
        match h.blockCache.getLast? with
        | some block =>
            if bytes < defaultBlockSize a then
              ({ h with blockCache := h.blockCache.dropLast,
                        cacheSize := h.cacheSize - block.length }, block.basePtr, block.length)
            else
              let (base, size, s) := a.alloc h.blockAllocator bytes
              ({ h with blockAllocator := s }, base, size)
        | none =>
            let (base, size, s) := a.alloc h.blockAllocator bytes
            ({ h with blockAllocator := s }, base, size)
      let h := { h with inUseSize := h.inUseSize + size }
      let fragMap := (h.blockList.find? base).getD OrdMap.empty
      let (fl, fragMap) :=
        if size > bytes then
          let (fl, entry) := h.freeList.insert (size - bytes) (base + bytes)
          (fl, fragMap.assign (base + bytes) (makeFreeFragment entry (size - bytes)))
        else (h.freeList, fragMap)
      let fragMap := fragMap.assign base (makeFragment bytes)
      let h := { h with freeList := fl, blockList := h.blockList.assign base fragMap }
      -- a large block is never shared
      if bytes > defaultBlockSize a then ((discardBlock a h base).1, base) else (h, base)

/-- "Merge lower" of `free`: a free fragment just below `ptr` absorbs the
fragment at `ptr`.  The result is the free list, the fragment map and the key
of the fragment that now holds the freed range. -/
def mergeLower (fl : MultiMap Nat Nat) (fragMap : OrdMap Nat Fragment) (ptr : Nat)
    (fragment : Fragment) : MultiMap Nat Nat × OrdMap Nat Fragment × Nat :=
  match fragMap.below ptr with
  | some lowKey =>
      let lower := (fragMap.find? lowKey).getD (makeFragment 0)
      if lower.free then
        let (fl, lower) := removeFreeListEntry fl lower
        let lower := { lower with size := lower.size + fragment.size }
        (fl, (fragMap.assign lowKey lower).erase ptr, lowKey)
      else (fl, fragMap, ptr)
  | none => (fl, fragMap, ptr)

/-- "Merge upper" of `free`: the fragment at `key` absorbs a free fragment
just above it. -/
def mergeUpper (fl : MultiMap Nat Nat) (fragMap : OrdMap Nat Fragment) (key : Nat) :
    MultiMap Nat Nat × OrdMap Nat Fragment :=
  match fragMap.upperBound key with
  | some upKey =>
      let upper := (fragMap.find? upKey).getD (makeFragment 0)
      if upper.free then
        let (fl, upper) := removeFreeListEntry fl upper
        (fl, (fragMap.modify key (fun f => { f with size := f.size + upper.size })).erase upKey)
      else (fl, fragMap)
  | none => (fl, fragMap)

/-- `free(ptr)`: the new heap and the returned flag. -/
def free (h : Heap σ) (ptr : Nat) : Heap σ × Bool :=
  if ptr = 0 then (h, true) else
  match h.blockList.floor ptr with
  | none => (h, false)
  | some blk =>
      let fragMap := (h.blockList.find? blk).getD OrdMap.empty
      match fragMap.find? ptr with
      | none => (h, false)
      | some fragment =>
          if fragment.free then (h, false) else
          let discard := fragment.discard
          let (fl, fragMap, key) := mergeLower h.freeList fragMap ptr fragment
          let (fl, fragMap) := mergeUpper fl fragMap key
          let merged := (fragMap.find? key).getD (makeFragment 0)
          -- release whole free blocks
          if fragMap.size = 1 then
            let block : Block := ⟨key, merged.size⟩
            let h := { h with freeList := fl, blockList := h.blockList.erase blk }
            let h :=
              if discard then
                { h with blockAllocator := a.release h.blockAllocator block.basePtr block.length }
              else
                { h with blockCache := h.blockCache ++ [block],
                         cacheSize := h.cacheSize + block.length,
                         inUseSize := h.inUseSize - block.length }
            (balance a h, true)
          else if discard then
            -- the fragment is neither published nor marked free
            ({ h with freeList := fl, blockList := h.blockList.assign blk fragMap }, true)
          else
            let (fl, entry) := fl.insert merged.size key
            ({ h with freeList := fl,
                      blockList := h.blockList.assign blk (fragMap.modify key (setFree · entry)) },
              true)

/-! ## Discarded blocks -/

@[simp] theorem balance_blockList (h : Heap σ) : (balance a h).blockList = h.blockList := rfl

/-- A discarded block that no `free` can release: it has at least two
fragments, every one of them discarded and none of them free. -/
def Stuck (h : Heap σ) (blk : Nat) : Prop :=
  ∃ fragMap, h.blockList.find? blk = some fragMap ∧ 2 ≤ fragMap.size ∧
    ∀ k f, fragMap.find? k = some f → f.discard = true ∧ f.free = false

/-- With no free fragment below `ptr`, "merge lower" does nothing. -/
theorem mergeLower_of_none_free (fl : MultiMap Nat Nat) (fragMap : OrdMap Nat Fragment)
    (ptr : Nat) (fragment : Fragment) (hnf : ∀ k f, fragMap.find? k = some f → f.free = false) :
    mergeLower fl fragMap ptr fragment = (fl, fragMap, ptr) := by
  unfold mergeLower
  cases hb : fragMap.below ptr with
  | none => rfl
  | some lowKey =>
      obtain ⟨f, hf⟩ := OrdMap.find?_of_mem_keys ((fragMap.below_eq_some_iff ptr lowKey).mp hb).1
      simp [hf, hnf lowKey f hf]

/-- With no free fragment above `key`, "merge upper" does nothing. -/
theorem mergeUpper_of_none_free (fl : MultiMap Nat Nat) (fragMap : OrdMap Nat Fragment)
    (key : Nat) (hnf : ∀ k f, fragMap.find? k = some f → f.free = false) :
    mergeUpper fl fragMap key = (fl, fragMap) := by
  unfold mergeUpper
  cases hb : fragMap.upperBound key with
  | none => rfl
  | some upKey =>
      obtain ⟨f, hf⟩ :=
        OrdMap.find?_of_mem_keys ((fragMap.upperBound_eq_some_iff key upKey).mp hb).1
      simp [hf, hnf upKey f hf]

/-- **`free` inside a stuck block is a no-op.**  Neither neighbour of the
fragment is free, so nothing merges; the block keeps at least two fragments,
so it is not released; and the `discard` path returns before the fragment is
marked free. -/
theorem free_of_stuck (h : Heap σ) {blk ptr : Nat} (hs : Stuck h blk)
    (hfl : h.blockList.floor ptr = some blk) : (free a h ptr).1 = h := by
  obtain ⟨fragMap, hfm, hsize, hfrag⟩ := hs
  have hnf : ∀ k f, fragMap.find? k = some f → f.free = false :=
    fun k f hf => (hfrag k f hf).2
  unfold free
  by_cases hp : ptr = 0
  · simp [hp]
  simp only [hp, if_false, hfl, hfm, Option.getD_some]
  cases hf : fragMap.find? ptr with
  | none => rfl
  | some fragment =>
      obtain ⟨hd, hfree⟩ := hfrag ptr fragment hf
      have hne : fragMap.size ≠ 1 := by omega
      simp only [hfree, Bool.false_eq_true, if_false, mergeLower_of_none_free _ _ _ _ hnf,
        mergeUpper_of_none_free _ _ _ hnf, hne, hd, if_true, OrdMap.assign_of_find? hfm]

/-- `free` of a pointer outside a block leaves that block's fragment map alone. -/
theorem free_find?_of_floor_ne (h : Heap σ) {blk ptr : Nat}
    (hfl : h.blockList.floor ptr ≠ some blk) :
    (free a h ptr).1.blockList.find? blk = h.blockList.find? blk := by
  unfold free
  by_cases hp : ptr = 0
  · simp [hp]
  simp only [hp, if_false]
  cases hb : h.blockList.floor ptr with
  | none => rfl
  | some other =>
      have hne : blk ≠ other := fun heq => hfl (heq ▸ hb)
      simp only
      split
      · rfl
      · split
        · rfl
        · split
          · split <;> simp [hne]
          · split
            · simp [hne]
            · simp [hne]

/-- **A stuck block stays stuck under `free`.** -/
theorem stuck_free (h : Heap σ) {blk : Nat} (ptr : Nat) (hs : Stuck h blk) :
    Stuck (free a h ptr).1 blk := by
  by_cases hfl : h.blockList.floor ptr = some blk
  · rw [free_of_stuck a h hs hfl]
    exact hs
  · obtain ⟨fragMap, hfm, hrest⟩ := hs
    exact ⟨fragMap, by rw [free_find?_of_floor_ne a h hfl, hfm], hrest⟩

/-- `discardBlock` inside a stuck block returns at once: its first fragment
is already discarded. -/
theorem discardBlock_of_stuck (h : Heap σ) {blk ptr : Nat} (hs : Stuck h blk)
    (hfl : h.blockList.floor ptr = some blk) : (discardBlock a h ptr).1 = h := by
  obtain ⟨fragMap, hfm, hsize, hfrag⟩ := hs
  unfold discardBlock
  by_cases hp : ptr = 0
  · simp [hp]
  simp only [hp, if_false, hfl, hfm, Option.getD_some]
  split
  · rename_i lo hi hlo _
    obtain ⟨f, hf⟩ := OrdMap.find?_of_mem_keys ((fragMap.first?_eq_some_iff lo).mp hlo).1
    simp only [hf, Option.getD_some, (hfrag lo f hf).1]
    split <;> rfl
  · rfl

/-- `discardBlock` of a pointer outside a block leaves that block's fragment
map alone. -/
theorem discardBlock_find?_of_floor_ne (h : Heap σ) {blk ptr : Nat}
    (hfl : h.blockList.floor ptr ≠ some blk) :
    (discardBlock a h ptr).1.blockList.find? blk = h.blockList.find? blk := by
  unfold discardBlock
  by_cases hp : ptr = 0
  · simp [hp]
  simp only [hp, if_false]
  cases hb : h.blockList.floor ptr with
  | none => rfl
  | some other =>
      have hne : blk ≠ other := fun heq => hfl (heq ▸ hb)
      simp only
      split
      · split
        · rfl
        · split
          · rfl
          · simp [hne]
      · rfl

/-- **A stuck block stays stuck under `discardBlock`.** -/
theorem stuck_discardBlock (h : Heap σ) {blk : Nat} (ptr : Nat) (hs : Stuck h blk) :
    Stuck (discardBlock a h ptr).1 blk := by
  by_cases hfl : h.blockList.floor ptr = some blk
  · rw [discardBlock_of_stuck a h hs hfl]
    exact hs
  · obtain ⟨fragMap, hfm, hrest⟩ := hs
    exact ⟨fragMap, by rw [discardBlock_find?_of_floor_ne a h hfl, hfm], hrest⟩

/-- The operations of a `SimpleHeap` client. -/
inductive Op where
  | alloc (bytes : Nat)
  | free (ptr : Nat)
  | discardBlock (ptr : Nat)
deriving DecidableEq, Repr

/-- Whether an operation is an allocation. -/
def Op.isAlloc : Op → Bool
  | .alloc _ => true
  | _ => false

/-- One operation on the heap. -/
def step (h : Heap σ) : Op → Heap σ
  | .alloc bytes => (alloc a h bytes).1
  | .free ptr => (free a h ptr).1
  | .discardBlock ptr => (discardBlock a h ptr).1

/-- A sequence of operations. -/
def run (h : Heap σ) (ops : List Op) : Heap σ := ops.foldl (step a) h

/-- **No release ever frees a stuck block**: along any sequence of `free`
and `discardBlock` calls a stuck block stays stuck, hence stays in
`block_list_`. -/
theorem stuck_run {blk : Nat} (ops : List Op) (hops : ∀ op ∈ ops, op.isAlloc = false) :
    ∀ h : Heap σ, Stuck h blk → Stuck (run a h ops) blk := by
  induction ops with
  | nil => exact fun _ hs => hs
  | cons op ops ih =>
      intro h hs
      have hstep : Stuck (step a h op) blk := by
        cases op with
        | alloc bytes => exact absurd (hops _ List.mem_cons_self) (by simp [Op.isAlloc])
        | free ptr => exact stuck_free a h ptr hs
        | discardBlock ptr => exact stuck_discardBlock a h ptr hs
      exact ih (fun op hop => hops op (List.mem_cons_of_mem _ hop)) _ hstep

theorem mem_keys_of_stuck {h : Heap σ} {blk : Nat} (hs : Stuck h blk) :
    blk ∈ h.blockList.keys := by
  obtain ⟨fragMap, hfm, -⟩ := hs
  exact OrdMap.mem_keys_of_find? hfm

/-- A decision procedure for `Stuck`, reading the block's fragment list. -/
def stuckCheck (h : Heap σ) (blk : Nat) : Bool :=
  match h.blockList.find? blk with
  | some fragMap => decide (2 ≤ fragMap.size) && fragMap.entries.all (fun e => e.2.discard && !e.2.free)
  | none => false

theorem stuck_of_stuckCheck {h : Heap σ} {blk : Nat} (hc : stuckCheck h blk = true) :
    Stuck h blk := by
  unfold stuckCheck at hc
  cases hfm : h.blockList.find? blk with
  | none => simp [hfm] at hc
  | some fragMap =>
      simp only [hfm, Bool.and_eq_true, decide_eq_true_eq, List.all_eq_true, Bool.not_eq_true']
        at hc
      refine ⟨fragMap, hfm, hc.1, fun k f hf => ?_⟩
      have he := hc.2 _ (OrdMap.mem_entries_of_find? hf)
      simpa using he

/-- A bump allocator over 2 MiB blocks, the block size of
`MemoryRegion::BlockAllocator`. -/
def bumpAllocator : Allocator Nat :=
  ⟨2097152, fun s n => (s, s + n), fun s _ _ => s⟩

/-- **The block of an exported fragment outlives all its allocations.**  Two
fragments are allocated from one block, the block is discarded (what
`IPCFragmentExport` does), and both fragments are freed, each `free` returning
`true`.  The block is then stuck: it stays in `block_list_` along every later
sequence of `free` and `discardBlock` calls, although no fragment of it is
allocated any more. -/
theorem discarded_block_outlives_its_allocations :
    bumpAllocator.blockSize = 2097152 ∧
    let r1 := alloc bumpAllocator (init 0x100000000) 4096
    let r2 := alloc bumpAllocator r1.1 4096
    let r3 := discardBlock bumpAllocator r2.1 r1.2
    let r4 := free bumpAllocator r3.1 r1.2
    let r5 := free bumpAllocator r4.1 r2.2
    r1.2 = 0x100000000 ∧ r2.2 = 0x100001000 ∧ r3.2 = true ∧ r4.2 = true ∧ r5.2 = true ∧
      ∀ ops, (∀ op ∈ ops, op.isAlloc = false) →
        0x100000000 ∈ (run bumpAllocator r5.1 ops).blockList.keys := by
  refine ⟨rfl, ?_⟩
  intro r1 r2 r3 r4 r5
  have hstuck : Stuck r5.1 0x100000000 := stuck_of_stuckCheck (by decide)
  refine ⟨by decide, by decide, by decide, by decide, by decide, ?_⟩
  intro ops hops
  exact mem_keys_of_stuck (stuck_run bumpAllocator ops hops r5.1 hstuck)

end SimpleHeap
