import Mathlib
import Rocr.Lib.Ranges
import Rocr.Util.SimpleHeap

/-!
# The layout a `SimpleHeap` keeps

The callers of a `SimpleHeap` hold the fragments it handed out: a ledger of
pairs of a pointer `alloc` returned and the size asked for.  The block
allocator underneath is any allocator of ranges that keeps its contract
(`Ranges.Lawful`): a block it hands out is apart from every block outstanding,
and a release takes back that block alone.

`Wf` is the layout of a heap: the fragments of every block of `block_list_`
tile it (`Ranges.Tiles`), the blocks of `block_list_` and of `block_cache_`
are pairwise apart and outstanding at the block allocator, and every node of
`free_list_` designates a free fragment of its size whose iterator is that
node.  `Tracks` says that every allocation of the ledger is a fragment in use
of the size asked for.  `alloc` (`Wf.alloc`, from the free list or from a new
block), `discardBlock` (`Wf.discardBlock`), `balance` and `trim` keep both;
`free` keeps them in `SimpleHeapFree`, where the runs are.  Under them the
live allocations are pairwise apart, each in a block the block allocator still
holds and apart from every cached block (`Wf.live_apart`, `Wf.live_in_block`),
and `free` of each returns `true` (`Wf.free_live`).  `CacheCounted` says that
`cache_size_` is the bytes of the cached blocks; `alloc`, `discardBlock` and
`balance` keep it.
-/

namespace SimpleHeap

open Ranges

variable {σ : Type} (a : Allocator σ)

/-! ## Layout -/

/-- The bytes of a block: the sizes of its fragments added up. -/
def extent (fragMap : OrdMap Nat Fragment) : Nat := fragMap.sumBy (fun _ f => f.size)

/-- The range of a block of the cache. -/
def Block.range (b : Block) : Nat × Nat := (b.basePtr, b.length)

/-- A block of `block_list_` at `blk`: its fragments tile
`[blk, blk + extent)`, and it is at least a default block. -/
structure BlockWf (blk : Nat) (fragMap : OrdMap Nat Fragment) : Prop where
  tiles : Tiles Fragment.size fragMap.find? blk (blk + extent fragMap)
  large : a.blockSize ≤ extent fragMap

/-- A node `(size, base)` of `free_list_` designates a free fragment of that
size at `base` whose `free_list_entry_` is that node. -/
def Designates (bl : OrdMap Nat (OrdMap Nat Fragment)) (n : MultiMap.Node Nat Nat) : Prop :=
  ∃ blk fragMap f, bl.find? blk = some fragMap ∧ fragMap.find? n.value = some f ∧
    f.free = true ∧ f.freeListEntry = some n.id ∧ f.size = n.key

/-- The layout of a heap whose block allocator has the ranges `Out` outstanding. -/
structure Wf (Out : σ → Nat × Nat → Prop) (h : Heap σ) : Prop where
  blocks : ∀ blk fragMap, h.blockList.find? blk = some fragMap → BlockWf a blk fragMap
  apart : ∀ b₁ m₁ b₂ m₂, h.blockList.find? b₁ = some m₁ → h.blockList.find? b₂ = some m₂ →
    b₁ ≠ b₂ → Apart (b₁, extent m₁) (b₂, extent m₂)
  cached : ∀ b ∈ h.blockCache, a.blockSize ≤ b.length
  apartCache : ∀ blk fragMap, h.blockList.find? blk = some fragMap →
    ∀ b ∈ h.blockCache, Apart (blk, extent fragMap) b.range
  cachePairwise : (h.blockCache.map Block.range).Pairwise Apart
  outBlocks : ∀ blk fragMap, h.blockList.find? blk = some fragMap →
    Out h.blockAllocator (blk, extent fragMap)
  outCache : ∀ b ∈ h.blockCache, Out h.blockAllocator b.range
  freeList : ∀ n ∈ h.freeList.nodes, Designates h.blockList n

/-- A live allocation `(ptr, bytes)` is a fragment in use of `bytes` bytes at `ptr`. -/
def Holds (bl : OrdMap Nat (OrdMap Nat Fragment)) (p : Nat × Nat) : Prop :=
  ∃ blk fragMap f, bl.find? blk = some fragMap ∧ fragMap.find? p.1 = some f ∧
    f.free = false ∧ f.size = p.2

/-- The heap agrees with the allocations its callers hold. -/
structure Tracks (h : Heap σ) (live : List (Nat × Nat)) : Prop where
  holds : ∀ p ∈ live, Holds h.blockList p
  nodup : (live.map Prod.fst).Nodup

/-! ## What the layout gives -/

section Layout

variable {a} {Out : σ → Nat × Nat → Prop} {h : Heap σ}
  {blk b₁ b₂ k : Nat} {fragMap m₁ m₂ : OrdMap Nat Fragment} {f g : Fragment}

/-- A fragment lies in its block. -/
theorem BlockWf.frag_inside (hb : BlockWf a blk fragMap) (hf : fragMap.find? k = some f) :
    blk ≤ k ∧ k < blk + extent fragMap ∧ 0 < f.size := by
  have hin := hb.tiles.inside k f hf
  have hpos := hb.tiles.pos k f hf
  omega

/-- An offset is a fragment of one block only. -/
theorem Wf.block_unique (hw : Wf a Out h) (h₁ : h.blockList.find? b₁ = some m₁)
    (hf : m₁.find? k = some f) (h₂ : h.blockList.find? b₂ = some m₂) (hg : m₂.find? k = some g) :
    b₁ = b₂ := by
  by_contra hne
  have hap := hw.apart b₁ m₁ b₂ m₂ h₁ h₂ hne
  have hk₁ := (hw.blocks b₁ m₁ h₁).frag_inside hf
  have hk₂ := (hw.blocks b₂ m₂ h₂).frag_inside hg
  unfold Apart at hap
  dsimp only at hap
  omega

variable (hbs : 0 < a.blockSize)
include hbs

theorem Wf.extent_pos (hw : Wf a Out h) (hblk : h.blockList.find? blk = some fragMap) :
    0 < extent fragMap :=
  Nat.lt_of_lt_of_le hbs (hw.blocks blk fragMap hblk).large

/-- The block holding a fragment is the last block starting at or below it. -/
theorem Wf.floor_eq (hw : Wf a Out h) (hblk : h.blockList.find? blk = some fragMap)
    (hf : fragMap.find? k = some f) : h.blockList.floor k = some blk := by
  have hk := (hw.blocks blk fragMap hblk).frag_inside hf
  rw [OrdMap.floor_eq_some_iff]
  refine ⟨OrdMap.mem_keys_of_find? hblk, hk.1, ?_⟩
  intro i hi hik
  obtain ⟨mi, hmi⟩ := OrdMap.find?_of_mem_keys hi
  by_contra hlt
  have hne : blk ≠ i := by omega
  have hap := hw.apart blk fragMap i mi hblk hmi hne
  have hpos := hw.extent_pos hbs hmi
  unfold Apart at hap
  dsimp only at hap
  omega

/-- A nonempty range apart from every block starts at no block. -/
theorem Wf.find?_eq_none (hw : Wf a Out h) {r : Nat × Nat} (hr : 0 < r.2)
    (hap : ∀ blk fragMap, h.blockList.find? blk = some fragMap → Apart r (blk, extent fragMap)) :
    h.blockList.find? r.1 = none := by
  cases hfind : h.blockList.find? r.1 with
  | none => rfl
  | some fragMap =>
      have hpos := hw.extent_pos hbs hfind
      have := hap r.1 fragMap hfind
      unfold Apart at this
      dsimp only at this
      omega

end Layout

/-! ## Edits of the free list and of one block -/

section Edits

variable {a} {Out : σ → Nat × Nat → Prop} {h : Heap σ} {fl : MultiMap Nat Nat}
  {bl : OrdMap Nat (OrdMap Nat Fragment)} {blk : Nat} {fragMap fragMap' : OrdMap Nat Fragment}
  {f : Fragment} {n : MultiMap.Node Nat Nat} {p : Nat × Nat}

@[simp] theorem removeFreeListEntry_snd :
    (removeFreeListEntry fl f).2 = { f with freeListEntry := none } := by
  unfold removeFreeListEntry
  cases hf : f.freeListEntry with
  | none =>
      cases f
      simp_all
  | some i => rfl

/-- `removeFreeListEntry` drops the node the fragment's iterator designates. -/
theorem mem_removeFreeListEntry :
    n ∈ (removeFreeListEntry fl f).1.nodes ↔ n ∈ fl.nodes ∧ f.freeListEntry ≠ some n.id := by
  unfold removeFreeListEntry
  cases hf : f.freeListEntry with
  | none => simp
  | some i => simp [eq_comm]

/-- A node keeps designating its fragment when a block is replaced by a map
that keeps that fragment. -/
theorem Designates.assign (hd : Designates bl n)
    (hkeep : ∀ m g, bl.find? blk = some m → m.find? n.value = some g → g.free = true →
      g.freeListEntry = some n.id → fragMap'.find? n.value = some g) :
    Designates (bl.assign blk fragMap') n := by
  obtain ⟨b, m, g, hb, hg, hfree, hentry, hsize⟩ := hd
  by_cases hbb : b = blk
  · subst hbb
    exact ⟨b, fragMap', g, by simp, hkeep m g hb hg hfree hentry, hfree, hentry, hsize⟩
  · exact ⟨b, m, g, by simp [hbb, hb], hg, hfree, hentry, hsize⟩

/-- A live allocation stays held when a block is replaced by a map that keeps
its fragment in use, with its size. -/
theorem Holds.assign (hp : Holds bl p)
    (hkeep : ∀ m g, bl.find? blk = some m → m.find? p.1 = some g → g.free = false →
      ∃ g', fragMap'.find? p.1 = some g' ∧ g'.free = false ∧ g'.size = g.size) :
    Holds (bl.assign blk fragMap') p := by
  obtain ⟨b, m, g, hb, hg, hused, hsize⟩ := hp
  by_cases hbb : b = blk
  · subst hbb
    obtain ⟨g', hg', hused', hsize'⟩ := hkeep m g hb hg hused
    exact ⟨b, fragMap', g', by simp, hg', hused', hsize'.trans hsize⟩
  · exact ⟨b, m, g, by simp [hbb, hb], hg, hused, hsize⟩

/-- What the block list finds after one block is replaced by a map of the same
extent: the same blocks, with the same extents. -/
theorem find?_assign_extent (hext : extent fragMap' = extent fragMap)
    (hblk : bl.find? blk = some fragMap) {b : Nat} {m : OrdMap Nat Fragment}
    (hb : (bl.assign blk fragMap').find? b = some m) :
    ∃ m₀, bl.find? b = some m₀ ∧ extent m = extent m₀ ∧ (b ≠ blk → m = m₀) := by
  rw [OrdMap.find?_assign] at hb
  split_ifs at hb with hbb
  · subst hbb
    cases hb
    exact ⟨fragMap, hblk, hext, fun hne => absurd rfl hne⟩
  · exact ⟨m, hb, rfl, fun _ => rfl⟩

/-- Replacing one block by a map of the same extent that tiles the same range,
with a free list whose nodes designate fragments of the new block list, keeps
the layout. -/
theorem Wf.edit (hw : Wf a Out h) (hblk : h.blockList.find? blk = some fragMap)
    (htiles : Tiles Fragment.size fragMap'.find? blk (blk + extent fragMap))
    (hext : extent fragMap' = extent fragMap)
    (hfl : ∀ n ∈ fl.nodes, Designates (h.blockList.assign blk fragMap') n) :
    Wf a Out { h with freeList := fl, blockList := h.blockList.assign blk fragMap' } := by
  have hfind := fun {b m} (hbm : (h.blockList.assign blk fragMap').find? b = some m) =>
    find?_assign_extent hext hblk hbm
  have hb : BlockWf a blk fragMap' :=
    ⟨by rwa [hext], by rw [hext]; exact (hw.blocks blk fragMap hblk).large⟩
  constructor
  · intro b m hbm
    by_cases hbb : b = blk
    · subst hbb
      rw [OrdMap.find?_assign, if_pos rfl] at hbm
      cases hbm
      exact hb
    · obtain ⟨m₀, hm₀, -, heq⟩ := hfind hbm
      rw [heq hbb]
      exact hw.blocks b m₀ hm₀
  · intro b₁ m₁ b₂ m₂ h₁ h₂ hne
    obtain ⟨n₁, hn₁, he₁, -⟩ := hfind h₁
    obtain ⟨n₂, hn₂, he₂, -⟩ := hfind h₂
    rw [he₁, he₂]
    exact hw.apart b₁ n₁ b₂ n₂ hn₁ hn₂ hne
  · exact hw.cached
  · intro b m hbm c hc
    obtain ⟨m₀, hm₀, he, -⟩ := hfind hbm
    rw [he]
    exact hw.apartCache b m₀ hm₀ c hc
  · exact hw.cachePairwise
  · intro b m hbm
    obtain ⟨m₀, hm₀, he, -⟩ := hfind hbm
    rw [he]
    exact hw.outBlocks b m₀ hm₀
  · exact hw.outCache
  · exact hfl

end Edits

/-! ## Allocation from the free list -/

section FreeListAlloc

variable {a} {Out : σ → Nat × Nat → Prop} {h : Heap σ} {live : List (Nat × Nat)}
  {blk base bytes size i : Nat} {fragMap : OrdMap Nat Fragment} {f : Fragment}
  {n : MultiMap.Node Nat Nat}

/-- The fragment `alloc` takes: `bytes` of it, in use. -/
def taken (bytes : Nat) (f : Fragment) : Fragment := setUsed { f with size := bytes }

@[simp] theorem taken_size : (taken bytes f).size = bytes := rfl

@[simp] theorem taken_free : (taken bytes f).free = false := rfl

theorem allocFromFreeList_eq (hget : h.freeList.get? i = some (size, base))
    (hfloor : h.blockList.floor base = some blk) (hblk : h.blockList.find? blk = some fragMap) :
    allocFromFreeList h bytes i =
      (if size > bytes then
        { h with
          freeList := ((h.freeList.erase i).insert (size - bytes) (base + bytes)).1
          blockList := h.blockList.assign blk
            ((fragMap.modify base (taken bytes)).assign (base + bytes)
              (makeFreeFragment (h.freeList.erase i).nextId (size - bytes))) }
      else
        { h with
          freeList := h.freeList.erase i
          blockList := h.blockList.assign blk (fragMap.modify base (taken bytes)) }, base) := by
  simp only [allocFromFreeList, hget, Option.getD_some, hfloor, hblk]
  split_ifs <;> rfl

/-- A fragment in use and a free one sit at different offsets. -/
theorem ne_of_used_free {m : OrdMap Nat Fragment} {j k : Nat} {g : Fragment}
    (hg : m.find? j = some g) (hused : g.free = false) (hf : m.find? k = some f)
    (hfree : f.free = true) : j ≠ k := by
  intro hjk
  rw [hjk, hf] at hg
  cases hg
  rw [hfree] at hused
  cases hused

/-- A live allocation is not at the offset of a free fragment. -/
theorem Wf.holds_ne (hw : Wf a Out h) {p : Nat × Nat} (hp : Holds h.blockList p)
    (hblk : h.blockList.find? blk = some fragMap) (hf : fragMap.find? base = some f)
    (hfree : f.free = true) : p.1 ≠ base := by
  intro hpb
  obtain ⟨b, m, g, hb, hg, hused, -⟩ := hp
  rw [hpb] at hg
  have hbb := hw.block_unique hb hg hblk hf
  subst hbb
  rw [hb] at hblk
  cases hblk
  exact ne_of_used_free hg hused hf hfree rfl

/-- The layout reads no counter. -/
theorem Wf.counters (hw : Wf a Out h) (u c : Nat) :
    Wf a Out { h with inUseSize := u, cacheSize := c } :=
  ⟨hw.blocks, hw.apart, hw.cached, hw.apartCache, hw.cachePairwise, hw.outBlocks, hw.outCache,
    hw.freeList⟩

/-- The ledger reads only `block_list_`. -/
theorem Tracks.of_blockList {h' : Heap σ} (ht : Tracks h live) (he : h'.blockList = h.blockList) :
    Tracks h' live :=
  ⟨fun p hp => he ▸ ht.holds p hp, ht.nodup⟩

/-- Carving `bytes` out of the free fragment at `base`: what the block then
finds. -/
theorem find?_carve (hf : fragMap.find? base = some f) (hbytes : 0 < bytes) (w : Fragment) (j : Nat) :
    ((fragMap.modify base (taken bytes)).assign (base + bytes) w).find? j =
      if j = base then some (taken bytes f) else if j = base + bytes then some w
      else fragMap.find? j := by
  simp only [OrdMap.find?_assign, OrdMap.find?_modify, hf, Option.map_some]
  split_ifs <;> first | rfl | omega

/-- Carving keeps the extent. -/
theorem extent_carve (hf : fragMap.find? base = some f) (hpos : 0 < bytes) (hbytes : bytes < f.size)
    (hnone : fragMap.find? (base + bytes) = none) (e : Nat) :
    extent ((fragMap.modify base (taken bytes)).assign (base + bytes)
      (makeFreeFragment e (f.size - bytes))) = extent fragMap := by
  have hmod := OrdMap.sumBy_modify (fun _ g => g.size) (taken bytes) hf
  have hnone' : (fragMap.modify base (taken bytes)).find? (base + bytes) = none := by
    rw [OrdMap.find?_modify, if_neg (by omega), hnone]
  have hins := OrdMap.sumBy_assign_of_none (fun _ g => g.size)
    (makeFreeFragment e (f.size - bytes)) hnone'
  have hsz : (makeFreeFragment e (f.size - bytes)).size = f.size - bytes := rfl
  unfold extent
  simp only [taken_size] at hmod
  omega

/-- Taking a whole free fragment keeps the extent. -/
theorem extent_take (hf : fragMap.find? base = some f) (hbytes : f.size = bytes) :
    extent (fragMap.modify base (taken bytes)) = extent fragMap := by
  have hmod := OrdMap.sumBy_modify (fun _ g => g.size) (taken bytes) hf
  unfold extent
  simp only [taken_size] at hmod
  omega

variable (hbs : 0 < a.blockSize)
include hbs

/-- `alloc` from a node of the free list whose fragment holds at least `bytes`:
the layout is kept, and the fragment handed out is in use, of `bytes` bytes. -/
theorem Wf.allocFromFreeList (hw : Wf a Out h) (ht : Tracks h live)
    (hn : n ∈ h.freeList.nodes) (hbytes : 0 < bytes) (hle : bytes ≤ n.key) :
    Wf a Out (allocFromFreeList h bytes n.id).1 ∧
      Tracks (allocFromFreeList h bytes n.id).1 ((n.value, bytes) :: live) ∧
      (allocFromFreeList h bytes n.id).2 = n.value := by
  obtain ⟨blk, fragMap, f, hblk, hf, hfree, hentry, hsize⟩ := hw.freeList n hn
  have hfloor := hw.floor_eq hbs hblk hf
  have hb := hw.blocks blk fragMap hblk
  rw [allocFromFreeList_eq (MultiMap.get?_of_mem hn) hfloor hblk]
  -- a node of `free_list_` other than the one taken designates another fragment
  have hother : ∀ x : MultiMap.Node Nat Nat, x.id ≠ n.id → ∀ g, fragMap.find? x.value = some g →
      g.freeListEntry = some x.id → x.value ≠ n.value := by
    intro x hxid g hg hgentry hxv
    rw [hxv, hf] at hg
    cases hg
    rw [hentry] at hgentry
    exact hxid (Option.some.inj hgentry).symm
  have hnodup : (n.value :: live.map Prod.fst).Nodup := by
    refine List.nodup_cons.mpr ⟨?_, ht.nodup⟩
    intro hmem
    obtain ⟨p, hp, hpv⟩ := List.mem_map.mp hmem
    exact hw.holds_ne (ht.holds p hp) hblk hf hfree hpv
  split_ifs with hsplit
  · -- the fragment is cut: `bytes` in use at `base`, the rest free after it
    have hnone : fragMap.find? (n.value + bytes) = none :=
      hb.tiles.none_of_inside hf (by omega) (by omega)
    have hext := extent_carve hf hbytes (by omega) hnone (h.freeList.erase n.id).nextId
    rw [hsize] at hext
    have hfind := find?_carve hf hbytes
      (makeFreeFragment (h.freeList.erase n.id).nextId (n.key - bytes))
    have htiles : Tiles Fragment.size (((fragMap.modify n.value (taken bytes)).assign
        (n.value + bytes) (makeFreeFragment (h.freeList.erase n.id).nextId (n.key - bytes))).find?)
        blk (blk + extent fragMap) :=
      hb.tiles.split hf (by simpa using hbytes) (by simp; omega)
        (by simp [makeFreeFragment]; omega) hfind
    set fragMap' := (fragMap.modify n.value (taken bytes)).assign (n.value + bytes)
      (makeFreeFragment (h.freeList.erase n.id).nextId (n.key - bytes)) with hfragMap'
    have hnew : (h.blockList.assign blk fragMap').find? blk = some fragMap' := by
      rw [OrdMap.find?_assign, if_pos rfl]
    refine ⟨hw.edit hblk htiles hext ?_, ⟨?_, hnodup⟩, rfl⟩
    · intro x hx
      rcases MultiMap.mem_insert.mp hx with hx | hx
      · -- the node of the rest designates the fragment after the one handed out
        subst hx
        refine ⟨blk, fragMap', makeFreeFragment (h.freeList.erase n.id).nextId (n.key - bytes), hnew,
          ?_, rfl, rfl, rfl⟩
        rw [hfind, if_neg (show n.value + bytes ≠ n.value by omega), if_pos rfl]
      · rw [MultiMap.mem_erase] at hx
        refine (hw.freeList x hx.1).assign fun m g hm hg _ hgentry => ?_
        rw [hblk] at hm
        cases hm
        have hxv' : x.value ≠ n.value + bytes := by
          intro hxv'
          rw [hxv', hnone] at hg
          cases hg
        rw [hfind, if_neg (hother x hx.2 g hg hgentry), if_neg hxv']
        exact hg
    · intro p hp
      rcases List.mem_cons.mp hp with rfl | hp
      · exact ⟨blk, fragMap', _, hnew, by rw [hfind, if_pos rfl], rfl, rfl⟩
      · refine (ht.holds p hp).assign fun m g hm hg hused => ?_
        rw [hblk] at hm
        cases hm
        have hpv := ne_of_used_free hg hused hf hfree
        have hpv' : p.1 ≠ n.value + bytes := by
          intro hpv'
          rw [hpv', hnone] at hg
          cases hg
        rw [hfind, if_neg hpv, if_neg hpv']
        exact ⟨g, hg, hused, rfl⟩
  · -- the fragment is handed out whole
    have hsz : f.size = bytes := by omega
    have hext := extent_take hf hsz
    have hfind : ∀ j, (fragMap.modify n.value (taken bytes)).find? j =
        if j = n.value then some (taken bytes f) else fragMap.find? j := by
      intro j
      simp only [OrdMap.find?_modify, hf, Option.map_some]
    have htiles : Tiles Fragment.size (fragMap.modify n.value (taken bytes)).find? blk
        (blk + extent fragMap) := by
      refine hb.tiles.congr fun j => ?_
      rw [hfind]
      split_ifs with hj
      · rw [hj, hf]
        simp [hsz]
      · rfl
    have hnew : (h.blockList.assign blk (fragMap.modify n.value (taken bytes))).find? blk =
        some (fragMap.modify n.value (taken bytes)) := by
      rw [OrdMap.find?_assign, if_pos rfl]
    refine ⟨hw.edit hblk htiles hext ?_, ⟨?_, hnodup⟩, rfl⟩
    · intro x hx
      rw [MultiMap.mem_erase] at hx
      refine (hw.freeList x hx.1).assign fun m g hm hg _ hgentry => ?_
      rw [hblk] at hm
      cases hm
      rw [hfind, if_neg (hother x hx.2 g hg hgentry)]
      exact hg
    · intro p hp
      rcases List.mem_cons.mp hp with rfl | hp
      · exact ⟨blk, _, _, hnew, by rw [hfind, if_pos rfl], rfl, rfl⟩
      · refine (ht.holds p hp).assign fun m g hm hg hused => ?_
        rw [hblk] at hm
        cases hm
        rw [hfind, if_neg (ne_of_used_free hg hused hf hfree)]
        exact ⟨g, hg, hused, rfl⟩

end FreeListAlloc

/-! ## Discarding a block, balancing and trimming the cache -/

section Discard

variable {a} {Out : σ → Nat × Nat → Prop} {h : Heap σ} {live : List (Nat × Nat)}
  {fl : MultiMap Nat Nat} {ptr : Nat}

/-- A fragment marked for discard, with its free-list node removed. -/
def discarded (f : Fragment) : Fragment := { f with freeListEntry := none, discard := true }

@[simp] theorem discarded_size (f : Fragment) : (discarded f).size = f.size := rfl

@[simp] theorem discarded_free (f : Fragment) : (discarded f).free = f.free := rfl

/-- The loop of `discardBlock` marks every fragment, drops the nodes they
designate and adds up their sizes. -/
theorem discardFragments_eq (fl : MultiMap Nat Nat) (es : List (Nat × Fragment)) :
    (discardFragments fl es).2.1 = es.map (fun e => (e.1, discarded e.2)) ∧
      (∀ n, n ∈ (discardFragments fl es).1.nodes ↔
        n ∈ fl.nodes ∧ ∀ e ∈ es, e.2.freeListEntry ≠ some n.id) ∧
      (discardFragments fl es).2.2 = (es.map (fun e => e.2.size)).sum := by
  induction es generalizing fl with
  | nil => simp [discardFragments]
  | cons e es ih =>
      obtain ⟨k, f⟩ := e
      obtain ⟨hfrag, hnodes, hsum⟩ := ih (removeFreeListEntry fl f).1
      refine ⟨?_, ?_, ?_⟩
      · simp [discardFragments, discardFragment, hfrag, discarded]
      · intro n
        simp only [discardFragments, discardFragment, hnodes, mem_removeFreeListEntry,
          List.mem_cons, forall_eq_or_imp]
        tauto
      · simp [discardFragments, discardFragment, hsum]

/-- `discardBlock` leaves the heap alone, or marks one block for discard and
balances the cache. -/
theorem discardBlock_cases (ptr : Nat) :
    (discardBlock a h ptr).1 = h ∨
      ∃ blk fragMap fragMap', h.blockList.find? blk = some fragMap ∧
        fragMap'.entries = (discardFragments h.freeList fragMap.entries).2.1 ∧
        (discardBlock a h ptr).1 = balance a
          { h with freeList := (discardFragments h.freeList fragMap.entries).1,
                   blockList := h.blockList.assign blk fragMap',
                   inUseSize := h.inUseSize - (discardFragments h.freeList fragMap.entries).2.2 } := by
  unfold discardBlock
  split_ifs with hptr
  · exact Or.inl rfl
  · cases hfl : h.blockList.floor ptr with
    | none => exact Or.inl rfl
    | some blk =>
        obtain ⟨hmem, -, -⟩ := (OrdMap.floor_eq_some_iff _ _ _).mp hfl
        obtain ⟨fragMap, hblk⟩ := OrdMap.find?_of_mem_keys hmem
        simp only [hblk, Option.getD_some]
        split
        · split_ifs
          · exact Or.inl rfl
          · exact Or.inl rfl
          · exact Or.inr ⟨blk, fragMap, _, hblk, rfl, rfl⟩
        · exact Or.inl rfl

/-- Marking a block for discard keeps the layout and every live allocation. -/
theorem Wf.discard (hw : Wf a Out h) (ht : Tracks h live) {blk : Nat}
    {fragMap fragMap' : OrdMap Nat Fragment} (hblk : h.blockList.find? blk = some fragMap)
    (he : fragMap'.entries = (discardFragments h.freeList fragMap.entries).2.1) (u : Nat) :
    Wf a Out { h with freeList := (discardFragments h.freeList fragMap.entries).1,
                      blockList := h.blockList.assign blk fragMap', inUseSize := u } ∧
      Tracks { h with freeList := (discardFragments h.freeList fragMap.entries).1,
                      blockList := h.blockList.assign blk fragMap', inUseSize := u } live := by
  obtain ⟨hfrag, hnodes, -⟩ := discardFragments_eq h.freeList fragMap.entries
  rw [hfrag] at he
  have hfind := OrdMap.find?_of_entries_eq_map he
  have hext : extent fragMap' = extent fragMap := by
    unfold extent
    rw [OrdMap.sumBy_of_entries_eq_map _ he]
    rfl
  have hb := hw.blocks blk fragMap hblk
  have htiles : Tiles Fragment.size fragMap'.find? blk (blk + extent fragMap) :=
    hb.tiles.congr fun j => by rw [hfind, Option.map_map]; rfl
  refine ⟨(hw.edit hblk htiles hext ?_).counters u
    h.cacheSize, ?_, ht.nodup⟩
  · intro n hn
    obtain ⟨hn, hnot⟩ := (hnodes n).mp hn
    refine (hw.freeList n hn).assign fun m g hm hg _ hgentry => ?_
    rw [hblk] at hm
    cases hm
    exact absurd hgentry (hnot _ (OrdMap.mem_entries_of_find? hg))
  · intro p hp
    refine (ht.holds p hp).assign fun m g hm hg hused => ?_
    rw [hblk] at hm
    cases hm
    exact ⟨discarded g, by rw [hfind, hg]; rfl, hused, rfl⟩

end Discard

/-! ## Releasing cached blocks -/

section Cache

variable {a} {Out : σ → Nat × Nat → Prop} {h : Heap σ} {live : List (Nat × Nat)}

/-- The loop of `balance()` releases a prefix of the cache, front first, and
keeps the rest. -/
theorem balanceLoop_eq (s : σ) (inUse : Nat) (cache : List Block) (cs : Nat) :
    ∃ k, (balanceLoop a s inUse cache cs).2.1 = cache.drop k ∧
      (balanceLoop a s inUse cache cs).1 =
        ((cache.take k).map Block.range).foldl (fun s q => a.release s q.1 q.2) s := by
  fun_induction balanceLoop a s inUse cache cs with
  | case1 s b c rest cs hgt ih =>
      obtain ⟨k, hdrop, hs⟩ := ih
      refine ⟨k + 1, hdrop, ?_⟩
      rw [hs]
      rfl
  | case2 => exact ⟨0, rfl, rfl⟩
  | case3 => exact ⟨0, rfl, rfl⟩

variable (hbs : 0 < a.blockSize) (hl : Lawful a.allocate a.release Out)
include hbs hl

/-- Releasing the first `k` cached blocks keeps the layout: every other block,
cached or in `block_list_`, is apart from them, so it stays outstanding. -/
theorem Wf.releaseCache (hw : Wf a Out h) (k c : Nat) :
    Wf a Out { h with
      blockAllocator := ((h.blockCache.take k).map Block.range).foldl
        (fun s q => a.release s q.1 q.2) h.blockAllocator
      blockCache := h.blockCache.drop k
      cacheSize := c } := by
  have hsplit := hw.cachePairwise
  rw [← List.take_append_drop k h.blockCache, List.map_append, List.pairwise_append] at hsplit
  constructor
  · exact hw.blocks
  · exact hw.apart
  · exact fun b hb => hw.cached b (List.mem_of_mem_drop hb)
  · exact fun blk m hm b hb => hw.apartCache blk m hm b (List.mem_of_mem_drop hb)
  · rw [List.map_drop]
    exact hw.cachePairwise.drop
  · intro blk m hm
    refine hl.foldl_release _ (hw.outBlocks blk m hm) ?_
    intro hmem
    obtain ⟨b, hb, hbr⟩ := List.mem_map.mp hmem
    have hap := hw.apartCache blk m hm b (List.mem_of_mem_take hb)
    rw [hbr] at hap
    exact not_apart_self (hw.extent_pos hbs hm) hap
  · intro b hb
    refine hl.foldl_release _ (hw.outCache b (List.mem_of_mem_drop hb)) ?_
    intro hmem
    obtain ⟨b', hb', hbr⟩ := List.mem_map.mp hmem
    -- a block both released and kept would be apart from itself
    have hap := hsplit.2.2 _ (List.mem_map_of_mem hb') _ (List.mem_map_of_mem hb)
    rw [hbr] at hap
    exact not_apart_self (Nat.lt_of_lt_of_le hbs (hw.cached b (List.mem_of_mem_drop hb))) hap
  · exact hw.freeList

/-- `balance()` keeps the layout. -/
theorem Wf.balance (hw : Wf a Out h) : Wf a Out (balance a h) := by
  obtain ⟨k, hcache, hs⟩ := balanceLoop_eq h.blockAllocator h.inUseSize h.blockCache h.cacheSize
  have hw' := hw.releaseCache hbs hl k
    (balanceLoop a h.blockAllocator h.inUseSize h.blockCache h.cacheSize).2.2
  rw [← hcache, ← hs] at hw'
  exact hw'

/-- `trim()` keeps the layout. -/
theorem Wf.trim (hw : Wf a Out h) : Wf a Out (trim a h) := by
  have hw' := hw.releaseCache hbs hl h.blockCache.length 0
  rw [List.take_length, List.drop_length, List.foldl_map] at hw'
  exact hw'

/-- `discardBlock` keeps the layout and every live allocation. -/
theorem Wf.discardBlock (hw : Wf a Out h) (ht : Tracks h live) (ptr : Nat) :
    Wf a Out (discardBlock a h ptr).1 ∧ Tracks (discardBlock a h ptr).1 live := by
  rcases discardBlock_cases (a := a) (h := h) ptr with
    heq | ⟨blk, fragMap, fragMap', hblk, he, heq⟩
  · rw [heq]
    exact ⟨hw, ht⟩
  · rw [heq]
    obtain ⟨hw', ht'⟩ := hw.discard ht hblk he
      (h.inUseSize - (discardFragments h.freeList fragMap.entries).2.2)
    exact ⟨hw'.balance hbs hl, ht'.of_blockList rfl⟩

end Cache

/-! ## Allocation from a new block -/

/-- The block `alloc` takes when no free fragment fits: the last cached block,
if the request is below the default block size, or a new one from the block
allocator.  The result is the heap, the block's base and its size. -/
def newBlock (h : Heap σ) (bytes : Nat) : Heap σ × Nat × Nat :=
  match h.blockCache.getLast? with
  | some block =>
      if bytes < defaultBlockSize a then
        ({ h with blockCache := h.blockCache.dropLast,
                  cacheSize := h.cacheSize - block.length }, block.basePtr, block.length)
      else
        let (base, size, s) := a.alloc h.blockAllocator bytes
        ({ h with blockAllocator := s }, base, size)
  | none =>
      let (base, size, s) := a.alloc h.blockAllocator bytes
      ({ h with blockAllocator := s }, base, size)

/-- The rest of `alloc` once it holds a block `[base, base + size)`: the first
`bytes` are handed out and the rest, if any, becomes a free fragment. -/
def placeBlock (h : Heap σ) (base size bytes : Nat) : Heap σ :=
  let h := { h with inUseSize := h.inUseSize + size }
  let fragMap := (h.blockList.find? base).getD OrdMap.empty
  let (fl, fragMap) :=
    if size > bytes then
      let (fl, entry) := h.freeList.insert (size - bytes) (base + bytes)
      (fl, fragMap.assign (base + bytes) (makeFreeFragment entry (size - bytes)))
    else (h.freeList, fragMap)
  let fragMap := fragMap.assign base (makeFragment bytes)
  { h with freeList := fl, blockList := h.blockList.assign base fragMap }

/-- A range the heap may make a block of: outstanding at the block allocator,
apart from every block the heap holds, and a default block at least. -/
structure Fresh (Out : σ → Nat × Nat → Prop) (h : Heap σ) (r : Nat × Nat) : Prop where
  out : Out h.blockAllocator r
  apart : ∀ blk fragMap, h.blockList.find? blk = some fragMap → Apart r (blk, extent fragMap)
  apartCache : ∀ b ∈ h.blockCache, Apart r b.range
  large : a.blockSize ≤ r.2

section NewBlock

variable {a} {Out : σ → Nat × Nat → Prop} {h : Heap σ} {live : List (Nat × Nat)}
  {base size bytes bs : Nat} {fl : MultiMap Nat Nat} {fragMap' : OrdMap Nat Fragment}

theorem alloc_of_lowerBound_none (hlb : h.freeList.lowerBound bytes = none) :
    alloc a h bytes =
      if bytes > defaultBlockSize a then
        ((discardBlock a (placeBlock (newBlock a h bytes).1 (newBlock a h bytes).2.1
          (newBlock a h bytes).2.2 bytes) (newBlock a h bytes).2.1).1, (newBlock a h bytes).2.1)
      else
        (placeBlock (newBlock a h bytes).1 (newBlock a h bytes).2.1 (newBlock a h bytes).2.2 bytes,
          (newBlock a h bytes).2.1) := by
  simp only [alloc, hlb]
  rfl

theorem alloc_of_lowerBound_some {i : Nat} (hlb : h.freeList.lowerBound bytes = some i) :
    alloc a h bytes = allocFromFreeList h bytes i := by
  simp only [alloc, hlb]

theorem placeBlock_eq (hnone : h.blockList.find? base = none) :
    placeBlock h base size bytes =
      if size > bytes then
        { h with
          inUseSize := h.inUseSize + size
          freeList := (h.freeList.insert (size - bytes) (base + bytes)).1
          blockList := h.blockList.assign base
            ((OrdMap.empty.assign (base + bytes) (makeFreeFragment h.freeList.nextId (size - bytes))).assign
              base (makeFragment bytes)) }
      else
        { h with
          inUseSize := h.inUseSize + size
          blockList := h.blockList.assign base (OrdMap.empty.assign base (makeFragment bytes)) } := by
  simp only [placeBlock, hnone, Option.getD_none]
  split_ifs <;> rfl

/-- `AlignUp` of a positive size to a positive block size covers the size and
one block at least. -/
theorem le_alignUp (hbytes : 0 < bytes) (hbs : 0 < bs) :
    bytes ≤ alignUp bytes bs ∧ bs ≤ alignUp bytes bs := by
  have hdiv := Nat.div_add_mod (bytes + bs - 1) bs
  have hmod := Nat.mod_lt (bytes + bs - 1) hbs
  have hq : 0 < (bytes + bs - 1) / bs := Nat.div_pos (by omega) hbs
  have hle := Nat.le_mul_of_pos_right bs hq
  unfold alignUp alignDown
  rw [Nat.mul_comm]
  omega

/-- A block of the list after one is added or replaced: the new one, or one
that was there. -/
theorem find?_assign_cases {bl : OrdMap Nat (OrdMap Nat Fragment)} {b : Nat}
    {m : OrdMap Nat Fragment} (hb : (bl.assign base fragMap').find? b = some m) :
    (b = base ∧ m = fragMap') ∨ (b ≠ base ∧ bl.find? b = some m) := by
  rw [OrdMap.find?_assign] at hb
  split_ifs at hb with hbb
  · cases hb
    exact Or.inl ⟨hbb, rfl⟩
  · exact Or.inr ⟨hbb, hb⟩

/-- Adding a fresh block keeps the layout. -/
theorem Wf.addBlock (hw : Wf a Out h) (hfr : Fresh a Out h (base, extent fragMap'))
    (hb : BlockWf a base fragMap')
    (hfl : ∀ n ∈ fl.nodes, Designates (h.blockList.assign base fragMap') n) :
    Wf a Out { h with freeList := fl, blockList := h.blockList.assign base fragMap' } := by
  constructor
  · intro b m hbm
    rcases find?_assign_cases hbm with ⟨rfl, rfl⟩ | ⟨-, hbm⟩
    · exact hb
    · exact hw.blocks b m hbm
  · intro b₁ m₁ b₂ m₂ h₁ h₂ hne
    rcases find?_assign_cases h₁ with ⟨rfl, rfl⟩ | ⟨-, h₁'⟩ <;>
      rcases find?_assign_cases h₂ with ⟨rfl, rfl⟩ | ⟨-, h₂'⟩
    · exact absurd rfl hne
    · exact hfr.apart b₂ m₂ h₂'
    · exact (hfr.apart b₁ m₁ h₁').symm
    · exact hw.apart b₁ m₁ b₂ m₂ h₁' h₂' hne
  · exact hw.cached
  · intro b m hbm c hc
    rcases find?_assign_cases hbm with ⟨rfl, rfl⟩ | ⟨-, hbm⟩
    · exact hfr.apartCache c hc
    · exact hw.apartCache b m hbm c hc
  · exact hw.cachePairwise
  · intro b m hbm
    rcases find?_assign_cases hbm with ⟨rfl, rfl⟩ | ⟨-, hbm⟩
    · exact hfr.out
    · exact hw.outBlocks b m hbm
  · exact hw.outCache
  · exact hfl

/-- A live allocation lies in no fresh range. -/
theorem Wf.holds_ne_fresh (hw : Wf a Out h) {p : Nat × Nat} (hp : Holds h.blockList p)
    (hfr : Fresh a Out h (base, size)) (hsize : 0 < size) : p.1 ≠ base := by
  intro hpb
  obtain ⟨b, m, g, hb, hg, -, -⟩ := hp
  have hk := (hw.blocks b m hb).frag_inside hg
  have hap := hfr.apart b m hb
  unfold Apart at hap
  dsimp only at hap
  omega

/-- Adding a fresh block whose first fragment is in use, of `bytes` bytes,
records one more live allocation. -/
theorem Tracks.addBlock (hw : Wf a Out h) (ht : Tracks h live) (hfr : Fresh a Out h (base, size))
    (hsize : 0 < size) (hnone : h.blockList.find? base = none)
    (hbase : fragMap'.find? base = some (makeFragment bytes)) :
    Tracks { h with blockList := h.blockList.assign base fragMap' } ((base, bytes) :: live) := by
  refine ⟨?_, List.nodup_cons.mpr ⟨?_, ht.nodup⟩⟩
  · intro p hp
    rcases List.mem_cons.mp hp with rfl | hp
    · exact ⟨base, fragMap', makeFragment bytes, by simp, hbase, rfl, rfl⟩
    · refine (ht.holds p hp).assign fun m g hm _ _ => ?_
      rw [hnone] at hm
      cases hm
  · intro hmem
    obtain ⟨p, hp, hpb⟩ := List.mem_map.mp hmem
    exact hw.holds_ne_fresh (ht.holds p hp) hfr hsize hpb

/-- The last cached block, taken out of the cache, is a fresh range. -/
theorem Wf.takeCached (hw : Wf a Out h) {block : Block} (hlast : h.blockCache.getLast? = some block)
    (c : Nat) :
    Wf a Out { h with blockCache := h.blockCache.dropLast, cacheSize := c } ∧
      Fresh a Out { h with blockCache := h.blockCache.dropLast, cacheSize := c } block.range := by
  have hmem := List.mem_of_getLast? hlast
  obtain ⟨ys, hys⟩ := List.getLast?_eq_some_iff.mp hlast
  have hpw := hw.cachePairwise
  rw [hys, List.map_append, List.pairwise_append] at hpw
  have hdrop : h.blockCache.dropLast = ys := by rw [hys, List.dropLast_concat]
  refine ⟨⟨hw.blocks, hw.apart, fun b hb => hw.cached b (List.mem_of_mem_dropLast hb),
    fun blk m hm b hb => hw.apartCache blk m hm b (List.mem_of_mem_dropLast hb), ?_, hw.outBlocks,
    fun b hb => hw.outCache b (List.mem_of_mem_dropLast hb), hw.freeList⟩,
    ⟨hw.outCache block hmem, fun blk m hm => (hw.apartCache blk m hm block hmem).symm, ?_,
    hw.cached block hmem⟩⟩
  · rw [hdrop]
    exact hpw.1
  · intro b hb
    rw [hdrop] at hb
    exact (hpw.2.2 _ (List.mem_map_of_mem hb) _ (by simp)).symm

/-- A fresh block whose fragments tile it, the first in use of `bytes` bytes,
with a free list of old nodes and of nodes designating its own fragments,
keeps the layout and records the allocation. -/
theorem Wf.addFresh (hw : Wf a Out h) (ht : Tracks h live) (hfr : Fresh a Out h (base, size))
    (hsize : 0 < size) (hnone : h.blockList.find? base = none)
    (htiles : Tiles Fragment.size fragMap'.find? base (base + size)) (hext : extent fragMap' = size)
    (hbase : fragMap'.find? base = some (makeFragment bytes))
    (hfl : ∀ n ∈ fl.nodes, n ∈ h.freeList.nodes ∨ Designates (h.blockList.assign base fragMap') n)
    (u : Nat) :
    Wf a Out { h with inUseSize := u, freeList := fl, blockList := h.blockList.assign base fragMap' } ∧
      Tracks { h with inUseSize := u, freeList := fl, blockList := h.blockList.assign base fragMap' }
        ((base, bytes) :: live) := by
  subst hext
  refine ⟨(hw.addBlock hfr ⟨htiles, hfr.large⟩ fun n hn => ?_).counters u h.cacheSize,
    (ht.addBlock hw hfr hsize hnone hbase).of_blockList rfl⟩
  rcases hfl n hn with hn | hd
  · -- an old node designates a fragment of an old block
    refine (hw.freeList n hn).assign fun m g hm _ _ _ => ?_
    rw [hnone] at hm
    cases hm
  · exact hd

variable (hbs : 0 < a.blockSize) (hl : Lawful a.allocate a.release Out)
include hbs

/-- Placing the request at the start of a fresh block keeps the layout, and
the first fragment is the allocation. -/
theorem Wf.placeBlock (hw : Wf a Out h) (ht : Tracks h live) (hfr : Fresh a Out h (base, size))
    (hbytes : 0 < bytes) (hle : bytes ≤ size) :
    Wf a Out (placeBlock h base size bytes) ∧
      Tracks (placeBlock h base size bytes) ((base, bytes) :: live) := by
  have hsize : 0 < size := Nat.lt_of_lt_of_le hbs hfr.large
  have hnone : h.blockList.find? base = none := hw.find?_eq_none hbs (r := (base, size)) hsize hfr.apart
  rw [placeBlock_eq hnone]
  split_ifs with hgt
  · -- the request and a free rest
    set fragMap' := (OrdMap.empty.assign (base + bytes)
      (makeFreeFragment h.freeList.nextId (size - bytes))).assign base (makeFragment bytes)
      with hfragMap'
    have hfind : ∀ j, fragMap'.find? j = if j = base then some (makeFragment bytes)
        else if j = base + bytes then some (makeFreeFragment h.freeList.nextId (size - bytes))
        else none := by
      intro j
      simp only [hfragMap', OrdMap.find?_assign, OrdMap.find?_empty]
    have hext : extent fragMap' = size := by
      have hin := OrdMap.sumBy_assign_of_none (fun _ f => f.size)
        (makeFreeFragment h.freeList.nextId (size - bytes)) (OrdMap.find?_empty (ν := Fragment) (base + bytes))
      have hout : fragMap'.sumBy (fun _ f => f.size) =
          (OrdMap.empty.assign (base + bytes) (makeFreeFragment h.freeList.nextId (size - bytes))).sumBy
            (fun _ f => f.size) + (makeFragment bytes).size :=
        OrdMap.sumBy_assign_of_none _ _ (by simp; omega)
      have hsz : (makeFreeFragment h.freeList.nextId (size - bytes)).size = size - bytes := rfl
      have hsz' : (makeFragment bytes).size = bytes := rfl
      have hzero : (OrdMap.empty : OrdMap Nat Fragment).sumBy (fun _ f => f.size) = 0 := rfl
      unfold extent
      omega
    have hwhole : Tiles Fragment.size (fun j => if j = base then some (makeFragment size) else none)
        base (base + size) := tiles_one (v := makeFragment size) hsize fun j => rfl
    -- the fragment map is the whole block cut at `base + bytes`
    have hcut : ∀ j, fragMap'.find? j = if j = base then some (makeFragment bytes)
        else if j = base + (makeFragment bytes).size then
          some (makeFreeFragment h.freeList.nextId (size - bytes))
        else if j = base then some (makeFragment size) else none := by
      intro j
      rw [hfind]
      split_ifs <;> simp_all [makeFragment]
    refine hw.addFresh ht hfr hsize hnone (hwhole.split (if_pos rfl) hbytes hgt rfl hcut) hext
      (by rw [hfind, if_pos rfl]) (fun x hx => ?_) _
    rcases MultiMap.mem_insert.mp hx with hx | hx
    · -- the node of the rest designates the free fragment after the request
      subst hx
      refine Or.inr ⟨base, fragMap', makeFreeFragment h.freeList.nextId (size - bytes), by simp, ?_,
        rfl, rfl, rfl⟩
      rw [hfind, if_neg (show base + bytes ≠ base by omega), if_pos rfl]
    · exact Or.inl hx
  · -- the request takes the whole block
    have hsz : bytes = size := by omega
    subst hsz
    have hfind : ∀ j, (OrdMap.empty.assign base (makeFragment bytes)).find? j =
        if j = base then some (makeFragment bytes) else none := by
      intro j
      simp only [OrdMap.find?_assign, OrdMap.find?_empty]
    have hext : extent (OrdMap.empty.assign base (makeFragment bytes)) = bytes := by
      have hzero : (OrdMap.empty : OrdMap Nat Fragment).sumBy (fun _ f => f.size) = 0 := rfl
      unfold extent
      rw [OrdMap.sumBy_assign_of_none _ _ (OrdMap.find?_empty base), hzero]
      exact Nat.zero_add bytes
    exact hw.addFresh ht hfr hsize hnone (tiles_one (v := makeFragment bytes) hbytes hfind) hext
      (by rw [hfind, if_pos rfl]) (fun x hx => Or.inl hx) _

include hl

/-- A block from the block allocator is a fresh range, large enough for the
request. -/
theorem Wf.allocBlock (hw : Wf a Out h) (hbytes : 0 < bytes) :
    Wf a Out { h with blockAllocator := (a.alloc h.blockAllocator bytes).2.2 } ∧
      Fresh a Out { h with blockAllocator := (a.alloc h.blockAllocator bytes).2.2 }
        ((a.alloc h.blockAllocator bytes).1, (a.alloc h.blockAllocator bytes).2.1) ∧
      bytes ≤ (a.alloc h.blockAllocator bytes).2.1 := by
  obtain ⟨hle, hbsle⟩ := le_alignUp hbytes hbs
  have hn : 0 < alignUp bytes a.blockSize := by omega
  refine ⟨⟨hw.blocks, hw.apart, hw.cached, hw.apartCache, hw.cachePairwise,
    fun blk m hm => hl.out_keep _ _ _ (hw.outBlocks blk m hm),
    fun b hb => hl.out_keep _ _ _ (hw.outCache b hb), hw.freeList⟩,
    ⟨hl.out_new _ _, fun blk m hm => hl.apart _ _ _ hn (hw.outBlocks blk m hm),
    fun b hb => hl.apart _ _ _ hn (hw.outCache b hb), hbsle⟩, hle⟩

/-- The block `alloc` takes when no fragment fits is a fresh range large
enough for the request; taking it keeps the layout. -/
theorem Wf.newBlock (hw : Wf a Out h) (hbytes : 0 < bytes) :
    Wf a Out (newBlock a h bytes).1 ∧ (newBlock a h bytes).1.blockList = h.blockList ∧
      Fresh a Out (newBlock a h bytes).1 ((newBlock a h bytes).2.1, (newBlock a h bytes).2.2) ∧
      bytes ≤ (newBlock a h bytes).2.2 := by
  unfold SimpleHeap.newBlock
  cases hlast : h.blockCache.getLast? with
  | some block =>
      dsimp only
      split_ifs with hsmall
      · obtain ⟨hw', hfr⟩ := hw.takeCached hlast (h.cacheSize - block.length)
        have hlarge := hw.cached block (List.mem_of_getLast? hlast)
        unfold defaultBlockSize at hsmall
        exact ⟨hw', rfl, hfr, show bytes ≤ block.length by omega⟩
      · obtain ⟨hw', hfr, hle⟩ := hw.allocBlock hbs hl hbytes
        exact ⟨hw', rfl, hfr, hle⟩
  | none =>
      obtain ⟨hw', hfr, hle⟩ := hw.allocBlock hbs hl hbytes
      exact ⟨hw', rfl, hfr, hle⟩

/-- `alloc` of a positive size keeps the layout, and what it returns is a
fragment in use of that size, at no pointer the callers already hold. -/
theorem Wf.alloc (hw : Wf a Out h) (ht : Tracks h live) (hbytes : 0 < bytes) :
    Wf a Out (alloc a h bytes).1 ∧
      Tracks (alloc a h bytes).1 (((alloc a h bytes).2, bytes) :: live) := by
  cases hlb : h.freeList.lowerBound bytes with
  | some i =>
      obtain ⟨n, hn, hid, hle⟩ := MultiMap.lowerBound_eq_some hlb
      obtain ⟨hw', ht', hbase⟩ := hw.allocFromFreeList hbs ht hn hbytes hle
      rw [alloc_of_lowerBound_some hlb, ← hid, hbase]
      exact ⟨hw', ht'⟩
  | none =>
      rw [alloc_of_lowerBound_none hlb]
      obtain ⟨hw₁, hbl, hfr, hle⟩ := hw.newBlock hbs hl hbytes
      obtain ⟨hw₂, ht₂⟩ := hw₁.placeBlock hbs (ht.of_blockList hbl) hfr hbytes hle
      split_ifs
      · exact hw₂.discardBlock hbs hl ht₂ _
      · exact ⟨hw₂, ht₂⟩

end NewBlock

/-! ## Live allocations -/

section Live

variable {a} {Out : σ → Nat × Nat → Prop} {h : Heap σ} {live : List (Nat × Nat)}
  {blk k : Nat} {fragMap : OrdMap Nat Fragment} {f : Fragment}

/-- The empty heap has the layout, whatever the allocator holds. -/
theorem Wf.init (s₀ : σ) : Wf a Out (SimpleHeap.init s₀) where
  blocks _ _ hm := by simp [SimpleHeap.init] at hm
  apart _ _ _ _ hm := by simp [SimpleHeap.init] at hm
  cached _ hb := by simp [SimpleHeap.init] at hb
  apartCache _ _ hm := by simp [SimpleHeap.init] at hm
  cachePairwise := List.Pairwise.nil
  outBlocks _ _ hm := by simp [SimpleHeap.init] at hm
  outCache _ hb := by simp [SimpleHeap.init] at hb
  freeList _ hn := by simp [SimpleHeap.init, MultiMap.empty] at hn

/-- The empty heap holds no allocation. -/
theorem Tracks.init (s₀ : σ) : Tracks (SimpleHeap.init s₀) [] :=
  ⟨fun _ hp => absurd hp List.not_mem_nil, List.nodup_nil⟩

/-- A fragment lies in its block, as a range. -/
theorem BlockWf.inside (hb : BlockWf a blk fragMap) (hf : fragMap.find? k = some f) :
    Inside (k, f.size) (blk, extent fragMap) := by
  have hin := hb.tiles.piece_inside hf
  rwa [Nat.add_sub_cancel_left] at hin

/-- Two live allocations at different pointers are apart: in one block the
tiling keeps them apart, in two blocks the blocks are. -/
theorem Wf.live_apart (hw : Wf a Out h) {p q : Nat × Nat} (hp : Holds h.blockList p)
    (hq : Holds h.blockList q) (hne : p.1 ≠ q.1) : Apart p q := by
  obtain ⟨b₁, m₁, f₁, h₁, hf₁, -, hs₁⟩ := hp
  obtain ⟨b₂, m₂, f₂, h₂, hf₂, -, hs₂⟩ := hq
  by_cases hbb : b₁ = b₂
  · subst hbb
    rw [h₁] at h₂
    cases h₂
    have hap := (hw.blocks b₁ m₁ h₁).tiles.apart hf₁ hf₂ hne
    rwa [hs₁, hs₂] at hap
  · have hin₁ := (hw.blocks b₁ m₁ h₁).inside hf₁
    have hin₂ := (hw.blocks b₂ m₂ h₂).inside hf₂
    rw [hs₁] at hin₁
    rw [hs₂] at hin₂
    exact (hw.apart b₁ m₁ b₂ m₂ h₁ h₂ hbb).mono hin₁ hin₂

/-- What the layout says of the live allocations. -/
theorem Wf.live_in_block (hw : Wf a Out h) (ht : Tracks h live) {p : Nat × Nat} (hp : p ∈ live) :
    ∃ blk fragMap, h.blockList.find? blk = some fragMap ∧ Inside p (blk, extent fragMap) ∧
      Out h.blockAllocator (blk, extent fragMap) ∧ ∀ b ∈ h.blockCache, Apart p b.range := by
  obtain ⟨blk, m, f, hb, hf, -, hsize⟩ := ht.holds p hp
  have hin := (hw.blocks blk m hb).inside hf
  rw [hsize] at hin
  exact ⟨blk, m, hb, hin, hw.outBlocks blk m hb,
    fun b hc => (hw.apartCache blk m hb b hc).mono hin ⟨Nat.le_refl _, Nat.le_refl _⟩⟩

variable (hbs : 0 < a.blockSize)
include hbs

/-- `free` of a live allocation returns `true`: it finds the block and the
fragment in use at the pointer, and every path past those checks returns
`true`. -/
theorem Wf.free_live (hw : Wf a Out h) (ht : Tracks h live) {p : Nat × Nat} (hp : p ∈ live) :
    (SimpleHeap.free a h p.1).2 = true := by
  obtain ⟨blk, m, f, hb, hf, hused, -⟩ := ht.holds p hp
  have hfloor := hw.floor_eq hbs hb hf
  unfold SimpleHeap.free
  split_ifs with hzero
  · rfl
  · simp only [hfloor, hb, Option.getD_some, hf, hused, Bool.false_eq_true, if_false]
    repeat' split
    all_goals rfl

end Live

/-! ## The counter of the cache -/

section CacheSize

variable {a} {h : Heap σ}

/-- `cache_size_` counts the bytes of the cached blocks. -/
def CacheCounted (h : Heap σ) : Prop := h.cacheSize = (h.blockCache.map Block.length).sum

/-- The loop of `balance()` keeps the count: each block it releases is
subtracted as it leaves the cache. -/
theorem balanceLoop_counted (s : σ) (inUse : Nat) (cache : List Block) (cs : Nat)
    (hc : cs = (cache.map Block.length).sum) :
    (balanceLoop a s inUse cache cs).2.2 = ((balanceLoop a s inUse cache cs).2.1.map Block.length).sum := by
  fun_induction balanceLoop a s inUse cache cs with
  | case1 s b c rest cs hgt ih =>
      apply ih
      simp only [List.map_cons, List.sum_cons] at hc ⊢
      omega
  | case2 => exact hc
  | case3 => exact hc

theorem CacheCounted.balance (hc : CacheCounted h) : CacheCounted (balance a h) :=
  balanceLoop_counted _ _ _ _ hc

theorem CacheCounted.discardBlock (hc : CacheCounted h) (ptr : Nat) :
    CacheCounted (SimpleHeap.discardBlock a h ptr).1 := by
  rcases discardBlock_cases (a := a) (h := h) ptr with heq | ⟨blk, fragMap, fragMap', -, -, heq⟩
  · rw [heq]
    exact hc
  · rw [heq]
    exact CacheCounted.balance hc

theorem CacheCounted.newBlock (hc : CacheCounted h) (bytes : Nat) :
    CacheCounted (SimpleHeap.newBlock a h bytes).1 := by
  unfold SimpleHeap.newBlock
  cases hlast : h.blockCache.getLast? with
  | some block =>
      dsimp only
      split_ifs
      · -- the last block leaves the cache and its length the counter
        obtain ⟨ys, hys⟩ := List.getLast?_eq_some_iff.mp hlast
        unfold CacheCounted at hc ⊢
        rw [hys, List.map_append, List.sum_append] at hc
        show h.cacheSize - block.length = (h.blockCache.dropLast.map Block.length).sum
        rw [hys, List.dropLast_concat]
        simp only [List.map_cons, List.map_nil, List.sum_cons, List.sum_nil] at hc
        omega
      · exact hc
  | none => exact hc

theorem CacheCounted.alloc (hc : CacheCounted h) (bytes : Nat) :
    CacheCounted (SimpleHeap.alloc a h bytes).1 := by
  cases hlb : h.freeList.lowerBound bytes with
  | some i =>
      rw [alloc_of_lowerBound_some hlb]
      exact hc
  | none =>
      rw [alloc_of_lowerBound_none hlb]
      have hplace : CacheCounted (placeBlock (SimpleHeap.newBlock a h bytes).1
          (SimpleHeap.newBlock a h bytes).2.1 (SimpleHeap.newBlock a h bytes).2.2 bytes) :=
        hc.newBlock bytes
      split_ifs
      · exact hplace.discardBlock _
      · exact hplace

end CacheSize

end SimpleHeap
