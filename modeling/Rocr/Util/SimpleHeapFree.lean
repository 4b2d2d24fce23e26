import Mathlib
import Rocr.Lib.Ranges
import Rocr.Util.SimpleHeapRun

/-!
# `free` of a `SimpleHeap`, and the runs of a heap

`free(ptr)` of a fragment in use merges it with the free fragment just below
it ("merge lower") and the one just above it ("merge upper"), taking their
nodes out of `free_list_`.  Then it releases or caches the block when the
merged fragment is all of it, leaves a discarded fragment unpublished, or
publishes the merged fragment in `free_list_`.  `Merged` is what both merges
keep: the block is tiled over the same range, the fragment at the merged key is
the one being freed or a free one without a node, every node designates a
fragment, and every other allocation is still held.  Each of the three endings
then keeps the layout and the other allocations (`Wf.free`), and a block moved
to the cache adds its length to `cache_size_` (`CacheCounted.free`).

The runs (`Reachable`) are those of `alloc` of a positive size, `free` of an
allocation the callers hold, `discardBlock` and `trim`.  Every heap reachable
from one with the layout and the ledger has them (`Reachable.inv`).  There the
live allocations are pairwise apart inside blocks the block allocator holds
(`reachable_live_apart`), `free` of each returns `true`
(`reachable_free_live`), and `cache_size_` counts the cached bytes
(`reachable_cacheSize`).
-/

namespace SimpleHeap

open Ranges

variable {σ : Type} (a : Allocator σ)

/-! ## The two merges -/

section Merge

variable {a} {Out : σ → Nat × Nat → Prop} {h : Heap σ} {blk ptr key : Nat}
  {m₀ m m' : OrdMap Nat Fragment} {f g : Fragment} {fl : MultiMap Nat Nat}
  {bl : OrdMap Nat (OrdMap Nat Fragment)} {n : MultiMap.Node Nat Nat} {q : Nat × Nat}

/-- "Merge lower" does nothing, or absorbs the free fragment at the greatest
offset below `ptr`, whose node leaves the free list. -/
theorem mergeLower_cases (fl : MultiMap Nat Nat) (m : OrdMap Nat Fragment) (ptr : Nat)
    (f : Fragment) :
    mergeLower fl m ptr f = (fl, m, ptr) ∨
      ∃ lowKey lower, m.below ptr = some lowKey ∧ m.find? lowKey = some lower ∧
        lower.free = true ∧ mergeLower fl m ptr f = ((removeFreeListEntry fl lower).1,
          (m.assign lowKey { lower with freeListEntry := none, size := lower.size + f.size }).erase
            ptr, lowKey) := by
  unfold mergeLower
  cases hb : m.below ptr with
  | none => exact Or.inl rfl
  | some lowKey =>
      obtain ⟨lower, hlower⟩ :=
        OrdMap.find?_of_mem_keys ((m.below_eq_some_iff ptr lowKey).mp hb).1
      simp only [hlower, Option.getD_some]
      by_cases hfree : lower.free = true
      · refine Or.inr ⟨lowKey, lower, rfl, hlower, hfree, ?_⟩
        have hsnd : (removeFreeListEntry fl lower).2 = { lower with freeListEntry := none } :=
          removeFreeListEntry_snd
        rcases hr : removeFreeListEntry fl lower with ⟨fl', lower'⟩
        rw [hr] at hsnd
        subst hsnd
        simp [hfree]
      · exact Or.inl (by simp [hfree])

/-- "Merge upper" does nothing, or absorbs the free fragment at the least
offset above `key`, whose node leaves the free list. -/
theorem mergeUpper_cases (fl : MultiMap Nat Nat) (m : OrdMap Nat Fragment) (key : Nat) :
    mergeUpper fl m key = (fl, m) ∨
      ∃ upKey upper, m.upperBound key = some upKey ∧ m.find? upKey = some upper ∧
        upper.free = true ∧ mergeUpper fl m key = ((removeFreeListEntry fl upper).1,
          (m.modify key fun g => { g with size := g.size + upper.size }).erase upKey) := by
  unfold mergeUpper
  cases hu : m.upperBound key with
  | none => exact Or.inl rfl
  | some upKey =>
      obtain ⟨upper, hupper⟩ :=
        OrdMap.find?_of_mem_keys ((m.upperBound_eq_some_iff key upKey).mp hu).1
      simp only [hupper, Option.getD_some]
      by_cases hfree : upper.free = true
      · refine Or.inr ⟨upKey, upper, rfl, hupper, hfree, ?_⟩
        have hsnd : (removeFreeListEntry fl upper).2 = { upper with freeListEntry := none } :=
          removeFreeListEntry_snd
        rcases hr : removeFreeListEntry fl upper with ⟨fl', upper'⟩
        rw [hr] at hsnd
        subst hsnd
        simp [hfree]
      · exact Or.inl (by simp [hfree])

/-- A node keeps designating its fragment when the map of its block is
replaced again by one that keeps that fragment. -/
theorem Designates.reassign (hd : Designates (bl.assign blk m) n)
    (hkeep : ∀ g, m.find? n.value = some g → g.free = true → g.freeListEntry = some n.id →
      m'.find? n.value = some g) :
    Designates (bl.assign blk m') n := by
  have hd' : Designates ((bl.assign blk m).assign blk m') n :=
    hd.assign fun m'' g hm'' hg hfree hentry => by
      rw [OrdMap.find?_assign, if_pos rfl, Option.some_inj] at hm''
      subst hm''
      exact hkeep g hg hfree hentry
  rwa [OrdMap.assign_assign] at hd'

/-- An allocation stays held when the map of its block is replaced again by
one that keeps its fragment. -/
theorem Holds.reassign (hq : Holds (bl.assign blk m) q)
    (hkeep : ∀ g, m.find? q.1 = some g → g.free = false → m'.find? q.1 = some g) :
    Holds (bl.assign blk m') q := by
  have hq' : Holds ((bl.assign blk m).assign blk m') q :=
    hq.assign fun m'' g hm'' hg hused => by
      rw [OrdMap.find?_assign, if_pos rfl, Option.some_inj] at hm''
      subst hm''
      exact ⟨g, hkeep g hg hused, hused, rfl⟩
  rwa [OrdMap.assign_assign] at hq'

/-- What the merges of `free(ptr)` keep, for the block at `blk` whose map was
`m₀`, with the free list `fl`, the map `m` and the merged key `key` so far:
the block is tiled over the same range with the same extent; the fragment at
`key` is the one being freed, in use, or a free one below it without a node;
the nodes of `fl` designate fragments of the block list with `m` in place;
and every other allocation is still held there. -/
structure Merged (h : Heap σ) (blk : Nat) (m₀ : OrdMap Nat Fragment) (ptr : Nat)
    (fl : MultiMap Nat Nat) (m : OrdMap Nat Fragment) (key : Nat) : Prop where
  tiles : Tiles Fragment.size m.find? blk (blk + extent m₀)
  extent_eq : extent m = extent m₀
  key_frag : ∃ g, m.find? key = some g ∧
    ((key = ptr ∧ g.free = false) ∨ (g.free = true ∧ g.freeListEntry = none))
  designates : ∀ n ∈ fl.nodes, Designates (h.blockList.assign blk m) n
  held : ∀ q, Holds h.blockList q → q.1 ≠ ptr → Holds (h.blockList.assign blk m) q

/-- The fragment at the merged key is neither designated by a node nor held by
another allocation. -/
theorem Merged.ne_key (hm : Merged h blk m₀ ptr fl m key) {j : Nat}
    (hg : m.find? j = some g)
    (hj : (g.free = true ∧ g.freeListEntry ≠ none) ∨ (g.free = false ∧ j ≠ ptr)) :
    j ≠ key := by
  intro hjk
  obtain ⟨g', hg', hcase⟩ := hm.key_frag
  rw [← hjk, hg, Option.some_inj] at hg'
  subst hg'
  rcases hcase with ⟨hkp, hused⟩ | ⟨hfree, hnone⟩
  · rcases hj with ⟨hfree, -⟩ | ⟨-, hne⟩
    · rw [hused] at hfree
      cases hfree
    · exact hne (hjk.trans hkp)
  · rcases hj with ⟨-, hsome⟩ | ⟨hused, -⟩
    · exact hsome hnone
    · rw [hfree] at hused
      cases hused

/-- A merge that absorbs the free fragment `r` at `kr`, taking its node out of
the free list, and keeps every other fragment but the one at the merged key,
keeps the nodes designating and the other allocations held. -/
theorem Merged.keep (hm : Merged h blk m₀ ptr fl m key) {kr : Nat} {r : Fragment}
    (hr : m.find? kr = some r) (hrfree : r.free = true)
    (hkeep : ∀ j, j ≠ key → j ≠ kr → m'.find? j = m.find? j) :
    (∀ n ∈ (removeFreeListEntry fl r).1.nodes, Designates (h.blockList.assign blk m') n) ∧
      ∀ q, Holds h.blockList q → q.1 ≠ ptr → Holds (h.blockList.assign blk m') q := by
  constructor
  · intro n hn
    obtain ⟨hn, hid⟩ := mem_removeFreeListEntry.mp hn
    refine (hm.designates n hn).reassign fun g hg hgfree hentry => ?_
    have hkey : n.value ≠ key := hm.ne_key hg (Or.inl ⟨hgfree, by simp [hentry]⟩)
    -- the absorbed fragment's node is the one taken out
    have hkr : n.value ≠ kr := by
      intro heq
      rw [heq, hr, Option.some_inj] at hg
      subst hg
      exact hid hentry
    rw [hkeep _ hkey hkr, hg]
  · intro q hq hne
    refine (hm.held q hq hne).reassign fun g hg hused => ?_
    have hkey : q.1 ≠ key := hm.ne_key hg (Or.inr ⟨hused, hne⟩)
    -- the absorbed fragment is free, so no allocation holds it
    have hkr : q.1 ≠ kr := by
      intro heq
      rw [heq, hr, Option.some_inj] at hg
      subst hg
      rw [hrfree] at hused
      cases hused
    rw [hkeep _ hkey hkr, hg]

/-- Before the merges: the fragment at `ptr` is in use. -/
theorem Merged.start (hw : Wf a Out h) (hblk : h.blockList.find? blk = some m₀)
    (hf : m₀.find? ptr = some f) (hused : f.free = false) :
    Merged h blk m₀ ptr h.freeList m₀ ptr where
  tiles := (hw.blocks blk m₀ hblk).tiles
  extent_eq := rfl
  key_frag := ⟨f, hf, Or.inl ⟨rfl, hused⟩⟩
  designates n hn := by
    rw [OrdMap.assign_of_find? hblk]
    exact hw.freeList n hn
  held q hq _ := by
    rw [OrdMap.assign_of_find? hblk]
    exact hq

/-- "Merge lower" keeps what the merges keep. -/
theorem Merged.lower (hm : Merged h blk m₀ ptr fl m ptr) (hf : m.find? ptr = some f) :
    Merged h blk m₀ ptr (mergeLower fl m ptr f).1 (mergeLower fl m ptr f).2.1
      (mergeLower fl m ptr f).2.2 := by
  rcases mergeLower_cases fl m ptr f with heq | ⟨lowKey, lower, hb, hlower, hfree, heq⟩
  · rw [heq]
    exact hm
  rw [heq]
  dsimp only
  -- the free fragment below `ptr` ends where the freed one starts
  have hend : lowKey + lower.size = ptr := hm.tiles.below_end (by rw [hf]; rfl) hb hlower
  have hpos := hm.tiles.pos lowKey lower hlower
  have hfind : ∀ j, ((m.assign lowKey
      { lower with freeListEntry := none, size := lower.size + f.size }).erase ptr).find? j =
      if j = lowKey then some { lower with freeListEntry := none, size := lower.size + f.size }
      else if j = lowKey + lower.size then none else m.find? j := by
    intro j
    rw [OrdMap.find?_erase, OrdMap.find?_assign, hend]
    split_ifs <;> first | rfl | omega
  have hkept := hm.keep hlower hfree fun j hj hlow => by
    rw [hfind, if_neg hlow, if_neg (by omega)]
  refine ⟨hm.tiles.merge hlower (by rw [hend]; exact hf) rfl hfind, ?_,
    ⟨_, (hfind lowKey).trans (if_pos rfl), Or.inr ⟨hfree, rfl⟩⟩, hkept.1, hkept.2⟩
  -- the merged fragment has the bytes of both
  have hne : ptr ≠ lowKey := by omega
  have h₁ : extent ((m.assign lowKey
      { lower with freeListEntry := none, size := lower.size + f.size }).erase ptr) + f.size =
      extent (m.assign lowKey
        { lower with freeListEntry := none, size := lower.size + f.size }) :=
    OrdMap.sumBy_erase _ (by rw [OrdMap.find?_assign, if_neg hne]; exact hf)
  have h₂ : extent (m.assign lowKey
      { lower with freeListEntry := none, size := lower.size + f.size }) + lower.size =
      extent m + (lower.size + f.size) :=
    OrdMap.sumBy_assign_of_some _ _ hlower
  rw [← hm.extent_eq]
  omega

/-- "Merge upper" keeps what the merges keep. -/
theorem Merged.upper (hm : Merged h blk m₀ ptr fl m key) :
    Merged h blk m₀ ptr (mergeUpper fl m key).1 (mergeUpper fl m key).2 key := by
  rcases mergeUpper_cases fl m key with heq | ⟨upKey, upper, hu, hupper, hfree, heq⟩
  · rw [heq]
    exact hm
  rw [heq]
  dsimp only
  obtain ⟨g, hg, hcase⟩ := hm.key_frag
  -- the free fragment above the merged one starts where it ends
  have hup : upKey = key + g.size := hm.tiles.upperBound_eq hg hu
  have hpos := hm.tiles.pos key g hg
  have hfind : ∀ j, ((m.modify key fun x => { x with size := x.size + upper.size }).erase
      upKey).find? j =
      if j = key then some { g with size := g.size + upper.size }
      else if j = key + g.size then none else m.find? j := by
    intro j
    rw [OrdMap.find?_erase, OrdMap.find?_modify, hup, hg]
    split_ifs <;> first | rfl | omega
  have hkept := hm.keep hupper hfree fun j hkey hupk => by
    rw [hfind, if_neg hkey, if_neg (by omega)]
  refine ⟨hm.tiles.merge hg (by rw [← hup]; exact hupper) rfl hfind, ?_,
    ⟨_, (hfind key).trans (if_pos rfl), hcase⟩, hkept.1, hkept.2⟩
  -- the merged fragment has the bytes of both
  have hne : upKey ≠ key := by omega
  have h₁ : extent ((m.modify key fun x => { x with size := x.size + upper.size }).erase
      upKey) + upper.size =
      extent (m.modify key fun x => { x with size := x.size + upper.size }) :=
    OrdMap.sumBy_erase _ (by rw [OrdMap.find?_modify, if_neg hne]; exact hupper)
  have h₂ : extent (m.modify key fun x => { x with size := x.size + upper.size }) + g.size =
      extent m + (g.size + upper.size) :=
    OrdMap.sumBy_modify _ _ hg
  rw [← hm.extent_eq]
  omega

end Merge

/-! ## The endings of `free` -/

section Endings

variable {a} {Out : σ → Nat × Nat → Prop} {h : Heap σ} {blk ptr key : Nat}
  {m₀ m : OrdMap Nat Fragment} {g : Fragment} {fl : MultiMap Nat Nat}
  {n : MultiMap.Node Nat Nat} {q : Nat × Nat} {live : List (Nat × Nat)}

/-- A merged map of one entry is the whole block: its key is the block's base
and its size the block's extent. -/
theorem Merged.whole (hm : Merged h blk m₀ ptr fl m key) (hone : m.size = 1) :
    (∀ j, (m.find? j).isSome → j = key) ∧ key = blk ∧
      ((m.find? key).getD (makeFragment 0)).size = extent m₀ := by
  obtain ⟨g, hg, -⟩ := hm.key_frag
  have honly : ∀ j, (m.find? j).isSome → j = key := fun j hj =>
    OrdMap.eq_of_size_eq_one hone (OrdMap.mem_keys_of_find? hg) ((OrdMap.mem_keys_iff m j).mpr hj)
  obtain ⟨hkey, hend⟩ := hm.tiles.single hg honly
  rw [hg, Option.getD_some]
  exact ⟨honly, hkey, by omega⟩

/-- When the merged fragment is all of its block, no node designates a
fragment of the block. -/
theorem Merged.designates_erase (hm : Merged h blk m₀ ptr fl m key)
    (honly : ∀ j, (m.find? j).isSome → j = key) (hn : n ∈ fl.nodes) :
    Designates (h.blockList.erase blk) n := by
  obtain ⟨b, mb, g, hb, hg, hfree, hentry, hsize⟩ := hm.designates n hn
  have hbb : b ≠ blk := by
    rintro rfl
    rw [OrdMap.find?_assign, if_pos rfl, Option.some_inj] at hb
    subst hb
    exact hm.ne_key hg (Or.inl ⟨hfree, by simp [hentry]⟩) (honly _ (by rw [hg]; rfl))
  rw [OrdMap.find?_assign, if_neg hbb] at hb
  exact ⟨b, mb, g, by rw [OrdMap.find?_erase, if_neg hbb]; exact hb, hg, hfree, hentry, hsize⟩

/-- When the merged fragment is all of its block, no other allocation is in
the block. -/
theorem Merged.holds_erase (hm : Merged h blk m₀ ptr fl m key)
    (honly : ∀ j, (m.find? j).isSome → j = key) (hq : Holds (h.blockList.assign blk m) q)
    (hne : q.1 ≠ ptr) : Holds (h.blockList.erase blk) q := by
  obtain ⟨b, mb, g, hb, hg, hused, hsize⟩ := hq
  have hbb : b ≠ blk := by
    rintro rfl
    rw [OrdMap.find?_assign, if_pos rfl, Option.some_inj] at hb
    subst hb
    exact hm.ne_key hg (Or.inr ⟨hused, hne⟩) (honly _ (by rw [hg]; rfl))
  rw [OrdMap.find?_assign, if_neg hbb] at hb
  exact ⟨b, mb, g, by rw [OrdMap.find?_erase, if_neg hbb]; exact hb, hg, hused, hsize⟩

/-- Marking the merged fragment free leaves every other allocation held. -/
theorem Merged.held_modify (hm : Merged h blk m₀ ptr fl m key) (F : Fragment → Fragment)
    (hq : Holds (h.blockList.assign blk m) q) (hne : q.1 ≠ ptr) :
    Holds (h.blockList.assign blk (m.modify key F)) q :=
  hq.reassign fun g hg hused => by
    rw [OrdMap.find?_modify, if_neg (hm.ne_key hg (Or.inr ⟨hused, hne⟩)), hg]

/-- Publishing the merged fragment in `free_list_` keeps the layout: the new
node designates it, and no node did before. -/
theorem Merged.wf_publish (hw : Wf a Out h) (hblk : h.blockList.find? blk = some m₀)
    (hm : Merged h blk m₀ ptr fl m key) (hg : m.find? key = some g) :
    Wf a Out { h with
      freeList := (fl.insert g.size key).1
      blockList := h.blockList.assign blk (m.modify key (setFree · fl.nextId)) } := by
  have hfind : ∀ j, (m.modify key (setFree · fl.nextId)).find? j =
      if j = key then some (setFree g fl.nextId) else m.find? j := by
    intro j
    rw [OrdMap.find?_modify, hg]
    rfl
  refine hw.edit hblk (hm.tiles.congr fun j => ?_) ?_ fun n hn => ?_
  · -- marking a fragment free keeps its size
    rw [hfind]
    split_ifs with hj
    · rw [hj, hg]
      rfl
    · rfl
  · have hsum : extent (m.modify key (setFree · fl.nextId)) + g.size =
        extent m + (setFree g fl.nextId).size :=
      OrdMap.sumBy_modify _ _ hg
    rw [← hm.extent_eq]
    exact Nat.add_right_cancel hsum
  · rcases MultiMap.mem_insert.mp hn with rfl | hn
    · exact ⟨blk, _, setFree g fl.nextId, by rw [OrdMap.find?_assign, if_pos rfl],
        (hfind key).trans (if_pos rfl), rfl, rfl, rfl⟩
    · refine (hm.designates n hn).reassign fun g' hg' hfree hentry => ?_
      rw [hfind, if_neg (hm.ne_key hg' (Or.inl ⟨hfree, by simp [hentry]⟩)), hg']

/-- Dropping a block of `block_list_` into the cache keeps the layout, when no
node designates a fragment of it. -/
theorem Wf.cacheBlock (hw : Wf a Out h) (hblk : h.blockList.find? blk = some m₀)
    (hfl : ∀ n ∈ fl.nodes, Designates (h.blockList.erase blk) n) :
    Wf a Out { h with
      freeList := fl
      blockList := h.blockList.erase blk
      blockCache := h.blockCache ++ [⟨blk, extent m₀⟩] } := by
  have hfind : ∀ {b m}, (h.blockList.erase blk).find? b = some m →
      b ≠ blk ∧ h.blockList.find? b = some m := by
    intro b m hb
    rw [OrdMap.find?_erase] at hb
    split_ifs at hb with hbb
    exact ⟨hbb, hb⟩
  constructor
  · exact fun b m hb => hw.blocks b m (hfind hb).2
  · exact fun b₁ m₁ b₂ m₂ h₁ h₂ hne => hw.apart b₁ m₁ b₂ m₂ (hfind h₁).2 (hfind h₂).2 hne
  · intro c hc
    rcases List.mem_append.mp hc with hc | hc
    · exact hw.cached c hc
    · rw [List.mem_singleton.mp hc]
      exact (hw.blocks blk m₀ hblk).large
  · intro b m hb c hc
    rcases List.mem_append.mp hc with hc | hc
    · exact hw.apartCache b m (hfind hb).2 c hc
    · rw [List.mem_singleton.mp hc]
      exact hw.apart b m blk m₀ (hfind hb).2 hblk (hfind hb).1
  · -- the new cached block is apart from the old ones, as it was in `block_list_`
    rw [List.map_append, List.pairwise_append]
    refine ⟨hw.cachePairwise, List.pairwise_singleton _ _, ?_⟩
    intro r hr r' hr'
    obtain ⟨c, hc, rfl⟩ := List.mem_map.mp hr
    rw [List.map_singleton, List.mem_singleton] at hr'
    subst hr'
    exact (hw.apartCache blk m₀ hblk c hc).symm
  · exact fun b m hb => hw.outBlocks b m (hfind hb).2
  · intro c hc
    rcases List.mem_append.mp hc with hc | hc
    · exact hw.outCache c hc
    · rw [List.mem_singleton.mp hc]
      exact hw.outBlocks blk m₀ hblk
  · exact hfl

/-- The ledger without one of its allocations: the others are at other pointers. -/
theorem Tracks.erase (ht : Tracks h live) {p : Nat × Nat} (hp : p ∈ live) :
    Tracks h (live.erase p) ∧ ∀ q ∈ live.erase p, q.1 ≠ p.1 := by
  have hnd : live.Nodup := List.Nodup.of_map Prod.fst ht.nodup
  refine ⟨⟨fun q hq => ht.holds q (List.mem_of_mem_erase hq),
    ((List.erase_sublist).map Prod.fst).nodup ht.nodup⟩, fun q hq heq => ?_⟩
  obtain ⟨hqp, hq⟩ := hnd.mem_erase_iff.mp hq
  exact hqp (List.inj_on_of_nodup_map ht.nodup hq hp heq)

variable (hbs : 0 < a.blockSize) (hl : Lawful a.allocate a.release Out)
include hbs hl

/-- Dropping a block of `block_list_` and releasing it keeps the layout, when
no node designates a fragment of it. -/
theorem Wf.releaseBlock (hw : Wf a Out h) (hblk : h.blockList.find? blk = some m₀)
    (hfl : ∀ n ∈ fl.nodes, Designates (h.blockList.erase blk) n) :
    Wf a Out { h with
      freeList := fl
      blockList := h.blockList.erase blk
      blockAllocator := a.release h.blockAllocator blk (extent m₀) } := by
  have hfind : ∀ {b m}, (h.blockList.erase blk).find? b = some m →
      b ≠ blk ∧ h.blockList.find? b = some m := by
    intro b m hb
    rw [OrdMap.find?_erase] at hb
    split_ifs at hb with hbb
    exact ⟨hbb, hb⟩
  have hpos := hw.extent_pos hbs hblk
  constructor
  · exact fun b m hb => hw.blocks b m (hfind hb).2
  · exact fun b₁ m₁ b₂ m₂ h₁ h₂ hne => hw.apart b₁ m₁ b₂ m₂ (hfind h₁).2 (hfind h₂).2 hne
  · exact hw.cached
  · exact fun b m hb => hw.apartCache b m (hfind hb).2
  · exact hw.cachePairwise
  · intro b m hb
    refine hl.release_keep _ _ _ _ (hw.outBlocks b m (hfind hb).2) fun heq => ?_
    exact (hfind hb).1 (congrArg Prod.fst heq)
  · -- a cached block is apart from the released one, so it is another range
    intro c hc
    refine hl.release_keep _ _ _ _ (hw.outCache c hc) fun heq => ?_
    have hap := hw.apartCache blk m₀ hblk c hc
    rw [heq] at hap
    exact not_apart_self hpos hap
  · exact hfl

/-- `free` of an allocation the callers hold keeps the layout, and the heap
then agrees with the ledger without it. -/
theorem Wf.free (hw : Wf a Out h) (ht : Tracks h live) {p : Nat × Nat} (hp : p ∈ live) :
    Wf a Out (SimpleHeap.free a h p.1).1 ∧ Tracks (SimpleHeap.free a h p.1).1 (live.erase p) := by
  obtain ⟨blk, m₀, f, hblk, hf, hused, -⟩ := ht.holds p hp
  have hfloor := hw.floor_eq hbs hblk hf
  obtain ⟨hte, hne⟩ := ht.erase hp
  have hm := ((Merged.start hw hblk hf hused).lower hf).upper
  unfold SimpleHeap.free
  split_ifs with hzero
  · exact ⟨hw, hte⟩
  simp only [hfloor, hblk, Option.getD_some, hf, hused, Bool.false_eq_true, if_false]
  rcases hlow : mergeLower h.freeList m₀ p.1 f with ⟨fl₁, m₁, key⟩
  rw [hlow] at hm
  rcases hup : mergeUpper fl₁ m₁ key with ⟨fl₂, m₂⟩
  rw [hup] at hm
  dsimp only at hm ⊢
  -- the other allocations are held with the merged map in place
  have hheld : ∀ q ∈ live.erase p, Holds (h.blockList.assign blk m₂) q :=
    fun q hq => hm.held q (hte.holds q hq) (hne q hq)
  by_cases hone : m₂.size = 1
  · -- the merged fragment is the whole block: it is released or cached
    obtain ⟨honly, hkey, hsize⟩ := hm.whole hone
    have hfl := fun n (hn : n ∈ fl₂.nodes) => hm.designates_erase honly hn
    have hkept : ∀ q ∈ live.erase p, Holds (h.blockList.erase blk) q :=
      fun q hq => hm.holds_erase honly (hheld q hq) (hne q hq)
    rw [if_pos hone, hsize, hkey]
    split_ifs with hdisc
    · exact ⟨(hw.releaseBlock hbs hl hblk hfl).balance hbs hl, hkept, hte.nodup⟩
    · exact ⟨((hw.cacheBlock hblk hfl).counters _ _).balance hbs hl, hkept, hte.nodup⟩
  · rw [if_neg hone]
    split_ifs with hdisc
    · exact ⟨hw.edit hblk hm.tiles hm.extent_eq hm.designates, hheld, hte.nodup⟩
    · obtain ⟨g, hg, -⟩ := hm.key_frag
      rw [hg, Option.getD_some]
      exact ⟨hm.wf_publish hw hblk hg, fun q hq => hm.held_modify _ (hheld q hq) (hne q hq),
        hte.nodup⟩

end Endings

/-! ## The counter of the cache -/

section CacheSize

variable {a} {h : Heap σ}

/-- A block moved to the cache with its length added to `cache_size_` keeps the
count. -/
theorem CacheCounted.push (hc : CacheCounted h) {h' : Heap σ} {b : Block}
    (hcache : h'.blockCache = h.blockCache ++ [b]) (hsize : h'.cacheSize = h.cacheSize + b.length) :
    CacheCounted h' := by
  unfold CacheCounted at hc ⊢
  rw [hcache, hsize, hc, List.map_append, List.sum_append, List.map_singleton, List.sum_singleton]

/-- `free` keeps the count: the only block it caches adds its length. -/
theorem CacheCounted.free (hc : CacheCounted h) (ptr : Nat) :
    CacheCounted (SimpleHeap.free a h ptr).1 := by
  unfold SimpleHeap.free
  dsimp only
  repeat' split
  all_goals first
    | exact hc
    | exact CacheCounted.balance hc
    | exact CacheCounted.balance (hc.push (by rfl) (by rfl))

end CacheSize

/-! ## Runs -/

/-- The heaps, with the allocations their callers hold, reachable from a heap
`h₀` whose callers hold `live₀` through `alloc` of a positive size, `free` of
an allocation the callers hold, `discardBlock` and `trim`. -/
inductive Reachable (h₀ : Heap σ) (live₀ : List (Nat × Nat)) : Heap σ → List (Nat × Nat) → Prop where
  | start : Reachable h₀ live₀ h₀ live₀
  | alloc {h live} (bytes : Nat) (hr : Reachable h₀ live₀ h live) (hbytes : 0 < bytes) :
      Reachable h₀ live₀ (SimpleHeap.alloc a h bytes).1
        (((SimpleHeap.alloc a h bytes).2, bytes) :: live)
  | free {h live} (p : Nat × Nat) (hr : Reachable h₀ live₀ h live) (hp : p ∈ live) :
      Reachable h₀ live₀ (SimpleHeap.free a h p.1).1 (live.erase p)
  | discardBlock {h live} (ptr : Nat) (hr : Reachable h₀ live₀ h live) :
      Reachable h₀ live₀ (SimpleHeap.discardBlock a h ptr).1 live
  | trim {h live} (hr : Reachable h₀ live₀ h live) :
      Reachable h₀ live₀ (SimpleHeap.trim a h) live

section Runs

variable {a} {Out : σ → Nat × Nat → Prop} {h₀ h : Heap σ} {live₀ live : List (Nat × Nat)}

/-- Along any run of `alloc`, `free`, `discardBlock` and `trim`, `cache_size_`
is the sum of the lengths of the blocks in `block_cache_`. -/
theorem reachable_cacheSize (hc₀ : h₀.cacheSize = (h₀.blockCache.map Block.length).sum)
    (hr : Reachable a h₀ live₀ h live) :
    h.cacheSize = (h.blockCache.map Block.length).sum := by
  induction hr with
  | start => exact hc₀
  | alloc bytes _ _ ih => exact CacheCounted.alloc ih bytes
  | free p _ _ ih => exact CacheCounted.free ih p.1
  | discardBlock ptr _ ih => exact CacheCounted.discardBlock ih ptr
  | trim _ _ => rfl

/-- A cached block taken by `alloc` and freed again goes back to the cache,
and the counter follows it out and back. -/
theorem reachable_cacheSize_cached_block :
    let h₀ : Heap Nat := { SimpleHeap.init 0x100000000 with
      blockCache := [⟨0x200000000, 2097152⟩], cacheSize := 2097152 }
    let r₁ := SimpleHeap.alloc bumpAllocator h₀ 4096
    let r₂ := SimpleHeap.free bumpAllocator r₁.1 r₁.2
    h₀.cacheSize = (h₀.blockCache.map Block.length).sum ∧
      r₁.1.cacheSize = (r₁.1.blockCache.map Block.length).sum ∧ r₁.1.blockCache = [] ∧
      r₂.1.cacheSize = (r₂.1.blockCache.map Block.length).sum ∧
      r₂.1.blockCache = [⟨0x200000000, 2097152⟩] := by
  intro h₀ r₁ r₂
  have hc₀ : h₀.cacheSize = (h₀.blockCache.map Block.length).sum := by decide
  have hr₁ : Reachable bumpAllocator h₀ [] r₁.1 [(r₁.2, 4096)] := .alloc 4096 .start (by decide)
  have hr₂ : Reachable bumpAllocator h₀ [] r₂.1 ([(r₁.2, 4096)].erase (r₁.2, 4096)) :=
    .free (r₁.2, 4096) hr₁ List.mem_cons_self
  exact ⟨hc₀, reachable_cacheSize hc₀ hr₁, by decide +kernel, reachable_cacheSize hc₀ hr₂,
    by decide +kernel⟩

variable (hbs : 0 < a.blockSize) (hl : Lawful a.allocate a.release Out)
include hbs hl

/-- Every reachable heap has the layout and agrees with its callers' ledger. -/
theorem Reachable.inv (hw₀ : Wf a Out h₀) (ht₀ : Tracks h₀ live₀) (hr : Reachable a h₀ live₀ h live) :
    Wf a Out h ∧ Tracks h live := by
  induction hr with
  | start => exact ⟨hw₀, ht₀⟩
  | alloc bytes _ hbytes ih => exact ih.1.alloc hbs hl ih.2 hbytes
  | free p _ hp ih => exact ih.1.free hbs hl ih.2 hp
  | discardBlock ptr _ ih => exact ih.1.discardBlock hbs hl ih.2 ptr
  | trim _ ih => exact ⟨ih.1.trim hbs hl, ih.2.of_blockList rfl⟩

/-- Along any run of `alloc`, `free`, `discardBlock` and `trim`, the pointers
`alloc` returned and the callers still hold are pairwise different, each allocation lies in a block of
`block_list_` that the block allocator still holds out and is apart from every
cached block, and two allocations are apart. -/
theorem reachable_live_apart (hw₀ : Wf a Out h₀) (ht₀ : Tracks h₀ live₀)
    (hr : Reachable a h₀ live₀ h live) :
    (live.map Prod.fst).Nodup ∧
      (∀ p ∈ live, ∃ blk fragMap, h.blockList.find? blk = some fragMap ∧
        Inside p (blk, extent fragMap) ∧ Out h.blockAllocator (blk, extent fragMap) ∧
        ∀ b ∈ h.blockCache, Apart p b.range) ∧
      ∀ p ∈ live, ∀ q ∈ live, p.1 ≠ q.1 → Apart p q := by
  obtain ⟨hw, ht⟩ := hr.inv hbs hl hw₀ ht₀
  exact ⟨ht.nodup, fun p hp => hw.live_in_block ht hp,
    fun p hp q hq hne => hw.live_apart (ht.holds p hp) (ht.holds q hq) hne⟩

/-- Along any run of `alloc`, `free`, `discardBlock` and `trim`, `free` of an
allocation the callers hold returns `true`. -/
theorem reachable_free_live (hw₀ : Wf a Out h₀) (ht₀ : Tracks h₀ live₀)
    (hr : Reachable a h₀ live₀ h live) {p : Nat × Nat} (hp : p ∈ live) :
    (SimpleHeap.free a h p.1).2 = true := by
  obtain ⟨hw, ht⟩ := hr.inv hbs hl hw₀ ht₀
  exact hw.free_live hbs ht hp

end Runs

/-- The bump allocator keeps the contract, with every range below its cursor
outstanding. -/
theorem bumpAllocator_lawful :
    Lawful bumpAllocator.allocate bumpAllocator.release (fun s r => r.1 + r.2 ≤ s) where
  apart _ _ _ _ hr := Or.inr hr
  out_new _ _ := Nat.le_refl _
  out_keep _ _ _ hr := Nat.le_add_right_of_le hr
  release_keep _ _ _ _ hr _ := hr

theorem reachable_live_apart_after_free :
    let r₁ := SimpleHeap.alloc bumpAllocator (SimpleHeap.init 0x100000000) 4096
    let r₂ := SimpleHeap.alloc bumpAllocator r₁.1 8192
    let r₃ := SimpleHeap.free bumpAllocator r₂.1 r₁.2
    let r₄ := SimpleHeap.alloc bumpAllocator r₃.1 4096
    let live := (r₄.2, 4096) :: [(r₂.2, 8192), (r₁.2, 4096)].erase (r₁.2, 4096)
    0 < bumpAllocator.blockSize ∧ r₄.2 = r₁.2 ∧ (live.map Prod.fst).Nodup ∧
      (∀ p ∈ live, ∃ blk fragMap, r₄.1.blockList.find? blk = some fragMap ∧
        Inside p (blk, extent fragMap) ∧ r₄.1.blockAllocator ≥ blk + extent fragMap ∧
        ∀ b ∈ r₄.1.blockCache, Apart p b.range) ∧
      ∀ p ∈ live, ∀ q ∈ live, p.1 ≠ q.1 → Apart p q := by
  intro r₁ r₂ r₃ r₄ live
  -- the second `alloc` of 4096 bytes takes the fragment the `free` gave back
  have hr : Reachable bumpAllocator (SimpleHeap.init 0x100000000) [] r₄.1 live :=
    .alloc 4096 (.free (r₁.2, 4096) (.alloc 8192 (.alloc 4096 .start (by decide)) (by decide))
      (List.mem_cons_of_mem _ List.mem_cons_self)) (by decide)
  exact ⟨by decide, by decide +kernel,
    reachable_live_apart (by decide) bumpAllocator_lawful (Wf.init _) (Tracks.init _) hr⟩

theorem reachable_free_live_after_free :
    let r₁ := SimpleHeap.alloc bumpAllocator (SimpleHeap.init 0x100000000) 4096
    let r₂ := SimpleHeap.alloc bumpAllocator r₁.1 8192
    let r₃ := SimpleHeap.free bumpAllocator r₂.1 r₁.2
    let p := (r₂.2, 8192)
    0 < bumpAllocator.blockSize ∧ p ∈ [p, (r₁.2, 4096)].erase (r₁.2, 4096) ∧
      (SimpleHeap.free bumpAllocator r₃.1 p.1).2 = true := by
  intro r₁ r₂ r₃ p
  have hr : Reachable bumpAllocator (SimpleHeap.init 0x100000000) [] r₃.1
      ([p, (r₁.2, 4096)].erase (r₁.2, 4096)) :=
    .free (r₁.2, 4096) (.alloc 8192 (.alloc 4096 .start (by decide)) (by decide))
      (List.mem_cons_of_mem _ List.mem_cons_self)
  -- the two allocations differ in size, so the first is not the one freed
  have hp : p ∈ [p, (r₁.2, 4096)].erase (r₁.2, 4096) :=
    (List.mem_erase_of_ne fun heq => absurd (congrArg Prod.snd heq) (by decide)).mpr
      List.mem_cons_self
  exact ⟨by decide, hp, reachable_free_live (by decide) bumpAllocator_lawful (Wf.init _)
    (Tracks.init _) hr hp⟩

end SimpleHeap
