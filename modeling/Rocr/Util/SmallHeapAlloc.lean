import Rocr.Util.SmallHeapWf

/-!
# `alloc` and `alloc_high`

On a well-formed heap the walk of `alloc` along `next` is a first-fit search
over the free nodes in address order, and the walk of `alloc_high` along
`prior` a last-fit search (`alloc_eq`, `allocHigh_eq`): the fuel of
`memory.size()` steps always suffices, since each step moves to another key.

The node found is then split or handed out whole.  `alloc` splits low: it
inserts a free node at `c + bytes`, links it in after `c` and unlinks `c`;
`alloc_high` splits high: it shrinks `c` in place and creates a used node at
its top, outside the free list.  Either way the heap stays well formed, and
the lemmas `allocAt_effect` and `allocHighAt_effect` record what changed for
the allocation ledger of the run module.
-/

namespace SmallHeap

open Chain

namespace Heap

/-- Whether the node at `k` can serve a request of `bytes`. -/
def fits (h : Heap) (bytes k : Nat) : Bool := h.freeAt k && decide (bytes ≤ (h.get k).len)

/-- The first node at or above `c` that fits. -/
def firstFit (h : Heap) (bytes c : Nat) : Option Nat :=
  h.memory.keys.find? fun k => decide (c ≤ k) && h.fits bytes k

/-- The last node at or below `c` that fits. -/
def lastFit (h : Heap) (bytes c : Nat) : Option Nat :=
  h.memory.keys.reverse.find? fun k => decide (k ≤ c) && h.fits bytes k

section Search

variable {h : Heap} {bytes c g : Nat}

theorem freeAt_of_fits {k : Nat} (hk : h.fits bytes k = true) : h.freeAt k = true := by
  simp only [fits, Bool.and_eq_true] at hk
  exact hk.1

theorem firstFit_eq_some_iff :
    h.firstFit bytes c = some g ↔
      g ∈ h.memory.keys ∧ c ≤ g ∧ h.fits bytes g = true ∧
        ∀ k ∈ h.memory.keys, c ≤ k → h.fits bytes k = true → g ≤ k := by
  unfold firstFit
  rw [Ordered.find?_eq_some_iff (OrdMap.keys_ordered _)]
  simp only [Bool.and_eq_true, decide_eq_true_eq, and_assoc]
  constructor
  · rintro ⟨hg, hcg, hfg, hmin⟩
    exact ⟨hg, hcg, hfg, fun k hk hck hfk => hmin k hk ⟨hck, hfk⟩⟩
  · rintro ⟨hg, hcg, hfg, hmin⟩
    exact ⟨hg, hcg, hfg, fun k hk hck => hmin k hk hck.1 hck.2⟩

theorem lastFit_eq_some_iff :
    h.lastFit bytes c = some g ↔
      g ∈ h.memory.keys ∧ g ≤ c ∧ h.fits bytes g = true ∧
        ∀ k ∈ h.memory.keys, k ≤ c → h.fits bytes k = true → k ≤ g := by
  unfold lastFit
  rw [Ordered.find?_reverse_eq_some_iff (OrdMap.keys_ordered _)]
  simp only [Bool.and_eq_true, decide_eq_true_eq, and_assoc]
  constructor
  · rintro ⟨hg, hgc, hfg, hmax⟩
    exact ⟨hg, hgc, hfg, fun k hk hkc hfk => hmax k hk ⟨hkc, hfk⟩⟩
  · rintro ⟨hg, hgc, hfg, hmax⟩
    exact ⟨hg, hgc, hfg, fun k hk hkc => hmax k hk hkc.1 hkc.2⟩

variable (hl : h.Layout) (hL : h.Links) (hb : 0 < bytes)
include hl hL hb

omit hL in
/-- Neither guard fits a request, since both have length zero. -/
theorem fits_zero : h.fits bytes 0 = false := by
  simp [fits, hl.zero_len, Nat.not_le.mpr hb]

omit hL in
theorem fits_guardHigh : h.fits bytes guardHigh = false := by
  simp [fits, hl.guardHigh_len, Nat.not_le.mpr hb]

/-- The walk of `alloc` from a free node stops at the first node at or above
it that fits, given one step of fuel for every key at or above it. -/
theorem allocScan_eq :
    ∀ fuel c, h.FreeKey c → (h.memory.keys.filter fun k => decide (c ≤ k)).length ≤ fuel →
      h.allocScan bytes fuel (some c) =
        match h.firstFit bytes c with
        | some g => (h.allocAt bytes g, g)
        | none => (h, 0) := by
  have hQP : ∀ k ∈ h.memory.keys, h.fits bytes k = true → h.freeAt k = true :=
    fun _ _ hk => freeAt_of_fits hk
  intro fuel
  induction fuel with
  | zero =>
      intro c hc hfuel
      have hpos : 0 < (h.memory.keys.filter fun k => decide (c ≤ k)).length :=
        List.length_pos_of_mem (List.mem_filter.mpr ⟨hc.1, by simp⟩)
      omega
  | succ n ih =>
      intro c hc hfuel
      by_cases hcM : c = guardHigh
      · -- the upper guard ends the walk, and nothing at or above it fits
        subst hcM
        have hnone : h.firstFit bytes guardHigh = none := by
          unfold firstFit
          rw [List.find?_eq_none]
          intro k hk
          by_cases hkM : k = guardHigh
          · rw [hkM, fits_guardHigh hl hb]
            simp
          · simp [not_le.mpr (hl.lt_guardHigh hk hkM)]
        rw [hnone]
        simp [allocScan, islastfree, hL.next_hi]
      · obtain ⟨d, hd, hcd⟩ := hL.next_link c hc hcM
        by_cases hfit : bytes ≤ (h.get c).len
        · -- `c` itself fits
          have hfirst : h.firstFit bytes c = some c := by
            rw [firstFit_eq_some_iff]
            refine ⟨hc.1, le_rfl, ?_, fun k _ hck _ => hck⟩
            simp [fits, hc.2, hfit]
          rw [hfirst]
          simp [allocScan, islastfree, hd, hfit]
        · -- `c` is too small: the walk moves on to the next free node
          have hskip : h.firstFit bytes c = h.firstFit bytes d :=
            find?_ge_of_isSucc hcd hQP (by simp [fits, hfit])
          have hfuel' : (h.memory.keys.filter fun k => decide (d ≤ k)).length ≤ n := by
            have := length_filter_le_lt hc.1 hcd.lt
            omega
          rw [hskip, ← ih d hcd.2.1 hfuel']
          simp [allocScan, islastfree, hd, hfit]

/-- The walk of `alloc_high` from a free node stops at the last node at or
below it that fits. -/
theorem allocHighScan_eq :
    ∀ fuel c, h.FreeKey c → (h.memory.keys.filter fun k => decide (k ≤ c)).length ≤ fuel →
      h.allocHighScan bytes fuel (some c) =
        match h.lastFit bytes c with
        | some g => h.allocHighAt bytes g
        | none => (h, 0) := by
  have hQP : ∀ k ∈ h.memory.keys, h.fits bytes k = true → h.freeAt k = true :=
    fun _ _ hk => freeAt_of_fits hk
  intro fuel
  induction fuel with
  | zero =>
      intro c hc hfuel
      have hpos : 0 < (h.memory.keys.filter fun k => decide (k ≤ c)).length :=
        List.length_pos_of_mem (List.mem_filter.mpr ⟨hc.1, by simp⟩)
      omega
  | succ n ih =>
      intro c hc hfuel
      by_cases hc0 : c = 0
      · -- the guard at `0` ends the walk, and nothing at or below it fits
        subst hc0
        have hnone : h.lastFit bytes 0 = none := by
          unfold lastFit
          rw [List.find?_eq_none]
          intro k _
          by_cases hk0 : k = 0
          · rw [hk0, fits_zero hl hb]
            simp
          · simp [hk0]
        rw [hnone]
        simp [allocHighScan, isfirstfree, hL.prior_lo]
      · obtain ⟨d, hd, hdc⟩ := hL.prior_link c hc hc0
        by_cases hfit : bytes ≤ (h.get c).len
        · have hlast : h.lastFit bytes c = some c := by
            rw [lastFit_eq_some_iff]
            refine ⟨hc.1, le_rfl, ?_, fun k _ hkc _ => hkc⟩
            simp [fits, hc.2, hfit]
          rw [hlast]
          simp [allocHighScan, isfirstfree, hd, hfit]
        · have hskip : h.lastFit bytes c = h.lastFit bytes d :=
            find?_reverse_le_of_isSucc hdc hQP (by simp [fits, hfit])
          have hfuel' : (h.memory.keys.filter fun k => decide (k ≤ d)).length ≤ n := by
            have := length_filter_ge_lt hc.1 hdc.lt
            omega
          rw [hskip, ← ih d hdc.1 hfuel']
          simp [allocHighScan, isfirstfree, hd, hfit]

end Search

/-- **`alloc` is first fit**: on a well-formed heap it serves a request from
the free node of lowest address that is large enough, and fails when there
is none. -/
theorem alloc_eq {h : Heap} (hl : h.Layout) (hL : h.Links) (bytes : Nat) :
    h.alloc bytes =
      if bytes > h.totalFree ∨ bytes = 0 then (h, 0)
      else
        match h.firstFit bytes 0 with
        | some g => (h.allocAt bytes g, g)
        | none => (h, 0) := by
  unfold alloc
  split_ifs with hreq
  · rfl
  have hb : 0 < bytes := Nat.pos_of_ne_zero (not_or.mp hreq).2
  obtain ⟨f, hf, h0f⟩ := hL.next_link 0 hL.lo_mem (by decide)
  have hfirst : h.firstfree = some f := by
    simp [firstfree, hl.begin_eq, hf]
  have hfuel : (h.memory.keys.filter fun k => decide (f ≤ k)).length ≤ h.memory.size := by
    have hlen : h.memory.keys.length = h.memory.size := List.length_map _
    exact hlen ▸ List.length_filter_le _ _
  have hskip : h.firstFit bytes 0 = h.firstFit bytes f :=
    find?_ge_of_isSucc h0f (fun _ _ hk => freeAt_of_fits hk) (fits_zero hl hb)
  rw [hfirst, allocScan_eq hl hL hb _ f h0f.2.1 hfuel, hskip]

/-- **`alloc_high` is last fit**: it serves a request from the free node of
highest address that is large enough. -/
theorem allocHigh_eq {h : Heap} (hl : h.Layout) (hL : h.Links) (bytes : Nat) :
    h.allocHigh bytes =
      if bytes > h.totalFree ∨ bytes = 0 then (h, 0)
      else
        match h.lastFit bytes guardHigh with
        | some g => h.allocHighAt bytes g
        | none => (h, 0) := by
  unfold allocHigh
  split_ifs with hreq
  · rfl
  have hb : 0 < bytes := Nat.pos_of_ne_zero (not_or.mp hreq).2
  obtain ⟨e, he, heM⟩ := hL.prior_link guardHigh hL.hi_mem (by decide)
  have hlast : h.lastfree = some e := by
    simp [lastfree, hl.last?_eq, he]
  have hfuel : (h.memory.keys.filter fun k => decide (k ≤ e)).length ≤ h.memory.size := by
    have hlen : h.memory.keys.length = h.memory.size := List.length_map _
    exact hlen ▸ List.length_filter_le _ _
  have hskip : h.lastFit bytes guardHigh = h.lastFit bytes e :=
    find?_reverse_le_of_isSucc heM (fun _ _ hk => freeAt_of_fits hk) (fits_guardHigh hl hb)
  rw [hlast, allocHighScan_eq hl hL hb _ e heM.1 hfuel, hskip]

/-! ## Splitting low: the body of `alloc` -/

/-- The split branch of `alloc` up to `insertafter`: the node `memory[c +
bytes]` with the rest of `c`, and `c` cut down to `bytes`. -/
def splitMid (h : Heap) (bytes c : Nat) : Heap :=
  (h.upsertNode (c + bytes) fun n => { n with len := (h.get c).len - bytes }).setNode c
    fun n => { n with len := bytes }

/-- The split branch of `alloc`, before `remove(current)`: the new free node
linked in after `c`. -/
def splitLow (h : Heap) (bytes c : Nat) : Heap :=
  (h.splitMid bytes c).insertafter c (c + bytes)

theorem allocAt_of_lt {h : Heap} {bytes c : Nat} (hlt : bytes < (h.get c).len) :
    h.allocAt bytes c =
      (({ h with totalFree := h.totalFree - bytes } : Heap).splitLow bytes c).remove c := by
  simp only [allocAt, splitLow, splitMid, ne_eq, hlt.ne, not_false_eq_true, if_true]
  rfl

theorem allocAt_of_eq {h : Heap} {bytes c : Nat} (heq : bytes = (h.get c).len) :
    h.allocAt bytes c = ({ h with totalFree := h.totalFree - bytes } : Heap).remove c := by
  simp only [allocAt, heq, ne_eq, not_true_eq_false, if_false]

section SplitLow

variable {h : Heap} {bytes g q : Nat}

@[simp] theorem splitLow_pool : (h.splitLow bytes g).pool = h.pool := by
  simp [splitLow, splitMid]
@[simp] theorem splitLow_length : (h.splitLow bytes g).length = h.length := by
  simp [splitLow, splitMid]
@[simp] theorem splitLow_totalFree : (h.splitLow bytes g).totalFree = h.totalFree := by
  simp [splitLow, splitMid]
@[simp] theorem splitLow_high : (h.splitLow bytes g).high = h.high := by
  simp [splitLow, splitMid]

theorem mem_keys_splitMid (j : Nat) :
    j ∈ (h.splitMid bytes g).memory.keys ↔ j ∈ h.memory.keys ∨ j = g + bytes := by
  rw [splitMid, keys_setNode, mem_keys_upsertNode, or_comm]

theorem mem_keys_splitLow (j : Nat) :
    j ∈ (h.splitLow bytes g).memory.keys ↔ j ∈ h.memory.keys ∨ j = g + bytes := by
  rw [splitLow, keys_insertafter, mem_keys_splitMid]

theorem get_splitMid (hgK : g ∈ h.memory.keys) (hrK : g + bytes ∉ h.memory.keys)
    (hgr : g ≠ g + bytes) (j : Nat) :
    (h.splitMid bytes g).get j =
      if j = g then { h.get g with len := bytes }
      else if j = g + bytes then ⟨(h.get g).len - bytes, none, none⟩
      else h.get j := by
  rw [splitMid, get_setNode ((mem_keys_upsertNode _).mpr (Or.inr hgK)), get_upsertNode,
    get_upsertNode, if_neg hgr, get_of_not_mem hrK]
  rfl

variable (hl : h.Layout) (hL : h.Links) (hg : h.FreeKey g) (hgq : IsSucc h.FreeKey g q)
  (hb : 0 < bytes) (hlt : bytes < (h.get g).len)
include hl hL hg hgq hb hlt

omit hL in
theorem splitLow_facts :
    g ≠ 0 ∧ g ≠ guardHigh ∧ g + bytes ∉ h.memory.keys ∧ g + bytes < q := by
  obtain ⟨hg0, hgM⟩ := hl.ne_guards_of_len_pos (Nat.lt_trans hb hlt)
  have hend := hl.end_le_of_lt hg.1 hg0 hgM hgq.2.1.1 hgq.lt
  exact ⟨hg0, hgM, hl.not_mem_of_lt_end hg.1 hg0 hgM (by omega) (by omega), by omega⟩

omit hL in
/-- Cutting `c` and creating the rest keeps the free total. -/
theorem freeBytes_splitMid : (h.splitMid bytes g).freeBytes = h.freeBytes := by
  obtain ⟨_, _, hrK, _⟩ := splitLow_facts hl hg hgq hb hlt
  have hfg := (freeKey_iff.mp hg).2
  have hgr : g ≠ g + bytes := by omega
  have h1 := freeBytes_upsertNode hrK fun n => { n with len := (h.get g).len - bytes }
  have h2 := freeBytes_setNode (h := h.upsertNode (g + bytes) fun n =>
      { n with len := (h.get g).len - bytes })
    ((mem_keys_upsertNode _).mpr (Or.inr hg.1)) fun n => { n with len := bytes }
  rw [get_upsertNode, if_neg hgr] at h2
  have hrest : freeLen { Node.blank with len := (h.get g).len - bytes } =
      (h.get g).len - bytes := rfl
  have hcut : freeLen { h.get g with len := bytes } = bytes := freeLen_of_free hfg
  rw [hrest] at h1
  rw [hcut, freeLen_of_free hfg] at h2
  unfold splitMid
  omega

theorem splitLow_get (j : Nat) :
    (h.splitLow bytes g).get j =
      if j = q then { h.get q with prior := some (g + bytes) }
      else if j = g then { h.get g with len := bytes, next := some (g + bytes) }
      else if j = g + bytes then ⟨(h.get g).len - bytes, some q, some g⟩
      else h.get j := by
  obtain ⟨_, _, hrK, hrq⟩ := splitLow_facts hl hg hgq hb hlt
  have hgr : g ≠ g + bytes := by omega
  have hqg : q ≠ g := hgq.lt.ne'
  have hqr : q ≠ g + bytes := hrq.ne'
  have hmid := get_splitMid hg.1 hrK hgr
  have hnext : ((h.splitMid bytes g).get g).next = some q := by
    rw [hmid, if_pos rfl]
    exact hL.next_eq hgq
  have hkeys : ∀ j ∈ h.memory.keys, j ∈ (h.splitMid bytes g).memory.keys :=
    fun j hj => (mem_keys_splitMid j).mpr (Or.inl hj)
  rw [splitLow, get_insertafter hnext (hkeys g hg.1) ((mem_keys_splitMid _).mpr (Or.inr rfl))
    (hkeys q hgq.2.1.1) hgr hqr hqg]
  by_cases hjq : j = q
  · rw [if_pos hjq, if_pos hjq, hmid, if_neg hqg, if_neg hqr]
  rw [if_neg hjq, if_neg hjq]
  by_cases hjg : j = g
  · rw [if_pos hjg, if_pos hjg, hmid, if_pos rfl]
  rw [if_neg hjg, if_neg hjg]
  by_cases hjr : j = g + bytes
  · rw [if_pos hjr, if_pos hjr, hmid, if_neg hgr.symm, if_pos rfl]
  rw [if_neg hjr, if_neg hjr, hmid, if_neg hjg, if_neg hjr]

/-- After the split, `g` has `bytes` and the new node the rest of it. -/
theorem splitLow_len (j : Nat) :
    ((h.splitLow bytes g).get j).len =
      if j = g then bytes else if j = g + bytes then (h.get g).len - bytes else (h.get j).len := by
  obtain ⟨_, _, _, hrq⟩ := splitLow_facts hl hg hgq hb hlt
  rw [splitLow_get hl hL hg hgq hb hlt]
  by_cases hjq : j = q
  · subst hjq
    rw [if_pos rfl, if_neg hgq.lt.ne', if_neg hrq.ne']
  · rw [if_neg hjq]
    split_ifs <;> rfl

theorem freeKey_splitLow (y : Nat) :
    (h.splitLow bytes g).FreeKey y ↔ h.FreeKey y ∨ y = g + bytes := by
  rw [freeKey_iff, freeKey_iff, mem_keys_splitLow, splitLow_get hl hL hg hgq hb hlt]
  by_cases hyq : y = q
  · subst hyq
    have hfree := freeKey_iff.mp hgq.2.1
    simp [hfree.1, hfree.2]
  rw [if_neg hyq]
  by_cases hyg : y = g
  · subst hyg
    have hfree := freeKey_iff.mp hg
    simp [hfree.1, hfree.2, hb.ne']
  rw [if_neg hyg]
  by_cases hyr : y = g + bytes
  · subst hyr
    simp [succ_ne_zero hgq]
  · rw [if_neg hyr]
    simp [hyr]

theorem links_splitLow : (h.splitLow bytes g).Links := by
  obtain ⟨_, _, hrK, hrq⟩ := splitLow_facts hl hg hgq hb hlt
  have hgr : g < g + bytes := by omega
  have hget := splitLow_get hl hL hg hgq hb hlt
  refine links_of_link hL hgq hgr hrq (freeKey_splitLow hl hL hg hgq hb hlt) ?_ ?_ ?_ ?_ ?_ ?_
  · rw [hget, if_neg hgq.lt.ne, if_pos rfl]
  · rw [hget, if_neg hrq.ne, if_neg hgr.ne', if_pos rfl]
  · rw [hget, if_neg hrq.ne, if_neg hgr.ne', if_pos rfl]
  · rw [hget, if_pos rfl]
  · intro y hy hyg
    have hyr : y ≠ g + bytes := fun hyr => hrK (hyr ▸ hy.1)
    rw [hget, if_neg hyg, if_neg hyr]
    by_cases hyq : y = q
    · rw [if_pos hyq, hyq]
    · rw [if_neg hyq]
  · intro y hy hyq
    have hyr : y ≠ g + bytes := fun hyr => hrK (hyr ▸ hy.1)
    rw [hget, if_neg hyq, if_neg hyr]
    by_cases hyg : y = g
    · rw [if_pos hyg, hyg]
    · rw [if_neg hyg]

theorem layout_splitLow : (h.splitLow bytes g).Layout := by
  obtain ⟨hg0, hgM, hrK, hrq⟩ := splitLow_facts hl hg hgq hb hlt
  have hget := splitLow_get hl hL hg hgq hb hlt
  have hgr : g ≠ g + bytes := by omega
  refine hl.split hg.1 hg0 hgM (m := g + bytes) (by omega) (by omega) splitLow_pool splitLow_length
    mem_keys_splitLow ?_ ?_ ?_
  · rw [hget, if_neg hgq.lt.ne, if_pos rfl]
    dsimp only
    omega
  · rw [hget, if_neg hrq.ne, if_neg hgr.symm, if_pos rfl]
    dsimp only
    omega
  · intro k hk hkg
    have hkr : k ≠ g + bytes := fun hkr => hrK (hkr ▸ hk)
    rw [hget, if_neg hkg, if_neg hkr]
    by_cases hkq : k = q
    · rw [if_pos hkq, hkq]
    · rw [if_neg hkq]

/-- Linking the new node in changes no free length either. -/
theorem freeBytes_splitLow : (h.splitLow bytes g).freeBytes = h.freeBytes := by
  obtain ⟨_, _, hrK, hrq⟩ := splitLow_facts hl hg hgq hb hlt
  have hfg := (freeKey_iff.mp hg).2
  have hgr : g ≠ g + bytes := by omega
  have hr0 : some (g + bytes) ≠ some 0 := by simpa using (by omega : g + bytes ≠ 0)
  have hq0 : some q ≠ some 0 := by simpa using succ_ne_zero hgq
  have hmid := get_splitMid hg.1 hrK hgr
  have hnext : ((h.splitMid bytes g).get g).next = some q := by
    rw [hmid, if_pos rfl]
    exact hL.next_eq hgq
  have hrM : g + bytes ∈ (h.splitMid bytes g).memory.keys := (mem_keys_splitMid _).mpr (Or.inr rfl)
  have h1 := freeBytes_setNode_of_freeLen hrM
    (f := fun n => { n with next := some q, prior := some g })
    (by rw [hmid, if_neg hgr.symm, if_pos rfl]; simp [freeLen, hq0])
  have h2 := freeBytes_setNode_of_freeLen
    (h := (h.splitMid bytes g).setNode (g + bytes) fun n => { n with next := some q, prior := some g })
    (by simpa using (mem_keys_splitMid g).mpr (Or.inl hg.1)) (f := fun n => { n with next := some (g + bytes) })
    (by rw [get_setNode_of_ne hgr, hmid, if_pos rfl]; exact freeLen_with_next hfg hr0)
  have h3 := freeBytes_setNode_of_freeLen
    (h := ((h.splitMid bytes g).setNode (g + bytes) fun n =>
      { n with next := some q, prior := some g }).setNode g fun n => { n with next := some (g + bytes) })
    (by simpa using (mem_keys_splitMid q).mpr (Or.inl hgq.2.1.1))
    (f := fun n => { n with prior := some (g + bytes) }) (freeLen_with_prior _ _)
  rw [splitLow, insertafter_eq hnext, h3, h2, h1, freeBytes_splitMid hl hg hgq hb hlt]

end SplitLow

/-! ## The effect of an allocation -/

/-- What handing out the node at `p` does to the node map: the heap stays
well formed apart from `total_free`, no key is lost, `p` becomes used, the
other used nodes stay as they were, and the free total loses the length of
`p`. -/
structure Carved (h h' : Heap) (p : Nat) : Prop where
  layout : h'.Layout
  links : h'.Links
  apart : h'.Apart
  pool : h'.pool = h.pool
  length : h'.length = h.length
  totalFree : h'.totalFree = h.totalFree
  high : h'.high = h.high
  keys_mono : ∀ k ∈ h.memory.keys, k ∈ h'.memory.keys
  mem_p : p ∈ h'.memory.keys
  free_p : p ∈ h.memory.keys → h.FreeKey p
  used_iff : ∀ k ∈ h'.memory.keys,
    h'.freeAt k = false ↔ k = p ∨ (k ∈ h.memory.keys ∧ h.freeAt k = false)
  used_len : ∀ k ∈ h.memory.keys, h.freeAt k = false → (h'.get k).len = (h.get k).len
  freeBytes : h'.freeBytes + (h'.get p).len = h.freeBytes

/-- `h'` is `h` with the node at `p` of `bytes` handed out and `bytes` taken
off `total_free`. -/
structure Allocated (h h' : Heap) (p bytes : Nat) : Prop where
  wf : h'.Wf
  pool : h'.pool = h.pool
  length : h'.length = h.length
  totalFree : h'.totalFree + bytes = h.totalFree
  keys_mono : ∀ k ∈ h.memory.keys, k ∈ h'.memory.keys
  mem_p : p ∈ h'.memory.keys
  len_p : (h'.get p).len = bytes
  free_p : p ∈ h.memory.keys → h.FreeKey p
  used_iff : ∀ k ∈ h'.memory.keys,
    h'.freeAt k = false ↔ k = p ∨ (k ∈ h.memory.keys ∧ h.freeAt k = false)
  used_len : ∀ k ∈ h.memory.keys, h.freeAt k = false → (h'.get k).len = (h.get k).len

/-- Carving a node of `bytes` out of a heap that already counts `bytes` less
in `total_free` is an allocation. -/
theorem Carved.allocated {h h0 h' : Heap} {p bytes : Nat} (hc : Carved h0 h' p) (hw : h.Wf)
    (hm : h0.memory = h.memory) (hpool : h0.pool = h.pool) (hlength : h0.length = h.length)
    (htf : h0.totalFree = h.totalFree - bytes) (hlen : (h'.get p).len = bytes) :
    Allocated h h' p bytes := by
  have hkeys : h0.memory.keys = h.memory.keys := by rw [hm]
  have hbytes := hc.freeBytes
  rw [hlen, freeBytes_of_memory_eq hm] at hbytes
  have htot := hw.total
  -- the bytes handed out were free, so `total_free` does not wrap
  have htf' : h'.totalFree + bytes = h.totalFree := by
    rw [hc.totalFree, htf]
    omega
  refine ⟨⟨hc.layout, hc.links, hc.apart, by omega⟩, hc.pool.trans hpool,
    hc.length.trans hlength, htf', fun k hk => hc.keys_mono k (hkeys ▸ hk), hc.mem_p, hlen,
    fun hp => (freeKey_of_memory_eq hm p).mp (hc.free_p (hkeys ▸ hp)), ?_, ?_⟩
  · intro k hk
    rw [hc.used_iff k hk, hkeys, freeAt_of_memory_eq hm]
  · intro k hk hku
    rw [hc.used_len k (hkeys ▸ hk) (by rw [freeAt_of_memory_eq hm]; exact hku),
      get_of_memory_eq hm]

section Carve

variable {h : Heap} {bytes g p q : Nat} (hl : h.Layout) (hL : h.Links) (ha : h.Apart)
  (hpg : IsSucc h.FreeKey p g) (hgq : IsSucc h.FreeKey g q)
include hl hL ha hpg hgq

/-- Unlinking a whole free node. -/
theorem carved_remove : Carved h (h.remove g) g := by
  have hF := freeKey_remove hl hL hpg hgq
  have hkeys := keys_remove (h := h) g
  have hlen := remove_len hl hL hpg hgq
  refine ⟨layout_remove hl hL hpg hgq, links_remove hl hL hpg hgq,
    ha.of_subset (fun y hy => ((hF y).mp hy).1) (fun y _ => hlen y), remove_pool, remove_length,
    remove_totalFree, remove_high, fun k hk => hkeys ▸ hk, hkeys ▸ hpg.2.1.1, fun _ => hpg.2.1,
    ?_, fun k _ _ => hlen k, ?_⟩
  · intro k hk
    rw [hkeys] at hk
    rw [freeAt_eq_false_iff_not (hkeys ▸ hk), freeAt_eq_false_iff_not hk, hF]
    by_cases hkg : k = g
    · simp [hkg]
    · simp [hkg, hk]
  · rw [hlen]
    exact freeBytes_remove hl hL hpg hgq

/-- Splitting a free node and unlinking its lower part, of `bytes`. -/
theorem carved_splitLow (hb : 0 < bytes) (hlt : bytes < (h.get g).len) :
    Carved h ((h.splitLow bytes g).remove g) g ∧
      (((h.splitLow bytes g).remove g).get g).len = bytes := by
  have hg : h.FreeKey g := hpg.2.1
  obtain ⟨hg0, hgM, hrK, hrq⟩ := splitLow_facts hl hg hgq hb hlt
  have hgr : g < g + bytes := by omega
  -- the split heap, before `remove(current)`
  have hlS := layout_splitLow hl hL hg hgq hb hlt
  have hLS := links_splitLow hl hL hg hgq hb hlt
  have hFS := freeKey_splitLow hl hL hg hgq hb hlt
  have hgetS := splitLow_get hl hL hg hgq hb hlt
  have hpgS : IsSucc (h.splitLow bytes g).FreeKey p g :=
    (hpg.insert_of_ne hgq hgr hrq hpg.lt.ne).congr fun y => (hFS y).symm
  have hgrS : IsSucc (h.splitLow bytes g).FreeKey g (g + bytes) :=
    (isSucc_insert_left hgq hgr hrq).congr fun y => (hFS y).symm
  have hF := freeKey_remove hlS hLS hpgS hgrS
  have hkeys := keys_remove (h := h.splitLow bytes g) g
  -- lengths after the split: `g` has `bytes`, the new node the rest
  have hlen : ∀ k, (((h.splitLow bytes g).remove g).get k).len =
      if k = g then bytes else if k = g + bytes then (h.get g).len - bytes else (h.get k).len := by
    intro k
    rw [remove_len hlS hLS hpgS hgrS, splitLow_len hl hL hg hgq hb hlt]
  have hmem : ∀ k, k ∈ ((h.splitLow bytes g).remove g).memory.keys ↔
      k ∈ h.memory.keys ∨ k = g + bytes := by
    intro k
    rw [hkeys]
    exact mem_keys_splitLow k
  have hFH : ∀ y, ((h.splitLow bytes g).remove g).FreeKey y ↔
      (h.FreeKey y ∨ y = g + bytes) ∧ y ≠ g := fun y =>
    (hF y).trans (and_congr_left fun _ => hFS y)
  refine ⟨⟨layout_remove hlS hLS hpgS hgrS, links_remove hlS hLS hpgS hgrS, ?_, by simp, by simp,
    by simp, by simp, fun k hk => (hmem k).mpr (Or.inl hk), (hmem g).mpr (Or.inl hg.1),
    fun _ => hg, ?_, ?_, ?_⟩, by rw [hlen, if_pos rfl]⟩
  · -- apartness: the new node ends where `g` ended, and nothing ends inside `g`
    intro a c ha' hc hac
    rw [hlen] at hac
    obtain ⟨ha'', hag⟩ := (hFH a).mp ha'
    obtain ⟨hc', hcg⟩ := (hFH c).mp hc
    rw [if_neg hag] at hac
    by_cases har : a = g + bytes
    · rw [if_pos har] at hac
      rcases hc' with hc' | hcr
      · exact absurd (ha g c hg hc' (by omega)) (Ne.symm hcg)
      · omega
    · rw [if_neg har] at hac
      rcases ha'' with ha'' | rfl
      · rcases hc' with hc' | rfl
        · exact ha a c ha'' hc' hac
        · exact absurd hac (hl.end_ne_of_inside ha''.1 hg.1 hg0 hgM hag (by omega) (by omega))
      · exact absurd rfl har
  · intro k hk
    rw [freeAt_eq_false_iff_not hk, hFH]
    rcases (hmem k).mp hk with hk' | rfl
    · rw [freeAt_eq_false_iff_not hk']
      by_cases hkg : k = g
      · simp [hkg]
      · have hkr : k ≠ g + bytes := fun hkr => hrK (hkr ▸ hk')
        simp [hkg, hkr, hk']
    · simp [hrK]
  · intro k hk hku
    have hkg : k ≠ g := by
      rintro rfl
      rw [hg.2] at hku
      exact Bool.noConfusion hku
    have hkr : k ≠ g + bytes := fun hkr => hrK (hkr ▸ hk)
    rw [hlen, if_neg hkg, if_neg hkr]
  · -- the free total loses exactly `bytes`
    have htot := freeBytes_remove hlS hLS hpgS hgrS
    rw [freeBytes_splitLow hl hL hg hgq hb hlt] at htot
    have hgS : ((h.splitLow bytes g).get g).len = bytes := by
      rw [hgetS, if_neg hgq.lt.ne, if_pos rfl]
    rw [hlen, if_pos rfl]
    rw [hgS] at htot
    exact htot

end Carve

/-- The body of `alloc` hands out the node it found, whole or split. -/
theorem allocated_allocAt {h : Heap} {bytes g : Nat} (hw : h.Wf) (hg : h.FreeKey g)
    (hb : 0 < bytes) (hfit : bytes ≤ (h.get g).len) : Allocated h (h.allocAt bytes g) g bytes := by
  obtain ⟨hg0, hgM⟩ := hw.layout.ne_guards_of_len_pos (Nat.lt_of_lt_of_le hb hfit)
  obtain ⟨p, -, hpg⟩ := hw.links.prior_link g hg hg0
  obtain ⟨q, -, hgq⟩ := hw.links.next_link g hg hgM
  -- the map is edited in a heap that already counts `bytes` less
  have hm : ({ h with totalFree := h.totalFree - bytes } : Heap).memory = h.memory := rfl
  have hl0 := hw.layout.of_memory_eq hm rfl rfl
  have hL0 := links_of_memory_eq hw.links hm
  have ha0 := hw.apart.of_memory_eq hm
  have hpg0 := hpg.congr fun y => (freeKey_of_memory_eq hm y).symm
  have hgq0 := hgq.congr fun y => (freeKey_of_memory_eq hm y).symm
  rcases lt_or_eq_of_le hfit with hlt | heq
  · rw [allocAt_of_lt hlt]
    have hlt0 : bytes < (({ h with totalFree := h.totalFree - bytes } : Heap).get g).len := by
      rwa [get_of_memory_eq hm]
    obtain ⟨hc, hlen⟩ := carved_splitLow hl0 hL0 ha0 hpg0 hgq0 hb hlt0
    exact hc.allocated hw hm rfl rfl rfl hlen
  · rw [allocAt_of_eq heq]
    have hc := carved_remove hl0 hL0 ha0 hpg0 hgq0
    refine hc.allocated hw hm rfl rfl rfl ?_
    rw [remove_get hl0 hL0 hpg0 hgq0, if_pos rfl, get_of_memory_eq hm]
    exact heq.symm

/-! ## Splitting high: the body of `alloc_high` -/

/-- The split branch of `alloc_high`: `c` keeps its lower part and the top
`bytes` of it become the used node `memory[c + len - bytes]`, which is never
linked into the free list. -/
def splitHigh (h : Heap) (bytes c : Nat) : Heap :=
  let p := c + (h.get c).len - bytes
  let h := (h.setNode c fun n => { n with len := n.len - bytes }).upsertNode p
    fun n => { n with len := bytes }
  h.setNode p fun n => { n with next := h.begin }

theorem allocHighAt_of_lt {h : Heap} {bytes c : Nat} (hlt : bytes < (h.get c).len) :
    h.allocHighAt bytes c =
      let h' := ({ h with totalFree := h.totalFree - bytes } : Heap).splitHigh bytes c
      ({ h' with high := h'.high.insert (c + (h.get c).len - bytes) () },
        c + (h.get c).len - bytes) := by
  simp only [allocHighAt, splitHigh, ne_eq, hlt.ne, not_false_eq_true, if_true]
  rfl

theorem allocHighAt_of_eq {h : Heap} {bytes c : Nat} (heq : bytes = (h.get c).len) :
    h.allocHighAt bytes c =
      let h' := ({ h with totalFree := h.totalFree - bytes } : Heap).remove c
      ({ h' with high := h'.high.insert c () }, c) := by
  simp only [allocHighAt, heq, ne_eq, not_true_eq_false, if_false]

section SplitHigh

variable {h : Heap} {bytes g : Nat}

@[simp] theorem splitHigh_pool : (h.splitHigh bytes g).pool = h.pool := rfl
@[simp] theorem splitHigh_length : (h.splitHigh bytes g).length = h.length := rfl
@[simp] theorem splitHigh_totalFree : (h.splitHigh bytes g).totalFree = h.totalFree := rfl
@[simp] theorem splitHigh_high : (h.splitHigh bytes g).high = h.high := rfl

theorem mem_keys_splitHigh (j : Nat) :
    j ∈ (h.splitHigh bytes g).memory.keys ↔
      j ∈ h.memory.keys ∨ j = g + (h.get g).len - bytes := by
  rw [splitHigh, keys_setNode, mem_keys_upsertNode, keys_setNode, or_comm]

variable (hl : h.Layout) (hg : h.FreeKey g) (hb : 0 < bytes) (hlt : bytes < (h.get g).len)
include hl hg hb hlt

theorem splitHigh_facts :
    g ≠ 0 ∧ g ≠ guardHigh ∧ g < g + (h.get g).len - bytes ∧
      g + (h.get g).len - bytes ∉ h.memory.keys := by
  obtain ⟨hg0, hgM⟩ := hl.ne_guards_of_len_pos (Nat.lt_trans hb hlt)
  exact ⟨hg0, hgM, by omega, hl.not_mem_of_lt_end hg.1 hg0 hgM (by omega) (by omega)⟩

theorem splitHigh_get (j : Nat) :
    (h.splitHigh bytes g).get j =
      if j = g then { h.get g with len := (h.get g).len - bytes }
      else if j = g + (h.get g).len - bytes then ⟨bytes, some 0, none⟩
      else h.get j := by
  obtain ⟨-, -, hgp, hpK⟩ := splitHigh_facts hl hg hb hlt
  have hpg : g + (h.get g).len - bytes ≠ g := hgp.ne'
  have hpU : g + (h.get g).len - bytes ∈ ((h.setNode g fun n => { n with len := n.len - bytes }).upsertNode
      (g + (h.get g).len - bytes) fun n => { n with len := bytes }).memory.keys :=
    (mem_keys_upsertNode _).mpr (Or.inl rfl)
  have h0U : 0 ∈ ((h.setNode g fun n => { n with len := n.len - bytes }).upsertNode
      (g + (h.get g).len - bytes) fun n => { n with len := bytes }).memory.keys :=
    (mem_keys_upsertNode _).mpr (Or.inr (by rw [keys_setNode]; exact hl.mem_zero))
  unfold splitHigh
  dsimp only
  rw [begin_eq_of_mem_zero h0U]
  by_cases hjp : j = g + (h.get g).len - bytes
  · -- the new used node
    subst hjp
    rw [get_setNode_self hpU, get_upsertNode, if_pos rfl, get_setNode_of_ne hpg,
      get_of_not_mem hpK, if_neg hpg, if_pos rfl]
    rfl
  · rw [get_setNode_of_ne hjp, get_upsertNode, if_neg hjp]
    by_cases hjg : j = g
    · subst hjg
      rw [get_setNode_self hg.1, if_pos rfl]
    · rw [get_setNode_of_ne hjg, if_neg hjg, if_neg hjp]

theorem splitHigh_len (j : Nat) :
    ((h.splitHigh bytes g).get j).len =
      if j = g then (h.get g).len - bytes
      else if j = g + (h.get g).len - bytes then bytes else (h.get j).len := by
  rw [splitHigh_get hl hg hb hlt]
  split_ifs <;> rfl

/-- The new node is used, so the free nodes are those of `h`. -/
theorem freeKey_splitHigh (y : Nat) : (h.splitHigh bytes g).FreeKey y ↔ h.FreeKey y := by
  obtain ⟨-, -, hgp, hpK⟩ := splitHigh_facts hl hg hb hlt
  rw [freeKey_iff, freeKey_iff, splitHigh_get hl hg hb hlt, mem_keys_splitHigh]
  by_cases hyg : y = g
  · subst hyg
    rw [if_pos rfl]
    exact ⟨fun hy => ⟨hg.1, hy.2⟩, fun hy => ⟨Or.inl hg.1, hy.2⟩⟩
  rw [if_neg hyg]
  by_cases hyp : y = g + (h.get g).len - bytes
  · rw [if_pos hyp]
    subst hyp
    exact ⟨fun hy => absurd rfl hy.2, fun hy => absurd hy.1 hpK⟩
  · rw [if_neg hyp]
    exact ⟨fun hy => ⟨hy.1.resolve_right hyp, hy.2⟩, fun hy => ⟨Or.inl hy.1, hy.2⟩⟩

theorem links_splitHigh (hL : h.Links) : (h.splitHigh bytes g).Links := by
  obtain ⟨-, -, -, hpK⟩ := splitHigh_facts hl hg hb hlt
  have hget := splitHigh_get hl hg hb hlt
  -- a free node is `g` or untouched, and `g` keeps its links
  have hsame : ∀ y, h.FreeKey y →
      (h.splitHigh bytes g).get y = if y = g then { h.get g with len := (h.get g).len - bytes }
        else h.get y := by
    intro y hy
    have hyp : y ≠ g + (h.get g).len - bytes := fun hyp => hpK (hyp ▸ hy.1)
    rw [hget]
    split_ifs <;> rfl
  refine links_of_same hL (freeKey_splitHigh hl hg hb hlt) ?_ ?_
  · intro y hy
    rw [hsame y hy]
    split_ifs with hyg
    · rw [hyg]
    · rfl
  · intro y hy
    rw [hsame y hy]
    split_ifs with hyg
    · rw [hyg]
    · rfl

theorem layout_splitHigh : (h.splitHigh bytes g).Layout := by
  obtain ⟨hg0, hgM, hgp, hpK⟩ := splitHigh_facts hl hg hb hlt
  have hlen := splitHigh_len hl hg hb hlt
  have hpg : g + (h.get g).len - bytes ≠ g := hgp.ne'
  refine hl.split hg.1 hg0 hgM (m := g + (h.get g).len - bytes) hgp (by omega) splitHigh_pool
    splitHigh_length mem_keys_splitHigh ?_ ?_ ?_
  · rw [hlen, if_pos rfl]
    omega
  · rw [hlen, if_neg hpg, if_pos rfl]
    omega
  · intro k hk hkg
    have hkp : k ≠ g + (h.get g).len - bytes := fun hkp => hpK (hkp ▸ hk)
    rw [hlen, if_neg hkg, if_neg hkp]

/-- `g` gives up `bytes`, which the used node holds. -/
theorem freeBytes_splitHigh : (h.splitHigh bytes g).freeBytes + bytes = h.freeBytes := by
  obtain ⟨-, -, hgp, hpK⟩ := splitHigh_facts hl hg hb hlt
  have hfg := (freeKey_iff.mp hg).2
  have hpg : g + (h.get g).len - bytes ≠ g := hgp.ne'
  -- shrink `g`, create the node, mark it used
  have h1 := freeBytes_setNode hg.1 fun n => { n with len := n.len - bytes }
  have hshrink : freeLen { h.get g with len := (h.get g).len - bytes } = (h.get g).len - bytes :=
    freeLen_of_free hfg
  rw [freeLen_of_free hfg, hshrink] at h1
  have hpS : g + (h.get g).len - bytes ∉
      (h.setNode g fun n => { n with len := n.len - bytes }).memory.keys := by
    rw [keys_setNode]
    exact hpK
  have h2 := freeBytes_upsertNode hpS fun n => { n with len := bytes }
  have hblank : freeLen { Node.blank with len := bytes } = bytes := rfl
  rw [hblank] at h2
  have hpU : g + (h.get g).len - bytes ∈ ((h.setNode g fun n => { n with len := n.len - bytes }).upsertNode
      (g + (h.get g).len - bytes) fun n => { n with len := bytes }).memory.keys :=
    (mem_keys_upsertNode _).mpr (Or.inl rfl)
  have h0U : 0 ∈ ((h.setNode g fun n => { n with len := n.len - bytes }).upsertNode
      (g + (h.get g).len - bytes) fun n => { n with len := bytes }).memory.keys :=
    (mem_keys_upsertNode _).mpr (Or.inr (by rw [keys_setNode]; exact hl.mem_zero))
  have h3 := freeBytes_setNode hpU fun n => { n with next := some 0 }
  rw [get_upsertNode, if_pos rfl, get_setNode_of_ne hpg, get_of_not_mem hpK, hblank,
    freeLen_of_used rfl] at h3
  unfold splitHigh
  dsimp only
  rw [begin_eq_of_mem_zero h0U]
  omega

/-- Splitting the top `bytes` off a free node hands them out. -/
theorem carved_splitHigh (hL : h.Links) (ha : h.Apart) :
    Carved h (h.splitHigh bytes g) (g + (h.get g).len - bytes) ∧
      ((h.splitHigh bytes g).get (g + (h.get g).len - bytes)).len = bytes := by
  obtain ⟨hg0, hgM, hgp, hpK⟩ := splitHigh_facts hl hg hb hlt
  have hlen := splitHigh_len hl hg hb hlt
  have hF := freeKey_splitHigh hl hg hb hlt
  have hpg : g + (h.get g).len - bytes ≠ g := hgp.ne'
  have hlenp : ((h.splitHigh bytes g).get (g + (h.get g).len - bytes)).len = bytes := by
    rw [hlen, if_neg hpg, if_pos rfl]
  refine ⟨⟨layout_splitHigh hl hg hb hlt, links_splitHigh hl hg hb hlt hL, ?_, rfl, rfl, rfl, rfl,
    fun k hk => (mem_keys_splitHigh k).mpr (Or.inl hk), (mem_keys_splitHigh _).mpr (Or.inr rfl),
    fun hp => absurd hp hpK, ?_, ?_, ?_⟩, hlenp⟩
  · -- only `g` got shorter, and it now ends at the used node
    intro a c ha' hc hac
    rw [hF] at ha' hc
    by_cases hag : a = g
    · subst hag
      rw [hlen, if_pos rfl] at hac
      exact absurd hc.1 (hl.not_mem_of_lt_end hg.1 hg0 hgM (by omega) (by omega))
    · have hap : a ≠ g + (h.get g).len - bytes := fun hap => hpK (hap ▸ ha'.1)
      rw [hlen, if_neg hag, if_neg hap] at hac
      exact ha a c ha' hc hac
  · intro k hk
    rw [freeAt_eq_false_iff_not hk, hF]
    rcases (mem_keys_splitHigh k).mp hk with hk' | rfl
    · have hkp : k ≠ g + (h.get g).len - bytes := fun hkp => hpK (hkp ▸ hk')
      rw [freeAt_eq_false_iff_not hk']
      exact ⟨fun hu => Or.inr ⟨hk', hu⟩, fun hu => (hu.resolve_left hkp).2⟩
    · exact ⟨fun _ => Or.inl rfl, fun _ hp => hpK hp.1⟩
  · intro k hk hku
    have hkg : k ≠ g := by
      rintro rfl
      rw [hg.2] at hku
      exact Bool.noConfusion hku
    have hkp : k ≠ g + (h.get g).len - bytes := fun hkp => hpK (hkp ▸ hk)
    rw [hlen, if_neg hkg, if_neg hkp]
  · rw [hlenp]
    exact freeBytes_splitHigh hl hg hb hlt

end SplitHigh

/-- An allocation is about the node map and the counters only: a heap that
agrees with its result on those, whatever its `high`, is one too. -/
theorem Allocated.of_memory_eq {h h' h'' : Heap} {p bytes : Nat} (ha : Allocated h h' p bytes)
    (hm : h''.memory = h'.memory) (hpool : h''.pool = h'.pool) (hlength : h''.length = h'.length)
    (htf : h''.totalFree = h'.totalFree) : Allocated h h'' p bytes where
  wf := ⟨ha.wf.layout.of_memory_eq hm hpool hlength, links_of_memory_eq ha.wf.links hm,
    ha.wf.apart.of_memory_eq hm, by rw [htf, freeBytes_of_memory_eq hm]; exact ha.wf.total⟩
  pool := hpool.trans ha.pool
  length := hlength.trans ha.length
  totalFree := by rw [htf]; exact ha.totalFree
  keys_mono k hk := by rw [hm]; exact ha.keys_mono k hk
  mem_p := by rw [hm]; exact ha.mem_p
  len_p := by rw [get_of_memory_eq hm]; exact ha.len_p
  free_p := ha.free_p
  used_iff k hk := by
    rw [freeAt_of_memory_eq hm]
    exact ha.used_iff k (hm ▸ hk)
  used_len k hk hku := by
    rw [get_of_memory_eq hm]
    exact ha.used_len k hk hku

/-- The body of `alloc_high` hands out the top of the node it found, or all
of it, and records the pointer in `high`. -/
theorem allocated_allocHighAt {h : Heap} {bytes g : Nat} (hw : h.Wf) (hg : h.FreeKey g)
    (hb : 0 < bytes) (hfit : bytes ≤ (h.get g).len) :
    Allocated h (h.allocHighAt bytes g).1 (h.allocHighAt bytes g).2 bytes ∧
      (h.allocHighAt bytes g).1.high = h.high.insert (h.allocHighAt bytes g).2 () := by
  obtain ⟨hg0, hgM⟩ := hw.layout.ne_guards_of_len_pos (Nat.lt_of_lt_of_le hb hfit)
  -- the map is edited in a heap that already counts `bytes` less
  have hm : ({ h with totalFree := h.totalFree - bytes } : Heap).memory = h.memory := rfl
  have hl0 := hw.layout.of_memory_eq hm rfl rfl
  have hL0 := links_of_memory_eq hw.links hm
  have ha0 := hw.apart.of_memory_eq hm
  have hg0' := (freeKey_of_memory_eq hm g).mpr hg
  rcases lt_or_eq_of_le hfit with hlt | heq
  · rw [allocHighAt_of_lt hlt]
    have hlt0 : bytes < (({ h with totalFree := h.totalFree - bytes } : Heap).get g).len := by
      rwa [get_of_memory_eq hm]
    obtain ⟨hc, hlen⟩ := carved_splitHigh hl0 hg0' hb hlt0 hL0 ha0
    exact ⟨(hc.allocated hw hm rfl rfl rfl hlen).of_memory_eq rfl rfl rfl rfl, rfl⟩
  · rw [allocHighAt_of_eq heq]
    obtain ⟨p, -, hpg⟩ := hw.links.prior_link g hg hg0
    obtain ⟨q, -, hgq⟩ := hw.links.next_link g hg hgM
    have hpg0 := hpg.congr fun y => (freeKey_of_memory_eq hm y).symm
    have hgq0 := hgq.congr fun y => (freeKey_of_memory_eq hm y).symm
    have hc := carved_remove hl0 hL0 ha0 hpg0 hgq0
    have hlen : ((({ h with totalFree := h.totalFree - bytes } : Heap).remove g).get g).len =
        bytes := by
      rw [remove_get hl0 hL0 hpg0 hgq0, if_pos rfl, get_of_memory_eq hm]
      exact heq.symm
    refine ⟨(hc.allocated hw hm rfl rfl rfl hlen).of_memory_eq rfl rfl rfl rfl, ?_⟩
    dsimp only
    rw [remove_high]

/-! ## `alloc` and `alloc_high` on a well-formed heap -/

/-- The node handed out is used afterwards. -/
theorem Allocated.used_p {h h' : Heap} {p bytes : Nat} (ha : Allocated h h' p bytes) :
    h'.freeAt p = false :=
  (ha.used_iff p ha.mem_p).mpr (Or.inl rfl)

/-- The pointer handed out is never `nullptr`: the guard at `0` stays free. -/
theorem Allocated.ptr_ne_zero {h h' : Heap} {p bytes : Nat} (ha : Allocated h h' p bytes) :
    p ≠ 0 := by
  rintro rfl
  have hu := ha.used_p
  rw [ha.wf.links.lo_mem.2] at hu
  exact Bool.noConfusion hu

@[simp] theorem allocAt_high {h : Heap} {bytes c : Nat} : (h.allocAt bytes c).high = h.high := by
  unfold allocAt
  dsimp only
  split_ifs <;> simp only [remove_high, insertafter_high, setNode_high, upsertNode_high]

/-- **What `alloc` does**: on a well-formed heap it fails and leaves the heap
as it was, or hands out a node of `bytes` at the pointer it returns. -/
theorem alloc_spec {h : Heap} (hw : h.Wf) (bytes : Nat) :
    ((h.alloc bytes).2 = 0 ∧ (h.alloc bytes).1 = h) ∨
      (Allocated h (h.alloc bytes).1 (h.alloc bytes).2 bytes ∧
        (h.alloc bytes).1.high = h.high) := by
  rw [alloc_eq hw.layout hw.links]
  split_ifs with hreq
  · exact Or.inl ⟨rfl, rfl⟩
  have hb : 0 < bytes := Nat.pos_of_ne_zero (not_or.mp hreq).2
  cases hfit : h.firstFit bytes 0 with
  | none => exact Or.inl ⟨rfl, rfl⟩
  | some g =>
    obtain ⟨hgK, -, hfg, -⟩ := firstFit_eq_some_iff.mp hfit
    simp only [fits, Bool.and_eq_true, decide_eq_true_eq] at hfg
    exact Or.inr ⟨allocated_allocAt hw ⟨hgK, hfg.1⟩ hb hfg.2, allocAt_high⟩

/-- **What `alloc_high` does**: as `alloc`, and the pointer it hands out is
recorded in `high`. -/
theorem allocHigh_spec {h : Heap} (hw : h.Wf) (bytes : Nat) :
    ((h.allocHigh bytes).2 = 0 ∧ (h.allocHigh bytes).1 = h) ∨
      (Allocated h (h.allocHigh bytes).1 (h.allocHigh bytes).2 bytes ∧
        (h.allocHigh bytes).1.high = h.high.insert (h.allocHigh bytes).2 ()) := by
  rw [allocHigh_eq hw.layout hw.links]
  split_ifs with hreq
  · exact Or.inl ⟨rfl, rfl⟩
  have hb : 0 < bytes := Nat.pos_of_ne_zero (not_or.mp hreq).2
  cases hfit : h.lastFit bytes guardHigh with
  | none => exact Or.inl ⟨rfl, rfl⟩
  | some g =>
    obtain ⟨hgK, -, hfg, -⟩ := lastFit_eq_some_iff.mp hfit
    simp only [fits, Bool.and_eq_true, decide_eq_true_eq] at hfg
    exact Or.inr (allocated_allocHighAt hw ⟨hgK, hfg.1⟩ hb hfg.2)

end Heap

end SmallHeap
