import Rocr.Util.SmallHeapWf

/-!
# `free`: linking a node back and compacting

`free(ptr)` links the used node at `ptr` into the free list after `before`,
the greatest free node below it, then merges it into `before` when the two
touch, and merges the result with its successor `q` when those touch.

Between the two merges the heap is not compact: the free node `it` that now
holds `ptr` may end where `q` begins.  `ApartExcept` names that state; the
first merge (or its absence) establishes it, and the second merge (or its
absence) turns it back into `Apart`.  `Joined` collects what holds between
the merges and `Freed` what a caller of `free` relies on.
-/

namespace SmallHeap

open Chain

namespace Heap

/-- The free nodes are pairwise apart, except that `z` may end where `w`
begins. -/
def ApartExcept (h : Heap) (z w : Nat) : Prop :=
  ∀ a c, h.FreeKey a → h.FreeKey c → a + (h.get a).len = c → a = c ∨ (a = z ∧ c = w)

theorem ApartExcept.apart {h : Heap} {z w : Nat} (ha : h.ApartExcept z w)
    (hzw : z + (h.get z).len ≠ w) : h.Apart := by
  intro a c haF hcF hac
  rcases ha a c haF hcF hac with hac' | ⟨rfl, rfl⟩
  · exact hac'
  · exact absurd hac hzw

/-! ## The used nodes -/

/-- The used nodes of `h'` are those of `h` but `ptr`, with their lengths. -/
structure UsedBut (h h' : Heap) (ptr : Nat) : Prop where
  used_iff : ∀ k ∈ h'.memory.keys,
    h'.freeAt k = false ↔ k ≠ ptr ∧ k ∈ h.memory.keys ∧ h.freeAt k = false
  used_mem : ∀ k ∈ h.memory.keys, h.freeAt k = false → k ≠ ptr → k ∈ h'.memory.keys
  used_len : ∀ k ∈ h.memory.keys, h.freeAt k = false → k ≠ ptr → (h'.get k).len = (h.get k).len

/-- The used nodes of `h'` are those of `h`, with their lengths. -/
structure KeepsUsed (h h' : Heap) : Prop where
  used_iff : ∀ k ∈ h'.memory.keys, h'.freeAt k = false ↔ k ∈ h.memory.keys ∧ h.freeAt k = false
  used_mem : ∀ k ∈ h.memory.keys, h.freeAt k = false → k ∈ h'.memory.keys
  used_len : ∀ k ∈ h.memory.keys, h.freeAt k = false → (h'.get k).len = (h.get k).len

theorem KeepsUsed.of_memory_eq {h h' : Heap} (hm : h'.memory = h.memory) : KeepsUsed h h' where
  used_iff k hk := by
    rw [freeAt_of_memory_eq hm]
    exact ⟨fun hu => ⟨hm ▸ hk, hu⟩, fun hu => hu.2⟩
  used_mem k hk _ := by rwa [hm]
  used_len k _ _ := by rw [get_of_memory_eq hm]

theorem UsedBut.keeps {h h1 h2 : Heap} {ptr : Nat} (h01 : UsedBut h h1 ptr)
    (h12 : KeepsUsed h1 h2) : UsedBut h h2 ptr where
  used_iff k hk := by
    rw [h12.used_iff k hk]
    constructor
    · rintro ⟨hk1, hu⟩
      exact (h01.used_iff k hk1).mp hu
    · rintro ⟨hkp, hk0, hu⟩
      have hk1 := h01.used_mem k hk0 hu hkp
      exact ⟨hk1, (h01.used_iff k hk1).mpr ⟨hkp, hk0, hu⟩⟩
  used_mem k hk hu hkp := by
    have hk1 := h01.used_mem k hk hu hkp
    exact h12.used_mem k hk1 ((h01.used_iff k hk1).mpr ⟨hkp, hk, hu⟩)
  used_len k hk hu hkp := by
    have hk1 := h01.used_mem k hk hu hkp
    rw [h12.used_len k hk1 ((h01.used_iff k hk1).mpr ⟨hkp, hk, hu⟩), h01.used_len k hk hu hkp]

theorem UsedBut.of_memory_eq {h h0 h' : Heap} {ptr : Nat} (hu : UsedBut h0 h' ptr)
    (hm : h0.memory = h.memory) : UsedBut h h' ptr where
  used_iff k hk := by
    rw [hu.used_iff k hk, freeAt_of_memory_eq hm, hm]
  used_mem k hk hku hkp := hu.used_mem k (hm ▸ hk) (by rwa [freeAt_of_memory_eq hm]) hkp
  used_len k hk hku hkp := by
    rw [hu.used_len k (hm ▸ hk) (by rwa [freeAt_of_memory_eq hm]) hkp, get_of_memory_eq hm]

/-- Merging two free nodes touches no used node. -/
theorem keepsUsed_merge {h : Heap} {lo hi q : Nat} (hL : h.Links) (hlh : IsSucc h.FreeKey lo hi)
    (hhq : IsSucc h.FreeKey hi q) (hadj : lo + (h.get lo).len = hi) :
    KeepsUsed h (h.merge lo hi).1 where
  used_iff k hk := by
    obtain ⟨hkhi, hk'⟩ := (mem_keys_merge hadj (hL.next_eq hhq)).mp hk
    rw [freeAt_eq_false_iff_not hk, freeAt_eq_false_iff_not hk', freeKey_merge hL hlh hhq hadj]
    exact ⟨fun hn => ⟨hk', fun hf => hn ⟨hf, hkhi⟩⟩, fun hn hf => hn.2 hf.1⟩
  used_mem k hk hu :=
    (mem_keys_merge hadj (hL.next_eq hhq)).mpr ⟨FreeKey.ne_of_used hlh.2.1 hu, hk⟩
  used_len k _ hu := by
    rw [merge_len hL hlh hhq hadj, if_neg (FreeKey.ne_of_used hlh.2.1 hu), if_neg (FreeKey.ne_of_used hlh.1 hu)]

/-! ## Linking `ptr` in after `before`, and the first merge -/

/-- The heap between the two merges of `free`: `ptr` is linked in, and merged
into the node below it if they touch, giving the free node `it`.  `it` is
followed by `q` and is the only free node that may end where the next begins. -/
structure Joined (h h' : Heap) (ptr it q : Nat) : Prop where
  layout : h'.Layout
  links : h'.Links
  succ : IsSucc h'.FreeKey it q
  apart : h'.ApartExcept it q
  used : UsedBut h h' ptr
  freeBytes : h'.freeBytes = h.freeBytes + (h.get ptr).len
  pool : h'.pool = h.pool
  length : h'.length = h.length
  totalFree : h'.totalFree = h.totalFree
  high : h'.high = h.high

section Join

variable {h : Heap} {b q ptr : Nat} (hl : h.Layout) (hL : h.Links) (ha : h.Apart)
  (hbq : IsSucc h.FreeKey b q) (hp : ptr ∈ h.memory.keys) (hu : h.freeAt ptr = false)
  (hbp : b < ptr) (hpq : ptr < q)
include hl hbq hp hu hbp hpq

/-- A free node that begins where `ptr` ends is `q`. -/
theorem eq_succ_of_end_eq {c : Nat} (hc : h.FreeKey c) (hend : ptr + (h.get ptr).len = c) :
    c = q := by
  have hp0 : ptr ≠ 0 := (Nat.lt_of_le_of_lt (Nat.zero_le b) hbp).ne'
  have hpM : ptr ≠ guardHigh := (hpq.trans_le (hl.le_guardHigh hbq.2.1.1)).ne
  have hpend := hl.end_le_of_lt hp hp0 hpM hbq.2.1.1 hpq
  have hcp := FreeKey.ne_of_used hc hu
  have hqc := hbq.le_of_lt hc (show b < c by omega)
  omega

include hL ha

/-- Without the first merge, `ptr` is the node that may touch `q`. -/
theorem apartExcept_insertafter (hnadj : b + (h.get b).len ≠ ptr) :
    (h.insertafter b ptr).ApartExcept ptr q := by
  intro a c haF hcF hac
  rw [freeKey_insertafter hL hbq hp hu hbp hpq] at haF hcF
  rw [insertafter_len hL hbq hp hbp hpq] at hac
  rcases haF with haF | rfl
  · rcases hcF with hcF | rfl
    · exact Or.inl (ha a c haF hcF hac)
    · -- a free node that ends at `ptr` lies below it, so it is `b` or ends before `b`
      exfalso
      have hap := FreeKey.ne_of_used haF hu
      have hab : a ≤ b := by
        by_contra hba
        have hqa := hbq.le_of_lt haF (by omega)
        omega
      rcases lt_or_eq_of_le hab with hab | rfl
      · have ha0 : a ≠ 0 := by
          rintro rfl
          rw [hl.zero_len] at hac
          omega
        have haM : a ≠ guardHigh := (hab.trans_le (hl.le_guardHigh hbq.1.1)).ne
        have haend := hl.end_le_of_lt haF.1 ha0 haM hbq.1.1 hab
        omega
      · exact hnadj hac
  · rcases hcF with hcF | rfl
    · exact Or.inr ⟨rfl, eq_succ_of_end_eq hl hbq hp hu hbp hpq hcF hac⟩
    · exact Or.inl rfl

/-- After the first merge, `b` holds `ptr` and is the node that may touch
`q`. -/
theorem apartExcept_merge_insertafter (hadj : b + (h.get b).len = ptr) :
    ((h.insertafter b ptr).merge b ptr).1.ApartExcept b q := by
  have hF1 := freeKey_insertafter hL hbq hp hu hbp hpq
  have hbp1 : IsSucc (h.insertafter b ptr).FreeKey b ptr :=
    (isSucc_insert_left hbq hbp hpq).congr fun y => (hF1 y).symm
  have hpq1 : IsSucc (h.insertafter b ptr).FreeKey ptr q :=
    (isSucc_insert_right hbq hbp hpq).congr fun y => (hF1 y).symm
  have hlen1 := insertafter_len hL hbq hp hbp hpq
  have hadj1 : b + ((h.insertafter b ptr).get b).len = ptr := by rw [hlen1]; exact hadj
  have hL1 := links_insertafter hL hbq hp hu hbp hpq
  -- the free nodes are those of `h` again
  have hF2 : ∀ y, ((h.insertafter b ptr).merge b ptr).1.FreeKey y ↔ h.FreeKey y := by
    intro y
    rw [freeKey_merge hL1 hbp1 hpq1 hadj1, hF1]
    exact ⟨fun hy => hy.1.resolve_right hy.2, fun hy => ⟨Or.inl hy, (FreeKey.ne_of_used hy hu).symm⟩⟩
  intro a c haF hcF hac
  rw [hF2] at haF hcF
  rw [merge_len hL1 hbp1 hpq1 hadj1, if_neg (FreeKey.ne_of_used haF hu).symm] at hac
  by_cases hab : a = b
  · subst hab
    rw [if_pos rfl, hlen1, hlen1] at hac
    exact Or.inr ⟨rfl, eq_succ_of_end_eq hl hbq hp hu hbp hpq hcF (by omega)⟩
  · rw [if_neg hab, hlen1] at hac
    exact Or.inl (ha a c haF hcF hac)

/-- Linking `ptr` in after `b` and the first merge. -/
theorem joined_insertafter_merge :
    Joined h ((h.insertafter b ptr).merge b ptr).1 ptr ((h.insertafter b ptr).merge b ptr).2 q := by
  have hF1 := freeKey_insertafter hL hbq hp hu hbp hpq
  have hbp1 : IsSucc (h.insertafter b ptr).FreeKey b ptr :=
    (isSucc_insert_left hbq hbp hpq).congr fun y => (hF1 y).symm
  have hpq1 : IsSucc (h.insertafter b ptr).FreeKey ptr q :=
    (isSucc_insert_right hbq hbp hpq).congr fun y => (hF1 y).symm
  have hlen1 := insertafter_len hL hbq hp hbp hpq
  have hl1 := layout_insertafter hl hL hbq hp hbp hpq
  have hL1 := links_insertafter hL hbq hp hu hbp hpq
  have hfb1 := freeBytes_insertafter hL hbq hp hu hbp
  -- linking in frees `ptr` and changes no other node's use or length
  have hused1 : UsedBut h (h.insertafter b ptr) ptr := by
    refine ⟨fun k hk => ?_, fun k hk _ _ => (keys_insertafter b ptr).symm ▸ hk,
      fun k _ _ _ => hlen1 k⟩
    rw [keys_insertafter] at hk
    rw [freeAt_eq_false_iff_not ((keys_insertafter b ptr).symm ▸ hk), hF1,
      freeAt_eq_false_iff_not hk]
    exact ⟨fun hn => ⟨fun hkp => hn (Or.inr hkp), hk, fun hf => hn (Or.inl hf)⟩,
      fun hn hf => hf.elim hn.2.2 hn.1⟩
  by_cases hadj : b + (h.get b).len = ptr
  · -- `ptr` is merged into `b`
    have hadj1 : b + ((h.insertafter b ptr).get b).len = ptr := by rw [hlen1]; exact hadj
    have hF2 := freeKey_merge hL1 hbp1 hpq1 hadj1
    rw [merge_snd hL1 hpq1 hadj1]
    refine ⟨layout_merge hl1 hL1 hbp1 hpq1 hadj1, links_merge hL1 hbp1 hpq1 hadj1, ?_,
      apartExcept_merge_insertafter hl hL ha hbq hp hu hbp hpq hadj,
      hused1.keeps (keepsUsed_merge hL1 hbp1 hpq1 hadj1), ?_, by simp, by simp, by simp, by simp⟩
    · exact hbq.congr fun y => by
        rw [hF2, hF1]
        exact ⟨fun hy => ⟨Or.inl hy, (FreeKey.ne_of_used hy hu).symm⟩, fun hy => hy.1.resolve_right hy.2⟩
    · rw [freeBytes_merge hL1 hbp1 hpq1 hadj1, hfb1]
  · -- `ptr` stays a node of its own
    have hnadj1 : b + ((h.insertafter b ptr).get b).len ≠ ptr := by rw [hlen1]; exact hadj
    rw [merge_of_ne hnadj1]
    exact ⟨hl1, hL1, hpq1, apartExcept_insertafter hl hL ha hbq hp hu hbp hpq hadj, hused1, hfb1,
      insertafter_pool, insertafter_length, insertafter_totalFree, insertafter_high⟩

end Join

/-! ## The second merge -/

/-- What `free` leaves behind, before `high.erase(ptr)`. -/
structure Compacted (h h' : Heap) (ptr : Nat) : Prop where
  layout : h'.Layout
  links : h'.Links
  apart : h'.Apart
  used : UsedBut h h' ptr
  freeBytes : h'.freeBytes = h.freeBytes + (h.get ptr).len
  pool : h'.pool = h.pool
  length : h'.length = h.length
  totalFree : h'.totalFree = h.totalFree
  high : h'.high = h.high

/-- The second merge restores compaction: when `it` touches `q` the merged
node ends where `q` ended, which touched nothing. -/
theorem ApartExcept.apart_merge {h : Heap} {it q r : Nat} (hL : h.Links)
    (hiq : IsSucc h.FreeKey it q) (hqr : IsSucc h.FreeKey q r) (hadj : it + (h.get it).len = q)
    (ha : h.ApartExcept it q) : (h.merge it q).1.Apart := by
  have hF := freeKey_merge hL hiq hqr hadj
  intro a c haF hcF hac
  rw [hF] at haF hcF
  rw [merge_len hL hiq hqr hadj, if_neg haF.2] at hac
  by_cases hait : a = it
  · subst hait
    rw [if_pos rfl] at hac
    rcases ha q c hiq.2.1 hcF.1 (by omega) with hqc | ⟨hqa, -⟩
    · exact absurd hqc.symm hcF.2
    · exact absurd hqa hiq.lt.ne'
  · rw [if_neg hait] at hac
    rcases ha a c haF.1 hcF.1 hac with hac' | ⟨hait', -⟩
    · exact hac'
    · exact absurd hait' hait

/-- The second merge, `merge(iterator, iterator->second.next)`. -/
theorem Joined.compacted {h h2 : Heap} {ptr it q : Nat} (hj : Joined h h2 ptr it q) :
    Compacted h (match (h2.get it).next with
      | some nx => (h2.merge it nx).1
      | none => h2) ptr := by
  rw [hj.links.next_eq hj.succ]
  dsimp only
  by_cases hadj : it + (h2.get it).len = q
  · -- `q` is not the upper guard, since no node ends there
    have hit0 : it ≠ 0 := by
      rintro rfl
      rw [hj.layout.zero_len] at hadj
      exact hj.succ.lt.ne hadj
    have hitM : it ≠ guardHigh := (hj.succ.lt.trans_le (hj.layout.le_guardHigh hj.succ.2.1.1)).ne
    have hqM : q ≠ guardHigh := by
      have hend := hj.layout.end_lt_guardHigh hj.succ.1.1 hit0 hitM
      omega
    obtain ⟨r, -, hqr⟩ := hj.links.next_link q hj.succ.2.1 hqM
    exact ⟨layout_merge hj.layout hj.links hj.succ hqr hadj, links_merge hj.links hj.succ hqr hadj,
      hj.apart.apart_merge hj.links hj.succ hqr hadj,
      hj.used.keeps (keepsUsed_merge hj.links hj.succ hqr hadj),
      (freeBytes_merge hj.links hj.succ hqr hadj).trans hj.freeBytes,
      (merge_pool).trans hj.pool, (merge_length).trans hj.length,
      (merge_totalFree).trans hj.totalFree, (merge_high).trans hj.high⟩
  · rw [merge_of_ne hadj]
    exact ⟨hj.layout, hj.links, hj.apart.apart hadj, hj.used, hj.freeBytes, hj.pool, hj.length,
      hj.totalFree, hj.high⟩

/-! ## `free` -/

/-- `h'` is `h` with the used node at `ptr` handed back. -/
structure Freed (h h' : Heap) (ptr : Nat) : Prop where
  wf : h'.Wf
  pool : h'.pool = h.pool
  length : h'.length = h.length
  totalFree : h'.totalFree = h.totalFree + (h.get ptr).len
  high : h'.high = h.high.erase ptr
  used : UsedBut h h' ptr

/-- The backward scan of `free` from a used node stops at a free node `b`
whose successor lies above `ptr`. -/
theorem exists_freeBefore {h : Heap} {ptr : Nat} (hl : h.Layout) (hL : h.Links)
    (hp : ptr ∈ h.memory.keys) (hu : h.freeAt ptr = false) :
    ∃ b q, h.freeBefore ptr = some b ∧ IsSucc h.FreeKey b q ∧ b < ptr ∧ ptr < q := by
  have hp0 : ptr ≠ 0 := FreeKey.ne_of_used hL.lo_mem hu
  cases hfb : h.freeBefore ptr with
  | none =>
    -- the guard at `0` is free and lies below `ptr`
    exfalso
    unfold freeBefore at hfb
    rw [List.find?_eq_none] at hfb
    have h0 := hfb 0 (List.mem_reverse.mpr hl.mem_zero)
    rw [hl.isfree_get, hL.lo_mem.2] at h0
    exact h0 (by simp only [Bool.and_true, decide_eq_true_eq]; omega)
  | some b =>
    obtain ⟨hbF, hbp, hmax⟩ := (hl.freeBefore_eq_some_iff ptr b).mp hfb
    have hbM : b ≠ guardHigh := (hbp.trans_le (hl.le_guardHigh hp)).ne
    obtain ⟨q, -, hbq⟩ := hL.next_link b hbF hbM
    refine ⟨b, q, rfl, hbq, hbp, ?_⟩
    -- `q` is free, so it is not `ptr`, and `b` is the last free node below `ptr`
    have hqp := FreeKey.ne_of_used hbq.2.1 hu
    by_contra hqle
    have hqb := hmax q hbq.2.1 (by omega)
    exact absurd hbq.lt (Nat.not_lt.mpr hqb)

/-- The last step of `free`, `high.erase(ptr)`, on a compacted heap built
from `h` with `total_free` already grown. -/
theorem Compacted.freed {h h0 h3 : Heap} {ptr : Nat} (hc : Compacted h0 h3 ptr) (hw : h.Wf)
    (hm : h0.memory = h.memory) (hpool : h0.pool = h.pool) (hlength : h0.length = h.length)
    (htf : h0.totalFree = h.totalFree + (h.get ptr).len) (hhigh : h0.high = h.high) :
    Freed h { h3 with high := h3.high.erase ptr } ptr := by
  have hm3 : ({ h3 with high := h3.high.erase ptr } : Heap).memory = h3.memory := rfl
  have hfb := hc.freeBytes
  rw [freeBytes_of_memory_eq hm, get_of_memory_eq hm] at hfb
  have htot := hw.total
  refine ⟨⟨hc.layout.of_memory_eq hm3 rfl rfl, links_of_memory_eq hc.links hm3,
    hc.apart.of_memory_eq hm3, ?_⟩, hc.pool.trans hpool, hc.length.trans hlength, ?_, ?_, ?_⟩
  · rw [freeBytes_of_memory_eq hm3]
    show h3.totalFree = h3.freeBytes
    rw [hc.totalFree, htf, hfb, htot]
  · exact hc.totalFree.trans htf
  · show h3.high.erase ptr = h.high.erase ptr
    rw [hc.high, hhigh]
  · exact (hc.used.keeps (KeepsUsed.of_memory_eq hm3)).of_memory_eq hm

/-- **What `free` does** to a used node of a well-formed heap. -/
theorem freed_free {h : Heap} {ptr : Nat} (hw : h.Wf) (hp : ptr ∈ h.memory.keys)
    (hu : h.freeAt ptr = false) : Freed h (h.free ptr) ptr := by
  have hp0 : ptr ≠ 0 := FreeKey.ne_of_used hw.links.lo_mem hu
  obtain ⟨node, hnode⟩ := OrdMap.find?_of_mem_keys hp
  have hnode' : node = h.get ptr := by simp [get, hnode]
  -- `total_free` grows first; the node map is edited in that heap
  have hm : ({ h with totalFree := h.totalFree + node.len } : Heap).memory = h.memory := rfl
  have hl0 := hw.layout.of_memory_eq hm rfl rfl
  have hL0 := links_of_memory_eq hw.links hm
  have ha0 := hw.apart.of_memory_eq hm
  have hu0 : ({ h with totalFree := h.totalFree + node.len } : Heap).freeAt ptr = false := hu
  obtain ⟨b, q, hfb, hbq, hbp, hpq⟩ := exists_freeBefore hl0 hL0 hp hu0
  have hj := joined_insertafter_merge hl0 hL0 ha0 hbq hp hu0 hbp hpq
  unfold free
  rw [if_neg hp0, hnode]
  dsimp only
  rw [hfb]
  dsimp only
  exact hj.compacted.freed hw hm rfl rfl (by rw [hnode']) rfl

end Heap

end SmallHeap
