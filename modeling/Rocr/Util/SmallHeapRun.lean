import Mathlib
import Rocr.Util.SmallHeapAlloc
import Rocr.Util.SmallHeapFree

/-!
# `SmallHeap` over a whole run

The callers of a `SmallHeap` hold the pointers it handed out.  A `Session`
pairs a heap with that ledger: each `Allocation` is a pointer returned by
`alloc` or `alloc_high` and not yet freed, with the size asked for and the
call that returned it.  A run is a list of requests; a `free` of a pointer no
caller holds is outside the contract and ends the run with `none`.

`Tracks` relates the heap to the ledger: the used nodes are the held
pointers, each with the size asked for; `total_free` and the held sizes add
up to the pool; `high` holds the upper guard and the pointers `alloc_high`
returned.  `Session.Inv.step` shows that every request keeps it,
`Session.Inv.run` that every run does, and `run_invariant` reads off what a
caller can rely on after any run.
-/

namespace SmallHeap

open Chain

/-- A request to the heap. -/
inductive Op where
  | alloc (bytes : Nat)
  | allocHigh (bytes : Nat)
  | free (ptr : Nat)
deriving DecidableEq, Repr

/-- A pointer handed out and not yet freed, the size asked for, and whether
`alloc_high` returned it. -/
structure Allocation where
  ptr : Nat
  size : Nat
  high : Bool
deriving DecidableEq, Repr

/-- A heap and the allocations its callers hold. -/
structure Session where
  heap : Heap
  live : List Allocation

namespace Session

/-- Record the pointer a request returned; `nullptr` records nothing. -/
def record (live : List Allocation) (p size : Nat) (high : Bool) : List Allocation :=
  if p = 0 then live else ⟨p, size, high⟩ :: live

/-- One request. -/
def step (s : Session) : Op → Option Session
  | .alloc bytes =>
      let r := s.heap.alloc bytes
      some ⟨r.1, record s.live r.2 bytes false⟩
  | .allocHigh bytes =>
      let r := s.heap.allocHigh bytes
      some ⟨r.1, record s.live r.2 bytes true⟩
  | .free ptr =>
      match s.live.find? (fun a => a.ptr == ptr) with
      | some a => some ⟨s.heap.free ptr, s.live.erase a⟩
      | none => none

/-- A run of requests; `none` once a request breaks the contract. -/
def run (s : Session) : List Op → Option Session
  | [] => some s
  | op :: ops => (s.step op).bind fun s' => s'.run ops

/-- The nodes that no caller holds, in address order. -/
def unheld (s : Session) : List Nat :=
  s.heap.memory.keys.filter fun k => k ∉ s.live.map Allocation.ptr

end Session

/-- `SmallHeap(base, length)` with nothing handed out. -/
def start (base length : Nat) : Session := ⟨create base length, []⟩

namespace Heap

/-! ## What a well-formed heap guarantees -/

section Guarantees

variable {h : Heap}

/-- `total_free` is the sum of the lengths of the free nodes. -/
theorem Wf.totalFree_eq_sum (hw : h.Wf) :
    h.totalFree = ((h.memory.keys.filter h.freeAt).map fun k => (h.get k).len).sum := by
  have hsum : h.freeBytes = (h.memory.keys.map fun k => if h.freeAt k then (h.get k).len else 0).sum := by
    refine OrdMap.sumBy_eq_sum_keys _ h.memory fun k v hkv => ?_
    have hget : h.get k = v := by simp [get, hkv]
    rw [hget]
    by_cases hn : v.next = some 0
    · rw [freeLen_of_used hn, freeAt, hget, hn]
      rfl
    · rw [freeLen_of_free hn, freeAt, hget]
      simp [hn]
  rw [hw.total, hsum, List.sum_map_ite]
  simp

/-- Following `next` from the guard at `0`, with as many steps as the map has
nodes, visits exactly the free nodes in address order. -/
theorem Wf.walk_eq (hw : h.Wf) :
    walk (fun k => (h.get k).next) h.memory.size 0 = h.memory.keys.filter h.freeAt := by
  have hlen : h.memory.keys.length = h.memory.size := List.length_map _
  exact Threaded.walk_eq (l := h.memory.keys) (P := h.freeAt) hw.links h.memory.keys_ordered hlen.le

/-- A used node is neither guard. -/
theorem Wf.ne_guards_of_used (hw : h.Wf) {k : Nat} (hu : h.freeAt k = false) :
    k ≠ 0 ∧ k ≠ guardHigh :=
  ⟨FreeKey.ne_of_used hw.links.lo_mem hu, FreeKey.ne_of_used hw.links.hi_mem hu⟩

end Guarantees

/-! ## The ledger invariant -/

/-- The heap agrees with the allocations its callers hold. -/
structure Tracks (h : Heap) (live : List Allocation) : Prop where
  wf : h.Wf
  used_iff : ∀ k ∈ h.memory.keys, h.freeAt k = false ↔ k ∈ live.map Allocation.ptr
  mem : ∀ a ∈ live, a.ptr ∈ h.memory.keys ∧ (h.get a.ptr).len = a.size
  nodup : (live.map Allocation.ptr).Nodup
  accounted : h.totalFree + (live.map Allocation.size).sum = h.length
  high_iff : ∀ k, k ∈ h.high.keys ↔ k = guardHigh ∨ ∃ a ∈ live, a.ptr = k ∧ a.high = true

section Tracks

variable {h h' : Heap} {live : List Allocation}

theorem Tracks.used_ptr (ht : h.Tracks live) {a : Allocation} (ha : a ∈ live) :
    h.freeAt a.ptr = false :=
  (ht.used_iff a.ptr (ht.mem a ha).1).mpr (List.mem_map_of_mem ha)

/-- The nodes no caller holds are the free ones. -/
theorem Tracks.filter_unheld (ht : h.Tracks live) :
    h.memory.keys.filter (fun k => k ∉ live.map Allocation.ptr) = h.memory.keys.filter h.freeAt := by
  refine List.filter_congr fun k hk => ?_
  have hiff := ht.used_iff k hk
  cases hf : h.freeAt k
  · simpa [hf] using hiff
  · simp only [hf, Bool.true_eq_false, false_iff] at hiff
    simpa using hiff

/-- Every allocation lies in the pool. -/
theorem Tracks.live_range (ht : h.Tracks live) {a : Allocation} (ha : a ∈ live) :
    h.pool ≤ a.ptr ∧ a.ptr + a.size ≤ h.pool + h.length := by
  obtain ⟨hk, hlen⟩ := ht.mem a ha
  obtain ⟨h0, hM⟩ := ht.wf.ne_guards_of_used (ht.used_ptr ha)
  rw [← hlen]
  exact ht.wf.layout.range a.ptr hk h0 hM

/-- Two allocations never overlap. -/
theorem Tracks.live_disjoint (ht : h.Tracks live) :
    live.Pairwise fun a c => a.ptr + a.size ≤ c.ptr ∨ c.ptr + c.size ≤ a.ptr := by
  have hne : live.Pairwise fun a c => a.ptr ≠ c.ptr := List.pairwise_map.mp ht.nodup
  refine hne.imp_of_mem fun {a c} ha hc hac => ?_
  obtain ⟨haK, halen⟩ := ht.mem a ha
  obtain ⟨hcK, hclen⟩ := ht.mem c hc
  obtain ⟨ha0, haM⟩ := ht.wf.ne_guards_of_used (ht.used_ptr ha)
  obtain ⟨hc0, hcM⟩ := ht.wf.ne_guards_of_used (ht.used_ptr hc)
  rcases lt_or_gt_of_ne hac with hlt | hgt
  · have hend := ht.wf.layout.end_le_of_lt haK ha0 haM hcK hlt
    exact Or.inl (halen ▸ hend)
  · have hend := ht.wf.layout.end_le_of_lt hcK hc0 hcM haK hgt
    exact Or.inr (hclen ▸ hend)

/-- `high_split()` is the least pointer held from `alloc_high`, or the upper
guard. -/
theorem Tracks.highSplit_eq (ht : h.Tracks live) :
    h.highSplit = ((live.filter Allocation.high).map Allocation.ptr).foldr min guardHigh := by
  set m := ((live.filter Allocation.high).map Allocation.ptr).foldr min guardHigh
  have hmem : ∀ p, p ∈ (live.filter Allocation.high).map Allocation.ptr ↔
      ∃ a ∈ live, a.ptr = p ∧ a.high = true := by
    intro p
    simp only [List.mem_map, List.mem_filter]
    exact ⟨fun ⟨a, ⟨ha, hh⟩, hp⟩ => ⟨a, ha, hp, hh⟩, fun ⟨a, ha, hp, hh⟩ => ⟨a, ⟨ha, hh⟩, hp⟩⟩
  have hfirst : h.high.first? = some m := by
    rw [OrdMap.first?_eq_some_iff, ht.high_iff]
    refine ⟨?_, fun i hi => ?_⟩
    · rcases Ordered.foldr_min_mem ((live.filter Allocation.high).map Allocation.ptr) guardHigh
        with hm | hm
      · exact Or.inl hm
      · exact Or.inr ((hmem m).mp hm)
    · have hle := Ordered.foldr_min_le ((live.filter Allocation.high).map Allocation.ptr) guardHigh
      rcases (ht.high_iff i).mp hi with rfl | hi
      · exact hle.1
      · exact hle.2 i ((hmem i).mpr hi)
  rw [highSplit, hfirst]
  rfl

/-- An allocation adds the pointer it hands out to the ledger. -/
theorem Tracks.allocated (ht : h.Tracks live) {p bytes : Nat} {hi : Bool}
    (ha : Allocated h h' p bytes)
    (hhigh : ∀ k, k ∈ h'.high.keys ↔ k ∈ h.high.keys ∨ (hi = true ∧ k = p)) :
    h'.Tracks (⟨p, bytes, hi⟩ :: live) where
  wf := ha.wf
  used_iff k hk := by
    rw [ha.used_iff k hk, List.map_cons, List.mem_cons]
    constructor
    · rintro (rfl | ⟨hk', hu⟩)
      · exact Or.inl rfl
      · exact Or.inr ((ht.used_iff k hk').mp hu)
    · rintro (rfl | hk')
      · exact Or.inl rfl
      · obtain ⟨a, ha', rfl⟩ := List.mem_map.mp hk'
        exact Or.inr ⟨(ht.mem a ha').1, ht.used_ptr ha'⟩
  mem a ha' := by
    rcases List.mem_cons.mp ha' with rfl | ha'
    · exact ⟨ha.mem_p, ha.len_p⟩
    · obtain ⟨hk, hlen⟩ := ht.mem a ha'
      exact ⟨ha.keys_mono _ hk, (ha.used_len _ hk (ht.used_ptr ha')).trans hlen⟩
  nodup := by
    rw [List.map_cons, List.nodup_cons]
    refine ⟨fun hp => ?_, ht.nodup⟩
    -- the node handed out was free, and no held pointer is
    obtain ⟨a, ha', rfl⟩ := List.mem_map.mp hp
    have hfree := ha.free_p (ht.mem a ha').1
    have hu := ht.used_ptr ha'
    rw [hfree.2] at hu
    exact Bool.noConfusion hu
  accounted := by
    have htf := ha.totalFree
    have hacc := ht.accounted
    rw [List.map_cons, List.sum_cons, ha.length]
    dsimp only
    omega
  high_iff k := by
    rw [hhigh, ht.high_iff]
    constructor
    · rintro ((hk | ⟨a, ha', hak, hah⟩) | ⟨hh, rfl⟩)
      · exact Or.inl hk
      · exact Or.inr ⟨a, List.mem_cons_of_mem _ ha', hak, hah⟩
      · exact Or.inr ⟨_, List.mem_cons_self, rfl, hh⟩
    · rintro (hk | ⟨a, ha', hak, hah⟩)
      · exact Or.inl (Or.inl hk)
      · rcases List.mem_cons.mp ha' with rfl | ha'
        · exact Or.inr ⟨hah, hak.symm⟩
        · exact Or.inl (Or.inr ⟨a, ha', hak, hah⟩)

/-- The entries of the ledger other than `a` are those with another pointer. -/
theorem mem_erase_iff_ptr (hnd : (live.map Allocation.ptr).Nodup) {a b : Allocation}
    (ha : a ∈ live) : b ∈ live.erase a ↔ b ∈ live ∧ b.ptr ≠ a.ptr := by
  rw [(List.Nodup.of_map _ hnd).mem_erase_iff]
  constructor
  · rintro ⟨hba, hb⟩
    exact ⟨hb, fun hp => hba (List.inj_on_of_nodup_map hnd hb ha hp)⟩
  · rintro ⟨hb, hp⟩
    exact ⟨fun hba => hp (hba ▸ rfl), hb⟩

/-- Freeing a held pointer drops it from the ledger. -/
theorem Tracks.freed (ht : h.Tracks live) {a : Allocation} (ha : a ∈ live)
    (hf : Freed h h' a.ptr) : h'.Tracks (live.erase a) where
  wf := hf.wf
  used_iff k hk := by
    rw [hf.used.used_iff k hk]
    constructor
    · rintro ⟨hkp, hk', hu⟩
      obtain ⟨b, hb, rfl⟩ := List.mem_map.mp ((ht.used_iff k hk').mp hu)
      exact List.mem_map_of_mem ((mem_erase_iff_ptr ht.nodup ha).mpr ⟨hb, hkp⟩)
    · intro hk'
      obtain ⟨b, hb, rfl⟩ := List.mem_map.mp hk'
      obtain ⟨hb', hbp⟩ := (mem_erase_iff_ptr ht.nodup ha).mp hb
      exact ⟨hbp, (ht.mem b hb').1, ht.used_ptr hb'⟩
  mem b hb := by
    obtain ⟨hb', hbp⟩ := (mem_erase_iff_ptr ht.nodup ha).mp hb
    obtain ⟨hk, hlen⟩ := ht.mem b hb'
    exact ⟨hf.used.used_mem _ hk (ht.used_ptr hb') hbp,
      (hf.used.used_len _ hk (ht.used_ptr hb') hbp).trans hlen⟩
  nodup := ht.nodup.sublist ((List.erase_sublist).map _)
  accounted := by
    have hsum := List.sum_map_erase Allocation.size ha
    have htf := hf.totalFree
    have hacc := ht.accounted
    rw [(ht.mem a ha).2] at htf
    rw [hf.length]
    omega
  high_iff k := by
    have hpM := (ht.wf.ne_guards_of_used (ht.used_ptr ha)).2
    rw [hf.high, OrdMap.mem_keys_erase, ht.high_iff]
    constructor
    · rintro ⟨hkp, rfl | ⟨b, hb, rfl, hbh⟩⟩
      · exact Or.inl rfl
      · exact Or.inr ⟨b, (mem_erase_iff_ptr ht.nodup ha).mpr ⟨hb, hkp⟩, rfl, hbh⟩
    · rintro (rfl | ⟨b, hb, rfl, hbh⟩)
      · exact ⟨fun h => hpM h.symm, Or.inl rfl⟩
      · obtain ⟨hb', hbp⟩ := (mem_erase_iff_ptr ht.nodup ha).mp hb
        exact ⟨hbp, Or.inr ⟨b, hb', rfl, hbh⟩⟩

end Tracks

end Heap

/-! ## Runs -/

namespace Session

/-- The invariant of a session over `[base, base + length)`. -/
structure Inv (s : Session) (base length : Nat) : Prop where
  pool : s.heap.pool = base
  length : s.heap.length = length
  tracks : s.heap.Tracks s.live

theorem record_of_allocated {h h' : Heap} {live : List Allocation} {p bytes : Nat}
    (ha : Heap.Allocated h h' p bytes) (hi : Bool) :
    record live p bytes hi = ⟨p, bytes, hi⟩ :: live := by
  rw [record, if_neg ha.ptr_ne_zero]

/-- **Every request keeps the invariant.** -/
theorem Inv.step {s s' : Session} {base length : Nat} (hs : s.Inv base length) {op : Op}
    (hstep : s.step op = some s') : s'.Inv base length := by
  obtain ⟨hpool, hlength, ht⟩ := hs
  cases op with
  | alloc bytes =>
    obtain rfl := Option.some.inj hstep
    rcases Heap.alloc_spec ht.wf bytes with ⟨h0, hh⟩ | ⟨ha, hhigh⟩
    · rw [h0, hh, record, if_pos rfl]
      exact ⟨hpool, hlength, ht⟩
    · rw [record_of_allocated ha]
      refine ⟨ha.pool.trans hpool, ha.length.trans hlength, ht.allocated ha fun k => ?_⟩
      rw [hhigh]
      exact ⟨Or.inl, fun hk => hk.resolve_right fun h => Bool.noConfusion h.1⟩
  | allocHigh bytes =>
    obtain rfl := Option.some.inj hstep
    rcases Heap.allocHigh_spec ht.wf bytes with ⟨h0, hh⟩ | ⟨ha, hhigh⟩
    · rw [h0, hh, record, if_pos rfl]
      exact ⟨hpool, hlength, ht⟩
    · rw [record_of_allocated ha]
      refine ⟨ha.pool.trans hpool, ha.length.trans hlength, ht.allocated ha fun k => ?_⟩
      rw [hhigh, OrdMap.mem_keys_insert]
      exact ⟨fun hk => hk.elim (fun h => Or.inr ⟨rfl, h⟩) Or.inl,
        fun hk => hk.elim Or.inr fun h => Or.inl h.2⟩
  | free ptr =>
    dsimp only [Session.step] at hstep
    cases hfind : s.live.find? (fun a => a.ptr == ptr) with
    | none =>
      rw [hfind] at hstep
      cases hstep
    | some a =>
      rw [hfind] at hstep
      obtain rfl := Option.some.inj hstep
      -- the pointer freed is held
      have ha := List.mem_of_find?_eq_some hfind
      have hptr : a.ptr = ptr := by simpa using List.find?_some hfind
      subst hptr
      have hf := Heap.freed_free ht.wf (ht.mem a ha).1 (ht.used_ptr ha)
      exact ⟨hf.pool.trans hpool, hf.length.trans hlength, ht.freed ha hf⟩

/-- **Every run keeps the invariant.** -/
theorem Inv.run {s : Session} {base length : Nat} (hs : s.Inv base length) :
    ∀ {ops : List Op} {s' : Session}, s.run ops = some s' → s'.Inv base length := by
  intro ops
  induction ops generalizing s with
  | nil =>
    intro s' hrun
    obtain rfl := Option.some.inj hrun
    exact hs
  | cons op ops ih =>
    intro s' hrun
    cases hstep : s.step op with
    | none =>
      rw [Session.run, hstep, Option.bind_none] at hrun
      cases hrun
    | some s1 =>
      rw [Session.run, hstep] at hrun
      exact ih (hs.step hstep) hrun

end Session

/-! ## The fresh heap -/

namespace Heap

section Create

variable {base length : Nat}

theorem get_create (k : Nat) :
    (create base length).get k =
      if k = guardHigh then ⟨0, none, some base⟩
      else if k = base then ⟨length, some guardHigh, some 0⟩
      else if k = 0 then ⟨0, some base, none⟩
      else Node.blank := by
  simp only [create, get, OrdMap.find?_assign, OrdMap.find?_empty]
  split_ifs <;> rfl

theorem mem_keys_create (k : Nat) :
    k ∈ (create base length).memory.keys ↔ k = guardHigh ∨ k = base ∨ k = 0 := by
  simp only [create, OrdMap.mem_keys_assign]
  have hnil : k ∉ (OrdMap.empty : OrdMap Nat Node).keys := List.not_mem_nil
  tauto

variable (hbase : 0 < base) (hend : base + length < guardHigh)
include hbase hend

/-- All three nodes of a fresh heap are free. -/
theorem freeKey_create (k : Nat) :
    (create base length).FreeKey k ↔ k = guardHigh ∨ k = base ∨ k = 0 := by
  have hbM : base ≠ guardHigh := by omega
  rw [freeKey_iff, mem_keys_create]
  refine ⟨And.left, fun hk => ⟨hk, ?_⟩⟩
  rw [get_create]
  rcases hk with rfl | rfl | rfl
  · rw [if_pos rfl]
    exact fun h => nomatch h
  · rw [if_neg hbM, if_pos rfl]
    exact fun h => absurd (Option.some.inj h) (by decide)
  · rw [if_neg (by decide), if_neg hbase.ne, if_pos rfl]
    exact fun h => absurd (Option.some.inj h) hbase.ne'

theorem layout_create : (create base length).Layout where
  pool_pos := hbase
  pool_end := hend
  mem_zero := (mem_keys_create 0).mpr (Or.inr (Or.inr rfl))
  mem_guardHigh := (mem_keys_create _).mpr (Or.inl rfl)
  zero_len := by rw [get_create, if_neg (by decide), if_neg hbase.ne, if_pos rfl]
  guardHigh_len := by rw [get_create, if_pos rfl]
  range k hk hk0 hkM := by
    rcases (mem_keys_create k).mp hk with hkM' | hkb | hk0'
    · exact absurd hkM' hkM
    · subst hkb
      rw [get_create, if_neg hkM, if_pos rfl]
      exact ⟨le_rfl, le_rfl⟩
    · exact absurd hk0' hk0
  tiled k hk hk0 hkM := by
    rcases (mem_keys_create k).mp hk with hkM' | hkb | hk0'
    · exact absurd hkM' hkM
    · -- the one node of the pool is followed by the upper guard
      subst hkb
      have hsucc : (create k length).succAddr k = guardHigh := by
        rw [succAddr, get_create, if_neg hkM, if_pos rfl]
        exact if_pos rfl
      rw [hsucc]
      refine ⟨hk, (mem_keys_create _).mpr (Or.inl rfl), by omega, fun c hc hkc => ?_⟩
      rcases (mem_keys_create c).mp hc with rfl | rfl | rfl <;> omega
    · exact absurd hk0' hk0

theorem links_create : (create base length).Links := by
  have hF := freeKey_create hbase hend
  have hbM : base ≠ guardHigh := by omega
  have h0b : IsSucc (create base length).FreeKey 0 base := by
    refine ⟨(hF 0).mpr (Or.inr (Or.inr rfl)), (hF base).mpr (Or.inr (Or.inl rfl)), hbase,
      fun c hc h0c => ?_⟩
    rcases (hF c).mp hc with rfl | rfl | rfl <;> omega
  have hbM' : IsSucc (create base length).FreeKey base guardHigh := by
    refine ⟨(hF base).mpr (Or.inr (Or.inl rfl)), (hF _).mpr (Or.inl rfl), by omega,
      fun c hc hbc => ?_⟩
    rcases (hF c).mp hc with rfl | rfl | rfl <;> omega
  refine ⟨h0b.1, hbM'.2.1, fun y _ => Nat.zero_le y, fun y hy => ?_, ?_, ?_, ?_, ?_⟩
  · rcases (hF y).mp hy with rfl | rfl | rfl <;> omega
  · show ((create base length).get 0).prior = none
    rw [get_create, if_neg (by decide), if_neg hbase.ne, if_pos rfl]
  · show ((create base length).get guardHigh).next = none
    rw [get_create, if_pos rfl]
  · intro a ha haM
    rcases (hF a).mp ha with rfl | rfl | rfl
    · exact absurd rfl haM
    · refine ⟨guardHigh, ?_, hbM'⟩
      rw [get_create, if_neg hbM, if_pos rfl]
    · refine ⟨base, ?_, h0b⟩
      rw [get_create, if_neg (by decide), if_neg hbase.ne, if_pos rfl]
  · intro b hb hb0
    rcases (hF b).mp hb with rfl | rfl | rfl
    · refine ⟨base, ?_, hbM'⟩
      rw [get_create, if_pos rfl]
    · refine ⟨0, ?_, h0b⟩
      rw [get_create, if_neg hbM, if_pos rfl]
    · exact absurd rfl hb0

theorem apart_create : (create base length).Apart := by
  have hF := freeKey_create hbase hend
  have hbM : base ≠ guardHigh := by omega
  intro a c ha hc hac
  rcases (hF a).mp ha with rfl | rfl | rfl
  · rw [get_create, if_pos rfl] at hac
    omega
  · rw [get_create, if_neg hbM, if_pos rfl] at hac
    dsimp only at hac
    rcases (hF c).mp hc with rfl | rfl | rfl <;> omega
  · rw [get_create, if_neg (by decide), if_neg hbase.ne, if_pos rfl] at hac
    omega

/-- The constructor leaves a well-formed heap with nothing handed out. -/
theorem tracks_create : (create base length).Tracks [] := by
  have hF := freeKey_create hbase hend
  have hbM : base ≠ guardHigh := by omega
  have hM0 : guardHigh ≠ 0 := by decide
  -- the free total is the pool node's length
  have htotal : (create base length).totalFree = (create base length).freeBytes := by
    have h1 : (OrdMap.empty.assign 0 (⟨0, some base, none⟩ : Node)).find? base = none := by
      simp [hbase.ne']
    have h2 : ((OrdMap.empty.assign 0 (⟨0, some base, none⟩ : Node)).assign base
        ⟨length, some guardHigh, some 0⟩).find? guardHigh = none := by
      simp [hbM.symm, hM0]
    show length = OrdMap.sumBy (((OrdMap.empty.assign 0 (⟨0, some base, none⟩ : Node)).assign base
      ⟨length, some guardHigh, some 0⟩).assign guardHigh ⟨0, none, some base⟩) fun _ n => freeLen n
    rw [OrdMap.sumBy_assign_of_none _ _ h2, OrdMap.sumBy_assign_of_none _ _ h1,
      OrdMap.sumBy_assign_of_none _ _ rfl]
    simp [freeLen, OrdMap.sumBy, OrdMap.empty, hM0]
  refine ⟨⟨layout_create hbase hend, links_create hbase hend, apart_create hbase hend, htotal⟩,
    fun k hk => ?_, fun _ ha => absurd ha List.not_mem_nil, List.nodup_nil, rfl, fun k => ?_⟩
  · have hfree := ((hF k).mpr ((mem_keys_create k).mp hk)).2
    rw [hfree]
    exact ⟨Bool.noConfusion, fun h => absurd h List.not_mem_nil⟩
  · show k ∈ (OrdMap.empty.assign guardHigh ()).keys ↔ _
    rw [OrdMap.mem_keys_assign]
    have hnil : k ∉ (OrdMap.empty : OrdMap Nat Unit).keys := List.not_mem_nil
    constructor
    · rintro (hk | hk)
      · exact Or.inl hk
      · exact absurd hk hnil
    · rintro (hk | ⟨a, ha, -⟩)
      · exact Or.inl hk
      · exact absurd ha List.not_mem_nil

end Create

end Heap

namespace Session

theorem inv_start {base length : Nat} (hbase : 0 < base) (hend : base + length < guardHigh) :
    (start base length).Inv base length :=
  ⟨rfl, rfl, Heap.tracks_create hbase hend⟩

/-- What a caller of `SmallHeap` can rely on after a run: the facts
`run_invariant` proves of every run. -/
structure Guarantees (s : Session) (base length : Nat) : Prop where
  /-- Every live allocation lies in `[base, base + length)`. -/
  live_range : ∀ a ∈ s.live, base ≤ a.ptr ∧ a.ptr + a.size ≤ base + length
  /-- No two live allocations overlap. -/
  live_disjoint : s.live.Pairwise fun a c => a.ptr + a.size ≤ c.ptr ∨ c.ptr + c.size ≤ a.ptr
  /-- Following `next` from the guard at `0` visits exactly the nodes no
  caller holds ... -/
  walk_eq : walk (fun k => (s.heap.get k).next) s.heap.memory.size 0 = s.unheld
  /-- ... in increasing address order ... -/
  unheld_sorted : s.unheld.Pairwise (· < ·)
  /-- ... from the guard at `0` ... -/
  unheld_head : s.unheld.head? = some 0
  /-- ... to the guard at `0xFFFFFFFFFFFFFFFF`, where the list ends. -/
  unheld_last : s.unheld.getLast? = some guardHigh
  last_next : (s.heap.get guardHigh).next = none
  /-- `next` and `prior` of the free list agree. -/
  next_prior : ∀ a ∈ s.unheld, ∀ c, (s.heap.get a).next = some c → (s.heap.get c).prior = some a
  prior_next : ∀ c ∈ s.unheld, ∀ a, (s.heap.get c).prior = some a → (s.heap.get a).next = some c
  /-- No free node ends where another begins. -/
  apart : ∀ a ∈ s.unheld, ∀ c ∈ s.unheld, a + (s.heap.get a).len = c → a = c
  /-- `total_free` is the sum of the free nodes' lengths ... -/
  totalFree_eq : s.heap.totalFree = (s.unheld.map fun k => (s.heap.get k).len).sum
  /-- ... and with the live allocations makes up the pool. -/
  length_eq : length = s.heap.totalFree + (s.live.map Allocation.size).sum
  /-- `high_split()` is the least live pointer from `alloc_high`, or the
  upper guard. -/
  highSplit_eq :
    s.heap.highSplit = ((s.live.filter Allocation.high).map Allocation.ptr).foldr min guardHigh

end Session

/-- **`SmallHeap` keeps its guarantees**: after any run of requests on a heap
constructed over `[base, base + length)`, freeing only pointers it handed out
and has not taken back. -/
theorem run_invariant {base length : Nat} {ops : List Op} {s : Session} (hbase : 0 < base)
    (hend : base + length < guardHigh) (hrun : (start base length).run ops = some s) :
    s.Guarantees base length := by
  obtain ⟨hpool, hlength, ht⟩ := (Session.inv_start hbase hend).run hrun
  have hw := ht.wf
  have hun : s.unheld = s.heap.memory.keys.filter s.heap.freeAt := ht.filter_unheld
  have hmem : ∀ k, k ∈ s.unheld ↔ s.heap.FreeKey k := by
    intro k
    rw [hun, List.mem_filter]
    rfl
  have hsorted : s.unheld.Pairwise (· < ·) := hun ▸ s.heap.memory.keys_ordered.filter _
  refine ⟨fun a ha => hpool ▸ hlength ▸ ht.live_range ha, ht.live_disjoint, hun ▸ hw.walk_eq,
    hsorted, ?_, ?_, hw.links.next_hi, ?_, ?_, ?_, hun ▸ hw.totalFree_eq_sum, ?_,
    ht.highSplit_eq⟩
  · rw [Ordered.head?_eq_some_iff hsorted, hmem]
    exact ⟨hw.links.lo_mem, fun b _ => Nat.zero_le b⟩
  · rw [Ordered.getLast?_eq_some_iff hsorted, hmem]
    exact ⟨hw.links.hi_mem, fun b hb => hw.links.le_hi b ((hmem b).mp hb)⟩
  · intro a ha c hc
    by_cases haM : a = guardHigh
    · rw [haM, hw.links.next_hi] at hc
      cases hc
    · obtain ⟨b, hb, hab⟩ := hw.links.next_link a ((hmem a).mp ha) haM
      rw [hc] at hb
      cases hb
      exact hw.links.prior_eq hab
  · intro c hc a ha
    by_cases hc0 : c = 0
    · rw [hc0, hw.links.prior_lo] at ha
      cases ha
    · obtain ⟨b, hb, hbc⟩ := hw.links.prior_link c ((hmem c).mp hc) hc0
      rw [ha] at hb
      cases hb
      exact hw.links.next_eq hbc
  · intro a ha c hc hac
    exact hw.apart a c ((hmem a).mp ha) ((hmem c).mp hc) hac
  · have hacc := ht.accounted
    rw [hlength] at hacc
    omega

theorem run_invariant_three_requests :
    0 < 4096 ∧ 4096 + 8192 < guardHigh ∧
      (start 4096 8192).run [.alloc 256, .allocHigh 512, .free 4096] =
        some (((start 4096 8192).run [.alloc 256, .allocHigh 512, .free 4096]).getD
          (start 4096 8192)) ∧
      (((start 4096 8192).run [.alloc 256, .allocHigh 512, .free 4096]).getD
          (start 4096 8192)).Guarantees 4096 8192 :=
  have hrun : (start 4096 8192).run [.alloc 256, .allocHigh 512, .free 4096] =
      some (((start 4096 8192).run [.alloc 256, .allocHigh 512, .free 4096]).getD
        (start 4096 8192)) := rfl
  ⟨by decide, by decide, hrun, run_invariant (by decide) (by decide) hrun⟩

end SmallHeap
