import Mathlib
import Rocr.Runtime.ScratchCache

/-!
# Runs of the scratch cache

The scratch of a queue is a node of the agent's `ScratchCache`, found there
or newly inserted, or the reserved node; the queue's `ScratchInfo` keeps the
handle (`main_scratch_node`, `alt_scratch_node`) while its base is set.  The
callers keep to the asserts of `amd_gpu_agent.cpp`: a queue acquires scratch
only while it holds none, the reserved memory is a pool allocation that is
not `nullptr`, and the agent is torn down once its queues have released their
scratch (`Op.Ok`).  Over any sequence of such calls (`Reachable`):

1.  `available_bytes_` is the number of bytes of the free nodes, the reserved
    node included while it is free (`ScratchCache.Counted`);
2.  the nodes in use are exactly the scratch the queues hold, and no node is
    held twice, by two queues or by one queue as main and alternate scratch
    (`System.Inv`).

Each cache call is described once by what it does to the free bytes and to
the nodes in use: an acquisition puts in use exactly the handles it hands
out, none of which was in use (`Grants`), and a release takes exactly its
handle out of use (`Frees`).  The acquisition paths of the agent, with their
pool attempts, the trims between them and the reserved node, are shown to be
such acquisitions (`acquireQueueMainScratch_grants`,
`acquireQueueAltScratch_grants`), and the system invariant follows from them
one call at a time (`Inv.step`, `Reachable.inv`).
-/

namespace Scratch

/-- A queue's scratch handle: a node of the cache's map, by its identity, or
the reserved node (`map.end()`). -/
inductive Handle where
  | node (id : Nat)
  | reserved
deriving DecidableEq, Repr

namespace ScratchInfo

/-- The main scratch a queue holds: none while `main_queue_base` is `nullptr`. -/
def mainHeld (info : ScratchInfo) : List Handle :=
  if info.mainQueueBase = 0 then [] else [(info.mainScratchNode.map Handle.node).getD .reserved]

/-- The alternate scratch a queue holds: none while `alt_queue_base` is `nullptr`. -/
def altHeld (info : ScratchInfo) : List Handle :=
  if info.altQueueBase = 0 then [] else [.node info.altScratchNode]

def held (info : ScratchInfo) : List Handle := info.mainHeld ++ info.altHeld

end ScratchInfo

namespace ScratchCache

/-- The bytes of the free nodes of a list of map nodes. -/
def freeNodeBytes (ns : List (MultiMap.Node Nat Node)) : Nat :=
  ((ns.filter fun n => n.value.isFree).map MultiMap.Node.key).sum

/-- The bytes the cache holds free: its free nodes, and the reserved node
while it is free. -/
def freeSum (c : ScratchCache) : Nat :=
  freeNodeBytes c.map.nodes + if c.reserved.2.isFree then c.reserved.1 else 0

/-- `available_bytes_` counts the free bytes, as a `size_t`. -/
def Counted (c : ScratchCache) : Prop := c.availableBytes = UInt64.ofNat c.freeSum

/-- Node `i` of the map is in use. -/
def InUse (m : MultiMap Nat Node) (i : Nat) : Prop :=
  ∃ n ∈ m.nodes, n.id = i ∧ n.value.isFree = false

/-- A handle designates memory in use: a node of the map that is not free, or
the reserved node while it is in use and has bytes. -/
def Allocated (c : ScratchCache) : Handle → Prop
  | .node i => InUse c.map i
  | .reserved => c.reserved.2.isFree = false ∧ c.reserved.1 ≠ 0

/-- The nodes' memory: every node of the map has a base, and the reserved node
has one exactly when it has bytes. -/
structure Shape (c : ScratchCache) : Prop where
  bases : ∀ n ∈ c.map.nodes, n.value.base ≠ 0
  reserved : c.reserved.1 = 0 ↔ c.reserved.2.base = 0

/-- **What an acquisition does to the cache.**  The free bytes stay counted,
the shape is kept, and the handles in use afterwards are those in use before
and the handles `new` it hands out, none of which was in use. -/
structure Grants (c c' : ScratchCache) (new : List Handle) : Prop where
  counted : c.Counted → c'.Counted
  shape : c.Shape → c'.Shape
  alloc : ∀ x, c'.Allocated x ↔ c.Allocated x ∨ x ∈ new
  fresh : ∀ x ∈ new, ¬ c.Allocated x

/-- **What a release does to the cache.**  The free bytes stay counted, the
shape is kept, and the handles `gone` are no longer in use, the others as
before. -/
structure Frees (c c' : ScratchCache) (gone : List Handle) : Prop where
  counted : c.Counted → c'.Counted
  shape : c.Shape → c'.Shape
  alloc : ∀ x, c'.Allocated x ↔ c.Allocated x ∧ x ∉ gone

/-- An acquisition of main scratch by a queue whose scratch was `info` and is
now `info'`: the cache grants the main scratch the queue holds, and the
queue's alternate scratch is as it was. -/
def GrantsMain (c c' : ScratchCache) (info info' : ScratchInfo) : Prop :=
  Grants c c' info'.mainHeld ∧ info'.altHeld = info.altHeld

/-- An acquisition of alternate scratch, the main scratch as it was. -/
def GrantsAlt (c c' : ScratchCache) (info info' : ScratchInfo) : Prop :=
  Grants c c' info'.altHeld ∧ info'.mainHeld = info.mainHeld

end ScratchCache

namespace ScratchInfo

variable {info : ScratchInfo} {i : Nat}

theorem mainHeld_of_zero (h : info.mainQueueBase = 0) : info.mainHeld = [] := by
  simp [mainHeld, h]

theorem mainHeld_of_node (h : info.mainQueueBase ≠ 0) (hi : info.mainScratchNode = some i) :
    info.mainHeld = [.node i] := by
  simp [mainHeld, h, hi]

theorem altHeld_of_zero (h : info.altQueueBase = 0) : info.altHeld = [] := by
  simp [altHeld, h]

theorem altHeld_of_ne (h : info.altQueueBase ≠ 0) : info.altHeld = [.node info.altScratchNode] := by
  simp [altHeld, h]

theorem mainHeld_nodup : info.mainHeld.Nodup := by
  unfold mainHeld
  split <;> simp

theorem altHeld_nodup : info.altHeld.Nodup := by
  unfold altHeld
  split <;> simp

end ScratchInfo

namespace Node

@[simp] theorem isFree_alloc (n : Node) : n.alloc.isFree = false := rfl

@[simp] theorem isFree_free (n : Node) : n.free.isFree = true := rfl

@[simp] theorem isFree_trim (n : Node) : n.trim.isFree = false := by
  simp only [isFree, trim, beq_eq_false_iff_ne]
  intro h
  have := congrArg UInt32.toNat h
  simp [UInt32.toNat_or, State.trim, State.free] at this

@[simp] theorem base_alloc (n : Node) : n.alloc.base = n.base := rfl

@[simp] theorem base_free (n : Node) : n.free.base = n.base := rfl

@[simp] theorem base_trim (n : Node) : n.trim.base = n.base := rfl

end Node

namespace ScratchCache

/-! ## The free bytes of a list of nodes -/

section Bytes

variable {n : MultiMap.Node Nat Node} {ns : List (MultiMap.Node Nat Node)}

/-- What one node adds to the free bytes. -/
def cost (n : MultiMap.Node Nat Node) : Nat := if n.value.isFree then n.key else 0

@[simp] theorem freeNodeBytes_nil : freeNodeBytes [] = 0 := rfl

theorem freeNodeBytes_cons (n : MultiMap.Node Nat Node) (ns : List (MultiMap.Node Nat Node)) :
    freeNodeBytes (n :: ns) = cost n + freeNodeBytes ns := by
  unfold freeNodeBytes cost
  by_cases h : n.value.isFree <;> simp [h]

theorem freeNodeBytes_perm {ms : List (MultiMap.Node Nat Node)} (h : ns.Perm ms) :
    freeNodeBytes ns = freeNodeBytes ms :=
  ((h.filter _).map _).sum_eq

/-- The nodes of other identities are left as they are by a modification. -/
theorem map_modify_of_forall_ne {i : Nat} (f : Node → Node) (h : ∀ m ∈ ns, m.id ≠ i) :
    ns.map (fun m => ({ m with value := if m.id = i then f m.value else m.value } : MultiMap.Node Nat Node)) =
      ns := by
  induction ns with
  | nil => rfl
  | cons m ms ih =>
    rw [List.map_cons, ih fun m' hm' => h m' (List.mem_cons_of_mem m hm'),
      if_neg (h m List.mem_cons_self)]

/-- Changing the value of node `n` moves its key into or out of the free bytes. -/
theorem freeNodeBytes_modify (f : Node → Node) (hn : n ∈ ns) (hd : (ns.map MultiMap.Node.id).Nodup) :
    freeNodeBytes (ns.map fun m => { m with value := if m.id = n.id then f m.value else m.value }) + cost n =
      freeNodeBytes ns + cost { n with value := f n.value } := by
  induction ns with
  | nil => cases hn
  | cons m ms ih =>
    rw [List.map_cons, List.nodup_cons] at hd
    have hms : ∀ m' ∈ ms, m'.id ≠ m.id := fun m' hm' h => hd.1 (h ▸ List.mem_map_of_mem hm')
    rcases List.mem_cons.mp hn with rfl | hn
    · -- `n` is the head: the rest of the list is left alone
      rw [List.map_cons, map_modify_of_forall_ne f hms, if_pos rfl, freeNodeBytes_cons, freeNodeBytes_cons]
      omega
    · have hne : m.id ≠ n.id := fun h => hms n hn h.symm
      have hm : cost ⟨m.id, m.key, m.value⟩ = cost m := rfl
      rw [List.map_cons, if_neg hne, freeNodeBytes_cons, freeNodeBytes_cons, hm, Nat.add_assoc, ih hn hd.2]
      omega

/-- Erasing node `n` takes its key out of the free bytes. -/
theorem freeNodeBytes_erase (hn : n ∈ ns) (hd : (ns.map MultiMap.Node.id).Nodup) :
    freeNodeBytes (ns.filter fun m => decide (m.id ≠ n.id)) + cost n = freeNodeBytes ns := by
  induction ns with
  | nil => cases hn
  | cons m ms ih =>
    rw [List.map_cons, List.nodup_cons] at hd
    have hms : ∀ m' ∈ ms, m'.id ≠ m.id := fun m' hm' h => hd.1 (h ▸ List.mem_map_of_mem hm')
    rcases List.mem_cons.mp hn with rfl | hn
    · -- `n` is the head, and no node after it has its identity
      rw [List.filter_cons_of_neg (by simp), List.filter_eq_self.2 (by simpa using hms), freeNodeBytes_cons]
      omega
    · have hne : m.id ≠ n.id := fun h => hms n hn h.symm
      rw [List.filter_cons_of_pos (by simpa using hne), freeNodeBytes_cons, freeNodeBytes_cons, Nat.add_assoc,
        ih hn hd.2]

end Bytes

/-! ## Nodes in use -/

section InUse

variable {m : MultiMap Nat Node} {n : MultiMap.Node Nat Node} {i j : Nat} {f : Node → Node}

theorem inUse_iff_of_mem (hn : n ∈ m.nodes) : InUse m n.id ↔ n.value.isFree = false := by
  constructor
  · rintro ⟨n', hn', hid, hfree⟩
    rwa [← MultiMap.eq_of_id_eq hn' hn hid]
  · intro h
    exact ⟨n, hn, rfl, h⟩

theorem not_inUse_nextId : ¬ InUse m m.nextId := by
  rintro ⟨n, hn, hid, -⟩
  exact MultiMap.ne_nextId hn hid

theorem inUse_erase : InUse (m.erase i) j ↔ InUse m j ∧ j ≠ i := by
  constructor
  · rintro ⟨n, hn, rfl, hfree⟩
    rw [MultiMap.mem_erase] at hn
    exact ⟨⟨n, hn.1, rfl, hfree⟩, hn.2⟩
  · rintro ⟨⟨n, hn, rfl, hfree⟩, hne⟩
    exact ⟨n, MultiMap.mem_erase.mpr ⟨hn, hne⟩, rfl, hfree⟩

theorem inUse_insert {k : Nat} {v : Node} :
    InUse (m.insert k v).1 j ↔ InUse m j ∨ (j = m.nextId ∧ v.isFree = false) := by
  simp only [InUse, MultiMap.mem_insert]
  constructor
  · rintro ⟨n, rfl | hn, rfl, hfree⟩
    · exact .inr ⟨rfl, hfree⟩
    · exact .inl ⟨n, hn, rfl, hfree⟩
  · rintro (⟨n, hn, rfl, hfree⟩ | ⟨rfl, hfree⟩)
    · exact ⟨n, .inr hn, rfl, hfree⟩
    · exact ⟨_, .inl rfl, rfl, hfree⟩

theorem inUse_modify :
    InUse (m.modify i f) j ↔ ∃ n ∈ m.nodes, n.id = j ∧ (if j = i then f n.value else n.value).isFree = false := by
  simp only [InUse, MultiMap.mem_modify]
  constructor
  · rintro ⟨_, ⟨n, hn, rfl⟩, rfl, hfree⟩
    exact ⟨n, hn, rfl, hfree⟩
  · rintro ⟨n, hn, rfl, hfree⟩
    exact ⟨_, ⟨n, hn, rfl⟩, rfl, hfree⟩

theorem inUse_modify_of_ne (h : j ≠ i) : InUse (m.modify i f) j ↔ InUse m j := by
  simp only [inUse_modify, if_neg h]
  rfl

theorem inUse_modify_self (hn : n ∈ m.nodes) : InUse (m.modify n.id f) n.id ↔ (f n.value).isFree = false := by
  rw [inUse_modify]
  constructor
  · rintro ⟨n', hn', hid, hfree⟩
    rwa [if_pos rfl, MultiMap.eq_of_id_eq hn' hn hid] at hfree
  · intro h
    exact ⟨n, hn, rfl, by rwa [if_pos rfl]⟩

/-- A modification that keeps the bases keeps every node's base set. -/
theorem bases_modify (hf : ∀ v, (f v).base = v.base) (hb : ∀ n ∈ m.nodes, n.value.base ≠ 0) :
    ∀ n ∈ (m.modify i f).nodes, n.value.base ≠ 0 := by
  intro n hn
  obtain ⟨n', hn', rfl⟩ := MultiMap.mem_modify.mp hn
  dsimp only
  split
  · rw [hf]
    exact hb n' hn'
  · exact hb n' hn'

end InUse

/-! ## Counting and the two kinds of calls -/

section Calls

variable {c c' c₁ c₂ c₃ : ScratchCache} {k : Nat} {new new₁ new₂ : List Handle}

theorem Counted.of_sub (hc : c.Counted) (hsum : c'.freeSum + k = c.freeSum)
    (ha : c'.availableBytes = c.availableBytes - UInt64.ofNat k) : c'.Counted := by
  rw [Counted, ha, hc, ← hsum, UInt64.ofNat_add, add_sub_cancel_right]

theorem Counted.of_add (hc : c.Counted) (hsum : c'.freeSum = c.freeSum + k)
    (ha : c'.availableBytes = c.availableBytes + UInt64.ofNat k) : c'.Counted := by
  rw [Counted, ha, hc, hsum, UInt64.ofNat_add]

theorem Counted.of_eq (hc : c.Counted) (hsum : c'.freeSum = c.freeSum)
    (ha : c'.availableBytes = c.availableBytes) : c'.Counted := by
  rw [Counted, ha, hc, hsum]

theorem Shape.of_map (hs : c.Shape) (hr : c'.reserved = c.reserved)
    (hb : ∀ n ∈ c'.map.nodes, n.value.base ≠ 0) : c'.Shape :=
  ⟨hb, hr ▸ hs.reserved⟩

theorem Grants.refl (c : ScratchCache) : Grants c c [] where
  counted := id
  shape := id
  alloc x := by simp
  fresh x hx := by cases hx

/-- Acquisitions compose: what the second hands out was in use after neither. -/
theorem Grants.trans (h₁ : Grants c₁ c₂ new₁) (h₂ : Grants c₂ c₃ new₂) : Grants c₁ c₃ (new₁ ++ new₂) where
  counted := h₂.counted ∘ h₁.counted
  shape := h₂.shape ∘ h₁.shape
  alloc x := by rw [h₂.alloc, h₁.alloc, List.mem_append, or_assoc]
  fresh x hx := by
    rcases List.mem_append.mp hx with hx | hx
    · exact h₁.fresh x hx
    · exact fun h => h₂.fresh x hx ((h₁.alloc x).mpr (.inl h))

theorem Frees.refl (c : ScratchCache) : Frees c c [] where
  counted := id
  shape := id
  alloc x := by simp

/-- The free bytes after a modification of node `n`. -/
theorem freeSum_modify (f : Node → Node) {n : MultiMap.Node Nat Node} (hn : n ∈ c.map.nodes) (a : UInt64) :
    freeSum ⟨c.map.modify n.id f, a, c.reserved⟩ + cost n = c.freeSum + cost { n with value := f n.value } := by
  have h := freeNodeBytes_modify f hn c.map.distinct
  simp only [freeSum, MultiMap.nodes_modify]
  omega

/-- The free bytes after node `n` is erased. -/
theorem freeSum_erase {n : MultiMap.Node Nat Node} (hn : n ∈ c.map.nodes) (a : UInt64) :
    freeSum ⟨c.map.erase n.id, a, c.reserved⟩ + cost n = c.freeSum := by
  have h := freeNodeBytes_erase hn c.map.distinct
  simp only [freeSum, MultiMap.nodes_erase]
  omega

/-- The free bytes after the reserved node changes. -/
theorem freeSum_reserved (a : UInt64) (r : Nat × Node) :
    freeSum ⟨c.map, a, r⟩ + (if c.reserved.2.isFree then c.reserved.1 else 0) =
      c.freeSum + (if r.2.isFree then r.1 else 0) := by
  simp only [freeSum]
  omega

end Calls

/-! ## The cache calls -/

section Ops

variable {c : ScratchCache} {n : MultiMap.Node Nat Node} {info : ScratchInfo}

/-- Node `n` changed by `f`: it is in use as `f` leaves it, every other handle
as before. -/
theorem allocated_modify (f : Node → Node) (hn : n ∈ c.map.nodes) (a : UInt64) (x : Handle) :
    Allocated ⟨c.map.modify n.id f, a, c.reserved⟩ x ↔
      if x = .node n.id then (f n.value).isFree = false else c.Allocated x := by
  cases x with
  | reserved => simp [Allocated]
  | node j =>
    by_cases hj : j = n.id
    · subst hj
      simp [Allocated, inUse_modify_self hn]
    · simp [Allocated, inUse_modify_of_ne hj, hj]

/-- Node `n` erased: it is out of use, every other handle as before. -/
theorem allocated_erase (a : UInt64) (x : Handle) :
    Allocated ⟨c.map.erase n.id, a, c.reserved⟩ x ↔ c.Allocated x ∧ x ≠ .node n.id := by
  cases x with
  | reserved => simp [Allocated]
  | node j => simp [Allocated, inUse_erase]

/-- `allocMain` and `allocAlt` take a free node. -/
theorem take_grants (hn : n ∈ c.map.nodes) (hfree : n.value.isFree = true) :
    Grants c (c.take n) [.node n.id] where
  counted hc := by
    have h := freeSum_modify Node.alloc hn (c.take n).availableBytes
    simp only [cost, hfree, Node.isFree_alloc, if_true, Bool.false_eq_true, if_false, add_zero] at h
    exact hc.of_sub h rfl
  shape hs := hs.of_map rfl (bases_modify Node.base_alloc hs.bases)
  alloc x := by
    rw [take, allocated_modify Node.alloc hn]
    by_cases hx : x = .node n.id <;> simp [hx]
  fresh x hx := by
    rw [List.mem_singleton] at hx
    subst hx
    simp [Allocated, inUse_iff_of_mem hn, hfree]

@[simp] theorem insertNode_fst (size base : Nat) (large : Bool) :
    (c.insertNode size base large).1 = { c with map := (c.map.insert size (Node.alloc ⟨base, large, Node.State.free⟩)).1 } :=
  rfl

@[simp] theorem insertNode_snd (size base : Nat) (large : Bool) :
    (c.insertNode size base large).2 = c.map.nextId :=
  rfl

theorem insertMain_eq : c.insertMain info =
    ((c.insertNode info.mainSize info.mainQueueBase info.large).1, { info with mainScratchNode := some c.map.nextId }) :=
  rfl

theorem insertAlt_eq : c.insertAlt info =
    ((c.insertNode info.altSize info.altQueueBase false).1, { info with altScratchNode := c.map.nextId }) :=
  rfl

/-- `insertMain` and `insertAlt` add a node in use under a fresh identity. -/
theorem insertNode_grants {size base : Nat} {large : Bool} (hb : base ≠ 0) :
    Grants c (c.insertNode size base large).1 [.node c.map.nextId] where
  counted hc := by
    refine hc.of_eq ?_ rfl
    have hperm := freeNodeBytes_perm
      (MultiMap.insertList_perm ⟨c.map.nextId, size, Node.alloc ⟨base, large, Node.State.free⟩⟩ c.map.nodes)
    have hcost : cost ⟨c.map.nextId, size, Node.alloc ⟨base, large, Node.State.free⟩⟩ = 0 := rfl
    rw [freeNodeBytes_cons, hcost, zero_add] at hperm
    show freeNodeBytes (MultiMap.insertList _ c.map.nodes) + _ = freeNodeBytes c.map.nodes + _
    rw [hperm]
    rfl
  shape hs := by
    refine hs.of_map rfl ?_
    intro m hm
    rcases MultiMap.mem_insert.mp hm with rfl | hm
    · exact hb
    · exact hs.bases m hm
  alloc x := by
    cases x with
    | reserved => simp [Allocated]
    | node j => simp [Allocated, inUse_insert]
  fresh x hx := by
    rw [List.mem_singleton] at hx
    subst hx
    exact not_inUse_nextId

/-- `insertMain` of a pool allocation, for a queue whose alternate scratch
was as in `info₀`. -/
theorem insertMain_grants {info₀ : ScratchInfo} (hb : info.mainQueueBase ≠ 0) (halt : info.altHeld = info₀.altHeld) :
    GrantsMain c (c.insertMain info).1 info₀ (c.insertMain info).2 := by
  rw [insertMain_eq]
  refine ⟨?_, halt⟩
  simp only [ScratchInfo.mainHeld, if_neg hb, Option.map_some, Option.getD_some]
  exact insertNode_grants hb

/-- `insertAlt` of a pool allocation. -/
theorem insertAlt_grants {info₀ : ScratchInfo} (hb : info.altQueueBase ≠ 0) (hmain : info.mainHeld = info₀.mainHeld) :
    GrantsAlt c (c.insertAlt info).1 info₀ (c.insertAlt info).2 := by
  rw [insertAlt_eq]
  refine ⟨?_, hmain⟩
  simp only [ScratchInfo.altHeld, if_neg hb]
  exact insertNode_grants hb

/-- One visit of the loop of `trim`. -/
def trimStep (trimNodesInUse : Bool) (n : MultiMap.Node Nat Node) (c : ScratchCache) : ScratchCache :=
  if n.value.isFree then { c with availableBytes := c.availableBytes - UInt64.ofNat n.key, map := c.map.erase n.id }
  else if trimNodesInUse then { c with map := c.map.modify n.id Node.trim } else c

theorem trimLoop_cons_fst (tnu : Bool) (n : MultiMap.Node Nat Node) (ns : List (MultiMap.Node Nat Node)) :
    (trimLoop tnu (n :: ns) c).1 = (trimLoop tnu ns (trimStep tnu n c)).1 := by
  by_cases h : n.value.isFree <;> simp [trimLoop, trimStep, h]

/-- A visit deallocates a free node or marks a node in use: no handle changes
use, and every other node is left as it is. -/
theorem trimStep_grants (tnu : Bool) (hn : n ∈ c.map.nodes) :
    Grants c (trimStep tnu n c) [] ∧ ∀ m ∈ c.map.nodes, m.id ≠ n.id → m ∈ (trimStep tnu n c).map.nodes := by
  by_cases hfree : n.value.isFree = true
  · -- a free node: deallocated and erased
    rw [trimStep, if_pos hfree]
    refine ⟨⟨fun hc => hc.of_sub (by simpa [cost, hfree] using freeSum_erase hn (c.availableBytes - UInt64.ofNat n.key)) rfl,
      fun hs => hs.of_map rfl fun m hm => hs.bases m (MultiMap.mem_erase.mp hm).1, fun x => ?_,
      fun x hx => by cases hx⟩, fun m hm hne => MultiMap.mem_erase.mpr ⟨hm, hne⟩⟩
    rw [allocated_erase, List.mem_nil_iff, or_false, and_iff_left_iff_imp]
    intro h hx
    subst hx
    simp [Allocated, inUse_iff_of_mem hn, hfree] at h
  · rw [Bool.not_eq_true] at hfree
    rw [trimStep, if_neg (by simp [hfree])]
    cases tnu with
    | false => exact ⟨Grants.refl c, fun m hm _ => hm⟩
    | true =>
      -- a node in use: marked, and still in use
      refine ⟨⟨fun hc => hc.of_eq (by simpa [cost, hfree] using freeSum_modify Node.trim hn c.availableBytes) rfl,
        fun hs => hs.of_map rfl (bases_modify Node.base_trim hs.bases), fun x => ?_,
        fun x hx => by cases hx⟩, fun m hm hne => MultiMap.mem_modify_of_ne hm hne⟩
      rw [if_pos rfl, allocated_modify Node.trim hn]
      by_cases hx : x = .node n.id <;> simp [hx, Allocated, inUse_iff_of_mem hn, hfree]

/-- The loop of `trim` over a list of distinct nodes of the map: by induction
on the nodes left, each still in the map as it was when the loop began. -/
theorem trimLoop_grants (tnu : Bool) (ns : List (MultiMap.Node Nat Node)) (c : ScratchCache)
    (hd : (ns.map MultiMap.Node.id).Nodup) (hns : ∀ m ∈ ns, m ∈ c.map.nodes) :
    Grants c (trimLoop tnu ns c).1 [] := by
  induction ns generalizing c with
  | nil => exact Grants.refl c
  | cons n ns ih =>
    rw [List.map_cons, List.nodup_cons] at hd
    have hrest : ∀ m ∈ ns, m.id ≠ n.id := fun m hm h => hd.1 (h ▸ List.mem_map_of_mem hm)
    obtain ⟨hstep, hkeep⟩ := trimStep_grants tnu (hns n List.mem_cons_self)
    rw [trimLoop_cons_fst]
    exact hstep.trans (ih _ hd.2 fun m hm => hkeep m (hns m (List.mem_cons_of_mem n hm)) (hrest m hm))

theorem trim_grants (tnu : Bool) : Grants c (c.trim tnu).1.1 [] :=
  trimLoop_grants tnu c.map.nodes c c.map.distinct fun _ hm => hm

/-- `freeMain` and `freeAlt` on a node in use: erased when its trim is
pending, marked free otherwise. -/
theorem freeNode_frees {i : Nat} (h : InUse c.map i) : Frees c (c.freeNode i).1 [.node i] := by
  obtain ⟨n, hn, rfl, hused⟩ := h
  have hcost : cost n = 0 := by simp [cost, hused]
  by_cases htp : n.value.trimPending = true
  · -- the node was trimmed while in use: it is deallocated now
    have hc' : (c.freeNode n.id).1 = ⟨c.map.erase n.id, c.availableBytes, c.reserved⟩ := by
      simp [freeNode, MultiMap.get?_of_mem hn, htp]
    rw [hc']
    refine ⟨fun hc => hc.of_eq (by simpa [hcost] using freeSum_erase hn c.availableBytes) rfl,
      fun hs => hs.of_map rfl fun m hm => hs.bases m (MultiMap.mem_erase.mp hm).1, fun x => ?_⟩
    simp [allocated_erase]
  · have hc' : (c.freeNode n.id).1 =
        ⟨c.map.modify n.id Node.free, c.availableBytes + UInt64.ofNat n.key, c.reserved⟩ := by
      simp [freeNode, MultiMap.get?_of_mem hn, htp]
    rw [hc']
    have hsum := freeSum_modify Node.free hn (c.availableBytes + UInt64.ofNat n.key)
    rw [hcost, add_zero] at hsum
    simp only [cost, Node.isFree_free, if_true] at hsum
    refine ⟨fun hc => hc.of_add hsum rfl, fun hs => hs.of_map rfl (bases_modify Node.base_free hs.bases),
      fun x => ?_⟩
    rw [allocated_modify Node.free hn]
    by_cases hx : x = .node n.id <;> simp [hx]

/-- `freeMain` of the main scratch a queue holds. -/
theorem freeMain_frees (h0 : info.mainQueueBase ≠ 0) (hal : ∀ x ∈ info.mainHeld, c.Allocated x) :
    Frees c (c.freeMain info).1 info.mainHeld := by
  cases hnode : info.mainScratchNode with
  | none =>
    -- the reserved node: marked free, its bytes counted again
    have hheld : info.mainHeld = [.reserved] := by simp [ScratchInfo.mainHeld, h0, hnode]
    rw [hheld] at hal ⊢
    obtain ⟨hused, -⟩ := hal .reserved (List.mem_singleton_self _)
    have hc' : (c.freeMain info).1 =
        ⟨c.map, c.availableBytes + UInt64.ofNat c.reserved.1, (c.reserved.1, c.reserved.2.free)⟩ := by
      simp [freeMain, hnode]
    rw [hc']
    have hsum := freeSum_reserved (c := c) (c.availableBytes + UInt64.ofNat c.reserved.1)
      (c.reserved.1, c.reserved.2.free)
    simp only [hused, Node.isFree_free, Bool.false_eq_true, if_false, if_true, add_zero] at hsum
    refine ⟨fun hc => hc.of_add hsum rfl, fun hs => ⟨hs.bases, hs.reserved⟩, fun x => ?_⟩
    cases x with
    | reserved => simp [Allocated]
    | node j => simp [Allocated]
  | some i =>
    have hheld : info.mainHeld = [.node i] := ScratchInfo.mainHeld_of_node h0 hnode
    rw [hheld] at hal ⊢
    have hc' : (c.freeMain info).1 = (c.freeNode i).1 := by simp [freeMain, hnode]
    rw [hc']
    exact freeNode_frees (hal _ (List.mem_singleton_self _))

/-- `freeAlt` of the alternate scratch a queue holds. -/
theorem freeAlt_frees (h0 : info.altQueueBase ≠ 0) (hal : ∀ x ∈ info.altHeld, c.Allocated x) :
    Frees c (c.freeAlt info).1 info.altHeld := by
  rw [ScratchInfo.altHeld_of_ne h0] at hal ⊢
  exact freeNode_frees (hal _ (List.mem_singleton_self _))

theorem findSmall_mem {size : Nat} (h : c.findSmall size = some n) :
    n ∈ c.map.nodes ∧ n.value.isFree = true := by
  have hmem := List.mem_of_find?_eq_some h
  have hp := List.find?_some h
  simp only [Bool.and_eq_true] at hp
  exact ⟨MultiMap.mem_of_mem_fromUpperBound ((List.takeWhile_prefix _).subset hmem), hp.1⟩

/-- `allocMain` hands out a free node of the map. -/
theorem allocMain_grants (hs : c.Shape) {r : ScratchCache × ScratchInfo} (h : c.allocMain info = some r) :
    GrantsMain c r.1 info r.2 := by
  simp only [allocMain, Option.map_eq_some_iff] at h
  obtain ⟨n, hfound, rfl⟩ := h
  have hn : n ∈ c.map.nodes ∧ n.value.isFree = true := by
    split_ifs at hfound
    · exact findSmall_mem hfound
    · exact ⟨MultiMap.mem_of_mem_fromUpperBound (List.mem_of_find?_eq_some hfound),
        by simpa using List.find?_some hfound⟩
  have hheld : ({ info with mainQueueBase := n.value.base, mainScratchNode := some n.id } : ScratchInfo).mainHeld =
      [.node n.id] :=
    ScratchInfo.mainHeld_of_node (hs.bases n hn.1) rfl
  exact ⟨hheld ▸ take_grants hn.1 hn.2, rfl⟩

/-- `allocAlt` hands out a free node of the map. -/
theorem allocAlt_grants (hs : c.Shape) {r : ScratchCache × ScratchInfo} (h : c.allocAlt info = some r) :
    GrantsAlt c r.1 info r.2 := by
  simp only [allocAlt, Option.map_eq_some_iff] at h
  obtain ⟨n, hfound, rfl⟩ := h
  have hn : n ∈ c.map.nodes ∧ n.value.isFree = true := by
    split_ifs at hfound
    exact findSmall_mem hfound
  have hheld : ({ info with altQueueBase := n.value.base, altScratchNode := n.id } : ScratchInfo).altHeld =
      [.node n.id] :=
    ScratchInfo.altHeld_of_ne (hs.bases n hn.1)
  exact ⟨hheld ▸ take_grants hn.1 hn.2, rfl⟩

/-- `use_reserved` hands out the reserved node, which was free; a reserved
node of no bytes has no base, so the queue then holds no scratch. -/
theorem useReserved_grants (hs : c.Shape) {r : ScratchCache × ScratchInfo} (h : c.useReserved info = some r) :
    GrantsMain c r.1 info r.2 := by
  unfold useReserved at h
  split_ifs at h with hc
  cases h
  have hfree : c.reserved.2.isFree = true := by
    by_contra hne
    exact hc (by simp [hne])
  have hsum := freeSum_reserved (c := c) (c.availableBytes - UInt64.ofNat c.reserved.1)
    (c.reserved.1, Node.alloc { c.reserved.2 with large := info.large })
  simp only [hfree, Node.isFree_alloc, Bool.false_eq_true, if_false, if_true, add_zero] at hsum
  refine ⟨⟨fun hc' => hc'.of_sub hsum rfl, fun _ => ⟨hs.bases, hs.reserved⟩, fun x => ?_, fun x hx => ?_⟩, rfl⟩
  · cases x with
    | reserved =>
      by_cases hb : c.reserved.2.base = 0
      · simp [Allocated, ScratchInfo.mainHeld, hb, hs.reserved.mpr hb]
      · simp [Allocated, ScratchInfo.mainHeld, hb, hfree, mt hs.reserved.mp hb]
    | node j =>
      simp only [Allocated, ScratchInfo.mainHeld]
      split <;> simp
  · have hx' : x = .reserved := by
      simp only [ScratchInfo.mainHeld] at hx
      split at hx <;> simp_all
    subst hx'
    simp [Allocated, hfree]

/-- `reserve` of a pool allocation while the reserved node has no bytes. -/
theorem reserve_grants {bytes base : Nat} (h0 : c.reserved.1 = 0) (hbytes : bytes ≠ 0) (hbase : base ≠ 0) :
    Grants c (c.reserve bytes base) [] := by
  have hsum := freeSum_reserved (c := c) (c.availableBytes + UInt64.ofNat bytes) (bytes, ⟨base, false, Node.State.free⟩)
  have hfree : (⟨base, false, Node.State.free⟩ : Node).isFree = true := rfl
  simp only [h0, hfree, if_true, ite_self, add_zero] at hsum
  refine ⟨fun hc => hc.of_add hsum rfl, fun hs => ⟨hs.bases, by simp [reserve, hbytes, hbase]⟩, fun x => ?_,
    fun x hx => by cases hx⟩
  cases x with
  | reserved => simp [Allocated, reserve, h0, hfree]
  | node j => simp [Allocated, reserve]

/-- `free_reserve` while the reserved node is not in use. -/
theorem freeReserve_grants (hr : ¬ c.Allocated .reserved) : Grants c c.freeReserve.1 [] := by
  have hsum := freeSum_reserved (c := c) (c.availableBytes - UInt64.ofNat c.reserved.1)
    (0, { c.reserved.2 with base := 0, large := false })
  -- a reserved node in use has no bytes: either way its bytes leave the count
  have hpart : (if c.reserved.2.isFree then c.reserved.1 else 0) = c.reserved.1 := by
    by_cases hfree : c.reserved.2.isFree = true
    · simp [hfree]
    · simp only [Allocated, not_and, not_not] at hr
      simp [hfree, hr (by simpa using hfree)]
  simp only [hpart, ite_self, add_zero] at hsum
  refine ⟨fun hc => hc.of_sub hsum rfl, fun hs => ⟨hs.bases, by simp [freeReserve]⟩, fun x => ?_,
    fun x hx => by cases hx⟩
  cases x with
  | reserved =>
    simp only [Allocated, not_and, not_not] at hr
    simp only [Allocated, freeReserve, ne_eq, not_true_eq_false, and_false, List.not_mem_nil, or_false,
      false_iff, not_and, not_not]
    exact hr
  | node j => simp [Allocated, freeReserve]

/-- The deallocation of a node of the map. -/
def release (n : MultiMap.Node Nat Node) : Release := ⟨n.value.base, n.key, n.value.large⟩

/-- The loop of `trim` over free nodes deallocates each, in order, and erases
them from the map. -/
theorem trimLoop_of_free (tnu : Bool) (ns : List (MultiMap.Node Nat Node)) (c : ScratchCache)
    (hfree : ∀ m ∈ ns, m.value.isFree = true) :
    (trimLoop tnu ns c).1.map.nodes = c.map.nodes.filter (fun m => decide (m.id ∉ ns.map MultiMap.Node.id)) ∧
      (trimLoop tnu ns c).2 = ns.map release ∧ (trimLoop tnu ns c).1.reserved = c.reserved := by
  induction ns generalizing c with
  | nil => simp [trimLoop]
  | cons n ns ih =>
    have hn := hfree n List.mem_cons_self
    obtain ⟨hnodes, hrel, hres⟩ := ih ⟨c.map.erase n.id, c.availableBytes - UInt64.ofNat n.key, c.reserved⟩
      fun m hm => hfree m (List.mem_cons_of_mem n hm)
    simp only [trimLoop, hn, if_true]
    refine ⟨?_, ?_, hres⟩
    · rw [hnodes, MultiMap.nodes_erase, List.filter_filter]
      congr 1
      funext m
      simp [Bool.and_comm]
    · rw [hrel]
      rfl

end Ops

end ScratchCache

/-! ## The agent's scratch calls -/

namespace GpuAgent

open ScratchCache

variable {a : GpuAgent} {info : ScratchInfo} {c c₁ c₂ : ScratchCache} {info₁ info₂ : ScratchInfo}

theorem foldl_releaseScratch_scratchCache (rs : List Release) (a : GpuAgent) :
    (rs.foldl releaseScratch a).scratchCache = a.scratchCache := by
  induction rs generalizing a with
  | nil => rfl
  | cons r rs ih =>
    rw [List.foldl_cons, ih]
    rfl

/-- The deallocations a cache call makes leave the cache it returned. -/
@[simp] theorem withCache_scratchCache (a : GpuAgent) (r : ScratchCache × List Release) :
    (a.withCache r).scratchCache = r.1 :=
  foldl_releaseScratch_scratchCache r.2 _

theorem foldl_releaseScratch_released (rs : List Release) (a : GpuAgent) :
    (rs.foldl releaseScratch a).released = a.released ++ rs := by
  induction rs generalizing a with
  | nil => simp
  | cons r rs ih =>
    rw [List.foldl_cons, ih]
    simp [releaseScratch]

theorem withCache_released (a : GpuAgent) (r : ScratchCache × List Release) :
    (a.withCache r).released = a.released ++ r.2 :=
  foldl_releaseScratch_released r.2 _

theorem GrantsMain.none (h0 : info.mainQueueBase = 0) : GrantsMain c c info info :=
  ⟨ScratchInfo.mainHeld_of_zero h0 ▸ Grants.refl c, rfl⟩

theorem GrantsMain.of_grants (h : Grants c c₁ []) (halt : info₁.altHeld = info.altHeld)
    (hg : GrantsMain c₁ c₂ info₁ info₂) : GrantsMain c c₂ info info₂ :=
  ⟨h.trans hg.1, hg.2.trans halt⟩

theorem GrantsAlt.none (h0 : info.altQueueBase = 0) : GrantsAlt c c info info :=
  ⟨ScratchInfo.altHeld_of_zero h0 ▸ Grants.refl c, rfl⟩

theorem GrantsAlt.of_grants (h : Grants c c₁ []) (hmain : info₁.mainHeld = info.mainHeld)
    (hg : GrantsAlt c₁ c₂ info₁ info₂) : GrantsAlt c c₂ info info₂ :=
  ⟨h.trans hg.1, hg.2.trans hmain⟩

/-- What the attempts of `AcquireQueueMainScratch` leave: when the lambda
returns, an acquisition of main scratch; when the loop runs out, the trims
only, with no main scratch held. -/
def MainOutcome (c : ScratchCache) (info : ScratchInfo) :
    (GpuAgent × ScratchInfo) ⊕ (GpuAgent × ScratchInfo × List PoolAnswer) → Prop
  | .inl r => GrantsMain c r.1.scratchCache info r.2
  | .inr r => GrantsMain c r.1.scratchCache info r.2.1 ∧ r.2.1.mainQueueBase = 0

theorem MainOutcome.of_grants {o : (GpuAgent × ScratchInfo) ⊕ (GpuAgent × ScratchInfo × List PoolAnswer)}
    (h : Grants c c₁ []) (halt : info₁.altHeld = info.altHeld) (ho : MainOutcome c₁ info₁ o) :
    MainOutcome c info o := by
  cases o with
  | inl r => exact GrantsMain.of_grants h halt ho
  | inr r => exact ⟨GrantsMain.of_grants h halt ho.1, ho.2⟩

/-- The attempts of `AcquireQueueMainScratch`: by induction on the attempts
left, each failed one trimming the cache or trying the reserved node. -/
theorem mainAttempts_outcome (large : Bool) (is : List Nat) (a : GpuAgent) (info : ScratchInfo)
    (answers : List PoolAnswer) (hs : a.scratchCache.Shape) (h0 : info.mainQueueBase = 0) :
    MainOutcome a.scratchCache info (mainAttempts large is a info answers) := by
  induction is generalizing a info answers with
  | nil => exact ⟨GrantsMain.none h0, h0⟩
  | cons i is ih =>
    rcases hnext : nextAnswer answers with ⟨p, answers'⟩
    by_cases hp : p.base ≠ 0 ∧ p.mapped
    · -- the pool answered: a new node in use, held by the queue
      simp only [mainAttempts, hnext, if_pos hp, MainOutcome]
      exact insertMain_grants hp.1 rfl
    · -- the attempt failed; the first two trim the cache and try again
      have htrim (tnu : Bool) : (a.withCache (a.scratchCache.trim tnu).1).scratchCache.Shape ∧
          Grants a.scratchCache (a.withCache (a.scratchCache.trim tnu).1).scratchCache [] := by
        rw [withCache_scratchCache]
        exact ⟨(ScratchCache.trim_grants tnu).shape hs, ScratchCache.trim_grants tnu⟩
      rcases i with _ | _ | i
      · simp only [mainAttempts, hnext, if_neg hp]
        exact MainOutcome.of_grants (htrim false).2 rfl (ih _ _ _ (htrim false).1 rfl)
      · simp only [mainAttempts, hnext, if_neg hp]
        exact MainOutcome.of_grants (htrim true).2 rfl (ih _ _ _ (htrim true).1 rfl)
      · -- the third falls back on the reserved node
        simp only [mainAttempts, hnext, if_neg hp]
        split
        · rename_i heq
          exact GrantsMain.of_grants (Grants.refl _) rfl (useReserved_grants hs heq)
        · exact MainOutcome.of_grants (Grants.refl _) rfl (ih _ _ _ hs rfl)

theorem mainAttempts_inl {large : Bool} {is : List Nat} {answers : List PoolAnswer} {r : GpuAgent × ScratchInfo}
    (h : mainAttempts large is a info answers = .inl r) (hs : a.scratchCache.Shape) (h0 : info.mainQueueBase = 0) :
    GrantsMain a.scratchCache r.1.scratchCache info r.2 := by
  have ho := mainAttempts_outcome large is a info answers hs h0
  rwa [h] at ho

theorem mainAttempts_inr {large : Bool} {is : List Nat} {answers : List PoolAnswer}
    {r : GpuAgent × ScratchInfo × List PoolAnswer}
    (h : mainAttempts large is a info answers = .inr r) (hs : a.scratchCache.Shape) (h0 : info.mainQueueBase = 0) :
    GrantsMain a.scratchCache r.1.scratchCache info r.2.1 ∧ r.2.1.mainQueueBase = 0 := by
  have ho := mainAttempts_outcome large is a info answers hs h0
  rwa [h] at ho

/-- The loop of reduced occupancy, each iteration a new attempt at the pool. -/
theorem reduceOccupancy_grants (env : AgentEnv) (info : ScratchInfo) (h0 : info.mainQueueBase = 0)
    (answers : List PoolAnswer) (a : GpuAgent) (w : UInt64) :
    GrantsMain a.scratchCache (reduceOccupancy env info answers a w).1.scratchCache info
      (reduceOccupancy env info answers a w).2 := by
  induction answers generalizing w with
  | nil => exact GrantsMain.none h0
  | cons p ps ih =>
    by_cases hw : w = 0
    · simp only [reduceOccupancy, if_pos hw]
      exact GrantsMain.none h0
    · by_cases hp : p.base ≠ 0 ∧ p.mapped
      · simp only [reduceOccupancy, if_neg hw, if_pos hp]
        exact insertMain_grants hp.1 rfl
      · simp only [reduceOccupancy, if_neg hw, if_neg hp]
        exact ih _

/-- **`AcquireQueueMainScratch` is an acquisition.**  For a queue that holds
no main scratch, the node it is handed, from the cache, the pool after the
trims, the reserved node or the pool at reduced occupancy, was not in use,
and is the only change to what is in use. -/
theorem acquireQueueMainScratch_grants (env : AgentEnv) (answers : List PoolAnswer)
    (hs : a.scratchCache.Shape) (h0 : info.mainQueueBase = 0) :
    GrantsMain a.scratchCache (a.acquireQueueMainScratch env info answers).1.scratchCache info
      (a.acquireQueueMainScratch env info answers).2 := by
  generalize hr : a.acquireQueueMainScratch env info answers = r
  simp only [acquireQueueMainScratch] at hr
  split at hr
  · subst hr
    exact GrantsMain.none h0
  · split at hr
    · rename_i heq
      subst hr
      exact allocMain_grants hs heq
    · split at hr
      · rename_i heq
        subst hr
        have hg := mainAttempts_inl heq hs h0
        exact hg
      · rename_i a' info' answers' heq
        obtain ⟨hg, hbase⟩ := mainAttempts_inr heq hs h0
        have hkeep : Grants a.scratchCache a'.scratchCache [] := ScratchInfo.mainHeld_of_zero hbase ▸ hg.1
        -- the loop ran out: a retry is flagged, or occupancy is reduced
        split at hr
        · subst hr
          exact hg
        · split at hr
          · subst hr
            exact hg
          · subst hr
            exact GrantsMain.of_grants hkeep hg.2 (reduceOccupancy_grants env info' hbase answers' a' _)

/-- The attempts of `AcquireQueueAltScratch`. -/
theorem altAttempts_grants (is : List Nat) (a : GpuAgent) (info : ScratchInfo) (answers : List PoolAnswer)
    (h0 : info.altQueueBase = 0) :
    GrantsAlt a.scratchCache (altAttempts is a info answers).1.scratchCache info (altAttempts is a info answers).2 := by
  induction is generalizing a info answers with
  | nil => exact GrantsAlt.none h0
  | cons i is ih =>
    rcases hnext : nextAnswer answers with ⟨p, answers'⟩
    by_cases hp : p.base ≠ 0 ∧ p.mapped
    · simp only [altAttempts, hnext, if_pos hp]
      exact insertAlt_grants hp.1 rfl
    · -- the attempt failed: the cache is trimmed before the next
      simp only [altAttempts, hnext, if_neg hp]
      refine GrantsAlt.of_grants ?_ rfl (ih _ _ _ ?_)
      · rw [withCache_scratchCache]
        exact ScratchCache.trim_grants _
      · rfl

/-- **`AcquireQueueAltScratch` is an acquisition.** -/
theorem acquireQueueAltScratch_grants (env : AgentEnv) (answers : List PoolAnswer)
    (hs : a.scratchCache.Shape) (h0 : info.altQueueBase = 0) :
    GrantsAlt a.scratchCache (a.acquireQueueAltScratch env info answers).1.scratchCache info
      (a.acquireQueueAltScratch env info answers).2 := by
  generalize hr : a.acquireQueueAltScratch env info answers = r
  simp only [acquireQueueAltScratch] at hr
  split at hr
  · subst hr
    exact GrantsAlt.none h0
  · split at hr
    · rename_i heq
      subst hr
      exact allocAlt_grants hs heq
    · subst hr
      exact altAttempts_grants [0, 1] a _ answers h0

/-- `ReleaseQueueMainScratch` frees the main scratch the queue holds. -/
theorem releaseQueueMainScratch_frees (hal : ∀ x ∈ info.mainHeld, a.scratchCache.Allocated x) :
    Frees a.scratchCache (a.releaseQueueMainScratch info).1.scratchCache info.mainHeld ∧
      (a.releaseQueueMainScratch info).2.mainHeld = [] ∧
      (a.releaseQueueMainScratch info).2.altHeld = info.altHeld := by
  unfold releaseQueueMainScratch
  split
  · rename_i h0
    rw [ScratchInfo.mainHeld_of_zero h0]
    exact ⟨Frees.refl _, rfl, rfl⟩
  · rename_i h0
    rw [withCache_scratchCache]
    exact ⟨freeMain_frees h0 hal, ScratchInfo.mainHeld_of_zero rfl, rfl⟩

/-- `ReleaseQueueAltScratch` frees the alternate scratch the queue holds. -/
theorem releaseQueueAltScratch_frees (hal : ∀ x ∈ info.altHeld, a.scratchCache.Allocated x) :
    Frees a.scratchCache (a.releaseQueueAltScratch info).1.scratchCache info.altHeld ∧
      (a.releaseQueueAltScratch info).2.altHeld = [] ∧
      (a.releaseQueueAltScratch info).2.mainHeld = info.mainHeld := by
  unfold releaseQueueAltScratch
  split
  · rename_i h0
    rw [ScratchInfo.altHeld_of_zero h0]
    exact ⟨Frees.refl _, rfl, rfl⟩
  · rename_i h0
    rw [withCache_scratchCache]
    exact ⟨freeAlt_frees h0 hal, ScratchInfo.altHeld_of_zero rfl, rfl⟩

theorem reserveScratch_grants {reservedSz available : Nat} {base : Option Nat} (hb : ∀ b ∈ base, b ≠ 0) :
    Grants a.scratchCache (a.reserveScratch reservedSz available base).scratchCache [] := by
  unfold reserveScratch
  split
  · rename_i h
    cases base with
    | none => exact Grants.refl _
    | some b => exact reserve_grants h.1 h.2.1 (hb b rfl)
  · exact Grants.refl _

theorem trim_grants : Grants a.scratchCache a.trim.scratchCache [] := by
  rw [trim, withCache_scratchCache]
  exact ScratchCache.trim_grants false

/-- Teardown once no scratch is in use. -/
theorem teardown_grants (hr : ∀ x, ¬ a.scratchCache.Allocated x) :
    Grants a.scratchCache a.teardown.scratchCache [] := by
  have htrim := ScratchCache.trim_grants (c := a.scratchCache) true
  have hfree : ¬ (a.scratchCache.trim true).1.1.Allocated .reserved := by
    rw [htrim.alloc]
    simpa using hr .reserved
  rw [teardown, withCache_scratchCache, withCache_scratchCache]
  exact htrim.trans (freeReserve_grants hfree)

end GpuAgent

/-! ## The system over runs -/

/-- The callers' side of the calls: `AcquireQueueMainScratch` and
`AcquireQueueAltScratch` assert that the queue holds no such scratch,
`ReserveScratch` that the pool allocation is not `nullptr`, and the agent is
destroyed once its queues have released their scratch. -/
def Op.Ok (s : System) : Op → Prop
  | .acquireMain q _ _ _ => (s.info q).mainQueueBase = 0
  | .acquireAlt q _ _ _ => (s.info q).altQueueBase = 0
  | .reserveScratch _ _ base => ∀ b ∈ base, b ≠ 0
  | .teardown => ∀ q, (s.info q).held = []
  | .releaseMain _ | .releaseAlt _ | .trim => True

namespace System

open ScratchCache GpuAgent

variable {s : System} {q : Nat} {a' : GpuAgent} {r : GpuAgent × ScratchInfo} {new : List Handle}

@[simp] theorem agent_put (r : GpuAgent × ScratchInfo) : (s.put q r).agent = r.1 := rfl

theorem info_put (r : GpuAgent × ScratchInfo) (j : Nat) :
    (s.put q r).info j = if j = q then r.2 else s.info j := by
  unfold info put
  simp only [OrdMap.find?_assign]
  split <;> rfl

theorem info_init (q : Nat) : init.info q = ScratchInfo.empty := rfl

theorem run_nil (s : System) : s.run [] = s := rfl

theorem run_cons (s : System) (op : Op) (ops : List Op) : s.run (op :: ops) = (s.step op).run ops := rfl

theorem held_empty : ScratchInfo.empty.held = [] := rfl

/-- **The invariant of the scratch system**: `available_bytes_` counts the
free bytes, the nodes have their bases, the handles in use are exactly those
the queues hold, and no handle is held twice. -/
structure Inv (s : System) : Prop where
  counted : s.agent.scratchCache.Counted
  shape : s.agent.scratchCache.Shape
  held : ∀ x, s.agent.scratchCache.Allocated x ↔ ∃ q, x ∈ (s.info q).held
  nodup : ∀ q, (s.info q).held.Nodup
  exclusive : ∀ q q' x, x ∈ (s.info q).held → x ∈ (s.info q').held → q = q'

theorem Inv.init : Inv init where
  counted := rfl
  shape := ⟨by simp [System.init, GpuAgent.init, ScratchCache.init, MultiMap.empty], Iff.rfl⟩
  held x := by
    simp only [info_init, held_empty, List.not_mem_nil, exists_false, iff_false]
    cases x with
    | node i => simp [Allocated, InUse, System.init, GpuAgent.init, ScratchCache.init, MultiMap.empty]
    | reserved => simp [Allocated, System.init, GpuAgent.init, ScratchCache.init]
  nodup q := by simp [info_init, held_empty]
  exclusive q q' x hx := by
    simp [info_init, held_empty] at hx

/-- A call that changes the agent only and puts no handle in or out of use. -/
theorem Inv.keep (hi : Inv s) (hg : Grants s.agent.scratchCache a'.scratchCache []) :
    Inv { s with agent := a' } where
  counted := hg.counted hi.counted
  shape := hg.shape hi.shape
  held x := by
    rw [hg.alloc, hi.held]
    simp only [List.not_mem_nil, or_false]
    rfl
  nodup := hi.nodup
  exclusive := hi.exclusive

/-- **An acquisition on queue `q` keeps the invariant**: the handles it
hands out, in use now and in use before by no queue, join the queue's. -/
theorem Inv.grant (hi : Inv s) (hg : Grants s.agent.scratchCache r.1.scratchCache new) (hnew : new.Nodup)
    (hq : r.2.held.Perm (new ++ (s.info q).held)) : Inv (s.put q r) := by
  -- what queue `j` holds afterwards: the new handles, or what it held
  have hmem : ∀ j x, x ∈ ((s.put q r).info j).held → (j = q ∧ x ∈ new) ∨ x ∈ (s.info j).held := by
    intro j x hx
    rw [info_put] at hx
    split at hx
    · rename_i hjq
      subst hjq
      rcases List.mem_append.mp (hq.mem_iff.mp hx) with hx | hx
      · exact .inl ⟨rfl, hx⟩
      · exact .inr hx
    · exact .inr hx
  refine ⟨hg.counted hi.counted, hg.shape hi.shape, fun x => ?_, fun j => ?_, fun j j' x hx hx' => ?_⟩
  · rw [agent_put, hg.alloc, hi.held]
    constructor
    · rintro (⟨j, hj⟩ | hx)
      · refine ⟨j, ?_⟩
        rw [info_put]
        split
        · rename_i hjq
          subst hjq
          exact hq.mem_iff.mpr (List.mem_append_right _ hj)
        · exact hj
      · exact ⟨q, by rw [info_put, if_pos rfl]; exact hq.mem_iff.mpr (List.mem_append_left _ hx)⟩
    · rintro ⟨j, hj⟩
      rcases hmem j x hj with ⟨-, hx⟩ | hx
      · exact .inr hx
      · exact .inl ⟨j, hx⟩
  · rw [info_put]
    split
    · -- the queue's handles: the new ones were in use by no queue
      refine hq.nodup_iff.mpr (List.nodup_append.mpr ⟨hnew, hi.nodup q, ?_⟩)
      intro x hx y hy hxy
      subst hxy
      exact hg.fresh x hx ((hi.held x).mpr ⟨q, hy⟩)
    · exact hi.nodup j
  · rcases hmem j x hx with ⟨rfl, hnx⟩ | hox <;> rcases hmem j' x hx' with ⟨rfl, hnx'⟩ | hox'
    · rfl
    · exact absurd ((hi.held x).mpr ⟨j', hox'⟩) (hg.fresh x hnx)
    · exact absurd ((hi.held x).mpr ⟨j, hox⟩) (hg.fresh x hnx')
    · exact hi.exclusive j j' x hox hox'

/-- **A release on queue `q` keeps the invariant**: the handles it frees
leave the queue's. -/
theorem Inv.release {gone : List Handle} (hi : Inv s) (hf : Frees s.agent.scratchCache r.1.scratchCache gone)
    (hq : (s.info q).held.Perm (gone ++ r.2.held)) : Inv (s.put q r) := by
  have hsub : ∀ j x, x ∈ ((s.put q r).info j).held → x ∈ (s.info j).held := by
    intro j x hx
    rw [info_put] at hx
    split at hx
    · rename_i hjq
      subst hjq
      exact hq.mem_iff.mpr (List.mem_append_right _ hx)
    · exact hx
  have hdisj := List.nodup_append.mp (hq.nodup_iff.mp (hi.nodup q))
  refine ⟨hf.counted hi.counted, hf.shape hi.shape, fun x => ?_, fun j => ?_,
    fun j j' x hx hx' => hi.exclusive j j' x (hsub j x hx) (hsub j' x hx')⟩
  · rw [agent_put, hf.alloc, hi.held]
    constructor
    · rintro ⟨⟨j, hj⟩, hng⟩
      refine ⟨j, ?_⟩
      rw [info_put]
      split
      · rename_i hjq
        subst hjq
        rcases List.mem_append.mp (hq.mem_iff.mp hj) with hx | hx
        · exact absurd hx hng
        · exact hx
      · exact hj
    · rintro ⟨j, hj⟩
      refine ⟨⟨j, hsub j x hj⟩, fun hg => ?_⟩
      -- a freed handle was the queue's, and no other queue's
      rw [info_put] at hj
      split at hj
      · exact hdisj.2.2 x hg x hj rfl
      · rename_i hjq
        exact hjq (hi.exclusive j q x hj (hq.mem_iff.mpr (List.mem_append_left _ hg)))
  · rw [info_put]
    split
    · exact hdisj.2.1
    · exact hi.nodup j

theorem Inv.acquireMain {env : AgentEnv} {answers : List PoolAnswer} (hi : Inv s) (info₀ : ScratchInfo)
    (h0 : info₀.mainQueueBase = 0) (halt : info₀.altHeld = (s.info q).altHeld) (hq0 : (s.info q).mainQueueBase = 0) :
    Inv (s.put q (s.agent.acquireQueueMainScratch env info₀ answers)) := by
  obtain ⟨hg, halt'⟩ := acquireQueueMainScratch_grants env answers hi.shape h0
  refine hi.grant hg ScratchInfo.mainHeld_nodup (List.Perm.of_eq ?_)
  rw [ScratchInfo.held, ScratchInfo.held, halt', halt, ScratchInfo.mainHeld_of_zero hq0, List.nil_append]

theorem Inv.acquireAlt {env : AgentEnv} {answers : List PoolAnswer} (hi : Inv s) (info₀ : ScratchInfo)
    (h0 : info₀.altQueueBase = 0) (hmain : info₀.mainHeld = (s.info q).mainHeld) (hq0 : (s.info q).altQueueBase = 0) :
    Inv (s.put q (s.agent.acquireQueueAltScratch env info₀ answers)) := by
  obtain ⟨hg, hmain'⟩ := acquireQueueAltScratch_grants env answers hi.shape h0
  refine hi.grant hg ScratchInfo.altHeld_nodup ?_
  rw [ScratchInfo.held, ScratchInfo.held, hmain', hmain, ScratchInfo.altHeld_of_zero hq0, List.append_nil]
  exact List.perm_append_comm

theorem Inv.releaseMain (hi : Inv s) : Inv (s.put q (s.agent.releaseQueueMainScratch (s.info q))) := by
  have hal : ∀ x ∈ (s.info q).mainHeld, s.agent.scratchCache.Allocated x :=
    fun x hx => (hi.held x).mpr ⟨q, List.mem_append_left _ hx⟩
  obtain ⟨hf, hmain, halt⟩ := releaseQueueMainScratch_frees hal
  refine hi.release hf (List.Perm.of_eq ?_)
  rw [ScratchInfo.held, ScratchInfo.held, hmain, halt, List.nil_append]

theorem Inv.releaseAlt (hi : Inv s) : Inv (s.put q (s.agent.releaseQueueAltScratch (s.info q))) := by
  have hal : ∀ x ∈ (s.info q).altHeld, s.agent.scratchCache.Allocated x :=
    fun x hx => (hi.held x).mpr ⟨q, List.mem_append_right _ hx⟩
  obtain ⟨hf, halt, hmain⟩ := releaseQueueAltScratch_frees hal
  refine hi.release hf ?_
  rw [ScratchInfo.held, ScratchInfo.held, halt, hmain, List.append_nil]
  exact List.perm_append_comm

/-- **One call keeps the invariant**, by the kind of the call. -/
theorem Inv.step {op : Op} (hi : Inv s) (hok : op.Ok s) : Inv (s.step op) := by
  cases op with
  | acquireMain q r env answers => exact hi.acquireMain _ hok rfl hok
  | releaseMain q => exact hi.releaseMain
  | acquireAlt q altSize env answers => exact hi.acquireAlt _ hok rfl hok
  | releaseAlt q => exact hi.releaseAlt
  | reserveScratch reservedSz available base => exact hi.keep (reserveScratch_grants hok)
  | trim => exact hi.keep GpuAgent.trim_grants
  | teardown =>
    -- no queue holds scratch, so nothing is in use
    refine hi.keep (teardown_grants fun x hx => ?_)
    obtain ⟨q, hq⟩ := (hi.held x).mp hx
    rw [hok q] at hq
    cases hq

/-- The states of the scratch system reached from `init` by calls that keep
to their callers' side. -/
inductive Reachable : System → Prop
  | init : Reachable init
  | step {s : System} (op : Op) : Reachable s → op.Ok s → Reachable (s.step op)

theorem Reachable.inv (h : Reachable s) : Inv s := by
  induction h with
  | init => exact Inv.init
  | step op _ hok ih => exact ih.step hok

/-- A reserved node of 1 MiB, then a request of queue 0 above the single-use
limit with every pool attempt failing: the reserved node serves it. -/
theorem reachable_reserved_acquire :
    Reachable (init.run [.reserveScratch 0x100000 0x1000000 (some 0x1000),
      .acquireMain 0 ⟨0x200000, 0x1000, 0x100000, 4, false⟩
        ⟨0x4000000, 0x4000000, 9, false, false, 0x10000, 1024, 1024, 64, 4, false⟩ []]) := by
  simp only [run_cons, run_nil]
  exact .step _ (.step _ .init (by simp [Op.Ok])) rfl

/-- **`available_bytes_` is exact**: in every reachable state it is the number
of bytes of the free nodes, the reserved node included while it is free. -/
theorem reachable_available_bytes (h : Reachable s) :
    s.agent.scratchCache.availableBytes = UInt64.ofNat s.agent.scratchCache.freeSum :=
  h.inv.counted

theorem reachable_available_bytes_reserved :
    (init.run [.reserveScratch 0x100000 0x1000000 (some 0x1000),
      .acquireMain 0 ⟨0x200000, 0x1000, 0x100000, 4, false⟩
        ⟨0x4000000, 0x4000000, 9, false, false, 0x10000, 1024, 1024, 64, 4, false⟩ []]).agent.scratchCache.availableBytes =
      UInt64.ofNat (init.run [.reserveScratch 0x100000 0x1000000 (some 0x1000),
        .acquireMain 0 ⟨0x200000, 0x1000, 0x100000, 4, false⟩
          ⟨0x4000000, 0x4000000, 9, false, false, 0x10000, 1024, 1024, 64, 4, false⟩ []]).agent.scratchCache.freeSum :=
  reachable_available_bytes reachable_reserved_acquire

/-- **The nodes in use are the queues' scratch, each held once**: in every
reachable state a handle is in use exactly when some queue holds it, no two
queues hold one handle, and no queue holds one as main and alternate
scratch. -/
theorem reachable_scratch_held (h : Reachable s) :
    (∀ x, s.agent.scratchCache.Allocated x ↔ ∃ q, x ∈ (s.info q).held) ∧
      (∀ q q' x, x ∈ (s.info q).held → x ∈ (s.info q').held → q = q') ∧
      ∀ q, (s.info q).held.Nodup :=
  ⟨h.inv.held, h.inv.exclusive, h.inv.nodup⟩

theorem reachable_scratch_held_reserved :
    let s := init.run [.reserveScratch 0x100000 0x1000000 (some 0x1000),
      .acquireMain 0 ⟨0x200000, 0x1000, 0x100000, 4, false⟩
        ⟨0x4000000, 0x4000000, 9, false, false, 0x10000, 1024, 1024, 64, 4, false⟩ []]
    (∀ x, s.agent.scratchCache.Allocated x ↔ ∃ q, x ∈ (s.info q).held) ∧
      (∀ q q' x, x ∈ (s.info q).held → x ∈ (s.info q').held → q = q') ∧
      ∀ q, (s.info q).held.Nodup :=
  reachable_scratch_held reachable_reserved_acquire

/-- **Teardown gives every node back**: once every queue has released its
scratch, `~GpuAgent` deallocates each node of the map, in order, then the
reserved memory if it has bytes, and leaves the cache empty with
`available_bytes_` at zero. -/
theorem reachable_teardown_releases_all (h : Reachable s) (hq : ∀ q, (s.info q).held = []) :
    (s.step .teardown).agent.released = s.agent.released ++ s.agent.scratchCache.map.nodes.map release ++
        (if s.agent.scratchCache.reserved.1 ≠ 0 then
          [⟨s.agent.scratchCache.reserved.2.base, s.agent.scratchCache.reserved.1,
            s.agent.scratchCache.reserved.2.large⟩] else []) ∧
      (s.step .teardown).agent.scratchCache.map.nodes = [] ∧
      (s.step .teardown).agent.scratchCache.reserved.1 = 0 ∧
      (s.step .teardown).agent.scratchCache.availableBytes = 0 := by
  have hi := h.inv
  -- with no scratch held, no node is in use
  have hfree : ∀ m ∈ s.agent.scratchCache.map.nodes, m.value.isFree = true := by
    intro m hm
    by_contra hne
    obtain ⟨q, hmq⟩ := (hi.held (.node m.id)).mp ⟨m, hm, rfl, by simpa using hne⟩
    rw [hq q] at hmq
    cases hmq
  obtain ⟨hnodes, hrel, hres⟩ := trimLoop_of_free true _ s.agent.scratchCache hfree
  have hempty : (s.step .teardown).agent.scratchCache.map.nodes = [] := by
    simp only [step, GpuAgent.teardown, withCache_scratchCache, freeReserve]
    rw [ScratchCache.trim, hnodes, List.filter_eq_nil_iff]
    intro m hm
    simpa using List.mem_map_of_mem hm
  have hcounted := (Reachable.step .teardown h hq).inv.counted
  refine ⟨?_, hempty, by simp [step, GpuAgent.teardown, freeReserve], ?_⟩
  · simp only [step, GpuAgent.teardown, withCache_released, withCache_scratchCache, freeReserve]
    rw [ScratchCache.trim, hrel, hres]
  · rw [hcounted, freeSum, hempty]
    simp [step, GpuAgent.teardown, freeReserve]

/-- Queue 0 takes 256 KiB of scratch from the pool and gives it back: its
node stays in the map, free, and teardown deallocates it and then the
reserved memory. -/
theorem reachable_teardown_releases_all_reserved :
    let s := init.run [.reserveScratch 0x100000 0x1000000 (some 0x1000),
      .acquireMain 0 ⟨0x40000, 0x1000, 0x100000, 4, false⟩
        ⟨0x4000000, 0x4000000, 9, false, false, 0x10000, 1024, 1024, 64, 4, false⟩
        [⟨0x8000000, false, true⟩],
      .releaseMain 0]
    s.agent.scratchCache.map.nodes.length = 1 ∧
    ((s.step .teardown).agent.released = s.agent.released ++ s.agent.scratchCache.map.nodes.map release ++
        (if s.agent.scratchCache.reserved.1 ≠ 0 then
          [⟨s.agent.scratchCache.reserved.2.base, s.agent.scratchCache.reserved.1,
            s.agent.scratchCache.reserved.2.large⟩] else []) ∧
      (s.step .teardown).agent.scratchCache.map.nodes = [] ∧
      (s.step .teardown).agent.scratchCache.reserved.1 = 0 ∧
      (s.step .teardown).agent.scratchCache.availableBytes = 0) := by
  intro s
  have hr : Reachable s :=
    .step (.releaseMain 0) (.step (.acquireMain 0 ⟨0x40000, 0x1000, 0x100000, 4, false⟩
        ⟨0x4000000, 0x4000000, 9, false, false, 0x10000, 1024, 1024, 64, 4, false⟩
        [⟨0x8000000, false, true⟩])
      (.step (.reserveScratch 0x100000 0x1000000 (some 0x1000)) .init (by simp [Op.Ok])) rfl) trivial
  -- queue 0 has released its scratch, and no other queue ever took any
  have hq : ∀ q, (s.info q).held = [] := by
    intro q
    by_cases h0 : q = 0
    · subst h0
      decide
    · simp only [s, run_cons, run_nil, step, info_put, if_neg h0]
      rfl
  exact ⟨by decide, reachable_teardown_releases_all hr hq⟩

end System

end Scratch
