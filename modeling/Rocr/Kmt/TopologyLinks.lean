import Rocr.Kmt.Topology

/-!
# The links `topology_create_indirect_gpu_links` adds

The pass runs on a snapshot as `topology_take_snapshot` reads it from sysfs
(`Snapshot`): `NumNodes` nodes, each with `NumNodes - 1` link slots whose
first `NumIOLinks` hold its direct links, from the node to distinct other
nodes.  Three facts of the kernel's topology are premises of what follows:
link weights are small (`SmallWeights`), the CPU a GPU finds is a CPU node
(`CpusAreCpus`), and a direct link joins a GPU only to its CPU or to a GPU of
its hive (`Attached`).

While it runs, every node is its snapshot node with links appended, each one
a link `get_indirect_iolink_info` finds on the snapshot, to a node of a pair
already visited (`Extends`).  The lookups of the pass see through the links it
has added (`Extends.getIndirectIolinkInfo_eq`), so each pair is decided as on
the snapshot, and the pass reads only nodes of the snapshot
(`topologyCreateIndirectGpuLinks_extends`).
-/

namespace Topology

/-- What `topology_take_snapshot` leaves for the pass without `p2p_links`:
`NumNodes` nodes, each with an array of `NumNodes - 1` link slots, a bank
array for its banks, and direct links in use from the node to distinct other
nodes. -/
@[mk_iff]
structure Snapshot (numNodes : UInt32) (nodes : List Node) : Prop where
  length_eq : nodes.length = numNodes.toNat
  slots : ∀ n ∈ nodes, n.link.map List.length = some (numNodes.toNat - 1)
  numIOLinks_le : ∀ n ∈ nodes, n.numIOLinks ≤ numNodes.toNat - 1
  numMemoryBanks_le : ∀ n ∈ nodes, n.numMemoryBanks ≤ n.mem.length
  direct : ∀ i (hi : i < nodes.length), ∀ x ∈ nodes[i].links,
    x.nodeFrom = i ∧ x.nodeTo < nodes.length ∧ x.nodeTo ≠ i
  nodup : ∀ n ∈ nodes, (n.links.map IoLink.nodeTo).Nodup

/-- The link weights the kernel reports are small: no sum of three wraps. -/
def SmallWeights (nodes : List Node) : Prop :=
  ∀ n ∈ nodes, ∀ x ∈ n.links, x.weight.toNat < 2 ^ 30

/-- The CPU a GPU finds through its PCIe link is a CPU node. -/
def CpusAreCpus (nodes : List Node) : Prop :=
  ∀ i < nodes.length, ∀ c ∈ cpuOf nodes i, nodes[c]?.map Node.kfdGpuId = some 0

/-- A direct link joins two GPUs only inside one XGMI hive, and a GPU and a
CPU only when the CPU is the one the GPU finds (or it finds none). -/
def Attached (nodes : List Node) : Prop :=
  ∀ a (ha : a < nodes.length) b (hb : b < nodes.length), (linkOf nodes a b).isSome →
    (nodes[a].kfdGpuId ≠ 0 → nodes[b].kfdGpuId ≠ 0 →
      nodes[a].hiveId ≠ 0 ∧ nodes[a].hiveId = nodes[b].hiveId) ∧
    (nodes[a].kfdGpuId ≠ 0 → nodes[b].kfdGpuId = 0 →
      cpuOf nodes a = some b ∨ cpuOf nodes a = none) ∧
    (nodes[a].kfdGpuId = 0 → nodes[b].kfdGpuId ≠ 0 →
      cpuOf nodes b = some a ∨ cpuOf nodes b = none)

instance (numNodes : UInt32) (nodes : List Node) : Decidable (Snapshot numNodes nodes) :=
  decidable_of_iff _ (snapshot_iff numNodes nodes).symm

instance (nodes : List Node) : Decidable (SmallWeights nodes) :=
  inferInstanceAs (Decidable (∀ n ∈ nodes, ∀ x ∈ n.links, _))

instance (nodes : List Node) : Decidable (CpusAreCpus nodes) :=
  inferInstanceAs (Decidable (∀ i < nodes.length, ∀ c ∈ cpuOf nodes i, _))

instance (nodes : List Node) : Decidable (Attached nodes) :=
  inferInstanceAs (Decidable (∀ a (_ : a < nodes.length) b (_ : b < nodes.length), _))

variable {numNodes : UInt32} {orig : List Node}

/-- A link array of `k` slots holds the `NumIOLinks ≤ k` links in use. -/
theorem Node.numIOLinks_le_length {n : Node} {k : Nat} (hl : n.link.map List.length = some k)
    (hk : n.numIOLinks ≤ k) : n.numIOLinks ≤ (n.link.getD []).length := by
  cases h : n.link with
  | none => simp [h] at hl
  | some props =>
    simp only [h, Option.map_some, Option.some.injEq] at hl
    simp [hl, hk]

theorem Snapshot.readsOk (hs : Snapshot numNodes orig) : ReadsOk orig where
  numIOLinks_le n hn := Node.numIOLinks_le_length (hs.slots n hn) (hs.numIOLinks_le n hn)
  numMemoryBanks_le := hs.numMemoryBanks_le
  nodeTo_lt n hn x hx := by
    obtain ⟨i, hi, rfl⟩ := List.getElem_of_mem hn
    exact (hs.direct i hi x hx).2.1

theorem Snapshot.direct_of (hs : Snapshot numNodes orig) {i : Nat} {n : Node}
    (hn : orig[i]? = some n) {x : IoLink} (hx : x ∈ n.links) :
    x.nodeFrom = i ∧ x.nodeTo < orig.length ∧ x.nodeTo ≠ i := by
  obtain ⟨hi, rfl⟩ := List.getElem?_eq_some_iff.mp hn
  exact hs.direct i hi x hx

/-- No node of the snapshot links to itself. -/
theorem Snapshot.linkOf_self (hs : Snapshot numNodes orig) (a : Nat) : linkOf orig a a = none := by
  cases hl : linkOf orig a a with
  | none => rfl
  | some l =>
    obtain ⟨n, hn, hmem, hto⟩ := linkOf_mem hl
    exact absurd hto (hs.direct_of hn hmem).2.2

/-- The CPU a GPU finds has no CPU of its own. -/
theorem CpusAreCpus.cpuOf_cpu (hc : CpusAreCpus orig) {i c : Nat} (h : cpuOf orig i = some c) :
    cpuOf orig c = none := by
  have hi : i < orig.length := by
    obtain ⟨n, hn, -⟩ := Option.bind_eq_some_iff.mp h
    exact (List.getElem?_eq_some_iff.mp hn).1
  have h0 := hc i hi c h
  cases hn : orig[c]? with
  | none => simp [cpuOf, hn]
  | some n =>
    rw [hn, Option.map_some, Option.some.injEq] at h0
    simp [cpuOf, hn, Node.cpu, h0]

/-! ## The nodes while the pass runs -/

/-- A link the pass may add to node `i` of the snapshot: from `i`, with the
nonzero weight and the type `get_indirect_iolink_info` finds on the snapshot
from `i` to its target. -/
def Found (orig : List Node) (i : Nat) (x : IoLink) : Prop :=
  x.nodeFrom = i ∧ x.weight ≠ 0 ∧
    ∃ s, getIndirectIolinkInfo orig i x.nodeTo = some (s, x.weight, x.ioLinkType)

/-- Node `n` of the pass is node `o` of the snapshot with the links `added`
after its direct ones. -/
structure NodeExtends (numNodes : UInt32) (o n : Node) (added : List IoLink) : Prop where
  kfdGpuId_eq : n.kfdGpuId = o.kfdGpuId
  hiveId_eq : n.hiveId = o.hiveId
  numMemoryBanks_eq : n.numMemoryBanks = o.numMemoryBanks
  mem_eq : n.mem = o.mem
  slots : n.link.map List.length = some (numNodes.toNat - 1)
  numIOLinks_le : n.numIOLinks ≤ numNodes.toNat - 1
  links_eq : n.links = o.links ++ added

/-- The nodes during the pass, with `visited` the ordered pairs it has
decided: each node is its snapshot node with found links to visited nodes
added, no two to one node. -/
structure Extends (numNodes : UInt32) (orig cur : List Node) (visited : Nat → Nat → Prop) :
    Prop where
  length_eq : cur.length = orig.length
  node : ∀ i (o : Node), orig[i]? = some o → ∃ n added, cur[i]? = some n ∧
    NodeExtends numNodes o n added ∧ (∀ x ∈ added, Found orig i x ∧ visited i x.nodeTo) ∧
    (added.map IoLink.nodeTo).Nodup

section Extends

variable {cur : List Node} {visited : Nat → Nat → Prop}

theorem Extends.mono (he : Extends numNodes orig cur visited) {visited' : Nat → Nat → Prop}
    (hv : ∀ a b, visited a b → visited' a b) : Extends numNodes orig cur visited' where
  length_eq := he.length_eq
  node i o ho := by
    obtain ⟨n, added, hn, hne, hadd, hnodup⟩ := he.node i o ho
    exact ⟨n, added, hn, hne, fun x hx => ⟨(hadd x hx).1, hv _ _ (hadd x hx).2⟩, hnodup⟩

theorem Found.path (hr : ReadsOk orig) {i : Nat} {x : IoLink} (hf : Found orig i x) :
    i ≠ x.nodeTo ∧ x.nodeTo < orig.length ∧ CpuPath orig i x.nodeTo x.weight x.ioLinkType := by
  obtain ⟨-, hw, s, hs⟩ := hf
  obtain ⟨hne, n1, n2, -, hn2, -, -, -, hp⟩ := getIndirectIolinkInfo_path hr hs hw
  exact ⟨hne, (List.getElem?_eq_some_iff.mp hn2).1, hp⟩

theorem NodeExtends.linkTo_of_some {o n : Node} {added : List IoLink}
    (hne : NodeExtends numNodes o n added) {b : Nat} {l : IoLink} (h : o.linkTo b = some l) :
    n.linkTo b = some l := by
  simp only [Node.linkTo, hne.links_eq, List.find?_append] at h ⊢
  rw [h]
  rfl

theorem NodeExtends.linkTo_of_none {o n : Node} {added : List IoLink}
    (hne : NodeExtends numNodes o n added) {b : Nat} (h : o.linkTo b = none)
    (hadd : ∀ x ∈ added, x.nodeTo ≠ b) : n.linkTo b = none := by
  simp only [Node.linkTo, hne.links_eq, List.find?_append] at h ⊢
  rw [h, Option.none_or, List.find?_eq_none]
  intro x hx
  simpa using hadd x hx

theorem NodeExtends.cpu_eq {o n : Node} {added : List IoLink} (hne : NodeExtends numNodes o n added)
    (hadd : o.links.find? IoLink.isCpuLink = none → ∀ x ∈ added, x.isCpuLink = false) :
    n.cpu = o.cpu := by
  unfold Node.cpu
  rw [hne.kfdGpuId_eq, hne.links_eq, List.find?_append]
  cases hf : o.links.find? IoLink.isCpuLink with
  | some x => rfl
  | none =>
    have hnone : added.find? IoLink.isCpuLink = none := List.find?_eq_none.mpr fun x hx => by
      simp [hadd hf x hx]
    rw [Option.none_or, hnone]

theorem NodeExtends.publicFrameBuffer_eq {o n : Node} {added : List IoLink}
    (hne : NodeExtends numNodes o n added) : n.publicFrameBuffer = o.publicFrameBuffer := by
  simp [Node.publicFrameBuffer, hne.mem_eq, hne.numMemoryBanks_eq]

theorem NodeExtends.link_ne_none {o n : Node} {added : List IoLink}
    (hne : NodeExtends numNodes o n added) : n.link ≠ none := by
  intro h
  simpa [h] using hne.slots

/-- Every link of a node is from the node to another node of the snapshot. -/
theorem NodeExtends.link_ends (hs : Snapshot numNodes orig) {i : Nat} {o n : Node}
    {added : List IoLink} (ho : orig[i]? = some o) (hne : NodeExtends numNodes o n added) (hadd : ∀ x ∈ added, Found orig i x) :
    ∀ x ∈ n.links, x.nodeFrom = i ∧ x.nodeTo ≠ i ∧ x.nodeTo < orig.length := by
  intro x hx
  rw [hne.links_eq, List.mem_append] at hx
  rcases hx with hx | hx
  · obtain ⟨hfrom, hlt, hto⟩ := hs.direct_of ho hx
    exact ⟨hfrom, hto, hlt⟩
  · obtain ⟨hto, hlt, -⟩ := (hadd x hx).path hs.readsOk
    exact ⟨(hadd x hx).1, Ne.symm hto, hlt⟩

/-- A node of the pass is the snapshot node at its index with found links
appended. -/
theorem Extends.of_mem (he : Extends numNodes orig cur visited) {n : Node} (hn : n ∈ cur) :
    ∃ i o added, orig[i]? = some o ∧ NodeExtends numNodes o n added ∧
      ∀ x ∈ added, Found orig i x := by
  obtain ⟨i, hi, rfl⟩ := List.getElem_of_mem hn
  have hio : i < orig.length := he.length_eq ▸ hi
  have ho : orig[i]? = some orig[i] := List.getElem?_eq_getElem hio
  obtain ⟨n, added, hn', hne, hadd, -⟩ := he.node i _ ho
  rw [List.getElem?_eq_getElem hi, Option.some.injEq] at hn'
  subst hn'
  exact ⟨i, _, added, ho, hne, fun x hx => (hadd x hx).1⟩

theorem Extends.readsOk (hs : Snapshot numNodes orig) (he : Extends numNodes orig cur visited) :
    ReadsOk cur where
  numIOLinks_le n hn := by
    obtain ⟨_, _, _, _, hne, -⟩ := he.of_mem hn
    exact Node.numIOLinks_le_length hne.slots hne.numIOLinks_le
  numMemoryBanks_le n hn := by
    obtain ⟨_, o, _, ho, hne, -⟩ := he.of_mem hn
    rw [hne.numMemoryBanks_eq, hne.mem_eq]
    exact hs.numMemoryBanks_le o (List.mem_of_getElem? ho)
  nodeTo_lt n hn x hx := by
    obtain ⟨_, _, _, ho, hne, hfound⟩ := he.of_mem hn
    rw [he.length_eq]
    exact (hne.link_ends hs ho hfound x hx).2.2

end Extends

/-! ## The pass sees the snapshot's paths -/

section Stable

variable {cur : List Node} {visited : Nat → Nat → Prop}

/-- The lookups `get_indirect_iolink_info` makes on the snapshot's CPUs never
ask for a link the pass could add: the snapshot has the link, or no path
joins the two nodes. -/
theorem lookup_noPath (hs : Snapshot numNodes orig) (hcpus : CpusAreCpus orig) {node1 node2 a b : Nat}
    (hab : Lookup node1 node2 (cpuOf orig node1) (cpuOf orig node2) a b)
    (hnone : linkOf orig a b = none) {w : UInt32} {t : Nat} : ¬ CpuPath orig a b w t := by
  intro hp
  rcases hab with ⟨rfl, h1⟩ | ⟨h1, h2⟩ | ⟨rfl, h1, h2⟩ | ⟨h1, rfl, h2⟩ | ⟨h2, rfl⟩
  · -- the source links to its CPU
    simpa [hnone] using linkOf_cpuOf h1
  · -- two CPUs find no CPU
    simpa [hcpus.cpuOf_cpu h1, hcpus.cpuOf_cpu h2] using hp.cpuOf_isSome
  · simpa [h1, hcpus.cpuOf_cpu h2] using hp.cpuOf_isSome
  · rcases h2 with h2 | h2
    · simpa [h2, hcpus.cpuOf_cpu h1] using hp.cpuOf_isSome
    · exact hp.not_to_own_gpu (hcpus.cpuOf_cpu h1) h2 (hs.linkOf_self a)
  · exact hp.not_to_own_gpu (hcpus.cpuOf_cpu h2) h2 (hs.linkOf_self a)

/-- A lookup of the pass finds what it finds on the snapshot, when the pass
cannot have added a link where the snapshot has none. -/
theorem Extends.getDirectIolinkInfo_eq (hs : Snapshot numNodes orig)
    (he : Extends numNodes orig cur visited) {a b : Nat} (ha : a < orig.length)
    (hnew : linkOf orig a b = none → ∀ w t, ¬ CpuPath orig a b w t) (w : UInt32) (t : Nat) :
    getDirectIolinkInfo cur a b w t = getDirectIolinkInfo orig a b w t := by
  have ho : orig[a]? = some orig[a] := List.getElem?_eq_getElem ha
  obtain ⟨n, added, hn, hne, hadd, -⟩ := he.node a _ ho
  cases hl : orig[a].linkTo b with
  | some l =>
    rw [getDirectIolinkInfo_of_linkTo hs.readsOk ho hl,
      getDirectIolinkInfo_of_linkTo (he.readsOk hs) hn (hne.linkTo_of_some hl)]
  | none =>
    -- a link the pass added from `a` to `b` would be a path of the snapshot
    have hnot : ∀ x ∈ added, x.nodeTo ≠ b := by
      intro x hx hxb
      obtain ⟨-, -, hp⟩ := (hadd x hx).1.path hs.readsOk
      rw [hxb] at hp
      exact hnew (by rw [linkOf_eq ho, hl]) _ _ hp
    have hol : orig[a].link ≠ none := by
      intro h
      simpa [h] using hs.slots _ (List.getElem_mem ha)
    rw [getDirectIolinkInfo_of_linkTo_none hs.readsOk ho hl,
      getDirectIolinkInfo_of_linkTo_none (he.readsOk hs) hn (hne.linkTo_of_none hl hnot),
      if_neg hol, if_neg hne.link_ne_none]

/-- A link the pass adds to a node with no CPU link is no CPU link either: it
is a CPU->CPU->GPU path whose first link is a link of the node, and its
weight is at least that link's. -/
theorem Found.isCpuLink_eq_false (hs : Snapshot numNodes orig) (hsmall : SmallWeights orig)
    {i : Nat} {o : Node} {x : IoLink} (ho : orig[i]? = some o) (hf : Found orig i x)
    (hno : o.links.find? IoLink.isCpuLink = none) : x.isCpuLink = false := by
  obtain ⟨-, -, hp⟩ := hf.path hs.readsOk
  have hcpu : cpuOf orig i = none := by simp [cpuOf, ho, Node.cpu, hno]
  obtain ⟨c2, l2, l3, -, hl2, hl3, hw, ht⟩ := hp.of_cpuOf_none hcpu
  obtain ⟨n, hn, hmem, -⟩ := linkOf_mem hl2
  rw [ho, Option.some.injEq] at hn
  subst hn
  obtain ⟨n3, hn3, hmem3, -⟩ := linkOf_mem hl3
  have hl2cpu : l2.isCpuLink = false := by simpa using List.find?_eq_none.mp hno l2 hmem
  have hw2 := hsmall _ (List.mem_of_getElem? ho) l2 hmem
  have hw3 := hsmall _ (List.mem_of_getElem? hn3) l3 hmem3
  -- the sum does not wrap
  have hsum : x.weight.toNat = l2.weight.toNat + l3.weight.toNat := by
    rw [hw, UInt32.toNat_add]
    exact Nat.mod_eq_of_lt (by omega)
  simp only [IoLink.isCpuLink, Bool.and_eq_false_iff, beq_eq_false_iff_ne, ne_eq,
    decide_eq_false_iff_not, UInt32.le_iff_toNat_le] at hl2cpu ⊢
  rw [ht, hsum]
  rcases hl2cpu with h | h
  · exact Or.inl h
  · exact Or.inr (by simp at h ⊢; omega)

/-- The pass leaves the CPU each node finds as on the snapshot. -/
theorem Extends.cpuOf_eq (hs : Snapshot numNodes orig) (hsmall : SmallWeights orig)
    (he : Extends numNodes orig cur visited) (i : Nat) : cpuOf cur i = cpuOf orig i := by
  cases ho : orig[i]? with
  | none =>
    have hc : cur[i]? = none := by
      rw [List.getElem?_eq_none_iff] at ho ⊢
      rw [he.length_eq]
      exact ho
    simp [cpuOf, ho, hc]
  | some o =>
    obtain ⟨n, added, hn, hne, hadd, -⟩ := he.node i o ho
    rw [Topology.cpuOf_eq hn, Topology.cpuOf_eq ho]
    exact hne.cpu_eq fun hno x hx => (hadd x hx).1.isCpuLink_eq_false hs hsmall ho hno

theorem lookup_lt (hr : ReadsOk orig) {node1 node2 a b : Nat} (h1 : node1 < orig.length)
    (hab : Lookup node1 node2 (cpuOf orig node1) (cpuOf orig node2) a b) : a < orig.length := by
  rcases hab with ⟨rfl, -⟩ | ⟨h, -⟩ | ⟨rfl, -⟩ | ⟨h, -⟩ | ⟨h, -⟩
  · exact h1
  · exact cpuOf_lt hr h
  · exact h1
  · exact cpuOf_lt hr h
  · exact cpuOf_lt hr h

/-- **Stability.**  While the pass runs, `get_indirect_iolink_info` decides
every pair of nodes as on the snapshot: the links added so far change neither
the CPU a node finds nor any link its paths look up. -/
theorem Extends.getIndirectIolinkInfo_eq (hs : Snapshot numNodes orig) (hsmall : SmallWeights orig)
    (hcpus : CpusAreCpus orig) (he : Extends numNodes orig cur visited) {node1 node2 : Nat}
    (h1 : node1 < orig.length) (h2 : node2 < orig.length) :
    getIndirectIolinkInfo cur node1 node2 = getIndirectIolinkInfo orig node1 node2 := by
  have ho1 : orig[node1]? = some orig[node1] := List.getElem?_eq_getElem h1
  have ho2 : orig[node2]? = some orig[node2] := List.getElem?_eq_getElem h2
  obtain ⟨n1, added1, hn1, hne1, -⟩ := he.node node1 _ ho1
  obtain ⟨n2, added2, hn2, hne2, -⟩ := he.node node2 _ ho2
  have hrc := he.readsOk hs
  have hro := hs.readsOk
  have hcpu1 : n1.cpu = orig[node1].cpu := by
    rw [← Topology.cpuOf_eq hn1, ← Topology.cpuOf_eq ho1, he.cpuOf_eq hs hsmall]
  have hcpu2 : n2.cpu = orig[node2].cpu := by
    rw [← Topology.cpuOf_eq hn2, ← Topology.cpuOf_eq ho2, he.cpuOf_eq hs hsmall]
  have hpath : indirectPath cur node1 node2 orig[node1].cpu orig[node2].cpu =
      indirectPath orig node1 node2 orig[node1].cpu orig[node2].cpu := by
    apply indirectPath_congr
    intro a b hab w t
    rw [← Topology.cpuOf_eq ho1, ← Topology.cpuOf_eq ho2] at hab
    exact he.getDirectIolinkInfo_eq hs (lookup_lt hro h1 hab)
      (fun hnone _ _ => lookup_noPath hs hcpus hab hnone) w t
  unfold getIndirectIolinkInfo
  simp only [hn1, hn2, ho1, ho2, Option.bind_eq_bind, Option.bind_some, dirCpuOf_eq hrc hn1,
    dirCpuOf_eq hro ho1, dirCpuOf_eq hrc hn2, dirCpuOf_eq hro ho2, hcpu1, hcpu2,
    largeBarOk_eq hrc (List.mem_of_getElem? hn2), largeBarOk_eq hro (List.mem_of_getElem? ho2),
    hne1.kfdGpuId_eq, hne2.kfdGpuId_eq, hne1.hiveId_eq, hne2.hiveId_eq,
    hne2.publicFrameBuffer_eq, hpath]

end Stable

/-! ## One pair, one row, the whole pass -/

section Pass

variable {cur : List Node} {visited : Nat → Nat → Prop}

theorem toNat_sub_one {n : UInt32} (h : 0 < n.toNat) : (n - 1).toNat = n.toNat - 1 := by
  have h1 : (1 : UInt32) ≤ n := by
    rw [UInt32.le_iff_toNat_le]
    simp only [UInt32.toNat_one]
    omega
  rw [UInt32.toNat_sub_of_le _ _ h1]
  rfl

/-- Writing the next free slot appends to the links in use. -/
theorem take_set_succ {α : Type} {xs : List α} {k : Nat} (hk : k < xs.length) (x : α) :
    (xs.set k x).take (k + 1) = xs.take k ++ [x] := by
  rw [List.take_add_one, List.take_set_of_le (Nat.le_refl k), List.getElem?_set_self hk]
  rfl

/-- Replacing node `i` by its snapshot node with more found links, to nodes
now visited, keeps the invariant. -/
theorem Extends.set (he : Extends numNodes orig cur visited) {visited' : Nat → Nat → Prop}
    (hv : ∀ a b, visited a b → visited' a b) {i : Nat} (hi : i < orig.length) {n : Node}
    {added : List IoLink} (hne : NodeExtends numNodes orig[i] n added)
    (hadd : ∀ x ∈ added, Found orig i x ∧ visited' i x.nodeTo)
    (hnodup : (added.map IoLink.nodeTo).Nodup) :
    Extends numNodes orig (cur.set i n) visited' where
  length_eq := by rw [List.length_set, he.length_eq]
  node j o ho := by
    by_cases hj : j = i
    · subst hj
      rw [List.getElem?_eq_getElem hi, Option.some.injEq] at ho
      subst ho
      refine ⟨n, added, ?_, hne, hadd, hnodup⟩
      rw [List.getElem?_set_self (by rw [he.length_eq]; exact hi)]
    · obtain ⟨n', added', hn', hne', hadd', hnodup'⟩ := he.node j o ho
      refine ⟨n', added', ?_, hne', fun x hx => ⟨(hadd' x hx).1, hv _ _ (hadd' x hx).2⟩, hnodup'⟩
      rw [List.getElem?_set_ne (Ne.symm hj), hn']

/-- **Step.**  Deciding a pair the pass has not visited keeps the invariant,
with the pair visited: a path of nonzero weight goes into the next free slot
of the source, if there is one. -/
theorem Extends.step (hs : Snapshot numNodes orig) (hsmall : SmallWeights orig)
    (hcpus : CpusAreCpus orig) (he : Extends numNodes orig cur visited) {node1 node2 : Nat}
    (h1 : node1 < orig.length) (h2 : node2 < orig.length) (hnew : ¬ visited node1 node2) :
    ∃ cur', addIndirectLink numNodes cur node1 node2 = some cur' ∧
      Extends numNodes orig cur' (fun a b => visited a b ∨ (a = node1 ∧ b = node2)) := by
  obtain ⟨⟨s, w, t⟩, hget⟩ := getIndirectIolinkInfo_isSome hs.readsOk h1 h2
  have hcur := he.getIndirectIolinkInfo_eq hs hsmall hcpus h1 h2
  have hkeep : Extends numNodes orig cur (fun a b => visited a b ∨ (a = node1 ∧ b = node2)) :=
    he.mono fun a b h => Or.inl h
  by_cases hw : w = 0
  · exact ⟨cur, by simp [addIndirectLink, hcur, hget, hw], hkeep⟩
  have ho1 : orig[node1]? = some orig[node1] := List.getElem?_eq_getElem h1
  obtain ⟨n, added, hn, hne, hadd, hnodup⟩ := he.node node1 _ ho1
  obtain ⟨props, hprops⟩ : ∃ props, n.link = some props :=
    Option.ne_none_iff_exists'.mp hne.link_ne_none
  have hlen : props.length = numNodes.toNat - 1 := by simpa [hprops] using hne.slots
  have hN : ¬ numNodes.toNat ≤ node1 := by rw [← hs.length_eq]; omega
  have hslots : (numNodes - 1).toNat = numNodes.toNat - 1 := toNat_sub_one (by omega)
  by_cases hfull : (numNodes - 1).toNat ≤ n.numIOLinks
  · refine ⟨cur, ?_, hkeep⟩
    simp [addIndirectLink, hcur, hget, topologyAddIoLinkForNode,
      topologyGetFreeIoLinkSlotForNode, hN, hn, hprops, hfull]
  -- the new link goes into slot `NumIOLinks`
  have hslot : n.numIOLinks < props.length := by omega
  let x : IoLink := ⟨t, node1, node2, w⟩
  let n' : Node :=
    { n with link := some (props.set n.numIOLinks x), numIOLinks := n.numIOLinks + 1 }
  have hne' : NodeExtends numNodes orig[node1] n' (added ++ [x]) := by
    refine ⟨hne.kfdGpuId_eq, hne.hiveId_eq, hne.numMemoryBanks_eq, hne.mem_eq, ?_, ?_, ?_⟩
    · simp [n', hlen]
    · simp only [n']
      omega
    · show (props.set n.numIOLinks x).take (n.numIOLinks + 1) = orig[node1].links ++ (added ++ [x])
      have hlinks : n.links = props.take n.numIOLinks := by simp [Node.links, hprops]
      rw [take_set_succ hslot, ← hlinks, hne.links_eq, List.append_assoc]
  have hadd' : ∀ y ∈ added ++ [x],
      Found orig node1 y ∧ (visited node1 y.nodeTo ∨ (node1 = node1 ∧ y.nodeTo = node2)) := by
    intro y hy
    rcases List.mem_append.mp hy with hy | hy
    · exact ⟨(hadd y hy).1, Or.inl (hadd y hy).2⟩
    · rw [List.mem_singleton.mp hy]
      exact ⟨⟨rfl, hw, s, hget⟩, Or.inr ⟨rfl, rfl⟩⟩
  -- no earlier link of the node goes to `node2`: its pair was not visited
  have hnodup' : ((added ++ [x]).map IoLink.nodeTo).Nodup := by
    rw [List.map_append, List.nodup_append]
    refine ⟨hnodup, by simp, ?_⟩
    intro a ha b hb
    obtain ⟨y, hy, rfl⟩ := List.mem_map.mp ha
    have hb' : b = node2 := by simpa [x] using hb
    rw [hb']
    intro hyb
    exact hnew (hyb ▸ (hadd y hy).2)
  refine ⟨cur.set node1 n', ?_, he.set (fun a b h => Or.inl h) h1 hne' hadd' hnodup'⟩
  simp [addIndirectLink, hcur, hget, hw, topologyAddIoLinkForNode,
    topologyGetFreeIoLinkSlotForNode, hN, hn, hprops, hfull, hslot, n', x]

end Pass

/-! ## The nodes after the pass -/

section Result

theorem cpuOf_of_kfdGpuId_eq_zero {nodes : List Node} {i : Nat} (hi : i < nodes.length)
    (h0 : nodes[i].kfdGpuId = 0) : cpuOf nodes i = none := by
  simp [cpuOf, List.getElem?_eq_getElem hi, Node.cpu, h0]

/-- Under `Attached`, a link the pass finds goes to a node its source has no
direct link to: between GPUs of one hive no path is looked for, and the paths
between a GPU and its own CPU would need a link from a node to itself. -/
theorem Found.not_direct (hs : Snapshot numNodes orig) (hcpus : CpusAreCpus orig)
    (hatt : Attached orig) {i : Nat} {x : IoLink} (hf : Found orig i x) :
    linkOf orig i x.nodeTo = none := by
  obtain ⟨-, hw, s, hget⟩ := hf
  obtain ⟨-, n1, n2, hn1, hn2, hcpu, hhive, -, hp⟩ := getIndirectIolinkInfo_path hs.readsOk hget hw
  obtain ⟨hi, rfl⟩ := List.getElem?_eq_some_iff.mp hn1
  obtain ⟨hy, rfl⟩ := List.getElem?_eq_some_iff.mp hn2
  by_contra hl
  obtain ⟨hgg, hgc, hcg⟩ := hatt i hi x.nodeTo hy (Option.ne_none_iff_isSome.mp hl)
  by_cases g1 : orig[i].kfdGpuId = 0 <;> by_cases g2 : orig[x.nodeTo].kfdGpuId = 0
  · exact hcpu ⟨g1, g2⟩
  · -- CPU -> GPU: the GPU's CPU is the source, or it finds none
    have h1 := cpuOf_of_kfdGpuId_eq_zero hi g1
    rcases hcg g1 g2 with h2 | h2
    · exact hp.not_to_own_gpu h1 h2 (hs.linkOf_self i)
    · simpa [h1, h2] using hp.cpuOf_isSome
  · -- GPU -> CPU: the destination is the GPU's CPU, or the GPU finds none
    have h2 := cpuOf_of_kfdGpuId_eq_zero hy g2
    rcases hgc g1 g2 with h1 | h1
    · exact hp.not_to_own_cpu h1 (hcpus.cpuOf_cpu h1) (hs.linkOf_self _)
    · simpa [h1, h2] using hp.cpuOf_isSome
  · -- GPU -> GPU: one hive
    obtain ⟨hh, heq⟩ := hgg g1 g2
    exact hhive ⟨hh, heq ▸ hh, heq⟩

variable {i : Nat} {o n : Node} {added : List IoLink}

/-- Under `Attached`, no two links of a node go to one node: the found links
go to nodes the direct ones do not. -/
theorem NodeExtends.nodup (hs : Snapshot numNodes orig) (hcpus : CpusAreCpus orig)
    (hatt : Attached orig) (ho : orig[i]? = some o) (hne : NodeExtends numNodes o n added)
    (hadd : ∀ x ∈ added, Found orig i x) (hnodup : (added.map IoLink.nodeTo).Nodup) :
    (n.links.map IoLink.nodeTo).Nodup := by
  rw [hne.links_eq, List.map_append, List.nodup_append]
  refine ⟨hs.nodup o (List.mem_of_getElem? ho), hnodup, ?_⟩
  intro a ha b hb hab
  obtain ⟨y, hy, rfl⟩ := List.mem_map.mp ha
  obtain ⟨x, hx, rfl⟩ := List.mem_map.mp hb
  have hnone := (hadd x hx).not_direct hs hcpus hatt
  rw [linkOf_eq ho, Node.linkTo, List.find?_eq_none] at hnone
  exact hnone y hy (by simp [hab])

end Result

end Topology
