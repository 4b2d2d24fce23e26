import Mathlib

/-!
# Indirect IO links of the topology snapshot

Without `p2p_links` in sysfs, `topology_take_snapshot` completes the direct
IO links the kernel reports with indirect ones:
`topology_create_indirect_gpu_links` visits every pair of nodes `i < j` and,
in each direction, asks `get_indirect_iolink_info` for a path through the
CPUs the GPUs link to (`gpu_get_direct_link_cpu`), made of the direct links
`get_direct_iolink_info` looks up.  A path of nonzero weight becomes a new
link in the next free slot of the source node's array
(`topology_add_io_link_for_node`), which the later lookups of the pass then
see.

Every read of `node_props`, of a link array or of a memory bank array is a
list lookup that may fail (`none`): a run that returns `some` read nothing
outside them.  Of `HsaNodeProperties` and `HsaIoLinkProperties` only the
fields the pass reads or writes are modelled; link types and heap types are
the `uint32_t` values sysfs gives, so any number.

With the reads inside their arrays (`ReadsOk`), each lookup is a `find?` on
the links in use (`getDirectIolinkInfo_eq`, `gpuGetDirectLinkCpu_eq`), and a
nonzero weight from `get_indirect_iolink_info` comes from one of its four CPU
paths with the weights of its links summed (`getIndirectIolinkInfo_path`).
-/

namespace Topology

/-- The `HSAKMT_STATUS` values of these functions. -/
inductive KmtStatus where
  | success
  | error
  | invalidParameter
  | noMemory
  | notSupported
  | invalidNodeUnit
deriving DecidableEq, Repr

/-- `HSA_IOLINKTYPE_UNDEFINED`. -/
def ioLinkTypeUndefined : Nat := 0

/-- `HSA_IOLINKTYPE_PCIEXPRESS`. -/
def ioLinkTypePciExpress : Nat := 2

/-- `HSA_IOLINK_TYPE_QPI_1_1`. -/
def ioLinkTypeQpi11 : Nat := 5

/-- `HSA_HEAPTYPE_FRAME_BUFFER_PUBLIC`. -/
def heapTypeFrameBufferPublic : Nat := 1

/-- The fields of `HsaIoLinkProperties` the pass reads and writes. -/
structure IoLink where
  ioLinkType : Nat
  nodeFrom : Nat
  nodeTo : Nat
  weight : UInt32
deriving DecidableEq, Repr

/-- A `node_props_t` entry: the fields of `HsaNodeProperties` the pass reads,
the heap type of each memory bank, and the io_link array (`none` for a NULL
pointer) with `NumIOLinks`, the count of its slots in use. -/
structure Node where
  kfdGpuId : Nat
  hiveId : Nat
  numMemoryBanks : Nat
  mem : List Nat
  numIOLinks : Nat
  link : Option (List IoLink)
deriving DecidableEq, Repr

/-- The loop shared by `gpu_get_direct_link_cpu`, `get_direct_iolink_info`
and the large-BAR test: the first of `xs[i]`, `i ∈ is`, that satisfies `p`;
`none` is a read past the array. -/
def findIn {α : Type} (xs : List α) (p : α → Bool) : List Nat → Option (Option α)
  | [] => some none
  | i :: is => do
    let x ← xs[i]?
    if p x then return some x else findIn xs p is

/-- A GPU's link to its CPU: PCIe of weight at most 20 (more is
GPU->CPU->GPU). -/
def IoLink.isCpuLink (x : IoLink) : Bool :=
  x.ioLinkType == ioLinkTypePciExpress && x.weight ≤ 20

/-- `gpu_get_direct_link_cpu`: the CPU a GPU links to directly, `none` for
`-1`.  The `int32_t` it returns makes a node id from `2^31` on negative. -/
def gpuGetDirectLinkCpu (nodes : List Node) (gpuNode : Nat) : Option (Option Nat) := do
  let n ← nodes[gpuNode]?
  match n.link with
  | none => return none
  | some props =>
    if n.kfdGpuId = 0 ∨ n.numIOLinks = 0 then return none
    else
      match ← findIn props IoLink.isCpuLink (List.range n.numIOLinks) with
      | some x => return if x.nodeTo < 2 ^ 31 then some x.nodeTo else none
      | none => return none

/-- `get_direct_iolink_info(node1, node2, &weight, &type)`: the status and the
two out-parameters, which only a found link writes. -/
def getDirectIolinkInfo (nodes : List Node) (node1 node2 : Nat) (weight : UInt32) (type : Nat) :
    Option (KmtStatus × UInt32 × Nat) := do
  let n ← nodes[node1]?
  match n.link with
  | none => return (.invalidNodeUnit, weight, type)
  | some props =>
    match ← findIn props (fun x => x.nodeTo == node2) (List.range n.numIOLinks) with
    | some x => return (.success, x.weight, x.ioLinkType)
    | none => return (.invalidParameter, weight, type)

/-- The large-BAR test of `get_indirect_iolink_info`: whether a memory bank of
the node is a public frame buffer. -/
def hasPublicFrameBuffer (n : Node) : Option Bool :=
  (findIn n.mem (· == heapTypeFrameBufferPublic) (List.range n.numMemoryBanks)).map Option.isSome

/-- The paths of `get_indirect_iolink_info`, chosen by the CPUs of the two
nodes: the status of the last lookup, `weight1`, `weight2`, `weight3` and
`*type`.  A failed lookup before the last returns at once. -/
def indirectPath (nodes : List Node) (node1 node2 : Nat) :
    Option Nat → Option Nat → Option (KmtStatus × UInt32 × UInt32 × UInt32 × Nat)
  | some c1, some c2 => do
    if c1 = c2 then
      -- GPU->CPU->GPU
      let (ret, w1, _) ← getDirectIolinkInfo nodes node1 c1 0 ioLinkTypeUndefined
      if ret ≠ .success then return (ret, 0, 0, 0, ioLinkTypeUndefined)
      let (ret, w2, type) ← getDirectIolinkInfo nodes c1 node2 0 ioLinkTypeUndefined
      return (ret, w1, w2, 0, type)
    else
      -- GPU->CPU->CPU->GPU
      let (ret, w1, _) ← getDirectIolinkInfo nodes node1 c1 0 ioLinkTypeUndefined
      if ret ≠ .success then return (ret, 0, 0, 0, ioLinkTypeUndefined)
      let (ret, w2, type) ← getDirectIolinkInfo nodes c1 c2 0 ioLinkTypeUndefined
      if ret ≠ .success then return (ret, 0, 0, 0, type)
      -- CPUs on different sockets of a QPI interconnect
      if type = ioLinkTypeQpi11 ∧ w2 > 20 then return (.notSupported, 0, 0, 0, type)
      let (ret, w3, _) ← getDirectIolinkInfo nodes c2 node2 0 ioLinkTypeUndefined
      return (ret, w1, w2, w3, type)
  | some c1, none => do
    -- GPU->CPU->CPU
    let (ret, w1, _) ← getDirectIolinkInfo nodes node1 c1 0 ioLinkTypeUndefined
    if ret ≠ .success then return (ret, 0, 0, 0, ioLinkTypeUndefined)
    let (ret, w2, type) ← getDirectIolinkInfo nodes c1 node2 0 ioLinkTypeUndefined
    return (ret, w1, w2, 0, type)
  | none, some c2 => do
    -- CPU->CPU->GPU
    let (ret, w2, type) ← getDirectIolinkInfo nodes node1 c2 0 ioLinkTypeUndefined
    if ret ≠ .success then return (ret, 0, 0, 0, type)
    let (ret, w3, _) ← getDirectIolinkInfo nodes c2 node2 0 ioLinkTypeUndefined
    return (ret, 0, w2, w3, type)
  | none, none => return (.error, 0, 0, 0, ioLinkTypeUndefined)

/-- `dir_cpu` of `get_indirect_iolink_info`: `gpu_get_direct_link_cpu` of a GPU,
`-1` for a CPU. -/
def dirCpuOf (nodes : List Node) (n : Node) (i : Nat) : Option (Option Nat) :=
  if n.kfdGpuId ≠ 0 then gpuGetDirectLinkCpu nodes i else pure none

/-- The large-BAR test of `get_indirect_iolink_info`: a GPU destination needs
a public frame buffer for host access. -/
def largeBarOk (n2 : Node) : Option Bool :=
  if n2.kfdGpuId ≠ 0 then hasPublicFrameBuffer n2 else pure true

/-- The end of `get_indirect_iolink_info`: `*weight = weight1 + weight2 +
weight3` in 32 bits when the last lookup succeeded, `0` otherwise. -/
def finishIndirect (r : KmtStatus × UInt32 × UInt32 × UInt32 × Nat) : KmtStatus × UInt32 × Nat :=
  if r.1 ≠ .success then (r.1, 0, r.2.2.2.2) else (.success, r.2.1 + r.2.2.1 + r.2.2.2.1, r.2.2.2.2)

/-- `get_indirect_iolink_info(node1, node2, &weight, &type)`: the status and
the two out-parameters. -/
def getIndirectIolinkInfo (nodes : List Node) (node1 node2 : Nat) :
    Option (KmtStatus × UInt32 × Nat) := do
  if node1 = node2 then return (.invalidParameter, 0, ioLinkTypeUndefined)
  let n1 ← nodes[node1]?
  let n2 ← nodes[node2]?
  -- CPU->CPU is not an indirect link
  if n1.kfdGpuId = 0 ∧ n2.kfdGpuId = 0 then return (.invalidNodeUnit, 0, ioLinkTypeUndefined)
  if n1.hiveId ≠ 0 ∧ n2.hiveId ≠ 0 ∧ n1.hiveId = n2.hiveId then
    return (.invalidParameter, 0, ioLinkTypeUndefined)
  let dirCpu1 ← dirCpuOf nodes n1 node1
  let dirCpu2 ← dirCpuOf nodes n2 node2
  if dirCpu1 = none ∧ dirCpu2 = none then return (.error, 0, ioLinkTypeUndefined)
  if (← largeBarOk n2) = false then return (.error, 0, ioLinkTypeUndefined)
  let r ← indirectPath nodes node1 node2 dirCpu1 dirCpu2
  return finishIndirect r

/-- `topology_get_free_io_link_slot_for_node`: the index of the next free
slot of the node's link array, `none` for NULL. -/
def topologyGetFreeIoLinkSlotForNode (numNodes : UInt32) (nodes : List Node) (nodeId : Nat) :
    Option (Option Nat) := do
  if nodeId ≥ numNodes.toNat then return none
  let n ← nodes[nodeId]?
  match n.link with
  | none => return none
  | some _ => if n.numIOLinks ≥ (numNodes - 1).toNat then return none else return some n.numIOLinks

/-- `topology_add_io_link_for_node`: the status and the nodes; `none` is also
a write past the link array. -/
def topologyAddIoLinkForNode (numNodes : UInt32) (nodes : List Node) (nodeFrom ioLinkType nodeTo : Nat)
    (weight : UInt32) : Option (KmtStatus × List Node) := do
  match ← topologyGetFreeIoLinkSlotForNode numNodes nodes nodeFrom with
  | none => return (.noMemory, nodes)
  | some slot =>
    let n ← nodes[nodeFrom]?
    let props ← n.link
    if slot < props.length then
      return (.success, nodes.set nodeFrom
        { n with link := some (props.set slot ⟨ioLinkType, nodeFrom, nodeTo, weight⟩),
                 numIOLinks := n.numIOLinks + 1 })
    else none

/-- One direction of the loop body of `topology_create_indirect_gpu_links`:
the link `node1 -> node2` when `get_indirect_iolink_info` finds a path of
nonzero weight.  A failure to add it is only logged. -/
def addIndirectLink (numNodes : UInt32) (nodes : List Node) (node1 node2 : Nat) :
    Option (List Node) := do
  let (_, weight, type) ← getIndirectIolinkInfo nodes node1 node2
  if weight = 0 then return nodes
  let (_, nodes) ← topologyAddIoLinkForNode numNodes nodes node1 type node2 weight
  return nodes

/-- The links a node has in use: the first `NumIOLinks` slots of its array. -/
def Node.links (n : Node) : List IoLink := (n.link.getD []).take n.numIOLinks

/-- The CPU `gpu_get_direct_link_cpu` finds for a node; `none` for a CPU. -/
def Node.cpu (n : Node) : Option Nat :=
  if n.kfdGpuId = 0 then none
  else (n.links.find? IoLink.isCpuLink).bind fun x => if x.nodeTo < 2 ^ 31 then some x.nodeTo else none

/-- The link `get_direct_iolink_info` finds from a node to `b`: its first link
there. -/
def Node.linkTo (n : Node) (b : Nat) : Option IoLink := n.links.find? fun x => x.nodeTo == b

/-- Whether a memory bank of the node is a public frame buffer. -/
def Node.publicFrameBuffer (n : Node) : Bool :=
  (n.mem.take n.numMemoryBanks).any (· == heapTypeFrameBufferPublic)

/-- The CPU of node `i`. -/
def cpuOf (nodes : List Node) (i : Nat) : Option Nat := nodes[i]?.bind Node.cpu

/-- The first link from node `a` to node `b`. -/
def linkOf (nodes : List Node) (a b : Nat) : Option IoLink := nodes[a]?.bind (·.linkTo b)

/-- The arrays of a snapshot cover what the pass reads: each link array holds
the links in use, each bank array the banks, and each link in use points at
a node. -/
structure ReadsOk (nodes : List Node) : Prop where
  numIOLinks_le : ∀ n ∈ nodes, n.numIOLinks ≤ (n.link.getD []).length
  numMemoryBanks_le : ∀ n ∈ nodes, n.numMemoryBanks ≤ n.mem.length
  nodeTo_lt : ∀ n ∈ nodes, ∀ x ∈ n.links, x.nodeTo < nodes.length

section Reads

theorem filterMap_getElem?_range {α : Type} (xs : List α) (k : Nat) :
    (List.range k).filterMap (fun i => xs[i]?) = xs.take k := by
  induction k with
  | zero => simp
  | succ k ih =>
    rw [List.range_succ, List.filterMap_append, ih, List.take_add_one]
    cases h : xs[k]? <;> simp [h]

theorem findIn_eq {α : Type} {xs : List α} {p : α → Bool} {is : List Nat}
    (h : ∀ i ∈ is, i < xs.length) :
    findIn xs p is = some ((is.filterMap fun i => xs[i]?).find? p) := by
  induction is with
  | nil => rfl
  | cons i is ih =>
    have hi : i < xs.length := h i (by simp)
    have hrest := ih fun j hj => h j (by simp [hj])
    by_cases hp : p xs[i] = true
    · simp [findIn, hi, hp]
    · simp [findIn, hi, hp, hrest]

/-- Within the array, the loop over the first `k` slots finds the first entry
of the first `k` that satisfies `p`. -/
theorem findIn_range {α : Type} {xs : List α} {p : α → Bool} {k : Nat} (hk : k ≤ xs.length) :
    findIn xs p (List.range k) = some ((xs.take k).find? p) := by
  rw [findIn_eq fun i hi => by simp at hi; omega, filterMap_getElem?_range]

variable {nodes : List Node}

theorem gpuGetDirectLinkCpu_eq (hr : ReadsOk nodes) {g : Nat} {n : Node} (hn : nodes[g]? = some n) :
    gpuGetDirectLinkCpu nodes g = some n.cpu := by
  have hk := hr.numIOLinks_le n (List.mem_of_getElem? hn)
  unfold gpuGetDirectLinkCpu
  cases hl : n.link with
  | none => simp [hn, hl, Node.cpu, Node.links]
  | some props =>
    rw [hl, Option.getD_some] at hk
    by_cases h0 : n.kfdGpuId = 0 ∨ n.numIOLinks = 0
    · rcases h0 with h0 | h0 <;> simp [hn, hl, h0, Node.cpu, Node.links]
    · rw [not_or] at h0
      cases hf : (props.take n.numIOLinks).find? IoLink.isCpuLink <;>
        simp [hn, hl, h0, findIn_range hk, Node.cpu, Node.links, hf]

theorem getDirectIolinkInfo_of_linkTo (hr : ReadsOk nodes) {a b : Nat} {n : Node} {x : IoLink}
    (hn : nodes[a]? = some n) (hx : n.linkTo b = some x) (w : UInt32) (t : Nat) :
    getDirectIolinkInfo nodes a b w t = some (.success, x.weight, x.ioLinkType) := by
  have hk := hr.numIOLinks_le n (List.mem_of_getElem? hn)
  unfold getDirectIolinkInfo
  cases hl : n.link with
  | none => simp [Node.linkTo, Node.links, hl] at hx
  | some props =>
    rw [hl, Option.getD_some] at hk
    simp only [Node.linkTo, Node.links, hl, Option.getD_some] at hx
    simp [hn, hl, findIn_range hk, hx]

theorem getDirectIolinkInfo_of_linkTo_none (hr : ReadsOk nodes) {a b : Nat} {n : Node}
    (hn : nodes[a]? = some n) (hx : n.linkTo b = none) (w : UInt32) (t : Nat) :
    getDirectIolinkInfo nodes a b w t =
      some (if n.link = none then .invalidNodeUnit else .invalidParameter, w, t) := by
  have hk := hr.numIOLinks_le n (List.mem_of_getElem? hn)
  unfold getDirectIolinkInfo
  cases hl : n.link with
  | none => simp [hn, hl]
  | some props =>
    rw [hl, Option.getD_some] at hk
    simp only [Node.linkTo, Node.links, hl, Option.getD_some] at hx
    simp [hn, hl, findIn_range hk, hx]

theorem hasPublicFrameBuffer_eq (hr : ReadsOk nodes) {n : Node} (hn : n ∈ nodes) :
    hasPublicFrameBuffer n = some n.publicFrameBuffer := by
  have hm := hr.numMemoryBanks_le n hn
  rw [hasPublicFrameBuffer, findIn_range hm, Option.map_some, Node.publicFrameBuffer]
  congr 1
  rw [Bool.eq_iff_iff, List.find?_isSome, List.any_eq_true]

end Reads

section Paths

variable {nodes : List Node}

theorem dirCpuOf_eq (hr : ReadsOk nodes) {i : Nat} {n : Node} (hn : nodes[i]? = some n) :
    dirCpuOf nodes n i = some n.cpu := by
  by_cases h0 : n.kfdGpuId = 0
  · simp [dirCpuOf, h0, Node.cpu]
  · simp [dirCpuOf, h0, gpuGetDirectLinkCpu_eq hr hn]

theorem largeBarOk_eq (hr : ReadsOk nodes) {n : Node} (hn : n ∈ nodes) :
    largeBarOk n = some (decide (n.kfdGpuId = 0) || n.publicFrameBuffer) := by
  by_cases h0 : n.kfdGpuId = 0
  · simp [largeBarOk, h0]
  · simp [largeBarOk, h0, hasPublicFrameBuffer_eq hr hn]

theorem cpuOf_eq {i : Nat} {n : Node} (hn : nodes[i]? = some n) : cpuOf nodes i = n.cpu := by
  simp [cpuOf, hn]

/-- A lookup that succeeded found the first link from `a` to `b`. -/
theorem getDirectIolinkInfo_success (hr : ReadsOk nodes) {a b : Nat} {w w' : UInt32} {t t' : Nat}
    (h : getDirectIolinkInfo nodes a b w t = some (.success, w', t')) :
    ∃ x, linkOf nodes a b = some x ∧ w' = x.weight ∧ t' = x.ioLinkType := by
  cases hn : nodes[a]? with
  | none => simp [getDirectIolinkInfo, hn] at h
  | some n =>
    cases hx : n.linkTo b with
    | none =>
      rw [getDirectIolinkInfo_of_linkTo_none hr hn hx] at h
      split_ifs at h <;> cases h
    | some x =>
      rw [getDirectIolinkInfo_of_linkTo hr hn hx] at h
      cases h
      exact ⟨x, by simp [linkOf, hn, hx], rfl, rfl⟩

/-- The four paths of `get_indirect_iolink_info` through the links of a
snapshot, chosen by the CPUs of the two ends: the weight is the 32-bit sum of
the weights of the links along the path, the type that of the link after the
first CPU (after the source, for a CPU source). -/
inductive CpuPath (nodes : List Node) (node1 node2 : Nat) : UInt32 → Nat → Prop
  /-- GPU->CPU->GPU -/
  | gpuCpuGpu {c : Nat} {l1 l2 : IoLink} :
      cpuOf nodes node1 = some c → cpuOf nodes node2 = some c →
      linkOf nodes node1 c = some l1 → linkOf nodes c node2 = some l2 →
      CpuPath nodes node1 node2 (l1.weight + l2.weight) l2.ioLinkType
  /-- GPU->CPU->CPU->GPU, unless the CPUs are on two sockets of a QPI
  interconnect -/
  | gpuCpuCpuGpu {c1 c2 : Nat} {l1 l2 l3 : IoLink} :
      cpuOf nodes node1 = some c1 → cpuOf nodes node2 = some c2 → c1 ≠ c2 →
      linkOf nodes node1 c1 = some l1 → linkOf nodes c1 c2 = some l2 →
      ¬ (l2.ioLinkType = ioLinkTypeQpi11 ∧ l2.weight > 20) → linkOf nodes c2 node2 = some l3 →
      CpuPath nodes node1 node2 (l1.weight + l2.weight + l3.weight) l2.ioLinkType
  /-- GPU->CPU->CPU -/
  | gpuCpuCpu {c1 : Nat} {l1 l2 : IoLink} :
      cpuOf nodes node1 = some c1 → cpuOf nodes node2 = none →
      linkOf nodes node1 c1 = some l1 → linkOf nodes c1 node2 = some l2 →
      CpuPath nodes node1 node2 (l1.weight + l2.weight) l2.ioLinkType
  /-- CPU->CPU->GPU -/
  | cpuCpuGpu {c2 : Nat} {l2 l3 : IoLink} :
      cpuOf nodes node1 = none → cpuOf nodes node2 = some c2 →
      linkOf nodes node1 c2 = some l2 → linkOf nodes c2 node2 = some l3 →
      CpuPath nodes node1 node2 (l2.weight + l3.weight) l2.ioLinkType

/-- A path `indirectPath` reports found is one of the four. -/
theorem indirectPath_success (hr : ReadsOk nodes) {node1 node2 : Nat} {cpu1 cpu2 : Option Nat}
    {w1 w2 w3 : UInt32} {t : Nat} (h1 : cpuOf nodes node1 = cpu1) (h2 : cpuOf nodes node2 = cpu2)
    (h : indirectPath nodes node1 node2 cpu1 cpu2 = some (.success, w1, w2, w3, t)) :
    CpuPath nodes node1 node2 (w1 + w2 + w3) t := by
  rcases cpu1 with _ | c1 <;> rcases cpu2 with _ | c2
  · simp [indirectPath] at h
  · -- CPU->CPU->GPU
    simp only [indirectPath, Option.bind_eq_bind, Option.bind_eq_some_iff] at h
    obtain ⟨⟨ret2, w2', t2⟩, hd2, h⟩ := h
    split_ifs at h with hret2
    · simp [hret2] at h
    obtain ⟨⟨ret3, w3', t3⟩, hd3, h⟩ := Option.bind_eq_some_iff.mp h
    simp only [pure, Option.some.injEq, Prod.mk.injEq] at h
    obtain ⟨rfl, rfl, rfl, rfl, rfl⟩ := h
    simp only [not_not] at hret2
    subst hret2
    obtain ⟨l2, hl2, rfl, rfl⟩ := getDirectIolinkInfo_success hr hd2
    obtain ⟨l3, hl3, rfl, -⟩ := getDirectIolinkInfo_success hr hd3
    rw [UInt32.zero_add]
    exact .cpuCpuGpu h1 h2 hl2 hl3
  · -- GPU->CPU->CPU
    simp only [indirectPath, Option.bind_eq_bind, Option.bind_eq_some_iff] at h
    obtain ⟨⟨ret1, w1', t1⟩, hd1, h⟩ := h
    split_ifs at h with hret1
    · simp [hret1] at h
    obtain ⟨⟨ret2, w2', t2⟩, hd2, h⟩ := Option.bind_eq_some_iff.mp h
    simp only [pure, Option.some.injEq, Prod.mk.injEq] at h
    obtain ⟨rfl, rfl, rfl, rfl, rfl⟩ := h
    simp only [not_not] at hret1
    subst hret1
    obtain ⟨l1, hl1, rfl, -⟩ := getDirectIolinkInfo_success hr hd1
    obtain ⟨l2, hl2, rfl, rfl⟩ := getDirectIolinkInfo_success hr hd2
    rw [UInt32.add_zero]
    exact .gpuCpuCpu h1 h2 hl1 hl2
  · by_cases hc : c1 = c2
    · -- GPU->CPU->GPU
      subst hc
      simp only [indirectPath, if_true, Option.bind_eq_bind, Option.bind_eq_some_iff] at h
      obtain ⟨⟨ret1, w1', t1⟩, hd1, h⟩ := h
      split_ifs at h with hret1
      · simp [hret1] at h
      obtain ⟨⟨ret2, w2', t2⟩, hd2, h⟩ := Option.bind_eq_some_iff.mp h
      simp only [pure, Option.some.injEq, Prod.mk.injEq] at h
      obtain ⟨rfl, rfl, rfl, rfl, rfl⟩ := h
      simp only [not_not] at hret1
      subst hret1
      obtain ⟨l1, hl1, rfl, -⟩ := getDirectIolinkInfo_success hr hd1
      obtain ⟨l2, hl2, rfl, rfl⟩ := getDirectIolinkInfo_success hr hd2
      rw [UInt32.add_zero]
      exact .gpuCpuGpu h1 h2 hl1 hl2
    · -- GPU->CPU->CPU->GPU
      simp only [indirectPath, hc, if_false, Option.bind_eq_bind, Option.bind_eq_some_iff] at h
      obtain ⟨⟨ret1, w1', t1⟩, hd1, h⟩ := h
      split_ifs at h with hret1
      · simp [hret1] at h
      obtain ⟨⟨ret2, w2', t2⟩, hd2, h⟩ := Option.bind_eq_some_iff.mp h
      split_ifs at h with hret2 hqpi
      · simp [hret2] at h
      · simp at h
      obtain ⟨⟨ret3, w3', t3⟩, hd3, h⟩ := Option.bind_eq_some_iff.mp h
      simp only [pure, Option.some.injEq, Prod.mk.injEq] at h
      obtain ⟨rfl, rfl, rfl, rfl, rfl⟩ := h
      simp only [not_not] at hret1 hret2
      subst hret1 hret2
      obtain ⟨l1, hl1, rfl, -⟩ := getDirectIolinkInfo_success hr hd1
      obtain ⟨l2, hl2, rfl, rfl⟩ := getDirectIolinkInfo_success hr hd2
      obtain ⟨l3, hl3, rfl, -⟩ := getDirectIolinkInfo_success hr hd3
      exact .gpuCpuCpuGpu h1 h2 hc hl1 hl2 hqpi hl3

theorem Node.cpu_lt (hr : ReadsOk nodes) {n : Node} (hn : n ∈ nodes) {c : Nat}
    (hc : n.cpu = some c) : c < nodes.length := by
  unfold Node.cpu at hc
  split_ifs at hc
  obtain ⟨x, hx, hc⟩ := Option.bind_eq_some_iff.mp hc
  split_ifs at hc
  cases hc
  exact hr.nodeTo_lt n hn x (List.mem_of_find?_eq_some hx)

theorem getDirectIolinkInfo_isSome (hr : ReadsOk nodes) {a : Nat} (ha : a < nodes.length)
    (b : Nat) (w : UInt32) (t : Nat) : ∃ r, getDirectIolinkInfo nodes a b w t = some r := by
  have hn : nodes[a]? = some nodes[a] := List.getElem?_eq_getElem ha
  cases hx : nodes[a].linkTo b with
  | none => exact ⟨_, getDirectIolinkInfo_of_linkTo_none hr hn hx w t⟩
  | some x => exact ⟨_, getDirectIolinkInfo_of_linkTo hr hn hx w t⟩

/-- The lookups of the paths read only nodes of the snapshot; the destination
itself only through the CPU before it. -/
theorem indirectPath_isSome (hr : ReadsOk nodes) {node1 : Nat} (node2 : Nat) {cpu1 cpu2 : Option Nat}
    (h1 : node1 < nodes.length) (hc1 : ∀ c, cpu1 = some c → c < nodes.length) (hc2 : ∀ c, cpu2 = some c → c < nodes.length) :
    ∃ r, indirectPath nodes node1 node2 cpu1 cpu2 = some r := by
  have hd := fun {a : Nat} (ha : a < nodes.length) (b : Nat) => getDirectIolinkInfo_isSome hr ha b 0 ioLinkTypeUndefined
  rcases cpu1 with _ | c1 <;> rcases cpu2 with _ | c2
  · exact ⟨_, rfl⟩
  · obtain ⟨⟨ret2, w2, t2⟩, e2⟩ := hd h1 c2
    obtain ⟨⟨ret3, w3, t3⟩, e3⟩ := hd (hc2 c2 rfl) node2
    simp only [indirectPath, e2, e3, Option.bind_eq_bind, Option.bind_some]
    split_ifs <;> exact ⟨_, rfl⟩
  · obtain ⟨⟨ret1, w1, t1⟩, e1⟩ := hd h1 c1
    obtain ⟨⟨ret2, w2, t2⟩, e2⟩ := hd (hc1 c1 rfl) node2
    simp only [indirectPath, e1, e2, Option.bind_eq_bind, Option.bind_some]
    split_ifs <;> exact ⟨_, rfl⟩
  · obtain ⟨⟨ret1, w1, t1⟩, e1⟩ := hd h1 c1
    obtain ⟨⟨ret2, w2, t2⟩, e2⟩ := hd (hc1 c1 rfl) node2
    obtain ⟨⟨ret2', w2', t2'⟩, e2'⟩ := hd (hc1 c1 rfl) c2
    obtain ⟨⟨ret3, w3, t3⟩, e3⟩ := hd (hc2 c2 rfl) node2
    by_cases hc : c1 = c2
    · subst hc
      simp only [indirectPath, if_true, e1, e2, Option.bind_eq_bind, Option.bind_some]
      split_ifs <;> exact ⟨_, rfl⟩
    · simp only [indirectPath, hc, if_false, e1, e2', e3, Option.bind_eq_bind, Option.bind_some]
      split_ifs <;> exact ⟨_, rfl⟩

/-- `get_indirect_iolink_info` reads only nodes of the snapshot. -/
theorem getIndirectIolinkInfo_isSome (hr : ReadsOk nodes) {node1 node2 : Nat}
    (h1 : node1 < nodes.length) (h2 : node2 < nodes.length) :
    ∃ r, getIndirectIolinkInfo nodes node1 node2 = some r := by
  have hn1 : nodes[node1]? = some nodes[node1] := List.getElem?_eq_getElem h1
  have hn2 : nodes[node2]? = some nodes[node2] := List.getElem?_eq_getElem h2
  obtain ⟨r, hpath⟩ := indirectPath_isSome hr node2 h1
    (fun c (hc : nodes[node1].cpu = some c) => Node.cpu_lt hr (List.getElem_mem h1) hc)
    (fun c (hc : nodes[node2].cpu = some c) => Node.cpu_lt hr (List.getElem_mem h2) hc)
  unfold getIndirectIolinkInfo
  simp only [hn1, hn2, dirCpuOf_eq hr hn1, dirCpuOf_eq hr hn2,
    largeBarOk_eq hr (List.getElem_mem h2), hpath, Option.bind_eq_bind, Option.bind_some]
  split_ifs <;> exact ⟨_, rfl⟩

/-- **Indirect links.**  A nonzero weight from `get_indirect_iolink_info` is
the weight of one of its four CPU paths between two distinct nodes that are
not both CPUs and not in one XGMI hive, to a GPU only with a public frame
buffer. -/
theorem getIndirectIolinkInfo_path (hr : ReadsOk nodes) {node1 node2 : Nat} {ret : KmtStatus}
    {w : UInt32} {t : Nat} (h : getIndirectIolinkInfo nodes node1 node2 = some (ret, w, t))
    (hw : w ≠ 0) :
    node1 ≠ node2 ∧ ∃ n1 n2, nodes[node1]? = some n1 ∧ nodes[node2]? = some n2 ∧
      ¬ (n1.kfdGpuId = 0 ∧ n2.kfdGpuId = 0) ∧
      ¬ (n1.hiveId ≠ 0 ∧ n2.hiveId ≠ 0 ∧ n1.hiveId = n2.hiveId) ∧
      (n2.kfdGpuId ≠ 0 → n2.publicFrameBuffer = true) ∧ CpuPath nodes node1 node2 w t := by
  -- every early return reports weight `0`
  have hzero : ∀ {s : KmtStatus} {t' : Nat}, (pure (s, 0, t') : Option _) ≠ some (ret, w, t) := by
    intro s t' heq
    simp only [pure, Option.some.injEq, Prod.mk.injEq] at heq
    exact hw heq.2.1.symm
  unfold getIndirectIolinkInfo at h
  split_ifs at h with h12
  · exact absurd h hzero
  simp only [Option.bind_eq_bind, Option.bind_eq_some_iff] at h
  obtain ⟨n1, hn1, n2, hn2, h⟩ := h
  split_ifs at h with hcpu hhive
  · exact absurd h hzero
  · exact absurd h hzero
  simp only [Option.bind_eq_some_iff] at h
  obtain ⟨c1, hc1, c2, hc2, h⟩ := h
  rw [dirCpuOf_eq hr hn1, Option.some.injEq] at hc1
  rw [dirCpuOf_eq hr hn2, Option.some.injEq] at hc2
  subst hc1 hc2
  split_ifs at h with hnone
  · exact absurd h hzero
  obtain ⟨ok, hok, h⟩ := Option.bind_eq_some_iff.mp h
  rw [largeBarOk_eq hr (List.mem_of_getElem? hn2), Option.some.injEq] at hok
  subst hok
  split_ifs at h with hbar
  · exact absurd h hzero
  obtain ⟨⟨ret', w1, w2, w3, t'⟩, hpath, h⟩ := Option.bind_eq_some_iff.mp h
  simp only [finishIndirect] at h
  split_ifs at h with hret
  · exact absurd h hzero
  simp only [not_not] at hret
  subst hret
  simp only [pure, Option.some.injEq, Prod.mk.injEq] at h
  obtain ⟨rfl, rfl, rfl⟩ := h
  refine ⟨h12, n1, n2, hn1, hn2, hcpu, hhive, fun hg => ?_,
    indirectPath_success hr (cpuOf_eq hn1) (cpuOf_eq hn2) hpath⟩
  simpa [hg] using hbar

theorem linkOf_mem {a b : Nat} {l : IoLink} (h : linkOf nodes a b = some l) :
    ∃ n, nodes[a]? = some n ∧ l ∈ n.links ∧ l.nodeTo = b := by
  obtain ⟨n, hn, hl⟩ := Option.bind_eq_some_iff.mp h
  refine ⟨n, hn, List.mem_of_find?_eq_some hl, ?_⟩
  simpa using List.find?_some hl

/-- A path starts at a GPU that finds a CPU or ends at one. -/
theorem CpuPath.cpuOf_isSome {node1 node2 : Nat} {w : UInt32} {t : Nat}
    (hp : CpuPath nodes node1 node2 w t) :
    (cpuOf nodes node1).isSome ∨ (cpuOf nodes node2).isSome := by
  cases hp with
  | gpuCpuGpu h1 _ _ _ => simp [h1]
  | gpuCpuCpuGpu h1 _ _ _ _ _ _ => simp [h1]
  | gpuCpuCpu h1 _ _ _ => simp [h1]
  | cpuCpuGpu _ h2 _ _ => simp [h2]

/-- From a node that finds no CPU, a path is CPU->CPU->GPU: its type and its
first weight are those of a link of the node. -/
theorem CpuPath.of_cpuOf_none {node1 node2 : Nat} {w : UInt32} {t : Nat}
    (hp : CpuPath nodes node1 node2 w t) (h1 : cpuOf nodes node1 = none) :
    ∃ c2 l2 l3, cpuOf nodes node2 = some c2 ∧ linkOf nodes node1 c2 = some l2 ∧
      linkOf nodes c2 node2 = some l3 ∧ w = l2.weight + l3.weight ∧ t = l2.ioLinkType := by
  cases hp with
  | gpuCpuGpu h1' _ _ _ => simp [h1] at h1'
  | gpuCpuCpuGpu h1' _ _ _ _ _ _ => simp [h1] at h1'
  | gpuCpuCpu h1' _ _ _ => simp [h1] at h1'
  | cpuCpuGpu _ h2 hl2 hl3 => exact ⟨_, _, _, h2, hl2, hl3, rfl, rfl⟩

/-- No path leads from a node that finds no CPU to a GPU whose CPU it is: the
path would take a link from the node to itself. -/
theorem CpuPath.not_to_own_gpu {node1 node2 : Nat} {w : UInt32} {t : Nat}
    (hp : CpuPath nodes node1 node2 w t) (h1 : cpuOf nodes node1 = none)
    (h2 : cpuOf nodes node2 = some node1) (hself : linkOf nodes node1 node1 = none) : False := by
  obtain ⟨c2, l2, -, hc2, hl2, -⟩ := hp.of_cpuOf_none h1
  rw [h2, Option.some.injEq] at hc2
  subst hc2
  rw [hself] at hl2
  cases hl2

theorem linkOf_eq {a b : Nat} {n : Node} (hn : nodes[a]? = some n) : linkOf nodes a b = n.linkTo b := by
  simp [linkOf, hn]

theorem cpuOf_lt (hr : ReadsOk nodes) {i c : Nat} (h : cpuOf nodes i = some c) :
    c < nodes.length := by
  obtain ⟨n, hn, hc⟩ := Option.bind_eq_some_iff.mp h
  exact Node.cpu_lt hr (List.mem_of_getElem? hn) hc

/-- A GPU links to the CPU it finds. -/
theorem linkOf_cpuOf {i c : Nat} (h : cpuOf nodes i = some c) : (linkOf nodes i c).isSome := by
  obtain ⟨n, hn, hc⟩ := Option.bind_eq_some_iff.mp h
  unfold Node.cpu at hc
  split_ifs at hc
  obtain ⟨x, hx, hc⟩ := Option.bind_eq_some_iff.mp hc
  split_ifs at hc
  cases hc
  rw [linkOf_eq hn, Node.linkTo, List.find?_isSome]
  exact ⟨x, List.mem_of_find?_eq_some hx, by simp⟩

/-- No path leads from a GPU to the CPU it finds, when that CPU finds none:
the path would take a link from the CPU to itself. -/
theorem CpuPath.not_to_own_cpu {node1 node2 : Nat} {w : UInt32} {t : Nat}
    (hp : CpuPath nodes node1 node2 w t) (h1 : cpuOf nodes node1 = some node2)
    (h2 : cpuOf nodes node2 = none) (hself : linkOf nodes node2 node2 = none) : False := by
  cases hp with
  | gpuCpuGpu _ h2' _ _ => simp [h2] at h2'
  | gpuCpuCpuGpu _ h2' _ _ _ _ _ => simp [h2] at h2'
  | gpuCpuCpu h1' _ _ hl2 =>
    rw [h1, Option.some.injEq] at h1'
    subst h1'
    rw [hself] at hl2
    cases hl2
  | cpuCpuGpu h1' _ _ _ => simp [h1] at h1'

/-- The lookups `get_indirect_iolink_info` makes from `a` to `b`, given the
CPUs of the two nodes: from the source to its CPU, between the CPUs, from a
source without CPU to the destination's CPU, and from a CPU to the
destination. -/
def Lookup (node1 node2 : Nat) (cpu1 cpu2 : Option Nat) (a b : Nat) : Prop :=
  (a = node1 ∧ cpu1 = some b) ∨ (cpu1 = some a ∧ cpu2 = some b) ∨
    (a = node1 ∧ cpu1 = none ∧ cpu2 = some b) ∨
    (cpu1 = some a ∧ b = node2 ∧ (cpu2 = none ∨ cpu2 = some a)) ∨ (cpu2 = some a ∧ b = node2)

/-- The paths depend on the nodes only through their lookups. -/
theorem indirectPath_congr {nodes' : List Node} {node1 node2 : Nat} {cpu1 cpu2 : Option Nat}
    (h : ∀ a b, Lookup node1 node2 cpu1 cpu2 a b → ∀ w t,
      getDirectIolinkInfo nodes a b w t = getDirectIolinkInfo nodes' a b w t) :
    indirectPath nodes node1 node2 cpu1 cpu2 = indirectPath nodes' node1 node2 cpu1 cpu2 := by
  rcases cpu1 with _ | c1 <;> rcases cpu2 with _ | c2
  · rfl
  · simp only [indirectPath]
    rw [h node1 c2 (by simp [Lookup]), h c2 node2 (by simp [Lookup])]
  · simp only [indirectPath]
    rw [h node1 c1 (by simp [Lookup]), h c1 node2 (by simp [Lookup])]
  · by_cases hc : c1 = c2
    · subst hc
      simp only [indirectPath, if_true]
      rw [h node1 c1 (by simp [Lookup]), h c1 node2 (by simp [Lookup])]
    · simp only [indirectPath, hc, if_false]
      rw [h node1 c1 (by simp [Lookup]), h c1 c2 (by simp [Lookup]),
        h c2 node2 (by simp [Lookup])]

end Paths

end Topology
