import Rocr.Lib.Bytes
import Rocr.Lib.Word

/-!
# The host ring of host-trap PC sampling

With the host-trap method the second-level trap handler writes samples into
one of two trap buffers on the device.  `PcSamplingFlushHostTrapDeviceBuffers`
swaps the buffers and has the CP copy the samples of the full one into a host
ring (`host_buffer`), at `host_write_ptr`; the copy goes back to the start of
the ring, and `host_buffer_wrap_pos` records where the data stops, when it
would reach the end.  The ring is never checked for free space.  Under
`host_buffer_mutex` each iteration of `PcSamplingThread` then hands every
whole user buffer of the ring to `HandleSampleData`, and `PcSamplingFlush`
hands on everything.

The sizes come from `PcSamplingCreateFromId`: a trap buffer of at most half
the user buffer and a host ring of twice the user buffer, rounded up to the
trap buffer.  So the ring holds the user buffer and two trap buffers
(`pcSamplingCreateFromId_fits`), and since each section leaves less than a
user buffer in the ring, an append never reaches the read pointer.

The model keeps the pointers as addresses and the ring's bytes as a memory.
The CP DMA runs at once, in its `DMA_DATA` packets (`dmaData_eq`).  A run is
a sequence of sections under the mutex (`Op`, `run`); `pending` is the bytes
appended and not yet handed on.  The results:

* `flushHostTrapDeviceBuffers_spec`: from a state between sections, the flush
  meets the assertions of both callers, writes no pending byte and appends
  its bytes to `pending`;
* `pcSamplingThreadDrain_spec` and `pcSamplingFlushDrain_spec`: the two
  drains hand on a prefix of `pending` in order, the thread in calls of
  exactly one user buffer, the flush all of it;
* `run_spec`: over every run, the bytes handed on followed by `pending` are
  the bytes appended;
* `pcSampling_hostRing`: all of it for the rings `PcSamplingCreateFromId`
  sets up.
-/

namespace HostTrap

open Bytes Word

variable {α : Type}

/-- `CP_DMA_DATA_TRANSFER_CNT_MAX`: the most bytes one `DMA_DATA` packet copies. -/
def cpDmaDataTransferCntMax : Nat := 2 ^ 26

/-- A host-trap `PcSamplingSession`, with the checks its constructor makes:
the user buffer is not empty and holds an even number of samples. -/
structure Session where
  bufferSize : Nat
  sampleSize : Nat
  bufferSize_pos : 0 < bufferSize
  bufferSize_dvd : bufferSize % (2 * sampleSize) = 0

/-- The sizes `PcSamplingCreateFromId` sets up for a session. -/
structure Sizes where
  trapBufferSize : Nat
  hostBufferSize : Nat
  /-- `buf_size` of the trap handler's data, a `uint32_t`: the samples one
  trap buffer takes. -/
  bufSize : Nat
deriving DecidableEq, Repr

/-- The buffer sizing of `PcSamplingCreateFromId` for a host-trap session,
with `max_trap_buffer_size` from `HSA_PCS_MAX_DEVICE_BUFFER_SIZE`; `none`
where `AlignUp` would divide by a zero maximum. -/
def pcSamplingCreateFromId (maxTrapBufferSize : Nat) (session : Session) : Option Sizes :=
  if session.bufferSize > 2 * maxTrapBufferSize then
    if maxTrapBufferSize = 0 then none
    else
      some ⟨maxTrapBufferSize, 2 * roundUp session.bufferSize maxTrapBufferSize,
        maxTrapBufferSize / session.sampleSize % 2 ^ 32⟩
  else
    some ⟨session.bufferSize / 2, 2 * session.bufferSize,
      session.bufferSize / 2 / session.sampleSize % 2 ^ 32⟩

/-- The host side of `pcs_hosttrap_t`: the memory the ring lies in, and the
ring's pointers as addresses, `hostBufferWrapPos = 0` standing for `NULL`. -/
structure Ring (α : Type) where
  mem : Nat → α
  hostBuffer : Nat
  hostBufferSize : Nat
  hostBufferWrapPos : Nat
  hostWritePtr : Nat
  hostReadPtr : Nat
  lostSampleCount : Nat

/-- `host_buffer + host_buffer_size`. -/
def Ring.hostBufferEnd (r : Ring α) : Nat := r.hostBuffer + r.hostBufferSize

/-- The ring `PcSamplingCreateFromId` leaves: empty, both pointers at the
start of the buffer `system_allocator` returned. -/
def Ring.init (sizes : Sizes) (hostBuffer : Nat) (mem : Nat → α) : Ring α :=
  ⟨mem, hostBuffer, sizes.hostBufferSize, 0, hostBuffer, hostBuffer, 0⟩

/-- One `HandleSampleData(buf1, buf1_sz, buf2, buf2_sz, lost_sample_count)` call. -/
structure SampleData where
  buf1 : Nat
  buf1Sz : Nat
  buf2 : Nat
  buf2Sz : Nat
  lostSampleCount : Nat
deriving DecidableEq, Repr

/-- The bytes a call hands on: its first range, then its second. -/
def SampleData.bytes (mem : Nat → α) (c : SampleData) : List α :=
  read mem c.buf1 c.buf1Sz ++ read mem c.buf2 c.buf2Sz

/-! ## The flush of the trap buffer -/

/-- The `DMA_DATA` loop of `PcSamplingFlushHostTrapDeviceBuffers`: copy
`toCopy` bytes of the trap buffer `src`, from offset `off`, to `dst`, in
packets of at most `CP_DMA_DATA_TRANSFER_CNT_MAX` bytes; returns the memory
and the write pointer.  One step of fuel for each byte. -/
def dmaData (src : Nat → α) : Nat → (Nat → α) → Nat → Nat → Nat → (Nat → α) × Nat
  | 0, mem, _, dst, _ => (mem, dst)
  | fuel + 1, mem, off, dst, toCopy =>
      if 0 < toCopy then
        let copyBytes := if cpDmaDataTransferCntMax ≥ toCopy then toCopy else cpDmaDataTransferCntMax
        dmaData src fuel (copy mem dst (fun i => src (off + i)) copyBytes) (off + copyBytes)
          (dst + copyBytes) (toCopy - copyBytes)
      else (mem, dst)

/-- `to_copy`, a `uint32_t`: the samples the swap returned, at most
`buf_size` of them, times the sample size. -/
def toCopy (bufSize sampleSize oldVal : Nat) : Nat :=
  (if oldVal > bufSize then bufSize else oldVal) * sampleSize % 2 ^ 32

/-- `PcSamplingFlushHostTrapDeviceBuffers` on the host ring.  `oldVal` is the
sample count the atomic swap returned, `none` when the wait for the swap gave
up and the call returned at once; `src` is the trap buffer swapped out.  When
the bytes would reach the end of the ring they go to its start and
`host_buffer_wrap_pos` keeps the old write pointer. -/
def flushHostTrapDeviceBuffers (sizes : Sizes) (sampleSize : Nat) (r : Ring α)
    (oldVal : Option Nat) (src : Nat → α) : Ring α :=
  match oldVal with
  | none => r
  | some oldVal =>
      let lost := if oldVal > sizes.bufSize then oldVal - sizes.bufSize else r.lostSampleCount
      let n := toCopy sizes.bufSize sampleSize oldVal
      let wrapped := decide (r.hostWritePtr + n ≥ r.hostBufferEnd)
      let wrapPos := if wrapped then r.hostWritePtr else r.hostBufferWrapPos
      let dst := if wrapped then r.hostBuffer else r.hostWritePtr
      let copied := dmaData src n r.mem 0 dst n
      { r with
        mem := copied.1
        hostBufferWrapPos := wrapPos
        hostWritePtr := copied.2
        lostSampleCount := lost }

/-! ## Handing the ring on -/

/-- `while (bytes >= buffer_size)` of `PcSamplingThread`: hand on a whole
user buffer from `ptr` while `bytes` reach one, `bytes` being `stop - ptr`
after each round.  Returns the calls, the read pointer and the lost count;
one step of fuel for each byte. -/
def handFull (bufferSize stop : Nat) : Nat → Nat → Nat → Nat → List SampleData × Nat × Nat
  | 0, _, ptr, lost => ([], ptr, lost)
  | fuel + 1, bytes, ptr, lost =>
      if bytes ≥ bufferSize then
        let rest := handFull bufferSize stop fuel (stop - (ptr + bufferSize)) (ptr + bufferSize) 0
        (⟨ptr, bufferSize, 0, 0, lost⟩ :: rest.1, rest.2)
      else ([], ptr, lost)

/-- `while (bytes > 0)` of `PcSamplingFlush`: hand on `min(bytes, buffer_size)`
bytes from `ptr` until `stop`. -/
def handAll (bufferSize stop : Nat) : Nat → Nat → Nat → Nat → List SampleData × Nat × Nat
  | 0, _, ptr, lost => ([], ptr, lost)
  | fuel + 1, bytes, ptr, lost =>
      if bytes > 0 then
        let n := min bytes bufferSize
        let rest := handAll bufferSize stop fuel (stop - (ptr + n)) (ptr + n) 0
        (⟨ptr, n, 0, 0, lost⟩ :: rest.1, rest.2)
      else ([], ptr, lost)

/-- `PcSamplingThread` after the flush: hand on every whole user buffer.  With
the ring wrapped, the buffers before `host_buffer_wrap_pos` go first; a user
buffer that spans the wrap goes in one call of two ranges, which clears the
wrap; then the buffers after the start. -/
def pcSamplingThreadDrain (bufferSize : Nat) (r : Ring α) : Ring α × List SampleData :=
  if r.hostBufferWrapPos ≠ 0 then
    let before := handFull bufferSize r.hostBufferWrapPos (r.hostBufferWrapPos - r.hostReadPtr)
      (r.hostBufferWrapPos - r.hostReadPtr) r.hostReadPtr r.lostSampleCount
    let bytesBeforeWrap := r.hostBufferWrapPos - before.2.1
    let bytesAfterWrap := r.hostWritePtr - r.hostBuffer
    if bytesBeforeWrap + bytesAfterWrap ≥ bufferSize then
      let spanning : SampleData :=
        ⟨before.2.1, bytesBeforeWrap, r.hostBuffer, bufferSize - bytesBeforeWrap, 0⟩
      let read := r.hostBuffer + (bufferSize - bytesBeforeWrap)
      let after := handFull bufferSize r.hostWritePtr (r.hostWritePtr - read)
        (r.hostWritePtr - read) read 0
      ({ r with hostReadPtr := after.2.1, hostBufferWrapPos := 0, lostSampleCount := after.2.2 },
        before.1 ++ spanning :: after.1)
    else
      let after := handFull bufferSize r.hostWritePtr bytesAfterWrap bytesAfterWrap before.2.1
        before.2.2
      ({ r with hostReadPtr := after.2.1, lostSampleCount := after.2.2 }, before.1 ++ after.1)
  else
    let rest := handFull bufferSize r.hostWritePtr (r.hostWritePtr - r.hostReadPtr)
      (r.hostWritePtr - r.hostReadPtr) r.hostReadPtr r.lostSampleCount
    ({ r with hostReadPtr := rest.2.1, lostSampleCount := rest.2.2 }, rest.1)

/-- `PcSamplingFlush` after the flush: hand on everything, the bytes before
`host_buffer_wrap_pos` first. -/
def pcSamplingFlushDrain (bufferSize : Nat) (r : Ring α) : Ring α × List SampleData :=
  if r.hostBufferWrapPos ≠ 0 then
    let before := handAll bufferSize r.hostBufferWrapPos (r.hostBufferWrapPos - r.hostReadPtr)
      (r.hostBufferWrapPos - r.hostReadPtr) r.hostReadPtr r.lostSampleCount
    let after := handAll bufferSize r.hostWritePtr (r.hostWritePtr - r.hostBuffer)
      (r.hostWritePtr - r.hostBuffer) r.hostBuffer before.2.2
    ({ r with hostReadPtr := after.2.1, hostBufferWrapPos := 0, lostSampleCount := after.2.2 },
      before.1 ++ after.1)
  else
    let rest := handAll bufferSize r.hostWritePtr (r.hostWritePtr - r.hostReadPtr)
      (r.hostWritePtr - r.hostReadPtr) r.hostReadPtr r.lostSampleCount
    ({ r with hostReadPtr := rest.2.1, lostSampleCount := rest.2.2 }, rest.1)

/-! ## Runs -/

/-- A section under `host_buffer_mutex`: an iteration of `PcSamplingThread`
or a `PcSamplingFlush` call.  Each first runs
`PcSamplingFlushHostTrapDeviceBuffers`, whose swap returned `oldVal` samples
of the trap buffer `src`. -/
inductive Op (α : Type) where
  | thread (oldVal : Option Nat) (src : Nat → α)
  | flush (oldVal : Option Nat) (src : Nat → α)

def Op.oldVal : Op α → Option Nat
  | .thread oldVal _ | .flush oldVal _ => oldVal

def Op.src : Op α → Nat → α
  | .thread _ src | .flush _ src => src

def Op.isThread : Op α → Bool
  | .thread _ _ => true
  | .flush _ _ => false

/-- The bytes a flush appends to the ring: the first `to_copy` bytes of the
trap buffer. -/
def flushedBytes (sizes : Sizes) (sampleSize : Nat) (oldVal : Option Nat) (src : Nat → α) : List α :=
  match oldVal with
  | none => []
  | some oldVal => read src 0 (toCopy sizes.bufSize sampleSize oldVal)

/-- The bytes a section's flush appends to the ring. -/
def Op.appended (sizes : Sizes) (sampleSize : Nat) (op : Op α) : List α :=
  flushedBytes sizes sampleSize op.oldVal op.src

/-- One section: the flush, then the caller's drain; each call is logged with
the bytes it hands on. -/
def step (session : Session) (sizes : Sizes) (r : Ring α) (op : Op α) :
    Ring α × List (SampleData × List α) :=
  let flushed := flushHostTrapDeviceBuffers sizes session.sampleSize r op.oldVal op.src
  let drained := match op with
    | .thread _ _ => pcSamplingThreadDrain session.bufferSize flushed
    | .flush _ _ => pcSamplingFlushDrain session.bufferSize flushed
  (drained.1, drained.2.map fun c => (c, c.bytes flushed.mem))

/-- Sections one after another, with all the calls they make. -/
def run (session : Session) (sizes : Sizes) : Ring α → List (Op α) → Ring α × List (SampleData × List α)
  | r, [] => (r, [])
  | r, op :: ops =>
      ((run session sizes (step session sizes r op).1 ops).1,
        (step session sizes r op).2 ++ (run session sizes (step session sizes r op).1 ops).2)

/-! ## The sizes -/

/-- What the sizing gives the ring: a full trap buffer fits in one trap
buffer, and the ring holds a user buffer and two trap buffers. -/
structure Fits (session : Session) (sizes : Sizes) : Prop where
  bufSize_mul_le : sizes.bufSize * session.sampleSize ≤ sizes.trapBufferSize
  host_ge : session.bufferSize + 2 * sizes.trapBufferSize ≤ sizes.hostBufferSize

/-- `b / s % 2 ^ 32` samples of `s` bytes take at most `b` bytes. -/
theorem div_mod_mul_le (b s : Nat) : b / s % 2 ^ 32 * s ≤ b :=
  calc b / s % 2 ^ 32 * s ≤ b / s * s := Nat.mul_le_mul_right s (Nat.mod_le _ _)
    _ ≤ b := Nat.div_mul_le_self b s

theorem pcSamplingCreateFromId_fits {maxTrapBufferSize : Nat} {session : Session} {sizes : Sizes}
    (h : pcSamplingCreateFromId maxTrapBufferSize session = some sizes) : Fits session sizes := by
  unfold pcSamplingCreateFromId at h
  split_ifs at h with hbig hzero
  · -- the trap buffer is the maximum, the ring twice the user buffer rounded up to it
    obtain rfl := Option.some.inj h
    have hup := le_roundUp session.bufferSize (Nat.pos_of_ne_zero hzero)
    exact ⟨div_mod_mul_le _ _, by dsimp only; omega⟩
  · -- the trap buffer is half the user buffer, the ring twice the user buffer
    obtain rfl := Option.some.inj h
    exact ⟨div_mod_mul_le _ _, by dsimp only; omega⟩

theorem toCopy_le {session : Session} {sizes : Sizes} (hfits : Fits session sizes) (oldVal : Nat) :
    toCopy sizes.bufSize session.sampleSize oldVal ≤ sizes.trapBufferSize := by
  have hcount : (if oldVal > sizes.bufSize then sizes.bufSize else oldVal) ≤ sizes.bufSize := by
    split_ifs <;> omega
  calc toCopy sizes.bufSize session.sampleSize oldVal
      ≤ (if oldVal > sizes.bufSize then sizes.bufSize else oldVal) * session.sampleSize :=
        Nat.mod_le _ _
    _ ≤ sizes.bufSize * session.sampleSize := Nat.mul_le_mul_right _ hcount
    _ ≤ sizes.trapBufferSize := hfits.bufSize_mul_le

/-- The `DMA_DATA` packets copy the bytes in one piece. -/
theorem dmaData_eq (src : Nat → α) (fuel : Nat) :
    ∀ (mem : Nat → α) (off dst n : Nat), n ≤ fuel →
      dmaData src fuel mem off dst n = (copy mem dst (fun i => src (off + i)) n, dst + n) := by
  induction fuel with
  | zero =>
    intro mem off dst n hn
    obtain rfl : n = 0 := by omega
    simp [dmaData]
  | succ fuel ih =>
    intro mem off dst n hn
    by_cases hpos : 0 < n
    · -- one packet of `c` bytes, then the rest from `off + c` to `dst + c`
      simp only [dmaData, hpos, if_true]
      have hc : 0 < (if cpDmaDataTransferCntMax ≥ n then n else cpDmaDataTransferCntMax) ∧
          (if cpDmaDataTransferCntMax ≥ n then n else cpDmaDataTransferCntMax) ≤ n := by
        unfold cpDmaDataTransferCntMax
        split_ifs <;> omega
      generalize (if cpDmaDataTransferCntMax ≥ n then n else cpDmaDataTransferCntMax) = c at hc ⊢
      have hsrc : (fun i => src (off + c + i)) = fun i => src (off + (c + i)) := by
        funext i
        rw [Nat.add_assoc]
      rw [ih _ _ _ _ (by omega), hsrc, copy_copy, Nat.add_sub_cancel' hc.2, Nat.add_assoc,
        Nat.add_sub_cancel' hc.2]
    · obtain rfl : n = 0 := by omega
      simp [dmaData]

/-- The flush appends `toCopy` bytes, at the start of the ring when they
would reach its end. -/
theorem flushHostTrapDeviceBuffers_some (sizes : Sizes) (sampleSize : Nat) (r : Ring α) (oldVal : Nat)
    (src : Nat → α) :
    flushHostTrapDeviceBuffers sizes sampleSize r (some oldVal) src =
      if r.hostWritePtr + toCopy sizes.bufSize sampleSize oldVal ≥ r.hostBufferEnd then
        { r with
          mem := copy r.mem r.hostBuffer src (toCopy sizes.bufSize sampleSize oldVal)
          hostBufferWrapPos := r.hostWritePtr
          hostWritePtr := r.hostBuffer + toCopy sizes.bufSize sampleSize oldVal
          lostSampleCount :=
            if oldVal > sizes.bufSize then oldVal - sizes.bufSize else r.lostSampleCount }
      else
        { r with
          mem := copy r.mem r.hostWritePtr src (toCopy sizes.bufSize sampleSize oldVal)
          hostWritePtr := r.hostWritePtr + toCopy sizes.bufSize sampleSize oldVal
          lostSampleCount :=
            if oldVal > sizes.bufSize then oldVal - sizes.bufSize else r.lostSampleCount } := by
  simp only [flushHostTrapDeviceBuffers, dmaData_eq src _ _ 0 _ _ le_rfl, Nat.zero_add]
  split_ifs <;> simp_all

/-! ## The ring between sections -/

/-- The bytes appended and not yet handed on, oldest first: from the read
pointer up to the wrap position and then from the start of the ring, or up to
the write pointer when the ring has not wrapped. -/
def pending (r : Ring α) : List α :=
  if r.hostBufferWrapPos ≠ 0 then
    read r.mem r.hostReadPtr (r.hostBufferWrapPos - r.hostReadPtr) ++
      read r.mem r.hostBuffer (r.hostWritePtr - r.hostBuffer)
  else read r.mem r.hostReadPtr (r.hostWritePtr - r.hostReadPtr)

/-- The addresses `pending` reads. -/
def InPending (r : Ring α) (a : Nat) : Prop :=
  if r.hostBufferWrapPos ≠ 0 then
    (r.hostReadPtr ≤ a ∧ a < r.hostBufferWrapPos) ∨ (r.hostBuffer ≤ a ∧ a < r.hostWritePtr)
  else r.hostReadPtr ≤ a ∧ a < r.hostWritePtr

/-- The assertions `PcSamplingThread` and `PcSamplingFlush` make right after
the flush: both pointers inside the ring, the wrap position set exactly when
the read pointer is past the write pointer, and then inside the ring and not
below the read pointer. -/
def Asserts (r : Ring α) : Prop :=
  (r.hostBuffer ≤ r.hostReadPtr ∧ r.hostReadPtr < r.hostBufferEnd) ∧
  (r.hostBuffer ≤ r.hostWritePtr ∧ r.hostWritePtr < r.hostBufferEnd) ∧
  (r.hostBufferWrapPos ≠ 0 ↔ r.hostWritePtr < r.hostReadPtr) ∧
  (r.hostBufferWrapPos ≠ 0 →
    r.hostBufferWrapPos ≤ r.hostBufferEnd ∧ r.hostBuffer < r.hostBufferWrapPos ∧
      r.hostReadPtr ≤ r.hostBufferWrapPos)

/-- The ring between two sections, for user buffers of `U` bytes and trap
buffers of `T`: less than a user buffer is pending, and a wrap position lies
less than a trap buffer before the end. -/
structure Inv (U T : Nat) (r : Ring α) : Prop where
  hostBuffer_pos : 0 < r.hostBuffer
  size_ge : U + 2 * T ≤ r.hostBufferSize
  read_ge : r.hostBuffer ≤ r.hostReadPtr
  write_ge : r.hostBuffer ≤ r.hostWritePtr
  write_lt : r.hostWritePtr < r.hostBufferEnd
  unwrapped : r.hostBufferWrapPos = 0 →
    r.hostReadPtr ≤ r.hostWritePtr ∧ r.hostWritePtr - r.hostReadPtr < U
  wrapped : r.hostBufferWrapPos ≠ 0 →
    r.hostBufferWrapPos < r.hostBufferEnd ∧ r.hostBufferEnd ≤ r.hostBufferWrapPos + T ∧
      r.hostReadPtr ≤ r.hostBufferWrapPos ∧
      r.hostBufferWrapPos - r.hostReadPtr + (r.hostWritePtr - r.hostBuffer) < U

/-- The ring right after a flush: less than a user buffer and a trap buffer is
pending, and a wrapped write pointer is below the read pointer. -/
structure Flushed (U T : Nat) (r : Ring α) : Prop where
  hostBuffer_pos : 0 < r.hostBuffer
  size_ge : U + 2 * T ≤ r.hostBufferSize
  read_ge : r.hostBuffer ≤ r.hostReadPtr
  write_ge : r.hostBuffer ≤ r.hostWritePtr
  write_lt : r.hostWritePtr < r.hostBufferEnd
  unwrapped : r.hostBufferWrapPos = 0 → r.hostReadPtr ≤ r.hostWritePtr
  wrapped : r.hostBufferWrapPos ≠ 0 →
    r.hostBufferWrapPos < r.hostBufferEnd ∧ r.hostBufferEnd ≤ r.hostBufferWrapPos + T ∧
      r.hostReadPtr ≤ r.hostBufferWrapPos ∧ r.hostWritePtr < r.hostReadPtr

section Ring

variable {U T : Nat} {r : Ring α}

theorem Flushed.asserts (hr : Flushed U T r) : Asserts r := by
  obtain ⟨hpos, hsize, hread, hwrite, hwlt, hunw, hwr⟩ := hr
  unfold Asserts Ring.hostBufferEnd at *
  by_cases hw : r.hostBufferWrapPos = 0
  · have := hunw hw
    simp only [hw, ne_eq, not_true_eq_false, false_iff, not_lt, false_implies, and_true]
    omega
  · obtain ⟨h1, h2, h3, h4⟩ := hwr hw
    simp only [hw, ne_eq, not_false_eq_true, true_iff, forall_const]
    omega

/-- Between sections the ring also meets the flush's assertions: a wrapped
write pointer stays below the read pointer because the ring holds a user
buffer and two trap buffers. -/
theorem Inv.flushed (hr : Inv U T r) : Flushed U T r := by
  obtain ⟨hpos, hsize, hread, hwrite, hwlt, hunw, hwr⟩ := hr
  refine ⟨hpos, hsize, hread, hwrite, hwlt, fun hw => (hunw hw).1, fun hw => ?_⟩
  obtain ⟨h1, h2, h3, h4⟩ := hwr hw
  unfold Ring.hostBufferEnd at *
  exact ⟨h1, h2, h3, by omega⟩

/-- A flush that wraps: the ring had not wrapped, and the bytes go to its
start, which the read pointer is past. -/
theorem append_wrap_spec (hr : Inv U T r) {n : Nat} (hn : n ≤ T) (src : Nat → α)
    (lost : Nat) (hwrap : r.hostWritePtr + n ≥ r.hostBufferEnd) :
    Flushed U T { r with
        mem := copy r.mem r.hostBuffer src n
        hostBufferWrapPos := r.hostWritePtr
        hostWritePtr := r.hostBuffer + n
        lostSampleCount := lost } ∧
      (∀ a, InPending r a → copy r.mem r.hostBuffer src n a = r.mem a) ∧
      pending { r with
        mem := copy r.mem r.hostBuffer src n
        hostBufferWrapPos := r.hostWritePtr
        hostWritePtr := r.hostBuffer + n
        lostSampleCount := lost } = pending r ++ read src 0 n := by
  obtain ⟨hpos, hsize, hread, hwrite, hwlt, hunw, hwr⟩ := hr
  unfold Ring.hostBufferEnd at *
  -- a wrapped ring has less than a user buffer after its start: no second wrap
  have hw : r.hostBufferWrapPos = 0 := by
    by_contra hw
    have := hwr hw
    omega
  obtain ⟨hrw, hlt⟩ := hunw hw
  -- the read pointer is past the bytes written at the start
  have hfar : r.hostBuffer + n < r.hostReadPtr := by omega
  have hwpos : r.hostWritePtr ≠ 0 := by omega
  refine ⟨⟨hpos, hsize, hread, by dsimp only; omega, by dsimp only [Ring.hostBufferEnd]; omega,
    fun h => absurd h hwpos, fun _ => by dsimp only [Ring.hostBufferEnd]; omega⟩, ?_, ?_⟩
  · intro a ha
    simp only [InPending, hw, ne_eq, not_true_eq_false, if_false] at ha
    exact copy_of_not_mem (by omega)
  · simp only [pending, hw, hwpos, ne_eq, not_false_eq_true, not_true_eq_false, if_true, if_false,
      Nat.add_sub_cancel_left, read_copy_self]
    rw [read_copy_of_disjoint (by omega)]

/-- A flush that does not wrap: the bytes go after the write pointer, which
a wrapped ring keeps below the read pointer. -/
theorem append_spec (hr : Inv U T r) {n : Nat} (hn : n ≤ T) (src : Nat → α) (lost : Nat)
    (hfit : ¬ r.hostWritePtr + n ≥ r.hostBufferEnd) :
    Flushed U T { r with
        mem := copy r.mem r.hostWritePtr src n
        hostWritePtr := r.hostWritePtr + n
        lostSampleCount := lost } ∧
      (∀ a, InPending r a → copy r.mem r.hostWritePtr src n a = r.mem a) ∧
      pending { r with
        mem := copy r.mem r.hostWritePtr src n
        hostWritePtr := r.hostWritePtr + n
        lostSampleCount := lost } = pending r ++ read src 0 n := by
  obtain ⟨hpos, hsize, hread, hwrite, hwlt, hunw, hwr⟩ := hr
  unfold Ring.hostBufferEnd at *
  by_cases hw : r.hostBufferWrapPos = 0
  · obtain ⟨hrw, -⟩ := hunw hw
    refine ⟨⟨hpos, hsize, hread, by dsimp only; omega, by dsimp only [Ring.hostBufferEnd]; omega,
      fun _ => by dsimp only; omega, fun h => absurd hw h⟩, ?_, ?_⟩
    · intro a ha
      simp only [InPending, hw, ne_eq, not_true_eq_false, if_false] at ha
      exact copy_of_not_mem (by omega)
    · simp only [pending, hw, ne_eq, not_true_eq_false, if_false]
      rw [read_split _ _ (show r.hostWritePtr - r.hostReadPtr ≤ r.hostWritePtr + n - r.hostReadPtr by omega),
        read_copy_of_disjoint (by omega), Nat.add_sub_cancel' hrw,
        show r.hostWritePtr + n - r.hostReadPtr - (r.hostWritePtr - r.hostReadPtr) = n by omega,
        read_copy_self]
  · obtain ⟨h1, h2, h3, h4⟩ := hwr hw
    -- the bytes after the write pointer end below the read pointer
    have hfar : r.hostWritePtr + n < r.hostReadPtr := by omega
    refine ⟨⟨hpos, hsize, hread, by dsimp only; omega, by dsimp only [Ring.hostBufferEnd]; omega,
      fun h => absurd h hw, fun _ => ⟨h1, h2, h3, by dsimp only; omega⟩⟩, ?_, ?_⟩
    · intro a ha
      simp only [InPending, hw, ne_eq, not_false_eq_true, if_true] at ha
      exact copy_of_not_mem (by omega)
    · simp only [pending, hw, ne_eq, not_false_eq_true, if_true]
      rw [read_copy_of_disjoint (by omega),
        read_split _ _ (show r.hostWritePtr - r.hostBuffer ≤ r.hostWritePtr + n - r.hostBuffer by omega),
        read_copy_of_disjoint (by omega), Nat.add_sub_cancel' hwrite,
        show r.hostWritePtr + n - r.hostBuffer - (r.hostWritePtr - r.hostBuffer) = n by omega,
        read_copy_self, List.append_assoc]

end Ring

/-! ## The drains -/

section Hand

variable {U stop : Nat}

/-- The calls of `handFull` hand on whole user buffers from `ptr`, as long as
one is left before `stop`: by induction on the fuel, one round per buffer. -/
theorem handFull_spec (hU : 0 < U) (mem : Nat → α) (fuel : Nat) :
    ∀ (bytes ptr lost : Nat), bytes = stop - ptr → bytes ≤ fuel → ptr ≤ stop →
      ∃ k, (handFull U stop fuel bytes ptr lost).2.1 = ptr + k * U ∧ ptr + k * U ≤ stop ∧
        stop - (ptr + k * U) < U ∧
        ((handFull U stop fuel bytes ptr lost).1.map (SampleData.bytes mem)).flatten =
          read mem ptr (k * U) ∧
        ∀ c ∈ (handFull U stop fuel bytes ptr lost).1, c.buf1Sz + c.buf2Sz = U := by
  induction fuel with
  | zero =>
    intro bytes ptr lost hbytes hfuel hle
    exact ⟨0, by simp [handFull], by omega, by omega, by simp [handFull], by simp [handFull]⟩
  | succ fuel ih =>
    intro bytes ptr lost hbytes hfuel hle
    by_cases hfull : bytes ≥ U
    · -- one user buffer from `ptr`, then the rounds from `ptr + U`
      obtain ⟨k, hptr, hk, hrest, hcalls, hsize⟩ :=
        ih (stop - (ptr + U)) (ptr + U) 0 rfl (by omega) (by omega)
      refine ⟨k + 1, ?_, ?_, ?_, ?_, ?_⟩
      · simp only [handFull, hfull, if_true]
        rw [hptr, Nat.succ_mul]
        omega
      · rw [Nat.succ_mul]
        omega
      · rw [Nat.succ_mul]
        omega
      · simp only [handFull, hfull, if_true, List.map_cons, List.flatten_cons, hcalls]
        rw [Nat.succ_mul, Nat.add_comm (k * U) U, read_add]
        simp [SampleData.bytes]
      · simp only [handFull, hfull, if_true, List.mem_cons]
        rintro c (rfl | hc)
        · simp
        · exact hsize c hc
    · exact ⟨0, by simp [handFull, hfull], by omega, by omega, by simp [handFull, hfull],
        by simp [handFull, hfull]⟩

/-- With less than a user buffer to go, `handFull` makes no call. -/
theorem handFull_of_lt {fuel bytes ptr lost : Nat} (h : bytes < U) :
    handFull U stop fuel bytes ptr lost = ([], ptr, lost) := by
  cases fuel with
  | zero => rfl
  | succ fuel => simp [handFull, Nat.not_le.2 h]

/-- The calls of `handAll` hand on everything from `ptr` to `stop`. -/
theorem handAll_spec (hU : 0 < U) (mem : Nat → α) (fuel : Nat) :
    ∀ (bytes ptr lost : Nat), bytes = stop - ptr → bytes ≤ fuel → ptr ≤ stop →
      (handAll U stop fuel bytes ptr lost).2.1 = stop ∧
        ((handAll U stop fuel bytes ptr lost).1.map (SampleData.bytes mem)).flatten =
          read mem ptr (stop - ptr) := by
  induction fuel with
  | zero =>
    intro bytes ptr lost hbytes hfuel hle
    obtain rfl : ptr = stop := by omega
    simp [handAll]
  | succ fuel ih =>
    intro bytes ptr lost hbytes hfuel hle
    by_cases hpos : bytes > 0
    · -- a call of `min bytes U` bytes, then the rest
      have hn : 0 < min bytes U ∧ min bytes U ≤ stop - ptr := by omega
      obtain ⟨hend, hcalls⟩ :=
        ih (stop - (ptr + min bytes U)) (ptr + min bytes U) 0 rfl (by omega) (by omega)
      refine ⟨by simpa [handAll, hpos] using hend, ?_⟩
      simp only [handAll, hpos, if_true, List.map_cons, List.flatten_cons, hcalls]
      rw [read_split mem ptr hn.2, show stop - (ptr + min bytes U) = stop - ptr - min bytes U by omega]
      simp [SampleData.bytes]
    · obtain rfl : ptr = stop := by omega
      simp [handAll, hpos]

end Hand

section Drain

variable {U T : Nat} {r : Ring α}

/-- **`PcSamplingThread` hands on whole user buffers.**  After the flush the
thread hands on a prefix of `pending`, in order and in calls of exactly one
user buffer each, and leaves less than a user buffer: the ring is again as
between sections. -/
theorem pcSamplingThreadDrain_spec (hU : 0 < U) (hr : Flushed U T r) :
    Inv U T (pcSamplingThreadDrain U r).1 ∧
      ((pcSamplingThreadDrain U r).2.map (SampleData.bytes r.mem)).flatten ++
          pending (pcSamplingThreadDrain U r).1 = pending r ∧
      ∀ c ∈ (pcSamplingThreadDrain U r).2, c.buf1Sz + c.buf2Sz = U := by
  obtain ⟨hpos, hsize, hread, hwrite, hwlt, hunw, hwr⟩ := hr
  unfold Ring.hostBufferEnd at *
  by_cases hw : r.hostBufferWrapPos = 0
  · -- not wrapped: whole user buffers up to the write pointer
    have hrw := hunw hw
    obtain ⟨k, hptr, hk, hrest, hcalls, hsizes⟩ := handFull_spec hU r.mem _
      (r.hostWritePtr - r.hostReadPtr) r.hostReadPtr r.lostSampleCount rfl le_rfl hrw
    simp only [pcSamplingThreadDrain, hw, ne_eq, not_true_eq_false, if_false]
    refine ⟨⟨hpos, hsize, by dsimp only; omega, hwrite, hwlt, fun _ => by dsimp only; omega,
      fun h => (h (by simp)).elim⟩, ?_, hsizes⟩
    simp only [pending, hw, ne_eq, not_true_eq_false, if_false, hcalls, hptr]
    rw [← read_add]
    congr 1
    omega
  · obtain ⟨h1, h2, h3, h4⟩ := hwr hw
    -- first the whole user buffers before the wrap position
    obtain ⟨k, hptr, hk, hrest, hcalls, hsizes⟩ := handFull_spec hU r.mem _
      (r.hostBufferWrapPos - r.hostReadPtr) r.hostReadPtr r.lostSampleCount rfl le_rfl h3
    simp only [pcSamplingThreadDrain, hw, ne_eq, not_false_eq_true, if_true]
    generalize hbefore : handFull U r.hostBufferWrapPos (r.hostBufferWrapPos - r.hostReadPtr)
      (r.hostBufferWrapPos - r.hostReadPtr) r.hostReadPtr r.lostSampleCount = before at hptr hcalls hsizes
    obtain ⟨calls1, read1, lost1⟩ := before
    dsimp only at hptr hcalls hsizes ⊢
    subst hptr
    by_cases hspan : r.hostBufferWrapPos - (r.hostReadPtr + k * U) + (r.hostWritePtr - r.hostBuffer) ≥ U
    · -- a user buffer spans the wrap: one call of two ranges, then the rest after the start
      rw [if_pos hspan]
      generalize hbb : r.hostBufferWrapPos - (r.hostReadPtr + k * U) = bb at hspan hrest ⊢
      have hread2 : r.hostBuffer + (U - bb) ≤ r.hostWritePtr := by omega
      obtain ⟨m, hptr3, hm, hrest3, hcalls3, hsizes3⟩ :=
        handFull_spec hU r.mem _ _ _ 0 rfl le_rfl hread2
      generalize handFull U r.hostWritePtr (r.hostWritePtr - (r.hostBuffer + (U - bb)))
        (r.hostWritePtr - (r.hostBuffer + (U - bb))) (r.hostBuffer + (U - bb)) 0 = after
        at hptr3 hcalls3 hsizes3 ⊢
      obtain ⟨calls3, read3, lost3⟩ := after
      dsimp only at hptr3 hcalls3 hsizes3 ⊢
      subst hptr3
      refine ⟨⟨hpos, hsize, by dsimp only; omega, hwrite, hwlt, fun _ => by dsimp only; omega,
        fun h => absurd rfl h⟩, ?_, ?_⟩
      · -- the ranges handed on tile `[read, wrap)` and then `[start, write)`
        simp only [List.map_append, List.map_cons, List.flatten_append, List.flatten_cons, hcalls,
          hcalls3, pending, hw, ne_eq, not_false_eq_true, not_true_eq_false, if_true, if_false,
          SampleData.bytes, List.append_assoc]
        rw [read_split_at r.mem (Nat.le_add_right r.hostReadPtr (k * U)) hk,
          read_split_at r.mem (Nat.le_add_right r.hostBuffer (U - bb)) hread2,
          read_split_at r.mem (Nat.le_add_right (r.hostBuffer + (U - bb)) (m * U)) hm, hbb]
        simp only [Nat.add_sub_cancel_left, List.append_assoc]
      · simp only [List.mem_append, List.mem_cons]
        rintro c (hc | rfl | hc)
        · exact hsizes c hc
        · dsimp only
          omega
        · exact hsizes3 c hc
    · -- less than a user buffer is left, across the wrap: the wrap stays
      rw [if_neg hspan, handFull_of_lt (by omega)]
      refine ⟨⟨hpos, hsize, by dsimp only; omega, hwrite, hwlt, fun h => absurd h hw,
        fun _ => ⟨h1, h2, by dsimp only; omega, by dsimp only; omega⟩⟩, ?_, ?_⟩
      · simp only [List.append_nil, hcalls, pending, hw, ne_eq, not_false_eq_true, if_true]
        rw [read_split_at r.mem (Nat.le_add_right r.hostReadPtr (k * U)) hk, Nat.add_sub_cancel_left,
          List.append_assoc]
      · simpa using hsizes

/-- **`PcSamplingFlush` hands on everything.**  After the flush the call
hands on all of `pending`, in order, and leaves the ring empty and unwrapped. -/
theorem pcSamplingFlushDrain_spec (hU : 0 < U) (hr : Flushed U T r) :
    Inv U T (pcSamplingFlushDrain U r).1 ∧
      ((pcSamplingFlushDrain U r).2.map (SampleData.bytes r.mem)).flatten = pending r ∧
      pending (pcSamplingFlushDrain U r).1 = [] := by
  obtain ⟨hpos, hsize, hread, hwrite, hwlt, hunw, hwr⟩ := hr
  unfold Ring.hostBufferEnd at *
  by_cases hw : r.hostBufferWrapPos = 0
  · have hrw := hunw hw
    obtain ⟨hend, hcalls⟩ := handAll_spec hU r.mem _ (r.hostWritePtr - r.hostReadPtr)
      r.hostReadPtr r.lostSampleCount rfl le_rfl hrw
    simp only [pcSamplingFlushDrain, hw, ne_eq, not_true_eq_false, if_false]
    refine ⟨⟨hpos, hsize, by dsimp only; omega, hwrite, hwlt, fun _ => by dsimp only; omega,
      fun h => (h (by simp)).elim⟩, by simp only [hcalls, pending, hw, ne_eq, not_true_eq_false, if_false], ?_⟩
    simp [pending, hend]
  · obtain ⟨h1, h2, h3, h4⟩ := hwr hw
    -- the bytes before the wrap position, then those after the start
    obtain ⟨hend1, hcalls1⟩ := handAll_spec hU r.mem _ (r.hostBufferWrapPos - r.hostReadPtr)
      r.hostReadPtr r.lostSampleCount rfl le_rfl h3
    simp only [pcSamplingFlushDrain, hw, ne_eq, not_false_eq_true, if_true]
    obtain ⟨hend2, hcalls2⟩ := handAll_spec hU r.mem _ (r.hostWritePtr - r.hostBuffer) r.hostBuffer
      (handAll U r.hostBufferWrapPos (r.hostBufferWrapPos - r.hostReadPtr)
        (r.hostBufferWrapPos - r.hostReadPtr) r.hostReadPtr r.lostSampleCount).2.2 rfl le_rfl hwrite
    refine ⟨⟨hpos, hsize, by dsimp only; omega, hwrite, hwlt, fun _ => by dsimp only; omega,
      fun h => absurd rfl h⟩, ?_, ?_⟩
    · simp only [List.map_append, List.flatten_append, hcalls1, hcalls2, pending, hw, ne_eq,
        not_false_eq_true, if_true]
    · simp [pending, hend2]

end Drain

/-! ## Runs -/

section Run

variable {session : Session} {sizes : Sizes} {r : Ring α}

/-- **The flush appends without overwriting.**  From a ring between sections,
`PcSamplingFlushHostTrapDeviceBuffers` meets the assertions of both callers,
leaves every pending byte as it was, and appends its bytes to `pending`. -/
theorem flushHostTrapDeviceBuffers_spec (hfits : Fits session sizes)
    (hr : Inv session.bufferSize sizes.trapBufferSize r) (oldVal : Option Nat) (src : Nat → α) :
    Flushed session.bufferSize sizes.trapBufferSize
        (flushHostTrapDeviceBuffers sizes session.sampleSize r oldVal src) ∧
      (∀ a, InPending r a →
        (flushHostTrapDeviceBuffers sizes session.sampleSize r oldVal src).mem a = r.mem a) ∧
      pending (flushHostTrapDeviceBuffers sizes session.sampleSize r oldVal src) =
        pending r ++ flushedBytes sizes session.sampleSize oldVal src := by
  cases oldVal with
  | none => exact ⟨hr.flushed, fun _ _ => rfl, by simp [flushHostTrapDeviceBuffers, flushedBytes]⟩
  | some oldVal =>
    have hn := toCopy_le hfits oldVal
    rw [flushHostTrapDeviceBuffers_some]
    by_cases hwrap : r.hostWritePtr + toCopy sizes.bufSize session.sampleSize oldVal ≥ r.hostBufferEnd
    · rw [if_pos hwrap]
      exact append_wrap_spec hr hn src _ hwrap
    · rw [if_neg hwrap]
      exact append_spec hr hn src _ hwrap

/-- One section keeps the ring as between sections, and the bytes its calls
hand on, followed by what is then pending, are what was pending followed by
what its flush appended. -/
theorem step_spec (hfits : Fits session sizes) (hr : Inv session.bufferSize sizes.trapBufferSize r)
    (op : Op α) :
    Inv session.bufferSize sizes.trapBufferSize (step session sizes r op).1 ∧
      ((step session sizes r op).2.map Prod.snd).flatten ++ pending (step session sizes r op).1 =
        pending r ++ op.appended sizes session.sampleSize := by
  obtain ⟨hflushed, -, happend⟩ := flushHostTrapDeviceBuffers_spec hfits hr op.oldVal op.src
  have hU := session.bufferSize_pos
  cases op with
  | thread oldVal src =>
    obtain ⟨hinv, hstream, -⟩ := pcSamplingThreadDrain_spec hU hflushed
    refine ⟨hinv, ?_⟩
    simp only [step, List.map_map, Function.comp_def]
    rw [hstream, happend]
    rfl
  | flush oldVal src =>
    obtain ⟨hinv, hcalls, hempty⟩ := pcSamplingFlushDrain_spec hU hflushed
    refine ⟨hinv, ?_⟩
    simp only [step, List.map_map, Function.comp_def]
    rw [hempty, List.append_nil, hcalls, happend]
    rfl

/-- **Every byte appended is handed on once, in order.**  Over every run from
a ring between sections, the bytes the calls hand on, followed by what is
still pending, are what was pending followed by all the bytes appended. -/
theorem run_spec (hfits : Fits session sizes) (ops : List (Op α)) :
    ∀ r : Ring α, Inv session.bufferSize sizes.trapBufferSize r →
      Inv session.bufferSize sizes.trapBufferSize (run session sizes r ops).1 ∧
        ((run session sizes r ops).2.map Prod.snd).flatten ++ pending (run session sizes r ops).1 =
          pending r ++ (ops.map (Op.appended sizes session.sampleSize)).flatten := by
  induction ops with
  | nil => intro r hr; simp [run, hr]
  | cons op ops ih =>
    intro r hr
    obtain ⟨hinv, hstream⟩ := step_spec hfits hr op
    obtain ⟨hinv', hstream'⟩ := ih _ hinv
    refine ⟨hinv', ?_⟩
    simp only [run, List.map_append, List.flatten_append, List.map_cons, List.flatten_cons,
      List.append_assoc]
    rw [hstream', ← List.append_assoc, hstream, List.append_assoc]

/-- The ring `PcSamplingCreateFromId` sets up is empty and as between sections. -/
theorem init_inv (hfits : Fits session sizes) {hostBuffer : Nat} (hbuf : 0 < hostBuffer)
    (mem : Nat → α) :
    Inv session.bufferSize sizes.trapBufferSize (Ring.init sizes hostBuffer mem) ∧
      pending (Ring.init sizes hostBuffer mem) = [] := by
  have hU := session.bufferSize_pos
  have hH := hfits.host_ge
  refine ⟨⟨hbuf, hH, le_rfl, le_rfl, ?_, fun _ => ⟨le_rfl, by simpa [Ring.init] using hU⟩,
    fun h => absurd rfl h⟩, by simp [pending, Ring.init]⟩
  simp only [Ring.init, Ring.hostBufferEnd]
  omega

end Run

/-- **The host ring over every run.**  For a session the setup accepts and any
sections under the mutex: the bytes handed on so far, followed by those still
pending, are all the bytes appended; and the next section meets the
assertions after its flush, writes no pending byte, hands on whole user
buffers when it is a thread iteration and everything when it is a flush call. -/
theorem pcSampling_hostRing (maxTrapBufferSize : Nat) (session : Session) (sizes : Sizes)
    (hsizes : pcSamplingCreateFromId maxTrapBufferSize session = some sizes) {hostBuffer : Nat}
    (hbuf : 0 < hostBuffer) (mem : Nat → α) (ops : List (Op α)) (op : Op α) :
    ((run session sizes (Ring.init sizes hostBuffer mem) ops).2.map Prod.snd).flatten ++
        pending (run session sizes (Ring.init sizes hostBuffer mem) ops).1 =
      (ops.map (Op.appended sizes session.sampleSize)).flatten ∧
    Asserts (flushHostTrapDeviceBuffers sizes session.sampleSize
      (run session sizes (Ring.init sizes hostBuffer mem) ops).1 op.oldVal op.src) ∧
    (∀ a, InPending (run session sizes (Ring.init sizes hostBuffer mem) ops).1 a →
      (flushHostTrapDeviceBuffers sizes session.sampleSize
        (run session sizes (Ring.init sizes hostBuffer mem) ops).1 op.oldVal op.src).mem a =
        (run session sizes (Ring.init sizes hostBuffer mem) ops).1.mem a) ∧
    (op.isThread = true → ∀ c ∈ (step session sizes (run session sizes (Ring.init sizes hostBuffer mem) ops).1 op).2,
      c.1.buf1Sz + c.1.buf2Sz = session.bufferSize) ∧
    (op.isThread = false →
      pending (step session sizes (run session sizes (Ring.init sizes hostBuffer mem) ops).1 op).1 = []) := by
  have hfits := pcSamplingCreateFromId_fits hsizes
  obtain ⟨hinit, hempty⟩ := init_inv hfits hbuf mem
  obtain ⟨hinv, hstream⟩ := run_spec hfits ops _ hinit
  obtain ⟨hflushed, hkeep, -⟩ := flushHostTrapDeviceBuffers_spec hfits hinv op.oldVal op.src
  have hU := session.bufferSize_pos
  refine ⟨by rw [hstream, hempty, List.nil_append], hflushed.asserts, hkeep, ?_, ?_⟩
  · -- a thread iteration: its calls are the drain's, each one user buffer
    intro hthread c hc
    cases op with
    | thread oldVal src =>
      simp only [step, List.mem_map] at hc
      obtain ⟨c', hc', rfl⟩ := hc
      exact (pcSamplingThreadDrain_spec hU hflushed).2.2 c' hc'
    | flush oldVal src => simp [Op.isThread] at hthread
  · -- a flush call leaves nothing pending
    intro hflush
    cases op with
    | thread oldVal src => simp [Op.isThread] at hflush
    | flush oldVal src => exact (pcSamplingFlushDrain_spec hU hflushed).2.2

/-- A session of eight-byte samples with a 64-byte user buffer: two trap
buffers of 32 bytes and a ring of 128 bytes at `0x1000`; a thread iteration
that flushes four samples, then a flush call that flushes two. -/
theorem pcSampling_hostRing_two_sections :
    pcSamplingCreateFromId 256 ⟨64, 8, by decide, by decide⟩ = some ⟨32, 128, 4⟩ ∧ 0 < 0x1000 ∧
    (((run ⟨64, 8, by decide, by decide⟩ ⟨32, 128, 4⟩ (Ring.init ⟨32, 128, 4⟩ 0x1000 fun _ => (0 : Nat))
        [.thread (some 4) id]).2.map Prod.snd).flatten ++
        pending (run ⟨64, 8, by decide, by decide⟩ ⟨32, 128, 4⟩ (Ring.init ⟨32, 128, 4⟩ 0x1000 fun _ => (0 : Nat))
        [.thread (some 4) id]).1 =
      ([Op.thread (some 4) id].map (Op.appended ⟨32, 128, 4⟩ 8)).flatten ∧
    Asserts (flushHostTrapDeviceBuffers ⟨32, 128, 4⟩ 8
      (run ⟨64, 8, by decide, by decide⟩ ⟨32, 128, 4⟩ (Ring.init ⟨32, 128, 4⟩ 0x1000 fun _ => (0 : Nat))
        [.thread (some 4) id]).1 (Op.flush (some 2) id).oldVal (Op.flush (some 2) id).src) ∧
    (∀ a, InPending (run ⟨64, 8, by decide, by decide⟩ ⟨32, 128, 4⟩ (Ring.init ⟨32, 128, 4⟩ 0x1000 fun _ => (0 : Nat))
        [.thread (some 4) id]).1 a →
      (flushHostTrapDeviceBuffers ⟨32, 128, 4⟩ 8
        (run ⟨64, 8, by decide, by decide⟩ ⟨32, 128, 4⟩ (Ring.init ⟨32, 128, 4⟩ 0x1000 fun _ => (0 : Nat))
        [.thread (some 4) id]).1 (Op.flush (some 2) id).oldVal (Op.flush (some 2) id).src).mem a =
        (run ⟨64, 8, by decide, by decide⟩ ⟨32, 128, 4⟩ (Ring.init ⟨32, 128, 4⟩ 0x1000 fun _ => (0 : Nat))
        [.thread (some 4) id]).1.mem a) ∧
    ((Op.flush (some 2) id).isThread = true →
      ∀ c ∈ (step ⟨64, 8, by decide, by decide⟩ ⟨32, 128, 4⟩ (run ⟨64, 8, by decide, by decide⟩ ⟨32, 128, 4⟩ (Ring.init ⟨32, 128, 4⟩ 0x1000 fun _ => (0 : Nat))
        [.thread (some 4) id]).1 (.flush (some 2) id)).2,
        c.1.buf1Sz + c.1.buf2Sz = 64) ∧
    ((Op.flush (some 2) id).isThread = false →
      pending (step ⟨64, 8, by decide, by decide⟩ ⟨32, 128, 4⟩ (run ⟨64, 8, by decide, by decide⟩ ⟨32, 128, 4⟩ (Ring.init ⟨32, 128, 4⟩ 0x1000 fun _ => (0 : Nat))
        [.thread (some 4) id]).1 (.flush (some 2) id)).1 = [])) :=
  ⟨by decide, by decide,
    pcSampling_hostRing 256 ⟨64, 8, by decide, by decide⟩ ⟨32, 128, 4⟩ (by decide) (by decide)
      (fun _ => (0 : Nat)) [.thread (some 4) id] (.flush (some 2) id)⟩

end HostTrap
