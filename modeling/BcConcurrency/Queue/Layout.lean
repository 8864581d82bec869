import BcConcurrency.Lib.Bytes
import BcConcurrency.Lib.Ring
import BcConcurrency.Lib.Word

/-!
# Creating a queue and addressing its slots

`bc_concurrency_queue_create` and its helpers, on the bytes of `slot_buffer`.
Sizes, positions and offsets are computed modulo `2 ^ 64` as the code computes
them; an access outside of the granted block faults.
-/

namespace BcConcurrency.Queue

/-- The memory pool.  A request may be refused for any reason; what is granted is
an object of the requested size, hence smaller than `PTRDIFF_MAX` bytes. -/
structure Allocator where
  /-- Whether the given request of this many bytes is granted. -/
  grants : ℕ → ℕ → Bool
  lt_of_grants : ∀ request bytes, grants request bytes = true → bytes < 2 ^ 63

/-- What a granted request of so many bytes yields. -/
abbrev GrantedBlock (bytes : ℕ) : Type := {block : Block // bytes ≤ block.size}

/-- The memory pool, when the blocks that it grants may be larger than requested and
hold any bytes. -/
structure BlockAllocator where
  /-- What the given request of this many bytes is granted. -/
  allocate : ℕ → (bytes : ℕ) → Option (GrantedBlock bytes)
  size_lt : ∀ request bytes block, allocate request bytes = some block → block.1.size < 2 ^ 63

/-- `struct bc_concurrency_queue`, with the block of `slot_buffer`. -/
structure ByteQueue where
  enqueuePosition : ℕ
  dequeuePosition : ℕ
  closed : Bool
  capacity : ℕ
  capacityMask : ℕ
  elementSize : ℕ
  slotStrideBytes : ℕ
  slotBuffer : Block

/-- `BC_CONCURRENCY_QUEUE_CACHELINE_BYTES` -/
def cachelineBytes : ℕ := 64

/-- `sizeof(_Atomic uint64_t)` -/
def sequenceBytes : ℕ := 8

/-- `sizeof(bc_concurrency_queue_t)`: three aligned lines, the second half of the
last one holding the fields after `closed`. -/
def queueBytes : ℕ := 192

/-- `bc_concurrency_queue_is_power_of_two` -/
def isPowerOfTwo (value : ℕ) : Bool := value != 0 && (value &&& (value - 1)) == 0

/-- The loop of `bc_concurrency_queue_round_up_power_of_two`. -/
def roundUpLoop (value : ℕ) : ℕ → ℕ → Except Halt ℕ
  | 0, _ => .error .outOfFuel
  | fuel + 1, power =>
      if power < value then roundUpLoop value fuel (word (power <<< 1)) else .ok power

/-- `bc_concurrency_queue_round_up_power_of_two` -/
def roundUpPowerOfTwo (fuel value : ℕ) : Except Halt ℕ :=
  if value ≤ 1 then .ok 1 else roundUpLoop value fuel 1

/-- `bc_concurrency_queue_align_up` -/
def alignUp (value alignment : ℕ) : ℕ :=
  word (value + alignment - 1) &&& (2 ^ 64 - 1 - (alignment - 1))

namespace ByteQueue

/-- The offset in `slot_buffer` of the slot of a position. -/
def slotOffset (queue : ByteQueue) (position : ℕ) : ℕ :=
  word ((position &&& queue.capacityMask) * queue.slotStrideBytes)

/-- The offset of its payload. -/
def slotDataOffset (queue : ByteQueue) (position : ℕ) : ℕ :=
  queue.slotOffset position + sequenceBytes

/-- Load through `bc_concurrency_queue_slot_sequence`. -/
def loadSequence (queue : ByteQueue) (position : ℕ) : Except Halt ℕ :=
  (queue.slotBuffer.load (queue.slotOffset position) sequenceBytes).map ofBytes

/-- Store through `bc_concurrency_queue_slot_sequence`. -/
def storeSequence (queue : ByteQueue) (position sequence : ℕ) : Except Halt ByteQueue :=
  (queue.slotBuffer.store (queue.slotOffset position) (toBytes sequenceBytes sequence)).map
    fun slotBuffer => { queue with slotBuffer := slotBuffer }

/-- Copy `element_size` bytes from `bc_concurrency_queue_slot_data`. -/
def copyOut (queue : ByteQueue) (position : ℕ) : Except Halt (List UInt8) :=
  queue.slotBuffer.load (queue.slotDataOffset position) queue.elementSize

/-- Copy the bytes of an item to `bc_concurrency_queue_slot_data`. -/
def copyIn (queue : ByteQueue) (position : ℕ) (item : List UInt8) : Except Halt ByteQueue :=
  (queue.slotBuffer.store (queue.slotDataOffset position) item).map
    fun slotBuffer => { queue with slotBuffer := slotBuffer }

/-- The loop of `bc_concurrency_queue_create` over the first `count` slots. -/
def initSequences (queue : ByteQueue) : ℕ → Except Halt ByteQueue
  | 0 => .ok queue
  | slotIndex + 1 => (queue.initSequences slotIndex).bind fun queue =>
      queue.storeSequence slotIndex slotIndex

end ByteQueue

/-- The local `slot_stride_bytes` of `bc_concurrency_queue_create`. -/
def strideOf (elementSize : ℕ) : ℕ := alignUp (word (sequenceBytes + elementSize)) cachelineBytes

/-- The queue before its sequence words are stored. -/
@[simps] def ByteQueue.blank (elementSize effectiveCapacity : ℕ) : ByteQueue where
  enqueuePosition := 0
  dequeuePosition := 0
  closed := false
  capacity := effectiveCapacity
  capacityMask := effectiveCapacity - 1
  elementSize := elementSize
  slotStrideBytes := strideOf elementSize
  slotBuffer := .zeroed (word (strideOf elementSize * effectiveCapacity))

/-- The queue before its sequence words are stored, on the block granted for
`slot_buffer`. -/
def ByteQueue.blankOn (block : Block) (elementSize effectiveCapacity : ℕ) : ByteQueue :=
  { ByteQueue.blank elementSize effectiveCapacity with
    slotBuffer := block.clear (word (strideOf elementSize * effectiveCapacity)) }

/-- `bc_concurrency_queue_create`, on the blocks that its two requests are granted;
`none` is the result `false`.  A store outside of the granted block is a fault, so a
creation that has returned has made none. -/
def createOn (allocate : ℕ → (bytes : ℕ) → Option (GrantedBlock bytes))
    (fuel elementSize capacity : ℕ) : Except Halt (Option ByteQueue) :=
  if elementSize = 0 ∨ capacity = 0 then .ok none
  else
    (if isPowerOfTwo capacity then .ok capacity else roundUpPowerOfTwo fuel capacity).bind
      fun effectiveCapacity =>
        if allocate 0 queueBytes = none then .ok none
        else
          match allocate 1 (word (strideOf elementSize * effectiveCapacity)) with
          | none => .ok none
          | some slotBuffer =>
              let queue := ByteQueue.blankOn slotBuffer.1 elementSize effectiveCapacity
              (queue.initSequences effectiveCapacity).map some

/-- The requests that are granted get blocks of exactly the requested size. -/
def exactBlocks (grants : ℕ → ℕ → Bool) (request bytes : ℕ) : Option (GrantedBlock bytes) :=
  if grants request bytes = true then some ⟨.zeroed bytes, le_rfl⟩ else none

/-- `bc_concurrency_queue_create`, for any choice of the requests that are granted. -/
def createWith (grants : ℕ → ℕ → Bool) (fuel elementSize capacity : ℕ) :
    Except Halt (Option ByteQueue) :=
  createOn (exactBlocks grants) fuel elementSize capacity

/-- `bc_concurrency_queue_create`, on blocks of the requested size. -/
def create (allocator : Allocator) (fuel elementSize capacity : ℕ) :
    Except Halt (Option ByteQueue) :=
  createWith allocator.grants fuel elementSize capacity

/-! ### Powers of two and alignment -/

lemma isPowerOfTwo_iff {value : ℕ} : isPowerOfTwo value = true ↔ ∃ k, value = 2 ^ k := by
  by_cases hne : value = 0
  · subst hne
    have hpos (k : ℕ) : (0 : ℕ) ≠ 2 ^ k := (Nat.two_pow_pos k).ne
    simp [isPowerOfTwo, hpos]
  · simp only [isPowerOfTwo, bne_iff_ne, ne_eq, hne, not_false_eq_true, beq_iff_eq,
      Bool.and_eq_true, true_and]
    exact Nat.and_sub_one_eq_zero_iff_isPowerOfTwo hne

/-- What the loop keeps: the power has been doubled out of the word, or it is
below twice the value. -/
private def RoundsUp (value power : ℕ) : Prop :=
  power = 0 ∨ ∃ k ≤ 63, power = 2 ^ k ∧ 2 ^ k < 2 * value

private lemma RoundsUp.double {value power : ℕ} (h : RoundsUp value power) (hlt : power < value) :
    RoundsUp value (word (power <<< 1)) := by
  rcases h with rfl | ⟨k, hk, rfl, -⟩
  · left
    rfl
  · rw [Nat.shiftLeft_eq, pow_one, ← pow_succ]
    rcases Nat.lt_or_ge k 63 with hk' | hk'
    · have hword : 2 ^ (k + 1) < 2 ^ 64 := Nat.pow_lt_pow_right (by norm_num) (by omega)
      right
      refine ⟨k + 1, by omega, word_of_lt hword, ?_⟩
      rw [pow_succ]
      omega
    · obtain rfl : k = 63 := by omega
      left
      rfl

/-- If the loop ends, it ends at the least power of two that is not below the value. -/
lemma roundUpLoop_ok {value fuel power result : ℕ} (hvalue : 0 < value)
    (hpower : RoundsUp value power) (h : roundUpLoop value fuel power = .ok result) :
    ∃ k ≤ 63, result = 2 ^ k ∧ value ≤ 2 ^ k ∧ 2 ^ k < 2 * value := by
  induction fuel generalizing power with
  | zero => simp [roundUpLoop] at h
  | succ fuel ih =>
    rw [roundUpLoop] at h
    split at h
    case isTrue hlt => exact ih (hpower.double hlt) h
    case isFalse hge =>
      obtain rfl := Except.ok.inj h
      rcases hpower with rfl | ⟨k, hk, rfl, hlt⟩
      · omega
      · exact ⟨k, hk, rfl, by omega, hlt⟩

/-- The effective capacity is the least power of two that is not below the
requested capacity. -/
lemma effectiveCapacity_ok {fuel capacity result : ℕ} (hpos : 0 < capacity)
    (hlt : capacity < 2 ^ 64)
    (h : (if isPowerOfTwo capacity then .ok capacity else roundUpPowerOfTwo fuel capacity) =
      Except.ok result) :
    ∃ k ≤ 63, result = 2 ^ k ∧ capacity ≤ 2 ^ k ∧ 2 ^ k < 2 * capacity := by
  split at h
  case isTrue hpow =>
    obtain rfl := Except.ok.inj h
    obtain ⟨k, rfl⟩ := isPowerOfTwo_iff.mp hpow
    have hk : k < 64 := (Nat.pow_lt_pow_iff_right (by norm_num)).mp hlt
    exact ⟨k, by omega, rfl, le_rfl, by omega⟩
  case isFalse =>
    rw [roundUpPowerOfTwo] at h
    split at h
    case isTrue hle =>
      obtain rfl := Except.ok.inj h
      exact ⟨0, by omega, rfl, by omega, by omega⟩
    case isFalse hgt => exact roundUpLoop_ok hpos (Or.inr ⟨0, by omega, rfl, by omega⟩) h

/-- Clearing the low `k` bits rounds down to a multiple of `2 ^ k`. -/
lemma and_high_mask {n k : ℕ} (hk : k ≤ 64) (hn : n < 2 ^ 64) :
    n &&& (2 ^ 64 - 1 - (2 ^ k - 1)) = n / 2 ^ k * 2 ^ k := by
  have hmask : 2 ^ 64 - 1 - (2 ^ k - 1) = (2 ^ (64 - k) - 1) <<< k := by
    have hpow : 2 ^ (64 - k) * 2 ^ k = 2 ^ 64 := by rw [← pow_add, Nat.sub_add_cancel hk]
    have hpos : 1 ≤ 2 ^ k := Nat.one_le_two_pow
    rw [Nat.shiftLeft_eq, Nat.sub_mul, hpow, one_mul]
    omega
  rw [hmask, ← Nat.shiftLeft_eq, ← Nat.shiftRight_eq_div_pow]
  apply Nat.eq_of_testBit_eq
  intro i
  simp only [Nat.testBit_and, Nat.testBit_shiftLeft, Nat.testBit_two_pow_sub_one,
    Nat.testBit_shiftRight, ge_iff_le]
  by_cases hi : k ≤ i
  · rw [Nat.add_sub_cancel' hi]
    by_cases hi' : i < 64
    · simp [hi, show i - k < 64 - k by omega]
    · have hout : n.testBit i = false :=
        Nat.testBit_lt_two_pow (hn.trans_le (Nat.pow_le_pow_right (by norm_num) (by omega)))
      simp [hout]
  · simp [hi]

lemma alignUp_cacheline (value : ℕ) :
    alignUp value cachelineBytes = word (value + 63) / 64 * 64 := by
  have h := and_high_mask (n := word (value + 63)) (k := 6) (by norm_num) (word_lt _)
  simpa [alignUp, cachelineBytes] using h

/-- The three ways in which the computation of the stride can go: it holds the
slot, its alignment wraps to zero, or the size of the slot itself wraps. -/
lemma strideOf_cases {elementSize : ℕ} (hpos : 1 ≤ elementSize) (hlt : elementSize < 2 ^ 64) :
    (8 + elementSize + 63 < 2 ^ 64 ∧ 8 + elementSize ≤ strideOf elementSize) ∨
      (2 ^ 64 ≤ 8 + elementSize + 63 ∧ 8 + elementSize ≤ 2 ^ 64 ∧ strideOf elementSize = 0) ∨
      (2 ^ 64 < 8 + elementSize ∧ strideOf elementSize = 64) := by
  rw [strideOf, alignUp_cacheline, sequenceBytes, word, word]
  omega

/-! ### The slots of a created queue -/

namespace ByteQueue

variable {queue queue' : ByteQueue} {k p p' v : ℕ} {item : List UInt8}

/-- A payload of more bytes than the buffer has is not copied. -/
lemma copyIn_fault (h : queue.slotBuffer.size < sequenceBytes + item.length) (p : ℕ) :
    queue.copyIn p item = .error .fault := by
  rw [copyIn, Block.store, if_neg (by rw [slotDataOffset]; omega), Except.map]

lemma copyOut_fault (h : queue.slotBuffer.size < sequenceBytes + queue.elementSize) (p : ℕ) :
    queue.copyOut p = .error .fault := by
  rw [copyOut, Block.load, if_neg (by rw [slotDataOffset]; omega)]

lemma storeSequence_inv (h : queue.storeSequence p v = .ok queue') :
    ∃ b, queue.slotBuffer.store (queue.slotOffset p) (toBytes sequenceBytes v) = .ok b ∧
      queue' = { queue with slotBuffer := b } := by
  rcases hb : queue.slotBuffer.store (queue.slotOffset p) (toBytes sequenceBytes v) with _ | b
  · simp [storeSequence, hb, Except.map] at h
  · simp only [storeSequence, hb, Except.map, Except.ok.injEq] at h
    exact ⟨b, rfl, h.symm⟩

lemma copyIn_inv (h : queue.copyIn p item = .ok queue') :
    ∃ b, queue.slotBuffer.store (queue.slotDataOffset p) item = .ok b ∧
      queue' = { queue with slotBuffer := b } := by
  rcases hb : queue.slotBuffer.store (queue.slotDataOffset p) item with _ | b
  · simp [copyIn, hb, Except.map] at h
  · simp only [copyIn, hb, Except.map, Except.ok.injEq] at h
    exact ⟨b, rfl, h.symm⟩

/-- The slots of a queue of `2 ^ k` slots lie one after the other in the buffer, and
each of them has room for its sequence word. -/
structure Addressable (queue : ByteQueue) (k : ℕ) : Prop where
  capacity : queue.capacity = 2 ^ k
  capacityMask : queue.capacityMask = 2 ^ k - 1
  sequence_le : sequenceBytes ≤ queue.slotStrideBytes
  size_le : queue.slotStrideBytes * 2 ^ k ≤ queue.slotBuffer.size
  size_lt : queue.slotBuffer.size < 2 ^ 64

/-- The layout of a queue of `2 ^ k` slots: they fill the buffer. -/
structure Layout (queue : ByteQueue) (k : ℕ) : Prop extends Addressable queue k where
  size : queue.slotBuffer.size = queue.slotStrideBytes * 2 ^ k

/-- The stride has room for the sequence word and the payload. -/
def Fits (queue : ByteQueue) : Prop := sequenceBytes + queue.elementSize ≤ queue.slotStrideBytes

namespace Addressable

/-- The offset of a slot does not wrap and the slot lies in the buffer. -/
lemma slotOffset_eq (hlay : Addressable queue k) (p : ℕ) :
    queue.slotOffset p = p % 2 ^ k * queue.slotStrideBytes ∧
      queue.slotOffset p + queue.slotStrideBytes ≤ queue.slotBuffer.size := by
  have hlt : p % 2 ^ k + 1 ≤ 2 ^ k := Nat.mod_lt p (by positivity)
  have hle : (p % 2 ^ k + 1) * queue.slotStrideBytes ≤ queue.slotBuffer.size := by
    refine le_trans ?_ hlay.size_le
    rw [Nat.mul_comm queue.slotStrideBytes]
    exact Nat.mul_le_mul_right _ hlt
  have hsize := hlay.size_lt
  rw [Nat.add_mul, one_mul] at hle
  have hoff : queue.slotOffset p = p % 2 ^ k * queue.slotStrideBytes := by
    rw [slotOffset, hlay.capacityMask, Nat.and_two_pow_sub_one_eq_mod, word_of_lt (by omega)]
  exact ⟨hoff, by omega⟩

/-- The slots of positions that differ modulo the capacity do not overlap. -/
lemma slotOffset_disjoint (hlay : Addressable queue k) (hne : p % 2 ^ k ≠ p' % 2 ^ k) :
    queue.slotOffset p + queue.slotStrideBytes ≤ queue.slotOffset p' ∨
      queue.slotOffset p' + queue.slotStrideBytes ≤ queue.slotOffset p := by
  rw [(hlay.slotOffset_eq p).1, (hlay.slotOffset_eq p').1, ← Nat.succ_mul, ← Nat.succ_mul]
  rcases Nat.lt_or_gt_of_ne hne with hlt | hlt
  · exact Or.inl (Nat.mul_le_mul_right _ hlt)
  · exact Or.inr (Nat.mul_le_mul_right _ hlt)

lemma withBuffer (hlay : Addressable queue k) {b : Block} (hb : b.size = queue.slotBuffer.size) :
    Addressable { queue with slotBuffer := b } k :=
  ⟨hlay.capacity, hlay.capacityMask, hlay.sequence_le, hb ▸ hlay.size_le, hb ▸ hlay.size_lt⟩

lemma withPositions (hlay : Addressable queue k) (e d : ℕ) :
    Addressable { queue with enqueuePosition := e, dequeuePosition := d } k :=
  ⟨hlay.capacity, hlay.capacityMask, hlay.sequence_le, hlay.size_le, hlay.size_lt⟩

/-- There are no more slots than bytes. -/
lemma capacity_le_size (hlay : Addressable queue k) : 2 ^ k ≤ queue.slotBuffer.size :=
  (Nat.le_mul_of_pos_left _ (lt_of_lt_of_le (by decide) hlay.sequence_le)).trans hlay.size_le

/-- A position of the next lap has the same slot. -/
lemma loadSequence_add (hlay : Addressable queue k) (p : ℕ) :
    queue.loadSequence (p + 2 ^ k) = queue.loadSequence p := by
  rw [loadSequence, loadSequence, (hlay.slotOffset_eq (p + 2 ^ k)).1, (hlay.slotOffset_eq p).1,
    Nat.add_mod_right]

lemma exists_storeSequence (hlay : Addressable queue k) (p v : ℕ) :
    ∃ queue', queue.storeSequence p v = .ok queue' := by
  have hoff := (hlay.slotOffset_eq p).2
  have hle := hlay.sequence_le
  obtain ⟨b, hb⟩ : ∃ b, queue.slotBuffer.store (queue.slotOffset p) (toBytes sequenceBytes v) =
      .ok b := Block.store_isOk_iff.mpr (by rw [length_toBytes]; omega)
  exact ⟨_, by rw [storeSequence, hb]; rfl⟩

/-- What a store of a sequence word changes and what it leaves alone. -/
lemma storeSequence_spec (hlay : Addressable queue k) (hv : v < 2 ^ 64)
    (h : queue.storeSequence p v = .ok queue') :
    queue'.loadSequence p = .ok v ∧ queue'.copyOut p = queue.copyOut p ∧
      ∀ p', p' % 2 ^ k ≠ p % 2 ^ k → queue'.loadSequence p' = queue.loadSequence p' := by
  obtain ⟨b, hb, rfl⟩ := storeSequence_inv h
  refine ⟨?_, ?_, ?_⟩
  · have hload := Block.load_store hb
    rw [length_toBytes] at hload
    show (b.load (queue.slotOffset p) sequenceBytes).map ofBytes = _
    rw [hload, Except.map, ofBytes_toBytes, sequenceBytes]
    congr 1
    exact Nat.mod_eq_of_lt (by omega)
  · exact Block.load_store_of_disjoint hb (Or.inr (by rw [length_toBytes]; exact le_rfl))
  · intro p' hne
    have hle := hlay.sequence_le
    have hdisj := hlay.slotOffset_disjoint hne
    show (b.load (queue.slotOffset p') sequenceBytes).map ofBytes = _
    rw [Block.load_store_of_disjoint hb (by simp only [length_toBytes]; omega)]
    rfl

/-- A store of a sequence word leaves the payloads of the other slots alone. -/
lemma storeSequence_copyOut (hlay : Addressable queue k) (hfits : queue.Fits)
    (h : queue.storeSequence p v = .ok queue') (hne : p' % 2 ^ k ≠ p % 2 ^ k) :
    queue'.copyOut p' = queue.copyOut p' := by
  obtain ⟨b, hb, rfl⟩ := storeSequence_inv h
  have hle : sequenceBytes + queue.elementSize ≤ queue.slotStrideBytes := hfits
  have hdisj := hlay.slotOffset_disjoint hne
  refine Block.load_store_of_disjoint hb ?_
  show queue.slotDataOffset p' + queue.elementSize ≤ _ ∨ _ ≤ queue.slotDataOffset p'
  simp only [slotDataOffset, length_toBytes]
  omega

/-- Positions of one slot have one payload. -/
lemma copyOut_congr (hlay : Addressable queue k) (hp : p % 2 ^ k = p' % 2 ^ k) :
    queue.copyOut p = queue.copyOut p' := by
  rw [copyOut, copyOut, slotDataOffset, slotDataOffset, (hlay.slotOffset_eq p).1,
    (hlay.slotOffset_eq p').1, hp]

lemma loadSequence_congr (hlay : Addressable queue k) (hp : p % 2 ^ k = p' % 2 ^ k) :
    queue.loadSequence p = queue.loadSequence p' := by
  rw [loadSequence, loadSequence, (hlay.slotOffset_eq p).1, (hlay.slotOffset_eq p').1, hp]

/-- A store of a sequence word leaves every payload alone. -/
lemma storeSequence_payloads (hlay : Addressable queue k) (hfits : queue.Fits) (hv : v < 2 ^ 64)
    (h : queue.storeSequence p v = .ok queue') (p' : ℕ) : queue'.copyOut p' = queue.copyOut p' := by
  by_cases hp : p' % 2 ^ k = p % 2 ^ k
  · have hlay' : Addressable queue' k := by
      obtain ⟨b, hb, rfl⟩ := storeSequence_inv h
      exact hlay.withBuffer (Block.store_size hb)
    rw [hlay'.copyOut_congr hp, hlay.copyOut_congr hp]
    exact (hlay.storeSequence_spec hv h).2.1
  · exact hlay.storeSequence_copyOut hfits h hp

lemma exists_copyIn (hlay : Addressable queue k) (hfits : queue.Fits)
    (hitem : item.length = queue.elementSize) (p : ℕ) :
    ∃ queue', queue.copyIn p item = .ok queue' := by
  have hoff := (hlay.slotOffset_eq p).2
  have hle : sequenceBytes + queue.elementSize ≤ queue.slotStrideBytes := hfits
  obtain ⟨b, hb⟩ : ∃ b, queue.slotBuffer.store (queue.slotDataOffset p) item = .ok b :=
    Block.store_isOk_iff.mpr (by rw [slotDataOffset]; omega)
  exact ⟨_, by rw [copyIn, hb]; rfl⟩

/-- What a copy into a payload changes and what it leaves alone. -/
lemma copyIn_spec (hlay : Addressable queue k) (hfits : queue.Fits)
    (hitem : item.length = queue.elementSize) (h : queue.copyIn p item = .ok queue') :
    queue'.copyOut p = .ok item ∧
      (∀ p', queue'.loadSequence p' = queue.loadSequence p') ∧
      ∀ p', p' % 2 ^ k ≠ p % 2 ^ k → queue'.copyOut p' = queue.copyOut p' := by
  obtain ⟨b, hb, rfl⟩ := copyIn_inv h
  have hle : sequenceBytes + queue.elementSize ≤ queue.slotStrideBytes := hfits
  refine ⟨?_, ?_, ?_⟩
  · have hload := Block.load_store hb
    rwa [hitem] at hload
  · intro p'
    show (b.load (queue.slotOffset p') sequenceBytes).map ofBytes = _
    rw [Block.load_store_of_disjoint hb]
    · rfl
    · rw [slotDataOffset]
      by_cases heq : p' % 2 ^ k = p % 2 ^ k
      · have hsame : queue.slotOffset p' = queue.slotOffset p := by
          rw [(hlay.slotOffset_eq p').1, (hlay.slotOffset_eq p).1, heq]
        omega
      · have hdisj := hlay.slotOffset_disjoint heq
        omega
  · intro p' hne
    have hdisj := hlay.slotOffset_disjoint hne
    refine Block.load_store_of_disjoint hb ?_
    show queue.slotDataOffset p' + queue.elementSize ≤ _ ∨ _ ≤ queue.slotDataOffset p'
    simp only [slotDataOffset]
    omega

end Addressable

lemma Layout.withBuffer (hlay : Layout queue k) {b : Block}
    (hb : b.size = queue.slotBuffer.size) : Layout { queue with slotBuffer := b } k :=
  ⟨hlay.toAddressable.withBuffer hb, hb.trans hlay.size⟩

/-! ### Creation -/

/-- The last turn of the loop. -/
lemma initSequences_succ_inv {n : ℕ} (h : queue.initSequences (n + 1) = .ok queue') :
    ∃ mid, queue.initSequences n = .ok mid ∧ mid.storeSequence n n = .ok queue' := by
  rcases hmid : queue.initSequences n with _ | mid
  · simp [initSequences, hmid, Except.bind] at h
  · rw [initSequences, hmid] at h
    exact ⟨mid, rfl, h⟩

lemma initSequences_inv {n : ℕ} (h : queue.initSequences n = .ok queue') :
    (∃ b, queue' = { queue with slotBuffer := b } ∧ b.size = queue.slotBuffer.size) ∧
      ∀ i < n, queue.slotOffset i + sequenceBytes ≤ queue.slotBuffer.size := by
  induction n generalizing queue' with
  | zero =>
    obtain rfl := Except.ok.inj h
    exact ⟨⟨_, rfl, rfl⟩, by simp⟩
  | succ n ih =>
    obtain ⟨mid, hmid, hlast⟩ := initSequences_succ_inv h
    obtain ⟨⟨b, rfl, hsize⟩, hin⟩ := ih hmid
    obtain ⟨b', hb', rfl⟩ := storeSequence_inv hlast
    refine ⟨⟨b', rfl, (Block.store_size hb').trans hsize⟩, ?_⟩
    intro i hi
    rcases Nat.lt_succ_iff_lt_or_eq.mp hi with hlt | rfl
    · exact hin i hlt
    · have hle := Block.store_isOk_iff.mp ⟨b', hb'⟩
      rw [length_toBytes] at hle
      rw [← hsize]
      exact hle

lemma initSequences_loadSequence (hlay : Addressable queue k) {n : ℕ} (hn : n ≤ 2 ^ k)
    (h : queue.initSequences n = .ok queue') : ∀ i < n, queue'.loadSequence i = .ok i := by
  induction n generalizing queue' with
  | zero => simp
  | succ n ih =>
    obtain ⟨mid, hmid, hlast⟩ := initSequences_succ_inv h
    obtain ⟨⟨b, rfl, hsize⟩, -⟩ := initSequences_inv hmid
    have hk := hlay.capacity_le_size
    have hsize_lt := hlay.size_lt
    obtain ⟨hload, -, hframe⟩ := (hlay.withBuffer hsize).storeSequence_spec (by omega) hlast
    intro i hi
    rcases Nat.lt_succ_iff_lt_or_eq.mp hi with hlt | rfl
    · rw [hframe i]
      · exact ih (by omega) hmid i hlt
      · rw [Nat.mod_eq_of_lt (by omega), Nat.mod_eq_of_lt (by omega)]
        omega
    · exact hload

/-- The loop over the sequence words leaves the payloads alone. -/
lemma initSequences_copyOut (hlay : Addressable queue k) (hfits : queue.Fits) {n : ℕ}
    (hn : n ≤ 2 ^ k) (h : queue.initSequences n = .ok queue') (p : ℕ) :
    queue'.copyOut p = queue.copyOut p := by
  induction n generalizing queue' with
  | zero =>
    obtain rfl := Except.ok.inj h
    rfl
  | succ n ih =>
    obtain ⟨mid, hmid, hlast⟩ := initSequences_succ_inv h
    obtain ⟨⟨b, rfl, hsize⟩, -⟩ := initSequences_inv hmid
    have hk := hlay.capacity_le_size
    have hsize_lt := hlay.size_lt
    have hstep := (hlay.withBuffer hsize).storeSequence_payloads hfits (by omega) hlast p
    exact hstep.trans (ih (by omega) hmid)

/-- If every slot of the computed layout lies in a block of less than
`PTRDIFF_MAX` bytes, the size of the buffer did not wrap. -/
lemma mul_lt_of_offsets {stride capacity size : ℕ} (hstride : stride < 2 ^ 64)
    (hsize : size < 2 ^ 63) (hin : ∀ i < capacity, word (i * stride) + sequenceBytes ≤ size) :
    stride * capacity < 2 ^ 64 := by
  by_contra hge
  have hge : 2 ^ 64 ≤ stride * capacity := Nat.le_of_not_lt hge
  have hpos : 0 < stride := Nat.pos_of_mul_pos_right (by omega : 0 < stride * capacity)
  -- the last slot whose offset does not wrap already starts beyond the block
  obtain ⟨i, hi⟩ : ∃ i, i = (2 ^ 64 - 1) / stride := ⟨_, rfl⟩
  have hdiv := Nat.div_add_mod (2 ^ 64 - 1) stride
  have hmod := Nat.mod_lt (2 ^ 64 - 1) hpos
  rw [← hi] at hdiv
  have hlt : i < capacity := by
    by_contra hle
    have := Nat.mul_le_mul_left stride (Nat.le_of_not_lt hle)
    omega
  have hbound := hin i hlt
  rw [Nat.mul_comm i, word_of_lt (by omega)] at hbound
  rcases Nat.lt_or_ge stride (2 ^ 63) with hsmall | hlarge
  · omega
  · have hone : 1 < capacity := by
      by_contra hle
      have := Nat.mul_le_mul_left stride (Nat.le_of_not_lt hle)
      omega
    have hbound := hin 1 hone
    rw [one_mul, word_of_lt hstride] at hbound
    omega

/-- With a stride of zero the last sequence word stored is that of every slot. -/
lemma initSequences_of_stride_zero (hstride : queue.slotStrideBytes = 0) {n : ℕ} (hpos : 0 < n)
    (hn : n ≤ 2 ^ 64) (h : queue.initSequences n = .ok queue') (p : ℕ) :
    queue'.loadSequence p = .ok (n - 1) := by
  obtain ⟨n, rfl⟩ := Nat.exists_eq_add_one.mpr hpos
  rw [Nat.add_sub_cancel]
  obtain ⟨mid, hmid, hlast⟩ := initSequences_succ_inv h
  obtain ⟨⟨b, rfl, -⟩, -⟩ := initSequences_inv hmid
  obtain ⟨b', hb', rfl⟩ := storeSequence_inv hlast
  have hload := Block.load_store hb'
  have hsame (p' : ℕ) : queue.slotOffset p' = 0 := by simp [slotOffset, hstride, word]
  rw [length_toBytes] at hload
  show (b'.load (queue.slotOffset p) sequenceBytes).map ofBytes = _
  rw [hsame p, ← hsame n]
  show (b'.load (slotOffset { queue with slotBuffer := b } n) sequenceBytes).map ofBytes = _
  rw [hload, Except.map, ofBytes_toBytes, sequenceBytes]
  congr 1
  exact Nat.mod_eq_of_lt (by omega)

end ByteQueue

/-- The fields of a queue of `2 ^ k` slots that `bc_concurrency_queue_create` has
created. -/
structure Fresh (queue : ByteQueue) (elementSize capacity k : ℕ) : Prop where
  capacity_eq : queue.capacity = 2 ^ k
  capacity_le : capacity ≤ 2 ^ k
  lt_capacity : 2 ^ k < 2 * capacity
  elementSize_eq : queue.elementSize = elementSize
  enqueuePosition : queue.enqueuePosition = 0
  dequeuePosition : queue.dequeuePosition = 0
  closed : queue.closed = false

/-- The slots of a created queue that lie one after the other. -/
structure Usable (queue : ByteQueue) (elementSize k : ℕ) : Prop where
  addressable : queue.Addressable k
  sequence : ∀ i < 2 ^ k, queue.loadSequence i = .ok i
  /-- The payload has room in its slot unless the size of a slot is not a word. -/
  fits_iff : queue.Fits ↔ sequenceBytes + elementSize < 2 ^ 64

/-- The slots of a created queue whose stride has wrapped to zero: they share one
sequence word, in a block that has no room for a payload. -/
structure Collapsed (queue : ByteQueue) (k : ℕ) : Prop where
  k_le : k ≤ 63
  enqueuePosition : queue.enqueuePosition = 0
  dequeuePosition : queue.dequeuePosition = 0
  slotStrideBytes : queue.slotStrideBytes = 0
  sequence : ∀ p, queue.loadSequence p = .ok (2 ^ k - 1)
  size_lt : queue.slotBuffer.size < sequenceBytes + queue.elementSize

/-- What `bc_concurrency_queue_create` leaves behind when it returns true and the block
has the requested size. -/
structure Created (queue : ByteQueue) (elementSize capacity k : ℕ) : Prop
    extends Fresh queue elementSize capacity k, Usable queue elementSize k where
  layout : queue.Layout k

/-- The steps of a creation that returned true. -/
lemma createOn_inv {allocate : ℕ → (bytes : ℕ) → Option (GrantedBlock bytes)}
    {fuel elementSize capacity : ℕ} {queue : ByteQueue}
    (h : createOn allocate fuel elementSize capacity = .ok (some queue)) :
    1 ≤ elementSize ∧ 0 < capacity ∧ ∃ effective slotBuffer,
      (if isPowerOfTwo capacity then .ok capacity else roundUpPowerOfTwo fuel capacity) =
        Except.ok effective ∧
      allocate 1 (word (strideOf elementSize * effective)) = some slotBuffer ∧
      (ByteQueue.blankOn slotBuffer.1 elementSize effective).initSequences effective =
        .ok queue := by
  rw [createOn] at h
  split at h
  · simp at h
  rename_i hpos
  rcases heff : (if isPowerOfTwo capacity then .ok capacity else roundUpPowerOfTwo fuel capacity :
      Except Halt ℕ) with _ | effective
  · simp [heff, Except.bind] at h
  rw [heff, Except.bind] at h
  split at h
  · simp at h
  dsimp only at h
  split at h
  · simp at h
  rename_i slotBuffer hgrant
  rcases hinit : (ByteQueue.blankOn slotBuffer.1 elementSize effective).initSequences effective
    with _ | q
  · simp [hinit, Except.map] at h
  obtain rfl : q = queue := by simpa [hinit, Except.map] using h
  exact ⟨by omega, by omega, effective, slotBuffer, rfl, hgrant, hinit⟩

section Blank

variable {block : Block} {queue : ByteQueue} {elementSize k : ℕ}

/-- With a stride of zero every sequence word is stored at the beginning of the block. -/
lemma collapsed_of_initSequences (hk : k ≤ 63) (hzero : strideOf elementSize = 0)
    (hsize : block.size < sequenceBytes + elementSize)
    (hinit : (ByteQueue.blankOn block elementSize (2 ^ k)).initSequences (2 ^ k) = .ok queue) :
    Collapsed queue k := by
  have hk' : 2 ^ k ≤ 2 ^ 64 := Nat.pow_le_pow_right (by norm_num) (by omega)
  have hsequence := ByteQueue.initSequences_of_stride_zero hzero (Nat.two_pow_pos k) hk' hinit
  obtain ⟨⟨b, rfl, hb⟩, -⟩ := ByteQueue.initSequences_inv hinit
  exact ⟨hk, rfl, rfl, hzero, hsequence, hb.trans_lt hsize⟩

/-- With another stride the slots lie one after the other, as all sequence words have been
stored inside of the block. -/
lemma usable_of_initSequences (hblock : block.size < 2 ^ 63)
    (hbytes : word (strideOf elementSize * 2 ^ k) ≤ block.size)
    (hstride : sequenceBytes ≤ strideOf elementSize)
    (hfits : sequenceBytes + elementSize ≤ strideOf elementSize ↔
      sequenceBytes + elementSize < 2 ^ 64)
    (hinit : (ByteQueue.blankOn block elementSize (2 ^ k)).initSequences (2 ^ k) = .ok queue) :
    Usable queue elementSize k := by
  obtain ⟨⟨b, hqueue, hb⟩, hin⟩ := ByteQueue.initSequences_inv hinit
  have hoff (i : ℕ) (hi : i < 2 ^ k) :
      word (i * strideOf elementSize) + sequenceBytes ≤ block.size := by
    have hslot := hin i hi
    have hmask : (ByteQueue.blankOn block elementSize (2 ^ k)).slotOffset i =
        word ((i &&& (2 ^ k - 1)) * strideOf elementSize) := rfl
    rwa [hmask, Nat.and_two_pow_sub_one_eq_mod, Nat.mod_eq_of_lt hi] at hslot
  have hmul : strideOf elementSize * 2 ^ k < 2 ^ 64 :=
    ByteQueue.mul_lt_of_offsets (Nat.and_le_left.trans_lt (word_lt _)) hblock hoff
  rw [word_of_lt hmul] at hbytes
  have hlay : (ByteQueue.blankOn block elementSize (2 ^ k)).Addressable k :=
    ⟨rfl, rfl, hstride, hbytes, hblock.trans (by norm_num)⟩
  have hsequence := ByteQueue.initSequences_loadSequence hlay le_rfl hinit
  subst hqueue
  exact ⟨hlay.withBuffer hb, hsequence, hfits⟩

end Blank

/-- What a creation that returned true leaves behind. -/
theorem createOn_ok {pool : BlockAllocator} {fuel elementSize capacity : ℕ} {queue : ByteQueue}
    (hsize : elementSize < 2 ^ 64) (hcap : capacity < 2 ^ 64)
    (h : createOn pool.allocate fuel elementSize capacity = .ok (some queue)) :
    ∃ k, Fresh queue elementSize capacity k ∧
      ((Usable queue elementSize k ∧
          (sequenceBytes + elementSize + 63 < 2 ^ 64 ∨ 2 ^ 64 < sequenceBytes + elementSize)) ∨
        (Collapsed queue k ∧ 2 ^ 64 ≤ sequenceBytes + elementSize + 63 ∧
          sequenceBytes + elementSize ≤ 2 ^ 64)) := by
  obtain ⟨hpos, hpos', effective, ⟨block, hbytes⟩, heff, hgrant, hinit⟩ := createOn_inv h
  obtain ⟨k, hk, rfl, hle, hlt⟩ := effectiveCapacity_ok hpos' hcap heff
  have hblock : block.size < 2 ^ 63 := pool.size_lt 1 _ _ hgrant
  refine ⟨k, ?_, ?_⟩
  · obtain ⟨⟨b, rfl, -⟩, -⟩ := ByteQueue.initSequences_inv hinit
    exact ⟨rfl, hle, hlt, rfl, rfl, rfl, rfl⟩
  obtain ⟨hfit, hstride⟩ | ⟨hlarge, hword, hstride⟩ | ⟨hwrap, hstride⟩ :=
    strideOf_cases hpos hsize
  · refine .inl ⟨usable_of_initSequences hblock hbytes ?_ ?_ hinit, .inl hfit⟩
    all_goals
      rw [sequenceBytes]
      omega
  · refine .inr ⟨collapsed_of_initSequences hk hstride ?_ hinit, hlarge, hword⟩
    show block.size < 8 + elementSize
    omega
  · refine .inl ⟨usable_of_initSequences hblock hbytes ?_ ?_ hinit, .inr hwrap⟩
    all_goals
      rw [sequenceBytes]
      omega

/-! ### Blocks of the requested size -/

lemma exactBlocks_eq_some {grants : ℕ → ℕ → Bool} {request bytes : ℕ} {block : GrantedBlock bytes}
    (h : exactBlocks grants request bytes = some block) :
    grants request bytes = true ∧ block = ⟨.zeroed bytes, le_rfl⟩ := by
  rw [exactBlocks] at h
  split at h
  case isTrue hgrant => exact ⟨hgrant, (Option.some.inj h).symm⟩
  case isFalse => cases h

@[simp] lemma exactBlocks_eq_none {grants : ℕ → ℕ → Bool} {request bytes : ℕ} :
    exactBlocks grants request bytes = none ↔ grants request bytes = false := by
  simp [exactBlocks]

lemma blankOn_zeroed (elementSize effectiveCapacity : ℕ) :
    ByteQueue.blankOn (.zeroed (word (strideOf elementSize * effectiveCapacity))) elementSize
      effectiveCapacity = ByteQueue.blank elementSize effectiveCapacity := by
  rw [ByteQueue.blankOn, Block.clear_zeroed]
  rfl

/-- The creation on blocks of the requested size. -/
lemma createWith_eq (grants : ℕ → ℕ → Bool) (fuel elementSize capacity : ℕ) :
    createWith grants fuel elementSize capacity =
      if elementSize = 0 ∨ capacity = 0 then .ok none
      else
        (if isPowerOfTwo capacity then .ok capacity else roundUpPowerOfTwo fuel capacity).bind
          fun effectiveCapacity =>
            if grants 0 queueBytes = false then .ok none
            else if grants 1 (word (strideOf elementSize * effectiveCapacity)) = false then .ok none
            else ((ByteQueue.blank elementSize effectiveCapacity).initSequences
              effectiveCapacity).map some := by
  rw [createWith, createOn]
  congr 2
  ext effectiveCapacity
  simp only [exactBlocks_eq_none]
  cases hgrant : grants 1 (word (strideOf elementSize * effectiveCapacity)) <;>
    simp [exactBlocks, hgrant, blankOn_zeroed]

/-- An allocator whose blocks have the requested size. -/
def Allocator.exact (allocator : Allocator) : BlockAllocator where
  allocate := exactBlocks allocator.grants
  size_lt := fun request bytes _ h => by
    obtain ⟨hgrant, rfl⟩ := exactBlocks_eq_some h
    exact allocator.lt_of_grants request bytes hgrant

lemma create_inv {grants : ℕ → ℕ → Bool} {fuel elementSize capacity : ℕ} {queue : ByteQueue}
    (h : createWith grants fuel elementSize capacity = .ok (some queue)) :
    1 ≤ elementSize ∧ 0 < capacity ∧ ∃ effective,
      (if isPowerOfTwo capacity then .ok capacity else roundUpPowerOfTwo fuel capacity) =
        Except.ok effective ∧
      grants 1 (word (strideOf elementSize * effective)) = true ∧
      (ByteQueue.blank elementSize effective).initSequences effective = .ok queue := by
  obtain ⟨hpos, hpos', effective, block, heff, hblock, hinit⟩ := createOn_inv h
  obtain ⟨hgrant, rfl⟩ := exactBlocks_eq_some hblock
  rw [blankOn_zeroed] at hinit
  exact ⟨hpos, hpos', effective, heff, hgrant, hinit⟩

theorem create_ok {allocator : Allocator} {fuel elementSize capacity : ℕ} {queue : ByteQueue}
    (hsize : elementSize < 2 ^ 64) (hcap : capacity < 2 ^ 64)
    (h : create allocator fuel elementSize capacity = .ok (some queue)) :
    ∃ k, Created queue elementSize capacity k := by
  obtain ⟨-, -, effective, -, -, hinit⟩ := create_inv h
  obtain ⟨⟨b, hqueue, hb⟩, -⟩ := ByteQueue.initSequences_inv hinit
  have hbytes : queue.slotBuffer.size = word (queue.slotStrideBytes * queue.capacity) := by
    rw [hqueue]
    exact hb
  have hcreate : createOn allocator.exact.allocate fuel elementSize capacity = .ok (some queue) := h
  obtain ⟨k, hfresh, ⟨husable, -⟩ | ⟨hcollapsed, -⟩⟩ := createOn_ok hsize hcap hcreate
  · have hlay := husable.addressable
    refine ⟨k, hfresh, husable, hlay, ?_⟩
    rw [hbytes, hlay.capacity, word_of_lt (hlay.size_le.trans_lt hlay.size_lt)]
  · -- a stride of zero asks for a block of no bytes, in which no sequence word is stored
    rw [hcollapsed.slotStrideBytes, Nat.zero_mul, word_of_lt (by norm_num)] at hbytes
    have hload := hcollapsed.sequence 0
    simp [ByteQueue.loadSequence, Block.load, hbytes, sequenceBytes, Except.map] at hload

end BcConcurrency.Queue
