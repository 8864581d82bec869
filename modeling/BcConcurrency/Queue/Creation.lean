import BcConcurrency.Queue.Layout

/-!
# The slots of a created queue

When `bc_concurrency_queue_create` ends, and when the slots that it has laid out have
room for their items.  Nothing checks the sizes: a capacity above `2 ^ 63` is never
reached by doubling, and a stride or a buffer of `2 ^ 64` bytes or more wraps.
-/

namespace BcConcurrency.Queue

/-- The slots of a queue as its creation has to lay them out, in exact arithmetic. -/
structure Sound (queue : ByteQueue) (elementSize capacity : ℕ) : Prop where
  capacity : IsLeast {n | capacity ≤ n ∧ ∃ j, n = 2 ^ j} queue.capacity
  stride_dvd : cachelineBytes ∣ queue.slotStrideBytes
  stride_le : sequenceBytes + elementSize ≤ queue.slotStrideBytes
  size : queue.slotBuffer.size = queue.slotStrideBytes * queue.capacity
  sequence_in : ∀ p < 2 ^ 64, queue.slotOffset p + sequenceBytes ≤ queue.slotBuffer.size
  data_in : ∀ p < 2 ^ 64, queue.slotDataOffset p + elementSize ≤ queue.slotBuffer.size
  disjoint : ∀ p < 2 ^ 64, ∀ p' < 2 ^ 64, p % queue.capacity ≠ p' % queue.capacity →
    queue.slotDataOffset p + elementSize ≤ queue.slotOffset p' ∨
      queue.slotDataOffset p' + elementSize ≤ queue.slotOffset p

/-- The creation ends, and a queue that it creates is sound. -/
def CreatesSoundly (grants : ℕ → ℕ → Bool) (elementSize capacity : ℕ) : Prop :=
  ∃ fuel result, createWith grants fuel elementSize capacity = .ok result ∧
    ∀ queue, result = some queue → Sound queue elementSize capacity

/-- The least multiple of a cache line that has room for a slot. -/
def exactStride (elementSize : ℕ) : ℕ :=
  (sequenceBytes + elementSize + 63) / cachelineBytes * cachelineBytes

/-- The least power of two that is not below a capacity. -/
def exactCapacity (capacity : ℕ) : ℕ := 2 ^ Nat.clog 2 capacity

lemma exactCapacity_isLeast (capacity : ℕ) :
    IsLeast {n | capacity ≤ n ∧ ∃ j, n = 2 ^ j} (exactCapacity capacity) := by
  refine ⟨⟨Nat.le_pow_clog (by norm_num) capacity, _, rfl⟩, ?_⟩
  rintro n ⟨hle, j, rfl⟩
  exact Nat.pow_le_pow_right (by norm_num) ((Nat.clog_le_iff_le_pow (by norm_num)).mpr hle)

lemma isLeast_of_lt {capacity k : ℕ} (hle : capacity ≤ 2 ^ k) (hlt : 2 ^ k < 2 * capacity) :
    IsLeast {n | capacity ≤ n ∧ ∃ j, n = 2 ^ j} (2 ^ k) := by
  refine ⟨⟨hle, k, rfl⟩, ?_⟩
  rintro n ⟨hn, j, rfl⟩
  by_contra hgt
  have hj : j < k := (Nat.pow_lt_pow_iff_right (by norm_num)).mp (not_le.mp hgt)
  have hpow : 2 ^ (j + 1) ≤ 2 ^ k := Nat.pow_le_pow_right (by norm_num) hj
  rw [pow_succ] at hpow
  omega

lemma exactCapacity_eq {capacity k : ℕ} (hle : capacity ≤ 2 ^ k) (hlt : 2 ^ k < 2 * capacity) :
    exactCapacity capacity = 2 ^ k :=
  (exactCapacity_isLeast capacity).unique (isLeast_of_lt hle hlt)

/-- The stride is exact if the exact one is a word. -/
lemma strideOf_eq {elementSize : ℕ} (h : exactStride elementSize < 2 ^ 64) :
    strideOf elementSize = exactStride elementSize := by
  rw [exactStride, sequenceBytes, cachelineBytes] at h
  rw [strideOf, alignUp_cacheline, exactStride, sequenceBytes, cachelineBytes,
    word_of_lt (n := 8 + elementSize) (by omega), word_of_lt (by omega)]

/-- Whatever stride has room for a slot is not below the exact one. -/
lemma exactStride_le {elementSize stride : ℕ} (hdvd : cachelineBytes ∣ stride)
    (hle : sequenceBytes + elementSize ≤ stride) : exactStride elementSize ≤ stride := by
  obtain ⟨m, rfl⟩ := hdvd
  rw [sequenceBytes, cachelineBytes] at hle
  rw [exactStride, sequenceBytes, cachelineBytes]
  omega

/-- The doubling reaches every capacity up to `2 ^ 63`. -/
lemma roundUpLoop_isOk {value : ℕ} (hvalue : value ≤ 2 ^ 63) (fuel k : ℕ) (hk : k ≤ 63)
    (hfuel : 63 < k + fuel) : ∃ result, roundUpLoop value fuel (2 ^ k) = .ok result := by
  induction fuel generalizing k with
  | zero => omega
  | succ fuel ih =>
    rw [roundUpLoop]
    split
    case isTrue hlt =>
      have hlt' : k < 63 := (Nat.pow_lt_pow_iff_right (by norm_num)).mp (hlt.trans_le hvalue)
      have hword : 2 ^ (k + 1) < 2 ^ 64 := Nat.pow_lt_pow_right (by norm_num) (by omega)
      rw [Nat.shiftLeft_eq, pow_one, ← pow_succ, word_of_lt hword]
      exact ih (k + 1) (by omega) (by omega)
    case isFalse => exact ⟨_, rfl⟩

/-- The rounding of the capacity ends, at the least power of two that is not below
it. -/
lemma effectiveCapacity_isOk {capacity : ℕ} (hpos : 0 < capacity) (hle : capacity ≤ 2 ^ 63) :
    (if isPowerOfTwo capacity then .ok capacity else roundUpPowerOfTwo 64 capacity) =
      (.ok (exactCapacity capacity) : Except Halt ℕ) := by
  have hok : ∃ result, (if isPowerOfTwo capacity then .ok capacity
      else roundUpPowerOfTwo 64 capacity : Except Halt ℕ) = .ok result := by
    split
    · exact ⟨_, rfl⟩
    · rw [roundUpPowerOfTwo]
      split
      · exact ⟨_, rfl⟩
      · exact roundUpLoop_isOk hle 64 0 (by omega) (by omega)
  obtain ⟨result, hresult⟩ := hok
  obtain ⟨k, -, rfl, hcap, hlt⟩ := effectiveCapacity_ok hpos (by omega) hresult
  rw [hresult, exactCapacity_eq hcap hlt]

/-! ### The slots of a layout -/

namespace ByteQueue

variable {queue queue' : ByteQueue} {k : ℕ}

/-- Within a layout all sequence words can be stored. -/
lemma exists_initSequences (hlay : Addressable queue k) (n : ℕ) :
    ∃ queue', queue.initSequences n = .ok queue' := by
  induction n with
  | zero => exact ⟨queue, rfl⟩
  | succ n ih =>
    obtain ⟨mid, hmid⟩ := ih
    obtain ⟨⟨b, rfl, hsize⟩, -⟩ := initSequences_inv hmid
    obtain ⟨queue', hstore⟩ := (hlay.withBuffer hsize).exists_storeSequence n n
    exact ⟨queue', by rw [initSequences, hmid]; exact hstore⟩

/-- A layout with aligned slots that have room for an item is sound. -/
lemma Layout.sound {elementSize capacity : ℕ} (hlay : Layout queue k)
    (hcap : IsLeast {n | capacity ≤ n ∧ ∃ j, n = 2 ^ j} (2 ^ k))
    (hdvd : cachelineBytes ∣ queue.slotStrideBytes)
    (hle : sequenceBytes + elementSize ≤ queue.slotStrideBytes) :
    Sound queue elementSize capacity where
  capacity := hlay.capacity ▸ hcap
  stride_dvd := hdvd
  stride_le := hle
  size := by rw [hlay.size, hlay.capacity]
  sequence_in := fun p _ => by
    have hslot := (hlay.slotOffset_eq p).2
    omega
  data_in := fun p _ => by
    have hslot := (hlay.slotOffset_eq p).2
    rw [slotDataOffset]
    omega
  disjoint := fun p _ p' _ hne => by
    rw [hlay.capacity] at hne
    have hslots := hlay.slotOffset_disjoint hne
    rw [slotDataOffset, slotDataOffset]
    omega

end ByteQueue

/-! ### When a creation is sound -/

/-- The buffer has less than `2 ^ 64` bytes in exact arithmetic, or it is not requested
or not granted. -/
def BufferFits (grants : ℕ → ℕ → Bool) (elementSize capacity : ℕ) : Prop :=
  grants 0 queueBytes = false ∨
    grants 1 (word (strideOf elementSize * exactCapacity capacity)) = false ∨
    exactStride elementSize * exactCapacity capacity < 2 ^ 64

/-- A sound creation has doubled its way to the capacity, and the size of its buffer did
not wrap. -/
lemma CreatesSoundly.fits {grants : ℕ → ℕ → Bool} {elementSize capacity : ℕ}
    (h : CreatesSoundly grants elementSize capacity) (hsize : elementSize ≠ 0) (hpos : 0 < capacity)
    (hcap : capacity < 2 ^ 64) : capacity ≤ 2 ^ 63 ∧ BufferFits grants elementSize capacity := by
  obtain ⟨fuel, result, hcreate, hsound⟩ := h
  rw [createWith_eq, if_neg (not_or.mpr ⟨hsize, hpos.ne'⟩)] at hcreate
  rcases heff : (if isPowerOfTwo capacity then .ok capacity
      else roundUpPowerOfTwo fuel capacity : Except Halt ℕ) with _ | effective
  · simp [heff, Except.bind] at hcreate
  obtain ⟨k, hk, rfl, hle, hlt⟩ := effectiveCapacity_ok hpos hcap heff
  have hk : 2 ^ k ≤ 2 ^ 63 := Nat.pow_le_pow_right (by norm_num) hk
  refine ⟨hle.trans hk, ?_⟩
  rw [heff, Except.bind] at hcreate
  rw [BufferFits, exactCapacity_eq hle hlt]
  split at hcreate
  case isTrue hrefused => exact Or.inl hrefused
  split at hcreate
  case isTrue hrefused => exact Or.inr (Or.inl hrefused)
  -- a queue is created, and its buffer has the size that was requested
  right; right
  rcases hinit : (ByteQueue.blank elementSize (2 ^ k)).initSequences (2 ^ k) with _ | queue
  · simp [hinit, Except.map] at hcreate
  rw [hinit] at hcreate
  have hqueue := hsound queue (Except.ok.inj hcreate).symm
  obtain ⟨⟨b, rfl, hb⟩, -⟩ := ByteQueue.initSequences_inv hinit
  have hbytes : b.size = strideOf elementSize * 2 ^ k := hqueue.size
  have hword : b.size < 2 ^ 64 := hb ▸ word_lt _
  calc exactStride elementSize * 2 ^ k ≤ strideOf elementSize * 2 ^ k :=
        Nat.mul_le_mul_right _ (exactStride_le hqueue.stride_dvd hqueue.stride_le)
    _ < 2 ^ 64 := hbytes ▸ hword

/-- With a capacity that doubling reaches and a buffer whose size does not wrap, the
creation ends with a sound queue or is refused its memory. -/
lemma createsSoundly_of_fits {grants : ℕ → ℕ → Bool} {elementSize capacity : ℕ}
    (hzero : ¬ (elementSize = 0 ∨ capacity = 0)) (hle : capacity ≤ 2 ^ 63)
    (hfits : BufferFits grants elementSize capacity) :
    CreatesSoundly grants elementSize capacity := by
  have heff := effectiveCapacity_isOk (Nat.pos_of_ne_zero (not_or.mp hzero).2) hle
  by_cases hrefused : grants 0 queueBytes = false
  · refine ⟨64, none, ?_, by simp⟩
    rw [createWith_eq, if_neg hzero, heff, Except.bind, if_pos hrefused]
  by_cases hrefused' : grants 1 (word (strideOf elementSize * exactCapacity capacity)) = false
  · refine ⟨64, none, ?_, by simp⟩
    rw [createWith_eq, if_neg hzero, heff, Except.bind, if_neg hrefused]
    exact if_pos hrefused'
  have hbytes := (hfits.resolve_left hrefused).resolve_left hrefused'
  have hstride : strideOf elementSize = exactStride elementSize := strideOf_eq
    (lt_of_le_of_lt (Nat.le_mul_of_pos_right _ (Nat.two_pow_pos _)) hbytes)
  have hroom : sequenceBytes + elementSize ≤ strideOf elementSize := by
    rw [hstride, exactStride, sequenceBytes, cachelineBytes]
    omega
  have hword : word (strideOf elementSize * exactCapacity capacity) =
      strideOf elementSize * exactCapacity capacity := word_of_lt (by rw [hstride]; exact hbytes)
  have hlay : (ByteQueue.blank elementSize (exactCapacity capacity)).Layout
      (Nat.clog 2 capacity) :=
    ⟨⟨rfl, rfl, by rw [ByteQueue.blank_slotStrideBytes]; omega, hword.ge, word_lt _⟩, hword⟩
  obtain ⟨queue, hinit⟩ :=
    ByteQueue.exists_initSequences hlay.toAddressable (exactCapacity capacity)
  refine ⟨64, some queue, ?_, ?_⟩
  · rw [createWith_eq, if_neg hzero, heff, Except.bind, if_neg hrefused]
    rw [if_neg hrefused', hinit, Except.map]
  · rintro _ ⟨⟩
    obtain ⟨⟨b, rfl, hb⟩, -⟩ := ByteQueue.initSequences_inv hinit
    refine (hlay.withBuffer hb).sound (exactCapacity_isLeast capacity) ?_ hroom
    show cachelineBytes ∣ strideOf elementSize
    rw [hstride]
    exact Dvd.intro_left _ rfl

/-- A creation ends and lays its slots out soundly exactly if the capacity is at most
`2 ^ 63` and the buffer, if there is one, has less than `2 ^ 64` bytes. -/
theorem create_sound_iff {grants : ℕ → ℕ → Bool} {elementSize capacity : ℕ}
    (hcap : capacity < 2 ^ 64) :
    CreatesSoundly grants elementSize capacity ↔
      elementSize = 0 ∨ capacity = 0 ∨
        capacity ≤ 2 ^ 63 ∧ BufferFits grants elementSize capacity := by
  by_cases hzero : elementSize = 0 ∨ capacity = 0
  · refine iff_of_true ⟨0, none, if_pos hzero, by simp⟩ ?_
    exact hzero.imp_right Or.inl
  obtain ⟨hsize, hpos⟩ := not_or.mp hzero
  rw [or_iff_right hsize, or_iff_right hpos]
  exact ⟨fun h => h.fits hsize (Nat.pos_of_ne_zero hpos) hcap,
    fun h => createsSoundly_of_fits hzero h.1 h.2⟩

/-- A queue of items of three words, with room for five of them. -/
theorem create_sound_five : CreatesSoundly (fun _ _ => true) 24 5 := by
  have hcap : exactCapacity 5 = 2 ^ 3 := exactCapacity_eq (by norm_num) (by norm_num)
  refine (create_sound_iff (by norm_num)).mpr (Or.inr (Or.inr ⟨by norm_num, Or.inr (Or.inr ?_)⟩))
  rw [hcap]
  decide

/-- Above `2 ^ 63` the doubling of the capacity never ends; and with slots of 128 bytes a
capacity of `2 ^ 57` asks for a buffer of no bytes. -/
theorem create_unsound :
    ¬ CreatesSoundly (fun _ _ => true) 8 (2 ^ 63 + 1) ∧
      ¬ CreatesSoundly (fun _ _ => true) 100 (2 ^ 57) := by
  refine ⟨?_, ?_⟩
  · intro h
    have hle := (h.fits (by norm_num) (by norm_num) (by norm_num)).1
    omega
  · intro h
    have hfits := (h.fits (by norm_num) (by norm_num) (by norm_num)).2
    have hcap : exactCapacity (2 ^ 57) = 2 ^ 57 := exactCapacity_eq le_rfl (by norm_num)
    rw [BufferFits, hcap] at hfits
    revert hfits
    decide

end BcConcurrency.Queue
