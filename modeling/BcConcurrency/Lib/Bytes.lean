import Mathlib.Tactic

/-!
# Blocks of bytes

A block is what an allocator hands out: a number of bytes.  Every access names
an offset into its block and a length, and an access that leaves the block
faults.  Words are stored as their little-endian bytes.
-/

namespace BcConcurrency

/-- Why a computation has not returned a value. -/
inductive Halt
  | fault
  | outOfFuel
deriving DecidableEq

/-- The `n` low bytes of a value, the least significant first. -/
def toBytes : ℕ → ℕ → List UInt8
  | 0, _ => []
  | n + 1, v => UInt8.ofNat v :: toBytes n (v / 256)

/-- The value with the given bytes, the least significant first. -/
def ofBytes : List UInt8 → ℕ
  | [] => 0
  | b :: bs => b.toNat + 256 * ofBytes bs

@[simp] lemma length_toBytes (n v : ℕ) : (toBytes n v).length = n := by
  induction n generalizing v with
  | zero => rfl
  | succ n ih => simp [toBytes, ih]

/-- Reading the bytes of a value back truncates it. -/
lemma ofBytes_toBytes (n v : ℕ) : ofBytes (toBytes n v) = v % 256 ^ n := by
  induction n generalizing v with
  | zero => simp [toBytes, ofBytes, Nat.mod_one]
  | succ n ih =>
    rw [toBytes, ofBytes, ih, pow_succ', Nat.mod_mul]
    simp

/-- A block of memory. -/
structure Block where
  size : ℕ
  bytes : ℕ → UInt8

namespace Block

/-- A block filled with zero bytes. -/
@[simps] def zeroed (size : ℕ) : Block := ⟨size, fun _ => 0⟩

/-- Zero the first `length` bytes. -/
def clear (block : Block) (length : ℕ) : Block :=
  { block with bytes := fun a => if a < length then 0 else block.bytes a }

@[simp] lemma clear_size (block : Block) (length : ℕ) : (block.clear length).size = block.size := rfl

@[simp] lemma clear_zeroed (size length : ℕ) : (zeroed size).clear length = zeroed size := by
  simp [clear, zeroed]

/-- Read `length` bytes from `offset`. -/
def load (block : Block) (offset length : ℕ) : Except Halt (List UInt8) :=
  if offset + length ≤ block.size then
    .ok ((List.range length).map fun i => block.bytes (offset + i))
  else .error .fault

/-- Write bytes from `offset` on. -/
def store (block : Block) (offset : ℕ) (data : List UInt8) : Except Halt Block :=
  if offset + data.length ≤ block.size then
    .ok { block with bytes := fun a =>
      if offset ≤ a then (data[a - offset]?).getD (block.bytes a) else block.bytes a }
  else .error .fault

variable {block block' : Block} {offset offset' length : ℕ} {data : List UInt8}

lemma store_isOk_iff :
    (∃ block', block.store offset data = .ok block') ↔ offset + data.length ≤ block.size := by
  by_cases h : offset + data.length ≤ block.size <;> simp [store, h]

lemma store_size (h : block.store offset data = .ok block') : block'.size = block.size := by
  by_cases hle : offset + data.length ≤ block.size
  · rw [store, if_pos hle, Except.ok.injEq] at h
    rw [← h]
  · simp [store, hle] at h

/-- A load of the range just written gives the bytes written. -/
lemma load_store (h : block.store offset data = .ok block') :
    block'.load offset data.length = .ok data := by
  by_cases hle : offset + data.length ≤ block.size
  · rw [store, if_pos hle, Except.ok.injEq] at h
    subst h
    rw [load, if_pos hle]
    congr 1
    apply List.ext_getElem
    · simp
    · intro i hi hi'
      simp [hi']
  · simp [store, hle] at h

/-- A load of a range that the store did not touch is unchanged. -/
lemma load_store_of_disjoint (h : block.store offset data = .ok block')
    (hdisj : offset' + length ≤ offset ∨ offset + data.length ≤ offset') :
    block'.load offset' length = block.load offset' length := by
  by_cases hle : offset + data.length ≤ block.size
  · rw [store, if_pos hle, Except.ok.injEq] at h
    subst h
    by_cases hle' : offset' + length ≤ block.size
    · rw [load, if_pos hle', load, if_pos hle']
      congr 1
      apply List.map_congr_left
      intro i hi
      rw [List.mem_range] at hi
      by_cases hoff : offset ≤ offset' + i
      · have hout : data.length ≤ offset' + i - offset := by omega
        simp [hoff, hout]
      · simp [hoff]
    · rw [load, if_neg hle', load, if_neg hle']
  · simp [store, hle] at h

/-- Read one byte. -/
def loadByte (block : Block) (offset : ℕ) : Except Halt UInt8 :=
  if offset < block.size then .ok (block.bytes offset) else .error .fault

/-- A load gives the bytes of its range, if the range lies in the block. -/
lemma load_eq_ok_iff : block.load offset length = .ok data ↔ offset + length ≤ block.size ∧
    data.length = length ∧ ∀ i < length, data[i]? = some (block.bytes (offset + i)) := by
  by_cases h : offset + length ≤ block.size
  · rw [load, if_pos h, Except.ok.injEq, and_iff_right h]
    constructor
    · rintro rfl
      refine ⟨by simp, ?_⟩
      intro i hi
      simp [hi]
    · rintro ⟨hlen, hget⟩
      apply List.ext_getElem
      · simp [hlen]
      · intro i hi hi'
        have hi : i < length := by simpa using hi
        have hbyte := hget i hi
        rw [List.getElem?_eq_getElem hi', Option.some.injEq] at hbyte
        simp [hbyte]
  · simp [load, h]

lemma loadByte_of_load {i : ℕ} {byte : UInt8} (h : block.load offset length = .ok data)
    (hbyte : data[i]? = some byte) : block.loadByte (offset + i) = .ok byte := by
  obtain ⟨hle, hlen, hget⟩ := load_eq_ok_iff.mp h
  have hi : i < length := hlen ▸ (List.getElem?_eq_some_iff.mp hbyte).1
  have hsame : block.bytes (offset + i) = byte := Option.some.inj ((hget i hi).symm.trans hbyte)
  rw [loadByte, if_pos (by omega), hsame]

/-- A store of one byte into the range of a load. -/
lemma load_store_byte {i : ℕ} {byte : UInt8} (h : block.load offset length = .ok data)
    (hi : i < length) (hs : block.store (offset + i) [byte] = .ok block') :
    block'.load offset length = .ok (data.set i byte) := by
  obtain ⟨hle, hlen, hget⟩ := load_eq_ok_iff.mp h
  refine load_eq_ok_iff.mpr ⟨(store_size hs).symm ▸ hle, by simp [hlen], ?_⟩
  rw [store, if_pos (by simp; omega), Except.ok.injEq] at hs
  subst hs
  intro j hj
  by_cases hij : i = j
  · subst hij
    simp [hlen, hi]
  · rw [List.getElem?_set_ne hij, hget j hj]
    by_cases hlt : i ≤ j
    · have hout : offset + j - (offset + i) ≠ 0 := by omega
      simp [hlt, hout]
    · simp [hlt]

end Block

/-! ### Copies -/

/-- A copy in progress: the target agrees with the source outside of the
indices that are left. -/
def Copied (left : List ℕ) (target source : List UInt8) : Prop :=
  target.length = source.length ∧ ∀ i, i ∉ left → target[i]? = source[i]?

namespace Copied

variable {left : List ℕ} {target source : List UInt8}

lemma start {n : ℕ} (htarget : target.length = n)
    (hsource : source.length = n) : Copied (List.range n) target source := by
  refine ⟨htarget.trans hsource.symm, ?_⟩
  intro i hi
  rw [List.mem_range, not_lt] at hi
  rw [List.getElem?_eq_none (htarget.trans_le hi), List.getElem?_eq_none (hsource.trans_le hi)]

/-- The bytes may be copied in any order, and a byte more than once. -/
lemma byte (h : Copied left target source) {i : ℕ} {byte : UInt8}
    (hbyte : source[i]? = some byte) :
    Copied (left.filter (· ≠ i)) (target.set i byte) source := by
  refine ⟨by rw [List.length_set, h.1], ?_⟩
  intro j hj
  by_cases hij : i = j
  · subst hij
    have hi : i < target.length := h.1 ▸ (List.getElem?_eq_some_iff.mp hbyte).1
    rw [List.getElem?_set_self hi, hbyte]
  · rw [List.getElem?_set_ne hij]
    refine h.2 j fun hmem => hj ?_
    simpa [hmem] using Ne.symm hij

lemma finish (h : Copied [] target source) : target = source :=
  List.ext_getElem? fun i => h.2 i (by simp)

end Copied

end BcConcurrency
