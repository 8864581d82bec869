import Mathlib.Tactic

/-!
# Even splits

`n` items in `m` parts, in order, the first `n % m` parts one item longer than
the others.  The parts are laid out one after the other by a loop that carries
the offset; together they are the whole.
-/

namespace BcConcurrency.EvenSplit

variable {α : Type*} {n m : ℕ}

/-- The size of part `i`. -/
def share (n m i : ℕ) : ℕ := n / m + if i < n % m then 1 else 0

/-- The sizes of two parts differ by at most one. -/
lemma share_le (n m i j : ℕ) : share n m i ≤ share n m j + 1 := by
  unfold share
  split <;> split <;> omega

lemma share_pos (hm : 0 < m) (hmn : m ≤ n) (i : ℕ) : 0 < share n m i := by
  have : 0 < n / m := Nat.div_pos hmn hm
  unfold share
  omega

/-- The size of the first `k` parts together. -/
lemma sum_share (n m k : ℕ) :
    ∑ i ∈ Finset.range k, share n m i = k * (n / m) + min k (n % m) := by
  induction k with
  | zero => simp
  | succ k ih =>
    rw [Finset.sum_range_succ, ih, share, Nat.succ_mul]
    split <;> omega

/-- The parts make up the whole. -/
lemma sum_share_eq (hm : 0 < m) : ∑ i ∈ Finset.range m, share n m i = n := by
  rw [sum_share, Nat.min_eq_right (Nat.mod_lt n hm).le]
  exact Nat.div_add_mod n m

/-- The offsets and sizes of parts `i, …, i + k - 1`, as a loop lays them out from an
offset on. -/
def layout (count : ℕ → ℕ) : ℕ → ℕ → ℕ → List (ℕ × ℕ)
  | _, 0, _ => []
  | i, k + 1, offset => (offset, count i) :: layout count (i + 1) k (offset + count i)

@[simp] lemma length_layout (count : ℕ → ℕ) (i k offset : ℕ) :
    (layout count i k offset).length = k := by
  induction k generalizing i offset with
  | zero => rfl
  | succ k ih => simp [layout, ih]

lemma layout_eq_map (count : ℕ → ℕ) (i k offset : ℕ) :
    layout count i k offset = (List.range k).map fun j =>
      (offset + ∑ l ∈ Finset.range j, count (i + l), count (i + j)) := by
  induction k generalizing i offset with
  | zero => rfl
  | succ k ih =>
    rw [layout, ih, List.range_succ_eq_map, List.map_cons, List.map_map]
    congr 1
    apply List.map_congr_left
    intro j _
    simp only [Function.comp_apply, Finset.sum_range_succ', Nat.add_zero, Prod.mk.injEq]
    refine ⟨?_, by congr 1; omega⟩
    rw [Nat.add_assoc, Nat.add_comm (count i)]
    congr 2
    exact Finset.sum_congr rfl fun l _ => by congr 1; omega

/-- The slice of a list at an offset. -/
def slice (l : List α) (part : ℕ × ℕ) : List α := (l.drop part.1).take part.2

lemma length_slice {l : List α} {part : ℕ × ℕ} (h : part.1 + part.2 ≤ l.length) :
    (slice l part).length = part.2 := by
  rw [slice, List.length_take, List.length_drop]
  omega

/-- A slice does not see what comes behind it. -/
lemma slice_append {l l' : List α} {part : ℕ × ℕ} (h : part.1 + part.2 ≤ l.length) :
    slice (l ++ l') part = slice l part := by
  have hoffset : part.1 ≤ l.length := by omega
  have hsize : part.2 ≤ (l.drop part.1).length := by
    rw [List.length_drop]
    omega
  rw [slice, List.drop_append_of_le_length hoffset, List.take_append_of_le_length hsize, slice]

/-- The slices of a layout are the consecutive parts of a list. -/
lemma flatten_slices (l : List α) (count : ℕ → ℕ) (i k offset : ℕ) :
    ((layout count i k offset).map (slice l)).flatten =
      (l.drop offset).take (∑ j ∈ Finset.range k, count (i + j)) := by
  induction k generalizing i offset with
  | zero => simp [layout]
  | succ k ih =>
    rw [layout, List.map_cons, List.flatten_cons, ih, slice, Finset.sum_range_succ',
      Nat.add_comm _ (count (i + 0)), Nat.add_zero, List.take_add, List.drop_drop]
    congr 3
    ext j : 1
    rw [Nat.add_right_comm, Nat.add_assoc]

/-- The sum of the first sizes is at most the whole. -/
lemma sum_share_le (hm : 0 < m) {k : ℕ} (hk : k ≤ m) : ∑ i ∈ Finset.range k, share n m i ≤ n :=
  calc ∑ i ∈ Finset.range k, share n m i
      ≤ ∑ i ∈ Finset.range m, share n m i :=
        Finset.sum_le_sum_of_subset (Finset.range_subset_range.mpr hk)
    _ = n := sum_share_eq hm

/-- An even split of a list is the list. -/
theorem flatten_even (l : List α) (hm : 0 < m) :
    ((layout (share l.length m) 0 m 0).map (slice l)).flatten = l := by
  rw [flatten_slices, List.drop_zero]
  simp [sum_share_eq hm]

/-- The offset and the size of part `i` of an even split. -/
def part (n m i : ℕ) : ℕ × ℕ := (layout (share n m) 0 m 0).getD i (0, 0)

lemma layout_eq_map_part (n m : ℕ) : layout (share n m) 0 m 0 = (List.range m).map (part n m) := by
  ext i : 1
  by_cases hi : i < m
  · simp [part, List.getD_eq_getElem?_getD, hi]
  · simp [hi]

lemma part_eq {i : ℕ} (hi : i < m) : part n m i = (∑ j ∈ Finset.range i, share n m j, share n m i) := by
  rw [part, layout_eq_map]
  simp [List.getD_eq_getElem?_getD, hi]

/-- A part lies within the whole. -/
lemma part_le {i : ℕ} (hi : i < m) : (part n m i).1 + (part n m i).2 ≤ n := by
  rw [part_eq hi, ← Finset.sum_range_succ]
  exact sum_share_le (by omega) hi

/-- The parts in order are the whole. -/
theorem flatMap_part (l : List α) (hm : 0 < m) :
    (List.range m).flatMap (fun i => slice l (part l.length m i)) = l := by
  have heven := flatten_even l hm
  rwa [layout_eq_map_part, List.map_map, ← List.flatMap_def] at heven

/-- The layout without part 0. -/
lemma layout_tail (n m : ℕ) :
    layout (share n (m + 1)) 1 m (share n (m + 1) 0) =
      (List.range m).map fun i => part n (m + 1) (i + 1) := by
  have hparts := layout_eq_map_part n (m + 1)
  rw [layout, List.range_succ_eq_map, List.map_cons, List.map_map] at hparts
  have htail := (List.cons.inj hparts).2
  rwa [Nat.zero_add (share n (m + 1) 0)] at htail

/-- A slice of the numbers below `n`. -/
lemma slice_range {part : ℕ × ℕ} (h : part.1 + part.2 ≤ n) :
    slice (List.range n) part = (List.range part.2).map (part.1 + ·) := by
  ext i : 1
  rw [slice, List.getElem?_take, List.getElem?_map]
  by_cases hi : i < part.2
  · rw [if_pos hi, List.getElem?_drop, List.getElem?_range (by omega), List.getElem?_range hi,
      Option.map_some]
  · rw [if_neg hi, List.getElem?_eq_none (by simpa using hi), Option.map_none]

end BcConcurrency.EvenSplit
