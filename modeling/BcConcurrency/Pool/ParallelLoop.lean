import BcConcurrency.Pool.Creation
import BcConcurrency.Pool.Session

/-!
# The parallel loop covers its range

When `bc_concurrency_for` returns `true`, it has called the iteration function once for
every index of its range, and none of the 64-bit values computed on the way wraps.
-/

namespace BcConcurrency.Pool

namespace ForRange

variable (range : ForRange)

/-- The indices of the range. -/
def indices : Finset ℕ :=
  (Finset.Ico range.startIndex range.endIndex).filter fun x => range.stepSize ∣ x - range.startIndex

lemma mem_indices {x : ℕ} :
    x ∈ range.indices ↔ ∃ k, x = range.startIndex + k * range.stepSize ∧ x < range.endIndex := by
  rw [indices, Finset.mem_filter, Finset.mem_Ico]
  constructor
  · rintro ⟨⟨hle, hlt⟩, k, hk⟩
    exact ⟨k, by rw [Nat.mul_comm]; omega, hlt⟩
  · rintro ⟨k, rfl, hlt⟩
    exact ⟨⟨Nat.le_add_right _ _, hlt⟩, k, by rw [Nat.add_sub_cancel_left, Nat.mul_comm]⟩

/-- The calls of the iteration function over the range. -/
def invocations : Multiset Invocation :=
  range.indices.val.map fun x => .iteration range.iterationFunction x range.userArgument

variable {range} in
lemma invocations_of_empty (hempty : range.endIndex ≤ range.startIndex) :
    range.invocations = 0 := by
  rw [invocations, indices, Finset.Ico_eq_empty (not_lt.mpr hempty), Finset.filter_empty]
  rfl

/-- Iteration `k` of the loop, in exact arithmetic. -/
def iteration (k : ℕ) : Invocation :=
  .iteration range.iterationFunction (range.startIndex + k * range.stepSize) range.userArgument

/-! ### Exact arithmetic -/

section Exact

variable {range}

lemma totalIterations_eq (hlt : range.startIndex < range.endIndex) :
    range.totalIterations =
      1 + (range.endIndex - range.startIndex - 1) / range.stepSize := by
  have hend := range.endIndex_lt
  have hdiv := Nat.div_le_self (range.endIndex - range.startIndex - 1) range.stepSize
  exact word_of_lt (by omega)

/-- The iterations are those whose index lies before the end. -/
lemma lt_totalIterations_iff (hstep : 0 < range.stepSize) (hlt : range.startIndex < range.endIndex)
    (k : ℕ) :
    k < range.totalIterations ↔ range.startIndex + k * range.stepSize < range.endIndex := by
  have hle := Nat.le_div_iff_mul_le (x := k) (y := range.endIndex - range.startIndex - 1) hstep
  rw [totalIterations_eq hlt, Nat.add_comm, Nat.lt_succ_iff, hle]
  omega

/-- The indices in the order of the iterations. -/
lemma map_iteration_range (hstep : 0 < range.stepSize) (hlt : range.startIndex < range.endIndex) :
    (((List.range range.totalIterations).map range.iteration : List Invocation) :
        Multiset Invocation) =
      range.indices.val.map fun x => .iteration range.iterationFunction x range.userArgument := by
  have hinj : Function.Injective fun k => range.startIndex + k * range.stepSize := by
    intro k l hkl
    have hmul : k * range.stepSize = l * range.stepSize := by
      simpa using hkl
    exact Nat.eq_of_mul_eq_mul_right hstep hmul
  have hindices : range.indices =
      (Finset.range range.totalIterations).map ⟨fun k => range.startIndex + k * range.stepSize, hinj⟩ := by
    ext x
    rw [mem_indices, Finset.mem_map]
    constructor
    · rintro ⟨k, rfl, hend⟩
      exact ⟨k, Finset.mem_range.mpr ((lt_totalIterations_iff hstep hlt k).mpr hend), rfl⟩
    · rintro ⟨k, hk, rfl⟩
      exact ⟨k, rfl, (lt_totalIterations_iff hstep hlt k).mp (Finset.mem_range.mp hk)⟩
  rw [hindices, Finset.map_val, Multiset.map_map, Finset.range_val, ← Multiset.coe_range,
    Multiset.map_coe]
  rfl

/-- The main thread calls the function with exact indices. -/
lemma iterations_eq (hstep : 0 < range.stepSize) (hlt : range.startIndex < range.endIndex)
    {count : ℕ} (hcount : count ≤ range.totalIterations) :
    range.iterations count = (List.range count).map range.iteration := by
  refine List.map_congr_left ?_
  intro k hk
  have hend := (lt_totalIterations_iff hstep hlt k).mp
    ((List.mem_range.mp hk).trans_le hcount)
  rw [iteration, word_of_lt (hend.trans range.endIndex_lt)]

/-- The chunk for a part of the iterations, in exact arithmetic. -/
def chunkAt (range : ForRange) (part : ℕ × ℕ) : ForChunk where
  iterationFunction := range.iterationFunction
  userArgument := range.userArgument
  startIterationIndex := range.startIndex + part.1 * range.stepSize
  iterationCount := part.2
  stepSize := range.stepSize

/-- The number of iterations of part `i` of `m`. -/
abbrev sizeOfPart (range : ForRange) (m i : ℕ) : ℕ := EvenSplit.share range.totalIterations m i

lemma share_lt (i : ℕ) {m : ℕ} :
    range.totalIterations / m + (if i < range.totalIterations % m then 1 else 0) < 2 ^ 64 := by
  have hlt : range.totalIterations < 2 ^ 64 := word_lt _
  have hdiv := Nat.div_le_self range.totalIterations m
  have hmod := Nat.div_add_mod range.totalIterations m
  split
  · rcases Nat.eq_zero_or_pos m with rfl | hm
    · simp
    · have : range.totalIterations / m ≤ m * (range.totalIterations / m) :=
        Nat.le_mul_of_pos_left _ hm
      omega
  · omega

lemma mainCount_eq (m : ℕ) : mainCount range.totalIterations m = range.sizeOfPart m 0 :=
  word_of_lt (share_lt 0)

/-- The loop that fills the chunks computes the exact values. -/
lemma chunks_eq (hstep : 0 < range.stepSize) (hlt : range.startIndex < range.endIndex) {m : ℕ}
    (hpos : ∀ i, 0 < range.sizeOfPart m i) (i remaining offset : ℕ)
    (htotal : offset + ∑ j ∈ Finset.range remaining, range.sizeOfPart m (i + 1 + j) ≤
      range.totalIterations) :
    range.chunks range.totalIterations m i remaining offset =
      (EvenSplit.layout (range.sizeOfPart m) (i + 1) remaining offset).map range.chunkAt := by
  induction remaining generalizing i offset with
  | zero => rfl
  | succ remaining ih =>
    have hcount : word (range.totalIterations / m +
        if i + 1 < range.totalIterations % m then 1 else 0) = range.sizeOfPart m (i + 1) :=
      word_of_lt (share_lt (i + 1))
    rw [Finset.sum_range_succ', Nat.add_zero] at htotal
    have hfirst := hpos (i + 1)
    have hrest : offset + range.sizeOfPart m (i + 1) +
        ∑ j ∈ Finset.range remaining, range.sizeOfPart m (i + 1 + 1 + j) ≤
          range.totalIterations := by
      have hsum : ∑ j ∈ Finset.range remaining, range.sizeOfPart m (i + 1 + 1 + j) =
          ∑ j ∈ Finset.range remaining, range.sizeOfPart m (i + 1 + (j + 1)) :=
        Finset.sum_congr rfl fun j _ => by congr 1; omega
      omega
    have htotal64 : range.totalIterations < 2 ^ 64 := word_lt _
    -- the first iteration of the chunk is below `end_index`, so none of the products wraps
    have hstart := (lt_totalIterations_iff hstep hlt offset).mp (by omega)
    have hend := range.endIndex_lt
    have hmul : word (offset * range.stepSize) = offset * range.stepSize := word_of_lt (by omega)
    have hindex : word (range.startIndex + offset * range.stepSize) =
        range.startIndex + offset * range.stepSize := word_of_lt (by omega)
    have hnext : word (offset + range.sizeOfPart m (i + 1)) = offset + range.sizeOfPart m (i + 1) :=
      word_of_lt (by omega)
    rw [chunks, EvenSplit.layout, List.map_cons]
    rw [hcount, hmul, hindex, hnext, ih (i + 1) _ hrest]
    rfl

/-- The part of the iterations that the main thread (part 0) or a worker runs. -/
def partOf (range : ForRange) (m i : ℕ) : List Invocation :=
  (EvenSplit.slice (List.range range.totalIterations)
    (EvenSplit.part range.totalIterations m i)).map range.iteration

/-- The parts in order are the whole loop. -/
lemma flatMap_partOf {m : ℕ} (hm : 0 < m) :
    (List.range m).flatMap (range.partOf m) =
      (List.range range.totalIterations).map range.iteration := by
  have hparts := EvenSplit.flatMap_part (List.range range.totalIterations) hm
  rw [List.length_range] at hparts
  rw [← hparts, List.map_flatMap]
  rfl

section Parts

variable {t : ℕ} (hstep : 0 < range.stepSize) (hlt : range.startIndex < range.endIndex)
  (htotal : t < range.totalIterations)

include hstep hlt htotal

/-- On the parallel path every worker gets its exact chunk, none of them empty. -/
lemma workerChunks_eq :
    range.workerChunks t = (List.range t).map fun i =>
      range.chunkAt (EvenSplit.part range.totalIterations (t + 1) (i + 1)) := by
  have hpos : ∀ i, 0 < range.sizeOfPart (t + 1) i := EvenSplit.share_pos (Nat.succ_pos t) htotal
  have hsum : range.sizeOfPart (t + 1) 0 +
      ∑ j ∈ Finset.range t, range.sizeOfPart (t + 1) (0 + 1 + j) = range.totalIterations := by
    have hwhole := EvenSplit.sum_share_eq (n := range.totalIterations) (Nat.succ_pos t)
    rw [Finset.sum_range_succ'] at hwhole
    rw [Nat.add_comm, ← hwhole]
    congr 1
    exact Finset.sum_congr rfl fun j _ => by congr 1; omega
  rw [workerChunks, mainCount_eq, chunks_eq hstep hlt hpos 0 t _ hsum.le]
  have htail := EvenSplit.layout_tail range.totalIterations t
  rw [show range.sizeOfPart (t + 1) = EvenSplit.share range.totalIterations (t + 1) from rfl, htail,
    List.map_map]
  rfl

omit htotal in
/-- A chunk runs its part of the iterations. -/
lemma invocations_chunkAt {part : ℕ × ℕ} (hpart : part.1 + part.2 ≤ range.totalIterations) :
    (TaskEntry.chunkRunner (range.chunkAt part)).invocations =
      (EvenSplit.slice (List.range range.totalIterations) part).map range.iteration := by
  rw [EvenSplit.slice_range hpart, List.map_map]
  refine List.map_congr_left ?_
  intro j hj
  have hlast := (lt_totalIterations_iff hstep hlt (part.1 + j)).mp
    (by have := List.mem_range.mp hj; simp only [chunkAt] at this; omega)
  have hindex : range.startIndex + part.1 * range.stepSize + j * range.stepSize =
      range.startIndex + (part.1 + j) * range.stepSize := by ring
  simp only [chunkAt, Function.comp_apply, iteration, hindex]
  rw [word_of_lt (hlast.trans range.endIndex_lt)]

omit htotal in
/-- The main thread runs part 0. -/
lemma iterations_mainCount :
    range.iterations (mainCount range.totalIterations (t + 1)) = range.partOf (t + 1) 0 := by
  have hpart := EvenSplit.part_eq (n := range.totalIterations) (Nat.succ_pos t)
  rw [Finset.sum_range_zero] at hpart
  have hle := EvenSplit.part_le (n := range.totalIterations) (Nat.succ_pos t)
  rw [hpart] at hle
  rw [mainCount_eq, partOf, hpart, EvenSplit.slice_range hle, List.map_map,
    iterations_eq hstep hlt (by simpa using hle)]
  refine List.map_congr_left ?_
  intro j _
  simp

lemma assignments_eq :
    range.assignments t = (List.range t).map fun i => (i, range.partOf (t + 1) (i + 1)) := by
  ext i : 1
  rw [assignments, workerChunks_eq hstep hlt htotal, List.getElem?_map, List.getElem?_zipIdx,
    List.getElem?_map, List.getElem?_map]
  by_cases hi : i < t
  · rw [List.getElem?_range hi]
    simp only [Option.map_some, Nat.zero_add, Option.some.injEq, Prod.mk.injEq, true_and]
    exact invocations_chunkAt hstep hlt (EvenSplit.part_le (by omega))
  · rw [List.getElem?_eq_none (by simpa using hi)]
    rfl

lemma worksOf_round (i : ℕ) :
    ((range.round t).worksOf i).flatten = if i < t then range.partOf (t + 1) (i + 1) else [] := by
  have hworks : (range.round t).worksOf i =
      if i ∈ List.range t then [range.partOf (t + 1) (i + 1)] else [] := by
    rw [Round.worksOf, show (range.round t).assignments = range.assignments t from rfl,
      assignments_eq hstep hlt htotal]
    exact filterMap_map_of_nodup _ List.nodup_range i
  rw [hworks]
  by_cases hi : i < t
  · rw [if_pos (List.mem_range.mpr hi), if_pos hi, List.flatten_singleton]
  · rw [if_neg (fun h => hi (List.mem_range.mp h)), if_neg hi, List.flatten_nil]

end Parts

end Exact

end ForRange

/-! ### The result -/

/-- In a loop over a range that is not empty no value wraps. -/
structure LoopExact (t : ℕ) (range : ForRange) : Prop where
  total : range.totalIterations = 1 + (range.endIndex - range.startIndex - 1) / range.stepSize
  /-- The indices of the iterations fit into a word. -/
  index_lt : ∀ k < range.totalIterations, range.startIndex + k * range.stepSize < 2 ^ 64
  /-- On the parallel path the chunks are those of an even split in exact arithmetic. -/
  chunks : t < range.totalIterations → range.workerChunks t = (List.range t).map fun i =>
    range.chunkAt (EvenSplit.part range.totalIterations (t + 1) (i + 1))
  chunk_nonempty : t < range.totalIterations → ∀ chunk ∈ range.workerChunks t,
    0 < chunk.iterationCount
  chunk_index_lt : t < range.totalIterations → ∀ chunk ∈ range.workerChunks t,
    ∀ j < chunk.iterationCount, chunk.startIterationIndex + j * chunk.stepSize < 2 ^ 64

/-- A loop that returned `true` has covered its range. -/
structure LoopSound (t : ℕ) (range : ForRange) (h : List (Event Invocation)) : Prop where
  /-- The function was called once for every index. -/
  covers : (executed h : Multiset Invocation) =
    range.indices.val.map fun x => .iteration range.iterationFunction x range.userArgument
  indices : ∀ x, x ∈ range.indices ↔
    ∃ k, x = range.startIndex + k * range.stepSize ∧ x < range.endIndex
  /-- These are the calls that the inline path makes. -/
  inline : range.startIndex < range.endIndex →
    (executed h : Multiset Invocation) = range.iterations range.totalIterations
  /-- No call was begun but those that were finished. -/
  finished : ∀ thread, begun thread h = ran thread h
  exact : range.startIndex < range.endIndex → LoopExact t range

lemma loopExact {range : ForRange} (t : ℕ) (hstep : 0 < range.stepSize)
    (hlt : range.startIndex < range.endIndex) : LoopExact t range where
  total := ForRange.totalIterations_eq hlt
  index_lt := fun k hk =>
    ((ForRange.lt_totalIterations_iff hstep hlt k).mp hk).trans range.endIndex_lt
  chunks := ForRange.workerChunks_eq hstep hlt
  chunk_nonempty := by
    intro htotal chunk hchunk
    rw [ForRange.workerChunks_eq hstep hlt htotal] at hchunk
    obtain ⟨i, hi, rfl⟩ := List.mem_map.mp hchunk
    have hi := List.mem_range.mp hi
    simp only [ForRange.chunkAt]
    rw [EvenSplit.part_eq (by omega)]
    exact EvenSplit.share_pos (Nat.succ_pos t) htotal _
  chunk_index_lt := by
    intro htotal chunk hchunk j hj
    rw [ForRange.workerChunks_eq hstep hlt htotal] at hchunk
    obtain ⟨i, hi, rfl⟩ := List.mem_map.mp hchunk
    have hi := List.mem_range.mp hi
    have hle := EvenSplit.part_le (n := range.totalIterations) (m := t + 1) (i := i + 1) (by omega)
    generalize EvenSplit.part range.totalIterations (t + 1) (i + 1) = part at hle hj
    -- the iteration is one of those of the range, hence below `end_index`
    have hlast := (ForRange.lt_totalIterations_iff hstep hlt (part.1 + j)).mp
      (by simp only [ForRange.chunkAt] at hj; omega)
    have hend := range.endIndex_lt
    calc range.startIndex + part.1 * range.stepSize + j * range.stepSize
        = range.startIndex + (part.1 + j) * range.stepSize := by ring
      _ < 2 ^ 64 := hlast.trans hend

/-- The script of a loop that returns `true` makes the calls of the range, and that of
any other loop none. -/
lemma tasksOf_parallelFor (host : Host) (range : ForRange) (spawn : SpawnOutcome) :
    tasksOf host.context.threadCount (parallelFor host range spawn).script =
      if (parallelFor host range spawn).result then range.invocations else 0 := by
  have hcases := parallelFor_cases host range spawn
  generalize parallelFor host range spawn = o at hcases
  cases hcases with
  | zeroStep => exact tasksOf_of_not_dispatch fun _ => rfl
  | empty _ hempty =>
    rw [if_pos rfl, ForRange.invocations_of_empty hempty, tasksOf_of_not_dispatch fun _ => rfl]
    rfl
  | inline hstep hlt =>
    rw [if_pos rfl, tasksOf_of_not_dispatch (filterMap_dispatchTo_of_isLocal
        fun _ => isLocal_of_mem_mainShare), filterMap_task_mainShare,
      ForRange.iterations_eq hstep hlt le_rfl]
    exact ForRange.map_iteration_range hstep hlt
  | spawnFailed => simp [tasksOf]
  | refused _ _ _ _ hstart =>
    rw [tasksOf_of_not_dispatch hstart.filterMap_dispatchTo, hstart.filterMap_task]
    rfl
  | @round start _ _ hstep hlt ht htotal hstart =>
    have hworks (i : ℕ) : ((start ++ (range.round host.context.threadCount).script).filterMap
        (MainOp.dispatchTo i)).flatten = if i < host.context.threadCount then
          range.partOf (host.context.threadCount + 1) (i + 1) else [] := by
      rw [List.filterMap_append, hstart.filterMap_dispatchTo, List.nil_append,
        Round.filterMap_script, ForRange.worksOf_round hstep hlt htotal]
    have hmain : (start ++ (range.round host.context.threadCount).script).filterMap MainOp.task =
        range.partOf (host.context.threadCount + 1) 0 := by
      rw [List.filterMap_append, hstart.filterMap_task, List.nil_append,
        Round.filterMap_task_script, ← ForRange.iterations_mainCount hstep hlt]
      exact filterMap_task_mainShare _ _
    have hworkers : ∑ i ∈ Finset.range host.context.threadCount,
        (((start ++ (range.round host.context.threadCount).script).filterMap
          (MainOp.dispatchTo i)).flatten : Multiset Invocation) =
        ∑ i ∈ Finset.range host.context.threadCount,
          (range.partOf (host.context.threadCount + 1) (i + 1) : Multiset Invocation) :=
      Finset.sum_congr rfl fun i hi => by rw [hworks, if_pos (Finset.mem_range.mp hi)]
    rw [if_pos rfl, tasksOf, hmain, hworkers, ← coe_flatMap_range, Multiset.coe_add,
      ForRange.invocations, ← ForRange.map_iteration_range hstep hlt,
      ← ForRange.flatMap_partOf (Nat.succ_pos host.context.threadCount), List.range_succ_eq_map,
      List.flatMap_cons, List.flatMap_map]

lemma stepSize_pos_of_result {host : Host} {range : ForRange} {spawn : SpawnOutcome}
    (hresult : (parallelFor host range spawn).result = true) : 0 < range.stepSize := by
  by_contra hzero
  simp [parallelFor, Nat.eq_zero_of_not_pos hzero] at hresult

/-- In every session after a successful creation and in every interleaving, a parallel
loop that returns `true` has covered its range. -/
theorem parallel_loop_covers {memory memory' : Memory} {physicalCoreCount : ℕ}
    {config : Option Config} {stagingGrows memoryGrants : ℕ → Bool} {context : Context}
    (hcreate : create memory physicalCoreCount config stagingGrows memoryGrants =
      (some context, memory'))
    {records : List Record} {host : Host} {s : State Invocation}
    (hsession : Session ⟨context, memory'⟩ records host s) {r : Record} (hr : r ∈ records)
    {range : ForRange} {spawn : SpawnOutcome} (hcall : r.call = .parallelFor range spawn)
    (hresult : r.outcome.result = true) : LoopSound context.threadCount range r.history := by
  have hperforms := hsession.performs (create_ok hcreate).1.workersSpawned hr
  obtain ⟨host', call, h⟩ := r
  obtain rfl : call = .parallelFor range spawn := hcall
  have hstep := stepSize_pos_of_result hresult
  have hexecuted := hperforms.executed_eq.trans (tasksOf_parallelFor host' range spawn)
  rw [show (parallelFor host' range spawn).result = true from hresult, if_pos rfl] at hexecuted
  refine ⟨hexecuted, fun x => range.mem_indices, ?_, hperforms.begun,
    fun hlt => loopExact _ hstep hlt⟩
  intro hlt
  rw [ForRange.iterations_eq hstep hlt le_rfl]
  exact hexecuted.trans (ForRange.map_iteration_range hstep hlt).symm

/-- Eight iterations with stride 3 on one worker and the main thread. -/
theorem parallel_loop_covers_stride :
    ∃ context memory',
      create ⟨fun _ => true, 0, 0, [], []⟩ 2 none (fun _ => false) (fun _ => true) =
        (some context, memory') ∧
      let range : ForRange := ⟨5, 27, 3, 1, 2, by decide, by decide, by decide⟩
      let main := List.replicate 20 (Move.run .main)
      let worker := List.replicate 20 (Move.run (.worker 0))
      let spawn : SpawnOutcome := ⟨true, true, fun _ => true⟩
      let result := play ⟨context, memory'⟩ (State.start [])
        [(.parallelFor range spawn, main ++ worker ++ main)]
      result.1.map (fun r => (executed r.history).length) = [8] ∧
        ∀ r ∈ result.1, LoopSound context.threadCount range r.history := by
  have hcreate : create ⟨fun _ => true, 0, 0, [], []⟩ 2 none (fun _ => false) (fun _ => true) =
    (some _, _) := rfl
  refine ⟨_, _, hcreate, by decide, ?_⟩
  intro r hr
  have hrecord := List.mem_singleton.mp hr
  exact parallel_loop_covers hcreate (session_play _ _ (by decide)) hr
    (by rw [hrecord]) (by rw [hrecord]; decide)

end BcConcurrency.Pool
