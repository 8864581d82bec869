import BcConcurrency.Pool.Staging

/-!
# Batches of submissions

`bc_concurrency_submit_batch` pushes its entries one by one and stops at the first
push that fails.  The entries before it stay staged, so a batch that is submitted
again after a failure may execute them twice.
-/

namespace BcConcurrency.Pool

namespace Staging

/-- How many of the next `j` pushes move to a larger block. -/
def growths (staging : Staging) (j : ℕ) : ℕ :=
  ((List.range j).filter fun i => staging.grows (staging.pushes + i)).length

/-- After `j` accepted pushes the next one fails: the array is as large as an object can
be, or it is full and the pool refuses a larger block. -/
def refuses (staging : Staging) (memory : Memory) (j : ℕ) : Bool :=
  decide (2 ^ 63 ≤ taskEntryBytes * (staging.data.length + j + 1)) ||
    (staging.grows (staging.pushes + j) &&
      !memory.grants (memory.requests + staging.growths j))

variable {staging staging' : Staging} {memory memory' : Memory} {entry : TaskEntry}

lemma growths_zero (staging : Staging) : staging.growths 0 = 0 := rfl

lemma growths_succ (staging : Staging) (j : ℕ) :
    staging.growths (j + 1) = (if staging.grows staging.pushes then 1 else 0) +
      ((List.range j).filter fun i => staging.grows (staging.pushes + 1 + i)).length := by
  have hshift (i : ℕ) : staging.pushes + 1 + i = staging.pushes + (i + 1) := by omega
  simp only [hshift]
  rw [growths, List.range_succ_eq_map, List.filter_cons, List.filter_map, Nat.add_zero]
  split <;> simp [Function.comp_def, Nat.add_comm]

/-- A push fails, or it appends its entry and the later pushes fail as before. -/
lemma push_refuses (staging : Staging) (memory : Memory) (entry : TaskEntry) :
    (staging.refuses memory 0 = true ∧ (staging.push memory entry).1 = false ∧
        (staging.push memory entry).2.1.data = staging.data) ∨
      (staging.refuses memory 0 = false ∧ (staging.push memory entry).1 = true ∧
        (staging.push memory entry).2.1.data = staging.data ++ [entry] ∧
        ∀ j, (staging.push memory entry).2.1.refuses (staging.push memory entry).2.2 j =
          staging.refuses memory (j + 1)) := by
  have hlater {block : ℕ} {heap : Memory} (hgrants : heap.grants = memory.grants)
      (hrequests : heap.requests =
        memory.requests + if staging.grows staging.pushes then 1 else 0) (j : ℕ) :
      refuses ⟨block, staging.data ++ [entry], staging.grows, staging.pushes + 1⟩ heap j =
        staging.refuses memory (j + 1) := by
    have hlen : staging.data.length + 1 + j + 1 = staging.data.length + (j + 1) + 1 := by omega
    have hpush : staging.pushes + 1 + j = staging.pushes + (j + 1) := by omega
    rw [refuses, refuses, growths_succ, growths, hgrants, hrequests, Nat.add_assoc memory.requests]
    simp only [List.length_append, List.length_singleton, hlen, hpush]
  rw [push]
  dsimp only
  by_cases hsize : 2 ^ 63 ≤ taskEntryBytes * (staging.data.length + 1)
  · left
    rw [if_pos hsize]
    exact ⟨by rw [refuses, Nat.add_zero, decide_eq_true hsize, Bool.true_or], rfl, rfl⟩
  rw [if_neg hsize]
  have hrefuses : staging.refuses memory 0 =
      (staging.grows staging.pushes && !memory.grants memory.requests) := by
    rw [refuses, growths_zero, Nat.add_zero, decide_eq_false hsize, Bool.false_or, Nat.add_zero,
      Nat.add_zero]
  rw [hrefuses]
  split
  case isTrue hgrows =>
    rcases memory.allocate_cases (taskEntryBytes * (staging.data.length + 1)) with
      halloc | ⟨hgrant, -, halloc⟩
    · left
      have hrefused : memory.grants memory.requests = false := by
        by_contra hgrant
        rw [Heap.allocate, if_pos ⟨by simpa using hgrant, not_le.mp hsize⟩] at halloc
        cases halloc
      rw [halloc, hgrows, hrefused]
      exact ⟨rfl, rfl, rfl⟩
    · right
      rw [halloc, hgrant, hgrows]
      exact ⟨rfl, rfl, rfl, hlater rfl (by rw [if_pos hgrows]; rfl)⟩
  case isFalse hgrows =>
    right
    rw [Bool.eq_false_iff.mpr hgrows]
    exact ⟨rfl, rfl, rfl, hlater rfl (by rw [if_neg hgrows]; rfl)⟩

end Staging

/-! ### One batch -/

/-- A batch ends with `true` if none of its pushes fails; it then has appended all of
its entries, and in any case it has only appended. -/
lemma pushAll_refuses (f : ℕ) (arguments : List ℕ) (staging : Staging) (memory : Memory) :
    ((pushAll f arguments staging memory).1 = true ↔
        ∀ j < arguments.length, staging.refuses memory j = false) ∧
      ((pushAll f arguments staging memory).1 = true →
        (pushAll f arguments staging memory).2.1.data = staging.data ++ arguments.map (.task f)) ∧
      staging.data <+: (pushAll f arguments staging memory).2.1.data := by
  induction arguments generalizing staging memory with
  | nil => exact ⟨by simp [pushAll], by simp [pushAll], List.prefix_rfl⟩
  | cons argument arguments ih =>
    rw [pushAll]
    have hcases := staging.push_refuses memory (.task f argument)
    rcases hpush : staging.push memory (.task f argument) with ⟨ok, staging', memory'⟩
    rw [hpush] at hcases
    rcases hcases with ⟨hrefuses, hok, hdata⟩ | ⟨hrefuses, hok, hdata, hlater⟩ <;>
      dsimp only at hok hdata <;> subst hok
    · refine ⟨iff_of_false Bool.false_ne_true ?_, by simp, ?_⟩
      · intro hall
        simp [hall 0 (Nat.succ_pos _)] at hrefuses
      · exact hdata ▸ List.prefix_rfl
    · dsimp only at hlater ⊢
      obtain ⟨hiff, happend, hprefix⟩ := ih staging' memory'
      refine ⟨hiff.trans ⟨?_, ?_⟩, ?_, ?_⟩
      · intro hall j hj
        cases j with
        | zero => exact hrefuses
        | succ j => exact hlater j ▸ hall j (by simpa using hj)
      · intro hall j hj
        exact hlater j ▸ hall (j + 1) (by simpa using hj)
      · intro hresult
        rw [happend hresult, hdata, List.append_assoc, List.map_cons, List.singleton_append]
      · exact (hdata ▸ List.prefix_append _ _).trans hprefix

/-- The first push of the batch fails, or none of its pushes does. -/
def Batchable (host : Host) (arguments : List ℕ) : Prop :=
  host.context.staging.refuses host.memory 0 = true ∨
    ∀ j < arguments.length, host.context.staging.refuses host.memory j = false

/-- The batch is staged as a whole, or nothing of it is. -/
structure AllOrNothing (host : Host) (f : ℕ) (arguments : List ℕ) : Prop where
  accepted : (submitBatch host f arguments).result = true →
    (submitBatch host f arguments).host.context.staging.data =
      host.context.staging.data ++ arguments.map (.task f)
  rejected : (submitBatch host f arguments).result = false →
    (submitBatch host f arguments).host.context.staging.data = host.context.staging.data

lemma allOrNothing_iff (host : Host) (f : ℕ) (arguments : List ℕ) :
    AllOrNothing host f arguments ↔ Batchable host arguments := by
  rcases arguments with _ | ⟨argument, arguments⟩
  · exact iff_of_true ⟨fun h => by simp [submitBatch] at h, fun _ => rfl⟩ (Or.inr (by simp))
  have hresult : (submitBatch host f (argument :: arguments)).result =
      (pushAll f (argument :: arguments) host.context.staging host.memory).1 := rfl
  have hstaged : (submitBatch host f (argument :: arguments)).host.context.staging =
      (pushAll f (argument :: arguments) host.context.staging host.memory).2.1 := rfl
  obtain ⟨hiff, happend, -⟩ :=
    pushAll_refuses f (argument :: arguments) host.context.staging host.memory
  constructor
  · intro h
    by_cases hall : ∀ j < (argument :: arguments).length,
        host.context.staging.refuses host.memory j = false
    · exact Or.inr hall
    left
    -- the batch fails, so its first entry has not been staged
    have hfalse := Bool.eq_false_iff.mpr fun h => hall (hiff.mp h)
    have hdata := h.rejected (hresult.trans hfalse)
    rw [hstaged, pushAll] at hdata
    rcases host.context.staging.push_refuses host.memory (.task f argument) with
      ⟨hrefuses, -⟩ | ⟨-, hok, hpushed, -⟩
    · exact hrefuses
    · rcases hpush : host.context.staging.push host.memory (.task f argument) with
        ⟨ok, staging', memory'⟩
      rw [hpush] at hok hpushed hdata
      dsimp only at hok hpushed
      subst hok
      have hprefix := (pushAll_refuses f arguments staging' memory').2.2
      dsimp only at hdata
      rw [hdata, hpushed] at hprefix
      have hlen := hprefix.length_le
      simp at hlen
  · rintro (hrefuses | hall)
    · have hcases := host.context.staging.push_refuses host.memory (.task f argument)
      rcases hpush : host.context.staging.push host.memory (.task f argument) with
        ⟨ok, staging', memory'⟩
      rw [hpush] at hcases
      obtain ⟨-, rfl, hdata⟩ | ⟨haccepts, -⟩ := hcases
      · rw [pushAll, hpush] at hresult hstaged
        exact ⟨fun h => absurd (hresult.symm.trans h) Bool.false_ne_true,
          fun _ => by rw [hstaged]; exact hdata⟩
      · rw [hrefuses] at haccepts
        cases haccepts
    · have htrue := hiff.mpr hall
      exact ⟨fun _ => by rw [hstaged]; exact happend htrue,
        fun h => absurd ((hresult.trans htrue).symm.trans h) Bool.true_eq_false.mp⟩

/-! ### Retrying -/

/-- The state before attempt `n` at a batch. -/
def attempt (host : Host) (f : ℕ) (arguments : List ℕ) (n : ℕ) : Host :=
  (fun host => (submitBatch host f arguments).host)^[n] host

lemma attempt_succ (host : Host) (f : ℕ) (arguments : List ℕ) (n : ℕ) :
    attempt host f arguments (n + 1) =
      (submitBatch (attempt host f arguments n) f arguments).host :=
  Function.iterate_succ_apply' ..

/-- A batch is submitted as a whole or not at all exactly if its first push fails or
none does.  If this is so in every attempt, then the first attempt that succeeds has
staged each entry of the batch once. -/
theorem submit_batch_all_or_nothing_iff (host : Host) (f : ℕ) (arguments : List ℕ) :
    (AllOrNothing host f arguments ↔ Batchable host arguments) ∧
      ∀ n, (∀ m ≤ n, Batchable (attempt host f arguments m) arguments) →
        (∀ m < n, (submitBatch (attempt host f arguments m) f arguments).result = false) →
        (submitBatch (attempt host f arguments n) f arguments).result = true →
        (attempt host f arguments (n + 1)).context.staging.data =
          host.context.staging.data ++ arguments.map (.task f) := by
  refine ⟨allOrNothing_iff host f arguments, ?_⟩
  intro n hall hfailed hok
  have hkept (m : ℕ) (hm : m ≤ n) :
      (attempt host f arguments m).context.staging.data = host.context.staging.data := by
    induction m with
    | zero => rfl
    | succ m ih =>
      have hwhole := (allOrNothing_iff (attempt host f arguments m) f arguments).mpr
        (hall m (by omega))
      rw [attempt_succ, hwhole.rejected (hfailed m (by omega)), ih (by omega)]
  have hwhole := (allOrNothing_iff (attempt host f arguments n) f arguments).mpr (hall n le_rfl)
  rw [attempt_succ, hwhole.accepted hok, hkept n le_rfl]

/-- A context without threads, whose array of staged entries has room for 1024 and holds the
given ones. -/
def nearlyFull (staged : List TaskEntry) : Host where
  context :=
    { block := 0, threads := none, workersBlock := 4, workers := [⟨none⟩], threadCount := 0
      coreOffset := 0, workerStackSize := defaultWorkerStackSize, workersSpawned := false
      staging := ⟨1, staged, fun push => push == 1024 || push == 1025, 1023⟩
      dispatchTasks := ⟨2, stagingInitialCapacity, []⟩, dispatchWork := 3
      dispatchCapacity := stagingInitialCapacity
      slotConfigs := none, slotCount := 0, slotCapacity := 0 }
  memory := ⟨fun request => request != 5, 5, 0, [4, 3, 2, 1, 0], []⟩

/-- After 1023 entries the second push of a batch needs a larger array and fails: the
first entry stays staged, and submitting the batch again stages it a second time. -/
theorem submit_batch_partly_staged :
    let staged := List.replicate 1023 (TaskEntry.task 0 0)
    let failed := submitBatch (nearlyFull staged) 7 [1, 2]
    let retried := submitBatch failed.host 7 [1, 2]
    failed.result = false ∧ ¬ AllOrNothing (nearlyFull staged) 7 [1, 2] ∧
      retried.result = true ∧
      retried.host.context.staging.data = staged ++ [.task 7 1, .task 7 1, .task 7 2] := by
  intro staged
  have hlen : staged.length = 1023 := List.length_replicate
  clear_value staged
  have hfailed : submitBatch (nearlyFull staged) 7 [1, 2] =
      ⟨false, ⟨{ (nearlyFull staged).context with
        staging := ⟨1, staged ++ [.task 7 1], (nearlyFull staged).context.staging.grows, 1025⟩ },
        { (nearlyFull staged).memory with requests := 6, refused := 1 }⟩, []⟩ := by
    simp [submitBatch, pushAll, nearlyFull, Staging.push, Heap.allocate, taskEntryBytes, hlen]
  refine ⟨by rw [hfailed], ?_, ?_, ?_⟩
  · intro h
    have hdata := h.rejected (by rw [hfailed])
    rw [hfailed] at hdata
    simp [nearlyFull] at hdata
  · rw [hfailed]
    simp [submitBatch, pushAll, nearlyFull, Staging.push, Heap.allocate, taskEntryBytes, hlen]
  · rw [hfailed]
    simp [submitBatch, pushAll, nearlyFull, Staging.push, Heap.allocate, taskEntryBytes, hlen]

end BcConcurrency.Pool
