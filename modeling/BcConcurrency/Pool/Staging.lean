import BcConcurrency.Pool.Creation
import BcConcurrency.Pool.Session

/-!
# Staged tasks

What `bc_concurrency_submit` and `bc_concurrency_submit_batch` put into the staging
array is executed once, by the next call of `bc_concurrency_dispatch_and_wait` that
returns `true`, in even shares.
-/

namespace BcConcurrency.Pool

variable {t n m : ℕ}

/-! ### Submitting -/

/-- A push appends its entry, or it fails and leaves the entries alone. -/
lemma Staging.push_cases (staging : Staging) (memory : Memory) (entry : TaskEntry) :
    ((staging.push memory entry).1 = true ∧
        (staging.push memory entry).2.1.data = staging.data ++ [entry] ∧
        taskEntryBytes * (staging.data.length + 1) < 2 ^ 63) ∨
      ((staging.push memory entry).1 = false ∧
        (staging.push memory entry).2.1.data = staging.data) := by
  rw [push]
  dsimp only
  split
  · exact Or.inr ⟨rfl, rfl⟩
  · split
    · split
      · exact Or.inr ⟨rfl, rfl⟩
      · exact Or.inl ⟨rfl, rfl, by omega⟩
    · exact Or.inl ⟨rfl, rfl, by omega⟩

/-- A batch appends its entries up to the first push that fails. -/
lemma pushAll_data (f : ℕ) (arguments : List ℕ) (staging : Staging) (memory : Memory)
    (hbound : taskEntryBytes * staging.data.length < 2 ^ 63) :
    ∃ pushed, pushed <+: arguments.map (.task f) ∧
      (pushAll f arguments staging memory).2.1.data = staging.data ++ pushed ∧
      ((pushAll f arguments staging memory).1 = true ↔ pushed = arguments.map (.task f)) ∧
      taskEntryBytes * (staging.data ++ pushed).length < 2 ^ 63 := by
  induction arguments generalizing staging memory with
  | nil => exact ⟨[], List.nil_prefix, by simp [pushAll], by simp [pushAll], by simpa using hbound⟩
  | cons argument arguments ih =>
    rw [pushAll]
    have hcases := staging.push_cases memory (.task f argument)
    rcases hpush : staging.push memory (.task f argument) with ⟨_ | _, staging', memory'⟩ <;>
      rw [hpush] at hcases
    · obtain ⟨hfalse, -⟩ | ⟨-, hdata⟩ := hcases
      · cases hfalse
      · exact ⟨[], List.nil_prefix, by simpa using hdata, by simp, by simpa using hbound⟩
    · obtain ⟨-, hdata, hlt⟩ | ⟨hfalse, -⟩ := hcases
      · dsimp only at hdata
        obtain ⟨pushed, hprefix, hdata', hall, hlt'⟩ :=
          ih staging' memory' (by simpa [hdata] using hlt)
        refine ⟨.task f argument :: pushed, ?_, ?_, ?_, ?_⟩
        · simpa [List.prefix_cons_inj] using hprefix
        · simp [hdata', hdata]
        · rw [List.map_cons, List.cons.injEq, and_iff_right rfl]
          exact hall
        · simpa [hdata, List.append_assoc] using hlt'
      · cases hfalse

/-! ### The capacity of the dispatch buffer -/

/-- The loop ends with a capacity that covers the staged tasks. -/
lemma growCapacity_spec {stagingCount : ℕ} (hcount : stagingCount ≤ 2 ^ 59) (fuel cap : ℕ)
    (hpos : 1 ≤ cap) (hcap : cap < 2 * stagingCount) (hfuel : stagingCount ≤ cap + fuel) :
    stagingCount ≤ growCapacity stagingCount fuel cap ∧
      growCapacity stagingCount fuel cap < 2 * stagingCount := by
  induction fuel generalizing cap with
  | zero => exact ⟨by simpa [growCapacity] using hfuel, hcap⟩
  | succ fuel ih =>
    rw [growCapacity]
    split
    · have hword : word (cap * 2) = cap * 2 := word_of_lt (by omega)
      rw [hword]
      exact ih (cap * 2) (by omega) (by omega) (by omega)
    · exact ⟨by omega, hcap⟩

/-- The staged tasks fit into the address space, and the dispatch buffer has room for
as many entries as its capacity says. -/
structure Capacious (context : Context) : Prop where
  staged : taskEntryBytes * context.staging.data.length < 2 ^ 63
  pos : 1 ≤ context.dispatchCapacity
  lt : context.dispatchCapacity < 2 ^ 60
  room : context.dispatchTasks.room = context.dispatchCapacity

lemma Context.Fresh.capacious {context : Context} (hfresh : context.Fresh) : Capacious context where
  staged := by simp [hfresh.staged]
  pos := by simp [hfresh.dispatchCapacity, stagingInitialCapacity]
  lt := by simp [hfresh.dispatchCapacity, stagingInitialCapacity]
  room := hfresh.room.trans hfresh.dispatchCapacity.symm

namespace Capacious

variable {context context' : Context} {memory memory' : Memory} {ok : Bool}

lemma grow (hcap : Capacious context)
    (h : growDispatchTasks context memory context.staging.data.length = (ok, context', memory')) :
    Capacious context' ∧
      (ok = true → context.staging.data.length ≤ context'.dispatchTasks.room) := by
  have hstaged := hcap.staged
  rw [taskEntryBytes] at hstaged
  rw [growDispatchTasks] at h
  split at h
  case isTrue hgt =>
    have hpos := hcap.pos
    have hcount : context.staging.data.length ≤ 2 ^ 59 := by omega
    obtain ⟨hle, hlt⟩ := growCapacity_spec hcount context.staging.data.length
      context.dispatchCapacity hcap.pos (by omega) (by omega)
    dsimp only at h
    split at h
    · cases h
      exact ⟨hcap, by simp⟩
    · cases h
      generalize growCapacity context.staging.data.length context.staging.data.length
        context.dispatchCapacity = newCap at hle hlt
      have hroom : word (newCap * taskEntryBytes) / taskEntryBytes = newCap := by
        have hword : newCap * 16 < 2 ^ 64 := by omega
        rw [taskEntryBytes, word_of_lt hword]
        exact Nat.mul_div_cancel _ (by norm_num)
      exact ⟨⟨hcap.staged, by dsimp only; omega, by dsimp only; omega, hroom⟩,
        fun _ => hle.trans hroom.ge⟩
  case isFalse hle =>
    cases h
    exact ⟨hcap, fun _ => hcap.room ▸ by omega⟩

/-- Every call keeps the buffer capacious. -/
lemma run {host : Host} (hcap : Capacious host.context) (call : Call) :
    Capacious (call.run host).host.context := by
  cases call with
  | registerSlot config =>
    obtain ⟨_, _, _, _, hframe⟩ := registerSlot_frame host.context host.memory config
    show Capacious (registerSlot host.context host.memory config).2.1
    rw [hframe]
    exact ⟨hcap.staged, hcap.pos, hcap.lt, hcap.room⟩
  | submit f a =>
    refine ⟨?_, hcap.pos, hcap.lt, hcap.room⟩
    show taskEntryBytes * (host.context.staging.push host.memory (.task f a)).2.1.data.length < _
    rcases host.context.staging.push_cases host.memory (.task f a) with ⟨-, hdata, hlt⟩ | ⟨-, hdata⟩
    · simpa [hdata] using hlt
    · simpa [hdata] using hcap.staged
  | submitBatch f arguments =>
    simp only [Call.run, submitBatch]
    split
    · exact hcap
    · obtain ⟨pushed, -, hdata, -, hlt⟩ :=
        pushAll_data f arguments host.context.staging host.memory hcap.staged
      refine ⟨?_, hcap.pos, hcap.lt, hcap.room⟩
      simpa [hdata] using hlt
  | dispatchAndWait spawn =>
    have hcases := dispatchAndWait_cases host spawn
    rw [Call.run]
    generalize dispatchAndWait host spawn = o at hcases
    have hspawned : Capacious { host.context with workersSpawned := true } :=
      ⟨hcap.staged, hcap.pos, hcap.lt, hcap.room⟩
    cases hcases with
    | empty | spawnFailed => exact hcap
    | inline => exact ⟨by simp [Staging.clear], hcap.pos, hcap.lt, hcap.room⟩
    | refused _ _ _ hgrow => exact (hspawned.grow hgrow).1
    | round _ _ _ hgrow =>
      have hcap' := (hspawned.grow hgrow).1
      exact ⟨by simp [Staging.clear], hcap'.pos, hcap'.lt, hcap'.room⟩
  | parallelFor range spawn =>
    have hcases := parallelFor_cases host range spawn
    rw [Call.run]
    generalize parallelFor host range spawn = o at hcases
    cases hcases <;> exact ⟨hcap.staged, hcap.pos, hcap.lt, hcap.room⟩

end Capacious

/-! ### The shares -/

section Shares

variable {i : ℕ} {staged cells : List TaskEntry}

/-- The part of the staged entries that worker `i` of `t + 1` gets. -/
def shareOf (staged : List TaskEntry) (t i : ℕ) : List TaskEntry :=
  EvenSplit.slice staged (EvenSplit.part staged.length (t + 1) i)

/-- The parts in order are the staged list. -/
lemma flatMap_shareOf (staged : List TaskEntry) (t : ℕ) :
    (List.range (t + 1)).flatMap (shareOf staged t) = staged :=
  EvenSplit.flatMap_part staged (Nat.succ_pos t)

lemma length_shareOf (hi : i < t + 1) :
    (shareOf staged t i).length = EvenSplit.share staged.length (t + 1) i := by
  rw [shareOf, EvenSplit.length_slice (EvenSplit.part_le hi), EvenSplit.part_eq hi]

/-- The copy in the buffer is cut as the staged list is. -/
lemma workOf_copy {buffer : DispatchBuffer} (hroom : staged.length ≤ buffer.room) (hi : i < t + 1) :
    workOf (buffer.copy staged).cells (EvenSplit.part staged.length (t + 1) i) =
      (shareOf staged t i).flatMap TaskEntry.invocations := by
  have hcells : (buffer.copy staged).cells =
      staged ++ (buffer.cells.drop staged.length).take (buffer.room - staged.length) := by
    rw [DispatchBuffer.copy, List.take_append, List.take_of_length_le hroom]
  rw [workOf, hcells, EvenSplit.slice_append (EvenSplit.part_le hi), shareOf]

/-- An empty part has no work. -/
lemma workOf_eq_nil {part : ℕ × ℕ} (h : part.2 = 0) : workOf cells part = [] := by
  simp [workOf, EvenSplit.slice, h]

lemma filterMap_task_mainPart (t : ℕ) (cells : List TaskEntry) (part : ℕ × ℕ) :
    (mainPart t cells part).filterMap MainOp.task = workOf cells part := by
  rw [mainPart]
  split
  · exact filterMap_task_mainShare _ _
  · rw [workOf_eq_nil (by omega)]
    rfl

/-- In a round worker `i` gets its part of the buffer, and no other worker gets any. -/
lemma worksOf_dispatchRound (n t : ℕ) (cells : List TaskEntry) (i : ℕ) :
    ((dispatchRound n t cells).worksOf i).flatten =
      if i < t then workOf cells (EvenSplit.part n (t + 1) i) else [] := by
  have hworks : (dispatchRound n t cells).worksOf i =
      if i ∈ assigned n t then [workOf cells (EvenSplit.part n (t + 1) i)] else [] :=
    filterMap_map_of_nodup _ (nodup_assigned n t) i
  rw [hworks]
  by_cases hi : i ∈ assigned n t
  · rw [if_pos hi, if_pos (lt_of_mem_assigned hi), List.flatten_singleton]
  · rw [if_neg hi, List.flatten_nil]
    split
    case isTrue hlt =>
      refine (workOf_eq_nil ?_).symm
      by_contra hne
      refine hi (List.mem_filter.mpr ⟨List.mem_range.mpr hlt, ?_⟩)
      simpa using Nat.pos_of_ne_zero hne
    case isFalse => rfl

end Shares

end BcConcurrency.Pool
