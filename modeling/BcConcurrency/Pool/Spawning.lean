import BcConcurrency.Pool.Session

/-!
# Calls that start the threads

The first call that needs the workers starts their threads.  If one of them cannot be
created, those that were started are told to stop and joined, and the call fails.
-/

namespace BcConcurrency.Pool

variable {t : ℕ}

/-- A call that fails in `spawn_workers`, with the number of threads that it started. -/
def Host.failedSpawn (host : Host) (call : Call) : Option ℕ :=
  let threadCount := host.context.threadCount
  let failed (spawn : SpawnOutcome) : Option ℕ :=
    if host.context.workersSpawned = false ∧ spawn.started threadCount < threadCount then
      some (spawn.started threadCount)
    else none
  match call with
  | .dispatchAndWait spawn => if 2 ≤ host.context.staging.data.length then failed spawn else none
  | .parallelFor range spawn =>
      if 0 < range.stepSize ∧ range.startIndex < range.endIndex ∧
          threadCount < range.totalIterations then failed spawn
      else none
  | .registerSlot _ | .submit _ _ | .submitBatch _ _ => none

/-! ### Scripts without stops -/

lemma not_stop_mem_start {spawn : SpawnOutcome} {spawned : Bool} {start : List (MainOp Invocation)}
    (hstart : Start spawn t spawned start) (i : ℕ) : .stop i ∉ start := by
  cases hstart with
  | spawned => simp
  | fresh => simp [createScript]

lemma not_stop_mem_of_isLocal {script : List (MainOp Invocation)}
    (hlocal : ∀ op ∈ script, op.isLocal = true) (i : ℕ) : .stop i ∉ script := by
  intro hmem
  cases hlocal _ hmem

lemma not_stop_mem_round (r : Round Invocation t) (i : ℕ) : .stop i ∉ r.script := by
  have := not_stop_mem_of_isLocal r.isLocal i
  simp [Round.script, this]

/-- A call that has all workers running fails in no system call. -/
lemma not_failed_of_start {host : Host} {spawn : SpawnOutcome} {start : List (MainOp Invocation)}
    (hstart : Start spawn host.context.threadCount host.context.workersSpawned start) :
    ¬ (host.context.workersSpawned = false ∧
      spawn.started host.context.threadCount < host.context.threadCount) := by
  rintro ⟨hspawned, hlt⟩
  rw [hspawned] at hstart
  cases hstart with
  | fresh hstarted => exact hlt.ne hstarted

/-- A call fails in `spawn_workers` and leaves everything but the threads as it was, or it
tells no worker to stop. -/
lemma failedSpawn_cases (host : Host) (call : Call) :
    (∃ k < host.context.threadCount, host.failedSpawn call = some k ∧
        host.context.workersSpawned = false ∧
        call.run host = ⟨false, host, createScript k ++ stopScript k⟩) ∨
      host.failedSpawn call = none ∧ ∀ i, .stop i ∉ (call.run host).script := by
  cases call with
  | registerSlot config | submit taskFunction taskArgument =>
    exact Or.inr ⟨rfl, fun i => List.not_mem_nil⟩
  | submitBatch taskFunction taskArguments =>
    refine Or.inr ⟨rfl, ?_⟩
    intro i
    rw [Call.run, submitBatch_script]
    exact List.not_mem_nil
  | dispatchAndWait spawn =>
    have hcases := dispatchAndWait_cases host spawn
    rw [Call.run, Host.failedSpawn]
    generalize dispatchAndWait host spawn = o at hcases
    cases hcases with
    | empty hstaged => exact Or.inr ⟨by simp [hstaged], fun i => List.not_mem_nil⟩
    | inline hne hinline =>
      refine Or.inr ⟨?_, not_stop_mem_of_isLocal fun _ => isLocal_of_mem_mainShare⟩
      rcases hinline with hzero | hone
      · simp [hzero]
      · simp [hone]
    | spawnFailed ht hlen hspawned hstarted =>
      exact Or.inl ⟨_, hstarted, by simp [hlen, hspawned, hstarted], hspawned, rfl⟩
    | refused _ _ hstart =>
      refine Or.inr ⟨?_, not_stop_mem_start hstart⟩
      simp only [if_neg (not_failed_of_start hstart), ite_self]
    | round _ _ hstart =>
      refine Or.inr ⟨?_, ?_⟩
      · simp only [if_neg (not_failed_of_start hstart), ite_self]
      · intro i
        rw [List.mem_append, not_or]
        exact ⟨not_stop_mem_start hstart i, not_stop_mem_round _ i⟩
  | parallelFor range spawn =>
    have hcases := parallelFor_cases host range spawn
    rw [Call.run, Host.failedSpawn]
    generalize parallelFor host range spawn = o at hcases
    cases hcases with
    | zeroStep hstep => exact Or.inr ⟨by simp [hstep], fun i => List.not_mem_nil⟩
    | empty _ hempty => exact Or.inr ⟨by simp [not_lt.mpr hempty], fun i => List.not_mem_nil⟩
    | inline _ _ hinline =>
      refine Or.inr ⟨?_, not_stop_mem_of_isLocal fun _ => isLocal_of_mem_mainShare⟩
      rcases hinline with hzero | htotal
      · simp [hzero]
      · simp [not_lt.mpr htotal]
    | spawnFailed hstep hlt ht htotal hspawned hstarted =>
      exact Or.inl ⟨_, hstarted, by simp [hstep, hlt, htotal, hspawned, hstarted], hspawned, rfl⟩
    | refused _ _ _ _ hstart =>
      refine Or.inr ⟨?_, not_stop_mem_start hstart⟩
      simp only [if_neg (not_failed_of_start hstart), ite_self]
    | round _ _ _ _ hstart =>
      refine Or.inr ⟨?_, ?_⟩
      · simp only [if_neg (not_failed_of_start hstart), ite_self]
      · intro i
        rw [List.mem_append, not_or]
        exact ⟨not_stop_mem_start hstart i, not_stop_mem_round _ i⟩

/-- A call that starts no threads, or all that it needs, tells no worker to stop. -/
lemma not_stop_mem_run {host : Host} {call : Call} (h : ∀ k ∈ host.failedSpawn call, k = 0)
    (i : ℕ) : .stop i ∉ (call.run host).script := by
  rcases failedSpawn_cases host call with ⟨k, -, hfailed, -, hrun⟩ | ⟨-, hstop⟩
  · obtain rfl := h k hfailed
    rw [hrun]
    exact List.not_mem_nil
  · exact hstop i

/-! ### Calls in which every thread is created -/

/-- Every system call of `spawn_workers` succeeds. -/
def SpawnOutcome.Succeeds (spawn : SpawnOutcome) : Prop :=
  spawn.attrInit = true ∧ spawn.setStackSize = true ∧ ∀ i, spawn.creates i = true

/-- The call can create every thread that it needs. -/
def Call.SpawnSucceeds : Call → Prop
  | .dispatchAndWait spawn | .parallelFor _ spawn => spawn.Succeeds
  | _ => True

lemma startThreads_eq {creates : ℕ → Bool} (h : ∀ i, creates i = true) (i n : ℕ) :
    startThreads creates i n = i + n := by
  induction n generalizing i with
  | zero => rfl
  | succ n ih => rw [startThreads, if_pos (h i), ih, Nat.add_right_comm, Nat.add_assoc]

lemma SpawnOutcome.Succeeds.started_eq {spawn : SpawnOutcome} (h : spawn.Succeeds) (t : ℕ) :
    spawn.started t = t := by
  simp [SpawnOutcome.started, h.1, h.2.1, startThreads_eq h.2.2]

lemma Call.SpawnSucceeds.failedSpawn_eq_none {call : Call} (h : call.SpawnSucceeds) (host : Host) :
    host.failedSpawn call = none := by
  cases call with
  | registerSlot | submit | submitBatch => rfl
  | dispatchAndWait spawn | parallelFor range spawn =>
    simp [Host.failedSpawn, SpawnOutcome.Succeeds.started_eq h]

/-- A call in progress can be completed if no worker was or is told to stop. -/
lemma Session.exists_return {host₀ host : Host} {records : List Record} {s s' : State Invocation}
    {h : List (Event Invocation)} (hspawned : host₀.context.workersSpawned = false)
    (hsession : Session host₀ records host s)
    (hstop : ∀ r ∈ records, ∀ i, .stop i ∉ r.outcome.script) {call : Call}
    (hcall : ∀ i, .stop i ∉ (call.run host).script)
    (hrun : handshake.Run { s with script := (call.run host).script } h s') :
    ∃ final, Invariant final (histories records ++ h) s' ∧ Unstopped final ∧
      ∃ h' s'', handshake.Run s' h' s'' ∧ s''.script = [] := by
  obtain ⟨final, hb, hclean⟩ := hsession.between_unstopped hspawned hstop
  obtain ⟨final', hload, -, hclean'⟩ := hb.phases_load call
  have hunstopped := hclean' hclean hcall
  have hinv := hload.run hrun
  refine ⟨final', hinv, hunstopped, hinv.exists_run_end ?_⟩
  intro i
  rcases hunstopped i with hp | hp <;> simp [hp]

end BcConcurrency.Pool
