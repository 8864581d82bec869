import BcConcurrency.Pool.Spawning
import BcConcurrency.Pool.Staging

/-!
# Staged tasks are executed once

In a session of any calls, every entry that entered staging is executed once, by the
next call of `bc_concurrency_dispatch_and_wait` that returns `true`, and by none that
returns `false`.
-/

namespace BcConcurrency.Pool

variable {t : ℕ}

/-- The staged entries. -/
def Host.staged (host : Host) : List TaskEntry := host.context.staging.data

namespace Record

/-- The call is a dispatch that returned `true`. -/
def dispatched (record : Record) : Bool :=
  match record.call with
  | .dispatchAndWait _ => record.outcome.result
  | _ => false

/-- The entries that the call put into staging. -/
def accepted (record : Record) : List TaskEntry :=
  match record.call with
  | .submit _ _ | .submitBatch _ _ => record.outcome.host.staged.drop record.host.staged.length
  | _ => []

/-- The entries that the call handed out. -/
def batch (record : Record) : List TaskEntry :=
  if record.dispatched then record.host.staged else []

/-- No thread started a task. -/
def Idle (record : Record) : Prop := ∀ thread, begun thread record.history = []

end Record

/-- A submission appends entries from the front of a list, all of them if and only if
it returns `true`, and runs nothing. -/
structure SubmitSound (entries : List TaskEntry) (record : Record) : Prop where
  idle : record.Idle
  appended : record.outcome.host.staged = record.host.staged ++ record.accepted
  taken : record.accepted <+: entries
  complete : record.outcome.result = true ↔ entries ≠ [] ∧ record.accepted = entries

/-- A dispatch with `t` worker threads executes the staged list, or nothing. -/
structure DispatchSound (t : ℕ) (record : Record) : Prop where
  /-- No task is started but those that are finished. -/
  finished : ∀ thread, begun thread record.history = ran thread record.history
  refused : record.outcome.result = false →
    record.Idle ∧ record.outcome.host.staged = record.host.staged
  emptied : record.outcome.result = true → record.outcome.host.staged = []
  /-- On the inline path the main thread runs the staged list in order. -/
  inline : record.outcome.result = true → t = 0 ∨ record.host.staged.length ≤ 1 →
    ran .main record.history = record.host.staged.flatMap TaskEntry.invocations ∧
      ∀ i, ran (.worker i) record.history = []
  /-- On the parallel path the threads run even shares that make up the staged list, the
  main thread the last one. -/
  parallel : record.outcome.result = true → 0 < t → 2 ≤ record.host.staged.length →
    ∃ share : ℕ → List TaskEntry,
      (List.range (t + 1)).flatMap share = record.host.staged ∧
        (∀ i ≤ t, ∀ j ≤ t, (share i).length ≤ (share j).length + 1) ∧
        (∀ i < t, ran (.worker i) record.history = (share i).flatMap TaskEntry.invocations) ∧
        ran .main record.history = (share t).flatMap TaskEntry.invocations ∧
        ∀ i, t ≤ i → ran (.worker i) record.history = []

/-! ### One call -/

lemma Performs.idle {script : List (MainOp Invocation)} {record : Record}
    (hperforms : Performs t script record.history) (hmain : script.filterMap MainOp.task = [])
    (hworker : ∀ i, script.filterMap (MainOp.dispatchTo i) = []) : record.Idle := by
  rintro (_ | i)
  · rw [hperforms.begun, hperforms.main, hmain]
  · rw [hperforms.begun, hperforms.worker, hworker, List.flatten_nil]

lemma submit_sound {host : Host} {f a : ℕ} {h : List (Event Invocation)}
    (hperforms : Performs t (submit host f a).script h) :
    SubmitSound [.task f a] ⟨host, .submit f a, h⟩ := by
  have hidle : Record.Idle ⟨host, .submit f a, h⟩ := hperforms.idle rfl fun _ => rfl
  have hresult : (Record.mk host (.submit f a) h).outcome.result =
      (host.context.staging.push host.memory (.task f a)).1 := rfl
  have haccepted {entries : List TaskEntry}
      (hdata : (Record.mk host (.submit f a) h).outcome.host.staged = host.staged ++ entries) :
      (Record.mk host (.submit f a) h).accepted = entries := by
    simp [Record.accepted, hdata]
  rcases host.context.staging.push_cases host.memory (.task f a) with
    ⟨htrue, hdata, -⟩ | ⟨hfalse, hdata⟩
  · have hstaged : (Record.mk host (.submit f a) h).outcome.host.staged =
        host.staged ++ [.task f a] := hdata
    exact ⟨hidle, by rw [hstaged, haccepted hstaged], by rw [haccepted hstaged],
      by simp [haccepted hstaged, hresult, htrue]⟩
  · have hstaged : (Record.mk host (.submit f a) h).outcome.host.staged = host.staged ++ [] :=
      hdata.trans (List.append_nil _).symm
    exact ⟨hidle, by rw [hstaged, haccepted hstaged],
      by rw [haccepted hstaged]; exact List.nil_prefix,
      by simp [haccepted hstaged, hresult, hfalse]⟩

lemma submitBatch_sound {host : Host} {f : ℕ} {arguments : List ℕ} {h : List (Event Invocation)}
    (hcap : Capacious host.context) (hperforms : Performs t (submitBatch host f arguments).script h) :
    SubmitSound (arguments.map (.task f)) ⟨host, .submitBatch f arguments, h⟩ := by
  have hscript := submitBatch_script host f arguments
  have hidle : Record.Idle ⟨host, .submitBatch f arguments, h⟩ :=
    hperforms.idle (by rw [hscript]; rfl) fun i => by rw [hscript]; rfl
  -- an empty batch is accepted without a push
  by_cases hempty : arguments.length = 0
  · obtain rfl := List.length_eq_zero_iff.mp hempty
    have haccepted : (Record.mk host (.submitBatch f []) h).accepted = [] := by
      simp [Record.accepted, Record.outcome, Call.run, submitBatch]
    exact ⟨hidle, by rw [haccepted, List.append_nil]; rfl,
      by rw [haccepted]; exact List.nil_prefix, by simp [Record.outcome, Call.run, submitBatch]⟩
  · obtain ⟨pushed, hprefix, hdata, hall, -⟩ :=
      pushAll_data f arguments host.context.staging host.memory hcap.staged
    have houtcome : (Record.mk host (.submitBatch f arguments) h).outcome.host.staged =
        host.staged ++ pushed := by
      simpa [Record.outcome, Call.run, submitBatch, hempty, Host.staged] using hdata
    have hresult : (Record.mk host (.submitBatch f arguments) h).outcome.result =
        (pushAll f arguments host.context.staging host.memory).1 := by
      simp [Record.outcome, Call.run, submitBatch, hempty]
    have haccepted : (Record.mk host (.submitBatch f arguments) h).accepted = pushed := by
      simp [Record.accepted, houtcome]
    refine ⟨hidle, by rw [houtcome, haccepted], by rw [haccepted]; exact hprefix, ?_⟩
    rw [hresult, hall, haccepted]
    simp only [ne_eq, List.map_eq_nil_iff, iff_and_self]
    rintro - rfl
    exact hempty rfl

/-- The script of a dispatch that returns `true` contains the staged tasks, and that of
any other dispatch none. -/
lemma tasksOf_dispatchAndWait {host : Host} (hcap : Capacious host.context)
    (spawn : SpawnOutcome) :
    tasksOf host.context.threadCount (dispatchAndWait host spawn).script =
      if (dispatchAndWait host spawn).result then
        (host.staged.flatMap TaskEntry.invocations : Multiset Invocation) else 0 := by
  have hcases := dispatchAndWait_cases host spawn
  generalize dispatchAndWait host spawn = o at hcases
  cases hcases with
  | empty hstaged =>
    rw [if_pos rfl, Host.staged, hstaged]
    exact tasksOf_of_not_dispatch fun _ => rfl
  | inline =>
    rw [if_pos rfl, tasksOf_of_not_dispatch (filterMap_dispatchTo_of_isLocal
        fun _ => isLocal_of_mem_mainShare), filterMap_task_mainShare]
    rfl
  | spawnFailed => simp [tasksOf]
  | refused _ _ hstart =>
    rw [tasksOf_of_not_dispatch hstart.filterMap_dispatchTo, hstart.filterMap_task]
    rfl
  | @round start context _ _ _ hstart hgrow =>
    have hspawned : Capacious { host.context with workersSpawned := true } :=
      ⟨hcap.staged, hcap.pos, hcap.lt, hcap.room⟩
    have hroom := (hspawned.grow hgrow).2 rfl
    have hworks (i : ℕ) (hi : i < host.context.threadCount) :
        ((start ++ (dispatchRound host.context.staging.data.length host.context.threadCount
          (context.dispatchTasks.copy host.context.staging.data).cells).script).filterMap
            (MainOp.dispatchTo i)).flatten =
          (shareOf host.staged host.context.threadCount i).flatMap TaskEntry.invocations := by
      rw [List.filterMap_append, hstart.filterMap_dispatchTo, List.nil_append,
        Round.filterMap_script, worksOf_dispatchRound, if_pos hi]
      exact workOf_copy hroom (by omega)
    have hmain : (start ++ (dispatchRound host.context.staging.data.length
        host.context.threadCount (context.dispatchTasks.copy
          host.context.staging.data).cells).script).filterMap MainOp.task =
        (shareOf host.staged host.context.threadCount host.context.threadCount).flatMap
          TaskEntry.invocations := by
      rw [List.filterMap_append, hstart.filterMap_task, List.nil_append,
        Round.filterMap_task_script]
      exact (filterMap_task_mainPart _ _ _).trans (workOf_copy hroom (by omega))
    have hworkers := Finset.sum_congr rfl fun i hi => congrArg (fun l : List Invocation =>
      (l : Multiset Invocation)) (hworks i (Finset.mem_range.mp hi))
    rw [if_pos rfl, tasksOf, hmain, hworkers, add_comm, ← Finset.sum_range_succ,
      ← coe_flatMap_range, ← List.flatMap_assoc, flatMap_shareOf]

lemma dispatch_sound {host : Host} {spawn : SpawnOutcome} {h : List (Event Invocation)}
    (hcap : Capacious host.context)
    (hperforms : Performs host.context.threadCount (dispatchAndWait host spawn).script h) :
    DispatchSound host.context.threadCount ⟨host, .dispatchAndWait spawn, h⟩ := by
  have hcases := dispatchAndWait_cases host spawn
  have houtcome : (Record.mk host (.dispatchAndWait spawn) h).outcome = dispatchAndWait host spawn :=
    rfl
  have hbegun := hperforms.begun
  generalize dispatchAndWait host spawn = o at hcases houtcome hperforms
  cases hcases with
  | empty hstaged =>
    refine ⟨hbegun, by simp [houtcome], fun _ => by rw [houtcome]; exact hstaged,
      fun _ _ => ⟨?_, ?_⟩, ?_⟩
    · rw [Host.staged, hstaged]
      exact hperforms.main
    · exact hperforms.worker
    · intro _ _ hlen
      rw [Host.staged, hstaged] at hlen
      simp at hlen
  | inline hne hinline =>
    refine ⟨hbegun, by simp [houtcome], fun _ => by rw [houtcome]; rfl, fun _ _ => ⟨?_, ?_⟩, ?_⟩
    · rw [hperforms.main]
      exact filterMap_task_mainShare _ _
    · intro i
      rw [hperforms.worker,
        filterMap_dispatchTo_of_isLocal fun _ => isLocal_of_mem_mainShare, List.flatten_nil]
    · intro _ ht hlen
      change 2 ≤ host.context.staging.data.length at hlen
      omega
  | spawnFailed ht hlen =>
    refine ⟨hbegun, fun _ => ⟨hperforms.idle (by simp) (by simp), by rw [houtcome]⟩,
      by simp [houtcome], by simp [houtcome], by simp [houtcome]⟩
  | refused ht hlen hstart hgrow =>
    obtain ⟨_, _, rfl⟩ := growDispatchTasks_frame hgrow
    refine ⟨hbegun, fun _ => ⟨hperforms.idle hstart.filterMap_task hstart.filterMap_dispatchTo,
      by rw [houtcome]; rfl⟩, by simp [houtcome], by simp [houtcome], by simp [houtcome]⟩
  | @round start context memory ht hlen hstart hgrow =>
    have hspawned : Capacious { host.context with workersSpawned := true } :=
      ⟨hcap.staged, hcap.pos, hcap.lt, hcap.room⟩
    -- the copy has room for all staged entries, so no share is cut short
    have hroom := (hspawned.grow hgrow).2 rfl
    have hworker (i : ℕ) : ran (.worker i) h = if i < host.context.threadCount then
        (shareOf host.staged host.context.threadCount i).flatMap TaskEntry.invocations else [] := by
      rw [hperforms.worker, List.filterMap_append, hstart.filterMap_dispatchTo, List.nil_append,
        Round.filterMap_script, worksOf_dispatchRound]
      split
      · exact workOf_copy hroom (by omega)
      · rfl
    refine ⟨hbegun, by simp [houtcome], fun _ => by rw [houtcome]; rfl, ?_,
      fun _ _ _ => ⟨shareOf host.staged host.context.threadCount, flatMap_shareOf _ _,
        ?_, ?_, ?_, ?_⟩⟩
    · intro _ hinline
      change _ ∨ host.context.staging.data.length ≤ 1 at hinline
      omega
    · intro i hi j hj
      rw [length_shareOf (by omega), length_shareOf (by omega)]
      exact EvenSplit.share_le _ _ _ _
    · intro i hi
      exact (hworker i).trans (if_pos hi)
    · rw [hperforms.main, List.filterMap_append, hstart.filterMap_task, List.nil_append,
        Round.filterMap_task_script]
      exact (filterMap_task_mainPart _ _ _).trans (workOf_copy hroom (by omega))
    · intro i hi
      exact (hworker i).trans (if_neg (not_lt.mpr hi))

/-! ### Whole sessions -/

section Sessions

variable {host₀ host : Host} {records : List Record} {s : State Invocation}

lemma Session.capacious (hcap : Capacious host₀.context) (hsession : Session host₀ records host s) :
    Capacious host.context := by
  induction hsession with
  | start => exact hcap
  | call call _ _ _ ih => exact ih.run call

lemma Session.capacious_of_mem (hcap : Capacious host₀.context)
    (hsession : Session host₀ records host s) {r : Record} (hr : r ∈ records) :
    Capacious r.host.context := by
  obtain ⟨pre, post, rfl⟩ := List.append_of_mem hr
  obtain ⟨_, _, hpre, -⟩ := hsession.split
  exact hpre.capacious hcap

/-- A dispatch that returns `true` empties staging, and any other call appends what it
accepts. -/
lemma Session.staged_step (hspawned : host₀.context.workersSpawned = false)
    (hcap : Capacious host₀.context) (hsession : Session host₀ records host s) {r : Record}
    (hr : r ∈ records) :
    (r.dispatched = true ∧ r.outcome.host.staged = [] ∧ r.accepted = []) ∨
      (r.dispatched = false ∧ r.outcome.host.staged = r.host.staged ++ r.accepted) := by
  have hperforms := hsession.performs hspawned hr
  have hcap := hsession.capacious_of_mem hcap hr
  obtain ⟨host, call, h⟩ := r
  cases call with
  | registerSlot config =>
    obtain ⟨_, _, _, _, hframe⟩ := registerSlot_frame host.context host.memory config
    refine Or.inr ⟨rfl, ?_⟩
    show (registerSlot host.context host.memory config).2.1.staging.data = _ ++ []
    rw [hframe, List.append_nil]
    rfl
  | submit f a => exact Or.inr ⟨rfl, (submit_sound hperforms).appended⟩
  | submitBatch f arguments => exact Or.inr ⟨rfl, (submitBatch_sound hcap hperforms).appended⟩
  | dispatchAndWait spawn =>
    have hsound := dispatch_sound hcap hperforms
    rcases hresult : (Record.mk host (.dispatchAndWait spawn) h).outcome.result with _ | _
    · refine Or.inr ⟨hresult, (hsound.refused hresult).2.trans ?_⟩
      exact (List.append_nil _).symm
    · exact Or.inl ⟨hresult, hsound.emptied hresult, rfl⟩
  | parallelFor range spawn =>
    refine Or.inr ⟨rfl, ?_⟩
    show (parallelFor host range spawn).host.context.staging.data = _ ++ []
    have hcases := parallelFor_cases host range spawn
    generalize parallelFor host range spawn = o at hcases
    cases hcases <;> exact (List.append_nil _).symm

/-- What entered staging was handed out, or is still staged. -/
lemma Session.conserved (hspawned : host₀.context.workersSpawned = false)
    (hcap : Capacious host₀.context) (hstaged : host₀.staged = [])
    (hsession : Session host₀ records host s) :
    records.flatMap Record.accepted = records.flatMap Record.batch ++ host.staged := by
  induction hsession with
  | start => simp [hstaged]
  | @call records host s s' h call hprev hrun hreturn ih =>
    have hstep := (Session.call call hprev hrun hreturn).staged_step hspawned hcap
      (List.mem_append_right _ (List.mem_singleton_self _))
    simp only [List.flatMap_append, List.flatMap_singleton, ih]
    show _ = _ ++ (Record.mk host call h).outcome.host.staged
    -- a dispatch turns what is staged into its batch, any other call adds what it accepts
    rcases hstep with ⟨hdispatched, hempty, haccepted⟩ | ⟨hdispatched, happended⟩
    · simp [Record.batch, hdispatched, hempty, haccepted]
    · simp [Record.batch, hdispatched, happended, List.append_assoc]

/-- What a call accepted stays staged until a dispatch returns `true`. -/
lemma Session.accepted_staged (hspawned : host₀.context.workersSpawned = false)
    (hcap : Capacious host₀.context) {pre mid : List Record} {r : Record}
    (hsession : Session host₀ (pre ++ r :: mid) host s)
    (hmid : ∀ q ∈ mid, q.dispatched = false) :
    ∃ before behind, host.staged = before ++ r.accepted ++ behind := by
  -- on the calls after the submission: none of them takes entries away
  induction mid using List.reverseRecOn generalizing host s with
  | nil =>
    obtain ⟨rfl, -⟩ := hsession.last
    rcases hsession.staged_step hspawned hcap (List.mem_append_right _ (List.mem_singleton_self _))
      with ⟨-, -, haccepted⟩ | ⟨-, happended⟩
    · exact ⟨r.outcome.host.staged, [], by simp [haccepted]⟩
    · exact ⟨r.host.staged, [], by simp [happended]⟩
  | append_singleton mid q ih =>
    rw [← List.cons_append, ← List.append_assoc] at hsession
    obtain ⟨rfl, s₁, hprev⟩ := hsession.last
    obtain ⟨before, behind, hstaged⟩ := ih hprev fun q' hq' => hmid q' (List.mem_append_left _ hq')
    have hq := hmid q (List.mem_append_right _ (List.mem_singleton_self _))
    rcases hsession.staged_step hspawned hcap (List.mem_append_right _ (List.mem_singleton_self _))
      with ⟨hdispatched, -⟩ | ⟨-, happended⟩
    · rw [hq] at hdispatched
      cases hdispatched
    · exact ⟨before, behind ++ q.accepted, by rw [happended, hstaged, List.append_assoc]⟩

end Sessions

/-! ### The result -/

/-- What holds of a session with `t` worker threads. -/
structure StagedOnce (t : ℕ) (records : List Record) (host : Host) (s : State Invocation) :
    Prop where
  submits : ∀ r ∈ records, ∀ f a, r.call = .submit f a → SubmitSound [.task f a] r
  batches : ∀ r ∈ records, ∀ f arguments, r.call = .submitBatch f arguments →
    SubmitSound (arguments.map (.task f)) r
  dispatches : ∀ r ∈ records, ∀ spawn, r.call = .dispatchAndWait spawn → DispatchSound t r
  /-- What entered staging was handed out once and in order, or is still staged. -/
  conserved : records.flatMap Record.accepted = records.flatMap Record.batch ++ host.staged
  /-- What a call accepted is in the list of the next dispatch that returns `true`. -/
  next : ∀ pre r mid r' post, records = pre ++ r :: mid ++ r' :: post → r'.dispatched = true →
    (∀ q ∈ mid, q.dispatched = false) →
    ∃ before behind, r'.batch = before ++ r.accepted ++ behind
  /-- When every thread can be created, a call in progress can be completed. -/
  completes : (∀ r ∈ records, r.call.SpawnSucceeds) → ∀ call : Call, call.SpawnSucceeds →
    ∀ h s', handshake.Run { s with script := (call.run host).script } h s' →
      ∃ h' s'', handshake.Run s' h' s'' ∧ s''.script = []

/-- In every session after a successful creation, with any requests refused and in every
interleaving, staged tasks run exactly once. -/
theorem staged_tasks_run_once {memory memory' : Memory} {physicalCoreCount : ℕ}
    {config : Option Config} {stagingGrows memoryGrants : ℕ → Bool} {context : Context}
    (hcreate : create memory physicalCoreCount config stagingGrows memoryGrants =
      (some context, memory'))
    {records : List Record} {host : Host} {s : State Invocation}
    (hsession : Session ⟨context, memory'⟩ records host s) :
    StagedOnce context.threadCount records host s := by
  have hfresh := (create_ok hcreate).1
  have hspawned := hfresh.workersSpawned
  have hcap := hfresh.capacious
  have hstaged : Host.staged ⟨context, memory'⟩ = [] := hfresh.staged
  constructor
  case submits =>
    rintro ⟨host, call, h⟩ hr f a rfl
    exact submit_sound (hsession.performs hspawned hr)
  case batches =>
    rintro ⟨host, call, h⟩ hr f arguments rfl
    exact submitBatch_sound (hsession.capacious_of_mem hcap hr) (hsession.performs hspawned hr)
  case dispatches =>
    rintro ⟨host, call, h⟩ hr spawn rfl
    have hsound := dispatch_sound (hsession.capacious_of_mem hcap hr)
      (hsession.performs hspawned hr)
    rwa [hsession.threadCount_of_mem hr] at hsound
  case conserved => exact hsession.conserved hspawned hcap hstaged
  case next =>
    rintro pre r mid r' post rfl hdispatched hmid
    obtain ⟨_, _, hpre, -⟩ := hsession.split
    obtain ⟨before, behind, hstaged⟩ := hpre.accepted_staged hspawned hcap hmid
    exact ⟨before, behind, by rw [Record.batch, if_pos hdispatched, hstaged]⟩
  case completes =>
    intro hrecords call hcall h s' hrun
    obtain ⟨-, -, -, hcompletes⟩ := hsession.exists_return hspawned
      (fun r hr => not_stop_mem_run (by simp [(hrecords r hr).failedSpawn_eq_none]))
      (not_stop_mem_run (by simp [hcall.failedSpawn_eq_none])) hrun
    exact hcompletes

/-- Three tasks on one worker and the main thread. -/
theorem staged_tasks_run_once_three :
    ∃ context memory',
      create ⟨fun _ => true, 0, 0, [], []⟩ 2 none (fun _ => false) (fun _ => true) =
        (some context, memory') ∧
      let main := List.replicate 8 (Move.run .main)
      let worker := List.replicate 8 (Move.run (.worker 0))
      let spawn : SpawnOutcome := ⟨true, true, fun _ => true⟩
      let result := play ⟨context, memory'⟩ (State.start [])
        [(.submitBatch 1 [10, 11], []), (.submit 1 12, []),
          (.dispatchAndWait spawn, main ++ worker ++ main)]
      executed (histories result.1) = [.task 1 12, .task 1 10, .task 1 11] ∧
        StagedOnce context.threadCount result.1 result.2.1 result.2.2 := by
  have hcreate : create ⟨fun _ => true, 0, 0, [], []⟩ 2 none (fun _ => false) (fun _ => true) =
    (some _, _) := rfl
  refine ⟨_, _, hcreate, by decide, ?_⟩
  exact staged_tasks_run_once hcreate (session_play _ _ (by decide))

end BcConcurrency.Pool
