import BcConcurrency.Pool.Batches
import BcConcurrency.Pool.StagedTasks

/-!
# Submissions from inside of a task

A task that runs on the main thread may submit further entries.  They are appended to
the staging array while `bc_concurrency_dispatch_and_wait` is working on it: the call
executes the entries that were staged when it began, and clears the array at its end.
-/

namespace BcConcurrency.Pool

variable {t : ℕ}

/-! ### What a task submits -/

/-- A call of `bc_concurrency_submit` or `bc_concurrency_submit_batch`. -/
inductive Submission
  | submit (taskFunction taskArgument : ℕ)
  | submitBatch (taskFunction : ℕ) (taskArguments : List ℕ)

namespace Submission

/-- What a submission does. -/
def run (host : Host) : Submission → Outcome
  | submit taskFunction taskArgument => Pool.submit host taskFunction taskArgument
  | submitBatch taskFunction taskArguments => Pool.submitBatch host taskFunction taskArguments

/-- The entries of a submission. -/
def entries : Submission → List TaskEntry
  | submit taskFunction taskArgument => [.task taskFunction taskArgument]
  | submitBatch taskFunction taskArguments => taskArguments.map (.task taskFunction)

/-- Staging has no room for an entry of the submission, or there is no entry. -/
def Refused (host : Host) : Submission → Prop
  | submit _ _ => host.context.staging.refuses host.memory 0 = true
  | submitBatch _ taskArguments => taskArguments = [] ∨
      ∃ j < taskArguments.length, host.context.staging.refuses host.memory j = true

instance (host : Host) (submission : Submission) : Decidable (submission.Refused host) :=
  match submission with
  | submit _ _ => inferInstanceAs (Decidable (_ = true))
  | submitBatch _ _ => inferInstanceAs (Decidable (_ ∨ _))

end Submission

/-- Make submissions one after the other; returns the entries of those that return
`true`. -/
def submitAll : List Submission → Host → List TaskEntry × Host
  | [], host => ([], host)
  | submission :: submissions, host =>
      let outcome := submission.run host
      let (accepted, host) := submitAll submissions outcome.host
      ((if outcome.result then submission.entries else []) ++ accepted, host)

/-- Staging refuses all of the submissions. -/
def AllRefused : List Submission → Host → Prop
  | [], _ => True
  | submission :: submissions, host =>
      submission.Refused host ∧ AllRefused submissions (submission.run host).host

/-! ### Dispatching tasks that submit -/

/-- The inline loop over the entries of staging from `i` on; task number `i` makes the
submissions `behaviour i`.  The entry is read from the array as it is then. -/
def runStaged (behaviour : ℕ → List Submission) : ℕ → ℕ → Host →
    List Invocation × List TaskEntry × Host
  | _, 0, host => ([], [], host)
  | i, remaining + 1, host =>
      let invocations := host.context.staging.data[i]?.elim [] TaskEntry.invocations
      let (accepted, host) := submitAll (behaviour i) host
      let (invocations', accepted', host) := runStaged behaviour (i + 1) remaining host
      (invocations ++ invocations', accepted ++ accepted', host)

/-- The submissions made while the main thread runs the entries of its part from `i` on. -/
def submitMain (behaviour : ℕ → List Submission) : ℕ → ℕ → Host → List TaskEntry × Host
  | _, 0, host => ([], host)
  | i, remaining + 1, host =>
      let (accepted, host) := submitAll (behaviour i) host
      let (accepted', host) := submitMain behaviour (i + 1) remaining host
      (accepted ++ accepted', host)

/-- `bc_concurrency_staging_clear` -/
def Host.clearStaging (host : Host) : Host :=
  { host with context := { host.context with staging := host.context.staging.clear } }

/-- `bc_concurrency_dispatch_and_wait` when the tasks that run on the main thread make
submissions; returns the entries of those that return `true` as well. -/
def dispatchNesting (host : Host) (spawn : SpawnOutcome) (behaviour : ℕ → List Submission) :
    Outcome × List TaskEntry :=
  let staged := host.context.staging.data
  let stagingCount := staged.length
  let threadCount := host.context.threadCount
  if stagingCount = 0 then (⟨true, host, []⟩, [])
  else if threadCount = 0 ∨ stagingCount = 1 then
    let (invocations, accepted, host) := runStaged behaviour 0 stagingCount host
    (⟨true, host.clearStaging, mainShare threadCount invocations⟩, accepted)
  else match ensureWorkersSpawned host.context spawn with
  | (false, context, script) => (⟨false, ⟨context, host.memory⟩, script⟩, [])
  | (true, context, script) =>
      match growDispatchTasks context host.memory stagingCount with
      | (false, context, memory) => (⟨false, ⟨context, memory⟩, script⟩, [])
      | (true, context, memory) =>
          let buffer := context.dispatchTasks.copy staged
          let mainCount := (EvenSplit.part stagingCount (threadCount + 1) threadCount).2
          let (accepted, host) :=
            submitMain behaviour 0 mainCount ⟨{ context with dispatchTasks := buffer }, memory⟩
          (⟨true, host.clearStaging,
            script ++ (dispatchRound stagingCount threadCount buffer.cells).script⟩, accepted)

/-- The state in which the main thread begins to run tasks, and how many it runs. -/
def mainBegins (host : Host) (spawn : SpawnOutcome) : Host × ℕ :=
  let staged := host.context.staging.data
  let stagingCount := staged.length
  let threadCount := host.context.threadCount
  if stagingCount = 0 then (host, 0)
  else if threadCount = 0 ∨ stagingCount = 1 then (host, stagingCount)
  else match ensureWorkersSpawned host.context spawn with
  | (false, _, _) => (host, 0)
  | (true, context, _) =>
      match growDispatchTasks context host.memory stagingCount with
      | (false, _, _) => (host, 0)
      | (true, context, memory) =>
          (⟨{ context with dispatchTasks := context.dispatchTasks.copy staged }, memory⟩,
            (EvenSplit.part stagingCount (threadCount + 1) threadCount).2)

/-- The submissions made by the tasks that run on the main thread, in order. -/
def nestedSubmissions (host : Host) (spawn : SpawnOutcome) (behaviour : ℕ → List Submission) :
    List Submission :=
  (List.range (mainBegins host spawn).2).flatMap behaviour

/-! ### Submissions append -/

/-- A submission returns `false` exactly if it is refused; it only appends to staging. -/
lemma Submission.run_spec (submission : Submission) (host : Host) :
    ((submission.run host).result = false ↔ submission.Refused host) ∧
      host.staged <+: (submission.run host).host.staged := by
  cases submission with
  | submit f a =>
    have hresult : ((Submission.submit f a).run host).result =
        (host.context.staging.push host.memory (.task f a)).1 := rfl
    have hstaged : ((Submission.submit f a).run host).host.staged =
        (host.context.staging.push host.memory (.task f a)).2.1.data := rfl
    rw [hresult, hstaged, Refused, Host.staged]
    rcases host.context.staging.push_refuses host.memory (.task f a) with
      ⟨hrefuses, hok, hdata⟩ | ⟨hrefuses, hok, hdata, -⟩
    · exact ⟨iff_of_true hok hrefuses, hdata ▸ List.prefix_rfl⟩
    · rw [hok, hrefuses, hdata]
      exact ⟨by simp, List.prefix_append _ _⟩
  | submitBatch f arguments =>
    rcases arguments with _ | ⟨argument, arguments⟩
    · exact ⟨iff_of_true rfl (Or.inl rfl), List.prefix_rfl⟩
    · obtain ⟨hiff, -, hprefix⟩ :=
        pushAll_refuses f (argument :: arguments) host.context.staging host.memory
      refine ⟨?_, hprefix⟩
      have hresult : ((Submission.submitBatch f (argument :: arguments)).run host).result =
          (pushAll f (argument :: arguments) host.context.staging host.memory).1 := rfl
      rw [hresult, ← Bool.not_eq_true, hiff, Refused]
      simp

/-- Submissions only append to staging. -/
lemma staged_submitAll (submissions : List Submission) (host : Host) :
    host.staged <+: (submitAll submissions host).2.staged := by
  induction submissions generalizing host with
  | nil => exact List.prefix_rfl
  | cons submission submissions ih => exact (submission.run_spec host).2.trans (ih _)

lemma submitAll_append (submissions submissions' : List Submission) (host : Host) :
    submitAll (submissions ++ submissions') host =
      ((submitAll submissions host).1 ++
          (submitAll submissions' (submitAll submissions host).2).1,
        (submitAll submissions' (submitAll submissions host).2).2) := by
  induction submissions generalizing host with
  | nil => rfl
  | cons submission submissions ih => simp [submitAll, ih, List.append_assoc]

/-- No entry is accepted exactly if all submissions are refused. -/
lemma submitAll_eq_nil_iff (submissions : List Submission) (host : Host) :
    (submitAll submissions host).1 = [] ↔ AllRefused submissions host := by
  induction submissions generalizing host with
  | nil => exact iff_of_true rfl trivial
  | cons submission submissions ih =>
    rw [submitAll, AllRefused, ← ih, ← (submission.run_spec host).1]
    dsimp only
    rw [List.append_eq_nil_iff]
    refine and_congr_left ?_
    intro _
    rcases hresult : (submission.run host).result with _ | _
    · simp
    · rw [if_pos rfl]
      refine iff_of_false ?_ (by simp)
      intro hentries
      -- only an empty batch has no entry, and it returns false
      cases submission with
      | submit => simp [Submission.entries] at hentries
      | submitBatch f arguments =>
        obtain rfl : arguments = [] := by simpa [Submission.entries] using hentries
        simp [Submission.run, submitBatch] at hresult

/-- Every entry that a submission makes is a task. -/
lemma exists_task_of_mem_submitAll {submissions : List Submission} {host : Host}
    {entry : TaskEntry} (he : entry ∈ (submitAll submissions host).1) :
    ∃ f a, entry = .task f a := by
  induction submissions generalizing host with
  | nil => simp [submitAll] at he
  | cons submission submissions ih =>
    rw [submitAll] at he
    dsimp only at he
    rcases List.mem_append.mp he with he | he
    · split at he
      · cases submission with
        | submit f a => exact ⟨f, a, by simpa [Submission.entries] using he⟩
        | submitBatch f arguments =>
          obtain ⟨a, -, rfl⟩ := List.mem_map.mp he
          exact ⟨f, a, rfl⟩
      · cases he
    · exact ih he

/-- The submissions during the part of the main thread. -/
lemma submitMain_eq (behaviour : ℕ → List Submission) (i remaining : ℕ) (host : Host) :
    submitMain behaviour i remaining host =
      submitAll ((List.range' i remaining).flatMap behaviour) host := by
  induction remaining generalizing i host with
  | zero => rfl
  | succ remaining ih =>
    rw [submitMain, List.range'_succ, List.flatMap_cons, submitAll_append]
    simp only [ih]

/-- The inline loop runs the entries that were staged when it began. -/
lemma runStaged_eq (behaviour : ℕ → List Submission) (staged : List TaskEntry) (i remaining : ℕ)
    (host : Host) (hstaged : staged <+: host.staged) (hlen : i + remaining ≤ staged.length) :
    runStaged behaviour i remaining host =
      (((staged.drop i).take remaining).flatMap TaskEntry.invocations,
        submitAll ((List.range' i remaining).flatMap behaviour) host) := by
  induction remaining generalizing i host with
  | zero => rfl
  | succ remaining ih =>
    have hentry : host.context.staging.data[i]? = some staged[i] := by
      obtain ⟨behind, hdata⟩ := hstaged
      show host.staged[i]? = _
      rw [← hdata, List.getElem?_append_left (by omega), List.getElem?_eq_getElem (by omega)]
    rw [runStaged, hentry, List.range'_succ, List.flatMap_cons, submitAll_append]
    dsimp only
    rw [ih (i + 1) _ (hstaged.trans (staged_submitAll _ _)) (by omega),
      List.drop_eq_getElem_cons (l := staged) (i := i) (by omega), List.take_succ_cons,
      List.flatMap_cons]
    rfl

/-! ### The dispatch is the one without submissions -/

section Dispatch

variable (host : Host) (spawn : SpawnOutcome) (behaviour : ℕ → List Submission)

/-- Submissions change neither the result of the dispatch nor what it runs nor what it
leaves staged. -/
lemma dispatchNesting_eq :
    (dispatchNesting host spawn behaviour).1.result = (dispatchAndWait host spawn).result ∧
      (dispatchNesting host spawn behaviour).1.script = (dispatchAndWait host spawn).script ∧
      (dispatchNesting host spawn behaviour).1.host.staged =
        (dispatchAndWait host spawn).host.staged := by
  simp only [dispatchNesting, dispatchAndWait]
  split
  case isTrue => exact ⟨rfl, rfl, rfl⟩
  case isFalse hne =>
    split
    case isTrue =>
      rw [runStaged_eq behaviour host.staged 0 _ host List.prefix_rfl (by simp [Host.staged])]
      refine ⟨rfl, ?_, rfl⟩
      simp [Host.staged]
    case isFalse =>
      rcases ensureWorkersSpawned host.context spawn with ⟨_ | _, context, script⟩
      · exact ⟨rfl, rfl, rfl⟩
      · dsimp only
        rcases growDispatchTasks context host.memory host.context.staging.data.length with
          ⟨_ | _, context', memory⟩ <;> exact ⟨rfl, rfl, rfl⟩

/-- The accepted entries are those of the submissions that the tasks make. -/
lemma accepted_dispatchNesting :
    (dispatchNesting host spawn behaviour).2 =
      (submitAll (nestedSubmissions host spawn behaviour) (mainBegins host spawn).1).1 := by
  simp only [dispatchNesting, nestedSubmissions, mainBegins]
  split
  case isTrue => rfl
  case isFalse hne =>
    split
    case isTrue =>
      rw [runStaged_eq behaviour host.staged 0 _ host List.prefix_rfl (by simp [Host.staged]),
        List.range_eq_range']
    case isFalse =>
      rcases ensureWorkersSpawned host.context spawn with ⟨_ | _, context, script⟩
      · rfl
      · dsimp only
        rcases growDispatchTasks context host.memory host.context.staging.data.length with
          ⟨_ | _, context', memory⟩
        · rfl
        · dsimp only
          rw [submitMain_eq, List.range_eq_range']

/-- A dispatch that returns `false` runs no task. -/
lemma nestedSubmissions_of_false (hresult : (dispatchAndWait host spawn).result = false) :
    nestedSubmissions host spawn behaviour = [] := by
  by_cases hempty : host.context.staging.data.length = 0
  · simp [nestedSubmissions, mainBegins, hempty]
  by_cases hinline : host.context.threadCount = 0 ∨ host.context.staging.data.length = 1
  · simp [dispatchAndWait, hempty, hinline] at hresult
  simp only [dispatchAndWait, if_neg hempty, if_neg hinline] at hresult
  simp only [nestedSubmissions, mainBegins, if_neg hempty, if_neg hinline]
  generalize ensureWorkersSpawned host.context spawn = spawned at hresult ⊢
  rcases spawned with ⟨_ | _, context, script⟩
  · rfl
  · dsimp only at hresult ⊢
    generalize growDispatchTasks context host.memory host.context.staging.data.length = grown
      at hresult ⊢
    rcases grown with ⟨_ | _, context', memory⟩
    · rfl
    · cases hresult

end Dispatch

/-! ### The result -/

/-- Every entry that was accepted is either executed exactly once or still staged. -/
def NothingLost (accepted : List TaskEntry) (h : List (Event Invocation))
    (staged : List TaskEntry) : Prop :=
  ∃ done kept : List TaskEntry, (done ++ kept).Perm accepted ∧
    (executed h).Perm (done.flatMap TaskEntry.invocations) ∧ kept.Subperm staged

/-- In every session after a successful creation and in every interleaving, a dispatch
whose tasks on the main thread submit entries loses no accepted entry exactly if all
these submissions are refused. -/
theorem nested_submissions_kept_iff {memory memory' : Memory} {physicalCoreCount : ℕ}
    {config : Option Config} {stagingGrows memoryGrants : ℕ → Bool} {context : Context}
    (hcreate : create memory physicalCoreCount config stagingGrows memoryGrants =
      (some context, memory'))
    {records : List Record} {host : Host} {s s' : State Invocation}
    (hsession : Session ⟨context, memory'⟩ records host s) (spawn : SpawnOutcome)
    (behaviour : ℕ → List Submission) {h : List (Event Invocation)}
    (hrun : handshake.Run
      { s with script := (dispatchNesting host spawn behaviour).1.script } h s')
    (hreturn : s'.script = []) :
    NothingLost (host.staged ++ (dispatchNesting host spawn behaviour).2) h
        (dispatchNesting host spawn behaviour).1.host.staged ↔
      AllRefused (nestedSubmissions host spawn behaviour) (mainBegins host spawn).1 := by
  have hfresh := (create_ok hcreate).1
  obtain ⟨final, hb⟩ := hsession.between hfresh.workersSpawned
  obtain ⟨hresult, hscript, hstaged⟩ := dispatchNesting_eq host spawn behaviour
  rw [hscript] at hrun
  have hcap := hsession.capacious hfresh.capacious
  have hperforms := hb.performs (.dispatchAndWait spawn) hrun hreturn
  have hsound := dispatch_sound hcap hperforms
  have hexecuted := hperforms.executed_eq.trans (tasksOf_dispatchAndWait hcap spawn)
  rw [← submitAll_eq_nil_iff, ← accepted_dispatchNesting, hstaged]
  have htask : ∀ entry ∈ (dispatchNesting host spawn behaviour).2, ∃ f a, entry = .task f a := by
    rw [accepted_dispatchNesting]
    exact fun entry => exists_task_of_mem_submitAll
  rcases htrue : (dispatchAndWait host spawn).result with _ | _
  · have hnested : (dispatchNesting host spawn behaviour).2 = [] := by
      rw [accepted_dispatchNesting, nestedSubmissions_of_false host spawn behaviour htrue]
      rfl
    refine iff_of_true ⟨[], host.staged, ?_, ?_, ?_⟩ hnested
    · rw [hnested, List.append_nil, List.nil_append]
    · rw [htrue, if_neg Bool.false_ne_true] at hexecuted
      exact Multiset.coe_eq_coe.mp hexecuted
    · rw [show (dispatchAndWait host spawn).host.staged = host.staged from (hsound.refused htrue).2]
  · rw [show (dispatchAndWait host spawn).host.staged = [] from hsound.emptied htrue]
    rw [htrue, if_pos rfl, Multiset.coe_eq_coe] at hexecuted
    generalize (dispatchNesting host spawn behaviour).2 = nested at htask
    constructor
    · rintro ⟨done, kept, hperm, hdone, hkept⟩
      -- nothing is kept, and what is executed are the entries that were staged at first
      obtain rfl : kept = [] := List.subperm_nil.mp hkept
      rw [List.append_nil] at hperm
      have hlen := (hexecuted.symm.trans (hdone.trans (hperm.flatMap_right _))).length_eq
      rw [List.flatMap_append, List.length_append] at hlen
      have hnone := List.eq_nil_of_length_eq_zero (Nat.left_eq_add.mp hlen)
      rw [List.flatMap_eq_nil_iff] at hnone
      refine List.eq_nil_iff_forall_not_mem.mpr ?_
      intro entry hentry
      obtain ⟨f, a, rfl⟩ := htask entry hentry
      cases hnone _ hentry
    · rintro rfl
      exact ⟨host.staged, [], by simp, hexecuted, List.nil_subperm⟩

/-- A task submits an entry that needs a larger array, which the pool refuses. -/
theorem nested_submissions_kept_iff_refused :
    ∃ context memory',
      create ⟨fun request => request < 5, 0, 0, [], []⟩ 1 none (fun push => push == 1)
        (fun _ => true) = (some context, memory') ∧
      let spawn : SpawnOutcome := ⟨true, true, fun _ => true⟩
      let behaviour : ℕ → List Submission := fun _ => [.submit 2 20]
      let result := play ⟨context, memory'⟩ (State.start []) [(.submit 1 10, [])]
      let dispatch := dispatchNesting result.2.1 spawn behaviour
      let final := handshake.exec { result.2.2 with script := dispatch.1.script }
        (List.replicate 4 (Move.run .main))
      NothingLost (result.2.1.staged ++ dispatch.2) final.1 dispatch.1.host.staged := by
  have hcreate : create ⟨fun request => request < 5, 0, 0, [], []⟩ 1 none (fun push => push == 1)
    (fun _ => true) = (some _, _) := rfl
  refine ⟨_, _, hcreate, ?_⟩
  exact (nested_submissions_kept_iff hcreate (session_play _ [(.submit 1 10, [])] (by decide)) _ _
    (handshake.run_exec _ _) (by decide)).mpr ⟨by decide, trivial⟩

/-- A task submits an entry that is accepted: it is neither executed nor still staged. -/
theorem nested_submission_lost :
    ∃ context memory',
      create ⟨fun _ => true, 0, 0, [], []⟩ 1 none (fun _ => false) (fun _ => true) =
        (some context, memory') ∧
      let spawn : SpawnOutcome := ⟨true, true, fun _ => true⟩
      let behaviour : ℕ → List Submission := fun _ => [.submit 2 20]
      let result := play ⟨context, memory'⟩ (State.start []) [(.submit 1 10, [])]
      let dispatch := dispatchNesting result.2.1 spawn behaviour
      let moves := List.replicate 4 (Move.run .main)
      let final := handshake.exec { result.2.2 with script := dispatch.1.script } moves
      Session ⟨context, memory'⟩ result.1 result.2.1 result.2.2 ∧
        final.2.script = [] ∧ dispatch.1.result = true ∧ dispatch.2 = [.task 2 20] ∧
        executed final.1 = [.task 1 10] ∧ dispatch.1.host.staged = [] ∧
        ¬ NothingLost (result.2.1.staged ++ dispatch.2) final.1 dispatch.1.host.staged := by
  have hcreate : create ⟨fun _ => true, 0, 0, [], []⟩ 1 none (fun _ => false) (fun _ => true) =
    (some _, _) := rfl
  refine ⟨_, _, hcreate, session_play _ _ (by decide), by decide, by decide, by decide, by decide,
    by decide, ?_⟩
  rintro ⟨done, kept, hperm, hdone, hkept⟩
  obtain rfl : kept = [] := List.subperm_nil.mp hkept
  rw [List.append_nil] at hperm
  have hlen := (hdone.trans (hperm.flatMap_right _)).length_eq
  revert hlen
  decide

end BcConcurrency.Pool
