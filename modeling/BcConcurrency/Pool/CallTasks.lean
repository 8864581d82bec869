import BcConcurrency.Pool.ParallelLoop
import BcConcurrency.Pool.StagedTasks

/-!
# The tasks of a call

Which tasks a call runs does not depend on the number of threads.  A context without
worker threads runs them in a fixed order on the main thread; with worker threads they
are the same tasks in some order.
-/

namespace BcConcurrency.Pool

/-- The calls of the function of a loop in the order of a single thread. -/
def ForRange.inOrder (range : ForRange) : List Invocation :=
  if range.startIndex < range.endIndex then range.iterations range.totalIterations else []

/-- The tasks of a call in the order of a single thread. -/
def Call.tasks (host : Host) : Call → List Invocation
  | .dispatchAndWait spawn =>
      if (Pool.dispatchAndWait host spawn).result then
        host.staged.flatMap TaskEntry.invocations
      else []
  | .parallelFor range spawn =>
      if (Pool.parallelFor host range spawn).result then range.inOrder else []
  | .registerSlot _ | .submit _ _ | .submitBatch _ _ => []

/-- The tasks of a call that has returned. -/
def Record.tasks (record : Record) : List Invocation := record.call.tasks record.host

/-! ### The order of a single thread -/

lemma ForRange.coe_inOrder {range : ForRange} (hstep : 0 < range.stepSize) :
    (range.inOrder : Multiset Invocation) = range.invocations := by
  rw [inOrder]
  split
  case isTrue hlt =>
    rw [iterations_eq hstep hlt le_rfl]
    exact map_iteration_range hstep hlt
  case isFalse hempty => exact (invocations_of_empty (not_lt.mp hempty)).symm

/-- What is executed in a call are its tasks. -/
lemma Performs.executed_perm_tasks {host : Host} {call : Call} {h : List (Event Invocation)}
    (hcap : Capacious host.context)
    (hperforms : Performs host.context.threadCount (call.run host).script h) :
    (executed h).Perm (call.tasks host) := by
  rw [← Multiset.coe_eq_coe, hperforms.executed_eq]
  cases call with
  | registerSlot config | submit taskFunction taskArgument =>
    exact tasksOf_of_not_dispatch fun _ => rfl
  | submitBatch taskFunction taskArguments =>
    rw [Call.run, submitBatch_script]
    exact tasksOf_of_not_dispatch fun _ => rfl
  | dispatchAndWait spawn =>
    refine (tasksOf_dispatchAndWait hcap spawn).trans ?_
    rw [Call.tasks]
    split <;> rfl
  | parallelFor range spawn =>
    refine (tasksOf_parallelFor host range spawn).trans ?_
    rw [Call.tasks]
    split
    case isTrue hresult => exact (ForRange.coe_inOrder (stepSize_pos_of_result hresult)).symm
    case isFalse => rfl

/-- Without worker threads a call runs its tasks in order. -/
lemma filterMap_task_of_threadCount {host : Host} (hthreads : host.context.threadCount = 0)
    (call : Call) : (call.run host).script.filterMap MainOp.task = call.tasks host := by
  cases call with
  | registerSlot config | submit taskFunction taskArgument => rfl
  | submitBatch taskFunction taskArguments =>
    rw [Call.run, submitBatch_script]
    rfl
  | dispatchAndWait spawn =>
    have hcases := dispatchAndWait_cases host spawn
    rw [Call.run, Call.tasks, Host.staged]
    generalize dispatchAndWait host spawn = o at hcases
    cases hcases with
    | empty hempty =>
      rw [hempty]
      rfl
    | inline => exact filterMap_task_mainShare _ _
    | spawnFailed hpos | refused hpos | round hpos => omega
  | parallelFor range spawn =>
    have hcases := parallelFor_cases host range spawn
    rw [Call.run, Call.tasks]
    generalize parallelFor host range spawn = o at hcases
    cases hcases with
    | zeroStep => rfl
    | empty _ hempty =>
      rw [if_pos rfl, ForRange.inOrder, if_neg (not_lt.mpr hempty)]
      rfl
    | inline _ hlt =>
      rw [if_pos rfl, ForRange.inOrder, if_pos hlt]
      exact filterMap_task_mainShare _ _
    | spawnFailed _ _ hpos | refused _ _ hpos | round _ _ hpos => omega

lemma executed_histories (records : List Record) :
    executed (histories records) = records.flatMap fun r => executed r.history :=
  List.filterMap_flatMap ..

lemma ran_histories (thread : Thread) (records : List Record) :
    ran thread (histories records) = records.flatMap fun r => ran thread r.history :=
  List.filterMap_flatMap ..

end BcConcurrency.Pool
