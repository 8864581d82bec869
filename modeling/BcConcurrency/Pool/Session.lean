import BcConcurrency.Pool.Completion
import BcConcurrency.Pool.Dispatch
import BcConcurrency.Pool.Registration

/-!
# Sessions

A session is a sequence of calls of the library by the main thread.  Each call that
has returned left a record: the context it found, and the history of the handshake
while the main thread performed its script.  The workers keep running between the
calls; what they do then belongs to the next record.

The pool may refuse any request and the system may fail to create any thread.
-/

namespace BcConcurrency.Pool

variable {τ : Type*} {t : ℕ}

/-! ### The scripts of the calls -/

/-- What the main thread does on its own: nothing, or its share as worker `t`. -/
def IsShare (t : ℕ) (script : List (MainOp τ)) : Prop :=
  script = [] ∨ ∃ tasks, script = mainShare t tasks

/-- The scripts of the calls, with the value of `workers_spawned` before and after. -/
inductive CallScript (t : ℕ) : Bool → Bool → List (MainOp Invocation) → Prop
  | alone {spawned : Bool} {script : List (MainOp Invocation)} (hshare : IsShare t script) :
      CallScript t spawned spawned script
  | spawnFailed {k : ℕ} (hk : k ≤ t) :
      CallScript t false false (createScript k ++ stopScript k)
  | refused {spawn : SpawnOutcome} {spawned : Bool} {start : List (MainOp Invocation)}
      (hstart : Start spawn t spawned start) : CallScript t spawned true start
  | round {spawn : SpawnOutcome} {spawned : Bool} {start : List (MainOp Invocation)}
      (hstart : Start spawn t spawned start) (r : Round Invocation t)
      (hshare : IsShare t r.mainOps) : CallScript t spawned true (start ++ r.script)

/-- The workers are spawned once. -/
lemma CallScript.spawned_eq {spawned : Bool} {script : List (MainOp Invocation)}
    (hscript : CallScript t true spawned script) : spawned = true := by
  cases hscript <;> rfl

lemma isShare_mainPart (cells : List TaskEntry) (part : ℕ × ℕ) :
    IsShare t (mainPart t cells part) := by
  rw [mainPart]
  split
  · exact Or.inr ⟨_, rfl⟩
  · exact Or.inl rfl

/-- Making room in the dispatch buffer changes nothing but the buffer. -/
lemma growDispatchTasks_frame {context context' : Context} {memory memory' : Memory} {n : ℕ}
    {ok : Bool} (h : growDispatchTasks context memory n = (ok, context', memory')) :
    ∃ buffer capacity, context' =
      { context with dispatchTasks := buffer, dispatchCapacity := capacity } := by
  rw [growDispatchTasks] at h
  split at h
  · dsimp only at h
    split at h <;> cases h <;> exact ⟨_, _, rfl⟩
  · cases h
    exact ⟨_, _, rfl⟩

lemma run_threadCount (host : Host) (call : Call) :
    (call.run host).host.context.threadCount = host.context.threadCount := by
  cases call with
  | registerSlot config =>
    obtain ⟨_, _, _, _, hframe⟩ := registerSlot_frame host.context host.memory config
    show (registerSlot host.context host.memory config).2.1.threadCount = _
    rw [hframe]
  | submit => rfl
  | submitBatch taskFunction taskArguments =>
    simp only [Call.run, submitBatch]
    split <;> rfl
  | dispatchAndWait spawn =>
    have hcases := dispatchAndWait_cases host spawn
    rw [Call.run]
    generalize dispatchAndWait host spawn = o at hcases
    cases hcases with
    | refused _ _ _ hgrow | round _ _ _ hgrow =>
      obtain ⟨_, _, rfl⟩ := growDispatchTasks_frame hgrow
      rfl
    | empty | inline | spawnFailed => rfl
  | parallelFor range spawn =>
    have hcases := parallelFor_cases host range spawn
    rw [Call.run]
    generalize parallelFor host range spawn = o at hcases
    cases hcases <;> rfl

lemma run_callScript (host : Host) (call : Call) :
    CallScript host.context.threadCount host.context.workersSpawned
      (call.run host).host.context.workersSpawned (call.run host).script := by
  cases call with
  | registerSlot config =>
    obtain ⟨_, _, _, _, hframe⟩ := registerSlot_frame host.context host.memory config
    show CallScript _ _ (registerSlot host.context host.memory config).2.1.workersSpawned []
    rw [hframe]
    exact .alone (Or.inl rfl)
  | submit => exact .alone (Or.inl rfl)
  | submitBatch taskFunction taskArguments =>
    simp only [Call.run, submitBatch]
    split <;> exact .alone (Or.inl rfl)
  | dispatchAndWait spawn =>
    have hcases := dispatchAndWait_cases host spawn
    rw [Call.run]
    generalize dispatchAndWait host spawn = o at hcases
    cases hcases with
    | empty => exact .alone (Or.inl rfl)
    | inline => exact .alone (Or.inr ⟨_, rfl⟩)
    | spawnFailed _ _ hspawned hstarted =>
      rw [hspawned]
      exact .spawnFailed hstarted.le
    | refused _ _ hstart hgrow =>
      obtain ⟨_, _, rfl⟩ := growDispatchTasks_frame hgrow
      exact .refused hstart
    | round _ _ hstart hgrow =>
      obtain ⟨_, _, rfl⟩ := growDispatchTasks_frame hgrow
      exact .round hstart _ (isShare_mainPart _ _)
  | parallelFor range spawn =>
    have hcases := parallelFor_cases host range spawn
    rw [Call.run]
    generalize parallelFor host range spawn = o at hcases
    cases hcases with
    | zeroStep | empty => exact .alone (Or.inl rfl)
    | inline => exact .alone (Or.inr ⟨_, rfl⟩)
    | spawnFailed _ _ _ _ hspawned hstarted =>
      rw [hspawned]
      exact .spawnFailed hstarted.le
    | refused _ _ _ _ hstart => exact .refused hstart
    | round _ _ _ _ hstart => exact .round hstart _ (Or.inr ⟨_, rfl⟩)

/-! ### The phases between calls -/

/-- The phases of the workers between two calls. -/
structure Resting (t : ℕ) (spawned : Bool) (final : ℕ → Phase) : Prop where
  running : spawned = true → ∀ i, i < t → final i = .idle ∨ final i = .stopping
  vacant : spawned = false → ∀ i, i < t → final i = .absent ∨ final i = .gone
  above : ∀ i, t ≤ i → final i = .absent

lemma Resting.isOpen_eq {spawned : Bool} {final : ℕ → Phase} (hrest : Resting t spawned final)
    (i : ℕ) : (final i).isOpen = false := by
  by_cases hi : i < t
  · cases spawned with
    | true => rcases hrest.running rfl i hi with h | h <;> rw [h] <;> rfl
    | false => rcases hrest.vacant rfl i hi with h | h <;> rw [h] <;> rfl
  · rw [hrest.above i (not_lt.mp hi)]
    rfl

lemma Resting.ne_stuck {spawned : Bool} {final : ℕ → Phase} (hrest : Resting t spawned final)
    (i : ℕ) : final i ≠ .stuck := by
  by_cases hi : i < t
  · cases spawned with
    | true => rcases hrest.running rfl i hi with h | h <;> simp [h]
    | false => rcases hrest.vacant rfl i hi with h | h <;> simp [h]
  · simp [hrest.above i (not_lt.mp hi)]

/-- No worker was ever told to stop. -/
def Unstopped (final : ℕ → Phase) : Prop := ∀ i, final i = .absent ∨ final i = .idle

lemma after_isShare {script : List (MainOp τ)} (hshare : IsShare t script) (i : ℕ) (p : Phase) :
    p.after i script = some p := by
  rcases hshare with rfl | ⟨tasks, rfl⟩
  · rfl
  · exact Phase.after_of_isLocal fun op => isLocal_of_mem_mainShare

/-- A call that has all workers running leaves those it found absent idle. -/
lemma Start.after {spawn : SpawnOutcome} {spawned : Bool} {start : List (MainOp Invocation)}
    {final : ℕ → Phase} (hstart : Start spawn t spawned start) (hrest : Resting t spawned final) :
    ∃ final', (∀ i, (final i).after i start = some (final' i)) ∧ Resting t true final' ∧
      (Unstopped final → Unstopped final') := by
  cases hstart with
  | spawned => exact ⟨final, fun i => rfl, hrest, id⟩
  | fresh =>
    refine ⟨fun i => if i < t then (final i).created else final i,
      fun i => Phase.after_createScript t ?_, ⟨?_, ?_, ?_⟩, ?_⟩
    · intro hi
      rcases hrest.vacant rfl i hi with h | h <;> rw [h] <;> rfl
    · intro _ i hi
      rw [if_pos hi]
      rcases hrest.vacant rfl i hi with h | h <;> rw [h]
      · exact Or.inl rfl
      · exact Or.inr rfl
    · intro hfalse
      cases hfalse
    · intro i hi
      rw [if_neg (not_lt.mpr hi)]
      exact hrest.above i hi
    · intro hclean i
      dsimp only
      split
      · rcases hclean i with h | h <;> rw [h] <;> exact Or.inr rfl
      · exact hclean i

/-- What a call does to the phases, unless it waits for lost work.  A worker that
must stop is told so. -/
lemma CallScript.after {spawned spawned' : Bool} {script : List (MainOp Invocation)}
    {final : ℕ → Phase} (hscript : CallScript t spawned spawned' script)
    (hrest : Resting t spawned final) :
    ∃ final', (∀ i, (final i).after i script = some (final' i)) ∧
      ((∀ i, final' i ≠ .stuck) → Resting t spawned' final') ∧
      (Unstopped final → (∀ i, .stop i ∉ script) → Unstopped final') := by
  cases hscript with
  | alone hshare =>
    exact ⟨final, fun i => after_isShare hshare i _, fun _ => hrest, fun hclean _ => hclean⟩
  | @spawnFailed k hk =>
    -- the workers that were created are stopped and joined again
    refine ⟨fun i => if i < k then .gone else final i, fun i => ?_,
      fun _ => ⟨?_, fun _ i hi => ?_, fun i hi => ?_⟩, fun hclean hstop => ?_⟩
    · refine Phase.after_createScript_stopScript k ?_
      intro hi
      rcases hrest.vacant rfl i (hi.trans_le hk) with h | h <;> rw [h] <;> rfl
    · intro hfalse
      cases hfalse
    · split
      · exact Or.inr rfl
      · exact hrest.vacant rfl i hi
    · rw [if_neg (by omega)]
      exact hrest.above i hi
    · rcases Nat.eq_zero_or_pos k with rfl | hpos
      · simpa using hclean
      · refine absurd ?_ (hstop 0)
        simp [stopScript, hpos]
  | refused hstart =>
    obtain ⟨final', hafter, hrest', hclean⟩ := hstart.after hrest
    exact ⟨final', hafter, fun _ => hrest', fun h _ => hclean h⟩
  | round hstart r hshare =>
    obtain ⟨final', hafter, hrest', hclean⟩ := hstart.after hrest
    -- a round serves the workers that it dispatches to and leaves the others
    refine ⟨fun i => if i ∈ r.assignments.map Prod.fst then (final' i).served else final' i,
      ?_, fun hstuck => ⟨?_, ?_, ?_⟩, ?_⟩
    · intro i
      rw [Phase.after_append, hafter, Option.bind_some]
      exact r.after_script (hrest'.running rfl i)
    · intro _ i hi
      have hne := hstuck i
      dsimp only at hne ⊢
      split at hne
      · rcases hrest'.running rfl i hi with h | h
        · rw [if_pos ‹_›, h]
          exact Or.inl rfl
        · rw [h] at hne
          exact absurd rfl hne
      · rw [if_neg ‹_›]
        exact hrest'.running rfl i hi
    · intro hfalse
      cases hfalse
    · intro i hi
      rw [if_neg fun hmem => (r.lt i hmem).not_ge hi]
      exact hrest'.above i hi
    · intro h _ i
      dsimp only
      split
      · rcases hclean h i with h | h <;> rw [h]
        · exact Or.inl rfl
        · exact Or.inr rfl
      · exact hclean h i

/-! ### Whose worker a task is charged to -/

/-- The worker that a thread stands for. -/
def Thread.index (t : ℕ) : Thread → ℕ
  | .main => t
  | .worker i => i

/-- The thread and the value of `tls_worker` of the start or the end of a task. -/
def taskOf : Event τ → Option (Thread × Option ℕ)
  | .started thread tls _ | .finished thread tls _ => some (thread, tls)
  | _ => none

/-- The script runs tasks only while `tls_worker` points to worker `t`, and resets it
at the end. -/
def Charged (t : ℕ) : Option ℕ → List (MainOp τ) → Prop
  | tls, [] => tls = none
  | _, .setTls worker :: rest => Charged t worker rest
  | tls, .run _ :: rest => tls = some t ∧ Charged t tls rest
  | tls, _ :: rest => Charged t tls rest

namespace Charged

lemma append {tls : Option ℕ} {script script' : List (MainOp τ)} (h : Charged t tls script)
    (h' : Charged t none script') : Charged t tls (script ++ script') := by
  induction script generalizing tls with
  | nil =>
    obtain rfl : tls = none := h
    exact h'
  | cons op script ih =>
    cases op with
    | run => exact ⟨h.1, ih h.2⟩
    | create | dispatch | setTls | wait | stop | join => exact ih h

lemma of_not_isLocal {script : List (MainOp τ)} (h : ∀ op ∈ script, op.isLocal = false) :
    Charged t none script := by
  induction script with
  | nil => rfl
  | cons op script ih =>
    have hop := h op (List.mem_cons_self ..)
    have hrest := ih fun op' hmem => h op' (List.mem_cons_of_mem _ hmem)
    cases op with
    | setTls | run => cases hop
    | create | dispatch | wait | stop | join => exact hrest

lemma map_of_not_isLocal {α : Type*} {f : α → MainOp τ} (h : ∀ a, (f a).isLocal = false)
    (l : List α) : Charged t none (l.map f) :=
  of_not_isLocal fun op hop => by
    obtain ⟨a, -, rfl⟩ := List.mem_map.mp hop
    exact h a

lemma of_isShare {script : List (MainOp τ)} (hshare : IsShare t script) :
    Charged t none script := by
  rcases hshare with rfl | ⟨tasks, rfl⟩
  · rfl
  · show Charged t (some t) (tasks.map .run ++ [.setTls none])
    induction tasks with
    | nil => rfl
    | cons task tasks ih => exact ⟨rfl, ih⟩

lemma createScript (k : ℕ) : Charged t none (createScript k : List (MainOp τ)) :=
  map_of_not_isLocal (fun _ => rfl) _

lemma stopScript (k : ℕ) : Charged t none (stopScript k : List (MainOp τ)) :=
  (map_of_not_isLocal (fun _ => rfl) _).append (map_of_not_isLocal (fun _ => rfl) _)

lemma start {spawn : SpawnOutcome} {spawned : Bool} {script : List (MainOp Invocation)}
    (hstart : Start spawn t spawned script) : Charged t none script := by
  cases hstart with
  | spawned => rfl
  | fresh => exact createScript t

lemma callScript {spawned spawned' : Bool} {script : List (MainOp Invocation)}
    (hscript : CallScript t spawned spawned' script) : Charged t none script := by
  cases hscript with
  | alone hshare => exact of_isShare hshare
  | spawnFailed => exact (createScript _).append (stopScript _)
  | refused hstart => exact start hstart
  | round hstart r hshare =>
    exact (start hstart).append (((map_of_not_isLocal (fun _ => rfl) _).append
      (of_isShare hshare)).append (map_of_not_isLocal (fun _ => rfl) _))

/-- Tasks start and end with `tls_worker` pointing to the worker of their thread. -/
lemma step {s s' : State τ} {e : Event τ} (h : Charged t s.tls s.script)
    (htrans : Transition s e s') :
    Charged t s'.tls s'.script ∧
      ∀ thread tls, taskOf e = some (thread, tls) → tls = some (thread.index t) := by
  cases htrans with
  | created hscript | dispatched hscript | stopped hscript | joined hscript | waitReturned hscript
  | tlsSet hscript =>
    rw [hscript] at h
    exact ⟨h, by simp [taskOf]⟩
  | finished hscript =>
    rw [hscript] at h
    refine ⟨h.2, ?_⟩
    simp only [taskOf, Option.some.injEq, Prod.mk.injEq]
    rintro thread tls ⟨rfl, rfl⟩
    exact h.1
  | started hscript =>
    refine ⟨h, ?_⟩
    rw [hscript] at h
    simp only [taskOf, Option.some.injEq, Prod.mk.injEq]
    rintro thread tls ⟨rfl, rfl⟩
    exact h.1
  | worker htrans =>
    refine ⟨h, ?_⟩
    cases htrans with
    | started | finished =>
      simp only [taskOf, Option.some.injEq, Prod.mk.injEq]
      rintro thread tls ⟨rfl, rfl⟩
      rfl
    | slept | exited | took | crashed | reported => simp [taskOf]
  | reported =>
    -- the report of a worker only wakes the main thread
    rw [State.signalDone_eq]
    exact ⟨h, by simp [taskOf]⟩
  | mainSlept | mainWoken | workerWoken => exact ⟨h, by simp [taskOf]⟩

/-- In a run, every task starts and ends charged to the worker of its thread. -/
lemma run {s₀ s : State τ} {h : List (Event τ)} (hcharged : Charged t s₀.tls s₀.script)
    (hrun : handshake.Run s₀ h s) :
    Charged t s.tls s.script ∧
      ∀ e ∈ h, ∀ thread tls, taskOf e = some (thread, tls) → tls = some (thread.index t) := by
  induction hrun with
  | nil => exact ⟨hcharged, by simp⟩
  | snoc _ hs ih =>
    obtain ⟨hcharged', htask⟩ := ih.1.step (handshake_inv hs)
    refine ⟨hcharged', ?_⟩
    intro e he
    rcases List.mem_append.mp he with he | he
    · exact ih.2 e he
    · obtain rfl := List.mem_singleton.mp he
      exact htask

end Charged

/-! ### Sessions -/

/-- A call that has returned. -/
structure Record where
  /-- The context and the pool that the call found. -/
  host : Host
  call : Call
  /-- What happened from the beginning of the call to its return. -/
  history : List (Event Invocation)

/-- What a recorded call did. -/
def Record.outcome (record : Record) : Outcome := record.call.run record.host

/-- The session that starts in a context without threads leads to the records, the
context and the state between two calls. -/
inductive Session (host₀ : Host) : List Record → Host → State Invocation → Prop
  | start : Session host₀ [] host₀ (State.start [])
  | call {records : List Record} {host : Host} {s s' : State Invocation}
      {h : List (Event Invocation)} (call : Call) (hsession : Session host₀ records host s)
      (hrun : handshake.Run { s with script := (call.run host).script } h s')
      (hreturn : s'.script = []) :
      Session host₀ (records ++ [⟨host, call, h⟩]) (call.run host).host s'

/-- The history of a session. -/
def histories (records : List Record) : List (Event Invocation) := records.flatMap Record.history

@[simp] lemma histories_nil : histories [] = [] := rfl

@[simp] lemma histories_append (records records' : List Record) :
    histories (records ++ records') = histories records ++ histories records' :=
  List.flatMap_append

@[simp] lemma histories_singleton (record : Record) : histories [record] = record.history :=
  List.flatMap_singleton ..

/-- The state between two calls. -/
structure Between (host : Host) (h : List (Event Invocation)) (s : State Invocation)
    (final : ℕ → Phase) : Prop where
  inv : Invariant final h s
  rest : Resting host.context.threadCount host.context.workersSpawned final
  done : s.script = []
  tls : s.tls = none

namespace Between

variable {host : Host} {h : List (Event Invocation)} {s : State Invocation} {final : ℕ → Phase}

lemma worker (hb : Between host h s final) (i : ℕ) : WorkerInv i (final i) h (s.workers i) := by
  obtain ⟨p, hw, hafter⟩ := hb.inv.worker i
  obtain rfl : p = final i := by simpa [hb.done] using hafter
  exact hw

lemma inTask_eq_false (hb : Between host h s final) : s.inTask = false := by
  by_contra hin
  obtain ⟨task, rest, hscript⟩ := hb.inv.inTask (by simpa using hin)
  simp [hb.done] at hscript

/-- Between calls everything that was dispatched has been run. -/
lemma ran_worker (hb : Between host h s final) (i : ℕ) :
    ran (.worker i) h = (dispatches i h).flatten :=
  ((hb.worker i).settled (hb.rest.isOpen_eq i)).2.1

/-- Between calls no thread is in a task. -/
lemma current_eq_nil (hb : Between host h s final) (thread : Thread) : s.current thread = [] := by
  cases thread with
  | main => simp [State.current, hb.inTask_eq_false]
  | worker i =>
    have hfits := (hb.worker i).fits
    have hpc : (s.workers i).pc = .absent ∨ (s.workers i).Waiting ∨ (s.workers i).pc = .exited := by
      by_cases hi : i < host.context.threadCount
      · rcases hspawned : host.context.workersSpawned with _ | _
        · rcases hb.rest.vacant hspawned i hi with hp | hp <;> rw [hp] at hfits <;>
            exact Or.inl hfits.1
        · rcases hb.rest.running hspawned i hi with hp | hp <;> rw [hp] at hfits
          · exact Or.inr (Or.inl hfits.1)
          · exact hfits.1.elim (fun h => Or.inr (Or.inl (Or.inl h))) fun h => Or.inr (Or.inr h)
      · rw [hb.rest.above i (not_lt.mp hi)] at hfits
        exact Or.inl hfits.1
    rcases hpc with hpc | (hpc | hpc) | hpc <;> simp [State.current, hpc]

lemma current_load (hb : Between host h s final) (script : List (MainOp Invocation))
    (thread : Thread) : State.current { s with script := script } thread = [] := by
  have hrest := hb.current_eq_nil thread
  cases thread with
  | main => simp [State.current, hb.inTask_eq_false]
  | worker i => exact hrest

/-- Between calls the threads have finished what they started. -/
lemma phases_load (hb : Between host h s final) (call : Call) :
    ∃ final', Invariant final' h { s with script := (call.run host).script } ∧
      ((∀ i, final' i ≠ .stuck) → Resting host.context.threadCount
        (call.run host).host.context.workersSpawned final') ∧
      (Unstopped final → (∀ i, .stop i ∉ (call.run host).script) → Unstopped final') := by
  obtain ⟨final', hafter, hrest, hclean⟩ := (run_callScript host call).after hb.rest
  exact ⟨final', hb.inv.load hb.done hafter, hrest, hclean⟩

lemma charged (hb : Between host h s final) (call : Call) :
    Charged host.context.threadCount s.tls (call.run host).script := by
  rw [hb.tls]
  exact Charged.callScript (run_callScript host call)

/-- A call that returns leads from one state between calls to the next. -/
lemma call {s' : State Invocation} {h' : List (Event Invocation)} (hb : Between host h s final)
    (call : Call) (hrun : handshake.Run { s with script := (call.run host).script } h' s')
    (hreturn : s'.script = []) :
    ∃ final', Between (call.run host).host (h ++ h') s' final' ∧
      (Unstopped final → (∀ i, .stop i ∉ (call.run host).script) → Unstopped final') := by
  obtain ⟨final', hload, hrest, hclean⟩ := hb.phases_load call
  have hinv := hload.run hrun
  have htls := ((hb.charged call).run hrun).1
  rw [hreturn] at htls
  refine ⟨final', ⟨hinv, ?_, hreturn, htls⟩, hclean⟩
  rw [run_threadCount]
  exact hrest (hinv.final_ne_stuck hreturn)

end Between

/-- Make calls, each with the moves of the threads until it returns. -/
def play (host : Host) (s : State Invocation) :
    List (Call × List Move) → List Record × Host × State Invocation
  | [] => ([], host, s)
  | (call, moves) :: calls =>
      let result := handshake.exec { s with script := (call.run host).script } moves
      let rest := play (call.run host).host result.2 calls
      (⟨host, call, result.1⟩ :: rest.1, rest.2)

/-- Every call returns. -/
def allReturn (host : Host) (s : State Invocation) : List (Call × List Move) → Bool
  | [] => true
  | (call, moves) :: calls =>
      let result := handshake.exec { s with script := (call.run host).script } moves
      result.2.script.isEmpty && allReturn (call.run host).host result.2 calls

lemma Session.play {host₀ host : Host} {records : List Record} {s : State Invocation}
    (hsession : Session host₀ records host s) (calls : List (Call × List Move))
    (hreturn : allReturn host s calls = true) :
    Session host₀ (records ++ (Pool.play host s calls).1) (Pool.play host s calls).2.1
      (Pool.play host s calls).2.2 := by
  induction calls generalizing records host s with
  | nil => simpa [Pool.play] using hsession
  | cons entry calls ih =>
    obtain ⟨call, moves⟩ := entry
    simp only [allReturn, Bool.and_eq_true, List.isEmpty_iff] at hreturn
    have hnext := hsession.call call (handshake.run_exec _ moves) hreturn.1
    simpa [Pool.play, List.append_assoc] using ih hnext hreturn.2

lemma session_play (host₀ : Host) (calls : List (Call × List Move))
    (hreturn : allReturn host₀ (State.start []) calls = true) :
    Session host₀ (play host₀ (State.start []) calls).1 (play host₀ (State.start []) calls).2.1
      (play host₀ (State.start []) calls).2.2 := by
  simpa using Session.start.play calls hreturn

/-! ### What a record contains -/

/-- The history of a call that has returned contains its script and nothing else. -/
structure Performs (t : ℕ) (script : List (MainOp Invocation)) (h : List (Event Invocation)) :
    Prop where
  main : ran .main h = script.filterMap MainOp.task
  worker : ∀ i, ran (.worker i) h = (script.filterMap (MainOp.dispatchTo i)).flatten
  /-- No task was started but those that were finished. -/
  begun : ∀ thread, begun thread h = ran thread h
  /-- Every task was charged to the worker of its thread. -/
  charged : ∀ e ∈ h, ∀ thread tls, taskOf e = some (thread, tls) → tls = some (thread.index t)

/-- Before the first call there are no workers. -/
lemma Between.start {host : Host} (hspawned : host.context.workersSpawned = false) :
    Between host [] (State.start []) fun _ => .absent := by
  refine ⟨Invariant.init none, ⟨?_, fun _ i _ => Or.inl rfl, fun i _ => rfl⟩, rfl, rfl⟩
  intro h
  rw [hspawned] at h
  cases h

lemma Between.performs {host : Host} {h h' : List (Event Invocation)} {s s' : State Invocation}
    {final : ℕ → Phase} (hb : Between host h s final) (call : Call)
    (hrun : handshake.Run { s with script := (call.run host).script } h' s')
    (hreturn : s'.script = []) : Performs host.context.threadCount (call.run host).script h' := by
  obtain ⟨final₁, hload, -⟩ := hb.phases_load call
  obtain ⟨final₂, hb', -⟩ := hb.call call hrun hreturn
  have hperformed : performed h' = (call.run host).script := by
    simpa [hreturn] using performed_run hrun
  refine ⟨?_, ?_, ?_, ((hb.charged call).run hrun).2⟩
  · rw [ran_main_eq_performed, hperformed]
  · intro i
    have hran := hb'.ran_worker i
    rw [ran_append, dispatches_append, List.flatten_append, hb.ran_worker i] at hran
    rw [List.append_cancel_left hran, dispatches_eq_performed, hperformed]
  · intro thread
    rw [begun_run hload (hb.current_load _) hrun, hb'.current_eq_nil, List.append_nil]

namespace Session

variable {host₀ host : Host} {records : List Record} {s : State Invocation}

/-- Between the calls of a session the workers rest. -/
theorem between (hspawned : host₀.context.workersSpawned = false)
    (hsession : Session host₀ records host s) : ∃ final, Between host (histories records) s final := by
  induction hsession with
  | start => exact ⟨_, Between.start hspawned⟩
  | call call _ hrun hreturn ih =>
    obtain ⟨final, hb⟩ := ih
    obtain ⟨final', hb', -⟩ := hb.call call hrun hreturn
    exact ⟨final', by simpa using hb'⟩

/-- As long as no call told a worker to stop, no worker was stopped. -/
theorem between_unstopped (hspawned : host₀.context.workersSpawned = false)
    (hsession : Session host₀ records host s)
    (hstop : ∀ r ∈ records, ∀ i, .stop i ∉ r.outcome.script) :
    ∃ final, Between host (histories records) s final ∧ Unstopped final := by
  induction hsession with
  | start => exact ⟨_, Between.start hspawned, fun i => Or.inl rfl⟩
  | call call _ hrun hreturn ih =>
    obtain ⟨final, hb, hclean⟩ := ih fun r hr => hstop r (List.mem_append_left _ hr)
    obtain ⟨final', hb', hclean'⟩ := hb.call call hrun hreturn
    refine ⟨final', by simpa using hb', hclean' hclean ?_⟩
    exact hstop _ (List.mem_append_right _ (List.mem_singleton_self _))

/-- A session passes through the state before each of its calls. -/
lemma split {pre post : List Record} {record : Record}
    (hsession : Session host₀ (pre ++ record :: post) host s) :
    ∃ s₁ s₂, Session host₀ pre record.host s₁ ∧
      handshake.Run { s₁ with script := record.outcome.script } record.history s₂ ∧
      s₂.script = [] ∧ Session host₀ (pre ++ [record]) record.outcome.host s₂ := by
  generalize hrecords : pre ++ record :: post = records at hsession
  induction hsession generalizing post with
  | start => simp at hrecords
  | @call records host s s' h call hsession hrun hreturn ih =>
    rcases List.eq_nil_or_concat post with rfl | ⟨post, last, rfl⟩
    · obtain ⟨rfl, hlast⟩ := List.append_inj' hrecords rfl
      simp only [List.cons.injEq, and_true] at hlast
      subst hlast
      exact ⟨s, s', hsession, hrun, hreturn, Session.call call hsession hrun hreturn⟩
    · rw [List.concat_eq_append, ← List.cons_append, ← List.append_assoc] at hrecords
      exact ih (List.append_inj' hrecords rfl).1

/-- The last call of a session leaves the context of the session. -/
lemma last {record : Record} (hsession : Session host₀ (records ++ [record]) host s) :
    host = record.outcome.host ∧ ∃ s₁, Session host₀ records record.host s₁ := by
  generalize hrecords : records ++ [record] = records' at hsession
  cases hsession with
  | start => simp at hrecords
  | call call hsession =>
    obtain ⟨rfl, hlast⟩ := List.append_inj' hrecords rfl
    simp only [List.cons.injEq, and_true] at hlast
    subst hlast
    exact ⟨rfl, _, hsession⟩

/-- Every record of a session contains the script of its call. -/
theorem performs (hspawned : host₀.context.workersSpawned = false)
    (hsession : Session host₀ records host s) {record : Record} (hr : record ∈ records) :
    Performs record.host.context.threadCount record.outcome.script record.history := by
  obtain ⟨pre, post, rfl⟩ := List.append_of_mem hr
  obtain ⟨s₁, s₂, hpre, hrun, hreturn, -⟩ := hsession.split
  obtain ⟨final, hb⟩ := hpre.between hspawned
  exact hb.performs record.call hrun hreturn

/-- What a session leaves is what its calls compute, however the threads interleave. -/
lemma host_eq (hsession : Session host₀ records host s) :
    host = host₀.after (records.map Record.call) := by
  induction hsession with
  | start => rfl
  | call call _ _ _ ih =>
    rw [List.map_append, Host.after_append, ← ih]
    rfl

lemma threadCount_eq (hsession : Session host₀ records host s) :
    host.context.threadCount = host₀.context.threadCount := by
  induction hsession with
  | start => rfl
  | call call _ _ _ ih => rw [run_threadCount, ih]

lemma threadCount_of_mem (hsession : Session host₀ records host s) {r : Record}
    (hr : r ∈ records) : r.host.context.threadCount = host₀.context.threadCount := by
  obtain ⟨pre, post, rfl⟩ := List.append_of_mem hr
  obtain ⟨_, _, hpre, -⟩ := hsession.split
  exact hpre.threadCount_eq

end Session

/-! ### Everything that is executed -/

/-- The tasks that were run to their end, by whichever thread. -/
def executed (h : List (Event τ)) : List τ :=
  h.filterMap fun
    | .finished _ _ task => some task
    | _ => none

@[simp] lemma executed_append (h h' : List (Event τ)) :
    executed (h ++ h') = executed h ++ executed h' := List.filterMap_append

/-- What is executed is what the main thread and the workers below `t` have run, if no
other worker has run anything. -/
lemma executed_eq (h : List (Event τ)) (habove : ∀ i, t ≤ i → ran (.worker i) h = []) :
    (executed h : Multiset τ) =
      ran .main h + ∑ i ∈ Finset.range t, (ran (.worker i) h : Multiset τ) := by
  induction h with
  | nil => simp [executed]
  | cons e h ih =>
    have hcons (thread : Thread) : ran thread (e :: h) = (finishedBy thread e).toList ++ ran thread h := by
      rw [← List.singleton_append, ran_append, ran_singleton]
    -- nothing of the first event, and of the rest, is run above `t`
    have habove' (i : ℕ) (hi : t ≤ i) : finishedBy (.worker i) e = none ∧ ran (.worker i) h = [] := by
      have hnil := habove i hi
      rw [hcons, List.append_eq_nil_iff] at hnil
      exact ⟨by simpa using hnil.1, hnil.2⟩
    -- the first event is counted at the thread that runs it
    have hhead : (executed [e] : Multiset τ) = (finishedBy .main e).toList +
        ∑ i ∈ Finset.range t, ((finishedBy (.worker i) e).toList : Multiset τ) := by
      cases e with
      | finished thread tls task =>
        cases thread with
        | main => simp [executed, finishedBy]
        | worker j =>
          have hj : j < t := by
            by_contra hj
            have := (habove' j (not_lt.mp hj)).1
            simp [finishedBy] at this
          have hpart (i : ℕ) : ((finishedBy (.worker i)
              (.finished (.worker j) tls task)).toList : Multiset τ) = if j = i then {task} else 0 := by
            by_cases hi : j = i <;> simp [finishedBy, hi]
          simp only [hpart, Finset.sum_ite_eq, Finset.mem_range, hj, if_true]
          simp [executed, finishedBy]
      | _ => simp [executed, finishedBy]
    rw [← List.singleton_append, executed_append, ← Multiset.coe_add, hhead,
      ih fun i hi => (habove' i hi).2]
    simp only [List.singleton_append, hcons, ← Multiset.coe_add, Finset.sum_add_distrib]
    abel

lemma coe_flatMap_range {α : Type*} (f : ℕ → List α) (n : ℕ) :
    ((List.range n).flatMap f : Multiset α) = ∑ i ∈ Finset.range n, (f i : Multiset α) := by
  induction n with
  | zero => rfl
  | succ n ih =>
    rw [List.range_succ, List.flatMap_append, List.flatMap_singleton, ← Multiset.coe_add, ih,
      Finset.sum_range_succ]

/-- The tasks that a script runs on the main thread or hands to the workers below `t`. -/
def tasksOf (t : ℕ) (script : List (MainOp τ)) : Multiset τ :=
  script.filterMap MainOp.task +
    ∑ i ∈ Finset.range t, ((script.filterMap (MainOp.dispatchTo i)).flatten : Multiset τ)

lemma tasksOf_of_not_dispatch {script : List (MainOp τ)}
    (h : ∀ i, script.filterMap (MainOp.dispatchTo i) = []) :
    tasksOf t script = script.filterMap MainOp.task := by
  simp [tasksOf, h]

/-- A call hands nothing to a worker that does not exist. -/
lemma CallScript.filterMap_dispatchTo {spawned spawned' : Bool}
    {script : List (MainOp Invocation)} (hscript : CallScript t spawned spawned' script) {i : ℕ}
    (hi : t ≤ i) : script.filterMap (MainOp.dispatchTo i) = [] := by
  cases hscript with
  | alone hshare =>
    rcases hshare with rfl | ⟨tasks, rfl⟩
    · rfl
    · exact filterMap_dispatchTo_of_isLocal (fun _ => isLocal_of_mem_mainShare) i
  | spawnFailed => simp
  | refused hstart => exact hstart.filterMap_dispatchTo i
  | round hstart r =>
    rw [List.filterMap_append, hstart.filterMap_dispatchTo, List.nil_append,
      Round.filterMap_script, Round.worksOf, List.filterMap_eq_nil_iff]
    intro a ha
    have hlt := r.lt a.1 (List.mem_map_of_mem ha)
    exact if_neg (by omega)

/-- What is executed in a record is what its script says. -/
lemma Performs.executed_eq {host : Host} {call : Call} {h : List (Event Invocation)}
    (hperforms : Performs host.context.threadCount (call.run host).script h) :
    (executed h : Multiset Invocation) =
      tasksOf host.context.threadCount (call.run host).script := by
  have habove (i : ℕ) (hi : host.context.threadCount ≤ i) : ran (.worker i) h = [] := by
    rw [hperforms.worker, (run_callScript host call).filterMap_dispatchTo hi, List.flatten_nil]
  rw [Pool.executed_eq h habove, hperforms.main, tasksOf]
  simp only [hperforms.worker]

end BcConcurrency.Pool
