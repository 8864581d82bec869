import BcConcurrency.Pool.SharedScripts
import BcConcurrency.Pool.Termination

/-!
# Sessions over shared memory

Sessions in which the calls store and read the records they share.  Each of them is a
session of the handshake; no thread reads a record that is not there or is being
written, and between calls no worker knows any address.
-/

namespace BcConcurrency.Pool

/-! ### The blocks of a context -/

/-- The memory has the two blocks that a context shares with its workers. -/
structure Placed (host : Host) (store : Store) : Prop where
  tasks : store.size host.context.dispatchTasks.block =
    some (host.context.dispatchCapacity * taskEntryBytes)
  work : store.size host.context.dispatchWork = some ((host.context.threadCount + 1) * workBytes)

/-- What the calls rely on between two calls. -/
structure Ready (host : Host) : Prop where
  capacious : Capacious host.context
  plain : Plain host.context.staging.data
  threads : host.context.threadCount < 2 ^ 32
  tabled : ∃ configs datas foreign, host.Tabled configs datas foreign

/-- The shared blocks of a context are two, and older than any block to come. -/
lemma shared_blocks_of_owns {context : Context} {memory : Memory} {foreign : Multiset ℕ}
    (hown : memory.Owns (context.blocks + foreign)) :
    context.dispatchTasks.block ≠ context.dispatchWork ∧
      context.dispatchTasks.block < memory.requests ∧ context.dispatchWork < memory.requests := by
  have hblocks : context.blocks = {context.dispatchTasks.block} + ({context.dispatchWork} +
      ({context.block} + {context.staging.block} + blockOf context.threads +
        {context.workersBlock} + blockOf (context.slotConfigs.map ConfigArray.block) +
        (context.workers.map Worker.blocks).sum)) := by
    rw [Context.blocks]
    abel
  have hnodup := Multiset.nodup_of_le (Multiset.le_add_right _ foreign) hown.nodup
  rw [hblocks, Multiset.singleton_add, Multiset.nodup_cons] at hnodup
  refine ⟨fun heq => hnodup.1 (by simp [heq]), hown.lt _ ?_, hown.lt _ ?_⟩ <;> simp [hblocks]

section Calls

variable {host : Host} {store : Store}

/-- Every call stages functions of the client only. -/
lemma plain_run (hcap : Capacious host.context) (hplain : Plain host.context.staging.data)
    (call : Call) : Plain (call.run host).host.context.staging.data := by
  cases call with
  | registerSlot config =>
    obtain ⟨_, _, _, _, hframe⟩ := registerSlot_frame host.context host.memory config
    show Plain (registerSlot host.context host.memory config).2.1.staging.data
    rw [hframe]
    exact hplain
  | submit f a =>
    show Plain (host.context.staging.push host.memory (.task f a)).2.1.data
    rcases host.context.staging.push_cases host.memory (.task f a) with ⟨-, hdata, -⟩ | ⟨-, hdata⟩
    · rw [hdata]
      intro entry hentry
      rcases List.mem_append.mp hentry with hentry | hentry
      · exact hplain entry hentry
      · exact ⟨f, a, List.mem_singleton.mp hentry⟩
    · rw [hdata]
      exact hplain
  | submitBatch f arguments =>
    simp only [Call.run, submitBatch]
    split
    · exact hplain
    · obtain ⟨pushed, hsub, hdata, -⟩ :=
        pushAll_data f arguments host.context.staging host.memory hcap.staged
      show Plain (pushAll f arguments host.context.staging host.memory).2.1.data
      rw [hdata]
      intro entry hentry
      rcases List.mem_append.mp hentry with hentry | hentry
      · exact hplain entry hentry
      · obtain ⟨a, -, rfl⟩ := List.mem_map.mp (hsub.subset hentry)
        exact ⟨f, a, rfl⟩
  | dispatchAndWait spawn =>
    have hcases := dispatchAndWait_cases host spawn
    rw [Call.run]
    generalize dispatchAndWait host spawn = o at hcases
    cases hcases with
    | empty | spawnFailed => exact hplain
    | inline => simp [Plain, Staging.clear]
    | refused _ _ _ hgrow =>
      obtain ⟨_, _, rfl⟩ := growDispatchTasks_frame hgrow
      exact hplain
    | round => simp [Plain, Staging.clear]
  | parallelFor range spawn =>
    have hcases := parallelFor_cases host range spawn
    rw [Call.run]
    generalize parallelFor host range spawn = o at hcases
    cases hcases <;> exact hplain

lemma Ready.run (hready : Ready host) (call : Call) : Ready (call.run host).host := by
  obtain ⟨configs, datas, foreign, htabled⟩ := hready.tabled
  obtain ⟨configs', datas', htabled', -⟩ := htabled.run call
  exact ⟨hready.capacious.run call, plain_run hready.capacious hready.plain call,
    by rw [run_threadCount]; exact hready.threads, configs', datas', foreign, htabled'⟩

/-- Making room in `dispatch_tasks`. -/
lemma script_growOps {context context' : Context} {memory memory' : Memory}
    {foreign : Multiset ℕ} (hcap : Capacious context)
    (hown : memory.Owns (context.blocks + foreign)) (hplaced : Placed ⟨context, memory⟩ store)
    (hgrow : growDispatchTasks context memory context.staging.data.length =
      (true, context', memory')) :
    ∃ store' : Store, Placed ⟨context', memory'⟩ store' ∧
      Ledger.Script (Ledger.settled store)
        (growOps context memory context.staging.data.length) [] (Ledger.settled store') := by
  have hlt := (hcap.grow hgrow).1.lt
  obtain ⟨hne, htasks, hwork⟩ := shared_blocks_of_owns hown
  rw [growOps]
  rw [growDispatchTasks] at hgrow
  split at hgrow
  case isTrue hgt =>
    rw [if_pos hgt]
    dsimp only at hgrow ⊢
    generalize growCapacity context.staging.data.length context.staging.data.length
      context.dispatchCapacity = newCap at hgrow ⊢
    rcases halloc : memory.allocate (word (newCap * taskEntryBytes)) with ⟨_ | block, memory₁⟩
    · rw [halloc] at hgrow
      cases hgrow
    · rw [halloc] at hgrow
      cases hgrow
      dsimp only at hlt ⊢
      obtain ⟨rfl, -⟩ := Heap.allocate_some_eq halloc
      have hword : word (newCap * taskEntryBytes) = newCap * taskEntryBytes :=
        word_of_lt (by rw [taskEntryBytes]; omega)
      have hlive : ((store.allocate memory.requests (word (newCap * taskEntryBytes))).size
          context.dispatchTasks.block).isSome := by
        rw [Objects.allocate_size, Function.update_of_ne htasks.ne, hplaced.tasks]
        rfl
      refine ⟨(store.allocate memory.requests (word (newCap * taskEntryBytes))).free
        context.dispatchTasks.block, ⟨?_, ?_⟩, ?_⟩
      · simp [htasks.ne', hword]
      · rw [Objects.free_size, Function.update_of_ne hne.symm, Objects.allocate_size,
          Function.update_of_ne hwork.ne]
        exact hplaced.work
      · exact Ledger.Script.cons (.allocate (Ledger.respects_settled _ _))
          (Ledger.Script.single (.free (Ledger.respects_settled _ _) hlive))
  case isFalse hle =>
    cases hgrow
    rw [if_neg hle]
    exact ⟨store, hplaced, Ledger.Script.nil _⟩

/-- Where there is no room, nothing changes in the context. -/
lemma growDispatchTasks_refused {context context' : Context} {memory memory' : Memory} {n : ℕ}
    (h : growDispatchTasks context memory n = (false, context', memory')) : context' = context := by
  rw [growDispatchTasks] at h
  split at h
  · dsimp only at h
    split at h <;> cases h
    rfl
  · cases h

/-- `bc_concurrency_dispatch_and_wait` respects what is lent. -/
lemma script_dispatchAndWait (hready : Ready host) (hplaced : Placed host store)
    (spawn : SpawnOutcome) :
    ∃ store' : Store, Placed (dispatchAndWait host spawn).host store' ∧
      Ledger.Script (Ledger.settled store) (dispatchAndWaitOps host spawn)
        (dispatchAndWait host spawn).script (Ledger.settled store') := by
  obtain ⟨configs, datas, foreign, -, hown⟩ := hready.tabled
  simp only [dispatchAndWait, dispatchAndWaitOps]
  by_cases hstaged : host.context.staging.data.length = 0
  · rw [if_pos hstaged, if_pos hstaged]
    exact ⟨store, hplaced, Ledger.Script.nil _⟩
  rw [if_neg hstaged, if_neg hstaged]
  by_cases hinline : host.context.threadCount = 0 ∨ host.context.staging.data.length = 1
  · rw [if_pos hinline, if_pos hinline]
    exact ⟨store, ⟨hplaced.tasks, hplaced.work⟩, Ledger.script_mainShare _ _ _⟩
  rw [if_neg hinline, if_neg hinline]
  rw [not_or] at hinline
  rcases ensureWorkersSpawned_cases host.context spawn (Nat.pos_of_ne_zero hinline.1) with
    ⟨start, hstart, heq⟩ | ⟨-, -, heq⟩
  · rw [heq]
    dsimp only
    have hstartScript := Ledger.script_start (Ledger.settled store) hstart
    rcases hgrow : growDispatchTasks { host.context with workersSpawned := true } host.memory
        host.context.staging.data.length with ⟨_ | _, context', memory'⟩
    · obtain rfl := growDispatchTasks_refused hgrow
      exact ⟨store, ⟨hplaced.tasks, hplaced.work⟩, hstartScript⟩
    · have hcap : Capacious { host.context with workersSpawned := true } :=
        ⟨hready.capacious.staged, hready.capacious.pos, hready.capacious.lt, hready.capacious.room⟩
      obtain ⟨hcap', hroom⟩ := hcap.grow hgrow
      obtain ⟨hne, -⟩ := shared_blocks_of_owns ((growDispatchTasks_keeps hgrow).owns foreign hown)
      obtain ⟨store₁, hplaced₁, hgrowScript⟩ :=
        script_growOps hcap hown ⟨hplaced.tasks, hplaced.work⟩ hgrow
      obtain ⟨buffer, capacity, rfl⟩ := growDispatchTasks_frame hgrow
      have hfits : host.context.staging.data.length ≤ capacity := (hroom rfl).trans hcap'.room.le
      obtain ⟨store', hsize, hround⟩ := script_dispatchRound
        (p := ⟨buffer.block, 0⟩) (t := host.context.threadCount) hready.plain hplaced₁.tasks
        (by simpa using Nat.mul_le_mul_right taskEntryBytes hfits) hplaced₁.work hne (hroom rfl)
      refine ⟨store', ⟨?_, ?_⟩, ?_⟩
      · rw [hsize]
        exact hplaced₁.tasks
      · rw [hsize]
        exact hplaced₁.work
      · simpa using (hstartScript.append hgrowScript).append hround
  · rw [heq]
    exact ⟨store, hplaced, Ledger.script_sharedScript _ (by simp [createScript, stopScript])
      (by simp [createScript, stopScript])⟩

/-- `bc_concurrency_for` respects what is lent. -/
lemma script_parallelFor (hready : Ready host) (hplaced : Placed host store) (range : ForRange)
    (spawn : SpawnOutcome) :
    ∃ store' : Store, Placed (parallelFor host range spawn).host store' ∧
      Ledger.Script (Ledger.settled store) (parallelForOps host range spawn)
        (parallelFor host range spawn).script (Ledger.settled store') := by
  obtain ⟨configs, datas, foreign, -, hown⟩ := hready.tabled
  obtain ⟨-, htasks, hwork⟩ := shared_blocks_of_owns hown
  simp only [parallelFor, parallelForOps]
  by_cases hzero : range.stepSize = 0
  · rw [if_pos hzero, if_pos hzero]
    exact ⟨store, hplaced, Ledger.Script.nil _⟩
  rw [if_neg hzero, if_neg hzero]
  by_cases hempty : range.startIndex ≥ range.endIndex
  · rw [if_pos hempty, if_pos hempty]
    exact ⟨store, hplaced, Ledger.Script.nil _⟩
  rw [if_neg hempty, if_neg hempty]
  by_cases hinline : host.context.threadCount = 0 ∨
      range.totalIterations ≤ host.context.threadCount
  · rw [if_pos hinline, if_pos hinline]
    exact ⟨store, hplaced, Ledger.script_mainShare _ _ _⟩
  rw [if_neg hinline, if_neg hinline]
  rw [not_or] at hinline
  rcases ensureWorkersSpawned_cases host.context spawn (Nat.pos_of_ne_zero hinline.1) with
    ⟨start, hstart, heq⟩ | ⟨-, -, heq⟩
  · rw [heq]
    dsimp only
    have hstartScript := Ledger.script_start (Ledger.settled store) hstart
    rw [← forBytes]
    rcases halloc : host.memory.allocate (forBytes host.context.threadCount) with
      ⟨_ | alloc, memory⟩
    · exact ⟨store, ⟨hplaced.tasks, hplaced.work⟩, hstartScript⟩
    · obtain ⟨rfl, -⟩ := Heap.allocate_some_eq halloc
      obtain ⟨store', hsize, hround⟩ :=
        script_forRound hready.threads store host.memory.requests range
      refine ⟨store', ⟨?_, ?_⟩, ?_⟩
      · rw [hsize _ htasks.ne]
        exact hplaced.tasks
      · rw [hsize _ hwork.ne]
        exact hplaced.work
      · simpa only [List.append_assoc] using hstartScript.append hround
  · rw [heq]
    exact ⟨store, hplaced, Ledger.script_sharedScript _ (by simp [createScript, stopScript])
      (by simp [createScript, stopScript])⟩

/-- Every call respects what is lent, and leaves nothing lent. -/
theorem script_call (hready : Ready host) (hplaced : Placed host store) (call : Call) :
    ∃ store' : Store, Placed (call.run host).host store' ∧
      Ledger.Script (Ledger.settled store) (call.ops host) (call.run host).script
        (Ledger.settled store') := by
  cases call with
  | registerSlot config =>
    obtain ⟨_, _, _, _, hframe⟩ := registerSlot_frame host.context host.memory config
    refine ⟨store, ?_, Ledger.Script.nil _⟩
    show Placed ⟨(registerSlot host.context host.memory config).2.1, _⟩ store
    rw [hframe]
    exact ⟨hplaced.tasks, hplaced.work⟩
  | submit => exact ⟨store, ⟨hplaced.tasks, hplaced.work⟩, Ledger.Script.nil _⟩
  | submitBatch f arguments =>
    refine ⟨store, ?_, ?_⟩
    · simp only [Call.run, submitBatch]
      split <;> exact ⟨hplaced.tasks, hplaced.work⟩
    · rw [Call.run, submitBatch_script]
      exact Ledger.Script.nil _
  | dispatchAndWait spawn => exact script_dispatchAndWait hready hplaced spawn
  | parallelFor range spawn => exact script_parallelFor hready hplaced range spawn

/-- So does the destruction. -/
theorem script_next (hready : Ready host) (hplaced : Placed host store) (next : Option Call) :
    ∃ store' : Store, Ledger.Script (Ledger.settled store) (nextOps host next)
      (nextScript host next) (Ledger.settled store') := by
  cases next with
  | some call =>
    obtain ⟨store', -, hscript⟩ := script_call hready hplaced call
    exact ⟨store', hscript⟩
  | none =>
    obtain ⟨configs, datas, foreign, -, hown⟩ := hready.tabled
    obtain ⟨hne, -⟩ := shared_blocks_of_owns hown
    have hstop : Ledger.Script (Ledger.settled store) (sharedScript (destroyScript host))
        (destroyScript host) (Ledger.settled store) := by
      rw [destroyScript]
      split
      · exact Ledger.script_stopScript _ _
      · exact Ledger.Script.nil _
    have hlive : (store.size host.context.dispatchTasks.block).isSome := by
      rw [hplaced.tasks]
      rfl
    have hlive' : ((store.free host.context.dispatchTasks.block).size
        host.context.dispatchWork).isSome := by
      rw [Objects.free_size, Function.update_of_ne hne.symm, hplaced.work]
      rfl
    have hfree := Ledger.Script.cons
      (.free (Ledger.respects_settled store (.free host.context.dispatchTasks.block)) hlive)
      (Ledger.Script.single (.free (Ledger.respects_settled _ (.free host.context.dispatchWork))
        hlive'))
    refine ⟨(store.free host.context.dispatchTasks.block).free host.context.dispatchWork, ?_⟩
    have hscript := hstop.append hfree
    rw [List.append_nil, List.append_nil] at hscript
    exact hscript

end Calls

/-! ### Sessions -/

/-- A call that has returned. -/
structure SharedRecord where
  host : Host
  call : Call
  history : List SharedEvent

/-- What of a record the handshake has. -/
def SharedRecord.observed (record : SharedRecord) : Record :=
  ⟨record.host, record.call, record.history.filterMap SharedEvent.observe⟩

/-- The memory after `bc_concurrency_create`. -/
def Store.start (context : Context) : Store :=
  (Objects.empty.allocate context.dispatchTasks.block (stagingInitialCapacity * taskEntryBytes)).allocate
    context.dispatchWork (word ((context.threadCount + 1) * workBytes))

/-- The state after `bc_concurrency_create`. -/
def SharedState.start (context : Context) : SharedState :=
  ⟨[], none, none, false, fun _ => .init, Store.start context⟩

/-- Sessions in which the calls use the shared memory. -/
inductive SharedSession (host₀ : Host) : List SharedRecord → Host → SharedState → Prop
  | start : SharedSession host₀ [] host₀ (SharedState.start host₀.context)
  | call {records : List SharedRecord} {host : Host} {s s' : SharedState} {h : List SharedEvent}
      (call : Call) (hsession : SharedSession host₀ records host s)
      (hrun : sharedHandshake.Run { s with script := call.ops host } h s')
      (hreturn : s'.script = []) :
      SharedSession host₀ (records ++ [⟨host, call, h⟩]) (call.run host).host s'

/-- The addresses that a worker reads in its next step. -/
def Frame.reads (store : Store) : Frame → List Pointer
  | .test work _ => [work]
  | .call work k =>
      match store.read work with
      | some (.work tasks _) => [work, tasks.add (k * taskEntryBytes)]
      | _ => [work]
  | .runner _ _ chunk => [chunk]
  | .iterate _ _ _ _ => []

/-- The worker has no address of a shared record. -/
def SharedWorker.Clear (w : SharedWorker) : Prop := w.work = none ∧ w.pc.plain.isSome

namespace Refines

variable {goal : Ledger} {s : SharedState} {u : State Invocation}

/-- Load the script of the next call. -/
lemma load (h : Refines (Ledger.settled s.store) s u) (hdone : s.script = []) {ops : List SharedOp}
    {script : List (MainOp Invocation)}
    (hscript : Ledger.Script (Ledger.settled s.store) ops script goal) :
    Refines goal { s with script := ops } { u with script := script } := by
  obtain ⟨lent, hlent, hworkers⟩ := h.lent
  rw [hdone] at hlent
  generalize u.script = rest at hlent
  cases hlent
  have hin : s.inTask = none := by
    rcases hin : s.inTask with _ | task
    · rfl
    · obtain ⟨⟨op, ops', hops, -⟩, -⟩ := h.current task hin
      rw [hdone] at hops
      cases hops
  have hawake : s.asleep = false := by
    by_contra hasleep
    obtain ⟨i, rest, hrest⟩ := h.sleeping (Bool.eq_true_of_not_eq_false hasleep)
    rw [hdone] at hrest
    cases hrest
  exact of_idle _ hscript hworkers h.tls (h.asleep.trans hawake) hawake
    (by rw [h.inTask, hin]; rfl) hin

/-- At its end a script has led where it should. -/
lemma store_eq {store : Store} (h : Refines (Ledger.settled store) s u) (hdone : s.script = []) :
    s.store = store ∧ u.script = [] := by
  obtain ⟨lent, hlent, -⟩ := h.lent
  rw [hdone] at hlent
  generalize u.script = rest at hlent ⊢
  generalize hl : (⟨s.store, lent⟩ : Ledger) = l at hlent
  cases hlent
  exact ⟨congrArg Ledger.store hl, rfl⟩

/-- When nothing is lent any more, no worker has an address. -/
lemma clear {store : Store} (h : Refines (Ledger.settled store) s u) (hdone : s.script = [])
    (i : ℕ) : (s.workers i).Clear := by
  obtain ⟨lent, hlent, hworkers⟩ := h.lent
  rw [hdone] at hlent
  generalize u.script = rest at hlent
  generalize hl : (⟨s.store, lent⟩ : Ledger) = l at hlent
  cases hlent
  obtain rfl : lent = fun _ => none := congrArg Ledger.lent hl
  obtain ⟨hwork, -, -, -, hpc⟩ := hworkers i
  refine ⟨?_, ?_⟩
  · generalize (s.workers i).work = x, (u.workers i).work = y at hwork
    cases hwork with
    | none => rfl
    | some hlent => cases hlent
  · generalize (s.workers i).pc = x, (u.workers i).pc = y at hpc
    cases hpc with
    | plain hplain => rw [hplain]; rfl
    | running hlent => cases hlent
    | inTask _ hlent => cases hlent

/-- The next operation of the main thread leaves alone what a worker is about to read. -/
lemma race_free (h : Refines goal s u) {op : SharedOp} {ops : List SharedOp}
    (hops : s.script = op :: ops) {i : ℕ} {frame : Frame} (hpc : (s.workers i).pc = .running frame)
    {q : Pointer} (hq : q ∈ frame.reads s.store) : op.Spares s.store q := by
  obtain ⟨lent, hscript, hworkers⟩ := h.lent
  -- the worker reads what it reaches from the pointer lent to it
  obtain ⟨work, hlent, hreaches⟩ : ∃ work, lent i = some work ∧ s.store.Reaches work q := by
    have hworker := (hworkers i).pc
    rw [hpc] at hworker
    generalize (u.workers i).pc = pc at hworker
    cases hworker with
    | plain hplain => cases hplain
    | @running work entries _ _ hlent hwork hleads =>
      obtain ⟨tasks, hread, -⟩ := Store.workAt_eq_some_iff.mp hwork
      refine ⟨work, hlent, ?_⟩
      cases hleads with
      | test => exact Or.inl (List.mem_singleton.mp hq)
      | call hk =>
        simp only [Frame.reads, hread, List.mem_cons, List.not_mem_nil, or_false] at hq
        rcases hq with rfl | rfl
        · exact Or.inl rfl
        · exact Or.inr ⟨tasks, _, _, hread, hk, Or.inl rfl⟩
      | runner hreaches =>
        obtain rfl := List.mem_singleton.mp hq
        exact hreaches
      | iterate => cases hq
  rw [hops] at hscript
  generalize u.script = script at hscript
  cases hscript with
  | cons hstep =>
    cases hstep with
    | allocate hrespects | free hrespects | write hrespects =>
      exact hrespects i work hlent q hreaches
    | create | setTls | run | stop | join | runEntry | dispatch | wait => trivial

end Refines

/-! ### Progress -/

/-- A worker that can go on in the handshake can go on. -/
lemma WorkerRefines.step_isSome {store : Store} {lent : Option Pointer} {w : SharedWorker}
    {v : WorkerState Invocation} {i : ℕ} (h : WorkerRefines store lent w v)
    (hv : (v.step i).isSome) : (w.step store i).isSome := by
  obtain ⟨work, shouldStop, readyFlag, doneFlag, pc⟩ := w
  obtain ⟨calls, shouldStop', readyFlag', doneFlag', pc'⟩ := v
  have hpc := h.pc
  dsimp only at hpc
  cases hpc with
  | plain hplain =>
    cases pc with
    | test =>
      cases hplain
      obtain ⟨_, _, _, hw, -⟩ := h.step_test (i := i) rfl rfl
      rw [hw]
      rfl
    | done => rfl
    | absent | asleep | exited | crashed =>
      cases hplain
      cases hv
    | running | inTask | faulted => cases hplain
  | running | inTask => rfl

/-- An awake main thread can take its next step, unless it has to join a thread. -/
lemma SharedState.mainStep_isSome {s : SharedState} {op : SharedOp} {ops : List SharedOp}
    (hawake : s.asleep = false) (hops : s.script = op :: ops) (hjoin : ∀ i, op ≠ .join i) :
    s.mainStep.isSome := by
  rw [SharedState.mainStep, if_neg (by simp [hawake]), hops]
  cases op with
  | join i => exact absurd rfl (hjoin i)
  | wait | free =>
    dsimp only
    split <;> rfl
  | runEntry | write =>
    dsimp only
    split <;> rfl
  | create | dispatch | setTls | run | stop | allocate => rfl

/-- The stores and the reads bring no deadlock. -/
lemma Refines.progress {goal : Ledger} {s : SharedState} {u : State Invocation}
    (h : Refines goal s u) (hne : s.script ≠ [])
    (hu : u.script ≠ [] → ∃ thread, handshake.Enabled u (.run thread)) :
    ∃ thread, sharedHandshake.Enabled s (.run thread) := by
  obtain ⟨lent, hscript, hworkers⟩ := h.lent
  have hworker {i : ℕ} (hi : handshake.Enabled u (.run (.worker i))) :
      sharedHandshake.Enabled s (.run (.worker i)) := by
    simp only [Machine.Enabled, handshake, State.workerStep, Option.isSome_map] at hi
    simpa [Machine.Enabled, sharedHandshake, SharedState.workerStep] using
      (hworkers i).step_isSome hi
  obtain ⟨op, ops, hops⟩ := List.exists_cons_of_ne_nil hne
  rw [hops] at hscript
  rcases hasleep : s.asleep with _ | _
  · by_cases hjoin : ∃ i, op = .join i
    · obtain ⟨i, rfl⟩ := hjoin
      obtain ⟨rest, hrest⟩ : ∃ rest, u.script = .join i :: rest := by
        generalize u.script = script at hscript
        cases hscript with
        | cons hstep =>
          cases hstep
          exact ⟨_, rfl⟩
      obtain ⟨_ | j, hthread⟩ := hu (by simp [hrest])
      · -- the main thread joins in both machines
        refine ⟨.main, ?_⟩
        have hexited : (u.workers i).pc.isExited = true := by
          by_contra hexited
          simp [Machine.Enabled, handshake, State.mainStep, hrest, hexited] at hthread
        rw [(hworkers i).pc.isExited_eq] at hexited
        simp [Machine.Enabled, sharedHandshake, SharedState.mainStep, hasleep, hops, hexited]
      · exact ⟨.worker j, hworker hthread⟩
    · exact ⟨.main, SharedState.mainStep_isSome hasleep hops fun i heq => hjoin ⟨i, heq⟩⟩
  · -- the main thread sleeps in a wait, in both machines
    obtain ⟨i, rest, hwait⟩ := h.sleeping hasleep
    obtain rfl : op = .wait i := by
      rw [hops] at hwait
      exact (List.cons.inj hwait).1
    have hne' : u.script ≠ [] := by
      generalize u.script = script at hscript
      cases hscript with
      | cons hstep =>
        cases hstep
        simp
    obtain ⟨_ | j, hthread⟩ := hu hne'
    · have hasleep' : u.asleep = true := h.asleep.trans hasleep
      simp [Machine.Enabled, handshake, State.mainStep, hasleep'] at hthread
    · exact ⟨.worker j, hworker hthread⟩

/-- Between two calls of a session over shared memory. -/
structure SharedBetween (host₀ : Host) (records : List SharedRecord) (host : Host)
    (s : SharedState) (u : State Invocation) : Prop where
  session : Session host₀ (records.map SharedRecord.observed) host u
  refines : Refines (Ledger.settled s.store) s u
  done : s.script = []
  ready : Ready host
  placed : Placed host s.store
  not_fault : ∀ record ∈ records, ∀ thread, .fault thread ∉ record.history

/-- A session over shared memory is a session of the handshake, and ready for the next
call. -/
theorem SharedSession.between {host₀ host : Host} {records : List SharedRecord} {s : SharedState}
    (hspawned : host₀.context.workersSpawned = false) (hready : Ready host₀)
    (hplaced : Placed host₀ (Store.start host₀.context))
    (hsession : SharedSession host₀ records host s) :
    ∃ u, SharedBetween host₀ records host s u := by
  induction hsession with
  | start =>
    refine ⟨State.start [], Session.start, ?_, rfl, hready, hplaced, by simp⟩
    refine Refines.of_idle (fun _ => none) (Ledger.Script.nil _) (fun i => ?_) rfl rfl rfl rfl
      rfl
    exact ⟨.none, rfl, rfl, rfl, .plain rfl⟩
  | @call records host s s' h call _ hrun hreturn ih =>
    obtain ⟨u, hb⟩ := ih
    obtain ⟨final, hbetween⟩ := hb.session.between hspawned
    obtain ⟨final', hload, -⟩ := hbetween.phases_load call
    obtain ⟨store', hplaced', hscript⟩ := script_call hb.ready hb.placed call
    have hrefines := hb.refines.load hb.done hscript
    obtain ⟨u', hu', hrefines'⟩ := hrefines.run hload hrun
    obtain ⟨rfl, hdone⟩ := hrefines'.store_eq hreturn
    refine ⟨u', ?_, hrefines', hreturn, hb.ready.run call, hplaced', ?_⟩
    · rw [List.map_append]
      exact Session.call call hb.session hu' hdone
    · intro record hrecord thread
      rcases List.mem_append.mp hrecord with hrecord | hrecord
      · exact hb.not_fault record hrecord thread
      · obtain rfl := List.mem_singleton.mp hrecord
        exact hrefines.not_fault hload hrun thread

/-! ### The result -/

/-- What holds of every run of a call, or of the destruction, after a session over shared
memory. -/
structure MemorySafe (host₀ : Host) (records : List SharedRecord) (host : Host)
    (next : Option Call) (h : List SharedEvent) (s : SharedState) : Prop where
  /-- Without its reads and stores it is a run of the handshake after a session, which is
  over when this one is, and it can go on where the handshake can. -/
  refines : ∃ u u', Session host₀ (records.map SharedRecord.observed) host u ∧
    handshake.Run { u with script := nextScript host next } (h.filterMap SharedEvent.observe) u' ∧
    (s.script = [] → u'.script = []) ∧
    (s.script ≠ [] → (u'.script ≠ [] → ∃ thread, handshake.Enabled u' (.run thread)) →
      ∃ thread, sharedHandshake.Enabled s (.run thread))
  /-- No thread reads a record that is not there, and no store is out of bounds. -/
  not_fault : ∀ thread, .fault thread ∉ h ∧ ∀ record ∈ records, .fault thread ∉ record.history
  /-- What a worker is about to read, the main thread is not about to overwrite or free. -/
  race_free : ∀ op ops, s.script = op :: ops → ∀ i frame, (s.workers i).pc = .running frame →
    ∀ q ∈ frame.reads s.store, op.Spares s.store q
  /-- After a call no worker has an address of a shared record. -/
  clear : s.script = [] → ∀ i, (s.workers i).Clear
  /-- It does not get stuck, but perhaps in a call that hands over work after an earlier one
  has stopped workers. -/
  progress : (∀ call ∈ next, host.failedSpawn call = none →
      ∀ r ∈ records, ∀ k ∈ r.host.failedSpawn r.call, k = 0) →
    s.script ≠ [] → ∃ thread, sharedHandshake.Enabled s (.run thread)

/-- The workers follow pointers to records that the main thread fills, frees and fills
again, without any lock on them.  Still, in every session and every interleaving, they
read what was there when the pointer was handed to them. -/
theorem pool_memory_safe {memory memory' : Memory} {physicalCoreCount : ℕ}
    {config : Option Config} {stagingGrows memoryGrants : ℕ → Bool} {context : Context}
    {foreign : Multiset ℕ} (hown : memory.Owns foreign)
    (hcreate : create memory physicalCoreCount config stagingGrows memoryGrants =
      (some context, memory')) (hthreads : context.threadCount < 2 ^ 32)
    {records : List SharedRecord} {host : Host} {s s' : SharedState}
    (hsession : SharedSession ⟨context, memory'⟩ records host s) (next : Option Call)
    {h : List SharedEvent}
    (hrun : sharedHandshake.Run { s with script := nextOps host next } h s') :
    MemorySafe ⟨context, memory'⟩ records host next h s' := by
  have hfresh := (create_ok hcreate).1
  have htabled := tabled_of_create hcreate hown
  have hready : Ready ⟨context, memory'⟩ :=
    ⟨hfresh.capacious, by simp [Plain, hfresh.staged], hthreads, _, _, _, htabled⟩
  have hplaced : Placed ⟨context, memory'⟩ (Store.start context) := by
    obtain ⟨hne, -⟩ := shared_blocks_of_owns htabled.2
    have hword : word ((context.threadCount + 1) * workBytes) =
        (context.threadCount + 1) * workBytes := word_of_lt (by rw [workBytes]; omega)
    exact ⟨by simp [Store.start, hne, hfresh.dispatchCapacity], by simp [Store.start, hword]⟩
  obtain ⟨u, hb⟩ := hsession.between hfresh.workersSpawned hready hplaced
  obtain ⟨final, hbetween⟩ := hb.session.between hfresh.workersSpawned
  obtain ⟨final', hload⟩ := hbetween.exists_load next
  obtain ⟨store', hscript⟩ := script_next hb.ready hb.placed next
  have hrefines := hb.refines.load hb.done hscript
  obtain ⟨u', hu', hrefines'⟩ := hrefines.run hload hrun
  refine ⟨⟨u, u', hb.session, hu', fun hdone => (hrefines'.store_eq hdone).2,
    fun hne hstep => hrefines'.progress hne hstep⟩, ?_, ?_, ?_, ?_⟩
  · exact fun thread => ⟨hrefines.not_fault hload hrun thread,
      fun record hrecord => hb.not_fault record hrecord thread⟩
  · exact fun op ops hops i frame hpc q hq => hrefines'.race_free hops hpc hq
  · exact fun hdone i => hrefines'.clear hdone i
  · intro hclean hne
    refine hrefines'.progress hne (hb.session.enabled hfresh.workersSpawned next ?_ hu')
    intro call hcall hnone r hr
    obtain ⟨record, hrecord, rfl⟩ := List.mem_map.mp hr
    exact hclean call hcall hnone record hrecord

/-- A parallel loop over two workers.  Worker 0 reads its records and runs an iteration
while the main thread stores those of worker 1. -/
theorem pool_memory_safe_loop :
    ∃ context memory',
      create ⟨fun _ => true, 0, 0, [], []⟩ 3 none (fun _ => false) (fun _ => true) =
        (some context, memory') ∧
      let range : ForRange := ⟨0, 6, 1, 7, 8, by decide, by decide, by decide⟩
      let call : Call := .parallelFor range ⟨true, true, fun _ => true⟩
      let main := List.replicate 8 (Move.run .main)
      let schedule : List Move := [main, List.replicate 6 (.run (.worker 0)), main, main,
        List.replicate 16 (.run (.worker 1)), List.replicate 16 (.run (.worker 0)), main].flatten
      let r := sharedHandshake.exec
        { SharedState.start context with script := nextOps ⟨context, memory'⟩ (some call) } schedule
      r.2.script.length = 0 ∧
        executed (r.1.filterMap SharedEvent.observe) =
          [2, 0, 1, 4, 5, 3].map (fun i => .iteration 7 i 8) ∧
        MemorySafe ⟨context, memory'⟩ [] ⟨context, memory'⟩ (some call) r.1 r.2 := by
  have hcreate : create ⟨fun _ => true, 0, 0, [], []⟩ 3 none (fun _ => false) (fun _ => true) =
    (some _, _) := rfl
  refine ⟨_, _, hcreate, ?_⟩
  intro range call main schedule r
  exact ⟨by decide, by decide, pool_memory_safe Heap.Owns.empty hcreate (by decide)
    SharedSession.start (some call) (sharedHandshake.run_exec _ schedule)⟩

end BcConcurrency.Pool
