import BcConcurrency.Lib.Transition

/-!
# The handshake of the main thread with its workers

`bc_concurrency_dispatch_to_worker`, `bc_concurrency_wait_for_worker`,
`worker_thread_routine` and the stop and join of a worker as a machine.  The
sections under `state_mutex` are atomic; a task is a start and an end with
anything in between.  The main thread executes a list of operations, which the
library functions emit.

A signal wakes the thread sleeping on its condition variable, if there is one;
the environment may wake a sleeping thread at any time as well.
-/

namespace BcConcurrency.Pool

variable {τ : Type*}

/-- What the main thread does in the protocol. -/
inductive MainOp (τ : Type*)
  /-- A successful `pthread_create` of the thread of a worker. -/
  | create (worker : ℕ)
  /-- `bc_concurrency_dispatch_to_worker` -/
  | dispatch (worker : ℕ) (work : List τ)
  /-- `tls_worker = &context->workers[worker]`, or `NULL`. -/
  | setTls (worker : Option ℕ)
  /-- A call of a task on the main thread. -/
  | run (task : τ)
  /-- `bc_concurrency_wait_for_worker` -/
  | wait (worker : ℕ)
  /-- `should_stop = true` under the mutex, with the signal of `ready_cond`. -/
  | stop (worker : ℕ)
  /-- `pthread_join` -/
  | join (worker : ℕ)
deriving DecidableEq

/-- Where the thread of a worker is in `worker_thread_routine`. -/
inductive WorkerPc (τ : Type*)
  /-- There is no thread. -/
  | absent
  /-- Before the section that tests `ready_flag` and `should_stop`. -/
  | test
  /-- In `pthread_cond_wait` on `ready_cond`. -/
  | asleep
  /-- In the loop over the tasks, before the next call. -/
  | running (rest : List τ)
  /-- In a call of a task. -/
  | inTask (task : τ) (rest : List τ)
  /-- The routine has returned. -/
  | exited
  /-- The routine has taken a null work pointer. -/
  | crashed
deriving DecidableEq

/-- The protocol fields of `bc_concurrency_worker_t` and its thread. -/
structure WorkerState (τ : Type*) where
  work : Option (List τ)
  shouldStop : Bool
  readyFlag : Bool
  doneFlag : Bool
  pc : WorkerPc τ
deriving DecidableEq

/-- A worker as `bc_concurrency_create` leaves it. -/
def WorkerState.init : WorkerState τ := ⟨none, false, false, false, .absent⟩

/-- The main thread and the workers. -/
structure State (τ : Type*) where
  /-- What the main thread still has to do. -/
  script : List (MainOp τ)
  /-- `tls_worker` of the main thread. -/
  tls : Option ℕ
  /-- The main thread is inside the task at the head of its script. -/
  inTask : Bool
  /-- The main thread is in `pthread_cond_wait` on the `done_cond` of the worker it
  waits for. -/
  asleep : Bool
  workers : ℕ → WorkerState τ

/-- A thread. -/
inductive Thread
  | main
  | worker (i : ℕ)
deriving DecidableEq

/-- Who moves: a thread takes its next step, or is woken spuriously. -/
inductive Move
  | run (thread : Thread)
  | wake (thread : Thread)
deriving DecidableEq

/-- What a step leaves in the history. -/
inductive Event (τ : Type*)
  | created (worker : ℕ)
  | dispatched (worker : ℕ) (work : List τ)
  | tlsSet (worker : Option ℕ)
  | started (thread : Thread) (tlsWorker : Option ℕ) (task : τ)
  | finished (thread : Thread) (tlsWorker : Option ℕ) (task : τ)
  | waitReturned (worker : ℕ)
  | stopped (worker : ℕ)
  | joined (worker : ℕ)
  | took (worker : ℕ) (work : List τ)
  | reported (worker : ℕ)
  | exited (worker : ℕ)
  | crashed (worker : ℕ)
  | slept (thread : Thread)
  | woken (thread : Thread)
deriving DecidableEq

/-- The effect of a signal on the thread of a worker. -/
def WorkerPc.signal : WorkerPc τ → WorkerPc τ
  | .asleep => .test
  | pc => pc

/-- The routine has returned, so that `pthread_join` returns too. -/
def WorkerPc.isExited : WorkerPc τ → Bool
  | .exited => true
  | _ => false

/-- The thread sleeps on `ready_cond`. -/
def WorkerPc.isAsleep : WorkerPc τ → Bool
  | .asleep => true
  | _ => false

lemma WorkerPc.isExited_iff {pc : WorkerPc τ} : pc.isExited = true ↔ pc = .exited := by
  cases pc <;> simp [isExited]

lemma WorkerPc.isAsleep_iff {pc : WorkerPc τ} : pc.isAsleep = true ↔ pc = .asleep := by
  cases pc <;> simp [isAsleep]

namespace WorkerState

/-- The section of `bc_concurrency_dispatch_to_worker`. -/
def dispatch (w : WorkerState τ) (work : List τ) : WorkerState τ :=
  { w with work := some work, doneFlag := false, readyFlag := true, pc := w.pc.signal }

/-- The section that asks a worker to stop. -/
def stop (w : WorkerState τ) : WorkerState τ := { w with shouldStop := true, pc := w.pc.signal }

/-- One step of `worker_thread_routine` of worker `i`. -/
def step (i : ℕ) (w : WorkerState τ) : Option (Event τ × WorkerState τ) :=
  match w.pc with
  | .test =>
      -- the condition of the loop around `pthread_cond_wait`
      if w.readyFlag = false ∧ w.shouldStop = false then
        some (.slept (.worker i), { w with pc := .asleep })
      -- a stop request goes before work that is still pending
      else if w.shouldStop then some (.exited i, { w with pc := .exited })
      else match w.work with
        -- `work->count` would read through a null pointer
        | none => some (.crashed i, { w with readyFlag := false, work := none, pc := .crashed })
        | some work =>
            some (.took i work, { w with readyFlag := false, work := none, pc := .running work })
  | .running (task :: rest) =>
      some (.started (.worker i) (some i) task, { w with pc := .inTask task rest })
  | .inTask task rest => some (.finished (.worker i) (some i) task, { w with pc := .running rest })
  | .running [] => some (.reported i, { w with doneFlag := true, pc := .test })
  | .absent | .asleep | .exited | .crashed => none

end WorkerState

namespace State

/-- Change the state of a worker. -/
@[simps] def setWorker (s : State τ) (i : ℕ) (w : WorkerState τ) : State τ :=
  { s with workers := Function.update s.workers i w }

/-- The signal of `done_cond` by worker `i`. -/
def signalDone (s : State τ) (i : ℕ) : State τ :=
  match s.script with
  | .wait j :: _ => if j = i then { s with asleep := false } else s
  | _ => s

/-- One step of the main thread. -/
def mainStep (s : State τ) : Option (Event τ × State τ) :=
  if s.asleep then none
  else match s.script with
  | [] => none
  | .create i :: rest =>
      some (.created i, { s with script := rest }.setWorker i { s.workers i with pc := .test })
  | .dispatch i work :: rest =>
      some (.dispatched i work, { s with script := rest }.setWorker i ((s.workers i).dispatch work))
  | .setTls worker :: rest => some (.tlsSet worker, { s with script := rest, tls := worker })
  | .run task :: rest =>
      if s.inTask then
        some (.finished .main s.tls task, { s with script := rest, inTask := false })
      else some (.started .main s.tls task, { s with inTask := true })
  | .wait i :: rest =>
      if (s.workers i).doneFlag then some (.waitReturned i, { s with script := rest })
      else some (.slept .main, { s with asleep := true })
  | .stop i :: rest =>
      some (.stopped i, { s with script := rest }.setWorker i (s.workers i).stop)
  | .join i :: rest =>
      if (s.workers i).pc.isExited then
        some (.joined i, { s with script := rest }.setWorker i { s.workers i with pc := .absent })
      else none

/-- One step of the thread of worker `i`; when it reports, it signals `done_cond`. -/
def workerStep (s : State τ) (i : ℕ) : Option (Event τ × State τ) :=
  ((s.workers i).step i).map fun (event, w) =>
    (event, (match event with | .reported _ => s.signalDone i | _ => s).setWorker i w)

end State

/-- The handshake. -/
def handshake : Machine (State τ) Move (Event τ) where
  step := fun s move => match move with
    | .run .main => s.mainStep
    | .run (.worker i) => s.workerStep i
    | .wake .main => if s.asleep then some (.woken .main, { s with asleep := false }) else none
    | .wake (.worker i) =>
        if (s.workers i).pc.isAsleep then
          some (.woken (.worker i), s.setWorker i { s.workers i with pc := .test })
        else none

/-! ### What a step can be -/

/-- The steps of the thread of worker `i`, one constructor for each. -/
inductive WorkerTransition (i : ℕ) (w : WorkerState τ) : Event τ → WorkerState τ → Prop
  | slept (hpc : w.pc = .test) (hready : w.readyFlag = false) (hstop : w.shouldStop = false) :
      WorkerTransition i w (.slept (.worker i)) { w with pc := .asleep }
  | exited (hpc : w.pc = .test) (hstop : w.shouldStop = true) :
      WorkerTransition i w (.exited i) { w with pc := .exited }
  | took {work : List τ} (hpc : w.pc = .test) (hready : w.readyFlag = true)
      (hstop : w.shouldStop = false) (hwork : w.work = some work) :
      WorkerTransition i w (.took i work)
        { w with readyFlag := false, work := none, pc := .running work }
  | crashed (hpc : w.pc = .test) (hready : w.readyFlag = true) (hstop : w.shouldStop = false)
      (hwork : w.work = none) :
      WorkerTransition i w (.crashed i) { w with readyFlag := false, work := none, pc := .crashed }
  | started {task : τ} {rest : List τ} (hpc : w.pc = .running (task :: rest)) :
      WorkerTransition i w (.started (.worker i) (some i) task) { w with pc := .inTask task rest }
  | finished {task : τ} {rest : List τ} (hpc : w.pc = .inTask task rest) :
      WorkerTransition i w (.finished (.worker i) (some i) task) { w with pc := .running rest }
  | reported (hpc : w.pc = .running []) :
      WorkerTransition i w (.reported i) { w with doneFlag := true, pc := .test }

lemma WorkerState.step_inv {i : ℕ} {w w' : WorkerState τ} {e : Event τ}
    (h : w.step i = some (e, w')) : WorkerTransition i w e w' := by
  rw [WorkerState.step] at h
  split at h
  · split at h
    case isTrue hsleep => cases h; exact .slept ‹_› hsleep.1 hsleep.2
    case isFalse hsleep =>
      split at h
      · cases h; exact .exited ‹_› ‹_›
      · have hstop : w.shouldStop = false := Bool.eq_false_of_not_eq_true ‹_›
        have hready : w.readyFlag = true := by
          by_contra hready
          exact hsleep ⟨Bool.eq_false_of_not_eq_true hready, hstop⟩
        split at h
        · cases h; exact .crashed ‹_› hready hstop ‹_›
        · cases h; exact .took ‹_› hready hstop ‹_›
  · cases h; exact .started ‹_›
  · cases h; exact .finished ‹_›
  · cases h; exact .reported ‹_›
  all_goals simp at h

/-- The steps of the machine, one constructor for each. -/
inductive Transition (s : State τ) : Event τ → State τ → Prop
  | created {i : ℕ} {rest : List (MainOp τ)} (hscript : s.script = .create i :: rest)
      (hawake : s.asleep = false) :
      Transition s (.created i)
        ({ s with script := rest }.setWorker i { s.workers i with pc := .test })
  | dispatched {i : ℕ} {work : List τ} {rest : List (MainOp τ)}
      (hscript : s.script = .dispatch i work :: rest) (hawake : s.asleep = false) :
      Transition s (.dispatched i work)
        ({ s with script := rest }.setWorker i ((s.workers i).dispatch work))
  | tlsSet {worker : Option ℕ} {rest : List (MainOp τ)} (hscript : s.script = .setTls worker :: rest)
      (hawake : s.asleep = false) :
      Transition s (.tlsSet worker) { s with script := rest, tls := worker }
  | started {task : τ} {rest : List (MainOp τ)} (hscript : s.script = .run task :: rest)
      (hawake : s.asleep = false) (hin : s.inTask = false) :
      Transition s (.started .main s.tls task) { s with inTask := true }
  | finished {task : τ} {rest : List (MainOp τ)} (hscript : s.script = .run task :: rest)
      (hawake : s.asleep = false) (hin : s.inTask = true) :
      Transition s (.finished .main s.tls task) { s with script := rest, inTask := false }
  | waitReturned {i : ℕ} {rest : List (MainOp τ)} (hscript : s.script = .wait i :: rest)
      (hawake : s.asleep = false) (hdone : (s.workers i).doneFlag = true) :
      Transition s (.waitReturned i) { s with script := rest }
  | mainSlept {i : ℕ} {rest : List (MainOp τ)} (hscript : s.script = .wait i :: rest)
      (hawake : s.asleep = false) (hdone : (s.workers i).doneFlag = false) :
      Transition s (.slept .main) { s with asleep := true }
  | stopped {i : ℕ} {rest : List (MainOp τ)} (hscript : s.script = .stop i :: rest)
      (hawake : s.asleep = false) :
      Transition s (.stopped i) ({ s with script := rest }.setWorker i (s.workers i).stop)
  | joined {i : ℕ} {rest : List (MainOp τ)} (hscript : s.script = .join i :: rest)
      (hawake : s.asleep = false) (hexited : (s.workers i).pc = .exited) :
      Transition s (.joined i)
        ({ s with script := rest }.setWorker i { s.workers i with pc := .absent })
  | worker {i : ℕ} {e : Event τ} {w : WorkerState τ}
      (hstep : WorkerTransition i (s.workers i) e w) (hne : e ≠ .reported i) :
      Transition s e (s.setWorker i w)
  | reported {i : ℕ} (hpc : (s.workers i).pc = .running []) :
      Transition s (.reported i)
        ((s.signalDone i).setWorker i { s.workers i with doneFlag := true, pc := .test })
  | mainWoken (hasleep : s.asleep = true) : Transition s (.woken .main) { s with asleep := false }
  | workerWoken {i : ℕ} (hasleep : (s.workers i).pc = .asleep) :
      Transition s (.woken (.worker i)) (s.setWorker i { s.workers i with pc := .test })

lemma mainStep_inv {s s' : State τ} {e : Event τ} (h : s.mainStep = some (e, s')) :
    Transition s e s' := by
  rw [State.mainStep] at h
  split at h
  · simp at h
  rename_i hawake
  rw [Bool.not_eq_true] at hawake
  split at h
  · simp at h
  · cases h; exact .created ‹_› hawake
  · cases h; exact .dispatched ‹_› hawake
  · cases h; exact .tlsSet ‹_› hawake
  · split at h
    · cases h; exact .finished ‹_› hawake ‹_›
    · cases h; exact .started ‹_› hawake (Bool.eq_false_of_not_eq_true ‹_›)
  · split at h
    · cases h; exact .waitReturned ‹_› hawake ‹_›
    · cases h; exact .mainSlept ‹_› hawake (Bool.eq_false_of_not_eq_true ‹_›)
  · cases h; exact .stopped ‹_› hawake
  · split at h
    · cases h; exact .joined ‹_› hawake (WorkerPc.isExited_iff.mp ‹_›)
    · simp at h

lemma workerStep_inv {s s' : State τ} {i : ℕ} {e : Event τ} (h : s.workerStep i = some (e, s')) :
    Transition s e s' := by
  rcases hstep : (s.workers i).step i with _ | ⟨e', w⟩
  · simp [State.workerStep, hstep] at h
  have htrans := WorkerState.step_inv hstep
  simp only [State.workerStep, hstep, Option.map_some, Option.some.injEq, Prod.mk.injEq] at h
  obtain ⟨rfl, rfl⟩ := h
  cases htrans with
  | reported hpc => exact .reported hpc
  | slept hpc hready hstop => exact .worker (.slept hpc hready hstop) (by simp)
  | exited hpc hstop => exact .worker (.exited hpc hstop) (by simp)
  | took hpc hready hstop hwork => exact .worker (.took hpc hready hstop hwork) (by simp)
  | crashed hpc hready hstop hwork => exact .worker (.crashed hpc hready hstop hwork) (by simp)
  | started hpc => exact .worker (.started hpc) (by simp)
  | finished hpc => exact .worker (.finished hpc) (by simp)

lemma handshake_inv {s s' : State τ} {c : Move} {e : Event τ}
    (h : handshake.step s c = some (e, s')) : Transition s e s' := by
  rcases c with (_ | i) | (_ | i)
  · exact mainStep_inv h
  · exact workerStep_inv h
  · simp only [handshake] at h
    split at h
    · cases h; exact .mainWoken ‹_›
    · simp at h
  · simp only [handshake] at h
    split at h
    · cases h; exact .workerWoken (WorkerPc.isAsleep_iff.mp ‹_›)
    · simp at h

end BcConcurrency.Pool
