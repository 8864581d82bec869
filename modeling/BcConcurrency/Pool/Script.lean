import BcConcurrency.Pool.Completion

/-!
# Scripts and what was performed of them

The main thread performs its script from front to back, so the history says
which part of the script was performed.  The scripts of the library are made of
loops over workers; this module says how such loops move the phases.
-/

namespace BcConcurrency.Pool

variable {τ α : Type*}

/-! ### The performed part -/

/-- The operation of the main thread that an event completes. -/
def performedBy : Event τ → Option (MainOp τ)
  | .created i => some (.create i)
  | .dispatched i work => some (.dispatch i work)
  | .tlsSet worker => some (.setTls worker)
  | .finished .main _ task => some (.run task)
  | .waitReturned i => some (.wait i)
  | .stopped i => some (.stop i)
  | .joined i => some (.join i)
  | _ => none

/-- The operations that the main thread has performed. -/
def performed (h : List (Event τ)) : List (MainOp τ) := h.filterMap performedBy

/-- The work that an operation hands to worker `i`. -/
def MainOp.dispatchTo (i : ℕ) : MainOp τ → Option (List τ)
  | .dispatch j work => if j = i then some work else none
  | _ => none

/-- The task that an operation runs on the main thread. -/
def MainOp.task : MainOp τ → Option τ
  | .run task => some task
  | _ => none

section Performed

variable {s s' s₀ : State τ} {h : List (Event τ)} {e : Event τ}

@[simp] lemma performed_nil : performed ([] : List (Event τ)) = [] := rfl

@[simp] lemma performed_append (h h' : List (Event τ)) :
    performed (h ++ h') = performed h ++ performed h' := List.filterMap_append

@[simp] lemma performed_singleton (e : Event τ) : performed [e] = (performedBy e).toList :=
  filterMap_singleton _ _

lemma dispatches_eq_performed (i : ℕ) (h : List (Event τ)) :
    dispatches i h = (performed h).filterMap (MainOp.dispatchTo i) := by
  rw [performed, List.filterMap_filterMap, dispatches]
  congr 1
  ext e : 1
  rcases e with _ | _ | _ | _ | ⟨_ | _, _, _⟩ | _ | _ | _ | _ | _ | _ | _ | _ | _ <;> rfl

lemma ran_main_eq_performed (h : List (Event τ)) :
    ran .main h = (performed h).filterMap MainOp.task := by
  rw [performed, List.filterMap_filterMap, ran]
  congr 1
  ext e : 1
  rcases e with _ | _ | _ | _ | ⟨_ | _, _, _⟩ | _ | _ | _ | _ | _ | _ | _ | _ | _ <;>
    simp [finishedBy, performedBy, MainOp.task]

/-- A step performs the head of the script, or no operation at all. -/
lemma Transition.performed (htrans : Transition s e s') :
    s.script = (performedBy e).toList ++ s'.script := by
  cases htrans with
  | worker htrans hne => cases htrans <;> rfl
  | reported => rw [State.signalDone_eq]; rfl
  | created hscript | dispatched hscript | tlsSet hscript | finished hscript
  | waitReturned hscript | stopped hscript | joined hscript => simpa [performedBy] using hscript
  | started | mainSlept | mainWoken | workerWoken => rfl

/-- What was performed and what is left make up the script. -/
lemma performed_run (hrun : handshake.Run s₀ h s) : performed h ++ s.script = s₀.script := by
  induction hrun with
  | nil => rfl
  | snoc _ hs ih =>
    rw [performed_append, performed_singleton, List.append_assoc, ← (handshake_inv hs).performed,
      ih]

end Performed

/-! ### Starts and ends of tasks -/

/-- The task that a thread starts in an event. -/
def startedBy (thread : Thread) : Event τ → Option τ
  | .started t _ task => if t = thread then some task else none
  | _ => none

/-- The tasks started by a thread, in order. -/
def begun (thread : Thread) (h : List (Event τ)) : List τ := h.filterMap (startedBy thread)

/-- The task that a thread is in. -/
def State.current (s : State τ) : Thread → List τ
  | .main => if s.inTask then (s.script.head?.bind MainOp.task).toList else []
  | .worker i => match (s.workers i).pc with
    | .inTask task _ => [task]
    | _ => []

/-- A thread starts the task it is in and ends it before it starts another. -/
lemma Transition.current {final : ℕ → Phase} {s s' : State τ} {h : List (Event τ)} {e : Event τ}
    (hinv : Invariant final h s) (htrans : Transition s e s') (thread : Thread) :
    s.current thread ++ (startedBy thread e).toList =
      (finishedBy thread e).toList ++ s'.current thread := by
  cases thread with
  | main =>
    cases htrans with
    | started hscript _ hin | finished hscript _ hin =>
      simp [State.current, hin, hscript, startedBy, finishedBy, MainOp.task]
    | created hscript | dispatched hscript | tlsSet hscript | waitReturned hscript
    | stopped hscript | joined hscript =>
      have hin := hinv.inTask_eq_false hscript (by simp)
      simp [State.current, hin, startedBy, finishedBy]
    | worker htrans => cases htrans <;> simp [State.current, startedBy, finishedBy]
    | reported =>
      rw [State.signalDone_eq]
      simp [State.current, startedBy, finishedBy]
    | mainSlept | mainWoken | workerWoken => simp [State.current, startedBy, finishedBy]
  | worker i =>
    cases htrans with
    | @created j rest hscript =>
      have hpc := hinv.absent_of_create hscript
      by_cases hi : i = j
      · subst hi
        simp [State.current, startedBy, finishedBy, hpc]
      · simp [State.current, startedBy, finishedBy, hi]
    | @dispatched j work rest hscript =>
      by_cases hi : i = j
      · subst hi
        simp only [State.current, State.setWorker_workers, Function.update_self,
          WorkerState.dispatch, startedBy, finishedBy]
        cases (s.workers i).pc <;> simp [WorkerPc.signal]
      · simp [State.current, startedBy, finishedBy, hi]
    | @stopped j rest hscript =>
      by_cases hi : i = j
      · subst hi
        simp only [State.current, State.setWorker_workers, Function.update_self,
          WorkerState.stop, startedBy, finishedBy]
        cases (s.workers i).pc <;> simp [WorkerPc.signal]
      · simp [State.current, startedBy, finishedBy, hi]
    | @joined j rest hscript _ hpc | @workerWoken j hpc =>
      by_cases hi : i = j
      · subst hi
        simp [State.current, startedBy, finishedBy, hpc]
      · simp [State.current, startedBy, finishedBy, hi]
    | @worker j e w htrans =>
      by_cases hi : i = j
      · subst hi
        cases htrans <;> simp_all [State.current, startedBy, finishedBy]
      · have hj : j ≠ i := Ne.symm hi
        cases htrans <;> simp [State.current, startedBy, finishedBy, hi, hj]
    | @reported j hpc =>
      rw [State.signalDone_eq]
      by_cases hi : i = j
      · subst hi
        simp [State.current, startedBy, finishedBy, hpc]
      · simp [State.current, startedBy, finishedBy, hi]
    | tlsSet | started | finished | waitReturned | mainSlept | mainWoken =>
      simp [State.current, startedBy, finishedBy]

/-- The tasks that a thread started are those it finished, and the one it is in. -/
lemma begun_run {final : ℕ → Phase} {s₀ s : State τ} {h₀ h : List (Event τ)}
    (hinv : Invariant final h₀ s₀) (hcurrent : ∀ thread, s₀.current thread = [])
    (hrun : handshake.Run s₀ h s) (thread : Thread) :
    begun thread h = ran thread h ++ s.current thread := by
  induction hrun with
  | nil => simp [begun, hcurrent thread]
  | snoc hrun hs ih =>
    have hstep := (handshake_inv hs).current (hinv.run hrun) thread
    rw [begun, List.filterMap_append, filterMap_singleton, ran_append, ran_singleton,
      List.append_assoc, ← hstep, ← List.append_assoc, ← ih, begun]

/-! ### Loops over workers -/

namespace Phase

variable {i : ℕ} {p q : Phase}

/-- A loop none of whose operations concerns worker `i`. -/
lemma after_map_of_skip {f : α → MainOp τ} {l : List α}
    (hskip : ∀ a ∈ l, (f a).worker ≠ some i) : p.after i (l.map f) = some p := by
  induction l with
  | nil => rfl
  | cons a l ih =>
    rw [List.map_cons, after_cons, next_of_ne (hskip a (List.mem_cons_self ..))]
    exact ih fun b hb => hskip b (List.mem_cons_of_mem _ hb)

/-- A loop over different workers, one of which is worker `i`. -/
lemma after_map_of_mem {f : α → MainOp τ} (key : α → ℕ) {l : List α} {a : α}
    (hworker : ∀ b, (f b).worker = some (key b)) (hnodup : (l.map key).Nodup) (ha : a ∈ l)
    (hkey : key a = i) (hmove : p.move (f a) = some q) : p.after i (l.map f) = some q := by
  induction l with
  | nil => simp at ha
  | cons b l ih =>
    rw [List.map_cons, List.nodup_cons] at hnodup
    rw [List.map_cons, after_cons]
    -- the key occurs once: before it and after it nothing moves worker `i`
    rcases List.mem_cons.mp ha with rfl | hmem
    · rw [next_of_eq ((hworker a).trans (congrArg some hkey)), hmove]
      refine after_map_of_skip fun c hc heq => hnodup.1 ?_
      rw [hworker, Option.some.injEq] at heq
      exact List.mem_map.mpr ⟨c, hc, heq.trans hkey.symm⟩
    · have hne : (f b).worker ≠ some i := by
        rw [hworker, ne_eq, Option.some.injEq]
        rintro rfl
        exact hnodup.1 (List.mem_map.mpr ⟨a, hmem, hkey⟩)
      rw [next_of_ne hne]
      exact ih hnodup.2 hmem

end Phase

/-- The threads of the workers below `k` are created. -/
def createScript (k : ℕ) : List (MainOp τ) := (List.range k).map .create

/-- The workers below `k` are told to stop and joined. -/
def stopScript (k : ℕ) : List (MainOp τ) := (List.range k).map .stop ++ (List.range k).map .join

/-- The main thread runs tasks as worker `t`. -/
def mainShare (t : ℕ) (tasks : List τ) : List (MainOp τ) :=
  .setTls (some t) :: tasks.map .run ++ [.setTls none]

/-- The operation concerns no worker. -/
def MainOp.isLocal : MainOp τ → Bool
  | .setTls _ | .run _ => true
  | _ => false

section Threads

variable (k i : ℕ)

@[simp] lemma filterMap_task_createScript :
    (createScript k : List (MainOp τ)).filterMap MainOp.task = [] := by
  simp [createScript, List.filterMap_map, Function.comp_def, MainOp.task]

@[simp] lemma filterMap_task_stopScript :
    (stopScript k : List (MainOp τ)).filterMap MainOp.task = [] := by
  simp [stopScript, List.filterMap_map, Function.comp_def, MainOp.task]

@[simp] lemma filterMap_dispatchTo_createScript :
    (createScript k : List (MainOp τ)).filterMap (MainOp.dispatchTo i) = [] := by
  simp [createScript, List.filterMap_map, Function.comp_def, MainOp.dispatchTo]

@[simp] lemma filterMap_dispatchTo_stopScript :
    (stopScript k : List (MainOp τ)).filterMap (MainOp.dispatchTo i) = [] := by
  simp [stopScript, List.filterMap_map, Function.comp_def, MainOp.dispatchTo]

end Threads

lemma isLocal_of_mem_mainShare {t : ℕ} {tasks : List τ} {op : MainOp τ}
    (hop : op ∈ mainShare t tasks) : op.isLocal = true := by
  simp only [mainShare, List.cons_append, List.mem_cons, List.mem_append, List.mem_map,
    List.not_mem_nil, or_false] at hop
  rcases hop with rfl | ⟨_, _, rfl⟩ | rfl <;> rfl

lemma filterMap_task_mainShare (t : ℕ) (tasks : List τ) :
    (mainShare t tasks).filterMap MainOp.task = tasks := by
  have hrun : (MainOp.task ∘ MainOp.run : τ → Option τ) = some := rfl
  have htls : [(.setTls none : MainOp τ)].filterMap MainOp.task = [] := rfl
  rw [mainShare, List.filterMap_append, htls, List.append_nil]
  show (tasks.map MainOp.run).filterMap MainOp.task = tasks
  rw [List.filterMap_map, hrun, List.filterMap_some]

lemma filterMap_dispatchTo_of_isLocal {script : List (MainOp τ)}
    (hlocal : ∀ op ∈ script, op.isLocal = true) (i : ℕ) :
    script.filterMap (MainOp.dispatchTo i) = [] := by
  rw [List.filterMap_eq_nil_iff]
  intro op hop
  have h := hlocal op hop
  cases op <;> first | rfl | simp [MainOp.isLocal] at h

namespace Phase

variable {i : ℕ} {p q : Phase}

/-- A loop over the workers below `k`. -/
lemma after_range_map {f : ℕ → MainOp τ} (k : ℕ) (hworker : ∀ j, (f j).worker = some j)
    (hmove : i < k → p.move (f i) = some q) :
    p.after i ((List.range k).map f) = some (if i < k then q else p) := by
  split
  case isTrue hi =>
    exact after_map_of_mem id hworker (by simpa using List.nodup_range) (List.mem_range.mpr hi)
      rfl (hmove hi)
  case isFalse hi =>
    refine after_map_of_skip fun j hj heq => hi ?_
    rw [hworker, Option.some.injEq] at heq
    exact heq ▸ List.mem_range.mp hj

/-- The phase of a worker whose thread is created. -/
def created : Phase → Phase
  | .absent => .idle
  | .gone => .stopping
  | p => p

/-- The worker has no thread. -/
def isVacant : Phase → Bool
  | .absent | .gone => true
  | _ => false

lemma after_createScript (k : ℕ) (hp : i < k → p.isVacant = true) :
    p.after i (createScript k : List (MainOp τ)) = some (if i < k then p.created else p) := by
  refine after_range_map k (fun _ => rfl) ?_
  intro hi
  have := hp hi
  cases p <;> first | rfl | cases this

lemma after_stopScript (k : ℕ) (hp : i < k → p = .idle ∨ p = .stopping) :
    p.after i (stopScript k : List (MainOp τ)) = some (if i < k then .gone else p) := by
  have hstop : p.after i ((List.range k).map .stop : List (MainOp τ)) =
      some (if i < k then .stopping else p) :=
    after_range_map k (fun _ => rfl) fun hi => by rcases hp hi with rfl | rfl <;> rfl
  rw [stopScript, after_append, hstop, Option.bind_some]
  refine (after_range_map k (fun _ => rfl) (fun hi => by rw [if_pos hi]; rfl)
    (q := .gone)).trans ?_
  split <;> simp_all

/-- Threads that are created and stopped again leave a worker that is told to stop. -/
lemma after_createScript_stopScript (k : ℕ) (hp : i < k → p.isVacant = true) :
    p.after i (createScript k ++ stopScript k : List (MainOp τ)) =
      some (if i < k then .gone else p) := by
  rw [after_append, after_createScript k hp, Option.bind_some, after_stopScript k fun hi => ?_]
  · split <;> simp_all
  · rw [if_pos hi]
    have := hp hi
    cases p with
    | absent => exact Or.inl rfl
    | gone => exact Or.inr rfl
    | _ => cases this

lemma after_of_isLocal {script : List (MainOp τ)} (hlocal : ∀ op ∈ script, op.isLocal = true) :
    p.after i script = some p := by
  have hskip (op : MainOp τ) (hop : op ∈ script) : op.worker ≠ some i := by
    have h := hlocal op hop
    cases op <;> simp [MainOp.isLocal, MainOp.worker] at h ⊢
  simpa using after_map_of_skip (f := id) hskip

end Phase

end BcConcurrency.Pool
