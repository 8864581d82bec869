import BcConcurrency.Pool.HappensBefore

/-!
# The threads of a context

A context has one `pthread_t` for each worker.  It is written by `pthread_create` and
given back by `pthread_join`, in calls of their own: the threads created for one call
stay for the calls after it.  Over a whole session no thread is created over one that
is there, none is joined that is not there, and none is left behind.
-/

namespace BcConcurrency.Pool

variable {τ : Type*}

/-! ### Threads in a history -/

/-- Whether the thread of worker `i` is there after an event.  There is no answer if it is
created where it is there, or is joined or takes a step where it is not. -/
def threadAfter (i : ℕ) (there : Bool) (e : Event τ) : Option Bool :=
  match e with
  | .created j => if j = i then (if there then none else some true) else some there
  | .joined j => if j = i then (if there then some false else none) else some there
  | e => if e.thread = .worker i ∧ there = false then none else some there

/-- Whether the thread of worker `i` is there after a history. -/
def threadThere (i : ℕ) (h : List (Event τ)) : Option Bool := h.foldlM (threadAfter i) false

@[simp] lemma threadThere_nil (i : ℕ) : threadThere i ([] : List (Event τ)) = some false := rfl

@[simp] lemma threadThere_snoc (i : ℕ) (h : List (Event τ)) (e : Event τ) :
    threadThere i (h ++ [e]) = (threadThere i h).bind fun there => threadAfter i there e := by
  simp [threadThere, List.foldlM_append]

/-- There is a thread. -/
def WorkerPc.hasThread : WorkerPc τ → Bool
  | .absent => false
  | _ => true

@[simp] lemma WorkerPc.hasThread_signal (pc : WorkerPc τ) :
    pc.signal.hasThread = pc.hasThread := by
  cases pc <;> rfl

/-- A step that creates and joins no thread. -/
lemma threadAfter_eq {i : ℕ} {there : Bool} {e : Event τ}
    (hthere : e.thread = .worker i → there = true) (hcreated : ∀ j, e ≠ .created j)
    (hjoined : ∀ j, e ≠ .joined j) : threadAfter i there e = some there := by
  have hstep : ¬ (e.thread = .worker i ∧ there = false) := by
    rintro ⟨hthread, hfalse⟩
    rw [hthere hthread] at hfalse
    cases hfalse
  cases e with
  | created j => exact absurd rfl (hcreated j)
  | joined j => exact absurd rfl (hjoined j)
  | _ => simp only [threadAfter, if_neg hstep]

/-- A worker takes its steps while its thread is there. -/
lemma WorkerTransition.hasThread {i : ℕ} {w w' : WorkerState τ} {e : Event τ}
    (h : WorkerTransition i w e w') :
    e.thread = .worker i ∧ w.pc.hasThread = true ∧ w'.pc.hasThread = true := by
  cases h with
  | slept hpc | exited hpc | took hpc | crashed hpc | started hpc | finished hpc | reported hpc =>
    rw [hpc]
    exact ⟨rfl, rfl, rfl⟩

section Run

variable {final : ℕ → Phase} {s s' s₀ : State τ} {h h₀ : List (Event τ)} {e : Event τ}

/-- A step that changes one worker. -/
lemma threadAfter_update {workers : ℕ → WorkerState τ} {i j : ℕ} {w : WorkerState τ}
    (hself : threadAfter j (workers j).pc.hasThread e = some w.pc.hasThread)
    (hother : i ≠ j →
      threadAfter i (workers i).pc.hasThread e = some (workers i).pc.hasThread) :
    threadAfter i (workers i).pc.hasThread e =
      some (Function.update workers j w i).pc.hasThread := by
  by_cases hi : i = j
  · subst hi
    rw [hself, Function.update_self]
  · rw [hother hi, Function.update_of_ne hi]

/-- A step of a worker. -/
lemma WorkerTransition.threadAfter {workers : ℕ → WorkerState τ} {j : ℕ} {w : WorkerState τ}
    (h : WorkerTransition j (workers j) e w) (i : ℕ) :
    threadAfter i (workers i).pc.hasThread e =
      some (Function.update workers j w i).pc.hasThread := by
  obtain ⟨hthread, hthere, hthere'⟩ := h.hasThread
  have hafter (i : ℕ) : Pool.threadAfter i (workers i).pc.hasThread e =
      some (workers i).pc.hasThread := by
    refine threadAfter_eq ?_ ?_ ?_
    · intro hi
      obtain rfl := Thread.worker.inj (hthread.symm.trans hi)
      exact hthere
    · rintro k rfl
      cases hthread
    · rintro k rfl
      cases hthread
  refine threadAfter_update ?_ fun _ => hafter i
  rw [hafter, hthere, hthere']

/-- The history and the state agree on which threads are there. -/
lemma Transition.threadAfter (hinv : Invariant final h s) (htrans : Transition s e s') (i : ℕ) :
    threadAfter i (s.workers i).pc.hasThread e = some (s'.workers i).pc.hasThread := by
  cases htrans with
  | created hscript =>
    refine threadAfter_update ?_ fun hi => if_neg (Ne.symm hi)
    rw [hinv.absent_of_create hscript]
    exact if_pos rfl
  | joined _ _ hexited =>
    refine threadAfter_update ?_ fun hi => if_neg (Ne.symm hi)
    rw [hexited]
    exact if_pos rfl
  | dispatched | stopped =>
    refine threadAfter_update ?_ fun _ =>
      threadAfter_eq (by simp [Event.thread]) (by simp) (by simp)
    rw [threadAfter_eq (by simp [Event.thread]) (by simp) (by simp)]
    exact congrArg some (WorkerPc.hasThread_signal _).symm
  | worker hstep => exact hstep.threadAfter i
  | reported hpc =>
    rw [State.signalDone_eq]
    exact (WorkerTransition.reported hpc).threadAfter i
  | workerWoken hasleep =>
    refine threadAfter_update ?_ fun hi =>
      threadAfter_eq (fun hthread => absurd (Thread.worker.inj hthread).symm hi) (by simp) (by simp)
    rw [hasleep]
    exact threadAfter_eq (fun _ => rfl) (by simp) (by simp)
  | tlsSet | started | finished | waitReturned | mainSlept | mainWoken =>
    exact threadAfter_eq (by simp [Event.thread]) (by simp) (by simp)

/-- Over a run, from a history that agrees with the state. -/
lemma threadThere_run (hinv : Invariant final h₀ s₀)
    (hthere : ∀ i, threadThere i h₀ = some (s₀.workers i).pc.hasThread)
    (hrun : handshake.Run s₀ h s) (i : ℕ) :
    threadThere i (h₀ ++ h) = some (s.workers i).pc.hasThread := by
  induction hrun generalizing i with
  | nil => simpa using hthere i
  | snoc hrun hs ih =>
    rw [← List.append_assoc, threadThere_snoc, ih, Option.bind_some]
    exact (handshake_inv hs).threadAfter (hinv.run hrun) i

end Run

/-! ### Threads between calls -/

/-- A worker has a thread in the phases of a worker with a thread. -/
lemma Phase.Fits.hasThread {p : Phase} {w : WorkerState τ} (hfits : p.Fits w) :
    w.pc.hasThread = !p.isVacant := by
  cases p with
  | absent | gone =>
    rw [hfits.1]
    rfl
  | idle => rcases hfits.1 with hpc | hpc <;> rw [hpc] <;> rfl
  | stopping | lost => rcases hfits.1 with hpc | hpc <;> rw [hpc] <;> rfl
  | busy =>
    rcases hfits.2 with ⟨hpc, -⟩ | ⟨⟨_, hpc⟩ | ⟨_, _, hpc⟩, -⟩ | ⟨hpc | hpc, -⟩ <;> rw [hpc] <;> rfl
  | stuck => exact hfits.elim

/-- Between calls all workers have a thread, or none has. -/
lemma Resting.isVacant_eq {t : ℕ} {spawned : Bool} {final : ℕ → Phase}
    (hrest : Resting t spawned final) (i : ℕ) :
    (!(final i).isVacant) = decide (i < if spawned then t else 0) := by
  by_cases hi : i < t
  · cases spawned with
    | true => rcases hrest.running rfl i hi with h | h <;> simp [h, hi, Phase.isVacant]
    | false => rcases hrest.vacant rfl i hi with h | h <;> simp [h, Phase.isVacant]
  · rw [hrest.above i (not_lt.mp hi)]
    cases spawned <;> simp [hi, Phase.isVacant]

/-- How many workers have a thread after a call, or after the destruction of the context. -/
def threadsAfter (host : Host) : Option Call → ℕ
  | some call =>
      if (call.run host).host.context.workersSpawned then (call.run host).host.context.threadCount
      else 0
  | none => 0

/-- What the destruction leads to. -/
lemma Between.load_destroy {host : Host} {h : List (Event Invocation)} {s : State Invocation}
    {final : ℕ → Phase} (hb : Between host h s final) :
    ∃ final', Invariant final' h { s with script := destroyScript host } ∧
      ∀ i, (final' i).isVacant = true := by
  have hafter (i : ℕ) : ∃ q, (final i).after i (destroyScript host) = some q ∧
      q.isVacant = true := by
    have hvacant := hb.rest.isVacant_eq i
    rw [destroyScript]
    split
    case isTrue hspawned =>
      refine ⟨_, Phase.after_stopScript _ fun hi => hb.rest.running hspawned i hi, ?_⟩
      split
      case isTrue => rfl
      case isFalse hi => simpa [hspawned, hi] using hvacant
    case isFalse hspawned =>
      exact ⟨_, rfl, by simpa [hspawned] using hvacant⟩
  choose final' hfinal' hvacant using hafter
  exact ⟨final', hb.inv.load hb.done hfinal', hvacant⟩

/-- A call or the destruction that is over has left its threads. -/
lemma Between.hasThread_returned {host : Host} {h h' : List (Event Invocation)}
    {s s' : State Invocation} {final : ℕ → Phase} (hb : Between host h s final)
    (next : Option Call) (hrun : handshake.Run { s with script := nextScript host next } h' s')
    (hreturn : s'.script = []) (i : ℕ) :
    (s'.workers i).pc.hasThread = decide (i < threadsAfter host next) := by
  cases next with
  | some call =>
    obtain ⟨final', hb', -⟩ := hb.call call hrun hreturn
    rw [(hb'.worker i).fits.hasThread, hb'.rest.isVacant_eq]
    rfl
  | none =>
    obtain ⟨final', hload, hvacant⟩ := hb.load_destroy
    obtain ⟨p, hw, hafter⟩ := (hload.run hrun).worker i
    obtain rfl : p = final' i := by simpa [hreturn] using hafter
    rw [hw.fits.hasThread, hvacant]
    rfl

/-! ### Sessions -/

/-- The history of a session agrees with its state. -/
lemma Session.threadThere {host₀ host : Host} {records : List Record} {s : State Invocation}
    (hspawned : host₀.context.workersSpawned = false)
    (hsession : Session host₀ records host s) (i : ℕ) :
    threadThere i (histories records) = some (s.workers i).pc.hasThread := by
  induction hsession generalizing i with
  | start => rfl
  | call call hsession hrun _ ih =>
    obtain ⟨final, hb⟩ := hsession.between hspawned
    obtain ⟨final', hload, -⟩ := hb.phases_load call
    simpa using threadThere_run hload ih hrun i

/-- What holds of the threads in a history that ends in a call, or in the destruction. -/
structure ThreadsOwned (host : Host) (next : Option Call) (h : List (Event Invocation))
    (s : State Invocation) : Prop where
  /-- A thread is created where there is none, and it is joined and takes its steps where
  it is there. -/
  owned : ∀ i, (threadThere i h).isSome
  /-- In the end all workers have a thread or none has. -/
  returned : s.script = [] →
    ∀ i, threadThere i h = some (decide (i < threadsAfter host next))

/-- Over a whole session, whatever fails in it, no thread is created twice or joined
without being there.  After a call that spawns, there is one for every worker; after a
failed spawn and after the destruction, there is none. -/
theorem pool_threads_owned {memory memory' : Memory} {physicalCoreCount : ℕ}
    {config : Option Config} {stagingGrows memoryGrants : ℕ → Bool} {context : Context}
    (hcreate : create memory physicalCoreCount config stagingGrows memoryGrants =
      (some context, memory'))
    {records : List Record} {host : Host} {s s' : State Invocation}
    (hsession : Session ⟨context, memory'⟩ records host s) (next : Option Call)
    {h : List (Event Invocation)}
    (hrun : handshake.Run { s with script := nextScript host next } h s') :
    ThreadsOwned host next (histories records ++ h) s' := by
  have hspawned : context.workersSpawned = false := (create_ok hcreate).1.workersSpawned
  obtain ⟨final, hb⟩ := hsession.between hspawned
  obtain ⟨final', hload⟩ := hb.exists_load next
  have hpast := hsession.threadThere hspawned
  have hthere := threadThere_run hload hpast hrun
  refine ⟨fun i => ?_, fun hreturn i => ?_⟩
  · rw [hthere]
    rfl
  · rw [hthere, hb.hasThread_returned next hrun hreturn]

/-- The second of two threads cannot be created: the first one is stopped and joined
before the call returns `false`, and the destruction has nothing to join. -/
theorem pool_threads_owned_unspawned :
    ∃ context memory',
      create ⟨fun _ => true, 0, 0, [], []⟩ 3 none (fun _ => false) (fun _ => true) =
        (some context, memory') ∧
      let range : ForRange := ⟨0, 6, 1, 7, 8, by decide, by decide, by decide⟩
      let main := List.replicate 8 (Move.run .main)
      let worker := List.replicate 8 (Move.run (.worker 0))
      let result := play ⟨context, memory'⟩ (State.start [])
        [(.parallelFor range ⟨true, true, fun i => i == 0⟩, main ++ worker ++ main)]
      let last := handshake.exec { result.2.2 with script := nextScript result.2.1 none } main
      histories result.1 ++ last.1 = [.created 0, .stopped 0, .exited 0, .joined 0] ∧
        ThreadsOwned result.2.1 none (histories result.1 ++ last.1) last.2 := by
  have hcreate : create ⟨fun _ => true, 0, 0, [], []⟩ 3 none (fun _ => false) (fun _ => true) =
    (some _, _) := rfl
  refine ⟨_, _, hcreate, ?_⟩
  intro range main worker result last
  exact ⟨by decide, pool_threads_owned hcreate (session_play _ _ (by decide)) none
    (handshake.run_exec _ _)⟩

end BcConcurrency.Pool
