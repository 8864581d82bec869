import BcConcurrency.Lib.HappensBefore
import BcConcurrency.Pool.Creation
import BcConcurrency.Pool.Session

/-!
# What happens before what in the pool

The sections under the `state_mutex` of a worker, the creation and the join of its
thread are all that synchronizes the threads of the pool.  A call of the library
that returns is a barrier: whatever the main thread and the tasks did before it
happens before whatever they do after it, although the tasks of one call are in no
order among the workers.
-/

namespace BcConcurrency.Pool

variable {τ : Type*}

/-- What the threads synchronize with. -/
inductive SyncObject
  /-- The `state_mutex` of a worker. -/
  | mutex (worker : ℕ)
  /-- `pthread_create` with the beginning of the routine. -/
  | entry (worker : ℕ)
  /-- The return of the routine with `pthread_join`. -/
  | exit (worker : ℕ)
deriving DecidableEq

/-- The thread that takes a step. -/
def Event.thread : Event τ → Thread
  | .created _ | .dispatched _ _ | .tlsSet _ | .waitReturned _ | .stopped _ | .joined _ => .main
  | .took i _ | .reported i | .exited i | .crashed i => .worker i
  | .started thread _ _ | .finished thread _ _ | .slept thread | .woken thread => thread

/-- The worker in whose section the step is.  The two halves of a wait on a condition
variable are left out, which leaves less ordered. -/
def Event.section : Event τ → Option ℕ
  | .dispatched i _ | .waitReturned i | .stopped i => some i
  | .took i _ | .reported i | .exited i | .crashed i => some i
  | _ => none

/-- A section locks the mutex first; a step of a worker comes after its creation, and
`pthread_join` after the end. -/
def Event.acquires (e : Event τ) : List SyncObject :=
  e.section.toList.map .mutex ++
    match e.thread, e with
    | .worker i, _ => [.entry i]
    | .main, .joined i => [.exit i]
    | .main, _ => []

/-- A section unlocks the mutex at the end. -/
def Event.releases (e : Event τ) : List SyncObject :=
  e.section.toList.map .mutex ++
    match e with
    | .created i => [.entry i]
    | .exited i => [.exit i]
    | _ => []

/-- The synchronization of the pool. -/
@[simps] def poolSync : Synchronization (Event τ) Thread SyncObject where
  thread := Event.thread
  acquires := Event.acquires
  releases := Event.releases

/-- The step is the start or the end of a task on a thread. -/
def Event.InTaskOf (thread : Thread) (e : Event τ) : Prop := ∃ tls, taskOf e = some (thread, tls)

/-- The step is of the main thread or of a task: it runs code of the caller, or comes
between such code. -/
def Event.Visible (e : Event τ) : Prop := e.thread = .main ∨ ∃ i, e.InTaskOf (.worker i)

section Edges

variable {h : List (Event τ)} {a b i : ℕ} {e f : Event τ}

lemma Event.InTaskOf.thread_eq {thread : Thread} (he : e.InTaskOf thread) : e.thread = thread := by
  obtain ⟨tls, htls⟩ := he
  cases e <;> simp only [taskOf, Option.some.injEq, Prod.mk.injEq, reduceCtorEq] at htls
  · exact htls.1
  · exact htls.1

/-- Two sections of one mutex. -/
lemma happensBefore_of_section (hlt : a < b) (he : At h a e) (hf : At h b f)
    (hi : e.section = some i) (hi' : f.section = some i) : poolSync.HappensBefore h a b := by
  refine Synchronization.happensBefore_of_sync (o := .mutex i) hlt he hf ?_ ?_
  · simp [Event.releases, hi]
  · simp [Event.acquires, hi']

/-- Two steps of the main thread. -/
lemma happensBefore_of_main (hlt : a < b) (he : At h a e) (hf : At h b f)
    (hmain : e.thread = .main) (hmain' : f.thread = .main) : poolSync.HappensBefore h a b :=
  Synchronization.happensBefore_of_thread hlt he hf (hmain.trans hmain'.symm)

end Edges

/-! ### What is ordered at a worker -/

/-- What the history orders for worker `i`: at rest it has reported its tasks, at
work it has taken all that was dispatched, and between two rounds the main thread has
waited for its tasks. -/
structure Settles (i : ℕ) (h : List (Event τ)) (w : WorkerState τ) : Prop where
  reported : ∀ a e, At h a e → e.InTaskOf (.worker i) → w.Working ∨ ∃ r, a < r ∧ At h r (.reported i)
  took : w.Working → ∃ k work, At h k (.took i work) ∧
    ∀ a work', At h a (.dispatched i work') → a < k
  returned : (dispatches i h).length = returns i h → ∀ a e, At h a e → e.InTaskOf (.worker i) →
    ∃ c, poolSync.HappensBefore h a c ∧ At h c (.waitReturned i)

namespace Settles

variable {i : ℕ} {h : List (Event τ)} {w w' : WorkerState τ} {e : Event τ}

/-- A step that is no task of the worker, and neither of its rounds. -/
lemma frame (hset : Settles i h w) (htask : ¬ e.InTaskOf (.worker i))
    (hdispatched : dispatchedTo i e = none) (hreturned : isReturn i e = false)
    (hworking : w'.Working ↔ w.Working) : Settles i (h ++ [e]) w' := by
  have hold {a : ℕ} {e' : Event τ} (he' : At (h ++ [e]) a e') (htask' : e'.InTaskOf (.worker i)) :
      At h a e' := by
    rcases he'.snoc_cases with he' | ⟨-, rfl⟩
    · exact he'
    · exact absurd htask' htask
  refine ⟨?_, ?_, ?_⟩
  · intro a e' he' htask'
    refine (hset.reported a e' (hold he' htask') htask').imp hworking.mpr ?_
    rintro ⟨r, hlt, hr⟩
    exact ⟨r, hlt, hr.append _⟩
  · intro hw'
    obtain ⟨k, work, hk, hlast⟩ := hset.took (hworking.mp hw')
    refine ⟨k, work, hk.append _, ?_⟩
    intro a work' ha
    rcases ha.snoc_cases with ha | ⟨-, rfl⟩
    · exact hlast a work' ha
    · simp [dispatchedTo] at hdispatched
  · intro hlen a e' he' htask'
    have hlen' : (dispatches i h).length = returns i h := by
      simpa [hdispatched, hreturned] using hlen
    obtain ⟨c, hac, hc⟩ := hset.returned hlen' a e' (hold he' htask') htask'
    exact ⟨c, hac.append _, hc.append _⟩

/-- A step of a task of the worker. -/
lemma task (hset : Settles i h w) (htask : e.InTaskOf (.worker i)) (hw : w.Working)
    (hw' : w'.Working) (hopen : (dispatches i (h ++ [e])).length = returns i (h ++ [e]) + 1) :
    Settles i (h ++ [e]) w' := by
  refine ⟨fun _ _ _ _ => Or.inl hw', fun _ => ?_, fun hlen => by omega⟩
  obtain ⟨k, work, hk, hlast⟩ := hset.took hw
  refine ⟨k, work, hk.append _, ?_⟩
  intro a work' ha
  rcases ha.snoc_cases with ha | ⟨-, rfl⟩
  · exact hlast a work' ha
  · obtain ⟨tls, htls⟩ := htask
    simp [taskOf] at htls

/-- The worker takes what was dispatched. -/
lemma takes {work : List τ} (hw' : w'.Working)
    (hopen : (dispatches i (h ++ [.took i work])).length = returns i (h ++ [.took i work]) + 1) :
    Settles i (h ++ [.took i work]) w' := by
  refine ⟨fun _ _ _ _ => Or.inl hw', fun _ => ⟨h.length, work, At.last _ _, ?_⟩, fun hlen => by omega⟩
  intro a work' ha
  rcases ha.snoc_cases with ha | ⟨-, heq⟩
  · exact ha.lt
  · cases heq

/-- The worker reports its tasks. -/
lemma reports (hw' : ¬ w'.Working)
    (hopen : (dispatches i h).length = returns i h + 1) :
    Settles i (h ++ [.reported i]) w' := by
  refine ⟨?_, fun hw => absurd hw hw', ?_⟩
  · intro a e' he' htask'
    rcases he'.snoc_cases with he' | ⟨-, rfl⟩
    · exact Or.inr ⟨h.length, he'.lt, At.last _ _⟩
    · obtain ⟨tls, htls⟩ := htask'
      simp [taskOf] at htls
  · intro hlen
    simp [dispatchedTo, isReturn] at hlen
    omega

/-- The main thread hands work to the worker. -/
lemma dispatched {work : List τ} (hset : Settles i h w) (hw : ¬ w.Working) (hw' : ¬ w'.Working)
    (hclosed : (dispatches i h).length = returns i h) :
    Settles i (h ++ [.dispatched i work]) w' := by
  refine ⟨?_, fun hworking => absurd hworking hw', ?_⟩
  · intro a e' he' htask'
    rcases he'.snoc_cases with he' | ⟨-, rfl⟩
    · obtain ⟨r, hlt, hr⟩ := (hset.reported a e' he' htask').resolve_left hw
      exact Or.inr ⟨r, hlt, hr.append _⟩
    · obtain ⟨tls, htls⟩ := htask'
      simp [taskOf] at htls
  · intro hlen
    simp [dispatchedTo, isReturn] at hlen
    omega

/-- When the main thread returns from waiting, it has seen every task. -/
lemma seen (hset : Settles i h w) (hw : ¬ w.Working) {a : ℕ} {e' : Event τ} (he' : At h a e')
    (htask' : e'.InTaskOf (.worker i)) :
    poolSync.HappensBefore (h ++ [.waitReturned i]) a h.length := by
  obtain ⟨r, hlt, hr⟩ := (hset.reported a e' he' htask').resolve_left hw
  have htask : poolSync.HappensBefore (h ++ [.waitReturned i]) a r :=
    Synchronization.happensBefore_of_thread hlt (he'.append _) (hr.append _) htask'.thread_eq
  exact htask.trans (happensBefore_of_section hr.lt (hr.append _) (At.last _ _) rfl rfl)

lemma waited (hset : Settles i h w) (hw : ¬ w.Working) : Settles i (h ++ [.waitReturned i]) w := by
  have hold {a : ℕ} {e' : Event τ} (he' : At (h ++ [.waitReturned i]) a e')
      (htask' : e'.InTaskOf (.worker i)) : At h a e' := by
    rcases he'.snoc_cases with he' | ⟨-, rfl⟩
    · exact he'
    · obtain ⟨tls, htls⟩ := htask'
      simp [taskOf] at htls
  refine ⟨?_, fun hworking => absurd hworking hw, ?_⟩
  · intro a e' he' htask'
    obtain ⟨r, hlt, hr⟩ := (hset.reported a e' (hold he' htask') htask').resolve_left hw
    exact Or.inr ⟨r, hlt, hr.append _⟩
  · intro _ a e' he' htask'
    exact ⟨h.length, hset.seen hw (hold he' htask') htask', At.last _ _⟩

end Settles

lemma WorkerState.working_signal (w : WorkerState τ) {w' : WorkerState τ}
    (hpc : w'.pc = w.pc.signal) : w'.Working ↔ w.Working := by
  rw [Working, Working, hpc]
  cases w.pc <;> simp [WorkerPc.signal]

namespace Invariant

variable {final : ℕ → Phase} {h : List (Event τ)} {s s' : State τ} {e : Event τ}

/-- A worker at work has a round that the main thread has not waited for. -/
lemma open_of_working (hinv : Invariant final h s) {i : ℕ} (hw : (s.workers i).Working) :
    (dispatches i h).length = returns i h + 1 := by
  obtain ⟨p, hworker, -⟩ := hinv.worker i
  have hfits := hworker.fits
  have hrounds := hworker.rounds
  rcases hw with ⟨rest, hpc⟩ | ⟨task, rest, hpc⟩ <;>
    cases p <;> simp [Phase.Fits, WorkerState.Waiting, hpc] at hfits <;> exact hrounds

/-- A worker that gets work has none, and no round is open. -/
lemma closed_of_dispatch (hinv : Invariant final h s) {i : ℕ} {work : List τ}
    {rest : List (MainOp τ)} (hscript : s.script = .dispatch i work :: rest) :
    ¬ (s.workers i).Working ∧ (dispatches i h).length = returns i h := by
  obtain ⟨p, q, hworker, hmove, -⟩ := hinv.phase hscript rfl
  have hfits := hworker.fits
  have hrounds := hworker.rounds
  cases p with
  | idle =>
    refine ⟨?_, hrounds⟩
    rcases hfits.1 with hpc | hpc <;> simp [WorkerState.Working, hpc]
  | stopping =>
    refine ⟨?_, hrounds⟩
    rcases hfits.1 with hpc | hpc <;> simp [WorkerState.Working, hpc]
  | stuck => exact hfits.elim
  | absent | busy | gone | lost => cases hmove

/-- A worker that has reported is not at work. -/
lemma not_working_of_doneFlag (hinv : Invariant final h s) {i : ℕ} {rest : List (MainOp τ)}
    (hscript : s.script = .wait i :: rest) (hdone : (s.workers i).doneFlag = true) :
    ¬ (s.workers i).Working := by
  obtain ⟨p, q, hworker, hmove, -⟩ := hinv.phase hscript rfl
  have hfits := hworker.fits
  cases p with
  | busy =>
    rcases hfits.2 with ⟨-, -, -, hnot⟩ | ⟨-, -, -, hnot⟩ | ⟨hpc | hpc, -⟩
    · simp [hdone] at hnot
    · simp [hdone] at hnot
    · simp [WorkerState.Working, hpc]
    · simp [WorkerState.Working, hpc]
  | lost => simp [Phase.Fits, hdone] at hfits
  | stuck => exact hfits.elim
  | absent | idle | stopping | gone => cases hmove

/-- Every step keeps what is ordered at the workers. -/
lemma settles (hinv : Invariant final h s) (hset : ∀ i, Settles i h (s.workers i))
    (htrans : Transition s e s') (i : ℕ) : Settles i (h ++ [e]) (s'.workers i) := by
  have hnext := hinv.step htrans
  cases htrans with
  | @created j rest hscript hawake =>
    refine (hset i).frame (by simp [Event.InTaskOf, taskOf]) rfl rfl ?_
    by_cases hi : i = j
    · subst hi
      simp [WorkerState.Working, hinv.absent_of_create hscript]
    · simp [hi]
  | @dispatched j work rest hscript hawake =>
    by_cases hi : i = j
    · subst hi
      obtain ⟨hw, hclosed⟩ := hinv.closed_of_dispatch hscript
      have hw' : ¬ ((s.workers i).dispatch work).Working := by
        rwa [WorkerState.working_signal (s.workers i) rfl]
      simpa using (hset i).dispatched hw hw' hclosed
    · exact (hset i).frame (by simp [Event.InTaskOf, taskOf])
        (by simp [dispatchedTo, Ne.symm hi]) rfl (by simp [hi])
  | tlsSet | mainSlept | mainWoken =>
    exact (hset i).frame (by simp [Event.InTaskOf, taskOf]) rfl rfl Iff.rfl
  | started | finished =>
    exact (hset i).frame (by simp [Event.InTaskOf, taskOf]) rfl rfl Iff.rfl
  | @waitReturned j rest hscript hawake hdone =>
    by_cases hi : i = j
    · subst hi
      exact (hset i).waited (hinv.not_working_of_doneFlag hscript hdone)
    · exact (hset i).frame (by simp [Event.InTaskOf, taskOf]) rfl
        (by simp [isReturn, Ne.symm hi]) Iff.rfl
  | @stopped j rest hscript hawake =>
    refine (hset i).frame (by simp [Event.InTaskOf, taskOf]) rfl rfl ?_
    by_cases hi : i = j
    · subst hi
      simpa using WorkerState.working_signal (s.workers i) rfl
    · simp [hi]
  | @joined j rest hscript hawake hexited =>
    refine (hset i).frame (by simp [Event.InTaskOf, taskOf]) rfl rfl ?_
    by_cases hi : i = j
    · subst hi
      simp [WorkerState.Working, hexited]
    · simp [hi]
  | @workerWoken j hasleep =>
    refine (hset i).frame (by simp [Event.InTaskOf, taskOf]) rfl rfl ?_
    by_cases hi : i = j
    · subst hi
      simp [WorkerState.Working, hasleep]
    · simp [hi]
  | @reported j hpc =>
    by_cases hi : i = j
    · subst hi
      have hw : (s.workers i).Working := Or.inl ⟨[], hpc⟩
      exact Settles.reports (by simp [WorkerState.Working]) (hinv.open_of_working hw)
    · refine (hset i).frame (by simp [Event.InTaskOf, taskOf]) rfl rfl ?_
      rw [State.signalDone_eq]
      simp [hi]
  | @worker j e w hstep hne =>
    by_cases hi : i = j
    · subst hi
      have hopen := hnext.open_of_working (i := i)
      simp only [State.setWorker_workers, Function.update_self] at hopen ⊢
      cases hstep with
      | slept hpc | exited hpc | crashed hpc =>
        exact (hset i).frame (by simp [Event.InTaskOf, taskOf]) rfl rfl
          (by simp [WorkerState.Working, hpc])
      | took hpc => exact Settles.takes (Or.inl ⟨_, rfl⟩) (hopen (Or.inl ⟨_, rfl⟩))
      | started hpc =>
        exact (hset i).task ⟨_, rfl⟩ (Or.inl ⟨_, hpc⟩) (Or.inr ⟨_, _, rfl⟩)
          (hopen (Or.inr ⟨_, _, rfl⟩))
      | finished hpc =>
        exact (hset i).task ⟨_, rfl⟩ (Or.inr ⟨_, _, hpc⟩) (Or.inl ⟨_, rfl⟩)
          (hopen (Or.inl ⟨_, rfl⟩))
      | reported => exact absurd rfl hne
    · have hquiet := hstep.quiet hi
      refine (hset i).frame ?_ hquiet.dispatched hquiet.returned (by simp [hi])
      rintro ⟨tls, htls⟩
      cases hstep <;> simp only [taskOf, Option.some.injEq, Prod.mk.injEq, Thread.worker.injEq,
        reduceCtorEq] at htls <;> exact hi htls.1.symm

end Invariant

/-! ### The life of a thread -/

/-- What the history orders for the thread of worker `i`: it was created before its
first step, and its last step is the return of the routine. -/
structure Lives (i : ℕ) (h : List (Event τ)) (w : WorkerState τ) : Prop where
  created : w.pc ≠ .absent → ∃ c, At h c (.created i)
  ended : w.pc = .absent ∨ w.pc = .exited → ∀ a e, At h a e → e.thread = .worker i →
    ∃ x, a ≤ x ∧ At h x (.exited i)

namespace Lives

variable {i : ℕ} {h : List (Event τ)} {w w' : WorkerState τ} {e : Event τ}

/-- A step of another thread that leaves a thread that is there where it is, or lets it
go after its end. -/
lemma frame (hlives : Lives i h w) (hthread : e.thread ≠ .worker i)
    (habsent : w'.pc ≠ .absent → w.pc ≠ .absent)
    (hended : w'.pc = .absent ∨ w'.pc = .exited → w.pc = .absent ∨ w.pc = .exited) :
    Lives i (h ++ [e]) w' := by
  refine ⟨?_, ?_⟩
  · intro hpc
    obtain ⟨c, hc⟩ := hlives.created (habsent hpc)
    exact ⟨c, hc.append _⟩
  · intro hpc a e' he' hthread'
    rcases he'.snoc_cases with he' | ⟨-, rfl⟩
    · obtain ⟨x, hle, hx⟩ := hlives.ended (hended hpc) a e' he' hthread'
      exact ⟨x, hle, hx.append _⟩
    · exact absurd hthread' hthread

/-- A step of the thread itself, which goes on. -/
lemma goes_on (hlives : Lives i h w) (hpc : w.pc ≠ .absent)
    (hpc' : w'.pc ≠ .absent ∧ w'.pc ≠ .exited) : Lives i (h ++ [e]) w' := by
  refine ⟨fun _ => ?_, fun hend => (hend.elim hpc'.1 hpc'.2).elim⟩
  obtain ⟨c, hc⟩ := hlives.created hpc
  exact ⟨c, hc.append _⟩

/-- The routine returns. -/
lemma ends (hlives : Lives i h w) (hpc : w.pc ≠ .absent) : Lives i (h ++ [.exited i]) w' := by
  refine ⟨fun _ => ?_, ?_⟩
  · obtain ⟨c, hc⟩ := hlives.created hpc
    exact ⟨c, hc.append _⟩
  · intro _ a e' he' _
    refine ⟨h.length, ?_, At.last _ _⟩
    have hlt := he'.lt
    rw [List.length_append, List.length_singleton] at hlt
    omega

end Lives

lemma WorkerPc.signal_eq_iff {pc : WorkerPc τ} :
    (pc.signal = .absent ↔ pc = .absent) ∧ (pc.signal = .exited ↔ pc = .exited) := by
  cases pc <;> simp [WorkerPc.signal]

/-- Every step keeps what is ordered for the threads. -/
lemma Transition.lives {h : List (Event τ)} {s s' : State τ} {e : Event τ}
    (htrans : Transition s e s') (hlives : ∀ i, Lives i h (s.workers i)) (i : ℕ) :
    Lives i (h ++ [e]) (s'.workers i) := by
  have hmain (e' : Event τ) (he' : e'.thread = .main) : e'.thread ≠ .worker i := by simp [he']
  have hkept {w' : WorkerState τ} (hw' : w' = s.workers i) {e' : Event τ}
      (he' : e'.thread ≠ .worker i) : Lives i (h ++ [e']) w' := by
    subst hw'
    exact (hlives i).frame he' id id
  cases htrans with
  | @created j rest hscript hawake =>
    by_cases hi : i = j
    · subst hi
      refine ⟨fun _ => ⟨h.length, At.last _ _⟩, ?_⟩
      simp
    · exact hkept (by simp [hi]) (hmain _ rfl)
  | @dispatched j work rest hscript hawake =>
    by_cases hi : i = j
    · subst hi
      refine (hlives i).frame (hmain _ rfl) ?_ ?_ <;>
        simp [WorkerState.dispatch, WorkerPc.signal_eq_iff]
    · exact hkept (by simp [hi]) (hmain _ rfl)
  | @stopped j rest hscript hawake =>
    by_cases hi : i = j
    · subst hi
      refine (hlives i).frame (hmain _ rfl) ?_ ?_ <;>
        simp [WorkerState.stop, WorkerPc.signal_eq_iff]
    · exact hkept (by simp [hi]) (hmain _ rfl)
  | @joined j rest hscript hawake hexited =>
    by_cases hi : i = j
    · subst hi
      refine (hlives i).frame (hmain _ rfl) ?_ ?_ <;> simp [hexited]
    · exact hkept (by simp [hi]) (hmain _ rfl)
  | tlsSet | started | finished | waitReturned | mainSlept | mainWoken =>
    exact hkept rfl (hmain _ rfl)
  | @workerWoken j hasleep =>
    by_cases hi : i = j
    · subst hi
      exact (hlives i).goes_on (by simp [hasleep]) (by simp)
    · exact hkept (by simp [hi]) (by simp [Event.thread, Ne.symm hi])
  | @reported j hpc =>
    by_cases hi : i = j
    · subst hi
      exact (hlives i).goes_on (by simp [hpc]) (by simp)
    · exact hkept (by rw [State.signalDone_eq]; simp [hi]) (by simp [Event.thread, Ne.symm hi])
  | @worker j e w hstep hne =>
    by_cases hi : i = j
    · subst hi
      simp only [State.setWorker_workers, Function.update_self]
      cases hstep with
      | exited hpc => exact (hlives i).ends (by simp [hpc])
      | slept hpc | took hpc | crashed hpc | started hpc | finished hpc | reported hpc =>
        exact (hlives i).goes_on (by simp [hpc]) (by simp)
    · refine hkept (by simp [hi]) ?_
      cases hstep <;> simp [Event.thread, Ne.symm hi]

/-! ### Whole runs -/

/-- What is ordered in a history that led to a state. -/
structure Ordered (final : ℕ → Phase) (h : List (Event τ)) (s : State τ) : Prop where
  inv : Invariant final h s
  settles : ∀ i, Settles i h (s.workers i)
  lives : ∀ i, Lives i h (s.workers i)

namespace Ordered

variable {final : ℕ → Phase} {h₀ h : List (Event τ)} {s₀ s s' : State τ} {e : Event τ}

lemma step (hord : Ordered final h s) (htrans : Transition s e s') :
    Ordered final (h ++ [e]) s' :=
  ⟨hord.inv.step htrans, hord.inv.settles hord.settles htrans, htrans.lives hord.lives⟩

lemma run (hord : Ordered final h₀ s₀) (hrun : handshake.Run s₀ h s) :
    Ordered final (h₀ ++ h) s := by
  refine hrun.invariant (P := fun h s => Ordered final (h₀ ++ h) s) (by simpa using hord) ?_
  intro h s c e s' _ ih hs
  simpa [List.append_assoc] using ih.step (handshake_inv hs)

/-- The state before an event of a run. -/
lemma before (hord : Ordered final h₀ s₀) (hrun : handshake.Run s₀ h s) {b : ℕ}
    (hb : h₀.length ≤ b) (he : At (h₀ ++ h) b e) :
    ∃ h₁ h₂ s₁ s₂, h = h₁ ++ e :: h₂ ∧ (h₀ ++ h₁).length = b ∧ Ordered final (h₀ ++ h₁) s₁ ∧
      Transition s₁ e s₂ := by
  have he' : At h (b - h₀.length) e := by
    rwa [At, List.getElem?_append_right hb] at he
  obtain ⟨h₁, h₂, rfl, hlen⟩ := he'.split
  obtain ⟨s₁, c, s₂, hrun₁, hs, -⟩ := hrun.split_event
  refine ⟨h₁, h₂, s₁, s₂, rfl, ?_, hord.run hrun₁, handshake_inv hs⟩
  rw [List.length_append]
  omega

end Ordered

/-- What happens before what in the part `h` of a history. -/
structure Synchronized (pre h : List (Event τ)) : Prop where
  /-- What the callers see of the first part happens before what they see of the
  second. -/
  barrier : ∀ a b e f, a < pre.length → pre.length ≤ b → At (pre ++ h) a e → At (pre ++ h) b f →
    e.Visible → f.Visible → poolSync.HappensBefore (pre ++ h) a b
  /-- What the main thread did before it handed over work happens before the tasks. -/
  dispatched : ∀ a b i work f, a < b → pre.length ≤ b → At (pre ++ h) a (.dispatched i work) →
    At (pre ++ h) b f → f.InTaskOf (.worker i) → poolSync.HappensBefore (pre ++ h) a b
  /-- The tasks of a worker happen before the return of the wait for it. -/
  waited : ∀ a b i e, a < b → pre.length ≤ b → At (pre ++ h) a e → e.InTaskOf (.worker i) →
    At (pre ++ h) b (.waitReturned i) → poolSync.HappensBefore (pre ++ h) a b
  /-- Every step of a worker comes after the creation of its thread. -/
  created : ∀ b i f, pre.length ≤ b → At (pre ++ h) b f → f.thread = .worker i →
    ∃ a, At (pre ++ h) a (.created i) ∧ poolSync.HappensBefore (pre ++ h) a b
  /-- Every step of a worker comes before the join of its thread. -/
  joined : ∀ a b i e, a < b → pre.length ≤ b → At (pre ++ h) a e → e.thread = .worker i →
    At (pre ++ h) b (.joined i) → poolSync.HappensBefore (pre ++ h) a b

section Orders

variable {final : ℕ → Phase} {h : List (Event τ)} {s s' : State τ} {e f : Event τ} {a i : ℕ}

/-- A thread that steps is there. -/
lemma Transition.ne_absent (htrans : Transition s e s') (hthread : e.thread = .worker i) :
    (s.workers i).pc ≠ .absent := by
  cases htrans with
  | created | dispatched | tlsSet | started | finished | waitReturned | mainSlept | stopped |
    joined | mainWoken => cases hthread
  | workerWoken hasleep => cases hthread; simp [hasleep]
  | reported hpc => cases hthread; simp [hpc]
  | worker hstep => cases hstep <;> cases hthread <;> simp [*]

/-- A worker that starts or ends a task is at work. -/
lemma Transition.working (htrans : Transition s e s') (htask : e.InTaskOf (.worker i)) :
    (s.workers i).Working := by
  obtain ⟨tls, htls⟩ := htask
  cases htrans with
  | worker hstep =>
    cases hstep with
    | started hpc => cases htls; exact Or.inl ⟨_, hpc⟩
    | finished hpc => cases htls; exact Or.inr ⟨_, _, hpc⟩
    | _ => cases htls
  | _ => cases htls

/-- The dispatches to a worker happen before its tasks. -/
lemma Ordered.dispatch_before (hord : Ordered final h s) (htrans : Transition s f s')
    (htask : f.InTaskOf (.worker i)) {work : List τ} (ha : At h a (.dispatched i work)) :
    poolSync.HappensBefore (h ++ [f]) a h.length := by
  obtain ⟨k, work', hk, hlast⟩ := (hord.settles i).took (htrans.working htask)
  have htook : poolSync.HappensBefore (h ++ [f]) a k :=
    happensBefore_of_section (hlast a work ha) (ha.append _) (hk.append _) rfl rfl
  exact htook.trans (Synchronization.happensBefore_of_thread hk.lt (hk.append _) (At.last _ _)
    htask.thread_eq.symm)

/-- When no round is open, the main thread has seen every task. -/
lemma Ordered.seen_by_main (hord : Ordered final h s)
    (hclosed : ∀ i, (dispatches i h).length = returns i h) (ha : At h a e) (hvisible : e.Visible) :
    ∃ c g, (c = a ∨ poolSync.HappensBefore h a c) ∧ At h c g ∧ g.thread = .main := by
  rcases hvisible with hmain | ⟨i, htask⟩
  · exact ⟨a, e, Or.inl rfl, ha, hmain⟩
  · obtain ⟨c, hac, hc⟩ := (hord.settles i).returned (hclosed i) a e ha htask
    exact ⟨c, _, Or.inr hac, hc, rfl⟩

end Orders

/-- Where no round is open and nobody is in a task, a run that follows is ordered. -/
lemma Ordered.synchronized {final : ℕ → Phase} {pre h : List (Event τ)} {s₀ s : State τ}
    (hord : Ordered final pre s₀) (hclosed : ∀ i, (dispatches i pre).length = returns i pre)
    (hrun : handshake.Run s₀ h s) : Synchronized pre h := by
  constructor
  case barrier =>
    intro a b e f ha hb he hf hvisible hvisible'
    obtain ⟨h₁, h₂, s₁, s₂, rfl, rfl, hord₁, htrans⟩ := hord.before hrun hb hf
    obtain ⟨c, g, hac, hc, hmain⟩ := hord.seen_by_main hclosed (he.of_append ha) hvisible
    have hc' : At (pre ++ h₁ ++ [f]) c g := (hc.append h₁).append _
    have hcb : poolSync.HappensBefore (pre ++ h₁ ++ [f]) c (pre ++ h₁).length := by
      rcases hvisible' with hmain' | ⟨i, htask⟩
      · exact happensBefore_of_main (hc.append h₁).lt hc' (At.last _ _) hmain hmain'
      · -- the worker was given its work in this very part
        have hopen := hord₁.inv.open_of_working (htrans.working htask)
        rw [dispatches_append, returns_append, List.length_append, hclosed i] at hopen
        have hne : dispatches i h₁ ≠ [] := by
          rintro heq
          rw [heq, List.length_nil] at hopen
          omega
        obtain ⟨work, hwork⟩ := List.exists_mem_of_ne_nil _ hne
        obtain ⟨e', hmem, hdispatched⟩ := List.mem_filterMap.mp hwork
        obtain ⟨work', rfl⟩ : ∃ work', e' = .dispatched i work' := by
          cases e' <;> simp [dispatchedTo] at hdispatched
          exact ⟨_, by rw [hdispatched.1]⟩
        obtain ⟨d, hd⟩ := At.of_mem hmem
        have hd' := hd.shift pre
        have hcd : poolSync.HappensBefore (pre ++ h₁ ++ [f]) c (pre.length + d) :=
          happensBefore_of_main (Nat.lt_add_right d hc.lt) hc' (hd'.append _) hmain rfl
        exact hcd.trans (hord₁.dispatch_before htrans htask hd')
    have hab : poolSync.HappensBefore (pre ++ h₁ ++ [f]) a (pre ++ h₁).length := by
      rcases hac with rfl | hac
      · exact hcb
      · exact ((hac.append h₁).append _).trans hcb
    simpa using hab.append h₂
  case dispatched =>
    intro a b i work f hlt hb ha hf htask
    obtain ⟨h₁, h₂, s₁, s₂, rfl, rfl, hord₁, htrans⟩ := hord.before hrun hb hf
    rw [← List.append_assoc] at ha
    simpa using (hord₁.dispatch_before htrans htask (ha.of_append hlt)).append h₂
  case waited =>
    intro a b i e hlt hb ha htask hwait
    obtain ⟨h₁, h₂, s₁, s₂, rfl, rfl, hord₁, htrans⟩ := hord.before hrun hb hwait
    rw [← List.append_assoc] at ha
    have hseen : poolSync.HappensBefore (pre ++ h₁ ++ [.waitReturned i]) a (pre ++ h₁).length := by
      cases htrans with
      | waitReturned hscript hawake hdone =>
        exact (hord₁.settles i).seen (hord₁.inv.not_working_of_doneFlag hscript hdone)
          (ha.of_append hlt) htask
      | worker hstep => cases hstep
    simpa using hseen.append h₂
  case created =>
    intro b i f hb hf hthread
    obtain ⟨h₁, h₂, s₁, s₂, rfl, rfl, hord₁, htrans⟩ := hord.before hrun hb hf
    obtain ⟨c, hc⟩ := (hord₁.lives i).created (htrans.ne_absent hthread)
    have hcb : poolSync.HappensBefore (pre ++ h₁ ++ [f]) c (pre ++ h₁).length := by
      refine Synchronization.happensBefore_of_sync (o := .entry i) hc.lt (hc.append _)
        (At.last _ _) ?_ ?_
      · simp [Event.releases]
      · simp [Event.acquires, hthread]
    refine ⟨c, ?_, by simpa using hcb.append h₂⟩
    simpa using hc.append (f :: h₂)
  case joined =>
    intro a b i e hlt hb ha hthread hjoin
    obtain ⟨h₁, h₂, s₁, s₂, rfl, rfl, hord₁, htrans⟩ := hord.before hrun hb hjoin
    rw [← List.append_assoc] at ha
    have ha' := ha.of_append hlt
    have hexited : (s₁.workers i).pc = .exited := by
      cases htrans with
      | joined hscript hawake hexited => exact hexited
      | worker hstep => cases hstep
    obtain ⟨x, hle, hx⟩ := (hord₁.lives i).ended (Or.inr hexited) a e ha' hthread
    have hxb : poolSync.HappensBefore (pre ++ h₁ ++ [.joined i]) x (pre ++ h₁).length :=
      Synchronization.happensBefore_of_sync (o := .exit i) hx.lt (hx.append _) (At.last _ _)
        (by simp [Event.releases]) (by simp [Event.acquires, Event.thread])
    have hab : poolSync.HappensBefore (pre ++ h₁ ++ [.joined i]) a (pre ++ h₁).length := by
      rcases hle.eq_or_lt with rfl | hlt'
      · exact hxb
      · exact (Synchronization.happensBefore_of_thread hlt' (ha'.append _) (hx.append _)
          hthread).trans hxb
    simpa using hab.append h₂

/-! ### Sessions -/

/-- What `bc_concurrency_destroy` does with the threads. -/
def destroyScript (host : Host) : List (MainOp Invocation) :=
  if host.context.workersSpawned then stopScript host.context.threadCount else []

/-- The script of a call, or of the destruction of the context. -/
def nextScript (host : Host) : Option Call → List (MainOp Invocation)
  | some call => (call.run host).script
  | none => destroyScript host

/-- The phases that a call or the destruction leads to. -/
lemma Between.exists_load {host : Host} {h : List (Event Invocation)} {s : State Invocation}
    {final : ℕ → Phase} (hb : Between host h s final) (next : Option Call) :
    ∃ final', Invariant final' h { s with script := nextScript host next } := by
  cases next with
  | some call =>
    obtain ⟨final', hload, -⟩ := hb.phases_load call
    exact ⟨final', hload⟩
  | none =>
    have hafter (i : ℕ) : ∃ q, (final i).after i (destroyScript host) = some q := by
      rw [destroyScript]
      split
      case isTrue hspawned =>
        exact ⟨_, Phase.after_stopScript _ fun hi => hb.rest.running hspawned i hi⟩
      case isFalse => exact ⟨_, rfl⟩
    choose final' hfinal' using hafter
    exact ⟨final', hb.inv.load hb.done hfinal'⟩

/-- Between two calls no round is open. -/
lemma Between.closed {host : Host} {h : List (Event Invocation)} {s : State Invocation}
    {final : ℕ → Phase} (hb : Between host h s final) (i : ℕ) :
    (dispatches i h).length = returns i h := by
  have hrounds := (hb.worker i).rounds
  rw [hb.rest.isOpen_eq i] at hrounds
  exact hrounds

namespace Session

variable {host₀ host : Host} {records : List Record} {s s' : State Invocation}
  {h : List (Event Invocation)}

/-- Between two calls the history is ordered. -/
lemma ordered (hspawned : host₀.context.workersSpawned = false)
    (hsession : Session host₀ records host s) :
    (∀ i, Settles i (histories records) (s.workers i)) ∧
      ∀ i, Lives i (histories records) (s.workers i) := by
  induction hsession with
  | start =>
    refine ⟨fun i => ⟨?_, ?_, ?_⟩, fun i => ⟨?_, ?_⟩⟩ <;>
      simp [At, State.start, WorkerState.init, WorkerState.Working]
  | call call hsession hrun _ ih =>
    obtain ⟨final, hb⟩ := hsession.between hspawned
    obtain ⟨final', hload, -⟩ := hb.phases_load call
    have hord := Ordered.run ⟨hload, ih.1, ih.2⟩ hrun
    simpa using And.intro hord.settles hord.lives

end Session

/-- Every call is a barrier, and so is the destruction: what the main thread and the
tasks did in earlier calls happens before what they do in this one.  In a call the main
thread synchronizes with each of the workers that it hands work to, and a worker takes
no step that is not between the creation and the join of its thread. -/
theorem pool_happens_before {memory memory' : Memory} {physicalCoreCount : ℕ}
    {config : Option Config} {stagingGrows memoryGrants : ℕ → Bool} {context : Context}
    (hcreate : create memory physicalCoreCount config stagingGrows memoryGrants =
      (some context, memory'))
    {records : List Record} {host : Host} {s s' : State Invocation}
    (hsession : Session ⟨context, memory'⟩ records host s) (next : Option Call)
    {h : List (Event Invocation)}
    (hrun : handshake.Run { s with script := nextScript host next } h s') :
    Synchronized (histories records) h := by
  have hspawned : context.workersSpawned = false := (create_ok hcreate).1.workersSpawned
  obtain ⟨final, hb⟩ := hsession.between hspawned
  obtain ⟨final', hload⟩ := hb.exists_load next
  obtain ⟨hsettles, hlives⟩ := hsession.ordered hspawned
  exact Ordered.synchronized ⟨hload, hsettles, hlives⟩ hb.closed hrun

/-- A task on the worker and one on the main thread, then the destruction of the
context: the end of the task of the worker happens before the join. -/
theorem pool_happens_before_destroyed :
    ∃ context memory',
      create ⟨fun _ => true, 0, 0, [], []⟩ 2 none (fun _ => false) (fun _ => true) =
        (some context, memory') ∧
      let main := List.replicate 8 (Move.run .main)
      let worker := List.replicate 8 (Move.run (.worker 0))
      let spawn : SpawnOutcome := ⟨true, true, fun _ => true⟩
      let result := play ⟨context, memory'⟩ (State.start [])
        [(.submitBatch 1 [10, 11], []), (.dispatchAndWait spawn, main ++ worker ++ main)]
      let last := handshake.exec { result.2.2 with script := nextScript result.2.1 none }
        (main ++ worker ++ main)
      Synchronized (histories result.1) last.1 ∧
        At (histories result.1 ++ last.1) 9 (.finished (.worker 0) (some 0) (.task 1 10)) ∧
        At (histories result.1 ++ last.1) 15 (.joined 0) ∧
        poolSync.HappensBefore (histories result.1 ++ last.1) 9 15 := by
  have hcreate : create ⟨fun _ => true, 0, 0, [], []⟩ 2 none (fun _ => false) (fun _ => true) =
    (some _, _) := rfl
  refine ⟨_, _, hcreate, ?_⟩
  intro main worker spawn result last
  have hsync : Synchronized (histories result.1) last.1 :=
    pool_happens_before hcreate (session_play _ _ (by decide)) none (handshake.run_exec _ _)
  have htask : At (histories result.1 ++ last.1) 9 (.finished (.worker 0) (some 0) (.task 1 10)) := by
    unfold At
    decide
  have hjoin : At (histories result.1 ++ last.1) 15 (.joined 0) := by
    unfold At
    decide
  exact ⟨hsync, htask, hjoin, hsync.joined 9 15 0 _ (by decide) (by decide) htask rfl hjoin⟩

end BcConcurrency.Pool
