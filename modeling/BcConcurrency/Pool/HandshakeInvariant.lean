import BcConcurrency.Pool.Handshake

/-!
# What the handshake keeps

A script keeps to the protocol with a worker if it creates the thread, then
alternates dispatches and waits, and stops and joins it at the end.  The phase of
a worker is where the script is in that protocol.  In each phase the flags of the
worker and the place of its thread are tied together, and what was dispatched to
the worker is what it has run, followed by what it still holds.

Nothing resets `should_stop`: a thread that is created for a worker that was
stopped before leaves at once, and work that is dispatched to it is lost.
-/

namespace BcConcurrency.Pool

variable {τ : Type*}

/-! ### The protocol with one worker -/

/-- Where the main thread is in the protocol with a worker. -/
inductive Phase
  | absent
  | idle
  | busy
  /-- The worker was told to stop and has a thread. -/
  | stopping
  /-- The worker was told to stop and has no thread any more. -/
  | gone
  /-- Work was dispatched to a worker that was told to stop. -/
  | lost
  /-- The main thread has waited for such work, which no run does. -/
  | stuck
deriving DecidableEq

/-- The worker that an operation concerns. -/
def MainOp.worker : MainOp τ → Option ℕ
  | .create i | .dispatch i _ | .wait i | .stop i | .join i => some i
  | .setTls _ | .run _ => none

namespace Phase

/-- The phase after an operation on the worker, if the protocol allows it. -/
def move : Phase → MainOp τ → Option Phase
  | .stuck, _ => some .stuck
  | .absent, .create _ => some .idle
  | .gone, .create _ => some .stopping
  | .idle, .dispatch _ _ => some .busy
  | .stopping, .dispatch _ _ => some .lost
  | .busy, .wait _ => some .idle
  | .lost, .wait _ => some .stuck
  | .idle, .stop _ => some .stopping
  | .stopping, .stop _ => some .stopping
  | .stopping, .join _ => some .gone
  | _, _ => none

/-- The phase of worker `i` after an operation of the main thread, if the protocol
allows it. -/
def next (i : ℕ) (p : Phase) (op : MainOp τ) : Option Phase :=
  if op.worker = some i then p.move op else some p

/-- A work was dispatched, and the main thread has not waited for it yet. -/
def isOpen : Phase → Bool
  | .busy | .lost => true
  | _ => false

lemma next_of_eq {i : ℕ} {p : Phase} {op : MainOp τ} (h : op.worker = some i) :
    p.next i op = p.move op := if_pos h

lemma next_of_ne {i : ℕ} {p : Phase} {op : MainOp τ} (h : op.worker ≠ some i) :
    p.next i op = some p := if_neg h

end Phase

/-- The phase of worker `i` after a script, if the script keeps to the protocol. -/
def Phase.after (i : ℕ) (p : Phase) (script : List (MainOp τ)) : Option Phase :=
  script.foldlM (Phase.next i) p

namespace Phase

@[simp] lemma after_nil (i : ℕ) (p : Phase) : p.after i ([] : List (MainOp τ)) = some p := rfl

lemma after_cons (i : ℕ) (p : Phase) (op : MainOp τ) (script : List (MainOp τ)) :
    p.after i (op :: script) = (p.next i op).bind fun p => p.after i script := by
  simp [after, List.foldlM_cons]

lemma after_append (i : ℕ) (p : Phase) (script script' : List (MainOp τ)) :
    p.after i (script ++ script') = (p.after i script).bind fun p => p.after i script' := by
  simp [after, List.foldlM_append]

lemma after_cons_eq_some {i : ℕ} {p q : Phase} {op : MainOp τ} {script : List (MainOp τ)}
    (h : p.after i (op :: script) = some q) :
    ∃ p', p.next i op = some p' ∧ p'.after i script = some q := by
  rw [after_cons] at h
  exact Option.bind_eq_some_iff.mp h

@[simp] lemma after_stuck (i : ℕ) (script : List (MainOp τ)) :
    Phase.stuck.after i script = some .stuck := by
  induction script with
  | nil => rfl
  | cons op script ih =>
    have hnext : Phase.stuck.next i op = some .stuck := by
      rw [next]
      split <;> rfl
    rw [after_cons, hnext, Option.bind_some, ih]

end Phase

/-! ### What the history says about a worker -/

/-- The work that an event hands to worker `i`. -/
def dispatchedTo (i : ℕ) : Event τ → Option (List τ)
  | .dispatched j work => if j = i then some work else none
  | _ => none

/-- The work that worker `i` takes in an event. -/
def tookBy (i : ℕ) : Event τ → Option (List τ)
  | .took j work => if j = i then some work else none
  | _ => none

/-- The task that a thread finishes in an event. -/
def finishedBy (thread : Thread) : Event τ → Option τ
  | .finished t _ task => if t = thread then some task else none
  | _ => none

/-- The main thread has returned from waiting for worker `i`. -/
def isReturn (i : ℕ) : Event τ → Bool
  | .waitReturned j => j == i
  | _ => false

/-- The works dispatched to worker `i`, in order. -/
def dispatches (i : ℕ) (h : List (Event τ)) : List (List τ) := h.filterMap (dispatchedTo i)

/-- The works taken by worker `i`, in order. -/
def taken (i : ℕ) (h : List (Event τ)) : List (List τ) := h.filterMap (tookBy i)

/-- The tasks run to their end by a thread, in order. -/
def ran (thread : Thread) (h : List (Event τ)) : List τ := h.filterMap (finishedBy thread)

/-- How often the main thread has returned from waiting for worker `i`. -/
def returns (i : ℕ) (h : List (Event τ)) : ℕ := h.countP (isReturn i)

section Histories

variable {i : ℕ} {thread : Thread} {h h' : List (Event τ)}

@[simp] lemma dispatches_append : dispatches i (h ++ h') = dispatches i h ++ dispatches i h' :=
  List.filterMap_append

@[simp] lemma taken_append : taken i (h ++ h') = taken i h ++ taken i h' :=
  List.filterMap_append

@[simp] lemma ran_append : ran thread (h ++ h') = ran thread h ++ ran thread h' :=
  List.filterMap_append

lemma filterMap_singleton {α β : Type*} (f : α → Option β) (a : α) :
    [a].filterMap f = (f a).toList := by
  rcases hf : f a with _ | b <;> simp [hf]

@[simp] lemma dispatches_singleton (e : Event τ) : dispatches i [e] = (dispatchedTo i e).toList :=
  filterMap_singleton _ _

@[simp] lemma taken_singleton (e : Event τ) : taken i [e] = (tookBy i e).toList :=
  filterMap_singleton _ _

@[simp] lemma ran_singleton (e : Event τ) : ran thread [e] = (finishedBy thread e).toList :=
  filterMap_singleton _ _

@[simp] lemma returns_append : returns i (h ++ h') = returns i h + returns i h' :=
  List.countP_append

@[simp] lemma returns_singleton (e : Event τ) :
    returns i [e] = if isReturn i e then 1 else 0 := List.countP_singleton

@[simp] lemma returns_nil : returns i ([] : List (Event τ)) = 0 := rfl

@[simp] lemma dispatches_nil : dispatches i ([] : List (Event τ)) = [] := rfl

@[simp] lemma taken_nil : taken i ([] : List (Event τ)) = [] := rfl

@[simp] lemma ran_nil : ran thread ([] : List (Event τ)) = [] := rfl

end Histories

/-- The event says nothing about the works and tasks of worker `i`. -/
structure Quiet (i : ℕ) (e : Event τ) : Prop where
  dispatched : dispatchedTo i e = none
  took : tookBy i e = none
  finished : finishedBy (.worker i) e = none
  returned : isReturn i e = false

/-- The steps of a worker say nothing about the others. -/
lemma WorkerTransition.quiet {i j : ℕ} {w w' : WorkerState τ} {e : Event τ}
    (htrans : WorkerTransition j w e w') (hi : i ≠ j) : Quiet i e := by
  have hj : j ≠ i := hi.symm
  cases htrans <;> refine ⟨?_, ?_, ?_, ?_⟩ <;> simp [dispatchedTo, tookBy, finishedBy, isReturn, hj]

/-- Only the report of a worker sets its `done_flag`. -/
lemma WorkerTransition.doneFlag_eq {j : ℕ} {w w' : WorkerState τ} {e : Event τ}
    (htrans : WorkerTransition j w e w') (hne : e ≠ .reported j) : w'.doneFlag = w.doneFlag := by
  cases htrans with
  | reported => exact absurd rfl hne
  | _ => rfl

lemma State.signalDone_eq (s : State τ) (j : ℕ) :
    s.signalDone j = { s with asleep := (s.signalDone j).asleep } := by
  rw [State.signalDone]
  split
  · split <;> rfl
  · rfl

/-- A main thread that sleeps through a report waits for another worker. -/
lemma State.asleep_of_signalDone {s : State τ} {j : ℕ} (h : (s.signalDone j).asleep = true) :
    s.asleep = true ∧ ∀ rest, s.script ≠ .wait j :: rest := by
  rw [State.signalDone] at h
  split at h
  case h_1 i rest hscript =>
    split at h
    · simp at h
    case isFalse hne =>
      refine ⟨h, fun rest' heq => hne ?_⟩
      simp only [hscript, List.cons.injEq, MainOp.wait.injEq] at heq
      exact heq.1
  case h_2 hscript => exact ⟨h, fun rest heq => hscript j rest heq⟩

/-! ### What a worker still holds -/

namespace WorkerState

/-- The thread is between taking a work and reporting it. -/
def Working (w : WorkerState τ) : Prop :=
  (∃ rest, w.pc = .running rest) ∨ ∃ task rest, w.pc = .inTask task rest

/-- The thread waits for work, asleep or about to look at the flags. -/
def Waiting (w : WorkerState τ) : Prop := w.pc = .test ∨ w.pc = .asleep

/-- The work that was dispatched and not taken yet. -/
def pending (w : WorkerState τ) : List (List τ) := w.work.toList

/-- The tasks that were taken and not finished yet. -/
def unfinished (w : WorkerState τ) : List τ :=
  match w.pc with
  | .running rest => rest
  | .inTask task rest => task :: rest
  | _ => []

end WorkerState

/-- The flags and the thread of a worker in a phase.  In phase `busy` the work is
pending, or taken, or reported. -/
def Phase.Fits : Phase → WorkerState τ → Prop
  | .absent, w => w.pc = .absent ∧ w.shouldStop = false ∧ w.readyFlag = false ∧ w.work = none
  | .idle, w => w.Waiting ∧ w.shouldStop = false ∧ w.readyFlag = false ∧ w.work = none
  | .busy, w => w.shouldStop = false ∧
      ((w.pc = .test ∧ w.readyFlag = true ∧ w.work.isSome ∧ w.doneFlag = false) ∨
        (w.Working ∧ w.readyFlag = false ∧ w.work = none ∧ w.doneFlag = false) ∨
        (w.Waiting ∧ w.readyFlag = false ∧ w.work = none ∧ w.doneFlag = true))
  | .stopping, w => (w.pc = .test ∨ w.pc = .exited) ∧ w.shouldStop = true ∧
      w.readyFlag = false ∧ w.work = none
  | .gone, w => w.pc = .absent ∧ w.shouldStop = true ∧ w.readyFlag = false ∧ w.work = none
  | .lost, w => (w.pc = .test ∨ w.pc = .exited) ∧ w.shouldStop = true ∧ w.doneFlag = false
  | .stuck, _ => False

/-- Worker `i` fits its phase, and its history accounts for everything dispatched. -/
structure WorkerInv (i : ℕ) (p : Phase) (h : List (Event τ)) (w : WorkerState τ) : Prop where
  fits : p.Fits w
  works : dispatches i h = taken i h ++ w.pending
  tasks : (taken i h).flatten = ran (.worker i) h ++ w.unfinished
  rounds : (dispatches i h).length = returns i h + if p.isOpen then 1 else 0

namespace WorkerInv

variable {i : ℕ} {p : Phase} {h : List (Event τ)} {w w' : WorkerState τ} {e : Event τ}

/-- A step that leaves the worker and its part of the history alone. -/
lemma frame (hinv : WorkerInv i p h w) (hquiet : Quiet i e) : WorkerInv i p (h ++ [e]) w := by
  have hd : dispatches i (h ++ [e]) = dispatches i h := by simp [hquiet.dispatched]
  have ht : taken i (h ++ [e]) = taken i h := by simp [hquiet.took]
  have hr : ran (.worker i) (h ++ [e]) = ran (.worker i) h := by simp [hquiet.finished]
  have hn : returns i (h ++ [e]) = returns i h := by simp [hquiet.returned]
  exact ⟨hinv.fits, by rw [hd, ht, hinv.works], by rw [ht, hr, hinv.tasks],
    by rw [hd, hn, hinv.rounds]⟩

/-- A change of the worker that touches neither its work nor its tasks. -/
lemma change {q : Phase} (hinv : WorkerInv i p h w) (hfits : q.Fits w')
    (hopen : q.isOpen = p.isOpen) (hwork : w'.pending = w.pending)
    (htasks : w'.unfinished = w.unfinished) : WorkerInv i q h w' :=
  ⟨hfits, by rw [hwork, hinv.works], by rw [htasks, hinv.tasks], by rw [hinv.rounds, hopen]⟩

lemma create {q : Phase} (hinv : WorkerInv i p h w) (hmove : p.move (.create i : MainOp τ) = some q) :
    WorkerInv i q (h ++ [.created i]) { w with pc := .test } := by
  have hfits := hinv.fits
  have hquiet : Quiet i (.created i : Event τ) := ⟨rfl, rfl, rfl, rfl⟩
  cases p with
  | absent =>
    cases hmove
    refine (hinv.frame hquiet).change ⟨Or.inl rfl, hfits.2⟩ rfl rfl ?_
    simp [WorkerState.unfinished, hfits.1]
  | gone =>
    cases hmove
    refine (hinv.frame hquiet).change ⟨Or.inl rfl, hfits.2⟩ rfl rfl ?_
    simp [WorkerState.unfinished, hfits.1]
  | stuck => exact hfits.elim
  | idle | busy | stopping | lost => cases hmove

/-- A worker that may be handed work, or told to stop, holds none. -/
lemma holds_none (hinv : WorkerInv i p h w) (hp : p = .idle ∨ p = .stopping) :
    w.pending = [] ∧ w.unfinished = [] ∧ (w.pc.signal = .test ∨ w.pc.signal = .exited) := by
  have hfits := hinv.fits
  rcases hp with rfl | rfl
  · obtain ⟨hpc | hpc, -, -, hwork⟩ := hfits <;>
      simp [WorkerState.pending, WorkerState.unfinished, WorkerPc.signal, hpc, hwork]
  · obtain ⟨hpc | hpc, -, -, hwork⟩ := hfits <;>
      simp [WorkerState.pending, WorkerState.unfinished, WorkerPc.signal, hpc, hwork]

lemma dispatch {q : Phase} (hinv : WorkerInv i p h w) (work : List τ)
    (hmove : p.move (.dispatch i work) = some q) :
    WorkerInv i q (h ++ [.dispatched i work]) (w.dispatch work) := by
  have hfits := hinv.fits
  -- only a worker that has finished its last round can be given the next one
  have hp : p = .idle ∨ p = .stopping := by
    cases p with
    | idle => exact Or.inl rfl
    | stopping => exact Or.inr rfl
    | stuck => exact hfits.elim
    | absent | busy | gone | lost => cases hmove
  obtain ⟨hpending, hnone, hpc⟩ := hinv.holds_none hp
  have hfits' : q.Fits (w.dispatch work) := by
    rcases hp with rfl | rfl
    · cases hmove
      obtain ⟨hwait, hstop, -⟩ := hfits
      refine ⟨hstop, Or.inl ⟨?_, rfl, rfl, rfl⟩⟩
      rcases hwait with hpc | hpc <;> simp [WorkerState.dispatch, hpc, WorkerPc.signal]
    · cases hmove
      exact ⟨hpc, hfits.2.1, rfl⟩
  -- the round is open from here on
  have hopen : q.isOpen = true ∧ p.isOpen = false := by
    rcases hp with rfl | rfl <;> cases hmove <;> exact ⟨rfl, rfl⟩
  have hunfinished : (w.dispatch work).unfinished = [] := by
    rcases hpc with hpc | hpc <;> simp [WorkerState.unfinished, WorkerState.dispatch, hpc]
  have hworks := hinv.works
  have htasks := hinv.tasks
  rw [hpending, List.append_nil] at hworks
  rw [hnone, List.append_nil] at htasks
  refine ⟨hfits', ?_, ?_, ?_⟩
  · simp [hworks, dispatchedTo, tookBy, WorkerState.pending, WorkerState.dispatch]
  · simp [htasks, tookBy, finishedBy, hunfinished]
  · simp [hinv.rounds, dispatchedTo, isReturn, hopen]

lemma wait {q : Phase} (hinv : WorkerInv i p h w) (hmove : p.move (.wait i : MainOp τ) = some q)
    (hdone : w.doneFlag = true) :
    p = .busy ∧ q = .idle ∧ WorkerInv i .idle (h ++ [.waitReturned i]) w := by
  have hfits := hinv.fits
  cases p with
  | busy =>
    cases hmove
    obtain ⟨hstop, hcases⟩ := hfits
    have hfits : Phase.idle.Fits w := by
      rcases hcases with ⟨-, -, -, hnot⟩ | ⟨-, -, -, hnot⟩ | ⟨hwait, hready, hwork, -⟩
      · simp [hdone] at hnot
      · simp [hdone] at hnot
      · exact ⟨hwait, hstop, hready, hwork⟩
    refine ⟨rfl, rfl, hfits, ?_, ?_, ?_⟩
    · simpa [dispatchedTo, tookBy] using hinv.works
    · simpa [tookBy, finishedBy] using hinv.tasks
    · simpa [dispatchedTo, isReturn, Phase.isOpen] using hinv.rounds
  | lost => simp [hfits.2.2] at hdone
  | stuck => exact hfits.elim
  | absent | idle | stopping | gone => cases hmove

lemma stop {q : Phase} (hinv : WorkerInv i p h w) (hmove : p.move (.stop i : MainOp τ) = some q) :
    WorkerInv i q (h ++ [.stopped i]) w.stop := by
  have hfits := hinv.fits
  have hp : p = .idle ∨ p = .stopping := by
    cases p with
    | idle => exact Or.inl rfl
    | stopping => exact Or.inr rfl
    | stuck => exact hfits.elim
    | absent | busy | gone | lost => cases hmove
  obtain ⟨-, hnone, hpc⟩ := hinv.holds_none hp
  have hq : q = .stopping ∧ p.isOpen = false ∧ w.readyFlag = false ∧ w.work = none := by
    rcases hp with rfl | rfl <;> cases hmove <;> exact ⟨rfl, rfl, hfits.2.2⟩
  obtain ⟨rfl, hopen, hrest⟩ := hq
  refine (hinv.frame ⟨rfl, rfl, rfl, rfl⟩).change ⟨hpc, rfl, hrest⟩ hopen.symm rfl ?_
  rw [hnone]
  rcases hpc with hpc | hpc <;> simp [WorkerState.unfinished, WorkerState.stop, hpc]

lemma join {q : Phase} (hinv : WorkerInv i p h w) (hmove : p.move (.join i : MainOp τ) = some q)
    (hpc : w.pc = .exited) : WorkerInv i q (h ++ [.joined i]) { w with pc := .absent } := by
  have hfits := hinv.fits
  cases p with
  | stopping =>
    cases hmove
    refine (hinv.frame ⟨rfl, rfl, rfl, rfl⟩).change ⟨rfl, hfits.2⟩ rfl rfl ?_
    simp [WorkerState.unfinished, hpc]
  | stuck => exact hfits.elim
  | absent | idle | busy | gone | lost => cases hmove

/-- A thread sleeps only while its worker is not stopping, and waking it changes
nothing else. -/
lemma wake (hinv : WorkerInv i p h w) (hpc : w.pc = .asleep) :
    WorkerInv i p (h ++ [.woken (.worker i)]) { w with pc := .test } := by
  refine (hinv.frame ⟨rfl, rfl, rfl, rfl⟩).change ?_ rfl rfl
    (by simp [WorkerState.unfinished, hpc])
  have hfits := hinv.fits
  cases p with
  | idle => exact ⟨Or.inl rfl, hfits.2⟩
  | busy =>
    obtain ⟨hstop, ⟨hnot, -⟩ | ⟨⟨_, hnot⟩ | ⟨_, _, hnot⟩, -⟩ | ⟨-, hrest⟩⟩ := hfits
    · simp [hpc] at hnot
    · simp [hpc] at hnot
    · simp [hpc] at hnot
    · exact ⟨hstop, Or.inr (Or.inr ⟨Or.inl rfl, hrest⟩)⟩
  | absent | stopping | gone | lost | stuck => simp [Phase.Fits, hpc] at hfits

/-- Unless a work is open, everything dispatched was taken and run to its end. -/
lemma settled (hinv : WorkerInv i p h w) (hp : p.isOpen = false) :
    taken i h = dispatches i h ∧ ran (.worker i) h = (dispatches i h).flatten ∧
      (dispatches i h).length = returns i h := by
  have hnone : w.work = none ∧ w.unfinished = [] := by
    have hfits := hinv.fits
    cases p with
    | absent | gone => exact ⟨hfits.2.2.2, by simp [WorkerState.unfinished, hfits.1]⟩
    | idle | stopping =>
      refine ⟨hfits.2.2.2, ?_⟩
      rcases hfits.1 with hpc | hpc <;> simp [WorkerState.unfinished, hpc]
    | stuck => exact hfits.elim
    | busy | lost => cases hp
  have hworks : dispatches i h = taken i h := by
    simpa [WorkerState.pending, hnone.1] using hinv.works
  have htasks : (taken i h).flatten = ran (.worker i) h := by
    simpa [hnone.2] using hinv.tasks
  exact ⟨hworks.symm, by rw [hworks, htasks], by simpa [hp] using hinv.rounds⟩

/-- A thread that looks at the flags finds work only in phase `busy`. -/
lemma pending_of_ready (hinv : WorkerInv i p h w) (hstop : w.shouldStop = false)
    (hready : w.readyFlag = true) : p = .busy ∧ w.pc = .test ∧ w.work.isSome ∧ w.doneFlag = false := by
  have hfits := hinv.fits
  cases p with
  | busy =>
    obtain ⟨-, ⟨hpc, -, hrest⟩ | ⟨-, hnot, -⟩ | ⟨-, hnot, -⟩⟩ := hfits
    · exact ⟨rfl, hpc, hrest⟩
    · simp [hready] at hnot
    · simp [hready] at hnot
  | lost => simp [Phase.Fits, hstop] at hfits
  | absent | idle | stopping | gone | stuck => simp [Phase.Fits, hready] at hfits

/-- A thread holds tasks only in phase `busy`. -/
lemma busy_of_working (hinv : WorkerInv i p h w) (hworking : w.Working) :
    p = .busy ∧ w.shouldStop = false ∧ w.readyFlag = false ∧ w.work = none ∧
      w.doneFlag = false := by
  have hfits := hinv.fits
  have hpc : w.pc ≠ .absent ∧ w.pc ≠ .test ∧ w.pc ≠ .asleep ∧ w.pc ≠ .exited := by
    rcases hworking with ⟨rest, hpc⟩ | ⟨task, rest, hpc⟩ <;> simp [hpc]
  cases p with
  | absent | gone => exact absurd hfits.1 hpc.1
  | idle => exact absurd hfits.1 (not_or.mpr ⟨hpc.2.1, hpc.2.2.1⟩)
  | busy =>
    obtain ⟨hstop, ⟨hnot, -⟩ | ⟨-, hrest⟩ | ⟨hnot, -⟩⟩ := hfits
    · exact absurd hnot hpc.2.1
    · exact ⟨rfl, hstop, hrest⟩
    · exact absurd hnot (not_or.mpr ⟨hpc.2.1, hpc.2.2.1⟩)
  | stopping | lost => exact absurd hfits.1 (not_or.mpr ⟨hpc.2.1, hpc.2.2.2⟩)
  | stuck => exact hfits.elim

/-- Every step of the thread of the worker keeps its phase. -/
lemma step (hinv : WorkerInv i p h w) (htrans : WorkerTransition i w e w') :
    WorkerInv i p (h ++ [e]) w' := by
  have hfits := hinv.fits
  have hworks := hinv.works
  have htasks := hinv.tasks
  cases htrans with
  | slept hpc hready hstop =>
    refine (hinv.frame ⟨rfl, rfl, rfl, rfl⟩).change ?_ rfl rfl
      (by simp [WorkerState.unfinished, hpc])
    cases p with
    | idle => exact ⟨Or.inr rfl, hfits.2⟩
    | busy =>
      -- a worker that sleeps in a round has reported its work as done
      obtain ⟨-, ⟨-, hnot, -⟩ | ⟨hnot, -⟩ | ⟨-, hrest⟩⟩ := hfits
      · simp [hready] at hnot
      · simp [WorkerState.Working, hpc] at hnot
      · exact ⟨hstop, Or.inr (Or.inr ⟨Or.inr rfl, hrest⟩)⟩
    | absent => simp [Phase.Fits, hpc] at hfits
    | stopping | gone | lost | stuck => simp [Phase.Fits, hstop] at hfits
  | exited hpc hstop =>
    refine (hinv.frame ⟨rfl, rfl, rfl, rfl⟩).change ?_ rfl rfl
      (by simp [WorkerState.unfinished, hpc])
    cases p with
    | stopping | lost => exact ⟨Or.inr rfl, hfits.2⟩
    | gone => simp [Phase.Fits, hpc] at hfits
    | absent | idle | busy | stuck => simp [Phase.Fits, hstop] at hfits
  | took hpc hready hstop hwork =>
    obtain ⟨rfl, -, -, hdone⟩ := hinv.pending_of_ready hstop hready
    refine ⟨⟨hstop, Or.inr (Or.inl ⟨Or.inl ⟨_, rfl⟩, rfl, rfl, hdone⟩)⟩, ?_, ?_, ?_⟩
    · simpa [dispatchedTo, tookBy, WorkerState.pending, hwork]
        using hworks
    · simpa [tookBy, finishedBy, WorkerState.unfinished, hpc] using htasks
    · simpa [dispatchedTo, isReturn] using hinv.rounds
  | crashed hpc hready hstop hwork =>
    -- the ready flag is only ever set together with some work
    obtain ⟨-, -, hsome, -⟩ := hinv.pending_of_ready hstop hready
    simp [hwork] at hsome
  | @started task rest hpc =>
    obtain ⟨rfl, hstop, hrest⟩ := hinv.busy_of_working (Or.inl ⟨_, hpc⟩)
    refine (hinv.frame ⟨rfl, rfl, rfl, rfl⟩).change ?_ rfl rfl
      (by simp [WorkerState.unfinished, hpc])
    exact ⟨hstop, Or.inr (Or.inl ⟨Or.inr ⟨task, rest, rfl⟩, hrest⟩)⟩
  | @finished task rest hpc =>
    obtain ⟨rfl, hstop, hrest⟩ := hinv.busy_of_working (Or.inr ⟨_, _, hpc⟩)
    refine ⟨⟨hstop, Or.inr (Or.inl ⟨Or.inl ⟨rest, rfl⟩, hrest⟩)⟩, ?_, ?_, ?_⟩
    · simpa [dispatchedTo, tookBy, WorkerState.pending] using hworks
    · simpa [tookBy, finishedBy, WorkerState.unfinished, hpc] using htasks
    · simpa [dispatchedTo, isReturn] using hinv.rounds
  | reported hpc =>
    obtain ⟨rfl, hstop, hready, hwork, -⟩ := hinv.busy_of_working (Or.inl ⟨_, hpc⟩)
    refine (hinv.frame ⟨rfl, rfl, rfl, rfl⟩).change ?_ rfl rfl
      (by simp [WorkerState.unfinished, hpc])
    exact ⟨hstop, Or.inr (Or.inr ⟨Or.inl rfl, hready, hwork, rfl⟩)⟩

end WorkerInv

/-! ### The whole machine -/

/-- Every worker is in a phase from which the rest of the script leads to its final
phase, and the main thread sleeps only on a worker that has not reported. -/
structure Invariant (final : ℕ → Phase) (h : List (Event τ)) (s : State τ) : Prop where
  worker : ∀ i, ∃ p, WorkerInv i p h (s.workers i) ∧ p.after i s.script = some (final i)
  asleep : s.asleep = true →
    ∃ i rest, s.script = .wait i :: rest ∧ (s.workers i).doneFlag = false
  inTask : s.inTask = true → ∃ task rest, s.script = .run task :: rest

namespace Invariant

variable {final : ℕ → Phase} {h : List (Event τ)} {s s' : State τ} {e : Event τ}

/-- An operation of the main thread that does not concern worker `i`. -/
lemma skip (hinv : Invariant final h s) {op : MainOp τ} {rest : List (MainOp τ)}
    (hscript : s.script = op :: rest) {i : ℕ} (hquiet : Quiet i e) (hne : op.worker ≠ some i) :
    ∃ p, WorkerInv i p (h ++ [e]) (s.workers i) ∧ p.after i rest = some (final i) := by
  obtain ⟨p, hw, hafter⟩ := hinv.worker i
  rw [hscript, Phase.after_cons, Phase.next_of_ne hne] at hafter
  exact ⟨p, hw.frame hquiet, hafter⟩

/-- The worker that an operation of the main thread is for. -/
lemma phase (hinv : Invariant final h s) {op : MainOp τ} {rest : List (MainOp τ)}
    (hscript : s.script = op :: rest) {i : ℕ} (hworker : op.worker = some i) :
    ∃ p q, WorkerInv i p h (s.workers i) ∧ p.move op = some q ∧
      q.after i rest = some (final i) := by
  obtain ⟨p, hw, hafter⟩ := hinv.worker i
  rw [hscript] at hafter
  obtain ⟨q, hnext, hafter⟩ := Phase.after_cons_eq_some hafter
  exact ⟨p, q, hw, by rwa [Phase.next_of_eq hworker] at hnext, hafter⟩

lemma inTask_eq_false (hinv : Invariant final h s) {op : MainOp τ} {rest : List (MainOp τ)}
    (hscript : s.script = op :: rest) (hop : ∀ task, op ≠ .run task) : s.inTask = false := by
  by_contra hin
  obtain ⟨task, rest', hrun⟩ := hinv.inTask (by simpa using hin)
  rw [hscript, List.cons.injEq] at hrun
  exact hop task hrun.1

/-- An operation of the main thread on worker `j` that moves its phase. -/
lemma mainOp (hinv : Invariant final h s) {op : MainOp τ} {rest : List (MainOp τ)}
    (hscript : s.script = op :: rest) (hawake : s.asleep = false) (hop : ∀ task, op ≠ .run task)
    {j : ℕ} {w : WorkerState τ} (hworker : op.worker = some j) (hquiet : ∀ i, i ≠ j → Quiet i e)
    (hmove : ∀ p q : Phase, WorkerInv j p h (s.workers j) → p.move op = some q →
      WorkerInv j q (h ++ [e]) w) :
    Invariant final (h ++ [e]) ({ s with script := rest }.setWorker j w) := by
  refine ⟨?_, ?_, ?_⟩
  · intro i
    by_cases hi : i = j
    · subst hi
      obtain ⟨p, q, hw, hnext, hafter⟩ := hinv.phase hscript hworker
      exact ⟨q, by simpa using hmove p q hw hnext, hafter⟩
    · have hne : op.worker ≠ some i := by
        rw [hworker]
        exact fun heq => hi (Option.some.inj heq).symm
      obtain ⟨p, hw, hafter⟩ := hinv.skip hscript (hquiet i hi) hne
      exact ⟨p, by simpa [hi] using hw, hafter⟩
  · intro hasleep
    simp [hawake] at hasleep
  · intro hin
    simp [hinv.inTask_eq_false hscript hop] at hin

/-- A step that leaves the script alone and changes at most worker `j`. -/
lemma workerOp (hinv : Invariant final h s) {j : ℕ} {w : WorkerState τ} {asleep : Bool}
    (hquiet : ∀ i, i ≠ j → Quiet i e)
    (hmove : ∀ p : Phase, WorkerInv j p h (s.workers j) → WorkerInv j p (h ++ [e]) w)
    (hasleep : asleep = true → ∃ i rest, s.script = .wait i :: rest ∧
      (Function.update s.workers j w i).doneFlag = false) :
    Invariant final (h ++ [e]) ({ s with asleep := asleep }.setWorker j w) := by
  refine ⟨?_, hasleep, hinv.inTask⟩
  intro i
  obtain ⟨p, hw, hafter⟩ := hinv.worker i
  by_cases hi : i = j
  · subst hi
    exact ⟨p, by simpa using hmove p hw, hafter⟩
  · exact ⟨p, by simpa [hi] using hw.frame (hquiet i hi), hafter⟩

/-- An event that does not concern worker `i`, with the script as it is. -/
lemma quiet_worker (hinv : Invariant final h s) {i : ℕ} (hquiet : Quiet i e) :
    ∃ p, WorkerInv i p (h ++ [e]) (s.workers i) ∧ p.after i s.script = some (final i) := by
  obtain ⟨p, hw, hafter⟩ := hinv.worker i
  exact ⟨p, hw.frame hquiet, hafter⟩

/-- A sleeping main thread still has to wait if no worker has got its flag set. -/
lemma asleep_update (hinv : Invariant final h s) (hasleep : s.asleep = true) {j : ℕ}
    {w : WorkerState τ} (hdone : w.doneFlag = (s.workers j).doneFlag) :
    ∃ i rest, s.script = .wait i :: rest ∧ (Function.update s.workers j w i).doneFlag = false := by
  obtain ⟨i, rest, hscript, hnot⟩ := hinv.asleep hasleep
  refine ⟨i, rest, hscript, ?_⟩
  by_cases hi : i = j
  · subst hi
    simpa [hdone] using hnot
  · simpa [hi] using hnot

/-- Every step keeps the invariant. -/
theorem step (hinv : Invariant final h s) (htrans : Transition s e s') :
    Invariant final (h ++ [e]) s' := by
  cases htrans with
  | @created j rest hscript hawake =>
    exact hinv.mainOp hscript hawake (by simp) rfl (fun i _ => ⟨rfl, rfl, rfl, rfl⟩)
      fun p q hw hmove => hw.create hmove
  | @dispatched j work rest hscript hawake =>
    exact hinv.mainOp hscript hawake (by simp) rfl
      (fun i hi => ⟨by simp [dispatchedTo, Ne.symm hi], rfl, rfl, rfl⟩)
      fun p q hw hmove => hw.dispatch work hmove
  | @stopped j rest hscript hawake =>
    exact hinv.mainOp hscript hawake (by simp) rfl (fun i _ => ⟨rfl, rfl, rfl, rfl⟩)
      fun p q hw hmove => hw.stop hmove
  | @joined j rest hscript hawake hexited =>
    exact hinv.mainOp hscript hawake (by simp) rfl (fun i _ => ⟨rfl, rfl, rfl, rfl⟩)
      fun p q hw hmove => hw.join hmove hexited
  | @waitReturned j rest hscript hawake hdone =>
    have hstep : Invariant final (h ++ [.waitReturned j])
        ({ s with script := rest }.setWorker j (s.workers j)) := by
      refine hinv.mainOp hscript hawake (by simp) rfl
        (fun i hi => ⟨rfl, rfl, rfl, by simp [isReturn, Ne.symm hi]⟩) ?_
      intro p q hw hmove
      obtain ⟨-, rfl, hw'⟩ := hw.wait hmove hdone
      exact hw'
    simpa [State.setWorker] using hstep
  | tlsSet hscript hawake =>
    refine ⟨fun i => hinv.skip hscript ⟨rfl, rfl, rfl, rfl⟩ (by simp [MainOp.worker]), ?_, ?_⟩
    · intro hasleep
      simp [hawake] at hasleep
    · intro hin
      simp [hinv.inTask_eq_false hscript (by simp)] at hin
  | started hscript hawake hin =>
    refine ⟨fun i => hinv.quiet_worker ⟨rfl, rfl, rfl, rfl⟩, ?_, fun _ => ⟨_, _, hscript⟩⟩
    intro hasleep
    simp [hawake] at hasleep
  | finished hscript hawake hin =>
    refine ⟨fun i => hinv.skip hscript ⟨rfl, rfl, by simp [finishedBy], rfl⟩
      (by simp [MainOp.worker]), ?_, ?_⟩
    · intro hasleep
      simp [hawake] at hasleep
    · intro hin
      simp at hin
  | mainSlept hscript hawake hdone =>
    exact ⟨fun i => hinv.quiet_worker ⟨rfl, rfl, rfl, rfl⟩, fun _ => ⟨_, _, hscript, hdone⟩,
      hinv.inTask⟩
  | mainWoken hasleep =>
    exact ⟨fun i => hinv.quiet_worker ⟨rfl, rfl, rfl, rfl⟩, by simp, hinv.inTask⟩
  | @workerWoken j hasleep =>
    exact hinv.workerOp (fun i _ => ⟨rfl, rfl, rfl, rfl⟩) (fun p hw => hw.wake hasleep)
      fun hmain => hinv.asleep_update hmain rfl
  | @worker j e w htrans hne =>
    exact hinv.workerOp (fun i hi => htrans.quiet hi) (fun p hw => hw.step htrans)
      fun hmain => hinv.asleep_update hmain (htrans.doneFlag_eq hne)
  | @reported j hpc =>
    have hstep : Invariant final (h ++ [.reported j])
        ({ s with asleep := (s.signalDone j).asleep }.setWorker j
          { s.workers j with doneFlag := true, pc := .test }) := by
      refine hinv.workerOp (fun i hi => (WorkerTransition.reported hpc).quiet hi)
        (fun p hw => hw.step (.reported hpc)) ?_
      intro hmain
      -- the report wakes the main thread if it waits for this worker
      obtain ⟨hasleep, hother⟩ := State.asleep_of_signalDone hmain
      obtain ⟨i, rest, hscript, hdone⟩ := hinv.asleep hasleep
      have hi : i ≠ j := fun hi => hother rest (hi ▸ hscript)
      exact ⟨i, rest, hscript, by simpa [hi] using hdone⟩
    rwa [← State.signalDone_eq] at hstep

/-- Every run keeps the invariant. -/
theorem run {s₀ : State τ} {h₀ : List (Event τ)} (hinv : Invariant final h₀ s₀)
    (hrun : handshake.Run s₀ h s) : Invariant final (h₀ ++ h) s := by
  refine hrun.invariant (P := fun h s => Invariant final (h₀ ++ h) s) (by simpa using hinv) ?_
  intro h s c e s' _ ih hs
  simpa [List.append_assoc] using ih.step (handshake_inv hs)

/-- The main thread starts a script that keeps to the protocol. -/
lemma load {final' : ℕ → Phase} (hinv : Invariant final h s) (hdone : s.script = [])
    {script : List (MainOp τ)} (hafter : ∀ i, (final i).after i script = some (final' i)) :
    Invariant final' h { s with script := script } := by
  refine ⟨?_, ?_, ?_⟩
  · intro i
    obtain ⟨p, hw, hp⟩ := hinv.worker i
    obtain rfl : p = final i := by simpa [hdone] using hp
    exact ⟨final i, hw, hafter i⟩
  · intro hasleep
    obtain ⟨i, rest, hscript, -⟩ := hinv.asleep hasleep
    simp [hdone] at hscript
  · intro hin
    obtain ⟨task, rest, hscript⟩ := hinv.inTask hin
    simp [hdone] at hscript

/-- Before any thread was created. -/
lemma init (tls : Option ℕ) : Invariant (fun _ => .absent) ([] : List (Event τ))
    ⟨[], tls, false, false, fun _ => .init⟩ :=
  ⟨fun _ => ⟨.absent, ⟨⟨rfl, rfl, rfl, rfl⟩, rfl, rfl, rfl⟩, rfl⟩, by simp, by simp⟩

/-- A thread is created for a worker that has none. -/
lemma absent_of_create (hinv : Invariant final h s) {i : ℕ} {rest : List (MainOp τ)}
    (hscript : s.script = .create i :: rest) : (s.workers i).pc = .absent := by
  obtain ⟨p, q, hw, hmove, -⟩ := hinv.phase hscript rfl
  cases p with
  | absent | gone => exact hw.fits.1
  | stuck => exact hw.fits.elim
  | idle | busy | stopping | lost => cases hmove

/-- A run that ends its script has waited for no lost work. -/
lemma final_ne_stuck (hinv : Invariant final h s) (hdone : s.script = []) (i : ℕ) :
    final i ≠ .stuck := by
  obtain ⟨p, hw, hafter⟩ := hinv.worker i
  obtain rfl : p = final i := by simpa [hdone] using hafter
  intro hstuck
  have hfits := hw.fits
  rw [hstuck] at hfits
  exact hfits

/-! ### What has happened when the main thread acts -/

/-- A worker that gets work, or is told to stop, has run all its earlier work. -/
lemma settled_of_move (hinv : Invariant final h s) {op : MainOp τ} {rest : List (MainOp τ)}
    (hscript : s.script = op :: rest) {i : ℕ} (hworker : op.worker = some i)
    (hop : ∀ p : Phase, (p.move op).isSome → p.isOpen = false) :
    taken i h = dispatches i h ∧ ran (.worker i) h = (dispatches i h).flatten := by
  obtain ⟨p, q, hw, hmove, -⟩ := hinv.phase hscript hworker
  obtain ⟨htaken, hran, -⟩ := hw.settled (hop p (by simp [hmove]))
  exact ⟨htaken, hran⟩

/-- When the main thread returns from waiting, the work of this very round is done. -/
lemma settled_of_return (hinv : Invariant final h s) {i : ℕ} {rest : List (MainOp τ)}
    (hscript : s.script = .wait i :: rest) (hdone : (s.workers i).doneFlag = true) :
    taken i h = dispatches i h ∧ ran (.worker i) h = (dispatches i h).flatten ∧
      (dispatches i h).length = returns i h + 1 := by
  obtain ⟨p, q, hw, hmove, -⟩ := hinv.phase hscript rfl
  obtain ⟨-, -, hw'⟩ := hw.wait hmove hdone
  obtain ⟨htaken, hran, hlen⟩ := hw'.settled rfl
  simp only [taken_append, taken_singleton, tookBy, Option.toList_none, List.append_nil,
    dispatches_append, dispatches_singleton, dispatchedTo, ran_append, ran_singleton, finishedBy,
    returns_append, returns_singleton, isReturn, beq_self_eq_true, if_true] at htaken hran hlen
  exact ⟨htaken, hran, hlen⟩

/-- No thread ever takes a null work pointer. -/
lemma not_crashed (hinv : Invariant final h s) {i : ℕ} : ¬ Transition s (.crashed i) s' := by
  intro htrans
  cases htrans with
  | worker htrans hne =>
    cases htrans with
    | crashed hpc hready hstop hwork =>
      obtain ⟨p, hw, -⟩ := hinv.worker i
      obtain ⟨-, -, hsome, -⟩ := hw.pending_of_ready hstop hready
      simp [hwork] at hsome

/-! ### Progress -/

section Progress

variable (hfinal : ∀ i, final i ≠ .stuck)

include hfinal

/-- A worker that the main thread waits for is busy. -/
lemma busy_of_wait (hinv : Invariant final h s) {i : ℕ} {rest : List (MainOp τ)}
    (hscript : s.script = .wait i :: rest) : WorkerInv i .busy h (s.workers i) := by
  obtain ⟨p, q, hw, hmove, hafter⟩ := hinv.phase hscript rfl
  have hq : q ≠ .stuck := by
    rintro rfl
    exact hfinal i (by simpa using hafter.symm)
  cases p with
  | busy => exact hw
  | lost => cases hmove; exact absurd rfl hq
  | stuck => exact hw.fits.elim
  | absent | idle | stopping | gone => cases hmove

omit hfinal in
/-- A worker that the main thread joins is stopping. -/
lemma stopping_of_join (hinv : Invariant final h s) {i : ℕ} {rest : List (MainOp τ)}
    (hscript : s.script = .join i :: rest) : WorkerInv i .stopping h (s.workers i) := by
  obtain ⟨p, q, hw, hmove, -⟩ := hinv.phase hscript rfl
  cases p with
  | stopping => exact hw
  | stuck => exact hw.fits.elim
  | absent | idle | busy | gone | lost => cases hmove

/-- The worker that the main thread sleeps on, or waits to join, is neither asleep
nor gone. -/
theorem worker_awake (hinv : Invariant final h s) {i : ℕ} {rest : List (MainOp τ)}
    (hblocked : (s.script = .wait i :: rest ∧ s.asleep = true) ∨ s.script = .join i :: rest) :
    (s.workers i).pc ≠ .asleep ∧ (s.workers i).pc ≠ .absent := by
  rcases hblocked with ⟨hscript, hasleep⟩ | hscript
  · obtain ⟨i', rest', hscript', hdone⟩ := hinv.asleep hasleep
    obtain ⟨rfl, rfl⟩ : i = i' ∧ rest = rest' := by simpa [hscript] using hscript'
    have hw := hinv.busy_of_wait hfinal hscript
    obtain ⟨-, ⟨hpc, -⟩ | ⟨⟨_, hpc⟩ | ⟨_, _, hpc⟩, -⟩ | ⟨-, -, -, hnot⟩⟩ := hw.fits
    · simp [hpc]
    · simp [hpc]
    · simp [hpc]
    · simp [hdone] at hnot
  · obtain ⟨hpc | hpc, -⟩ := (hinv.stopping_of_join hscript).fits <;> simp [hpc]

/-- The thread of a worker that the main thread waits for has not left its loop. -/
lemma not_exited_of_wait (hinv : Invariant final h s) {i : ℕ} {rest : List (MainOp τ)}
    (hscript : s.script = .wait i :: rest) : (s.workers i).pc ≠ .exited := by
  obtain ⟨-, ⟨hpc, -⟩ | ⟨⟨_, hpc⟩ | ⟨_, _, hpc⟩, -⟩ | ⟨hpc | hpc, -⟩⟩ :=
    (hinv.busy_of_wait hfinal hscript).fits <;> simp [hpc]

omit hfinal in
/-- A thread that takes no step sleeps, or is not there any more. -/
lemma exists_workerStep (hinv : Invariant final h s) {i : ℕ}
    (hasleep : (s.workers i).pc ≠ .asleep) (habsent : (s.workers i).pc ≠ .absent)
    (hexited : (s.workers i).pc ≠ .exited) : (s.workerStep i).isSome := by
  obtain ⟨p, hw, -⟩ := hinv.worker i
  have hfits := hw.fits
  rw [State.workerStep, Option.isSome_map, WorkerState.step]
  rcases hpc : (s.workers i).pc with _ | _ | _ | (_ | ⟨task, rest⟩) | ⟨task, rest⟩ | _ | _
  · exact absurd hpc habsent
  · dsimp only
    split
    · rfl
    · split
      · rfl
      · split <;> rfl
  · exact absurd hpc hasleep
  · rfl
  · rfl
  · rfl
  · exact absurd hpc hexited
  · cases p <;> simp [Phase.Fits, WorkerState.Waiting, WorkerState.Working, hpc] at hfits

/-- As long as the main thread has something to do, some thread can take a step
without a spurious wakeup. -/
theorem progress (hinv : Invariant final h s) (hne : s.script ≠ []) :
    ∃ thread, handshake.Enabled s (.run thread) := by
  obtain ⟨op, rest, hscript⟩ := List.exists_cons_of_ne_nil hne
  rcases hasleep : s.asleep with _ | _
  · by_cases hjoin : ∃ i, op = .join i ∧ (s.workers i).pc ≠ .exited
    · obtain ⟨i, rfl, hexited⟩ := hjoin
      obtain ⟨hawake, hthere⟩ := hinv.worker_awake hfinal (Or.inr hscript)
      exact ⟨.worker i, hinv.exists_workerStep hawake hthere hexited⟩
    · refine ⟨.main, ?_⟩
      show (s.mainStep).isSome
      cases op with
      | join i =>
        have hexited : (s.workers i).pc = .exited := by
          by_contra hpc
          exact hjoin ⟨i, rfl, hpc⟩
        simp [State.mainStep, hasleep, hscript, hexited, WorkerPc.isExited]
      | wait i =>
        rw [State.mainStep, hasleep, if_neg Bool.false_ne_true, hscript]
        dsimp only
        split <;> rfl
      | run task =>
        rw [State.mainStep, hasleep, if_neg Bool.false_ne_true, hscript]
        dsimp only
        split <;> rfl
      | create | dispatch | setTls | stop => simp [State.mainStep, hasleep, hscript]
  · obtain ⟨i, rest', hscript', -⟩ := hinv.asleep hasleep
    obtain ⟨hawake, hthere⟩ := hinv.worker_awake hfinal (Or.inl ⟨hscript', hasleep⟩)
    exact ⟨.worker i, hinv.exists_workerStep hawake hthere (hinv.not_exited_of_wait hfinal hscript')⟩

end Progress

end Invariant

end BcConcurrency.Pool
