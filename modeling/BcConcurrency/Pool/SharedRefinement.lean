import BcConcurrency.Pool.Lending

/-!
# The handshake over shared memory refines the handshake

Every step of the machine with the shared records is a step of the handshake that
passes lists of calls, or is not seen there, as long as the script of the main thread
respects what is lent.  No step is a fault.
-/

namespace BcConcurrency.Pool

section Workers

variable {store : Store} {lent : Option Pointer} {work : Pointer} {entries : List TaskEntry}
  {w w' : SharedWorker} {v : WorkerState Invocation} {i : ℕ} {pc : SharedPc}
  {pc' : WorkerPc Invocation}

namespace PcRefines

lemma signal (h : PcRefines store lent pc pc') : PcRefines store lent pc.signal pc'.signal := by
  cases h with
  | plain h =>
    cases pc <;> cases h <;> exact .plain rfl
  | running hlent hwork hleads => exact .running hlent hwork hleads
  | inTask task hlent hwork hleads => exact .inTask task hlent hwork hleads

lemma isExited_eq (h : PcRefines store lent pc pc') : pc'.isExited = pc.isExited := by
  cases h with
  | plain h => cases pc <;> cases h <;> rfl
  | running | inTask => rfl

lemma isAsleep_eq (h : PcRefines store lent pc pc') : pc'.isAsleep = pc.isAsleep := by
  cases h with
  | plain h => cases pc <;> cases h <;> rfl
  | running | inTask => rfl

end PcRefines

namespace WorkerRefines

lemma dispatch (h : WorkerRefines store none w v) (hwork : store.workAt work = some entries) :
    WorkerRefines store (some work) (w.dispatch work)
      (v.dispatch (entries.flatMap TaskEntry.invocations)) := by
  obtain ⟨-, hstop, -, -, hpc⟩ := h.lend work
  exact ⟨.some rfl hwork, hstop, rfl, rfl, hpc.signal⟩

lemma stop (h : WorkerRefines store lent w v) : WorkerRefines store lent w.stop v.stop :=
  ⟨h.work, rfl, h.readyFlag, h.doneFlag, h.pc.signal⟩

/-- The thread is put to a place where it follows no pointer. -/
lemma setPc (h : WorkerRefines store lent w v) (pc : SharedPc) (hpc : pc.plain = some pc') :
    WorkerRefines store lent { w with pc := pc } { v with pc := pc' } :=
  ⟨h.work, h.shouldStop, h.readyFlag, h.doneFlag, .plain hpc⟩

/-- A worker before its flags. -/
lemma step_test (h : WorkerRefines store lent w v) (hpc : w.pc = .test) (hpc' : v.pc = .test) :
    ∃ e w' v', w.step store i = some (.seen e, w') ∧ v.step i = some (e, v') ∧
      WorkerRefines store lent w' v' := by
  rw [SharedWorker.step, hpc, WorkerState.step, hpc']
  simp only [h.readyFlag, h.shouldStop]
  by_cases hsleep : w.readyFlag = false ∧ w.shouldStop = false
  · rw [if_pos hsleep, if_pos hsleep]
    exact ⟨_, _, _, rfl, rfl, h.work, rfl, rfl, h.doneFlag, .plain rfl⟩
  rw [if_neg hsleep, if_neg hsleep]
  by_cases hstop : w.shouldStop = true
  · rw [if_pos hstop, if_pos hstop]
    exact ⟨_, _, _, rfl, rfl, h.work, rfl, rfl, h.doneFlag, .plain rfl⟩
  rw [if_neg hstop, if_neg hstop]
  have hwork := h.work
  generalize w.work = x, v.work = y at hwork
  cases hwork with
  | none => exact ⟨_, _, _, rfl, rfl, .none, rfl, rfl, h.doneFlag, .plain rfl⟩
  | @some work entries hlent hwork =>
    have hcalls : store.callsAt work = entries.flatMap TaskEntry.invocations := by
      rw [Store.callsAt, hwork, Option.getD_some]
    rw [← hcalls]
    refine ⟨_, _, _, rfl, rfl, .none, rfl, rfl, h.doneFlag, ?_⟩
    rw [hcalls]
    exact .running hlent hwork (.test 0)

/-- A step of a worker is a step in the handshake, or goes on between two calls. -/
lemma step {e : SharedEvent} (h : WorkerRefines store lent w v)
    (hs : w.step store i = some (e, w')) :
    (e = .silent i ∧ WorkerRefines store lent w' v) ∨
      ∃ event v', e = .seen event ∧ v.step i = some (event, v') ∧
        WorkerRefines store lent w' v' := by
  obtain ⟨work, shouldStop, readyFlag, doneFlag, pc⟩ := w
  obtain ⟨calls, shouldStop', readyFlag', doneFlag', pc'⟩ := v
  obtain ⟨hwork, hstop, hready, hdone, hpc⟩ := h
  dsimp only at hpc
  cases hpc with
  | plain hplain =>
    cases pc with
    | test =>
      cases hplain
      obtain ⟨event, w₁, v', hw, hv, hrefines⟩ :=
        step_test (i := i) ⟨hwork, hstop, hready, hdone, .plain rfl⟩ rfl rfl
      cases hs.symm.trans hw
      exact Or.inr ⟨event, v', rfl, hv, hrefines⟩
    | done =>
      cases hplain
      cases hs
      exact Or.inr ⟨_, _, rfl, rfl, hwork, hstop, hready, rfl, .plain rfl⟩
    | absent | asleep | exited | crashed => cases hs
    | running | inTask | faulted => cases hplain
  | running hlent hwork' hleads =>
    cases hs
    rcases hleads.step hlent hwork' i with ⟨hevent, hpc⟩ | ⟨task, rest', rfl, hevent, hpc⟩
    · exact Or.inl ⟨hevent, hwork, hstop, hready, hdone, hpc⟩
    · exact Or.inr ⟨_, _, hevent, rfl, hwork, hstop, hready, hdone, hpc⟩
  | inTask task hlent hwork' hleads =>
    cases hs
    exact Or.inr ⟨_, _, rfl, rfl, hwork, hstop, hready, hdone, .running hlent hwork' hleads⟩

end WorkerRefines

end Workers

/-! ### The machines -/

/-- A call on the main thread. -/
def SharedOp.isRun : SharedOp → Bool
  | .run _ | .runEntry _ => true
  | _ => false

/-- The states of the two machines, when the script of the main thread leads to `goal`. -/
structure Refines (goal : Ledger) (s : SharedState) (u : State Invocation) : Prop where
  /-- What is lent is respected, and each worker follows what is lent to it. -/
  lent : ∃ lent, Ledger.Script ⟨s.store, lent⟩ s.script u.script goal ∧
    ∀ i, WorkerRefines s.store (lent i) (s.workers i) (u.workers i)
  tls : u.tls = s.tls
  asleep : u.asleep = s.asleep
  inTask : u.inTask = s.inTask.isSome
  /-- The main thread is in the call at the head of the script. -/
  current : ∀ task, s.inTask = some task →
    (∃ op ops, s.script = op :: ops ∧ op.isRun = true) ∧ ∃ rest, u.script = .run task :: rest
  /-- The main thread sleeps in a wait only. -/
  sleeping : s.asleep = true → ∃ i rest, s.script = .wait i :: rest

/-- Change the state of one worker in both machines, with what is lent to it. -/
lemma workersRefine_update {store : Store} {lent : ℕ → Option Pointer} {ws : ℕ → SharedWorker}
    {vs : ℕ → WorkerState Invocation} (h : ∀ i, WorkerRefines store (lent i) (ws i) (vs i)) (i : ℕ)
    {lent' : Option Pointer} {w : SharedWorker} {v : WorkerState Invocation}
    (hi : WorkerRefines store lent' w v) (j : ℕ) :
    WorkerRefines store (Function.update lent i lent' j) (Function.update ws i w j)
      (Function.update vs i v j) := by
  by_cases hj : j = i
  · subst hj
    simpa using hi
  · simpa [hj] using h j

/-- A worker that has reported has no work pending. -/
lemma Invariant.work_of_doneFlag {final : ℕ → Phase} {h : List (Event Invocation)}
    {u : State Invocation} (hinv : Invariant final h u) {i : ℕ} {rest : List (MainOp Invocation)}
    (hscript : u.script = .wait i :: rest) (hdone : (u.workers i).doneFlag = true) :
    (u.workers i).work = none := by
  obtain ⟨p, q, hworker, hmove, -⟩ := hinv.phase hscript rfl
  have hfits := hworker.fits
  cases p with
  | busy =>
    rcases hfits.2 with ⟨-, -, -, hnot⟩ | ⟨-, -, hwork, -⟩ | ⟨-, -, hwork, -⟩
    · simp [hdone] at hnot
    · exact hwork
    · exact hwork
  | lost => simp [Phase.Fits, hdone] at hfits
  | stuck => exact hfits.elim
  | absent | idle | stopping | gone => cases hmove

namespace Refines

variable {goal : Ledger} {s s' : SharedState} {u : State Invocation} {e : SharedEvent}

/-- How a step is matched: by a step of the handshake, or by none. -/
inductive Matches (goal : Ledger) (u : State Invocation) (c : Move) (s' : SharedState) :
    SharedEvent → Prop
  | seen {event : Event Invocation} {v : State Invocation}
      (hstep : handshake.step u c = some (event, v)) (hrefines : Refines goal s' v) :
      Matches goal u c s' (.seen event)
  | unseen {e : SharedEvent} (hobserve : e.observe = none) (hfault : ∀ thread, e ≠ .fault thread)
      (hrefines : Refines goal s' u) : Matches goal u c s' e

/-- Between two operations of an awake main thread. -/
lemma of_idle (lent : ℕ → Option Pointer)
    (hscript : Ledger.Script ⟨s.store, lent⟩ s.script u.script goal)
    (hworkers : ∀ i, WorkerRefines s.store (lent i) (s.workers i) (u.workers i))
    (htls : u.tls = s.tls) (hasleep : u.asleep = false) (hasleep' : s.asleep = false)
    (hin : u.inTask = false) (hin' : s.inTask = none) : Refines goal s u where
  lent := ⟨lent, hscript, hworkers⟩
  tls := htls
  asleep := by rw [hasleep, hasleep']
  inTask := by rw [hin, hin']; rfl
  current := by simp [hin']
  sleeping := by simp [hasleep']

/-- A step of a call on the main thread. -/
lemma runStep (h : Refines goal s u) (hawake : s.asleep = false) {op : SharedOp}
    {ops : List SharedOp} {task : Invocation} {rest : List (MainOp Invocation)}
    {lent : ℕ → Option Pointer} (hops : s.script = op :: ops) (hop : op.isRun = true)
    (hu : u.script = .run task :: rest) (hrest : Ledger.Script ⟨s.store, lent⟩ ops rest goal)
    (hworkers : ∀ i, WorkerRefines s.store (lent i) (s.workers i) (u.workers i)) :
    Matches goal u (.run .main) (s.runStep task ops).2 (s.runStep task ops).1 := by
  have hawake' : u.asleep = false := h.asleep.trans hawake
  rcases hin : s.inTask with _ | task'
  · have hin' : u.inTask = false := by rw [h.inTask, hin]; rfl
    rw [SharedState.runStep, hin, ← h.tls]
    refine .seen (v := { u with inTask := true }) ?_ ?_
    · simp [handshake, State.mainStep, hawake', hu, hin']
    · exact ⟨h.lent, rfl, h.asleep, rfl, fun task' ht => by
        cases ht
        exact ⟨⟨op, ops, hops, hop⟩, rest, hu⟩, h.sleeping⟩
  · obtain ⟨-, rest', hu'⟩ := h.current task' hin
    obtain ⟨rfl, rfl⟩ : task = task' ∧ rest = rest' := by simpa [hu] using hu'
    have hin' : u.inTask = true := by rw [h.inTask, hin]; rfl
    rw [SharedState.runStep, hin, ← h.tls]
    refine .seen (v := { u with script := rest, inTask := false }) ?_ ?_
    · simp [handshake, State.mainStep, hawake', hu, hin']
    · exact of_idle _ hrest hworkers rfl hawake' hawake rfl rfl

/-- A step of the main thread on the store, which the handshake does not have. -/
lemma storeStep (h : Refines goal s u) (hawake : s.asleep = false) (hin : s.inTask = none)
    {lent : ℕ → Option Pointer} {op : SharedOp} {ops : List SharedOp} {store : Store}
    (hstep : Ledger.Step ⟨s.store, lent⟩ op [] ⟨store, lent⟩)
    (hrest : Ledger.Script ⟨store, lent⟩ ops u.script goal)
    (hworkers : ∀ i, WorkerRefines s.store (lent i) (s.workers i) (u.workers i))
    (hobserve : e.observe = none) (hfault : ∀ thread, e ≠ .fault thread) :
    Matches goal u (.run .main) { s with script := ops, store := store } e := by
  have hin' : u.inTask = false := by rw [h.inTask, hin]; rfl
  refine .unseen hobserve hfault ?_
  refine of_idle lent hrest (fun i => ?_) h.tls (h.asleep.trans hawake) hawake hin' hin
  exact (hworkers i).keeps fun work hlent => hstep.keeps hlent

/-- A step of the main thread. -/
lemma mainStep (h : Refines goal s u) {final : ℕ → Phase} {past : List (Event Invocation)}
    (hinv : Invariant final past u) (hs : s.mainStep = some (e, s')) :
    Matches goal u (.run .main) s' e := by
  have hawake : s.asleep = false := by
    by_contra hasleep
    simp [SharedState.mainStep, hasleep] at hs
  have hawake' : u.asleep = false := h.asleep.trans hawake
  obtain ⟨lent, hscript, hworkers⟩ := h.lent
  rcases hops : s.script with _ | ⟨op, ops⟩
  · simp [SharedState.mainStep, hawake, hops] at hs
  rw [SharedState.mainStep, if_neg (by simp [hawake]), hops] at hs
  rw [hops] at hscript
  generalize huscript : u.script = script at hscript
  -- outside of calls the main thread is in no task
  have hidle (hop : op.isRun = false) : s.inTask = none ∧ u.inTask = false := by
    rcases hin : s.inTask with _ | task
    · exact ⟨rfl, by rw [h.inTask, hin]; rfl⟩
    · obtain ⟨⟨op', ops', hops', hop'⟩, -⟩ := h.current task hin
      obtain ⟨rfl, -⟩ : op = op' ∧ ops = ops' := by simpa [hops] using hops'
      rw [hop] at hop'
      cases hop'
  cases hscript with
  | @cons _ l₁ _ _ _ _ rest hstep hrest =>
  cases hstep with
  | create i =>
    obtain ⟨hin, hin'⟩ := hidle rfl
    cases hs
    refine .seen (v := { u with script := rest }.setWorker i { u.workers i with pc := .test }) ?_ ?_
    · simp [handshake, State.mainStep, hawake', huscript]
    · refine of_idle lent hrest (fun j => ?_) h.tls hawake' hawake hin' hin
      simpa using workersRefine_update hworkers i ((hworkers i).setPc .test rfl) j
  | setTls worker =>
    obtain ⟨hin, hin'⟩ := hidle rfl
    cases hs
    refine .seen (v := { u with script := rest, tls := worker }) ?_ ?_
    · simp [handshake, State.mainStep, hawake', huscript]
    · exact of_idle _ hrest hworkers rfl hawake' hawake hin' hin
  | run task =>
    have hrun := h.runStep hawake hops rfl huscript hrest hworkers
    rwa [Option.some.inj hs] at hrun
  | @runEntry p f a hread =>
    have hrun := h.runStep hawake hops rfl huscript hrest hworkers
    dsimp only at hread
    simp only [hread, Option.some.injEq] at hs
    rwa [hs] at hrun
  | @dispatch i work entries hlent hwork =>
    obtain ⟨hin, hin'⟩ := hidle rfl
    cases hs
    have hcalls : s.store.callsAt work = entries.flatMap TaskEntry.invocations := by
      rw [Store.callsAt, hwork, Option.getD_some]
    have hi : WorkerRefines s.store none (s.workers i) (u.workers i) := hlent ▸ hworkers i
    rw [hcalls]
    refine .seen (v := { u with script := rest }.setWorker i
      ((u.workers i).dispatch (entries.flatMap TaskEntry.invocations))) ?_ ?_
    · simp [handshake, State.mainStep, hawake', huscript]
    · exact of_idle _ hrest (workersRefine_update hworkers i (hi.dispatch hwork)) h.tls hawake' hawake
        hin' hin
  | wait i =>
    obtain ⟨hin, hin'⟩ := hidle rfl
    have hdoneFlag : (u.workers i).doneFlag = (s.workers i).doneFlag := (hworkers i).doneFlag
    by_cases hdone : (s.workers i).doneFlag = true
    · simp only [hdone, if_true] at hs
      cases hs
      rw [hdone] at hdoneFlag
      have hw := hinv.not_working_of_doneFlag huscript hdoneFlag
      have hnone := hinv.work_of_doneFlag huscript hdoneFlag
      refine .seen (v := { u with script := rest }) ?_ ?_
      · simp [handshake, State.mainStep, hawake', huscript, hdoneFlag]
      · refine of_idle _ hrest (fun j => ?_) h.tls hawake' hawake hin' hin
        simpa using workersRefine_update hworkers i ((hworkers i).giveBack hnone hw) j
    · simp only [hdone] at hs
      cases hs
      rw [Bool.not_eq_true] at hdone
      rw [hdone] at hdoneFlag
      refine .seen (v := { u with asleep := true }) ?_ ?_
      · simp [handshake, State.mainStep, hawake', huscript, hdoneFlag]
      · have hlent := h.lent
        have hcurrent := h.current
        rw [hops] at hlent hcurrent
        exact ⟨hlent, h.tls, rfl, h.inTask, hcurrent, fun _ => ⟨i, ops, rfl⟩⟩
  | stop i =>
    obtain ⟨hin, hin'⟩ := hidle rfl
    cases hs
    refine .seen (v := { u with script := rest }.setWorker i (u.workers i).stop) ?_ ?_
    · simp [handshake, State.mainStep, hawake', huscript]
    · refine of_idle lent hrest (fun j => ?_) h.tls hawake' hawake hin' hin
      simpa using workersRefine_update hworkers i (hworkers i).stop j
  | join i =>
    obtain ⟨hin, hin'⟩ := hidle rfl
    have hexited : (u.workers i).pc.isExited = (s.workers i).pc.isExited :=
      (hworkers i).pc.isExited_eq
    by_cases hexit : (s.workers i).pc.isExited = true
    · simp only [hexit, if_true] at hs
      cases hs
      rw [hexit] at hexited
      refine .seen
        (v := { u with script := rest }.setWorker i { u.workers i with pc := .absent }) ?_ ?_
      · simp [handshake, State.mainStep, hawake', huscript, hexited]
      · refine of_idle lent hrest (fun j => ?_) h.tls hawake' hawake hin' hin
        simpa using workersRefine_update hworkers i ((hworkers i).setPc .absent rfl) j
    · simp [hexit] at hs
  | allocate hrespects =>
    cases hs
    exact h.storeStep hawake (hidle rfl).1 (.allocate hrespects) (by simpa [huscript] using hrest)
      hworkers rfl (by simp)
  | free hrespects hlive =>
    simp only [hlive, if_true] at hs
    cases hs
    exact h.storeStep hawake (hidle rfl).1 (.free hrespects hlive)
      (by simpa [huscript] using hrest) hworkers rfl (by simp)
  | write hrespects hwrite =>
    simp only [hwrite] at hs
    cases hs
    exact h.storeStep hawake (hidle rfl).1 (.write hrespects hwrite)
      (by simpa [huscript] using hrest) hworkers rfl (by simp)

/-- The report of a worker wakes the main thread in both machines, or in neither. -/
lemma signalDone (h : Refines goal s u) (i : ℕ) : Refines goal (s.signalDone i) (u.signalDone i) := by
  rcases hasleep : s.asleep with _ | _
  · -- nobody sleeps
    have hasleep' : u.asleep = false := h.asleep.trans hasleep
    have hs : s.signalDone i = s := by
      rw [SharedState.signalDone]
      split
      · split
        · rw [← hasleep]
        · rfl
      · rfl
    have hu : u.signalDone i = u := by
      rw [State.signalDone]
      split
      · split
        · rw [← hasleep']
        · rfl
      · rfl
    rwa [hs, hu]
  · obtain ⟨j, ops, hops⟩ := h.sleeping hasleep
    obtain ⟨lent, hscript, hworkers⟩ := h.lent
    obtain ⟨rest, hu⟩ : ∃ rest, u.script = .wait j :: rest := by
      rw [hops] at hscript
      generalize u.script = script at hscript
      cases hscript with
      | cons hstep =>
        cases hstep
        exact ⟨_, rfl⟩
    have hin : s.inTask = none := by
      rcases hin : s.inTask with _ | task
      · rfl
      · obtain ⟨-, rest', hu'⟩ := h.current task hin
        simp [hu] at hu'
    by_cases hi : j = i
    · rw [SharedState.signalDone, hops, State.signalDone, hu]
      simp only [hi, if_true]
      refine of_idle lent ?_ hworkers h.tls rfl rfl (by rw [h.inTask, hin]; rfl) hin
      simpa [hops, hu, hi] using hscript
    · have hs : s.signalDone i = s := by
        rw [SharedState.signalDone, hops]
        exact if_neg hi
      have hu : u.signalDone i = u := by
        rw [State.signalDone, hu]
        exact if_neg hi
      rwa [hs, hu]

/-- A step of a worker. -/
lemma workerStep (h : Refines goal s u) {i : ℕ} (hs : s.workerStep i = some (e, s')) :
    Matches goal u (.run (.worker i)) s' e := by
  obtain ⟨lent, hscript, hworkers⟩ := h.lent
  obtain ⟨⟨e', w⟩, hstep, heq⟩ := Option.map_eq_some_iff.mp hs
  have hset {v : WorkerState Invocation} (hi : WorkerRefines s.store (lent i) w v) :
      Refines goal (s.setWorker i w) (u.setWorker i v) := by
    refine ⟨⟨lent, hscript, fun j => ?_⟩, h.tls, h.asleep, h.inTask, h.current, h.sleeping⟩
    simpa using workersRefine_update hworkers i hi j
  rcases (hworkers i).step hstep with ⟨rfl, hi⟩ | ⟨event, v, rfl, hv, hi⟩
  · cases heq
    refine .unseen rfl (by simp) ?_
    have hu : u.setWorker i (u.workers i) = u := by simp [State.setWorker]
    rw [← hu]
    exact hset hi
  · cases heq
    cases event with
    | reported j =>
      -- the signal commutes with the change of the worker
      have hcomm : (s.signalDone i).setWorker i w = (s.setWorker i w).signalDone i := by
        simp only [SharedState.signalDone, SharedState.setWorker_script]
        split
        · split <;> rfl
        · rfl
      have hcomm' : (u.signalDone i).setWorker i v = (u.setWorker i v).signalDone i := by
        simp only [State.signalDone, State.setWorker_script]
        split
        · split <;> rfl
        · rfl
      refine .seen (v := (u.setWorker i v).signalDone i) ?_ ?_
      · simp [handshake, State.workerStep, hv, hcomm']
      · dsimp only
        rw [hcomm]
        exact (hset hi).signalDone i
    | _ =>
      refine .seen (v := u.setWorker i v) ?_ (hset hi)
      simp [handshake, State.workerStep, hv]

/-- Every step is matched. -/
theorem step (h : Refines goal s u) {final : ℕ → Phase} {past : List (Event Invocation)}
    (hinv : Invariant final past u) {c : Move} (hs : sharedHandshake.step s c = some (e, s')) :
    Matches goal u c s' e := by
  rcases c with (_ | i) | (_ | i)
  · exact h.mainStep hinv hs
  · exact h.workerStep hs
  · simp only [sharedHandshake] at hs
    split at hs
    case isTrue hasleep =>
      cases hs
      refine .seen (v := { u with asleep := false }) ?_ ⟨h.lent, h.tls, rfl, h.inTask, h.current, ?_⟩
      · simp [handshake, h.asleep, hasleep]
      · simp
    case isFalse => cases hs
  · simp only [sharedHandshake] at hs
    split at hs
    case isTrue hasleep =>
      cases hs
      obtain ⟨lent, hscript, hworkers⟩ := h.lent
      have hasleep' := (hworkers i).pc.isAsleep_eq.trans hasleep
      refine .seen (v := u.setWorker i { u.workers i with pc := .test }) ?_
        ⟨⟨lent, hscript, fun j => ?_⟩, h.tls, h.asleep, h.inTask, h.current, h.sleeping⟩
      · simp [handshake, hasleep']
      · simpa using workersRefine_update hworkers i ((hworkers i).setPc .test rfl) j
    case isFalse => cases hs

/-- Every run over shared memory is a run of the handshake. -/
theorem run {s₀ : SharedState} {u₀ : State Invocation} {final : ℕ → Phase}
    {past : List (Event Invocation)} {h : List SharedEvent} (hrefines : Refines goal s₀ u₀)
    (hinv : Invariant final past u₀) (hrun : sharedHandshake.Run s₀ h s) :
    ∃ u, handshake.Run u₀ (h.filterMap SharedEvent.observe) u ∧ Refines goal s u := by
  refine hrun.simulate SharedEvent.observe (H := fun _ => True) hrefines (fun _ _ _ => trivial) ?_
    trivial
  intro h s c e s' u _ hu hr hs
  cases hr.step (hinv.run hu) hs with
  | seen hstep hr' => exact ⟨_, Machine.Run.single hstep, hr'⟩
  | unseen hobserve _ hr' =>
    rw [hobserve]
    exact ⟨u, Machine.Run.nil, hr'⟩

/-- No step of a run is a fault. -/
theorem not_fault {s₀ : SharedState} {u₀ : State Invocation} {final : ℕ → Phase}
    {past : List (Event Invocation)} {h : List SharedEvent} (hrefines : Refines goal s₀ u₀)
    (hinv : Invariant final past u₀) (hrun : sharedHandshake.Run s₀ h s) (thread : Thread) :
    .fault thread ∉ h := by
  intro hmem
  obtain ⟨h₁, h₂, rfl⟩ := List.append_of_mem hmem
  obtain ⟨s₁, c, s₂, hrun₁, hs, -⟩ := hrun.split_event
  obtain ⟨u₁, hu₁, hr₁⟩ := hrefines.run hinv hrun₁
  cases hr₁.step (hinv.run hu₁) hs with
  | unseen _ hfault => exact hfault thread rfl

end Refines

end BcConcurrency.Pool
