import BcConcurrency.Pool.HandshakeInvariant

/-!
# Scripts can be completed

From every state of a run whose script keeps to the protocol, the threads can
bring the script to its end without a spurious wakeup: the worker that the main
thread waits for can finish its work, and the one it joins can leave.
-/

namespace BcConcurrency.Pool

variable {τ : Type*} {s : State τ} {i : ℕ}

/-- A worker that holds tasks can run them all and report. -/
lemma exists_run_report {rest : List τ} (hpc : (s.workers i).pc = .running rest) :
    ∃ h s', handshake.Run s h s' ∧ s'.script = s.script ∧
      (s'.workers i).doneFlag = true ∧ s'.asleep = (s.signalDone i).asleep := by
  induction rest generalizing s with
  | nil =>
    have hstep : handshake.step s (.run (.worker i)) = some (.reported i,
        (s.signalDone i).setWorker i { s.workers i with doneFlag := true, pc := .test }) := by
      simp [handshake, State.workerStep, WorkerState.step, hpc]
    refine ⟨_, _, Machine.Run.single hstep, ?_, by simp, rfl⟩
    rw [State.signalDone_eq]
    rfl
  | cons task rest ih =>
    have hstart : handshake.step s (.run (.worker i)) = some (.started (.worker i) (some i) task,
        s.setWorker i { s.workers i with pc := .inTask task rest }) := by
      simp [handshake, State.workerStep, WorkerState.step, hpc]
    obtain ⟨s₁, hs₁⟩ : ∃ s₁, s₁ = s.setWorker i { s.workers i with pc := .inTask task rest } :=
      ⟨_, rfl⟩
    rw [← hs₁] at hstart
    have hend : handshake.step s₁ (.run (.worker i)) = some (.finished (.worker i) (some i) task,
        s₁.setWorker i { s₁.workers i with pc := .running rest }) := by
      simp [handshake, State.workerStep, WorkerState.step, hs₁]
    obtain ⟨h, s', hrun, hscript, hdone, hasleep⟩ :=
      ih (s := s₁.setWorker i { s₁.workers i with pc := .running rest }) (by simp)
    refine ⟨_, s', Machine.Run.cons hstart (Machine.Run.cons hend hrun), ?_, hdone, ?_⟩
    · rw [hscript, hs₁]
      rfl
    · rw [hasleep, hs₁]
      simp only [State.signalDone, State.setWorker]
      split <;> [split; skip] <;> rfl

/-- The main thread can complete the operation without any other thread. -/
def MainOp.isFree : MainOp τ → Bool
  | .wait _ | .join _ => false
  | _ => true

/-- A free operation at the head of the script can be completed. -/
lemma exists_run_free {op : MainOp τ} {rest : List (MainOp τ)} (hfree : op.isFree = true)
    (hawake : s.asleep = false) (hscript : s.script = op :: rest) :
    ∃ h s', handshake.Run s h s' ∧ s'.script = rest := by
  have hsingle {e : Event τ} {s' : State τ} (hs : s.mainStep = some (e, s'))
      (hscript' : s'.script = rest) : ∃ h' s', handshake.Run s h' s' ∧ s'.script = rest :=
    ⟨[e], s', Machine.Run.single (show handshake.step s (.run .main) = some (e, s') from hs),
      hscript'⟩
  cases op with
  | create | dispatch | setTls | stop =>
    exact hsingle (by simp only [State.mainStep, hawake, hscript]; rfl) rfl
  | run task =>
    rcases hin : s.inTask with _ | _
    · obtain ⟨s₁, hs₁⟩ : ∃ s₁, s₁ = { s with inTask := true } := ⟨_, rfl⟩
      have hstart : handshake.step s (.run .main) = some (.started .main s.tls task, s₁) := by
        simp [handshake, State.mainStep, hawake, hscript, hin, hs₁]
      have hend : handshake.step s₁ (.run .main) = some (.finished .main s₁.tls task,
          { s₁ with script := rest, inTask := false }) := by
        simp [handshake, State.mainStep, hawake, hscript, hs₁]
      exact ⟨_, _, Machine.Run.cons hstart (Machine.Run.single hend), rfl⟩
    · exact hsingle (by simp only [State.mainStep, hawake, hscript, hin]; rfl) rfl
  | wait | join => cases hfree

namespace Invariant

variable {final : ℕ → Phase} {h : List (Event τ)} {rest : List (MainOp τ)}

/-- The worker that the main thread waits for can report. -/
lemma exists_run_wait (hinv : Invariant final h s) (hfinal : ∀ i, final i ≠ .stuck)
    (hscript : s.script = .wait i :: rest) :
    ∃ h' s', handshake.Run s h' s' ∧ s'.script = s.script ∧
      (s'.workers i).doneFlag = true ∧ s'.asleep = false := by
  have hsignal : (s.signalDone i).asleep = false := by simp [State.signalDone, hscript]
  -- the awaited worker has not taken its work, or is in its tasks, or has reported
  obtain ⟨hstop, ⟨hpc, hready, hsome, -⟩ | ⟨⟨tasks, hpc⟩ | ⟨task, tasks, hpc⟩, -⟩ | ⟨-, -, -, hdone⟩⟩ :=
    (hinv.busy_of_wait hfinal hscript).fits
  · obtain ⟨work, hwork⟩ := Option.isSome_iff_exists.mp hsome
    obtain ⟨s₁, hs₁⟩ : ∃ s₁, s₁ = s.setWorker i
        { s.workers i with readyFlag := false, work := none, pc := .running work } := ⟨_, rfl⟩
    have htake : handshake.step s (.run (.worker i)) = some (.took i work, s₁) := by
      simp [handshake, State.workerStep, WorkerState.step, hpc, hready, hstop, hwork, hs₁]
    have hpc₁ : (s₁.workers i).pc = .running work := by simp [hs₁]
    obtain ⟨h', s', hrun, hscript', hdone, hasleep⟩ := exists_run_report hpc₁
    refine ⟨_, s', Machine.Run.cons htake hrun, by rw [hscript', hs₁]; rfl, hdone, ?_⟩
    rw [hasleep]
    simp [State.signalDone, hscript, hs₁]
  · obtain ⟨h', s', hrun, hscript', hdone, hasleep⟩ := exists_run_report hpc
    exact ⟨h', s', hrun, hscript', hdone, hasleep.trans hsignal⟩
  · obtain ⟨s₁, hs₁⟩ : ∃ s₁, s₁ = s.setWorker i { s.workers i with pc := .running tasks } :=
      ⟨_, rfl⟩
    have hend : handshake.step s (.run (.worker i)) =
        some (.finished (.worker i) (some i) task, s₁) := by
      simp [handshake, State.workerStep, WorkerState.step, hpc, hs₁]
    have hpc₁ : (s₁.workers i).pc = .running tasks := by simp [hs₁]
    obtain ⟨h', s', hrun, hscript', hdone, hasleep⟩ := exists_run_report hpc₁
    refine ⟨_, s', Machine.Run.cons hend hrun, by rw [hscript', hs₁]; rfl, hdone, ?_⟩
    rw [hasleep]
    simp [State.signalDone, hscript, hs₁]
  · refine ⟨[], s, Machine.Run.nil, rfl, hdone, ?_⟩
    by_contra hasleep
    obtain ⟨i', rest', hscript', hnot⟩ := hinv.asleep (by simpa using hasleep)
    obtain ⟨rfl, -⟩ : i = i' ∧ rest = rest' := by simpa [hscript] using hscript'
    simp [hdone] at hnot

lemma awake (hinv : Invariant final h s) {op : MainOp τ} (hscript : s.script = op :: rest)
    (hop : ∀ i, op ≠ .wait i) : s.asleep = false := by
  by_contra hasleep
  obtain ⟨i, rest', hwait, -⟩ := hinv.asleep (by simpa using hasleep)
  rw [hscript, List.cons.injEq] at hwait
  exact hop i hwait.1

/-- An operation that is not a wait can be completed, whatever the script does later. -/
lemma exists_run_of_ne_wait (hinv : Invariant final h s) {op : MainOp τ}
    (hop : ∀ i, op ≠ .wait i) (hscript : s.script = op :: rest) :
    ∃ h' s', handshake.Run s h' s' ∧ s'.script = rest := by
  have hawake := hinv.awake hscript hop
  cases op with
  | create | dispatch | setTls | stop | run => exact exists_run_free rfl hawake hscript
  | wait j => exact absurd rfl (hop j)
  | join j =>
    obtain ⟨hpc | hpc, hstop, -⟩ := (hinv.stopping_of_join hscript).fits
    · obtain ⟨s₁, hs₁⟩ : ∃ s₁, s₁ = s.setWorker j { s.workers j with pc := .exited } := ⟨_, rfl⟩
      have hexit : handshake.step s (.run (.worker j)) = some (.exited j, s₁) := by
        simp [handshake, State.workerStep, WorkerState.step, hpc, hstop, hs₁]
      have hjoin : handshake.step s₁ (.run .main) = some (.joined j,
          { s₁ with script := rest }.setWorker j { s₁.workers j with pc := .absent }) := by
        simp [handshake, State.mainStep, hawake, hscript, hs₁, WorkerPc.isExited]
      exact ⟨_, _, Machine.Run.cons hexit (Machine.Run.single hjoin), rfl⟩
    · have hjoin : handshake.step s (.run .main) = some (.joined j,
          { s with script := rest }.setWorker j { s.workers j with pc := .absent }) := by
        simp [handshake, State.mainStep, hawake, hscript, hpc, WorkerPc.isExited]
      exact ⟨_, _, Machine.Run.single hjoin, rfl⟩

/-- The operation at the head of the script can be completed. -/
lemma exists_run_head (hinv : Invariant final h s) (hfinal : ∀ i, final i ≠ .stuck)
    {op : MainOp τ} (hscript : s.script = op :: rest) :
    ∃ h' s', handshake.Run s h' s' ∧ s'.script = rest := by
  cases op with
  | wait j =>
    obtain ⟨h', s', hrun, hscript', hdone, hawake⟩ := hinv.exists_run_wait hfinal hscript
    have hreturn : handshake.step s' (.run .main) =
        some (.waitReturned j, { s' with script := rest }) := by
      simp [handshake, State.mainStep, hawake, hscript', hscript, hdone]
    exact ⟨_, _, hrun.snoc hreturn, rfl⟩
  | create | dispatch | setTls | stop | run | join =>
    exact hinv.exists_run_of_ne_wait (by simp) hscript

/-- Operations at the front of the script can be completed if none of them is a wait. -/
lemma exists_run_front (hinv : Invariant final h s) {ops : List (MainOp τ)}
    (hops : ∀ op ∈ ops, ∀ i, op ≠ .wait i) (hscript : s.script = ops ++ rest) :
    ∃ h' s', handshake.Run s h' s' ∧ s'.script = rest := by
  induction ops generalizing s h with
  | nil => exact ⟨[], s, Machine.Run.nil, hscript⟩
  | cons op ops ih =>
    obtain ⟨h₁, s₁, hrun₁, hscript₁⟩ :=
      hinv.exists_run_of_ne_wait (hops op (List.mem_cons_self ..)) hscript
    obtain ⟨h₂, s₂, hrun₂, hscript₂⟩ := ih (hinv.run hrun₁)
      (fun op' hmem => hops op' (List.mem_cons_of_mem _ hmem)) hscript₁
    exact ⟨_, s₂, hrun₁.trans hrun₂, hscript₂⟩

/-- The script can be completed. -/
theorem exists_run_end (hinv : Invariant final h s) (hfinal : ∀ i, final i ≠ .stuck) :
    ∃ h' s', handshake.Run s h' s' ∧ s'.script = [] := by
  generalize hscript : s.script = script
  induction script generalizing s h with
  | nil => exact ⟨[], s, Machine.Run.nil, hscript⟩
  | cons op rest ih =>
    obtain ⟨h₁, s₁, hrun₁, hscript₁⟩ := hinv.exists_run_head hfinal hscript
    obtain ⟨h₂, s₂, hrun₂, hscript₂⟩ := ih (hinv.run hrun₁) hscript₁
    exact ⟨_, s₂, hrun₁.trans hrun₂, hscript₂⟩

end Invariant

end BcConcurrency.Pool
