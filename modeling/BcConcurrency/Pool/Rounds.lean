import BcConcurrency.Pool.Script

/-!
# Rounds of dispatching and waiting

After the threads were created, the main thread plays any number of rounds: it
dispatches work to different workers, runs its own share, and waits for the same
workers.  In the end it stops and joins all of them.
-/

namespace BcConcurrency.Pool

variable {τ : Type*} {t : ℕ}

/-- A round with the workers below `t`. -/
structure Round (τ : Type*) (t : ℕ) where
  /-- The workers that get work, in the order of the dispatches. -/
  assignments : List (ℕ × List τ)
  /-- What the main thread does in between. -/
  mainOps : List (MainOp τ)
  /-- The same workers, in the order of the waits. -/
  waits : List ℕ
  nodup : (assignments.map Prod.fst).Nodup
  lt : ∀ i ∈ assignments.map Prod.fst, i < t
  perm : waits.Perm (assignments.map Prod.fst)
  isLocal : ∀ op ∈ mainOps, op.isLocal = true

/-- The phase of a worker that was given work and waited for. -/
def Phase.served : Phase → Phase
  | .stopping => .stuck
  | p => p

namespace Round

/-- What the main thread does in a round. -/
def script (r : Round τ t) : List (MainOp τ) :=
  r.assignments.map (fun a => .dispatch a.1 a.2) ++ r.mainOps ++ r.waits.map .wait

/-- The works that a round gives to worker `i`. -/
def worksOf (r : Round τ t) (i : ℕ) : List (List τ) :=
  r.assignments.filterMap fun a => if a.1 = i then some a.2 else none

/-- A round moves the phases of the workers that it gives work. -/
lemma after_script (r : Round τ t) {i : ℕ} {p : Phase} (hp : i < t → p = .idle ∨ p = .stopping) :
    p.after i r.script = some (if i ∈ r.assignments.map Prod.fst then p.served else p) := by
  rw [script, Phase.after_append, Phase.after_append]
  split
  case isTrue hi =>
    obtain ⟨a, ha, rfl⟩ := List.mem_map.mp hi
    obtain ⟨q, hdispatch, hwait⟩ : ∃ q, p.move (.dispatch a.1 a.2) = some q ∧
        q.move (.wait a.1 : MainOp τ) = some p.served := by
      rcases hp (r.lt _ hi) with rfl | rfl
      · exact ⟨.busy, rfl, rfl⟩
      · exact ⟨.lost, rfl, rfl⟩
    rw [Phase.after_map_of_mem Prod.fst (fun _ => rfl) r.nodup ha rfl hdispatch, Option.bind_some,
      Phase.after_of_isLocal r.isLocal, Option.bind_some]
    exact Phase.after_map_of_mem id (fun _ => rfl) (by simpa using r.perm.nodup_iff.mpr r.nodup)
      (r.perm.mem_iff.mpr hi) rfl hwait
  case isFalse hi =>
    have hdispatch : p.after i
        (r.assignments.map fun a => (.dispatch a.1 a.2 : MainOp τ)) = some p :=
      Phase.after_map_of_skip fun a ha heq =>
        hi (List.mem_map.mpr ⟨a, ha, Option.some.inj heq⟩)
    have hwait : p.after i (r.waits.map .wait : List (MainOp τ)) = some p :=
      Phase.after_map_of_skip fun j hj heq =>
        hi (r.perm.mem_iff.mp (Option.some.inj heq ▸ hj))
    rw [hdispatch, Option.bind_some, Phase.after_of_isLocal r.isLocal, Option.bind_some, hwait]

/-- A round leaves the workers idle. -/
lemma after_script_of_idle (r : Round τ t) {i : ℕ} {p : Phase} (hp : i < t → p = .idle) :
    p.after i r.script = some p := by
  rw [r.after_script fun hi => Or.inl (hp hi)]
  split
  case isTrue hi =>
    obtain rfl := hp (r.lt i hi)
    rfl
  case isFalse => rfl

end Round

/-- What the main thread does between creating the threads and joining them. -/
def lifecycle (rounds : List (Round τ t)) : List (MainOp τ) :=
  createScript t ++ rounds.flatMap Round.script ++ stopScript t

lemma after_lifecycle (rounds : List (Round τ t)) (i : ℕ) :
    Phase.absent.after i (lifecycle rounds) = some (if i < t then .gone else .absent) := by
  have hrounds (p : Phase) (hp : i < t → p = .idle) :
      p.after i (rounds.flatMap Round.script) = some p := by
    induction rounds with
    | nil => rfl
    | cons r rounds ih =>
      rw [List.flatMap_cons, Phase.after_append, r.after_script_of_idle hp, Option.bind_some, ih]
  rw [lifecycle, Phase.after_append, Phase.after_append, Phase.after_createScript t fun _ => rfl,
    Option.bind_some, hrounds _ fun hi => by simp [hi, Phase.created], Option.bind_some,
    Phase.after_stopScript t fun hi => by simp [hi, Phase.created]]
  split <;> simp_all

/-! ### What the script of a lifecycle contains -/

lemma Round.filterMap_script (r : Round τ t) (i : ℕ) :
    r.script.filterMap (MainOp.dispatchTo i) = r.worksOf i := by
  simp [script, worksOf, filterMap_dispatchTo_of_isLocal r.isLocal, List.filterMap_map, Function.comp_def,
    MainOp.dispatchTo]

/-- The entries for worker `i` in a list of different workers. -/
lemma filterMap_map_of_nodup {α : Type*} (f : ℕ → α) {l : List ℕ} (hnodup : l.Nodup) (i : ℕ) :
    (l.map fun j => (j, f j)).filterMap (fun a => if a.1 = i then some a.2 else none) =
      if i ∈ l then [f i] else [] := by
  induction l with
  | nil => rfl
  | cons j l ih =>
    rw [List.nodup_cons] at hnodup
    rw [List.map_cons, List.filterMap_cons, ih hnodup.2]
    by_cases hj : j = i
    · subst hj
      simp [hnodup.1]
    · simp [hj, Ne.symm hj]

lemma Round.filterMap_task_script (r : Round τ t) :
    r.script.filterMap MainOp.task = r.mainOps.filterMap MainOp.task := by
  simp [script, List.filterMap_map, Function.comp_def, MainOp.task]

lemma filterMap_lifecycle (rounds : List (Round τ t)) (i : ℕ) :
    (lifecycle rounds).filterMap (MainOp.dispatchTo i) =
      rounds.flatMap fun r => r.worksOf i := by
  have hrounds : (rounds.flatMap Round.script).filterMap (MainOp.dispatchTo i) =
      rounds.flatMap fun r => r.worksOf i := by
    rw [List.filterMap_flatMap]
    congr 1
    ext r : 1
    exact r.filterMap_script i
  simp [lifecycle, hrounds]

/-! ### Whole runs -/

/-- What holds of every run over a list of rounds. -/
structure HandshakeSound (rounds : List (Round τ t)) (h : List (Event τ)) (s : State τ) :
    Prop where
  /-- Each work of the rounds was dispatched, or will be. -/
  accounted : ∀ i, dispatches i h ++ s.script.filterMap (MainOp.dispatchTo i) =
    rounds.flatMap fun r => r.worksOf i
  /-- Each dispatched work was taken once by its worker, in order, or is pending. -/
  taken_once : ∀ i, dispatches i h = taken i h ++ (s.workers i).pending
  /-- Each task of a taken work was run once, in order, or is still to be run. -/
  ran_once : ∀ i, (taken i h).flatten = ran (.worker i) h ++ (s.workers i).unfinished
  /-- No task is started but those that are run to their end, and the current one. -/
  begun_once : ∀ thread, begun thread h = ran thread h ++ s.current thread
  /-- A wait returns after the work of its own round. -/
  wait_returns : ∀ i h₁ h₂, h = h₁ ++ .waitReturned i :: h₂ →
    ran (.worker i) h₁ = (dispatches i h₁).flatten ∧
      (dispatches i h₁).length = returns i h₁ + 1
  /-- A dispatch does not overwrite a work that was not taken. -/
  not_overwritten : ∀ i work h₁ h₂, h = h₁ ++ .dispatched i work :: h₂ →
    taken i h₁ = dispatches i h₁
  /-- A worker is told to stop only when it has run all its work. -/
  not_dropped : ∀ i h₁ h₂, h = h₁ ++ .stopped i :: h₂ →
    ran (.worker i) h₁ = (dispatches i h₁).flatten
  /-- No worker takes a null work pointer. -/
  not_crashed : ∀ i, .crashed i ∉ h
  /-- The worker that the main thread sleeps on or joins does not sleep. -/
  not_stuck : ∀ i rest, (s.script = .wait i :: rest ∧ s.asleep = true) ∨ s.script = .join i :: rest →
    (s.workers i).pc ≠ .asleep
  /-- While the main thread is not done, a thread can take a step. -/
  progress : s.script ≠ [] → ∃ thread, handshake.Enabled s (.run thread)
  /-- The main thread can be brought to the end of its script. -/
  completes : ∃ h' s', handshake.Run s h' s' ∧ s'.script = []

/-- The state in which the main thread starts its rounds. -/
def State.start (script : List (MainOp τ)) : State τ := ⟨script, none, false, false, fun _ => .init⟩

/-- In every interleaving of the main thread with its workers, with spurious wakeups
at any time, the handshake loses and repeats nothing and never gets stuck. -/
theorem handshake_sound (rounds : List (Round τ t)) {h : List (Event τ)} {s : State τ}
    (hrun : handshake.Run (State.start (lifecycle rounds)) h s) : HandshakeSound rounds h s := by
  have hinit : Invariant (fun i => if i < t then .gone else .absent) []
      (State.start (lifecycle rounds)) :=
    (Invariant.init none).load rfl (after_lifecycle rounds)
  have hfinal (i : ℕ) : (if i < t then Phase.gone else .absent) ≠ .stuck := by
    split <;> simp
  have hreach {h₁ : List (Event τ)} {s₁ : State τ}
      (hrun₁ : handshake.Run (State.start (lifecycle rounds)) h₁ s₁) := hinit.run hrun₁
  have hinv := hreach hrun
  -- the states around an event of the history
  have hevent {h₁ h₂ : List (Event τ)} {e : Event τ} (hh : h = h₁ ++ e :: h₂) :
      ∃ s₁ s₂, Invariant (fun i => if i < t then .gone else .absent) h₁ s₁ ∧
        Transition s₁ e s₂ := by
    rw [hh] at hrun
    obtain ⟨s₁, c, s₂, hrun₁, hs, -⟩ := hrun.split_event
    exact ⟨s₁, s₂, hreach hrun₁, handshake_inv hs⟩
  constructor
  case accounted =>
    intro i
    rw [dispatches_eq_performed, ← List.filterMap_append, performed_run hrun]
    exact filterMap_lifecycle rounds i
  case taken_once =>
    intro i
    obtain ⟨p, hw, -⟩ := hinv.worker i
    exact hw.works
  case ran_once =>
    intro i
    obtain ⟨p, hw, -⟩ := hinv.worker i
    exact hw.tasks
  case begun_once =>
    refine begun_run hinit ?_ hrun
    intro thread
    cases thread <;> rfl
  case wait_returns =>
    intro i h₁ h₂ hh
    obtain ⟨s₁, s₂, hinv₁, htrans⟩ := hevent hh
    cases htrans with
    | waitReturned hscript _ hdone =>
      obtain ⟨-, hran, hlen⟩ := hinv₁.settled_of_return hscript hdone
      exact ⟨hran, hlen⟩
    | worker htrans => cases htrans
  case not_overwritten =>
    intro i work h₁ h₂ hh
    obtain ⟨s₁, s₂, hinv₁, htrans⟩ := hevent hh
    refine (hinv₁.settled_of_move htrans.performed rfl ?_).1
    intro p hmove
    cases p <;> first | rfl | cases hmove
  case not_dropped =>
    intro i h₁ h₂ hh
    obtain ⟨s₁, s₂, hinv₁, htrans⟩ := hevent hh
    refine (hinv₁.settled_of_move htrans.performed rfl ?_).2
    intro p hmove
    cases p <;> first | rfl | cases hmove
  case not_crashed =>
    intro i hmem
    obtain ⟨h₁, h₂, hh⟩ := List.append_of_mem hmem
    obtain ⟨s₁, s₂, hinv₁, htrans⟩ := hevent hh
    exact hinv₁.not_crashed htrans
  case not_stuck => exact fun i rest hblocked => (hinv.worker_awake hfinal hblocked).1
  case progress => exact hinv.progress hfinal
  case completes => exact hinv.exists_run_end hfinal

/-- Two workers, two rounds in the second of which one worker has nothing to do. -/
theorem handshake_sound_two_rounds :
    let rounds : List (Round ℕ 2) :=
      [⟨[(0, [10, 11]), (1, [12])], mainShare 2 [13], [0, 1], by decide, by decide, by decide,
          by decide⟩,
        ⟨[(1, [20])], [], [1], by decide, by decide, by decide, by decide⟩]
    let moves := List.replicate 9 (Move.run .main) ++ [.run (.worker 0), .wake (.worker 0)] ++
      List.replicate 10 (.run (.worker 0)) ++ List.replicate 10 (.run (.worker 1)) ++
      List.replicate 4 (.run .main)
    let result := handshake.exec (State.start (lifecycle rounds)) moves
    ran (.worker 0) result.1 = [10, 11] ∧ HandshakeSound rounds result.1 result.2 :=
  ⟨by decide, handshake_sound _ (handshake.run_exec _ _)⟩

end BcConcurrency.Pool
