import BcConcurrency.Pool.CallTasks

/-!
# Retrying after a failed spawn

A call that cannot start all threads stops those that it has started, and leaves
`should_stop` set.  The next call starts threads for these workers that leave at once,
and waits forever for the work that it gives them.  A session can go on after a failed
call exactly if no failing call had started a thread.
-/

namespace BcConcurrency.Pool

/-- The fields of a worker that the handshake is about: `work`, `should_stop`,
`ready_flag` and `done_flag`. -/
def WorkerState.protocol {τ : Type*} (w : WorkerState τ) : Option (List τ) × Bool × Bool × Bool :=
  (w.work, w.shouldStop, w.readyFlag, w.doneFlag)

/-- A call that fails in `spawn_workers` leaves everything as it was. -/
structure FailureUndone (host : Host) (call : Call) (s : State Invocation) : Prop where
  result : (call.run host).result = false
  staged : (call.run host).host.staged = host.staged
  /-- No task is begun. -/
  idle : ∀ h s', handshake.Run { s with script := (call.run host).script } h s' →
    ∀ thread, begun thread h = []
  restored : ∀ h s', handshake.Run { s with script := (call.run host).script } h s' →
    s'.script = [] → ∀ i, (s'.workers i).protocol = (s.workers i).protocol

/-- A call in which nothing fails runs its tasks. -/
structure RunsTasks (host : Host) (call : Call) (s : State Invocation) : Prop where
  once : ∀ h s', handshake.Run { s with script := (call.run host).script } h s' →
    s'.script = [] → (executed h).Perm (call.tasks host)
  /-- The main thread does not wait for a worker whose thread has left its loop. -/
  waits : ∀ h s', handshake.Run { s with script := (call.run host).script } h s' →
    ∀ i rest, s'.script = .wait i :: rest →
      (s'.workers i).pc ≠ .exited ∧ (s'.workers i).pc ≠ .absent
  completes : ∀ h s', handshake.Run { s with script := (call.run host).script } h s' →
    ∃ h' s'', handshake.Run s' h' s'' ∧ s''.script = []

/-- In every session of these calls a failed spawn is undone, and later calls run their
tasks. -/
structure RetrySound (host₀ : Host) (calls : List Call) : Prop where
  undone : ∀ i (hi : i < calls.length) (records : List Record) (s : State Invocation),
    Session host₀ records (host₀.after (calls.take i)) s →
    records.map Record.call = calls.take i →
    ((host₀.after (calls.take i)).failedSpawn calls[i]).isSome →
    FailureUndone (host₀.after (calls.take i)) calls[i] s
  retried : ∀ i (hi : i < calls.length) (records : List Record) (s : State Invocation),
    Session host₀ records (host₀.after (calls.take i)) s →
    records.map Record.call = calls.take i →
    (calls[i].run (host₀.after (calls.take i))).result = true →
    RunsTasks (host₀.after (calls.take i)) calls[i] s

/-! ### A failing call -/

/-- Without a script and without threads nothing happens. -/
lemma run_eq_nil {τ : Type*} {s s' : State τ} {h : List (Event τ)}
    (hrun : handshake.Run s h s') (hscript : s.script = []) (hawake : s.asleep = false)
    (habsent : ∀ i, (s.workers i).pc = .absent) : h = [] ∧ s' = s := by
  induction hrun with
  | nil => exact ⟨rfl, rfl⟩
  | snoc _ hs ih =>
    obtain ⟨rfl, rfl⟩ := ih
    have htrans := handshake_inv hs
    exfalso
    cases htrans with
    | created hop | dispatched hop | tlsSet hop | started hop | finished hop | waitReturned hop
    | mainSlept hop | stopped hop | joined hop =>
      rw [hscript] at hop
      cases hop
    | @worker i _ _ hstep =>
      have hpc := habsent i
      cases hstep <;> simp_all
    | @reported i hpc | @workerWoken i hpc =>
      rw [habsent i] at hpc
      cases hpc
    | mainWoken hasleep =>
      rw [hawake] at hasleep
      cases hasleep

section Failure

variable {host : Host} {call : Call} {h : List (Event Invocation)} {s : State Invocation}
  {final : ℕ → Phase} {k : ℕ}

/-- Before the threads are started, and if none was stopped, the workers are as they were
created. -/
lemma Between.absent (hb : Between host h s final) (hclean : Unstopped final)
    (hspawned : host.context.workersSpawned = false) (i : ℕ) : final i = .absent := by
  by_cases hi : i < host.context.threadCount
  · rcases hb.rest.vacant hspawned i hi with hp | hp
    · exact hp
    · rcases hclean i with hp' | hp' <;> rw [hp] at hp' <;> cases hp'
  · exact hb.rest.above i (not_lt.mp hi)

/-- A call that fails before it has started a thread does nothing. -/
lemma Between.failureUndone (hb : Between host h s final) (hclean : Unstopped final)
    (hfailed : host.failedSpawn call = some 0) : FailureUndone host call s := by
  rcases failedSpawn_cases host call with ⟨k, -, hk, hspawned, hrun⟩ | ⟨hnone, -⟩
  · obtain rfl : 0 = k := Option.some.inj (hfailed.symm.trans hk)
    have hscript : (call.run host).script = [] := by
      rw [hrun]
      rfl
    have hawake : s.asleep = false := by
      by_contra hasleep
      obtain ⟨i, rest, hwait, -⟩ := hb.inv.asleep (by simpa using hasleep)
      rw [hb.done] at hwait
      cases hwait
    have hpc (i : ℕ) : (s.workers i).pc = .absent := by
      have hfits := (hb.worker i).fits
      rw [hb.absent hclean hspawned i] at hfits
      exact hfits.1
    have hstays {h' : List (Event Invocation)} {s' : State Invocation}
        (hrun' : handshake.Run { s with script := (call.run host).script } h' s') :=
      run_eq_nil hrun' hscript hawake hpc
    refine ⟨by rw [hrun], by rw [hrun], ?_, ?_⟩
    · intro h' s' hrun' thread
      rw [(hstays hrun').1]
      rfl
    · intro h' s' hrun' _ i
      rw [(hstays hrun').2]
  · rw [hnone] at hfailed
    cases hfailed

/-- A call that fails after it has started a thread leaves `should_stop` of its worker set. -/
lemma Between.exists_stopped (hb : Between host h s final) (hclean : Unstopped final)
    (hfailed : host.failedSpawn call = some k) (hk : 0 < k) :
    (s.workers 0).shouldStop = false ∧
      ∃ h' s', handshake.Run { s with script := (call.run host).script } h' s' ∧
        s'.script = [] ∧ (s'.workers 0).shouldStop = true := by
  rcases failedSpawn_cases host call with ⟨k', -, hk', hspawned, hrun⟩ | ⟨hnone, -⟩
  · obtain rfl : k = k' := Option.some.inj (hfailed.symm.trans hk')
    have habsent := hb.absent hclean hspawned
    have hafter (i : ℕ) : (final i).after i (call.run host).script =
        some (if i < k then .gone else final i) := by
      rw [hrun]
      exact Phase.after_createScript_stopScript k fun _ => by rw [habsent i]; rfl
    have hinv := hb.inv.load hb.done hafter
    obtain ⟨h', s', hrun', hdone⟩ := hinv.exists_run_end fun i => by
      split
      · simp
      · simp [habsent i]
    have hbefore := (hb.worker 0).fits
    rw [habsent 0] at hbefore
    refine ⟨hbefore.2.1, h', s', hrun', hdone, ?_⟩
    -- at the end worker 0 has been told to stop, and its thread is gone
    obtain ⟨p, hworker, hp⟩ := (hinv.run hrun').worker 0
    rw [hdone, Phase.after_nil, if_pos hk] at hp
    cases hp
    exact hworker.fits.2.1
  · rw [hnone] at hfailed
    cases hfailed

end Failure

/-! ### Sessions of given calls -/

section Calls

variable {host₀ host : Host} {calls : List Call} {records : List Record} {s : State Invocation}
  {n : ℕ}

/-- The first `n` calls start no threads, or all that they need. -/
def SpawnsWhole (host₀ : Host) (calls : List Call) (n : ℕ) : Prop :=
  ∀ i (hi : i < calls.length), i < n →
    ∀ k ∈ (host₀.after (calls.take i)).failedSpawn calls[i], k = 0

/-- A record of a session is that of one of its calls. -/
lemma Session.exists_call (hsession : Session host₀ records host s)
    (hcalls : records.map Record.call = calls.take n) {r : Record} (hr : r ∈ records) :
    ∃ i, ∃ hi : i < calls.length, i < n ∧ r.call = calls[i] ∧
      r.host = host₀.after (calls.take i) := by
  obtain ⟨pre, post, rfl⟩ := List.append_of_mem hr
  obtain ⟨s₁, -, hpre, -⟩ := hsession.split
  rw [List.map_append, List.map_cons] at hcalls
  have hlength : pre.length < (calls.take n).length := by
    rw [← hcalls]
    simp
  have hlt : pre.length < n ∧ pre.length < calls.length := by
    rwa [List.length_take, lt_min_iff] at hlength
  have hget : (calls.take n)[pre.length]? = some r.call := by
    rw [← hcalls]
    simp
  have htake : pre.map Record.call = calls.take pre.length := by
    have := congrArg (List.take pre.length) hcalls
    rw [List.take_take, min_eq_left hlt.1.le] at this
    simpa using this
  refine ⟨pre.length, hlt.2, hlt.1, ?_, ?_⟩
  · rw [List.getElem?_take_of_lt hlt.1, List.getElem?_eq_getElem hlt.2] at hget
    exact (Option.some.inj hget).symm
  · rw [hpre.host_eq, htake]

lemma Session.not_stop (hsession : Session host₀ records host s)
    (hcalls : records.map Record.call = calls.take n) (hwhole : SpawnsWhole host₀ calls n) :
    ∀ r ∈ records, ∀ i, .stop i ∉ r.outcome.script := by
  intro r hr
  obtain ⟨i, hi, hlt, hcall, hhost⟩ := hsession.exists_call hcalls hr
  refine not_stop_mem_run ?_
  rw [hcall, hhost]
  exact hwhole i hi hlt

/-- Such calls can be made one after the other. -/
lemma exists_session (hspawned : host₀.context.workersSpawned = false) (hn : n ≤ calls.length)
    (hwhole : SpawnsWhole host₀ calls n) :
    ∃ records s, Session host₀ records (host₀.after (calls.take n)) s ∧
      records.map Record.call = calls.take n := by
  induction n with
  | zero => exact ⟨[], _, .start, rfl⟩
  | succ n ih =>
    obtain ⟨records, s, hsession, hcalls⟩ :=
      ih (Nat.le_of_succ_le hn) fun i hi hlt => hwhole i hi (Nat.lt_succ_of_lt hlt)
    have hstop := hsession.not_stop hcalls fun i hi hlt => hwhole i hi (Nat.lt_succ_of_lt hlt)
    have hcall := not_stop_mem_run (hwhole n hn (Nat.lt_succ_self n))
    obtain ⟨-, -, -, h, s', hrun, hreturn⟩ := hsession.exists_return hspawned hstop hcall .nil
    have htake : calls.take (n + 1) = calls.take n ++ [calls[n]] :=
      (List.take_concat_get' calls n hn).symm
    rw [htake, Host.after_append]
    exact ⟨_, s', hsession.call calls[n] hrun hreturn, by rw [List.map_append, hcalls]; rfl⟩

end Calls

/-! ### The result -/

section Result

variable {host₀ : Host} {calls : List Call}

/-- When no failing call has started a thread, a call in which nothing fails runs its
tasks. -/
lemma Session.runsTasks {host : Host} {records : List Record} {s : State Invocation}
    (hspawned : host₀.context.workersSpawned = false) (hcap : Capacious host₀.context)
    (hsession : Session host₀ records host s)
    (hstop : ∀ r ∈ records, ∀ i, .stop i ∉ r.outcome.script) {call : Call}
    (hcall : ∀ i, .stop i ∉ (call.run host).script) : RunsTasks host call s := by
  refine ⟨?_, ?_, ?_⟩
  · intro h s' hrun hreturn
    obtain ⟨final, hb⟩ := hsession.between hspawned
    exact (hb.performs call hrun hreturn).executed_perm_tasks (hsession.capacious hcap)
  · intro h s' hrun i rest hscript
    obtain ⟨final, hinv, hclean, -⟩ := hsession.exists_return hspawned hstop hcall hrun
    obtain ⟨p, hworker, hafter⟩ := hinv.worker i
    obtain ⟨q, hnext, hq⟩ := Phase.after_cons_eq_some (hscript ▸ hafter)
    -- the wait returns, so the worker is busy and its thread is in the loop
    have hfits := hworker.fits
    rw [Phase.next_of_eq rfl] at hnext
    cases p with
    | busy =>
      obtain ⟨-, ⟨hpc, -⟩ | ⟨⟨rest, hpc⟩ | ⟨task, rest, hpc⟩, -⟩ | ⟨hpc | hpc, -⟩⟩ := hfits <;>
        simp [hpc]
    | lost =>
      cases hnext
      rw [Phase.after_stuck] at hq
      rcases hclean i with hp | hp <;> rw [hp] at hq <;> cases hq
    | stuck => exact hfits.elim
    | absent | idle | stopping | gone => cases hnext
  · intro h s' hrun
    obtain ⟨-, -, -, hcompletes⟩ := hsession.exists_return hspawned hstop hcall hrun
    exact hcompletes

/-- In every session after a successful creation, failed spawns are undone and can be retried
exactly if no call fails after it has started a thread. -/
theorem retry_sound_iff {memory memory' : Memory} {physicalCoreCount : ℕ}
    {config : Option Config} {stagingGrows memoryGrants : ℕ → Bool} {context : Context}
    (hcreate : create memory physicalCoreCount config stagingGrows memoryGrants =
      (some context, memory')) (calls : List Call) :
    RetrySound ⟨context, memory'⟩ calls ↔ ∀ i (hi : i < calls.length),
      ∀ k ∈ (Host.after ⟨context, memory'⟩ (calls.take i)).failedSpawn calls[i], k = 0 := by
  have hfresh := (create_ok hcreate).1
  have hspawned : (⟨context, memory'⟩ : Host).context.workersSpawned = false := hfresh.workersSpawned
  constructor
  · intro hsound i
    -- before the first call that fails after starting a thread no worker was stopped
    induction i using Nat.strong_induction_on with
    | h i ih =>
      intro hi k hk
      by_contra hne
      have hwhole : SpawnsWhole ⟨context, memory'⟩ calls i := fun j hj hlt => ih j hlt hj
      obtain ⟨records, s, hsession, hcalls⟩ := exists_session hspawned hi.le hwhole
      have hstop := hsession.not_stop hcalls hwhole
      obtain ⟨final, hb, hclean⟩ := hsession.between_unstopped hspawned hstop
      obtain ⟨hbefore, h, s', hrun, hreturn, hafter⟩ :=
        hb.exists_stopped hclean hk (Nat.pos_of_ne_zero hne)
      have hundone := hsound.undone i hi records s hsession hcalls (by rw [hk]; rfl)
      have hprotocol := hundone.restored h s' hrun hreturn 0
      simp [WorkerState.protocol, hbefore, hafter] at hprotocol
  · intro hwhole
    have hstops {i : ℕ} {records : List Record} {s : State Invocation}
        (hsession : Session ⟨context, memory'⟩ records
          (Host.after ⟨context, memory'⟩ (calls.take i)) s)
        (hcalls : records.map Record.call = calls.take i) :=
      hsession.not_stop hcalls fun j hj _ => hwhole j hj
    refine ⟨?_, ?_⟩
    · intro i hi records s hsession hcalls hfailed
      obtain ⟨k, hk⟩ := Option.isSome_iff_exists.mp hfailed
      obtain rfl := hwhole i hi k hk
      obtain ⟨final, hb, hclean⟩ := hsession.between_unstopped hspawned (hstops hsession hcalls)
      exact hb.failureUndone hclean hk
    · intro i hi records s hsession hcalls _
      exact hsession.runsTasks hspawned hfresh.capacious (hstops hsession hcalls)
        (not_stop_mem_run (hwhole i hi))

end Result

/-- Two workers and the main thread: the first thread cannot be created, and the second
dispatch runs the three tasks. -/
theorem retry_sound_first :
    ∃ context memory',
      create ⟨fun _ => true, 0, 0, [], []⟩ 3 none (fun _ => false) (fun _ => true) =
        (some context, memory') ∧
      let calls : List Call := [.submit 1 1, .submit 1 2, .submit 1 3,
        .dispatchAndWait ⟨true, true, fun i => i != 0⟩, .dispatchAndWait ⟨true, true, fun _ => true⟩]
      (Host.after ⟨context, memory'⟩ (calls.take 3)).failedSpawn
          (.dispatchAndWait ⟨true, true, fun i => i != 0⟩) = some 0 ∧
        RetrySound ⟨context, memory'⟩ calls := by
  have hcreate : create ⟨fun _ => true, 0, 0, [], []⟩ 3 none (fun _ => false) (fun _ => true) =
    (some _, _) := rfl
  exact ⟨_, _, hcreate, rfl, (retry_sound_iff hcreate _).mpr (by decide)⟩

/-- Two workers and the main thread: the second thread cannot be created, and in the next
dispatch the main thread waits for the first worker, whose thread has left at once. -/
theorem retry_waits_forever :
    ∃ context memory',
      create ⟨fun _ => true, 0, 0, [], []⟩ 3 none (fun _ => false) (fun _ => true) =
        (some context, memory') ∧
      ¬ RetrySound ⟨context, memory'⟩ [.submit 1 1, .submit 1 2, .submit 1 3,
        .dispatchAndWait ⟨true, true, fun i => i != 1⟩,
        .dispatchAndWait ⟨true, true, fun _ => true⟩] := by
  have hcreate : create ⟨fun _ => true, 0, 0, [], []⟩ 3 none (fun _ => false) (fun _ => true) =
    (some _, _) := rfl
  refine ⟨_, _, hcreate, ?_⟩
  intro hsound
  have hruns := hsound.retried 4 (by decide) _ _ (session_play _ [(.submit 1 1, []),
    (.submit 1 2, []), (.submit 1 3, []), (.dispatchAndWait ⟨true, true, fun i => i != 1⟩,
      [.run .main, .run .main, .run (.worker 0), .run .main])] (by decide)) rfl rfl
  -- the thread of worker 0 looks at its flags before anything is dispatched
  have hwaits := hruns.waits _ _ (handshake.run_exec _
    ([.run .main, .run (.worker 0)] ++ List.replicate 7 (.run .main))) 0 [.wait 1] rfl
  exact hwaits.1 rfl

end BcConcurrency.Pool
