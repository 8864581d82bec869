import BcConcurrency.Pool.HappensBefore
import BcConcurrency.Pool.Spawning

/-!
# Every call ends

Each operation of the main thread pays in advance for the steps that it causes: a
dispatch for the wakeup, the tasks and the report of the worker, a stop for the end of
the routine.  What is left of these payments falls with every step of every thread, so
that a call takes a bounded number of steps in all, whatever the schedule.  A spurious
wakeup costs two steps more.
-/

namespace BcConcurrency.Pool

variable {τ : Type*}

/-! ### The payments -/

/-- The tasks that an operation runs or hands over. -/
def MainOp.taskCount : MainOp τ → ℕ
  | .dispatch _ work => work.length
  | .run _ => 1
  | _ => 0

/-- What an operation pays, apart from its tasks. -/
def MainOp.base : MainOp τ → ℕ
  | .create _ | .stop _ => 2
  | .dispatch _ _ => 5
  | .setTls _ | .wait _ | .join _ => 1
  | .run _ => 0

/-- The tasks of a script. -/
def taskCount (script : List (MainOp τ)) : ℕ := (script.map MainOp.taskCount).sum

/-- What a script pays. -/
def scriptCost (script : List (MainOp τ)) : ℕ :=
  (script.map fun op => 2 * op.taskCount + op.base).sum

@[simp] lemma scriptCost_cons (op : MainOp τ) (script : List (MainOp τ)) :
    scriptCost (op :: script) = 2 * op.taskCount + op.base + scriptCost script :=
  List.sum_cons

/-- What a thread has left until it sleeps or ends. -/
def WorkerPc.cost : WorkerPc τ → ℕ
  | .test => 1
  | .running rest => 2 * rest.length + 3
  | .inTask _ rest => 2 * rest.length + 4
  | .absent | .asleep | .exited | .crashed => 0

/-- What the thread of a worker has left, with the work that it has not taken yet. -/
def WorkerState.cost (w : WorkerState τ) : ℕ :=
  w.pc.cost + w.work.elim 0 fun work => 2 * work.length + 3

/-- What the workers below `n` have left. -/
def workersCost (n : ℕ) (workers : ℕ → WorkerState τ) : ℕ :=
  ∑ i ∈ Finset.range n, (workers i).cost

/-- What all threads have left. -/
def State.cost (n : ℕ) (s : State τ) : ℕ :=
  scriptCost s.script + (!s.asleep).toNat + (!s.inTask).toNat + workersCost n s.workers

/-- The step is a spurious wakeup. -/
def Event.isWoken : Event τ → Bool
  | .woken _ => true
  | _ => false

lemma workersCost_update {n i : ℕ} (hi : i < n) (workers : ℕ → WorkerState τ) (w : WorkerState τ) :
    workersCost n (Function.update workers i w) + (workers i).cost =
      workersCost n workers + w.cost := by
  have hmem : i ∈ Finset.range n := Finset.mem_range.mpr hi
  have hupdate (j : ℕ) : (Function.update workers i w j).cost =
      Function.update (fun j => (workers j).cost) i w.cost j := by
    by_cases hj : j = i
    · subst hj
      simp
    · simp [hj]
  simp only [workersCost, hupdate]
  rw [Finset.sum_update_of_mem hmem, Finset.sdiff_singleton_eq_erase,
    ← Finset.add_sum_erase _ (fun j => (workers j).cost) hmem]
  omega

/-- A signal wakes a thread for one step. -/
lemma WorkerPc.cost_signal_le (pc : WorkerPc τ) : pc.signal.cost ≤ pc.cost + 1 := by
  cases pc <;> simp [WorkerPc.signal, WorkerPc.cost]

/-- A step of a worker is paid for. -/
lemma WorkerTransition.cost_lt {i : ℕ} {w w' : WorkerState τ} {e : Event τ}
    (htrans : WorkerTransition i w e w') : w'.cost < w.cost := by
  cases htrans with
  | took hpc hready hstop hwork =>
    simp only [WorkerState.cost, WorkerPc.cost, hpc, hwork, Option.elim]
    omega
  | crashed hpc hready hstop hwork => simp [WorkerState.cost, WorkerPc.cost, hpc, hwork]
  | slept hpc | exited hpc | finished hpc | reported hpc =>
    simp [WorkerState.cost, WorkerPc.cost, hpc]
  | started hpc =>
    simp only [WorkerState.cost, WorkerPc.cost, hpc, List.length_cons]
    omega

/-- The worker is below `n` if it has a thread, and so are those that the script
concerns. -/
structure Below (n : ℕ) (s : State τ) : Prop where
  thread : ∀ i, (s.workers i).pc ≠ .absent → i < n
  script : ∀ op i, op ∈ s.script → op.worker = some i → i < n

section Step

variable {n : ℕ} {s s' : State τ} {e : Event τ}

/-- The main thread takes an operation on worker `i` off its script. -/
lemma cost_mainOp {i : ℕ} {op : MainOp τ} {rest : List (MainOp τ)} {w : WorkerState τ}
    (hbelow : Below n s) (hscript : s.script = op :: rest) (hworker : op.worker = some i)
    (hcost : w.cost + 1 ≤ (s.workers i).cost + (2 * op.taskCount + op.base)) :
    ({ s with script := rest }.setWorker i w).cost n + 1 ≤ s.cost n := by
  have hi : i < n := hbelow.script op i (by simp [hscript]) hworker
  have hupdate := workersCost_update hi s.workers w
  simp only [State.cost, State.setWorker, hscript, scriptCost_cons]
  omega

/-- Every step is paid for, but for the spurious wakeups. -/
lemma Transition.cost_le (hbelow : Below n s) (htrans : Transition s e s') :
    s'.cost n + 1 ≤ s.cost n + if e.isWoken then 2 else 0 := by
  cases htrans with
  | @created i rest hscript hawake =>
    refine cost_mainOp hbelow hscript rfl ?_
    simp only [WorkerState.cost, WorkerPc.cost, MainOp.taskCount, MainOp.base]
    omega
  | @dispatched i work rest hscript hawake =>
    refine cost_mainOp hbelow hscript rfl ?_
    have hsignal := (s.workers i).pc.cost_signal_le
    simp only [WorkerState.cost, WorkerState.dispatch, Option.elim, MainOp.taskCount, MainOp.base]
    omega
  | @stopped i rest hscript hawake =>
    refine cost_mainOp hbelow hscript rfl ?_
    have hsignal := (s.workers i).pc.cost_signal_le
    simp only [WorkerState.cost, WorkerState.stop, MainOp.taskCount, MainOp.base]
    omega
  | @joined i rest hscript hawake hexited =>
    refine cost_mainOp hbelow hscript rfl ?_
    simp only [WorkerState.cost, WorkerPc.cost, MainOp.taskCount, MainOp.base]
    omega
  | tlsSet hscript hawake | waitReturned hscript hawake hdone =>
    simp only [State.cost, hscript, scriptCost_cons, MainOp.taskCount, MainOp.base, Event.isWoken]
    omega
  | started hscript hawake hin =>
    simp only [State.cost, hin, Event.isWoken, Bool.not_true, Bool.not_false, Bool.toNat_false,
      Bool.toNat_true]
    omega
  | finished hscript hawake hin =>
    simp only [State.cost, hin, hscript, scriptCost_cons, MainOp.taskCount, MainOp.base,
      Event.isWoken, Bool.not_true, Bool.not_false, Bool.toNat_false, Bool.toNat_true]
    omega
  | mainSlept hscript hawake hdone =>
    simp only [State.cost, hawake, Event.isWoken, Bool.not_true, Bool.not_false, Bool.toNat_false,
      Bool.toNat_true]
    omega
  | mainWoken hasleep =>
    simp only [State.cost, hasleep, Event.isWoken, Bool.not_true, Bool.not_false, Bool.toNat_false,
      Bool.toNat_true, if_true]
    omega
  | @workerWoken i hasleep =>
    have hi := hbelow.thread i (by simp [hasleep])
    have hupdate := workersCost_update hi s.workers { s.workers i with pc := .test }
    simp only [State.cost, State.setWorker, WorkerState.cost, WorkerPc.cost, hasleep,
      Event.isWoken, if_true] at hupdate ⊢
    omega
  | @worker i e w hstep hne =>
    have hi := hbelow.thread i (by cases hstep <;> simp [*])
    have hupdate := workersCost_update hi s.workers w
    have hlt := hstep.cost_lt
    simp only [State.cost, State.setWorker]
    omega
  | @reported i hpc =>
    have hi := hbelow.thread i (by simp [hpc])
    have hupdate := workersCost_update hi s.workers
      { s.workers i with doneFlag := true, pc := .test }
    have hawake := Bool.toNat_le (!(s.signalDone i).asleep)
    rw [State.signalDone_eq]
    simp only [State.cost, State.setWorker, WorkerState.cost, WorkerPc.cost, hpc,
      Event.isWoken, List.length_nil] at hupdate ⊢
    omega

/-- The main thread goes on to the rest of its script and changes worker `j` at most. -/
lemma Below.mainOp {op : MainOp τ} {rest : List (MainOp τ)} {j : ℕ} {w : WorkerState τ}
    (hbelow : Below n s) (hscript : s.script = op :: rest) (hj : op.worker = some j) :
    Below n ({ s with script := rest }.setWorker j w) := by
  refine ⟨?_, fun op' i hmem => hbelow.script op' i (by simp [hscript, show op' ∈ rest from hmem])⟩
  intro i hpc
  by_cases hi : i = j
  · subst hi
    exact hbelow.script op i (by simp [hscript]) hj
  · exact hbelow.thread i (by simpa [hi] using hpc)

/-- A step of a thread that is there. -/
lemma Below.worker {j : ℕ} {w : WorkerState τ} {asleep : Bool} (hbelow : Below n s)
    (hpc : (s.workers j).pc ≠ .absent) :
    Below n ({ s with asleep := asleep }.setWorker j w) := by
  refine ⟨?_, hbelow.script⟩
  intro i hpc'
  by_cases hi : i = j
  · subst hi
    exact hbelow.thread i hpc
  · exact hbelow.thread i (by simpa [hi] using hpc')

lemma Below.step (hbelow : Below n s) (htrans : Transition s e s') : Below n s' := by
  have hrest {op : MainOp τ} {rest : List (MainOp τ)} (hscript : s.script = op :: rest)
      (op' : MainOp τ) (i : ℕ) (hmem : op' ∈ rest) : op'.worker = some i → i < n :=
    hbelow.script op' i (by simp [hscript, hmem])
  cases htrans with
  | created hscript | dispatched hscript | stopped hscript | joined hscript =>
    exact hbelow.mainOp hscript rfl
  | tlsSet hscript | waitReturned hscript | finished hscript =>
    exact ⟨hbelow.thread, hrest hscript⟩
  | started | mainSlept | mainWoken => exact ⟨hbelow.thread, hbelow.script⟩
  | workerWoken hasleep => exact hbelow.worker (by simp [hasleep])
  | worker hstep => exact hbelow.worker (by cases hstep <;> simp [*])
  | reported hpc =>
    rw [State.signalDone_eq]
    exact hbelow.worker (by simp [hpc])

/-- What a run takes in all. -/
lemma Below.run {s₀ : State τ} {h : List (Event τ)} (hbelow : Below n s₀)
    (hrun : handshake.Run s₀ h s) :
    Below n s ∧ h.length + s.cost n ≤ s₀.cost n + 2 * h.countP Event.isWoken := by
  refine hrun.invariant (P := fun h s => Below n s ∧
    h.length + s.cost n ≤ s₀.cost n + 2 * h.countP Event.isWoken) ⟨hbelow, by simp⟩ ?_
  rintro h s c e s' _ ⟨hbelow, hcost⟩ hs
  have htrans := handshake_inv hs
  refine ⟨hbelow.step htrans, ?_⟩
  have hstep := htrans.cost_le hbelow
  rw [List.length_append, List.countP_append, List.countP_singleton, List.length_singleton]
  split at hstep <;> simp_all <;> omega

end Step

/-! ### What the scripts of the library pay -/

/-- What a script pays apart from its tasks. -/
def baseCost (script : List (MainOp τ)) : ℕ := (script.map MainOp.base).sum

lemma scriptCost_eq (script : List (MainOp τ)) :
    scriptCost script = 2 * taskCount script + baseCost script := by
  induction script with
  | nil => rfl
  | cons op script ih =>
    rw [scriptCost_cons, ih]
    simp only [taskCount, baseCost, List.map_cons, List.sum_cons]
    omega

@[simp] lemma baseCost_append (script script' : List (MainOp τ)) :
    baseCost (script ++ script') = baseCost script + baseCost script' := by
  simp [baseCost]

/-- The script concerns the workers below `n` only, and pays at most `cost` apart from
its tasks. -/
structure Modest (n cost : ℕ) (script : List (MainOp τ)) : Prop where
  worker : ∀ op i, op ∈ script → op.worker = some i → i < n
  base : baseCost script ≤ cost

namespace Modest

variable {n k cost cost' : ℕ} {script script' : List (MainOp τ)}

lemma append (h : Modest n cost script) (h' : Modest n cost' script') :
    Modest n (cost + cost') (script ++ script') := by
  refine ⟨?_, ?_⟩
  · intro op i hop
    exact (List.mem_append.mp hop).elim (h.worker op i) (h'.worker op i)
  · rw [baseCost_append]
    exact Nat.add_le_add h.base h'.base

lemma mono (h : Modest n cost script) (hle : cost ≤ cost') : Modest n cost' script :=
  ⟨h.worker, h.base.trans hle⟩

/-- One operation on each of some workers. -/
lemma map {α : Type*} {f : α → MainOp τ} {l : List α} {c : ℕ} (hbase : ∀ a ∈ l, (f a).base = c)
    (hworker : ∀ a ∈ l, ∀ i, (f a).worker = some i → i < n) :
    Modest n (l.length * c) (l.map f) := by
  refine ⟨?_, ?_⟩
  · rintro op i hop
    obtain ⟨a, ha, rfl⟩ := List.mem_map.mp hop
    exact hworker a ha i
  · have hconst : (l.map f).map MainOp.base = List.replicate l.length c := by
      rw [List.map_map]
      exact List.map_eq_replicate_iff.mpr hbase
    rw [baseCost, hconst, List.sum_replicate, smul_eq_mul]

lemma nil (n : ℕ) : Modest n 0 ([] : List (MainOp τ)) := ⟨by simp, le_rfl⟩

/-- A loop over the workers below `k`. -/
lemma range {f : ℕ → MainOp τ} {c : ℕ} (hk : k ≤ n) (hbase : ∀ j, (f j).base = c)
    (hworker : ∀ j, (f j).worker = some j) : Modest n (k * c) ((List.range k).map f) := by
  have h := map (l := List.range k) (n := n) (fun j _ => hbase j) fun j hj i hi => by
    rw [hworker, Option.some.injEq] at hi
    exact hi ▸ (List.mem_range.mp hj).trans_le hk
  rwa [List.length_range] at h

lemma createScript (hk : k ≤ n) : Modest n (k * 2) (createScript k : List (MainOp τ)) :=
  range hk (fun _ => rfl) fun _ => rfl

lemma stopScript (hk : k ≤ n) : Modest n (k * 3) (stopScript k : List (MainOp τ)) := by
  have hstop : Modest n (k * 2) ((List.range k).map .stop : List (MainOp τ)) :=
    range hk (fun _ => rfl) fun _ => rfl
  have hjoin : Modest n (k * 1) ((List.range k).map .join : List (MainOp τ)) :=
    range hk (fun _ => rfl) fun _ => rfl
  exact (hstop.append hjoin).mono (by omega)

lemma mainShare (n t : ℕ) (tasks : List τ) : Modest n 2 (mainShare t tasks) := by
  refine ⟨?_, ?_⟩
  · intro op i hop hworker
    have hlocal := isLocal_of_mem_mainShare hop
    cases op <;> simp [MainOp.isLocal, MainOp.worker] at hlocal hworker
  · have hruns : Modest 0 (tasks.length * 0) (tasks.map .run) :=
      map (fun _ _ => rfl) fun _ _ _ h => by cases h
    have hsplit : Pool.mainShare t tasks =
        [.setTls (some t)] ++ tasks.map .run ++ [.setTls none] := rfl
    have htls (worker : Option ℕ) : baseCost [(.setTls worker : MainOp τ)] = 1 := rfl
    have hbase := hruns.base
    rw [hsplit, baseCost_append, baseCost_append, htls, htls]
    omega

lemma isShare {t : ℕ} (n : ℕ) (hshare : IsShare t script) : Modest n 2 script := by
  rcases hshare with rfl | ⟨tasks, rfl⟩
  · exact (nil n).mono (by omega)
  · exact mainShare n t tasks

/-- A round dispatches to each worker once at most, and waits for as many. -/
lemma round {t : ℕ} (r : Round τ t) (hshare : IsShare t r.mainOps) :
    Modest t (6 * t + 2) r.script := by
  have hlen : r.assignments.length ≤ t := by
    have hsubset : r.assignments.map Prod.fst ⊆ List.range t := fun i hi =>
      List.mem_range.mpr (r.lt i hi)
    simpa using (List.subperm_of_subset r.nodup hsubset).length_le
  have hwaits : r.waits.length = r.assignments.length := by simpa using r.perm.length_eq
  have hdispatch : Modest t (r.assignments.length * 5)
      (r.assignments.map fun a => (.dispatch a.1 a.2 : MainOp τ)) := by
    refine map (fun _ _ => rfl) fun a ha i hi => ?_
    obtain rfl : a.1 = i := Option.some.inj hi
    exact r.lt _ (List.mem_map_of_mem ha)
  have hwait : Modest t (r.waits.length * 1) (r.waits.map .wait : List (MainOp τ)) := by
    refine map (fun _ _ => rfl) fun j hj i hi => ?_
    obtain rfl : j = i := Option.some.inj hi
    exact r.lt _ (r.perm.mem_iff.mp hj)
  exact ((hdispatch.append (isShare t hshare)).append hwait).mono (by omega)

end Modest

lemma Start.modest {spawn : SpawnOutcome} {t : ℕ} {spawned : Bool}
    {start : List (MainOp Invocation)} (hstart : Start spawn t spawned start) :
    Modest t (t * 2) start := by
  cases hstart with
  | spawned => exact (Modest.nil t).mono (Nat.zero_le _)
  | fresh => exact Modest.createScript le_rfl

lemma CallScript.modest {t : ℕ} {spawned spawned' : Bool} {script : List (MainOp Invocation)}
    (hscript : CallScript t spawned spawned' script) : Modest t (8 * t + 2) script := by
  cases hscript with
  | alone hshare => exact (Modest.isShare t hshare).mono (by omega)
  | spawnFailed hk =>
    exact ((Modest.createScript hk).append (Modest.stopScript hk)).mono (by omega)
  | refused hstart => exact hstart.modest.mono (by omega)
  | round hstart r hshare => exact (hstart.modest.append (Modest.round r hshare)).mono (by omega)

/-- What a call or the destruction pays. -/
lemma nextScript_modest (host : Host) (next : Option Call) :
    Modest host.context.threadCount (8 * host.context.threadCount + 2) (nextScript host next) := by
  cases next with
  | some call => exact (run_callScript host call).modest
  | none =>
    rw [nextScript, destroyScript]
    split
    · exact (Modest.stopScript le_rfl).mono (by omega)
    · exact (Modest.nil _).mono (Nat.zero_le _)

/-! ### Sessions -/

namespace Between

variable {host : Host} {h : List (Event Invocation)} {s : State Invocation} {final : ℕ → Phase}

/-- A worker between two calls has at most one step left. -/
lemma worker_cost_le (hb : Between host h s final) (i : ℕ) : (s.workers i).cost ≤ 1 := by
  have hclosed := hb.rest.isOpen_eq i
  have hfits := (hb.worker i).fits
  have hcost {w : WorkerState Invocation} (hwork : w.work = none)
      (hpc : w.pc = .absent ∨ w.pc = .test ∨ w.pc = .asleep ∨ w.pc = .exited) : w.cost ≤ 1 := by
    rcases hpc with hpc | hpc | hpc | hpc <;> simp [WorkerState.cost, WorkerPc.cost, hwork, hpc]
  rcases hfinal : final i with _ | _ | _ | _ | _ | _ | _ <;> rw [hfinal] at hclosed hfits
  · exact hcost hfits.2.2.2 (Or.inl hfits.1)
  · rcases hfits.1 with hpc | hpc
    · exact hcost hfits.2.2.2 (Or.inr (Or.inl hpc))
    · exact hcost hfits.2.2.2 (Or.inr (Or.inr (Or.inl hpc)))
  · cases hclosed
  · rcases hfits.1 with hpc | hpc
    · exact hcost hfits.2.2.2 (Or.inr (Or.inl hpc))
    · exact hcost hfits.2.2.2 (Or.inr (Or.inr (Or.inr hpc)))
  · exact hcost hfits.2.2.2 (Or.inl hfits.1)
  · cases hclosed
  · exact hfits.elim

lemma below (hb : Between host h s final) (next : Option Call) :
    Below host.context.threadCount { s with script := nextScript host next } := by
  refine ⟨?_, (nextScript_modest host next).worker⟩
  intro i hpc
  by_contra hi
  have hfits := (hb.worker i).fits
  rw [hb.rest.above i (not_lt.mp hi)] at hfits
  exact hpc hfits.1

/-- What is left at the beginning of a call. -/
lemma cost_le (hb : Between host h s final) (next : Option Call) :
    State.cost host.context.threadCount { s with script := nextScript host next } ≤
      2 * taskCount (nextScript host next) + 9 * host.context.threadCount + 4 := by
  have hworkers : workersCost host.context.threadCount s.workers ≤ host.context.threadCount := by
    calc workersCost host.context.threadCount s.workers
        ≤ ∑ _i ∈ Finset.range host.context.threadCount, 1 :=
          Finset.sum_le_sum fun i _ => hb.worker_cost_le i
      _ = host.context.threadCount := by simp
  have hbase := (nextScript_modest host next).base
  have hscript := scriptCost_eq (nextScript host next)
  have hasleep := Bool.toNat_le (!s.asleep)
  have hin := Bool.toNat_le (!s.inTask)
  simp only [State.cost]
  omega

/-- Unless work is given to a worker that was told to stop, the main thread does not
get stuck.  The destruction gives no work, and neither does a call that cannot create its
threads: it stops and joins those that it has started. -/
lemma exists_load_ne_stuck (hb : Between host h s final) (next : Option Call)
    (hclean : ∀ call ∈ next, host.failedSpawn call = none → Unstopped final) :
    ∃ final', Invariant final' h { s with script := nextScript host next } ∧
      ∀ i, final' i ≠ .stuck := by
  cases next with
  | some call =>
    rcases failedSpawn_cases host call with ⟨k, hk, -, hspawned, hrun⟩ | ⟨hnone, hstop⟩
    · refine ⟨fun i => if i < k then .gone else final i,
        hb.inv.load hb.done fun i => ?_, fun i => ?_⟩
      · rw [nextScript, hrun]
        refine Phase.after_createScript_stopScript k fun hi => ?_
        rcases hb.rest.vacant hspawned i (hi.trans hk) with hp | hp <;> rw [hp] <;> rfl
      · dsimp only
        split
        · simp
        · exact hb.rest.ne_stuck i
    · obtain ⟨final', hload, -, hclean'⟩ := hb.phases_load call
      refine ⟨final', hload, fun i => ?_⟩
      rcases hclean' (hclean call rfl hnone) hstop i with hp | hp <;> simp [hp]
  | none =>
    rcases hspawned : host.context.workersSpawned with _ | _
    · refine ⟨final, hb.inv.load hb.done fun i => ?_, hb.rest.ne_stuck⟩
      rw [nextScript, destroyScript, hspawned]
      rfl
    · refine ⟨fun i => if i < host.context.threadCount then .gone else final i,
        hb.inv.load hb.done fun i => ?_, fun i => ?_⟩
      · rw [nextScript, destroyScript, hspawned]
        exact Phase.after_stopScript _ fun hi => hb.rest.running hspawned i hi
      · dsimp only
        split
        · simp
        · exact hb.rest.ne_stuck i

end Between

/-- While a call or the destruction is not done, a thread can take a step; for a call that
creates every thread it needs, unless an earlier call has stopped workers. -/
lemma Session.enabled {host₀ host : Host} {records : List Record} {s s' : State Invocation}
    (hspawned : host₀.context.workersSpawned = false)
    (hsession : Session host₀ records host s) (next : Option Call)
    (hclean : ∀ call ∈ next, host.failedSpawn call = none →
      ∀ r ∈ records, ∀ k ∈ r.host.failedSpawn r.call, k = 0)
    {h : List (Event Invocation)}
    (hrun : handshake.Run { s with script := nextScript host next } h s') (hne : s'.script ≠ []) :
    ∃ thread, handshake.Enabled s' (.run thread) := by
  -- where no worker was stopped, the phases are those of a session without failures
  obtain ⟨final, hb, hclean'⟩ : ∃ final, Between host (histories records) s final ∧
      ∀ call ∈ next, host.failedSpawn call = none → Unstopped final := by
    by_cases hfails : ∃ call ∈ next, host.failedSpawn call = none
    · obtain ⟨call, hcall, hnone⟩ := hfails
      obtain ⟨final, hb, hunstopped⟩ := hsession.between_unstopped hspawned
        fun r hr => not_stop_mem_run (hclean call hcall hnone r hr)
      exact ⟨final, hb, fun _ _ _ => hunstopped⟩
    · obtain ⟨final, hb⟩ := hsession.between hspawned
      exact ⟨final, hb, fun call hcall hnone => absurd ⟨call, hcall, hnone⟩ hfails⟩
  obtain ⟨final', hload, hstuck⟩ := hb.exists_load_ne_stuck next hclean'
  exact (hload.run hrun).progress hstuck hne

/-- Every call takes a bounded number of steps of all threads together, and so does the
destruction, under every schedule: two steps for each task, nine for each worker and
four, and two more for each spurious wakeup.  It cannot stop earlier: as long as the
main thread has something to do, some thread can take a step.  Only where an earlier call
has left workers behind that were told to stop, this is not promised of a call that hands
over work; it is of one in which `pthread_create` fails, and of the destruction. -/
theorem pool_calls_terminate {memory memory' : Memory} {physicalCoreCount : ℕ}
    {config : Option Config} {stagingGrows memoryGrants : ℕ → Bool} {context : Context}
    (hcreate : create memory physicalCoreCount config stagingGrows memoryGrants =
      (some context, memory'))
    {records : List Record} {host : Host} {s s' : State Invocation}
    (hsession : Session ⟨context, memory'⟩ records host s) (next : Option Call)
    {h : List (Event Invocation)}
    (hrun : handshake.Run { s with script := nextScript host next } h s') :
    h.length ≤ 2 * taskCount (nextScript host next) + 9 * context.threadCount + 4 +
        2 * h.countP Event.isWoken ∧
      ((∀ call ∈ next, host.failedSpawn call = none →
          ∀ r ∈ records, ∀ k ∈ r.host.failedSpawn r.call, k = 0) →
        s'.script ≠ [] → ∃ thread, handshake.Enabled s' (.run thread)) := by
  have hspawned : context.workersSpawned = false := (create_ok hcreate).1.workersSpawned
  obtain ⟨final, hb⟩ := hsession.between hspawned
  have hthreads : host.context.threadCount = context.threadCount := hsession.threadCount_eq
  constructor
  · have hsteps := ((hb.below next).run hrun).2
    have hstart := hb.cost_le next
    rw [hthreads] at hsteps hstart
    omega
  · exact fun hclean hne => hsession.enabled hspawned next hclean hrun hne

/-- A wait that is woken for nothing once on each side: seventeen steps, two of them
wakeups, where the bound allows twenty-one. -/
theorem pool_calls_terminate_woken :
    ∃ context memory',
      create ⟨fun _ => true, 0, 0, [], []⟩ 2 none (fun _ => false) (fun _ => true) =
        (some context, memory') ∧
      let spawn : SpawnOutcome := ⟨true, true, fun _ => true⟩
      let call : Call := .dispatchAndWait spawn
      let session := play ⟨context, memory'⟩ (State.start [])
        [(.submitBatch 1 [10, 11], [])]
      let schedule := [.run .main, .run (.worker 0), .wake (.worker 0)] ++
        List.replicate 6 (Move.run .main) ++ [.wake .main, .run .main] ++
        List.replicate 8 (Move.run (.worker 0)) ++ [.run .main]
      let r := handshake.exec { session.2.2 with script := nextScript session.2.1 (some call) }
        schedule
      r.1.length = 17 ∧ r.1.countP Event.isWoken = 2 ∧
        r.1.length ≤ 2 * taskCount (nextScript session.2.1 (some call)) +
          9 * context.threadCount + 4 + 2 * r.1.countP Event.isWoken := by
  have hcreate : create ⟨fun _ => true, 0, 0, [], []⟩ 2 none (fun _ => false) (fun _ => true) =
    (some _, _) := rfl
  refine ⟨_, _, hcreate, ?_⟩
  intro spawn call session schedule r
  exact ⟨by decide, by decide,
    (pool_calls_terminate hcreate (session_play _ [(.submitBatch 1 [10, 11], [])] (by decide))
      (some call) (handshake.run_exec _ schedule)).1⟩

end BcConcurrency.Pool
