import BcConcurrency.Pool.CallTasks
import BcConcurrency.Pool.Ownership

/-!
# Accumulation in slots

Tasks that only combine a value with the data of their slot leave in the slots, taken
together, what one thread would have got by combining the values one after the other.
Between its start and its end a task has the data of its worker for itself.
-/

namespace BcConcurrency.Pool

variable {M : Type*} [CommMonoid M] {t : ℕ}

/-! ### Tasks that accumulate -/

/-- The values of the data of a slot, and what each thread has read in the task it is in. -/
structure SlotValues (M : Type*) where
  cells : ℕ → M
  read : Thread → M

namespace SlotValues

/-- A task reads the data of `bc_concurrency_worker_slot` when it starts, and replaces them
by their combination with its own value when it ends. -/
def event (context : Context) (slot : ℕ) (f : Invocation → M) (values : SlotValues M) :
    Event Invocation → SlotValues M
  | .started thread tlsWorker _ => match workerSlot context tlsWorker slot with
      | none => values
      | some d => { values with read := Function.update values.read thread (values.cells d) }
  | .finished thread tlsWorker task => match workerSlot context tlsWorker slot with
      | none => values
      | some d =>
          { values with cells := Function.update values.cells d (values.read thread * f task) }
  | _ => values

/-- The values after the events of a call. -/
def history (context : Context) (slot : ℕ) (f : Invocation → M) (values : SlotValues M)
    (h : List (Event Invocation)) : SlotValues M :=
  h.foldl (fun values e => values.event context slot f e) values

/-- The values after the calls of a session. -/
def session (slot : ℕ) (f : Invocation → M) (values : SlotValues M) (records : List Record) :
    SlotValues M :=
  records.foldl (fun values r => values.history r.host.context slot f r.history) values

/-- What a client gets who combines the values that `bc_concurrency_foreach_slot` visits. -/
def total (context : Context) (slot : ℕ) (values : SlotValues M) : M :=
  ((foreachSlot context slot).map fun visit => visit.1.elim 1 values.cells).prod

end SlotValues

/-- Tasks that accumulate in a slot, on `t` worker threads and the main thread. -/
structure AccumulationSound (t slot : ℕ) (f : Invocation → M) (values : SlotValues M)
    (records : List Record) (host : Host) : Prop where
  /-- Each task finds the slot of the worker that it runs on. -/
  accessors : ∀ r ∈ records, ∀ e ∈ r.history, ∀ thread tlsWorker,
    taskOf e = some (thread, tlsWorker) → workerIndex tlsWorker ≤ t ∧
      ∃ d, workerSlot r.host.context tlsWorker slot = some d ∧
        r.host.context.slotPointer (workerIndex tlsWorker) slot = some d
  /-- The slot of every worker is visited once. -/
  visited : ∃ block : ℕ → ℕ,
    foreachSlot host.context slot = (List.range (t + 1)).map fun w => (some (block w), w)
  /-- The values visited combine to those of all tasks that were run. -/
  executed : (values.session slot f records).total host.context slot =
    ((executed (histories records)).map f).prod
  /-- A single thread would have got the same value. -/
  sequential : (values.session slot f records).total host.context slot =
    (records.flatMap Record.tasks).foldl (fun value task => value * f task) 1
  /-- Without worker threads the main thread runs the tasks in this order. -/
  oneThread : t = 0 → ran .main (histories records) = records.flatMap Record.tasks

/-! ### The threads of a session -/

/-- The thread is the main thread or one of the first `t` workers. -/
def Thread.Below (t : ℕ) : Thread → Prop
  | .main => True
  | .worker i => i < t

namespace Thread

lemma Below.index_le {thread : Thread} (h : thread.Below t) : thread.index t ≤ t := by
  cases thread with
  | main => exact le_rfl
  | worker i => exact le_of_lt h

/-- No two threads stand for the same worker. -/
lemma Below.eq_of_index_eq {thread thread' : Thread} (h : thread.Below t) (h' : thread'.Below t)
    (heq : thread.index t = thread'.index t) : thread = thread' := by
  cases thread with
  | main =>
    cases thread' with
    | main => rfl
    | worker j => exact absurd heq.symm (ne_of_lt h')
  | worker i =>
    cases thread' with
    | main => exact absurd heq (ne_of_lt h)
    | worker j => exact congrArg worker heq

end Thread

/-- No thread but those runs a task in a call. -/
lemma Performs.below {host : Host} {call : Call} {h : List (Event Invocation)}
    (hperforms : Performs host.context.threadCount (call.run host).script h)
    {e : Event Invocation} (he : e ∈ h) {thread : Thread} {tls : Option ℕ}
    (htask : taskOf e = some (thread, tls)) : thread.Below host.context.threadCount := by
  cases thread with
  | main => trivial
  | worker i =>
    by_contra hi
    have hran : ran (.worker i) h = [] := by
      rw [hperforms.worker, (run_callScript host call).filterMap_dispatchTo (not_lt.mp hi),
        List.flatten_nil]
    have hbegun := (hperforms.begun (.worker i)).trans hran
    rw [Pool.begun, List.filterMap_eq_nil_iff] at hbegun
    rw [ran, List.filterMap_eq_nil_iff] at hran
    -- neither a start nor an end of a task is among the events of this worker
    cases e with
    | started thread tls task =>
      cases htask
      simpa [startedBy] using hbegun _ he
    | finished thread tls task =>
      cases htask
      simpa [finishedBy] using hran _ he
    | _ => cases htask

lemma State.length_current_le {τ : Type*} (s : State τ) (thread : Thread) :
    (s.current thread).length ≤ 1 := by
  cases thread with
  | main =>
    simp only [State.current]
    split
    · exact Option.length_toList_le
    · exact Nat.zero_le _
  | worker i =>
    simp only [State.current]
    split
    · exact le_rfl
    · exact Nat.zero_le _

/-! ### One step -/

/-- A thread inside a task has read what its slot still contains. -/
def SlotValues.Reads (values : SlotValues M) (t : ℕ) (block : ℕ → ℕ) (s : State Invocation) :
    Prop :=
  ∀ thread : Thread, thread.Below t → s.current thread ≠ [] →
    values.read thread = values.cells (block (thread.index t))

/-- The slot of each worker, and different slots of different workers. -/
structure SlotBlocks (context : Context) (t slot : ℕ) (block : ℕ → ℕ) : Prop where
  slot_lt : slot < context.slotCount
  pointer : ∀ w ≤ t, context.slotPointer w slot = some (block w)
  inj : ∀ w ≤ t, ∀ w' ≤ t, block w = block w' → w = w'

lemma SlotBlocks.workerSlot_eq {context : Context} {slot : ℕ} {block : ℕ → ℕ}
    (hblocks : SlotBlocks context t slot block) {thread : Thread} (hthread : thread.Below t) :
    workerSlot context (some (thread.index t)) slot = some (block (thread.index t)) := by
  rw [workerSlot, if_neg (not_le.mpr hblocks.slot_lt)]
  exact hblocks.pointer _ hthread.index_le

section Steps

variable {context : Context} {slot : ℕ} {f : Invocation → M} {values : SlotValues M}
  {block : ℕ → ℕ} {final : ℕ → Phase} {s s' : State Invocation} {h : List (Event Invocation)}
  {e : Event Invocation}

/-- Multiplying the cell of one worker multiplies the product of the cells. -/
lemma SlotBlocks.prod_update_mul (hblocks : SlotBlocks context t slot block) (cells : ℕ → M)
    {w : ℕ} (hw : w ≤ t) (x : M) :
    ∏ w' ∈ Finset.range (t + 1), Function.update cells (block w) (cells (block w) * x) (block w') =
      (∏ w' ∈ Finset.range (t + 1), cells (block w')) * x := by
  have hmem : w ∈ Finset.range (t + 1) := Finset.mem_range.mpr (Nat.lt_succ_of_le hw)
  have hothers : ∏ w' ∈ (Finset.range (t + 1)).erase w,
      Function.update cells (block w) (cells (block w) * x) (block w') =
        ∏ w' ∈ (Finset.range (t + 1)).erase w, cells (block w') := by
    refine Finset.prod_congr rfl fun w' hw' => Function.update_of_ne ?_ ..
    intro hblock
    obtain ⟨hne, hw'⟩ := Finset.mem_erase.mp hw'
    exact hne (hblocks.inj w' (Nat.le_of_lt_succ (Finset.mem_range.mp hw')) w hw hblock)
  rw [← Finset.mul_prod_erase _ _ hmem, hothers, Function.update_self,
    ← Finset.mul_prod_erase _ _ hmem, mul_right_comm]

/-- The tasks of the threads that a step starts no task of, and ends none of. -/
lemma Transition.current_eq (htrans : Transition s e s') (hinv : Invariant final h s)
    {thread : Thread} (hstarted : startedBy thread e = none)
    (hfinished : finishedBy thread e = none) : s'.current thread = s.current thread := by
  simpa [hstarted, hfinished] using (htrans.current hinv thread).symm

/-- A thread ends its task before it starts another. -/
lemma Transition.current_eq_nil (htrans : Transition s e s') (hinv : Invariant final h s)
    {thread : Thread} {task : Invocation} (hstarted : startedBy thread e = none)
    (hfinished : finishedBy thread e = some task) : s'.current thread = [] := by
  have hlength := congrArg List.length (htrans.current hinv thread)
  have hle := s.length_current_le thread
  simp only [hstarted, hfinished, Option.toList_none, Option.toList_some, List.append_nil,
    List.length_append, List.length_singleton] at hlength
  exact List.eq_nil_of_length_eq_zero (by omega)

lemma Transition.current_ne_nil (htrans : Transition s e s') (hinv : Invariant final h s)
    {thread : Thread} {task : Invocation} (hstarted : startedBy thread e = none)
    (hfinished : finishedBy thread e = some task) : s.current thread ≠ [] := by
  intro hnil
  have hcurrent := htrans.current hinv thread
  simp [hnil, hstarted, hfinished] at hcurrent

/-- A thread that starts a task reads its slot. -/
lemma SlotValues.Reads.started (hreads : values.Reads t block s)
    (hblocks : SlotBlocks context t slot block) (hinv : Invariant final h s) {thread : Thread}
    {task : Invocation} (hthread : thread.Below t)
    (htrans : Transition s (.started thread (some (thread.index t)) task) s') :
    (values.event context slot f (.started thread (some (thread.index t)) task)).Reads t block
      s' := by
  intro thread' hthread' hin
  rw [SlotValues.event, hblocks.workerSlot_eq hthread]
  by_cases heq : thread' = thread
  · subst heq
    exact Function.update_self ..
  · rw [htrans.current_eq hinv (by simp [startedBy, Ne.symm heq]) rfl] at hin
    exact (Function.update_of_ne heq ..).trans (hreads thread' hthread' hin)

/-- A thread that ends a task writes a slot that no other thread has read. -/
lemma SlotValues.Reads.finished (hreads : values.Reads t block s)
    (hblocks : SlotBlocks context t slot block) (hinv : Invariant final h s) {thread : Thread}
    {task : Invocation} (hthread : thread.Below t)
    (htrans : Transition s (.finished thread (some (thread.index t)) task) s') :
    (values.event context slot f (.finished thread (some (thread.index t)) task)).Reads t block
      s' := by
  intro thread' hthread' hin
  rw [SlotValues.event, hblocks.workerSlot_eq hthread]
  by_cases heq : thread' = thread
  · subst heq
    exact absurd (htrans.current_eq_nil hinv rfl (if_pos rfl)) hin
  · rw [htrans.current_eq hinv rfl (by simp [finishedBy, Ne.symm heq])] at hin
    have hne : block (thread'.index t) ≠ block (thread.index t) := by
      intro hblock
      exact heq (hthread'.eq_of_index_eq hthread
        (hblocks.inj _ hthread'.index_le _ hthread.index_le hblock))
    exact (hreads thread' hthread' hin).trans (Function.update_of_ne hne ..).symm

/-- A step of a thread leaves what the others have read, and combines the value of the task
that it ends with the slot of its worker. -/
lemma SlotValues.Reads.step (hreads : values.Reads t block s)
    (hblocks : SlotBlocks context t slot block) (hinv : Invariant final h s)
    (htrans : Transition s e s')
    (htask : ∀ thread tls, taskOf e = some (thread, tls) →
      thread.Below t ∧ tls = some (thread.index t)) :
    (values.event context slot f e).Reads t block s' ∧
      ∏ w ∈ Finset.range (t + 1), (values.event context slot f e).cells (block w) =
        (∏ w ∈ Finset.range (t + 1), values.cells (block w)) * ((executed [e]).map f).prod := by
  cases e with
  | started thread tls task =>
    obtain ⟨hthread, rfl⟩ := htask thread tls rfl
    refine ⟨hreads.started hblocks hinv hthread htrans, ?_⟩
    rw [SlotValues.event, hblocks.workerSlot_eq hthread]
    exact (mul_one _).symm
  | finished thread tls task =>
    obtain ⟨hthread, rfl⟩ := htask thread tls rfl
    refine ⟨hreads.finished hblocks hinv hthread htrans, ?_⟩
    have hread : values.read thread = values.cells (block (thread.index t)) :=
      hreads thread hthread (htrans.current_ne_nil hinv rfl (if_pos rfl))
    rw [SlotValues.event, hblocks.workerSlot_eq hthread]
    dsimp only
    rw [hread, hblocks.prod_update_mul values.cells hthread.index_le]
    simp [Pool.executed]
  | _ =>
    refine ⟨?_, (mul_one _).symm⟩
    intro thread hthread hin
    rw [htrans.current_eq hinv rfl rfl] at hin
    exact hreads thread hthread hin

/-- The events of a run combine the values of the tasks that they end with the slots. -/
lemma SlotValues.Reads.run {s₀ : State Invocation} {h₀ : List (Event Invocation)}
    (hreads : values.Reads t block s₀) (hblocks : SlotBlocks context t slot block)
    (hinv : Invariant final h₀ s₀) (hrun : handshake.Run s₀ h s)
    (htask : ∀ e ∈ h, ∀ thread tls, taskOf e = some (thread, tls) →
      thread.Below t ∧ tls = some (thread.index t)) :
    (values.history context slot f h).Reads t block s ∧
      ∏ w ∈ Finset.range (t + 1), (values.history context slot f h).cells (block w) =
        (∏ w ∈ Finset.range (t + 1), values.cells (block w)) * ((executed h).map f).prod := by
  induction hrun with
  | nil => exact ⟨hreads, (mul_one _).symm⟩
  | snoc hrun hs ih =>
    obtain ⟨hreads', hprod⟩ := ih fun e he => htask e (List.mem_append_left _ he)
    obtain ⟨hreads'', hprod'⟩ := hreads'.step hblocks (hinv.run hrun) (handshake_inv hs)
      (htask _ (List.mem_append_right _ (List.mem_singleton_self _)))
    rw [SlotValues.history, List.foldl_append]
    refine ⟨hreads'', hprod'.trans ?_⟩
    rw [hprod, Pool.executed_append, List.map_append, List.prod_append, mul_assoc]

end Steps

/-! ### The calls of a session -/

/-- A call combines the values of the tasks that it runs with the slots. -/
lemma Between.accumulates {host : Host} {h h' : List (Event Invocation)} {s s' : State Invocation}
    {final : ℕ → Phase} {slot : ℕ} {block : ℕ → ℕ} (hb : Between host h s final) (call : Call)
    (hrun : handshake.Run { s with script := (call.run host).script } h' s')
    (hreturn : s'.script = [])
    (hblocks : SlotBlocks host.context host.context.threadCount slot block) (f : Invocation → M)
    (values : SlotValues M) :
    ∏ w ∈ Finset.range (host.context.threadCount + 1),
        (values.history host.context slot f h').cells (block w) =
      (∏ w ∈ Finset.range (host.context.threadCount + 1), values.cells (block w)) *
        ((executed h').map f).prod := by
  obtain ⟨final', hload, -⟩ := hb.phases_load call
  have hperforms := hb.performs call hrun hreturn
  have hreads : values.Reads host.context.threadCount block
      { s with script := (call.run host).script } := by
    intro thread hthread hin
    exact absurd (hb.current_load _ thread) hin
  exact (hreads.run hblocks hload hrun fun e he thread tls htask =>
    ⟨hperforms.below he htask, hperforms.charged e he thread tls htask⟩).2

namespace Session

variable {host₀ host₁ host : Host} {pre post : List Record} {s₁ s : State Invocation}
  {slot : ℕ} {block : ℕ → ℕ} {configs : List SlotConfig} {datas : List (List ℕ)}
  {foreign : Multiset ℕ}

/-- The slots that a session has at some point stay where they are. -/
lemma slotsKept (htabled : host₀.Tabled configs datas foreign) (hpre : Session host₀ pre host₁ s₁)
    (hsession : Session host₀ (pre ++ post) host s) : SlotsKept host₁.context host.context := by
  obtain ⟨configs₁, datas₁, htabled₁, -⟩ := htabled.after (pre.map Record.call)
  rw [← hpre.host_eq] at htabled₁
  obtain ⟨configs₂, datas₂, htabled₂, hext⟩ := htabled₁.after (post.map Record.call)
  have hhost : host = host₁.after (post.map Record.call) := by
    rw [hsession.host_eq, hpre.host_eq, List.map_append, Host.after_append]
  rw [← hhost] at htabled₂
  exact slotsKept_of_extends htabled₁.1 htabled₂.1 hext

/-- A slot has a block for each worker. -/
lemma exists_slotBlocks (htabled : host₀.Tabled configs datas foreign)
    (hpre : Session host₀ pre host₁ s₁) (hslot : slot < host₁.context.slotCount) :
    ∃ block, SlotBlocks host₁.context host₀.context.threadCount slot block := by
  obtain ⟨configs₁, datas₁, htabled₁, -⟩ := htabled.after (pre.map Record.call)
  rw [← hpre.host_eq] at htabled₁
  have howner := htabled₁.ownership
  have hpointer (w : ℕ) (hw : w ≤ host₀.context.threadCount) :
      host₁.context.slotPointer w slot = some ((host₁.context.slotPointer w slot).getD 0) := by
    obtain ⟨d, -, hd⟩ := howner.slots w (by rwa [hpre.threadCount_eq]) slot hslot
    rw [hd, Option.getD_some]
  refine ⟨fun w => (host₁.context.slotPointer w slot).getD 0, hslot, hpointer, ?_⟩
  intro w hw w' hw' heq
  exact (howner.distinct w w' slot slot _ (hpointer w hw) (heq ▸ hpointer w' hw')).1

lemma slotBlocks (htabled : host₀.Tabled configs datas foreign) (hpre : Session host₀ pre host₁ s₁)
    (hsession : Session host₀ (pre ++ post) host s)
    (hblocks : SlotBlocks host₁.context host₀.context.threadCount slot block) :
    SlotBlocks host.context host₀.context.threadCount slot block := by
  have hkept := hpre.slotsKept htabled hsession
  refine ⟨hblocks.slot_lt.trans_le hkept.count, ?_, hblocks.inj⟩
  intro w hw
  rw [hkept.pointers w (by rwa [hpre.threadCount_eq]) slot hblocks.slot_lt]
  exact hblocks.pointer w hw

/-- The call of a record finds the slots of the session. -/
lemma slotBlocks_of_mem (htabled : host₀.Tabled configs datas foreign)
    (hpre : Session host₀ pre host₁ s₁) (hsession : Session host₀ (pre ++ post) host s)
    (hblocks : SlotBlocks host₁.context host₀.context.threadCount slot block) {r : Record}
    (hr : r ∈ post) : SlotBlocks r.host.context host₀.context.threadCount slot block := by
  obtain ⟨post₁, post₂, rfl⟩ := List.append_of_mem hr
  rw [← List.append_assoc] at hsession
  obtain ⟨_, _, hsession₁, -⟩ := hsession.split
  exact hpre.slotBlocks htabled hsession₁ hblocks

/-- The calls of a session combine the values of all tasks that they run with the slots. -/
lemma accumulates (hspawned : host₀.context.workersSpawned = false)
    (hsession : Session host₀ (pre ++ post) host s)
    (hblocks : ∀ r ∈ post, SlotBlocks r.host.context host₀.context.threadCount slot block)
    (f : Invocation → M) (values : SlotValues M) :
    ∏ w ∈ Finset.range (host₀.context.threadCount + 1),
        (values.session slot f post).cells (block w) =
      (∏ w ∈ Finset.range (host₀.context.threadCount + 1), values.cells (block w)) *
        ((executed (histories post)).map f).prod := by
  induction post using List.reverseRecOn generalizing host s with
  | nil => exact (mul_one _).symm
  | append_singleton post r ih =>
    rw [← List.append_assoc] at hsession
    obtain ⟨s₁, s₂, hsession₁, hrun, hreturn, -⟩ := hsession.split
    obtain ⟨final, hb⟩ := hsession₁.between hspawned
    have hthreads := hsession₁.threadCount_eq
    have hcall := hb.accumulates r.call hrun hreturn
      (hthreads ▸ hblocks r (List.mem_append_right _ (List.mem_singleton_self r))) f
      (values.session slot f post)
    rw [hthreads, ih hsession₁ fun r' hr' => hblocks r' (List.mem_append_left _ hr')] at hcall
    rw [SlotValues.session, List.foldl_append, histories_append, Pool.executed_append,
      List.map_append, List.prod_append, ← mul_assoc, histories_singleton]
    exact hcall

end Session

/-! ### The result -/

lemma SlotBlocks.foreachSlot_eq {context : Context} {slot : ℕ} {block : ℕ → ℕ}
    (hblocks : SlotBlocks context context.threadCount slot block) :
    foreachSlot context slot =
      (List.range (context.threadCount + 1)).map fun w => (some (block w), w) := by
  rw [foreachSlot, if_neg (not_le.mpr hblocks.slot_lt)]
  refine List.map_congr_left ?_
  intro w hw
  rw [hblocks.pointer w (Nat.le_of_lt_succ (List.mem_range.mp hw))]

/-- After a successful creation, with any number of threads and in every interleaving,
tasks that accumulate in a slot leave there what a single thread would have got. -/
theorem accumulation_equals_sequential {memory memory' : Memory} {physicalCoreCount : ℕ}
    {config : Option Config} {stagingGrows memoryGrants : ℕ → Bool} {context : Context}
    (hcreate : create memory physicalCoreCount config stagingGrows memoryGrants =
      (some context, memory'))
    {foreign : Multiset ℕ} (hown : memory.Owns foreign)
    {pre post : List Record} {host₁ host : Host} {s₁ s : State Invocation}
    (hpre : Session ⟨context, memory'⟩ pre host₁ s₁)
    (hsession : Session ⟨context, memory'⟩ (pre ++ post) host s)
    {slot : ℕ} (hslot : slot < host₁.context.slotCount) (f : Invocation → M)
    (values : SlotValues M)
    (hidentity : ∀ w ≤ context.threadCount, ∀ d, host₁.context.slotPointer w slot = some d →
      values.cells d = 1) :
    AccumulationSound context.threadCount slot f values post host := by
  have hfresh := (create_ok hcreate).1
  have hspawned := hfresh.workersSpawned
  have htabled := tabled_of_create hcreate hown
  have hthreads : host.context.threadCount = context.threadCount := hsession.threadCount_eq
  obtain ⟨block, hblocks₁⟩ := hpre.exists_slotBlocks htabled hslot
  have hblocks := hpre.slotBlocks htabled hsession hblocks₁
  have hblocks_of_mem (r : Record) (hr : r ∈ post) :=
    hpre.slotBlocks_of_mem htabled hsession hblocks₁ hr
  have hvisited : foreachSlot host.context slot =
      (List.range (context.threadCount + 1)).map fun w => (some (block w), w) := by
    rw [← hthreads]
    exact SlotBlocks.foreachSlot_eq (by rwa [hthreads])
  have hperforms (r : Record) (hr : r ∈ post) :=
    hsession.performs hspawned (List.mem_append_right pre hr)
  have hthreads_of_mem (r : Record) (hr : r ∈ post) :
      r.host.context.threadCount = context.threadCount :=
    hsession.threadCount_of_mem (List.mem_append_right pre hr)
  have hexecuted : (values.session slot f post).total host.context slot =
      ((executed (histories post)).map f).prod := by
    have hone : ∏ w ∈ Finset.range (context.threadCount + 1), values.cells (block w) = 1 := by
      refine Finset.prod_eq_one fun w hw => hidentity w ?_ (block w) ?_
      · exact Nat.le_of_lt_succ (Finset.mem_range.mp hw)
      · exact hblocks₁.pointer w (Nat.le_of_lt_succ (Finset.mem_range.mp hw))
    have hprod := hsession.accumulates hspawned hblocks_of_mem f values
    rw [hone, one_mul] at hprod
    rw [SlotValues.total, hvisited, List.map_map, ← hprod]
    rfl
  have htasks : (executed (histories post)).Perm (post.flatMap Record.tasks) := by
    rw [executed_histories]
    refine List.Perm.flatMap_left post fun r hr => (hperforms r hr).executed_perm_tasks ?_
    exact hsession.capacious_of_mem hfresh.capacious (List.mem_append_right pre hr)
  refine ⟨?_, ⟨block, hvisited⟩, hexecuted, ?_, ?_⟩
  · intro r hr e he thread tls htask
    have hthread := (hperforms r hr).below he htask
    rw [hthreads_of_mem r hr] at hthread
    obtain rfl := (hperforms r hr).charged e he thread tls htask
    rw [hthreads_of_mem r hr]
    exact ⟨hthread.index_le, block _, (hblocks_of_mem r hr).workerSlot_eq hthread,
      (hblocks_of_mem r hr).pointer _ hthread.index_le⟩
  · rw [hexecuted, (htasks.map f).prod_eq, List.prod_eq_foldl, List.foldl_map]
  · intro hzero
    rw [ran_histories]
    refine List.flatMap_congr ?_
    intro r hr
    rw [(hperforms r hr).main]
    exact filterMap_task_of_threadCount ((hthreads_of_mem r hr).trans hzero) r.call

/-- The value of a task is its argument, and that of an iteration its index. -/
def argumentOf : Invocation → ℕ
  | .task _ taskArgument => taskArgument
  | .iteration _ index _ => index

/-- One worker and the main thread multiply the arguments of three tasks and the indices of
four iterations. -/
theorem accumulation_equals_sequential_product :
    ∃ context memory',
      create ⟨fun _ => true, 0, 0, [], []⟩ 2 none (fun _ => false) (fun _ => true) =
        (some context, memory') ∧
      let range : ForRange := ⟨3, 11, 2, 1, 0, by decide, by decide, by decide⟩
      let spawn : SpawnOutcome := ⟨true, true, fun _ => true⟩
      let main := List.replicate 12 (Move.run .main)
      let worker := List.replicate 12 (Move.run (.worker 0))
      let start := play ⟨context, memory'⟩ (State.start []) [(.registerSlot ⟨8, none, none, 0⟩, [])]
      let rounds := play start.2.1 start.2.2
        [(.submit 1 2, []), (.submit 1 3, []), (.submit 1 5, []),
          (.dispatchAndWait spawn, main ++ worker ++ main),
          (.parallelFor range spawn, main ++ worker ++ main)]
      let values : SlotValues ℕ := ⟨fun _ => 1, fun _ => 1⟩
      (values.session 0 argumentOf rounds.1).total rounds.2.1.context 0 =
          2 * 3 * 5 * (3 * 5 * 7 * 9) ∧
        AccumulationSound 1 0 argumentOf values rounds.1 rounds.2.1 := by
  have hcreate : create ⟨fun _ => true, 0, 0, [], []⟩ 2 none (fun _ => false) (fun _ => true) =
    (some _, _) := rfl
  refine ⟨_, _, hcreate, by decide, ?_⟩
  exact accumulation_equals_sequential hcreate Heap.Owns.empty
    (session_play _ [(.registerSlot ⟨8, none, none, 0⟩, [])] (by decide))
    ((session_play _ [(.registerSlot ⟨8, none, none, 0⟩, [])] (by decide)).play _ (by decide))
    (by decide) argumentOf _ fun _ _ _ _ => rfl

end BcConcurrency.Pool
