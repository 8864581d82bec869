import BcConcurrency.Queue.Progress

/-!
# The queue is lock-free

Every operation pays for its own steps and, in advance, for the two repetitions
that its claim may cost each of the other threads.  What is left of these
payments falls with every step of every thread, so the number of all steps of a
run is bounded by the number of its calls, whatever the schedule: no thread can
make the others repeat their loops without completing operations itself.  A
spurious failure of a weak exchange costs two steps more.
-/

namespace BcConcurrency.Queue

variable {ι α : Type*}

/-! ### The payments -/

/-- What a loaded position costs more when it is no longer the current one. -/
def stale (p position : ℕ) : ℕ := if p = position then 0 else 2

@[simp] lemma stale_self (p : ℕ) : stale p p = 0 := if_pos rfl

lemma stale_of_ne {p position : ℕ} (h : p ≠ position) : stale p position = 2 := if_neg h

lemma stale_le (p position : ℕ) : stale p position ≤ 2 := by
  rw [stale]
  split <;> omega

/-- What is left to pay by a thread among `others` other threads: its steps up to
its return when nobody interferes, one repetition of its loop if the position
that it has loaded is stale, and the repetitions that its claim costs the others. -/
def Pc.cost (others : ℕ) (queue : SharedQueue α) : Pc α → ℕ
  | .idle => 0
  | .pushLoadClosed _ => 6 + 2 * others
  | .pushLoadPosition _ | .popLoadPosition => 5 + 2 * others
  | .pushLoadSequence _ p => 4 + stale p queue.enqueuePosition + 2 * others
  | .popLoadSequence p => 4 + stale p queue.dequeuePosition + 2 * others
  | .pushExchange _ p => 3 + stale p queue.enqueuePosition + 2 * others
  | .popExchange p => 3 + stale p queue.dequeuePosition + 2 * others
  | .pushCopy _ _ | .popCopy _ => 2
  | .pushStoreSequence _ _ | .popStoreSequence _ _ | .closeStore | .isClosedLoad => 1

lemma Pc.cost_le (others : ℕ) (queue : SharedQueue α) (pc : Pc α) :
    pc.cost others queue ≤ 6 + 2 * others := by
  cases pc <;> simp only [Pc.cost]
  case pushLoadSequence item p | pushExchange item p =>
    have := stale_le p queue.enqueuePosition
    omega
  case popLoadSequence p | popExchange p =>
    have := stale_le p queue.dequeuePosition
    omega
  all_goals omega

/-- The cost depends on the two positions only. -/
lemma Pc.cost_congr {queue queue' : SharedQueue α} (others : ℕ) (pc : Pc α)
    (henqueue : queue'.enqueuePosition = queue.enqueuePosition)
    (hdequeue : queue'.dequeuePosition = queue.dequeuePosition) :
    pc.cost others queue' = pc.cost others queue := by
  cases pc <;> simp only [Pc.cost, henqueue, hdequeue]

/-- A claim makes the position of another thread stale at most. -/
lemma Pc.cost_claim_le (others : ℕ) (queue : SharedQueue α) (pc : Pc α) (p : ℕ) :
    pc.cost others (queue.setEnqueuePosition p) ≤ pc.cost others queue + 2 ∧
      pc.cost others (queue.setDequeuePosition p) ≤ pc.cost others queue + 2 := by
  cases pc <;> simp only [Pc.cost, SharedQueue.setEnqueuePosition_enqueuePosition,
    SharedQueue.setEnqueuePosition_dequeuePosition, SharedQueue.setDequeuePosition_enqueuePosition,
    SharedQueue.setDequeuePosition_dequeuePosition]
  case pushLoadSequence item p' | popLoadSequence p' | pushExchange item p' | popExchange p' =>
    have := stale_le p' p
    omega
  all_goals omega

variable [Fintype ι]

/-- What is left to pay by all threads. -/
def State.cost (s : State ι α) : ℕ :=
  ∑ t, (s.pc t).cost (Fintype.card ι - 1) s.queue

lemma State.cost_le (s : State ι α) :
    s.cost ≤ Fintype.card ι * (6 + 2 * (Fintype.card ι - 1)) := by
  calc s.cost ≤ ∑ _t : ι, (6 + 2 * (Fintype.card ι - 1)) :=
        Finset.sum_le_sum fun t _ => (s.pc t).cost_le _ _
    _ = _ := by rw [Finset.sum_const, Finset.card_univ, smul_eq_mul]

variable [DecidableEq ι]

/-- The payments after a step of one thread that costs each of the others at most
`d`. -/
lemma State.cost_move_le (s : State ι α) (t : ι) (queue : SharedQueue α) (pc : Pc α) (d : ℕ)
    (hother : ∀ t', t' ≠ t → (s.pc t').cost (Fintype.card ι - 1) queue ≤
      (s.pc t').cost (Fintype.card ι - 1) s.queue + d) :
    (s.move t queue pc).cost + (s.pc t).cost (Fintype.card ι - 1) s.queue ≤
      s.cost + pc.cost (Fintype.card ι - 1) queue + (Fintype.card ι - 1) * d := by
  have hcard : (Finset.univ.erase t).card = Fintype.card ι - 1 := by
    rw [Finset.card_erase_of_mem (Finset.mem_univ t), Finset.card_univ]
  have hold : s.cost = (s.pc t).cost (Fintype.card ι - 1) s.queue +
      ∑ t' ∈ Finset.univ.erase t, (s.pc t').cost (Fintype.card ι - 1) s.queue :=
    (Finset.add_sum_erase _ _ (Finset.mem_univ t)).symm
  have hnew : (s.move t queue pc).cost = pc.cost (Fintype.card ι - 1) queue +
      ∑ t' ∈ Finset.univ.erase t, (s.pc t').cost (Fintype.card ι - 1) queue := by
    rw [State.cost, ← Finset.add_sum_erase _ _ (Finset.mem_univ t)]
    congr 1
    · simp
    · refine Finset.sum_congr rfl ?_
      intro t' ht'
      simp [Function.update_of_ne (Finset.ne_of_mem_erase ht')]
  have hsum : ∑ t' ∈ Finset.univ.erase t, (s.pc t').cost (Fintype.card ι - 1) queue ≤
      ∑ t' ∈ Finset.univ.erase t, (s.pc t').cost (Fintype.card ι - 1) s.queue +
        (Fintype.card ι - 1) * d := by
    have hd : (Fintype.card ι - 1) * d = ∑ _t' ∈ Finset.univ.erase t, d := by
      rw [Finset.sum_const, hcard, smul_eq_mul]
    rw [hd, ← Finset.sum_add_distrib]
    exact Finset.sum_le_sum fun t' ht' => hother t' (Finset.ne_of_mem_erase ht')
  omega

/-! ### Every step is paid for -/

/-- What a choice of the environment adds to the payments: a call pays for its
operation, a spurious failure for the repetition. -/
def Choice.payment (others : ℕ) : Choice α → ℕ
  | .call _ => 7 + 2 * others
  | .run => 0
  | .spurious => 2

omit [Fintype ι] [DecidableEq ι] in
/-- A step pays for itself and for what it costs the other threads. -/
lemma cost_step {k : ℕ} {h : List (Event ι α)} {s : State ι α} (hinv : Invariant k h s)
    (hbound : s.queue.enqueuePosition < 2 ^ 63) {t : ι} {c : Choice α} {e : Event ι α}
    {queue : SharedQueue α} {pc : Pc α} (others : ℕ)
    (hs : threadStep s.queue t (s.pc t) c = some (e, queue, pc)) :
    ∃ d, pc.cost others queue + others * d + 1 ≤
        (s.pc t).cost others s.queue + c.payment others ∧
      ∀ pc' : Pc α, pc'.cost others queue ≤ pc'.cost others s.queue + d := by
  have hE := hinv.difference_enqueue hbound
  have hD := hinv.difference_dequeue hbound
  have hsame : ∀ pc' : Pc α, queue.enqueuePosition = s.queue.enqueuePosition →
      queue.dequeuePosition = s.queue.dequeuePosition →
      pc'.cost others queue ≤ pc'.cost others s.queue + 0 :=
    fun pc' h₁ h₂ => (pc'.cost_congr others h₁ h₂).le
  have htr := threadStep_inv hs
  generalize hpc : s.pc t = pc₀ at hs htr
  cases htr
  case pushClaim item =>
    refine ⟨2, ?_, fun pc' => (pc'.cost_claim_le others s.queue _).1⟩
    simp only [Pc.cost, stale_self]
    omega
  case popClaim =>
    refine ⟨2, ?_, fun pc' => (pc'.cost_claim_le others s.queue _).2⟩
    simp only [Pc.cost, stale_self]
    omega
  all_goals refine ⟨0, ?_, fun pc' => hsame pc' rfl rfl⟩
  case call operation =>
    cases c <;> simp only [threadStep, reduceCtorEq, Option.some.injEq, Prod.mk.injEq] at hs
    have hle := Pc.cost_le others s.queue operation.entry
    have hidle : Pc.cost others s.queue .idle = 0 := rfl
    rw [hidle, Choice.payment]
    omega
  case pushLost item p =>
    -- the position was stale, or the exchange failed spuriously
    cases c <;> simp only [threadStep, reduceCtorEq] at hs
    case run =>
      split at hs <;> cases hs
      rename_i hne
      simp only [Pc.cost, stale_self, stale_of_ne (Ne.symm hne), Choice.payment]
      omega
    case spurious =>
      simp only [Pc.cost, stale_self, Choice.payment]
      omega
  case popLost p =>
    cases c <;> simp only [threadStep, reduceCtorEq] at hs
    case run =>
      split at hs <;> cases hs
      rename_i hne
      simp only [Pc.cost, stale_self, stale_of_ne (Ne.symm hne), Choice.payment]
      omega
    case spurious =>
      simp only [Pc.cost, stale_self, Choice.payment]
      omega
  case pushRetry item p hd =>
    -- the loaded position is stale: the slot of the current one is not ahead
    have hne : p ≠ s.queue.enqueuePosition := by
      rintro rfl
      exact absurd hd (not_lt.mpr hE)
    simp only [Pc.cost, stale_of_ne hne]
    omega
  case popRetry p hd =>
    have hne : p ≠ s.queue.dequeuePosition := by
      rintro rfl
      exact absurd hd (not_lt.mpr hD)
    simp only [Pc.cost, stale_of_ne hne]
    omega
  all_goals
    simp only [Pc.cost, stale_self]
    omega

/-- What the choices of a run have added to the payments. -/
def payments (others : ℕ) (h : List ((ι × Choice α) × Event ι α)) : ℕ :=
  (h.map fun e => e.1.2.payment others).sum

omit [Fintype ι] [DecidableEq ι] in
lemma payments_snoc (others : ℕ) (h : List ((ι × Choice α) × Event ι α))
    (e : (ι × Choice α) × Event ι α) :
    payments others (h ++ [e]) = payments others h + e.1.2.payment others := by
  simp [payments]

omit [Fintype ι] in
/-- A thread inside of an operation can always take a step. -/
lemma isSome_step (s : State ι α) (t : ι) (ht : s.pc t ≠ .idle) :
    (machine.step s (t, .run)).isSome := by
  simp only [machine, Option.isSome_map]
  cases hpc : s.pc t
  case idle => exact absurd hpc ht
  case pushLoadClosed | pushExchange | popExchange =>
    simp only [threadStep]
    split <;> rfl
  case pushLoadSequence | popLoadSequence =>
    simp only [threadStep]
    split
    · rfl
    · split <;> rfl
  all_goals rfl

/-- **Lock freedom.**  From every reachable state, in every schedule of the
threads, the number of steps and what is left to pay stay within what was left to
pay and the payments of the calls and of the spurious failures since; what is
left to pay is bounded by the number of threads, and a thread inside of an
operation can always step.  So without new calls all operations in progress
return, and no schedule has many steps and few completed operations. -/
theorem queue_lock_free {k : ℕ} (hk : 1 ≤ k) (hk' : k ≤ 63) (zero : α)
    {h₁ : List (Event ι α)} {h₂ : List ((ι × Choice α) × Event ι α)} {s₁ s₂ : State ι α}
    (hrun₁ : machine.Run (State.create zero (2 ^ k)) h₁ s₁)
    (hrun₂ : machine.withChoices.Run s₁ h₂ s₂)
    (hbound : (pushClaims (h₁ ++ h₂.map Prod.snd)).length < 2 ^ 63) :
    h₂.length + s₂.cost ≤ s₁.cost + payments (Fintype.card ι - 1) h₂ ∧
      s₁.cost ≤ Fintype.card ι * (6 + 2 * (Fintype.card ι - 1)) ∧
      ∀ t, s₂.pc t ≠ .idle → (machine.step s₂ (t, .run)).isSome := by
  refine ⟨?_, s₁.cost_le, isSome_step s₂⟩
  refine hrun₂.invariant (P := fun h₂ s₂ => (pushClaims (h₁ ++ h₂.map Prod.snd)).length < 2 ^ 63 →
    h₂.length + s₂.cost ≤ s₁.cost + payments (Fintype.card ι - 1) h₂)
    (fun _ => by simp [payments]) ?_ hbound
  rintro h s ⟨t, c⟩ e s' hrun ih hs hbound
  rw [List.map_append, ← List.append_assoc, pushClaims_append, List.length_append] at hbound
  have hinv := Invariant.run hk hk' (hrun₁.trans hrun.of_withChoices) (by omega)
  obtain ⟨hc, hs⟩ := Machine.step_of_withChoices hs
  obtain ⟨⟨e', queue, pc⟩, hs', heq⟩ := Option.map_eq_some_iff.mp hs
  obtain ⟨-, rfl⟩ := Prod.mk.inj heq
  obtain ⟨d, hself, hother⟩ := cost_step hinv (by rw [hinv.enqueue_eq]; omega)
    (Fintype.card ι - 1) hs'
  have hmove := s.cost_move_le t queue pc d fun t' _ => hother (s.pc t')
  have hih := ih (by omega)
  rw [List.length_append, payments_snoc, hc]
  simp only [List.length_singleton]
  omega

/-- Two threads push; the schedule makes the first one lose its exchange twice,
to a claim and to a spurious failure. -/
theorem queue_lock_free_contended :
    let calls : List (Bool × Choice ℕ) := [(true, .call (.push 1)), (false, .call (.push 2))]
    let schedule : List (Bool × Choice ℕ) :=
      List.replicate 3 (true, .run) ++ List.replicate 6 (false, .run) ++
        [(true, .run), (true, .run), (true, .spurious)] ++ List.replicate 4 (true, .run)
    let s₁ := (machine.exec (State.create 0 (2 ^ 1)) calls).2
    let r := machine.withChoices.exec s₁ schedule
    s₁.cost = 16 ∧ r.1.length = 16 ∧ r.1.length + r.2.cost ≤ s₁.cost + payments 1 r.1 := by
  intro calls schedule s₁ r
  refine ⟨by decide, by decide, ?_⟩
  exact (queue_lock_free le_rfl (by norm_num) 0 (machine.run_exec (State.create 0 (2 ^ 1)) calls)
    (machine.withChoices.run_exec s₁ schedule) (by decide)).1

end BcConcurrency.Queue
