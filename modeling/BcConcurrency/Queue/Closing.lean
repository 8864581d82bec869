import BcConcurrency.Queue.Drain

/-!
# Closing a queue while pushes are in flight

A push looks at the closed flag once, before its loop.  Close therefore stops the
pushes that are called after it, and those that have been called and not yet looked
at the flag; a push that has passed its check still claims a position.  Once these
pushes have returned, the queue only drains.
-/

namespace BcConcurrency.Queue

variable {ι α : Type*}

/-! ### The barrier -/

/-- Close as a barrier for producers: once it has returned no push claims a position,
and once a consumer has seen the flag and its next pop has failed the queue is
drained for good. -/
structure CloseBarrier (h : List (Event ι α)) : Prop where
  noClaim : ∀ h₁ h₂ t, h = h₁ ++ .closeReturn t :: h₂ → ∀ t' p item, .claimPush t' p item ∉ h₂
  popsFail : ∀ h₁ h₂ h₃ h₄ t t',
    h = h₁ ++ .isClosedReturn t true :: h₂ ++ .popFalse t :: h₃ ++ .call t' .pop :: h₄ →
    ∀ p item, .popTrue t' p item ∉ h₄
  noneStranded : ∀ h₁ h₂ h₃ t, h = h₁ ++ .isClosedReturn t true :: h₂ ++ .popFalse t :: h₃ →
    ∀ t' p item, .pushTrue t' p item ∈ h → ∃ t'', .claimPop t'' p ∈ h

/-- The queue is drained for good after the first part of a history: no pop claims a
position any more, no later pop returns an item, and every item that a push ever
stores has been claimed by a pop. -/
structure DrainedAfter (h₁ h₂ : List (Event ι α)) : Prop where
  noClaim : ∀ t p, .claimPop t p ∉ h₂
  popsFail : ∀ h₃ h₄ t, h₂ = h₃ ++ .call t .pop :: h₄ → ∀ p item, .popTrue t p item ∉ h₄
  noneStranded : ∀ t p item, .pushTrue t p item ∈ h₁ ++ h₂ → ∃ t', .claimPop t' p ∈ h₁

/-- Close has returned, or a call of is_closed has returned true. -/
def ClosedSeen (h : List (Event ι α)) : Prop :=
  (∃ t, .closeReturn t ∈ h) ∨ ∃ t, .isClosedReturn t true ∈ h

/-! ### Past the closed check -/

/-- The thread is in a push and has passed the closed check. -/
def Pc.pastCheck : Pc α → Bool
  | .pushLoadClosed _ => false
  | pc => pc.inPush

lemma Pc.pastCheck_of_pushing {pc : Pc α} {p : ℕ} (hp : pc.pushing = some p) :
    pc.pastCheck = true := by
  cases pc <;> simp_all [pushing, pastCheck, inPush]

/-- On a closed queue no thread passes the check. -/
lemma Transition.pastCheck_of_closed {queue queue' : SharedQueue α} {t : ι} {pc pc' : Pc α}
    {e : Event ι α} (hs : Transition queue t pc e queue' pc') (hclosed : queue.closed = true)
    (hpast : pc'.pastCheck = true) : pc.pastCheck = true ∧ e.isPushCall = false := by
  cases hs
  case call operation => cases operation <;> simp [Operation.entry, Pc.pastCheck, Pc.inPush] at hpast
  case pushOpen hopen => simp [hopen] at hclosed
  all_goals first | exact ⟨rfl, rfl⟩ | simp [Pc.pastCheck, Pc.inPush] at hpast

variable [DecidableEq ι]

/-- The event is a call of push by the thread. -/
def Event.isPushCallOf (t : ι) : Event ι α → Bool
  | .call t' (.push _) => t' = t
  | _ => false

lemma Event.isPushCallOf_of_not {t : ι} {e : Event ι α} (he : e.isPushCall = false) :
    e.isPushCallOf t = false := by
  unfold isPushCall at he
  split at he <;> simp_all [isPushCallOf]

lemma Transition.isPushCallOf_of_ne {queue queue' : SharedQueue α} {t t' : ι} {pc pc' : Pc α}
    {e : Event ι α} (hs : Transition queue t' pc e queue' pc') (ht : t' ≠ t) :
    e.isPushCallOf t = false := by
  cases hs
  case call operation => cases operation <;> simp [Event.isPushCallOf, ht]
  all_goals rfl

section Run

variable {k : ℕ} {h h₁ h₂ : List (Event ι α)} {s s₁ : State ι α} {zero : α}

lemma closed_run (hrun : machine.Run s₁ h s) (hclosed : s₁.queue.closed = true) :
    s.queue.closed = true := by
  induction hrun with
  | nil => exact hclosed
  | snoc _ hs ih =>
    obtain ⟨t, queue, pc, htr, rfl⟩ := step_inv hs
    exact htr.closed_mono ih

/-- A thread past the check has been so since the queue was closed. -/
lemma pastCheck_run (hrun : machine.Run s₁ h s) (hclosed : s₁.queue.closed = true) {t : ι}
    (hpast : (s.pc t).pastCheck = true) :
    (s₁.pc t).pastCheck = true ∧ ∀ e ∈ h, e.isPushCallOf t = false := by
  induction hrun with
  | nil => exact ⟨hpast, by simp⟩
  | @snoc h s s' c e hrun hs ih =>
    obtain ⟨t', queue, pc, htr, rfl⟩ := step_inv hs
    have hclosed' := closed_run hrun hclosed
    by_cases ht : t = t'
    · subst ht
      rw [State.move_pc, Function.update_self] at hpast
      obtain ⟨hpast', hcall⟩ := htr.pastCheck_of_closed hclosed' hpast
      obtain ⟨hpast₁, hcalls⟩ := ih hpast'
      refine ⟨hpast₁, ?_⟩
      intro e' he
      rcases List.mem_append.mp he with hold | hnew
      · exact hcalls e' hold
      · rw [List.mem_singleton.mp hnew]
        exact Event.isPushCallOf_of_not hcall
    · rw [State.move_pc, Function.update_of_ne ht] at hpast
      obtain ⟨hpast₁, hcalls⟩ := ih hpast
      refine ⟨hpast₁, ?_⟩
      intro e' he
      rcases List.mem_append.mp he with hold | hnew
      · exact hcalls e' hold
      · rw [List.mem_singleton.mp hnew]
        exact htr.isPushCallOf_of_ne (Ne.symm ht)

/-- The flag is set in every state in which it has been seen. -/
lemma closed_of_closedSeen (hrun : machine.Run (State.create zero (2 ^ k)) h s)
    (hseen : ClosedSeen h) : s.queue.closed = true := by
  rcases hseen with ⟨t, he⟩ | ⟨t, he⟩
  · obtain ⟨h₁, h₂, rfl⟩ := List.append_of_mem he
    obtain ⟨s₁, c, s₂, -, hs, hrun₂⟩ := hrun.split_event
    obtain ⟨t', queue, pc, htr, rfl⟩ := step_inv hs
    refine closed_run hrun₂ ?_
    generalize s₁.pc t' = pc₀ at htr
    cases htr
    rfl
  · obtain ⟨h₁, h₂, rfl⟩ := List.append_of_mem he
    obtain ⟨s₁, c, s₂, -, hs, hrun₂⟩ := hrun.split_event
    obtain ⟨t', queue, pc, htr, rfl⟩ := step_inv hs
    refine closed_run hrun₂ ?_
    generalize s₁.pc t' = pc₀ at htr
    generalize true = closed at htr
    cases htr
    rfl

/-- Once the queue is closed, only pushes that are in flight claim positions. -/
lemma inFlight_of_claimPush (hrun : machine.Run s₁ h s) (hclosed : s₁.queue.closed = true) {t : ι}
    {p : ℕ} {item : α} (hh : h = h₁ ++ .claimPush t p item :: h₂) :
    (s₁.pc t).pastCheck = true ∧ ∀ e ∈ h₁, e.isPushCallOf t = false := by
  subst hh
  obtain ⟨s₂, c, s₃, hrun₁, hs, -⟩ := hrun.split_event
  obtain ⟨t', queue, pc, htr, rfl⟩ := step_inv hs
  have hpast : (s₂.pc t).pastCheck = true := by
    generalize hpc : s₂.pc t' = pc₀ at htr
    cases htr
    rw [hpc]
    rfl
  exact pastCheck_run hrun₁ hclosed hpast

/-- Where all claimed positions have been claimed by pops and no push claims a position
any more, the queue is drained for good. -/
lemma drainedAfter (hk : 1 ≤ k) (hk' : k ≤ 63)
    (hrun₁ : machine.Run (State.create zero (2 ^ k)) h₁ s₁) (hrun₂ : machine.Run s₁ h₂ s)
    (hbound : (pushClaims (h₁ ++ h₂)).length < 2 ^ 63)
    (hpush : ∀ t p item, .claimPush t p item ∉ h₂)
    (hempty : s₁.queue.dequeuePosition = s₁.queue.enqueuePosition) : DrainedAfter h₁ h₂ := by
  have hpushes : pushClaims h₂ = [] := by
    refine List.eq_nil_iff_forall_not_mem.mpr ?_
    rintro ⟨p, item⟩ hmem
    obtain ⟨t, he⟩ := mem_pushClaims.mp hmem
    exact hpush t p item he
  have hinv₁ := Invariant.run hk hk' hrun₁ (by
    rwa [pushClaims_append, hpushes, List.append_nil] at hbound)
  have hinv := Invariant.run hk hk' (hrun₁.trans hrun₂) hbound
  have hled := Ledger.run hk hk' (hrun₁.trans hrun₂) hbound
  have hE : s.queue.enqueuePosition = s₁.queue.enqueuePosition := by
    rw [hinv.enqueue_eq, hinv₁.enqueue_eq, pushClaims_append, hpushes, List.append_nil]
  -- the queue was empty and gets no item, so there is nothing to claim
  have hpops : popClaims h₂ = [] := by
    have hle := hinv.dequeue_le
    have hD := congrArg List.length hinv.popPositions
    have hD₁ := congrArg List.length hinv₁.popPositions
    rw [popClaims_append, List.length_append, List.length_range] at hD
    rw [List.length_range] at hD₁
    exact List.eq_nil_of_length_eq_zero (by omega)
  have hnoClaim : ∀ t p, .claimPop t p ∉ h₂ := by
    intro t p he
    have hmem := mem_popClaims.mpr ⟨t, he⟩
    rw [hpops] at hmem
    cases hmem
  constructor
  case noClaim => exact hnoClaim
  case popsFail =>
    rintro h₃ h₄ t rfl p item he
    have hrun := hrun₁.trans hrun₂
    rw [← List.append_assoc] at hrun hled hbound
    obtain ⟨s₂, c, s₃, hrun₃, hs, -⟩ := hrun.split_event
    obtain ⟨t', queue, pc, htr, -⟩ := step_inv hs
    rw [pushClaims_append, List.length_append] at hbound
    have hled₂ := Ledger.run hk hk' hrun₃ (by omega)
    have hidle : s₂.pc t = .idle := by
      generalize hpc : s₂.pc t' = pc₀ at htr
      cases htr
      exact hpc
    have hclaim : .claimPop t p ∈ h₁ ++ h₃ := by
      have hmem := (hled.popTrue t p item (List.mem_append_right _ (.tail _ he))).1
      rw [List.append_assoc] at hmem
      rcases List.mem_append.mp hmem with hold | hnew
      · exact List.mem_append_left _ hold
      · exact absurd hnew (hnoClaim t p)
    rcases hled₂.popped t p hclaim with hpop | ⟨item', hret⟩
    · simp [hidle, Pc.popping] at hpop
    · have hnodup := hled.popReturns_nodup
      rw [popReturns, List.filterMap_append, List.nodup_append] at hnodup
      exact hnodup.2.2 p (mem_popReturns.mpr ⟨t, item', hret⟩) p
        (mem_popReturns.mpr ⟨t, item, .tail _ he⟩) rfl
  case noneStranded =>
    intro t p item he
    have hclaim := mem_pushClaims.mpr ⟨t, (hled.pushTrue t p item he).1⟩
    have hlt : p ∈ (pushClaims (h₁ ++ h₂)).map Prod.fst := List.mem_map_of_mem hclaim
    rw [hinv.pushPositions, hE, ← hempty, ← hinv₁.popPositions] at hlt
    exact mem_popClaims.mp hlt

/-- **Closing a queue.**  Once close has returned, only a push that had passed its closed
check by then claims a position, and it does so before it is called again.  Where no
push is past its check the queue only drains: no push claims a position any more, and
a pop that fails has drained it for good. -/
theorem queue_close_stops_later_pushes (hk : 1 ≤ k) (hk' : k ≤ 63)
    (hrun₁ : machine.Run (State.create zero (2 ^ k)) h₁ s₁) (hrun₂ : machine.Run s₁ h₂ s)
    (hseen : ClosedSeen h₁) :
    (∀ h₃ h₄ t p item, h₂ = h₃ ++ .claimPush t p item :: h₄ →
        (s₁.pc t).pastCheck = true ∧ ∀ e ∈ h₃, e.isPushCallOf t = false) ∧
      ((∀ t, (s₁.pc t).pastCheck = false) →
        (∀ t p item, .claimPush t p item ∉ h₂) ∧
          ((pushClaims (h₁ ++ h₂)).length < 2 ^ 63 → ∀ h₃ h₄ t, h₂ = h₃ ++ .popFalse t :: h₄ →
            DrainedAfter (h₁ ++ h₃) (.popFalse t :: h₄))) := by
  have hclosed := closed_of_closedSeen hrun₁ hseen
  have hinFlight : ∀ h₃ h₄ t p item, h₂ = h₃ ++ .claimPush t p item :: h₄ →
      (s₁.pc t).pastCheck = true ∧ ∀ e ∈ h₃, e.isPushCallOf t = false :=
    fun h₃ h₄ t p item hh => inFlight_of_claimPush hrun₂ hclosed hh
  refine ⟨hinFlight, ?_⟩
  intro hnone
  have hpush : ∀ t p item, .claimPush t p item ∉ h₂ := by
    intro t p item he
    obtain ⟨h₃, h₄, hh⟩ := List.append_of_mem he
    exact absurd (hinFlight h₃ h₄ t p item hh).1 (by simp [hnone t])
  refine ⟨hpush, ?_⟩
  rintro hbound h₃ h₄ t rfl
  obtain ⟨s₂, c, s₃, hrun₃, hs, hrun₄⟩ := hrun₂.split_event
  rw [← List.append_assoc] at hbound
  have hlen := hbound
  rw [pushClaims_append, List.length_append] at hlen
  have hinv := Invariant.run hk hk' (hrun₁.trans hrun₃) (by omega)
  refine drainedAfter hk hk' (hrun₁.trans hrun₃) (.cons hs hrun₄) hbound
    (fun t p item he => hpush t p item (List.mem_append_right _ he)) ?_
  -- no push is in its copy phase, so the failing pop has found the queue empty
  have hcopying : ∀ t, (s₂.pc t).pushing = none := by
    intro t
    refine Option.eq_none_iff_forall_not_mem.mpr ?_
    intro p hp
    have hpast := (pastCheck_run hrun₃ hclosed (Pc.pastCheck_of_pushing hp)).1
    simp [hnone t] at hpast
  obtain ⟨t', queue, pc, htr, -⟩ := step_inv hs
  have hknows := hinv.knows t'
  generalize s₂.pc t' = pc₀ at htr hknows
  cases htr
  case popEmpty p hd =>
    exact hinv.empty_of_popEmpty hk' (by rw [hinv.enqueue_eq]; omega) hcopying hknows hd

/-- A producer pushes and closes, a consumer pops the item and then fails. -/
theorem queue_close_stops_later_pushes_handover :
    let producing : List (Bool × Choice ℕ) := (true, .call (.push 7)) ::
      List.replicate 6 (true, .run) ++ [(true, .call .close), (true, .run)]
    let consuming : List (Bool × Choice ℕ) := (false, .call .pop) ::
      List.replicate 5 (false, .run) ++ (false, .call .pop) :: List.replicate 2 (false, .run)
    let r₁ := machine.exec (State.create 0 (2 ^ 1)) producing
    let r₂ := machine.exec r₁.2 consuming
    DrainedAfter (r₁.1 ++ r₂.1.take 8) (.popFalse false :: r₂.1.drop 9) := by
  intro producing consuming r₁ r₂
  exact ((queue_close_stops_later_pushes le_rfl (by norm_num)
    (machine.run_exec (State.create 0 (2 ^ 1)) producing) (machine.run_exec r₁.2 consuming)
    (Or.inl ⟨true, by decide⟩)).2 (by decide)).2 (by decide)
    (r₂.1.take 8) (r₂.1.drop 9) false (by decide)

end Run

/-- A push passes its closed check, the queue is closed, a consumer sees the flag and
finds the queue empty, and then the push claims a position and stores its item. -/
def closedBehind : List (Fin 3 × Choice ℕ) :=
  [(0, .call (.push 7)), (0, .run), (1, .call .close), (1, .run), (2, .call .isClosed), (2, .run),
    (2, .call .pop)] ++ List.replicate 2 (2, .run) ++ List.replicate 5 (0, .run)

/-- Close is no barrier for a push that has passed its closed check: its item is left in
the queue behind the last pop. -/
theorem queue_close_not_barrier :
    let h := (machine.exec (State.create 0 (2 ^ 1)) closedBehind).1
    (∃ s, machine.Run (State.create 0 (2 ^ 1)) h s) ∧ ¬ CloseBarrier h ∧
      h[3]? = some (.closeReturn 1) ∧ h[5]? = some (.isClosedReturn 2 true) ∧
      h[8]? = some (.popFalse 2) ∧ h[11]? = some (.claimPush 0 0 7) ∧
      h[13]? = some (.pushTrue 0 0 7) ∧ popClaims h = [] := by
  refine ⟨⟨_, machine.run_exec _ _⟩, ?_, by decide⟩
  intro hbarrier
  exact hbarrier.noClaim ((machine.exec (State.create 0 (2 ^ 1)) closedBehind).1.take 3) _ 1 rfl
    0 0 7 (by decide)

end BcConcurrency.Queue
