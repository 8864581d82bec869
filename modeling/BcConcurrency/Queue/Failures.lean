import BcConcurrency.Queue.Drain

/-!
# What a failed operation says

On an open queue a push fails because the slot of the next free position is still
in use, a pop because the slot of the next position is not filled.  That the queue
is full or empty at that moment is one reason; the other is an operation that has
claimed the slot and not completed, while others have overtaken it.
-/

namespace BcConcurrency.Queue

variable {ι α : Type*}

/-! ### Items held and items ready -/

/-- The position of a push that has returned true. -/
def Event.pushReturn : Event ι α → Option ℕ
  | .pushTrue _ position _ => some position
  | _ => none

/-- The positions of the pushes that have returned true. -/
def pushReturns (h : List (Event ι α)) : List ℕ := h.filterMap Event.pushReturn

/-- The positions that are held: claimed by a push, and not given back by a pop
that has completed. -/
def heldPositions (h : List (Event ι α)) : List ℕ :=
  ((pushClaims h).map Prod.fst).filter fun p => p ∉ popReturns h

/-- The positions that are ready: their push has returned true, and no pop has
claimed them. -/
def readyPositions (h : List (Event ι α)) : List ℕ :=
  (pushReturns h).filter fun p => p ∉ popClaims h

lemma pushReturns_snoc (h : List (Event ι α)) (e : Event ι α) :
    pushReturns (h ++ [e]) = pushReturns h ++ e.pushReturn.toList := by
  cases he : e.pushReturn <;> simp [pushReturns, he]

lemma mem_pushReturns {h : List (Event ι α)} {p : ℕ} :
    p ∈ pushReturns h ↔ ∃ t item, .pushTrue t p item ∈ h := by
  simp only [pushReturns, List.mem_filterMap]
  constructor
  · rintro ⟨e, he, hp⟩
    cases e <;> simp only [Event.pushReturn, Option.some.injEq, reduceCtorEq] at hp
    subst hp
    exact ⟨_, _, he⟩
  · rintro ⟨t, item, he⟩
    exact ⟨_, he, rfl⟩

/-! ### Instants of a call -/

variable [DecidableEq ι]

/-- The event is a call by the thread. -/
def Event.isCallOf (t : ι) : Event ι α → Bool
  | .call t' _ => t' = t
  | _ => false

/-- At some instant since the last call by the thread the history had the property.
Where `h` ends before the return of an operation, these are the instants of its call. -/
def SomeInstant (t : ι) (h : List (Event ι α)) (P : List (Event ι α) → Prop) : Prop :=
  ∃ n ≤ h.length, (∀ e ∈ h.drop n, e.isCallOf t = false) ∧ P (h.take n)

instance (t : ι) (h : List (Event ι α)) (P : List (Event ι α) → Prop) [DecidablePred P] :
    Decidable (SomeInstant t h P) :=
  inferInstanceAs (Decidable (∃ n ≤ h.length, _))

lemma SomeInstant.last {t : ι} {h : List (Event ι α)} {P : List (Event ι α) → Prop} (hP : P h) :
    SomeInstant t h P :=
  ⟨h.length, le_rfl, by simp, by simpa using hP⟩

/-- No thread has called close. -/
def StaysOpen (h : List (Event ι α)) : Prop := ∀ t, .call t .close ∉ h

/-- A push returns false only if `c` items were held at some instant of its call. -/
def PushFailsFull (c : ℕ) (h : List (Event ι α)) : Prop :=
  ∀ n t, h[n]? = some (.pushFalse t) →
    SomeInstant t (h.take n) fun h' => (heldPositions h').length = c

/-- A pop returns false only if no item was ready at some instant of its call. -/
def PopFailsEmpty (h : List (Event ι α)) : Prop :=
  ∀ n t, h[n]? = some (.popFalse t) → SomeInstant t (h.take n) fun h' => readyPositions h' = []

/-- A push returns false only if at some instant of its call `c` items were held or
a pop had claimed the position `c` places before the next free one and not completed. -/
def PushFailsOvertaken (c : ℕ) (h : List (Event ι α)) : Prop :=
  ∀ n t, h[n]? = some (.pushFalse t) → SomeInstant t (h.take n) fun h' =>
    (heldPositions h').length = c ∨
      ∃ p, p + c = (pushClaims h').length ∧ p ∈ popClaims h' ∧ p ∉ popReturns h'

/-- A pop returns false only if at some instant of its call no item was ready or a
push had claimed the next position to be popped and not completed. -/
def PopFailsOvertaken (h : List (Event ι α)) : Prop :=
  ∀ n t, h[n]? = some (.popFalse t) → SomeInstant t (h.take n) fun h' =>
    readyPositions h' = [] ∨ ∃ item, ((popClaims h').length, item) ∈ pushClaims h' ∧
      (popClaims h').length ∉ pushReturns h'

/-! ### What a failed push has seen -/

namespace Invariant

variable {k : ℕ} {h : List (Event ι α)} {s : State ι α}

omit [DecidableEq ι] in
/-- The sequence word of a position that a push has claimed is not behind it, and less
than `2 ^ 63` ahead while the positions of the next lap stay within `2 ^ 63`. -/
lemma slotSequence_near (hinv : Invariant k h s)
    (hbound : s.queue.enqueuePosition + 2 ^ k ≤ 2 ^ 63) {p : ℕ} (hp : p < s.queue.enqueuePosition) :
    p ≤ s.queue.slotSequence p ∧ s.queue.slotSequence p < 2 ^ 63 := by
  have hDE := hinv.dequeue_le
  have hpos : 0 < 2 ^ k := by positivity
  -- the slot of `p` is also the slot of one position of the window
  obtain ⟨b, hDb, hbD, hmod⟩ := Ring.exists_representative hpos p s.queue.dequeuePosition
  have hle : p = b ∨ p + 2 ^ k ≤ b := by
    rcases lt_trichotomy p b with hlt | heq | hgt
    · exact Or.inr (Ring.add_le_of_mod_eq hmod.symm hlt)
    · exact Or.inl heq
    · have hE := hinv.enqueue_le
      have := Ring.add_le_of_mod_eq hmod hgt
      omega
  rw [hinv.slotSequence_congr hmod.symm]
  have := hinv.slotSequence_of_window hDb hbD
  omega

omit [DecidableEq ι] in
/-- A push that finds its slot behind has the current position; every slot is in use
or a pop is still in the copy phase of the slot. -/
lemma cases_of_pushFull (hinv : Invariant k h s)
    (hbound : s.queue.enqueuePosition + 2 ^ k ≤ 2 ^ 63) {p : ℕ} (hp : p ≤ s.queue.enqueuePosition)
    (hd : signedDifference (s.queue.slotSequence p) p < 0) :
    s.queue.enqueuePosition = s.queue.dequeuePosition + 2 ^ k ∨
      ∃ t p', s.queue.enqueuePosition = p' + 2 ^ k ∧ (s.pc t).popping = some p' := by
  rcases hp.lt_or_eq with hlt | rfl
  · obtain ⟨hle, hnear⟩ := hinv.slotSequence_near hbound hlt
    rw [signedDifference_of_near (by omega) (by omega)] at hd
    omega
  · rcases hinv.enqueue_le.lt_or_eq with hlt | heq
    · rcases hinv.free _ le_rfl hlt with hs | hpop
      · rw [hs, signedDifference_of_near (by omega) (by omega)] at hd
        omega
      · exact Or.inr hpop
    · exact Or.inl heq

/-! ### The same in the history -/

omit [DecidableEq ι] in
lemma dequeue_eq (hinv : Invariant k h s) : s.queue.dequeuePosition = (popClaims h).length := by
  rw [hinv.popPositions, List.length_range]

omit [DecidableEq ι] in
lemma mem_popClaims_iff (hinv : Invariant k h s) {p : ℕ} :
    p ∈ popClaims h ↔ p < s.queue.dequeuePosition := by
  rw [hinv.popPositions, List.mem_range]

omit [DecidableEq ι] in
/-- Where every slot is in use, the positions held are those of the window. -/
lemma heldPositions_length_of_full (hinv : Invariant k h s) (hled : Ledger h s)
    (hfull : s.queue.enqueuePosition = s.queue.dequeuePosition + 2 ^ k) :
    (heldPositions h).length = 2 ^ k := by
  -- a pop still under way would hold the counter of the pushes back
  have hreturned : ∀ p, p ∈ popReturns h ↔ p < s.queue.dequeuePosition := by
    intro p
    constructor
    · intro hp
      obtain ⟨t, item, he⟩ := mem_popReturns.mp hp
      exact hinv.mem_popClaims_iff.mp (mem_popClaims.mpr ⟨t, (hled.popTrue t p item he).1⟩)
    · intro hp
      obtain ⟨t, hclaim⟩ := mem_popClaims.mp (hinv.mem_popClaims_iff.mpr hp)
      rcases hled.popped t p hclaim with hpop | ⟨item, he⟩
      · have := (hinv.knows_of_popping hpop).2.1
        omega
      · exact mem_popReturns.mpr ⟨t, item, he⟩
  simp only [heldPositions, hinv.pushPositions, hreturned, hfull, List.range_add, List.filter_append]
  rw [List.filter_eq_nil_iff.mpr (by simp), List.filter_eq_self.mpr (by simp)]
  simp

omit [DecidableEq ι] in
/-- A push that has returned had claimed its position. -/
lemma lt_of_mem_pushReturns (hinv : Invariant k h s) (hled : Ledger h s) {p : ℕ}
    (hp : p ∈ pushReturns h) : p < s.queue.enqueuePosition := by
  obtain ⟨t, item, he⟩ := mem_pushReturns.mp hp
  have hmem : p ∈ (pushClaims h).map Prod.fst :=
    List.mem_map_of_mem (mem_pushClaims.mpr ⟨t, (hled.pushTrue t p item he).1⟩)
  rwa [hinv.pushPositions, List.mem_range] at hmem

omit [DecidableEq ι] in
/-- Where all claimed positions have been claimed by pops, no item is ready. -/
lemma readyPositions_eq_nil (hinv : Invariant k h s) (hled : Ledger h s)
    (hempty : s.queue.dequeuePosition = s.queue.enqueuePosition) : readyPositions h = [] := by
  refine List.filter_eq_nil_iff.mpr ?_
  intro p hp
  have hlt := hinv.lt_of_mem_pushReturns hled hp
  simpa [hinv.mem_popClaims_iff, hempty] using hlt

end Invariant

/-! ### Every run -/

section Run

variable {k : ℕ} {h : List (Event ι α)} {s : State ι α} {zero : α}

/-- A push in its copy phase has not returned. -/
lemma pushing_not_mem (hk : 1 ≤ k) (hk' : k ≤ 63)
    (hrun : machine.Run (State.create zero (2 ^ k)) h s)
    (hbound : (pushClaims h).length < 2 ^ 63) {t : ι} {p : ℕ} (hp : (s.pc t).pushing = some p) :
    p ∉ pushReturns h := by
  induction hrun generalizing t p with
  | nil => cases hp
  | @snoc h s s' c e hrun hs ih =>
    have hlen : (pushClaims h).length < 2 ^ 63 := by
      rw [pushClaims_snoc, List.length_append] at hbound
      omega
    have hinv := Invariant.run hk hk' hrun hlen
    have hled := Ledger.run hk hk' hrun hlen
    obtain ⟨t', queue, pc, htr, rfl⟩ := step_inv hs
    -- a thread that does not move was already between its claim and its store
    have hold : t ≠ t' → (s.pc t).pushing = some p := fun ht => by
      simpa [Function.update_of_ne ht] using hp
    rw [pushReturns_snoc, List.mem_append, not_or]
    by_cases ht : t = t'
    · subst ht
      simp only [State.move_pc, Function.update_self] at hp
      generalize hpc : s.pc t = pc₀ at htr
      cases htr <;> simp only [Pc.pushing, Option.some.injEq, reduceCtorEq] at hp
      case call operation => cases operation <;> simp [Operation.entry] at hp
      case pushClaim =>
        subst hp
        refine ⟨?_, by simp [Event.pushReturn]⟩
        intro hmem
        exact absurd (hinv.lt_of_mem_pushReturns hled hmem) (lt_irrefl _)
      case pushCopied =>
        subst hp
        exact ⟨ih hlen (t := t) (by simp [hpc, Pc.pushing]), by simp [Event.pushReturn]⟩
    · refine ⟨ih hlen (hold ht), ?_⟩
      generalize hpc : s.pc t' = pc₀ at htr
      cases htr <;> simp only [Event.pushReturn, Option.toList_none, List.not_mem_nil,
        not_false_eq_true, Option.toList_some, List.mem_singleton]
      rintro rfl
      exact ht (hinv.pushing_unique t t' _ (hold ht) (by simp [hpc, Pc.pushing]))

/-- The step that produced an event of a history, with the history before it. -/
lemma step_of_getElem? (hrun : machine.Run (State.create zero (2 ^ k)) h s) {n : ℕ}
    {e : Event ι α} (he : h[n]? = some e) :
    ∃ s₁ t queue pc, machine.Run (State.create zero (2 ^ k)) (h.take n) s₁ ∧
      Transition s₁.queue t (s₁.pc t) e queue pc := by
  obtain ⟨hn, rfl⟩ := List.getElem?_eq_some_iff.mp he
  have hsplit : h = h.take n ++ h[n] :: h.drop (n + 1) := by simp
  rw [hsplit] at hrun
  obtain ⟨s₁, c, s₂, hrun₁, hs, -⟩ := hrun.split_event
  obtain ⟨t, queue, pc, htr, -⟩ := step_inv hs
  exact ⟨s₁, t, queue, pc, hrun₁, htr⟩

omit [DecidableEq ι] in
lemma length_pushClaims_take (h : List (Event ι α)) (n : ℕ) :
    (pushClaims (h.take n)).length ≤ (pushClaims h).length := by
  conv_rhs => rw [← List.take_append_drop n h, pushClaims_append, List.length_append]
  exact Nat.le_add_right _ _

/-- **Failing queue operations.**  In every run on an open queue in which the claimed
positions and one more lap stay within `2 ^ 63`, a push fails only if the queue held
`2 ^ k` items or a pop had claimed the position a lap before the next free one and not
completed, and a pop fails only if no item was ready or the push of the next position
had not completed; this at an instant of the failing call. -/
theorem queue_failures_overtaken (hk : 1 ≤ k) (hk' : k ≤ 63)
    (hrun : machine.Run (State.create zero (2 ^ k)) h s)
    (hbound : (pushClaims h).length + 2 ^ k ≤ 2 ^ 63) (hopen : StaysOpen h) :
    PushFailsOvertaken (2 ^ k) h ∧ PopFailsOvertaken h := by
  have hpos : 0 < 2 ^ k := by positivity
  refine ⟨?_, ?_⟩ <;> intro n t he <;> refine .last ?_ <;>
    obtain ⟨s₁, t', queue, pc, hrun₁, htr⟩ := step_of_getElem? hrun he <;>
    have hlen := length_pushClaims_take h n <;>
    have hinv := Invariant.run hk hk' hrun₁ (by omega) <;>
    have hled := Ledger.run hk hk' hrun₁ (by omega) <;>
    have hE := hinv.enqueue_eq <;>
    have hknows := hinv.knows t' <;>
    generalize hpc : s₁.pc t' = pc₀ at htr hknows
  · cases htr
    case pushClosed hclosed =>
      obtain ⟨t'', hclose⟩ := (Sessions.run hrun₁).closed hclosed
      exact absurd (List.mem_of_mem_take hclose) (hopen t'')
    case pushFull item p hd =>
      rcases hinv.cases_of_pushFull (by omega) hknows hd with hfull | ⟨t'', p', hp', hpop⟩
      · exact Or.inl (hinv.heldPositions_length_of_full hled hfull)
      · refine Or.inr ⟨p', by rw [← hE, hp'], ?_, hled.popping_not_mem t'' p' hpop⟩
        exact hinv.mem_popClaims_iff.mpr (hinv.knows_of_popping hpop).1
  · cases htr
    case popEmpty p hd =>
      rcases hinv.cases_of_popEmpty hk' (by omega) hknows hd with hempty | ⟨t'', hpush⟩
      · exact Or.inl (hinv.readyPositions_eq_nil hled hempty)
      · rw [← hinv.dequeue_eq]
        obtain ⟨t₀, item, hclaim⟩ := hinv.exists_claimPush (hinv.knows_of_pushing hpush).2.1
        exact Or.inr ⟨item, mem_pushClaims.mpr ⟨t₀, hclaim⟩,
          pushing_not_mem hk hk' hrun₁ (by omega) hpush⟩

/-- The numerals for three threads. -/
local instance neZeroThree : NeZero 3 := ⟨by decide⟩

/-- Two slots.  A push fails while one item is held: the pop of position 0 has stalled,
that of position 1 has completed. -/
def pushOvertaken : List (Fin 3 × Choice ℕ) :=
  (0, .call (.push 1)) :: List.replicate 6 (0, .run) ++
    (0, .call (.push 2)) :: List.replicate 6 (0, .run) ++
    (1, .call .pop) :: List.replicate 3 (1, .run) ++
    (2, .call .pop) :: List.replicate 5 (2, .run) ++
    (0, .call (.push 3)) :: List.replicate 3 (0, .run)

/-- Two slots.  A pop fails while one item is ready: the push of position 0 has stalled,
that of position 1 has completed. -/
def popOvertaken : List (Fin 3 × Choice ℕ) :=
  (1, .call (.push 1)) :: List.replicate 4 (1, .run) ++
    (0, .call (.push 2)) :: List.replicate 6 (0, .run) ++
    (2, .call .pop) :: List.replicate 2 (2, .run)

end Run

/-- The push that fails beside the stalled pop. -/
theorem queue_failures_overtaken_push :
    let h := (machine.exec (State.create 0 (2 ^ 1)) pushOvertaken).1
    h[27]? = some (.pushFalse 0) ∧ PushFailsOvertaken (2 ^ 1) h ∧ PopFailsOvertaken h :=
  ⟨by decide, queue_failures_overtaken le_rfl (by norm_num)
    (machine.run_exec (State.create 0 (2 ^ 1)) pushOvertaken) (by decide)
    (by unfold StaysOpen; decide)⟩

/-- Neither failure needs a full or an empty queue. -/
theorem queue_failures_not_linearizable :
    (∃ h s, machine.Run (State.create 0 (2 ^ 1) : State (Fin 3) ℕ) h s ∧ StaysOpen h ∧
        ¬ PushFailsFull (2 ^ 1) h) ∧
      ∃ h s, machine.Run (State.create 0 (2 ^ 1) : State (Fin 3) ℕ) h s ∧ StaysOpen h ∧
        ¬ PopFailsEmpty h := by
  refine ⟨⟨_, _, machine.run_exec _ pushOvertaken, by unfold StaysOpen; decide, ?_⟩,
    ⟨_, _, machine.run_exec _ popOvertaken, by unfold StaysOpen; decide, ?_⟩⟩
  · intro hfail
    exact absurd (hfail 27 0 (by decide)) (by decide)
  · intro hfail
    exact absurd (hfail 14 2 (by decide)) (by decide)

end BcConcurrency.Queue
