import BcConcurrency.Queue.Fifo
import BcConcurrency.Queue.Invariant

/-!
# Exactly-once delivery of the MPMC queue

The ledger of a run records, for every claim, that it is still in its copy
phase or has returned, and for every return, the claim and the copy that it
belongs to.  Together with the invariant of the slots it says what the queue is
for: the position of a claim is a ticket, and the pop with ticket `p` returns
the item of the push with ticket `p`.
-/

namespace BcConcurrency.Queue

variable {ι α : Type*}

/-- The position of a pop that has returned an item. -/
def Event.popReturn : Event ι α → Option ℕ
  | .popTrue _ position _ => some position
  | _ => none

/-- The positions of the pops that have returned an item. -/
def popReturns (h : List (Event ι α)) : List ℕ := h.filterMap Event.popReturn

lemma popReturns_snoc (h : List (Event ι α)) (e : Event ι α) :
    popReturns (h ++ [e]) = popReturns h ++ e.popReturn.toList := by
  cases he : e.popReturn <;> simp [popReturns, he]

lemma mem_popReturns {h : List (Event ι α)} {p : ℕ} :
    p ∈ popReturns h ↔ ∃ t item, .popTrue t p item ∈ h := by
  simp only [popReturns, List.mem_filterMap]
  constructor
  · rintro ⟨e, he, hp⟩
    cases e <;> simp only [Event.popReturn, Option.some.injEq, reduceCtorEq] at hp
    subst hp
    exact ⟨_, _, he⟩
  · rintro ⟨t, item, he⟩
    exact ⟨_, he, rfl⟩

lemma mem_pushClaims {h : List (Event ι α)} {p : ℕ} {item : α} :
    (p, item) ∈ pushClaims h ↔ ∃ t, .claimPush t p item ∈ h := by
  simp only [pushClaims, List.mem_filterMap]
  constructor
  · rintro ⟨e, he, hp⟩
    cases e <;> simp only [Event.pushClaim, Option.some.injEq, reduceCtorEq, Prod.mk.injEq] at hp
    obtain ⟨rfl, rfl⟩ := hp
    exact ⟨_, he⟩
  · rintro ⟨t, he⟩
    exact ⟨_, he, rfl⟩

lemma mem_popClaims {h : List (Event ι α)} {p : ℕ} :
    p ∈ popClaims h ↔ ∃ t, .claimPop t p ∈ h := by
  simp only [popClaims, List.mem_filterMap]
  constructor
  · rintro ⟨e, he, hp⟩
    cases e <;> simp only [Event.popClaim, Option.some.injEq, reduceCtorEq] at hp
    subst hp
    exact ⟨_, he⟩
  · rintro ⟨t, he⟩
    exact ⟨_, he, rfl⟩

/-- The item of a push claim is the item at its position. -/
lemma Invariant.item_of_claimPush {k : ℕ} {h : List (Event ι α)} {s : State ι α}
    (hinv : Invariant k h s) {t : ι} {p : ℕ} {item : α} (he : .claimPush t p item ∈ h) :
    (pushedItems h)[p]? = some item := by
  obtain ⟨i, hi, hget⟩ := List.mem_iff_getElem.mp (mem_pushClaims.mpr ⟨t, he⟩)
  have hpos : ((pushClaims h).map Prod.fst)[i]? = some p := by simp [hi, hget]
  rw [hinv.pushPositions] at hpos
  obtain ⟨hlt, rfl⟩ : i < s.queue.enqueuePosition ∧ i = p := by
    simpa [List.getElem?_eq_some_iff] using hpos
  simp [pushedItems, hi, hget]

/-- Every position below the enqueue position has been claimed by a push. -/
lemma Invariant.exists_claimPush {k : ℕ} {h : List (Event ι α)} {s : State ι α}
    (hinv : Invariant k h s) {p : ℕ} (hp : p < s.queue.enqueuePosition) :
    ∃ t item, .claimPush t p item ∈ h := by
  have hmem : p ∈ (pushClaims h).map Prod.fst := by
    rw [hinv.pushPositions]
    exact List.mem_range.mpr hp
  obtain ⟨⟨p', item⟩, hmem', rfl⟩ := List.mem_map.mp hmem
  obtain ⟨t, he⟩ := mem_pushClaims.mp hmem'
  exact ⟨t, item, he⟩

/-! ### The ledger -/

/-- What a thread in a copy phase has left in the history. -/
def Recorded (h : List (Event ι α)) (t : ι) : Pc α → Prop
  | .pushCopy item p => .claimPush t p item ∈ h
  | .pushStoreSequence item p => .claimPush t p item ∈ h ∧ .copyIn t p item ∈ h
  | .popCopy p => .claimPop t p ∈ h
  | .popStoreSequence p _ => .claimPop t p ∈ h
  | _ => True

lemma Recorded.mono {h : List (Event ι α)} {t : ι} {pc : Pc α} (hr : Recorded h t pc)
    (e : Event ι α) : Recorded (h ++ [e]) t pc := by
  cases pc <;> simp only [Recorded, List.mem_append] at hr ⊢
  case pushStoreSequence => exact ⟨Or.inl hr.1, Or.inl hr.2⟩
  all_goals exact Or.inl hr

/-- The ledger of a run. -/
structure Ledger (h : List (Event ι α)) (s : State ι α) : Prop where
  recorded : ∀ t, Recorded h t (s.pc t)
  pushTrue : ∀ t p item, .pushTrue t p item ∈ h →
    .claimPush t p item ∈ h ∧ .copyIn t p item ∈ h
  popTrue : ∀ t p item, .popTrue t p item ∈ h →
    .claimPop t p ∈ h ∧ (pushedItems h)[p]? = some item
  pushed : ∀ t p item, .claimPush t p item ∈ h →
    (s.pc t).pushing = some p ∨ .pushTrue t p item ∈ h
  popped : ∀ t p, .claimPop t p ∈ h →
    (s.pc t).popping = some p ∨ ∃ item, .popTrue t p item ∈ h
  popReturns_nodup : (popReturns h).Nodup
  popping_not_mem : ∀ t p, (s.pc t).popping = some p → p ∉ popReturns h

namespace Ledger

variable [DecidableEq ι] {k : ℕ} {h : List (Event ι α)} {s : State ι α}

omit [DecidableEq ι] in
lemma pushedItems_getElem?_mono {p : ℕ} {item : α} (e : Event ι α)
    (hi : (pushedItems h)[p]? = some item) : (pushedItems (h ++ [e]))[p]? = some item := by
  have hlt : p < (pushedItems h).length := (List.getElem?_eq_some_iff.mp hi).1
  simp only [pushedItems, pushClaims_snoc, List.map_append] at hi hlt ⊢
  rw [List.getElem?_append_left hlt, hi]

/-! A step adds one event and moves one thread.  For each part of the ledger, what a step has
to show for it. -/

section Parts

variable {t : ι} {e : Event ι α} {queue : SharedQueue α} {pc : Pc α}

lemma recorded_step (hled : Ledger h s) (hrec : Recorded (h ++ [e]) t pc) (t' : ι) :
    Recorded (h ++ [e]) t' ((s.move t queue pc).pc t') := by
  by_cases ht : t' = t
  · subst ht
    simpa using hrec
  · simpa [ht] using (hled.recorded t').mono e

omit [DecidableEq ι] in
lemma pushTrue_step (hled : Ledger h s)
    (hnew : ∀ t p item, e = .pushTrue t p item →
      .claimPush t p item ∈ h ∧ .copyIn t p item ∈ h) (t : ι) (p : ℕ) (item : α)
    (he : .pushTrue t p item ∈ h ++ [e]) :
    .claimPush t p item ∈ h ++ [e] ∧ .copyIn t p item ∈ h ++ [e] := by
  have hold : .claimPush t p item ∈ h ∧ .copyIn t p item ∈ h := by
    rcases List.mem_append.mp he with hold | hlast
    · exact hled.pushTrue t p item hold
    · exact hnew t p item (List.mem_singleton.mp hlast).symm
  exact ⟨List.mem_append_left _ hold.1, List.mem_append_left _ hold.2⟩

omit [DecidableEq ι] in
lemma popTrue_step (hled : Ledger h s)
    (hnew : ∀ t p item, e = .popTrue t p item →
      .claimPop t p ∈ h ∧ (pushedItems h)[p]? = some item) (t : ι) (p : ℕ) (item : α)
    (he : .popTrue t p item ∈ h ++ [e]) :
    .claimPop t p ∈ h ++ [e] ∧ (pushedItems (h ++ [e]))[p]? = some item := by
  have hold : .claimPop t p ∈ h ∧ (pushedItems h)[p]? = some item := by
    rcases List.mem_append.mp he with hold | hlast
    · exact hled.popTrue t p item hold
    · exact hnew t p item (List.mem_singleton.mp hlast).symm
  exact ⟨List.mem_append_left _ hold.1, pushedItems_getElem?_mono e hold.2⟩

/-- Without a claim, and without a thread that leaves the copy phase of a push. -/
lemma pushed_step (hled : Ledger h s) (hpush : ∀ t p item, e ≠ .claimPush t p item)
    (hpushing : pc.pushing = (s.pc t).pushing) (t' : ι) (p : ℕ) (item : α)
    (he : .claimPush t' p item ∈ h ++ [e]) :
    ((s.move t queue pc).pc t').pushing = some p ∨ .pushTrue t' p item ∈ h ++ [e] := by
  rw [Invariant.move_pushing (q := queue) hpushing]
  exact (hled.pushed t' p item (by simpa [(hpush t' p item).symm] using he)).imp_right
    (List.mem_append_left _)

/-- Without a claim, and without a thread that leaves the copy phase of a pop. -/
lemma popped_step (hled : Ledger h s) (hpop : ∀ t p, e ≠ .claimPop t p)
    (hpopping : pc.popping = (s.pc t).popping) (t' : ι) (p : ℕ)
    (he : .claimPop t' p ∈ h ++ [e]) :
    ((s.move t queue pc).pc t').popping = some p ∨ ∃ item, .popTrue t' p item ∈ h ++ [e] := by
  rw [Invariant.move_popping (q := queue) hpopping]
  exact (hled.popped t' p (by simpa [(hpop t' p).symm] using he)).imp_right
    (Exists.imp fun item hi => List.mem_append_left _ hi)

omit [DecidableEq ι] in
lemma popReturns_step (hpopTrue : ∀ t p item, e ≠ .popTrue t p item) :
    popReturns (h ++ [e]) = popReturns h := by
  rw [popReturns_snoc]
  cases e <;> first | exact absurd rfl (hpopTrue _ _ _) | simp [Event.popReturn]

/-- Without a pop that returns, and without a thread that enters the copy phase of a pop. -/
lemma popping_not_mem_step (hled : Ledger h s) (hpopTrue : ∀ t p item, e ≠ .popTrue t p item)
    (hpopping : pc.popping = (s.pc t).popping) (t' : ι) (p : ℕ)
    (hp : ((s.move t queue pc).pc t').popping = some p) : p ∉ popReturns (h ++ [e]) := by
  rw [Invariant.move_popping (q := queue) hpopping] at hp
  rw [popReturns_step hpopTrue]
  exact hled.popping_not_mem t' p hp

end Parts

/-- A step that makes no claim and returns nothing, of a thread that stays in
or out of a copy phase. -/
lemma quiet (hled : Ledger h s) {t : ι} {e : Event ι α} {queue : SharedQueue α} {pc : Pc α}
    (hpush : ∀ t p item, e ≠ .claimPush t p item) (hpop : ∀ t p, e ≠ .claimPop t p)
    (hpushTrue : ∀ t p item, e ≠ .pushTrue t p item)
    (hpopTrue : ∀ t p item, e ≠ .popTrue t p item)
    (hpushing : pc.pushing = (s.pc t).pushing) (hpopping : pc.popping = (s.pc t).popping)
    (hrec : Recorded (h ++ [e]) t pc) : Ledger (h ++ [e]) (s.move t queue pc) := by
  constructor
  case recorded => exact hled.recorded_step hrec
  case pushTrue =>
    exact hled.pushTrue_step fun t' p item heq => absurd heq (hpushTrue t' p item)
  case popTrue =>
    exact hled.popTrue_step fun t' p item heq => absurd heq (hpopTrue t' p item)
  case pushed => exact hled.pushed_step hpush hpushing
  case popped => exact hled.popped_step hpop hpopping
  case popReturns_nodup =>
    rw [popReturns_step hpopTrue]
    exact hled.popReturns_nodup
  case popping_not_mem => exact hled.popping_not_mem_step hpopTrue hpopping

lemma claimPush (hled : Ledger h s) {t : ι} {item : α} {p : ℕ} {queue : SharedQueue α}
    (hpc : s.pc t = .pushExchange item p) :
    Ledger (h ++ [.claimPush t p item]) (s.move t queue (.pushCopy item p)) := by
  have hpopping : (Pc.pushCopy item p).popping = (s.pc t).popping := by simp [hpc, Pc.popping]
  constructor
  case recorded => exact hled.recorded_step (by simp [Recorded])
  case pushTrue => exact hled.pushTrue_step (by simp)
  case popTrue => exact hled.popTrue_step (by simp)
  case pushed =>
    intro t' p' item' he
    rcases List.mem_append.mp he with hold | hnew
    · -- the claiming thread was not in the copy phase of another push
      rcases hled.pushed t' p' item' hold with hp | hp
      · have ht : t' ≠ t := by
          rintro rfl
          simp [hpc, Pc.pushing] at hp
        exact Or.inl (by simpa [Function.update_of_ne ht] using hp)
      · exact Or.inr (List.mem_append_left _ hp)
    · simp only [List.mem_singleton, Event.claimPush.injEq] at hnew
      obtain ⟨rfl, rfl, -⟩ := hnew
      exact Or.inl (by simp [Pc.pushing])
  case popped => exact hled.popped_step (by simp) hpopping
  case popReturns_nodup =>
    rw [popReturns_step (by simp)]
    exact hled.popReturns_nodup
  case popping_not_mem => exact hled.popping_not_mem_step (by simp) hpopping

lemma claimPop (hled : Ledger h s) {t : ι} {p : ℕ} {queue : SharedQueue α}
    (hpc : s.pc t = .popExchange p) (hfresh : p ∉ popClaims h) :
    Ledger (h ++ [.claimPop t p]) (s.move t queue (.popCopy p)) := by
  constructor
  case recorded => exact hled.recorded_step (by simp [Recorded])
  case pushTrue => exact hled.pushTrue_step (by simp)
  case popTrue => exact hled.popTrue_step (by simp)
  case pushed => exact hled.pushed_step (by simp) (by simp [hpc, Pc.pushing])
  case popped =>
    intro t' p' he
    rcases List.mem_append.mp he with hold | hnew
    · rcases hled.popped t' p' hold with hp | ⟨item, hi⟩
      · have ht : t' ≠ t := by
          rintro rfl
          simp [hpc, Pc.popping] at hp
        exact Or.inl (by simpa [Function.update_of_ne ht] using hp)
      · exact Or.inr ⟨item, List.mem_append_left _ hi⟩
    · simp only [List.mem_singleton, Event.claimPop.injEq] at hnew
      obtain ⟨rfl, rfl⟩ := hnew
      exact Or.inl (by simp [Pc.popping])
  case popReturns_nodup =>
    rw [popReturns_step (by simp)]
    exact hled.popReturns_nodup
  case popping_not_mem =>
    intro t' p' hp
    rw [popReturns_step (by simp)]
    by_cases ht : t' = t
    · -- a position that has been returned was claimed before, and this one is fresh
      subst ht
      simp only [State.move_pc, Function.update_self, Pc.popping, Option.some.injEq] at hp
      subst hp
      intro hmem
      obtain ⟨t'', item, he⟩ := mem_popReturns.mp hmem
      exact hfresh (mem_popClaims.mpr ⟨t'', (hled.popTrue t'' p item he).1⟩)
    · exact hled.popping_not_mem t' p' (by simpa [Function.update_of_ne ht] using hp)

lemma pushStored (hled : Ledger h s) (hinv : Invariant k h s) {t : ι} {item : α} {p : ℕ}
    {queue : SharedQueue α} (hpc : s.pc t = .pushStoreSequence item p) :
    Ledger (h ++ [.pushTrue t p item]) (s.move t queue .idle) := by
  have hrec := hled.recorded t
  have hknows := hinv.knows t
  rw [hpc] at hrec hknows
  have hpopping : (Pc.idle : Pc α).popping = (s.pc t).popping := by simp [hpc, Pc.popping]
  constructor
  case recorded => exact hled.recorded_step trivial
  case pushTrue =>
    refine hled.pushTrue_step ?_
    intro t' p' item' heq
    simp only [Event.pushTrue.injEq] at heq
    obtain ⟨rfl, rfl, rfl⟩ := heq
    exact hrec
  case popTrue => exact hled.popTrue_step (by simp)
  case pushed =>
    intro t' p' item' he
    have hclaim : .claimPush t' p' item' ∈ h := by simpa using he
    rcases hled.pushed t' p' item' hclaim with hp | hp
    · by_cases ht : t' = t
      · -- the item that was claimed at this position is the one that is returned for it
        subst ht
        simp only [hpc, Pc.pushing, Option.some.injEq] at hp
        subst hp
        have hitem := hinv.item_of_claimPush hclaim
        rw [hknows.2.2.2.1, Option.some.injEq] at hitem
        exact Or.inr (by simp [hitem])
      · exact Or.inl (by simpa [Function.update_of_ne ht] using hp)
    · exact Or.inr (List.mem_append_left _ hp)
  case popped => exact hled.popped_step (by simp) hpopping
  case popReturns_nodup =>
    rw [popReturns_step (by simp)]
    exact hled.popReturns_nodup
  case popping_not_mem => exact hled.popping_not_mem_step (by simp) hpopping

lemma popStored (hled : Ledger h s) (hinv : Invariant k h s) {t : ι} {outItem : α} {p : ℕ}
    {queue : SharedQueue α} (hpc : s.pc t = .popStoreSequence p outItem) :
    Ledger (h ++ [.popTrue t p outItem]) (s.move t queue .idle) := by
  have hrec := hled.recorded t
  have hknows := hinv.knows t
  rw [hpc] at hrec hknows
  have hpopping : (s.pc t).popping = some p := by simp [hpc, Pc.popping]
  constructor
  case recorded => exact hled.recorded_step trivial
  case pushTrue => exact hled.pushTrue_step (by simp)
  case popTrue =>
    refine hled.popTrue_step ?_
    intro t' p' item' heq
    simp only [Event.popTrue.injEq] at heq
    obtain ⟨rfl, rfl, rfl⟩ := heq
    exact ⟨hrec, hknows.2.2.2⟩
  case pushed => exact hled.pushed_step (by simp) (by simp [hpc, Pc.pushing])
  case popped =>
    intro t' p' he
    rcases hled.popped t' p' (by simpa using he) with hp | ⟨item, hi⟩
    · by_cases ht : t' = t
      · subst ht
        simp only [hpc, Pc.popping, Option.some.injEq] at hp
        subst hp
        exact Or.inr ⟨outItem, by simp⟩
      · exact Or.inl (by simpa [Function.update_of_ne ht] using hp)
    · exact Or.inr ⟨item, List.mem_append_left _ hi⟩
  case popReturns_nodup =>
    -- the thread was in the copy phase of this position, so it was not returned before
    simp only [popReturns_snoc, Event.popReturn, Option.toList_some]
    exact List.nodup_append.mpr ⟨hled.popReturns_nodup, by simp, by
      rintro a ha b hb rfl
      rw [List.mem_singleton] at hb
      subst hb
      exact hled.popping_not_mem t a hpopping ha⟩
  case popping_not_mem =>
    intro t' p' hp
    by_cases ht : t' = t
    · subst ht
      simp [Pc.popping] at hp
    · have hp' : (s.pc t').popping = some p' := by simpa [Function.update_of_ne ht] using hp
      simp only [popReturns_snoc, Event.popReturn, Option.toList_some, List.mem_append,
        List.mem_singleton, not_or]
      refine ⟨hled.popping_not_mem t' p' hp', ?_⟩
      -- two threads in the copy phase of one position are the same thread
      rintro rfl
      exact ht (hinv.popping_unique t' t p' hp' hpopping)

/-- One step keeps the ledger. -/
lemma step (hled : Ledger h s) (hinv : Invariant k h s) {t : ι} {e : Event ι α}
    {queue : SharedQueue α} {pc : Pc α} (hs : Transition s.queue t (s.pc t) e queue pc) :
    Ledger (h ++ [e]) (s.move t queue pc) := by
  have hrec := hled.recorded t
  generalize hpc : s.pc t = pc₀ at hs hrec
  cases hs
  case pushClaim => exact hled.claimPush hpc
  case popClaim =>
    refine hled.claimPop hpc ?_
    rw [hinv.popPositions]
    simp
  case pushStored => exact hled.pushStored hinv hpc
  case popStored => exact hled.popStored hinv hpc
  case call operation =>
    refine hled.quiet (by simp) (by simp) (by simp) (by simp) ?_ ?_ ?_ <;> cases operation <;>
      simp [hpc, Operation.entry, Pc.pushing, Pc.popping, Recorded]
  case pushCopied item p =>
    refine hled.quiet (by simp) (by simp) (by simp) (by simp) (by simp [hpc, Pc.pushing])
      (by simp [hpc, Pc.popping]) ⟨List.mem_append_left _ hrec, by simp⟩
  case popCopied p =>
    refine hled.quiet (by simp) (by simp) (by simp) (by simp) (by simp [hpc, Pc.pushing])
      (by simp [hpc, Pc.popping]) (List.mem_append_left _ hrec)
  all_goals
    exact hled.quiet (by simp) (by simp) (by simp) (by simp) (by simp [hpc, Pc.pushing])
      (by simp [hpc, Pc.popping]) trivial

omit [DecidableEq ι] in
lemma create (zero : α) (effectiveCapacity : ℕ) :
    Ledger [] (State.create zero effectiveCapacity : State ι α) := by
  constructor
  case recorded =>
    intro t
    trivial
  case popReturns_nodup => exact List.nodup_nil
  case popping_not_mem =>
    intro t p hp
    simp [Pc.popping] at hp
  all_goals simp

lemma run (hk : 1 ≤ k) (hk' : k ≤ 63) {zero : α} (hrun : machine.Run (State.create zero (2 ^ k)) h s)
    (hbound : (pushClaims h).length < 2 ^ 63) : Ledger h s := by
  refine hrun.invariant (P := fun h s => (pushClaims h).length < 2 ^ 63 → Ledger h s)
    (fun _ => create zero _) ?_ hbound
  intro h s c e s' hrun ih hs hbound
  have hlen : (pushClaims h).length < 2 ^ 63 := by
    rw [pushClaims_snoc, List.length_append] at hbound
    omega
  obtain ⟨t, queue, pc, htr, rfl⟩ := step_inv hs
  exact (ih hlen).step (Invariant.run hk hk' hrun hlen) htr

end Ledger

/-! ### Exactly-once delivery -/

/-- The position of a payload-copy phase, of either side. -/
def Pc.copying (pc : Pc α) : Option ℕ := pc.pushing.or pc.popping

/-- Exactly-once delivery by ticket, in a state reached with a history. -/
structure ExactlyOnceFifo (capacity : ℕ) (h : List (Event ι α)) (s : State ι α) : Prop where
  /-- The pushes claim the positions `0, 1, 2, …`, each of them once. -/
  pushPositions : (pushClaims h).map Prod.fst = List.range s.queue.enqueuePosition
  /-- The pops claim the positions `0, 1, 2, …`, each of them once. -/
  popPositions : popClaims h = List.range s.queue.dequeuePosition
  dequeue_le : s.queue.dequeuePosition ≤ s.queue.enqueuePosition
  enqueue_le : s.queue.enqueuePosition ≤ s.queue.dequeuePosition + capacity
  /-- A pop returns the item of the push with its position, wholly copied in. -/
  delivered : ∀ t p item, .popTrue t p item ∈ h → .claimPop t p ∈ h ∧
    ∃ t', .claimPush t' p item ∈ h ∧ .copyIn t' p item ∈ h ∧ .pushTrue t' p item ∈ h
  /-- No two threads are in the copy phase of one slot. -/
  exclusive : ∀ t t' p p', t ≠ t' → (s.pc t).copying = some p → (s.pc t').copying = some p' →
    s.queue.slotIndex p ≠ s.queue.slotIndex p'
  /-- No claim of a pop is lost: it is in its copy phase or has returned. -/
  popped : ∀ p < s.queue.dequeuePosition, (∃ t, (s.pc t).popping = some p) ∨
    ∃ t item, .popTrue t p item ∈ h ∧ (pushedItems h)[p]? = some item
  /-- No claim of a push is lost: it is in its copy phase or has returned. -/
  pushed : ∀ p < s.queue.enqueuePosition, (∃ t, (s.pc t).pushing = some p) ∨
    ∃ t item, .pushTrue t p item ∈ h ∧ (pushedItems h)[p]? = some item
  /-- No position is returned by two pops. -/
  popReturns_nodup : (popReturns h).Nodup

namespace Invariant

variable {k : ℕ} {h : List (Event ι α)} {s : State ι α}

/-- The slots of two copy phases are different. -/
lemma exclusive (hk : 1 ≤ k) (hinv : Invariant k h s) {t t' : ι} {p p' : ℕ} (ht : t ≠ t')
    (hp : (s.pc t).copying = some p) (hp' : (s.pc t').copying = some p') :
    s.queue.slotIndex p ≠ s.queue.slotIndex p' := by
  have hle := hinv.enqueue_le
  simp only [Pc.copying, Option.or_eq_some_iff] at hp hp'
  rcases hp with hpush | ⟨-, hpop⟩ <;> rcases hp' with hpush' | ⟨-, hpop'⟩
  · obtain ⟨hD, hE, -⟩ := hinv.knows_of_pushing hpush
    obtain ⟨hD', hE', -⟩ := hinv.knows_of_pushing hpush'
    refine hinv.slotIndex_ne_of_window ?_ hD (by omega) hD' (by omega)
    rintro rfl
    exact ht (hinv.pushing_unique t t' p hpush hpush')
  · exact (hinv.slotIndex_ne_of_full hk (hinv.knows_of_popping hpop').2.2
      (hinv.knows_of_pushing hpush).2.2).symm
  · exact hinv.slotIndex_ne_of_full hk (hinv.knows_of_popping hpop).2.2
      (hinv.knows_of_pushing hpush').2.2
  · refine slotIndex_ne_of_slotSequence_ne ?_
    have hs := (hinv.knows_of_popping hpop).2.2
    have hs' := (hinv.knows_of_popping hpop').2.2
    intro heq
    have hpp' : p = p' := by omega
    subst hpp'
    exact ht (hinv.popping_unique t t' p hpop hpop')

/-- The push with a popped position has returned. -/
lemma pushTrue_of_lt (hinv : Invariant k h s) (hled : Ledger h s) {p : ℕ} {item : α}
    (hp : p < s.queue.dequeuePosition) (hitem : (pushedItems h)[p]? = some item) :
    ∃ t, .pushTrue t p item ∈ h := by
  obtain ⟨t, item', hclaim⟩ := hinv.exists_claimPush (hp.trans_le hinv.dequeue_le)
  have hitem' := hinv.item_of_claimPush hclaim
  rw [hitem, Option.some.injEq] at hitem'
  subst hitem'
  rcases hled.pushed t p item hclaim with hpush | hret
  · have := (hinv.knows_of_pushing hpush).1
    omega
  · exact ⟨t, hret⟩

end Invariant

/-- **Exactly-once FIFO by ticket.**  In every state that any number of threads
can reach with any interleaving of their atomic steps and fewer than `2 ^ 63`
claimed positions, every position is claimed by at most one push and one pop,
the pop returns the item of that push, copy phases exclude each other and the
counters stay within the capacity of each other. -/
theorem queue_exactly_once_fifo [DecidableEq ι] {k : ℕ} (hk : 1 ≤ k) (hk' : k ≤ 63) (zero : α)
    {h : List (Event ι α)} {s : State ι α} (hrun : machine.Run (State.create zero (2 ^ k)) h s)
    (hbound : (pushClaims h).length < 2 ^ 63) : ExactlyOnceFifo (2 ^ k) h s := by
  have hinv := Invariant.run hk hk' hrun hbound
  have hled := Ledger.run hk hk' hrun hbound
  constructor
  case pushPositions => exact hinv.pushPositions
  case popPositions => exact hinv.popPositions
  case dequeue_le => exact hinv.dequeue_le
  case enqueue_le => exact hinv.enqueue_le
  case delivered =>
    intro t p item he
    obtain ⟨hclaim, hitem⟩ := hled.popTrue t p item he
    have hp : p < s.queue.dequeuePosition := by
      have hmem := mem_popClaims.mpr ⟨t, hclaim⟩
      rwa [hinv.popPositions, List.mem_range] at hmem
    obtain ⟨t', hret⟩ := hinv.pushTrue_of_lt hled hp hitem
    obtain ⟨hclaim', hcopy⟩ := hled.pushTrue t' p item hret
    exact ⟨hclaim, t', hclaim', hcopy, hret⟩
  case exclusive => exact fun t t' p p' ht hp hp' => hinv.exclusive hk ht hp hp'
  case popped =>
    intro p hp
    have hmem : p ∈ popClaims h := by rwa [hinv.popPositions, List.mem_range]
    obtain ⟨t, hclaim⟩ := mem_popClaims.mp hmem
    rcases hled.popped t p hclaim with hpop | ⟨item, hret⟩
    · exact Or.inl ⟨t, hpop⟩
    · exact Or.inr ⟨t, item, hret, (hled.popTrue t p item hret).2⟩
  case pushed =>
    intro p hp
    obtain ⟨t, item, hclaim⟩ := hinv.exists_claimPush hp
    exact (hled.pushed t p item hclaim).imp (fun hpush => ⟨t, hpush⟩)
      fun hret => ⟨t, item, hret, hinv.item_of_claimPush hclaim⟩
  case popReturns_nodup => exact hled.popReturns_nodup

/-- Two threads, two slots: the second thread pops what the first has pushed. -/
theorem queue_exactly_once_fifo_handover :
    let schedule : List (Bool × Choice ℕ) := (true, .call (.push 7)) ::
      List.replicate 6 (true, .run) ++ (false, .call .pop) :: List.replicate 5 (false, .run)
    let r := machine.exec (State.create 0 (2 ^ 1)) schedule
    ExactlyOnceFifo (2 ^ 1) r.1 r.2 ∧ .popTrue false 0 7 ∈ r.1 :=
  ⟨queue_exactly_once_fifo le_rfl (by norm_num) 0 (machine.run_exec _ _) (by decide), by decide⟩

end BcConcurrency.Queue
