import BcConcurrency.Lib.Ring
import BcConcurrency.Queue.Concurrent

/-!
# The invariant of the MPMC queue

`E` and `D` are the enqueue and the dequeue position.  The positions below `D`
have been claimed by a pop, those below `E` by a push, and the positions from
`D` to `D + capacity` occupy every slot exactly once.  A position `p` from `D`
to `E` is being filled (sequence `p`, one producer in its copy phase) or full
(sequence `p + 1`); a position `p` from `E` to `D + capacity` is free
(sequence `p`) or still being emptied of position `p - capacity` (sequence
`p - capacity + 1`, one consumer in its copy phase).  With at least two slots
these four states have different sequence words.
-/

namespace BcConcurrency.Queue

variable {ι α : Type*}

/-! ### The slots after a store -/

namespace SharedQueue

variable (queue : SharedQueue α) (p p' : ℕ)

@[simp] lemma slotSequence_setEnqueuePosition (position : ℕ) :
    (queue.setEnqueuePosition position).slotSequence p = queue.slotSequence p := rfl

@[simp] lemma slotData_setEnqueuePosition (position : ℕ) :
    (queue.setEnqueuePosition position).slotData p = queue.slotData p := rfl

@[simp] lemma slotSequence_setDequeuePosition (position : ℕ) :
    (queue.setDequeuePosition position).slotSequence p = queue.slotSequence p := rfl

@[simp] lemma slotData_setDequeuePosition (position : ℕ) :
    (queue.setDequeuePosition position).slotData p = queue.slotData p := rfl

@[simp] lemma slotSequence_storeClosed (closed : Bool) :
    (queue.storeClosed closed).slotSequence p = queue.slotSequence p := rfl

@[simp] lemma slotData_storeClosed (closed : Bool) :
    (queue.storeClosed closed).slotData p = queue.slotData p := rfl

lemma slotSequence_storeSequence (sequence : ℕ) :
    (queue.storeSequence p sequence).slotSequence p' =
      if queue.slotIndex p' = queue.slotIndex p then sequence else queue.slotSequence p' := by
  simp only [slotSequence, storeSequence, slotIndex, Function.update_apply]
  by_cases hp : p' &&& queue.capacityMask = p &&& queue.capacityMask <;> simp [hp]

@[simp] lemma slotData_storeSequence (sequence : ℕ) :
    (queue.storeSequence p sequence).slotData p' = queue.slotData p' := by
  simp only [slotData, storeSequence, slotIndex, Function.update_apply]
  by_cases hp : p' &&& queue.capacityMask = p &&& queue.capacityMask <;> simp [hp]

@[simp] lemma slotSequence_copyIn (item : α) :
    (queue.copyIn p item).slotSequence p' = queue.slotSequence p' := by
  simp only [slotSequence, copyIn, slotIndex, Function.update_apply]
  by_cases hp : p' &&& queue.capacityMask = p &&& queue.capacityMask <;> simp [hp]

lemma slotData_copyIn (item : α) :
    (queue.copyIn p item).slotData p' =
      if queue.slotIndex p' = queue.slotIndex p then item else queue.slotData p' := by
  simp only [slotData, copyIn, slotIndex, Function.update_apply]
  by_cases hp : p' &&& queue.capacityMask = p &&& queue.capacityMask <;> simp [hp]

lemma slotIndex_eq_mod {k : ℕ} (hmask : queue.capacityMask = 2 ^ k - 1) :
    queue.slotIndex p = p % 2 ^ k := by
  rw [slotIndex, hmask, Nat.and_two_pow_sub_one_eq_mod]

end SharedQueue

/-! ### Claims -/

/-- The position and the item of a push claim. -/
def Event.pushClaim : Event ι α → Option (ℕ × α)
  | .claimPush _ position item => some (position, item)
  | _ => none

/-- The position of a pop claim. -/
def Event.popClaim : Event ι α → Option ℕ
  | .claimPop _ position => some position
  | _ => none

/-- The claims of pushes, in the order of the history. -/
def pushClaims (h : List (Event ι α)) : List (ℕ × α) := h.filterMap Event.pushClaim

/-- The positions claimed by pops, in the order of the history. -/
def popClaims (h : List (Event ι α)) : List ℕ := h.filterMap Event.popClaim

/-- The items of the claiming pushes, in the order of the history. -/
def pushedItems (h : List (Event ι α)) : List α := (pushClaims h).map Prod.snd

lemma pushClaims_append (h h' : List (Event ι α)) :
    pushClaims (h ++ h') = pushClaims h ++ pushClaims h' := List.filterMap_append

lemma popClaims_append (h h' : List (Event ι α)) :
    popClaims (h ++ h') = popClaims h ++ popClaims h' := List.filterMap_append

lemma pushClaims_snoc (h : List (Event ι α)) (e : Event ι α) :
    pushClaims (h ++ [e]) = pushClaims h ++ e.pushClaim.toList := by
  cases he : e.pushClaim <;> simp [pushClaims, he]

lemma popClaims_snoc (h : List (Event ι α)) (e : Event ι α) :
    popClaims (h ++ [e]) = popClaims h ++ e.popClaim.toList := by
  cases he : e.popClaim <;> simp [popClaims, he]

/-- The position whose slot a producer fills: between its claim and its store
of the sequence word. -/
def Pc.pushing : Pc α → Option ℕ
  | .pushCopy _ position => some position
  | .pushStoreSequence _ position => some position
  | _ => none

/-- The position whose slot a consumer empties: between its claim and its store
of the sequence word. -/
def Pc.popping : Pc α → Option ℕ
  | .popCopy position => some position
  | .popStoreSequence position _ => some position
  | _ => none

/-! ### The invariant -/

/-- What a thread knows at its program counter, about a queue with the given
slots, the items pushed so far and the counters `E` and `D`. -/
def Knows (queue : SharedQueue α) (items : List α) : Pc α → Prop
  | .pushLoadSequence _ p => p ≤ queue.enqueuePosition
  | .pushExchange _ p => p ≤ queue.enqueuePosition ∧ (p = queue.enqueuePosition →
      queue.slotSequence p = p ∧ p < queue.dequeuePosition + queue.capacity)
  | .pushCopy item p => queue.dequeuePosition ≤ p ∧ p < queue.enqueuePosition ∧
      queue.slotSequence p = p ∧ items[p]? = some item
  | .pushStoreSequence item p => queue.dequeuePosition ≤ p ∧ p < queue.enqueuePosition ∧
      queue.slotSequence p = p ∧ items[p]? = some item ∧ queue.slotData p = item
  | .popLoadSequence p => p ≤ queue.dequeuePosition
  | .popExchange p => p ≤ queue.dequeuePosition ∧ (p = queue.dequeuePosition →
      queue.slotSequence p = p + 1 ∧ p < queue.enqueuePosition)
  | .popCopy p => p < queue.dequeuePosition ∧ queue.enqueuePosition ≤ p + queue.capacity ∧
      queue.slotSequence p = p + 1 ∧ items[p]? = some (queue.slotData p)
  | .popStoreSequence p outItem => p < queue.dequeuePosition ∧
      queue.enqueuePosition ≤ p + queue.capacity ∧ queue.slotSequence p = p + 1 ∧
      items[p]? = some outItem
  | _ => True

/-- The invariant of a queue of `2 ^ k` slots after a history. -/
structure Invariant (k : ℕ) (h : List (Event ι α)) (s : State ι α) : Prop where
  capacity : s.queue.capacity = 2 ^ k
  capacityMask : s.queue.capacityMask = 2 ^ k - 1
  pushPositions : (pushClaims h).map Prod.fst = List.range s.queue.enqueuePosition
  popPositions : popClaims h = List.range s.queue.dequeuePosition
  dequeue_le : s.queue.dequeuePosition ≤ s.queue.enqueuePosition
  enqueue_le : s.queue.enqueuePosition ≤ s.queue.dequeuePosition + 2 ^ k
  word_lt : ∀ p, s.queue.slotSequence p < 2 ^ 64
  knows : ∀ t, Knows s.queue (pushedItems h) (s.pc t)
  pushing_unique : ∀ t t' p, (s.pc t).pushing = some p → (s.pc t').pushing = some p → t = t'
  popping_unique : ∀ t t' p, (s.pc t).popping = some p → (s.pc t').popping = some p → t = t'
  full : ∀ p, s.queue.dequeuePosition ≤ p → p < s.queue.enqueuePosition →
    (∃ t, (s.pc t).pushing = some p) ∨
      (s.queue.slotSequence p = p + 1 ∧ (pushedItems h)[p]? = some (s.queue.slotData p))
  free : ∀ p, s.queue.enqueuePosition ≤ p → p < s.queue.dequeuePosition + 2 ^ k →
    s.queue.slotSequence p = p ∨ ∃ t p', p = p' + 2 ^ k ∧ (s.pc t).popping = some p'

namespace Invariant

variable {k : ℕ} {h : List (Event ι α)} {s : State ι α}

lemma enqueue_eq (hinv : Invariant k h s) : s.queue.enqueuePosition = (pushClaims h).length := by
  have := congrArg List.length hinv.pushPositions
  simpa using this.symm

lemma items_length (hinv : Invariant k h s) :
    (pushedItems h).length = s.queue.enqueuePosition := by
  simp [pushedItems, hinv.enqueue_eq]

lemma slotIndex_eq_iff (hinv : Invariant k h s) (p p' : ℕ) :
    s.queue.slotIndex p = s.queue.slotIndex p' ↔ p % 2 ^ k = p' % 2 ^ k := by
  rw [s.queue.slotIndex_eq_mod p hinv.capacityMask, s.queue.slotIndex_eq_mod p' hinv.capacityMask]

lemma slotSequence_congr (hinv : Invariant k h s) {p p' : ℕ} (hp : p % 2 ^ k = p' % 2 ^ k) :
    s.queue.slotSequence p = s.queue.slotSequence p' := by
  simp only [SharedQueue.slotSequence, (hinv.slotIndex_eq_iff p p').mpr hp]

lemma slotIndex_ne_of_slotSequence_ne {queue : SharedQueue α} {p p' : ℕ}
    (hp : queue.slotSequence p ≠ queue.slotSequence p') : queue.slotIndex p ≠ queue.slotIndex p' :=
  fun heq => hp (by simp only [SharedQueue.slotSequence, heq])

/-- With two slots or more, a full slot is not one that is free or being filled. -/
lemma slotIndex_ne_of_full (hk : 1 ≤ k) (hinv : Invariant k h s) {p p' : ℕ}
    (hp : s.queue.slotSequence p = p + 1) (hp' : s.queue.slotSequence p' = p') :
    s.queue.slotIndex p ≠ s.queue.slotIndex p' := by
  intro heq
  have hcap : 2 ≤ 2 ^ k := Nat.pow_le_pow_right (n := 2) (by norm_num) hk
  have hsame : s.queue.slotSequence p = s.queue.slotSequence p' := by
    simp only [SharedQueue.slotSequence, heq]
  rw [hp, hp'] at hsame
  exact Ring.succ_mod_ne hcap p (by rw [hsame]; exact ((hinv.slotIndex_eq_iff _ _).mp heq).symm)

/-- Positions of the window from `D` to `D + capacity` have different slots. -/
lemma slotIndex_ne_of_window (hinv : Invariant k h s) {p p' : ℕ} (hne : p ≠ p')
    (hp : s.queue.dequeuePosition ≤ p) (hp' : p < s.queue.dequeuePosition + 2 ^ k)
    (hq : s.queue.dequeuePosition ≤ p') (hq' : p' < s.queue.dequeuePosition + 2 ^ k) :
    s.queue.slotIndex p ≠ s.queue.slotIndex p' := fun heq =>
  hne (Ring.eq_of_mod_eq_of_window ((hinv.slotIndex_eq_iff p p').mp heq) hp hp' hq hq')

/-- The thread in a copy phase of a push, seen through its program counter. -/
lemma knows_of_pushing (hinv : Invariant k h s) {t : ι} {p : ℕ}
    (hp : (s.pc t).pushing = some p) :
    s.queue.dequeuePosition ≤ p ∧ p < s.queue.enqueuePosition ∧ s.queue.slotSequence p = p := by
  have hknows := hinv.knows t
  cases hpc : s.pc t <;> simp only [hpc, Pc.pushing, Option.some.injEq, reduceCtorEq] at hp <;>
    subst hp <;> simp only [hpc, Knows] at hknows <;> exact ⟨hknows.1, hknows.2.1, hknows.2.2.1⟩

/-- The thread in a copy phase of a pop, seen through its program counter. -/
lemma knows_of_popping (hinv : Invariant k h s) {t : ι} {p : ℕ}
    (hp : (s.pc t).popping = some p) :
    p < s.queue.dequeuePosition ∧ s.queue.enqueuePosition ≤ p + 2 ^ k ∧
      s.queue.slotSequence p = p + 1 := by
  have hknows := hinv.knows t
  rw [← hinv.capacity]
  cases hpc : s.pc t <;> simp only [hpc, Pc.popping, Option.some.injEq, reduceCtorEq] at hp <;>
    subst hp <;> simp only [hpc, Knows] at hknows <;> exact ⟨hknows.1, hknows.2.1, hknows.2.2.1⟩

/-- Two threads in the copy phase of a push are at different positions. -/
lemma ne_of_pushing (hinv : Invariant k h s) {t t' : ι} (ht : t' ≠ t) {p p' : ℕ}
    (hp : (s.pc t).pushing = some p) (hp' : (s.pc t').pushing = some p') : p' ≠ p := by
  rintro rfl
  exact ht (hinv.pushing_unique t' t p' hp' hp)

/-- Two threads in the copy phase of a pop are at different slots. -/
lemma slotIndex_ne_of_popping (hinv : Invariant k h s) {t t' : ι} (ht : t' ≠ t) {p p' : ℕ}
    (hp : (s.pc t).popping = some p) (hp' : (s.pc t').popping = some p') :
    s.queue.slotIndex p' ≠ s.queue.slotIndex p := by
  refine slotIndex_ne_of_slotSequence_ne ?_
  intro hs
  have hseq := (hinv.knows_of_popping hp).2.2
  have hseq' := (hinv.knows_of_popping hp').2.2
  obtain rfl : p' = p := by omega
  exact ht (hinv.popping_unique t' t p' hp' hp)

/-- If the slot of the next push is free, no consumer still empties it. -/
lemma enqueue_lt_of_popping (hk : 1 ≤ k) (hinv : Invariant k h s)
    (hseq : s.queue.slotSequence s.queue.enqueuePosition = s.queue.enqueuePosition) {t : ι} {p : ℕ}
    (hp : (s.pc t).popping = some p) : s.queue.enqueuePosition + 1 ≤ p + 2 ^ k := by
  have hcap : 2 ≤ 2 ^ k := Nat.pow_le_pow_right (n := 2) (by norm_num) hk
  obtain ⟨-, hle, hseq'⟩ := hinv.knows_of_popping hp
  rcases hle.lt_or_eq with hlt | heq
  · exact hlt
  · have hcongr : s.queue.slotSequence (p + 2 ^ k) = s.queue.slotSequence p :=
      hinv.slotSequence_congr (by simp)
    rw [← heq, hseq, hseq'] at hcongr
    omega

/-- If the slot of the next pop is full, no producer still fills it. -/
lemma dequeue_lt_of_pushing (hk : 1 ≤ k) (hinv : Invariant k h s)
    (hseq : s.queue.slotSequence s.queue.dequeuePosition = s.queue.dequeuePosition + 1) {t : ι}
    {p : ℕ} (hp : (s.pc t).pushing = some p) : s.queue.dequeuePosition + 1 ≤ p := by
  obtain ⟨hD, -, hs⟩ := hinv.knows_of_pushing hp
  rcases hD.lt_or_eq with hlt | rfl
  · exact hlt
  · exact absurd rfl (hinv.slotIndex_ne_of_full hk hseq hs)

/-- A later position of a slot is at least one lap behind. -/
lemma add_le_of_slotIndex_eq (hinv : Invariant k h s) {p p' : ℕ} (hlt : p < p')
    (heq : s.queue.slotIndex p' = s.queue.slotIndex p) : p + 2 ^ k ≤ p' :=
  Ring.add_le_of_mod_eq ((hinv.slotIndex_eq_iff _ _).mp heq.symm) hlt

/-! ### What a thread knows survives the steps of the others -/

/-- A claim of a push. -/
lemma knows_claimPush (hk : 1 ≤ k) (hinv : Invariant k h s)
    (hseq : s.queue.slotSequence s.queue.enqueuePosition = s.queue.enqueuePosition) (item : α)
    (t : ι) :
    Knows (s.queue.setEnqueuePosition (s.queue.enqueuePosition + 1)) (pushedItems h ++ [item])
      (s.pc t) := by
  have hlen := hinv.items_length
  have hold : ∀ {p : ℕ}, p < s.queue.enqueuePosition →
      (pushedItems h ++ [item])[p]? = (pushedItems h)[p]? := fun hp =>
    List.getElem?_append_left (by omega)
  have hknows := hinv.knows t
  have hemptied : ∀ p, (s.pc t).popping = some p → s.queue.enqueuePosition + 1 ≤ p + 2 ^ k :=
    fun _ => hinv.enqueue_lt_of_popping hk hseq
  cases hpc : s.pc t <;>
    simp only [hpc, Knows, Pc.popping, hinv.capacity,
      SharedQueue.setEnqueuePosition_enqueuePosition,
      SharedQueue.setEnqueuePosition_dequeuePosition,
      SharedQueue.setEnqueuePosition_capacity, SharedQueue.slotSequence_setEnqueuePosition,
      SharedQueue.slotData_setEnqueuePosition] at hknows hemptied ⊢
  case pushLoadSequence => omega
  case pushExchange => exact ⟨by omega, by omega⟩
  case pushCopy =>
    obtain ⟨hD, hE, hs, hi⟩ := hknows
    exact ⟨hD, by omega, hs, by rw [hold hE]; exact hi⟩
  case pushStoreSequence =>
    obtain ⟨hD, hE, hs, hi, hd⟩ := hknows
    exact ⟨hD, by omega, hs, by rw [hold hE]; exact hi, hd⟩
  case popLoadSequence => exact hknows
  case popExchange =>
    exact ⟨hknows.1, fun hp => ⟨(hknows.2 hp).1, (hknows.2 hp).2.trans (Nat.lt_succ_self _)⟩⟩
  case popCopy =>
    obtain ⟨hD, -, hs, hi⟩ := hknows
    exact ⟨hD, hemptied _ rfl, hs, by rw [hold (hD.trans_le hinv.dequeue_le)]; exact hi⟩
  case popStoreSequence =>
    obtain ⟨hD, -, hs, hi⟩ := hknows
    exact ⟨hD, hemptied _ rfl, hs, by rw [hold (hD.trans_le hinv.dequeue_le)]; exact hi⟩

/-- A copy into a slot that is being filled. -/
lemma knows_copyIn (hk : 1 ≤ k) (hinv : Invariant k h s) {t t' : ι} (ht : t' ≠ t) {p : ℕ}
    (hp : (s.pc t).pushing = some p) (item : α) :
    Knows (s.queue.copyIn p item) (pushedItems h) (s.pc t') := by
  obtain ⟨hD, hE, hseq⟩ := hinv.knows_of_pushing hp
  have hle := hinv.enqueue_le
  have hknows := hinv.knows t'
  have hne : ∀ p', (s.pc t').pushing = some p' → p' ≠ p := fun _ => hinv.ne_of_pushing ht hp
  cases hpc : s.pc t' <;>
    simp only [hpc, Knows, Pc.pushing, SharedQueue.copyIn_enqueuePosition,
      SharedQueue.copyIn_dequeuePosition, SharedQueue.copyIn_capacity,
      SharedQueue.slotSequence_copyIn, SharedQueue.slotData_copyIn] at hknows hne ⊢
  case pushLoadSequence | pushExchange | pushCopy | popLoadSequence | popExchange |
    popStoreSequence => exact hknows
  case pushStoreSequence item' p' =>
    obtain ⟨hD', hE', hs, hi, hd⟩ := hknows
    rw [if_neg (hinv.slotIndex_ne_of_window (hne p' rfl) hD' (by omega) hD (by omega))]
    exact ⟨hD', hE', hs, hi, hd⟩
  case popCopy p' =>
    rw [if_neg (hinv.slotIndex_ne_of_full hk hknows.2.2.1 hseq)]
    exact hknows

/-- A producer stores the sequence word of the slot it has filled. -/
lemma knows_pushTrue (hk : 1 ≤ k) (hinv : Invariant k h s) {t t' : ι} (ht : t' ≠ t) {p : ℕ}
    (hp : (s.pc t).pushing = some p) :
    Knows (s.queue.storeSequence p (p + 1)) (pushedItems h) (s.pc t') := by
  obtain ⟨hD, hE, hseq⟩ := hinv.knows_of_pushing hp
  have hle := hinv.enqueue_le
  have hcapacity := hinv.capacity
  have hknows := hinv.knows t'
  have hne : ∀ p', (s.pc t').pushing = some p' → p' ≠ p := fun _ => hinv.ne_of_pushing ht hp
  cases hpc : s.pc t' <;>
    simp only [hpc, Knows, Pc.pushing, SharedQueue.storeSequence_enqueuePosition,
      SharedQueue.storeSequence_dequeuePosition, SharedQueue.storeSequence_capacity,
      SharedQueue.slotSequence_storeSequence, SharedQueue.slotData_storeSequence] at hknows hne ⊢
  case pushLoadSequence | popLoadSequence => exact hknows
  case pushExchange item' p' =>
    refine ⟨hknows.1, ?_⟩
    intro hp'
    obtain ⟨hs, hroom⟩ := hknows.2 hp'
    rw [if_neg (hinv.slotIndex_ne_of_window (by omega) (by omega) (by omega) hD (by omega))]
    exact ⟨hs, hroom⟩
  case pushCopy item' p' =>
    obtain ⟨hD', hE', hs, hi⟩ := hknows
    rw [if_neg (hinv.slotIndex_ne_of_window (hne p' rfl) hD' (by omega) hD (by omega))]
    exact ⟨hD', hE', hs, hi⟩
  case pushStoreSequence item' p' =>
    obtain ⟨hD', hE', hs, hi, hd⟩ := hknows
    rw [if_neg (hinv.slotIndex_ne_of_window (hne p' rfl) hD' (by omega) hD (by omega))]
    exact ⟨hD', hE', hs, hi, hd⟩
  case popExchange p' =>
    refine ⟨hknows.1, ?_⟩
    intro hp'
    obtain ⟨hs, hlt⟩ := hknows.2 hp'
    rw [if_neg (hinv.slotIndex_ne_of_full hk hs hseq)]
    exact ⟨hs, hlt⟩
  case popCopy p' =>
    rw [if_neg (hinv.slotIndex_ne_of_full hk hknows.2.2.1 hseq)]
    exact hknows
  case popStoreSequence p' outItem =>
    rw [if_neg (hinv.slotIndex_ne_of_full hk hknows.2.2.1 hseq)]
    exact hknows

/-- A claim of a pop. -/
lemma knows_claimPop (hk : 1 ≤ k) (hinv : Invariant k h s)
    (hseq : s.queue.slotSequence s.queue.dequeuePosition = s.queue.dequeuePosition + 1) (t : ι) :
    Knows (s.queue.setDequeuePosition (s.queue.dequeuePosition + 1)) (pushedItems h) (s.pc t) := by
  have hknows := hinv.knows t
  have hfilled : ∀ p, (s.pc t).pushing = some p → s.queue.dequeuePosition + 1 ≤ p :=
    fun _ => hinv.dequeue_lt_of_pushing hk hseq
  cases hpc : s.pc t <;>
    simp only [hpc, Knows, Pc.pushing, hinv.capacity,
      SharedQueue.setDequeuePosition_enqueuePosition,
      SharedQueue.setDequeuePosition_dequeuePosition,
      SharedQueue.setDequeuePosition_capacity, SharedQueue.slotSequence_setDequeuePosition,
      SharedQueue.slotData_setDequeuePosition] at hknows hfilled ⊢
  case pushLoadSequence => exact hknows
  case pushExchange =>
    refine ⟨hknows.1, fun hp' => ⟨(hknows.2 hp').1, ?_⟩⟩
    have := (hknows.2 hp').2
    omega
  case pushCopy =>
    obtain ⟨-, hE, hs, hi⟩ := hknows
    exact ⟨hfilled _ rfl, hE, hs, hi⟩
  case pushStoreSequence =>
    obtain ⟨-, hE, hs, hi⟩ := hknows
    exact ⟨hfilled _ rfl, hE, hs, hi⟩
  case popLoadSequence => omega
  case popExchange => exact ⟨by omega, by omega⟩
  case popCopy => exact ⟨by omega, hknows.2⟩
  case popStoreSequence => exact ⟨by omega, hknows.2⟩

/-- A consumer stores the sequence word of the slot it has emptied. -/
lemma knows_popTrue (hk : 1 ≤ k) (hinv : Invariant k h s) {t t' : ι} (ht : t' ≠ t) {p : ℕ}
    (hp : (s.pc t).popping = some p) :
    Knows (s.queue.storeSequence p (p + 2 ^ k)) (pushedItems h) (s.pc t') := by
  obtain ⟨hD, hE, hseq⟩ := hinv.knows_of_popping hp
  have hle := hinv.enqueue_le
  have hknows := hinv.knows t'
  have hne : ∀ p', (s.pc t').popping = some p' → s.queue.slotIndex p' ≠ s.queue.slotIndex p :=
    fun _ => hinv.slotIndex_ne_of_popping ht hp
  cases hpc : s.pc t' <;>
    simp only [hpc, Knows, Pc.popping, SharedQueue.storeSequence_enqueuePosition,
      SharedQueue.storeSequence_dequeuePosition, SharedQueue.storeSequence_capacity,
      SharedQueue.slotSequence_storeSequence, SharedQueue.slotData_storeSequence] at hknows hne ⊢
  case pushLoadSequence | popLoadSequence => exact hknows
  case pushExchange item' p' =>
    refine ⟨hknows.1, ?_⟩
    intro hp'
    obtain ⟨hs, hroom⟩ := hknows.2 hp'
    rw [if_neg (hinv.slotIndex_ne_of_full hk hseq hs).symm]
    exact ⟨hs, hroom⟩
  case pushCopy item' p' =>
    rw [if_neg (hinv.slotIndex_ne_of_full hk hseq hknows.2.2.1).symm]
    exact hknows
  case pushStoreSequence item' p' =>
    rw [if_neg (hinv.slotIndex_ne_of_full hk hseq hknows.2.2.1).symm]
    exact hknows
  case popExchange p' =>
    refine ⟨hknows.1, ?_⟩
    intro hp'
    obtain ⟨hs, hlt⟩ := hknows.2 hp'
    have hslot : s.queue.slotIndex p' ≠ s.queue.slotIndex p := by
      intro heq
      have := hinv.add_le_of_slotIndex_eq (by omega) heq
      omega
    rw [if_neg hslot]
    exact ⟨hs, hlt⟩
  case popCopy p' =>
    rw [if_neg (hne p' rfl)]
    exact hknows
  case popStoreSequence p' outItem' =>
    rw [if_neg (hne p' rfl)]
    exact hknows

/-! ### Preservation, by the kind of step -/

variable [DecidableEq ι]

lemma move_pushing {t : ι} {q : SharedQueue α} {c : Pc α}
    (hpc : c.pushing = (s.pc t).pushing) (t' : ι) :
    ((s.move t q c).pc t').pushing = (s.pc t').pushing := by
  by_cases ht : t' = t
  · subst ht
    simpa using hpc
  · simp [ht]

lemma move_popping {t : ι} {q : SharedQueue α} {c : Pc α}
    (hpc : c.popping = (s.pc t).popping) (t' : ι) :
    ((s.move t q c).pc t').popping = (s.pc t').popping := by
  by_cases ht : t' = t
  · subst ht
    simpa using hpc
  · simp [ht]

lemma move_knows {t : ι} {q : SharedQueue α} {items : List α} {c : Pc α}
    (hown : Knows q items c) (hothers : ∀ t', t' ≠ t → Knows q items (s.pc t')) (t' : ι) :
    Knows (s.move t q c).queue items ((s.move t q c).pc t') := by
  by_cases ht : t' = t
  · subst ht
    simpa using hown
  · simpa [ht] using hothers t' ht

/-- A phase stays that of one thread for each position, if the thread that moves enters it
only for a position for which no thread is in it. -/
lemma move_unique {f : Pc α → Option ℕ} {t : ι} {q : SharedQueue α} {c : Pc α}
    (hunique : ∀ t₁ t₂ p, f (s.pc t₁) = some p → f (s.pc t₂) = some p → t₁ = t₂)
    (hfresh : ∀ t' p, f c = some p → f (s.pc t') ≠ some p) (t₁ t₂ : ι) (p : ℕ)
    (hp₁ : f ((s.move t q c).pc t₁) = some p) (hp₂ : f ((s.move t q c).pc t₂) = some p) :
    t₁ = t₂ := by
  by_cases ht₁ : t₁ = t <;> by_cases ht₂ : t₂ = t
  · rw [ht₁, ht₂]
  · subst ht₁
    simp only [State.move_pc, Function.update_self, Function.update_of_ne ht₂] at hp₁ hp₂
    exact absurd hp₂ (hfresh t₂ p hp₁)
  · subst ht₂
    simp only [State.move_pc, Function.update_self, Function.update_of_ne ht₁] at hp₁ hp₂
    exact absurd hp₁ (hfresh t₁ p hp₂)
  · simp only [State.move_pc, Function.update_of_ne ht₁, Function.update_of_ne ht₂] at hp₁ hp₂
    exact hunique t₁ t₂ p hp₁ hp₂

/-- A step that claims nothing, stores nothing into a slot and stays in or out
of a copy phase only has to establish what the thread knows next. -/
lemma quiet (hinv : Invariant k h s) {t : ι} {e : Event ι α} {pc : Pc α} {b : Bool}
    (hpush : e.pushClaim = none) (hpop : e.popClaim = none)
    (hpushing : pc.pushing = (s.pc t).pushing) (hpopping : pc.popping = (s.pc t).popping)
    (hknows : Knows s.queue (pushedItems h) pc) :
    Invariant k (h ++ [e]) (s.move t (s.queue.storeClosed b) pc) := by
  have hpushes : pushClaims (h ++ [e]) = pushClaims h := by simp [pushClaims_snoc, hpush]
  have hpops : popClaims (h ++ [e]) = popClaims h := by simp [popClaims_snoc, hpop]
  have hitems : pushedItems (h ++ [e]) = pushedItems h := by simp [pushedItems, hpushes]
  have hclosed : ∀ pc : Pc α, Knows (s.queue.storeClosed b) (pushedItems h) pc ↔
      Knows s.queue (pushedItems h) pc := by
    intro pc
    cases pc <;> rfl
  have hpu := move_pushing (q := s.queue.storeClosed b) hpushing
  have hpo := move_popping (q := s.queue.storeClosed b) hpopping
  constructor
  case capacity => exact hinv.capacity
  case capacityMask => exact hinv.capacityMask
  case pushPositions => rw [hpushes]; exact hinv.pushPositions
  case popPositions => rw [hpops]; exact hinv.popPositions
  case dequeue_le => exact hinv.dequeue_le
  case enqueue_le => exact hinv.enqueue_le
  case word_lt => exact hinv.word_lt
  case knows =>
    rw [hitems]
    refine move_knows ((hclosed pc).mpr hknows) ?_
    intro t' _
    exact (hclosed _).mpr (hinv.knows t')
  case pushing_unique => simpa only [hpu] using hinv.pushing_unique
  case popping_unique => simpa only [hpo] using hinv.popping_unique
  case full =>
    intro p
    simp only [hpu, hitems]
    exact hinv.full p
  case free =>
    intro p
    simp only [hpo]
    exact hinv.free p

/-- A producer wins the compare-and-exchange. -/
lemma claimPush (hk : 1 ≤ k) (hinv : Invariant k h s) {t : ι} {item : α}
    (hpc : s.pc t = .pushExchange item s.queue.enqueuePosition) :
    Invariant k (h ++ [.claimPush t s.queue.enqueuePosition item])
      (s.move t (s.queue.setEnqueuePosition (s.queue.enqueuePosition + 1))
        (.pushCopy item s.queue.enqueuePosition)) := by
  have hknows := hinv.knows t
  rw [hpc] at hknows
  obtain ⟨hseq, hroom⟩ := hknows.2 rfl
  rw [hinv.capacity] at hroom
  have hlen := hinv.items_length
  have hitems : pushedItems (h ++ [.claimPush t s.queue.enqueuePosition item]) =
      pushedItems h ++ [item] := by
    simp [pushedItems, pushClaims_snoc, Event.pushClaim]
  have hold : ∀ {p : ℕ}, p < s.queue.enqueuePosition →
      (pushedItems h ++ [item])[p]? = (pushedItems h)[p]? := fun hp =>
    List.getElem?_append_left (by omega)
  have hother : ∀ t' p, (s.pc t').pushing = some p → t' ≠ t := by
    rintro t' p hp rfl
    simp [hpc, Pc.pushing] at hp
  have hpo := move_popping (s := s) (t := t)
    (q := s.queue.setEnqueuePosition (s.queue.enqueuePosition + 1))
    (c := .pushCopy item s.queue.enqueuePosition) (by simp [hpc, Pc.popping])
  constructor
  case capacity => exact hinv.capacity
  case capacityMask => exact hinv.capacityMask
  case pushPositions =>
    simp [pushClaims_snoc, Event.pushClaim, hinv.pushPositions, List.range_succ]
  case popPositions => simpa [popClaims_snoc, Event.popClaim] using hinv.popPositions
  case dequeue_le => exact hinv.dequeue_le.trans (Nat.le_succ _)
  case enqueue_le => exact hroom
  case word_lt => exact hinv.word_lt
  case knows =>
    rw [hitems]
    refine move_knows ?_ fun t' _ => hinv.knows_claimPush hk hseq item t'
    exact ⟨hinv.dequeue_le, Nat.lt_succ_self _, hseq, by simp [← hlen]⟩
  case pushing_unique =>
    refine move_unique hinv.pushing_unique ?_
    intro t' p hp hp'
    obtain rfl := Option.some_injective _ hp
    exact lt_irrefl _ (hinv.knows_of_pushing hp').2.1
  case popping_unique => simpa only [hpo] using hinv.popping_unique
  case full =>
    intro p hD hE
    simp only [State.move_queue, SharedQueue.setEnqueuePosition_enqueuePosition,
      SharedQueue.setEnqueuePosition_dequeuePosition] at hD hE
    rcases (Nat.lt_succ_iff.mp hE).lt_or_eq with hlt | rfl
    · rcases hinv.full p hD hlt with ⟨t', hp⟩ | ⟨hs, hi⟩
      · exact Or.inl ⟨t', by simpa [Function.update_of_ne (hother t' p hp)] using hp⟩
      · exact Or.inr ⟨hs, by rw [hitems, hold hlt]; exact hi⟩
    · exact Or.inl ⟨t, by simp [Pc.pushing]⟩
  case free =>
    intro p hE hD
    simp only [hpo]
    exact hinv.free p (Nat.le_of_succ_le hE) hD

/-- A producer that has claimed a position copies its item. -/
lemma copyIn (hk : 1 ≤ k) (hinv : Invariant k h s) {t : ι} {item : α} {p : ℕ}
    (hpc : s.pc t = .pushCopy item p) :
    Invariant k (h ++ [.copyIn t p item])
      (s.move t (s.queue.copyIn p item) (.pushStoreSequence item p)) := by
  have hknows := hinv.knows t
  rw [hpc] at hknows
  obtain ⟨hD, hE, hseq, hitem⟩ := hknows
  have hitems : pushedItems (h ++ [.copyIn t p item]) = pushedItems h := by
    simp [pushedItems, pushClaims_snoc, Event.pushClaim]
  have hpu := move_pushing (s := s) (t := t) (q := s.queue.copyIn p item)
    (c := .pushStoreSequence item p) (by simp [hpc, Pc.pushing])
  have hpo := move_popping (s := s) (t := t) (q := s.queue.copyIn p item)
    (c := .pushStoreSequence item p) (by simp [hpc, Pc.popping])
  constructor
  case capacity => exact hinv.capacity
  case capacityMask => exact hinv.capacityMask
  case pushPositions => simpa [pushClaims_snoc, Event.pushClaim] using hinv.pushPositions
  case popPositions => simpa [popClaims_snoc, Event.popClaim] using hinv.popPositions
  case dequeue_le => exact hinv.dequeue_le
  case enqueue_le => exact hinv.enqueue_le
  case word_lt => simpa using hinv.word_lt
  case knows =>
    rw [hitems]
    refine move_knows ?_ fun t' ht => hinv.knows_copyIn hk ht (by simp [hpc, Pc.pushing]) item
    simpa [Knows, SharedQueue.slotData_copyIn] using ⟨hD, hE, hseq, hitem⟩
  case pushing_unique => simpa only [hpu] using hinv.pushing_unique
  case popping_unique => simpa only [hpo] using hinv.popping_unique
  case full =>
    intro p' hD' hE'
    simp only [hpu, hitems, State.move_queue, SharedQueue.slotSequence_copyIn,
      SharedQueue.slotData_copyIn]
    rcases hinv.full p' hD' hE' with hp' | ⟨hs, hi⟩
    · exact Or.inl hp'
    · rw [if_neg (hinv.slotIndex_ne_of_full hk hs hseq)]
      exact Or.inr ⟨hs, hi⟩
  case free =>
    intro p' hE' hD'
    simp only [hpo, State.move_queue, SharedQueue.slotSequence_copyIn]
    exact hinv.free p' hE' hD'

/-- A producer publishes its item. -/
lemma pushTrue (hk : 1 ≤ k) (hinv : Invariant k h s) {t : ι} {item : α} {p : ℕ}
    (hpc : s.pc t = .pushStoreSequence item p) (hword : p + 1 < 2 ^ 64) :
    Invariant k (h ++ [.pushTrue t p item])
      (s.move t (s.queue.storeSequence p (p + 1)) .idle) := by
  have hknows := hinv.knows t
  rw [hpc] at hknows
  obtain ⟨hD, hE, hseq, hitem, hdata⟩ := hknows
  have hle := hinv.enqueue_le
  have hitems : pushedItems (h ++ [.pushTrue t p item]) = pushedItems h := by
    simp [pushedItems, pushClaims_snoc, Event.pushClaim]
  have hpo := move_popping (s := s) (t := t) (q := s.queue.storeSequence p (p + 1))
    (c := .idle) (by simp [hpc, Pc.popping])
  constructor
  case capacity => exact hinv.capacity
  case capacityMask => exact hinv.capacityMask
  case pushPositions => simpa [pushClaims_snoc, Event.pushClaim] using hinv.pushPositions
  case popPositions => simpa [popClaims_snoc, Event.popClaim] using hinv.popPositions
  case dequeue_le => exact hinv.dequeue_le
  case enqueue_le => exact hinv.enqueue_le
  case word_lt =>
    intro p'
    simp only [State.move_queue, SharedQueue.slotSequence_storeSequence]
    split_ifs
    · exact hword
    · exact hinv.word_lt p'
  case knows =>
    rw [hitems]
    exact move_knows trivial fun t' ht => hinv.knows_pushTrue hk ht (by simp [hpc, Pc.pushing])
  case pushing_unique => exact move_unique hinv.pushing_unique (by simp [Pc.pushing])
  case popping_unique => simpa only [hpo] using hinv.popping_unique
  case full =>
    intro p' hD' hE'
    simp only [State.move_queue, SharedQueue.storeSequence_enqueuePosition,
      SharedQueue.storeSequence_dequeuePosition] at hD' hE'
    simp only [hitems, State.move_queue, SharedQueue.slotSequence_storeSequence,
      SharedQueue.slotData_storeSequence]
    by_cases hp' : p' = p
    · subst hp'
      exact Or.inr ⟨if_pos rfl, by rw [hitem, hdata]⟩
    · rw [if_neg (hinv.slotIndex_ne_of_window hp' hD' (by omega) hD (by omega))]
      rcases hinv.full p' hD' hE' with ⟨t', hpt⟩ | hs
      · have ht : t' ≠ t := by
          rintro rfl
          simp only [hpc, Pc.pushing, Option.some.injEq] at hpt
          exact hp' hpt.symm
        exact Or.inl ⟨t', by simpa [Function.update_of_ne ht] using hpt⟩
      · exact Or.inr hs
  case free =>
    intro p' hE' hD'
    simp only [State.move_queue, SharedQueue.storeSequence_enqueuePosition,
      SharedQueue.storeSequence_dequeuePosition] at hD' hE'
    simp only [hpo, State.move_queue, SharedQueue.slotSequence_storeSequence]
    rw [if_neg (hinv.slotIndex_ne_of_window (by omega) (by omega) hD' hD (by omega))]
    exact hinv.free p' hE' hD'

/-- A consumer wins the compare-and-exchange. -/
lemma claimPop (hk : 1 ≤ k) (hinv : Invariant k h s) {t : ι}
    (hpc : s.pc t = .popExchange s.queue.dequeuePosition) :
    Invariant k (h ++ [.claimPop t s.queue.dequeuePosition])
      (s.move t (s.queue.setDequeuePosition (s.queue.dequeuePosition + 1))
        (.popCopy s.queue.dequeuePosition)) := by
  have hknows := hinv.knows t
  rw [hpc] at hknows
  obtain ⟨hseq, hlt⟩ := hknows.2 rfl
  have hle := hinv.enqueue_le
  have hitems : pushedItems (h ++ [.claimPop t s.queue.dequeuePosition]) = pushedItems h := by
    simp [pushedItems, pushClaims_snoc, Event.pushClaim]
  have hdata : (pushedItems h)[s.queue.dequeuePosition]? =
      some (s.queue.slotData s.queue.dequeuePosition) := by
    rcases hinv.full _ le_rfl hlt with ⟨t', hp⟩ | ⟨-, hi⟩
    · have := hinv.dequeue_lt_of_pushing hk hseq hp
      omega
    · exact hi
  have hother : ∀ t' p, (s.pc t').popping = some p → t' ≠ t := by
    rintro t' p hp rfl
    simp [hpc, Pc.popping] at hp
  have hpu := move_pushing (s := s) (t := t)
    (q := s.queue.setDequeuePosition (s.queue.dequeuePosition + 1))
    (c := .popCopy s.queue.dequeuePosition) (by simp [hpc, Pc.pushing])
  constructor
  case capacity => exact hinv.capacity
  case capacityMask => exact hinv.capacityMask
  case pushPositions => simpa [pushClaims_snoc, Event.pushClaim] using hinv.pushPositions
  case popPositions =>
    simp [popClaims_snoc, Event.popClaim, hinv.popPositions, List.range_succ]
  case dequeue_le => exact hlt
  case enqueue_le =>
    simp only [State.move_queue, SharedQueue.setDequeuePosition_enqueuePosition,
      SharedQueue.setDequeuePosition_dequeuePosition]
    omega
  case word_lt => exact hinv.word_lt
  case knows =>
    rw [hitems]
    refine move_knows ?_ fun t' _ => hinv.knows_claimPop hk hseq t'
    refine ⟨Nat.lt_succ_self _, ?_, hseq, hdata⟩
    rw [SharedQueue.setDequeuePosition_capacity, hinv.capacity]
    exact hle
  case pushing_unique => simpa only [hpu] using hinv.pushing_unique
  case popping_unique =>
    refine move_unique hinv.popping_unique ?_
    intro t' p hp hp'
    obtain rfl := Option.some_injective _ hp
    exact lt_irrefl _ (hinv.knows_of_popping hp').1
  case full =>
    intro p hD hE
    simp only [hpu, hitems]
    exact hinv.full p (Nat.le_of_succ_le hD) hE
  case free =>
    intro p hE hD
    simp only [State.move_queue, SharedQueue.setDequeuePosition_enqueuePosition,
      SharedQueue.setDequeuePosition_dequeuePosition] at hE hD
    by_cases hp : p < s.queue.dequeuePosition + 2 ^ k
    · rcases hinv.free p hE hp with hs | ⟨t', p', hpp', hp'⟩
      · exact Or.inl hs
      · exact Or.inr ⟨t', p', hpp', by simpa [Function.update_of_ne (hother t' p' hp')] using hp'⟩
    · exact Or.inr ⟨t, s.queue.dequeuePosition, by omega, by simp [Pc.popping]⟩

/-- A consumer gives its slot back for the next lap. -/
lemma popTrue (hk : 1 ≤ k) (hinv : Invariant k h s) {t : ι} {outItem : α} {p : ℕ}
    (hpc : s.pc t = .popStoreSequence p outItem) (hword : p + 2 ^ k < 2 ^ 64) :
    Invariant k (h ++ [.popTrue t p outItem])
      (s.move t (s.queue.storeSequence p (p + 2 ^ k)) .idle) := by
  have hknows := hinv.knows t
  rw [hpc] at hknows
  obtain ⟨hD, hE, hseq, hitem⟩ := hknows
  rw [hinv.capacity] at hE
  have hle := hinv.enqueue_le
  have hmod : (p + 2 ^ k) % 2 ^ k = p % 2 ^ k := by simp
  have hitems : pushedItems (h ++ [.popTrue t p outItem]) = pushedItems h := by
    simp [pushedItems, pushClaims_snoc, Event.pushClaim]
  have hpu := move_pushing (s := s) (t := t) (q := s.queue.storeSequence p (p + 2 ^ k))
    (c := .idle) (by simp [hpc, Pc.pushing])
  constructor
  case capacity => exact hinv.capacity
  case capacityMask => exact hinv.capacityMask
  case pushPositions => simpa [pushClaims_snoc, Event.pushClaim] using hinv.pushPositions
  case popPositions => simpa [popClaims_snoc, Event.popClaim] using hinv.popPositions
  case dequeue_le => exact hinv.dequeue_le
  case enqueue_le => exact hinv.enqueue_le
  case word_lt =>
    intro p'
    simp only [State.move_queue, SharedQueue.slotSequence_storeSequence]
    split_ifs
    · exact hword
    · exact hinv.word_lt p'
  case knows =>
    rw [hitems]
    exact move_knows trivial fun t' ht => hinv.knows_popTrue hk ht (by simp [hpc, Pc.popping])
  case pushing_unique => simpa only [hpu] using hinv.pushing_unique
  case popping_unique => exact move_unique hinv.popping_unique (by simp [Pc.popping])
  case full =>
    intro p' hD' hE'
    simp only [State.move_queue, SharedQueue.storeSequence_enqueuePosition,
      SharedQueue.storeSequence_dequeuePosition] at hD' hE'
    have hslot : s.queue.slotIndex p' ≠ s.queue.slotIndex p := by
      intro heq
      have := hinv.add_le_of_slotIndex_eq (by omega) heq
      omega
    simp only [hpu, hitems, State.move_queue, SharedQueue.slotSequence_storeSequence,
      SharedQueue.slotData_storeSequence]
    rw [if_neg hslot]
    exact hinv.full p' hD' hE'
  case free =>
    intro p' hE' hD'
    simp only [State.move_queue, SharedQueue.storeSequence_enqueuePosition,
      SharedQueue.storeSequence_dequeuePosition] at hE' hD'
    have hDE := hinv.dequeue_le
    simp only [State.move_queue, SharedQueue.slotSequence_storeSequence]
    by_cases hp' : p' = p + 2 ^ k
    · subst hp'
      rw [if_pos ((hinv.slotIndex_eq_iff _ _).mpr hmod)]
      exact Or.inl rfl
    · have hslot : s.queue.slotIndex p' ≠ s.queue.slotIndex p := by
        intro heq
        have hlt := hinv.add_le_of_slotIndex_eq (by omega) heq
        have hmod' : (p + 2 ^ k) % 2 ^ k = p' % 2 ^ k := by
          rw [hmod, (hinv.slotIndex_eq_iff _ _).mp heq]
        have := Ring.add_le_of_mod_eq hmod' (by omega)
        omega
      rw [if_neg hslot]
      rcases hinv.free p' hE' hD' with hs | ⟨t', p'', hpp', hpt⟩
      · exact Or.inl hs
      · have ht : t' ≠ t := by
          rintro rfl
          simp only [hpc, Pc.popping, Option.some.injEq] at hpt
          omega
        exact Or.inr ⟨t', p'', hpp', by simpa [Function.update_of_ne ht] using hpt⟩

/-! ### Every run keeps the invariant -/

omit [DecidableEq ι] in
/-- If the slot of the next push is free, there is room. -/
lemma room_of_free (hk : 1 ≤ k) (hinv : Invariant k h s)
    (hseq : s.queue.slotSequence s.queue.enqueuePosition = s.queue.enqueuePosition) :
    s.queue.enqueuePosition < s.queue.dequeuePosition + 2 ^ k := by
  have hcap : 2 ≤ 2 ^ k := Nat.pow_le_pow_right (n := 2) (by norm_num) hk
  by_contra hroom
  have hE : s.queue.enqueuePosition = s.queue.dequeuePosition + 2 ^ k := by
    have := hinv.enqueue_le
    omega
  have hcongr : s.queue.slotSequence s.queue.enqueuePosition =
      s.queue.slotSequence s.queue.dequeuePosition :=
    hinv.slotSequence_congr (by simp [hE])
  rcases hinv.full s.queue.dequeuePosition le_rfl (by omega) with ⟨t, hp⟩ | ⟨hs, -⟩
  · have := (hinv.knows_of_pushing hp).2.2
    omega
  · omega

omit [DecidableEq ι] in
/-- If the slot of the next pop is full, there is an item. -/
lemma lt_of_full (hinv : Invariant k h s)
    (hseq : s.queue.slotSequence s.queue.dequeuePosition = s.queue.dequeuePosition + 1) :
    s.queue.dequeuePosition < s.queue.enqueuePosition := by
  have hpos : 0 < 2 ^ k := by positivity
  refine lt_of_le_of_ne hinv.dequeue_le ?_
  intro hDE
  rcases hinv.free s.queue.dequeuePosition hDE.ge (by omega) with hs | ⟨t, p, hp, hpt⟩
  · omega
  · have hs := (hinv.knows_of_popping hpt).2.2
    have hcongr : s.queue.slotSequence s.queue.dequeuePosition = s.queue.slotSequence p :=
      hinv.slotSequence_congr (by simp [hp])
    omega

/-- One step keeps the invariant while the positions stay below `2 ^ 63`. -/
lemma step (hk : 1 ≤ k) (hk' : k ≤ 63) (hinv : Invariant k h s)
    (hbound : s.queue.enqueuePosition < 2 ^ 63) {t : ι} {e : Event ι α} {queue : SharedQueue α}
    {pc : Pc α} (hs : Transition s.queue t (s.pc t) e queue pc) :
    Invariant k (h ++ [e]) (s.move t queue pc) := by
  have hcap : 2 ^ k ≤ 2 ^ 63 := Nat.pow_le_pow_right (n := 2) (by norm_num) hk'
  have hDE := hinv.dequeue_le
  have hknows := hinv.knows t
  generalize hpc : s.pc t = pc₀ at hs hknows
  cases hs
  case call operation =>
    refine hinv.quiet rfl rfl ?_ ?_ ?_ <;> cases operation <;>
      simp [hpc, Operation.entry, Pc.pushing, Pc.popping, Knows]
  case pushFree item p hd =>
    have hp : p ≤ s.queue.enqueuePosition := hknows
    rw [signedDifference_eq_zero_iff (hinv.word_lt p) (by omega)] at hd
    refine hinv.quiet rfl rfl (by simp [hpc, Pc.pushing]) (by simp [hpc, Pc.popping]) ?_
    refine ⟨hp, fun hpE => ⟨hd, ?_⟩⟩
    subst hpE
    rw [hinv.capacity]
    exact hinv.room_of_free hk hd
  case popReady p hd =>
    have hp : p ≤ s.queue.dequeuePosition := hknows
    rw [word_of_lt (by omega), signedDifference_eq_zero_iff (hinv.word_lt p) (by omega)] at hd
    refine hinv.quiet rfl rfl (by simp [hpc, Pc.pushing]) (by simp [hpc, Pc.popping]) ?_
    refine ⟨hp, fun hpD => ⟨hd, ?_⟩⟩
    subst hpD
    exact hinv.lt_of_full hd
  case pushClaim =>
    rw [word_of_lt (by omega)]
    exact hinv.claimPush hk hpc
  case popClaim =>
    rw [word_of_lt (by omega)]
    exact hinv.claimPop hk hpc
  case pushCopied => exact hinv.copyIn hk hpc
  case popCopied p =>
    exact hinv.quiet rfl rfl (by simp [hpc, Pc.pushing]) (by simp [hpc, Pc.popping]) hknows
  case pushStored item p =>
    have hp : p < s.queue.enqueuePosition := hknows.2.1
    rw [word_of_lt (by omega)]
    exact hinv.pushTrue hk hpc (by omega)
  case popStored p outItem =>
    have hp : p < s.queue.dequeuePosition := hknows.1
    rw [hinv.capacity, word_of_lt (by omega)]
    exact hinv.popTrue hk hpc (by omega)
  case pushPosition | pushLost | popPosition | popLost =>
    exact hinv.quiet rfl rfl (by simp [hpc, Pc.pushing]) (by simp [hpc, Pc.popping]) le_rfl
  all_goals
    exact hinv.quiet rfl rfl (by simp [hpc, Pc.pushing]) (by simp [hpc, Pc.popping]) trivial

omit [DecidableEq ι] in
lemma create (hk' : k ≤ 63) (zero : α) : Invariant k [] (State.create zero (2 ^ k) : State ι α) := by
  have hseq : ∀ p, ((State.create zero (2 ^ k) : State ι α).queue).slotSequence p = p % 2 ^ k := by
    intro p
    rw [← SharedQueue.slotIndex_eq_mod (SharedQueue.create zero (2 ^ k)) p rfl]
    rfl
  have hcap : 2 ^ k ≤ 2 ^ 63 := Nat.pow_le_pow_right (n := 2) (by norm_num) hk'
  constructor
  case capacity | capacityMask => rfl
  case pushPositions | popPositions => rfl
  case dequeue_le => exact le_rfl
  case enqueue_le => exact Nat.zero_le _
  case word_lt =>
    intro p
    rw [hseq]
    have := Nat.mod_lt p (show 0 < 2 ^ k by positivity)
    omega
  case knows =>
    intro t
    trivial
  case pushing_unique | popping_unique =>
    intro t t' p hp
    simp [Pc.pushing, Pc.popping] at hp
  case full =>
    intro p _ hp
    exact absurd hp (Nat.not_lt_zero p)
  case free =>
    intro p _ hp
    simp only [State.create_queue, SharedQueue.create_dequeuePosition, Nat.zero_add] at hp
    exact Or.inl (by rw [hseq, Nat.mod_eq_of_lt hp])

/-- The invariant holds after every run with fewer than `2 ^ 63` claims. -/
lemma run (hk : 1 ≤ k) (hk' : k ≤ 63) {zero : α} (hrun : machine.Run (State.create zero (2 ^ k)) h s)
    (hbound : (pushClaims h).length < 2 ^ 63) : Invariant k h s := by
  refine hrun.invariant (P := fun h s => (pushClaims h).length < 2 ^ 63 → Invariant k h s)
    (fun _ => create hk' zero) ?_ hbound
  intro h s c e s' _ ih hs hbound
  have hlen : (pushClaims h).length < 2 ^ 63 := by
    rw [pushClaims_snoc, List.length_append] at hbound
    omega
  obtain ⟨t, queue, pc, htr, rfl⟩ := step_inv hs
  have hinv := ih hlen
  exact hinv.step hk hk' (by rw [hinv.enqueue_eq]; exact hlen) htr

end Invariant

end BcConcurrency.Queue
