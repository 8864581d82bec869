import BcConcurrency.Queue.Drain
import BcConcurrency.Queue.ExactlyOnce
import BcConcurrency.Queue.WeakMemory

/-!
# The queue is correct on weak memory

A run on weak memory keeps the invariant of the slots, of a queue that holds the
newest message of every location: a stale position makes the exchange fail, and
a stale sequence word is too small to be taken for that of a current position.

The views say more.  Whoever may copy into or out of a slot has seen all that
was done in it, and a slot that nobody holds carries that knowledge in its
newest sequence word.  So no two copies race, and a consumer has seen all that
its producer had seen.
-/

namespace BcConcurrency.Queue

variable {ι α : Type*}

/-! ### Threads with a grip on a slot -/

/-- The position whose slot a thread is about to claim, or has claimed and
copies. -/
def Pc.reserved (queue : SharedQueue α) : Pc α → Option ℕ
  | .pushExchange _ p => if p = queue.enqueuePosition then some p else none
  | .popExchange p => if p = queue.dequeuePosition then some p else none
  | pc => pc.copying

lemma Pc.reserved_cases {queue : SharedQueue α} {pc : Pc α} {p : ℕ}
    (hp : pc.reserved queue = some p) : pc.copying = some p ∨
      (∃ item, pc = .pushExchange item p ∧ p = queue.enqueuePosition) ∨
      (pc = .popExchange p ∧ p = queue.dequeuePosition) := by
  cases pc <;> simp only [Pc.reserved] at hp
  case pushExchange item p' =>
    split at hp <;> cases hp
    exact Or.inr (Or.inl ⟨item, rfl, ‹_›⟩)
  case popExchange p' =>
    split at hp <;> cases hp
    exact Or.inr (Or.inr ⟨rfl, ‹_›⟩)
  all_goals exact Or.inl hp

lemma Pc.reserved_of_copying {queue : SharedQueue α} {pc : Pc α} {p : ℕ}
    (hp : pc.copying = some p) : pc.reserved queue = some p := by
  cases pc <;> simp_all [Pc.reserved, Pc.copying, Pc.pushing, Pc.popping]

namespace Invariant

variable {k : ℕ} {h : List (Event ι α)} {s : State ι α}

/-- The slot of the next push is not ahead of it. -/
lemma slotSequence_enqueue_le (hinv : Invariant k h s) :
    s.queue.slotSequence s.queue.enqueuePosition ≤ s.queue.enqueuePosition := by
  have hpos : 0 < 2 ^ k := by positivity
  rcases hinv.enqueue_le.lt_or_eq with hlt | heq
  · have := hinv.slotSequence_of_window hinv.dequeue_le hlt
    omega
  · have hcongr : s.queue.slotSequence s.queue.enqueuePosition =
        s.queue.slotSequence s.queue.dequeuePosition := hinv.slotSequence_congr (by simp [heq])
    have := hinv.slotSequence_of_window le_rfl (by omega)
    omega

/-- The slot of the next pop is at most ready for it. -/
lemma slotSequence_dequeue_le (hinv : Invariant k h s) :
    s.queue.slotSequence s.queue.dequeuePosition ≤ s.queue.dequeuePosition + 1 := by
  have hDE := hinv.dequeue_le
  have hpos : 0 < 2 ^ k := by positivity
  have := hinv.slotSequence_of_window le_rfl (by omega)
  omega

/-- The sequence word of a slot in a copy phase. -/
lemma slotSequence_of_copying (hinv : Invariant k h s) {t : ι} {p : ℕ}
    (hp : (s.pc t).copying = some p) :
    (p < s.queue.enqueuePosition ∧ s.queue.slotSequence p = p) ∨
      (p < s.queue.dequeuePosition ∧ s.queue.slotSequence p = p + 1) := by
  rcases Option.or_eq_some_iff.mp hp with hpush | ⟨-, hpop⟩
  · obtain ⟨-, hE, hseq⟩ := hinv.knows_of_pushing hpush
    exact Or.inl ⟨hE, hseq⟩
  · obtain ⟨hD, -, hseq⟩ := hinv.knows_of_popping hpop
    exact Or.inr ⟨hD, hseq⟩

/-- While the slot of the next push is free, nobody copies in it. -/
lemma not_copying_of_free (hk : 1 ≤ k) (hinv : Invariant k h s)
    (hseq : s.queue.slotSequence s.queue.enqueuePosition = s.queue.enqueuePosition) {t : ι} {p : ℕ}
    (hp : (s.pc t).copying = some p) :
    s.queue.slotIndex p ≠ s.queue.slotIndex s.queue.enqueuePosition := by
  rcases hinv.slotSequence_of_copying hp with ⟨hE, hs⟩ | ⟨-, hs⟩
  · refine slotIndex_ne_of_slotSequence_ne ?_
    omega
  · exact hinv.slotIndex_ne_of_full hk hs hseq

/-- While the slot of the next pop is ready, nobody copies in it. -/
lemma not_copying_of_ready (hk : 1 ≤ k) (hinv : Invariant k h s)
    (hseq : s.queue.slotSequence s.queue.dequeuePosition = s.queue.dequeuePosition + 1) {t : ι}
    {p : ℕ} (hp : (s.pc t).copying = some p) :
    s.queue.slotIndex p ≠ s.queue.slotIndex s.queue.dequeuePosition := by
  rcases hinv.slotSequence_of_copying hp with ⟨-, hs⟩ | ⟨hD, hs⟩
  · exact (hinv.slotIndex_ne_of_full hk hseq hs).symm
  · refine slotIndex_ne_of_slotSequence_ne ?_
    omega

/-- The slot in which a thread copies is not reserved by another one. -/
lemma reserved_ne (hk : 1 ≤ k) (hinv : Invariant k h s) {t t' : ι} (ht : t ≠ t') {p p' : ℕ}
    (hp : (s.pc t).copying = some p) (hp' : (s.pc t').reserved s.queue = some p') :
    s.queue.slotIndex p ≠ s.queue.slotIndex p' := by
  have hknows := hinv.knows t'
  rcases Pc.reserved_cases hp' with hcopy | ⟨item, hpc, rfl⟩ | ⟨hpc, rfl⟩
  · exact hinv.exclusive hk ht hp hcopy
  · rw [hpc] at hknows
    exact hinv.not_copying_of_free hk (hknows.2 rfl).1 hp
  · rw [hpc] at hknows
    exact hinv.not_copying_of_ready hk (hknows.2 rfl).1 hp

end Invariant

/-! ### What a view covers -/

/-- The position of an operation that has stored a sequence word. -/
def Event.stored : Event ι α → Option ℕ
  | .pushTrue _ position _ => some position
  | .popTrue _ position _ => some position
  | _ => none

/-- The view covers all that has been done in a slot: the newest sequence word,
the copies of the payload, and all that the threads which stored a sequence word
there had seen. -/
structure Covers (h : List (Event ι α × View (Location ι))) (queue : WeakQueue ι α)
    (slotIndex : ℕ) (view : View (Location ι)) : Prop where
  newest : ∀ time message, (queue.sequence slotIndex).Latest time message →
    time ≤ view (.sequence slotIndex)
  copies : (queue.data slotIndex).Covered .accesses view
  stores : ∀ e view' p, (e, view') ∈ h → e.stored = some p → queue.slotIndex p = slotIndex →
    view' ≤ view

namespace Covers

variable {h : List (Event ι α × View (Location ι))} {queue queue' : WeakQueue ι α} {x : ℕ}
  {view view' : View (Location ι)} {e : Event ι α}

lemma mono (hc : Covers h queue x view) (hle : view ≤ view') : Covers h queue x view' where
  newest := fun time message hl => (hc.newest time message hl).trans (hle _)
  copies := hc.copies.mono hle
  stores := fun e v p hmem hp hx => (hc.stores e v p hmem hp hx).trans hle

/-- A step that does nothing in the slot. -/
lemma frame (hc : Covers h queue x view) (hmask : queue'.capacityMask = queue.capacityMask)
    (hsequence : queue'.sequence x = queue.sequence x) (hdata : queue'.data x = queue.data x)
    (he : ∀ p, e.stored = some p → queue.slotIndex p ≠ x) :
    Covers (h ++ [(e, view')]) queue' x view := by
  have hslot : ∀ p, queue'.slotIndex p = queue.slotIndex p := by
    intro p
    rw [WeakQueue.slotIndex, hmask]
    rfl
  constructor
  case newest =>
    rw [hsequence]
    exact hc.newest
  case copies =>
    rw [hdata]
    exact hc.copies
  case stores =>
    intro e' v p hmem hp hx
    rw [hslot] at hx
    rcases List.mem_append.mp hmem with hmem | hmem
    · exact hc.stores e' v p hmem hp hx
    · cases List.mem_singleton.mp hmem
      exact absurd hx (he p hp)

end Covers

/-- Writing back what is in a slot changes nothing. -/
lemma SharedQueue.copyIn_slotData (queue : SharedQueue α) (p : ℕ) :
    queue.copyIn p (queue.slotData p) = queue := by
  show { queue with slots := _ } = queue
  rw [show ({ queue.slots (queue.slotIndex p) with data := queue.slotData p } : Slot α) =
    queue.slots (queue.slotIndex p) from rfl, Function.update_eq_self]

/-- The queue of the newest messages. -/
structure Represents (weak : WeakQueue ι α) (queue : SharedQueue α) : Prop where
  capacity : weak.capacity = queue.capacity
  capacityMask : weak.capacityMask = queue.capacityMask
  enqueue : weak.enqueuePosition.Counted queue.enqueuePosition
  dequeue : weak.dequeuePosition.Counted queue.dequeuePosition
  data : ∀ x, (weak.data x).value = (queue.slots x).data
  increasing : ∀ x, (weak.sequence x).Increasing
  latest : ∀ x, ∃ time message, (weak.sequence x).Latest time message ∧
    message.value = (queue.slots x).sequence

/-- The invariant of a run on weak memory; `s` is the state of the newest
messages. -/
structure WeakInvariant (k : ℕ) (h : List (Event ι α × View (Location ι))) (w : WeakState ι α)
    (s : State ι α) : Prop where
  invariant : Invariant k (h.map Prod.fst) s
  ledger : Ledger (h.map Prod.fst) s
  pc : w.pc = s.pc
  represents : Represents w.queue s.queue
  reserved : ∀ t p, (s.pc t).reserved s.queue = some p →
    Covers h w.queue (s.queue.slotIndex p) (w.view t)
  released : ∀ x, (∀ t p, (s.pc t).copying = some p → s.queue.slotIndex p ≠ x) →
    ∀ time message, (w.queue.sequence x).Latest time message →
      Covers h w.queue x message.view

namespace Represents

variable {weak : WeakQueue ι α} {queue : SharedQueue α}

lemma slotIndex (hr : Represents weak queue) (p : ℕ) : weak.slotIndex p = queue.slotIndex p := by
  rw [WeakQueue.slotIndex, hr.capacityMask]
  rfl

/-- A message of a sequence word is the newest one or older than the newest value. -/
lemma sequence_le (hr : Represents weak queue) {p time : ℕ} {message : Message ℕ (Location ι)}
    (hm : weak.sequence (weak.slotIndex p) time = some message) :
    message.value ≤ queue.slotSequence p ∧ (message.value = queue.slotSequence p →
      (weak.sequence (weak.slotIndex p)).Latest time message) := by
  obtain ⟨newest, message', hl, hvalue⟩ := hr.latest (weak.slotIndex p)
  rw [hr.slotIndex p] at hvalue
  change _ = queue.slotSequence p at hvalue
  rcases hl.value_le (hr.increasing _) hm with rfl | hlt
  · refine ⟨hvalue.le, fun _ => ?_⟩
    rcases (hl.time_le hm).lt_or_eq with hlt | rfl
    · exact absurd (hr.increasing _ _ _ _ _ hlt hm hl.1) (lt_irrefl _)
    · exact hl
  · exact ⟨by omega, fun heq => by omega⟩

lemma storeClosed (hr : Represents weak queue) (cell : Cell Bool (Location ι)) (b : Bool) :
    Represents { weak with closed := cell } (queue.storeClosed b) where
  capacity := hr.capacity
  capacityMask := hr.capacityMask
  enqueue := hr.enqueue
  dequeue := hr.dequeue
  data := hr.data
  increasing := hr.increasing
  latest := hr.latest

/-- A plain access to the payload of a slot, which leaves `item` in it. -/
lemma access (hr : Represents weak queue) (p : ℕ) (t : ι) (count : ℕ) (write : Bool) (item : α) :
    Represents (weak.setData (weak.slotIndex p)
      { (weak.data (weak.slotIndex p)).record t count write with value := item })
      (queue.copyIn p item) where
  capacity := hr.capacity
  capacityMask := hr.capacityMask
  enqueue := hr.enqueue
  dequeue := hr.dequeue
  data := by
    intro x
    simp only [WeakQueue.setData, SharedQueue.copyIn, hr.slotIndex]
    by_cases hx : x = queue.slotIndex p
    · subst hx
      simp
    · simp [Function.update_of_ne hx, hr.data x]
  increasing := hr.increasing
  latest := by
    intro x
    obtain ⟨time, message, hl, hvalue⟩ := hr.latest x
    refine ⟨time, message, hl, ?_⟩
    by_cases hx : x = queue.slotIndex p
    · subst hx
      simpa [SharedQueue.copyIn] using hvalue
    · simpa [SharedQueue.copyIn, Function.update_of_ne hx] using hvalue

/-- A larger sequence word is written after the newest one. -/
lemma setSequence (hr : Represents weak queue) {p newest time sequence : ℕ}
    {message : Message ℕ (Location ι)} {view : View (Location ι)}
    (hl : (weak.sequence (weak.slotIndex p)).Latest newest message) (hlt : newest < time)
    (hvalue : queue.slotSequence p < sequence) :
    Represents (weak.setSequence (weak.slotIndex p)
      (Function.update (weak.sequence (weak.slotIndex p)) time (some ⟨sequence, view⟩)))
      (queue.storeSequence p sequence) where
  capacity := hr.capacity
  capacityMask := hr.capacityMask
  enqueue := hr.enqueue
  dequeue := hr.dequeue
  data := by
    intro x
    by_cases hx : x = queue.slotIndex p
    · subst hx
      simpa [SharedQueue.storeSequence, WeakQueue.setSequence] using hr.data _
    · simpa [SharedQueue.storeSequence, WeakQueue.setSequence, Function.update_of_ne hx] using
        hr.data x
  increasing := by
    intro x
    by_cases hx : x = weak.slotIndex p
    · subst hx
      rw [WeakQueue.setSequence_sequence, Function.update_self]
      refine (hr.increasing _).store hl hlt ?_
      exact lt_of_le_of_lt (hr.sequence_le hl.1).1 hvalue
    · rw [WeakQueue.setSequence_sequence, Function.update_of_ne hx]
      exact hr.increasing x
  latest := by
    intro x
    rw [WeakQueue.setSequence_sequence, SharedQueue.storeSequence_slots, ← hr.slotIndex p]
    by_cases hx : x = weak.slotIndex p
    · subst hx
      rw [Function.update_self, Function.update_self]
      exact ⟨time, ⟨sequence, view⟩, hl.store hlt _, rfl⟩
    · rw [Function.update_of_ne hx, Function.update_of_ne hx]
      exact hr.latest x

end Represents

/-! ### Every step keeps the invariant -/

/-- The event is neither a claim, a copy nor a completed copy phase. -/
def Event.isQuiet : Event ι α → Bool
  | .call _ _ | .silent _ | .pushFalse _ | .popFalse _ | .closeReturn _
  | .isClosedReturn _ _ => true
  | _ => false

lemma Pc.pushing_of_copying {pc : Pc α} (hpc : pc.copying = none) :
    pc.pushing = none ∧ pc.popping = none := by
  simpa [Pc.copying, Option.or_eq_none_iff] using hpc

lemma recorded_of_copying {h : List (Event ι α)} {t : ι} {pc : Pc α} (hpc : pc.copying = none) :
    Recorded h t pc := by
  cases pc <;> simp_all [Pc.copying, Pc.pushing, Pc.popping, Recorded]

namespace WeakInvariant

variable [DecidableEq ι] {k : ℕ} {h : List (Event ι α × View (Location ι))} {w : WeakState ι α}
  {s : State ι α} {t : ι} {e : Event ι α} {view' : View (Location ι)} {pc' : Pc α}

omit [DecidableEq ι] in
lemma map_fst_snoc : (h ++ [(e, view')]).map Prod.fst = h.map Prod.fst ++ [e] := by simp

/-- What has to be shown of a step of one thread: the others keep what they have
seen of slots in which the step does nothing. -/
lemma of_step (hw : WeakInvariant k h w s) {weak' : WeakQueue ι α} {queue' : SharedQueue α}
    (hinv : Invariant k (h.map Prod.fst ++ [e]) (s.move t queue' pc'))
    (hled : Ledger (h.map Prod.fst ++ [e]) (s.move t queue' pc'))
    (hrep : Represents weak' queue') (hmask : queue'.capacityMask = s.queue.capacityMask)
    (hother : ∀ t' p, t' ≠ t → (s.pc t').reserved queue' = some p →
      (s.pc t').reserved s.queue = some p ∧
        (Covers h w.queue (s.queue.slotIndex p) (w.view t') →
          Covers (h ++ [(e, view')]) weak' (s.queue.slotIndex p) (w.view t')))
    (hself : ∀ p, pc'.reserved queue' = some p →
      Covers (h ++ [(e, view')]) weak' (s.queue.slotIndex p) view')
    (hreleased : ∀ x, (∀ t' p, t' ≠ t → (s.pc t').copying = some p → s.queue.slotIndex p ≠ x) →
      (∀ p, pc'.copying = some p → s.queue.slotIndex p ≠ x) →
      ∀ time message, (weak'.sequence x).Latest time message →
        Covers (h ++ [(e, view')]) weak' x message.view) :
    WeakInvariant k (h ++ [(e, view')]) (w.move t weak' view' pc') (s.move t queue' pc') := by
  have hslot : ∀ p, queue'.slotIndex p = s.queue.slotIndex p := by
    intro p
    rw [SharedQueue.slotIndex, hmask]
    rfl
  constructor
  case invariant =>
    rw [map_fst_snoc]
    exact hinv
  case ledger =>
    rw [map_fst_snoc]
    exact hled
  case pc =>
    show Function.update w.pc t pc' = Function.update s.pc t pc'
    rw [hw.pc]
  case represents => exact hrep
  case reserved =>
    intro t' p hp
    rw [State.move_queue, hslot]
    by_cases ht : t' = t
    · subst ht
      simp only [State.move_pc, Function.update_self] at hp
      rw [WeakState.move_view, Function.update_self]
      exact hself p hp
    · simp only [State.move_pc, Function.update_of_ne ht] at hp
      rw [WeakState.move_view, Function.update_of_ne ht]
      obtain ⟨hp', hkeep⟩ := hother t' p ht hp
      exact hkeep (hw.reserved t' p hp')
  case released =>
    intro x hx time message hl
    refine hreleased x ?_ ?_ time message hl
    · intro t' p ht hp
      rw [← hslot]
      exact hx t' p (by simpa [Function.update_of_ne ht] using hp)
    · intro p hp
      rw [← hslot]
      exact hx t p (by simpa using hp)

/-- A step that stores no sequence word, of a thread that was not in its copy phase. -/
lemma of_unstored_step (hw : WeakInvariant k h w s) {weak' : WeakQueue ι α}
    {queue' : SharedQueue α} (hpc : (s.pc t).copying = none) (he : e.stored = none)
    (hinv : Invariant k (h.map Prod.fst ++ [e]) (s.move t queue' pc'))
    (hled : Ledger (h.map Prod.fst ++ [e]) (s.move t queue' pc'))
    (hrep : Represents weak' queue') (hmask : queue'.capacityMask = s.queue.capacityMask)
    (hmask' : weak'.capacityMask = w.queue.capacityMask)
    (hsequence : weak'.sequence = w.queue.sequence) (hdata : weak'.data = w.queue.data)
    (hother : ∀ t' p, t' ≠ t → (s.pc t').reserved queue' = some p →
      (s.pc t').reserved s.queue = some p)
    (hself : ∀ p, pc'.reserved queue' = some p →
      Covers h w.queue (s.queue.slotIndex p) view') :
    WeakInvariant k (h ++ [(e, view')]) (w.move t weak' view' pc') (s.move t queue' pc') := by
  have hframe : ∀ {x view}, Covers h w.queue x view →
      Covers (h ++ [(e, view')]) weak' x view := by
    intro x view hc
    refine hc.frame hmask' (by rw [hsequence]) (by rw [hdata]) ?_
    intro p hp
    rw [he] at hp
    cases hp
  refine hw.of_step hinv hled hrep hmask ?_ ?_ ?_
  · exact fun t' p ht hp => ⟨hother t' p ht hp, hframe⟩
  · exact fun p hp => hframe (hself p hp)
  · intro x hx _ time message hl
    rw [hsequence] at hl
    refine hframe (hw.released x ?_ time message hl)
    intro t' p hp
    refine hx t' p ?_ hp
    rintro rfl
    rw [hpc] at hp
    cases hp

/-- A step outside of the copy phases that leaves the slots and the positions. -/
lemma quiet (hw : WeakInvariant k h w s) (cell : Cell Bool (Location ι)) (b : Bool)
    (hpc : (s.pc t).copying = none) (hpc' : pc'.copying = none) (he : e.isQuiet = true)
    (hknows : Knows s.queue (pushedItems (h.map Prod.fst)) pc')
    (hcovers : ∀ p, pc'.reserved s.queue = some p →
      Covers h w.queue (s.queue.slotIndex p) view') :
    WeakInvariant k (h ++ [(e, view')]) (w.move t { w.queue with closed := cell } view' pc')
      (s.move t (s.queue.storeClosed b) pc') := by
  have hpushing : pc'.pushing = (s.pc t).pushing := by
    rw [(Pc.pushing_of_copying hpc).1, (Pc.pushing_of_copying hpc').1]
  have hpopping : pc'.popping = (s.pc t).popping := by
    rw [(Pc.pushing_of_copying hpc).2, (Pc.pushing_of_copying hpc').2]
  have hstored : e.stored = none := by
    cases e <;> simp_all [Event.isQuiet, Event.stored]
  refine hw.of_unstored_step hpc hstored ?_ ?_ (hw.represents.storeClosed cell b) rfl rfl rfl rfl
    (fun _ _ _ hp => hp) hcovers
  · refine hw.invariant.quiet ?_ ?_ hpushing hpopping hknows <;>
      cases e <;> simp_all [Event.isQuiet, Event.pushClaim, Event.popClaim]
  · refine hw.ledger.quiet ?_ ?_ ?_ ?_ hpushing hpopping (recorded_of_copying hpc') <;>
      rintro _ _ <;> intros <;> rintro rfl <;> simp [Event.isQuiet] at he

/-- What an acquire load of a slot has seen if nobody copies in it and it returns
the newest sequence word. -/
lemma covers_of_load (hw : WeakInvariant k h w s) {p time sequence : ℕ}
    (hload : w.queue.loadSequence (w.view t) p time = some (sequence, view'))
    (hsequence : sequence = s.queue.slotSequence p)
    (hfree : ∀ t p', (s.pc t).copying = some p' → s.queue.slotIndex p' ≠ s.queue.slotIndex p) :
    Covers h w.queue (s.queue.slotIndex p) view' := by
  obtain ⟨message, hm, hvalue, -, hmessage, -⟩ := Cell.loadAcquire_inv hload
  have hl := (hw.represents.sequence_le hm).2 (hvalue.trans hsequence)
  rw [hw.represents.slotIndex] at hl
  exact (hw.released _ hfree time message hl).mono hmessage

omit [DecidableEq ι] in
lemma sequence_lt (hw : WeakInvariant k h w s) {p time : ℕ} {message : Message ℕ (Location ι)}
    (hm : w.queue.sequence (w.queue.slotIndex p) time = some message) :
    message.value ≤ s.queue.slotSequence p ∧ message.value < 2 ^ 64 := by
  have hle := (hw.represents.sequence_le hm).1
  exact ⟨hle, hle.trans_lt (hw.invariant.word_lt p)⟩

/-- A push that finds the sequence word of its position may claim it: an old word
is too small to be that of the current position. -/
lemma pushFree (hk : 1 ≤ k) (hw : WeakInvariant k h w s)
    (hbound : s.queue.enqueuePosition < 2 ^ 63) {item : α} {p time sequence : ℕ}
    (hpc : s.pc t = .pushLoadSequence item p)
    (hload : w.queue.loadSequence (w.view t) p time = some (sequence, view'))
    (hd : signedDifference sequence p = 0) :
    WeakInvariant k (h ++ [(.silent t, view')]) (w.move t w.queue view' (.pushExchange item p))
      (s.move t (s.queue.storeClosed s.queue.closed) (.pushExchange item p)) := by
  have hinv := hw.invariant
  have hp : p ≤ s.queue.enqueuePosition := by
    have := hinv.knows t
    rwa [hpc] at this
  obtain ⟨message, hm, hvalue, -⟩ := Cell.loadAcquire_inv hload
  obtain ⟨hle, hlt⟩ := hw.sequence_lt hm
  rw [signedDifference_eq_zero_iff (by omega) (by omega)] at hd
  have hcurrent : p = s.queue.enqueuePosition → s.queue.slotSequence p = p := by
    rintro rfl
    have := hinv.slotSequence_enqueue_le
    omega
  refine hw.quiet w.queue.closed s.queue.closed (by rw [hpc]; rfl) rfl rfl ?_ ?_
  · refine ⟨hp, fun hpE => ⟨hcurrent hpE, ?_⟩⟩
    have hseq := hcurrent hpE
    subst hpE
    rw [hinv.capacity]
    exact hinv.room_of_free hk hseq
  · intro p' hp'
    simp only [Pc.reserved] at hp'
    split at hp' <;> cases hp'
    rename_i heq
    subst heq
    exact hw.covers_of_load hload (by omega) fun t p' =>
      hinv.not_copying_of_free hk (hcurrent rfl)

/-- A pop that finds the sequence word of its position may claim it. -/
lemma popReady (hk : 1 ≤ k) (hw : WeakInvariant k h w s)
    (hbound : s.queue.enqueuePosition < 2 ^ 63) {p time sequence : ℕ}
    (hpc : s.pc t = .popLoadSequence p)
    (hload : w.queue.loadSequence (w.view t) p time = some (sequence, view'))
    (hd : signedDifference sequence (word (p + 1)) = 0) :
    WeakInvariant k (h ++ [(.silent t, view')]) (w.move t w.queue view' (.popExchange p))
      (s.move t (s.queue.storeClosed s.queue.closed) (.popExchange p)) := by
  have hinv := hw.invariant
  have hDE := hinv.dequeue_le
  have hp : p ≤ s.queue.dequeuePosition := by
    have := hinv.knows t
    rwa [hpc] at this
  obtain ⟨message, hm, hvalue, -⟩ := Cell.loadAcquire_inv hload
  obtain ⟨hle, hlt⟩ := hw.sequence_lt hm
  rw [word_of_lt (by omega), signedDifference_eq_zero_iff (by omega) (by omega)] at hd
  have hcurrent : p = s.queue.dequeuePosition → s.queue.slotSequence p = p + 1 := by
    rintro rfl
    have := hinv.slotSequence_dequeue_le
    omega
  refine hw.quiet w.queue.closed s.queue.closed (by rw [hpc]; rfl) rfl rfl ?_ ?_
  · refine ⟨hp, fun hpD => ⟨hcurrent hpD, ?_⟩⟩
    have hseq := hcurrent hpD
    subst hpD
    exact hinv.lt_of_full hseq
  · intro p' hp'
    simp only [Pc.reserved] at hp'
    split at hp' <;> cases hp'
    rename_i heq
    subst heq
    exact hw.covers_of_load hload (by omega) fun t p' =>
      hinv.not_copying_of_ready hk (hcurrent rfl)

/-- A push wins the exchange; the message that it read is the newest one. -/
lemma claimPush (hk : 1 ≤ k) (hk' : k ≤ 63) (hw : WeakInvariant k h w s)
    (hbound : s.queue.enqueuePosition < 2 ^ 63) {item : α} {p time : ℕ}
    {cell : Cell ℕ (Location ι)} (hpc : s.pc t = .pushExchange item p)
    (hexchange : w.queue.enqueuePosition.exchange .enqueuePosition (w.view t) time p
      (word (p + 1)) = some (cell, view')) :
    ∃ queue', WeakInvariant k (h ++ [(.claimPush t p item, view')])
      (w.move t { w.queue with enqueuePosition := cell } view' (.pushCopy item p))
      (s.move t queue' (.pushCopy item p)) := by
  obtain ⟨message, message', hm, rfl, hfree, hle, hvalue, rfl⟩ := Cell.exchange_inv hexchange
  obtain rfl := hw.represents.enqueue.eq_of_free hm hfree
  have hp := (hw.represents.enqueue.value_le hm).2
  rw [hp] at hpc hvalue ⊢
  have hs : Transition s.queue t (s.pc t) (.claimPush t s.queue.enqueuePosition item)
      (s.queue.setEnqueuePosition (word (s.queue.enqueuePosition + 1)))
      (.pushCopy item s.queue.enqueuePosition) := by
    rw [hpc]
    exact .pushClaim
  have hcovers := hw.reserved t s.queue.enqueuePosition (by simp [hpc, Pc.reserved])
  refine ⟨_, hw.of_unstored_step (by rw [hpc]; rfl) rfl (hw.invariant.step hk hk' hbound hs)
    (hw.ledger.step hw.invariant hs) ?_ rfl rfl rfl rfl ?_ ?_⟩
  · constructor
    case enqueue =>
      obtain ⟨value, view⟩ := message'
      obtain rfl : value = word (s.queue.enqueuePosition + 1) := hvalue
      rw [word_of_lt (by omega)]
      exact hw.represents.enqueue.succ view
    case capacity => exact hw.represents.capacity
    case capacityMask => exact hw.represents.capacityMask
    case dequeue => exact hw.represents.dequeue
    case data => exact hw.represents.data
    case increasing => exact hw.represents.increasing
    case latest => exact hw.represents.latest
  · intro t' p' ht hp'
    -- no other thread has loaded the next position yet
    have hknows := hw.invariant.knows t'
    rcases Pc.reserved_cases hp' with hcopy | ⟨item', hpc', rfl⟩ | ⟨hpc', rfl⟩
    · exact Pc.reserved_of_copying hcopy
    · rw [hpc'] at hknows
      have hlt : word (s.queue.enqueuePosition + 1) ≤ s.queue.enqueuePosition := hknows.1
      rw [word_of_lt (by omega)] at hlt
      omega
    · simp [hpc', Pc.reserved]
  · intro p' hp'
    obtain rfl : s.queue.enqueuePosition = p' := by
      simpa [Pc.reserved, Pc.copying, Pc.pushing] using hp'
    exact hcovers.mono hle

/-- A pop wins the exchange; the message that it read is the newest one. -/
lemma claimPop (hk : 1 ≤ k) (hk' : k ≤ 63) (hw : WeakInvariant k h w s)
    (hbound : s.queue.enqueuePosition < 2 ^ 63) {p time : ℕ}
    {cell : Cell ℕ (Location ι)} (hpc : s.pc t = .popExchange p)
    (hexchange : w.queue.dequeuePosition.exchange .dequeuePosition (w.view t) time p
      (word (p + 1)) = some (cell, view')) :
    ∃ queue', WeakInvariant k (h ++ [(.claimPop t p, view')])
      (w.move t { w.queue with dequeuePosition := cell } view' (.popCopy p))
      (s.move t queue' (.popCopy p)) := by
  have hDE := hw.invariant.dequeue_le
  obtain ⟨message, message', hm, rfl, hfree, hle, hvalue, rfl⟩ := Cell.exchange_inv hexchange
  obtain rfl := hw.represents.dequeue.eq_of_free hm hfree
  have hp := (hw.represents.dequeue.value_le hm).2
  rw [hp] at hpc hvalue ⊢
  have hs : Transition s.queue t (s.pc t) (.claimPop t s.queue.dequeuePosition)
      (s.queue.setDequeuePosition (word (s.queue.dequeuePosition + 1)))
      (.popCopy s.queue.dequeuePosition) := by
    rw [hpc]
    exact .popClaim
  have hcovers := hw.reserved t s.queue.dequeuePosition (by simp [hpc, Pc.reserved])
  refine ⟨_, hw.of_unstored_step (by rw [hpc]; rfl) rfl (hw.invariant.step hk hk' hbound hs)
    (hw.ledger.step hw.invariant hs) ?_ rfl rfl rfl rfl ?_ ?_⟩
  · constructor
    case dequeue =>
      obtain ⟨value, view⟩ := message'
      obtain rfl : value = word (s.queue.dequeuePosition + 1) := hvalue
      rw [word_of_lt (by omega)]
      exact hw.represents.dequeue.succ view
    case capacity => exact hw.represents.capacity
    case capacityMask => exact hw.represents.capacityMask
    case enqueue => exact hw.represents.enqueue
    case data => exact hw.represents.data
    case increasing => exact hw.represents.increasing
    case latest => exact hw.represents.latest
  · intro t' p' ht hp'
    have hknows := hw.invariant.knows t'
    rcases Pc.reserved_cases hp' with hcopy | ⟨item', hpc', rfl⟩ | ⟨hpc', rfl⟩
    · exact Pc.reserved_of_copying hcopy
    · simp [hpc', Pc.reserved]
    · rw [hpc'] at hknows
      have hlt : word (s.queue.dequeuePosition + 1) ≤ s.queue.dequeuePosition := hknows.1
      rw [word_of_lt (by omega)] at hlt
      omega
  · intro p' hp'
    obtain rfl : s.queue.dequeuePosition = p' := by
      simpa [Pc.reserved, Pc.copying, Pc.pushing, Pc.popping] using hp'
    exact hcovers.mono hle

/-- A thread in its copy phase copies. -/
lemma copy (hk : 1 ≤ k) (hw : WeakInvariant k h w s) (write : Bool) {p : ℕ} {item : α}
    (hpc : (s.pc t).copying = some p) (hpc' : pc'.copying = some p) (he : e.stored = none)
    (hinv : Invariant k (h.map Prod.fst ++ [e]) (s.move t (s.queue.copyIn p item) pc'))
    (hled : Ledger (h.map Prod.fst ++ [e]) (s.move t (s.queue.copyIn p item) pc')) :
    WeakInvariant k (h ++ [(e, tick (w.view t) t)])
      (w.move t (w.queue.setData (w.queue.slotIndex p)
        { (w.queue.data (w.queue.slotIndex p)).record t (tick (w.view t) t (.accesses t)) write with
          value := item }) (tick (w.view t) t) pc')
      (s.move t (s.queue.copyIn p item) pc') := by
  have hslot := hw.represents.slotIndex p
  have hcovers := (hw.reserved t p (Pc.reserved_of_copying hpc)).mono
    (View.le_see (w.view t) (.accesses t) (w.view t (.accesses t) + 1))
  have hframe : ∀ {x view}, x ≠ s.queue.slotIndex p → Covers h w.queue x view →
      Covers (h ++ [(e, tick (w.view t) t)]) (w.queue.setData (w.queue.slotIndex p)
        { (w.queue.data (w.queue.slotIndex p)).record t (tick (w.view t) t (.accesses t)) write with
          value := item }) x view := by
    intro x view hx hc
    refine hc.frame rfl rfl ?_ (by simp [he])
    rw [WeakQueue.setData_data, hslot, Function.update_of_ne hx]
  refine hw.of_step hinv hled (hw.represents.access p t _ write item) rfl ?_ ?_ ?_
  · intro t' p' ht hp'
    exact ⟨hp', hframe (hw.invariant.reserved_ne hk ht.symm hpc hp').symm⟩
  · intro p' hp'
    obtain rfl : p = p' := by
      have : pc'.reserved (s.queue.copyIn p item) = some p := Pc.reserved_of_copying hpc'
      exact Option.some_injective _ (this.symm.trans hp')
    constructor
    case newest => exact hcovers.newest
    case copies =>
      rw [WeakQueue.setData_data, hslot, Function.update_self]
      exact hcovers.copies.record write le_rfl
    case stores =>
      intro e' v p' hmem hp' hx
      rcases List.mem_append.mp hmem with hmem | hmem
      · exact hcovers.stores e' v p' hmem hp' hx
      · cases List.mem_singleton.mp hmem
        simp [he] at hp'
  · intro x hx hx' time message hl
    have hne : x ≠ s.queue.slotIndex p := (hx' p hpc').symm
    refine hframe hne (hw.released x ?_ time message hl)
    intro t' p' hp'
    by_cases ht : t' = t
    · subst ht
      rw [hpc] at hp'
      cases hp'
      exact hne.symm
    · exact hx t' p' ht hp'

/-- A thread in its copy phase stores the sequence word; the slot carries away
all that the thread has seen. -/
lemma store (hk : 1 ≤ k) (hw : WeakInvariant k h w s) {p time sequence : ℕ}
    {weak' : WeakQueue ι α} (hpc : (s.pc t).copying = some p) (he : e.stored = some p)
    (hstore : w.queue.storeSequence (w.view t) p time sequence = some (weak', view'))
    (hlt : s.queue.slotSequence p < sequence)
    (hinv : Invariant k (h.map Prod.fst ++ [e]) (s.move t (s.queue.storeSequence p sequence) .idle))
    (hled : Ledger (h.map Prod.fst ++ [e])
      (s.move t (s.queue.storeSequence p sequence) .idle)) :
    WeakInvariant k (h ++ [(e, view')]) (w.move t weak' view' .idle)
      (s.move t (s.queue.storeSequence p sequence) .idle) := by
  obtain ⟨⟨cell, view⟩, hcell, heq⟩ := Option.map_eq_some_iff.mp hstore
  cases heq
  obtain ⟨hfree, -, hle, htime, rfl⟩ := Cell.storeRelease_inv hcell
  have hslot := hw.represents.slotIndex p
  have hcovers := hw.reserved t p (Pc.reserved_of_copying hpc)
  obtain ⟨newest, message, hl, -⟩ := hw.represents.latest (w.queue.slotIndex p)
  have hnewest : newest < time := by
    refine lt_of_le_of_lt ?_ hfree
    rw [hslot] at hl ⊢
    exact hcovers.newest newest message hl
  have hframe : ∀ {x v}, x ≠ s.queue.slotIndex p → Covers h w.queue x v →
      Covers (h ++ [(e, view')]) (w.queue.setSequence (w.queue.slotIndex p)
        (Function.update (w.queue.sequence (w.queue.slotIndex p)) time
          (some ⟨sequence, view'⟩))) x v := by
    intro x v hx hc
    refine hc.frame rfl ?_ rfl ?_
    · rw [WeakQueue.setSequence_sequence, hslot, Function.update_of_ne hx]
    · intro p' hp'
      rw [he] at hp'
      cases hp'
      rw [hslot]
      exact hx.symm
  refine hw.of_step hinv hled (hw.represents.setSequence hl hnewest hlt) rfl ?_ ?_ ?_
  · intro t' p' ht hp'
    exact ⟨hp', hframe (hw.invariant.reserved_ne hk ht.symm hpc hp').symm⟩
  · intro p' hp'
    simp [Pc.reserved, Pc.copying, Pc.pushing, Pc.popping] at hp'
  · intro x hx _ time' message' hl'
    by_cases hxp : x = s.queue.slotIndex p
    · -- the newest message of the slot is now the one that was stored
      subst hxp
      rw [← hslot] at hl' ⊢
      rw [WeakQueue.setSequence_sequence, Function.update_self] at hl'
      obtain ⟨rfl, rfl⟩ := (hl.store hnewest ⟨sequence, view'⟩).unique hl'
      rw [← hslot] at hcovers
      constructor
      case newest =>
        intro time₁ message₁ hl₁
        rw [WeakQueue.setSequence_sequence, Function.update_self] at hl₁
        rw [((hl.store hnewest ⟨sequence, view'⟩).unique hl₁).1]
        exact htime
      case copies => exact hcovers.copies.mono hle
      case stores =>
        intro e' v p' hmem hp' hx'
        rcases List.mem_append.mp hmem with hmem | hmem
        · exact (hcovers.stores e' v p' hmem hp' hx').trans hle
        · cases List.mem_singleton.mp hmem
          exact le_rfl
    · have hl₀ : (w.queue.sequence x).Latest time' message' := by
        rwa [WeakQueue.setSequence_sequence, hslot, Function.update_of_ne hxp] at hl'
      refine hframe hxp (hw.released x ?_ time' message' hl₀)
      intro t' p' hp'
      by_cases ht : t' = t
      · subst ht
        rw [hpc] at hp'
        cases hp'
        exact Ne.symm hxp
      · exact hx t' p' ht hp'

/-- The invariant is kept by every step. -/
lemma step (hk : 1 ≤ k) (hk' : k ≤ 63) (hw : WeakInvariant k h w s)
    (hbound : s.queue.enqueuePosition < 2 ^ 63) {weak' : WeakQueue ι α}
    (hs : WeakTransition w.queue t (w.view t) (w.pc t) e weak' view' pc') :
    ∃ s', WeakInvariant k (h ++ [(e, view')]) (w.move t weak' view' pc') s' := by
  have hinv := hw.invariant
  have hDE := hinv.dequeue_le
  have hcap : 2 ^ k ≤ 2 ^ 63 := Nat.pow_le_pow_right (n := 2) (by norm_num) hk'
  have hcap' : 2 ≤ 2 ^ k := Nat.pow_le_pow_right (n := 2) (by norm_num) hk
  have hknows := hinv.knows t
  rw [hw.pc] at hs
  generalize hpc : s.pc t = pc₀ at hs hknows
  cases hs
  case call operation =>
    refine ⟨_, hw.quiet w.queue.closed s.queue.closed (by rw [hpc]; rfl) ?_ rfl ?_ ?_⟩ <;>
      cases operation <;> simp [Operation.entry, Pc.copying, Pc.pushing, Pc.popping, Knows,
        Pc.reserved]
  case pushPosition p time hload | pushLost p time hload =>
    obtain ⟨⟨message, hm, rfl⟩, -⟩ := Cell.load_inv hload
    refine ⟨_, hw.quiet w.queue.closed s.queue.closed (by rw [hpc]; rfl) rfl rfl ?_
      (by simp [Pc.reserved, Pc.copying, Pc.pushing, Pc.popping])⟩
    obtain ⟨hle, hvalue⟩ := hw.represents.enqueue.value_le hm
    rw [Knows, hvalue]
    exact hle
  case popPosition p time hload | popLost p time hload =>
    obtain ⟨⟨message, hm, rfl⟩, -⟩ := Cell.load_inv hload
    refine ⟨_, hw.quiet w.queue.closed s.queue.closed (by rw [hpc]; rfl) rfl rfl ?_
      (by simp [Pc.reserved, Pc.copying, Pc.pushing, Pc.popping])⟩
    obtain ⟨hle, hvalue⟩ := hw.represents.dequeue.value_le hm
    rw [Knows, hvalue]
    exact hle
  case pushFree item p time sequence hd hload => exact ⟨_, hw.pushFree hk hbound hpc hload hd⟩
  case popReady p time sequence hd hload => exact ⟨_, hw.popReady hk hbound hpc hload hd⟩
  case pushClaim item p time cell hexchange =>
    obtain ⟨queue', hw'⟩ := hw.claimPush hk hk' hbound hpc hexchange
    exact ⟨_, hw'⟩
  case popClaim p time cell hexchange =>
    obtain ⟨queue', hw'⟩ := hw.claimPop hk hk' hbound hpc hexchange
    exact ⟨_, hw'⟩
  case pushCopied item p =>
    have hs : Transition s.queue t (s.pc t) (.copyIn t p item) (s.queue.copyIn p item)
        (.pushStoreSequence item p) := by
      rw [hpc]
      exact .pushCopied
    exact ⟨_, hw.copy hk true (by rw [hpc]; rfl) rfl rfl (hinv.step hk hk' hbound hs)
      (hw.ledger.step hinv hs)⟩
  case popCopied p =>
    have hitem : (w.queue.data (w.queue.slotIndex p)).value = s.queue.slotData p := by
      rw [hw.represents.slotIndex]
      exact hw.represents.data _
    have hs : Transition s.queue t (s.pc t) (.copyOut t p (s.queue.slotData p))
        (s.queue.copyIn p (s.queue.slotData p)) (.popStoreSequence p (s.queue.slotData p)) := by
      rw [hpc, s.queue.copyIn_slotData]
      exact .popCopied
    have hw' := hw.copy hk false (by rw [hpc]; rfl) rfl rfl
      (hinv.step hk hk' hbound hs) (hw.ledger.step hinv hs)
    rw [← hitem] at hw'
    exact ⟨_, hw'⟩
  case pushStored item p time hstore =>
    have hs : Transition s.queue t (s.pc t) (.pushTrue t p item)
        (s.queue.storeSequence p (word (p + 1))) .idle := by
      rw [hpc]
      exact .pushStored
    have hlt : p < s.queue.enqueuePosition := hknows.2.1
    refine ⟨_, hw.store hk (by rw [hpc]; rfl) rfl hstore ?_ (hinv.step hk hk' hbound hs)
      (hw.ledger.step hinv hs)⟩
    rw [hknows.2.2.1, word_of_lt (by omega)]
    omega
  case popStored p time outItem hstore =>
    rw [hw.represents.capacity] at hstore
    have hs : Transition s.queue t (s.pc t) (.popTrue t p outItem)
        (s.queue.storeSequence p (word (p + s.queue.capacity))) .idle := by
      rw [hpc]
      exact .popStored
    have hlt : p < s.queue.dequeuePosition := hknows.1
    refine ⟨_, hw.store hk (by rw [hpc]; rfl) rfl hstore ?_ (hinv.step hk hk' hbound hs)
      (hw.ledger.step hinv hs)⟩
    rw [hknows.2.2.1, hinv.capacity, word_of_lt (by omega)]
    omega
  case close time cell hstore =>
    exact ⟨_, hw.quiet cell true (by rw [hpc]; rfl) rfl rfl trivial
      (by simp [Pc.reserved, Pc.copying, Pc.pushing, Pc.popping])⟩
  all_goals
    exact ⟨_, hw.quiet w.queue.closed s.queue.closed (by rw [hpc]; rfl) rfl rfl trivial
      (by simp [Pc.reserved, Pc.copying, Pc.pushing, Pc.popping])⟩

omit [DecidableEq ι] in
lemma create (hk' : k ≤ 63) (zero : α) :
    WeakInvariant k [] (WeakState.create zero (2 ^ k) : WeakState ι α)
      (State.create zero (2 ^ k)) where
  invariant := Invariant.create hk' zero
  ledger := Ledger.create zero _
  pc := rfl
  represents :=
    { capacity := rfl
      capacityMask := rfl
      enqueue := Cell.counted_init
      dequeue := Cell.counted_init
      data := fun _ => rfl
      increasing := fun x => Cell.increasing_init x
      latest := fun x => ⟨0, ⟨x, ⊥⟩, Cell.latest_init x, rfl⟩ }
  reserved := by
    intro t p hp
    simp [Pc.reserved, Pc.copying, Pc.pushing, Pc.popping] at hp
  released := by
    intro x _ time message hl
    obtain ⟨rfl, rfl⟩ := (Cell.latest_init x).unique hl
    constructor
    case newest =>
      intro time' message' hl'
      obtain ⟨rfl, -⟩ := (Cell.latest_init x).unique hl'
      exact Nat.zero_le _
    case copies =>
      intro access hmem
      cases hmem
    case stores =>
      intro e view p hmem
      cases hmem

end WeakInvariant

/-! ### Every run -/

/-- What a history on weak memory says of the items and of the views. -/
structure Published (capacity : ℕ) (h : List (Event ι α × View (Location ι))) : Prop where
  /-- A consumer returns the item pushed at its position, and has seen all that the
  producer had seen when the push returned. -/
  delivered : ∀ t p item view, (.popTrue t p item, view) ∈ h →
    ∃ t' view', (.pushTrue t' p item, view') ∈ h ∧ view' ≤ view
  /-- Whoever completes a copy phase has seen all that those before it in the same
  slot had seen when they completed theirs. -/
  ordered : h.Pairwise fun first later => ∀ p p', first.1.stored = some p →
    later.1.stored = some p' → p % capacity = p' % capacity → first.2 ≤ later.2
  /-- The pushes and the pops claim the positions `0, 1, 2, …`, each of them once. -/
  pushPositions : (pushClaims (h.map Prod.fst)).map Prod.fst =
    List.range (pushClaims (h.map Prod.fst)).length
  popPositions : popClaims (h.map Prod.fst) = List.range (popClaims (h.map Prod.fst)).length
  /-- No position is returned by two pops. -/
  popReturns_nodup : (popReturns (h.map Prod.fst)).Nodup

section Run

variable [DecidableEq ι] {k : ℕ} {h : List (Event ι α × View (Location ι))} {w : WeakState ι α}
  {s : State ι α} {zero : α}

/-- The invariant holds after every run with fewer than `2 ^ 63` claims. -/
lemma WeakInvariant.run (hk : 1 ≤ k) (hk' : k ≤ 63)
    (hrun : weakMachine.Run (WeakState.create zero (2 ^ k)) h w)
    (hbound : (pushClaims (h.map Prod.fst)).length < 2 ^ 63) : ∃ s, WeakInvariant k h w s := by
  refine hrun.invariant
    (P := fun h w => (pushClaims (h.map Prod.fst)).length < 2 ^ 63 → ∃ s, WeakInvariant k h w s)
    (fun _ => ⟨_, WeakInvariant.create hk' zero⟩) ?_ hbound
  rintro h w c ⟨e, view⟩ w' - ih hs hbound
  rw [WeakInvariant.map_fst_snoc, pushClaims_snoc, List.length_append] at hbound
  obtain ⟨s, hw⟩ := ih (by omega)
  obtain ⟨t, queue, pc, htr, rfl⟩ := weakStep_inv hs
  exact hw.step hk hk' (by rw [hw.invariant.enqueue_eq]; omega) htr

/-- A thread that completes a copy phase has seen what was stored in the slot. -/
lemma WeakInvariant.stores_le (hw : WeakInvariant k h w s) {t : ι} {e : Event ι α}
    {queue : WeakQueue ι α} {view : View (Location ι)} {pc : Pc α}
    (hs : WeakTransition w.queue t (w.view t) (w.pc t) e queue view pc) {p : ℕ}
    (hp : e.stored = some p) :
    (s.pc t).copying = some p ∧ ∀ e' view' p', (e', view') ∈ h → e'.stored = some p' →
      p' % 2 ^ k = p % 2 ^ k → view' ≤ view := by
  rw [hw.pc] at hs
  have hcopying : (s.pc t).copying = some p ∧ w.view t ≤ view := by
    generalize s.pc t = pc₀ at hs
    cases hs <;> simp only [Event.stored, Option.some.injEq, reduceCtorEq] at hp
    all_goals
      subst hp
      rename_i hstore
      obtain ⟨⟨cell, view₁⟩, hcell, heq⟩ := Option.map_eq_some_iff.mp hstore
      cases heq
      exact ⟨rfl, (Cell.storeRelease_inv hcell).2.2.1⟩
  refine ⟨hcopying.1, ?_⟩
  intro e' view' p' hmem hp' hmod
  have hcovers := hw.reserved t p (Pc.reserved_of_copying hcopying.1)
  refine (hcovers.stores e' view' p' hmem hp' ?_).trans hcopying.2
  rw [hw.represents.slotIndex]
  exact (hw.invariant.slotIndex_eq_iff p' p).mpr hmod

/-- The item that a pop returns was pushed at its position, by a push that has
returned. -/
lemma WeakInvariant.pushTrue_of_popTrue (hw : WeakInvariant k h w s) {t₀ t : ι} {p : ℕ}
    {item : α} {queue : WeakQueue ι α} {view : View (Location ι)} {pc : Pc α}
    (hs : WeakTransition w.queue t₀ (w.view t₀) (w.pc t₀) (.popTrue t p item) queue view pc) :
    ∃ t', .pushTrue t' p item ∈ h.map Prod.fst := by
  have hknows := hw.invariant.knows t₀
  rw [hw.pc] at hs
  generalize s.pc t₀ = pc₀ at hs hknows
  cases hs
  exact hw.invariant.pushTrue_of_lt hw.ledger hknows.1 hknows.2.2.2

/-- **No data race.**  In every run on weak memory with fewer than `2 ^ 63`
claimed positions no copy into or out of a slot races with an earlier one: the
release stores and acquire loads of the sequence words order them, whatever the
other loads return. -/
theorem queue_race_free (hk : 1 ≤ k) (hk' : k ≤ 63) (zero : α)
    (hrun : weakMachine.Run (WeakState.create zero (2 ^ k)) h w)
    (hbound : (pushClaims (h.map Prod.fst)).length < 2 ^ 63) (t : ι) : ¬ w.Races t := by
  obtain ⟨s, hw⟩ := WeakInvariant.run hk hk' hrun hbound
  rw [WeakState.Races, hw.pc]
  cases hpc : s.pc t <;> try exact not_false
  case pushCopy item p | popCopy p =>
    have hcovers := hw.reserved t p (by rw [hpc]; rfl)
    rw [← hw.represents.slotIndex] at hcovers
    exact hcovers.copies.not_races _

/-- **Publication.**  On weak memory, too, every pop returns the item of the push
with its position, each item goes to one pop, and the consumer has seen all that
the producer had seen; a slot is reused only by a thread that has seen all that
was done in it. -/
theorem queue_publishes (hk : 1 ≤ k) (hk' : k ≤ 63) (zero : α)
    (hrun : weakMachine.Run (WeakState.create zero (2 ^ k)) h w)
    (hbound : (pushClaims (h.map Prod.fst)).length < 2 ^ 63) : Published (2 ^ k) h := by
  obtain ⟨s, hw⟩ := WeakInvariant.run hk hk' hrun hbound
  suffices hviews : (∀ t p item view, (.popTrue t p item, view) ∈ h →
      ∃ t' view', (.pushTrue t' p item, view') ∈ h ∧ view' ≤ view) ∧
      h.Pairwise fun first later => ∀ p p', first.1.stored = some p →
        later.1.stored = some p' → p % 2 ^ k = p' % 2 ^ k → first.2 ≤ later.2 by
    have hpushed := hw.invariant.pushPositions
    have hpopped := hw.invariant.popPositions
    refine ⟨hviews.1, hviews.2, ?_, ?_, hw.ledger.popReturns_nodup⟩
    · rwa [hw.invariant.enqueue_eq] at hpushed
    · rw [hpopped, List.length_range]
  refine hrun.invariant (P := fun h w => (pushClaims (h.map Prod.fst)).length < 2 ^ 63 →
    (∀ t p item view, (.popTrue t p item, view) ∈ h →
      ∃ t' view', (.pushTrue t' p item, view') ∈ h ∧ view' ≤ view) ∧
      h.Pairwise fun first later => ∀ p p', first.1.stored = some p →
        later.1.stored = some p' → p % 2 ^ k = p' % 2 ^ k → first.2 ≤ later.2)
    (fun _ => by simp) ?_ hbound
  rintro h w c ⟨e, view⟩ w' hrun ih hs hbound
  rw [WeakInvariant.map_fst_snoc, pushClaims_snoc, List.length_append] at hbound
  obtain ⟨hdelivered, hordered⟩ := ih (by omega)
  obtain ⟨s, hw⟩ := WeakInvariant.run hk hk' hrun (by omega)
  obtain ⟨t₀, queue, pc, htr, rfl⟩ := weakStep_inv hs
  refine ⟨?_, List.pairwise_append.mpr ⟨hordered, by simp, ?_⟩⟩
  · intro t p item v hmem
    rcases List.mem_append.mp hmem with hmem | hmem
    · obtain ⟨t', view', hpush, hle⟩ := hdelivered t p item v hmem
      exact ⟨t', view', List.mem_append_left _ hpush, hle⟩
    · cases List.mem_singleton.mp hmem
      obtain ⟨t', hpush⟩ := hw.pushTrue_of_popTrue htr
      obtain ⟨⟨e', view'⟩, hmem', heq⟩ := List.mem_map.mp hpush
      obtain rfl : e' = .pushTrue t' p item := heq
      exact ⟨t', view', List.mem_append_left _ hmem', (hw.stores_le htr rfl).2 _ _ p hmem' rfl rfl⟩
  · rintro ⟨e', view'⟩ hmem' later hlater p p' hp hp' hmod
    cases List.mem_singleton.mp hlater
    exact (hw.stores_le htr hp').2 e' view' p hmem' hp hmod

end Run

/-- Two slots.  The first thread pushes; the second one then loads the stale
enqueue position 0, finds its sequence word taken, and pushes at position 1 before
it pops. -/
def staleSchedule : List (Bool × WeakChoice ℕ) :=
  [(false, .client), (false, .call (.push 1)), (false, .load 0), (false, .load 0),
    (false, .load 0), (false, .exchange 0), (false, .copy), (false, .store 1),
    (true, .call (.push 2)), (true, .load 0), (true, .load 0), (true, .load 1), (true, .load 1),
    (true, .load 0), (true, .exchange 1), (true, .copy), (true, .store 1),
    (true, .call .pop), (true, .load 0), (true, .load 1), (true, .exchange 0)]

/-- The second thread is about to copy the first item out. -/
theorem queue_race_free_stale :
    let w := (weakMachine.exec (WeakState.create 0 (2 ^ 1)) staleSchedule).2
    (w.pc true).copying = some 0 ∧ ¬ w.Races true :=
  ⟨by decide +kernel, queue_race_free le_rfl (by norm_num) 0
    (weakMachine.run_exec (WeakState.create 0 (2 ^ 1)) staleSchedule) (by decide +kernel) true⟩

/-- It returns that item, and has seen the two plain accesses of the first thread. -/
theorem queue_publishes_stale :
    let h := (weakMachine.exec (WeakState.create 0 (2 ^ 1))
      (staleSchedule ++ [(true, .copy), (true, .store 2)])).1
    (h.map Prod.fst)[22]? = some (.popTrue true 0 1) ∧
      (h.map fun e => e.2 (.accesses false))[22]? = some 2 ∧ Published (2 ^ 1) h :=
  ⟨by decide +kernel, by decide +kernel, queue_publishes le_rfl (by norm_num) 0
    (weakMachine.run_exec (WeakState.create 0 (2 ^ 1)) _) (by decide +kernel)⟩

end BcConcurrency.Queue
