import Mathlib
import BcConcurrency.Queue.Fifo
import BcConcurrency.Queue.Layout

/-!
# The queue used by one thread

`bc_concurrency_queue_push`, `bc_concurrency_queue_pop` and
`bc_concurrency_queue_close` run to their end, on the bytes of the slots, and
compared with the bounded FIFO.  A weak compare-and-exchange may fail spuriously
a finite number of times in each call, which the call carries.

The free slot of position `p + capacity` and the full slot of position `p` hold
the sequence words `p + capacity` and `p + 1`.  With a single slot these are
equal, and a push on the full queue takes the full slot for a free one.
-/

namespace BcConcurrency.Queue

namespace ByteQueue

/-- A push after its compare-and-exchange of `enqueue_position` succeeded. -/
def pushCommit (queue : ByteQueue) (item : List UInt8) (position : ℕ) :
    Except Halt (Bool × ByteQueue) :=
  let queue := { queue with enqueuePosition := word (position + 1) }
  (queue.copyIn position item).bind fun queue =>
    (queue.storeSequence position (word (position + 1))).map fun queue => (true, queue)

/-- The loop of `bc_concurrency_queue_push`; `spurious` of its weak exchanges fail
although the position is current. -/
def pushLoop (item : List UInt8) :
    ℕ → ℕ → ℕ → ByteQueue → Except Halt (Bool × ByteQueue)
  | 0, _, _, _ => .error .outOfFuel
  | fuel + 1, spurious, position, queue =>
      (queue.loadSequence position).bind fun sequence =>
        let difference := signedDifference sequence position
        if difference = 0 then
          match spurious with
          | spurious + 1 => pushLoop item fuel spurious queue.enqueuePosition queue
          | 0 =>
              if queue.enqueuePosition = position then queue.pushCommit item position
              else pushLoop item fuel 0 queue.enqueuePosition queue
        else if difference < 0 then .ok (false, queue)
        else pushLoop item fuel spurious queue.enqueuePosition queue

/-- `bc_concurrency_queue_push` -/
def push (fuel spurious : ℕ) (queue : ByteQueue) (item : List UInt8) :
    Except Halt (Bool × ByteQueue) :=
  if queue.closed then .ok (false, queue)
  else pushLoop item fuel spurious queue.enqueuePosition queue

/-- A pop after its compare-and-exchange of `dequeue_position` succeeded. -/
def popCommit (queue : ByteQueue) (position : ℕ) :
    Except Halt (Option (List UInt8) × ByteQueue) :=
  let queue := { queue with dequeuePosition := word (position + 1) }
  (queue.copyOut position).bind fun outItem =>
    (queue.storeSequence position (word (position + queue.capacity))).map
      fun queue => (some outItem, queue)

/-- The loop of `bc_concurrency_queue_pop`. -/
def popLoop : ℕ → ℕ → ℕ → ByteQueue → Except Halt (Option (List UInt8) × ByteQueue)
  | 0, _, _, _ => .error .outOfFuel
  | fuel + 1, spurious, position, queue =>
      (queue.loadSequence position).bind fun sequence =>
        let difference := signedDifference sequence (word (position + 1))
        if difference = 0 then
          match spurious with
          | spurious + 1 => popLoop fuel spurious queue.dequeuePosition queue
          | 0 =>
              if queue.dequeuePosition = position then queue.popCommit position
              else popLoop fuel 0 queue.dequeuePosition queue
        else if difference < 0 then .ok (none, queue)
        else popLoop fuel spurious queue.dequeuePosition queue

/-- `bc_concurrency_queue_pop`; `none` is the result `false`. -/
def pop (fuel spurious : ℕ) (queue : ByteQueue) : Except Halt (Option (List UInt8) × ByteQueue) :=
  popLoop fuel spurious queue.dequeuePosition queue

/-- `bc_concurrency_queue_close` -/
def close (queue : ByteQueue) : ByteQueue := { queue with closed := true }

end ByteQueue

/-- A call on the queue, with the number of its exchanges that fail spuriously. -/
inductive Call
  | push (item : List UInt8) (spurious : ℕ)
  | pop (spurious : ℕ)
  | close

/-- What a call hands back to its caller. -/
inductive Reply
  | pushed (result : Bool)
  | popped (outItem : Option (List UInt8))
  | closed
deriving DecidableEq

/-- A call on the queue as the code runs it. -/
def Call.run (fuel : ℕ) (queue : ByteQueue) : Call → Except Halt (Reply × ByteQueue)
  | .push item spurious =>
      (queue.push fuel spurious item).map fun r => (.pushed r.1, r.2)
  | .pop spurious => (queue.pop fuel spurious).map fun r => (.popped r.1, r.2)
  | .close => .ok (.closed, queue.close)

/-- The same call on the reference queue. -/
def Call.reference {bound : ℕ} (f : Fifo (List UInt8) bound) : Call → Reply × Fifo (List UInt8) bound
  | .push item _ => (.pushed (f.push item).1, (f.push item).2)
  | .pop _ => (.popped f.pop.1, f.pop.2)
  | .close => (.closed, f.close)

/-- The call returns this reply and leaves this queue. -/
def Returns (queue : ByteQueue) (call : Call) (result : Reply × ByteQueue) : Prop :=
  ∃ fuel, call.run fuel queue = .ok result

/-- Every call of the sequence returns, with the reply of the reference queue. -/
def AgreesWith {bound : ℕ} (queue : ByteQueue) (f : Fifo (List UInt8) bound) : List Call → Prop
  | [] => True
  | call :: calls => ∃ queue', Returns queue call ((call.reference f).1, queue') ∧
      AgreesWith queue' (call.reference f).2 calls

/-- No push before the first close. -/
def NoPushWhileOpen : List Call → Prop
  | [] => True
  | .push _ _ :: _ => False
  | .pop _ :: calls => NoPushWhileOpen calls
  | .close :: _ => True

/-- Before the first close, no two pushes without a pop between them; `full` says
that the last call that was not refused was a push. -/
def AlternatesWhileOpen : Bool → List Call → Prop
  | _, [] => True
  | full, .push _ _ :: calls => full = false ∧ AlternatesWhileOpen true calls
  | _, .pop _ :: calls => AlternatesWhileOpen false calls
  | _, .close :: _ => True

/-! ### The loops -/

namespace ByteQueue

variable {queue : ByteQueue} {item : List UInt8} {seq : ℕ}

/-- A push that finds its slot free commits once its exchange succeeds. -/
lemma pushLoop_of_zero (hseq : queue.loadSequence queue.enqueuePosition = .ok seq)
    (hdiff : signedDifference seq queue.enqueuePosition = 0) (fuel spurious : ℕ) :
    pushLoop item fuel spurious queue.enqueuePosition queue =
      if spurious < fuel then queue.pushCommit item queue.enqueuePosition
      else .error .outOfFuel := by
  induction fuel generalizing spurious with
  | zero => simp [pushLoop]
  | succ fuel ih =>
    cases spurious with
    | zero => simp [pushLoop, hseq, Except.bind, hdiff]
    | succ spurious => simp [pushLoop, hseq, Except.bind, hdiff, ih]

/-- A push that finds its slot full is refused at once. -/
lemma pushLoop_of_neg (hseq : queue.loadSequence queue.enqueuePosition = .ok seq)
    (hdiff : signedDifference seq queue.enqueuePosition < 0) (fuel spurious : ℕ) :
    pushLoop item fuel spurious queue.enqueuePosition queue =
      if 0 < fuel then .ok (false, queue) else .error .outOfFuel := by
  cases fuel with
  | zero => simp [pushLoop]
  | succ fuel => simp [pushLoop, hseq, Except.bind, hdiff, hdiff.ne]

/-- A push that finds a sequence word ahead of its position looks at it for ever. -/
lemma pushLoop_of_pos (hseq : queue.loadSequence queue.enqueuePosition = .ok seq)
    (hdiff : 0 < signedDifference seq queue.enqueuePosition) (fuel spurious : ℕ) :
    pushLoop item fuel spurious queue.enqueuePosition queue = .error .outOfFuel := by
  induction fuel with
  | zero => rfl
  | succ fuel ih => simp [pushLoop, hseq, Except.bind, hdiff.ne', hdiff.not_gt, ih]

lemma popLoop_of_zero (hseq : queue.loadSequence queue.dequeuePosition = .ok seq)
    (hdiff : signedDifference seq (word (queue.dequeuePosition + 1)) = 0) (fuel spurious : ℕ) :
    popLoop fuel spurious queue.dequeuePosition queue =
      if spurious < fuel then queue.popCommit queue.dequeuePosition
      else .error .outOfFuel := by
  induction fuel generalizing spurious with
  | zero => simp [popLoop]
  | succ fuel ih =>
    cases spurious with
    | zero => simp [popLoop, hseq, Except.bind, hdiff]
    | succ spurious => simp [popLoop, hseq, Except.bind, hdiff, ih]

lemma popLoop_of_neg (hseq : queue.loadSequence queue.dequeuePosition = .ok seq)
    (hdiff : signedDifference seq (word (queue.dequeuePosition + 1)) < 0) (fuel spurious : ℕ) :
    popLoop fuel spurious queue.dequeuePosition queue =
      if 0 < fuel then .ok (none, queue) else .error .outOfFuel := by
  cases fuel with
  | zero => simp [popLoop]
  | succ fuel => simp [popLoop, hseq, Except.bind, hdiff, hdiff.ne]

lemma popLoop_of_pos (hseq : queue.loadSequence queue.dequeuePosition = .ok seq)
    (hdiff : 0 < signedDifference seq (word (queue.dequeuePosition + 1))) (fuel spurious : ℕ) :
    popLoop fuel spurious queue.dequeuePosition queue = .error .outOfFuel := by
  induction fuel with
  | zero => rfl
  | succ fuel ih => simp [popLoop, hseq, Except.bind, hdiff.ne', hdiff.not_gt, ih]

end ByteQueue

/-! ### What a call returns -/

variable {queue queue' : ByteQueue} {item : List UInt8} {spurious seq k : ℕ}
  {result : Reply × ByteQueue}

lemma returns_push_of_closed (hclosed : queue.closed = true) :
    Returns queue (.push item spurious) result ↔ result = (.pushed false, queue) := by
  simp [Returns, Call.run, ByteQueue.push, hclosed, Except.map, eq_comm]

lemma returns_push_of_zero (hopen : queue.closed = false)
    (hseq : queue.loadSequence queue.enqueuePosition = .ok seq)
    (hdiff : signedDifference seq queue.enqueuePosition = 0) :
    Returns queue (.push item spurious) result ↔
      (queue.pushCommit item queue.enqueuePosition).map (fun r => (.pushed r.1, r.2)) =
        .ok result := by
  simp only [Returns, Call.run, ByteQueue.push, hopen, Bool.false_eq_true, if_false,
    ByteQueue.pushLoop_of_zero hseq hdiff]
  constructor
  · rintro ⟨fuel, h⟩
    split at h
    · exact h
    · simp [Except.map] at h
  · intro h
    exact ⟨spurious + 1, by rwa [if_pos (Nat.lt_succ_self _)]⟩

lemma returns_push_of_neg (hopen : queue.closed = false)
    (hseq : queue.loadSequence queue.enqueuePosition = .ok seq)
    (hdiff : signedDifference seq queue.enqueuePosition < 0) :
    Returns queue (.push item spurious) result ↔ result = (.pushed false, queue) := by
  simp only [Returns, Call.run, ByteQueue.push, hopen, Bool.false_eq_true, if_false,
    ByteQueue.pushLoop_of_neg hseq hdiff]
  constructor
  · rintro ⟨fuel, h⟩
    split at h
    · exact (Except.ok.inj h).symm
    · simp [Except.map] at h
  · rintro rfl
    exact ⟨1, rfl⟩

lemma not_returns_push_of_pos (hopen : queue.closed = false)
    (hseq : queue.loadSequence queue.enqueuePosition = .ok seq)
    (hdiff : 0 < signedDifference seq queue.enqueuePosition) :
    ¬ Returns queue (.push item spurious) result := by
  rintro ⟨fuel, h⟩
  simp [Call.run, ByteQueue.push, hopen, ByteQueue.pushLoop_of_pos hseq hdiff, Except.map] at h

lemma returns_pop_of_zero (hseq : queue.loadSequence queue.dequeuePosition = .ok seq)
    (hdiff : signedDifference seq (word (queue.dequeuePosition + 1)) = 0) :
    Returns queue (.pop spurious) result ↔
      (queue.popCommit queue.dequeuePosition).map (fun r => (.popped r.1, r.2)) = .ok result := by
  simp only [Returns, Call.run, ByteQueue.pop, ByteQueue.popLoop_of_zero hseq hdiff]
  constructor
  · rintro ⟨fuel, h⟩
    split at h
    · exact h
    · simp [Except.map] at h
  · intro h
    exact ⟨spurious + 1, by rwa [if_pos (Nat.lt_succ_self _)]⟩

lemma returns_pop_of_neg (hseq : queue.loadSequence queue.dequeuePosition = .ok seq)
    (hdiff : signedDifference seq (word (queue.dequeuePosition + 1)) < 0) :
    Returns queue (.pop spurious) result ↔ result = (.popped none, queue) := by
  simp only [Returns, Call.run, ByteQueue.pop, ByteQueue.popLoop_of_neg hseq hdiff]
  constructor
  · rintro ⟨fuel, h⟩
    split at h
    · exact (Except.ok.inj h).symm
    · simp [Except.map] at h
  · rintro rfl
    exact ⟨1, rfl⟩

lemma not_returns_pop_of_pos (hseq : queue.loadSequence queue.dequeuePosition = .ok seq)
    (hdiff : 0 < signedDifference seq (word (queue.dequeuePosition + 1))) :
    ¬ Returns queue (.pop spurious) result := by
  rintro ⟨fuel, h⟩
  simp [Call.run, ByteQueue.pop, ByteQueue.popLoop_of_pos hseq hdiff, Except.map] at h

lemma returns_close : Returns queue .close result ↔ result = (.closed, queue.close) := by
  simp [Returns, Call.run, eq_comm]

/-- A committed push never reports that the queue is full. -/
lemma pushCommit_true {p : ℕ} {r : Bool × ByteQueue} (h : queue.pushCommit item p = .ok r) :
    r.1 = true := by
  rw [ByteQueue.pushCommit] at h
  rcases hc : ByteQueue.copyIn { queue with enqueuePosition := word (p + 1) } p item with _ | q
  · simp [hc, Except.bind] at h
  rcases hs : q.storeSequence p (word (p + 1)) with _ | q'
  · simp [hc, hs, Except.bind, Except.map] at h
  simp only [hc, hs, Except.bind, Except.map, Except.ok.injEq] at h
  rw [← h]

lemma pushCommit_fault (h : queue.slotBuffer.size < sequenceBytes + item.length) (p : ℕ) :
    queue.pushCommit item p = .error .fault := by
  have hfault : ByteQueue.copyIn { queue with enqueuePosition := word (p + 1) } p item =
      .error .fault := ByteQueue.copyIn_fault (by simpa using h) p
  rw [ByteQueue.pushCommit, hfault, Except.bind]

lemma popCommit_fault (h : queue.slotBuffer.size < sequenceBytes + queue.elementSize) (p : ℕ) :
    queue.popCommit p = .error .fault := by
  have hfault : ByteQueue.copyOut { queue with dequeuePosition := word (p + 1) } p =
      .error .fault := ByteQueue.copyOut_fault (by simpa using h) p
  rw [ByteQueue.popCommit, hfault, Except.bind]

/-! ### The slot that a commit rewrites -/

/-- The second queue differs from the first in its counters and in the slot of
position `p`, whose sequence word is now `seq`. -/
structure Rewrites (queue queue' : ByteQueue) (k p seq : ℕ) : Prop where
  addressable : queue'.Addressable k
  closed : queue'.closed = queue.closed
  elementSize : queue'.elementSize = queue.elementSize
  fits : queue'.Fits
  sequence : queue'.loadSequence p = .ok seq
  sequence_frame : ∀ p', p' % 2 ^ k ≠ p % 2 ^ k → queue'.loadSequence p' = queue.loadSequence p'
  data_frame : ∀ p', p' % 2 ^ k ≠ p % 2 ^ k → queue'.copyOut p' = queue.copyOut p'

lemma pushCommit_rewrites (hlay : queue.Addressable k) (hfits : queue.Fits)
    (hitem : item.length = queue.elementSize) (p : ℕ) :
    ∃ queue', queue.pushCommit item p = .ok (true, queue') ∧
      Rewrites queue queue' k p (word (p + 1)) ∧ queue'.copyOut p = .ok item ∧
      queue'.enqueuePosition = word (p + 1) ∧ queue'.dequeuePosition = queue.dequeuePosition := by
  have hlay := hlay.withPositions (word (p + 1)) queue.dequeuePosition
  obtain ⟨copied, hcopy⟩ := hlay.exists_copyIn hfits hitem p
  obtain ⟨hdata, hseq, hdata'⟩ := hlay.copyIn_spec hfits hitem hcopy
  obtain ⟨b, hb, rfl⟩ := ByteQueue.copyIn_inv hcopy
  have hlay' := hlay.withBuffer (Block.store_size hb)
  obtain ⟨stored, hstore⟩ := hlay'.exists_storeSequence p (word (p + 1))
  obtain ⟨hfull, hsame, hframe⟩ := hlay'.storeSequence_spec (word_lt _) hstore
  have hframe' (p' : ℕ) (hne : p' % 2 ^ k ≠ p % 2 ^ k) :=
    hlay'.storeSequence_copyOut hfits hstore hne
  obtain ⟨b', hb', rfl⟩ := ByteQueue.storeSequence_inv hstore
  refine ⟨_, by rw [ByteQueue.pushCommit, hcopy, Except.bind, hstore, Except.map],
    ⟨hlay'.withBuffer (Block.store_size hb'), rfl, rfl, hfits, hfull, ?_, ?_⟩, hsame.trans hdata,
    rfl, rfl⟩
  · exact fun p' hne => (hframe p' hne).trans (hseq p')
  · exact fun p' hne => (hframe' p' hne).trans (hdata' p' hne)

lemma popCommit_rewrites (hlay : queue.Addressable k) (hfits : queue.Fits) {p : ℕ}
    (hdata : queue.copyOut p = .ok item) :
    ∃ queue', queue.popCommit p = .ok (some item, queue') ∧
      Rewrites queue queue' k p (word (p + queue.capacity)) ∧
      queue'.enqueuePosition = queue.enqueuePosition ∧
      queue'.dequeuePosition = word (p + 1) := by
  have hlay := hlay.withPositions queue.enqueuePosition (word (p + 1))
  obtain ⟨stored, hstore⟩ := hlay.exists_storeSequence p (word (p + queue.capacity))
  obtain ⟨hfree, -, hframe⟩ := hlay.storeSequence_spec (word_lt _) hstore
  have hframe' (p' : ℕ) (hne : p' % 2 ^ k ≠ p % 2 ^ k) :=
    hlay.storeSequence_copyOut hfits hstore hne
  obtain ⟨b, hb, rfl⟩ := ByteQueue.storeSequence_inv hstore
  refine ⟨_, ?_, ⟨hlay.withBuffer (Block.store_size hb), rfl, rfl, hfits, hfree, hframe, hframe'⟩,
    rfl, rfl⟩
  rw [ByteQueue.popCommit]
  show (queue.copyOut p).bind _ = _
  rw [hdata, Except.bind, hstore, Except.map]

/-! ### The slots hold the items of the reference queue -/

/-- The queue of `2 ^ k` slots holds the items of the reference queue at the
positions from `dequeue_position`. -/
structure Refines (queue : ByteQueue) (k : ℕ) (f : Fifo (List UInt8) (2 ^ k)) : Prop where
  addressable : queue.Addressable k
  closed : queue.closed = f.closed
  enqueue_eq : queue.enqueuePosition = queue.dequeuePosition + f.items.length
  full : ∀ i < f.items.length,
    queue.loadSequence (queue.dequeuePosition + i) = .ok (queue.dequeuePosition + i + 1)
  data : ∀ i (hi : i < f.items.length),
    queue.copyOut (queue.dequeuePosition + i) = .ok f.items[i]
  free : ∀ i, f.items.length ≤ i → i < 2 ^ k →
    queue.loadSequence (queue.dequeuePosition + i) = .ok (queue.dequeuePosition + i)

lemma Usable.refines {elementSize capacity : ℕ} (h : Usable queue elementSize k)
    (hfresh : Fresh queue elementSize capacity k) : Refines queue k .empty where
  addressable := h.addressable
  closed := hfresh.closed
  enqueue_eq := by simp [hfresh.enqueuePosition, hfresh.dequeuePosition]
  full := by simp
  data := by simp
  free := fun i _ hi => by simpa [hfresh.dequeuePosition] using h.sequence i hi

namespace Refines

variable {f : Fifo (List UInt8) (2 ^ k)}

/-- Positions of one window lie in one slot only if they are equal. -/
lemma window_ne {i j : ℕ} (d : ℕ) (hi : i < 2 ^ k) (hj : j < 2 ^ k) (hne : i ≠ j) :
    (d + i) % 2 ^ k ≠ (d + j) % 2 ^ k := by
  intro heq
  have := Ring.eq_of_mod_eq_of_window (d := d) heq (by omega) (by omega) (by omega) (by omega)
  omega

/-- A push with room appends its item. -/
lemma push_of_room (href : Refines queue k f) (hfits : queue.Fits)
    (hitem : item.length = queue.elementSize) (hopen : f.closed = false)
    (hroom : f.items.length < 2 ^ k) (hbound : queue.enqueuePosition + 1 < 2 ^ 63) :
    ∃ queue', queue.pushCommit item queue.enqueuePosition = .ok (true, queue') ∧
      Refines queue' k (f.push item).2 ∧ queue'.Fits ∧
      queue'.enqueuePosition = queue.enqueuePosition + 1 ∧
      queue'.elementSize = queue.elementSize := by
  obtain ⟨-, hitems, hclosed⟩ := f.push_of_room item hopen hroom
  have henq := href.enqueue_eq
  obtain ⟨queue', hcommit, hrw, hdata, henq', hdeq'⟩ :=
    pushCommit_rewrites href.addressable hfits hitem queue.enqueuePosition
  have hseq := hrw.sequence
  rw [word_of_lt (by omega)] at henq' hseq
  -- the slots of the other positions of the window are untouched
  have hne (i : ℕ) (hi : i < 2 ^ k) (hne : i ≠ f.items.length) :
      (queue.dequeuePosition + i) % 2 ^ k ≠ queue.enqueuePosition % 2 ^ k := by
    rw [henq]
    exact window_ne _ hi hroom hne
  refine ⟨queue', hcommit, ⟨hrw.addressable, ?_, ?_, ?_, ?_, ?_⟩, hrw.fits, henq', hrw.elementSize⟩
  · rw [hrw.closed, href.closed, hclosed]
  · rw [henq', hdeq', hitems, henq, List.length_append, List.length_singleton, Nat.add_assoc]
  · intro i hi
    rw [hitems, List.length_append, List.length_singleton] at hi
    rw [hdeq']
    rcases Nat.lt_succ_iff_lt_or_eq.mp hi with hlt | rfl
    · rw [hrw.sequence_frame _ (hne i (by omega) (by omega)), href.full i hlt]
    · rwa [← henq]
  · intro i hi
    simp only [hitems, hdeq']
    rw [hitems, List.length_append, List.length_singleton] at hi
    rcases Nat.lt_succ_iff_lt_or_eq.mp hi with hlt | rfl
    · rw [List.getElem_append_left hlt, hrw.data_frame _ (hne i (by omega) (by omega)),
        href.data i hlt]
    · rw [List.getElem_concat_length rfl, ← henq, hdata]
  · intro i hle hi
    rw [hitems, List.length_append, List.length_singleton] at hle
    rw [hdeq', hrw.sequence_frame _ (hne i hi (by omega)), href.free i (by omega) hi]

/-- The capacity is far from the range of positions. -/
lemma capacity_lt (href : Refines queue k f) : 2 ^ k < 2 ^ 63 := by
  have hsize := href.addressable.size_lt
  have hbytes := href.addressable.size_le
  have hle := Nat.mul_le_mul_right (2 ^ k) href.addressable.sequence_le
  rw [sequenceBytes] at hle
  omega

/-- A pop takes the oldest item and frees its slot for the next lap. -/
lemma pop_of_cons (href : Refines queue k f) (hfits : queue.Fits) {x : List UInt8}
    {rest : List (List UInt8)} (hf : f.items = x :: rest)
    (hbound : queue.enqueuePosition < 2 ^ 63) :
    ∃ queue', queue.popCommit queue.dequeuePosition = .ok (some x, queue') ∧
      Refines queue' k f.pop.2 ∧ queue'.Fits ∧
      queue'.enqueuePosition = queue.enqueuePosition ∧
      queue'.elementSize = queue.elementSize := by
  obtain ⟨-, hitems, hclosed⟩ := f.pop_of_cons hf
  have hlen : f.items.length = rest.length + 1 := by rw [hf, List.length_cons]
  have hle := f.length_le
  have henq := href.enqueue_eq
  have hcap := href.capacity_lt
  have hhead : queue.copyOut queue.dequeuePosition = .ok x := by
    have h := href.data 0 (by omega)
    simpa [hf] using h
  obtain ⟨queue', hcommit, hrw, henq', hdeq'⟩ := popCommit_rewrites href.addressable hfits hhead
  have hseq := hrw.sequence
  rw [href.addressable.capacity, word_of_lt (by omega)] at hseq
  rw [word_of_lt (by omega)] at hdeq'
  -- the slots of the other positions of the window are untouched
  have hne (i : ℕ) (hi : i + 1 < 2 ^ k) :
      (queue.dequeuePosition + (i + 1)) % 2 ^ k ≠ queue.dequeuePosition % 2 ^ k :=
    window_ne queue.dequeuePosition (j := 0) hi (by omega) (by omega)
  have hshift (i : ℕ) : queue'.dequeuePosition + i = queue.dequeuePosition + (i + 1) := by omega
  refine ⟨queue', hcommit, ⟨hrw.addressable, ?_, ?_, ?_, ?_, ?_⟩, hrw.fits, henq', hrw.elementSize⟩
  · rw [hrw.closed, href.closed, hclosed]
  · rw [henq', hdeq', hitems]
    omega
  · intro i hi
    rw [hitems] at hi
    rw [hshift, hrw.sequence_frame _ (hne i (by omega)), href.full (i + 1) (by omega)]
  · intro i hi
    simp only [hitems, hshift]
    rw [hitems] at hi
    rw [hrw.data_frame _ (hne i (by omega)), href.data (i + 1) (by omega)]
    simp only [hf, List.getElem_cons_succ]
  · intro i hge hi
    rw [hitems] at hge
    rw [hshift]
    rcases Nat.lt_or_ge (i + 1) (2 ^ k) with hlt | hlast
    · rw [hrw.sequence_frame _ (hne i hlt), href.free (i + 1) (by omega) hlt]
    · obtain hi : i + 1 = 2 ^ k := by omega
      rw [hi, hrw.addressable.loadSequence_add, hseq]

/-- The slot that the next push looks at. -/
lemma sequence_enqueue (href : Refines queue k f) :
    queue.loadSequence queue.enqueuePosition =
      .ok (if f.items.length < 2 ^ k then queue.enqueuePosition
        else queue.dequeuePosition + 1) := by
  have hle := f.length_le
  rw [href.enqueue_eq]
  split
  case isTrue hlt => exact href.free _ le_rfl hlt
  case isFalse hge =>
    obtain heq : f.items.length = 2 ^ k := by omega
    have hpos : 0 < 2 ^ k := Nat.two_pow_pos k
    rw [heq, href.addressable.loadSequence_add]
    exact href.full 0 (by omega)

/-- The slot that the next pop looks at. -/
lemma sequence_dequeue (href : Refines queue k f) :
    queue.loadSequence queue.dequeuePosition =
      .ok (if f.items = [] then queue.dequeuePosition else queue.dequeuePosition + 1) := by
  split
  case isTrue hnil => exact href.free 0 (by simp [hnil]) (Nat.two_pow_pos k)
  case isFalse hne => exact href.full 0 (List.length_pos_iff.mpr hne)

end Refines

/-! ### Sequences of calls -/

section Agreement

variable {f : Fifo (List UInt8) (2 ^ k)} {calls : List Call}

lemma agreesWith_cons {call : Call} {reply : Reply}
    (h : ∀ result, Returns queue call result ↔ result = (reply, queue')) :
    AgreesWith queue f (call :: calls) ↔
      reply = (call.reference f).1 ∧ AgreesWith queue' (call.reference f).2 calls := by
  simp only [AgreesWith, h, Prod.mk.injEq]
  constructor
  · rintro ⟨q, ⟨hreply, rfl⟩, hagrees⟩
    exact ⟨hreply.symm, hagrees⟩
  · rintro ⟨hreply, hagrees⟩
    exact ⟨queue', ⟨hreply.symm, rfl⟩, hagrees⟩

lemma agreesWith_close (href : Refines queue k f) (calls : List Call) :
    Refines queue.close k f.close ∧
      (AgreesWith queue f (.close :: calls) ↔ AgreesWith queue.close f.close calls) := by
  refine ⟨⟨⟨href.addressable.capacity, href.addressable.capacityMask, href.addressable.sequence_le,
    href.addressable.size_le, href.addressable.size_lt⟩, rfl, href.enqueue_eq, href.full, href.data,
    href.free⟩, ?_⟩
  rw [agreesWith_cons (fun result => returns_close)]
  simp [Call.reference]

lemma agreesWith_pop_of_nil (href : Refines queue k f) (hf : f.items = [])
    (hbound : queue.enqueuePosition + 1 < 2 ^ 63) :
    AgreesWith queue f (.pop spurious :: calls) ↔ AgreesWith queue f calls := by
  have henq := href.enqueue_eq
  have hseq := href.sequence_dequeue
  rw [if_pos hf] at hseq
  have hdiff : signedDifference queue.dequeuePosition (word (queue.dequeuePosition + 1)) < 0 := by
    rw [word_of_lt (by omega), signedDifference_of_near (by omega) (by omega)]
    omega
  rw [agreesWith_cons (fun result => returns_pop_of_neg hseq hdiff)]
  simp only [Call.reference, f.pop_of_nil hf, true_and]

lemma agreesWith_pop_of_cons (href : Refines queue k f) (hfits : queue.Fits) {x : List UInt8}
    {rest : List (List UInt8)} (hf : f.items = x :: rest)
    (hbound : queue.enqueuePosition + 1 < 2 ^ 63) (spurious : ℕ) (calls : List Call) :
    ∃ queue', Refines queue' k f.pop.2 ∧ queue'.Fits ∧
      queue'.enqueuePosition = queue.enqueuePosition ∧ queue'.elementSize = queue.elementSize ∧
      (AgreesWith queue f (.pop spurious :: calls) ↔ AgreesWith queue' f.pop.2 calls) := by
  obtain ⟨queue', hcommit, href', hfits', henq', hsize'⟩ :=
    href.pop_of_cons hfits hf (by omega)
  have henq := href.enqueue_eq
  have hseq := href.sequence_dequeue
  rw [if_neg (by simp [hf])] at hseq
  have hdiff : signedDifference (queue.dequeuePosition + 1)
      (word (queue.dequeuePosition + 1)) = 0 := by
    rw [word_of_lt (by omega), signedDifference_of_near (by omega) (by omega)]
    omega
  have hreturns (result : Reply × ByteQueue) :
      Returns queue (.pop spurious) result ↔ result = (.popped (some x), queue') := by
    rw [returns_pop_of_zero hseq hdiff, hcommit]
    simp [Except.map, eq_comm]
  refine ⟨queue', href', hfits', henq', hsize', ?_⟩
  rw [agreesWith_cons hreturns]
  simp only [Call.reference, (f.pop_of_cons hf).1, true_and]

lemma agreesWith_push_of_closed (href : Refines queue k f) (hclosed : f.closed = true) :
    AgreesWith queue f (.push item spurious :: calls) ↔ AgreesWith queue f calls := by
  rw [agreesWith_cons (fun result => returns_push_of_closed (href.closed.trans hclosed))]
  simp only [Call.reference, f.push_of_not_room item (Or.inl hclosed), true_and]

lemma agreesWith_push_of_room (href : Refines queue k f) (hfits : queue.Fits)
    (hitem : item.length = queue.elementSize) (hopen : f.closed = false)
    (hroom : f.items.length < 2 ^ k) (hbound : queue.enqueuePosition + 1 < 2 ^ 63)
    (spurious : ℕ) (calls : List Call) :
    ∃ queue', Refines queue' k (f.push item).2 ∧ queue'.Fits ∧
      queue'.enqueuePosition = queue.enqueuePosition + 1 ∧
      queue'.elementSize = queue.elementSize ∧
      (AgreesWith queue f (.push item spurious :: calls) ↔
        AgreesWith queue' (f.push item).2 calls) := by
  obtain ⟨queue', hcommit, href', hfits', henq', hsize'⟩ :=
    href.push_of_room hfits hitem hopen hroom hbound
  have hseq := href.sequence_enqueue
  rw [if_pos hroom] at hseq
  have hreturns (result : Reply × ByteQueue) :
      Returns queue (.push item spurious) result ↔ result = (.pushed true, queue') := by
    rw [returns_push_of_zero (href.closed.trans hopen) hseq
      ((signedDifference_of_near (by omega) (by omega)).trans (by simp)), hcommit]
    simp [Except.map, eq_comm]
  refine ⟨queue', href', hfits', henq', hsize', ?_⟩
  rw [agreesWith_cons hreturns]
  simp only [Call.reference, (f.push_of_room item hopen hroom).1, true_and]

/-- With two slots or more the sequence word of a full slot is behind the
position of the next push. -/
lemma agreesWith_push_of_full (href : Refines queue k f) (hopen : f.closed = false)
    (hfull : f.items.length = 2 ^ k) (hk : 2 ^ k ≠ 1) (hbound : queue.enqueuePosition < 2 ^ 63) :
    AgreesWith queue f (.push item spurious :: calls) ↔ AgreesWith queue f calls := by
  have henq := href.enqueue_eq
  have hpos : 0 < 2 ^ k := Nat.two_pow_pos k
  have hseq := href.sequence_enqueue
  rw [if_neg (by omega)] at hseq
  have hdiff : signedDifference (queue.dequeuePosition + 1) queue.enqueuePosition < 0 := by
    rw [signedDifference_of_near (by omega) (by omega)]
    omega
  rw [agreesWith_cons (fun result => returns_push_of_neg (href.closed.trans hopen) hseq hdiff)]
  simp only [Call.reference, f.push_of_not_room item (Or.inr hfull.ge), true_and]

/-- With a single slot the sequence word of the full slot is the position of the
next push, which then returns true. -/
lemma not_agreesWith_push_of_full (href : Refines queue k f) (hopen : f.closed = false)
    (hfull : f.items.length = 2 ^ k) (hk : 2 ^ k = 1) :
    ¬ AgreesWith queue f (.push item spurious :: calls) := by
  have henq := href.enqueue_eq
  have hseq := href.sequence_enqueue
  rw [if_neg (by omega)] at hseq
  rintro ⟨queue', hreturns, -⟩
  rw [returns_push_of_zero (href.closed.trans hopen) hseq
    ((signedDifference_of_near (by omega) (by omega)).trans (by omega))] at hreturns
  rcases hc : queue.pushCommit item queue.enqueuePosition with _ | r
  · simp [hc, Except.map] at hreturns
  · simp [hc, Except.map, Call.reference, f.push_of_not_room item (Or.inr hfull.ge),
      pushCommit_true hc] at hreturns

/-- A push into slots that have no room for their payload faults. -/
lemma not_agreesWith_push_of_large (href : Refines queue k f) (hopen : f.closed = false)
    (hempty : f.items = []) (hlarge : 2 ^ 64 ≤ sequenceBytes + queue.elementSize)
    (hitem : item.length = queue.elementSize) :
    ¬ AgreesWith queue f (.push item spurious :: calls) := by
  have hseq := href.sequence_enqueue
  rw [if_pos (by simp [hempty])] at hseq
  rintro ⟨queue', hreturns, -⟩
  rw [returns_push_of_zero (href.closed.trans hopen) hseq
    ((signedDifference_of_near (by omega) (by omega)).trans (by simp))] at hreturns
  have hsize := href.addressable.size_lt
  rw [pushCommit_fault (by omega)] at hreturns
  cases hreturns

lemma not_fits_of_large (hlay : queue.Addressable k)
    (hlarge : 2 ^ 64 ≤ sequenceBytes + queue.elementSize) : ¬ queue.Fits := by
  intro hfits
  have hle : sequenceBytes + queue.elementSize ≤ queue.slotStrideBytes := hfits
  have hsize := hlay.size_lt
  have hbytes := hlay.size_le
  have := Nat.le_mul_of_pos_right queue.slotStrideBytes (Nat.two_pow_pos k)
  omega

/-- What a queue that is not closed needs of the calls to come. -/
def Admissible (queue : ByteQueue) (k : ℕ) (f : Fifo (List UInt8) (2 ^ k)) (calls : List Call) :
    Prop :=
  f.closed = true ∨ ((queue.Fits ∨ NoPushWhileOpen calls) ∧
    (2 ^ k ≠ 1 ∨ AlternatesWhileOpen (!f.items.isEmpty) calls))

/-- The calls to come agree with the reference queue exactly when they are
admissible. -/
theorem agreesWith_iff (href : Refines queue k f)
    (hfits : queue.Fits ∨ f.items = [] ∧ 2 ^ 64 ≤ sequenceBytes + queue.elementSize)
    (hbound : queue.enqueuePosition + calls.length < 2 ^ 63)
    (hsized : ∀ item spurious, .push item spurious ∈ calls → item.length = queue.elementSize) :
    AgreesWith queue f calls ↔ Admissible queue k f calls := by
  induction calls generalizing queue f with
  | nil => simp [AgreesWith, Admissible, NoPushWhileOpen, AlternatesWhileOpen]
  | cons call calls ih =>
    rw [List.length_cons] at hbound
    have hsized' : ∀ item spurious, .push item spurious ∈ calls →
        item.length = queue.elementSize := fun item spurious h =>
      hsized item spurious (List.mem_cons_of_mem _ h)
    have hle := f.length_le
    cases call with
    | close =>
      obtain ⟨href', hiff⟩ := agreesWith_close href calls
      rw [hiff, ih href' hfits (by simpa [ByteQueue.close] using by omega) hsized']
      simp [Admissible, NoPushWhileOpen, AlternatesWhileOpen]
    | pop spurious =>
      rcases hf : f.items with _ | ⟨x, rest⟩
      · rw [agreesWith_pop_of_nil href hf (by omega), ih href hfits (by omega) hsized']
        simp [Admissible, NoPushWhileOpen, AlternatesWhileOpen, hf]
      · have hfits : queue.Fits := hfits.resolve_right fun h => by simp [hf] at h
        obtain ⟨queue', href', hfits', henq', hsize', hiff⟩ :=
          agreesWith_pop_of_cons href hfits hf (by omega) spurious calls
        obtain ⟨-, hitems, hclosed⟩ := f.pop_of_cons hf
        rw [hiff, ih href' (Or.inl hfits') (by omega) (by rwa [hsize'])]
        simp only [Admissible, NoPushWhileOpen, AlternatesWhileOpen, hclosed, hfits, hfits',
          hitems, true_or, true_and]
        -- with a single slot the pushes and pops have to alternate while the queue is open
        by_cases hk : 2 ^ k = 1
        · have hlen := congrArg List.length hf
          rw [List.length_cons] at hlen
          have hrest : rest = [] := List.length_eq_zero_iff.mp (by omega)
          simp [hk, hrest]
        · simp only [ne_eq, hk, not_false_eq_true, true_or]
    | push item spurious =>
      have hitem := hsized item spurious (List.mem_cons_self ..)
      cases hopen : f.closed with
      | true =>
        rw [agreesWith_push_of_closed href hopen, ih href hfits (by omega) hsized']
        simp [Admissible, hopen]
      | false =>
        rcases hfits with hfits | ⟨hnil, hlarge⟩
        · rcases Nat.lt_or_eq_of_le hle with hroom | hfull
          · obtain ⟨queue', href', hfits', henq', hsize', hiff⟩ :=
              agreesWith_push_of_room href hfits hitem hopen hroom (by omega) spurious calls
            obtain ⟨-, hitems, hclosed⟩ := f.push_of_room item hopen hroom
            rw [hiff, ih href' (Or.inl hfits') (by omega) (by rwa [hsize'])]
            simp only [Admissible, AlternatesWhileOpen, hclosed, hfits, hfits', hitems, true_or,
              true_and]
            by_cases hk : 2 ^ k = 1
            · have hnil : f.items = [] := List.length_eq_zero_iff.mp (by omega)
              simp [hk, hnil]
            · simp only [ne_eq, hk, not_false_eq_true, true_or]
          · by_cases hk : 2 ^ k = 1
            · have hne : f.items ≠ [] := List.length_pos_iff.mp (by omega)
              refine iff_of_false
                (not_agreesWith_push_of_full href hopen hfull hk) ?_
              simp [Admissible, AlternatesWhileOpen, hopen, hk, hne]
            · rw [agreesWith_push_of_full href hopen hfull hk (by omega),
                ih href (Or.inl hfits) (by omega) hsized']
              simp only [Admissible, hfits, ne_eq, hk, not_false_eq_true, true_or, true_and]
        · refine iff_of_false
            (not_agreesWith_push_of_large href hopen hnil hlarge hitem) ?_
          simp [Admissible, NoPushWhileOpen, hopen, not_fits_of_large href.addressable hlarge]

end Agreement

/-! ### Slots that share one sequence word -/

namespace Collapsed

variable {calls : List Call}

/-- With one slot the sequence word of the empty queue is the right one; with more
slots it is that of the last of them. -/
lemma returns_pop_iff (h : Collapsed queue k) :
    Returns queue (.pop spurious) result ↔ k = 0 ∧ result = (.popped none, queue) := by
  have hseq := h.sequence queue.dequeuePosition
  have hk : 2 ^ k ≤ 2 ^ 63 := Nat.pow_le_pow_right (by norm_num) h.k_le
  have hone : word (queue.dequeuePosition + 1) = 1 := by
    rw [h.dequeuePosition]
    rfl
  rcases Nat.eq_zero_or_pos k with rfl | hpos
  · rw [returns_pop_of_neg hseq (by rw [hone]; decide)]
    simp
  have htwo : 2 ^ 1 ≤ 2 ^ k := Nat.pow_le_pow_right (by norm_num) hpos
  refine iff_of_false ?_ fun hnone => hpos.ne' hnone.1
  rcases Nat.lt_or_eq_of_le htwo with hlt | heq
  · refine not_returns_pop_of_pos hseq ?_
    rw [hone, signedDifference_of_near (by omega) (by omega)]
    omega
  · rw [returns_pop_of_zero hseq (by rw [hone, ← heq]; decide), popCommit_fault h.size_lt]
    exact nofun

/-- A push into the open queue does not return. -/
lemma not_returns_push (h : Collapsed queue k) (hopen : queue.closed = false)
    (hitem : item.length = queue.elementSize) : ¬ Returns queue (.push item spurious) result := by
  have hseq := h.sequence queue.enqueuePosition
  have hk : 2 ^ k ≤ 2 ^ 63 := Nat.pow_le_pow_right (by norm_num) h.k_le
  have hzero := h.enqueuePosition
  rcases Nat.eq_zero_or_pos k with rfl | hpos
  · rw [returns_push_of_zero hopen hseq (by rw [hzero]; decide),
      pushCommit_fault (hitem.symm ▸ h.size_lt)]
    exact nofun
  · have htwo : 2 ^ 1 ≤ 2 ^ k := Nat.pow_le_pow_right (by norm_num) hpos
    refine not_returns_push_of_pos hopen hseq ?_
    rw [hzero, signedDifference_of_near (by omega) (by omega)]
    omega

lemma close (h : Collapsed queue k) : Collapsed queue.close k :=
  ⟨h.k_le, h.enqueuePosition, h.dequeuePosition, h.slotStrideBytes, h.sequence, h.size_lt⟩

/-- Such a queue never holds an item, so the calls agree with the reference queue as
long as they are of the kinds that return. -/
lemma agreesWith_iff (h : Collapsed queue k) {f : Fifo (List UInt8) (2 ^ k)} (hclosed : queue.closed = f.closed)
    (hempty : f.items = [])
    (hsized : ∀ item spurious, .push item spurious ∈ calls → item.length = queue.elementSize) :
    AgreesWith queue f calls ↔ (f.closed = true ∨ NoPushWhileOpen calls) ∧
      (k = 0 ∨ ∀ spurious, .pop spurious ∉ calls) := by
  induction calls generalizing queue f with
  | nil => simp [AgreesWith, NoPushWhileOpen]
  | cons call calls ih =>
    have hsized' : ∀ item spurious, .push item spurious ∈ calls →
        item.length = queue.elementSize := fun item spurious hmem =>
      hsized item spurious (List.mem_cons_of_mem _ hmem)
    cases call with
    | close =>
      rw [agreesWith_cons (fun result => returns_close)]
      simp only [Call.reference, true_and]
      rw [ih (f := f.close) h.close rfl hempty hsized']
      simp [NoPushWhileOpen, Fifo.close]
    | pop spurious =>
      by_cases hk : k = 0
      · have hpop (result : Reply × ByteQueue) :
            Returns queue (.pop spurious) result ↔ result = (.popped none, queue) := by
          rw [h.returns_pop_iff, and_iff_right hk]
        rw [agreesWith_cons hpop]
        simp only [Call.reference, f.pop_of_nil hempty, true_and, NoPushWhileOpen]
        rw [ih h hclosed hempty hsized']
        simp [hk]
      · refine iff_of_false ?_ ?_
        · rintro ⟨queue', hreturns, -⟩
          exact hk (h.returns_pop_iff.mp hreturns).1
        · rintro ⟨-, hk' | hnone⟩
          · exact hk hk'
          · exact hnone spurious (List.mem_cons_self ..)
    | push item spurious =>
      cases hopen : f.closed with
      | true =>
        rw [agreesWith_cons (fun result => returns_push_of_closed (hclosed.trans hopen))]
        simp only [Call.reference, f.push_of_not_room item (Or.inl hopen), true_and]
        rw [ih h hclosed hempty hsized']
        simp [hopen]
      | false =>
        refine iff_of_false ?_ (by simp [NoPushWhileOpen])
        rintro ⟨queue', hreturns, -⟩
        exact h.not_returns_push (hclosed.trans hopen) (hsized _ _ (List.mem_cons_self ..)) hreturns

end Collapsed

/-! ### Every size -/

lemma NoPushWhileOpen.alternates {calls : List Call} (h : NoPushWhileOpen calls) :
    AlternatesWhileOpen false calls := by
  induction calls with
  | nil => trivial
  | cons call calls ih =>
    cases call with
    | push item spurious => exact h.elim
    | pop spurious => exact ih h
    | close => trivial

/-- A created queue agrees with the FIFO bounded by its capacity, on calls by one thread,
unless a push comes while its single slot is full.  This is so if the aligned size of a slot
is a word.  Otherwise the open queue must not be pushed to; and where the stride has wrapped
to zero there must be no pop either, unless there is only one slot. -/
theorem queue_sequential_fifo_iff {pool : BlockAllocator} {fuel elementSize capacity : ℕ}
    (hsize : elementSize < 2 ^ 64) (hcap : capacity < 2 ^ 64)
    (hcreate : createOn pool.allocate fuel elementSize capacity = .ok (some queue))
    (calls : List Call) (hlen : calls.length < 2 ^ 63)
    (hsized : ∀ item spurious, .push item spurious ∈ calls → item.length = elementSize) :
    AgreesWith queue (.empty : Fifo (List UInt8) queue.capacity) calls ↔
      (sequenceBytes + elementSize + 63 < 2 ^ 64 ∧
          (capacity ≠ 1 ∨ AlternatesWhileOpen false calls)) ∨
        (2 ^ 64 ≤ sequenceBytes + elementSize + 63 ∧ NoPushWhileOpen calls ∧
          (capacity = 1 ∨ 2 ^ 64 < sequenceBytes + elementSize ∨
            ∀ spurious, .pop spurious ∉ calls)) := by
  obtain ⟨k, hfresh, hslots⟩ := createOn_ok hsize hcap hcreate
  have helement := hfresh.elementSize_eq
  have hone : 2 ^ k = 1 ↔ capacity = 1 := by
    have := hfresh.capacity_le
    have := hfresh.lt_capacity
    omega
  rw [hfresh.capacity_eq]
  obtain ⟨husable, hstride⟩ | ⟨hcollapsed, hlarge, hle⟩ := hslots
  · have hfits : queue.Fits ∨ (.empty : Fifo (List UInt8) (2 ^ k)).items = [] ∧
        2 ^ 64 ≤ sequenceBytes + queue.elementSize := by
      rw [husable.fits_iff, helement]
      rcases Nat.lt_or_ge (sequenceBytes + elementSize) (2 ^ 64) with h | h
      · exact Or.inl h
      · exact Or.inr ⟨rfl, h⟩
    rw [Queue.agreesWith_iff (husable.refines hfresh) hfits
      (by rw [hfresh.enqueuePosition]; omega) (by rwa [helement]), Admissible, husable.fits_iff,
      ne_eq, hone]
    simp only [Fifo.empty, Bool.false_eq_true, false_or, List.isEmpty_nil, Bool.not_true]
    rcases hstride with hfit | hwrap
    · have hnot : ¬ 2 ^ 64 ≤ sequenceBytes + elementSize + 63 := Nat.not_le.mpr hfit
      have hword : sequenceBytes + elementSize < 2 ^ 64 := by omega
      simp only [hfit, hword, hnot, true_or, true_and, false_and, or_false]
    · have hnot : ¬ sequenceBytes + elementSize + 63 < 2 ^ 64 := by omega
      have hnot' : ¬ sequenceBytes + elementSize < 2 ^ 64 := by omega
      have hlarge : 2 ^ 64 ≤ sequenceBytes + elementSize + 63 := by omega
      simp only [hnot, hnot', hlarge, hwrap, true_or, or_true, and_true, false_and, false_or,
        true_and]
      exact ⟨And.left, fun h => ⟨h, Or.inr h.alternates⟩⟩
  · have hk : k = 0 ↔ capacity = 1 := by
      rw [← hone]
      simp
    rw [hcollapsed.agreesWith_iff hfresh.closed rfl (by rwa [helement]), hk]
    have hnot : ¬ sequenceBytes + elementSize + 63 < 2 ^ 64 := Nat.not_lt.mpr hlarge
    have hnot' : ¬ 2 ^ 64 < sequenceBytes + elementSize := Nat.not_lt.mpr hle
    simp only [Fifo.empty, Bool.false_eq_true, hnot, hnot', hlarge, false_and, false_or, true_and]

/-- A block of whole cache lines, none of them zeroed, that is larger than requested. -/
def wholeLines (bytes : ℕ) : GrantedBlock bytes where
  val := ⟨(bytes / cachelineBytes + 1) * cachelineBytes, fun _ => 255⟩
  property := (Nat.lt_div_mul_add (by decide)).le.trans_eq (Nat.succ_mul _ _).symm

/-- A pool that grants everything up to a limit, in whole cache lines. -/
def BlockAllocator.upTo (limit : ℕ) (hlimit : limit + cachelineBytes < 2 ^ 63) :
    BlockAllocator where
  allocate := fun _ bytes => if bytes ≤ limit then some (wholeLines bytes) else none
  size_lt := fun _ bytes block h => by
    by_cases hle : bytes ≤ limit
    · rw [if_pos hle, Option.some.injEq] at h
      calc block.1.size = bytes / cachelineBytes * cachelineBytes + cachelineBytes := by
            rw [← h]
            exact Nat.succ_mul _ _
        _ ≤ limit + cachelineBytes :=
            Nat.add_le_add_right ((Nat.div_mul_le_self _ _).trans hle) _
        _ < 2 ^ 63 := hlimit
    · rw [if_neg hle] at h
      cases h

/-- The single slot of a queue of capacity one: the second push returns true.  And with
two slots whose alignment wraps to zero a pop from the empty queue copies from outside of
the block. -/
theorem queue_single_slot_overwritten :
    let pool := BlockAllocator.upTo 4096 (by decide)
    (∃ queue, createOn pool.allocate 0 4 1 = .ok (some queue) ∧ queue.capacity = 1 ∧
      (∃ queue' queue'', Returns queue (.push [1, 0, 0, 0] 0) (.pushed true, queue') ∧
        Returns queue' (.push [2, 0, 0, 0] 0) (.pushed true, queue'')) ∧
      ¬ AgreesWith queue (.empty : Fifo (List UInt8) queue.capacity)
        [.push [1, 0, 0, 0] 0, .push [2, 0, 0, 0] 0]) ∧
      ∃ queue, createOn pool.allocate 0 (2 ^ 64 - 71) 2 = .ok (some queue) ∧
        ¬ AgreesWith queue (.empty : Fifo (List UInt8) queue.capacity) [.pop 0] := by
  refine ⟨⟨_, rfl, rfl, ⟨_, _, ⟨1, rfl⟩, ⟨1, rfl⟩⟩, ?_⟩, _, rfl, ?_⟩
  · rintro ⟨queue', ⟨fuel, hfirst⟩, queue'', ⟨fuel', hsecond⟩, -⟩
    cases fuel with
    | zero => cases hfirst
    | succ fuel =>
      obtain rfl := congrArg Prod.snd (Except.ok.inj hfirst)
      cases fuel' with
      | zero => cases hsecond
      | succ fuel' => cases congrArg Prod.fst (Except.ok.inj hsecond)
  · rintro ⟨queue', ⟨fuel, hpop⟩, -⟩
    cases fuel with
    | zero => cases hpop
    | succ fuel => cases hpop

/-- Two slots, three pushes of which the last is refused, and pops in order. -/
theorem queue_sequential_fifo_two_slots :
    ∃ queue, createOn (BlockAllocator.upTo 4096 (by decide)).allocate 0 4 2 = .ok (some queue) ∧
      AgreesWith queue (.empty : Fifo (List UInt8) queue.capacity)
        [.push [1, 0, 0, 0] 0, .push [2, 0, 0, 0] 1, .push [3, 0, 0, 0] 0, .pop 0, .close,
          .pop 2, .pop 0] := by
  obtain ⟨queue, hcreate⟩ : ∃ queue,
      createOn (BlockAllocator.upTo 4096 (by decide)).allocate 0 4 2 = .ok (some queue) :=
    ⟨_, rfl⟩
  refine ⟨queue, hcreate, (queue_sequential_fifo_iff (by norm_num) (by norm_num) hcreate _
    (by simp) ?_).mpr (by simp [sequenceBytes])⟩
  intro item spurious h
  simp only [List.mem_cons, Call.push.injEq, reduceCtorEq, List.not_mem_nil, or_false]
    at h
  rcases h with ⟨rfl, -⟩ | ⟨rfl, -⟩ | ⟨rfl, -⟩ <;> rfl

end BcConcurrency.Queue
