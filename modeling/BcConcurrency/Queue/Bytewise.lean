import BcConcurrency.Queue.ExactlyOnce
import BcConcurrency.Queue.Sequential

/-!
# The MPMC queue on the bytes of its buffer

The atomic steps of the queue, on `slot_buffer` as a block of bytes.  The copy of
a payload is no atomic step: its bytes go one at a time, in an order that the
environment chooses and more than once if it likes, while the other threads run.
An access outside of its object is a fault, which the history records.
-/

namespace BcConcurrency.Queue

namespace ByteQueue

/-- Store one byte of `bc_concurrency_queue_slot_data`. -/
def storeByte (queue : ByteQueue) (position i : ℕ) (byte : UInt8) : Except Halt ByteQueue :=
  (queue.slotBuffer.store (queue.slotDataOffset position + i) [byte]).map
    fun slotBuffer => { queue with slotBuffer := slotBuffer }

/-- Load one byte of `bc_concurrency_queue_slot_data`. -/
def loadByte (queue : ByteQueue) (position i : ℕ) : Except Halt UInt8 :=
  queue.slotBuffer.loadByte (queue.slotDataOffset position + i)

end ByteQueue

/-- Read a byte of an object of the caller. -/
def readByte (object : List UInt8) (i : ℕ) : Except Halt UInt8 :=
  match object[i]? with
  | some byte => .ok byte
  | none => .error .fault

/-- Write a byte of an object of the caller. -/
def writeByte (object : List UInt8) (i : ℕ) (byte : UInt8) : Except Halt (List UInt8) :=
  if i < object.length then .ok (object.set i byte) else .error .fault

namespace ByteQueue.Addressable

variable {queue : ByteQueue} {k p i : ℕ} {bytes : List UInt8}

/-- The payload of a slot lies in the buffer. -/
lemma exists_copyOut (hlay : queue.Addressable k) (hfits : queue.Fits) (p : ℕ) :
    ∃ bytes, queue.copyOut p = .ok bytes ∧ bytes.length = queue.elementSize := by
  have hoff := (hlay.slotOffset_eq p).2
  have hle : sequenceBytes + queue.elementSize ≤ queue.slotStrideBytes := hfits
  refine ⟨_, by rw [copyOut, Block.load, if_pos (by rw [slotDataOffset]; omega)], by simp⟩

/-- What a store of one byte changes and what it leaves alone. -/
lemma storeByte_spec (hlay : queue.Addressable k) (hfits : queue.Fits)
    (hbytes : queue.copyOut p = .ok bytes) (hi : i < queue.elementSize) (byte : UInt8) :
    ∃ buffer, queue.storeByte p i byte = .ok { queue with slotBuffer := buffer } ∧
      buffer.size = queue.slotBuffer.size ∧
      { queue with slotBuffer := buffer }.copyOut p = .ok (bytes.set i byte) ∧
      (∀ p', { queue with slotBuffer := buffer }.loadSequence p' = queue.loadSequence p') ∧
      ∀ p', p' % 2 ^ k ≠ p % 2 ^ k →
        { queue with slotBuffer := buffer }.copyOut p' = queue.copyOut p' := by
  have hoff := (hlay.slotOffset_eq p).2
  have hle : sequenceBytes + queue.elementSize ≤ queue.slotStrideBytes := hfits
  obtain ⟨buffer, hb⟩ : ∃ buffer, queue.slotBuffer.store (queue.slotDataOffset p + i) [byte] =
      .ok buffer := by
    rw [Block.store_isOk_iff, slotDataOffset, List.length_singleton]
    omega
  refine ⟨buffer, by rw [storeByte, hb, Except.map], Block.store_size hb,
    Block.load_store_byte hbytes hi hb, ?_, ?_⟩
  · intro p'
    show (buffer.load (queue.slotOffset p') sequenceBytes).map ofBytes = _
    rw [Block.load_store_of_disjoint hb]
    · rfl
    · rw [slotDataOffset, List.length_singleton]
      by_cases hp : p' % 2 ^ k = p % 2 ^ k
      · have hsame : queue.slotOffset p' = queue.slotOffset p := by
          rw [(hlay.slotOffset_eq p').1, (hlay.slotOffset_eq p).1, hp]
        omega
      · have hdisj := hlay.slotOffset_disjoint hp
        omega
  · intro p' hp
    have hdisj := hlay.slotOffset_disjoint hp
    refine Block.load_store_of_disjoint hb ?_
    show queue.slotDataOffset p' + queue.elementSize ≤ _ ∨ _ ≤ queue.slotDataOffset p'
    simp only [slotDataOffset, List.length_singleton]
    omega

end ByteQueue.Addressable

/-- Where a thread is.  `item` is the object that a push was passed and `left`
lists the bytes that a copy has still to visit. -/
inductive BytePc
  | idle
  | pushLoadClosed (item : List UInt8)
  | pushLoadPosition (item : List UInt8)
  | pushLoadSequence (item : List UInt8) (position : ℕ)
  | pushExchange (item : List UInt8) (position : ℕ)
  | pushCopy (item : List UInt8) (position : ℕ) (left : List ℕ)
  | pushStoreSequence (item : List UInt8) (position : ℕ)
  | popLoadPosition
  | popLoadSequence (position : ℕ)
  | popExchange (position : ℕ)
  | popCopy (position : ℕ) (left : List ℕ)
  | popStoreSequence (position : ℕ)
  | closeStore
  | isClosedLoad

/-- What the environment decides: as for the queue of whole items, and which byte
a copy visits next. -/
inductive ByteChoice
  | call (operation : Operation (List UInt8))
  | run
  | spurious
  | copy (i : ℕ)

/-- What a step leaves in the history. -/
inductive ByteEvent (ι : Type*)
  | step (event : Event ι (List UInt8))
  | byte (thread : ι)
  | fault (thread : ι)
deriving DecidableEq

variable {ι : Type*}

/-- The event of the queue of whole items. -/
def ByteEvent.whole : ByteEvent ι → Option (Event ι (List UInt8))
  | .step event => some event
  | _ => none

/-- The program counter on which a call starts. -/
def entry : Operation (List UInt8) → BytePc
  | .push item => .pushLoadClosed item
  | .pop => .popLoadPosition
  | .close => .closeStore
  | .isClosed => .isClosedLoad

/-- What a step leaves: its event, the queue, the object at `out_item` of the
thread and its program counter. -/
structure ByteResult (ι : Type*) where
  event : ByteEvent ι
  queue : ByteQueue
  outItem : List UInt8
  pc : BytePc

/-- One step of a thread whose `out_item` points to the given object. -/
def byteStep (queue : ByteQueue) (outItem : List UInt8) (thread : ι) :
    BytePc → ByteChoice → Option (Except Halt (ByteResult ι))
  | .idle, .call operation =>
      some (.ok ⟨.step (.call thread operation), queue, outItem, entry operation⟩)
  -- bc_concurrency_queue_push
  | .pushLoadClosed item, .run =>
      if queue.closed then some (.ok ⟨.step (.pushFalse thread), queue, outItem, .idle⟩)
      else some (.ok ⟨.step (.silent thread), queue, outItem, .pushLoadPosition item⟩)
  | .pushLoadPosition item, .run =>
      some (.ok ⟨.step (.silent thread), queue, outItem,
        .pushLoadSequence item queue.enqueuePosition⟩)
  | .pushLoadSequence item position, .run =>
      some ((queue.loadSequence position).map fun sequence =>
        let difference := signedDifference sequence position
        if difference = 0 then ⟨.step (.silent thread), queue, outItem, .pushExchange item position⟩
        else if difference < 0 then ⟨.step (.pushFalse thread), queue, outItem, .idle⟩
        else ⟨.step (.silent thread), queue, outItem, .pushLoadPosition item⟩)
  | .pushExchange item position, .run =>
      if queue.enqueuePosition = position then
        some (.ok ⟨.step (.claimPush thread position item),
          { queue with enqueuePosition := word (position + 1) }, outItem,
          .pushCopy item position (List.range queue.elementSize)⟩)
      else some (.ok ⟨.step (.silent thread), queue, outItem,
        .pushLoadSequence item queue.enqueuePosition⟩)
  | .pushExchange item _, .spurious =>
      some (.ok ⟨.step (.silent thread), queue, outItem,
        .pushLoadSequence item queue.enqueuePosition⟩)
  | .pushCopy item position left, .copy i =>
      if i < queue.elementSize then
        some ((readByte item i).bind fun byte => (queue.storeByte position i byte).map
          fun queue => ⟨.byte thread, queue, outItem,
            .pushCopy item position (left.filter (· ≠ i))⟩)
      else none
  | .pushCopy item position [], .run =>
      some (.ok ⟨.step (.copyIn thread position item), queue, outItem,
        .pushStoreSequence item position⟩)
  | .pushStoreSequence item position, .run =>
      some ((queue.storeSequence position (word (position + 1))).map fun queue =>
        ⟨.step (.pushTrue thread position item), queue, outItem, .idle⟩)
  -- bc_concurrency_queue_pop
  | .popLoadPosition, .run =>
      some (.ok ⟨.step (.silent thread), queue, outItem, .popLoadSequence queue.dequeuePosition⟩)
  | .popLoadSequence position, .run =>
      some ((queue.loadSequence position).map fun sequence =>
        let difference := signedDifference sequence (word (position + 1))
        if difference = 0 then ⟨.step (.silent thread), queue, outItem, .popExchange position⟩
        else if difference < 0 then ⟨.step (.popFalse thread), queue, outItem, .idle⟩
        else ⟨.step (.silent thread), queue, outItem, .popLoadPosition⟩)
  | .popExchange position, .run =>
      if queue.dequeuePosition = position then
        some (.ok ⟨.step (.claimPop thread position),
          { queue with dequeuePosition := word (position + 1) }, outItem,
          .popCopy position (List.range queue.elementSize)⟩)
      else some (.ok ⟨.step (.silent thread), queue, outItem,
        .popLoadSequence queue.dequeuePosition⟩)
  | .popExchange _, .spurious =>
      some (.ok ⟨.step (.silent thread), queue, outItem, .popLoadSequence queue.dequeuePosition⟩)
  | .popCopy position left, .copy i =>
      if i < queue.elementSize then
        some ((queue.loadByte position i).bind fun byte => (writeByte outItem i byte).map
          fun outItem => ⟨.byte thread, queue, outItem, .popCopy position (left.filter (· ≠ i))⟩)
      else none
  | .popCopy position [], .run =>
      some (.ok ⟨.step (.copyOut thread position outItem), queue, outItem,
        .popStoreSequence position⟩)
  | .popStoreSequence position, .run =>
      some ((queue.storeSequence position (word (position + queue.capacity))).map fun queue =>
        ⟨.step (.popTrue thread position outItem), queue, outItem, .idle⟩)
  -- bc_concurrency_queue_close and bc_concurrency_queue_is_closed
  | .closeStore, .run =>
      some (.ok ⟨.step (.closeReturn thread), { queue with closed := true }, outItem, .idle⟩)
  | .isClosedLoad, .run =>
      some (.ok ⟨.step (.isClosedReturn thread queue.closed), queue, outItem, .idle⟩)
  | _, _ => none

/-- A queue, the threads that use it and the objects that their pops fill. -/
structure ByteState (ι : Type*) where
  queue : ByteQueue
  pc : ι → BytePc
  outItem : ι → List UInt8

variable [DecidableEq ι]

/-- The state after a step of a thread. -/
@[simps] def ByteState.move (b : ByteState ι) (thread : ι) (r : ByteResult ι) : ByteState ι where
  queue := r.queue
  pc := Function.update b.pc thread r.pc
  outItem := Function.update b.outItem thread r.outItem

/-- The interleavings of the threads' steps; a fault leaves the state as it is. -/
def byteMachine : Machine (ByteState ι) (ι × ByteChoice) (ByteEvent ι) where
  step := fun b (thread, choice) =>
    (byteStep b.queue (b.outItem thread) thread (b.pc thread) choice).map fun
      | .error _ => (.fault thread, b)
      | .ok r => (r.event, b.move thread r)

/-! ### The refinement -/

/-- The program counter of the queue of whole items. -/
def BytePc.whole (outItem : List UInt8) : BytePc → Pc (List UInt8)
  | .idle => .idle
  | .pushLoadClosed item => .pushLoadClosed item
  | .pushLoadPosition item => .pushLoadPosition item
  | .pushLoadSequence item position => .pushLoadSequence item position
  | .pushExchange item position => .pushExchange item position
  | .pushCopy item position _ => .pushCopy item position
  | .pushStoreSequence item position => .pushStoreSequence item position
  | .popLoadPosition => .popLoadPosition
  | .popLoadSequence position => .popLoadSequence position
  | .popExchange position => .popExchange position
  | .popCopy position _ => .popCopy position
  | .popStoreSequence position => .popStoreSequence position outItem
  | .closeStore => .closeStore
  | .isClosedLoad => .isClosedLoad

/-- The position whose payload is being written. -/
def BytePc.filling : BytePc → Option ℕ
  | .pushCopy _ position _ => some position
  | _ => none

/-- What a thread holds: items of the size of a payload and the part of its copy
that is done. -/
def Holds (queue : ByteQueue) (whole : SharedQueue (List UInt8)) (outItem : List UInt8) :
    BytePc → Prop
  | .pushLoadClosed item => item.length = queue.elementSize
  | .pushLoadPosition item => item.length = queue.elementSize
  | .pushLoadSequence item _ => item.length = queue.elementSize
  | .pushExchange item _ => item.length = queue.elementSize
  | .pushCopy item position left => item.length = queue.elementSize ∧
      ∃ bytes, queue.copyOut position = .ok bytes ∧ Copied left bytes item
  | .pushStoreSequence item _ => item.length = queue.elementSize
  | .popCopy position left => Copied left outItem (whole.slotData position)
  | _ => True

/-- The bytes of a queue stand for the slots of a queue of whole items.  A payload
that is being written stands for nothing yet. -/
structure Realizes (k : ℕ) (b : ByteState ι) (s : State ι (List UInt8)) : Prop where
  layout : b.queue.Layout k
  fits : b.queue.Fits
  enqueuePosition : s.queue.enqueuePosition = b.queue.enqueuePosition
  dequeuePosition : s.queue.dequeuePosition = b.queue.dequeuePosition
  closed : s.queue.closed = b.queue.closed
  capacityMask : s.queue.capacityMask = 2 ^ k - 1
  sequence : ∀ p, b.queue.loadSequence p = .ok (s.queue.slotSequence p)
  pc : ∀ t, s.pc t = (b.pc t).whole (b.outItem t)
  outItem : ∀ t, (b.outItem t).length = b.queue.elementSize
  slotData : ∀ p, (s.queue.slotData p).length = b.queue.elementSize
  payload : ∀ p, (∀ t p', (b.pc t).filling = some p' → p' % 2 ^ k ≠ p % 2 ^ k) →
    b.queue.copyOut p = .ok (s.queue.slotData p)
  holds : ∀ t, Holds b.queue s.queue (b.outItem t) (b.pc t)

lemma Holds.congr {queue queue' : ByteQueue} {whole whole' : SharedQueue (List UInt8)}
    {outItem : List UInt8} {pc : BytePc} (h : Holds queue whole outItem pc)
    (helement : queue'.elementSize = queue.elementSize)
    (hcopy : ∀ p, pc.filling = some p → queue'.copyOut p = queue.copyOut p)
    (hdata : ∀ p left, pc = .popCopy p left → whole'.slotData p = whole.slotData p) :
    Holds queue' whole' outItem pc := by
  cases pc <;> simp only [Holds, helement] at h ⊢
  case pushCopy item p left =>
    rw [hcopy p rfl]
    exact h
  case popCopy p left =>
    rw [hdata p left rfl]
    exact h
  all_goals exact h

/-- A step that whole items can follow: it does not fault, and it is a step of
the queue of whole items or, at a byte of a copy, no step at all. -/
def Matched (k : ℕ) (b : ByteState ι) (s : State ι (List UInt8)) (t : ι)
    (result : Except Halt (ByteResult ι)) : Prop :=
  ∃ r, result = .ok r ∧ (∀ t', r.event ≠ .fault t') ∧
    r.queue.elementSize = b.queue.elementSize ∧
    ∃ s', machine.Run s r.event.whole.toList s' ∧ Realizes k (b.move t r) s'

namespace Realizes

variable {k : ℕ} {b : ByteState ι} {s : State ι (List UInt8)} {t : ι}

/-- A step keeps the refinement if what it does to the queue does and the threads
keep what they hold. -/
lemma of_move (href : Realizes k b s) {r : ByteResult ι} {q : SharedQueue (List UInt8)}
    {pc : Pc (List UInt8)} (hpc : pc = r.pc.whole r.outItem)
    (hlayout : r.queue.Layout k) (hfits : r.queue.Fits)
    (he : q.enqueuePosition = r.queue.enqueuePosition)
    (hd : q.dequeuePosition = r.queue.dequeuePosition) (hc : q.closed = r.queue.closed)
    (hmask : q.capacityMask = s.queue.capacityMask)
    (helement : r.queue.elementSize = b.queue.elementSize)
    (hsequence : ∀ p, r.queue.loadSequence p = .ok (q.slotSequence p))
    (houtItem : r.outItem.length = b.queue.elementSize)
    (hslotData : ∀ p, (q.slotData p).length = b.queue.elementSize)
    (hpayload : ∀ p, (∀ p', r.pc.filling = some p' → p' % 2 ^ k ≠ p % 2 ^ k) →
      (∀ t', t' ≠ t → ∀ p', (b.pc t').filling = some p' → p' % 2 ^ k ≠ p % 2 ^ k) →
      r.queue.copyOut p = .ok (q.slotData p))
    (hself : Holds r.queue q r.outItem r.pc)
    (hothers : ∀ t', t' ≠ t → Holds r.queue q (b.outItem t') (b.pc t')) :
    Realizes k (b.move t r) (s.move t q pc) := by
  constructor
  case layout => exact hlayout
  case fits => exact hfits
  case enqueuePosition => exact he
  case dequeuePosition => exact hd
  case closed => exact hc
  case capacityMask => exact hmask.trans href.capacityMask
  case sequence => exact hsequence
  case pc =>
    intro t'
    by_cases ht : t' = t
    · subst ht
      simpa using hpc
    · simp [ht, href.pc]
  case outItem =>
    intro t'
    by_cases ht : t' = t
    · subst ht
      simpa [helement] using houtItem
    · simpa [ht, helement] using href.outItem t'
  case slotData =>
    intro p
    exact (hslotData p).trans helement.symm
  case payload =>
    intro p hfree
    refine hpayload p (fun p' hp' => hfree t p' (by simpa using hp')) ?_
    intro t' ht p' hp'
    exact hfree t' p' (by simpa [ht] using hp')
  case holds =>
    intro t'
    by_cases ht : t' = t
    · subst ht
      simpa using hself
    · simpa [ht] using hothers t' ht

omit [DecidableEq ι] in
/-- What the payload of a slot stands for, when a thread that writes none steps. -/
lemma payload_of_others (href : Realizes k b s) (hfilling : (b.pc t).filling = none) {p : ℕ}
    (hothers : ∀ t', t' ≠ t → ∀ p', (b.pc t').filling = some p' → p' % 2 ^ k ≠ p % 2 ^ k) :
    b.queue.copyOut p = .ok (s.queue.slotData p) := by
  refine href.payload p fun t' p' hp' => hothers t' ?_ p' hp'
  rintro rfl
  simp [hfilling] at hp'

/-- A step that leaves the bytes of the buffer as they are, of a thread that has
no payload to write. -/
lemma quiet (href : Realizes k b s) (choice : Choice (List UInt8)) {e d : ℕ} {c : Bool}
    {event : Event ι (List UInt8)} {q : SharedQueue (List UInt8)} {pc : BytePc}
    (hs : threadStep s.queue t ((b.pc t).whole (b.outItem t)) choice =
      some (event, q, pc.whole (b.outItem t)))
    (hslots : q.slots = s.queue.slots) (hmask : q.capacityMask = s.queue.capacityMask)
    (he : q.enqueuePosition = e) (hd : q.dequeuePosition = d) (hc : q.closed = c)
    (hfilling : (b.pc t).filling = none) (hpc : Holds b.queue s.queue (b.outItem t) pc) :
    Matched k b s t (.ok ⟨.step event,
      { b.queue with enqueuePosition := e, dequeuePosition := d, closed := c },
      b.outItem t, pc⟩) := by
  have hdata (p : ℕ) : q.slotData p = s.queue.slotData p := by
    simp only [SharedQueue.slotData, SharedQueue.slotIndex, hslots, hmask]
  have hseq (p : ℕ) : q.slotSequence p = s.queue.slotSequence p := by
    simp only [SharedQueue.slotSequence, SharedQueue.slotIndex, hslots, hmask]
  have hholds {outItem : List UInt8} {pc' : BytePc} (h : Holds b.queue s.queue outItem pc') :
      Holds { b.queue with enqueuePosition := e, dequeuePosition := d, closed := c } q outItem
        pc' := h.congr rfl (fun _ _ => rfl) fun p _ _ => hdata p
  have hlay := href.layout
  refine ⟨_, rfl, by simp, rfl, s.move t q (pc.whole (b.outItem t)), ?_, ?_⟩
  · exact Machine.Run.single (c := (t, choice)) (by simp [machine, href.pc, hs])
  have hlay' : { b.queue with enqueuePosition := e, dequeuePosition := d, closed := c }.Layout k :=
    ⟨⟨hlay.capacity, hlay.capacityMask, hlay.sequence_le, hlay.size_le, hlay.size_lt⟩, hlay.size⟩
  refine href.of_move rfl hlay' href.fits he hd hc hmask rfl ?_ (href.outItem t) ?_ ?_
    (hholds hpc) fun t' _ => hholds (href.holds t')
  · intro p
    rw [hseq]
    exact href.sequence p
  · intro p
    rw [hdata]
    exact href.slotData p
  · intro p _ hothers
    rw [hdata]
    exact href.payload_of_others hfilling hothers

/-- A store of a sequence word, by a thread that has no payload to write. -/
lemma stored (href : Realizes k b s) (choice : Choice (List UInt8)) {p v : ℕ} (hv : v < 2 ^ 64)
    {event : Event ι (List UInt8)} {pc : BytePc}
    (hs : threadStep s.queue t ((b.pc t).whole (b.outItem t)) choice =
      some (event, s.queue.storeSequence p v, pc.whole (b.outItem t)))
    (hfilling : (b.pc t).filling = none) (hpc : Holds b.queue s.queue (b.outItem t) pc) :
    Matched k b s t ((b.queue.storeSequence p v).map fun queue =>
      ⟨.step event, queue, b.outItem t, pc⟩) := by
  obtain ⟨queue', hq⟩ := href.layout.exists_storeSequence p v
  obtain ⟨hload, -, hframe⟩ := href.layout.storeSequence_spec hv hq
  have hpayloads := href.layout.storeSequence_payloads href.fits hv hq
  obtain ⟨buffer, hb, rfl⟩ := ByteQueue.storeSequence_inv hq
  have hlay := href.layout.withBuffer (Block.store_size hb)
  have hholds {outItem : List UInt8} {pc' : BytePc} (h : Holds b.queue s.queue outItem pc') :
      Holds { b.queue with slotBuffer := buffer } (s.queue.storeSequence p v) outItem pc' :=
    h.congr rfl (fun p _ => hpayloads p) fun p' _ _ => by simp
  rw [hq, Except.map]
  refine ⟨_, rfl, by simp, rfl, s.move t (s.queue.storeSequence p v) (pc.whole (b.outItem t)), ?_, ?_⟩
  · exact Machine.Run.single (c := (t, choice)) (by simp [machine, href.pc, hs])
  refine href.of_move rfl hlay href.fits href.enqueuePosition href.dequeuePosition href.closed rfl
    rfl ?_ (href.outItem t) ?_ ?_ (hholds hpc) fun t' _ => hholds (href.holds t')
  · intro p'
    rw [SharedQueue.slotSequence_storeSequence,
      SharedQueue.slotIndex_eq_mod _ _ href.capacityMask,
      SharedQueue.slotIndex_eq_mod _ _ href.capacityMask]
    split
    next hp =>
      rw [← hload]
      exact hlay.loadSequence_congr hp
    next hp => exact (hframe p' hp).trans (href.sequence p')
  · intro p'
    rw [SharedQueue.slotData_storeSequence]
    exact href.slotData p'
  · intro p' _ hothers
    rw [SharedQueue.slotData_storeSequence]
    exact (hpayloads p').trans (href.payload_of_others hfilling hothers)

/-! ### Copies -/

omit [DecidableEq ι] in
/-- Two copies that are in progress are in different slots. -/
lemma apart {h : List (Event ι (List UInt8))} (hk : 1 ≤ k) (hinv : Invariant k h s)
    (href : Realizes k b s) {t' : ι} {p p' : ℕ} (ht : t ≠ t')
    (hp : ((b.pc t).whole (b.outItem t)).copying = some p)
    (hp' : ((b.pc t').whole (b.outItem t')).copying = some p') : p % 2 ^ k ≠ p' % 2 ^ k := by
  rw [← href.pc] at hp hp'
  exact fun heq => hinv.exclusive hk ht hp hp' ((hinv.slotIndex_eq_iff p p').mpr heq)

lemma copying_of_filling {pc : BytePc} {outItem : List UInt8} {p : ℕ} (h : pc.filling = some p) :
    (pc.whole outItem).copying = some p := by
  cases pc <;> simp_all [BytePc.filling, BytePc.whole, Pc.copying, Pc.pushing]

/-- At a byte of a copy the queue of whole items does not step. -/
lemma stutter (href : Realizes k b s) {r : ByteResult ι} (hr : r.event = .byte t)
    (hpc : r.pc.whole r.outItem = (b.pc t).whole (b.outItem t))
    (helement : r.queue.elementSize = b.queue.elementSize)
    (hmove : ∀ pc, pc = r.pc.whole r.outItem → Realizes k (b.move t r) (s.move t s.queue pc)) :
    Matched k b s t (.ok r) := by
  refine ⟨r, rfl, by simp [hr], helement, s, ?_, ?_⟩
  · rw [hr]
    exact Machine.Run.nil
  · have hsame : s.move t s.queue (s.pc t) = s := by simp [State.move]
    have hmove := hmove (s.pc t) (by rw [hpc, href.pc])
    rwa [hsame] at hmove

/-- A byte of the item goes into the payload. -/
lemma byteIn {h : List (Event ι (List UInt8))} (hk : 1 ≤ k) (hinv : Invariant k h s)
    (href : Realizes k b s) {item : List UInt8} {p i : ℕ} {left : List ℕ}
    (hpc : b.pc t = .pushCopy item p left) (hi : i < b.queue.elementSize) :
    Matched k b s t ((readByte item i).bind fun byte => (b.queue.storeByte p i byte).map
      fun queue => ⟨.byte t, queue, b.outItem t, .pushCopy item p (left.filter (· ≠ i))⟩) := by
  obtain ⟨hitem, bytes, hbytes, hcopied⟩ : Holds b.queue s.queue (b.outItem t)
      (.pushCopy item p left) := hpc ▸ href.holds t
  obtain ⟨byte, hbyte⟩ : ∃ byte, item[i]? = some byte := by
    rw [← hitem] at hi
    exact ⟨_, List.getElem?_eq_getElem hi⟩
  obtain ⟨buffer, hstore, hsize, hcopy, hload, hframe⟩ :=
    href.layout.storeByte_spec href.fits hbytes hi byte
  have hfilling : (b.pc t).filling = some p := by rw [hpc]; rfl
  rw [readByte, hbyte, Except.bind, hstore, Except.map]
  refine href.stutter rfl (by rw [hpc]; rfl) rfl fun pc hwhole => ?_
  refine href.of_move hwhole (href.layout.withBuffer hsize) href.fits href.enqueuePosition
    href.dequeuePosition href.closed rfl rfl ?_ (href.outItem t) href.slotData ?_ ?_ ?_
  · intro p'
    exact (hload p').trans (href.sequence p')
  · intro p' hself hothers
    have hp' : p % 2 ^ k ≠ p' % 2 ^ k := hself p rfl
    refine (hframe p' hp'.symm).trans (href.payload p' fun t' p'' hp'' => ?_)
    by_cases ht : t' = t
    · subst ht
      obtain rfl : p = p'' := Option.some.inj (hfilling.symm.trans hp'')
      exact hp'
    · exact hothers t' ht p'' hp''
  · exact ⟨hitem, _, hcopy, hcopied.byte hbyte⟩
  · intro t' ht
    refine (href.holds t').congr rfl (fun p' hp' => hframe p' ?_) fun _ _ _ => rfl
    exact href.apart hk hinv ht (copying_of_filling hp') (copying_of_filling hfilling)

/-- A byte of the payload goes to the caller. -/
lemma byteOut {h : List (Event ι (List UInt8))} (hk : 1 ≤ k) (hinv : Invariant k h s)
    (href : Realizes k b s) {p i : ℕ} {left : List ℕ} (hpc : b.pc t = .popCopy p left)
    (hi : i < b.queue.elementSize) :
    Matched k b s t ((b.queue.loadByte p i).bind fun byte => (writeByte (b.outItem t) i byte).map
      fun outItem => ⟨.byte t, b.queue, outItem, .popCopy p (left.filter (· ≠ i))⟩) := by
  have hcopied : Copied left (b.outItem t) (s.queue.slotData p) := by
    have := href.holds t
    rwa [hpc] at this
  -- nobody writes the payload that is being read
  have hpayload : b.queue.copyOut p = .ok (s.queue.slotData p) := by
    refine href.payload p fun t' p' hp' => ?_
    have ht : t' ≠ t := by
      rintro rfl
      simp [hpc, BytePc.filling] at hp'
    exact href.apart hk hinv ht (copying_of_filling hp') (by rw [hpc]; rfl)
  obtain ⟨byte, hbyte⟩ : ∃ byte, (s.queue.slotData p)[i]? = some byte := by
    rw [← href.slotData p] at hi
    exact ⟨_, List.getElem?_eq_getElem hi⟩
  have hload : b.queue.loadByte p i = .ok byte := Block.loadByte_of_load hpayload hbyte
  have hlen : i < (b.outItem t).length := hi.trans_eq (href.outItem t).symm
  rw [hload, Except.bind, writeByte, if_pos hlen, Except.map]
  refine href.stutter rfl (by rw [hpc]; rfl) rfl fun pc hwhole => ?_
  refine href.of_move hwhole href.layout href.fits href.enqueuePosition href.dequeuePosition
    href.closed rfl rfl href.sequence ?_ href.slotData ?_ (hcopied.byte hbyte)
    fun t' _ => href.holds t'
  · rw [List.length_set]
    exact href.outItem t
  · intro p' _ hothers
    exact href.payload_of_others (by rw [hpc]; rfl) hothers

/-- The copy of a push ends: the payload stands for the item. -/
lemma copiedIn {h : List (Event ι (List UInt8))} (hk : 1 ≤ k) (hinv : Invariant k h s)
    (href : Realizes k b s) {item : List UInt8} {p : ℕ} (hpc : b.pc t = .pushCopy item p []) :
    Matched k b s t (.ok ⟨.step (.copyIn t p item), b.queue, b.outItem t,
      .pushStoreSequence item p⟩) := by
  obtain ⟨hitem, bytes, hbytes, hcopied⟩ : Holds b.queue s.queue (b.outItem t)
      (.pushCopy item p []) := hpc ▸ href.holds t
  obtain rfl := hcopied.finish
  have hfilling : (b.pc t).filling = some p := by rw [hpc]; rfl
  have hmask := href.capacityMask
  refine ⟨_, rfl, by simp, rfl, s.move t (s.queue.copyIn p bytes) (.pushStoreSequence bytes p), ?_, ?_⟩
  · exact Machine.Run.single (c := (t, .run))
      (by simp [machine, href.pc, hpc, BytePc.whole, threadStep])
  refine href.of_move rfl href.layout href.fits href.enqueuePosition href.dequeuePosition
    href.closed rfl rfl ?_ (href.outItem t) ?_ ?_ hitem ?_
  · intro p'
    rw [SharedQueue.slotSequence_copyIn]
    exact href.sequence p'
  · intro p'
    rw [SharedQueue.slotData_copyIn]
    split
    · exact hitem
    · exact href.slotData p'
  · intro p' _ hothers
    rw [SharedQueue.slotData_copyIn, SharedQueue.slotIndex_eq_mod _ _ hmask,
      SharedQueue.slotIndex_eq_mod _ _ hmask]
    split
    next hp => rw [href.layout.copyOut_congr hp, hbytes]
    next hp =>
      refine href.payload p' fun t' p'' hp'' => ?_
      by_cases ht : t' = t
      · subst ht
        obtain rfl : p = p'' := Option.some.inj (hfilling.symm.trans hp'')
        exact Ne.symm hp
      · exact hothers t' ht p'' hp''
  · intro t' ht
    refine (href.holds t').congr rfl (fun _ _ => rfl) fun p' left hp' => ?_
    have hne : p' % 2 ^ k ≠ p % 2 ^ k :=
      href.apart hk hinv ht (by rw [hp']; rfl) (copying_of_filling hfilling)
    rw [SharedQueue.slotData_copyIn, SharedQueue.slotIndex_eq_mod _ _ hmask,
      SharedQueue.slotIndex_eq_mod _ _ hmask, if_neg hne]

/-! ### Every step -/

/-- A step that changes nothing but the program counter. -/
lemma silent (href : Realizes k b s) (choice : Choice (List UInt8))
    {event : Event ι (List UInt8)} {pc : BytePc}
    (hs : threadStep s.queue t ((b.pc t).whole (b.outItem t)) choice =
      some (event, s.queue, pc.whole (b.outItem t)))
    (hfilling : (b.pc t).filling = none) (hpc : Holds b.queue s.queue (b.outItem t) pc) :
    Matched k b s t (.ok ⟨.step event, b.queue, b.outItem t, pc⟩) :=
  href.quiet choice hs rfl rfl href.enqueuePosition href.dequeuePosition href.closed hfilling hpc

lemma matched {h : List (Event ι (List UInt8))} (hk : 1 ≤ k) (hinv : Invariant k h s)
    (href : Realizes k b s) {choice : ByteChoice} {result : Except Halt (ByteResult ι)}
    (hs : byteStep b.queue (b.outItem t) t (b.pc t) choice = some result)
    (hcall : ∀ item, choice = .call (.push item) → item.length = b.queue.elementSize) :
    Matched k b s t result := by
  have hholds := href.holds t
  have hE := href.enqueuePosition
  have hD := href.dequeuePosition
  have hcapacity : b.queue.capacity = s.queue.capacity :=
    href.layout.capacity.trans hinv.capacity.symm
  cases hpc : b.pc t <;> cases choice <;> rw [hpc] at hs hholds <;>
    simp only [byteStep, reduceCtorEq] at hs
  case idle.call operation =>
    cases hs
    refine href.silent (.call operation) ?_ (by rw [hpc]; rfl) ?_
    · rw [hpc]
      cases operation <;> rfl
    · cases operation
      case push item => exact hcall item rfl
      all_goals trivial
  case pushLoadClosed.run item =>
    split at hs <;> cases hs
    · exact href.silent .run (by simp_all [BytePc.whole, threadStep, href.closed])
        (by rw [hpc]; rfl) trivial
    · exact href.silent .run (by simp_all [BytePc.whole, threadStep, href.closed])
        (by rw [hpc]; rfl) hholds
  case pushLoadPosition.run item =>
    cases hs
    exact href.silent .run (by simp [hpc, BytePc.whole, threadStep, hE]) (by rw [hpc]; rfl) hholds
  case pushLoadSequence.run item p =>
    rw [href.sequence, Except.map] at hs
    cases hs
    split
    · exact href.silent .run (by simp_all [BytePc.whole, threadStep]) (by rw [hpc]; rfl) hholds
    · split
      · exact href.silent .run (by simp_all [BytePc.whole, threadStep]) (by rw [hpc]; rfl) trivial
      · exact href.silent .run (by simp_all [BytePc.whole, threadStep]) (by rw [hpc]; rfl) hholds
  case pushExchange.run item p =>
    split at hs <;> cases hs
    next heq =>
      refine href.quiet .run (q := s.queue.setEnqueuePosition (word (p + 1))) ?_ rfl rfl rfl hD
        href.closed (by rw [hpc]; rfl) ?_
      · simp [hpc, BytePc.whole, threadStep, hE, heq]
      · obtain ⟨bytes, hbytes, hlen⟩ := href.layout.exists_copyOut href.fits p
        exact ⟨hholds, bytes, hbytes, .start hlen hholds⟩
    next hne =>
      exact href.silent .run (by simp [hpc, BytePc.whole, threadStep, hE, hne])
        (by rw [hpc]; rfl) hholds
  case pushExchange.spurious item p =>
    cases hs
    exact href.silent .spurious (by simp [hpc, BytePc.whole, threadStep, hE])
      (by rw [hpc]; rfl) hholds
  case pushCopy.copy item p left i =>
    split at hs <;> cases hs
    next hi => exact href.byteIn hk hinv hpc hi
  case pushCopy.run item p left =>
    cases left <;> cases hs
    exact href.copiedIn hk hinv hpc
  case pushStoreSequence.run item p =>
    cases hs
    exact href.stored .run (word_lt _) (by simp [hpc, BytePc.whole, threadStep])
      (by rw [hpc]; rfl) trivial
  case popLoadPosition.run =>
    cases hs
    exact href.silent .run (by simp [hpc, BytePc.whole, threadStep, hD]) (by rw [hpc]; rfl) trivial
  case popLoadSequence.run p =>
    rw [href.sequence, Except.map] at hs
    cases hs
    split
    · exact href.silent .run (by simp_all [BytePc.whole, threadStep]) (by rw [hpc]; rfl) trivial
    · split
      · exact href.silent .run (by simp_all [BytePc.whole, threadStep]) (by rw [hpc]; rfl) trivial
      · exact href.silent .run (by simp_all [BytePc.whole, threadStep]) (by rw [hpc]; rfl) trivial
  case popExchange.run p =>
    split at hs <;> cases hs
    next heq =>
      refine href.quiet .run (q := s.queue.setDequeuePosition (word (p + 1))) ?_ rfl rfl hE rfl
        href.closed (by rw [hpc]; rfl) ?_
      · simp [hpc, BytePc.whole, threadStep, hD, heq]
      · exact .start (href.outItem t) (href.slotData p)
    next hne =>
      exact href.silent .run (by simp [hpc, BytePc.whole, threadStep, hD, hne])
        (by rw [hpc]; rfl) trivial
  case popExchange.spurious p =>
    cases hs
    exact href.silent .spurious (by simp [hpc, BytePc.whole, threadStep, hD])
      (by rw [hpc]; rfl) trivial
  case popCopy.copy p left i =>
    split at hs <;> cases hs
    next hi => exact href.byteOut hk hinv hpc hi
  case popCopy.run p left =>
    cases left <;> cases hs
    have hcopied : b.outItem t = s.queue.slotData p := Copied.finish hholds
    exact href.silent .run (by simp [hpc, BytePc.whole, threadStep, hcopied])
      (by rw [hpc]; rfl) trivial
  case popStoreSequence.run p =>
    cases hs
    exact href.stored .run (word_lt _) (by simp [hpc, BytePc.whole, threadStep, hcapacity])
      (by rw [hpc]; rfl) trivial
  case closeStore.run =>
    cases hs
    exact href.quiet .run (q := s.queue.storeClosed true) (by simp [hpc, BytePc.whole, threadStep])
      rfl rfl hE hD rfl (by rw [hpc]; rfl) trivial
  case isClosedLoad.run =>
    cases hs
    exact href.silent .run (by simp [hpc, BytePc.whole, threadStep, href.closed])
      (by rw [hpc]; rfl) trivial

end Realizes

/-! ### Whole runs -/

omit [DecidableEq ι] in
lemma byteStep_call {queue : ByteQueue} {outItem : List UInt8} {t : ι} {pc : BytePc}
    {operation : Operation (List UInt8)} {result : Except Halt (ByteResult ι)}
    (hs : byteStep queue outItem t pc (.call operation) = some result) :
    result = .ok ⟨.step (.call t operation), queue, outItem, entry operation⟩ := by
  cases pc <;> simp only [byteStep, reduceCtorEq] at hs
  cases hs
  rfl

/-- A step over the bytes does not fault, and whole items can follow it. -/
lemma Realizes.step {k : ℕ} {b b' : ByteState ι} {s : State ι (List UInt8)}
    {h : List (Event ι (List UInt8))} (hk : 1 ≤ k) (hinv : Invariant k h s)
    (href : Realizes k b s) {c : ι × ByteChoice} {e : ByteEvent ι}
    (hs : byteMachine.step b c = some (e, b'))
    (hcall : ∀ t item, e = .step (.call t (.push item)) → item.length = b.queue.elementSize) :
    (∀ t, e ≠ .fault t) ∧ b'.queue.elementSize = b.queue.elementSize ∧
      ∃ s', machine.Run s e.whole.toList s' ∧ Realizes k b' s' := by
  obtain ⟨t, choice⟩ := c
  obtain ⟨result, hresult, heq⟩ := Option.map_eq_some_iff.mp hs
  have hitem : ∀ item, choice = .call (.push item) → item.length = b.queue.elementSize := by
    rintro item rfl
    obtain rfl := byteStep_call hresult
    cases heq
    exact hcall t item rfl
  obtain ⟨r, rfl, hfault, helement, hfollow⟩ := href.matched hk hinv hresult hitem
  cases heq
  exact ⟨hfault, helement, hfollow⟩

/-- The payloads of a created queue are zeroed. -/
lemma create_copyOut {allocator : Allocator} {fuel elementSize capacity k : ℕ} {queue : ByteQueue}
    (hcreated : Created queue elementSize capacity k) (hfits : queue.Fits)
    (h : create allocator fuel elementSize capacity = .ok (some queue)) (p : ℕ) :
    queue.copyOut p = .ok (List.replicate elementSize 0) := by
  obtain ⟨-, -, effective, -, -, hinit⟩ := create_inv h
  obtain ⟨⟨buffer, rfl, hsize⟩, -⟩ := ByteQueue.initSequences_inv hinit
  obtain rfl : effective = 2 ^ k := hcreated.layout.capacity
  have hlay : (ByteQueue.blank elementSize (2 ^ k)).Addressable k :=
    hcreated.addressable.withBuffer hsize.symm
  rw [ByteQueue.initSequences_copyOut hlay hfits le_rfl hinit p]
  obtain ⟨bytes, hbytes, hlen⟩ := hlay.exists_copyOut hfits p
  obtain ⟨-, -, hget⟩ := Block.load_eq_ok_iff.mp hbytes
  rw [hbytes]
  congr 1
  refine List.eq_replicate_iff.mpr ⟨hlen, ?_⟩
  intro byte hbyte
  obtain ⟨i, hi, rfl⟩ := List.mem_iff_getElem.mp hbyte
  have hzero := hget i (hlen ▸ hi)
  rw [List.getElem?_eq_getElem hi, Option.some.injEq] at hzero
  exact hzero

omit [DecidableEq ι] in
/-- A created queue stands for a fresh queue of whole items. -/
lemma Realizes.create {elementSize capacity k : ℕ} {queue : ByteQueue}
    (hcreated : Created queue elementSize capacity k) (hfits : queue.Fits)
    (hpayload : ∀ p, queue.copyOut p = .ok (List.replicate elementSize 0))
    {outItem : ι → List UInt8} (hout : ∀ t, (outItem t).length = elementSize) :
    Realizes k ⟨queue, fun _ => .idle, outItem⟩
      (State.create (List.replicate elementSize 0) (2 ^ k)) := by
  have hlay := hcreated.layout
  constructor
  case layout => exact hlay
  case fits => exact hfits
  case enqueuePosition => exact hcreated.enqueuePosition.symm
  case dequeuePosition => exact hcreated.dequeuePosition.symm
  case closed => exact hcreated.closed.symm
  case capacityMask => rfl
  case sequence =>
    intro p
    have hlt : p % 2 ^ k < 2 ^ k := Nat.mod_lt _ (by positivity)
    rw [hlay.loadSequence_congr (Nat.mod_mod p (2 ^ k)).symm, hcreated.sequence _ hlt,
      ← SharedQueue.slotIndex_eq_mod (SharedQueue.create (List.replicate elementSize (0 : UInt8))
        (2 ^ k)) p rfl]
    rfl
  case pc =>
    intro t
    rfl
  case outItem =>
    intro t
    exact (hout t).trans hcreated.elementSize_eq.symm
  case slotData =>
    intro p
    exact List.length_replicate.trans hcreated.elementSize_eq.symm
  case payload =>
    intro p _
    exact hpayload p
  case holds =>
    intro t
    trivial

/-- A push is passed an item of the size of a payload. -/
def ByteEvent.sized (elementSize : ℕ) : ByteEvent ι → Bool
  | .step (.call _ (.push item)) => item.length == elementSize
  | _ => true

/-- What is asked of the callers of a run: every item has the size of a payload,
and the positions stay below `2 ^ 63`. -/
structure CallerContract (elementSize : ℕ) (h : List (ByteEvent ι)) : Prop where
  items : ∀ e ∈ h, e.sized elementSize = true
  claims : (pushClaims (h.filterMap ByteEvent.whole)).length < 2 ^ 63

instance (elementSize : ℕ) (h : List (ByteEvent ι)) : Decidable (CallerContract elementSize h) :=
  decidable_of_iff ((∀ e ∈ h, e.sized elementSize = true) ∧
    (pushClaims (h.filterMap ByteEvent.whole)).length < 2 ^ 63)
    ⟨fun hh => ⟨hh.1, hh.2⟩, fun hh => ⟨hh.items, hh.claims⟩⟩

omit [DecidableEq ι] in
lemma CallerContract.of_append {elementSize : ℕ} {h h' : List (ByteEvent ι)}
    (hh : CallerContract elementSize (h ++ h')) : CallerContract elementSize h := by
  have hlen := hh.claims
  rw [List.filterMap_append, pushClaims_append, List.length_append] at hlen
  exact ⟨fun e he => hh.items e (List.mem_append_left _ he), by omega⟩

namespace Realizes

variable {k : ℕ} {zero : List UInt8} {b₀ b b' : ByteState ι} {s : State ι (List UInt8)}
  {h : List (ByteEvent ι)} {e : ByteEvent ι}

/-- A step after a run from a fresh queue. -/
lemma step_after (hk : 1 ≤ k) (hk' : k ≤ 63) (href : Realizes k b s)
    (hu : machine.Run (State.create zero (2 ^ k)) (h.filterMap ByteEvent.whole) s)
    (hh : CallerContract b.queue.elementSize (h ++ [e])) {c : ι × ByteChoice}
    (hs : byteMachine.step b c = some (e, b')) :
    (∀ t, e ≠ .fault t) ∧ b'.queue.elementSize = b.queue.elementSize ∧
      ∃ s', machine.Run s e.whole.toList s' ∧ Realizes k b' s' := by
  refine href.step hk (Invariant.run hk hk' hu hh.of_append.claims) hs ?_
  rintro t item rfl
  simpa [ByteEvent.sized] using hh.items (.step (.call t (.push item))) (by simp)

lemma run (hk : 1 ≤ k) (hk' : k ≤ 63) (hstart : Realizes k b₀ (State.create zero (2 ^ k)))
    (hrun : byteMachine.Run b₀ h b) (hh : CallerContract b₀.queue.elementSize h) :
    ∃ s, machine.Run (State.create zero (2 ^ k)) (h.filterMap ByteEvent.whole) s ∧
      Realizes k b s ∧ b.queue.elementSize = b₀.queue.elementSize := by
  refine hrun.simulate (R := fun b s =>
    Realizes k b s ∧ b.queue.elementSize = b₀.queue.elementSize) ByteEvent.whole
    ⟨hstart, rfl⟩ (fun _ _ => CallerContract.of_append) ?_ hh
  intro h b c e b' s hh hu hrel hs
  obtain ⟨-, helement, s', hrun', href'⟩ := hrel.1.step_after hk hk' hu (hrel.2 ▸ hh) hs
  exact ⟨s', hrun', href', helement.trans hrel.2⟩

lemma not_fault (hk : 1 ≤ k) (hk' : k ≤ 63) (hstart : Realizes k b₀ (State.create zero (2 ^ k)))
    (hrun : byteMachine.Run b₀ h b) (hh : CallerContract b₀.queue.elementSize h) (t : ι) :
    .fault t ∉ h := by
  intro he
  obtain ⟨h₁, h₂, rfl⟩ := List.append_of_mem he
  obtain ⟨b₁, c, b₂, hrun₁, hs, -⟩ := hrun.split_event
  rw [List.append_cons] at hh
  obtain ⟨s, hu, href, helement⟩ := hstart.run hk hk' hrun₁ hh.of_append.of_append
  exact (href.step_after hk hk' hu (helement ▸ hh.of_append) hs).1 t rfl

end Realizes

/-- The number of slots is a power of two that is a word. -/
lemma Created.exponent {queue : ByteQueue} {elementSize capacity k : ℕ}
    (hcreated : Created queue elementSize capacity k) (hcapacity : 2 ≤ capacity) :
    1 ≤ k ∧ k ≤ 63 := by
  constructor
  · have hle := hcreated.capacity_le
    rcases Nat.eq_zero_or_pos k with rfl | hpos
    · omega
    · exact hpos
  · by_contra hlarge
    have hpow : 2 ^ 64 ≤ 2 ^ k := Nat.pow_le_pow_right (by norm_num) (by omega)
    have hlay := hcreated.layout
    have hstride : 1 ≤ queue.slotStrideBytes := le_trans (by decide) hlay.sequence_le
    have hle : 1 * 2 ^ k ≤ queue.slotStrideBytes * 2 ^ k := Nat.mul_le_mul_right _ hstride
    have hsize_lt := hlay.size_lt
    rw [hlay.size] at hsize_lt
    omega

/-- Every run over the bytes of a created queue of two slots or more whose size is a word,
with fewer than `2 ^ 63` claims and whatever the order in which the bytes of the concurrent
copies go, is free of faults and is a run of the queue of whole items: no payload is torn. -/
theorem queue_bytewise {allocator : Allocator} {fuel elementSize capacity : ℕ} {queue : ByteQueue}
    (hsize : sequenceBytes + elementSize < 2 ^ 64) (hcapacity : 2 ≤ capacity)
    (hcap : capacity < 2 ^ 64)
    (hcreate : create allocator fuel elementSize capacity = .ok (some queue))
    {outItem : ι → List UInt8} (hout : ∀ t, (outItem t).length = elementSize)
    {h : List (ByteEvent ι)} {b : ByteState ι}
    (hrun : byteMachine.Run ⟨queue, fun _ => .idle, outItem⟩ h b)
    (hh : CallerContract elementSize h) :
    (∀ t, .fault t ∉ h) ∧ ∃ k s, queue.capacity = 2 ^ k ∧
      machine.Run (State.create (List.replicate elementSize 0) queue.capacity)
        (h.filterMap ByteEvent.whole) s ∧ Realizes k b s := by
  obtain ⟨k, hcreated⟩ := create_ok (by omega) hcap hcreate
  have hfits := hcreated.fits_iff.mpr hsize
  obtain ⟨hk, hk'⟩ := hcreated.exponent hcapacity
  have hstart := Realizes.create hcreated hfits (create_copyOut hcreated hfits hcreate) hout
  have helement := hcreated.elementSize_eq
  rw [← helement] at hh
  refine ⟨hstart.not_fault hk hk' hrun hh, ?_⟩
  obtain ⟨s, hu, href, -⟩ := hstart.run hk hk' hrun hh
  refine ⟨k, s, hcreated.layout.capacity, ?_, href⟩
  rw [hcreated.layout.capacity]
  exact hu

/-- A property of the queue that a creation returns, by evaluating both. -/
lemma exists_created {x : Except Halt (Option ByteQueue)} {P : ByteQueue → Bool}
    (h : (match x with | .ok (some queue) => P queue | _ => false) = true) :
    ∃ queue, x = .ok (some queue) ∧ P queue = true := by
  rcases x with _ | _ | queue
  · simp at h
  · simp at h
  · exact ⟨queue, rfl, h⟩

/-- An allocator that grants everything up to a limit. -/
def Allocator.upTo (limit : ℕ) (hlimit : limit < 2 ^ 63) : Allocator where
  grants := fun _ bytes => decide (bytes ≤ limit)
  lt_of_grants := fun _ _ h => (of_decide_eq_true h).trans_lt hlimit

/-- Two producers copy their items at the same time, byte by byte and one of them
backwards; a consumer takes the first item out while the second copy goes on. -/
theorem queue_bytewise_interleaved :
    let schedule : List (ℕ × ByteChoice) := List.flatten [
      [(0, .call (.push [1, 2])), (1, .call (.push [3, 4]))],
      List.replicate 4 (0, .run), List.replicate 4 (1, .run),
      [(0, .copy 0), (1, .copy 1), (0, .copy 1), (0, .run), (0, .run)],
      (2, .call .pop) :: List.replicate 3 (2, .run),
      [(2, .copy 1), (1, .copy 0), (2, .copy 0), (2, .run), (1, .run), (2, .run)]]
    ∃ queue, create (.upTo 4096 (by norm_num)) 0 2 2 = .ok (some queue) ∧
      let r := byteMachine.exec ⟨queue, fun _ => .idle, fun _ => [0, 0]⟩ schedule
      .step (.popTrue 2 0 [1, 2]) ∈ r.1 ∧ (∀ t, .fault t ∉ r.1) ∧
        ∃ k s, queue.capacity = 2 ^ k ∧
          machine.Run (State.create (List.replicate 2 0) queue.capacity)
            (r.1.filterMap ByteEvent.whole) s ∧ Realizes k r.2 s := by
  intro schedule
  obtain ⟨queue, hcreate, hdecide⟩ := exists_created (x := create (.upTo 4096 (by norm_num)) 0 2 2)
    (P := fun queue => let r := byteMachine.exec ⟨queue, fun _ => .idle, fun _ => [0, 0]⟩ schedule
      decide (.step (.popTrue 2 0 [1, 2]) ∈ r.1 ∧ CallerContract 2 r.1)) (by decide +kernel)
  obtain ⟨hpop, hh⟩ := of_decide_eq_true hdecide
  exact ⟨queue, hcreate, hpop, queue_bytewise (by decide) le_rfl (by norm_num) hcreate
    (fun _ => rfl) (byteMachine.run_exec _ schedule) hh⟩

end BcConcurrency.Queue
