import BcConcurrency.Lib.Transition
import BcConcurrency.Lib.Word

/-!
# The MPMC queue under concurrent use

The shared part of a queue, the program counters of `bc_concurrency_queue_push`,
`bc_concurrency_queue_pop`, `bc_concurrency_queue_close` and
`bc_concurrency_queue_is_closed`, and the atomic steps between them.  Every
thread calls any of the operations at any time; the environment chooses which
thread steps next and which weak compare-and-exchange fails spuriously.

The local variable `position` of an operation is part of its program counter,
so it may be stale with respect to the shared counters.
-/

namespace BcConcurrency.Queue

/-- A slot of the ring: its sequence word and its payload. -/
structure Slot (α : Type*) where
  sequence : ℕ
  data : α

/-- The fields of `struct bc_concurrency_queue` that the operations use; the
slots are those of `slot_buffer`. -/
structure SharedQueue (α : Type*) where
  enqueuePosition : ℕ
  dequeuePosition : ℕ
  closed : Bool
  capacity : ℕ
  capacityMask : ℕ
  slots : ℕ → Slot α

namespace SharedQueue

variable {α : Type*}

/-- The slot that a position addresses. -/
def slotIndex (queue : SharedQueue α) (position : ℕ) : ℕ := position &&& queue.capacityMask

/-- The sequence word addressed by a position. -/
def slotSequence (queue : SharedQueue α) (position : ℕ) : ℕ :=
  (queue.slots (queue.slotIndex position)).sequence

/-- The payload addressed by a position. -/
def slotData (queue : SharedQueue α) (position : ℕ) : α :=
  (queue.slots (queue.slotIndex position)).data

/-- The successful compare-and-exchange of `enqueue_position`. -/
@[simps] def setEnqueuePosition (queue : SharedQueue α) (position : ℕ) : SharedQueue α :=
  { queue with enqueuePosition := position }

/-- The successful compare-and-exchange of `dequeue_position`. -/
@[simps] def setDequeuePosition (queue : SharedQueue α) (position : ℕ) : SharedQueue α :=
  { queue with dequeuePosition := position }

/-- Store the `closed` flag. -/
@[simps] def storeClosed (queue : SharedQueue α) (closed : Bool) : SharedQueue α :=
  { queue with closed := closed }

/-- Store a sequence word. -/
@[simps] def storeSequence (queue : SharedQueue α) (position sequence : ℕ) : SharedQueue α :=
  { queue with
    slots := Function.update queue.slots (queue.slotIndex position)
      { queue.slots (queue.slotIndex position) with sequence := sequence } }

/-- Copy an item into the payload of a slot. -/
@[simps] def copyIn (queue : SharedQueue α) (position : ℕ) (item : α) : SharedQueue α :=
  { queue with
    slots := Function.update queue.slots (queue.slotIndex position)
      { queue.slots (queue.slotIndex position) with data := item } }

/-- The queue that `bc_concurrency_queue_create` leaves behind, for an effective
capacity; `zero` is the zeroed payload. -/
@[simps] def create (zero : α) (effectiveCapacity : ℕ) : SharedQueue α where
  enqueuePosition := 0
  dequeuePosition := 0
  closed := false
  capacity := effectiveCapacity
  capacityMask := effectiveCapacity - 1
  slots := fun slotIndex => ⟨slotIndex, zero⟩

end SharedQueue

/-- The calls a thread can make. -/
inductive Operation (α : Type*)
  | push (item : α)
  | pop
  | close
  | isClosed
deriving DecidableEq

/-- Where a thread is; `idle` is outside of the library. -/
inductive Pc (α : Type*)
  | idle
  | pushLoadClosed (item : α)
  | pushLoadPosition (item : α)
  | pushLoadSequence (item : α) (position : ℕ)
  | pushExchange (item : α) (position : ℕ)
  | pushCopy (item : α) (position : ℕ)
  | pushStoreSequence (item : α) (position : ℕ)
  | popLoadPosition
  | popLoadSequence (position : ℕ)
  | popExchange (position : ℕ)
  | popCopy (position : ℕ)
  | popStoreSequence (position : ℕ) (outItem : α)
  | closeStore
  | isClosedLoad

/-- What the environment decides: an idle thread makes a call, a thread takes
its next step, or its weak compare-and-exchange fails spuriously. -/
inductive Choice (α : Type*)
  | call (operation : Operation α)
  | run
  | spurious

/-- What a step leaves in the history.  The position of a claim is ghost
information for the history; the code returns only the truth value and the
item. -/
inductive Event (ι α : Type*)
  | call (thread : ι) (operation : Operation α)
  | silent (thread : ι)
  | claimPush (thread : ι) (position : ℕ) (item : α)
  | claimPop (thread : ι) (position : ℕ)
  | copyIn (thread : ι) (position : ℕ) (item : α)
  | copyOut (thread : ι) (position : ℕ) (item : α)
  | pushTrue (thread : ι) (position : ℕ) (item : α)
  | pushFalse (thread : ι)
  | popTrue (thread : ι) (position : ℕ) (item : α)
  | popFalse (thread : ι)
  | closeReturn (thread : ι)
  | isClosedReturn (thread : ι) (closed : Bool)
deriving DecidableEq

variable {ι α : Type*}

/-- The program counter on which a call starts. -/
def Operation.entry : Operation α → Pc α
  | .push item => .pushLoadClosed item
  | .pop => .popLoadPosition
  | .close => .closeStore
  | .isClosed => .isClosedLoad

/-- One atomic step of a thread on the shared queue. -/
def threadStep (queue : SharedQueue α) (thread : ι) :
    Pc α → Choice α → Option (Event ι α × SharedQueue α × Pc α)
  | .idle, .call operation => some (.call thread operation, queue, operation.entry)
  -- bc_concurrency_queue_push
  | .pushLoadClosed item, .run =>
      if queue.closed then some (.pushFalse thread, queue, .idle)
      else some (.silent thread, queue, .pushLoadPosition item)
  | .pushLoadPosition item, .run =>
      some (.silent thread, queue, .pushLoadSequence item queue.enqueuePosition)
  | .pushLoadSequence item position, .run =>
      let difference := signedDifference (queue.slotSequence position) position
      if difference = 0 then some (.silent thread, queue, .pushExchange item position)
      else if difference < 0 then some (.pushFalse thread, queue, .idle)
      else some (.silent thread, queue, .pushLoadPosition item)
  | .pushExchange item position, .run =>
      if queue.enqueuePosition = position then
        some (.claimPush thread position item,
          queue.setEnqueuePosition (word (position + 1)), .pushCopy item position)
      else some (.silent thread, queue, .pushLoadSequence item queue.enqueuePosition)
  | .pushExchange item _, .spurious =>
      some (.silent thread, queue, .pushLoadSequence item queue.enqueuePosition)
  | .pushCopy item position, .run =>
      some (.copyIn thread position item, queue.copyIn position item,
        .pushStoreSequence item position)
  | .pushStoreSequence item position, .run =>
      some (.pushTrue thread position item, queue.storeSequence position (word (position + 1)),
        .idle)
  -- bc_concurrency_queue_pop
  | .popLoadPosition, .run =>
      some (.silent thread, queue, .popLoadSequence queue.dequeuePosition)
  | .popLoadSequence position, .run =>
      let difference := signedDifference (queue.slotSequence position) (word (position + 1))
      if difference = 0 then some (.silent thread, queue, .popExchange position)
      else if difference < 0 then some (.popFalse thread, queue, .idle)
      else some (.silent thread, queue, .popLoadPosition)
  | .popExchange position, .run =>
      if queue.dequeuePosition = position then
        some (.claimPop thread position,
          queue.setDequeuePosition (word (position + 1)), .popCopy position)
      else some (.silent thread, queue, .popLoadSequence queue.dequeuePosition)
  | .popExchange _, .spurious =>
      some (.silent thread, queue, .popLoadSequence queue.dequeuePosition)
  | .popCopy position, .run =>
      some (.copyOut thread position (queue.slotData position), queue,
        .popStoreSequence position (queue.slotData position))
  | .popStoreSequence position outItem, .run =>
      some (.popTrue thread position outItem,
        queue.storeSequence position (word (position + queue.capacity)), .idle)
  -- bc_concurrency_queue_close and bc_concurrency_queue_is_closed
  | .closeStore, .run => some (.closeReturn thread, queue.storeClosed true, .idle)
  | .isClosedLoad, .run => some (.isClosedReturn thread queue.closed, queue, .idle)
  | _, _ => none

/-- A queue and the threads that use it. -/
structure State (ι α : Type*) where
  queue : SharedQueue α
  pc : ι → Pc α

/-- A fresh queue of a given effective capacity, with no call in progress. -/
@[simps] def State.create (zero : α) (effectiveCapacity : ℕ) : State ι α where
  queue := SharedQueue.create zero effectiveCapacity
  pc := fun _ => .idle

variable [DecidableEq ι]

/-- The state after a thread has moved to `pc` and left the queue as `queue`. -/
@[simps] def State.move (s : State ι α) (thread : ι) (queue : SharedQueue α) (pc : Pc α) :
    State ι α where
  queue := queue
  pc := Function.update s.pc thread pc

/-- The interleavings of the threads' steps. -/
def machine : Machine (State ι α) (ι × Choice α) (Event ι α) where
  step := fun s (thread, choice) =>
    (threadStep s.queue thread (s.pc thread) choice).map fun (event, queue, pc) =>
      (event, s.move thread queue pc)

/-! ### Inversion of a step -/

omit [DecidableEq ι] in
/-- What one atomic step can do, with the reason it does so. -/
inductive Transition (queue : SharedQueue α) (t : ι) :
    Pc α → Event ι α → SharedQueue α → Pc α → Prop
  | call (operation : Operation α) :
      Transition queue t .idle (.call t operation) queue operation.entry
  | pushClosed {item : α} (hclosed : queue.closed = true) :
      Transition queue t (.pushLoadClosed item) (.pushFalse t) queue .idle
  | pushOpen {item : α} (hclosed : queue.closed = false) :
      Transition queue t (.pushLoadClosed item) (.silent t) queue (.pushLoadPosition item)
  | pushPosition {item : α} :
      Transition queue t (.pushLoadPosition item) (.silent t) queue
        (.pushLoadSequence item queue.enqueuePosition)
  | pushFree {item : α} {p : ℕ} (hd : signedDifference (queue.slotSequence p) p = 0) :
      Transition queue t (.pushLoadSequence item p) (.silent t) queue (.pushExchange item p)
  | pushFull {item : α} {p : ℕ} (hd : signedDifference (queue.slotSequence p) p < 0) :
      Transition queue t (.pushLoadSequence item p) (.pushFalse t) queue .idle
  | pushRetry {item : α} {p : ℕ} (hd : 0 < signedDifference (queue.slotSequence p) p) :
      Transition queue t (.pushLoadSequence item p) (.silent t) queue (.pushLoadPosition item)
  | pushClaim {item : α} :
      Transition queue t (.pushExchange item queue.enqueuePosition)
        (.claimPush t queue.enqueuePosition item)
        (queue.setEnqueuePosition (word (queue.enqueuePosition + 1)))
        (.pushCopy item queue.enqueuePosition)
  | pushLost {item : α} {p : ℕ} :
      Transition queue t (.pushExchange item p) (.silent t) queue
        (.pushLoadSequence item queue.enqueuePosition)
  | pushCopied {item : α} {p : ℕ} :
      Transition queue t (.pushCopy item p) (.copyIn t p item) (queue.copyIn p item)
        (.pushStoreSequence item p)
  | pushStored {item : α} {p : ℕ} :
      Transition queue t (.pushStoreSequence item p) (.pushTrue t p item)
        (queue.storeSequence p (word (p + 1))) .idle
  | popPosition :
      Transition queue t .popLoadPosition (.silent t) queue
        (.popLoadSequence queue.dequeuePosition)
  | popReady {p : ℕ} (hd : signedDifference (queue.slotSequence p) (word (p + 1)) = 0) :
      Transition queue t (.popLoadSequence p) (.silent t) queue (.popExchange p)
  | popEmpty {p : ℕ} (hd : signedDifference (queue.slotSequence p) (word (p + 1)) < 0) :
      Transition queue t (.popLoadSequence p) (.popFalse t) queue .idle
  | popRetry {p : ℕ} (hd : 0 < signedDifference (queue.slotSequence p) (word (p + 1))) :
      Transition queue t (.popLoadSequence p) (.silent t) queue .popLoadPosition
  | popClaim :
      Transition queue t (.popExchange queue.dequeuePosition)
        (.claimPop t queue.dequeuePosition)
        (queue.setDequeuePosition (word (queue.dequeuePosition + 1)))
        (.popCopy queue.dequeuePosition)
  | popLost {p : ℕ} :
      Transition queue t (.popExchange p) (.silent t) queue
        (.popLoadSequence queue.dequeuePosition)
  | popCopied {p : ℕ} :
      Transition queue t (.popCopy p) (.copyOut t p (queue.slotData p)) queue
        (.popStoreSequence p (queue.slotData p))
  | popStored {p : ℕ} {outItem : α} :
      Transition queue t (.popStoreSequence p outItem) (.popTrue t p outItem)
        (queue.storeSequence p (word (p + queue.capacity))) .idle
  | close : Transition queue t .closeStore (.closeReturn t) (queue.storeClosed true) .idle
  | isClosed : Transition queue t .isClosedLoad (.isClosedReturn t queue.closed) queue .idle

omit [DecidableEq ι] in
lemma threadStep_inv {queue queue' : SharedQueue α} {t : ι} {pc pc' : Pc α} {c : Choice α}
    {e : Event ι α} (hs : threadStep queue t pc c = some (e, queue', pc')) :
    Transition queue t pc e queue' pc' := by
  cases pc <;> cases c <;> simp only [threadStep, reduceCtorEq] at hs
  case pushLoadClosed.run =>
    split at hs <;> cases hs
    · exact .pushClosed ‹_›
    · exact .pushOpen (by simpa using ‹¬queue.closed = true›)
  case pushLoadSequence.run =>
    split at hs
    · cases hs
      exact .pushFree ‹_›
    · split at hs <;> cases hs
      · exact .pushFull ‹_›
      · exact .pushRetry (by omega)
  case pushExchange.run =>
    split at hs
    next heq =>
      cases hs
      subst heq
      exact .pushClaim
    next =>
      cases hs
      exact .pushLost
  case popLoadSequence.run =>
    split at hs
    · cases hs
      exact .popReady ‹_›
    · split at hs <;> cases hs
      · exact .popEmpty ‹_›
      · exact .popRetry (by omega)
  case popExchange.run =>
    split at hs
    next heq =>
      cases hs
      subst heq
      exact .popClaim
    next =>
      cases hs
      exact .popLost
  all_goals cases hs; constructor

/-- A step of the machine is an atomic step of one of the threads. -/
lemma step_inv {s s' : State ι α} {c : ι × Choice α} {e : Event ι α}
    (hs : machine.step s c = some (e, s')) :
    ∃ t queue pc, Transition s.queue t (s.pc t) e queue pc ∧ s' = s.move t queue pc := by
  obtain ⟨⟨e', queue, pc⟩, hs', heq⟩ := Option.map_eq_some_iff.mp hs
  cases heq
  exact ⟨c.1, queue, pc, threadStep_inv hs', rfl⟩

end BcConcurrency.Queue
