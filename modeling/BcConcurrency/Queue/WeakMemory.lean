import BcConcurrency.Lib.WeakMemory
import BcConcurrency.Queue.Concurrent

/-!
# The MPMC queue on weak memory

The operations of the queue with the memory orders of the source: relaxed loads
and exchanges of the two positions, acquire loads and release stores of the
sequence words and of the closed flag, plain copies of the payloads.  A load may
return a message that is no longer the newest one.  The environment chooses
which message a load reads and where in the modification order a store goes.

A thread that is outside of the library may make plain accesses of its own,
which are counted like the copies.
-/

namespace BcConcurrency.Queue

/-- The locations of a queue, and for every thread the number of its plain accesses. -/
inductive Location (ι : Type*)
  | enqueuePosition
  | dequeuePosition
  | closed
  | sequence (slotIndex : ℕ)
  | accesses (thread : ι)
deriving DecidableEq

/-- The fields of `struct bc_concurrency_queue` that the operations use, as
locations of the memory. -/
structure WeakQueue (ι α : Type*) where
  enqueuePosition : Cell ℕ (Location ι)
  dequeuePosition : Cell ℕ (Location ι)
  closed : Cell Bool (Location ι)
  capacity : ℕ
  capacityMask : ℕ
  sequence : ℕ → Cell ℕ (Location ι)
  data : ℕ → Plain α ι

/-- What the environment decides for a thread; a `load` of an exchange is one
that fails. -/
inductive WeakChoice (α : Type*)
  | call (operation : Operation α)
  | client
  | load (time : ℕ)
  | exchange (time : ℕ)
  | store (time : ℕ)
  | copy

variable {ι α : Type*}

namespace WeakQueue

/-- The slot that a position addresses. -/
def slotIndex (queue : WeakQueue ι α) (position : ℕ) : ℕ := position &&& queue.capacityMask

/-- The queue that `bc_concurrency_queue_create` leaves behind. -/
def create (zero : α) (effectiveCapacity : ℕ) : WeakQueue ι α where
  enqueuePosition := .init 0
  dequeuePosition := .init 0
  closed := .init false
  capacity := effectiveCapacity
  capacityMask := effectiveCapacity - 1
  sequence := fun slotIndex => .init slotIndex
  data := fun _ => ⟨zero, []⟩

/-- Replace the sequence word of a slot. -/
def setSequence (queue : WeakQueue ι α) (slotIndex : ℕ) (cell : Cell ℕ (Location ι)) :
    WeakQueue ι α :=
  { queue with sequence := Function.update queue.sequence slotIndex cell }

/-- Replace the payload of a slot. -/
def setData (queue : WeakQueue ι α) (slotIndex : ℕ) (data : Plain α ι) : WeakQueue ι α :=
  { queue with data := Function.update queue.data slotIndex data }

section

variable (queue : WeakQueue ι α) (slotIndex : ℕ) (cell : Cell ℕ (Location ι)) (data : Plain α ι)

@[simp] lemma setSequence_sequence : (queue.setSequence slotIndex cell).sequence =
    Function.update queue.sequence slotIndex cell := rfl

@[simp] lemma setSequence_data : (queue.setSequence slotIndex cell).data = queue.data := rfl

@[simp] lemma setData_sequence : (queue.setData slotIndex data).sequence = queue.sequence := rfl

@[simp] lemma setData_data : (queue.setData slotIndex data).data =
    Function.update queue.data slotIndex data := rfl

end

variable [DecidableEq ι]

/-- Load the sequence word that a position addresses. -/
def loadSequence (queue : WeakQueue ι α) (view : View (Location ι)) (position time : ℕ) :
    Option (ℕ × View (Location ι)) :=
  (queue.sequence (queue.slotIndex position)).loadAcquire (.sequence (queue.slotIndex position))
    view time

/-- Store the sequence word that a position addresses. -/
def storeSequence (queue : WeakQueue ι α) (view : View (Location ι)) (position time sequence : ℕ) :
    Option (WeakQueue ι α × View (Location ι)) :=
  ((queue.sequence (queue.slotIndex position)).storeRelease
    (.sequence (queue.slotIndex position)) view time sequence).map fun (cell, view') =>
      (queue.setSequence (queue.slotIndex position) cell, view')

end WeakQueue

variable [DecidableEq ι]

/-- Count one more plain access of a thread. -/
def tick (view : View (Location ι)) (thread : ι) : View (Location ι) :=
  view.see (.accesses thread) (view (.accesses thread) + 1)

/-- One step of a thread on the memory of the queue. -/
def WeakQueue.threadStep (queue : WeakQueue ι α) (thread : ι) (view : View (Location ι)) :
    Pc α → WeakChoice α → Option (Event ι α × WeakQueue ι α × View (Location ι) × Pc α)
  | .idle, .call operation => some (.call thread operation, queue, view, operation.entry)
  | .idle, .client => some (.silent thread, queue, tick view thread, .idle)
  -- bc_concurrency_queue_push
  | .pushLoadClosed item, .load time =>
      (queue.closed.loadAcquire .closed view time).map fun (closed, view') =>
        if closed then (.pushFalse thread, queue, view', .idle)
        else (.silent thread, queue, view', .pushLoadPosition item)
  | .pushLoadPosition item, .load time =>
      (queue.enqueuePosition.load .enqueuePosition view time).map fun (position, view') =>
        (.silent thread, queue, view', .pushLoadSequence item position)
  | .pushLoadSequence item position, .load time =>
      (queue.loadSequence view position time).map fun (sequence, view') =>
        let difference := signedDifference sequence position
        if difference = 0 then (.silent thread, queue, view', .pushExchange item position)
        else if difference < 0 then (.pushFalse thread, queue, view', .idle)
        else (.silent thread, queue, view', .pushLoadPosition item)
  | .pushExchange item position, .exchange time =>
      (queue.enqueuePosition.exchange .enqueuePosition view time position
        (word (position + 1))).map fun (cell, view') =>
          (.claimPush thread position item, { queue with enqueuePosition := cell }, view',
            .pushCopy item position)
  | .pushExchange item _, .load time =>
      (queue.enqueuePosition.load .enqueuePosition view time).map fun (position, view') =>
        (.silent thread, queue, view', .pushLoadSequence item position)
  | .pushCopy item position, .copy =>
      let view' := tick view thread
      let data := (queue.data (queue.slotIndex position)).record thread
        (view' (.accesses thread)) true
      some (.copyIn thread position item,
        queue.setData (queue.slotIndex position) { data with value := item }, view',
        .pushStoreSequence item position)
  | .pushStoreSequence item position, .store time =>
      (queue.storeSequence view position time (word (position + 1))).map fun (queue', view') =>
        (.pushTrue thread position item, queue', view', .idle)
  -- bc_concurrency_queue_pop
  | .popLoadPosition, .load time =>
      (queue.dequeuePosition.load .dequeuePosition view time).map fun (position, view') =>
        (.silent thread, queue, view', .popLoadSequence position)
  | .popLoadSequence position, .load time =>
      (queue.loadSequence view position time).map fun (sequence, view') =>
        let difference := signedDifference sequence (word (position + 1))
        if difference = 0 then (.silent thread, queue, view', .popExchange position)
        else if difference < 0 then (.popFalse thread, queue, view', .idle)
        else (.silent thread, queue, view', .popLoadPosition)
  | .popExchange position, .exchange time =>
      (queue.dequeuePosition.exchange .dequeuePosition view time position
        (word (position + 1))).map fun (cell, view') =>
          (.claimPop thread position, { queue with dequeuePosition := cell }, view',
            .popCopy position)
  | .popExchange _, .load time =>
      (queue.dequeuePosition.load .dequeuePosition view time).map fun (position, view') =>
        (.silent thread, queue, view', .popLoadSequence position)
  | .popCopy position, .copy =>
      let view' := tick view thread
      let data := (queue.data (queue.slotIndex position)).record thread
        (view' (.accesses thread)) false
      some (.copyOut thread position data.value,
        queue.setData (queue.slotIndex position) data, view',
        .popStoreSequence position data.value)
  | .popStoreSequence position outItem, .store time =>
      (queue.storeSequence view position time (word (position + queue.capacity))).map
        fun (queue', view') => (.popTrue thread position outItem, queue', view', .idle)
  -- bc_concurrency_queue_close and bc_concurrency_queue_is_closed
  | .closeStore, .store time =>
      (queue.closed.storeRelease .closed view time true).map fun (cell, view') =>
        (.closeReturn thread, { queue with closed := cell }, view', .idle)
  | .isClosedLoad, .load time =>
      (queue.closed.loadAcquire .closed view time).map fun (closed, view') =>
        (.isClosedReturn thread closed, queue, view', .idle)
  | _, _ => none

/-- A queue, and the program counters and the views of the threads that use it. -/
structure WeakState (ι α : Type*) where
  queue : WeakQueue ι α
  pc : ι → Pc α
  view : ι → View (Location ι)

omit [DecidableEq ι] in
/-- A fresh queue, with no call in progress. -/
def WeakState.create (zero : α) (effectiveCapacity : ℕ) : WeakState ι α where
  queue := .create zero effectiveCapacity
  pc := fun _ => .idle
  view := fun _ => ⊥

/-- The state after a thread has moved. -/
def WeakState.move (s : WeakState ι α) (thread : ι) (queue : WeakQueue ι α)
    (view : View (Location ι)) (pc : Pc α) : WeakState ι α where
  queue := queue
  pc := Function.update s.pc thread pc
  view := Function.update s.view thread view

namespace WeakState

variable (s : WeakState ι α) (thread : ι) (queue : WeakQueue ι α) (view : View (Location ι))
  (pc : Pc α)

@[simp] lemma move_queue : (s.move thread queue view pc).queue = queue := rfl

@[simp] lemma move_pc : (s.move thread queue view pc).pc = Function.update s.pc thread pc := rfl

@[simp] lemma move_view :
    (s.move thread queue view pc).view = Function.update s.view thread view := rfl

end WeakState

/-- The interleavings of the threads' steps; every event carries the view of its
thread after the step. -/
def weakMachine :
    Machine (WeakState ι α) (ι × WeakChoice α) (Event ι α × View (Location ι)) where
  step := fun s (thread, choice) =>
    (s.queue.threadStep thread (s.view thread) (s.pc thread) choice).map
      fun (event, queue, view, pc) => ((event, view), s.move thread queue view pc)

/-! ### Inversion of a step -/

/-- What one step can do, with the accesses that it is made of. -/
inductive WeakTransition (queue : WeakQueue ι α) (t : ι) (view : View (Location ι)) :
    Pc α → Event ι α → WeakQueue ι α → View (Location ι) → Pc α → Prop
  | call (operation : Operation α) :
      WeakTransition queue t view .idle (.call t operation) queue view operation.entry
  | client : WeakTransition queue t view .idle (.silent t) queue (tick view t) .idle
  | pushClosed {item : α} {time : ℕ} {view' : View (Location ι)}
      (hload : queue.closed.loadAcquire .closed view time = some (true, view')) :
      WeakTransition queue t view (.pushLoadClosed item) (.pushFalse t) queue view' .idle
  | pushOpen {item : α} {time : ℕ} {view' : View (Location ι)}
      (hload : queue.closed.loadAcquire .closed view time = some (false, view')) :
      WeakTransition queue t view (.pushLoadClosed item) (.silent t) queue view'
        (.pushLoadPosition item)
  | pushPosition {item : α} {p time : ℕ} {view' : View (Location ι)}
      (hload : queue.enqueuePosition.load .enqueuePosition view time = some (p, view')) :
      WeakTransition queue t view (.pushLoadPosition item) (.silent t) queue view'
        (.pushLoadSequence item p)
  | pushFree {item : α} {p time sequence : ℕ} {view' : View (Location ι)}
      (hload : queue.loadSequence view p time = some (sequence, view'))
      (hd : signedDifference sequence p = 0) :
      WeakTransition queue t view (.pushLoadSequence item p) (.silent t) queue view'
        (.pushExchange item p)
  | pushFull {item : α} {p time sequence : ℕ} {view' : View (Location ι)}
      (hload : queue.loadSequence view p time = some (sequence, view'))
      (hd : signedDifference sequence p < 0) :
      WeakTransition queue t view (.pushLoadSequence item p) (.pushFalse t) queue view' .idle
  | pushRetry {item : α} {p time sequence : ℕ} {view' : View (Location ι)}
      (hload : queue.loadSequence view p time = some (sequence, view'))
      (hd : 0 < signedDifference sequence p) :
      WeakTransition queue t view (.pushLoadSequence item p) (.silent t) queue view'
        (.pushLoadPosition item)
  | pushClaim {item : α} {p time : ℕ} {cell : Cell ℕ (Location ι)} {view' : View (Location ι)}
      (hexchange : queue.enqueuePosition.exchange .enqueuePosition view time p (word (p + 1)) =
        some (cell, view')) :
      WeakTransition queue t view (.pushExchange item p) (.claimPush t p item)
        { queue with enqueuePosition := cell } view' (.pushCopy item p)
  | pushLost {item : α} {p p' time : ℕ} {view' : View (Location ι)}
      (hload : queue.enqueuePosition.load .enqueuePosition view time = some (p', view')) :
      WeakTransition queue t view (.pushExchange item p) (.silent t) queue view'
        (.pushLoadSequence item p')
  | pushCopied {item : α} {p : ℕ} :
      WeakTransition queue t view (.pushCopy item p) (.copyIn t p item)
        (queue.setData (queue.slotIndex p)
          { (queue.data (queue.slotIndex p)).record t (tick view t (.accesses t)) true with
            value := item })
        (tick view t) (.pushStoreSequence item p)
  | pushStored {item : α} {p time : ℕ} {queue' : WeakQueue ι α} {view' : View (Location ι)}
      (hstore : queue.storeSequence view p time (word (p + 1)) = some (queue', view')) :
      WeakTransition queue t view (.pushStoreSequence item p) (.pushTrue t p item) queue' view'
        .idle
  | popPosition {p time : ℕ} {view' : View (Location ι)}
      (hload : queue.dequeuePosition.load .dequeuePosition view time = some (p, view')) :
      WeakTransition queue t view .popLoadPosition (.silent t) queue view' (.popLoadSequence p)
  | popReady {p time sequence : ℕ} {view' : View (Location ι)}
      (hload : queue.loadSequence view p time = some (sequence, view'))
      (hd : signedDifference sequence (word (p + 1)) = 0) :
      WeakTransition queue t view (.popLoadSequence p) (.silent t) queue view' (.popExchange p)
  | popEmpty {p time sequence : ℕ} {view' : View (Location ι)}
      (hload : queue.loadSequence view p time = some (sequence, view'))
      (hd : signedDifference sequence (word (p + 1)) < 0) :
      WeakTransition queue t view (.popLoadSequence p) (.popFalse t) queue view' .idle
  | popRetry {p time sequence : ℕ} {view' : View (Location ι)}
      (hload : queue.loadSequence view p time = some (sequence, view'))
      (hd : 0 < signedDifference sequence (word (p + 1))) :
      WeakTransition queue t view (.popLoadSequence p) (.silent t) queue view' .popLoadPosition
  | popClaim {p time : ℕ} {cell : Cell ℕ (Location ι)} {view' : View (Location ι)}
      (hexchange : queue.dequeuePosition.exchange .dequeuePosition view time p (word (p + 1)) =
        some (cell, view')) :
      WeakTransition queue t view (.popExchange p) (.claimPop t p)
        { queue with dequeuePosition := cell } view' (.popCopy p)
  | popLost {p p' time : ℕ} {view' : View (Location ι)}
      (hload : queue.dequeuePosition.load .dequeuePosition view time = some (p', view')) :
      WeakTransition queue t view (.popExchange p) (.silent t) queue view' (.popLoadSequence p')
  | popCopied {p : ℕ} :
      WeakTransition queue t view (.popCopy p)
        (.copyOut t p (queue.data (queue.slotIndex p)).value)
        (queue.setData (queue.slotIndex p)
          ((queue.data (queue.slotIndex p)).record t (tick view t (.accesses t)) false))
        (tick view t) (.popStoreSequence p (queue.data (queue.slotIndex p)).value)
  | popStored {p time : ℕ} {outItem : α} {queue' : WeakQueue ι α} {view' : View (Location ι)}
      (hstore : queue.storeSequence view p time (word (p + queue.capacity)) =
        some (queue', view')) :
      WeakTransition queue t view (.popStoreSequence p outItem) (.popTrue t p outItem) queue'
        view' .idle
  | close {time : ℕ} {cell : Cell Bool (Location ι)} {view' : View (Location ι)}
      (hstore : queue.closed.storeRelease .closed view time true = some (cell, view')) :
      WeakTransition queue t view .closeStore (.closeReturn t) { queue with closed := cell }
        view' .idle
  | isClosed {time : ℕ} {closed : Bool} {view' : View (Location ι)}
      (hload : queue.closed.loadAcquire .closed view time = some (closed, view')) :
      WeakTransition queue t view .isClosedLoad (.isClosedReturn t closed) queue view' .idle

lemma WeakQueue.threadStep_inv {queue queue' : WeakQueue ι α} {t : ι}
    {view view' : View (Location ι)} {pc pc' : Pc α} {c : WeakChoice α} {e : Event ι α}
    (hs : queue.threadStep t view pc c = some (e, queue', view', pc')) :
    WeakTransition queue t view pc e queue' view' pc' := by
  cases pc <;> cases c <;> simp only [WeakQueue.threadStep, reduceCtorEq] at hs
  case idle.call | idle.client | pushCopy.copy | popCopy.copy => cases hs; constructor
  all_goals
    obtain ⟨⟨x, view₁⟩, haccess, heq⟩ := Option.map_eq_some_iff.mp hs
  case pushLoadClosed.load =>
    cases x <;> cases heq
    · exact .pushOpen haccess
    · exact .pushClosed haccess
  case pushLoadSequence.load =>
    simp only at heq
    split at heq
    next hd =>
      cases heq
      exact .pushFree haccess hd
    next hne =>
      split at heq <;> cases heq
      · exact .pushFull haccess ‹_›
      · exact .pushRetry haccess (lt_of_le_of_ne (not_lt.mp ‹_›) (Ne.symm hne))
  case popLoadSequence.load =>
    simp only at heq
    split at heq
    next hd =>
      cases heq
      exact .popReady haccess hd
    next hne =>
      split at heq <;> cases heq
      · exact .popEmpty haccess ‹_›
      · exact .popRetry haccess (lt_of_le_of_ne (not_lt.mp ‹_›) (Ne.symm hne))
  case pushExchange.load => cases heq; exact .pushLost haccess
  case popExchange.load => cases heq; exact .popLost haccess
  all_goals cases heq; constructor; exact haccess

/-- A step of the machine is a step of one of the threads. -/
lemma weakStep_inv {s s' : WeakState ι α} {c : ι × WeakChoice α}
    {e : Event ι α × View (Location ι)} (hs : weakMachine.step s c = some (e, s')) :
    ∃ t queue pc, WeakTransition s.queue t (s.view t) (s.pc t) e.1 queue e.2 pc ∧
      s' = s.move t queue e.2 pc := by
  obtain ⟨⟨e', queue, view, pc⟩, hs', heq⟩ := Option.map_eq_some_iff.mp hs
  cases heq
  exact ⟨c.1, queue, pc, WeakQueue.threadStep_inv hs', rfl⟩

/-! ### Races -/

/-- The next copy of a thread races with an earlier copy of the same payload. -/
def WeakState.Races (s : WeakState ι α) (thread : ι) : Prop :=
  match s.pc thread with
  | .pushCopy _ position =>
      (s.queue.data (s.queue.slotIndex position)).Races .accesses (s.view thread) true
  | .popCopy position =>
      (s.queue.data (s.queue.slotIndex position)).Races .accesses (s.view thread) false
  | _ => False

end BcConcurrency.Queue
