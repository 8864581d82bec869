import BcConcurrency.Lib.Linearizability
import BcConcurrency.Queue.Closing
import BcConcurrency.Queue.Failures

/-!
# The MPMC queue is linearizable

The object that the queue implements is the bounded FIFO.  An operation that
overlaps no other one does exactly what the FIFO does.  A push that overlaps a
pop and a pop that overlaps a push may in addition fail without an effect, and a
push that was called before any close had returned may still append to the
closed queue.

A successful push and pop take effect at their claims, every other operation at
its return.
-/

namespace BcConcurrency.Queue

open Linearizability

variable {ι α : Type*}

/-! ### The object -/

/-- What an operation returns. -/
inductive Result (α : Type*)
  | pushed (success : Bool)
  | popped (item : Option α)
  | closed
  | isClosed (closed : Bool)

namespace Fifo

variable {bound : ℕ}

/-- The result and the effect of an operation that runs alone. -/
def serve (f : Fifo α bound) : Operation α → Result α × Fifo α bound
  | .push item => (.pushed (f.push item).1, (f.push item).2)
  | .pop => (.popped f.pop.1, f.pop.2)
  | .close => (.closed, f.close)
  | .isClosed => (.isClosed f.closed, f)

/-- What an operation may do in addition, by what surrounds it. -/
inductive Concedes (around : Surroundings (Operation α)) (f : Fifo α bound) :
    Operation α → Result α → Fifo α bound → Prop
  | pushLate {item : α} {f' : Fifo α bound} (hnone : ¬ around.preceded .close)
      (hitems : f'.items = f.items ++ [item]) (hclosed : f'.closed = f.closed) :
      Concedes around f (.push item) (.pushed true) f'
  | pushFails {item : α} (hpop : around.overlaps .pop) :
      Concedes around f (.push item) (.pushed false) f
  | popFails {item : α} (hpush : around.overlaps (.push item)) :
      Concedes around f .pop (.popped none) f

lemma Concedes.mono {around around' : Surroundings (Operation α)} (hle : around.Le around')
    {f f' : Fifo α bound} {op : Operation α} {r : Result α} (h : f.Concedes around op r f') :
    f.Concedes around' op r f' := by
  cases h with
  | pushLate hnone hitems hclosed =>
      exact .pushLate (fun hprec => hnone (hle.preceded _ hprec)) hitems hclosed
  | pushFails hpop => exact .pushFails (hle.overlaps _ hpop)
  | popFails hpush => exact .popFails (hle.overlaps _ hpush)

/-- The bounded FIFO as a shared object. -/
def spec (α : Type*) (bound : ℕ) : ObjectSpec (Fifo α bound) (Operation α) (Result α) where
  serves := fun around f op r f' => f.serve op = (r, f') ∨ f.Concedes around op r f'
  mono := fun hle hserves => hserves.imp_right (Concedes.mono hle)

variable {around : Surroundings (Operation α)}

/-- A push that appends: the queue is open, or no close had returned when it was called. -/
lemma serves_push {f f' : Fifo α bound} {item : α}
    (hitems : f'.items = f.items ++ [item]) (hclosed : f'.closed = f.closed)
    (hopen : f.closed = true → ¬ around.preceded .close) :
    (spec α bound).serves around f (.push item) (.pushed true) f' := by
  by_cases hc : f.closed = true
  · exact Or.inr (.pushLate (hopen hc) hitems hclosed)
  · have hroom : f.items.length < bound := by
      have := f'.length_le
      rw [hitems, List.length_append, List.length_singleton] at this
      omega
    obtain ⟨h₁, h₂, h₃⟩ := f.push_of_room item (by simpa using hc) hroom
    refine Or.inl ?_
    show (Result.pushed (f.push item).1, (f.push item).2) = (Result.pushed true, f')
    rw [h₁]
    congr 1
    ext1
    · rw [h₂, hitems]
    · rw [h₃, hclosed]

lemma serves_push_false {f : Fifo α bound} {item : α}
    (hfail : (f.closed = true ∨ bound ≤ f.items.length) ∨ around.overlaps .pop) :
    (spec α bound).serves around f (.push item) (.pushed false) f := by
  rcases hfail with hfail | hpop
  · refine Or.inl ?_
    show (Result.pushed (f.push item).1, (f.push item).2) = (Result.pushed false, f)
    rw [f.push_of_not_room item hfail]
  · exact Or.inr (.pushFails hpop)

lemma serves_pop {f f' : Fifo α bound} {item : α}
    (hitems : f.items = item :: f'.items) (hclosed : f'.closed = f.closed) :
    (spec α bound).serves around f .pop (.popped (some item)) f' := by
  obtain ⟨h₁, h₂, h₃⟩ := f.pop_of_cons hitems
  refine Or.inl ?_
  show (Result.popped f.pop.1, f.pop.2) = (Result.popped (some item), f')
  rw [h₁]
  congr 1
  ext1
  · exact h₂
  · rw [h₃, hclosed]

lemma serves_pop_none {f : Fifo α bound}
    (hfail : f.items = [] ∨ ∃ item, around.overlaps (.push item)) :
    (spec α bound).serves around f .pop (.popped none) f := by
  rcases hfail with hempty | ⟨item, hpush⟩
  · refine Or.inl ?_
    show (Result.popped f.pop.1, f.pop.2) = (Result.popped none, f)
    rw [f.pop_of_nil hempty]
  · exact Or.inr (.popFails hpush)

end Fifo

/-! ### What a run shows -/

/-- The call or the return of an event. -/
def Event.action : Event ι α → Option (Action ι (Operation α) (Result α))
  | .call t operation => some (.call t operation)
  | .pushTrue t _ _ => some (.ret t (.pushed true))
  | .pushFalse t => some (.ret t (.pushed false))
  | .popTrue t _ item => some (.ret t (.popped (some item)))
  | .popFalse t => some (.ret t (.popped none))
  | .closeReturn t => some (.ret t .closed)
  | .isClosedReturn t closed => some (.ret t (.isClosed closed))
  | _ => none

/-- The calls and the returns of a history. -/
def actions (h : List (Event ι α)) : List (Action ι (Operation α) (Result α)) :=
  h.filterMap Event.action

/-- Where the operation of a thread stands, seen from the FIFO; a pop that has
claimed a position returns the item pushed there. -/
def Pc.status (items : List α) : Pc α → Status (Operation α) (Result α)
  | .idle => .idle
  | .pushLoadClosed item | .pushLoadPosition item | .pushLoadSequence item _
  | .pushExchange item _ => .called (.push item)
  | .pushCopy item _ | .pushStoreSequence item _ => .served (.push item) (.pushed true)
  | .popLoadPosition | .popLoadSequence _ | .popExchange _ => .called .pop
  | .popCopy p | .popStoreSequence p _ => .served .pop (.popped items[p]?)
  | .closeStore => .called .close
  | .isClosedLoad => .called .isClosed

lemma Pc.status_eq_idle {items : List α} {pc : Pc α} : pc.status items = .idle ↔ pc = .idle := by
  cases pc <;> simp [Pc.status]

lemma Pc.operation_of_pushing {items : List α} {pc : Pc α} {p : ℕ} (hp : pc.pushing = some p) :
    ∃ item, (pc.status items).operation = some (.push item) := by
  cases pc <;> simp_all [Pc.pushing, Pc.status, Status.operation]

lemma Pc.operation_of_popping {items : List α} {pc : Pc α} {p : ℕ} (hp : pc.popping = some p) :
    (pc.status items).operation = some .pop := by
  cases pc <;> simp_all [Pc.popping, Pc.status, Status.operation]

/-- The FIFO that a queue stands for: the items pushed and not yet claimed by a
pop, and the operations in progress.  A close that has returned has closed the queue,
so a push that was called later does not pass the closed check. -/
structure Follows (k : ℕ) (h : List (Event ι α)) (s : State ι α)
    (a : AtomicObject (Fifo α (2 ^ k)) ι (Operation α) (Result α)) : Prop where
  items : a.object.items = (pushedItems h).drop s.queue.dequeuePosition
  closed : a.object.closed = s.queue.closed
  status : ∀ t, a.status t = (s.pc t).status (pushedItems h)
  returned : a.returned .close → s.queue.closed = true
  preceded : ∀ t, (a.around t).preceded .close → s.queue.closed = true
  late : ∀ t, (s.pc t).pastCheck = true → ¬ (a.around t).preceded .close

namespace Follows

variable {k : ℕ} {h : List (Event ι α)} {s : State ι α} {t : ι} {e : Event ι α}
  {queue : SharedQueue α} {pc : Pc α}
  {a a' : AtomicObject (Fifo α (2 ^ k)) ι (Operation α) (Result α)}

lemma status_eq (hf : Follows k h s a) {pc₀ : Pc α} (hpc : s.pc t = pc₀) :
    a.status t = pc₀.status (pushedItems h) := by
  rw [hf.status t, hpc]

lemma create (zero : α) :
    Follows k [] (State.create zero (2 ^ k) : State ι α) (.create Fifo.empty) where
  items := rfl
  closed := rfl
  status := fun _ => rfl
  returned := False.elim
  preceded := fun _ => False.elim
  late := fun _ _ => id

variable [DecidableEq ι]

/-- What has to be shown of the thread that moves, when the calls that had returned before
those in progress stay the same. -/
lemma move (hf : Follows k h s a)
    (hitems : a'.object.items = (pushedItems (h ++ [e])).drop queue.dequeuePosition)
    (hclosed : a'.object.closed = queue.closed)
    (hstatus : a'.status = Function.update a.status t (pc.status (pushedItems (h ++ [e]))))
    (hother : ∀ t', (s.pc t').status (pushedItems (h ++ [e])) = (s.pc t').status (pushedItems h))
    (haround : ∀ t', (a'.around t').preceded = (a.around t').preceded)
    (hreturned : a'.returned .close → queue.closed = true)
    (hclosing : s.queue.closed = true → queue.closed = true)
    (hlate : pc.pastCheck = true → ¬ (a.around t).preceded .close) :
    Follows k (h ++ [e]) (s.move t queue pc) a' where
  items := hitems
  closed := hclosed
  status := by
    intro t'
    by_cases ht : t' = t
    · subst ht
      simp [hstatus]
    · simp [hstatus, Function.update_of_ne ht, hf.status t', hother t']
  returned := hreturned
  preceded := by
    intro t' hprec
    rw [haround] at hprec
    exact hclosing (hf.preceded t' hprec)
  late := by
    intro t'
    rw [haround]
    by_cases ht : t' = t
    · subst ht
      simpa using hlate
    · simpa [Function.update_of_ne ht] using hf.late t'

/-- A step that the FIFO does not see. -/
lemma quiet (hf : Follows k h s a) (hitems : pushedItems (h ++ [e]) = pushedItems h)
    (hdequeue : queue.dequeuePosition = s.queue.dequeuePosition)
    (hclosed : queue.closed = s.queue.closed)
    (hstatus : pc.status (pushedItems h) = (s.pc t).status (pushedItems h))
    (hpast : pc.pastCheck = true → ¬ (a.around t).preceded .close) :
    Follows k (h ++ [e]) (s.move t queue pc) a := by
  refine hf.move ?_ ?_ ?_ ?_ (fun _ => rfl) ?_ ?_ hpast
  · rw [hitems, hdequeue, hf.items]
  · rw [hclosed, hf.closed]
  · rw [hitems, hstatus, ← hf.status t, Function.update_eq_self]
  · intro t'
    rw [hitems]
  · rw [hclosed]
    exact hf.returned
  · rw [hclosed]
    exact id

/-- A step in which an operation takes effect and returns. -/
lemma finish (hf : Follows k h s a) (op : Operation α) (f : Fifo α (2 ^ k))
    (hitems : pushedItems (h ++ [e]) = pushedItems h)
    (hdequeue : queue.dequeuePosition = s.queue.dequeuePosition) {r : Result α}
    (hcalled : (s.pc t).status (pushedItems h) = .called op) (he : e.action = some (.ret t r))
    (hserves : (Fifo.spec α (2 ^ k)).serves (a.around t) a.object op r f)
    (hf' : f.items = a.object.items) (hclosed : f.closed = queue.closed)
    (hclosing : s.queue.closed = true ∨ op = .close → queue.closed = true) :
    ∃ a', AtomicObject.Run (Fifo.spec α (2 ^ k)) a e.action.toList a' ∧
      Follows k (h ++ [e]) (s.move t queue .idle) a' := by
  refine ⟨(a.serve t f op r).ret t op, ?_, hf.move ?_ hclosed ?_ ?_ (fun _ => rfl) ?_ ?_ ?_⟩
  · rw [he]
    exact (AtomicObject.Run.nil.serve (by rw [hf.status t, hcalled]) hserves).ret (by simp)
  · rw [hitems, hdequeue, AtomicObject.ret_object, AtomicObject.serve_object, hf', hf.items]
  · show Function.update (Function.update a.status t (.served op r)) t .idle = _
    rw [Function.update_idem]
    rfl
  · intro t'
    rw [hitems]
  · rintro (hreturned | rfl)
    · exact hclosing (Or.inl (hf.returned hreturned))
    · exact hclosing (Or.inr rfl)
  · exact fun hc => hclosing (Or.inl hc)
  · intro hpast
    simp [Pc.pastCheck, Pc.inPush] at hpast

/-- A push claims a position: it appends its item. -/
lemma claimPush (hinv : Invariant k h s) (hf : Follows k h s a) {item : α}
    (hpc : s.pc t = .pushExchange item s.queue.enqueuePosition) :
    ∃ a', AtomicObject.Run (Fifo.spec α (2 ^ k)) a [] a' ∧
      Follows k (h ++ [.claimPush t s.queue.enqueuePosition item])
        (s.move t (s.queue.setEnqueuePosition (word (s.queue.enqueuePosition + 1)))
          (.pushCopy item s.queue.enqueuePosition)) a' := by
  have hknows := hinv.knows t
  rw [hpc] at hknows
  have hroom := (hknows.2 rfl).2
  have hlen := hinv.items_length
  have hDE := hinv.dequeue_le
  have hnew : pushedItems (h ++ [.claimPush t s.queue.enqueuePosition item]) =
      pushedItems h ++ [item] := by
    simp [pushedItems, pushClaims_snoc, Event.pushClaim]
  have hstatus := hf.status_eq hpc
  have hbound : (a.object.items ++ [item]).length ≤ 2 ^ k := by
    rw [hinv.capacity] at hroom
    rw [hf.items, List.length_append, List.length_drop, List.length_singleton, hlen]
    omega
  have hlate := hf.late t (by rw [hpc]; rfl)
  have hserves : (Fifo.spec α (2 ^ k)).serves (a.around t) a.object (.push item) (.pushed true)
      ⟨a.object.items ++ [item], a.object.closed, hbound⟩ :=
    Fifo.serves_push rfl rfl fun _ => hlate
  refine ⟨_, AtomicObject.Run.nil.serve hstatus hserves,
    hf.move ?_ hf.closed ?_ ?_ (fun _ => rfl) hf.returned id fun _ => hlate⟩
  · show a.object.items ++ [item] = _
    rw [hnew, hf.items, SharedQueue.setEnqueuePosition_dequeuePosition,
      List.drop_append_of_le_length (by omega)]
  · rfl
  · intro t'
    rw [hnew]
    have hknows' := hinv.knows t'
    -- a pop in its copy phase has claimed an older position
    cases hpc' : s.pc t' <;> simp only [hpc', Knows] at hknows' <;> simp only [Pc.status]
    case popCopy p => rw [List.getElem?_append_left (by omega)]
    case popStoreSequence p outItem => rw [List.getElem?_append_left (by omega)]

/-- A pop claims a position: it takes the oldest item. -/
lemma claimPop (hinv : Invariant k h s) (hf : Follows k h s a)
    (hbound : s.queue.enqueuePosition < 2 ^ 63)
    (hpc : s.pc t = .popExchange s.queue.dequeuePosition) :
    ∃ a', AtomicObject.Run (Fifo.spec α (2 ^ k)) a [] a' ∧
      Follows k (h ++ [.claimPop t s.queue.dequeuePosition])
        (s.move t (s.queue.setDequeuePosition (word (s.queue.dequeuePosition + 1)))
          (.popCopy s.queue.dequeuePosition)) a' := by
  have hknows := hinv.knows t
  rw [hpc] at hknows
  have hlt := (hknows.2 rfl).2
  have hlen := hinv.items_length
  have hnew : pushedItems (h ++ [.claimPop t s.queue.dequeuePosition]) = pushedItems h := by
    simp [pushedItems, pushClaims_snoc, Event.pushClaim]
  have hstatus := hf.status_eq hpc
  have hdrop : a.object.items = (pushedItems h)[s.queue.dequeuePosition] ::
      (pushedItems h).drop (s.queue.dequeuePosition + 1) := by
    rw [hf.items, List.drop_eq_getElem_cons (by omega)]
  have hlength : ((pushedItems h).drop (s.queue.dequeuePosition + 1)).length ≤ 2 ^ k := by
    have := a.object.length_le
    rw [hdrop, List.length_cons] at this
    omega
  have hserves : (Fifo.spec α (2 ^ k)).serves (a.around t) a.object .pop (.popped (some _))
      ⟨_, a.object.closed, hlength⟩ := Fifo.serves_pop hdrop rfl
  refine ⟨_, AtomicObject.Run.nil.serve hstatus hserves,
    hf.move ?_ hf.closed ?_ ?_ (fun _ => rfl) hf.returned id ?_⟩
  · rw [hnew, AtomicObject.serve_object, SharedQueue.setDequeuePosition_dequeuePosition,
      word_of_lt (by omega)]
  · show Function.update a.status t _ = Function.update a.status t (.served .pop (.popped _))
    rw [hnew, List.getElem?_eq_getElem (by omega)]
  · intro t'
    rw [hnew]
  · intro hpast
    simp [Pc.pastCheck, Pc.inPush] at hpast

/-- A successful operation returns. -/
lemma ret (hf : Follows k h s a) (hitems : pushedItems (h ++ [e]) = pushedItems h)
    (hdequeue : queue.dequeuePosition = s.queue.dequeuePosition)
    (hclosed : queue.closed = s.queue.closed) {op : Operation α} {r : Result α}
    (hserved : (s.pc t).status (pushedItems h) = .served op r) (hop : op ≠ .close)
    (he : e.action = some (.ret t r)) :
    ∃ a', AtomicObject.Run (Fifo.spec α (2 ^ k)) a e.action.toList a' ∧
      Follows k (h ++ [e]) (s.move t queue .idle) a' := by
  refine ⟨a.ret t op, ?_, hf.move ?_ ?_ rfl ?_ (fun _ => rfl) ?_ ?_ ?_⟩
  · rw [he]
    exact AtomicObject.Run.nil.ret (by rw [hf.status t, hserved])
  · rw [hitems, hdequeue, AtomicObject.ret_object, hf.items]
  · rw [hclosed, AtomicObject.ret_object, hf.closed]
  · intro t'
    rw [hitems]
  · rintro (hreturned | hclose)
    · rw [hclosed]
      exact hf.returned hreturned
    · exact absurd hclose.symm hop
  · rw [hclosed]
    exact id
  · intro hpast
    simp [Pc.pastCheck, Pc.inPush] at hpast

/-- An operation overlaps every other one that is in progress. -/
lemma overlaps (hf : Follows k h s a) (t' : ι)
    (ha : AtomicObject.Run (Fifo.spec α (2 ^ k)) (.create Fifo.empty) (actions h) a)
    (hne : t ≠ t') (ht : s.pc t ≠ .idle) {op : Operation α}
    (hop : ((s.pc t').status (pushedItems h)).operation = some op) : (a.around t).overlaps op := by
  refine ha.overlaps hne ?_ ?_
  · rwa [hf.status, ne_eq, Pc.status_eq_idle]
  · rwa [hf.status]

/-- A call records what had returned before. -/
lemma called (hf : Follows k h s a) {operation : Operation α} (hpc : s.pc t = .idle) :
    Follows k (h ++ [.call t operation]) (s.move t s.queue operation.entry)
      (a.call t operation) := by
  have hnew : pushedItems (h ++ [.call t operation]) = pushedItems h := by
    simp [pushedItems, pushClaims_snoc, Event.pushClaim]
  constructor
  case items => rw [hnew]; exact hf.items
  case closed => exact hf.closed
  case status =>
    intro t'
    by_cases ht : t' = t
    · subst ht
      cases operation <;> simp [Operation.entry, Pc.status]
    · simp [Function.update_of_ne ht, hf.status t', hnew]
  case returned => exact hf.returned
  case preceded =>
    intro t' hprec
    rw [AtomicObject.call_around] at hprec
    split at hprec
    · exact hf.returned hprec
    · exact hf.preceded t' hprec
  case late =>
    intro t' hpast
    by_cases ht : t' = t
    · subst ht
      cases operation <;> simp [Operation.entry, Pc.pastCheck, Pc.inPush] at hpast
    · rw [AtomicObject.call_around, if_neg ht]
      exact hf.late t' (by simpa [Function.update_of_ne ht] using hpast)

/-- The FIFO follows every step of the queue. -/
lemma step (hk' : k ≤ 63) (hinv : Invariant k h s)
    (hbound : s.queue.enqueuePosition + 2 ^ k ≤ 2 ^ 63)
    (ha : AtomicObject.Run (Fifo.spec α (2 ^ k)) (.create Fifo.empty) (actions h) a)
    (hf : Follows k h s a) (hs : Transition s.queue t (s.pc t) e queue pc) :
    ∃ a', AtomicObject.Run (Fifo.spec α (2 ^ k)) a e.action.toList a' ∧
      Follows k (h ++ [e]) (s.move t queue pc) a' := by
  have hpos : 0 < 2 ^ k := by positivity
  have hlen := hinv.items_length
  have hknows := hinv.knows t
  generalize hpc : s.pc t = pc₀ at hs hknows
  cases hs
  case call operation =>
    exact ⟨a.call t operation, AtomicObject.Run.nil.call (hf.status_eq hpc), hf.called hpc⟩
  case pushClosed item hclosed =>
    refine hf.finish (.push item) a.object (by simp [pushedItems, pushClaims_snoc, Event.pushClaim])
      rfl (by rw [hpc]; rfl) rfl (Fifo.serves_push_false (Or.inl (Or.inl ?_))) rfl hf.closed
      (by simp)
    rw [hf.closed, hclosed]
  case pushFull item p hd =>
    refine hf.finish (.push item) a.object (by simp [pushedItems, pushClaims_snoc, Event.pushClaim])
      rfl (by rw [hpc]; rfl) rfl (Fifo.serves_push_false ?_) rfl hf.closed (by simp)
    rcases hinv.cases_of_pushFull hbound hknows hd with hfull | ⟨t', p', -, hpop⟩
    · refine Or.inl (Or.inr ?_)
      rw [hf.items, List.length_drop]
      omega
    · refine Or.inr (hf.overlaps t' ha ?_ (by simp [hpc]) (Pc.operation_of_popping hpop))
      rintro rfl
      simp [hpc, Pc.popping] at hpop
  case popEmpty p hd =>
    refine hf.finish .pop a.object (by simp [pushedItems, pushClaims_snoc, Event.pushClaim])
      rfl (by rw [hpc]; rfl) rfl (Fifo.serves_pop_none ?_) rfl hf.closed (by simp)
    rcases hinv.cases_of_popEmpty hk' (by omega) hknows hd with hempty | ⟨t', hpush⟩
    · refine Or.inl ?_
      rw [hf.items, List.drop_eq_nil_iff]
      omega
    · obtain ⟨item, hop⟩ : ∃ item, ((s.pc t').status (pushedItems h)).operation =
          some (.push item) := Pc.operation_of_pushing hpush
      refine Or.inr ⟨item, hf.overlaps t' ha ?_ (by simp [hpc]) hop⟩
      rintro rfl
      simp [hpc, Pc.pushing] at hpush
  case pushClaim item => exact hf.claimPush hinv hpc
  case popClaim => exact hf.claimPop hinv (by omega) hpc
  case pushStored item p =>
    exact hf.ret (by simp [pushedItems, pushClaims_snoc, Event.pushClaim]) rfl rfl
      (by rw [hpc]; rfl) (by simp) rfl
  case popStored p outItem =>
    have hserved : (s.pc t).status (pushedItems h) = .served .pop (.popped (some outItem)) := by
      rw [hpc, Pc.status, hknows.2.2.2]
    exact hf.ret (by simp [pushedItems, pushClaims_snoc, Event.pushClaim]) rfl rfl hserved
      (by simp) rfl
  case close =>
    exact hf.finish .close a.object.close
      (by simp [pushedItems, pushClaims_snoc, Event.pushClaim]) rfl (by rw [hpc]; rfl) rfl
      (Or.inl rfl) rfl rfl fun _ => rfl
  case isClosed =>
    refine hf.finish .isClosed a.object
      (by simp [pushedItems, pushClaims_snoc, Event.pushClaim]) rfl (by rw [hpc]; rfl) rfl
      (Or.inl ?_) rfl hf.closed (by simp)
    rw [Fifo.serve, hf.closed]
  case pushOpen item hopen =>
    refine ⟨a, .nil, hf.quiet (by simp [pushedItems, pushClaims_snoc, Event.pushClaim]) rfl rfl
      (by rw [hpc]; rfl) ?_⟩
    -- the queue is open, so no close had returned when the push was called
    intro _ hprec
    rw [hf.preceded t hprec] at hopen
    cases hopen
  all_goals
    refine ⟨a, .nil, hf.quiet (by simp [pushedItems, pushClaims_snoc, Event.pushClaim]) rfl rfl
      (by rw [hpc]; rfl) ?_⟩
    have hlate := hf.late t
    rw [hpc] at hlate
    first | exact fun _ => hlate rfl | simp [Pc.pastCheck, Pc.inPush]

end Follows

/-- **The queue is linearizable.**  In every run in which the claimed positions
and one more lap stay within `2 ^ 63`, the calls and returns of all threads are
those of a bounded FIFO in which a push that overlaps a pop and a pop that overlaps a
push may in addition fail, and a push that was called before any close had returned
may append after the close. -/
theorem queue_linearizable [DecidableEq ι] {k : ℕ} (hk : 1 ≤ k) (hk' : k ≤ 63) (zero : α)
    {h : List (Event ι α)} {s : State ι α} (hrun : machine.Run (State.create zero (2 ^ k)) h s)
    (hbound : (pushClaims h).length + 2 ^ k ≤ 2 ^ 63) :
    Linearizable (Fifo.spec α (2 ^ k)) Fifo.empty (actions h) := by
  have hpos : 0 < 2 ^ k := by positivity
  refine linearizable_of_follows (fun h => (pushClaims h).length + 2 ^ k ≤ 2 ^ 63)
    (R := Follows k) ?_ (Follows.create zero) ?_ hrun hbound
  · intro h e hgood
    rw [pushClaims_snoc, List.length_append] at hgood
    omega
  · intro h s c e s' a hrun hgood ha hf hs
    rw [pushClaims_snoc, List.length_append] at hgood
    have hinv := Invariant.run hk hk' hrun (by omega)
    obtain ⟨t, queue, pc, htr, rfl⟩ := step_inv hs
    exact hf.step hk' hinv (by rw [hinv.enqueue_eq]; omega) ha htr

/-- Two slots; a push that another one overtakes, then a pop. -/
theorem queue_linearizable_overtaken :
    Linearizable (Fifo.spec ℕ (2 ^ 1)) Fifo.empty
      (actions (machine.exec (State.create 0 (2 ^ 1) : State (Fin 3) ℕ) popOvertaken).1) :=
  queue_linearizable le_rfl (by norm_num) 0 (machine.run_exec _ popOvertaken) (by decide)

end BcConcurrency.Queue
