import Mathlib.Tactic

/-!
# Release, acquire and relaxed accesses

The view semantics of the release/acquire fragment of the C memory model.  An
atomic location keeps all messages written to it, each at a timestamp, the order
of which is the modification order.  A thread has a view: for every location the
timestamp below which it can no longer read.  A load may return any message that
the view admits, so it may be stale; an acquire load adds the view that a
message carries, and a release store lets its message carry the view of the
thread.  A compare-and-exchange that succeeds writes right after the message
that it read.

Plain accesses are checked for data races.  Every thread counts its plain
accesses; the count is part of its view, and an access races with an earlier
conflicting one that the view does not cover.  This is the happens-before race
of vector clocks.
-/

namespace BcConcurrency

/-- For every location the newest timestamp that is known. -/
abbrev View (L : Type*) := L → ℕ

/-- A value written to an atomic location, with the view it carries. -/
structure Message (V L : Type*) where
  value : V
  view : View L

/-- The messages of an atomic location, by their timestamps. -/
abbrev Cell (V L : Type*) := ℕ → Option (Message V L)

namespace View

variable {L : Type*} [DecidableEq L]

/-- Learn a timestamp of a location. -/
def see (view : View L) (location : L) (time : ℕ) : View L :=
  Function.update view location (max (view location) time)

lemma le_see (view : View L) (location : L) (time : ℕ) : view ≤ view.see location time := by
  intro location'
  by_cases hl : location' = location
  · subst hl
    simp [see]
  · simp [see, Function.update_of_ne hl]

@[simp] lemma see_self (view : View L) (location : L) (time : ℕ) :
    view.see location time location = max (view location) time := by
  simp [see]

end View

namespace Cell

variable {V L : Type*}

/-- A location with its initial value, which every thread has seen. -/
def init (value : V) : Cell V L := fun time => if time = 0 then some ⟨value, ⊥⟩ else none

/-- The message is the newest one of the location. -/
def Latest (cell : Cell V L) (time : ℕ) (message : Message V L) : Prop :=
  cell time = some message ∧ ∀ time', time < time' → cell time' = none

/-- The values of the messages increase along the modification order. -/
def Increasing (cell : Cell ℕ L) : Prop :=
  ∀ time time' message message', time < time' → cell time = some message →
    cell time' = some message' → message.value < message'.value

/-- The location has counted from 0 to `n`, one message for every number. -/
def Counted (cell : Cell ℕ L) (n : ℕ) : Prop :=
  ∀ time, (cell time).map Message.value = if time ≤ n then some time else none

lemma latest_init (value : V) : (init value : Cell V L).Latest 0 ⟨value, ⊥⟩ := by
  refine ⟨rfl, ?_⟩
  intro time htime
  simp [init, htime.ne']

lemma increasing_init (value : ℕ) : (init value : Cell ℕ L).Increasing := by
  intro time time' message message' hlt _ htime'
  simp [init, (Nat.zero_le time).trans_lt hlt |>.ne'] at htime'

lemma counted_init : (init 0 : Cell ℕ L).Counted 0 := by
  intro time
  by_cases htime : time = 0
  · subst htime
    simp [init]
  · simp [init, htime]

lemma Latest.time_le {cell : Cell V L} {time time' : ℕ} {message message' : Message V L}
    (hl : cell.Latest time message) (hm : cell time' = some message') : time' ≤ time := by
  by_contra hlt
  rw [hl.2 time' (by omega)] at hm
  cases hm

lemma Latest.unique {cell : Cell V L} {time time' : ℕ} {message message' : Message V L}
    (hl : cell.Latest time message) (hl' : cell.Latest time' message') :
    time' = time ∧ message' = message := by
  obtain rfl := le_antisymm (hl.time_le hl'.1) (hl'.time_le hl.1)
  exact ⟨rfl, Option.some_injective _ (hl'.1.symm.trans hl.1)⟩

lemma Latest.eq_of_le {cell : Cell V L} {time time' : ℕ} {message message' : Message V L}
    (hl : cell.Latest time message) (hm : cell time' = some message') (hle : time ≤ time') :
    message' = message := by
  obtain rfl := le_antisymm hle (hl.time_le hm)
  rw [hl.1] at hm
  exact (Option.some_injective _ hm).symm

/-- A message of an increasing location is the newest one or has a smaller value. -/
lemma Latest.value_le {cell : Cell ℕ L} {time time' : ℕ} {message message' : Message ℕ L}
    (hl : cell.Latest time message) (hi : cell.Increasing) (hm : cell time' = some message') :
    message' = message ∨ message'.value < message.value := by
  rcases (hl.time_le hm).lt_or_eq with hlt | rfl
  · exact Or.inr (hi _ _ _ _ hlt hm hl.1)
  · exact Or.inl (hl.eq_of_le hm le_rfl)

lemma Counted.value_le {cell : Cell ℕ L} {n time : ℕ} {message : Message ℕ L}
    (hc : cell.Counted n) (hm : cell time = some message) :
    time ≤ n ∧ message.value = time := by
  have h := hc time
  rw [hm] at h
  by_cases hle : time ≤ n
  · simpa [hle] using h
  · simp [hle] at h

/-- The next number of a counting location is free only after the last one. -/
lemma Counted.eq_of_free {cell : Cell ℕ L} {n time : ℕ} {message : Message ℕ L}
    (hc : cell.Counted n) (hm : cell time = some message) (hfree : cell (time + 1) = none) :
    time = n := by
  have hle := (hc.value_le hm).1
  have h := hc (time + 1)
  rw [hfree] at h
  by_contra hne
  rw [if_pos (by omega)] at h
  cases h

lemma Counted.succ {cell : Cell ℕ L} {n : ℕ} (hc : cell.Counted n) (view : View L) :
    Counted (Function.update cell (n + 1) (some ⟨n + 1, view⟩)) (n + 1) := by
  intro time
  by_cases htime : time = n + 1
  · subst htime
    simp
  · rw [Function.update_of_ne htime, hc time]
    by_cases hle : time ≤ n
    · simp [hle, Nat.le_succ_of_le hle]
    · rw [if_neg hle, if_neg (by omega)]

/-- A message written after the newest one is the newest one. -/
lemma Latest.store {cell : Cell V L} {message : Message V L} {newest time : ℕ}
    (hl : cell.Latest newest message) (hlt : newest < time) (message' : Message V L) :
    Latest (Function.update cell time (some message')) time message' := by
  refine ⟨by simp, ?_⟩
  intro time' htime'
  rw [Function.update_of_ne htime'.ne']
  exact hl.2 time' (by omega)

lemma Increasing.store {cell : Cell ℕ L} {message message' : Message ℕ L} {newest time : ℕ}
    (hi : cell.Increasing) (hl : cell.Latest newest message) (hlt : newest < time)
    (hvalue : message.value < message'.value) :
    Increasing (Function.update cell time (some message')) := by
  intro time₁ time₂ message₁ message₂ htime h₁ h₂
  by_cases heq₁ : time₁ = time
  · subst heq₁
    rw [Function.update_of_ne htime.ne', hl.2 _ (by omega)] at h₂
    cases h₂
  rw [Function.update_of_ne heq₁] at h₁
  by_cases heq₂ : time₂ = time
  · subst heq₂
    rw [Function.update_self, Option.some.injEq] at h₂
    subst h₂
    rcases hl.value_le hi h₁ with rfl | hle <;> omega
  · rw [Function.update_of_ne heq₂] at h₂
    exact hi _ _ _ _ htime h₁ h₂

/-! ### The accesses of a thread -/

variable [DecidableEq L]

/-- A relaxed load that reads the message at `time`. -/
def load (cell : Cell V L) (location : L) (view : View L) (time : ℕ) : Option (V × View L) :=
  match cell time with
  | some message =>
      if view location ≤ time then some (message.value, view.see location time) else none
  | none => none

/-- An acquire load that reads the message at `time`. -/
def loadAcquire (cell : Cell V L) (location : L) (view : View L) (time : ℕ) :
    Option (V × View L) :=
  match cell time with
  | some message =>
      if view location ≤ time then
        some (message.value, view.see location time ⊔ message.view)
      else none
  | none => none

/-- A release store at a free time after what the thread has seen. -/
def storeRelease (cell : Cell V L) (location : L) (view : View L) (time : ℕ) (value : V) :
    Option (Cell V L × View L) :=
  if view location < time ∧ (cell time).isNone then
    some (Function.update cell time (some ⟨value, view.see location time⟩),
      view.see location time)
  else none

/-- A relaxed compare-and-exchange that succeeds on the message at `time`. -/
def exchange [DecidableEq V] (cell : Cell V L) (location : L) (view : View L) (time : ℕ)
    (expected desired : V) : Option (Cell V L × View L) :=
  match cell time with
  | some message =>
      if view location ≤ time ∧ message.value = expected ∧ (cell (time + 1)).isNone then
        some (Function.update cell (time + 1)
            (some ⟨desired, message.view.see location (time + 1)⟩),
          view.see location (time + 1))
      else none
  | none => none

variable {cell cell' : Cell V L} {location : L} {view view' : View L} {time : ℕ} {value : V}

lemma load_inv (h : cell.load location view time = some (value, view')) :
    (∃ message, cell time = some message ∧ message.value = value) ∧ view ≤ view' := by
  unfold load at h
  cases hm : cell time with
  | none => simp [hm] at h
  | some message =>
    simp only [hm] at h
    split at h
    · cases h
      exact ⟨⟨message, rfl, rfl⟩, view.le_see _ _⟩
    · cases h

lemma loadAcquire_inv (h : cell.loadAcquire location view time = some (value, view')) :
    ∃ message, cell time = some message ∧ message.value = value ∧ view ≤ view' ∧
      message.view ≤ view' ∧ time ≤ view' location := by
  unfold loadAcquire at h
  cases hm : cell time with
  | none => simp [hm] at h
  | some message =>
    simp only [hm] at h
    split at h
    · cases h
      refine ⟨message, rfl, rfl, (view.le_see _ _).trans le_sup_left, le_sup_right, ?_⟩
      have hle : view.see location time ≤ view.see location time ⊔ message.view := le_sup_left
      exact le_trans (by simp) (hle location)
    · cases h

lemma storeRelease_inv (h : cell.storeRelease location view time value = some (cell', view')) :
    view location < time ∧ cell time = none ∧ view ≤ view' ∧ time ≤ view' location ∧
      cell' = Function.update cell time (some ⟨value, view'⟩) := by
  unfold storeRelease at h
  split at h
  next hfree =>
    cases h
    exact ⟨hfree.1, by simpa using hfree.2, view.le_see _ _, by simp, rfl⟩
  next => cases h

lemma exchange_inv [DecidableEq V] {expected desired : V}
    (h : cell.exchange location view time expected desired = some (cell', view')) :
    ∃ message message' : Message V L, cell time = some message ∧ message.value = expected ∧
      cell (time + 1) = none ∧ view ≤ view' ∧ message'.value = desired ∧
      cell' = Function.update cell (time + 1) (some message') := by
  unfold exchange at h
  cases hm : cell time with
  | none => simp [hm] at h
  | some message =>
    simp only [hm] at h
    split at h
    next hfree =>
      cases h
      exact ⟨message, _, rfl, hfree.2.1, by simpa using hfree.2.2, view.le_see _ _, rfl, rfl⟩
    next => cases h

end Cell

/-! ### Plain locations -/

/-- A plain access, with the count of it among those of its thread. -/
structure PlainAccess (ι : Type*) where
  thread : ι
  count : ℕ
  write : Bool

/-- A plain location with its value and the accesses made so far. -/
structure Plain (α ι : Type*) where
  value : α
  accesses : List (PlainAccess ι)

namespace Plain

variable {α ι L : Type*} {counter : ι → L} {view view' : View L}

/-- The next access with this view races: an earlier one, with a write among
the two, is not covered by the view. -/
def Races (location : Plain α ι) (counter : ι → L) (view : View L) (write : Bool) : Prop :=
  ∃ access ∈ location.accesses, (access.write = true ∨ write = true) ∧
    view (counter access.thread) < access.count

/-- The view covers every access made so far. -/
def Covered (location : Plain α ι) (counter : ι → L) (view : View L) : Prop :=
  ∀ access ∈ location.accesses, access.count ≤ view (counter access.thread)

/-- Record an access. -/
def record (location : Plain α ι) (thread : ι) (count : ℕ) (write : Bool) : Plain α ι :=
  { location with accesses := ⟨thread, count, write⟩ :: location.accesses }

lemma Covered.not_races {location : Plain α ι} (hc : location.Covered counter view) (write : Bool) :
    ¬ location.Races counter view write := by
  rintro ⟨access, hmem, -, hlt⟩
  exact absurd (hc access hmem) (by omega)

lemma Covered.mono {location : Plain α ι} (hc : location.Covered counter view)
    (hle : view ≤ view') : location.Covered counter view' := fun access hmem =>
  (hc access hmem).trans (hle _)

lemma Covered.record {location : Plain α ι} (hc : location.Covered counter view) {thread : ι}
    {count : ℕ} (write : Bool) (hcount : count ≤ view (counter thread)) :
    (location.record thread count write).Covered counter view := by
  intro access hmem
  rcases List.mem_cons.mp hmem with rfl | hmem
  · exact hcount
  · exact hc access hmem

end Plain

end BcConcurrency
