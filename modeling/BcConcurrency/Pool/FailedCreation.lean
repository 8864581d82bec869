import BcConcurrency.Pool.Creation

/-!
# A failed creation

What `bc_concurrency_create` has given back when it returns `false`.  The blocks
are always given back.  When a memory context cannot be created, however, the
synchronisation objects of that worker are already initialised, and the unwinding
at `fail_workers` only visits the workers before it.
-/

namespace BcConcurrency

namespace Pool

/-! ### The events of the workers -/

/-- The events of setting up a worker. -/
def setupEvents (worker : ℕ) : List PoolEvent := [.syncInitialised worker, .memoryCreated worker]

/-- The events of the unwinding of a worker. -/
def unwindEvents (worker : ℕ) : List PoolEvent := [.memoryDestroyed worker, .syncDestroyed worker]

section Workers

variable {memoryGrants : ℕ → Bool} {i n created : ℕ} {memory memory' : Memory}

/-- The loop over the workers gets to its end only if all of them get a memory context. -/
lemma memoryGrants_of_initWorkers
    (h : initWorkers memoryGrants i n memory = (true, created, memory')) {worker : ℕ}
    (hle : i ≤ worker) (hlt : worker < i + n) : memoryGrants worker = true := by
  induction n generalizing i memory with
  | zero => omega
  | succ n ih =>
    rw [initWorkers] at h
    split at h
    case isTrue hgrant =>
      rcases hle.eq_or_lt with rfl | hlt'
      · exact hgrant
      · exact ih h hlt' (by omega)
    case isFalse => cases h

/-- The loop over the workers stops at the first one whose memory context cannot be
created, and then the synchronisation objects of that worker are initialised. -/
lemma notes_of_initWorkers_false
    (h : initWorkers memoryGrants i n memory = (false, created, memory')) :
    i ≤ created ∧ created < i + n ∧ memoryGrants created = false ∧
      Heap.notes memory'.log = Heap.notes memory.log ++
        (List.range' i (created - i)).flatMap setupEvents ++ [.syncInitialised created] := by
  induction n generalizing i memory with
  | zero => cases h
  | succ n ih =>
    rw [initWorkers] at h
    split at h
    case isTrue =>
      obtain ⟨hle, hlt, hfalse, hnotes⟩ := ih h
      refine ⟨by omega, by omega, hfalse, ?_⟩
      have hrange : List.range' i (created - i) =
          i :: List.range' (i + 1) (created - (i + 1)) := by
        rw [show created - i = created - (i + 1) + 1 by omega, List.range'_succ]
      rw [hnotes, hrange]
      simp [setupEvents, List.append_assoc]
    case isFalse hrefuse =>
      cases h
      exact ⟨le_rfl, by omega, by simpa using hrefuse, by simp⟩

end Workers

lemma unwindWorkers_notes (count : ℕ) (memory : Memory) :
    Heap.notes (unwindWorkers count memory).log =
      Heap.notes memory.log ++ (List.range count).flatMap unwindEvents := by
  induction count with
  | zero => simp [unwindWorkers]
  | succ count ih => simp [unwindWorkers, ih, List.range_succ, unwindEvents]

/-- Of events made for one number after the other, those of worker `w` only come from
its own turn. -/
lemma filter_flatMap_range {f : ℕ → List PoolEvent} {p : PoolEvent → Bool} {w : ℕ}
    (hother : ∀ i, i ≠ w → (f i).filter p = []) (n : ℕ) :
    ((List.range n).flatMap f).filter p = if w < n then (f w).filter p else [] := by
  induction n with
  | zero => simp
  | succ n ih =>
    rw [List.range_succ, List.flatMap_append, List.filter_append, ih, List.flatMap_singleton]
    rcases lt_trichotomy w n with hlt | rfl | hgt
    · rw [if_pos hlt, if_pos (by omega), hother n (by omega), List.append_nil]
    · rw [if_neg (by omega), if_pos (by omega), List.nil_append]
    · rw [if_neg (by omega), if_neg (by omega), hother n (by omega), List.append_nil]

/-! ### The outcome -/

/-- The synchronisation objects of a worker, from first to last. -/
def syncEvents (worker : ℕ) : List PoolEvent := [.syncInitialised worker, .syncDestroyed worker]

/-- The memory context of a worker, from first to last. -/
def contextEvents (worker : ℕ) : List PoolEvent := [.memoryCreated worker, .memoryDestroyed worker]

/-- Of the events of one object either none occurs, or all of them occur once and in
their order. -/
def Paired (object events : List PoolEvent) : Prop :=
  events.filter (· ∈ object) = [] ∨ events.filter (· ∈ object) = object

instance (object events : List PoolEvent) : Decidable (Paired object events) :=
  inferInstanceAs (Decidable (_ ∨ _))

/-- Everything acquired between two states of the pool has been given back: the blocks
in use are those of before, and the objects set up on the way are destroyed. -/
structure Unwound (memory memory' : Memory) (foreign : Multiset ℕ) : Prop where
  blocks : memory'.Owns foreign
  events : ∃ events, Heap.notes memory'.log = Heap.notes memory.log ++ events ∧
    ∀ worker, Paired (syncEvents worker) events ∧ Paired (contextEvents worker) events

lemma Unwound.of_notes_eq {memory memory' : Memory} {foreign : Multiset ℕ}
    (hown : memory'.Owns foreign) (hnotes : Heap.notes memory'.log = Heap.notes memory.log) :
    Unwound memory memory' foreign :=
  ⟨hown, [], by rw [hnotes, List.append_nil], fun _ => ⟨Or.inl rfl, Or.inl rfl⟩⟩

/-- The events of an unwinding that starts at worker `k`. -/
lemma not_paired_unwind (k : ℕ) :
    ¬ Paired (syncEvents k) ((List.range k).flatMap setupEvents ++ [.syncInitialised k] ++
      (List.range k).flatMap unwindEvents) := by
  have hsetup (i : ℕ) (hi : i ≠ k) : (setupEvents i).filter (· ∈ syncEvents k) = [] := by
    simp [setupEvents, syncEvents, hi]
  have hunwind (i : ℕ) (hi : i ≠ k) : (unwindEvents i).filter (· ∈ syncEvents k) = [] := by
    simp [unwindEvents, syncEvents, hi]
  have hfilter : ((List.range k).flatMap setupEvents ++ [PoolEvent.syncInitialised k] ++
      (List.range k).flatMap unwindEvents).filter (· ∈ syncEvents k) = [.syncInitialised k] := by
    rw [List.filter_append, List.filter_append, filter_flatMap_range hsetup,
      filter_flatMap_range hunwind, if_neg (lt_irrefl k), if_neg (lt_irrefl k)]
    simp [syncEvents]
  rw [Paired, hfilter]
  simp [syncEvents]

section Create

variable {memory memory' : Memory} {physicalCoreCount : ℕ} {config : Option Config}
  {stagingGrows memoryGrants : ℕ → Bool} {foreign : Multiset ℕ} {result : Option Context}

/-- The call fails: it is rejected, or refused a block or a memory context. -/
def CreateFails (memory : Memory) (physicalCoreCount : ℕ) (config : Option Config)
    (memoryGrants : ℕ → Bool) : Prop :=
  ¬ Accepted physicalCoreCount config ∨
    memory.grantsAll (requestSizes (threadCountOf physicalCoreCount config)) = false ∨
    ∃ worker ≤ threadCountOf physicalCoreCount config, memoryGrants worker = false

/-- A failing creation returns `false` and has given back everything it acquired, unless
it fails because a memory context cannot be created. -/
theorem failed_creation_unwound_iff (hown : memory.Owns foreign)
    (h : create memory physicalCoreCount config stagingGrows memoryGrants = (result, memory')) :
    (CreateFails memory physicalCoreCount config memoryGrants →
        result = none ∧ Unwound memory memory' foreign) ↔
      ¬ (Accepted physicalCoreCount config ∧
        memory.grantsAll (requestSizes (threadCountOf physicalCoreCount config)) = true ∧
        ∃ worker ≤ threadCountOf physicalCoreCount config, memoryGrants worker = false) := by
  have hcases := create_cases memory physicalCoreCount config stagingGrows memoryGrants
  rw [h] at hcases
  cases hcases with
  | rejected hrejected =>
    exact iff_of_true (fun _ => ⟨rfl, .of_notes_eq hown rfl⟩) fun hcond => hrejected hcond.1
  | refused hgranted hrefused hsizes =>
    refine iff_of_true (fun _ => ⟨rfl, .of_notes_eq (hgranted.owns_unwound hrefused hown)
      (hgranted.notes_unwound hrefused)⟩) ?_
    intro hcond
    have hall := hcond.2.1
    rw [hsizes, hgranted.not_grantsAll hrefused] at hall
    cases hall
  | failed haccepted hgranted hinit =>
    obtain ⟨-, hlt, hfalse, hlog⟩ := notes_of_initWorkers_false hinit
    have hcond : ∃ worker ≤ threadCountOf physicalCoreCount config,
        memoryGrants worker = false := ⟨_, by omega, hfalse⟩
    refine iff_of_false ?_ fun hnot => hnot ⟨haccepted, hgranted.grantsAll, hcond⟩
    intro hprop
    -- the worker at which the loop stopped is not visited by the unwinding
    obtain ⟨-, -, events, hevents, hpaired⟩ := hprop (Or.inr (Or.inr hcond))
    rw [Heap.notes_freeAll, unwindWorkers_notes, hlog, hgranted.notes, Nat.sub_zero,
      ← List.range_eq_range', List.append_assoc, List.append_assoc,
      List.append_cancel_left_eq, ← List.append_assoc] at hevents
    exact not_paired_unwind _ (hevents ▸ (hpaired _).1)
  | created haccepted hgranted hinit =>
    have hcontexts : ¬ ∃ worker ≤ threadCountOf physicalCoreCount config,
        memoryGrants worker = false := by
      rintro ⟨worker, hle, hfalse⟩
      rw [memoryGrants_of_initWorkers hinit worker.zero_le (by omega)] at hfalse
      cases hfalse
    refine iff_of_true ?_ fun hcond => hcontexts hcond.2.2
    intro hfails
    rcases hfails with hnaccepted | hngrants | hex
    · exact absurd haccepted hnaccepted
    · rw [hgranted.grantsAll] at hngrants
      cases hngrants
    · exact absurd hex hcontexts

/-- Two workers, and the block of the workers is refused: everything is given back. -/
theorem failed_creation_unwound_refused :
    let memory : Memory := ⟨fun request => request != 5, 0, 0, [], []⟩
    ∃ memory', create memory 2 none (fun _ => false) (fun _ => true) = (none, memory') ∧
      Unwound memory memory' 0 := by
  intro memory
  have hcreate : create memory 2 none (fun _ => false) (fun _ => true) = (none, _) := rfl
  have hrefused : memory.grantsAll (requestSizes (threadCountOf 2 none)) = false := rfl
  refine ⟨_, hcreate, ((failed_creation_unwound_iff Heap.Owns.empty hcreate).mpr ?_ ?_).2⟩
  · rintro ⟨-, hgrants, -⟩
    exact Bool.noConfusion (hrefused.symm.trans hgrants)
  · exact Or.inr (Or.inl hrefused)

/-- With one thread and no memory context for it, the synchronisation objects of its
worker are initialised and never destroyed. -/
theorem failed_creation_keeps_sync :
    let memory : Memory := ⟨fun _ => true, 0, 0, [], []⟩
    (create memory 2 none (fun _ => false) (fun _ => false)).1 = none ∧
      ¬ Unwound memory (create memory 2 none (fun _ => false) (fun _ => false)).2 0 := by
  refine ⟨rfl, ?_⟩
  rintro ⟨-, events, hevents, hpaired⟩
  have hlog : events = [.syncInitialised 0] := hevents.symm
  have hsync := (hpaired 0).1
  rw [hlog] at hsync
  revert hsync
  decide

end Create

end Pool

end BcConcurrency
