import BcConcurrency.Queue.ExactlyOnce

/-!
# Draining a closed queue

The consumers of the queue's stress test pop until a pop fails, then look at
the closed flag, and leave once a pop has failed after they have seen the flag
set.  If all pushes have returned before the queue is closed, a consumer leaves
only when every pushed item has been claimed.
-/

namespace BcConcurrency.Queue

variable {ι α : Type*}

/-! ### What a failed pop says about the counters -/

namespace Invariant

variable {k : ℕ} {h : List (Event ι α)} {s : State ι α}

/-- The slot of a claimed position of the window is being filled or full, that of
another one is free or still being emptied of the position a lap before. -/
lemma slotSequence_of_window (hinv : Invariant k h s) {b : ℕ} (hD : s.queue.dequeuePosition ≤ b)
    (hb : b < s.queue.dequeuePosition + 2 ^ k) :
    (b < s.queue.enqueuePosition ∧ b ≤ s.queue.slotSequence b ∧ s.queue.slotSequence b ≤ b + 1) ∨
      (s.queue.enqueuePosition ≤ b ∧
        (s.queue.slotSequence b = b ∨ s.queue.slotSequence b + 2 ^ k = b + 1)) := by
  by_cases hE : b < s.queue.enqueuePosition
  · rcases hinv.full b hD hE with ⟨t, hpt⟩ | ⟨hs, -⟩
    · have := (hinv.knows_of_pushing hpt).2.2
      omega
    · omega
  · rcases hinv.free b (by omega) hb with hs | ⟨t, p', hpp', hpt⟩
    · omega
    · have hs := (hinv.knows_of_popping hpt).2.2
      have hcongr : s.queue.slotSequence b = s.queue.slotSequence p' :=
        hinv.slotSequence_congr (by simp [hpp'])
      omega

/-- The slot of a popped position is at least one step ahead of it, and less
than `2 ^ 63` steps. -/
lemma slotSequence_bounds (hk' : k ≤ 63) (hinv : Invariant k h s)
    (hbound : s.queue.enqueuePosition < 2 ^ 63) {p : ℕ} (hp : p < s.queue.dequeuePosition) :
    p + 1 ≤ s.queue.slotSequence p ∧ s.queue.slotSequence p ≤ p + 2 ^ 63 := by
  have hDE := hinv.dequeue_le
  have hpos : 0 < 2 ^ k := by positivity
  obtain ⟨b, hDb, hbD, hmod⟩ := Ring.exists_representative hpos p s.queue.dequeuePosition
  have hlap : p + 2 ^ k ≤ b := Ring.add_le_of_mod_eq hmod.symm (by omega)
  have hfar : b ≤ p + 2 ^ 63 := by
    have hmod' : p % 2 ^ k = (b - 2 ^ k) % 2 ^ k := by
      rw [← hmod, ← Nat.add_mod_right (b - 2 ^ k), Nat.sub_add_cancel (by omega)]
    have := Ring.add_pow_le_of_mod_eq hk' hmod' (by omega) (by omega)
    omega
  rw [hinv.slotSequence_congr hmod.symm]
  have := hinv.slotSequence_of_window hDb hbD
  omega

/-- A pop that finds its slot behind has the current position; the queue is empty
or the push that has claimed the position is still in its copy phase. -/
lemma cases_of_popEmpty (hk' : k ≤ 63) (hinv : Invariant k h s)
    (hbound : s.queue.enqueuePosition < 2 ^ 63) {p : ℕ} (hp : p ≤ s.queue.dequeuePosition)
    (hd : signedDifference (s.queue.slotSequence p) (word (p + 1)) < 0) :
    s.queue.dequeuePosition = s.queue.enqueuePosition ∨
      ∃ t, (s.pc t).pushing = some s.queue.dequeuePosition := by
  have hDE := hinv.dequeue_le
  rw [word_of_lt (by omega)] at hd
  have hbehind : ¬ (p + 1 ≤ s.queue.slotSequence p ∧ s.queue.slotSequence p ≤ p + 2 ^ 63) := by
    intro hseq
    rw [signedDifference_of_near (by omega) (by omega)] at hd
    omega
  rcases hp.lt_or_eq with hpD | rfl
  · exact absurd (hinv.slotSequence_bounds hk' hbound hpD) hbehind
  · rcases hDE.lt_or_eq with hlt | heq
    · rcases hinv.full _ le_rfl hlt with hpush | ⟨hs, -⟩
      · exact Or.inr hpush
      · omega
    · exact Or.inl heq

/-- If no push is in its copy phase, a pop that finds its slot behind has seen an
empty queue: all positions have been claimed by pops. -/
lemma empty_of_popEmpty (hk' : k ≤ 63) (hinv : Invariant k h s)
    (hbound : s.queue.enqueuePosition < 2 ^ 63) (hpush : ∀ t, (s.pc t).pushing = none) {p : ℕ}
    (hp : p ≤ s.queue.dequeuePosition)
    (hd : signedDifference (s.queue.slotSequence p) (word (p + 1)) < 0) :
    s.queue.dequeuePosition = s.queue.enqueuePosition := by
  rcases hinv.cases_of_popEmpty hk' hbound hp hd with hempty | ⟨t, hpt⟩
  · exact hempty
  · rw [hpush] at hpt
    cases hpt

end Invariant

/-! ### The drain loop and the order of pushes and close -/

/-- Where a consumer is in its drain loop, between and in its calls. -/
inductive DrainPc
  | loop
  | firstPop
  | check
  | checking
  | lastPop
  | lastPopping
  | exited
deriving DecidableEq

variable [DecidableEq ι]

/-- How an event of the history moves a consumer through its loop; `none` if
the loop does not make that call. -/
def drainStep (t : ι) (pc : DrainPc) : Event ι α → Option DrainPc
  | .call t' operation =>
      if t' = t then
        match pc, operation with
        | .loop, .pop => some .firstPop
        | .check, .isClosed => some .checking
        | .lastPop, .pop => some .lastPopping
        | _, _ => none
      else some pc
  | .popTrue t' _ _ => if t' = t then some .loop else some pc
  | .popFalse t' =>
      if t' = t then (match pc with | .lastPopping => some .exited | _ => some .check) else some pc
  | .isClosedReturn t' closed =>
      if t' = t then (if closed then some .lastPop else some .loop) else some pc
  | _ => some pc

/-- Where a consumer is after a history, if its calls are those of the loop. -/
def drainPc (t : ι) (h : List (Event ι α)) : Option DrainPc :=
  h.foldlM (drainStep t) .loop

/-- The thread has an open call of push after a history. -/
def pushOpen (t : ι) (h : List (Event ι α)) : Bool :=
  h.foldl (fun isOpen e =>
    match e with
    | .call t' (.push _) => if t' = t then true else isOpen
    | .pushTrue t' _ _ => if t' = t then false else isOpen
    | .pushFalse t' => if t' = t then false else isOpen
    | _ => isOpen) false

/-- The event is a call of push. -/
def Event.isPushCall : Event ι α → Bool
  | .call _ (.push _) => true
  | _ => false

/-- Every push call has returned before close is called. -/
def PushesReturnBeforeClose (h : List (Event ι α)) : Prop :=
  ∀ i < h.length, ∀ t, h[i]? = some (.call t .close) →
    (∀ t', pushOpen t' (h.take i) = false) ∧ ∀ e ∈ h.drop (i + 1), e.isPushCall = false

instance [Fintype ι] [DecidableEq α] (h : List (Event ι α)) :
    Decidable (PushesReturnBeforeClose h) :=
  inferInstanceAs (Decidable (∀ i < h.length, ∀ t, h[i]? = some (.call t .close) →
    (∀ t', pushOpen t' (h.take i) = false) ∧ ∀ e ∈ h.drop (i + 1), e.isPushCall = false))

lemma drainPc_snoc (t : ι) (h : List (Event ι α)) (e : Event ι α) :
    drainPc t (h ++ [e]) = (drainPc t h).bind fun pc => drainStep t pc e := by
  simp [drainPc, List.foldlM_append]

lemma pushOpen_snoc (t : ι) (h : List (Event ι α)) (e : Event ι α) :
    pushOpen t (h ++ [e]) =
      match e with
      | .call t' (.push _) => if t' = t then true else pushOpen t h
      | .pushTrue t' _ _ => if t' = t then false else pushOpen t h
      | .pushFalse t' => if t' = t then false else pushOpen t h
      | _ => pushOpen t h := by
  simp [pushOpen, List.foldl_append]

lemma pushOpen_append_of_no_call {t : ι} {h h' : List (Event ι α)} (hopen : pushOpen t h = false)
    (hcall : ∀ e ∈ h', e.isPushCall = false) : pushOpen t (h ++ h') = false := by
  induction h' using List.reverseRecOn with
  | nil => simpa using hopen
  | append_singleton h' e ih =>
    rw [← List.append_assoc, pushOpen_snoc]
    have ih := ih fun e he => hcall e (List.mem_append_left _ he)
    have he := hcall e (by simp)
    split <;> try split_ifs
    all_goals first | rfl | exact ih | simp [Event.isPushCall] at he

namespace PushesReturnBeforeClose

variable {h h' : List (Event ι α)}

lemma of_append (hclose : PushesReturnBeforeClose (h ++ h')) : PushesReturnBeforeClose h := by
  intro i hi t he
  obtain ⟨hopen, hcall⟩ := hclose i (by rw [List.length_append]; omega) t
    (by rwa [List.getElem?_append_left hi])
  refine ⟨?_, fun e he' => hcall e ?_⟩
  · intro t'
    simpa [List.take_append_of_le_length hi.le] using hopen t'
  · rw [List.drop_append_of_le_length (by omega)]
    exact List.mem_append_left _ he'

/-- Once close has been called no push call is open, and none follows. -/
lemma pushOpen_eq_false (hclose : PushesReturnBeforeClose h) {t : ι} (he : .call t .close ∈ h)
    (t' : ι) : pushOpen t' h = false := by
  obtain ⟨i, hi, hget⟩ := List.mem_iff_getElem.mp he
  obtain ⟨hopen, hcall⟩ := hclose i hi t (by simp [hi, hget])
  have hsplit : h = h.take i ++ h.drop i := (List.take_append_drop i h).symm
  rw [hsplit]
  refine pushOpen_append_of_no_call (hopen t') ?_
  intro e hmem
  rw [List.drop_eq_getElem_cons hi, hget, List.mem_cons] at hmem
  rcases hmem with rfl | hmem
  · rfl
  · exact hcall e hmem

end PushesReturnBeforeClose

/-! ### The calls of a run -/

/-- The thread is inside of a push. -/
def Pc.inPush : Pc α → Bool
  | .pushLoadClosed _ | .pushLoadPosition _ | .pushLoadSequence _ _ | .pushExchange _ _
  | .pushCopy _ _ | .pushStoreSequence _ _ => true
  | _ => false

/-- The thread is inside of a pop. -/
def Pc.inPop : Pc α → Bool
  | .popLoadPosition | .popLoadSequence _ | .popExchange _ | .popCopy _
  | .popStoreSequence _ _ => true
  | _ => false

/-- What the history says about the calls in progress and about the flag. -/
structure Sessions (h : List (Event ι α)) (s : State ι α) : Prop where
  inPush : ∀ t, (s.pc t).inPush = pushOpen t h
  inPop : ∀ t, (s.pc t).inPop → .call t .pop ∈ h
  claimPop : ∀ t p, .claimPop t p ∈ h → .call t .pop ∈ h
  closing : ∀ t, s.pc t = .closeStore → .call t .close ∈ h
  closed : s.queue.closed = true → ∃ t, .call t .close ∈ h

namespace Sessions

variable {h : List (Event ι α)} {s : State ι α}

lemma step (hses : Sessions h s) {t : ι} {e : Event ι α} {queue : SharedQueue α} {pc : Pc α}
    (hs : Transition s.queue t (s.pc t) e queue pc) : Sessions (h ++ [e]) (s.move t queue pc) := by
  have hpush := hses.inPush t
  have hpop := hses.inPop t
  have hclosing := hses.closing t
  have hclosed := hses.closed
  generalize hpc : s.pc t = pc₀ at hs hpush hpop hclosing
  have hother : ∀ t', t' ≠ t → (s.move t queue pc).pc t' = s.pc t' := fun t' ht => by simp [ht]
  constructor
  case inPush =>
    intro t'
    rw [pushOpen_snoc]
    by_cases ht : t' = t
    · subst ht
      cases hs <;> simp_all [Pc.inPush]
      case call operation => cases operation <;> simp_all [Operation.entry]
    · rw [hother t' ht, hses.inPush t']
      cases hs <;> simp [Ne.symm ht]
      case call operation => cases operation <;> simp [Ne.symm ht]
  case inPop =>
    intro t' hp
    by_cases ht : t' = t
    · subst ht
      cases hs <;> simp_all [Pc.inPop]
      case call operation => cases operation <;> simp_all [Operation.entry]
    · rw [hother t' ht] at hp
      exact List.mem_append_left _ (hses.inPop t' hp)
  case claimPop =>
    intro t' p he
    rcases List.mem_append.mp he with hold | hnew
    · exact List.mem_append_left _ (hses.claimPop t' p hold)
    · cases hs <;> simp only [List.mem_singleton, reduceCtorEq, Event.claimPop.injEq] at hnew
      obtain ⟨rfl, rfl⟩ := hnew
      exact List.mem_append_left _ (hpop rfl)
  case closing =>
    intro t' hp
    by_cases ht : t' = t
    · subst ht
      cases hs <;> simp_all
      case call operation => cases operation <;> simp_all [Operation.entry]
    · rw [hother t' ht] at hp
      exact List.mem_append_left _ (hses.closing t' hp)
  case closed =>
    intro hc
    have hold : (∃ t', .call t' .close ∈ h) → ∃ t', .call t' .close ∈ h ++ [e] :=
      Exists.imp fun t' he => List.mem_append_left _ he
    cases hs
    case close => exact hold ⟨t, hclosing rfl⟩
    all_goals exact hold (hclosed hc)

end Sessions

/-! ### The consumers of a run -/

omit [DecidableEq ι] in
lemma Transition.closed_mono {queue queue' : SharedQueue α} {t : ι} {pc pc' : Pc α}
    {e : Event ι α} (hs : Transition queue t pc e queue' pc') (hc : queue.closed = true) :
    queue'.closed = true := by
  cases hs <;> first | exact hc | rfl

lemma Transition.drainStep_of_ne {queue queue' : SharedQueue α} {t t' : ι} {pc pc' : Pc α}
    {e : Event ι α} (hs : Transition queue t' pc e queue' pc') (ht : t' ≠ t) (d : DrainPc) :
    drainStep t d e = some d := by
  cases hs <;> simp [drainStep, ht]

/-- The consumer has seen the closed flag set and not popped an item since. -/
def DrainPc.sawClosed : DrainPc → Bool
  | .lastPop | .lastPopping | .exited => true
  | _ => false

/-- What holds of a consumer of a run. -/
structure Draining (t : ι) (h : List (Event ι α)) (s : State ι α) : Prop where
  sawClosed : ∀ d, drainPc t h = some d → d.sawClosed → s.queue.closed = true
  idle : drainPc t h = some .exited → s.pc t = .idle
  empty : drainPc t h = some .exited → s.queue.dequeuePosition = s.queue.enqueuePosition

namespace Draining

variable {k : ℕ} {h : List (Event ι α)} {s : State ι α}

/-- A consumer that has seen the flag saw it set in this step, or had seen it before. -/
lemma sawClosed_cases {t : ι} {d d' : DrainPc} {queue queue' : SharedQueue α} {pc pc' : Pc α}
    {e : Event ι α} (hs : Transition queue t pc e queue' pc') (hd : drainStep t d e = some d')
    (hsaw : d'.sawClosed) : queue'.closed = true ∨ d.sawClosed := by
  cases hs
  case isClosed =>
    simp only [drainStep, if_true] at hd
    split at hd
    · case isTrue hclosed => exact Or.inl hclosed
    · cases hd
      cases hsaw
  case close => exact Or.inl rfl
  case popEmpty | call =>
    simp only [drainStep, if_true] at hd
    split at hd <;> cases hd <;> first | exact Or.inr rfl | cases hsaw
  case popStored =>
    simp only [drainStep, if_true, Option.some.injEq] at hd
    subst hd
    cases hsaw
  all_goals
    simp only [drainStep, Option.some.injEq] at hd
    subst hd
    exact Or.inr hsaw

/-- A consumer exits by a pop that fails after the flag was seen. -/
lemma exited_cases {t : ι} {d : DrainPc} {queue queue' : SharedQueue α} {pc pc' : Pc α}
    {e : Event ι α} (hs : Transition queue t pc e queue' pc')
    (hd : drainStep t d e = some .exited) :
    d = .exited ∨ d.sawClosed ∧ pc' = .idle ∧ queue' = queue ∧
      ∃ p, pc = .popLoadSequence p ∧
        signedDifference (queue.slotSequence p) (word (p + 1)) < 0 := by
  cases hs
  case popEmpty p hdiff =>
    simp only [drainStep, if_true] at hd
    split at hd <;> cases hd
    exact Or.inr ⟨rfl, rfl, rfl, p, rfl, hdiff⟩
  case call | isClosed =>
    simp only [drainStep, if_true] at hd
    split at hd <;> cases hd
  case popStored => simp [drainStep] at hd
  all_goals
    simp only [drainStep, Option.some.injEq] at hd
    exact Or.inl hd

/-- An exited consumer makes no call. -/
lemma ne_exited_of_isSome {t : ι} {queue queue' : SharedQueue α} {pc' : Pc α} {e : Event ι α}
    (hs : Transition queue t .idle e queue' pc') : drainStep t .exited e = none := by
  cases hs
  simp [drainStep]

/-- A step of the consumer itself. -/
lemma step_self (hk' : k ≤ 63) (hinv : Invariant k h s)
    (hbound : s.queue.enqueuePosition < 2 ^ 63)
    (hnoPushing : s.queue.closed = true → ∀ t, (s.pc t).pushing = none) {t : ι} {d : DrainPc}
    (hd : drainPc t h = some d) (hdr : Draining t h s) {e : Event ι α} {queue : SharedQueue α}
    {pc : Pc α} (hs : Transition s.queue t (s.pc t) e queue pc)
    (hloop : (drainStep t d e).isSome) : Draining t (h ++ [e]) (s.move t queue pc) := by
  have hnext : drainPc t (h ++ [e]) = drainStep t d e := by simp [drainPc_snoc, hd]
  have hsaw := hdr.sawClosed d hd
  have hlive : d ≠ .exited := by
    rintro rfl
    rw [hdr.idle hd] at hs
    rw [ne_exited_of_isSome hs] at hloop
    cases hloop
  constructor
  case sawClosed =>
    intro d' hd' hc'
    rw [hnext] at hd'
    rcases sawClosed_cases hs hd' hc' with hclosed | hbefore
    · exact hclosed
    · exact hs.closed_mono (hsaw hbefore)
  case idle =>
    intro hd'
    rw [hnext] at hd'
    obtain ⟨-, rfl, -⟩ := (exited_cases hs hd').resolve_left hlive
    simp
  case empty =>
    intro hd'
    rw [hnext] at hd'
    obtain ⟨hbefore, -, rfl, p, hpc, hdiff⟩ := (exited_cases hs hd').resolve_left hlive
    have hknows := hinv.knows t
    rw [hpc] at hknows
    have hDE := hinv.empty_of_popEmpty hk' hbound (hnoPushing (hsaw hbefore)) hknows hdiff
    exact hDE

/-- A step of another thread.  After close it is not one of a push. -/
lemma step_other (hinv : Invariant k h s)
    (hnoPush : s.queue.closed = true → ∀ t, (s.pc t).inPush = false) {t t' : ι} (ht : t' ≠ t)
    {d : DrainPc} (hd : drainPc t h = some d) (hdr : Draining t h s) {e : Event ι α}
    {queue : SharedQueue α} {pc : Pc α} (hs : Transition s.queue t' (s.pc t') e queue pc) :
    Draining t (h ++ [e]) (s.move t' queue pc) := by
  have hsame : drainPc t (h ++ [e]) = drainPc t h := by
    rw [drainPc_snoc, hd, Option.bind_some, hs.drainStep_of_ne ht]
  constructor
  case sawClosed =>
    intro d' hd' hc'
    rw [hsame] at hd'
    exact hs.closed_mono (hdr.sawClosed d' hd' hc')
  case idle =>
    intro hd'
    rw [hsame] at hd'
    simpa [Ne.symm ht] using hdr.idle hd'
  case empty =>
    intro hd'
    rw [hsame] at hd'
    have hDE := hdr.empty hd'
    have hpush := hnoPush (hdr.sawClosed _ hd' rfl) t'
    have hknows := hinv.knows t'
    generalize hpc : s.pc t' = pc₀ at hs hknows hpush
    cases hs
    case pushClaim => simp [Pc.inPush] at hpush
    case popClaim =>
      -- a pop claims a position only below the pushes, and there is none
      have := (hknows.2 rfl).2
      omega
    all_goals exact hDE

lemma step (hk' : k ≤ 63) (hinv : Invariant k h s) (hses : Sessions h s)
    (hbound : s.queue.enqueuePosition < 2 ^ 63) (hclose : PushesReturnBeforeClose h) {t : ι}
    (hdr : Draining t h s) {t' : ι} {e : Event ι α} {queue : SharedQueue α} {pc : Pc α}
    (hs : Transition s.queue t' (s.pc t') e queue pc)
    (hloop : (drainPc t (h ++ [e])).isSome) : Draining t (h ++ [e]) (s.move t' queue pc) := by
  obtain ⟨d, hd⟩ : ∃ d, drainPc t h = some d := by
    rw [drainPc_snoc] at hloop
    cases hdrain : drainPc t h with
    | none => simp [hdrain] at hloop
    | some d => exact ⟨d, rfl⟩
  rw [drainPc_snoc, hd, Option.bind_some] at hloop
  -- after close no thread is inside of a push
  have hnoPush : s.queue.closed = true → ∀ t'', (s.pc t'').inPush = false := by
    intro hc t''
    obtain ⟨c, he⟩ := hses.closed hc
    rw [hses.inPush, hclose.pushOpen_eq_false he]
  have hnoPushing : s.queue.closed = true → ∀ t'', (s.pc t'').pushing = none := by
    intro hc t''
    have := hnoPush hc t''
    cases hpc : s.pc t'' <;> simp_all [Pc.inPush, Pc.pushing]
  by_cases ht : t' = t
  · subst ht
    exact hdr.step_self hk' hinv hbound hnoPushing hd hs hloop
  · exact hdr.step_other hinv hnoPush ht hd hs

end Draining

/-! ### Draining delivers everything -/

section Run

variable {k : ℕ} {h : List (Event ι α)} {s : State ι α} {zero : α}

lemma Sessions.run {effectiveCapacity : ℕ}
    (hrun : machine.Run (State.create zero effectiveCapacity) h s) : Sessions h s := by
  refine hrun.invariant ⟨fun t => rfl, by simp [Pc.inPop], by simp, by simp, by simp⟩ ?_
  intro h s c e s' _ ih hs
  obtain ⟨t, queue, pc, htr, rfl⟩ := step_inv hs
  exact ih.step htr

lemma Draining.run (hk : 1 ≤ k) (hk' : k ≤ 63)
    (hrun : machine.Run (State.create zero (2 ^ k)) h s) (hbound : (pushClaims h).length < 2 ^ 63)
    (hclose : PushesReturnBeforeClose h) {t : ι} (hloop : (drainPc t h).isSome) :
    Draining t h s := by
  refine hrun.invariant (P := fun h s => (pushClaims h).length < 2 ^ 63 →
    PushesReturnBeforeClose h → (drainPc t h).isSome → Draining t h s) ?_ ?_ hbound hclose hloop
  · intro _ _ _
    constructor <;> simp [drainPc, DrainPc.sawClosed]
  · intro h s c e s' hrun ih hs hbound hclose hloop
    have hlen : (pushClaims h).length < 2 ^ 63 := by
      rw [pushClaims_snoc, List.length_append] at hbound
      omega
    have hsome : (drainPc t h).isSome := by
      rw [drainPc_snoc] at hloop
      cases hdrain : drainPc t h <;> simp_all
    have hinv := Invariant.run hk hk' hrun hlen
    obtain ⟨t', queue, pc, htr, rfl⟩ := step_inv hs
    exact Draining.step hk' hinv (Sessions.run hrun) (by rw [hinv.enqueue_eq]; exact hlen)
      hclose.of_append (ih hlen hclose.of_append hsome) htr hloop

/-- **Drain after close delivers everything.**  The threads of `consumer` run the
drain loop, no other thread pops, and all pushes have returned before close is
called.  Then a consumer that has exited leaves no pushed item unclaimed, and
when all consumers have exited every pushed item has been returned by exactly
one pop, which is one of a consumer. -/
theorem queue_drain_after_close (hk : 1 ≤ k) (hk' : k ≤ 63)
    (hrun : machine.Run (State.create zero (2 ^ k)) h s) (hbound : (pushClaims h).length < 2 ^ 63)
    (hclose : PushesReturnBeforeClose h) (consumer : ι → Prop)
    (hloop : ∀ t, consumer t → (drainPc t h).isSome)
    (hpop : ∀ t, .call t .pop ∈ h → consumer t) {t₀ : ι} (ht₀ : consumer t₀)
    (hexit : drainPc t₀ h = some .exited) :
    (∀ t p item, .pushTrue t p item ∈ h → ∃ t', .claimPop t' p ∈ h) ∧
      ((∀ t, consumer t → drainPc t h = some .exited) →
        ∀ t p item, .pushTrue t p item ∈ h →
          (∃ t', consumer t' ∧ .popTrue t' p item ∈ h) ∧ (popReturns h).count p = 1) := by
  have hinv := Invariant.run hk hk' hrun hbound
  have hled := Ledger.run hk hk' hrun hbound
  have hses := Sessions.run hrun
  have hclaimed : ∀ t p item, .pushTrue t p item ∈ h → ∃ t', .claimPop t' p ∈ h := by
    intro t p item he
    have hempty := (Draining.run hk hk' hrun hbound hclose (hloop t₀ ht₀)).empty hexit
    have hitem := hinv.item_of_claimPush (hled.pushTrue t p item he).1
    have hp : p < s.queue.enqueuePosition := by
      rw [← hinv.items_length]
      exact (List.getElem?_eq_some_iff.mp hitem).1
    rw [← mem_popClaims, hinv.popPositions, hempty, List.mem_range]
    exact hp
  refine ⟨hclaimed, ?_⟩
  intro hall t p item he
  obtain ⟨t', hclaim⟩ := hclaimed t p item he
  have hcons : consumer t' := hpop t' (hses.claimPop t' p hclaim)
  have hidle := (Draining.run hk hk' hrun hbound hclose (hloop t' hcons)).idle (hall t' hcons)
  rcases hled.popped t' p hclaim with hp | ⟨item', hret⟩
  · simp [hidle, Pc.popping] at hp
  · have hitem := hinv.item_of_claimPush (hled.pushTrue t p item he).1
    rw [(hled.popTrue t' p item' hret).2, Option.some.injEq] at hitem
    subst hitem
    exact ⟨⟨t', hcons, hret⟩, List.count_eq_one_of_mem hled.popReturns_nodup
      (mem_popReturns.mpr ⟨t', item', hret⟩)⟩

/-- A producer pushes and closes; the consumer pops, sees the flag and exits. -/
theorem queue_drain_after_close_handover :
    let schedule : List (Bool × Choice ℕ) := (true, .call (.push 7)) ::
      List.replicate 6 (true, .run) ++ (true, .call .close) :: (true, .run) ::
      (false, .call .pop) :: List.replicate 5 (false, .run) ++ (false, .call .pop) ::
      List.replicate 2 (false, .run) ++ (false, .call .isClosed) :: (false, .run) ::
      (false, .call .pop) :: List.replicate 2 (false, .run)
    let h := (machine.exec (State.create 0 (2 ^ 1)) schedule).1
    .pushTrue true 0 7 ∈ h ∧ (∃ t, t = false ∧ .popTrue t 0 7 ∈ h) ∧ (popReturns h).count 0 = 1 := by
  refine ⟨by decide, ?_⟩
  exact (queue_drain_after_close (s := (machine.exec (State.create 0 (2 ^ 1)) _).2) le_rfl
    (by norm_num) (machine.run_exec _ _) (by decide) (by decide) (fun t => t = false) (by decide)
    (by decide) (show (fun t => t = false) false from rfl) (by decide)).2 (by decide) true 0 7
    (by decide)

end Run

end BcConcurrency.Queue
