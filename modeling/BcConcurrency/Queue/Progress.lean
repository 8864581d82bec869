import BcConcurrency.Queue.Drain

/-!
# Operations that run alone

A push or a pop that runs without interference returns within two turns of its loop.
The sequence word of a slot never runs ahead of the counter that addresses it, so a
turn is repeated only when another thread has moved the counter since it was loaded.
-/

namespace BcConcurrency.Queue

variable {ι α : Type*}

/-! ### Freshly loaded positions -/

namespace Invariant

variable {k : ℕ} {h : List (Event ι α)} {s : State ι α}

/-- The slot of the enqueue position is free for it, or it is a lap behind. -/
lemma difference_enqueue (hinv : Invariant k h s) (hbound : s.queue.enqueuePosition < 2 ^ 63) :
    signedDifference (s.queue.slotSequence s.queue.enqueuePosition) s.queue.enqueuePosition ≤ 0 := by
  have hpos : 0 < 2 ^ k := by positivity
  have hle : s.queue.slotSequence s.queue.enqueuePosition ≤ s.queue.enqueuePosition := by
    rcases hinv.enqueue_le.lt_or_eq with hlt | heq
    · have := hinv.slotSequence_of_window hinv.dequeue_le hlt
      omega
    · have hcongr : s.queue.slotSequence s.queue.enqueuePosition =
          s.queue.slotSequence s.queue.dequeuePosition := hinv.slotSequence_congr (by simp [heq])
      have := hinv.slotSequence_of_window le_rfl (by omega)
      omega
  rw [signedDifference_of_near (by omega) (by omega)]
  omega

/-- The slot of the dequeue position is ready for it, or it is not filled yet. -/
lemma difference_dequeue (hinv : Invariant k h s) (hbound : s.queue.enqueuePosition < 2 ^ 63) :
    signedDifference (s.queue.slotSequence s.queue.dequeuePosition)
      (word (s.queue.dequeuePosition + 1)) ≤ 0 := by
  have hDE := hinv.dequeue_le
  have hpos : 0 < 2 ^ k := by positivity
  have hle := hinv.slotSequence_of_window le_rfl (by omega)
  rw [word_of_lt (by omega), signedDifference_of_near (by omega) (by omega)]
  omega

end Invariant

/-! ### Running alone -/

/-- The thread loads the sequence word at the beginning of a turn of its loop. -/
def Pc.beginsTurn : Pc α → Bool
  | .pushLoadSequence _ _ | .popLoadSequence _ => true
  | _ => false

variable [DecidableEq ι]

/-- The thread returns if it runs alone, after at most this many turns of its loop. -/
inductive ReturnsAlone (t : ι) : ℕ → State ι α → Prop
  | idle {n : ℕ} {s : State ι α} (hidle : s.pc t = .idle) : ReturnsAlone t n s
  | turn {n : ℕ} {s s' : State ι α} {e : Event ι α} (hturn : (s.pc t).beginsTurn = true)
      (hstep : machine.step s (t, .run) = some (e, s')) (hrest : ReturnsAlone t n s') :
      ReturnsAlone t (n + 1) s
  | step {n : ℕ} {s s' : State ι α} {e : Event ι α} (hturn : (s.pc t).beginsTurn = false)
      (hstep : machine.step s (t, .run) = some (e, s')) (hrest : ReturnsAlone t n s') :
      ReturnsAlone t n s

/-- A step of a thread that runs alone. -/
lemma step_run {s : State ι α} {t : ι} {pc : Pc α} {e : Event ι α} {queue : SharedQueue α}
    {pc' : Pc α} (hpc : s.pc t = pc) (hs : threadStep s.queue t pc .run = some (e, queue, pc')) :
    machine.step s (t, .run) = some (e, s.move t queue pc') := by
  simp [machine, hpc, hs]

namespace ReturnsAlone

variable {t : ι} {s : State ι α} {n : ℕ} {pc q : Pc α} {e : Event ι α} {queue : SharedQueue α}

/-- One more turn is allowed. -/
lemma mono {m : ℕ} (h : ReturnsAlone t n s) (hle : n ≤ m) : ReturnsAlone t m s := by
  induction h generalizing m with
  | idle hidle => exact .idle hidle
  | turn hturn hstep _ ih =>
    obtain ⟨m, rfl⟩ : ∃ m', m = m' + 1 := ⟨m - 1, by omega⟩
    exact .turn hturn hstep (ih (by omega))
  | step hturn hstep _ ih => exact .step hturn hstep (ih hle)

lemma of_turn (hpc : s.pc t = pc) (hturn : pc.beginsTurn = true)
    (hs : threadStep s.queue t pc .run = some (e, queue, q))
    (hrest : ReturnsAlone t n (s.move t queue q)) : ReturnsAlone t (n + 1) s :=
  .turn (by rw [hpc]; exact hturn) (step_run hpc hs) hrest

lemma of_step (hpc : s.pc t = pc) (hturn : pc.beginsTurn = false)
    (hs : threadStep s.queue t pc .run = some (e, queue, q))
    (hrest : ReturnsAlone t n (s.move t queue q)) : ReturnsAlone t n s :=
  .step (by rw [hpc]; exact hturn) (step_run hpc hs) hrest

lemma pushStoreSequence {a : α} {p : ℕ} (hpc : s.pc t = .pushStoreSequence a p) :
    ReturnsAlone t n s :=
  .of_step (q := .idle) hpc rfl rfl (.idle (by simp))

lemma pushCopy {a : α} {p : ℕ} (hpc : s.pc t = .pushCopy a p) : ReturnsAlone t n s := by
  refine .of_step (q := .pushStoreSequence a p) hpc rfl rfl ?_
  exact pushStoreSequence (a := a) (p := p) (by simp)

lemma popStoreSequence {a : α} {p : ℕ} (hpc : s.pc t = .popStoreSequence p a) :
    ReturnsAlone t n s :=
  .of_step (q := .idle) hpc rfl rfl (.idle (by simp))

lemma popCopy {p : ℕ} (hpc : s.pc t = .popCopy p) : ReturnsAlone t n s := by
  refine .of_step (q := .popStoreSequence p (s.queue.slotData p)) hpc rfl rfl ?_
  exact popStoreSequence (p := p) (a := s.queue.slotData p) (by simp)

/-- A compare-and-exchange of the current position succeeds. -/
lemma pushExchange {a : α} (hpc : s.pc t = .pushExchange a s.queue.enqueuePosition) :
    ReturnsAlone t n s := by
  refine .of_step (q := .pushCopy a s.queue.enqueuePosition) hpc rfl
    (by rw [threadStep, if_pos rfl]) ?_
  exact pushCopy (a := a) (p := s.queue.enqueuePosition) (by simp)

lemma popExchange (hpc : s.pc t = .popExchange s.queue.dequeuePosition) : ReturnsAlone t n s := by
  refine .of_step (q := .popCopy s.queue.dequeuePosition) hpc rfl
    (by rw [threadStep, if_pos rfl]) ?_
  exact popCopy (p := s.queue.dequeuePosition) (by simp)

/-- With the current position one turn of the loop is enough. -/
lemma push_fresh {a : α} (hpc : s.pc t = .pushLoadSequence a s.queue.enqueuePosition)
    (hdiff : signedDifference (s.queue.slotSequence s.queue.enqueuePosition)
      s.queue.enqueuePosition ≤ 0) : ReturnsAlone t (n + 1) s := by
  rcases hdiff.lt_or_eq with hneg | hzero
  · have hs : threadStep s.queue t (.pushLoadSequence a s.queue.enqueuePosition) .run =
        some (.pushFalse t, s.queue, .idle) := by
      simp only [threadStep, if_neg hneg.ne, if_pos hneg]
    exact .of_turn hpc rfl hs (.idle (by simp))
  · have hs : threadStep s.queue t (.pushLoadSequence a s.queue.enqueuePosition) .run =
        some (.silent t, s.queue, .pushExchange a s.queue.enqueuePosition) := by
      simp only [threadStep, if_pos hzero]
    exact .of_turn hpc rfl hs (pushExchange (a := a) (by simp))

lemma pop_fresh (hpc : s.pc t = .popLoadSequence s.queue.dequeuePosition)
    (hdiff : signedDifference (s.queue.slotSequence s.queue.dequeuePosition)
      (word (s.queue.dequeuePosition + 1)) ≤ 0) : ReturnsAlone t (n + 1) s := by
  rcases hdiff.lt_or_eq with hneg | hzero
  · have hs : threadStep s.queue t (.popLoadSequence s.queue.dequeuePosition) .run =
        some (.popFalse t, s.queue, .idle) := by
      simp only [threadStep, if_neg hneg.ne, if_pos hneg]
    exact .of_turn hpc rfl hs (.idle (by simp))
  · have hs : threadStep s.queue t (.popLoadSequence s.queue.dequeuePosition) .run =
        some (.silent t, s.queue, .popExchange s.queue.dequeuePosition) := by
      simp only [threadStep, if_pos hzero]
    exact .of_turn hpc rfl hs (popExchange (by simp))

lemma push_reload {a : α} (hpc : s.pc t = .pushLoadPosition a)
    (hdiff : signedDifference (s.queue.slotSequence s.queue.enqueuePosition)
      s.queue.enqueuePosition ≤ 0) : ReturnsAlone t (n + 1) s := by
  refine .of_step (q := .pushLoadSequence a s.queue.enqueuePosition) hpc rfl rfl ?_
  exact push_fresh (a := a) (by simp) hdiff

lemma pop_reload (hpc : s.pc t = .popLoadPosition)
    (hdiff : signedDifference (s.queue.slotSequence s.queue.dequeuePosition)
      (word (s.queue.dequeuePosition + 1)) ≤ 0) : ReturnsAlone t (n + 1) s := by
  refine .of_step (q := .popLoadSequence s.queue.dequeuePosition) hpc rfl rfl ?_
  exact pop_fresh (by simp) hdiff

/-- A failed compare-and-exchange has loaded the current position. -/
lemma push_exchanging {a : α} {p : ℕ} (hpc : s.pc t = .pushExchange a p)
    (hdiff : signedDifference (s.queue.slotSequence s.queue.enqueuePosition)
      s.queue.enqueuePosition ≤ 0) : ReturnsAlone t (n + 1) s := by
  by_cases hp : s.queue.enqueuePosition = p
  · subst hp
    exact pushExchange hpc
  · have hs : threadStep s.queue t (.pushExchange a p) .run =
        some (.silent t, s.queue, .pushLoadSequence a s.queue.enqueuePosition) := by
      simp only [threadStep, if_neg hp]
    exact .of_step hpc rfl hs (push_fresh (a := a) (by simp) hdiff)

lemma pop_exchanging {p : ℕ} (hpc : s.pc t = .popExchange p)
    (hdiff : signedDifference (s.queue.slotSequence s.queue.dequeuePosition)
      (word (s.queue.dequeuePosition + 1)) ≤ 0) : ReturnsAlone t (n + 1) s := by
  by_cases hp : s.queue.dequeuePosition = p
  · subst hp
    exact popExchange hpc
  · have hs : threadStep s.queue t (.popExchange p) .run =
        some (.silent t, s.queue, .popLoadSequence s.queue.dequeuePosition) := by
      simp only [threadStep, if_neg hp]
    exact .of_step hpc rfl hs (pop_fresh (by simp) hdiff)

/-- From any point of a push two turns are enough: a stale position costs one. -/
lemma push (hpc : (s.pc t).inPush = true)
    (hdiff : signedDifference (s.queue.slotSequence s.queue.enqueuePosition)
      s.queue.enqueuePosition ≤ 0) : ReturnsAlone t 2 s := by
  cases hp : s.pc t <;> simp only [hp, Pc.inPush, reduceCtorEq] at hpc
  case pushLoadClosed item =>
    by_cases hc : s.queue.closed = true
    · have hs : threadStep s.queue t (.pushLoadClosed item) .run =
          some (.pushFalse t, s.queue, .idle) := by simp only [threadStep, if_pos hc]
      exact .of_step hp rfl hs (.idle (by simp))
    · have hs : threadStep s.queue t (.pushLoadClosed item) .run =
          some (.silent t, s.queue, .pushLoadPosition item) := by simp only [threadStep, if_neg hc]
      exact .of_step hp rfl hs (push_reload (a := item) (by simp) hdiff)
  case pushLoadPosition => exact push_reload hp hdiff
  case pushLoadSequence item p =>
    -- the sign decides between a failure, the exchange and a reload
    rcases lt_trichotomy (signedDifference (s.queue.slotSequence p) p) 0 with hneg | hzero | hpos
    · have hs : threadStep s.queue t (.pushLoadSequence item p) .run =
          some (.pushFalse t, s.queue, .idle) := by
        simp only [threadStep, if_neg hneg.ne, if_pos hneg]
      exact .of_turn hp rfl hs (.idle (by simp))
    · have hs : threadStep s.queue t (.pushLoadSequence item p) .run =
          some (.silent t, s.queue, .pushExchange item p) := by
        simp only [threadStep, if_pos hzero]
      exact .of_turn hp rfl hs (push_exchanging (a := item) (p := p) (by simp) hdiff)
    · have hs : threadStep s.queue t (.pushLoadSequence item p) .run =
          some (.silent t, s.queue, .pushLoadPosition item) := by
        simp only [threadStep, if_neg hpos.ne', if_neg hpos.not_gt]
      exact .of_turn hp rfl hs (push_reload (a := item) (by simp) hdiff)
  case pushExchange => exact push_exchanging hp hdiff
  case pushCopy => exact pushCopy hp
  case pushStoreSequence => exact pushStoreSequence hp

/-- From any point of a pop two turns are enough. -/
lemma pop (hpc : (s.pc t).inPop = true)
    (hdiff : signedDifference (s.queue.slotSequence s.queue.dequeuePosition)
      (word (s.queue.dequeuePosition + 1)) ≤ 0) : ReturnsAlone t 2 s := by
  cases hp : s.pc t <;> simp only [hp, Pc.inPop, reduceCtorEq] at hpc
  case popLoadPosition => exact pop_reload hp hdiff
  case popLoadSequence p =>
    -- as for a push: a failure, the exchange or a reload
    rcases lt_trichotomy (signedDifference (s.queue.slotSequence p) (word (p + 1))) 0 with
      hneg | hzero | hpos
    · have hs : threadStep s.queue t (.popLoadSequence p) .run =
          some (.popFalse t, s.queue, .idle) := by
        simp only [threadStep, if_neg hneg.ne, if_pos hneg]
      exact .of_turn hp rfl hs (.idle (by simp))
    · have hs : threadStep s.queue t (.popLoadSequence p) .run =
          some (.silent t, s.queue, .popExchange p) := by
        simp only [threadStep, if_pos hzero]
      exact .of_turn hp rfl hs (pop_exchanging (p := p) (by simp) hdiff)
    · have hs : threadStep s.queue t (.popLoadSequence p) .run =
          some (.silent t, s.queue, .popLoadPosition) := by
        simp only [threadStep, if_neg hpos.ne', if_neg hpos.not_gt]
      exact .of_turn hp rfl hs (pop_reload (by simp) hdiff)
  case popExchange => exact pop_exchanging hp hdiff
  case popCopy => exact popCopy hp
  case popStoreSequence => exact popStoreSequence hp

end ReturnsAlone

/-! ### Why a turn is repeated -/

/-- The thread that a step belongs to. -/
def Event.thread : Event ι α → ι
  | .call t _ | .silent t | .claimPush t _ _ | .claimPop t _ | .copyIn t _ _ | .copyOut t _ _
  | .pushTrue t _ _ | .pushFalse t | .popTrue t _ _ | .popFalse t | .closeReturn t
  | .isClosedReturn t _ => t

/-- The counter that a freshly loaded position has been loaded from. -/
def Pc.LoadedFrom (queue : SharedQueue α) : Pc α → Prop
  | .pushLoadSequence _ p => queue.enqueuePosition = p
  | .popLoadSequence p => queue.dequeuePosition = p
  | _ => False

/-- The turn of a thread with a loaded position: where the turn began and how many
steps the thread has taken since. -/
def Pc.turn : Pc α → Option (Pc α × ℕ)
  | .pushLoadSequence item p => some (.pushLoadSequence item p, 0)
  | .pushExchange item p => some (.pushLoadSequence item p, 1)
  | .popLoadSequence p => some (.popLoadSequence p, 0)
  | .popExchange p => some (.popLoadSequence p, 1)
  | _ => none

/-- The thread goes back to load its position, or has just loaded it again. -/
def Pc.reloads : Pc α → Bool
  | .pushLoadPosition _ | .pushLoadSequence _ _ | .popLoadPosition | .popLoadSequence _ => true
  | _ => false

/-- In a run from `init` with the history `h`, the thread has loaded the position
with which it began its turn at `pc` just before the part `since` of the history. -/
def LoadedBefore (init : State ι α) (t : ι) (pc : Pc α) (h since : List (Event ι α)) : Prop :=
  ∃ before s₁ c s₂, h = before ++ .silent t :: since ∧ machine.Run init before s₁ ∧
    machine.step s₁ c = some (.silent t, s₂) ∧ s₂.pc t = pc ∧ pc.LoadedFrom s₁.queue

omit [DecidableEq ι] in
lemma Transition.thread_eq {queue queue' : SharedQueue α} {t : ι} {pc pc' : Pc α} {e : Event ι α}
    (hs : Transition queue t pc e queue' pc') : e.thread = t := by
  cases hs <;> rfl

lemma LoadedBefore.snoc {init : State ι α} {t : ι} {pc : Pc α} {h since : List (Event ι α)}
    (hload : LoadedBefore init t pc h since) (e : Event ι α) :
    LoadedBefore init t pc (h ++ [e]) (since ++ [e]) := by
  obtain ⟨before, s₁, c, s₂, rfl, hrest⟩ := hload
  exact ⟨before, s₁, c, s₂, by simp, hrest⟩

/-- The thread takes only its own silent steps between loading its position and
the end of its turn. -/
lemma loadedBefore_run {init s : State ι α} {h : List (Event ι α)}
    (hinit : ∀ t, (init.pc t).turn = none) (hrun : machine.Run init h s) {t : ι} {pc : Pc α}
    {n : ℕ} (hturn : (s.pc t).turn = some (pc, n)) :
    ∃ since, LoadedBefore init t pc h since ∧
      since.filter (fun e => e.thread = t) = List.replicate n (.silent t) := by
  induction hrun generalizing t pc n with
  | nil =>
    rw [hinit] at hturn
    cases hturn
  | @snoc h s s' c e hrun hs ih =>
    obtain ⟨t', queue, pc', htr, rfl⟩ := step_inv hs
    have hthread := htr.thread_eq
    -- a step of another thread only makes the stretch since the load longer
    by_cases ht : t' = t
    · subst ht
      have hpc : (s.move t' queue pc').pc t' = pc' := by simp
      rw [hpc] at hturn
      generalize hpc₀ : s.pc t' = pc₀ at htr
      cases htr <;> simp only [Pc.turn, Option.some.injEq, Prod.mk.injEq, reduceCtorEq] at hturn
      case call operation => cases operation <;> simp [Operation.entry] at hturn
      case pushPosition | pushLost | popPosition | popLost =>
        obtain ⟨rfl, rfl⟩ := hturn
        exact ⟨[], ⟨h, s, c, _, rfl, hrun, hs, hpc, rfl⟩, rfl⟩
      case pushFree | popReady =>
        obtain ⟨rfl, rfl⟩ := hturn
        obtain ⟨since, hload, hown⟩ := ih (by rw [hpc₀]; rfl)
        refine ⟨since ++ [.silent t'], hload.snoc _, ?_⟩
        rw [List.filter_append, hown]
        simp [Event.thread]
    · rw [State.move_pc, Function.update_of_ne (Ne.symm ht)] at hturn
      obtain ⟨since, hload, hown⟩ := ih hturn
      refine ⟨since ++ [e], hload.snoc e, ?_⟩
      rw [List.filter_append, hown]
      simp [hthread, ht]

/-- Another thread has advanced, in a part of the history, the counter that the turn's
position was loaded from: it has claimed that very position. -/
def Pc.MovedBy (t : ι) (since : List (Event ι α)) : Pc α → Prop
  | .pushLoadSequence _ p => ∃ t' item, t' ≠ t ∧ .claimPush t' p item ∈ since
  | .popLoadSequence p => ∃ t', t' ≠ t ∧ .claimPop t' p ∈ since
  | _ => False

omit [DecidableEq ι] in
/-- A turn is repeated only if its position is no longer the current one. -/
lemma Invariant.stale_of_reload {k : ℕ} {h : List (Event ι α)} {s : State ι α}
    (hinv : Invariant k h s) (hbound : s.queue.enqueuePosition < 2 ^ 63) {t : ι} {pc : Pc α}
    {n : ℕ} (hturn : (s.pc t).turn = some (pc, n)) {e : Event ι α} {queue : SharedQueue α}
    {pc' : Pc α} (hs : threadStep s.queue t (s.pc t) .run = some (e, queue, pc'))
    (hreload : pc'.reloads = true) : ¬ pc.LoadedFrom s.queue := by
  have hE := hinv.difference_enqueue hbound
  have hD := hinv.difference_dequeue hbound
  cases hpc : s.pc t <;> rw [hpc] at hturn hs <;>
    simp only [Pc.turn, Option.some.injEq, Prod.mk.injEq, reduceCtorEq] at hturn <;>
    obtain ⟨rfl, -⟩ := hturn <;> rintro rfl <;> simp only [threadStep] at hs
  case pushLoadSequence | popLoadSequence =>
    split at hs
    · cases hs
      simp [Pc.reloads] at hreload
    · split at hs
      · cases hs
        simp [Pc.reloads] at hreload
      · omega
  case pushExchange | popExchange =>
    rw [if_pos trivial] at hs
    cases hs
    simp [Pc.reloads] at hreload

lemma mem_drop_range {p q : ℕ} (hle : p ≤ q) (hne : ¬ q = p) : p ∈ (List.range q).drop p := by
  refine List.mem_iff_getElem?.mpr ⟨0, ?_⟩
  rw [List.getElem?_drop, Nat.add_zero, List.getElem?_range (by omega)]

/-- A counter that has moved was advanced by the claim of the loaded position. -/
lemma Invariant.movedBy {k : ℕ} {zero : α} (hk : 1 ≤ k) (hk' : k ≤ 63) {h : List (Event ι α)}
    {s : State ι α} (hinv : Invariant k h s) (hbound : (pushClaims h).length < 2 ^ 63) {t : ι}
    {pc : Pc α} {n : ℕ} (hturn : (s.pc t).turn = some (pc, n)) {since : List (Event ι α)}
    (hload : LoadedBefore (State.create zero (2 ^ k)) t pc h since)
    (hown : since.filter (fun e => e.thread = t) = List.replicate n (.silent t))
    (hstale : ¬ pc.LoadedFrom s.queue) : pc.MovedBy t since := by
  obtain ⟨before, s₁, c, s₂, rfl, hrun₁, -, -, hfrom⟩ := hload
  rw [pushClaims_append, List.length_append] at hbound
  have hinv₁ := Invariant.run hk hk' hrun₁ (by omega)
  have hsilent : ∀ e ∈ since, e.thread = t → e = .silent t := by
    intro e he ht
    have hmem : e ∈ since.filter (fun e => e.thread = t) := List.mem_filter.mpr ⟨he, by simpa⟩
    rw [hown] at hmem
    exact List.eq_of_mem_replicate hmem
  have hpush : (pushClaims since).map Prod.fst =
      (List.range s.queue.enqueuePosition).drop s₁.queue.enqueuePosition := by
    rw [← hinv.pushPositions, pushClaims_append, List.map_append, hinv₁.pushPositions,
      List.drop_left' List.length_range]
    rfl
  have hpop : popClaims since =
      (List.range s.queue.dequeuePosition).drop s₁.queue.dequeuePosition := by
    rw [← hinv.popPositions, popClaims_append, hinv₁.popPositions,
      List.drop_left' List.length_range]
    rfl
  -- a counter past the loaded position was moved by a claim of that position, and not by `t`
  have claimed_push : ∀ {item : α} {p : ℕ}, s₁.queue.enqueuePosition = p →
      ¬ s.queue.enqueuePosition = p → p ≤ s.queue.enqueuePosition →
      Pc.MovedBy t since (.pushLoadSequence item p) := by
    intro item p hp hne hle
    rw [hp] at hpush
    have hmem : p ∈ (pushClaims since).map Prod.fst := hpush ▸ mem_drop_range hle hne
    obtain ⟨⟨p', item'⟩, hmem', rfl⟩ := List.mem_map.mp hmem
    obtain ⟨t', he⟩ := mem_pushClaims.mp hmem'
    refine ⟨t', item', ?_, he⟩
    intro ht
    cases hsilent _ he ht
  have claimed_pop : ∀ {p : ℕ}, s₁.queue.dequeuePosition = p →
      ¬ s.queue.dequeuePosition = p → p ≤ s.queue.dequeuePosition →
      Pc.MovedBy t since (.popLoadSequence p) := by
    intro p hp hne hle
    rw [hp] at hpop
    have hmem : p ∈ popClaims since := hpop ▸ mem_drop_range hle hne
    obtain ⟨t', he⟩ := mem_popClaims.mp hmem
    refine ⟨t', ?_, he⟩
    intro ht
    cases hsilent _ he ht
  have hknows := hinv.knows t
  cases hpc : s.pc t <;> rw [hpc] at hturn hknows <;>
    simp only [Pc.turn, Option.some.injEq, Prod.mk.injEq, reduceCtorEq] at hturn <;>
    obtain ⟨rfl, -⟩ := hturn <;> simp only [Pc.LoadedFrom] at hfrom hstale
  case pushLoadSequence item p => exact claimed_push hfrom hstale hknows
  case pushExchange item p => exact claimed_push hfrom hstale hknows.1
  case popLoadSequence p => exact claimed_pop hfrom hstale hknows
  case popExchange p => exact claimed_pop hfrom hstale hknows.1

/-! ### Operations that run alone return -/

/-- **Queue operations finish when run alone.**  In every state that any number of
threads can reach, a thread inside of a push or a pop returns by itself after at most
two turns of its loop.  In every run a turn is repeated only after another thread has
claimed the position of the turn since it was loaded. -/
theorem queue_operations_finish_alone {k : ℕ} (hk : 1 ≤ k) (hk' : k ≤ 63) (zero : α)
    {h : List (Event ι α)} {s : State ι α} (hrun : machine.Run (State.create zero (2 ^ k)) h s)
    (hbound : (pushClaims h).length < 2 ^ 63) :
    (∀ t, (s.pc t).inPush = true ∨ (s.pc t).inPop = true → ReturnsAlone t 2 s) ∧
      ∀ t pc n e s', (s.pc t).turn = some (pc, n) → machine.step s (t, .run) = some (e, s') →
        (s'.pc t).reloads = true →
        ∃ since, LoadedBefore (State.create zero (2 ^ k)) t pc h since ∧
          since.filter (fun e => e.thread = t) = List.replicate n (.silent t) ∧
          pc.MovedBy t since := by
  have hinv := Invariant.run hk hk' hrun hbound
  have hE : s.queue.enqueuePosition < 2 ^ 63 := by rwa [hinv.enqueue_eq]
  refine ⟨?_, ?_⟩
  · rintro t (hpush | hpop)
    · exact .push hpush (hinv.difference_enqueue hE)
    · exact .pop hpop (hinv.difference_dequeue hE)
  · intro t pc n e s' hturn hs hreload
    obtain ⟨⟨e', queue, pc'⟩, hs', heq⟩ := Option.map_eq_some_iff.mp hs
    cases heq
    have hstale := hinv.stale_of_reload hE hturn hs' (by simpa using hreload)
    obtain ⟨since, hload, hown⟩ := loadedBefore_run (fun _ => rfl) hrun hturn
    exact ⟨since, hload, hown, hinv.movedBy hk hk' hbound hturn hload hown hstale⟩

/-- Two slots: a push has loaded position 0, which another push then takes.  The
first one repeats its turn once, because of that claim, and returns. -/
theorem queue_operations_finish_alone_stale :
    let schedule : List (Bool × Choice ℕ) :=
      (true, .call (.push 1)) :: List.replicate 2 (true, .run) ++
        (false, .call (.push 2)) :: List.replicate 6 (false, .run)
    let r := machine.exec (State.create 0 (2 ^ 1)) schedule
    ReturnsAlone true 2 r.2 ∧
      ∃ since, LoadedBefore (State.create 0 (2 ^ 1)) true (.pushLoadSequence 1 0) r.1 since ∧
        Pc.MovedBy true since (.pushLoadSequence 1 0) := by
  intro schedule r
  obtain ⟨halone, hrepeat⟩ := queue_operations_finish_alone le_rfl (by norm_num) 0
    (machine.run_exec (State.create 0 (2 ^ 1)) schedule) (by decide)
  refine ⟨halone true (Or.inl rfl), ?_⟩
  obtain ⟨⟨e, s'⟩, hs, hreload⟩ := Option.map_eq_some_iff.mp
    (show (machine.step r.2 (true, .run)).map (fun x => (x.2.pc true).reloads) = some true by decide)
  obtain ⟨since, hload, -, hmoved⟩ :=
    hrepeat true (.pushLoadSequence 1 0) 0 e s' rfl hs hreload
  exact ⟨since, hload, hmoved⟩

end BcConcurrency.Queue
