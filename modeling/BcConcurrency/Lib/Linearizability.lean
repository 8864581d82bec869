import BcConcurrency.Lib.Transition

/-!
# Linearizability

A shared object is specified by what one operation does when it runs alone on
the object's state.  A history of calls and returns is linearizable if its
completed operations, with some of the pending ones, can be put into one order
that respects real time and in which every operation does what the
specification says.

The specification may allow an operation more when it overlaps certain others in
the history, or when certain others had not returned before it was called; one
that does not look at this is a plain sequential object.

A machine is shown to be linearizable by following the atomic object, which
serves every operation at one point between its call and its return.
-/

namespace BcConcurrency

/-- What a thread shows to its environment: it calls an operation, or the
operation returns. -/
inductive Action (ι ω ρ : Type*)
  | call (thread : ι) (operation : ω)
  | ret (thread : ι) (result : ρ)

/-- What a specification may know of a call besides its operation: the operations
of the calls that it overlaps, and those of the calls that had returned before it
was made. -/
structure Surroundings (ω : Type*) where
  overlaps : ω → Prop
  preceded : ω → Prop

/-- A call with more freedom: it overlaps more, and less was over before it. -/
structure Surroundings.Le {ω : Type*} (around around' : Surroundings ω) : Prop where
  overlaps : ∀ op, around.overlaps op → around'.overlaps op
  preceded : ∀ op, around'.preceded op → around.preceded op

lemma Surroundings.Le.trans {ω : Type*} {a b c : Surroundings ω} (h : a.Le b) (h' : b.Le c) :
    a.Le c :=
  ⟨fun op ho => h'.overlaps op (h.overlaps op ho), fun op hp => h.preceded op (h'.preceded op hp)⟩

/-- The specification of an object with states `σ`, operations `ω` and results `ρ`. -/
structure ObjectSpec (σ ω ρ : Type*) where
  serves : Surroundings ω → σ → ω → ρ → σ → Prop
  mono : ∀ {around around' : Surroundings ω} {s s' : σ} {op : ω} {r : ρ}, around.Le around' →
    serves around s op r s' → serves around' s op r s'

namespace Linearizability

variable {ι σ ω ρ : Type*} {h h' : List (Action ι ω ρ)} {t t' : ι} {op op' : ω} {r r' : ρ} {n m : ℕ}

/-! ### Calls and their returns -/

/-- The call at `n` returns at `m`: the first return of its thread after it. -/
def Returns (h : List (Action ι ω ρ)) (n m : ℕ) (r : ρ) : Prop :=
  n < m ∧ ∃ t op, h[n]? = some (.call t op) ∧ h[m]? = some (.ret t r) ∧
    ∀ j r', n < j → j < m → h[j]? ≠ some (.ret t r')

/-- The call at `n` is one of `t` that has not returned. -/
def Pending (h : List (Action ι ω ρ)) (t : ι) (n : ℕ) (op : ω) : Prop :=
  h[n]? = some (.call t op) ∧ ∀ j r, n < j → h[j]? ≠ some (.ret t r)

/-- The call at `n` overlaps one of `op`: neither returned before the other began. -/
def Overlaps (h : List (Action ι ω ρ)) (n : ℕ) (op : ω) : Prop :=
  ∃ n', n' ≠ n ∧ (∃ t, h[n']? = some (.call t op)) ∧
    (∀ m r, Returns h n' m r → n < m) ∧ ∀ m r, Returns h n m r → n' < m

/-- A call of `op` had returned before `n`. -/
def Preceded (h : List (Action ι ω ρ)) (n : ℕ) (op : ω) : Prop :=
  ∃ n' m r t, h[n']? = some (.call t op) ∧ Returns h n' m r ∧ m < n

/-- What a history says of the call at `n`. -/
def surroundings (h : List (Action ι ω ρ)) (n : ℕ) : Surroundings ω :=
  ⟨Overlaps h n, Preceded h n⟩

lemma Pending.lt (hp : Pending h t n op) : n < h.length :=
  (List.getElem?_eq_some_iff.mp hp.1).1

lemma Returns.lt_length (hret : Returns h n m r) : m < h.length := by
  obtain ⟨-, t, op, -, hm, -⟩ := hret
  exact (List.getElem?_eq_some_iff.mp hm).1

lemma Pending.not_returns (hp : Pending h t n op) : ¬ Returns h n m r := by
  rintro ⟨hnm, t', op', hn, hm, -⟩
  rw [hp.1] at hn
  cases hn
  exact hp.2 m r hnm hm

lemma getElem?_snoc {a b : Action ι ω ρ} :
    (h ++ [a])[n]? = some b ↔ h[n]? = some b ∨ n = h.length ∧ a = b := by
  rcases lt_trichotomy n h.length with hn | rfl | hn
  · simp [List.getElem?_append_left hn, hn.ne]
  · simp
  · have hnone : h[n]? = none := List.getElem?_eq_none hn.le
    have hnone' : (h ++ [a])[n]? = none := List.getElem?_eq_none (by simpa using hn)
    simp [hnone, hnone', hn.ne']

/-- A new call does not return anything. -/
lemma returns_snoc_call : Returns (h ++ [.call t op]) n m r ↔ Returns h n m r := by
  constructor
  · rintro ⟨hnm, t', op', hn, hm, hfirst⟩
    have hm' : h[m]? = some (.ret t' r) := by simpa [getElem?_snoc] using hm
    have hlt := (List.getElem?_eq_some_iff.mp hm').1
    refine ⟨hnm, t', op', ?_, hm', ?_⟩
    · rcases getElem?_snoc.mp hn with hn | ⟨rfl, -⟩
      · exact hn
      · omega
    · intro j r' hj hj' heq
      exact hfirst j r' hj hj' (getElem?_snoc.mpr (Or.inl heq))
  · rintro ⟨hnm, t', op', hn, hm, hfirst⟩
    refine ⟨hnm, t', op', getElem?_snoc.mpr (Or.inl hn), getElem?_snoc.mpr (Or.inl hm), ?_⟩
    intro j r' hj hj'
    simpa [getElem?_snoc] using hfirst j r' hj hj'

/-- A new return ends the pending calls of its thread. -/
lemma returns_snoc_ret : Returns (h ++ [.ret t r]) n m r' ↔
    Returns h n m r' ∨ m = h.length ∧ r' = r ∧ ∃ op, Pending h t n op := by
  constructor
  · rintro ⟨hnm, t', op', hn, hm, hfirst⟩
    have hn' : h[n]? = some (.call t' op') := by simpa [getElem?_snoc] using hn
    rcases getElem?_snoc.mp hm with hm' | ⟨rfl, heq⟩
    · refine Or.inl ⟨hnm, t', op', hn', hm', ?_⟩
      intro j r'' hj hj' heq
      exact hfirst j r'' hj hj' (getElem?_snoc.mpr (Or.inl heq))
    · cases heq
      refine Or.inr ⟨rfl, rfl, op', hn', ?_⟩
      intro j r'' hj heq
      exact hfirst j r'' hj (List.getElem?_eq_some_iff.mp heq).1 (getElem?_snoc.mpr (Or.inl heq))
  · rintro (hret | ⟨rfl, rfl, op, hp⟩)
    · have hlt := hret.lt_length
      obtain ⟨hnm, t', op', hn, hm, hfirst⟩ := hret
      refine ⟨hnm, t', op', getElem?_snoc.mpr (Or.inl hn), getElem?_snoc.mpr (Or.inl hm), ?_⟩
      intro j r'' hj hj' heq
      rcases getElem?_snoc.mp heq with heq | ⟨rfl, -⟩
      · exact hfirst j r'' hj hj' heq
      · omega
    · refine ⟨hp.lt, t, op, getElem?_snoc.mpr (Or.inl hp.1), by simp, ?_⟩
      intro j r'' hj hj' heq
      rcases getElem?_snoc.mp heq with heq | ⟨rfl, -⟩
      · exact hp.2 j r'' hj heq
      · omega

lemma pending_snoc_call : Pending (h ++ [.call t op]) t' n op' ↔
    Pending h t' n op' ∨ n = h.length ∧ t = t' ∧ op = op' := by
  have hret : ∀ (j : ℕ) (r : ρ), (h ++ [Action.call t op])[j]? = some (Action.ret t' r) ↔
      h[j]? = some (Action.ret t' r) := by
    intro j r
    simp [getElem?_snoc]
  have hlast : ∀ (j : ℕ) (r : ρ), h.length < j → h[j]? ≠ some (Action.ret t' r) := by
    intro j r hj
    simp [List.getElem?_eq_none hj.le]
  constructor
  · rintro ⟨hn, hno⟩
    rcases getElem?_snoc.mp hn with hn | ⟨rfl, heq⟩
    · exact Or.inl ⟨hn, fun j r hj heq => hno j r hj ((hret j r).mpr heq)⟩
    · cases heq
      exact Or.inr ⟨rfl, rfl, rfl⟩
  · rintro (⟨hn, hno⟩ | ⟨rfl, rfl, rfl⟩)
    · exact ⟨getElem?_snoc.mpr (Or.inl hn), fun j r hj heq => hno j r hj ((hret j r).mp heq)⟩
    · exact ⟨by simp, fun j r hj heq => hlast j r hj ((hret j r).mp heq)⟩

lemma pending_snoc_ret : Pending (h ++ [.ret t r]) t' n op ↔ t ≠ t' ∧ Pending h t' n op := by
  constructor
  · rintro ⟨hn, hno⟩
    have hn' : h[n]? = some (.call t' op) := by simpa [getElem?_snoc] using hn
    have hlt := (List.getElem?_eq_some_iff.mp hn').1
    refine ⟨?_, hn', fun j r' hj heq => hno j r' hj (getElem?_snoc.mpr (Or.inl heq))⟩
    rintro rfl
    exact hno h.length r hlt (by simp)
  · rintro ⟨hne, hn, hno⟩
    refine ⟨getElem?_snoc.mpr (Or.inl hn), ?_⟩
    intro j r' hj heq
    rcases getElem?_snoc.mp heq with heq | ⟨-, heq⟩
    · exact hno j r' hj heq
    · cases heq
      exact hne rfl

/-- Later returns are returns after every earlier call. -/
lemma Returns.snoc_inv {a : Action ι ω ρ} (hret : Returns (h ++ [a]) n m r) :
    Returns h n m r ∨ m = h.length := by
  cases a with
  | call t op => exact Or.inl (returns_snoc_call.mp hret)
  | ret t r' =>
    rcases returns_snoc_ret.mp hret with hret | ⟨hm, -⟩
    · exact Or.inl hret
    · exact Or.inr hm

lemma Returns.snoc (a : Action ι ω ρ) (hret : Returns h n m r) : Returns (h ++ [a]) n m r := by
  cases a with
  | call t op => exact returns_snoc_call.mpr hret
  | ret t r' => exact returns_snoc_ret.mpr (Or.inl hret)

lemma Overlaps.snoc (a : Action ι ω ρ) (hn : n < h.length) (ho : Overlaps h n op) :
    Overlaps (h ++ [a]) n op := by
  obtain ⟨n', hne, ⟨t, hcall⟩, hafter, hbefore⟩ := ho
  have hn' := (List.getElem?_eq_some_iff.mp hcall).1
  refine ⟨n', hne, ⟨t, getElem?_snoc.mpr (Or.inl hcall)⟩, ?_, ?_⟩
  · intro m r hret
    rcases hret.snoc_inv with hret | rfl
    · exact hafter m r hret
    · exact hn
  · intro m r hret
    rcases hret.snoc_inv with hret | rfl
    · exact hbefore m r hret
    · exact hn'

/-- What had returned before a call does not change any more. -/
lemma preceded_snoc (a : Action ι ω ρ) (hn : n ≤ h.length) :
    Preceded (h ++ [a]) n op ↔ Preceded h n op := by
  constructor
  · rintro ⟨n', m, r, t, hcall, hret, hlt⟩
    have hold : Returns h n' m r := by
      rcases hret.snoc_inv with hold | rfl
      · exact hold
      · omega
    refine ⟨n', m, r, t, ?_, hold, hlt⟩
    have hn' := hold.1.trans hold.lt_length
    rwa [List.getElem?_append_left hn'] at hcall
  · rintro ⟨n', m, r, t, hcall, hret, hlt⟩
    exact ⟨n', m, r, t, getElem?_snoc.mpr (Or.inl hcall), hret.snoc a, hlt⟩

/-- A call that is still to be made follows everything that has returned. -/
lemma preceded_length : Preceded h h.length op ↔
    ∃ n m r t, h[n]? = some (.call t op) ∧ Returns h n m r := by
  constructor
  · rintro ⟨n, m, r, t, hcall, hret, -⟩
    exact ⟨n, m, r, t, hcall, hret⟩
  · rintro ⟨n, m, r, t, hcall, hret⟩
    exact ⟨n, m, r, t, hcall, hret, hret.lt_length⟩

lemma surroundings_le_snoc (a : Action ι ω ρ) (hn : n < h.length) :
    (surroundings h n).Le (surroundings (h ++ [a]) n) where
  overlaps := fun _ ho => ho.snoc a hn
  preceded := fun _ hp => (preceded_snoc a hn.le).mp hp

/-- Two calls that are pending at the same time overlap. -/
lemma Pending.overlaps (hp : Pending h t n op) (hp' : Pending h t' m op') (hne : m ≠ n) :
    Overlaps h n op' :=
  ⟨m, hne, ⟨t', hp'.1⟩, fun _ _ hret => absurd hret hp'.not_returns,
    fun _ _ hret => absurd hret hp.not_returns⟩

/-! ### Linearizations -/

/-- The operations of a list, in its order, lead from one state of the object
to another; `around` says what surrounds each call. -/
inductive Legal (spec : ObjectSpec σ ω ρ) (around : ℕ → Surroundings ω) (s₀ : σ) :
    List (ℕ × ω × ρ) → σ → Prop
  | nil : Legal spec around s₀ [] s₀
  | snoc {order : List (ℕ × ω × ρ)} {s s' : σ} {n : ℕ} {op : ω} {r : ρ} :
      Legal spec around s₀ order s → spec.serves (around n) s op r s' →
        Legal spec around s₀ (order ++ [(n, op, r)]) s'

lemma Legal.mono {spec : ObjectSpec σ ω ρ} {around around' : ℕ → Surroundings ω} {s₀ s : σ}
    {order : List (ℕ × ω × ρ)} (hl : Legal spec around s₀ order s)
    (hle : ∀ n ∈ order.map Prod.fst, (around n).Le (around' n)) :
    Legal spec around' s₀ order s := by
  induction hl with
  | nil => exact Legal.nil
  | snoc _ hs ih =>
    refine Legal.snoc (ih fun n hn => hle n (by simp_all)) (spec.mono (hle _ (by simp)) hs)

/-- An order of operations of a history, each with the index of its call and
its result: every completed operation is in it with the result it returned, no
operation stands before one that had returned when it was called, and the
object allows the order. -/
structure Linearization (spec : ObjectSpec σ ω ρ) (s₀ : σ) (h : List (Action ι ω ρ))
    (order : List (ℕ × ω × ρ)) (s : σ) : Prop where
  nodup : (order.map Prod.fst).Nodup
  called : ∀ n op r, (n, op, r) ∈ order → ∃ t, h[n]? = some (.call t op)
  completed : ∀ n m r, Returns h n m r → ∃ op, (n, op, r) ∈ order
  realTime : order.Pairwise fun first second =>
    ¬ ∃ m r, Returns h second.1 m r ∧ m < first.1
  legal : Legal spec (surroundings h) s₀ order s

/-- A history has a linearization from the initial state of the object. -/
def Linearizable (spec : ObjectSpec σ ω ρ) (s₀ : σ) (h : List (Action ι ω ρ)) : Prop :=
  ∃ order s, Linearization spec s₀ h order s

namespace Linearization

variable {spec : ObjectSpec σ ω ρ} {s₀ s s' : σ} {order : List (ℕ × ω × ρ)}

lemma lt_length (hlin : Linearization spec s₀ h order s) (hn : n ∈ order.map Prod.fst) :
    n < h.length := by
  obtain ⟨⟨n, op, r⟩, hmem, rfl⟩ := List.mem_map.mp hn
  obtain ⟨t, hcall⟩ := hlin.called n op r hmem
  exact (List.getElem?_eq_some_iff.mp hcall).1

/-- An action that completes only operations of the order keeps it a linearization. -/
lemma snoc (hlin : Linearization spec s₀ h order s) (a : Action ι ω ρ)
    (hnew : ∀ n m r, Returns (h ++ [a]) n m r → Returns h n m r ∨ ∃ op, (n, op, r) ∈ order) :
    Linearization spec s₀ (h ++ [a]) order s where
  nodup := hlin.nodup
  called := by
    intro n op r hmem
    obtain ⟨t, hcall⟩ := hlin.called n op r hmem
    exact ⟨t, getElem?_snoc.mpr (Or.inl hcall)⟩
  completed := by
    intro n m r hret
    rcases hnew n m r hret with hret | hmem
    · exact hlin.completed n m r hret
    · exact hmem
  realTime := by
    refine hlin.realTime.imp_of_mem ?_
    rintro first second hfirst - hno ⟨m, r, hret, hlt⟩
    have hlen := hlin.lt_length (List.mem_map_of_mem (f := Prod.fst) hfirst)
    rcases hret.snoc_inv with hret | rfl
    · exact hno ⟨m, r, hret, hlt⟩
    · omega
  legal := hlin.legal.mono fun _ hn => surroundings_le_snoc a (hlin.lt_length hn)

/-- A pending operation can be served next. -/
lemma serve (hlin : Linearization spec s₀ h order s) (hp : Pending h t n op)
    (hn : n ∉ order.map Prod.fst) (hs : spec.serves (surroundings h n) s op r s') :
    Linearization spec s₀ h (order ++ [(n, op, r)]) s' where
  nodup := by
    rw [List.map_append]
    refine hlin.nodup.append (by simp) ?_
    simpa using hn
  called := by
    intro n' op' r' hmem
    rcases List.mem_append.mp hmem with hmem | hmem
    · exact hlin.called n' op' r' hmem
    · cases List.mem_singleton.mp hmem
      exact ⟨t, hp.1⟩
  completed := by
    intro n' m r' hret
    obtain ⟨op', hmem⟩ := hlin.completed n' m r' hret
    exact ⟨op', List.mem_append_left _ hmem⟩
  realTime := by
    refine List.pairwise_append.mpr ⟨hlin.realTime, by simp, ?_⟩
    rintro first - second hsecond ⟨m, r', hret, -⟩
    cases List.mem_singleton.mp hsecond
    exact hp.not_returns hret
  legal := hlin.legal.snoc hs

end Linearization

/-! ### The atomic object -/

/-- Where the current operation of a thread is: not begun, called, or served
with a result that it has not returned yet. -/
inductive Status (ω ρ : Type*)
  | idle
  | called (operation : ω)
  | served (operation : ω) (result : ρ)

/-- The operation in progress. -/
def Status.operation : Status ω ρ → Option ω
  | .idle => none
  | .called op | .served op _ => some op

lemma Status.operation_eq_none {status : Status ω ρ} : status.operation = none ↔ status = .idle := by
  cases status <;> simp [operation]

/-- An object whose operations take effect at one point.  `around` records of the
current operation of a thread which others were in progress at the same time, and
which had returned when it was called; `returned` those that have returned by now. -/
structure AtomicObject (σ ι ω ρ : Type*) where
  object : σ
  status : ι → Status ω ρ
  around : ι → Surroundings ω
  returned : ω → Prop

namespace AtomicObject

variable {spec : ObjectSpec σ ω ρ} {a a' a'' : AtomicObject σ ι ω ρ}

/-- No operation is in progress. -/
@[simps] def create (s₀ : σ) : AtomicObject σ ι ω ρ where
  object := s₀
  status := fun _ => .idle
  around := fun _ => ⟨fun _ => False, fun _ => False⟩
  returned := fun _ => False

variable [DecidableEq ι]

/-- A thread calls an operation. -/
@[simps] def call (a : AtomicObject σ ι ω ρ) (t : ι) (op : ω) : AtomicObject σ ι ω ρ where
  object := a.object
  status := Function.update a.status t (.called op)
  around := fun t' =>
    if t' = t then ⟨fun op' => ∃ u, u ≠ t ∧ (a.status u).operation = some op', a.returned⟩
    else ⟨fun op' => (a.around t').overlaps op' ∨ a.status t' ≠ .idle ∧ op' = op,
      (a.around t').preceded⟩
  returned := a.returned

/-- The object serves the operation of a thread. -/
@[simps] def serve (a : AtomicObject σ ι ω ρ) (t : ι) (s : σ) (op : ω) (r : ρ) :
    AtomicObject σ ι ω ρ where
  object := s
  status := Function.update a.status t (.served op r)
  around := a.around
  returned := a.returned

/-- The operation of a thread returns. -/
@[simps] def ret (a : AtomicObject σ ι ω ρ) (t : ι) (op : ω) : AtomicObject σ ι ω ρ where
  object := a.object
  status := Function.update a.status t .idle
  around := a.around
  returned := fun op' => a.returned op' ∨ op' = op

/-- The runs of the atomic object, with the actions that they show. -/
inductive Run (spec : ObjectSpec σ ω ρ) (a : AtomicObject σ ι ω ρ) :
    List (Action ι ω ρ) → AtomicObject σ ι ω ρ → Prop
  | nil : Run spec a [] a
  | call {h : List (Action ι ω ρ)} {b : AtomicObject σ ι ω ρ} {t : ι} {op : ω} :
      Run spec a h b → b.status t = .idle → Run spec a (h ++ [.call t op]) (b.call t op)
  | serve {h : List (Action ι ω ρ)} {b : AtomicObject σ ι ω ρ} {t : ι} {op : ω} {r : ρ} {s : σ} :
      Run spec a h b → b.status t = .called op → spec.serves (b.around t) b.object op r s →
        Run spec a h (b.serve t s op r)
  | ret {h : List (Action ι ω ρ)} {b : AtomicObject σ ι ω ρ} {t : ι} {op : ω} {r : ρ} :
      Run spec a h b → b.status t = .served op r → Run spec a (h ++ [.ret t r]) (b.ret t op)

lemma Run.trans (hrun : Run spec a h a') (hrun' : Run spec a' h' a'') :
    Run spec a (h ++ h') a'' := by
  induction hrun' with
  | nil => simpa using hrun
  | call _ hs ih =>
    rw [← List.append_assoc]
    exact ih.call hs
  | serve _ hs hserves ih => exact ih.serve hs hserves
  | ret _ hs ih =>
    rw [← List.append_assoc]
    exact ih.ret hs

/-- Operations in progress at the same time overlap. -/
lemma Run.overlaps {s₀ : σ} (hrun : Run spec (create s₀) h a) (hne : t ≠ t')
    (ht : a.status t ≠ .idle) (ht' : (a.status t').operation = some op) :
    (a.around t).overlaps op := by
  induction hrun generalizing t t' with
  | nil => exact absurd rfl ht
  | @call h b u op' _ hidle ih =>
    simp only [call_status, call_around] at ht ht' ⊢
    by_cases htu : t = u
    · subst htu
      rw [if_pos rfl]
      exact ⟨t', hne.symm, by rwa [Function.update_of_ne hne.symm] at ht'⟩
    · rw [if_neg htu]
      rw [Function.update_of_ne htu] at ht
      by_cases htu' : t' = u
      · subst htu'
        rw [Function.update_self] at ht'
        exact Or.inr ⟨ht, (Option.some.inj ht').symm⟩
      · rw [Function.update_of_ne htu'] at ht'
        exact Or.inl (ih hne ht ht')
  | @serve h b u op' r s _ hcalled _ ih =>
    -- serving leaves the operations in progress as they are
    have hkeep (v : ι) : ((b.serve u s op' r).status v).operation = (b.status v).operation := by
      by_cases hvu : v = u
      · subst hvu
        rw [serve_status, Function.update_self, hcalled]
        rfl
      · rw [serve_status, Function.update_of_ne hvu]
    rw [hkeep] at ht'
    refine ih hne ?_ ht'
    rwa [ne_eq, ← Status.operation_eq_none, hkeep, Status.operation_eq_none] at ht
  | @ret h b u op' r _ hserved ih =>
    have hother {v : ι} (hv : (b.ret u op').status v ≠ .idle) : v ≠ u := by
      rintro rfl
      exact hv (by rw [ret_status, Function.update_self])
    have hidle' : (b.ret u op').status t' ≠ .idle := by
      rw [ne_eq, ← Status.operation_eq_none, ht']
      simp
    have hu := hother ht
    have hu' := hother hidle'
    rw [ret_status, Function.update_of_ne hu] at ht
    rw [ret_status, Function.update_of_ne hu'] at ht'
    exact ih hne ht ht'

/-! ### Runs of the atomic object are linearizable -/

/-- The order in which an atomic object has served its operations, with the
index of the current call of every thread. -/
structure Served (spec : ObjectSpec σ ω ρ) (s₀ : σ) (h : List (Action ι ω ρ))
    (a : AtomicObject σ ι ω ρ) (order : List (ℕ × ω × ρ)) (current : ι → ℕ) : Prop where
  linearization : Linearization spec s₀ h order a.object
  pending : ∀ t n op, Pending h t n op → (a.status t).operation = some op ∧ n = current t
  called : ∀ t op, a.status t = .called op →
    Pending h t (current t) op ∧ current t ∉ order.map Prod.fst
  served : ∀ t op r, a.status t = .served op r →
    Pending h t (current t) op ∧ (current t, op, r) ∈ order
  around : ∀ t, a.status t ≠ .idle → (a.around t).Le (surroundings h (current t))
  returned : ∀ op, Preceded h h.length op → a.returned op

omit [DecidableEq ι] in
lemma Served.pending_of_operation {s₀ : σ} {order : List (ℕ × ω × ρ)} {current : ι → ℕ}
    (hs : Served spec s₀ h a order current) (ht : (a.status t).operation = some op) :
    Pending h t (current t) op := by
  cases hstatus : a.status t with
  | idle => simp [hstatus, Status.operation] at ht
  | called op' =>
    obtain rfl : op' = op := by simpa [hstatus, Status.operation] using ht
    exact (hs.called t op' hstatus).1
  | served op' r =>
    obtain rfl : op' = op := by simpa [hstatus, Status.operation] using ht
    exact (hs.served t op' r hstatus).1

omit [DecidableEq ι] in
lemma Served.exists_pending {s₀ : σ} {order : List (ℕ × ω × ρ)} {current : ι → ℕ}
    (hs : Served spec s₀ h a order current) (ht : a.status t ≠ .idle) :
    ∃ op, Pending h t (current t) op := by
  rw [ne_eq, ← Status.operation_eq_none, ← ne_eq, Option.ne_none_iff_exists'] at ht
  obtain ⟨op, hop⟩ := ht
  exact ⟨op, hs.pending_of_operation hop⟩

namespace Served

variable {s₀ : σ} {order : List (ℕ × ω × ρ)} {current : ι → ℕ}

omit [DecidableEq ι] in
lemma create : Served spec s₀ [] (create s₀ : AtomicObject σ ι ω ρ) [] current where
  linearization :=
    { nodup := by simp
      called := by simp
      completed := by
        intro n m r hret
        exact absurd hret.lt_length (by simp)
      realTime := List.Pairwise.nil
      legal := Legal.nil }
  pending := by
    intro t n op hp
    exact absurd hp.lt (by simp)
  called := by simp
  served := by simp
  around := by simp
  returned := by
    rintro op ⟨n, m, r, t, hcall, -⟩
    simp at hcall

lemma call (hs : Served spec s₀ h a order current) (hidle : a.status t = .idle) (op : ω) :
    Served spec s₀ (h ++ [.call t op]) (a.call t op) order
      (Function.update current t h.length) := by
  have hpending : ∀ {u n op'}, Pending h u n op' → Pending (h ++ [.call t op]) u n op' :=
    fun hp => pending_snoc_call.mpr (Or.inl hp)
  have hnew : Pending (h ++ [.call t op]) t h.length op :=
    pending_snoc_call.mpr (Or.inr ⟨rfl, rfl, rfl⟩)
  constructor
  case linearization =>
    exact hs.linearization.snoc _ fun n m r hret => Or.inl (returns_snoc_call.mp hret)
  case pending =>
    intro u n op' hp
    rcases pending_snoc_call.mp hp with hp | ⟨rfl, rfl, rfl⟩
    · obtain ⟨hstatus, rfl⟩ := hs.pending u n op' hp
      have hu : u ≠ t := by
        rintro rfl
        simp [hidle, Status.operation] at hstatus
      simpa [Function.update_of_ne hu] using hstatus
    · simp [Status.operation]
  case called =>
    intro u op' hstatus
    by_cases hu : u = t
    · subst hu
      simp only [call_status, Function.update_self, Status.called.injEq] at hstatus
      subst hstatus
      rw [Function.update_self]
      exact ⟨hnew, fun hmem => lt_irrefl _ (hs.linearization.lt_length hmem)⟩
    · rw [Function.update_of_ne hu]
      obtain ⟨hp, hmem⟩ := hs.called u op' (by simpa [Function.update_of_ne hu] using hstatus)
      exact ⟨hpending hp, hmem⟩
  case served =>
    intro u op' r hstatus
    have hu : u ≠ t := by
      rintro rfl
      simp at hstatus
    rw [Function.update_of_ne hu]
    obtain ⟨hp, hmem⟩ := hs.served u op' r (by simpa [Function.update_of_ne hu] using hstatus)
    exact ⟨hpending hp, hmem⟩
  case around =>
    intro u hstatus
    by_cases hu : u = t
    · subst hu
      rw [call_around, if_pos rfl, Function.update_self]
      constructor
      · rintro op' ⟨v, -, hv⟩
        have hpv := hs.pending_of_operation hv
        exact hnew.overlaps (hpending hpv) hpv.lt.ne
      · intro op' hprec
        exact hs.returned op' ((preceded_snoc _ le_rfl).mp hprec)
    · have hstatus' : a.status u ≠ .idle := by simpa [Function.update_of_ne hu] using hstatus
      obtain ⟨opu, hpu⟩ := hs.exists_pending hstatus'
      have hle := hs.around u hstatus'
      rw [call_around, if_neg hu, Function.update_of_ne hu]
      constructor
      · rintro op' (ho | ⟨-, rfl⟩)
        · exact (hle.overlaps op' ho).snoc _ hpu.lt
        -- the new call overlaps every operation that is in progress
        · exact (hpending hpu).overlaps hnew hpu.lt.ne'
      · intro op' hprec
        exact hle.preceded op' ((preceded_snoc _ hpu.lt.le).mp hprec)
  case returned =>
    intro op' hprec
    rw [preceded_length] at hprec
    obtain ⟨n, m, r, u, hcall, hret⟩ := hprec
    have hret' := returns_snoc_call.mp hret
    rw [List.getElem?_append_left (hret'.1.trans hret'.lt_length)] at hcall
    exact hs.returned op' (preceded_length.mpr ⟨n, m, r, u, hcall, hret'⟩)

lemma serve (hs : Served spec s₀ h a order current) (hcalled : a.status t = .called op) {s : σ}
    (hserves : spec.serves (a.around t) a.object op r s) :
    Served spec s₀ h (a.serve t s op r) (order ++ [(current t, op, r)]) current := by
  obtain ⟨hpt, hnot⟩ := hs.called t op hcalled
  have hcurrent : ∀ {u n op'}, Pending h u n op' → u ≠ t → n ≠ current t := by
    rintro u n op' hp hu rfl
    have heq := hp.1
    rw [hpt.1] at heq
    cases heq
    exact hu rfl
  have hkeep : ∀ {u}, (a.serve t s op r).status u ≠ .idle → a.status u ≠ .idle := by
    intro u hu
    by_cases hut : u = t
    · subst hut
      simp [hcalled]
    · simpa [Function.update_of_ne hut] using hu
  constructor
  case linearization =>
    exact hs.linearization.serve hpt hnot (spec.mono (hs.around t (by simp [hcalled])) hserves)
  case pending =>
    intro u n op' hp
    obtain ⟨hstatus, rfl⟩ := hs.pending u n op' hp
    refine ⟨?_, rfl⟩
    by_cases hu : u = t
    · subst hu
      simpa [hcalled, Status.operation] using hstatus
    · simpa [Function.update_of_ne hu] using hstatus
  case called =>
    intro u op' hstatus
    have hu : u ≠ t := by
      rintro rfl
      simp at hstatus
    obtain ⟨hp, hmem⟩ := hs.called u op' (by simpa [Function.update_of_ne hu] using hstatus)
    refine ⟨hp, ?_⟩
    rw [List.map_append, List.mem_append, not_or]
    exact ⟨hmem, by simpa using hcurrent hp hu⟩
  case served =>
    intro u op' r' hstatus
    by_cases hu : u = t
    · subst hu
      simp only [serve_status, Function.update_self, Status.served.injEq] at hstatus
      obtain ⟨rfl, rfl⟩ := hstatus
      exact ⟨hpt, by simp⟩
    · obtain ⟨hp, hmem⟩ := hs.served u op' r' (by simpa [Function.update_of_ne hu] using hstatus)
      exact ⟨hp, List.mem_append_left _ hmem⟩
  case around => exact fun u hstatus => hs.around u (hkeep hstatus)
  case returned => exact hs.returned

lemma ret (hs : Served spec s₀ h a order current) (hserved : a.status t = .served op r) :
    Served spec s₀ (h ++ [.ret t r]) (a.ret t op) order current := by
  obtain ⟨hpt, hmem⟩ := hs.served t op r hserved
  have hpending : ∀ {u n op'}, Pending h u n op' → u ≠ t → Pending (h ++ [.ret t r]) u n op' :=
    fun hp hu => pending_snoc_ret.mpr ⟨hu.symm, hp⟩
  have hother : ∀ {u}, (a.ret t op).status u ≠ .idle → u ≠ t := by
    rintro u hu rfl
    simp at hu
  constructor
  case linearization =>
    refine hs.linearization.snoc _ ?_
    intro n m r' hret
    rcases returns_snoc_ret.mp hret with hret | ⟨-, rfl, op', hp⟩
    · exact Or.inl hret
    · rw [(hs.pending t n op' hp).2]
      exact Or.inr ⟨op, hmem⟩
  case pending =>
    intro u n op' hp
    obtain ⟨hu, hp⟩ := pending_snoc_ret.mp hp
    simpa [Function.update_of_ne hu.symm] using hs.pending u n op' hp
  case called =>
    intro u op' hstatus
    have hu : u ≠ t := hother (by rw [hstatus]; simp)
    obtain ⟨hp, hmem⟩ := hs.called u op' (by simpa [Function.update_of_ne hu] using hstatus)
    exact ⟨hpending hp hu, hmem⟩
  case served =>
    intro u op' r' hstatus
    have hu : u ≠ t := hother (by rw [hstatus]; simp)
    obtain ⟨hp, hmem⟩ := hs.served u op' r' (by simpa [Function.update_of_ne hu] using hstatus)
    exact ⟨hpending hp hu, hmem⟩
  case around =>
    intro u hstatus
    have hu := hother hstatus
    have hstatus' : a.status u ≠ .idle := by simpa [Function.update_of_ne hu] using hstatus
    obtain ⟨op', hp⟩ := hs.exists_pending hstatus'
    exact (hs.around u hstatus').trans (surroundings_le_snoc _ hp.lt)
  case returned =>
    intro op' hprec
    rw [preceded_length] at hprec
    obtain ⟨n, m, r', u, hcall, hret⟩ := hprec
    rcases returns_snoc_ret.mp hret with hret | ⟨-, -, op'', hp⟩
    · rw [List.getElem?_append_left (hret.1.trans hret.lt_length)] at hcall
      exact Or.inl (hs.returned op' (preceded_length.mpr ⟨n, m, r', u, hcall, hret⟩))
    · -- the call that returns now is the current one of its thread
      rw [List.getElem?_append_left hp.lt, hp.1] at hcall
      cases hcall
      obtain ⟨hop, -⟩ := hs.pending t n op' hp
      rw [hserved] at hop
      exact Or.inr (Option.some.inj hop).symm

end Served

/-- Every history that the atomic object shows is linearizable. -/
theorem Run.linearizable {s₀ : σ} (hrun : Run spec (create s₀) h a) :
    Linearizable spec s₀ h := by
  suffices hserved : ∃ order current, Served spec s₀ h a order current by
    obtain ⟨order, current, hs⟩ := hserved
    exact ⟨order, a.object, hs.linearization⟩
  induction hrun with
  | nil => exact ⟨[], fun _ => 0, Served.create⟩
  | call _ hidle ih =>
    obtain ⟨order, current, hs⟩ := ih
    exact ⟨_, _, hs.call hidle _⟩
  | serve _ hcalled hserves ih =>
    obtain ⟨order, current, hs⟩ := ih
    exact ⟨_, _, hs.serve hcalled hserves⟩
  | ret _ hserved ih =>
    obtain ⟨order, current, hs⟩ := ih
    exact ⟨_, _, hs.ret hserved⟩

end AtomicObject

/-! ### Machines that follow an atomic object -/

variable [DecidableEq ι] {τ κ ε : Type*}

/-- A machine whose steps can be followed by an atomic object that shows the
same actions is linearizable.  `good` is an assumption about the history that
holds of every prefix. -/
theorem linearizable_of_follows {M : Machine τ κ ε} {spec : ObjectSpec σ ω ρ} {s₀ : σ} {x₀ x : τ}
    {action : ε → Option (Action ι ω ρ)} (good : List ε → Prop) {hist : List ε}
    {R : List ε → τ → AtomicObject σ ι ω ρ → Prop}
    (hgood : ∀ hist e, good (hist ++ [e]) → good hist) (hinit : R [] x₀ (.create s₀))
    (hstep : ∀ hist x c e x' a, M.Run x₀ hist x → good (hist ++ [e]) →
      AtomicObject.Run spec (.create s₀) (hist.filterMap action) a → R hist x a →
      M.step x c = some (e, x') →
      ∃ a', AtomicObject.Run spec a (action e).toList a' ∧ R (hist ++ [e]) x' a')
    (hrun : M.Run x₀ hist x) (hh : good hist) : Linearizable spec s₀ (hist.filterMap action) := by
  have hfollows : good hist →
      ∃ a, AtomicObject.Run spec (.create s₀) (hist.filterMap action) a ∧ R hist x a := by
    refine hrun.invariant (P := fun hist x => good hist → ∃ a,
      AtomicObject.Run spec (.create s₀) (hist.filterMap action) a ∧ R hist x a) ?_ ?_
    · intro _
      exact ⟨_, .nil, hinit⟩
    · intro hist x c e x' hrun ih hs hh
      obtain ⟨a, ha, hR⟩ := ih (hgood hist e hh)
      obtain ⟨a', ha', hR'⟩ := hstep hist x c e x' a hrun hh ha hR hs
      refine ⟨a', ?_, hR'⟩
      have := ha.trans ha'
      cases he : action e <;> simpa [List.filterMap_append, he] using this
  obtain ⟨a, ha, -⟩ := hfollows hh
  exact ha.linearizable

end Linearizability

end BcConcurrency
