import Mathlib.Data.List.Basic
import Mathlib.Logic.Relation

/-!
# Happens-before

An execution is the list of its events in the order in which they took effect.
An event happens before a later one if they are of one thread, or if the first
releases an object that the second acquires, or by a chain of such pairs.  What
is not ordered in this way may have been seen in either order.
-/

namespace BcConcurrency

variable {ε θ ω : Type*}

/-- The event at a position. -/
def At (h : List ε) (a : ℕ) (e : ε) : Prop := h[a]? = some e

namespace At

variable {h h' : List ε} {a : ℕ} {e e' : ε}

lemma lt (he : At h a e) : a < h.length := (List.getElem?_eq_some_iff.mp he).1

lemma append (he : At h a e) (h' : List ε) : At (h ++ h') a e :=
  (List.getElem?_append_left he.lt).trans he

lemma last (h : List ε) (e : ε) : At (h ++ [e]) h.length e := by simp [At]

lemma of_append (he : At (h ++ h') a e) (hlt : a < h.length) : At h a e :=
  (List.getElem?_append_left hlt).symm.trans he

/-- The last event, or one before it. -/
lemma snoc_cases (he : At (h ++ [e']) a e) : At h a e ∨ a = h.length ∧ e = e' := by
  have hlt := he.lt
  rw [List.length_append, List.length_singleton] at hlt
  rcases Nat.lt_succ_iff_lt_or_eq.mp hlt with hlt | rfl
  · exact Or.inl (he.of_append hlt)
  · exact Or.inr ⟨rfl, by simpa [At, eq_comm] using he⟩

lemma of_mem (he : e ∈ h) : ∃ a, At h a e := by
  obtain ⟨a, hlt, heq⟩ := List.mem_iff_getElem.mp he
  exact ⟨a, List.getElem?_eq_some_iff.mpr ⟨hlt, heq⟩⟩

/-- The events from a position on. -/
lemma shift (he : At h' a e) (h : List ε) : At (h ++ h') (h.length + a) e := by
  rw [At, List.getElem?_append_right (Nat.le_add_right _ _), Nat.add_sub_cancel_left]
  exact he

/-- An event splits its history. -/
lemma split (he : At h a e) : ∃ h₁ h₂, h = h₁ ++ e :: h₂ ∧ h₁.length = a := by
  obtain ⟨hlt, rfl⟩ := List.getElem?_eq_some_iff.mp he
  refine ⟨h.take a, h.drop (a + 1), ?_, by simp [Nat.le_of_lt hlt]⟩
  rw [← List.drop_eq_getElem_cons hlt, List.take_append_drop]

end At

/-- Whose event it is, and which synchronization objects it acquires and releases. -/
structure Synchronization (ε θ ω : Type*) where
  thread : ε → θ
  acquires : ε → List ω
  releases : ε → List ω

namespace Synchronization

variable (S : Synchronization ε θ ω) (h : List ε)

/-- The first event is ordered before the second without a third. -/
def Ordered (e f : ε) : Prop := S.thread e = S.thread f ∨ ∃ o ∈ S.releases e, o ∈ S.acquires f

/-- A pair of positions with ordered events. -/
def Edge (a b : ℕ) : Prop := a < b ∧ ∃ e f, At h a e ∧ At h b f ∧ S.Ordered e f

/-- The event at the first position happens before the event at the second. -/
def HappensBefore : ℕ → ℕ → Prop := Relation.TransGen (S.Edge h)

variable {S h} {a b c : ℕ} {e f : ε}

lemma HappensBefore.trans (hab : S.HappensBefore h a b) (hbc : S.HappensBefore h b c) :
    S.HappensBefore h a c := Relation.TransGen.trans hab hbc

/-- What comes later does not change the order. -/
lemma HappensBefore.append (hab : S.HappensBefore h a b) (h' : List ε) :
    S.HappensBefore (h ++ h') a b := by
  refine Relation.TransGen.mono (fun a b hedge => ?_) _ _ hab
  obtain ⟨hlt, e, f, he, hf, hord⟩ := hedge
  exact ⟨hlt, e, f, he.append h', hf.append h', hord⟩

/-- Events of one thread. -/
lemma happensBefore_of_thread (hlt : a < b) (he : At h a e) (hf : At h b f)
    (hthread : S.thread e = S.thread f) : S.HappensBefore h a b :=
  Relation.TransGen.single ⟨hlt, e, f, he, hf, Or.inl hthread⟩

/-- A release and a later acquisition of one object. -/
lemma happensBefore_of_sync {o : ω} (hlt : a < b) (he : At h a e) (hf : At h b f)
    (hrelease : o ∈ S.releases e) (hacquire : o ∈ S.acquires f) : S.HappensBefore h a b :=
  Relation.TransGen.single ⟨hlt, e, f, he, hf, Or.inr ⟨o, hrelease, hacquire⟩⟩

end Synchronization

end BcConcurrency
