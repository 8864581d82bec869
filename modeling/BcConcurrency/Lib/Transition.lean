import Mathlib.Tactic

/-!
# Labelled machines and their runs

A machine is a step function: in a state, a choice of the environment (which
thread runs, which outcome a call outside the program has) either is not
enabled or produces one event and the next state.  A run is a finite sequence
of steps together with the history of the events it produced.  Properties of
whole runs are properties of pairs of a history and a state, and they are
proved by one induction, `Run.invariant`.
-/

namespace BcConcurrency

/-- A machine with states `σ`, choices `κ` and events `ε`. -/
structure Machine (σ κ ε : Type*) where
  /-- The step taken in a state for a choice, if it is enabled. -/
  step : σ → κ → Option (ε × σ)

namespace Machine

variable {σ κ ε : Type*} (M : Machine σ κ ε)

/-- The runs from `s₀`, with the history of their events. -/
inductive Run (s₀ : σ) : List ε → σ → Prop
  | nil : Run s₀ [] s₀
  | snoc {h : List ε} {s s' : σ} {c : κ} {e : ε} :
      Run s₀ h s → M.step s c = some (e, s') → Run s₀ (h ++ [e]) s'

/-- A choice is enabled in a state. -/
def Enabled (s : σ) (c : κ) : Prop := (M.step s c).isSome

namespace Run

variable {M} {s₀ s₁ s₂ : σ} {h h₁ h₂ : List ε}

/-- What holds at the start and is kept by every step holds after every run. -/
theorem invariant {P : List ε → σ → Prop} (hinit : P [] s₀)
    (hstep : ∀ h s c e s', M.Run s₀ h s → P h s → M.step s c = some (e, s') → P (h ++ [e]) s')
    (hrun : M.Run s₀ h s₁) : P h s₁ := by
  induction hrun with
  | nil => exact hinit
  | snoc hrun hs ih => exact hstep _ _ _ _ _ hrun ih hs

lemma single {c : κ} {e : ε} (hs : M.step s₀ c = some (e, s₁)) : M.Run s₀ [e] s₁ :=
  Run.snoc Run.nil hs

lemma trans (hrun : M.Run s₀ h₁ s₁) (hrun' : M.Run s₁ h₂ s₂) : M.Run s₀ (h₁ ++ h₂) s₂ := by
  induction hrun' with
  | nil => simpa using hrun
  | snoc _ hs ih => simpa [← List.append_assoc] using Run.snoc ih hs

lemma cons {c : κ} {e : ε} (hs : M.step s₀ c = some (e, s₁)) (hrun : M.Run s₁ h s₂) :
    M.Run s₀ (e :: h) s₂ := by
  simpa using (Run.single hs).trans hrun

/-- A run whose history is split passes through a state between the parts. -/
lemma split (hrun : M.Run s₀ (h₁ ++ h₂) s₂) : ∃ s, M.Run s₀ h₁ s ∧ M.Run s h₂ s₂ := by
  generalize hh : h₁ ++ h₂ = h at hrun
  induction hrun generalizing h₂ with
  | nil =>
    obtain ⟨rfl, rfl⟩ := List.append_eq_nil_iff.mp hh
    exact ⟨s₀, Run.nil, Run.nil⟩
  | @snoc h s s' c e hrun hs ih =>
    rcases List.eq_nil_or_concat h₂ with rfl | ⟨h₃, e', rfl⟩
    · rw [List.append_nil] at hh
      subst hh
      exact ⟨s', Run.snoc hrun hs, Run.nil⟩
    · rw [List.concat_eq_append, ← List.append_assoc] at hh
      obtain ⟨hh₁, hh₂⟩ := List.append_inj' hh rfl
      obtain ⟨s'', hrun₁, hrun₂⟩ := ih hh₁
      simp only [List.cons.injEq, and_true] at hh₂
      subst hh₂
      exact ⟨s'', hrun₁, by simpa using Run.snoc hrun₂ hs⟩

/-- The step that produced an event of the history. -/
lemma split_event {e : ε} (hrun : M.Run s₀ (h₁ ++ e :: h₂) s₂) :
    ∃ s c s', M.Run s₀ h₁ s ∧ M.step s c = some (e, s') ∧ M.Run s' h₂ s₂ := by
  rw [List.append_cons] at hrun
  obtain ⟨s', hrun₁, hrun₂⟩ := hrun.split
  generalize hh : h₁ ++ [e] = h at hrun₁
  cases hrun₁ with
  | nil => simp at hh
  | @snoc h s s' c e' hrun hs =>
    obtain ⟨hh₁, hh₂⟩ := List.append_inj' hh rfl
    simp only [List.cons.injEq, and_true] at hh₂
    subst hh₁ hh₂
    exact ⟨s, c, s', hrun, hs, hrun₂⟩

end Run

/-- The machine whose events also record the choices of the environment. -/
def withChoices : Machine σ κ (κ × ε) where
  step := fun s c => (M.step s c).map fun (e, s') => ((c, e), s')

variable {M} in
lemma step_of_withChoices {s s' : σ} {c : κ} {e : κ × ε} (hs : M.withChoices.step s c = some (e, s')) :
    e.1 = c ∧ M.step s c = some (e.2, s') := by
  obtain ⟨⟨e', s''⟩, hs', heq⟩ := Option.map_eq_some_iff.mp hs
  cases heq
  exact ⟨rfl, hs'⟩

variable {M} in
/-- Without the choices it is a run of the machine itself. -/
lemma Run.of_withChoices {s₀ s : σ} {h : List (κ × ε)} (hrun : M.withChoices.Run s₀ h s) :
    M.Run s₀ (h.map Prod.snd) s := by
  induction hrun with
  | nil => exact Run.nil
  | snoc _ hs ih =>
    rw [List.map_append]
    exact Run.snoc ih (step_of_withChoices hs).2

variable {M} in
/-- Refinement with stuttering.  The events of `M` that `N` has are matched by a
step of `N`, the others by none; `H` is what is known of the histories. -/
theorem Run.simulate {σ' κ' ε' : Type*} {N : Machine σ' κ' ε'} (observe : ε → Option ε')
    {H : List ε → Prop} {R : σ → σ' → Prop} {s₀ s₁ : σ} {u₀ : σ'} {h : List ε}
    (hinit : R s₀ u₀) (hshorter : ∀ h e, H (h ++ [e]) → H h)
    (hstep : ∀ h s c e s' u, H (h ++ [e]) → N.Run u₀ (h.filterMap observe) u → R s u →
      M.step s c = some (e, s') → ∃ u', N.Run u (observe e).toList u' ∧ R s' u')
    (hrun : M.Run s₀ h s₁) (hh : H h) : ∃ u, N.Run u₀ (h.filterMap observe) u ∧ R s₁ u := by
  induction hrun with
  | nil => exact ⟨u₀, Run.nil, hinit⟩
  | @snoc h s s' c e hrun hs ih =>
    obtain ⟨u, hu, hrel⟩ := ih (hshorter h e hh)
    obtain ⟨u', hu', hrel'⟩ := hstep h s c e s' u hh hu hrel hs
    refine ⟨u', ?_, hrel'⟩
    have happend : (h ++ [e]).filterMap observe = h.filterMap observe ++ (observe e).toList := by
      cases he : observe e <;> simp [he]
    rw [happend]
    exact hu.trans hu'

/-- Run a list of choices, skipping those that are not enabled. -/
def exec (s : σ) : List κ → List ε × σ
  | [] => ([], s)
  | c :: cs =>
      match M.step s c with
      | none => exec s cs
      | some (e, s') => (e :: (exec s' cs).1, (exec s' cs).2)

lemma run_exec (s : σ) (cs : List κ) : M.Run s (M.exec s cs).1 (M.exec s cs).2 := by
  induction cs generalizing s with
  | nil => exact Run.nil
  | cons c cs ih =>
    rcases hs : M.step s c with _ | ⟨e, s'⟩
    · simpa [exec, hs] using ih s
    · simpa [exec, hs] using Run.cons hs (ih s')

end Machine

end BcConcurrency
