import BcConcurrency.Signal.Handlers

/-!
# Delivering signals

Histories in which a process creates, installs on and destroys handlers while signals
arrive at any time, between two calls or in the middle of a destruction.  A signal that
arrives is reported by the handler which `global_signal_handler_pointer` names, and that
is the handler created last, whichever handler the signal was installed on.
-/

namespace BcConcurrency.Signal

/-- A process with the rest of the destruction that it is in the middle of. -/
structure System where
  process : Process
  pending : List DestroyStep

/-- What can happen next: a call begins, a destruction goes on, or a signal arrives.  The
other calls change nothing that a signal could see before they are over. -/
inductive Choice
  | create (block : Option ℕ)
  | install (handler : ℕ) (signal : ℤ)
  | destroy (handler : Option ℕ)
  | resume
  | deliver (signal : ℤ)
deriving DecidableEq

namespace System

/-- The next state.  Calls are made one after the other, with handlers that are alive;
the pool returns memory that is not in use. -/
def next (catchable : ℤ → Bool) (system : System) : Choice → Option System
  | .create none => if system.pending = [] then some system else none
  | .create (some block) =>
      if system.pending = [] ∧ system.process.handlers block = none then
        some ⟨system.process.create (some block), []⟩
      else none
  | .install handler signal =>
      if system.pending = [] ∧ system.process.handlers handler ≠ none then
        some ⟨(system.process.install catchable handler signal).2, []⟩
      else none
  | .destroy none => if system.pending = [] then some system else none
  | .destroy (some handler) =>
      if system.pending = [] ∧ system.process.handlers handler ≠ none then
        some ⟨system.process, system.process.destroySteps handler⟩
      else none
  | .resume =>
      match system.pending with
      | [] => none
      | step :: pending => some ⟨step.run system.process, pending⟩
  | .deliver signal => some { system with process := system.process.deliver signal }

/-- The state after a history, if each of its choices is possible. -/
def after (catchable : ℤ → Bool) (system : System) (choices : List Choice) : Option System :=
  choices.foldlM (next catchable) system

/-- A process that has made no handlers yet. -/
def start (actions : Table) : System := ⟨⟨fun _ => none, none, actions⟩, []⟩

variable {catchable : ℤ → Bool} {system system' : System} {choices choices' : List Choice}

@[simp] lemma after_nil : system.after catchable [] = some system := rfl

lemma after_append :
    system.after catchable (choices ++ choices') =
      (system.after catchable choices).bind fun s => s.after catchable choices' :=
  List.foldlM_append

lemma after_cons {choice : Choice} :
    system.after catchable (choice :: choices) =
      (system.next catchable choice).bind fun s => s.after catchable choices := rfl

/-- An uninterrupted destruction does what `bc_concurrency_signal_handler_destroy` does. -/
theorem after_destroy (process : Process) {handler : ℕ} (halive : process.handlers handler ≠ none) :
    (⟨process, []⟩ : System).after catchable
      (.destroy (some handler) ::
        List.replicate (process.destroySteps handler).length .resume) =
        some ⟨process.destroy handler, []⟩ := by
  have hresume (steps : List DestroyStep) (process : Process) :
      (⟨process, steps⟩ : System).after catchable (List.replicate steps.length .resume) =
        some ⟨steps.foldl DestroyStep.run process, []⟩ := by
    induction steps generalizing process with
    | nil => rfl
    | cons step steps ih =>
      rw [List.length_cons, List.replicate_succ, after_cons]
      exact ih (step.run process)
  rw [after_cons, next, if_pos ⟨rfl, halive⟩]
  exact hresume _ process

end System

/-! ### What the signals have to do -/

section Properties

variable (catchable : ℤ → Bool) (system : System)

/-- Whenever `install` has returned true and the signal arrives before the handler is
destroyed, the handler reports that it should stop until it is destroyed. -/
def Reports (choices : List Choice) : Prop :=
  ∀ pre mid post rest handler signal before system',
    choices = pre ++ .install handler signal :: (mid ++ .deliver signal :: (post ++ rest)) →
    system.after catchable pre = some before →
    (before.process.install catchable handler signal).1 = true →
    .destroy (some handler) ∉ mid ++ post →
    system.after catchable (pre ++ .install handler signal :: (mid ++ .deliver signal :: post)) =
      some system' →
    system'.process.shouldStop handler = some true

/-- The callback only writes to handlers in memory. -/
def WritesAlive (choices : List Choice) : Prop :=
  ∀ pre post signal handler before,
    choices = pre ++ .deliver signal :: post → system.after catchable pre = some before →
    before.process.written signal = some handler → before.process.handlers handler ≠ none

/-- The handler is alive: it is in memory, and its destruction has not begun. -/
def System.Alive (system : System) (handler : ℕ) : Prop :=
  system.process.handlers handler ≠ none ∧ .release handler ∉ system.pending

/-- The signal is among those installed on the handler. -/
def Process.Holds (process : Process) (handler : ℕ) (signal : ℤ) : Prop :=
  ∃ h, process.handlers handler = some h ∧ signal ∈ h.installed.map Prod.fst

/-- Whenever a signal arrives, every handler that is alive and holds it reports that it
should stop already, or it is the one that the shared pointer names, and the signal
still has the callback. -/
def Routed (choices : List Choice) : Prop :=
  ∀ pre post signal handler before,
    choices = pre ++ .deliver signal :: post → system.after catchable pre = some before →
    before.Alive handler → before.process.Holds handler signal →
    before.process.shouldStop handler = some true ∨
      (before.process.globalPointer = some handler ∧ before.process.actions signal = .callback)

/-- The handler is the one that was created last. -/
def CreatedLast (choices : List Choice) (handler : ℕ) : Prop :=
  ∃ pre post, choices = pre ++ .create (some handler) :: post ∧
    ∀ block, .create (some block) ∉ post

/-- Whenever a signal arrives, every handler that is alive and holds it reports that it
should stop already, or it was created last, and the signal still has the callback. -/
def RoutedToLast (choices : List Choice) : Prop :=
  ∀ pre post signal handler before,
    choices = pre ++ .deliver signal :: post → system.after catchable pre = some before →
    before.Alive handler → before.process.Holds handler signal →
    before.process.shouldStop handler = some true ∨
      (CreatedLast pre handler ∧ before.process.actions signal = .callback)

/-- No handler is created while another one is in memory. -/
def OneAtATime (choices : List Choice) : Prop :=
  ∀ pre post block before,
    choices = pre ++ .create (some block) :: post → system.after catchable pre = some before →
    ∀ handler, before.process.handlers handler = none

end Properties

/-! ### What a step can do -/

/-- The steps of a system. -/
inductive Step (catchable : ℤ → Bool) (system : System) : Choice → System → Prop
  | refused (hidle : system.pending = []) : Step catchable system (.create none) system
  | created {block : ℕ} (hidle : system.pending = [])
      (hfree : system.process.handlers block = none) :
      Step catchable system (.create (some block)) ⟨system.process.create (some block), []⟩
  | notInstalled {handler : ℕ} {signal : ℤ} {h : Handler} (hidle : system.pending = [])
      (hhandler : system.process.handlers handler = some h)
      (hfail : (system.process.install catchable handler signal).1 = false) :
      Step catchable system (.install handler signal) system
  | installed {handler : ℕ} {signal : ℤ} {h : Handler} (hidle : system.pending = [])
      (hhandler : system.process.handlers handler = some h)
      (hok : (system.process.install catchable handler signal).1 = true) :
      Step catchable system (.install handler signal)
        ⟨{ system.process with
            handlers := Function.update system.process.handlers handler
              (some { h with installed := h.installed ++ [(signal, system.process.actions signal)] })
            actions := Function.update system.process.actions signal .callback }, []⟩
  | nothing (hidle : system.pending = []) : Step catchable system (.destroy none) system
  | destroying {handler : ℕ} (hidle : system.pending = [])
      (halive : system.process.handlers handler ≠ none) :
      Step catchable system (.destroy (some handler))
        ⟨system.process, system.process.destroySteps handler⟩
  | restored {signal : ℤ} {action : SigAction} {pending : List DestroyStep}
      (hpending : system.pending = .restore signal action :: pending) :
      Step catchable system .resume
        ⟨{ system.process with
            actions := Function.update system.process.actions signal action }, pending⟩
  | retracted {handler : ℕ} {pending : List DestroyStep}
      (hpending : system.pending = .retract handler :: pending) :
      Step catchable system .resume
        ⟨{ system.process with
            globalPointer := if system.process.globalPointer = some handler then none
              else system.process.globalPointer }, pending⟩
  | released {handler : ℕ} {pending : List DestroyStep}
      (hpending : system.pending = .release handler :: pending) :
      Step catchable system .resume
        ⟨{ system.process with
            handlers := Function.update system.process.handlers handler none }, pending⟩
  | delivered {signal : ℤ} :
      Step catchable system (.deliver signal)
        { system with process := system.process.deliver signal }

section Steps

variable {catchable : ℤ → Bool} {system system' : System} {choice : Choice} {handler : ℕ}
  {signal : ℤ}

lemma System.next_cases (hstep : system.next catchable choice = some system') :
    Step catchable system choice system' := by
  cases choice with
  | create block =>
    cases block with
    | none =>
      obtain ⟨hidle, heq⟩ := Option.ite_none_right_eq_some.mp hstep
      cases heq
      exact .refused hidle
    | some block =>
      obtain ⟨⟨hidle, hfree⟩, heq⟩ := Option.ite_none_right_eq_some.mp hstep
      cases heq
      exact .created hidle hfree
  | install handler signal =>
    obtain ⟨⟨hidle, halive⟩, heq⟩ := Option.ite_none_right_eq_some.mp hstep
    obtain ⟨h, hhandler⟩ := Option.ne_none_iff_exists'.mp halive
    have hcases := Process.install_cases catchable signal hhandler
    cases heq
    rcases hcases with hinstall | hinstall
    · have hsame : system = ⟨system.process, []⟩ := by rw [← hidle]
      rw [hinstall, ← hsame]
      exact .notInstalled hidle hhandler (by rw [hinstall])
    · rw [hinstall]
      exact .installed hidle hhandler (by rw [hinstall])
  | destroy handler =>
    cases handler with
    | none =>
      obtain ⟨hidle, heq⟩ := Option.ite_none_right_eq_some.mp hstep
      cases heq
      exact .nothing hidle
    | some handler =>
      obtain ⟨⟨hidle, halive⟩, heq⟩ := Option.ite_none_right_eq_some.mp hstep
      cases heq
      exact .destroying hidle halive
  | resume =>
    rw [System.next] at hstep
    rcases hpending : system.pending with _ | ⟨step, pending⟩
    · simp [hpending] at hstep
    · rw [hpending] at hstep
      obtain rfl := Option.some.inj hstep
      cases step with
      | restore signal action => exact .restored hpending
      | retract handler =>
        have hrun : DestroyStep.run system.process (.retract handler) =
            { system.process with
              globalPointer := if system.process.globalPointer = some handler then none
                else system.process.globalPointer } := by
          rw [DestroyStep.run]
          split <;> rfl
        rw [hrun]
        exact .retracted hpending
      | release handler => exact .released hpending
  | deliver signal =>
    obtain rfl := Option.some.inj hstep
    exact .delivered

lemma release_mem_destroySteps {process : Process} {other : ℕ}
    (h : .release handler ∈ process.destroySteps other) : other = handler := by
  rw [Process.destroySteps] at h
  split at h
  · simp at h
  · simpa [eq_comm] using h

/-- A handler keeps what was installed on it and its flag until it is destroyed. -/
lemma Step.keeps (hstep : Step catchable system choice system') {h : Handler}
    (hne : choice ≠ .destroy (some handler)) (hhandler : system.process.handlers handler = some h)
    (hpending : .release handler ∉ system.pending) :
    .release handler ∉ system'.pending ∧
      ∃ h', system'.process.handlers handler = some h' ∧ h.installed <+: h'.installed ∧
        (h.shouldStopFlag = true → h'.shouldStopFlag = true) := by
  cases hstep with
  | refused | notInstalled | nothing => exact ⟨hpending, h, hhandler, List.prefix_rfl, id⟩
  | @created block hidle hfree =>
    have hblock : handler ≠ block := by
      rintro rfl
      rw [hfree] at hhandler
      cases hhandler
    exact ⟨by simp, h, (Function.update_of_ne hblock ..).trans hhandler, List.prefix_rfl, id⟩
  | @installed other s ho hidle hother hok =>
    refine ⟨by simp, ?_⟩
    rcases eq_or_ne handler other with rfl | hne
    · obtain rfl := Option.some.inj (hhandler.symm.trans hother)
      exact ⟨_, Function.update_self .., List.prefix_append _ _, id⟩
    · exact ⟨h, (Function.update_of_ne hne ..).trans hhandler, List.prefix_rfl, id⟩
  | @destroying other hidle halive =>
    refine ⟨fun hmem => hne ?_, h, hhandler, List.prefix_rfl, id⟩
    rw [release_mem_destroySteps hmem]
  | restored hsteps | retracted hsteps =>
    rw [hsteps] at hpending
    exact ⟨fun hmem => hpending (List.mem_cons_of_mem _ hmem), h, hhandler, List.prefix_rfl, id⟩
  | @released other pending hsteps =>
    rw [hsteps] at hpending
    have hother : handler ≠ other := by
      rintro rfl
      exact hpending (List.mem_cons_self ..)
    exact ⟨fun hmem => hpending (List.mem_cons_of_mem _ hmem), h,
      (Function.update_of_ne hother ..).trans hhandler, List.prefix_rfl, id⟩
  | @delivered s =>
    refine ⟨hpending, { h with shouldStopFlag := h.shouldStopFlag ||
      (system.process.written s = some handler) }, ?_, List.prefix_rfl, ?_⟩
    · rw [Process.deliver_handlers, hhandler, Option.map_some]
    · intro hflag
      simp [hflag]

/-- A handler that is alive and holds a signal was so before, or the signal has just been
installed on it. -/
lemma Step.holds_inv (hstep : Step catchable system choice system') (halive : system'.Alive handler)
    (hholds : system'.process.Holds handler signal) :
    (choice ≠ .destroy (some handler) ∧ system.Alive handler ∧
        system.process.Holds handler signal) ∨
      (choice = .install handler signal ∧
        (system.process.install catchable handler signal).1 = true) := by
  obtain ⟨hmemory, hpending⟩ := halive
  obtain ⟨h, hhandler, hmem⟩ := hholds
  cases hstep with
  | refused | notInstalled | nothing =>
    exact Or.inl ⟨by simp, ⟨hmemory, hpending⟩, h, hhandler, hmem⟩
  | @created block hidle hfree =>
    -- a new handler holds no signals
    rcases eq_or_ne handler block with rfl | hne
    · simp only [Process.create, Function.update_self, Option.some.injEq] at hhandler
      subst hhandler
      simp at hmem
    · have hhandler : system.process.handlers handler = some h :=
        (Function.update_of_ne hne ..).symm.trans hhandler
      exact Or.inl ⟨by simp, ⟨by simp [hhandler], by simp [hidle]⟩, h, hhandler, hmem⟩
  | @installed other s ho hidle hother hok =>
    rcases eq_or_ne handler other with rfl | hne
    · simp only [Function.update_self, Option.some.injEq] at hhandler
      subst hhandler
      rw [List.map_append, List.mem_append] at hmem
      rcases hmem with hmem | hmem
      · exact Or.inl ⟨by simp, ⟨by simp [hother], by simp [hidle]⟩, ho, hother, hmem⟩
      · obtain rfl : signal = s := by simpa using hmem
        exact Or.inr ⟨rfl, hok⟩
    · have hhandler : system.process.handlers handler = some h :=
        (Function.update_of_ne hne ..).symm.trans hhandler
      exact Or.inl ⟨by simp, ⟨by simp [hhandler], by simp [hidle]⟩, h, hhandler, hmem⟩
  | @destroying other hidle hother =>
    refine Or.inl ⟨?_, ⟨hmemory, by simp [hidle]⟩, h, hhandler, hmem⟩
    rintro ⟨⟩
    refine hpending ?_
    rw [Process.destroySteps, hhandler]
    simp
  | restored hsteps | retracted hsteps =>
    exact Or.inl ⟨by simp, ⟨hmemory, by rw [hsteps]; simpa using hpending⟩, h, hhandler, hmem⟩
  | @released other pending hsteps =>
    have hother : handler ≠ other := by
      rintro rfl
      exact hmemory (Function.update_self ..)
    have hhandler : system.process.handlers handler = some h :=
      (Function.update_of_ne hother ..).symm.trans hhandler
    exact Or.inl ⟨by simp, ⟨by simp [hhandler], by rw [hsteps]; simpa [hother] using hpending⟩, h,
      hhandler, hmem⟩
  | @delivered s =>
    rw [Process.deliver_handlers] at hhandler
    obtain ⟨h₀, hhandler₀, rfl⟩ := Option.map_eq_some_iff.mp hhandler
    exact Or.inl ⟨by simp, ⟨by simp [hhandler₀], hpending⟩, h₀, hhandler₀, hmem⟩

/-- A handler that is alive was so before, or it has just been created. -/
lemma Step.alive_inv (hstep : Step catchable system choice system')
    (halive : system'.Alive handler) :
    choice = .create (some handler) ∨ system.Alive handler := by
  obtain ⟨hmemory, hpending⟩ := halive
  cases hstep with
  | refused | notInstalled | nothing => exact .inr ⟨hmemory, hpending⟩
  | @created block hidle hfree =>
    rcases eq_or_ne handler block with rfl | hne
    · exact .inl rfl
    · exact .inr ⟨fun hnone => hmemory ((Function.update_of_ne hne ..).trans hnone),
        by simp [hidle]⟩
  | @installed other s ho hidle hother hok =>
    refine .inr ⟨?_, by simp [hidle]⟩
    rcases eq_or_ne handler other with rfl | hne
    · simp [hother]
    · exact fun hnone => hmemory ((Function.update_of_ne hne ..).trans hnone)
  | destroying hidle hother => exact .inr ⟨hmemory, by simp [hidle]⟩
  | restored hsteps | retracted hsteps =>
    exact .inr ⟨hmemory, by rw [hsteps]; simpa using hpending⟩
  | @released other pending hsteps =>
    have hother : handler ≠ other := by
      rintro rfl
      exact hmemory (Function.update_self ..)
    exact .inr ⟨fun hnone => hmemory ((Function.update_of_ne hother ..).trans hnone),
      by rw [hsteps]; simpa [hother] using hpending⟩
  | delivered => exact .inr ⟨Process.deliver_ne_none_iff.1 hmemory, hpending⟩

end Steps

/-! ### Histories -/

section Histories

variable {catchable : ℤ → Bool} {system system' : System} {choices : List Choice} {handler : ℕ}
  {signal : ℤ} {actions : Table}

/-- What holds at the start and is kept by every step holds after every history. -/
lemma System.after_invariant {P : System → Prop}
    (hstep : ∀ s c s', P s → Step catchable s c s' → P s')
    (hafter : system.after catchable choices = some system') (hinit : P system) : P system' := by
  induction choices generalizing system with
  | nil =>
    obtain rfl := Option.some.inj hafter
    exact hinit
  | cons choice choices ih =>
    rw [after_cons, Option.bind_eq_some_iff] at hafter
    obtain ⟨s, hnext, hafter⟩ := hafter
    exact ih hafter (hstep _ _ _ hinit (next_cases hnext))

/-- The last step of a history. -/
lemma System.after_concat {choice : Choice}
    (hafter : system.after catchable (choices ++ [choice]) = some system') :
    ∃ s, system.after catchable choices = some s ∧ Step catchable s choice system' := by
  rw [after_append, Option.bind_eq_some_iff] at hafter
  obtain ⟨s, hchoices, hlast⟩ := hafter
  rw [after_cons, Option.bind_eq_some_iff] at hlast
  obtain ⟨s', hnext, hnil⟩ := hlast
  obtain rfl := Option.some.inj hnil
  exact ⟨s, hchoices, next_cases hnext⟩

/-- A handler that is not destroyed stays alive, holds what it held and stays flagged. -/
lemma System.after_keeps (hafter : system.after catchable choices = some system')
    (hne : .destroy (some handler) ∉ choices) (halive : system.Alive handler)
    (hholds : system.process.Holds handler signal) :
    system'.Alive handler ∧ system'.process.Holds handler signal ∧
      (system.process.shouldStop handler = some true →
        system'.process.shouldStop handler = some true) := by
  induction choices generalizing system with
  | nil =>
    obtain rfl := Option.some.inj hafter
    exact ⟨halive, hholds, id⟩
  | cons choice choices ih =>
    rw [after_cons, Option.bind_eq_some_iff] at hafter
    obtain ⟨s, hnext, hafter⟩ := hafter
    obtain ⟨h, hhandler, hmem⟩ := hholds
    obtain ⟨hpending', h', hhandler', hkeep, hflag⟩ := (next_cases hnext).keeps
      (fun heq => hne (by simp [heq])) hhandler halive.2
    have hkept := ih hafter (fun hmem => hne (List.mem_cons_of_mem _ hmem))
      ⟨by simp [hhandler'], hpending'⟩ ⟨h', hhandler', (hkeep.map _).mem hmem⟩
    refine ⟨hkept.1, hkept.2.1, fun hstop => hkept.2.2 ?_⟩
    rw [Process.shouldStop, hhandler, Option.map_some, Option.some.injEq] at hstop
    rw [Process.shouldStop, hhandler', Option.map_some, hflag hstop]

/-- A signal that a handler holds has been installed on it since it was created. -/
lemma System.exists_install (hafter : (start actions).after catchable choices = some system')
    (halive : system'.Alive handler) (hholds : system'.process.Holds handler signal) :
    ∃ pre mid before, choices = pre ++ .install handler signal :: mid ∧
      (start actions).after catchable pre = some before ∧
      (before.process.install catchable handler signal).1 = true ∧
      .destroy (some handler) ∉ mid := by
  induction choices using List.reverseRecOn generalizing system' with
  | nil =>
    obtain rfl := Option.some.inj hafter
    exact absurd rfl halive.1
  | append_singleton choices choice ih =>
    obtain ⟨s, hs, hstep⟩ := after_concat hafter
    rcases hstep.holds_inv halive hholds with ⟨hne, halive', hholds'⟩ | ⟨rfl, hok⟩
    · obtain ⟨pre, mid, before, rfl, hpre, hok, hmid⟩ := ih hs halive' hholds'
      refine ⟨pre, mid ++ [choice], before, by simp, hpre, hok, ?_⟩
      simpa [hmid] using hne.symm
    · exact ⟨choices, [], s, rfl, hs, hok, by simp⟩

/-- How far the destruction of a handler has come. -/
inductive Destruction (system : System) : Prop
  | idle (hidle : system.pending = [])
  | restoring (handler : ℕ) (rest : List (ℤ × SigAction))
      (hpending : system.pending = (rest.map fun (signal, action) => .restore signal action) ++
        [.retract handler, .release handler])
  | releasing (handler : ℕ) (hpending : system.pending = [.release handler])
      (hpointer : system.process.globalPointer ≠ some handler)

/-- The shared pointer names a handler in memory, and it has let go of a handler before
that one is released. -/
structure PointerValid (system : System) : Prop where
  inMemory : ∀ handler, system.process.globalPointer = some handler →
    system.process.handlers handler ≠ none
  destruction : Destruction system

lemma PointerValid.step (h : PointerValid system) {choice : Choice}
    (hstep : Step catchable system choice system') : PointerValid system' := by
  cases hstep with
  | refused | notInstalled | nothing => exact h
  | @created block hidle hfree =>
    refine ⟨?_, .idle rfl⟩
    rintro _ ⟨⟩
    simp [Process.create]
  | @installed other s ho hidle hother hok =>
    refine ⟨?_, .idle rfl⟩
    intro handler hpointer
    rcases eq_or_ne handler other with rfl | hne
    · simp
    · exact fun hnone => h.inMemory handler hpointer ((Function.update_of_ne hne ..).symm.trans hnone)
  | @destroying other hidle hother =>
    refine ⟨h.inMemory, ?_⟩
    obtain ⟨ho, hother⟩ := Option.ne_none_iff_exists'.mp hother
    exact .restoring other ho.installed (by rw [Process.destroySteps, hother])
  | @restored s action pending hsteps =>
    refine ⟨h.inMemory, ?_⟩
    obtain hidle | ⟨other, rest, hpending⟩ | ⟨other, hpending, -⟩ := h.destruction
    · simp [hidle] at hsteps
    · rcases rest with _ | ⟨entry, rest⟩
      · simp [hpending] at hsteps
      · rw [hpending, List.map_cons, List.cons_append, List.cons.injEq] at hsteps
        exact .restoring other rest hsteps.2.symm
    · simp [hpending] at hsteps
  | @retracted other pending hsteps =>
    obtain hidle | ⟨g, rest, hpending⟩ | ⟨g, hpending, -⟩ := h.destruction
    · simp [hidle] at hsteps
    · rcases rest with _ | ⟨entry, rest⟩
      · simp only [hpending, List.map_nil, List.nil_append, List.cons.injEq,
          DestroyStep.retract.injEq] at hsteps
        obtain ⟨rfl, rfl⟩ := hsteps
        refine ⟨?_, .releasing g rfl ?_⟩
        · intro handler hpointer
          dsimp only at hpointer
          split at hpointer
          · cases hpointer
          · exact h.inMemory handler hpointer
        · dsimp only
          split
          · simp
          · assumption
      · simp [hpending] at hsteps
    · simp [hpending] at hsteps
  | @released other pending hsteps =>
    obtain hidle | ⟨g, rest, hpending⟩ | ⟨g, hpending, hpointer⟩ := h.destruction
    · simp [hidle] at hsteps
    · rcases rest with _ | ⟨entry, rest⟩ <;> simp [hpending] at hsteps
    · simp only [hpending, List.cons.injEq, DestroyStep.release.injEq] at hsteps
      obtain ⟨rfl, rfl⟩ := hsteps
      refine ⟨?_, .idle rfl⟩
      intro handler hhandler hnone
      rcases eq_or_ne handler g with rfl | hne
      · exact hpointer hhandler
      · exact h.inMemory handler hhandler ((Function.update_of_ne hne ..).symm.trans hnone)
  | @delivered s =>
    refine ⟨?_, ?_⟩
    · intro handler hpointer
      rw [Process.deliver_globalPointer] at hpointer
      exact Process.deliver_ne_none_iff.mpr (h.inMemory handler hpointer)
    · obtain hidle | ⟨g, rest, hpending⟩ | ⟨g, hpending, hpointer⟩ := h.destruction
      · exact .idle hidle
      · exact .restoring g rest hpending
      · exact .releasing g hpending (by rwa [Process.deliver_globalPointer])

lemma System.pointerValid (hafter : (start actions).after catchable choices = some system') :
    PointerValid system' :=
  after_invariant (fun _ _ _ h hstep => h.step hstep) hafter ⟨by simp [start], .idle rfl⟩

lemma createdLast_concat {choice : Choice} : CreatedLast (choices ++ [choice]) handler ↔
    choice = .create (some handler) ∨
      (∀ block, choice ≠ .create (some block)) ∧ CreatedLast choices handler := by
  constructor
  · rintro ⟨pre, post, heq, hpost⟩
    rcases List.eq_nil_or_concat post with rfl | ⟨post, last, rfl⟩
    · obtain ⟨-, hlast⟩ := List.append_inj' heq rfl
      exact .inl (List.cons.inj hlast).1
    · rw [List.concat_eq_append, ← List.cons_append, ← List.append_assoc] at heq
      obtain ⟨rfl, hlast⟩ := List.append_inj' heq rfl
      obtain rfl := (List.cons.inj hlast).1
      refine .inr ⟨?_, pre, post, rfl, ?_⟩
      · rintro block rfl
        exact hpost block (by simp)
      · intro block hmem
        exact hpost block (by simp [hmem])
  · rintro (rfl | ⟨hchoice, pre, post, rfl, hpost⟩)
    · exact ⟨choices, [], rfl, by simp⟩
    · refine ⟨pre, post ++ [choice], by simp, ?_⟩
      intro block hmem
      rcases List.mem_append.1 hmem with hmem | hmem
      · exact hpost block hmem
      · exact hchoice block (List.mem_singleton.1 hmem).symm

/-- As long as a handler is alive, the shared pointer names it exactly if it was created
last. -/
lemma System.globalPointer_iff (hafter : (start actions).after catchable choices = some system')
    (halive : system'.Alive handler) :
    system'.process.globalPointer = some handler ↔ CreatedLast choices handler := by
  induction choices using List.reverseRecOn generalizing system' with
  | nil =>
    obtain rfl := Option.some.inj hafter
    exact absurd rfl halive.1
  | append_singleton choices choice ih =>
    obtain ⟨s, hs, hstep⟩ := after_concat hafter
    rw [createdLast_concat]
    have hbefore := hstep.alive_inv halive
    have hvalid := pointerValid hs
    cases hstep with
    | @created block hidle hfree => simp [Process.create]
    | refused | notInstalled | nothing | installed | destroying | restored | released =>
      simpa using ih hs (hbefore.resolve_left (by simp))
    | delivered =>
      rw [Process.deliver_globalPointer]
      simpa using ih hs (hbefore.resolve_left (by simp))
    | @retracted other pending hsteps =>
      have hsame := ih hs (hbefore.resolve_left (by simp))
      -- the handler that the pointer lets go of is no longer alive
      have hother : other ≠ handler := by
        rintro rfl
        obtain hidle | ⟨g, rest, hpending⟩ | ⟨g, hpending, -⟩ := hvalid.destruction
        · simp [hidle] at hsteps
        · rcases rest with _ | ⟨entry, rest⟩
          · simp only [hpending, List.map_nil, List.nil_append, List.cons.injEq,
              DestroyStep.retract.injEq] at hsteps
            obtain ⟨rfl, rfl⟩ := hsteps
            exact halive.2 (by simp)
          · simp [hpending] at hsteps
        · simp [hpending] at hsteps
      rw [← hsame]
      dsimp only
      split
      case isTrue hpointer => simp [hpointer, hother]
      case isFalse => simp

/-- The callback only writes to handlers in memory. -/
lemma writesAlive (catchable : ℤ → Bool) (actions : Table) (choices : List Choice) :
    WritesAlive catchable (.start actions) choices := by
  intro pre post signal handler before _ hpre hwritten
  exact (System.pointerValid hpre).inMemory handler (Process.written_eq_some_iff.mp hwritten).1

lemma shouldStop_deliver_iff {process : Process} (hmemory : process.handlers handler ≠ none) :
    (process.deliver signal).shouldStop handler = some true ↔
      process.shouldStop handler = some true ∨
        (process.globalPointer = some handler ∧ process.actions signal = .callback) := by
  rw [Process.shouldStop_deliver hmemory, Process.written_eq_some_iff]

lemma routed_iff_routedToLast (catchable : ℤ → Bool) (actions : Table) (choices : List Choice) :
    Routed catchable (.start actions) choices ↔
      RoutedToLast catchable (.start actions) choices := by
  refine forall₅_congr fun pre post signal handler before => ?_
  refine forall₂_congr fun heq hpre => forall₂_congr fun halive hholds => ?_
  rw [System.globalPointer_iff hpre halive]

/-- Signals reach their handlers exactly if they are routed to them. -/
lemma reports_iff_routed (catchable : ℤ → Bool) (actions : Table) (choices : List Choice) :
    Reports catchable (.start actions) choices ↔ Routed catchable (.start actions) choices := by
  constructor
  · rintro hreports pre post signal handler before rfl hpre halive hholds
    obtain ⟨pre, mid, start, rfl, hstart, hok, hmid⟩ := System.exists_install hpre halive hholds
    have hdelivered : (System.start actions).after catchable
        (pre ++ .install handler signal :: (mid ++ .deliver signal :: [])) =
        some { before with process := before.process.deliver signal } := by
      have hlast : pre ++ Choice.install handler signal :: (mid ++ [.deliver signal]) =
          (pre ++ .install handler signal :: mid) ++ [.deliver signal] := by simp
      rw [hlast, System.after_append, hpre]
      rfl
    have hstop := hreports pre mid [] post handler signal start _ (by simp) hstart hok
      (by simpa using hmid) hdelivered
    exact (shouldStop_deliver_iff halive.1).mp hstop
  · rintro hrouted pre mid post rest handler signal start system' rfl hstart hok hne hafter
    rw [List.mem_append, not_or] at hne
    rw [System.after_append, hstart, Option.bind_some, System.after_cons,
      Option.bind_eq_some_iff] at hafter
    obtain ⟨installed, hinstall, hafter⟩ := hafter
    rw [System.after_append, Option.bind_eq_some_iff] at hafter
    obtain ⟨before, hbefore, hafter⟩ := hafter
    rw [System.after_cons, Option.bind_eq_some_iff] at hafter
    obtain ⟨after, hdeliver, hafter⟩ := hafter
    obtain rfl := Option.some.inj hdeliver
    -- the installation leaves the handler alive and holding the signal
    have hholds : installed.Alive handler ∧ installed.process.Holds handler signal := by
      cases System.next_cases hinstall with
      | notInstalled _ _ hfail => simp [hok] at hfail
      | installed => exact ⟨⟨by simp, by simp⟩, _, Function.update_self .., by simp⟩
    obtain ⟨halive, hholds, -⟩ := System.after_keeps hbefore hne.1 hholds.1 hholds.2
    have hroute := hrouted (pre ++ .install handler signal :: mid) (post ++ rest) signal handler
      before (by simp) (by
        rw [System.after_append, hstart, Option.bind_some, System.after_cons, hinstall]
        exact hbefore) halive hholds
    have hstop : (before.process.deliver signal).shouldStop handler = some true :=
      (shouldStop_deliver_iff halive.1).mpr hroute
    have hdelivered : System.Alive { before with process := before.process.deliver signal } handler ∧
        (before.process.deliver signal).Holds handler signal := by
      obtain ⟨h, hhandler, hmem⟩ := hholds
      have hflagged := Process.deliver_handlers before.process signal handler
      rw [hhandler, Option.map_some] at hflagged
      exact ⟨⟨by simp [hflagged], halive.2⟩, _, hflagged, hmem⟩
    exact (System.after_keeps hafter hne.2 hdelivered.1 hdelivered.2).2.2 hstop

/-! ### One handler at a time -/

/-- The only handler in memory is the one that the shared pointer names, and as long as it
is alive the signals installed on it have the callback. -/
structure SingleHandler (system : System) : Prop where
  unique : ∀ g h, system.process.handlers g ≠ none → system.process.handlers h ≠ none → g = h
  pointer : ∀ h, system.Alive h → system.process.globalPointer = some h
  routed : ∀ h s, system.Alive h → system.process.Holds h s → system.process.actions s = .callback
  destroying : system.pending ≠ [] → ∀ h, ¬ system.Alive h

namespace SingleHandler

variable {process : Process}

/-- A step after which no handler is alive has nothing else to show. -/
lemma of_dead (h : SingleHandler system) {pending : List DestroyStep}
    (hmemory : ∀ g, process.handlers g ≠ none → system.process.handlers g ≠ none)
    (hdead : ∀ g, ¬ System.Alive ⟨process, pending⟩ g) : SingleHandler ⟨process, pending⟩ := by
  refine ⟨?_, fun g hg => absurd hg (hdead g), fun g _ hg => absurd hg (hdead g), fun _ => hdead⟩
  intro g g' hg hg'
  exact h.unique g g' (hmemory g hg) (hmemory g' hg')

/-- A step of a destruction. -/
lemma resume (h : SingleHandler system) {step : DestroyStep} {pending : List DestroyStep}
    (hpending : system.pending = step :: pending)
    (hmemory : ∀ g, process.handlers g ≠ none → system.process.handlers g ≠ none)
    (hreleased : ∀ g, step = .release g → process.handlers g = none) :
    SingleHandler ⟨process, pending⟩ := by
  refine h.of_dead hmemory ?_
  rintro g ⟨hg, hnot⟩
  -- it would have been alive before, when the destruction was under way already
  refine h.destroying (by simp [hpending]) g ⟨hmemory g hg, ?_⟩
  rw [hpending, List.mem_cons, not_or]
  exact ⟨fun heq => hg (hreleased g heq.symm), hnot⟩

/-- A handler is created while no other is in memory. -/
lemma created (hnone : ∀ g, system.process.handlers g = none) (block : ℕ) :
    SingleHandler ⟨system.process.create (some block), []⟩ := by
  have honly (g : ℕ) (hg : (system.process.create (some block)).handlers g ≠ none) :
      g = block := by
    by_contra hne
    exact hg ((Function.update_of_ne hne ..).trans (hnone g))
  refine ⟨fun g g' hg hg' => (honly g hg).trans (honly g' hg').symm,
    fun g hg => by rw [honly g hg.1]; rfl, ?_, by simp⟩
  intro g s hg hholds
  -- nothing is installed on it yet
  obtain ⟨hd, hhandler, hmem⟩ := hholds
  rw [honly g hg.1] at hhandler
  simp only [Process.create, Function.update_self, Option.some.injEq] at hhandler
  subst hhandler
  simp at hmem

/-- A signal is installed on a handler. -/
lemma installed (h : SingleHandler system) (hidle : system.pending = []) {other : ℕ}
    {ho : Handler} (hother : system.process.handlers other = some ho) (s : ℤ) :
    SingleHandler ⟨{ system.process with
      handlers := Function.update system.process.handlers other
        (some { ho with installed := ho.installed ++ [(s, system.process.actions s)] })
      actions := Function.update system.process.actions s .callback }, []⟩ := by
  have hmemory (g : ℕ) (hg : Function.update system.process.handlers other
      (some { ho with installed := ho.installed ++ [(s, system.process.actions s)] }) g ≠ none) :
      system.process.handlers g ≠ none := by
    rcases eq_or_ne g other with rfl | hne
    · simp [hother]
    · rwa [Function.update_of_ne hne] at hg
  have halive (g : ℕ) (hg : system.process.handlers g ≠ none) : system.Alive g :=
    ⟨hg, by simp [hidle]⟩
  refine ⟨fun g g' hg hg' => h.unique g g' (hmemory g hg) (hmemory g' hg'),
    fun g hg => h.pointer g (halive g (hmemory g hg.1)), ?_, by simp⟩
  intro g s' hg hholds
  dsimp only
  rcases eq_or_ne s' s with rfl | hne
  · exact Function.update_self ..
  -- another signal was installed on the only handler before
  rw [Function.update_of_ne hne]
  have hg' := hmemory g hg.1
  obtain rfl := h.unique g other hg' (by simp [hother])
  obtain ⟨hd, hhandler, hmem⟩ := hholds
  simp only [Function.update_self, Option.some.injEq] at hhandler
  subst hhandler
  exact h.routed g s' (halive g hg') ⟨ho, hother, by simpa [hne] using hmem⟩

/-- The destruction of a handler begins. -/
lemma destroyed (h : SingleHandler system) {other : ℕ}
    (hother : system.process.handlers other ≠ none) :
    SingleHandler ⟨system.process, system.process.destroySteps other⟩ := by
  refine h.of_dead (fun _ => id) ?_
  rintro g ⟨hg, hnot⟩
  obtain rfl := h.unique g other hg hother
  obtain ⟨hd, hhandler⟩ := Option.ne_none_iff_exists'.mp hg
  refine hnot ?_
  dsimp only
  rw [Process.destroySteps, hhandler]
  simp

/-- A signal arrives. -/
lemma delivered (h : SingleHandler system) (s : ℤ) :
    SingleHandler { system with process := system.process.deliver s } := by
  have halive (g : ℕ) (hg : System.Alive
      { system with process := system.process.deliver s } g) : system.Alive g :=
    ⟨Process.deliver_ne_none_iff.mp hg.1, hg.2⟩
  refine ⟨?_, ?_, ?_,
    fun hpending g hg => h.destroying hpending g (halive g hg)⟩
  · intro g g' hg hg'
    exact h.unique g g' (Process.deliver_ne_none_iff.mp hg) (Process.deliver_ne_none_iff.mp hg')
  · intro g hg
    rw [Process.deliver_globalPointer]
    exact h.pointer g (halive g hg)
  · intro g s' hg hholds
    rw [Process.deliver_actions]
    obtain ⟨hd, hhandler, hmem⟩ := hholds
    rw [Process.deliver_handlers] at hhandler
    obtain ⟨hd₀, hhandler₀, rfl⟩ := Option.map_eq_some_iff.mp hhandler
    exact h.routed g s' (halive g hg) ⟨hd₀, hhandler₀, hmem⟩

lemma step (h : SingleHandler system) {choice : Choice}
    (hstep : Step catchable system choice system')
    (hcreate : ∀ block, choice = .create (some block) → ∀ g, system.process.handlers g = none) :
    SingleHandler system' := by
  cases hstep with
  | refused | notInstalled | nothing => exact h
  | @created block hidle hfree => exact created (hcreate block rfl) block
  | @installed other s ho hidle hother hok => exact h.installed hidle hother s
  | @destroying other hidle hother => exact h.destroyed hother
  | restored hpending | retracted hpending =>
    exact h.resume hpending (fun _ => id) (by simp)
  | @released other pending hpending =>
    refine h.resume hpending ?_ ?_
    · intro g hg
      rcases eq_or_ne g other with rfl | hne
      · simp at hg
      · exact fun hnone => hg ((Function.update_of_ne hne ..).trans hnone)
    · rintro g ⟨⟩
      exact Function.update_self ..
  | @delivered s => exact h.delivered s

end SingleHandler

lemma System.singleHandler {rest : List Choice}
    (hone : OneAtATime catchable (start actions) (choices ++ rest))
    (hafter : (start actions).after catchable choices = some system') : SingleHandler system' := by
  induction choices using List.reverseRecOn generalizing system' rest with
  | nil =>
    obtain rfl := Option.some.inj hafter
    exact ⟨by simp [start], by simp [start, Alive], by simp [start, Alive], by simp [start]⟩
  | append_singleton choices choice ih =>
    obtain ⟨s, hs, hstep⟩ := after_concat hafter
    have hone' : OneAtATime catchable (start actions) (choices ++ choice :: rest) := by
      simpa using hone
    refine (ih hone' hs).step hstep ?_
    rintro block rfl g
    exact hone choices rest block s (by simp) hs g

/-- If no handler is created while another one is in memory, signals are routed to their
handlers. -/
lemma routed_of_oneAtATime (hone : OneAtATime catchable (.start actions) choices) :
    Routed catchable (.start actions) choices := by
  rintro pre post signal handler before rfl hpre halive hholds
  have hsingle := System.singleHandler hone hpre
  exact Or.inr ⟨hsingle.pointer handler halive, hsingle.routed handler signal halive hholds⟩

end Histories

/-- In every history the callback only writes to handlers in memory, and the signals reach
their handlers exactly if they are routed to them, that is to the handler created last; this
is so if no handler is created while another one is in memory. -/
theorem signal_reaches_handler_iff (catchable : ℤ → Bool) (actions : Table)
    (choices : List Choice) :
    (Reports catchable (.start actions) choices ∧ WritesAlive catchable (.start actions) choices ↔
        Routed catchable (.start actions) choices) ∧
      (Routed catchable (.start actions) choices ↔
        RoutedToLast catchable (.start actions) choices) ∧
      (OneAtATime catchable (.start actions) choices →
        Reports catchable (.start actions) choices ∧
          WritesAlive catchable (.start actions) choices) := by
  have hwrites := writesAlive catchable actions choices
  have hiff := reports_iff_routed catchable actions choices
  exact ⟨⟨fun h => hiff.mp h.1, fun h => ⟨hiff.mpr h, hwrites⟩⟩,
    routed_iff_routedToLast catchable actions choices,
    fun hone => ⟨hiff.mpr (routed_of_oneAtATime hone), hwrites⟩⟩

/-- A second handler takes the signals of the first one. -/
theorem signal_reaches_second_handler :
    ¬ Reports (fun _ => true) (.start fun _ => .other 0)
      [.create (some 0), .install 0 10, .create (some 1), .deliver 10] := by
  intro hreports
  have hstop := hreports [.create (some 0)] [.create (some 1)] [] [] 0 10 _ _ rfl rfl rfl
    (by simp) rfl
  cases hstop

end BcConcurrency.Signal
