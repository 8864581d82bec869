import Mathlib.Tactic

/-!
# Signal handlers

`bc_concurrency_signal_handler_create`, `bc_concurrency_signal_handler_install`,
`bc_concurrency_signal_handler_destroy`, `bc_concurrency_signal_handler_should_stop` and
the callback behind them.  A process has one disposition for each signal, and all
handlers share the pointer `global_signal_handler_pointer`.
-/

namespace BcConcurrency.Signal

/-- A `struct sigaction`: `signal_callback_function` with an empty mask and no flags, or
any other. -/
inductive SigAction
  | callback
  | other (action : ℕ)
deriving DecidableEq

/-- The dispositions of the signals. -/
abbrev Table := ℤ → SigAction

/-- `BC_CONCURRENCY_SIGNAL_MAX_INSTALLED_SIGNALS` -/
def maxInstalledSignals : ℕ := 8

/-- `struct bc_concurrency_signal_handler`.  The first `installed_signal_count` entries of
`installed_signal_numbers` and `previous_signal_actions` are a list of pairs. -/
structure Handler where
  shouldStopFlag : Bool
  installed : List (ℤ × SigAction)
deriving DecidableEq

/-- The part of a process that signal handling works on. -/
structure Process where
  /-- The handlers in memory, by their address. -/
  handlers : ℕ → Option Handler
  /-- `global_signal_handler_pointer` -/
  globalPointer : Option ℕ
  actions : Table

namespace Process

/-- `signal_callback_function` -/
def signalCallback (process : Process) : Process :=
  match process.globalPointer with
  | none => process
  | some handler =>
      { process with
        handlers := Function.update process.handlers handler
          ((process.handlers handler).map fun h => { h with shouldStopFlag := true }) }

/-- A signal arrives.  The callback is one step: it runs on the thread that makes the calls,
which does not go on before the callback returns.  Actions other than the callback do not
touch the library. -/
def deliver (process : Process) (signal : ℤ) : Process :=
  if process.actions signal = .callback then process.signalCallback else process

/-- The handler that the callback writes to when a signal arrives. -/
def written (process : Process) (signal : ℤ) : Option ℕ :=
  if process.actions signal = .callback then process.globalPointer else none

/-- `bc_concurrency_signal_handler_create` at the address that the pool returns, if it
returns any. -/
def create (process : Process) : Option ℕ → Process
  | none => process
  | some handler =>
      { process with
        handlers := Function.update process.handlers handler (some ⟨false, []⟩)
        globalPointer := some handler }

/-- `bc_concurrency_signal_handler_install`; `catchable` says for which signals
`sigaction` succeeds. -/
def install (catchable : ℤ → Bool) (process : Process) (handler : ℕ) (signal : ℤ) :
    Bool × Process :=
  match process.handlers handler with
  | none => (false, process)
  | some h =>
      if h.installed.length ≥ maxInstalledSignals then (false, process)
      else if catchable signal = false then (false, process)
      else
        (true,
          { process with
            handlers := Function.update process.handlers handler
              (some { h with installed := h.installed ++ [(signal, process.actions signal)] })
            actions := Function.update process.actions signal .callback })

/-- `bc_concurrency_signal_handler_should_stop` -/
def shouldStop (process : Process) (handler : ℕ) : Option Bool :=
  (process.handlers handler).map Handler.shouldStopFlag

end Process

/-! ### Destruction -/

/-- The steps of `bc_concurrency_signal_handler_destroy`: a `sigaction` of the loop, the
clearing of the shared pointer and the release of the memory. -/
inductive DestroyStep
  | restore (signal : ℤ) (action : SigAction)
  | retract (handler : ℕ)
  | release (handler : ℕ)
deriving DecidableEq

def DestroyStep.run (process : Process) : DestroyStep → Process
  | .restore signal action =>
      { process with actions := Function.update process.actions signal action }
  | .retract handler =>
      if process.globalPointer = some handler then { process with globalPointer := none }
      else process
  | .release handler =>
      { process with handlers := Function.update process.handlers handler none }

namespace Process

/-- The steps of the destruction of a handler. -/
def destroySteps (process : Process) (handler : ℕ) : List DestroyStep :=
  match process.handlers handler with
  | none => []
  | some h => (h.installed.map fun (signal, action) => .restore signal action) ++
      [.retract handler, .release handler]

/-- `bc_concurrency_signal_handler_destroy` -/
def destroy (process : Process) (handler : ℕ) : Process :=
  (process.destroySteps handler).foldl DestroyStep.run process

end Process

/-! ### What the operations change -/

namespace Process

variable {process : Process} {handler other : ℕ} {signal : ℤ}

@[simp] lemma create_actions (process : Process) (block : Option ℕ) :
    (process.create block).actions = process.actions := by
  cases block <;> rfl

@[simp] lemma signalCallback_actions (process : Process) :
    process.signalCallback.actions = process.actions := by
  rw [signalCallback]
  split <;> rfl

@[simp] lemma deliver_actions (process : Process) (signal : ℤ) :
    (process.deliver signal).actions = process.actions := by
  rw [deliver]
  split
  · exact process.signalCallback_actions
  · rfl

@[simp] lemma deliver_globalPointer (process : Process) (signal : ℤ) :
    (process.deliver signal).globalPointer = process.globalPointer := by
  rw [deliver, signalCallback]
  split
  · split <;> rfl
  · rfl

/-- A signal changes a flag at most: that of the handler which the callback writes to. -/
lemma deliver_handlers (process : Process) (signal : ℤ) (handler : ℕ) :
    (process.deliver signal).handlers handler =
      (process.handlers handler).map fun h =>
        { h with shouldStopFlag := h.shouldStopFlag || (process.written signal = some handler) } := by
  rw [deliver, written]
  split
  · rw [signalCallback]
    rcases hpointer : process.globalPointer with _ | pointer
    · simp
    · rcases eq_or_ne handler pointer with rfl | hne
      · simp
      · simp [hne, hne.symm]
  · simp

/-- A signal neither creates nor destroys a handler. -/
lemma deliver_ne_none_iff : (process.deliver signal).handlers handler ≠ none ↔
    process.handlers handler ≠ none := by
  rw [deliver_handlers]
  simp

/-- The callback writes to a handler if the signal has the callback and the shared pointer
names the handler. -/
lemma written_eq_some_iff : process.written signal = some handler ↔
    process.globalPointer = some handler ∧ process.actions signal = .callback := by
  rw [written]
  split
  · case isTrue hcallback => simp [hcallback]
  · case isFalse hother => simp [hother]

/-- After a signal the flag is set if it was set or if the callback writes to the handler. -/
lemma shouldStop_deliver (hmemory : process.handlers handler ≠ none) :
    (process.deliver signal).shouldStop handler = some true ↔
      process.shouldStop handler = some true ∨ process.written signal = some handler := by
  obtain ⟨h, hhandler⟩ := Option.ne_none_iff_exists'.mp hmemory
  rw [shouldStop, shouldStop, deliver_handlers, hhandler]
  simp

/-- An installation fails and changes nothing, or it saves the disposition of the signal
and replaces it. -/
lemma install_cases (catchable : ℤ → Bool) (signal : ℤ) {h : Handler}
    (hhandler : process.handlers handler = some h) :
    process.install catchable handler signal = (false, process) ∨
      process.install catchable handler signal = (true,
        { process with
          handlers := Function.update process.handlers handler
            (some { h with installed := h.installed ++ [(signal, process.actions signal)] })
          actions := Function.update process.actions signal .callback }) := by
  rw [install, hhandler]
  dsimp only
  split
  · exact Or.inl rfl
  split
  · exact Or.inl rfl
  · exact Or.inr rfl

end Process

end BcConcurrency.Signal
