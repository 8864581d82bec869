import BcConcurrency.Signal.Handlers

/-!
# Interruptible sleep

`bc_concurrency_sleep_milliseconds`.  The loop hands the time that remains to `nanosleep`;
an interrupted `nanosleep` leaves the rest of it, and only then does the loop look at the
flag of the handler.  What `nanosleep` answers and what happens to the process meanwhile is
a script, one entry for each call.
-/

namespace BcConcurrency.Signal

/-- `struct timespec` -/
structure Timespec where
  tvSec : ℤ
  tvNsec : ℤ
deriving DecidableEq

namespace Timespec

/-- The time in nanoseconds. -/
def nanoseconds (time : Timespec) : ℤ := time.tvSec * 10 ^ 9 + time.tvNsec

/-- The condition of the loop. -/
def Pending (time : Timespec) : Prop := 0 < time.tvSec ∨ 0 < time.tvNsec

instance pendingDecidable (time : Timespec) : Decidable time.Pending := inferInstanceAs (Decidable (_ ∨ _))

/-- The seconds and nanoseconds of a duration, by division. -/
def ofNanoseconds (duration : ℕ) : Timespec :=
  ⟨(duration / 1000000000 : ℕ), (duration % 1000000000 : ℕ)⟩

lemma pending_ofNanoseconds {duration : ℕ} (h : 0 < duration) :
    (ofNanoseconds duration).Pending := by
  simp only [Pending, ofNanoseconds]
  omega

end Timespec

/-! ### The loop -/

/-- What `nanosleep` returns: success, `EINTR` with the remaining time, or another error. -/
inductive Outcome
  | success
  | interrupted (remaining : Timespec)
  | error
deriving DecidableEq

/-- The answer to one call of `nanosleep`, the process as it is when the loop looks at it
after an `EINTR`, and as it is when the loop is about to call `nanosleep` again. -/
structure Round where
  outcome : Outcome
  look : Process
  next : Process

/-- A call of `nanosleep`: the request, the process as it is when the call starts, and the
answer, unless it has not come yet. -/
structure Nanosleep where
  request : Timespec
  start : Process
  answer : Option Round

/-- What `bc_concurrency_sleep_milliseconds` returns, with `*out_was_interrupted`. -/
structure Return where
  ok : Bool
  wasInterrupted : Bool
deriving DecidableEq

/-- The calls of `nanosleep` in order, and the return, unless the last call still lasts. -/
structure Sleep where
  calls : List Nanosleep
  result : Option Return

/-- The flag of the handler is set, for a handler other than `NULL`. -/
def stopSeen (handler : Option ℕ) (process : Process) : Bool :=
  match handler with
  | none => false
  | some h => process.shouldStop h = some true

/-- The loop of `bc_concurrency_sleep_milliseconds`. -/
def sleepLoop (handler : Option ℕ) : Timespec → Process → List Round → Sleep
  | remaining, now, [] =>
      if remaining.Pending then ⟨[⟨remaining, now, none⟩], none⟩
      else ⟨[], some ⟨true, false⟩⟩
  | remaining, now, round :: rest =>
      if remaining.Pending then
        match round.outcome with
        | .success => ⟨[⟨remaining, now, some round⟩], some ⟨true, false⟩⟩
        | .interrupted left =>
            if stopSeen handler round.look then
              ⟨[⟨remaining, now, some round⟩], some ⟨true, true⟩⟩
            else
              let later := sleepLoop handler left round.next rest
              ⟨⟨remaining, now, some round⟩ :: later.calls, later.result⟩
        | .error => ⟨[⟨remaining, now, some round⟩], some ⟨false, false⟩⟩
      else ⟨[], some ⟨true, false⟩⟩

/-- `bc_concurrency_sleep_milliseconds`; `safeMultiply` is `bc_core_safe_multiply`, `now` the
process as it is when the first `nanosleep` would start. -/
def sleepMilliseconds (safeMultiply : ℕ → ℕ → Option ℕ) (durationMilliseconds : ℕ)
    (handler : Option ℕ) (now : Process) (script : List Round) : Sleep :=
  if durationMilliseconds = 0 then ⟨[], some ⟨true, false⟩⟩
  else
    match safeMultiply durationMilliseconds 1000000 with
    | none => ⟨[], some ⟨false, false⟩⟩
    | some durationNanoseconds =>
        sleepLoop handler (.ofNanoseconds durationNanoseconds) now script

/-- `bc_core_safe_multiply` fails exactly on overflow. -/
structure ExactMultiply (safeMultiply : ℕ → ℕ → Option ℕ) : Prop where
  fits : ∀ a b, a * b < 2 ^ 64 → safeMultiply a b = some (a * b)
  overflows : ∀ a b, 2 ^ 64 ≤ a * b → safeMultiply a b = none

/-! ### The ways through the loop -/

/-- The loop, one case for each way through an iteration. -/
inductive Sleeps (handler : Option ℕ) : Timespec → Process → List Round → Sleep → Prop
  | done {remaining : Timespec} {now : Process} {script : List Round}
      (hdone : ¬ remaining.Pending) :
      Sleeps handler remaining now script ⟨[], some ⟨true, false⟩⟩
  | sleeping {remaining : Timespec} {now : Process} (hpending : remaining.Pending) :
      Sleeps handler remaining now [] ⟨[⟨remaining, now, none⟩], none⟩
  | success {remaining : Timespec} {now : Process} {round : Round} {rest : List Round}
      (hpending : remaining.Pending) (houtcome : round.outcome = .success) :
      Sleeps handler remaining now (round :: rest)
        ⟨[⟨remaining, now, some round⟩], some ⟨true, false⟩⟩
  | error {remaining : Timespec} {now : Process} {round : Round} {rest : List Round}
      (hpending : remaining.Pending) (houtcome : round.outcome = .error) :
      Sleeps handler remaining now (round :: rest)
        ⟨[⟨remaining, now, some round⟩], some ⟨false, false⟩⟩
  | stopped {remaining left : Timespec} {now : Process} {round : Round} {rest : List Round}
      (hpending : remaining.Pending) (houtcome : round.outcome = .interrupted left)
      (hseen : stopSeen handler round.look = true) :
      Sleeps handler remaining now (round :: rest)
        ⟨[⟨remaining, now, some round⟩], some ⟨true, true⟩⟩
  | resumed {remaining left : Timespec} {now : Process} {round : Round} {rest : List Round}
      {later : Sleep} (hpending : remaining.Pending)
      (houtcome : round.outcome = .interrupted left)
      (hseen : stopSeen handler round.look = false)
      (hlater : Sleeps handler left round.next rest later) :
      Sleeps handler remaining now (round :: rest)
        ⟨⟨remaining, now, some round⟩ :: later.calls, later.result⟩

lemma sleepLoop_sleeps (handler : Option ℕ) (remaining : Timespec) (now : Process)
    (script : List Round) :
    Sleeps handler remaining now script (sleepLoop handler remaining now script) := by
  induction script generalizing remaining now with
  | nil =>
      rw [sleepLoop]
      split
      · case isTrue hpending => exact .sleeping hpending
      · case isFalse hdone => exact .done hdone
  | cons round rest ih =>
      rw [sleepLoop]
      split
      · case isTrue hpending =>
        rcases houtcome : round.outcome with _ | left | _
        · exact .success hpending houtcome
        · rcases hseen : stopSeen handler round.look with _ | _
          · exact .resumed hpending houtcome hseen (ih left round.next)
          · exact .stopped hpending houtcome hseen
        · exact .error hpending houtcome
      · case isFalse hdone => exact .done hdone

/-! ### Time is conserved -/

/-- The time slept in a call, in nanoseconds. -/
def slept (call : Nanosleep) : ℤ :=
  match call.answer.map Round.outcome with
  | some .success => call.request.nanoseconds
  | some (.interrupted left) => call.request.nanoseconds - left.nanoseconds
  | _ => 0

variable {handler : Option ℕ} {remaining : Timespec} {now : Process} {script : List Round}
  {sleep : Sleep}

namespace Sleeps

end Sleeps

section Function

variable {safeMultiply : ℕ → ℕ → Option ℕ} {duration : ℕ}

lemma sleepMilliseconds_loop (hmultiply : ExactMultiply safeMultiply) (hpos : 0 < duration)
    (h : duration * 1000000 < 2 ^ 64) (handler : Option ℕ) (now : Process)
    (script : List Round) :
    sleepMilliseconds safeMultiply duration handler now script =
      sleepLoop handler (.ofNanoseconds (duration * 1000000)) now script := by
  rw [sleepMilliseconds, if_neg hpos.ne', hmultiply.fits _ _ h]

end Function

/-- A multiplication that fails exactly on overflow. -/
def checkedMultiply (a b : ℕ) : Option ℕ := if a * b < 2 ^ 64 then some (a * b) else none

lemma exactMultiply_checkedMultiply : ExactMultiply checkedMultiply :=
  ⟨fun _ _ h => if_pos h, fun _ _ h => if_neg h.not_gt⟩

/-- A process without handlers. -/
def idle : Process := ⟨fun _ => none, none, fun _ => .other 0⟩

end BcConcurrency.Signal
