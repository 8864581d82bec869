import BcConcurrency.Signal.Sleep

/-!
# Stop requests during a sleep

A schedule of signals relative to the steps of `bc_concurrency_sleep_milliseconds`.  The
function looks at the flag of the handler only after an `EINTR`: a signal that comes before
the first `nanosleep`, or between such a look and the `nanosleep` after it, is slept through.
-/

namespace BcConcurrency.Signal

/-! ### Schedules -/

/-- The part of a schedule that belongs to a call of `nanosleep`: what it returns, the
signals until the flag is looked at, and the signals from there to the next call. -/
structure Window where
  outcome : Outcome
  during : List ℤ
  behind : List ℤ

namespace Process

/-- Signals arrive one after the other. -/
def deliverAll (process : Process) (signals : List ℤ) : Process :=
  signals.foldl deliver process

/-- One of the signals makes the callback write to the handler. -/
def Reaches (process : Process) (handler : ℕ) (signals : List ℤ) : Prop :=
  ∃ signal ∈ signals, process.written signal = some handler

end Process

/-- The script of a schedule. -/
def Window.script (now : Process) : List Window → List Round
  | [] => []
  | window :: rest =>
      let look := now.deliverAll window.during
      let next := look.deliverAll window.behind
      ⟨window.outcome, look, next⟩ :: script next rest

/-- `bc_concurrency_sleep_milliseconds` under a schedule: the signals before the first
`nanosleep`, and those around the calls. -/
def sleepUnder (safeMultiply : ℕ → ℕ → Option ℕ) (durationMilliseconds handler : ℕ)
    (process : Process) (before : List ℤ) (windows : List Window) : Sleep :=
  sleepMilliseconds safeMultiply durationMilliseconds (some handler)
    (process.deliverAll before) (Window.script (process.deliverAll before) windows)

/-- A stop request is not slept through: where the flag is set as the first `nanosleep`, or
the one after an `EINTR`, is about to start, the sleep is reported interrupted and that
`nanosleep` is not started; so it is after each look that saw the flag.  A sleep for which
the flag was set when the function was called is not reported complete. -/
structure StopsInTime (handler : ℕ) (process now : Process) (sleep : Sleep) : Prop where
  not_started : ∀ call ∈ sleep.calls, stopSeen (some handler) call.start = false
  first : stopSeen (some handler) now = true → sleep.calls = [] ∧ sleep.result = some ⟨true, true⟩
  next : ∀ earlier call later round left, sleep.calls = earlier ++ call :: later →
    call.answer = some round → round.outcome = .interrupted left →
      stopSeen (some handler) round.look = true ∨
        left.Pending ∧ stopSeen (some handler) round.next = true →
      later = [] ∧ sleep.result = some ⟨true, true⟩
  not_complete : process.shouldStop handler = some true → sleep.result ≠ some ⟨true, false⟩

/-- No signal reaches the handler between a look at its flag and the `nanosleep` after it. -/
def TimelyWindows (process : Process) (handler : ℕ) : List Window → Prop
  | [] => True
  | window :: rest =>
      ∀ left, window.outcome = .interrupted left → left.Pending →
        ¬ process.Reaches handler window.during →
          ¬ process.Reaches handler window.behind ∧ TimelyWindows process handler rest

/-- The flag is not set when the function is called, and no signal reaches the handler where
the function does not look at the flag before it sleeps. -/
structure Timely (process : Process) (handler : ℕ) (before : List ℤ) (windows : List Window) :
    Prop where
  flag : process.shouldStop handler = some false
  before : ¬ process.Reaches handler before
  windows : TimelyWindows process handler windows

/-! ### Signals and the flag -/

namespace Process

variable {process : Process} {handler : ℕ} {signal : ℤ}

@[simp] lemma deliver_written (process : Process) (signal : ℤ) :
    (process.deliver signal).written = process.written := by
  ext other : 1
  simp only [written, deliver_actions, deliver_globalPointer]

@[simp] lemma deliverAll_nil (process : Process) : process.deliverAll [] = process := rfl

@[simp] lemma deliverAll_cons (process : Process) (signal : ℤ) (signals : List ℤ) :
    process.deliverAll (signal :: signals) = (process.deliver signal).deliverAll signals := rfl

@[simp] lemma deliverAll_written (process : Process) (signals : List ℤ) :
    (process.deliverAll signals).written = process.written := by
  induction signals generalizing process with
  | nil => rfl
  | cons signal signals ih => rw [deliverAll_cons, ih, deliver_written]

lemma deliverAll_alive {signals : List ℤ} (halive : process.handlers handler ≠ none) :
    (process.deliverAll signals).handlers handler ≠ none := by
  induction signals generalizing process with
  | nil => exact halive
  | cons signal signals ih => exact ih (deliver_ne_none_iff.2 halive)

end Process

section Flag

variable {process now : Process} {handler : ℕ} {signals : List ℤ}

lemma stopSeen_eq_true : stopSeen (some handler) process = true ↔
    process.shouldStop handler = some true := decide_eq_true_iff

/-- After some signals the flag is set if it was set or if one of them reaches the handler. -/
lemma stopSeen_deliverAll (halive : process.handlers handler ≠ none) :
    stopSeen (some handler) (process.deliverAll signals) = true ↔
      stopSeen (some handler) process = true ∨ process.Reaches handler signals := by
  induction signals generalizing process with
  | nil => simp [Process.Reaches]
  | cons signal signals ih =>
      rw [Process.deliverAll_cons, ih (Process.deliver_ne_none_iff.2 halive), stopSeen_eq_true,
        Process.shouldStop_deliver halive, ← stopSeen_eq_true]
      simp [Process.Reaches, or_assoc]

/-- With the same routing as `process`, signals set a flag that is not set if one of them
reaches the handler. -/
lemma stopSeen_after (hwritten : now.written = process.written)
    (halive : now.handlers handler ≠ none) (hnow : stopSeen (some handler) now = false) :
    stopSeen (some handler) (now.deliverAll signals) = true ↔
      process.Reaches handler signals := by
  rw [stopSeen_deliverAll halive, hnow]
  simp [Process.Reaches, hwritten]

end Flag

/-! ### The condition is exact -/

section Exact

variable {process now : Process} {handler : ℕ} {remaining : Timespec}

/-- A loop that goes on starts a `nanosleep` at once. -/
lemma Sleeps.exists_start {handler : Option ℕ} {script : List Round} {sleep : Sleep}
    (h : Sleeps handler remaining now script sleep) (hpending : remaining.Pending) :
    ∃ call ∈ sleep.calls, call.start = now := by
  cases h with
  | done hdone => exact absurd hpending hdone
  | sleeping | success | error | stopped | resumed => exact ⟨_, List.mem_cons_self, rfl⟩

lemma Sleeps.calls_of_not_pending {handler : Option ℕ} {script : List Round} {sleep : Sleep}
    (h : Sleeps handler remaining now script sleep) (hdone : ¬ remaining.Pending) :
    sleep.calls = [] := by
  cases h with
  | done => rfl
  | sleeping hpending | success hpending | error hpending | stopped hpending
  | resumed hpending => exact absurd hpending hdone

/-- An answered call is the only one of a list with one call. -/
lemma only_call {single call : Nanosleep} {earlier later : List Nanosleep} {round : Round}
    (hcalls : [single] = earlier ++ call :: later) (hanswer : call.answer = some round) :
    later = [] ∧ single.answer = some round := by
  rcases List.singleton_eq_append_iff.1 hcalls with ⟨-, hcons⟩ | ⟨-, hcons⟩
  · obtain ⟨rfl, rfl⟩ := List.cons.inj hcons
    exact ⟨rfl, hanswer⟩
  · cases hcons

/-- A loop that starts no `nanosleep` with the flag set is reported interrupted where the
flag is seen, and where it is set as the next `nanosleep` would start. -/
lemma Sleeps.next_stopped {handler : Option ℕ} {script : List Round} {sleep : Sleep}
    (h : Sleeps handler remaining now script sleep)
    (hstarts : ∀ call ∈ sleep.calls, stopSeen handler call.start = false)
    {earlier later : List Nanosleep} {call : Nanosleep} {round : Round} {left : Timespec}
    (hcalls : sleep.calls = earlier ++ call :: later) (hanswer : call.answer = some round)
    (houtcome : round.outcome = .interrupted left)
    (hset : stopSeen handler round.look = true ∨
      left.Pending ∧ stopSeen handler round.next = true) :
    later = [] ∧ sleep.result = some ⟨true, true⟩ := by
  induction h generalizing earlier with
  | done => simp at hcalls
  | sleeping hpending => cases (only_call hcalls hanswer).2
  | success hpending hsuccess | error hpending hsuccess =>
      cases (only_call hcalls hanswer).2
      rw [hsuccess] at houtcome
      cases houtcome
  | stopped hpending hinterrupted hseen => exact ⟨(only_call hcalls hanswer).1, rfl⟩
  | @resumed remaining rest now first script others hpending hinterrupted hseen hlater ih =>
      rw [List.forall_mem_cons] at hstarts
      rcases earlier with _ | ⟨head, earlier⟩
      · obtain ⟨rfl, rfl⟩ := List.cons.inj hcalls
        cases hanswer
        obtain rfl := Outcome.interrupted.inj (hinterrupted.symm.trans houtcome)
        -- the flag is not seen, so it is set as the next call starts
        rcases hset with hlook | ⟨hleft, hnext⟩
        · rw [hseen] at hlook
          cases hlook
        · obtain ⟨following, hmem, hstart⟩ := hlater.exists_start hleft
          have hunset := hstarts.2 following hmem
          rw [hstart, hnext] at hunset
          cases hunset
      · exact ih hstarts.2 (List.cons.inj hcalls).2

/-- From a process with the flag not set, the loop starts no `nanosleep` with the flag set
exactly if the windows are timely. -/
lemma Sleeps.starts_iff {script : List Round} {sleep : Sleep}
    (h : Sleeps (some handler) remaining now script sleep) {windows : List Window}
    (hscript : script = Window.script now windows) (hwritten : now.written = process.written)
    (halive : now.handlers handler ≠ none) (hnow : stopSeen (some handler) now = false) :
    (∀ call ∈ sleep.calls, stopSeen (some handler) call.start = false) ↔
      (remaining.Pending → TimelyWindows process handler windows) := by
  induction h generalizing windows with
  | done hdone => simp [hdone]
  | sleeping hpending =>
      rcases windows with _ | ⟨window, rest⟩
      · simpa [TimelyWindows] using hnow
      · cases hscript
  | success hpending houtcome | error hpending houtcome =>
      rcases windows with _ | ⟨window, rest⟩
      · cases hscript
      · obtain ⟨rfl, -⟩ := List.cons.inj hscript
        have : window.outcome = _ := houtcome
        simp [TimelyWindows, hnow, this]
  | stopped hpending houtcome hseen =>
      rcases windows with _ | ⟨window, rest⟩
      · cases hscript
      · obtain ⟨rfl, -⟩ := List.cons.inj hscript
        -- the flag was set while the call lasted, so no call follows
        have hreaches := (stopSeen_after hwritten halive hnow).1 hseen
        simp [TimelyWindows, hnow, hreaches]
  | @resumed remaining left now round scriptRest later hpending houtcome hseen hlater ih =>
      rcases windows with _ | ⟨window, rest⟩
      · cases hscript
      · obtain ⟨rfl, hrest⟩ := List.cons.inj hscript
        have hduring : ¬ process.Reaches handler window.during := by
          rw [← stopSeen_after hwritten halive hnow, Bool.not_eq_true]
          exact hseen
        have hlook : (now.deliverAll window.during).written = process.written := by
          rw [Process.deliverAll_written, hwritten]
        have halive' : (now.deliverAll window.during).handlers handler ≠ none :=
          Process.deliverAll_alive halive
        have hnext : stopSeen (some handler)
            ((now.deliverAll window.during).deliverAll window.behind) = true ↔
              process.Reaches handler window.behind := stopSeen_after hlook halive' hseen
        have htimely : (remaining.Pending → TimelyWindows process handler (window :: rest)) ↔
            (left.Pending → ¬ process.Reaches handler window.behind ∧
              TimelyWindows process handler rest) := by
          have hwindow : window.outcome = .interrupted left := houtcome
          simp [TimelyWindows, hpending, hwindow, hduring]
        rw [htimely, List.forall_mem_cons, and_iff_right hnow]
        by_cases hbehind : process.Reaches handler window.behind
        · -- the next call, if there is one, starts with the flag set
          constructor
          · intro hcalls hleft
            obtain ⟨call, hmem, hstart⟩ := hlater.exists_start hleft
            have hfalse := hcalls call hmem
            rw [hstart] at hfalse
            exact absurd (hnext.2 hbehind) (by simp [hfalse])
          · intro hnone call hmem
            have hdone : ¬ left.Pending := fun hleft => (hnone hleft).1 hbehind
            rw [hlater.calls_of_not_pending hdone] at hmem
            cases hmem
        · have hunset := (not_congr hnext).2 hbehind
          rw [Bool.not_eq_true] at hunset
          have hwritten' : ((now.deliverAll window.during).deliverAll window.behind).written =
              process.written := by
            rw [Process.deliverAll_written, hlook]
          rw [ih hrest hwritten' (Process.deliverAll_alive halive') hunset]
          simp [hbehind]

/-- A stop request is not slept through exactly if the schedule is timely. -/
theorem stops_in_time_iff {safeMultiply : ℕ → ℕ → Option ℕ}
    (hmultiply : ExactMultiply safeMultiply) {duration : ℕ} (hpos : 0 < duration)
    (hfits : duration * 1000000 < 2 ^ 64) (halive : process.handlers handler ≠ none)
    (before : List ℤ) (windows : List Window) :
    StopsInTime handler process (process.deliverAll before)
        (sleepUnder safeMultiply duration handler process before windows) ↔
      Timely process handler before windows := by
  rw [sleepUnder, sleepMilliseconds_loop hmultiply hpos hfits]
  have hsleeps := sleepLoop_sleeps (some handler) (.ofNanoseconds (duration * 1000000))
    (process.deliverAll before) (Window.script (process.deliverAll before) windows)
  have hpending : (Timespec.ofNanoseconds (duration * 1000000)).Pending :=
    Timespec.pending_ofNanoseconds (by omega)
  have hflag : process.shouldStop handler = some false ↔
      stopSeen (some handler) process = false := by
    obtain ⟨h, hhandler⟩ := Option.ne_none_iff_exists'.1 halive
    simp [stopSeen, Process.shouldStop, hhandler]
  have hstarts := hsleeps.starts_iff rfl (process.deliverAll_written before)
    (Process.deliverAll_alive halive)
  constructor
  · intro hstops
    -- the first call starts with the flag as the signals before it leave it
    obtain ⟨call, hmem, hstart⟩ := hsleeps.exists_start hpending
    have hunset := hstops.not_started call hmem
    rw [hstart] at hunset
    have hnot := (not_congr (stopSeen_deliverAll halive)).1 (Bool.not_eq_true _ ▸ hunset)
    rw [not_or, Bool.not_eq_true] at hnot
    exact ⟨hflag.2 hnot.1, hnot.2, (hstarts hunset).1 hstops.not_started hpending⟩
  · intro htimely
    have hunset : stopSeen (some handler) (process.deliverAll before) = false := by
      rw [← Bool.not_eq_true, stopSeen_deliverAll halive, hflag.1 htimely.flag]
      simpa using htimely.before
    have hnot := (hstarts hunset).2 fun _ => htimely.windows
    constructor
    · exact hnot
    · intro hset
      rw [hunset] at hset
      cases hset
    · intro earlier call later round left hcalls hanswer houtcome hset
      exact hsleeps.next_stopped hnot hcalls hanswer houtcome hset
    · intro hset
      rw [htimely.flag] at hset
      cases hset

end Exact

/-- A process in which every signal goes to handler 0, the flag of which is `stop`. -/
def listening (stop : Bool) : Process :=
  ⟨fun handler => if handler = 0 then some ⟨stop, []⟩ else none, some 0, fun _ => .callback⟩

/-- A signal during the first `nanosleep` is seen. -/
theorem stops_in_time_during :
    StopsInTime 0 (listening false) (listening false)
      (sleepUnder checkedMultiply 1 0 (listening false) []
        [⟨.interrupted ⟨0, 400000⟩, [15], []⟩]) := by
  refine (stops_in_time_iff exactMultiply_checkedMultiply Nat.one_pos (by norm_num)
    (by simp [listening]) [] _).2 ⟨rfl, by simp [Process.Reaches], ?_⟩
  intro left houtcome hleft hduring
  exact absurd ⟨15, List.mem_singleton_self _, rfl⟩ hduring

/-- A stop request that precedes the call, and one between a look at the flag and the next
`nanosleep`, are slept through. -/
theorem stop_request_slept_through :
    ((sleepUnder checkedMultiply 1 0 (listening true) [] [⟨.success, [], []⟩]).result =
        some ⟨true, false⟩ ∧
      ¬ StopsInTime 0 (listening true) (listening true)
        (sleepUnder checkedMultiply 1 0 (listening true) [] [⟨.success, [], []⟩])) ∧
    ¬ StopsInTime 0 (listening false) (listening false)
      (sleepUnder checkedMultiply 1 0 (listening false) []
        [⟨.interrupted ⟨0, 400000⟩, [], [15]⟩, ⟨.success, [], []⟩]) := by
  refine ⟨⟨rfl, ?_⟩, ?_⟩
  · intro hstops
    exact hstops.not_complete rfl rfl
  · intro hstops
    have hlast : ∃ call ∈ (sleepUnder checkedMultiply 1 0 (listening false) []
        [⟨.interrupted ⟨0, 400000⟩, [], [15]⟩, ⟨.success, [], []⟩]).calls,
        stopSeen (some 0) call.start = true :=
      ⟨_, List.mem_cons_of_mem _ List.mem_cons_self, rfl⟩
    obtain ⟨call, hmem, hset⟩ := hlast
    rw [hstops.not_started call hmem] at hset
    cases hset

end BcConcurrency.Signal
