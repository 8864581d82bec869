import BcConcurrency.Signal.Handlers

/-!
# Restoring the dispositions of signals

`bc_concurrency_signal_handler_destroy` puts back the dispositions that the handler has
saved, the first one first.  If a signal was installed twice, the second disposition saved
for it is the callback of the library, and that is what remains.  So it is with a signal that
an older handler installs while a newer one has it.
-/

namespace BcConcurrency.Signal

/-! ### Saved dispositions -/

section Saved

variable {before table : Table} {installed : List (ℤ × SigAction)}

/-- The dispositions saved by installing signals one after the other, starting from one
table and ending with another. -/
inductive Saved (before : Table) : List (ℤ × SigAction) → Table → Prop
  | nil : Saved before [] before
  | snoc {installed : List (ℤ × SigAction)} {table : Table} (signal : ℤ)
      (h : Saved before installed table) :
      Saved before (installed ++ [(signal, table signal)])
        (Function.update table signal .callback)

/-- The loop of the destruction over the saved dispositions. -/
def replay (installed : List (ℤ × SigAction)) (table : Table) : Table :=
  installed.foldl (fun table (signal, action) => Function.update table signal action) table

lemma replay_concat (installed : List (ℤ × SigAction)) (table : Table) (signal : ℤ)
    (action : SigAction) :
    replay (installed ++ [(signal, action)]) table =
      Function.update (replay installed table) signal action := by
  simp [replay]

/-- A signal gets the disposition that was saved for it last. -/
lemma replay_congr {table' : Table} {signal : ℤ} (installed : List (ℤ × SigAction))
    (h : signal ∉ installed.map Prod.fst → table signal = table' signal) :
    replay installed table signal = replay installed table' signal := by
  induction installed using List.reverseRecOn with
  | nil => exact h (by simp)
  | append_singleton installed entry ih =>
    obtain ⟨s, action⟩ := entry
    rw [replay_concat, replay_concat]
    rcases eq_or_ne signal s with rfl | hne
    · simp
    · rw [Function.update_of_ne hne, Function.update_of_ne hne]
      exact ih fun hnot => h (by simpa [hne] using hnot)

/-- The disposition that was saved for a signal last. -/
def lastSaved (installed : List (ℤ × SigAction)) (signal : ℤ) : Option SigAction :=
  installed.reverse.lookup signal

lemma replay_apply (installed : List (ℤ × SigAction)) (table : Table) (signal : ℤ) :
    replay installed table signal = (lastSaved installed signal).getD (table signal) := by
  induction installed using List.reverseRecOn with
  | nil => rfl
  | append_singleton installed entry ih =>
    obtain ⟨s, action⟩ := entry
    rw [replay_concat, lastSaved, List.reverse_append, List.reverse_singleton,
      List.singleton_append]
    rcases eq_or_ne signal s with rfl | hne
    · simp
    · rw [Function.update_of_ne hne, ih, List.lookup_cons, beq_eq_false_iff_ne.2 hne]
      rfl

namespace Saved

lemma apply (h : Saved before installed table) (signal : ℤ) :
    table signal = if signal ∈ installed.map Prod.fst then .callback else before signal := by
  induction h with
  | nil => simp
  | @snoc installed table s h ih =>
    rcases eq_or_ne signal s with rfl | hne
    · simp
    · rw [Function.update_of_ne hne, ih]
      exact if_congr (by rw [List.map_append, List.mem_append, List.map_singleton,
        List.mem_singleton, or_iff_left hne]) rfl rfl

/-- The disposition saved for a signal first. -/
lemma lookup (h : Saved before installed table) {signal : ℤ}
    (hmem : signal ∈ installed.map Prod.fst) : installed.lookup signal = some (before signal) := by
  induction h with
  | nil => simp at hmem
  | @snoc installed table s h ih =>
    by_cases hin : signal ∈ installed.map Prod.fst
    · rw [List.lookup_append, ih hin]
      rfl
    · obtain rfl : signal = s := by simpa [hin] using hmem
      have hnone : installed.lookup signal = none := by
        rw [List.lookup_eq_none_iff]
        intro entry hentry
        simpa using fun heq => hin (List.mem_map.mpr ⟨entry, hentry, heq.symm⟩)
      rw [List.lookup_append, hnone, h.apply, if_neg hin]
      simp

/-- What the loop puts back. -/
lemma replay (h : Saved before installed table) (signal : ℤ) :
    replay installed table signal =
      if 2 ≤ (installed.map Prod.fst).count signal then .callback else before signal := by
  induction h with
  | nil => simp [Signal.replay]
  | @snoc installed table s h ih =>
    rw [replay_concat, List.map_append, List.count_append, List.map_singleton]
    rcases eq_or_ne signal s with rfl | hne
    · rw [Function.update_self, h.apply, List.count_singleton_self]
      by_cases hmem : signal ∈ installed.map Prod.fst
      · have hpos := List.count_pos_iff.mpr hmem
        rw [if_pos hmem, if_pos (by omega)]
      · rw [if_neg hmem, if_neg (by rw [List.count_eq_zero_of_not_mem hmem]; omega)]
    · rw [Function.update_of_ne hne,
        replay_congr installed fun _ => Function.update_of_ne hne _ _, ih]
      simp [hne.symm]

/-- The dispositions are put back exactly if the callback was in place already for every
signal that was installed more than once. -/
lemma replay_eq_iff (h : Saved before installed table) :
    Signal.replay installed table = before ↔
      ∀ signal, 2 ≤ (installed.map Prod.fst).count signal →
        installed.lookup signal = some .callback := by
  have hlookup (signal : ℤ) (hcount : 2 ≤ (installed.map Prod.fst).count signal) :
      installed.lookup signal = some (before signal) :=
    h.lookup (List.count_pos_iff.mp (by omega))
  constructor
  · intro heq signal hcount
    have hsignal := congrFun heq signal
    rw [h.replay, if_pos hcount] at hsignal
    rw [hlookup signal hcount, ← hsignal]
  · intro hall
    ext1 signal
    rw [h.replay]
    split
    case isTrue hcount =>
      exact (Option.some.inj ((hlookup signal hcount).symm.trans (hall signal hcount))).symm
    case isFalse => rfl

end Saved

end Saved

/-! ### Nested lifetimes -/

/-- A call on a handler. -/
inductive Call
  | create (block : Option ℕ)
  | install (handler : ℕ) (signal : ℤ)
  | destroy (handler : ℕ)

def Process.call (catchable : ℤ → Bool) (process : Process) : Call → Process
  | .create block => process.create block
  | .install handler signal => (process.install catchable handler signal).2
  | .destroy handler => process.destroy handler

/-- The handlers alive, the newest first.  With a handler on which `install` has been
called stand the dispositions before the first of these calls. -/
abbrev Lifetimes := List (ℕ × Option Table)

def Lifetimes.next (process : Process) (lifetimes : Lifetimes) : Call → Lifetimes
  | .create none => lifetimes
  | .create (some handler) => (handler, none) :: lifetimes
  | .install handler _ => lifetimes.map fun (alive, before) =>
      (alive, if alive = handler then some (before.getD process.actions) else before)
  | .destroy handler => lifetimes.filter fun (alive, _) => alive ≠ handler

/-- The lifetimes nest: new memory is not that of another handler, and a handler is destroyed
when it is the newest one. -/
def NestedCall (process : Process) (lifetimes : Lifetimes) : Call → Prop
  | .create block => ∀ handler, block = some handler → process.handlers handler = none
  | .install handler _ => ∃ before, (handler, before) ∈ lifetimes
  | .destroy handler => ∃ before older, lifetimes = (handler, before) :: older

/-- A handler is not installed on while a newer one is in use. -/
def InnermostCall (_ : Process) (lifetimes : Lifetimes) : Call → Prop
  | .install handler _ => ∃ newer before older,
      lifetimes = newer ++ (handler, before) :: older ∧ ∀ alive ∈ newer, alive.2 = none
  | _ => True

/-- A destroyed handler leaves the dispositions as they were before the first installation
on it. -/
def RestoringCall (process : Process) (lifetimes : Lifetimes) : Call → Prop
  | .destroy handler => ∀ before, (handler, some before) ∈ lifetimes →
      (process.destroy handler).actions = before
  | _ => True

/-- The callback was in place when a signal was installed on the handler for the last time, or
is in place now if that never happened, exactly if it was before the first installation on
the handler. -/
def BalancedCall (process : Process) (lifetimes : Lifetimes) : Call → Prop
  | .destroy handler => ∀ h before, process.handlers handler = some h →
      (handler, some before) ∈ lifetimes → ∀ signal,
        ((lastSaved h.installed signal).getD (process.actions signal) = .callback ↔
          before signal = .callback)
  | _ => True

/-- No signal was installed twice on the handler, unless its disposition was the callback
to begin with. -/
def DistinctCall (process : Process) (_ : Lifetimes) : Call → Prop
  | .destroy handler => ∀ h, process.handlers handler = some h →
      ∀ signal, 2 ≤ (h.installed.map Prod.fst).count signal →
        h.installed.lookup signal = some .callback
  | _ => True

/-- A property of all calls of a history. -/
def Along (catchable : ℤ → Bool) (P : Process → Lifetimes → Call → Prop) :
    Process → Lifetimes → List Call → Prop
  | _, _, [] => True
  | process, lifetimes, call :: calls =>
      P process lifetimes call ∧
        Along catchable P (process.call catchable call) (lifetimes.next process call) calls

/-- What the handlers in use have saved: from the dispositions before the first
installation on a handler its own installations lead to those before the first
installation on the next newer handler in use, and finally to the current ones. -/
def Chain (handlers : ℕ → Option Handler) : Table → Lifetimes → Prop
  | _, [] => True
  | table, (handler, none) :: older =>
      (∃ h, handlers handler = some h ∧ h.installed = []) ∧ Chain handlers table older
  | table, (handler, some before) :: older =>
      (∃ h, handlers handler = some h ∧ Saved before h.installed table) ∧
        Chain handlers before older

namespace Chain

variable {handlers handlers' : ℕ → Option Handler} {table : Table} {lifetimes older : Lifetimes}

lemma ne_none (h : Chain handlers table lifetimes) {alive : ℕ × Option Table}
    (hmem : alive ∈ lifetimes) : handlers alive.1 ≠ none := by
  induction lifetimes generalizing table with
  | nil => simp at hmem
  | cons first older ih =>
    obtain ⟨handler, _ | before⟩ := first <;> obtain ⟨⟨h, hhandler, -⟩, hrest⟩ := h <;>
      rcases List.mem_cons.mp hmem with rfl | hmem
    · simp [hhandler]
    · exact ih hrest hmem
    · simp [hhandler]
    · exact ih hrest hmem

/-- Only the handlers of the chain matter. -/
lemma frame (h : Chain handlers table lifetimes)
    (heq : ∀ alive ∈ lifetimes, handlers' alive.1 = handlers alive.1) :
    Chain handlers' table lifetimes := by
  induction lifetimes generalizing table with
  | nil => trivial
  | cons first older ih =>
    have hfirst := heq first (by simp)
    have hrest (alive) (hmem : alive ∈ older) := heq alive (by simp [hmem])
    obtain ⟨handler, _ | before⟩ := first <;> obtain ⟨⟨h, hhandler, hh⟩, hchain⟩ := h
    · exact ⟨⟨h, hfirst.trans hhandler, hh⟩, ih hchain hrest⟩
    · exact ⟨⟨h, hfirst.trans hhandler, hh⟩, ih hchain hrest⟩

/-- Handlers that are not in use do not take part. -/
lemma append_iff {newer : Lifetimes} (hnewer : ∀ alive ∈ newer, alive.2 = none) :
    Chain handlers table (newer ++ older) ↔
      (∀ alive ∈ newer, ∃ h, handlers alive.1 = some h ∧ h.installed = []) ∧
        Chain handlers table older := by
  induction newer with
  | nil => simp
  | cons first newer ih =>
    obtain ⟨handler, before⟩ := first
    obtain rfl : before = none := hnewer (handler, before) (by simp)
    rw [List.cons_append, Chain, ih fun alive hmem => hnewer alive (by simp [hmem])]
    simp only [List.forall_mem_cons, and_assoc]

end Chain

namespace Process

/-- What the destruction of a handler does. -/
lemma destroy_spec {process : Process} {handler : ℕ} {h : Handler}
    (hhandler : process.handlers handler = some h) :
    (process.destroy handler).actions = replay h.installed process.actions ∧
      (process.destroy handler).handlers = Function.update process.handlers handler none := by
  have hloop (installed : List (ℤ × SigAction)) (process : Process) :
      (installed.map fun (signal, action) => DestroyStep.restore signal action).foldl
        DestroyStep.run process = { process with actions := replay installed process.actions } := by
    induction installed generalizing process with
    | nil => rfl
    | cons entry installed ih => rw [List.map_cons, List.foldl_cons, ih]; rfl
  rw [destroy, destroySteps, hhandler]
  dsimp only
  rw [List.foldl_append, hloop]
  simp only [List.foldl_cons, List.foldl_nil, DestroyStep.run]
  split <;> exact ⟨rfl, rfl⟩

end Process

/-! ### Dispositions other than the callback -/

/-- The library puts in place its callback, or what was in place at the beginning. -/
def Known (initial : Table) (signal : ℤ) (action : SigAction) : Prop :=
  action = .callback ∨ action = initial signal

lemma Known.eq_iff {initial : Table} {signal : ℤ} {action action' : SigAction}
    (h : Known initial signal action) (h' : Known initial signal action') :
    action = action' ↔ (action = .callback ↔ action' = .callback) := by
  refine ⟨fun heq => heq ▸ Iff.rfl, fun hiff => ?_⟩
  rcases h with hcallback | hinitial
  · rw [hcallback, hiff.1 hcallback]
  · rcases h' with hcallback' | hinitial'
    · rw [hcallback', hiff.2 hcallback']
    · rw [hinitial, hinitial']

/-- A handler is in memory, and the dispositions that it has saved are known. -/
def KnownSaved (initial : Table) (process : Process) (handler : ℕ) : Prop :=
  ∃ h, process.handlers handler = some h ∧ ∀ entry ∈ h.installed, Known initial entry.1 entry.2

/-- Every disposition is known: those in place, those that the handlers have saved, and
those before the first installation on a handler. -/
structure Accounted (initial : Table) (process : Process) (lifetimes : Lifetimes) : Prop where
  actions : ∀ signal, Known initial signal (process.actions signal)
  saved : ∀ handler ∈ lifetimes.map Prod.fst, KnownSaved initial process handler
  before : ∀ handler before, (handler, some before) ∈ lifetimes →
    ∀ signal, Known initial signal (before signal)

namespace Accounted

variable {catchable : ℤ → Bool} {initial : Table} {process : Process} {lifetimes : Lifetimes}
  {handler : ℕ}

lemma create (h : Accounted initial process lifetimes) {block : Option ℕ}
    (hnew : NestedCall process lifetimes (.create block)) :
    Accounted initial (process.create block) (lifetimes.next process (.create block)) := by
  cases block with
  | none => exact h
  | some handler =>
    refine ⟨h.actions, List.forall_mem_cons.2 ⟨?_, ?_⟩, ?_⟩
    · exact ⟨⟨false, []⟩, Function.update_self .., by simp⟩
    · intro alive hmem
      obtain ⟨hd, hhandler, hsaved⟩ := h.saved alive hmem
      have hne : alive ≠ handler := by
        rintro rfl
        rw [hnew _ rfl] at hhandler
        cases hhandler
      exact ⟨hd, (Function.update_of_ne hne ..).trans hhandler, hsaved⟩
    · intro other before hmem
      rcases List.mem_cons.1 hmem with heq | hmem
      · cases heq
      · exact h.before other before hmem

lemma install (h : Accounted initial process lifetimes) {signal : ℤ}
    (hnested : NestedCall process lifetimes (.install handler signal)) :
    Accounted initial (process.install catchable handler signal).2
      (lifetimes.next process (.install handler signal)) := by
  obtain ⟨before, hmem⟩ := hnested
  obtain ⟨hd, hhandler, hsaved⟩ := h.saved handler (List.mem_map_of_mem hmem)
  have hbefore : ∀ other before, (other, some before) ∈
      lifetimes.next process (.install handler signal) →
        ∀ signal, Known initial signal (before signal) := by
    intro other before hnext
    obtain ⟨⟨alive, earlier⟩, halive, heq⟩ := List.mem_map.1 hnext
    obtain ⟨rfl, hearlier⟩ := Prod.mk.inj heq
    split at hearlier
    · obtain rfl := Option.some.inj hearlier
      cases earlier with
      | none => exact h.actions
      | some earlier => exact h.before _ earlier halive
    · exact h.before _ before (hearlier ▸ halive)
  have hkeys : (lifetimes.next process (.install handler signal)).map Prod.fst =
      lifetimes.map Prod.fst := by
    rw [Lifetimes.next, List.map_map]
    rfl
  rcases Process.install_cases catchable signal hhandler with heq | heq <;> rw [heq]
  · exact ⟨h.actions, hkeys ▸ h.saved, hbefore⟩
  · refine ⟨?_, hkeys ▸ ?_, hbefore⟩
    · intro other
      rcases eq_or_ne other signal with rfl | hne
      · exact .inl (Function.update_self ..)
      · dsimp only
        rw [Function.update_of_ne hne]
        exact h.actions other
    · intro alive halive
      rcases eq_or_ne alive handler with rfl | hne
      · refine ⟨_, Function.update_self .., ?_⟩
        rw [List.forall_mem_append, List.forall_mem_singleton]
        exact ⟨hsaved, h.actions signal⟩
      · obtain ⟨other, hother, hknown⟩ := h.saved alive halive
        exact ⟨other, (Function.update_of_ne hne ..).trans hother, hknown⟩

lemma known_left {installed : List (ℤ × SigAction)} (h : Accounted initial process lifetimes)
    (hsaved : ∀ entry ∈ installed, Known initial entry.1 entry.2) (signal : ℤ) :
    Known initial signal ((lastSaved installed signal).getD (process.actions signal)) := by
  rcases hlast : lastSaved installed signal with _ | action
  · exact h.actions signal
  · obtain ⟨_, _, hreverse, -⟩ := List.lookup_eq_some_iff.1 hlast
    refine hsaved (signal, action) (List.mem_reverse.1 ?_)
    simp [hreverse]

/-- What a destruction leaves, and when that is what was in place before. -/
lemma destroy (h : Accounted initial process lifetimes)
    (hnested : NestedCall process lifetimes (.destroy handler)) :
    (RestoringCall process lifetimes (.destroy handler) ↔
        BalancedCall process lifetimes (.destroy handler)) ∧
      Accounted initial (process.destroy handler) (lifetimes.next process (.destroy handler)) := by
  obtain ⟨before, older, rfl⟩ := hnested
  obtain ⟨hd, hhandler, hsaved⟩ := h.saved _ List.mem_cons_self
  obtain ⟨hactions, hhandlers⟩ := Process.destroy_spec hhandler
  have hleft (signal : ℤ) : (process.destroy handler).actions signal =
      (lastSaved hd.installed signal).getD (process.actions signal) := by
    rw [hactions, replay_apply]
  refine ⟨⟨?_, ?_⟩, ?_, ?_, ?_⟩
  · intro hrestoring hd' before hhandler' hmem signal
    obtain rfl := Option.some.inj (hhandler.symm.trans hhandler')
    rw [← hleft signal, hrestoring before hmem]
  · intro hbalanced before hmem
    ext1 signal
    rw [hleft signal]
    exact ((h.known_left hsaved signal).eq_iff (h.before handler before hmem signal)).2
      (hbalanced hd before hhandler hmem signal)
  · intro signal
    rw [hleft signal]
    exact h.known_left hsaved signal
  · intro alive hmem
    obtain ⟨entry, hentry, rfl⟩ := List.mem_map.1 hmem
    obtain ⟨hentry, hne⟩ := List.mem_filter.1 hentry
    obtain ⟨other, hother, hknown⟩ := h.saved _ (List.mem_map_of_mem hentry)
    refine ⟨other, ?_, hknown⟩
    rw [hhandlers, Function.update_of_ne (by simpa using hne), hother]
  · intro other before hmem
    exact h.before other before (List.mem_filter.1 hmem).1

end Accounted

/-- In nested lifetimes a history restores the dispositions exactly if it is balanced. -/
lemma restoring_iff_balanced {catchable : ℤ → Bool} {initial : Table} {process : Process}
    {lifetimes : Lifetimes} (h : Accounted initial process lifetimes) {calls : List Call}
    (hnested : Along catchable NestedCall process lifetimes calls) :
    Along catchable RestoringCall process lifetimes calls ↔
      Along catchable BalancedCall process lifetimes calls := by
  induction calls generalizing process lifetimes with
  | nil => exact Iff.rfl
  | cons call calls ih =>
    obtain ⟨hcall, hcalls⟩ := hnested
    cases call with
    | create block => exact and_congr Iff.rfl (ih (h.create hcall) hcalls)
    | install handler signal => exact and_congr Iff.rfl (ih (h.install hcall) hcalls)
    | destroy handler =>
      obtain ⟨hiff, hnext⟩ := h.destroy hcall
      exact and_congr hiff (ih hnext hcalls)

/-! ### Installations on the newest handler in use -/

/-- The handlers alive are different, and they account for the current dispositions. -/
structure Coherent (process : Process) (lifetimes : Lifetimes) : Prop where
  chain : Chain process.handlers process.actions lifetimes
  nodup : (lifetimes.map Prod.fst).Nodup

namespace Coherent

variable {catchable : ℤ → Bool} {process : Process} {lifetimes : Lifetimes} {handler : ℕ}

lemma create (h : Coherent process lifetimes) {block : Option ℕ}
    (hnew : NestedCall process lifetimes (.create block)) :
    Coherent (process.create block) (lifetimes.next process (.create block)) := by
  cases block with
  | none => exact h
  | some handler =>
    have hne (alive) (hmem : alive ∈ lifetimes) : alive.1 ≠ handler := by
      rintro rfl
      exact h.chain.ne_none hmem (hnew _ rfl)
    refine ⟨⟨⟨⟨false, []⟩, Function.update_self .., rfl⟩, h.chain.frame ?_⟩, ?_⟩
    · intro alive hmem
      exact Function.update_of_ne (hne alive hmem) ..
    · refine List.nodup_cons.mpr ⟨?_, h.nodup⟩
      intro hmem
      obtain ⟨alive, hmem, heq⟩ := List.mem_map.mp hmem
      exact hne alive hmem heq

/-- The chain below a handler that is installed on, when no newer handler is in use. -/
lemma install (h : Coherent process lifetimes) {signal : ℤ}
    (hinnermost : InnermostCall process lifetimes (.install handler signal)) :
    Coherent (process.install catchable handler signal).2
      (lifetimes.next process (.install handler signal)) := by
  obtain ⟨newer, before, older, rfl, hnewer⟩ := hinnermost
  have hnodup := h.nodup
  rw [List.map_append, List.map_cons, List.nodup_middle, List.nodup_cons, ← List.map_append]
    at hnodup
  have hne (alive) (hmem : alive ∈ newer ++ older) : alive.1 ≠ handler := by
    intro heq
    exact hnodup.1 (List.mem_map.mpr ⟨alive, hmem, heq⟩)
  have hmap (part : Lifetimes) (hpart : ∀ alive ∈ part, alive ∈ newer ++ older) :
      part.map (fun (alive, before) =>
        (alive, if alive = handler then some (before.getD process.actions) else before)) = part := by
    refine (List.map_congr_left ?_).trans part.map_id
    intro alive hmem
    exact congrArg (Prod.mk alive.1) (if_neg (hne alive (hpart alive hmem)))
  have hnext : Lifetimes.next process (newer ++ (handler, before) :: older)
      (.install handler signal) =
        newer ++ (handler, some (before.getD process.actions)) :: older := by
    rw [Lifetimes.next, List.map_append, List.map_cons, hmap newer (by simp +contextual),
      hmap older (by simp +contextual)]
    dsimp only
    rw [if_pos rfl]
  obtain ⟨hfresh, hchain⟩ := (Chain.append_iff hnewer).mp h.chain
  -- the handler has saved what leads from the dispositions before its first installation
  obtain ⟨⟨hd, hhandler, hsaved⟩, hrest⟩ : (∃ hd, process.handlers handler = some hd ∧
      Saved (before.getD process.actions) hd.installed process.actions) ∧
      Chain process.handlers (before.getD process.actions) older := by
    cases before with
    | none =>
      obtain ⟨⟨hd, hhandler, hempty⟩, hrest⟩ := hchain
      exact ⟨⟨hd, hhandler, hempty ▸ Saved.nil⟩, hrest⟩
    | some before => exact hchain
  rw [hnext]
  refine ⟨(Chain.append_iff hnewer).mpr ?_, ?_⟩
  · rcases Process.install_cases catchable signal hhandler with
      heq | heq <;> rw [heq]
    · exact ⟨hfresh, ⟨hd, hhandler, hsaved⟩, hrest⟩
    · refine ⟨?_, ⟨_, Function.update_self .., hsaved.snoc signal⟩,
        hrest.frame fun alive hmem => Function.update_of_ne (hne alive (by simp [hmem])) ..⟩
      intro alive hmem
      obtain ⟨h, hsome, hempty⟩ := hfresh alive hmem
      exact ⟨h, (Function.update_of_ne (hne alive (by simp [hmem])) ..).trans hsome, hempty⟩
  · rw [List.map_append, List.map_cons, List.nodup_middle, List.nodup_cons, ← List.map_append]
    exact hnodup

/-- A destruction restores the dispositions exactly if no signal was installed twice, and
if it does, the older handlers account for them. -/
lemma destroy (h : Coherent process lifetimes)
    (hnested : NestedCall process lifetimes (.destroy handler)) :
    (RestoringCall process lifetimes (.destroy handler) ↔
        DistinctCall process lifetimes (.destroy handler)) ∧
      (RestoringCall process lifetimes (.destroy handler) →
        Coherent (process.destroy handler) (lifetimes.next process (.destroy handler))) := by
  obtain ⟨before, older, rfl⟩ := hnested
  have hnodup := List.nodup_cons.mp h.nodup
  have hne (alive) (hmem : alive ∈ older) : alive.1 ≠ handler := by
    rintro rfl
    exact hnodup.1 (List.mem_map.mpr ⟨alive, hmem, rfl⟩)
  have hnext : Lifetimes.next process ((handler, before) :: older) (.destroy handler) = older := by
    rw [Lifetimes.next, List.filter_cons, if_neg (by simp), List.filter_eq_self]
    exact fun alive hmem => by simpa using hne alive hmem
  have hmem (b : Table) : (handler, some b) ∈ (handler, before) :: older ↔ before = some b := by
    rw [List.mem_cons, or_iff_left fun hmem => hne _ hmem rfl, Prod.mk.injEq, eq_comm (a := some b)]
    simp
  have hcoherent {table : Table} {hd : Handler} (hhandler : process.handlers handler = some hd)
      (hchain : Chain process.handlers table older)
      (htable : replay hd.installed process.actions = table) :
      Coherent (process.destroy handler) older := by
    obtain ⟨hactions, hhandlers⟩ := Process.destroy_spec hhandler
    refine ⟨?_, hnodup.2⟩
    rw [hactions, htable, hhandlers]
    exact hchain.frame fun alive hmem => Function.update_of_ne (hne alive hmem) ..
  rw [hnext]
  simp only [RestoringCall, DistinctCall, hmem]
  cases before with
  | none =>
    obtain ⟨⟨hd, hhandler, hempty⟩, hchain⟩ := h.chain
    refine ⟨iff_of_true (by simp) ?_, ?_⟩
    · intro hd' hhandler' signal hcount
      obtain rfl := Option.some.inj (hhandler.symm.trans hhandler')
      simp [hempty] at hcount
    · intro _
      exact hcoherent hhandler hchain (by rw [hempty]; rfl)
  | some before =>
    obtain ⟨⟨hd, hhandler, hsaved⟩, hchain⟩ := h.chain
    have hiff : (∀ b, some before = some b → (process.destroy handler).actions = b) ↔
        replay hd.installed process.actions = before := by
      rw [(Process.destroy_spec hhandler).1]
      exact ⟨fun hall => hall before rfl, by rintro heq _ ⟨⟩; exact heq⟩
    rw [hiff]
    refine ⟨hsaved.replay_eq_iff.trans ⟨?_, fun hall => hall hd hhandler⟩,
      hcoherent hhandler hchain⟩
    rintro hall hd' hhandler'
    obtain rfl := Option.some.inj (hhandler.symm.trans hhandler')
    exact hall

end Coherent

/-- The handlers of a history of nested lifetimes restore the dispositions exactly if none
of them is destroyed with a signal that was installed on it twice, the callback apart. -/
lemma restoring_iff_distinct {catchable : ℤ → Bool} {process : Process} {lifetimes : Lifetimes}
    (h : Coherent process lifetimes) {calls : List Call}
    (hnested : Along catchable NestedCall process lifetimes calls)
    (hinnermost : Along catchable InnermostCall process lifetimes calls) :
    Along catchable RestoringCall process lifetimes calls ↔
      Along catchable DistinctCall process lifetimes calls := by
  induction calls generalizing process lifetimes with
  | nil => exact Iff.rfl
  | cons call calls ih =>
    obtain ⟨hcall, hcalls⟩ := hnested
    obtain ⟨hinstall, hinstalls⟩ := hinnermost
    cases call with
    | create block => exact and_congr Iff.rfl (ih (h.create hcall) hcalls hinstalls)
    | install handler signal => exact and_congr Iff.rfl (ih (h.install hinstall) hcalls hinstalls)
    | destroy handler =>
      obtain ⟨hiff, hnext⟩ := h.destroy hcall
      exact ⟨fun hr => ⟨hiff.mp hr.1, (ih (hnext hr.1) hcalls hinstalls).mp hr.2⟩,
        fun hd => ⟨hiff.mpr hd.1, (ih (hnext (hiff.mpr hd.1)) hcalls hinstalls).mpr hd.2⟩⟩

/-! ### When destruction restores -/

/-- For every initial table and every history of handlers with nested lifetimes, each
destruction restores the dispositions exactly if it is balanced.  If no handler is installed
on while a newer one is in use, that is exactly if no handler is destroyed on which a signal
was installed twice, unless its disposition was the callback to begin with. -/
theorem dispositions_restored_iff (catchable : ℤ → Bool) (process : Process) (calls : List Call)
    (hnested : Along catchable NestedCall process [] calls) :
    (Along catchable RestoringCall process [] calls ↔
        Along catchable BalancedCall process [] calls) ∧
      (Along catchable InnermostCall process [] calls →
        (Along catchable RestoringCall process [] calls ↔
          Along catchable DistinctCall process [] calls)) := by
  constructor
  · have haccounted : Accounted process.actions process [] :=
      ⟨fun _ => .inr rfl, by simp, by simp⟩
    exact restoring_iff_balanced haccounted hnested
  · intro hinnermost
    exact restoring_iff_distinct ⟨by rw [Chain]; trivial, by simp⟩ hnested hinnermost

/-- A process without handlers. -/
def Process.start (actions : Table) : Process := ⟨fun _ => none, none, actions⟩

/-- Two handlers, the lifetime of the second one in that of the first, both with the
signals 10 and 12 of which the second cannot be caught. -/
theorem dispositions_restored_nested :
    Along (fun signal => signal ≠ 12) RestoringCall (.start fun signal => .other signal.toNat) []
      [.create (some 0), .install 0 10, .create (some 1), .install 1 10, .install 1 12, .destroy 1,
        .install 0 15, .destroy 0] := by
  refine ((dispositions_restored_iff _ _ _ ?_).2 ?_).mpr ?_
  · refine ⟨?_, ⟨_, List.mem_cons_self⟩, ?_, ⟨_, List.mem_cons_self⟩, ⟨_, List.mem_cons_self⟩,
      ⟨_, _, rfl⟩, ⟨_, List.mem_cons_self⟩, ⟨_, _, rfl⟩, trivial⟩
    · rintro _ ⟨⟩
      rfl
    · rintro _ ⟨⟩
      rfl
  · exact ⟨trivial, ⟨[], _, _, rfl, by simp⟩, trivial, ⟨[], _, _, rfl, by simp⟩,
      ⟨[], _, _, rfl, by simp⟩, trivial, ⟨[], _, _, rfl, by simp⟩, trivial, trivial⟩
  · refine ⟨trivial, trivial, trivial, trivial, trivial, ?_, trivial, ?_, trivial⟩
    · rintro _ ⟨⟩ signal hcount
      have hle := hcount.trans List.count_le_length
      exact absurd hle (by decide)
    · rintro _ ⟨⟩ signal hcount
      have hnodup : [(10 : ℤ), 15].Nodup := by decide
      have hle := hcount.trans (List.nodup_iff_count_le_one.mp hnodup signal)
      exact absurd hle (by decide)

/-- A signal that is installed twice keeps the callback of the library, and so does one that
an older handler in use installs while a newer one has it. -/
theorem dispositions_not_restored :
    (¬ Along (fun _ => true) RestoringCall (.start fun _ => .other 0) []
      [.create (some 0), .install 0 10, .install 0 10, .destroy 0]) ∧
    ¬ Along (fun _ => true) RestoringCall (.start fun _ => .other 0) []
      [.create (some 0), .install 0 15, .create (some 1), .install 1 10, .install 0 10,
        .destroy 1, .destroy 0] := by
  constructor
  · rintro ⟨-, -, -, hrestored, -⟩
    have hsignal := congrFun (hrestored (fun _ => .other 0) (List.Mem.head _)) 10
    cases hsignal
  · rintro ⟨-, -, -, -, -, -, hrestored, -⟩
    have hsignal := congrFun (hrestored (fun _ => .other 0) (List.Mem.head _)) 10
    cases hsignal

end BcConcurrency.Signal
