import BcConcurrency.Pool.Session

/-!
# Following a script

Facts about runs of the handshake that hold for any script: what `tls_worker` is after
the operations that were performed, which operations the main thread can always
complete, and that what was executed so far is part of what the script says.
-/

namespace BcConcurrency.Pool

variable {τ : Type*} {t : ℕ} {s₀ s s' : State τ} {h : List (Event τ)}

/-! ### The worker of the main thread -/

/-- `tls_worker` of the main thread after a script. -/
def tlsAfter (tls : Option ℕ) (script : List (MainOp τ)) : Option ℕ :=
  script.foldl (fun tls op => match op with | .setTls worker => worker | _ => tls) tls

@[simp] lemma tlsAfter_nil (tls : Option ℕ) : tlsAfter tls ([] : List (MainOp τ)) = tls := rfl

@[simp] lemma tlsAfter_append (tls : Option ℕ) (script script' : List (MainOp τ)) :
    tlsAfter tls (script ++ script') = tlsAfter (tlsAfter tls script) script' :=
  List.foldl_append

lemma tlsAfter_of_not_isLocal {script : List (MainOp τ)} (h : ∀ op ∈ script, op.isLocal = false)
    (tls : Option ℕ) : tlsAfter tls script = tls := by
  induction script with
  | nil => rfl
  | cons op script ih =>
    have hop := h op (List.mem_cons_self ..)
    have hrest := ih fun op' hmem => h op' (List.mem_cons_of_mem _ hmem)
    cases op with
    | setTls | run => cases hop
    | create | dispatch | wait | stop | join => exact hrest

lemma tlsAfter_mainShare (tls : Option ℕ) (tasks : List τ) :
    tlsAfter tls (mainShare t tasks) = none := by
  rw [mainShare, tlsAfter_append]
  rfl

lemma Transition.tls_eq {e : Event τ} (htrans : Transition s e s') :
    s'.tls = tlsAfter s.tls (performedBy e).toList := by
  cases htrans with
  | worker htrans => cases htrans <;> rfl
  | reported =>
    rw [State.signalDone_eq]
    rfl
  | _ => rfl

lemma tls_run (hrun : handshake.Run s₀ h s) : s.tls = tlsAfter s₀.tls (performed h) := by
  induction hrun with
  | nil => rfl
  | snoc _ hs ih =>
    rw [(handshake_inv hs).tls_eq, ih, performed_append, performed_singleton, tlsAfter_append]

/-- When the front of the script was performed, `tls_worker` is what it leads to. -/
lemma tls_front {ops : List (MainOp τ)} (hrun : handshake.Run s₀ h s)
    (hscript : s₀.script = ops ++ s.script) : s.tls = tlsAfter s₀.tls ops := by
  have hperformed := performed_run hrun
  rw [hscript] at hperformed
  rw [tls_run hrun, List.append_cancel_right hperformed]

/-! ### Operations that can always be completed -/

/-- The main thread sleeps only in a wait and is inside of a task only in a run. -/
structure State.Placed (s : State τ) : Prop where
  asleep : s.asleep = true → ∃ i rest, s.script = .wait i :: rest
  inTask : s.inTask = true → ∃ task rest, s.script = .run task :: rest

lemma State.Placed.step {e : Event τ} (hplaced : s.Placed) (htrans : Transition s e s') :
    s'.Placed := by
  -- only at a `run` is the main thread inside a task
  have houtside {op : MainOp τ} {rest : List (MainOp τ)} (hscript : s.script = op :: rest)
      (hop : ∀ task, op ≠ .run task) : s.inTask = false := by
    by_contra hin
    obtain ⟨task, rest', hrun⟩ := hplaced.inTask (by simpa using hin)
    rw [hscript, List.cons.injEq] at hrun
    exact hop task hrun.1
  cases htrans with
  | created hscript hawake | dispatched hscript hawake | tlsSet hscript hawake
  | stopped hscript hawake | joined hscript hawake | waitReturned hscript hawake =>
    have hin := houtside hscript (by simp)
    exact ⟨fun h => by simp [hawake] at h, fun h => by simp [hin] at h⟩
  | started hscript hawake => exact ⟨fun h => by simp [hawake] at h, fun _ => ⟨_, _, hscript⟩⟩
  | finished hscript hawake => exact ⟨fun h => by simp [hawake] at h, fun h => by simp at h⟩
  | mainSlept hscript => exact ⟨fun _ => ⟨_, _, hscript⟩, hplaced.inTask⟩
  | mainWoken => exact ⟨fun h => by simp at h, hplaced.inTask⟩
  | worker | workerWoken => exact ⟨hplaced.asleep, hplaced.inTask⟩
  | reported =>
    refine ⟨?_, ?_⟩
    · intro h
      rw [State.signalDone_eq]
      exact hplaced.asleep (State.asleep_of_signalDone h).1
    · intro h
      rw [State.signalDone_eq] at h ⊢
      exact hplaced.inTask h

lemma State.Placed.run (hplaced : s₀.Placed) (hrun : handshake.Run s₀ h s) : s.Placed :=
  hrun.invariant (P := fun _ s => s.Placed) hplaced fun _ _ _ _ _ _ ih hs =>
    ih.step (handshake_inv hs)

/-- Free operations at the front of the script can be completed. -/
lemma exists_run_of_free (hplaced : s.Placed) {ops rest : List (MainOp τ)}
    (hfree : ∀ op ∈ ops, op.isFree = true) (hscript : s.script = ops ++ rest) :
    ∃ h s', handshake.Run s h s' ∧ s'.script = rest := by
  induction ops generalizing s with
  | nil => exact ⟨[], s, Machine.Run.nil, hscript⟩
  | cons op ops ih =>
    have hop := hfree op (List.mem_cons_self ..)
    -- the main thread sleeps only in a wait, and a wait is not free
    have hawake : s.asleep = false := by
      by_contra hasleep
      obtain ⟨i, rest', hwait⟩ := hplaced.asleep (by simpa using hasleep)
      rw [hscript, List.cons_append, List.cons.injEq] at hwait
      rw [hwait.1] at hop
      cases hop
    obtain ⟨h₁, s₁, hrun₁, hscript₁⟩ := exists_run_free hop hawake hscript
    obtain ⟨h₂, s₂, hrun₂, hscript₂⟩ := ih (hplaced.run hrun₁)
      (fun op' hmem => hfree op' (List.mem_cons_of_mem _ hmem)) hscript₁
    exact ⟨_, s₂, hrun₁.trans hrun₂, hscript₂⟩

/-! ### What was executed so far -/

section Partial

variable {host : Host} {before : List (Event Invocation)} {s s₁ : State Invocation}
  {h : List (Event Invocation)} {final final' : ℕ → Phase} {script : List (MainOp Invocation)}

lemma Between.placed (hb : Between host before s final) (script : List (MainOp Invocation)) :
    State.Placed { s with script := script } := by
  refine ⟨?_, ?_⟩
  · intro hasleep
    obtain ⟨i, rest, hscript, -⟩ := hb.inv.asleep hasleep
    simp [hb.done] at hscript
  · intro hin
    rw [hb.inTask_eq_false] at hin
    cases hin

/-- A worker has run a front part of what was dispatched to it. -/
lemma Between.ran_prefix (hb : Between host before s final)
    (hload : Invariant final' before { s with script := script })
    (hrun : handshake.Run { s with script := script } h s₁) (i : ℕ) :
    ran (.worker i) h <+: (dispatches i h).flatten := by
  obtain ⟨p, hw, -⟩ := (hload.run hrun).worker i
  have hworks := congrArg List.flatten hw.works
  rw [List.flatten_append, hw.tasks, dispatches_append, ran_append, List.flatten_append,
    ← hb.ran_worker i, List.append_assoc, List.append_assoc] at hworks
  exact ⟨_, (List.append_cancel_left hworks).symm⟩

/-- What was executed so far is part of what the script says. -/
lemma Between.executed_le (hb : Between host before s final)
    (hload : Invariant final' before { s with script := script })
    (hrun : handshake.Run { s with script := script } h s₁)
    (habove : ∀ i, t ≤ i → script.filterMap (MainOp.dispatchTo i) = []) :
    (executed h : Multiset Invocation) ≤ tasksOf t script := by
  have hscript : performed h ++ s₁.script = script := performed_run hrun
  have hworker (i : ℕ) : ran (.worker i) h <+:
      (script.filterMap (MainOp.dispatchTo i)).flatten := by
    refine (hb.ran_prefix hload hrun i).trans ?_
    rw [dispatches_eq_performed, ← hscript, List.filterMap_append, List.flatten_append]
    exact List.prefix_append _ _
  have hmain : ran .main h <+: script.filterMap MainOp.task := by
    rw [ran_main_eq_performed, ← hscript, List.filterMap_append]
    exact List.prefix_append _ _
  have hidle (i : ℕ) (hi : t ≤ i) : ran (.worker i) h = [] := by
    have hprefix := hworker i
    rw [habove i hi] at hprefix
    exact List.prefix_nil.mp hprefix
  rw [Pool.executed_eq h hidle]
  refine add_le_add (Multiset.coe_le.mpr hmain.sublist.subperm) ?_
  exact Finset.sum_le_sum fun i _ => Multiset.coe_le.mpr (hworker i).sublist.subperm

/-- When the script has ended and no work is open, all of it was executed. -/
lemma Between.executed_eq (hb : Between host before s final)
    (hload : Invariant final' before { s with script := script })
    (hrun : handshake.Run { s with script := script } h s₁) (hreturn : s₁.script = [])
    (hclosed : ∀ i, (final' i).isOpen = false)
    (habove : ∀ i, t ≤ i → script.filterMap (MainOp.dispatchTo i) = []) :
    (executed h : Multiset Invocation) = tasksOf t script := by
  have hperformed : performed h = script := by simpa [hreturn] using performed_run hrun
  have hworker (i : ℕ) : ran (.worker i) h = (script.filterMap (MainOp.dispatchTo i)).flatten := by
    obtain ⟨p, hw, hafter⟩ := (hload.run hrun).worker i
    obtain rfl : p = final' i := by simpa [hreturn] using hafter
    have hran := (hw.settled (hclosed i)).2.1
    rw [ran_append, dispatches_append, List.flatten_append, hb.ran_worker i] at hran
    rw [List.append_cancel_left hran, dispatches_eq_performed, hperformed]
  have hidle (i : ℕ) (hi : t ≤ i) : ran (.worker i) h = [] := by
    rw [hworker, habove i hi, List.flatten_nil]
  rw [Pool.executed_eq h hidle, ran_main_eq_performed, hperformed, tasksOf]
  simp only [hworker]

end Partial

end BcConcurrency.Pool
