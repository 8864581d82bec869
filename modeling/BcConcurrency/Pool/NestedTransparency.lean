import BcConcurrency.Pool.Following
import BcConcurrency.Pool.NestedLoops

/-!
# When inner loops are transparent

An inner loop that makes a single call of its function disturbs the outer call: it ends
with `tls_worker` null, and if it uses the workers, it may overwrite work that they have
not taken yet.  A loop that runs nothing at all leaves at most threads behind.
-/

namespace BcConcurrency.Pool

variable {τ : Type*} {t : ℕ}

/-! ### Operations on threads -/

/-- The operation creates, stops or joins a thread. -/
def MainOp.isThreadOp : MainOp τ → Bool
  | .create _ | .stop _ | .join _ => true
  | _ => false

section ThreadOps

variable {script : List (MainOp τ)} (hops : ∀ op ∈ script, op.isThreadOp = true)

include hops

lemma tlsAfter_of_isThreadOp (tls : Option ℕ) : tlsAfter tls script = tls := by
  refine tlsAfter_of_not_isLocal ?_ tls
  intro op hop
  have := hops op hop
  cases op <;> first | rfl | cases this

lemma filterMap_task_of_isThreadOp : script.filterMap MainOp.task = [] := by
  rw [List.filterMap_eq_nil_iff]
  intro op hop
  have := hops op hop
  cases op <;> first | rfl | cases this

lemma filterMap_dispatchTo_of_isThreadOp (i : ℕ) :
    script.filterMap (MainOp.dispatchTo i) = [] := by
  rw [List.filterMap_eq_nil_iff]
  intro op hop
  have := hops op hop
  cases op <;> first | rfl | cases this

lemma ne_wait_of_isThreadOp : ∀ op ∈ script, ∀ i, op ≠ .wait i := by
  rintro op hop i rfl
  cases hops _ hop

/-- Only a wait gets stuck. -/
lemma Phase.ne_stuck_of_isThreadOp {i : ℕ} {p q : Phase} (hp : p ≠ .stuck)
    (hafter : p.after i script = some q) : q ≠ .stuck := by
  induction script generalizing p with
  | nil =>
    obtain rfl : p = q := by simpa using hafter
    exact hp
  | cons op script ih =>
    obtain ⟨p', hnext, hafter⟩ := Phase.after_cons_eq_some hafter
    refine ih (fun op' hmem => hops op' (List.mem_cons_of_mem _ hmem)) ?_ hafter
    rw [Phase.next] at hnext
    split at hnext
    · have hop := hops op (List.mem_cons_self ..)
      cases op with
      | create | stop | join => cases p <;> cases hnext <;> first | exact absurd rfl hp | simp
      | dispatch | setTls | run | wait => cases hop
    · cases hnext
      exact hp

end ThreadOps

/-! ### Loops that run nothing -/

namespace LoopCall

/-- The loop makes no call of its function: its step is zero or its range empty, or it
needs the workers and gets no threads or no memory for them. -/
def RunsNothing (call : LoopCall) (host : Host) : Prop :=
  call.range.stepSize = 0 ∨ call.range.endIndex ≤ call.range.startIndex ∨
    (0 < host.context.threadCount ∧
      host.context.threadCount < call.range.totalIterations ∧
      ((host.context.workersSpawned = false ∧
          call.spawn.started host.context.threadCount < host.context.threadCount) ∨
        (host.memory.allocate (forBytes host.context.threadCount)).1 = none))

variable {call : LoopCall} {host : Host}

/-- Any other loop ends with `tls_worker` null. -/
lemma tlsAfter_of_not_runsNothing (h : ¬ call.RunsNothing host) (tls : Option ℕ) :
    tlsAfter tls (call.outcome host).script = none := by
  rw [RunsNothing, not_or, not_or] at h
  obtain ⟨hstep, hrange, hworkers⟩ := h
  have hcases := parallelFor_cases host call.range call.spawn
  rw [outcome]
  generalize parallelFor host call.range call.spawn = o at hcases
  cases hcases with
  | zeroStep hzero => exact absurd hzero hstep
  | empty _ hempty => exact absurd hempty hrange
  | inline => exact tlsAfter_mainShare _ _
  | spawnFailed _ _ ht htotal hspawned hstarted =>
    exact absurd ⟨ht, htotal, Or.inl ⟨hspawned, hstarted⟩⟩ hworkers
  | refused _ _ ht htotal _ halloc =>
    exact absurd ⟨ht, htotal, Or.inr (by rw [halloc])⟩ hworkers
  | round =>
    have hwaits : ∀ op ∈ ((List.range host.context.threadCount).map .wait : List (MainOp Invocation)),
        op.isLocal = false := by
      intro op hop
      obtain ⟨i, -, rfl⟩ := List.mem_map.mp hop
      rfl
    rw [Round.script, tlsAfter_append, tlsAfter_append, tlsAfter_append]
    exact (tlsAfter_of_not_isLocal hwaits _).trans (tlsAfter_mainShare _ _)

lemma isThreadOp_of_start {spawn : SpawnOutcome} {spawned : Bool}
    {start : List (MainOp Invocation)} (hstart : Start spawn t spawned start) :
    ∀ op ∈ start, op.isThreadOp = true := by
  cases hstart with
  | spawned => simp
  | fresh => simp [createScript, MainOp.isThreadOp]

namespace RunsNothing

variable (h : call.RunsNothing host)

include h

/-- The loop creates, stops and joins threads, but only if the workers do not run. -/
lemma script :
    (∀ op ∈ (call.outcome host).script, op.isThreadOp = true) ∧
      (host.context.workersSpawned = true → (call.outcome host).script = []) := by
  have hcases := parallelFor_cases host call.range call.spawn
  rw [outcome]
  generalize parallelFor host call.range call.spawn = o at hcases
  cases hcases with
  | zeroStep | empty => simp
  | inline hstep hlt hinline =>
    rcases h with h | h | ⟨ht, htotal, -⟩ <;> omega
  | spawnFailed _ _ _ _ hspawned =>
    refine ⟨fun op hop => ?_, fun htrue => by simp [hspawned] at htrue⟩
    simp only [createScript, stopScript, List.mem_append, List.mem_map] at hop
    rcases hop with ⟨_, _, rfl⟩ | ⟨_, _, rfl⟩ | ⟨_, _, rfl⟩ <;> rfl
  | refused _ _ _ _ hstart =>
    refine ⟨isThreadOp_of_start hstart, ?_⟩
    intro htrue
    rw [htrue] at hstart
    cases hstart
    rfl
  | round hstep hlt _ _ hstart halloc =>
    -- a round needs its workers and its block, and one of them is missing
    rcases h with h | h | ⟨-, -, ⟨hspawned, hstarted⟩ | hnone⟩
    · omega
    · omega
    · rw [hspawned] at hstart
      cases hstart
      omega
    · simp [halloc] at hnone

/-- The loop covers no index. -/
lemma invocations : Piece.invocations (.nested host call) = 0 := by
  obtain ⟨hops, -⟩ := h.script
  rw [outcome] at hops
  rw [Piece.invocations, outcome, ← tasksOf_parallelFor,
    tasksOf_of_not_dispatch (filterMap_dispatchTo_of_isThreadOp hops),
    filterMap_task_of_isThreadOp hops]
  rfl

/-- The workers rest after the loop as they did before it. -/
lemma after {final : ℕ → Phase}
    (hrest : Resting host.context.threadCount host.context.workersSpawned final) :
    ∃ final', (∀ i, (final i).after i (call.outcome host).script = some (final' i)) ∧
      Resting (call.outcome host).host.context.threadCount
        (call.outcome host).host.context.workersSpawned final' := by
  obtain ⟨final', hafter, hrest', -⟩ :=
    (run_callScript host (.parallelFor call.range call.spawn)).after hrest
  refine ⟨final', hafter, ?_⟩
  have hcount := run_threadCount host (.parallelFor call.range call.spawn)
  rw [outcome, show (parallelFor host call.range call.spawn).host.context.threadCount = _
    from hcount]
  exact hrest' fun i => Phase.ne_stuck_of_isThreadOp h.script.1 (hrest.ne_stuck i) (hafter i)

end RunsNothing

end LoopCall

/-! ### Pieces -/

/-- The operations of the outer call in a piece. -/
def Piece.ownOps : Piece → List (MainOp Invocation)
  | own ops => ops
  | nested _ _ => []

/-- The script of the outer call without its inner loops. -/
def ownScript (pieces : List Piece) : List (MainOp Invocation) := pieces.flatMap Piece.ownOps

/-- All inner loops run nothing in the states they find. -/
def AllRunNothing (pieces : List Piece) : Prop :=
  ∀ nhost call, .nested nhost call ∈ pieces → call.RunsNothing nhost

/-- Inner loops begin while `tls_worker` is not null, and what the outer call does before
one of them needs no other thread. -/
def Inside : Option ℕ → List Piece → Prop
  | _, [] => True
  | tls, .own ops :: rest =>
      ((∃ nhost call, .nested nhost call ∈ rest) → ∀ op ∈ ops, op.isFree = true) ∧
        Inside (tlsAfter tls ops) rest
  | tls, .nested _ _ :: rest => tls ≠ none ∧ Inside tls rest

/-- Invocations with their inner loops, from one state of the context and the pool to
another. -/
inductive NestedRuns : Host → List Piece → List Invocation → Host → Prop
  | nil {host : Host} : NestedRuns host [] [] host
  | run {host host' : Host} {pieces : List Piece} {invocation : Invocation}
      {invocations : List Invocation} (hruns : NestedRuns host pieces invocations host') :
      NestedRuns host (.own [.run invocation] :: pieces) (invocation :: invocations) host'
  | nested {host host' : Host} {call : LoopCall} {pieces : List Piece}
      {invocations : List Invocation}
      (hruns : NestedRuns (call.outcome host).host pieces invocations host') :
      NestedRuns host (.nested host call :: pieces) invocations host'

lemma nestedRuns_nestCalls {host host' : Host} {calls : List LoopCall} {pieces : List Piece}
    {invocations : List Invocation}
    (hruns : NestedRuns (nestCalls calls host).2 pieces invocations host') :
    NestedRuns host ((nestCalls calls host).1 ++ pieces) invocations host' := by
  induction calls generalizing host with
  | nil => exact hruns
  | cons call calls ih => exact .nested (ih hruns)

lemma nestedRuns_nestRuns (behaviour : ℕ → List LoopCall) (k : ℕ) (invocations : List Invocation)
    (host : Host) :
    NestedRuns host (nestRuns behaviour k invocations host).1 invocations
      (nestRuns behaviour k invocations host).2 := by
  induction invocations generalizing k host with
  | nil => exact .nil
  | cons invocation invocations ih =>
    exact .run (nestedRuns_nestCalls (ih (k + 1) (nestCalls (behaviour k) host).2))

namespace NestedRuns

variable {host host' : Host} {pieces : List Piece} {invocations : List Invocation}

lemma ownScript_eq (hruns : NestedRuns host pieces invocations host') :
    ownScript pieces = invocations.map .run := by
  induction hruns with
  | nil => rfl
  | run _ ih => exact congrArg (List.cons _) ih
  | nested _ ih => exact ih

lemma inside (hruns : NestedRuns host pieces invocations host') {rest : List Piece}
    (hrest : Inside (some t) rest) : Inside (some t) (pieces ++ rest) := by
  induction hruns with
  | nil => exact hrest
  | run _ ih => exact ⟨fun _ => by simp [MainOp.isFree], ih⟩
  | nested _ ih => exact ⟨by simp, ih⟩

/-- Once the workers run, every inner loop finds them running. -/
lemma spawned (hruns : NestedRuns host pieces invocations host')
    (hspawned : host.context.workersSpawned = true) {nhost : Host} {call : LoopCall}
    (hmem : .nested nhost call ∈ pieces) : nhost.context.workersSpawned = true := by
  induction hruns with
  | nil => cases hmem
  | run _ ih => exact ih hspawned (by simpa using hmem)
  | @nested host _ call' _ _ _ ih =>
    rcases List.mem_cons.mp hmem with heq | hmem
    · cases heq
      exact hspawned
    · refine ih ?_ hmem
      have hscript := run_callScript host (.parallelFor call'.range call'.spawn)
      rw [hspawned] at hscript
      exact hscript.spawned_eq

/-- Inner loops that run nothing leave the workers resting. -/
lemma after (hruns : NestedRuns host pieces invocations host') (hnothing : AllRunNothing pieces)
    {final : ℕ → Phase}
    (hrest : Resting host.context.threadCount host.context.workersSpawned final) :
    ∃ final', (∀ i, (final i).after i (scriptOf pieces) = some (final' i)) ∧
      Resting host'.context.threadCount host'.context.workersSpawned final' := by
  induction hruns generalizing final with
  | nil => exact ⟨final, fun _ => rfl, hrest⟩
  | run _ ih => exact ih (fun nhost call hmem => hnothing nhost call (by simp [hmem])) hrest
  | @nested host _ call' pieces _ _ ih =>
    obtain ⟨final₁, hafter₁, hrest₁⟩ := (hnothing host call' (List.mem_cons_self ..)).after hrest
    obtain ⟨final₂, hafter₂, hrest₂⟩ :=
      ih (fun nhost call hmem => hnothing nhost call (List.mem_cons_of_mem _ hmem)) hrest₁
    refine ⟨final₂, ?_, hrest₂⟩
    intro i
    rw [scriptOf, List.flatMap_cons, Phase.after_append]
    exact (congrArg (Option.bind · _) (hafter₁ i)).trans (hafter₂ i)

end NestedRuns

/-! ### The outer call -/

/-- The pieces of an outer call that begins in `host`. -/
inductive Shape (t : ℕ) (host : Host) : List Piece → Prop
  | alone (scripts : List (List (MainOp Invocation))) : Shape t host (scripts.map .own)
  | inline {host' : Host} {runs : List Piece} {invocations : List Invocation}
      (hruns : NestedRuns host runs invocations host') :
      Shape t host (.own [.setTls (some t)] :: (runs ++ [.own [.setTls none]]))
  | round {mid mid' : Host} {lead waits : List (MainOp Invocation)} {runs : List Piece}
      {invocations : List Invocation} (hfree : ∀ op ∈ lead, op.isFree = true)
      (hspawned : mid.context.workersSpawned = true)
      (hruns : NestedRuns mid runs invocations mid') :
      Shape t host (.own lead :: .own [.setTls (some t)] ::
        (runs ++ [.own [.setTls none], .own waits]))

@[simp] lemma ownScript_cons (piece : Piece) (pieces : List Piece) :
    ownScript (piece :: pieces) = piece.ownOps ++ ownScript pieces := List.flatMap_cons

@[simp] lemma ownScript_append (pieces pieces' : List Piece) :
    ownScript (pieces ++ pieces') = ownScript pieces ++ ownScript pieces' := List.flatMap_append

@[simp] lemma scriptOf_cons (piece : Piece) (pieces : List Piece) :
    scriptOf (piece :: pieces) = piece.ops ++ scriptOf pieces := List.flatMap_cons

@[simp] lemma scriptOf_append (pieces pieces' : List Piece) :
    scriptOf (pieces ++ pieces') = scriptOf pieces ++ scriptOf pieces' := List.flatMap_append

lemma isFree_of_start {spawn : SpawnOutcome} {spawned : Bool}
    {start : List (MainOp Invocation)} (hstart : Start spawn t spawned start)
    (assignments : List (ℕ × List Invocation)) :
    ∀ op ∈ start ++ assignments.map (fun a => .dispatch a.1 a.2), op.isFree = true := by
  intro op hop
  rcases List.mem_append.mp hop with hop | hop
  · cases hstart with
    | spawned => cases hop
    | fresh =>
      obtain ⟨i, -, rfl⟩ := List.mem_map.mp hop
      rfl
  · obtain ⟨a, -, rfl⟩ := List.mem_map.mp hop
    rfl

section Outer

variable (host : Host) (behaviour : ℕ → List LoopCall)

/-- The pieces of a share of the main thread. -/
lemma shape_nestShare (invocations : List Invocation) :
    ownScript (nestShare t behaviour invocations host).1 = mainShare t invocations ∧
      Shape t host (nestShare t behaviour invocations host).1 := by
  have hruns := nestedRuns_nestRuns behaviour 0 invocations host
  refine ⟨?_, .inline hruns⟩
  show [.setTls (some t)] ++ ownScript ((nestRuns behaviour 0 invocations host).1 ++ _) = _
  rw [ownScript_append, hruns.ownScript_eq]
  rfl

/-- The pieces of a round. -/
lemma shape_round {mid : Host} (hspawned : mid.context.workersSpawned = true)
    {lead waits script : List (MainOp Invocation)} (hfree : ∀ op ∈ lead, op.isFree = true)
    {invocations : List Invocation} (hscript : lead ++ mainShare t invocations ++ waits = script) :
    ownScript (.own lead :: (nestShare t behaviour invocations mid).1 ++ [.own waits]) = script ∧
      Shape t host (.own lead :: (nestShare t behaviour invocations mid).1 ++ [.own waits]) := by
  have hruns := nestedRuns_nestRuns behaviour 0 invocations mid
  constructor
  · rw [← hscript, List.cons_append, ownScript_cons, ownScript_append,
      (shape_nestShare mid behaviour invocations).1]
    simp [Piece.ownOps, ownScript]
  · have hshape : Shape t host (.own lead :: .own [.setTls (some t)] ::
        ((nestRuns behaviour 0 invocations mid).1 ++ [.own [.setTls none], .own waits])) :=
      .round hfree hspawned hruns
    simpa [nestShare] using hshape

/-- Inner loops change neither the result of the outer dispatch nor its own operations. -/
lemma dispatchNestingLoops_eq (spawn : SpawnOutcome) :
    (dispatchNestingLoops host spawn behaviour).result = (dispatchAndWait host spawn).result ∧
      ownScript (dispatchNestingLoops host spawn behaviour).pieces =
        (dispatchAndWait host spawn).script ∧
      Shape host.context.threadCount host (dispatchNestingLoops host spawn behaviour).pieces := by
  simp only [dispatchNestingLoops, dispatchAndWait]
  by_cases hempty : host.context.staging.data.length = 0
  · simp only [if_pos hempty]
    exact ⟨trivial, rfl, .alone []⟩
  by_cases hinline : host.context.threadCount = 0 ∨ host.context.staging.data.length = 1
  · simp only [if_neg hempty, if_pos hinline]
    exact ⟨trivial, shape_nestShare host behaviour _⟩
  simp only [if_neg hempty, if_neg hinline]
  rw [not_or] at hinline
  rcases ensureWorkersSpawned_cases host.context spawn (Nat.pos_of_ne_zero hinline.1) with
    ⟨start, hstart, heq⟩ | ⟨-, -, heq⟩
  · rw [heq]
    dsimp only
    rcases hgrow : growDispatchTasks { host.context with workersSpawned := true } host.memory
        host.context.staging.data.length with ⟨_ | _, context, memory⟩
    · exact ⟨rfl, by simp [ownScript, Piece.ownOps], .alone [start]⟩
    · obtain ⟨_, _, rfl⟩ := growDispatchTasks_frame hgrow
      dsimp only
      simp only [Round.script, dispatchRound, mainPart]
      split
      · exact ⟨trivial, shape_round host behaviour rfl (isFree_of_start hstart _) (by simp)⟩
      · exact ⟨trivial, by simp [ownScript, Piece.ownOps], .alone [_, _]⟩
  · rw [heq]
    exact ⟨rfl, by simp [ownScript, Piece.ownOps], .alone [_]⟩

/-- Inner loops change neither the result of the outer loop nor its own operations. -/
lemma forNestingLoops_eq (range : ForRange) (spawn : SpawnOutcome) :
    (forNestingLoops host range spawn behaviour).result =
        (parallelFor host range spawn).result ∧
      ownScript (forNestingLoops host range spawn behaviour).pieces =
        (parallelFor host range spawn).script ∧
      Shape host.context.threadCount host
        (forNestingLoops host range spawn behaviour).pieces := by
  simp only [forNestingLoops, parallelFor]
  by_cases hzero : range.stepSize = 0
  · simp only [if_pos hzero]
    exact ⟨trivial, rfl, .alone []⟩
  by_cases hempty : range.startIndex ≥ range.endIndex
  · simp only [if_neg hzero, if_pos hempty]
    exact ⟨trivial, rfl, .alone []⟩
  by_cases hinline : host.context.threadCount = 0 ∨
      range.totalIterations ≤ host.context.threadCount
  · simp only [if_neg hzero, if_neg hempty, if_pos hinline]
    exact ⟨trivial, shape_nestShare host behaviour _⟩
  simp only [if_neg hzero, if_neg hempty, if_neg hinline]
  rw [not_or] at hinline
  rcases ensureWorkersSpawned_cases host.context spawn (Nat.pos_of_ne_zero hinline.1) with
    ⟨start, hstart, heq⟩ | ⟨-, -, heq⟩
  · rw [heq]
    dsimp only
    rcases halloc : host.memory.allocate (forBytes host.context.threadCount) with
      ⟨_ | alloc, memory⟩
    · rw [forBytes] at halloc
      simp only [halloc]
      exact ⟨trivial, by simp [ownScript, Piece.ownOps], .alone [start]⟩
    · rw [forBytes] at halloc
      simp only [halloc]
      refine ⟨trivial, shape_round host behaviour rfl (isFree_of_start hstart _) ?_⟩
      simp [Round.script, ForRange.round]
  · rw [heq]
    exact ⟨rfl, by simp [ownScript, Piece.ownOps], .alone [_]⟩

/-- Inner loops change neither the result of the outer call nor its own operations. -/
lemma OuterCall.run_eq (outer : OuterCall) :
    (outer.run host behaviour).result = (outer.call.run host).result ∧
      ownScript (outer.run host behaviour).pieces = (outer.call.run host).script ∧
      Shape host.context.threadCount host (outer.run host behaviour).pieces := by
  cases outer with
  | dispatchAndWait spawn => exact dispatchNestingLoops_eq host behaviour spawn
  | parallelFor range spawn => exact forNestingLoops_eq host behaviour range spawn

/-- The outer call runs its invocations, or nothing. -/
lemma OuterCall.tasksOf_call {host : Host} (hcap : Capacious host.context) (outer : OuterCall) :
    tasksOf host.context.threadCount (outer.call.run host).script =
      if (outer.call.run host).result then outer.invocations host else 0 := by
  cases outer with
  | dispatchAndWait spawn => exact tasksOf_dispatchAndWait hcap spawn
  | parallelFor range spawn => exact tasksOf_parallelFor host range spawn

end Outer

namespace Shape

variable {host : Host} {pieces : List Piece}

lemma inside_map_own (tls : Option ℕ) (scripts : List (List (MainOp Invocation))) :
    Inside tls (scripts.map .own) := by
  induction scripts generalizing tls with
  | nil => trivial
  | cons ops scripts ih => exact ⟨by simp, ih _⟩

lemma inside (hshape : Shape t host pieces) : Inside none pieces := by
  cases hshape with
  | alone scripts => exact inside_map_own none scripts
  | inline hruns =>
    refine ⟨fun _ => by simp [MainOp.isFree], ?_⟩
    exact hruns.inside (inside_map_own (some t) [_])
  | round hfree _ hruns =>
    refine ⟨fun _ => hfree, fun _ => by simp [MainOp.isFree], ?_⟩
    exact hruns.inside (inside_map_own (some t) [_, _])

end Shape

section Nothing

variable {pieces : List Piece} (hnothing : AllRunNothing pieces)

include hnothing

/-- Inner loops that run nothing are not seen by a function that ignores operations on
threads. -/
lemma filterMap_scriptOf {α : Type*} (f : MainOp Invocation → Option α)
    (hf : ∀ script : List (MainOp Invocation), (∀ op ∈ script, op.isThreadOp = true) →
      script.filterMap f = []) :
    (scriptOf pieces).filterMap f = (ownScript pieces).filterMap f := by
  rw [scriptOf, ownScript, List.filterMap_flatMap, List.filterMap_flatMap]
  refine List.flatMap_congr ?_
  intro piece hpiece
  cases piece with
  | own => rfl
  | nested nhost call => exact hf _ (hnothing nhost call hpiece).script.1

lemma tasksOf_scriptOf : tasksOf t (scriptOf pieces) = tasksOf t (ownScript pieces) := by
  rw [tasksOf, tasksOf, filterMap_scriptOf hnothing _ fun _ => filterMap_task_of_isThreadOp]
  congr 1
  refine Finset.sum_congr rfl ?_
  intro i _
  rw [filterMap_scriptOf hnothing _ fun _ hops => filterMap_dispatchTo_of_isThreadOp hops i]

lemma nestedInvocations_eq_zero : nestedInvocations pieces = 0 := by
  refine List.sum_eq_zero ?_
  intro x hx
  obtain ⟨piece, hpiece, rfl⟩ := List.mem_map.mp hx
  cases piece with
  | own => rfl
  | nested nhost call => exact (hnothing nhost call hpiece).invocations

/-- If the workers run already, inner loops that run nothing do nothing at all. -/
lemma scriptOf_eq_ownScript
    (hspawned : ∀ nhost call, .nested nhost call ∈ pieces → nhost.context.workersSpawned = true) :
    scriptOf pieces = ownScript pieces := by
  rw [scriptOf, ownScript]
  refine List.flatMap_congr ?_
  intro piece hpiece
  cases piece with
  | own => rfl
  | nested nhost call => exact (hnothing nhost call hpiece).script.2 (hspawned nhost call hpiece)

/-- The workers follow the script of the outer call with its inner loops. -/
lemma Shape.phases {host : Host} {before : List (Event Invocation)} {s : State Invocation}
    {final : ℕ → Phase} (hshape : Shape host.context.threadCount host pieces)
    (hb : Between host before s final) (call : Call)
    (hown : ownScript pieces = (call.run host).script) :
    ∃ final', Invariant final' before { s with script := scriptOf pieces } ∧
      ((∀ i, final' i ≠ .stuck) → ∀ i, (final' i).isOpen = false) := by
  obtain ⟨final₁, hload, hrest, -⟩ := hb.phases_load call
  rw [← hown] at hload
  cases hshape with
  | alone scripts =>
    refine ⟨final₁, ?_, fun hstuck => (hrest hstuck).isOpen_eq⟩
    rwa [scriptOf_eq_ownScript hnothing fun nhost call' hmem => by simp at hmem]
  | round _ hspawned hruns =>
    refine ⟨final₁, ?_, fun hstuck => (hrest hstuck).isOpen_eq⟩
    rwa [scriptOf_eq_ownScript hnothing fun nhost call' hmem =>
      hruns.spawned hspawned (show Piece.nested nhost call' ∈ _ by simpa using hmem)]
  | @inline host' runs _ hruns =>
    obtain ⟨final₂, hafter, hrest₂⟩ := hruns.after
      (fun nhost call hmem => hnothing nhost call (by simp [hmem])) hb.rest
    refine ⟨final₂, hb.inv.load hb.done ?_, fun _ => hrest₂.isOpen_eq⟩
    intro i
    -- the main thread's share touches no worker
    have hlocal (worker : Option ℕ) (p : Phase) :
        p.after i ([.setTls worker] : List (MainOp Invocation)) = some p :=
      Phase.after_of_isLocal (by simp [MainOp.isLocal])
    simp only [scriptOf_cons, scriptOf_append, Piece.ops, Phase.after_append, hlocal,
      Option.bind_some, hafter]
    exact hlocal none (final₂ i)

end Nothing

/-! ### The result -/

section Result

variable {host : Host} {before : List (Event Invocation)} {s : State Invocation}
  {final : ℕ → Phase} {outer : OuterCall} {behaviour : ℕ → List LoopCall}

/-- Inner loops that run nothing do not disturb the outer call. -/
lemma transparent_of_allRunNothing (hcap : Capacious host.context) (hb : Between host before s final)
    (hnothing : AllRunNothing (outer.run host behaviour).pieces) :
    Transparent before { s with script := scriptOf (outer.run host behaviour).pieces } host outer
      (outer.run host behaviour).pieces (outer.run host behaviour).result := by
  obtain ⟨hresult, hown, hshape⟩ := outer.run_eq host behaviour
  obtain ⟨final', hload, hclosed⟩ := hshape.phases hnothing hb outer.call hown
  have htotal : tasksOf host.context.threadCount (scriptOf (outer.run host behaviour).pieces) =
      if (outer.run host behaviour).result then outer.invocations host else 0 := by
    rw [tasksOf_scriptOf hnothing, hown, hresult]
    exact outer.tasksOf_call hcap
  -- nothing is handed to a worker that does not exist
  have habove (i : ℕ) (hi : host.context.threadCount ≤ i) :
      (scriptOf (outer.run host behaviour).pieces).filterMap (MainOp.dispatchTo i) = [] := by
    rw [filterMap_scriptOf hnothing _ fun _ hops => filterMap_dispatchTo_of_isThreadOp hops i, hown]
    exact (run_callScript host outer.call).filterMap_dispatchTo hi
  generalize (outer.run host behaviour).pieces = pieces at *
  generalize (outer.run host behaviour).result = result at *
  refine ⟨?_, ?_, ?_, ?_, ?_⟩
  · rintro pre nhost call post rfl h s₁ hrun hscript
    have hops := (hnothing nhost call (by simp)).script.1
    rw [scriptOf_cons] at hscript
    exact (hload.run hrun).exists_run_front (ne_wait_of_isThreadOp hops) hscript
  · rintro pre nhost call post rfl h s₂ hrun -
    have hle := (hb.executed_le hload hrun habove).trans htotal.le
    refine ⟨executed h, hle.trans ?_, ?_⟩
    · cases result <;> simp
    · rw [nestedInvocations_eq_zero fun nhost' call' hmem => hnothing nhost' call' ?_, add_zero]
      simp only [List.mem_append, List.mem_cons, List.not_mem_nil, or_false] at hmem ⊢
      exact hmem.imp_right Or.inl
  · rintro pre nhost call post rfl h s₁ - hscript₁ h' s₂ hrun hscript₂
    have hops := (hnothing nhost call (by simp)).script.1
    have htls : s₂.tls = s₁.tls :=
      (tls_front hrun (by rw [hscript₁, hscript₂]; exact scriptOf_cons _ _)).trans
        (tlsAfter_of_isThreadOp hops _)
    rw [htls]
    exact ⟨rfl, rfl, fun _ => rfl⟩
  · intro h s₂ hrun hreturn
    rw [nestedInvocations_eq_zero hnothing, add_zero, ← htotal]
    exact hb.executed_eq hload hrun hreturn (hclosed ((hload.run hrun).final_ne_stuck hreturn)) habove
  · intro i work h₁ h₂ s₁ hrun
    obtain ⟨s₂, c, s₃, hrun', hs, -⟩ := hrun.split_event
    refine ((hload.run hrun').settled_of_move (handshake_inv hs).performed rfl ?_).1
    intro p hmove
    cases p <;> first | rfl | cases hmove

/-- If inner loops do not disturb the outer call, each of them runs nothing: any other
loop has set `tls_worker` to null when it returns. -/
lemma allRunNothing_of_transparent {s₀ s₁ : State Invocation} {pieces pre rest : List Piece}
    {result : Bool} {h : List (Event Invocation)}
    (htransparent : Transparent before s₀ host outer pieces result) (hplaced : s₀.Placed)
    (hpieces : pieces = pre ++ rest) (hrun : handshake.Run s₀ h s₁)
    (hscript : s₁.script = scriptOf rest) (hinside : Inside s₁.tls rest) : AllRunNothing rest := by
  induction rest generalizing pre h s₁ with
  | nil =>
    intro nhost call hmem
    cases hmem
  | cons piece rest ih =>
    have hpieces' := hpieces.trans (List.append_cons pre piece rest)
    cases piece with
    | own ops =>
      obtain ⟨hfree, hinside⟩ := hinside
      -- without a nested call left there is nothing to show
      by_cases hnested : ∃ nhost call, .nested nhost call ∈ rest
      · obtain ⟨h', s₂, hrun', hscript'⟩ :=
          exists_run_of_free (hplaced.run hrun) (hfree hnested) hscript
        rw [← tls_front hrun' (by rw [hscript, hscript']; exact scriptOf_cons _ _)] at hinside
        have hrest := ih hpieces' (hrun.trans hrun') hscript' hinside
        exact fun nhost call hmem => hrest nhost call (by simpa using hmem)
      · exact fun nhost call hmem => absurd ⟨nhost, call, by simpa using hmem⟩ hnested
    | nested nhost call =>
      obtain ⟨htls, hinside⟩ := hinside
      obtain ⟨h', s₂, hrun', hscript'⟩ :=
        htransparent.returns pre nhost call rest hpieces h s₁ hrun hscript
      have hsame : s₂.tls = s₁.tls := (htransparent.accessors pre nhost call rest hpieces h s₁ hrun
        hscript h' s₂ hrun' hscript').2.1
      -- a nested loop that ran something has cleared `tls_worker`, where the task looks next
      have hnothing : call.RunsNothing nhost := by
        by_contra hnot
        have hnull : s₂.tls = none :=
          (tls_front hrun' (by rw [hscript, hscript']; exact scriptOf_cons _ _)).trans
            (LoopCall.tlsAfter_of_not_runsNothing hnot _)
        exact htls (hsame.symm.trans hnull)
      have hrest := ih hpieces' (hrun.trans hrun') hscript' (hsame.symm ▸ hinside)
      intro nhost' call' hmem
      rcases List.mem_cons.mp hmem with heq | hmem
      · cases heq
        exact hnothing
      · exact hrest nhost' call' hmem

end Result

/-- In every session after a successful creation and in every interleaving, the loops
that an outer call begins on the main thread do not disturb it exactly if each of them
runs nothing. -/
theorem nested_loops_transparent_iff {memory memory' : Memory} {physicalCoreCount : ℕ}
    {config : Option Config} {stagingGrows memoryGrants : ℕ → Bool} {context : Context}
    (hcreate : create memory physicalCoreCount config stagingGrows memoryGrants =
      (some context, memory'))
    {records : List Record} {host : Host} {s : State Invocation}
    (hsession : Session ⟨context, memory'⟩ records host s) (outer : OuterCall)
    (behaviour : ℕ → List LoopCall) :
    Transparent (histories records)
        { s with script := scriptOf (outer.run host behaviour).pieces } host outer
        (outer.run host behaviour).pieces (outer.run host behaviour).result ↔
      AllRunNothing (outer.run host behaviour).pieces := by
  have hfresh := (create_ok hcreate).1
  obtain ⟨final, hb⟩ := hsession.between hfresh.workersSpawned
  have hshape := (outer.run_eq host behaviour).2.2
  constructor
  · intro htransparent
    refine allRunNothing_of_transparent htransparent (hb.placed _) (List.nil_append _).symm
      Machine.Run.nil rfl ?_
    rw [show State.tls { s with script := scriptOf (outer.run host behaviour).pieces } = none
      from hb.tls]
    exact hshape.inside
  · exact transparent_of_allRunNothing (hsession.capacious hfresh.capacious) hb

/-- A task begins a loop for which the pool has no memory: the loop creates the worker
thread and returns `false`. -/
theorem nested_loops_transparent_iff_refused :
    ∃ context memory',
      create ⟨fun request => request < 6, 0, 0, [], []⟩ 2 none (fun push => push == 1)
        (fun _ => true) = (some context, memory') ∧
      let spawn : SpawnOutcome := ⟨true, true, fun _ => true⟩
      let loop : LoopCall := ⟨⟨0, 2, 1, 3, 30, by decide, by decide, by decide⟩, spawn⟩
      let result := play ⟨context, memory'⟩ (State.start []) [(.submit 1 10, [])]
      let outer := (OuterCall.dispatchAndWait spawn).run result.2.1 fun _ => [loop]
      outer.pieces.map Piece.ops =
          [[.setTls (some 1)], [.run (.task 1 10)], [.create 0], [.setTls none]] ∧
        Transparent (histories result.1) { result.2.2 with script := scriptOf outer.pieces }
          result.2.1 (.dispatchAndWait spawn) outer.pieces outer.result := by
  have hcreate : create ⟨fun request => request < 6, 0, 0, [], []⟩ 2 none
    (fun push => push == 1) (fun _ => true) = (some _, _) := rfl
  refine ⟨_, _, hcreate, by decide, ?_⟩
  refine (nested_loops_transparent_iff hcreate (session_play _ [(.submit 1 10, [])] (by decide))
    _ _).mpr ?_
  intro nhost call hmem
  rcases List.mem_cons.mp hmem with hmem | hmem
  · cases hmem
  rcases List.mem_cons.mp hmem with hmem | hmem
  · cases hmem
  rcases List.mem_cons.mp hmem with hmem | hmem
  · cases hmem
    exact Or.inr (Or.inr ⟨by decide, by decide, Or.inr rfl⟩)
  · cases List.mem_singleton.mp hmem

/-- The main thread runs the second of two tasks, which begins a loop with two iterations
before the worker has taken the first task: the loop overwrites it, and it is never run. -/
theorem nested_loop_overwrites :
    ∃ context memory',
      create ⟨fun _ => true, 0, 0, [], []⟩ 2 none (fun _ => false) (fun _ => true) =
        (some context, memory') ∧
      let spawn : SpawnOutcome := ⟨true, true, fun _ => true⟩
      let loop : LoopCall := ⟨⟨0, 2, 1, 3, 30, by decide, by decide, by decide⟩, spawn⟩
      let result := play ⟨context, memory'⟩ (State.start [])
        [(.submit 1 10, []), (.submit 2 20, [])]
      let outer := (OuterCall.dispatchAndWait spawn).run result.2.1 fun _ => [loop]
      let main := List.replicate 11 (Move.run .main)
      let worker := List.replicate 4 (Move.run (.worker 0))
      let s₀ := { result.2.2 with script := scriptOf outer.pieces }
      let final := handshake.exec s₀ (main ++ worker ++ main)
      Session ⟨context, memory'⟩ result.1 result.2.1 result.2.2 ∧
        final.2.script = [] ∧ outer.result = true ∧
        dispatches 0 final.1 = [[.task 1 10], [.iteration 3 1 30]] ∧
        taken 0 final.1 = [[.iteration 3 1 30]] ∧
        executed final.1 = [.task 2 20, .iteration 3 0 30, .iteration 3 1 30] ∧
        ¬ Transparent (histories result.1) s₀ result.2.1 (.dispatchAndWait spawn) outer.pieces
          outer.result := by
  have hcreate : create ⟨fun _ => true, 0, 0, [], []⟩ 2 none (fun _ => false) (fun _ => true) =
    (some _, _) := rfl
  refine ⟨_, _, hcreate, session_play _ _ (by decide), by decide, by decide, by decide, by decide,
    by decide, ?_⟩
  intro htransparent
  have houter := congrArg Multiset.card (htransparent.outer _ _
    (handshake.run_exec _ (List.replicate 11 (Move.run .main) ++
      List.replicate 4 (Move.run (.worker 0)) ++ List.replicate 11 (Move.run .main))) (by decide))
  revert houter
  decide

end BcConcurrency.Pool
