import BcConcurrency.Pool.NestedSubmissions
import BcConcurrency.Pool.ParallelLoop

/-!
# Parallel loops inside of a call

A task or an iteration that runs on the main thread may call `bc_concurrency_for`
again.  The inner loop uses the same workers, whose single work pointer the outer
call may just have set, and it sets `tls_worker` of the main thread to null at its
end.

The script of the outer call is divided into pieces: its own operations, and those of
each inner loop, which follow the invocation that makes the call.  What an invocation
does besides its calls is not visible to the protocol.
-/

namespace BcConcurrency.Pool

variable {t : ℕ}

/-! ### The calls -/

/-- The arguments of a call of `bc_concurrency_for`, with what the system does in it. -/
structure LoopCall where
  range : ForRange
  spawn : SpawnOutcome

/-- What an inner loop does in the state it finds. -/
def LoopCall.outcome (call : LoopCall) (host : Host) : Outcome :=
  parallelFor host call.range call.spawn

/-- A piece of the script of an outer call. -/
inductive Piece
  | own (ops : List (MainOp Invocation))
  | nested (host : Host) (call : LoopCall)

/-- What the main thread does in a piece. -/
def Piece.ops : Piece → List (MainOp Invocation)
  | own ops => ops
  | nested host call => (call.outcome host).script

/-- The script made of pieces. -/
def scriptOf (pieces : List Piece) : List (MainOp Invocation) := pieces.flatMap Piece.ops

/-- The inner loops of one invocation. -/
def nestCalls : List LoopCall → Host → List Piece × Host
  | [], host => ([], host)
  | call :: calls, host =>
      let (pieces, host') := nestCalls calls (call.outcome host).host
      (.nested host call :: pieces, host')

/-- The main thread makes invocations; number `k` makes the inner loops `behaviour k`. -/
def nestRuns (behaviour : ℕ → List LoopCall) : ℕ → List Invocation → Host → List Piece × Host
  | _, [], host => ([], host)
  | k, invocation :: invocations, host =>
      let (calls, host) := nestCalls (behaviour k) host
      let (pieces, host) := nestRuns behaviour (k + 1) invocations host
      (.own [.run invocation] :: calls ++ pieces, host)

/-- The main thread runs its share as worker `t`. -/
def nestShare (t : ℕ) (behaviour : ℕ → List LoopCall) (invocations : List Invocation)
    (host : Host) : List Piece × Host :=
  let (pieces, host) := nestRuns behaviour 0 invocations host
  (.own [.setTls (some t)] :: pieces ++ [.own [.setTls none]], host)

/-- What an outer call does, its script divided into pieces. -/
structure NestedOutcome where
  result : Bool
  host : Host
  pieces : List Piece

/-- `bc_concurrency_dispatch_and_wait` when invocations on the main thread call
`bc_concurrency_for`. -/
def dispatchNestingLoops (host : Host) (spawn : SpawnOutcome) (behaviour : ℕ → List LoopCall) :
    NestedOutcome :=
  let staged := host.context.staging.data
  let stagingCount := staged.length
  let threadCount := host.context.threadCount
  if stagingCount = 0 then ⟨true, host, []⟩
  else if threadCount = 0 ∨ stagingCount = 1 then
    let (pieces, host) :=
      nestShare threadCount behaviour (staged.flatMap TaskEntry.invocations) host
    ⟨true, host.clearStaging, pieces⟩
  else match ensureWorkersSpawned host.context spawn with
  | (false, context, script) => ⟨false, ⟨context, host.memory⟩, [.own script]⟩
  | (true, context, script) =>
      match growDispatchTasks context host.memory stagingCount with
      | (false, context, memory) => ⟨false, ⟨context, memory⟩, [.own script]⟩
      | (true, context, memory) =>
          let buffer := context.dispatchTasks.copy staged
          let round := dispatchRound stagingCount threadCount buffer.cells
          let part := EvenSplit.part stagingCount (threadCount + 1) threadCount
          let host := ⟨{ context with dispatchTasks := buffer }, memory⟩
          let (share, host) :=
            if part.2 > 0 then nestShare threadCount behaviour (workOf buffer.cells part) host
            else ([], host)
          ⟨true, host.clearStaging,
            .own (script ++ round.assignments.map fun a => .dispatch a.1 a.2) :: share ++
              [.own (round.waits.map .wait)]⟩

/-- `bc_concurrency_for` when iterations on the main thread call it again. -/
def forNestingLoops (host : Host) (range : ForRange) (spawn : SpawnOutcome)
    (behaviour : ℕ → List LoopCall) : NestedOutcome :=
  let threadCount := host.context.threadCount
  if range.stepSize = 0 then ⟨false, host, []⟩
  else if range.startIndex ≥ range.endIndex then ⟨true, host, []⟩
  else if threadCount = 0 ∨ range.totalIterations ≤ threadCount then
    let (pieces, host) :=
      nestShare threadCount behaviour (range.iterations range.totalIterations) host
    ⟨true, host, pieces⟩
  else match ensureWorkersSpawned host.context spawn with
  | (false, context, script) => ⟨false, ⟨context, host.memory⟩, [.own script]⟩
  | (true, context, script) =>
      match host.memory.allocate (forBytes threadCount) with
      | (none, memory) => ⟨false, ⟨context, memory⟩, [.own script]⟩
      | (some alloc, memory) =>
          let round := range.round threadCount
          let (share, host) := nestShare threadCount behaviour
            (range.iterations (ForRange.mainCount range.totalIterations (threadCount + 1)))
            ⟨context, memory⟩
          ⟨true, ⟨host.context, host.memory.free alloc⟩,
            .own (script ++ round.assignments.map fun a => .dispatch a.1 a.2) :: share ++
              [.own (round.waits.map .wait)]⟩

/-- An outer call. -/
inductive OuterCall
  | dispatchAndWait (spawn : SpawnOutcome)
  | parallelFor (range : ForRange) (spawn : SpawnOutcome)

namespace OuterCall

/-- What an outer call does. -/
def run (host : Host) (behaviour : ℕ → List LoopCall) : OuterCall → NestedOutcome
  | dispatchAndWait spawn => dispatchNestingLoops host spawn behaviour
  | parallelFor range spawn => forNestingLoops host range spawn behaviour

/-- The same call without inner loops. -/
def call : OuterCall → Call
  | dispatchAndWait spawn => .dispatchAndWait spawn
  | parallelFor range spawn => .parallelFor range spawn

end OuterCall

/-- `bc_concurrency_worker_memory`, for a value of `tls_worker`; the memory context of
a worker is named by its index. -/
def workerMemory (tlsWorker : Option ℕ) : Option ℕ := tlsWorker

/-! ### What transparency means -/

/-- The tasks or the indices of an outer call. -/
def OuterCall.invocations (host : Host) : OuterCall → Multiset Invocation
  | dispatchAndWait _ => host.staged.flatMap TaskEntry.invocations
  | parallelFor range _ => range.invocations

/-- The indices of a loop that has returned `true`. -/
def Piece.invocations : Piece → Multiset Invocation
  | own _ => 0
  | nested host call => if (call.outcome host).result then call.range.invocations else 0

/-- The indices of the inner loops that have returned `true`. -/
def nestedInvocations (pieces : List Piece) : Multiset Invocation :=
  (pieces.map Piece.invocations).sum

/-- Inner loops do not disturb an outer call that begins in the state `s₀`, after the
history `before`. -/
structure Transparent (before : List (Event Invocation)) (s₀ : State Invocation) (host : Host)
    (outer : OuterCall) (pieces : List Piece) (result : Bool) : Prop where
  /-- An inner loop that has begun can return. -/
  returns : ∀ pre nhost call post, pieces = pre ++ .nested nhost call :: post →
    ∀ h s₁, handshake.Run s₀ h s₁ → s₁.script = scriptOf (.nested nhost call :: post) →
      ∃ h' s₂, handshake.Run s₁ h' s₂ ∧ s₂.script = scriptOf post
  /-- When it has returned `true` each of its indices was run once; everything else that
  was run belongs to the outer call or to the loops before. -/
  covered : ∀ pre nhost call post, pieces = pre ++ .nested nhost call :: post →
    ∀ h s₂, handshake.Run s₀ h s₂ → s₂.script = scriptOf post →
      ∃ own ≤ outer.invocations host,
        (executed h : Multiset Invocation) =
          own + nestedInvocations (pre ++ [.nested nhost call])
  /-- The accessors return after the inner loop what they returned before it. -/
  accessors : ∀ pre nhost call post, pieces = pre ++ .nested nhost call :: post →
    ∀ h s₁, handshake.Run s₀ h s₁ → s₁.script = scriptOf (.nested nhost call :: post) →
      ∀ h' s₂, handshake.Run s₁ h' s₂ → s₂.script = scriptOf post →
        workerIndex s₂.tls = workerIndex s₁.tls ∧ workerMemory s₂.tls = workerMemory s₁.tls ∧
          ∀ slot, workerSlot host.context s₂.tls slot = workerSlot host.context s₁.tls slot
  /-- When the outer call has returned `true` each of its tasks or indices was run once. -/
  outer : ∀ h s₂, handshake.Run s₀ h s₂ → s₂.script = [] →
    (executed h : Multiset Invocation) =
      (if result then outer.invocations host else 0) + nestedInvocations pieces
  /-- No work pointer is overwritten before its worker took it. -/
  kept : ∀ i work h₁ h₂ s₁, handshake.Run s₀ (h₁ ++ .dispatched i work :: h₂) s₁ →
    taken i (before ++ h₁) = dispatches i (before ++ h₁)

end BcConcurrency.Pool
