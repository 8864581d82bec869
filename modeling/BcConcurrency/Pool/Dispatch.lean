import BcConcurrency.Lib.EvenSplit
import BcConcurrency.Pool.Rounds
import BcConcurrency.Pool.Slots

/-!
# The calls of the library

`bc_concurrency_submit`, `bc_concurrency_submit_batch`,
`bc_concurrency_dispatch_and_wait` and `bc_concurrency_for`.  A call computes its
result, the context and the pool that it leaves behind, and the script that the
main thread performs on the way.  Tasks do not re-enter the library, so what a call
computes does not depend on how its script is interleaved with the workers.
-/

namespace BcConcurrency.Pool

/-- The context and the pool between two calls. -/
structure Host where
  context : Context
  memory : Memory

/-- What a call does. -/
structure Outcome where
  result : Bool
  host : Host
  script : List (MainOp Invocation)

/-! ### Starting the workers -/

/-- What the system calls of `spawn_workers` return: whether `pthread_attr_init`,
`pthread_attr_setstacksize` and `pthread_create` for each worker succeed. -/
structure SpawnOutcome where
  attrInit : Bool
  setStackSize : Bool
  creates : ℕ → Bool

/-- The loop of `pthread_create` from worker `i` on; returns `threads_started`. -/
def startThreads (creates : ℕ → Bool) : ℕ → ℕ → ℕ
  | i, 0 => i
  | i, remaining + 1 => if creates i then startThreads creates (i + 1) remaining else i

/-- `spawn_workers` -/
def spawnWorkers (context : Context) (spawn : SpawnOutcome) :
    Bool × Context × List (MainOp Invocation) :=
  if spawn.attrInit = false then (false, context, [])
  else if spawn.setStackSize = false then (false, context, [])
  else
    let threadsStarted := startThreads spawn.creates 0 context.threadCount
    if threadsStarted < context.threadCount then
      (false, context, createScript threadsStarted ++ stopScript threadsStarted)
    else (true, { context with workersSpawned := true }, createScript context.threadCount)

/-- `bc_concurrency_ensure_workers_spawned` -/
def ensureWorkersSpawned (context : Context) (spawn : SpawnOutcome) :
    Bool × Context × List (MainOp Invocation) :=
  if context.workersSpawned then (true, context, []) else spawnWorkers context spawn

/-! ### Submitting -/

/-- `bc_concurrency_submit` -/
def submit (host : Host) (taskFunction taskArgument : ℕ) : Outcome :=
  let (result, staging, memory) :=
    host.context.staging.push host.memory (.task taskFunction taskArgument)
  ⟨result, ⟨{ host.context with staging := staging }, memory⟩, []⟩

/-- The loop of `bc_concurrency_submit_batch`. -/
def pushAll (taskFunction : ℕ) : List ℕ → Staging → Memory → Bool × Staging × Memory
  | [], staging, memory => (true, staging, memory)
  | taskArgument :: taskArguments, staging, memory =>
      match staging.push memory (.task taskFunction taskArgument) with
      | (false, staging, memory) => (false, staging, memory)
      | (true, staging, memory) => pushAll taskFunction taskArguments staging memory

/-- `bc_concurrency_submit_batch` -/
def submitBatch (host : Host) (taskFunction : ℕ) (taskArguments : List ℕ) : Outcome :=
  if taskArguments.length = 0 then ⟨false, host, []⟩
  else
    let (result, staging, memory) :=
      pushAll taskFunction taskArguments host.context.staging host.memory
    ⟨result, ⟨{ host.context with staging := staging }, memory⟩, []⟩

lemma submitBatch_script (host : Host) (taskFunction : ℕ) (taskArguments : List ℕ) :
    (submitBatch host taskFunction taskArguments).script = [] := by
  rw [submitBatch]
  split <;> rfl

/-! ### Dispatching the staged tasks -/

/-- The loop that doubles `new_cap`, for at most `fuel` turns. -/
def growCapacity (stagingCount : ℕ) : ℕ → ℕ → ℕ
  | 0, newCap => newCap
  | fuel + 1, newCap =>
      if newCap < stagingCount then growCapacity stagingCount fuel (word (newCap * 2)) else newCap

/-- Make room for the staged tasks in `dispatch_tasks`. -/
def growDispatchTasks (context : Context) (memory : Memory) (stagingCount : ℕ) :
    Bool × Context × Memory :=
  if stagingCount > context.dispatchCapacity then
    let newCap := growCapacity stagingCount stagingCount context.dispatchCapacity
    let newSize := word (newCap * taskEntryBytes)
    match memory.allocate newSize with
    | (none, memory) => (false, context, memory)
    | (some newTasks, memory) =>
        (true,
          { context with
            dispatchTasks := ⟨newTasks, newSize / taskEntryBytes, []⟩
            dispatchCapacity := newCap },
          memory.free context.dispatchTasks.block)
  else (true, context, memory)

/-- Copy the staged tasks; what the block has no room for is not copied. -/
def DispatchBuffer.copy (buffer : DispatchBuffer) (entries : List TaskEntry) : DispatchBuffer :=
  { buffer with cells := (entries ++ buffer.cells.drop entries.length).take buffer.room }

/-- The invocations of a part of the buffer. -/
def workOf (cells : List TaskEntry) (part : ℕ × ℕ) : List Invocation :=
  (EvenSplit.slice cells part).flatMap TaskEntry.invocations

/-- The main thread runs its part, if there is any. -/
def mainPart (threadCount : ℕ) (cells : List TaskEntry) (part : ℕ × ℕ) :
    List (MainOp Invocation) :=
  if part.2 > 0 then mainShare threadCount (workOf cells part) else []

/-- The workers for which `assignments[i].count` is not zero. -/
def assigned (n threadCount : ℕ) : List ℕ :=
  (List.range threadCount).filter fun i => (EvenSplit.part n (threadCount + 1) i).2 > 0

lemma nodup_assigned (n threadCount : ℕ) : (assigned n threadCount).Nodup :=
  List.nodup_range.filter _

lemma lt_of_mem_assigned {n threadCount i : ℕ} (hi : i ∈ assigned n threadCount) :
    i < threadCount := List.mem_range.mp (List.mem_of_mem_filter hi)

lemma isLocal_mainPart {threadCount : ℕ} {cells : List TaskEntry} {part : ℕ × ℕ}
    {op : MainOp Invocation} (hop : op ∈ mainPart threadCount cells part) : op.isLocal = true := by
  rw [mainPart] at hop
  split at hop
  · exact isLocal_of_mem_mainShare hop
  · simp at hop

/-- The dispatches, the part of the main thread and the waits for `n` entries. -/
def dispatchRound (n threadCount : ℕ) (cells : List TaskEntry) : Round Invocation threadCount where
  assignments := (assigned n threadCount).map fun i =>
    (i, workOf cells (EvenSplit.part n (threadCount + 1) i))
  mainOps := mainPart threadCount cells (EvenSplit.part n (threadCount + 1) threadCount)
  waits := assigned n threadCount
  nodup := by simpa [Function.comp_def] using nodup_assigned n threadCount
  lt := by
    intro i hi
    refine lt_of_mem_assigned (n := n) ?_
    simpa [Function.comp_def] using hi
  perm := by simp [Function.comp_def]
  isLocal := fun _ => isLocal_mainPart

/-- `bc_concurrency_dispatch_and_wait` -/
def dispatchAndWait (host : Host) (spawn : SpawnOutcome) : Outcome :=
  let staged := host.context.staging.data
  let stagingCount := staged.length
  let threadCount := host.context.threadCount
  if stagingCount = 0 then ⟨true, host, []⟩
  else if threadCount = 0 ∨ stagingCount = 1 then
    ⟨true, { host with context := { host.context with staging := host.context.staging.clear } },
      mainShare threadCount (staged.flatMap TaskEntry.invocations)⟩
  else match ensureWorkersSpawned host.context spawn with
  | (false, context, script) => ⟨false, ⟨context, host.memory⟩, script⟩
  | (true, context, script) =>
      match growDispatchTasks context host.memory stagingCount with
      | (false, context, memory) => ⟨false, ⟨context, memory⟩, script⟩
      | (true, context, memory) =>
          let buffer := context.dispatchTasks.copy staged
          ⟨true,
            ⟨{ context with dispatchTasks := buffer, staging := context.staging.clear }, memory⟩,
            script ++ (dispatchRound stagingCount threadCount buffer.cells).script⟩

/-! ### The parallel loop -/

/-- The arguments of `bc_concurrency_for`. -/
structure ForRange where
  startIndex : ℕ
  endIndex : ℕ
  stepSize : ℕ
  iterationFunction : ℕ
  userArgument : ℕ
  startIndex_lt : startIndex < 2 ^ 64
  endIndex_lt : endIndex < 2 ^ 64
  stepSize_lt : stepSize < 2 ^ 64

namespace ForRange

variable (range : ForRange)

/-- `total_iterations` -/
def totalIterations : ℕ :=
  word (1 + (range.endIndex - range.startIndex - 1) / range.stepSize)

/-- The loop of the main thread over the first `count` iterations. -/
def iterations (count : ℕ) : List Invocation :=
  (List.range count).map fun i =>
    .iteration range.iterationFunction (word (range.startIndex + i * range.stepSize))
      range.userArgument

/-- `main_count` -/
def mainCount (total numChunks : ℕ) : ℕ :=
  word (total / numChunks + if 0 < total % numChunks then 1 else 0)

/-- The loop that fills the chunks of the workers from `i` on. -/
def chunks (total numChunks : ℕ) : ℕ → ℕ → ℕ → List ForChunk
  | _, 0, _ => []
  | i, remaining + 1, currentOffset =>
      let count := word (total / numChunks + if i + 1 < total % numChunks then 1 else 0)
      { iterationFunction := range.iterationFunction
        userArgument := range.userArgument
        startIterationIndex := word (range.startIndex + word (currentOffset * range.stepSize))
        iterationCount := count
        stepSize := range.stepSize } ::
        chunks total numChunks (i + 1) remaining (word (currentOffset + count))

/-- The chunks of all workers. -/
def workerChunks (threadCount : ℕ) : List ForChunk :=
  range.chunks range.totalIterations (threadCount + 1) 0 threadCount
    (mainCount range.totalIterations (threadCount + 1))

lemma length_chunks (total numChunks i remaining currentOffset : ℕ) :
    (range.chunks total numChunks i remaining currentOffset).length = remaining := by
  induction remaining generalizing i currentOffset with
  | zero => rfl
  | succ remaining ih => simp [chunks, ih]

lemma length_workerChunks (threadCount : ℕ) : (range.workerChunks threadCount).length = threadCount :=
  range.length_chunks ..

/-- The work of each worker, one entry that runs its chunk. -/
def assignments (threadCount : ℕ) : List (ℕ × List Invocation) :=
  (range.workerChunks threadCount).zipIdx.map fun (chunk, i) =>
    (i, (TaskEntry.chunkRunner chunk).invocations)

lemma map_fst_assignments (threadCount : ℕ) :
    (range.assignments threadCount).map Prod.fst = List.range threadCount := by
  have hsnd : (Prod.fst ∘ fun x : ForChunk × ℕ => (x.2, (TaskEntry.chunkRunner x.1).invocations)) =
      Prod.snd := rfl
  rw [assignments, List.map_map, hsnd, List.zipIdx_map_snd, range.length_workerChunks,
    ← List.range_eq_range']

/-- The dispatches, the part of the main thread and the waits of the parallel loop. -/
def round (threadCount : ℕ) : Round Invocation threadCount where
  assignments := range.assignments threadCount
  mainOps := mainShare threadCount
    (range.iterations (mainCount range.totalIterations (threadCount + 1)))
  waits := List.range threadCount
  nodup := by
    rw [range.map_fst_assignments]
    exact List.nodup_range
  lt := by
    rw [range.map_fst_assignments]
    exact fun i hi => List.mem_range.mp hi
  perm := by rw [range.map_fst_assignments]
  isLocal := fun _ => isLocal_of_mem_mainShare

end ForRange

/-- `bc_concurrency_for` -/
def parallelFor (host : Host) (range : ForRange) (spawn : SpawnOutcome) : Outcome :=
  let threadCount := host.context.threadCount
  if range.stepSize = 0 then ⟨false, host, []⟩
  else if range.startIndex ≥ range.endIndex then ⟨true, host, []⟩
  else if threadCount = 0 ∨ range.totalIterations ≤ threadCount then
    ⟨true, host, mainShare threadCount (range.iterations range.totalIterations)⟩
  else match ensureWorkersSpawned host.context spawn with
  | (false, context, script) => ⟨false, ⟨context, host.memory⟩, script⟩
  | (true, context, script) =>
      let chunksSize := word (threadCount * forChunkBytes)
      let entriesSize := word (threadCount * taskEntryBytes)
      let assignmentsSize := word (threadCount * workBytes)
      match host.memory.allocate (word (chunksSize + entriesSize + assignmentsSize)) with
      | (none, memory) => ⟨false, ⟨context, memory⟩, script⟩
      | (some alloc, memory) =>
          -- the block is freed after the waits
          ⟨true, ⟨context, memory.free alloc⟩, script ++ (range.round threadCount).script⟩

/-! ### Calls -/

/-- A call of the library by the main thread, with what the system does in it. -/
inductive Call
  | registerSlot (config : SlotConfig)
  | submit (taskFunction taskArgument : ℕ)
  | submitBatch (taskFunction : ℕ) (taskArguments : List ℕ)
  | dispatchAndWait (spawn : SpawnOutcome)
  | parallelFor (range : ForRange) (spawn : SpawnOutcome)

/-- What a call does. -/
def Call.run (host : Host) : Call → Outcome
  | .registerSlot config =>
      let (slot, context, memory) := Pool.registerSlot host.context host.memory config
      ⟨slot.isSome, ⟨context, memory⟩, []⟩
  | .submit taskFunction taskArgument => Pool.submit host taskFunction taskArgument
  | .submitBatch taskFunction taskArguments => Pool.submitBatch host taskFunction taskArguments
  | .dispatchAndWait spawn => Pool.dispatchAndWait host spawn
  | .parallelFor range spawn => Pool.parallelFor host range spawn

/-- The context and the pool after a list of calls. -/
def Host.after (host : Host) (calls : List Call) : Host :=
  calls.foldl (fun host call => (call.run host).host) host

lemma Host.after_append (host : Host) (calls calls' : List Call) :
    host.after (calls ++ calls') = (host.after calls).after calls' := List.foldl_append ..

/-! ### What a call can do -/

section Spawn

variable {spawn : SpawnOutcome} {t : ℕ}

/-- How many threads `spawn_workers` starts. -/
def SpawnOutcome.started (spawn : SpawnOutcome) (t : ℕ) : ℕ :=
  if spawn.attrInit && spawn.setStackSize then startThreads spawn.creates 0 t else 0

lemma startThreads_le (creates : ℕ → Bool) (i n : ℕ) : startThreads creates i n ≤ i + n := by
  induction n generalizing i with
  | zero => exact le_rfl
  | succ n ih =>
    rw [startThreads]
    split
    · exact (ih (i + 1)).trans (by omega)
    · omega

lemma SpawnOutcome.started_le (spawn : SpawnOutcome) (t : ℕ) : spawn.started t ≤ t := by
  rw [started]
  split
  · simpa using startThreads_le spawn.creates 0 t
  · exact Nat.zero_le t

/-- The threads that were started are stopped again unless all of them were. -/
lemma spawnWorkers_eq (context : Context) (spawn : SpawnOutcome) (ht : 0 < context.threadCount) :
    spawnWorkers context spawn =
      if spawn.started context.threadCount < context.threadCount then
        (false, context, createScript (spawn.started context.threadCount) ++
          stopScript (spawn.started context.threadCount))
      else (true, { context with workersSpawned := true }, createScript context.threadCount) := by
  rcases hinit : spawn.attrInit with _ | _
  · simp [spawnWorkers, SpawnOutcome.started, hinit, ht, createScript, stopScript]
  rcases hstack : spawn.setStackSize with _ | _
  · simp [spawnWorkers, SpawnOutcome.started, hinit, hstack, ht, createScript, stopScript]
  · simp [spawnWorkers, SpawnOutcome.started, hinit, hstack]

/-- How the script of a call begins that has all workers running. -/
inductive Start (spawn : SpawnOutcome) (t : ℕ) : Bool → List (MainOp Invocation) → Prop
  | spawned : Start spawn t true []
  | fresh (hstarted : spawn.started t = t) : Start spawn t false (createScript t)

namespace Start

variable {spawned : Bool} {start : List (MainOp Invocation)}

lemma filterMap_task (hstart : Start spawn t spawned start) :
    start.filterMap MainOp.task = [] := by
  cases hstart with
  | spawned => rfl
  | fresh => simp

lemma filterMap_dispatchTo (hstart : Start spawn t spawned start) (i : ℕ) :
    start.filterMap (MainOp.dispatchTo i) = [] := by
  cases hstart with
  | spawned => rfl
  | fresh => simp

end Start

/-- Either all workers run, or the call fails and no worker was or is spawned. -/
lemma ensureWorkersSpawned_cases (context : Context) (spawn : SpawnOutcome)
    (ht : 0 < context.threadCount) :
    (∃ start, Start spawn context.threadCount context.workersSpawned start ∧
        ensureWorkersSpawned context spawn = (true, { context with workersSpawned := true }, start)) ∨
      (context.workersSpawned = false ∧ spawn.started context.threadCount < context.threadCount ∧
        ensureWorkersSpawned context spawn = (false, context,
          createScript (spawn.started context.threadCount) ++
            stopScript (spawn.started context.threadCount))) := by
  rw [ensureWorkersSpawned, spawnWorkers_eq context spawn ht]
  rcases hspawned : context.workersSpawned with _ | _
  · by_cases hstarted : spawn.started context.threadCount < context.threadCount
    · exact Or.inr ⟨rfl, hstarted, by simp [hstarted]⟩
    · have heq := (spawn.started_le context.threadCount).antisymm (not_lt.mp hstarted)
      exact Or.inl ⟨_, .fresh heq, by simp [hstarted]⟩
  · refine Or.inl ⟨[], .spawned, ?_⟩
    rw [if_pos rfl, ← hspawned]

end Spawn

/-- The outcomes of `bc_concurrency_dispatch_and_wait`. -/
inductive DispatchOutcome (host : Host) (spawn : SpawnOutcome) : Outcome → Prop
  | empty (hstaged : host.context.staging.data = []) : DispatchOutcome host spawn ⟨true, host, []⟩
  | inline (hne : host.context.staging.data ≠ [])
      (hinline : host.context.threadCount = 0 ∨ host.context.staging.data.length = 1) :
      DispatchOutcome host spawn
        ⟨true, { host with context := { host.context with staging := host.context.staging.clear } },
          mainShare host.context.threadCount
            (host.context.staging.data.flatMap TaskEntry.invocations)⟩
  | spawnFailed (ht : 0 < host.context.threadCount) (hlen : 2 ≤ host.context.staging.data.length)
      (hspawned : host.context.workersSpawned = false)
      (hstarted : spawn.started host.context.threadCount < host.context.threadCount) :
      DispatchOutcome host spawn
        ⟨false, host, createScript (spawn.started host.context.threadCount) ++
          stopScript (spawn.started host.context.threadCount)⟩
  | refused {start : List (MainOp Invocation)} {context : Context} {memory : Memory}
      (ht : 0 < host.context.threadCount) (hlen : 2 ≤ host.context.staging.data.length)
      (hstart : Start spawn host.context.threadCount host.context.workersSpawned start)
      (hgrow : growDispatchTasks { host.context with workersSpawned := true } host.memory
        host.context.staging.data.length = (false, context, memory)) :
      DispatchOutcome host spawn ⟨false, ⟨context, memory⟩, start⟩
  | round {start : List (MainOp Invocation)} {context : Context} {memory : Memory}
      (ht : 0 < host.context.threadCount) (hlen : 2 ≤ host.context.staging.data.length)
      (hstart : Start spawn host.context.threadCount host.context.workersSpawned start)
      (hgrow : growDispatchTasks { host.context with workersSpawned := true } host.memory
        host.context.staging.data.length = (true, context, memory)) :
      DispatchOutcome host spawn
        ⟨true,
          ⟨{ context with
              dispatchTasks := context.dispatchTasks.copy host.context.staging.data
              staging := context.staging.clear }, memory⟩,
          start ++ (dispatchRound host.context.staging.data.length host.context.threadCount
            (context.dispatchTasks.copy host.context.staging.data).cells).script⟩

lemma dispatchAndWait_cases (host : Host) (spawn : SpawnOutcome) :
    DispatchOutcome host spawn (dispatchAndWait host spawn) := by
  simp only [dispatchAndWait]
  by_cases hstaged : host.context.staging.data.length = 0
  · rw [if_pos hstaged]
    exact .empty (List.length_eq_zero_iff.mp hstaged)
  rw [if_neg hstaged]
  by_cases hinline : host.context.threadCount = 0 ∨ host.context.staging.data.length = 1
  · rw [if_pos hinline]
    exact .inline (fun h => hstaged (by rw [h]; rfl)) hinline
  rw [if_neg hinline]
  rw [not_or] at hinline
  have ht : 0 < host.context.threadCount := Nat.pos_of_ne_zero hinline.1
  have hlen : 2 ≤ host.context.staging.data.length := by omega
  rcases ensureWorkersSpawned_cases host.context spawn ht with
    ⟨start, hstart, heq⟩ | ⟨hspawned, hstarted, heq⟩
  · rw [heq]
    dsimp only
    rcases hgrow : growDispatchTasks { host.context with workersSpawned := true } host.memory
        host.context.staging.data.length with ⟨_ | _, context, memory⟩
    · exact .refused ht hlen hstart hgrow
    · exact .round ht hlen hstart hgrow
  · rw [heq]
    exact .spawnFailed ht hlen hspawned hstarted

/-- The size of the block of `bc_concurrency_for`. -/
def forBytes (threadCount : ℕ) : ℕ :=
  word (word (threadCount * forChunkBytes) + word (threadCount * taskEntryBytes) +
    word (threadCount * workBytes))

/-- The outcomes of `bc_concurrency_for`. -/
inductive ForOutcome (host : Host) (range : ForRange) (spawn : SpawnOutcome) : Outcome → Prop
  | zeroStep (hstep : range.stepSize = 0) : ForOutcome host range spawn ⟨false, host, []⟩
  | empty (hstep : 0 < range.stepSize) (hempty : range.endIndex ≤ range.startIndex) :
      ForOutcome host range spawn ⟨true, host, []⟩
  | inline (hstep : 0 < range.stepSize) (hlt : range.startIndex < range.endIndex)
      (hinline : host.context.threadCount = 0 ∨
        range.totalIterations ≤ host.context.threadCount) :
      ForOutcome host range spawn
        ⟨true, host, mainShare host.context.threadCount (range.iterations range.totalIterations)⟩
  | spawnFailed (hstep : 0 < range.stepSize) (hlt : range.startIndex < range.endIndex)
      (ht : 0 < host.context.threadCount)
      (htotal : host.context.threadCount < range.totalIterations)
      (hspawned : host.context.workersSpawned = false)
      (hstarted : spawn.started host.context.threadCount < host.context.threadCount) :
      ForOutcome host range spawn
        ⟨false, host, createScript (spawn.started host.context.threadCount) ++
          stopScript (spawn.started host.context.threadCount)⟩
  | refused {start : List (MainOp Invocation)} {memory : Memory}
      (hstep : 0 < range.stepSize) (hlt : range.startIndex < range.endIndex)
      (ht : 0 < host.context.threadCount)
      (htotal : host.context.threadCount < range.totalIterations)
      (hstart : Start spawn host.context.threadCount host.context.workersSpawned start)
      (halloc : host.memory.allocate (forBytes host.context.threadCount) = (none, memory)) :
      ForOutcome host range spawn
        ⟨false, ⟨{ host.context with workersSpawned := true }, memory⟩, start⟩
  | round {start : List (MainOp Invocation)} {alloc : ℕ} {memory : Memory}
      (hstep : 0 < range.stepSize) (hlt : range.startIndex < range.endIndex)
      (ht : 0 < host.context.threadCount)
      (htotal : host.context.threadCount < range.totalIterations)
      (hstart : Start spawn host.context.threadCount host.context.workersSpawned start)
      (halloc : host.memory.allocate (forBytes host.context.threadCount) = (some alloc, memory)) :
      ForOutcome host range spawn
        ⟨true, ⟨{ host.context with workersSpawned := true }, memory.free alloc⟩,
          start ++ (range.round host.context.threadCount).script⟩

lemma parallelFor_cases (host : Host) (range : ForRange) (spawn : SpawnOutcome) :
    ForOutcome host range spawn (parallelFor host range spawn) := by
  simp only [parallelFor]
  by_cases hzero : range.stepSize = 0
  · rw [if_pos hzero]
    exact .zeroStep hzero
  have hstep : 0 < range.stepSize := Nat.pos_of_ne_zero hzero
  rw [if_neg hzero]
  by_cases hempty : range.startIndex ≥ range.endIndex
  · rw [if_pos hempty]
    exact .empty hstep hempty
  have hlt : range.startIndex < range.endIndex := not_le.mp hempty
  rw [if_neg hempty]
  by_cases hinline : host.context.threadCount = 0 ∨
      range.totalIterations ≤ host.context.threadCount
  · rw [if_pos hinline]
    exact .inline hstep hlt hinline
  rw [if_neg hinline]
  rw [not_or, not_le] at hinline
  obtain ⟨hne, htotal⟩ := hinline
  have ht : 0 < host.context.threadCount := Nat.pos_of_ne_zero hne
  rcases ensureWorkersSpawned_cases host.context spawn ht with
    ⟨start, hstart, heq⟩ | ⟨hspawned, hstarted, heq⟩
  · rw [heq]
    dsimp only
    rcases halloc : host.memory.allocate (forBytes host.context.threadCount) with
      ⟨_ | alloc, memory⟩
    · rw [forBytes] at halloc
      rw [halloc]
      exact .refused hstep hlt ht htotal hstart halloc
    · rw [forBytes] at halloc
      rw [halloc]
      exact .round hstep hlt ht htotal hstart halloc
  · rw [heq]
    exact .spawnFailed hstep hlt ht htotal hspawned hstarted

end BcConcurrency.Pool
