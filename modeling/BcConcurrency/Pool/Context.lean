import BcConcurrency.Lib.Heap
import BcConcurrency.Lib.Word

/-!
# The context of the thread pool

The fields of `struct bc_concurrency_context` and of the records it points to,
with the pool blocks they live in, and `bc_concurrency_create`.  Function
pointers, arguments and blocks are numbers.  The protocol fields of a worker
(`work`, `should_stop`, `ready_flag`, `done_flag`) are not here: other threads
write them, and they belong to the handshake.
-/

namespace BcConcurrency.Pool

/-! ### Tasks -/

/-- `bc_concurrency_for_chunk_t` -/
structure ForChunk where
  iterationFunction : ℕ
  userArgument : ℕ
  startIterationIndex : ℕ
  iterationCount : ℕ
  stepSize : ℕ
deriving DecidableEq

/-- `bc_concurrency_task_entry_t`: a function of the client with its argument, or
`parallel_for_chunk_runner` with its chunk. -/
inductive TaskEntry
  | task (taskFunction taskArgument : ℕ)
  | chunkRunner (chunk : ForChunk)
deriving DecidableEq

/-- A call of a function of the client. -/
inductive Invocation
  | task (taskFunction taskArgument : ℕ)
  | iteration (iterationFunction index userArgument : ℕ)
deriving DecidableEq

/-- `parallel_for_chunk_runner` -/
def parallelForChunkRunner (chunk : ForChunk) : List Invocation :=
  (List.range chunk.iterationCount).map fun i =>
    .iteration chunk.iterationFunction (word (chunk.startIterationIndex + i * chunk.stepSize))
      chunk.userArgument

/-- The calls made by running an entry. -/
def TaskEntry.invocations : TaskEntry → List Invocation
  | .task taskFunction taskArgument => [.task taskFunction taskArgument]
  | .chunkRunner chunk => parallelForChunkRunner chunk

/-! ### Sizes -/

/-- `sizeof(bc_concurrency_task_entry_t)` -/
def taskEntryBytes : ℕ := 16

/-- `sizeof(bc_concurrency_work_t)` -/
def workBytes : ℕ := 16

/-- `sizeof(bc_concurrency_for_chunk_t)` -/
def forChunkBytes : ℕ := 40

/-- `sizeof(bc_concurrency_slot_config_t)` -/
def slotConfigBytes : ℕ := 32

/-- `sizeof(void*)` -/
def pointerBytes : ℕ := 8

/-- `sizeof(pthread_t)` -/
def threadBytes : ℕ := 8

/-- `sizeof(bc_concurrency_worker_t)`, three aligned lines. -/
def workerBytes : ℕ := 192

/-- `sizeof(bc_concurrency_context_t)`, with a typed array of three words. -/
def contextBytes : ℕ := 128

/-- `BC_CONCURRENCY_STAGING_INITIAL_CAPACITY` -/
def stagingInitialCapacity : ℕ := 1024

/-- `BC_CONCURRENCY_SLOT_INITIAL_CAPACITY` -/
def slotInitialCapacity : ℕ := 4

/-- `BC_CONCURRENCY_DEFAULT_WORKER_STACK_SIZE` -/
def defaultWorkerStackSize : ℕ := 1024 * 1024

/-- `PTHREAD_STACK_MIN` -/
def pthreadStackMin : ℕ := 16384

/-! ### The records of a context -/

/-- `bc_concurrency_slot_config_t`; `none` is a null callback. -/
structure SlotConfig where
  size : ℕ
  init : Option ℕ
  destroy : Option ℕ
  arg : ℕ
deriving DecidableEq

/-- What the library does besides allocating: the zeroing of the data of a slot,
the calls of slot callbacks, and the memory contexts and synchronisation objects
of the workers. -/
inductive PoolEvent
  | slotZeroed (config : SlotConfig) (data worker : ℕ)
  | initCalled (config : SlotConfig) (data worker : ℕ)
  | destroyCalled (config : SlotConfig) (data worker : ℕ)
  | memoryCreated (worker : ℕ)
  | memoryDestroyed (worker : ℕ)
  | syncInitialised (worker : ℕ)
  | syncDestroyed (worker : ℕ)
deriving DecidableEq

/-- The pool of the context. -/
abbrev Memory := Heap PoolEvent

/-- The array of slot pointers of a worker; `none` is a null pointer. -/
structure SlotArray where
  block : ℕ
  entries : List (Option ℕ)
deriving DecidableEq

/-- The part of `bc_concurrency_worker_t` that only the main thread writes. -/
structure Worker where
  slots : Option SlotArray
deriving DecidableEq

/-- The typed array of staged entries.  Which pushes need a larger block is left
open. -/
structure Staging where
  block : ℕ
  data : List TaskEntry
  /-- Whether the push of this number has to move to a larger block. -/
  grows : ℕ → Bool
  pushes : ℕ

/-- The block of `dispatch_tasks`, the number of entries it has room for, and the
entries written to it so far. -/
structure DispatchBuffer where
  block : ℕ
  room : ℕ
  cells : List TaskEntry

/-- The block of `slot_configs` with the configurations written to it. -/
structure ConfigArray where
  block : ℕ
  entries : List SlotConfig

/-- `struct bc_concurrency_context` -/
structure Context where
  block : ℕ
  threads : Option ℕ
  workersBlock : ℕ
  /-- The workers `0, …, thread_count`, the last one standing for the main thread. -/
  workers : List Worker
  threadCount : ℕ
  coreOffset : ℕ
  workerStackSize : ℕ
  workersSpawned : Bool
  staging : Staging
  dispatchTasks : DispatchBuffer
  dispatchWork : ℕ
  dispatchCapacity : ℕ
  slotConfigs : Option ConfigArray
  slotCount : ℕ
  slotCapacity : ℕ

/-! ### The staging array -/

namespace Staging

/-- `bc_concurrency_staging_push`.  A push for which the array is full makes one request
for a larger block; no array reaches `2 ^ 63` bytes. -/
def push (staging : Staging) (memory : Memory) (entry : TaskEntry) : Bool × Staging × Memory :=
  let counted := { staging with pushes := staging.pushes + 1 }
  let size := taskEntryBytes * (staging.data.length + 1)
  if 2 ^ 63 ≤ size then (false, counted, memory)
  else if staging.grows staging.pushes then
    match memory.allocate size with
    | (none, memory) => (false, counted, memory)
    | (some block, memory) =>
        (true, { counted with block := block, data := staging.data ++ [entry] },
          memory.free staging.block)
  else (true, { counted with data := staging.data ++ [entry] }, memory)

/-- `bc_concurrency_staging_clear` -/
def clear (staging : Staging) : Staging := { staging with data := [] }

end Staging

/-! ### The blocks that a context refers to -/

/-- The block behind a pointer that may be null. -/
def blockOf (pointer : Option ℕ) : Multiset ℕ := pointer.elim 0 fun block => {block}

@[simp] lemma blockOf_none : blockOf none = 0 := rfl

@[simp] lemma blockOf_some (block : ℕ) : blockOf (some block) = {block} := rfl

/-- The data of the slots of an array. -/
def dataBlocks (entries : List (Option ℕ)) : Multiset ℕ := (entries.map blockOf).sum

/-- The slot array of a worker with the data it points to. -/
def Worker.blocks (worker : Worker) : Multiset ℕ :=
  worker.slots.elim 0 fun slots => {slots.block} + dataBlocks slots.entries

/-- The blocks that a context refers to, as often as it refers to them. -/
def Context.blocks (context : Context) : Multiset ℕ :=
  {context.block} + {context.staging.block} + {context.dispatchTasks.block} +
    {context.dispatchWork} + blockOf context.threads + {context.workersBlock} +
    blockOf (context.slotConfigs.map ConfigArray.block) +
    (context.workers.map Worker.blocks).sum

/-! ### Creation -/

/-- `bc_concurrency_config_t` -/
structure Config where
  coreOffset : ℕ
  workerStackSize : ℕ
  workerCountExplicit : Bool
  workerCount : ℕ

/-- Set up the workers from `i` on; `memoryGrants` says which memory contexts can be
created.  Returns the number of workers that were set up. -/
def initWorkers (memoryGrants : ℕ → Bool) : ℕ → ℕ → Memory → Bool × ℕ × Memory
  | i, 0, memory => (true, i, memory)
  | i, remaining + 1, memory =>
      let memory := memory.note (.syncInitialised i)
      if memoryGrants i then
        initWorkers memoryGrants (i + 1) remaining (memory.note (.memoryCreated i))
      else (false, i, memory)

/-- The first `count` workers in the unwinding at `fail_workers`. -/
def unwindWorkers : ℕ → Memory → Memory
  | 0, memory => memory
  | count + 1, memory =>
      ((unwindWorkers count memory).note (.memoryDestroyed count)).note (.syncDestroyed count)

/-- `bc_concurrency_create`; `none` is the result `false`. -/
def create (memory : Memory) (physicalCoreCount : ℕ) (config : Option Config)
    (stagingGrows memoryGrants : ℕ → Bool) : Option Context × Memory :=
  let coreOffset := config.elim 0 Config.coreOffset
  let requestedStackSize := config.elim 0 Config.workerStackSize
  let workerCountExplicit := config.elim false Config.workerCountExplicit
  let explicitWorkerCount := config.elim 0 Config.workerCount
  let threadCount :=
    if workerCountExplicit then explicitWorkerCount
    else if physicalCoreCount > 1 then physicalCoreCount - 1 else 0
  let workerStackSize :=
    max (if requestedStackSize = 0 then defaultWorkerStackSize else requestedStackSize)
      pthreadStackMin
  if coreOffset ≥ physicalCoreCount then (none, memory)
  else if threadCount > 0 ∧ word (coreOffset + threadCount) ≥ physicalCoreCount then (none, memory)
  else match memory.allocate contextBytes with
  | (none, memory) => (none, memory)
  | (some block, memory) =>
  let failContext (memory : Memory) := memory.free block
  match memory.allocate (stagingInitialCapacity * taskEntryBytes) with
  | (none, memory) => (none, failContext memory)
  | (some staging, memory) =>
  let failStaging (memory : Memory) := failContext (memory.free staging)
  match memory.allocate (stagingInitialCapacity * taskEntryBytes) with
  | (none, memory) => (none, failStaging memory)
  | (some dispatchTasks, memory) =>
  let failDispatchTasks (memory : Memory) := failStaging (memory.free dispatchTasks)
  match memory.allocate (word ((threadCount + 1) * workBytes)) with
  | (none, memory) => (none, failDispatchTasks memory)
  | (some dispatchWork, memory) =>
  let failThreads (threads : Option ℕ) (memory : Memory) :=
    failDispatchTasks ((threads.elim memory memory.free).free dispatchWork)
  match (if threadCount > 0 then
      match memory.allocate (word (threadCount * threadBytes)) with
      | (none, memory) => (none, memory)
      | (some threads, memory) => (some (some threads), memory)
    else (some none, memory)) with
  | (none, memory) => (none, failThreads none memory)
  | (some threads, memory) =>
  match memory.allocate (word ((threadCount + 1) * workerBytes)) with
  | (none, memory) => (none, failThreads threads memory)
  | (some workersBlock, memory) =>
  match initWorkers memoryGrants 0 (threadCount + 1) memory with
  | (false, created, memory) =>
      (none, failThreads threads ((unwindWorkers created memory).free workersBlock))
  | (true, _, memory) =>
      (some
        { block := block
          threads := threads
          workersBlock := workersBlock
          workers := List.replicate (threadCount + 1) ⟨none⟩
          threadCount := threadCount
          coreOffset := coreOffset
          workerStackSize := workerStackSize
          workersSpawned := false
          staging := ⟨staging, [], stagingGrows, 0⟩
          dispatchTasks := ⟨dispatchTasks, stagingInitialCapacity, []⟩
          dispatchWork := dispatchWork
          dispatchCapacity := stagingInitialCapacity
          slotConfigs := none
          slotCount := 0
          slotCapacity := 0 },
        memory)

end BcConcurrency.Pool
