import BcConcurrency.Pool.Context

/-!
# Per-worker slots

`bc_concurrency_register_slot`, `bc_concurrency_foreach_slot`, the accessors
`bc_concurrency_worker_index` and `bc_concurrency_worker_slot`, and the part of
`bc_concurrency_destroy` that runs after the workers have been joined.
-/

namespace BcConcurrency.Pool

/-! ### Registration -/

/-- Make room for one more configuration; the result is `false` when the larger
array cannot be allocated. -/
def growSlotConfigs (context : Context) (memory : Memory) : Bool × Context × Memory :=
  if context.slotCount ≥ context.slotCapacity then
    let newCapacity :=
      if context.slotCapacity = 0 then slotInitialCapacity else word (context.slotCapacity * 2)
    match memory.allocate (word (newCapacity * slotConfigBytes)) with
    | (none, memory) => (false, context, memory)
    | (some block, memory) =>
        let (entries, memory) := match context.slotConfigs with
          | none => ([], memory)
          | some configs => (configs.entries.take context.slotCount, memory.free configs.block)
        (true,
          { context with slotConfigs := some ⟨block, entries⟩, slotCapacity := newCapacity },
          memory)
  else (true, context, memory)

/-- `context->slot_configs[idx] = *config` -/
def storeSlotConfig (context : Context) (idx : ℕ) (config : SlotConfig) : Context :=
  { context with
    slotConfigs := context.slotConfigs.map fun configs =>
      { configs with entries := configs.entries.take idx ++ config :: configs.entries.drop (idx + 1) } }

/-- Replace the slot array of a worker by one with room for slot `idx`.  Entries that
are not copied from the old array are not initialised; they read as null here. -/
def growSlots (idx newSlots : ℕ) (worker : Worker) (memory : Memory) : SlotArray × Memory :=
  match worker.slots with
  | none => (⟨newSlots, List.replicate idx none⟩, memory)
  | some old => (⟨newSlots, old.entries.take idx⟩, memory.free old.block)

/-- The body of the loop over the workers; the result is `false` on `goto fail_slots`. -/
def registerWorker (config : SlotConfig) (idx i : ℕ) (worker : Worker) (memory : Memory) :
    Bool × Worker × Memory :=
  match memory.allocate (word ((idx + 1) * pointerBytes)) with
  | (none, memory) => (false, worker, memory)
  | (some newSlots, memory) =>
      let (slots, memory) := growSlots idx newSlots worker memory
      match memory.allocate config.size with
      | (none, memory) => (false, ⟨some { slots with entries := slots.entries ++ [none] }⟩, memory)
      | (some data, memory) =>
          let memory := memory.note (.slotZeroed config data i)
          let memory :=
            if config.init.isSome then memory.note (.initCalled config data i) else memory
          (true, ⟨some { slots with entries := slots.entries ++ [some data] }⟩, memory)

/-- The loop over the workers from `i` on, with the number of workers completed. -/
def registerWorkers (config : SlotConfig) (idx : ℕ) :
    ℕ → List Worker → Memory → Bool × ℕ × List Worker × Memory
  | i, [], memory => (true, i, [], memory)
  | i, worker :: workers, memory =>
      match registerWorker config idx i worker memory with
      | (false, worker, memory) => (false, i, worker :: workers, memory)
      | (true, worker, memory) =>
          let (ok, completed, workers, memory) := registerWorkers config idx (i + 1) workers memory
          (ok, completed, worker :: workers, memory)

/-- Free the data of slot `idx` of a worker. -/
def rollbackWorker (idx : ℕ) (worker : Worker) (memory : Memory) : Worker × Memory :=
  match worker.slots with
  | none => (worker, memory)
  | some slots =>
      match slots.entries[idx]? with
      | some (some data) =>
          (⟨some { slots with entries := slots.entries.set idx none }⟩, memory.free data)
      | _ => (worker, memory)

/-- `fail_slots`, for the first `completed` workers. -/
def rollbackWorkers (idx : ℕ) : ℕ → List Worker → Memory → List Worker × Memory
  | 0, workers, memory => (workers, memory)
  | _ + 1, [], memory => ([], memory)
  | completed + 1, worker :: workers, memory =>
      let (worker, memory) := rollbackWorker idx worker memory
      let (workers, memory) := rollbackWorkers idx completed workers memory
      (worker :: workers, memory)

/-- `bc_concurrency_register_slot`; `none` is the result `false`. -/
def registerSlot (context : Context) (memory : Memory) (config : SlotConfig) :
    Option ℕ × Context × Memory :=
  let idx := context.slotCount
  match growSlotConfigs context memory with
  | (false, context, memory) => (none, context, memory)
  | (true, context, memory) =>
      let context := storeSlotConfig context idx config
      match registerWorkers config idx 0 context.workers memory with
      | (true, _, workers, memory) =>
          (some idx, { context with workers := workers, slotCount := idx + 1 }, memory)
      | (false, completed, workers, memory) =>
          let (workers, memory) := rollbackWorkers idx completed workers memory
          (none, { context with workers := workers }, memory)

/-! ### Access -/

/-- The pointer in slot `slotIndex` of a worker. -/
def Context.slotPointer (context : Context) (worker slotIndex : ℕ) : Option ℕ :=
  (context.workers[worker]?.bind Worker.slots).bind fun slots => (slots.entries[slotIndex]?).join

/-- The calls of the callback made by `bc_concurrency_foreach_slot`. -/
def foreachSlot (context : Context) (slotIndex : ℕ) : List (Option ℕ × ℕ) :=
  if slotIndex ≥ context.slotCount then []
  else (List.range (context.threadCount + 1)).map fun i => (context.slotPointer i slotIndex, i)

/-- `bc_concurrency_worker_index`, for a value of `tls_worker`. -/
def workerIndex (tlsWorker : Option ℕ) : ℕ := tlsWorker.getD (2 ^ 64 - 1)

/-- `bc_concurrency_worker_slot`, for a value of `tls_worker`. -/
def workerSlot (context : Context) (tlsWorker : Option ℕ) (slotIndex : ℕ) : Option ℕ :=
  match tlsWorker with
  | none => none
  | some worker =>
      if slotIndex ≥ context.slotCount then none else context.slotPointer worker slotIndex

/-! ### Destruction -/

/-- Release slot `s` of worker `i`. -/
def releaseSlot (configs : List SlotConfig) (entries : List (Option ℕ)) (i s : ℕ)
    (memory : Memory) : Memory :=
  match (entries[s]?).join with
  | none => memory
  | some data =>
      let memory := match configs[s]? with
        | none => memory
        | some config =>
            if config.destroy.isSome then memory.note (.destroyCalled config data i) else memory
      memory.free data

/-- Release the first `count` slots of worker `i`, the last one first. -/
def releaseSlots (configs : List SlotConfig) (entries : List (Option ℕ)) (i : ℕ) :
    ℕ → Memory → Memory
  | 0, memory => memory
  | s + 1, memory => releaseSlots configs entries i s (releaseSlot configs entries i s memory)

/-- Release worker `i`. -/
def releaseWorker (configs : List SlotConfig) (slotCount i : ℕ) (worker : Worker)
    (memory : Memory) : Memory :=
  let memory := match worker.slots with
    | none => memory
    | some slots => (releaseSlots configs slots.entries i slotCount memory).free slots.block
  (memory.note (.syncDestroyed i)).note (.memoryDestroyed i)

/-- Release the workers from `i` on. -/
def releaseWorkers (configs : List SlotConfig) (slotCount : ℕ) : ℕ → List Worker → Memory → Memory
  | _, [], memory => memory
  | i, worker :: workers, memory =>
      releaseWorkers configs slotCount (i + 1) workers
        (releaseWorker configs slotCount i worker memory)

/-- `bc_concurrency_destroy` after the workers have been joined. -/
def destroy (context : Context) (memory : Memory) : Memory :=
  let configs := context.slotConfigs.elim [] ConfigArray.entries
  let memory := releaseWorkers configs context.slotCount 0 context.workers memory
  let memory := (context.slotConfigs.map ConfigArray.block).elim memory memory.free
  let memory := memory.free context.staging.block
  let memory := memory.free context.dispatchTasks.block
  let memory := memory.free context.dispatchWork
  let memory := context.threads.elim memory memory.free
  (memory.free context.workersBlock).free context.block

end BcConcurrency.Pool
