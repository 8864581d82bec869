import BcConcurrency.Lib.Objects
import BcConcurrency.Pool.HappensBefore

/-!
# The handshake over shared memory

In the handshake a dispatch hands a list of calls to a worker.  In the source it hands
a pointer: to an element of `dispatch_work`, or of the `assignments` that
`bc_concurrency_for` lays out in a block of its own, which points to entries in another
array, which may point to chunks.  The worker follows these pointers while it works, and
the main thread goes on with its own share; nothing is locked meanwhile.

Here is the machine that does so, with the stores and the lifetimes of the blocks as
steps of the main thread and the reads as steps of the workers, and the scripts of the
calls in its terms.  A read where no object is, or a store out of bounds, is a fault.
-/

namespace BcConcurrency.Pool

/-! ### The shared records -/

/-- `bc_concurrency_task_entry_t` in memory: a function of the client with its argument,
or `parallel_for_chunk_runner` with a pointer to its chunk. -/
inductive StoredEntry
  | task (taskFunction taskArgument : ℕ)
  | chunkRunner (chunk : Pointer)
deriving DecidableEq

/-- The records that the workers read. -/
inductive SharedObject
  | chunk (chunk : ForChunk)
  | entry (entry : StoredEntry)
  /-- `bc_concurrency_work_t` -/
  | work (tasks : Pointer) (count : ℕ)
deriving DecidableEq

/-- The size of a record. -/
def SharedObject.bytes : SharedObject → ℕ
  | .chunk _ => forChunkBytes
  | .entry _ => taskEntryBytes
  | .work _ _ => workBytes

lemma SharedObject.bytes_pos (object : SharedObject) : 0 < object.bytes := by
  cases object <;> simp [bytes, forChunkBytes, taskEntryBytes, workBytes]

/-- The memory that the threads share. -/
abbrev Store := Objects SharedObject

namespace Store

/-- The entry at an address, with the chunk that it points to. -/
def entryAt (store : Store) (p : Pointer) : Option TaskEntry :=
  match store.read p with
  | some (.entry (.task taskFunction taskArgument)) => some (.task taskFunction taskArgument)
  | some (.entry (.chunkRunner chunk)) =>
      match store.read chunk with
      | some (.chunk chunk) => some (.chunkRunner chunk)
      | _ => none
  | _ => none

/-- The entries of an array, from `i` on. -/
def entriesAt (store : Store) (tasks : Pointer) : ℕ → ℕ → Option (List TaskEntry)
  | _, 0 => some []
  | i, count + 1 => do
      let entry ← store.entryAt (tasks.add (i * taskEntryBytes))
      let entries ← store.entriesAt tasks (i + 1) count
      return entry :: entries

/-- The entries that a work pointer leads to. -/
def workAt (store : Store) (work : Pointer) : Option (List TaskEntry) :=
  match store.read work with
  | some (.work tasks count) => store.entriesAt tasks 0 count
  | _ => none

/-- The calls that a work pointer leads to.  Only histories speak of them. -/
def callsAt (store : Store) (work : Pointer) : List Invocation :=
  ((store.workAt work).getD []).flatMap TaskEntry.invocations

end Store

/-! ### The machine -/

/-- What the main thread does, with its stores. -/
inductive SharedOp
  | create (worker : ℕ)
  /-- `bc_concurrency_dispatch_to_worker` -/
  | dispatch (worker : ℕ) (work : Pointer)
  | setTls (worker : Option ℕ)
  /-- A call whose function and argument the main thread has at hand. -/
  | run (task : Invocation)
  /-- A call of the function in an entry with the argument in it. -/
  | runEntry (entry : Pointer)
  | wait (worker : ℕ)
  | stop (worker : ℕ)
  | join (worker : ℕ)
  | allocate (block size : ℕ)
  | free (block : ℕ)
  | write (pointer : Pointer) (object : SharedObject)

/-- Where a worker is between two calls. -/
inductive Frame
  /-- Before the test `i < work->count`. -/
  | test (work : Pointer) (i : ℕ)
  /-- Before the call through `work->tasks[i]`. -/
  | call (work : Pointer) (i : ℕ)
  /-- In `parallel_for_chunk_runner`, before it copies the fields of its chunk. -/
  | runner (work : Pointer) (i : ℕ) (chunk : Pointer)
  /-- Before the test `k < count` of `parallel_for_chunk_runner`. -/
  | iterate (work : Pointer) (i : ℕ) (chunk : ForChunk) (k : ℕ)

/-- Where the thread of a worker is in `worker_thread_routine`. -/
inductive SharedPc
  | absent
  | test
  | asleep
  | running (frame : Frame)
  /-- In a call, and where the worker goes on after it. -/
  | inTask (task : Invocation) (frame : Frame)
  /-- Behind the loop over the tasks, before the section that reports. -/
  | done
  | exited
  | crashed
  | faulted

/-- The protocol fields of `bc_concurrency_worker_t` and its thread. -/
structure SharedWorker where
  work : Option Pointer
  shouldStop : Bool
  readyFlag : Bool
  doneFlag : Bool
  pc : SharedPc

/-- A worker as `bc_concurrency_create` leaves it. -/
def SharedWorker.init : SharedWorker := ⟨none, false, false, false, .absent⟩

/-- The main thread, the workers and the memory they share. -/
structure SharedState where
  script : List SharedOp
  tls : Option ℕ
  /-- The call that the main thread is in. -/
  inTask : Option Invocation
  asleep : Bool
  workers : ℕ → SharedWorker
  store : Store

/-- What a step leaves in the history. -/
inductive SharedEvent
  /-- A step that the handshake has as well. -/
  | seen (event : Event Invocation)
  /-- A worker reads, or goes on. -/
  | silent (worker : ℕ)
  | allocated (block : ℕ)
  | freed (block : ℕ)
  | written (pointer : Pointer)
  | fault (thread : Thread)

/-- What of a step the handshake has. -/
def SharedEvent.observe : SharedEvent → Option (Event Invocation)
  | .seen event => some event
  | _ => none

/-- The effect of a signal on the thread of a worker. -/
def SharedPc.signal : SharedPc → SharedPc
  | .asleep => .test
  | pc => pc

/-- The routine has returned. -/
def SharedPc.isExited : SharedPc → Bool
  | .exited => true
  | _ => false

/-- The thread sleeps on `ready_cond`. -/
def SharedPc.isAsleep : SharedPc → Bool
  | .asleep => true
  | _ => false

/-- The call of iteration `k` of a chunk. -/
def iterationOf (chunk : ForChunk) (k : ℕ) : Invocation :=
  .iteration chunk.iterationFunction (word (chunk.startIterationIndex + k * chunk.stepSize))
    chunk.userArgument

/-- One step of worker `i` between two calls. -/
def Frame.step (store : Store) (i : ℕ) : Frame → SharedEvent × SharedPc
  | .test work k =>
      match store.read work with
      | some (.work _ count) => (.silent i, if k < count then .running (.call work k) else .done)
      | _ => (.fault (.worker i), .faulted)
  | .call work k =>
      match store.read work with
      | some (.work tasks _) =>
          match store.read (tasks.add (k * taskEntryBytes)) with
          | some (.entry (.task taskFunction taskArgument)) =>
              (.seen (.started (.worker i) (some i) (.task taskFunction taskArgument)),
                .inTask (.task taskFunction taskArgument) (.test work (k + 1)))
          | some (.entry (.chunkRunner chunk)) => (.silent i, .running (.runner work k chunk))
          | _ => (.fault (.worker i), .faulted)
      | _ => (.fault (.worker i), .faulted)
  | .runner work k chunk =>
      match store.read chunk with
      | some (.chunk chunk) => (.silent i, .running (.iterate work k chunk 0))
      | _ => (.fault (.worker i), .faulted)
  | .iterate work k chunk j =>
      if j < chunk.iterationCount then
        (.seen (.started (.worker i) (some i) (iterationOf chunk j)),
          .inTask (iterationOf chunk j) (.iterate work k chunk (j + 1)))
      else (.silent i, .running (.test work (k + 1)))

namespace SharedWorker

/-- The section of `bc_concurrency_dispatch_to_worker`. -/
def dispatch (w : SharedWorker) (work : Pointer) : SharedWorker :=
  { w with work := some work, doneFlag := false, readyFlag := true, pc := w.pc.signal }

/-- The section that asks a worker to stop. -/
def stop (w : SharedWorker) : SharedWorker := { w with shouldStop := true, pc := w.pc.signal }

/-- One step of `worker_thread_routine` of worker `i`. -/
def step (store : Store) (i : ℕ) (w : SharedWorker) : Option (SharedEvent × SharedWorker) :=
  match w.pc with
  | .test =>
      if w.readyFlag = false ∧ w.shouldStop = false then
        some (.seen (.slept (.worker i)), { w with pc := .asleep })
      else if w.shouldStop then some (.seen (.exited i), { w with pc := .exited })
      else match w.work with
        | none =>
            some (.seen (.crashed i), { w with readyFlag := false, work := none, pc := .crashed })
        | some work =>
            some (.seen (.took i (store.callsAt work)),
              { w with readyFlag := false, work := none, pc := .running (.test work 0) })
  | .running frame => some ((frame.step store i).1, { w with pc := (frame.step store i).2 })
  | .inTask task frame =>
      some (.seen (.finished (.worker i) (some i) task), { w with pc := .running frame })
  | .done => some (.seen (.reported i), { w with doneFlag := true, pc := .test })
  | .absent | .asleep | .exited | .crashed | .faulted => none

end SharedWorker

namespace SharedState

/-- Change the state of a worker. -/
@[simps] def setWorker (s : SharedState) (i : ℕ) (w : SharedWorker) : SharedState :=
  { s with workers := Function.update s.workers i w }

/-- The signal of `done_cond` by worker `i`. -/
def signalDone (s : SharedState) (i : ℕ) : SharedState :=
  match s.script with
  | .wait j :: _ => if j = i then { s with asleep := false } else s
  | _ => s

/-- One step of a call on the main thread. -/
def runStep (s : SharedState) (task : Invocation) (rest : List SharedOp) :
    SharedEvent × SharedState :=
  match s.inTask with
  | some task => (.seen (.finished .main s.tls task), { s with script := rest, inTask := none })
  | none => (.seen (.started .main s.tls task), { s with inTask := some task })

/-- One step of the main thread. -/
def mainStep (s : SharedState) : Option (SharedEvent × SharedState) :=
  if s.asleep then none
  else match s.script with
  | [] => none
  | .create i :: rest =>
      some (.seen (.created i),
        { s with script := rest }.setWorker i { s.workers i with pc := .test })
  | .dispatch i work :: rest =>
      some (.seen (.dispatched i (s.store.callsAt work)),
        { s with script := rest }.setWorker i ((s.workers i).dispatch work))
  | .setTls worker :: rest =>
      some (.seen (.tlsSet worker), { s with script := rest, tls := worker })
  | .run task :: rest => some (s.runStep task rest)
  | .runEntry entry :: rest =>
      match s.store.read entry with
      | some (.entry (.task taskFunction taskArgument)) =>
          some (s.runStep (.task taskFunction taskArgument) rest)
      -- the runner of chunks is no function of the client
      | _ => some (.fault .main, { s with script := rest })
  | .wait i :: rest =>
      if (s.workers i).doneFlag then some (.seen (.waitReturned i), { s with script := rest })
      else some (.seen (.slept .main), { s with asleep := true })
  | .stop i :: rest =>
      some (.seen (.stopped i), { s with script := rest }.setWorker i (s.workers i).stop)
  | .join i :: rest =>
      if (s.workers i).pc.isExited then
        some (.seen (.joined i),
          { s with script := rest }.setWorker i { s.workers i with pc := .absent })
      else none
  | .allocate block size :: rest =>
      some (.allocated block, { s with script := rest, store := s.store.allocate block size })
  | .free block :: rest =>
      if (s.store.size block).isSome then
        some (.freed block, { s with script := rest, store := s.store.free block })
      else some (.fault .main, { s with script := rest })
  | .write pointer object :: rest =>
      match s.store.write SharedObject.bytes pointer object with
      | some store => some (.written pointer, { s with script := rest, store := store })
      | none => some (.fault .main, { s with script := rest })

/-- One step of the thread of worker `i`; when it reports, it signals `done_cond`. -/
def workerStep (s : SharedState) (i : ℕ) : Option (SharedEvent × SharedState) :=
  ((s.workers i).step s.store i).map fun (event, w) =>
    (event, (match event with | .seen (.reported _) => s.signalDone i | _ => s).setWorker i w)

end SharedState

/-- The handshake over shared memory. -/
def sharedHandshake : Machine SharedState Move SharedEvent where
  step := fun s move => match move with
    | .run .main => s.mainStep
    | .run (.worker i) => s.workerStep i
    | .wake .main =>
        if s.asleep then some (.seen (.woken .main), { s with asleep := false }) else none
    | .wake (.worker i) =>
        if (s.workers i).pc.isAsleep then
          some (.seen (.woken (.worker i)), s.setWorker i { s.workers i with pc := .test })
        else none

/-! ### The calls in these terms -/

/-- An operation that hands out no work. -/
def SharedOp.ofMainOp : MainOp Invocation → List SharedOp
  | .create i => [.create i]
  | .setTls worker => [.setTls worker]
  | .run task => [.run task]
  | .wait i => [.wait i]
  | .stop i => [.stop i]
  | .join i => [.join i]
  | .dispatch _ _ => []

/-- A script that hands out no work. -/
def sharedScript (script : List (MainOp Invocation)) : List SharedOp :=
  script.flatMap SharedOp.ofMainOp

/-- A staged entry in memory.  The client cannot name the runner of chunks. -/
def TaskEntry.stored : TaskEntry → Option StoredEntry
  | .task taskFunction taskArgument => some (.task taskFunction taskArgument)
  | .chunkRunner _ => none

/-- Make room for the staged tasks in `dispatch_tasks`. -/
def growOps (context : Context) (memory : Memory) (stagingCount : ℕ) : List SharedOp :=
  if stagingCount > context.dispatchCapacity then
    let newCap := growCapacity stagingCount stagingCount context.dispatchCapacity
    let newSize := word (newCap * taskEntryBytes)
    match memory.allocate newSize with
    | (none, _) => []
    | (some newTasks, _) => [.allocate newTasks newSize, .free context.dispatchTasks.block]
  else []

/-- The copy of the staged entries to `task_array`. -/
def entryWrites (taskArray : Pointer) (staged : List TaskEntry) : List (Pointer × SharedObject) :=
  (staged.filterMap TaskEntry.stored).zipIdx.map fun (entry, i) =>
    (taskArray.add (i * taskEntryBytes), .entry entry)

/-- `&assignments[i]` in `bc_concurrency_dispatch_and_wait`. -/
def assignmentAt (dispatchWork i : ℕ) : Pointer := ⟨dispatchWork, i * workBytes⟩

/-- The loop that fills `assignments`. -/
def assignmentWrites (taskArray : Pointer) (dispatchWork n threadCount : ℕ) :
    List (Pointer × SharedObject) :=
  (List.range (threadCount + 1)).map fun i =>
    let part := EvenSplit.part n (threadCount + 1) i
    (assignmentAt dispatchWork i, .work (taskArray.add (part.1 * taskEntryBytes)) part.2)

/-- The stores of a list. -/
def writeOps (writes : List (Pointer × SharedObject)) : List SharedOp :=
  writes.map fun w => .write w.1 w.2

/-- The main thread runs its part of `task_array`. -/
def mainPartOps (threadCount : ℕ) (taskArray : Pointer) (part : ℕ × ℕ) : List SharedOp :=
  if part.2 > 0 then
    .setTls (some threadCount) ::
      (List.range part.2).map (fun k => .runEntry (taskArray.add ((part.1 + k) * taskEntryBytes))) ++
      [.setTls none]
  else []

/-- The stores, the dispatches, the part of the main thread and the waits for the staged
entries. -/
def dispatchRoundOps (taskArray : Pointer) (dispatchWork threadCount : ℕ)
    (staged : List TaskEntry) : List SharedOp :=
  let n := staged.length
  writeOps (entryWrites taskArray staged) ++
    writeOps (assignmentWrites taskArray dispatchWork n threadCount) ++
    (assigned n threadCount).map (fun i => .dispatch i (assignmentAt dispatchWork i)) ++
    mainPartOps threadCount taskArray (EvenSplit.part n (threadCount + 1) threadCount) ++
    (assigned n threadCount).map .wait

/-- `bc_concurrency_dispatch_and_wait` -/
def dispatchAndWaitOps (host : Host) (spawn : SpawnOutcome) : List SharedOp :=
  let staged := host.context.staging.data
  let threadCount := host.context.threadCount
  if staged.length = 0 then []
  else if threadCount = 0 ∨ staged.length = 1 then
    sharedScript (mainShare threadCount (staged.flatMap TaskEntry.invocations))
  else match ensureWorkersSpawned host.context spawn with
  | (false, _, script) => sharedScript script
  | (true, context, script) =>
      match growDispatchTasks context host.memory staged.length with
      | (false, _, _) => sharedScript script
      | (true, context', _) =>
          sharedScript script ++ growOps context host.memory staged.length ++
            dispatchRoundOps ⟨context'.dispatchTasks.block, 0⟩ context'.dispatchWork threadCount
              staged

/-- `&chunks[i]` in the block of `bc_concurrency_for`. -/
def chunkAt (alloc i : ℕ) : Pointer := ⟨alloc, i * forChunkBytes⟩

/-- `&entries[i]`, behind the chunks. -/
def chunkEntryAt (alloc threadCount i : ℕ) : Pointer :=
  ⟨alloc, word (threadCount * forChunkBytes) + i * taskEntryBytes⟩

/-- `&assignments[i]`, behind the chunks and the entries. -/
def chunkWorkAt (alloc threadCount i : ℕ) : Pointer :=
  ⟨alloc, word (threadCount * forChunkBytes) + word (threadCount * taskEntryBytes) + i * workBytes⟩

/-- The stores for the chunk of worker `i`. -/
def chunkWrites (alloc threadCount i : ℕ) (chunk : ForChunk) : List (Pointer × SharedObject) :=
  [(chunkAt alloc i, .chunk chunk),
    (chunkEntryAt alloc threadCount i, .entry (.chunkRunner (chunkAt alloc i))),
    (chunkWorkAt alloc threadCount i, .work (chunkEntryAt alloc threadCount i) 1)]

/-- The stores and the dispatches for the chunks of the workers from `i` on. -/
def chunkOps (alloc threadCount : ℕ) : ℕ → List ForChunk → List SharedOp
  | _, [] => []
  | i, chunk :: chunks =>
      writeOps (chunkWrites alloc threadCount i chunk) ++
        .dispatch i (chunkWorkAt alloc threadCount i) :: chunkOps alloc threadCount (i + 1) chunks

/-- `bc_concurrency_for` -/
def parallelForOps (host : Host) (range : ForRange) (spawn : SpawnOutcome) : List SharedOp :=
  let threadCount := host.context.threadCount
  if range.stepSize = 0 then []
  else if range.startIndex ≥ range.endIndex then []
  else if threadCount = 0 ∨ range.totalIterations ≤ threadCount then
    sharedScript (mainShare threadCount (range.iterations range.totalIterations))
  else match ensureWorkersSpawned host.context spawn with
  | (false, _, script) => sharedScript script
  | (true, _, script) =>
      match host.memory.allocate (forBytes threadCount) with
      | (none, _) => sharedScript script
      | (some alloc, _) =>
          sharedScript script ++ [.allocate alloc (forBytes threadCount)] ++
            chunkOps alloc threadCount 0 (range.workerChunks threadCount) ++
            sharedScript (mainShare threadCount
              (range.iterations (ForRange.mainCount range.totalIterations (threadCount + 1)))) ++
            (List.range threadCount).map .wait ++ [.free alloc]

/-- What a call does in shared memory. -/
def Call.ops (host : Host) : Call → List SharedOp
  | .dispatchAndWait spawn => dispatchAndWaitOps host spawn
  | .parallelFor range spawn => parallelForOps host range spawn
  | .registerSlot _ | .submit _ _ | .submitBatch _ _ => []

/-- What `bc_concurrency_destroy` does with the threads and the shared blocks. -/
def destroyOps (host : Host) : List SharedOp :=
  sharedScript (destroyScript host) ++
    [.free host.context.dispatchTasks.block, .free host.context.dispatchWork]

/-- What a call does, or the destruction of the context. -/
def nextOps (host : Host) : Option Call → List SharedOp
  | some call => call.ops host
  | none => destroyOps host

end BcConcurrency.Pool
