import BcConcurrency.Pool.Slots

/-!
# What a registration does to the workers

A registration gives the workers larger slot arrays one after the other, each with a
block for the new slot, and stops at the first request that is refused.  Then it
frees the new data of the workers that have got it.  Whichever request is refused,
every worker still holds the data of all earlier slots.
-/

namespace BcConcurrency.Pool

/-- The slot array of a worker holds data blocks, possibly followed by the null entry
that a failed registration has left. -/
inductive Worker.Holds : Worker → List ℕ → Prop
  | empty : Holds ⟨none⟩ []
  | array (block : ℕ) (data : List ℕ) (k : ℕ) (hk : k ≤ 1) :
      Holds ⟨some ⟨block, data.map some ++ List.replicate k none⟩⟩ data

/-- The data of a worker are followed by new data. -/
def Worker.holding (block : ℕ) (data : List ℕ) : Worker := ⟨some ⟨block, data.map some⟩⟩

lemma Worker.holds_holding (block : ℕ) (data : List ℕ) : (holding block data).Holds data := by
  have hholds := Holds.array block data 0 (Nat.zero_le 1)
  rwa [List.replicate_zero, List.append_nil] at hholds

/-! ### What a registration leaves alone -/

/-- Making room for a configuration changes nothing but the array of configurations. -/
lemma growSlotConfigs_frame (context : Context) (memory : Memory) :
    ∃ configs capacity, (growSlotConfigs context memory).2.1 =
      { context with slotConfigs := configs, slotCapacity := capacity } := by
  rw [growSlotConfigs]
  split
  · dsimp only
    split
    · exact ⟨_, _, rfl⟩
    · exact ⟨_, _, rfl⟩
  · exact ⟨_, _, rfl⟩

/-- A call of `register_slot` changes nothing but the slots. -/
lemma registerSlot_frame (context : Context) (memory : Memory) (config : SlotConfig) :
    ∃ workers configs count capacity, (registerSlot context memory config).2.1 =
      { context with
        workers := workers
        slotConfigs := configs
        slotCount := count
        slotCapacity := capacity } := by
  obtain ⟨configs, capacity, hgrow⟩ := growSlotConfigs_frame context memory
  rw [registerSlot]
  -- the descriptor array is grown first, and a refused growth returns before the loop
  rcases heq : growSlotConfigs context memory with ⟨_ | _, context', memory'⟩
  · rw [heq] at hgrow
    exact ⟨_, _, _, _, hgrow⟩
  · rw [heq] at hgrow
    obtain rfl : context' = { context with slotConfigs := configs, slotCapacity := capacity } := hgrow
    dsimp only
    split
    · exact ⟨_, _, _, _, rfl⟩
    · exact ⟨_, _, _, _, rfl⟩

/-! ### The requests of a registration -/

/-- The request for a larger array of configurations, if one is needed. -/
def growthRequests (context : Context) : List ℕ :=
  if context.slotCount ≥ context.slotCapacity then
    [word ((if context.slotCapacity = 0 then slotInitialCapacity
      else word (context.slotCapacity * 2)) * slotConfigBytes)]
  else []

/-- The requests for one worker: its slot array and its data. -/
def workerRequests (idx : ℕ) (config : SlotConfig) : List ℕ :=
  [word ((idx + 1) * pointerBytes), config.size]

/-- The requests until the first worker has got its data. -/
def firstRequests (context : Context) (config : SlotConfig) : List ℕ :=
  growthRequests context ++ workerRequests context.slotCount config

/-- All requests of a registration. -/
def slotRequests (context : Context) (config : SlotConfig) : List ℕ :=
  growthRequests context ++
    (List.replicate context.workers.length (workerRequests context.slotCount config)).flatten

section Requests

variable {config : SlotConfig} {idx : ℕ}

lemma grantsAll_growSlotConfigs (context : Context) (memory : Memory) (sizes : List ℕ) :
    memory.grantsAll (growthRequests context ++ sizes) =
      ((growSlotConfigs context memory).1 && (growSlotConfigs context memory).2.2.grantsAll sizes) := by
  rw [growthRequests, growSlotConfigs]
  split
  · dsimp only
    -- only whether the request is granted matters here, not its size
    generalize word ((if context.slotCapacity = 0 then slotInitialCapacity
      else word (context.slotCapacity * 2)) * slotConfigBytes) = size
    rcases halloc : memory.allocate size with ⟨_ | block, memory₁⟩
    · exact Heap.grantsAll_cons_none halloc
    · refine (Heap.grantsAll_cons_some halloc).trans ?_
      rw [Bool.true_and]
      rcases context.slotConfigs with _ | configs
      · rfl
      · exact (Heap.grantsAll_free memory₁ configs.block sizes).symm
  · rfl

lemma grantsAll_registerWorker (i : ℕ) (worker : Worker) (memory : Memory) (sizes : List ℕ) :
    memory.grantsAll (workerRequests idx config ++ sizes) =
      ((registerWorker config idx i worker memory).1 &&
        (registerWorker config idx i worker memory).2.2.grantsAll sizes) := by
  rw [workerRequests, registerWorker]
  rcases halloc : memory.allocate (word ((idx + 1) * pointerBytes)) with ⟨_ | newSlots, memory₁⟩
  · exact Heap.grantsAll_cons_none halloc
  -- releasing the old slot array changes no later answer of the allocator
  have hgrow (sizes : List ℕ) :
      memory₁.grantsAll sizes = (growSlots idx newSlots worker memory₁).2.grantsAll sizes := by
    rw [growSlots]
    split
    · rfl
    · exact (Heap.grantsAll_free memory₁ _ sizes).symm
  rw [List.cons_append, Heap.grantsAll_cons_some halloc, hgrow]
  dsimp only
  generalize growSlots idx newSlots worker memory₁ = grown
  rcases halloc' : grown.2.allocate config.size with ⟨_ | d, memory₂⟩
  · exact Heap.grantsAll_cons_none halloc'
  · refine (Heap.grantsAll_cons_some halloc').trans ?_
    dsimp only
    split <;> simp

lemma grantsAll_registerWorkers (i : ℕ) (workers : List Worker) (memory : Memory) :
    memory.grantsAll (List.replicate workers.length (workerRequests idx config)).flatten =
      (registerWorkers config idx i workers memory).1 := by
  induction workers generalizing i memory with
  | nil => rfl
  | cons worker workers ih =>
    rw [List.length_cons, List.replicate_succ, List.flatten_cons, grantsAll_registerWorker i worker,
      ih (i + 1), registerWorkers]
    rcases registerWorker config idx i worker memory with ⟨_ | _, worker', memory'⟩
    · rfl
    · exact Bool.true_and _

lemma le_completed (i : ℕ) (workers : List Worker) (memory : Memory) :
    i ≤ (registerWorkers config idx i workers memory).2.1 := by
  induction workers generalizing i memory with
  | nil => exact le_rfl
  | cons worker workers ih =>
    rw [registerWorkers]
    rcases registerWorker config idx i worker memory with ⟨_ | _, worker', memory'⟩
    · exact le_rfl
    · exact (Nat.le_succ i).trans (ih (i + 1) memory')

/-- A worker is completed exactly if the requests for the first one are granted. -/
lemma lt_completed_iff (i : ℕ) (worker : Worker) (workers : List Worker) (memory : Memory) :
    i < (registerWorkers config idx i (worker :: workers) memory).2.1 ↔
      memory.grantsAll (workerRequests idx config) = true := by
  have hfirst : memory.grantsAll (workerRequests idx config ++ []) = _ :=
    grantsAll_registerWorker i worker memory []
  rw [List.append_nil] at hfirst
  rw [registerWorkers, hfirst]
  rcases registerWorker config idx i worker memory with ⟨_ | _, worker', memory'⟩
  · simp
  · exact iff_of_true (le_completed (i + 1) workers memory') rfl

end Requests

/-! ### The blocks of a worker -/

@[simp] lemma dataBlocks_append (entries entries' : List (Option ℕ)) :
    dataBlocks (entries ++ entries') = dataBlocks entries + dataBlocks entries' := by
  simp [dataBlocks]

@[simp] lemma dataBlocks_map_some (data : List ℕ) : dataBlocks (data.map some) = (data : Multiset ℕ) := by
  induction data with
  | nil => rfl
  | cons d data ih =>
    rw [← Multiset.cons_coe, ← ih, ← Multiset.singleton_add]
    simp [dataBlocks]

@[simp] lemma dataBlocks_replicate_none (k : ℕ) : dataBlocks (List.replicate k none) = 0 := by
  simp [dataBlocks]

lemma Worker.blocks_array (block : ℕ) (data : List ℕ) (k : ℕ) :
    (⟨some ⟨block, data.map some ++ List.replicate k none⟩⟩ : Worker).blocks =
      {block} + (data : Multiset ℕ) := by
  rw [blocks, Option.elim_some, dataBlocks_append, dataBlocks_map_some, dataBlocks_replicate_none,
    add_zero]

@[simp] lemma Worker.blocks_holding (block : ℕ) (data : List ℕ) :
    (holding block data).blocks = {block} + (data : Multiset ℕ) := by
  simp [Worker.blocks, holding]

/-- The entry of a slot of a worker. -/
lemma Worker.Holds.entry {worker : Worker} {data : List ℕ} (hholds : worker.Holds data) (s : ℕ) :
    (worker.slots.bind fun slots => (slots.entries[s]?).join) = data[s]? := by
  cases hholds with
  | empty => rfl
  | array block data k =>
    simp only [Option.bind_some, List.getElem?_append, List.length_map, List.getElem?_map]
    by_cases hs : s < data.length
    · simp [hs]
    · rw [if_neg hs, List.getElem?_eq_none (not_lt.mp hs), List.getElem?_replicate]
      split <;> rfl

/-! ### One worker -/

/-- What is noted when the data of a worker are set up. -/
def setupNotes (config : SlotConfig) (data worker : ℕ) : List PoolEvent :=
  .slotZeroed config data worker ::
    if config.init.isSome then [.initCalled config data worker] else []

section OneWorker

variable {config : SlotConfig} {idx i : ℕ} {worker : Worker} {memory : Memory} {data : List ℕ}
  {rest : Multiset ℕ}

/-- The larger array takes over the data of all earlier slots. -/
lemma growSlots_spec (hholds : worker.Holds data) (hlen : data.length = idx) {newSlots : ℕ}
    (hown : memory.Owns ({newSlots} + (worker.blocks + rest))) :
    (growSlots idx newSlots worker memory).1 = ⟨newSlots, data.map some⟩ ∧
      (growSlots idx newSlots worker memory).2.Owns ({newSlots} + (data : Multiset ℕ) + rest) ∧
      memory.Extends (growSlots idx newSlots worker memory).2 ∧
      Heap.notes (growSlots idx newSlots worker memory).2.log = Heap.notes memory.log := by
  cases hholds with
  | empty =>
    -- a worker without slots has no array to copy from, and none to free
    obtain rfl : 0 = idx := hlen
    exact ⟨rfl, by simpa [growSlots, Worker.blocks] using hown, Heap.Extends.refl _, rfl⟩
  | array block data k hk =>
    subst hlen
    refine ⟨?_, ?_, Heap.Extends.free _ _, Heap.notes_free _ _⟩
    · simp [growSlots]
    · refine Heap.Owns.free ?_
      convert hown using 1
      rw [Worker.blocks_array]
      abel

/-- The outcomes of the loop body for a worker that holds data. -/
inductive WorkerRegistration (config : SlotConfig) (i : ℕ) (memory : Memory) (data : List ℕ)
    (rest : Multiset ℕ) : Bool × Worker × Memory → Prop
  | refused {worker : Worker} {memory' : Memory} (hholds : worker.Holds data)
      (hown : memory'.Owns (worker.blocks + rest)) (hext : memory.Extends memory')
      (hnotes : Heap.notes memory'.log = Heap.notes memory.log) :
      WorkerRegistration config i memory data rest (false, worker, memory')
  | registered {block d : ℕ} {memory' : Memory}
      (hown : memory'.Owns ((Worker.holding block (data ++ [d])).blocks + rest))
      (hext : memory.Extends memory')
      (hnotes : Heap.notes memory'.log = Heap.notes memory.log ++ setupNotes config d i)
      (hnew : memory.requests ≤ d) (hlog : .allocated d config.size ∈ memory'.log) :
      WorkerRegistration config i memory data rest
        (true, Worker.holding block (data ++ [d]), memory')

lemma registerWorker_spec (hholds : worker.Holds data) (hlen : data.length = idx)
    (hown : memory.Owns (worker.blocks + rest)) :
    WorkerRegistration config i memory data rest (registerWorker config idx i worker memory) := by
  rw [registerWorker]
  rcases halloc : memory.allocate (word ((idx + 1) * pointerBytes)) with ⟨_ | newSlots, memory₁⟩
  · exact .refused hholds (hown.allocate_none halloc) (.allocate halloc)
      (Heap.notes_allocate halloc)
  -- the new array holds the old entries, and it replaces the old array among the owned blocks
  obtain ⟨hgrow, hown₂, hext₂, hnotes₂⟩ :=
    growSlots_spec hholds hlen (hown.allocate_some halloc).2
  have hext₁ := Heap.Extends.allocate halloc
  have hnotes₁ := Heap.notes_allocate halloc
  dsimp only
  rcases hslots : growSlots idx newSlots worker memory₁ with ⟨slots, memory₂⟩
  rw [hslots] at hgrow hown₂ hext₂ hnotes₂
  dsimp only at hgrow hown₂ hext₂ hnotes₂ ⊢
  subst hgrow
  rcases halloc' : memory₂.allocate config.size with ⟨_ | d, memory₃⟩
  · refine .refused (.array newSlots data 1 le_rfl) ?_ ((hext₁.trans hext₂).trans (.allocate halloc'))
      (by rw [Heap.notes_allocate halloc', hnotes₂, hnotes₁])
    have hown₃ := hown₂.allocate_none halloc'
    rwa [← Worker.blocks_array newSlots data 1] at hown₃
  · have hown₃ := (hown₂.allocate_some halloc').2
    obtain ⟨rfl, hmemory₃⟩ := Heap.allocate_some_eq halloc'
    have hnotes₃ := Heap.notes_allocate halloc'
    have hext₃ := Heap.Extends.allocate halloc'
    have hlog : .allocated memory₂.requests config.size ∈ memory₃.log := by simp [hmemory₃]
    have hnew := (hext₁.trans hext₂).requests
    -- the fresh data block joins the multiset of the blocks the worker owns
    have hblocks : (Worker.holding newSlots (data ++ [memory₂.requests])).blocks + rest =
        {memory₂.requests} + ({newSlots} + (data : Multiset ℕ) + rest) := by
      rw [Worker.blocks_holding, ← Multiset.coe_add, Multiset.coe_singleton]
      abel
    have hresult : (⟨some ⟨newSlots, data.map some ++ [some memory₂.requests]⟩⟩ : Worker) =
        Worker.holding newSlots (data ++ [memory₂.requests]) := by
      simp [Worker.holding]
    rw [← hblocks] at hown₃
    dsimp only
    rw [hresult]
    by_cases hinit : config.init.isSome = true
    · rw [if_pos hinit]
      refine .registered ((hown₃.note _).note _) ?_ ?_ hnew ?_
      · exact ((hext₁.trans hext₂).trans hext₃).trans ((Heap.Extends.note _ _).trans (.note _ _))
      · simp [setupNotes, hinit, hnotes₃, hnotes₂, hnotes₁]
      · simp [Heap.note, hlog]
    · rw [if_neg hinit]
      refine .registered (hown₃.note _) ?_ ?_ hnew ?_
      · exact ((hext₁.trans hext₂).trans hext₃).trans (Heap.Extends.note _ _)
      · simp [setupNotes, hinit, hnotes₃, hnotes₂, hnotes₁]
      · simp [Heap.note, hlog]

end OneWorker

/-! ### All workers -/

/-- The blocks of a list of workers. -/
def workersBlocks (workers : List Worker) : Multiset ℕ := (workers.map Worker.blocks).sum

@[simp] lemma workersBlocks_nil : workersBlocks [] = 0 := rfl

@[simp] lemma workersBlocks_cons (worker : Worker) (workers : List Worker) :
    workersBlocks (worker :: workers) = worker.blocks + workersBlocks workers := by
  simp [workersBlocks]

/-- The workers when the first of them have got new data `ds`. -/
inductive Registering : List ℕ → List (List ℕ) → List Worker → Prop
  | kept {datas : List (List ℕ)} {workers : List Worker}
      (hholds : List.Forall₂ Worker.Holds workers datas) : Registering [] datas workers
  | registered {d : ℕ} {ds data : List ℕ} {datas : List (List ℕ)} {workers : List Worker}
      (block : ℕ) (hrest : Registering ds datas workers) :
      Registering (d :: ds) (data :: datas) (Worker.holding block (data ++ [d]) :: workers)

/-- What is noted when the data `ds` of the workers from `i` on are set up. -/
def setupAll (config : SlotConfig) : ℕ → List ℕ → List PoolEvent
  | _, [] => []
  | i, d :: ds => setupNotes config d i ++ setupAll config (i + 1) ds

/-- What the loop over the workers does that has given new data to the first of them. -/
structure LoopRegistration (config : SlotConfig) (i : ℕ) (memory : Memory)
    (datas : List (List ℕ)) (rest : Multiset ℕ) (ds : List ℕ)
    (result : Bool × ℕ × List Worker × Memory) : Prop where
  ok : result.1 = true ↔ ds.length = datas.length
  completed : result.2.1 = i + ds.length
  workers : Registering ds datas result.2.2.1
  owns : result.2.2.2.Owns (workersBlocks result.2.2.1 + rest)
  ext : memory.Extends result.2.2.2
  notes : Heap.notes result.2.2.2.log = Heap.notes memory.log ++ setupAll config i ds
  new : ∀ d ∈ ds, memory.requests ≤ d ∧ .allocated d config.size ∈ result.2.2.2.log

lemma registerWorkers_spec (config : SlotConfig) {idx : ℕ} {workers : List Worker}
    {datas : List (List ℕ)} (i : ℕ) {memory : Memory} {rest : Multiset ℕ}
    (hholds : List.Forall₂ Worker.Holds workers datas) (hlen : ∀ data ∈ datas, data.length = idx)
    (hown : memory.Owns (workersBlocks workers + rest)) :
    ∃ ds, LoopRegistration config i memory datas rest ds
      (registerWorkers config idx i workers memory) := by
  -- the loop stops at the first refused worker: the workers before it are registered, the others are untouched
  induction hholds generalizing i memory rest with
  | nil =>
    exact ⟨[], by simp [registerWorkers], rfl, .kept .nil, hown, .refl _, by simp [registerWorkers, setupAll],
      by simp⟩
  | @cons worker data workers datas hworker hworkers ih =>
    rw [workersBlocks_cons, add_assoc] at hown
    have hspec : WorkerRegistration config i memory data (workersBlocks workers + rest)
        (registerWorker config idx i worker memory) :=
      registerWorker_spec hworker (hlen data (List.mem_cons_self ..)) hown
    rw [registerWorkers]
    generalize registerWorker config idx i worker memory = result at hspec
    cases hspec with
    | refused hholds' hown' hext hnotes =>
      refine ⟨[], by simp, rfl, .kept (.cons hholds' hworkers), ?_, hext, by simp [setupAll, hnotes],
        by simp⟩
      rwa [workersBlocks_cons, add_assoc]
    | @registered block d memory' hown' hext hnotes hnew hlog =>
      rw [add_left_comm] at hown'
      obtain ⟨ds, hloop⟩ := ih (i + 1) (fun data hdata => hlen data (List.mem_cons_of_mem _ hdata))
        hown'
      refine ⟨d :: ds, ?_, ?_, .registered block hloop.workers, ?_, hext.trans hloop.ext, ?_, ?_⟩
      · simpa using hloop.ok
      · dsimp only
        rw [hloop.completed, List.length_cons]
        omega
      · have hown'' := hloop.owns
        dsimp only
        rwa [workersBlocks_cons, add_assoc, add_left_comm]
      · dsimp only
        rw [hloop.notes, hnotes, setupAll, List.append_assoc]
      · intro d' hd'
        rcases List.mem_cons.mp hd' with rfl | hd'
        · exact ⟨hnew, hloop.ext.log.subset hlog⟩
        · obtain ⟨hle, hlog'⟩ := hloop.new d' hd'
          exact ⟨hext.requests.trans hle, hlog'⟩

/-- The rollback frees the new data and leaves the workers with their earlier data. -/
lemma rollbackWorkers_spec {idx : ℕ} {ds : List ℕ} {datas : List (List ℕ)} {workers : List Worker}
    {memory : Memory} {rest : Multiset ℕ} (hreg : Registering ds datas workers)
    (hlen : ∀ data ∈ datas, data.length = idx) (hown : memory.Owns (workersBlocks workers + rest)) :
    List.Forall₂ Worker.Holds (rollbackWorkers idx ds.length workers memory).1 datas ∧
      (rollbackWorkers idx ds.length workers memory).2.Owns
        (workersBlocks (rollbackWorkers idx ds.length workers memory).1 + rest) ∧
      (rollbackWorkers idx ds.length workers memory).2.log = memory.log ++ ds.map .freed ∧
      memory.Extends (rollbackWorkers idx ds.length workers memory).2 := by
  -- the rollback follows the registered prefix, and leaves the spare entry of each array empty
  induction hreg generalizing memory rest with
  | kept hholds => exact ⟨hholds, hown, by simp [rollbackWorkers], .refl _⟩
  | @registered d ds data datas workers block hrest ih =>
    have hdata : data.length = idx := hlen data (List.mem_cons_self ..)
    have hworker : rollbackWorker idx (Worker.holding block (data ++ [d])) memory =
        (⟨some ⟨block, data.map some ++ List.replicate 1 none⟩⟩, memory.free d) := by
      simp [rollbackWorker, Worker.holding, ← hdata]
    have hown' : (memory.free d).Owns (workersBlocks workers +
        (({block} + (data : Multiset ℕ)) + rest)) := by
      refine Heap.Owns.free ?_
      convert hown using 1
      rw [workersBlocks_cons, Worker.blocks_holding, ← Multiset.coe_add, Multiset.coe_singleton]
      abel
    obtain ⟨hholds, hown'', hlog, hext⟩ :=
      ih (fun data hdata => hlen data (List.mem_cons_of_mem _ hdata)) hown'
    rw [List.length_cons, rollbackWorkers, hworker]
    refine ⟨.cons (.array block data 1 le_rfl) hholds, ?_, ?_, (Heap.Extends.free memory d).trans hext⟩
    · dsimp only
      convert hown'' using 1
      rw [workersBlocks_cons, Worker.blocks_array]
      abel
    · dsimp only
      rw [hlog, Heap.free, List.append_assoc]
      rfl

/-- When all workers have got new data, they hold them behind the earlier ones. -/
lemma Registering.holds {ds : List ℕ} {datas : List (List ℕ)} {workers : List Worker}
    (hreg : Registering ds datas workers) (hlen : ds.length = datas.length) :
    List.Forall₂ Worker.Holds workers (List.zipWith (fun data d => data ++ [d]) datas ds) := by
  induction hreg with
  | kept hholds =>
    obtain rfl := List.length_eq_zero_iff.mp hlen.symm
    cases hholds
    exact .nil
  | registered block _ ih =>
    exact .cons (Worker.holds_holding _ _) (ih (Nat.succ.inj hlen))

end BcConcurrency.Pool
