import BcConcurrency.Pool.Context

/-!
# A fresh context

How `bc_concurrency_create` ends, and what it leaves when it succeeds: a context
without slots, staged entries or threads, which owns exactly the blocks that it
refers to.
-/

namespace BcConcurrency.Pool

/-! ### The requests of a creation -/

/-- The local `thread_count` of `bc_concurrency_create`. -/
def threadCountOf (physicalCoreCount : ℕ) (config : Option Config) : ℕ :=
  if config.elim false Config.workerCountExplicit then config.elim 0 Config.workerCount
  else if physicalCoreCount > 1 then physicalCoreCount - 1 else 0

/-- The configuration passes the checks against the number of cores. -/
def Accepted (physicalCoreCount : ℕ) (config : Option Config) : Prop :=
  config.elim 0 Config.coreOffset < physicalCoreCount ∧
    ¬ (threadCountOf physicalCoreCount config > 0 ∧
      word (config.elim 0 Config.coreOffset + threadCountOf physicalCoreCount config) ≥
        physicalCoreCount)

/-- The sizes of the requests that `bc_concurrency_create` makes, in their order. -/
def requestSizes (threadCount : ℕ) : List ℕ :=
  [contextBytes, stagingInitialCapacity * taskEntryBytes, stagingInitialCapacity * taskEntryBytes,
    word ((threadCount + 1) * workBytes)] ++
    ((if threadCount > 0 then [word (threadCount * threadBytes)] else []) ++
      [word ((threadCount + 1) * workerBytes)])

/-! ### The outcomes -/

/-- A context as `bc_concurrency_create` leaves it. -/
structure Context.Fresh (context : Context) : Prop where
  workersSpawned : context.workersSpawned = false
  workers : context.workers = List.replicate (context.threadCount + 1) ⟨none⟩
  staged : context.staging.data = []
  room : context.dispatchTasks.room = stagingInitialCapacity
  dispatchCapacity : context.dispatchCapacity = stagingInitialCapacity
  slotConfigs : context.slotConfigs = none
  slotCount : context.slotCount = 0
  slotCapacity : context.slotCapacity = 0

lemma coe_toList_eq_blockOf (pointer : Option ℕ) :
    (pointer.toList : Multiset ℕ) = blockOf pointer := by
  cases pointer <;> rfl

lemma sum_replicate_blocks_none (n : ℕ) :
    ((List.replicate n (⟨none⟩ : Worker)).map Worker.blocks).sum = 0 := by
  simp [Worker.blocks]

/-- Setting up the workers allocates nothing. -/
lemma initWorkers_owns (memoryGrants : ℕ → Bool) {blocks : Multiset ℕ} (i n : ℕ)
    {memory : Memory} (hown : memory.Owns blocks) : (initWorkers memoryGrants i n memory).2.2.Owns blocks := by
  induction n generalizing i memory with
  | zero => exact hown
  | succ n ih =>
    rw [initWorkers]
    split
    · exact ih (i + 1) ((hown.note _).note _)
    · exact hown.note _

/-- The outcomes of `bc_concurrency_create`. -/
inductive CreateOutcome (memory : Memory) (physicalCoreCount : ℕ) (config : Option Config)
    (memoryGrants : ℕ → Bool) : Option Context × Memory → Prop
  | rejected (hrejected : ¬ Accepted physicalCoreCount config) :
      CreateOutcome memory physicalCoreCount config memoryGrants (none, memory)
  | refused {sizes blocks rest : List ℕ} {memory₁ memory₂ : Memory} {size : ℕ}
      (hgranted : memory.Granted sizes blocks memory₁)
      (hrefused : memory₁.allocate size = (none, memory₂))
      (hsizes : requestSizes (threadCountOf physicalCoreCount config) = sizes ++ size :: rest) :
      CreateOutcome memory physicalCoreCount config memoryGrants (none, memory₂.freeAll blocks)
  | failed {blocks : List ℕ} {memory₁ memory₂ : Memory} {created : ℕ}
      (haccepted : Accepted physicalCoreCount config)
      (hgranted : memory.Granted (requestSizes (threadCountOf physicalCoreCount config)) blocks
        memory₁)
      (hinit : initWorkers memoryGrants 0 (threadCountOf physicalCoreCount config + 1) memory₁ =
        (false, created, memory₂)) :
      CreateOutcome memory physicalCoreCount config memoryGrants
        (none, (unwindWorkers created memory₂).freeAll blocks)
  | created {blocks : List ℕ} {memory₁ memory₂ : Memory} {created : ℕ} {context : Context}
      (haccepted : Accepted physicalCoreCount config)
      (hgranted : memory.Granted (requestSizes (threadCountOf physicalCoreCount config)) blocks
        memory₁)
      (hinit : initWorkers memoryGrants 0 (threadCountOf physicalCoreCount config + 1) memory₁ =
        (true, created, memory₂))
      (hfresh : context.Fresh) (hblocks : context.blocks = blocks)
      (hcount : context.threadCount = threadCountOf physicalCoreCount config)
      (hoffset : context.coreOffset = config.elim 0 Config.coreOffset) :
      CreateOutcome memory physicalCoreCount config memoryGrants (some context, memory₂)

/-- The array of the threads is requested if there are any. -/
lemma allocateThreads_none {threadCount : ℕ} {memory memory' : Memory}
    (h : (if threadCount > 0 then
        match memory.allocate (word (threadCount * threadBytes)) with
        | (none, memory) => (none, memory)
        | (some threads, memory) => (some (some threads), memory)
      else (some none, memory)) = ((none, memory') : Option (Option ℕ) × Memory)) :
    threadCount > 0 ∧ memory.allocate (word (threadCount * threadBytes)) = (none, memory') := by
  split at h
  case isTrue hpos =>
    split at h
    case h_1 hrefused =>
      cases h
      exact ⟨hpos, hrefused⟩
    case h_2 => cases h
  case isFalse => cases h

lemma allocateThreads_some {threadCount : ℕ} {memory₀ memory memory' : Memory}
    {sizes blocks : List ℕ} {threads : Option ℕ} (hgranted : memory₀.Granted sizes blocks memory)
    (h : (if threadCount > 0 then
        match memory.allocate (word (threadCount * threadBytes)) with
        | (none, memory) => (none, memory)
        | (some threads, memory) => (some (some threads), memory)
      else (some none, memory)) = (some threads, memory')) :
    memory₀.Granted (sizes ++ if threadCount > 0 then [word (threadCount * threadBytes)] else [])
      (threads.toList ++ blocks) memory' := by
  split at h
  case isTrue hpos =>
    rw [if_pos hpos]
    split at h
    case h_1 => cases h
    case h_2 hgrant =>
      cases h
      exact hgranted.snoc hgrant
  case isFalse hpos =>
    cases h
    rw [if_neg hpos, List.append_nil]
    exact hgranted

/-- The chain of the labels `fail_threads` to `fail_context` gives back the blocks acquired
so far, from the last to the first. -/
lemma failThreads_eq (memory : Memory) (threads : Option ℕ)
    (dispatchWork dispatchTasks staging block : ℕ) :
    ((((threads.elim memory memory.free).free dispatchWork).free dispatchTasks).free staging).free
      block = memory.freeAll (threads.toList ++ [dispatchWork, dispatchTasks, staging, block]) := by
  cases threads <;> rfl

lemma create_cases (memory : Memory) (physicalCoreCount : ℕ) (config : Option Config)
    (stagingGrows memoryGrants : ℕ → Bool) :
    CreateOutcome memory physicalCoreCount config memoryGrants
      (create memory physicalCoreCount config stagingGrows memoryGrants) := by
  simp only [create]
  rw [show (if config.elim false Config.workerCountExplicit = true then
    config.elim 0 Config.workerCount
    else if physicalCoreCount > 1 then physicalCoreCount - 1 else 0) =
      threadCountOf physicalCoreCount config from rfl]
  split
  case isTrue hcore => exact .rejected fun haccepted => absurd haccepted.1 (by omega)
  case isFalse hcore =>
  split
  case isTrue hcount => exact .rejected fun haccepted => haccepted.2 hcount
  case isFalse hcount =>
  have haccepted : Accepted physicalCoreCount config := ⟨Nat.lt_of_not_le hcore, hcount⟩
  split
  case h_1 hrefused => exact .refused .nil hrefused rfl
  case h_2 hgrant₁ =>
  have hgranted₁ := Heap.Granted.nil.snoc hgrant₁
  split
  case h_1 hrefused => exact .refused hgranted₁ hrefused rfl
  case h_2 hgrant₂ =>
  have hgranted₂ := hgranted₁.snoc hgrant₂
  split
  case h_1 hrefused => exact .refused hgranted₂ hrefused rfl
  case h_2 hgrant₃ =>
  have hgranted₃ := hgranted₂.snoc hgrant₃
  split
  case h_1 hrefused => exact .refused hgranted₃ hrefused rfl
  case h_2 hgrant₄ =>
  have hgranted₄ := hgranted₃.snoc hgrant₄
  split
  case h_1 memory₅ hthreads =>
    obtain ⟨hpos, hrefused⟩ := allocateThreads_none hthreads
    exact .refused hgranted₄ hrefused (by rw [requestSizes, if_pos hpos]; rfl)
  case h_2 threads memory₅ hthreads =>
  have hgranted₅ := allocateThreads_some hgranted₄ hthreads
  split
  case h_1 hrefused =>
    rw [failThreads_eq]
    exact .refused hgranted₅ hrefused (by rw [requestSizes, ← List.append_assoc]; rfl)
  case h_2 hgrant₆ =>
  have hgranted₆ := hgranted₅.snoc hgrant₆
  rw [List.append_assoc] at hgranted₆
  split
  case h_1 hinit =>
    rw [failThreads_eq]
    exact .failed haccepted hgranted₆ hinit
  case h_2 hinit =>
    refine .created haccepted hgranted₆ hinit ⟨rfl, rfl, rfl, rfl, rfl, rfl, rfl, rfl⟩ ?_ rfl rfl
    simp only [Context.blocks, sum_replicate_blocks_none, Option.map_none, blockOf_none,
      ← Multiset.cons_coe, ← Multiset.coe_add, coe_toList_eq_blockOf, ← Multiset.singleton_add,
      Multiset.coe_nil]
    abel

/-- A successful creation: the context is fresh, and the blocks in use are those
before and those of the context. -/
theorem create_ok {memory memory' : Memory} {physicalCoreCount : ℕ} {config : Option Config}
    {stagingGrows memoryGrants : ℕ → Bool} {context : Context}
    (h : create memory physicalCoreCount config stagingGrows memoryGrants = (some context, memory')) :
    context.Fresh ∧
      ∀ foreign, memory.Owns foreign → memory'.Owns (context.blocks + foreign) := by
  have hcases := create_cases memory physicalCoreCount config stagingGrows memoryGrants
  rw [h] at hcases
  cases hcases with
  | created _ hgranted hinit hfresh hblocks =>
    refine ⟨hfresh, ?_⟩
    intro foreign hown
    have hown' := initWorkers_owns memoryGrants 0 (threadCountOf physicalCoreCount config + 1)
      (hgranted.owns hown)
    rwa [hinit, ← hblocks] at hown'

end BcConcurrency.Pool
