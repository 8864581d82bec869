import BcConcurrency.Platform.Topology
import BcConcurrency.Pool.Dispatch
import BcConcurrency.Pool.FailedCreation

/-!
# The configuration gate

The checks of `bc_concurrency_create` against the number of physical cores, and what relies
on them: the cores that the threads are pinned to and the byte counts computed from
`thread_count`.  The sum that is checked is taken modulo `2 ^ 64`, so an explicit worker
count that makes it wrap passes.  Short of that, no two threads share a physical core.
-/

namespace BcConcurrency.Pool

/-! ### What relies on the gate -/

/-- The local `core_offset` of `bc_concurrency_create`. -/
def coreOffsetOf (config : Option Config) : ℕ := config.elim 0 Config.coreOffset

/-- The cores handed to the pinning function: by `bc_concurrency_create` for the main thread,
and by `worker_thread_routine` for each worker. -/
def pinnedCores (coreOffset threadCount : ℕ) : List ℕ :=
  coreOffset :: (List.range threadCount).map fun index => word (word (coreOffset + 1) + index)

/-- In exact integers the threads fit the cores, so each of them gets a core of its own, and no
byte count computed from `thread_count` wraps. -/
structure GateExact (physicalCoreCount coreOffset threadCount : ℕ) : Prop where
  fits : coreOffset + threadCount < physicalCoreCount
  cores_lt : ∀ core ∈ pinnedCores coreOffset threadCount, core < physicalCoreCount
  cores_nodup : (pinnedCores coreOffset threadCount).Nodup
  products : ∀ bytes < 2 ^ 16,
    word (threadCount * bytes) = threadCount * bytes ∧
      word (word (threadCount + 1) * bytes) = (threadCount + 1) * bytes
  sums : ∀ a < 2 ^ 16, ∀ b < 2 ^ 16, ∀ c < 2 ^ 16,
    word (word (threadCount * a) + word (threadCount * b) + word (threadCount * c)) =
      threadCount * a + threadCount * b + threadCount * c
  requests : requestSizes threadCount =
    [contextBytes, stagingInitialCapacity * taskEntryBytes,
      stagingInitialCapacity * taskEntryBytes, (threadCount + 1) * workBytes] ++
      ((if threadCount > 0 then [threadCount * threadBytes] else []) ++
        [(threadCount + 1) * workerBytes])
  forRequest : forBytes threadCount =
    threadCount * forChunkBytes + threadCount * taskEntryBytes + threadCount * workBytes

section Exact

variable {physicalCoreCount coreOffset threadCount : ℕ}

lemma pinnedCores_eq (hfits : coreOffset + threadCount < 2 ^ 32) :
    pinnedCores coreOffset threadCount =
      (List.range (threadCount + 1)).map fun thread => coreOffset + thread := by
  rw [pinnedCores, List.range_succ_eq_map, List.map_cons, List.map_map, Nat.add_zero]
  congr 1
  refine List.map_congr_left ?_
  intro index hindex
  have hlt := List.mem_range.1 hindex
  rw [word_of_lt (n := coreOffset + 1) (by omega), word_of_lt (by omega)]
  simp only [Function.comp]
  omega

lemma product_lt (hcount : threadCount < 2 ^ 32) {bytes : ℕ} (hbytes : bytes < 2 ^ 16) :
    threadCount * bytes ≤ 2 ^ 48 ∧ (threadCount + 1) * bytes ≤ 2 ^ 48 := by
  constructor
  · calc threadCount * bytes ≤ 2 ^ 32 * 2 ^ 16 := Nat.mul_le_mul hcount.le hbytes.le
      _ = 2 ^ 48 := by norm_num
  · calc (threadCount + 1) * bytes ≤ 2 ^ 32 * 2 ^ 16 := Nat.mul_le_mul hcount hbytes.le
      _ = 2 ^ 48 := by norm_num

lemma word_product (hcount : threadCount < 2 ^ 32) {bytes : ℕ} (hbytes : bytes < 2 ^ 16) :
    word (threadCount * bytes) = threadCount * bytes ∧
      word ((threadCount + 1) * bytes) = (threadCount + 1) * bytes := by
  obtain ⟨hproduct, hsucc⟩ := product_lt hcount hbytes
  exact ⟨word_of_lt (by omega), word_of_lt (by omega)⟩

lemma word_sum (hcount : threadCount < 2 ^ 32) {a b c : ℕ} (ha : a < 2 ^ 16) (hb : b < 2 ^ 16)
    (hc : c < 2 ^ 16) :
    word (word (threadCount * a) + word (threadCount * b) + word (threadCount * c)) =
      threadCount * a + threadCount * b + threadCount * c := by
  have ha' := (product_lt hcount ha).1
  have hb' := (product_lt hcount hb).1
  have hc' := (product_lt hcount hc).1
  rw [(word_product hcount ha).1, (word_product hcount hb).1, (word_product hcount hc).1,
    word_of_lt (by omega)]

/-- Everything follows from the bound in exact integers. -/
lemma gateExact_of_fits (hcores : physicalCoreCount < 2 ^ 32)
    (hfits : coreOffset + threadCount < physicalCoreCount) :
    GateExact physicalCoreCount coreOffset threadCount := by
  have hcount : threadCount < 2 ^ 32 := by omega
  have hpinned := pinnedCores_eq (hfits.trans hcores)
  constructor
  · exact hfits
  · intro core hcore
    rw [hpinned, List.mem_map] at hcore
    obtain ⟨thread, hthread, rfl⟩ := hcore
    have := List.mem_range.1 hthread
    omega
  · rw [hpinned]
    exact List.nodup_range.map (add_right_injective coreOffset)
  · intro bytes hbytes
    rw [word_of_lt (n := threadCount + 1) (by omega)]
    exact word_product hcount hbytes
  · intro a ha b hb c hc
    exact word_sum hcount ha hb hc
  · have hwork := (word_product hcount (show workBytes < 2 ^ 16 by decide)).2
    have hthread := (word_product hcount (show threadBytes < 2 ^ 16 by decide)).1
    have hworker := (word_product hcount (show workerBytes < 2 ^ 16 by decide)).2
    rw [requestSizes, hwork, hthread, hworker]
  · exact word_sum hcount (by decide) (by decide) (by decide)

end Exact

/-! ### The gate -/

section Gate

variable {physicalCoreCount : ℕ} {config : Option Config}

lemma threadCountOf_lt (hcores : physicalCoreCount < 2 ^ 32)
    (hcount : config.elim 0 Config.workerCount < 2 ^ 64) :
    threadCountOf physicalCoreCount config < 2 ^ 64 := by
  rw [threadCountOf]
  split
  · exact hcount
  · split <;> omega

/-- The checks pass if the exact sum is below the number of cores, and also if it wraps: what
is left of it is below the offset. -/
lemma accepted_iff (hcores : physicalCoreCount < 2 ^ 32)
    (hcount : config.elim 0 Config.workerCount < 2 ^ 64) :
    Accepted physicalCoreCount config ↔
      coreOffsetOf config < physicalCoreCount ∧
        (coreOffsetOf config + threadCountOf physicalCoreCount config < physicalCoreCount ∨
          2 ^ 64 ≤ coreOffsetOf config + threadCountOf physicalCoreCount config) := by
  have hthreads := threadCountOf_lt hcores hcount
  rw [Accepted, ← coreOffsetOf]
  generalize threadCountOf physicalCoreCount config = threadCount at hthreads
  generalize coreOffsetOf config = coreOffset
  refine and_congr_right ?_
  intro hoffset
  rcases Nat.lt_or_ge (coreOffset + threadCount) (2 ^ 64) with hlt | hwraps
  · rw [word_of_lt hlt]
    omega
  · have hword : word (coreOffset + threadCount) = coreOffset + threadCount - 2 ^ 64 := by
      rw [word, Nat.mod_eq_sub_mod hwraps, Nat.mod_eq_of_lt (by omega)]
    rw [hword]
    omega

/-- A context that is created has passed the checks, and has the offset and the number of
threads that were checked. -/
lemma create_accepted {memory memory' : Memory} {stagingGrows memoryGrants : ℕ → Bool}
    {context : Context}
    (h : create memory physicalCoreCount config stagingGrows memoryGrants =
      (some context, memory')) :
    Accepted physicalCoreCount config ∧ context.coreOffset = coreOffsetOf config ∧
      context.threadCount = threadCountOf physicalCoreCount config := by
  have hcases := create_cases memory physicalCoreCount config stagingGrows memoryGrants
  rw [h] at hcases
  cases hcases with
  | created haccepted _ _ _ _ hcount hoffset => exact ⟨haccepted, hoffset, hcount⟩

/-- A checked sum that wraps leads to no context: one of the arrays is too large. -/
lemma create_sum_lt {memory memory' : Memory} {stagingGrows memoryGrants : ℕ → Bool}
    {context : Context} (hcores : physicalCoreCount < 2 ^ 32)
    (hcount : config.elim 0 Config.workerCount < 2 ^ 64)
    (h : create memory physicalCoreCount config stagingGrows memoryGrants =
      (some context, memory')) :
    context.coreOffset + context.threadCount < 2 ^ 64 := by
  obtain ⟨haccepted, hoffset, hthreads⟩ := create_accepted h
  have hlt := threadCountOf_lt hcores hcount
  have hcases := create_cases memory physicalCoreCount config stagingGrows memoryGrants
  rw [h] at hcases
  cases hcases with
  | created _ hgranted =>
    have hwork : word ((threadCountOf physicalCoreCount config + 1) * workBytes) < 2 ^ 63 :=
      hgranted.size_lt (by simp [requestSizes])
    by_contra hwraps
    have hcoreOffset : context.coreOffset < physicalCoreCount := hoffset ▸ haccepted.1
    rw [hthreads] at hwraps
    have hpos : 0 < threadCountOf physicalCoreCount config := by omega
    have hthread : word (threadCountOf physicalCoreCount config * threadBytes) < 2 ^ 63 :=
      hgranted.size_lt (by simp [requestSizes, hpos])
    simp only [word, workBytes, threadBytes] at hwork hthread
    omega

/-- The gate is exact unless the checked sum wraps. -/
theorem config_gate_exact_iff (hcores : physicalCoreCount < 2 ^ 32)
    (hcount : config.elim 0 Config.workerCount < 2 ^ 64) :
    (Accepted physicalCoreCount config →
        GateExact physicalCoreCount (coreOffsetOf config)
          (threadCountOf physicalCoreCount config)) ↔
      ¬ (coreOffsetOf config < physicalCoreCount ∧
        2 ^ 64 ≤ coreOffsetOf config + threadCountOf physicalCoreCount config) := by
  rw [accepted_iff hcores hcount]
  constructor
  · rintro hexact ⟨hoffset, hwraps⟩
    have hfits := (hexact ⟨hoffset, .inr hwraps⟩).fits
    omega
  · rintro hno ⟨hoffset, hfits | hwraps⟩
    · exact gateExact_of_fits hcores hfits
    · exact absurd ⟨hoffset, hwraps⟩ hno

end Gate

/-- A small offset with a worker count that makes the checked sum wrap to 0 on four cores. -/
theorem config_gate_wraps :
    Accepted 4 (some ⟨1, 0, true, 2 ^ 64 - 1⟩) ∧
      ¬ GateExact 4 (coreOffsetOf (some ⟨1, 0, true, 2 ^ 64 - 1⟩))
        (threadCountOf 4 (some ⟨1, 0, true, 2 ^ 64 - 1⟩)) := by
  refine ⟨⟨by decide, by decide⟩, ?_⟩
  intro hexact
  exact absurd hexact.fits (by decide)

/-- The default configuration on four cores. -/
theorem config_gate_exact_default :
    Accepted 4 none ∧ GateExact 4 (coreOffsetOf none) (threadCountOf 4 none) := by
  have haccepted : Accepted 4 none := ⟨by decide, by decide⟩
  exact ⟨haccepted, (config_gate_exact_iff (by norm_num) (by decide)).2 (by decide) haccepted⟩

/-! ### Isolation of the threads -/

section Isolation

open Platform

/-- The core ids of the CPUs that the threads are pinned to, in the order of `pinnedCores`;
`none` for a thread that is not pinned. -/
def pinnedCoreIds (files : ℕ → CpuFile) (setAffinity : ℕ → Bool) (coreOffset threadCount : ℕ) :
    List (Option ℕ) :=
  (pinnedCores coreOffset threadCount).map fun core =>
    (pinCurrentThreadToPhysicalCore files setAffinity core).selected.bind fun cpu =>
      coreIdOf (files cpu)

/-- Every thread is pinned, and no two of them to CPUs of one core. -/
structure Isolated (files : ℕ → CpuFile) (setAffinity : ℕ → Bool)
    (coreOffset threadCount : ℕ) : Prop where
  pinned : none ∉ pinnedCoreIds files setAffinity coreOffset threadCount
  apart : (pinnedCoreIds files setAffinity coreOffset threadCount).Nodup

variable {files : ℕ → CpuFile} {setAffinity : ℕ → Bool} {coreOffset threadCount : ℕ}

lemma pinnedCoreIds_eq (files : ℕ → CpuFile) (setAffinity : ℕ → Bool)
    (coreOffset threadCount : ℕ) :
    pinnedCoreIds files setAffinity coreOffset threadCount =
      (pinnedCores coreOffset threadCount).map fun core => (distinctCoreIds files)[core]? := by
  refine List.map_congr_left ?_
  intro core _
  rw [selected_eq]
  rcases hcpu : (coreCpus files)[core]? with _ | cpu
  · have hle := List.length_filterMap_le (fun c => coreIdOf (files c)) (coreCpus files)
    rw [filterMap_coreCpus] at hle
    exact (List.getElem?_eq_none (hle.trans (List.getElem?_eq_none_iff.1 hcpu))).symm
  · exact coreId_of_coreCpus hcpu

/-- A pinned main thread has found its core. -/
lemma Isolated.coreOffset_lt (h : Isolated files setAffinity coreOffset threadCount) :
    coreOffset < (distinctCoreIds files).length := by
  by_contra hge
  refine h.pinned ?_
  rw [pinnedCoreIds_eq, pinnedCores, List.map_cons, List.getElem?_eq_none (not_lt.1 hge)]
  exact List.mem_cons_self ..

/-- With a core for each thread in exact integers, the threads are isolated. -/
lemma isolated_of_fits (setAffinity : ℕ → Bool)
    (hfits : coreOffset + threadCount < (coreCpus files).length) :
    Isolated files setAffinity coreOffset threadCount := by
  have hcores : (coreCpus files).length < 2 ^ 32 :=
    (length_coreCpus_le files).trans_lt (by decide)
  have hgate := gateExact_of_fits hcores hfits
  have hselected (core : ℕ) (hcore : core ∈ pinnedCores coreOffset threadCount) :
      ∃ cpu, (coreCpus files)[core]? = some cpu :=
    ⟨_, List.getElem?_eq_getElem (hgate.cores_lt core hcore)⟩
  constructor
  · intro hnone
    obtain ⟨core, hcore, heq⟩ := List.mem_map.1 hnone
    obtain ⟨cpu, hcpu⟩ := hselected core hcore
    obtain ⟨id, hcarries, -⟩ := first_of_mem_coreCpus (List.mem_of_getElem? hcpu)
    rw [selected_eq, hcpu, Option.bind_some, hcarries.1] at heq
    cases heq
  · refine List.Nodup.map_on ?_ hgate.cores_nodup
    intro core hcore core' hcore' heq
    by_contra hne
    obtain ⟨cpu, hcpu⟩ := hselected core hcore
    obtain ⟨cpu', hcpu'⟩ := hselected core' hcore'
    rw [selected_eq, selected_eq, hcpu, hcpu'] at heq
    exact coreId_ne_of_ne hne hcpu hcpu' heq

/-- The threads of a context have a core each, unless the scans visit no CPU with a core
id.  A checked sum that wraps passes the checks, but leads to no context. -/
theorem threads_isolated_iff {memory memory' : Memory} {detected : ℤ} {config : Option Config}
    {stagingGrows memoryGrants : ℕ → Bool} {context : Context}
    (hcount : config.elim 0 Config.workerCount < 2 ^ 64)
    (hcreate : create memory (getPhysicalCoreCount files detected) config stagingGrows
      memoryGrants = (some context, memory')) (setAffinity : ℕ → Bool) :
    Isolated files setAffinity context.coreOffset context.threadCount ↔
      ∃ cpu < maxCpus, ∃ id, Carries files cpu id := by
  constructor
  · intro h
    have hoffset := h.coreOffset_lt
    by_contra hnone
    push Not at hnone
    have hnil := coreCpus_eq_nil_iff.2 hnone
    rw [← filterMap_coreCpus, hnil] at hoffset
    cases hoffset
  · intro hcore
    have hcores : getPhysicalCoreCount files detected < 2 ^ 32 := by
      rw [getPhysicalCoreCount_eq hcore]
      exact (length_coreCpus_le files).trans_lt (by decide)
    have hsum := create_sum_lt hcores hcount hcreate
    obtain ⟨haccepted, hoffset, hthreads⟩ := create_accepted hcreate
    refine isolated_of_fits setAffinity ?_
    rw [← getPhysicalCoreCount_eq hcore detected]
    rw [hoffset, hthreads] at hsum ⊢
    rcases ((accepted_iff hcores hcount).1 haccepted).2 with hfits | hwraps
    · exact hfits
    · exact absurd hwraps hsum.not_ge

/-- Two cores with two CPUs each. -/
def twoCores (cpu : ℕ) : CpuFile :=
  [.coreId 7, .coreId 7, .coreId 3, .coreId 3].getD cpu .missing

/-- The main thread gets the first core and the worker the second. -/
theorem threads_isolated_iff_pairs :
    ∃ context memory',
      create ⟨fun _ => true, 0, 0, [], []⟩ (getPhysicalCoreCount twoCores 4) none (fun _ => false)
        (fun _ => true) = (some context, memory') ∧
      pinnedCoreIds twoCores (fun _ => true) context.coreOffset context.threadCount =
        [some 7, some 3] ∧
      Isolated twoCores (fun _ => true) context.coreOffset context.threadCount := by
  have hcore : ∃ cpu < maxCpus, ∃ id, Carries twoCores cpu id := by
    refine ⟨0, by decide, 7, by decide, ?_⟩
    intro c hc
    obtain rfl := Nat.le_zero.1 hc
    decide
  have hcores : getPhysicalCoreCount twoCores 4 = 2 := by
    rw [getPhysicalCoreCount_eq hcore]
    decide
  obtain ⟨context, memory', hcreate, hoffset, hthreads⟩ : ∃ context memory',
      create ⟨fun _ => true, 0, 0, [], []⟩ 2 none (fun _ => false) (fun _ => true) =
        (some context, memory') ∧ context.coreOffset = 0 ∧ context.threadCount = 1 :=
    ⟨_, _, rfl, rfl, rfl⟩
  rw [← hcores] at hcreate
  refine ⟨context, memory', hcreate, ?_, ?_⟩
  · rw [pinnedCoreIds_eq, hoffset, hthreads]
    decide
  · exact (threads_isolated_iff (by decide) hcreate _).2 hcore

end Isolation

end BcConcurrency.Pool
