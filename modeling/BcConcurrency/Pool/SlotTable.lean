import BcConcurrency.Pool.Creation
import BcConcurrency.Pool.Registration

/-!
# The table of slots

A context with `slot_count` slots has as many configurations, and each worker has as
many data blocks.  Behind them an array may hold what a failed registration has left:
a configuration that does not count, or a null entry.  A registration either leaves the
table as it was, or adds one configuration and one block for each worker.
-/

namespace BcConcurrency.Pool

/-- The configurations of the slots of a context, and for each worker the data of its
slots. -/
structure Context.Table (context : Context) (configs : List SlotConfig)
    (datas : List (List ℕ)) : Prop where
  count : context.slotCount = configs.length
  stored : configs <+: context.slotConfigs.elim [] ConfigArray.entries
  absent : context.slotConfigs = none → context.slotCapacity = 0
  workers : List.Forall₂ Worker.Holds context.workers datas
  length : ∀ data ∈ datas, data.length = configs.length
  effective : datas.length = context.threadCount + 1

/-- The block of slot `s` of worker `w`. -/
def dataOf (datas : List (List ℕ)) (w s : ℕ) : Option ℕ := (datas[w]?).bind fun data => data[s]?

/-- The configuration of a slot. -/
def Context.slotConfig (context : Context) (s : ℕ) : Option SlotConfig :=
  (context.slotConfigs.elim [] ConfigArray.entries)[s]?

lemma getElem?_of_isPrefix {α : Type*} {l l' : List α} (h : l <+: l') {i : ℕ} (hi : i < l.length) :
    l'[i]? = l[i]? :=
  (List.prefix_iff_getElem?.mp h i hi).trans (List.getElem?_eq_getElem hi).symm

namespace Context

variable {context context' : Context} {configs : List SlotConfig} {datas : List (List ℕ)}
  {memory memory' : Memory} {config : SlotConfig} {foreign : Multiset ℕ}

/-! ### Reading the table -/

/-- The pointers to the data are those of the table. -/
lemma Table.slotPointer (htable : context.Table configs datas) (w s : ℕ) :
    context.slotPointer w s = dataOf datas w s := by
  have hworkers := htable.workers
  rw [Context.slotPointer]
  clear htable
  generalize context.workers = workers at hworkers
  induction hworkers generalizing w with
  | nil => rfl
  | cons hholds _ ih =>
    cases w with
    | zero => exact hholds.entry s
    | succ w => exact ih w

lemma Table.slotConfig (htable : context.Table configs datas) {s : ℕ} (hs : s < configs.length) :
    context.slotConfig s = configs[s]? := by
  exact getElem?_of_isPrefix htable.stored hs

/-- Each worker has a block for each slot. -/
lemma Table.exists_dataOf (htable : context.Table configs datas) {w s : ℕ}
    (hw : w ≤ context.threadCount) (hs : s < context.slotCount) :
    ∃ d, dataOf datas w s = some d := by
  have hlen : w < datas.length := by
    rw [htable.effective]
    omega
  have hs' : s < datas[w].length := by
    rwa [htable.length _ (List.getElem_mem hlen), ← htable.count]
  exact ⟨datas[w][s], by simp [dataOf, hlen, hs']⟩

lemma mem_flatten_of_dataOf {w s d : ℕ} (hd : dataOf datas w s = some d) : d ∈ datas.flatten := by
  obtain ⟨data, hdata, hs⟩ := Option.bind_eq_some_iff.mp hd
  exact List.mem_flatten.mpr ⟨data, List.mem_of_getElem? hdata, List.mem_of_getElem? hs⟩

/-- The blocks of the slots are among those of the workers. -/
lemma flatten_le_workersBlocks {workers : List Worker}
    (hholds : List.Forall₂ Worker.Holds workers datas) :
    (datas.flatten : Multiset ℕ) ≤ workersBlocks workers := by
  induction hholds with
  | nil => exact le_rfl
  | cons hworker _ ih =>
    rw [List.flatten_cons, ← Multiset.coe_add, workersBlocks_cons]
    refine add_le_add ?_ ih
    cases hworker with
    | empty => exact Multiset.zero_le _
    | array block data k =>
      rw [Worker.blocks_array]
      exact Multiset.le_add_left _ _

lemma Table.flatten_le (htable : context.Table configs datas) :
    (datas.flatten : Multiset ℕ) ≤ context.blocks :=
  (flatten_le_workersBlocks htable.workers).trans (Multiset.le_add_left _ _)

lemma Table.mem_blocks (htable : context.Table configs datas) {w s d : ℕ}
    (hd : dataOf datas w s = some d) : d ∈ context.blocks :=
  Multiset.mem_of_le htable.flatten_le (Multiset.mem_coe.mpr (mem_flatten_of_dataOf hd))

/-- Different slots and different workers have different blocks. -/
lemma Table.dataOf_inj (htable : context.Table configs datas) (hnodup : context.blocks.Nodup)
    {w w' s s' d : ℕ} (hd : dataOf datas w s = some d) (hd' : dataOf datas w' s' = some d) :
    w = w' ∧ s = s' := by
  have hflat : datas.flatten.Nodup :=
    Multiset.coe_nodup.mp (Multiset.nodup_of_le htable.flatten_le hnodup)
  rw [List.nodup_flatten, List.pairwise_iff_getElem] at hflat
  obtain ⟨data, hdata, hs⟩ := Option.bind_eq_some_iff.mp hd
  obtain ⟨data', hdata', hs'⟩ := Option.bind_eq_some_iff.mp hd'
  obtain ⟨hw, rfl⟩ := List.getElem?_eq_some_iff.mp hdata
  obtain ⟨hw', rfl⟩ := List.getElem?_eq_some_iff.mp hdata'
  rcases lt_trichotomy w w' with hlt | rfl | hgt
  · exact absurd (List.mem_of_getElem? hs') (hflat.2 w w' hw hw' hlt (List.mem_of_getElem? hs))
  · obtain ⟨hlt, rfl⟩ := List.getElem?_eq_some_iff.mp hs
    obtain ⟨hlt', heq⟩ := List.getElem?_eq_some_iff.mp hs'
    exact ⟨rfl, ((hflat.1 _ (List.getElem_mem hw)).getElem_inj_iff.mp heq).symm⟩
  · exact absurd (List.mem_of_getElem? hs) (hflat.2 w' w hw' hw hgt (List.mem_of_getElem? hs'))

lemma Table.of_fresh (hfresh : context.Fresh) :
    context.Table [] (List.replicate (context.threadCount + 1) []) where
  count := hfresh.slotCount
  stored := List.nil_prefix
  absent := fun _ => hfresh.slotCapacity
  workers := by
    rw [hfresh.workers, List.forall₂_iff_get]
    refine ⟨by simp, ?_⟩
    intro i h₁ h₂
    simp only [List.get_eq_getElem, List.getElem_replicate]
    exact .empty
  length := by
    intro data hdata
    rw [List.eq_of_mem_replicate hdata]
    rfl
  effective := List.length_replicate

end Context

/-! ### The blocks of the context itself -/

/-- The blocks of a context but those of its workers. -/
def Context.shellBlocks (context : Context) : Multiset ℕ :=
  {context.block} + {context.staging.block} + {context.dispatchTasks.block} +
    {context.dispatchWork} + blockOf context.threads + {context.workersBlock} +
    blockOf (context.slotConfigs.map ConfigArray.block)

lemma Context.blocks_eq (context : Context) :
    context.blocks = workersBlocks context.workers + context.shellBlocks := by
  rw [add_comm]
  rfl

/-! ### Making room for a configuration -/

/-- What making room for one more configuration does. -/
structure ConfigGrowth (context : Context) (memory : Memory) (configs : List SlotConfig)
    (datas : List (List ℕ)) (foreign : Multiset ℕ) (result : Bool × Context × Memory) : Prop where
  table : result.2.1.Table configs datas
  room : result.1 = true → result.2.1.slotConfigs.isSome
  owns : result.2.2.Owns (result.2.1.blocks + foreign)
  ext : memory.Extends result.2.2
  notes : Heap.notes result.2.2.log = Heap.notes memory.log

section Registration

variable {context : Context} {configs : List SlotConfig} {datas : List (List ℕ)}
  {memory : Memory} {config : SlotConfig} {foreign : Multiset ℕ}

lemma growSlotConfigs_spec (htable : context.Table configs datas)
    (hown : memory.Owns (context.blocks + foreign)) :
    ConfigGrowth context memory configs datas foreign (growSlotConfigs context memory) := by
  rw [growSlotConfigs]
  by_cases hfull : context.slotCount ≥ context.slotCapacity
  · rw [if_pos hfull]
    dsimp only
    generalize word ((if context.slotCapacity = 0 then slotInitialCapacity
      else word (context.slotCapacity * 2)) * slotConfigBytes) = size
    rcases halloc : memory.allocate size with ⟨_ | block, memory₁⟩
    · exact ⟨htable, by simp, hown.allocate_none halloc, .allocate halloc,
        Heap.notes_allocate halloc⟩
    have hown₁ := (hown.allocate_some halloc).2
    have hstored := htable.stored
    rcases hconfigs : context.slotConfigs with _ | old
    · -- the first array
      rw [hconfigs] at hstored
      obtain rfl : configs = [] := List.prefix_nil.mp hstored
      refine ⟨⟨htable.count, List.nil_prefix, by simp, htable.workers, htable.length,
        htable.effective⟩, by simp, ?_, .allocate halloc, Heap.notes_allocate halloc⟩
      convert hown₁ using 1
      simp only [Context.blocks, hconfigs, Option.map_some, Option.map_none, blockOf_some,
        blockOf_none]
      abel
    · -- the old array is copied and freed
      rw [hconfigs, Option.elim_some, List.prefix_iff_eq_take, ← htable.count] at hstored
      refine ⟨⟨htable.count, ?_, by simp, htable.workers, htable.length, htable.effective⟩,
        by simp, ?_, (Heap.Extends.allocate halloc).trans (.free _ _),
        (Heap.notes_free _ _).trans (Heap.notes_allocate halloc)⟩
      · dsimp only
        rw [Option.elim_some, ← hstored]
      · refine Heap.Owns.free ?_
        convert hown₁ using 1
        simp only [Context.blocks, hconfigs, Option.map_some, blockOf_some]
        abel
  · rw [if_neg hfull]
    refine ⟨htable, ?_, hown, .refl _, rfl⟩
    intro _
    dsimp only
    by_contra hnone
    have hcapacity := htable.absent (Option.not_isSome_iff_eq_none.mp hnone)
    omega

/-- The configuration is written behind those of the table. -/
lemma storeSlotConfig_spec (config : SlotConfig) (htable : context.Table configs datas)
    (hroom : context.slotConfigs.isSome) :
    (storeSlotConfig context configs.length config).Table configs datas ∧
      configs ++ [config] <+:
        (storeSlotConfig context configs.length config).slotConfigs.elim [] ConfigArray.entries ∧
      (storeSlotConfig context configs.length config).blocks = context.blocks := by
  obtain ⟨array, harray⟩ := Option.isSome_iff_exists.mp hroom
  have hstored := htable.stored
  rw [harray, Option.elim_some, List.prefix_iff_eq_take] at hstored
  have hentries : (storeSlotConfig context configs.length config).slotConfigs.elim []
      ConfigArray.entries =
        (configs ++ [config]) ++ array.entries.drop (configs.length + 1) := by
    rw [storeSlotConfig, harray, Option.map_some, Option.elim_some, ← hstored]
    simp
  have hprefix : configs ++ [config] <+:
      (storeSlotConfig context configs.length config).slotConfigs.elim [] ConfigArray.entries := by
    rw [hentries]
    exact List.prefix_append _ _
  refine ⟨⟨htable.count, (List.prefix_append _ _).trans hprefix, ?_, htable.workers,
    htable.length, htable.effective⟩, hprefix, ?_⟩
  · intro hnone
    simp [storeSlotConfig, harray] at hnone
  · simp [storeSlotConfig, Context.blocks, harray]

/-! ### A registration -/

/-- The outcomes of `bc_concurrency_register_slot`; `ds` are the new blocks. -/
inductive SlotRegistration (context : Context) (memory : Memory) (config : SlotConfig)
    (configs : List SlotConfig) (datas : List (List ℕ)) (foreign : Multiset ℕ) :
    Option ℕ × Context × Memory → Prop
  | refused {context' : Context} {memory' : Memory} (ds : List ℕ)
      (htable : context'.Table configs datas) (hown : memory'.Owns (context'.blocks + foreign))
      (hext : memory.Extends memory')
      (hnotes : Heap.notes memory'.log = Heap.notes memory.log ++ setupAll config 0 ds)
      (hfreed : ∀ d ∈ ds, memory.requests ≤ d ∧ d ∈ Heap.freedBlocks memory'.log)
      (hgrants : memory.grantsAll (slotRequests context config) = false)
      (hfirst : ds ≠ [] ↔ memory.grantsAll (firstRequests context config) = true) :
      SlotRegistration context memory config configs datas foreign (none, context', memory')
  | registered {context' : Context} {memory' : Memory} (ds : List ℕ)
      (hlen : ds.length = datas.length)
      (htable : context'.Table (configs ++ [config])
        (List.zipWith (fun data d => data ++ [d]) datas ds))
      (hown : memory'.Owns (context'.blocks + foreign)) (hext : memory.Extends memory')
      (hnotes : Heap.notes memory'.log = Heap.notes memory.log ++ setupAll config 0 ds)
      (hnew : ∀ d ∈ ds, memory.requests ≤ d ∧ .allocated d config.size ∈ memory'.log)
      (hgrants : memory.grantsAll (slotRequests context config) = true) :
      SlotRegistration context memory config configs datas foreign
        (some configs.length, context', memory')

/-- Whichever request is refused, a registration leaves the table as it was or extends it. -/
theorem registerSlot_spec (htable : context.Table configs datas)
    (hown : memory.Owns (context.blocks + foreign)) :
    SlotRegistration context memory config configs datas foreign
      (registerSlot context memory config) := by
  have hgrow := growSlotConfigs_spec htable hown
  have hsizes := grantsAll_growSlotConfigs context memory
  have hworkers : (growSlotConfigs context memory).2.1.workers = context.workers := by
    obtain ⟨_, _, hframe⟩ := growSlotConfigs_frame context memory
    rw [hframe]
  rw [registerSlot, htable.count]
  generalize growSlotConfigs context memory = grown at hgrow hsizes hworkers
  rcases grown with ⟨_ | _, context₁, memory₁⟩
  · exact .refused [] hgrow.table hgrow.owns hgrow.ext (by simpa [setupAll] using hgrow.notes)
      (by simp) (hsizes _) (by simp [firstRequests, hsizes])
  obtain ⟨htable₂, hstored, hblocks⟩ :=
    storeSlotConfig_spec config hgrow.table (hgrow.room rfl)
  have hworkers₂ : (storeSlotConfig context₁ configs.length config).workers = context.workers :=
    hworkers
  have hown₂ := hgrow.owns
  dsimp only at hown₂ hstored htable₂ hblocks ⊢
  rw [← hblocks, Context.blocks_eq, add_assoc] at hown₂
  generalize storeSlotConfig context₁ configs.length config = context₂ at *
  obtain ⟨ds, hloop⟩ :=
    registerWorkers_spec config 0 htable₂.workers htable₂.length hown₂
  have hall : memory.grantsAll (slotRequests context config) =
      (registerWorkers config configs.length 0 context₂.workers memory₁).1 := by
    rw [slotRequests, hsizes, Bool.true_and, ← hworkers₂, htable.count]
    exact grantsAll_registerWorkers 0 _ _
  -- there is always a first worker: the main thread has a slot too
  have hfirst : ds ≠ [] ↔ memory.grantsAll (firstRequests context config) = true := by
    obtain ⟨worker, workers, hcons⟩ : ∃ worker workers, context₂.workers = worker :: workers := by
      refine List.exists_cons_of_length_pos ?_
      rw [htable₂.workers.length_eq, htable₂.effective]
      exact Nat.succ_pos _
    have hcompleted := hloop.completed
    rw [hcons] at hcompleted
    rw [firstRequests, hsizes, Bool.true_and, htable.count, ← lt_completed_iff 0 worker workers,
      hcompleted, Nat.zero_add, List.length_pos_iff]
  generalize registerWorkers config configs.length 0 context₂.workers memory₁ = result at hloop hall
  rcases result with ⟨_ | _, completed, workers, memory₂⟩
  · -- a request was refused: the new data are freed
    obtain rfl : completed = ds.length := hloop.completed.trans (Nat.zero_add _)
    obtain ⟨hholds, hown₃, hlog, hext⟩ :=
      rollbackWorkers_spec hloop.workers htable₂.length hloop.owns
    dsimp only at hholds hown₃ hlog hext ⊢
    refine .refused ds ⟨htable₂.count, htable₂.stored, htable₂.absent, hholds, htable₂.length,
      htable₂.effective⟩ ?_ ((hgrow.ext.trans hloop.ext).trans hext) ?_ (fun d hd => ⟨?_, ?_⟩) hall hfirst
    · rwa [Context.blocks_eq, add_assoc]
    · have hnone : Heap.notes (ds.map (HeapEvent.freed (ε := PoolEvent))) = [] := by
        simp [Heap.notes, List.filterMap_map]
      rw [hlog, Heap.notes_append, hnone, List.append_nil, hloop.notes, hgrow.notes]
    · exact hgrow.ext.requests.trans (hloop.new d hd).1
    · rw [hlog, Heap.freedBlocks_append, List.mem_append]
      refine Or.inr ?_
      simpa [Heap.freedBlocks, List.filterMap_map, Function.comp_def] using hd
  · -- all workers have got their data
    have hlen := hloop.ok.mp rfl
    dsimp only
    refine .registered ds hlen ⟨by simp, hstored, htable₂.absent, hloop.workers.holds hlen, ?_, ?_⟩
      ?_ (hgrow.ext.trans hloop.ext) (by rw [hloop.notes, hgrow.notes]) ?_ hall
    · intro data hdata
      obtain ⟨i, hi, rfl⟩ := List.mem_iff_getElem.mp hdata
      rw [List.getElem_zipWith, List.length_append, List.length_append,
        htable₂.length _ (List.getElem_mem _)]
      rfl
    · rw [List.length_zipWith, hlen, min_self]
      exact htable₂.effective
    · have hown₃ := hloop.owns
      rwa [Context.blocks_eq, add_assoc]
    · intro d hd
      obtain ⟨hle, hlog⟩ := hloop.new d hd
      exact ⟨hgrow.ext.requests.trans hle, hlog⟩

end Registration

end BcConcurrency.Pool
