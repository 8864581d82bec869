import BcConcurrency.Pool.Session
import BcConcurrency.Pool.SlotTable

/-!
# A context owns its blocks

After a successful creation, and after any sequence of calls with whatever requests the
pool refuses, the blocks in use are those that the context refers to, each of them
referred to once.  The blocks of a slot stay where they are from its registration on, and
`bc_concurrency_destroy` gives all blocks of the context back.
-/

namespace BcConcurrency.Pool

/-! ### Calls that leave the slots alone -/

/-- A call may replace blocks of the context, but not those of its slots. -/
structure Host.Keeps (host host' : Host) : Prop where
  slotCount : host'.context.slotCount = host.context.slotCount
  slotConfigs : host'.context.slotConfigs = host.context.slotConfigs
  slotCapacity : host'.context.slotCapacity = host.context.slotCapacity
  workers : host'.context.workers = host.context.workers
  threadCount : host'.context.threadCount = host.context.threadCount
  owns : ∀ foreign, host.memory.Owns (host.context.blocks + foreign) →
    host'.memory.Owns (host'.context.blocks + foreign)
  ext : host.memory.Extends host'.memory
  notes : Heap.notes host'.memory.log = Heap.notes host.memory.log

namespace Host.Keeps

variable {host host' host'' : Host}

protected lemma refl (host : Host) : host.Keeps host :=
  ⟨rfl, rfl, rfl, rfl, rfl, fun _ => id, .refl _, rfl⟩

protected lemma trans (h : host.Keeps host') (h' : host'.Keeps host'') : host.Keeps host'' where
  slotCount := h'.slotCount.trans h.slotCount
  slotConfigs := h'.slotConfigs.trans h.slotConfigs
  slotCapacity := h'.slotCapacity.trans h.slotCapacity
  workers := h'.workers.trans h.workers
  threadCount := h'.threadCount.trans h.threadCount
  owns := fun foreign hown => h'.owns foreign (h.owns foreign hown)
  ext := h.ext.trans h'.ext
  notes := h'.notes.trans h.notes

lemma table (h : host.Keeps host') {configs : List SlotConfig} {datas : List (List ℕ)}
    (htable : host.context.Table configs datas) : host'.context.Table configs datas where
  count := h.slotCount.trans htable.count
  stored := by
    rw [h.slotConfigs]
    exact htable.stored
  absent := by
    rw [h.slotConfigs, h.slotCapacity]
    exact htable.absent
  workers := by
    rw [h.workers]
    exact htable.workers
  length := htable.length
  effective := by
    rw [h.threadCount]
    exact htable.effective

end Host.Keeps

lemma push_keeps (context : Context) (memory : Memory) (entry : TaskEntry) :
    Host.Keeps ⟨context, memory⟩
      ⟨{ context with staging := (context.staging.push memory entry).2.1 },
        (context.staging.push memory entry).2.2⟩ := by
  rw [Staging.push]
  dsimp only
  split
  · exact ⟨rfl, rfl, rfl, rfl, rfl, fun _ => id, .refl _, rfl⟩
  split
  · rcases halloc : memory.allocate (taskEntryBytes * (context.staging.data.length + 1)) with
      ⟨_ | block, memory₁⟩
    · exact ⟨rfl, rfl, rfl, rfl, rfl, fun _ hown => hown.allocate_none halloc, .allocate halloc,
        Heap.notes_allocate halloc⟩
    · refine ⟨rfl, rfl, rfl, rfl, rfl, ?_,
        (Heap.Extends.allocate halloc).trans (.free _ _),
        (Heap.notes_free _ _).trans (Heap.notes_allocate halloc)⟩
      intro foreign hown
      refine Heap.Owns.free ?_
      convert (hown.allocate_some halloc).2 using 1
      simp only [Context.blocks]
      abel
  · exact ⟨rfl, rfl, rfl, rfl, rfl, fun _ => id, .refl _, rfl⟩

lemma pushAll_keeps (taskFunction : ℕ) (taskArguments : List ℕ) (context : Context)
    (memory : Memory) :
    Host.Keeps ⟨context, memory⟩
      ⟨{ context with
          staging := (pushAll taskFunction taskArguments context.staging memory).2.1 },
        (pushAll taskFunction taskArguments context.staging memory).2.2⟩ := by
  induction taskArguments generalizing context memory with
  | nil => exact .refl _
  | cons taskArgument taskArguments ih =>
    have hpush := push_keeps context memory (.task taskFunction taskArgument)
    rw [pushAll]
    generalize context.staging.push memory (.task taskFunction taskArgument) = pushed at hpush ⊢
    rcases pushed with ⟨_ | _, staging, memory₁⟩
    · exact hpush
    · exact hpush.trans (ih { context with staging := staging } memory₁)

lemma growDispatchTasks_keeps {context context' : Context} {memory memory' : Memory} {n : ℕ}
    {ok : Bool} (h : growDispatchTasks context memory n = (ok, context', memory')) :
    Host.Keeps ⟨context, memory⟩ ⟨context', memory'⟩ := by
  rw [growDispatchTasks] at h
  split at h
  · dsimp only at h
    split at h
    case h_1 memory₁ halloc =>
      cases h
      exact ⟨rfl, rfl, rfl, rfl, rfl, fun _ hown => hown.allocate_none halloc, .allocate halloc,
        Heap.notes_allocate halloc⟩
    case h_2 block memory₁ halloc =>
      cases h
      refine ⟨rfl, rfl, rfl, rfl, rfl, ?_,
        (Heap.Extends.allocate halloc).trans (.free _ _),
        (Heap.notes_free _ _).trans (Heap.notes_allocate halloc)⟩
      intro foreign hown
      refine Heap.Owns.free ?_
      convert (hown.allocate_some halloc).2 using 1
      simp only [Context.blocks]
      abel
  · cases h
    exact .refl _

/-- A field that is no block was written. -/
lemma keeps_of_eq {context context' : Context} {memory : Memory}
    (hslotCount : context'.slotCount = context.slotCount)
    (hslotConfigs : context'.slotConfigs = context.slotConfigs)
    (hslotCapacity : context'.slotCapacity = context.slotCapacity)
    (hworkers : context'.workers = context.workers)
    (hthreadCount : context'.threadCount = context.threadCount)
    (hblocks : context'.blocks = context.blocks) :
    Host.Keeps ⟨context, memory⟩ ⟨context', memory⟩ :=
  ⟨hslotCount, hslotConfigs, hslotCapacity, hworkers, hthreadCount,
    fun foreign hown => by rwa [hblocks], .refl _, rfl⟩

/-- Only a registration touches the slots. -/
lemma run_keeps (host : Host) (call : Call) (hcall : ∀ config, call ≠ .registerSlot config) :
    host.Keeps (call.run host).host := by
  obtain ⟨context, memory⟩ := host
  cases call with
  | registerSlot config => exact absurd rfl (hcall config)
  | submit taskFunction taskArgument => exact push_keeps context memory _
  | submitBatch taskFunction taskArguments =>
    simp only [Call.run, submitBatch]
    split
    · exact .refl _
    · exact pushAll_keeps taskFunction taskArguments context memory
  | dispatchAndWait spawn =>
    have hspawned : Host.Keeps ⟨context, memory⟩ ⟨{ context with workersSpawned := true }, memory⟩ :=
      keeps_of_eq rfl rfl rfl rfl rfl rfl
    have hcases := dispatchAndWait_cases ⟨context, memory⟩ spawn
    rw [Call.run]
    generalize dispatchAndWait ⟨context, memory⟩ spawn = o at hcases
    cases hcases with
    | empty | spawnFailed => exact .refl _
    | inline => exact keeps_of_eq rfl rfl rfl rfl rfl rfl
    | refused _ _ _ hgrow => exact hspawned.trans (growDispatchTasks_keeps hgrow)
    | round _ _ _ hgrow =>
      exact (hspawned.trans (growDispatchTasks_keeps hgrow)).trans
        (keeps_of_eq rfl rfl rfl rfl rfl rfl)
  | parallelFor range spawn =>
    have hspawned : Host.Keeps ⟨context, memory⟩ ⟨{ context with workersSpawned := true }, memory⟩ :=
      keeps_of_eq rfl rfl rfl rfl rfl rfl
    have hcases := parallelFor_cases ⟨context, memory⟩ range spawn
    rw [Call.run]
    generalize parallelFor ⟨context, memory⟩ range spawn = o at hcases
    cases hcases with
    | zeroStep | empty | inline | spawnFailed => exact .refl _
    | refused _ _ _ _ _ halloc =>
      refine hspawned.trans ⟨rfl, rfl, rfl, rfl, rfl, fun _ hown => hown.allocate_none halloc,
        .allocate halloc, Heap.notes_allocate halloc⟩
    | round _ _ _ _ _ halloc =>
      -- the block of the chunks is given back before the call returns
      refine hspawned.trans ⟨rfl, rfl, rfl, rfl, rfl, ?_,
        (Heap.Extends.allocate halloc).trans (.free _ _),
        (Heap.notes_free _ _).trans (Heap.notes_allocate halloc)⟩
      intro foreign hown
      exact Heap.Owns.free (hown.allocate_some halloc).2

/-! ### Sequences of calls -/

/-- The context of a host has a table of slots and owns its blocks. -/
def Host.Tabled (host : Host) (configs : List SlotConfig) (datas : List (List ℕ))
    (foreign : Multiset ℕ) : Prop :=
  host.context.Table configs datas ∧ host.memory.Owns (host.context.blocks + foreign)

/-- A table to which slots were added. -/
structure TableExtends (configs configs' : List SlotConfig) (datas datas' : List (List ℕ)) :
    Prop where
  configs : configs <+: configs'
  data : ∀ w s d, dataOf datas w s = some d → dataOf datas' w s = some d

namespace TableExtends

variable {configs configs' configs'' : List SlotConfig} {datas datas' datas'' : List (List ℕ)}

protected lemma refl (configs : List SlotConfig) (datas : List (List ℕ)) :
    TableExtends configs configs datas datas :=
  ⟨List.prefix_rfl, fun _ _ _ => id⟩

protected lemma trans (h : TableExtends configs configs' datas datas')
    (h' : TableExtends configs' configs'' datas' datas'') :
    TableExtends configs configs'' datas datas'' :=
  ⟨h.configs.trans h'.configs, fun w s d hd => h'.data w s d (h.data w s d hd)⟩

/-- Every worker has got one more block. -/
lemma registered (config : SlotConfig) {ds : List ℕ} (hlen : ds.length = datas.length) :
    TableExtends configs (configs ++ [config]) datas
      (List.zipWith (fun data d => data ++ [d]) datas ds) := by
  refine ⟨List.prefix_append _ _, ?_⟩
  intro w s d hd
  obtain ⟨data, hdata, hs⟩ := Option.bind_eq_some_iff.mp hd
  obtain ⟨hw, rfl⟩ := List.getElem?_eq_some_iff.mp hdata
  have hds : w < ds.length := hlen ▸ hw
  rw [dataOf, List.getElem?_zipWith, hdata, List.getElem?_eq_getElem hds]
  obtain ⟨hlt, -⟩ := List.getElem?_eq_some_iff.mp hs
  exact (List.getElem?_append_left hlt).trans hs

end TableExtends

section Calls

variable {host : Host} {configs : List SlotConfig} {datas : List (List ℕ)} {foreign : Multiset ℕ}

/-- Every call keeps the table of slots or extends it. -/
lemma Host.Tabled.run (htabled : host.Tabled configs datas foreign) (call : Call) :
    ∃ configs' datas', (call.run host).host.Tabled configs' datas' foreign ∧
      TableExtends configs configs' datas datas' := by
  by_cases hcall : ∃ config, call = .registerSlot config
  · obtain ⟨config, rfl⟩ := hcall
    have hspec : SlotRegistration _ _ config configs datas foreign _ :=
      registerSlot_spec htabled.1 htabled.2
    rw [Call.run]
    generalize registerSlot host.context host.memory config = result at hspec
    cases hspec with
    | refused ds htable hown => exact ⟨configs, datas, ⟨htable, hown⟩, .refl _ _⟩
    | registered ds hlen htable hown =>
      exact ⟨_, _, ⟨htable, hown⟩, .registered config hlen⟩
  · have hkeeps := run_keeps host call fun config heq => hcall ⟨config, heq⟩
    exact ⟨configs, datas, ⟨hkeeps.table htabled.1, hkeeps.owns _ htabled.2⟩, .refl _ _⟩

lemma Host.Tabled.after (htabled : host.Tabled configs datas foreign) (calls : List Call) :
    ∃ configs' datas', (host.after calls).Tabled configs' datas' foreign ∧
      TableExtends configs configs' datas datas' := by
  induction calls generalizing host configs datas with
  | nil => exact ⟨configs, datas, htabled, .refl _ _⟩
  | cons call calls ih =>
    obtain ⟨configs₁, datas₁, htabled₁, hext₁⟩ := htabled.run call
    obtain ⟨configs₂, datas₂, htabled₂, hext₂⟩ := ih htabled₁
    exact ⟨configs₂, datas₂, htabled₂, hext₁.trans hext₂⟩

/-- A fresh context has an empty table. -/
lemma tabled_of_create {memory memory' : Memory} {physicalCoreCount : ℕ}
    {config : Option Config} {stagingGrows memoryGrants : ℕ → Bool} {context : Context}
    (hcreate : create memory physicalCoreCount config stagingGrows memoryGrants =
      (some context, memory'))
    (hown : memory.Owns foreign) :
    Host.Tabled ⟨context, memory'⟩ [] (List.replicate (context.threadCount + 1) []) foreign :=
  ⟨.of_fresh (create_ok hcreate).1, (create_ok hcreate).2 foreign hown⟩

end Calls

/-! ### Destruction -/

section Destroy

variable {configs : List SlotConfig} {entries : List (Option ℕ)} {data : List ℕ} {i : ℕ}
  {memory : Memory}

lemma releaseSlot_releases {s d : ℕ} (hentry : (entries[s]?).join = some d) :
    memory.Releases (releaseSlot configs entries i s memory) {d} := by
  rw [releaseSlot, hentry]
  dsimp only
  rcases configs[s]? with _ | config
  · exact .free _ _
  · dsimp only
    split
    · simpa using (Heap.Releases.note memory _).trans (.free _ d)
    · exact .free _ _

/-- The slots of a worker are released, the last one first. -/
lemma releaseSlots_releases (hentries : ∀ s : ℕ, (entries[s]?).join = data[s]?) {count : ℕ}
    (hcount : count ≤ data.length) :
    memory.Releases (releaseSlots configs entries i count memory) (data.take count) := by
  induction count generalizing memory with
  | zero => exact .refl _
  | succ s ih =>
    have hs : s < data.length := hcount
    have hentry : (entries[s]?).join = some data[s] := by
      rw [hentries, List.getElem?_eq_getElem hs]
    have hfirst : memory.Releases (releaseSlot configs entries i s memory) {data[s]} :=
      releaseSlot_releases hentry
    have htake : (data.take (s + 1) : Multiset ℕ) = {data[s]} + (data.take s : Multiset ℕ) := by
      rw [List.take_succ_eq_append_getElem hs, ← Multiset.coe_add, add_comm]
      rfl
    rw [releaseSlots, htake]
    exact hfirst.trans (ih (by omega))

lemma releaseWorker_releases {worker : Worker} (hholds : worker.Holds data) :
    memory.Releases (releaseWorker configs data.length i worker memory) worker.blocks := by
  rw [releaseWorker]
  have hnotes (memory' : Memory) : memory'.Releases
      ((memory'.note (.syncDestroyed i)).note (.memoryDestroyed i)) 0 := by
    simpa using (Heap.Releases.note memory' _).trans (.note _ _)
  cases hholds with
  | empty => exact hnotes _
  | array block data k hk =>
    have hentries := (Worker.Holds.array block data k hk).entry
    have hslots : memory.Releases (releaseSlots configs _ i data.length memory) _ :=
      releaseSlots_releases hentries le_rfl
    have hall := (hslots.trans (.free _ block)).trans (hnotes _)
    rw [List.take_length, add_zero, add_comm] at hall
    rw [Worker.blocks_array]
    exact hall

lemma releaseWorkers_releases {slotCount : ℕ} {workers : List Worker} {datas : List (List ℕ)}
    (hholds : List.Forall₂ Worker.Holds workers datas)
    (hlen : ∀ data ∈ datas, data.length = slotCount) :
    memory.Releases (releaseWorkers configs slotCount i workers memory) (workersBlocks workers) := by
  induction hholds generalizing i memory with
  | nil => exact .refl _
  | @cons worker data workers datas hworker _ ih =>
    have hfirst : memory.Releases (releaseWorker configs data.length i worker memory) _ :=
      releaseWorker_releases hworker
    rw [hlen data (List.mem_cons_self ..)] at hfirst
    rw [releaseWorkers, workersBlocks_cons]
    exact hfirst.trans (ih fun data' hdata => hlen data' (List.mem_cons_of_mem _ hdata))

lemma releases_pointer (memory : Memory) (pointer : Option ℕ) :
    memory.Releases (pointer.elim memory memory.free) (blockOf pointer) := by
  cases pointer with
  | none => exact .refl _
  | some block => exact .free _ _

/-- `bc_concurrency_destroy` gives back the blocks of the context. -/
theorem destroy_releases {context : Context} {datas : List (List ℕ)}
    (htable : context.Table configs datas) :
    memory.Releases (destroy context memory) context.blocks := by
  have hlen : ∀ data ∈ datas, data.length = context.slotCount := by
    intro data hdata
    rw [htable.length data hdata, htable.count]
  have hworkers : memory.Releases (releaseWorkers (context.slotConfigs.elim [] ConfigArray.entries)
      context.slotCount 0 context.workers memory) (workersBlocks context.workers) :=
    releaseWorkers_releases htable.workers hlen
  have hblocks : context.blocks = workersBlocks context.workers +
      blockOf (context.slotConfigs.map ConfigArray.block) + {context.staging.block} +
      {context.dispatchTasks.block} + {context.dispatchWork} + blockOf context.threads +
      {context.workersBlock} + {context.block} := by
    rw [Context.blocks_eq, Context.shellBlocks]
    abel
  rw [hblocks]
  exact ((((((hworkers.trans (releases_pointer _ _)).trans (.free _ _)).trans (.free _ _)).trans
    (.free _ _)).trans (releases_pointer _ _)).trans (.free _ _)).trans (.free _ _)

end Destroy

/-! ### The result -/

/-- What holds of a context between two calls. -/
structure Ownership (host : Host) (foreign : Multiset ℕ) : Prop where
  /-- The blocks in use are those that the context refers to, and the foreign ones. -/
  live : (host.memory.live : Multiset ℕ) = host.context.blocks + foreign
  /-- No block is referred to twice. -/
  nodup : (host.context.blocks + foreign).Nodup
  /-- Each worker has a block for each slot. -/
  slots : ∀ w ≤ host.context.threadCount, ∀ s < host.context.slotCount,
    ∃ d ∈ host.context.blocks, host.context.slotPointer w s = some d
  distinct : ∀ w w' s s' d, host.context.slotPointer w s = some d →
    host.context.slotPointer w' s' = some d → w = w' ∧ s = s'
  /-- `bc_concurrency_destroy` frees each block of the context once, and nothing else. -/
  destroyed : ((destroy host.context host.memory).live : Multiset ℕ) = foreign ∧
    ∃ freed, Heap.freedBlocks (destroy host.context host.memory).log =
      Heap.freedBlocks host.memory.log ++ freed ∧ (freed : Multiset ℕ) = host.context.blocks

/-- The slots of a context are the same later on. -/
structure SlotsKept (context context' : Context) : Prop where
  count : context.slotCount ≤ context'.slotCount
  configs : ∀ s < context.slotCount, context'.slotConfig s = context.slotConfig s
  pointers : ∀ w ≤ context.threadCount, ∀ s < context.slotCount,
    context'.slotPointer w s = context.slotPointer w s

/-- What a registration returns. -/
structure RegistrationSound (host : Host) (config : SlotConfig) : Prop where
  /-- A registration that fails leaves the slots as they were. -/
  refused : (registerSlot host.context host.memory config).1 = none →
    (registerSlot host.context host.memory config).2.1.slotCount = host.context.slotCount ∧
      SlotsKept host.context (registerSlot host.context host.memory config).2.1
  /-- The new slot has the next index, and each worker a new block of the requested size
  for it. -/
  registered : ∀ idx, (registerSlot host.context host.memory config).1 = some idx →
    idx = host.context.slotCount ∧
      (registerSlot host.context host.memory config).2.1.slotCount = idx + 1 ∧
      (registerSlot host.context host.memory config).2.1.slotConfig idx = some config ∧
      ∀ w ≤ host.context.threadCount, ∃ d, host.memory.requests ≤ d ∧
        (registerSlot host.context host.memory config).2.1.slotPointer w idx = some d ∧
        .allocated d config.size ∈ (registerSlot host.context host.memory config).2.2.log

section Result

variable {host : Host} {configs configs' : List SlotConfig} {datas datas' : List (List ℕ)}
  {foreign : Multiset ℕ}

lemma Host.Tabled.ownership (htabled : host.Tabled configs datas foreign) :
    Ownership host foreign := by
  obtain ⟨htable, hown⟩ := htabled
  refine ⟨hown.live, hown.nodup, ?_, ?_, ?_⟩
  · intro w hw s hs
    obtain ⟨d, hd⟩ := htable.exists_dataOf hw hs
    exact ⟨d, htable.mem_blocks hd, (htable.slotPointer w s).trans hd⟩
  · intro w w' s s' d hd hd'
    rw [htable.slotPointer] at hd hd'
    exact htable.dataOf_inj (Multiset.nodup_of_le (Multiset.le_add_right _ _) hown.nodup) hd hd'
  · have hreleases : host.memory.Releases (destroy host.context host.memory) host.context.blocks :=
      destroy_releases htable
    exact ⟨(hreleases.owns foreign hown).live, hreleases.freed⟩

lemma slotsKept_of_extends {context context' : Context} (htable : context.Table configs datas)
    (htable' : context'.Table configs' datas')
    (hext : TableExtends configs configs' datas datas') : SlotsKept context context' where
  count := by
    rw [htable.count, htable'.count]
    exact hext.configs.length_le
  configs := by
    intro s hs
    have hlt : s < configs.length := htable.count ▸ hs
    rw [htable.slotConfig hlt, htable'.slotConfig (hlt.trans_le hext.configs.length_le)]
    exact getElem?_of_isPrefix hext.configs hlt
  pointers := by
    intro w hw s hs
    obtain ⟨d, hd⟩ := htable.exists_dataOf hw hs
    rw [htable.slotPointer, htable'.slotPointer, hd]
    exact hext.data w s d hd

lemma Host.Tabled.registrationSound (htabled : host.Tabled configs datas foreign)
    (config : SlotConfig) : RegistrationSound host config := by
  obtain ⟨htable, hown⟩ := htabled
  have hspec : SlotRegistration _ _ config configs datas foreign _ := registerSlot_spec htable hown
  refine ⟨?_, ?_⟩
  · intro hnone
    generalize registerSlot host.context host.memory config = result at *
    cases hspec with
    | refused ds htable' =>
      exact ⟨htable'.count.trans htable.count.symm, slotsKept_of_extends htable htable' (.refl _ _)⟩
    | registered => cases hnone
  · intro idx hsome
    generalize registerSlot host.context host.memory config = result at *
    cases hspec with
    | refused => cases hsome
    | registered ds hlen htable' hown' hext hnotes hnew =>
      cases hsome
      refine ⟨htable.count.symm, by simp [htable'.count], ?_, ?_⟩
      · rw [htable'.slotConfig (by simp)]
        simp
      · intro w hw
        have hlt : w < datas.length := by
          rw [htable.effective]
          omega
        have hds : w < ds.length := hlen ▸ hlt
        refine ⟨ds[w], (hnew _ (List.getElem_mem hds)).1, ?_, (hnew _ (List.getElem_mem hds)).2⟩
        rw [htable'.slotPointer, dataOf, List.getElem?_zipWith, List.getElem?_eq_getElem hlt,
          List.getElem?_eq_getElem hds]
        simp [htable.length _ (List.getElem_mem hlt)]

end Result

/-- After a successful creation and any sequence of calls, whatever requests the pool
refuses, the context owns its blocks, keeps the slots it has, and registers further ones
soundly. -/
theorem context_owns_blocks {memory memory' : Memory} {physicalCoreCount : ℕ}
    {config : Option Config} {stagingGrows memoryGrants : ℕ → Bool} {context : Context}
    (hcreate : create memory physicalCoreCount config stagingGrows memoryGrants =
      (some context, memory'))
    {foreign : Multiset ℕ} (hown : memory.Owns foreign) (calls : List Call) :
    Ownership (Host.after ⟨context, memory'⟩ calls) foreign ∧
      (∀ later, SlotsKept (Host.after ⟨context, memory'⟩ calls).context
        ((Host.after ⟨context, memory'⟩ calls).after later).context) ∧
      ∀ slot, RegistrationSound (Host.after ⟨context, memory'⟩ calls) slot := by
  obtain ⟨configs, datas, htabled, -⟩ := (tabled_of_create hcreate hown).after calls
  refine ⟨htabled.ownership, ?_, htabled.registrationSound⟩
  intro later
  obtain ⟨configs', datas', htabled', hext⟩ := htabled.after later
  exact slotsKept_of_extends htabled.1 htabled'.1 hext

/-- One worker and the main thread: of three registrations the second fails at the data of
the main thread, and the third uses the same index. -/
theorem context_owns_blocks_refused :
    ∃ context memory',
      create ⟨fun request => request != 14, 0, 0, [], []⟩ 2 none (fun _ => false)
        (fun _ => true) = (some context, memory') ∧
      let calls : List Call := [.registerSlot ⟨8, none, none, 0⟩, .registerSlot ⟨16, none, none, 1⟩,
        .registerSlot ⟨24, none, none, 2⟩]
      let host := Host.after ⟨context, memory'⟩ calls
      host.context.slotCount = 2 ∧
        (List.range 2).map (fun w => (List.range 2).map (host.context.slotPointer w)) =
          [[some 8, some 16], [some 10, some 18]] ∧
        Ownership host 0 := by
  have hcreate : create ⟨fun request => request != 14, 0, 0, [], []⟩ 2 none (fun _ => false)
    (fun _ => true) = (some _, _) := rfl
  exact ⟨_, _, hcreate, by decide, by decide, (context_owns_blocks hcreate Heap.Owns.empty _).1⟩

end BcConcurrency.Pool
