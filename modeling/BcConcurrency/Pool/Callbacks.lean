import BcConcurrency.Pool.FailedCreation
import BcConcurrency.Pool.Ownership

/-!
# The callbacks of slots

`bc_concurrency_register_slot` calls `init` for each worker, and `bc_concurrency_destroy`
calls `destroy` for each worker and slot, the last slot of a worker first.  A registration
that is refused at a later worker frees the data of the earlier ones without a call of
`destroy`, so that the callbacks are paired exactly if that does not happen to a slot that
has both of them.
-/

namespace BcConcurrency.Pool

/-- The calls of `destroy` for a worker in a log. -/
def destroysOf (w : ℕ) (log : List (HeapEvent PoolEvent)) : List (SlotConfig × ℕ) :=
  log.filterMap fun
    | .note (.destroyCalled config d worker) => if worker = w then some (config, d) else none
    | _ => none

/-- A slot of a worker, if it has data and its configuration a `destroy` callback. -/
def destroyable : Option SlotConfig → Option ℕ → Option (SlotConfig × ℕ)
  | some config, some d => if config.destroy.isSome then some (config, d) else none
  | _, _ => none

@[simp] lemma destroyable_none (config : Option SlotConfig) : destroyable config none = none := by
  cases config <;> rfl

lemma destroyable_eq_some {config : Option SlotConfig} {data : Option ℕ} {pair : SlotConfig × ℕ} :
    destroyable config data = some pair ↔
      config = some pair.1 ∧ data = some pair.2 ∧ pair.1.destroy.isSome := by
  rcases config with _ | config
  · simp [destroyable]
  rcases data with _ | d
  · simp
  obtain ⟨config', d'⟩ := pair
  simp only [destroyable, Option.some.injEq]
  split
  case isTrue hdestroy =>
    constructor
    · intro heq
      cases heq
      exact ⟨rfl, rfl, hdestroy⟩
    · rintro ⟨rfl, rfl, -⟩
      rfl
  case isFalse hdestroy =>
    refine iff_of_false (by simp) ?_
    rintro ⟨rfl, -, hsome⟩
    exact hdestroy hsome

/-- The slots of a worker that have a `destroy` callback, in the order of registration. -/
def Context.destroyables (context : Context) (w : ℕ) : List (SlotConfig × ℕ) :=
  (List.range context.slotCount).filterMap fun s =>
    destroyable (context.slotConfig s) (context.slotPointer w s)

/-- In the log of a host up to its destruction, `init` and `destroy` callbacks are paired. -/
structure CallbacksPaired (host : Host) : Prop where
  /-- After a call of `init` there is one call of `destroy`, before the data are freed. -/
  undone : ∀ config d w l₁ l₂, config.destroy.isSome →
    (destroy host.context host.memory).log = l₁ ++ .note (.initCalled config d w) :: l₂ →
    ∃ m₁ m₂, l₂ = m₁ ++ .note (.destroyCalled config d w) :: m₂ ∧ .freed d ∉ m₁ ∧
      .note (.destroyCalled config d w) ∉ m₁ ∧ .note (.destroyCalled config d w) ∉ m₂
  /-- Before a call of `destroy` the data were allocated and set up. -/
  matched : ∀ config d w l₁ l₂,
    (destroy host.context host.memory).log = l₁ ++ .note (.destroyCalled config d w) :: l₂ →
    .allocated d config.size ∈ l₁ ∧ ∀ event ∈ setupNotes config d w, .note event ∈ l₁
  /-- The slots of a worker are destroyed in the reverse order of their registration. -/
  reversed : ∀ w, destroysOf w (destroy host.context host.memory).log =
    (host.context.destroyables w).reverse

lemma CallbacksPaired.destroyCalled_mem {host : Host} (hpaired : CallbacksPaired host)
    (config : SlotConfig) (d w : ℕ) (hdestroy : config.destroy.isSome)
    (hinit : .note (.initCalled config d w) ∈ (destroy host.context host.memory).log) :
    .note (.destroyCalled config d w) ∈ (destroy host.context host.memory).log := by
  obtain ⟨l₁, l₂, hlog⟩ := List.mem_iff_append.mp hinit
  obtain ⟨m₁, m₂, rfl, -⟩ := hpaired.undone config d w l₁ l₂ hdestroy hlog
  simp [hlog]

/-- The call is no registration of a slot with both callbacks that is refused after the
first worker has got its data. -/
def Host.Completes (host : Host) : Call → Prop
  | .registerSlot config => config.init.isSome → config.destroy.isSome →
      host.memory.grantsAll (firstRequests host.context config) →
      host.memory.grantsAll (slotRequests host.context config)
  | _ => True

instance (host : Host) : (call : Call) → Decidable (host.Completes call)
  | .registerSlot config => inferInstanceAs (Decidable (config.init.isSome →
      config.destroy.isSome → host.memory.grantsAll (firstRequests host.context config) →
      host.memory.grantsAll (slotRequests host.context config)))
  | .submit _ _ | .submitBatch _ _ | .dispatchAndWait _ | .parallelFor _ _ => isTrue trivial

/-! ### What a destruction writes to the log -/

/-- The events of a destruction: data are freed right after the callback that gets them. -/
inductive ReleaseLog : List (HeapEvent PoolEvent) → Prop
  | nil : ReleaseLog []
  | freed (block : ℕ) {l : List (HeapEvent PoolEvent)} (h : ReleaseLog l) :
      ReleaseLog (.freed block :: l)
  | destroyCalled (config : SlotConfig) (d w : ℕ) {l : List (HeapEvent PoolEvent)}
      (h : ReleaseLog l) : ReleaseLog (.note (.destroyCalled config d w) :: .freed d :: l)
  | syncDestroyed (w : ℕ) {l : List (HeapEvent PoolEvent)} (h : ReleaseLog l) :
      ReleaseLog (.note (.syncDestroyed w) :: l)
  | memoryDestroyed (w : ℕ) {l : List (HeapEvent PoolEvent)} (h : ReleaseLog l) :
      ReleaseLog (.note (.memoryDestroyed w) :: l)

namespace ReleaseLog

variable {l l' m₁ m₂ : List (HeapEvent PoolEvent)} {config : SlotConfig} {d w : ℕ}

lemma append (h : ReleaseLog l) (h' : ReleaseLog l') : ReleaseLog (l ++ l') := by
  induction h with
  | nil => exact h'
  | freed block _ ih => exact .freed block ih
  | destroyCalled config d w _ ih => exact .destroyCalled config d w ih
  | syncDestroyed w _ ih => exact .syncDestroyed w ih
  | memoryDestroyed w _ ih => exact .memoryDestroyed w ih

lemma initCalled_notMem (h : ReleaseLog l) : .note (.initCalled config d w) ∉ l := by
  induction h <;> simp_all

/-- The data are freed right after the callback. -/
lemma freed_of_eq (h : ReleaseLog l) (heq : l = m₁ ++ .note (.destroyCalled config d w) :: m₂) :
    ∃ m₃, m₂ = .freed d :: m₃ := by
  induction h generalizing m₁ with
  | nil => simp at heq
  | freed block _ ih | syncDestroyed w _ ih | memoryDestroyed w _ ih =>
    rcases m₁ with _ | ⟨e, m₁⟩
    · cases heq
    · exact ih (List.cons.inj heq).2
  | destroyCalled config' d' w' _ ih =>
    rcases m₁ with _ | ⟨e, _ | ⟨e', m₁⟩⟩
    · cases heq
      exact ⟨_, rfl⟩
    · -- the callback cannot stand in the place of the event that frees its data
      cases heq
    · exact ih (List.cons.inj (List.cons.inj heq).2).2

end ReleaseLog

/-- The log of a pool grows by the events of a destruction. -/
def Released (memory memory' : Memory) : Prop :=
  ∃ l, memory'.log = memory.log ++ l ∧ ReleaseLog l

namespace Released

variable {memory memory' memory'' : Memory}

protected lemma refl (memory : Memory) : Released memory memory :=
  ⟨[], (List.append_nil _).symm, .nil⟩

protected lemma trans (h : Released memory memory') (h' : Released memory' memory'') :
    Released memory memory'' := by
  obtain ⟨l, hl, hrel⟩ := h
  obtain ⟨l', hl', hrel'⟩ := h'
  exact ⟨l ++ l', by rw [hl', hl, List.append_assoc], hrel.append hrel'⟩

protected lemma free (memory : Memory) (block : ℕ) : Released memory (memory.free block) :=
  ⟨_, rfl, .freed block .nil⟩

end Released

section Destroy

variable {configs : List SlotConfig} {entries : List (Option ℕ)} {memory : Memory} {i : ℕ}

@[simp] lemma destroysOf_append (w : ℕ) (l l' : List (HeapEvent PoolEvent)) :
    destroysOf w (l ++ l') = destroysOf w l ++ destroysOf w l' := List.filterMap_append

@[simp] lemma destroysOf_free (w : ℕ) (memory : Memory) (block : ℕ) :
    destroysOf w (memory.free block).log = destroysOf w memory.log := by
  simp [Heap.free, destroysOf]

lemma mem_destroysOf {w d : ℕ} {config : SlotConfig} {log : List (HeapEvent PoolEvent)} :
    (config, d) ∈ destroysOf w log ↔ .note (.destroyCalled config d w) ∈ log := by
  rw [destroysOf, List.mem_filterMap]
  constructor
  · rintro ⟨event, hmem, heq⟩
    split at heq
    · split at heq
      case isTrue hw =>
        cases heq
        rwa [← hw]
      case isFalse => cases heq
    · cases heq
  · intro hmem
    exact ⟨_, hmem, if_pos rfl⟩

/-- Releasing a slot calls `destroy` for its data, if there are any, and frees them. -/
lemma releaseSlot_log (configs : List SlotConfig) (entries : List (Option ℕ)) (i s : ℕ)
    (memory : Memory) :
    Released memory (releaseSlot configs entries i s memory) ∧
      ∀ w, destroysOf w (releaseSlot configs entries i s memory).log = destroysOf w memory.log ++
        if i = w then (destroyable configs[s]? (entries[s]?).join).toList else [] := by
  rw [releaseSlot]
  rcases (entries[s]?).join with _ | d
  · exact ⟨.refl _, fun w => by simp⟩
  rcases configs[s]? with _ | config
  · exact ⟨.free _ _, fun w => by simp [destroyable]⟩
  dsimp only
  split
  case isTrue hdestroy =>
    refine ⟨⟨[_, _], List.append_assoc _ _ _, .destroyCalled config d i .nil⟩, ?_⟩
    intro w
    by_cases hw : i = w
    · simp [destroyable, hdestroy, destroysOf, Heap.free, Heap.note, hw]
    · simp [destroysOf, Heap.free, Heap.note, hw]
  case isFalse hdestroy => exact ⟨.free _ _, fun w => by simp [destroyable, hdestroy]⟩

/-- The slots of a worker are released, the last one first. -/
lemma releaseSlots_log (configs : List SlotConfig) (entries : List (Option ℕ)) (i count : ℕ)
    (memory : Memory) :
    Released memory (releaseSlots configs entries i count memory) ∧
      ∀ w, destroysOf w (releaseSlots configs entries i count memory).log =
        destroysOf w memory.log ++
          if i = w then ((List.range count).filterMap fun s =>
            destroyable configs[s]? (entries[s]?).join).reverse else [] := by
  induction count generalizing memory with
  | zero => exact ⟨.refl _, fun w => by simp [releaseSlots]⟩
  | succ s ih =>
    obtain ⟨hrel, hdestroys⟩ := releaseSlot_log configs entries i s memory
    obtain ⟨hrel', hdestroys'⟩ := ih (releaseSlot configs entries i s memory)
    refine ⟨hrel.trans hrel', ?_⟩
    intro w
    rw [releaseSlots, hdestroys', hdestroys, List.range_succ, List.filterMap_append,
      List.reverse_append]
    by_cases hw : i = w
    · simp only [if_pos hw, List.append_assoc]
      rcases h : destroyable configs[s]? (entries[s]?).join with _ | pair <;> simp [h]
    · simp [hw]

lemma releaseWorker_log (configs : List SlotConfig) (slotCount i : ℕ) (worker : Worker)
    (memory : Memory) :
    Released memory (releaseWorker configs slotCount i worker memory) ∧
      ∀ w, destroysOf w (releaseWorker configs slotCount i worker memory).log =
        destroysOf w memory.log ++
          if i = w then ((List.range slotCount).filterMap fun s => destroyable configs[s]?
            (worker.slots.bind fun slots => (slots.entries[s]?).join)).reverse else [] := by
  rw [releaseWorker]
  have hnotes (memory' : Memory) : Released memory'
      ((memory'.note (.syncDestroyed i)).note (.memoryDestroyed i)) :=
    ⟨[_, _], List.append_assoc _ _ _, .syncDestroyed i (.memoryDestroyed i .nil)⟩
  have hdestroys (w : ℕ) (memory' : Memory) :
      destroysOf w ((memory'.note (.syncDestroyed i)).note (.memoryDestroyed i)).log =
        destroysOf w memory'.log := by
    simp [Heap.note, destroysOf]
  rcases worker.slots with _ | slots
  · refine ⟨hnotes memory, ?_⟩
    intro w
    simp [hdestroys]
  · obtain ⟨hrel, hslots⟩ := releaseSlots_log configs slots.entries i slotCount memory
    refine ⟨(hrel.trans (.free _ _)).trans (hnotes _), ?_⟩
    intro w
    rw [hdestroys, destroysOf_free, hslots]
    rfl

/-- The callbacks for worker `w` are those made when it is released. -/
lemma releaseWorkers_log (configs : List SlotConfig) (slotCount i : ℕ) (workers : List Worker)
    (memory : Memory) :
    Released memory (releaseWorkers configs slotCount i workers memory) ∧
      ∀ w, destroysOf w (releaseWorkers configs slotCount i workers memory).log =
        destroysOf w memory.log ++
          if i ≤ w then ((List.range slotCount).filterMap fun s => destroyable configs[s]?
            ((workers[w - i]?.bind Worker.slots).bind fun slots =>
              (slots.entries[s]?).join)).reverse else [] := by
  induction workers generalizing i memory with
  | nil => exact ⟨.refl _, fun w => by simp [releaseWorkers]⟩
  | cons worker workers ih =>
    obtain ⟨hrel, hdestroys⟩ := releaseWorker_log configs slotCount i worker memory
    obtain ⟨hrel', hdestroys'⟩ := ih (i + 1) (releaseWorker configs slotCount i worker memory)
    refine ⟨hrel.trans hrel', ?_⟩
    intro w
    rw [releaseWorkers, hdestroys', hdestroys, List.append_assoc]
    rcases lt_trichotomy i w with hlt | rfl | hgt
    · rw [if_neg hlt.ne, if_pos (Nat.succ_le_of_lt hlt), if_pos hlt.le, List.nil_append,
        show w - i = w - (i + 1) + 1 by omega, List.getElem?_cons_succ]
    · rw [if_pos rfl, if_neg (Nat.not_succ_le_self _), if_pos le_rfl, List.append_nil, Nat.sub_self]
      rfl
    · rw [if_neg hgt.ne', if_neg (by omega), if_neg (by omega), List.append_nil]

/-- A destruction calls `destroy` for the slots of each worker in reverse order. -/
lemma destroy_log (context : Context) (memory : Memory) :
    Released memory (destroy context memory) ∧
      ∀ w, destroysOf w (destroy context memory).log =
        destroysOf w memory.log ++ (context.destroyables w).reverse := by
  obtain ⟨hrel, hdestroys⟩ := releaseWorkers_log (context.slotConfigs.elim [] ConfigArray.entries)
    context.slotCount 0 context.workers memory
  have hpointer (pointer : Option ℕ) (memory' : Memory) :
      Released memory' (pointer.elim memory' memory'.free) ∧
        ∀ w, destroysOf w (pointer.elim memory' memory'.free).log = destroysOf w memory'.log := by
    cases pointer with
    | none => exact ⟨.refl _, fun _ => rfl⟩
    | some block => exact ⟨.free _ _, fun w => destroysOf_free w memory' block⟩
  constructor
  · exact ((((((hrel.trans (hpointer _ _).1).trans (.free _ _)).trans (.free _ _)).trans
      (.free _ _)).trans (hpointer _ _).1).trans (.free _ _)).trans (.free _ _)
  · intro w
    rw [destroy]
    simp only [destroysOf_free, (hpointer _ _).2, hdestroys, Nat.zero_le, if_true, Nat.sub_zero]
    rfl

end Destroy

/-! ### What the registrations have noted -/

lemma mem_setupAll {config : SlotConfig} {event : PoolEvent} {i : ℕ} {ds : List ℕ} :
    event ∈ setupAll config i ds ↔ ∃ j d, ds[j]? = some d ∧ event ∈ setupNotes config d (i + j) := by
  induction ds generalizing i with
  | nil => simp [setupAll]
  | cons d ds ih =>
    rw [setupAll, List.mem_append, ih]
    constructor
    · rintro (hevent | ⟨j, d', hd', hevent⟩)
      · exact ⟨0, d, rfl, hevent⟩
      · exact ⟨j + 1, d', hd', by rwa [show i + (j + 1) = i + 1 + j by omega]⟩
    · rintro ⟨_ | j, d', hd', hevent⟩
      · cases hd'
        exact Or.inl hevent
      · exact Or.inr ⟨j, d', hd', by rwa [show i + 1 + j = i + (j + 1) by omega]⟩

lemma mem_setupNotes {config : SlotConfig} {event : PoolEvent} {d w : ℕ} :
    event ∈ setupNotes config d w ↔
      event = .slotZeroed config d w ∨ event = .initCalled config d w ∧ config.init.isSome := by
  rw [setupNotes, List.mem_cons]
  split
  case isTrue hinit => simp [hinit]
  case isFalse hinit => simp [hinit]

/-- The table after a registration. -/
lemma dataOf_registered {datas : List (List ℕ)} {ds : List ℕ} {n : ℕ}
    (hlen : ds.length = datas.length) (hlength : ∀ data ∈ datas, data.length = n) (w s d : ℕ) :
    dataOf (List.zipWith (fun data d => data ++ [d]) datas ds) w s = some d ↔
      dataOf datas w s = some d ∨ s = n ∧ ds[w]? = some d := by
  rw [dataOf, dataOf, List.getElem?_zipWith]
  by_cases hw : w < datas.length
  · have hdata : datas[w].length = n := hlength _ (List.getElem_mem hw)
    rw [List.getElem?_eq_getElem hw, List.getElem?_eq_getElem (hlen ▸ hw)]
    simp only [Option.bind_some, List.getElem?_append, hdata]
    split
    case isTrue hs => simp [hs.ne]
    case isFalse hs =>
      rw [List.getElem?_eq_none (by omega : datas[w].length ≤ s), List.getElem?_singleton]
      by_cases heq : s = n
      · simp [heq]
      · simp [heq, show s - n ≠ 0 by omega]
  · rw [List.getElem?_eq_none (not_lt.mp hw), List.getElem?_eq_none (hlen ▸ not_lt.mp hw)]
    simp

lemma lt_of_dataOf {datas : List (List ℕ)} {n w s d : ℕ}
    (hlength : ∀ data ∈ datas, data.length = n) (hd : dataOf datas w s = some d) : s < n := by
  obtain ⟨data, hdata, hs⟩ := Option.bind_eq_some_iff.mp hd
  rw [← hlength data (List.mem_of_getElem? hdata)]
  exact (List.getElem?_eq_some_iff.mp hs).1

/-- What the log says about the slots of a table. -/
structure SlotsNoted (memory : Memory) (configs : List SlotConfig) (datas : List (List ℕ)) :
    Prop where
  undestroyed : ∀ config d w, .destroyCalled config d w ∉ Heap.notes memory.log
  setUp : ∀ config w s d, configs[s]? = some config → dataOf datas w s = some d →
    .allocated d config.size ∈ memory.log ∧
      ∀ event ∈ setupNotes config d w, event ∈ Heap.notes memory.log

/-- The data for which `init` was called, and for which there is a `destroy`, are those of
slots. -/
def InitsHeld (memory : Memory) (configs : List SlotConfig) (datas : List (List ℕ)) : Prop :=
  ∀ config d w, config.destroy.isSome → .initCalled config d w ∈ Heap.notes memory.log →
    ∃ s, configs[s]? = some config ∧ dataOf datas w s = some d

lemma destroyCalled_notMem_setupAll {config config' : SlotConfig} {d w i : ℕ} {ds : List ℕ} :
    .destroyCalled config d w ∉ setupAll config' i ds := by
  intro hmem
  obtain ⟨j, d', -, hevent⟩ := mem_setupAll.mp hmem
  rcases mem_setupNotes.mp hevent with heq | ⟨heq, -⟩ <;> cases heq

lemma initCalled_of_mem_setupAll {config config' : SlotConfig} {d w : ℕ} {ds : List ℕ}
    (hmem : .initCalled config d w ∈ setupAll config' 0 ds) :
    config = config' ∧ ds[w]? = some d ∧ config.init.isSome := by
  obtain ⟨j, d', hd', hevent⟩ := mem_setupAll.mp hmem
  rw [Nat.zero_add] at hevent
  rcases mem_setupNotes.mp hevent with heq | ⟨heq, hinit⟩
  · cases heq
  · cases heq
    exact ⟨rfl, hd', hinit⟩

section Noted

variable {memory memory' : Memory} {configs : List SlotConfig} {datas : List (List ℕ)}
  {config : SlotConfig} {ds : List ℕ}

/-- New data that belong to no slot. -/
lemma SlotsNoted.refused (hnoted : SlotsNoted memory configs datas)
    (hext : memory.Extends memory')
    (hnotes : Heap.notes memory'.log = Heap.notes memory.log ++ setupAll config 0 ds) :
    SlotsNoted memory' configs datas := by
  constructor
  · intro config' d w hmem
    rw [hnotes, List.mem_append] at hmem
    rcases hmem with hmem | hmem
    · exact hnoted.undestroyed _ _ _ hmem
    · exact destroyCalled_notMem_setupAll hmem
  · intro config' w s d hconfig hd
    obtain ⟨hlog, hevents⟩ := hnoted.setUp config' w s d hconfig hd
    refine ⟨hext.log.subset hlog, ?_⟩
    intro event hevent
    rw [hnotes]
    exact List.mem_append_left _ (hevents event hevent)

/-- New data that belong to a new slot. -/
lemma SlotsNoted.registered (hnoted : SlotsNoted memory configs datas)
    (hext : memory.Extends memory')
    (hnotes : Heap.notes memory'.log = Heap.notes memory.log ++ setupAll config 0 ds)
    (hlen : ds.length = datas.length) (hlength : ∀ data ∈ datas, data.length = configs.length)
    (hnew : ∀ d ∈ ds, .allocated d config.size ∈ memory'.log) :
    SlotsNoted memory' (configs ++ [config])
      (List.zipWith (fun data d => data ++ [d]) datas ds) := by
  have hkept := hnoted.refused hext hnotes
  refine ⟨hkept.undestroyed, ?_⟩
  intro config' w s d hconfig hentry
  rcases (dataOf_registered hlen hlength w s d).mp hentry with hd | ⟨rfl, hd⟩
  · rw [List.getElem?_append_left (lt_of_dataOf hlength hd)] at hconfig
    exact hkept.setUp config' w s d hconfig hd
  · rw [List.getElem?_concat_length] at hconfig
    cases hconfig
    refine ⟨hnew d (List.mem_of_getElem? hd), ?_⟩
    intro event hevent
    rw [hnotes]
    exact List.mem_append_right _ (mem_setupAll.mpr ⟨w, d, hd, by rwa [Nat.zero_add]⟩)

/-- No data are initialised that have to be destroyed. -/
lemma InitsHeld.refused (hheld : InitsHeld memory configs datas)
    (hnotes : Heap.notes memory'.log = Heap.notes memory.log ++ setupAll config 0 ds)
    (hnone : config.init.isSome → config.destroy.isSome → ds = []) :
    InitsHeld memory' configs datas := by
  intro config' d w hdestroy hmem
  rw [hnotes, List.mem_append] at hmem
  rcases hmem with hmem | hmem
  · exact hheld config' d w hdestroy hmem
  · obtain ⟨rfl, hd, hinit⟩ := initCalled_of_mem_setupAll hmem
    rw [hnone hinit hdestroy] at hd
    cases hd

lemma InitsHeld.registered (hheld : InitsHeld memory configs datas)
    (hnotes : Heap.notes memory'.log = Heap.notes memory.log ++ setupAll config 0 ds)
    (hlen : ds.length = datas.length) (hlength : ∀ data ∈ datas, data.length = configs.length) :
    InitsHeld memory' (configs ++ [config])
      (List.zipWith (fun data d => data ++ [d]) datas ds) := by
  intro config' d w hdestroy hmem
  rw [hnotes, List.mem_append] at hmem
  rcases hmem with hmem | hmem
  · obtain ⟨s, hconfig, hd⟩ := hheld config' d w hdestroy hmem
    refine ⟨s, ?_, (dataOf_registered hlen hlength w s d).mpr (Or.inl hd)⟩
    rw [List.getElem?_append_left (List.getElem?_eq_some_iff.mp hconfig).1]
    exact hconfig
  · obtain ⟨rfl, hd, -⟩ := initCalled_of_mem_setupAll hmem
    exact ⟨configs.length, List.getElem?_concat_length,
      (dataOf_registered hlen hlength _ _ _).mpr (Or.inr ⟨rfl, hd⟩)⟩

end Noted

/-! ### Sequences of calls -/

section Calls

variable {host : Host} {configs : List SlotConfig} {datas : List (List ℕ)} {foreign : Multiset ℕ}

/-- A host whose log fits to its table of slots. -/
structure Host.Recorded (host : Host) (configs : List SlotConfig) (datas : List (List ℕ))
    (foreign : Multiset ℕ) : Prop where
  tabled : host.Tabled configs datas foreign
  noted : SlotsNoted host.memory configs datas

/-- Every call keeps what the log says about the slots, and one that completes leaves no
data initialised that belong to no slot. -/
lemma Host.Recorded.run (hrec : host.Recorded configs datas foreign) (call : Call) :
    ∃ configs' datas', (call.run host).host.Recorded configs' datas' foreign ∧
      host.memory.Extends (call.run host).host.memory ∧
      (host.Completes call → InitsHeld host.memory configs datas →
        InitsHeld (call.run host).host.memory configs' datas') := by
  obtain ⟨⟨htable, hown⟩, hnoted⟩ := hrec
  by_cases hcall : ∃ config, call = .registerSlot config
  · obtain ⟨config, rfl⟩ := hcall
    have hspec : SlotRegistration _ _ config configs datas foreign _ :=
      registerSlot_spec htable hown
    rw [Call.run, Host.Completes]
    generalize registerSlot host.context host.memory config = result at hspec
    cases hspec with
    | refused ds htable' hown' hext hnotes hfreed hgrants hfirst =>
      refine ⟨configs, datas, ⟨⟨htable', hown'⟩, hnoted.refused hext hnotes⟩, hext,
        fun hcompletes hheld => hheld.refused hnotes ?_⟩
      intro hinit hdestroy
      -- otherwise the first worker has got its data, and yet a request is refused
      by_contra hne
      have hall := hcompletes hinit hdestroy (hfirst.mp hne)
      rw [hgrants] at hall
      cases hall
    | registered ds hlen htable' hown' hext hnotes hnew =>
      exact ⟨_, _, ⟨⟨htable', hown'⟩, hnoted.registered hext hnotes hlen htable.length
        fun d hd => (hnew d hd).2⟩, hext,
        fun _ hheld => hheld.registered hnotes hlen htable.length⟩
  · have hkeeps := run_keeps host call fun config heq => hcall ⟨config, heq⟩
    have hnotes : Heap.notes (call.run host).host.memory.log =
        Heap.notes host.memory.log ++ setupAll ⟨0, none, none, 0⟩ 0 [] := by
      rw [hkeeps.notes, setupAll, List.append_nil]
    exact ⟨configs, datas, ⟨⟨hkeeps.table htable, hkeeps.owns _ hown⟩,
      hnoted.refused hkeeps.ext hnotes⟩, hkeeps.ext,
      fun _ hheld => hheld.refused hnotes fun _ _ => rfl⟩

lemma Host.Recorded.after (hrec : host.Recorded configs datas foreign) (calls : List Call) :
    ∃ configs' datas', (host.after calls).Recorded configs' datas' foreign ∧
      host.memory.Extends (host.after calls).memory ∧
      ((∀ i (hi : i < calls.length), (host.after (calls.take i)).Completes calls[i]) →
        InitsHeld host.memory configs datas →
        InitsHeld (host.after calls).memory configs' datas') := by
  induction calls generalizing host configs datas with
  | nil => exact ⟨configs, datas, hrec, .refl _, fun _ => id⟩
  | cons call calls ih =>
    obtain ⟨configs₁, datas₁, hrec₁, hext₁, hheld₁⟩ := hrec.run call
    obtain ⟨configs₂, datas₂, hrec₂, hext₂, hheld₂⟩ := ih hrec₁
    refine ⟨configs₂, datas₂, hrec₂, hext₁.trans hext₂, ?_⟩
    intro hcompletes hheld
    have hfirst : host.Completes call := hcompletes 0 (Nat.succ_pos _)
    refine hheld₂ ?_ (hheld₁ hfirst hheld)
    intro i hi
    exact hcompletes (i + 1) (Nat.succ_lt_succ hi)

lemma after_take_drop {calls : List Call} {i : ℕ} (hi : i < calls.length) :
    host.after calls =
      (calls[i].run (host.after (calls.take i))).host.after (calls.drop (i + 1)) := by
  conv_lhs => rw [← List.take_append_drop i calls, List.drop_eq_getElem_cons hi]
  exact host.after_append _ _

end Calls

/-! ### Pairing -/

section Split

variable {α : Type*} {l l' l₁ l₂ : List α} {x : α}

/-- An element of the second list only. -/
lemma split_right (heq : l ++ l' = l₁ ++ x :: l₂) (hx : x ∉ l) :
    ∃ m, l₁ = l ++ m ∧ l' = m ++ x :: l₂ := by
  rcases List.append_eq_append_iff.mp heq with ⟨m, hl₁, hl'⟩ | ⟨_ | ⟨y, m⟩, hl, hl₂⟩
  · exact ⟨m, hl₁, hl'⟩
  · exact ⟨[], by simp [hl], hl₂.symm⟩
  · cases hl₂
    exact absurd (by simp [hl]) hx

/-- An element of the first list only. -/
lemma split_left (heq : l ++ l' = l₁ ++ x :: l₂) (hx : x ∉ l') :
    ∃ m, l = l₁ ++ x :: m ∧ l₂ = m ++ l' := by
  rcases List.append_eq_append_iff.mp heq with ⟨m, hl₁, hl'⟩ | ⟨_ | ⟨y, m⟩, hl, hl₂⟩
  · exact absurd (by simp [hl']) hx
  · obtain rfl : l' = x :: l₂ := hl₂.symm
    exact absurd (List.mem_cons_self ..) hx
  · cases hl₂
    exact ⟨m, hl, rfl⟩

end Split

section Pairing

variable {host : Host} {configs : List SlotConfig} {datas : List (List ℕ)} {foreign : Multiset ℕ}
  {config : SlotConfig} {d w : ℕ}

lemma Context.Table.mem_destroyables {context : Context} (htable : context.Table configs datas) :
    (config, d) ∈ context.destroyables w ↔
      config.destroy.isSome ∧ ∃ s, configs[s]? = some config ∧ dataOf datas w s = some d := by
  rw [Context.destroyables, List.mem_filterMap]
  constructor
  · rintro ⟨s, hs, hpair⟩
    obtain ⟨hconfig, hd, hdestroy⟩ := destroyable_eq_some.mp hpair
    rw [List.mem_range, htable.count] at hs
    rw [htable.slotConfig hs] at hconfig
    rw [htable.slotPointer] at hd
    exact ⟨hdestroy, s, hconfig, hd⟩
  · rintro ⟨hdestroy, s, hconfig, hd⟩
    have hs : s < configs.length := (List.getElem?_eq_some_iff.mp hconfig).1
    refine ⟨s, List.mem_range.mpr (htable.count ▸ hs), destroyable_eq_some.mpr ⟨?_, ?_, hdestroy⟩⟩
    · rw [htable.slotConfig hs]
      exact hconfig
    · rw [htable.slotPointer]
      exact hd

/-- An event that frees a block occurs once. -/
lemma freed_once {l₁ l₂ : List (HeapEvent PoolEvent)}
    (hnodup : (Heap.freedBlocks (l₁ ++ .freed d :: l₂)).Nodup) : .freed d ∉ l₁ ∧ .freed d ∉ l₂ := by
  rw [Heap.freedBlocks_append, show Heap.freedBlocks (.freed d :: l₂) =
    d :: Heap.freedBlocks l₂ from rfl, List.nodup_middle, List.nodup_cons, List.mem_append] at hnodup
  obtain ⟨hnot, -⟩ := hnodup
  exact ⟨fun hmem => hnot (Or.inl (Heap.mem_freedBlocks.mpr hmem)),
    fun hmem => hnot (Or.inr (Heap.mem_freedBlocks.mpr hmem))⟩

/-- As data are freed once, `destroy` is called once for them. -/
lemma ReleaseLog.destroyCalled_once {l m m' : List (HeapEvent PoolEvent)} (h : ReleaseLog l)
    (heq : l = m ++ .note (.destroyCalled config d w) :: m') (hnodup : (Heap.freedBlocks l).Nodup) :
    .note (.destroyCalled config d w) ∉ m ∧ .note (.destroyCalled config d w) ∉ m' := by
  obtain ⟨m₃, rfl⟩ := h.freed_of_eq heq
  have hsplit : l = (m ++ [.note (.destroyCalled config d w)]) ++ .freed d :: m₃ := by
    rw [heq, List.append_assoc]
    rfl
  obtain ⟨hbefore, hafter⟩ := freed_once (hsplit ▸ hnodup)
  constructor
  · intro hmem
    obtain ⟨p, q, rfl⟩ := List.mem_iff_append.mp hmem
    have hfirst : l = p ++ .note (.destroyCalled config d w) ::
        (q ++ .note (.destroyCalled config d w) :: .freed d :: m₃) := by
      simp [heq]
    obtain ⟨q', hq⟩ := h.freed_of_eq hfirst
    rcases q with _ | ⟨e, q⟩
    · cases hq
    · obtain ⟨rfl, -⟩ := List.cons.inj hq
      exact hbefore (by simp)
  · intro hmem
    rcases List.mem_cons.mp hmem with heq' | hmem
    · cases heq'
    obtain ⟨p, q, rfl⟩ := List.mem_iff_append.mp hmem
    have hlast : l = (m ++ .note (.destroyCalled config d w) :: .freed d :: p) ++
        .note (.destroyCalled config d w) :: q := by
      simp [heq]
    obtain ⟨q', rfl⟩ := h.freed_of_eq hlast
    exact hafter (by simp)

/-- What a host has done until it is destroyed, and what its destruction does. -/
lemma Host.Recorded.log_eq (hrec : host.Recorded configs datas foreign) :
    ∃ l, (destroy host.context host.memory).log = host.memory.log ++ l ∧ ReleaseLog l ∧
      (Heap.freedBlocks (host.memory.log ++ l)).Nodup ∧
      ∀ config d w, .note (.destroyCalled config d w) ∈ l ↔
        config.destroy.isSome ∧ ∃ s, configs[s]? = some config ∧ dataOf datas w s = some d := by
  obtain ⟨⟨htable, hown⟩, hnoted⟩ := hrec
  obtain ⟨⟨l, hl, hrel⟩, hdestroys⟩ := destroy_log host.context host.memory
  refine ⟨l, hl, hrel, ?_, ?_⟩
  · rw [← hl]
    exact ((destroy_releases htable).owns foreign hown).freed_nodup
  · intro config d w
    have hnone : destroysOf w host.memory.log = [] := by
      rw [List.eq_nil_iff_forall_not_mem]
      rintro ⟨config', d'⟩ hmem
      exact hnoted.undestroyed config' d' w (Heap.mem_notes.mpr (mem_destroysOf.mp hmem))
    have hl' := hdestroys w
    rw [hl, destroysOf_append, List.append_cancel_left_eq] at hl'
    rw [← mem_destroysOf, hl', List.mem_reverse, htable.mem_destroyables]

/-- When all data that have to be destroyed are those of slots, the callbacks are paired. -/
lemma Host.Recorded.callbacksPaired (hrec : host.Recorded configs datas foreign)
    (hheld : InitsHeld host.memory configs datas) : CallbacksPaired host := by
  obtain ⟨l, hl, hrel, hnodup, hmem⟩ := hrec.log_eq
  have hnone (config d w) : .note (.destroyCalled config d w) ∉ host.memory.log := by
    intro hcalled
    exact hrec.noted.undestroyed config d w (Heap.mem_notes.mpr hcalled)
  refine ⟨?_, ?_, ?_⟩
  · intro config d w l₁ l₂ hdestroy heq
    rw [hl] at heq
    obtain ⟨m, hlog, rfl⟩ := split_left heq hrel.initCalled_notMem
    have hinit : .initCalled config d w ∈ Heap.notes host.memory.log :=
      Heap.mem_notes.mpr (by simp [hlog])
    obtain ⟨m₁, m₂, hl'⟩ := List.mem_iff_append.mp
      ((hmem config d w).mpr ⟨hdestroy, hheld config d w hdestroy hinit⟩)
    rw [Heap.freedBlocks_append] at hnodup
    obtain ⟨hbefore, hafter⟩ := hrel.destroyCalled_once hl' (List.nodup_append.mp hnodup).2.1
    refine ⟨m ++ m₁, m₂, by rw [hl', List.append_assoc], ?_, ?_, hafter⟩
    · -- the data are freed right after the callback, so not before it
      obtain ⟨m₃, rfl⟩ := hrel.freed_of_eq hl'
      rw [← Heap.freedBlocks_append, hlog, hl'] at hnodup
      have hsplit : l₁ ++ .note (.initCalled config d w) :: m ++
          (m₁ ++ .note (.destroyCalled config d w) :: .freed d :: m₃) =
          (l₁ ++ .note (.initCalled config d w) :: m ++ m₁ ++
            [.note (.destroyCalled config d w)]) ++ .freed d :: m₃ := by
        simp
      obtain ⟨hnot, -⟩ := freed_once (hsplit ▸ hnodup)
      intro hfreed
      refine hnot ?_
      rcases List.mem_append.mp hfreed with hfreed | hfreed <;> simp [hfreed]
    · intro hcalled
      rcases List.mem_append.mp hcalled with hcalled | hcalled
      · exact hnone config d w (by simp [hlog, hcalled])
      · exact hbefore hcalled
  · intro config d w l₁ l₂ heq
    rw [hl] at heq
    obtain ⟨m, rfl, hl'⟩ := split_right heq (hnone config d w)
    obtain ⟨-, s, hconfig, hd⟩ := (hmem config d w).mp (by simp [hl'])
    obtain ⟨hlog, hevents⟩ := hrec.noted.setUp config w s d hconfig hd
    exact ⟨List.mem_append_left _ hlog, fun event hevent =>
      List.mem_append_left _ (Heap.mem_notes.mp (hevents event hevent))⟩
  · intro w
    rw [(destroy_log host.context host.memory).2 w]
    have hempty : destroysOf w host.memory.log = [] := by
      rw [List.eq_nil_iff_forall_not_mem]
      rintro ⟨config, d⟩ hcalled
      exact hnone config d w (mem_destroysOf.mp hcalled)
    rw [hempty, List.nil_append]

/-- Data that were initialised and freed before the destruction are never destroyed. -/
lemma Host.Recorded.not_paired (hrec : host.Recorded configs datas foreign)
    (hdestroy : config.destroy.isSome) (hinit : .initCalled config d w ∈ Heap.notes host.memory.log)
    (hfreed : d ∈ Heap.freedBlocks host.memory.log) : ¬ CallbacksPaired host := by
  intro hpaired
  obtain ⟨l, hl, hrel, hnodup, -⟩ := hrec.log_eq
  have hcalled := hpaired.destroyCalled_mem config d w hdestroy
    (hl ▸ List.mem_append_left _ (Heap.mem_notes.mp hinit))
  -- the callback is called by the destruction, which then frees the data again
  rw [hl, List.mem_append] at hcalled
  obtain ⟨m, m', hl'⟩ := List.mem_iff_append.mp (hcalled.resolve_left fun hcalled =>
    hrec.noted.undestroyed config d w (Heap.mem_notes.mpr hcalled))
  obtain ⟨m₃, rfl⟩ := hrel.freed_of_eq hl'
  rw [Heap.freedBlocks_append, List.nodup_append] at hnodup
  exact hnodup.2.2 d hfreed d (Heap.mem_freedBlocks.mpr (by simp [hl'])) rfl

/-- A registration that does not complete calls `init` for data that it frees. -/
lemma Host.Recorded.freed_of_not_completes (hrec : host.Recorded configs datas foreign)
    {call : Call} (hcompletes : ¬ host.Completes call) :
    ∃ config d, config.destroy.isSome ∧
      .initCalled config d 0 ∈ Heap.notes (call.run host).host.memory.log ∧
      d ∈ Heap.freedBlocks (call.run host).host.memory.log := by
  rcases call with config | _ | _ | _ | _
  case registerSlot =>
    rw [Host.Completes] at hcompletes
    push Not at hcompletes
    obtain ⟨hinit, hdestroy, hgranted, hrefused⟩ := hcompletes
    have hspec : SlotRegistration _ _ config configs datas foreign _ :=
      registerSlot_spec hrec.tabled.1 hrec.tabled.2
    rw [Call.run]
    generalize registerSlot host.context host.memory config = result at hspec
    cases hspec with
    | refused ds htable hown hext hnotes hfreed hgrants hfirst =>
      obtain ⟨d, ds, rfl⟩ := List.exists_cons_of_ne_nil (hfirst.mpr hgranted)
      refine ⟨config, d, hdestroy, ?_, (hfreed d (List.mem_cons_self ..)).2⟩
      -- the first worker has got its data
      rw [hnotes, List.mem_append]
      exact Or.inr (mem_setupAll.mpr ⟨0, d, rfl, mem_setupNotes.mpr (Or.inr ⟨rfl, hinit⟩)⟩)
    | registered ds hlen htable hown hext hnotes hnew hgrants => exact absurd hgrants hrefused
  all_goals exact absurd trivial hcompletes

end Pairing

/-! ### The result -/

section Create

variable {memory memory' : Memory} {physicalCoreCount : ℕ} {config : Option Config}
  {stagingGrows memoryGrants : ℕ → Bool} {context : Context} {foreign : Multiset ℕ}

lemma mem_initWorkers_notes (i n : ℕ) (memory : Memory) (event : PoolEvent)
    (hmem : event ∈ Heap.notes (initWorkers memoryGrants i n memory).2.2.log) :
    event ∈ Heap.notes memory.log ∨ ∃ w, event = .syncInitialised w ∨ event = .memoryCreated w := by
  induction n generalizing i memory with
  | zero => exact Or.inl hmem
  | succ n ih =>
    rw [initWorkers] at hmem
    split at hmem
    case isTrue =>
      rcases ih _ _ hmem with hmem | hevent
      · simp only [Heap.notes_note, List.mem_append, List.mem_singleton] at hmem
        rcases hmem with (hmem | rfl) | rfl
        · exact Or.inl hmem
        · exact Or.inr ⟨i, Or.inl rfl⟩
        · exact Or.inr ⟨i, Or.inr rfl⟩
      · exact Or.inr hevent
    case isFalse =>
      simp only [Heap.notes_note, List.mem_append, List.mem_singleton] at hmem
      exact hmem.imp_right fun heq => ⟨i, Or.inl heq⟩

/-- A creation calls no callbacks. -/
lemma recorded_of_create (hcreate : create memory physicalCoreCount config stagingGrows memoryGrants =
      (some context, memory'))
    (hown : memory.Owns foreign) (hnotes : Heap.notes memory.log = []) :
    Host.Recorded ⟨context, memory'⟩ [] (List.replicate (context.threadCount + 1) []) foreign ∧
      InitsHeld memory' [] (List.replicate (context.threadCount + 1) []) := by
  have hevents : ∀ event ∈ Heap.notes memory'.log,
      ∃ w, event = .syncInitialised w ∨ event = .memoryCreated w := by
    intro event hmem
    have hcases := create_cases memory physicalCoreCount config stagingGrows memoryGrants
    rw [hcreate] at hcases
    cases hcases with
    | @created blocks memory₁ _ _ _ _ hgranted hinit =>
      have hloop := mem_initWorkers_notes 0 (threadCountOf physicalCoreCount config + 1) memory₁
        event (by rwa [hinit])
      rw [hgranted.notes, hnotes] at hloop
      exact hloop.resolve_left List.not_mem_nil
  refine ⟨⟨tabled_of_create hcreate hown, ?_,
    fun config' w s d hconfig => by cases hconfig⟩, ?_⟩
  · intro config' d w hmem
    obtain ⟨w', heq | heq⟩ := hevents _ hmem <;> cases heq
  · intro config' d w hdestroy hmem
    obtain ⟨w', heq | heq⟩ := hevents _ hmem <;> cases heq

/-- Over any sequence of calls, the callbacks of the slots are paired exactly if no
registration of a slot with both callbacks is refused after its first worker has got its
data. -/
theorem callbacks_paired_iff
    (hcreate : create memory physicalCoreCount config stagingGrows memoryGrants =
      (some context, memory'))
    (hown : memory.Owns foreign) (hnotes : Heap.notes memory.log = []) (calls : List Call) :
    CallbacksPaired (Host.after ⟨context, memory'⟩ calls) ↔
      ∀ i (hi : i < calls.length),
        (Host.after ⟨context, memory'⟩ (calls.take i)).Completes calls[i] := by
  obtain ⟨hrec, hheld⟩ := recorded_of_create hcreate hown hnotes
  constructor
  · intro hpaired i hi
    by_contra hcompletes
    obtain ⟨configs₁, datas₁, hrec₁, -⟩ := hrec.after (calls.take i)
    obtain ⟨slot, d, hdestroy, hinit, hfreed⟩ := hrec₁.freed_of_not_completes hcompletes
    obtain ⟨configs₂, datas₂, hrec₂, -⟩ := hrec₁.run calls[i]
    obtain ⟨configs₃, datas₃, hrec₃, hext, -⟩ := hrec₂.after (calls.drop (i + 1))
    rw [← after_take_drop hi] at hrec₃ hext
    exact hrec₃.not_paired hdestroy (hext.notes_subset hinit) (hext.freed_subset hfreed) hpaired
  · intro hcompletes
    obtain ⟨configs', datas', hrec', -, hheld'⟩ := hrec.after calls
    exact hrec'.callbacksPaired (hheld' hcompletes hheld)

end Create

/-- One worker and the main thread: the first registration is refused before any worker has
got its data, the second one completes. -/
theorem callbacks_paired_refused :
    ∃ context memory',
      create ⟨fun request => request != 7, 0, 0, [], []⟩ 2 none (fun _ => false) (fun _ => true) =
        (some context, memory') ∧
      let host := Host.after ⟨context, memory'⟩
        [.registerSlot ⟨8, some 1, some 2, 0⟩, .registerSlot ⟨16, some 3, some 4, 0⟩]
      host.context.slotCount = 1 ∧ CallbacksPaired host := by
  have hcreate : create ⟨fun request => request != 7, 0, 0, [], []⟩ 2 none (fun _ => false)
    (fun _ => true) = (some _, _) := rfl
  exact ⟨_, _, hcreate, rfl,
    (callbacks_paired_iff hcreate Heap.Owns.empty rfl _).mpr (by decide)⟩

/-- One worker and the main thread: the slot array of the main thread is refused, and the
data of the worker, for which `init` was called, are freed without a call of `destroy`. -/
theorem callbacks_unpaired :
    ∃ context memory',
      create ⟨fun request => request != 9, 0, 0, [], []⟩ 2 none (fun _ => false) (fun _ => true) =
        (some context, memory') ∧
      ¬ CallbacksPaired (Host.after ⟨context, memory'⟩ [.registerSlot ⟨8, some 1, some 2, 0⟩]) := by
  have hcreate : create ⟨fun request => request != 9, 0, 0, [], []⟩ 2 none (fun _ => false)
    (fun _ => true) = (some _, _) := rfl
  refine ⟨_, _, hcreate, ?_⟩
  intro hpaired
  have hcalled := hpaired.destroyCalled_mem ⟨8, some 1, some 2, 0⟩ 8 0 rfl (by decide)
  revert hcalled
  decide

end BcConcurrency.Pool
