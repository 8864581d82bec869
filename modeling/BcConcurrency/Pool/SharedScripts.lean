import BcConcurrency.Pool.Ownership
import BcConcurrency.Pool.SharedRefinement
import BcConcurrency.Pool.StagedTasks

/-!
# The calls respect what is lent

The scripts of the calls in shared memory respect what is lent and perform the scripts
of the handshake.  `bc_concurrency_dispatch_and_wait` fills its arrays before it lends
anything.  `bc_concurrency_for` goes on filling its block while the workers it has
served read theirs; the three arrays in the block and their elements have no byte in
common.
-/

namespace BcConcurrency.Pool

namespace Ledger

variable {l l' : Ledger} {store store' : Store} {lent : ℕ → Option Pointer}

/-- The memory when nothing is lent. -/
def settled (store : Store) : Ledger := ⟨store, fun _ => none⟩

lemma respects_settled (store : Store) (op : SharedOp) : (settled store).Respects op := by
  intro i work hlent
  cases hlent

/-! ### Pieces of scripts -/

/-- Operations that neither hand out work nor wait for it. -/
lemma script_sharedScript (l : Ledger) {script : List (MainOp Invocation)}
    (hdispatch : ∀ i work, .dispatch i work ∉ script) (hwait : ∀ i, .wait i ∉ script) :
    Script l (sharedScript script) script l := by
  induction script with
  | nil => exact Script.nil l
  | cons op script ih =>
    have hrest := ih (fun i work hmem => hdispatch i work (List.mem_cons_of_mem _ hmem))
      fun i hmem => hwait i (List.mem_cons_of_mem _ hmem)
    rw [sharedScript, List.flatMap_cons]
    cases op with
    | create i => exact Script.cons (Step.create i) hrest
    | setTls worker => exact Script.cons (Step.setTls worker) hrest
    | run task => exact Script.cons (Step.run task) hrest
    | stop i => exact Script.cons (Step.stop i) hrest
    | join i => exact Script.cons (Step.join i) hrest
    | dispatch i work => exact absurd (List.mem_cons_self ..) (hdispatch i work)
    | wait i => exact absurd (List.mem_cons_self ..) (hwait i)

lemma script_createScript (l : Ledger) (k : ℕ) :
    Script l (sharedScript (createScript k)) (createScript k) l :=
  script_sharedScript l (by simp [createScript]) (by simp [createScript])

lemma script_stopScript (l : Ledger) (k : ℕ) :
    Script l (sharedScript (stopScript k)) (stopScript k) l :=
  script_sharedScript l (by simp [stopScript]) (by simp [stopScript])

lemma script_mainShare (l : Ledger) (t : ℕ) (tasks : List Invocation) :
    Script l (sharedScript (mainShare t tasks)) (mainShare t tasks) l :=
  script_sharedScript l (by simp [mainShare]) (by simp [mainShare])

lemma script_start (l : Ledger) {spawn : SpawnOutcome} {t : ℕ} {spawned : Bool}
    {start : List (MainOp Invocation)} (hstart : Start spawn t spawned start) :
    Script l (sharedScript start) start l := by
  cases hstart with
  | spawned => exact Script.nil l
  | fresh => exact script_createScript l t

/-- Stores while nothing is lent. -/
lemma script_writes {writes : List (Pointer × SharedObject)}
    (hwrites : store.writeAll SharedObject.bytes writes = some store') :
    Script (settled store) (writeOps writes) [] (settled store') := by
  induction writes generalizing store with
  | nil =>
    cases hwrites
    exact Script.nil _
  | cons w writes ih =>
    rw [Objects.writeAll_cons, Option.bind_eq_some_iff] at hwrites
    obtain ⟨store₁, hwrite, hrest⟩ := hwrites
    exact Script.cons (Step.write (respects_settled _ _) hwrite) (ih hrest)

/-- Dispatches to different workers that have not been lent anything. -/
lemma script_dispatches (store : Store) (lent : ℕ → Option Pointer) {workers : List ℕ}
    (hnodup : workers.Nodup) (work : ℕ → Pointer) (entries : ℕ → List TaskEntry)
    (hlent : ∀ i ∈ workers, lent i = none)
    (hwork : ∀ i ∈ workers, store.workAt (work i) = some (entries i)) :
    Script ⟨store, lent⟩ (workers.map fun i => .dispatch i (work i))
      (workers.map fun i => .dispatch i ((entries i).flatMap TaskEntry.invocations))
      ⟨store, fun i => if i ∈ workers then some (work i) else lent i⟩ := by
  induction workers generalizing lent with
  | nil => simpa using Script.nil ⟨store, lent⟩
  | cons i workers ih =>
    rw [List.nodup_cons] at hnodup
    have hrest := ih (Function.update lent i (some (work i))) hnodup.2
      (fun j hj => by
        rw [Function.update_of_ne (ne_of_mem_of_not_mem hj hnodup.1)]
        exact hlent j (List.mem_cons_of_mem _ hj))
      fun j hj => hwork j (List.mem_cons_of_mem _ hj)
    have hfinal : (fun j => if j ∈ workers then some (work j)
        else Function.update lent i (some (work i)) j) =
        fun j => if j ∈ i :: workers then some (work j) else lent j := by
      ext j : 1
      by_cases hj : j = i
      · subst hj
        simp [hnodup.1]
      · simp [hj]
    rw [hfinal] at hrest
    exact Script.cons (Step.dispatch (hlent i (List.mem_cons_self ..))
      (hwork i (List.mem_cons_self ..))) hrest

/-- Waits give back what was lent to the workers. -/
lemma script_waits (store : Store) (lent : ℕ → Option Pointer) (workers : List ℕ) :
    Script ⟨store, lent⟩ (workers.map .wait) (workers.map .wait)
      ⟨store, fun i => if i ∈ workers then none else lent i⟩ := by
  induction workers generalizing lent with
  | nil => simpa using Script.nil ⟨store, lent⟩
  | cons i workers ih =>
    have hrest := ih (Function.update lent i none)
    have hfinal : (fun j => if j ∈ workers then none else Function.update lent i none j) =
        fun j => if j ∈ i :: workers then none else lent j := by
      ext j : 1
      by_cases hj : j = i
      · subst hj
        simp
      · simp [hj]
    rw [hfinal] at hrest
    exact Script.cons (Step.wait i) hrest

/-- The main thread calls what it reads in entries. -/
lemma script_runEntries {n : ℕ} (p : ℕ → Pointer) (tasks : List TaskEntry) (hlen : tasks.length = n)
    (hread : ∀ k, k < n → ∃ f a, tasks[k]? = some (.task f a) ∧
      l.store.read (p k) = some (.entry (.task f a))) :
    Script l ((List.range n).map fun k => .runEntry (p k))
      ((tasks.flatMap TaskEntry.invocations).map .run) l := by
  induction tasks generalizing n p with
  | nil =>
    obtain rfl : 0 = n := hlen
    exact Script.nil l
  | cons task tasks ih =>
    obtain rfl : tasks.length + 1 = n := hlen
    obtain ⟨f, a, htask, hread₀⟩ := hread 0 (Nat.succ_pos _)
    obtain rfl : task = .task f a := Option.some.inj htask
    have hrest := ih (fun k => p (k + 1)) rfl fun k hk => hread (k + 1) (by omega)
    rw [List.range_succ_eq_map, List.map_cons, List.map_map]
    exact Script.cons (Step.runEntry hread₀) hrest

end Ledger

/-! ### The staged entries -/

section Staged

variable {store store₁ store₂ : Store} {staged : List TaskEntry} {p : Pointer}

/-- Only functions of the client are staged. -/
def Plain (staged : List TaskEntry) : Prop := ∀ entry ∈ staged, ∃ f a, entry = .task f a

lemma length_filterMap_stored (hplain : Plain staged) :
    (staged.filterMap TaskEntry.stored).length = staged.length := by
  induction staged with
  | nil => rfl
  | cons entry staged ih =>
    obtain ⟨f, a, rfl⟩ := hplain entry (List.mem_cons_self ..)
    show (StoredEntry.task f a :: staged.filterMap TaskEntry.stored).length = _
    rw [List.length_cons, List.length_cons, ih fun e he => hplain e (List.mem_cons_of_mem _ he)]

lemma getElem?_filterMap_stored (hplain : Plain staged) (k : ℕ) :
    (staged.filterMap TaskEntry.stored)[k]? = staged[k]?.bind TaskEntry.stored := by
  induction staged generalizing k with
  | nil => simp
  | cons entry staged ih =>
    obtain ⟨f, a, rfl⟩ := hplain entry (List.mem_cons_self ..)
    show (StoredEntry.task f a :: staged.filterMap TaskEntry.stored)[k]? = _
    cases k with
    | zero => rfl
    | succ k =>
      rw [List.getElem?_cons_succ, List.getElem?_cons_succ,
        ih fun e he => hplain e (List.mem_cons_of_mem _ he)]

/-- The copy of the staged entries. -/
lemma exists_entryWrites {size : ℕ} (hplain : Plain staged) (hsize : store.size p.block = some size)
    (hfits : p.offset + staged.length * taskEntryBytes ≤ size) :
    ∃ store₁ : Store, store.writeAll SharedObject.bytes (entryWrites p staged) = some store₁ ∧
      store₁.size = store.size ∧
      ∀ k f a, staged[k]? = some (.task f a) →
        store₁.read (p.add (k * taskEntryBytes)) = some (.entry (.task f a)) := by
  have hlen := length_filterMap_stored hplain
  have hfits' : ∀ w ∈ entryWrites p staged, ∃ size, store.size w.1.block = some size ∧
      w.1.offset + w.2.bytes ≤ size := by
    intro w hw
    obtain ⟨⟨entry, i⟩, hmem, rfl⟩ := List.mem_map.mp hw
    have hi := (List.mem_zipIdx' hmem).1
    refine ⟨size, hsize, ?_⟩
    simp only [Pointer.add_offset, SharedObject.bytes, taskEntryBytes] at hfits ⊢
    omega
  have hapart : (entryWrites p staged).Pairwise fun v w =>
      Objects.Apart SharedObject.bytes w.1 w.2 v.1 v.2 := by
    rw [entryWrites, List.pairwise_map, List.pairwise_iff_getElem]
    intro i j hi hj hlt _
    simp only [List.getElem_zipIdx, Pointer.add_offset, SharedObject.bytes, taskEntryBytes]
    omega
  obtain ⟨store₁, hwrite, hstored⟩ := Objects.exists_writeAll SharedObject.bytes_pos hfits' hapart
  refine ⟨store₁, hwrite, hstored.size, ?_⟩
  intro k f a hk
  refine hstored.stored (p.add (k * taskEntryBytes), .entry (.task f a)) ?_
  refine List.mem_map.mpr ⟨(.task f a, k), ?_, rfl⟩
  rw [List.mem_zipIdx_iff_getElem?, getElem?_filterMap_stored hplain, hk]
  rfl

/-- The loop that fills `assignments`. -/
lemma exists_assignmentWrites {dispatchWork n t : ℕ}
    (hsize : store₁.size dispatchWork = some ((t + 1) * workBytes)) (hne : p.block ≠ dispatchWork) :
    ∃ store₂ : Store, store₁.writeAll SharedObject.bytes (assignmentWrites p dispatchWork n t) =
        some store₂ ∧ store₂.size = store₁.size ∧
      (∀ i, i < t + 1 → store₂.read (assignmentAt dispatchWork i) =
        some (.work (p.add ((EvenSplit.part n (t + 1) i).1 * taskEntryBytes))
          (EvenSplit.part n (t + 1) i).2)) ∧
      ∀ q b, q.block = p.block → store₁.read q = some b → store₂.read q = some b := by
  have hfits : ∀ w ∈ assignmentWrites p dispatchWork n t, ∃ size,
      store₁.size w.1.block = some size ∧ w.1.offset + w.2.bytes ≤ size := by
    intro w hw
    obtain ⟨i, hi, rfl⟩ := List.mem_map.mp hw
    rw [List.mem_range] at hi
    refine ⟨_, hsize, ?_⟩
    simp only [assignmentAt, SharedObject.bytes, workBytes]
    omega
  have hapart : (assignmentWrites p dispatchWork n t).Pairwise fun v w =>
      Objects.Apart SharedObject.bytes w.1 w.2 v.1 v.2 := by
    rw [assignmentWrites, List.pairwise_map]
    refine List.pairwise_lt_range.imp ?_
    intro i j hlt _
    simp only [assignmentAt, SharedObject.bytes, workBytes]
    omega
  obtain ⟨store₂, hwrite, hstored⟩ := Objects.exists_writeAll SharedObject.bytes_pos hfits hapart
  refine ⟨store₂, hwrite, hstored.size, ?_, ?_⟩
  · intro i hi
    exact hstored.stored (_, _) (List.mem_map.mpr ⟨i, List.mem_range.mpr hi, rfl⟩)
  · intro q b hq hread
    refine hstored.kept q b hread ?_
    intro w hw hblock
    obtain ⟨i, -, rfl⟩ := List.mem_map.mp hw
    exact absurd (hq.symm.trans hblock) hne

/-- An assignment leads to its part of the staged entries. -/
lemma workAt_assignment {q : Pointer} {part : ℕ × ℕ} (hplain : Plain staged)
    (hpart : part.1 + part.2 ≤ staged.length)
    (hwork : store.read q = some (.work (p.add (part.1 * taskEntryBytes)) part.2))
    (hentries : ∀ k f a, staged[k]? = some (.task f a) →
      store.read (p.add (k * taskEntryBytes)) = some (.entry (.task f a))) :
    store.workAt q = some (EvenSplit.slice staged part) := by
  have hlen := EvenSplit.length_slice hpart
  refine Store.workAt_eq_some_iff.mpr ⟨p.add (part.1 * taskEntryBytes), by rw [hlen]; exact hwork, ?_⟩
  intro k hk
  rw [hlen] at hk
  have hk' : part.1 + k < staged.length := by omega
  obtain ⟨f, a, htask⟩ := hplain _ (List.getElem_mem hk')
  have hget : (EvenSplit.slice staged part)[k]? = some (.task f a) := by
    rw [EvenSplit.slice, List.getElem?_take, if_pos hk, List.getElem?_drop,
      List.getElem?_eq_getElem hk', htask]
  have hadd : (p.add (part.1 * taskEntryBytes)).add (k * taskEntryBytes) =
      p.add ((part.1 + k) * taskEntryBytes) := by
    simp only [Pointer.add, Nat.add_mul, Nat.add_assoc]
  rw [hget, hadd]
  exact Store.entryAt_task (hentries _ f a (by rw [List.getElem?_eq_getElem hk', htask]))

/-- The main thread runs its part. -/
lemma script_mainPart (l : Ledger) {t : ℕ} {cells : List TaskEntry} {part : ℕ × ℕ}
    (hplain : Plain staged) (hpart : part.1 + part.2 ≤ staged.length)
    (hcells : workOf cells part = (EvenSplit.slice staged part).flatMap TaskEntry.invocations)
    (hentries : ∀ k f a, staged[k]? = some (.task f a) →
      l.store.read (p.add (k * taskEntryBytes)) = some (.entry (.task f a))) :
    Ledger.Script l (mainPartOps t p part) (mainPart t cells part) l := by
  have hlen := EvenSplit.length_slice hpart
  rw [mainPartOps, mainPart]
  split
  case isFalse => exact Ledger.Script.nil l
  case isTrue =>
    rw [hcells, mainShare]
    refine Ledger.Script.append (Ledger.Script.cons (.setTls _) ?_)
      (Ledger.Script.single (.setTls none))
    refine Ledger.script_runEntries _ _ hlen fun k hk => ?_
    have hk' : part.1 + k < staged.length := by omega
    obtain ⟨f, a, htask⟩ := hplain _ (List.getElem_mem hk')
    refine ⟨f, a, ?_, hentries _ f a (by rw [List.getElem?_eq_getElem hk', htask])⟩
    rw [List.getElem?_eq_getElem (by omega), ← htask]
    simp [EvenSplit.slice]

/-- The dispatch of the staged entries. -/
lemma script_dispatchRound {dispatchWork t size : ℕ} {buffer : DispatchBuffer}
    (hplain : Plain staged) (hsize : store.size p.block = some size)
    (hfits : p.offset + staged.length * taskEntryBytes ≤ size)
    (hwork : store.size dispatchWork = some ((t + 1) * workBytes)) (hne : p.block ≠ dispatchWork)
    (hroom : staged.length ≤ buffer.room) :
    ∃ store', store'.size = store.size ∧
      Ledger.Script (Ledger.settled store) (dispatchRoundOps p dispatchWork t staged)
        (dispatchRound staged.length t (buffer.copy staged).cells).script
        (Ledger.settled store') := by
  obtain ⟨store₁, hwrites₁, hsize₁, hentries₁⟩ := exists_entryWrites hplain hsize hfits
  obtain ⟨store₂, hwrites₂, hsize₂, hassignments, hkept⟩ :=
    exists_assignmentWrites (p := p) (n := staged.length) (by rw [hsize₁]; exact hwork) hne
  have hentries (k f a : ℕ) (hk : staged[k]? = some (.task f a)) :
      store₂.read (p.add (k * taskEntryBytes)) = some (.entry (.task f a)) :=
    hkept _ _ rfl (hentries₁ k f a hk)
  have hworkAt (i : ℕ) (hi : i ∈ assigned staged.length t) :
      store₂.workAt (assignmentAt dispatchWork i) = some (shareOf staged t i) := by
    have hlt : i < t + 1 := (lt_of_mem_assigned hi).trans (Nat.lt_succ_self t)
    exact workAt_assignment hplain (EvenSplit.part_le hlt) (hassignments i hlt) hentries
  refine ⟨store₂, hsize₂.trans hsize₁, ?_⟩
  have hdispatches := Ledger.script_dispatches store₂ (fun _ => none)
    (nodup_assigned staged.length t) (assignmentAt dispatchWork) (shareOf staged t)
    (fun _ _ => rfl) hworkAt
  have hmain := script_mainPart
    ⟨store₂, fun i => if i ∈ assigned staged.length t then some (assignmentAt dispatchWork i)
      else none⟩ (t := t) hplain (EvenSplit.part_le (Nat.lt_succ_self t))
    (workOf_copy hroom (Nat.lt_succ_self t)) hentries
  have hwaits := Ledger.script_waits store₂
    (fun i => if i ∈ assigned staged.length t then some (assignmentAt dispatchWork i)
      else none) (assigned staged.length t)
  have hfinal : (fun i => if i ∈ assigned staged.length t then none
      else if i ∈ assigned staged.length t then some (assignmentAt dispatchWork i) else none) =
      fun _ => none := by
    ext i : 1
    split <;> rfl
  rw [hfinal] at hwaits
  have hscript := ((((Ledger.script_writes hwrites₁).append
    (Ledger.script_writes hwrites₂)).append hdispatches).append hmain).append hwaits
  have hvalue : (assigned staged.length t).map (fun i =>
      (.dispatch i ((shareOf staged t i).flatMap TaskEntry.invocations) : MainOp Invocation)) =
      (dispatchRound staged.length t (buffer.copy staged).cells).assignments.map fun a =>
        .dispatch a.1 a.2 := by
    rw [dispatchRound, List.map_map]
    refine List.map_congr_left fun i hi => ?_
    have hlt : i < t + 1 := (lt_of_mem_assigned hi).trans (Nat.lt_succ_self t)
    simp only [Function.comp_apply, workOf_copy hroom hlt]
  rw [hvalue] at hscript
  exact hscript

end Staged

/-! ### The chunks of a parallel loop -/

section Chunks

variable {store store' : Store} {alloc t i j : ℕ} {chunk : ForChunk}

/-- The three records of worker `i` are in place. -/
def Laid (store : Store) (alloc t i : ℕ) (chunk : ForChunk) : Prop :=
  ∀ w ∈ chunkWrites alloc t i chunk, store.read w.1 = some w.2

namespace Laid

lemma read_chunk (hlaid : Laid store alloc t i chunk) :
    store.read (chunkAt alloc i) = some (.chunk chunk) :=
  hlaid (chunkAt alloc i, .chunk chunk) (List.mem_cons_self ..)

lemma read_entry (hlaid : Laid store alloc t i chunk) :
    store.read (chunkEntryAt alloc t i) = some (.entry (.chunkRunner (chunkAt alloc i))) :=
  hlaid (chunkEntryAt alloc t i, .entry (.chunkRunner (chunkAt alloc i))) (by simp [chunkWrites])

lemma read_work (hlaid : Laid store alloc t i chunk) :
    store.read (chunkWorkAt alloc t i) = some (.work (chunkEntryAt alloc t i) 1) :=
  hlaid (chunkWorkAt alloc t i, .work (chunkEntryAt alloc t i) 1) (by simp [chunkWrites])

end Laid

/-- The arrays of the block lie behind each other, and so do their elements. -/
lemma apart_chunkWrites (ht : t < 2 ^ 32) (hi : i < t) (hj : j < t) (hne : i ≠ j)
    {chunk chunk' : ForChunk} {v w : Pointer × SharedObject} (hv : v ∈ chunkWrites alloc t i chunk)
    (hw : w ∈ chunkWrites alloc t j chunk') : Objects.Apart SharedObject.bytes v.1 v.2 w.1 w.2 := by
  have hchunks : word (t * 40) = t * 40 := word_of_lt (by omega)
  have hentries : word (t * 16) = t * 16 := word_of_lt (by omega)
  intro _
  simp only [chunkWrites, chunkAt, chunkEntryAt, chunkWorkAt, forChunkBytes, taskEntryBytes,
    workBytes, hchunks, hentries, List.mem_cons, List.not_mem_nil, or_false] at hv hw
  rcases hv with rfl | rfl | rfl <;> rcases hw with rfl | rfl | rfl <;>
    simp only [SharedObject.bytes, forChunkBytes, taskEntryBytes, workBytes] <;> omega

/-- The records of one worker have no byte in common. -/
lemma pairwise_chunkWrites (ht : t < 2 ^ 32) (hi : i < t) :
    (chunkWrites alloc t i chunk).Pairwise fun v w =>
      Objects.Apart SharedObject.bytes w.1 w.2 v.1 v.2 := by
  have hchunks : word (t * 40) = t * 40 := word_of_lt (by omega)
  have hentries : word (t * 16) = t * 16 := word_of_lt (by omega)
  simp only [chunkWrites, chunkAt, chunkEntryAt, chunkWorkAt, forChunkBytes, taskEntryBytes,
    workBytes, hchunks, hentries, List.pairwise_cons, List.mem_cons, List.not_mem_nil, or_false,
    forall_eq_or_imp, forall_eq, Objects.Apart, SharedObject.bytes, List.Pairwise.nil, and_true,
    IsEmpty.forall_iff, implies_true, true_imp_iff]
  omega

lemma fits_chunkWrites (ht : t < 2 ^ 32) (hi : i < t)
    (hsize : store.size alloc = some (forBytes t)) :
    ∀ w ∈ chunkWrites alloc t i chunk, ∃ size, store.size w.1.block = some size ∧
      w.1.offset + w.2.bytes ≤ size := by
  have hchunks : word (t * 40) = t * 40 := word_of_lt (by omega)
  have hentries : word (t * 16) = t * 16 := word_of_lt (by omega)
  have htotal : word (t * 40 + t * 16 + t * 16) = t * 40 + t * 16 + t * 16 :=
    word_of_lt (by omega)
  intro w hw
  refine ⟨forBytes t, ?_⟩
  simp only [chunkWrites, chunkAt, chunkEntryAt, chunkWorkAt, List.mem_cons, List.not_mem_nil,
    or_false] at hw
  rcases hw with rfl | rfl | rfl <;> refine ⟨hsize, ?_⟩ <;>
    simp only [SharedObject.bytes, forBytes, forChunkBytes, taskEntryBytes, workBytes, hchunks,
      hentries, htotal] <;> omega

/-- What a worker of the loop reaches are its three records. -/
lemma Laid.reaches (hlaid : Laid store alloc t i chunk) {q : Pointer}
    (hq : store.Reaches (chunkWorkAt alloc t i) q) :
    ∃ w ∈ chunkWrites alloc t i chunk, w.1 = q := by
  rcases hq with rfl | ⟨tasks, count, k, hread, hk, hq⟩
  · exact ⟨(chunkWorkAt alloc t i, .work (chunkEntryAt alloc t i) 1), by simp [chunkWrites], rfl⟩
  · rw [hlaid.read_work, Option.some.injEq, SharedObject.work.injEq] at hread
    obtain ⟨rfl, rfl⟩ := hread
    obtain rfl : k = 0 := by omega
    rw [Nat.zero_mul, Pointer.add_zero, hlaid.read_entry] at hq
    rcases hq with rfl | hq
    · exact ⟨(chunkEntryAt alloc t i, .entry (.chunkRunner (chunkAt alloc i))),
        by simp [chunkWrites], rfl⟩
    · simp only [Option.some.injEq, SharedObject.entry.injEq, StoredEntry.chunkRunner.injEq] at hq
      subst hq
      exact ⟨(chunkAt alloc i, .chunk chunk), by simp [chunkWrites], rfl⟩

lemma Laid.workAt (hlaid : Laid store alloc t i chunk) :
    store.workAt (chunkWorkAt alloc t i) = some [.chunkRunner chunk] := by
  refine Store.workAt_eq_some_iff.mpr ⟨chunkEntryAt alloc t i, hlaid.read_work, ?_⟩
  intro k hk
  obtain rfl : k = 0 := by simpa using hk
  rw [Nat.zero_mul, Pointer.add_zero]
  exact Store.entryAt_chunkRunner hlaid.read_entry hlaid.read_chunk

/-- A store for another worker leaves the records in place. -/
lemma Laid.write (ht : t < 2 ^ 32) (hi : i < t) (hj : j < t) (hne : i ≠ j)
    {chunk' : ForChunk} {w : Pointer × SharedObject} (hw : w ∈ chunkWrites alloc t i chunk')
    (hwrite : store.write SharedObject.bytes w.1 w.2 = some store')
    (hlaid : Laid store alloc t j chunk) : Laid store' alloc t j chunk := by
  intro v hv
  exact Objects.read_write_of_apart SharedObject.bytes_pos hwrite (hlaid v hv)
    (apart_chunkWrites ht hi hj hne hw hv)

/-- The workers below `i` have been lent their records, and the others nothing. -/
structure Served (store : Store) (lent : ℕ → Option Pointer) (alloc t i : ℕ) : Prop where
  lent : ∀ j, lent j = if j < i then some (chunkWorkAt alloc t j) else none
  laid : ∀ j, j < i → ∃ chunk, Laid store alloc t j chunk

/-- A store for worker `i` respects what the workers below were lent. -/
lemma Served.respects {lent : ℕ → Option Pointer} (hserved : Served store lent alloc t i)
    (ht : t < 2 ^ 32) (hi : i < t) {w : Pointer × SharedObject}
    (hw : w ∈ chunkWrites alloc t i chunk) :
    (Ledger.mk store lent).Respects (.write w.1 w.2) := by
  intro j work hwork q hq b hread
  have hlent : lent j = some work := hwork
  rw [hserved.lent] at hlent
  split at hlent
  case isTrue hj =>
    cases hlent
    obtain ⟨chunk', hlaid⟩ := hserved.laid j hj
    obtain ⟨v, hv, rfl⟩ := hlaid.reaches hq
    obtain rfl : v.2 = b := Option.some.inj ((hlaid v hv).symm.trans hread)
    exact apart_chunkWrites ht hi (hj.trans hi) hj.ne' hw hv
  case isFalse => cases hlent

/-- The stores for worker `i`. -/
lemma Served.writes {lent : ℕ → Option Pointer} (hserved : Served store lent alloc t i)
    (ht : t < 2 ^ 32) (hi : i < t) {writes : List (Pointer × SharedObject)}
    (hsub : ∀ w ∈ writes, w ∈ chunkWrites alloc t i chunk)
    (hwrites : store.writeAll SharedObject.bytes writes = some store') :
    Ledger.Script ⟨store, lent⟩ (writeOps writes) [] ⟨store', lent⟩ ∧
      Served store' lent alloc t i := by
  induction writes generalizing store with
  | nil =>
    cases hwrites
    exact ⟨Ledger.Script.nil _, hserved⟩
  | cons w writes ih =>
    rw [Objects.writeAll_cons, Option.bind_eq_some_iff] at hwrites
    obtain ⟨store₁, hwrite, hrest⟩ := hwrites
    have hw := hsub w (List.mem_cons_self ..)
    have hserved₁ : Served store₁ lent alloc t i := by
      refine ⟨hserved.lent, fun j hj => ?_⟩
      obtain ⟨chunk', hlaid⟩ := hserved.laid j hj
      exact ⟨chunk', hlaid.write ht hi (hj.trans hi) hj.ne' hw hwrite⟩
    obtain ⟨hscript, hserved'⟩ := ih hserved₁ (fun v hv => hsub v (List.mem_cons_of_mem _ hv)) hrest
    exact ⟨Ledger.Script.cons (.write (hserved.respects ht hi hw) hwrite) hscript, hserved'⟩

/-- The loop that fills the block and serves the workers from `i` on. -/
lemma script_chunkOps {lent : ℕ → Option Pointer} (ht : t < 2 ^ 32) (chunks : List ForChunk)
    (hlen : i + chunks.length = t) (hsize : store.size alloc = some (forBytes t))
    (hserved : Served store lent alloc t i) :
    ∃ store' : Store, store'.size = store.size ∧
      Ledger.Script ⟨store, lent⟩ (chunkOps alloc t i chunks)
        ((chunks.zipIdx i).map fun a => .dispatch a.2 (TaskEntry.chunkRunner a.1).invocations)
        ⟨store', fun j => if j < t then some (chunkWorkAt alloc t j) else none⟩ := by
  induction chunks generalizing i store lent with
  | nil =>
    obtain rfl : i = t := hlen
    have hlent : lent = fun j => if j < i then some (chunkWorkAt alloc i j) else none := by
      ext j : 1
      exact hserved.lent j
    exact ⟨store, rfl, hlent ▸ Ledger.Script.nil _⟩
  | cons chunk chunks ih =>
    rw [List.length_cons] at hlen
    have hi : i < t := by omega
    obtain ⟨store₁, hwrites, hstored⟩ := Objects.exists_writeAll SharedObject.bytes_pos
      (fits_chunkWrites ht hi hsize) (pairwise_chunkWrites ht hi)
    obtain ⟨hscript, hserved₁⟩ := hserved.writes ht hi (fun w hw => hw) hwrites
    have hlaid : Laid store₁ alloc t i chunk := hstored.stored
    have hserved₂ : Served store₁ (Function.update lent i (some (chunkWorkAt alloc t i))) alloc t
        (i + 1) := by
      refine ⟨fun j => ?_, fun j hj => ?_⟩
      · by_cases hj : j = i
        · subst hj
          simp
        · rw [Function.update_of_ne hj, hserved.lent]
          congr 1
          exact propext ⟨fun h => by omega, fun h => by omega⟩
      · by_cases hj' : j = i
        · exact ⟨chunk, hj' ▸ hlaid⟩
        · exact hserved₁.laid j (by omega)
    obtain ⟨store', hsize', hrest⟩ := ih (by omega) (by rw [hstored.size]; exact hsize) hserved₂
    refine ⟨store', hsize'.trans hstored.size, ?_⟩
    have hlent : lent i = none := by rw [hserved.lent, if_neg (lt_irrefl i)]
    have hdispatch := Ledger.Script.cons (Ledger.Step.dispatch (l := ⟨store₁, lent⟩) hlent
      hlaid.workAt) hrest
    rw [List.flatMap_singleton] at hdispatch
    exact hscript.append hdispatch

/-- The block of a parallel loop is allocated, filled and lent, given back and freed. -/
lemma script_forRound (ht : t < 2 ^ 32) (store : Store) (alloc : ℕ) (range : ForRange) :
    ∃ store' : Store, (∀ block, block ≠ alloc → store'.size block = store.size block) ∧
      Ledger.Script (Ledger.settled store)
        ([.allocate alloc (forBytes t)] ++ chunkOps alloc t 0 (range.workerChunks t) ++
          sharedScript (mainShare t
            (range.iterations (ForRange.mainCount range.totalIterations (t + 1)))) ++
          (List.range t).map .wait ++ [.free alloc])
        (range.round t).script (Ledger.settled store') := by
  have hsize : (store.allocate alloc (forBytes t)).size alloc = some (forBytes t) := by simp
  have hserved : Served (store.allocate alloc (forBytes t)) (fun _ => none) alloc t 0 :=
    ⟨by simp, by simp⟩
  obtain ⟨store₁, hsize₁, hchunks⟩ := script_chunkOps ht (range.workerChunks t)
    (by rw [range.length_workerChunks, Nat.zero_add]) hsize hserved
  have hwaits := Ledger.script_waits store₁
    (fun i => if i < t then some (chunkWorkAt alloc t i) else none) (List.range t)
  have hfinal : (fun i => if i ∈ List.range t then none
      else if i < t then some (chunkWorkAt alloc t i) else none) = fun _ => none := by
    ext i : 1
    by_cases hi : i < t <;> simp [hi]
  rw [hfinal] at hwaits
  refine ⟨store₁.free alloc, ?_, ?_⟩
  · intro block hblock
    rw [Objects.free_size, hsize₁]
    simp [hblock]
  · have hlive : (store₁.size alloc).isSome := by rw [hsize₁, hsize]; rfl
    have hallocate := Ledger.Script.single (Ledger.Step.allocate (l := Ledger.settled store)
      (Ledger.respects_settled store (.allocate alloc (forBytes t))))
    have hmain := Ledger.script_mainShare
      ⟨store₁, fun i => if i < t then some (chunkWorkAt alloc t i) else none⟩ t
      (range.iterations (ForRange.mainCount range.totalIterations (t + 1)))
    have hfree := Ledger.Script.single (Ledger.Step.free (l := Ledger.settled store₁)
      (Ledger.respects_settled store₁ (.free alloc)) hlive)
    have hscript := (((hallocate.append hchunks).append hmain).append hwaits).append hfree
    rw [List.append_nil, List.nil_append] at hscript
    have hvalue : (range.round t).assignments.map (fun a => (.dispatch a.1 a.2 : MainOp Invocation)) =
        (range.workerChunks t).zipIdx.map fun a =>
          .dispatch a.2 (TaskEntry.chunkRunner a.1).invocations := by
      show (range.assignments t).map _ = _
      rw [ForRange.assignments, List.map_map]
      rfl
    rw [Round.script, hvalue]
    exact hscript

end Chunks

end BcConcurrency.Pool
