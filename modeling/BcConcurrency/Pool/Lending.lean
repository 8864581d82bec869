import BcConcurrency.Pool.SharedMemory

/-!
# Lent records

From the dispatch of a work pointer to the return of the wait, the records that the
worker can reach from it are lent to the worker: the main thread leaves them alone.
Under this discipline the handshake over shared memory refines the handshake that
passes lists of calls: what a worker reads is what was there when the pointer was
handed to it.
-/

namespace BcConcurrency.Pool

/-! ### What a worker reaches -/

namespace Store

variable {store store' : Store} {p q work : Pointer} {entry : TaskEntry} {entries : List TaskEntry}

/-- The addresses that a worker reads for a work pointer. -/
def Reaches (store : Store) (work q : Pointer) : Prop :=
  q = work ∨ ∃ tasks count i, store.read work = some (.work tasks count) ∧ i < count ∧
    (q = tasks.add (i * taskEntryBytes) ∨
      store.read (tasks.add (i * taskEntryBytes)) = some (.entry (.chunkRunner q)))

/-- The records that a worker reaches are as they were. -/
def Keeps (store store' : Store) (work : Pointer) : Prop :=
  ∀ q b, store.Reaches work q → store.read q = some b → store'.read q = some b

lemma entryAt_eq_some (h : store.entryAt p = some entry) :
    (∃ f a, entry = .task f a ∧ store.read p = some (.entry (.task f a))) ∨
      ∃ q chunk, entry = .chunkRunner chunk ∧ store.read p = some (.entry (.chunkRunner q)) ∧
        store.read q = some (.chunk chunk) := by
  rw [entryAt] at h
  split at h
  case h_1 f a hread =>
    cases h
    exact Or.inl ⟨f, a, rfl, hread⟩
  case h_2 q hread =>
    split at h
    case h_1 chunk hchunk =>
      cases h
      exact Or.inr ⟨q, chunk, rfl, hread, hchunk⟩
    case h_2 => cases h
  case h_3 => cases h

lemma entryAt_task {f a : ℕ} (hread : store.read p = some (.entry (.task f a))) :
    store.entryAt p = some (.task f a) := by
  rw [entryAt, hread]

lemma entryAt_chunkRunner {chunk : ForChunk}
    (hread : store.read p = some (.entry (.chunkRunner q)))
    (hchunk : store.read q = some (.chunk chunk)) : store.entryAt p = some (.chunkRunner chunk) := by
  rw [entryAt, hread]
  simp only [hchunk]

lemma entriesAt_eq_some_iff {tasks : Pointer} {i count : ℕ} :
    store.entriesAt tasks i count = some entries ↔ entries.length = count ∧
      ∀ k, k < count → store.entryAt (tasks.add ((i + k) * taskEntryBytes)) = entries[k]? := by
  induction count generalizing i entries with
  | zero => simp [entriesAt, List.length_eq_zero_iff, eq_comm]
  | succ count ih =>
    have hcons : store.entriesAt tasks i (count + 1) = some entries ↔
        ∃ entry rest, store.entryAt (tasks.add (i * taskEntryBytes)) = some entry ∧
          store.entriesAt tasks (i + 1) count = some rest ∧ entries = entry :: rest := by
      rw [entriesAt]
      simp only [Option.bind_eq_bind, Option.bind_eq_some_iff, Option.pure_def, Option.some.injEq]
      constructor
      · rintro ⟨entry, hentry, rest, hrest, rfl⟩
        exact ⟨entry, rest, hentry, hrest, rfl⟩
      · rintro ⟨entry, rest, hentry, hrest, rfl⟩
        exact ⟨entry, hentry, rest, hrest, rfl⟩
    rw [hcons]
    constructor
    · rintro ⟨entry, rest, hentry, hrest, rfl⟩
      obtain ⟨hlen, hall⟩ := ih.mp hrest
      refine ⟨by simp [hlen], ?_⟩
      intro k hk
      cases k with
      | zero => simpa using hentry
      | succ k =>
        rw [List.getElem?_cons_succ, ← hall k (by omega)]
        congr 3
        omega
    · rintro ⟨hlen, hall⟩
      cases entries with
      | nil => simp at hlen
      | cons entry rest =>
        refine ⟨entry, rest, by simpa using hall 0 (Nat.succ_pos _), ih.mpr ⟨by simpa using hlen, ?_⟩,
          rfl⟩
        intro k hk
        rw [← List.getElem?_cons_succ (a := entry), ← hall (k + 1) (by omega)]
        congr 3
        omega

/-- A work pointer leads to a record, and from there to the entries. -/
lemma workAt_eq_some_iff : store.workAt work = some entries ↔
    ∃ tasks, store.read work = some (.work tasks entries.length) ∧
      ∀ k, k < entries.length → store.entryAt (tasks.add (k * taskEntryBytes)) = entries[k]? := by
  rw [workAt]
  constructor
  · intro h
    split at h
    case h_1 tasks count hread =>
      obtain ⟨rfl, hall⟩ := entriesAt_eq_some_iff.mp h
      exact ⟨tasks, hread, by simpa using hall⟩
    case h_2 => cases h
  · rintro ⟨tasks, hread, hall⟩
    rw [hread]
    exact entriesAt_eq_some_iff.mpr ⟨rfl, by simpa using hall⟩

namespace Keeps

/-- What is kept leads to the same entries. -/
lemma workAt (hkeeps : store.Keeps store' work) (hwork : store.workAt work = some entries) :
    store'.workAt work = some entries := by
  obtain ⟨tasks, hread, hall⟩ := workAt_eq_some_iff.mp hwork
  refine workAt_eq_some_iff.mpr ⟨tasks, hkeeps _ _ (Or.inl rfl) hread, ?_⟩
  intro k hk
  have hentry := hall k hk
  rw [List.getElem?_eq_getElem hk] at hentry ⊢
  rcases entryAt_eq_some hentry with ⟨f, a, heq, htask⟩ | ⟨q, chunk, heq, hrunner, hchunk⟩
  · rw [heq]
    exact entryAt_task (hkeeps _ _ (Or.inr ⟨tasks, _, k, hread, hk, Or.inl rfl⟩) htask)
  · rw [heq]
    exact entryAt_chunkRunner (hkeeps _ _ (Or.inr ⟨tasks, _, k, hread, hk, Or.inl rfl⟩) hrunner)
      (hkeeps _ _ (Or.inr ⟨tasks, _, k, hread, hk, Or.inr hrunner⟩) hchunk)

/-- What is kept reaches what it reached. -/
lemma reaches (hkeeps : store.Keeps store' work) (hwork : store.workAt work = some entries)
    (hq : store.Reaches work q) : store'.Reaches work q := by
  obtain ⟨tasks, hread, -⟩ := workAt_eq_some_iff.mp hwork
  rcases hq with rfl | ⟨tasks', count, i, hread', hi, hq⟩
  · exact Or.inl rfl
  · obtain ⟨rfl, rfl⟩ : tasks' = tasks ∧ count = entries.length := by
      simpa [hread] using hread'.symm
    refine Or.inr ⟨tasks', _, i, hkeeps _ _ (Or.inl rfl) hread, hi, hq.imp_right fun hrunner => ?_⟩
    exact hkeeps _ _ (Or.inr ⟨tasks', _, i, hread, hi, Or.inl rfl⟩) hrunner

end Keeps

end Store

/-! ### What the main thread may do -/

/-- The operation leaves the object at an address alone. -/
def SharedOp.Spares (store : Store) (q : Pointer) : SharedOp → Prop
  | .allocate block _ | .free block => q.block ≠ block
  | .write p a => ∀ b, store.read q = some b → Objects.Apart SharedObject.bytes p a q b
  | _ => True

/-- The memory, and the work pointer that is lent to each worker. -/
structure Ledger where
  store : Store
  lent : ℕ → Option Pointer

namespace Ledger

/-- The operation leaves alone whatever is lent. -/
def Respects (l : Ledger) (op : SharedOp) : Prop :=
  ∀ i work, l.lent i = some work → ∀ q, l.store.Reaches work q → op.Spares l.store q

/-- An operation that respects what is lent, the operation of the handshake that it
performs, and what it leaves. -/
inductive Step (l : Ledger) : SharedOp → List (MainOp Invocation) → Ledger → Prop
  | create (i : ℕ) : Step l (.create i) [.create i] l
  | setTls (worker : Option ℕ) : Step l (.setTls worker) [.setTls worker] l
  | run (task : Invocation) : Step l (.run task) [.run task] l
  | stop (i : ℕ) : Step l (.stop i) [.stop i] l
  | join (i : ℕ) : Step l (.join i) [.join i] l
  | runEntry {p : Pointer} {f a : ℕ} (hread : l.store.read p = some (.entry (.task f a))) :
      Step l (.runEntry p) [.run (.task f a)] l
  | dispatch {i : ℕ} {work : Pointer} {entries : List TaskEntry} (hlent : l.lent i = none)
      (hwork : l.store.workAt work = some entries) :
      Step l (.dispatch i work) [.dispatch i (entries.flatMap TaskEntry.invocations)]
        { l with lent := Function.update l.lent i (some work) }
  | wait (i : ℕ) :
      Step l (.wait i) [.wait i] { l with lent := Function.update l.lent i none }
  | allocate {block size : ℕ} (hrespects : l.Respects (.allocate block size)) :
      Step l (.allocate block size) [] { l with store := l.store.allocate block size }
  | free {block : ℕ} (hrespects : l.Respects (.free block)) (hlive : (l.store.size block).isSome) :
      Step l (.free block) [] { l with store := l.store.free block }
  | write {p : Pointer} {a : SharedObject} {store : Store} (hrespects : l.Respects (.write p a))
      (hwrite : l.store.write SharedObject.bytes p a = some store) :
      Step l (.write p a) [] { l with store := store }

/-- A script that respects what is lent, and the script of the handshake that it
performs. -/
inductive Script : Ledger → List SharedOp → List (MainOp Invocation) → Ledger → Prop
  | nil (l : Ledger) : Script l [] [] l
  | cons {l l₁ l₂ : Ledger} {op : SharedOp} {ops : List SharedOp}
      {script rest : List (MainOp Invocation)} (hstep : Step l op script l₁)
      (hrest : Script l₁ ops rest l₂) : Script l (op :: ops) (script ++ rest) l₂

variable {l l₁ l₂ : Ledger} {op : SharedOp} {ops ops' : List SharedOp}
  {script script' : List (MainOp Invocation)}

lemma Script.append (h : Script l ops script l₁) (h' : Script l₁ ops' script' l₂) :
    Script l (ops ++ ops') (script ++ script') l₂ := by
  induction h with
  | nil => exact h'
  | cons hstep _ ih =>
    rw [List.cons_append, List.append_assoc]
    exact Script.cons hstep (ih h')

lemma Script.single (hstep : Step l op script l₁) : Script l [op] script l₁ := by
  simpa using Script.cons hstep (Script.nil l₁)

/-- What respects the lent records keeps them. -/
lemma Step.keeps (hstep : Step l op script l₁) {i : ℕ} {work : Pointer}
    (hlent : l.lent i = some work) : l.store.Keeps l₁.store work := by
  intro q b hq hread
  cases hstep with
  | allocate hrespects =>
    rwa [Objects.read_allocate_of_ne (hrespects i work hlent q hq)]
  | free hrespects =>
    rwa [Objects.read_free_of_ne (hrespects i work hlent q hq)]
  | write hrespects hwrite =>
    exact Objects.read_write_of_apart SharedObject.bytes_pos hwrite hread
      (hrespects i work hlent q hq b hread)
  | create | setTls | run | stop | join | runEntry | dispatch | wait => exact hread

end Ledger

/-! ### The workers -/

/-- What a worker still has to call, from a place in its work. -/
inductive Frame.Leads (store : Store) (work : Pointer) (entries : List TaskEntry) :
    Frame → List Invocation → Prop
  | test (i : ℕ) :
      Leads store work entries (.test work i) ((entries.drop i).flatMap TaskEntry.invocations)
  | call {i : ℕ} (hi : i < entries.length) :
      Leads store work entries (.call work i) ((entries.drop i).flatMap TaskEntry.invocations)
  | runner {i : ℕ} {q : Pointer} {chunk : ForChunk} (hq : store.Reaches work q)
      (hread : store.read q = some (.chunk chunk)) :
      Leads store work entries (.runner work i q)
        (parallelForChunkRunner chunk ++ (entries.drop (i + 1)).flatMap TaskEntry.invocations)
  | iterate (i : ℕ) (chunk : ForChunk) (k : ℕ) :
      Leads store work entries (.iterate work i chunk k)
        ((parallelForChunkRunner chunk).drop k ++
          (entries.drop (i + 1)).flatMap TaskEntry.invocations)

/-- The place of a thread that follows no pointer, in the handshake. -/
def SharedPc.plain : SharedPc → Option (WorkerPc Invocation)
  | .absent => some .absent
  | .test => some .test
  | .asleep => some .asleep
  | .done => some (.running [])
  | .exited => some .exited
  | .crashed => some .crashed
  | .running _ | .inTask _ _ | .faulted => none

/-- The places of a thread in the two machines.  In its work the worker follows the
pointer that is lent to it. -/
inductive PcRefines (store : Store) (lent : Option Pointer) : SharedPc → WorkerPc Invocation → Prop
  | plain {pc : SharedPc} {pc' : WorkerPc Invocation} (h : pc.plain = some pc') :
      PcRefines store lent pc pc'
  | running {work : Pointer} {entries : List TaskEntry} {frame : Frame} {rest : List Invocation}
      (hlent : lent = some work) (hwork : store.workAt work = some entries)
      (hleads : frame.Leads store work entries rest) :
      PcRefines store lent (.running frame) (.running rest)
  | inTask {work : Pointer} {entries : List TaskEntry} {frame : Frame} {rest : List Invocation}
      (task : Invocation) (hlent : lent = some work) (hwork : store.workAt work = some entries)
      (hleads : frame.Leads store work entries rest) :
      PcRefines store lent (.inTask task frame) (.inTask task rest)

/-- The work fields in the two machines. -/
inductive WorkRefines (store : Store) (lent : Option Pointer) :
    Option Pointer → Option (List Invocation) → Prop
  | none : WorkRefines store lent none none
  | some {work : Pointer} {entries : List TaskEntry} (hlent : lent = some work)
      (hwork : store.workAt work = some entries) :
      WorkRefines store lent (some work) (some (entries.flatMap TaskEntry.invocations))

/-- The states of a worker in the two machines. -/
structure WorkerRefines (store : Store) (lent : Option Pointer) (w : SharedWorker)
    (v : WorkerState Invocation) : Prop where
  work : WorkRefines store lent w.work v.work
  shouldStop : v.shouldStop = w.shouldStop
  readyFlag : v.readyFlag = w.readyFlag
  doneFlag : v.doneFlag = w.doneFlag
  pc : PcRefines store lent w.pc v.pc

section Workers

variable {store store' : Store} {lent : Option Pointer} {work : Pointer}
  {entries : List TaskEntry} {w w' : SharedWorker} {v : WorkerState Invocation} {i : ℕ}

lemma Frame.Leads.keeps {frame : Frame} {rest : List Invocation}
    (hleads : frame.Leads store work entries rest) (hkeeps : store.Keeps store' work)
    (hwork : store.workAt work = some entries) : frame.Leads store' work entries rest := by
  cases hleads with
  | test => exact .test _
  | call hi => exact .call hi
  | runner hq hread => exact .runner (hkeeps.reaches hwork hq) (hkeeps _ _ hq hread)
  | iterate => exact .iterate _ _ _

/-- The length of the loop of a chunk. -/
lemma length_parallelForChunkRunner (chunk : ForChunk) :
    (parallelForChunkRunner chunk).length = chunk.iterationCount := by
  simp [parallelForChunkRunner]

/-- The next call in the loop of a chunk. -/
lemma drop_parallelForChunkRunner {chunk : ForChunk} {k : ℕ} (hk : k < chunk.iterationCount) :
    (parallelForChunkRunner chunk).drop k =
      iterationOf chunk k :: (parallelForChunkRunner chunk).drop (k + 1) := by
  have hk' : k < (parallelForChunkRunner chunk).length := by
    rwa [length_parallelForChunkRunner]
  rw [List.drop_eq_getElem_cons hk']
  simp [parallelForChunkRunner, iterationOf]

/-- A step between two calls reads what it expects: the worker goes on, or begins the
next call. -/
lemma Frame.Leads.step {frame : Frame} {rest : List Invocation} (hlent : lent = some work)
    (hwork : store.workAt work = some entries) (hleads : frame.Leads store work entries rest)
    (i : ℕ) :
    ((frame.step store i).1 = .silent i ∧
        PcRefines store lent (frame.step store i).2 (.running rest)) ∨
      ∃ task rest', rest = task :: rest' ∧
        (frame.step store i).1 = .seen (.started (.worker i) (some i) task) ∧
        PcRefines store lent (frame.step store i).2 (.inTask task rest') := by
  obtain ⟨tasks, hread, hall⟩ := Store.workAt_eq_some_iff.mp hwork
  cases hleads with
  | test k =>
    left
    simp only [Frame.step, hread, true_and]
    split
    case isTrue hk => exact .running hlent hwork (.call hk)
    case isFalse hk =>
      rw [List.drop_eq_nil_of_le (not_lt.mp hk)]
      exact .plain rfl
  | @call k hk =>
    have hentry := hall k hk
    have hdrop := List.drop_eq_getElem_cons hk
    rw [List.getElem?_eq_getElem hk] at hentry
    rcases Store.entryAt_eq_some hentry with ⟨f, a, heq, htask⟩ | ⟨q, chunk, heq, hrunner, hchunk⟩
    · right
      refine ⟨.task f a, (entries.drop (k + 1)).flatMap TaskEntry.invocations, ?_, ?_, ?_⟩
      · rw [hdrop, heq]
        rfl
      · simp only [Frame.step, hread, htask]
      · simp only [Frame.step, hread, htask]
        exact .inTask _ hlent hwork (.test _)
    · left
      simp only [Frame.step, hread, hrunner, true_and]
      rw [hdrop, heq]
      exact .running hlent hwork
        (.runner (Or.inr ⟨tasks, _, k, hread, hk, Or.inr hrunner⟩) hchunk)
  | runner hq hchunk =>
    left
    simp only [Frame.step, hchunk, true_and]
    exact .running hlent hwork (.iterate _ _ 0)
  | iterate k chunk j =>
    by_cases hj : j < chunk.iterationCount
    · right
      refine ⟨iterationOf chunk j, (parallelForChunkRunner chunk).drop (j + 1) ++
        (entries.drop (k + 1)).flatMap TaskEntry.invocations, ?_, ?_, ?_⟩
      · rw [drop_parallelForChunkRunner hj, List.cons_append]
      · simp only [Frame.step, hj, if_true]
      · simp only [Frame.step, hj, if_true]
        exact .inTask _ hlent hwork (.iterate _ _ _)
    · left
      have hnil : (parallelForChunkRunner chunk).drop j = [] :=
        List.drop_eq_nil_of_le (by rw [length_parallelForChunkRunner]; exact not_lt.mp hj)
      simp only [Frame.step, hj, if_false, true_and]
      rw [hnil, List.nil_append]
      exact .running hlent hwork (.test _)

namespace WorkerRefines

/-- What is lent to the worker is kept. -/
lemma keeps (h : WorkerRefines store lent w v)
    (hkeeps : ∀ work, lent = some work → store.Keeps store' work) :
    WorkerRefines store' lent w v := by
  obtain ⟨hwork, hstop, hready, hdone, hpc⟩ := h
  refine ⟨?_, hstop, hready, hdone, ?_⟩
  · generalize w.work = x, v.work = y at hwork
    cases hwork with
    | none => exact .none
    | some hlent hwork => exact .some hlent ((hkeeps _ hlent).workAt hwork)
  · generalize w.pc = x, v.pc = y at hpc
    cases hpc with
    | running hlent hwork hleads =>
      exact .running hlent ((hkeeps _ hlent).workAt hwork) (hleads.keeps (hkeeps _ hlent) hwork)
    | inTask task hlent hwork hleads =>
      exact .inTask task hlent ((hkeeps _ hlent).workAt hwork)
        (hleads.keeps (hkeeps _ hlent) hwork)
    | plain h => exact .plain h

/-- A worker without work can be lent anything. -/
lemma lend (h : WorkerRefines store none w v) (work : Pointer) :
    WorkerRefines store (some work) w v := by
  obtain ⟨hwork, hstop, hready, hdone, hpc⟩ := h
  refine ⟨?_, hstop, hready, hdone, ?_⟩
  · generalize w.work = x, v.work = y at hwork
    cases hwork with
    | none => exact .none
    | some hlent => cases hlent
  · generalize w.pc = x, v.pc = y at hpc
    cases hpc with
    | running hlent => cases hlent
    | inTask _ hlent => cases hlent
    | plain h => exact .plain h

/-- A worker that is through with its work gives it back. -/
lemma giveBack (h : WorkerRefines store lent w v) (hnone : v.work = none) (hw : ¬ v.Working) :
    WorkerRefines store none w v := by
  obtain ⟨hwork, hstop, hready, hdone, hpc⟩ := h
  refine ⟨?_, hstop, hready, hdone, ?_⟩
  · rw [hnone] at hwork ⊢
    generalize w.work = x at hwork
    cases hwork
    exact .none
  · rw [WorkerState.Working, not_or] at hw
    generalize w.pc = x, v.pc = y at hpc hw
    cases hpc with
    | plain h => exact .plain h
    | running => exact absurd ⟨_, rfl⟩ hw.1
    | inTask => exact absurd ⟨_, _, rfl⟩ hw.2

end WorkerRefines

end Workers

end BcConcurrency.Pool
