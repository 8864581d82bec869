import Mathlib.Tactic
import BcConcurrency.Lib.FirstOccurrence

/-!
# Physical cores

`bc_concurrency_platform_get_physical_core_count` and
`bc_concurrency_platform_pin_current_thread_to_physical_core`.  Both scan the files
`/sys/devices/system/cpu/cpu%zu/topology/core_id` for `cpu0`, `cpu1`, … up to the first
that is missing.  They are two loops of their own, and they enumerate the same cores.
-/

namespace BcConcurrency.Platform

open FirstOccurrence

/-- What a scan finds at the file of one CPU: `fopen` fails, `fscanf` reads no number, or
it reads a `long`. -/
inductive CpuFile
  | missing
  | unreadable
  | coreId (id : ℤ)
deriving DecidableEq

/-- `BC_CONCURRENCY_MAX_CPUS` -/
def maxCpus : ℕ := 1024

/-- The size of `path_buffer`. -/
def pathBufferSize : ℕ := 128

/-- What `snprintf` writes to `path_buffer`. -/
def topologyPath (cpu : ℕ) : String :=
  "/sys/devices/system/cpu/cpu" ++ cpu.repr ++ "/topology/core_id"

/-- `bc_concurrency_platform_get_cpu_count`, from the result of `sysconf`. -/
def getCpuCount (detected : ℤ) : ℕ := if detected < 1 then 1 else detected.toNat

section Scans

variable (files : ℕ → CpuFile)

/-- The loop of `bc_concurrency_platform_get_physical_core_count`, from `cpu` on with `left`
rounds to go. -/
def countCores : (left cpu : ℕ) → (seen : ℕ → Bool) → (count : ℕ) → ℕ
  | 0, _, _, count => count
  | left + 1, cpu, seen, count =>
      if pathBufferSize ≤ (topologyPath cpu).length then count
      else
        match files cpu with
        | .missing => count
        | .unreadable => countCores left (cpu + 1) seen count
        | .coreId id =>
            if 0 ≤ id ∧ id.toNat < maxCpus then
              if seen id.toNat = false then
                countCores left (cpu + 1) (Function.update seen id.toNat true) (count + 1)
              else countCores left (cpu + 1) seen count
            else countCores left (cpu + 1) seen count

/-- `bc_concurrency_platform_get_physical_core_count`; without any core in the files it falls
back to the number of CPUs. -/
def getPhysicalCoreCount (detected : ℤ) : ℕ :=
  let count := countCores files maxCpus 0 (fun _ => false) 0
  if count = 0 then getCpuCount detected else count

/-- What pinning does: the CPU it hands to `pthread_setaffinity_np`, if any, and its
result. -/
structure Pinning where
  selected : Option ℕ
  result : Bool
deriving DecidableEq

/-- The loop of `bc_concurrency_platform_pin_current_thread_to_physical_core`, from `cpu` on
with `left` rounds to go.  `setAffinity` says for which CPUs `pthread_setaffinity_np`
succeeds. -/
def pinLoop (setAffinity : ℕ → Bool) (physicalCoreIndex : ℕ) :
    (left cpu : ℕ) → (seen : ℕ → Bool) → (found : ℕ) → Pinning
  | 0, _, _, _ => ⟨none, false⟩
  | left + 1, cpu, seen, found =>
      if pathBufferSize ≤ (topologyPath cpu).length then ⟨none, false⟩
      else
        match files cpu with
        | .missing => ⟨none, false⟩
        | .unreadable => pinLoop setAffinity physicalCoreIndex left (cpu + 1) seen found
        | .coreId id =>
            if id < 0 ∨ maxCpus ≤ id.toNat then
              pinLoop setAffinity physicalCoreIndex left (cpu + 1) seen found
            else if seen id.toNat = false then
              if found = physicalCoreIndex then ⟨some cpu, setAffinity cpu⟩
              else
                pinLoop setAffinity physicalCoreIndex left (cpu + 1)
                  (Function.update seen id.toNat true) (found + 1)
            else pinLoop setAffinity physicalCoreIndex left (cpu + 1) seen found

/-- `bc_concurrency_platform_pin_current_thread_to_physical_core` -/
def pinCurrentThreadToPhysicalCore (setAffinity : ℕ → Bool) (physicalCoreIndex : ℕ) :
    Pinning :=
  pinLoop files setAffinity physicalCoreIndex maxCpus 0 (fun _ => false) 0

end Scans

/-! ### The topology -/

/-- The core id of a file, if it is one that the scans accept. -/
def coreIdOf : CpuFile → Option ℕ
  | .coreId id => if 0 ≤ id ∧ id.toNat < maxCpus then some id.toNat else none
  | _ => none

/-- The CPUs from `cpu` on, at most `left` of them, up to the first whose file is missing. -/
def visibleFrom (files : ℕ → CpuFile) (left cpu : ℕ) : List ℕ :=
  (List.range' cpu left).takeWhile fun c => files c ≠ .missing

/-- The distinct core ids before the first missing file, in the order in which they first
occur. -/
def distinctCoreIds (files : ℕ → CpuFile) : List ℕ :=
  ((visibleFrom files maxCpus 0).filterMap fun c => coreIdOf (files c)).eraseDups

/-- `cpu` carries the core id `id`, and no file up to it is missing. -/
def Carries (files : ℕ → CpuFile) (cpu id : ℕ) : Prop :=
  coreIdOf (files cpu) = some id ∧ ∀ c ≤ cpu, files c ≠ .missing

variable {files : ℕ → CpuFile} {left cpu id : ℕ} {seen : ℕ → Bool}

lemma visibleFrom_missing (h : files cpu = .missing) :
    visibleFrom files (left + 1) cpu = [] := by
  simp [visibleFrom, List.range'_succ, h]

lemma visibleFrom_present (h : files cpu ≠ .missing) :
    visibleFrom files (left + 1) cpu = cpu :: visibleFrom files left (cpu + 1) := by
  simp [visibleFrom, List.range'_succ, h]

lemma coreIdOf_coreId {n : ℤ} (h : coreIdOf (.coreId n) = some id) :
    (0 ≤ n ∧ n.toNat < maxCpus) ∧ n.toNat = id := by
  simp only [coreIdOf] at h
  split at h
  · case isTrue hn => exact ⟨hn, Option.some_injective _ h⟩
  · cases h

lemma topologyPath_length (cpu : ℕ) :
    (topologyPath cpu).length = 27 + cpu.repr.length + 17 := by
  have hdir : "/sys/devices/system/cpu/cpu".length = 27 := by decide
  have hname : "/topology/core_id".length = 17 := by decide
  -- with variables for the texts, so that no literal is unfolded in search of an append
  have happend : ∀ a b c : String, (a ++ b ++ c).length = a.length + b.length + c.length := by
    intro a b c
    rw [String.length_append, String.length_append]
  exact (happend _ _ _).trans (congrArg₂ (fun m n => m + cpu.repr.length + n) hdir hname)

/-- The path of every CPU of a scan fits into the buffer. -/
lemma topologyPath_fits (h : cpu < maxCpus) : ¬ pathBufferSize ≤ (topologyPath cpu).length := by
  have hdigits : cpu.repr.length ≤ 4 := by
    refine (Nat.length_repr_le_iff (by omega)).2 ?_
    unfold maxCpus at h
    omega
  rw [topologyPath_length, pathBufferSize]
  omega

/-! ### The count -/

lemma countCores_missing (h : files cpu = .missing) (count : ℕ) :
    countCores files (left + 1) cpu seen count = count := by
  simp only [countCores, h]
  split <;> rfl

/-- A CPU that carries no new core id is passed over. -/
lemma countCores_skip (hcpu : cpu < maxCpus) (h : files cpu ≠ .missing)
    (hskip : ∀ id, coreIdOf (files cpu) = some id → seen id = true) (count : ℕ) :
    countCores files (left + 1) cpu seen count =
      countCores files left (cpu + 1) seen count := by
  rw [countCores, if_neg (topologyPath_fits hcpu)]
  rcases hfile : files cpu with _ | _ | n
  · exact absurd hfile h
  · rfl
  · by_cases hn : 0 ≤ n ∧ n.toNat < maxCpus
    · have hseen := hskip n.toNat (by simp only [hfile, coreIdOf, if_pos hn])
      simp [hn, hseen]
    · simp only [if_neg hn]

/-- A CPU with a new core id is counted. -/
lemma countCores_fresh (hcpu : cpu < maxCpus) (h : coreIdOf (files cpu) = some id)
    (hseen : seen id = false) (count : ℕ) :
    countCores files (left + 1) cpu seen count =
      countCores files left (cpu + 1) (Function.update seen id true) (count + 1) := by
  rw [countCores, if_neg (topologyPath_fits hcpu)]
  rcases hfile : files cpu with _ | _ | n
  · simp [hfile, coreIdOf] at h
  · simp [hfile, coreIdOf] at h
  · obtain ⟨hn, rfl⟩ := coreIdOf_coreId (hfile ▸ h)
    simp [hn, hseen]

/-- The loop adds the number of cores that it still finds. -/
lemma countCores_eq (hleft : cpu + left ≤ maxCpus) (count : ℕ) :
    countCores files left cpu seen count =
      count + (firsts (fun c => coreIdOf (files c)) seen (visibleFrom files left cpu)).length := by
  induction left generalizing cpu seen count with
  | zero => rfl
  | succ left ih =>
      have hcpu : cpu < maxCpus := by omega
      have hnext : cpu + 1 + left ≤ maxCpus := by omega
      by_cases h : files cpu = .missing
      · rw [countCores_missing h, visibleFrom_missing h]
        rfl
      · rw [visibleFrom_present h]
        rcases firsts_cons (fun c => coreIdOf (files c)) seen cpu
            (visibleFrom files left (cpu + 1)) with ⟨heq, hskip⟩ | ⟨id, hid, hseen, heq⟩
        · rw [countCores_skip hcpu h hskip, heq, ih hnext]
        · rw [countCores_fresh hcpu hid hseen, heq, ih hnext, List.length_cons]
          omega

/-! ### Pinning -/

section Pin

variable {setAffinity : ℕ → Bool} {index found : ℕ}

lemma pinLoop_missing (h : files cpu = .missing) :
    pinLoop files setAffinity index (left + 1) cpu seen found = ⟨none, false⟩ := by
  simp only [pinLoop, h]
  split <;> rfl

/-- A CPU that carries no new core id is passed over. -/
lemma pinLoop_skip (hcpu : cpu < maxCpus) (h : files cpu ≠ .missing)
    (hskip : ∀ id, coreIdOf (files cpu) = some id → seen id = true) :
    pinLoop files setAffinity index (left + 1) cpu seen found =
      pinLoop files setAffinity index left (cpu + 1) seen found := by
  rw [pinLoop, if_neg (topologyPath_fits hcpu)]
  rcases hfile : files cpu with _ | _ | n
  · exact absurd hfile h
  · rfl
  · by_cases hn : n < 0 ∨ maxCpus ≤ n.toNat
    · simp only [if_pos hn]
    · have hvalid : 0 ≤ n ∧ n.toNat < maxCpus := by omega
      have hseen := hskip n.toNat (by simp only [hfile, coreIdOf, if_pos hvalid])
      simp [hn, hseen]

/-- A CPU with a new core id is selected or counted. -/
lemma pinLoop_fresh (hcpu : cpu < maxCpus) (h : coreIdOf (files cpu) = some id)
    (hseen : seen id = false) :
    pinLoop files setAffinity index (left + 1) cpu seen found =
      if found = index then ⟨some cpu, setAffinity cpu⟩
      else
        pinLoop files setAffinity index left (cpu + 1) (Function.update seen id true)
          (found + 1) := by
  rw [pinLoop, if_neg (topologyPath_fits hcpu)]
  rcases hfile : files cpu with _ | _ | n
  · simp [hfile, coreIdOf] at h
  · simp [hfile, coreIdOf] at h
  · obtain ⟨hn, rfl⟩ := coreIdOf_coreId (hfile ▸ h)
    have hneg : ¬ (n < 0 ∨ maxCpus ≤ n.toNat) := by omega
    simp [hneg, hseen]

/-- The loop selects the CPU at position `index - found` among those it still finds. -/
lemma pinLoop_eq (hleft : cpu + left ≤ maxCpus) (hfound : found ≤ index) :
    pinLoop files setAffinity index left cpu seen found =
      match (firsts (fun c => coreIdOf (files c)) seen
          (visibleFrom files left cpu))[index - found]? with
      | some c => ⟨some c, setAffinity c⟩
      | none => ⟨none, false⟩ := by
  induction left generalizing cpu seen found with
  | zero => rfl
  | succ left ih =>
      have hcpu : cpu < maxCpus := by omega
      have hnext : cpu + 1 + left ≤ maxCpus := by omega
      by_cases h : files cpu = .missing
      · rw [pinLoop_missing h, visibleFrom_missing h]
        rfl
      · rw [visibleFrom_present h]
        rcases firsts_cons (fun c => coreIdOf (files c)) seen cpu
            (visibleFrom files left (cpu + 1)) with ⟨heq, hskip⟩ | ⟨id, hid, hseen, heq⟩
        · rw [pinLoop_skip hcpu h hskip, heq, ih hnext hfound]
        · rw [pinLoop_fresh hcpu hid hseen, heq]
          by_cases hindex : found = index
          · simp [hindex]
          · -- one core more is found, one position fewer remains
            have hposition : index - found = index - (found + 1) + 1 := by omega
            rw [if_neg hindex, ih hnext (by omega), hposition, List.getElem?_cons_succ]

end Pin

/-! ### The cores that the scans enumerate -/

/-- The CPUs that the scans enumerate: the first carrier of each core id. -/
def coreCpus (files : ℕ → CpuFile) : List ℕ :=
  firsts (fun c => coreIdOf (files c)) (fun _ => false) (visibleFrom files maxCpus 0)

lemma countCores_start (files : ℕ → CpuFile) :
    countCores files maxCpus 0 (fun _ => false) 0 = (coreCpus files).length := by
  rw [countCores_eq (by omega), Nat.zero_add, coreCpus]

lemma selected_eq (files : ℕ → CpuFile) (setAffinity : ℕ → Bool) (k : ℕ) :
    (pinCurrentThreadToPhysicalCore files setAffinity k).selected = (coreCpus files)[k]? := by
  rw [pinCurrentThreadToPhysicalCore, pinLoop_eq (by omega) (Nat.zero_le k), Nat.sub_zero,
    ← coreCpus]
  cases (coreCpus files)[k]? <;> rfl

lemma result_eq (files : ℕ → CpuFile) {setAffinity : ℕ → Bool}
    (hset : ∀ cpu, setAffinity cpu = true) (k : ℕ) :
    (pinCurrentThreadToPhysicalCore files setAffinity k).result =
      ((coreCpus files)[k]?).isSome := by
  rw [pinCurrentThreadToPhysicalCore, pinLoop_eq (by omega) (Nat.zero_le k), Nat.sub_zero,
    ← coreCpus]
  rcases (coreCpus files)[k]? with _ | cpu
  · rfl
  · exact hset cpu

lemma filterMap_coreCpus (files : ℕ → CpuFile) :
    ((coreCpus files).filterMap fun c => coreIdOf (files c)) = distinctCoreIds files :=
  filterMap_firsts_empty _ _

lemma coreId_of_coreCpus {k : ℕ} (h : (coreCpus files)[k]? = some cpu) :
    coreIdOf (files cpu) = (distinctCoreIds files)[k]? := by
  rw [← filterMap_coreCpus]
  exact key_of_getElem?_firsts h

lemma mem_visibleFrom {c : ℕ} :
    c ∈ visibleFrom files left cpu ↔
      cpu ≤ c ∧ c < cpu + left ∧ ∀ c', cpu ≤ c' → c' ≤ c → files c' ≠ .missing := by
  induction left generalizing cpu with
  | zero =>
      constructor
      · intro h
        cases h
      · rintro ⟨hle, hlt, -⟩
        omega
  | succ left ih =>
      by_cases h : files cpu = .missing
      · rw [visibleFrom_missing h]
        constructor
        · intro hmem
          cases hmem
        · rintro ⟨hle, -, hpresent⟩
          exact absurd h (hpresent cpu le_rfl hle)
      · rw [visibleFrom_present h, List.mem_cons, ih]
        constructor
        · rintro (rfl | ⟨hle, hlt, hpresent⟩)
          · refine ⟨le_rfl, by omega, ?_⟩
            intro c' hlow hhigh
            rwa [le_antisymm hhigh hlow]
          · refine ⟨by omega, by omega, ?_⟩
            intro c' hlow hhigh
            rcases hlow.eq_or_lt with rfl | hlow
            · exact h
            · exact hpresent c' hlow hhigh
        · rintro ⟨hle, hlt, hpresent⟩
          rcases hle.eq_or_lt with rfl | hle
          · exact .inl rfl
          · exact .inr ⟨hle, by omega, fun c' hlow => hpresent c' (by omega)⟩

lemma mem_visible : cpu ∈ visibleFrom files maxCpus 0 ↔
    cpu < maxCpus ∧ ∀ c ≤ cpu, files c ≠ .missing := by
  rw [mem_visibleFrom]
  simp

lemma visible_pairwise (files : ℕ → CpuFile) :
    (visibleFrom files maxCpus 0).Pairwise (· < ·) :=
  List.Pairwise.sublist (List.takeWhile_sublist _) List.pairwise_lt_range'

/-- A CPU that is enumerated carries a core id, and no CPU before it carries the same. -/
lemma first_of_mem_coreCpus (h : cpu ∈ coreCpus files) :
    ∃ id, Carries files cpu id ∧ ∀ earlier < cpu, ¬ Carries files earlier id := by
  obtain ⟨id, hid, -⟩ := exists_key_of_mem_firsts h
  have hfind := find?_of_mem_firsts h hid
  have hvisible := mem_visible.1 (List.mem_of_find?_eq_some hfind)
  refine ⟨id, ⟨hid, hvisible.2⟩, ?_⟩
  intro earlier hlt hcarries
  -- the scan passes the earlier CPU before it comes to this one
  have hearlier : earlier ∈ visibleFrom files maxCpus 0 :=
    mem_visible.2 ⟨hlt.trans hvisible.1, hcarries.2⟩
  obtain ⟨-, before, after, hsplit, hbefore⟩ := List.find?_eq_some_iff_append.1 hfind
  have hsorted := visible_pairwise files
  rw [hsplit, List.pairwise_append, List.pairwise_cons] at hsorted
  rw [hsplit, List.mem_append, List.mem_cons] at hearlier
  rcases hearlier with hmem | rfl | hmem
  · simpa [hcarries.1] using hbefore earlier hmem
  · exact lt_irrefl _ hlt
  · exact lt_asymm hlt (hsorted.2.1.1 earlier hmem)

/-- No core is enumerated exactly if no CPU that the scans visit carries a core id. -/
lemma coreCpus_eq_nil_iff :
    coreCpus files = [] ↔ ∀ cpu < maxCpus, ∀ id, ¬ Carries files cpu id := by
  constructor
  · intro hnil cpu hlt id hcarries
    have hmem : id ∈ distinctCoreIds files := by
      rw [distinctCoreIds, List.mem_eraseDups, List.mem_filterMap]
      exact ⟨cpu, mem_visible.2 ⟨hlt, hcarries.2⟩, hcarries.1⟩
    rw [← filterMap_coreCpus, hnil] at hmem
    cases hmem
  · intro hnone
    refine List.eq_nil_iff_forall_not_mem.2 ?_
    intro cpu h
    obtain ⟨id, hid, -⟩ := exists_key_of_mem_firsts h
    have hvisible := mem_visible.1 (List.mem_of_find?_eq_some (find?_of_mem_firsts h hid))
    exact hnone cpu hvisible.1 id ⟨hid, hvisible.2⟩

/-- Without a core id among the CPUs that they visit, counting falls back to the number of
CPUs and pinning selects none. -/
lemma scans_without_core (hnone : ∀ cpu < maxCpus, ∀ id, ¬ Carries files cpu id) (detected : ℤ)
    (setAffinity : ℕ → Bool) (k : ℕ) :
    getPhysicalCoreCount files detected = getCpuCount detected ∧
      (pinCurrentThreadToPhysicalCore files setAffinity k).selected = none := by
  have hnil := coreCpus_eq_nil_iff.2 hnone
  refine ⟨?_, ?_⟩
  · rw [getPhysicalCoreCount, countCores_start, hnil]
    rfl
  · rw [selected_eq, hnil]
    rfl

/-- With a core id among the CPUs that the scans visit, the count is the number of cores that
they enumerate. -/
lemma getPhysicalCoreCount_eq (hcore : ∃ cpu < maxCpus, ∃ id, Carries files cpu id)
    (detected : ℤ) : getPhysicalCoreCount files detected = (coreCpus files).length := by
  have hne : (coreCpus files).length ≠ 0 := by
    intro hzero
    obtain ⟨cpu, hlt, id, hcarries⟩ := hcore
    exact coreCpus_eq_nil_iff.1 (List.length_eq_zero_iff.1 hzero) cpu hlt id hcarries
  simp only [getPhysicalCoreCount, countCores_start, if_neg hne]

/-- There are not more cores than CPUs that the scans visit. -/
lemma length_coreCpus_le (files : ℕ → CpuFile) : (coreCpus files).length ≤ maxCpus :=
  calc (coreCpus files).length ≤ (visibleFrom files maxCpus 0).length := length_firsts_le _ _ _
    _ ≤ (List.range' 0 maxCpus).length := (List.takeWhile_sublist _).length_le
    _ = maxCpus := List.length_range'

/-- CPUs that are enumerated at different positions carry different core ids. -/
lemma coreId_ne_of_ne {j k cpu' : ℕ} (hne : j ≠ k) (hj : (coreCpus files)[j]? = some cpu)
    (hk : (coreCpus files)[k]? = some cpu') : coreIdOf (files cpu) ≠ coreIdOf (files cpu') := by
  intro hsame
  have hids := (coreId_of_coreCpus hj).symm.trans (hsame.trans (coreId_of_coreCpus hk))
  obtain ⟨id, hcarries, -⟩ := first_of_mem_coreCpus (List.mem_of_getElem? hj)
  obtain ⟨hlt, -⟩ := List.getElem?_eq_some_iff.1
    ((coreId_of_coreCpus hj).symm.trans hcarries.1)
  exact hne ((List.getElem?_inj hlt (nodup_eraseDups _)).1 hids)

/-- Counting and pinning agree on the cores: pinning selects a CPU for exactly the indices
below the count, the first CPU with the core id at that position of the distinct core ids,
and for different indices CPUs with different core ids. -/
structure ScansAgree (files : ℕ → CpuFile) (detected : ℤ) (setAffinity : ℕ → Bool) : Prop where
  selects_iff : ∀ k, (pinCurrentThreadToPhysicalCore files setAffinity k).selected.isSome ↔
    k < getPhysicalCoreCount files detected
  result_iff : (∀ cpu, setAffinity cpu = true) → ∀ k,
    ((pinCurrentThreadToPhysicalCore files setAffinity k).result = true ↔
      k < getPhysicalCoreCount files detected)
  selects_first : ∀ k cpu,
    (pinCurrentThreadToPhysicalCore files setAffinity k).selected = some cpu →
      ∃ id, (distinctCoreIds files)[k]? = some id ∧ Carries files cpu id ∧
        ∀ earlier < cpu, ¬ Carries files earlier id
  selects_distinct : ∀ j k cpu cpu', j ≠ k →
    (pinCurrentThreadToPhysicalCore files setAffinity j).selected = some cpu →
    (pinCurrentThreadToPhysicalCore files setAffinity k).selected = some cpu' →
      coreIdOf (files cpu) ≠ coreIdOf (files cpu')

/-- Counting and pinning agree on every topology with a core id among the CPUs that the
scans visit. -/
theorem scans_agree (files : ℕ → CpuFile) (detected : ℤ) (setAffinity : ℕ → Bool)
    (hcore : ∃ cpu < maxCpus, ∃ id, Carries files cpu id) :
    ScansAgree files detected setAffinity := by
  have hcount := getPhysicalCoreCount_eq hcore detected
  refine ⟨?_, ?_, ?_, ?_⟩
  · intro k
    rw [selected_eq, hcount]
    simp
  · intro hset k
    rw [result_eq files hset, hcount]
    simp
  · intro k cpu hselected
    rw [selected_eq] at hselected
    obtain ⟨id, hcarries, hfirst⟩ := first_of_mem_coreCpus (List.mem_of_getElem? hselected)
    exact ⟨id, (coreId_of_coreCpus hselected).symm.trans hcarries.1, hcarries, hfirst⟩
  · intro j k cpu cpu' hne hj hk
    rw [selected_eq] at hj hk
    exact coreId_ne_of_ne hne hj hk

/-- Two cores with two CPUs each, `cpu1` without a readable core id. -/
theorem scans_agree_repeated :
    (∃ cpu < maxCpus, ∃ id, Carries
      (fun cpu => [.coreId 7, .unreadable, .coreId 7, .coreId 3, .coreId 3].getD cpu .missing)
      cpu id) ∧
    ScansAgree
      (fun cpu => [.coreId 7, .unreadable, .coreId 7, .coreId 3, .coreId 3].getD cpu .missing)
      5 (fun _ => true) := by
  have hcore : ∃ cpu < maxCpus, ∃ id, Carries
      (fun cpu => [.coreId 7, .unreadable, .coreId 7, .coreId 3, .coreId 3].getD cpu .missing)
      cpu id := by
    refine ⟨0, by decide, 7, by decide, ?_⟩
    intro c hc
    obtain rfl := Nat.le_zero.1 hc
    decide
  exact ⟨hcore, scans_agree _ 5 (fun _ => true) hcore⟩

/-- `maxCpus` files without a readable core id, then `cpu1024` with one. -/
def coreBeyondTheScan (cpu : ℕ) : CpuFile :=
  if cpu < maxCpus then .unreadable else if cpu = maxCpus then .coreId 0 else .missing

/-- The only core id lies behind the CPUs that the scans visit: index 0 is below the count
and pinning to it selects nothing. -/
theorem scans_disagree_beyond :
    (∃ cpu id, Carries coreBeyondTheScan cpu id) ∧
      ¬ ScansAgree coreBeyondTheScan 1025 (fun _ => true) := by
  refine ⟨⟨maxCpus, 0, by decide, ?_⟩, ?_⟩
  · intro c hc
    rcases hc.eq_or_lt with rfl | hlt
    · decide
    · simp [coreBeyondTheScan, hlt]
  · intro hagree
    have hnone : ∀ cpu < maxCpus, ∀ id, ¬ Carries coreBeyondTheScan cpu id := by
      intro cpu hlt id hcarries
      simpa [coreBeyondTheScan, hlt, coreIdOf] using hcarries.1
    obtain ⟨hcount, hselected⟩ := scans_without_core hnone 1025 (fun _ => true) 0
    have hiff := hagree.selects_iff 0
    rw [hcount, hselected] at hiff
    exact absurd (hiff.2 (by decide)) (by simp)

end BcConcurrency.Platform
