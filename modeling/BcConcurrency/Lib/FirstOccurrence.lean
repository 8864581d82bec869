import Mathlib.Tactic

/-!
# First occurrences

A scan over a list whose entries may carry a key keeps an entry if no entry before it
carries the same key.  The keys of the entries it keeps are the distinct keys of the list,
in the order of their first occurrence.
-/

namespace BcConcurrency.FirstOccurrence

variable {α κ : Type*} [DecidableEq κ]

/-- The entries of a list that carry a key which is not in `seen` and which no entry
before them carries. -/
def firsts (key : α → Option κ) (seen : κ → Bool) : List α → List α
  | [] => []
  | entry :: rest =>
      match key entry with
      | none => firsts key seen rest
      | some k =>
          if seen k = true then firsts key seen rest
          else entry :: firsts key (Function.update seen k true) rest

variable {key : α → Option κ} {seen : κ → Bool} {entry : α} {rest : List α} {k : κ}

lemma firsts_cons_none (h : key entry = none) :
    firsts key seen (entry :: rest) = firsts key seen rest := by
  simp only [firsts, h]

lemma firsts_cons_seen (h : key entry = some k) (hk : seen k = true) :
    firsts key seen (entry :: rest) = firsts key seen rest := by
  simp only [firsts, h, hk, if_true]

lemma firsts_cons_fresh (h : key entry = some k) (hk : seen k = false) :
    firsts key seen (entry :: rest) =
      entry :: firsts key (Function.update seen k true) rest := by
  simp [firsts, h, hk]

/-- The cases of one step of the scan. -/
lemma firsts_cons (key : α → Option κ) (seen : κ → Bool) (entry : α) (rest : List α) :
    (firsts key seen (entry :: rest) = firsts key seen rest ∧
      ∀ k, key entry = some k → seen k = true) ∨
    ∃ k, key entry = some k ∧ seen k = false ∧
      firsts key seen (entry :: rest) =
        entry :: firsts key (Function.update seen k true) rest := by
  rcases h : key entry with _ | k
  · exact .inl ⟨firsts_cons_none h, by simp⟩
  · rcases hk : seen k with _ | _
    · exact .inr ⟨k, rfl, hk, firsts_cons_fresh h hk⟩
    · refine .inl ⟨firsts_cons_seen h hk, ?_⟩
      intro k' heq
      obtain rfl := Option.some_injective _ heq
      exact hk

/-- An entry that is kept carries a key that was not seen before. -/
lemma exists_key_of_mem_firsts {list : List α} (h : entry ∈ firsts key seen list) :
    ∃ k, key entry = some k ∧ seen k = false := by
  induction list generalizing seen with
  | nil => simp [firsts] at h
  | cons head rest ih =>
      rcases firsts_cons key seen head rest with ⟨heq, -⟩ | ⟨k, hk, hseen, heq⟩
      · rw [heq] at h
        exact ih h
      · rw [heq, List.mem_cons] at h
        rcases h with rfl | h
        · exact ⟨k, hk, hseen⟩
        · obtain ⟨k', hk', hseen'⟩ := ih h
          refine ⟨k', hk', ?_⟩
          by_cases hsame : k' = k
          · simp [hsame] at hseen'
          · rwa [Function.update_of_ne hsame] at hseen'

/-- An entry that is kept is the first one that carries its key. -/
lemma find?_of_mem_firsts {list : List α} (h : entry ∈ firsts key seen list)
    (hk : key entry = some k) : list.find? (fun x => key x = some k) = some entry := by
  induction list generalizing seen with
  | nil => simp [firsts] at h
  | cons head rest ih =>
      have hunseen : seen k = false := by
        obtain ⟨k', hk', hseen⟩ := exists_key_of_mem_firsts h
        obtain rfl := Option.some_injective _ (hk.symm.trans hk')
        exact hseen
      rcases firsts_cons key seen head rest with ⟨heq, hskip⟩ | ⟨k', hk', -, heq⟩
      · have hne : key head ≠ some k := by
          intro hhead
          simp [hskip k hhead] at hunseen
        rw [heq] at h
        rw [List.find?_cons_of_neg (by simpa using hne)]
        exact ih h
      · rw [heq, List.mem_cons] at h
        rcases h with rfl | h
        · rw [List.find?_cons_of_pos (by simpa using hk)]
        · -- the key of a later entry is not the one that was just added
          have hne : key head ≠ some k := by
            intro hhead
            obtain rfl := Option.some_injective _ (hk'.symm.trans hhead)
            obtain ⟨k'', hk'', hseen⟩ := exists_key_of_mem_firsts h
            obtain rfl := Option.some_injective _ (hk.symm.trans hk'')
            simp at hseen
          rw [List.find?_cons_of_neg (by simpa using hne)]
          exact ih h

/-- The keys of the entries that are kept are the distinct unseen keys of the list. -/
lemma filterMap_firsts (key : α → Option κ) (seen : κ → Bool) (list : List α) :
    (firsts key seen list).filterMap key =
      ((list.filterMap key).filter fun k => !seen k).eraseDups := by
  induction list generalizing seen with
  | nil => rfl
  | cons head rest ih =>
      rcases hhead : key head with _ | k
      · rw [firsts_cons_none hhead, List.filterMap_cons_none hhead, ih]
      · rw [List.filterMap_cons_some hhead]
        rcases hk : seen k with _ | _
        · rw [firsts_cons_fresh hhead hk, List.filterMap_cons_some hhead, ih,
            List.filter_cons_of_pos (by simp [hk]), List.eraseDups_cons, List.filter_filter]
          congr 3
          ext k' : 1
          by_cases hsame : k' = k
          · simp [hsame]
          · simp [hsame]
        · rw [firsts_cons_seen hhead hk, ih, List.filter_cons_of_neg (by simp [hk])]

/-- From an empty seen-set, the keys are the distinct keys of the list. -/
lemma filterMap_firsts_empty (key : α → Option κ) (list : List α) :
    (firsts key (fun _ => false) list).filterMap key = (list.filterMap key).eraseDups := by
  rw [filterMap_firsts]
  simp

/-- Every entry that is kept carries a key, so entries and keys correspond by position. -/
lemma map_firsts (key : α → Option κ) (seen : κ → Bool) (list : List α) :
    (firsts key seen list).map key = ((firsts key seen list).filterMap key).map some := by
  have hall : ∀ entry ∈ firsts key seen list, (key entry).isSome := by
    intro entry h
    obtain ⟨k, hk, -⟩ := exists_key_of_mem_firsts h
    simp [hk]
  generalize firsts key seen list = kept at hall
  induction kept with
  | nil => rfl
  | cons head rest ih =>
      obtain ⟨k, hk⟩ := Option.isSome_iff_exists.1 (hall head List.mem_cons_self)
      rw [List.map_cons, List.filterMap_cons_some hk, List.map_cons, hk]
      rw [ih fun entry h => hall entry (List.mem_cons_of_mem _ h)]

lemma length_firsts_le (key : α → Option κ) (seen : κ → Bool) (list : List α) :
    (firsts key seen list).length ≤ list.length := by
  induction list generalizing seen with
  | nil => exact le_rfl
  | cons head rest ih =>
      rcases firsts_cons key seen head rest with ⟨heq, -⟩ | ⟨k, -, -, heq⟩
      · rw [heq, List.length_cons]
        exact (ih seen).trans (Nat.le_succ _)
      · rw [heq, List.length_cons, List.length_cons]
        exact Nat.succ_le_succ (ih _)

/-- The key of the entry that is kept at position `i` is the key at position `i`. -/
lemma key_of_getElem?_firsts {list : List α} {i : ℕ}
    (h : (firsts key seen list)[i]? = some entry) :
    key entry = ((firsts key seen list).filterMap key)[i]? := by
  have hi := congrArg (·[i]?) (map_firsts key seen list)
  simp only [List.getElem?_map, h, Option.map_some] at hi
  obtain ⟨k, hk, hkey⟩ := Option.map_eq_some_iff.1 hi.symm
  rw [hk, ← hkey]

/-- The distinct elements of a list are pairwise distinct. -/
lemma nodup_eraseDups (list : List κ) : list.eraseDups.Nodup := by
  induction hlen : list.length using Nat.strong_induction_on generalizing list with
  | _ n ih =>
      rcases list with _ | ⟨head, rest⟩
      · simp
      · have hshort : (rest.filter fun k => !k == head).length < n := by
          have := List.length_filter_le (fun k => !k == head) rest
          rw [List.length_cons] at hlen
          omega
        rw [List.eraseDups_cons, List.nodup_cons, List.mem_eraseDups]
        exact ⟨by simp, ih _ hshort _ rfl⟩

end BcConcurrency.FirstOccurrence
