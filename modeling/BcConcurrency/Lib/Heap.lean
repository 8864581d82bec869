import Mathlib.Tactic

/-!
# A pool of blocks and who owns them

A pool grants or refuses each request; which ones it grants is decided from
outside.  A granted block is identified by the number of its request, so it is
different from every block before it.  The log records what was allocated and
freed, together with the other events of the program that owns the pool.

`Owns` says that the blocks in use are exactly a given multiset.  Its rules follow
the operations of the pool, so that a program is checked by keeping track of the
blocks it holds, as in a separation logic whose assertions are multisets.
-/

namespace BcConcurrency

/-- An event of a pool or of its program. -/
inductive HeapEvent (ε : Type*)
  | allocated (block size : ℕ)
  | freed (block : ℕ)
  | note (event : ε)
deriving DecidableEq

/-- A pool of blocks. -/
structure Heap (ε : Type*) where
  /-- Whether the request of this number is granted. -/
  grants : ℕ → Bool
  /-- How many requests were made. -/
  requests : ℕ
  /-- How many requests were refused. -/
  refused : ℕ
  /-- The blocks in use. -/
  live : List ℕ
  log : List (HeapEvent ε)

namespace Heap

variable {ε : Type*}

/-- Request a block; no object of `PTRDIFF_MAX` bytes or more is ever granted. -/
def allocate (heap : Heap ε) (size : ℕ) : Option ℕ × Heap ε :=
  if heap.grants heap.requests = true ∧ size < 2 ^ 63 then
    (some heap.requests,
      { heap with
        requests := heap.requests + 1
        live := heap.requests :: heap.live
        log := heap.log ++ [.allocated heap.requests size] })
  else (none, { heap with requests := heap.requests + 1, refused := heap.refused + 1 })

/-- Give a block back. -/
def free (heap : Heap ε) (block : ℕ) : Heap ε :=
  { heap with live := heap.live.erase block, log := heap.log ++ [.freed block] }

/-- Record an event of the program. -/
def note (heap : Heap ε) (event : ε) : Heap ε :=
  { heap with log := heap.log ++ [.note event] }

/-- The blocks freed according to a log. -/
def freedBlocks (log : List (HeapEvent ε)) : List ℕ :=
  log.filterMap fun
    | .freed block => some block
    | _ => none

/-- The events of the program in a log. -/
def notes (log : List (HeapEvent ε)) : List ε :=
  log.filterMap fun
    | .note event => some event
    | _ => none

@[simp] lemma freedBlocks_nil : freedBlocks ([] : List (HeapEvent ε)) = [] := rfl

@[simp] lemma freedBlocks_append (l₁ l₂ : List (HeapEvent ε)) :
    freedBlocks (l₁ ++ l₂) = freedBlocks l₁ ++ freedBlocks l₂ := List.filterMap_append

@[simp] lemma notes_nil : notes ([] : List (HeapEvent ε)) = [] := rfl

@[simp] lemma notes_append (l₁ l₂ : List (HeapEvent ε)) :
    notes (l₁ ++ l₂) = notes l₁ ++ notes l₂ := List.filterMap_append

lemma mem_freedBlocks {log : List (HeapEvent ε)} {block : ℕ} :
    block ∈ freedBlocks log ↔ .freed block ∈ log := by
  rw [freedBlocks, List.mem_filterMap]
  constructor
  · rintro ⟨_ | _ | _, hmem, heq⟩ <;> cases heq
    exact hmem
  · intro hmem
    exact ⟨_, hmem, rfl⟩

lemma mem_notes {log : List (HeapEvent ε)} {event : ε} :
    event ∈ notes log ↔ .note event ∈ log := by
  rw [notes, List.mem_filterMap]
  constructor
  · rintro ⟨_ | _ | _, hmem, heq⟩ <;> cases heq
    exact hmem
  · intro hmem
    exact ⟨_, hmem, rfl⟩

/-- What a request does. -/
lemma allocate_cases (heap : Heap ε) (size : ℕ) :
    (heap.allocate size =
        (none, { heap with requests := heap.requests + 1, refused := heap.refused + 1 })) ∨
      (heap.grants heap.requests = true ∧ size < 2 ^ 63 ∧
        heap.allocate size = (some heap.requests,
          { heap with
            requests := heap.requests + 1
            live := heap.requests :: heap.live
            log := heap.log ++ [.allocated heap.requests size] })) := by
  by_cases h : heap.grants heap.requests = true ∧ size < 2 ^ 63
  · exact Or.inr ⟨h.1, h.2, if_pos h⟩
  · exact Or.inl (if_neg h)

lemma allocate_none_eq {heap heap' : Heap ε} {size : ℕ}
    (h : heap.allocate size = (none, heap')) :
    heap' = { heap with requests := heap.requests + 1, refused := heap.refused + 1 } := by
  rcases heap.allocate_cases size with hnone | ⟨-, -, hsome⟩
  · exact congrArg Prod.snd (h.symm.trans hnone)
  · cases h.symm.trans hsome

lemma allocate_some_eq {heap heap' : Heap ε} {size block : ℕ}
    (h : heap.allocate size = (some block, heap')) :
    block = heap.requests ∧
      heap' = { heap with
        requests := heap.requests + 1
        live := heap.requests :: heap.live
        log := heap.log ++ [.allocated heap.requests size] } := by
  rcases heap.allocate_cases size with hnone | ⟨-, -, hsome⟩
  · cases h.symm.trans hnone
  · obtain ⟨hblock, hheap⟩ := Prod.mk.inj (h.symm.trans hsome)
    exact ⟨Option.some.inj hblock, hheap⟩

/-! ### Requests in a row -/

/-- Requests of these sizes, made one after the other, are all granted. -/
def grantsAll (heap : Heap ε) : List ℕ → Bool
  | [] => true
  | size :: sizes =>
      match heap.allocate size with
      | (none, _) => false
      | (some _, heap') => heap'.grantsAll sizes

section GrantsAll

variable {heap heap' : Heap ε} {block size : ℕ} {sizes : List ℕ}

lemma grantsAll_cons_none (h : heap.allocate size = (none, heap')) :
    heap.grantsAll (size :: sizes) = false := by
  rw [grantsAll, h]

lemma grantsAll_cons_some (h : heap.allocate size = (some block, heap')) :
    heap.grantsAll (size :: sizes) = heap'.grantsAll sizes := by
  rw [grantsAll, h]

/-- What is granted depends on the decisions and on the number of requests alone. -/
lemma grantsAll_congr (hgrants : heap'.grants = heap.grants)
    (hrequests : heap'.requests = heap.requests) (sizes : List ℕ) :
    heap'.grantsAll sizes = heap.grantsAll sizes := by
  induction sizes generalizing heap heap' with
  | nil => rfl
  | cons size sizes ih =>
    simp only [grantsAll, allocate, hgrants, hrequests]
    by_cases hgrant : heap.grants heap.requests = true ∧ size < 2 ^ 63
    · simp only [if_pos hgrant]
      exact ih rfl rfl
    · simp only [if_neg hgrant]

@[simp] lemma grantsAll_free (heap : Heap ε) (block : ℕ) (sizes : List ℕ) :
    (heap.free block).grantsAll sizes = heap.grantsAll sizes := by
  apply grantsAll_congr <;> rfl

@[simp] lemma grantsAll_note (heap : Heap ε) (event : ε) (sizes : List ℕ) :
    (heap.note event).grantsAll sizes = heap.grantsAll sizes := by
  apply grantsAll_congr <;> rfl

end GrantsAll

/-! ### Growth of the history -/

/-- A later state of a pool: the same decisions, and more requests and events. -/
structure Extends (heap heap' : Heap ε) : Prop where
  grants : heap'.grants = heap.grants
  requests : heap.requests ≤ heap'.requests
  log : heap.log <+: heap'.log

namespace Extends

variable {heap heap' heap'' : Heap ε}

protected lemma refl (heap : Heap ε) : Extends heap heap := ⟨rfl, le_rfl, List.prefix_rfl⟩

protected lemma trans (h : Extends heap heap') (h' : Extends heap' heap'') : Extends heap heap'' :=
  ⟨h'.grants.trans h.grants, h.requests.trans h'.requests, h.log.trans h'.log⟩

lemma allocate {size : ℕ} {result : Option ℕ} (h : heap.allocate size = (result, heap')) :
    Extends heap heap' := by
  rcases result with _ | block
  · obtain rfl := allocate_none_eq h
    exact ⟨rfl, Nat.le_succ _, List.prefix_rfl⟩
  · obtain ⟨-, rfl⟩ := allocate_some_eq h
    exact ⟨rfl, Nat.le_succ _, List.prefix_append _ _⟩

protected lemma free (heap : Heap ε) (block : ℕ) : Extends heap (heap.free block) :=
  ⟨rfl, le_rfl, List.prefix_append _ _⟩

protected lemma note (heap : Heap ε) (event : ε) : Extends heap (heap.note event) :=
  ⟨rfl, le_rfl, List.prefix_append _ _⟩

lemma freed_subset (h : Extends heap heap') : freedBlocks heap.log ⊆ freedBlocks heap'.log := by
  obtain ⟨l, hl⟩ := h.log
  rw [← hl, freedBlocks_append]
  exact List.subset_append_left _ _

lemma notes_subset (h : Extends heap heap') : notes heap.log ⊆ notes heap'.log := by
  obtain ⟨l, hl⟩ := h.log
  rw [← hl, notes_append]
  exact List.subset_append_left _ _

end Extends

@[simp] lemma notes_free (heap : Heap ε) (block : ℕ) :
    notes (heap.free block).log = notes heap.log := by
  simp [Heap.free, notes]

@[simp] lemma notes_note (heap : Heap ε) (event : ε) :
    notes (heap.note event).log = notes heap.log ++ [event] := by
  simp [Heap.note, notes]

lemma notes_allocate {heap heap' : Heap ε} {size : ℕ} {result : Option ℕ}
    (h : heap.allocate size = (result, heap')) : notes heap'.log = notes heap.log := by
  rcases result with _ | block
  · rw [allocate_none_eq h]
  · rw [(allocate_some_eq h).2]
    simp [notes]

/-! ### Ownership -/

/-- The blocks in use are those of `blocks`, each of them once, and whatever was
freed was freed once and is not in use. -/
structure Owns (heap : Heap ε) (blocks : Multiset ℕ) : Prop where
  live : (heap.live : Multiset ℕ) = blocks
  nodup : blocks.Nodup
  lt : ∀ b ∈ blocks, b < heap.requests
  freed_nodup : (freedBlocks heap.log).Nodup
  freed_lt : ∀ b ∈ freedBlocks heap.log, b < heap.requests
  freed_not_live : ∀ b ∈ freedBlocks heap.log, b ∉ blocks

namespace Owns

variable {heap heap' : Heap ε} {blocks : Multiset ℕ} {block size : ℕ}

lemma allocate_none (hown : Owns heap blocks) (h : heap.allocate size = (none, heap')) :
    Owns heap' blocks := by
  obtain rfl := allocate_none_eq h
  exact ⟨hown.live, hown.nodup, fun b hb => (hown.lt b hb).trans (Nat.lt_succ_self _),
    hown.freed_nodup, fun b hb => (hown.freed_lt b hb).trans (Nat.lt_succ_self _),
    hown.freed_not_live⟩

/-- An untouched pool has no blocks in use. -/
lemma empty {grants : ℕ → Bool} : Owns (⟨grants, 0, 0, [], []⟩ : Heap ε) 0 :=
  ⟨rfl, Multiset.nodup_zero, by simp, List.nodup_nil, by simp, by simp⟩

/-- A granted block is new. -/
lemma allocate_some (hown : Owns heap blocks) (h : heap.allocate size = (some block, heap')) :
    block ∉ blocks ∧ Owns heap' ({block} + blocks) := by
  obtain ⟨rfl, rfl⟩ := allocate_some_eq h
  have hfresh : heap.requests ∉ blocks := fun hmem => (hown.lt _ hmem).false
  refine ⟨hfresh, ⟨?_, ?_, ?_, ?_, ?_, ?_⟩⟩
  · rw [Multiset.singleton_add, ← hown.live, Multiset.cons_coe]
  · rw [Multiset.singleton_add, Multiset.nodup_cons]
    exact ⟨hfresh, hown.nodup⟩
  · intro b hb
    rw [Multiset.singleton_add, Multiset.mem_cons] at hb
    rcases hb with rfl | hb
    · exact Nat.lt_succ_self _
    · exact (hown.lt b hb).trans (Nat.lt_succ_self _)
  · simpa [freedBlocks] using hown.freed_nodup
  · intro b hb
    exact (hown.freed_lt b (by simpa [freedBlocks] using hb)).trans (Nat.lt_succ_self _)
  · intro b hb hmem
    have hb : b ∈ freedBlocks heap.log := by simpa [freedBlocks] using hb
    rw [Multiset.singleton_add, Multiset.mem_cons] at hmem
    rcases hmem with rfl | hmem
    · exact (hown.freed_lt _ hb).false
    · exact hown.freed_not_live b hb hmem

lemma free (hown : Owns heap ({block} + blocks)) : Owns (heap.free block) blocks := by
  have hnodup := hown.nodup
  rw [Multiset.singleton_add, Multiset.nodup_cons] at hnodup
  have hmem : block ∈ ({block} + blocks : Multiset ℕ) := by simp
  refine ⟨?_, hnodup.2, fun b hb => hown.lt b (by simp [hb]), ?_, ?_, ?_⟩
  · rw [Heap.free, ← Multiset.coe_erase, hown.live, Multiset.singleton_add,
      Multiset.erase_cons_head]
  · have hnot : block ∉ freedBlocks heap.log := fun h => hown.freed_not_live block h hmem
    simp only [Heap.free, freedBlocks_append]
    exact hown.freed_nodup.append (by simp [freedBlocks]) (by simpa [freedBlocks] using hnot)
  · intro b hb
    simp only [Heap.free, freedBlocks_append, List.mem_append] at hb
    rcases hb with hb | hb
    · exact hown.freed_lt b hb
    · obtain rfl : b = block := by simpa [freedBlocks] using hb
      exact hown.lt b hmem
  · intro b hb hb'
    simp only [Heap.free, freedBlocks_append, List.mem_append] at hb
    rcases hb with hb | hb
    · exact hown.freed_not_live b hb (by simp [hb'])
    · obtain rfl : b = block := by simpa [freedBlocks] using hb
      exact hnodup.1 hb'

lemma note (hown : Owns heap blocks) (event : ε) : Owns (heap.note event) blocks := by
  have hlog : freedBlocks (heap.note event).log = freedBlocks heap.log := by
    simp [Heap.note, freedBlocks]
  exact ⟨hown.live, hown.nodup, hown.lt, hlog ▸ hown.freed_nodup, hlog ▸ hown.freed_lt,
    hlog ▸ hown.freed_not_live⟩

end Owns

/-! ### Giving blocks back -/

/-- A part of a program gives back exactly the blocks of a multiset. -/
structure Releases (heap heap' : Heap ε) (blocks : Multiset ℕ) : Prop where
  owns : ∀ rest, heap.Owns (blocks + rest) → heap'.Owns rest
  freed : ∃ l, freedBlocks heap'.log = freedBlocks heap.log ++ l ∧ (l : Multiset ℕ) = blocks

namespace Releases

variable {heap heap₁ heap₂ : Heap ε} {blocks blocks₁ blocks₂ : Multiset ℕ}

protected lemma refl (heap : Heap ε) : Releases heap heap 0 :=
  ⟨fun rest h => by simpa using h, [], by simp, rfl⟩

protected lemma free (heap : Heap ε) (block : ℕ) : Releases heap (heap.free block) {block} :=
  ⟨fun _ => Owns.free, [block], by simp [Heap.free, freedBlocks], rfl⟩

protected lemma note (heap : Heap ε) (event : ε) : Releases heap (heap.note event) 0 :=
  ⟨fun rest h => by simpa using h.note event, [], by simp [Heap.note, freedBlocks], rfl⟩

protected lemma trans (h₁ : Releases heap heap₁ blocks₁) (h₂ : Releases heap₁ heap₂ blocks₂) :
    Releases heap heap₂ (blocks₁ + blocks₂) := by
  obtain ⟨l₁, hl₁, rfl⟩ := h₁.freed
  obtain ⟨l₂, hl₂, rfl⟩ := h₂.freed
  refine ⟨fun rest h => h₂.owns rest (h₁.owns _ ?_), l₁ ++ l₂, ?_, (Multiset.coe_add l₁ l₂).symm⟩
  · rwa [← add_assoc]
  · rw [hl₂, hl₁, List.append_assoc]

end Releases

/-- Give blocks back, from the first of the list to the last. -/
def freeAll (heap : Heap ε) (blocks : List ℕ) : Heap ε := blocks.foldl free heap

@[simp] lemma freeAll_nil (heap : Heap ε) : heap.freeAll [] = heap := rfl

@[simp] lemma freeAll_cons (heap : Heap ε) (block : ℕ) (blocks : List ℕ) :
    heap.freeAll (block :: blocks) = (heap.free block).freeAll blocks := rfl

@[simp] lemma notes_freeAll (heap : Heap ε) (blocks : List ℕ) :
    notes (heap.freeAll blocks).log = notes heap.log := by
  induction blocks generalizing heap with
  | nil => rfl
  | cons block blocks ih => rw [freeAll_cons, ih, notes_free]

lemma Owns.freeAll {heap : Heap ε} {blocks : List ℕ} {rest : Multiset ℕ}
    (hown : heap.Owns ((blocks : Multiset ℕ) + rest)) : (heap.freeAll blocks).Owns rest := by
  induction blocks generalizing heap with
  | nil => simpa using hown
  | cons block blocks ih =>
    rw [← Multiset.cons_coe, ← Multiset.singleton_add, add_assoc] at hown
    exact ih hown.free

/-! ### Blocks acquired in a row -/

/-- Requests of these sizes have all been granted, one after the other; the blocks are
listed from the last to the first, which is the order of an unwinding. -/
inductive Granted (heap : Heap ε) : List ℕ → List ℕ → Heap ε → Prop
  | nil : Granted heap [] [] heap
  | snoc {sizes blocks : List ℕ} {heap₁ heap₂ : Heap ε} {size block : ℕ}
      (hgranted : Granted heap sizes blocks heap₁)
      (h : heap₁.allocate size = (some block, heap₂)) :
      Granted heap (sizes ++ [size]) (block :: blocks) heap₂

namespace Granted

variable {heap heap₁ heap₂ : Heap ε} {sizes blocks : List ℕ} {size : ℕ}

lemma notes (hgranted : Granted heap sizes blocks heap₁) :
    Heap.notes heap₁.log = Heap.notes heap.log := by
  induction hgranted with
  | nil => rfl
  | snoc hgranted h ih => rw [notes_allocate h, ih]

lemma owns (hgranted : Granted heap sizes blocks heap₁) {rest : Multiset ℕ}
    (hown : heap.Owns rest) : heap₁.Owns ((blocks : Multiset ℕ) + rest) := by
  induction hgranted with
  | nil => simpa using hown
  | snoc hgranted h ih =>
    rw [← Multiset.cons_coe, ← Multiset.singleton_add, add_assoc]
    exact (ih.allocate_some h).2

/-- No request of `PTRDIFF_MAX` bytes or more is among those granted. -/
lemma size_lt (hgranted : Granted heap sizes blocks heap₁) {size : ℕ} (hsize : size ∈ sizes) :
    size < 2 ^ 63 := by
  induction hgranted with
  | nil => cases hsize
  | @snoc sizes blocks heap₁ heap₂ last block hgranted h ih =>
    rcases List.mem_append.1 hsize with hmem | hmem
    · exact ih hmem
    · obtain rfl := List.mem_singleton.1 hmem
      rcases heap₁.allocate_cases size with hnone | ⟨-, hlt, -⟩
      · rw [hnone] at h
        cases h
      · exact hlt

lemma grantsAll_append (hgranted : Granted heap sizes blocks heap₁) (rest : List ℕ) :
    heap.grantsAll (sizes ++ rest) = heap₁.grantsAll rest := by
  induction hgranted generalizing rest with
  | nil => rfl
  | snoc hgranted h ih =>
    rw [List.append_assoc, ih, List.singleton_append, grantsAll_cons_some h]

lemma grantsAll (hgranted : Granted heap sizes blocks heap₁) : heap.grantsAll sizes = true := by
  have hall := hgranted.grantsAll_append []
  rwa [List.append_nil] at hall

/-- A refused request: not all of the sizes are granted. -/
lemma not_grantsAll (hgranted : Granted heap sizes blocks heap₁)
    (h : heap₁.allocate size = (none, heap₂)) (rest : List ℕ) :
    heap.grantsAll (sizes ++ size :: rest) = false := by
  rw [hgranted.grantsAll_append, grantsAll_cons_none h]

/-- After a refused request the blocks acquired before it can be given back. -/
lemma owns_unwound (hgranted : Granted heap sizes blocks heap₁)
    (h : heap₁.allocate size = (none, heap₂)) {rest : Multiset ℕ} (hown : heap.Owns rest) :
    (heap₂.freeAll blocks).Owns rest :=
  ((hgranted.owns hown).allocate_none h).freeAll

lemma notes_unwound (hgranted : Granted heap sizes blocks heap₁)
    (h : heap₁.allocate size = (none, heap₂)) :
    Heap.notes (heap₂.freeAll blocks).log = Heap.notes heap.log := by
  rw [notes_freeAll, notes_allocate h, hgranted.notes]

end Granted

end Heap

end BcConcurrency
