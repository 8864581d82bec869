import Mathlib.Tactic

/-!
# Objects in blocks of memory

A memory of typed objects, finer than the pool of blocks and coarser than bytes.  An
object begins at a byte of a block and takes as many bytes as its kind does.  Storing
an object needs a block in use with room for it, and destroys the objects that it
overlaps; a block that is allocated or freed holds no object.

An address can be read if an object begins there.  What a program does elsewhere
leaves the object alone: `Apart` is the condition for a store.
-/

namespace BcConcurrency

/-- A byte of a block. -/
structure Pointer where
  block : ℕ
  offset : ℕ
deriving DecidableEq

/-- The pointer so many bytes further on. -/
@[simps] def Pointer.add (p : Pointer) (bytes : ℕ) : Pointer := ⟨p.block, p.offset + bytes⟩

@[simp] lemma Pointer.add_zero (p : Pointer) : p.add 0 = p := rfl

/-- A memory of objects. -/
structure Objects (α : Type*) where
  /-- How many bytes a block in use has. -/
  size : ℕ → Option ℕ
  /-- The object that begins at a byte of a block. -/
  object : ℕ → ℕ → Option α

namespace Objects

variable {α : Type*}

/-- No block is in use. -/
def empty : Objects α := ⟨fun _ => none, fun _ _ => none⟩

/-- Take a block into use. -/
@[simps] def allocate (m : Objects α) (block size : ℕ) : Objects α where
  size := Function.update m.size block (some size)
  object := Function.update m.object block fun _ => none

/-- End the use of a block. -/
@[simps] def free (m : Objects α) (block : ℕ) : Objects α where
  size := Function.update m.size block none
  object := Function.update m.object block fun _ => none

/-- The object at an address. -/
def read (m : Objects α) (p : Pointer) : Option α := m.object p.block p.offset

/-- Store an object; `none` is a store out of the bounds of a block in use. -/
def write (width : α → ℕ) (m : Objects α) (p : Pointer) (a : α) : Option (Objects α) :=
  match m.size p.block with
  | none => none
  | some size =>
      if p.offset + width a ≤ size then
        some { m with
          object := Function.update m.object p.block fun offset =>
            if offset = p.offset then some a
            else (m.object p.block offset).filter fun b =>
              offset + width b ≤ p.offset ∨ p.offset + width a ≤ offset }
      else none

/-- The object `b` at `q` and a store of `a` at `p` have no byte in common. -/
def Apart (width : α → ℕ) (p : Pointer) (a : α) (q : Pointer) (b : α) : Prop :=
  q.block = p.block → q.offset + width b ≤ p.offset ∨ p.offset + width a ≤ q.offset

section Read

variable {m m' : Objects α} {p q : Pointer} {a b : α} {block size : ℕ}

lemma read_allocate_of_ne (h : q.block ≠ block) : (m.allocate block size).read q = m.read q := by
  simp [read, h]

lemma read_free_of_ne (h : q.block ≠ block) : (m.free block).read q = m.read q := by
  simp [read, h]

variable {width : α → ℕ}

/-- A store has an effect if and only if the object fits. -/
lemma write_isSome_iff :
    (m.write width p a).isSome ↔ ∃ size, m.size p.block = some size ∧ p.offset + width a ≤ size := by
  rw [write]
  rcases m.size p.block with _ | size
  · simp
  · simp only [Option.some.injEq, exists_eq_left']
    split <;> simp [*]

lemma size_write (h : m.write width p a = some m') : m'.size = m.size := by
  rw [write] at h
  split at h
  · cases h
  · split at h
    · cases h
      rfl
    · cases h

lemma read_write_self (h : m.write width p a = some m') : m'.read p = some a := by
  rw [write] at h
  split at h
  · cases h
  · split at h
    · cases h
      simp [read]
    · cases h

/-- A store elsewhere keeps an object. -/
lemma read_write_of_apart (hwidth : ∀ c, 0 < width c) (h : m.write width p a = some m')
    (hq : m.read q = some b) (hapart : Apart width p a q b) : m'.read q = some b := by
  rw [write] at h
  split at h
  · cases h
  · split at h
    · cases h
      by_cases hblock : q.block = p.block
      · have hne : q.offset ≠ p.offset := by
          have ha := hwidth a
          have hb := hwidth b
          rcases hapart hblock with h | h <;> omega
        rw [read, hblock] at hq
        simp only [read, hblock, Function.update_self, hne, if_false, hq, Option.filter_some]
        rw [if_pos (decide_eq_true (hapart hblock))]
      · simpa [read, hblock] using hq
    · cases h

end Read

/-! ### Several stores -/

/-- Store objects one after another. -/
def writeAll (width : α → ℕ) (m : Objects α) (writes : List (Pointer × α)) : Option (Objects α) :=
  writes.foldlM (fun m w => m.write width w.1 w.2) m

section WriteAll

variable {width : α → ℕ} {m : Objects α} {writes : List (Pointer × α)}

lemma writeAll_cons (m : Objects α) (w : Pointer × α) (writes : List (Pointer × α)) :
    m.writeAll width (w :: writes) = (m.write width w.1 w.2).bind fun m => m.writeAll width writes :=
  List.foldlM_cons

/-- What stores leave: the blocks as they were, the stored objects, and the objects apart
from all of them. -/
structure Stored (width : α → ℕ) (m : Objects α) (writes : List (Pointer × α)) (m' : Objects α) :
    Prop where
  size : m'.size = m.size
  stored : ∀ w ∈ writes, m'.read w.1 = some w.2
  kept : ∀ q b, m.read q = some b → (∀ w ∈ writes, Apart width w.1 w.2 q b) → m'.read q = some b

/-- Stores of objects that have no bytes in common all have their effect. -/
theorem exists_writeAll (hwidth : ∀ c, 0 < width c)
    (hfits : ∀ w ∈ writes, ∃ size, m.size w.1.block = some size ∧ w.1.offset + width w.2 ≤ size)
    (hapart : writes.Pairwise fun v w => Apart width w.1 w.2 v.1 v.2) :
    ∃ m', m.writeAll width writes = some m' ∧ Stored width m writes m' := by
  induction writes generalizing m with
  | nil => exact ⟨m, rfl, rfl, by simp, fun _ _ hq _ => hq⟩
  | cons w writes ih =>
    rw [List.pairwise_cons] at hapart
    obtain ⟨m₁, hm₁⟩ := Option.isSome_iff_exists.mp
      (write_isSome_iff.mpr (hfits w (List.mem_cons_self ..)))
    have hsize := size_write hm₁
    obtain ⟨m', hm', hstored⟩ := ih (m := m₁)
      (fun v hv => by rw [hsize]; exact hfits v (List.mem_cons_of_mem _ hv)) hapart.2
    refine ⟨m', by rw [writeAll_cons, hm₁, Option.bind_some, hm'], hstored.size.trans hsize, ?_, ?_⟩
    · intro v hv
      rcases List.mem_cons.mp hv with rfl | hv
      · exact hstored.kept _ _ (read_write_self hm₁) hapart.1
      · exact hstored.stored v hv
    · intro q b hq hall
      refine hstored.kept q b ?_ fun v hv => hall v (List.mem_cons_of_mem _ hv)
      exact read_write_of_apart hwidth hm₁ hq (hall w (List.mem_cons_self ..))

end WriteAll

end Objects

end BcConcurrency
