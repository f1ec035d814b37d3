import Mathlib.Logic.Function.Basic

/-!
# A heap of objects

Objects that are shared by reference and changed in place.  A reference is a number; the numbers
from `size` on have not been given out.
-/

structure Heap (α : Type*) where
  cell : Nat → α
  size : Nat

namespace Heap

abbrev Ref := Nat

variable {α : Type*} (h : Heap α) (a : α) (r r' : Ref) (f : α → α)

/-- A heap with the one object `a`; `a` also stands for objects that have not been made. -/
def single (a : α) : Heap α := ⟨fun _ => a, 1⟩

def get (r : Ref) : α := h.cell r

/-- Make a new object. -/
def alloc : Heap α × Ref := (⟨Function.update h.cell h.size a, h.size + 1⟩, h.size)

/-- Change an object in place. -/
def modify : Heap α := ⟨Function.update h.cell r (f (h.cell r)), h.size⟩

@[simp] theorem alloc_ref : (h.alloc a).2 = h.size := rfl

@[simp] theorem get_alloc_self : (h.alloc a).1.get h.size = a := Function.update_self _ _ _

theorem get_alloc_of_lt (hr : r < h.size) : (h.alloc a).1.get r = h.get r :=
  Function.update_of_ne (Nat.ne_of_lt hr) _ _

@[simp] theorem get_modify_self : (h.modify r f).get r = f (h.get r) := Function.update_self _ _ _

theorem get_modify_of_ne (hr : r' ≠ r) : (h.modify r f).get r' = h.get r' :=
  Function.update_of_ne hr _ _

variable {h a r f} {P : α → Prop}

/-- A property of all objects survives a new object that has it. -/
theorem forall_alloc (hP : ∀ r, P (h.get r)) (ha : P a) (r : Ref) : P ((h.alloc a).1.get r) := by
  by_cases hr : r = h.size
  · subst hr
    rwa [get_alloc_self]
  · rw [show (h.alloc a).1.get r = h.get r from Function.update_of_ne hr _ _]
    exact hP r

/-- A property of all objects survives a change in place that keeps it. -/
theorem forall_modify (hP : ∀ r, P (h.get r)) (hf : P (h.get r) → P (f (h.get r))) (r' : Ref) :
    P ((h.modify r f).get r') := by
  by_cases hr : r' = r
  · subst hr
    rw [get_modify_self]
    exact hf (hP r')
  · rw [get_modify_of_ne h r r' f hr]
    exact hP r'

end Heap
