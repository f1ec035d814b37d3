import Mathlib.Algebra.Order.BigOperators.Group.List
import Mathlib.Tactic.Ring

/-!
# Totals of a keyed list

A store of values under keys, as a list of pairs, and the total of a measure over its entries; and
the same store with keys and values translated.
-/

namespace Ledger

variable {κ ν : Type*} [DecidableEq κ]

/-- Put a value under a key, in place of what is there. -/
def put (k : κ) (v : ν) (l : List (κ × ν)) : List (κ × ν) := (k, v) :: l.filter (·.1 ≠ k)

def total (f : ν → Int) (l : List (κ × ν)) : Int := (l.map fun p => f p.2).sum

/-- The total of what is under a key. -/
def totalAt (f : ν → Int) (k : κ) (l : List (κ × ν)) : Int := total f (l.filter (·.1 = k))

variable {f : ν → Int} {k : κ} {v : ν} {l : List (κ × ν)}

theorem total_filter_ne (f : ν → Int) (k : κ) (l : List (κ × ν)) :
    total f (l.filter (·.1 ≠ k)) = total f l - totalAt f k l := by
  unfold totalAt
  induction l with
  | nil => rfl
  | cons p l ih =>
    by_cases hp : p.1 = k
    · rw [List.filter_cons_of_neg (by simpa using hp),
        List.filter_cons_of_pos (by simpa using hp), ih]
      simp only [total, List.map_cons, List.sum_cons]
      ring
    · rw [List.filter_cons_of_pos (by simpa using hp), List.filter_cons_of_neg (by simpa using hp)]
      simp only [total, List.map_cons, List.sum_cons] at ih ⊢
      rw [ih]
      ring

/-- Putting a value under a key loses what was under it. -/
theorem total_put (f : ν → Int) (k : κ) (v : ν) (l : List (κ × ν)) :
    total f (put k v l) = total f l + f v - totalAt f k l := by
  have hcons : total f (put k v l) = f v + total f (l.filter (·.1 ≠ k)) := by
    simp [total, put]
  rw [hcons, total_filter_ne]
  ring

theorem totalAt_nonneg (h : ∀ p ∈ l, 0 ≤ f p.2) : 0 ≤ totalAt f k l := by
  refine List.sum_nonneg fun n hn => ?_
  obtain ⟨p, hp, rfl⟩ := List.mem_map.1 hn
  exact h p (List.mem_of_mem_filter hp)

theorem forall_put {P : κ × ν → Prop} (h : ∀ p ∈ l, P p) (hv : P (k, v)) : ∀ p ∈ put k v l, P p :=
  List.forall_mem_cons.2 ⟨hv, fun p hp => h p (List.mem_of_mem_filter hp)⟩

theorem mem_keys_put {k' : κ} : k' ∈ (put k v l).map Prod.fst ↔ k' = k ∨ k' ∈ l.map Prod.fst := by
  simp only [put, List.map_cons, List.mem_cons, List.mem_map, List.mem_filter, decide_eq_true_eq]
  refine or_congr_right' fun hk => exists_congr fun p => and_congr_left fun hp => ?_
  exact and_iff_left (hp ▸ hk)

/-! ## Translated entries -/

variable {κ' ν' : Type*} [DecidableEq κ'] {g : κ → κ'} {h : ν → ν'}

/-- Translating a list commutes with `put` if no other key is translated to the same. -/
theorem map_put (hinj : ∀ p ∈ l, g p.1 = g k → p.1 = k) :
    (put k v l).map (Prod.map g h) = put (g k) (h v) (l.map (Prod.map g h)) := by
  unfold put
  rw [List.map_cons, List.filter_map]
  refine congrArg (_ :: List.map _ ·) (List.filter_congr fun p hp => ?_)
  exact decide_eq_decide.2 (not_congr ⟨fun hk => congrArg g hk, hinj p hp⟩)

omit [DecidableEq κ] [DecidableEq κ'] in
/-- A reader of the translated list finds what is in the list. -/
theorem lookup_map [BEq κ] [LawfulBEq κ] [BEq κ'] [LawfulBEq κ'] {read : ν' → Option ν}
    (hinj : ∀ p ∈ l, g p.1 = g k → p.1 = k) (hread : ∀ p ∈ l, read (h p.2) = some p.2) :
    ((l.map (Prod.map g h)).lookup (g k)).bind read = l.lookup k := by
  induction l with
  | nil => rfl
  | cons p l ih =>
    rw [List.forall_mem_cons] at hinj hread
    have ih := ih hinj.2 hread.2
    obtain ⟨k', v'⟩ := p
    rw [List.map_cons, Prod.map_apply, List.lookup_cons, List.lookup_cons]
    by_cases hk : k = k'
    · subst hk
      simpa using hread.1
    · have hne : g k ≠ g k' := fun heq => hk (hinj.1 heq.symm).symm
      rw [beq_false_of_ne hk, beq_false_of_ne hne]
      exact ih

end Ledger
