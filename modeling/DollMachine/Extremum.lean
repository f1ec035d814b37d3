import Mathlib.Data.List.Basic
import Mathlib.Order.Bounds.Basic
import Mathlib.Order.MinMax

/-!
# The elements where a measure is greatest

`greatest f l` are the elements of `l` at which `f` is greatest over `l`, in their order.  The
lemmas say how they change when the list gets one element more, which is what a single pass over a
list has to keep; with the order reversed they are about the least value.
-/

namespace Extremum

variable {α τ : Type*} [LinearOrder τ] {f : α → τ} {l : List α} {a : α} {m : τ}

def greatest (f : α → τ) (l : List α) : List α := l.filter fun a => ∀ b ∈ l, f b ≤ f a

/-- The greatest value of `f` over a list. -/
def IsTop (f : α → τ) (l : List α) (m : τ) : Prop := IsGreatest (f '' {a | a ∈ l}) m

theorem isTop_iff : IsTop f l m ↔ (∃ b ∈ l, f b = m) ∧ ∀ b ∈ l, f b ≤ m := by
  simp [IsTop, IsGreatest, mem_upperBounds]

theorem isTop_singleton (f : α → τ) (a : α) : IsTop f [a] (f a) := by
  simp [isTop_iff]

theorem IsTop.snoc (h : IsTop f l m) (a : α) : IsTop f (l ++ [a]) (max m (f a)) := by
  rw [isTop_iff] at h ⊢
  obtain ⟨⟨b, hb, rfl⟩, hle⟩ := h
  constructor
  · rcases max_choice (f b) (f a) with hmax | hmax
    · exact ⟨b, List.mem_append_left _ hb, hmax.symm⟩
    · exact ⟨a, List.mem_append_right _ (List.mem_singleton_self a), hmax.symm⟩
  · intro c hc
    rcases List.mem_append.1 hc with hc | hc
    · exact (hle c hc).trans (le_max_left _ _)
    · rw [List.mem_singleton.1 hc]
      exact le_max_right _ _

theorem mem_greatest_iff (h : IsTop f l m) : a ∈ greatest f l ↔ a ∈ l ∧ f a = m := by
  obtain ⟨⟨b, hb, rfl⟩, hle⟩ := isTop_iff.1 h
  simp only [greatest, List.mem_filter, decide_eq_true_eq]
  refine and_congr_right fun ha => ⟨fun hall => ?_, fun heq c hc => ?_⟩
  · exact le_antisymm (hle a ha) (hall b hb)
  · exact heq ▸ hle c hc

theorem greatest_eq_filter (h : IsTop f l m) : greatest f l = l.filter fun a => f a = m := by
  refine List.filter_congr fun a ha => decide_eq_decide.2 ?_
  have hmem := mem_greatest_iff (a := a) h
  simpa [greatest, ha] using hmem

/-- An element above all others is the only one. -/
theorem greatest_snoc_of_gt (h : IsTop f l m) (ha : m < f a) : greatest f (l ++ [a]) = [a] := by
  have htop := h.snoc a
  rw [max_eq_right ha.le] at htop
  rw [greatest_eq_filter htop, List.filter_append]
  have hnone : l.filter (fun b => f b = f a) = [] := by
    refine List.filter_eq_nil_iff.2 fun b hb heq => ?_
    exact absurd (of_decide_eq_true heq) (((isTop_iff.1 h).2 b hb).trans_lt ha).ne
  rw [hnone]
  simp

theorem greatest_snoc_of_eq (h : IsTop f l (f a)) :
    greatest f (l ++ [a]) = greatest f l ++ [a] := by
  have htop := h.snoc a
  rw [max_self] at htop
  rw [greatest_eq_filter htop, greatest_eq_filter h, List.filter_append]
  simp

theorem greatest_snoc_of_lt (h : IsTop f l m) (ha : f a < m) :
    greatest f (l ++ [a]) = greatest f l := by
  have htop := h.snoc a
  rw [max_eq_left ha.le] at htop
  rw [greatest_eq_filter htop, greatest_eq_filter h, List.filter_append]
  simp [ha.ne]

end Extremum
