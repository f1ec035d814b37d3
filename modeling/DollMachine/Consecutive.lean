import Mathlib.Data.List.SplitBy
import Mathlib.Order.Lattice

/-!
# Lists whose consecutive elements matter

`strict_iff`: items that are stamped one after the other, each at some time after it is ready, have
different stamps if and only if no item is ready and stamped at the very stamp of the item before
it.

`runs`: the maximal runs of consecutive elements that satisfy a predicate.  There are as many runs
as elements that satisfy it if and only if no two such elements are consecutive
(`countP_eq_runs_iff`).
-/

namespace Consecutive

section Stamps

variable {ι τ : Type*} [LinearOrder τ] (ready : ι → τ) {stamp : ι → τ} {l : List ι}

theorem stamp_le (hself : ∀ x ∈ l, ready x ≤ stamp x)
    (hnext : l.Pairwise fun x y => stamp x ≤ ready y) : (l.map stamp).Pairwise (· ≤ ·) :=
  List.pairwise_map.2 <| hnext.imp_of_mem fun _ hy h => h.trans (hself _ hy)

/-- Stamps that never decrease strictly increase when none comes twice. -/
theorem strict_iff_nodup (hself : ∀ x ∈ l, ready x ≤ stamp x)
    (hnext : l.Pairwise fun x y => stamp x ≤ ready y) :
    (l.map stamp).Pairwise (· < ·) ↔ (l.map stamp).Nodup := by
  constructor
  · exact fun h => h.imp ne_of_lt
  · intro h
    have hle := stamp_le ready hself hnext
    exact (hle.and h).imp fun hxy => lt_of_le_of_ne hxy.1 hxy.2

theorem strict_iff (hself : ∀ x ∈ l, ready x ≤ stamp x)
    (hnext : l.Pairwise fun x y => stamp x ≤ ready y) :
    (l.map stamp).Pairwise (· < ·) ↔
      l.IsChain fun x y => stamp x < ready y ∨ ready y < stamp y := by
  rw [← List.isChain_iff_pairwise, List.isChain_map]
  induction l with
  | nil => simp
  | cons x l ih =>
    obtain ⟨-, hself⟩ := List.forall_mem_cons.1 hself
    obtain ⟨hx, hnext⟩ := List.pairwise_cons.1 hnext
    rw [List.isChain_cons, List.isChain_cons, ih hself hnext]
    refine and_congr_left fun _ => forall₂_congr fun y hy => ?_
    have hmem : y ∈ l := List.mem_of_mem_head? hy
    have hready := hself y hmem
    constructor
    · intro h
      rcases (hx y hmem).lt_or_eq with hlt | heq
      · exact .inl hlt
      · exact .inr (heq ▸ h)
    · rintro (h | h)
      · exact h.trans_le hready
      · exact (hx y hmem).trans_lt h

end Stamps

section Runs

variable {α : Type*} {p : α → Bool} {a b : α} {l : List α}

/-- The maximal runs of consecutive elements that satisfy `p`, in order. -/
def runs (p : α → Bool) (l : List α) : List (List α) :=
  (l.splitBy fun a b => p a == p b).filter (·.any p)

theorem splitBy_cons_of_rel {r : α → α → Bool} (h : r a b = true) :
    ∃ g gs, (b :: l).splitBy r = (b :: g) :: gs ∧
      (a :: b :: l).splitBy r = (a :: b :: g) :: gs := by
  have hnil := List.nil_notMem_splitBy r (b :: l)
  have hchain := List.isChain_getLast_head_splitBy r (b :: l)
  have hmem : ∀ m ∈ (b :: l).splitBy r, m.IsChain fun x y => r x y :=
    fun m => List.isChain_of_mem_splitBy
  have hflat := List.flatten_splitBy r (b :: l)
  cases hs : (b :: l).splitBy r with
  | nil => simp at hs
  | cons m gs =>
    rw [hs] at hnil hchain hmem hflat
    cases m with
    | nil => simp at hnil
    | cons c g =>
      rw [List.flatten_cons, List.cons_append, List.cons.injEq] at hflat
      obtain ⟨rfl, rfl⟩ := hflat
      refine ⟨g, gs, rfl, List.splitBy_eq_iff.2 ⟨rfl, ?_, ?_, ?_⟩⟩
      · simpa using hnil
      · rw [List.forall_mem_cons] at hmem ⊢
        exact ⟨List.isChain_cons_cons.2 ⟨h, hmem.1⟩, hmem.2⟩
      · rw [List.isChain_cons] at hchain ⊢
        exact ⟨fun m hm => by simpa using hchain.1 m hm, hchain.2⟩

/-- An element in front starts a new run, or belongs to the run that comes next, or to none. -/
theorem length_runs_cons (p : α → Bool) (a : α) (l : List α) :
    (runs p (a :: l)).length =
      (runs p l).length + if p a ∧ ¬ l.head?.any p then 1 else 0 := by
  cases l with
  | nil => cases ha : p a <;> simp [runs, List.splitBy, List.splitBy.loop, ha]
  | cons b l =>
    rw [List.head?_cons, Option.any_some]
    by_cases hab : (p a == p b) = true
    · obtain ⟨g, gs, hs, hs'⟩ := splitBy_cons_of_rel (r := fun a b => p a == p b) (l := l) hab
      have hany : (a :: b :: g).any p = (b :: g).any p := by
        simp [eq_of_beq hab]
      have hsame : ¬ (p a = true ∧ ¬ p b = true) := by
        simp [eq_of_beq hab]
      rw [runs, runs, hs, hs', List.filter_cons, List.filter_cons, hany, if_neg hsame]
      split_ifs <;> rfl
    · have hs : ([a] ++ b :: l).splitBy (fun a b => p a == p b) = _ :=
        List.splitBy_append (by simpa using hab)
      rw [runs, runs, ← List.singleton_append, hs, List.filter_append, List.length_append,
        Nat.add_comm]
      cases ha : p a <;> cases hb : p b <;> simp_all [List.splitBy, List.splitBy.loop]

/-- An element that satisfies `p` is in a run. -/
theorem length_runs_pos (ha : a ∈ l) (hp : p a) : 0 < (runs p l).length := by
  rw [← List.flatten_splitBy (fun a b => p a == p b) l] at ha
  obtain ⟨m, hm, ham⟩ := List.mem_flatten.1 ha
  exact List.length_pos_of_mem (List.mem_filter.2 ⟨hm, List.any_eq_true.2 ⟨a, ham, hp⟩⟩)

theorem length_runs_le (p : α → Bool) (l : List α) : (runs p l).length ≤ l.countP p := by
  induction l with
  | nil => simp [runs]
  | cons a l ih =>
    rw [length_runs_cons, List.countP_cons]
    split_ifs with hstart ha
    · exact Nat.add_le_add_right ih 1
    · exact absurd hstart.1 ha
    · exact ih.trans (Nat.le_add_right _ 1)
    · exact ih

theorem countP_eq_runs_iff (p : α → Bool) (l : List α) :
    l.countP p = (runs p l).length ↔ l.IsChain fun a b => ¬ (p a ∧ p b) := by
  induction l with
  | nil => simp [runs]
  | cons a l ih =>
    have hle := length_runs_le p l
    have hhead : (∀ b ∈ l.head?, ¬ (p a ∧ p b)) ↔ ¬ (p a ∧ l.head?.any p) := by
      cases l <;> simp
    rw [length_runs_cons, List.countP_cons, List.isChain_cons, ← ih, hhead]
    by_cases ha : p a = true <;> by_cases hb : l.head?.any p = true <;> simp [ha, hb]
    omega

end Runs

end Consecutive
