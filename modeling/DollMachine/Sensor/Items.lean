import DollMachine.Consecutive
import DollMachine.Sensor.Loop
import Mathlib.Data.List.Infix

/-!
# What the counter counts

`ultrasound()` adds one to `getGoods` for every reading of the sensor below 15 cm.  An item that
passes the sensor is a run of such readings, and a reading of 0, for which there was no echo, is
below 15 cm too.

`counts_items_iff`: the counter grows by the number of items if and only if no reading is 0 and no
item is sampled twice, as long as the counter does not overflow.  `stored_items_iff`: the same of
the records of a run that loses no count.
-/

namespace DollMachine

namespace Sensor

open Transition

/-- The reading is an echo, from less than 15 cm. -/
def near (duration : Int) : Bool := 0 < duration ∧ cm duration < 15

/-- The items that pass the sensor: the maximal runs of consecutive near readings. -/
def items (durations : List Int) : Nat := (Consecutive.runs near durations).length

/-- `ultrasound()` takes the reading for an item. -/
def detects (duration : Int) : Bool := cm duration < 15

variable {b : Board} {ds : List Int}

theorem countP_detects (hpos : ∀ d ∈ ds, 0 ≤ d) :
    ds.countP detects = ds.countP near + ds.countP (· = 0) := by
  induction ds with
  | nil => rfl
  | cons d ds ih =>
    obtain ⟨hd, hpos⟩ := List.forall_mem_cons.1 hpos
    have hzero : cm 0 < 15 := by decide
    rw [List.countP_cons, List.countP_cons, List.countP_cons, ih hpos]
    rcases hd.eq_or_lt with rfl | hd
    · simp [detects, near, hzero]
      omega
    · simp [detects, near, hd, hd.ne']
      omega

/-- The readings that count are as many as the items exactly when no reading is 0 and no two
successive readings are near. -/
theorem countP_detects_eq_items_iff (hpos : ∀ d ∈ ds, 0 ≤ d) :
    ds.countP detects = items ds ↔
      (∀ d ∈ ds, d ≠ 0) ∧ ds.IsChain fun d e => ¬ (near d ∧ near e) := by
  have hle := Consecutive.length_runs_le near ds
  have hzero : (∀ d ∈ ds, d ≠ 0) ↔ ds.countP (· = 0) = 0 := by
    simp [List.countP_eq_zero]
  rw [countP_detects hpos, hzero, ← Consecutive.countP_eq_runs_iff, items]
  omega

/-! ## The counter -/

theorem wrap32_of_fits {n : Int} (h₀ : -2 ^ 31 ≤ n) (h₁ : n < 2 ^ 31) : wrap32 n = n := by
  simp only [wrap32, Int.bmod_def]
  omega

theorem getGoods_ultrasound (b : Board) (d : Int) : (b.ultrasound d).getGoods = b.measured d := by
  rw [Board.ultrasound_eq]

theorem measured_of_fits (hlow : -2 ^ 31 ≤ b.getGoods) (hhigh : b.getGoods < 2 ^ 31) {d : Int}
    (hfit : detects d → b.getGoods + 1 < 2 ^ 31) :
    b.measured d = b.getGoods + if detects d then 1 else 0 := by
  unfold Board.measured
  by_cases hd : cm d < 15
  · have := hfit (by simp [detects, hd])
    rw [if_pos hd, if_pos (by simp [detects, hd]), wrap32_of_fits (by omega) (by omega)]
    exact add_comm _ _
  · rw [if_neg hd, if_neg (by simp [detects, hd]), add_zero]

/-- The counter after successive calls of `ultrasound()`, as long as it does not overflow. -/
theorem getGoods_foldl (hlow : -2 ^ 31 ≤ b.getGoods)
    (hfit : b.getGoods + ds.countP detects < 2 ^ 31) :
    (ds.foldl Board.ultrasound b).getGoods = b.getGoods + ds.countP detects := by
  induction ds generalizing b with
  | nil => simp
  | cons d ds ih =>
    rw [List.countP_cons] at hfit ⊢
    have hd : (b.ultrasound d).getGoods = b.getGoods + if detects d then 1 else 0 := by
      rw [getGoods_ultrasound]
      exact measured_of_fits hlow (by omega) (by rintro h; rw [if_pos h] at hfit; omega)
    rw [List.foldl_cons, ih] <;> rw [hd] <;> split_ifs at hfit ⊢ <;> omega

/-- The counter overflows. -/
theorem getGoods_overflow (hmax : b.getGoods = 2 ^ 31 - 1) {d : Int} (hd : detects d) :
    (b.ultrasound d).getGoods = -2 ^ 31 := by
  rw [getGoods_ultrasound, Board.measured, if_pos (of_decide_eq_true hd), hmax]
  decide

theorem counts_iff_of_fits (hpos : ∀ d ∈ ds, 0 ≤ d) (hlow : -2 ^ 31 ≤ b.getGoods)
    (hfit : b.getGoods + ds.countP detects < 2 ^ 31) :
    (ds.foldl Board.ultrasound b).getGoods - b.getGoods = items ds ↔
      (∀ d ∈ ds, d ≠ 0) ∧ ds.IsChain fun d e => ¬ (near d ∧ near e) := by
  rw [← countP_detects_eq_items_iff hpos, getGoods_foldl hlow hfit]
  omega

/-- When the increase is the number of items all along, a reading that counts finds the counter
below its maximum: otherwise the counter would fall to where no item has passed yet. -/
theorem fits_of_counts {d : Int} (hlow : -2 ^ 31 ≤ b.getGoods)
    (hfit : b.getGoods + ds.countP detects < 2 ^ 31)
    (hds : (ds.foldl Board.ultrasound b).getGoods - b.getGoods = items ds)
    (hlast : ((ds ++ [d]).foldl Board.ultrasound b).getGoods - b.getGoods = items (ds ++ [d])) :
    b.getGoods + (ds ++ [d]).countP detects < 2 ^ 31 := by
  rw [List.countP_append, List.countP_singleton]
  split_ifs with hd
  · by_contra hover
    rw [getGoods_foldl hlow hfit] at hds
    rw [List.foldl_append, List.foldl_cons, List.foldl_nil,
      getGoods_overflow (by rw [getGoods_foldl hlow hfit]; omega) hd] at hlast
    have hnone : items ds = 0 := by
      refine Nat.le_zero.1 ((Consecutive.length_runs_le near ds).trans_eq ?_)
      refine List.countP_eq_zero.2 fun e he hnear => ?_
      have hpos : 0 < items (ds ++ [d]) :=
        Consecutive.length_runs_pos (List.mem_append_left _ he) hnear
      omega
    omega
  · simpa using hfit

/-- All along a sequence of readings the counter has grown by the number of items that have passed
the sensor, if and only if no reading is 0, no two successive readings are near, and the counter
does not overflow. -/
theorem counts_items_iff (hpos : ∀ d ∈ ds, 0 ≤ d)
    (hint : -2 ^ 31 ≤ b.getGoods ∧ b.getGoods < 2 ^ 31) :
    (∀ pre, pre <+: ds → (pre.foldl Board.ultrasound b).getGoods - b.getGoods = items pre) ↔
      (∀ d ∈ ds, d ≠ 0) ∧ (ds.IsChain fun d e => ¬ (near d ∧ near e)) ∧
        b.getGoods + ds.countP detects < 2 ^ 31 := by
  obtain ⟨hlow, hhigh⟩ := hint
  constructor
  · intro h
    have hfit : b.getGoods + ds.countP detects < 2 ^ 31 := by
      clear hpos
      induction ds using List.reverseRecOn with
      | nil => simpa using hhigh
      | append_singleton ds d ih =>
        have hds := List.prefix_append ds [d]
        exact fits_of_counts hlow (ih fun pre hpre => h pre (hpre.trans hds)) (h ds hds)
          (h _ (List.prefix_refl _))
    obtain ⟨hzero, hchain⟩ := (counts_iff_of_fits hpos hlow hfit).1 (h ds (List.prefix_refl _))
    exact ⟨hzero, hchain, hfit⟩
  · rintro ⟨hzero, hchain, hfit⟩ pre ⟨post, rfl⟩
    rw [List.countP_append] at hfit
    exact (counts_iff_of_fits (fun d hd => hpos d (List.mem_append_left _ hd)) hlow (by omega)).2
      ⟨fun d hd => hzero d (List.mem_append_left _ hd), hchain.left_of_append⟩

/-- Two items, a sample of each. -/
theorem counts_items_two :
    ([580, 5000, 580].foldl Board.ultrasound (.start 0)).getGoods - (Board.start 0).getGoods =
      items [580, 5000, 580] ∧ items [580, 5000, 580] = 2 :=
  ⟨(counts_items_iff (by decide) (by decide)).2 (by decide) _ (List.prefix_refl _), rfl⟩

/-- A reading without an echo counts for an item, and an item that is sampled twice for two. -/
theorem counts_not_items :
    (([0].foldl Board.ultrasound (.start 0)).getGoods - (Board.start 0).getGoods = 1 ∧
        items [0] = 0) ∧
      ([580, 580].foldl Board.ultrasound (.start 0)).getGoods - (Board.start 0).getGoods = 2 ∧
        items [580, 580] = 1 := by
  decide

/-! ## The records -/

namespace Station

variable {t : Station} {tr : List (Step Station Readings)} {timer : Int}

/-- The readings of the sensor in a run. -/
def measurements (tr : List (Step Station Readings)) : List Int :=
  (tr.filter fun x => ¬ x.event.timer < 100).map (·.event.duration)

theorem detected_eq (run : Run next (start timer) tr t) :
    t.detected = (measurements tr).countP detects := by
  induction run with
  | nil => rfl
  | @snoc tr v w e run step ih =>
    have hsnoc : measurements (tr ++ [⟨v, e, w⟩]) =
        measurements tr ++ if e.timer < 100 then [] else [e.duration] := by
      unfold measurements
      rw [List.filter_append, List.map_append, List.filter_singleton]
      by_cases hclock : e.timer < 100 <;> simp [hclock]
    rw [hsnoc, List.countP_append, ← ih]
    rcases next_cases step with ⟨hclock, -, -, hdet⟩ | ⟨hclock, hdet, -⟩
    · rw [hdet, if_pos hclock, List.countP_nil, add_zero]
    · simp [hdet, hclock, detects]

/-- In a run that loses no count, the records and the pending count add up to the number of items
that have passed the sensor exactly when no reading is 0 and no two successive readings are near. -/
theorem stored_items_iff (run : Run next (start timer) tr t)
    (hkeeps : ∀ x ∈ tr, x.before.LosesNothing x.event) (hpos : ∀ d ∈ measurements tr, 0 ≤ d) :
    Ledger.total (·.goods) t.rawData + t.board.getGoods = items (measurements tr) ↔
      (∀ d ∈ measurements tr, d ≠ 0) ∧
        (measurements tr).IsChain fun d e => ¬ (near d ∧ near e) := by
  have hconserved : t.Conserved :=
    run.guarded (I := Conserved) (fun _ _ _ h hC step => conserved_next h hC step)
      (conserved_start timer) hkeeps
  rw [← countP_detects_eq_items_iff hpos, ← detected_eq run, hconserved.balanced, Nat.cast_inj]

end Station

end Sensor

end DollMachine
