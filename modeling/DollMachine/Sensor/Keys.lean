import DollMachine.Consecutive
import DollMachine.Sensor.Loop
import Mathlib.Data.List.Nodup

/-!
# The keys of the uploads

An upload is due when the clock at the start of the iteration has passed `uploadTime`; its key is a
later reading of the clock, and the next `uploadTime` is computed from the earlier one.  When an
upload takes the clock past its own `uploadTime` the next one can come in the second of its key.

`keys_increase_iff`: the keys strictly increase if and only if no upload starts and reads its key in
the second of the key before it, when that second was past `uploadTime`; and every record is stored
under a new key if and only if the same holds of the uploads that succeed.
-/

namespace DollMachine

namespace Sensor

namespace Station

open Transition

variable {v w s t : Station} {r : Readings} {tr : List (Step Station Readings)} {k : Int}

/-- The iteration uploads. -/
def Uploads (w : Station) (r : Readings) : Prop := ¬ r.timer < 100 ∧ w.board.uploadTime < r.timer

instance (w : Station) (r : Readings) : Decidable (w.Uploads r) := by
  unfold Uploads
  infer_instance

/-- The steps of a run that upload. -/
def uploads (tr : List (Step Station Readings)) : List (Step Station Readings) :=
  tr.filter fun x => x.before.Uploads x.event

/-- The steps of a run whose upload succeeds. -/
def written (tr : List (Step Station Readings)) : List (Step Station Readings) :=
  (uploads tr).filter fun x => x.event.httpCode = 200

/-- The readings of the clock in an iteration, in their order. -/
def clock (x : Step Station Readings) : List Int :=
  if x.before.Uploads x.event then [x.event.timer, x.event.timestamp, x.event.key]
  else [x.event.timer]

/-- The upload `y` does not start and read its key in the second of the key of `x`, if the clock had
passed `uploadTime` by then. -/
def Apart (x y : Step Station Readings) : Prop :=
  y.before.board.uploadTime < x.event.key →
    x.event.key < y.event.timer ∨ y.event.timer < y.event.key

instance (x y : Step Station Readings) : Decidable (Apart x y) := by
  unfold Apart
  infer_instance

theorem loop_snd (w : Station) (r : Readings) :
    (w.board.loop r).2 = if w.Uploads r then
      some (r.key, ⟨w.board.coin, w.board.measured r.duration, 2, r.timestamp⟩)
    else none := by
  by_cases hclock : r.timer < 100
  · simp [Board.loop_unset hclock, Uploads, hclock]
  · by_cases hdue : w.board.uploadTime < r.timer
    · simp [Board.loop_upload hclock hdue, Uploads, hclock, hdue]
    · simp [Board.loop_measure hclock hdue, Uploads, hclock, hdue]

/-! ## The readings of a run whose clock never goes back -/

section Clock

variable (mono : (tr.flatMap clock).Pairwise (· ≤ ·))
include mono

theorem timer_le_key : ∀ x ∈ uploads tr, x.event.timer ≤ x.event.key := by
  intro x hx
  obtain ⟨hmem, hup⟩ := List.mem_filter.1 hx
  have hclock := (List.pairwise_flatMap.1 mono).1 x hmem
  rw [clock, if_pos (of_decide_eq_true hup)] at hclock
  simp only [List.pairwise_cons, List.mem_cons] at hclock
  exact hclock.1 _ (by simp)

theorem key_le_timer : (uploads tr).Pairwise fun x y => x.event.key ≤ y.event.timer := by
  have hpairs := ((List.pairwise_flatMap.1 mono).2).filter fun x => x.before.Uploads x.event
  refine hpairs.imp_of_mem fun hx hy h => h _ ?_ _ ?_
  · rw [clock, if_pos (of_decide_eq_true (List.mem_filter.1 hx).2)]
    simp
  · rw [clock, if_pos (of_decide_eq_true (List.mem_filter.1 hy).2)]
    simp

/-- For some of the uploads of the run, in their order. -/
theorem strict_iff_apart {l : List (Step Station Readings)} (hl : l.Sublist (uploads tr)) :
    (l.map (·.event.key)).Pairwise (· < ·) ↔ l.IsChain Apart := by
  rw [Consecutive.strict_iff (fun x => x.event.timer)
    (fun x hx => timer_le_key mono x (hl.subset hx)) ((key_le_timer mono).sublist hl)]
  refine List.IsChain.iff_of_mem_imp fun x y hx hy => ⟨fun h _ => h, fun h => ?_⟩
  -- an upload whose key is not past `uploadTime` comes before the upload that is due
  by_cases hlate : y.before.board.uploadTime < x.event.key
  · exact h hlate
  · have hdue : y.before.Uploads y.event :=
      of_decide_eq_true (List.mem_filter.1 (hl.subset hy)).2
    exact .inl ((not_lt.1 hlate).trans_lt hdue.2)

end Clock

/-! ## What the run has stored -/

/-- An iteration stores the object of an upload that succeeds, and nothing else. -/
theorem rawData_next (step : w.next r = some v) :
    v.rawData = if w.Uploads r ∧ r.httpCode = 200 then
      Ledger.put r.key ⟨w.board.coin, w.board.measured r.duration, 2, r.timestamp⟩ w.rawData
    else w.rawData := by
  rcases next_cases step with ⟨hclock, hraw, -, -⟩ |
    ⟨hclock, -, ⟨hdue, hraw, -⟩ | ⟨hdue, -, hraw⟩⟩
  · simp [hraw, Uploads, hclock]
  · simp [hraw, Uploads, hdue]
  · simp [hraw, Uploads, hclock, hdue]

theorem mem_keys_next (step : w.next r = some v) :
    k ∈ v.rawData.map Prod.fst ↔
      k ∈ w.rawData.map Prod.fst ∨ (w.Uploads r ∧ r.httpCode = 200) ∧ r.key = k := by
  rw [rawData_next step]
  split_ifs with hstored
  · rw [Ledger.mem_keys_put, and_iff_right hstored, or_comm, eq_comm]
  · simp only [hstored, false_and, or_false]

theorem written_snoc (tr : List (Step Station Readings)) (x : Step Station Readings) :
    written (tr ++ [x]) = written tr ++
      if x.before.Uploads x.event ∧ x.event.httpCode = 200 then [x] else [] := by
  simp only [written, uploads, List.filter_append, List.filter_filter, List.filter_singleton]
  by_cases hup : x.before.Uploads x.event <;> by_cases hcode : x.event.httpCode = 200 <;>
    simp [hup, hcode]

/-- The keys of the records are those of the uploads that succeeded. -/
theorem mem_keys_iff {timer : Int} (run : Run next (start timer) tr t) :
    k ∈ t.rawData.map Prod.fst ↔ k ∈ (written tr).map (·.event.key) := by
  induction run with
  | nil => simp [start, written, uploads]
  | @snoc tr v w e run step ih =>
    rw [mem_keys_next step, written_snoc, ih, List.map_append, List.mem_append]
    refine or_congr_right ?_
    split_ifs with h
    · rw [and_iff_right h, List.map_singleton, List.mem_singleton, eq_comm]
    · simp only [h, false_and, List.map_nil, List.not_mem_nil]

/-- No record replaces another exactly when no two uploads that succeed have the same key. -/
theorem fresh_iff_nodup {timer : Int} (run : Run next (start timer) tr t) :
    (∀ x ∈ written tr, x.event.key ∉ x.before.rawData.map Prod.fst) ↔
      ((written tr).map (·.event.key)).Nodup := by
  induction run with
  | nil => simp [written, uploads]
  | @snoc tr v w e run step ih =>
    rw [written_snoc, List.forall_mem_append, ih, List.map_append]
    split_ifs with h
    · rw [List.forall_mem_singleton, List.map_singleton, ← List.concat_eq_append,
        List.nodup_concat, mem_keys_iff run, and_comm]
    · simp

/-- With a clock that never goes back, the keys of the uploads of a run strictly increase if and
only if successive uploads are apart; and every record is stored under a new key if and only if
successive uploads that succeed are apart. -/
theorem keys_increase_iff {timer : Int} (run : Run next (start timer) tr t)
    (mono : (tr.flatMap clock).Pairwise (· ≤ ·)) :
    (((uploads tr).map (·.event.key)).Pairwise (· < ·) ↔ (uploads tr).IsChain Apart) ∧
      ((∀ x ∈ written tr, x.event.key ∉ x.before.rawData.map Prod.fst) ↔
        (written tr).IsChain Apart) := by
  have hwritten : (written tr).Sublist (uploads tr) := List.filter_sublist
  refine ⟨strict_iff_apart mono (List.Sublist.refl _), ?_⟩
  rw [fresh_iff_nodup run, ← strict_iff_apart mono hwritten]
  exact (Consecutive.strict_iff_nodup (fun x => x.event.timer)
    (fun x hx => timer_le_key mono x (hwritten.subset hx))
    ((key_le_timer mono).sublist hwritten)).symm

/-- Two uploads, the second after the clock was set by NTP. -/
theorem keys_increase_ntp : ∃ tr t, Run next (start 0) tr t ∧
    ((uploads tr).map (·.event.key)).Pairwise (· < ·) ∧ t.rawData.map Prod.fst = [5000, 111] := by
  obtain ⟨tr, t, run, hp⟩ := exists_run_of_exec next (start 0)
    [⟨110, 580, 110, 111, 200⟩, ⟨5000, 580, 5000, 5000, 200⟩]
    (fun r => decide ((r.1.flatMap clock).Pairwise (· ≤ ·) ∧ (uploads r.1).IsChain Apart ∧
      r.2.rawData.map Prod.fst = [5000, 111])) (by decide)
  obtain ⟨mono, hapart, hkeys⟩ := of_decide_eq_true hp
  exact ⟨tr, t, run, (keys_increase_iff run mono).1.2 hapart, hkeys⟩

/-- An upload during which the clock goes from 1000 to 1011, and the next one in that second: the
second record replaces the first. -/
theorem keys_not_increase : ∃ tr t, Run next (start 0) tr t ∧
    (tr.flatMap clock).Pairwise (· ≤ ·) ∧
    ¬ ((uploads tr).map (·.event.key)).Pairwise (· < ·) ∧
    (∀ x ∈ tr, x.event.httpCode = 200) ∧ (uploads tr).length = 2 ∧
    t.rawData = [(1011, ⟨0, 0, 2, 1011⟩)] := by
  obtain ⟨tr, t, run, hp⟩ := exists_run_of_exec next (start 0)
    [⟨1000, 580, 1000, 1011, 200⟩, ⟨1011, 1000, 1011, 1011, 200⟩]
    (fun r => decide ((r.1.flatMap clock).Pairwise (· ≤ ·) ∧
      ¬ ((uploads r.1).map fun x : Step Station Readings => x.event.key).Pairwise (· < ·) ∧
      (∀ x ∈ r.1, x.event.httpCode = 200) ∧ (uploads r.1).length = 2 ∧
      r.2.rawData = [(1011, ⟨0, 0, 2, 1011⟩)])) (by decide)
  exact ⟨tr, t, run, of_decide_eq_true hp⟩

end Station

end Sensor

end DollMachine
