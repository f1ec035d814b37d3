import DollMachine.Ledger
import DollMachine.Transition

/-!
# The board at the machine

`loop` of the sketch, with the records that it stores under `rawData/2`.  An iteration reads the
clock once, and twice more when it uploads: for the field `timestamp` of the record and for its
key.  The counter is reset after an upload whether or not the upload succeeded.

`counts_conserved_iff`: no count is lost if and only if every upload with something to lose
succeeds, under a key where the run has not stored a count yet, and the counter does not overflow.
-/

namespace DollMachine

open Transition

namespace Sensor

/-- The value of an `int`, a `long` or a `time_t` of the board: 32 bits, two's complement. -/
def wrap32 (n : Int) : Int := n.bmod (2 ^ 32)

/-- The global variables of the sketch that outlive an iteration. -/
structure Board where
  timer : Int
  uploadTime : Int
  coin : Int
  getGoods : Int

/-- What an iteration reads: the clock at its start, the result of `pulseIn`, the clock for the
field `timestamp` and for the key, and the status of the HTTP request. -/
structure Readings where
  timer : Int
  duration : Int
  timestamp : Int
  key : Int
  httpCode : Int
deriving DecidableEq

/-- The object that is uploaded. -/
structure RawData where
  coin : Int
  goods : Int
  machineNum : Int
  timestamp : Int
deriving DecidableEq

/-- `cm = (duration/2) / 29.1`.  The quotient in `double` is below 15 for the same durations. -/
def cm (duration : Int) : Int := (duration.tdiv 2 * 10).tdiv 291

namespace Board

/-- The board after a reset at time `timer`. -/
def start (timer : Int) : Board := ⟨timer, wrap32 (timer + 10), 0, 0⟩

/-- `ultrasound()`. -/
def ultrasound (b : Board) (duration : Int) : Board :=
  if cm duration < 15 then { b with getGoods := wrap32 (1 + b.getGoods) } else b

/-- `loop()`: the board after an iteration, and the key and the object that it uploads, if any. -/
def loop (b : Board) (r : Readings) : Board × Option (Int × RawData) :=
  let b := { b with timer := r.timer }
  if b.timer < 100 then (b, none)
  else
    let b := b.ultrasound r.duration
    if b.timer > b.uploadTime then
      ({ b with uploadTime := wrap32 (b.timer + 10), coin := 0, getGoods := 0 },
        some (r.key, ⟨b.coin, b.getGoods, 2, r.timestamp⟩))
    else (b, none)

/-- The counter after a measurement. -/
def measured (b : Board) (duration : Int) : Int :=
  if cm duration < 15 then wrap32 (1 + b.getGoods) else b.getGoods

variable {b : Board} {r : Readings}

theorem ultrasound_eq (b : Board) (duration : Int) :
    b.ultrasound duration = { b with getGoods := b.measured duration } := by
  unfold ultrasound measured
  split_ifs <;> rfl

/-- An iteration before the clock is set. -/
theorem loop_unset (h : r.timer < 100) : b.loop r = ({ b with timer := r.timer }, none) := by
  simp [loop, h]

/-- An iteration that uploads nothing. -/
theorem loop_measure (h : ¬ r.timer < 100) (hdue : ¬ b.uploadTime < r.timer) :
    b.loop r = ({ b with timer := r.timer, getGoods := b.measured r.duration }, none) := by
  simp [loop, h, hdue, ultrasound_eq, measured]

/-- An iteration that uploads. -/
theorem loop_upload (h : ¬ r.timer < 100) (hdue : b.uploadTime < r.timer) :
    b.loop r = (⟨r.timer, wrap32 (r.timer + 10), 0, 0⟩,
      some (r.key, ⟨b.coin, b.measured r.duration, 2, r.timestamp⟩)) := by
  simp [loop, h, hdue, ultrasound_eq, measured]

end Board

/-- The board and the database; `detected` is the number of iterations in which `ultrasound()`
detected an object, which nothing stores. -/
structure Station where
  board : Board
  /-- What the run has stored under `rawData/2`. -/
  rawData : List (Int × RawData)
  detected : Nat

namespace Station

def start (timer : Int) : Station := ⟨.start timer, [], 0⟩

/-- `Firebase.set`: the object replaces what is at its path when the status is 200. -/
def set (w : Station) (httpCode key : Int) (object : RawData) : Station :=
  if httpCode = 200 then { w with rawData := Ledger.put key object w.rawData } else w

/-- An iteration. -/
def next (w : Station) (r : Readings) : Option Station :=
  let w' := { w with
    board := (w.board.loop r).1
    detected := if ¬ r.timer < 100 ∧ cm r.duration < 15 then w.detected + 1 else w.detected }
  match (w.board.loop r).2 with
  | none => some w'
  | some (key, object) => some (w'.set r.httpCode key object)

variable {v w s t : Station} {r : Readings} {tr : List (Step Station Readings)}

/-- The counts that the run has stored and the one that is pending add up to the detections. -/
def Balanced (w : Station) : Prop :=
  Ledger.total (·.goods) w.rawData + w.board.getGoods = w.detected

/-- The counter does not overflow, and an upload that has something to lose succeeds under a key
where the run has not stored a count. -/
def LosesNothing (w : Station) (r : Readings) : Prop :=
  r.timer < 100 ∨
    (cm r.duration < 15 → w.board.getGoods + 1 < 2 ^ 31) ∧
    (w.board.uploadTime < r.timer →
      if r.httpCode = 200 then Ledger.totalAt (·.goods) r.key w.rawData = 0
      else w.board.getGoods = 0 ∧ ¬ cm r.duration < 15)

instance (w : Station) (r : Readings) : Decidable (w.LosesNothing r) := by
  unfold LosesNothing
  infer_instance

/-- The counts add up, and none is negative. -/
structure Conserved (w : Station) : Prop where
  balanced : w.Balanced
  pending : 0 ≤ w.board.getGoods ∧ w.board.getGoods < 2 ^ 31
  stored : ∀ p ∈ w.rawData, 0 ≤ p.2.goods

theorem conserved_start (timer : Int) : (start timer).Conserved :=
  ⟨rfl, ⟨le_refl 0, by simp [start, Board.start]⟩, fun p hp => by cases hp⟩

theorem wrap32_succ {n : Int} (h₀ : 0 ≤ n) (h₁ : n < 2 ^ 31) :
    wrap32 (1 + n) = if n + 1 < 2 ^ 31 then n + 1 else -2 ^ 31 := by
  unfold wrap32
  split_ifs <;> simp only [Int.bmod_def] <;> omega

/-- What an iteration does to the counts: nothing before the clock is set; a measurement; or a
measurement and an upload. -/
theorem next_cases (step : w.next r = some v) :
    (r.timer < 100 ∧ v.rawData = w.rawData ∧ v.board.getGoods = w.board.getGoods ∧
      v.detected = w.detected) ∨
    ¬ r.timer < 100 ∧ v.detected = w.detected + (if cm r.duration < 15 then 1 else 0) ∧
      (¬ w.board.uploadTime < r.timer ∧ v.rawData = w.rawData ∧
          v.board.getGoods = w.board.measured r.duration ∨
        w.board.uploadTime < r.timer ∧ v.board.getGoods = 0 ∧
          v.rawData = if r.httpCode = 200 then
            Ledger.put r.key ⟨w.board.coin, w.board.measured r.duration, 2, r.timestamp⟩ w.rawData
          else w.rawData) := by
  by_cases hclock : r.timer < 100
  · simp only [next, Board.loop_unset hclock, hclock] at step
    cases step
    exact .inl ⟨hclock, rfl, rfl, rfl⟩
  · have hdetected : (if ¬ r.timer < 100 ∧ cm r.duration < 15 then w.detected + 1 else w.detected) =
        w.detected + (if cm r.duration < 15 then 1 else 0) := by
      split_ifs <;> tauto
    by_cases hdue : w.board.uploadTime < r.timer
    · simp only [next, Board.loop_upload hclock hdue, hdetected, Option.some.injEq] at step
      subst step
      refine .inr ⟨hclock, ?_, .inr ⟨hdue, ?_, ?_⟩⟩ <;> unfold set <;> split_ifs <;> rfl
    · simp only [next, Board.loop_measure hclock hdue, hdetected, Option.some.injEq] at step
      subst step
      exact .inr ⟨hclock, rfl, .inl ⟨hdue, rfl, rfl⟩⟩

/-- The measurement adds a detection to the counter, or makes it overflow. -/
theorem measured_cases (h : w.Conserved) (duration : Int) :
    (cm duration < 15 → w.board.getGoods + 1 < 2 ^ 31) ∧
      w.board.measured duration = w.board.getGoods + (if cm duration < 15 then 1 else 0) ∨
    cm duration < 15 ∧ w.board.getGoods + 1 = 2 ^ 31 ∧ w.board.measured duration = -2 ^ 31 := by
  obtain ⟨h₀, h₁⟩ := h.pending
  unfold Board.measured
  rw [wrap32_succ h₀ h₁]
  split_ifs <;> omega

theorem losesNothing_measure (hclock : ¬ r.timer < 100) (hdue : ¬ w.board.uploadTime < r.timer) :
    w.LosesNothing r ↔ (cm r.duration < 15 → w.board.getGoods + 1 < 2 ^ 31) := by
  simp only [LosesNothing, hclock, hdue, false_or, false_implies, and_true]

theorem losesNothing_upload (hclock : ¬ r.timer < 100) (hdue : w.board.uploadTime < r.timer) :
    w.LosesNothing r ↔ (cm r.duration < 15 → w.board.getGoods + 1 < 2 ^ 31) ∧
      if r.httpCode = 200 then Ledger.totalAt (·.goods) r.key w.rawData = 0
      else w.board.getGoods = 0 ∧ ¬ cm r.duration < 15 := by
  simp only [LosesNothing, hclock, hdue, false_or, true_implies]

/-- An iteration keeps the balance exactly when it loses nothing. -/
theorem balanced_iff (h : w.Conserved) (step : w.next r = some v) :
    v.Balanced ↔ w.LosesNothing r := by
  have hbal : _ = _ := h.balanced
  have hpending := h.pending
  have hmeasured := measured_cases h r.duration
  have hold : 0 ≤ Ledger.totalAt (·.goods) r.key w.rawData := Ledger.totalAt_nonneg h.stored
  rcases next_cases step with ⟨hclock, hraw, hgoods, hdet⟩ |
    ⟨hclock, hdet, ⟨hdue, hraw, hgoods⟩ | ⟨hdue, hgoods, hraw⟩⟩
  · refine iff_of_true ?_ (.inl hclock)
    rw [Balanced, hraw, hgoods, hdet]
    exact hbal
  · rw [losesNothing_measure hclock hdue, Balanced, hraw, hgoods, hdet]
    split_ifs at hmeasured ⊢ <;> omega
  · rw [losesNothing_upload hclock hdue, Balanced, hraw, hgoods, hdet]
    by_cases hcode : r.httpCode = 200
    · rw [if_pos hcode, if_pos hcode, Ledger.total_put]
      dsimp only
      split_ifs at hmeasured ⊢ <;> omega
    · rw [if_neg hcode, if_neg hcode]
      split_ifs at hmeasured ⊢ <;> omega

theorem conserved_next (h : w.Conserved) (hC : w.LosesNothing r) (step : w.next r = some v) :
    v.Conserved := by
  have hpending := h.pending
  have hmeasured : ¬ r.timer < 100 → 0 ≤ w.board.measured r.duration ∧
      w.board.measured r.duration < 2 ^ 31 := fun hclock => by
    have hfits := (hC.resolve_left hclock).1
    rcases measured_cases h r.duration with ⟨-, hm⟩ | ⟨hnear, hm, -⟩
    · rw [hm]
      split_ifs <;> omega
    · have := hfits hnear
      omega
  refine ⟨(balanced_iff h step).2 hC, ?_, ?_⟩
  · rcases next_cases step with ⟨-, -, hgoods, -⟩ | ⟨hclock, -, ⟨-, -, hgoods⟩ | ⟨-, hgoods, -⟩⟩
    · exact hgoods ▸ hpending
    · exact hgoods ▸ hmeasured hclock
    · rw [hgoods]
      decide
  · rcases next_cases step with ⟨-, hraw, -, -⟩ | ⟨hclock, -, ⟨-, hraw, -⟩ | ⟨-, -, hraw⟩⟩
    · exact hraw ▸ h.stored
    · exact hraw ▸ h.stored
    · rw [hraw]
      split_ifs
      · exact Ledger.forall_put h.stored (hmeasured hclock).1
      · exact h.stored

/-- After every iteration of a run the counts stored by the run and the pending one add up to the
detections, if and only if in every iteration the counter does not overflow, and an upload that has
something to lose succeeds under a key where the run has not stored a count. -/
theorem counts_conserved_iff {timer : Int} (run : Run next (start timer) tr t) :
    (∀ x ∈ tr, x.after.Balanced) ↔ ∀ x ∈ tr, x.before.LosesNothing x.event :=
  run.exact (I := Conserved) (fun _ _ _ h hC step => conserved_next h hC step)
    (fun _ _ _ h step => balanced_iff h step) (conserved_start timer)

/-- Two detections, an upload and another detection. -/
theorem counts_conserved_upload : ∃ tr t, Run next (start 0) tr t ∧ (∀ x ∈ tr, x.after.Balanced) ∧
    t.rawData = [(1001, ⟨0, 1, 2, 1000⟩)] ∧ t.board.getGoods = 1 ∧ t.detected = 2 := by
  obtain ⟨tr, t, run, hp⟩ := exists_run_of_exec next (start 0)
    [⟨3, 580, 3, 3, 200⟩, ⟨1000, 580, 1000, 1001, 200⟩, ⟨1002, 580, 1002, 1002, 200⟩]
    (fun r => decide ((∀ x ∈ r.1, x.before.LosesNothing x.event) ∧
      r.2.rawData = [(1001, ⟨0, 1, 2, 1000⟩)] ∧ r.2.board.getGoods = 1 ∧ r.2.detected = 2))
    (by decide)
  obtain ⟨hC, hcounts⟩ := of_decide_eq_true hp
  exact ⟨tr, t, run, (counts_conserved_iff run).2 hC, hcounts⟩

/-- An upload that is refused loses the count; and so does one whose key was read in the same second
as the key of the upload before it. -/
theorem counts_not_conserved :
    (∃ tr t, Run next (start 0) tr t ∧ t.rawData = [] ∧ t.board.getGoods = 0 ∧ t.detected = 1) ∧
    ∃ tr t, Run next (start 0) tr t ∧ t.rawData = [(1011, ⟨0, 1, 2, 1011⟩)] ∧
      t.board.getGoods = 0 ∧ t.detected = 2 := by
  constructor
  · obtain ⟨tr, t, run, hp⟩ := exists_run_of_exec next (start 0)
      [⟨1000, 580, 1000, 1000, -1⟩]
      (fun r => decide (r.2.rawData = [] ∧ r.2.board.getGoods = 0 ∧ r.2.detected = 1)) (by decide)
    exact ⟨tr, t, run, of_decide_eq_true hp⟩
  · obtain ⟨tr, t, run, hp⟩ := exists_run_of_exec next (start 0)
      [⟨1000, 580, 1000, 1011, 200⟩, ⟨1011, 580, 1011, 1011, 200⟩]
      (fun r => decide (r.2.rawData = [(1011, ⟨0, 1, 2, 1011⟩)] ∧ r.2.board.getGoods = 0 ∧
        r.2.detected = 2)) (by decide)
    exact ⟨tr, t, run, of_decide_eq_true hp⟩

end Station

end Sensor

end DollMachine
