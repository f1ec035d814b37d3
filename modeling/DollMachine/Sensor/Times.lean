import DollMachine.Clock
import DollMachine.Sensor.Keys

/-!
# The times of the records

`setup` starts the synchronisation of the clock and does not wait for it; `loop` takes a reading of
at least 100 for a synchronised one.  The field `timestamp` of a record and its key are two readings
of the clock.

`one_time_iff`: the two are the same time of a synchronised clock if and only if the clock is
synchronised when the first is read and no second begins before the other.  The threshold ensures
the former exactly when the synchronisation comes within 100 seconds of the start
(`Clock.threshold_iff`, `one_time_of_early`).
-/

namespace DollMachine

namespace Sensor

open Transition

/-- An iteration of `loop`: the moments at which it reads the clock, at its start, for the field
`timestamp` and for the key; the result of `pulseIn` and the status of the HTTP request. -/
structure Iteration where
  timer : Int
  timestamp : Int
  key : Int
  duration : Int
  httpCode : Int
  timer_le : timer ≤ timestamp
  timestamp_le : timestamp ≤ key

/-- What the iteration reads. -/
def Iteration.readings (c : Clock) (i : Iteration) : Readings :=
  ⟨c.read i.timer, i.duration, c.read i.timestamp, c.read i.key, i.httpCode⟩

namespace Station

variable {c : Clock} {v w t : Station} {i : Iteration} {tr : List (Step Station Iteration)}

/-- An iteration with the clock `c`. -/
def nextAt (c : Clock) (w : Station) (i : Iteration) : Option Station := w.next (i.readings c)

/-- A record has its key as its field `timestamp`, and that is a time of the synchronised clock. -/
def OneTime (c : Clock) (p : Int × RawData) : Prop := p.2.timestamp = p.1 ∧ c.Shows p.1

/-- If the iteration uploads, the clock is synchronised when the field is read, and the key is read
in the same second of real time. -/
def InOneSecond (c : Clock) (w : Station) (i : Iteration) : Prop :=
  w.Uploads (i.readings c) →
    c.synchronised i.timestamp = true ∧ c.second i.timestamp = c.second i.key

instance (c : Clock) (w : Station) (i : Iteration) : Decidable (InOneSecond c w i) := by
  unfold InOneSecond
  infer_instance

theorem oneTime_iff (c : Clock) (i : Iteration) (coin goods machineNum : Int) :
    OneTime c (c.read i.key, ⟨coin, goods, machineNum, c.read i.timestamp⟩) ↔
      c.synchronised i.timestamp = true ∧ c.second i.timestamp = c.second i.key :=
  c.read_eq_iff i.timestamp_le

/-- The record that an iteration uploads. -/
theorem uploaded_iff (c : Clock) (w : Station) (i : Iteration) :
    (∀ p ∈ (w.board.loop (i.readings c)).2, OneTime c p) ↔ InOneSecond c w i := by
  rw [loop_snd, InOneSecond]
  split_ifs with hup
  · simp only [Option.mem_some_iff, forall_eq', hup, true_implies]
    exact oneTime_iff c i _ _ _
  · simp [hup]

/-- The records after an iteration, when those before it have one time each. -/
theorem stored_iff (h : ∀ p ∈ w.rawData, OneTime c p) (step : w.nextAt c i = some v) :
    (∀ p ∈ v.rawData, OneTime c p) ↔ (i.httpCode = 200 → InOneSecond c w i) := by
  rw [rawData_next step]
  split_ifs with hstored
  · obtain ⟨hup, hcode⟩ := hstored
    have hone : (i.httpCode = 200 → InOneSecond c w i) ↔
        c.synchronised i.timestamp = true ∧ c.second i.timestamp = c.second i.key :=
      ⟨fun hC => hC hcode hup, fun hsecond _ _ => hsecond⟩
    rw [hone, ← oneTime_iff c i w.board.coin (w.board.measured i.duration) 2]
    exact ⟨fun hall => hall _ List.mem_cons_self, Ledger.forall_put h⟩
  · exact iff_of_true h fun hcode hup => absurd ⟨hup, hcode⟩ hstored

/-- For every clock and every run: each record that is uploaded has its key as its field
`timestamp`, and that is a time of the synchronised clock, if and only if, in each iteration that
uploads, the clock is synchronised when the field is read and the key is read in the same second;
and the records that are stored do at every time if and only if the same holds of the iterations
whose upload succeeds. -/
theorem one_time_iff {boot : Int} (run : Run (nextAt c) (start (c.read boot)) tr t) :
    ((∀ x ∈ tr, ∀ p ∈ (x.before.board.loop (x.event.readings c)).2, OneTime c p) ↔
      ∀ x ∈ tr, InOneSecond c x.before x.event) ∧
    ((∀ x ∈ tr, ∀ p ∈ x.after.rawData, OneTime c p) ↔
      ∀ x ∈ tr, x.event.httpCode = 200 → InOneSecond c x.before x.event) :=
  ⟨forall₂_congr fun x _ => uploaded_iff c x.before x.event,
    run.exact (I := fun w => ∀ p ∈ w.rawData, OneTime c p)
      (fun _ _ _ h hC step => (stored_iff h step).2 hC) (fun _ _ _ h step => stored_iff h step)
      fun p hp => by cases hp⟩

/-- A clock that is synchronised five seconds after the start, and an upload at 20 seconds. -/
theorem one_time_synchronised : ∃ tr t,
    Run (nextAt ⟨some 5000000, 1500000000000000, by decide⟩) (start 0) tr t ∧
      (∀ x ∈ tr, ∀ p ∈ x.after.rawData,
        OneTime ⟨some 5000000, 1500000000000000, by decide⟩ p) ∧
      t.rawData = [(1500000020, ⟨0, 1, 2, 1500000020⟩)] := by
  obtain ⟨tr, t, run, hp⟩ := exists_run_of_exec
    (nextAt ⟨some 5000000, 1500000000000000, by decide⟩) (start 0)
    [⟨20000000, 20100000, 20200000, 580, 200, by decide, by decide⟩]
    (fun r => decide ((∀ x ∈ r.1, InOneSecond ⟨some 5000000, 1500000000000000, by decide⟩
      x.before x.event) ∧ r.2.rawData = [(1500000020, ⟨0, 1, 2, 1500000020⟩)])) (by decide)
  obtain ⟨hsecond, hraw⟩ := of_decide_eq_true hp
  have hboot : Clock.read ⟨some 5000000, 1500000000000000, by decide⟩ 0 = 0 := rfl
  exact ⟨tr, t, run, (one_time_iff (hboot ▸ run)).2.2 fun x hx _ => hsecond x hx, hraw⟩

/-- An upload in whose course a second begins, and one of a board whose clock is synchronised five
minutes after the start. -/
theorem one_time_fails :
    (∃ tr t, Run (nextAt ⟨some 5000000, 1500000000000000, by decide⟩) (start 0) tr t ∧
      t.rawData = [(1500000021, ⟨0, 1, 2, 1500000020⟩)] ∧
      ¬ ∀ p ∈ t.rawData, OneTime ⟨some 5000000, 1500000000000000, by decide⟩ p) ∧
    (∃ tr t, Run (nextAt ⟨some 300000000, 1500000000000000, by decide⟩) (start 0) tr t ∧
      t.rawData = [(200, ⟨0, 1, 2, 200⟩)] ∧
      ¬ ∀ p ∈ t.rawData, OneTime ⟨some 300000000, 1500000000000000, by decide⟩ p) := by
  constructor
  · obtain ⟨tr, t, run, hp⟩ := exists_run_of_exec
      (nextAt ⟨some 5000000, 1500000000000000, by decide⟩) (start 0)
      [⟨20000000, 20900000, 21000000, 580, 200, by decide, by decide⟩]
      (fun r => decide (r.2.rawData = [(1500000021, ⟨0, 1, 2, 1500000020⟩)])) (by decide)
    have hraw := of_decide_eq_true hp
    refine ⟨tr, t, run, hraw, fun hall => ?_⟩
    rw [hraw] at hall
    exact absurd (hall _ List.mem_cons_self).1 (by decide)
  · obtain ⟨tr, t, run, hp⟩ := exists_run_of_exec
      (nextAt ⟨some 300000000, 1500000000000000, by decide⟩) (start 0)
      [⟨200000000, 200100000, 200200000, 580, 200, by decide, by decide⟩]
      (fun r => decide (r.2.rawData = [(200, ⟨0, 1, 2, 200⟩)])) (by decide)
    have hraw := of_decide_eq_true hp
    refine ⟨tr, t, run, hraw, fun hall => ?_⟩
    rw [hraw] at hall
    have hshows : Clock.Shows ⟨some 300000000, 1500000000000000, by decide⟩
        (Clock.read ⟨some 300000000, 1500000000000000, by decide⟩ 200200000) :=
      (hall _ List.mem_cons_self).2
    exact absurd (Clock.shows_read_iff _ |>.1 hshows) (by decide)

/-- With a clock that is synchronised within 100 seconds of the start, the records that are stored
have one time each as long as no upload reads the field and the key in different seconds. -/
theorem one_time_of_early {boot : Int} (hearly : c.synchronised 100000000 = true)
    (run : Run (nextAt c) (start (c.read boot)) tr t)
    (hsame : ∀ x ∈ tr, c.second x.event.timestamp = c.second x.event.key) :
    ∀ p ∈ t.rawData, OneTime c p := by
  refine run.guarded (C := fun _ i => c.second i.timestamp = c.second i.key)
    (fun w i v h hsecond step => (stored_iff h step).2 fun _ hup => ⟨?_, hsecond⟩)
    (fun p hp => by cases hp) hsame
  have htimer := c.threshold_iff.2 hearly i.timer (not_lt.1 hup.1)
  exact c.synchronised_mono i.timer_le htimer

end Station

end Sensor

end DollMachine
