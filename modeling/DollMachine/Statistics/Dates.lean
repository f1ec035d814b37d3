import DollMachine.Calendar
import DollMachine.Statistics.Filter

/-!
# Date queries and row dates

A row shows the date of its record in the time zone of the phone.  A date query parses the chosen
date to the first instant of that day and selects the 86400 seconds from there on.  The two agree
about a record unless a change of the clocks is near: the last hour of a day of 25 hours belongs to
no query, and the first hour after a day of 23 hours to two (`date_query_iff`).
-/

namespace DollMachine

/-- The local time of a phone; its days last 23, 24 or 25 hours. -/
structure Zone extends Calendar where
  length : ∀ D, midnight (D + 1) - midnight D = 82800 ∨ midnight (D + 1) - midnight D = 86400 ∨
    midnight (D + 1) - midnight D = 90000

variable (z : Zone) {t : Int} {l : List Record} {r : Record}

/-- The two days before a day last more than 86400 seconds together. -/
theorem Zone.midnight_add_le {D E : Int} (h : D + 2 ≤ E) :
    z.midnight D + 86400 ≤ z.midnight E := by
  have h₁ := z.length D
  have h₂ := z.length (D + 1)
  have hmono : z.midnight (D + 1 + 1) ≤ z.midnight E := z.midnight_le_iff.2 (by omega)
  omega

/-- A window of 86400 seconds from the start of each day selects an instant exactly on its date, if
and only if the instant is in the window of its own date and not in that of the day before. -/
theorem Zone.window_iff :
    (∀ D, z.midnight D ≤ t ∧ t < z.midnight D + 86400 ↔ z.date t = D) ↔
      t < z.midnight (z.date t) + 86400 ∧ z.midnight (z.date t - 1) + 86400 ≤ t := by
  constructor
  · intro h
    refine ⟨((h (z.date t)).2 rfl).2, Int.not_lt.1 fun hin => ?_⟩
    have hbefore : z.midnight (z.date t - 1) ≤ t := z.le_date_iff.1 (by omega)
    have hdate := (h (z.date t - 1)).1 ⟨hbefore, hin⟩
    omega
  · rintro ⟨hown, hbefore⟩ D
    constructor
    · rintro ⟨hbegun, hin⟩
      rcases (z.le_date_iff.2 hbegun).eq_or_lt with heq | hlt
      · exact heq.symm
      · -- the window of an earlier day ends before the instant
        by_cases hprev : D = z.date t - 1
        · rw [← hprev] at hbefore
          omega
        · have hearlier := z.midnight_add_le (show D + 2 ≤ z.date t by omega)
          have hbegun' := z.begun t
          omega
    · rintro rfl
      exact ⟨z.begun t, hown⟩

theorem mem_dayRecords {c : Int} :
    r ∈ dayRecords c l ↔ r ∈ l ∧ c ≤ r.timestamp ∧ r.timestamp < c + 86400 := by
  simp only [dayRecords, List.mem_filter, decide_eq_true_eq]
  refine and_congr_right fun _ => and_congr_left fun _ => ?_
  omega

/-- For every list of records: the query of a date selects exactly the records whose row shows that
date, and each record is in the query of exactly one date, if and only if each record is less than
86400 seconds after the start of its day, and at least 86400 seconds after the start of the day
before. -/
theorem date_query_iff (l : List Record) :
    ((∀ D, ∀ r ∈ l, r ∈ dayRecords (z.midnight D) l ↔ z.date r.timestamp = D) ∧
      ∀ r ∈ l, ∃! D, r ∈ dayRecords (z.midnight D) l) ↔
    ∀ r ∈ l, r.timestamp < z.midnight (z.date r.timestamp) + 86400 ∧
      z.midnight (z.date r.timestamp - 1) + 86400 ≤ r.timestamp := by
  have hwindow : (∀ D, ∀ r ∈ l, r ∈ dayRecords (z.midnight D) l ↔ z.date r.timestamp = D) ↔
      ∀ r ∈ l, r.timestamp < z.midnight (z.date r.timestamp) + 86400 ∧
        z.midnight (z.date r.timestamp - 1) + 86400 ≤ r.timestamp := by
    rw [forall_comm]
    refine forall_congr' fun r => ?_
    rw [forall_comm]
    refine forall_congr' fun hr => ?_
    rw [← z.window_iff]
    refine forall_congr' fun D => ?_
    rw [mem_dayRecords, and_iff_right hr]
  rw [← hwindow]
  refine ⟨And.left, fun h => ⟨h, fun r hr => ?_⟩⟩
  exact ⟨z.date r.timestamp, (h _ r hr).2 rfl, fun D hD => ((h D r hr).1 hD).symm⟩

/-- The days of a zone without clock changes last 24 hours, and the queries agree with the rows. -/
theorem date_query_of_equal_days (h : ∀ D, z.midnight (D + 1) - z.midnight D = 86400) (t : Int) :
    t < z.midnight (z.date t) + 86400 ∧ z.midnight (z.date t - 1) + 86400 ≤ t := by
  have h₁ := h (z.date t)
  have h₂ := h (z.date t - 1)
  have hbegun := z.begun t
  have hover := z.not_over t
  rw [Int.sub_add_cancel] at h₂
  omega

/-- A zone in which the clocks are put forward by the given seconds on the day 10, and not again. -/
def zoneWithChange (shift : Int) (hs : shift = 3600 ∨ shift = -3600) : Zone where
  midnight D := if D ≤ 10 then 86400 * D else 86400 * D - shift
  date t := if t < 950400 - shift then min (t / 86400) 10 else (t + shift) / 86400
  later D := by split_ifs <;> omega
  begun t := by split_ifs <;> omega
  not_over t := by split_ifs <;> omega
  length D := by split_ifs <;> omega

/-- After a day of 23 hours, a record of the first hour is in the queries of two dates; and a record
of the last hour of a day of 25 hours is in that of none. -/
theorem date_query_fails :
    (∃ (z : Zone) (r : Record), 0 ≤ r.timestamp ∧ z.date r.timestamp = 11 ∧
      r ∈ dayRecords (z.midnight 10) [r] ∧ r ∈ dayRecords (z.midnight 11) [r]) ∧
    ∃ (z : Zone) (r : Record), 0 ≤ r.timestamp ∧ z.date r.timestamp = 10 ∧
      ∀ D, r ∉ dayRecords (z.midnight D) [r] := by
  constructor
  · exact ⟨zoneWithChange 3600 (.inl rfl), ⟨⟨1, 1, 946800⟩, 1⟩, by decide, by decide, by decide,
      by decide⟩
  · refine ⟨zoneWithChange (-3600) (.inr rfl), ⟨⟨1, 1, 950400⟩, 1⟩, by decide, by decide,
      fun D h => ?_⟩
    obtain ⟨-, hbegun, hin⟩ := mem_dayRecords.1 h
    simp only [zoneWithChange] at hbegun hin
    split_ifs at hbegun hin <;> omega

end DollMachine
