import Mathlib.Order.Monotone.Basic
import Mathlib.Algebra.Order.Group.Int

/-!
# Calendars

A calendar cuts the time line into days: the day `D` lasts from `midnight D` to `midnight (D + 1)`,
and `date t` is the day of the instant `t`.  Days may have any positive length.
-/

structure Calendar where
  /-- The first instant of a day. -/
  midnight : Int → Int
  date : Int → Int
  later : ∀ D, midnight D < midnight (D + 1)
  begun : ∀ t, midnight (date t) ≤ t
  not_over : ∀ t, t < midnight (date t + 1)

namespace Calendar

variable (c : Calendar) {D t : Int}

theorem midnight_lt_iff {D D' : Int} : c.midnight D < c.midnight D' ↔ D < D' :=
  (strictMono_int_of_lt_succ c.later).lt_iff_lt

theorem midnight_le_iff {D D' : Int} : c.midnight D ≤ c.midnight D' ↔ D ≤ D' :=
  (strictMono_int_of_lt_succ c.later).le_iff_le

/-- A day is not after the date of an instant exactly when it has begun by then. -/
theorem le_date_iff : D ≤ c.date t ↔ c.midnight D ≤ t := by
  constructor
  · exact fun h => (c.midnight_le_iff.2 h).trans (c.begun t)
  · intro h
    have hlt : D < c.date t + 1 := c.midnight_lt_iff.1 (h.trans_lt (c.not_over t))
    omega

end Calendar
