import Mathlib.Data.Option.Basic

/-!
# Clocks that are synchronised late

A clock that counts the seconds since it was started, until it is synchronised; from then on it
shows the seconds of real time.  Moments are in microseconds since the start.
-/

structure Clock where
  /-- The moment of the synchronisation, if it ever comes. -/
  sync : Option Int
  /-- The real time of the start. -/
  epoch : Int
  later : 1000000 ≤ epoch

namespace Clock

variable (c : Clock) {t u n : Int}

def synchronised (t : Int) : Bool := c.sync.any fun s => s ≤ t

/-- The second of real time of a moment. -/
def second (t : Int) : Int := (c.epoch + t) / 1000000

/-- What the clock shows. -/
def read (t : Int) : Int := if c.synchronised t then c.second t else t / 1000000

/-- The clock shows `n` at some moment after the synchronisation. -/
def Shows (n : Int) : Prop := ∃ t, c.synchronised t = true ∧ c.second t = n

theorem synchronised_iff : c.synchronised t = true ↔ ∃ s ∈ c.sync, s ≤ t := by
  simp [synchronised, Option.any_eq_true]

theorem synchronised_mono (h : t ≤ u) (ht : c.synchronised t = true) :
    c.synchronised u = true := by
  obtain ⟨s, hs, hst⟩ := c.synchronised_iff.1 ht
  exact c.synchronised_iff.2 ⟨s, hs, Int.le_trans hst h⟩

theorem lt_of_not_synchronised (ht : ¬ c.synchronised t = true) (hu : c.synchronised u = true) :
    t < u := Int.not_le.1 fun h => ht (c.synchronised_mono h hu)

theorem read_of_synchronised (ht : c.synchronised t = true) : c.read t = c.second t := if_pos ht

theorem read_of_not_synchronised (ht : ¬ c.synchronised t = true) : c.read t = t / 1000000 :=
  if_neg ht

/-- The count since the start is behind the real time, so it is never taken for it. -/
theorem shows_read_iff : c.Shows (c.read t) ↔ c.synchronised t = true := by
  constructor
  · rintro ⟨u, hu, heq⟩
    by_contra ht
    have hlt := c.lt_of_not_synchronised ht hu
    have hlater := c.later
    rw [c.read_of_not_synchronised ht, second] at heq
    omega
  · exact fun ht => ⟨t, ht, (c.read_of_synchronised ht).symm⟩

/-- Two readings agree on a time that the synchronised clock shows exactly when the clock was
synchronised by the first and they fall into one second. -/
theorem read_eq_iff (h : t ≤ u) :
    c.read t = c.read u ∧ c.Shows (c.read u) ↔
      c.synchronised t = true ∧ c.second t = c.second u := by
  constructor
  · rintro ⟨heq, hshows⟩
    have hu := c.shows_read_iff.1 hshows
    have ht := c.shows_read_iff.1 (heq ▸ hshows)
    rw [c.read_of_synchronised ht, c.read_of_synchronised hu] at heq
    exact ⟨ht, heq⟩
  · rintro ⟨ht, heq⟩
    have hu := c.synchronised_mono h ht
    refine ⟨?_, c.shows_read_iff.2 hu⟩
    rw [c.read_of_synchronised ht, c.read_of_synchronised hu, heq]

/-- A threshold tells the synchronised clock from the other exactly when the synchronisation comes
before the count since the start reaches it. -/
theorem threshold_iff :
    (∀ t, n ≤ c.read t → c.synchronised t = true) ↔ c.synchronised (n * 1000000) = true := by
  constructor
  · intro h
    by_contra hn
    refine hn (h _ ?_)
    rw [c.read_of_not_synchronised hn]
    omega
  · intro hn t ht
    by_contra hsync
    have hlt := c.lt_of_not_synchronised hsync hn
    rw [c.read_of_not_synchronised hsync] at ht
    omega

end Clock
