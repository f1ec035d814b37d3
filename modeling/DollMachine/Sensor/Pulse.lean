import DollMachine.Sensor.Items

/-!
# The length of an echo

`pulseIn` reads the pin and the cycle counter in turn: it waits until the pin is idle, until the
pulse begins and until it ends, and gives up when more cycles than the timeout have passed since its
start.  The counter has 32 bits.

`pulseIn_total`: whatever the pin does, `pulseIn` returns if the timeout and five gaps between two
readings fit in the counter.  `detects_echo`: `ultrasound()` detects an object from an echo up to
three gaps shorter than 874 microseconds, and from none that is three gaps longer; it also does when
there is no end of the echo in time.
-/

namespace DollMachine

namespace Sensor

/-- The processor at the pin: the cycle in which its n-th access to the pin or the counter happens,
and the level of the pin in each cycle. -/
structure Processor where
  time : Nat → Nat
  level : Nat → Bool
  increasing : ∀ n, time n < time (n + 1)

namespace Processor

/-- `xthal_get_ccount`, as the access `n`. -/
def ccount (p : Processor) (n : Nat) : UInt32 := UInt32.ofNat (p.time n)

/-- `digitalRead(pin)`, as the access `n`. -/
def digitalRead (p : Processor) (n : Nat) : Bool := p.level (p.time n)

/-- `WAIT_FOR_PIN_STATE`, from the access `n` on: the number of the access after it, or nothing if
`pulseIn` is to return 0. -/
def waitForPinState (p : Processor) (state : Bool) (startCycleCount timeoutCycles : UInt32) :
    Nat → Nat → Option (Option Nat)
  | 0, _ => none
  | fuel + 1, n =>
    if p.digitalRead n = state then some (some (n + 1))
    else if p.ccount (n + 1) - startCycleCount > timeoutCycles then some none
    else p.waitForPinState state startCycleCount timeoutCycles fuel (n + 2)

/-- The timeout in cycles, for a processor with so many cycles in a microsecond. -/
def timeoutCycles (clock timeout : UInt32) : UInt32 :=
  let maxTimeout := 0xffffffff / clock
  (if timeout > maxTimeout then maxTimeout else timeout) * clock

/-- `pulseIn`, from the access `n` on. -/
def pulseIn (p : Processor) (clock : UInt32) (state : Bool) (timeout : UInt32) (fuel n : Nat) :
    Option UInt32 := do
  let cycles := timeoutCycles clock timeout
  let startCycleCount := p.ccount n
  let some n ← p.waitForPinState (!state) startCycleCount cycles fuel (n + 1) | return 0
  let some n ← p.waitForPinState state startCycleCount cycles fuel n | return 0
  let pulseStartCycleCount := p.ccount n
  let some n ← p.waitForPinState (!state) startCycleCount cycles fuel (n + 1) | return 0
  return (p.ccount n - pulseStartCycleCount) / clock

variable {p : Processor} {state : Bool} {clock timeout cycles : UInt32} {fuel n n₀ m k gap : Nat}

/-! ## Times -/

theorem time_add_le (p : Processor) (n k : Nat) : p.time n + k ≤ p.time (n + k) := by
  induction k with
  | zero => exact le_refl _
  | succ k ih =>
    have hstep := p.increasing (n + k)
    rw [Nat.add_assoc] at hstep
    omega

theorem time_le (p : Processor) (h : m ≤ n) : p.time m ≤ p.time n := by
  obtain ⟨k, rfl⟩ := Nat.exists_eq_add_of_le h
  exact (Nat.le_add_right _ _).trans (p.time_add_le m k)

/-- The counter measures times of less than 2^32 cycles. -/
theorem toNat_ccount_sub (hle : m ≤ n) (hlt : p.time n < p.time m + 2 ^ 32) :
    (p.ccount n - p.ccount m).toNat = p.time n - p.time m := by
  have htime := p.time_le hle
  rw [ccount, ccount, UInt32.toNat_sub, UInt32.toNat_ofNat', UInt32.toNat_ofNat']
  omega

/-- The accesses of the processor are less than `gap` cycles apart. -/
def Within (p : Processor) (gap : Nat) : Prop := ∀ n, p.time (n + 1) < p.time n + gap

/-! ## Waiting -/

/-- The loop passes over the readings before the one that ends it. -/
theorem waitForPinState_skip (hk : k ≤ fuel)
    (hskip : ∀ i < k, p.digitalRead (n + 2 * i) ≠ state ∧
      ¬ p.ccount (n + 2 * i + 1) - p.ccount n₀ > cycles) :
    p.waitForPinState state (p.ccount n₀) cycles fuel n =
      p.waitForPinState state (p.ccount n₀) cycles (fuel - k) (n + 2 * k) := by
  induction k with
  | zero => rfl
  | succ k ih =>
    obtain ⟨hread, hcount⟩ := hskip k (Nat.lt_succ_self k)
    rw [ih (by omega) fun i hi => hskip i (hi.trans (Nat.lt_succ_self k))]
    obtain ⟨rest, hrest⟩ : ∃ rest, fuel - k = rest + 1 := ⟨fuel - k - 1, by omega⟩
    rw [hrest, waitForPinState, if_neg hread, if_neg hcount]
    congr 1
    omega

theorem waitForPinState_of_read (h : p.digitalRead n = state) (hfuel : 0 < fuel) :
    p.waitForPinState state (p.ccount n₀) cycles fuel n = some (some (n + 1)) := by
  cases fuel with
  | zero => omega
  | succ fuel => rw [waitForPinState, if_pos h]

theorem waitForPinState_of_late (h : p.digitalRead n ≠ state)
    (hlate : p.ccount (n + 1) - p.ccount n₀ > cycles) (hfuel : 0 < fuel) :
    p.waitForPinState state (p.ccount n₀) cycles fuel n = some none := by
  cases fuel with
  | zero => omega
  | succ fuel => rw [waitForPinState, if_neg h, if_pos hlate]

theorem ccount_gt_iff (hle : n₀ ≤ n) (hlt : p.time n < p.time n₀ + 2 ^ 32) :
    p.ccount n - p.ccount n₀ > cycles ↔ p.time n₀ + cycles.toNat < p.time n := by
  have htime := p.time_le hle
  rw [gt_iff_lt, UInt32.lt_iff_toNat_lt, toNat_ccount_sub hle hlt]
  omega

/-- The first reading, of those from the access `n` on, that is not before the cycle `a`. -/
theorem exists_first_reading (hgap : p.Within gap) {a : Nat} (hentry : p.time n < a + 2 * gap) :
    ∃ k, (∀ i < k, p.time (n + 2 * i) < a) ∧ a ≤ p.time (n + 2 * k) ∧
      p.time (n + 2 * k) < a + 2 * gap := by
  have hex : ∃ i, a ≤ p.time (n + 2 * i) :=
    ⟨a, (Nat.le_add_left _ _).trans ((p.time_add_le n a).trans (p.time_le (by omega)))⟩
  obtain ⟨k, hk, hmin⟩ : ∃ k, a ≤ p.time (n + 2 * k) ∧ ∀ i < k, p.time (n + 2 * i) < a :=
    ⟨Nat.find hex, Nat.find_spec hex, fun i hi => not_le.1 (Nat.find_min hex hi)⟩
  refine ⟨k, hmin, hk, ?_⟩
  cases k with
  | zero => exact hentry
  | succ k =>
    have hlast := hmin k (Nat.lt_succ_self k)
    have h₁ := hgap (n + 2 * k)
    have h₂ := hgap (n + 2 * k + 1)
    have hlast' : n + 2 * (k + 1) = n + 2 * k + 1 + 1 := by omega
    rw [hlast']
    omega

/-- The pin comes to the state in the cycle `a`, in time, and stays there until it is read. -/
theorem waitForPinState_edge (state : Bool) {a : Nat} (hgap : p.Within gap) (hle : n₀ ≤ n)
    (hentry : p.time n < a + 2 * gap)
    (hbefore : ∀ t, p.time n ≤ t → t < a → p.level t ≠ state)
    (hafter : ∀ t, a ≤ t → t < a + 2 * gap → p.level t = state)
    (htimeout : a + gap ≤ p.time n₀ + cycles.toNat) (hfuel : cycles.toNat < fuel) :
    ∃ m, n < m ∧ a < p.time m ∧ p.time m < a + 3 * gap ∧
      p.waitForPinState state (p.ccount n₀) cycles fuel n = some (some m) := by
  obtain ⟨k, hbelow, hreached, hbound⟩ := exists_first_reading hgap hentry
  have hstart := p.time_le hle
  have hsteps : k ≤ cycles.toNat := by
    cases k with
    | zero => exact Nat.zero_le _
    | succ k =>
      have h₁ := hbelow k (Nat.lt_succ_self k)
      have h₂ := p.time_add_le n (2 * k)
      omega
  have hnext := hgap (n + 2 * k)
  refine ⟨n + 2 * k + 1, by omega, hreached.trans_lt (p.increasing _), by omega, ?_⟩
  rw [waitForPinState_skip (k := k) (by omega), waitForPinState_of_read _ (by omega)]
  · exact hafter _ hreached hbound
  · intro i hi
    have hi := hbelow i hi
    have hcheck := hgap (n + 2 * i)
    refine ⟨hbefore _ (p.time_le (Nat.le_add_right _ _)) hi, ?_⟩
    rw [ccount_gt_iff (by omega) (by have := cycles.toNat_lt; omega)]
    omega

/-- The check at which the loop gives up: the readings before it and the checks before it are in
time, and the counter has not come round. -/
theorem exists_late_check (hgap : p.Within gap) (hle : n₀ ≤ n) {slack : Nat}
    (hentry : p.time n < p.time n₀ + cycles.toNat + slack) (hslack : gap ≤ slack) :
    ∃ k, k ≤ cycles.toNat ∧ (∀ i < k, p.time (n + 2 * i + 1) ≤ p.time n₀ + cycles.toNat) ∧
      (∀ i ≤ k, p.time (n + 2 * i) < p.time n₀ + cycles.toNat + slack) ∧
      p.time n₀ + cycles.toNat < p.time (n + 2 * k + 1) := by
  have hstart := p.time_le hle
  have hlast : p.time n₀ + cycles.toNat < p.time (n + 2 * cycles.toNat + 1) := by
    have hsteps := p.time_add_le n (2 * cycles.toNat + 1)
    rw [← Nat.add_assoc n] at hsteps
    omega
  have hex : ∃ k, p.time n₀ + cycles.toNat < p.time (n + 2 * k + 1) := ⟨_, hlast⟩
  obtain ⟨k, hk, hmin⟩ : ∃ k, p.time n₀ + cycles.toNat < p.time (n + 2 * k + 1) ∧
      ∀ i, p.time n₀ + cycles.toNat < p.time (n + 2 * i + 1) → k ≤ i :=
    ⟨Nat.find hex, Nat.find_spec hex, fun i hi => Nat.find_min' hex hi⟩
  have hearly (i : Nat) (hi : i < k) : p.time (n + 2 * i + 1) ≤ p.time n₀ + cycles.toNat :=
    not_lt.1 fun hlt => (hmin i hlt).not_gt hi
  refine ⟨k, hmin _ hlast, hearly, fun i hi => ?_, hk⟩
  cases i with
  | zero => exact hentry
  | succ i =>
    -- the check before the reading was in time
    have hcheck := hearly i hi
    have hreading := hgap (n + 2 * i + 1)
    have hindex : n + 2 * (i + 1) = n + 2 * i + 1 + 1 := by omega
    rw [hindex]
    omega

/-- Whatever the pin does, the loop ends: it gives up, or it has read the state. -/
theorem waitForPinState_total (state : Bool) (slack : Nat) (hgap : p.Within gap) (hle : n₀ ≤ n)
    (hentry : p.time n < p.time n₀ + cycles.toNat + slack) (hslack : gap ≤ slack)
    (hwrap : cycles.toNat + slack + gap ≤ 2 ^ 32) (hfuel : cycles.toNat < fuel) :
    p.waitForPinState state (p.ccount n₀) cycles fuel n = some none ∨
      ∃ m, n ≤ m ∧ p.time m < p.time n₀ + cycles.toNat + slack ∧ p.digitalRead m = state ∧
        p.waitForPinState state (p.ccount n₀) cycles fuel n = some (some (m + 1)) := by
  obtain ⟨k, hk, hchecks, hreadings, hlate⟩ := exists_late_check hgap hle hentry hslack
  have hbound := cycles.toNat_lt
  have hcheck (i : Nat) (hi : i < k) : ¬ p.ccount (n + 2 * i + 1) - p.ccount n₀ > cycles := by
    have hearly := hchecks i hi
    rw [ccount_gt_iff (by omega) (by omega)]
    omega
  by_cases hread : ∃ i, i ≤ k ∧ p.digitalRead (n + 2 * i) = state
  · obtain ⟨i, ⟨hi, hstate⟩, hmin⟩ : ∃ i, (i ≤ k ∧ p.digitalRead (n + 2 * i) = state) ∧
        ∀ l < i, p.digitalRead (n + 2 * l) ≠ state :=
      ⟨Nat.find hread, Nat.find_spec hread, fun l hl heq =>
        Nat.find_min hread hl ⟨hl.le.trans (Nat.find_spec hread).1, heq⟩⟩
    refine .inr ⟨n + 2 * i, Nat.le_add_right _ _, hreadings i hi, hstate, ?_⟩
    rw [waitForPinState_skip (k := i) (by omega) fun l hl => ⟨hmin l hl, hcheck l (by omega)⟩,
      waitForPinState_of_read hstate (by omega)]
  · have hread (i : Nat) (hi : i ≤ k) : p.digitalRead (n + 2 * i) ≠ state :=
      fun heq => hread ⟨i, hi, heq⟩
    have hreading := hreadings k (le_refl k)
    have hnext := hgap (n + 2 * k)
    refine .inl ?_
    rw [waitForPinState_skip (k := k) (by omega) fun i hi => ⟨hread i hi.le, hcheck i hi⟩,
      waitForPinState_of_late (hread k (le_refl k)) _ (by omega)]
    rw [ccount_gt_iff (by omega) (by omega)]
    exact hlate

/-! ## The pulse -/

theorem gap_pos (hgap : p.Within gap) : 0 < gap := by
  have hnext := hgap 0
  have hlater := p.increasing 0
  omega

theorem toNat_div_mul_le (a b : UInt32) : (a / b).toNat * b.toNat ≤ a.toNat := by
  rw [UInt32.toNat_div]
  exact Nat.div_mul_le_self _ _

/-- The three waits of `pulseIn`. -/
theorem pulseIn_eq : p.pulseIn clock state timeout fuel n =
    (p.waitForPinState (!state) (p.ccount n) (timeoutCycles clock timeout) fuel (n + 1)).bind
      fun idle => idle.elim (some 0) fun n₁ =>
        (p.waitForPinState state (p.ccount n) (timeoutCycles clock timeout) fuel n₁).bind
          fun begun => begun.elim (some 0) fun n₂ =>
            (p.waitForPinState (!state) (p.ccount n) (timeoutCycles clock timeout) fuel
              (n₂ + 1)).bind fun ended => ended.elim (some 0) fun n₃ =>
                some ((p.ccount n₃ - p.ccount n₂) / clock) := by
  unfold pulseIn
  refine Option.bind_congr fun idle _ => ?_
  cases idle with
  | none => rfl
  | some n₁ =>
    refine Option.bind_congr fun begun _ => ?_
    cases begun with
    | none => rfl
    | some n₂ =>
      refine Option.bind_congr fun ended _ => ?_
      cases ended <;> rfl

/-- The default timeout is a second. -/
theorem timeoutCycles_echo : (timeoutCycles 240 1000000).toNat = 240000000 := rfl

/-- Whatever the pin does, `pulseIn` returns, and what it returns is not much more than the
timeout. -/
theorem pulseIn_total (hgap : p.Within gap) (clock timeout : UInt32) (state : Bool) (n : Nat)
    (hwrap : (timeoutCycles clock timeout).toNat + 5 * gap ≤ 2 ^ 32)
    (hfuel : (timeoutCycles clock timeout).toNat < fuel) :
    ∃ r, p.pulseIn clock state timeout fuel n = some r ∧
      r.toNat * clock.toNat < (timeoutCycles clock timeout).toNat + 5 * gap := by
  have hpos := gap_pos hgap
  rw [pulseIn_eq]
  generalize timeoutCycles clock timeout = cycles at *
  have hzero : (0 : UInt32).toNat * clock.toNat < cycles.toNat + 5 * gap := by
    rw [UInt32.toNat_zero, Nat.zero_mul]
    omega
  have h₀ := hgap n
  rcases waitForPinState_total (!state) gap hgap (Nat.le_add_right n 1) (by omega) (le_refl gap)
    (by omega) hfuel with h | ⟨m₁, hm₁, htime₁, -, h⟩
  · rw [h]
    exact ⟨0, rfl, hzero⟩
  rw [h, Option.bind_some, Option.elim_some]
  have h₁ := hgap m₁
  rcases waitForPinState_total state (2 * gap) hgap (by omega : n ≤ m₁ + 1) (by omega) (by omega)
    (by omega) hfuel with h | ⟨m₂, hm₂, htime₂, -, h⟩
  · rw [h]
    exact ⟨0, rfl, hzero⟩
  rw [h, Option.bind_some, Option.elim_some]
  have h₂ := hgap m₂
  have h₂' := hgap (m₂ + 1)
  rcases waitForPinState_total (!state) (4 * gap) hgap (by omega : n ≤ m₂ + 1 + 1) (by omega)
    (by omega) (by omega) hfuel with h | ⟨m₃, hm₃, htime₃, -, h⟩
  · rw [h]
    exact ⟨0, rfl, hzero⟩
  rw [h, Option.bind_some, Option.elim_some]
  have h₃ := hgap m₃
  have hstart := p.time_le (by omega : n ≤ m₂ + 1)
  refine ⟨_, rfl, (toNat_div_mul_le _ _).trans_lt ?_⟩
  rw [toNat_ccount_sub (by omega) (by omega)]
  omega

/-- The pin is idle until the cycle `a`, and the pulse lasts from there to the cycle `b`. -/
structure Pulse (p : Processor) (state : Bool) (gap n a b : Nat) : Prop where
  idle : ∀ t, p.time n ≤ t → t < a → p.level t = !state
  pulse : ∀ t, a ≤ t → t < b → p.level t = state

/-- The first wait passes at once. -/
theorem pulseIn_idle (hgap : p.Within gap) {a b : Nat} (hpulse : p.Pulse state gap n a b)
    (hbegin : p.time n + gap ≤ a) (hfuel : 0 < fuel) :
    p.waitForPinState (!state) (p.ccount n) cycles fuel (n + 1) = some (some (n + 2)) := by
  have hnext := hgap n
  exact waitForPinState_of_read (hpulse.idle _ (p.time_le (Nat.le_add_right n 1)) (by omega)) hfuel

/-- A pulse that ends in time is measured with an error of less than three gaps, and rounded down to
microseconds. -/
theorem pulseIn_pulse (hgap : p.Within gap) {a b : Nat} (hpulse : p.Pulse state gap n a b)
    (hend : ∀ t, b ≤ t → t < b + 2 * gap → p.level t = !state)
    (hbegin : p.time n + gap ≤ a) (hlength : a + 3 * gap ≤ b)
    (htimeout : b + gap ≤ p.time n + (timeoutCycles clock timeout).toNat)
    (hwrap : (timeoutCycles clock timeout).toNat + 5 * gap ≤ 2 ^ 32)
    (hfuel : (timeoutCycles clock timeout).toNat < fuel) :
    ∃ r, p.pulseIn clock state timeout fuel n = some r ∧
      ∃ cycles, b < a + cycles + 3 * gap ∧ a + cycles < b + 3 * gap ∧
        r.toNat = cycles / clock.toNat := by
  have hpos := gap_pos hgap
  have h₀ := hgap n
  have h₁ : p.time (n + 2) < p.time (n + 1) + gap := hgap (n + 1)
  rw [pulseIn_eq, pulseIn_idle hgap hpulse hbegin (by omega), Option.bind_some, Option.elim_some]
  have hidle (t : Nat) (ht : p.time (n + 2) ≤ t) (hta : t < a) : p.level t ≠ state := by
    rw [hpulse.idle t ((p.time_le (Nat.le_add_right n 2)).trans ht) hta]
    exact Bool.not_ne_self state
  obtain ⟨m₂, hm₂, ha₂, hb₂, h⟩ := waitForPinState_edge state hgap (Nat.le_add_right n 2)
    (by omega) hidle (fun t hat htb => hpulse.pulse t hat (by omega)) (by omega) hfuel
  rw [h, Option.bind_some, Option.elim_some]
  have h₂ := hgap m₂
  have hpulse' (t : Nat) (ht : p.time (m₂ + 1) ≤ t) (htb : t < b) : p.level t ≠ !state := by
    have hle := p.time_le (Nat.le_add_right m₂ 1)
    rw [hpulse.pulse t (by omega) htb]
    exact (Bool.not_ne_self state).symm
  obtain ⟨m₃, hm₃, ha₃, hb₃, h⟩ := waitForPinState_edge (!state) hgap (by omega : n ≤ m₂ + 1)
    (by omega) hpulse' hend htimeout hfuel
  rw [h, Option.bind_some, Option.elim_some]
  have hcycles : (p.ccount m₃ - p.ccount m₂).toNat = p.time m₃ - p.time m₂ :=
    toNat_ccount_sub (by omega) (by omega)
  refine ⟨_, rfl, p.time m₃ - p.time m₂, by omega, by omega, ?_⟩
  rw [UInt32.toNat_div, hcycles]

/-- A pin that is idle until the timeout, or a pulse that lasts until then, gives 0. -/
theorem pulseIn_late (hgap : p.Within gap) {a b : Nat} (hpulse : p.Pulse state gap n a b)
    (hbegin : p.time n + gap ≤ a)
    (hlate : p.time n + (timeoutCycles clock timeout).toNat + 4 * gap ≤ b)
    (hwrap : (timeoutCycles clock timeout).toNat + 5 * gap ≤ 2 ^ 32)
    (hfuel : (timeoutCycles clock timeout).toNat < fuel) :
    p.pulseIn clock state timeout fuel n = some 0 := by
  have hpos := gap_pos hgap
  have h₀ := hgap n
  have h₁ : p.time (n + 2) < p.time (n + 1) + gap := hgap (n + 1)
  rw [pulseIn_eq, pulseIn_idle hgap hpulse hbegin (by omega), Option.bind_some, Option.elim_some]
  rcases waitForPinState_total state (2 * gap) hgap (Nat.le_add_right n 2) (by omega) (by omega)
    (by omega) hfuel with h | ⟨m₂, hm₂, htime₂, hread₂, h⟩
  · rw [h]
    rfl
  rw [h, Option.bind_some, Option.elim_some]
  have hstart := p.time_le (by omega : n ≤ m₂)
  have ha : a ≤ p.time m₂ := by
    by_contra hlt
    rw [digitalRead, hpulse.idle _ hstart (by omega)] at hread₂
    exact Bool.not_ne_self state hread₂
  have h₂ := hgap m₂
  have h₂' := hgap (m₂ + 1)
  rcases waitForPinState_total (!state) (4 * gap) hgap (by omega : n ≤ m₂ + 1 + 1) (by omega)
    (by omega) (by omega) hfuel with h | ⟨m₃, hm₃, htime₃, hread₃, -⟩
  · rw [h]
    rfl
  · have hle := p.time_le (by omega : m₂ ≤ m₃)
    rw [digitalRead, hpulse.pulse _ (by omega) (by omega)] at hread₃
    exact absurd hread₃.symm (Bool.not_ne_self state)

/-- A processor with an access in every cycle, and a pin that is high for ever. -/
theorem pulseIn_total_high : ∃ r,
    pulseIn ⟨id, fun _ => true, Nat.lt_succ_self⟩ 240 true 1000000 240000001 0 = some r ∧
      r.toNat * 240 < 240000010 := by
  have hgap : Within ⟨id, fun _ => true, Nat.lt_succ_self⟩ 2 := fun n => Nat.lt_succ_self (n + 1)
  have hfuel : (timeoutCycles 240 1000000).toNat < 240000001 := by
    rw [timeoutCycles_echo]
    decide
  obtain ⟨r, hr, hlt⟩ := pulseIn_total hgap 240 1000000 true 0
    (by rw [timeoutCycles_echo]; decide) hfuel
  rw [timeoutCycles_echo] at hlt
  exact ⟨r, hr, hlt⟩

/-! ## The sensor -/

/-- `duration = pulseIn(echoPin, HIGH)`, at 240 MHz. -/
def duration (p : Processor) (fuel n : Nat) : Option Int :=
  (p.pulseIn 240 true 1000000 fuel n).map fun r => wrap32 r.toNat

theorem detects_iff {d : Int} (h : 0 ≤ d) : detects d = true ↔ d ≤ 873 := by
  unfold detects cm
  rw [decide_eq_true_iff, Int.tdiv_eq_ediv_of_nonneg h, Int.tdiv_eq_ediv_of_nonneg (by omega)]
  omega

/-- An echo that begins after the start of `pulseIn` and lasts from the cycle `a` to the cycle `b`.
If it ends in time, `ultrasound()` detects an object when it is three gaps shorter than 874
microseconds, and none when it is three gaps longer; if it has not begun, or not ended, at the
timeout, `ultrasound()` detects an object. -/
theorem detects_echo (hgap : p.Within gap) (hsmall : gap ≤ 800000000) {a b : Nat}
    (hpulse : p.Pulse true gap n a b) (hbegin : p.time n + gap ≤ a) (hfuel : 240000000 < fuel) :
    ((∀ t, b ≤ t → t < b + 2 * gap → p.level t = false) → a + 3 * gap ≤ b →
      b + gap ≤ p.time n + 240000000 → ∃ d, p.duration fuel n = some d ∧
        (b + 3 * gap ≤ a + 874 * 240 → detects d = true) ∧
        (a + 874 * 240 + 3 * gap ≤ b → detects d = false)) ∧
    (p.time n + 240000000 + 4 * gap ≤ b → ∃ d, p.duration fuel n = some d ∧ detects d = true) := by
  have hwrap : (timeoutCycles 240 1000000).toNat + 5 * gap ≤ 2 ^ 32 := by
    rw [timeoutCycles_echo]
    omega
  rw [← timeoutCycles_echo] at hfuel
  constructor
  · intro hend hlength htimeout
    rw [← timeoutCycles_echo] at htimeout
    obtain ⟨r, hr, cycles, hlow, hhigh, hcount⟩ :=
      pulseIn_pulse hgap hpulse hend hbegin hlength htimeout hwrap hfuel
    rw [timeoutCycles_echo] at htimeout
    clear hfuel hwrap
    have hclock : r.toNat = cycles / 240 := hcount
    clear hcount
    have hlong : wrap32 r.toNat = r.toNat := wrap32_of_fits (by omega) (by omega)
    have hduration : p.duration fuel n = some (r.toNat : Int) := by
      rw [duration, hr, Option.map_some, hlong]
    refine ⟨r.toNat, hduration, fun hshort => ?_, fun hlong => ?_⟩
    · rw [detects_iff (by omega)]
      omega
    · rw [← Bool.not_eq_true, detects_iff (by omega)]
      omega
  · intro hlate
    rw [← timeoutCycles_echo] at hlate
    refine ⟨0, ?_, by decide⟩
    rw [duration, pulseIn_late hgap hpulse hbegin hlate hwrap hfuel, Option.map_some]
    exact congrArg some (wrap32_of_fits (by decide) (by decide))

/-- An echo of 100000 cycles. -/
theorem detects_echo_near : ∃ d,
    duration ⟨id, fun t => decide (100 ≤ t ∧ t < 100100), Nat.lt_succ_self⟩ 240000001 0 = some d ∧
      detects d = true := by
  have hgap : Within ⟨id, fun t => decide (100 ≤ t ∧ t < 100100), Nat.lt_succ_self⟩ 2 :=
    fun n => Nat.lt_succ_self (n + 1)
  have hpulse : Pulse ⟨id, fun t => decide (100 ≤ t ∧ t < 100100), Nat.lt_succ_self⟩ true 2 0 100
      100100 := by
    constructor
    · intro t _ ht
      exact decide_eq_false fun h => absurd h.1 (by omega)
    · intro t hlow hhigh
      exact decide_eq_true ⟨hlow, hhigh⟩
  have hfuel : 240000000 < 240000001 := by decide
  obtain ⟨d, hd, hnear, -⟩ := (detects_echo hgap (by decide) hpulse (by decide) hfuel).1
    (fun t ht _ => decide_eq_false fun h => absurd h.2 (by omega)) (by decide) (by decide)
  exact ⟨d, hd, hnear (by decide)⟩

end Processor

end Sensor

end DollMachine
