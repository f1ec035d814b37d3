import Mathlib.Data.Nat.Digits.Defs
import Mathlib.Tactic.Linarith

/-!
# Numerals

The numeral of a number in a base up to 16, with the digits `0` to `9` and `a` to `f`, and the value
of a numeral.  `numeral_step` is how a numeral is made, last digit first; `value_numeral` says that
reading it gives the number back.
-/

namespace Numeral

/-- What holds of all characters of a text is decided on the text, and not on all characters. -/
instance (priority := 2000) decidableForallMem (P : Char → Prop) [DecidablePred P]
    (s : List Char) : Decidable (∀ c ∈ s, P c) := List.decidableBAll P s

variable {b n d k : Nat} {c : Char} {cs : List Char}

def digit (d : Nat) : Char := Char.ofNat (if d < 10 then 48 + d else 87 + d)

def digitValue (c : Char) : Nat := if c.toNat < 58 then c.toNat - 48 else c.toNat - 87

def numeral (b n : Nat) : List Char :=
  if n = 0 then [digit 0] else ((Nat.digits b n).map digit).reverse

/-- Read digits after others that had the value `v`. -/
def valueFrom (b v : Nat) (cs : List Char) : Nat := cs.foldl (fun v c => b * v + digitValue c) v

theorem digitValue_digit (h : d < 16) : digitValue (digit d) = d := by
  have hall : ∀ d : Fin 16, digitValue (digit d) = d := by decide
  exact hall ⟨d, h⟩

theorem isDigit_digit (h : d < 10) : (digit d).isDigit = true := by
  have hall : ∀ d : Fin 10, (digit d).isDigit = true := by decide
  exact hall ⟨d, h⟩

theorem numeral_of_lt (h : n < b) : numeral b n = [digit n] := by
  unfold numeral
  split_ifs with hn
  · rw [hn]
  · rw [Nat.digits_of_lt b n hn h]
    rfl

/-- The last digit is the remainder, and those before it are the numeral of the quotient. -/
theorem numeral_step (hb : 1 < b) (h : b ≤ n) :
    numeral b n = numeral b (n / b) ++ [digit (n % b)] := by
  have hn : n ≠ 0 := by omega
  have hdiv : n / b ≠ 0 := (Nat.div_pos h (by omega)).ne'
  rw [numeral, if_neg hn, numeral, if_neg hdiv, Nat.digits_eq_cons_digits_div hb hn,
    List.map_cons, List.reverse_cons]

theorem numeral_eq (hb : 1 < b) (n : Nat) :
    numeral b n = (if n / b = 0 then [] else numeral b (n / b)) ++ [digit (n % b)] := by
  by_cases h : n < b
  · rw [numeral_of_lt h, Nat.div_eq_of_lt h, Nat.mod_eq_of_lt h]
    rfl
  · rw [numeral_step hb (not_lt.1 h), if_neg (Nat.div_pos (not_lt.1 h) (by omega)).ne']

theorem numeral_ne_nil (hb : 1 < b) (n : Nat) : numeral b n ≠ [] := by
  rw [numeral_eq hb]
  simp

/-- Induction over the digits of a number. -/
theorem digits_induction {P : Nat → Prop} (hb : 1 < b) (small : ∀ n < b, P n)
    (step : ∀ n, b ≤ n → P (n / b) → P n) (n : Nat) : P n := by
  induction n using Nat.strong_induction_on with
  | _ n ih =>
    by_cases h : n < b
    · exact small n h
    · exact step n (not_lt.1 h) (ih _ (Nat.div_lt_self (by omega) hb))

theorem valueFrom_append (v : Nat) (cs cs' : List Char) :
    valueFrom b v (cs ++ cs') = valueFrom b (valueFrom b v cs) cs' := List.foldl_append

theorem valueFrom_digit (v : Nat) (h : d < 16) : valueFrom b v [digit d] = b * v + d := by
  rw [valueFrom, List.foldl_cons, List.foldl_nil, digitValue_digit h]

theorem value_numeral (hb : 1 < b) (hb' : b ≤ 16) (n : Nat) : valueFrom b 0 (numeral b n) = n := by
  induction n using digits_induction hb with
  | small n h => rw [numeral_of_lt h, valueFrom_digit 0 (h.trans_le hb'), mul_zero, zero_add]
  | step n h ih =>
    have hmod : n % b < 16 := (Nat.mod_lt n (by omega)).trans_le hb'
    rw [numeral_step hb h, valueFrom_append, ih, valueFrom_digit _ hmod]
    exact Nat.div_add_mod n b

theorem forall_mem_numeral {P : Char → Prop} (hb : 1 < b) (h : ∀ d < b, P (digit d)) (n : Nat) :
    ∀ c ∈ numeral b n, P c := by
  induction n using digits_induction hb with
  | small n hn =>
    rw [numeral_of_lt hn, List.forall_mem_singleton]
    exact h n hn
  | step n hn ih =>
    rw [numeral_step hb hn, List.forall_mem_append, List.forall_mem_singleton]
    exact ⟨ih, h _ (Nat.mod_lt n (by omega))⟩

theorem length_numeral_le (hb : 1 < b) (h : n < b ^ (k + 1)) : (numeral b n).length ≤ k + 1 := by
  induction n using digits_induction hb generalizing k with
  | small n hn =>
    rw [numeral_of_lt hn, List.length_singleton]
    omega
  | step n hn ih =>
    rw [numeral_step hb hn, List.length_append, List.length_singleton]
    cases k with
    | zero =>
      rw [zero_add, pow_one] at h
      omega
    | succ k =>
      have hdiv : n / b < b ^ (k + 1) := Nat.div_lt_of_lt_mul (by rwa [pow_succ, mul_comm] at h)
      exact Nat.succ_le_succ (ih hdiv)

end Numeral
