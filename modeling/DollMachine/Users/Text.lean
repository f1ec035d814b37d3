import DollMachine.Users.Manager

/-!
# Text fields

The `java.lang` functions that the sign-up form applies to what is typed.
-/

namespace DollMachine

/-- `String.valueOf(int)`. -/
def valueOf (n : Int) : String := toString n

/-- `String.trim()` drops the characters up to the blank at both ends. -/
def trim (s : String) : String :=
  String.ofList ((s.toList.dropWhile (· ≤ ' ')).reverse.dropWhile (· ≤ ' ')).reverse

/-- The number that a list of decimal digits denotes. -/
def digitsValue (cs : List Char) : Nat :=
  cs.foldl (fun n c => 10 * n + (c.toNat - '0'.toNat)) 0

/-- The digits of a decimal numeral, after its sign. -/
def parseDigits (negative : Bool) (cs : List Char) : Except JavaException Int :=
  let n : Int := if negative then -digitsValue cs else digitsValue cs
  if cs ≠ [] ∧ cs.all Char.isDigit ∧ -2147483648 ≤ n ∧ n ≤ 2147483647 then .ok n
  else .error .numberFormat

/-- `Integer.parseInt(String)`. -/
def parseInt (s : String) : Except JavaException Int :=
  match s.toList with
  | '-' :: cs => parseDigits true cs
  | '+' :: cs => parseDigits false cs
  | cs => parseDigits false cs

/-- A non-empty string of decimal digits. -/
def Digits (s : String) : Prop := s.toList ≠ [] ∧ s.toList.all Char.isDigit = true

instance (s : String) : Decidable (Digits s) := inferInstanceAs (Decidable (_ ∧ _))

theorem not_blank_of_isDigit {c : Char} (h : c.isDigit = true) : ¬ c ≤ ' ' := by
  intro hc
  have h₁ : '0'.toNat ≤ c.toNat := (Char.isDigit_iff_toNat.1 h).1
  have h₂ : c.toNat ≤ ' '.toNat := hc
  exact absurd (h₁.trans h₂) (by decide)

theorem dropWhile_of_isDigit {cs : List Char} (h : ∀ c ∈ cs, c.isDigit = true) :
    cs.dropWhile (· ≤ ' ') = cs := by
  cases cs with
  | nil => rfl
  | cons c cs =>
    rw [List.dropWhile_cons_of_neg]
    simpa using not_blank_of_isDigit (h c List.mem_cons_self)

theorem trim_of_digits {s : String} (h : Digits s) : trim s = s := by
  have hall : ∀ c ∈ s.toList, c.isDigit = true := List.all_eq_true.1 h.2
  have hrev : ∀ c ∈ s.toList.reverse, c.isDigit = true := fun c hc =>
    hall c (List.mem_reverse.1 hc)
  rw [trim, dropWhile_of_isDigit hall, dropWhile_of_isDigit hrev, List.reverse_reverse]
  exact String.ofList_toList

/-- A string of digits denotes its value, unless it is too large for an `int`. -/
theorem parseInt_of_digits {s : String} (h : Digits s) :
    parseInt s = if digitsValue s.toList ≤ 2147483647 then .ok (digitsValue s.toList : Int)
      else .error .numberFormat := by
  have hparse : parseInt s = parseDigits false s.toList := by
    unfold parseInt
    split
    · rename_i cs hcs
      have hsign := h.2
      simp [hcs] at hsign
    · rename_i cs hcs
      have hsign := h.2
      simp [hcs] at hsign
    · rfl
  rw [hparse]
  simp only [parseDigits, Bool.false_eq_true, if_false]
  refine if_congr ⟨fun hr => ?_, fun hle => ⟨h.1, h.2, ?_, ?_⟩⟩ rfl rfl
  · exact Int.ofNat_le.1 hr.2.2.2
  · omega
  · exact Int.ofNat_le.2 hle

example : parseInt "007" = .ok 7 := by decide

example : parseInt "2147483648" = .error .numberFormat := by decide

end DollMachine
