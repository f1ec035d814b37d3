import DollMachine.Numeral
import Mathlib.Data.List.TakeWhile

/-!
# The strings of the board

The methods of `String` that the HTTP client uses, on lists of characters, each of which stands for
a byte.  An index of -1 is `none`; passed on as an `unsigned int` it is the largest one.
-/

namespace DollMachine

namespace Http

def isspace (c : Char) : Bool := c = ' ' ∨ 9 ≤ c.toNat ∧ c.toNat ≤ 13

/-- What the second loop of `trim()` leaves. -/
def trimEnd : List Char → List Char
  | [] => []
  | c :: cs =>
    match trimEnd cs with
    | [] => if isspace c then [] else [c]
    | d :: ds => c :: d :: ds

def trim (s : List Char) : List Char := trimEnd (s.dropWhile isspace)

/-- `strchr`, which ends at a null character. -/
def strchr (ch : Char) : List Char → Option Nat
  | [] => none
  | c :: cs =>
    if c = ch then some 0
    else if c = '\x00' then none
    else (strchr ch cs).map (· + 1)

/-- `indexOf(ch, fromIndex)`. -/
def indexOf (s : List Char) (ch : Char) (fromIndex : Nat) : Option Nat :=
  (strchr ch (s.drop fromIndex)).map (· + fromIndex)

/-- An `int` index as an `unsigned int`. -/
def unsignedIndex (index : Option Nat) : Nat := index.getD (2 ^ 32 - 1)

/-- `substring(left, right)`. -/
def substring (s : List Char) (left right : Nat) : List Char :=
  ((s.take (max left right)).drop (min left right)).takeWhile (· ≠ '\x00')

/-- `remove(index, count)`. -/
def remove (s : List Char) (index count : Nat) : List Char := s.take index ++ s.drop (index + count)

/-- `strstr`, which ends at a null character. -/
def strstr (s2 : List Char) : List Char → Option Nat
  | [] => if s2 = [] then some 0 else none
  | c :: cs =>
    if s2.isPrefixOf (c :: cs) then some 0
    else if c = '\x00' then none
    else (strstr s2 cs).map (· + 1)

/-- `indexOf(s2)`, for a string. -/
def indexOfString (s s2 : List Char) : Option Nat := if s = [] then none else strstr s2 s

/-- The loop of `erase`; `skip` characters are still to be left out. -/
def eraseLoop (find : List Char) : Nat → List Char → List Char
  | _, [] => []
  | skip + 1, _ :: cs => eraseLoop find skip cs
  | 0, c :: cs =>
    if find.isPrefixOf (c :: cs) then eraseLoop find (find.length - 1) cs
    else c :: eraseLoop find 0 cs

/-- `replace(find, "")`, on a text without null characters. -/
def erase (s find : List Char) : List Char := if find = [] then s else eraseLoop find 0 s

/-- The loop of `equalsIgnoreCase`. -/
def sameLetters : List Char → List Char → Bool
  | c :: cs, d :: ds =>
    if c = '\x00' then true else c.toLower = d.toLower && sameLetters cs ds
  | _, _ => true

def equalsIgnoreCase (s s' : List Char) : Bool := s.length = s'.length && sameLetters s s'

def startsWith (s s' : List Char) : Bool := s'.isPrefixOf s

/-- The value of a digit of a number with a base up to 36; 36 if it is none. -/
def digitOf (c : Char) : Nat :=
  if 48 ≤ c.toNat ∧ c.toNat ≤ 57 then c.toNat - 48
  else if 97 ≤ c.toNat ∧ c.toNat ≤ 122 then c.toNat - 87
  else if 65 ≤ c.toNat ∧ c.toNat ≤ 90 then c.toNat - 55
  else 36

def strtolDigits (base v : Nat) : List Char → Nat
  | [] => v
  | c :: cs => if digitOf c < base then strtolDigits base (base * v + digitOf c) cs else v

/-- `strtol`; a `long` has 32 bits. -/
def strtol (base : Nat) (s : List Char) : Int :=
  let s := s.dropWhile isspace
  let negative := s.head? = some '-'
  let s := if negative ∨ s.head? = some '+' then s.tail else s
  let s :=
    if base = 16 ∧ s.head? = some '0' ∧ (s.tail.head? = some 'x' ∨ s.tail.head? = some 'X') then
      s.drop 2
    else s
  let v : Int := strtolDigits base 0 s
  if negative then max (-2 ^ 31) (-v) else min (2 ^ 31 - 1) v

/-- `toInt()`. -/
def toInt (s : List Char) : Int := strtol 10 s

variable {s s' : List Char} {c : Char} {b n d : Nat}

/-! ## Trimming -/

theorem trimEnd_eq_nil : trimEnd s = [] ↔ ∀ c ∈ s, isspace c = true := by
  induction s with
  | nil => simp [trimEnd]
  | cons c cs ih =>
    rw [trimEnd, List.forall_mem_cons, ← ih]
    cases h : trimEnd cs <;> simp

theorem trimEnd_cons (h : ¬ ∀ d ∈ c :: s, isspace d = true) :
    trimEnd (c :: s) = c :: trimEnd s := by
  rw [List.forall_mem_cons, ← trimEnd_eq_nil] at h
  rw [trimEnd]
  cases hs : trimEnd s with
  | nil => simpa [hs] using h
  | cons d ds => rfl

theorem trimEnd_append (h : ¬ ∀ c ∈ s', isspace c = true) :
    trimEnd (s ++ s') = s ++ trimEnd s' := by
  induction s with
  | nil => rfl
  | cons c cs ih =>
    rw [List.cons_append, trimEnd_cons, ih, List.cons_append]
    exact fun hall => h fun d hd => hall d (List.mem_cons_of_mem _ (List.mem_append_right _ hd))

theorem trimEnd_append_space (h : ∀ c ∈ s', isspace c = true) : trimEnd (s ++ s') = trimEnd s := by
  induction s with
  | nil => rw [List.nil_append, trimEnd_eq_nil.2 h, trimEnd]
  | cons c cs ih => rw [List.cons_append, trimEnd, ih, trimEnd]

theorem trimEnd_keep (h : isspace c = false) : trimEnd (s ++ c :: s') = s ++ c :: trimEnd s' := by
  rw [trimEnd_append (by simp [h]), trimEnd_cons (by simp [h])]

theorem trimEnd_keep_all (hne : s ≠ []) (h : ∀ c ∈ s, isspace c = false) (r : List Char) :
    trimEnd (r ++ (s ++ s')) = r ++ (s ++ trimEnd s') := by
  have hlast : isspace (s.getLast hne) = false := h _ (List.getLast_mem hne)
  have hkeep : trimEnd (r ++ s.dropLast ++ s.getLast hne :: s') =
      r ++ s.dropLast ++ s.getLast hne :: trimEnd s' := trimEnd_keep hlast
  rw [List.append_cons, List.append_cons _ _ (trimEnd s')] at hkeep
  simpa only [List.append_assoc, ← List.append_assoc s.dropLast, List.dropLast_concat_getLast hne]
    using hkeep

theorem mem_of_mem_trimEnd (h : c ∈ trimEnd s) : c ∈ s := by
  induction s with
  | nil => exact h
  | cons d ds ih =>
    by_cases hall : ∀ e ∈ d :: ds, isspace e = true
    · rw [trimEnd_eq_nil.2 hall] at h
      cases h
    · rw [trimEnd_cons hall] at h
      exact (List.mem_cons.1 h).elim (fun h => h ▸ List.mem_cons_self)
        fun h => List.mem_cons_of_mem _ (ih h)

theorem trimEnd_concat (h : isspace c = false) : trimEnd (s ++ [c]) = s ++ [c] := trimEnd_keep h

/-- The two loops of `trim()` can be made in either order. -/
theorem dropWhile_trimEnd (s : List Char) : (trimEnd s).dropWhile isspace = trim s := by
  unfold trim
  induction s with
  | nil => rfl
  | cons c cs ih =>
    by_cases hall : ∀ d ∈ c :: cs, isspace d = true
    · rw [trimEnd_eq_nil.2 hall, List.dropWhile_eq_nil_iff.2 hall]
      rfl
    · rw [trimEnd_cons hall]
      cases hc : isspace c with
      | true => rw [List.dropWhile_cons_of_pos hc, List.dropWhile_cons_of_pos hc, ih]
      | false =>
        rw [List.dropWhile_cons_of_neg (by simp [hc]), List.dropWhile_cons_of_neg (by simp [hc]),
          trimEnd_cons hall]

theorem trimEnd_trimEnd (s : List Char) : trimEnd (trimEnd s) = trimEnd s := by
  induction s with
  | nil => rfl
  | cons c cs ih =>
    by_cases hall : ∀ d ∈ c :: cs, isspace d = true
    · rw [trimEnd_eq_nil.2 hall]
      rfl
    · rw [trimEnd_cons hall, trimEnd, ih]
      cases hs : trimEnd cs with
      | nil =>
        have hc : ¬ isspace c = true := fun hc =>
          hall (List.forall_mem_cons.2 ⟨hc, trimEnd_eq_nil.1 hs⟩)
        simp [hc]
      | cons d ds => rfl

theorem trim_trimEnd (s : List Char) : trim (trimEnd s) = trim s := by
  rw [← dropWhile_trimEnd, trimEnd_trimEnd, dropWhile_trimEnd]

theorem trim_cons_space (h : isspace c = true) : trim (c :: s) = trim s := by
  rw [trim, List.dropWhile_cons_of_pos h, trim]

theorem trim_append_space (h : ∀ c ∈ s', isspace c = true) : trim (s ++ s') = trim s := by
  rw [← dropWhile_trimEnd, trimEnd_append_space h, dropWhile_trimEnd]

theorem trim_cons (h : isspace c = false) : trim (c :: s) = trimEnd (c :: s) := by
  rw [trim, List.dropWhile_cons_of_neg (by simp [h])]

/-- A text without spaces is left as it is. -/
theorem trim_of_forall (h : ∀ c ∈ s, isspace c = false) : trim s = s := by
  cases s with
  | nil => rfl
  | cons c cs =>
    rw [trim_cons (h c List.mem_cons_self), ← List.dropLast_concat_getLast (List.cons_ne_nil c cs)]
    exact trimEnd_concat (h _ (List.getLast_mem _))

/-! ## Searching -/

theorem strchr_append (hs : ∀ d ∈ s, d ≠ c ∧ d ≠ '\x00') :
    strchr c (s ++ c :: s') = some s.length := by
  induction s with
  | nil => simp [strchr]
  | cons d ds ih =>
    rw [List.forall_mem_cons] at hs
    rw [List.cons_append, strchr, if_neg hs.1.1, if_neg hs.1.2, ih hs.2]
    rfl

theorem strchr_eq_none (hs : c ∉ s) : strchr c s = none := by
  induction s with
  | nil => rfl
  | cons d ds ih =>
    rw [List.mem_cons, not_or] at hs
    rw [strchr, if_neg (Ne.symm hs.1), ih hs.2]
    split_ifs <;> rfl

theorem indexOf_append (hs : ∀ d ∈ s, d ≠ c ∧ d ≠ '\x00') :
    indexOf (s ++ c :: s') c 0 = some s.length := by
  rw [indexOf, List.drop_zero, strchr_append hs]
  rfl

theorem indexOf_eq_none (hs : c ∉ s) : indexOf s c 0 = none := by
  rw [indexOf, List.drop_zero, strchr_eq_none hs]
  rfl

theorem remove_append (s s' : List Char) : remove (s ++ s') 0 s.length = s' := by
  rw [remove, List.take_zero, List.nil_append, zero_add, List.drop_left]

theorem eraseLoop_drop (find s r : List Char) :
    eraseLoop find s.length (s ++ r) = eraseLoop find 0 r := by
  induction s with
  | nil => rfl
  | cons c cs ih => exact ih

theorem erase_append {find : List Char} (hfind : find ≠ []) (r : List Char) :
    erase (find ++ r) find = erase r find := by
  obtain ⟨c, cs, rfl⟩ := List.exists_cons_of_ne_nil hfind
  have hprefix : (c :: cs).isPrefixOf (c :: (cs ++ r)) = true :=
    List.isPrefixOf_iff_prefix.2 (List.prefix_append (c :: cs) r)
  rw [erase, if_neg hfind, erase, if_neg hfind, List.cons_append, eraseLoop, if_pos hprefix]
  exact eraseLoop_drop _ cs r

/-- A text that does not occur leaves nothing to do. -/
theorem erase_absent {find : List Char} (h : ¬ find <:+: s) : erase s find = s := by
  unfold erase
  split_ifs with hfind
  · rfl
  · induction s with
    | nil => rfl
    | cons c cs ih =>
      have hprefix : ¬ find.isPrefixOf (c :: cs) = true := fun hp =>
        h (List.isPrefixOf_iff_prefix.1 hp).isInfix
      rw [eraseLoop, if_neg hprefix, ih fun hinfix => h (List.infix_cons hinfix)]

theorem erase_singleton (c : Char) (s : List Char) : erase s [c] = s.filter (· ≠ c) := by
  rw [erase, if_neg (List.cons_ne_nil c [])]
  induction s with
  | nil => rfl
  | cons d ds ih =>
    rw [eraseLoop]
    by_cases hd : d = c
    · subst hd
      rw [if_pos (by simp), List.filter_cons_of_neg (by simp)]
      exact ih
    · rw [if_neg (by simpa using Ne.symm hd), List.filter_cons_of_pos (by simpa using hd), ih]

theorem substring_append {r : List Char} (hs : '\x00' ∉ s) :
    substring (r ++ (s ++ s')) r.length (s.length + r.length) = s := by
  rw [substring, max_eq_right (Nat.le_add_left _ _), min_eq_left (Nat.le_add_left _ _), add_comm,
    List.take_length_add_append, List.drop_left, List.take_left]
  exact List.takeWhile_eq_self_iff.2 fun c hc => by simpa using ne_of_mem_of_not_mem hc hs

theorem substring_left (hs : '\x00' ∉ s) : substring (s ++ s') 0 s.length = s :=
  substring_append (r := []) hs

theorem substring_drop {l r : Nat} (hr : s.length ≤ r) (hs : '\x00' ∉ s.drop l) (hl : l ≤ r) :
    substring s l r = s.drop l := by
  rw [substring, max_eq_right hl, min_eq_left hl, List.take_of_length_le hr]
  exact List.takeWhile_eq_self_iff.2 fun c hc => by simpa using ne_of_mem_of_not_mem hc hs

/-! ## Numbers -/

/-- What a digit of a numeral is, and what it is not. -/
theorem digit_spec (h : d < 16) : digitOf (Numeral.digit d) = d ∧
    Numeral.digitValue (Numeral.digit d) = d ∧ isspace (Numeral.digit d) = false ∧
    Numeral.digit d ∉ ['-', '+', 'x', 'X', ' ', '\x00', '\n'] := by
  have hall : ∀ d : Fin 16, digitOf (Numeral.digit d) = d ∧
      Numeral.digitValue (Numeral.digit d) = d ∧ isspace (Numeral.digit d) = false ∧
      Numeral.digit d ∉ ['-', '+', 'x', 'X', ' ', '\x00', '\n'] := by decide
  exact hall ⟨d, h⟩

theorem mem_numeral (hb : 1 < b) (hb' : b ≤ 16) (hc : c ∈ Numeral.numeral b n) :
    digitOf c = Numeral.digitValue c ∧ digitOf c < b ∧ isspace c = false ∧
      c ∉ ['-', '+', 'x', 'X', ' ', '\x00', '\n'] := by
  refine Numeral.forall_mem_numeral (P := fun c => digitOf c = Numeral.digitValue c ∧
    digitOf c < b ∧ isspace c = false ∧ c ∉ ['-', '+', 'x', 'X', ' ', '\x00', '\n']) hb ?_ n c hc
  intro d hd
  obtain ⟨hof, hvalue, hspace, hnot⟩ := digit_spec (hd.trans_le hb')
  exact ⟨hof.trans hvalue.symm, hof.trans_lt hd, hspace, hnot⟩

theorem strtolDigits_eq (v : Nat) (hs : ∀ c ∈ s, digitOf c = Numeral.digitValue c ∧ digitOf c < b) :
    strtolDigits b v s = Numeral.valueFrom b v s := by
  induction s generalizing v with
  | nil => rfl
  | cons c cs ih =>
    rw [List.forall_mem_cons] at hs
    rw [strtolDigits, if_pos hs.1.2, ih _ hs.2, hs.1.1]
    rfl

theorem strtol_numeral (hb : 1 < b) (hb' : b ≤ 16) (hn : n < 2 ^ 31) :
    strtol b (Numeral.numeral b n) = n := by
  have hall := fun c => mem_numeral (n := n) (c := c) hb hb'
  have hvalue := strtolDigits_eq (b := b) 0 fun c hc => ⟨(hall c hc).1, (hall c hc).2.1⟩
  rw [Numeral.value_numeral hb hb'] at hvalue
  generalize Numeral.numeral b n = s at hall hvalue
  have hdrop : s.dropWhile isspace = s := by
    cases s with
    | nil => rfl
    | cons c cs => exact List.dropWhile_cons_of_neg (by simp [(hall c List.mem_cons_self).2.2.1])
  have hhead : ∀ c, s.head? = some c → c ∉ ['-', '+', 'x', 'X', ' ', '\x00', '\n'] := fun c hc =>
    (hall c (List.mem_of_mem_head? hc)).2.2.2
  have htail : ∀ c, s.tail.head? = some c → c ∉ ['-', '+', 'x', 'X', ' ', '\x00', '\n'] :=
    fun c hc => (hall c (List.mem_of_mem_tail (List.mem_of_mem_head? hc))).2.2.2
  have hminus : s.head? ≠ some '-' := fun h => hhead _ h (by decide)
  have hplus : s.head? ≠ some '+' := fun h => hhead _ h (by decide)
  have hx : s.tail.head? ≠ some 'x' := fun h => htail _ h (by decide)
  have hX : s.tail.head? ≠ some 'X' := fun h => htail _ h (by decide)
  simp only [strtol, hdrop, hminus, hplus, hx, hX, or_self, and_false, if_false, hvalue]
  omega

end Http

end DollMachine
