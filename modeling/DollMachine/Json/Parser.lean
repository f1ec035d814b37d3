import DollMachine.Arena
import DollMachine.Json.Variant

/-!
# The JSON parser

`JsonParser` with a `StaticJsonBuffer`: a recursive descent over the text that puts strings, objects
and arrays into a buffer of fixed capacity.  A computation fails where the source returns an invalid
object, and every failure is one of the whole.

`fuel` bounds the recursion; `parse_eq` says that the fuel which `parse` gives is enough.
`parse_threshold`: a buffer that is too small makes the parser fail and changes nothing else.
-/

namespace DollMachine

namespace Json

open Arena

abbrev Parser (α : Type) := Comp (List Char) α

/-! ## Memory -/

/-- `round_size_up`, with pointers of 4 bytes. -/
def roundSizeUp (bytes : Nat) : Nat := (bytes + 3) / 4 * 4

/-- The sizes of a `JsonObject` or `JsonArray`, of a node of the one, and of a node of the other. -/
def listSize : Nat := 8

def pairSize : Nat := 16

def elemSize : Nat := 12

def alloc (bytes : Nat) : Parser Unit := grow fun size => roundSizeUp size + bytes

/-- A string that is being built at the end of the buffer. -/
structure StringBuilder where
  size : Nat
  chars : List Char

/-- `append` drops what does not fit. -/
def StringBuilder.append (cap : Nat) (s : StringBuilder) (c : Char) : StringBuilder :=
  if s.size + 1 ≤ cap then ⟨s.size + 1, s.chars ++ [c]⟩ else s

/-- `c_str` needs one byte more, and is null without it. -/
def StringBuilder.cStr (cap : Nat) (s : StringBuilder) : Option (List Char × Nat) :=
  if s.size + 1 ≤ cap then some (s.chars, s.size + 1) else none

/-! ## The text -/

/-- Where `skipSpacesAndComments` is. -/
inductive Place
  | between
  | block
  | line

def isSpace (c : Char) : Bool := c = ' ' ∨ c = '\t' ∨ c = '\r' ∨ c = '\n'

def skipFrom : Place → List Char → List Char
  | .between, '/' :: '*' :: cs => skipFrom .block cs
  | .between, '/' :: '/' :: cs => skipFrom .line cs
  | .between, c :: cs => if isSpace c then skipFrom .between cs else c :: cs
  | .block, '*' :: '/' :: cs => skipFrom .between cs
  | .block, _ :: cs => skipFrom .block cs
  | .line, c :: cs => if c = '\n' then skipFrom .between cs else skipFrom .line cs
  | _, [] => []

def skipSpacesAndComments (cs : List Char) : List Char := skipFrom .between cs

def skip : Parser Unit := lift fun cs => some ((), skipSpacesAndComments cs)

def current : Parser (Option Char) := lift fun cs => some (cs.head?, cs)

def eat (charToSkip : Char) : Parser Bool := lift fun cs =>
  let cs := skipSpacesAndComments cs
  if cs.head? = some charToSkip then some (true, cs.tail) else some (false, cs)

def isBetween (c lo hi : Char) : Bool := lo ≤ c ∧ c ≤ hi

def canBeInNonQuotedString (c : Char) : Bool :=
  isBetween c '0' '9' || isBetween c '_' 'z' || isBetween c 'A' 'Z' || c = '+' || c = '-' || c = '.'

def isQuote (c : Char) : Bool := c = '\'' ∨ c = '"'

/-- The loop of `parseString` in quotes. -/
def quotedLoop (cap : Nat) (stopChar : Char) :
    List Char → StringBuilder → StringBuilder × List Char
  | [], str => (str, [])
  | c :: cs, str =>
    if c = stopChar then (str, cs)
    else if c = '\\' then
      match cs with
      | [] => (str, [])
      | c :: cs => quotedLoop cap stopChar cs (str.append cap (unescapeChar c))
    else quotedLoop cap stopChar cs (str.append cap c)

/-- The loop of `parseString` without quotes. -/
def plainLoop (cap : Nat) : List Char → StringBuilder → StringBuilder × List Char
  | [], str => (str, [])
  | c :: cs, str =>
    if canBeInNonQuotedString c then plainLoop cap cs (str.append cap c) else (str, c :: cs)

def parseString : Parser (List Char) := fun cap cs size =>
  let r : StringBuilder × List Char :=
    match skipSpacesAndComments cs with
    | [] => (⟨size, []⟩, [])
    | c :: cs =>
      if isQuote c then quotedLoop cap c cs ⟨size, []⟩ else plainLoop cap (c :: cs) ⟨size, []⟩
  (r.1.cStr cap).map fun x => (x.1, r.2, x.2)

/-! ## Values -/

/-- `object.set(key, value)`: a key that is there keeps its place. -/
def set (pairs : Pairs) (key : List Char) (value : JsonVariant) : Parser Pairs :=
  if key ∈ pairs.map Prod.fst then
    pure (pairs.map fun p => if p.1 = key then (key, value) else p)
  else do
    alloc pairSize
    return pairs ++ [(key, value)]

mutual

/-- `parseAnythingTo`. -/
def parseAnything : Nat → Nat → Parser JsonVariant
  | 0, _ => fail
  | fuel + 1, nestingLimit => do
    skip
    match ← current with
    | some '[' => return .array (← parseArray fuel nestingLimit)
    | some '{' => return .object (← parseObject fuel nestingLimit)
    | c =>
      let value ← parseString
      return if c.any isQuote then .string (some value) else .unparsed value
termination_by structural fuel => fuel

def parseArray : Nat → Nat → Parser (List JsonVariant)
  | 0, _ | _, 0 => fail
  | fuel + 1, nestingLimit + 1 => do
    alloc listSize
    if ← eat '[' then
      if ← eat ']' then return []
      else parseElems fuel nestingLimit []
    else fail
termination_by structural fuel => fuel

/-- The loop of `parseArray`. -/
def parseElems : Nat → Nat → List JsonVariant → Parser (List JsonVariant)
  | 0, _, _ => fail
  | fuel + 1, nestingLimit, array => do
    let value ← parseAnything fuel nestingLimit
    alloc elemSize
    if ← eat ']' then return array ++ [value]
    else if ← eat ',' then parseElems fuel nestingLimit (array ++ [value])
    else fail
termination_by structural fuel => fuel

def parseObject : Nat → Nat → Parser Pairs
  | 0, _ | _, 0 => fail
  | fuel + 1, nestingLimit + 1 => do
    alloc listSize
    if ← eat '{' then
      if ← eat '}' then return []
      else parsePairs fuel nestingLimit []
    else fail
termination_by structural fuel => fuel

/-- The loop of `parseObject`. -/
def parsePairs : Nat → Nat → Pairs → Parser Pairs
  | 0, _, _ => fail
  | fuel + 1, nestingLimit, object => do
    let key ← parseString
    if ← eat ':' then
      let value ← parseAnything fuel nestingLimit
      let object ← set object key value
      if ← eat '}' then return object
      else if ← eat ',' then parsePairs fuel nestingLimit object
      else fail
    else fail
termination_by structural fuel => fuel

end

/-- `parseObject(json, nestingLimit)` of a buffer of the given capacity. -/
def parse (capacity nestingLimit : Nat) (json : List Char) : Option Pairs :=
  (parseObject (3 * json.length + 1) nestingLimit capacity json 0).map (·.1)

/-! ## Strings -/

/-- What a string in quotes holds, and what follows it. -/
def quoted (stopChar : Char) : List Char → List Char × List Char
  | [] => ([], [])
  | c :: cs =>
    if c = stopChar then ([], cs)
    else if c = '\\' then
      match cs with
      | [] => ([], [])
      | c :: cs => (quoted stopChar cs).map (unescapeChar c :: ·) id
    else (quoted stopChar cs).map (c :: ·) id

def scanString (cs : List Char) : List Char × List Char :=
  match skipSpacesAndComments cs with
  | [] => ([], [])
  | c :: cs => if isQuote c then quoted c cs else (c :: cs).span canBeInNonQuotedString

variable {cap size k : Nat} {c stopChar : Char} {cs : List Char} {str : StringBuilder}

theorem quotedLoop_eq : quotedLoop cap stopChar cs str =
    ((quoted stopChar cs).1.foldl (StringBuilder.append cap) str, (quoted stopChar cs).2) := by
  induction cs using quoted.induct stopChar generalizing str with
  | case1 => rfl
  | case2 =>
    unfold quotedLoop quoted
    rw [if_pos rfl, if_pos rfl]
    rfl
  | case3 h =>
    unfold quotedLoop quoted
    rw [if_neg h, if_neg h]
    rfl
  | case4 c cs h ih =>
    rw [quotedLoop, quoted, if_neg h, if_neg h]
    exact ih
  | case5 c cs h h' ih =>
    unfold quotedLoop quoted
    rw [if_neg h, if_neg h, if_neg h', if_neg h']
    exact ih

theorem plainLoop_eq : plainLoop cap cs str =
    ((cs.span canBeInNonQuotedString).1.foldl (StringBuilder.append cap) str,
      (cs.span canBeInNonQuotedString).2) := by
  simp only [List.span_eq_takeWhile_dropWhile]
  induction cs generalizing str with
  | nil => rfl
  | cons c cs ih =>
    rw [plainLoop]
    split_ifs with h
    · rw [ih, List.takeWhile_cons_of_pos h, List.dropWhile_cons_of_pos h, List.foldl_cons]
    · rw [List.takeWhile_cons_of_neg h, List.dropWhile_cons_of_neg h, List.foldl_nil]

/-- A string that was cut off is null. -/
theorem cStr_foldl_append (h : str.size ≤ cap) :
    (cs.foldl (StringBuilder.append cap) str).cStr cap =
      if str.size + cs.length + 1 ≤ cap then some (str.chars ++ cs, str.size + cs.length + 1)
      else none := by
  induction cs generalizing str with
  | nil =>
    rw [List.append_nil]
    rfl
  | cons c cs ih =>
    rw [List.foldl_cons, StringBuilder.append]
    split_ifs with hsize hfit hfit
    · rw [ih hsize, if_pos (by grind)]
      simp
      omega
    · rw [ih hsize, if_neg (by grind)]
    · grind
    · rw [ih h, if_neg (by grind)]

theorem parseString_eq : parseString cap cs size =
    (((scanString cs).1.foldl (StringBuilder.append cap) ⟨size, []⟩).cStr cap).map
      fun x => (x.1, (scanString cs).2, x.2) := by
  unfold parseString scanString
  cases skipSpacesAndComments cs with
  | nil => rfl
  | cons c cs =>
    dsimp only
    split_ifs
    · rw [quotedLoop_eq]
    · rw [plainLoop_eq]

theorem parseString_apply (cs : List Char) (h : size ≤ cap) : parseString cap cs size =
    fit cap (some ((scanString cs).1, (scanString cs).2, size + (scanString cs).1.length + 1)) := by
  rw [parseString_eq, cStr_foldl_append h, fit_some]
  split_ifs <;> rfl

theorem metered_parseString : Metered parseString :=
  fun cs size => ⟨some ((scanString cs).1, (scanString cs).2, size + (scanString cs).1.length + 1),
    by rintro x ⟨⟩; dsimp only; omega, fun _ h => parseString_apply cs h⟩

/-! ## Memory and fuel -/

theorem length_skipFrom_le (place : Place) (cs : List Char) :
    (skipFrom place cs).length ≤ cs.length := by
  induction place, cs using skipFrom.induct <;> grind [skipFrom]

theorem length_skip_le (cs : List Char) : (skipSpacesAndComments cs).length ≤ cs.length :=
  length_skipFrom_le .between cs

theorem length_quoted_le (cs : List Char) : (quoted stopChar cs).2.length ≤ cs.length := by
  induction cs using quoted.induct stopChar with
  | case1 => exact le_refl _
  | case2 =>
    unfold quoted
    rw [if_pos rfl]
    exact Nat.le_succ _
  | case3 h =>
    unfold quoted
    rw [if_neg h]
    exact Nat.zero_le _
  | case4 c cs h ih =>
    unfold quoted
    rw [if_neg h]
    exact ih.trans (Nat.le_add_right _ 2)
  | case5 c cs h h' ih =>
    unfold quoted
    rw [if_neg h, if_neg h']
    exact ih.trans (Nat.le_succ _)

theorem length_scanString_le (cs : List Char) : (scanString cs).2.length ≤ cs.length := by
  refine le_trans ?_ (length_skip_le cs)
  unfold scanString
  cases skipSpacesAndComments cs with
  | nil => exact le_refl _
  | cons c cs =>
    dsimp only
    split_ifs
    · exact (length_quoted_le cs).trans (Nat.le_succ _)
    · rw [List.span_eq_takeWhile_dropWhile]
      exact (List.dropWhile_sublist _).length_le

theorem eat_eq_some {x : Bool × List Char × Nat} (h : eat c cap cs size = some x) :
    x.2.1.length + x.1.toNat ≤ cs.length := by
  have hlen := length_skip_le cs
  simp only [eat, lift_apply] at h
  split_ifs at h with hc <;> cases h
  · cases hcs : skipSpacesAndComments cs <;> simp_all
  · exact hlen

theorem set_induction {P : ∀ {α : Type}, Parser α → Prop} (h : Compositional (σ := List Char) P)
    (alloc : ∀ bytes, P (alloc bytes)) (object : Pairs) (key : List Char) (value : JsonVariant) :
    P (set object key value) := by
  unfold set
  split_ifs
  · exact h.pure _
  · exact h.bind (alloc _) fun _ => h.pure _

/-- A computation of the parser in parts: what composes and holds of the parts holds of it. -/
theorem parser_induction {P : ∀ {α : Type}, Parser α → Prop} (h : Compositional (σ := List Char) P)
    (skip : P skip) (current : P current) (eat : ∀ c, P (eat c)) (parseString : P parseString)
    (alloc : ∀ bytes, P (alloc bytes)) (fuel nestingLimit : Nat) :
    P (parseAnything fuel nestingLimit) ∧ P (parseArray fuel nestingLimit) ∧
      (∀ array, P (parseElems fuel nestingLimit array)) ∧ P (parseObject fuel nestingLimit) ∧
        ∀ object, P (parsePairs fuel nestingLimit object) := by
  induction fuel generalizing nestingLimit with
  | zero => exact ⟨h.fail, h.fail, fun _ => h.fail, h.fail, fun _ => h.fail⟩
  | succ fuel ih =>
    obtain ⟨ihAnything, ihArray, -, ihObject, -⟩ := ih nestingLimit
    have ite {α : Type} {p q : Parser α} (hp : P p) (hq : P q) (b : Bool) :
        P (if b then p else q) := by
      cases b
      · exact hq
      · exact hp
    refine ⟨?_, ?_, fun array => ?_, ?_, fun object => ?_⟩
    · refine h.bind skip fun _ => h.bind current fun c => ?_
      split
      · exact h.bind ihArray fun _ => h.pure _
      · exact h.bind ihObject fun _ => h.pure _
      · exact h.bind parseString fun _ => h.pure _
    · cases nestingLimit with
      | zero => exact h.fail
      | succ limit =>
        refine h.bind (alloc _) fun _ => h.bind (eat _) (ite ?_ h.fail)
        exact h.bind (eat _) (ite (h.pure _) ((ih limit).2.2.1 _))
    · refine h.bind ihAnything fun value => h.bind (alloc _) fun _ => h.bind (eat _) ?_
      refine ite (h.pure _) (h.bind (eat _) (ite ?_ h.fail))
      exact (ih nestingLimit).2.2.1 _
    · cases nestingLimit with
      | zero => exact h.fail
      | succ limit =>
        refine h.bind (alloc _) fun _ => h.bind (eat _) (ite ?_ h.fail)
        exact h.bind (eat _) (ite (h.pure _) ((ih limit).2.2.2.2 _))
    · refine h.bind parseString fun key => h.bind (eat _) (ite ?_ h.fail)
      refine h.bind ihAnything fun value => h.bind (set_induction h alloc _ _ _) ?_
      refine fun _ => h.bind (eat _) (ite (h.pure _) (h.bind (eat _) (ite ?_ h.fail)))
      exact (ih nestingLimit).2.2.2.2 _

theorem le_roundSizeUp (n : Nat) : n ≤ roundSizeUp n := by
  unfold roundSizeUp
  omega

theorem metered_parse (fuel nestingLimit : Nat) :
    Metered (parseAnything fuel nestingLimit) ∧ Metered (parseObject fuel nestingLimit) := by
  have halloc (bytes : Nat) : Metered (alloc bytes) :=
    metered_grow fun n => (le_roundSizeUp n).trans (Nat.le_add_right _ _)
  have h := parser_induction metered (metered_lift _) (metered_lift _) (fun _ => metered_lift _)
    metered_parseString halloc fuel nestingLimit
  exact ⟨h.1, h.2.2.2.1⟩

theorem shrinks_skip : Shrinks List.length skip := by
  refine shrinks_lift fun cs x h => ?_
  cases h
  exact length_skip_le cs

theorem shrinks_current : Shrinks List.length current := by
  refine shrinks_lift fun cs x h => ?_
  cases h
  exact le_refl _

theorem shrinks_eat (c : Char) : Shrinks List.length (eat c) :=
  fun _ _ _ _ h => (Nat.le_add_right _ _).trans (eat_eq_some h)

theorem shrinks_parseString : Shrinks List.length parseString := by
  intro cap cs size x h
  rw [parseString_eq] at h
  obtain ⟨y, -, rfl⟩ := Option.map_eq_some_iff.1 h
  exact length_scanString_le cs

theorem shrinks_parse (fuel nestingLimit : Nat) :
    Shrinks List.length (parseAnything fuel nestingLimit) ∧
      Shrinks List.length (parseArray fuel nestingLimit) ∧
        Shrinks List.length (parseObject fuel nestingLimit) := by
  have h := parser_induction shrinks shrinks_skip shrinks_current shrinks_eat shrinks_parseString
    (fun _ => shrinks_grow _) fuel nestingLimit
  exact ⟨h.1, h.2.1, h.2.2.2.1⟩

theorem agree_eat {α : Type} {p p' q q' : Parser α} (h : ∀ j, j + 1 = k → Agree List.length j p p')
    (h' : Agree List.length k q q') :
    Agree List.length k (do if ← eat c then p else q) (do if ← eat c then p' else q') := by
  intro cap cs size hk
  rw [bind_apply, bind_apply]
  refine Option.bind_congr fun x hx => ?_
  have hlen := eat_eq_some hx
  cases hb : x.1 with
  | true =>
    rw [hb, Bool.toNat_true] at hlen
    cases k with
    | zero => omega
    | succ j => exact h j rfl (by omega)
  | false =>
    rw [hb, Bool.toNat_false] at hlen
    exact h' (hlen.trans hk)

/-- Two amounts of fuel that suffice for a text are as good as each other. -/
theorem agree_parse {fuel fuel' : Nat} (k nestingLimit : Nat) :
    (3 * k + 2 ≤ fuel → 3 * k + 2 ≤ fuel' →
      Agree List.length k (parseAnything fuel nestingLimit) (parseAnything fuel' nestingLimit)) ∧
    (3 * k + 1 ≤ fuel → 3 * k + 1 ≤ fuel' →
      Agree List.length k (parseArray fuel nestingLimit) (parseArray fuel' nestingLimit)) ∧
    (3 * k + 3 ≤ fuel → 3 * k + 3 ≤ fuel' → ∀ array,
      Agree List.length k (parseElems fuel nestingLimit array)
        (parseElems fuel' nestingLimit array)) ∧
    (3 * k + 1 ≤ fuel → 3 * k + 1 ≤ fuel' →
      Agree List.length k (parseObject fuel nestingLimit) (parseObject fuel' nestingLimit)) ∧
    (3 * k + 3 ≤ fuel → 3 * k + 3 ≤ fuel' → ∀ object,
      Agree List.length k (parsePairs fuel nestingLimit object)
        (parsePairs fuel' nestingLimit object)) := by
  induction fuel generalizing fuel' k nestingLimit with
  | zero => exact ⟨by omega, by omega, by omega, by omega, by omega⟩
  | succ fuel ih =>
    cases fuel' with
    | zero => exact ⟨by omega, by omega, by omega, by omega, by omega⟩
    | succ fuel' =>
      have ih (k nestingLimit : Nat) := @ih fuel' k nestingLimit
      refine ⟨fun h h' => ?_, fun h h' => ?_, fun h h' array => ?_, fun h h' => ?_,
        fun h h' object => ?_⟩
      · refine .bind (.refl _) shrinks_skip fun _ => .bind (.refl _) shrinks_current fun c => ?_
        split
        · have harray := (ih k nestingLimit).2.1 (by omega) (by omega)
          exact .bind harray (shrinks_parse _ _).2.1 fun _ => .refl _
        · have hobject := (ih k nestingLimit).2.2.2.1 (by omega) (by omega)
          exact .bind hobject (shrinks_parse _ _).2.2 fun _ => .refl _
        · exact .refl _
      · cases nestingLimit with
        | zero => exact .refl _
        | succ limit =>
          refine .bind (.refl _) (shrinks_grow _) fun _ => agree_eat (fun j hj => ?_) (.refl _)
          refine agree_eat (fun _ _ => .refl _) ?_
          exact (ih j limit).2.2.1 (by omega) (by omega) []
      · have hvalue := (ih k nestingLimit).1 (by omega) (by omega)
        refine .bind hvalue (shrinks_parse _ _).1 fun value => .bind (.refl _) (shrinks_grow _) ?_
        refine fun _ => agree_eat (fun _ _ => .refl _) (agree_eat (fun j hj => ?_) (.refl _))
        exact (ih j nestingLimit).2.2.1 (by omega) (by omega) _
      · cases nestingLimit with
        | zero => exact .refl _
        | succ limit =>
          refine .bind (.refl _) (shrinks_grow _) fun _ => agree_eat (fun j hj => ?_) (.refl _)
          refine agree_eat (fun _ _ => .refl _) ?_
          exact (ih j limit).2.2.2.2 (by omega) (by omega) []
      · refine .bind (.refl _) shrinks_parseString fun key => agree_eat (fun j hj => ?_) (.refl _)
        have hvalue := (ih j nestingLimit).1 (by omega) (by omega)
        refine .bind hvalue (shrinks_parse _ _).1 fun value => .bind (.refl _) ?_ fun object => ?_
        · exact set_induction shrinks (fun _ => shrinks_grow _) _ _ _
        · refine agree_eat (fun _ _ => .refl _) (agree_eat (fun j' hj => ?_) (.refl _))
          exact (ih j' nestingLimit).2.2.2.2 (by omega) (by omega) _

theorem parse_eq {json : List Char} {capacity nestingLimit fuel : Nat}
    (h : 3 * json.length + 1 ≤ fuel) : parse capacity nestingLimit json =
      (parseObject fuel nestingLimit capacity json 0).map (·.1) := by
  unfold parse
  rw [(agree_parse json.length nestingLimit).2.2.2.1 (le_refl _) h (le_refl _)]

/-- A text is refused whatever the capacity is, or there are the pairs that it gives and the bytes
that they take: a buffer that is too small never gives other pairs. -/
theorem parse_threshold (nestingLimit : Nat) (json : List Char) :
    (∀ capacity, parse capacity nestingLimit json = none) ∨
      ∃ pairs bytes, ∀ capacity,
        parse capacity nestingLimit json = if bytes ≤ capacity then some pairs else none := by
  unfold parse
  rcases (metered_parse _ nestingLimit).2.threshold json 0 with h | ⟨x, -, h⟩
  · exact .inl fun capacity => by rw [h capacity (Nat.zero_le _), Option.map_none]
  · refine .inr ⟨x.1, x.2.2, fun capacity => ?_⟩
    rw [h capacity (Nat.zero_le _)]
    split_ifs <;> rfl

end Json

end DollMachine
