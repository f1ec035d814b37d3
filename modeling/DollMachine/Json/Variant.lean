import DollMachine.Numeral
import DollMachine.Sensor.Loop

/-!
# JSON values

`JsonVariant` of the JSON library, as the board uses it: what a variant can hold, how it is written
(`serialize`), and how it is read as an integer or a string.  A number that comes out of a text is
not converted before it is asked for; until then it is the text itself (`unparsed`).

Texts are lists of characters, without the NUL that ends a string of the source.  Floating point
values are left out: the sketch has none, and a text with one is `unparsed` too.
-/

namespace DollMachine

namespace Json

open Sensor (wrap32)

/-! ## Escapes -/

/-- A character that follows a backslash, and the one that it stands for. -/
def escapeTable : List (Char × Char) :=
  [('"', '"'), ('\\', '\\'), ('b', '\x08'), ('f', '\x0c'), ('n', '\n'), ('r', '\r'), ('t', '\t')]

def escapeChar (c : Char) : Option Char := (escapeTable.find? fun p => p.2 = c).map (·.1)

/-- The two entries that stand for themselves are left out. -/
def unescapeChar (c : Char) : Char := ((escapeTable.drop 2).find? fun p => p.1 = c).elim c (·.2)

/-! ## Variants -/

inductive JsonVariant
  | undefined
  | unparsed (raw : List Char)
  /-- A `const char*`, which may be null. -/
  | string (s : Option (List Char))
  | boolean (b : Bool)
  | positiveInteger (n : UInt32)
  /-- The content is to be negated. -/
  | negativeInteger (n : UInt32)
  | array (elems : List JsonVariant)
  | object (pairs : List (List Char × JsonVariant))

/-- The pairs of a `JsonObject`. -/
abbrev Pairs := List (List Char × JsonVariant)

instance decidableMemKeys (pairs : Pairs) (key : List Char) :
    Decidable (key ∈ pairs.map Prod.fst) := List.instDecidableMemOfLawfulBEq _ _

/-- `JsonVariant(int)`. -/
def JsonVariant.ofInt (value : Int) : JsonVariant :=
  if 0 ≤ value then .positiveInteger (UInt32.ofInt value)
  else .negativeInteger (UInt32.ofInt (-value))

/-! ## Writing -/

/-- The loop of `writeInteger`, with room for so many characters in front of those in the buffer. -/
def writeDigits : Nat → Nat → List Char → List Char
  | 0, _, buffer => buffer
  | room + 1, value, buffer =>
    let buffer := Numeral.digit (value % 10) :: buffer
    if value / 10 = 0 then buffer else writeDigits room (value / 10) buffer

/-- The buffer has 22 characters, one for the NUL. -/
def writeInteger (value : UInt32) : List Char := writeDigits 21 value.toNat []

def writeChar (c : Char) : List Char :=
  match escapeChar c with
  | some specialChar => ['\\', specialChar]
  | none => [c]

def writeString (value : List Char) : List Char := '"' :: value.flatMap writeChar ++ ['"']

def writeBoolean (value : Bool) : List Char := if value then "true".toList else "false".toList

mutual

/-- What `printTo` writes. -/
def serialize : JsonVariant → List Char
  | .undefined => []
  | .unparsed raw => raw
  | .string none => "null".toList
  | .string (some s) => writeString s
  | .boolean b => writeBoolean b
  | .positiveInteger n => writeInteger n
  | .negativeInteger n => '-' :: writeInteger n
  | .array elems => '[' :: serializeElems elems ++ [']']
  | .object pairs => '{' :: serializePairs pairs ++ ['}']
termination_by structural v => v

def serializeElems : List JsonVariant → List Char
  | [] => []
  | [v] => serialize v
  | v :: vs => serialize v ++ ',' :: serializeElems vs
termination_by structural vs => vs

def serializePair : List Char × JsonVariant → List Char
  | (key, value) => writeString key ++ ':' :: serialize value
termination_by structural p => p

def serializePairs : Pairs → List Char
  | [] => []
  | [p] => serializePair p
  | p :: ps => serializePair p ++ ',' :: serializePairs ps
termination_by structural ps => ps

end

@[simp] theorem serialize_unparsed (raw : List Char) : serialize (.unparsed raw) = raw := rfl

@[simp] theorem serialize_string (s : List Char) :
    serialize (.string (some s)) = writeString s := rfl

@[simp] theorem serialize_boolean (b : Bool) : serialize (.boolean b) = writeBoolean b := rfl

@[simp] theorem serialize_positiveInteger (n : UInt32) :
    serialize (.positiveInteger n) = writeInteger n := rfl

@[simp] theorem serialize_negativeInteger (n : UInt32) :
    serialize (.negativeInteger n) = '-' :: writeInteger n := rfl

@[simp] theorem serialize_array (elems : List JsonVariant) :
    serialize (.array elems) = '[' :: serializeElems elems ++ [']'] := rfl

@[simp] theorem serialize_object (pairs : Pairs) :
    serialize (.object pairs) = '{' :: serializePairs pairs ++ ['}'] := rfl

@[simp] theorem serializeElems_nil : serializeElems [] = [] := rfl

@[simp] theorem serializeElems_singleton (v : JsonVariant) :
    serializeElems [v] = serialize v := rfl

@[simp] theorem serializeElems_cons (v w : JsonVariant) (vs : List JsonVariant) :
    serializeElems (v :: w :: vs) = serialize v ++ ',' :: serializeElems (w :: vs) := rfl

@[simp] theorem serializePair_mk (key : List Char) (value : JsonVariant) :
    serializePair (key, value) = writeString key ++ ':' :: serialize value := rfl

@[simp] theorem serializePairs_nil : serializePairs [] = [] := rfl

@[simp] theorem serializePairs_singleton (p : List Char × JsonVariant) :
    serializePairs [p] = serializePair p := rfl

@[simp] theorem serializePairs_cons (p q : List Char × JsonVariant) (ps : Pairs) :
    serializePairs (p :: q :: ps) = serializePair p ++ ',' :: serializePairs (q :: ps) := rfl

/-! ## Reading -/

/-- The loop of `parseInteger<int>`, after the digits that gave `result`. -/
def parseDigits (result : Int) : List Char → Int
  | [] => result
  | c :: cs => if c.isDigit then parseDigits (wrap32 (result * 10 + Numeral.digitValue c)) cs
    else result

/-- `parseInteger<int>`. -/
def parseInteger : List Char → Int
  | 't' :: _ => 1
  | '-' :: cs => wrap32 (-parseDigits 0 cs)
  | '+' :: cs => parseDigits 0 cs
  | cs => parseDigits 0 cs

namespace JsonVariant

/-- `as<int>()`; of an array or an object it is the number that the bits of a pointer give, and not
modelled. -/
def asInteger : JsonVariant → Option Int
  | .undefined => some 0
  | .unparsed raw => some (parseInteger raw)
  | .string s => some (s.elim 0 parseInteger)
  | .boolean b => some (if b then 1 else 0)
  | .positiveInteger n => some (wrap32 n.toNat)
  | .negativeInteger n => some (wrap32 (-n.toNat))
  | .array _ | .object _ => none

/-- `variantAsString`. -/
def asString : JsonVariant → Option (List Char)
  | .unparsed raw => if raw = "null".toList then none else some raw
  | .string s => s
  | _ => none

/-- `as<String>()`. -/
def asText (v : JsonVariant) : List Char := v.asString.getD (serialize v)

end JsonVariant

/-- The value under a key, or an undefined one. -/
def Pairs.get (pairs : Pairs) (key : List Char) : JsonVariant :=
  (pairs.find? fun p => p.1 = key).elim .undefined (·.2)

/-! ## Properties of the writer -/

theorem unescapeChar_of_escapeChar {c s : Char} (h : escapeChar c = some s) :
    unescapeChar s = c := by
  have hall : ∀ p ∈ escapeTable, unescapeChar p.1 = p.2 := by decide
  obtain ⟨p, hp, rfl⟩ := Option.map_eq_some_iff.1 h
  have hc : p.2 = c := by simpa using List.find?_some hp
  rw [hall p (List.mem_of_find?_eq_some hp), hc]

theorem escapeChar_eq_none {c : Char} (h : escapeChar c = none) : c ≠ '"' ∧ c ≠ '\\' := by
  have hnone := List.find?_eq_none.1 (Option.map_eq_none_iff.1 h)
  constructor
  · rintro rfl
    exact hnone ('"', '"') (by decide) (by decide)
  · rintro rfl
    exact hnone ('\\', '\\') (by decide) (by decide)

theorem writeDigits_eq {room value : Nat} (h : value < 10 ^ (room + 1)) (buffer : List Char) :
    writeDigits (room + 1) value buffer = Numeral.numeral 10 value ++ buffer := by
  induction room generalizing value buffer with
  | zero =>
    have hdiv : value / 10 = 0 := by omega
    rw [writeDigits, if_pos hdiv, Numeral.numeral_eq (by decide), if_pos hdiv]
    rfl
  | succ room ih =>
    rw [writeDigits, Numeral.numeral_eq (by decide)]
    split_ifs with hdiv
    · rfl
    · rw [ih (Nat.div_lt_of_lt_mul (by rwa [pow_succ, mul_comm] at h)), List.append_assoc]
      rfl

theorem writeInteger_eq (n : UInt32) : writeInteger n = Numeral.numeral 10 n.toNat := by
  have hlt : n.toNat < 10 ^ 21 := n.toNat_lt.trans (by norm_num)
  rw [writeInteger, writeDigits_eq hlt, List.append_nil]

end Json

end DollMachine
