import DollMachine.Json.RoundTrip

/-!
# What a program reads from a parsed object

`reparsed` has every scalar but the strings as text, and so the conversions of `as<int>()` and
`as<String>()` have to give for the text what they gave for the value.
-/

namespace DollMachine

namespace Json

open Sensor (wrap32)

variable {v : JsonVariant} {pairs : Pairs} {capacity nestingLimit : Nat}

/-! ## Printing again -/

theorem serializeElems_map {f : JsonVariant → JsonVariant} {elems : List JsonVariant}
    (h : ∀ v ∈ elems, serialize (f v) = serialize v) :
    serializeElems (elems.map f) = serializeElems elems := by
  induction elems with
  | nil => rfl
  | cons v vs ih =>
    rw [List.forall_mem_cons] at h
    cases vs with
    | nil => exact h.1
    | cons w vs =>
      rw [List.map_cons, List.map_cons, serializeElems_cons, serializeElems_cons, h.1,
        ← List.map_cons, ih h.2]

theorem serializePairs_map {f : JsonVariant → JsonVariant}
    (h : ∀ p ∈ pairs, serialize (f p.2) = serialize p.2) :
    serializePairs (pairs.map fun p => (p.1, f p.2)) = serializePairs pairs := by
  induction pairs with
  | nil => rfl
  | cons p ps ih =>
    rw [List.forall_mem_cons] at h
    have hp : serializePair (p.1, f p.2) = serializePair p := by
      obtain ⟨key, value⟩ := p
      rw [serializePair_mk, serializePair_mk, h.1]
    cases ps with
    | nil => exact hp
    | cons q ps =>
      rw [List.map_cons] at ih ⊢
      rw [List.map_cons, serializePairs_cons, serializePairs_cons, hp, ih h.2]

/-- A value that is printed as a word. -/
def JsonVariant.isWord : JsonVariant → Bool
  | .array _ | .object _ | .string (some _) => false
  | _ => true

theorem reparsed_word (h : v.isWord = true) : v.reparsed = .unparsed (serialize v) := by
  rw [JsonVariant.reparsed]
  all_goals
    rintro x rfl
    cases h

theorem serialize_reparsed (v : JsonVariant) : serialize v.reparsed = serialize v := by
  induction v using JsonVariant.induction with
  | scalar v h =>
    cases hword : v.isWord with
    | true =>
      rw [reparsed_word hword]
      rfl
    | false =>
      cases v with
      | array elems => exact absurd rfl (h.array elems)
      | object pairs => exact absurd rfl (h.object pairs)
      | string s =>
        cases s with
        | none => cases hword
        | some s => rw [JsonVariant.reparsed]
      | _ => cases hword
  | array elems ih =>
    rw [JsonVariant.reparsed, serialize_array, serialize_array, serializeElems_map ih]
  | object pairs ih =>
    rw [JsonVariant.reparsed, serialize_object, serialize_object, serializePairs_map ih]

/-! ## Numbers -/

theorem wrap32_step (v : Int) (d : Nat) : wrap32 (wrap32 v * 10 + d) = wrap32 (10 * v + d) := by
  unfold wrap32
  rw [Int.add_bmod, Int.bmod_mul_bmod, ← Int.add_bmod, mul_comm]

/-- An overflow on the way does not matter. -/
theorem parseDigits_eq (v : Nat) {cs : List Char} (h : ∀ c ∈ cs, c.isDigit = true) :
    parseDigits (wrap32 v) cs = wrap32 (Numeral.valueFrom 10 v cs) := by
  induction cs generalizing v with
  | nil => rfl
  | cons c cs ih =>
    rw [List.forall_mem_cons] at h
    rw [parseDigits, if_pos h.1, wrap32_step]
    exact_mod_cast ih (10 * v + Numeral.digitValue c) h.2

theorem parseDigits_numeral (n : Nat) : parseDigits 0 (Numeral.numeral 10 n) = wrap32 n := by
  have hdigits : ∀ c ∈ Numeral.numeral 10 n, c.isDigit = true :=
    Numeral.forall_mem_numeral (by decide) (fun d hd => Numeral.isDigit_digit hd) n
  have h := parseDigits_eq 0 hdigits
  rwa [Numeral.value_numeral (by decide) (by decide)] at h

theorem parseInteger_numeral (n : Nat) : parseInteger (Numeral.numeral 10 n) = wrap32 n := by
  rw [← parseDigits_numeral]
  have hdigits : ∀ c ∈ Numeral.numeral 10 n, c.isDigit = true :=
    Numeral.forall_mem_numeral (by decide) (fun d hd => Numeral.isDigit_digit hd) n
  obtain ⟨c, cs, hcs⟩ := List.exists_cons_of_ne_nil (isWord_numeral n).1
  rw [hcs] at hdigits ⊢
  have hc : c.isDigit = true := hdigits c (List.mem_cons_self ..)
  rw [parseInteger]
  all_goals
    rintro _ ⟨⟩
    exact absurd hc (by decide)

theorem asInteger_reparsed (h : v.Printable) : v.reparsed.asInteger = v.asInteger := by
  cases v with
  | undefined =>
    rw [JsonVariant.Printable] at h
    exact h.elim
  | unparsed raw => rw [reparsed_word (v := .unparsed raw) rfl, serialize_unparsed]
  | string s =>
    cases s with
    | none =>
      rw [reparsed_word (v := .string none) rfl]
      rfl
    | some s => rw [JsonVariant.reparsed]
  | boolean b =>
    rw [reparsed_word (v := .boolean b) rfl]
    cases b <;> decide
  | positiveInteger n =>
    rw [reparsed_word (v := .positiveInteger n) rfl, serialize_positiveInteger,
      writeInteger_eq]
    rw [JsonVariant.asInteger, JsonVariant.asInteger, parseInteger_numeral]
  | negativeInteger n =>
    rw [reparsed_word (v := .negativeInteger n) rfl, serialize_negativeInteger,
      writeInteger_eq, JsonVariant.asInteger, parseInteger, parseDigits_numeral]
    exact congrArg some Int.bmod_neg_bmod
  | array elems =>
    rw [JsonVariant.reparsed]
    rfl
  | object pairs =>
    rw [JsonVariant.reparsed]
    rfl

/-- A text reads as itself, `null` included. -/
theorem asText_unparsed (raw : List Char) : (JsonVariant.unparsed raw).asText = raw := by
  unfold JsonVariant.asText JsonVariant.asString
  dsimp only
  split_ifs <;> rfl

theorem asText_reparsed (v : JsonVariant) : v.reparsed.asText = v.asText := by
  have hserialize := serialize_reparsed v
  cases v with
  | string s =>
    cases s with
    | none =>
      rw [reparsed_word (v := .string none) rfl, asText_unparsed]
      rfl
    | some s => rw [JsonVariant.reparsed]
  | array elems =>
    rw [JsonVariant.reparsed] at hserialize ⊢
    exact hserialize
  | object pairs =>
    rw [JsonVariant.reparsed] at hserialize ⊢
    exact hserialize
  | unparsed raw => rw [reparsed_word (v := .unparsed raw) rfl, serialize_unparsed]
  | _ =>
    rw [reparsed_word rfl, asText_unparsed]
    rfl

/-! ## Objects -/

/-- A conversion that does not tell the values from their images, does not tell what is found. -/
theorem get_map {β : Type} {f : JsonVariant → JsonVariant} {read : JsonVariant → β}
    (h : ∀ p ∈ pairs, read (f p.2) = read p.2) (key : List Char) :
    read (Pairs.get (pairs.map fun p => (p.1, f p.2)) key) = read (pairs.get key) := by
  induction pairs with
  | nil => rfl
  | cons p ps ih =>
    rw [List.forall_mem_cons] at h
    have ih := ih h.2
    unfold Pairs.get at ih ⊢
    rw [List.map_cons, List.find?_cons, List.find?_cons]
    by_cases hkey : p.1 = key
    · rw [decide_eq_true hkey]
      exact h.1
    · rw [decide_eq_false hkey]
      exact ih

theorem parse_object_eq (hkeys : (pairs.map Prod.fst).Nodup) (h : ∀ p ∈ pairs, p.2.Printable) :
    parse capacity nestingLimit (serialize (.object pairs)) =
      if (JsonVariant.object pairs).depth ≤ nestingLimit ∧
          (JsonVariant.object pairs).used 0 ≤ capacity then
        some (pairs.map fun p => (p.1, p.2.reparsed))
      else none := by
  have hvalues : ∀ p ∈ pairs, RoundTrips p.2 := fun p hp => parse_value p.2 (h p hp)
  unfold parse
  rw [← List.append_nil (serialize (.object pairs)), parse_object hkeys hvalues (le_refl _)]
  split_ifs <;> rfl

end Json

end DollMachine
