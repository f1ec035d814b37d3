import DollMachine.Json.Parser
import Mathlib.Data.List.MinMax

/-!
# Reading what was written

`parse_value`: of a printed value the parser makes `reparsed`, in which strings are strings again
and every other scalar is its text.  It does so when the nesting limit allows the depth of the value
and the buffer has room for `used`, and else it fails.  `reparsed` prints as the value did and reads
as the same integers and strings.
-/

namespace DollMachine

namespace Json

open Arena

/-! ## Values in the buffer -/

theorem sizeOf_elem_lt {v : JsonVariant} {elems : List JsonVariant} (h : v ∈ elems) :
    sizeOf v < sizeOf (JsonVariant.array elems) := by
  have hlt := List.sizeOf_lt_of_mem h
  rw [JsonVariant.array.sizeOf_spec]
  omega

theorem sizeOf_value_lt {p : List Char × JsonVariant} {pairs : Pairs} (h : p ∈ pairs) :
    sizeOf p.2 < sizeOf (JsonVariant.object pairs) := by
  have hlt := List.sizeOf_lt_of_mem h
  obtain ⟨key, value⟩ := p
  rw [Prod.mk.sizeOf_spec] at hlt
  rw [JsonVariant.object.sizeOf_spec]
  dsimp only
  omega

/-- A string that needs no quotes. -/
def IsWord (raw : List Char) : Prop := raw ≠ [] ∧ ∀ c ∈ raw, canBeInNonQuotedString c = true

instance (raw : List Char) : Decidable (IsWord raw) := inferInstanceAs (Decidable (_ ∧ _))

namespace JsonVariant

structure IsScalar (v : JsonVariant) : Prop where
  array (elems : List JsonVariant) : v ≠ array elems
  object (pairs : Pairs) : v ≠ object pairs

/-- Induction over the values in arrays and objects. -/
theorem induction {P : JsonVariant → Prop} (scalar : ∀ v, IsScalar v → P v)
    (array : ∀ elems, (∀ v ∈ elems, P v) → P (array elems))
    (object : ∀ pairs, (∀ p ∈ pairs, P p.2) → P (object pairs)) (v : JsonVariant) : P v := by
  induction h : sizeOf v using Nat.strong_induction_on generalizing v with
  | _ n ih =>
    subst h
    cases v with
    | array elems => exact array elems fun v hv => ih _ (sizeOf_elem_lt hv) v rfl
    | object pairs => exact object pairs fun p hp => ih _ (sizeOf_value_lt hp) p.2 rfl
    | _ => exact scalar _ ⟨nofun, nofun⟩

/-- How deep arrays and objects are nested. -/
def depth : JsonVariant → Nat
  | array elems => (elems.map depth).foldr max 0 + 1
  | object pairs => (pairs.map fun p => depth p.2).foldr max 0 + 1
  | _ => 0
termination_by v => v
decreasing_by
  · exact sizeOf_elem_lt ‹_›
  · exact sizeOf_value_lt ‹_›

/-- The text of a scalar in the buffer. -/
def content : JsonVariant → List Char
  | string (some s) => s
  | v => serialize v

/-- The bytes in use after the value was read, if `n` were before. -/
def used : JsonVariant → Nat → Nat
  | array elems, n =>
    elems.foldl (fun n v => roundSizeUp (used v n) + elemSize) (roundSizeUp n + listSize)
  | object pairs, n =>
    pairs.foldl (fun n p => roundSizeUp (used p.2 (n + p.1.length + 1)) + pairSize)
      (roundSizeUp n + listSize)
  | v, n => n + v.content.length + 1
termination_by v => v
decreasing_by
  · exact sizeOf_elem_lt ‹_›
  · exact sizeOf_value_lt ‹_›

/-- What the parser makes of a printed value. -/
def reparsed : JsonVariant → JsonVariant
  | array elems => array (elems.map reparsed)
  | object pairs => object (pairs.map fun p => (p.1, reparsed p.2))
  | string (some s) => string (some s)
  | v => unparsed (serialize v)
termination_by v => v
decreasing_by
  · exact sizeOf_elem_lt ‹_›
  · exact sizeOf_value_lt ‹_›

/-- A value that prints as JSON which the parser takes: nothing is undefined, raw text is one word,
and no key comes twice. -/
def Printable : JsonVariant → Prop
  | undefined => False
  | unparsed raw => IsWord raw
  | array elems => ∀ v ∈ elems, Printable v
  | object pairs => (pairs.map Prod.fst).Nodup ∧ ∀ p ∈ pairs, Printable p.2
  | _ => True
termination_by v => v
decreasing_by
  · exact sizeOf_elem_lt ‹_›
  · exact sizeOf_value_lt ‹_›

end JsonVariant

/-! ## Tokens -/

variable {α : Type} {p q : Parser α} {cap n fuel limit : Nat} {c d : Char}
  {cs s raw rest : List Char} {v : JsonVariant}

/-- What `skipSpacesAndComments` stops at. -/
def IsVisible (c : Char) : Prop := isSpace c = false ∧ c ≠ '/'

instance (c : Char) : Decidable (IsVisible c) := inferInstanceAs (Decidable (_ ∧ _))

theorem IsVisible.skip (h : IsVisible c) : skipSpacesAndComments (c :: cs) = c :: cs := by
  unfold skipSpacesAndComments
  rw [skipFrom, h.1, if_neg Bool.false_ne_true]
  · rintro _ rfl
    exact absurd rfl h.2
  · rintro _ rfl
    exact absurd rfl h.2

theorem isVisible_of_canBeInNonQuotedString (h : canBeInNonQuotedString c = true) :
    IsVisible c := by
  have hne {d : Char} (hd : canBeInNonQuotedString d = false) : c ≠ d := by
    rintro rfl
    exact Bool.false_ne_true (hd.symm.trans h)
  exact ⟨by simp [isSpace, hne (d := ' ') rfl, hne (d := '\t') rfl, hne (d := '\r') rfl,
    hne (d := '\n') rfl], hne rfl⟩

theorem eat_true (h : IsVisible c) :
    (do if ← eat c then p else q : Parser α) cap (c :: cs) n = p cap cs n := by
  refine bind_of_eq_some (x := (true, cs, n)) ?_
  simp [eat, h.skip]

theorem eat_false (h : IsVisible d) (hne : d ≠ c) :
    (do if ← eat c then p else q : Parser α) cap (d :: cs) n = q cap (d :: cs) n := by
  refine bind_of_eq_some (x := (false, d :: cs, n)) ?_
  simp [eat, h.skip, hne]

/-- The characters with which a printed value begins. -/
def Opens (c : Char) : Prop := canBeInNonQuotedString c = true ∨ c ∈ ['"', '[', '{']

instance (c : Char) : Decidable (Opens c) := inferInstanceAs (Decidable (_ ∨ _))

theorem Opens.isVisible (h : Opens c) : IsVisible c := by
  rcases h with h | h
  · exact isVisible_of_canBeInNonQuotedString h
  · have hall : ∀ c ∈ ['"', '[', '{'], IsVisible c := by decide
    exact hall c h

theorem Opens.ne (h : Opens c) (hd : ¬ Opens d) : c ≠ d := by
  rintro rfl
  exact hd h

theorem eat_opens (h : ∃ c' cs', cs = c' :: cs' ∧ Opens c') (hc : ¬ Opens c) :
    (do if ← eat c then p else q : Parser α) cap (cs ++ rest) n = q cap (cs ++ rest) n := by
  obtain ⟨c', cs', rfl, hc'⟩ := h
  rw [List.cons_append, eat_false hc'.isVisible (hc'.ne hc)]

/-- What does not continue a word. -/
def Stops (rest : List Char) : Prop := ∀ c ∈ rest.head?, canBeInNonQuotedString c = false

theorem isWord_numeral (n : Nat) : IsWord (Numeral.numeral 10 n) :=
  ⟨Numeral.numeral_ne_nil (by decide) n, Numeral.forall_mem_numeral (by decide) (by decide) n⟩

theorem isWord_writeInteger (n : UInt32) : IsWord (writeInteger n) := by
  rw [writeInteger_eq]
  exact isWord_numeral _

theorem IsWord.cons (hc : canBeInNonQuotedString c = true) (h : IsWord raw) : IsWord (c :: raw) :=
  ⟨List.cons_ne_nil _ _, List.forall_mem_cons.2 ⟨hc, h.2⟩⟩

/-- Every scalar that is not a string prints as a word. -/
theorem isWord_serialize (h : v.Printable) (hstring : ∀ s, v ≠ .string (some s))
    (hscalar : v.IsScalar) : IsWord (serialize v) := by
  cases v with
  | undefined =>
    rw [JsonVariant.Printable] at h
    exact h.elim
  | unparsed raw => rwa [JsonVariant.Printable] at h
  | string s =>
    cases s with
    | none => decide
    | some s => exact absurd rfl (hstring s)
  | boolean b => cases b <;> decide
  | positiveInteger n => exact isWord_writeInteger n
  | negativeInteger n => exact (isWord_writeInteger n).cons rfl
  | array elems => exact absurd rfl (hscalar.array elems)
  | object pairs => exact absurd rfl (hscalar.object pairs)

theorem quoted_flatMap_writeChar :
    quoted '"' (s.flatMap writeChar ++ '"' :: rest) = (s, rest) := by
  induction s with
  | nil =>
    unfold quoted
    exact if_pos rfl
  | cons c s ih =>
    rw [List.flatMap_cons, List.append_assoc]
    cases h : escapeChar c with
    | some e =>
      have hchar : writeChar c = ['\\', e] := by rw [writeChar, h]
      rw [hchar, List.cons_append, List.cons_append, List.nil_append, quoted,
        if_neg (by decide), if_pos rfl, ih, unescapeChar_of_escapeChar h]
      rfl
    | none =>
      have hchar : writeChar c = [c] := by rw [writeChar, h]
      obtain ⟨hquote, hslash⟩ := escapeChar_eq_none h
      rw [hchar, List.cons_append, List.nil_append]
      unfold quoted
      rw [if_neg hquote, if_neg hslash, ih]
      rfl

theorem scanString_writeString : scanString (writeString s ++ rest) = (s, rest) := by
  unfold scanString writeString
  rw [List.append_assoc, List.cons_append, IsVisible.skip (by decide)]
  exact quoted_flatMap_writeChar

theorem scanString_word (h : IsWord raw) (hrest : Stops rest) :
    scanString (raw ++ rest) = (raw, rest) := by
  obtain ⟨c, cs, rfl⟩ := List.exists_cons_of_ne_nil h.1
  have hc : canBeInNonQuotedString c = true := h.2 c (List.mem_cons_self ..)
  have hquote : isQuote c = false := by
    by_contra hquote
    rw [Bool.not_eq_false, isQuote, decide_eq_true_iff] at hquote
    rcases hquote with rfl | rfl <;> exact absurd hc (by decide)
  unfold scanString
  rw [List.cons_append, (isVisible_of_canBeInNonQuotedString hc).skip]
  dsimp only
  rw [hquote, if_neg Bool.false_ne_true, ← List.cons_append, List.span_eq_takeWhile_dropWhile,
    List.takeWhile_append_of_pos h.2, List.dropWhile_append_of_pos h.2]
  cases rest with
  | nil => simp
  | cons d rest =>
    have hd : ¬ canBeInNonQuotedString d = true := by simpa using hrest d rfl
    rw [List.takeWhile_cons_of_neg hd, List.dropWhile_cons_of_neg hd, List.append_nil]

/-! ## Scalars -/

theorem head_serialize (h : v.Printable) : ∃ c cs, serialize v = c :: cs ∧ Opens c := by
  have hword (h : IsWord (serialize v)) : ∃ c cs, serialize v = c :: cs ∧ Opens c := by
    obtain ⟨c, cs, hcs⟩ := List.exists_cons_of_ne_nil h.1
    exact ⟨c, cs, hcs, .inl (h.2 c (hcs ▸ List.mem_cons_self ..))⟩
  cases v with
  | string s =>
    cases s with
    | none => exact hword (by decide)
    | some s => exact ⟨'"', _, rfl, by decide⟩
  | array elems => exact ⟨'[', _, rfl, by decide⟩
  | object pairs => exact ⟨'{', _, rfl, by decide⟩
  | _ => exact hword (isWord_serialize h (by simp) ⟨by simp, by simp⟩)

theorem skip_current {f : Option Char → Parser α} (h : IsVisible c) :
    (skip >>= fun _ => current >>= f) cap (c :: cs) n = f (some c) cap (c :: cs) n := by
  have hskip : skip cap (c :: cs) n = some ((), c :: cs, n) := by simp [skip, h.skip]
  rw [bind_of_eq_some hskip, bind_of_eq_some (x := (some c, c :: cs, n)) rfl]

theorem parseAnything_array (h : cs.head? = some '[') :
    parseAnything (fuel + 1) limit cap cs n =
      (parseArray fuel limit cap cs n).map fun x => (.array x.1, x.2) := by
  obtain ⟨cs, rfl⟩ := List.head?_eq_some_iff.1 h
  rw [parseAnything, skip_current (by decide), Option.map_eq_bind]
  rfl

theorem parseAnything_object (h : cs.head? = some '{') :
    parseAnything (fuel + 1) limit cap cs n =
      (parseObject fuel limit cap cs n).map fun x => (.object x.1, x.2) := by
  obtain ⟨cs, rfl⟩ := List.head?_eq_some_iff.1 h
  rw [parseAnything, skip_current (by decide), Option.map_eq_bind]
  rfl

theorem parseAnything_scalar (h : Opens c) (harray : c ≠ '[') (hobject : c ≠ '{') :
    parseAnything (fuel + 1) limit cap (c :: cs) n = (parseString cap (c :: cs) n).map
      fun x => (if isQuote c then .string (some x.1) else .unparsed x.1, x.2) := by
  have hne : some c ≠ some '[' ∧ some c ≠ some '{' := by simp [harray, hobject]
  rw [parseAnything, skip_current h.isVisible]
  generalize hd : some c = d at hne
  split
  · exact absurd rfl hne.1
  · exact absurd rfl hne.2
  · rw [← hd, Option.map_eq_bind]
    rfl

theorem parse_string (hn : n ≤ cap) : parseAnything (fuel + 1) limit cap (writeString s ++ rest) n =
    fit cap (some (.string (some s), rest, n + s.length + 1)) := by
  have h := parseString_apply (writeString s ++ rest) hn
  rw [scanString_writeString] at h
  unfold writeString at h ⊢
  rw [List.append_assoc, List.cons_append] at h ⊢
  rw [parseAnything_scalar (by decide) (by decide) (by decide), h, fit_some, fit_some]
  split_ifs <;> first | rfl | contradiction

theorem parse_word (h : IsWord raw) (hrest : Stops rest) (hn : n ≤ cap) :
    parseAnything (fuel + 1) limit cap (raw ++ rest) n =
      fit cap (some (.unparsed raw, rest, n + raw.length + 1)) := by
  have happly := parseString_apply (raw ++ rest) hn
  rw [scanString_word h hrest] at happly
  obtain ⟨c, cs, rfl⟩ := List.exists_cons_of_ne_nil h.1
  have hc : canBeInNonQuotedString c = true := h.2 c (List.mem_cons_self ..)
  have hne {d : Char} (hd : canBeInNonQuotedString d = false) : c ≠ d := by
    rintro rfl
    exact Bool.false_ne_true (hd.symm.trans hc)
  have hquote : ¬ isQuote c = true := by simp [isQuote, hne (d := '\'') rfl, hne (d := '"') rfl]
  rw [List.cons_append] at happly ⊢
  rw [parseAnything_scalar (.inl hc) (hne rfl) (hne rfl), happly, fit_some, fit_some]
  split_ifs <;> rfl

theorem parse_scalar (h : v.Printable) (hscalar : v.IsScalar) (hrest : Stops rest) (hn : n ≤ cap) :
    parseAnything (fuel + 1) limit cap (serialize v ++ rest) n =
      fit cap (some (v.reparsed, rest, n + v.content.length + 1)) := by
  by_cases hstring : ∃ s, v = .string (some s)
  · obtain ⟨s, rfl⟩ := hstring
    rw [JsonVariant.reparsed]
    exact parse_string hn
  · have hne (s : List Char) : v ≠ .string (some s) := fun hs => hstring ⟨s, hs⟩
    rw [JsonVariant.reparsed, JsonVariant.content]
    · exact parse_word (isWord_serialize h hne hscalar) hrest hn
    · exact hne
    · exact hscalar.array
    · exact hscalar.object
    · exact hne

theorem depth_scalar (h : v.IsScalar) : v.depth = 0 := by
  rw [JsonVariant.depth]
  · exact h.array
  · exact h.object

theorem used_scalar (h : v.IsScalar) (n : Nat) : v.used n = n + v.content.length + 1 := by
  rw [JsonVariant.used]
  · exact h.array
  · exact h.object

/-! ## Lists -/

section Items

variable {ι β : Type} {step : Nat → List β → Parser (List β)} {close : Char} {items : List ι}

theorem le_foldl (items : List ι) {size : Nat → ι → Nat} (h : ∀ n, ∀ x ∈ items, n ≤ size n x)
    (n : Nat) : n ≤ items.foldl size n := by
  induction items generalizing n with
  | nil => exact le_refl n
  | cons x items ih =>
    rw [List.foldl_cons]
    exact (h n x (List.mem_cons_self ..)).trans
      (ih (fun n y hy => h n y (List.mem_cons_of_mem x hy)) _)

/-- The loop over the items of an array or an object: if every item is read as `result`, provided
that it is `ok` and fits, then all are. -/
theorem run_items (loop : Nat → List β → Parser (List β)) (join : List ι → List Char)
    (text : ι → List Char) (result : ι → β) (ok : ι → Prop) [DecidablePred ok]
    (size : ι → Nat → Nat)
    (hloop : ∀ fuel acc, loop (fuel + 1) acc = (step fuel acc >>= fun acc => do
      if ← eat close then return acc
      else if ← eat ',' then loop fuel acc
      else fail))
    (hone : ∀ x, join [x] = text x)
    (hmore : ∀ x y todo, join (x :: y :: todo) = text x ++ ',' :: join (y :: todo))
    (hstep : ∀ done x todo, items = done ++ x :: todo → ∀ fuel rest n, Stops rest →
      3 * (text x ++ rest).length + 2 ≤ fuel → n ≤ cap →
        step fuel (done.map result) cap (text x ++ rest) n =
          if ok x ∧ size x n ≤ cap then some (done.map result ++ [result x], rest, size x n)
          else none)
    (hsize : ∀ x n, n ≤ size x n) (hclose : IsVisible close) (hcomma : ',' ≠ close)
    (hstops : canBeInNonQuotedString close = false) (done : List ι) (x : ι) (todo : List ι)
    (hitems : items = done ++ x :: todo)
    (hfuel : 3 * (join (x :: todo) ++ close :: rest).length + 3 ≤ fuel) (hn : n ≤ cap) :
    loop fuel (done.map result) cap (join (x :: todo) ++ close :: rest) n =
      if (∀ y ∈ x :: todo, ok y) ∧ (x :: todo).foldl (fun n x => size x n) n ≤ cap then
        some (items.map result, rest, (x :: todo).foldl (fun n x => size x n) n)
      else none := by
  induction todo generalizing done x fuel n with
  | nil =>
    cases fuel with
    | zero => omega
    | succ fuel =>
      have hx := hstep done x [] hitems fuel (close :: rest) n (by simpa [Stops] using hstops)
      rw [hone] at hfuel ⊢
      rw [hloop, bind_of_eq_ite (hx (by omega) hn), eat_true hclose, pure_apply, hitems]
      simp
  | cons y todo ih =>
    cases fuel with
    | zero => omega
    | succ fuel =>
      have hx := hstep done x (y :: todo) hitems fuel (',' :: join (y :: todo) ++ close :: rest) n
        (by simp [Stops]; decide)
      rw [hmore, List.append_assoc] at hfuel ⊢
      rw [hloop, bind_of_eq_ite (hx (by omega) hn)]
      have hle := le_foldl (y :: todo) (fun n x _ => hsize x n) (size x n)
      rw [List.foldl_cons]
      by_cases hok : ok x ∧ size x n ≤ cap
      · have hrest := @ih (size x n) fuel (done ++ [x]) y
          (by rw [hitems, List.append_assoc]; rfl)
          (by simp only [List.length_append, List.length_cons] at hfuel ⊢; omega) hok.2
        rw [List.map_append] at hrest
        rw [if_pos hok]
        dsimp only
        rw [List.cons_append, eat_false (by decide) hcomma, eat_true (by decide)]
        refine hrest.trans (if_congr ?_ rfl rfl)
        rw [List.forall_mem_cons (a := x), and_iff_right hok.1]
      · rw [if_neg hok, if_neg]
        rintro ⟨hall, hcap⟩
        exact hok ⟨hall x (List.mem_cons_self ..), hle.trans hcap⟩

end Items

/-- The item that is read from `n` bytes to `m` grows further by its node. -/
theorem le_node {n m : Nat} (h : n ≤ m) (bytes : Nat) : n ≤ roundSizeUp m + bytes :=
  (h.trans (le_roundSizeUp m)).trans (Nat.le_add_right _ _)

theorem le_used_array {elems : List JsonVariant} (h : ∀ v ∈ elems, ∀ n, n ≤ v.used n) (n : Nat) :
    roundSizeUp n + listSize ≤ (JsonVariant.array elems).used n := by
  rw [JsonVariant.used]
  exact le_foldl elems (fun n v hv => le_node (h v hv n) elemSize) _

theorem le_used_object {pairs : Pairs} (h : ∀ p ∈ pairs, ∀ n, n ≤ p.2.used n) (n : Nat) :
    roundSizeUp n + listSize ≤ (JsonVariant.object pairs).used n := by
  rw [JsonVariant.used]
  refine le_foldl pairs (fun n p hp => le_node ?_ pairSize) _
  exact (Nat.le_add_right n (p.1.length + 1)).trans (h p hp _)

theorem le_used (v : JsonVariant) (n : Nat) : n ≤ v.used n := by
  induction v using JsonVariant.induction generalizing n with
  | scalar v h =>
    rw [used_scalar h]
    omega
  | array elems ih => exact (le_node (le_refl n) listSize).trans (le_used_array ih n)
  | object pairs ih => exact (le_node (le_refl n) listSize).trans (le_used_object ih n)

/-- The round trip of a value, wherever it stands in a text. -/
def RoundTrips (v : JsonVariant) : Prop :=
  ∀ ⦃fuel limit cap n rest⦄, Stops rest → 3 * (serialize v ++ rest).length + 2 ≤ fuel → n ≤ cap →
    parseAnything fuel limit cap (serialize v ++ rest) n =
      if v.depth ≤ limit ∧ v.used n ≤ cap then some (v.reparsed, rest, v.used n) else none

theorem parseElems_succ {array : List JsonVariant} : parseElems (fuel + 1) limit array =
    ((do
      let value ← parseAnything fuel limit
      alloc elemSize
      return array ++ [value]) >>= fun array => do
      if ← eat ']' then return array
      else if ← eat ',' then parseElems fuel limit array
      else fail) := by
  rw [parseElems]
  simp only [bind_assoc]
  rfl

theorem alloc_apply {bytes : Nat} : alloc bytes cap cs n =
    if roundSizeUp n + bytes ≤ cap then some ((), cs, roundSizeUp n + bytes) else none := rfl

theorem head_serializeElems {vs : List JsonVariant} (h : ∀ w ∈ v :: vs, w.Printable) :
    ∃ c cs, serializeElems (v :: vs) = c :: cs ∧ Opens c := by
  obtain ⟨c, cs, hcs, hc⟩ := head_serialize (h v (List.mem_cons_self ..))
  cases vs with
  | nil => exact ⟨c, cs, hcs, hc⟩
  | cons w vs =>
    refine ⟨c, cs ++ ',' :: serializeElems (w :: vs), ?_, hc⟩
    rw [serializeElems_cons, hcs, List.cons_append]

theorem head_serializePairs (p : List Char × JsonVariant) (ps : Pairs) :
    ∃ c cs, serializePairs (p :: ps) = c :: cs ∧ Opens c := by
  obtain ⟨key, value⟩ := p
  cases ps with
  | nil => exact ⟨'"', _, rfl, by decide⟩
  | cons q ps => exact ⟨'"', _, rfl, by decide⟩

theorem ite_ite_le {γ : Type} {c : Prop} [Decidable c] {a b : Nat} {x : Option γ} (h : a ≤ b) :
    (if c ∧ a ≤ cap then (if b ≤ cap then x else none) else none) =
      if c ∧ b ≤ cap then x else none := by
  split_ifs <;> grind

theorem depth_array_le {elems : List JsonVariant} :
    (JsonVariant.array elems).depth ≤ limit + 1 ↔ ∀ v ∈ elems, v.depth ≤ limit := by
  rw [JsonVariant.depth, Nat.succ_le_succ_iff]
  constructor
  · intro h v hv
    exact (List.le_max_of_le (List.mem_map_of_mem hv) (le_refl _)).trans h
  · intro h
    exact List.max_le_of_forall_le _ _ (List.forall_mem_map.2 h)

theorem depth_object_le {pairs : Pairs} :
    (JsonVariant.object pairs).depth ≤ limit + 1 ↔ ∀ p ∈ pairs, p.2.depth ≤ limit := by
  rw [JsonVariant.depth, Nat.succ_le_succ_iff]
  constructor
  · intro h p hp
    exact (List.le_max_of_le (List.mem_map_of_mem hp) (le_refl _)).trans h
  · intro h
    exact List.max_le_of_forall_le _ _ (List.forall_mem_map.2 h)

theorem parse_elems {elems : List JsonVariant} (h : elems ≠ []) (ih : ∀ v ∈ elems, RoundTrips v)
    (hfuel : 3 * (serializeElems elems ++ ']' :: rest).length + 3 ≤ fuel) (hn : n ≤ cap) :
    parseElems fuel limit [] cap (serializeElems elems ++ ']' :: rest) n =
      if (∀ v ∈ elems, v.depth ≤ limit) ∧
          elems.foldl (fun n v => roundSizeUp (v.used n) + elemSize) n ≤ cap then
        some (elems.map JsonVariant.reparsed, rest,
          elems.foldl (fun n v => roundSizeUp (v.used n) + elemSize) n)
      else none := by
  obtain ⟨v, vs, rfl⟩ := List.exists_cons_of_ne_nil h
  refine run_items (fun fuel => parseElems fuel limit) serializeElems serialize
    JsonVariant.reparsed (fun v => v.depth ≤ limit) (fun v n => roundSizeUp (v.used n) + elemSize)
    (fun fuel array => parseElems_succ) serializeElems_singleton serializeElems_cons ?_
    (fun v n => le_node (le_used v n) elemSize) (by decide) (by decide) (by decide) [] v vs rfl
    hfuel hn
  intro done x todo hitems fuel rest n hrest hfuel hn
  have hx : x ∈ v :: vs := hitems ▸ List.mem_append_right _ (List.mem_cons_self ..)
  rw [bind_of_eq_ite (ih x hx hrest hfuel hn), bind_of_eq_ite alloc_apply]
  exact ite_ite_le (le_node (le_refl _) elemSize)

theorem parse_array {elems : List JsonVariant} (h : ∀ v ∈ elems, v.Printable)
    (ih : ∀ v ∈ elems, RoundTrips v)
    (hfuel : 3 * (serialize (.array elems) ++ rest).length + 1 ≤ fuel) :
    parseArray fuel limit cap (serialize (.array elems) ++ rest) n =
      if (JsonVariant.array elems).depth ≤ limit ∧ (JsonVariant.array elems).used n ≤ cap then
        some (elems.map JsonVariant.reparsed, rest, (JsonVariant.array elems).used n)
      else none := by
  cases fuel with
  | zero => omega
  | succ fuel =>
    cases limit with
    | zero =>
      rw [JsonVariant.depth, if_neg (by omega)]
      rfl
    | succ limit =>
      rw [JsonVariant.used]
      simp only [depth_array_le]
      rw [serialize_array, List.cons_append, List.cons_append, List.append_assoc,
        List.singleton_append] at *
      rw [List.length_cons] at hfuel
      rw [parseArray, bind_of_eq_ite alloc_apply]
      by_cases hlist : roundSizeUp n + listSize ≤ cap
      · rw [if_pos hlist]
        dsimp only
        rw [eat_true (by decide)]
        cases elems with
        | nil =>
          rw [serializeElems_nil, List.nil_append, eat_true (by decide), pure_apply]
          simp [hlist]
        | cons v vs =>
          rw [eat_opens (head_serializeElems h) (by decide)]
          exact parse_elems (List.cons_ne_nil _ _) ih (by omega) hlist
      · rw [if_neg hlist, if_neg]
        rintro ⟨-, hused⟩
        rw [← JsonVariant.used] at hused
        exact hlist ((le_used_array (fun v _ => le_used v) n).trans hused)

theorem fail_bind {β : Type} (f : α → Parser β) : (fail >>= f) = fail := rfl

theorem ite_bind {β : Type} {b : Bool} (p q : Parser α) (f : α → Parser β) :
    ((if b then p else q) >>= f) = if b then p >>= f else q >>= f := by
  cases b <;> rfl

theorem parsePairs_succ {object : Pairs} : parsePairs (fuel + 1) limit object =
    ((do
      let key ← parseString
      if ← eat ':' then
        let value ← parseAnything fuel limit
        set object key value
      else fail) >>= fun object => do
      if ← eat '}' then return object
      else if ← eat ',' then parsePairs fuel limit object
      else fail) := by
  rw [parsePairs]
  simp only [bind_assoc, ite_bind, fail_bind]

theorem set_apply {object : Pairs} {key : List Char} (h : key ∉ object.map Prod.fst) :
    set object key v cap cs n = if roundSizeUp n + pairSize ≤ cap then
      some (object ++ [(key, v)], cs, roundSizeUp n + pairSize) else none := by
  unfold set
  rw [if_neg h, bind_of_eq_ite alloc_apply]
  rfl

theorem parse_pair {object : Pairs} {p : List Char × JsonVariant} (h : RoundTrips p.2)
    (hkey : p.1 ∉ object.map Prod.fst) (hrest : Stops rest)
    (hfuel : 3 * (serializePair p ++ rest).length + 2 ≤ fuel) (hn : n ≤ cap) :
    (do
      let key ← parseString
      if ← eat ':' then
        let value ← parseAnything fuel limit
        set object key value
      else fail : Parser Pairs) cap (serializePair p ++ rest) n =
      if p.2.depth ≤ limit ∧ roundSizeUp (p.2.used (n + p.1.length + 1)) + pairSize ≤ cap then
        some (object ++ [(p.1, p.2.reparsed)], rest,
          roundSizeUp (p.2.used (n + p.1.length + 1)) + pairSize)
      else none := by
  obtain ⟨key, value⟩ := p
  rw [serializePair_mk, List.append_assoc, List.cons_append] at *
  have hstring := parseString_apply (writeString key ++ ':' :: (serialize value ++ rest)) hn
  rw [scanString_writeString, fit_some] at hstring
  rw [bind_of_eq_ite hstring]
  dsimp only
  have hle := le_used value (n + key.length + 1)
  by_cases hsize : n + key.length + 1 ≤ cap
  · have hlength : 3 * (serialize value ++ rest).length + 2 ≤ fuel := by
      rw [List.length_append, List.length_cons] at hfuel
      omega
    rw [if_pos hsize, eat_true (by decide), bind_of_eq_ite (h hrest hlength hsize)]
    dsimp only
    rw [set_apply hkey]
    exact ite_ite_le (le_node (le_refl _) pairSize)
  · rw [if_neg hsize, if_neg]
    rintro ⟨-, hcap⟩
    exact hsize ((le_node hle pairSize).trans hcap)

theorem parse_pairs {pairs : Pairs} (h : pairs ≠ []) (hkeys : (pairs.map Prod.fst).Nodup)
    (ih : ∀ p ∈ pairs, RoundTrips p.2)
    (hfuel : 3 * (serializePairs pairs ++ '}' :: rest).length + 3 ≤ fuel) (hn : n ≤ cap) :
    parsePairs fuel limit [] cap (serializePairs pairs ++ '}' :: rest) n =
      if (∀ p ∈ pairs, p.2.depth ≤ limit) ∧
          pairs.foldl (fun n p => roundSizeUp (p.2.used (n + p.1.length + 1)) + pairSize) n ≤
            cap then
        some (pairs.map fun p => (p.1, p.2.reparsed), rest,
          pairs.foldl (fun n p => roundSizeUp (p.2.used (n + p.1.length + 1)) + pairSize) n)
      else none := by
  obtain ⟨p, ps, rfl⟩ := List.exists_cons_of_ne_nil h
  refine run_items (fun fuel => parsePairs fuel limit) serializePairs serializePair
    (fun p => (p.1, p.2.reparsed)) (fun p => p.2.depth ≤ limit)
    (fun p n => roundSizeUp (p.2.used (n + p.1.length + 1)) + pairSize)
    (fun fuel object => parsePairs_succ) serializePairs_singleton serializePairs_cons ?_
    (fun p n => le_node ((Nat.le_add_right n (p.1.length + 1)).trans (le_used p.2 _)) pairSize)
    (by decide) (by decide) (by decide) [] p ps rfl hfuel hn
  intro done x todo hitems fuel rest n hrest hfuel hn
  have hx : x ∈ p :: ps := hitems ▸ List.mem_append_right _ (List.mem_cons_self ..)
  have hnew : x.1 ∉ (done.map fun p => (p.1, p.2.reparsed)).map Prod.fst := by
    rw [hitems, List.map_append, List.nodup_append] at hkeys
    rw [List.map_map]
    intro hmem
    exact hkeys.2.2 x.1 hmem x.1 (List.mem_cons_self ..) rfl
  exact parse_pair (ih x hx) hnew hrest hfuel hn

theorem parse_object {pairs : Pairs} (hkeys : (pairs.map Prod.fst).Nodup)
    (ih : ∀ p ∈ pairs, RoundTrips p.2)
    (hfuel : 3 * (serialize (.object pairs) ++ rest).length + 1 ≤ fuel) :
    parseObject fuel limit cap (serialize (.object pairs) ++ rest) n =
      if (JsonVariant.object pairs).depth ≤ limit ∧ (JsonVariant.object pairs).used n ≤ cap then
        some (pairs.map fun p => (p.1, p.2.reparsed), rest, (JsonVariant.object pairs).used n)
      else none := by
  cases fuel with
  | zero => omega
  | succ fuel =>
    cases limit with
    | zero =>
      rw [JsonVariant.depth, if_neg (by omega)]
      rfl
    | succ limit =>
      rw [JsonVariant.used]
      simp only [depth_object_le]
      rw [serialize_object, List.cons_append, List.cons_append, List.append_assoc,
        List.singleton_append] at *
      rw [List.length_cons] at hfuel
      rw [parseObject, bind_of_eq_ite alloc_apply]
      by_cases hlist : roundSizeUp n + listSize ≤ cap
      · rw [if_pos hlist]
        dsimp only
        rw [eat_true (by decide)]
        cases pairs with
        | nil =>
          rw [serializePairs_nil, List.nil_append, eat_true (by decide), pure_apply]
          simp [hlist]
        | cons p ps =>
          rw [eat_opens (head_serializePairs p ps) (by decide)]
          exact parse_pairs (List.cons_ne_nil _ _) hkeys ih (by omega) hlist
      · rw [if_neg hlist, if_neg]
        rintro ⟨-, hused⟩
        rw [← JsonVariant.used] at hused
        exact hlist ((le_used_object (fun p _ => le_used p.2) n).trans hused)

/-- Every value in a printable text is read as `reparsed`, if nesting and memory allow it. -/
theorem parse_value (v : JsonVariant) (h : v.Printable) : RoundTrips v := by
  induction v using JsonVariant.induction with
  | scalar v hscalar =>
    intro fuel limit cap n rest hrest hfuel hn
    cases fuel with
    | zero => omega
    | succ fuel =>
      rw [parse_scalar h hscalar hrest hn, depth_scalar hscalar, used_scalar hscalar, fit_some]
      simp only [Nat.zero_le, true_and]
  | array elems ih =>
    intro fuel limit cap n rest hrest hfuel hn
    rw [JsonVariant.Printable] at h
    cases fuel with
    | zero => omega
    | succ fuel =>
      rw [JsonVariant.reparsed, parseAnything_array rfl,
        parse_array h (fun v hv => ih v hv (h v hv)) (by omega)]
      split_ifs <;> rfl
  | object pairs ih =>
    intro fuel limit cap n rest hrest hfuel hn
    rw [JsonVariant.Printable] at h
    cases fuel with
    | zero => omega
    | succ fuel =>
      rw [JsonVariant.reparsed, parseAnything_object rfl,
        parse_object h.1 (fun p hp => ih p hp (h.2 p hp)) (by omega)]
      split_ifs <;> rfl

end Json

end DollMachine
