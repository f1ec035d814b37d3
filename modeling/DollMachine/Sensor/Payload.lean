import DollMachine.Json.Reading

/-!
# The text of a record

What `Firebase.set` sends for a record: the object that the sketch builds in a buffer of 200 bytes,
printed as JSON, and the path, whose last part is the key in decimal.

`decode_body`: the buffer always has room, and a reader of the text gets the record back.
-/

namespace DollMachine

namespace Sensor

open Json

/-! ## Numbers as text -/

/-- The loop of `ltoa` to the base 10. -/
def ltoaLoop (quotient : Nat) (out : List Char) : List Char :=
  let tmp := quotient / 10
  let out := out ++ [Numeral.digit (quotient - tmp * 10)]
  if tmp = 0 then out else ltoaLoop tmp out
termination_by quotient
decreasing_by omega

/-- `ltoa` to the base 10; of the least `long`, which has no absolute value, it is undefined. -/
def ltoa (value : Int) : List Char :=
  let out := ltoaLoop value.natAbs []
  (if value < 0 then out ++ ['-'] else out).reverse

/-! ## Building the object -/

/-- A `StaticJsonBuffer` that holds an object: the bytes in use, and the pairs. -/
structure Document where
  size : Nat
  pairs : Pairs

/-- What the sketch assigns: an `int`, or a `String`, which is copied into the buffer. -/
inductive Source
  | int (value : Int)
  | text (s : List Char)

namespace Document

/-- `alloc`; without room, the bytes that it skips are in use all the same. -/
def alloc (capacity bytes : Nat) (d : Document) : Bool × Document :=
  let size := roundSizeUp d.size
  if size + bytes ≤ capacity then (true, { d with size := size + bytes })
  else (false, { d with size := size })

def createObject (capacity : Nat) : Option Document :=
  match alloc capacity listSize ⟨0, []⟩ with
  | (true, d) => some d
  | (false, _) => none

/-- `ValueSaver::save`. -/
def save (capacity : Nat) (d : Document) : Source → Option JsonVariant × Document
  | .int value => (some (.ofInt value), d)
  | .text s =>
    match d.alloc capacity (s.length + 1) with
    | (true, d) => (some (.string (some s)), d)
    | (false, d) => (none, d)

/-- `set_impl`; a key is a literal, which is not copied. -/
def set (capacity : Nat) (d : Document) (key : List Char) (source : Source) : Document :=
  let r :=
    if key ∈ d.pairs.map Prod.fst then (true, d)
    else
      match d.alloc capacity pairSize with
      | (true, d) => (true, { d with pairs := d.pairs ++ [(key, .undefined)] })
      | (false, d) => (false, d)
  if r.1 then
    match r.2.save capacity source with
    | (some value, d) =>
      { d with pairs := d.pairs.map fun p => if p.1 = key then (key, value) else p }
    | (none, d) => d
  else r.2

end Document

/-- The buffer after the assignments of `loop`. -/
def document (capacity : Nat) (object : RawData) : Option Document := do
  let d ← Document.createObject capacity
  let d := d.set capacity "coin".toList (.int object.coin)
  let d := d.set capacity "goods".toList (.int object.goods)
  let d := d.set capacity "machine_num".toList (.int object.machineNum)
  return d.set capacity "timestamp".toList (.text (ltoa object.timestamp))

/-- The payload of the request; an invalid object prints as an empty one. -/
def body (object : RawData) : List Char :=
  (document 200 object).elim "{}".toList fun d => serialize (.object d.pairs)

def path (key : Int) : List Char := "/rawData/2/".toList ++ ltoa key

/-- Reading the text of a record with the JSON library. -/
def decode (text : List Char) : Option RawData := do
  let pairs ← parse 200 10 text
  return ⟨← (pairs.get "coin".toList).asInteger, ← (pairs.get "goods".toList).asInteger,
    ← (pairs.get "machine_num".toList).asInteger, ← (pairs.get "timestamp".toList).asInteger⟩

/-! ## Properties -/

variable {n : Int} {capacity size : Nat} {ps : Pairs} {key : List Char} {object : RawData}

theorem ltoaLoop_eq (n : Nat) (out : List Char) :
    ltoaLoop n out = out ++ (Numeral.numeral 10 n).reverse := by
  have hmod (n : Nat) : n - n / 10 * 10 = n % 10 := by omega
  induction n using Numeral.digits_induction (by decide : 1 < 10) generalizing out with
  | small n h =>
    rw [ltoaLoop, hmod, if_pos (Nat.div_eq_of_lt h), Nat.mod_eq_of_lt h, Numeral.numeral_of_lt h]
    rfl
  | step n h ih =>
    rw [ltoaLoop, hmod, if_neg (by omega), ih, Numeral.numeral_step (by decide) h,
      List.reverse_append, List.append_assoc]
    rfl

theorem ltoa_eq (value : Int) : ltoa value =
    (if value < 0 then ['-'] else []) ++ Numeral.numeral 10 value.natAbs := by
  unfold ltoa
  rw [ltoaLoop_eq]
  split_ifs <;> simp

/-- The values of an `int` or a `long`. -/
def IsLong (n : Int) : Prop := -2 ^ 31 ≤ n ∧ n < 2 ^ 31

instance (n : Int) : Decidable (IsLong n) := inferInstanceAs (Decidable (_ ∧ _))

theorem IsLong.wrap32 (h : IsLong n) : wrap32 n = n := Int.bmod_eq_of_le (by have := h.1; omega)
  (by have := h.2; omega)

theorem length_ltoa_le (h : IsLong n) : (ltoa n).length ≤ 11 := by
  obtain ⟨hlow, hhigh⟩ := h
  have hlength : (Numeral.numeral 10 n.natAbs).length ≤ 10 :=
    Numeral.length_numeral_le (by decide) (by omega)
  rw [ltoa_eq, List.length_append]
  split_ifs <;> simp <;> omega

/-- Reading the text of a number gives the number. -/
theorem parseInteger_ltoa (h : IsLong n) : parseInteger (ltoa n) = n := by
  rw [ltoa_eq]
  split_ifs with hneg
  · have hnat : (n.natAbs : Int) = -n := by omega
    rw [List.singleton_append, parseInteger, parseDigits_numeral, hnat]
    exact Int.bmod_neg_bmod.trans (by rw [neg_neg]; exact h.wrap32)
  · have hnat : (n.natAbs : Int) = n := by omega
    rw [List.nil_append, parseInteger_numeral, hnat, h.wrap32]

theorem ltoa_injective {m : Int} (hm : IsLong m) (hn : IsLong n) (h : ltoa m = ltoa n) : m = n := by
  rw [← parseInteger_ltoa hm, h, parseInteger_ltoa hn]

theorem toNat_ofInt (hlow : 0 ≤ n) (hhigh : n < 2 ^ 32) : ((UInt32.ofInt n).toNat : Int) = n := by
  rw [UInt32.ofInt, UInt32.toNat_ofNat', Int.emod_eq_of_lt hlow hhigh]
  omega

theorem asInteger_ofInt (h : IsLong n) : (JsonVariant.ofInt n).asInteger = some n := by
  obtain ⟨hlow, hhigh⟩ := h
  unfold JsonVariant.ofInt
  split_ifs with hneg
  · rw [JsonVariant.asInteger, toNat_ofInt hneg (by omega), IsLong.wrap32 ⟨hlow, hhigh⟩]
  · rw [JsonVariant.asInteger, toNat_ofInt (by omega) (by omega), neg_neg,
      IsLong.wrap32 ⟨hlow, hhigh⟩]

theorem printable_ofInt (n : Int) : (JsonVariant.ofInt n).Printable := by
  unfold JsonVariant.ofInt
  split_ifs <;> simp [JsonVariant.Printable]

/-! ### The buffer -/

theorem map_append_new (pairs : Pairs) (h : key ∉ pairs.map Prod.fst) (v w : JsonVariant) :
    (pairs ++ [(key, v)]).map (fun p => if p.1 = key then (key, w) else p) =
      pairs ++ [(key, w)] := by
  have hold : ∀ p ∈ pairs, (if p.1 = key then (key, w) else p) = p := by
    intro p hp
    refine if_neg ?_
    rintro rfl
    exact h (List.mem_map_of_mem hp)
  rw [List.map_append, List.map_congr_left hold, List.map_id', List.map_singleton, if_pos rfl]

theorem alloc_of_le {bytes : Nat} (h : roundSizeUp size + bytes ≤ capacity) :
    Document.alloc capacity bytes ⟨size, ps⟩ = (true, ⟨roundSizeUp size + bytes, ps⟩) := if_pos h

theorem set_int (hkey : key ∉ ps.map Prod.fst) (h : roundSizeUp size + pairSize ≤ capacity) :
    Document.set capacity ⟨size, ps⟩ key (.int n) =
      ⟨roundSizeUp size + pairSize, ps ++ [(key, .ofInt n)]⟩ := by
  simp only [Document.set, if_neg hkey, alloc_of_le h, Document.save, if_true,
    map_append_new _ hkey]

theorem set_text {s : List Char} (hkey : key ∉ ps.map Prod.fst)
    (h : roundSizeUp (roundSizeUp size + pairSize) + (s.length + 1) ≤ capacity) :
    Document.set capacity ⟨size, ps⟩ key (.text s) =
      ⟨roundSizeUp (roundSizeUp size + pairSize) + (s.length + 1),
        ps ++ [(key, .string (some s))]⟩ := by
  have hpair : roundSizeUp size + pairSize ≤ capacity :=
    (le_roundSizeUp _).trans ((Nat.le_add_right _ _).trans h)
  simp only [Document.set, if_neg hkey, alloc_of_le hpair, Document.save, if_true, alloc_of_le h,
    map_append_new _ hkey]

/-- The pairs of the object that is sent. -/
def pairs (object : RawData) : Pairs :=
  [("coin".toList, .ofInt object.coin), ("goods".toList, .ofInt object.goods),
    ("machine_num".toList, .ofInt object.machineNum),
    ("timestamp".toList, .string (some (ltoa object.timestamp)))]

theorem document_eq (h : IsLong object.timestamp) :
    (document 200 object).map Document.pairs = some (pairs object) := by
  have hlength := length_ltoa_le h
  have hcreate : Document.createObject 200 = some ⟨8, []⟩ := rfl
  have hkeys : (pairs object).map Prod.fst =
      ["coin".toList, "goods".toList, "machine_num".toList, "timestamp".toList] := rfl
  have hcoin : Document.set 200 ⟨8, []⟩ "coin".toList (.int object.coin) =
      ⟨24, (pairs object).take 1⟩ := set_int List.not_mem_nil (by decide)
  have hgoods : Document.set 200 ⟨24, (pairs object).take 1⟩ "goods".toList (.int object.goods) =
      ⟨40, (pairs object).take 2⟩ :=
    set_int (by rw [List.map_take, hkeys]; decide) (by decide)
  have hmachine : Document.set 200 ⟨40, (pairs object).take 2⟩ "machine_num".toList
      (.int object.machineNum) = ⟨56, (pairs object).take 3⟩ :=
    set_int (by rw [List.map_take, hkeys]; decide) (by decide)
  have htimestamp : Document.set 200 ⟨56, (pairs object).take 3⟩ "timestamp".toList
      (.text (ltoa object.timestamp)) = ⟨72 + ((ltoa object.timestamp).length + 1), pairs object⟩ :=
    set_text (by rw [List.map_take, hkeys]; decide)
      (by change 72 + _ ≤ 200; omega)
  rw [document, hcreate, Option.bind_eq_bind, Option.bind_some]
  dsimp only
  rw [hcoin, hgoods, hmachine, htimestamp]
  rfl

/-- The text of a record, which always fits into the buffer. -/
theorem body_eq (h : IsLong object.timestamp) :
    body object = serialize (.object (pairs object)) := by
  obtain ⟨d, hd, hpairs⟩ := Option.map_eq_some_iff.1 (document_eq h)
  rw [body, hd, Option.elim_some, hpairs]

/-! ### Reading -/

theorem printable_pairs (object : RawData) : ∀ p ∈ pairs object, p.2.Printable := by
  simp [pairs, printable_ofInt, JsonVariant.Printable]

theorem serialize_ofInt (h : IsLong n) : serialize (.ofInt n) = ltoa n := by
  obtain ⟨hlow, hhigh⟩ := h
  unfold JsonVariant.ofInt
  rw [ltoa_eq]
  by_cases hneg : 0 ≤ n
  · have hnat : (UInt32.ofInt n).toNat = n.natAbs := by
      have := toNat_ofInt hneg (by omega)
      omega
    rw [if_pos hneg, if_neg (by omega), serialize_positiveInteger, writeInteger_eq, hnat,
      List.nil_append]
  · have hnat : (UInt32.ofInt (-n)).toNat = n.natAbs := by
      have := toNat_ofInt (n := -n) (by omega) (by omega)
      omega
    rw [if_neg hneg, if_pos (by omega), serialize_negativeInteger, writeInteger_eq, hnat,
      List.singleton_append]

theorem isScalar_ofInt (n : Int) : (JsonVariant.ofInt n).IsScalar := by
  unfold JsonVariant.ofInt
  split_ifs <;> exact ⟨nofun, nofun⟩

theorem content_ofInt (h : IsLong n) : (JsonVariant.ofInt n).content = ltoa n := by
  rw [← serialize_ofInt h]
  unfold JsonVariant.ofInt
  split_ifs <;> rfl

/-- The numbers of a record are values of their types. -/
structure RawData.Fits (object : RawData) : Prop where
  coin : IsLong object.coin
  goods : IsLong object.goods
  machineNum : IsLong object.machineNum
  timestamp : IsLong object.timestamp

/-- The bytes that a reader of the text needs. -/
theorem used_pairs (h : object.Fits) : (JsonVariant.object (pairs object)).used 0 ≤ 200 := by
  have htext : (JsonVariant.string (some (ltoa object.timestamp))).IsScalar := ⟨nofun, nofun⟩
  have hcontent : (JsonVariant.string (some (ltoa object.timestamp))).content =
      ltoa object.timestamp := rfl
  have h₁ := length_ltoa_le h.coin
  have h₂ := length_ltoa_le h.goods
  have h₃ := length_ltoa_le h.machineNum
  have h₄ := length_ltoa_le h.timestamp
  rw [JsonVariant.used, pairs]
  simp only [List.foldl_cons, List.foldl_nil, used_scalar (isScalar_ofInt _), used_scalar htext,
    content_ofInt h.coin, content_ofInt h.goods, content_ofInt h.machineNum, hcontent,
    roundSizeUp, listSize, pairSize]
  simp
  omega

theorem depth_pairs (object : RawData) : (JsonVariant.object (pairs object)).depth ≤ 10 := by
  have hscalar : ∀ p ∈ pairs object, p.2.IsScalar := by
    simp only [pairs, List.forall_mem_cons, isScalar_ofInt, true_and]
    exact ⟨⟨nofun, nofun⟩, nofun⟩
  exact depth_object_le.2 fun p hp => (depth_scalar (hscalar p hp)).trans_le (Nat.zero_le _)

/-- A reader with as much memory as the board gets the record back. -/
theorem decode_body (h : object.Fits) : decode (body object) = some object := by
  have hkeys : ((pairs object).map Prod.fst).Nodup := by
    change ["coin".toList, "goods".toList, "machine_num".toList, "timestamp".toList].Nodup
    decide
  rw [decode, body_eq h.timestamp, parse_object_eq hkeys (printable_pairs object),
    if_pos ⟨depth_pairs object, used_pairs h⟩]
  have hget := get_map (fun p hp => asInteger_reparsed (printable_pairs object p hp))
  have hcoin : ((pairs object).get "coin".toList).asInteger = some object.coin :=
    asInteger_ofInt h.coin
  have hgoods : ((pairs object).get "goods".toList).asInteger = some object.goods :=
    asInteger_ofInt h.goods
  have hmachine : ((pairs object).get "machine_num".toList).asInteger = some object.machineNum :=
    asInteger_ofInt h.machineNum
  have htime : ((pairs object).get "timestamp".toList).asInteger = some object.timestamp :=
    congrArg some (parseInteger_ltoa h.timestamp)
  simp only [Option.bind_eq_bind, Option.bind_some, hget, hcoin, hgoods, hmachine, htime]
  rfl

/-- A text without special characters needs no escapes. -/
theorem writeString_of_forall {s : List Char} (h : ∀ c ∈ s, escapeChar c = none) :
    writeString s = '"' :: s ++ ['"'] := by
  have hchar : ∀ c ∈ s, writeChar c = [c] := fun c hc => by rw [writeChar, h c hc]
  rw [writeString, List.flatMap_congr hchar, List.flatMap_singleton']

theorem escapeChar_ltoa (n : Int) : ∀ c ∈ ltoa n, escapeChar c = none := by
  rw [ltoa_eq, List.forall_mem_append]
  constructor
  · split_ifs <;> decide
  · exact Numeral.forall_mem_numeral (by decide) (by decide) _

theorem body_fields (h : object.Fits) :
    body object = "\x7b\"coin\":".toList ++ ltoa object.coin ++ ",\"goods\":".toList ++
      ltoa object.goods ++ ",\"machine_num\":".toList ++ ltoa object.machineNum ++
      ",\"timestamp\":\"".toList ++ ltoa object.timestamp ++ "\"\x7d".toList := by
  rw [body_eq h.timestamp, pairs, serialize_object]
  simp only [serializePairs_cons, serializePairs_singleton, serializePair_mk,
    serialize_ofInt h.coin, serialize_ofInt h.goods, serialize_ofInt h.machineNum,
    serialize_string, writeString_of_forall (escapeChar_ltoa _)]
  rw [show writeString "coin".toList = "\"coin\"".toList by decide,
    show writeString "goods".toList = "\"goods\"".toList by decide,
    show writeString "machine_num".toList = "\"machine_num\"".toList by decide,
    show writeString "timestamp".toList = "\"timestamp\"".toList by decide]
  simp

/-- The text that is sent for a record whose numbers are values of their types: no assignment fails,
and the text reads as the record. -/
theorem body_text (h : object.Fits) :
    body object = "\x7b\"coin\":".toList ++ ltoa object.coin ++ ",\"goods\":".toList ++
        ltoa object.goods ++ ",\"machine_num\":".toList ++ ltoa object.machineNum ++
        ",\"timestamp\":\"".toList ++ ltoa object.timestamp ++ "\"\x7d".toList ∧
      decode (body object) = some object :=
  ⟨body_fields h, decode_body h⟩

theorem body_text_one : decode (body ⟨0, 1, 2, 1000⟩) = some ⟨0, 1, 2, 1000⟩ :=
  (body_text ⟨by decide, by decide, by decide, by decide⟩).2

theorem not_mem_ltoa {c : Char} (hsign : c ≠ '-') (hc : ∀ d < 10, Numeral.digit d ≠ c) :
    c ∉ ltoa n := by
  rw [ltoa_eq, List.mem_append, not_or]
  constructor
  · split_ifs <;> simp [hsign]
  · exact fun hmem => Numeral.forall_mem_numeral (P := (· ≠ c)) (by decide) hc _ _ hmem rfl

/-- The text of a record is a single line. -/
theorem newline_body (h : object.Fits) : '\n' ∉ body object := by
  have hltoa (n : Int) : '\n' ∉ ltoa n := not_mem_ltoa (by decide) (by decide)
  rw [body_fields h]
  simp [hltoa]

end Sensor

end DollMachine
