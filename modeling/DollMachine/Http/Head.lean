import DollMachine.Http.Response

/-!
# Reading the head of an answer

A `Response` is what a server answers: a status line, headers, and a body that ends with the
connection, or has its length in the head, or comes in chunks.  `handleHeaderResponse_eq` says that
the client gets from the head its code and the way the body is sent, in whatever bursts it comes.
-/

namespace DollMachine

namespace Http

variable {h : Head} {f g : Feed Char} {s line rest name value : List Char}

/-! ## The lines of the head -/

theorem readHead_now (hnow : f.now ≠ []) : readHead h f =
    if trim (f.readUntil '\n').1 = [] then
      ((h.line (trim (f.readUntil '\n').1)).finish.1, h.line (trim (f.readUntil '\n').1),
        (f.readUntil '\n').2)
    else readHead (h.line (trim (f.readUntil '\n').1)) (f.readUntil '\n').2 := by
  rw [readHead]
  simp [Feed.connected_of_all (all_ne_nil_of_now hnow), hnow]

theorem readHead_wait (burst : List Char) (bursts : List (List Char)) (closes : Bool) :
    readHead h ⟨[], burst :: bursts, closes⟩ = readHead h ⟨burst, bursts, closes⟩ := by
  rw [readHead]
  simp [Feed.connected]

theorem readHead_nil (closes : Bool) : readHead h ⟨[], [], closes⟩ =
    (if closes then connectionLost else readTimeout, h, ⟨[], [], closes⟩) := by
  rw [readHead]
  cases closes <;> simp [Feed.connected]

/-- The loop of `handleHeaderResponse` takes a line, however it comes. -/
theorem readHead_line (hall : f.all = line ++ '\n' :: rest) (hline : '\n' ∉ line) :
    ∃ g, g.all = rest ∧ g.closes = f.closes ∧ readHead h f =
      if trim line = [] then ((h.line (trim line)).finish.1, h.line (trim line), g)
      else readHead (h.line (trim line)) g := by
  induction f using Feed.wait_induction with
  | now f hnow =>
    obtain ⟨htaken, hrest, hcloses⟩ := Feed.readUntil_of_all hall hline
    refine ⟨_, hrest, hcloses, ?_⟩
    rw [readHead_now hnow, htaken]
  | nil closes => simp [Feed.all] at hall
  | wait burst bursts closes ih =>
    rw [readHead_wait]
    exact ih hall

/-- Where the input ends, the loop finds an error. -/
theorem readHead_end (hall : f.all = []) :
    (readHead h f).1 = if f.closes then connectionLost else readTimeout := by
  induction f using Feed.wait_induction with
  | now f hnow => exact absurd hall (all_ne_nil_of_now hnow)
  | nil closes => rw [readHead_nil]
  | wait burst bursts closes ih =>
    rw [readHead_wait]
    exact ih hall

/-- The rest of the input is read as a line, also without its line feed. -/
theorem readHead_rest (hne : f.all ≠ []) (hline : '\n' ∉ f.all) :
    ∃ g, g.all = [] ∧ g.closes = f.closes ∧ readHead h f =
      if trim f.all = [] then ((h.line (trim f.all)).finish.1, h.line (trim f.all), g)
      else readHead (h.line (trim f.all)) g := by
  induction f using Feed.wait_induction with
  | now f hnow =>
    obtain ⟨htaken, hrest, hcloses, -⟩ := Feed.readUntil_eq '\n' f
    have hkeep : ∀ c ∈ f.all, decide (c ≠ '\n') = true := fun c hc => by
      simpa using ne_of_mem_of_not_mem hc hline
    rw [List.takeWhile_eq_self_iff.2 hkeep] at htaken
    rw [List.dropWhile_eq_nil_iff.2 hkeep] at hrest
    refine ⟨_, hrest, hcloses, ?_⟩
    rw [readHead_now hnow, htaken]
  | nil closes => exact absurd rfl hne
  | wait burst bursts closes ih =>
    rw [readHead_wait]
    exact ih hne hline

/-- A name of a header: no blanks, no colon and no slash. -/
def IsName (name : List Char) : Prop :=
  name ≠ [] ∧ ∀ c ∈ name, isspace c = false ∧ c ≠ ':' ∧ c ≠ '/' ∧ c ≠ '\x00'

instance (name : List Char) : Decidable (IsName name) := inferInstanceAs (Decidable (_ ∧ _))

/-- A text in a line. -/
def IsText (s : List Char) : Prop := '\n' ∉ s ∧ '\x00' ∉ s

instance (s : List Char) : Decidable (IsText s) := inferInstanceAs (Decidable (_ ∧ _))

/-- A header as it is sent. -/
def headerLine (name value : List Char) : List Char := name ++ ':' :: ' ' :: value ++ ['\r']

theorem not_startsWith (hname : ∀ c ∈ name, c ≠ '/') :
    startsWith (name ++ ':' :: s) "HTTP/1.".toList = false := by
  rw [startsWith, Bool.eq_false_iff]
  intro hprefix
  -- the slash would come before the first colon
  obtain ⟨t, ht⟩ := List.isPrefixOf_iff_prefix.1 hprefix
  have hslash : '/' ∈ (name ++ ':' :: s).takeWhile (· ≠ ':') := by
    rw [← ht]
    simp [show "HTTP/1.".toList = ['H', 'T', 'T', 'P', '/', '1', '.'] from rfl]
  rw [List.takeWhile_append] at hslash
  split_ifs at hslash with hlen
  · simp only [ne_eq, not_true_eq_false, decide_false, Bool.false_eq_true, not_false_eq_true,
      List.takeWhile_cons_of_neg, List.append_nil] at hslash
    exact hname _ hslash rfl
  · exact hname _ ((List.takeWhile_prefix _).subset hslash) rfl

/-- The client finds the name and the value of a header. -/
theorem line_header (hname : IsName name) (hvalue : IsText value) :
    trim (headerLine name value) ≠ [] ∧
      h.line (trim (headerLine name value)) = h.field name (trim value) := by
  obtain ⟨hne, hchars⟩ := hname
  have htrim : trim (headerLine name value) = name ++ ':' :: trimEnd (' ' :: value ++ ['\r']) := by
    obtain ⟨c, cs, rfl⟩ := List.exists_cons_of_ne_nil hne
    rw [headerLine, List.cons_append, List.cons_append, trim_cons (hchars c List.mem_cons_self).1,
      ← List.cons_append, ← List.cons_append, List.append_assoc]
    exact trimEnd_keep (by decide)
  have hvalue' : trim (trimEnd (' ' :: value ++ ['\r'])) = trim value := by
    rw [trim_trimEnd, List.cons_append, trim_cons_space (by decide), trim_append_space (by decide)]
  have hnull : '\x00' ∉ name := fun hmem => (hchars _ hmem).2.2.2 rfl
  have hnull' : '\x00' ∉ trimEnd (' ' :: value ++ ['\r']) := fun hmem => by
    have := mem_of_mem_trimEnd hmem
    simp [hvalue.2] at this
  rw [htrim]
  generalize trimEnd (' ' :: value ++ ['\r']) = w at hvalue' hnull'
  have hcolon : indexOf (name ++ ':' :: w) ':' 0 = some name.length :=
    indexOf_append fun c hc => ⟨(hchars c hc).2.1, (hchars c hc).2.2.2⟩
  have hlen : name.length ≠ 0 := by simpa using hne
  have hname' : substring (name ++ ':' :: w) 0 name.length = name := substring_left hnull
  have hrest : substring (name ++ ':' :: w) (name.length + 1) (name ++ ':' :: w).length = w := by
    have hdrop : (name ++ ':' :: w).drop (name.length + 1) = w := by simp [List.drop_append]
    rw [substring_drop (le_refl _) (by rwa [hdrop]) (by simp), hdrop]
  refine ⟨by simp, ?_⟩
  rw [Head.line, not_startsWith fun c hc => (hchars c hc).2.2.1, hcolon]
  simp only [Bool.false_eq_true, if_false, Option.some.injEq, hlen, unsignedIndex,
    Option.getD_some, Option.elim_some, hname', hrest, hvalue']

/-- A status line as it is sent. -/
def statusLine (version : Char) (code : Nat) (reason : List Char) : List Char :=
  ("HTTP/1.".toList ++ [version, ' ']) ++ (Numeral.numeral 10 code ++ (' ' :: reason ++ ['\r']))

/-- What stands between the version and the next blank, or the end. -/
theorem substring_code {version : Char} {digits w : List Char}
    (hdigits : ∀ c ∈ digits, c ≠ ' ' ∧ c ≠ '\x00') (hlength : digits.length ≤ 10)
    (hend : w = [] ∨ ∃ reason, w = ' ' :: reason) :
    substring (("HTTP/1.".toList ++ [version, ' ']) ++ (digits ++ w)) 9
      (unsignedIndex (indexOf (("HTTP/1.".toList ++ [version, ' ']) ++ (digits ++ w)) ' ' 9)) =
        digits := by
  have hdrop : (("HTTP/1.".toList ++ [version, ' ']) ++ (digits ++ w)).drop 9 = digits ++ w := rfl
  have hzero : '\x00' ∉ digits := fun hmem => (hdigits _ hmem).2 rfl
  rw [indexOf, hdrop]
  rcases hend with rfl | ⟨reason, rfl⟩
  · have hblank : ' ' ∉ digits := fun hmem => (hdigits _ hmem).1 rfl
    rw [List.append_nil, strchr_eq_none hblank]
    refine substring_drop ?_ hzero (by decide)
    simp only [List.length_append, unsignedIndex, Option.map_none, Option.getD_none,
      show "HTTP/1.".toList.length = 7 from rfl, List.length_cons, List.length_nil]
    omega
  · rw [strchr_append hdigits]
    exact substring_append hzero

/-- The client finds the code of a status line. -/
theorem line_status {version : Char} {code : Nat} {reason : List Char} (hcode : code < 2 ^ 31) :
    trim (statusLine version code reason) ≠ [] ∧
      h.line (trim (statusLine version code reason)) = { h with returnCode := code } := by
  have hint : toInt (Numeral.numeral 10 code) = code :=
    strtol_numeral (by decide) (by decide) hcode
  have hlength : (Numeral.numeral 10 code).length ≤ 10 :=
    Numeral.length_numeral_le (b := 10) (k := 9) (by decide) (by omega)
  have hne : Numeral.numeral 10 code ≠ [] := Numeral.numeral_ne_nil (by decide) code
  have hchars := fun c => mem_numeral (b := 10) (n := code) (c := c) (by decide) (by decide)
  unfold statusLine
  generalize Numeral.numeral 10 code = digits at hint hlength hne hchars
  have hdigits : ∀ c ∈ digits, c ≠ ' ' ∧ c ≠ '\x00' := fun c hc => by
    have := (hchars c hc).2.2.2
    simp_all
  have htrim :
      trim (("HTTP/1.".toList ++ [version, ' ']) ++ (digits ++ (' ' :: reason ++ ['\r']))) =
      ("HTTP/1.".toList ++ [version, ' ']) ++ (digits ++ trimEnd (' ' :: reason ++ ['\r'])) := by
    rw [← trimEnd_keep_all hne (fun c hc => (hchars c hc).2.2.1)]
    exact trim_cons (by decide)
  have hend : trimEnd (' ' :: reason ++ ['\r']) = [] ∨
      ∃ w, trimEnd (' ' :: reason ++ ['\r']) = ' ' :: w := by
    by_cases hall : ∀ c ∈ ' ' :: (reason ++ ['\r']), isspace c = true
    · exact .inl (trimEnd_eq_nil.2 hall)
    · exact .inr ⟨_, trimEnd_cons hall⟩
  rw [htrim]
  generalize trimEnd (' ' :: reason ++ ['\r']) = w at hend
  refine ⟨by simp, ?_⟩
  have hstart : startsWith (("HTTP/1.".toList ++ [version, ' ']) ++ (digits ++ w))
      "HTTP/1.".toList = true := by
    rw [startsWith, List.append_assoc]
    exact List.isPrefixOf_iff_prefix.2 (List.prefix_append _ _)
  rw [Head.line, if_pos hstart, substring_code hdigits hlength hend, hint]

/-! ## Answers -/

/-- How a server sends a body: to the end of the connection, with its length in the head, or in
chunks. -/
inductive Body
  | untilClose (data : List Char)
  | length (data : List Char)
  | chunks (parts : List (List Char))
deriving DecidableEq

structure Response where
  version : Char
  code : Nat
  reason : List Char
  /-- The headers before the one about the body, and those after it. -/
  before : List (List Char × List Char)
  body : Body
  after : List (List Char × List Char)
deriving DecidableEq

namespace Body

def headers : Body → List (List Char × List Char)
  | .untilClose _ => []
  | .length data => [("Content-Length".toList, Numeral.numeral 10 data.length)]
  | .chunks _ => [("Transfer-Encoding".toList, "chunked".toList)]

def data : Body → List Char
  | .untilClose data | .length data => data
  | .chunks parts => parts.flatten

/-- A chunk as it is sent. -/
def chunk (part : List Char) : List Char :=
  Numeral.numeral 16 part.length ++ '\r' :: '\n' :: part ++ ['\r', '\n']

def text : Body → List Char
  | .untilClose data | .length data => data
  | .chunks parts => parts.flatMap chunk ++ "0\r\n\r\n".toList

/-- The lengths fit in an `int`, and no chunk but the last is empty. -/
def WellFormed (body : Body) : Prop :=
  body.data.length < 2 ^ 31 ∧
    match body with
    | .chunks parts => ∀ part ∈ parts, part ≠ []
    | _ => True

instance (body : Body) : Decidable body.WellFormed := by
  unfold WellFormed
  cases body <;> infer_instance

/-- The field `_size` and the variable `transferEncoding` after the head. -/
def framing : Body → Int × List Char
  | .untilClose _ => (-1, [])
  | .length data => (data.length, [])
  | .chunks _ => (-1, "chunked".toList)

end Body

/-- A header that says nothing about the body. -/
def IsPlain (header : List Char × List Char) : Prop :=
  IsName header.1 ∧ IsText header.2 ∧
    equalsIgnoreCase header.1 "Content-Length".toList = false ∧
    equalsIgnoreCase header.1 "Transfer-Encoding".toList = false

instance (header : List Char × List Char) : Decidable (IsPlain header) :=
  inferInstanceAs (Decidable (_ ∧ _))

namespace Response

def headers (r : Response) : List (List Char × List Char) :=
  r.before ++ (r.body.headers ++ r.after)

def lines (r : Response) : List (List Char) :=
  statusLine r.version r.code r.reason :: r.headers.map fun header => headerLine header.1 header.2

/-- The head as it is sent, up to the last line feed. -/
def head (r : Response) : List Char := r.lines.flatMap (· ++ ['\n']) ++ ['\r']

def text (r : Response) : List Char := r.head ++ '\n' :: r.body.text

structure WellFormed (r : Response) : Prop where
  code : 0 < r.code ∧ r.code < 2 ^ 31
  status : r.version ≠ '\n' ∧ '\n' ∉ r.reason
  plain : ∀ header ∈ r.before ++ r.after, IsPlain header
  body : r.body.WellFormed

end Response

/-! ## Reading the head -/

/-- A line of the head that is not the last. -/
def IsLine (line : List Char) : Prop := '\n' ∉ line ∧ trim line ≠ []

/-- What the client has found after some lines. -/
def Head.read (h : Head) (lines : List (List Char)) : Head :=
  lines.foldl (fun h line => h.line (trim line)) h

theorem readHead_lines {lines : List (List Char)} (hlines : ∀ line ∈ lines, IsLine line)
    (hall : f.all = lines.flatMap (· ++ ['\n']) ++ rest) :
    ∃ g, g.all = rest ∧ g.closes = f.closes ∧
      readHead h f = readHead (h.read lines) g := by
  induction lines generalizing h f with
  | nil => exact ⟨f, hall, rfl, rfl⟩
  | cons line lines ih =>
    rw [List.forall_mem_cons] at hlines
    rw [List.flatMap_cons, List.append_assoc, List.append_assoc] at hall
    obtain ⟨g, hg, hcloses, hread⟩ := readHead_line (h := h) hall hlines.1.1
    obtain ⟨g', hg', hcloses', hread'⟩ := ih (h := h.line (trim line)) hlines.2 hg
    refine ⟨g', hg', hcloses'.trans hcloses, ?_⟩
    rw [hread, if_neg hlines.1.2, hread']
    rfl

theorem isLine_header (hname : IsName name) (hvalue : IsText value) :
    IsLine (headerLine name value) := by
  refine ⟨fun hmem => ?_, (line_header (h := .start) hname hvalue).1⟩
  have hname' : '\n' ∉ name := fun hmem => absurd (hname.2 _ hmem).1 (by decide)
  simp [headerLine, hname', hvalue.1] at hmem

theorem isLine_status {version : Char} {code : Nat} {reason : List Char} (hcode : code < 2 ^ 31)
    (hversion : version ≠ '\n') (hreason : '\n' ∉ reason) :
    IsLine (statusLine version code reason) := by
  refine ⟨?_, (line_status (h := .start) hcode).1⟩
  have hprotocol : '\n' ∉ "HTTP/1.".toList ++ [version, ' '] := by
    simp [hversion.symm]
  have hdigits : '\n' ∉ Numeral.numeral 10 code := fun hmem => by
    have hdigit := mem_numeral (b := 10) (n := code) (by decide) (by decide) hmem
    exact absurd hdigit.2.2.1 (by decide)
  have hrest : '\n' ∉ ' ' :: reason ++ ['\r'] := by
    simp [hreason]
  unfold statusLine
  exact List.not_mem_append hprotocol (List.not_mem_append hdigits hrest)

/-- A header about something else leaves what is known of the body. -/
theorem field_plain {header : List Char × List Char} (hp : IsPlain header) (value : List Char) :
    (h.field header.1 value).returnCode = h.returnCode ∧
      (h.field header.1 value).size = h.size ∧
      (h.field header.1 value).transferEncoding = h.transferEncoding := by
  obtain ⟨-, -, hlength, hencoding⟩ := hp
  simp only [Head.field, hlength, hencoding, Bool.false_eq_true, if_false]
  split_ifs <;> exact ⟨rfl, rfl, rfl⟩

/-- What the head says: its code, and how the body is sent. -/
structure Head.Says (h : Head) (code : Nat) (framing : Int × List Char) : Prop where
  returnCode : h.returnCode = code
  size : h.size = framing.1
  transferEncoding : h.transferEncoding = framing.2

theorem Head.Says.plain {code : Nat} {framing : Int × List Char} (hs : h.Says code framing)
    {headers : List (List Char × List Char)} (hp : ∀ header ∈ headers, IsPlain header) :
    (h.read (headers.map fun header => headerLine header.1 header.2)).Says code framing := by
  induction headers generalizing h with
  | nil => exact hs
  | cons header headers ih =>
    rw [List.forall_mem_cons] at hp
    rw [List.map_cons, Head.read, List.foldl_cons, (line_header hp.1.1 hp.1.2.1).2]
    refine ih ?_ hp.2
    obtain ⟨hcode, hsize, hencoding⟩ := field_plain (h := h) hp.1 (trim header.2)
    exact ⟨hcode.trans hs.returnCode, hsize.trans hs.size, hencoding.trans hs.transferEncoding⟩

theorem Body.isHeader (body : Body) :
    ∀ header ∈ body.headers, IsName header.1 ∧ IsText header.2 := by
  cases body with
  | untilClose data => simp [Body.headers]
  | length data =>
    have hchars := fun c =>
      mem_numeral (b := 10) (n := data.length) (c := c) (by decide) (by decide)
    have hvalue : IsText (Numeral.numeral 10 data.length) :=
      ⟨fun hmem => (hchars _ hmem).2.2.2 (by decide), fun hmem => (hchars _ hmem).2.2.2 (by decide)⟩
    have hname : IsName "Content-Length".toList := by decide
    exact List.forall_mem_singleton.2 ⟨hname, hvalue⟩
  | chunks parts => exact List.forall_mem_singleton.2 ⟨by decide, by decide⟩

/-- The headers about the body tell the client how it is sent. -/
theorem Head.Says.body {code : Nat} {body : Body} (hs : h.Says code (-1, []))
    (hb : body.WellFormed) :
    (h.read (body.headers.map fun header => headerLine header.1 header.2)).Says code
      body.framing := by
  have hheader := body.isHeader
  cases body with
  | untilClose data => exact hs
  | length data =>
    have htrim : trim (Numeral.numeral 10 data.length) = Numeral.numeral 10 data.length :=
      trim_of_forall fun c hc => (mem_numeral (by decide) (by decide) hc).2.2.1
    have hint : toInt (Numeral.numeral 10 data.length) = data.length :=
      strtol_numeral (by decide) (by decide) hb.1
    obtain ⟨hname, hvalue⟩ := List.forall_mem_singleton.1 hheader
    rw [Body.headers, List.map_singleton, Head.read, List.foldl_cons, List.foldl_nil,
      (line_header hname hvalue).2, htrim]
    have hlength : equalsIgnoreCase "Content-Length".toList "Content-Length".toList = true := by
      decide
    have hconnection : equalsIgnoreCase "Content-Length".toList "Connection".toList = false := by
      decide
    have hencoding :
        equalsIgnoreCase "Content-Length".toList "Transfer-Encoding".toList = false := by decide
    simp only [Head.field, hlength, hconnection, hencoding, if_true, Bool.false_eq_true, if_false,
      hint]
    exact ⟨hs.returnCode, rfl, hs.transferEncoding⟩
  | chunks parts =>
    obtain ⟨hname, hvalue⟩ := List.forall_mem_singleton.1 hheader
    have htrim : trim "chunked".toList = "chunked".toList := by decide
    rw [Body.headers, List.map_singleton, Head.read, List.foldl_cons, List.foldl_nil,
      (line_header hname hvalue).2, htrim]
    have hlength : equalsIgnoreCase "Transfer-Encoding".toList "Content-Length".toList = false := by
      decide
    have hconnection : equalsIgnoreCase "Transfer-Encoding".toList "Connection".toList = false := by
      decide
    have hencoding :
        equalsIgnoreCase "Transfer-Encoding".toList "Transfer-Encoding".toList = true := by decide
    simp only [Head.field, hlength, hconnection, hencoding, if_true, Bool.false_eq_true, if_false]
    exact ⟨hs.returnCode, hs.size, rfl⟩

theorem Response.isHeader {r : Response} (hr : r.WellFormed) :
    ∀ header ∈ r.headers, IsName header.1 ∧ IsText header.2 := by
  have hplain : ∀ header ∈ r.before ++ r.after, IsName header.1 ∧ IsText header.2 :=
    fun header hmem => ⟨(hr.plain header hmem).1, (hr.plain header hmem).2.1⟩
  rw [List.forall_mem_append] at hplain
  exact List.forall_mem_append.2 ⟨hplain.1, List.forall_mem_append.2 ⟨r.body.isHeader, hplain.2⟩⟩

theorem Response.isLine {r : Response} (hr : r.WellFormed) : ∀ line ∈ r.lines, IsLine line := by
  refine List.forall_mem_cons.2 ⟨isLine_status hr.code.2 hr.status.1 hr.status.2, ?_⟩
  intro line hline
  obtain ⟨header, hmem, rfl⟩ := List.mem_map.1 hline
  obtain ⟨hname, hvalue⟩ := r.isHeader hr header hmem
  exact isLine_header hname hvalue

theorem Response.says_read {r : Response} (hr : r.WellFormed) :
    (Head.start.read r.lines).Says r.code r.body.framing := by
  have hplain := hr.plain
  rw [List.forall_mem_append] at hplain
  have hstatus : (Head.start.line (trim (statusLine r.version r.code r.reason))).Says r.code
      (-1, []) := by
    rw [(line_status hr.code.2).2]
    exact ⟨rfl, rfl, rfl⟩
  have hall := ((hstatus.plain hplain.1).body hr.body).plain hplain.2
  unfold Response.lines Response.headers
  rw [List.map_append, List.map_append, Head.read, List.foldl_cons, List.foldl_append,
    List.foldl_append]
  exact hall

/-- The client reads a head, however it comes. -/
theorem handleHeaderResponse_eq {r : Response} (hr : r.WellFormed)
    (hall : f.all = r.head ++ '\n' :: rest) :
    ∃ h g, h.Says r.code r.body.framing ∧ g.all = rest ∧ g.closes = f.closes ∧
      handleHeaderResponse f = (h.finish.1, h, g) := by
  rw [Response.head, List.append_assoc] at hall
  obtain ⟨g, hg, hcloses, hread⟩ := readHead_lines (h := .start) (r.isLine hr) hall
  have hsays := r.says_read hr
  generalize Head.start.read r.lines = h at hread hsays
  obtain ⟨g', hg', hcloses', hread'⟩ := readHead_line (h := h) hg (by decide)
  have hne : f.all ≠ [] := by simp [hall]
  refine ⟨h, g', hsays, hg', hcloses'.trans hcloses, ?_⟩
  rw [handleHeaderResponse, if_neg (by simp [Feed.connected_of_all hne]), hread, hread',
    if_pos (by decide)]
  rfl

end Http

end DollMachine
