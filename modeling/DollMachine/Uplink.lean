import DollMachine.Sensor.Link
import DollMachine.Http.Request
import DollMachine.Http.RoundTrip

/-!
# Uploads over HTTP

The board, the server of the database, and a connection between them that may not come up, may break
off, and may lose the rest of an answer.  The server stores the payload of a request when it gets
the request whole and answers with 200.  A run ends where the client waits for ever.

* `uploads_refine`: every run is one of the station, with the same measurements and times, and the
  texts that the server has stored read as the records of the station.
* `success_stored`: when `failed()` says after an upload that nothing has, the record is stored.
-/

namespace DollMachine

open Transition Sensor Http

/-- The server: where it is, the token that it knows the board by, and the path and the payload that
it finds in the text of a request. -/
structure Database where
  host : List Char
  port : Option Nat
  auth : List Char
  read : List Char → Option (List Char × List Char)

namespace Database

def address (s : Database) : Address := ⟨s.host, s.port.getD 443, true⟩

/-- `Firebase`, after `begin`. -/
def firebase (s : Database) : FirebaseESP32 :=
  .begin (s.host ++ s.port.elim [] fun port => ':' :: utoa port) s.auth

/-- The request that stores a record. -/
def request (s : Database) (key : Int) (object : Sensor.RawData) : Request where
  type := "PUT".toList
  host := s.host
  port := s.port
  path := path key
  auth := s.auth
  payload := body object

/-- The server can be named in a URL, and understands the requests of the board. -/
structure Understands (s : Database) : Prop where
  host : ∀ c ∈ s.host, c ∉ ['/', ':', '@', '\x00']
  port : ∀ port, s.port = some port → port < 2 ^ 16 ∧ ¬ "https".toList <:+ s.host
  text : ∀ key object, IsTime key → object.Fits →
    s.read (s.request key object).text = some (path key, body object)

end Database

/-- What an iteration reads, and what becomes of its request. -/
structure Attempt where
  timer : Int
  duration : Int
  timestamp : Int
  key : Int
  /-- How many bytes get through, if a connection comes up. -/
  accepts : Option Nat
  /-- What the server answers when it has got the request. -/
  response : Response
  /-- What of it arrives. -/
  arrives : Feed Char

namespace Attempt

def readings (a : Attempt) (httpCode : Int) : Readings :=
  ⟨a.timer, a.duration, a.timestamp, a.key, httpCode⟩

def network (s : Database) (a : Attempt) (address : Address) : Option Peer :=
  if address = s.address then a.accepts.map fun n => ⟨n, fun _ => a.arrives⟩ else none

/-- What the server does with a text that is sent to an address. -/
def store (s : Database) (a : Attempt) (address : Option Address) (text : List Char)
    (texts : List (List Char × List Char)) : List (List Char × List Char) :=
  if (address.bind (a.network s)).any (text.length ≤ ·.accepts) ∧ a.response.code = 200 then
    (s.read text).elim texts fun x => Ledger.put x.1 x.2 texts
  else texts

/-- The clock shows times that can be printed, and what arrives is a beginning of the answer. -/
structure Valid (a : Attempt) : Prop where
  timestamp : IsTime a.timestamp
  key : IsTime a.key
  response : a.response.WellFormed
  arrives : a.arrives.all <+: a.response.text

/-- The server stores what the request says. -/
def Succeeds (a : Attempt) (q : Request) : Prop :=
  (∃ n ∈ a.accepts, q.text.length ≤ n) ∧ a.response.code = 200

instance (a : Attempt) (q : Request) : Decidable (a.Succeeds q) :=
  inferInstanceAs (Decidable (_ ∧ _))

end Attempt

/-- The board, the texts that the run has stored, and `failed()`. -/
structure Uplink where
  board : Board
  texts : List (List Char × List Char)
  failed : Int

namespace Uplink

def start (timer : Int) : Uplink := ⟨.start timer, [], 0⟩

/-- An iteration, whose request the library sends. -/
def next (encode : List Char → List Char) (s : Database) (w : Uplink) (a : Attempt) :
    Option Uplink :=
  let r := w.board.loop (a.readings 0)
  match r.2 with
  | none => some { w with board := r.1 }
  | some (key, object) =>
    (s.firebase.firebaseSendHttpRequest encode (a.network s) (path key) "PUT".toList
      (body object)).map fun reply =>
        { board := r.1
          texts := a.store s (s.firebase.target encode (path key))
            (s.firebase.sent encode (path key) "PUT".toList (body object)) w.texts
          failed := reply.errCode }

/-- The board and the texts. -/
def link (w : Uplink) : Link := ⟨w.board, w.texts⟩

variable {encode : List Char → List Char} {s : Database} {a : Attempt} {v w : Uplink} {key : Int}
  {object : Sensor.RawData} {texts : List (List Char × List Char)} {timer : Int}
  {tr : List (Step Uplink Attempt)}

/-! ## One request -/

theorem wellFormed_request (hs : s.Understands) (key : Int) (object : Sensor.RawData) :
    (s.request key object).WellFormed :=
  ⟨hs.host, hs.port⟩

theorem firebase_eq (hs : s.Understands) (key : Int) (object : Sensor.RawData) :
    s.firebase = (s.request key object).firebase := by
  have hbegin : FirebaseESP32.begin ([] ++ ((s.request key object).host ++
      (s.request key object).portText) ++ []) s.auth = (s.request key object).firebase :=
    (wellFormed_request hs key object).begin (.inl rfl) (.inl rfl)
  rw [List.nil_append, List.append_nil] at hbegin
  exact hbegin

theorem network_address (a : Attempt) : a.network s (s.request key object).address =
    a.accepts.map fun n => ⟨n, fun _ => a.arrives⟩ := if_pos rfl

/-- The server stores the record of a request that succeeds. -/
theorem store_eq (hs : s.Understands) (hkey : IsTime key) (hfits : object.Fits) :
    a.store s (s.firebase.target encode (path key))
        (s.firebase.sent encode (path key) "PUT".toList (body object)) texts =
      if a.Succeeds (s.request key object) then Ledger.put (path key) (body object) texts
      else texts := by
  have hq := wellFormed_request hs key object
  have htarget : s.firebase.target encode (path key) = some (s.request key object).address := by
    rw [firebase_eq hs key object]
    exact hq.target encode
  have hsent : s.firebase.sent encode (path key) "PUT".toList (body object) =
      (s.request key object).text := by
    rw [firebase_eq hs key object]
    exact hq.sent encode
  have hsucceeds : (((a.network s (s.request key object).address).any
      ((s.request key object).text.length ≤ ·.accepts)) = true ∧ a.response.code = 200) ↔
        a.Succeeds (s.request key object) := by
    rw [network_address, Attempt.Succeeds]
    cases a.accepts <;> simp
  rw [Attempt.store, htarget, hsent, Option.bind_some, hs.text key object hkey hfits]
  exact if_congr hsucceeds rfl rfl

theorem send_eq (hs : s.Understands) : s.firebase.firebaseSendHttpRequest encode (a.network s)
    (path key) "PUT".toList (body object) =
      ((s.request key object).exchange (a.network s)).map Reply.of := by
  rw [firebase_eq hs key object]
  exact (wellFormed_request hs key object).send encode _

/-- The library reports no error only if the request succeeds. -/
theorem succeeds_of_reply (hs : s.Understands) (ha : a.Valid) {reply : Reply}
    (hreply : s.firebase.firebaseSendHttpRequest encode (a.network s) (path key) "PUT".toList
      (body object) = some reply) (hcode : reply.errCode = 0) :
    a.Succeeds (s.request key object) := by
  rw [send_eq hs] at hreply
  obtain ⟨r, hr, rfl⟩ := Option.map_eq_some_iff.1 hreply
  have hr₁ : r.1 = 200 ∨ r.1 = 0 := by
    unfold Reply.of at hcode
    dsimp only at hcode
    split_ifs at hcode with h
    · exact .inl h
    · exact .inr hcode
  rw [Request.exchange, network_address] at hr
  cases haccepts : a.accepts with
  | none =>
    rw [haccepts] at hr
    cases hr
    rcases hr₁ with h | h <;> cases h
  | some n =>
    rw [haccepts, Option.map_some] at hr
    dsimp only at hr
    split_ifs at hr with hlength hhead
    · refine ⟨⟨n, haccepts, hlength⟩, ?_⟩
      have hpos := ha.response.code.1
      rcases code_of_prefix ha.response ha.arrives with h | h
      · rw [receive_code hr, h] at hr₁
        omega
      · rw [receive_code hr] at hr₁
        omega
    · cases hr
      rcases hr₁ with h | h <;> cases h
    · cases hr
      rcases hr₁ with h | h <;> cases h

/-! ## Runs -/

/-- What an iteration uploads can be printed. -/
theorem fits_of_upload (hcoin : IsLong v.board.coin) (hgoods : IsLong v.board.getGoods)
    (ha : a.Valid) (h : (v.board.loop (a.readings 0)).2 = some (key, object)) :
    IsTime key ∧ object.Fits := by
  have hsnd := Station.loop_snd ⟨v.board, [], 0⟩ (a.readings 0)
  dsimp only at hsnd
  rw [h] at hsnd
  split_ifs at hsnd
  cases hsnd
  exact ⟨ha.key, hcoin, isLong_measured hgoods _, show IsLong 2 by decide, ha.timestamp.isLong⟩

/-- An iteration is one of the link, for some status. -/
theorem link_next (hs : s.Understands) (ha : a.Valid) (hcoin : IsLong v.board.coin)
    (hgoods : IsLong v.board.getGoods) (step : v.next encode s a = some w) :
    ∃ httpCode, v.link.next (a.readings httpCode) = some w.link := by
  unfold next at step
  cases hloop : (v.board.loop (a.readings 0)).2 with
  | none =>
    simp only [hloop] at step
    cases step
    refine ⟨0, ?_⟩
    simp only [Link.next, link, hloop]
  | some x =>
    obtain ⟨key, object⟩ := x
    obtain ⟨hkey, hfits⟩ := fits_of_upload hcoin hgoods ha hloop
    simp only [hloop] at step
    obtain ⟨reply, -, rfl⟩ := Option.map_eq_some_iff.1 step
    have hloop' (httpCode : Int) : (v.board.loop (a.readings httpCode)).2 = some (key, object) :=
      hloop
    by_cases hsucc : a.Succeeds (s.request key object)
    · refine ⟨200, ?_⟩
      simp only [Link.next, link, hloop', Link.put, store_eq hs hkey hfits, if_pos hsucc]
      rfl
    · refine ⟨0, ?_⟩
      simp only [Link.next, link, hloop', Link.put, store_eq hs hkey hfits, if_neg hsucc]
      rfl

theorem station_of_run (hs : s.Understands) (run : Run (next encode s) (start timer) tr w)
    (hvalid : ∀ x ∈ tr, x.event.Valid) :
    ∃ tr' t, Run Station.next (.start timer) tr' t ∧ Corresponds w.link t ∧
      tr'.map (fun x => ({ x.event with httpCode := 0 } : Readings)) =
        tr.map (fun x => x.event.readings 0) := by
  refine run.simulation_map (R := fun w t => Corresponds w.link t) (C := Attempt.Valid)
    (f := fun a => a.readings 0) (g := fun r : Readings => { r with httpCode := 0 }) ?_
    (corresponds_start timer) hvalid
  intro v t a w h ha step
  have hboard : v.board = t.board := h.board
  obtain ⟨httpCode, hlink⟩ := link_next hs ha (hboard ▸ h.coin) (hboard ▸ h.getGoods) step
  obtain ⟨u, hstation, hu⟩ :=
    corresponds_next (r := a.readings httpCode) h ⟨ha.timestamp, ha.key⟩ hlink
  exact ⟨a.readings httpCode, u, rfl, hstation, hu⟩

/-! ### A server and a run -/

/-- The path of a request up to its dot, and the payload after the last line feed. -/
def readRequest (text : List Char) : Option (List Char × List Char) :=
  some ((text.drop 5).takeWhile (· ≠ '.'), (text.reverse.takeWhile (· ≠ '\n')).reverse)

def sampleDatabase : Database := ⟨"HostName".toList, none, "KeyName".toList, readRequest⟩

theorem takeWhile_stop {c : Char} {l rest : List Char} (h : c ∉ l) :
    (l ++ c :: rest).takeWhile (· ≠ c) = l := by
  rw [List.takeWhile_append_of_pos fun d hd => decide_eq_true (ne_of_mem_of_not_mem hd h),
    List.takeWhile_cons_of_neg (by simp), List.append_nil]

theorem readRequest_append {path payload before more : List Char} (hpath : '.' ∉ path)
    (hpayload : '\n' ∉ payload) (h : "PUT /".toList ++ (path ++ '.' :: more) =
      before ++ '\n' :: payload) :
    readRequest (before ++ '\n' :: payload) = some (path, payload) := by
  have hfirst : ((before ++ '\n' :: payload).drop 5).takeWhile (· ≠ '.') = path := by
    rw [← h]
    exact takeWhile_stop hpath
  have hlast : (before ++ '\n' :: payload).reverse.takeWhile (· ≠ '\n') = payload.reverse := by
    rw [List.reverse_append, List.reverse_cons, List.append_assoc]
    exact takeWhile_stop fun hmem => hpayload (List.mem_reverse.1 hmem)
  rw [readRequest, hfirst, hlast, List.reverse_reverse]

theorem readRequest_text (s : Database) (key : Int) (hfits : object.Fits) :
    readRequest (s.request key object).text = some (path key, body object) := by
  have hdot : '.' ∉ path key :=
    List.not_mem_append (by decide) (not_mem_ltoa (by decide) (by decide))
  obtain ⟨more, hfirst⟩ : ∃ more,
      (s.request key object).text = "PUT /".toList ++ (path key ++ '.' :: more) := by
    unfold Request.text Request.head Request.lines Request.uri
    simp only [List.cons_append, List.flatMap_cons, List.append_assoc]
    exact ⟨_, rfl⟩
  obtain ⟨before, hlast⟩ : ∃ before,
      (s.request key object).text = before ++ '\n' :: body object := by
    unfold Request.text Request.head
    exact ⟨(s.request key object).lines.flatMap (· ++ ['\n']) ++ ['\r'], by simp; rfl⟩
  rw [hlast]
  exact readRequest_append hdot (newline_body hfits) (hfirst.symm.trans hlast)

theorem sampleDatabase_understands : sampleDatabase.Understands where
  host := show ∀ c ∈ "HostName".toList, c ∉ ['/', ':', '@', '\x00'] by decide
  port := fun port h => (Option.some_ne_none port h.symm).elim
  text := fun key _ _ hfits => readRequest_text sampleDatabase key hfits

def sampleResponse : Response := ⟨'1', 200, "OK".toList, [], .length ['7'], []⟩

/-- An upload at 1000, whose request gets through, and whose answer arrives. -/
def sampleAttempt : Attempt where
  timer := 1000
  duration := 580
  timestamp := 1000
  key := 1001
  accepts := some (sampleDatabase.request 1001 ⟨0, 1, 2, 1000⟩).text.length
  response := sampleResponse
  arrives := ⟨sampleResponse.text, [], true⟩

theorem sampleAttempt_valid : sampleAttempt.Valid where
  timestamp := by decide
  key := by decide
  response := ⟨by decide, by decide, by decide, by decide⟩
  arrives := by simp [Feed.all, sampleAttempt]

theorem sample_run : ∃ x w, Run (next id sampleDatabase) (start 0) [x] w ∧ x.event.Valid ∧
    x.after = w ∧ w.failed = 0 ∧
    (x.before.board.loop (x.event.readings 0)).2 = some (1001, ⟨0, 1, 2, 1000⟩) := by
  have hloop : ((start 0).board.loop (sampleAttempt.readings 0)).2 =
      some (1001, ⟨0, 1, 2, 1000⟩) := by decide
  have hall : sampleAttempt.arrives.all = sampleResponse.text ++ [] := by
    simp [Feed.all, sampleAttempt]
  have hreceive : receive sampleAttempt.arrives = some (200, ['7']) :=
    receive_eq sampleAttempt_valid.response hall fun data hdata => by cases hdata
  have hreply : sampleDatabase.firebase.firebaseSendHttpRequest id
      (sampleAttempt.network sampleDatabase) (path 1001) "PUT".toList (body ⟨0, 1, 2, 1000⟩) =
        some ⟨0, "", ['7']⟩ := by
    rw [send_eq sampleDatabase_understands, Request.exchange, network_address]
    simp only [sampleAttempt, Option.map_some, le_refl, if_true]
    exact congrArg (Option.map Reply.of) hreceive
  have step : ∃ w, next id sampleDatabase (start 0) sampleAttempt = some w ∧ w.failed = 0 := by
    unfold next
    simp only [hloop, hreply, Option.map_some]
    exact ⟨_, rfl, rfl⟩
  obtain ⟨w, step, hfailed⟩ := step
  exact ⟨⟨start 0, sampleAttempt, w⟩, w, Run.nil.snoc step, sampleAttempt_valid, rfl, hfailed,
    hloop⟩

/-! ## What is stored -/

/-- Every run over HTTP is one of the station with the same clock and the same measurements, in
which some uploads fail: the board is in the same state, and under the path of a key the server has
a text that reads as the record which the station has under that key. -/
theorem uploads_refine (hs : s.Understands)
    (run : Run (next encode s) (start timer) tr w) (hvalid : ∀ x ∈ tr, x.event.Valid) :
    ∃ tr' t, Run Station.next (.start timer) tr' t ∧
      tr'.map (fun x => ({ x.event with httpCode := 0 } : Readings)) =
        tr.map (fun x => x.event.readings 0) ∧
      w.board = t.board ∧
      ∀ key, IsTime key → (w.texts.lookup (path key)).bind decode = t.rawData.lookup key := by
  obtain ⟨tr', t, run', h, hevents⟩ := station_of_run hs run hvalid
  refine ⟨tr', t, run', hevents, h.board, fun key hkey => ?_⟩
  rw [show w.texts = _ from h.texts]
  exact Ledger.lookup_map (fun p hp heq => path_injective (h.keys p hp) hkey.isLong heq)
    fun p hp => decode_body (h.records p hp)

theorem uploads_refine_upload : ∃ tr w tr' t, Run (next id sampleDatabase) (start 0) tr w ∧
    Run Station.next (.start 0) tr' t ∧ tr'.length = 1 ∧ w.board = t.board ∧
    (w.texts.lookup (path 1001)).bind decode = t.rawData.lookup 1001 := by
  obtain ⟨x, w, run, hvalid, -, -, -⟩ := sample_run
  obtain ⟨tr', t, run', hevents, hboard, htexts⟩ :=
    uploads_refine sampleDatabase_understands run (List.forall_mem_singleton.2 hvalid)
  have hlength : tr'.length = 1 := by simpa using congrArg List.length hevents
  exact ⟨_, w, tr', t, run, run', hlength, hboard, htexts 1001 (by decide)⟩

/-- In every run over HTTP: when `failed()` is 0 after an upload, the server has the record under
its key. -/
theorem success_stored (hs : s.Understands)
    (run : Run (next encode s) (start timer) tr w) (hvalid : ∀ x ∈ tr, x.event.Valid) :
    ∀ x ∈ tr, ∀ key object, (x.before.board.loop (x.event.readings 0)).2 = some (key, object) →
      x.after.failed = 0 → (x.after.texts.lookup (path key)).bind decode = some object := by
  intro x hx key object hloop hfailed
  obtain ⟨pre, post, rfl, hpre, step⟩ := run.at_step hx
  have ha := hvalid x hx
  obtain ⟨-, t, -, h, -⟩ := station_of_run hs hpre fun y hy => hvalid y (List.mem_append_left _ hy)
  have hboard : x.before.board = t.board := h.board
  obtain ⟨hkey, hfits⟩ :=
    fits_of_upload (hboard ▸ h.coin) (hboard ▸ h.getGoods) ha hloop
  unfold next at step
  simp only [hloop] at step
  obtain ⟨reply, hreply, hafter⟩ := Option.map_eq_some_iff.1 step
  rw [← hafter] at hfailed ⊢
  have hsucc := succeeds_of_reply hs ha hreply hfailed
  simp only [store_eq hs hkey hfits, if_pos hsucc, Ledger.put, List.lookup_cons, beq_self_eq_true,
    Option.bind_some]
  exact decode_body hfits

theorem success_stored_upload : ∃ tr w, Run (next id sampleDatabase) (start 0) tr w ∧
    (w.texts.lookup (path 1001)).bind decode = some ⟨0, 1, 2, 1000⟩ := by
  obtain ⟨x, w, run, hvalid, rfl, hfailed, hloop⟩ := sample_run
  exact ⟨_, _, run, success_stored sampleDatabase_understands run
    (List.forall_mem_singleton.2 hvalid) x (List.mem_singleton_self x) _ _ hloop hfailed⟩

end Uplink

end DollMachine
