import DollMachine.Http.Head
import Mathlib.Data.List.Basic

/-!
# The request

`firebaseSendHttpRequest`, from the host and the path that the sketch gives to the bytes that the
client sends: the URL that the database library builds, and what the HTTP client finds in it.

`request_eq`: the client connects to the host that was meant, with TLS and on port 443 if no other
is given, and sends a request for the path there, with the payload and its length.
-/

namespace DollMachine

namespace Http

/-- `utoa` to the base 10. -/
def utoa (value : Nat) : List Char := Numeral.numeral 10 value

/-! ## The HTTP client -/

/-- The fields of an `HTTPClient` that a request depends on. -/
structure Client where
  /-- `_transportTraits`, if there are any: whether they are those of TLS. -/
  transportTraits : Option Bool := none
  host : List Char := []
  port : Nat := 0
  reuse : Bool := false
  useHTTP10 : Bool := false
  uri : List Char := []
  protocol : List Char := []
  headers : List Char := []
  userAgent : List Char := "ESP32HTTPClient".toList
  base64Authorization : List Char := []

namespace Client

def clear (c : Client) : Client := { c with headers := [] }

/-- The user and the password in front of a host; `encode` is `base64::encode`. -/
def takeAuthorization (encode : List Char → List Char) (c : Client) (host : List Char) :
    Client × List Char :=
  match indexOf host '@' 0 with
  | none => (c, host)
  | some index =>
    ({ c with base64Authorization := encode (substring host 0 index) }, remove host 0 (index + 1))

/-- The name and the port of a host; a `uint16_t` holds the port. -/
def takePort (c : Client) (host : List Char) : Client :=
  match indexOf host ':' 0 with
  | none => { c with host := host }
  | some index =>
    { c with
      host := substring host 0 index
      port := (toInt (remove host 0 (index + 1)) % 2 ^ 16).toNat }

def beginInternal (encode : List Char → List Char) (c : Client) (url expectedProtocol : List Char) :
    Bool × Client :=
  let c := c.clear
  match indexOf url ':' 0 with
  | none => (false, c)
  | some index =>
    let c := { c with protocol := substring url 0 index }
    if c.protocol ≠ expectedProtocol then (false, c)
    else
      let url := remove url 0 (index + 3)
      let index := unsignedIndex (indexOf url '/' 0)
      let r := c.takeAuthorization encode (substring url 0 index)
      (true, { r.1.takePort r.2 with uri := remove url 0 index })

/-- `begin(url)`, which goes on as `begin(url, NULL)` if the URL is not one of plain HTTP. -/
def begin (encode : List Char → List Char) (c : Client) (url : List Char) : Bool × Client :=
  let r := beginInternal encode { c with transportTraits := none, port := 80 } url "http".toList
  if r.1 then (true, { r.2 with transportTraits := some false })
  else
    let r := beginInternal encode { r.2 with transportTraits := none, port := 443 } url
      "https".toList
    if r.1 then (true, { r.2 with transportTraits := some true }) else (false, r.2)

/-- `addHeader`, behind the other headers; a header of that name is replaced. -/
def addHeader (c : Client) (name value : List Char) : Client :=
  if equalsIgnoreCase name "Connection".toList || equalsIgnoreCase name "User-Agent".toList ||
      equalsIgnoreCase name "Host".toList ||
      equalsIgnoreCase name "Authorization".toList && c.base64Authorization.length ≠ 0 then c
  else
    let headerLine := name ++ ": ".toList
    let headers :=
      match indexOfString c.headers headerLine with
      | none => c.headers
      | some headerStart =>
        let headerEnd := (indexOf c.headers '\n' headerStart).elim 0 (· + 1)
        substring c.headers 0 headerStart ++ substring c.headers headerEnd c.headers.length
    { c with headers := headers ++ (headerLine ++ value ++ "\r\n".toList) }

/-- The port in the header, which does not name those of the web. -/
def portText (c : Client) : List Char :=
  if c.port ≠ 80 ∧ c.port ≠ 443 then ':' :: utoa c.port else []

/-- What `sendHeader` writes. -/
def header (c : Client) (type : List Char) : List Char :=
  type ++ " ".toList ++ c.uri ++ " HTTP/1.".toList ++ (if c.useHTTP10 then "0" else "1").toList ++
    "\r\nHost: ".toList ++ c.host ++ c.portText ++
    "\r\nUser-Agent: ".toList ++ c.userAgent ++ "\r\nConnection: ".toList ++
    (if c.reuse then "keep-alive" else "close").toList ++ "\r\n".toList ++
    (if c.useHTTP10 then "" else "Accept-Encoding: identity;q=1,chunked;q=0.1,*;q=0\r\n").toList ++
    (if c.base64Authorization.length ≠ 0 then
      "Authorization: Basic ".toList ++ erase c.base64Authorization ['\n'] ++ "\r\n".toList
    else []) ++ c.headers ++ "\r\n".toList

end Client

/-! ## Connections -/

/-- Where a client connects to. -/
structure Address where
  host : List Char
  port : Nat
  secure : Bool
deriving DecidableEq

/-- The other end of a connection. -/
structure Peer where
  /-- How many bytes it takes. -/
  accepts : Nat
  /-- What it sends after a request. -/
  answer : List Char → Feed Char

/-- `sendRequest`, and then `getString`, on a client that is not connected. -/
def Client.sendRequest (network : Address → Option Peer) (c : Client) (type payload : List Char) :
    Option (Int × List Char) :=
  match c.transportTraits.bind fun secure => network ⟨c.host, c.port, secure⟩ with
  | none => some (connectionRefused, [])
  | some peer =>
    let c := if 0 < payload.length then c.addHeader "Content-Length".toList (utoa payload.length)
      else c
    let header := c.header type
    if peer.accepts < header.length then some (sendHeaderFailed, [])
    else if peer.accepts < header.length + payload.length then some (sendPayloadFailed, [])
    else receive (peer.answer (header ++ payload))

/-! ## The database library -/

structure FirebaseESP32 where
  host : List Char := []
  auth : List Char := []

namespace FirebaseESP32

def begin (host auth : List Char) : FirebaseESP32 where
  host := erase (erase host "https:".toList) "/".toList
  auth := auth

def buildRequestedURL (d : FirebaseESP32) (path : List Char) : List Char :=
  let url := "https://".toList ++ d.host ++ "/".toList ++ path ++ ".json".toList
  if 0 < d.auth.length then url ++ ("?auth=".toList ++ d.auth) else url

def firebaseSendHttpRequest (encode : List Char → List Char) (network : Address → Option Peer)
    (d : FirebaseESP32) (path type payload : List Char) : Option Reply :=
  let http : Client := { reuse := true }
  let http := (http.begin encode (d.buildRequestedURL path)).2
  (http.sendRequest network type payload).map Reply.of

/-- Where `firebaseSendHttpRequest` connects to. -/
def target (encode : List Char → List Char) (d : FirebaseESP32) (path : List Char) :
    Option Address :=
  let http := (Client.begin encode { reuse := true } (d.buildRequestedURL path)).2
  http.transportTraits.map fun secure => ⟨http.host, http.port, secure⟩

/-- What it sends there. -/
def sent (encode : List Char → List Char) (d : FirebaseESP32) (path type payload : List Char) :
    List Char :=
  let http := (Client.begin encode { reuse := true } (d.buildRequestedURL path)).2
  let http := if 0 < payload.length then
    http.addHeader "Content-Length".toList (utoa payload.length) else http
  http.header type ++ payload

end FirebaseESP32

/-! ## Requests -/

/-- A request of the database library to a host, which may come with a port. -/
structure Request where
  type : List Char
  host : List Char
  port : Option Nat
  path : List Char
  auth : List Char
  payload : List Char

namespace Request

variable {q : Request}

/-- A port as it follows the name of a host. -/
def portText (q : Request) : List Char := q.port.elim [] fun port => ':' :: utoa port

/-- The resource that is asked for. -/
def uri (q : Request) : List Char :=
  '/' :: q.path ++ ".json".toList ++ if q.auth = [] then [] else "?auth=".toList ++ q.auth

def address (q : Request) : Address := ⟨q.host, q.port.getD 443, true⟩

/-- The ports of the web are not named. -/
def hostText (q : Request) : List Char :=
  q.host ++ if q.port = some 80 ∨ q.port = some 443 then [] else q.portText

def lines (q : Request) : List (List Char) :=
  [q.type ++ ' ' :: q.uri ++ " HTTP/1.1\r".toList,
    headerLine "Host".toList q.hostText,
    headerLine "User-Agent".toList "ESP32HTTPClient".toList,
    headerLine "Connection".toList "keep-alive".toList,
    headerLine "Accept-Encoding".toList "identity;q=1,chunked;q=0.1,*;q=0".toList] ++
  if q.payload = [] then []
  else [headerLine "Content-Length".toList (Numeral.numeral 10 q.payload.length)]

def head (q : Request) : List Char := q.lines.flatMap (· ++ ['\n']) ++ ['\r', '\n']

def text (q : Request) : List Char := q.head ++ q.payload

/-- What comes of a request, given what is at the other end. -/
def exchange (network : Address → Option Peer) (q : Request) : Option (Int × List Char) :=
  match network q.address with
  | none => some (connectionRefused, [])
  | some peer =>
    if q.text.length ≤ peer.accepts then receive (peer.answer q.text)
    else if q.head.length ≤ peer.accepts then some (sendPayloadFailed, [])
    else some (sendHeaderFailed, [])

/-- The host can be told from what follows it. -/
structure WellFormed (q : Request) : Prop where
  host : ∀ c ∈ q.host, c ∉ ['/', ':', '@', '\x00']
  port : ∀ port, q.port = some port → port < 2 ^ 16 ∧ ¬ "https".toList <:+ q.host

/-! ## The URL -/

theorem mem_utoa {c : Char} {n : Nat} (hc : c ∈ utoa n) : c ∉ ['/', ':', '@', '\x00'] := by
  have hall : ∀ d < 10, Numeral.digit d ∉ ['/', ':', '@', '\x00'] := by decide
  exact Numeral.forall_mem_numeral (P := (· ∉ ['/', ':', '@', '\x00'])) (by decide) hall n c hc

/-- A host with its port has none of the marks of a URL but that of a port. -/
theorem WellFormed.mem (hq : q.WellFormed) {c : Char} (hc : c ∈ q.host ++ q.portText) :
    c ∉ ['/', '@', '\x00'] := by
  rw [List.mem_append] at hc
  rcases hc with hc | hc
  · have := hq.host c hc
    simp_all
  · unfold portText at hc
    cases hport : q.port with
    | none => simp [hport] at hc
    | some port =>
      rw [hport, Option.elim_some, List.mem_cons] at hc
      rcases hc with rfl | hc
      · decide
      · have := mem_utoa hc
        simp_all

theorem filter_slash {s : List Char} (hs : ∀ c ∈ s, c = '/') : s.filter (· ≠ '/') = [] := by
  rw [List.filter_eq_nil_iff]
  intro c hc
  simp [hs c hc]

theorem filter_not_slash {s t : List Char} (hs : ∀ c ∈ s, c ∉ '/' :: t) :
    s.filter (· ≠ '/') = s := by
  rw [List.filter_eq_self]
  intro c hc
  simpa using List.ne_of_not_mem_cons (hs c hc)

/-- Between slashes, the protocol does not come again. -/
theorem WellFormed.not_https (hq : q.WellFormed) {before after : List Char}
    (hbefore : ∀ c ∈ before, c = '/') (hafter : ∀ c ∈ after, c = '/') :
    ¬ "https:".toList <:+: before ++ (q.host ++ q.portText) ++ after := by
  rintro ⟨u, v, heq⟩
  have hslash : ':' ∉ before ∧ ':' ∉ after :=
    ⟨fun hc => absurd (hbefore _ hc) (by decide), fun hc => absurd (hafter _ hc) (by decide)⟩
  have hhost : ':' ∉ q.host := fun hc => hq.host _ hc (by decide)
  cases hport : q.port with
  | none =>
    have hmem : ':' ∈ before ++ (q.host ++ q.portText) ++ after := by
      rw [← heq]
      simp
    simp [portText, hport, hslash, hhost] at hmem
  | some port =>
    have hdigits : ':' ∉ utoa port := fun hc => mem_utoa hc (by decide)
    have heq' : (before ++ q.host) ++ ':' :: (utoa port ++ after) =
        (u ++ "https".toList) ++ ':' :: v := by
      rw [show "https:".toList = "https".toList ++ [':'] from rfl, portText, hport] at heq
      simpa using heq.symm
    have hinj := (List.append_cons_inj_of_notMem (by simp [hslash, hhost])
      (by simp [hdigits, hslash])).1 heq'
    -- without the slashes, the name of the host ends so
    have hfilter := congrArg (List.filter (· ≠ '/')) hinj.1
    rw [List.filter_append, List.filter_append, filter_slash hbefore, List.nil_append,
      filter_not_slash fun c hc => hq.host c hc] at hfilter
    exact (hq.port port hport).2 ⟨_, hfilter.symm⟩

/-- However the host is spelled, the library finds it. -/
theorem WellFormed.begin (hq : q.WellFormed) {scheme slash : List Char}
    (hscheme : scheme = [] ∨ scheme = "https://".toList) (hslash : slash = [] ∨ slash = ['/']) :
    FirebaseESP32.begin (scheme ++ (q.host ++ q.portText) ++ slash) q.auth =
      ⟨q.host ++ q.portText, q.auth⟩ := by
  have hafter : ∀ c ∈ slash, c = '/' := by rcases hslash with rfl | rfl <;> simp
  have hfilter : ∀ before : List Char, (∀ c ∈ before, c = '/') →
      erase (before ++ (q.host ++ q.portText) ++ slash) "/".toList = q.host ++ q.portText :=
    fun before hbefore => by
      rw [show "/".toList = ['/'] from rfl, erase_singleton, List.filter_append, List.filter_append,
        filter_slash hbefore, filter_slash hafter, List.append_nil, List.nil_append]
      exact filter_not_slash fun c hc => hq.mem hc
  unfold FirebaseESP32.begin
  rcases hscheme with rfl | rfl
  · have hbefore : ∀ c ∈ ([] : List Char), c = '/' := by simp
    rw [erase_absent (hq.not_https hbefore hafter), hfilter [] hbefore]
  · have hbefore : ∀ c ∈ ['/', '/'], c = '/' := by simp
    rw [show "https://".toList = "https:".toList ++ ['/', '/'] from rfl, List.append_assoc,
      List.append_assoc, erase_append (by decide), ← List.append_assoc,
      erase_absent (hq.not_https hbefore hafter), hfilter _ hbefore]

theorem WellFormed.takePort (hq : q.WellFormed) (c : Client) : c.takePort (q.host ++ q.portText) =
    { c with host := q.host, port := q.port.getD c.port } := by
  have hhost : ∀ d ∈ q.host, d ≠ ':' ∧ d ≠ '\x00' := fun d hd => by
    have := hq.host d hd
    simp_all
  unfold Client.takePort portText
  cases hport : q.port with
  | none =>
    rw [Option.elim_none, List.append_nil, indexOf_eq_none fun hc => (hhost _ hc).1 rfl]
    rfl
  | some port =>
    have hlt := (hq.port port hport).1
    have hint : toInt (utoa port) = port := strtol_numeral (by decide) (by decide) (by omega)
    have hremove : remove (q.host ++ ':' :: utoa port) 0 (q.host.length + 1) = utoa port := by
      have hsplit := remove_append (q.host ++ [':']) (utoa port)
      rwa [← List.append_cons, List.length_append] at hsplit
    rw [Option.elim_some, indexOf_append hhost]
    dsimp only
    rw [substring_left fun hc => (hhost _ hc).2 rfl, hremove, hint]
    congr 1
    rw [Option.getD_some]
    omega

theorem WellFormed.takeAuthorization (hq : q.WellFormed) (encode : List Char → List Char)
    (c : Client) : c.takeAuthorization encode (q.host ++ q.portText) =
      (c, q.host ++ q.portText) := by
  unfold Client.takeAuthorization
  rw [indexOf_eq_none fun hc => hq.mem hc (by decide)]

theorem buildRequestedURL_eq : (⟨q.host ++ q.portText, q.auth⟩ : FirebaseESP32).buildRequestedURL
    q.path = "https".toList ++ ':' :: '/' :: '/' :: ((q.host ++ q.portText) ++ q.uri) := by
  unfold FirebaseESP32.buildRequestedURL uri
  by_cases hauth : q.auth = []
  · simp [hauth]
  · simp [hauth, List.length_pos_iff]

/-- The client that has found the host and the resource of a request. -/
def client (q : Request) : Client where
  transportTraits := some true
  host := q.host
  port := q.port.getD 443
  reuse := true
  uri := q.uri
  protocol := "https".toList

/-- The client finds in the URL what the library has put there. -/
theorem WellFormed.client (hq : q.WellFormed) (encode : List Char → List Char) :
    Client.begin encode { reuse := true }
        ("https".toList ++ ':' :: '/' :: '/' :: ((q.host ++ q.portText) ++ q.uri)) =
      (true, q.client) := by
  have hindex : indexOf ("https".toList ++ ':' :: '/' :: '/' :: ((q.host ++ q.portText) ++ q.uri))
      ':' 0 = some 5 := indexOf_append (by decide)
  have hprotocol : substring ("https".toList ++ ':' :: '/' :: '/' ::
      ((q.host ++ q.portText) ++ q.uri)) 0 5 = "https".toList := substring_left (by decide)
  have hrest : remove ("https".toList ++ ':' :: '/' :: '/' :: ((q.host ++ q.portText) ++ q.uri)) 0
      (5 + 3) = (q.host ++ q.portText) ++ q.uri := remove_append "https://".toList _
  have hslash : indexOf ((q.host ++ q.portText) ++ q.uri) '/' 0 =
      some (q.host ++ q.portText).length :=
    indexOf_append fun c hc => by
      have := hq.mem hc
      simp_all
  have hhost : substring ((q.host ++ q.portText) ++ q.uri) 0 (q.host ++ q.portText).length =
      q.host ++ q.portText := substring_left fun hc => hq.mem hc (by decide)
  simp only [Client.begin, Client.beginInternal, hindex, hprotocol, hrest, hslash, unsignedIndex,
    Option.getD_some, hhost, remove_append, hq.takeAuthorization, hq.takePort, Client.clear]
  rfl

theorem addHeader_length (q : Request) :
    q.client.addHeader "Content-Length".toList (utoa q.payload.length) =
      { q.client with
        headers := headerLine "Content-Length".toList (Numeral.numeral 10 q.payload.length) ++
          ['\n'] } := by
  have hconnection : equalsIgnoreCase "Content-Length".toList "Connection".toList = false := by
    decide
  have hagent : equalsIgnoreCase "Content-Length".toList "User-Agent".toList = false := by decide
  have hhost : equalsIgnoreCase "Content-Length".toList "Host".toList = false := by decide
  have hauth : equalsIgnoreCase "Content-Length".toList "Authorization".toList = false := by decide
  rw [Client.addHeader, hconnection, hagent, hhost, hauth]
  simp [client, indexOfString, headerLine, utoa]

theorem portText_client {c : Client} (hc : c.port = q.port.getD 443) :
    c.portText = if q.port = some 80 ∨ q.port = some 443 then [] else q.portText := by
  unfold Client.portText portText
  rw [hc]
  cases q.port with
  | none => rfl
  | some port => by_cases h : port = 80 <;> by_cases h' : port = 443 <;> simp [h, h']

theorem header_client (q : Request) : (if 0 < q.payload.length then
    q.client.addHeader "Content-Length".toList (utoa q.payload.length)
    else q.client).header q.type = q.head := by
  by_cases hpayload : q.payload = []
  · simp [hpayload, Client.header, head, lines, headerLine, hostText, client]
    exact portText_client rfl
  · rw [if_pos (List.length_pos_iff.2 hpayload), q.addHeader_length]
    simp [hpayload, Client.header, head, lines, headerLine, hostText, client]
    exact portText_client rfl

theorem sendRequest_client (q : Request) (network : Address → Option Peer) :
    q.client.sendRequest network q.type q.payload = q.exchange network := by
  have haddress : q.client.transportTraits.bind
      (fun secure => network ⟨q.client.host, q.client.port, secure⟩) = network q.address := rfl
  rw [Client.sendRequest, haddress, exchange]
  cases network q.address with
  | none => rfl
  | some peer =>
    simp only [q.header_client, text, List.length_append]
    split_ifs <;> first | rfl | omega

/-- The library, once it knows the host and the token. -/
def firebase (q : Request) : FirebaseESP32 := ⟨q.host ++ q.portText, q.auth⟩

theorem WellFormed.begin_url (hq : q.WellFormed) (encode : List Char → List Char) :
    Client.begin encode { reuse := true } (q.firebase.buildRequestedURL q.path) =
      (true, q.client) := by
  rw [firebase, buildRequestedURL_eq]
  exact hq.client encode

theorem WellFormed.send (hq : q.WellFormed) (encode : List Char → List Char)
    (network : Address → Option Peer) :
    q.firebase.firebaseSendHttpRequest encode network q.path q.type q.payload =
      (q.exchange network).map Reply.of := by
  unfold FirebaseESP32.firebaseSendHttpRequest
  simp only [hq.begin_url, q.sendRequest_client]

theorem WellFormed.target (hq : q.WellFormed) (encode : List Char → List Char) :
    q.firebase.target encode q.path = some q.address := by
  unfold FirebaseESP32.target
  rw [hq.begin_url]
  rfl

theorem WellFormed.sent (hq : q.WellFormed) (encode : List Char → List Char) :
    q.firebase.sent encode q.path q.type q.payload = q.text := by
  unfold FirebaseESP32.sent
  simp only [hq.begin_url, q.header_client, text]

end Request

end Http

end DollMachine
