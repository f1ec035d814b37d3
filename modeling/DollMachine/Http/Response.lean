import DollMachine.Feed
import DollMachine.Http.Text

/-!
# The answer of the server

`handleHeaderResponse` and `writeToStream` of the HTTP client, on the input of a connection, and
what `firebaseSendHttpRequest` makes of what they find.  The server's bytes come in any bursts; it
is assumed that each comes before the reads on it time out, and that there is memory for the
strings.

A connection that stays open while bytes are missing makes the loop of `writeToStreamDataBlock` spin
without end: its result is `none`.
-/

namespace DollMachine

namespace Http

/-! ## The error codes -/

def connectionRefused : Int := -1
def sendHeaderFailed : Int := -2
def sendPayloadFailed : Int := -3
def notConnected : Int := -4
def connectionLost : Int := -5
def noStream : Int := -6
def noHttpServer : Int := -7
def tooLessRam : Int := -8
def encodingError : Int := -9
def streamWrite : Int := -10
def readTimeout : Int := -11

def errorToString (error : Int) : String :=
  if error = connectionRefused then "connection refused"
  else if error = sendHeaderFailed then "send header failed"
  else if error = sendPayloadFailed then "send payload failed"
  else if error = notConnected then "not connected"
  else if error = connectionLost then "connection lost"
  else if error = noStream then "no stream"
  else if error = noHttpServer then "no HTTP server"
  else if error = tooLessRam then "too less ram"
  else if error = encodingError then "Transfer-Encoding not supported"
  else if error = streamWrite then "Stream write error"
  else if error = readTimeout then "read Timeout"
  else ""

/-! ## The head -/

inductive TransferEncoding
  | identity
  | chunked
deriving DecidableEq

/-- What `handleHeaderResponse` has found; `transferEncoding` is its local variable. -/
structure Head where
  returnCode : Int
  size : Int
  canReuse : Bool
  transferEncoding : List Char
deriving DecidableEq

def Head.start : Head := ⟨-1, -1, false, []⟩

/-- A header of the answer. -/
def Head.field (h : Head) (headerName headerValue : List Char) : Head :=
  let h := if equalsIgnoreCase headerName "Content-Length".toList then
    { h with size := toInt headerValue } else h
  let h := if equalsIgnoreCase headerName "Connection".toList then
    { h with canReuse := equalsIgnoreCase headerValue "keep-alive".toList } else h
  if equalsIgnoreCase headerName "Transfer-Encoding".toList then
    { h with transferEncoding := headerValue } else h

/-- A line of the answer, trimmed. -/
def Head.line (h : Head) (headerLine : List Char) : Head :=
  if startsWith headerLine "HTTP/1.".toList then
    { h with
      returnCode := toInt (substring headerLine 9 (unsignedIndex (indexOf headerLine ' ' 9))) }
  else if indexOf headerLine ':' 0 = some 0 then h
  else
    let colon := indexOf headerLine ':' 0
    h.field (substring headerLine 0 (unsignedIndex colon))
      (trim (substring headerLine (colon.elim 0 (· + 1)) headerLine.length))

/-- The end of the head: the code that is returned, and the encoding of the body. -/
def Head.finish (h : Head) : Int × TransferEncoding :=
  if 0 < h.transferEncoding.length then
    if equalsIgnoreCase h.transferEncoding "chunked".toList then
      (if h.returnCode ≠ 0 then h.returnCode else noHttpServer, .chunked)
    else (encodingError, .identity)
  else (if h.returnCode ≠ 0 then h.returnCode else noHttpServer, .identity)

theorem all_ne_nil_of_now {f : Feed Char} (h : f.now ≠ []) : f.all ≠ [] := by
  simp [Feed.all, h]

/-- The loop of `handleHeaderResponse`: the code, the head, and the input that is left. -/
def readHead (h : Head) (f : Feed Char) : Int × Head × Feed Char :=
  if ¬ f.connected then (connectionLost, h, f)
  else if _hnow : f.now ≠ [] then
    let r := f.readUntil '\n'
    let headerLine := trim r.1
    let h := h.line headerLine
    if headerLine = [] then (h.finish.1, h, r.2) else readHead h r.2
  else
    match _hlater : f.later with
    | [] => (readTimeout, h, f)
    | burst :: bursts => readHead h ⟨burst, bursts, f.closes⟩
termination_by f.size
decreasing_by
  · exact (Feed.readUntil_eq '\n' f).2.2.2.2 (all_ne_nil_of_now _hnow)
  · obtain ⟨now, later, closes⟩ := f
    obtain rfl := not_not.1 _hnow
    obtain rfl := _hlater
    exact Feed.size_wait burst bursts closes

def handleHeaderResponse (f : Feed Char) : Int × Head × Feed Char :=
  if ¬ f.connected then (notConnected, .start, f) else readHead .start f

/-! ## The body -/

/-- `HTTP_TCP_BUFFER_SIZE`, or less for a short block. -/
def buffSize (size : Int) : Nat := if 0 < size ∧ size < 1460 then size.toNat else 1460

/-- How much the loop of `writeToStreamDataBlock` reads at a time. -/
def blockSize (size len : Int) (f : Feed Char) : Nat :=
  min (if 0 < len then min f.now.length len.toNat else f.now.length) (buffSize size)

theorem blockSize_ne_zero {size len : Int} {f : Feed Char} (h : f.now ≠ []) :
    blockSize size len f ≠ 0 := by
  have hnow : 0 < f.now.length := List.length_pos_iff.2 h
  unfold blockSize buffSize
  split_ifs <;> omega

/-- The loop of `writeToStreamDataBlock`, with `len` bytes to go. -/
def copyBlock (size len : Int) (written : List Char) (f : Feed Char) :
    Option (List Char × Feed Char) :=
  if f.connected ∧ (0 < len ∨ len = -1) then
    if _hnow : f.now ≠ [] then
      let readBytes := blockSize size len f
      let r := f.take readBytes
      copyBlock size (if 0 < len then len - readBytes else len) (written ++ r.1) r.2
    else
      match _hlater : f.later with
      | [] => none
      | burst :: bursts => copyBlock size len written ⟨burst, bursts, f.closes⟩
  else some (written, f)
termination_by f.size
decreasing_by
  · exact (Feed.take_eq _ f).2.2.2.2 (blockSize_ne_zero _hnow) (all_ne_nil_of_now _hnow)
  · obtain ⟨now, later, closes⟩ := f
    obtain rfl := not_not.1 _hnow
    obtain rfl := _hlater
    exact Feed.size_wait burst bursts closes

/-- `writeToStreamDataBlock`: its result, what it has written, and the input that is left. -/
def writeToStreamDataBlock (size : Int) (f : Feed Char) : Option (Int × List Char × Feed Char) :=
  (copyBlock size size [] f).map fun r =>
    (if 0 < size ∧ size ≠ r.1.length then streamWrite else r.1.length, r.1, r.2)

theorem size_copyBlock {size len : Int} {written : List Char} {f : Feed Char}
    {r : List Char × Feed Char} (h : copyBlock size len written f = some r) :
    r.2.size ≤ f.size := by
  fun_induction copyBlock size len written f with
  | case1 len written f hgo hnow readBytes taken ih =>
    exact (ih h).trans (Feed.take_eq readBytes f).2.2.2.1
  | case2 => cases h
  | case3 len written f hgo hnow burst bursts hlater ih =>
    refine (ih h).trans ?_
    obtain ⟨now, later, closes⟩ := f
    obtain rfl := not_not.1 hnow
    obtain rfl := hlater
    exact (Feed.size_wait burst bursts closes).le
  | case4 =>
    cases h
    exact le_refl _

theorem size_writeToStreamDataBlock {size ret : Int} {data : List Char} {f g : Feed Char}
    (h : writeToStreamDataBlock size f = some (ret, data, g)) : g.size ≤ f.size := by
  obtain ⟨r, hr, heq⟩ := Option.map_eq_some_iff.1 h
  cases heq
  exact size_copyBlock hr

/-- The loop of `writeToStream` over the chunks; `size` and `ret` are its variables, and `total` is
the field `_size`. -/
def readChunks (total size ret : Int) (written : List Char) (f : Feed Char) :
    Option (Int × List Char) :=
  if ¬ f.connected then some (connectionLost, written)
  else
    let chunkHeader := f.readUntil '\n'
    if _hline : chunkHeader.1.length = 0 then some (readTimeout, written)
    else
      let len := strtol 16 (trim chunkHeader.1)
      let size := size + len
      if 0 < len then
        match _hblock : writeToStreamDataBlock len chunkHeader.2 with
        | none => none
        | some (r, data, g) =>
          if r < 0 then some (r, written ++ data)
          else
            let trailing := g.take 2
            if trailing.1 = ['\r', '\n'] then
              readChunks total size (ret + r) (written ++ data) trailing.2
            else some (readTimeout, written ++ data)
      else
        -- with no length in the head, the chunks themselves give it
        let total := if total ≤ 0 then size else total
        some (if ret ≠ total then streamWrite else ret, written)
termination_by f.size
decreasing_by
  have hall : f.all ≠ [] := by
    rintro hnil
    rw [(Feed.readUntil_eq '\n' f).1, hnil] at _hline
    exact _hline rfl
  have hread := (Feed.readUntil_eq '\n' f).2.2.2.2 hall
  have hblock := size_writeToStreamDataBlock _hblock
  exact ((Feed.take_eq 2 g).2.2.2.1.trans hblock).trans_lt hread

/-- `writeToStream`: its result, and what the stream has got. -/
def writeToStream (h : Head) (encoding : TransferEncoding) (f : Feed Char) :
    Option (Int × List Char) :=
  if ¬ f.connected then some (notConnected, [])
  else
    match encoding with
    | .identity => (writeToStreamDataBlock h.size f).map fun r => (r.1, r.2.1)
    | .chunked => readChunks h.size 0 0 [] f

/-- `getString`, which does not look at the result of `writeToStream`. -/
def getString (h : Head) (encoding : TransferEncoding) (f : Feed Char) : Option (List Char) :=
  (writeToStream h encoding f).map (·.2)

/-! ## The reply -/

/-- The end of `sendRequest`, and then `getString`: the code and the text of an answer.  After an
error the client has closed the connection. -/
def receive (f : Feed Char) : Option (Int × List Char) :=
  let r := handleHeaderResponse f
  if r.1 < 0 then some (r.1, [])
  else (getString r.2.1 r.2.1.finish.2 r.2.2).map fun result => (r.1, result)

/-- What `firebaseSendHttpRequest` returns, with `_errCode` and `_errMsg`. -/
structure Reply where
  errCode : Int
  errMsg : String
  result : List Char
deriving DecidableEq

/-- What `firebaseSendHttpRequest` makes of a code and a text. -/
def Reply.of (r : Int × List Char) : Reply where
  errCode := if r.1 = 200 then 0 else r.1
  errMsg := if r.1 = 200 then "" else errorToString r.1
  result := if r.2 = "null".toList then [] else r.2

end Http

end DollMachine
