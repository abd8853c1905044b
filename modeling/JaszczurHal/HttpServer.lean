import JaszczurHal.HttpFiles

/-!
# The HTTP server

A client slot collects the bytes of its connection in one buffer and looks at the
whole buffer after every receive. A request is complete when its header block and
the declared body are there; what the same receive brought behind them stays in
the buffer and is dropped with the slot.
-/

set_option autoImplicit false

namespace JaszczurHal.HttpServer
open WebSocketHandshake (ascii crlf carriageReturn lineFeed splitAt isBlank trim strIeq cString expired)
open HttpPath (slash space)

inductive Method where
  | get
  | head
  | post
  | put
  | delete
  | options
  | unknown
  deriving DecidableEq

/-- An entry of the route table; `H` is a handler with its user argument. -/
structure Route (H : Type) where
  method : Method
  path : List UInt8
  isPrefix : Bool
  handler : H

structure Timeouts where
  firstByte : ℕ
  request : ℕ
  idle : ℕ

structure Config (H : Type) where
  requestBuffer : ℕ
  maxHeaders : ℕ
  sizeMax : ℕ
  charSigned : Bool
  timeouts : Timeouts
  routes : List (Route H)

structure Request where
  method : Method
  path : List UInt8
  query : List UInt8
  body : List UInt8
  headers : List (List UInt8 × List UInt8)
  deriving DecidableEq

/-- The response of a slot: a text of the server itself, or whatever the handler
makes of the request. The body is left out of a response to HEAD. -/
inductive Outcome (H : Type) where
  | error (status : ℕ)
  | notFound (method : Method)
  | handler (handler : H) (request : Request)
  deriving DecidableEq

inductive RequestState where
  | pending
  | complete (contentLen : ℕ)
  | bad
  | tooLarge
  deriving DecidableEq

def colon : UInt8 := 58
def questionMark : UInt8 := 63

def lines : List UInt8 → List (List UInt8)
  | [] => [[]]
  | [c] => [[c]]
  | c :: d :: text =>
    if c = carriageReturn ∧ d = lineFeed then [] :: lines text
    else
      match lines (d :: text) with
      | [] => [[c]]
      | line :: more => (c :: line) :: more

def trimRight (text : List UInt8) : List UInt8 := text.rdropWhile isBlank

def parseDigits (sizeMax : ℕ) : List UInt8 → ℕ → RequestState
  | [], parsed => .complete parsed
  | c :: value, parsed =>
    if c < 48 ∨ 57 < c then .bad
    else if (sizeMax-(c.toNat-48))/10 < parsed then .tooLarge
    else parseDigits sizeMax value (parsed*10+(c.toNat-48))

def parseHeaderLines (sizeMax : ℕ) : List (List UInt8) → Bool → ℕ → RequestState
  | [], _, contentLen => .complete contentLen
  | line :: more, seen, contentLen =>
    match splitAt [colon] line with
    | none => .bad
    | some (name, value) =>
      if strIeq (trimRight name) (ascii "Transfer-Encoding") then .bad
      else if strIeq (trimRight name) (ascii "Content-Length") then
        if seen ∨ trim value = [] then .bad
        else
          match parseDigits sizeMax (trim value) 0 with
          | .complete parsed => parseHeaderLines sizeMax more true parsed
          | state => state
      else parseHeaderLines sizeMax more seen contentLen

/-- `parse_message_length` on the text before the blank line; a text without a
line end is a request line alone. -/
def parseMessageLength (sizeMax : ℕ) (text : List UInt8) (bodyCapacity : ℕ) : RequestState :=
  match splitAt crlf text with
  | none => .complete 0
  | some (_, headers) =>
    match parseHeaderLines sizeMax (lines headers) false 0 with
    | .complete contentLen => if bodyCapacity < contentLen then .tooLarge else .complete contentLen
    | state => state

section Server
variable {H : Type}

def requestState (c : Config H) (buffer : List UInt8) : RequestState :=
  match splitAt (crlf ++ crlf) (cString buffer) with
  | none => .pending
  | some (text, _) =>
    if c.requestBuffer ≤ text.length+4 then .tooLarge
    else
      match parseMessageLength c.sizeMax text (c.requestBuffer-(text.length+4)-1) with
      | .complete contentLen =>
        if text.length+4+contentLen ≤ buffer.length then .complete contentLen else .pending
      | state => state

def parseMethod (method : List UInt8) : Method :=
  if method = ascii "GET" then .get
  else if method = ascii "HEAD" then .head
  else if method = ascii "POST" then .post
  else if method = ascii "PUT" then .put
  else if method = ascii "DELETE" then .delete
  else if method = ascii "OPTIONS" then .options
  else .unknown

def prefixCovers (route path : List UInt8) : Bool :=
  route.isPrefixOf path &&
    (route.getLast? == some slash || path.length == route.length ||
      (path.drop route.length).head? == some slash)

def findRoute (method : Method) (path : List UInt8) :
    List (Route H) → Option (Route H) → ℕ → Option (Route H)
  | [], best, _ => best
  | route :: routes, best, bestLen =>
    if route.method ≠ method then findRoute method path routes best bestLen
    else if !route.isPrefix ∧ route.path = path then some route
    else if route.isPrefix ∧ bestLen < route.path.length ∧ prefixCovers route.path path then
      findRoute method path routes (some route) route.path.length
    else findRoute method path routes best bestLen

def validHeaderName (charSigned : Bool) (name : List UInt8) : Bool :=
  decide (name ≠ []) && name.all fun c =>
    decide (32 < c) && !(charSigned && decide (128 ≤ c)) && decide (c ≠ colon) && decide (c ≠ 127)

def parseRequestHeaders (c : Config H) : List (List UInt8) → ℕ → List (List UInt8 × List UInt8)
  | [], _ => []
  | line :: more, count =>
    if line = [] then []
    else
      match splitAt [colon] line with
      | none => parseRequestHeaders c more count
      | some (name, value) =>
        if count < c.maxHeaders ∧ validHeaderName c.charSigned (trimRight name) then
          (trimRight name, trim value) :: parseRequestHeaders c more (count+1)
        else parseRequestHeaders c more count

/-- The headers and the body behind a request line of `lineLen` bytes. Without a
second blank line there is neither. -/
def headersAndBody (c : Config H) (buffer rest : List UInt8) (lineLen bodyLen : ℕ) :
    List (List UInt8 × List UInt8) × List UInt8 :=
  match splitAt (crlf ++ crlf) rest with
  | none => ([], [])
  | some (text, _) =>
    (parseRequestHeaders c (lines text) 0,
      (buffer.drop (lineLen+2+(text.length+4))).take bodyLen)

def route (c : Config H) (request : Request) : Outcome H :=
  match findRoute request.method request.path c.routes none 0 with
  | none => .notFound request.method
  | some route => .handler route.handler request

def dispatch (c : Config H) (method target version : List UInt8)
    (contents : List (List UInt8 × List UInt8) × List UInt8) : Outcome H :=
  let path := ((splitAt [questionMark] target).map Prod.fst).getD target
  let query := ((splitAt [questionMark] target).map Prod.snd).getD []
  if parseMethod method = .unknown ∨ !(ascii "HTTP/").isPrefixOf version ∨
      path.head? ≠ some slash then .error 400
  else route c ⟨parseMethod method, path, query, contents.2, contents.1⟩

def processRequest (c : Config H) (buffer : List UInt8) (bodyLen : ℕ) : Outcome H :=
  match splitAt crlf (cString buffer) with
  | none => .error 400
  | some (line, rest) =>
    match splitAt [space] line with
    | none => .error 400
    | some (method, more) =>
      match splitAt [space] more with
      | none => .error 400
      | some (target, version) =>
        dispatch c method target version (headersAndBody c buffer rest line.length bodyLen)

structure Client where
  unread : List UInt8
  request : List UInt8
  acceptedMs : UInt32
  lastActivityMs : UInt32
  deriving DecidableEq

/-- A slot from the accept on: an answered request is never looked at again. -/
inductive Slot (H : Type) where
  | waiting (client : Client)
  | answered (client : Client) (outcome : Outcome H)
  | cleared
  deriving DecidableEq

inductive Receive where
  | nothing
  | failed
  | bytes (count : ℕ)

structure Poll where
  connected : Bool
  receive : Receive
  receivedMs : UInt32
  nowMs : UInt32

def accept (stream : List UInt8) (now : UInt32) : Slot H := .waiting ⟨stream, [], now, now⟩

def append (client : Client) (count : ℕ) (now : UInt32) : Client :=
  { client with
    unread := client.unread.drop count
    request := client.request ++ client.unread.take count
    lastActivityMs := if client.unread.take count = [] then client.lastActivityMs else now }

/-- The receive of a poll; one byte of the buffer is kept for the terminator. -/
def receive (c : Config H) (client : Client) (p : Poll) : Option Client :=
  if client.request.length+1 < c.requestBuffer then
    match p.receive with
    | .nothing => some client
    | .failed => none
    | .bytes count =>
      some (append client (min count (c.requestBuffer-client.request.length-1)) p.receivedMs)
  else some client

def timedOut (t : Timeouts) (client : Client) (now : UInt32) : Bool :=
  (decide (client.request = []) && expired now client.acceptedMs t.firstByte) ||
    expired now client.acceptedMs t.request ||
    (decide (client.request ≠ []) && expired now client.lastActivityMs t.idle)

def checkTimeouts (c : Config H) (client : Client) (now : UInt32) : Slot H :=
  if timedOut c.timeouts client now then .answered client (.error 408) else .waiting client

def examine (c : Config H) (client : Client) (now : UInt32) : Slot H :=
  if c.requestBuffer ≤ client.request.length+1 then .answered client (.error 413)
  else
    match requestState c client.request with
    | .bad => .answered client (.error 400)
    | .tooLarge => .answered client (.error 413)
    | .complete contentLen => .answered client (processRequest c client.request contentLen)
    | .pending => checkTimeouts c client now

def poll (c : Config H) (s : Slot H) (p : Poll) : Slot H :=
  match s with
  | .waiting client =>
    if p.connected then
      match receive c client p with
      | none => .cleared
      | some next => examine c next p.nowMs
    else .cleared
  | s => s

def run (c : Config H) (s : Slot H) (polls : List Poll) : Slot H := polls.foldl (poll c) s

end Server

end JaszczurHal.HttpServer
