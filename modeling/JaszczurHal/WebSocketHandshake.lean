import JaszczurHal.WebSocketFrame
import Mathlib.Data.List.DropRight

/-!
# The WebSocket handshake

The request is collected in a buffer of its own until it holds a blank line.
What one receive brings behind the blank line stays in that buffer and is
dropped with it.
-/

set_option autoImplicit false

namespace JaszczurHal.WebSocketHandshake
open WebSocketFrame

def ascii (text : String) : List UInt8 := text.toList.map fun c => UInt8.ofNat c.toNat

/-- A literal is the list of its characters, so that no text is decoded. -/
theorem ascii_ofList (text : List Char) :
    ascii (String.ofList text) = text.map fun c => UInt8.ofNat c.toNat := by
  rw [ascii, String.toList_ofList]

def carriageReturn : UInt8 := 13
def lineFeed : UInt8 := 10
def crlf : List UInt8 := [carriageReturn, lineFeed]

structure Timeouts where
  firstByte : ℕ
  handshake : ℕ
  idle : ℕ

def defaultTimeouts : Timeouts := ⟨5000, 15000, 5000⟩

def lowerAscii (c : UInt8) : UInt8 := if 65 ≤ c ∧ c ≤ 90 then c+32 else c

def strIeq (left right : List UInt8) : Bool := decide (left.map lowerAscii = right.map lowerAscii)

def splitAt (mark : List UInt8) : List UInt8 → Option (List UInt8 × List UInt8)
  | [] => none
  | c :: text =>
    if mark.isPrefixOf (c :: text) then some ([], (c :: text).drop mark.length)
    else (splitAt mark text).map fun parts => (c :: parts.1, parts.2)

def strIcontains (text needle : List UInt8) : Bool :=
  text.tails.any fun tail => decide (tail ≠ []) &&
    (needle.map lowerAscii).isPrefixOf (tail.map lowerAscii)

def isBlank (c : UInt8) : Bool := decide (c = 32) || decide (c = 9)

def trim (value : List UInt8) : List UInt8 := (value.dropWhile isBlank).rdropWhile isBlank

def copyHeaderValue (name : List UInt8) (size : ℕ) : ℕ → List UInt8 → Option (List UInt8)
  | 0, _ => none
  | fuel+1, headers =>
    if headers = [] then none
    else
      let line := ((splitAt crlf headers).map Prod.fst).getD headers
      let next := (splitAt crlf headers).map Prod.snd
      if line = [] then none
      else
        match splitAt [58] line with
        | some (found, value) =>
          if strIeq found name then
            if (trim value).length < size then some (trim value) else none
          else next.bind (copyHeaderValue name size fuel)
        | none => next.bind (copyHeaderValue name size fuel)

def headerValue (headers : List UInt8) (name : String) (size : ℕ) : Option (List UInt8) :=
  copyHeaderValue (ascii name) size (headers.length+1) headers

def cString (buffer : List UInt8) : List UInt8 := buffer.takeWhile fun c => c ≠ 0

def requestComplete (request : List UInt8) : Bool :=
  (splitAt (crlf ++ crlf) (cString request)).isSome

def requestTarget (line : List UInt8) : Except ℕ (List UInt8) :=
  match splitAt [32] line with
  | none => .error 400
  | some (method, rest) =>
    match splitAt [32] rest with
    | none => .error 400
    | some (target, version) =>
      if strIeq method (ascii "GET") && (ascii "HTTP/").isPrefixOf version then
        .ok (((splitAt [63] target).map Prod.fst).getD target)
      else .error 404

def processHandshake (path request : List UInt8) : Except ℕ (List UInt8) :=
  match splitAt crlf (cString request) with
  | none => .error 400
  | some (line, headers) =>
    match requestTarget line with
    | .error status => .error status
    | .ok target =>
      if target ≠ path then .error 404
      else
        match headerValue headers "Upgrade" 16, headerValue headers "Connection" 64,
            headerValue headers "Sec-WebSocket-Key" 64,
            headerValue headers "Sec-WebSocket-Version" 8 with
        | some upgrade, some connection, some key, some version =>
          if strIeq upgrade (ascii "websocket") && strIcontains connection (ascii "upgrade") &&
              decide (version = ascii "13") && decide (key ≠ []) then .ok key
          else .error 400
        | _, _, _, _ => .error 400

def expired (now started : UInt32) (limit : ℕ) : Bool :=
  decide (0 < limit) && decide (limit ≤ (now-started).toNat)

def timedOut (t : Timeouts) (now accepted lastActivity : UInt32) (length : ℕ) : Bool :=
  (decide (length = 0) && expired now accepted t.firstByte) || expired now accepted t.handshake ||
    (decide (0 < length) && expired now lastActivity t.idle)

def refuse (s : Server) (status : ℕ) : Server := ⟨clearedClient, s.outputs ++ [.httpError status]⟩

def openClient (s : Server) (key : List UInt8) : Server :=
  { client := { s.client with state := .opened, request := [] }
    outputs := s.outputs ++ [.switching key, .connected] }

def checkTimeouts (t : Timeouts) (s : Server) (now : UInt32) : Server :=
  if timedOut t now s.client.acceptedMs s.client.lastActivityMs s.client.request.length then
    refuse s 408
  else s

def handleRequest (l : Limits) (t : Timeouts) (path : List UInt8) (s : Server) (p : Poll) :
    Server :=
  if l.requestBuffer ≤ s.client.request.length+1 then refuse s 413
  else if requestComplete s.client.request then
    match processHandshake path s.client.request with
    | .error status => refuse s status
    | .ok key => if p.sends then openClient s key else ⟨clearedClient, s.outputs⟩
  else checkTimeouts t s p.now

def pollHandshakeClient (l : Limits) (t : Timeouts) (path : List UInt8) (k : Link) (p : Poll) :
    Link :=
  if p.isConnected = false then { k with server := dropClient k.server }
  else
    match receipt p (l.requestBuffer-k.server.client.request.length-1) k.pending with
    | none => { k with server := dropClient k.server }
    | some chunk =>
      let c := k.server.client
      let s := { k.server with client := { c with
        request := c.request ++ chunk
        lastActivityMs := if chunk.length = 0 then c.lastActivityMs else p.now } }
      { server := handleRequest l t path s p, pending := k.pending.drop chunk.length }

def poll (l : Limits) (t : Timeouts) (path : List UInt8) (app : App) (k : Link) (p : Poll) : Link :=
  match k.server.client.state with
  | .handshake => pollHandshakeClient l t path k p
  | .opened => pollOpenClient l app k p
  | .unused => k

def run (l : Limits) (t : Timeouts) (path : List UInt8) (app : App) (k : Link)
    (polls : List Poll) : Link :=
  polls.foldl (poll l t path app) k

def taken (before after : Link) : List UInt8 :=
  before.pending.take (before.pending.length-after.pending.length)

def handshakeBytes (l : Limits) (t : Timeouts) (path : List UInt8) (app : App) :
    Link → List Poll → List UInt8
  | _, [] => []
  | k, p :: polls =>
    (if k.server.client.state = .handshake then taken k (poll l t path app k p) else []) ++
      handshakeBytes l t path app (poll l t path app k p) polls

def acceptedServer (outputs : List Output) (now : UInt32) : Server :=
  ⟨⟨.handshake, [], [], now, now⟩, outputs⟩

def openedServer (outputs : List Output) (accepted last : UInt32) (key : List UInt8) : Server :=
  openClient ⟨⟨.handshake, [], [], accepted, last⟩, outputs⟩ key

/-- A request that ends with its blank line and passes every check. -/
structure ValidRequest (l : Limits) (path request key : List UInt8) : Prop where
  fits : request.length+1 < l.requestBuffer
  whole : requestComplete request = true
  first : ∀ n < request.length, requestComplete (request.take n) = false
  accepted : processHandshake path request = .ok key

/-- The handshake takes the request and nothing else, and what follows is read
as frames. -/
def HandedOver (l : Limits) (t : Timeouts) (path : List UInt8) (app : App) (request rest key : List UInt8)
    (outputs : List Output) (accepted : UInt32) (k : Link) (polls : List Poll) : Prop :=
  handshakeBytes l t path app k polls = request ∧
    ∃ last, Read l app (openedServer outputs accepted last key) rest (run l t path app k polls)

/-- The receives bring the missing bytes of the request in time, nothing
behind them in the same receive, and the response can be sent. -/
def Smooth (t : Timeouts) (accepted : UInt32) (rest : List UInt8) :
    ℕ → ℕ → UInt32 → List Poll → Prop
  | _, _, _, [] => False
  | got, missing, last, p :: polls =>
    let n := p.receive.getD 0
    if n < missing then
      timedOut t p.now accepted (if n = 0 then last else p.now) (got+n) = false ∧
        Smooth t accepted rest (got+n) (missing-n) (if n = 0 then last else p.now) polls
    else p.sends = true ∧ (n = missing ∨ rest = [])

variable {l : Limits} {t : Timeouts} {path : List UInt8} {app : App}

theorem cleared_not_handshake : clearedClient.state ≠ .handshake := by decide

theorem parseFrames_left {s : Server} (h : s.client.state ≠ .handshake) (n : ℕ) :
    (parseFrames l app n s).client.state ≠ .handshake := by
  induction n generalizing s with
  | zero => exact h
  | succ n ih =>
    by_cases hs : s.client.state = .opened
    · cases hdecode : decodeFrame l s.client.frame with
      | more =>
        rw [parseFrames_more hdecode]
        exact h
      | fail code =>
        rw [parseFrames_fail hs hdecode]
        exact cleared_not_handshake
      | frame opcode payload rest =>
        rw [parseFrames_frame hs hdecode]
        apply ih
        rcases handleFrame_cases app s opcode payload with ⟨outputs, h'⟩ | ⟨outputs, h'⟩
        · rw [h' rest]
          exact h
        · rw [h' rest]
          exact cleared_not_handshake
    · rw [parseFrames_closed hs]
      exact h

theorem settle_outputs (s : Server) : s.outputs <+: (settle l app s).outputs := by
  unfold settle
  generalize s.client.frame.length+1 = n
  induction n generalizing s with
  | zero => exact List.prefix_rfl
  | succ n ih =>
    by_cases hs : s.client.state = .opened
    · cases hdecode : decodeFrame l s.client.frame with
      | more => rw [parseFrames_more hdecode]
      | fail code =>
        rw [parseFrames_fail hs hdecode]
        exact List.prefix_append _ _
      | frame opcode payload rest =>
        rw [parseFrames_frame hs hdecode]
        refine List.IsPrefix.trans ?_ (ih _)
        rcases handleFrame_cases app s opcode payload with ⟨outputs, h'⟩ | ⟨outputs, h'⟩
        · rw [h' rest]
          exact List.prefix_append _ _
        · rw [h' rest]
          exact List.prefix_append _ _
    · rw [parseFrames_closed hs]

theorem poll_behind {k : Link} (h : k.server.client.state ≠ .handshake) (p : Poll) :
    poll l t path app k p = pollOpen l app k p := by
  rw [poll, pollOpen]
  cases hs : k.server.client.state with
  | handshake => exact absurd hs h
  | opened => rw [if_pos rfl]
  | unused => rw [if_neg (by decide)]

theorem read_behind {s : Server} {stream : List UInt8} {k : Link}
    (hs : s.client.state = .opened) (h : Read l app s stream k) :
    k.server.client.state ≠ .handshake := by
  obtain ⟨first, _, hserver⟩ := h
  rw [hserver]
  refine parseFrames_left ?_ _
  show s.client.state ≠ .handshake
  rw [hs]
  decide

/-- Once the client is open, its receives are those of the frame buffer. -/
theorem run_behind {s : Server} {stream : List UInt8} {k : Link} (polls : List Poll)
    (hs : s.client.state = .opened) (hp : ∀ p ∈ polls, p.Calm) (h : Read l app s stream k) :
    Read l app s stream (run l t path app k polls) ∧
      handshakeBytes l t path app k polls = [] := by
  induction polls generalizing k with
  | nil => exact ⟨h, rfl⟩
  | cons p polls ih =>
    have hbehind := read_behind hs h
    have hread := read_poll hs (hp p List.mem_cons_self) h
    rw [← poll_behind hbehind] at hread
    obtain ⟨hrun, hbytes⟩ := ih (fun q hq => hp q (List.mem_cons_of_mem p hq)) hread
    refine ⟨hrun, ?_⟩
    rw [handshakeBytes, if_neg hbehind, hbytes]
    rfl

theorem run_unused {k : Link} (h : k.server.client.state = .unused) (polls : List Poll) :
    run l t path app k polls = k ∧ handshakeBytes l t path app k polls = [] := by
  induction polls with
  | nil => exact ⟨rfl, rfl⟩
  | cons p polls ih =>
    have hpoll : poll l t path app k p = k := by rw [poll, h]
    refine ⟨?_, ?_⟩
    · show run l t path app (poll l t path app k p) polls = k
      rw [hpoll]
      exact ih.1
    · rw [handshakeBytes, hpoll, h, ih.2]
      rfl

def gathering (request rest : List UInt8) (outputs : List Output) (accepted last : UInt32)
    (got : ℕ) : Link :=
  ⟨⟨⟨.handshake, request.take got, [], accepted, last⟩, outputs⟩, request.drop got ++ rest⟩

theorem gathering_poll {request rest : List UInt8} {outputs : List Output} {accepted last : UInt32}
    {got n : ℕ} {p : Poll} (hp : p.isConnected = true) (hn : p.receive = some n)
    (hroom : n ≤ l.requestBuffer - (request.take got).length - 1 ∨
      (request.drop got ++ rest).length ≤ l.requestBuffer - (request.take got).length - 1) :
    poll l t path app (gathering request rest outputs accepted last got) p =
      { server := handleRequest l t path
          ⟨⟨.handshake, request.take got ++ (request.drop got ++ rest).take n, [], accepted,
            if ((request.drop got ++ rest).take n).length = 0 then last else p.now⟩, outputs⟩ p
        pending := (request.drop got ++ rest).drop n } := by
  have hlost : ¬ p.isConnected = false := by rw [hp]; decide
  have htake : (request.drop got ++ rest).take
      (min n (l.requestBuffer - (request.take got).length - 1)) =
      (request.drop got ++ rest).take n := by
    rcases hroom with hroom | hroom
    · rw [Nat.min_eq_left hroom]
    · by_cases hle : n ≤ l.requestBuffer - (request.take got).length - 1
      · rw [Nat.min_eq_left hle]
      · rw [List.take_of_length_le (by omega), List.take_of_length_le (by omega)]
  have hdrop : (request.drop got ++ rest).drop ((request.drop got ++ rest).take n).length =
      (request.drop got ++ rest).drop n := by
    rw [List.length_take]
    by_cases hle : n ≤ (request.drop got ++ rest).length
    · rw [Nat.min_eq_left hle]
    · rw [Nat.min_eq_right (by omega), List.drop_length, List.drop_eq_nil_of_le (by omega)]
  show pollHandshakeClient l t path (gathering request rest outputs accepted last got) p = _
  rw [pollHandshakeClient, if_neg hlost, receipt, hn]
  show ({ server := handleRequest l t path _ p, pending := _ } : Link) = _
  simp only [gathering, htake, hdrop]

theorem gathering_taken {request rest : List UInt8} {outputs : List Output}
    {accepted last : UInt32} {got n : ℕ} {p : Poll} (hp : p.isConnected = true)
    (hn : p.receive = some n) :
    taken (gathering request rest outputs accepted last got)
        (poll l t path app (gathering request rest outputs accepted last got) p) =
      (request.drop got ++ rest).take (min n (l.requestBuffer-(request.take got).length-1)) := by
  have hlost : ¬ p.isConnected = false := by rw [hp]; decide
  have hpending : (poll l t path app (gathering request rest outputs accepted last got) p).pending =
      (request.drop got ++ rest).drop ((request.drop got ++ rest).take
        (min n (l.requestBuffer-(request.take got).length-1))).length := by
    show (pollHandshakeClient l t path (gathering request rest outputs accepted last got) p).pending
      = _
    rw [pollHandshakeClient, if_neg hlost, receipt, hn]
    rfl
  rw [taken, hpending, List.length_drop, List.length_take]
  show (request.drop got ++ rest).take ((request.drop got ++ rest).length - _) = _
  rw [List.take_eq_take_iff]
  omega

theorem handleRequest_partial {request outputs accepted last} {key : List UInt8} {m : ℕ} {p : Poll}
    (hvalid : ValidRequest l path request key) (hm : m < request.length) :
    handleRequest l t path ⟨⟨.handshake, request.take m, [], accepted, last⟩, outputs⟩ p =
      if timedOut t p.now accepted last m then ⟨clearedClient, outputs ++ [.httpError 408]⟩
      else ⟨⟨.handshake, request.take m, [], accepted, last⟩, outputs⟩ := by
  have hfits := hvalid.fits
  have hlength : (request.take m).length = m := by
    rw [List.length_take]
    omega
  have hroom : ¬ l.requestBuffer ≤ (request.take m).length+1 := by omega
  have hpart : ¬ requestComplete (request.take m) = true := by
    rw [hvalid.first m hm]
    decide
  rw [handleRequest, if_neg hroom, if_neg hpart, checkTimeouts]
  show (if timedOut t p.now accepted last (request.take m).length then _ else _) = _
  rw [hlength]
  rfl

theorem handleRequest_whole {request key : List UInt8} {outputs : List Output}
    {accepted last : UInt32} {p : Poll} (hvalid : ValidRequest l path request key) :
    handleRequest l t path ⟨⟨.handshake, request, [], accepted, last⟩, outputs⟩ p =
      if p.sends then openedServer outputs accepted last key else ⟨clearedClient, outputs⟩ := by
  have hfits := hvalid.fits
  have hroom : ¬ l.requestBuffer ≤ request.length+1 := by omega
  rw [handleRequest, if_neg hroom, if_pos hvalid.whole, hvalid.accepted]
  rfl

theorem gathering_partial {request rest key : List UInt8} {outputs : List Output}
    {accepted last : UInt32} {got n : ℕ} {p : Poll} (hvalid : ValidRequest l path request key)
    (hp : p.isConnected = true) (hn : p.receive = some n) (hpart : n < request.length-got) :
    poll l t path app (gathering request rest outputs accepted last got) p =
      if timedOut t p.now accepted (if n = 0 then last else p.now) (got+n) then
        ⟨⟨clearedClient, outputs ++ [.httpError 408]⟩, request.drop (got+n) ++ rest⟩
      else gathering request rest outputs accepted (if n = 0 then last else p.now) (got+n) := by
  have hfits := hvalid.fits
  have hgotten : (request.take got).length = got := by
    rw [List.length_take]
    omega
  have hchunk : (request.drop got ++ rest).take n = (request.drop got).take n := by
    apply List.take_append_of_le_length
    rw [List.length_drop]
    omega
  have hlength : ((request.drop got).take n).length = n := by
    rw [List.length_take, List.length_drop]
    omega
  have hpending : (request.drop got ++ rest).drop n = request.drop (got+n) ++ rest := by
    rw [List.drop_append_of_le_length, List.drop_drop]
    rw [List.length_drop]
    omega
  rw [gathering_poll hp hn (Or.inl (by omega)), hchunk, hlength, hpending, ← List.take_add,
    handleRequest_partial hvalid (by omega)]
  cases timedOut t p.now accepted (if n = 0 then last else p.now) (got+n) with
  | true => rfl
  | false => rfl

theorem gathering_whole {request rest key : List UInt8} {outputs : List Output}
    {accepted last : UInt32} {got n : ℕ} {p : Poll} (hvalid : ValidRequest l path request key)
    (hp : p.isConnected = true) (hn : p.receive = some n) (hgot : got < request.length)
    (hwhole : request.length-got ≤ n) (hexact : n = request.length-got ∨ rest = []) :
    ∃ last', poll l t path app (gathering request rest outputs accepted last got) p =
      ⟨if p.sends then openedServer outputs accepted last' key else ⟨clearedClient, outputs⟩,
        rest⟩ := by
  have hfits := hvalid.fits
  have hgotten : (request.take got).length = got := by
    rw [List.length_take]
    omega
  have hmissing : (request.drop got).length = request.length-got := List.length_drop
  have hroom : n ≤ l.requestBuffer-(request.take got).length-1 ∨
      (request.drop got ++ rest).length ≤ l.requestBuffer-(request.take got).length-1 := by
    rcases hexact with hexact | hexact
    · omega
    · rw [hexact, List.append_nil]
      omega
  have hchunk : (request.drop got ++ rest).take n = request.drop got := by
    rcases hexact with hexact | hexact
    · rw [hexact, ← hmissing, List.take_left]
    · rw [hexact, List.append_nil, List.take_of_length_le (by omega)]
  have hpending : (request.drop got ++ rest).drop n = rest := by
    rcases hexact with hexact | hexact
    · rw [hexact, ← hmissing, List.drop_left]
    · rw [hexact, List.append_nil, List.drop_eq_nil_of_le (by omega)]
  refine ⟨if (request.drop got).length = 0 then last else p.now, ?_⟩
  rw [gathering_poll hp hn hroom, hchunk, hpending, List.take_append_drop,
    handleRequest_whole hvalid]

theorem handshakeBytes_cons {k : Link} (hk : k.server.client.state = .handshake) (p : Poll)
    (polls : List Poll) :
    handshakeBytes l t path app k (p :: polls) =
      taken k (poll l t path app k p) ++
        handshakeBytes l t path app (poll l t path app k p) polls := by
  rw [handshakeBytes, if_pos hk]

theorem opened_read (outputs : List Output) (accepted last : UInt32) (key rest : List UInt8) :
    Read l app (openedServer outputs accepted last key) rest
      ⟨openedServer outputs accepted last key, rest⟩ :=
  ⟨[], rfl, (parseFrames_more rfl _).symm⟩

theorem unused_not_read {outputs outputs' : List Output} {accepted last : UInt32}
    {key rest pending : List UInt8} (h : outputs'.length ≤ outputs.length+1) :
    ¬ Read l app (openedServer outputs accepted last key) rest ⟨⟨clearedClient, outputs'⟩, pending⟩ := by
  rintro ⟨first, _, hserver⟩
  have hbefore := @settle_outputs l app (setFrame (openedServer outputs accepted last key) first)
  rw [← hserver] at hbefore
  have hlength := hbefore.length_le
  have hmore : (setFrame (openedServer outputs accepted last key) first).outputs.length =
      outputs.length+2 := by
    simp [setFrame, openedServer, openClient]
  simp only [hmore] at hlength
  omega

theorem handover_from {request rest key : List UInt8} {outputs : List Output} {accepted : UInt32}
    (hvalid : ValidRequest l path request key) (polls : List Poll) (hp : ∀ p ∈ polls, p.Calm)
    (got : ℕ) (hgot : got < request.length) (last : UInt32) :
    (handshakeBytes l t path app (gathering request rest outputs accepted last got) polls =
        request.drop got ∧
      ∃ last', Read l app (openedServer outputs accepted last' key) rest
        (run l t path app (gathering request rest outputs accepted last got) polls)) ↔
      Smooth t accepted rest got (request.length-got) last polls := by
  have hfits := hvalid.fits
  induction polls generalizing got last with
  | nil =>
    refine ⟨fun h => ?_, fun h => h.elim⟩
    have hlength := congrArg List.length h.1
    rw [List.length_drop] at hlength
    simp only [handshakeBytes, List.length_nil] at hlength
    omega
  | cons p polls ih =>
    obtain ⟨hconnected, hreceive⟩ := hp p List.mem_cons_self
    obtain ⟨n, hn⟩ := Option.ne_none_iff_exists'.mp hreceive
    have hrest := fun q hq => hp q (List.mem_cons_of_mem p hq)
    have hgotten : (request.take got).length = got := by
      rw [List.length_take]
      omega
    have hmissing : (request.drop got).length = request.length-got := List.length_drop
    have htaken := @gathering_taken l t path app request rest outputs accepted last got n p
      hconnected hn
    rw [handshakeBytes_cons rfl, htaken, hgotten, Smooth, hn]
    simp only [Option.getD_some]
    by_cases hpart : n < request.length-got
    · have hchunk : (request.drop got ++ rest).take (min n (l.requestBuffer-got-1)) =
          (request.drop got).take n := by
        rw [Nat.min_eq_left (by omega), List.take_append_of_le_length (by omega)]
      have hsplit : request.drop got = (request.drop got).take n ++ request.drop (got+n) := by
        rw [← List.drop_drop, List.take_append_drop]
      have hcons : run l t path app (gathering request rest outputs accepted last got) (p :: polls) =
          run l t path app (poll l t path app
            (gathering request rest outputs accepted last got) p) polls := rfl
      rw [if_pos hpart, hchunk, hcons, gathering_partial hvalid hconnected hn hpart]
      by_cases hout : timedOut t p.now accepted (if n = 0 then last else p.now) (got+n) = true
      · rw [if_pos hout, (run_unused rfl polls).2, List.append_nil]
        refine ⟨fun h => ?_, fun h => ?_⟩
        · have hlength := congrArg List.length h.1
          rw [List.length_take] at hlength
          omega
        · rw [hout] at h
          cases h.1
      · have hin : timedOut t p.now accepted (if n = 0 then last else p.now) (got+n) = false := by
          simpa using hout
        have hmore := ih hrest (got+n) (by omega) (if n = 0 then last else p.now)
        have hcancel : ∀ bytes, (request.drop got).take n ++ bytes = request.drop got ↔
            bytes = request.drop (got+n) := fun bytes =>
          ⟨fun h => List.append_cancel_left (h.trans hsplit), fun h => h ▸ hsplit.symm⟩
        rw [if_neg hout, hin, Nat.sub_sub, hcancel]
        exact ⟨fun h => ⟨rfl, hmore.mp h⟩, fun h => hmore.mpr h.2⟩
    · rw [if_neg hpart]
      have hcons : run l t path app (gathering request rest outputs accepted last got) (p :: polls) =
          run l t path app (poll l t path app
            (gathering request rest outputs accepted last got) p) polls := rfl
      by_cases hexact : n = request.length-got ∨ rest = []
      · have hchunk : (request.drop got ++ rest).take (min n (l.requestBuffer-got-1)) =
            request.drop got := by
          rcases hexact with hexact | hexact
          · rw [Nat.min_eq_left (by omega), hexact, ← hmissing, List.take_left]
          · rw [hexact, List.append_nil, List.take_of_length_le (by omega)]
        obtain ⟨last', hpoll⟩ := @gathering_whole l t path app request rest key outputs accepted
          last got n p hvalid hconnected hn hgot (by omega) hexact
        rw [hchunk, hcons, hpoll]
        cases hsends : p.sends with
        | true =>
          obtain ⟨hread, hbytes⟩ := run_behind polls rfl hrest
            (opened_read outputs accepted last' key rest)
          rw [if_pos rfl, hbytes, List.append_nil]
          exact ⟨fun _ => ⟨rfl, hexact⟩, fun _ => ⟨rfl, last', hread⟩⟩
        | false =>
          have hstay := @run_unused l t path app ⟨⟨clearedClient, outputs⟩, rest⟩ rfl polls
          rw [if_neg (by decide), hstay.1]
          refine ⟨fun h => ?_, fun h => (Bool.false_ne_true h.1).elim⟩
          obtain ⟨last', hread⟩ := h.2
          exact absurd hread (unused_not_read (by omega))
      · refine ⟨fun h => ?_, fun h => absurd h.2 hexact⟩
        obtain ⟨hmore, hbehind⟩ := not_or.mp hexact
        have hpositive := List.length_pos_of_ne_nil hbehind
        have hlength := congrArg List.length h.1
        rw [List.length_append, List.length_take, List.length_append] at hlength
        omega

/-- The handshake hands over exactly when the end of the request is the end of
a receive, or nothing follows it, and the request is complete and answered. -/
theorem handed_over_iff (l : Limits) (t : Timeouts) (path : List UInt8) (app : App)
    (request rest key : List UInt8) (hvalid : ValidRequest l path request key)
    (outputs : List Output) (accepted : UInt32) (polls : List Poll) (hp : ∀ p ∈ polls, p.Calm) :
    HandedOver l t path app request rest key outputs accepted
        ⟨acceptedServer outputs accepted, request ++ rest⟩ polls ↔
      Smooth t accepted rest 0 request.length accepted polls := by
  have hpositive : 0 < request.length := by
    refine List.length_pos_of_ne_nil fun hempty => ?_
    have hwhole := hvalid.whole
    rw [hempty] at hwhole
    exact absurd hwhole (by decide)
  exact handover_from hvalid polls hp 0 hpositive accepted

def samplePath : List UInt8 := ascii "/ws"
def sampleKey : List UInt8 := ascii "dGhlIHNhbXBsZSBub25jZQ=="

def sampleRequest : List UInt8 :=
  ascii "GET /ws HTTP/1.1\r\nHost: fuzz\r\nUpgrade: websocket\r\nConnection: Upgrade\r\n" ++
    ascii "Sec-WebSocket-Key: " ++ sampleKey ++ ascii "\r\nSec-WebSocket-Version: 13\r\n\r\n"

/-- The bytes of the request, so that they are computed once. -/
theorem sampleRequest_bytes : sampleRequest =
    [71, 69, 84, 32, 47, 119, 115, 32, 72, 84, 84, 80, 47, 49, 46, 49, 13, 10, 72, 111, 115,
     116, 58, 32, 102, 117, 122, 122, 13, 10, 85, 112, 103, 114, 97, 100, 101, 58, 32, 119, 101,
     98, 115, 111, 99, 107, 101, 116, 13, 10, 67, 111, 110, 110, 101, 99, 116, 105, 111, 110,
     58, 32, 85, 112, 103, 114, 97, 100, 101, 13, 10, 83, 101, 99, 45, 87, 101, 98, 83, 111, 99,
     107, 101, 116, 45, 75, 101, 121, 58, 32, 100, 71, 104, 108, 73, 72, 78, 104, 98, 88, 66,
     115, 90, 83, 66, 117, 98, 50, 53, 106, 90, 81, 61, 61, 13, 10, 83, 101, 99, 45, 87, 101,
     98, 83, 111, 99, 107, 101, 116, 45, 86, 101, 114, 115, 105, 111, 110, 58, 32, 49, 51, 13,
     10, 13, 10] := by
  rw [sampleRequest, sampleKey, ascii_ofList, ascii_ofList, ascii_ofList, ascii_ofList]
  rfl

theorem sampleKey_bytes : sampleKey =
    [100, 71, 104, 108, 73, 72, 78, 104, 98, 88, 66, 115, 90, 83, 66, 117, 98, 50, 53, 106, 90,
     81, 61, 61] := by
  rw [sampleKey, ascii_ofList]
  rfl

theorem splitAt_take {mark text : List UInt8} (h : splitAt mark text = none) (n : ℕ) :
    splitAt mark (text.take n) = none := by
  induction text generalizing n with
  | nil => rw [List.take_nil, splitAt]
  | cons c text ih =>
    cases n with
    | zero => rfl
    | succ n =>
      rw [splitAt] at h
      by_cases hmark : mark.isPrefixOf (c :: text) = true
      · rw [if_pos hmark] at h
        cases h
      · rw [if_neg hmark, Option.map_eq_none_iff] at h
        have hless : ¬ mark.isPrefixOf (c :: text.take n) = true := fun hless =>
          hmark (List.isPrefixOf_iff_prefix.mpr
            ((List.isPrefixOf_iff_prefix.mp hless).trans (List.take_prefix (n+1) (c :: text))))
        rw [List.take_succ_cons, splitAt, if_neg hless, ih h n]
        rfl

theorem requestComplete_take {request : List UInt8} (h : requestComplete request = false) (n : ℕ) :
    requestComplete (request.take n) = false := by
  have hstring : cString (request.take n) = (cString request).take n := by
    rw [cString, cString, List.take_takeWhile]
  rw [requestComplete, Option.isSome_eq_false_iff, Option.isNone_iff_eq_none] at h ⊢
  rw [hstring]
  exact splitAt_take h n

theorem sampleRequest_valid : ValidRequest defaultLimits samplePath sampleRequest sampleKey := by
  rw [sampleRequest_bytes, sampleKey_bytes]
  constructor
  · decide +kernel
  · decide +kernel
  · intro n hn
    have hless : ∀ request : List UInt8, n < request.length →
        request.take n = (request.take (request.length-1)).take n := fun request hlt => by
      rw [List.take_take, Nat.min_eq_left (by omega)]
    rw [hless _ hn]
    exact requestComplete_take (by decide +kernel) n
  · decide +kernel

/-- The ping comes in a receive of its own. -/
theorem sample_handed_over :
    HandedOver defaultLimits defaultTimeouts samplePath quietApp sampleRequest pingStream sampleKey
      [] 0 ⟨acceptedServer [] 0, sampleRequest ++ pingStream⟩
      [calmPoll sampleRequest.length, calmPoll 7] := by
  refine (handed_over_iff defaultLimits defaultTimeouts samplePath quietApp sampleRequest pingStream
    sampleKey sampleRequest_valid [] 0 [calmPoll sampleRequest.length, calmPoll 7] ?_).mpr ?_
  · simp [calmPoll_calm]
  · rw [Smooth]
    show if sampleRequest.length < sampleRequest.length then _ else _
    rw [if_neg (lt_irrefl _)]
    exact ⟨rfl, Or.inl rfl⟩

theorem rough_not_handed_over {request rest key : List UInt8} (hvalid : ValidRequest l path request key)
    (outputs : List Output) (accepted : UInt32) (polls : List Poll) (hp : ∀ p ∈ polls, p.Calm)
    (hrough : ¬ Smooth t accepted rest 0 request.length accepted polls) :
    ¬ HandedOver l t path app request rest key outputs accepted
      ⟨acceptedServer outputs accepted, request ++ rest⟩ polls := by
  have hpositive : 0 < request.length := by
    refine List.length_pos_of_ne_nil fun hempty => ?_
    have hwhole := hvalid.whole
    rw [hempty] at hwhole
    exact absurd hwhole (by decide)
  exact fun h => hrough ((handover_from hvalid polls hp 0 hpositive accepted).mp h)

/-- A ping that comes in the same receive as the end of the request is never
answered. -/
theorem early_ping_lost :
    ¬ HandedOver defaultLimits defaultTimeouts samplePath quietApp sampleRequest pingStream sampleKey
        [] 0 ⟨acceptedServer [] 0, sampleRequest ++ pingStream⟩ [calmPoll 511, calmPoll 264] ∧
      run defaultLimits defaultTimeouts samplePath quietApp
        ⟨acceptedServer [] 0, sampleRequest ++ pingStream⟩ [calmPoll 511, calmPoll 264] =
          ⟨openedServer [] 0 0 sampleKey, []⟩ ∧
      (run defaultLimits defaultTimeouts samplePath quietApp
        ⟨acceptedServer [] 0, sampleRequest ++ pingStream⟩
        [calmPoll sampleRequest.length, calmPoll 7]).server.outputs =
          [.switching sampleKey, .connected, .pong [0x41]] := by
  refine ⟨rough_not_handed_over sampleRequest_valid [] 0 [calmPoll 511, calmPoll 264]
    (by simp [calmPoll_calm]) ?_, ?_, ?_⟩
  · have hlength : sampleRequest.length = 145 := by
      rw [sampleRequest, sampleKey, ascii_ofList, ascii_ofList, ascii_ofList, ascii_ofList]
      rfl
    have hping : pingStream ≠ [] := by decide
    rw [Smooth, hlength]
    simp [calmPoll, hping]
  · rw [sampleRequest_bytes, sampleKey_bytes]
    decide +kernel
  · rw [sampleRequest_bytes, sampleKey_bytes]
    decide +kernel

end JaszczurHal.WebSocketHandshake
