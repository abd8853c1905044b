import JaszczurHal.ByteImage

/-!
# WebSocket frames from a socket

An open client collects what its socket receives in a frame buffer and takes
whole frames off its front. The outputs depend on the received bytes only,
not on where one receive ended and the next began.
-/

set_option autoImplicit false

namespace JaszczurHal.WebSocketFrame
open ByteImage

def opcodeContinuation : UInt8 := 0
def opcodeText : UInt8 := 1
def opcodeBinary : UInt8 := 2
def opcodeClose : UInt8 := 8
def opcodePing : UInt8 := 9
def opcodePong : UInt8 := 10

def closeNormal : UInt16 := 1000
def closeProtocolError : UInt16 := 1002
def closeUnsupportedData : UInt16 := 1003
def closeTooBig : UInt16 := 1009

structure Limits where
  maxPayload : ℕ
  frameBuffer : ℕ
  requestBuffer : ℕ
  positive : 1 ≤ maxPayload
  room : maxPayload+8 ≤ frameBuffer

def defaultLimits : Limits := ⟨256, 264, 512, by decide, by decide⟩

inductive MessageType where
  | text
  | binary
  deriving DecidableEq, Repr

inductive Output where
  | switching (key : List UInt8)
  | httpError (status : ℕ)
  | connected
  | message (type : MessageType) (payload : List UInt8)
  | pong (payload : List UInt8)
  | closeFrame (code : UInt16)
  | disconnected (code : UInt16)
  | sent (opcode : UInt8) (payload : List UInt8)
  deriving DecidableEq, Repr

/-- `on_message`, if there is one: what it does itself, knowing all that
happened before, and whether it leaves the client open and the server
running. -/
structure App where
  onMessage : Option (List Output → List Output × Bool)

inductive ClientState where
  | unused
  | handshake
  | opened
  deriving DecidableEq, Repr

structure Client where
  state : ClientState
  request : List UInt8
  frame : List UInt8
  acceptedMs : UInt32
  lastActivityMs : UInt32
  deriving DecidableEq, Repr

def clearedClient : Client := ⟨.unused, [], [], 0, 0⟩

structure Server where
  client : Client
  outputs : List Output
  deriving DecidableEq, Repr

/-- The first frame in a buffer: not complete yet, against the protocol, or
its opcode, unmasked payload and what follows it. -/
inductive Decoded where
  | more
  | fail (code : UInt16)
  | frame (opcode : UInt8) (payload rest : List UInt8)
  deriving DecidableEq, Repr

def unmask (mask payload : List UInt8) : List UInt8 :=
  payload.mapIdx fun i b => b ^^^ mask.getD (i%4) 0

def decodePayload (l : Limits) (b : List UInt8) (opcode : UInt8) (pos length : ℕ) : Decoded :=
  if length > l.maxPayload ∨ (opcode ≥ opcodeClose ∧ length > 125) then .fail closeTooBig
  else if b.length < pos+4+length then .more
  else .frame opcode (unmask ((b.drop pos).take 4) ((b.drop (pos+4)).take length))
    (b.drop (pos+4+length))

def decodeFrame (l : Limits) (b : List UInt8) : Decoded :=
  if b.length < 2 then .more
  else
    let b0 := b.getD 0 0
    let b1 := b.getD 1 0
    let opcode := b0 &&& 0x0F
    if b0 &&& 0x80 = 0 ∨ b0 &&& 0x70 ≠ 0 ∨ b1 &&& 0x80 = 0 ∨ opcode = opcodeContinuation then
      .fail closeProtocolError
    else if b1 &&& 0x7F = 126 then
      if b.length < 4 then .more
      else decodePayload l b opcode 4 (loadBe16 (ofList b) 2).toNat
    else if b1 &&& 0x7F = 127 then .fail closeTooBig
    else decodePayload l b opcode 2 (b1 &&& 0x7F).toNat

def say (s : Server) (outputs : List Output) : Server := { s with outputs := s.outputs ++ outputs }

def closeClient (s : Server) (code : UInt16) : Server :=
  { client := clearedClient
    outputs := s.outputs ++ [.closeFrame code, .disconnected code] }

def deliver (app : App) (s : Server) (type : MessageType) (payload : List UInt8) : Server :=
  match app.onMessage with
  | none => s
  | some react =>
    let told := say s [.message type payload]
    let reaction := react told.outputs
    if reaction.2 then say told reaction.1
    else { client := clearedClient, outputs := told.outputs ++ reaction.1 }

def handleFrame (app : App) (s : Server) (opcode : UInt8) (payload : List UInt8) : Server :=
  if opcode = opcodeText then deliver app s .text payload
  else if opcode = opcodeBinary then deliver app s .binary payload
  else if opcode = opcodePing then say s [.pong payload]
  else if opcode = opcodeClose then
    if payload.length = 1 then closeClient s closeProtocolError
    else if payload.length ≥ 2 then closeClient s (loadBe16 (ofList payload) 0)
    else closeClient s closeNormal
  else if opcode = opcodePong then s
  else closeClient s closeUnsupportedData

def setFrame (s : Server) (frame : List UInt8) : Server :=
  { s with client := { s.client with frame := frame } }

def parseFrame (l : Limits) (app : App) (s : Server) : Server × Bool :=
  match decodeFrame l s.client.frame with
  | .more => (s, false)
  | .fail code => (closeClient s code, false)
  | .frame opcode payload rest =>
    let t := handleFrame app (setFrame s rest) opcode payload
    (t, decide (t.client.state = .opened))

/-- The loop over the frames in the buffer; each takes six bytes or more. -/
def parseFrames (l : Limits) (app : App) : ℕ → Server → Server
  | 0, s => s
  | fuel+1, s =>
    if s.client.state = .opened then
      if (parseFrame l app s).2 then parseFrames l app fuel (parseFrame l app s).1
      else (parseFrame l app s).1
    else s

/-- One poll: whether the socket is connected, what a receive may return (an
error, or so many bytes of what has arrived), the time, and whether sending
succeeds. -/
structure Poll where
  isConnected : Bool
  receive : Option ℕ
  now : UInt32
  sends : Bool
  deriving DecidableEq, Repr

structure Link where
  server : Server
  pending : List UInt8
  deriving DecidableEq, Repr

def dropClient (s : Server) : Server :=
  { client := clearedClient
    outputs := if s.client.state = .opened then s.outputs ++ [.disconnected closeNormal]
      else s.outputs }

def receipt (p : Poll) (room : ℕ) (pending : List UInt8) : Option (List UInt8) :=
  p.receive.map fun n => pending.take (min n room)

def closeIfFull (l : Limits) (s : Server) : Server :=
  if s.client.state = .opened ∧ l.frameBuffer ≤ s.client.frame.length then
    closeClient s closeTooBig
  else s

def pollOpenClient (l : Limits) (app : App) (k : Link) (p : Poll) : Link :=
  if p.isConnected = false then { k with server := dropClient k.server }
  else
    match receipt p (l.frameBuffer-k.server.client.frame.length) k.pending with
    | none => { k with server := dropClient k.server }
    | some chunk =>
      let s := setFrame k.server (k.server.client.frame ++ chunk)
      { server := closeIfFull l (parseFrames l app (s.client.frame.length+1) s)
        pending := k.pending.drop chunk.length }

def pollOpen (l : Limits) (app : App) (k : Link) (p : Poll) : Link :=
  if k.server.client.state = .opened then pollOpenClient l app k p else k

variable {l : Limits} {app : App}

def Decoded.followed (more : List UInt8) : Decoded → Decoded
  | .more => .more
  | .fail code => .fail code
  | .frame opcode payload rest => .frame opcode payload (rest ++ more)

theorem decodePayload_append {b : List UInt8} (c : List UInt8) {opcode : UInt8} {pos length : ℕ}
    (h : decodePayload l b opcode pos length ≠ .more) :
    decodePayload l (b ++ c) opcode pos length =
      (decodePayload l b opcode pos length).followed c := by
  unfold decodePayload at h ⊢
  by_cases hbig : length > l.maxPayload ∨ (opcode ≥ opcodeClose ∧ length > 125)
  · rw [if_pos hbig, if_pos hbig]
    rfl
  rw [if_neg hbig] at h
  rw [if_neg hbig, if_neg hbig]
  by_cases hshort : b.length < pos+4+length
  · rw [if_pos hshort] at h
    exact absurd rfl h
  have hlong : ¬ (b ++ c).length < pos+4+length := by
    rw [List.length_append]
    omega
  have hmask : ((b ++ c).drop pos).take 4 = (b.drop pos).take 4 := by
    rw [List.drop_append_of_le_length (by omega), List.take_append_of_le_length]
    rw [List.length_drop]
    omega
  have hpayload : ((b ++ c).drop (pos+4)).take length = (b.drop (pos+4)).take length := by
    rw [List.drop_append_of_le_length (by omega), List.take_append_of_le_length]
    rw [List.length_drop]
    omega
  rw [if_neg hshort, if_neg hlong, hmask, hpayload, List.drop_append_of_le_length (by omega)]
  rfl

theorem getD_append {b : List UInt8} (c : List UInt8) {i : ℕ} (h : i < b.length) :
    (b ++ c).getD i 0 = b.getD i 0 := by
  rw [List.getD_eq_getElem?_getD, List.getElem?_append_left h, List.getD_eq_getElem?_getD]

theorem decodeFrame_append {b : List UInt8} (c : List UInt8) (h : decodeFrame l b ≠ .more) :
    decodeFrame l (b ++ c) = (decodeFrame l b).followed c := by
  unfold decodeFrame at h ⊢
  by_cases hshort : b.length < 2
  · rw [if_pos hshort] at h
    exact absurd rfl h
  have hlong : ¬ (b ++ c).length < 2 := by
    rw [List.length_append]
    omega
  rw [if_neg hshort] at h
  rw [if_neg hshort, if_neg hlong]
  dsimp only at h ⊢
  rw [getD_append c (by omega), getD_append c (by omega)]
  split
  · rfl
  rename_i hprotocol
  rw [if_neg hprotocol] at h
  split
  · rename_i hextended
    rw [if_pos hextended] at h
    by_cases hfour : b.length < 4
    · rw [if_pos hfour] at h
      exact absurd rfl h
    have hlong : ¬ (b ++ c).length < 4 := by
      rw [List.length_append]
      omega
    have hlength : loadBe16 (ofList (b ++ c)) 2 = loadBe16 (ofList b) 2 :=
      loadBe16_congr fun k hk => getD_append c (by omega)
    rw [if_neg hfour] at h
    rw [if_neg hfour, if_neg hlong, hlength]
    exact decodePayload_append c h
  · rename_i hextended
    rw [if_neg hextended] at h
    split
    · rfl
    · rename_i hhuge
      rw [if_neg hhuge] at h
      exact decodePayload_append c h

theorem decodePayload_rest {b payload rest : List UInt8} {opcode op : UInt8} {pos length : ℕ}
    (h : decodePayload l b opcode pos length = .frame op payload rest) :
    rest.length < b.length := by
  unfold decodePayload at h
  split at h
  · cases h
  · split at h
    · cases h
    · obtain ⟨_, _, rfl⟩ := Decoded.frame.inj h
      rw [List.length_drop]
      omega

theorem decodeFrame_rest {b payload rest : List UInt8} {opcode : UInt8}
    (h : decodeFrame l b = .frame opcode payload rest) : rest.length < b.length := by
  unfold decodeFrame at h
  split at h
  · cases h
  · dsimp only at h
    split at h
    · cases h
    · split at h
      · split at h
        · cases h
        · exact decodePayload_rest h
      · split at h
        · cases h
        · exact decodePayload_rest h

theorem decodePayload_more {b : List UInt8} {opcode : UInt8} {pos length : ℕ}
    (h : decodePayload l b opcode pos length = .more) (hpos : pos ≤ 4) :
    b.length < l.maxPayload+8 := by
  unfold decodePayload at h
  split at h
  · cases h
  · split at h
    · omega
    · cases h

theorem decodeFrame_more {b : List UInt8} (h : decodeFrame l b = .more) :
    b.length < l.frameBuffer := by
  have hroom := l.room
  unfold decodeFrame at h
  split at h
  · omega
  · dsimp only at h
    split at h
    · cases h
    · split at h
      · split at h
        · omega
        · have hless := decodePayload_more h le_rfl
          omega
      · split at h
        · cases h
        · have hless := decodePayload_more h (by omega)
          omega

def Adds (f : Server → Server) (s : Server) : Prop :=
  (∃ outputs, ∀ frame, f (setFrame s frame) = setFrame (say s outputs) frame) ∨
  ∃ outputs, ∀ frame, f (setFrame s frame) = ⟨clearedClient, s.outputs ++ outputs⟩

theorem adds_close (s : Server) (code : UInt16) : Adds (fun t => closeClient t code) s :=
  Or.inr ⟨_, fun _ => rfl⟩

theorem adds_deliver (s : Server) (type : MessageType) (payload : List UInt8) :
    Adds (fun t => deliver app t type payload) s := by
  unfold deliver
  cases app.onMessage with
  | none => exact Or.inl ⟨[], fun frame => by simp [setFrame, say]⟩
  | some react =>
    by_cases hopen : (react (s.outputs ++ [.message type payload])).2 = true
    · refine Or.inl ⟨[.message type payload] ++ (react (s.outputs ++ [.message type payload])).1,
        fun frame => ?_⟩
      show (if (react (s.outputs ++ [.message type payload])).2 = true then _ else _) = _
      rw [if_pos hopen]
      simp [setFrame, say]
    · refine Or.inr ⟨[.message type payload] ++ (react (s.outputs ++ [.message type payload])).1,
        fun frame => ?_⟩
      show (if (react (s.outputs ++ [.message type payload])).2 = true then _ else _) = _
      rw [if_neg hopen]
      simp [setFrame, say]

theorem adds_handleFrame (s : Server) (opcode : UInt8) (payload : List UInt8) :
    Adds (fun t => handleFrame app t opcode payload) s := by
  unfold handleFrame
  split
  · exact adds_deliver s .text payload
  · split
    · exact adds_deliver s .binary payload
    · split
      · exact Or.inl ⟨[.pong payload], fun _ => rfl⟩
      · split
        · split
          · exact adds_close s _
          · split
            · exact adds_close s _
            · exact adds_close s _
        · split
          · exact Or.inl ⟨[], fun frame => by simp [setFrame, say]⟩
          · exact adds_close s _

/-- A frame adds outputs, and leaves the client open with its buffer or clears
it. -/
theorem handleFrame_cases (app : App) (s : Server) (opcode : UInt8) (payload : List UInt8) :
    (∃ outputs, ∀ frame,
      handleFrame app (setFrame s frame) opcode payload = setFrame (say s outputs) frame) ∨
    ∃ outputs, ∀ frame,
      handleFrame app (setFrame s frame) opcode payload = ⟨clearedClient, s.outputs ++ outputs⟩ :=
  adds_handleFrame s opcode payload

def settle (l : Limits) (app : App) (s : Server) : Server :=
  parseFrames l app (s.client.frame.length+1) s

theorem cleared_not_opened : clearedClient.state ≠ .opened := by decide

theorem parseFrames_closed {s : Server} (h : s.client.state ≠ .opened) (n : ℕ) :
    parseFrames l app n s = s := by
  cases n with
  | zero => rfl
  | succ n => rw [parseFrames, if_neg h]

theorem parseFrames_more {s : Server} (h : decodeFrame l s.client.frame = .more) (n : ℕ) :
    parseFrames l app n s = s := by
  cases n with
  | zero => rfl
  | succ n =>
    have hparse : parseFrame l app s = (s, false) := by rw [parseFrame, h]
    rw [parseFrames, hparse]
    split <;> rfl

theorem parseFrames_fail {s : Server} {code : UInt16} (hs : s.client.state = .opened)
    (h : decodeFrame l s.client.frame = .fail code) (n : ℕ) :
    parseFrames l app (n+1) s = closeClient s code := by
  have hparse : parseFrame l app s = (closeClient s code, false) := by rw [parseFrame, h]
  rw [parseFrames, if_pos hs, hparse]
  rfl

theorem parseFrames_frame {s : Server} {opcode : UInt8} {payload rest : List UInt8}
    (hs : s.client.state = .opened)
    (h : decodeFrame l s.client.frame = .frame opcode payload rest) (n : ℕ) :
    parseFrames l app (n+1) s =
      parseFrames l app n (handleFrame app (setFrame s rest) opcode payload) := by
  have hparse : parseFrame l app s = (handleFrame app (setFrame s rest) opcode payload,
      decide ((handleFrame app (setFrame s rest) opcode payload).client.state = .opened)) := by
    rw [parseFrame, h]
  rw [parseFrames, if_pos hs, hparse]
  by_cases hopen : (handleFrame app (setFrame s rest) opcode payload).client.state = .opened
  · rw [if_pos (decide_eq_true hopen)]
  · rw [if_neg (by simpa using hopen), parseFrames_closed hopen]

/-- Fuel beyond the length of the buffer makes no difference. -/
theorem parseFrames_fuel {n m : ℕ} {s : Server} (hn : s.client.frame.length < n)
    (hm : s.client.frame.length < m) : parseFrames l app n s = parseFrames l app m s := by
  induction n generalizing m s with
  | zero => omega
  | succ n ih =>
    obtain ⟨m, rfl⟩ := Nat.exists_eq_succ_of_ne_zero (by omega : m ≠ 0)
    by_cases hs : s.client.state = .opened
    · cases hdecode : decodeFrame l s.client.frame with
      | more => rw [parseFrames_more hdecode, parseFrames_more hdecode]
      | fail code => rw [parseFrames_fail hs hdecode, parseFrames_fail hs hdecode]
      | frame opcode payload rest =>
        have hrest := decodeFrame_rest hdecode
        rw [parseFrames_frame hs hdecode, parseFrames_frame hs hdecode]
        rcases handleFrame_cases app s opcode payload with ⟨outputs, h⟩ | ⟨outputs, h⟩
        · rw [h rest]
          apply ih
          · show rest.length < n
            omega
          · show rest.length < m
            omega
        · rw [h rest, parseFrames_closed cleared_not_opened, parseFrames_closed cleared_not_opened]
    · rw [parseFrames_closed hs, parseFrames_closed hs]

theorem settle_fuel {n : ℕ} {s : Server} (h : s.client.frame.length < n) :
    parseFrames l app n s = settle l app s :=
  parseFrames_fuel h (Nat.lt_succ_self _)

theorem settle_frame {s : Server} {opcode : UInt8} {payload rest : List UInt8}
    (hs : s.client.state = .opened)
    (h : decodeFrame l s.client.frame = .frame opcode payload rest) :
    settle l app s = settle l app (handleFrame app (setFrame s rest) opcode payload) := by
  rw [settle, parseFrames_frame hs h]
  apply settle_fuel
  rcases handleFrame_cases app s opcode payload with ⟨outputs, h'⟩ | ⟨outputs, h'⟩
  · rw [h' rest]
    exact decodeFrame_rest h
  · rw [h' rest]
    have hrest := decodeFrame_rest h
    show 0 < _
    omega

/-- Taking frames off a buffer and then off what is left with more behind it
is taking them off the whole. -/
theorem settle_append (s : Server) (b c : List UInt8) (hs : s.client.state = .opened) :
    settle l app (setFrame s (b ++ c)) =
      if (settle l app (setFrame s b)).client.state = .opened then
        settle l app (setFrame (settle l app (setFrame s b))
          ((settle l app (setFrame s b)).client.frame ++ c))
      else settle l app (setFrame s b) := by
  induction hlength : b.length using Nat.strong_induction_on generalizing s b with
  | _ n ih =>
    subst hlength
    have hb : (setFrame s b).client.state = .opened := hs
    have hbc : (setFrame s (b ++ c)).client.state = .opened := hs
    cases hdecode : decodeFrame l b with
    | more =>
      have hsettle : settle l app (setFrame s b) = setFrame s b := parseFrames_more hdecode _
      rw [hsettle, if_pos hb]
      rfl
    | fail code =>
      have hsettle : settle l app (setFrame s b) = closeClient (setFrame s b) code :=
        parseFrames_fail hb hdecode _
      have hmore := decodeFrame_append c (show decodeFrame l b ≠ .more by rw [hdecode]; nofun)
      rw [hdecode] at hmore
      have hsettle' : settle l app (setFrame s (b ++ c)) = closeClient (setFrame s (b ++ c)) code :=
        parseFrames_fail hbc hmore _
      rw [hsettle, hsettle']
      exact (if_neg cleared_not_opened).symm
    | frame opcode payload rest =>
      have hmore := decodeFrame_append c (show decodeFrame l b ≠ .more by rw [hdecode]; nofun)
      rw [hdecode] at hmore
      have hrest := decodeFrame_rest hdecode
      rw [settle_frame hb hdecode, settle_frame hbc hmore]
      rcases handleFrame_cases app s opcode payload with ⟨outputs, h⟩ | ⟨outputs, h⟩
      · have h1 : handleFrame app (setFrame (setFrame s b) rest) opcode payload =
            setFrame (say s outputs) rest := h rest
        have h2 : handleFrame app (setFrame (setFrame s (b ++ c)) (rest ++ c)) opcode payload =
            setFrame (say s outputs) (rest ++ c) := h (rest ++ c)
        rw [h1, h2]
        exact ih rest.length hrest (say s outputs) rest hs rfl
      · have h1 : handleFrame app (setFrame (setFrame s b) rest) opcode payload =
            ⟨clearedClient, s.outputs ++ outputs⟩ := h rest
        have h2 : handleFrame app (setFrame (setFrame s (b ++ c)) (rest ++ c)) opcode payload =
            ⟨clearedClient, s.outputs ++ outputs⟩ := h (rest ++ c)
        have hsettle : settle l app ⟨clearedClient, s.outputs ++ outputs⟩ =
            ⟨clearedClient, s.outputs ++ outputs⟩ := parseFrames_closed cleared_not_opened _
        rw [h1, h2, hsettle, if_neg cleared_not_opened]

def Poll.Calm (p : Poll) : Prop := p.isConnected = true ∧ p.receive ≠ none

theorem settled_more {s : Server} (h : (settle l app s).client.state = .opened) :
    decodeFrame l (settle l app s).client.frame = .more := by
  induction hlength : s.client.frame.length using Nat.strong_induction_on generalizing s with
  | _ n ih =>
    subst hlength
    by_cases hs : s.client.state = .opened
    · cases hdecode : decodeFrame l s.client.frame with
      | more =>
        have hsettle : settle l app s = s := parseFrames_more hdecode _
        rw [hsettle]
        exact hdecode
      | fail code =>
        have hsettle : settle l app s = closeClient s code := parseFrames_fail hs hdecode _
        rw [hsettle] at h
        exact absurd h cleared_not_opened
      | frame opcode payload rest =>
        have hrest := decodeFrame_rest hdecode
        rw [settle_frame hs hdecode] at h ⊢
        rcases handleFrame_cases app s opcode payload with ⟨outputs, h'⟩ | ⟨outputs, h'⟩
        · rw [h' rest] at h ⊢
          exact ih rest.length hrest h rfl
        · have hsettle : settle l app ⟨clearedClient, s.outputs ++ outputs⟩ =
              ⟨clearedClient, s.outputs ++ outputs⟩ := parseFrames_closed cleared_not_opened _
          rw [h' rest, hsettle] at h
          exact absurd h cleared_not_opened
    · have hsettle : settle l app s = s := parseFrames_closed hs _
      rw [hsettle] at h
      exact absurd h hs

/-- The buffer is never full after its frames are taken. -/
theorem closeIfFull_settled (s : Server) : closeIfFull l (settle l app s) = settle l app s := by
  rw [closeIfFull, if_neg]
  rintro ⟨hopen, hfull⟩
  have hless := decodeFrame_more (settled_more hopen)
  omega

theorem pollOpen_calm {k : Link} {p : Poll} (hp : p.Calm) (hk : k.server.client.state = .opened) :
    ∃ n, pollOpen l app k p =
      { server := settle l app (setFrame k.server (k.server.client.frame ++ k.pending.take n))
        pending := k.pending.drop n } := by
  obtain ⟨hconnected, hreceive⟩ := hp
  cases hr : p.receive with
  | none => exact absurd hr hreceive
  | some n =>
    refine ⟨min n (l.frameBuffer-k.server.client.frame.length), ?_⟩
    have hlost : ¬ p.isConnected = false := by rw [hconnected]; decide
    rw [pollOpen, if_pos hk, pollOpenClient, if_neg hlost, receipt, hr]
    show ({ server := closeIfFull l (settle l app _), pending := k.pending.drop _ } : Link) = _
    rw [closeIfFull_settled, List.length_take]
    congr 1
    by_cases hle : min n (l.frameBuffer-k.server.client.frame.length) ≤ k.pending.length
    · rw [Nat.min_eq_left hle]
    · rw [Nat.min_eq_right (by omega), List.drop_length, List.drop_eq_nil_of_le (by omega)]

def runOpen (l : Limits) (app : App) (k : Link) (polls : List Poll) : Link :=
  polls.foldl (pollOpen l app) k

def Read (l : Limits) (app : App) (s : Server) (stream : List UInt8) (k : Link) : Prop :=
  ∃ first, stream = first ++ k.pending ∧ k.server = settle l app (setFrame s first)

theorem read_poll {s : Server} {stream : List UInt8} {k : Link} {p : Poll}
    (hs : s.client.state = .opened) (hp : p.Calm) (h : Read l app s stream k) :
    Read l app s stream (pollOpen l app k p) := by
  obtain ⟨first, hstream, hserver⟩ := h
  by_cases hk : k.server.client.state = .opened
  · obtain ⟨n, hn⟩ := pollOpen_calm (l := l) hp hk
    rw [hn]
    refine ⟨first ++ k.pending.take n, ?_, ?_⟩
    · rw [List.append_assoc, List.take_append_drop]
      exact hstream
    · rw [settle_append s first _ hs, ← hserver, if_pos hk]
  · rw [pollOpen, if_neg hk]
    exact ⟨first, hstream, hserver⟩

theorem read_run {s : Server} {stream : List UInt8} {k : Link} (polls : List Poll)
    (hs : s.client.state = .opened) (hp : ∀ p ∈ polls, p.Calm) (h : Read l app s stream k) :
    Read l app s stream (runOpen l app k polls) := by
  induction polls generalizing k with
  | nil => exact h
  | cons p polls ih =>
    exact ih (fun q hq => hp q (List.mem_cons_of_mem p hq))
      (read_poll hs (hp p List.mem_cons_self) h)

/-- Nothing more happens: the stream is read, or the client is closed. -/
def Finished (k : Link) : Prop := k.pending = [] ∨ k.server.client.state ≠ .opened

/-- A finished run ends as if the whole stream had been there at once. -/
theorem read_finished {s : Server} {stream : List UInt8} {k : Link}
    (hs : s.client.state = .opened) (h : Read l app s stream k) (hk : Finished k) :
    k.server = settle l app (setFrame s stream) := by
  obtain ⟨first, hstream, hserver⟩ := h
  rcases hk with hpending | hclosed
  · rw [hpending, List.append_nil] at hstream
    rw [hserver, hstream]
  · rw [hstream, settle_append s first _ hs, ← hserver, if_neg hclosed]

theorem read_length {s : Server} {stream : List UInt8} {k : Link}
    (h : Read l app s stream k) (hk : k.server.client.state = .opened) :
    k.server.client.frame.length < l.frameBuffer := by
  obtain ⟨first, _, hserver⟩ := h
  rw [hserver] at hk ⊢
  exact decodeFrame_more (settled_more hk)

def maskedHeader (opcode : UInt8) (length : ℕ) : List UInt8 :=
  if length ≤ 125 then [0x80 ||| opcode, 0x80 ||| UInt8.ofNat length]
  else [0x80 ||| opcode, 0xFE] ++ storeBe16 (UInt16.ofNat length)

def maskedFrame (opcode : UInt8) (mask payload : List UInt8) : List UInt8 :=
  maskedHeader opcode payload.length ++ mask ++ unmask mask payload

/-- A frame the server has room for: a known kind of opcode, four mask bytes, a
payload within the maximum, and a control frame of at most 125 bytes. -/
structure Allowed (l : Limits) (opcode : UInt8) (mask payload : List UInt8) : Prop where
  small : opcode < 16
  first : opcode ≠ opcodeContinuation
  masked : mask.length = 4
  bounded : payload.length ≤ l.maxPayload
  encodable : payload.length < 2^16
  control : opcode ≥ opcodeClose → payload.length ≤ 125

theorem unmask_length (mask payload : List UInt8) :
    (unmask mask payload).length = payload.length := List.length_mapIdx

theorem unmask_unmask (mask payload : List UInt8) : unmask mask (unmask mask payload) = payload := by
  apply List.ext_getElem
  · rw [unmask_length, unmask_length]
  · intro i h h'
    simp only [unmask, List.getElem_mapIdx]
    rw [UInt8.xor_assoc, UInt8.xor_self, UInt8.xor_zero]

theorem decodePayload_masked {opcode : UInt8} {header mask payload : List UInt8}
    (h : Allowed l opcode mask payload) (rest : List UInt8) :
    decodePayload l (header ++ mask ++ unmask mask payload ++ rest) opcode header.length
      payload.length = .frame opcode payload rest := by
  have hmasked := h.masked
  have hlength := unmask_length mask payload
  have hfits : ¬ (payload.length > l.maxPayload ∨ (opcode ≥ opcodeClose ∧ payload.length > 125)) := by
    rintro (hbig | ⟨hcontrol, hbig⟩)
    · have := h.bounded
      omega
    · have := h.control hcontrol
      omega
  have hmask : ((header ++ mask ++ unmask mask payload ++ rest).drop header.length).take 4 = mask := by
    rw [List.append_assoc, List.append_assoc, List.drop_left, ← hmasked, List.take_left]
  have hpayload : (header ++ mask ++ unmask mask payload ++ rest).drop (header.length+4) =
      unmask mask payload ++ rest := by
    rw [← hmasked, ← List.length_append, List.append_assoc (header ++ mask), List.drop_left]
  have hrest : (header ++ mask ++ unmask mask payload ++ rest).drop
      (header.length+4+payload.length) = rest := by
    rw [← List.drop_drop, hpayload, ← hlength, List.drop_left]
  have htaken : (unmask mask payload ++ rest).take payload.length = unmask mask payload := by
    rw [← hlength, List.take_left]
  rw [decodePayload, if_neg hfits, if_neg]
  · rw [hmask, hpayload, hrest, htaken, unmask_unmask]
  · simp only [List.length_append]
    omega

theorem header_flags {opcode : UInt8} (h : opcode < 16) :
    (0x80 ||| opcode) &&& 0x0F = opcode ∧ (0x80 ||| opcode) &&& 0x80 ≠ 0 ∧
      (0x80 ||| opcode) &&& 0x70 = 0 := by
  have hall : ∀ n : Fin 16, (0x80 ||| UInt8.ofNat n.val) &&& 0x0F = UInt8.ofNat n.val ∧
      (0x80 ||| UInt8.ofNat n.val) &&& 0x80 ≠ 0 ∧ (0x80 ||| UInt8.ofNat n.val) &&& 0x70 = 0 := by
    decide
  have hlt : opcode.toNat < 16 := h
  have h := hall ⟨opcode.toNat, hlt⟩
  rwa [UInt8.ofNat_toNat] at h

theorem length_flags {n : ℕ} (h : n ≤ 125) :
    (0x80 ||| UInt8.ofNat n) &&& 0x80 ≠ 0 ∧ ((0x80 ||| UInt8.ofNat n) &&& 0x7F).toNat = n := by
  have hall : ∀ n : Fin 126, (0x80 ||| UInt8.ofNat n.val) &&& 0x80 ≠ 0 ∧
      ((0x80 ||| UInt8.ofNat n.val) &&& 0x7F).toNat = n.val := by
    decide +kernel
  exact hall ⟨n, by omega⟩

/-- A frame at the front of a buffer is taken whole. -/
theorem decode_masked {opcode : UInt8} {mask payload : List UInt8}
    (h : Allowed l opcode mask payload) (rest : List UInt8) :
    decodeFrame l (maskedFrame opcode mask payload ++ rest) = .frame opcode payload rest := by
  obtain ⟨hopcode, hfin, hreserved⟩ := header_flags h.small
  unfold maskedFrame
  have hdecode := fun header : List UInt8 =>
    @decodePayload_masked l opcode header mask payload h rest
  by_cases hshort : payload.length ≤ 125
  · obtain ⟨hbit, hnumber⟩ := length_flags hshort
    have hheader : maskedHeader opcode payload.length =
        [0x80 ||| opcode, 0x80 ||| UInt8.ofNat payload.length] := if_pos hshort
    have hbody := hdecode [0x80 ||| opcode, 0x80 ||| UInt8.ofNat payload.length]
    have hother : ∀ n : UInt8, 125 < n.toNat →
        ¬ (0x80 ||| UInt8.ofNat payload.length) &&& 0x7F = n := by
      intro n hn heq
      rw [← heq, hnumber] at hn
      omega
    rw [hheader]
    rw [decodeFrame, if_neg (by simp)]
    simp only [List.cons_append, List.nil_append, List.getD_cons_zero, List.getD_cons_succ,
      hopcode]
    rw [if_neg, if_neg (hother 126 (by decide)), if_neg (hother 127 (by decide)), hnumber]
    · exact hbody
    · rintro (hno | hno | hno | hno)
      · exact hfin hno
      · exact hno hreserved
      · exact hbit hno
      · exact h.first hno
  · have hheader : maskedHeader opcode payload.length =
        [0x80 ||| opcode, 0xFE] ++ storeBe16 (UInt16.ofNat payload.length) := if_neg hshort
    have hbody := hdecode ([0x80 ||| opcode, 0xFE] ++ storeBe16 (UInt16.ofNat payload.length))
    have hencodable := h.encodable
    have hload : ∀ tail, loadBe16 (ofList ([0x80 ||| opcode, 0xFE] ++
        storeBe16 (UInt16.ofNat payload.length) ++ tail)) 2 = UInt16.ofNat payload.length := by
      intro tail
      exact loadBe16_store rfl
    rw [hheader]
    rw [decodeFrame, if_neg (by simp), List.append_assoc, List.append_assoc]
    rw [List.append_assoc, List.append_assoc] at hbody
    have hload := hload (mask ++ (unmask mask payload ++ rest))
    rw [hload]
    simp only [List.cons_append, List.nil_append, List.getD_cons_zero, List.getD_cons_succ,
      hopcode]
    rw [if_neg, if_pos (by decide), if_neg (by simp [storeBe16]), UInt16.toNat_ofNat',
      Nat.mod_eq_of_lt hencodable]
    · exact hbody
    · rintro (hno | hno | hno | hno)
      · exact hfin hno
      · exact hno hreserved
      · exact absurd hno (by decide)
      · exact h.first hno

theorem settle_masked {s : Server} {opcode : UInt8} {mask payload first rest : List UInt8}
    (hs : s.client.state = .opened) (hallowed : Allowed l opcode mask payload)
    (hfirst : (settle l app (setFrame s first)).client.state = .opened)
    (hempty : (settle l app (setFrame s first)).client.frame = []) :
    settle l app (setFrame s (first ++ (maskedFrame opcode mask payload ++ rest))) =
      settle l app (handleFrame app (setFrame (settle l app (setFrame s first)) rest)
        opcode payload) := by
  rw [settle_append s first _ hs, if_pos hfirst, hempty, List.nil_append]
  exact settle_frame hfirst (decode_masked hallowed rest)

def quietApp : App := ⟨none⟩
def openServer : Server := ⟨⟨.opened, [], [], 0, 0⟩, []⟩
def calmPoll (n : ℕ) : Poll := ⟨true, some n, 0, true⟩

theorem calmPoll_calm (n : ℕ) : (calmPoll n).Calm := ⟨rfl, Option.some_ne_none _⟩

def pingStream : List UInt8 := maskedFrame opcodePing [1, 2, 3, 4] [0x41]

end JaszczurHal.WebSocketFrame
