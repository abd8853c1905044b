import JaszczurHal.HalStatus
import JaszczurHal.ByteImage

/-!
# The session of a BLE stream

One session object takes the frames of a client: a hello, a proof, then data
under the keys both sides derive. What happens in each authenticated session
is kept in a history that no function reads.
-/

set_option autoImplicit false

namespace JaszczurHal.BleSession
open HalStatus ByteImage

def loadLe64 (m : Image) (offset : ℕ) : UInt64 :=
  (loadLe32 m offset).toUInt64 ||| (loadLe32 m (offset+4)).toUInt64 <<< 32

def storeLe64 (v : UInt64) : List UInt8 := storeLe32 v.toUInt32 ++ storeLe32 (v >>> 32).toUInt32

theorem loadLe64_store {m : Image} {offset : ℕ} {v : UInt64}
    (h : slice m offset 8 = storeLe64 v) : loadLe64 m offset = v := by
  obtain ⟨hlow, hhigh⟩ := slice_append_iff (a := storeLe32 v.toUInt32)
    (b := storeLe32 (v >>> 32).toUInt32).mp h
  have hlow' : loadLe32 m offset = v.toUInt32 := loadLe32_store hlow
  have hhigh' : loadLe32 m (offset+4) = (v >>> 32).toUInt32 := loadLe32_store hhigh
  have hv := v.toNat_lt
  apply UInt64.toNat_inj.mp
  rw [loadLe64, hlow', hhigh', UInt64.toNat_or, Nat.or_comm, UInt64.toNat_shiftLeft]
  have hsmall : (v >>> 32).toUInt32.toUInt64.toNat = v.toNat/2^32 := by
    simp [Nat.shiftRight_eq_div_pow]
    omega
  have hrest : v.toUInt32.toUInt64.toNat = v.toNat%2^32 := by simp
  rw [hsmall, hrest, show (32 : UInt64).toNat%64 = 32 from rfl]
  have hdiv : v.toNat/2^32 < 2^32 := by omega
  have hmod := Nat.mod_lt v.toNat (show 0 < 2^32 by decide)
  have hshift : (v.toNat/2^32) <<< 32 % 2^64 = (v.toNat/2^32) <<< 32 := by
    rw [Nat.shiftLeft_eq]
    omega
  rw [hshift, or_low hmod]
  omega

def kProtocolVersion : UInt8 := 1
def kFrameHeaderLen : ℕ := 4
def kCounterLen : ℕ := 8
def kTagLen : ℕ := 16
def kNonceLen : ℕ := 32
def kSessionIdLen : ℕ := 8
def kProofLen : ℕ := 32
def kSessionKeyLen : ℕ := 32
def kSecretMinLen : ℕ := 32
def kSecretMaxLen : ℕ := 64
def kHandshakeFrameLen : ℕ := kFrameHeaderLen+2+kSessionIdLen+kNonceLen+kProofLen

def kFrameHello : UInt8 := 1
def kFrameHelloAck : UInt8 := 2
def kFrameAuth : UInt8 := 3
def kFrameAuthAck : UInt8 := 4
def kFrameData : UInt8 := 5
def kFrameClose : UInt8 := 6

def kDomainDeviceProof : UInt8 := 1
def kDomainClientProof : UInt8 := 2
def kDomainKeyD2c : UInt8 := 3
def kDomainKeyC2d : UInt8 := 4

def kDirDeviceToClient : UInt8 := 1
def kDirClientToDevice : UInt8 := 2

def kProfileName : List UInt8 :=
  [0x4A, 0x48, 0x20, 0x42, 0x4C, 0x45, 0x20, 0x53, 0x74, 0x72, 0x65, 0x61, 0x6D]

/-- `HAL_BLE_STREAM_MAX_PAYLOAD` and the other settings of a build. The header
admits payload limits from 16 to 200; `response_fits` is no check of the source,
and leaves out the limits below 50, where a response buffer is too short for the
hello acknowledgement. -/
structure Build where
  maxPayload : ℕ
  rxQueueDepth : ℕ
  txQueueDepth : ℕ
  authAttemptLimit : UInt32
  authBackoffMs : UInt32
  sessionIdleTimeoutMs : UInt32
  payload_le : maxPayload ≤ 200
  response_fits : kHandshakeFrameLen ≤ kFrameHeaderLen+(kCounterLen+maxPayload+kTagLen)
  rx_depth : 2 ≤ rxQueueDepth
  tx_depth : 2 ≤ txQueueDepth

def defaultBuild : Build :=
  ⟨128, 4, 4, 5, 30000, 60000, by decide, by decide, by decide, by decide⟩

def Build.maxFrameLen (b : Build) : ℕ := kFrameHeaderLen+(kCounterLen+b.maxPayload+kTagLen)

/-- HMAC-SHA-256, and ChaCha20-Poly1305 with the tag after the ciphertext:
key, nonce, associated data, text. `none` is a refused call. -/
structure Crypto where
  hmacSha256 : List UInt8 → List UInt8 → Option (List UInt8)
  encrypt : List UInt8 → List UInt8 → List UInt8 → List UInt8 → Option (List UInt8)
  decrypt : List UInt8 → List UInt8 → List UInt8 → List UInt8 → Option (List UInt8)

structure Entropy where
  deviceNonce : Status × List UInt8
  sessionId : Status × List UInt8

inductive SessionState where
  | idle
  | handshaking
  | authenticated
  deriving DecidableEq, Repr

inductive CloseReason where
  | clientRequest
  | disconnected
  | idleTimeout
  | generationChanged
  | protocolError
  | authFailed
  | replayDetected
  | counterExhausted
  | localRequest
  deriving DecidableEq, Repr

/-- What happens while one session is authenticated, in its order: payloads
taken for sending, frames offered to the backend and those it accepted,
payloads received and handed out with their counters. -/
structure SessionLog where
  key : List UInt8
  queued : List (List UInt8)
  offered : List (List UInt8)
  sent : List (List UInt8)
  received : List (UInt64 × List UInt8)
  returned : List (UInt64 × List UInt8)

def emptyLog (key : List UInt8) : SessionLog := ⟨key, [], [], [], [], []⟩

/-- `sessions` has the last session first; `outside` is what happens while
no session is authenticated. -/
structure History where
  sessions : List SessionLog
  outside : SessionLog

structure Session where
  secret : List UInt8
  localCapabilities : UInt16
  peerCapabilities : UInt16
  sessionId : List UInt8
  clientNonce : List UInt8
  deviceNonce : List UInt8
  keyDeviceToClient : List UInt8
  keyClientToDevice : List UInt8
  txCounter : UInt64
  rxCounter : UInt64
  state : SessionState
  history : History

def zeros (length : ℕ) : List UInt8 := List.replicate length 0

def emptySession : Session where
  secret := []
  localCapabilities := 0
  peerCapabilities := 0
  sessionId := zeros kSessionIdLen
  clientNonce := zeros kNonceLen
  deviceNonce := zeros kNonceLen
  keyDeviceToClient := zeros kSessionKeyLen
  keyClientToDevice := zeros kSessionKeyLen
  txCounter := 0
  rxCounter := 0
  state := .idle
  history := ⟨[], emptyLog []⟩

def record (f : SessionLog → SessionLog) (s : Session) : Session :=
  { s with history :=
      if s.state = .authenticated then
        { s.history with sessions := s.history.sessions.modifyHead f }
      else { s.history with outside := f s.history.outside } }

/-- What a frame leads to: a frame to send back, a payload, a request to
close the session. -/
structure Result where
  response : List UInt8
  payload : List UInt8
  close : Option CloseReason

def closeWith (reason : CloseReason) : Result := ⟨[], [], some reason⟩

def reset (s : Session) : Session :=
  { s with
    sessionId := zeros kSessionIdLen
    clientNonce := zeros kNonceLen
    deviceNonce := zeros kNonceLen
    keyDeviceToClient := zeros kSessionKeyLen
    keyClientToDevice := zeros kSessionKeyLen
    peerCapabilities := 0
    txCounter := 0
    rxCounter := 0
    state := .idle }

def clear (s : Session) : Session := { reset s with secret := [], localCapabilities := 0 }

def setSecret (secret : List UInt8) (s : Session) : Status × Session :=
  if secret.length < kSecretMinLen ∨ kSecretMaxLen < secret.length then (.einval, s)
  else (.ok, { reset s with secret := secret })

def buildTranscript (s : Session) (domain : UInt8) : List UInt8 :=
  [domain] ++ kProfileName ++ [kProtocolVersion] ++ storeLe16 s.localCapabilities ++
    storeLe16 s.peerCapabilities ++ s.sessionId ++ s.clientNonce ++ s.deviceNonce

def derive (k : Crypto) (s : Session) (domain : UInt8) : Option (List UInt8) :=
  k.hmacSha256 s.secret (buildTranscript s domain)

def buildNonce (direction : UInt8) (counter : UInt64) : List UInt8 :=
  [direction, kProtocolVersion, 0, 0] ++ storeLe64 counter

def buildAad (frameType flags direction : UInt8) (counter : UInt64) : List UInt8 :=
  [kProtocolVersion, frameType, direction, flags] ++ storeLe64 counter

def writeHeader (type flags : UInt8) (bodyLength : ℕ) : List UInt8 :=
  [kProtocolVersion, type, flags, UInt8.ofNat bodyLength]

def bytesAreAllZero (bytes : List UInt8) : Bool := bytes.all (· == 0)

def helloAck (s : Session) (proof : List UInt8) : List UInt8 :=
  writeHeader kFrameHelloAck 0 (2+kSessionIdLen+kNonceLen+kProofLen) ++
    storeLe16 s.localCapabilities ++ s.sessionId ++ s.deviceNonce ++ proof

def handleHello (k : Crypto) (e : Entropy) (body : List UInt8) (s : Session) :
    Status × Result × Session :=
  if body.length ≠ 2+kNonceLen then (.eproto, closeWith .protocolError, s)
  else if s.secret.length = 0 then (.eauth, closeWith .authFailed, s)
  else
    let s := { reset s with
      peerCapabilities := loadLe16 (ofList body) 0
      clientNonce := slice (ofList body) 2 kNonceLen
      deviceNonce := slice (ofList e.deviceNonce.2) 0 kNonceLen
      sessionId := slice (ofList e.sessionId.2) 0 kSessionIdLen }
    if e.deviceNonce.1 ≠ .ok ∨ bytesAreAllZero s.deviceNonce ∨ e.sessionId.1 ≠ .ok ∨
        bytesAreAllZero s.sessionId then (.einternal, closeWith .protocolError, reset s)
    else match derive k s kDomainDeviceProof with
      | none => (.einternal, closeWith .protocolError, reset s)
      | some proof => (.ok, ⟨helloAck s proof, [], none⟩, { s with state := .handshaking })

def authenticate (deviceToClient clientToDevice : List UInt8) (s : Session) : Session :=
  { s with
    keyDeviceToClient := deviceToClient
    keyClientToDevice := clientToDevice
    txCounter := 0
    rxCounter := 0
    state := .authenticated
    history := { s.history with sessions := emptyLog deviceToClient :: s.history.sessions } }

def handleAuth (k : Crypto) (body : List UInt8) (s : Session) : Status × Result × Session :=
  if s.state ≠ .handshaking then (.estate, closeWith .protocolError, s)
  else if body.length ≠ kProofLen then (.eproto, closeWith .protocolError, s)
  else match derive k s kDomainClientProof with
    | none => (.einternal, closeWith .protocolError, reset s)
    | some expected =>
      if expected ≠ body then (.eauth, closeWith .authFailed, s)
      else match derive k s kDomainKeyD2c, derive k s kDomainKeyC2d with
        | some deviceToClient, some clientToDevice =>
          (.ok, ⟨writeHeader kFrameAuthAck 0 1 ++ [0], [], none⟩,
            authenticate deviceToClient clientToDevice s)
        | _, _ => (.einternal, closeWith .protocolError, reset s)

def handleData (b : Build) (k : Crypto) (flags : UInt8) (body : List UInt8) (s : Session) :
    Status × Result × Session :=
  let overhead := kCounterLen+kTagLen
  let counter := loadLe64 (ofList body) 0
  if s.state ≠ .authenticated then (.eauth, closeWith .authFailed, s)
  else if body.length ≤ overhead ∨ b.maxPayload < body.length-overhead then
    (.eproto, closeWith .protocolError, s)
  else if counter = 0xFFFFFFFFFFFFFFFF ∨ s.rxCounter = 0xFFFFFFFFFFFFFFFE then
    (.eproto, closeWith .counterExhausted, s)
  else if counter ≠ s.rxCounter+1 then (.eproto, closeWith .replayDetected, s)
  else match k.decrypt s.keyClientToDevice (buildNonce kDirClientToDevice counter)
      (buildAad kFrameData flags kDirClientToDevice counter) (body.drop kCounterLen) with
    | none => (.eauth, closeWith .authFailed, s)
    | some text =>
      let payload := slice (ofList text) 0 (body.length-overhead)
      (.ok, ⟨[], payload, none⟩,
        record (fun l => { l with received := l.received ++ [(counter, payload)] })
          { s with rxCounter := counter })

def handleFrame (b : Build) (k : Crypto) (e : Entropy) (frame : List UInt8) (s : Session) :
    Status × Result × Session :=
  let input := ofList frame
  let body := frame.drop kFrameHeaderLen
  if frame.length < kFrameHeaderLen ∨ b.maxFrameLen < frame.length ∨
      input 0 ≠ kProtocolVersion ∨ (input 3).toNat ≠ frame.length-kFrameHeaderLen then
    (.eproto, closeWith .protocolError, s)
  else if input 1 = kFrameHello then handleHello k e body s
  else if input 1 = kFrameAuth then handleAuth k body s
  else if input 1 = kFrameData then handleData b k (input 2) body s
  else if input 1 = kFrameClose then (.ok, closeWith .clientRequest, s)
  else (.eproto, closeWith .protocolError, s)

def dataFrame (k : Crypto) (key : List UInt8) (counter : UInt64) (payload : List UInt8) :
    Option (List UInt8) :=
  (k.encrypt key (buildNonce kDirDeviceToClient counter)
    (buildAad kFrameData 0 kDirDeviceToClient counter) payload).map fun sealed =>
      writeHeader kFrameData 0 (kCounterLen+payload.length+kTagLen) ++ storeLe64 counter ++ sealed

def buildData (b : Build) (k : Crypto) (payload : List UInt8) (s : Session) :
    Except Status (List UInt8 × Session) :=
  if payload.length = 0 ∨ b.maxPayload < payload.length then .error .einval
  else if s.state ≠ .authenticated then .error .eauth
  else if 0xFFFFFFFFFFFFFFFE ≤ s.txCounter then .error .eoverflow
  else match dataFrame k s.keyDeviceToClient (s.txCounter+1) payload with
    | none => .error .einternal
    | some frame => .ok (frame, { s with txCounter := s.txCounter+1 })

def frameCounter (frame : List UInt8) : UInt64 := loadLe64 (ofList frame) kFrameHeaderLen

theorem dataFrame_counter {k : Crypto} {key payload frame : List UInt8} {counter : UInt64}
    (h : dataFrame k key counter payload = some frame) : frameCounter frame = counter := by
  obtain ⟨sealed, _, rfl⟩ := Option.map_eq_some_iff.mp h
  exact loadLe64_store rfl

variable {b : Build} {k : Crypto} {e : Entropy} {frame : List UInt8} {s s' : Session}

theorem buildData_ok {payload : List UInt8} (h : buildData b k payload s = .ok (frame, s')) :
    s.state = .authenticated ∧ s.txCounter < 0xFFFFFFFFFFFFFFFE ∧
      dataFrame k s.keyDeviceToClient (s.txCounter+1) payload = some frame ∧
      s' = { s with txCounter := s.txCounter+1 } := by
  unfold buildData at h
  by_cases hpayload : payload.length = 0 ∨ b.maxPayload < payload.length
  · rw [if_pos hpayload] at h
    cases h
  rw [if_neg hpayload] at h
  by_cases hstate : s.state ≠ .authenticated
  · rw [if_pos hstate] at h
    cases h
  rw [if_neg hstate] at h
  by_cases hcounter : 0xFFFFFFFFFFFFFFFE ≤ s.txCounter
  · rw [if_pos hcounter] at h
    cases h
  rw [if_neg hcounter] at h
  cases hframe : dataFrame k s.keyDeviceToClient (s.txCounter+1) payload with
  | none =>
    rw [hframe] at h
    cases h
  | some built =>
    rw [hframe] at h
    obtain ⟨rfl, rfl⟩ := Prod.mk.inj (Except.ok.inj h)
    exact ⟨not_not.mp hstate, UInt64.not_le.mp hcounter, rfl, rfl⟩

def Dropped (s s' : Session) : Prop := s' = s ∨ s' = reset s

inductive Handled (frame : List UInt8) (s : Session) : Status × Result × Session → Prop
  | refused (status : Status) (reason : CloseReason) {s' : Session} (dropped : Dropped s s') :
      Handled frame s (status, closeWith reason, s')
  | hello {response : List UInt8} {s' : Session}
      (hello : kFrameHeaderLen ≤ frame.length ∧ ofList frame 0 = kProtocolVersion ∧
        ofList frame 1 = kFrameHello)
      (state : s'.state = .handshaking) (counter : s'.txCounter = 0)
      (history : s'.history = s.history) (answer : response ≠ []) :
      Handled frame s (.ok, ⟨response, [], none⟩, s')
  | authenticated (deviceToClient clientToDevice : List UInt8) {response : List UInt8}
      (state : s.state = .handshaking) (answer : response ≠ []) :
      Handled frame s (.ok, ⟨response, [], none⟩, authenticate deviceToClient clientToDevice s)
  | data (counter : UInt64) {payload : List UInt8} (state : s.state = .authenticated)
      (next : counter = s.rxCounter+1) (text : payload ≠ []) :
      Handled frame s (.ok, ⟨[], payload, none⟩,
        record (fun l => { l with received := l.received ++ [(counter, payload)] })
          { s with rxCounter := counter })

theorem handleHello_handled {body : List UInt8}
    (hhello : kFrameHeaderLen ≤ frame.length ∧ ofList frame 0 = kProtocolVersion ∧
      ofList frame 1 = kFrameHello) : Handled frame s (handleHello k e body s) := by
  unfold handleHello
  dsimp only
  split_ifs
  · exact .refused _ _ (.inl rfl)
  · exact .refused _ _ (.inl rfl)
  · exact .refused _ _ (.inr rfl)
  split
  · exact .refused _ _ (.inr rfl)
  · exact .hello hhello rfl rfl rfl (by simp [helloAck, writeHeader])

theorem handleAuth_handled {body : List UInt8} : Handled frame s (handleAuth k body s) := by
  unfold handleAuth
  by_cases hstate : s.state ≠ .handshaking
  · rw [if_pos hstate]
    exact .refused _ _ (.inl rfl)
  rw [if_neg hstate]
  rw [not_not] at hstate
  split_ifs
  · exact .refused _ _ (.inl rfl)
  split
  · exact .refused _ _ (.inr rfl)
  split_ifs
  · exact .refused _ _ (.inl rfl)
  split
  · exact .authenticated _ _ hstate (by simp [writeHeader])
  · exact .refused _ _ (.inr rfl)

theorem handleData_handled {flags : UInt8} {body : List UInt8} :
    Handled frame s (handleData b k flags body s) := by
  unfold handleData
  dsimp only
  by_cases hstate : s.state ≠ .authenticated
  · rw [if_pos hstate]
    exact .refused _ _ (.inl rfl)
  rw [if_neg hstate]
  rw [not_not] at hstate
  by_cases hlength : body.length ≤ kCounterLen+kTagLen ∨
      b.maxPayload < body.length-(kCounterLen+kTagLen)
  · rw [if_pos hlength]
    exact .refused _ _ (.inl rfl)
  rw [if_neg hlength]
  by_cases hused : loadLe64 (ofList body) 0 = 0xFFFFFFFFFFFFFFFF ∨
      s.rxCounter = 0xFFFFFFFFFFFFFFFE
  · rw [if_pos hused]
    exact .refused _ _ (.inl rfl)
  rw [if_neg hused]
  by_cases hnext : loadLe64 (ofList body) 0 ≠ s.rxCounter+1
  · rw [if_pos hnext]
    exact .refused _ _ (.inl rfl)
  rw [if_neg hnext]
  split
  · exact .refused _ _ (.inl rfl)
  · refine .data _ hstate (not_not.mp hnext) fun hempty => ?_
    have hzero := congrArg List.length hempty
    rw [slice_length, List.length_nil] at hzero
    omega

theorem handleFrame_handled : Handled frame s (handleFrame b k e frame s) := by
  unfold handleFrame
  dsimp only
  by_cases hshape : frame.length < kFrameHeaderLen ∨ b.maxFrameLen < frame.length ∨
      ofList frame 0 ≠ kProtocolVersion ∨
      (ofList frame 3).toNat ≠ frame.length-kFrameHeaderLen
  · rw [if_pos hshape]
    exact .refused _ _ (.inl rfl)
  rw [if_neg hshape]
  simp only [not_or, Nat.not_lt, not_not] at hshape
  by_cases hhello : ofList frame 1 = kFrameHello
  · rw [if_pos hhello]
    exact handleHello_handled ⟨hshape.1, hshape.2.2.1, hhello⟩
  rw [if_neg hhello]
  split_ifs
  · exact handleAuth_handled
  · exact handleData_handled
  · exact .refused _ _ (.inl rfl)
  · exact .refused _ _ (.inl rfl)

end JaszczurHal.BleSession
