import JaszczurHal.ByteImage
import JaszczurHal.HalStatus

/-!
# The synchronised clock

`hal_time_ntp.cpp` keeps one base instant and the monotonic reading it belongs
to. The base is set by hand or from an NTP answer; seconds and microseconds are
reported from one snapshot of it. The mutex, the attached RTC and the closing
of sockets are outside the model.
-/

set_option autoImplicit false

namespace JaszczurHal.HalTimeNtp
open ByteImage
open HalStatus (Status)

inductive TimeSource where
  | unset
  | manual
  | rtc
  | ntp
  deriving DecidableEq, Repr

inductive NtpState where
  | idle
  | inProgress
  | synchronized
  | failed
  deriving DecidableEq, Repr

inductive NetFamily where
  | unspec
  | inet
  | inet6
  deriving DecidableEq, Repr

structure NetEndpoint where
  family : NetFamily
  addr : Image
  addrLen : UInt8
  port : UInt16
  scopeId : UInt32

def ntpPacketSize : ℕ := 48
def ntpPort : UInt16 := 123
def ipv4AddrLen : UInt8 := 4
def ntpTimeoutMs : UInt32 := 5000
def ntpUnixEpochOffset : UInt64 := 2208988800

def zeros : Image := fun _ => 0

def storeBe64 (v : UInt64) : List UInt8 :=
  [(v >>> 56).toUInt8, (v >>> 48).toUInt8, (v >>> 40).toUInt8, (v >>> 32).toUInt8,
    (v >>> 24).toUInt8, (v >>> 16).toUInt8, (v >>> 8).toUInt8, v.toUInt8]

def prepareRequest (token : UInt64) : Except Status Image :=
  if token = 0 then .error .einval
  else .ok (write (write zeros 0 [0x23]) 40 (storeBe64 token))

/-- The seconds and the fraction of an answer, `none` for a NULL argument apart. -/
def validateResponse (request : Image) (expectedServer : NetEndpoint) (response : Image)
    (responseSize : ℕ) (source : NetEndpoint) : Except Status (UInt32 × UInt32) :=
  if expectedServer.family ≠ .inet ∨ expectedServer.addrLen ≠ ipv4AddrLen ∨
      expectedServer.scopeId ≠ 0 ∨ expectedServer.port ≠ ntpPort ∨ source.family ≠ .inet ∨
      source.addrLen ≠ ipv4AddrLen ∨ source.scopeId ≠ 0 ∨ source.port ≠ ntpPort ∨
      slice source.addr 0 4 ≠ slice expectedServer.addr 0 4 then
    .error .eproto
  else if responseSize < ntpPacketSize then .error .eproto
  else
    let version := (response 0 >>> 3) &&& 0x07
    if response 0 >>> 6 = 3 ∨ version < 3 ∨ version > 4 ∨ response 0 &&& 0x07 ≠ 4 ∨
        response 1 = 0 ∨ response 1 > 15 ∨ slice response 24 8 ≠ slice request 40 8 then
      .error .eproto
    else
      let ntpSeconds := loadBe32 response 40
      let ntpFraction := loadBe32 response 44
      if ntpSeconds = 0 ∧ ntpFraction = 0 then .error .eproto
      else .ok (ntpSeconds, ntpFraction)

structure TimeState where
  ntpSocket : Option ℕ
  ntpServer : NetEndpoint
  ntpRequest : Image
  ntpSecondary : List UInt8
  ntpStarted : UInt32
  ntpPending : Bool
  ntpSecondaryAttempted : Bool
  timeValid : Bool
  timeSource : TimeSource
  unixBase : UInt64
  unixBaseMicros : UInt32
  unixBaseMonotonicUs : UInt64
  ntpState : NtpState
  lastNtpStatus : Status
  lastNtpSyncUnix : UInt64

structure StartInputs where
  resolve : List UInt8 → Except Status (List UInt8)
  socket : Except Status ℕ
  bind : Status
  tokenMillis : UInt32
  sendto : Status × ℕ
  startedMillis : UInt32

def requestToken (millis : UInt32) : UInt64 :=
  let token := (millis.toUInt64 <<< 32) ||| 0x4a484e54
  if token = 0 then 1 else token

def remoteEndpoint (address : List UInt8) : NetEndpoint where
  family := .inet
  addr := write zeros 0 address
  addrLen := ipv4AddrLen
  port := ntpPort
  scopeId := 0

def startRequest (s : TimeState) (io : StartInputs) (server : List UInt8) :
    Except Status TimeState := do
  let address ← io.resolve server
  let socket ← io.socket
  if io.bind ≠ .ok then throw io.bind
  let request ← prepareRequest (requestToken io.tokenMillis)
  if io.sendto.1 ≠ .ok then throw io.sendto.1
  if io.sendto.2 ≠ ntpPacketSize then throw .eio
  return { s with
    ntpSocket := some socket
    ntpServer := remoteEndpoint address
    ntpRequest := request
    ntpStarted := io.startedMillis
    ntpPending := true }

def setClockLocked (s : TimeState) (unixBase : UInt64) (baseMicros : UInt32)
    (baseMonotonicUs : UInt64) (source : TimeSource) : TimeState :=
  { s with
    unixBase := unixBase
    unixBaseMicros := baseMicros
    unixBaseMonotonicUs := baseMonotonicUs
    timeSource := source
    timeValid := true }

def finishSuccess (s : TimeState) (unixBase : UInt64) (baseMicros : UInt32)
    (baseMonotonicUs : UInt64) : TimeState :=
  { setClockLocked s unixBase baseMicros baseMonotonicUs .ntp with
    ntpState := .synchronized
    lastNtpStatus := .ok
    lastNtpSyncUnix := unixBase
    ntpSocket := none
    ntpPending := false }

def finishTimeout (s : TimeState) : TimeState × Option (List UInt8) :=
  let s := { s with ntpSocket := none, ntpPending := false }
  if s.ntpSecondaryAttempted = false ∧ s.ntpSecondary ≠ [] then
    ({ s with ntpSecondaryAttempted := true }, some s.ntpSecondary)
  else ({ s with ntpState := .failed, lastNtpStatus := .etimeout }, none)

structure Reception where
  status : Status
  response : Image
  received : ℕ
  source : NetEndpoint

structure ServiceInputs where
  entered : Bool
  lock : Status
  reception : Reception
  micros64 : UInt64
  millis : UInt32
  start : StartInputs

def elapsedU32 (now started interval : UInt32) : Bool := decide (now-started ≥ interval)

def receivedAnswer (s : TimeState) (r : Reception) : Option (UInt32 × UInt32) :=
  if r.status = .ok ∧ r.received > 0 then
    match validateResponse s.ntpRequest s.ntpServer r.response r.received r.source with
    | .error _ => none
    | .ok (seconds, fraction) =>
      if seconds.toUInt64 ≥ ntpUnixEpochOffset then some (seconds, fraction) else none
  else none

def baseMicros (fraction : UInt32) : UInt32 := ((fraction.toUInt64*1000000) >>> 32).toUInt32

/-- `ntp_service`. Whoever starts a request holds the same flag, so the request
that was snapshot is still the current one when it is finished. -/
def ntpService (s : TimeState) (io : ServiceInputs) : Status × TimeState :=
  if io.entered = false then (.ok, s)
  else if io.lock ≠ .ok then (io.lock, s)
  else if s.ntpPending = false ∨ s.ntpSocket = none then (.ok, s)
  else match receivedAnswer s io.reception with
  | some (seconds, fraction) =>
    (.ok, finishSuccess s (seconds.toUInt64-ntpUnixEpochOffset) (baseMicros fraction) io.micros64)
  | none =>
    if elapsedU32 io.millis s.ntpStarted ntpTimeoutMs = false then (.ok, s)
    else match finishTimeout s with
    | (s, none) => (.ok, s)
    | (s, some secondary) =>
      match startRequest s io.start secondary with
      | .ok s => (.ok, s)
      | .error status => (.ok, { s with ntpState := .failed, lastNtpStatus := status })

def setUnix (s : TimeState) (unixTime : UInt64) (micros : UInt32) (source : TimeSource)
    (monotonicUs : UInt64) : Except Status TimeState :=
  if micros ≥ 1000000 ∨ source = .unset then .error .einval
  else
    let s := setClockLocked s unixTime micros monotonicUs source
    .ok (if source = .ntp then
      { s with ntpState := .synchronized, lastNtpStatus := .ok, lastNtpSyncUnix := unixTime }
    else s)

structure ClockSnapshot where
  valid : Bool
  unixBase : UInt64
  baseMicros : UInt32
  baseMonotonicUs : UInt64
  deriving DecidableEq, Repr

def clockSnapshot (s : TimeState) : ClockSnapshot where
  valid := s.timeValid
  unixBase := s.unixBase
  baseMicros := s.unixBaseMicros
  baseMonotonicUs := s.unixBaseMonotonicUs

def elapsedFromSnapshot (snapshot : ClockSnapshot) (nowMonotonicUs : UInt64) : UInt64 :=
  if nowMonotonicUs ≥ snapshot.baseMonotonicUs then nowMonotonicUs-snapshot.baseMonotonicUs else 0

def unixFromSnapshot (snapshot : ClockSnapshot) (nowMonotonicUs : UInt64) : UInt64 :=
  if snapshot.valid = false then 0
  else
    let elapsedMicros := elapsedFromSnapshot snapshot nowMonotonicUs
    let elapsedSeconds := elapsedMicros/1000000
    let subsecond := snapshot.baseMicros.toUInt64+elapsedMicros%1000000
    snapshot.unixBase+elapsedSeconds+subsecond/1000000

def microsFromSnapshot (snapshot : ClockSnapshot) (nowMonotonicUs : UInt64) : UInt32 :=
  let elapsedMicros := elapsedFromSnapshot snapshot nowMonotonicUs
  ((snapshot.baseMicros.toUInt64+elapsedMicros%1000000)%1000000).toUInt32

variable {s : TimeState} {io : ServiceInputs} {snapshot : ClockSnapshot} {now : UInt64}

/-- The microseconds since the epoch that the base and the elapsed time make. -/
def trueMicros (snapshot : ClockSnapshot) (now : UInt64) : ℕ :=
  snapshot.unixBase.toNat*1000000+snapshot.baseMicros.toNat+
    (now.toNat-snapshot.baseMonotonicUs.toNat)

def reportedMicros (snapshot : ClockSnapshot) (now : UInt64) : ℕ :=
  (unixFromSnapshot snapshot now).toNat*1000000+(microsFromSnapshot snapshot now).toNat

theorem elapsed_toNat (h : snapshot.baseMonotonicUs ≤ now) :
    (elapsedFromSnapshot snapshot now).toNat = now.toNat-snapshot.baseMonotonicUs.toNat := by
  rw [elapsedFromSnapshot, if_pos h, UInt64.toNat_sub_of_le _ _ h]

theorem subsecond_toNat (hmicros : snapshot.baseMicros.toNat < 1000000) (elapsed : UInt64) :
    (snapshot.baseMicros.toUInt64+elapsed%1000000).toNat =
      snapshot.baseMicros.toNat+elapsed.toNat%1000000 := by
  have hlt : elapsed.toNat%1000000 < 1000000 := Nat.mod_lt _ (by decide)
  rw [UInt64.toNat_add, UInt32.toNat_toUInt64, UInt64.toNat_mod]
  exact Nat.mod_eq_of_lt (by change _+_%1000000 < _; omega)

theorem micros_toNat (hmicros : snapshot.baseMicros.toNat < 1000000)
    (h : snapshot.baseMonotonicUs ≤ now) :
    (microsFromSnapshot snapshot now).toNat = trueMicros snapshot now%1000000 := by
  have hsub := subsecond_toNat hmicros (elapsedFromSnapshot snapshot now)
  rw [elapsed_toNat h] at hsub
  rw [microsFromSnapshot, UInt64.toNat_toUInt32, UInt64.toNat_mod, hsub, trueMicros]
  change _%1000000%4294967296 = _
  omega

theorem unix_toNat (hvalid : snapshot.valid = true) (hmicros : snapshot.baseMicros.toNat < 1000000)
    (h : snapshot.baseMonotonicUs ≤ now) :
    (unixFromSnapshot snapshot now).toNat = trueMicros snapshot now/1000000%2^64 := by
  have hsub := subsecond_toNat hmicros (elapsedFromSnapshot snapshot now)
  have helapsed := elapsed_toNat h
  have hdiv : ∀ x : UInt64, (x/1000000).toNat = x.toNat/1000000 := fun x => UInt64.toNat_div x _
  rw [unixFromSnapshot, if_neg (by simp [hvalid])]
  rw [UInt64.toNat_add, UInt64.toNat_add, hdiv, hdiv, hsub, helapsed, trueMicros]
  omega

theorem micros_lt (hmicros : snapshot.baseMicros.toNat < 1000000)
    (h : snapshot.baseMonotonicUs ≤ now) : (microsFromSnapshot snapshot now).toNat < 1000000 := by
  rw [micros_toNat hmicros h]
  exact Nat.mod_lt _ (by decide)

theorem reported_mod (hvalid : snapshot.valid = true)
    (hmicros : snapshot.baseMicros.toNat < 1000000) (h : snapshot.baseMonotonicUs ≤ now) :
    reportedMicros snapshot now = trueMicros snapshot now%(2^64*1000000) := by
  rw [reportedMicros, unix_toNat hvalid hmicros h, micros_toNat hmicros h]
  omega

/-- Exact while the seconds fit in 64 bits, and exact modulo them always. -/
theorem clock_exact (snapshot : ClockSnapshot) (now : UInt64) (hvalid : snapshot.valid = true)
    (hmicros : snapshot.baseMicros.toNat < 1000000) (h : snapshot.baseMonotonicUs ≤ now) :
    (microsFromSnapshot snapshot now).toNat < 1000000 ∧
      reportedMicros snapshot now = trueMicros snapshot now%(2^64*1000000) ∧
      (trueMicros snapshot now < 2^64*1000000 →
        reportedMicros snapshot now = trueMicros snapshot now ∧
        ∀ earlier, snapshot.baseMonotonicUs ≤ earlier → earlier ≤ now →
          reportedMicros snapshot earlier ≤ reportedMicros snapshot now) := by
  have hmod := reported_mod hvalid hmicros h
  refine ⟨micros_lt hmicros h, hmod, fun hfits => ?_⟩
  rw [Nat.mod_eq_of_lt hfits] at hmod
  refine ⟨hmod, fun earlier hbase hle => ?_⟩
  have hbefore : trueMicros snapshot earlier ≤ trueMicros snapshot now :=
    Nat.add_le_add_left (Nat.sub_le_sub_right (UInt64.le_iff_toNat_le.mp hle) _) _
  rw [hmod, reported_mod hvalid hmicros hbase]
  exact (Nat.mod_le _ _).trans hbefore

theorem clock_exact_carry :
    let snapshot : ClockSnapshot :=
      { valid := true, unixBase := 1700000000, baseMicros := 999999, baseMonotonicUs := 5 }
    (microsFromSnapshot snapshot 6).toNat < 1000000 ∧
      reportedMicros snapshot 6 = trueMicros snapshot 6 := by
  intro snapshot
  have hclock := clock_exact snapshot 6 rfl (by decide) (by decide)
  exact ⟨hclock.1, (hclock.2.2 (by decide)).1⟩

/-- One second after the last one that 64 bits can count. -/
theorem clock_wraps :
    ¬ ∀ (snapshot : ClockSnapshot) (now : UInt64), snapshot.valid = true →
      snapshot.baseMicros.toNat < 1000000 → snapshot.baseMonotonicUs ≤ now →
      reportedMicros snapshot now = trueMicros snapshot now := by
  intro h
  have hlast := h ⟨true, 0xFFFFFFFFFFFFFFFF, 0, 0⟩ 1000000 rfl (by decide) (by decide)
  exact absurd hlast (by decide)

theorem baseMicros_toNat (fraction : UInt32) :
    (baseMicros fraction).toNat = fraction.toNat*1000000/2^32 := by
  have hlt := fraction.toNat_lt
  have hproduct : fraction.toNat*1000000 < 2^64 := by omega
  have hquotient : fraction.toNat*1000000/2^32 < 2^32 := by omega
  rw [baseMicros, UInt64.toNat_toUInt32, UInt64.toNat_shiftRight, UInt64.toNat_mul,
    UInt32.toNat_toUInt64, Nat.shiftRight_eq_div_pow]
  change fraction.toNat*1000000%2^64/2^32%2^32 = _
  rw [Nat.mod_eq_of_lt hproduct, Nat.mod_eq_of_lt hquotient]

/-- Fields that a started request leaves as they are. -/
theorem startRequest_base {s s' : TimeState} {io : StartInputs} {server : List UInt8}
    (h : startRequest s io server = .ok s') :
    s'.unixBaseMicros = s.unixBaseMicros ∧ s'.ntpPending = true := by
  simp only [startRequest, bind, Except.bind, pure, Except.pure, throw, throwThe,
    MonadExceptOf.throw] at h
  repeat' split at h
  all_goals first | cases h; exact ⟨rfl, rfl⟩ | cases h

/-- A turn without an answer leaves the base alone; a request that is still
pending or has failed is what it ends with. -/
theorem timeout_turn {s : TimeState} {io : ServiceInputs}
    (hpending : s.ntpPending = true) (hnone : receivedAnswer s io.reception = none) :
    (ntpService s io).2.unixBaseMicros = s.unixBaseMicros ∧
      ((ntpService s io).2.ntpPending = true ∨ (ntpService s io).2.ntpState = .failed) := by
  rw [ntpService, hnone]
  split_ifs with hentered hlock hidle hearly
  · exact ⟨rfl, .inl hpending⟩
  · exact ⟨rfl, .inl hpending⟩
  · exact ⟨rfl, .inl hpending⟩
  · exact ⟨rfl, .inl hpending⟩
  · by_cases hretry : s.ntpSecondaryAttempted = false ∧ s.ntpSecondary ≠ []
    · simp only [finishTimeout, if_pos hretry]
      cases hstart : startRequest { s with
          ntpSocket := none, ntpPending := false, ntpSecondaryAttempted := true }
          io.start s.ntpSecondary with
      | error status => exact ⟨rfl, .inr rfl⟩
      | ok s' =>
        have hbase := startRequest_base hstart
        exact ⟨hbase.1, .inl hbase.2⟩
    · rw [finishTimeout, if_neg hretry]
      exact ⟨rfl, .inr rfl⟩

theorem answer_turn {seconds fraction : UInt32} (hentered : io.entered = true)
    (hlock : io.lock = .ok) (hpending : s.ntpPending = true) (hsocket : s.ntpSocket ≠ none)
    (hanswer : receivedAnswer s io.reception = some (seconds, fraction)) :
    ntpService s io = (.ok, finishSuccess s (seconds.toUInt64-ntpUnixEpochOffset)
      (baseMicros fraction) io.micros64) := by
  simp [ntpService, hentered, hlock, hpending, hsocket, hanswer]

/-- The instant `seconds` after the Unix epoch with that fraction is the base
that the service leaves. -/
structure Stored (r : Status × TimeState) (seconds : ℕ) (fraction : UInt32) : Prop where
  status : r.1 = .ok
  finished : r.2.ntpPending = false
  state : r.2.ntpState = .synchronized
  valid : r.2.timeValid = true
  unixBase : r.2.unixBase.toNat = seconds
  micros : r.2.unixBaseMicros.toNat = fraction.toNat*1000000/2^32

theorem stored_finish (s : TimeState) (base monotonicUs : UInt64) (seconds : ℕ)
    (fraction : UInt32) :
    Stored (.ok, finishSuccess s base (baseMicros fraction) monotonicUs) seconds fraction ↔
      base.toNat = seconds :=
  ⟨Stored.unixBase, fun h => ⟨rfl, rfl, rfl, rfl, h, baseMicros_toNat fraction⟩⟩

def transmitted (seconds : ℕ) : UInt32 := UInt32.ofNat (seconds+2208988800)

theorem transmitted_toNat (seconds : ℕ) :
    (transmitted seconds).toUInt64.toNat = (seconds+2208988800)%2^32 := by
  rw [UInt32.toNat_toUInt64]
  exact UInt32.toNat_ofNat

theorem receivedAnswer_valid {seconds fraction : UInt32} (hstatus : io.reception.status = .ok)
    (hvalid : validateResponse s.ntpRequest s.ntpServer io.reception.response
      io.reception.received io.reception.source = .ok (seconds, fraction)) :
    receivedAnswer s io.reception =
      if seconds.toUInt64 ≥ ntpUnixEpochOffset then some (seconds, fraction) else none := by
  have hsome : io.reception.received > 0 := by
    by_contra hzero
    have h0 : io.reception.received = 0 := by omega
    rw [h0, validateResponse, if_pos (show 0 < ntpPacketSize by decide), ite_self] at hvalid
    cases hvalid
  rw [receivedAnswer, if_pos ⟨hstatus, hsome⟩, hvalid]

/-- A validated answer is stored as the instant it was sent for exactly in the
first NTP era. -/
theorem answer_stored_iff (s : TimeState) (io : ServiceInputs) (seconds : ℕ) (fraction : UInt32)
    (hentered : io.entered = true) (hlock : io.lock = .ok) (hpending : s.ntpPending = true)
    (hsocket : s.ntpSocket ≠ none) (hstatus : io.reception.status = .ok)
    (hvalid : validateResponse s.ntpRequest s.ntpServer io.reception.response
      io.reception.received io.reception.source = .ok (transmitted seconds, fraction)) :
    Stored (ntpService s io) seconds fraction ↔ seconds+2208988800 < 2^32 := by
  have hanswer := receivedAnswer_valid hstatus hvalid
  have hsent := transmitted_toNat seconds
  by_cases hlarge : (transmitted seconds).toUInt64 ≥ ntpUnixEpochOffset
  · rw [if_pos hlarge] at hanswer
    rw [answer_turn hentered hlock hpending hsocket hanswer, stored_finish,
      UInt64.toNat_sub_of_le _ _ hlarge, hsent]
    change _-2208988800 = _ ↔ _
    have hle : 2208988800 ≤ (seconds+2208988800)%2^32 := by
      rw [← hsent]
      exact UInt64.le_iff_toNat_le.mp hlarge
    constructor
    · intro heq
      have hlt := Nat.mod_lt (seconds+2208988800) (show 0 < 2^32 by decide)
      omega
    · intro hera
      rw [Nat.mod_eq_of_lt hera, Nat.add_sub_cancel]
  · rw [if_neg hlarge] at hanswer
    have hturn := (timeout_turn hpending hanswer).2
    have hlt : (seconds+2208988800)%2^32 < 2208988800 := by
      rw [← hsent]
      exact UInt64.lt_iff_toNat_lt.mp (UInt64.not_le.mp hlarge)
    constructor
    · intro hstored
      rcases hturn with hopen | hfailed
      · rw [hstored.finished] at hopen
        cases hopen
      · rw [hstored.state] at hfailed
        cases hfailed
    · intro hera
      rw [Nat.mod_eq_of_lt hera] at hlt
      omega

def server : NetEndpoint := remoteEndpoint [192, 0, 2, 1]

def asked : TimeState where
  ntpSocket := some 1
  ntpServer := server
  ntpRequest := write (write zeros 0 [0x23]) 40 (storeBe64 (requestToken 1))
  ntpSecondary := []
  ntpStarted := 1
  ntpPending := true
  ntpSecondaryAttempted := false
  timeValid := false
  timeSource := .unset
  unixBase := 0
  unixBaseMicros := 0
  unixBaseMonotonicUs := 0
  ntpState := .inProgress
  lastNtpStatus := .eagain
  lastNtpSyncUnix := 0

def answerOf (seconds : ℕ) (fraction : UInt32) : Image :=
  write (write (write (write zeros 0 [0x24, 2]) 24 (storeBe64 (requestToken 1)))
    40 (storeBe32 (transmitted seconds))) 44 (storeBe32 fraction)

def noStart : StartInputs where
  resolve := fun _ => .error .enoent
  socket := .error .enomem
  bind := .ok
  tokenMillis := 0
  sendto := (.ok, 48)
  startedMillis := 0

def answered (seconds : ℕ) (fraction : UInt32) : ServiceInputs where
  entered := true
  lock := .ok
  reception := ⟨.ok, answerOf seconds fraction, 48, server⟩
  micros64 := 7000
  millis := 7
  start := noStart

/-- 2023-11-14 22:13:20.5. -/
theorem answer_stored_present :
    Stored (ntpService asked (answered 1700000000 0x80000000)) 1700000000 0x80000000 :=
  (answer_stored_iff asked (answered 1700000000 0x80000000) 1700000000 0x80000000 rfl rfl rfl
    (by decide) rfl (by decide)).mpr (by decide)

/-- 2036-02-07 06:28:17, the second after the rollover: the answer is ignored. -/
theorem answer_after_rollover :
    ¬ ∀ (s : TimeState) (io : ServiceInputs) (seconds : ℕ) (fraction : UInt32),
      io.entered = true → io.lock = .ok → s.ntpPending = true → s.ntpSocket ≠ none →
      io.reception.status = .ok →
      validateResponse s.ntpRequest s.ntpServer io.reception.response io.reception.received
        io.reception.source = .ok (transmitted seconds, fraction) →
      seconds+2208988800 < 2^32+2^31 → Stored (ntpService s io) seconds fraction := by
  intro h
  have hstored := h asked (answered 2085978497 0) 2085978497 0 rfl rfl rfl (by decide) rfl
    (by decide) (by decide)
  exact absurd hstored.finished (by decide)

end JaszczurHal.HalTimeNtp
