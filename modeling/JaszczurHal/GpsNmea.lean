import JaszczurHal.ByteImage

/-!
# The NMEA parser

One byte at a time: terms are cut, decoded into staged values, and the staged
values are copied out when a checksum term agrees. Arithmetic wraps, also
where the language leaves the overflow of a signed value undefined.
-/

set_option autoImplicit false

namespace JaszczurHal.GpsNmea
open ByteImage

/-- What the platform fixes: the greatest `long`, and whether a `char` has a
sign. -/
structure Abi where
  longMax : ℕ
  charSigned : Bool

def arm : Abi := ⟨2^31-1, false⟩

def letters (text : String) : List UInt8 := text.toList.map fun character =>
  UInt8.ofNat character.toNat

def dollar : UInt8 := 0x24
def asterisk : UInt8 := 0x2A
def comma : UInt8 := 0x2C
def carriageReturn : UInt8 := 0x0D
def lineFeed : UInt8 := 0x0A

def termSize : ℕ := 16
def utcMinYear : ℕ := 2000
def utcMaxYear : ℕ := utcMinYear+99
def rmcFieldDigits : ℕ := 6
def utcMaxFractionDigits : ℕ := 6

def isDigit (c : UInt8) : Bool := 0x30 ≤ c && c ≤ 0x39
def isSpace (c : UInt8) : Bool := c = 0x20 || (0x09 ≤ c && c ≤ 0x0D)

def digitsValue (text : List UInt8) : ℕ :=
  (text.takeWhile isDigit).foldl (fun n c => n*10+(c.toNat-0x30)) 0

def atol (a : Abi) (text : List UInt8) : ℤ :=
  match text.dropWhile isSpace with
  | [] => 0
  | c :: rest =>
    if c = 0x2D then -(min (digitsValue rest) (a.longMax+1) : ℕ)
    else if c = 0x2B then (min (digitsValue rest) a.longMax : ℕ)
    else (min (digitsValue (c :: rest)) a.longMax : ℕ)

def hexValue (value : UInt8) : UInt8 :=
  if 0x41 ≤ value ∧ value ≤ 0x46 then value-0x41+10
  else if 0x61 ≤ value ∧ value ≤ 0x66 then value-0x61+10
  else value-0x30

def digitInt32 (c : UInt8) : Int32 := Int32.ofNat (c.toNat-0x30)

def hundredths : List UInt8 → Int32
  | point :: c :: rest =>
    if point = 0x2E ∧ isDigit c then
      10*digitInt32 c+(match rest with
        | [] => 0
        | d :: _ => if isDigit d then digitInt32 d else 0)
    else 0
  | _ => 0

def decimalX100 (a : Abi) (text : List UInt8) : Int32 :=
  let negative := text.head? = some 0x2D
  let text := if negative then text.drop 1 else text
  let result := 100*Int32.ofInt (atol a text)+hundredths (text.dropWhile isDigit)
  if negative then -result else result

def fractionOfMinute : List UInt8 → UInt32 → UInt32 → UInt32
  | [], _, tenMillionths => tenMillionths
  | c :: rest, multiplier, tenMillionths =>
    if isDigit c then
      fractionOfMinute rest (multiplier/10)
        (tenMillionths+UInt32.ofNat (c.toNat-0x30)*(multiplier/10))
    else tenMillionths

def degrees (a : Abi) (text : List UInt8) : Int16 × UInt32 :=
  let left := UInt32.ofInt (atol a text)
  let whole := left%100*10000000
  let tenMillionths :=
    match text.dropWhile isDigit with
    | [] => whole
    | point :: rest => if point = 0x2E then fractionOfMinute rest 10000000 whole else whole
  ((left/100).toUInt16.toInt16, (5*tenMillionths+1)/3)

inductive SentenceType where
  | other
  | rmc
  | gga
  | gsa
  | gsv
  | gst
  deriving DecidableEq, Repr

structure RawDegrees where
  deg : Int16
  billionths : UInt32
  negative : Bool
  deriving DecidableEq

structure Datetime where
  year : UInt16
  month : UInt8
  day : UInt8
  hour : UInt8
  minute : UInt8
  second : UInt8
  weekday : UInt8
  deriving DecidableEq

structure Staging where
  newLat : RawDegrees
  newLng : RawDegrees
  newSpeed : Int32
  newCourse : Int32
  newAltitude : Int32
  newHdop : Int32
  newVdop : Int32
  newPdop : Int32
  newGstSmaj : Int32
  newGstSmin : Int32
  newDate : UInt32
  newTime : UInt32
  newSatsUsed : UInt32
  newFixQuality : UInt8
  newFixMode : UInt8
  newSatsInView : UInt8
  newStatusOk : Bool
  newTimeOk : Bool
  newDateOk : Bool
  deriving DecidableEq

structure Committed where
  locValid : Bool
  locUpdated : Bool
  locCommitSeq : UInt32
  lat : RawDegrees
  lng : RawDegrees
  dateValid : Bool
  timeValid : Bool
  date : UInt32
  time : UInt32
  utcValid : Bool
  utcCommitSeq : UInt32
  utc : Datetime
  speed : Int32
  course : Int32
  altitude : Int32
  hdop : Int32
  vdop : Int32
  pdop : Int32
  gstSmaj : Int32
  gstSmin : Int32
  satsUsed : UInt32
  fixQuality : UInt8
  fixMode : UInt8
  inviewGp : UInt8
  inviewGl : UInt8
  inviewGa : UInt8
  inviewGb : UInt8
  deriving DecidableEq

structure Parser where
  parity : UInt8
  isChecksumTerm : Bool
  term : Image
  termNumber : UInt8
  termOffset : ℕ
  sentenceType : SentenceType
  talker : List UInt8
  sentenceHasFix : Bool
  staged : Staging
  committed : Committed
  charsProcessed : UInt32
  passedChecksum : UInt32
  failedChecksum : UInt32
  sentencesWithFix : UInt32

def RawDegrees.zero : RawDegrees := ⟨0, 0, false⟩

def init : Parser where
  parity := 0
  isChecksumTerm := false
  term := fun _ => 0
  termNumber := 0
  termOffset := 0
  sentenceType := .other
  talker := []
  sentenceHasFix := false
  staged := ⟨.zero, .zero, 0, 0, 0, 0, 0, 0, 0, 0, 0, 0, 0, 0, 0, 0, false, false, false⟩
  committed :=
    { locValid := false, locUpdated := false, locCommitSeq := 0, lat := .zero, lng := .zero
      dateValid := false, timeValid := false, date := 0, time := 0
      utcValid := false, utcCommitSeq := 0, utc := ⟨0, 0, 0, 0, 0, 0, 0⟩
      speed := 0, course := 0, altitude := 0, hdop := 0, vdop := 0, pdop := 0
      gstSmaj := 0, gstSmin := 0, satsUsed := 0, fixQuality := 0, fixMode := 0
      inviewGp := 0, inviewGl := 0, inviewGa := 0, inviewGb := 0 }
  charsProcessed := 0
  passedChecksum := 0
  failedChecksum := 0
  sentencesWithFix := 0

def Parser.received (p : Parser) : List UInt8 := slice p.term 0 p.termOffset

def Parser.text (p : Parser) : List UInt8 := (slice p.term 0 termSize).takeWhile (· ≠ 0)

def startsWithDigits (t : List UInt8) (n : ℕ) : Bool :=
  decide (n ≤ t.length) && (t.take n).all isDigit

def rmcTimeIsWellFormed (t : List UInt8) : Bool :=
  if t.length < rmcFieldDigits || !startsWithDigits t rmcFieldDigits then false
  else if t.length = rmcFieldDigits then true
  else
    let fraction := t.length-rmcFieldDigits-1
    t.getD rmcFieldDigits 0 = 0x2E && 1 ≤ fraction && fraction ≤ utcMaxFractionDigits &&
      startsWithDigits (t.drop (rmcFieldDigits+1)) fraction

def rmcDateIsWellFormed (t : List UInt8) : Bool :=
  t.length = rmcFieldDigits && startsWithDigits t t.length

def sentenceTypeFrom (term0 : List UInt8) : SentenceType :=
  if term0.length < 3 then .other
  else
    let s3 := term0.drop (term0.length-3)
    if s3 = letters "RMC" then .rmc
    else if s3 = letters "GGA" then .gga
    else if s3 = letters "GSA" then .gsa
    else if s3 = letters "GSV" then .gsv
    else if s3 = letters "GST" then .gst
    else .other

def calendarIsLeapYear (year : ℕ) : Bool := year%4 = 0 && (year%100 ≠ 0 || year%400 = 0)

def calendarDaysInMonth (year month : ℕ) : ℕ :=
  if month = 2 then (if calendarIsLeapYear year then 29 else 28)
  else if month = 4 ∨ month = 6 ∨ month = 9 ∨ month = 11 then 30
  else 31

def validateDatetime (d : Datetime) (minYear maxYear : ℕ) : Bool :=
  decide (minYear ≤ d.year.toNat ∧ d.year.toNat ≤ maxYear ∧ 1 ≤ d.month ∧ d.month ≤ 12 ∧
    d.hour ≤ 23 ∧ d.minute ≤ 59 ∧ d.second ≤ 59 ∧ d.weekday ≤ 6 ∧ 1 ≤ d.day ∧
    d.day.toNat ≤ calendarDaysInMonth d.year.toNat d.month.toNat)

def utcOf (date time : UInt32) : Datetime where
  year := (date%100+UInt32.ofNat utcMinYear).toUInt16
  month := (date/100%100).toUInt8
  day := (date/10000).toUInt8
  hour := (time/1000000).toUInt8
  minute := (time/10000%100).toUInt8
  second := (time/100%100).toUInt8
  weekday := 0

def commitUtc (s : Staging) (v : Committed) : Committed :=
  if !s.newStatusOk || !s.newTimeOk || !s.newDateOk then v
  else if validateDatetime (utcOf s.newDate s.newTime) utcMinYear utcMaxYear then
    { v with
      utc := utcOf s.newDate s.newTime
      utcValid := true
      utcCommitSeq := v.utcCommitSeq+1 }
  else v

def commitPosition (s : Staging) (v : Committed) : Committed :=
  { v with
    lat := s.newLat
    lng := s.newLng
    locValid := true
    locUpdated := true
    locCommitSeq := v.locCommitSeq+1 }

def commitRmc (hasFix : Bool) (s : Staging) (v : Committed) : Committed :=
  let v := { v with date := s.newDate, dateValid := true, time := s.newTime, timeValid := true }
  if hasFix then
    commitUtc s { commitPosition s v with speed := s.newSpeed, course := s.newCourse }
  else v

def commitGga (hasFix : Bool) (s : Staging) (v : Committed) : Committed :=
  let v := { v with time := s.newTime, timeValid := true, fixQuality := s.newFixQuality }
  let v := if hasFix then { commitPosition s v with altitude := s.newAltitude } else v
  { v with satsUsed := s.newSatsUsed, hdop := s.newHdop }

def commitGsa (s : Staging) (v : Committed) : Committed :=
  { v with fixMode := s.newFixMode, pdop := s.newPdop, hdop := s.newHdop, vdop := s.newVdop }

def commitGsv (talker : List UInt8) (s : Staging) (v : Committed) : Committed :=
  if talker = letters "GP" then { v with inviewGp := s.newSatsInView }
  else if talker = letters "GL" then { v with inviewGl := s.newSatsInView }
  else if talker = letters "GA" then { v with inviewGa := s.newSatsInView }
  else if talker = letters "GB" then { v with inviewGb := s.newSatsInView }
  else v

def commitGst (s : Staging) (v : Committed) : Committed :=
  { v with gstSmaj := s.newGstSmaj, gstSmin := s.newGstSmin }

def commitSentence (p : Parser) : Parser :=
  { p with
    passedChecksum := p.passedChecksum+1
    sentencesWithFix := if p.sentenceHasFix then p.sentencesWithFix+1 else p.sentencesWithFix
    committed :=
      match p.sentenceType with
      | .rmc => commitRmc p.sentenceHasFix p.staged p.committed
      | .gga => commitGga p.sentenceHasFix p.staged p.committed
      | .gsa => commitGsa p.staged p.committed
      | .gsv => commitGsv p.talker p.staged p.committed
      | .gst => commitGst p.staged p.committed
      | .other => p.committed }

def atolByte (a : Abi) (t : List UInt8) : UInt8 := UInt8.ofInt (atol a t)

def unsignedX100 (a : Abi) (t : List UInt8) : UInt32 := (decimalX100 a t).toUInt32

def rawDegrees (a : Abi) (t : List UInt8) : RawDegrees :=
  ⟨(degrees a t).1, (degrees a t).2, false⟩

def letterIs (t : List UInt8) (letter : UInt8) : Bool := t.headD 0 = letter

def aboveZero (a : Abi) (t : List UInt8) : Bool :=
  0x30 < t.headD 0 && !(a.charSigned && 0x80 ≤ t.headD 0)

def decodeRmc (a : Abi) (n : ℕ) (t received : List UInt8) (p : Parser) : Parser :=
  let s := p.staged
  match n with
  | 1 => { p with staged :=
      { s with newTime := unsignedX100 a t, newTimeOk := rmcTimeIsWellFormed received } }
  | 2 => { p with
      sentenceHasFix := letterIs t 0x41
      staged := { s with newStatusOk := received.length = 1 && letterIs t 0x41 } }
  | 3 => { p with staged := { s with newLat := rawDegrees a t } }
  | 4 => { p with staged := { s with newLat := { s.newLat with negative := letterIs t 0x53 } } }
  | 5 => { p with staged := { s with newLng := rawDegrees a t } }
  | 6 => { p with staged := { s with newLng := { s.newLng with negative := letterIs t 0x57 } } }
  | 7 => { p with staged := { s with newSpeed := decimalX100 a t } }
  | 8 => { p with staged := { s with newCourse := decimalX100 a t } }
  | 9 => { p with staged :=
      { s with newDate := UInt32.ofInt (atol a t), newDateOk := rmcDateIsWellFormed received } }
  | _ => p

def decodeGga (a : Abi) (n : ℕ) (t : List UInt8) (p : Parser) : Parser :=
  let s := p.staged
  match n with
  | 1 => { p with staged := { s with newTime := unsignedX100 a t } }
  | 2 => { p with staged := { s with newLat := rawDegrees a t } }
  | 3 => { p with staged := { s with newLat := { s.newLat with negative := letterIs t 0x53 } } }
  | 4 => { p with staged := { s with newLng := rawDegrees a t } }
  | 5 => { p with staged := { s with newLng := { s.newLng with negative := letterIs t 0x57 } } }
  | 6 => { p with
      sentenceHasFix := aboveZero a t
      staged := { s with newFixQuality := atolByte a t } }
  | 7 => { p with staged := { s with newSatsUsed := UInt32.ofInt (atol a t) } }
  | 8 => { p with staged := { s with newHdop := decimalX100 a t } }
  | 9 => { p with staged := { s with newAltitude := decimalX100 a t } }
  | _ => p

def decodeGsa (a : Abi) (n : ℕ) (t : List UInt8) (p : Parser) : Parser :=
  let s := p.staged
  match n with
  | 2 => { p with staged := { s with newFixMode := atolByte a t } }
  | 15 => { p with staged := { s with newPdop := decimalX100 a t } }
  | 16 => { p with staged := { s with newHdop := decimalX100 a t } }
  | 17 => { p with staged := { s with newVdop := decimalX100 a t } }
  | _ => p

def decodeGsv (a : Abi) (n : ℕ) (t : List UInt8) (p : Parser) : Parser :=
  match n with
  | 3 => { p with staged := { p.staged with newSatsInView := atolByte a t } }
  | _ => p

def decodeGst (a : Abi) (n : ℕ) (t : List UInt8) (p : Parser) : Parser :=
  match n with
  | 3 => { p with staged := { p.staged with newGstSmaj := decimalX100 a t } }
  | 4 => { p with staged := { p.staged with newGstSmin := decimalX100 a t } }
  | _ => p

def decodeTerm (a : Abi) (p : Parser) : Parser :=
  match p.sentenceType with
  | .rmc => decodeRmc a p.termNumber.toNat p.text p.received p
  | .gga => decodeGga a p.termNumber.toNat p.text p
  | .gsa => decodeGsa a p.termNumber.toNat p.text p
  | .gsv => decodeGsv a p.termNumber.toNat p.text p
  | .gst => decodeGst a p.termNumber.toNat p.text p
  | .other => p

/-- A decoded term changes what is staged and nothing else. -/
theorem decodeTerm_frame (a : Abi) (p : Parser) : ∃ staged fix,
    decodeTerm a p = { p with staged := staged, sentenceHasFix := fix } := by
  unfold decodeTerm
  split
  · unfold decodeRmc
    split <;> exact ⟨_, _, rfl⟩
  · unfold decodeGga
    split <;> exact ⟨_, _, rfl⟩
  · unfold decodeGsa
    split <;> exact ⟨_, _, rfl⟩
  · unfold decodeGsv
    split <;> exact ⟨_, _, rfl⟩
  · unfold decodeGst
    split <;> exact ⟨_, _, rfl⟩
  · exact ⟨_, _, rfl⟩

def Parser.checksum (p : Parser) : UInt8 := 16*hexValue (p.term 0)+hexValue (p.term 1)

def nameSentence (p : Parser) : Parser :=
  { p with
    sentenceType := sentenceTypeFrom p.text
    talker := if 5 ≤ p.text.length then [p.term 0, p.term 1] else [] }

def endOfTerm (a : Abi) (p : Parser) : Parser × Bool :=
  if p.isChecksumTerm then
    if p.checksum = p.parity then (commitSentence p, true)
    else ({ p with failedChecksum := p.failedChecksum+1 }, false)
  else if p.termNumber = 0 then (nameSentence p, false)
  else if p.sentenceType ≠ .other ∧ p.term 0 ≠ 0 then (decodeTerm a p, false)
  else (p, false)

def endWith (a : Abi) (c : UInt8) (p : Parser) : Parser × Bool :=
  let (p, committed) :=
    if p.termOffset < termSize then
      endOfTerm a { p with term := write p.term p.termOffset [0] }
    else (p, false)
  ({ p with
    termNumber := p.termNumber+1
    termOffset := 0
    isChecksumTerm := c = asterisk }, committed)

def begin (p : Parser) : Parser :=
  { p with
    termNumber := 0
    termOffset := 0
    parity := 0
    sentenceType := .other
    isChecksumTerm := false
    sentenceHasFix := false
    staged := { p.staged with newStatusOk := false, newTimeOk := false, newDateOk := false } }

def append (c : UInt8) (p : Parser) : Parser :=
  { p with
    term := if p.termOffset < termSize-1 then write p.term p.termOffset [c] else p.term
    termOffset := if p.termOffset < termSize-1 then p.termOffset+1 else p.termOffset
    parity := if p.isChecksumTerm then p.parity else p.parity ^^^ c }

def encode (a : Abi) (p : Parser) (c : UInt8) : Parser × Bool :=
  let p := { p with charsProcessed := p.charsProcessed+1 }
  if c = comma then endWith a c { p with parity := p.parity ^^^ c }
  else if c = carriageReturn ∨ c = lineFeed ∨ c = asterisk then endWith a c p
  else if c = dollar then (begin p, false)
  else (append c p, false)

def run (a : Abi) (bytes : List UInt8) : Parser :=
  bytes.foldl (fun p c => (encode a p c).1) init

def Commits (a : Abi) (bytes : List UInt8) (c : UInt8) : Prop :=
  (encode a (run a bytes) c).2 = true

instance (a : Abi) (bytes : List UInt8) (c : UInt8) : Decidable (Commits a bytes c) :=
  inferInstanceAs (Decidable (_ = _))

theorem run_snoc (a : Abi) (bytes : List UInt8) (c : UInt8) :
    run a (bytes ++ [c]) = (encode a (run a bytes) c).1 := by
  rw [run, List.foldl_append]
  rfl

end JaszczurHal.GpsNmea
