import JaszczurHal.GpsSentence

/-!
# Outlines of sentences

The values that terms carry and sentences make public. The outline of a
sentence tells from its terms alone which type it has, whether it has a fix
and which values it carries.
-/

set_option autoImplicit false

namespace JaszczurHal.GpsOutline
open ByteImage GpsNmea GpsSentence

inductive Field where
  | latitude
  | longitude
  | speed
  | course
  | altitude
  | hdop
  | vdop
  | pdop
  | gstSmaj
  | gstSmin
  | date
  | time
  | satsUsed
  | fixQuality
  | fixMode
  | satsInView
  deriving DecidableEq, Repr

inductive Constellation where
  | gps
  | glonass
  | galileo
  | beidou
  deriving DecidableEq, Repr

inductive Datum where
  | copied (field : Field)
  | inview (constellation : Constellation)
  deriving DecidableEq, Repr

inductive Reading where
  | degrees (value : RawDegrees)
  | signed (value : Int32)
  | unsigned (value : UInt32)
  | byte (value : UInt8)
  deriving DecidableEq

def stagedReading (s : Staging) : Field → Reading
  | .latitude => .degrees s.newLat
  | .longitude => .degrees s.newLng
  | .speed => .signed s.newSpeed
  | .course => .signed s.newCourse
  | .altitude => .signed s.newAltitude
  | .hdop => .signed s.newHdop
  | .vdop => .signed s.newVdop
  | .pdop => .signed s.newPdop
  | .gstSmaj => .signed s.newGstSmaj
  | .gstSmin => .signed s.newGstSmin
  | .date => .unsigned s.newDate
  | .time => .unsigned s.newTime
  | .satsUsed => .unsigned s.newSatsUsed
  | .fixQuality => .byte s.newFixQuality
  | .fixMode => .byte s.newFixMode
  | .satsInView => .byte s.newSatsInView

def reading (v : Committed) : Datum → Reading
  | .copied .latitude => .degrees v.lat
  | .copied .longitude => .degrees v.lng
  | .copied .speed => .signed v.speed
  | .copied .course => .signed v.course
  | .copied .altitude => .signed v.altitude
  | .copied .hdop => .signed v.hdop
  | .copied .vdop => .signed v.vdop
  | .copied .pdop => .signed v.pdop
  | .copied .gstSmaj => .signed v.gstSmaj
  | .copied .gstSmin => .signed v.gstSmin
  | .copied .date => .unsigned v.date
  | .copied .time => .unsigned v.time
  | .copied .satsUsed => .unsigned v.satsUsed
  | .copied .fixQuality => .byte v.fixQuality
  | .copied .fixMode => .byte v.fixMode
  | .copied .satsInView => .byte 0
  | .inview .gps => .byte v.inviewGp
  | .inview .glonass => .byte v.inviewGl
  | .inview .galileo => .byte v.inviewGa
  | .inview .beidou => .byte v.inviewGb

def Datum.field : Datum → Field
  | .copied field => field
  | .inview _ => .satsInView

def Constellation.talker : Constellation → List UInt8
  | .gps => letters "GP"
  | .glonass => letters "GL"
  | .galileo => letters "GA"
  | .beidou => letters "GB"

def fieldOf : SentenceType → ℕ → Option Field
  | .rmc, 1 => some .time
  | .rmc, 3 => some .latitude
  | .rmc, 5 => some .longitude
  | .rmc, 7 => some .speed
  | .rmc, 8 => some .course
  | .rmc, 9 => some .date
  | .gga, 1 => some .time
  | .gga, 2 => some .latitude
  | .gga, 4 => some .longitude
  | .gga, 6 => some .fixQuality
  | .gga, 7 => some .satsUsed
  | .gga, 8 => some .hdop
  | .gga, 9 => some .altitude
  | .gsa, 2 => some .fixMode
  | .gsa, 15 => some .pdop
  | .gsa, 16 => some .hdop
  | .gsa, 17 => some .vdop
  | .gsv, 3 => some .satsInView
  | .gst, 3 => some .gstSmaj
  | .gst, 4 => some .gstSmin
  | _, _ => none

def publishes : SentenceType → Bool → List UInt8 → Datum → Bool
  | .rmc, _, _, .copied .date => true
  | .rmc, _, _, .copied .time => true
  | .rmc, fix, _, .copied .latitude => fix
  | .rmc, fix, _, .copied .longitude => fix
  | .rmc, fix, _, .copied .speed => fix
  | .rmc, fix, _, .copied .course => fix
  | .gga, _, _, .copied .time => true
  | .gga, _, _, .copied .fixQuality => true
  | .gga, _, _, .copied .satsUsed => true
  | .gga, _, _, .copied .hdop => true
  | .gga, fix, _, .copied .latitude => fix
  | .gga, fix, _, .copied .longitude => fix
  | .gga, fix, _, .copied .altitude => fix
  | .gsa, _, _, .copied .fixMode => true
  | .gsa, _, _, .copied .pdop => true
  | .gsa, _, _, .copied .hdop => true
  | .gsa, _, _, .copied .vdop => true
  | .gsv, _, talker, .inview constellation => talker = constellation.talker
  | .gst, _, _, .copied .gstSmaj => true
  | .gst, _, _, .copied .gstSmin => true
  | _, _, _, _ => false

theorem reading_commitUtc (s : Staging) (v : Committed) (d : Datum) :
    reading (commitUtc s v) d = reading v d := by
  unfold commitUtc
  split_ifs
  · rfl
  · cases d with
    | copied f => cases f <;> rfl
    | inview constellation => cases constellation <;> rfl
  · rfl

theorem reading_commitRmc (fix : Bool) (talker : List UInt8) (s : Staging) (v : Committed)
    (d : Datum) : reading (commitRmc fix s v) d =
      if publishes .rmc fix talker d then stagedReading s d.field else reading v d := by
  unfold commitRmc
  cases fix with
  | false =>
    cases d with
    | copied f => cases f <;> rfl
    | inview constellation => cases constellation <;> rfl
  | true =>
    dsimp only
    rw [if_pos rfl, reading_commitUtc]
    cases d with
    | copied f => cases f <;> rfl
    | inview constellation => cases constellation <;> rfl

theorem reading_commitGga (fix : Bool) (talker : List UInt8) (s : Staging) (v : Committed)
    (d : Datum) : reading (commitGga fix s v) d =
      if publishes .gga fix talker d then stagedReading s d.field else reading v d := by
  cases fix with
  | false =>
    cases d with
    | copied f => cases f <;> rfl
    | inview constellation => cases constellation <;> rfl
  | true =>
    cases d with
    | copied f => cases f <;> rfl
    | inview constellation => cases constellation <;> rfl

theorem reading_commitGsv (fix : Bool) (talker : List UInt8) (s : Staging) (v : Committed)
    (d : Datum) : reading (commitGsv talker s v) d =
      if publishes .gsv fix talker d then stagedReading s d.field else reading v d := by
  have hgl : letters "GL" ≠ letters "GP" := by decide
  have hga : letters "GA" ≠ letters "GP" ∧ letters "GA" ≠ letters "GL" := by decide
  have hgb : letters "GB" ≠ letters "GP" ∧ letters "GB" ≠ letters "GL" ∧
      letters "GB" ≠ letters "GA" := by decide
  unfold commitGsv
  cases d with
  | copied f =>
    have hno : publishes .gsv fix talker (.copied f) = false := rfl
    rw [hno, if_neg Bool.false_ne_true]
    split_ifs <;> cases f <;> rfl
  | inview constellation =>
    cases constellation <;> simp only [publishes, Constellation.talker] <;>
      split_ifs <;> simp_all [reading, stagedReading, Datum.field]

/-- A commit copies what the sentence makes public and leaves the rest. -/
theorem commitSentence_reading (p : Parser) (d : Datum) :
    reading (commitSentence p).committed d =
      if publishes p.sentenceType p.sentenceHasFix p.talker d then stagedReading p.staged d.field
      else reading p.committed d := by
  unfold commitSentence
  dsimp only
  cases p.sentenceType with
  | rmc => exact reading_commitRmc _ _ _ _ d
  | gga => exact reading_commitGga _ _ _ _ d
  | gsa =>
    cases d with
    | copied f => cases f <;> rfl
    | inview constellation => cases constellation <;> rfl
  | gsv => exact reading_commitGsv _ _ _ _ d
  | gst =>
    cases d with
    | copied f => cases f <;> rfl
    | inview constellation => cases constellation <;> rfl
  | other =>
    cases d with
    | copied f => cases f <;> rfl
    | inview constellation => cases constellation <;> rfl

theorem endOfTerm_committed (a : Abi) (p : Parser) : (endOfTerm a p).1.committed =
    if (endOfTerm a p).2 = true then (commitSentence p).committed else p.committed := by
  unfold endOfTerm
  by_cases hchecksum : p.isChecksumTerm = true
  · rw [if_pos hchecksum]
    split <;> rfl
  rw [if_neg hchecksum]
  by_cases hfirst : p.termNumber = 0
  · rw [if_pos hfirst]
    rfl
  rw [if_neg hfirst]
  split
  · obtain ⟨staged, fix, h⟩ := decodeTerm_frame a p
    rw [h]
    rfl
  · rfl

theorem encode_committed (a : Abi) (p : Parser) (c : UInt8) : (encode a p c).1.committed =
    if (encode a p c).2 = true then (commitSentence p).committed else p.committed := by
  have hends (q : Parser) (hq : (commitSentence q).committed = (commitSentence p).committed)
      (hold : q.committed = p.committed) : (endWith a c q).1.committed =
        if (endWith a c q).2 = true then (commitSentence p).committed else p.committed := by
    by_cases hoffset : q.termOffset < termSize
    · rw [endWith_eq hoffset]
      have hterm := endOfTerm_committed a (terminated q)
      rw [show (commitSentence (terminated q)).committed = (commitSentence p).committed from hq,
        show (terminated q).committed = p.committed from hold] at hterm
      exact hterm
    · rw [endWith, if_neg hoffset]
      exact hold
  unfold encode
  dsimp only
  by_cases hcomma : c = comma
  · rw [if_pos hcomma]
    exact hends _ rfl rfl
  rw [if_neg hcomma]
  by_cases hend : c = carriageReturn ∨ c = lineFeed ∨ c = asterisk
  · rw [if_pos hend]
    exact hends _ rfl rfl
  rw [if_neg hend]
  by_cases hdollar : c = dollar
  · rw [if_pos hdollar]
    rfl
  · rw [if_neg hdollar]
    rfl

structure Outline where
  number : ℕ
  kind : SentenceType
  fix : Bool
  talker : List UInt8
  carried : List Field
  deriving DecidableEq

def Term.string (t : Term) : List UInt8 := (t.text.take 15).takeWhile (· ≠ 0)

def fixAfter (a : Abi) (kind : SentenceType) (n : ℕ) (text : List UInt8) (fix : Bool) : Bool :=
  if kind = .rmc ∧ n = 2 then letterIs text 0x41
  else if kind = .gga ∧ n = 6 then aboveZero a text
  else fix

def Outline.read (a : Abi) (o : Outline) (t : Term) : Outline :=
  if t.checksum then { o with number := o.number+1 }
  else if o.number%256 = 0 then
    { o with
      number := o.number+1
      kind := sentenceTypeFrom (Term.string t)
      talker := if 5 ≤ (Term.string t).length then (Term.string t).take 2 else [] }
  else if Term.string t = [] then { o with number := o.number+1 }
  else
    { o with
      number := o.number+1
      fix := fixAfter a o.kind (o.number%256) (Term.string t) o.fix
      carried := (fieldOf o.kind (o.number%256)).toList ++ o.carried }

def outline (a : Abi) (terms : List Term) : Outline :=
  terms.foldl (Outline.read a) ⟨0, .other, false, [], []⟩

theorem outline_snoc (a : Abi) (terms : List Term) (t : Term) :
    outline a (terms ++ [t]) = (outline a terms).read a t := by
  rw [outline, List.foldl_append]
  rfl

theorem outline_number (a : Abi) (terms : List Term) : (outline a terms).number = terms.length := by
  induction terms using List.reverseRecOn with
  | nil => rfl
  | append_singleton terms t ih =>
    rw [outline_snoc, Outline.read, List.length_append, List.length_singleton]
    split_ifs <;> simp [ih]

end JaszczurHal.GpsOutline
