import Mathlib.Tactic

/-!
# Frames of the serial session

A line `$SC,<seq>,<payload>*<crc8>`, without its terminator. Lines are C
strings: lists of bytes without a zero.
-/

set_option autoImplicit false

namespace JaszczurHal.SerialFrame

def bytes (text : String) : List UInt8 := text.toList.map fun character =>
  UInt8.ofNat character.toNat

/-- A literal is the list of its characters, so that no text is decoded. -/
theorem bytes_ofList (text : List Char) : bytes (String.ofList text) =
    text.map fun character => UInt8.ofNat character.toNat := by
  rw [bytes, String.toList_ofList]

def carriageReturn : UInt8 := 0x0D
def lineFeed : UInt8 := 0x0A
def space : UInt8 := 0x20
def star : UInt8 := 0x2A
def comma : UInt8 := 0x2C

def framePrefix : List UInt8 := bytes "$SC,"

def payloadMax : ℕ := 256
def lineMax : ℕ := payloadMax+32

def crc8Bit (crc : UInt8) : UInt8 := if crc &&& 0x80 ≠ 0 then crc <<< 1 ^^^ 0x07 else crc <<< 1

def crc8 (data : List UInt8) : UInt8 :=
  data.foldl (fun crc byte => (List.range 8).foldl (fun c _ => crc8Bit c) (crc ^^^ byte)) 0

def isDigit (c : UInt8) : Bool := 0x30 ≤ c && c ≤ 0x39

def hexNibble (c : UInt8) : Option UInt8 :=
  if isDigit c then some (c-0x30)
  else if 0x41 ≤ c && c ≤ 0x46 then some (c-0x41+10)
  else if 0x61 ≤ c && c ≤ 0x66 then some (c-0x61+10)
  else none

def hexDigit (upper : Bool) (nibble : UInt8) : UInt8 :=
  if nibble < 10 then 0x30+nibble else (if upper then 0x41 else 0x61)+(nibble-10)

def hexByte (upper : Bool) (byte : UInt8) : List UInt8 :=
  [hexDigit upper (byte >>> 4), hexDigit upper (byte &&& 0x0F)]

def decimal (n : ℕ) : List UInt8 :=
  (Nat.toDigits 10 n).map fun character => UInt8.ofNat character.toNat

def special (c : UInt8) : Bool := c = star || c = carriageReturn || c = lineFeed

def encode (sequence : UInt16) (payload : List UInt8) (outSize : ℕ) : Option (List UInt8) :=
  if outSize < 12 || payload.any special then none
  else
    let written := framePrefix ++ decimal sequence.toNat ++ comma :: payload
    if written.length ≥ outSize then none
    else
      let extra := star :: hexByte true (crc8 (written.drop 1))
      if extra.length ≥ outSize-written.length then none else some (written ++ extra)

def parseSequence (digits : List UInt8) : Option ℕ :=
  digits.foldlM (fun (acc : ℕ) digit =>
    let acc := acc*10+(digit.toNat-0x30)
    if acc > 0xFFFF then none else some acc) 0

def splitStar (l : List UInt8) : Option (List UInt8 × List UInt8) :=
  match l.dropWhile (fun c => c ≠ star) with
  | [] => none
  | _ :: rest => some (l.takeWhile (fun c => c ≠ star), rest)

def parseCrc : List UInt8 → Option UInt8
  | [c, c'] =>
    match hexNibble c, hexNibble c' with
    | some high, some low => some (high <<< 4 ||| low)
    | _, _ => none
  | _ => none

def decode (line : List UInt8) (payloadOutSize : ℕ) : Option (UInt16 × List UInt8) :=
  if payloadOutSize = 0 || line.take framePrefix.length ≠ framePrefix then none
  else
    let digits := (line.drop framePrefix.length).takeWhile isDigit
    match (line.drop framePrefix.length).drop digits.length with
    | [] => none
    | separator :: payloadBegin =>
      if digits.length = 0 || separator ≠ comma then none
      else
        match parseSequence digits, splitStar payloadBegin with
        | some sequence, some (payload, tail) =>
          match parseCrc tail with
          | none => none
          | some expected =>
            let crcLength := framePrefix.length-1+digits.length+1+payload.length
            if crc8 ((line.drop 1).take crcLength) ≠ expected then none
            else if payload.length+1 > payloadOutSize then none
            else some (UInt16.ofNat sequence, payload)
        | _, _ => none

/-- The reference vector of the frame tests. -/
example : crc8 (bytes "123456789") = 0xF4 := by decide +kernel

example : decode (bytes "$SC,42,HELLO*00") 129 = none := by decide +kernel

end JaszczurHal.SerialFrame
