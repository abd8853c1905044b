import Mathlib.Tactic

/-!
# The check sums of the frame and record formats

Bitwise, as `hal_crc.cpp` computes them. No proof below depends on what a
check sum detects; they are followed only as functions of their bytes.
-/

set_option autoImplicit false

namespace JaszczurHal.HalCrc

def crc16Bit (crc : UInt16) : UInt16 :=
  if crc &&& 0x8000 ≠ 0 then crc <<< 1 ^^^ 0x1021 else crc <<< 1

def crc16Byte (crc : UInt16) (byte : UInt8) : UInt16 :=
  (List.range 8).foldl (fun c _ => crc16Bit c) (crc ^^^ byte.toUInt16 <<< 8)

def crc16Ccitt (data : List UInt8) (crc : UInt16) : UInt16 :=
  data.foldl crc16Byte crc

def crc32Bit (crc : UInt32) : UInt32 :=
  if crc &&& 1 ≠ 0 then crc >>> 1 ^^^ 0xEDB88320 else crc >>> 1

def crc32Byte (crc : UInt32) (byte : UInt8) : UInt32 :=
  (List.range 8).foldl (fun c _ => crc32Bit c) (crc ^^^ byte.toUInt32)

def crc32 (data : List UInt8) : UInt32 :=
  if data.isEmpty then 0 else data.foldl crc32Byte 0xFFFFFFFF ^^^ 0xFFFFFFFF

/-- The check value of the CRC catalogue, over the digits one to nine. -/
example : crc32 [49, 50, 51, 52, 53, 54, 55, 56, 57] = 0xCBF43926 := by decide +kernel

example : crc16Ccitt [49, 50, 51, 52, 53, 54, 55, 56, 57] 0xFFFF = 0x29B1 := by decide +kernel

end JaszczurHal.HalCrc
