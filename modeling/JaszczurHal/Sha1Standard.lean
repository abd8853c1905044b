import JaszczurHal.BlockStream

/-!
# The SHA-1 digest

The digest of a byte string as FIPS 180-4 defines it: the padded message cut
into blocks of 512 bits, eighty words for each block, and one round for each
word.
-/

set_option autoImplicit false

namespace JaszczurHal.Sha1Standard
open BlockStream

structure Hash where
  a : UInt32
  b : UInt32
  c : UInt32
  d : UInt32
  e : UInt32
  deriving DecidableEq, Repr

def rotl (n x : UInt32) : UInt32 := x <<< n ||| x >>> (32-n)

def ch (x y z : UInt32) : UInt32 := (x &&& y) ^^^ (~~~x &&& z)

def parity (x y z : UInt32) : UInt32 := x ^^^ y ^^^ z

def maj (x y z : UInt32) : UInt32 := (x &&& y) ^^^ (x &&& z) ^^^ (y &&& z)

def function (t : ℕ) : UInt32 → UInt32 → UInt32 → UInt32 :=
  if t < 20 then ch else if t < 40 then parity else if t < 60 then maj else parity

def constant (t : ℕ) : UInt32 :=
  if t < 20 then 0x5a827999 else if t < 40 then 0x6ed9eba1
  else if t < 60 then 0x8f1bbcdc else 0xca62c1d6

def bigEndian (count value : ℕ) : List UInt8 :=
  (List.range count).map fun i => UInt8.ofNat (value/256^(count-1-i))

def blockWord (block : List UInt8) (t : ℕ) : UInt32 :=
  UInt32.ofNat ((block.getD (4*t) 0).toNat*2^24+(block.getD (4*t+1) 0).toNat*2^16+
    (block.getD (4*t+2) 0).toNat*2^8+(block.getD (4*t+3) 0).toNat)

def word (block : List UInt8) (t : ℕ) : UInt32 :=
  if t < 16 then blockWord block t
  else rotl 1 (word block (t-3) ^^^ word block (t-8) ^^^ word block (t-14) ^^^ word block (t-16))
  termination_by t

def round (block : List UInt8) (h : Hash) (t : ℕ) : Hash :=
  ⟨rotl 5 h.a+function t h.b h.c h.d+h.e+constant t+word block t, h.a, rotl 30 h.b, h.c, h.d⟩

def compress (h : Hash) (block : List UInt8) : Hash :=
  let r := (List.range 80).foldl (round block) h
  ⟨r.a+h.a, r.b+h.b, r.c+h.c, r.d+h.d, r.e+h.e⟩

def initial : Hash := ⟨0x67452301, 0xefcdab89, 0x98badcfe, 0x10325476, 0xc3d2e1f0⟩

def zeros (length : ℕ) : ℕ := (119-length%64)%64

def padded (message : List UInt8) : List UInt8 :=
  message ++ [0x80] ++ List.replicate (zeros message.length) 0 ++ bigEndian 8 (8*message.length)

def digest (message : List UInt8) : List UInt8 :=
  let h := (blocks compress 64 ((padded message).length/64) initial (padded message)).1
  [h.a, h.b, h.c, h.d, h.e].flatMap fun x => bigEndian 4 x.toNat

/-- The padding is the shortest that leaves room for the length at the end of
a block. -/
theorem zeros_least (length : ℕ) : (length+1+zeros length)%64 = 56 ∧
    ∀ k < zeros length, (length+1+k)%64 ≠ 56 := by
  unfold zeros
  constructor
  · omega
  · intro k hk
    omega

end JaszczurHal.Sha1Standard
