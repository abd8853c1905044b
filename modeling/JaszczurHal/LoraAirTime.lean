import JaszczurHal.CheckedArith
import JaszczurHal.HalStatus

/-!
# Time on air of a LoRa packet

The airtime formula in integers: quarter symbols, bandwidths in hertz and one
rounded division at the end. It is the exact time in milliseconds, rounded up.
-/

set_option autoImplicit false

namespace JaszczurHal.LoraAirTime
open HalStatus CheckedArith

structure ModemConfig where
  frequencyHz : UInt32
  bandwidthHz : UInt32
  spreadingFactor : UInt8
  codingRate : UInt8
  txPowerDbm : Int8
  preambleSymbols : UInt16
  explicitHeader : Bool
  implicitPayloadLength : UInt8
  crcEnabled : Bool
  deriving DecidableEq, Repr

structure ModemLimits where
  minFrequencyHz : UInt32
  maxFrequencyHz : UInt32
  minTxPowerDbm : Int8
  maxTxPowerDbm : Int8
  minSpreadingFactor : UInt8

def normalizeBandwidth (bandwidthHz : UInt32) : Option UInt32 :=
  if bandwidthHz = 7800 ∨ bandwidthHz = 7812 then some 7812
  else if bandwidthHz = 10400 ∨ bandwidthHz = 10417 then some 10417
  else if bandwidthHz = 15600 ∨ bandwidthHz = 15625 then some 15625
  else if bandwidthHz = 20800 ∨ bandwidthHz = 20833 then some 20833
  else if bandwidthHz = 31250 then some 31250
  else if bandwidthHz = 41667 ∨ bandwidthHz = 41700 then some 41667
  else if bandwidthHz = 62500 then some 62500
  else if bandwidthHz = 125000 then some 125000
  else if bandwidthHz = 250000 then some 250000
  else if bandwidthHz = 500000 then some 500000
  else none

def configValid (c : ModemConfig) (l : ModemLimits) : Bool :=
  decide (l.minFrequencyHz ≤ c.frequencyHz) && decide (c.frequencyHz ≤ l.maxFrequencyHz) &&
  (normalizeBandwidth c.bandwidthHz).isSome &&
  decide (l.minSpreadingFactor ≤ c.spreadingFactor) && decide (c.spreadingFactor ≤ 12) &&
  decide (5 ≤ c.codingRate) && decide (c.codingRate ≤ 8) &&
  decide (l.minTxPowerDbm ≤ c.txPowerDbm) && decide (c.txPowerDbm ≤ l.maxTxPowerDbm) &&
  decide (0 < c.preambleSymbols) &&
  (c.explicitHeader || decide (0 < c.implicitPayloadLength))

def payloadNumerator (c : ModemConfig) (payloadLength : ℕ) : Checked ℤ := do
  let bits ← signed 32 (8*payloadLength)
  let factor ← signed 32 (4*c.spreadingFactor.toNat)
  let rest ← signed 32 (bits-factor)
  let coded ← signed 32 (rest+if c.crcEnabled then 16 else 0)
  if c.spreadingFactor ≤ 6 then signed 32 (coded+if c.explicitHeader then 20 else 0)
  else signed 32 (coded+if c.explicitHeader then 28 else 8)

def payloadDenominator (c : ModemConfig) (lowDataRateOptimize : Bool) : Checked ℤ := do
  let factor ← signed 32
    (c.spreadingFactor.toNat-if 6 < c.spreadingFactor ∧ lowDataRateOptimize then 2 else 0)
  signed 32 (4*factor)

def codedPayloadSymbols (c : ModemConfig) (numerator denominator : ℤ) : Checked ℕ :=
  if 0 < numerator then do
    let sum ← signed 32 (numerator+denominator)
    let sum ← signed 32 (sum-1)
    let quotient ← divide 32 sum denominator
    narrow 32 (quotient.toNat*c.codingRate.toNat)
  else pure 0

def quarterSymbols (c : ModemConfig) (codedSymbols : ℕ) : Checked ℕ := do
  let preamble ← narrow 64 (c.preambleSymbols.toNat*4)
  let fixed ← narrow 64 (preamble+if c.spreadingFactor ≤ 6 then 57 else 49)
  let coded ← narrow 64 (codedSymbols*4)
  narrow 64 (fixed+coded)

def quotientMs (quarters symbolNumerator : ℕ) (bandwidthHz : UInt32) : Checked ℕ := do
  let product ← narrow 64 (quarters*symbolNumerator)
  let numerator ← narrow 64 (product*1000)
  let denominator ← narrow 64 (bandwidthHz.toNat*4)
  let sum ← narrow 64 (numerator+denominator)
  if denominator = 0 then .error .divisionByZero else pure ((sum-1)/denominator)

def timeOnAir (c : ModemConfig) (payloadLength : ℕ) : Checked (Status × UInt32) :=
  match normalizeBandwidth c.bandwidthHz with
  | none => pure (.einval, 0)
  | some bandwidthHz =>
    if 255 < payloadLength ∨ c.spreadingFactor < 5 ∨ 12 < c.spreadingFactor ∨ c.codingRate < 5 ∨
        8 < c.codingRate ∨ c.preambleSymbols = 0 ∨ (c.explicitHeader = false ∧
          (c.implicitPayloadLength = 0 ∨ payloadLength ≠ c.implicitPayloadLength.toNat)) then
      pure (.einval, 0)
    else do
      let symbol ← shiftLeft64 1 c.spreadingFactor.toNat
      let micros ← narrow 64 (symbol.toNat*1000000)
      let limit ← narrow 64 (bandwidthHz.toNat*16000)
      let numerator ← payloadNumerator c payloadLength
      let denominator ← payloadDenominator c (decide (limit ≤ micros))
      let coded ← codedPayloadSymbols c numerator denominator
      let quarters ← quarterSymbols c coded
      let timeMs ← quotientMs quarters symbol.toNat bandwidthHz
      if timeMs = 0 then pure (.einval, 0)
      else if 2^32 ≤ timeMs then pure (.eoverflow, 0)
      else pure (.ok, UInt32.ofNat timeMs)

def symbolTime (bandwidthHz : ℕ) (spreadingFactor : ℕ) : ℚ :=
  2^spreadingFactor*1000/bandwidthHz

def lowDataRate (bandwidthHz spreadingFactor : ℕ) : ℚ :=
  if 16 ≤ symbolTime bandwidthHz spreadingFactor then 1 else 0

/-- The symbols of the payload before coding, rounded up and never negative. -/
def payloadBlocks (c : ModemConfig) (bandwidthHz payloadLength : ℕ) : ℤ :=
  max 0 ⌈(8*payloadLength+16*(if c.crcEnabled then 1 else 0)-4*c.spreadingFactor.toNat+
    (if 6 < c.spreadingFactor.toNat then 8 else 0)+20*(if c.explicitHeader then 1 else 0) : ℚ)/
    (4*(c.spreadingFactor.toNat-2*lowDataRate bandwidthHz c.spreadingFactor.toNat))⌉

def airTime (c : ModemConfig) (bandwidthHz payloadLength : ℕ) : ℚ :=
  (c.preambleSymbols.toNat+(if c.spreadingFactor.toNat ≤ 6 then 6.25 else 4.25)+8+
    c.codingRate.toNat*payloadBlocks c bandwidthHz payloadLength)*
    symbolTime bandwidthHz c.spreadingFactor.toNat

variable {c : ModemConfig} {payloadLength : ℕ} {bandwidthHz : UInt32}

def numeratorOf (c : ModemConfig) (payloadLength : ℕ) : ℤ :=
  8*payloadLength-4*c.spreadingFactor.toNat+(if c.crcEnabled then 16 else 0)+
    (if c.spreadingFactor ≤ 6 then if c.explicitHeader then 20 else 0
      else if c.explicitHeader then 28 else 8)

def denominatorOf (c : ModemConfig) (lowDataRateOptimize : Bool) : ℤ :=
  4*(c.spreadingFactor.toNat-if 6 < c.spreadingFactor ∧ lowDataRateOptimize then 2 else 0)

def codedOf (c : ModemConfig) (numerator denominator : ℤ) : ℕ :=
  if 0 < numerator then ((numerator+denominator-1)/denominator).toNat*c.codingRate.toNat else 0

def quartersOf (c : ModemConfig) (coded : ℕ) : ℕ :=
  c.preambleSymbols.toNat*4+(if c.spreadingFactor ≤ 6 then 57 else 49)+coded*4

structure InRange (c : ModemConfig) (bandwidthHz : UInt32) : Prop where
  bandwidth : normalizeBandwidth c.bandwidthHz = some bandwidthHz
  factorLow : 5 ≤ c.spreadingFactor.toNat
  factorHigh : c.spreadingFactor.toNat ≤ 12
  rateLow : 5 ≤ c.codingRate.toNat
  rateHigh : c.codingRate.toNat ≤ 8
  preamble : 0 < c.preambleSymbols.toNat

theorem ite_some {p : Prop} [Decidable p] {a b : UInt32} {rest : Option UInt32}
    (h : (if p then some a else rest) = some b) : a = b ∨ rest = some b := by
  by_cases hp : p
  · rw [if_pos hp] at h
    exact Or.inl (Option.some.inj h)
  · rw [if_neg hp] at h
    exact Or.inr h

theorem normalizeBandwidth_range {hz : UInt32} (h : normalizeBandwidth hz = some bandwidthHz) :
    7812 ≤ bandwidthHz.toNat ∧ bandwidthHz.toNat ≤ 500000 := by
  unfold normalizeBandwidth at h
  iterate 10
    rcases ite_some h with rfl | h
    · decide
  cases h

/-- A configuration that is valid for some radio, with a factor of 5 or more. -/
theorem inRange_of_valid {l : ModemLimits} (h : configValid c l = true)
    (hfactor : 5 ≤ c.spreadingFactor) :
    (∃ bandwidthHz, InRange c bandwidthHz) ∧
      (c.explicitHeader = false → c.implicitPayloadLength ≠ 0) := by
  simp only [configValid, Bool.and_eq_true, Bool.or_eq_true, decide_eq_true_iff] at h
  obtain ⟨⟨⟨⟨⟨⟨⟨⟨⟨⟨_, _⟩, hbandwidth⟩, _⟩, hhigh⟩, hlow⟩, hrate⟩, _⟩, _⟩, hpreamble⟩, hheader⟩ := h
  obtain ⟨bandwidthHz, hsome⟩ := Option.isSome_iff_exists.mp hbandwidth
  constructor
  · exact ⟨bandwidthHz, hsome, UInt8.le_iff_toNat_le.mp hfactor, UInt8.le_iff_toNat_le.mp hhigh,
      UInt8.le_iff_toNat_le.mp hlow, UInt8.le_iff_toNat_le.mp hrate,
      UInt16.lt_iff_toNat_lt.mp hpreamble⟩
  · intro hexplicit
    rcases hheader with hheader | hlength
    · rw [hexplicit] at hheader
      cases hheader
    · exact (UInt8.pos_iff_ne_zero).mp hlength

theorem numerator_ok (h : InRange c bandwidthHz) {payloadLength : ℕ}
    (hpayload : payloadLength ≤ 255) :
    payloadNumerator c payloadLength = .ok (numeratorOf c payloadLength) ∧
      numeratorOf c payloadLength ≤ 2100 := by
  have hfactor := h.factorHigh
  unfold payloadNumerator numeratorOf
  rw [signed_of (by omega), ok_bind, signed_of (by omega), ok_bind, signed_of (by omega), ok_bind]
  have hcrc : (0 : ℤ) ≤ (if c.crcEnabled then 16 else 0) ∧
      (if c.crcEnabled then 16 else 0 : ℤ) ≤ 16 := by
    split <;> omega
  rw [signed_of (by omega), ok_bind]
  by_cases hsmall : c.spreadingFactor ≤ 6
  · have hheader : (0 : ℤ) ≤ (if c.explicitHeader then 20 else 0) ∧
        (if c.explicitHeader then 20 else 0 : ℤ) ≤ 20 := by
      split <;> omega
    rw [if_pos hsmall, if_pos hsmall, signed_of (by omega)]
    exact ⟨rfl, by omega⟩
  · have hheader : (8 : ℤ) ≤ (if c.explicitHeader then 28 else 8) ∧
        (if c.explicitHeader then 28 else 8 : ℤ) ≤ 28 := by
      split <;> omega
    rw [if_neg hsmall, if_neg hsmall, signed_of (by omega)]
    exact ⟨rfl, by omega⟩

theorem denominator_ok (h : InRange c bandwidthHz) (low : Bool) :
    payloadDenominator c low = .ok (denominatorOf c low) ∧ 20 ≤ denominatorOf c low ∧
      denominatorOf c low ≤ 48 := by
  have hlow := h.factorLow
  have hhigh := h.factorHigh
  have hsix : 6 < c.spreadingFactor ↔ 6 < c.spreadingFactor.toNat := UInt8.lt_iff_toNat_lt
  unfold payloadDenominator denominatorOf
  by_cases hopt : 6 < c.spreadingFactor ∧ low
  · have hlarge := hsix.mp hopt.1
    simp only [if_pos hopt]
    rw [signed_of (by omega), ok_bind, signed_of (by omega)]
    exact ⟨rfl, by omega, by omega⟩
  · simp only [if_neg hopt]
    rw [signed_of (by omega), ok_bind, signed_of (by omega)]
    exact ⟨rfl, by omega, by omega⟩

theorem coded_ok (h : InRange c bandwidthHz) {numerator denominator : ℤ}
    (hnumerator : numerator ≤ 2100) (hlow : 20 ≤ denominator) (hhigh : denominator ≤ 48) :
    codedPayloadSymbols c numerator denominator = .ok (codedOf c numerator denominator) ∧
      codedOf c numerator denominator ≤ 18000 := by
  unfold codedPayloadSymbols codedOf
  by_cases hpositive : 0 < numerator
  · have hsum : 0 ≤ numerator+denominator-1 := by omega
    have hquotient := Int.ediv_le_self denominator hsum
    have hsign := Int.ediv_nonneg hsum (show 0 ≤ denominator by omega)
    have hbound : ((numerator+denominator-1)/denominator).toNat*c.codingRate.toNat ≤ 2200*8 :=
      Nat.mul_le_mul (by omega) h.rateHigh
    have hdivide : divide 32 (numerator+denominator-1) denominator =
        .ok ((numerator+denominator-1)/denominator) := by
      rw [divide, if_neg (by omega), Int.tdiv_eq_ediv_of_nonneg hsum, signed_of (by omega)]
    rw [if_pos hpositive, if_pos hpositive, signed_of (by omega), ok_bind,
      signed_of (by omega), ok_bind, hdivide, ok_bind, narrow, if_pos (by omega)]
    exact ⟨rfl, by omega⟩
  · rw [if_neg hpositive, if_neg hpositive]
    exact ⟨rfl, by omega⟩

theorem quarters_ok {coded : ℕ} (hcoded : coded ≤ 18000) :
    quarterSymbols c coded = .ok (quartersOf c coded) ∧ quartersOf c coded ≤ 340000 := by
  have hpreamble := c.preambleSymbols.toNat_lt
  unfold quarterSymbols quartersOf
  by_cases hsmall : c.spreadingFactor ≤ 6
  · simp only [if_pos hsmall, narrow]
    rw [if_pos (by omega), ok_bind, if_pos (by omega), ok_bind, if_pos (by omega), ok_bind,
      if_pos (by omega)]
    exact ⟨rfl, by omega⟩
  · simp only [if_neg hsmall, narrow]
    rw [if_pos (by omega), ok_bind, if_pos (by omega), ok_bind, if_pos (by omega), ok_bind,
      if_pos (by omega)]
    exact ⟨rfl, by omega⟩

def timeOf (quarters symbol : ℕ) (bandwidthHz : UInt32) : ℕ :=
  (quarters*symbol*1000+bandwidthHz.toNat*4-1)/(bandwidthHz.toNat*4)

theorem quotient_ok {quarters symbol : ℕ} (hquarters : quarters ≤ 340000)
    (hsymbol : symbol ≤ 4096) (hlow : 7812 ≤ bandwidthHz.toNat)
    (hhigh : bandwidthHz.toNat ≤ 500000) :
    quotientMs quarters symbol bandwidthHz = .ok (timeOf quarters symbol bandwidthHz) ∧
      timeOf quarters symbol bandwidthHz < 2^32 := by
  have hproduct : quarters*symbol ≤ 340000*4096 := Nat.mul_le_mul hquarters hsymbol
  constructor
  · unfold quotientMs timeOf
    simp only [narrow]
    rw [if_pos (by omega), ok_bind, if_pos (by omega), ok_bind, if_pos (by omega), ok_bind,
      if_pos (by omega), ok_bind, if_neg (by omega)]
    rfl
  · exact Nat.div_lt_of_lt_mul (by omega)

theorem time_positive (quarters symbol : ℕ) (hquarters : 0 < quarters) (hsymbol : 0 < symbol)
    (hbandwidth : 0 < bandwidthHz.toNat) : 0 < timeOf quarters symbol bandwidthHz := by
  have hproduct : 0 < quarters*symbol := Nat.mul_pos hquarters hsymbol
  exact Nat.div_pos (by omega) (by omega)

def computedTime (c : ModemConfig) (bandwidthHz : UInt32) (payloadLength : ℕ) : ℕ :=
  let low := decide (bandwidthHz.toNat*16000 ≤ 2^c.spreadingFactor.toNat*1000000)
  timeOf (quartersOf c (codedOf c (numeratorOf c payloadLength) (denominatorOf c low)))
    (2^c.spreadingFactor.toNat) bandwidthHz

theorem symbol_toNat {n : ℕ} (h : n ≤ 12) :
    ((1 : UInt64) <<< UInt64.ofNat n).toNat = 2^n := by
  interval_cases n <;> rfl

/-- No operation leaves its type, and the time is positive and below `2^32`. -/
theorem timeOnAir_computes (h : InRange c bandwidthHz) (hpayload : payloadLength ≤ 255)
    (himplicit : c.explicitHeader = false → c.implicitPayloadLength ≠ 0 ∧
      payloadLength = c.implicitPayloadLength.toNat) :
    timeOnAir c payloadLength = .ok (.ok, UInt32.ofNat (computedTime c bandwidthHz payloadLength)) ∧
      computedTime c bandwidthHz payloadLength < 2^32 := by
  obtain ⟨hnarrow, hwide⟩ := normalizeBandwidth_range h.bandwidth
  have hlow := h.factorLow
  have hhigh := h.factorHigh
  have hpow : 2^c.spreadingFactor.toNat ≤ 4096 :=
    Nat.pow_le_pow_right (n := 2) (by omega) hhigh
  have hpositive : 0 < 2^c.spreadingFactor.toNat := Nat.two_pow_pos _
  have hguard : ¬ (255 < payloadLength ∨ c.spreadingFactor < 5 ∨ 12 < c.spreadingFactor ∨
      c.codingRate < 5 ∨ 8 < c.codingRate ∨ c.preambleSymbols = 0 ∨
      (c.explicitHeader = false ∧ (c.implicitPayloadLength = 0 ∨
        payloadLength ≠ c.implicitPayloadLength.toNat))) := by
    have hpreamble : ¬ c.preambleSymbols = 0 := by
      intro hzero
      have hpositive := h.preamble
      rw [hzero] at hpositive
      exact absurd hpositive (by decide)
    rw [UInt8.lt_iff_toNat_lt, UInt8.lt_iff_toNat_lt, UInt8.lt_iff_toNat_lt,
      UInt8.lt_iff_toNat_lt]
    rintro (hbad | hbad | hbad | hbad | hbad | hbad | ⟨hheader, hzero | hlength⟩)
    · omega
    · exact absurd hlow (not_le.mpr hbad)
    · exact absurd hhigh (not_le.mpr hbad)
    · exact absurd h.rateLow (not_le.mpr hbad)
    · exact absurd h.rateHigh (not_le.mpr hbad)
    · exact hpreamble hbad
    · exact (himplicit hheader).1 hzero
    · exact hlength (himplicit hheader).2
  obtain ⟨hnumerator, hnumeratorMax⟩ := numerator_ok h hpayload
  obtain ⟨hdenominator, hdenominatorLow, hdenominatorHigh⟩ := denominator_ok h
    (decide (bandwidthHz.toNat*16000 ≤ 2^c.spreadingFactor.toNat*1000000))
  obtain ⟨hcoded, hcodedMax⟩ := coded_ok h hnumeratorMax hdenominatorLow hdenominatorHigh
  obtain ⟨hquarters, hquartersMax⟩ := quarters_ok (c := c) hcodedMax
  obtain ⟨htime, htimeMax⟩ := quotient_ok hquartersMax hpow hnarrow hwide
  have htimePositive := time_positive _ (2^c.spreadingFactor.toNat)
    (show 0 < quartersOf c (codedOf c (numeratorOf c payloadLength) (denominatorOf c
      (decide (bandwidthHz.toNat*16000 ≤ 2^c.spreadingFactor.toNat*1000000)))) by
      have := h.preamble
      unfold quartersOf
      omega) hpositive (by omega : 0 < bandwidthHz.toNat)
  refine ⟨?_, htimeMax⟩
  rw [timeOnAir, h.bandwidth]
  dsimp only
  rw [if_neg hguard, shiftLeft64, if_pos (by omega), ok_bind, symbol_toNat hhigh, narrow,
    if_pos (by omega), ok_bind, narrow, if_pos (by omega), ok_bind, hnumerator, ok_bind,
    hdenominator, ok_bind, hcoded, ok_bind, hquarters, ok_bind, htime, ok_bind,
    if_neg (by omega), if_neg (by omega)]
  rfl

/-- A quotient of integers rounded up, as it is computed. -/
theorem ceil_quotient (a : ℤ) {b : ℤ} (hb : 0 < b) : ⌈(a/b : ℚ)⌉ = (a+b-1)/b := by
  have hpositive : (0 : ℚ) < b := by exact_mod_cast hb
  apply le_antisymm
  · rw [Int.ceil_le, div_le_iff₀ hpositive]
    have hmod := Int.emod_add_mul_ediv (a+b-1) b
    have hrest := Int.emod_lt_of_pos (a+b-1) hb
    have hle : a ≤ (a+b-1)/b*b := by
      rw [Int.mul_comm]
      omega
    exact_mod_cast hle
  · rw [Int.le_ceil_iff, lt_div_iff₀ hpositive]
    have hle := Int.ediv_mul_le (a+b-1) (show b ≠ 0 by omega)
    have hlt : ((a+b-1)/b-1)*b < a := by
      rw [Int.sub_mul, Int.one_mul]
      omega
    exact_mod_cast hlt

theorem lowDataRate_iff (spreadingFactor : ℕ) (hbandwidth : 0 < bandwidthHz.toNat) :
    16 ≤ symbolTime bandwidthHz.toNat spreadingFactor ↔
      bandwidthHz.toNat*16000 ≤ 2^spreadingFactor*1000000 := by
  have hpositive : (0 : ℚ) < bandwidthHz.toNat := by exact_mod_cast hbandwidth
  rw [symbolTime, le_div_iff₀ hpositive]
  constructor
  · intro h
    have hcast : 16*bandwidthHz.toNat ≤ 2^spreadingFactor*1000 := by exact_mod_cast h
    omega
  · intro h
    have hcast : 16*bandwidthHz.toNat ≤ 2^spreadingFactor*1000 := by omega
    exact_mod_cast hcast

/-- Symbols of a factor of 6 or less are shorter than 16 ms. -/
theorem lowDataRate_small {spreadingFactor : ℕ} (hnarrow : 7812 ≤ bandwidthHz.toNat)
    (hsmall : spreadingFactor ≤ 6) :
    ¬ bandwidthHz.toNat*16000 ≤ 2^spreadingFactor*1000000 := by
  have hpow : 2^spreadingFactor ≤ 2^6 := Nat.pow_le_pow_right (by omega) hsmall
  omega

theorem denominator_exact (h : InRange c bandwidthHz) :
    ((denominatorOf c (decide (bandwidthHz.toNat*16000 ≤ 2^c.spreadingFactor.toNat*1000000)) :
      ℤ) : ℚ) = 4*(c.spreadingFactor.toNat-2*lowDataRate bandwidthHz.toNat
        c.spreadingFactor.toNat) := by
  obtain ⟨hnarrow, _⟩ := normalizeBandwidth_range h.bandwidth
  have hiff := lowDataRate_iff c.spreadingFactor.toNat
    (by omega : 0 < bandwidthHz.toNat)
  unfold denominatorOf lowDataRate
  by_cases hlow : bandwidthHz.toNat*16000 ≤ 2^c.spreadingFactor.toNat*1000000
  · have hlarge : 6 < c.spreadingFactor := by
      rw [UInt8.lt_iff_toNat_lt]
      by_contra hsmall
      exact lowDataRate_small hnarrow (not_lt.mp hsmall) hlow
    rw [if_pos ⟨hlarge, decide_eq_true hlow⟩, if_pos (hiff.mpr hlow)]
    push_cast
    ring
  · have hoff : ¬ (6 < c.spreadingFactor ∧ decide (bandwidthHz.toNat*16000 ≤
        2^c.spreadingFactor.toNat*1000000) = true) := fun h => hlow (of_decide_eq_true h.2)
    rw [if_neg hoff, if_neg fun h => hlow (hiff.mp h)]
    push_cast
    ring

theorem numerator_exact :
    ((numeratorOf c payloadLength : ℤ) : ℚ) = 8*payloadLength+
      16*(if c.crcEnabled then 1 else 0)-4*c.spreadingFactor.toNat+
      (if 6 < c.spreadingFactor.toNat then 8 else 0)+20*(if c.explicitHeader then 1 else 0) := by
  have hsix : c.spreadingFactor ≤ 6 ↔ c.spreadingFactor.toNat ≤ 6 := UInt8.le_iff_toNat_le
  have hcrc : (if c.crcEnabled then 16 else 0 : ℚ) = 16*(if c.crcEnabled then 1 else 0) := by
    split <;> norm_num
  unfold numeratorOf
  by_cases hsmall : c.spreadingFactor ≤ 6
  · have hheader : (if c.explicitHeader then 20 else 0 : ℚ) =
        20*(if c.explicitHeader then 1 else 0) := by
      split <;> norm_num
    rw [if_pos hsmall, if_neg (not_lt.mpr (hsix.mp hsmall))]
    push_cast
    rw [hcrc, hheader]
    ring
  · have hheader : (if c.explicitHeader then 28 else 8 : ℚ) =
        8+20*(if c.explicitHeader then 1 else 0) := by
      split <;> norm_num
    have hlarge : 6 < c.spreadingFactor.toNat := not_le.mp fun h => hsmall (hsix.mpr h)
    rw [if_neg hsmall, if_pos hlarge]
    push_cast
    rw [hcrc, hheader]
    ring

theorem coded_exact (numerator : ℤ) {denominator : ℤ} (hdenominator : 0 < denominator) :
    (codedOf c numerator denominator : ℤ) =
      c.codingRate.toNat*max 0 ⌈(numerator/denominator : ℚ)⌉ := by
  rw [ceil_quotient numerator hdenominator, codedOf]
  by_cases hpositive : 0 < numerator
  · have hquotient : 0 ≤ (numerator+denominator-1)/denominator :=
      Int.ediv_nonneg (by omega) hdenominator.le
    rw [if_pos hpositive, max_eq_right hquotient, Nat.cast_mul, Int.toNat_of_nonneg hquotient]
    ring
  · have hquotient : (numerator+denominator-1)/denominator ≤ 0 := by
      have hlt : (numerator+denominator-1)/denominator < 1 :=
        Int.ediv_lt_of_lt_mul hdenominator (by omega)
      omega
    rw [if_neg hpositive, max_eq_left hquotient]
    rfl

theorem quarters_exact (coded : ℕ) : (quartersOf c coded : ℚ) =
    4*(c.preambleSymbols.toNat+(if c.spreadingFactor.toNat ≤ 6 then 6.25 else 4.25)+8+coded) := by
  have hsix : c.spreadingFactor ≤ 6 ↔ c.spreadingFactor.toNat ≤ 6 := UInt8.le_iff_toNat_le
  unfold quartersOf
  by_cases hsmall : c.spreadingFactor ≤ 6
  · rw [if_pos hsmall, if_pos (hsix.mp hsmall)]
    push_cast
    ring
  · rw [if_neg hsmall, if_neg fun h => hsmall (hsix.mpr h)]
    push_cast
    ring

theorem timeOf_exact {quarters symbol : ℕ} (hbandwidth : 0 < bandwidthHz.toNat) :
    (timeOf quarters symbol bandwidthHz : ℤ) =
      ⌈(quarters*symbol*1000/(bandwidthHz.toNat*4) : ℚ)⌉ := by
  have hceil := ceil_quotient (quarters*symbol*1000) (b := bandwidthHz.toNat*4) (by omega)
  push_cast at hceil
  rw [hceil, timeOf, Int.natCast_ediv, Nat.cast_sub (by omega)]
  push_cast
  rfl

/-- The computed time is the exact one rounded up to a millisecond. -/
theorem computedTime_exact (h : InRange c bandwidthHz) (payloadLength : ℕ) :
    (computedTime c bandwidthHz payloadLength : ℤ) =
      ⌈airTime c bandwidthHz.toNat payloadLength⌉ := by
  obtain ⟨hnarrow, _⟩ := normalizeBandwidth_range h.bandwidth
  have hbandwidth : (bandwidthHz.toNat : ℚ) ≠ 0 := by
    have hpositive : 0 < bandwidthHz.toNat := by omega
    exact_mod_cast hpositive.ne'
  obtain ⟨_, hdenominator, _⟩ := denominator_ok h
    (decide (bandwidthHz.toNat*16000 ≤ 2^c.spreadingFactor.toNat*1000000))
  have hcoded := coded_exact (c := c) (numeratorOf c payloadLength)
    (show 0 < denominatorOf c (decide (bandwidthHz.toNat*16000 ≤
      2^c.spreadingFactor.toNat*1000000)) by omega)
  rw [numerator_exact, denominator_exact h] at hcoded
  have hblocks : ((codedOf c (numeratorOf c payloadLength) (denominatorOf c
      (decide (bandwidthHz.toNat*16000 ≤ 2^c.spreadingFactor.toNat*1000000))) : ℕ) : ℚ) =
      c.codingRate.toNat*payloadBlocks c bandwidthHz.toNat payloadLength := by
    have hinteger : ((codedOf c (numeratorOf c payloadLength) (denominatorOf c
        (decide (bandwidthHz.toNat*16000 ≤ 2^c.spreadingFactor.toNat*1000000))) : ℕ) : ℤ) =
        c.codingRate.toNat*payloadBlocks c bandwidthHz.toNat payloadLength := hcoded
    rw [← Int.cast_natCast, hinteger]
    push_cast
    rfl
  rw [computedTime, timeOf_exact (by omega), quarters_exact, hblocks, airTime, symbolTime]
  congr 1
  push_cast
  field_simp

structure Longer (c : ModemConfig) (payloadLength : ℕ) (d : ModemConfig)
    (longerLength : ℕ) : Prop where
  bandwidthHz : d.bandwidthHz = c.bandwidthHz
  spreadingFactor : d.spreadingFactor = c.spreadingFactor
  codingRate : d.codingRate = c.codingRate
  explicitHeader : d.explicitHeader = c.explicitHeader
  crcEnabled : d.crcEnabled = c.crcEnabled
  preamble : c.preambleSymbols ≤ d.preambleSymbols
  payload : payloadLength ≤ longerLength

variable {d : ModemConfig} {longerLength : ℕ}

theorem payloadBlocks_longer (h : Longer c payloadLength d longerLength)
    (hrange : InRange c bandwidthHz) : payloadBlocks c bandwidthHz.toNat payloadLength ≤
      payloadBlocks d bandwidthHz.toNat longerLength := by
  obtain ⟨_, hdenominator, _⟩ := denominator_ok hrange
    (decide (bandwidthHz.toNat*16000 ≤ 2^c.spreadingFactor.toNat*1000000))
  have hpositive : (0 : ℚ) ≤ 4*(c.spreadingFactor.toNat-2*lowDataRate bandwidthHz.toNat
      c.spreadingFactor.toNat) := by
    rw [← denominator_exact hrange]
    exact_mod_cast (by omega : 0 ≤ denominatorOf c (decide (bandwidthHz.toNat*16000 ≤
      2^c.spreadingFactor.toNat*1000000)))
  have hpayload : (payloadLength : ℚ) ≤ longerLength := by exact_mod_cast h.payload
  unfold payloadBlocks
  rw [h.spreadingFactor, h.explicitHeader, h.crcEnabled]
  gcongr

theorem airTime_longer (h : Longer c payloadLength d longerLength)
    (hrange : InRange c bandwidthHz) : airTime c bandwidthHz.toNat payloadLength ≤
      airTime d bandwidthHz.toNat longerLength := by
  have hblocks : (payloadBlocks c bandwidthHz.toNat payloadLength : ℚ) ≤
      payloadBlocks d bandwidthHz.toNat longerLength := by
    exact_mod_cast payloadBlocks_longer h hrange
  have hpreamble : (c.preambleSymbols.toNat : ℚ) ≤ d.preambleSymbols.toNat := by
    exact_mod_cast UInt16.le_iff_toNat_le.mp h.preamble
  have hsymbol : 0 ≤ symbolTime bandwidthHz.toNat c.spreadingFactor.toNat := by
    unfold symbolTime
    positivity
  unfold airTime
  rw [h.spreadingFactor, h.codingRate]
  gcongr

theorem timeOnAir_accepts {timeMs : UInt32} (h : timeOnAir c payloadLength = .ok (.ok, timeMs)) :
    ∃ bandwidthHz, InRange c bandwidthHz ∧ payloadLength ≤ 255 ∧
      (c.explicitHeader = false → c.implicitPayloadLength ≠ 0 ∧
        payloadLength = c.implicitPayloadLength.toNat) := by
  unfold timeOnAir at h
  cases hbandwidth : normalizeBandwidth c.bandwidthHz with
  | none =>
    rw [hbandwidth] at h
    cases h
  | some bandwidthHz =>
    rw [hbandwidth] at h
    dsimp only at h
    by_cases hguard : 255 < payloadLength ∨ c.spreadingFactor < 5 ∨ 12 < c.spreadingFactor ∨
        c.codingRate < 5 ∨ 8 < c.codingRate ∨ c.preambleSymbols = 0 ∨
        (c.explicitHeader = false ∧ (c.implicitPayloadLength = 0 ∨
          payloadLength ≠ c.implicitPayloadLength.toNat))
    · rw [if_pos hguard] at h
      cases h
    · simp only [not_or, not_and, not_lt, UInt8.not_lt, ne_eq, not_not] at hguard
      obtain ⟨hlength, hlow, hhigh, hrateLow, hrateHigh, hpreamble, himplicit⟩ := hguard
      have hpositive : 0 < c.preambleSymbols.toNat := by
        rw [Nat.pos_iff_ne_zero]
        exact fun hzero => hpreamble (UInt16.toNat_inj.mp hzero)
      exact ⟨bandwidthHz, ⟨hbandwidth, UInt8.le_iff_toNat_le.mp hlow,
        UInt8.le_iff_toNat_le.mp hhigh, UInt8.le_iff_toNat_le.mp hrateLow,
        UInt8.le_iff_toNat_le.mp hrateHigh, hpositive⟩, hlength, himplicit⟩

/-- For every configuration that is valid for some radio, with a factor from 5
on, and every payload that it can send, the result is the exact airtime rounded
up, no operation overflows, and a longer packet does not take less time. -/
theorem timeOnAir_exact (c : ModemConfig) (l : ModemLimits) (payloadLength : ℕ)
    (hvalid : configValid c l = true) (hfactor : 5 ≤ c.spreadingFactor)
    (hpayload : payloadLength ≤ 255)
    (himplicit : c.explicitHeader = false → payloadLength = c.implicitPayloadLength.toNat) :
    ∃ bandwidthHz timeMs, normalizeBandwidth c.bandwidthHz = some bandwidthHz ∧
      timeOnAir c payloadLength = .ok (.ok, timeMs) ∧
      (timeMs.toNat : ℤ) = ⌈airTime c bandwidthHz.toNat payloadLength⌉ ∧
      ∀ d longerLength laterMs, Longer c payloadLength d longerLength →
        timeOnAir d longerLength = .ok (.ok, laterMs) → timeMs ≤ laterMs := by
  obtain ⟨⟨bandwidthHz, hrange⟩, hlength⟩ := inRange_of_valid hvalid hfactor
  obtain ⟨hrun, hsmall⟩ := timeOnAir_computes hrange hpayload fun hheader =>
    ⟨hlength hheader, himplicit hheader⟩
  refine ⟨bandwidthHz, _, hrange.bandwidth, hrun, ?_,
    fun d longerLength laterMs hlonger hlater => ?_⟩
  · rw [UInt32.toNat_ofNat_of_lt' hsmall]
    exact computedTime_exact hrange payloadLength
  · obtain ⟨laterHz, hlaterRange, hlaterPayload, hlaterImplicit⟩ := timeOnAir_accepts hlater
    have hsame : laterHz = bandwidthHz := by
      have hbandwidth := hlaterRange.bandwidth
      rw [hlonger.bandwidthHz, hrange.bandwidth] at hbandwidth
      exact (Option.some.inj hbandwidth).symm
    subst hsame
    obtain ⟨hlaterRun, hlaterSmall⟩ :=
      timeOnAir_computes hlaterRange hlaterPayload hlaterImplicit
    have hvalue : UInt32.ofNat (computedTime d laterHz longerLength) = laterMs := by
      rw [hlaterRun] at hlater
      exact (Prod.mk.inj (Except.ok.inj hlater)).2
    have hle : (computedTime c laterHz payloadLength : ℤ) ≤
        computedTime d laterHz longerLength := by
      rw [computedTime_exact hrange, computedTime_exact hlaterRange]
      exact Int.ceil_mono (airTime_longer hlonger hrange)
    rw [← hvalue, UInt32.le_iff_toNat_le, UInt32.toNat_ofNat_of_lt' hsmall,
      UInt32.toNat_ofNat_of_lt' hlaterSmall]
    exact_mod_cast hle

def slowConfig : ModemConfig where
  frequencyHz := 868000000
  bandwidthHz := 7800
  spreadingFactor := 12
  codingRate := 8
  txPowerDbm := 14
  preambleSymbols := 65535
  explicitHeader := true
  implicitPayloadLength := 0
  crcEnabled := true

def radioLimits : ModemLimits := ⟨150000000, 960000000, -9, 22, 5⟩

def implicitConfig : ModemConfig :=
  { slowConfig with explicitHeader := false, implicitPayloadLength := 20 }

/-- The longest packet of the slowest modem, and a short one without a header. -/
theorem timeOnAir_exact_slow :
    (configValid slowConfig radioLimits = true ∧
      ∃ timeMs, timeOnAir slowConfig 255 = .ok (.ok, timeMs) ∧
        (timeMs.toNat : ℤ) = ⌈airTime slowConfig 7812 255⌉) ∧
    (configValid implicitConfig radioLimits = true ∧
      ∃ timeMs, timeOnAir implicitConfig 20 = .ok (.ok, timeMs) ∧
        (timeMs.toNat : ℤ) = ⌈airTime implicitConfig 7812 20⌉) := by
  have hnormal : normalizeBandwidth slowConfig.bandwidthHz = some 7812 := by decide
  have himplicit : implicitConfig.explicitHeader = false → 20 =
      implicitConfig.implicitPayloadLength.toNat := fun _ => rfl
  obtain ⟨bandwidthHz, timeMs, hbandwidth, hrun, hexact, _⟩ :=
    timeOnAir_exact slowConfig radioLimits 255 (by decide) (by decide) (by decide) nofun
  obtain ⟨otherHz, otherMs, hother, hshort, hrounded, _⟩ :=
    timeOnAir_exact implicitConfig radioLimits 20 (by decide) (by decide) (by decide) himplicit
  obtain rfl : bandwidthHz = 7812 := Option.some.inj (hbandwidth.symm.trans hnormal)
  obtain rfl : otherHz = 7812 := Option.some.inj (hother.symm.trans hnormal)
  exact ⟨⟨by decide, timeMs, hrun, hexact⟩, by decide, otherMs, hshort, hrounded⟩

end JaszczurHal.LoraAirTime
