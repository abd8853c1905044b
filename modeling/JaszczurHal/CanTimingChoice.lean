import JaszczurHal.HalStatus
import Mathlib.Algebra.GroupWithZero.Nat
import Mathlib.Data.Nat.Notation
import Mathlib.Tactic.ByContra
import Mathlib.Tactic.SplitIfs

/-!
# CAN bit timing

The search for the bit timing of one phase. Each prescaler has at most one
candidate, with the nearest whole number of quanta in a bit. Sums and products
are 32 bits wide where the source has them so; the divisor alone is wider.
-/

set_option autoImplicit false

namespace JaszczurHal.CanBitTiming
open HalStatus

structure Timing where
  prescaler : ℕ
  segment1 : ℕ
  segment2 : ℕ
  syncJumpWidth : ℕ
  actualBitrateHz : ℕ
  samplePointPermille : ℕ
  deriving DecidableEq, Repr

structure Limits where
  maxPrescaler : UInt16
  minSegment1 : UInt16
  maxSegment1 : UInt16
  maxSegment2 : UInt16
  maxSjw : UInt16
  defaultSamplePointPermille : UInt16

structure Request where
  clockHz : UInt32
  bitrateHz : UInt32
  limits : Limits
  samplePointPermille : UInt16
  preferredPrescaler : UInt16

namespace Request

variable (r : Request)

def clock : ℕ := r.clockHz.toNat
def bitrate : ℕ := r.bitrateHz.toNat
def minSegment1 : ℕ := r.limits.minSegment1.toNat
def maxSegment1 : ℕ := r.limits.maxSegment1.toNat
def maxSegment2 : ℕ := r.limits.maxSegment2.toNat

def target : ℕ :=
  if r.samplePointPermille ≠ 0 then r.samplePointPermille.toNat
  else r.limits.defaultSamplePointPermille.toNat

def maxTotalQuanta : ℕ := 1 + r.maxSegment1 + r.maxSegment2

def maxError : ℕ := if 0 < r.bitrate / 200 then r.bitrate / 200 else 1

end Request

def JH_CAN_SP_TOLERANCE_PERMILLE : ℕ := 15

def wrap (n : ℕ) : ℕ := n % 2^32

def absDiff (a b : ℕ) : ℕ := if b < a then a - b else b - a

structure Candidate where
  prescaler : ℕ
  segment1 : ℕ
  segment2 : ℕ
  actual : ℕ
  rateError : ℕ
  samplePermille : ℕ
  sampleError : ℕ
  deriving DecidableEq, Repr

section Candidates

-- the width of sums and products: `wrap` for the code, `id` for the numbers it means
variable (width : ℕ → ℕ) (r : Request)

def nearestTotal (prescaler : ℕ) : ℕ := width (r.clock / prescaler + r.bitrate / 2) / r.bitrate

def actualBitrate (prescaler total : ℕ) : ℕ :=
  (r.clock + prescaler * total / 2) / (prescaler * total)

def rateError (prescaler total : ℕ) : ℕ := absDiff (actualBitrate r prescaler total) r.bitrate

def sampleQuanta (total : ℕ) : ℕ :=
  let nearest := width (total * r.target + 500) / 1000
  let raised := if nearest < r.minSegment1 + 1 then r.minSegment1 + 1 else nearest
  if total - 1 < raised then total - 1 else raised

def segments (total : ℕ) : ℕ × ℕ :=
  let sample := sampleQuanta width r total
  let (segment1, segment2) := (sample - 1, total - sample)
  let (segment1, segment2) :=
    if r.maxSegment1 < segment1 then (r.maxSegment1, total - 1 - r.maxSegment1)
    else (segment1, segment2)
  if r.maxSegment2 < segment2 then (total - 1 - r.maxSegment2, r.maxSegment2)
  else (segment1, segment2)

def totalInRange (total : ℕ) : Bool := decide (4 ≤ total) && decide (total ≤ r.maxTotalQuanta)

def rateMet (prescaler total : ℕ) : Bool := decide (rateError r prescaler total ≤ r.maxError)

def segmentsInRange (segment1 segment2 : ℕ) : Bool :=
  decide (r.minSegment1 ≤ segment1) && decide (segment1 ≤ r.maxSegment1) &&
    decide (1 ≤ segment2) && decide (segment2 ≤ r.maxSegment2)

def attempt (prescaler : ℕ) : Option Candidate :=
  let total := nearestTotal width r prescaler
  if ¬totalInRange r total then none
  else if ¬rateMet r prescaler total then none
  else
    let (segment1, segment2) := segments width r total
    if ¬segmentsInRange r segment1 segment2 then none
    else
      let samplePermille := (1 + segment1) * 1000 / total
      some ⟨prescaler, segment1, segment2, actualBitrate r prescaler total,
        rateError r prescaler total, samplePermille, absDiff samplePermille r.target⟩

end Candidates

section Search

variable (r : Request)

def sampleOk (c : Candidate) : Bool := decide (c.sampleError ≤ JH_CAN_SP_TOLERANCE_PERMILLE)

def preferred (c : Candidate) : Bool :=
  r.preferredPrescaler ≠ 0 && decide (c.prescaler = r.preferredPrescaler.toNat) &&
    decide (c.rateError = 0) && sampleOk c

def better (best : Option Candidate) (c : Candidate) : Bool :=
  match best with
  | none => true
  | some best =>
    preferred r c || decide (c.rateError < best.rateError) ||
      (decide (c.rateError = best.rateError) &&
        if sampleOk c then !sampleOk best
        else !sampleOk best && decide (c.sampleError < best.sampleError))

def intermediates (prescaler : ℕ) : List ℕ :=
  let sum := r.clock / prescaler + r.bitrate / 2
  let total := wrap sum / r.bitrate
  if ¬totalInRange r total then [r.maxTotalQuanta, sum]
  else if ¬rateMet r prescaler total then [r.maxTotalQuanta, sum, actualBitrate r prescaler total]
  else [r.maxTotalQuanta, sum, actualBitrate r prescaler total, total * r.target + 500,
    r.minSegment1 + 1, (1 + (segments wrap r total).1) * 1000]

/-- The best candidate so far, and the prescalers that were tried. The search
does not read the latter. -/
structure State where
  best : Option Candidate
  tried : List ℕ

def searchFrom : ℕ → ℕ → State → State
  | 0, _, s => s
  | most + 1, prescaler, s =>
    if r.clock / prescaler = 0 then s
    else
      let tried := s.tried ++ [prescaler]
      match attempt wrap r prescaler with
      | none => searchFrom most (prescaler + 1) ⟨s.best, tried⟩
      | some c =>
        if better r s.best c then
          if preferred r c then ⟨some c, tried⟩
          else searchFrom most (prescaler + 1) ⟨some c, tried⟩
        else searchFrom most (prescaler + 1) ⟨s.best, tried⟩

def search : State := searchFrom r r.limits.maxPrescaler.toNat 1 ⟨none, []⟩

def timing (c : Candidate) : Timing :=
  let sjw := if c.segment2 < c.segment1 then c.segment2 else c.segment1
  ⟨c.prescaler, c.segment1, c.segment2,
    if sjw < r.limits.maxSjw.toNat then sjw else r.limits.maxSjw.toNat, c.actual, c.samplePermille⟩

def computeTiming (out : Timing) : Status × Timing :=
  if r.clock = 0 ∨ r.bitrate = 0 then (.einval, out)
  else
    match (search r).best with
    | none => (.eunsupported, out)
    | some c => (.ok, timing r c)

end Search

def nominalLimits : Limits := ⟨256, 2, 256, 128, 128, 800⟩

example : computeTiming ⟨40000000, 500000, nominalLimits, 0, 0⟩ ⟨0, 0, 0, 0, 0, 0⟩ =
    (.ok, ⟨1, 63, 16, 16, 500000, 800⟩) := by
  decide +kernel

def sampleCost (c : Candidate) : ℕ := if sampleOk c then 0 else c.sampleError

def Before (c c' : Candidate) : Prop :=
  c.rateError < c'.rateError ∨ c.rateError = c'.rateError ∧
    (sampleCost c < sampleCost c' ∨ sampleCost c = sampleCost c' ∧ c.prescaler ≤ c'.prescaler)

def Meets (r : Request) (prescaler segment1 segment2 : ℕ) : Prop :=
  1 ≤ prescaler ∧ prescaler ≤ r.limits.maxPrescaler.toNat ∧
    segmentsInRange r segment1 segment2 = true ∧
    rateMet r prescaler (1 + segment1 + segment2) = true

def candidateOf (r : Request) (prescaler segment1 segment2 : ℕ) : Candidate :=
  let total := 1 + segment1 + segment2
  let samplePermille := (1 + segment1) * 1000 / total
  ⟨prescaler, segment1, segment2, actualBitrate r prescaler total, rateError r prescaler total,
    samplePermille, absDiff samplePermille r.target⟩

/-- Any prescaler with any two segments in the ranges that meet the rate. -/
def IsCandidate (r : Request) (c : Candidate) : Prop :=
  ∃ prescaler segment1 segment2, Meets r prescaler segment1 segment2 ∧
    candidateOf r prescaler segment1 segment2 = c

def Candidate.total (c : Candidate) : ℕ := 1 + c.segment1 + c.segment2

/-- The candidates that are not pruned: at least four quanta, the nearest number for
the prescaler, with the nearest sample point that the ranges allow. -/
def IsNearest (r : Request) (c : Candidate) : Prop :=
  IsCandidate r c ∧ 4 ≤ c.total ∧ c.total = nearestTotal id r c.prescaler ∧
    (c.segment1, c.segment2) = segments id r c.total

structure Best (r : Request) (among : Candidate → Prop) (c : Candidate) : Prop where
  candidate : among c
  chosen : preferred r c = true ∨ ∀ c', among c' → preferred r c' = false ∧ Before c c'

/-- Whatever is pruned has a match that is not: a candidate at least as good, or
a preferred one. -/
def Unpruned (r : Request) : Prop :=
  (∃ c, IsNearest r c) → (∃ c, IsNearest r c ∧ preferred r c = true) ∨
    ∀ c', IsCandidate r c' → preferred r c' = false ∧ ∃ c, IsNearest r c ∧ Before c c'

structure InRanges (r : Request) (t : Timing) : Prop where
  prescaler : 1 ≤ t.prescaler ∧ t.prescaler ≤ r.limits.maxPrescaler.toNat
  segment1 : r.minSegment1 ≤ t.segment1 ∧ t.segment1 ≤ r.maxSegment1
  segment2 : 1 ≤ t.segment2 ∧ t.segment2 ≤ r.maxSegment2
  syncJumpWidth : t.syncJumpWidth ≤ r.limits.maxSjw.toNat ∧ t.syncJumpWidth ≤ t.segment1 ∧
    t.syncJumpWidth ≤ t.segment2

def RateNear (r : Request) (t : Timing) : Prop :=
  t.actualBitrateHz = actualBitrate r t.prescaler (1 + t.segment1 + t.segment2) ∧
    absDiff t.actualBitrateHz r.bitrate ≤ r.maxError

def SampleNearest (r : Request) (t : Timing) : Prop :=
  ∀ segment1 segment2, segmentsInRange r segment1 segment2 = true →
    segment1 + segment2 = t.segment1 + t.segment2 →
    absDiff ((1 + t.segment1) * 1000) ((1 + t.segment1 + t.segment2) * r.target) ≤
      absDiff ((1 + segment1) * 1000) ((1 + t.segment1 + t.segment2) * r.target)

def passes (width : ℕ → ℕ) (r : Request) (p : ℕ) : Bool :=
  totalInRange r (nearestTotal width r p) && rateMet r p (nearestTotal width r p)

structure Fits (r : Request) : Prop where
  sum : 1 ≤ r.limits.maxPrescaler.toNat → r.clock + r.bitrate / 2 < 2^32
  product : ∀ p, 1 ≤ p → p ≤ r.limits.maxPrescaler.toNat → passes id r p = true →
    nearestTotal id r p * r.target + 500 < 2^32

section Attempts

variable {width : ℕ → ℕ} {r : Request} {p : ℕ} {c : Candidate}

theorem attempt_some (h : attempt width r p = some c) :
    passes width r p = true ∧
      segmentsInRange r (segments width r (nearestTotal width r p)).1
        (segments width r (nearestTotal width r p)).2 = true ∧
      c.prescaler = p ∧ c.segment1 = (segments width r (nearestTotal width r p)).1 ∧
      c.segment2 = (segments width r (nearestTotal width r p)).2 ∧
      c.actual = actualBitrate r p (nearestTotal width r p) ∧
      c.rateError = rateError r p (nearestTotal width r p) := by
  unfold attempt at h
  dsimp only at h
  split_ifs at h with htotal hrate hsegments
  cases h
  exact ⟨by simp [passes, htotal, hrate], hsegments, rfl, rfl, rfl, rfl, rfl⟩

theorem attempt_isSome : (attempt width r p).isSome = (passes width r p &&
    segmentsInRange r (segments width r (nearestTotal width r p)).1
      (segments width r (nearestTotal width r p)).2) := by
  unfold attempt passes
  dsimp only
  split_ifs with htotal hrate hsegments <;> simp_all

theorem segments_sum {total : ℕ} (htotal : 4 ≤ total) :
    (segments width r total).1 + (segments width r total).2 + 1 = total := by
  unfold segments sampleQuanta
  dsimp only
  split_ifs <;> dsimp only at * <;> omega

/-- The segments are the split with the nearest sample point, where they are in range. -/
theorem segments_nearest {total segment1 segment2 : ℕ} (htotal : 4 ≤ total)
    (hrange : segmentsInRange r (segments id r total).1 (segments id r total).2 = true)
    (hother : segmentsInRange r segment1 segment2 = true) (hsum : segment1 + segment2 + 1 = total) :
    absDiff ((1 + (segments id r total).1) * 1000) (total * r.target) ≤
      absDiff ((1 + segment1) * 1000) (total * r.target) := by
  simp only [segmentsInRange, Bool.and_eq_true, decide_eq_true_eq] at hrange hother
  unfold segments sampleQuanta at hrange ⊢
  dsimp only [id] at hrange ⊢
  generalize total * r.target = ideal at hrange ⊢
  generalize hnearest : (ideal + 500) / 1000 = nearest at hrange ⊢
  have hlow : 1000 * nearest ≤ ideal + 500 := by omega
  have hhigh : ideal + 500 < 1000 * nearest + 1000 := by omega
  clear hnearest
  unfold absDiff
  split_ifs at hrange ⊢ <;> dsimp only at * <;> omega

end Attempts

theorem attempt_fields {r : Request} {p : ℕ} {c : Candidate} (h : attempt id r p = some c) :
    c = ⟨c.prescaler, c.segment1, c.segment2, actualBitrate r c.prescaler (nearestTotal id r c.prescaler),
      rateError r c.prescaler (nearestTotal id r c.prescaler),
      (1 + c.segment1) * 1000 / nearestTotal id r c.prescaler,
      absDiff ((1 + c.segment1) * 1000 / nearestTotal id r c.prescaler) r.target⟩ := by
  unfold attempt at h
  dsimp only at h
  split_ifs at h
  cases h
  rfl

section Search

variable {r : Request}

structure Leads (r : Request) (last : ℕ) (best : Option Candidate) : Prop where
  none : best = none → ∀ p, 1 ≤ p → p ≤ last → attempt wrap r p = none
  some : ∀ c, best = some c → (∃ p, 1 ≤ p ∧ p ≤ last ∧ attempt wrap r p = some c) ∧
    ∀ p c', 1 ≤ p → p ≤ last → attempt wrap r p = some c' → preferred r c' = false ∧ Before c c'

/-- Where the search ends: at the last prescaler, at one the clock cannot be divided
by, or at a preferred candidate. -/
structure Ended (r : Request) (s : State) (last : ℕ) : Prop where
  tried : s.tried = List.range' 1 last
  limit : last ≤ r.limits.maxPrescaler.toNat
  best : (Leads r last s.best ∧
      (last = r.limits.maxPrescaler.toNat ∨ r.clock / (last + 1) = 0)) ∨
    (1 ≤ last ∧ ∃ c, attempt wrap r last = some c ∧ preferred r c = true ∧ s.best = some c)

theorem better_unpreferred {best c : Candidate} (h : preferred r c = false) :
    better r (some best) c = true ↔ c.rateError < best.rateError ∨
      c.rateError = best.rateError ∧ sampleCost c < sampleCost best := by
  unfold better sampleCost sampleOk JH_CAN_SP_TOLERANCE_PERMILLE
  simp only [h, Bool.false_or, Bool.or_eq_true, Bool.and_eq_true, decide_eq_true_eq]
  by_cases hok : c.sampleError ≤ 15
  · by_cases hbest : best.sampleError ≤ 15
    · simp [hok, hbest]
    · simp only [hok, hbest, decide_false, if_true, Bool.not_false, if_false, and_true]
      omega
  · by_cases hbest : best.sampleError ≤ 15
    · simp [hok, hbest]
    · simp [hok, hbest]

theorem leads_none {last : ℕ} {best : Option Candidate} (h : Leads r last best)
    (hattempt : attempt wrap r (last + 1) = none) : Leads r (last + 1) best := by
  constructor
  · intro hbest p hlow hhigh
    by_cases hp : p = last + 1
    · rw [hp, hattempt]
    · exact h.none hbest p hlow (by omega)
  · intro c hbest
    obtain ⟨⟨q, hq, hqlast, hqc⟩, hbefore⟩ := h.some c hbest
    constructor
    · exact ⟨q, hq, by omega, hqc⟩
    · intro p c' hlow hhigh hc'
      by_cases hp : p = last + 1
      · rw [hp, hattempt] at hc'
        contradiction
      · exact hbefore p c' hlow (by omega) hc'

/-- One more prescaler whose candidate is not preferred. -/
theorem leads_some {last : ℕ} {best : Option Candidate} {c : Candidate} (h : Leads r last best)
    (hattempt : attempt wrap r (last + 1) = some c) (hplain : preferred r c = false) :
    Leads r (last + 1) (if better r best c then some c else best) := by
  have hprescaler := (attempt_some hattempt).2.2.1
  cases best with
  | none =>
    rw [show better r none c = true from rfl, if_pos rfl]
    constructor
    · intro hnone
      contradiction
    · intro c₁ hc₁
      cases hc₁
      constructor
      · exact ⟨last + 1, by omega, by omega, hattempt⟩
      · intro p c' hlow hhigh hc'
        by_cases hp : p = last + 1
        · rw [hp, hattempt] at hc'
          cases hc'
          exact ⟨hplain, Or.inr ⟨rfl, Or.inr ⟨rfl, by omega⟩⟩⟩
        · rw [h.none rfl p hlow (by omega)] at hc'
          contradiction
  | some b =>
    obtain ⟨⟨q, hq, hqlast, hqb⟩, hbefore⟩ := h.some b rfl
    have hqprescaler := (attempt_some hqb).2.2.1
    have hiff := @better_unpreferred r b c hplain
    split_ifs with hbetter
    · rw [hiff] at hbetter
      constructor
      · intro hnone
        contradiction
      · intro c₁ hc₁
        cases hc₁
        constructor
        · exact ⟨last + 1, by omega, by omega, hattempt⟩
        · intro p c' hlow hhigh hc'
          by_cases hp : p = last + 1
          · rw [hp, hattempt] at hc'
            cases hc'
            exact ⟨hplain, Or.inr ⟨rfl, Or.inr ⟨rfl, by omega⟩⟩⟩
          · have hold := hbefore p c' hlow (by omega) hc'
            constructor
            · exact hold.1
            · have hb := hold.2
              unfold Before at hb ⊢
              omega
    · rw [hiff] at hbetter
      constructor
      · intro hnone
        contradiction
      · intro c₁ hc₁
        cases hc₁
        constructor
        · exact ⟨q, hq, by omega, hqb⟩
        · intro p c' hlow hhigh hc'
          by_cases hp : p = last + 1
          · rw [hp, hattempt] at hc'
            cases hc'
            constructor
            · exact hplain
            · unfold Before
              omega
          · exact hbefore p c' hlow (by omega) hc'

theorem searchFrom_ended (most prescaler : ℕ) (s : State)
    (hprescaler : prescaler + most = r.limits.maxPrescaler.toNat + 1)
    (hlow : 1 ≤ prescaler) (htried : s.tried = List.range' 1 (prescaler - 1))
    (hleads : Leads r (prescaler - 1) s.best) :
    ∃ last, Ended r (searchFrom r most prescaler s) last := by
  induction most generalizing prescaler s with
  | zero =>
    refine ⟨prescaler - 1, htried, by omega, Or.inl ⟨hleads, Or.inl (by omega)⟩⟩
  | succ most ih =>
    have hnext : prescaler - 1 + 1 = prescaler := by omega
    have hmore : s.tried ++ [prescaler] = List.range' 1 (prescaler + 1 - 1) := by
      rw [htried, show prescaler + 1 - 1 = prescaler - 1 + 1 by omega, List.range'_concat]
      congr 2
      omega
    rw [searchFrom]
    split_ifs with hclock
    · exact ⟨prescaler - 1, htried, by omega, Or.inl ⟨hleads, Or.inr (by rw [hnext]; exact hclock)⟩⟩
    · dsimp only
      have hstep : ∀ best, Leads r (prescaler - 1 + 1) best →
          ∃ last, Ended r (searchFrom r most (prescaler + 1) ⟨best, s.tried ++ [prescaler]⟩) last := by
        intro best hbest
        apply ih (prescaler + 1) ⟨best, s.tried ++ [prescaler]⟩ (by omega) (by omega) hmore
        rw [show prescaler + 1 - 1 = prescaler - 1 + 1 by omega]
        exact hbest
      cases hattempt : attempt wrap r prescaler with
      | none =>
        apply hstep s.best
        exact leads_none hleads (by rw [hnext]; exact hattempt)
      | some c =>
        dsimp only
        cases hpreferred : preferred r c with
        | true =>
          have hbetter : better r s.best c = true := by
            unfold better
            cases s.best with
            | none => rfl
            | some b => simp [hpreferred]
          rw [if_pos hbetter, if_pos rfl]
          refine ⟨prescaler, hmore, by omega, Or.inr ⟨hlow, c, hattempt, hpreferred, rfl⟩⟩
        | false =>
          have hnew := leads_some hleads (by rw [hnext]; exact hattempt) hpreferred
          by_cases hbetter : better r s.best c = true
          · rw [if_pos hbetter] at hnew
            rw [if_pos hbetter, if_neg (by simp)]
            exact hstep (some c) hnew
          · rw [if_neg hbetter] at hnew
            rw [if_neg hbetter]
            exact hstep s.best hnew

theorem search_ended : ∃ last, Ended r (search r) last := by
  apply searchFrom_ended _ 1 ⟨none, []⟩ (by omega) (Nat.le_refl 1) rfl
  constructor
  · intro _ p hlow hhigh
    omega
  · intro c hc
    contradiction

end Search

section Widths

variable {r : Request} {p : ℕ}

theorem clock_lt : r.clock < 2^32 := r.clockHz.toNat_lt

theorem maxTotalQuanta_le : r.maxTotalQuanta ≤ 131071 := by
  have h1 := r.limits.maxSegment1.toNat_lt
  have h2 := r.limits.maxSegment2.toNat_lt
  unfold Request.maxTotalQuanta Request.maxSegment1 Request.maxSegment2
  omega

theorem wrap_of_lt {n : ℕ} (h : n < 2^32) : wrap n = n := Nat.mod_eq_of_lt h

theorem nearestTotal_wrap (h : r.clock + r.bitrate / 2 < 2^32) :
    nearestTotal wrap r p = nearestTotal id r p := by
  have hle := Nat.div_le_self r.clock p
  unfold nearestTotal
  rw [wrap_of_lt (by omega)]
  rfl

theorem segments_wrap {total : ℕ} (h : total * r.target + 500 < 2^32) :
    segments wrap r total = segments id r total := by
  unfold segments sampleQuanta
  rw [wrap_of_lt h]
  rfl

theorem passes_wrap (h : r.clock + r.bitrate / 2 < 2^32) : passes wrap r p = passes id r p := by
  unfold passes
  rw [nearestTotal_wrap h]

/-- Where nothing is lost the code finds what its numbers mean. -/
theorem attempt_wrap (hfits : Fits r) (hlow : 1 ≤ p) (hhigh : p ≤ r.limits.maxPrescaler.toNat) :
    attempt wrap r p = attempt id r p := by
  have hsum := hfits.sum (by omega)
  cases hpasses : passes id r p with
  | true =>
    have hsegments := segments_wrap (hfits.product p hlow hhigh hpasses)
    unfold attempt
    dsimp only
    rw [nearestTotal_wrap hsum, hsegments]
  | false =>
    have hnone : ∀ width, passes width r p = false → attempt width r p = none := by
      intro width h
      have hsome := @attempt_isSome width r p
      rw [h, Bool.false_and] at hsome
      simpa using hsome
    rw [hnone wrap (by rw [passes_wrap hsum]; exact hpasses), hnone id hpasses]

theorem nearestTotal_antitone {q : ℕ} (hp : 1 ≤ p) (h : p ≤ q) :
    nearestTotal id r q ≤ nearestTotal id r p := by
  have hquotient : r.clock / q ≤ r.clock / p := Nat.div_le_div_left h hp
  unfold nearestTotal
  exact Nat.div_le_div_right (by simp only [id]; omega)

theorem passes_above {width : ℕ → ℕ} (hwidth : ∀ n, width n ≤ n) (hbitrate : r.bitrate ≠ 0)
    (h : r.clock / p = 0) : passes width r p = false := by
  have htotal : nearestTotal width r p = 0 := by
    unfold nearestTotal
    rw [h]
    apply Nat.div_eq_of_lt
    have hle := hwidth (0 + r.bitrate / 2)
    omega
  simp [passes, totalInRange, htotal]

theorem wrap_le (n : ℕ) : wrap n ≤ n := Nat.mod_le n _

theorem above_zero {last : ℕ} (h : r.clock / (last + 1) = 0) (hp : last < p) : r.clock / p = 0 := by
  rw [Nat.div_eq_zero_iff] at h ⊢
  omega

end Widths

section Results

variable {r : Request}

/-- Nothing is left to try where the search ends without a preferred candidate. -/
theorem leads_all (hbitrate : r.bitrate ≠ 0) {last : ℕ} {best : Option Candidate}
    (h : Leads r last best) (hlimit : last ≤ r.limits.maxPrescaler.toNat)
    (hend : last = r.limits.maxPrescaler.toNat ∨ r.clock / (last + 1) = 0) :
    Leads r r.limits.maxPrescaler.toNat best := by
  have hbeyond : ∀ p, last < p → p ≤ r.limits.maxPrescaler.toNat → attempt wrap r p = none := by
    intro p hp hhigh
    cases hend with
    | inl heq => omega
    | inr hzero =>
      have hpasses := passes_above wrap_le hbitrate (above_zero hzero hp)
      have hsome := @attempt_isSome wrap r p
      rw [hpasses, Bool.false_and] at hsome
      simpa using hsome
  constructor
  · intro hbest p hlow hhigh
    by_cases hp : p ≤ last
    · exact h.none hbest p hlow hp
    · exact hbeyond p (by omega) hhigh
  · intro c hbest
    obtain ⟨⟨q, hq, hqlast, hqc⟩, hbefore⟩ := h.some c hbest
    constructor
    · exact ⟨q, hq, by omega, hqc⟩
    · intro p c' hlow hhigh hc'
      by_cases hp : p ≤ last
      · exact hbefore p c' hlow hp hc'
      · rw [hbeyond p (by omega) hhigh] at hc'
        contradiction

theorem candidate_eq {c : Candidate} (h : IsCandidate r c) :
    candidateOf r c.prescaler c.segment1 c.segment2 = c := by
  obtain ⟨p, segment1, segment2, _, rfl⟩ := h
  rfl

/-- What the loop finds for a prescaler is its candidate that is not pruned. -/
theorem isNearest_iff {c : Candidate} : IsNearest r c ↔
    ∃ p, 1 ≤ p ∧ p ≤ r.limits.maxPrescaler.toNat ∧ attempt id r p = some c := by
  constructor
  · rintro ⟨hcandidate, hfour, hnearest, hsegments⟩
    have hsame := candidate_eq hcandidate
    obtain ⟨p, segment1, segment2, ⟨hlow, hhigh, hrange, hmet⟩, rfl⟩ := hcandidate
    refine ⟨p, hlow, hhigh, ?_⟩
    simp only [candidateOf, Candidate.total] at hfour hnearest hsegments
    have hmost : 1 + segment1 + segment2 ≤ r.maxTotalQuanta := by
      simp only [segmentsInRange, Bool.and_eq_true, decide_eq_true_eq] at hrange
      unfold Request.maxTotalQuanta
      omega
    unfold attempt
    dsimp only
    rw [← hnearest, ← hsegments, if_neg (by simp [totalInRange, hfour, hmost]),
      if_neg (by simp [hmet]), if_neg (by simp [hrange])]
    rfl
  · rintro ⟨p, hlow, hhigh, hattempt⟩
    obtain ⟨hpasses, hrange, rfl, hsegment1, hsegment2, _, _⟩ := attempt_some hattempt
    simp only [passes, totalInRange, Bool.and_eq_true, decide_eq_true_eq] at hpasses
    have hsum := @segments_sum id r _ hpasses.1.1
    have htotal : c.total = nearestTotal id r c.prescaler := by
      unfold Candidate.total
      omega
    refine ⟨⟨c.prescaler, c.segment1, c.segment2, ⟨hlow, hhigh, ?_, ?_⟩, ?_⟩, ?_, htotal, ?_⟩
    · rw [hsegment1, hsegment2]
      exact hrange
    · show rateMet r c.prescaler c.total = true
      rw [htotal]
      exact hpasses.2
    · rw [candidateOf, show 1 + c.segment1 + c.segment2 = nearestTotal id r c.prescaler from htotal]
      exact (attempt_fields hattempt).symm
    · rw [htotal]
      exact hpasses.1.1
    · rw [htotal, hsegment1, hsegment2]

/-- What the search ends with, by the numbers that the sums mean. -/
theorem search_best (hbitrate : r.bitrate ≠ 0) (hfits : Fits r) :
    (∀ c, (search r).best = some c → Best r (IsNearest r) c) ∧
      ((search r).best = none → ∀ c, ¬IsNearest r c) := by
  obtain ⟨last, hended⟩ := @search_ended r
  cases hended.best with
  | inl hsearched =>
    have hleads := leads_all hbitrate hsearched.1 hended.limit hsearched.2
    constructor
    · intro c hc
      obtain ⟨⟨q, hq, hqlast, hqc⟩, hbefore⟩ := hleads.some c hc
      rw [attempt_wrap hfits hq hqlast] at hqc
      constructor
      · exact isNearest_iff.mpr ⟨q, hq, hqlast, hqc⟩
      · right
        intro c' hc'
        obtain ⟨p, hlow, hhigh, hattempt⟩ := isNearest_iff.mp hc'
        rw [← attempt_wrap hfits hlow hhigh] at hattempt
        exact hbefore p c' hlow hhigh hattempt
    · intro hnone c hc
      obtain ⟨p, hlow, hhigh, hattempt⟩ := isNearest_iff.mp hc
      rw [← attempt_wrap hfits hlow hhigh, hleads.none hnone p hlow hhigh] at hattempt
      contradiction
  | inr hpreferred =>
    obtain ⟨hlow, c, hattempt, hc, hbest⟩ := hpreferred
    rw [attempt_wrap hfits hlow hended.limit] at hattempt
    constructor
    · intro c' hc'
      rw [hbest] at hc'
      cases hc'
      exact ⟨isNearest_iff.mpr ⟨last, hlow, hended.limit, hattempt⟩, Or.inl hc⟩
    · intro hnone
      rw [hbest] at hnone
      contradiction

/-- The best candidate comes from a prescaler that was tried. -/
theorem search_attempt {c : Candidate} (h : (search r).best = some c) :
    ∃ p, 1 ≤ p ∧ p ≤ r.limits.maxPrescaler.toNat ∧ attempt wrap r p = some c := by
  obtain ⟨last, hended⟩ := @search_ended r
  have hlimit := hended.limit
  cases hended.best with
  | inl hsearched =>
    obtain ⟨⟨q, hq, hqlast, hqc⟩, _⟩ := hsearched.1.some c h
    exact ⟨q, hq, by omega, hqc⟩
  | inr hpreferred =>
    obtain ⟨hlow, c', hattempt, _, hbest⟩ := hpreferred
    rw [hbest] at h
    cases h
    exact ⟨last, hlow, hlimit, hattempt⟩

/-- A timing is in the registers' ranges and near the rate, whatever was lost. -/
theorem timing_ranges {c : Candidate} (h : (search r).best = some c) :
    InRanges r (timing r c) ∧ RateNear r (timing r c) := by
  obtain ⟨p, hlow, hhigh, hattempt⟩ := search_attempt h
  obtain ⟨hpasses, hsegments, hprescaler, hsegment1, hsegment2, hactual, _⟩ := attempt_some hattempt
  simp only [passes, totalInRange, rateMet, Bool.and_eq_true, decide_eq_true_eq] at hpasses
  simp only [segmentsInRange, Bool.and_eq_true, decide_eq_true_eq] at hsegments
  have hsum := @segments_sum wrap r _ hpasses.1.1
  have htotal : 1 + c.segment1 + c.segment2 = nearestTotal wrap r p := by omega
  constructor
  · constructor
    · simp only [timing]
      omega
    · simp only [timing]
      omega
    · simp only [timing]
      omega
    · simp only [timing]
      refine ⟨?_, ?_, ?_⟩ <;> split_ifs <;> omega
  · constructor
    · simp only [timing, htotal, hactual, hprescaler]
    · simp only [timing, hactual]
      exact hpasses.2

theorem rounded_le (c d : ℕ) : (c + d / 2) / d ≤ c := by
  by_cases hd : d = 0
  · simp [hd]
  · by_cases hc : c = 0
    · have hzero : (c + d / 2) / d = 0 := Nat.div_eq_of_lt (by omega)
      omega
    · apply Nat.div_le_of_le_mul
      have hc' : d ≤ d * c := Nat.le_mul_of_pos_right d (by omega)
      have hd' : c ≤ d * c := Nat.le_mul_of_pos_left c (by omega)
      cases d with
      | zero => contradiction
      | succ d =>
        cases d with
        | zero => omega
        | succ d =>
          have hsplit : (d + 1 + 1) * c = (d + 1) * c + c := Nat.succ_mul (d + 1) c
          have hmost : d + 1 ≤ (d + 1) * c := Nat.le_mul_of_pos_right (d + 1) (by omega)
          omega

/-- The sums and products of the turns that were taken fit, if all fit. -/
theorem intermediates_fit (hfits : Fits r) {p : ℕ} (hlow : 1 ≤ p)
    (hhigh : p ≤ r.limits.maxPrescaler.toNat) : ∀ n ∈ intermediates r p, n < 2^32 := by
  have hsum := hfits.sum (by omega)
  have hquotient := Nat.div_le_self r.clock p
  have hmost := @maxTotalQuanta_le r
  have hclock := @clock_lt r
  have hsegment := r.limits.minSegment1.toNat_lt
  have htotal : wrap (r.clock / p + r.bitrate / 2) / r.bitrate = nearestTotal id r p := by
    rw [← nearestTotal_wrap hsum]
    rfl
  have hactual : actualBitrate r p (nearestTotal id r p) ≤ r.clock := rounded_le _ _
  intro n hn
  unfold intermediates at hn
  dsimp only at hn
  rw [htotal] at hn
  split_ifs at hn with htotalRange hrate
  · have hproduct := hfits.product p hlow hhigh (by simp [passes, htotalRange, hrate])
    simp only [totalInRange, Bool.and_eq_true, decide_eq_true_eq] at htotalRange
    have hsum' := @segments_sum wrap r _ htotalRange.1
    unfold Request.minSegment1 at hn
    simp only [List.mem_cons, List.not_mem_nil, or_false] at hn
    omega
  · simp only [List.mem_cons, List.not_mem_nil, or_false] at hn
    omega
  · simp only [List.mem_cons, List.not_mem_nil, or_false] at hn
    omega

/-- If the sums and products of the turns that were taken fit, all do. -/
theorem fits_of_intermediates (hclock : r.clock ≠ 0) (hbitrate : r.bitrate ≠ 0)
    (h : ∀ p ∈ (search r).tried, ∀ n ∈ intermediates r p, n < 2^32) : Fits r := by
  obtain ⟨last, hended⟩ := @search_ended r
  have hmem : ∀ p, 1 ≤ p → p ≤ last → p ∈ (search r).tried := by
    intro p hlow hhigh
    rw [hended.tried, List.mem_range'_1]
    omega
  have hsum : 1 ≤ r.limits.maxPrescaler.toNat → r.clock + r.bitrate / 2 < 2^32 := by
    intro hmax
    have hfirst : 1 ≤ last := by
      cases hended.best with
      | inl hsearched =>
        cases hsearched.2 with
        | inl heq => omega
        | inr hzero =>
          by_contra hnone
          have hlast : last = 0 := by omega
          rw [hlast, Nat.div_one] at hzero
          exact hclock hzero
      | inr hpreferred => exact hpreferred.1
    have hone := h 1 (hmem 1 (Nat.le_refl _) hfirst) (r.clock / 1 + r.bitrate / 2)
    rw [Nat.div_one] at hone
    apply hone
    unfold intermediates
    dsimp only
    rw [Nat.div_one]
    split_ifs <;> simp
  constructor
  · exact hsum
  · have hproduct : ∀ p, 1 ≤ p → p ≤ last → p ≤ r.limits.maxPrescaler.toNat →
        passes id r p = true → nearestTotal id r p * r.target + 500 < 2^32 := by
      intro p hlow hlast hhigh hpasses
      apply h p (hmem p hlow hlast)
      have htotal : wrap (r.clock / p + r.bitrate / 2) / r.bitrate = nearestTotal id r p := by
        rw [← nearestTotal_wrap (hsum (by omega))]
        rfl
      simp only [passes, Bool.and_eq_true] at hpasses
      unfold intermediates
      dsimp only
      rw [htotal, if_neg (by simp [hpasses.1]), if_neg (by simp [hpasses.2])]
      simp
    intro p hlow hhigh hpasses
    by_cases hp : p ≤ last
    · exact hproduct p hlow hp hhigh hpasses
    · cases hended.best with
      | inl hsearched =>
        cases hsearched.2 with
        | inl heq => omega
        | inr hzero =>
          rw [@passes_above r p id (fun n => Nat.le_refl n) hbitrate
            (above_zero hzero (by omega))] at hpasses
          contradiction
      | inr hpreferred =>
        obtain ⟨hlast, c, hattempt, _, _⟩ := hpreferred
        have hearlier := (attempt_some hattempt).1
        rw [passes_wrap (hsum (by omega))] at hearlier
        have hfit := hproduct last hlast (Nat.le_refl _) hended.limit hearlier
        have hless := @nearestTotal_antitone r last p hlast (by omega)
        have hmul := Nat.mul_le_mul_right r.target hless
        omega

theorem computeTiming_einval (out : Timing) (h : r.clock = 0 ∨ r.bitrate = 0) :
    computeTiming r out = (.einval, out) := by
  simp [computeTiming, h]

theorem computeTiming_none {out : Timing} (hclock : r.clock ≠ 0) (hbitrate : r.bitrate ≠ 0)
    (h : (search r).best = none) : computeTiming r out = (.eunsupported, out) := by
  simp [computeTiming, hclock, hbitrate, h]

theorem computeTiming_some {out : Timing} {c : Candidate} (hclock : r.clock ≠ 0)
    (hbitrate : r.bitrate ≠ 0) (h : (search r).best = some c) :
    computeTiming r out = (.ok, timing r c) := by
  simp [computeTiming, hclock, hbitrate, h]

theorem computeTiming_error (r : Request) (out : Timing) (h : (computeTiming r out).1 ≠ .ok) :
    (computeTiming r out).2 = out := by
  by_cases hzero : r.clock = 0 ∨ r.bitrate = 0
  · rw [computeTiming_einval out hzero]
  · have hclock : r.clock ≠ 0 := fun hc => hzero (Or.inl hc)
    have hbitrate : r.bitrate ≠ 0 := fun hb => hzero (Or.inr hb)
    cases hbest : (search r).best with
    | none => rw [computeTiming_none hclock hbitrate hbest]
    | some c =>
      rw [computeTiming_some hclock hbitrate hbest] at h
      contradiction

theorem best_nearest {c : Candidate} (h : IsNearest r c) : SampleNearest r (timing r c) := by
  obtain ⟨⟨p, first, second, ⟨_, _, hrange, _⟩, rfl⟩, hfour, _, hsegments⟩ := h
  simp only [candidateOf, Candidate.total] at hfour hsegments
  intro segment1 segment2 hother hsame
  simp only [timing, candidateOf] at hsame ⊢
  have hnearest := @segments_nearest r (1 + first + second) segment1 segment2 hfour
    (by rw [← hsegments]; exact hrange) hother (by omega)
  rwa [← hsegments] at hnearest

theorem before_trans {c c' c'' : Candidate} (h : Before c c') (h' : Before c' c'') :
    Before c c'' := by
  unfold Before at h h' ⊢
  omega

/-- The best of the candidates that are not pruned is the best of all. -/
theorem best_of_unpruned {c : Candidate} (h : Best r (IsNearest r) c) (hunpruned : Unpruned r) :
    Best r (IsCandidate r) c := by
  refine ⟨h.candidate.1, ?_⟩
  cases h.chosen with
  | inl hpreferred => exact Or.inl hpreferred
  | inr hmost =>
    right
    intro c' hc'
    cases hunpruned ⟨c, h.candidate⟩ with
    | inl hsome =>
      obtain ⟨d, hd, hpreferred⟩ := hsome
      rw [(hmost d hd).1] at hpreferred
      contradiction
    | inr hall =>
      obtain ⟨hplain, d, hd, hbefore⟩ := hall c' hc'
      exact ⟨hplain, before_trans (hmost d hd).2 hbefore⟩

theorem unpruned_of_best {c : Candidate} (hc : IsNearest r c) (h : Best r (IsCandidate r) c) :
    Unpruned r := by
  intro _
  cases h.chosen with
  | inl hpreferred => exact Or.inl ⟨c, hc, hpreferred⟩
  | inr hmost => exact Or.inr fun c' hc' => ⟨(hmost c' hc').1, c, hc, (hmost c' hc').2⟩

/-- What a call promises: errors leave the output alone, a timing fits the registers,
is near the rate and is the best of all prescalers and segments, and nothing leaves 32
bits. -/
structure Promised (r : Request) (out : Timing) : Prop where
  untouched : (computeTiming r out).1 ≠ .ok → (computeTiming r out).2 = out
  ranges : (computeTiming r out).1 = .ok → InRanges r (computeTiming r out).2
  rate : (computeTiming r out).1 = .ok → RateNear r (computeTiming r out).2
  best : (computeTiming r out).1 = .ok →
    ∃ c, Best r (IsCandidate r) c ∧ (computeTiming r out).2 = timing r c ∧
      SampleNearest r (timing r c)
  narrow : ∀ p ∈ (search r).tried, ∀ n ∈ intermediates r p, n < 2^32

theorem computeTiming_found {out : Timing} (hclock : r.clock ≠ 0) (hbitrate : r.bitrate ≠ 0)
    (hok : (computeTiming r out).1 = .ok) :
    ∃ c, (search r).best = some c ∧ (computeTiming r out).2 = timing r c := by
  cases hbest : (search r).best with
  | none =>
    rw [computeTiming_none hclock hbitrate hbest] at hok
    contradiction
  | some c =>
    rw [computeTiming_some hclock hbitrate hbest]
    exact ⟨c, rfl, rfl⟩

theorem promised_of_fits (out : Timing) (hclock : r.clock ≠ 0) (hbitrate : r.bitrate ≠ 0)
    (hfits : Fits r) (hunpruned : Unpruned r) : Promised r out := by
  constructor
  · exact computeTiming_error r out
  · intro hok
    obtain ⟨c, hbest, htiming⟩ := computeTiming_found hclock hbitrate hok
    rw [htiming]
    exact (timing_ranges hbest).1
  · intro hok
    obtain ⟨c, hbest, htiming⟩ := computeTiming_found hclock hbitrate hok
    rw [htiming]
    exact (timing_ranges hbest).2
  · intro hok
    obtain ⟨c, hbest, htiming⟩ := computeTiming_found hclock hbitrate hok
    have hc := (search_best hbitrate hfits).1 c hbest
    exact ⟨c, best_of_unpruned hc hunpruned, htiming, best_nearest hc.candidate⟩
  · intro p hp
    obtain ⟨last, hended⟩ := @search_ended r
    have hlimit := hended.limit
    rw [hended.tried, List.mem_range'_1] at hp
    exact intermediates_fit hfits hp.1 (by omega)

/-- A timing shows which candidate it was made from. -/
theorem timing_inj {c c' : Candidate} (hc : IsCandidate r c) (hc' : IsCandidate r c')
    (h : timing r c = timing r c') : c = c' := by
  simp only [timing, Timing.mk.injEq] at h
  rw [← candidate_eq hc, ← candidate_eq hc', h.1, h.2.1, h.2.2.1]

theorem unpruned_of_promised {out : Timing} (hclock : r.clock ≠ 0) (hbitrate : r.bitrate ≠ 0)
    (hfits : Fits r) (h : Promised r out) : Unpruned r := by
  intro hsome
  obtain ⟨d, hd⟩ := hsome
  obtain ⟨hfound, hnone⟩ := search_best hbitrate hfits
  cases hbest : (search r).best with
  | none => exact absurd hd (hnone hbest d)
  | some c =>
    have hcall := @computeTiming_some r out c hclock hbitrate hbest
    obtain ⟨c', hc', htiming, _⟩ := h.best (by rw [hcall])
    rw [hcall] at htiming
    have hnearest := (hfound c hbest).candidate
    obtain rfl := timing_inj hnearest.1 hc'.candidate htiming
    exact unpruned_of_best hnearest hc' ⟨d, hd⟩

end Results

def classicRequest : Request := ⟨40000000, 500000, nominalLimits, 0, 0⟩

def fastRequest : Request := ⟨4000000000, 1000000000, nominalLimits, 0, 0⟩

def prunedRequest : Request := ⟨40000000, 190024, nominalLimits, 0, 0⟩

end JaszczurHal.CanBitTiming
