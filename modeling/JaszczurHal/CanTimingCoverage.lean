import JaszczurHal.CanTimingChoice

/-!
# Bitrates that are missed

Each prescaler is tried with one total of quanta. Another total can meet the
rate where the nearest one is out of range, below four quanta, rounded the other
way or computed from a sum that left 32 bits.
-/

set_option autoImplicit false

namespace JaszczurHal.CanBitTiming
open HalStatus

def Complete (r : Request) (out : Timing) : Prop :=
  (computeTiming r out).1 = .eunsupported →
    ∀ prescaler segment1 segment2, ¬Meets r prescaler segment1 segment2

def Splits (r : Request) (total : ℕ) : Prop :=
  r.minSegment1 ≤ r.maxSegment1 ∧ 1 ≤ r.maxSegment2 ∧
    r.minSegment1 + 2 ≤ total ∧ total ≤ r.maxTotalQuanta

instance (r : Request) (total : ℕ) : Decidable (Splits r total) :=
  inferInstanceAs (Decidable (_ ∧ _ ∧ _ ∧ _))

def Tried (r : Request) (p : ℕ) : Prop :=
  4 ≤ nearestTotal wrap r p ∧ Splits r (nearestTotal wrap r p) ∧
    rateMet r p (nearestTotal wrap r p) = true

def edgeTotals (r : Request) (p : ℕ) : List ℕ :=
  [r.minSegment1 + 2, r.maxTotalQuanta, nearestTotal id r p - 1, nearestTotal id r p,
    nearestTotal id r p + 1]

def EdgeMeets (r : Request) (p : ℕ) : Prop :=
  ∃ total ∈ edgeTotals r p, Splits r total ∧ rateMet r p total = true

/-- The sum for the nearest total fits, and no prescaler has an edge total that meets
the rate unless its nearest total is at least four, in range and meets it too. -/
structure Covered (r : Request) : Prop where
  sum : r.clock + r.bitrate / 2 < 2^32
  nearest : ∀ p, 1 ≤ p → p ≤ r.limits.maxPrescaler.toNat → EdgeMeets r p →
    4 ≤ nearestTotal id r p ∧ Splits r (nearestTotal id r p) ∧
      rateMet r p (nearestTotal id r p) = true

section Totals

variable {r : Request}

theorem splits_of_segments {segment1 segment2 : ℕ}
    (h : segmentsInRange r segment1 segment2 = true) : Splits r (1 + segment1 + segment2) := by
  simp only [segmentsInRange, Bool.and_eq_true, decide_eq_true_eq] at h
  unfold Splits Request.maxTotalQuanta
  omega

theorem segments_of_splits {total : ℕ} (h : Splits r total) :
    ∃ segment1 segment2, segmentsInRange r segment1 segment2 = true ∧
      1 + segment1 + segment2 = total := by
  unfold Splits Request.maxTotalQuanta at h
  simp only [segmentsInRange, Bool.and_eq_true, decide_eq_true_eq]
  by_cases hfirst : total - 2 ≤ r.maxSegment1
  · exact ⟨total - 2, 1, by omega, by omega⟩
  · exact ⟨r.maxSegment1, total - 1 - r.maxSegment1, by omega, by omega⟩

/-- Clipping finds a split where there is one, wherever the sample point lies. -/
theorem segments_iff (width : ℕ → ℕ) {total : ℕ} (htotal : 4 ≤ total)
    (hmost : total ≤ r.maxTotalQuanta) :
    segmentsInRange r (segments width r total).1 (segments width r total).2 = true ↔
      Splits r total := by
  unfold segments sampleQuanta
  dsimp only
  generalize width (total * r.target + 500) / 1000 = nearest
  unfold Splits
  unfold Request.maxTotalQuanta at hmost ⊢
  simp only [segmentsInRange, Bool.and_eq_true, decide_eq_true_eq]
  split_ifs <;> dsimp only at * <;> omega

theorem attempt_isSome_iff {p : ℕ} : (attempt wrap r p).isSome = true ↔ Tried r p := by
  rw [attempt_isSome]
  simp only [passes, totalInRange, Bool.and_eq_true, decide_eq_true_eq, Tried]
  constructor
  · intro h
    have hsplit := (segments_iff wrap h.1.1.1 h.1.1.2).mp h.2
    exact ⟨h.1.1.1, hsplit, h.1.2⟩
  · intro h
    have hmost := h.2.1.2.2.2
    exact ⟨⟨⟨h.1, hmost⟩, h.2.2⟩, (segments_iff wrap h.1 hmost).mpr h.2.1⟩

end Totals

section Rates

variable {r : Request} {p : ℕ}

theorem rounded_antitone (c : ℕ) {d d' : ℕ} (hd : 1 ≤ d) (h : d ≤ d') :
    (c + d' / 2) / d' ≤ (c + d / 2) / d := by
  rw [Nat.le_div_iff_mul_le (by omega)]
  have hk : (c + d' / 2) / d' * d' ≤ c + d' / 2 := Nat.div_mul_le_self _ _
  generalize (c + d' / 2) / d' = k at hk ⊢
  cases k with
  | zero => omega
  | succ k =>
    have hmul : k * d ≤ k * d' := Nat.mul_le_mul_left k h
    rw [Nat.succ_mul] at hk ⊢
    omega

theorem actualBitrate_antitone {n n' : ℕ} (hp : 1 ≤ p) (hn : 1 ≤ n) (h : n ≤ n') :
    actualBitrate r p n' ≤ actualBitrate r p n := by
  apply rounded_antitone
  · exact Nat.mul_pos hp hn
  · exact Nat.mul_le_mul_left p h

/-- More quanta than the nearest total are too slow. -/
theorem actualBitrate_above {n : ℕ} (hbitrate : r.bitrate ≠ 0) (hp : 1 ≤ p)
    (h : nearestTotal id r p + 1 ≤ n) : actualBitrate r p n ≤ r.bitrate := by
  have hnearest : r.clock / p + r.bitrate / 2 < r.bitrate * n := by
    have hlt := Nat.lt_mul_div_succ (r.clock / p + r.bitrate / 2) (Nat.pos_of_ne_zero hbitrate)
    have hmul := Nat.mul_le_mul_left r.bitrate h
    unfold nearestTotal at hmul
    simp only [id] at hmul
    omega
  have hclock : r.clock < p * (r.bitrate * n) := by
    have hlt := Nat.lt_mul_div_succ r.clock (show 0 < p from hp)
    have hmul : p * (r.clock / p + 1) ≤ p * (r.bitrate * n) := Nat.mul_le_mul_left p (by omega)
    omega
  have hn : 0 < p * n := Nat.mul_pos hp (by omega)
  have hswap : p * (r.bitrate * n) = r.bitrate * (p * n) := by
    rw [Nat.mul_left_comm]
  unfold actualBitrate
  rw [← Nat.lt_succ_iff, Nat.div_lt_iff_lt_mul hn, Nat.succ_mul]
  omega

/-- Fewer quanta than the nearest total are too fast. -/
theorem actualBitrate_below {n : ℕ} (hp : 1 ≤ p) (hn : 1 ≤ n)
    (h : n + 1 ≤ nearestTotal id r p) : r.bitrate ≤ actualBitrate r p n := by
  have hnearest : r.bitrate * n ≤ r.clock / p := by
    have hle := Nat.mul_div_le (r.clock / p + r.bitrate / 2) r.bitrate
    have hmul := Nat.mul_le_mul_left r.bitrate h
    unfold nearestTotal at hmul
    simp only [id] at hmul
    rw [Nat.mul_succ] at hmul
    omega
  have hclock : p * (r.bitrate * n) ≤ r.clock := by
    have hle := Nat.mul_div_le r.clock p
    have hmul := Nat.mul_le_mul_left p hnearest
    omega
  have hswap : p * (r.bitrate * n) = r.bitrate * (p * n) := by
    rw [Nat.mul_left_comm]
  unfold actualBitrate
  rw [Nat.le_div_iff_mul_le (Nat.mul_pos hp hn)]
  omega

theorem rateMet_iff {n : ℕ} : rateMet r p n = true ↔ rateError r p n ≤ r.maxError := by
  simp [rateMet]

/-- A total between the nearest one and one that meets the rate meets it too. -/
theorem rateMet_above {n n' : ℕ} (hbitrate : r.bitrate ≠ 0) (hp : 1 ≤ p)
    (h : nearestTotal id r p + 1 ≤ n) (hle : n ≤ n') (hmet : rateMet r p n' = true) :
    rateMet r p n = true := by
  have hless := @actualBitrate_antitone r p n n' hp (by omega) hle
  have hslow := actualBitrate_above hbitrate hp h
  rw [rateMet_iff] at hmet ⊢
  unfold rateError absDiff at hmet ⊢
  split_ifs at hmet ⊢ <;> omega

theorem rateMet_below {n n' : ℕ} (hp : 1 ≤ p) (hn : 1 ≤ n) (hle : n ≤ n')
    (h : n' + 1 ≤ nearestTotal id r p) (hmet : rateMet r p n = true) :
    rateMet r p n' = true := by
  have hless := @actualBitrate_antitone r p n n' hp hn hle
  have hfast := @actualBitrate_below r p n' hp (by omega) h
  rw [rateMet_iff] at hmet ⊢
  unfold rateError absDiff at hmet ⊢
  split_ifs at hmet ⊢ <;> omega

/-- Where some total meets the rate, an edge total does. -/
theorem edgeMeets_of_rateMet {n : ℕ} (hbitrate : r.bitrate ≠ 0) (hp : 1 ≤ p) (hsplit : Splits r n)
    (hmet : rateMet r p n = true) : EdgeMeets r p := by
  have hsplits : ∀ n', r.minSegment1 + 2 ≤ n' → n' ≤ r.maxTotalQuanta → Splits r n' := by
    intro n' hlow hhigh
    exact ⟨hsplit.1, hsplit.2.1, hlow, hhigh⟩
  have hlow := hsplit.2.2.1
  have hhigh := hsplit.2.2.2
  by_cases habove : nearestTotal id r p + 1 < n
  · by_cases hstart : r.minSegment1 + 2 ≤ nearestTotal id r p + 1
    · have hnext := rateMet_above hbitrate hp (Nat.le_refl _) (by omega) hmet
      exact ⟨nearestTotal id r p + 1, by simp [edgeTotals], hsplits _ hstart (by omega), hnext⟩
    · have hfirst := @rateMet_above r p (r.minSegment1 + 2) n hbitrate hp (by omega) hlow hmet
      exact ⟨r.minSegment1 + 2, by simp [edgeTotals],
        hsplits _ (Nat.le_refl _) (by omega), hfirst⟩
  · by_cases hbelow : n + 1 < nearestTotal id r p
    · by_cases hstop : nearestTotal id r p - 1 ≤ r.maxTotalQuanta
      · have hnext := @rateMet_below r p n (nearestTotal id r p - 1) hp (by omega) (by omega)
          (by omega) hmet
        exact ⟨nearestTotal id r p - 1, by simp [edgeTotals], hsplits _ (by omega) hstop, hnext⟩
      · have hlast := @rateMet_below r p n r.maxTotalQuanta hp (by omega) hhigh (by omega) hmet
        exact ⟨r.maxTotalQuanta, by simp [edgeTotals], hsplits _ (by omega) (Nat.le_refl _), hlast⟩
    · refine ⟨n, ?_, hsplit, hmet⟩
      simp only [edgeTotals, List.mem_cons, List.not_mem_nil, or_false]
      omega

theorem edgeMeets_iff (hbitrate : r.bitrate ≠ 0) (hp : 1 ≤ p)
    (hlimit : p ≤ r.limits.maxPrescaler.toNat) :
    EdgeMeets r p ↔ ∃ segment1 segment2, Meets r p segment1 segment2 := by
  constructor
  · intro h
    obtain ⟨total, _, hsplit, hmet⟩ := h
    obtain ⟨segment1, segment2, hsegments, htotal⟩ := segments_of_splits hsplit
    rw [← htotal] at hmet
    exact ⟨segment1, segment2, hp, hlimit, hsegments, hmet⟩
  · intro h
    obtain ⟨segment1, segment2, _, _, hsegments, hmet⟩ := h
    exact edgeMeets_of_rateMet hbitrate hp (splits_of_segments hsegments) hmet

end Rates

section Results

variable {r : Request}

/-- The search finds a candidate exactly where a total that is tried succeeds. -/
theorem search_isSome (hbitrate : r.bitrate ≠ 0) : (search r).best.isSome = true ↔
    ∃ p, 1 ≤ p ∧ p ≤ r.limits.maxPrescaler.toNat ∧ Tried r p := by
  constructor
  · intro h
    obtain ⟨c, hc⟩ := Option.isSome_iff_exists.mp h
    obtain ⟨p, hlow, hhigh, hattempt⟩ := search_attempt hc
    exact ⟨p, hlow, hhigh, attempt_isSome_iff.mp (by rw [hattempt]; rfl)⟩
  · intro h
    obtain ⟨p, hlow, hhigh, htried⟩ := h
    have hattempt := attempt_isSome_iff.mpr htried
    obtain ⟨last, hended⟩ := @search_ended r
    cases hended.best with
    | inl hsearched =>
      have hleads := leads_all hbitrate hsearched.1 hended.limit hsearched.2
      by_contra hnone
      rw [hleads.none (by simpa using hnone) p hlow hhigh] at hattempt
      contradiction
    | inr hpreferred =>
      obtain ⟨_, c, _, _, hbest⟩ := hpreferred
      rw [hbest]
      rfl

/-- No bitrate is missed where the nearest totals serve all prescalers that some total
serves. -/
theorem complete_of_covered (r : Request) (out : Timing) (hclock : r.clock ≠ 0)
    (hbitrate : r.bitrate ≠ 0) (h : Covered r) : Complete r out := by
  intro hunsupported prescaler segment1 segment2 hmeets
  have hlow := hmeets.1
  have hhigh := hmeets.2.1
  have hedge := (edgeMeets_iff hbitrate hlow hhigh).mpr ⟨segment1, segment2, hmeets⟩
  have hnearest := h.nearest prescaler hlow hhigh hedge
  rw [← nearestTotal_wrap h.sum] at hnearest
  have hsome := (search_isSome hbitrate).mpr ⟨prescaler, hlow, hhigh, hnearest⟩
  obtain ⟨c, hbest⟩ := Option.isSome_iff_exists.mp hsome
  rw [computeTiming_some hclock hbitrate hbest] at hunsupported
  contradiction

end Results

def unmetRequest : Request := ⟨40000000, 7000000, nominalLimits, 0, 0⟩

/-- 7 Mbit/s from 40 MHz: between five and six quanta no timing is near enough. -/
theorem complete_of_covered_unmet : Complete unmetRequest ⟨0, 0, 0, 0, 0, 0⟩ ∧
    (computeTiming unmetRequest ⟨0, 0, 0, 0, 0, 0⟩).1 = .eunsupported := by
  refine ⟨complete_of_covered _ _ (by decide) (by decide) ?_, by decide +kernel⟩
  have hedges : ((List.range' 1 256).all fun p =>
      (edgeTotals unmetRequest p).all fun total => !rateMet unmetRequest p total) = true := by
    decide +kernel
  constructor
  · decide +kernel
  · intro p hlow hhigh hedge
    obtain ⟨total, htotal, _, hmet⟩ := hedge
    have hmost : p ≤ 256 := hhigh
    have hp := List.all_eq_true.mp hedges p (List.mem_range'_1.mpr (by omega))
    have hnone := List.all_eq_true.mp hp total htotal
    rw [hmet] at hnone
    cases hnone

/-- 405 bit/s from 40 MHz: the nearest totals are out of range, the longest bit meets the rate. -/
theorem slow_missed : ¬Complete ⟨40000000, 405, nominalLimits, 0, 0⟩ ⟨0, 0, 0, 0, 0, 0⟩ := by
  intro h
  have hmeets : Meets ⟨40000000, 405, nominalLimits, 0, 0⟩ 256 256 128 := by
    unfold Meets
    decide +kernel
  exact h (by decide +kernel) 256 256 128 hmeets

end JaszczurHal.CanBitTiming
