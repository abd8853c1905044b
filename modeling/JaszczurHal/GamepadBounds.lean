import JaszczurHal.GamepadBits
import JaszczurHal.GamepadDescriptor

/-!
# Reading reports stays in range, but for one subtraction

For a parser that a descriptor left sound, the only operation on a report
that can go out of range is the 32-bit difference of a hat value and its
logical minimum. The reports on which it does are described exactly.
-/

set_option autoImplicit false

namespace JaszczurHal.GamepadBounds
open HalStatus CheckedArith GamepadParser GamepadReport GamepadBits GamepadDescriptor

def InRange (f : Field) (value : ℤ) : Prop :=
  f.logicalMinimum.toInt ≤ value ∧ value ≤ f.logicalMaximum.toInt

instance (f : Field) (value : ℤ) : Decidable (InRange f value) := by
  unfold InRange
  infer_instance

def Takes (f : Field) (value : ℤ) : Prop :=
  match f.kind with
  | .hat => if InRange f value then value-f.logicalMinimum.toInt ≤ 7
      else f.mainFlags &&& mainFlagNullState ≠ 0
  | .button => InRange f value
  | .axis => InRange f value ∧ f.logicalMaximum ≠ f.logicalMinimum

def HatFits (f : Field) (value : ℤ) : Prop :=
  f.kind = .hat → InRange f value → value-f.logicalMinimum.toInt < 2^31

def HatsFit (reportId : UInt16) (report : List UInt8) (fields : List Field) : Prop :=
  ∀ before f after, fields = before ++ f :: after → f.reportId = reportId →
    (∀ g ∈ before, g.reportId = reportId → Takes g (fieldValue g report)) →
      HatFits f (fieldValue f report)

theorem inRange_iff {f : Field} {value : Int32} :
    ¬ (value < f.logicalMinimum ∨ f.logicalMaximum < value) ↔ InRange f value.toInt := by
  rw [not_or, Int32.lt_iff_toInt_lt, Int32.lt_iff_toInt_lt, not_lt, not_lt]
  rfl

theorem int32_bounds (x : Int32) : -2^31 ≤ x.toInt ∧ x.toInt < 2^31 :=
  ⟨Int32.le_toInt x, Int32.toInt_lt x⟩

theorem safe_normalizeAxis {f : Field} {value : Int32} (h : InRange f value.toInt)
    (hne : f.logicalMaximum ≠ f.logicalMinimum) :
    Safe (normalizeAxis value f.logicalMinimum f.logicalMaximum) fun _ => True := by
  obtain ⟨hlow, hhigh⟩ := h
  have hmin := int32_bounds f.logicalMinimum
  have hmax := int32_bounds f.logicalMaximum
  have hrange : f.logicalMaximum.toInt ≠ f.logicalMinimum.toInt :=
    fun heq => hne (Int32.toInt_inj.mp heq)
  have hproduct : 0 ≤ (value.toInt-f.logicalMinimum.toInt)*65534 := by omega
  have hquotient := Int.tdiv_nonneg hproduct
    (by omega : 0 ≤ f.logicalMaximum.toInt-f.logicalMinimum.toInt)
  have hle := Int.tdiv_le_self (f.logicalMaximum.toInt-f.logicalMinimum.toInt) hproduct
  refine safe_bind (P := fun n => n = f.logicalMaximum.toInt-f.logicalMinimum.toInt)
    ⟨_, signed_of (by omega), rfl⟩ fun range hr => ?_
  refine safe_bind (P := fun n => n = value.toInt-f.logicalMinimum.toInt)
    ⟨_, signed_of (by omega), rfl⟩ fun offset ho => ?_
  subst hr ho
  refine safe_bind (P := fun n => n = (value.toInt-f.logicalMinimum.toInt)*65534)
    ⟨_, signed_of (by omega), rfl⟩ fun product hp => ?_
  subst hp
  refine safe_bind (P := fun n => n = ((value.toInt-f.logicalMinimum.toInt)*65534).tdiv
    (f.logicalMaximum.toInt-f.logicalMinimum.toInt)) ?_ fun quotient hq => ?_
  · rw [divide, if_neg (by omega)]
    exact ⟨_, signed_of (by omega), rfl⟩
  · subst hq
    refine safe_bind (P := fun _ => True) ⟨_, signed_of (by omega), trivial⟩ fun scaled _ => ?_
    exact safe_ite (fun _ => safe_pure trivial) fun _ =>
      safe_ite (fun _ => safe_pure trivial) fun _ => safe_pure trivial

/-- A hat whose difference fits is read without a fault. -/
theorem safe_normalizeHat {f : Field} {value : Int32}
    (hfits : InRange f value.toInt → value.toInt-f.logicalMinimum.toInt < 2^31) :
    Safe (normalizeHat value f.logicalMinimum f.logicalMaximum f.mainFlags) fun r =>
      (r.2 = true ↔ if InRange f value.toInt then value.toInt-f.logicalMinimum.toInt ≤ 7
        else f.mainFlags &&& mainFlagNullState ≠ 0) := by
  unfold normalizeHat
  refine safe_ite (fun hout => safe_pure ?_) fun hin => ?_
  · have hno : ¬ InRange f value.toInt := fun h => inRange_iff.mpr h hout
    rw [if_neg hno]
    exact decide_eq_true_iff
  · have hrange := inRange_iff.mp hin
    have hdifference := hfits hrange
    have hpositive : 0 ≤ value.toInt-f.logicalMinimum.toInt := by
      have hlow := hrange.1
      omega
    rw [if_pos hrange]
    refine safe_bind (P := fun n => n = value.toInt-f.logicalMinimum.toInt)
      ⟨_, signed_of (by omega), rfl⟩ fun position hp => ?_
    subst hp
    refine safe_ite (fun hbig => safe_pure ?_) fun hsmall => ?_
    · simp only [Bool.false_eq_true, false_iff]
      omega
    · refine safe_bind (safe_readAt (by show _ < 8; omega)) fun direction _ => safe_pure ?_
      simp only [true_iff]
      omega

theorem normalizeHat_faults {f : Field} {value : Int32} (hrange : InRange f value.toInt)
    (hbig : ¬ value.toInt-f.logicalMinimum.toInt < 2^31) :
    normalizeHat value f.logicalMinimum f.logicalMaximum f.mainFlags =
      .error .signedOverflow := by
  rw [normalizeHat, if_neg (inRange_iff.mpr hrange), signed, if_neg (by omega)]
  rfl

/-- A value of a sound field, with a difference that fits, is applied without
a fault. -/
theorem safe_applyValue {layouts : List Layout} {f : Field} (hf : FieldSound layouts f)
    {s : Snapshot} {value : Int32} (hfits : HatFits f value.toInt) :
    Safe (applyValue s f value) fun r => r.1 = true ↔ Takes f value.toInt := by
  unfold applyValue Takes
  have hkind := hf.fits
  unfold HatFits at hfits
  cases hk : f.kind with
  | hat =>
    rw [if_pos rfl]
    exact safe_bind (safe_normalizeHat (hfits hk)) fun r hr => safe_pure hr
  | button =>
    rw [if_neg (by decide), if_pos rfl]
    rw [hk] at hkind
    refine safe_ite (fun hout => safe_pure ?_) fun hin => ?_
    · simp only [Bool.false_eq_true, false_iff]
      exact fun h => inRange_iff.mpr h hout
    · refine safe_bind (safe_shiftLeft32 hkind) fun mask _ => safe_pure ?_
      simp only [true_iff]
      exact inRange_iff.mp hin
  | axis =>
    rw [if_neg (show ¬ FieldKind.axis = .hat by decide),
      if_neg (show ¬ FieldKind.axis = .button by decide)]
    rw [hk] at hkind
    have hindex : f.index < 9 := hkind
    refine safe_ite (fun hout => safe_pure ?_) fun hin => ?_
    · simp only [Bool.false_eq_true, false_iff]
      exact fun h => inRange_iff.mpr h.1 hout
    · refine safe_ite (fun heq => safe_pure ?_) fun hne => ?_
      · simp only [Bool.false_eq_true, false_iff]
        exact fun h => h.2 heq
      · refine safe_bind (safe_normalizeAxis (inRange_iff.mp hin) hne) fun axis _ => ?_
        refine safe_bind (safe_storeAt hindex) fun axes _ => ?_
        refine safe_bind (safe_shiftLeft32 (by omega)) fun bit _ => safe_pure ?_
        simp only [true_iff]
        exact ⟨inRange_iff.mp hin, hne⟩

theorem applyValue_faults {s : Snapshot} {f : Field} {value : Int32}
    (hfits : ¬ HatFits f value.toInt) : applyValue s f value = .error .signedOverflow := by
  unfold HatFits at hfits
  simp only [Classical.not_imp] at hfits
  obtain ⟨hk, hrange, hbig⟩ := hfits
  rw [applyValue, if_pos hk, normalizeHat_faults hrange (by omega)]
  rfl

theorem hatsFit_cons {reportId : UInt16} {report : List UInt8} {f : Field} {fields : List Field} :
    HatsFit reportId report (f :: fields) ↔
      (f.reportId = reportId → HatFits f (fieldValue f report)) ∧
      ((f.reportId = reportId → Takes f (fieldValue f report)) →
        HatsFit reportId report fields) := by
  constructor
  · intro h
    refine ⟨fun hid => h [] f fields rfl hid (fun g hg => absurd hg List.not_mem_nil),
      fun htakes before g after hsplit hid hbefore => ?_⟩
    refine h (f :: before) g after (by rw [hsplit]; rfl) hid fun g' hg' => ?_
    rcases List.mem_cons.mp hg' with rfl | hrest
    · exact htakes
    · exact hbefore g' hrest
  · rintro ⟨hfirst, hrest⟩ before g after hsplit hid hbefore
    cases before with
    | nil =>
      obtain ⟨rfl, _⟩ := List.cons.inj hsplit
      exact hfirst hid
    | cons g' before =>
      obtain ⟨rfl, htail⟩ := List.cons.inj hsplit
      exact hrest (hbefore f List.mem_cons_self) before g after htail hid
        fun g' hg' => hbefore g' (List.mem_cons_of_mem _ hg')

def Holds (layouts : List Layout) (reportId : UInt16) (report : List UInt8) : Prop :=
  report.length ≤ reportMax ∧
    ∃ l, findReportLayout layouts reportId = some l ∧ LayoutSound l ∧ l.requiredBytes ≤ report.length

theorem safe_readSound {layouts : List Layout} {f : Field} {reportId : UInt16}
    {report : List UInt8} (hf : FieldSound layouts f) (hreport : Holds layouts reportId report)
    (hid : f.reportId = reportId) :
    Safe (readField f report) fun value => value.toInt = fieldValue f report := by
  obtain ⟨hmax, l, hl, hlayout, hrequired⟩ := hreport
  obtain ⟨l', hl', hinside⟩ := hf.inside
  rw [hid, hl] at hl'
  obtain rfl := Option.some.inj hl'
  have hbytes := hlayout.bytes
  rw [find_reportId hl, ← hid] at hbytes
  exact safe_readField hf.positive hf.small hmax (by omega)

theorem safe_applyFields {layouts : List Layout} {reportId : UInt16} {report : List UInt8}
    (hreport : Holds layouts reportId report) {fields : List Field}
    (hfields : ∀ f ∈ fields, FieldSound layouts f) (hfit : HatsFit reportId report fields)
    (s : Snapshot) : Safe (applyFields reportId report fields s) fun _ => True := by
  induction fields generalizing s with
  | nil => exact safe_pure trivial
  | cons f fields ih =>
    have hf := hfields f List.mem_cons_self
    have hrest := fun g hg => hfields g (List.mem_cons_of_mem f hg)
    obtain ⟨hfirst, hothers⟩ := hatsFit_cons.mp hfit
    rw [applyFields]
    refine safe_ite (fun hid => ?_) fun hid => ih hrest (hothers fun h => absurd h hid) s
    refine safe_bind (P := fun r => r.1 = true → Takes f (fieldValue f report)) ?_
      fun ⟨valid, t⟩ hr => ?_
    · refine safe_bind (safe_readSound hf hreport hid) fun value hvalue => ?_
      rw [← hvalue] at hfirst ⊢
      exact safe_mono (safe_applyValue hf (hfirst hid)) fun r hr => hr.mp
    · refine safe_ite (fun hvalid => ?_) fun _ => safe_pure trivial
      exact ih hrest (hothers fun _ => hr hvalid) t

theorem applyFields_faults {layouts : List Layout} {reportId : UInt16} {report : List UInt8}
    (hreport : Holds layouts reportId report) {fields : List Field}
    (hfields : ∀ f ∈ fields, FieldSound layouts f) (hfit : ¬ HatsFit reportId report fields)
    (s : Snapshot) : applyFields reportId report fields s = .error .signedOverflow := by
  induction fields generalizing s with
  | nil =>
    refine absurd (fun before f after hsplit => ?_) hfit
    simp at hsplit
  | cons f fields ih =>
    have hf := hfields f List.mem_cons_self
    have hrest := fun g hg => hfields g (List.mem_cons_of_mem f hg)
    rw [hatsFit_cons] at hfit
    rw [applyFields]
    by_cases hid : f.reportId = reportId
    · obtain ⟨value, hread, hvalue⟩ := safe_readSound hf hreport hid
      rw [if_pos hid, applyField, hread]
      by_cases hfirst : HatFits f (fieldValue f report)
      · rw [← hvalue] at hfirst
        obtain ⟨⟨valid, t⟩, happly, hvalid⟩ := safe_applyValue hf hfirst (s := s)
        rw [← hvalue] at hfit
        have hvalid : valid = true := by
          by_contra hno
          exact hfit ⟨fun _ => hfirst, fun htakes => absurd (hvalid.mpr (htakes hid)) hno⟩
        show (do let r ← applyValue s f value; _) = _
        rw [happly]
        show (if valid then _ else _) = _
        rw [if_pos hvalid]
        exact ih hrest (fun h => hfit ⟨fun _ => hfirst, fun _ => h⟩) t
      · rw [← hvalue] at hfirst
        show (do let r ← applyValue s f value; _) = _
        rw [applyValue_faults hfirst]
        rfl
    · rw [if_neg hid]
      exact ih hrest (fun h => hfit ⟨fun h' => absurd h' hid, fun _ => h⟩) s

def Good (p : Parser) : Prop := p.configured = true → Sound p

structure SameLayout (p q : Parser) : Prop where
  configured : q.configured = p.configured
  fields : q.fields = p.fields
  layouts : q.reportLayouts = p.reportLayouts
  head : q.queueHead = p.queueHead
  count : q.queueCount = p.queueCount

theorem SameLayout.sound {p q : Parser} (h : SameLayout p q) (hp : Sound p) : Sound q := by
  refine ⟨?_, ?_, ?_, ?_⟩
  · rw [h.fields, h.layouts]
    exact hp.fields
  · rw [h.layouts]
    exact hp.layouts
  · rw [h.head]
    exact hp.head
  · rw [h.count]
    exact hp.count

theorem SameLayout.good {p q : Parser} (h : SameLayout p q) (hp : Good p) : Good q :=
  fun hq => h.sound (hp (h.configured ▸ hq))

theorem sound_makeRoom {p : Parser} (hp : Sound p) :
    Sound (makeRoom p) ∧ (makeRoom p).queueCount < queueCapacity := by
  unfold makeRoom
  split
  · have hzero : 0 < queueCapacity := by decide
    exact ⟨⟨hp.fields, hp.layouts, hzero, Nat.le_of_lt hzero⟩, hzero⟩
  · rename_i hcount
    exact ⟨hp, Nat.lt_of_le_of_ne hp.count hcount⟩

theorem safe_enqueueSnapshot {p : Parser} (hp : Sound p) : Safe (enqueueSnapshot p) Sound := by
  obtain ⟨hroom, hcount⟩ := sound_makeRoom hp
  unfold enqueueSnapshot storeSnapshot
  generalize makeRoom p = q at hroom hcount ⊢
  have hcapacity : queueCapacity = 16 := rfl
  have hmod : (q.queueHead+q.queueCount)%queueCapacity < 16 := Nat.mod_lt _ (by decide)
  refine safe_bind (safe_narrow (by omega)) fun tail htail => ?_
  refine safe_bind (safe_storeAt (by omega)) fun queue _ => ?_
  refine safe_bind (safe_narrow (by omega)) fun count hc => safe_pure ?_
  exact ⟨hroom.fields, hroom.layouts, hroom.head, by dsimp only; omega⟩

theorem configured_of_not {p : Parser} (h : ¬ p.configured = false) : p.configured = true := by
  cases hc : p.configured with
  | false => exact absurd hc h
  | true => rfl

theorem safe_connectionOpened {p : Parser} (hp : Good p) :
    Safe (connectionOpened p) fun r => Good r.2 := by
  unfold connectionOpened
  refine safe_ite (fun _ => safe_pure hp) fun hc => safe_ite (fun _ => safe_pure hp) fun _ => ?_
  have hsound := hp (configured_of_not hc)
  refine safe_bind (safe_enqueueSnapshot ?_) fun q hq => safe_pure fun _ => hq
  exact ⟨hsound.fields, hsound.layouts, hsound.head, hsound.count⟩

theorem safe_connectionClosed {p : Parser} (hp : Good p) :
    Safe (connectionClosed p) fun r => Good r.2 := by
  unfold connectionClosed
  refine safe_ite (fun _ => safe_pure hp) fun hc => safe_ite (fun _ => safe_pure hp) fun _ => ?_
  have hsound := hp (configured_of_not hc)
  refine safe_bind (safe_enqueueSnapshot ?_) fun q hq => safe_pure fun _ => hq
  exact ⟨hsound.fields, hsound.layouts, hsound.head, hsound.count⟩

theorem safe_next {p : Parser} (hp : Good p) : Safe (next p) fun r => Good r.2.2 := by
  unfold next
  refine safe_ite (fun _ => safe_pure hp) fun hc => ?_
  have hsound := hp (configured_of_not hc)
  have hhead := hsound.head
  have hcount := hsound.count
  have hcapacity : queueCapacity = 16 := rfl
  have hmod : (p.queueHead+1)%queueCapacity < 16 := Nat.mod_lt _ (by decide)
  refine safe_ite (fun _ => safe_pure fun _ =>
    ⟨hsound.fields, hsound.layouts, hsound.head, hsound.count⟩) fun _ => ?_
  refine safe_ite (fun _ => safe_pure hp) fun _ => ?_
  refine safe_bind (safe_loadAt (by omega)) fun snapshot _ => ?_
  refine safe_bind (safe_narrow (by omega)) fun head hh => safe_pure fun _ => ?_
  exact ⟨hsound.fields, hsound.layouts, by dsimp only; omega, by dsimp only; omega⟩

theorem safe_acceptReport {p : Parser} (hp : Sound p) (s : Snapshot) :
    Safe (acceptReport p s) fun r => Sound r.2 := by
  unfold acceptReport
  refine safe_ite (fun _ => safe_pure ⟨hp.fields, hp.layouts, hp.head, hp.count⟩) fun _ => ?_
  refine safe_bind (safe_enqueueSnapshot ?_) fun q hq => safe_pure hq
  exact ⟨hp.fields, hp.layouts, hp.head, hp.count⟩

theorem sameLayout_count (p : Parser) (length : ℕ) : SameLayout p (countReport p length) :=
  ⟨rfl, rfl, rfl, rfl, rfl⟩

theorem good_rejected {p : Parser} (hp : Good p) (q : Parser) (status : Status)
    (reason : RejectReason) (hq : SameLayout p q) : Good (rejectReport q status reason).2 :=
  (show SameLayout p (rejectReport q status reason).2 from
    ⟨hq.configured, hq.fields, hq.layouts, hq.head, hq.count⟩).good hp

def reportIdIn (p : Parser) (report : List UInt8) : UInt16 :=
  if p.reportIdsDeclared then (report.headD 0).toUInt16 else reportIdUndefined

theorem reportIdOf_eq {p : Parser} {report : List UInt8} (h : report.length ≠ 0) :
    reportIdOf p report = .ok (reportIdIn p report) := by
  unfold reportIdOf reportIdIn
  cases report with
  | nil => exact absurd rfl h
  | cons b report => split <;> rfl

def Reaches (p : Parser) (report : List UInt8) : Prop :=
  p.configured = true ∧ p.current.connected = true ∧ report.length ≠ 0 ∧
    report.length ≤ reportMax ∧ ∃ l,
      findReportLayout p.reportLayouts (reportIdIn p report) = some l ∧
        l.requiredBytes ≤ report.length

def ReportFits (p : Parser) (report : List UInt8) : Prop :=
  Reaches p report → HatsFit (reportIdIn p report) report p.fields

theorem safe_parseFields {p : Parser} {report : List UInt8} (hp : Sound p)
    (hreport : Holds p.reportLayouts (reportIdIn p report) report)
    (hfit : HatsFit (reportIdIn p report) report p.fields) :
    Safe (parseFields p (reportIdIn p report) report) fun r => Sound r.2 := by
  unfold parseFields
  refine safe_bind (safe_applyFields hreport hp.fields hfit p.current) fun ⟨valid, s⟩ _ => ?_
  refine safe_ite (fun _ => safe_acceptReport hp s) fun _ => safe_pure ?_
  exact ⟨hp.fields, hp.layouts, hp.head, hp.count⟩

/-- A report reaches its fields, or it is refused without looking at them. -/
theorem parseInput_cases {p : Parser} {report : List UInt8} (hp : Good p) :
    (Reaches p report ∧ parseInput p report =
      parseFields (countReport p report.length) (reportIdIn p report) report) ∨
    (¬ Reaches p report ∧ ∃ r, parseInput p report = .ok r ∧ Good r.2) := by
  unfold parseInput
  by_cases hempty : report.length = 0
  · rw [if_pos hempty]
    exact Or.inr ⟨fun h => h.2.2.1 hempty, _, rfl, good_rejected hp _ _ _ ⟨rfl, rfl, rfl, rfl, rfl⟩⟩
  rw [if_neg hempty]
  dsimp only
  by_cases hconfigured : (countReport p report.length).configured = false
  · rw [if_pos hconfigured]
    refine Or.inr ⟨fun h => ?_, _, rfl, good_rejected hp _ _ _ ⟨rfl, rfl, rfl, rfl, rfl⟩⟩
    exact Bool.false_ne_true (hconfigured.symm.trans h.1)
  rw [if_neg hconfigured]
  by_cases hconnected : (countReport p report.length).current.connected = false
  · rw [if_pos hconnected]
    refine Or.inr ⟨fun h => ?_, _, rfl, good_rejected hp _ _ _ ⟨rfl, rfl, rfl, rfl, rfl⟩⟩
    exact Bool.false_ne_true (hconnected.symm.trans h.2.1)
  rw [if_neg hconnected]
  by_cases hlong : reportMax < report.length
  · rw [if_pos hlong]
    exact Or.inr ⟨fun h => absurd h.2.2.2.1 (by omega), _, rfl, good_rejected hp _ _ _ ⟨rfl, rfl, rfl, rfl, rfl⟩⟩
  rw [if_neg hlong, reportIdOf_eq hempty, ok_bind]
  cases hfind : findReportLayout (countReport p report.length).reportLayouts
    (reportIdIn (countReport p report.length) report) with
  | none =>
    have hnone : findReportLayout p.reportLayouts (reportIdIn p report) = none := hfind
    refine Or.inr ⟨fun h => ?_, _, rfl, good_rejected hp _ _ _ ⟨rfl, rfl, rfl, rfl, rfl⟩⟩
    obtain ⟨l, hl, _⟩ := h.2.2.2.2
    rw [hnone] at hl
    cases hl
  | some layout =>
    have hsome : findReportLayout p.reportLayouts (reportIdIn p report) = some layout := hfind
    by_cases hshort : report.length < layout.requiredBytes
    · refine Or.inr ⟨fun h => ?_, _, if_pos hshort, good_rejected hp _ _ _ ⟨rfl, rfl, rfl, rfl, rfl⟩⟩
      obtain ⟨l, hl, hrequired⟩ := h.2.2.2.2
      rw [hsome] at hl
      rw [Option.some.inj hl] at hshort
      omega
    · have hup : p.current.connected = true := by
        cases hc : p.current.connected with
        | false => exact absurd hc hconnected
        | true => rfl
      exact Or.inl ⟨⟨configured_of_not hconfigured, hup, hempty, by omega, layout, hsome, by omega⟩,
        if_neg hshort⟩

theorem holds_of_reaches {p : Parser} {report : List UInt8} (hp : Good p) (h : Reaches p report) :
    Holds p.reportLayouts (reportIdIn p report) report := by
  obtain ⟨hconfigured, _, _, hmax, l, hl, hrequired⟩ := h
  exact ⟨hmax, l, hl, (hp hconfigured).layouts _ l hl, hrequired⟩

theorem safe_parseInput {p : Parser} {report : List UInt8} (hp : Good p)
    (hfit : ReportFits p report) : Safe (parseInput p report) fun r => Good r.2 := by
  rcases parseInput_cases hp with ⟨hreaches, heq⟩ | ⟨_, r, heq, hr⟩
  · have hsound := (sameLayout_count p report.length).sound (hp hreaches.1)
    have hholds := holds_of_reaches hp hreaches
    rw [heq]
    exact safe_mono (safe_parseFields (p := countReport p report.length) hsound hholds
      (hfit hreaches)) fun r hr _ => hr
  · exact ⟨r, heq, hr⟩

theorem parseInput_faults {p : Parser} {report : List UInt8} (hp : Good p)
    (hfit : ¬ ReportFits p report) : parseInput p report = .error .signedOverflow := by
  simp only [ReportFits, Classical.not_imp] at hfit
  rcases parseInput_cases hp with ⟨hreaches, heq⟩ | ⟨hno, _⟩
  · rw [heq, parseFields]
    show (do let r ← applyFields _ report p.fields p.current; _) = _
    rw [applyFields_faults (holds_of_reaches hp hreaches) (hp hreaches.1).fields hfit.2]
    rfl
  · exact absurd hfit.1 hno

inductive Op where
  | opened
  | closed
  | input (report : List UInt8)
  | next
  deriving DecidableEq, Repr

def perform (p : Parser) : Op → Checked Parser
  | .opened => Prod.snd <$> connectionOpened p
  | .closed => Prod.snd <$> connectionClosed p
  | .input report => Prod.snd <$> parseInput p report
  | .next => (fun r => r.2.2) <$> next p

def run (p : Parser) (ops : List Op) : Checked Parser := ops.foldlM perform p

def OpFits (p : Parser) : Op → Prop
  | .input report => ReportFits p report
  | _ => True

theorem safe_map {α β : Type} {m : Checked α} {P : α → Prop} {Q : β → Prop} {f : α → β}
    (hm : Safe m P) (h : ∀ a, P a → Q (f a)) : Safe (f <$> m) Q := by
  obtain ⟨a, rfl, ha⟩ := hm
  exact ⟨f a, rfl, h a ha⟩

theorem safe_perform {p : Parser} {op : Op} (hp : Good p) (hfit : OpFits p op) :
    Safe (perform p op) Good := by
  cases op with
  | opened => exact safe_map (safe_connectionOpened hp) fun _ h => h
  | closed => exact safe_map (safe_connectionClosed hp) fun _ h => h
  | input report => exact safe_map (safe_parseInput hp hfit) fun _ h => h
  | next => exact safe_map (safe_next hp) fun _ h => h

/-- An operation goes out of range exactly if it is a report that does not
fit. -/
theorem perform_iff {p : Parser} {op : Op} (hp : Good p) :
    (∃ q, perform p op = .ok q) ↔ OpFits p op := by
  constructor
  · rintro ⟨q, hq⟩
    cases op with
    | input report =>
      by_contra hno
      rw [perform, parseInput_faults hp hno] at hq
      cases hq
    | opened => trivial
    | closed => trivial
    | next => trivial
  · intro hfit
    obtain ⟨q, hq, _⟩ := safe_perform hp hfit
    exact ⟨q, hq⟩

theorem good_run {p q : Parser} {ops : List Op} (hp : Good p) (h : run p ops = .ok q) : Good q := by
  induction ops generalizing p with
  | nil =>
    rw [← Except.ok.inj h]
    exact hp
  | cons op ops ih =>
    rw [run, List.foldlM_cons] at h
    cases hop : perform p op with
    | error e =>
      rw [hop] at h
      cases h
    | ok p' =>
      rw [hop] at h
      have hfit := (perform_iff hp).mp ⟨p', hop⟩
      exact ih (safe_value (safe_perform hp hfit) hop) h

/-- Every descriptor is read without leaving its bytes, an array or a range,
and to its end; and after it, an operation goes out of range exactly if it is
a report with a hat whose difference does not fit into 32 bits. -/
theorem gamepad_bounded (descriptor : List UInt8) :
    (descriptor.length < 2^16 → ∃ r, parseDescriptor init descriptor = .ok r) ∧
    (∃ r, configure descriptor = .ok r) ∧
    ∀ status p, configure descriptor = .ok (status, p) → ∀ ops q, run p ops = .ok q →
      ∀ op, (∃ q', perform q op = .ok q') ↔ OpFits q op := by
  obtain ⟨r, hr, hgood⟩ := safe_configure descriptor
  refine ⟨fun hlength => ?_, ⟨r, hr⟩, fun status p hp ops q hq op => ?_⟩
  · obtain ⟨r, hr, _⟩ := safe_parseDescriptor hlength sound_init
    exact ⟨r, hr⟩
  · rw [hr] at hp
    obtain rfl := Except.ok.inj hp
    exact perform_iff (good_run hgood hq)

def wideHat : List UInt8 :=
  [0x05, 0x01, 0x09, 0x05, 0xA1, 0x01, 0x09, 0x39, 0x17, 0x00, 0x00, 0x00, 0x80, 0x27, 0xFF, 0xFF,
    0xFF, 0x7F, 0x75, 0x08, 0x95, 0x01, 0x81, 0x02, 0xC0]

def wideHatParser : Parser :=
  match configure wideHat with
  | .ok (_, p) => p
  | .error _ => init

def isOverflow {α : Type} (m : Checked α) : Bool :=
  match m with
  | .error .signedOverflow => true
  | _ => false

theorem overflow_of {α : Type} {m : Checked α} (h : isOverflow m = true) :
    m = .error .signedOverflow := by
  unfold isOverflow at h
  split at h
  · rfl
  · cases h

theorem wideHat_accepted : configure wideHat = .ok (.ok, wideHatParser) := by
  decide +kernel

/-- The value zero is 2^31 above the minimum. -/
theorem wide_hat_overflows : ∃ descriptor report p,
    configure descriptor = .ok (.ok, p) ∧
      run p [.opened, .input report] = .error .signedOverflow :=
  ⟨wideHat, [0], wideHatParser, wideHat_accepted, overflow_of (by decide +kernel)⟩

def wideHatOpened : Parser :=
  match run wideHatParser [.opened] with
  | .ok p => p
  | .error _ => init

theorem wideHat_opened : run wideHatParser [.opened] = .ok wideHatOpened := by
  decide +kernel

/-- A negative value fits, and zero does not. -/
theorem wideHat_bounded :
    OpFits wideHatOpened (.input [0x80]) ∧ ¬OpFits wideHatOpened (.input [0]) := by
  have hbounded := (gamepad_bounded wideHat).2.2 .ok wideHatParser wideHat_accepted [.opened]
    wideHatOpened wideHat_opened
  constructor
  · apply (hbounded _).mp
    cases hread : perform wideHatOpened (.input [0x80]) with
    | ok q => exact ⟨q, rfl⟩
    | error e =>
      have hsome : (perform wideHatOpened (.input [0x80])).toOption.isSome = true := by
        decide +kernel
      rw [hread] at hsome
      cases hsome
  · intro hfits
    obtain ⟨q, hq⟩ := (hbounded _).mpr hfits
    have hwide : isOverflow (perform wideHatOpened (.input [0])) = true := by
      decide +kernel
    rw [hq] at hwide
    cases hwide

end JaszczurHal.GamepadBounds
