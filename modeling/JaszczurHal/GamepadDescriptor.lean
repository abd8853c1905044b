import JaszczurHal.GamepadReport

/-!
# What an accepted descriptor guarantees

Reading a descriptor never leaves its bytes or an array, and it ends. Each
field it leaves behind has a size of 1 to 32 bits, an ordered range and an
index of its kind, and lies inside the layout of its report.
-/

set_option autoImplicit false

namespace JaszczurHal.GamepadDescriptor
open HalStatus CheckedArith GamepadParser GamepadReport

def KindFits : FieldKind → ℕ → Prop
  | .button, index => index < buttonCount
  | .axis, index => index < axisCount
  | .hat, _ => True

structure FieldSound (layouts : List Layout) (f : Field) : Prop where
  positive : 0 < f.bitSize.toNat
  small : f.bitSize.toNat ≤ 32
  ordered : f.logicalMinimum ≤ f.logicalMaximum
  fits : KindFits f.kind f.index
  inside : ∃ l, findReportLayout layouts f.reportId = some l ∧
    f.bitPosition+f.bitSize.toNat ≤ l.bitLength

structure LayoutSound (l : Layout) : Prop where
  bytes : (headerBits l.reportId+l.bitLength+7)/8 ≤ l.requiredBytes
  small : l.requiredBytes ≤ reportMax

structure Sound (p : Parser) : Prop where
  fields : ∀ f ∈ p.fields, FieldSound p.reportLayouts f
  layouts : ∀ reportId l, findReportLayout p.reportLayouts reportId = some l → LayoutSound l
  head : p.queueHead < queueCapacity
  count : p.queueCount ≤ queueCapacity

variable {descriptor : List UInt8}

theorem safe_itemValue {position size : ℕ} (hlength : descriptor.length < 2^16) (hsize : size ≤ 4)
    (h : position+size ≤ descriptor.length) :
    Safe (itemValue descriptor position size) fun r => r.2 = position+size := by
  refine safe_range (I := fun i (r : UInt32 × ℕ) => r.2 = position+i) rfl ?_
  rintro i hi ⟨value, p⟩ hp
  have hp : p = position+i := hp
  refine safe_bind (safe_readAt (by omega)) fun byte _ => ?_
  refine safe_bind (safe_narrow (by omega)) fun p' hp' => ?_
  refine safe_bind (safe_shiftLeft32 (by omega)) fun shifted _ => safe_pure ?_
  rw [hp', hp]
  rfl

theorem safe_itemSigned {value : UInt32} {size : ℕ} :
    Safe (itemSigned value size) fun _ => True := by
  unfold itemSigned
  refine safe_ite (fun h => ?_) fun _ => safe_pure trivial
  refine safe_bind (safe_narrow (by omega)) fun bits hbits => ?_
  refine safe_bind (safe_shiftLeft32 (by omega)) fun signBit _ => ?_
  exact safe_ite (fun _ => safe_pure trivial) fun _ => safe_pure trivial

def EndsIn (descriptor : List UInt8) (position : ℕ) (r : Option (Item × ℕ)) : Prop :=
  ∀ item next, r = some (item, next) → position ≤ next ∧ next ≤ descriptor.length

theorem endsIn_none {position : ℕ} : EndsIn descriptor position none := nofun

theorem endsIn_some {position next : ℕ} {item : Item} (h : position ≤ next)
    (hnext : next ≤ descriptor.length) : EndsIn descriptor position (some (item, next)) := by
  intro item' next' hsome
  obtain ⟨_, rfl⟩ := Prod.mk.inj (Option.some.inj hsome)
  exact ⟨h, hnext⟩

theorem sizes_small (prefixByte : UInt8) : (prefixByte &&& 3).toNat < sizes.length := by
  rw [UInt8.toNat_and]
  exact Nat.lt_of_le_of_lt Nat.and_le_right (by decide)

theorem safe_shortItem {position : ℕ} {prefixByte : UInt8} (hlength : descriptor.length < 2^16) :
    Safe (shortItem descriptor prefixByte position) (EndsIn descriptor position) := by
  refine safe_bind (safe_readAt (sizes_small prefixByte)) fun size hsize => ?_
  have hsmall : size ≤ 4 := by
    have hall : ∀ n ∈ sizes, n ≤ 4 := by decide
    rw [hsize]
    exact hall _ (List.getElem_mem _)
  refine safe_ite (fun _ => safe_pure endsIn_none) fun h => ?_
  refine safe_bind (safe_itemValue hlength hsmall (by omega)) fun ⟨value, next⟩ hnext => ?_
  have hnext : next = position+size := hnext
  refine safe_bind safe_itemSigned fun signed _ => safe_pure (endsIn_some ?_ ?_)
  · omega
  · omega

theorem safe_nextItem (hlength : descriptor.length < 2^16) {fuel position : ℕ}
    (hposition : position ≤ descriptor.length) (hfuel : descriptor.length < position+fuel) :
    Safe (nextItem descriptor fuel position) fun r => EndsIn descriptor position r ∧
      (position < descriptor.length → EndsIn descriptor (position+1) r) := by
  induction fuel generalizing position with
  | zero => omega
  | succ fuel ih =>
    rw [nextItem]
    refine safe_ite (fun hinside => ?_) fun hend => ?_
    · refine safe_mono (P := EndsIn descriptor (position+1)) ?_ fun r hr => ⟨?_, fun _ => hr⟩
      · refine safe_bind (safe_readAt hinside) fun prefixByte _ => ?_
        refine safe_bind (safe_narrow (by omega)) fun second hsecond => ?_
        rw [hsecond]
        refine safe_ite (fun _ => ?_) fun _ => safe_shortItem hlength
        refine safe_ite (fun _ => safe_pure endsIn_none) fun hlong => ?_
        refine safe_bind (safe_readAt (by omega)) fun size _ => ?_
        refine safe_bind (safe_narrow (by omega)) fun third hthird => ?_
        refine safe_bind (safe_narrow (by omega)) fun data hdata => ?_
        refine safe_ite (fun _ => safe_pure endsIn_none) fun hdatasize => ?_
        refine safe_bind (safe_narrow (by omega)) fun next hnext => ?_
        refine safe_mono (ih (by omega) (by omega)) fun r hr item end' hend => ?_
        have hbounds := hr.1 item end' hend
        omega
      · intro item next hnext
        have hbounds := hr item next hnext
        omega
    · exact safe_pure ⟨endsIn_some (by omega) (by omega), fun h => absurd h hend⟩

theorem safe_localUsageAt {l : Locals} {index : ℕ} :
    Safe (localUsageAt l index) fun _ => True := by
  unfold localUsageAt
  refine safe_ite (fun h => ?_) fun _ => safe_ite (fun _ => safe_pure trivial) fun _ =>
    safe_ite (fun h => ?_) fun _ => safe_pure trivial
  · exact safe_bind (safe_readAt h) fun _ _ => safe_pure trivial
  · exact safe_bind (safe_readAt (by omega)) fun _ _ => safe_pure trivial

theorem find_reportId {layouts : List Layout} {reportId : UInt16} {l : Layout}
    (h : findReportLayout layouts reportId = some l) : l.reportId = reportId := by
  unfold findReportLayout at h
  simpa using List.find?_some h

theorem find_update_self {f : Layout → Layout} {reportId : UInt16} {layouts : List Layout}
    {l : Layout} (hf : ∀ l, (f l).reportId = l.reportId)
    (h : findReportLayout layouts reportId = some l) :
    findReportLayout (updateLayout reportId f layouts) reportId = some (f l) := by
  unfold findReportLayout at *
  induction layouts with
  | nil => cases h
  | cons m layouts ih =>
    rw [List.find?_cons] at h
    by_cases hm : m.reportId = reportId
    · rw [decide_eq_true hm] at h
      rw [updateLayout, if_pos hm, List.find?_cons, decide_eq_true ((hf m).trans hm),
        Option.some.inj h]
    · rw [decide_eq_false hm] at h
      rw [updateLayout, if_neg hm, List.find?_cons, decide_eq_false hm]
      exact ih h

theorem find_update_ne {f : Layout → Layout} {reportId other : UInt16} (layouts : List Layout)
    (hf : ∀ l, (f l).reportId = l.reportId) (hother : other ≠ reportId) :
    findReportLayout (updateLayout reportId f layouts) other = findReportLayout layouts other := by
  unfold findReportLayout
  induction layouts with
  | nil => rfl
  | cons m layouts ih =>
    by_cases hm : m.reportId = reportId
    · have hne : ¬ (f m).reportId = other := fun h => hother (by rw [← h, hf, hm])
      have hne' : ¬ m.reportId = other := fun h => hother (by rw [← h, hm])
      rw [updateLayout, if_pos hm, List.find?_cons, List.find?_cons, decide_eq_false hne,
        decide_eq_false hne']
    · rw [updateLayout, if_neg hm, List.find?_cons, List.find?_cons, ih]

/-- The layout found or made for a report; every other one is as before. -/
structure GotLayout (p : Parser) (reportId : UInt16) (layout : Layout) (q : Parser) : Prop where
  found : findReportLayout q.reportLayouts reportId = some layout
  others : ∀ other, other ≠ reportId →
    findReportLayout q.reportLayouts other = findReportLayout p.reportLayouts other
  kept : ∀ l, findReportLayout p.reportLayouts reportId = some l → l = layout
  fields : q.fields = p.fields
  head : q.queueHead = p.queueHead
  count : q.queueCount = p.queueCount

theorem safe_getReportLayout (p : Parser) (reportId : UInt16) :
    Safe (getReportLayout p reportId) fun r =>
      ∀ layout q, r = some (layout, q) → GotLayout p reportId layout q := by
  unfold getReportLayout
  cases hfind : findReportLayout p.reportLayouts reportId with
  | some found =>
    refine safe_pure fun layout q hsome => ?_
    obtain ⟨rfl, rfl⟩ := Prod.mk.inj (Option.some.inj hsome)
    exact ⟨hfind, fun _ _ => rfl, fun l hl => Option.some.inj (hl.symm.trans hfind), rfl, rfl, rfl⟩
  | none =>
    refine safe_ite (fun _ => safe_pure fun _ _ h => (Option.some_ne_none _ h.symm).elim)
      fun hroom => ?_
    refine safe_bind (safe_appendAt (by omega)) fun layouts hlayouts => ?_
    refine safe_pure fun layout q hsome => ?_
    obtain ⟨rfl, rfl⟩ := Prod.mk.inj (Option.some.inj hsome)
    rw [hlayouts]
    refine ⟨?_, fun other hother => ?_, fun l hl => ?_, rfl, rfl, rfl⟩
    · unfold findReportLayout at hfind ⊢
      rw [List.find?_append, hfind]
      simp
    · have hne : ¬ reportId = other := fun h => hother h.symm
      unfold findReportLayout
      rw [List.find?_append]
      simp [hne]
    · rw [hfind] at hl
      cases hl

theorem axisIndex_lt {usage : UInt16} {index : ℕ} (h : axisIndexForUsage usage = some index) :
    index < axisCount := by
  unfold axisIndexForUsage at h
  split at h
  · cases h
  · split at h
    · rename_i hlt
      rw [← Option.some.inj h]
      exact hlt
    · cases h

theorem mapped_fits {item : UsageField} {kind : FieldKind} {index : ℕ}
    (h : mappedField item = some (kind, index)) : KindFits kind index := by
  unfold mappedField at h
  split at h
  · rename_i hbutton
    obtain ⟨rfl, rfl⟩ := Prod.mk.inj (Option.some.inj h)
    show item.usage.toNat-1 < buttonCount
    omega
  · split at h
    · cases h
    · split at h
      · obtain ⟨rfl, rfl⟩ := Prod.mk.inj (Option.some.inj h)
        trivial
      · obtain ⟨axis, haxis, heq⟩ := Option.map_eq_some_iff.mp h
        obtain ⟨rfl, rfl⟩ := Prod.mk.inj heq
        exact axisIndex_lt haxis

structure Collecting (layouts found : List Layout) (p : Parser) : Prop where
  fields : ∀ f ∈ p.fields, FieldSound layouts f
  layouts : p.reportLayouts = found
  head : p.queueHead < queueCapacity
  count : p.queueCount ≤ queueCapacity

variable {layouts found : List Layout} {p : Parser}

theorem safe_appendField {item : UsageField} {l : Layout} (hp : Collecting layouts found p)
    (hl : findReportLayout layouts item.reportId = some l)
    (hinside : item.bitPosition+item.bitSize.toNat ≤ l.bitLength) :
    Safe (appendField p item) fun r => Collecting layouts found r.2 := by
  unfold appendField
  cases hmapped : mappedField item with
  | none => exact safe_pure ⟨hp.fields, hp.layouts, hp.head, hp.count⟩
  | some mapped =>
    obtain ⟨kind, index⟩ := mapped
    refine safe_ite (fun _ => safe_pure hp) fun hvalid => ?_
    refine safe_ite (fun _ => safe_pure hp) fun _ => ?_
    refine safe_ite (fun _ => safe_pure hp) fun hroom => ?_
    refine safe_bind (safe_appendAt (by omega)) fun fields hfields => safe_pure ?_
    refine ⟨fun f hf => ?_, hp.layouts, hp.head, hp.count⟩
    have hf : f ∈ fields := hf
    rw [hfields, List.mem_append, List.mem_singleton] at hf
    rcases hf with hold | rfl
    · exact hp.fields f hold
    · rw [not_or, not_or] at hvalid
      have hzero : item.bitSize.toNat ≠ 0 := fun h => hvalid.1 (UInt8.toNat_inj.mp h)
      have hsmall := hvalid.2.1
      rw [UInt8.lt_iff_toNat_lt] at hsmall
      exact ⟨Nat.pos_of_ne_zero hzero, Nat.le_of_not_lt hsmall, Int32.not_lt.mp hvalid.2.2,
        mapped_fits hmapped, l, hl, hinside⟩

theorem safe_collectFrom {g : Globals} {locals : Locals} {bitPosition : ℕ} {mainFlags : UInt8}
    {l : Layout} (hl : findReportLayout layouts g.reportId = some l)
    (hinside : bitPosition+g.reportSize.toNat*g.reportCount.toNat ≤ l.bitLength)
    (hsmall : l.bitLength < 2^16) (hpositive : 0 < g.reportSize.toNat) {left index : ℕ}
    (hleft : left+index = g.reportCount.toNat) {p : Parser} (hp : Collecting layouts found p) :
    Safe (collectFrom g locals bitPosition mainFlags left index p)
      fun r => Collecting layouts found r.2 := by
  induction left generalizing index p with
  | zero => exact safe_pure hp
  | succ left ih =>
    rw [collectFrom]
    refine safe_bind safe_localUsageAt fun usage _ => ?_
    cases usage with
    | none => exact ih (by omega) ⟨hp.fields, hp.layouts, hp.head, hp.count⟩
    | some usage =>
      have hend : (index+1)*g.reportSize.toNat ≤ g.reportSize.toNat*g.reportCount.toNat := by
        rw [Nat.mul_comm]
        exact Nat.mul_le_mul_left _ (by omega)
      rw [Nat.succ_mul] at hend
      refine safe_bind (safe_narrow (by omega)) fun offset hoffset => ?_
      refine safe_bind (safe_narrow (by omega)) fun position hposition => ?_
      refine safe_bind (safe_appendField hp hl ?_) fun ⟨status, q⟩ hq => ?_
      · show position+g.reportSize.toNat ≤ l.bitLength
        omega
      · exact safe_ite (fun _ => ih (by omega) hq) fun _ => safe_pure hq

theorem safe_collectInputFields {g : Globals} {locals : Locals} {bitPosition : ℕ}
    {mainFlags : UInt8} {l : Layout} (hl : findReportLayout layouts g.reportId = some l)
    (hinside : bitPosition+g.reportSize.toNat*g.reportCount.toNat ≤ l.bitLength)
    (hsmall : l.bitLength < 2^16) (hpositive : 0 < g.reportSize.toNat) {p : Parser}
    (hp : Collecting layouts found p) :
    Safe (collectInputFields p g locals bitPosition mainFlags)
      fun r => Collecting layouts found r.2 := by
  unfold collectInputFields
  refine safe_ite (fun _ => safe_pure ⟨hp.fields, hp.layouts, hp.head, hp.count⟩) fun _ => ?_
  exact safe_collectFrom hl hinside hsmall hpositive (Nat.add_zero _) hp

def Handled (s : Scan) (r : Status × Scan) : Prop :=
  r.2.position = s.position ∧ (r.1 = .ok → Sound r.2.parser)

theorem handled_same {s t : Scan} {status : Status} (hs : Sound s.parser)
    (hposition : t.position = s.position) (hparser : t.parser = s.parser) :
    Handled s (status, t) :=
  ⟨hposition, fun _ => hparser ▸ hs⟩

theorem handled_rejected {s t : Scan} {status : Status} (hposition : t.position = s.position)
    (h : status ≠ .ok) : Handled s (status, t) :=
  ⟨hposition, fun hok => absurd hok h⟩

theorem sound_declared {p : Parser} (hp : Sound p) : Sound { p with reportIdsDeclared := true } :=
  ⟨hp.fields, hp.layouts, hp.head, hp.count⟩

theorem safe_globalItem {item : Item} {s : Scan} (hs : Sound s.parser) :
    Safe (globalItem item s) (Handled s) := by
  unfold globalItem
  split
  · exact safe_ite (fun _ => safe_pure (handled_same hs rfl rfl))
      fun _ => safe_pure (handled_same hs rfl rfl)
  · exact safe_pure (handled_same hs rfl rfl)
  · exact safe_pure (handled_same hs rfl rfl)
  · exact safe_ite (fun _ => safe_pure (handled_same hs rfl rfl))
      fun _ => safe_pure (handled_same hs rfl rfl)
  · exact safe_ite (fun _ => safe_pure (handled_same hs rfl rfl))
      fun _ => safe_pure ⟨rfl, fun _ => sound_declared hs⟩
  · exact safe_ite (fun _ => safe_pure (handled_same hs rfl rfl))
      fun _ => safe_pure (handled_same hs rfl rfl)
  · refine safe_ite (fun _ => safe_pure (handled_same hs rfl rfl)) fun hroom => ?_
    exact safe_bind (safe_appendAt (by omega)) fun _ _ => safe_pure (handled_same hs rfl rfl)
  · refine safe_ite (fun _ => safe_pure (handled_same hs rfl rfl)) fun hsome => ?_
    exact safe_bind (safe_readAt (by omega)) fun _ _ => safe_pure (handled_same hs rfl rfl)
  all_goals exact safe_pure (handled_same hs rfl rfl)

theorem safe_localItem {item : Item} {s : Scan} (hs : Sound s.parser) :
    Safe (localItem item s) (Handled s) := by
  unfold localItem
  dsimp only
  split
  · refine safe_ite (fun _ => safe_pure (handled_same hs rfl rfl)) fun hroom => ?_
    exact safe_bind (safe_appendAt (by omega)) fun _ _ => safe_pure (handled_same hs rfl rfl)
  all_goals exact safe_pure (handled_same hs rfl rfl)

theorem safe_insideGamepad {s : Scan} : Safe (insideGamepad s) fun _ => True := by
  unfold insideGamepad
  exact safe_ite (fun h => safe_mono (safe_readAt (by omega)) fun _ _ => trivial)
    fun _ => safe_pure trivial

theorem safe_collectionUsage {l : Locals} : Safe (collectionUsage l) fun _ => True := by
  unfold collectionUsage
  refine safe_ite (fun h => ?_) fun _ => safe_localUsageAt
  exact safe_bind (safe_readAt (by omega)) fun _ _ => safe_pure trivial

theorem safe_collectionItem {item : Item} {s : Scan} (hs : Sound s.parser) :
    Safe (collectionItem item s) (Handled s) := by
  unfold collectionItem
  refine safe_ite (fun _ => safe_pure (handled_same hs rfl rfl)) fun hroom => ?_
  refine safe_bind safe_collectionUsage fun usage _ => ?_
  refine safe_bind safe_insideGamepad fun parent _ => ?_
  exact safe_bind (safe_appendAt (by omega)) fun _ _ => safe_pure (handled_same hs rfl rfl)

theorem safe_inputFields {item : Item} {s : Scan} {bitPosition : ℕ} {inside : Bool} {l : Layout}
    (hl : findReportLayout layouts s.globals.reportId = some l)
    (hinside : bitPosition+s.globals.reportSize.toNat*s.globals.reportCount.toNat ≤ l.bitLength)
    (hsmall : l.bitLength < 2^16) (hpositive : 0 < s.globals.reportSize.toNat) {p : Parser}
    (hp : Collecting layouts found p) :
    Safe (inputFields item s bitPosition inside p) fun r => Collecting layouts found r.2 := by
  unfold inputFields
  exact safe_ite (fun _ => safe_collectInputFields hl hinside hsmall hpositive hp)
    fun _ => safe_pure hp

def grown (reportId : UInt16) (bits bytes : ℕ) (layouts : List Layout) : List Layout :=
  updateLayout reportId (fun l => { l with bitLength := bits, requiredBytes := bytes }) layouts

theorem grown_find_self {reportId : UInt16} {bits bytes : ℕ} {layouts : List Layout} {l : Layout}
    (h : findReportLayout layouts reportId = some l) :
    findReportLayout (grown reportId bits bytes layouts) reportId =
      some { l with bitLength := bits, requiredBytes := bytes } :=
  find_update_self (f := fun l => { l with bitLength := bits, requiredBytes := bytes })
    (fun _ => rfl) h

theorem grown_find_ne {reportId other : UInt16} {bits bytes : ℕ} (layouts : List Layout)
    (h : other ≠ reportId) :
    findReportLayout (grown reportId bits bytes layouts) other = findReportLayout layouts other :=
  find_update_ne layouts (fun _ => rfl) h

theorem field_grown {f : Field} {reportId : UInt16} {layout : Layout} {p q : Parser}
    {bits bytes : ℕ} (hf : FieldSound p.reportLayouts f) (hgot : GotLayout p reportId layout q)
    (hbits : layout.bitLength ≤ bits) :
    FieldSound (grown reportId bits bytes q.reportLayouts) f := by
  obtain ⟨l, hl, hinside⟩ := hf.inside
  refine ⟨hf.positive, hf.small, hf.ordered, hf.fits, ?_⟩
  by_cases hsame : f.reportId = reportId
  · rw [hsame] at hl ⊢
    rw [hgot.kept l hl] at hinside
    exact ⟨_, grown_find_self hgot.found, hinside.trans hbits⟩
  · rw [← hgot.others _ hsame] at hl
    exact ⟨l, (grown_find_ne _ hsame).trans hl, hinside⟩

theorem layouts_grown {reportId : UInt16} {layout : Layout} {p q : Parser} {bits bytes : ℕ}
    (hp : Sound p) (hgot : GotLayout p reportId layout q)
    (hbytes : (headerBits reportId+bits+7)/8 ≤ bytes) (hsmall : bytes ≤ reportMax) :
    ∀ other l, findReportLayout (grown reportId bits bytes q.reportLayouts) other = some l →
      LayoutSound l := by
  intro other l hl
  by_cases hsame : other = reportId
  · rw [hsame, grown_find_self hgot.found] at hl
    rw [← Option.some.inj hl]
    refine ⟨?_, hsmall⟩
    show (headerBits layout.reportId+bits+7)/8 ≤ bytes
    rw [find_reportId hgot.found]
    exact hbytes
  · rw [grown_find_ne _ hsame, hgot.others _ hsame] at hl
    exact hp.layouts other l hl

theorem safe_inputItem {item : Item} {s : Scan} (hs : Sound s.parser) :
    Safe (inputItem item s) (Handled s) := by
  unfold inputItem
  refine safe_ite (fun _ => safe_pure (handled_same hs rfl rfl)) fun hnonzero => ?_
  rw [not_or] at hnonzero
  have hpositive : 0 < s.globals.reportSize.toNat :=
    Nat.pos_of_ne_zero fun h => hnonzero.1 (UInt8.toNat_inj.mp h)
  dsimp only
  refine safe_ite (fun _ => safe_pure (handled_rejected rfl (by decide))) fun _ => ?_
  refine safe_bind (safe_getReportLayout s.parser s.globals.reportId) fun r hr => ?_
  cases r with
  | none => exact safe_pure (handled_rejected rfl (by decide))
  | some got =>
    obtain ⟨layout, q⟩ := got
    have hgot := hr layout q rfl
    dsimp only
    refine safe_ite (fun _ => safe_pure (handled_rejected rfl (by decide))) fun hfit => ?_
    rw [not_or] at hfit
    have hmax : reportMax = 32 := rfl
    have hheader : headerBits s.globals.reportId =
        8*(if s.globals.reportId = reportIdUndefined then 0 else 1) := by
      unfold headerBits
      split <;> rfl
    refine safe_bind safe_insideGamepad fun inside _ => ?_
    have hcollecting : Collecting (grown s.globals.reportId
        (layout.bitLength+s.globals.reportSize.toNat*s.globals.reportCount.toNat)
        ((layout.bitLength+s.globals.reportSize.toNat*s.globals.reportCount.toNat+7)/8+
          (if s.globals.reportId = reportIdUndefined then 0 else 1)) q.reportLayouts)
        q.reportLayouts q :=
      ⟨fun f hf => field_grown (hs.fields f (hgot.fields ▸ hf)) hgot (by omega), rfl,
        hgot.head ▸ hs.head, hgot.count ▸ hs.count⟩
    refine safe_bind (safe_inputFields (grown_find_self hgot.found) le_rfl (by dsimp only; omega)
      hpositive hcollecting) fun ⟨status, q'⟩ hq => ?_
    refine safe_bind (safe_narrow (by omega)) fun bits hbits => ?_
    refine safe_bind (safe_narrow (by omega)) fun bytes hbytes => safe_pure ⟨rfl, fun _ => ?_⟩
    subst hbits hbytes
    have hlayouts : q'.reportLayouts = q.reportLayouts := hq.layouts
    refine ⟨?_, ?_, hq.head, hq.count⟩
    · show ∀ f ∈ q'.fields, FieldSound (grown _ _ _ q'.reportLayouts) f
      rw [hlayouts]
      exact hq.fields
    · show ∀ reportId l, findReportLayout (grown _ _ _ q'.reportLayouts) reportId = some l →
        LayoutSound l
      rw [hlayouts]
      exact layouts_grown hs hgot (by omega) (by omega)

theorem safe_mainItem {item : Item} {s : Scan} (hs : Sound s.parser) :
    Safe (mainItem item s) (Handled s) := by
  unfold mainItem
  split
  · exact safe_collectionItem hs
  · exact safe_ite (fun _ => safe_pure (handled_same hs rfl rfl))
      fun _ => safe_pure (handled_same hs rfl rfl)
  · exact safe_inputItem hs
  · exact safe_pure (handled_same hs rfl rfl)

theorem safe_handleItem {item : Item} {s : Scan} (hs : Sound s.parser) :
    Safe (handleItem item s) (Handled s) := by
  unfold handleItem
  split
  · exact safe_globalItem hs
  · exact safe_localItem hs
  · exact safe_mainItem hs
  · exact safe_pure (handled_same hs rfl rfl)

theorem sound_close {s : Scan} (hs : Sound s.parser) : Sound (closeDescriptor s).2.parser := by
  unfold closeDescriptor
  split
  · exact hs
  · split
    · exact hs
    · exact hs

theorem safe_parseItems (hlength : descriptor.length < 2^16) {fuel : ℕ} {s : Scan}
    (hs : Sound s.parser) (hposition : s.position ≤ descriptor.length)
    (hfuel : descriptor.length < s.position+fuel) :
    Safe (parseItems descriptor fuel s) fun r => r.1 = .ok → Sound r.2.parser := by
  induction fuel generalizing s with
  | zero => omega
  | succ fuel ih =>
    rw [parseItems]
    refine safe_ite (fun hinside => ?_) fun _ => safe_pure fun _ => sound_close hs
    refine safe_bind (safe_nextItem hlength hposition (by omega)) fun r hr => ?_
    cases r with
    | none => exact safe_pure fun h => absurd h (show ¬ Status.eproto = .ok by decide)
    | some r =>
      obtain ⟨item, next⟩ := r
      have hend := hr.2 hinside item next rfl
      refine safe_bind (safe_handleItem (s := { s with position := next }) hs)
        fun ⟨status, t⟩ ht => ?_
      have hnext : t.position = next := ht.1
      refine safe_ite (fun hok => ?_) fun hstatus => safe_pure fun hok => absurd hok hstatus
      exact ih (ht.2 hok) (by omega) (by omega)

theorem sound_init : Sound init :=
  ⟨fun _ hf => absurd hf List.not_mem_nil, fun _ _ h => (Option.some_ne_none _ h.symm).elim,
    by decide, by decide⟩

theorem safe_parseDescriptor (hlength : descriptor.length < 2^16) {p : Parser} (hp : Sound p) :
    Safe (parseDescriptor p descriptor) fun r => r.1 = .ok → Sound r.2.parser :=
  safe_parseItems (s := startScan p) hlength hp (Nat.zero_le _)
    (by show _ < 0+(descriptor.length+1); omega)

/-- No byte string leads out of range, and an accepted one leaves a sound
parser. -/
theorem safe_configure (descriptor : List UInt8) :
    Safe (configure descriptor) fun r => r.2.configured = true → Sound r.2 := by
  unfold configure
  refine safe_ite (fun _ => safe_pure fun h => absurd h Bool.false_ne_true) fun _ => ?_
  dsimp only
  refine safe_ite (fun _ => safe_pure fun h => absurd h Bool.false_ne_true) fun hmax => ?_
  have hlength : descriptor.length < 2^16 := by
    have hdescriptor : descriptorMax = 256 := rfl
    omega
  have hinit : Sound { init with diagnostics := { init.diagnostics with
      descriptorLengthHighWater := atMost16 descriptor.length } } :=
    ⟨sound_init.fields, sound_init.layouts, sound_init.head, sound_init.count⟩
  refine safe_bind (safe_parseDescriptor hlength hinit) fun ⟨status, s⟩ hs => ?_
  refine safe_ite (fun _ => safe_pure fun h => absurd h Bool.false_ne_true) fun hok => ?_
  have hsound := hs (not_not.mp hok)
  exact safe_pure fun _ => ⟨hsound.fields, hsound.layouts, hsound.head, hsound.count⟩

end JaszczurHal.GamepadDescriptor
