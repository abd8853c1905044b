import JaszczurHal.GamepadDeclared
import JaszczurHal.GamepadBounds

/-!
# What a report does to the snapshot

An accepted report sets the controls of the fields declared for its id to the
values of their slices, and no other control. A rejected one changes neither
the snapshot nor the queue.
-/

set_option autoImplicit false

namespace JaszczurHal.GamepadExtraction
open HalStatus CheckedArith GamepadParser GamepadReport GamepadBits GamepadDescriptor GamepadBounds
open GamepadQueue GamepadDeclared

def axisValue (f : Field) (value : ℤ) : ℤ :=
  (value-f.logicalMinimum.toInt)*65534/(f.logicalMaximum.toInt-f.logicalMinimum.toInt)-32767

/-- The directions go clockwise from the logical minimum; a value outside the
range is none. -/
def hatValue (f : Field) (value : ℤ) : UInt8 :=
  if InRange f value then directions.getD (value-f.logicalMinimum.toInt).toNat dpadNone
  else dpadNone

def Shows (s : Snapshot) (f : Field) (value : ℤ) : Prop :=
  match f.kind with
  | .button => s.buttons.toNat.testBit f.index = decide (value ≠ 0)
  | .axis => s.axesPresent.toNat.testBit f.index = true ∧
      s.axes[f.index]?.map Int16.toInt = some (axisValue f value)
  | .hat => s.dpad = hatValue f value

def SameControl (s t : Snapshot) : FieldKind → ℕ → Prop
  | .button, index => t.buttons.toNat.testBit index = s.buttons.toNat.testBit index
  | .axis, index => t.axesPresent.toNat.testBit index = s.axesPresent.toNat.testBit index ∧
      t.axes[index]? = s.axes[index]?
  | .hat, index => index = 0 → t.dpad = s.dpad

structure Extracted (ds : List Declaration) (reportId : UInt16) (report : List UInt8)
    (old new : Snapshot) : Prop where
  shows : ∀ f, Declared ds f → f.reportId = reportId →
    Takes f (fieldValue f report) ∧ Shows new f (fieldValue f report)
  others : ∀ kind index, (∀ f, Declared ds f → f.reportId = reportId →
    ¬ (f.kind = kind ∧ f.index = index)) → SameControl old new kind index
  generation : new.generation = old.generation
  connected : new.connected = old.connected

def idOf (descriptor report : List UInt8) : UInt16 :=
  if idsDeclared descriptor then (report.headD 0).toUInt16 else reportIdUndefined

theorem ensures_signed (bits : ℕ) (n : ℤ) : Ensures (signed bits n) fun m => m = n := by
  apply ensures_ite
  · intro _
    exact ensures_pure rfl
  · intro _ a ha
    cases ha

theorem ensures_divide (bits : ℕ) (a b : ℤ) : Ensures (divide bits a b) fun q => q = a.tdiv b := by
  apply ensures_ite
  · intro _ q hq
    cases hq
  · intro _
    exact ensures_signed _ _

theorem normalizeAxis_value {f : Field} {value : Int32} (h : InRange f value.toInt)
    (hne : f.logicalMaximum ≠ f.logicalMinimum) :
    Ensures (normalizeAxis value f.logicalMinimum f.logicalMaximum) fun axis =>
      axis.toInt = axisValue f value.toInt := by
  obtain ⟨hlow, hhigh⟩ := h
  have hrange : f.logicalMaximum.toInt ≠ f.logicalMinimum.toInt :=
    fun heq => hne (Int32.toInt_inj.mp heq)
  have hpositive : 0 < f.logicalMaximum.toInt-f.logicalMinimum.toInt := by omega
  have hoffset : 0 ≤ (value.toInt-f.logicalMinimum.toInt)*65534 := by omega
  have hquotient : 0 ≤ (value.toInt-f.logicalMinimum.toInt)*65534/
      (f.logicalMaximum.toInt-f.logicalMinimum.toInt) := Int.ediv_nonneg hoffset hpositive.le
  have hle : (value.toInt-f.logicalMinimum.toInt)*65534/
      (f.logicalMaximum.toInt-f.logicalMinimum.toInt) ≤ 65534 := by
    apply Int.ediv_le_of_le_mul hpositive
    rw [Int.mul_comm 65534]
    exact Int.mul_le_mul_of_nonneg_right (by omega) (by norm_num)
  refine ensures_bind (ensures_signed _ _) fun range hr => ?_
  refine ensures_bind (ensures_signed _ _) fun offset ho => ?_
  refine ensures_bind (ensures_signed _ _) fun product hp => ?_
  refine ensures_bind (ensures_divide _ _ _) fun quotient hq => ?_
  refine ensures_bind (ensures_signed _ _) fun scaled hs => ?_
  rw [hq, hp, ho, hr, Int.tdiv_eq_ediv_of_nonneg hoffset] at hs
  have hscaled : scaled = axisValue f value.toInt := hs
  rw [if_neg (by omega), if_neg (by omega)]
  apply ensures_pure
  have hsize : Int16.size = 65536 := rfl
  rw [Int16.toInt_ofInt, ← hscaled, hsize]
  exact Int.bmod_eq_of_le (by omega) (by omega)

theorem normalizeHat_value {f : Field} {value : Int32} :
    Ensures (normalizeHat value f.logicalMinimum f.logicalMaximum f.mainFlags) fun r =>
      r.2 = true → r.1 = hatValue f value.toInt := by
  rw [normalizeHat, hatValue]
  apply ensures_ite
  · intro hout
    have hno : ¬ InRange f value.toInt := fun h => inRange_iff.mpr h hout
    rw [if_neg hno]
    exact ensures_pure fun _ => rfl
  · intro hin
    rw [if_pos (inRange_iff.mp hin)]
    refine ensures_bind (ensures_signed _ _) fun position hposition => ?_
    apply ensures_ite
    · intro _
      exact ensures_pure (by rintro ⟨⟩)
    · intro hsmall
      have hlength : position.toNat < directions.length := by
        show position.toNat < 8
        omega
      rw [readAt_of hlength]
      apply ensures_pure
      intro _
      rw [← hposition, List.getD_eq_getElem?_getD, List.getElem?_eq_getElem hlength]
      rfl

theorem toNat_bit {index : ℕ} (h : index < 32) :
    ((1 : UInt32) <<< UInt32.ofNat index).toNat = 2^index := by
  have hlt : (2:ℕ)^index < 2^32 := Nat.pow_lt_pow_right (by norm_num) h
  have hindex : (UInt32.ofNat index).toNat = index := by
    rw [UInt32.toNat_ofNat']
    omega
  rw [UInt32.toNat_shiftLeft, hindex, Nat.mod_eq_of_lt h]
  show 1 <<< index%2^32 = _
  rw [Nat.shiftLeft_eq, Nat.one_mul, Nat.mod_eq_of_lt hlt]

theorem testBit_set (x : UInt32) {k : ℕ} (h : k < 32) (i : ℕ) :
    (x ||| (1 : UInt32) <<< UInt32.ofNat k).toNat.testBit i =
      if i = k then true else x.toNat.testBit i := by
  rw [UInt32.toNat_or, Nat.testBit_or, toNat_bit h, Nat.testBit_two_pow]
  by_cases hi : i = k
  · simp [hi]
  · simp [hi, Ne.symm hi]

theorem testBit_clear (x : UInt32) {k : ℕ} (h : k < 32) (i : ℕ) :
    (x &&& ~~~((1 : UInt32) <<< UInt32.ofNat k)).toNat.testBit i =
      if i = k then false else x.toNat.testBit i := by
  have hlt : (2:ℕ)^k < 2^32 := Nat.pow_lt_pow_right (by norm_num) h
  have hnot : (~~~((1 : UInt32) <<< UInt32.ofNat k)).toNat = 2^32-(2^k+1) := by
    rw [UInt32.toNat_not, toNat_bit h]
    show 2^32-1-2^k = _
    omega
  rw [UInt32.toNat_and, Nat.testBit_and, hnot, Nat.testBit_two_pow_sub_succ hlt,
    Nat.testBit_two_pow]
  by_cases hi : i = k
  · simp [hi]
  · by_cases hin : i < 32
    · simp [hi, Ne.symm hi, hin]
    · have hhigh : x.toNat.testBit i = false := by
        apply Nat.testBit_lt_two_pow
        calc x.toNat < 2^32 := x.toNat_lt
          _ ≤ 2^i := Nat.pow_le_pow_right (by norm_num) (by omega)
      simp [hi, hhigh]

theorem testBit_present (x : UInt16) {k : ℕ} (h : k < 9) (i : ℕ) :
    (x ||| ((1 : UInt32) <<< UInt32.ofNat k).toUInt16).toNat.testBit i =
      if i = k then true else x.toNat.testBit i := by
  have hlt : (2:ℕ)^k < 2^16 := Nat.pow_lt_pow_right (by norm_num) (by omega)
  rw [UInt16.toNat_or, Nat.testBit_or, UInt32.toNat_toUInt16, toNat_bit (by omega),
    Nat.mod_eq_of_lt hlt, Nat.testBit_two_pow]
  by_cases hi : i = k
  · simp [hi]
  · simp [hi, Ne.symm hi]

structure Applied (s : Snapshot) (f : Field) (value : ℤ) (t : Snapshot) : Prop where
  shows : Shows t f value
  others : ∀ kind index, ¬ (f.kind = kind ∧ f.index = index) → SameControl s t kind index
  generation : t.generation = s.generation
  connected : t.connected = s.connected

theorem SameControl.refl (s : Snapshot) (kind : FieldKind) (index : ℕ) :
    SameControl s s kind index := by
  cases kind with
  | button => rfl
  | axis => exact ⟨rfl, rfl⟩
  | hat => exact fun _ => rfl

theorem SameControl.trans {s t u : Snapshot} {kind : FieldKind} {index : ℕ}
    (h : SameControl s t kind index) (h' : SameControl t u kind index) :
    SameControl s u kind index := by
  cases kind with
  | button => exact Eq.trans h' h
  | axis => exact ⟨h'.1.trans h.1, h'.2.trans h.2⟩
  | hat => exact fun hindex => (h' hindex).trans (h hindex)

def HatIndex (f : Field) : Prop := f.kind = .hat → f.index = 0

theorem Shows.kept {s t : Snapshot} {f : Field} {value : ℤ} (h : Shows s f value)
    (hsame : SameControl s t f.kind f.index) (hhat : HatIndex f) : Shows t f value := by
  unfold Shows at h ⊢
  cases hk : f.kind with
  | button =>
    rw [hk] at h hsame
    exact Eq.trans hsame h
  | axis =>
    rw [hk] at h hsame
    dsimp only at h ⊢
    rw [hsame.1, hsame.2]
    exact h
  | hat =>
    rw [hk] at h hsame
    exact (hsame (hhat hk)).trans h

theorem applyValue_applied {layouts : List Layout} {f : Field} (hf : FieldSound layouts f)
    (hhat : HatIndex f) (s : Snapshot) (value : Int32) :
    Ensures (applyValue s f value) fun r => r.1 = true → Applied s f value.toInt r.2 := by
  have hfits := hf.fits
  rw [applyValue]
  cases hk : f.kind with
  | hat =>
    rw [if_pos rfl]
    refine ensures_bind normalizeHat_value fun r hr => ?_
    apply ensures_pure
    intro hvalid
    refine ⟨?_, fun kind index hother => ?_, rfl, rfl⟩
    · unfold Shows
      rw [hk]
      exact hr hvalid
    · cases kind with
      | button => rfl
      | axis => exact ⟨rfl, rfl⟩
      | hat => exact fun hindex => absurd ⟨hk, (hhat hk).trans hindex.symm⟩ hother
  | button =>
    rw [hk] at hfits
    have hindex : f.index < 32 := hfits
    rw [if_neg (by decide), if_pos rfl]
    apply ensures_ite
    · intro _
      exact ensures_pure (by rintro ⟨⟩)
    · intro _
      refine ensures_bind (ensures_of_safe (safe_shiftLeft32 hindex)) fun mask hmask => ?_
      apply ensures_pure
      intro _
      have hzero : value ≠ 0 ↔ value.toInt ≠ 0 := by
        rw [not_iff_not, ← Int32.toInt_inj]
        rfl
      have hbit : ∀ i, (if value ≠ 0 then s.buttons ||| mask
          else s.buttons &&& ~~~mask).toNat.testBit i =
            if i = f.index then decide (value.toInt ≠ 0) else s.buttons.toNat.testBit i := by
        intro i
        rw [hmask]
        by_cases hvalue : value ≠ 0
        · rw [if_pos hvalue, testBit_set _ hindex, decide_eq_true (hzero.mp hvalue)]
        · rw [if_neg hvalue, testBit_clear _ hindex,
            decide_eq_false (fun h => hvalue (hzero.mpr h))]
      refine ⟨?_, fun kind index hother => ?_, rfl, rfl⟩
      · unfold Shows
        rw [hk]
        dsimp only
        rw [hbit, if_pos rfl]
      · cases kind with
        | button =>
          show (if value ≠ 0 then _ else _ : UInt32).toNat.testBit index = _
          rw [hbit, if_neg (fun h => hother ⟨hk, h.symm⟩)]
        | axis => exact ⟨rfl, rfl⟩
        | hat => exact fun _ => rfl
  | axis =>
    rw [hk] at hfits
    have hindex : f.index < 9 := hfits
    rw [if_neg (show ¬ FieldKind.axis = .hat by decide),
      if_neg (show ¬ FieldKind.axis = .button by decide)]
    apply ensures_ite
    · intro _
      exact ensures_pure (by rintro ⟨⟩)
    · intro hin
      apply ensures_ite
      · intro _
        exact ensures_pure (by rintro ⟨⟩)
      · intro hne
        refine ensures_bind (normalizeAxis_value (inRange_iff.mp hin) hne) fun axis haxis => ?_
        refine ensures_bind (ensures_of_safe (safe_storeAt hindex)) fun axes haxes => ?_
        refine ensures_bind (ensures_of_safe (safe_shiftLeft32 (by omega))) fun bit hbit => ?_
        apply ensures_pure
        intro _
        refine ⟨?_, fun kind index hother => ?_, rfl, rfl⟩
        · unfold Shows
          rw [hk]
          dsimp only
          rw [hbit, testBit_present _ hindex, if_pos rfl, haxes, Vector.getElem?_set_self]
          exact ⟨rfl, congrArg some haxis⟩
        · cases kind with
          | button => rfl
          | axis =>
            have hneq : f.index ≠ index := fun h => hother ⟨hk, h⟩
            constructor
            · show (s.axesPresent ||| bit.toUInt16).toNat.testBit index = _
              rw [hbit, testBit_present _ hindex, if_neg (Ne.symm hneq)]
            · show axes[index]? = _
              rw [haxes, Vector.getElem?_set_ne _ hneq]
          | hat => exact fun _ => rfl

theorem applyField_applied {layouts : List Layout} {f : Field} {reportId : UInt16}
    {report : List UInt8} (hf : FieldSound layouts f) (hreport : Holds layouts reportId report)
    (hid : f.reportId = reportId) (hhat : HatIndex f) (s : Snapshot) :
    Ensures (applyField s f report) fun r => r.1 = true →
      Takes f (fieldValue f report) ∧ Applied s f (fieldValue f report) r.2 := by
  refine ensures_bind (ensures_of_safe (safe_readSound hf hreport hid)) fun value hvalue => ?_
  rw [← hvalue]
  intro r hr hvalid
  constructor
  · by_contra hno
    by_cases hfits : HatFits f value.toInt
    · exact hno ((safe_value (safe_applyValue hf hfits) hr).mp hvalid)
    · rw [applyValue_faults hfits] at hr
      cases hr
  · exact applyValue_applied hf hhat s value r hr hvalid

structure AllApplied (fields : List Field) (reportId : UInt16) (report : List UInt8)
    (s t : Snapshot) : Prop where
  shows : ∀ f ∈ fields, f.reportId = reportId →
    Takes f (fieldValue f report) ∧ Shows t f (fieldValue f report)
  others : ∀ kind index, (∀ f ∈ fields, f.reportId = reportId →
    ¬ (f.kind = kind ∧ f.index = index)) → SameControl s t kind index
  generation : t.generation = s.generation
  connected : t.connected = s.connected

theorem applyFields_applied {layouts : List Layout} {reportId : UInt16} {report : List UInt8}
    (hreport : Holds layouts reportId report) {fields : List Field}
    (hsound : ∀ f ∈ fields, FieldSound layouts f) (hhat : ∀ f ∈ fields, HatIndex f)
    (hdistinct : Distinct fields) (s : Snapshot) :
    Ensures (applyFields reportId report fields s) fun r => r.1 = true →
      AllApplied fields reportId report s r.2 := by
  induction fields generalizing s with
  | nil =>
    apply ensures_pure
    intro _
    exact ⟨fun g hg => absurd hg List.not_mem_nil, fun kind index _ => .refl s kind index, rfl,
      rfl⟩
  | cons f fields ih =>
    obtain ⟨hfirst, hrest⟩ := List.pairwise_cons.mp hdistinct
    have ih := ih (fun g hg => hsound g (List.mem_cons_of_mem f hg))
      (fun g hg => hhat g (List.mem_cons_of_mem f hg)) hrest
    rw [applyFields]
    apply ensures_ite
    · intro hid
      refine ensures_bind (applyField_applied (hsound f List.mem_cons_self) hreport hid
        (hhat f List.mem_cons_self) s) fun r hr => ?_
      apply ensures_ite
      · intro hvalid
        obtain ⟨htakes, happlied⟩ := hr hvalid
        refine ensures_mono (ih r.2) fun r' hr' hok => ?_
        have hlater := hr' hok
        constructor
        · intro g hg hgid
          rcases List.mem_cons.mp hg with rfl | hmore
          · -- the later fields are other controls
            have hsame := hlater.others g.kind g.index fun g' hg' _ hcontrol =>
              hfirst g' hg' ⟨hcontrol.1.symm, hcontrol.2.symm⟩
            exact ⟨htakes, happlied.shows.kept hsame (hhat g List.mem_cons_self)⟩
          · exact hlater.shows g hmore hgid
        · intro kind index hother
          exact (happlied.others kind index (hother f List.mem_cons_self hid)).trans
            (hlater.others kind index fun g hg => hother g (List.mem_cons_of_mem f hg))
        · exact hlater.generation.trans happlied.generation
        · exact hlater.connected.trans happlied.connected
      · intro _
        exact ensures_pure (by rintro ⟨⟩)
    · intro hid
      refine ensures_mono (ih s) fun r' hr' hok => ?_
      have hlater := hr' hok
      constructor
      · intro g hg hgid
        rcases List.mem_cons.mp hg with rfl | hmore
        · exact absurd hgid hid
        · exact hlater.shows g hmore hgid
      · intro kind index hother
        exact hlater.others kind index fun g hg => hother g (List.mem_cons_of_mem f hg)
      · exact hlater.generation
      · exact hlater.connected

/-- A rejected report keeps the state; an accepted one got as far as its
fields and makes their snapshot the current one. -/
structure Outcome (p : Parser) (report : List UInt8) (r : Status × Parser) : Prop where
  rejected : r.1 ≠ .ok → Kept p r.2
  accepted : r.1 = .ok → Reaches p report ∧ Reported p r.2 ∧
    applyFields (reportIdIn p report) report p.fields p.current = .ok (true, r.2.current)

theorem outcome_rejected {p q : Parser} {report : List UInt8} (h : Kept p q) {status : Status}
    (hstatus : status ≠ .ok) (reason : RejectReason) :
    Outcome p report (rejectReport q status reason) where
  rejected := fun _ => ⟨h.configured, h.current, h.queue, h.queueHead, h.queueCount,
    h.overflowPending⟩
  accepted := fun hok => absurd hok hstatus

theorem acceptReport_current (p : Parser) (hcount : p.queueCount ≤ 16) (next : Snapshot) :
    Ensures (acceptReport p next) fun r => r.1 = .ok ∧ r.2.current = next := by
  rw [acceptReport]
  dsimp only
  apply ensures_ite
  · intro hsame
    apply ensures_pure
    exact ⟨rfl, hsame.symm⟩
  · intro _
    refine ensures_bind (P := fun q => q.current = next) ?_ fun q hq => ensures_pure ⟨rfl, hq⟩
    intro q hq
    obtain ⟨t, ht, henqueued⟩ := enqueueSnapshot_of (p := { p with
      current := next
      diagnostics := { p.diagnostics with
        reportsAccepted := p.diagnostics.reportsAccepted+1
        lastStatus := .ok
        lastRejectReason := .none
        stateChanges := p.diagnostics.stateChanges+1 } }) hcount
    rw [ht] at hq
    rw [← Except.ok.inj hq]
    exact henqueued.current

theorem parseFields_outcome {p : Parser} {report : List UInt8} (hcount : p.queueCount ≤ 16)
    (hreaches : Reaches p report) :
    Ensures (parseFields (countReport p report.length) (reportIdIn p report) report)
      (Outcome p report) := by
  have hkept : Kept p (countReport p report.length) := ⟨rfl, rfl, rfl, rfl, rfl, rfl⟩
  rw [parseFields]
  intro r hr
  cases happly : applyFields (reportIdIn p report) report
      (countReport p report.length).fields (countReport p report.length).current with
  | error fault =>
    rw [happly] at hr
    cases hr
  | ok applied =>
    obtain ⟨valid, next⟩ := applied
    rw [happly, ok_bind] at hr
    cases valid with
    | false =>
      have hr : pure (rejectReport _ _ _) = Except.ok r := hr
      rw [← Except.ok.inj hr]
      exact outcome_rejected hkept (by decide) _
    | true =>
      have hr : acceptReport (countReport p report.length) next = .ok r := hr
      obtain ⟨hok, hcurrent⟩ := acceptReport_current (countReport p report.length) hcount next r hr
      constructor
      · exact fun hfail => absurd hok hfail
      · intro _
        refine ⟨hreaches, acceptReport_ensures hkept hcount next r hr, ?_⟩
        rw [hcurrent]
        exact happly

theorem parseInput_outcome {p : Parser} (hcount : p.queueCount ≤ 16) (report : List UInt8) :
    Ensures (parseInput p report) (Outcome p report) := by
  have hkept : Kept p (countReport p report.length) := ⟨rfl, rfl, rfl, rfl, rfl, rfl⟩
  rw [parseInput]
  apply ensures_ite
  · intro _
    exact ensures_pure (outcome_rejected (.refl p) (by decide) _)
  · intro hempty
    dsimp only
    apply ensures_ite
    · intro _
      exact ensures_pure (outcome_rejected hkept (by decide) _)
    · intro hconfigured
      apply ensures_ite
      · intro _
        exact ensures_pure (outcome_rejected hkept (by decide) _)
      · intro hconnected
        apply ensures_ite
        · intro _
          exact ensures_pure (outcome_rejected hkept (by decide) _)
        · intro hlong
          have hidof : reportIdOf (countReport p report.length) report =
              .ok (reportIdIn p report) := reportIdOf_eq hempty
          rw [hidof, ok_bind]
          split
          · apply ensures_pure
            apply outcome_rejected
            · exact hkept.trans ⟨rfl, rfl, rfl, rfl, rfl, rfl⟩
            · exact Status.noConfusion
          · rename_i layout hlayout
            apply ensures_ite
            · intro _
              apply ensures_pure
              apply outcome_rejected
              · exact hkept.trans ⟨rfl, rfl, rfl, rfl, rfl, rfl⟩
              · exact Status.noConfusion
            · intro hshort
              have hup : p.current.connected = true := by
                cases hc : p.current.connected with
                | false => exact absurd hc hconnected
                | true => rfl
              exact parseFields_outcome hcount ⟨configured_of_not hconfigured, hup, hempty,
                by omega, layout, hlayout, by omega⟩

structure SameForm (p q : Parser) : Prop where
  fields : q.fields = p.fields
  layouts : q.reportLayouts = p.reportLayouts
  ids : q.reportIdsDeclared = p.reportIdsDeclared
  configured : q.configured = p.configured

theorem SameForm.refl (p : Parser) : SameForm p p := ⟨rfl, rfl, rfl, rfl⟩

theorem SameForm.trans {p q r : Parser} (h : SameForm p q) (h' : SameForm q r) : SameForm p r where
  fields := h'.fields.trans h.fields
  layouts := h'.layouts.trans h.layouts
  ids := h'.ids.trans h.ids
  configured := h'.configured.trans h.configured

theorem makeRoom_form (p : Parser) : SameForm p (makeRoom p) := by
  rw [makeRoom]
  split
  · exact ⟨rfl, rfl, rfl, rfl⟩
  · exact .refl p

theorem enqueueSnapshot_form (p : Parser) : Ensures (enqueueSnapshot p) (SameForm p) := by
  rw [enqueueSnapshot, storeSnapshot]
  have hroom := makeRoom_form p
  refine ensures_bind (ensures_any _) fun tail _ => ?_
  refine ensures_bind (ensures_any _) fun queue _ => ?_
  refine ensures_bind (ensures_any _) fun count _ => ?_
  exact ensures_pure ⟨hroom.fields, hroom.layouts, hroom.ids, hroom.configured⟩

theorem connectionOpened_form (p : Parser) :
    Ensures (connectionOpened p) fun r => SameForm p r.2 := by
  rw [connectionOpened]
  apply ensures_ite
  · intro _
    exact ensures_pure (.refl p)
  · intro _
    apply ensures_ite
    · intro _
      exact ensures_pure (.refl p)
    · intro _
      refine ensures_bind (enqueueSnapshot_form _) fun q hq => ?_
      exact ensures_pure ⟨hq.fields, hq.layouts, hq.ids, hq.configured⟩

theorem connectionClosed_form (p : Parser) :
    Ensures (connectionClosed p) fun r => SameForm p r.2 := by
  rw [connectionClosed]
  apply ensures_ite
  · intro _
    exact ensures_pure (.refl p)
  · intro _
    apply ensures_ite
    · intro _
      exact ensures_pure (.refl p)
    · intro _
      refine ensures_bind (enqueueSnapshot_form _) fun q hq => ?_
      exact ensures_pure ⟨hq.fields, hq.layouts, hq.ids, hq.configured⟩

theorem next_form (p : Parser) : Ensures (next p) fun r => SameForm p r.2.2 := by
  rw [next]
  apply ensures_ite
  · intro _
    exact ensures_pure (.refl p)
  · intro _
    apply ensures_ite
    · intro _
      exact ensures_pure ⟨rfl, rfl, rfl, rfl⟩
    · intro _
      apply ensures_ite
      · intro _
        exact ensures_pure (.refl p)
      · intro _
        refine ensures_bind (ensures_any _) fun snapshot _ => ?_
        refine ensures_bind (ensures_any _) fun head _ => ?_
        exact ensures_pure ⟨rfl, rfl, rfl, rfl⟩

theorem acceptReport_form {p q : Parser} (h : SameForm p q) (next : Snapshot) :
    Ensures (acceptReport q next) fun r => SameForm p r.2 := by
  rw [acceptReport]
  dsimp only
  apply ensures_ite
  · intro _
    exact ensures_pure ⟨h.fields, h.layouts, h.ids, h.configured⟩
  · intro _
    refine ensures_bind (enqueueSnapshot_form _) fun t ht => ?_
    exact ensures_pure (h.trans ⟨ht.fields, ht.layouts, ht.ids, ht.configured⟩)

theorem rejectReport_form {p q : Parser} (h : SameForm p q) (status : Status)
    (reason : RejectReason) : SameForm p (rejectReport q status reason).2 :=
  ⟨h.fields, h.layouts, h.ids, h.configured⟩

theorem parseInput_form (p : Parser) (report : List UInt8) :
    Ensures (parseInput p report) fun r => SameForm p r.2 := by
  have hcounted : SameForm p (countReport p report.length) := ⟨rfl, rfl, rfl, rfl⟩
  rw [parseInput]
  apply ensures_ite
  · intro _
    exact ensures_pure (rejectReport_form (.refl p) _ _)
  · intro _
    dsimp only
    apply ensures_ite
    · intro _
      exact ensures_pure (rejectReport_form hcounted _ _)
    · intro _
      apply ensures_ite
      · intro _
        exact ensures_pure (rejectReport_form hcounted _ _)
      · intro _
        apply ensures_ite
        · intro _
          exact ensures_pure (rejectReport_form hcounted _ _)
        · intro _
          refine ensures_bind (ensures_any _) fun reportId _ => ?_
          split
          · apply ensures_pure
            apply rejectReport_form
            exact hcounted.trans ⟨rfl, rfl, rfl, rfl⟩
          · apply ensures_ite
            · intro _
              apply ensures_pure
              apply rejectReport_form
              exact hcounted.trans ⟨rfl, rfl, rfl, rfl⟩
            · intro _
              rw [parseFields]
              refine ensures_bind (ensures_any _) fun r _ => ?_
              apply ensures_ite
              · intro _
                exact acceptReport_form hcounted _
              · intro _
                exact ensures_pure (rejectReport_form hcounted _ _)

theorem ensures_map {α β : Type} {P : α → Prop} {Q : β → Prop} {m : Checked α} {f : α → β}
    (hm : Ensures m P) (h : ∀ a, P a → Q (f a)) : Ensures (f <$> m) Q := by
  cases m with
  | error fault =>
    intro b hb
    cases hb
  | ok a => exact ensures_pure (h a (hm a rfl))

theorem perform_form (p : Parser) (op : Op) : Ensures (perform p op) (SameForm p) := by
  cases op with
  | opened => exact ensures_map (connectionOpened_form p) fun _ h => h
  | closed => exact ensures_map (connectionClosed_form p) fun _ h => h
  | input report => exact ensures_map (parseInput_form p report) fun _ h => h
  | next => exact ensures_map (next_form p) fun _ h => h

theorem run_form (p : Parser) (ops : List Op) :
    Ensures (GamepadBounds.run p ops) (SameForm p) := by
  induction ops generalizing p with
  | nil => exact ensures_pure (.refl p)
  | cons op ops ih =>
    rw [GamepadBounds.run, List.foldlM_cons]
    refine ensures_bind (perform_form p op) fun q hq => ?_
    exact ensures_mono (ih q) fun r hr => hq.trans hr

theorem hat_found {ds : List Declaration} {f : Field} (h : Found ds f) : HatIndex f := by
  obtain ⟨before, d, later, i, _, _, _, hslot⟩ := h
  intro hk
  rw [slotField, usageField, Option.map_eq_some_iff] at hslot
  obtain ⟨⟨kind, index⟩, hmapped, rfl⟩ := hslot
  obtain ⟨usage, _, hcontrol⟩ := Option.bind_eq_some_iff.mp hmapped
  have hk : kind = .hat := hk
  show index = 0
  rw [GamepadDeclared.control] at hcontrol
  split at hcontrol
  · cases hcontrol
    cases hk
  · split at hcontrol
    · cases hcontrol
      rfl
    · split at hcontrol
      · cases hcontrol
        cases hk
      · cases hcontrol

theorem configure_configured (descriptor : List UInt8) :
    Ensures (configure descriptor) fun r => r.1 = .ok → r.2.configured = true := by
  rw [configure]
  apply ensures_ite
  · intro _
    exact ensures_pure (by rintro ⟨⟩)
  · intro _
    dsimp only
    apply ensures_ite
    · intro _
      exact ensures_pure (by rintro ⟨⟩)
    · intro _
      refine ensures_bind (ensures_any _) fun r _ => ?_
      apply ensures_ite
      · intro hfail
        exact ensures_pure fun hok => absurd hok hfail
      · intro _
        exact ensures_pure fun _ => rfl

def padDescriptor : List UInt8 :=
  [0x05, 0x01, 0x09, 0x05, 0xA1, 0x01, 0x85, 0x01, 0x05, 0x09, 0x19, 0x01, 0x29, 0x04, 0x15, 0x00,
    0x25, 0x01, 0x75, 0x01, 0x95, 0x04, 0x81, 0x02, 0x81, 0x03, 0x85, 0x02, 0x05, 0x01, 0x09, 0x30,
    0x15, 0x81, 0x25, 0x7F, 0x75, 0x08, 0x95, 0x01, 0x81, 0x02, 0xC0]

def padParser : Parser :=
  match configure padDescriptor with
  | .ok (_, p) => p
  | .error _ => init

def padConnected : Parser :=
  match GamepadBounds.run padParser [.opened, .input [2, 0x40]] with
  | .ok p => p
  | .error _ => init

def padPressed : Parser :=
  match parseInput padConnected [1, 0x05] with
  | .ok (_, p) => p
  | .error _ => init

/-- A usage in front of a range: seven buttons, the first of them by itself. -/
def mixedDescriptor : List UInt8 :=
  [0x05, 0x01, 0x09, 0x05, 0xA1, 0x01, 0x05, 0x09, 0x09, 0x01, 0x19, 0x02, 0x29, 0x08, 0x15, 0x00,
    0x25, 0x01, 0x75, 0x01, 0x95, 0x07, 0x81, 0x02, 0x95, 0x01, 0x81, 0x03, 0xC0]

def mixedConnected : Parser :=
  match configure mixedDescriptor with
  | .ok (_, p) =>
    match GamepadBounds.run p [.opened] with
    | .ok q => q
    | .error _ => init
  | .error _ => init

def mixedPressed : Parser :=
  match parseInput mixedConnected [0x02] with
  | .ok (_, p) => p
  | .error _ => init

end JaszczurHal.GamepadExtraction
