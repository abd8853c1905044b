import JaszczurHal.GamepadItems
import JaszczurHal.GamepadQueue
import JaszczurHal.GamepadUsages

/-!
# The fields that a descriptor declares

Every input item takes the settings of the items before it. Its slots follow
the slots of the earlier input items of the same report, padding and arrays
included, and a slot whose usage is a control of the gamepad is a field. An
accepted descriptor leaves in the parser the fields of the usages that it finds,
which are the declared ones where the usages of every input item are in order.
-/

set_option autoImplicit false

namespace JaszczurHal.GamepadDeclared
open HalStatus CheckedArith GamepadParser GamepadQueue GamepadItems GamepadDescriptor GamepadUsages

structure Context where
  globals : Globals
  stack : List Globals
  order : List LocalItem
  /-- For each open collection, whether it belongs to a gamepad. -/
  collections : List Bool
  idsDeclared : Bool

structure Declaration where
  globals : Globals
  order : List LocalItem
  flags : UInt32
  gamepad : Bool
  deriving DecidableEq

def Context.locals (c : Context) : Locals := localsOf c.order

def Declaration.locals (d : Declaration) : Locals := localsOf d.order

def start : Context := ⟨⟨0, 0, 0, reportIdUndefined, 0, 0⟩, [], [], [], false⟩

def isGamepad (usage : ℕ) : Bool := decide (usage = 0x00010004) || decide (usage = 0x00010005)

def openUsage (l : Locals) : Option ℕ :=
  match l.usages.getLast? with
  | some usage => some usage.toNat
  | none => slotUsage l 0

def Context.inside (c : Context) : Bool := c.collections.getLast?.getD false

def Context.afterGlobal (c : Context) (item : Item) : Context :=
  match item.tag.toNat with
  | 0 => { c with globals := { c.globals with usagePage := item.value.toUInt16 } }
  | 1 => { c with globals := { c.globals with logicalMinimum := item.signedValue } }
  | 2 => { c with globals := { c.globals with logicalMaximum := item.signedValue } }
  | 7 => { c with globals := { c.globals with reportSize := item.value.toUInt8 } }
  | 8 => { c with
      globals := { c.globals with reportId := item.value.toUInt16 }, idsDeclared := true }
  | 9 => { c with globals := { c.globals with reportCount := item.value.toUInt8 } }
  | 10 => { c with stack := c.stack ++ [c.globals] }
  | 11 => { c with globals := c.stack.getLast?.getD c.globals, stack := c.stack.dropLast }
  | _ => c

def Context.afterLocal (c : Context) (item : Item) : Context :=
  let usage := localUsageValue item c.globals.usagePage
  match item.tag.toNat with
  | 0 => { c with order := c.order ++ [.usage usage] }
  | 1 => { c with order := c.order ++ [.minimum usage] }
  | 2 => { c with order := c.order ++ [.maximum usage] }
  | _ => c

def Context.afterMain (c : Context) (item : Item) : Context :=
  match item.tag.toNat with
  | 10 => { c with
      order := []
      collections := c.collections ++ [c.inside || (decide (item.value = collectionApplication) &&
        (openUsage c.locals).any isGamepad)] }
  | 12 => { c with order := [], collections := c.collections.dropLast }
  | _ => { c with order := [] }

def Context.after (c : Context) (item : Item) : Context :=
  match item.type.toNat with
  | 1 => c.afterGlobal item
  | 2 => c.afterLocal item
  | 0 => c.afterMain item
  | _ => c

def Context.declares (c : Context) (item : Item) : List Declaration :=
  if item.type.toNat = 0 ∧ item.tag.toNat = 8 then [⟨c.globals, c.order, item.value, c.inside⟩]
  else []

def Context.final (c : Context) : List Item → Context
  | [] => c
  | item :: items => (c.after item).final items

def declarationsFrom (c : Context) : List Item → List Declaration
  | [] => []
  | item :: items => c.declares item ++ declarationsFrom (c.after item) items

def declarations (descriptor : List UInt8) : List Declaration :=
  declarationsFrom start (itemsOf descriptor)

def idsDeclared (descriptor : List UInt8) : Bool := (start.final (itemsOf descriptor)).idsDeclared

def control (usage : ℕ) : Option (FieldKind × ℕ) :=
  let page := usage/2^16
  let id := usage%2^16
  if page = 9 ∧ 1 ≤ id ∧ id ≤ 32 then some (.button, id-1)
  else if page = 1 ∧ id = 0x39 then some (.hat, 0)
  else if page = 1 ∧ 0x30 ≤ id ∧ id ≤ 0x38 then some (.axis, id-0x30)
  else none

def Declaration.bits (d : Declaration) : ℕ :=
  d.globals.reportSize.toNat*d.globals.reportCount.toNat

def Declaration.HasFields (d : Declaration) : Prop :=
  d.gamepad = true ∧ d.flags &&& mainFlagConstant = 0 ∧ d.flags.toUInt8 &&& mainFlagVariable ≠ 0

def bitsBefore (past : List Declaration) (reportId : UInt16) : ℕ :=
  ((past.filter fun d => d.globals.reportId = reportId).map Declaration.bits).sum

def usageField (first : ℕ) (d : Declaration) (i : ℕ) (usage : Option ℕ) : Option Field :=
  (usage.bind control).map fun (kind, index) =>
    { logicalMinimum := d.globals.logicalMinimum
      logicalMaximum := d.globals.logicalMaximum
      reportId := d.globals.reportId
      bitPosition := first+i*d.globals.reportSize.toNat
      bitSize := d.globals.reportSize
      index := index
      mainFlags := d.flags.toUInt8
      kind := kind }

def slotField (first : ℕ) (d : Declaration) (i : ℕ) : Option Field :=
  usageField first d i (slotUsage d.locals i)

/-- A field of the usages that the parser finds. -/
def Found (ds : List Declaration) (f : Field) : Prop :=
  ∃ before d later i, ds = before ++ d :: later ∧ d.HasFields ∧
    i < d.globals.reportCount.toNat ∧ slotField (bitsBefore before d.globals.reportId) d i = some f

/-- A field of the usages that the descriptor declares. -/
def Declared (ds : List Declaration) (f : Field) : Prop :=
  ∃ before d later i, ds = before ++ d :: later ∧ d.HasFields ∧
    i < d.globals.reportCount.toNat ∧
    usageField (bitsBefore before d.globals.reportId) d i (declaredUsage d.order i) = some f

def Orderly (ds : List Declaration) : Prop :=
  ∀ d ∈ ds, d.HasFields → InOrder d.order d.globals.reportCount.toNat

instance (d : Declaration) : Decidable d.HasFields := inferInstanceAs (Decidable (_ ∧ _))

instance (ds : List Declaration) : Decidable (Orderly ds) :=
  inferInstanceAs (Decidable (∀ d ∈ ds, _))

/-- Where the usages are in order, the parser finds the declared fields. -/
theorem found_declared {ds : List Declaration} (h : Orderly ds) (f : Field) :
    Found ds f ↔ Declared ds f := by
  have hslot {before later : List Declaration} {d : Declaration} {i : ℕ}
      (hsplit : ds = before ++ d :: later) (hfields : d.HasFields)
      (hi : i < d.globals.reportCount.toNat) : slotUsage d.locals i = declaredUsage d.order i := by
    apply slot_declared (h d ?_ hfields) hi
    simp [hsplit]
  constructor
  · rintro ⟨before, d, later, i, hsplit, hfields, hi, hfound⟩
    rw [slotField, hslot hsplit hfields hi] at hfound
    exact ⟨before, d, later, i, hsplit, hfields, hi, hfound⟩
  · rintro ⟨before, d, later, i, hsplit, hfields, hi, hfound⟩
    rw [← hslot hsplit hfields hi] at hfound
    exact ⟨before, d, later, i, hsplit, hfields, hi, hfound⟩

theorem toNat_page (usage : UInt32) : (usage >>> 16).toUInt16.toNat = usage.toNat/2^16 := by
  have hlt := usage.toNat_lt
  rw [UInt32.toNat_toUInt16, UInt32.toNat_shiftRight, Nat.shiftRight_eq_div_pow]
  show usage.toNat/2^16%2^16 = _
  omega

theorem toNat_id (usage : UInt32) : usage.toUInt16.toNat = usage.toNat%2^16 :=
  UInt32.toNat_toUInt16 usage

theorem axis_control (usage : UInt16) : axisIndexForUsage usage =
    if 0x30 ≤ usage.toNat ∧ usage.toNat ≤ 0x38 then some (usage.toNat-0x30) else none := by
  have hx : usageX.toNat = 0x30 := rfl
  have hwheel : usageWheel.toNat = 0x38 := rfl
  have hcount : axisCount = 9 := rfl
  simp only [axisIndexForUsage, UInt16.lt_iff_toNat_lt, hx, hwheel, hcount]
  by_cases hrange : 0x30 ≤ usage.toNat ∧ usage.toNat ≤ 0x38
  · have hsub : (usage-usageX).toNat = usage.toNat-0x30 := by
      rw [UInt16.toNat_sub_of_le _ _ (by rw [UInt16.le_iff_toNat_le, hx]; exact hrange.1), hx]
    rw [if_neg (by omega), hsub, if_pos (by omega), if_pos hrange]
  · rw [if_pos (by omega), if_neg hrange]

theorem mapped_control {item : UsageField} {usage : UInt32}
    (hpage : item.usagePage = (usage >>> 16).toUInt16) (hid : item.usage = usage.toUInt16) :
    mappedField item = control usage.toNat := by
  have hbutton : item.usagePage = usagePageButton ↔ usage.toNat/2^16 = 9 := by
    rw [← UInt16.toNat_inj, hpage, toNat_page]
    rfl
  have hdesktop : item.usagePage = usagePageDesktop ↔ usage.toNat/2^16 = 1 := by
    rw [← UInt16.toNat_inj, hpage, toNat_page]
    rfl
  have hhat : item.usage = usageHatSwitch ↔ usage.toNat%2^16 = 0x39 := by
    rw [← UInt16.toNat_inj, hid, toNat_id]
    rfl
  have hnumber : item.usage.toNat = usage.toNat%2^16 := by rw [hid, toNat_id]
  have hcount : buttonCount = 32 := rfl
  simp only [mappedField, control, axis_control, hbutton, hdesktop, hhat, hnumber, hcount, ne_eq]
  generalize usage.toNat/2^16 = page
  generalize usage.toNat%2^16 = id
  by_cases hpage1 : page = 1
  · by_cases hswitch : id = 0x39
    · simp [hpage1, hswitch]
    · simp [hpage1, hswitch, apply_ite]
  · simp [hpage1]

theorem isGamepad_eq (usage : UInt32) :
    acceptedApplicationUsage usage = isGamepad usage.toNat := by
  have hlt := usage.toNat_lt
  have hdesktop : (usage >>> 16).toUInt16 = usagePageDesktop ↔ usage.toNat/2^16 = 1 := by
    rw [← UInt16.toNat_inj, toNat_page]
    rfl
  have hpad : usage.toUInt16 = usageGamePad ↔ usage.toNat%2^16 = 5 := by
    rw [← UInt16.toNat_inj, toNat_id]
    rfl
  have hstick : usage.toUInt16 = usageJoystick ↔ usage.toNat%2^16 = 4 := by
    rw [← UInt16.toNat_inj, toNat_id]
    rfl
  rw [Bool.eq_iff_iff]
  simp only [acceptedApplicationUsage, isGamepad, Bool.and_eq_true, Bool.or_eq_true,
    decide_eq_true_eq, hdesktop, hpad, hstick]
  omega

theorem toNat_slot {i : ℕ} (h : i < 256) : (UInt32.ofNat i).toNat = i := by
  rw [UInt32.toNat_ofNat']
  omega

def SameUse (a b : ℕ) : Prop := a = b ∨ a = 2^32-1 ∧ b < 2^16

theorem SameUse.control {a b : ℕ} (h : SameUse a b) : control a = control b := by
  rcases h with rfl | ⟨rfl, hb⟩
  · rfl
  · have hpage : b/2^16 = 0 := by omega
    have hlast : (2^32-1)/2^16 = 65535 := rfl
    simp only [GamepadDeclared.control, hpage, hlast]
    simp

theorem SameUse.isGamepad {a b : ℕ} (h : SameUse a b) : isGamepad a = isGamepad b := by
  rcases h with rfl | ⟨rfl, hb⟩
  · rfl
  · have h4 : b ≠ 0x00010004 := by omega
    have h5 : b ≠ 0x00010005 := by omega
    simp [GamepadDeclared.isGamepad, h4, h5]

/-- The number `i` of a range, as the parser computes it. With all usages in
the range the count wraps to zero. -/
theorem range_sameUse {low high : UInt32} {i : ℕ} (hi : i < 256) (h : low ≤ high) :
    SameUse (low+(if UInt32.ofNat i < high-low+1 then UInt32.ofNat i else high-low+1-1)).toNat
      (min (low.toNat+i) high.toNat) := by
  have hlow := low.toNat_lt
  have hhigh := high.toNat_lt
  have hle : low.toNat ≤ high.toNat := UInt32.le_iff_toNat_le.mp h
  have hsub : (high-low).toNat = high.toNat-low.toNat := UInt32.toNat_sub_of_le _ _ h
  have hone : (1 : UInt32).toNat = 1 := rfl
  have havailable : (high-low+1).toNat = (high.toNat-low.toNat+1)%2^32 := by
    rw [UInt32.toNat_add, hsub, hone]
  have hlast : low+(high-low+1-1) = high := by
    rw [UInt32.add_sub_cancel, UInt32.add_comm, UInt32.sub_add_cancel]
  by_cases hslot : UInt32.ofNat i < high-low+1
  · rw [if_pos hslot, UInt32.toNat_add, toNat_slot hi]
    rw [UInt32.lt_iff_toNat_lt, havailable, toNat_slot hi] at hslot
    left
    omega
  · rw [if_neg hslot, hlast]
    rw [UInt32.lt_iff_toNat_lt, havailable, toNat_slot hi] at hslot
    by_cases hall : high.toNat-low.toNat+1 = 2^32
    · right
      omega
    · left
      omega

/-- The parser finds the usage of a slot, or another one without a use. -/
theorem safe_slotUsage {l : Locals} {i : ℕ} (hi : i < 256) :
    Safe (localUsageAt l i) fun r =>
      Option.Rel SameUse (r.map UInt32.toNat) (slotUsage l i) := by
  rw [localUsageAt]
  apply safe_ite
  · intro hexplicit
    rw [readAt_of hexplicit]
    apply safe_pure
    simp only [slotUsage, List.getElem?_eq_getElem hexplicit, Option.map_some]
    exact Option.Rel.some (Or.inl rfl)
  · intro hmore
    have hnone : l.usages[i]? = none := List.getElem?_eq_none (by omega)
    rw [slotUsage, hnone]
    by_cases hrange : l.haveUsageMinimum ∧ l.haveUsageMaximum ∧ l.usageMinimum ≤ l.usageMaximum
    · rw [if_pos (by simp [hrange])]
      apply safe_pure
      simp only [if_pos hrange]
      exact Option.Rel.some (range_sameUse hi hrange.2.2)
    · rw [if_neg (by simpa using hrange)]
      simp only [if_neg hrange]
      apply safe_ite
      · intro hsome
        rw [readAt_of (by omega)]
        apply safe_pure
        rw [List.getLast?_eq_getElem?, List.getElem?_eq_getElem (by omega)]
        exact Option.Rel.some (Or.inl rfl)
      · intro hempty
        apply safe_pure
        have hnil : l.usages = [] := List.eq_nil_of_length_eq_zero (by omega)
        rw [hnil]
        exact Option.Rel.none

theorem safe_openUsage (l : Locals) : Safe (collectionUsage l) fun r =>
    (r.map acceptedApplicationUsage).getD false = (openUsage l).any isGamepad := by
  rw [collectionUsage]
  apply safe_ite
  · intro hsome
    rw [readAt_of (by omega)]
    apply safe_pure
    rw [openUsage, List.getLast?_eq_getElem?, List.getElem?_eq_getElem (by omega)]
    exact isGamepad_eq _
  · intro hempty
    have hnil : l.usages = [] := List.eq_nil_of_length_eq_zero (by omega)
    apply safe_mono (safe_slotUsage (by norm_num))
    intro r hr
    have hopen : openUsage l = slotUsage l 0 := by
      rw [openUsage, hnil]
      rfl
    rw [hopen]
    generalize slotUsage l 0 = expected at hr
    cases r with
    | none =>
      cases hr
      rfl
    | some usage =>
      cases hr with
      | some huse =>
        rw [Option.map_some, Option.getD_some, isGamepad_eq, huse.isGamepad]
        rfl

theorem ensures_of_safe {α : Type} {P : α → Prop} {m : Checked α} (h : Safe m P) : Ensures m P :=
  fun _ ha => safe_value h ha

theorem ensures_append {α : Type} (capacity : ℕ) (xs : List α) (x : α) :
    Ensures (appendAt capacity xs x) fun ys => ys = xs ++ [x] := by
  apply ensures_ite
  · intro _
    exact ensures_pure rfl
  · intro _ a ha
    cases ha

theorem ensures_narrow (bits n : ℕ) : Ensures (narrow bits n) fun m => m = n := by
  apply ensures_ite
  · intro _
    exact ensures_pure rfl
  · intro _ a ha
    cases ha

theorem ensures_mono {α : Type} {P Q : α → Prop} {m : Checked α} (hm : Ensures m P)
    (h : ∀ a, P a → Q a) : Ensures m Q :=
  fun a ha => h a (hm a ha)

def Distinct (fields : List Field) : Prop :=
  fields.Pairwise fun f g => ¬ (f.kind = g.kind ∧ f.index = g.index)

structure Extended (p : Parser) (more : List Field) (q : Parser) : Prop where
  fields : q.fields = p.fields ++ more
  layouts : q.reportLayouts = p.reportLayouts
  ids : q.reportIdsDeclared = p.reportIdsDeclared
  distinct : Distinct p.fields → Distinct q.fields

theorem Extended.refl (p : Parser) : Extended p [] p :=
  ⟨(List.append_nil _).symm, rfl, rfl, fun h => h⟩

theorem Extended.trans {p q r : Parser} {more more' : List Field} (h : Extended p more q)
    (h' : Extended q more' r) : Extended p (more ++ more') r where
  fields := by rw [h'.fields, h.fields, List.append_assoc]
  layouts := h'.layouts.trans h.layouts
  ids := h'.ids.trans h.ids
  distinct := fun hp => h'.distinct (h.distinct hp)

theorem distinct_append {fields : List Field} {f : Field} (h : Distinct fields)
    (hnew : duplicateField fields f.kind f.index = false) : Distinct (fields ++ [f]) := by
  rw [Distinct, List.pairwise_append]
  refine ⟨h, List.pairwise_singleton _ _, ?_⟩
  intro g hg f' hf'
  rw [List.mem_singleton.mp hf']
  intro hsame
  have hduplicate : duplicateField fields f.kind f.index = true := by
    rw [duplicateField, List.any_eq_true]
    exact ⟨g, hg, by simp [hsame]⟩
  rw [hduplicate] at hnew
  cases hnew

def fieldOf (item : UsageField) : Option Field :=
  (mappedField item).map fun (kind, index) =>
    { logicalMinimum := item.logicalMinimum
      logicalMaximum := item.logicalMaximum
      reportId := item.reportId
      bitPosition := item.bitPosition
      bitSize := item.bitSize
      index := index
      mainFlags := item.mainFlags
      kind := kind }

theorem appendField_extends (p : Parser) (item : UsageField) :
    Ensures (appendField p item) fun r => r.1 = .ok → Extended p (fieldOf item).toList r.2 := by
  rw [appendField, fieldOf]
  cases mappedField item with
  | none =>
    apply ensures_pure
    intro _
    exact ⟨(List.append_nil _).symm, rfl, rfl, fun h => h⟩
  | some mapped =>
    obtain ⟨kind, index⟩ := mapped
    apply ensures_ite
    · intro _
      exact ensures_pure (by rintro ⟨⟩)
    · intro _
      apply ensures_ite
      · intro _
        exact ensures_pure (by rintro ⟨⟩)
      · intro hnew
        apply ensures_ite
        · intro _
          exact ensures_pure (by rintro ⟨⟩)
        · intro _
          refine ensures_bind (ensures_append _ _ _) fun fields hfields => ?_
          apply ensures_pure
          intro _
          refine ⟨hfields, rfl, rfl, fun h => ?_⟩
          show Distinct fields
          rw [hfields]
          exact distinct_append h (by simpa using hnew)

def slotFields (first : ℕ) (d : Declaration) (i count : ℕ) : List Field :=
  (List.range' i count).filterMap (slotField first d)

theorem slotFields_succ (first : ℕ) (d : Declaration) (i count : ℕ) :
    slotFields first d i (count+1) =
      (slotField first d i).toList ++ slotFields first d (i+1) count := by
  rw [slotFields, slotFields, List.range'_succ, List.filterMap_cons]
  cases slotField first d i with
  | none => rfl
  | some f => rfl

variable {d : Declaration}

theorem slot_unused {first i : ℕ} (h : slotUsage d.locals i = none) :
    slotField first d i = none := by
  rw [slotField, h]
  rfl

/-- What the loop appends for a slot is the field of the slot. -/
theorem slot_used {first i expected : ℕ} {usage : UInt32} (h : slotUsage d.locals i = some expected)
    (huse : SameUse usage.toNat expected) :
    fieldOf {
      usagePage := (usage >>> 16).toUInt16
      usage := usage.toUInt16
      reportId := d.globals.reportId
      bitPosition := first+i*d.globals.reportSize.toNat
      logicalMinimum := d.globals.logicalMinimum
      logicalMaximum := d.globals.logicalMaximum
      bitSize := d.globals.reportSize
      mainFlags := d.flags.toUInt8 } = slotField first d i := by
  rw [fieldOf, slotField, usageField, h, mapped_control rfl rfl, huse.control]
  rfl

theorem collectFrom_extends (first : ℕ) (d : Declaration) (left i : ℕ) (hi : i+left ≤ 256)
    (p : Parser) :
    Ensures (collectFrom d.globals d.locals first d.flags.toUInt8 left i p) fun r =>
      r.1 = .ok → Extended p (slotFields first d i left) r.2 := by
  induction left generalizing i p with
  | zero =>
    apply ensures_pure
    intro _
    exact .refl p
  | succ left ih =>
    rw [collectFrom, slotFields_succ]
    refine ensures_bind (ensures_of_safe (safe_slotUsage (by omega))) fun usage husage => ?_
    cases usage with
    | none =>
      have hnone : slotUsage d.locals i = none := by
        generalize slotUsage d.locals i = expected at husage
        cases husage
        rfl
      rw [slot_unused hnone]
      refine ensures_mono (ih (i+1) (by omega) (ignoreUsages p 1)) fun r hr hok => ?_
      exact ⟨(hr hok).fields, (hr hok).layouts, (hr hok).ids, (hr hok).distinct⟩
    | some usage =>
      have hsome : ∃ expected, slotUsage d.locals i = some expected ∧
          SameUse usage.toNat expected := by
        generalize slotUsage d.locals i = expected at husage
        cases husage with
        | some huse => exact ⟨_, rfl, huse⟩
      obtain ⟨expected, hslot, huse⟩ := hsome
      refine ensures_bind (ensures_narrow _ _) fun offset hoffset => ?_
      refine ensures_bind (ensures_narrow _ _) fun position hposition => ?_
      refine ensures_bind (appendField_extends p _) fun r hr => ?_
      apply ensures_ite
      · intro hok
        have hfirst := hr hok
        rw [hposition, hoffset, slot_used hslot huse] at hfirst
        refine ensures_mono (ih (i+1) (by omega) r.2) fun r' hr' hok' => ?_
        exact hfirst.trans (hr' hok')
      · intro hfail
        apply ensures_pure
        intro hok
        exact absurd hok hfail

theorem bitsBefore_append (past : List Declaration) (d : Declaration) (reportId : UInt16) :
    bitsBefore (past ++ [d]) reportId =
      bitsBefore past reportId+if d.globals.reportId = reportId then d.bits else 0 := by
  rw [bitsBefore, bitsBefore, List.filter_append, List.map_append, List.sum_append]
  by_cases h : d.globals.reportId = reportId
  · simp [h]
  · simp [h]

theorem found_nil (f : Field) : ¬ Found [] f := by
  rintro ⟨before, d, later, i, hsplit, _⟩
  simp at hsplit

/-- The fields of one more input item are those of its slots. -/
theorem found_append (past : List Declaration) (d : Declaration) (f : Field) :
    Found (past ++ [d]) f ↔ Found past f ∨ d.HasFields ∧
      f ∈ slotFields (bitsBefore past d.globals.reportId) d 0 d.globals.reportCount.toNat := by
  have hslots : f ∈ slotFields (bitsBefore past d.globals.reportId) d 0
      d.globals.reportCount.toNat ↔ ∃ i < d.globals.reportCount.toNat,
        slotField (bitsBefore past d.globals.reportId) d i = some f := by
    simp [slotFields, List.mem_filterMap, List.mem_range'_1]
  rw [hslots]
  constructor
  · rintro ⟨before, e, later, i, hsplit, hfields, hi, hslot⟩
    rcases List.eq_nil_or_concat later with rfl | ⟨later', e', rfl⟩
    · obtain ⟨rfl, hlast⟩ := List.append_inj' hsplit rfl
      obtain rfl := List.singleton_inj.mp hlast
      exact Or.inr ⟨hfields, i, hi, hslot⟩
    · rw [List.concat_eq_append, ← List.cons_append, ← List.append_assoc] at hsplit
      obtain ⟨rfl, _⟩ := List.append_inj' hsplit rfl
      exact Or.inl ⟨before, e, later', i, rfl, hfields, hi, hslot⟩
  · rintro (⟨before, e, later, i, rfl, hfields, hi, hslot⟩ | ⟨hfields, i, hi, hslot⟩)
    · exact ⟨before, e, later ++ [d], i, by simp, hfields, hi, hslot⟩
    · exact ⟨past, d, [], i, rfl, hfields, hi, hslot⟩

def lengthOf (layouts : List Layout) (reportId : UInt16) : ℕ :=
  ((findReportLayout layouts reportId).map Layout.bitLength).getD 0

structure Follows (past : List Declaration) (ids : Bool) (p : Parser) : Prop where
  lengths : ∀ reportId, lengthOf p.reportLayouts reportId = bitsBefore past reportId
  fields : ∀ f, f ∈ p.fields ↔ Found past f
  distinct : Distinct p.fields
  ids : p.reportIdsDeclared = ids

structure Matches (past : List Declaration) (c : Context) (s : Scan) : Prop where
  globals : s.globals = c.globals
  stack : s.globalStack = c.stack
  locals : s.locals = c.locals
  collections : s.accepted = c.collections
  parser : Follows past c.idsDeclared s.parser

variable {past : List Declaration} {c : Context} {s : Scan} {item : Item}

theorem globalItem_matches (h : Matches past c s) : Ensures (globalItem item s) fun r =>
    r.1 = .ok → Matches past (c.afterGlobal item) r.2 := by
  obtain ⟨hglobals, hstack, hlocals, hcollections, hparser⟩ := h
  rw [globalItem, Context.afterGlobal]
  generalize item.tag.toNat = tag
  split
  · apply ensures_ite
    · intro _
      exact ensures_pure (by rintro ⟨⟩)
    · intro _
      exact ensures_pure fun _ =>
        ⟨by simp [Scan.setGlobals, hglobals], hstack, hlocals, hcollections, hparser⟩
  · exact ensures_pure fun _ =>
      ⟨by simp [Scan.setGlobals, hglobals], hstack, hlocals, hcollections, hparser⟩
  · exact ensures_pure fun _ =>
      ⟨by simp [Scan.setGlobals, hglobals], hstack, hlocals, hcollections, hparser⟩
  · apply ensures_ite
    · intro _
      exact ensures_pure (by rintro ⟨⟩)
    · intro _
      exact ensures_pure fun _ =>
        ⟨by simp [Scan.setGlobals, hglobals], hstack, hlocals, hcollections, hparser⟩
  · apply ensures_ite
    · intro _
      exact ensures_pure (by rintro ⟨⟩)
    · intro _
      exact ensures_pure fun _ => ⟨by simp [hglobals], hstack, hlocals, hcollections,
        ⟨hparser.lengths, hparser.fields, hparser.distinct, rfl⟩⟩
  · apply ensures_ite
    · intro _
      exact ensures_pure (by rintro ⟨⟩)
    · intro _
      exact ensures_pure fun _ =>
        ⟨by simp [Scan.setGlobals, hglobals], hstack, hlocals, hcollections, hparser⟩
  · apply ensures_ite
    · intro _
      exact ensures_pure (by rintro ⟨⟩)
    · intro _
      refine ensures_bind (ensures_append _ _ _) fun stack hpush => ?_
      exact ensures_pure fun _ =>
        ⟨hglobals, by simp [hpush, hstack, hglobals], hlocals, hcollections, hparser⟩
  · apply ensures_ite
    · intro _
      exact ensures_pure (by rintro ⟨⟩)
    · intro hsome
      refine ensures_bind (ensures_of_safe (safe_readAt (by omega))) fun g hg => ?_
      refine ensures_pure fun _ => ⟨?_, by simp [hstack], hlocals, hcollections, hparser⟩
      rw [← hstack, List.getLast?_eq_getElem?, List.getElem?_eq_getElem (by omega)]
      exact hg
  · exact ensures_pure fun _ => ⟨hglobals, hstack, hlocals, hcollections, hparser⟩
  · exact ensures_pure fun _ => ⟨hglobals, hstack, hlocals, hcollections, hparser⟩
  · exact ensures_pure fun _ => ⟨hglobals, hstack, hlocals, hcollections, hparser⟩
  · exact ensures_pure fun _ => ⟨hglobals, hstack, hlocals, hcollections, hparser⟩
  · exact ensures_pure (by rintro ⟨⟩)

theorem locals_recorded (c : Context) (item : LocalItem) :
    ({ c with order := c.order ++ [item] } : Context).locals = record c.locals item :=
  localsOf_snoc c.order item

theorem localItem_matches (h : Matches past c s) : Ensures (localItem item s) fun r =>
    r.1 = .ok → Matches past (c.afterLocal item) r.2 := by
  obtain ⟨hglobals, hstack, hlocals, hcollections, hparser⟩ := h
  rw [localItem, Context.afterLocal]
  dsimp only
  generalize item.tag.toNat = tag
  obtain _ | _ | _ | other := tag
  · apply ensures_ite
    · intro _
      exact ensures_pure (by rintro ⟨⟩)
    · intro _
      refine ensures_bind (ensures_append _ _ _) fun usages husages => ?_
      exact ensures_pure fun _ =>
        ⟨hglobals, hstack, by simp [locals_recorded, record, husages, hlocals, hglobals], hcollections,
          hparser⟩
  · exact ensures_pure fun _ =>
      ⟨hglobals, hstack, by simp [locals_recorded, record, hlocals, hglobals], hcollections, hparser⟩
  · exact ensures_pure fun _ =>
      ⟨hglobals, hstack, by simp [locals_recorded, record, hlocals, hglobals], hcollections, hparser⟩
  · exact ensures_pure fun _ => ⟨hglobals, hstack, hlocals, hcollections, hparser⟩

theorem insideGamepad_eq (h : s.accepted = c.collections) :
    Ensures (insideGamepad s) fun inside => inside = c.inside := by
  rw [insideGamepad, Context.inside, ← h]
  apply ensures_ite
  · intro hsome
    refine ensures_mono (ensures_of_safe (safe_readAt (by omega))) fun inside hinside => ?_
    rw [List.getLast?_eq_getElem?, List.getElem?_eq_getElem (by omega)]
    exact hinside
  · intro hempty
    have hnil : s.accepted = [] := List.eq_nil_of_length_eq_zero (by omega)
    rw [hnil]
    exact ensures_pure rfl

theorem collectionItem_matches (h : Matches past c s) (htag : item.tag.toNat = 10) :
    Ensures (collectionItem item s) fun r =>
      r.1 = .ok → Matches past (c.afterMain item) r.2 := by
  rw [collectionItem, Context.afterMain, htag]
  apply ensures_ite
  · intro _
    exact ensures_pure (by rintro ⟨⟩)
  · intro _
    refine ensures_bind (ensures_of_safe (safe_openUsage _)) fun usage husage => ?_
    refine ensures_bind (insideGamepad_eq h.collections) fun parent hparent => ?_
    refine ensures_bind (ensures_append _ _ _) fun accepted haccepted => ?_
    refine ensures_pure fun _ => ⟨h.globals, h.stack, rfl, ?_, h.parser⟩
    show accepted = _
    rw [haccepted, husage, hparent, h.collections, h.locals]
    rfl

/-- The length of a report is found, or its layout is new and empty. -/
theorem getReportLayout_length (p : Parser) (reportId : UInt16) :
    Ensures (getReportLayout p reportId) fun r => ∀ layout q, r = some (layout, q) →
      layout.bitLength = lengthOf p.reportLayouts reportId ∧
      (∀ other, lengthOf q.reportLayouts other = lengthOf p.reportLayouts other) ∧
      q.fields = p.fields ∧ q.reportIdsDeclared = p.reportIdsDeclared ∧
      findReportLayout q.reportLayouts reportId = some layout := by
  rw [getReportLayout]
  split
  · rename_i found hfound
    refine ensures_pure fun layout q hsome => ?_
    obtain ⟨rfl, rfl⟩ := Prod.mk.inj (Option.some.inj hsome)
    refine ⟨?_, fun _ => rfl, rfl, rfl, hfound⟩
    rw [lengthOf, hfound]
    rfl
  · rename_i hmissing
    apply ensures_ite
    · intro _
      exact ensures_pure fun _ _ hsome => (Option.some_ne_none _ hsome.symm).elim
    · intro _
      refine ensures_bind (ensures_append _ _ _) fun layouts hlayouts => ?_
      refine ensures_pure fun layout q hsome => ?_
      obtain ⟨rfl, rfl⟩ := Prod.mk.inj (Option.some.inj hsome)
      rw [findReportLayout] at hmissing
      refine ⟨by rw [lengthOf, findReportLayout, hmissing]; rfl, fun other => ?_, rfl, rfl, ?_⟩
      · rw [lengthOf, lengthOf, hlayouts, findReportLayout, findReportLayout, List.find?_append]
        cases hold : p.reportLayouts.find? fun l => decide (l.reportId = other) with
        | some found => rfl
        | none =>
          by_cases hsame : reportId = other
          · simp [hsame]
          · simp [hsame]
      · rw [hlayouts, findReportLayout, List.find?_append, hmissing]
        simp

theorem inputFields_extends (h : Matches past c s) (first : ℕ) (inside : Bool)
    (hinside : inside = c.inside) (p : Parser) :
    Ensures (inputFields item s first inside p) fun r => r.1 = .ok →
      ∃ more, Extended p more r.2 ∧ ∀ f, f ∈ more ↔
        (⟨c.globals, c.order, item.value, c.inside⟩ : Declaration).HasFields ∧
          f ∈ slotFields first ⟨c.globals, c.order, item.value, c.inside⟩ 0
            c.globals.reportCount.toNat := by
  rw [inputFields, hinside, h.globals, h.locals]
  apply ensures_ite
  · intro hdata
    rw [Bool.and_eq_true, decide_eq_true_eq] at hdata
    rw [collectInputFields]
    apply ensures_ite
    · intro harray
      refine ensures_pure fun _ => ⟨[], ⟨(List.append_nil _).symm, rfl, rfl, fun h => h⟩, ?_⟩
      intro f
      simp [Declaration.HasFields, harray]
    · intro hvariable
      have hcount := c.globals.reportCount.toNat_lt
      refine ensures_mono (collectFrom_extends first ⟨c.globals, c.order, item.value, c.inside⟩
        c.globals.reportCount.toNat 0 (by omega) p) fun r hr hok => ?_
      refine ⟨_, hr hok, fun f => ?_⟩
      simp [Declaration.HasFields, hdata, hvariable]
  · intro hno
    rw [Bool.and_eq_true, decide_eq_true_eq] at hno
    refine ensures_pure fun _ => ⟨[], .refl p, fun f => ?_⟩
    simp only [List.not_mem_nil, false_iff, Declaration.HasFields]
    exact fun hfields => hno ⟨hfields.1.1, hfields.1.2.1⟩

theorem lengthOf_grown {layouts : List Layout} {reportId : UInt16} {layout : Layout}
    (h : findReportLayout layouts reportId = some layout) (bits bytes : ℕ) (other : UInt16) :
    lengthOf (grown reportId bits bytes layouts) other =
      if reportId = other then bits else lengthOf layouts other := by
  by_cases hsame : reportId = other
  · rw [if_pos hsame, ← hsame, lengthOf, grown_find_self h]
    rfl
  · rw [if_neg hsame, lengthOf, grown_find_ne _ (Ne.symm hsame), lengthOf]

/-- An input item appends its fields behind the bits of the earlier ones. -/
theorem inputItem_matches (h : Matches past c s) (htag : item.tag.toNat = 8) :
    Ensures (inputItem item s) fun r => r.1 = .ok →
      Matches (past ++ [⟨c.globals, c.order, item.value, c.inside⟩]) (c.afterMain item) r.2 := by
  have hafter : c.afterMain item = { c with order := [] } := by
    rw [Context.afterMain, htag]
    rfl
  rw [inputItem, hafter]
  apply ensures_ite
  · intro _
    exact ensures_pure (by rintro ⟨⟩)
  · intro _
    dsimp only
    apply ensures_ite
    · intro _
      exact ensures_pure (by rintro ⟨⟩)
    · intro _
      refine ensures_bind (getReportLayout_length _ _) fun found hfound => ?_
      split
      · exact ensures_pure (by rintro ⟨⟩)
      · rename_i layout parser
        obtain ⟨hlength, hlengths, hfields, hids, hlayout⟩ := hfound layout parser rfl
        apply ensures_ite
        · intro _
          exact ensures_pure (by rintro ⟨⟩)
        · intro _
          refine ensures_bind (insideGamepad_eq (c := c) h.collections) fun inside hinside => ?_
          refine ensures_bind (inputFields_extends (show Matches past c _ from
            ⟨h.globals, h.stack, h.locals, h.collections, h.parser⟩) _ _ hinside _) fun r hr => ?_
          refine ensures_bind (ensures_narrow _ _) fun bits hbits => ?_
          refine ensures_bind (ensures_narrow _ _) fun bytes _ => ?_
          apply ensures_pure
          intro hok
          obtain ⟨more, hextended, hmore⟩ := hr hok
          rw [h.globals] at hlength hlayout
          rw [hlength, h.parser.lengths] at hmore hbits
          have hgrown : ∀ other, lengthOf (grown c.globals.reportId bits bytes
              r.2.reportLayouts) other = bitsBefore
                (past ++ [⟨c.globals, c.order, item.value, c.inside⟩]) other := by
            intro other
            rw [hextended.layouts, lengthOf_grown hlayout, bitsBefore_append, hlengths,
              h.parser.lengths, hbits, h.globals]
            by_cases hsame : c.globals.reportId = other
            · simp [hsame, Declaration.bits]
            · simp [hsame]
          refine ⟨h.globals, h.stack, rfl, h.collections, ?_, ?_, ?_, ?_⟩
          · show ∀ other, lengthOf (grown s.globals.reportId bits bytes
              r.2.reportLayouts) other = _
            rw [h.globals]
            exact hgrown
          · intro f
            show f ∈ r.2.fields ↔ _
            rw [hextended.fields, List.mem_append, hfields, h.parser.fields, found_append, hmore]
          · apply hextended.distinct
            rw [hfields]
            exact h.parser.distinct
          · show r.2.reportIdsDeclared = _
            rw [hextended.ids, hids, h.parser.ids]

theorem declares_input {c : Context} {item : Item} (htype : item.type.toNat = 0)
    (htag : item.tag.toNat = 8) :
    c.declares item = [⟨c.globals, c.order, item.value, c.inside⟩] :=
  if_pos ⟨htype, htag⟩

theorem declares_other {c : Context} {item : Item}
    (h : ¬ (item.type.toNat = 0 ∧ item.tag.toNat = 8)) : c.declares item = [] :=
  if_neg h

theorem mainItem_matches (h : Matches past c s) (htype : item.type.toNat = 0) :
    Ensures (mainItem item s) fun r =>
      r.1 = .ok → Matches (past ++ c.declares item) (c.afterMain item) r.2 := by
  rw [mainItem]
  split
  · rename_i htag
    rw [declares_other (by omega), List.append_nil]
    exact collectionItem_matches h htag
  · rename_i htag
    rw [declares_other (by omega), List.append_nil, Context.afterMain, htag]
    apply ensures_ite
    · intro _
      exact ensures_pure (by rintro ⟨⟩)
    · intro _
      apply ensures_pure
      intro _
      exact ⟨h.globals, h.stack, rfl, by simp [finishMain, h.collections], h.parser⟩
  · rename_i htag
    rw [declares_input htype htag]
    exact inputItem_matches h htag
  · rename_i hcollection hend hinput
    have hafter : c.afterMain item = { c with order := [] } := by
      rw [Context.afterMain]
      split
      · rename_i htag
        exact absurd htag hcollection
      · rename_i htag
        exact absurd htag hend
      · rfl
    rw [declares_other (fun h => hinput h.2), List.append_nil, hafter]
    exact ensures_pure fun _ => ⟨h.globals, h.stack, rfl, h.collections, h.parser⟩

/-- One item takes the scan where it takes the context. -/
theorem handleItem_matches (h : Matches past c s) : Ensures (handleItem item s) fun r =>
    r.1 = .ok → Matches (past ++ c.declares item) (c.after item) r.2 := by
  rw [handleItem]
  split
  · rename_i htype
    have hafter : c.after item = c.afterGlobal item := by
      rw [Context.after, htype]
      rfl
    rw [declares_other (by omega), List.append_nil, hafter]
    exact globalItem_matches h
  · rename_i htype
    have hafter : c.after item = c.afterLocal item := by
      rw [Context.after, htype]
      rfl
    rw [declares_other (by omega), List.append_nil, hafter]
    exact localItem_matches h
  · rename_i htype
    have hafter : c.after item = c.afterMain item := by
      rw [Context.after, htype]
      rfl
    rw [hafter]
    exact mainItem_matches h htype
  · rename_i hglobal hlocal hmain
    have hafter : c.after item = c := by
      rw [Context.after]
      split
      · rename_i htype
        exact absurd htype hglobal
      · rename_i htype
        exact absurd htype hlocal
      · rename_i htype
        exact absurd htype hmain
      · rfl
    rw [declares_other (fun h => hmain h.1), List.append_nil, hafter]
    exact ensures_pure fun _ => h

theorem after_reserved {c : Context} {item : Item} (h : item.type = 3) : c.after item = c := by
  rw [Context.after, h]
  rfl

theorem declares_reserved {c : Context} {item : Item} (h : item.type = 3) :
    c.declares item = [] := by
  rw [Context.declares, h]
  rfl

theorem closeDescriptor_state (s : Scan) : (closeDescriptor s).2.parser = s.parser := by
  rw [closeDescriptor]
  split
  · rfl
  · split
    · rfl
    · rfl

/-- The rest of an accepted descriptor is read to its end. -/
theorem parseItems_follows {descriptor : List UInt8} (hlength : descriptor.length < 2^16)
    {fuel : ℕ} (h : Matches past c s) (hs : Sound s.parser)
    (hposition : s.position ≤ descriptor.length) :
    Ensures (parseItems descriptor fuel s) fun r => r.1 = .ok →
      Follows (past ++ declarationsFrom c (itemsOf (descriptor.drop s.position)))
        (c.final (itemsOf (descriptor.drop s.position))).idsDeclared r.2.parser := by
  induction fuel generalizing past c s with
  | zero =>
    intro r hr
    cases hr
  | succ fuel ih =>
    rw [parseItems]
    apply ensures_ite
    · intro hinside
      refine ensures_bind (ensures_of_safe (safe_nextRead hlength hposition (by omega)))
        fun read hread => ?_
      split
      · exact ensures_pure (by rintro ⟨⟩)
      · rename_i item next
        obtain ⟨_, hend, hitems⟩ := hread item next rfl
        refine ensures_bind (P := fun r => Handled { s with position := next } r ∧
          (r.1 = .ok → Matches (past ++ c.declares item) (c.after item) r.2)) ?_ fun r hr => ?_
        · intro r hr
          constructor
          · exact safe_value (safe_handleItem (s := { s with position := next }) hs) hr
          · exact handleItem_matches (s := { s with position := next })
              ⟨h.globals, h.stack, h.locals, h.collections, h.parser⟩ r hr
        · obtain ⟨⟨hplace, hsound⟩, hmatches⟩ := hr
          have hplace : r.2.position = next := hplace
          apply ensures_ite
          · intro hok
            refine ensures_mono (ih (hmatches hok) (hsound hok) (by omega)) fun r' hr' hok' => ?_
            have hrest := hr' hok'
            rw [hplace] at hrest
            rcases hitems with hitem | ⟨hreserved, hrest'⟩
            · rw [hitem, declarationsFrom, Context.final, ← List.append_assoc]
              exact hrest
            · rw [hrest', ← after_reserved (c := c) hreserved]
              rw [declares_reserved hreserved, List.append_nil] at hrest
              exact hrest
          · intro hfail
            exact ensures_pure fun hok => absurd hok hfail
    · intro hend
      have hnil : itemsOf (descriptor.drop s.position) = [] := by
        rw [List.drop_eq_nil_of_le (by omega), itemsOf]
      rw [hnil, declarationsFrom, List.append_nil]
      apply ensures_pure
      intro _
      rw [closeDescriptor_state]
      exact h.parser

theorem follows_init : Follows [] false init where
  lengths := fun _ => rfl
  fields := fun f => ⟨fun hf => absurd hf List.not_mem_nil, fun hf => absurd hf (found_nil f)⟩
  distinct := List.Pairwise.nil
  ids := rfl

/-- An accepted descriptor leaves the fields of the usages that are found. -/
theorem configure_follows (descriptor : List UInt8) :
    Ensures (configure descriptor) fun r => r.1 = .ok →
      Follows (declarations descriptor) (idsDeclared descriptor) r.2 := by
  rw [configure]
  apply ensures_ite
  · intro _
    exact ensures_pure (by rintro ⟨⟩)
  · intro _
    dsimp only
    apply ensures_ite
    · intro _
      exact ensures_pure (by rintro ⟨⟩)
    · intro hmax
      have hlength : descriptor.length < 2^16 := by
        have hdescriptor : descriptorMax = 256 := rfl
        omega
      have hstart : Matches [] start (startScan { init with diagnostics := { init.diagnostics with
          descriptorLengthHighWater := atMost16 descriptor.length } }) :=
        ⟨rfl, rfl, rfl, rfl, follows_init.lengths, follows_init.fields, follows_init.distinct, rfl⟩
      have hinit : Sound { init with diagnostics := { init.diagnostics with
          descriptorLengthHighWater := atMost16 descriptor.length } } :=
        ⟨sound_init.fields, sound_init.layouts, sound_init.head, sound_init.count⟩
      refine ensures_bind (parseItems_follows hlength hstart hinit (Nat.zero_le _)) fun r hr => ?_
      apply ensures_ite
      · intro hfail
        exact ensures_pure fun hok => absurd hok hfail
      · intro hok
        have hfollows := hr (not_not.mp hok)
        exact ensures_pure fun _ =>
          ⟨hfollows.lengths, hfollows.fields, hfollows.distinct, hfollows.ids⟩

end JaszczurHal.GamepadDeclared
