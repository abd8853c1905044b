import JaszczurHal.CheckedArith
import JaszczurHal.HttpPath
import JaszczurHal.WordBits

/-!
# The bounds of path decoding

`url_decode_path` over the bytes of its input, terminator included, and the
array it writes. Both digits of an escape are read before the first one is
looked at.
-/

set_option autoImplicit false

namespace JaszczurHal.HttpPathBounds
open HalStatus CheckedArith HttpPath

def keep {size : ℕ} (c : UInt8) (pos : ℕ) (out : Vector UInt8 size)
    (next : Vector UInt8 size → Checked (Status × Vector UInt8 size)) :
    Checked (Status × Vector UInt8 size) :=
  if c = 0 ∨ c = backslash then pure (.einval, out)
  else if size ≤ pos+1 then pure (.eoverflow, out)
  else do
    let out ← storeAt out pos c
    next out

/-- The loop of `url_decode_path`, for at most so many turns: the index in the
input, the place in the output and the output. -/
def decodeLoop {size : ℕ} (input : List UInt8) :
    ℕ → ℕ → ℕ → Vector UInt8 size → Checked (Status × Vector UInt8 size)
  | 0, _, _, _ => .error .unfinished
  | fuel+1, i, pos, out => do
    let c ← readAt input i
    if c = 0 then do
      let out ← storeAt out pos 0
      pure (.ok, out)
    else if c = percent then do
      let hi ← readAt input (i+1)
      let lo ← readAt input (i+2)
      match hexValue hi, hexValue lo with
      | some h, some l => keep (h*16 ||| l) pos out (decodeLoop input fuel (i+3) (pos+1))
      | _, _ => pure (.eproto, out)
    else keep (if c = plus then space else c) pos out (decodeLoop input fuel (i+1) (pos+1))

def urlDecode {size : ℕ} (text : CString) (out : Vector UInt8 size) :
    Checked (Status × Vector UInt8 size) :=
  if size = 0 then pure (.einval, out)
  else decodeLoop (text.bytes ++ [0]) (text.bytes.length+1) 0 0 out

def isHexDigit (c : UInt8) : Prop := (hexValue c).isSome = true

def digitOf (c : UInt8) : UInt8 := (hexValue c).getD 0

def Escaped (text : List UInt8) : Prop :=
  ∀ before behind, text = before ++ percent :: behind →
    ∃ hi lo rest, behind = hi :: lo :: rest ∧ isHexDigit hi ∧ isHexDigit lo

/-- The text with each escape replaced by its byte and each `+` by a space. -/
def unescaped : List UInt8 → List UInt8
  | [] => []
  | c :: rest =>
    if c = percent then
      match rest with
      | hi :: lo :: behind => (digitOf hi*16+digitOf lo) :: unescaped behind
      | _ => []
    else (if c = plus then space else c) :: unescaped rest

def Clean (decoded : List UInt8) : Prop := 0 ∉ decoded ∧ backslash ∉ decoded

inductive Begins (rest : List UInt8) : UInt8 → List UInt8 → Prop
  | byte {c : UInt8} (hc : c ≠ percent) : Begins rest (if c = plus then space else c) (c :: rest)
  | escape {hi lo : UInt8} (hhi : isHexDigit hi) (hlo : isHexDigit lo) :
      Begins rest (digitOf hi*16+digitOf lo) (percent :: hi :: lo :: rest)

variable {text rest before : List UInt8} {c : UInt8} {size pos : ℕ}

theorem hexDigit_ne_percent (h : isHexDigit c) : c ≠ percent := by
  rintro rfl
  unfold isHexDigit at h
  exact absurd h (by decide)

theorem escaped_tail (h : Escaped (c :: rest)) : Escaped rest :=
  fun before behind heq => h (c :: before) behind (by rw [heq]; rfl)

theorem begins_unescaped (h : Begins rest c text) : unescaped text = c :: unescaped rest := by
  cases h with
  | byte hc => rw [unescaped.eq_def]; simp only [if_neg hc]
  | escape => rw [unescaped.eq_def]; simp only [if_true]

theorem begins_escaped (h : Begins rest c text) : Escaped text ↔ Escaped rest := by
  cases h with
  | byte hc =>
    refine ⟨escaped_tail, fun h before behind heq => ?_⟩
    cases before with
    | nil => exact absurd (List.cons.inj heq).1 hc
    | cons b before => exact h before behind (List.cons.inj heq).2
  | @escape hi lo hhi hlo =>
    refine ⟨fun h => escaped_tail (escaped_tail (escaped_tail h)), fun h before behind heq => ?_⟩
    -- the `%` of an escape is its first byte
    rcases before with _ | ⟨a, _ | ⟨b, _ | ⟨d, before⟩⟩⟩
    · exact ⟨hi, lo, rest, (List.cons.inj heq).2.symm, hhi, hlo⟩
    · simp only [List.cons_append, List.nil_append, List.cons.injEq] at heq
      exact absurd heq.2.1 (hexDigit_ne_percent hhi)
    · simp only [List.cons_append, List.nil_append, List.cons.injEq] at heq
      exact absurd heq.2.2.1 (hexDigit_ne_percent hlo)
    · simp only [List.cons_append, List.cons.injEq] at heq
      exact h before behind heq.2.2.2

theorem begins_last (h : Begins rest c text) (hlast : text = before ++ [percent]) :
    ∃ before', rest = before' ++ [percent] ∧ Begins before' c before := by
  cases h with
  | byte hc =>
    cases before with
    | nil => exact absurd (List.cons.inj hlast).1 hc
    | cons b before =>
      obtain ⟨rfl, hrest⟩ := List.cons.inj hlast
      exact ⟨before, hrest, .byte hc⟩
  | escape hhi hlo =>
    rcases before with _ | ⟨a, _ | ⟨b, _ | ⟨d, before⟩⟩⟩
    · cases hlast
    · cases hlast
    · simp only [List.cons_append, List.nil_append, List.cons.injEq] at hlast
      exact absurd hlast.2.2.1 (hexDigit_ne_percent hlo)
    · simp only [List.cons_append, List.cons.injEq] at hlast
      obtain ⟨rfl, rfl, rfl, hrest⟩ := hlast
      exact ⟨before, hrest, .escape hhi hlo⟩

/-- A text that begins with `%` is escaped only by two digits behind it. -/
theorem escaped_percent (h : Escaped (percent :: rest)) :
    ∃ hi lo behind, rest = hi :: lo :: behind ∧ isHexDigit hi ∧ isHexDigit lo :=
  h [] rest rfl

/-- A digit is less than 16, and two of them share no bit. -/
theorem hex_digits : (∀ c : UInt8, (hexValue c).all (· < 16) = true) ∧
    ∀ h l : Fin 16, UInt8.ofNat h*16 ||| UInt8.ofNat l = UInt8.ofNat h*16+UInt8.ofNat l := by
  decide +kernel

/-- The byte of an escape is the number its digits write. -/
theorem escape_byte {hi lo h l : UInt8} (hhi : hexValue hi = some h) (hlo : hexValue lo = some l) :
    h*16 ||| l = digitOf hi*16+digitOf lo := by
  have hh := hex_digits.1 hi
  have hl := hex_digits.1 lo
  rw [hhi, Option.all_some, decide_eq_true_iff] at hh
  rw [hlo, Option.all_some, decide_eq_true_iff] at hl
  have hor := hex_digits.2 ⟨h.toNat, hh⟩ ⟨l.toNat, hl⟩
  rw [UInt8.ofNat_toNat, UInt8.ofNat_toNat] at hor
  rw [digitOf, digitOf, hhi, hlo]
  exact hor

def Hangs (size pos : ℕ) (text : List UInt8) : Prop :=
  ∃ before, text = before ++ [percent] ∧ Escaped before ∧ Clean (unescaped before) ∧
    pos+(unescaped before).length < size

def Accepted (size pos : ℕ) (text : List UInt8) : Prop :=
  Escaped text ∧ Clean (unescaped text) ∧ pos+(unescaped text).length < size

inductive Outcome {size : ℕ} (pos : ℕ) (text : List UInt8) (out : Vector UInt8 size) :
    Checked (Status × Vector UInt8 size) → Prop
  | accepted (after : Vector UInt8 size) (h : Accepted size pos text)
      (hout : after.toList.take (pos+(unescaped text).length+1) =
        out.toList.take pos ++ unescaped text ++ [0]) : Outcome pos text out (.ok (.ok, after))
  | refused (status : Status) (after : Vector UInt8 size) (hstatus : status ≠ .ok)
      (h : ¬ Accepted size pos text) (hin : ¬ Hangs size pos text) :
      Outcome pos text out (.ok (status, after))
  | past (h : Hangs size pos text) : Outcome pos text out (.error .outOfBounds)

theorem unescaped_nil : unescaped [] = [] := by
  rw [unescaped.eq_def]

theorem escaped_nil : Escaped [] :=
  fun before behind heq => absurd heq (by simp)

theorem clean_nil : Clean (unescaped []) := by
  rw [unescaped_nil]
  exact ⟨List.not_mem_nil, List.not_mem_nil⟩

theorem clean_cons {decoded : List UInt8} :
    Clean (c :: decoded) ↔ ¬ (c = 0 ∨ c = backslash) ∧ Clean decoded := by
  simp only [Clean, List.mem_cons, not_or, eq_comm]
  tauto

theorem accepted_begins (h : Begins rest c text) :
    Accepted size pos text ↔ ¬ (c = 0 ∨ c = backslash) ∧ Accepted size (pos+1) rest := by
  rw [Accepted, Accepted, begins_escaped h, begins_unescaped h, clean_cons, List.length_cons,
    Nat.add_assoc pos 1, Nat.add_comm 1]
  tauto

theorem hangs_begins (h : Begins rest c text) :
    Hangs size pos text ↔ ¬ (c = 0 ∨ c = backslash) ∧ Hangs size (pos+1) rest := by
  constructor
  · rintro ⟨before, hlast, hescaped, hclean, hfits⟩
    obtain ⟨before', hrest, hbegins⟩ := begins_last h hlast
    rw [begins_unescaped hbegins, clean_cons] at hclean
    rw [begins_unescaped hbegins, List.length_cons] at hfits
    exact ⟨hclean.1, before', hrest, (begins_escaped hbegins).mp hescaped, hclean.2, by omega⟩
  · rintro ⟨hc, before, hrest, hescaped, hclean, hfits⟩
    have hfront : ∃ front, text = front ++ [percent] ∧ Begins before c front := by
      subst hrest
      cases h with
      | @byte b hb => exact ⟨b :: before, rfl, .byte hb⟩
      | @escape hi lo hhi hlo => exact ⟨percent :: hi :: lo :: before, rfl, .escape hhi hlo⟩
    obtain ⟨front, htext, hbegins⟩ := hfront
    refine ⟨front, htext, (begins_escaped hbegins).mpr hescaped, ?_, ?_⟩
    · rw [begins_unescaped hbegins]
      exact clean_cons.mpr ⟨hc, hclean⟩
    · rw [begins_unescaped hbegins, List.length_cons]
      omega

/-- A `%` that no two digits follow is refused, unless it is the last byte. -/
theorem not_hangs_percent (hrest : rest ≠ [])
    (h : ¬ ∃ hi lo behind, rest = hi :: lo :: behind ∧ isHexDigit hi ∧ isHexDigit lo) :
    ¬ Hangs size pos (percent :: rest) := by
  rintro ⟨before, hlast, hescaped, _, _⟩
  cases before with
  | nil => exact hrest (List.cons.inj hlast).2
  | cons b before =>
    obtain ⟨rfl, htail⟩ := List.cons.inj hlast
    obtain ⟨hi, lo, behind, rfl, hhi, hlo⟩ := escaped_percent hescaped
    exact h ⟨hi, lo, behind ++ [percent], htail, hhi, hlo⟩

theorem storeAt_of {n : ℕ} {out : Vector UInt8 n} (h : pos < n) :
    storeAt out pos c = .ok (out.set pos c h) := by
  rw [storeAt, dif_pos h]

theorem take_set {n : ℕ} {out : Vector UInt8 n} (h : pos < n) :
    (out.set pos c h).toList.take (pos+1) = out.toList.take pos ++ [c] := by
  rw [Vector.toList_set, List.take_succ_eq_append_getElem (by simpa using h),
    List.take_set_of_le le_rfl, List.getElem_set_self]

variable {input : List UInt8} {out : Vector UInt8 size} {fuel next : ℕ}

/-- What is kept goes before the outcome of the rest. -/
theorem keep_outcome (h : Begins rest c text) (hpos : pos < size)
    (hrest : ∀ out : Vector UInt8 size, pos+1 < size →
      Outcome (pos+1) rest out (decodeLoop input fuel next (pos+1) out)) :
    Outcome pos text out (keep c pos out (decodeLoop input fuel next (pos+1))) := by
  rw [keep]
  by_cases hbad : c = 0 ∨ c = backslash
  · rw [if_pos hbad]
    apply Outcome.refused
    · decide
    · rw [accepted_begins h]
      exact fun haccepted => haccepted.1 hbad
    · rw [hangs_begins h]
      exact fun hhangs => hhangs.1 hbad
  rw [if_neg hbad]
  by_cases hfull : size ≤ pos+1
  · rw [if_pos hfull]
    apply Outcome.refused
    · decide
    · rw [accepted_begins h]
      rintro ⟨_, _, _, hfits⟩
      omega
    · rw [hangs_begins h]
      rintro ⟨_, before, _, _, _, hfits⟩
      omega
  rw [if_neg hfull, storeAt_of hpos, ok_bind]
  have hrun := hrest (out.set pos c hpos) (by omega)
  revert hrun
  generalize decodeLoop input fuel next (pos+1) (out.set pos c hpos) = r
  intro hrun
  cases hrun with
  | accepted after haccepted hout =>
    apply Outcome.accepted
    · exact (accepted_begins h).mpr ⟨hbad, haccepted⟩
    · rw [take_set hpos] at hout
      rw [begins_unescaped h, List.length_cons, ← Nat.add_assoc, Nat.add_right_comm pos, hout]
      simp
  | refused status after hstatus hnot hin =>
    apply Outcome.refused
    · exact hstatus
    · rw [accepted_begins h]
      exact fun haccepted => hnot haccepted.2
    · rw [hangs_begins h]
      exact fun hhangs => hin hhangs.2
  | past hhangs => exact .past ((hangs_begins h).mpr ⟨hbad, hhangs⟩)

theorem readAt_behind (before text behind : List UInt8) (i : ℕ) (hi : i < text.length) :
    readAt (before ++ (text ++ behind)) (before.length+i) = .ok text[i] := by
  rw [readAt, List.getElem?_append_right (by omega), Nat.add_sub_cancel_left,
    List.getElem?_append_left hi, List.getElem?_eq_getElem hi]

/-- An escape, a `%` that no two digits follow, or one that is the last
byte. -/
theorem percent_outcome (rest : List UInt8) (hnul : 0 ∉ percent :: rest) (before : List UInt8)
    (fuel : ℕ) (hfuel : rest.length < fuel) (hpos : pos < size)
    (ih : ∀ (text : List UInt8), 0 ∉ text → ∀ (before : List UInt8), text.length < fuel →
      ∀ (pos : ℕ) (out : Vector UInt8 size), pos < size →
        Outcome pos text out (decodeLoop (before ++ (text ++ [0])) fuel before.length pos out)) :
    Outcome pos (percent :: rest) out (do
      let hi ← readAt (before ++ (percent :: rest ++ [0])) (before.length+1)
      let lo ← readAt (before ++ (percent :: rest ++ [0])) (before.length+2)
      match hexValue hi, hexValue lo with
      | some h, some l =>
        keep (h*16 ||| l) pos out
          (decodeLoop (before ++ (percent :: rest ++ [0])) fuel (before.length+3) (pos+1))
      | _, _ => pure (.eproto, out)) := by
  rcases rest with _ | ⟨hi, _ | ⟨lo, behind⟩⟩
  · have hhi := readAt_behind before [percent, 0] [] 1 (by decide)
    have hlo : readAt (before ++ [percent, 0]) (before.length+2) = .error .outOfBounds := by
      rw [readAt, List.getElem?_eq_none (by simp)]
    rw [List.append_nil] at hhi
    rw [List.cons_append, List.nil_append, hhi, ok_bind, hlo, error_bind]
    exact .past ⟨[], rfl, escaped_nil, clean_nil, by rwa [unescaped_nil]⟩
  · have hhi := readAt_behind before [percent, hi, 0] [] 1 (by simp)
    have hlo := readAt_behind before [percent, hi, 0] [] 2 (by simp)
    have hno : ¬ ∃ a b behind, [hi] = a :: b :: behind ∧ isHexDigit a ∧ isHexDigit b := by
      rintro ⟨a, b, behind, heq, _⟩
      cases heq
    have hnul' : hexValue 0 = none := by decide
    rw [List.append_nil] at hhi hlo
    rw [List.cons_append, List.cons_append, List.nil_append, hhi, ok_bind, hlo, ok_bind]
    simp only [List.getElem_cons_succ, List.getElem_cons_zero, hnul']
    have hrefused : Outcome pos [percent, hi] out (.ok (.eproto, out)) :=
      .refused _ _ (by decide) (fun h => hno (escaped_percent h.1))
        (not_hangs_percent (by simp) hno)
    cases hexValue hi with
    | none => exact hrefused
    | some h => exact hrefused
  · have hhi := readAt_behind before (percent :: hi :: lo :: behind) [0] 1 (by simp)
    have hlo := readAt_behind before (percent :: hi :: lo :: behind) [0] 2 (by simp)
    rw [hhi, ok_bind, hlo, ok_bind]
    simp only [List.getElem_cons_succ, List.getElem_cons_zero]
    by_cases hdigits : isHexDigit hi ∧ isHexDigit lo
    · obtain ⟨h, hh⟩ := Option.isSome_iff_exists.mp hdigits.1
      obtain ⟨l, hl⟩ := Option.isSome_iff_exists.mp hdigits.2
      simp only [hh, hl]
      rw [escape_byte hh hl]
      apply keep_outcome (.escape hdigits.1 hdigits.2) hpos
      intro out hnext
      have hrun := ih behind (fun h => hnul (by simp [h])) (before ++ [percent, hi, lo])
        (by simp only [List.length_cons] at hfuel; omega) (pos+1) out hnext
      simpa using hrun
    · have hno : ¬ ∃ a b rest, hi :: lo :: behind = a :: b :: rest ∧ isHexDigit a ∧
          isHexDigit b := by
        rintro ⟨a, b, rest, heq, ha, hb⟩
        rw [List.cons.injEq, List.cons.injEq] at heq
        exact hdigits ⟨heq.1 ▸ ha, heq.2.1 ▸ hb⟩
      have hrefused : Outcome pos (percent :: hi :: lo :: behind) out (.ok (.eproto, out)) :=
        .refused _ _ (by decide) (fun h => hno (escaped_percent h.1))
          (not_hangs_percent (by simp) hno)
      cases hh : hexValue hi with
      | none => exact hrefused
      | some h =>
        cases hl : hexValue lo with
        | none => exact hrefused
        | some l => exact absurd ⟨by rw [isHexDigit, hh]; rfl, by rw [isHexDigit, hl]; rfl⟩ hdigits

theorem decodeLoop_outcome (text : List UInt8) (hnul : 0 ∉ text) (before : List UInt8)
    (fuel : ℕ) (hfuel : text.length < fuel) (pos : ℕ) (out : Vector UInt8 size)
    (hpos : pos < size) :
    Outcome pos text out (decodeLoop (before ++ (text ++ [0])) fuel before.length pos out) := by
  induction fuel generalizing text before pos out with
  | zero => omega
  | succ fuel ih =>
    cases text with
    | nil =>
      have hread := readAt_behind before [0] [] 0 (by decide)
      rw [List.append_nil, Nat.add_zero] at hread
      rw [List.nil_append, decodeLoop, hread, ok_bind, List.getElem_cons_zero, if_pos rfl,
        storeAt_of hpos, ok_bind]
      apply Outcome.accepted
      · exact ⟨escaped_nil, clean_nil, by rwa [unescaped_nil]⟩
      · rw [unescaped_nil, List.append_nil]
        exact take_set hpos
    | cons c rest =>
      have hread := readAt_behind before (c :: rest) [0] 0 (by simp)
      rw [Nat.add_zero, List.getElem_cons_zero] at hread
      have hc : c ≠ 0 := fun h => hnul (by simp [h])
      rw [decodeLoop, hread, ok_bind, if_neg hc]
      by_cases hpercent : c = percent
      · rw [if_pos hpercent]
        subst hpercent
        exact percent_outcome rest hnul before fuel (by simpa using hfuel) hpos
          fun text hnul before hfuel => ih text hnul before hfuel
      · rw [if_neg hpercent]
        apply keep_outcome (.byte hpercent) hpos
        intro out hnext
        have hrun := ih rest (fun h => hnul (by simp [h])) (before ++ [c])
          (by simpa using hfuel) (pos+1) out hnext
        simpa using hrun

theorem urlDecode_outcome (text : CString) (out : Vector UInt8 size) (hsize : 0 < size) :
    Outcome 0 text.bytes out (urlDecode text out) := by
  have hrun := decodeLoop_outcome text.bytes text.noNul [] (text.bytes.length+1)
    (Nat.lt_succ_self _) 0 out hsize
  rw [urlDecode, if_neg (by omega)]
  exact hrun

/-- Decoding stays inside its input and its output and accepts exactly what it
is for, unless the text ends in a `%` and all before it decodes and fits. Then
the byte behind the terminator is read. -/
theorem urlDecode_exact (text : CString) (out : Vector UInt8 size) :
    (∃ status after, urlDecode text out = .ok (status, after) ∧
      (status = .ok ↔ Escaped text.bytes ∧ Clean (unescaped text.bytes) ∧
        (unescaped text.bytes).length < size) ∧
      (status = .ok → after.toList.take ((unescaped text.bytes).length+1) =
        unescaped text.bytes ++ [0])) ↔
    ¬ ∃ before, text.bytes = before ++ [percent] ∧ Escaped before ∧ Clean (unescaped before) ∧
      (unescaped before).length < size := by
  rcases Nat.eq_zero_or_pos size with rfl | hsize
  · have hfits : ∀ n : ℕ, ¬ n < 0 := fun n => Nat.not_lt_zero n
    rw [urlDecode, if_pos rfl]
    constructor
    · rintro _ ⟨before, _, _, _, hbefore⟩
      exact hfits _ hbefore
    · intro _
      refine ⟨.einval, out, rfl, ⟨nofun, fun h => absurd h.2.2 (hfits _)⟩, nofun⟩
  have hrun := urlDecode_outcome text out hsize
  have hhangs : Hangs size 0 text.bytes ↔ ∃ before, text.bytes = before ++ [percent] ∧
      Escaped before ∧ Clean (unescaped before) ∧ (unescaped before).length < size := by
    unfold Hangs
    simp only [Nat.zero_add]
  have haccepted : Accepted size 0 text.bytes ↔ Escaped text.bytes ∧
      Clean (unescaped text.bytes) ∧ (unescaped text.bytes).length < size := by
    rw [Accepted, Nat.zero_add]
  rw [← hhangs, ← haccepted]
  generalize urlDecode text out = r at hrun ⊢
  cases hrun with
  | accepted after h hout =>
    rw [Nat.zero_add, List.take_zero, List.nil_append] at hout
    refine ⟨fun _ => ?_, fun _ => ⟨.ok, after, rfl, iff_of_true rfl h, fun _ => hout⟩⟩
    rintro ⟨before, hlast, _⟩
    have hescaped := h.1
    rw [hlast] at hescaped
    obtain ⟨hi, lo, rest, heq, _⟩ := hescaped before [] rfl
    cases heq
  | refused status after hstatus h hin =>
    exact ⟨fun _ => hin, fun _ => ⟨status, after, rfl, iff_of_false hstatus h,
      fun hok => absurd hok hstatus⟩⟩
  | past h =>
    constructor
    · rintro ⟨_, _, hrun, _⟩
      cases hrun
    · exact fun hno => absurd h hno

/-- A lone `%`: the loop reads the two bytes behind it, and the second is past
the terminator. -/
theorem lone_percent_past :
    urlDecode ⟨[percent], by decide⟩ (Vector.replicate 8 (0 : UInt8)) = .error .outOfBounds := by
  rfl

end JaszczurHal.HttpPathBounds
