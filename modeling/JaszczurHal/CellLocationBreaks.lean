import JaszczurHal.CellLines
import JaszczurHal.HttpFiles

/-!
# A cell location line in pieces

The firmware may break a line anywhere, and the buffer may end anywhere when it
is read. A break at the end of the buffer is taken for the end of the line.
-/

set_option autoImplicit false

namespace JaszczurHal.CellLocation
open WebSocketHandshake (ascii cString)
open ModemAt (lineEnd)
open GpsNmea (isSpace isDigit)
open SimcomMqtt (scanInt plus minus comma)
open Sscanf

def keep (text : List UInt8) : List UInt8 := text.filter fun c => !lineEnd c

def stitched : List UInt8 → Bool
  | [] => true
  | c :: p => (!lineEnd c || (p.dropWhile lineEnd).isEmpty || continues (p.dropWhile lineEnd)) &&
      stitched p

def closed (text : List UInt8) : Bool := text.getLast?.any lineEnd

theorem keep_append (a b : List UInt8) : keep (a ++ b) = keep a ++ keep b := List.filter_append ..

theorem keep_ends {ends : List UInt8} (h : ∀ c ∈ ends, lineEnd c = true) : keep ends = [] := by
  apply List.filter_eq_nil_iff.mpr
  intro c hc
  simp [h c hc]

theorem keep_cons_end {c : UInt8} (p : List UInt8) (h : lineEnd c = true) :
    keep (c :: p) = keep p :=
  List.filter_cons_of_neg (by simp [h])

theorem keep_cons {c : UInt8} (p : List UInt8) (h : lineEnd c = false) :
    keep (c :: p) = c :: keep p :=
  List.filter_cons_of_pos (by simp [h])

theorem closed_cons {c : UInt8} {p : List UInt8} (h : p ≠ []) : closed (c :: p) = closed p := by
  obtain ⟨d, q, rfl⟩ := List.exists_cons_of_ne_nil h
  rw [closed, closed, List.getLast?_cons_cons]

/-- What is put together is what the breaks leave, up to some byte. -/
theorem collapse_front (room : ℕ) (y : List UInt8) : (clbsCollapseLine room y).1 <+: keep y := by
  induction y generalizing room with
  | nil => exact List.nil_prefix
  | cons c p ih =>
    cases room with
    | zero => exact List.nil_prefix
    | succ room =>
      rw [clbsCollapseLine]
      by_cases hend : lineEnd c = true
      · rw [if_pos hend, keep_cons_end p hend]
        split_ifs
        · exact ih (room+1)
        · exact List.nil_prefix
      · rw [if_neg hend, keep_cons p (Bool.eq_false_iff.mpr hend)]
        exact List.cons_prefix_cons.mpr ⟨rfl, ih room⟩

theorem collapse_plain {text : List UInt8} (h : ∀ c ∈ text, lineEnd c = false) (room : ℕ)
    (y : List UInt8) : clbsCollapseLine (room+text.length) (text ++ y) =
      (text ++ (clbsCollapseLine room y).1, (clbsCollapseLine room y).2) := by
  induction text with
  | nil => rfl
  | cons c text ih =>
    have hc := h c List.mem_cons_self
    have hstep := ih fun d hd => h d (List.mem_cons_of_mem c hd)
    rw [List.cons_append, List.length_cons, ← Nat.add_assoc, clbsCollapseLine,
      if_neg (by rw [hc]; decide), hstep]
    rfl

/-- A text that ends with a break is put together to its end. -/
theorem collapse_closed {y : List UInt8} (room : ℕ) (hst : stitched y = true)
    (hclosed : closed y = true) (hroom : (keep y).length < room) :
    clbsCollapseLine room y = (keep y, true) := by
  induction y generalizing room with
  | nil => cases hclosed
  | cons c p ih =>
    obtain ⟨room, rfl⟩ : ∃ n, room = n+1 := ⟨room-1, by omega⟩
    rw [stitched, Bool.and_eq_true] at hst
    obtain ⟨hhere, hrest⟩ := hst
    rw [clbsCollapseLine]
    by_cases hend : lineEnd c = true
    · rw [if_pos hend]
      rw [keep_cons_end p hend] at hroom ⊢
      cases hq : p.dropWhile lineEnd with
      | nil =>
        have hall : ∀ d ∈ p, lineEnd d = true := List.dropWhile_eq_nil_iff.mp hq
        rw [keep_ends hall, if_neg (by decide)]
      | cons d q =>
        have hne : p ≠ [] := by
          rintro rfl
          cases hq
        have hcont : continues (d :: q) = true := by simpa [hend, hq] using hhere
        rw [if_pos hcont]
        exact ih (room+1) hrest ((closed_cons hne).symm.trans hclosed) hroom
    · have hplain := Bool.eq_false_iff.mpr hend
      rw [if_neg hend]
      rw [keep_cons p hplain] at hroom ⊢
      have hne : p ≠ [] := by
        rintro rfl
        simp [closed, hplain] at hclosed
      rw [ih room hrest ((closed_cons hne).symm.trans hclosed) (by simpa using hroom)]

/-- A text that does not end with a break, or is too long, is no whole line. -/
theorem collapse_open {y : List UInt8} (room : ℕ) (hst : stitched y = true)
    (h : closed y = false ∨ room ≤ (keep y).length) : (clbsCollapseLine room y).2 = false := by
  induction y generalizing room with
  | nil => rfl
  | cons c p ih =>
    cases room with
    | zero => rfl
    | succ room =>
      rw [stitched, Bool.and_eq_true] at hst
      obtain ⟨hhere, hrest⟩ := hst
      rw [clbsCollapseLine]
      by_cases hend : lineEnd c = true
      · rw [if_pos hend]
        rw [keep_cons_end p hend] at h
        cases hq : p.dropWhile lineEnd with
        | nil =>
          have hall : ∀ d ∈ p, lineEnd d = true := List.dropWhile_eq_nil_iff.mp hq
          rw [keep_ends hall] at h
          rcases h with h | h
          · have hlast : closed (c :: p) = true := by
              rw [closed, List.getLast?_eq_getLast_of_ne_nil (List.cons_ne_nil c p)]
              have hmem := List.getLast_mem (List.cons_ne_nil c p)
              cases List.mem_cons.mp hmem with
              | inl heq => simpa [heq] using hend
              | inr hin => simpa using hall _ hin
            rw [hlast] at h
            cases h
          · exact absurd h (Nat.not_succ_le_zero room)
        | cons d q =>
          have hne : p ≠ [] := by
            rintro rfl
            cases hq
          have hcont : continues (d :: q) = true := by simpa [hend, hq] using hhere
          rw [if_pos hcont]
          exact ih (room+1) hrest (h.imp_left fun hopen => (closed_cons hne).symm.trans hopen)
      · have hplain := Bool.eq_false_iff.mpr hend
        rw [if_neg hend]
        rw [keep_cons p hplain] at h
        cases hp : p with
        | nil => rfl
        | cons d q =>
          rw [← hp]
          have hne : p ≠ [] := by
            rw [hp]
            exact List.cons_ne_nil d q
          refine ih room hrest ?_
          rcases h with hopen | hlong
          · exact .inl ((closed_cons hne).symm.trans hopen)
          · exact .inr (Nat.le_of_succ_le_succ hlong)

theorem stitched_ends {text : List UInt8} (h : ∀ c ∈ text, lineEnd c = true) :
    stitched text = true := by
  induction text with
  | nil => rfl
  | cons c p ih =>
    have hrest : ∀ d ∈ p, lineEnd d = true := fun d hd => h d (List.mem_cons_of_mem c hd)
    rw [stitched, ih hrest, List.dropWhile_eq_nil_iff.mpr hrest]
    simp

theorem keep_dropWhile (p : List UInt8) : keep (p.dropWhile lineEnd) = keep p := by
  have hends : keep (p.takeWhile lineEnd) = [] := keep_ends fun c hc => List.mem_takeWhile_imp hc
  have hparts := congrArg keep (List.takeWhile_append_dropWhile (p := lineEnd) (l := p))
  rw [keep_append, hends, List.nil_append] at hparts
  exact hparts

/-- A break that is not passed stands before a sign. -/
theorem collapse_torn {y : List UInt8} (room : ℕ)
    (hchars : ∀ c ∈ y, lineEnd c = true ∨ lineChar c = true) (hst : stitched y = false)
    (hend : (clbsCollapseLine room y).2 = true) :
    ∃ w, keep y = (clbsCollapseLine room y).1 ++ plus :: w := by
  induction y generalizing room with
  | nil => cases hst
  | cons c p ih =>
    have hothers : ∀ d ∈ p, lineEnd d = true ∨ lineChar d = true :=
      fun d hd => hchars d (List.mem_cons_of_mem c hd)
    cases room with
    | zero => cases hend
    | succ room =>
      rw [clbsCollapseLine] at hend ⊢
      by_cases hc : lineEnd c = true
      · rw [if_pos hc] at hend ⊢
        rw [keep_cons_end p hc]
        by_cases hcont : continues (p.dropWhile lineEnd) = true
        · rw [if_pos hcont] at hend ⊢
          have hst' : stitched p = false := by simpa [stitched, hcont] using hst
          exact ih (room+1) hothers hst' hend
        · rw [if_neg hcont]
          obtain ⟨d, q, hq⟩ : ∃ d q, p.dropWhile lineEnd = d :: q := by
            apply List.exists_cons_of_ne_nil
            intro hnil
            have hst' : stitched p = false := by simpa [stitched, hnil] using hst
            rw [stitched_ends (List.dropWhile_eq_nil_iff.mp hnil)] at hst'
            cases hst'
          have hstart : lineEnd d = false := by
            have hhead := List.head_dropWhile_not lineEnd (l := p) (by rw [hq]; exact nofun)
            simpa [hq] using hhead
          have hmem : d ∈ p := (List.dropWhile_sublist lineEnd).subset (hq ▸ List.mem_cons_self)
          have hchar : lineChar d = true := (hothers d hmem).resolve_left (by simp [hstart])
          have hsign : d = plus := by
            by_contra hne
            rw [hq, continues, if_neg hne] at hcont
            simp [lineChar, hne] at hchar hcont
            simp_all
          refine ⟨keep q, ?_⟩
          rw [← keep_dropWhile, hq, keep_cons q hstart, hsign]
          rfl
      · have hplain := Bool.eq_false_iff.mpr hc
        rw [if_neg hc] at hend ⊢
        rw [keep_cons p hplain]
        have hst' : stitched p = false := by simpa [stitched, hplain] using hst
        obtain ⟨w, hw⟩ := ih room hothers hst' hend
        exact ⟨w, by rw [hw]; rfl⟩

/-- What comes behind a whole line does not change whether a break in it goes on. -/
theorem continues_append {p after : List UInt8} (hclosed : closed p = true)
    (hstart : ∀ c ∈ after.head?, lineEnd c = false) (hafter : continues after = false) :
    continues ((p ++ after).dropWhile lineEnd) = continues (p.dropWhile lineEnd) := by
  rw [List.dropWhile_append]
  cases hq : p.dropWhile lineEnd with
  | nil =>
    have hdrop : after.dropWhile lineEnd = after := by
      cases after with
      | nil => rfl
      | cons d rest => exact List.dropWhile_cons_of_neg (by simp [hstart d rfl])
    rw [hdrop]
    exact hafter
  | cons d q =>
    cases q with
    | cons e q => rfl
    | nil =>
      have hend : lineEnd d = true := by
        have hparts := List.takeWhile_append_dropWhile (p := lineEnd) (l := p)
        rw [hq] at hparts
        rw [← hparts] at hclosed
        simpa [closed] using hclosed
      have hhead := List.head_dropWhile_not lineEnd (l := p) (by rw [hq]; exact nofun)
      simp [hq, hend] at hhead

/-- What comes behind a whole line changes nothing when it is another text. -/
theorem collapse_append {y after : List UInt8} (room : ℕ) (hclosed : closed y = true)
    (hstart : ∀ c ∈ after.head?, lineEnd c = false) (hafter : continues after = false) :
    clbsCollapseLine room (y ++ after) = clbsCollapseLine room y := by
  induction y generalizing room with
  | nil => cases hclosed
  | cons c p ih =>
    cases room with
    | zero => rfl
    | succ room =>
      rw [List.cons_append, clbsCollapseLine, clbsCollapseLine]
      by_cases hnil : p = []
      · have hc : lineEnd c = true := by simpa [closed, hnil] using hclosed
        have hdrop : after.dropWhile lineEnd = after := by
          cases after with
          | nil => rfl
          | cons d rest => exact List.dropWhile_cons_of_neg (by simp [hstart d rfl])
        rw [if_pos hc, if_pos hc, hnil, List.nil_append, hdrop, hafter]
        rfl
      · have hlast : closed p = true := (closed_cons hnil).symm.trans hclosed
        rw [ih (room+1) hlast, ih room hlast, continues_append hlast hstart hafter]

/-- A text whose end was seen has a whole line in front. -/
theorem collapse_split {text : List UInt8} (room : ℕ)
    (hend : (clbsCollapseLine room text).2 = true) :
    ∃ y after, text = y ++ after ∧ stitched y = true ∧ closed y = true ∧ (keep y).length < room ∧
      (∀ c ∈ after.head?, lineEnd c = false) ∧ continues after = false := by
  induction text generalizing room with
  | nil => cases hend
  | cons c p ih =>
    cases room with
    | zero => cases hend
    | succ room =>
      rw [clbsCollapseLine] at hend
      by_cases hc : lineEnd c = true
      · rw [if_pos hc] at hend
        by_cases hcont : continues (p.dropWhile lineEnd) = true
        · rw [if_pos hcont] at hend
          obtain ⟨y, after, rfl, hst, hclosed, hroom, hstart, hafter⟩ := ih (room+1) hend
          have hne : y ≠ [] := by
            rintro rfl
            cases hclosed
          rw [continues_append hclosed hstart hafter] at hcont
          refine ⟨c :: y, after, rfl, ?_, (closed_cons hne).trans hclosed, ?_, hstart, hafter⟩
          · rw [stitched, hcont, hst]
            simp
          · rw [keep_cons_end y hc]
            exact hroom
        · -- the line ends with this break
          have hall : ∀ d ∈ c :: p.takeWhile lineEnd, lineEnd d = true := by
            intro d hd
            rcases List.mem_cons.mp hd with rfl | hd
            · exact hc
            · exact List.mem_takeWhile_imp hd
          refine ⟨c :: p.takeWhile lineEnd, p.dropWhile lineEnd, ?_, stitched_ends hall, ?_, ?_, ?_,
            Bool.eq_false_iff.mpr hcont⟩
          · rw [List.cons_append, List.takeWhile_append_dropWhile]
          · rw [closed, List.getLast?_eq_some_getLast (List.cons_ne_nil _ _)]
            exact hall _ (List.getLast_mem _)
          · rw [keep_ends hall]
            exact Nat.succ_pos room
          · intro d hd
            have hhead := List.head?_dropWhile_not lineEnd p
            rw [hd] at hhead
            simpa using hhead
      · have hplain := Bool.eq_false_iff.mpr hc
        rw [if_neg hc] at hend
        obtain ⟨y, after, rfl, hst, hclosed, hroom, hstart, hafter⟩ := ih room hend
        have hne : y ≠ [] := by
          rintro rfl
          cases hclosed
        refine ⟨c :: y, after, rfl, ?_, (closed_cons hne).trans hclosed, ?_, hstart, hafter⟩
        · rw [stitched, hplain, hst]
          rfl
        · rw [keep_cons y hplain, List.length_cons]
          omega

end JaszczurHal.CellLocation
