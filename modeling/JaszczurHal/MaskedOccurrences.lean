import JaszczurHal.ModemMasking
import Mathlib.Algebra.BigOperators.Group.List.Basic
import Mathlib.Algebra.GroupWithZero.Nat
import Mathlib.Algebra.Order.Group.Nat
import Mathlib.Tactic.Push

/-!
# What masking leaves of a line

The masked text is laid out over the line it was made from: a place of the line
stands in the text, or belongs to an occurrence that stars stand for. Which
occurrences these are can be told from the line and the secrets alone.
-/

set_option autoImplicit false

namespace JaszczurHal.MaskedOccurrences
open ModemMasking

structure Span where
  start : ℕ
  len : ℕ
  deriving DecidableEq, Repr

def Span.Covers (t : Span) (i : ℕ) : Prop := t.start ≤ i ∧ i < t.start+t.len

def Span.apart (t u : Span) : Bool :=
  decide (t.start+t.len ≤ u.start) || decide (u.start+u.len ≤ t.start)

theorem Span.apart_iff {t u : Span} :
    t.apart u = true ↔ t.start+t.len ≤ u.start ∨ u.start+u.len ≤ t.start := by
  simp [Span.apart]

def total (spans : List Span) : ℕ := (spans.map Span.len).sum

/-- The text for the places from `i` to `j`: each place of the source line stands in it
or lies in a span that stars stand for. -/
inductive Layout (source : List UInt8) : ℕ → List Traced → List Span → ℕ → Prop
  | done (i : ℕ) : Layout source i [] [] i
  | keep {i j : ℕ} {b : UInt8} {text : List Traced} {spans : List Span}
      (byteAt : source[i]? = some b)
      (rest : Layout source (i+1) text spans j) : Layout source i ((b, some i) :: text) spans j
  | hide {i j m : ℕ} {text : List Traced} {spans : List Span} (pos : 0 < m)
      (rest : Layout source (i+m) text spans j) :
      Layout source i (tracedBytes.stars ++ text) (⟨i, m⟩ :: spans) j

namespace Layout

variable {source : List UInt8} {i j l x : ℕ} {b : UInt8} {text a c : List Traced}
  {spans more : List Span}

theorem le (h : Layout source i text spans j) : i ≤ j := by
  induction h with
  | done => exact le_rfl
  | keep _ _ ih => omega
  | hide _ _ ih => omega

theorem append (h : Layout source i a spans x) (h' : Layout source x c more j) :
    Layout source i (a ++ c) (spans ++ more) j := by
  induction h with
  | done => exact h'
  | keep hat _ ih => exact .keep hat (ih h')
  | hide hpos _ ih =>
    rw [List.append_assoc]
    exact .hide hpos (ih h')

theorem spans_within (h : Layout source i text spans j) :
    ∀ t ∈ spans, i ≤ t.start ∧ t.start+t.len ≤ j := by
  induction h with
  | done => simp
  | keep _ _ ih => exact fun t ht => ⟨by have := ih t ht; omega, (ih t ht).2⟩
  | hide hpos hrest ih =>
    intro t ht
    have hle := hrest.le
    rcases List.mem_cons.mp ht with rfl | ht
    · exact ⟨le_rfl, hle⟩
    · have hwithin := ih t ht
      omega

theorem tag_within (h : Layout source i text spans j) :
    ∀ b x, (b, some x) ∈ text → i ≤ x ∧ x < j := by
  induction h with
  | done => simp
  | keep _ hrest ih =>
    intro b x hx
    have hle := hrest.le
    rcases List.mem_cons.mp hx with heq | hx
    · cases heq
      omega
    · have hwithin := ih b x hx
      omega
  | hide hpos _ ih =>
    intro b x hx
    rcases List.mem_append.mp hx with hstar | hx
    · simp [tracedBytes, Alphabet.stars] at hstar
    · have hwithin := ih b x hx
      omega

theorem untagged (h : Layout source i text spans j) :
    ∀ b, (b, none) ∈ text → b = starByte ∧ spans ≠ [] := by
  induction h with
  | done => simp
  | keep _ _ ih =>
    intro b hb
    rcases List.mem_cons.mp hb with heq | hb
    · cases heq
    · exact ih b hb
  | hide _ _ ih =>
    intro b hb
    rcases List.mem_append.mp hb with hstar | hb
    · simp [tracedBytes, Alphabet.stars] at hstar
      exact ⟨hstar, List.cons_ne_nil _ _⟩
    · exact ⟨(ih b hb).1, List.cons_ne_nil _ _⟩

theorem length (h : Layout source i text spans j) :
    i+text.length+total spans = j+3*spans.length := by
  induction h with
  | done => simp [total]
  | keep _ _ ih =>
    simp only [List.length_cons]
    omega
  | hide _ _ ih =>
    simp only [total, List.map_cons, List.sum_cons, List.length_append, Alphabet.stars,
      List.length_cons, List.length_nil] at ih ⊢
    omega

/-- A place is in the text exactly when no span covers it. -/
theorem mem_iff (h : Layout source i text spans j) (hix : i ≤ x) (hxj : x < j) :
    (∃ b, (b, some x) ∈ text) ↔ ∀ t ∈ spans, ¬ t.Covers x := by
  induction h with
  | done => omega
  | @keep i j b text spans hat hrest ih =>
    by_cases heq : x = i
    · subst heq
      constructor
      · intro _ t ht hcovers
        have hwithin := hrest.spans_within t ht
        have hstart := hcovers.1
        omega
      · exact fun _ => ⟨b, List.mem_cons_self⟩
    · rw [← ih (by omega) hxj]
      constructor
      · rintro ⟨b', hb'⟩
        rcases List.mem_cons.mp hb' with heq' | hb'
        · cases heq'
          exact absurd rfl heq
        · exact ⟨b', hb'⟩
      · rintro ⟨b', hb'⟩
        exact ⟨b', List.mem_cons_of_mem _ hb'⟩
  | @hide i j m text spans hpos hrest ih =>
    have hstars : ∀ b, (b, some x) ∉ tracedBytes.stars := by
      intro b hb
      simp [tracedBytes, Alphabet.stars] at hb
    by_cases hcovered : x < i+m
    · constructor
      · rintro ⟨b, hb⟩
        rcases List.mem_append.mp hb with hb | hb
        · exact absurd hb (hstars b)
        · have hwithin := hrest.tag_within b x hb
          omega
      · intro hnone
        exact absurd ⟨hix, hcovered⟩ (hnone _ List.mem_cons_self)
    · rw [List.forall_mem_cons, ← ih (by omega) hxj]
      constructor
      · rintro ⟨b, hb⟩
        rcases List.mem_append.mp hb with hb | hb
        · exact absurd hb (hstars b)
        · exact ⟨fun hcovers => hcovered hcovers.2, b, hb⟩
      · rintro ⟨_, b, hb⟩
        exact ⟨b, List.mem_append_right _ hb⟩

/-- A text is cut in front of a place that stands in it. -/
theorem split (h : Layout source i (a ++ (b, some x) :: c) spans j) :
    ∃ before after, spans = before ++ after ∧ Layout source i a before x ∧
      Layout source x ((b, some x) :: c) after j := by
  generalize htext : a ++ (b, some x) :: c = text at h
  induction h generalizing a with
  | done => simp at htext
  | @keep i j b' text spans hat hrest ih =>
    cases a with
    | nil =>
      cases htext
      exact ⟨[], spans, rfl, .done _, .keep hat hrest⟩
    | cons e a =>
      rw [List.cons_append, List.cons.injEq] at htext
      obtain ⟨before, after, hspans, hbefore, hafter⟩ := ih htext.2
      rw [htext.1]
      exact ⟨before, after, hspans, .keep hat hbefore, hafter⟩
  | @hide i j m text spans hpos hrest ih =>
    match a, htext with
    | [], htext => simp [Alphabet.stars, tracedBytes] at htext
    | [_], htext => simp [Alphabet.stars, tracedBytes] at htext
    | [_, _], htext => simp [Alphabet.stars, tracedBytes] at htext
    | e₁ :: e₂ :: e₃ :: a, htext =>
      simp only [Alphabet.stars, List.cons_append, List.nil_append, List.cons.injEq] at htext
      obtain ⟨h₁, h₂, h₃, htext⟩ := htext
      obtain ⟨before, after, hspans, hbefore, hafter⟩ := ih htext
      rw [h₁, h₂, h₃, hspans]
      exact ⟨_ :: before, after, rfl, .hide hpos hbefore, hafter⟩

/-- Characters that stand in a row are a piece of the source line. -/
theorem run (h : Layout source i (a ++ c) spans j) (htagged : ∀ e ∈ a, e.2 ≠ none) :
    a.map tracedBytes.byte <+: source.drop i ∧ Layout source i a [] (i+a.length) ∧
      Layout source (i+a.length) c spans j := by
  induction a generalizing i with
  | nil => exact ⟨List.nil_prefix, .done _, h⟩
  | cons e a ih =>
    rw [List.cons_append] at h
    generalize htext : e :: (a ++ c) = text at h
    cases h with
    | done => cases htext
    | @keep _ _ b _ _ hat hrest =>
      cases htext
      obtain ⟨hleads, ha, hc⟩ := ih hrest fun e he => htagged e (List.mem_cons_of_mem _ he)
      have hdrop : source.drop i = b :: source.drop (i+1) := by
        obtain ⟨hlt, hget⟩ := List.getElem?_eq_some_iff.mp hat
        rw [List.drop_eq_getElem_cons hlt, hget]
      have hlength : i+(a.length+1) = i+1+a.length := by omega
      rw [hdrop, List.map_cons, List.length_cons, hlength]
      exact ⟨List.prefix_cons_inj _ |>.mpr hleads, .keep hat ha, hc⟩
    | hide hpos hrest =>
      have hhead := (List.cons.inj htext).1
      exact absurd (congrArg Prod.snd hhead) (htagged e List.mem_cons_self)

theorem run_at (h : Layout source j c spans x) (hend : j+l ≤ x)
    (hapart : ∀ t ∈ spans, t.apart ⟨j, l⟩ = true) :
    ∃ m rest, c = m ++ rest ∧ m.map tracedBytes.byte = (source.drop j).take l := by
  induction l generalizing j c with
  | zero => exact ⟨[], c, rfl, rfl⟩
  | succ l ih =>
    cases h with
    | done => omega
    | @keep _ _ b text _ hat hrest =>
      have hnext : ∀ t ∈ spans, t.apart ⟨j+1, l⟩ = true := by
        intro t ht
        have hclear := Span.apart_iff.mp (hapart t ht)
        have hwithin := hrest.spans_within t ht
        apply Span.apart_iff.mpr
        dsimp only at *
        omega
      obtain ⟨m, rest, rfl, hm⟩ := ih hrest (by omega) hnext
      obtain ⟨hlt, hget⟩ := List.getElem?_eq_some_iff.mp hat
      refine ⟨(b, some j) :: m, rest, rfl, ?_⟩
      rw [List.map_cons, hm, List.drop_eq_getElem_cons hlt, hget]
      rfl
    | hide hpos hrest =>
      have hclear := Span.apart_iff.mp (hapart _ List.mem_cons_self)
      dsimp only at hclear
      omega

/-- The row in front of such places ends where they begin. -/
theorem locate (h : Layout source i text spans x) (hij : i ≤ j) (hpos : 0 < l) (hend : j+l ≤ x)
    (hapart : ∀ t ∈ spans, t.apart ⟨j, l⟩ = true) :
    ∃ a b c before, text = a ++ (b, some j) :: c ∧ Layout source i a before j ∧
      (source.drop j).take l <+: ((b, some j) :: c).map tracedBytes.byte := by
  induction h with
  | done => omega
  | @keep i x b text spans hat hrest ih =>
    by_cases heq : i = j
    · subst heq
      obtain ⟨m, rest, htext, hm⟩ := (Layout.keep hat hrest).run_at hend hapart
      refine ⟨[], b, text, [], rfl, .done _, ?_⟩
      rw [htext, List.map_append, hm]
      exact List.prefix_append _ _
    · obtain ⟨a, b', c, before, rfl, ha, hc⟩ := ih (by omega) hend hapart
      exact ⟨(b, some i) :: a, b', c, before, rfl, .keep hat ha, hc⟩
  | @hide i x m text spans hlen hrest ih =>
    have hclear := Span.apart_iff.mp (hapart _ List.mem_cons_self)
    dsimp only at hclear
    obtain ⟨a, b, c, before, rfl, ha, hc⟩ := ih (by omega) hend
      fun t ht => hapart t (List.mem_cons_of_mem _ ht)
    exact ⟨_ ++ a, b, c, _ :: before, (List.append_assoc _ _ _).symm, .hide hlen ha, hc⟩

theorem whole (source : List UInt8) (i : ℕ) (h : i ≤ source.length) :
    Layout source i ((source.zipIdx.map fun c => ((c.1, some c.2) : Traced)).drop i) []
      source.length := by
  induction hrest : source.length-i generalizing i with
  | zero =>
    have heq : i = source.length := by omega
    rw [heq, List.drop_of_length_le (by simp)]
    exact .done _
  | succ n ih =>
    have hlt : i < source.length := by omega
    rw [List.drop_eq_getElem_cons (by simpa using hlt)]
    simp only [List.getElem_map, List.getElem_zipIdx, Nat.zero_add]
    exact .keep (List.getElem?_eq_getElem hlt) (ih (i+1) (by omega) (by omega))

end Layout

def takes (source : List UInt8) (s : List UInt8) (taken : List Span) (j : ℕ) : Bool :=
  s.isPrefixOf (source.drop j) && taken.all (fun t => t.apart ⟨j, s.length⟩) &&
    decide (source.length+3*(taken.length+1) < scratchSize+total taken+s.length)

def takeAt (source s : List UInt8) (taken : List Span) (j : ℕ) : List Span :=
  if takes source s taken j then taken ++ [⟨j, s.length⟩] else taken

def takeSecret (source : List UInt8) (taken : List Span) (s : List UInt8) : List Span :=
  if s = [] then taken else (List.range source.length).foldl (takeAt source s) taken

def takenOf (source : List UInt8) (secrets : List (List UInt8)) : List Span :=
  secrets.foldl (takeSecret source) []

/-- No secret with a star is looked for in a text that has stars already. -/
def starless (source : List UInt8) : List Span → List (List UInt8) → Bool
  | _, [] => true
  | taken, s :: secrets =>
    (!s.contains starByte || taken.isEmpty) && starless source (takeSecret source taken s) secrets

section Taken

variable {source s : List UInt8} {taken spans before after : List Span} {j : ℕ}

theorem takes_iff : takes source s taken j = true ↔ s <+: source.drop j ∧
    (∀ t ∈ taken, t.apart ⟨j, s.length⟩ = true) ∧
      source.length+3*(taken.length+1) < scratchSize+total taken+s.length := by
  simp [takes, and_assoc]

theorem fold_skip (js : List ℕ) (h : ∀ j ∈ js, takes source s taken j = false) :
    js.foldl (takeAt source s) taken = taken := by
  induction js with
  | nil => rfl
  | cons j js ih =>
    have hj := h j List.mem_cons_self
    rw [List.foldl_cons, takeAt, hj]
    exact ih fun j' hj' => h j' (List.mem_cons_of_mem _ hj')

theorem total_append (a b : List Span) : total (a ++ b) = total a+total b := by
  rw [total, total, total, List.map_append, List.sum_append]

theorem total_perm (h : taken.Perm spans) : total taken = total spans :=
  (h.map Span.len).sum_eq

theorem Layout.text_length {text : List Traced} (h : Layout source 0 text spans source.length)
    (hperm : taken.Perm spans) :
    text.length+total taken = source.length+3*taken.length := by
  have hlength := h.length
  rw [total_perm hperm, hperm.length_eq]
  omega

/-- An occurrence that is taken stands in the text, and `strstr` stops there at
the latest. -/
theorem takes_found {x : ℕ} {rest : List Traced} (hs : s ≠ [])
    (hrest : Layout source x rest after source.length) (hafter : ∀ t ∈ after, t ∈ taken)
    (hx : x ≤ j) (htakes : takes source s taken j = true) :
    ∃ a b c inner, rest = a ++ (b, some j) :: c ∧ Layout source x a inner j ∧
      ∃ k ≤ a.length, strstr tracedBytes s rest = some k := by
  obtain ⟨hleads, hapart, -⟩ := takes_iff.mp htakes
  have hpos := List.length_pos_iff.mpr hs
  have hend : j+s.length ≤ source.length := by
    have hlength := hleads.length_le
    rw [List.length_drop] at hlength
    omega
  obtain ⟨a, b, c, inner, rfl, ha, hc⟩ :=
    hrest.locate hx hpos hend fun t ht => hapart t (hafter t ht)
  rw [← List.prefix_iff_eq_take.mp hleads] at hc
  refine ⟨a, b, c, inner, rfl, ha, strstr_least ?_⟩
  rwa [List.drop_left]

structure Match (source s : List UInt8) (x : ℕ) (rest : List Traced) (after : List Span)
    (k : ℕ) (j : ℕ) (inner outer : List Span) : Prop where
  spans : after = inner ++ outer
  front : Layout source x (rest.take k) inner j
  back : Layout source (j+s.length) (rest.drop (k+s.length)) outer source.length
  leads : s <+: source.drop j
  head : ∃ b c, rest.drop k = (b, some j) :: c

theorem match_of_strstr {x k : ℕ} {rest : List Traced} (hs : s ≠ [])
    (hrest : Layout source x rest after source.length)
    (hstar : s.contains starByte = true → after = [])
    (hfound : strstr tracedBytes s rest = some k) :
    ∃ j inner outer, Match source s x rest after k j inner outer := by
  obtain ⟨hwithin, hleads⟩ := strstr_within hfound
  have hpos := List.length_pos_iff.mpr hs
  have hmatched : ((rest.drop k).take s.length).map tracedBytes.byte = s := by
    rw [List.map_take]
    exact (List.prefix_iff_eq_take.mp hleads).symm
  have hcut : rest = rest.take k ++ ((rest.drop k).take s.length ++ rest.drop (k+s.length)) := by
    rw [← List.drop_drop, List.take_append_drop, List.take_append_drop]
  have htagged : ∀ e ∈ (rest.drop k).take s.length, e.2 ≠ none := by
    intro e he hnone
    have hmem : (e.1, none) ∈ rest := by
      rw [← hnone]
      exact List.mem_of_mem_drop (List.mem_of_mem_take he)
    obtain ⟨hbyte, hspans⟩ := hrest.untagged e.1 hmem
    apply hspans
    apply hstar
    rw [List.contains_iff_mem, ← hbyte, ← hmatched]
    exact List.mem_map_of_mem he
  cases hmid : (rest.drop k).take s.length with
  | nil =>
    rw [hmid] at hmatched
    exact absurd hmatched.symm hs
  | cons e m =>
    obtain ⟨b, tag⟩ := e
    rw [hmid] at hcut hmatched htagged
    cases tag with
    | none => exact absurd rfl (htagged _ List.mem_cons_self)
    | some j =>
      have hsplit := hrest
      rw [hcut, List.cons_append] at hsplit
      obtain ⟨inner, outer, hspans, hfront, hback⟩ := hsplit.split
      rw [← List.cons_append] at hback
      obtain ⟨hrun, -, hback⟩ := hback.run htagged
      have hlength : ((b, some j) :: m).length = s.length := by
        rw [← hmatched, List.length_map]
      rw [hlength] at hback
      rw [hmatched] at hrun
      refine ⟨j, inner, outer, hspans, hfront, hback, hrun, b, m ++ rest.drop (k+s.length), ?_⟩
      rw [← List.cons_append, ← hmid, ← List.drop_drop, List.take_append_drop]

/-- Nothing between the last stars and the match is taken. -/
theorem Match.none_before {x k : ℕ} {rest : List Traced} {inner outer : List Span}
    (h : Match source s x rest after k j inner outer) (hs : s ≠ [])
    (hrest : Layout source x rest after source.length) (hafter : ∀ t ∈ after, t ∈ taken)
    (hfound : strstr tracedBytes s rest = some k) {j' : ℕ} (hx : x ≤ j') (hj : j' < j) :
    takes source s taken j' = false := by
  by_contra htakes
  rw [Bool.not_eq_false] at htakes
  obtain ⟨a, b', c', inner', htext, ha, k', hk', hfound'⟩ :=
    takes_found hs hrest hafter hx htakes
  obtain ⟨b, c, hhead⟩ := h.head
  cases hfound.symm.trans hfound'
  have hdrop : (b, some j) :: c = a.drop k ++ (b', some j') :: c' := by
    rw [← hhead, htext, List.drop_append_of_le_length hk']
  cases htail : a.drop k with
  | nil =>
    rw [htail, List.nil_append, List.cons.injEq, Prod.mk.injEq, Option.some.injEq] at hdrop
    omega
  | cons e tail =>
    rw [htail, List.cons_append, List.cons.injEq] at hdrop
    have hmem : (b, some j) ∈ a := by
      rw [hdrop.1]
      exact List.mem_of_mem_drop (htail ▸ List.mem_cons_self)
    have hwithin := ha.tag_within b j hmem
    omega

/-- The match itself is taken, if its stars still fit. -/
theorem Match.is_taken {x k : ℕ} {rest front : List Traced} {inner outer : List Span}
    (h : Match source s x rest after k j inner outer)
    (hfront : Layout source 0 front before x)
    (hperm : taken.Perm (before ++ after))
    (hroom : source.length+3*(taken.length+1) < scratchSize+total taken+s.length) :
    takes source s taken j = true := by
  apply takes_iff.mpr
  refine ⟨h.leads, fun t ht => Span.apart_iff.mpr ?_, hroom⟩
  have hx := h.front.le
  rw [h.spans] at hperm
  rcases List.mem_append.mp (hperm.mem_iff.mp ht) with ht | ht
  · have hwithin := hfront.spans_within t ht
    dsimp only
    omega
  · rcases List.mem_append.mp ht with ht | ht
    · exact .inl (h.front.spans_within t ht).2
    · exact .inr (h.back.spans_within t ht).1

/-- Positions that touch the occurrence just taken are passed over. -/
theorem fold_after_match (htakes : takes source s taken j = true) (x : ℕ) (hx : x ≤ j)
    (hend : j+s.length ≤ source.length) (hpos : 0 < s.length)
    (hbefore : ∀ j', x ≤ j' → j' < j → takes source s taken j' = false) :
    (List.range' x (source.length-x)).foldl (takeAt source s) taken =
      (List.range' (j+s.length) (source.length-(j+s.length))).foldl (takeAt source s)
        (taken ++ [⟨j, s.length⟩]) := by
  have hrange : List.range' x (source.length-x) = List.range' x (j-x) ++
      (j :: (List.range' (j+1) (s.length-1) ++
        List.range' (j+s.length) (source.length-(j+s.length)))) := by
    have h₁ : j+s.length = j+1+(s.length-1) := by omega
    rw [h₁, List.range'_append_1, ← List.range'_succ]
    have h₂ : List.range' j (s.length-1+(source.length-(j+1+(s.length-1)))+1) =
        List.range' (x+(j-x)) (source.length-j) := by
      congr 1 <;> omega
    rw [h₂, List.range'_append_1]
    congr 1
    omega
  have hpast : ∀ j' ∈ List.range' (j+1) (s.length-1),
      takes source s (taken ++ [⟨j, s.length⟩]) j' = false := by
    intro j' hj'
    rw [List.mem_range'_1] at hj'
    by_contra htouch
    rw [Bool.not_eq_false] at htouch
    have hclear := Span.apart_iff.mp ((takes_iff.mp htouch).2.1 ⟨j, s.length⟩ (by simp))
    dsimp only at hclear
    omega
  rw [hrange, List.foldl_append, fold_skip (List.range' x (j-x)), List.foldl_cons,
    List.foldl_append, takeAt, if_pos htakes, fold_skip (List.range' (j+1) (s.length-1)) hpast]
  intro j' hj'
  rw [List.mem_range'_1] at hj'
  exact hbefore j' hj'.1 (by omega)

def Masked (source : List UInt8) (result : Option (Buffer Traced)) (taken : List Span) : Prop :=
  ∃ buf spans, result = some buf ∧ Layout source 0 buf.text spans source.length ∧ taken.Perm spans

/-- One secret: induction on the fuel, the text is split in front of the place
where the search goes on. -/
theorem maskLoop_layout (hs : s ≠ []) (fuel : ℕ) {front rest : List Traced}
    {x : ℕ} (written : ℕ) (hfront : Layout source 0 front before x)
    (hrest : Layout source x rest after source.length) (hperm : taken.Perm (before ++ after))
    (hstar : s.contains starByte = true → after = []) (hfuel : rest.length < fuel)
    (hsize : source.length+3*taken.length < scratchSize+total taken) :
    Masked source (maskLoop tracedBytes scratchSize s fuel ⟨front ++ rest, written⟩ front.length)
      ((List.range' x (source.length-x)).foldl (takeAt source s) taken) := by
  induction fuel generalizing front rest x written before after taken with
  | zero => omega
  | succ fuel ih =>
    have hpos := List.length_pos_iff.mpr hs
    have hafter : ∀ t ∈ after, t ∈ taken := fun t ht =>
      hperm.mem_iff.mpr (List.mem_append_right _ ht)
    have hlength := (hfront.append hrest).text_length hperm
    have hx := hrest.le
    rw [maskLoop, List.drop_left]
    cases hfound : strstr tracedBytes s rest with
    | none =>
      refine ⟨_, _, rfl, hfront.append hrest, ?_⟩
      rw [fold_skip _ fun j hj => ?_]
      · exact hperm
      · by_contra htakes
        rw [Bool.not_eq_false] at htakes
        obtain ⟨_, _, _, _, _, _, k, _, hk⟩ :=
          takes_found hs hrest hafter (List.mem_range'_1.mp hj).1 htakes
        rw [hfound] at hk
        cases hk
    | some k =>
      obtain ⟨j, inner, outer, hmatch⟩ := match_of_strstr hs hrest hstar hfound
      have hwithin := (strstr_within hfound).1
      dsimp only
      split_ifs with hpast hfull hlen
      · rw [List.length_append] at hpast
        omega
      · refine ⟨_, _, rfl, hfront.append hrest, ?_⟩
        rw [fold_skip _ fun j hj => ?_]
        · exact hperm
        · by_contra htakes
          rw [Bool.not_eq_false] at htakes
          have hroom := (takes_iff.mp htakes).2.2
          omega
      all_goals
        have hroom : source.length+3*(taken.length+1) < scratchSize+total taken+s.length := by
          omega
        have htakes := hmatch.is_taken hfront hperm hroom
        have hnone := fun j' (hxj : x ≤ j') (hj : j' < j) =>
          hmatch.none_before hs hrest hafter hfound hxj hj
        rw [fold_after_match htakes x hmatch.front.le hmatch.back.le hpos hnone,
          List.take_length_add_append, Nat.add_assoc front.length k, List.drop_length_add_append]
        have hnext := hfront.append (hmatch.front.append (Layout.hide hpos (.done _)))
        rw [List.append_nil] at hnext
        have hkeep : front ++ rest.take k ++ tracedBytes.stars =
            front ++ (rest.take k ++ tracedBytes.stars) := List.append_assoc _ _ _
        have hp : front.length+k+3 = (front ++ (rest.take k ++ tracedBytes.stars)).length := by
          simp only [List.length_append, List.length_take, Alphabet.stars, List.length_cons,
            List.length_nil]
          omega
        rw [hkeep, hp]
        apply ih _ hnext hmatch.back
        · rw [hmatch.spans, ← List.append_assoc] at hperm
          have hmove : List.Perm (before ++ inner ++ (⟨j, s.length⟩ :: outer))
              (⟨j, s.length⟩ :: (before ++ inner ++ outer)) := List.perm_middle
          rw [← List.append_assoc before, List.append_assoc (before ++ inner)]
          apply List.Perm.trans _ hmove.symm
          exact (List.perm_append_singleton _ _).trans (hperm.cons _)
        · intro hcontains
          have hnil := hstar hcontains
          rw [hmatch.spans] at hnil
          exact (List.append_eq_nil_iff.mp hnil).2
        · rw [List.length_drop]
          omega
        · rw [total_append, List.length_append]
          simp only [total, List.map_cons, List.map_nil, List.sum_cons, List.sum_nil,
            List.length_cons, List.length_nil] at hroom ⊢
          omega

theorem maskSecret_layout {buf : Buffer Traced}
    (htext : Layout source 0 buf.text spans source.length) (hperm : taken.Perm spans)
    (hstar : s.contains starByte = true → taken = []) (hsize : buf.text.length < scratchSize) :
    Masked source (maskSecret tracedBytes scratchSize buf s) (takeSecret source taken s) := by
  rw [maskSecret, takeSecret]
  split_ifs with hs
  · exact ⟨buf, spans, rfl, htext, hperm⟩
  · have hlength := htext.text_length hperm
    have hnone : s.contains starByte = true → spans = [] := by
      intro hcontains
      rw [hstar hcontains] at hperm
      exact List.perm_nil.mp hperm.symm
    have hrun := maskLoop_layout hs (buf.text.length+1) buf.written (.done 0) htext hperm hnone
      (by omega) (by omega)
    rw [List.range_eq_range']
    exact hrun

theorem masks_layout (secrets : List (List UInt8)) {buf : Buffer Traced}
    (htext : Layout source 0 buf.text spans source.length) (hperm : taken.Perm spans)
    (hclear : starless source taken secrets = true) (hfits : buf.Fits scratchSize) :
    Masked source (secrets.foldlM (maskSecret tracedBytes scratchSize) buf)
      (secrets.foldl (takeSecret source) taken) := by
  induction secrets generalizing buf taken spans with
  | nil => exact ⟨buf, spans, rfl, htext, hperm⟩
  | cons s secrets ih =>
    rw [starless, Bool.and_eq_true, Bool.or_eq_true] at hclear
    have hstar : s.contains starByte = true → taken = [] := by
      intro hcontains
      rcases hclear.1 with hnone | hempty
      · rw [hcontains] at hnone
        cases hnone
      · exact List.isEmpty_iff.mp hempty
    obtain ⟨next, spans', hnext, htext', hperm'⟩ :=
      maskSecret_layout htext hperm hstar hfits.text
    obtain ⟨next', hnext', hfits'⟩ := maskSecret_fits (A := tracedBytes) (s := s) buf hfits
    cases hnext.symm.trans hnext'
    rw [List.foldlM_cons, hnext]
    exact ih htext' hperm' hclear.2 hfits'

end Taken

def InSecret (line : List UInt8) (secrets : List (List UInt8)) (i : ℕ) : Prop :=
  ∃ s ∈ secrets, s ≠ [] ∧ ∃ j, s <+: line.drop j ∧ j ≤ i ∧ i < j+s.length

def Hidden (line : List UInt8) (secrets : List (List UInt8)) (text : List Traced) : Prop :=
  ∀ b i, (b, some i) ∈ text → ¬ InSecret line secrets i

def cutLine (line : List UInt8) : List UInt8 := line.take (scratchSize-1)

def Covered (line : List UInt8) (secrets : List (List UInt8)) : Prop :=
  ∀ i < (cutLine line).length, InSecret line secrets i →
    ∃ t ∈ takenOf (cutLine line) secrets, t.Covers i

theorem cut_trace (line : List UInt8) :
    (trace line).take (if (trace line).length ≥ scratchSize then scratchSize-1
      else (trace line).length) = trace (cutLine line) := by
  have hlength : (trace line).length = line.length := by simp [trace]
  have hcut : (trace line).take (scratchSize-1) = trace (cutLine line) := by
    rw [trace, trace, cutLine, ← List.map_take]
    congr 1
    apply List.ext_getElem?
    intro i
    simp only [List.getElem?_take, List.getElem?_zipIdx]
    split_ifs <;> rfl
  split_ifs with hlong
  · exact hcut
  · rw [← hcut, List.take_of_length_le le_rfl, List.take_of_length_le]
    omega

theorem logFiltered_layout (secrets : List (List UInt8)) (cmdSecret line : List UInt8)
    (hclear : starless (cutLine line) [] (secrets ++ [cmdSecret]) = true) :
    Masked (cutLine line) (logFiltered tracedBytes secrets cmdSecret (trace line))
      (takenOf (cutLine line) (secrets ++ [cmdSecret])) := by
  rw [logFiltered, cut_trace]
  apply masks_layout _ (Layout.whole _ 0 (Nat.zero_le _)) (List.Perm.refl []) hclear
  have hlength : (trace (cutLine line)).length ≤ scratchSize-1 := by
    rw [trace, List.length_map, List.length_zipIdx]
    exact List.length_take_le _ _
  constructor
  · change (trace (cutLine line)).length < scratchSize
    simp only [scratchSize] at *
    omega
  · split_ifs <;> simp only [scratchSize] at * <;> omega

/-- Masking ends inside its buffer, and the log hides every occurrence exactly
when the occurrences that are taken cover what the buffer has of all of them. -/
theorem log_hides_iff (secrets : List (List UInt8)) (cmdSecret line : List UInt8) :
    ∃ result, logFiltered tracedBytes secrets cmdSecret (trace line) = some result ∧
      logFiltered plainBytes secrets cmdSecret line = some (result.erase tracedBytes) ∧
      result.Fits scratchSize ∧
      (starless (cutLine line) [] (secrets ++ [cmdSecret]) = true →
        (Hidden line (secrets ++ [cmdSecret]) result.text ↔
          Covered line (secrets ++ [cmdSecret]))) := by
  obtain ⟨result, hresult, hfits⟩ :=
    logFiltered_fits (A := tracedBytes) secrets cmdSecret (trace line)
  refine ⟨result, hresult, ?_, hfits, fun hclear => ?_⟩
  · have herase := logFiltered_erase (A := tracedBytes) secrets cmdSecret (trace line)
    rw [trace_bytes, hresult] at herase
    exact herase
  · obtain ⟨buf, spans, hbuf, htext, hperm⟩ := logFiltered_layout secrets cmdSecret line hclear
    cases hresult.symm.trans hbuf
    constructor
    · intro hhidden i hi hsecret
      by_contra hnone
      push Not at hnone
      obtain ⟨b, hb⟩ := (htext.mem_iff (Nat.zero_le i) hi).mpr
        fun t ht => hnone t (hperm.mem_iff.mpr ht)
      exact hhidden b i hb hsecret
    · intro hcovered b i hb hsecret
      have hwithin := htext.tag_within b i hb
      obtain ⟨t, ht, hcovers⟩ := hcovered i hwithin.2 hsecret
      exact (htext.mem_iff (Nat.zero_le i) hwithin.2).mp ⟨b, hb⟩ t (hperm.mem_iff.mp ht) hcovers

def cutSecret : List UInt8 := List.replicate 158 0x41 ++ [0x31, 0x32]

theorem cut_secret_shows :
    ¬ ∀ (secrets : List (List UInt8)) (cmdSecret line : List UInt8) (result : Buffer Traced),
      logFiltered tracedBytes secrets cmdSecret (trace line) = some result →
      Hidden line (secrets ++ [cmdSecret]) result.text := by
  intro h
  obtain ⟨result, hresult, -⟩ := log_hides_iff [] [0x31, 0x32] cutSecret
  have hshown : (logFiltered tracedBytes [] [0x31, 0x32] (trace cutSecret)).map
      (fun r => decide ((0x31, some 158) ∈ r.text)) = some true := by
    decide +kernel
  rw [hresult] at hshown
  apply h [] [0x31, 0x32] cutSecret result hresult 0x31 158
  · exact of_decide_eq_true (Option.some.inj hshown)
  · exact ⟨_, List.mem_cons_self, by decide, 158, by decide, by decide, by decide⟩

/-- The second of two secrets that overlap keeps its last character. -/
example : (logFiltered plainBytes [[0x61, 0x62, 0x63]] [0x62, 0x63, 0x64]
    [0x61, 0x62, 0x63, 0x64]).map Buffer.text = some [0x2A, 0x2A, 0x2A, 0x64] := by
  decide

end JaszczurHal.MaskedOccurrences
