import JaszczurHal.UnifiedDiffGroups
import Mathlib.Data.List.TakeWhile

/-!
# Patching

The usual patch rule: a hunk's ranges say where its lines stand in the old and
in the new file, context and removed lines must be the old lines, and what no
hunk covers is copied. The hunks of a diff turn the old lines into the new ones.
-/

set_option autoImplicit false

namespace JaszczurHal.UnifiedDiff
open DecimalText EditScripts

def expect (literal text : List UInt8) : Option (List UInt8) :=
  if text.take literal.length = literal then some (text.drop literal.length) else none

def parseNumber (text : List UInt8) : Option (ℕ × List UInt8) :=
  if text.takeWhile digitByte = [] then none
  else some (valueFrom 0 (text.takeWhile digitByte), text.dropWhile digitByte)

def parseRange (text : List UInt8) : Option ((ℕ × ℕ) × List UInt8) :=
  match parseNumber text with
  | none => none
  | some (start, rest) =>
    match expect (bytes ",") rest with
    | none => some ((start, 1), rest)
    | some rest => (parseNumber rest).map fun parsed => ((start, parsed.1), parsed.2)

def parseHeader (line : Line) : Option ((ℕ × ℕ) × (ℕ × ℕ)) :=
  match (expect (bytes "@@ -") line).bind parseRange with
  | none => none
  | some (old, rest) =>
    match (expect (bytes " +") rest).bind parseRange with
    | none => none
    | some (new, rest) => if rest = bytes " @@" then some (old, new) else none

/-- The lines before a range; one that is empty names the line it follows. -/
def before (range : ℕ × ℕ) : ℕ := if range.2 = 0 then range.1 else range.1-1

def applyBody : List Line → ℕ → ℕ → List Line → Option (List Line × List Line × List Line)
  | lines, 0, 0, old => some ([], old, lines)
  | [], _+1, _, _ => none
  | [], 0, _+1, _ => none
  | [] :: _, _, _, _ => none
  | (mark :: text) :: lines, oldCount, newCount, old =>
    if mark = 32 then
      if 0 < oldCount ∧ 0 < newCount ∧ old.head? = some text then
        (applyBody lines (oldCount-1) (newCount-1) old.tail).map fun r => (text :: r.1, r.2)
      else none
    else if mark = 45 then
      if 0 < oldCount ∧ old.head? = some text then applyBody lines (oldCount-1) newCount old.tail
      else none
    else if mark = 43 then
      if 0 < newCount then
        (applyBody lines oldCount (newCount-1) old).map fun r => (text :: r.1, r.2)
      else none
    else none

def applyHunks : ℕ → List Line → ℕ → ℕ → List Line → Option (List Line)
  | _, [], _, _, old => some old
  | 0, _ :: _, _, _, _ => none
  | fuel+1, line :: lines, oldAt, newAt, old =>
    match parseHeader line with
    | none => none
    | some (oldRange, newRange) =>
      let gap := before oldRange-oldAt
      if oldAt ≤ before oldRange ∧ gap ≤ old.length ∧ before newRange = newAt+gap then
        match applyBody lines oldRange.2 newRange.2 (old.drop gap) with
        | none => none
        | some (added, old', lines) =>
          (applyHunks fuel lines (before oldRange+oldRange.2) (before newRange+newRange.2)
            old').map fun more => old.take gap ++ (added ++ more)
      else none

def patch (lines old : List Line) : Option (List Line) :=
  match lines with
  | [] => some old
  | [_] => none
  | first :: second :: lines =>
    if (expect (bytes "--- ") first).isSome ∧ (expect (bytes "+++ ") second).isSome then
      applyHunks lines.length lines 0 0 old
    else none

def printed (call : Line × Line) : Line := call.1 ++ call.2

theorem expect_append (literal rest : List UInt8) :
    expect literal (literal ++ rest) = some rest := by
  rw [expect, List.take_left, if_pos rfl, List.drop_left]

theorem parseNumber_decimal (n : ℕ) {rest : List UInt8} (hrest : Stops rest) :
    parseNumber (decimal n ++ rest) = some (n, rest) := by
  have htake := takeWhile_digits (decimal_digits n) hrest
  have hdrop : (decimal n ++ rest).dropWhile digitByte = rest := by
    have hparts := List.takeWhile_append_dropWhile (p := digitByte) (l := decimal n ++ rest)
    rw [htake] at hparts
    exact List.append_cancel_left hparts
  rw [parseNumber, htake, if_neg (decimal_ne_nil n), hdrop, valueFrom_decimal]

def shownRange (start stop : ℕ) : ℕ × ℕ :=
  (if stop-start = 0 then start else start+1, stop-start)

theorem parseRange_formatRange (start stop : ℕ) {b : UInt8} {rest : List UInt8}
    (hdigit : digitByte b = false) (hcomma : b ≠ 44) :
    parseRange (formatRange start stop ++ b :: rest) = some (shownRange start stop, b :: rest) := by
  have hrest : Stops (b :: rest) := stops_cons hdigit
  have hline : bytes "," = [44] := by decide
  have hcommaStops : ∀ more : List UInt8, Stops (bytes "," ++ more) := fun more => by
    rw [hline]
    exact stops_cons (by decide)
  rw [formatRange, shownRange]
  by_cases hone : stop-start = 1
  · have hother : expect (bytes ",") (b :: rest) = none := by
      rw [expect, hline, if_neg]
      intro heq
      exact hcomma (List.cons.inj heq).1
    rw [if_pos hone, parseRange, parseNumber_decimal _ hrest]
    dsimp only
    rw [hother, hone, if_neg (by decide)]
  · rw [if_neg hone]
    by_cases hzero : stop-start = 0
    · rw [if_pos hzero, List.append_assoc, List.append_assoc, parseRange,
        parseNumber_decimal _ (hcommaStops _)]
      dsimp only
      rw [expect_append]
      dsimp only
      rw [parseNumber_decimal _ hrest, hzero, if_pos rfl]
      rfl
    · rw [if_neg hzero, List.append_assoc, List.append_assoc, parseRange,
        parseNumber_decimal _ (hcommaStops _)]
      dsimp only
      rw [expect_append]
      dsimp only
      rw [parseNumber_decimal _ hrest, if_neg hzero]
      rfl

theorem parseHeader_header (hunk : List Opcode) : parseHeader (header hunk) =
    some (shownRange (oldRange hunk).1 (oldRange hunk).2,
      shownRange (newRange hunk).1 (newRange hunk).2) := by
  have hplus : bytes " +" = [32, 43] := by decide
  have hend : bytes " @@" = [32, 64, 64] := by decide
  have hold : ∀ more, parseRange (formatRange (oldRange hunk).1 (oldRange hunk).2 ++
      (bytes " +" ++ more)) =
        some (shownRange (oldRange hunk).1 (oldRange hunk).2, bytes " +" ++ more) := by
    intro more
    rw [hplus]
    exact parseRange_formatRange _ _ (by decide) (by decide)
  have hnew : parseRange (formatRange (newRange hunk).1 (newRange hunk).2 ++ bytes " @@") =
      some (shownRange (newRange hunk).1 (newRange hunk).2, bytes " @@") := by
    rw [hend]
    exact parseRange_formatRange _ _ (by decide) (by decide)
  rw [header, List.append_assoc, List.append_assoc, List.append_assoc, parseHeader, expect_append,
    Option.bind_some, hold]
  dsimp only
  rw [expect_append, Option.bind_some, hnew]
  dsimp only
  rw [if_pos rfl]

theorem before_shownRange (start stop : ℕ) :
    before (shownRange start stop) = start ∧ (shownRange start stop).2 = stop-start := by
  rw [before, shownRange]
  dsimp only
  split_ifs <;> simp

inductive Body : List (Line × Line) → List Line → List Line → Prop where
  | nil : Body [] [] []
  | context {lines : List (Line × Line)} {old new : List Line} (text : Line)
      (h : Body lines old new) : Body ((bytes " ", text) :: lines) (text :: old) (text :: new)
  | remove {lines : List (Line × Line)} {old new : List Line} (text : Line)
      (h : Body lines old new) : Body ((bytes "-", text) :: lines) (text :: old) new
  | insert {lines : List (Line × Line)} {old new : List Line} (text : Line)
      (h : Body lines old new) : Body ((bytes "+", text) :: lines) old (text :: new)

theorem Body.append {lines more : List (Line × Line)} {old new old' new' : List Line}
    (h : Body lines old new) (h' : Body more old' new') :
    Body (lines ++ more) (old ++ old') (new ++ new') := by
  induction h with
  | nil => exact h'
  | context text _ ih => exact .context text ih
  | remove text _ ih => exact .remove text ih
  | insert text _ ih => exact .insert text ih

theorem marked_body (lines : List Line) :
    Body (lines.map fun line => (bytes " ", line)) lines lines ∧
      Body (lines.map fun line => (bytes "-", line)) lines [] ∧
        Body (lines.map fun line => (bytes "+", line)) [] lines := by
  induction lines with
  | nil => exact ⟨.nil, .nil, .nil⟩
  | cons line lines ih => exact ⟨.context line ih.1, .remove line ih.2.1, .insert line ih.2.2⟩

variable {a b : List Line} {i j i' j' : ℕ}

theorem slice_self (lines : List Line) (n : ℕ) : slice lines n n = [] := by simp [slice]

theorem runLines_body {code : Opcode} (h : code.Holds a b) :
    Body (runLines a b code) (slice a code.aBegin code.aEnd) (slice b code.bBegin code.bEnd) := by
  rw [runLines]
  cases htag : code.tag with
  | equal =>
    rw [← h.same htag]
    exact (marked_body _).1
  | remove =>
    rw [h.removed htag, slice_self]
    exact (marked_body _).2.1
  | insert =>
    rw [h.inserted htag, slice_self]
    exact (marked_body _).2.2

theorem Runs.order {codes : List Opcode} (h : Runs a b i j codes i' j') : i ≤ i' ∧ j ≤ j' := by
  induction h with
  | nil => exact ⟨Nat.le_refl _, Nat.le_refl _⟩
  | cons hi hj hcode _ ih =>
    have hold := hcode.oldOrder
    have hnew := hcode.newOrder
    omega

theorem runs_body {codes : List Opcode} (h : Runs a b i j codes i' j') :
    Body (codes.flatMap (runLines a b)) (slice a i i') (slice b j j') := by
  induction h with
  | nil =>
    rw [slice_self, slice_self]
    exact .nil
  | @cons code codes i j i' j' hi hj hcode hrest ih =>
    have hbody := runLines_body hcode
    obtain ⟨hold, hnew⟩ := hrest.order
    rw [hi, hj] at hbody
    rw [List.flatMap_cons, slice_append a (hi ▸ hcode.oldOrder) hold,
      slice_append b (hj ▸ hcode.newOrder) hnew]
    exact hbody.append ih

theorem applyBody_body {lines : List (Line × Line)} {old new : List Line} (h : Body lines old new)
    (rest more : List Line) :
    applyBody (lines.map printed ++ rest) old.length new.length (old ++ more) =
      some (new, more, rest) := by
  have hspace : bytes " " = [32] := by decide
  have hminus : bytes "-" = [45] := by decide
  have hplus : bytes "+" = [43] := by decide
  induction h with
  | nil => rw [List.map_nil, List.nil_append, List.length_nil, applyBody, List.nil_append]
  | @context lines old new text _ ih =>
    rw [List.map_cons, List.cons_append, printed, hspace, List.singleton_append, List.length_cons,
      List.length_cons, List.cons_append, applyBody, if_pos rfl,
      if_pos ⟨Nat.succ_pos _, Nat.succ_pos _, rfl⟩, Nat.add_sub_cancel, Nat.add_sub_cancel,
      List.tail_cons, ih]
    · rfl
    · exact fun h => absurd h (Nat.succ_ne_zero _)
  | @remove lines old new text _ ih =>
    rw [List.map_cons, List.cons_append, printed, hminus, List.singleton_append, List.length_cons,
      List.cons_append, applyBody, if_neg (by decide), if_pos rfl,
      if_pos ⟨Nat.succ_pos _, rfl⟩, Nat.add_sub_cancel, List.tail_cons, ih]
    exact fun h => absurd h (Nat.succ_ne_zero _)
  | @insert lines old new text _ ih =>
    rw [List.map_cons, List.cons_append, printed, hplus, List.singleton_append, List.length_cons,
      applyBody, if_neg (by decide), if_neg (by decide), if_pos rfl, if_pos (Nat.succ_pos _),
      Nat.add_sub_cancel, ih]
    · rfl
    · exact fun _ h => absurd h (Nat.succ_ne_zero _)

variable {a b : List Line} {i j i' j' n : ℕ}

theorem runs_ranges {codes : List Opcode} (hne : codes ≠ []) (h : Runs a b i j codes i' j') :
    oldRange codes = (i, i') ∧ newRange codes = (j, j') := by
  have hlast : ∀ {i j : ℕ} {codes : List Opcode}, codes ≠ [] → Runs a b i j codes i' j' →
      codes.getLast?.map Opcode.aEnd = some i' ∧ codes.getLast?.map Opcode.bEnd = some j' := by
    intro i j codes hne h
    rcases List.eq_nil_or_concat codes with rfl | ⟨init, last, rfl⟩
    · exact absurd rfl hne
    · rw [List.concat_eq_append] at h ⊢
      obtain ⟨p, q, _, hlast⟩ := h.split
      rw [List.getLast?_concat]
      cases hlast with
      | cons _ _ _ hnil =>
        cases hnil
        exact ⟨rfl, rfl⟩
  obtain ⟨hold, hnew⟩ := hlast hne h
  rw [oldRange, newRange, hold, hnew]
  cases h with
  | nil => exact absurd rfl hne
  | cons hi hj _ _ =>
    rw [List.head?_cons, Option.map_some, Option.map_some, hi, hj]
    exact ⟨rfl, rfl⟩

theorem drop_slice (lines : List Line) {start stop : ℕ} (horder : start ≤ stop) :
    lines.drop start = slice lines start stop ++ lines.drop stop := by
  have hparts := List.take_append_drop (stop-start) (lines.drop start)
  rw [List.drop_drop, Nat.add_sub_cancel' horder] at hparts
  exact hparts.symm

theorem Gap.drop (h : Gap a b i j a.length b.length) : a.drop i = b.drop j := by
  have hsame := h.same
  rw [drop_slice a h.oldOrder, drop_slice b h.newOrder, hsame, List.drop_length, List.drop_length]

theorem Runs.inside {codes : List Opcode} (h : Runs a b i j codes i' j') (hi : i ≤ a.length)
    (hj : j ≤ b.length) : i' ≤ a.length ∧ j' ≤ b.length := by
  induction h with
  | nil => exact ⟨hi, hj⟩
  | cons _ _ hcode _ ih => exact ih hcode.oldInside hcode.newInside

theorem applyHunks_hunks {hunks : List (List Opcode)} {fuel : ℕ}
    (h : Hunks a b i j hunks i' j') (hend : Gap a b i' j' a.length b.length)
    (hfuel : hunks.length ≤ fuel) :
    applyHunks fuel ((hunks.flatMap (writeHunk a b)).map printed) i j (a.drop i) =
      some (b.drop j) := by
  induction h generalizing fuel with
  | nil =>
    rw [List.flatMap_nil, List.map_nil, applyHunks, hend.drop]
  | @cons hunk rest i j p q p' q' i' j' hgap hne hruns _ ih =>
    obtain ⟨fuel, rfl⟩ : ∃ m, fuel = m+1 := ⟨fuel-1, by rw [List.length_cons] at hfuel; omega⟩
    have hlater := ih hend (Nat.le_of_succ_le_succ hfuel)
    obtain ⟨hold, hnew⟩ := runs_ranges hne hruns
    obtain ⟨horder, hneworder⟩ := hruns.order
    have hlines : ((hunk :: rest).flatMap (writeHunk a b)).map printed =
        header hunk :: ((hunk.flatMap (runLines a b)).map printed ++
          (rest.flatMap (writeHunk a b)).map printed) := by
      rw [List.flatMap_cons, writeHunk, List.cons_append, List.map_cons, List.map_append, printed,
        List.append_nil]
    have hgapLength := hgap.length
    have hgapOrder := hgap.oldOrder
    have hgapNew := hgap.newOrder
    obtain ⟨hinside, hnewInside⟩ := hruns.inside hgap.oldInside hgap.newInside
    have hdrop : (a.drop i).drop (p-i) = slice a p p' ++ a.drop p' := by
      rw [List.drop_drop, Nat.add_sub_cancel' hgapOrder, drop_slice a horder]
    have hbody := applyBody_body (runs_body hruns) ((rest.flatMap (writeHunk a b)).map printed)
      (a.drop p')
    rw [slice_length hinside, slice_length hnewInside] at hbody
    rw [hlines, applyHunks, parseHeader_header, hold, hnew]
    dsimp only
    rw [(before_shownRange p p').1, (before_shownRange p p').2, (before_shownRange q q').1,
      (before_shownRange q q').2, hdrop, hbody]
    dsimp only
    have hroom : p-i ≤ (a.drop i).length := by
      rw [List.length_drop]
      have hgapInside := hgap.oldInside
      omega
    rw [if_pos ⟨hgapOrder, hroom, by omega⟩, Nat.add_sub_cancel' horder,
      Nat.add_sub_cancel' hneworder, hlater, Option.map_some]
    have hcopied : (a.drop i).take (p-i) = slice b j q := hgap.same
    rw [hcopied, drop_slice b hgapNew, drop_slice b hneworder]

theorem hunks_grouped (a b : List Line) :
    Grouped 3 a b (hunks a b) (edits (diffTags a b)) := by
  have hcoded := opcodes_coded a b
  rw [hunks]
  split_ifs with hnone
  · rw [hnone] at hcoded
    obtain ⟨hruns, _, hcount⟩ := hcoded
    obtain ⟨hgap, _⟩ := idle_gap hruns rfl (Nat.zero_le _) (Nat.zero_le _)
    exact ⟨⟨0, 0, .nil 0 0, hgap⟩, nofun, hcount⟩
  · exact groupHunks_grouped (by decide) hcoded

/-- Patching the old lines with the diff gives the new ones. -/
theorem patch_unifiedDiff (a b : List Line) (fromName toName : Line) :
    patch ((unifiedDiff a b fromName toName).map printed) a = some b := by
  obtain ⟨p, q, hhunks, hend⟩ := (hunks_grouped a b).order
  have hfuel : (hunks a b).length ≤
      (((hunks a b).flatMap (writeHunk a b)).map printed).length := by
    rw [List.length_map]
    generalize hunks a b = hunks
    induction hunks with
    | nil => exact Nat.le_refl 0
    | cons hunk hunks ih =>
      rw [List.flatMap_cons, List.length_append, writeHunk, List.length_cons, List.length_cons]
      omega
  have happly := applyHunks_hunks hhunks hend hfuel
  rw [List.drop_zero, List.drop_zero] at happly
  rw [unifiedDiff]
  split_ifs with hnone
  · rw [hnone, List.flatMap_nil, List.map_nil, applyHunks] at happly
    exact happly
  · rw [List.map_cons, List.map_cons, patch, printed, printed, expect_append, expect_append,
      if_pos ⟨rfl, rfl⟩]
    exact happly

/-- Hunks in order that do not overlap, neither in the old lines nor in the new
ones. -/
def Ordered (hunks : List (List Opcode)) : Prop :=
  hunks.Pairwise fun h g => (oldRange h).2 ≤ (oldRange g).1 ∧ (newRange h).2 ≤ (newRange g).1

theorem hunks_after {hunks : List (List Opcode)} (h : Hunks a b i j hunks i' j') :
    ∀ g ∈ hunks, i ≤ (oldRange g).1 ∧ j ≤ (newRange g).1 := by
  induction h with
  | nil => exact nofun
  | @cons hunk rest i j p q p' q' i' j' hgap hne hruns _ ih =>
    obtain ⟨hold, hnew⟩ := runs_ranges hne hruns
    obtain ⟨horder, hneworder⟩ := hruns.order
    have hgapOrder := hgap.oldOrder
    have hgapNew := hgap.newOrder
    refine List.forall_mem_cons.mpr ⟨?_, fun g hg => ?_⟩
    · rw [hold, hnew]
      exact ⟨hgapOrder, hgapNew⟩
    · have hlater := ih g hg
      omega

theorem hunks_ordered {hunks : List (List Opcode)} (h : Hunks a b i j hunks i' j') :
    Ordered hunks := by
  induction h with
  | nil => exact .nil
  | cons _ hne hruns hrest ih =>
    obtain ⟨hold, hnew⟩ := runs_ranges hne hruns
    refine List.pairwise_cons.mpr ⟨fun g hg => ?_, ih⟩
    rw [hold, hnew]
    exact hunks_after hrest g hg

theorem Runs.holds {codes : List Opcode} (h : Runs a b i j codes i' j') :
    ∀ c ∈ codes, c.Holds a b := by
  induction h with
  | nil => exact nofun
  | cons _ _ hcode _ ih => exact List.forall_mem_cons.mpr ⟨hcode, ih⟩

theorem hunks_holds {hunks : List (List Opcode)} (h : Hunks a b i j hunks i' j') :
    ∀ hunk ∈ hunks, hunk ≠ [] ∧ ∀ c ∈ hunk, c.Holds a b := by
  induction h with
  | nil => exact nofun
  | cons _ hne hruns _ ih => exact List.forall_mem_cons.mpr ⟨⟨hne, hruns.holds⟩, ih⟩

theorem runLines_length {code : Opcode} (h : code.Holds a b) :
    (runLines a b code).length = max code.lines (code.bEnd-code.bBegin) := by
  rw [runLines]
  cases htag : code.tag with
  | equal =>
    have hlength := (h.gap htag).length
    rw [List.length_map, slice_length h.oldInside, Opcode.lines]
    omega
  | remove =>
    rw [List.length_map, slice_length h.oldInside, h.removed htag, Opcode.lines, Nat.sub_self,
      Nat.max_zero]
  | insert =>
    rw [List.length_map, slice_length h.newInside, Opcode.lines, h.inserted htag, Nat.sub_self,
      Nat.zero_max]

def contextMark : Line := bytes " "

theorem runLines_mark {code : Opcode} {call : Line × Line} (h : call ∈ runLines a b code) :
    call.1 = contextMark ↔ code.tag = .equal := by
  rw [runLines] at h
  cases htag : code.tag with
  | equal =>
    rw [htag] at h
    obtain ⟨_, _, rfl⟩ := List.mem_map.mp h
    exact iff_of_true rfl rfl
  | remove =>
    rw [htag] at h
    obtain ⟨_, _, rfl⟩ := List.mem_map.mp h
    exact iff_of_false (by decide : bytes "-" ≠ contextMark) nofun
  | insert =>
    rw [htag] at h
    obtain ⟨_, _, rfl⟩ := List.mem_map.mp h
    exact iff_of_false (by decide : bytes "+" ≠ contextMark) nofun

def NearChange (n : ℕ) (lines : List (Line × Line)) : Prop :=
  ∀ k call, lines[k]? = some call → call.1 = contextMark →
    ∃ m change, lines[m]? = some change ∧ change.1 ≠ contextMark ∧ k ≤ m+n ∧ m ≤ k+n

theorem flatMap_split {codes : List Opcode} {k : ℕ} {call : Line × Line}
    (h : (codes.flatMap (runLines a b))[k]? = some call) :
    ∃ before c after t, codes = before ++ c :: after ∧
      k = (before.flatMap (runLines a b)).length+t ∧ (runLines a b c)[t]? = some call := by
  induction codes generalizing k with
  | nil => cases h
  | cons c codes ih =>
    rw [List.flatMap_cons] at h
    rcases Nat.lt_or_ge k (runLines a b c).length with hinside | hlater
    · rw [List.getElem?_append_left hinside] at h
      exact ⟨[], c, codes, k, rfl, (Nat.zero_add k).symm, h⟩
    · rw [List.getElem?_append_right hlater] at h
      obtain ⟨before, d, after, t, rfl, hk, hcall⟩ := ih h
      refine ⟨c :: before, d, after, t, rfl, ?_, hcall⟩
      rw [List.flatMap_cons, List.length_append]
      omega

theorem near_context {hunk : List Opcode} (hcontext : Context n hunk)
    (hholds : ∀ c ∈ hunk, c.Holds a b) : NearChange n (hunk.flatMap (runLines a b)) := by
  intro k call hcall hmark
  obtain ⟨front, c, back, t, rfl, rfl, hline⟩ := flatMap_split hcall
  have hc := hholds c (by simp)
  have htag := (runLines_mark (List.mem_of_getElem? hline)).mp hmark
  have hlines : (runLines a b c).length = c.lines := by
    have hlength := (hc.gap htag).length
    rw [runLines_length hc, ← hlength, Opcode.lines, Nat.max_self]
  have ht := (List.getElem?_eq_some_iff.mp hline).1
  rw [hlines] at ht
  have hnear := hcontext.near front c back rfl htag
  have hchain := hcontext.clean.alternate
  rw [List.isChain_append, List.isChain_cons] at hchain
  obtain ⟨_, ⟨hafter, _⟩, hbefore⟩ := hchain
  -- A change next to the run has a line.
  have hchange : ∀ d ∈ front ++ c :: back, d.tag ≠ c.tag →
      0 < (runLines a b d).length ∧ ∀ call ∈ runLines a b d, call.1 ≠ contextMark := by
    intro d hd hother
    constructor
    · have hsome := hcontext.clean.lines d hd
      rw [runLines_length (hholds d hd), Opcode.lines]
      omega
    · intro call hin heq
      exact hother ((runLines_mark hin).mp heq |>.trans htag.symm)
  by_cases hclose : front ≠ [] ∧ t < n
  · obtain ⟨hsome, hclose⟩ := hclose
    obtain ⟨init, d, rfl⟩ := (List.eq_nil_or_concat front).resolve_left hsome
    rw [List.concat_eq_append] at hbefore hchange ⊢
    have hother : d.tag ≠ c.tag := hbefore d (by simp) c rfl
    obtain ⟨hpos, hmarks⟩ := hchange d (by simp) hother
    have hlast : (runLines a b d).length-1 < (runLines a b d).length := by omega
    refine ⟨(init.flatMap (runLines a b)).length+((runLines a b d).length-1),
      (runLines a b d)[(runLines a b d).length-1], ?_, hmarks _ (List.getElem_mem hlast), ?_, ?_⟩
    · rw [List.append_assoc, List.flatMap_append, List.getElem?_append_right (Nat.le_add_right _ _),
        Nat.add_sub_cancel_left, List.singleton_append, List.flatMap_cons,
        List.getElem?_append_left hlast, List.getElem?_eq_getElem hlast]
    · rw [List.flatMap_append, List.length_append, List.flatMap_singleton]
      omega
    · rw [List.flatMap_append, List.length_append, List.flatMap_singleton]
      omega
  · have hsome : back ≠ [] := by
      rintro rfl
      rw [if_pos rfl, Nat.add_zero] at hnear
      split_ifs at hnear with hfront
      · omega
      · exact hclose ⟨hfront, by omega⟩
    rw [if_neg hsome] at hnear
    have hback : c.lines-t ≤ n := by
      split_ifs at hnear with hfront
      · omega
      · have hfar : ¬ t < n := fun hlt => hclose ⟨hfront, hlt⟩
        omega
    obtain ⟨d, rest, rfl⟩ := List.exists_cons_of_ne_nil hsome
    have hother : d.tag ≠ c.tag := fun heq => hafter d rfl heq.symm
    obtain ⟨hpos, hmarks⟩ := hchange d (by simp) hother
    refine ⟨(front.flatMap (runLines a b)).length+c.lines, (runLines a b d)[0], ?_,
      hmarks _ (List.getElem_mem hpos), by omega, by omega⟩
    rw [List.flatMap_append, List.getElem?_append_right (Nat.le_add_right _ _),
      Nat.add_sub_cancel_left, List.flatMap_cons, List.getElem?_append_right hlines.le, hlines,
      Nat.sub_self, List.flatMap_cons, List.getElem?_append_left hpos,
      List.getElem?_eq_getElem hpos]

def changedLines (calls : List (Line × Line)) : ℕ :=
  calls.countP fun call => call.1 = bytes "-" ∨ call.1 = bytes "+"

theorem changedLines_append (calls more : List (Line × Line)) :
    changedLines (calls ++ more) = changedLines calls+changedLines more := List.countP_append

theorem runLines_changed {code : Opcode} (h : code.Holds a b) :
    changedLines (runLines a b code) = code.edits := by
  have hmarks : ∀ (mark : Line) (lines : List Line),
      changedLines (lines.map fun line => (mark, line)) =
        if mark = bytes "-" ∨ mark = bytes "+" then lines.length else 0 := by
    intro mark lines
    rw [changedLines, List.countP_map]
    split_ifs with hmark
    · exact List.countP_eq_length.mpr fun line _ => by simp [hmark]
    · exact List.countP_eq_zero.mpr fun line _ => by simpa using hmark
  rw [runLines, Opcode.edits]
  cases htag : code.tag with
  | equal =>
    dsimp only
    rw [hmarks, if_neg (by decide), if_pos rfl]
  | remove =>
    dsimp only
    rw [hmarks, if_pos (by decide), if_neg (by decide), slice_length h.oldInside, h.removed htag,
      Nat.sub_self, Nat.add_zero]
  | insert =>
    dsimp only
    rw [hmarks, if_pos (by decide), if_neg (by decide), slice_length h.newInside, h.inserted htag,
      Nat.sub_self, Nat.zero_add]

theorem writeHunk_changed {hunk : List Opcode} (h : ∀ c ∈ hunk, c.Holds a b) :
    changedLines (writeHunk a b hunk) = codeEdits hunk := by
  have hbody : changedLines (hunk.flatMap (runLines a b)) = codeEdits hunk := by
    induction hunk with
    | nil => rfl
    | cons c hunk ih =>
      obtain ⟨hc, hhunk⟩ := List.forall_mem_cons.mp h
      rw [List.flatMap_cons, changedLines_append, ih hhunk, runLines_changed hc, codeEdits,
        codeEdits, List.map_cons, List.sum_cons]
  have hheader : ¬ (header hunk = bytes "-" ∨ header hunk = bytes "+") := by
    have hfirst : (header hunk).head? = some 64 := by
      rw [header]
      rfl
    rintro (heq | heq)
    · rw [heq] at hfirst
      exact absurd hfirst (by decide)
    · rw [heq] at hfirst
      exact absurd hfirst (by decide)
  rw [writeHunk, changedLines, List.countP_cons_of_neg (by simpa using hheader)]
  exact hbody

theorem hunks_changed {hunks : List (List Opcode)}
    (h : ∀ hunk ∈ hunks, ∀ c ∈ hunk, c.Holds a b) :
    changedLines (hunks.flatMap (writeHunk a b)) = codeEdits hunks.flatten := by
  induction hunks with
  | nil => rfl
  | cons hunk hunks ih =>
    obtain ⟨hhunk, hhunks⟩ := List.forall_mem_cons.mp h
    rw [List.flatMap_cons, changedLines_append, writeHunk_changed hhunk, ih hhunks,
      List.flatten_cons, codeEdits_append]

/-- The diff has as many changed lines as its script has edits. -/
theorem unifiedDiff_changed (a b : List Line) (fromName toName : Line) :
    changedLines (unifiedDiff a b fromName toName) = edits (diffTags a b) := by
  obtain ⟨⟨p, q, hhunks, _⟩, _, hcount⟩ := hunks_grouped a b
  have hchanged := hunks_changed fun hunk hin => (hunks_holds hhunks hunk hin).2
  rw [unifiedDiff, ← hcount, ← hchanged]
  split_ifs with hnone
  · rw [hnone]
    rfl
  · have hfrom : ¬ (bytes "--- " = bytes "-" ∨ bytes "--- " = bytes "+") := by decide
    have hto : ¬ (bytes "+++ " = bytes "-" ∨ bytes "+++ " = bytes "+") := by decide
    rw [changedLines, List.countP_cons_of_neg (by simpa using hfrom),
      List.countP_cons_of_neg (by simpa using hto)]
    rfl

theorem context_edits {hunk : List Opcode} (hne : hunk ≠ []) (hcontext : Context n hunk)
    (hholds : ∀ c ∈ hunk, c.Holds a b) : 0 < codeEdits hunk := by
  have hchange : ∀ c ∈ hunk, c.tag ≠ .equal → 0 < c.edits := by
    intro c hc htag
    have hlines := hcontext.clean.lines c hc
    rw [Opcode.edits, if_neg htag]
    omega
  have hsome : ∃ c ∈ hunk, c.tag ≠ .equal := by
    obtain ⟨c, rest, rfl⟩ := List.exists_cons_of_ne_nil hne
    by_cases htag : c.tag = .equal
    · cases rest with
      | nil =>
        have hnear := hcontext.near [] c [] rfl htag
        have hlines := hcontext.clean.lines c List.mem_cons_self
        have hlength := ((hholds c List.mem_cons_self).gap htag).length
        rw [if_pos rfl, Opcode.lines] at hnear
        omega
      | cons d rest =>
        have hchain := hcontext.clean.alternate
        rw [List.isChain_cons_cons] at hchain
        exact ⟨d, by simp, fun hequal => hchain.1 (htag.trans hequal.symm)⟩
    · exact ⟨c, List.mem_cons_self, htag⟩
  obtain ⟨c, hc, htag⟩ := hsome
  have hle := List.single_le_sum (l := hunk.map Opcode.edits) (fun _ _ => Nat.zero_le _) c.edits
    (List.mem_map_of_mem hc)
  exact Nat.lt_of_lt_of_le (hchange c hc htag) hle

theorem commonPrefix_self (a : List Line) : commonPrefix a a = a.length := by
  induction a with
  | nil => rfl
  | cons x a ih => rw [commonPrefix, if_pos rfl, ih, List.length_cons]

theorem diffTags_self (a : List Line) : edits (diffTags a a) = 0 := by
  have hmiddle : middle a (trimming a a) = [] := by
    rw [middle, trimming]
    dsimp only
    rw [commonPrefix_self, List.drop_length, List.take_nil]
  rw [diffTags, edits_append, edits_append, edits_replicate, edits_replicate, hmiddle, if_pos rfl,
    if_pos rfl]
  rfl

theorem unifiedDiff_nil (a b : List Line) (fromName toName : Line) :
    unifiedDiff a b fromName toName = [] ↔ a = b := by
  constructor
  · intro hnone
    have hpatch := patch_unifiedDiff a b fromName toName
    rw [hnone] at hpatch
    exact Option.some.inj hpatch
  · rintro rfl
    obtain ⟨⟨p, q, hhunks, _⟩, hcontext, hcount⟩ := hunks_grouped a a
    rw [diffTags_self] at hcount
    rw [unifiedDiff, if_pos]
    by_contra hsome
    obtain ⟨hunk, rest, heq⟩ := List.exists_cons_of_ne_nil hsome
    have hin : hunk ∈ hunks a a := by simp [heq]
    obtain ⟨hne, hholds⟩ := hunks_holds hhunks hunk hin
    have hpos := context_edits hne (hcontext hunk hin) hholds
    rw [heq, List.flatten_cons, codeEdits_append] at hcount
    omega

/-- What a diff does for any two sequences of lines. -/
theorem unifiedDiff_sound (a b : List Line) (fromName toName : Line) :
    patch ((unifiedDiff a b fromName toName).map printed) a = some b ∧
      Ordered (hunks a b) ∧
      (∀ hunk ∈ hunks a b, NearChange 3 (hunk.flatMap (runLines a b))) ∧
      (unifiedDiff a b fromName toName = [] ↔ a = b) ∧
      (∃ tags, Script a b tags ∧ edits tags = changedLines (unifiedDiff a b fromName toName)) ∧
      (Fits (middle a (trimming a b)) (middle b (trimming a b)) → ∀ tags, Script a b tags →
        changedLines (unifiedDiff a b fromName toName) ≤ edits tags) := by
  obtain ⟨⟨p, q, hhunks, _⟩, hcontext, _⟩ := hunks_grouped a b
  refine ⟨patch_unifiedDiff a b fromName toName, hunks_ordered hhunks, ?_,
    unifiedDiff_nil a b fromName toName, ?_, ?_⟩
  · intro hunk hin
    exact near_context (hcontext hunk hin) (hunks_holds hhunks hunk hin).2
  · exact ⟨diffTags a b, diffTags_script a b, (unifiedDiff_changed a b fromName toName).symm⟩
  · intro hfits tags hscript
    rw [unifiedDiff_changed]
    exact diffTags_minimal hfits hscript

end JaszczurHal.UnifiedDiff
