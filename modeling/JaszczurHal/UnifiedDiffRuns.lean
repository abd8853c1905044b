import JaszczurHal.DecimalText
import JaszczurHal.EditScripts

/-!
# The unified diff

The diff of two sequences of lines as the generator prints it: the edit script,
its runs, the hunks, and the lines handed to the callback. A line is its bytes;
memory is not a limit here.
-/

set_option autoImplicit false

namespace JaszczurHal.UnifiedDiff
open DecimalText EditScripts

abbrev Line := List UInt8

variable {α : Type} [DecidableEq α]

def fillRow (x : α) : List α → List ℕ → List ℕ
  | [], _ => [0]
  | y :: b, below =>
    let row := fillRow x b below.tail
    let down := below.headD 0
    let right := row.headD 0
    (if x = y then below.tail.headD 0+1 else if right < down then down else right) :: row

def fillTable : List α → List α → List (List ℕ)
  | [], b => [List.replicate (b.length+1) 0]
  | x :: a, b =>
    let table := fillTable a b
    fillRow x b (table.headD []) :: table

def cell (table : List (List ℕ)) (i j : ℕ) : ℕ := (table.getD i []).getD j 0

def walk (table : List (List ℕ)) (a b : List α) : ℕ → ℕ → ℕ → List Tag
  | 0, i, j => List.replicate (a.length-i) Tag.remove ++ List.replicate (b.length-j) Tag.insert
  | fuel+1, i, j =>
    if i < a.length ∧ j < b.length then
      if a[i]? = b[j]? then .equal :: walk table a b fuel (i+1) (j+1)
      else if cell table i (j+1) ≤ cell table (i+1) j then .remove :: walk table a b fuel (i+1) j
      else .insert :: walk table a b fuel i (j+1)
    else List.replicate (a.length-i) Tag.remove ++ List.replicate (b.length-j) Tag.insert

def tableLimit : ℕ := 4000000

def Replaced (a b : List α) : Prop :=
  a.length = 0 ∨ b.length = 0 ∨ tableLimit/a.length < b.length

instance (a b : List α) : Decidable (Replaced a b) :=
  inferInstanceAs (Decidable (_ ∨ _ ∨ _))

def editScript (a b : List α) : List Tag :=
  if Replaced a b then
    List.replicate a.length Tag.remove ++ List.replicate b.length Tag.insert
  else walk (fillTable a b) a b (a.length+b.length) 0 0

structure Opcode where
  tag : Tag
  aBegin : ℕ
  aEnd : ℕ
  bBegin : ℕ
  bEnd : ℕ
  deriving DecidableEq, Repr

def addOpcode (codes : List Opcode) (tag : Tag) (aCount bCount : ℕ) : List Opcode :=
  match codes.getLast? with
  | none => [⟨tag, 0, aCount, 0, bCount⟩]
  | some last =>
    if last.tag = tag then
      codes.dropLast ++ [{ last with aEnd := last.aEnd+aCount, bEnd := last.bEnd+bCount }]
    else codes ++ [⟨tag, last.aEnd, last.aEnd+aCount, last.bEnd, last.bEnd+bCount⟩]

def commonPrefix : List α → List α → ℕ
  | x :: a, y :: b => if x = y then commonPrefix a b+1 else 0
  | _, _ => 0

def addTag (codes : List Opcode) (tag : Tag) : List Opcode :=
  addOpcode codes tag (if tag = .insert then 0 else 1) (if tag = .remove then 0 else 1)

/-- The lengths of the common prefix and of the common suffix behind it. -/
def trimming (a b : List α) : ℕ × ℕ :=
  let head := commonPrefix a b
  (head, commonPrefix (a.drop head).reverse (b.drop head).reverse)

def middle (lines : List α) (trim : ℕ × ℕ) : List α :=
  (lines.drop trim.1).take (lines.length-trim.1-trim.2)

def opcodes (a b : List α) : List Opcode :=
  let (head, suffix) := trimming a b
  let codes := if head ≠ 0 then addOpcode [] .equal head head else []
  let codes := (editScript (middle a (head, suffix)) (middle b (head, suffix))).foldl addTag codes
  if suffix ≠ 0 then addOpcode codes .equal suffix suffix else codes

def trimFirst (context : ℕ) : List Opcode → List Opcode
  | [] => []
  | first :: codes =>
    if first.tag = .equal then
      { first with
        aBegin := max first.aBegin (first.aEnd-min first.aEnd context)
        bBegin := max first.bBegin (first.bEnd-min first.bEnd context) } :: codes
    else first :: codes

def trimLast (context : ℕ) (codes : List Opcode) : List Opcode :=
  match codes.getLast? with
  | none => []
  | some last =>
    if last.tag = .equal then
      codes.dropLast ++ [{ last with
        aEnd := min last.aEnd (last.aBegin+context)
        bEnd := min last.bEnd (last.bBegin+context) }]
    else codes

structure Groups where
  closed : List (List Opcode)
  runs : List Opcode
  deriving DecidableEq, Repr

def groupStep (context : ℕ) (groups : Groups) (code : Opcode) : Groups :=
  if code.tag = .equal ∧ 2*context < code.aEnd-code.aBegin then
    { closed := groups.closed ++ [groups.runs ++ [{ code with
        aEnd := min code.aEnd (code.aBegin+context)
        bEnd := min code.bEnd (code.bBegin+context) }]]
      runs := [{ code with
        aBegin := max code.aBegin (code.aEnd-context)
        bBegin := max code.bBegin (code.bEnd-context) }] }
  else { groups with runs := groups.runs ++ [code] }

def idle : List Opcode → Bool
  | [] => true
  | [code] => code.tag = .equal
  | _ => false

def groupHunks (context : ℕ) (codes : List Opcode) : List (List Opcode) :=
  let groups := (trimLast context (trimFirst context codes)).foldl (groupStep context) ⟨[], []⟩
  if idle groups.runs then groups.closed else groups.closed ++ [groups.runs]

def hunks (a b : List α) : List (List Opcode) :=
  let codes := opcodes a b
  if codes = [] then [] else groupHunks 3 codes

def bytes (text : String) : List UInt8 := text.toList.map fun c => UInt8.ofNat c.toNat

def formatRange (start stop : ℕ) : List UInt8 :=
  if stop-start = 1 then decimal (start+1)
  else if stop-start = 0 then decimal start ++ bytes "," ++ decimal 0
  else decimal (start+1) ++ bytes "," ++ decimal (stop-start)

def oldRange (hunk : List Opcode) : ℕ × ℕ :=
  ((hunk.head?.map Opcode.aBegin).getD 0, (hunk.getLast?.map Opcode.aEnd).getD 0)

def newRange (hunk : List Opcode) : ℕ × ℕ :=
  ((hunk.head?.map Opcode.bBegin).getD 0, (hunk.getLast?.map Opcode.bEnd).getD 0)

def header (hunk : List Opcode) : List UInt8 :=
  bytes "@@ -" ++ formatRange (oldRange hunk).1 (oldRange hunk).2 ++ bytes " +" ++
    formatRange (newRange hunk).1 (newRange hunk).2 ++ bytes " @@"

def slice (lines : List α) (start stop : ℕ) : List α := (lines.drop start).take (stop-start)

def runLines (a b : List Line) (code : Opcode) : List (Line × Line) :=
  match code.tag with
  | .insert => (slice b code.bBegin code.bEnd).map fun line => (bytes "+", line)
  | .equal => (slice a code.aBegin code.aEnd).map fun line => (bytes " ", line)
  | .remove => (slice a code.aBegin code.aEnd).map fun line => (bytes "-", line)

def writeHunk (a b : List Line) (hunk : List Opcode) : List (Line × Line) :=
  (header hunk, []) :: hunk.flatMap (runLines a b)

def unifiedDiff (a b : List Line) (fromName toName : Line) : List (Line × Line) :=
  if hunks a b = [] then []
  else (bytes "--- ", fromName) :: (bytes "+++ ", toName) :: (hunks a b).flatMap (writeHunk a b)

open EditScripts

variable {α : Type} [DecidableEq α] {a b : List α}

omit [DecidableEq α] in
theorem headD_tails (f : List α → ℕ) (b : List α) : (b.tails.map f).headD 0 = f b := by
  cases b <;> rfl

theorem fillRow_cons (x y : α) (b : List α) (down : ℕ) (below : List ℕ) :
    fillRow x (y :: b) (down :: below) =
      (if x = y then below.headD 0+1 else max down ((fillRow x b below).headD 0)) ::
        fillRow x b below := by
  have hmax : ∀ right : ℕ, (if right < down then down else right) = max down right := by
    intro right
    rcases Nat.lt_or_ge right down with hless | hge
    · rw [if_pos hless, max_eq_left hless.le]
    · rw [if_neg (Nat.not_lt.mpr hge), max_eq_right hge]
  change (if x = y then below.headD 0+1 else
    if (fillRow x b below).headD 0 < down then down else (fillRow x b below).headD 0) ::
      fillRow x b below = _
  rw [hmax]

theorem fillRow_lcs (x : α) (a b : List α) :
    fillRow x b (b.tails.map (lcs a)) = b.tails.map (lcs (x :: a)) := by
  induction b with
  | nil => simp [fillRow, lcs_nil_right]
  | cons y b ih =>
    rw [List.tails_cons, List.map_cons, List.map_cons, fillRow_cons, ih, headD_tails, headD_tails,
      lcs]

theorem fillTable_lcs (a b : List α) :
    fillTable a b = a.tails.map fun s => b.tails.map (lcs s) := by
  induction a with
  | nil =>
    have hzero : lcs ([] : List α) = fun _ => 0 := funext lcs_nil_left
    simp [fillTable, hzero]
  | cons x a ih =>
    rw [fillTable, ih, List.tails_cons, List.map_cons]
    have hhead : (a.tails.map fun s => b.tails.map (lcs s)).headD [] = b.tails.map (lcs a) := by
      cases a <;> rfl
    rw [hhead, fillRow_lcs]

omit [DecidableEq α] in
theorem getElem?_tails {i : ℕ} (h : i ≤ a.length) : a.tails[i]? = some (a.drop i) := by
  have hlt : i < a.tails.length := by
    rw [List.length_tails]
    omega
  rw [List.getElem?_eq_getElem hlt, List.getElem_tails]

theorem cell_lcs {i j : ℕ} (hi : i ≤ a.length) (hj : j ≤ b.length) :
    cell (fillTable a b) i j = lcs (a.drop i) (b.drop j) := by
  simp only [cell, fillTable_lcs, List.getD_eq_getElem?_getD, List.getElem?_map,
    getElem?_tails hi, getElem?_tails hj, Option.map_some, Option.getD_some]

structure Shortest (a b : List α) (tags : List Tag) : Prop where
  script : Script a b tags
  edits : edits tags+2*lcs a b = a.length+b.length

omit [DecidableEq α] in
theorem replace_script (a b : List α) :
    Script a b (List.replicate a.length Tag.remove ++ List.replicate b.length Tag.insert) ∧
      edits (List.replicate a.length Tag.remove ++ List.replicate b.length Tag.insert) =
        a.length+b.length := by
  refine ⟨.replace a b, ?_⟩
  rw [edits_append, edits_replicate, edits_replicate, if_neg nofun, if_neg nofun]

theorem replace_shortest (h : a.length = 0 ∨ b.length = 0) :
    Shortest a b (List.replicate a.length Tag.remove ++ List.replicate b.length Tag.insert) := by
  obtain ⟨hscript, hedits⟩ := replace_script a b
  refine ⟨hscript, ?_⟩
  have hzero : lcs a b = 0 := by
    rcases h with hempty | hempty
    · rw [List.length_eq_zero_iff.mp hempty, lcs_nil_left]
    · rw [List.length_eq_zero_iff.mp hempty, lcs_nil_right]
  rw [hedits, hzero, Nat.mul_zero, Nat.add_zero]

theorem walk_shortest {fuel i j : ℕ} (hi : i ≤ a.length) (hj : j ≤ b.length)
    (hfuel : a.length-i+(b.length-j) ≤ fuel) :
    Shortest (a.drop i) (b.drop j) (walk (fillTable a b) a b fuel i j) := by
  induction fuel generalizing i j with
  | zero =>
    have hend := replace_shortest (a := a.drop i) (b := b.drop j) (.inl (by simp; omega))
    rwa [List.length_drop, List.length_drop] at hend
  | succ fuel ih =>
    rw [walk]
    by_cases hinside : i < a.length ∧ j < b.length
    · rw [if_pos hinside]
      obtain ⟨hia, hjb⟩ := hinside
      have hdown := ih (i := i+1) (j := j) hia hj (by omega)
      have hright := ih (i := i) (j := j+1) hi hjb (by omega)
      have hboth := ih (i := i+1) (j := j+1) hia hjb (by omega)
      have hsame : a[i]? = b[j]? ↔ a[i] = b[j] := by
        rw [List.getElem?_eq_getElem hia, List.getElem?_eq_getElem hjb, Option.some_inj]
      simp only [cell_lcs hi hjb, cell_lcs hia hj, hsame]
      rw [List.drop_eq_getElem_cons hia] at hright ⊢
      rw [List.drop_eq_getElem_cons hjb] at hdown ⊢
      generalize a[i] = x at hright ⊢
      generalize b[j] = y at hdown ⊢
      generalize a.drop (i+1) = rest at hdown hright hboth ⊢
      generalize b.drop (j+1) = others at hdown hright hboth ⊢
      split_ifs with heq hless
      · subst heq
        refine ⟨.equal x hboth.script, ?_⟩
        have hcount := hboth.edits
        rw [edits_cons, if_pos rfl, lcs, if_pos rfl, List.length_cons, List.length_cons]
        omega
      · refine ⟨.remove x hdown.script, ?_⟩
        have hcount := hdown.edits
        rw [List.length_cons] at hcount
        rw [edits_cons, if_neg (by decide), lcs, if_neg heq, max_eq_left hless, List.length_cons,
          List.length_cons]
        omega
      · refine ⟨.insert y hright.script, ?_⟩
        have hcount := hright.edits
        rw [List.length_cons] at hcount
        rw [edits_cons, if_neg (by decide), lcs, if_neg heq, max_eq_right (Nat.not_le.mp hless).le,
          List.length_cons, List.length_cons]
        omega
    · rw [if_neg hinside]
      have hend := replace_shortest (a := a.drop i) (b := b.drop j) (by
        simp only [List.length_drop]
        omega)
      rwa [List.length_drop, List.length_drop] at hend

def Fits (a b : List α) : Prop :=
  a.length = 0 ∨ b.length = 0 ∨ b.length ≤ tableLimit/a.length

theorem editScript_script (a b : List α) : Script a b (editScript a b) := by
  rw [editScript]
  split_ifs with hreplaced
  · exact (replace_script a b).1
  · have hwalk := walk_shortest (a := a) (b := b) (Nat.zero_le _) (Nat.zero_le _) (Nat.le_refl _)
    exact hwalk.script

theorem editScript_shortest (h : Fits a b) : Shortest a b (editScript a b) := by
  rw [editScript]
  split_ifs with hreplaced
  · apply replace_shortest
    rcases h with ha | hb | hfits
    · exact .inl ha
    · exact .inr hb
    · rcases hreplaced with ha | hb | hlarge
      · exact .inl ha
      · exact .inr hb
      · omega
  · have hwalk := walk_shortest (a := a) (b := b) (Nat.zero_le _) (Nat.zero_le _) (Nat.le_refl _)
    exact hwalk

theorem commonPrefix_take (a b : List α) :
    a.take (commonPrefix a b) = b.take (commonPrefix a b) ∧ commonPrefix a b ≤ a.length ∧
      commonPrefix a b ≤ b.length := by
  induction a generalizing b with
  | nil => simp [commonPrefix]
  | cons x a ih =>
    cases b with
    | nil => simp [commonPrefix]
    | cons y b =>
      rw [commonPrefix]
      split_ifs with heq
      · obtain ⟨htake, ha, hb⟩ := ih b
        rw [List.take_succ_cons, List.take_succ_cons, htake, heq]
        exact ⟨rfl, Nat.succ_le_succ ha, Nat.succ_le_succ hb⟩
      · exact ⟨rfl, Nat.zero_le _, Nat.zero_le _⟩

/-- Both sequences are their middles between common ends. -/
theorem trimming_split (a b : List α) : ∃ pre suf : List α,
    pre.length = (trimming a b).1 ∧ suf.length = (trimming a b).2 ∧
      a = pre ++ (middle a (trimming a b) ++ suf) ∧
        b = pre ++ (middle b (trimming a b) ++ suf) := by
  obtain ⟨hpre, hpa, hpb⟩ := commonPrefix_take a b
  rw [trimming]
  dsimp only
  generalize commonPrefix a b = head at hpre hpa hpb
  obtain ⟨hsuf, hsa, hsb⟩ := commonPrefix_take (a.drop head).reverse (b.drop head).reverse
  generalize commonPrefix (a.drop head).reverse (b.drop head).reverse = tail at hsuf hsa hsb
  rw [List.length_reverse, List.length_drop] at hsa hsb
  rw [List.take_reverse, List.take_reverse, List.reverse_inj, List.length_drop,
    List.length_drop] at hsuf
  refine ⟨a.take head, (a.drop head).drop (a.length-head-tail), List.length_take_of_le hpa, ?_,
    ?_, ?_⟩
  · rw [List.length_drop, List.length_drop]
    omega
  · rw [middle, List.take_append_drop, List.take_append_drop]
  · rw [hpre, hsuf, middle, List.take_append_drop, List.take_append_drop]

def diffTags (a b : List α) : List Tag :=
  List.replicate (trimming a b).1 Tag.equal ++
    (editScript (middle a (trimming a b)) (middle b (trimming a b)) ++
      List.replicate (trimming a b).2 Tag.equal)

theorem diffTags_script (a b : List α) : Script a b (diffTags a b) := by
  obtain ⟨pre, suf, hpre, hsuf, ha, hb⟩ := trimming_split a b
  have hscript := (Script.keep pre).append
    ((editScript_script (middle a (trimming a b)) (middle b (trimming a b))).append
      (Script.keep suf))
  rwa [hpre, hsuf, ← ha, ← hb] at hscript

/-- Where the middle fits the table no script has fewer edits. -/
theorem diffTags_minimal (h : Fits (middle a (trimming a b)) (middle b (trimming a b)))
    {tags : List Tag} (hscript : Script a b tags) : edits (diffTags a b) ≤ edits tags := by
  apply Script.minimal hscript
  obtain ⟨pre, suf, hpre, hsuf, ha, hb⟩ := trimming_split a b
  have hmiddle := (editScript_shortest h).edits
  have hlcs : lcs a b = pre.length+(lcs (middle a (trimming a b)) (middle b (trimming a b))+
      suf.length) := by
    rw [← lcs_suffix, ← lcs_prefix, ← ha, ← hb]
  have hla := congrArg List.length ha
  have hlb := congrArg List.length hb
  rw [List.length_append, List.length_append] at hla hlb
  rw [diffTags, edits_append, edits_append, edits_replicate, edits_replicate, if_pos rfl,
    if_pos rfl, hlcs]
  omega

end JaszczurHal.UnifiedDiff
