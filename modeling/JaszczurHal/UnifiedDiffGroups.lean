import JaszczurHal.UnifiedDiffRuns

/-!
# The hunks of a diff

The runs lead from the old sequence to the new one without a gap. The hunks are
made of them: what is left out between two hunks is equal in both sequences.
-/

set_option autoImplicit false

namespace JaszczurHal.UnifiedDiff
open EditScripts

section
variable {α : Type} {a b : List α} {i j i' j' p q : ℕ}

structure Opcode.Holds (a b : List α) (c : Opcode) : Prop where
  oldOrder : c.aBegin ≤ c.aEnd
  oldInside : c.aEnd ≤ a.length
  newOrder : c.bBegin ≤ c.bEnd
  newInside : c.bEnd ≤ b.length
  same : c.tag = .equal → slice a c.aBegin c.aEnd = slice b c.bBegin c.bEnd
  removed : c.tag = .remove → c.bBegin = c.bEnd
  inserted : c.tag = .insert → c.aBegin = c.aEnd

inductive Runs (a b : List α) : ℕ → ℕ → List Opcode → ℕ → ℕ → Prop where
  | nil (i j : ℕ) : Runs a b i j [] i j
  | cons {code : Opcode} {codes : List Opcode} {i j i' j' : ℕ} (hi : code.aBegin = i)
      (hj : code.bBegin = j) (h : code.Holds a b)
      (hrest : Runs a b code.aEnd code.bEnd codes i' j') : Runs a b i j (code :: codes) i' j'

theorem Runs.append {codes more : List Opcode} (h : Runs a b i j codes p q)
    (hmore : Runs a b p q more i' j') : Runs a b i j (codes ++ more) i' j' := by
  induction h with
  | nil => exact hmore
  | cons hi hj h _ ih => exact .cons hi hj h (ih hmore)

theorem Runs.split {codes more : List Opcode} (h : Runs a b i j (codes ++ more) i' j') :
    ∃ p q, Runs a b i j codes p q ∧ Runs a b p q more i' j' := by
  induction codes generalizing i j with
  | nil => exact ⟨i, j, .nil i j, h⟩
  | cons code codes ih =>
    rw [List.cons_append] at h
    cases h with
    | cons hi hj h hrest =>
      obtain ⟨p, q, hcodes, hmore⟩ := ih hrest
      exact ⟨p, q, .cons hi hj h hcodes, hmore⟩

theorem Runs.singleton {code : Opcode} (h : code.Holds a b) :
    Runs a b code.aBegin code.bBegin [code] code.aEnd code.bEnd :=
  .cons rfl rfl h (.nil _ _)

theorem slice_append (lines : List α) (hi : i ≤ p) (hp : p ≤ i') :
    slice lines i i' = slice lines i p ++ slice lines p i' := by
  have hcount : i'-i = (p-i)+(i'-p) := by omega
  have hdrop : lines.drop p = (lines.drop i).drop (p-i) := by
    rw [List.drop_drop, Nat.add_sub_cancel' hi]
  rw [slice, slice, slice, hcount, List.take_add, hdrop]

theorem slice_length {lines : List α} (hend : i' ≤ lines.length) :
    (slice lines i i').length = i'-i := by
  rw [slice, List.length_take, List.length_drop]
  omega

structure Gap (a b : List α) (i j i' j' : ℕ) : Prop where
  oldOrder : i ≤ i'
  oldInside : i' ≤ a.length
  newOrder : j ≤ j'
  newInside : j' ≤ b.length
  same : slice a i i' = slice b j j'

theorem Gap.length (h : Gap a b i j i' j') : i'-i = j'-j := by
  rw [← slice_length h.oldInside, h.same, slice_length h.newInside]

theorem Gap.refl (hi : i ≤ a.length) (hj : j ≤ b.length) : Gap a b i j i j := by
  refine ⟨Nat.le_refl i, hi, Nat.le_refl j, hj, ?_⟩
  simp [slice]

theorem Gap.trans (h : Gap a b i j p q) (h' : Gap a b p q i' j') : Gap a b i j i' j' := by
  refine ⟨h.oldOrder.trans h'.oldOrder, h'.oldInside, h.newOrder.trans h'.newOrder, h'.newInside,
    ?_⟩
  rw [slice_append a h.oldOrder h'.oldOrder, slice_append b h.newOrder h'.newOrder, h.same, h'.same]

theorem Gap.cut (h : Gap a b i j i' j') {n : ℕ} (hn : n ≤ i'-i) :
    Gap a b i j (i+n) (j+n) ∧ Gap a b (i+n) (j+n) i' j' := by
  have hlength := h.length
  have holdOrder := h.oldOrder
  have hnewOrder := h.newOrder
  have holdInside := h.oldInside
  have hnewInside := h.newInside
  have hsame := h.same
  rw [slice_append a (Nat.le_add_right i n) (by omega : i+n ≤ i'),
    slice_append b (Nat.le_add_right j n) (by omega : j+n ≤ j')] at hsame
  have hfirst : (slice a i (i+n)).length = (slice b j (j+n)).length := by
    rw [slice_length (by omega), slice_length (by omega)]
    omega
  obtain ⟨hbefore, hafter⟩ := List.append_inj hsame hfirst
  exact ⟨⟨by omega, by omega, by omega, by omega, hbefore⟩,
    ⟨by omega, by omega, by omega, by omega, hafter⟩⟩

theorem Opcode.Holds.gap {c : Opcode} (h : c.Holds a b) (htag : c.tag = .equal) :
    Gap a b c.aBegin c.bBegin c.aEnd c.bEnd :=
  ⟨h.oldOrder, h.oldInside, h.newOrder, h.newInside, h.same htag⟩

theorem Gap.holds (h : Gap a b i j i' j') : Opcode.Holds a b ⟨.equal, i, i', j, j'⟩ :=
  ⟨h.oldOrder, h.oldInside, h.newOrder, h.newInside, fun _ => h.same, nofun, nofun⟩

theorem Opcode.Holds.merge {tag : Tag} (h : Opcode.Holds a b ⟨tag, i, p, j, q⟩)
    (h' : Opcode.Holds a b ⟨tag, p, i', q, j'⟩) : Opcode.Holds a b ⟨tag, i, i', j, j'⟩ := by
  refine ⟨h.oldOrder.trans h'.oldOrder, h'.oldInside, h.newOrder.trans h'.newOrder, h'.newInside,
    ?_, ?_, ?_⟩
  · intro htag
    exact ((h.gap htag).trans (h'.gap htag)).same
  · intro htag
    exact (h.removed htag).trans (h'.removed htag)
  · intro htag
    exact (h.inserted htag).trans (h'.inserted htag)

def Opcode.edits (c : Opcode) : ℕ :=
  if c.tag = .equal then 0 else (c.aEnd-c.aBegin)+(c.bEnd-c.bBegin)

def codeEdits (codes : List Opcode) : ℕ := (codes.map Opcode.edits).sum

theorem codeEdits_append (codes more : List Opcode) :
    codeEdits (codes ++ more) = codeEdits codes+codeEdits more := by
  rw [codeEdits, codeEdits, codeEdits, List.map_append, List.sum_append]

theorem codeEdits_singleton (code : Opcode) : codeEdits [code] = code.edits := by
  simp [codeEdits]

structure Clean (codes : List Opcode) : Prop where
  lines : ∀ c ∈ codes, c.aBegin < c.aEnd ∨ c.bBegin < c.bEnd
  alternate : codes.IsChain fun c d => c.tag ≠ d.tag

structure Coded (a b : List α) (codes : List Opcode) (i j count : ℕ) : Prop where
  runs : Runs a b 0 0 codes i j
  clean : Clean codes
  count : codeEdits codes = count

theorem Coded.at_count {codes : List Opcode} {count count' : ℕ} (h : Coded a b codes i j count)
    (hi : i = i') (hj : j = j') (hcount : count = count') : Coded a b codes i' j' count' := by
  subst hi hj hcount
  exact h

theorem addOpcode_coded {codes : List Opcode} {count m n : ℕ} {tag : Tag}
    (h : Coded a b codes i j count) (hnew : Opcode.Holds a b ⟨tag, i, i+m, j, j+n⟩)
    (hlines : 0 < m ∨ 0 < n) :
    Coded a b (addOpcode codes tag m n) (i+m) (j+n)
      (count+if tag = .equal then 0 else m+n) := by
  obtain ⟨hruns, ⟨hall, hchain⟩, hcount⟩ := h
  have hedits : Opcode.edits ⟨tag, i, i+m, j, j+n⟩ = if tag = .equal then 0 else m+n := by
    rw [Opcode.edits, Nat.add_sub_cancel_left, Nat.add_sub_cancel_left]
  have hpositive : i < i+m ∨ j < j+n := by omega
  rcases List.eq_nil_or_concat codes with rfl | ⟨init, last, rfl⟩
  · cases hruns
    rw [Nat.zero_add, Nat.zero_add] at hnew hedits ⊢
    refine ⟨.singleton hnew, ⟨?_, .singleton _⟩, ?_⟩
    · intro c hc
      rw [List.mem_singleton.mp hc]
      simpa using hpositive
    · rw [← hcount, addOpcode]
      exact (codeEdits_singleton _).trans (hedits.trans (Nat.zero_add _).symm)
  · rw [List.concat_eq_append] at hruns hall hchain hcount ⊢
    obtain ⟨p, q, hinit, hlast⟩ := hruns.split
    rw [addOpcode, List.getLast?_concat, List.dropLast_concat]
    dsimp only
    cases hlast with
    | cons hp hq hholds hnil =>
      cases hnil
      subst hp hq
      by_cases hsame : last.tag = tag
      · rw [if_pos hsame]
        subst hsame
        have hmerged : Opcode.Holds a b
            ⟨last.tag, last.aBegin, last.aEnd+m, last.bBegin, last.bEnd+n⟩ :=
          Opcode.Holds.merge hholds hnew
        refine ⟨hinit.append (.singleton hmerged), ⟨?_, ?_⟩, ?_⟩
        · intro c hc
          rcases List.mem_append.mp hc with hin | hin
          · exact hall c (List.mem_append_left _ hin)
          · rw [List.mem_singleton.mp hin]
            have hbefore := hall last (by simp)
            dsimp only
            omega
        · rw [List.isChain_append] at hchain ⊢
          refine ⟨hchain.1, .singleton _, ?_⟩
          intro c hc d hd
          obtain rfl := Option.some.inj hd
          exact hchain.2.2 c hc last rfl
        · have holdOrder := hholds.oldOrder
          have hnewOrder := hholds.newOrder
          rw [codeEdits_append, codeEdits_singleton] at hcount ⊢
          rw [← hcount, Opcode.edits, Opcode.edits]
          dsimp only
          split_ifs
          · rfl
          · omega
      · rw [if_neg hsame]
        refine ⟨(hinit.append (.singleton hholds)).append (.singleton hnew), ⟨?_, ?_⟩, ?_⟩
        · intro c hc
          rcases List.mem_append.mp hc with hin | hin
          · exact hall c hin
          · rw [List.mem_singleton.mp hin]
            exact hpositive
        · rw [List.isChain_append]
          refine ⟨hchain, .singleton _, ?_⟩
          intro c hc d hd
          rw [List.getLast?_concat] at hc
          obtain rfl := Option.some.inj hc
          obtain rfl := Option.some.inj hd
          exact hsame
        · rw [codeEdits_append, hcount, codeEdits_singleton, hedits]

theorem slice_cons {x : α} {rest : List α} (hrest : a.drop i = x :: rest) :
    slice a i (i+1) = [x] ∧ i+1 ≤ a.length ∧ a.drop (i+1) = rest := by
  refine ⟨?_, ?_, ?_⟩
  · rw [slice, hrest, Nat.add_sub_cancel_left]
    rfl
  · have hlength := congrArg List.length hrest
    rw [List.length_drop, List.length_cons] at hlength
    omega
  · rw [← List.drop_drop, hrest]
    rfl

theorem addTags_coded {x y rest others : List α} {tags : List Tag} {codes : List Opcode} {count : ℕ}
    (hscript : Script x y tags) (h : Coded a b codes i j count) (hi : i ≤ a.length)
    (hj : j ≤ b.length) (ha : a.drop i = x ++ rest) (hb : b.drop j = y ++ others) :
    Coded a b (tags.foldl addTag codes) (i+x.length) (j+y.length) (count+edits tags) := by
  induction hscript generalizing i j codes count with
  | done => exact h
  | equal z _ ih =>
    obtain ⟨hsa, hia, hra⟩ := slice_cons ha
    obtain ⟨hsb, hjb, hrb⟩ := slice_cons hb
    have hgap : Gap a b i j (i+1) (j+1) := ⟨by omega, hia, by omega, hjb, hsa.trans hsb.symm⟩
    have hnext := ih (addOpcode_coded h hgap.holds (.inl Nat.one_pos)) hia hjb hra hrb
    rw [List.length_cons, List.length_cons, edits_cons, if_pos rfl]
    exact hnext.at_count (by omega) (by omega) rfl
  | remove z _ ih =>
    obtain ⟨_, hia, hra⟩ := slice_cons ha
    have hholds : Opcode.Holds a b ⟨.remove, i, i+1, j, j+0⟩ :=
      ⟨Nat.le_succ i, hia, Nat.le_refl j, hj, nofun, fun _ => rfl, nofun⟩
    have hnext := ih (addOpcode_coded h hholds (.inl Nat.one_pos)) hia hj hra hb
    rw [List.length_cons, edits_cons, if_neg nofun]
    exact hnext.at_count (by omega) rfl (by rw [if_neg nofun]; omega)
  | insert z _ ih =>
    obtain ⟨_, hjb, hrb⟩ := slice_cons hb
    have hholds : Opcode.Holds a b ⟨.insert, i, i+0, j, j+1⟩ :=
      ⟨Nat.le_refl i, hi, Nat.le_succ j, hjb, nofun, nofun, fun _ => rfl⟩
    have hnext := ih (addOpcode_coded h hholds (.inr Nat.one_pos)) hi hjb ha hrb
    rw [List.length_cons, edits_cons, if_neg nofun]
    exact hnext.at_count rfl (by omega) (by rw [if_neg nofun]; omega)

theorem Gap.pre {pre rest others : List α} :
    Gap (pre ++ rest) (pre ++ others) 0 0 pre.length pre.length := by
  refine ⟨Nat.zero_le _, by simp, Nat.zero_le _, by simp, ?_⟩
  simp [slice]

end

section
variable {α : Type} [DecidableEq α]

def innerCodes (a b : List α) (trim : ℕ × ℕ) : List Opcode :=
  (editScript (middle a trim) (middle b trim)).foldl addTag
    (if trim.1 ≠ 0 then addOpcode [] .equal trim.1 trim.1 else [])

theorem opcodes_eq (a b : List α) : opcodes a b =
    if (trimming a b).2 ≠ 0 then
      addOpcode (innerCodes a b (trimming a b)) .equal (trimming a b).2 (trimming a b).2
    else innerCodes a b (trimming a b) := rfl

theorem opcodes_coded (a b : List α) :
    Coded a b (opcodes a b) a.length b.length (edits (diffTags a b)) := by
  obtain ⟨pre, suf, hpre, hsuf, ha, hb⟩ := trimming_split a b
  have hscript := editScript_script (middle a (trimming a b)) (middle b (trimming a b))
  have hla := congrArg List.length ha
  have hlb := congrArg List.length hb
  rw [List.length_append, List.length_append] at hla hlb
  have hcount : edits (diffTags a b) =
      edits (editScript (middle a (trimming a b)) (middle b (trimming a b))) := by
    rw [diffTags, edits_append, edits_append, edits_replicate, edits_replicate, if_pos rfl,
      if_pos rfl, Nat.zero_add, Nat.add_zero]
  rw [hcount, opcodes_eq]
  generalize trimming a b = trim at hpre hsuf ha hb hscript hla hlb ⊢
  obtain ⟨head, suffix⟩ := trim
  rw [innerCodes]
  dsimp only at hpre hsuf ha hb hscript hla hlb ⊢
  generalize middle a (head, suffix) = x at ha hscript hla ⊢
  generalize middle b (head, suffix) = y at hb hscript hlb ⊢
  generalize editScript x y = tags at hscript ⊢
  have hnone : Coded a b [] 0 0 0 := ⟨.nil 0 0, ⟨List.forall_mem_nil _, .nil⟩, rfl⟩
  have hgap : Gap a b 0 0 (0+head) (0+head) := by
    rw [ha, hb, Nat.zero_add, ← hpre]
    exact Gap.pre
  have hfirst : Coded a b (if head ≠ 0 then addOpcode [] .equal head head else []) head head 0 := by
    split_ifs with hsome
    · exact (addOpcode_coded hnone hgap.holds (.inl (Nat.pos_of_ne_zero hsome))).at_count
        (Nat.zero_add _) (Nat.zero_add _) rfl
    · exact hnone.at_count (not_not.mp hsome).symm (not_not.mp hsome).symm rfl
  have hda : a.drop head = x ++ suf := by
    rw [ha, ← hpre, List.drop_left]
  have hdb : b.drop head = y ++ suf := by
    rw [hb, ← hpre, List.drop_left]
  have hmiddle := addTags_coded hscript hfirst (by omega) (by omega) hda hdb
  rw [Nat.zero_add] at hmiddle
  generalize (tags.foldl addTag _) = codes at hmiddle ⊢
  split_ifs with hsome
  · have hend : Gap a b (head+x.length) (head+y.length) (head+x.length+suffix)
        (head+y.length+suffix) := by
      have hlast : ∀ {lines part : List α}, lines.drop head = part ++ suf →
          slice lines (head+part.length) (head+part.length+suffix) = suf := by
        intro lines part hdrop
        rw [slice, ← List.drop_drop, hdrop, List.drop_left, Nat.add_sub_cancel_left,
          List.take_of_length_le (by omega)]
      exact ⟨by omega, by omega, by omega, by omega, (hlast hda).trans (hlast hdb).symm⟩
    exact (addOpcode_coded hmiddle hend.holds (.inl (Nat.pos_of_ne_zero hsome))).at_count (by omega)
      (by omega) rfl
  · exact hmiddle.at_count (by omega) (by omega) rfl

end

variable {α : Type} {a b : List α} {i j i' j' p q n : ℕ}

def Opcode.lines (c : Opcode) : ℕ := c.aEnd-c.aBegin

def Lead (n : ℕ) (codes : List Opcode) : Prop :=
  ∀ c ∈ codes.head?, c.tag = .equal → c.lines ≤ n

def Trail (n : ℕ) (codes : List Opcode) : Prop :=
  ∀ c ∈ codes.getLast?, c.tag = .equal → c.lines ≤ n

theorem tags_alternate {codes codes' : List Opcode}
    (htags : codes.map Opcode.tag = codes'.map Opcode.tag)
    (h : codes.IsChain fun c d => c.tag ≠ d.tag) :
    codes'.IsChain fun c d => c.tag ≠ d.tag := by
  have hmapped : (codes.map Opcode.tag).IsChain (· ≠ ·) := (List.isChain_map _).mpr h
  rw [htags] at hmapped
  exact (List.isChain_map _).mp hmapped

theorem equal_tail {c : Opcode} (h : c.Holds a b) (htag : c.tag = .equal) (hn : n ≤ c.lines) :
    Gap a b c.aBegin c.bBegin (c.aEnd-n) (c.bEnd-n) ∧
      Opcode.Holds a b ⟨.equal, c.aEnd-n, c.aEnd, c.bEnd-n, c.bEnd⟩ := by
  have hgap := h.gap htag
  have hlength := hgap.length
  have hold := h.oldOrder
  have hnew := h.newOrder
  rw [Opcode.lines] at hn
  obtain ⟨hbefore, hafter⟩ := hgap.cut (Nat.sub_le (c.aEnd-c.aBegin) n)
  have ha : c.aBegin+(c.aEnd-c.aBegin-n) = c.aEnd-n := by omega
  have hb : c.bBegin+(c.aEnd-c.aBegin-n) = c.bEnd-n := by omega
  rw [ha, hb] at hbefore hafter
  exact ⟨hbefore, hafter.holds⟩

theorem equal_head {c : Opcode} (h : c.Holds a b) (htag : c.tag = .equal) (hn : n ≤ c.lines) :
    Opcode.Holds a b ⟨.equal, c.aBegin, c.aBegin+n, c.bBegin, c.bBegin+n⟩ ∧
      Gap a b (c.aBegin+n) (c.bBegin+n) c.aEnd c.bEnd := by
  obtain ⟨hbefore, hafter⟩ := (h.gap htag).cut hn
  exact ⟨hbefore.holds, hafter⟩

structure Trimmed (a b : List α) (n i j : ℕ) (codes trimmed : List Opcode) : Prop where
  runs : ∃ p q, Gap a b 0 0 p q ∧ Runs a b p q trimmed i j
  tags : codes.map Opcode.tag = trimmed.map Opcode.tag
  lines : (∀ c ∈ codes, c.aBegin < c.aEnd ∨ c.bBegin < c.bEnd) →
    ∀ c ∈ trimmed, c.aBegin < c.aEnd ∨ c.bBegin < c.bEnd
  count : codeEdits codes = codeEdits trimmed
  lead : Lead n trimmed

theorem trimFirst_trimmed {codes : List Opcode} (hn : 0 < n) (h : Runs a b 0 0 codes i j) :
    Trimmed a b n i j codes (trimFirst n codes) := by
  cases h with
  | nil =>
    exact ⟨⟨0, 0, .refl (Nat.zero_le _) (Nat.zero_le _), .nil 0 0⟩, rfl, fun h => h, rfl, nofun⟩
  | @cons first codes _ _ _ _ hi hj hholds hrest =>
    have hstart : Gap a b 0 0 0 0 := .refl (Nat.zero_le _) (Nat.zero_le _)
    rw [trimFirst]
    split_ifs with htag
    · obtain ⟨tag, aBegin, aEnd, bBegin, bEnd⟩ := first
      dsimp only at hi hj hrest htag ⊢
      subst hi hj htag
      have hlength := (hholds.gap rfl).length
      dsimp only at hlength
      have hmin : min bEnd n = min aEnd n := by omega
      have hmaxa : max 0 (aEnd-min aEnd n) = aEnd-min aEnd n := Nat.zero_max _
      have hmaxb : max 0 (bEnd-min bEnd n) = bEnd-min aEnd n := by rw [hmin, Nat.zero_max]
      rw [hmaxa, hmaxb]
      obtain ⟨hgap, htail⟩ := equal_tail hholds rfl (n := min aEnd n) (by
        rw [Opcode.lines]
        exact Nat.min_le_left _ _)
      refine ⟨⟨_, _, hgap, .cons rfl rfl htail hrest⟩, rfl, ?_, rfl, ?_⟩
      · intro hlines
        obtain ⟨hfirst, hothers⟩ := List.forall_mem_cons.mp hlines
        refine List.forall_mem_cons.mpr ⟨?_, hothers⟩
        dsimp only at hfirst ⊢
        omega
      · intro c hc _
        obtain rfl := Option.some.inj hc
        rw [Opcode.lines]
        dsimp only
        omega
    · refine ⟨⟨0, 0, hstart, .cons hi hj hholds hrest⟩, rfl, fun h => h, rfl, ?_⟩
      intro c hc hequal
      obtain rfl := Option.some.inj hc
      exact absurd hequal htag

theorem trimLast_runs {codes : List Opcode} (h : Runs a b p q codes i j) (hi : i ≤ a.length)
    (hj : j ≤ b.length) : ∃ i' j', Runs a b p q (trimLast n codes) i' j' ∧ Gap a b i' j' i j := by
  rcases List.eq_nil_or_concat codes with rfl | ⟨init, last, rfl⟩
  · exact ⟨i, j, h, .refl hi hj⟩
  · rw [List.concat_eq_append] at h ⊢
    rw [trimLast, List.getLast?_concat, List.dropLast_concat]
    dsimp only
    obtain ⟨p', q', hinit, hlast⟩ := h.split
    split_ifs with htag
    · cases hlast with
      | cons hp hq hholds hnil =>
        cases hnil
        obtain ⟨tag, aBegin, aEnd, bBegin, bEnd⟩ := last
        dsimp only at hp hq htag hi hj ⊢
        subst hp hq htag
        have hlength := (hholds.gap rfl).length
        have hold := hholds.oldOrder
        have hnew := hholds.newOrder
        dsimp only at hlength hold hnew
        have hmina : min aEnd (aBegin+n) = aBegin+min (aEnd-aBegin) n := by omega
        have hminb : min bEnd (bBegin+n) = bBegin+min (aEnd-aBegin) n := by omega
        rw [hmina, hminb]
        obtain ⟨hhead, hgap⟩ := equal_head hholds rfl (n := min (aEnd-aBegin) n) (by
          rw [Opcode.lines]
          exact Nat.min_le_left _ _)
        exact ⟨_, _, hinit.append (.cons rfl rfl hhead (.nil _ _)), hgap⟩
    · exact ⟨i, j, h, .refl hi hj⟩

theorem trimLast_trail (codes : List Opcode) : Trail n (trimLast n codes) := by
  rcases List.eq_nil_or_concat codes with rfl | ⟨init, last, rfl⟩
  · exact nofun
  · rw [List.concat_eq_append, trimLast, List.getLast?_concat, List.dropLast_concat]
    dsimp only
    split_ifs with htag
    · intro c hc _
      rw [List.getLast?_concat] at hc
      obtain rfl := Option.some.inj hc
      rw [Opcode.lines]
      dsimp only
      omega
    · intro c hc hequal
      rw [List.getLast?_concat] at hc
      obtain rfl := Option.some.inj hc
      exact absurd hequal htag

theorem trimLast_facts {codes : List Opcode} (hn : 0 < n) (hruns : Runs a b p q codes i j) :
    codes.map Opcode.tag = (trimLast n codes).map Opcode.tag ∧
      ((∀ c ∈ codes, c.aBegin < c.aEnd ∨ c.bBegin < c.bEnd) →
        ∀ c ∈ trimLast n codes, c.aBegin < c.aEnd ∨ c.bBegin < c.bEnd) ∧
      codeEdits codes = codeEdits (trimLast n codes) ∧
      (Lead n codes → Lead n (trimLast n codes)) := by
  rcases List.eq_nil_or_concat codes with rfl | ⟨init, last, rfl⟩
  · exact ⟨rfl, fun h => h, rfl, fun h => h⟩
  · rw [List.concat_eq_append] at hruns ⊢
    obtain ⟨_, _, _, hlast⟩ := hruns.split
    rw [trimLast, List.getLast?_concat, List.dropLast_concat]
    dsimp only
    split_ifs with htag
    · refine ⟨by simp, ?_, ?_, ?_⟩
      · intro hlines c hc
        rcases List.mem_append.mp hc with hin | hin
        · exact hlines c (List.mem_append_left _ hin)
        · have hbefore := hlines last (by simp)
          cases hlast with
          | cons _ _ hholds _ =>
            have hlength := (hholds.gap htag).length
            rw [List.mem_singleton.mp hin]
            dsimp only
            omega
      · rw [codeEdits_append, codeEdits_append, codeEdits_singleton, codeEdits_singleton,
          Opcode.edits, Opcode.edits, if_pos htag]
        dsimp only
        rw [if_pos htag]
      · intro hlead c hc hequal
        cases init with
        | nil =>
          obtain rfl := Option.some.inj hc
          rw [Opcode.lines]
          dsimp only
          omega
        | cons first init => exact hlead c hc hequal
    · exact ⟨rfl, fun h => h, rfl, fun h => h⟩

inductive Hunks (a b : List α) : ℕ → ℕ → List (List Opcode) → ℕ → ℕ → Prop where
  | nil (i j : ℕ) : Hunks a b i j [] i j
  | cons {hunk : List Opcode} {rest : List (List Opcode)} {i j p q p' q' i' j' : ℕ}
      (hgap : Gap a b i j p q) (hne : hunk ≠ []) (hruns : Runs a b p q hunk p' q')
      (hrest : Hunks a b p' q' rest i' j') : Hunks a b i j (hunk :: rest) i' j'

theorem Hunks.snoc {hunks : List (List Opcode)} {hunk : List Opcode} {p' q' : ℕ}
    (h : Hunks a b i j hunks p q) (hgap : Gap a b p q p' q') (hne : hunk ≠ [])
    (hruns : Runs a b p' q' hunk i' j') : Hunks a b i j (hunks ++ [hunk]) i' j' := by
  induction h with
  | nil => exact .cons hgap hne hruns (.nil _ _)
  | cons hbefore hsome hfirst _ ih => exact .cons hbefore hsome hfirst (ih hgap)

/-- An equal run has at most so many lines for each run next to it, and the runs
next to it are changes. -/
structure Context (n : ℕ) (hunk : List Opcode) : Prop where
  clean : Clean hunk
  near : ∀ before c after, hunk = before ++ c :: after → c.tag = .equal →
    c.lines ≤ (if before = [] then 0 else n)+(if after = [] then 0 else n)

def Short (n : ℕ) (codes : List Opcode) : Prop := ∀ c ∈ codes, c.tag = .equal → c.lines ≤ 2*n

theorem context_of_short {hunk : List Opcode} (hclean : Clean hunk) (hshort : Short n hunk)
    (hlead : Lead n hunk) (htrail : Trail n hunk) (hidle : idle hunk = false) : Context n hunk := by
  refine ⟨hclean, ?_⟩
  intro before c after hsplit htag
  have hall := hshort c (by simp [hsplit]) htag
  by_cases hbefore : before = []
  · rw [if_pos hbefore]
    by_cases hafter : after = []
    · rw [hsplit, hbefore, hafter] at hidle
      rw [List.nil_append, idle, htag] at hidle
      cases hidle
    · rw [if_neg hafter]
      have hle := hlead c (by rw [hsplit, hbefore]; rfl) htag
      omega
  · rw [if_neg hbefore]
    by_cases hafter : after = []
    · rw [if_pos hafter]
      have hle := htrail c (by rw [hsplit, hafter, List.getLast?_concat]; rfl) htag
      omega
    · rw [if_neg hafter]
      omega

structure Grouping (n : ℕ) (a b : List α) (groups : Groups) (rest : List Opcode)
    (i j count : ℕ) : Prop where
  hunks : ∃ p q p' q', Hunks a b 0 0 groups.closed p q ∧ Gap a b p q p' q' ∧
    Runs a b p' q' groups.runs i j
  closed : ∀ hunk ∈ groups.closed, Context n hunk
  clean : Clean (groups.runs ++ rest)
  lead : Lead n (groups.runs ++ rest)
  trail : Trail n (groups.runs ++ rest)
  short : Short n groups.runs
  count : codeEdits groups.closed.flatten+codeEdits groups.runs = count

theorem Clean.left {codes more : List Opcode} (h : Clean (codes ++ more)) : Clean codes :=
  ⟨fun c hc => h.lines c (List.mem_append_left _ hc), (List.isChain_append.mp h.alternate).1⟩

theorem Clean.right {codes more : List Opcode} (h : Clean (codes ++ more)) : Clean more :=
  ⟨fun c hc => h.lines c (List.mem_append_right _ hc), (List.isChain_append.mp h.alternate).2.1⟩

theorem Clean.swap {before after : List Opcode} {c d : Opcode} (h : Clean (before ++ c :: after))
    (htag : c.tag = d.tag) (hlines : d.aBegin < d.aEnd ∨ d.bBegin < d.bEnd) :
    Clean (before ++ d :: after) := by
  refine ⟨?_, tags_alternate ?_ h.alternate⟩
  · intro e he
    rcases List.mem_append.mp he with hin | hin
    · exact h.lines e (List.mem_append_left _ hin)
    · rcases List.mem_cons.mp hin with rfl | hlater
      · exact hlines
      · exact h.lines e (List.mem_append_right _ (List.mem_cons_of_mem _ hlater))
  · rw [List.map_append, List.map_append, List.map_cons, List.map_cons, htag]

/-- A hunk that ends with the head of a long equal run. -/
theorem context_of_head {runs : List Opcode} {head : Opcode} (hsome : runs ≠ [])
    (hclean : Clean (runs ++ [head])) (hshort : Short n runs) (hlead : Lead n runs)
    (hlines : head.lines = n) : Context n (runs ++ [head]) := by
  apply context_of_short hclean
  · intro c hc htag
    rcases List.mem_append.mp hc with hbefore | hlast
    · exact hshort c hbefore htag
    · rw [List.mem_singleton.mp hlast, hlines]
      omega
  · intro c hc htag
    rw [List.head?_append_of_ne_nil _ hsome] at hc
    exact hlead c hc htag
  · intro c hc _
    rw [List.getLast?_concat] at hc
    obtain rfl := Option.some.inj hc
    exact hlines.le
  · obtain ⟨first, rest, hfirst⟩ := List.exists_cons_of_ne_nil hsome
    rw [hfirst]
    cases rest <;> rfl

theorem Trail.tail {before rest : List Opcode} {long tail : Opcode}
    (h : Trail n (before ++ long :: rest)) (hlines : tail.lines = n) : Trail n (tail :: rest) := by
  intro c hc htag
  cases rest with
  | nil =>
    obtain rfl := Option.some.inj hc
    exact hlines.le
  | cons d rest =>
    apply h c _ htag
    rw [List.getLast?_cons_cons] at hc
    rw [List.getLast?_append_of_ne_nil _ (List.cons_ne_nil _ _), List.getLast?_cons_cons]
    exact hc

/-- A long equal run: its head closes a hunk and its tail opens the next one. -/
theorem grouping_split {groups : Groups} {rest : List Opcode} {aEnd bEnd count : ℕ} (hn : 0 < n)
    (h : Grouping n a b groups (⟨.equal, i, aEnd, j, bEnd⟩ :: rest) i j count)
    (hcode : Opcode.Holds a b ⟨.equal, i, aEnd, j, bEnd⟩) (hlong : 2*n < aEnd-i) :
    Grouping n a b
      ⟨groups.closed ++ [groups.runs ++ [⟨.equal, i, min aEnd (i+n), j, min bEnd (j+n)⟩]],
        [⟨.equal, max i (aEnd-n), aEnd, max j (bEnd-n), bEnd⟩]⟩ rest aEnd bEnd count := by
  obtain ⟨⟨p, q, p', q', hhunks, hgap, hruns⟩, hclosed, hclean, hlead, htrail, hshort, hcount⟩ := h
  have hassoc : groups.runs ++ ⟨.equal, i, aEnd, j, bEnd⟩ :: rest =
      groups.runs ++ [⟨.equal, i, aEnd, j, bEnd⟩] ++ rest := by simp
  have hlength := (hcode.gap rfl).length
  have hold := hcode.oldOrder
  have hnew := hcode.newOrder
  dsimp only at hlength hold hnew
  obtain ⟨hhead, hrest⟩ := equal_head hcode rfl (n := n) (by rw [Opcode.lines]; dsimp only; omega)
  obtain ⟨hbetween, _⟩ := hrest.cut (n := aEnd-n-(i+n)) (by dsimp only; omega)
  obtain ⟨_, htail⟩ := equal_tail hcode rfl (n := n) (by rw [Opcode.lines]; dsimp only; omega)
  dsimp only at hhead hbetween htail
  have hmina : min aEnd (i+n) = i+n := by omega
  have hminb : min bEnd (j+n) = j+n := by omega
  have hmaxa : max i (aEnd-n) = aEnd-n := by omega
  have hmaxb : max j (bEnd-n) = bEnd-n := by omega
  have hcuta : i+n+(aEnd-n-(i+n)) = aEnd-n := by omega
  have hcutb : j+n+(aEnd-n-(i+n)) = bEnd-n := by omega
  rw [hcuta, hcutb] at hbetween
  rw [hmina, hminb, hmaxa, hmaxb]
  -- The long run is not the first one.
  have hsome : groups.runs ≠ [] := by
    intro hnone
    rw [hnone] at hlead
    have hle := hlead _ rfl rfl
    rw [Opcode.lines] at hle
    dsimp only at hle
    omega
  have hheadClean : Clean (groups.runs ++ [⟨.equal, i, i+n, j, j+n⟩]) := by
    rw [hassoc] at hclean
    exact hclean.left.swap rfl (.inl (by dsimp only; omega))
  have hheadLines : Opcode.lines ⟨.equal, i, i+n, j, j+n⟩ = n := Nat.add_sub_cancel_left i n
  have htailLines : Opcode.lines ⟨.equal, aEnd-n, aEnd, bEnd-n, bEnd⟩ = n := by
    rw [Opcode.lines]
    dsimp only
    omega
  have hleadRuns : Lead n groups.runs := by
    rwa [Lead, List.head?_append_of_ne_nil _ hsome] at hlead
  refine ⟨⟨_, _, _, _, hhunks.snoc hgap (by simp) (hruns.append (.cons rfl rfl hhead (.nil _ _))),
    hbetween, .singleton htail⟩, ?_, ?_, ?_, htrail.tail htailLines, ?_, ?_⟩
  · intro hunk hin
    rcases List.mem_append.mp hin with hbefore | hlast
    · exact hclosed hunk hbefore
    · rw [List.mem_singleton.mp hlast]
      exact context_of_head hsome hheadClean hshort hleadRuns hheadLines
  · have hright : Clean ([] ++ ⟨.equal, i, aEnd, j, bEnd⟩ :: rest) := hclean.right
    exact hright.swap rfl (.inl (by dsimp only; omega))
  · intro c hc _
    obtain rfl := Option.some.inj hc
    exact htailLines.le
  · intro c hc _
    rw [List.mem_singleton.mp hc, htailLines]
    omega
  · rw [List.flatten_append, List.flatten_singleton, codeEdits_append, codeEdits_append,
      codeEdits_singleton, codeEdits_singleton, ← hcount]
    simp [Opcode.edits]

theorem groupStep_grouping {groups : Groups} {code : Opcode} {rest : List Opcode} {count : ℕ}
    (hn : 0 < n) (h : Grouping n a b groups (code :: rest) i j count) (hi : code.aBegin = i)
    (hj : code.bBegin = j) (hcode : code.Holds a b) :
    Grouping n a b (groupStep n groups code) rest code.aEnd code.bEnd (count+code.edits) := by
  rw [groupStep]
  by_cases hsplit : code.tag = .equal ∧ 2*n < code.aEnd-code.aBegin
  · rw [if_pos hsplit]
    obtain ⟨htag, hlong⟩ := hsplit
    obtain ⟨tag, aBegin, aEnd, bBegin, bEnd⟩ := code
    dsimp only at hi hj htag hlong ⊢
    subst hi hj htag
    exact grouping_split hn h hcode hlong
  · rw [if_neg hsplit]
    obtain ⟨⟨p, q, p', q', hhunks, hgap, hruns⟩, hclosed, hclean, hlead, htrail, hshort, hcount⟩ := h
    have hassoc : groups.runs ++ code :: rest = groups.runs ++ [code] ++ rest := by simp
    rw [hassoc] at hclean hlead htrail
    refine ⟨⟨p, q, p', q', hhunks, hgap, hruns.append (.cons hi hj hcode (.nil _ _))⟩, hclosed,
      hclean, hlead, htrail, ?_, ?_⟩
    · intro c hc htag
      rcases List.mem_append.mp hc with hbefore | hlast
      · exact hshort c hbefore htag
      · rw [List.mem_singleton.mp hlast] at htag ⊢
        exact Nat.not_lt.mp fun hlong => hsplit ⟨htag, hlong⟩
    · dsimp only
      rw [codeEdits_append, codeEdits_singleton, ← hcount, Nat.add_assoc]

theorem groupSteps_grouping {groups : Groups} {codes : List Opcode} {count : ℕ} (hn : 0 < n)
    (h : Grouping n a b groups codes i j count) (hruns : Runs a b i j codes i' j') :
    Grouping n a b (codes.foldl (groupStep n) groups) [] i' j' (count+codeEdits codes) := by
  induction hruns generalizing groups count with
  | nil => exact h
  | @cons code codes i j i' j' hi hj hcode _ ih =>
    have hnext := ih (groupStep_grouping hn h hi hj hcode)
    rw [Nat.add_assoc] at hnext
    exact hnext

structure Grouped (n : ℕ) (a b : List α) (hunks : List (List Opcode)) (count : ℕ) : Prop where
  order : ∃ p q, Hunks a b 0 0 hunks p q ∧ Gap a b p q a.length b.length
  context : ∀ hunk ∈ hunks, Context n hunk
  count : codeEdits hunks.flatten = count

theorem idle_gap {codes : List Opcode} (h : Runs a b i j codes i' j') (hidle : idle codes = true)
    (hi : i ≤ a.length) (hj : j ≤ b.length) : Gap a b i j i' j' ∧ codeEdits codes = 0 := by
  cases h with
  | nil => exact ⟨.refl hi hj, rfl⟩
  | @cons code codes _ _ _ _ hp hq hcode hrest =>
    cases codes with
    | nil =>
      cases hrest
      have htag : code.tag = .equal := of_decide_eq_true hidle
      subst hp hq
      refine ⟨hcode.gap htag, ?_⟩
      rw [codeEdits_singleton, Opcode.edits, if_pos htag]
    | cons next codes => cases hidle

theorem groupHunks_grouped {codes : List Opcode} {count : ℕ} (hn : 0 < n)
    (h : Coded a b codes a.length b.length count) : Grouped n a b (groupHunks n codes) count := by
  obtain ⟨hruns, hclean, hcount⟩ := h
  have hfirst := trimFirst_trimmed hn hruns
  obtain ⟨p, q, hgap, hfirstRuns⟩ := hfirst.runs
  obtain ⟨htags, hlines, hedits, hlead⟩ := trimLast_facts hn hfirstRuns
  obtain ⟨i, j, hlastRuns, hend⟩ :=
    trimLast_runs (n := n) hfirstRuns (Nat.le_refl _) (Nat.le_refl _)
  have htrail : Trail n (trimLast n (trimFirst n codes)) := trimLast_trail _
  have hclean' : Clean (trimLast n (trimFirst n codes)) :=
    ⟨hlines (hfirst.lines hclean.lines),
      tags_alternate htags (tags_alternate hfirst.tags hclean.alternate)⟩
  rw [groupHunks]
  have hcount' : codeEdits (trimLast n (trimFirst n codes)) = count := by
    rw [← hedits, ← hfirst.count, hcount]
  generalize trimLast n (trimFirst n codes) = trimmed at hlastRuns hclean' hcount' htrail hlead ⊢
  have hstart : Grouping n a b ⟨[], []⟩ trimmed p q 0 :=
    ⟨⟨0, 0, p, q, .nil 0 0, hgap, .nil p q⟩, nofun, hclean', hlead hfirst.lead, htrail, nofun, rfl⟩
  have hgroups := groupSteps_grouping hn hstart hlastRuns
  generalize trimmed.foldl (groupStep n) ⟨[], []⟩ = groups at hgroups ⊢
  rw [hcount', Nat.zero_add] at hgroups
  obtain ⟨⟨p', q', r, s, hhunks, hbetween, hlast⟩, hclosed, hwhole, hfront, hback, hshort,
    htotal⟩ := hgroups
  rw [List.append_nil] at hwhole hfront hback
  cases hidle : idle groups.runs with
  | true =>
    obtain ⟨hnothing, hzero⟩ := idle_gap hlast hidle hbetween.oldInside hbetween.newInside
    rw [if_pos rfl]
    refine ⟨⟨p', q', hhunks, (hbetween.trans hnothing).trans hend⟩, hclosed, ?_⟩
    rw [← htotal, hzero, Nat.add_zero]
  | false =>
    rw [if_neg nofun]
    have hsome : groups.runs ≠ [] := by
      intro hnone
      rw [hnone] at hidle
      cases hidle
    refine ⟨⟨i, j, hhunks.snoc hbetween hsome hlast, hend⟩, ?_, ?_⟩
    · intro hunk hin
      rcases List.mem_append.mp hin with hbefore | hnew
      · exact hclosed hunk hbefore
      · rw [List.mem_singleton.mp hnew]
        exact context_of_short hwhole hshort hfront hback hidle
    · rw [List.flatten_append, List.flatten_singleton, codeEdits_append, htotal]

end JaszczurHal.UnifiedDiff
