import JaszczurHal.NetLiteralLaws

/-!
# The text of an address

The formatter writes the text of RFC 5952: groups in lower case without leading
zeros, and the leftmost longest run of zero groups left out. The parser reads
the address back from it.
-/

set_option autoImplicit false

namespace JaszczurHal.NetLiterals
open DecimalText WordBits

def lowerHex (b : UInt8) : Bool :=
  decide (48 ≤ b) && decide (b ≤ 57) || decide (97 ≤ b) && decide (b ≤ 102)

structure LowerGroup (text : List UInt8) (word : UInt16) : Prop where
  group : HexGroup text word
  lower : ∀ b ∈ text, lowerHex b = true
  leading : 1 < text.length → text.head? ≠ some 48

def hexByte (d : ℕ) : UInt8 := UInt8.ofNat (Nat.digitChar d).toNat

theorem hexByte_facts : ∀ d : Fin 16, lowerHex (hexByte d) = true ∧
    hexValue (hexByte d) = some (UInt8.ofNat d) ∧ (hexByte d = 48 → d = 0) := by
  decide

theorem hexText_cases (n : ℕ) : n < 16 ∧ hexText n = [hexByte n] ∨
    0 < n/16 ∧ hexText n = hexText (n/16) ++ [hexByte (n%16)] := by
  by_cases hsmall : n < 16
  · refine .inl ⟨hsmall, ?_⟩
    rw [hexText, Nat.toDigits_of_lt_base hsmall]
    rfl
  · refine .inr ⟨Nat.div_pos (by omega) (by decide), ?_⟩
    rw [hexText, Nat.toDigits_of_base_le (by decide) (by omega), List.map_append]
    rfl

theorem hexFrom_append (value : ℕ) (text : List UInt8) (b : UInt8) :
    hexFrom value (text ++ [b]) = hexFrom value text*16+((hexValue b).getD 0).toNat := by
  simp [hexFrom]

theorem hexText_digits (n : ℕ) : hexText n ≠ [] ∧ hexFrom 0 (hexText n) = n ∧
    ∀ b ∈ hexText n, lowerHex b = true := by
  induction n using Nat.strongRecOn with
  | ind n ih =>
    rcases hexText_cases n with ⟨hsmall, htext⟩ | ⟨hpos, htext⟩
    · obtain ⟨hlower, hvalue, _⟩ := hexByte_facts ⟨n, hsmall⟩
      dsimp only at hlower hvalue
      rw [htext]
      refine ⟨List.cons_ne_nil _ _, ?_, ?_⟩
      · have hnat : (UInt8.ofNat n).toNat = n := by
          rw [UInt8.toNat_ofNat']
          omega
        simp [hexFrom, hvalue, hnat]
      · rintro b hb
        rwa [List.mem_singleton.mp hb]
    · have hdigit : n%16 < 16 := Nat.mod_lt n (by decide)
      obtain ⟨hlower, hvalue, _⟩ := hexByte_facts ⟨n%16, hdigit⟩
      dsimp only at hlower hvalue
      obtain ⟨_, hrest, hdigits⟩ := ih (n/16) (by omega)
      rw [htext]
      refine ⟨by simp, ?_, ?_⟩
      · have hnat : (UInt8.ofNat (n%16)).toNat = n%16 := by
          rw [UInt8.toNat_ofNat']
          omega
        rw [hexFrom_append, hrest, hvalue, Option.getD_some, hnat]
        omega
      · intro b hb
        rcases List.mem_append.mp hb with hin | hin
        · exact hdigits b hin
        · rwa [List.mem_singleton.mp hin]

theorem hexText_head {n : ℕ} (hn : 0 < n) : (hexText n).head? ≠ some 48 := by
  induction n using Nat.strongRecOn with
  | ind n ih =>
    rcases hexText_cases n with ⟨hsmall, htext⟩ | ⟨hpos, htext⟩
    · rw [htext]
      intro heq
      have hzero := (hexByte_facts ⟨n, hsmall⟩).2.2 (Option.some.inj heq)
      have hval := congrArg Fin.val hzero
      exact absurd hval (by simpa using Nat.ne_of_gt hn)
    · rw [htext, head_append (hexText_digits _).1]
      exact ih (n/16) (by omega) hpos

theorem hexText_length {n k : ℕ} (h : n < 16^(k+1)) : (hexText n).length ≤ k+1 := by
  induction k generalizing n with
  | zero =>
    rcases hexText_cases n with ⟨_, htext⟩ | ⟨hpos, _⟩
    · rw [htext]
      rfl
    · omega
  | succ k ih =>
    rcases hexText_cases n with ⟨_, htext⟩ | ⟨_, htext⟩
    · rw [htext, List.length_singleton]
      omega
    · have hdiv : n/16 < 16^(k+1) := by
        rw [Nat.div_lt_iff_lt_mul (by decide), ← Nat.pow_succ]
        exact h
      have hlength := ih hdiv
      rw [htext, List.length_append, List.length_singleton]
      omega

theorem lowerHex_value : ∀ b : UInt8, lowerHex b = true → (hexValue b).isSome = true := by
  decide +kernel

theorem hexText_lower (word : UInt16) : LowerGroup (hexText word.toNat) word := by
  obtain ⟨hne, hvalue, hlower⟩ := hexText_digits word.toNat
  refine ⟨⟨hne, ?_, fun b hb => lowerHex_value b (hlower b hb), hvalue⟩, hlower, ?_⟩
  · exact hexText_length (k := 3) word.toNat_lt
  · intro hlong
    apply hexText_head
    apply Nat.pos_of_ne_zero
    intro hzero
    rw [hzero] at hlong
    exact absurd hlong (by decide)

def Run (zero : ℕ → Bool) (start length : ℕ) : Prop :=
  2 ≤ length ∧ ∀ i < length, zero (start+i) = true

theorem zerosFrom_zero {zero : ℕ → Bool} {fuel index : ℕ} :
    ∀ i < zerosFrom zero fuel index, zero (index+i) = true := by
  induction fuel generalizing index with
  | zero => exact fun i hi => absurd hi (Nat.not_lt_zero i)
  | succ fuel ih =>
    intro i hi
    rw [zerosFrom] at hi
    split_ifs at hi with hzero
    · cases i with
      | zero => exact hzero.2
      | succ i =>
        have hlater : zero (index+1+i) = true := ih i (by omega)
        rwa [Nat.add_right_comm] at hlater
    · exact absurd hi (Nat.not_lt_zero i)

theorem zerosFrom_end {zero : ℕ → Bool} (hinside : ∀ i, zero i = true → i < 8) {fuel index : ℕ}
    (hfuel : 8 ≤ fuel+index) : zero (index+zerosFrom zero fuel index) = false := by
  induction fuel generalizing index with
  | zero =>
    rw [zerosFrom, Bool.eq_false_iff]
    intro hzero
    have hlt := hinside _ hzero
    omega
  | succ fuel ih =>
    rw [zerosFrom]
    split_ifs with hzero
    · have hlater : zero (index+1+zerosFrom zero fuel (index+1)) = false := ih (by omega)
      rwa [Nat.add_right_comm] at hlater
    · rw [Bool.eq_false_iff]
      intro hfirst
      exact hzero ⟨hinside _ hfirst, hfirst⟩

structure Leads (zero : ℕ → Bool) (start : ℕ) (best : ℕ × ℕ) : Prop where
  found : best = (8, 0) ∨ Run zero best.1 best.2 ∧ best.1 < start
  longest : ∀ s l, Run zero s l → s < start → l ≤ best.2
  leftmost : ∀ s l, Run zero s l → s < start → l = best.2 → best.1 ≤ s

/-- One turn of the loop at the first group of a run. -/
theorem leads_run {zero : ℕ → Bool} (hinside : ∀ i, zero i = true → i < 8) {start : ℕ}
    {best : ℕ × ℕ} (h : Leads zero start best) : Leads zero (start+zerosFrom zero 8 start)
      (if 2 ≤ zerosFrom zero 8 start ∧ best.2 < zerosFrom zero 8 start then
        (start, zerosFrom zero 8 start) else best) := by
  have hzeros : ∀ i < zerosFrom zero 8 start, zero (start+i) = true := zerosFrom_zero
  have hend : zero (start+zerosFrom zero 8 start) = false := zerosFrom_end hinside (by omega)
  generalize zerosFrom zero 8 start = length at hzeros hend
  -- A run that starts here or behind ends where the zeros end.
  have hlater : ∀ s l, Run zero s l → start ≤ s → s < start+length → s+l ≤ start+length := by
    intro s l hrun hs hstop
    by_contra hlong
    have hzero := hrun.2 (start+length-s) (by omega)
    rw [Nat.add_sub_cancel' (Nat.le_of_lt hstop), hend] at hzero
    cases hzero
  split_ifs with hbetter
  · refine ⟨.inr ⟨⟨hbetter.1, hzeros⟩, by dsimp only; omega⟩, ?_, ?_⟩
    · intro s l hrun hs
      dsimp only
      rcases Nat.lt_or_ge s start with hbefore | hafter
      · have hle := h.longest s l hrun hbefore
        omega
      · have hle := hlater s l hrun hafter hs
        omega
    · intro s l hrun hs heq
      dsimp only at heq ⊢
      rcases Nat.lt_or_ge s start with hbefore | hafter
      · have hle := h.longest s l hrun hbefore
        omega
      · exact hafter
  · have hshort : ∀ s l, Run zero s l → start ≤ s → s < start+length →
        l ≤ best.2 ∧ best.1 ≤ s := by
      intro s l hrun hafter hs
      have hle := hlater s l hrun hafter hs
      have htwo := hrun.1
      have hkept : length ≤ best.2 := by
        by_contra hlong
        exact hbetter ⟨by omega, by omega⟩
      refine ⟨by omega, ?_⟩
      rcases h.found with hnone | ⟨_, hbefore⟩
      · rw [hnone] at hkept
        dsimp only at hkept
        omega
      · omega
    refine ⟨h.found.imp_right fun hfound => ⟨hfound.1, by omega⟩, ?_, ?_⟩
    · intro s l hrun hs
      rcases Nat.lt_or_ge s start with hbefore | hafter
      · exact h.longest s l hrun hbefore
      · exact (hshort s l hrun hafter hs).1
    · intro s l hrun hs heq
      rcases Nat.lt_or_ge s start with hbefore | hafter
      · exact h.leftmost s l hrun hbefore heq
      · exact (hshort s l hrun hafter hs).2

theorem leads_next {zero : ℕ → Bool} {start : ℕ} {best : ℕ × ℕ} (h : Leads zero start best)
    (hzero : ¬ zero start = true) : Leads zero (start+1) best := by
  have hbefore : ∀ s l, Run zero s l → s < start+1 → s < start := by
    intro s l hrun hs
    rcases Nat.lt_succ_iff_lt_or_eq.mp hs with hlt | rfl
    · exact hlt
    · exact absurd (hrun.2 0 (Nat.lt_of_lt_of_le Nat.two_pos hrun.1)) hzero
  refine ⟨h.found.imp_right fun hfound => ⟨hfound.1, by omega⟩, ?_, ?_⟩
  · exact fun s l hrun hs => h.longest s l hrun (hbefore s l hrun hs)
  · exact fun s l hrun hs => h.leftmost s l hrun (hbefore s l hrun hs)

theorem bestRun_leads {zero : ℕ → Bool} (hinside : ∀ i, zero i = true → i < 8)
    {fuel start : ℕ} {best : ℕ × ℕ} (hfuel : 8 ≤ fuel+start) (h : Leads zero start best) :
    ∃ stop, 8 ≤ stop ∧ Leads zero stop (bestRun zero fuel start best) := by
  induction fuel generalizing start best with
  | zero => exact ⟨start, by omega, h⟩
  | succ fuel ih =>
    rw [bestRun]
    split_ifs with hstop hzero
    · exact ⟨start, hstop, h⟩
    · have hpos : 0 < zerosFrom zero 8 start := by
        rw [zerosFrom, if_pos ⟨Nat.not_le.mp hstop, hzero⟩]
        exact Nat.succ_pos _
      exact ih (by omega) (leads_run hinside h)
    · exact ih (by omega) (leads_next h hzero)

def ZeroRun (words : List UInt16) (start length : ℕ) : Prop :=
  2 ≤ length ∧ ∀ i < length, words[start+i]? = some 0

structure BestZeroRun (words : List UInt16) (start length : ℕ) : Prop where
  run : ZeroRun words start length
  longest : ∀ s l, ZeroRun words s l → l ≤ length
  leftmost : ∀ s, ZeroRun words s length → start ≤ s

def addressBest (words : List UInt16) : ℕ × ℕ :=
  bestRun (fun index => words.getD index 1 == 0) 8 0 (8, 0)

theorem addressBest_cases {words : List UInt16} (hwords : words.length = 8) :
    addressBest words = (8, 0) ∧ (∀ s l, ¬ ZeroRun words s l) ∨
      BestZeroRun words (addressBest words).1 (addressBest words).2 := by
  have hzero : ∀ i, (words.getD i 1 == 0) = true ↔ words[i]? = some 0 := by
    intro i
    rw [beq_iff_eq, List.getD_eq_getElem?_getD]
    cases words[i]? with
    | none => exact iff_of_false (by decide) nofun
    | some word => exact (Option.some_inj (a := word)).symm
  have hrun : ∀ s l, Run (fun index => words.getD index 1 == 0) s l ↔ ZeroRun words s l := by
    intro s l
    simp only [Run, ZeroRun, hzero]
  have hlt : ∀ i : ℕ, words[i]? = some 0 → i < 8 := by
    intro i hi
    rw [← hwords]
    exact (List.getElem?_eq_some_iff.mp hi).1
  have hnone : Leads (fun index => words.getD index 1 == 0) 0 (8, 0) :=
    ⟨.inl rfl, fun _ _ _ hs => absurd hs (Nat.not_lt_zero _),
      fun _ _ _ hs => absurd hs (Nat.not_lt_zero _)⟩
  obtain ⟨stop, hstop, hleads⟩ :=
    bestRun_leads (fun i hi => hlt i ((hzero i).mp hi)) (Nat.le_refl 8) hnone
  change Leads _ stop (addressBest words) at hleads
  have hinside : ∀ s l, ZeroRun words s l → s < stop := by
    intro s l h
    have hfirst := hlt _ (h.2 0 (Nat.lt_of_lt_of_le Nat.two_pos h.1))
    omega
  rcases hleads.found with hempty | ⟨hfound, _⟩
  · refine .inl ⟨hempty, fun s l h => ?_⟩
    have hle := hleads.longest s l ((hrun s l).mpr h) (hinside s l h)
    rw [hempty] at hle
    exact absurd h.1 (Nat.not_le.mpr (Nat.lt_of_le_of_lt hle Nat.two_pos))
  · refine .inr ⟨(hrun _ _).mp hfound, fun s l h => ?_, fun s h => ?_⟩
    · exact hleads.longest s l ((hrun s l).mpr h) (hinside s l h)
    · exact hleads.leftmost s _ ((hrun s _).mpr h) (hinside s _ h) rfl

open ByteImage DecimalText WordBits

inductive LowerGroups : List UInt8 → List UInt16 → Prop where
  | empty : LowerGroups [] []
  | one {text : List UInt8} {word : UInt16} (h : LowerGroup text word) : LowerGroups text [word]
  | cons {text rest : List UInt8} {word next : UInt16} {words : List UInt16}
      (h : LowerGroup text word) (hrest : LowerGroups rest (next :: words)) :
      LowerGroups (text ++ colon :: rest) (word :: next :: words)

/-- The eight groups, and the leftmost longest run of zero groups left out. -/
inductive Rfc5952 : List UInt8 → List UInt16 → Prop where
  | full {text : List UInt8} {words : List UInt16} (h : LowerGroups text words)
      (hnone : ∀ start length, ¬ ZeroRun words start length) : Rfc5952 text words
  | compressed {left right : List UInt8} {words : List UInt16} {start length : ℕ}
      (hbest : BestZeroRun words start length) (hleft : LowerGroups left (words.take start))
      (hright : LowerGroups right (words.drop (start+length))) :
      Rfc5952 (left ++ colon :: colon :: right) words

def addGroup (text : List UInt8) (word : UInt16) : List UInt8 :=
  (if 0 < text.length ∧ text.getLast? ≠ some colon then text ++ [colon] else text) ++
    hexText word.toNat

def joined : List UInt16 → List UInt8
  | [] => []
  | [word] => hexText word.toNat
  | word :: next :: words => hexText word.toNat ++ colon :: joined (next :: words)

theorem joined_lower (words : List UInt16) : LowerGroups (joined words) words := by
  induction words with
  | nil => exact .empty
  | cons word words ih =>
    cases words with
    | nil => exact .one (hexText_lower word)
    | cons next words => exact .cons (hexText_lower word) ih

theorem hexText_last (word : UInt16) (before : List UInt8) :
    before ++ hexText word.toNat ≠ [] ∧
      (before ++ hexText word.toNat).getLast? ≠ some colon := by
  obtain ⟨hne, _, hlower⟩ := hexText_digits word.toNat
  refine ⟨by simp [hne], ?_⟩
  rw [List.getLast?_append_of_ne_nil before hne]
  intro hlast
  exact absurd (hlower colon (List.mem_of_getLast? hlast)) (by decide)

theorem addGroup_behind {words : List UInt16} {text : List UInt8} (hne : text ≠ [])
    (hlast : text.getLast? ≠ some colon) :
    words.foldl addGroup text =
      text ++ words.flatMap fun word => colon :: hexText word.toNat := by
  induction words generalizing text with
  | nil => simp
  | cons word words ih =>
    have hadd : addGroup text word = text ++ [colon] ++ hexText word.toNat := by
      rw [addGroup, if_pos ⟨List.length_pos_of_ne_nil hne, hlast⟩]
    obtain ⟨hnext, hend⟩ := hexText_last word (text ++ [colon])
    rw [List.foldl_cons, hadd, ih hnext hend]
    simp

theorem joined_cons (word : UInt16) (words : List UInt16) :
    joined (word :: words) =
      hexText word.toNat ++ words.flatMap fun word => colon :: hexText word.toNat := by
  induction words generalizing word with
  | nil => simp [joined]
  | cons next words ih =>
    rw [joined, ih next]
    simp

/-- Groups are added to an empty text, or behind a double colon. -/
theorem addGroup_start {words : List UInt16} {text : List UInt8}
    (hstart : text = [] ∨ text.getLast? = some colon) :
    words.foldl addGroup text = text ++ joined words := by
  cases words with
  | nil => simp [joined]
  | cons word words =>
    have hadd : addGroup text word = text ++ hexText word.toNat := by
      rw [addGroup, if_neg]
      rintro ⟨hpos, hlast⟩
      rcases hstart with rfl | hcolon
      · exact absurd hpos (Nat.lt_irrefl 0)
      · exact hlast hcolon
    obtain ⟨hne, hlast⟩ := hexText_last word text
    rw [List.foldl_cons, hadd, addGroup_behind hne hlast, joined_cons, List.append_assoc]

theorem addGroup_length (text : List UInt8) (word : UInt16) :
    (addGroup text word).length ≤ text.length+5 := by
  have hshort := (hexText_lower word).group.short
  rw [addGroup, List.length_append]
  split_ifs
  · rw [List.length_append, List.length_singleton]
    omega
  · omega

theorem groups_fit (words : List UInt16) (text : List UInt8) :
    (words.foldl addGroup text).length ≤ text.length+5*words.length := by
  induction words generalizing text with
  | nil => simp
  | cons word words ih =>
    have hone := addGroup_length text word
    have hrest : (words.foldl addGroup (addGroup text word)).length ≤
        (addGroup text word).length+5*words.length := ih _
    rw [List.foldl_cons, List.length_cons]
    omega

theorem writeWords_groups {words : List UInt16} (hwords : words.length = 8) {best : ℕ × ℕ}
    {turns fuel index : ℕ} {text : List UInt8} (hend : index+turns ≤ 8)
    (hbest : ∀ i, index ≤ i → i < index+turns → i ≠ best.1) (hroom : text.length+5*turns ≤ 45) :
    writeWords words best (fuel+turns) index text =
      writeWords words best fuel (index+turns)
        (((words.drop index).take turns).foldl addGroup text) := by
  induction turns generalizing index text with
  | zero => simp
  | succ turns ih =>
    have hlt : index < words.length := by omega
    have hget : words.getD index 0 = words[index] := by
      rw [List.getD_eq_getElem?_getD, List.getElem?_eq_getElem hlt, Option.getD_some]
    have hshort := (hexText_lower words[index]).group.short
    have hgrown := addGroup_length text words[index]
    rw [← Nat.add_assoc, writeWords, if_neg (by omega), if_neg (hbest index (by omega) (by omega)),
      List.drop_eq_getElem_cons hlt, List.take_succ_cons, List.foldl_cons]
    dsimp only
    rw [hget, if_neg]
    · change writeWords words best (fuel+turns) (index+1) (addGroup text words[index]) = _
      rw [ih (by omega) (fun i hi hlast => hbest i (by omega) (by omega)) (by omega),
        Nat.add_right_comm, Nat.add_assoc]
    · rw [textSize]
      split_ifs
      · rw [List.length_append, List.length_singleton]
        omega
      · omega

theorem writeWords_done {words : List UInt16} {best : ℕ × ℕ} {fuel index : ℕ}
    {text : List UInt8} (hindex : 8 ≤ index) :
    writeWords words best fuel index text = some text := by
  cases fuel with
  | zero => rfl
  | succ fuel => rw [writeWords, if_pos hindex]

theorem writeWords_full {words : List UInt16} (hwords : words.length = 8) {best : ℕ × ℕ}
    (hbest : 8 ≤ best.1) : writeWords words best 8 0 [] = some (joined words) := by
  have hrun : writeWords words best (0+8) 0 [] =
      writeWords words best 0 (0+8) (((words.drop 0).take 8).foldl addGroup []) :=
    writeWords_groups hwords (by decide) (fun i _ hi => by omega) (by decide)
  rw [hrun, writeWords_done (by decide), List.drop_zero, List.take_of_length_le (by omega),
    addGroup_start (.inl rfl), List.nil_append]

theorem zeroRun_end {words : List UInt16} {start length : ℕ} (h : ZeroRun words start length) :
    start+length ≤ words.length := by
  have hlast := h.2 (length-1) (Nat.sub_lt (Nat.lt_of_lt_of_le Nat.two_pos h.1) Nat.one_pos)
  have hlt := (List.getElem?_eq_some_iff.mp hlast).1
  have htwo := h.1
  omega

theorem writeWords_compressed {words : List UInt16} (hwords : words.length = 8)
    {start length : ℕ} (hrun : ZeroRun words start length) :
    writeWords words (start, length) 8 0 [] = some (joined (words.take start) ++
      colon :: colon :: joined (words.drop (start+length))) := by
  have hend := zeroRun_end hrun
  have htwo := hrun.1
  rw [hwords] at hend
  obtain ⟨turns, hturns⟩ : ∃ turns, start+length+turns = 8 := ⟨8-(start+length), by omega⟩
  have hleft : writeWords words (start, length) (8-start+start) 0 [] =
      writeWords words (start, length) (8-start) (0+start)
        (((words.drop 0).take start).foldl addGroup []) :=
    writeWords_groups hwords (by omega) (fun i _ hi => Nat.ne_of_lt (by omega))
      (by rw [List.length_nil]; omega)
  rw [List.drop_zero, Nat.zero_add, Nat.sub_add_cancel (by omega), addGroup_start (.inl rfl),
    List.nil_append] at hleft
  have hfits := groups_fit (words.take start) []
  rw [addGroup_start (.inl rfl), List.nil_append, List.length_nil,
    List.length_take_of_le (by omega)] at hfits
  have hfuel : 8-start = length-1+turns+1 := by omega
  generalize hbefore : joined (words.take start) = before at hleft hfits
  rw [hleft, hfuel, writeWords, if_neg (by omega), if_pos rfl,
    if_neg (by rw [textSize]; omega)]
  dsimp only
  have hright : writeWords words (start, length) (length-1+turns) (start+length)
      (before ++ [colon, colon]) = writeWords words (start, length) (length-1)
        (start+length+turns) (((words.drop (start+length)).take turns).foldl addGroup
          (before ++ [colon, colon])) := by
    refine writeWords_groups hwords (by omega) (fun i hi _ => Nat.ne_of_gt ?_) ?_
    · dsimp only
      omega
    · rw [List.length_append, List.length_cons, List.length_singleton]
      omega
  rw [hright, writeWords_done (by omega), List.take_of_length_le (by rw [List.length_drop]; omega),
    addGroup_start (.inr (by simp))]
  simp

def addressText (addr : List UInt8) : List UInt8 :=
  (writeWords (loadWords addr) (addressBest (loadWords addr)) 8 0 []).getD []

theorem loadWords_length (addr : List UInt8) : (loadWords addr).length = 8 := by
  simp [loadWords]

theorem writeWords_rfc {words : List UInt16} (hwords : words.length = 8) :
    ∃ text, writeWords words (addressBest words) 8 0 [] = some text ∧ Rfc5952 text words ∧
      text.length < textSize := by
  rcases addressBest_cases hwords with ⟨hnone, hno⟩ | hbest
  · refine ⟨joined words, ?_, .full (joined_lower words) hno, ?_⟩
    · rw [hnone]
      exact writeWords_full hwords (Nat.le_refl 8)
    · have hfits := groups_fit words []
      rw [addGroup_start (.inl rfl), List.nil_append, List.length_nil] at hfits
      rw [textSize]
      omega
  · generalize addressBest words = best at hbest
    obtain ⟨start, length⟩ := best
    refine ⟨_, writeWords_compressed hwords hbest.run,
      .compressed hbest (joined_lower _) (joined_lower _), ?_⟩
    have hend := zeroRun_end hbest.run
    have htwo := hbest.run.1
    have hleft := groups_fit (words.take start) []
    have hright := groups_fit (words.drop (start+length)) []
    rw [addGroup_start (.inl rfl), List.nil_append, List.length_nil] at hleft hright
    rw [List.length_take] at hleft
    rw [List.length_drop] at hright
    rw [List.length_append, List.length_cons, List.length_cons, textSize]
    dsimp only at hend htwo hleft hright ⊢
    omega

theorem formatIpv6_text (addr : List UInt8) :
    Rfc5952 (addressText addr) (loadWords addr) ∧ (addressText addr).length < textSize ∧
      ∀ outSize, formatIpv6 addr outSize =
        if (addressText addr).length < outSize then some (addressText addr) else none := by
  obtain ⟨text, htext, hrfc, hshort⟩ := writeWords_rfc (loadWords_length addr)
  have haddress : addressText addr = text := by rw [addressText, htext, Option.getD_some]
  rw [haddress]
  refine ⟨hrfc, hshort, fun outSize => ?_⟩
  rw [addressBest] at htext
  rw [formatIpv6]
  split_ifs with hempty hfits hfits
  · omega
  · rfl
  · dsimp only
    rw [htext]
    dsimp only
    rw [if_neg (by omega)]
  · dsimp only
    rw [htext]
    dsimp only
    rw [if_pos (by omega)]

theorem lowerGroups_side {text : List UInt8} {words : List UInt16} (h : LowerGroups text words) :
    Side Short text words ∧ dot ∉ text := by
  have hgroups : text = [] ∧ words = [] ∨ Groups Short text words ∧ dot ∉ text := by
    induction h with
    | empty => exact .inl ⟨rfl, rfl⟩
    | one h => exact .inr ⟨.hex h.group, h.group.no_dot⟩
    | cons h _ ih =>
      rcases ih with ⟨_, hnil⟩ | ⟨hrest, hplain⟩
      · cases hnil
      · refine .inr ⟨.cons h.group hrest, ?_⟩
        simp only [List.mem_append, List.mem_cons, not_or]
        exact ⟨h.group.no_dot, by decide, hplain⟩
  rcases hgroups with ⟨rfl, rfl⟩ | ⟨hgroups, hplain⟩
  · exact ⟨.empty, nofun⟩
  · exact ⟨.groups hgroups, hplain⟩

theorem zeroRun_split {words : List UInt16} {start length : ℕ} (h : ZeroRun words start length) :
    words = words.take start ++ List.replicate length 0 ++ words.drop (start+length) := by
  have hzeros : (words.drop start).take length = List.replicate length 0 := by
    apply List.ext_getElem?
    intro i
    rw [List.getElem?_take, List.getElem?_replicate, List.getElem?_drop]
    split_ifs with hi
    · exact h.2 i hi
    · rfl
  rw [← hzeros, List.append_assoc, ← List.drop_drop, List.take_append_drop,
    List.take_append_drop]

theorem rfc5952_words {text : List UInt8} {words : List UInt16} (hwords : words.length = 8)
    (h : Rfc5952 text words) : Common text words := by
  cases h with
  | full h _ =>
    cases (lowerGroups_side h).1 with
    | empty => cases hwords
    | groups h => exact .full h hwords
  | @compressed left right _ start length hbest hleft hright =>
    obtain ⟨hside, hplain⟩ := lowerGroups_side hleft
    have hend := zeroRun_end hbest.run
    have htwo := hbest.run.1
    have htake : (words.take start).length = start := List.length_take_of_le (by omega)
    have hdrop : (words.drop (start+length)).length = 8-(start+length) := by
      rw [List.length_drop, hwords]
    have hcount : length = 8-(words.take start).length-(words.drop (start+length)).length := by
      omega
    have hsplit := zeroRun_split hbest.run
    rw [hcount] at hsplit
    rw [hwords] at hend
    have hcompressed : WordsText Short (dot ∉ ·) _ _ :=
      .compressed hside hplain (lowerGroups_side hright).1 (by omega)
    rw [← hcount] at hsplit hcompressed
    rw [← hsplit] at hcompressed
    exact hcompressed

theorem slice_pairs (m : Image) (n : ℕ) :
    ((List.range n).flatMap fun index => slice m (index*2) 2) = slice m 0 (n*2) := by
  induction n with
  | zero => rfl
  | succ n ih =>
    rw [List.range_succ, List.flatMap_append, ih, List.flatMap_singleton, Nat.succ_mul,
      slice_append, Nat.zero_add]

theorem storeWords_load {addr : List UInt8} (haddr : addr.length = 16) :
    storeWords (loadWords addr) = addr := by
  rw [storeWords, loadWords, List.flatMap_map]
  simp only [store_loadBe16]
  rw [slice_pairs]
  have hwhole := slice_ofList addr
  rwa [haddr] at hwhole

/-- Parsing the text of an address gives the address back. -/
theorem parse_addressText {addr : List UInt8} (haddr : addr.length = 16) (allow : Bool) :
    parseIpv6Literal (addressText addr) allow = some (addr, 0) := by
  rw [parseIpv6Literal_iff]
  have hcommon := rfc5952_words (loadWords_length addr) (formatIpv6_text addr).1
  exact ⟨_, _, accepted_iff.mpr (.inl hcommon), (storeWords_load haddr).symm, .inl ⟨rfl, rfl⟩⟩

/-- Both directions between addresses and their texts: what the formatter writes
is the text of RFC 5952 and is read back, what the IPv4 parser accepts is a
dotted text, and when the IPv6 parser accepts the texts of RFC 4291. -/
theorem literals_exact (src : List UInt8) (allow : Bool) :
    (∀ addr : List UInt8, addr.length = 16 →
      (∀ outSize, textSize ≤ outSize → ∃ text, formatIpv6 addr outSize = some text) ∧
        ∀ outSize text, formatIpv6 addr outSize = some text → Rfc5952 text (loadWords addr) ∧
          storeWords (loadWords addr) = addr ∧
          ∀ allow, parseIpv6Literal text allow = some (addr, 0)) ∧
    (∀ addr, parseIpv4Literal src = some addr ↔ Ipv4Text src addr) ∧
    (Ipv6Exact src allow ↔
      (∀ addr scope, ¬ LiteralText Misplaced allow src addr scope) ∧
        ∀ addr scope, ¬ LiteralText LongDotted allow src addr scope) := by
  refine ⟨fun addr haddr => ?_, fun _ => parseIpv4Literal_iff, ipv6Exact_iff⟩
  obtain ⟨hrfc, hshort, hformat⟩ := formatIpv6_text addr
  constructor
  · intro outSize hsize
    refine ⟨addressText addr, ?_⟩
    rw [hformat, if_pos (Nat.lt_of_lt_of_le hshort hsize)]
  · intro outSize text htext
    rw [hformat] at htext
    split_ifs at htext
    obtain rfl := Option.some.inj htext
    exact ⟨hrfc, storeWords_load haddr, parse_addressText haddr⟩

def dottedBefore : List UInt8 := [49, 46, 50, 46, 51, 46, 52, 58, 58]

/-- A dotted text before a double colon is taken, though no text of RFC 4291 has
one there. -/
theorem dotted_before_accepted :
    parseIpv6Literal dottedBefore false =
        some ([1, 2, 3, 4, 0, 0, 0, 0, 0, 0, 0, 0, 0, 0, 0, 0], 0) ∧
      ¬ ∃ addr scope, LiteralText Rfc4291 false dottedBefore addr scope := by
  refine ⟨by decide +kernel, ?_⟩
  rintro ⟨addr, scope, hrfc⟩
  have hoctets : Ipv4Text [49, 46, 50, 46, 51, 46, 52] [1, 2, 3, 4] :=
    parseIpv4Literal_iff.mp (by decide +kernel)
  have hshort : Short [49, 46, 50, 46, 51, 46, 52] := by
    rw [Short]
    decide
  have hmisplaced : LiteralText Misplaced false dottedBefore
      (storeWords (ipv4Words [1, 2, 3, 4] ++ List.replicate (8-2-0) 0 ++ [])) 0 :=
    ⟨_, _, .before (.groups (.dotted hoctets hshort)) (by decide) .empty (by decide), rfl,
      .inl ⟨rfl, rfl⟩⟩
  exact literalText_apart (fun _ _ => misplaced_plain) (fun _ _ => wordsText_plain)
    (fun _ _ _ hone => misplaced_not_rfc hone) hmisplaced hrfc

end JaszczurHal.NetLiterals
