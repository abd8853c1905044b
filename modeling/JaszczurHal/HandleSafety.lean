import JaszczurHal.HandleRuns

/-!
# Safety of the handle pool

Tokens handed back, handles that are live and handles that are closed, over
whole runs of the pool.
-/

set_option autoImplicit false

namespace JaszczurHal.HandleSafety
open JaszczurHal.HalStatus JaszczurHal.HandlePool JaszczurHal.HandleRuns

variable {p : Shape} {τ : Type} [DecidableEq τ]

section Tokens

omit [DecidableEq τ]

theorem slotOf_encode (i : Fin p.capacity) {generation : UInt32}
    (hpos : 0 < generation.toNat) (h : generation.toNat ≤ period p.width) :
    slotOf p (encodeHandle p i generation) = some i := by
  rw [slotOf, decode_encode p i generation hpos h]
  rfl

theorem openedOn_cons (i : Fin p.capacity) (e : Effect τ) (es : List (Effect τ)) :
    openedOn p i (e :: es) = openedOn p i [e] ++ openedOn p i es := by
  simp [openedOn]

theorem handedFrom_cons (i : ℕ) (e : Effect τ) (es : List (Effect τ)) :
    handedFrom i (e :: es) = handedFrom i [e] ++ handedFrom i es := by
  simp [handedFrom]

theorem handed_one (j i : ℕ) (token : Option τ) :
    (token.toList.map fun t => (j, t)).filterMap
      (fun (k, t) => if k = i then some t else none) = if j = i then token.toList else [] := by
  cases token with
  | none => simp
  | some t => by_cases hj : j = i <;> simp [hj]

theorem flatMap_at {α β : Type} [DecidableEq α] (l : List α) (hl : l.Nodup) (i : α)
    (hi : i ∈ l) (f : α → List β) :
    (l.flatMap fun j => if j = i then f j else []) = f i := by
  induction l with
  | nil => cases hi
  | cons a l ih =>
    obtain ⟨hnot, hl'⟩ := List.nodup_cons.mp hl
    rw [List.flatMap_cons]
    rcases List.mem_cons.mp hi with rfl | hrest
    · have hempty : (l.flatMap fun j => if j = i then f j else []) = [] := by
        apply List.flatMap_eq_nil_iff.mpr
        intro j hj
        rw [if_neg]
        rintro rfl
        exact hnot hj
      rw [if_pos rfl, hempty, List.append_nil]
    · have hne : a ≠ i := by
        rintro rfl
        exact hnot hrest
      rw [if_neg hne, List.nil_append, ih hl' hrest]

/-- What a call hands back of slot `i`, with what the slot then holds, is what
it held before with what the call opened. -/
theorem handed_change {s s' : State p τ} {e : Effect τ} (h : Inv s) (change : Change s s' e)
    (i : Fin p.capacity) :
    handedFrom i [e] ++ (s'.slots i).token.toList =
      (s.slots i).token.toList ++ openedOn p i [e] := by
  cases change with
  | idle => simp [handedFrom, openedOn]
  | opens j t free =>
    obtain ⟨hpos, hle⟩ := nextGeneration_bounds p.width _ (h.slot j).generation_le
    have htoken := ((s.slots j).free_iff.mp free).2.2.2
    by_cases hj : i = j
    · subst hj
      simp [handedFrom, openedOn, slotOf_encode i hpos hle, htoken]
    · simp [handedFrom, openedOn, slotOf_encode j hpos hle, hj, Ne.symm hj]
  | leases j t inUse token room =>
    by_cases hj : i = j
    · subst hj
      simp [handedFrom, openedOn]
    · simp [handedFrom, openedOn, hj]
  | ends k j lease at_k index active generation token count =>
    have htoken := finishClose_token { s.slots j with
      activeOperations := (s.slots j).activeOperations-1 }
    rw [handedFrom, List.flatMap_singleton, handed_one, index]
    by_cases hj : i = j
    · subst hj
      simpa [openedOn] using htoken
    · simp [openedOn, hj, Fin.val_inj, Ne.symm hj]
  | closes j handle inUse decodes =>
    have htoken := closeInUse_token (s.slots j)
    rw [handedFrom, List.flatMap_singleton, handed_one]
    by_cases hj : i = j
    · subst hj
      simpa [openedOn] using htoken
    · simp [openedOn, hj, Fin.val_inj, Ne.symm hj]
  | closesAll =>
    have htoken := closeInUse_token (s.slots i)
    have hhanded : handedFrom i [{
        closed := openHandles s.slots
        handed := (List.finRange p.capacity).flatMap fun j =>
          (s.slots j).closeInUse.1.toList.map fun t => (j.val, t) : Effect τ }] =
        (s.slots i).closeInUse.1.toList := by
      rw [handedFrom, List.flatMap_singleton, List.filterMap_flatMap]
      simp only [handed_one, Fin.val_inj]
      exact flatMap_at _ (List.nodup_finRange _) i (List.mem_finRange i)
        fun j => (s.slots j).closeInUse.1.toList
    rw [hhanded]
    simpa [openedOn] using htoken

/-- A token is handed back only when no lease is left on its slot. -/
theorem handed_unleased {s s' : State p τ} {e : Effect τ} (h : Inv s)
    (change : Change s s' e) {j : ℕ} {t : τ} (hmem : (j, t) ∈ e.handed) :
    ∃ i : Fin p.capacity, j = i ∧ outstanding s'.leases i = 0 := by
  have h' := inv_change h change
  have hzero : ∀ i, (s'.slots i).activeOperations = 0 → outstanding s'.leases i = 0 := by
    intro i hops
    rw [← (h'.slot i).operations, hops]
    rfl
  cases change with
  | idle => simp at hmem
  | opens i t free => simp at hmem
  | leases i t inUse token room => simp at hmem
  | ends k i lease at_k index active generation token count =>
    obtain ⟨t', ht', heq⟩ := List.mem_map.mp hmem
    refine ⟨i, by rw [← index]; exact (Prod.mk.inj heq).1.symm, hzero i ?_⟩
    have hsome := Option.isSome_iff_exists.mpr ⟨t', Option.mem_toList.mp ht'⟩
    simpa using finishClose_handed _ hsome
  | closes i handle inUse decodes =>
    obtain ⟨t', ht', heq⟩ := List.mem_map.mp hmem
    refine ⟨i, (Prod.mk.inj heq).1.symm, ?_⟩
    have hsome := Option.isSome_iff_exists.mpr ⟨t', Option.mem_toList.mp ht'⟩
    have hops := closeInUse_handed _ hsome
    show outstanding s.leases i = 0
    rw [← (h.slot i).operations, hops]
    rfl
  | closesAll =>
    obtain ⟨i, _, hin⟩ := List.mem_flatMap.mp hmem
    obtain ⟨t', ht', heq⟩ := List.mem_map.mp hin
    refine ⟨i, (Prod.mk.inj heq).1.symm, ?_⟩
    have hsome := Option.isSome_iff_exists.mpr ⟨t', Option.mem_toList.mp ht'⟩
    have hops := closeInUse_handed _ hsome
    show outstanding s.leases i = 0
    rw [← (h.slot i).operations, hops]
    rfl

end Tokens

theorem handed_run {s : State p τ} (h : Inv s) (cs : List (Call τ)) (i : Fin p.capacity) :
    handedFrom i (run s cs).2 ++ ((run s cs).1.slots i).token.toList =
      (s.slots i).token.toList ++ openedOn p i (run s cs).2 := by
  induction cs generalizing s with
  | nil => simp [run, handedFrom, openedOn]
  | cons c cs ih =>
    have hchange := step_change s c
    have hstep := handed_change h hchange i
    have hrest := ih (inv_change h hchange)
    simp only [run]
    rw [handedFrom_cons, openedOn_cons, List.append_assoc, hrest, ← List.append_assoc, hstep,
      List.append_assoc]

def LiveOk (handles : List ℕ) (slots : Slots p τ) : Prop :=
  handles.Nodup ∧ ∀ handle, handle ∈ handles ↔
    ∃ i, (slots i).inUse = true ∧ handle = encodeHandle p i (slots i).generation

section Handles

omit [DecidableEq τ]

theorem inUse_generation {s : State p τ} (h : Inv s) {i : Fin p.capacity}
    (hinUse : (s.slots i).inUse = true) : 0 < (s.slots i).generation.toNat :=
  (h.slot i).generation_pos ((h.slot i).held_iff.mpr (Or.inl hinUse))

theorem slotOf_inUse {s : State p τ} (h : Inv s) {i : Fin p.capacity}
    (hinUse : (s.slots i).inUse = true) :
    slotOf p (encodeHandle p i (s.slots i).generation) = some i :=
  slotOf_encode i (inUse_generation h hinUse) (h.slot i).generation_le

theorem mem_openHandles {slots : Slots p τ} {handle : ℕ} :
    handle ∈ openHandles slots ↔
      ∃ i, (slots i).inUse = true ∧ handle = encodeHandle p i (slots i).generation := by
  simp only [openHandles, List.mem_filterMap, List.mem_finRange, true_and]
  constructor
  · rintro ⟨i, hi⟩
    by_cases hinUse : (slots i).inUse = true
    · rw [if_pos hinUse, Option.some.injEq] at hi
      exact ⟨i, hinUse, hi.symm⟩
    · rw [if_neg hinUse] at hi
      cases hi
  · rintro ⟨i, hinUse, rfl⟩
    exact ⟨i, if_pos hinUse⟩

theorem live_change {s s' : State p τ} {e : Effect τ} {handles : List ℕ} (h : Inv s)
    (change : Change s s' e) (hlive : LiveOk handles s.slots) :
    LiveOk (liveStep handles e) s'.slots := by
  obtain ⟨hnodup, hmem⟩ := hlive
  have hsame : ∀ e : Effect τ, e.closed = [] → e.opened = [] → liveStep handles e = handles := by
    intro e hclosed hopened
    simp [liveStep, hclosed, hopened]
  cases change with
  | idle => exact ⟨by rwa [hsame _ rfl rfl], by rwa [hsame _ rfl rfl]⟩
  | opens i t free =>
    obtain ⟨hpos, hle⟩ := nextGeneration_bounds p.width _ (h.slot i).generation_le
    have hfree := ((s.slots i).free_iff.mp free).1
    have hnew : encodeHandle p i (nextGeneration p.width (s.slots i).generation) ∉ handles := by
      intro hin
      obtain ⟨j, hinUse, heq⟩ := (hmem _).mp hin
      have hj := slotOf_inUse h hinUse
      rw [← heq, slotOf_encode i hpos hle, Option.some.injEq] at hj
      rw [hj, hinUse] at hfree
      cases hfree
    have hstep : liveStep handles { opened := [(encodeHandle p i
        (nextGeneration p.width (s.slots i).generation), t)] : Effect τ } =
        handles ++ [encodeHandle p i (nextGeneration p.width (s.slots i).generation)] := by
      simp [liveStep]
    rw [hstep]
    refine ⟨hnodup.append (List.nodup_singleton _) (by simpa using hnew), fun handle => ?_⟩
    rw [List.mem_append, hmem, List.mem_singleton]
    constructor
    · rintro (⟨j, hinUse, rfl⟩ | rfl)
      · have hj : j ≠ i := by
          rintro rfl
          rw [hinUse] at hfree
          cases hfree
        exact ⟨j, by simpa [hj] using hinUse, by simp [hj]⟩
      · exact ⟨i, by simp, by simp⟩
    · rintro ⟨j, hinUse, rfl⟩
      by_cases hj : j = i
      · subst hj
        exact Or.inr (by simp)
      · exact Or.inl ⟨j, by simpa [hj] using hinUse, by simp [hj]⟩
  | leases i t inUse token room =>
    rw [hsame _ rfl rfl]
    refine ⟨hnodup, fun handle => (hmem handle).trans (exists_congr fun j => ?_)⟩
    by_cases hj : j = i
    · subst hj
      simp
    · simp [hj]
  | ends k i lease at_k index active generation token count =>
    rw [hsame _ rfl rfl]
    refine ⟨hnodup, fun handle => (hmem handle).trans (exists_congr fun j => ?_)⟩
    by_cases hj : j = i
    · subst hj
      simp
    · simp [hj]
  | closes i handle inUse decodes =>
    simp only [liveStep, List.map_nil, List.append_nil]
    refine ⟨hnodup.filter _, fun handle' => ?_⟩
    simp only [List.mem_filter, hmem, List.mem_singleton, decide_eq_true_eq]
    constructor
    · rintro ⟨⟨j, hinUse, rfl⟩, hne⟩
      have hj : j ≠ i := by
        rintro rfl
        exact hne rfl
      exact ⟨j, by simpa [hj] using hinUse, by simp [hj]⟩
    · rintro ⟨j, hinUse, rfl⟩
      by_cases hj : j = i
      · subst hj
        simp at hinUse
      · simp only [Function.update_of_ne hj] at hinUse ⊢
        refine ⟨⟨j, hinUse, rfl⟩, fun heq => hj ?_⟩
        have hslot := slotOf_inUse h hinUse
        rw [heq, slotOf_inUse h inUse, Option.some.injEq] at hslot
        exact hslot.symm
  | closesAll =>
    simp only [liveStep, List.map_nil, List.append_nil]
    refine ⟨hnodup.filter _, fun handle => ?_⟩
    simp only [List.mem_filter, hmem, mem_openHandles, decide_eq_true_eq, closeInUse_inUse,
      Bool.false_eq_true, false_and, exists_false, iff_false, not_and, not_not]
    exact id

/-- How often a slot is opened is how often its generation advances. -/
theorem generation_change {s s' : State p τ} {e : Effect τ} (h : Inv s)
    (change : Change s s' e) (i : Fin p.capacity) :
    (s'.slots i).generation =
        (nextGeneration p.width)^[(openedOn p i [e]).length] (s.slots i).generation ∧
      (openedOn p i [e] = [] → (s'.slots i).inUse = true → (s.slots i).inUse = true) := by
  cases change with
  | idle => exact ⟨rfl, fun _ => id⟩
  | opens j t free =>
    obtain ⟨hpos, hle⟩ := nextGeneration_bounds p.width _ (h.slot j).generation_le
    by_cases hj : i = j
    · subst hj
      simp [openedOn, slotOf_encode i hpos hle]
    · simp [openedOn, slotOf_encode j hpos hle, hj, Ne.symm hj]
  | leases j t inUse token room =>
    by_cases hj : i = j
    · subst hj
      simp [openedOn]
    · simp [openedOn, hj]
  | ends k j lease at_k index active generation token count =>
    by_cases hj : i = j
    · subst hj
      simp [openedOn]
    · simp [openedOn, hj]
  | closes j handle inUse decodes =>
    by_cases hj : i = j
    · subst hj
      simp [openedOn]
    · simp [openedOn, hj]
  | closesAll => simp [openedOn]

/-- The handles a call closes are those of slots that it leaves unused. -/
theorem closed_change {s s' : State p τ} {e : Effect τ} (h : Inv s)
    (change : Change s s' e) {handle : ℕ} (hclosed : handle ∈ e.closed) :
    ∃ i, decodeHandle p handle = some (i, (s'.slots i).generation) ∧
      (s'.slots i).inUse = false ∧ 0 < (s'.slots i).generation.toNat := by
  cases change with
  | idle => simp at hclosed
  | opens i t free => simp at hclosed
  | leases i t inUse token room => simp at hclosed
  | ends k i lease at_k index active generation token count => simp at hclosed
  | closes i handle' inUse decodes =>
    obtain rfl := List.mem_singleton.mp hclosed
    have hpos := inUse_generation h inUse
    exact ⟨i, by simpa using decode_encode p i _ hpos (h.slot i).generation_le, by simp,
      by simpa using hpos⟩
  | closesAll =>
    obtain ⟨i, hinUse, rfl⟩ := mem_openHandles.mp hclosed
    have hpos := inUse_generation h hinUse
    exact ⟨i, by simpa using decode_encode p i _ hpos (h.slot i).generation_le, by simp,
      by simpa using hpos⟩

end Handles

theorem live_run {s : State p τ} {handles : List ℕ} (h : Inv s)
    (hlive : LiveOk handles s.slots) (cs : List (Call τ)) :
    LiveOk ((run s cs).2.foldl liveStep handles) (run s cs).1.slots := by
  induction cs generalizing s handles with
  | nil => exact hlive
  | cons c cs ih =>
    have hchange := step_change s c
    exact ih (inv_change h hchange) (live_change h hchange hlive)

theorem generation_run {s : State p τ} (h : Inv s) (cs : List (Call τ)) (i : Fin p.capacity) :
    ((run s cs).1.slots i).generation = (nextGeneration p.width)^[
        (openedOn p i (run s cs).2).length] (s.slots i).generation ∧
      (openedOn p i (run s cs).2 = [] → ((run s cs).1.slots i).inUse = true →
        (s.slots i).inUse = true) := by
  induction cs generalizing s with
  | nil => exact ⟨rfl, fun _ => id⟩
  | cons c cs ih =>
    have hchange := step_change s c
    obtain ⟨hgen, huse⟩ := generation_change h hchange i
    obtain ⟨hgen', huse'⟩ := ih (inv_change h hchange)
    simp only [run]
    rw [openedOn_cons, List.length_append, Nat.add_comm, Function.iterate_add_apply, ← hgen]
    refine ⟨hgen', fun hempty hinUse => ?_⟩
    obtain ⟨he, hes⟩ := List.append_eq_nil_iff.mp hempty
    exact huse he (huse' hes hinUse)

/-- A closed handle resolves again only after its slot has gone through every
generation. -/
theorem closed_stays_closed {s s' : State p τ} {e : Effect τ} (h : Inv s)
    (change : Change s s' e) (cs : List (Call τ)) {closed handle : ℕ}
    (hclosed : closed ∈ e.closed) (hsame : decodeHandle p handle = decodeHandle p closed)
    {t : τ} {i : Fin p.capacity}
    (hresolve : resolve (run s' cs).1.slots handle = .ok (t, i)) :
    period p.width ≤ (openedOn p i (run s' cs).2).length := by
  obtain ⟨j, hdecode, hunused, hpos⟩ := closed_change h change hclosed
  obtain ⟨hlater, hinUse, _⟩ := resolve_ok hresolve
  have h' := inv_change h change
  have hij : i = j ∧ ((run s' cs).1.slots i).generation = (s'.slots j).generation := by
    rw [hsame, hdecode] at hlater
    simpa [eq_comm] using hlater
  obtain ⟨rfl, hback⟩ := hij
  obtain ⟨hgen, huse⟩ := generation_run h' cs i
  have hopened : (openedOn p i (run s' cs).2).length ≠ 0 := by
    intro hzero
    rw [huse (List.length_eq_zero_iff.mp hzero) hinUse] at hunused
    cases hunused
  exact generation_returns p.width _ _ hpos (h'.slot i).generation_le hopened
    (hgen.symm.trans hback)

/-- For any calls on a pool: live handles are distinct, nonzero and resolve;
a slot counts its outstanding leases; every token is handed back once, to the
call that closes its slot or ends the last lease on it; and a closed handle
does not resolve until its slot's generation has wrapped. -/
theorem handle_pool_safe (p : Shape) (cs : List (Call τ)) :
    let s := (run (start p τ) cs).1
    let es := (run (start p τ) cs).2
    ((live es).Nodup ∧ ∀ handle ∈ live es,
      handle ≠ 0 ∧ ∃ t i, resolve s.slots handle = .ok (t, i)) ∧
    (∀ i, (s.slots i).activeOperations.toNat = outstanding s.leases i) ∧
    (∀ i : Fin p.capacity, handedFrom i es ++ (s.slots i).token.toList = openedOn p i es) ∧
    (∀ i, (s.slots i).token.isSome = true → (s.slots i).inUse = false →
      outstanding s.leases i ≠ 0) ∧
    (∀ c, ∀ handed ∈ (step s c).2.handed, ∃ i : Fin p.capacity,
      handed.1 = i ∧ outstanding (step s c).1.leases i = 0) ∧
    ∀ c later closed handle t i, closed ∈ (step s c).2.closed →
      decodeHandle p handle = decodeHandle p closed →
      resolve (run (step s c).1 later).1.slots handle = .ok (t, i) →
      period p.width ≤ (openedOn p i (run (step s c).1 later).2).length := by
  intro s es
  have h : Inv s := inv_run (inv_start p τ) cs
  have hlive : LiveOk (live es) s.slots :=
    live_run (inv_start p τ) ⟨List.nodup_nil, by simp [start, Slot.zero]⟩ cs
  refine ⟨⟨hlive.1, fun handle hmem => ?_⟩, fun i => (h.slot i).operations, fun i => ?_,
    fun i htoken hunused => ?_, fun c handed hmem => handed_unleased h (step_change s c) hmem,
    fun c later closed handle t i hclosed hsame hresolve =>
      closed_stays_closed h (step_change s c) later hclosed hsame hresolve⟩
  · obtain ⟨i, hinUse, rfl⟩ := (hlive.2 handle).mp hmem
    have hle := (h.slot i).generation_le
    obtain ⟨t, htoken⟩ := Option.isSome_iff_exists.mp ((h.slot i).held_iff.mpr (Or.inl hinUse))
    exact ⟨(encode_pos p i _ hle).ne', t, i,
      resolve_encode (inUse_generation h hinUse) hle hinUse htoken⟩
  · have hrun := handed_run (inv_start p τ) cs i
    rwa [show ((start p τ).slots i).token.toList = [] from rfl, List.nil_append] at hrun
  · rcases (h.slot i).held_iff.mp htoken with hinUse | hclosing
    · rw [hunused] at hinUse
      cases hinUse
    · exact (h.slot i).closing_leased hclosing

end JaszczurHal.HandleSafety
