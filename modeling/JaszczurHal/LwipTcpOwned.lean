import JaszczurHal.LwipTcp

/-!
# Ownership of TCP connections

Every living connection is owned by exactly one record, to which its callbacks
point; a record that was made for a connection keeps its bytes until it is
initialised again.
-/

set_option autoImplicit false

namespace JaszczurHal.LwipTcp

theorem pbufCopyPartial_eq (chain : Chain) (n : ℕ) : pbufCopyPartial chain n = chain.bytes.take n := by
  induction chain generalizing n with
  | nil => simp [pbufCopyPartial, Chain.bytes]
  | cons part rest ih => simp [pbufCopyPartial, ih, Chain.bytes, List.take_append]

theorem pbufFreeHeader_bytes (chain : Chain) (n : ℕ) :
    (pbufFreeHeader chain n).bytes = chain.bytes.drop n := by
  induction chain generalizing n with
  | nil => simp [pbufFreeHeader, Chain.bytes]
  | cons part rest ih =>
    unfold pbufFreeHeader
    split
    next hzero => simp [hzero]
    next =>
      split
      next hwhole =>
        rw [ih]
        simp [Chain.bytes, List.drop_append, List.drop_eq_nil_of_le hwhole]
      next hpart =>
        have hinside : n-part.length = 0 := by omega
        simp [Chain.bytes, List.drop_append, hinside]

theorem append_bytes (first second : Chain) : (first ++ second).bytes = first.bytes ++ second.bytes :=
  List.flatten_append

@[simp] theorem setCell_self (m : Memory) (o : Owner) (t : TcpSocket) :
    (setCell m o t).cells o = t := by simp [setCell]

@[simp] theorem setCell_connections (m : Memory) (o : Owner) (t : TcpSocket) :
    (setCell m o t).connections = m.connections := rfl

theorem setCell_other (m : Memory) {o o' : Owner} (t : TcpSocket) (h : o' ≠ o) :
    (setCell m o t).cells o' = m.cells o' := by simp [setCell, h]

@[simp] theorem setConnection_self (m : Memory) (p : ℕ) (c : Connection) :
    (setConnection m p c).connections p = c := by simp [setConnection]

@[simp] theorem setConnection_cells (m : Memory) (p : ℕ) (c : Connection) :
    (setConnection m p c).cells = m.cells := rfl

theorem setConnection_other (m : Memory) {p p' : ℕ} (c : Connection) (h : p' ≠ p) :
    (setConnection m p c).connections p' = m.connections p' := by
  simp [setConnection, h]

structure Owned (m : Memory) (next : ℕ) : Prop where
  pointed : ∀ o p, (m.cells o).pcb = some p → (m.connections p).alive = true ∧
    (m.connections p).argument = some o ∧ (m.cells o).origin = some p
  held : ∀ p, (m.connections p).alive = true → ∃ o, (m.cells o).pcb = some p
  single : ∀ o o' p, (m.cells o).origin = some p → (m.cells o').origin = some p → o = o'
  made : ∀ o p, (m.cells o).origin = some p → p < next
  blank : ∀ o, (m.cells o).origin = none → m.cells o = socketInit
  endedOnce : m.ended.Nodup
  endedDead : ∀ p ∈ m.ended, (m.connections p).alive = false ∧ p < next

theorem argument_of_alive {m : Memory} {next p : ℕ} (h : Owned m next)
    (halive : (m.connections p).alive = true) :
    ∃ o, (m.connections p).argument = some o ∧ (m.cells o).pcb = some p := by
  obtain ⟨o, ho⟩ := h.held p halive
  exact ⟨o, (h.pointed o p ho).2.1, ho⟩

theorem alive_lt {m : Memory} {next p : ℕ} (h : Owned m next)
    (halive : (m.connections p).alive = true) : p < next := by
  obtain ⟨o, ho⟩ := h.held p halive
  exact h.made o p (h.pointed o p ho).2.2

/-- A connection whose life and argument stay as they are. -/
theorem owned_setConnection {m : Memory} {next p : ℕ} {c : Connection} (h : Owned m next)
    (hsame : c.alive = (m.connections p).alive ∧ c.argument = (m.connections p).argument) :
    Owned (setConnection m p c) next := by
  have hconnection : ∀ p', ((setConnection m p c).connections p').alive = (m.connections p').alive ∧
      ((setConnection m p c).connections p').argument = (m.connections p').argument := by
    intro p'
    by_cases heq : p' = p
    · rw [heq, setConnection_self]
      exact hsame
    · rw [setConnection_other m c heq]
      exact ⟨rfl, rfl⟩
  constructor
  · intro o p' hp
    rw [(hconnection p').1, (hconnection p').2]
    exact h.pointed o p' hp
  · intro p' hp
    rw [(hconnection p').1] at hp
    exact h.held p' hp
  · exact h.single
  · exact h.made
  · exact h.blank
  · exact h.endedOnce
  · intro p' hp
    rw [(hconnection p').1]
    exact h.endedDead p' hp

theorem owned_setCell {m : Memory} {next : ℕ} {o : Owner} {t : TcpSocket} (h : Owned m next)
    (hpcb : t.pcb = (m.cells o).pcb) (horigin : t.origin = (m.cells o).origin)
    (hblank : t.origin = none → t = socketInit) : Owned (setCell m o t) next := by
  have hcell : ∀ o', ((setCell m o t).cells o').pcb = (m.cells o').pcb ∧
      ((setCell m o t).cells o').origin = (m.cells o').origin := by
    intro o'
    by_cases heq : o' = o
    · rw [heq, setCell_self]
      exact ⟨hpcb, horigin⟩
    · rw [setCell_other m t heq]
      exact ⟨rfl, rfl⟩
  constructor
  · intro o' p hp
    rw [(hcell o').1] at hp
    rw [(hcell o').2]
    exact h.pointed o' p hp
  · intro p hp
    obtain ⟨o', ho'⟩ := h.held p hp
    exact ⟨o', (hcell o').1.trans ho'⟩
  · intro o₁ o₂ p h₁ h₂
    rw [(hcell o₁).2] at h₁
    rw [(hcell o₂).2] at h₂
    exact h.single o₁ o₂ p h₁ h₂
  · intro o' p hp
    rw [(hcell o').2] at hp
    exact h.made o' p hp
  · intro o' hnone
    by_cases heq : o' = o
    · rw [heq, setCell_self] at hnone ⊢
      exact hblank hnone
    · rw [setCell_other m t heq] at hnone ⊢
      exact h.blank o' hnone
  · exact h.endedOnce
  · exact h.endedDead

theorem socketClose_self (m : Memory) (o : Owner) : (socketClose m o).cells o = socketInit := by
  unfold socketClose
  split
  · exact setCell_self m o socketInit
  · exact setCell_self _ o socketInit

theorem socketClose_other (m : Memory) {o o' : Owner} (h : o' ≠ o) :
    (socketClose m o).cells o' = m.cells o' := by
  unfold socketClose
  split
  · exact setCell_other m socketInit h
  · exact setCell_other _ socketInit h

theorem socketClose_kept (m : Memory) {o : Owner} {p : ℕ} (h : (m.cells o).pcb ≠ some p) :
    (socketClose m o).connections p = m.connections p := by
  unfold socketClose
  split
  · rfl
  next q hq =>
    have hne : p ≠ q := by
      rintro rfl
      exact h hq
    exact setConnection_other m _ hne

theorem socketClose_ended (m : Memory) {o : Owner} {p : ℕ} (h : (m.cells o).pcb = some p) :
    (socketClose m o).connections p = { m.connections p with alive := false, argument := none } ∧
      (socketClose m o).ended = m.ended ++ [p] := by
  simp [socketClose, h, endConnection, setCell]

/-- The record of a connection that has been let go of is blank. -/
theorem owned_socketClose {m : Memory} {next : ℕ} (h : Owned m next) (o : Owner) :
    Owned (socketClose m o) next := by
  have hself := socketClose_self m o
  have horigin : ∀ o' p, ((socketClose m o).cells o').origin = some p →
      o' ≠ o ∧ (m.cells o').origin = some p := by
    intro o' p hp
    by_cases heq : o' = o
    · rw [heq, hself] at hp
      cases hp
    · rw [socketClose_other m heq] at hp
      exact ⟨heq, hp⟩
  have hkept : ∀ o' p, o' ≠ o → (m.cells o').pcb = some p →
      (socketClose m o).connections p = m.connections p := by
    intro o' p hne hp
    apply socketClose_kept
    intro heq
    exact hne (h.single o' o p (h.pointed o' p hp).2.2 (h.pointed o p heq).2.2)
  have hended : (socketClose m o).ended.Nodup ∧ ∀ p ∈ (socketClose m o).ended,
      ((socketClose m o).connections p).alive = false ∧ p < next := by
    cases hpcb : (m.cells o).pcb with
    | none =>
      have hsame : (socketClose m o).ended = m.ended := by simp [socketClose, hpcb, setCell]
      rw [hsame]
      refine ⟨h.endedOnce, ?_⟩
      intro p hp
      rw [socketClose_kept m (by simp [hpcb])]
      exact h.endedDead p hp
    | some q =>
      have halive := (h.pointed o q hpcb).1
      obtain ⟨hq, hlist⟩ := socketClose_ended m hpcb
      have hnew : q ∉ m.ended := by
        intro hmem
        simp [(h.endedDead q hmem).1] at halive
      rw [hlist]
      constructor
      · apply List.nodup_append.mpr
        refine ⟨h.endedOnce, List.nodup_singleton q, ?_⟩
        intro a ha b hb heq
        rw [heq, List.mem_singleton.mp hb] at ha
        exact hnew ha
      · intro p hp
        by_cases heq : p = q
        · rw [heq, hq]
          exact ⟨rfl, alive_lt h halive⟩
        · rw [socketClose_kept m (by rw [hpcb]; simpa using Ne.symm heq)]
          apply h.endedDead p
          rcases List.mem_append.mp hp with hp | hp
          · exact hp
          · exact absurd (List.mem_singleton.mp hp) heq
  constructor
  · intro o' p hp
    by_cases heq : o' = o
    · rw [heq, hself] at hp
      cases hp
    · rw [socketClose_other m heq] at hp ⊢
      rw [hkept o' p heq hp]
      exact h.pointed o' p hp
  · intro p hp
    by_cases heq : (m.cells o).pcb = some p
    · rw [(socketClose_ended m heq).1] at hp
      cases hp
    · rw [socketClose_kept m heq] at hp
      obtain ⟨o', ho'⟩ := h.held p hp
      have hne : o' ≠ o := by
        rintro rfl
        exact heq ho'
      exact ⟨o', by rw [socketClose_other m hne]; exact ho'⟩
  · intro o₁ o₂ p h₁ h₂
    exact h.single o₁ o₂ p (horigin o₁ p h₁).2 (horigin o₂ p h₂).2
  · intro o' p hp
    exact h.made o' p (horigin o' p hp).2
  · intro o' hnone
    by_cases heq : o' = o
    · rw [heq, hself]
    · rw [socketClose_other m heq] at hnone ⊢
      exact h.blank o' hnone
  · exact hended.1
  · exact hended.2

theorem unmade {m : Memory} {next : ℕ} (h : Owned m next) (o : Owner) :
    (m.cells o).origin ≠ some next := by
  intro ho
  exact absurd (h.made o next ho) (lt_irrefl next)

theorem unpointed {m : Memory} {next : ℕ} (h : Owned m next) (o : Owner) :
    (m.cells o).pcb ≠ some next := by
  intro ho
  exact unmade h o (h.pointed o next ho).2.2

theorem owned_reject {m : Memory} {next : ℕ} (h : Owned m next) :
    Owned (endConnection (setConnection m next freshConnection) next) (next+1) := by
  have hself : ((endConnection (setConnection m next freshConnection) next).connections next).alive =
      false := by
    simp [endConnection, setConnection]
  have hother : ∀ p, p ≠ next → (endConnection (setConnection m next freshConnection) next).connections p
      = m.connections p := by
    intro p hp
    simp [endConnection, setConnection, hp]
  have hne : ∀ o p, (m.cells o).pcb = some p → p ≠ next := by
    intro o p hp heq
    exact unpointed h o (heq ▸ hp)
  constructor
  · intro o p hp
    rw [hother p (hne o p hp)]
    exact h.pointed o p hp
  · intro p hp
    by_cases heq : p = next
    · rw [heq, hself] at hp
      cases hp
    · rw [hother p heq] at hp
      exact h.held p hp
  · exact h.single
  · intro o p hp
    exact Nat.lt_succ_of_lt (h.made o p hp)
  · exact h.blank
  · apply List.nodup_append.mpr
    refine ⟨h.endedOnce, List.nodup_singleton next, ?_⟩
    intro a ha b hb heq
    rw [heq, List.mem_singleton.mp hb] at ha
    exact absurd (h.endedDead next ha).2 (lt_irrefl next)
  · intro p hp
    by_cases heq : p = next
    · rw [heq]
      exact ⟨hself, Nat.lt_succ_self next⟩
    · rcases List.mem_append.mp hp with hp | hp
      · rw [hother p heq]
        exact ⟨(h.endedDead p hp).1, Nat.lt_succ_of_lt (h.endedDead p hp).2⟩
      · exact absurd (List.mem_singleton.mp hp) heq

def adopted (p : ℕ) (state : TcpState) : TcpSocket :=
  { socketInit with pcb := some p, state := state, origin := some p }

theorem adopt_eq (m : Memory) (o : Owner) (p : ℕ) (state : TcpState) :
    adopt m o p state =
      setConnection (setCell m o (adopted p state)) p { m.connections p with argument := some o } := by
  simp [adopt, configureCallbacks, adopted]

theorem owned_adopt {m : Memory} {next : ℕ} (h : Owned m next) {o : Owner}
    (hfree : m.cells o = socketInit) (state : TcpState) :
    Owned (adopt (setConnection m next freshConnection) o next state) (next+1) := by
  rw [adopt_eq]
  generalize hm : setConnection (setCell (setConnection m next freshConnection) o (adopted next state))
    next { (setConnection m next freshConnection).connections next with argument := some o } = m'
  have hself : m'.cells o = adopted next state := by simp [← hm]
  have hcell : ∀ o', o' ≠ o → m'.cells o' = m.cells o' := by
    intro o' hne
    rw [← hm, setConnection_cells, setCell_other _ _ hne, setConnection_cells]
  have hnew : m'.connections next = { freshConnection with argument := some o } := by simp [← hm]
  have hold : ∀ p, p ≠ next → m'.connections p = m.connections p := by
    intro p hp
    rw [← hm, setConnection_other _ _ hp, setCell_connections, setConnection_other _ _ hp]
  have hended : m'.ended = m.ended := by rw [← hm]; rfl
  have horigin : ∀ o' p, (m'.cells o').origin = some p →
      (o' = o ∧ p = next) ∨ (o' ≠ o ∧ (m.cells o').origin = some p) := by
    intro o' p hp
    by_cases heq : o' = o
    · rw [heq, hself] at hp
      exact Or.inl ⟨heq, (Option.some.inj hp).symm⟩
    · rw [hcell o' heq] at hp
      exact Or.inr ⟨heq, hp⟩
  constructor
  · intro o' p hp
    by_cases heq : o' = o
    · rw [heq, hself] at hp
      have hsame : next = p := Option.some.inj hp
      rw [heq, ← hsame, hself, hnew]
      exact ⟨rfl, rfl, rfl⟩
    · rw [hcell o' heq] at hp ⊢
      have hne : p ≠ next := fun hsame => unpointed h o' (hsame ▸ hp)
      rw [hold p hne]
      exact h.pointed o' p hp
  · intro p hp
    by_cases heq : p = next
    · exact ⟨o, by rw [hself, heq]; rfl⟩
    · rw [hold p heq] at hp
      obtain ⟨o', ho'⟩ := h.held p hp
      have hne : o' ≠ o := by
        rintro rfl
        rw [hfree] at ho'
        cases ho'
      exact ⟨o', by rw [hcell o' hne]; exact ho'⟩
  · intro o₁ o₂ p h₁ h₂
    rcases horigin o₁ p h₁ with ⟨hone, hp⟩ | ⟨hone, hp⟩
    · rcases horigin o₂ p h₂ with ⟨htwo, -⟩ | ⟨-, hp₂⟩
      · rw [hone, htwo]
      · exact absurd (hp ▸ hp₂) (unmade h o₂)
    · rcases horigin o₂ p h₂ with ⟨-, hp₂⟩ | ⟨-, hp₂⟩
      · exact absurd (hp₂ ▸ hp) (unmade h o₁)
      · exact h.single o₁ o₂ p hp hp₂
  · intro o' p hp
    rcases horigin o' p hp with ⟨-, heq⟩ | ⟨-, hp⟩
    · rw [heq]
      exact Nat.lt_succ_self next
    · exact Nat.lt_succ_of_lt (h.made o' p hp)
  · intro o' hnone
    by_cases heq : o' = o
    · rw [heq, hself] at hnone
      cases hnone
    · rw [hcell o' heq] at hnone ⊢
      exact h.blank o' hnone
  · rw [hended]
    exact h.endedOnce
  · intro p hp
    rw [hended] at hp
    have hdead := h.endedDead p hp
    rw [hold p (by omega)]
    exact ⟨hdead.1, Nat.lt_succ_of_lt hdead.2⟩

/-- A connection that lwIP has given up leaves its record without a pcb. -/
theorem owned_lose {m : Memory} {next p : ℕ} (h : Owned m next) {o : Owner} {t : TcpSocket}
    (hpcb : (m.cells o).pcb = some p) (hlost : t.pcb = none) (horigin : t.origin = some p)
    (c : Connection) (hdead : c.alive = false) : Owned (setConnection (setCell m o t) p c) next := by
  have hheld := (h.pointed o p hpcb).2.2
  have hcell : ∀ o', ((setCell m o t).cells o').origin = (m.cells o').origin := by
    intro o'
    by_cases heq : o' = o
    · rw [heq, setCell_self, horigin, hheld]
    · rw [setCell_other m t heq]
  constructor
  · intro o' p' hp
    rw [setConnection_cells] at hp ⊢
    by_cases heq : o' = o
    · rw [heq, setCell_self, hlost] at hp
      cases hp
    · rw [setCell_other m t heq] at hp ⊢
      have hpointed := h.pointed o' p' hp
      have hne : p' ≠ p := by
        rintro rfl
        exact heq (h.single o' o p' hpointed.2.2 hheld)
      rw [setConnection_other _ c hne]
      exact hpointed
  · intro p' hp
    by_cases heq : p' = p
    · rw [heq, setConnection_self, hdead] at hp
      cases hp
    · rw [setConnection_other _ c heq] at hp
      obtain ⟨o', ho'⟩ := h.held p' hp
      have hne : o' ≠ o := by
        rintro rfl
        exact heq (Option.some.inj (ho'.symm.trans hpcb))
      exact ⟨o', by rw [setConnection_cells, setCell_other m t hne]; exact ho'⟩
  · intro o₁ o₂ p' h₁ h₂
    rw [setConnection_cells, hcell] at h₁ h₂
    exact h.single o₁ o₂ p' h₁ h₂
  · intro o' p' hp
    rw [setConnection_cells, hcell] at hp
    exact h.made o' p' hp
  · intro o' hnone
    by_cases heq : o' = o
    · rw [heq, setConnection_cells, setCell_self, horigin] at hnone
      cases hnone
    · rw [setConnection_cells, setCell_other m t heq] at hnone ⊢
      exact h.blank o' hnone
  · exact h.endedOnce
  · intro p' hp
    have hended := h.endedDead p' hp
    by_cases heq : p' = p
    · rw [heq, setConnection_self]
      exact ⟨hdead, heq ▸ hended.2⟩
    · rw [setConnection_other _ c heq]
      exact hended

/-- What a record and its connection are after a move. -/
structure Move (m m' : Memory) (source target : Owner) (p : ℕ) : Prop where
  filled : m'.cells target = m.cells source
  blank : m'.cells source = socketInit
  cells : ∀ o, o ≠ target → o ≠ source → m'.cells o = m.cells o
  connection : m'.connections p = { m.connections p with argument := some target }
  connections : ∀ p', p' ≠ p → m'.connections p' = m.connections p'
  ended : m'.ended = m.ended

theorem move_configure (m : Memory) {p : ℕ} {source target : Owner} (hne : target ≠ source)
    (hpcb : (m.cells source).pcb = some p) :
    Move m (configureCallbacks (setCell (setCell m target (m.cells source)) source socketInit)
      target) source target p := by
  have hmoved : (setCell (setCell m target (m.cells source)) source socketInit).cells target =
      m.cells source := by rw [setCell_other _ _ hne, setCell_self]
  have heq : configureCallbacks (setCell (setCell m target (m.cells source)) source socketInit)
      target = setConnection (setCell (setCell m target (m.cells source)) source socketInit) p
        { m.connections p with argument := some target } := by
    rw [configureCallbacks, hmoved, hpcb]
    rfl
  rw [heq]
  refine ⟨?_, ?_, ?_, ?_, ?_, rfl⟩
  · rw [setConnection_cells, hmoved]
  · simp
  · intro o ht hs
    rw [setConnection_cells, setCell_other _ _ hs, setCell_other _ _ ht]
  · rw [setConnection_self]
  · intro p' hp'
    rw [setConnection_other _ _ hp']
    rfl

section
variable {m m' : Memory} {next p : ℕ} {source target : Owner}

/-- The connection of a record is the moved one in its new place, and another one
everywhere else. -/
theorem Move.origin (hmove : Move m m' source target p) (h : Owned m next)
    (hheld : (m.cells source).origin = some p) {o : Owner} {p' : ℕ}
    (hp : (m'.cells o).origin = some p') :
    (o = target ∧ p' = p) ∨ (o ≠ target ∧ p' ≠ p ∧ (m.cells o).origin = some p') := by
  by_cases ht : o = target
  · rw [ht, hmove.filled, hheld] at hp
    exact Or.inl ⟨ht, (Option.some.inj hp).symm⟩
  · by_cases hs : o = source
    · rw [hs, hmove.blank] at hp
      cases hp
    · rw [hmove.cells o ht hs] at hp
      have hother : p' ≠ p := by
        rintro rfl
        exact hs (h.single o source p' hp hheld)
      exact Or.inr ⟨ht, hother, hp⟩

theorem Move.pointed (hmove : Move m m' source target p) (h : Owned m next)
    (hpcb : (m.cells source).pcb = some p) (o : Owner) (p' : ℕ) (hp : (m'.cells o).pcb = some p') :
    (m'.connections p').alive = true ∧ (m'.connections p').argument = some o ∧
      (m'.cells o).origin = some p' := by
  have hpointed := h.pointed source p hpcb
  by_cases ht : o = target
  · rw [ht, hmove.filled, hpcb] at hp
    have hsame : p = p' := Option.some.inj hp
    rw [ht, ← hsame, hmove.filled, hmove.connection]
    exact ⟨hpointed.1, rfl, hpointed.2.2⟩
  · by_cases hs : o = source
    · rw [hs, hmove.blank] at hp
      cases hp
    · rw [hmove.cells o ht hs] at hp ⊢
      have hp' := h.pointed o p' hp
      have hother : p' ≠ p := by
        rintro rfl
        exact hs (h.single o source p' hp'.2.2 hpointed.2.2)
      rw [hmove.connections p' hother]
      exact hp'

theorem Move.held (hmove : Move m m' source target p) (h : Owned m next)
    (hfree : m.cells target = socketInit) (hpcb : (m.cells source).pcb = some p) (p' : ℕ)
    (hp : (m'.connections p').alive = true) : ∃ o, (m'.cells o).pcb = some p' := by
  by_cases hsame : p' = p
  · exact ⟨target, by rw [hmove.filled, hsame]; exact hpcb⟩
  · rw [hmove.connections p' hsame] at hp
    obtain ⟨o, ho⟩ := h.held p' hp
    have ht : o ≠ target := by
      rintro rfl
      rw [hfree] at ho
      cases ho
    have hs : o ≠ source := by
      rintro rfl
      exact hsame (Option.some.inj (ho.symm.trans hpcb))
    exact ⟨o, by rw [hmove.cells o ht hs]; exact ho⟩

theorem Move.single (hmove : Move m m' source target p) (h : Owned m next)
    (hheld : (m.cells source).origin = some p) (o₁ o₂ : Owner) (p' : ℕ)
    (h₁ : (m'.cells o₁).origin = some p') (h₂ : (m'.cells o₂).origin = some p') : o₁ = o₂ := by
  rcases hmove.origin h hheld h₁ with ⟨hone, hp⟩ | ⟨-, hp, hold₁⟩
  · rcases hmove.origin h hheld h₂ with ⟨htwo, -⟩ | ⟨-, hp₂, -⟩
    · rw [hone, htwo]
    · exact absurd hp hp₂
  · rcases hmove.origin h hheld h₂ with ⟨-, hp₂⟩ | ⟨-, -, hold₂⟩
    · exact absurd hp₂ hp
    · exact h.single o₁ o₂ p' hold₁ hold₂

end

/-- A record that moves to a blank place takes its connection with it. -/
theorem owned_move {m : Memory} {next p : ℕ} (h : Owned m next) {source target : Owner}
    (hne : target ≠ source) (hfree : m.cells target = socketInit)
    (hpcb : (m.cells source).pcb = some p) :
    Owned (configureCallbacks (setCell (setCell m target (m.cells source)) source socketInit) target)
      next := by
  have hmove := move_configure m hne hpcb
  have hpointed := h.pointed source p hpcb
  refine ⟨hmove.pointed h hpcb, hmove.held h hfree hpcb, hmove.single h hpointed.2.2, ?_, ?_, ?_, ?_⟩
  · intro o p' hp
    rcases hmove.origin h hpointed.2.2 hp with ⟨-, hsame⟩ | ⟨-, -, hp⟩
    · rw [hsame]
      exact h.made source p hpointed.2.2
    · exact h.made o p' hp
  · intro o hnone
    by_cases ht : o = target
    · rw [ht, hmove.filled, hpointed.2.2] at hnone
      cases hnone
    · by_cases hs : o = source
      · rw [hs, hmove.blank]
      · rw [hmove.cells o ht hs] at hnone ⊢
        exact h.blank o hnone
  · rw [hmove.ended]
    exact h.endedOnce
  · intro p' hp
    rw [hmove.ended] at hp
    have hdead := h.endedDead p' hp
    have hother : p' ≠ p := by
      rintro rfl
      simp [hdead.1] at hpointed
    rw [hmove.connections p' hother]
    exact hdead

end JaszczurHal.LwipTcp
