import JaszczurHal.GamepadReport
import JaszczurHal.RingQueue

/-!
# Snapshots of the gamepad and their losses

Link events and reports change the state of the parser, and each change is
queued as a snapshot. The application takes snapshots one by one. A full queue
is emptied and the loss is reported; a descriptor that arrives with a new link
sets the whole parser up anew.
-/

set_option autoImplicit false

namespace JaszczurHal.GamepadQueue
open HalStatus CheckedArith GamepadParser GamepadReport RingQueue

/-- The parser of an open gamepad, the snapshots that were produced and the
answers that the application got. -/
structure Session where
  parser : Parser
  parserConnected : Bool
  produced : List Snapshot
  answers : List (Status × Option Snapshot)
  deriving DecidableEq

/-- After `hal_gamepad_open`, which sets the parser up for a new handle. -/
def opened : Session := ⟨init, false, [], []⟩

def linkUp (s : Session) (descriptor : List UInt8) : Checked Session :=
  if s.parserConnected then pure s
  else do
    let (status, p) ← configure descriptor
    if status = .ok then
      let (status, p) ← connectionOpened { p with current := { p.current with
        generation := s.parser.current.generation } }
      pure { s with
        parser := p
        parserConnected := status = .ok
        produced := if status = .ok then s.produced ++ [p.current] else s.produced }
    else pure { s with parser := p, parserConnected := false }

def linkDown (s : Session) : Checked Session :=
  if s.parserConnected then do
    let (status, p) ← connectionClosed s.parser
    pure { s with
      parser := p
      parserConnected := false
      produced := if status = .ok then s.produced ++ [p.current] else s.produced }
  else pure s

def report (s : Session) (data : List UInt8) : Checked Session := do
  let (_, p) ← parseInput s.parser data
  pure { s with
    parser := p
    produced := if p.current = s.parser.current then s.produced else s.produced ++ [p.current] }

def snapshotNext (s : Session) : Checked Session := do
  let (status, snapshot, p) ← next s.parser
  pure { s with parser := p, answers := s.answers ++ [(status, snapshot)] }

inductive Action
  | reopen
  | linkUp (descriptor : List UInt8)
  | linkDown
  | report (data : List UInt8)
  | next

def step (s : Session) : Action → Checked Session
  | .reopen => pure opened
  | .linkUp descriptor => linkUp s descriptor
  | .linkDown => linkDown s
  | .report data => report s data
  | .next => snapshotNext s

def run (s : Session) : List Action → Checked Session
  | [] => pure s
  | action :: actions => step s action >>= fun t => run t actions

/-- The answers up to snapshot `n`: in the order of production, each at most
once, and a gap only behind an overflow that was acknowledged. -/
inductive Explained (produced : List Snapshot) : ℕ → Bool → List (Status × Option Snapshot) → Prop
  | nil : Explained produced 0 false []
  | overflow {n : ℕ} {acknowledged : Bool} {answers : List (Status × Option Snapshot)} :
    Explained produced n acknowledged answers →
      Explained produced n true (answers ++ [(.eoverflow, none)])
  | snapshot {n i : ℕ} {acknowledged : Bool} {answers : List (Status × Option Snapshot)}
    {snapshot : Snapshot} : Explained produced n acknowledged answers → n ≤ i →
      (i ≠ n → acknowledged = true) → produced[i]? = some snapshot →
      Explained produced (i+1) false (answers ++ [(.ok, some snapshot)])
  | other {n : ℕ} {acknowledged : Bool} {answers : List (Status × Option Snapshot)}
    {status : Status} : Explained produced n acknowledged answers → status ≠ .ok →
      status ≠ .eoverflow → Explained produced n acknowledged (answers ++ [(status, none)])

structure Lawful (s : Session) : Prop where
  ordered : ∃ n acknowledged, Explained s.produced n acknowledged s.answers
  drained : next s.parser = .ok (.eagain, none, s.parser) →
    (s.answers.filterMap Prod.snd).getLast? = some s.parser.current

def Clean (s : Session) : Action → Prop
  | .linkUp _ => s.parserConnected = false →
    s.parser.queueCount = 0 ∧ s.parser.overflowPending = false
  | _ => True

def AllClean (s : Session) : List Action → Prop
  | [] => True
  | action :: actions => Clean s action ∧ ∀ t, step s action = .ok t → AllClean t actions

def slots (queue : Vector Snapshot 16) (i : ℕ) : Snapshot := queue[i]?.getD emptySnapshot

def queued (p : Parser) : List Snapshot := contents 16 (slots p.queue) p.queueHead p.queueCount

theorem slots_set (queue : Vector Snapshot 16) {i : ℕ} (h : i < 16) (a : Snapshot) :
    slots (queue.set i a h) = Function.update (slots queue) i a := by
  funext j
  by_cases hj : j = i
  · rw [hj, Function.update_self]
    simp [slots]
  · rw [Function.update_of_ne hj]
    simp [slots, Ne.symm hj]

structure Enqueued (p q : Parser) (a : Snapshot) : Prop where
  configured : q.configured = p.configured
  current : q.current = a
  room : p.queueCount < 16 → queued q = queued p ++ [a] ∧ q.queueCount = p.queueCount+1 ∧
    q.overflowPending = p.overflowPending
  full : p.queueCount = 16 → queued q = [a] ∧ q.queueCount = 1 ∧ q.overflowPending = true

theorem storeSnapshot_of {p : Parser} (h : p.queueCount < 16) : ∃ q, storeSnapshot p = .ok q ∧
    q.configured = p.configured ∧ q.current = p.current ∧
    queued q = queued p ++ [p.current] ∧ q.queueCount = p.queueCount+1 ∧
    q.overflowPending = p.overflowPending := by
  have htail : (p.queueHead+p.queueCount)%queueCapacity < 16 := Nat.mod_lt _ (by decide)
  have hstore : storeAt p.queue ((p.queueHead+p.queueCount)%queueCapacity) p.current =
      .ok (p.queue.set _ p.current htail) := dif_pos htail
  have hplace : narrow 8 ((p.queueHead+p.queueCount)%queueCapacity) =
      .ok ((p.queueHead+p.queueCount)%queueCapacity) := if_pos (by omega)
  have hcount : narrow 8 (p.queueCount+1) = .ok (p.queueCount+1) := if_pos (by omega)
  rw [storeSnapshot, hplace, ok_bind, hstore, ok_bind, hcount, ok_bind]
  refine ⟨_, rfl, rfl, rfl, ?_, rfl, rfl⟩
  rw [queued, queued]
  dsimp only
  rw [slots_set]
  exact contents_push _ _ h _

theorem enqueueSnapshot_of {p : Parser} (h : p.queueCount ≤ 16) :
    ∃ q, enqueueSnapshot p = .ok q ∧ Enqueued p q p.current := by
  have hcapacity : queueCapacity = 16 := rfl
  rw [enqueueSnapshot, makeRoom, hcapacity]
  by_cases hfull : p.queueCount = 16
  · rw [if_pos hfull]
    obtain ⟨q, hq, hconfigured, hcurrent, hqueued, hcount, hoverflow⟩ := storeSnapshot_of
      (p := { p with
        queueHead := 0
        queueCount := 0
        overflowPending := true
        diagnostics := { p.diagnostics with
          droppedSnapshots := p.diagnostics.droppedSnapshots+UInt32.ofNat p.queueCount
          lastStatus := .eoverflow
          lastRejectReason := .queueOverflow } }) (by simp)
    refine ⟨q, hq, hconfigured, hcurrent, fun hroom => ?_, fun _ => ⟨?_, hcount, hoverflow⟩⟩
    · omega
    · rw [hqueued]
      rfl
  · rw [if_neg hfull]
    obtain ⟨q, hq, hconfigured, hcurrent, hqueued, hcount, hoverflow⟩ :=
      storeSnapshot_of (p := p) (by omega)
    exact ⟨q, hq, hconfigured, hcurrent, fun _ => ⟨hqueued, hcount, hoverflow⟩,
      fun hcap => absurd hcap hfull⟩

/-- Whatever else changed, the state and its queue are as they were. -/
structure Kept (p q : Parser) : Prop where
  configured : q.configured = p.configured
  current : q.current = p.current
  queue : q.queue = p.queue
  queueHead : q.queueHead = p.queueHead
  queueCount : q.queueCount = p.queueCount
  overflowPending : q.overflowPending = p.overflowPending

theorem Kept.refl (p : Parser) : Kept p p := ⟨rfl, rfl, rfl, rfl, rfl, rfl⟩

theorem Kept.trans {p q r : Parser} (h : Kept p q) (h' : Kept q r) : Kept p r where
  configured := h'.configured.trans h.configured
  current := h'.current.trans h.current
  queue := h'.queue.trans h.queue
  queueHead := h'.queueHead.trans h.queueHead
  queueCount := h'.queueCount.trans h.queueCount
  overflowPending := h'.overflowPending.trans h.overflowPending

theorem Kept.queued {p q : Parser} (h : Kept p q) : queued q = queued p := by
  rw [GamepadQueue.queued, GamepadQueue.queued, h.queue, h.queueHead, h.queueCount]

theorem Enqueued.before {p p' q : Parser} {a : Snapshot} (h : Enqueued p' q a) (hkept : Kept p p') :
    Enqueued p q a where
  configured := h.configured.trans hkept.configured
  current := h.current
  room := by
    rw [← hkept.queueCount, ← hkept.queued, ← hkept.overflowPending]
    exact h.room
  full := by
    rw [← hkept.queueCount]
    exact h.full

def Ensures {α : Type} (m : Checked α) (P : α → Prop) : Prop := ∀ a, m = .ok a → P a

theorem ensures_pure {α : Type} {P : α → Prop} {a : α} (h : P a) : Ensures (pure a) P := by
  intro b hb
  obtain rfl := Except.ok.inj hb
  exact h

theorem ensures_bind {α β : Type} {P : α → Prop} {R : β → Prop} {m : Checked α} {f : α → Checked β}
    (hm : Ensures m P) (hf : ∀ a, P a → Ensures (f a) R) : Ensures (m >>= f) R := by
  intro b hb
  cases hresult : m with
  | error fault =>
    rw [hresult] at hb
    cases hb
  | ok a =>
    rw [hresult] at hb
    exact hf a (hm a hresult) b hb

theorem ensures_any {α : Type} (m : Checked α) : Ensures m fun _ => True := fun _ _ => trivial

theorem ensures_ite {α : Type} {P : α → Prop} {c : Prop} [Decidable c] {m n : Checked α}
    (hm : c → Ensures m P) (hn : ¬c → Ensures n P) : Ensures (if c then m else n) P := by
  split
  · rename_i h
    exact hm h
  · rename_i h
    exact hn h

def Reported (p q : Parser) : Prop := Kept p q ∨ q.current ≠ p.current ∧ Enqueued p q q.current

theorem rejectReport_kept {p q : Parser} (h : Kept p q) (status : Status) (reason : RejectReason) :
    Reported p (rejectReport q status reason).2 :=
  Or.inl ⟨h.configured, h.current, h.queue, h.queueHead, h.queueCount, h.overflowPending⟩

theorem acceptReport_ensures {p q : Parser} (h : Kept p q) (hcount : p.queueCount ≤ 16)
    (next : Snapshot) : Ensures (acceptReport q next) fun r => Reported p r.2 := by
  rw [acceptReport]
  dsimp only
  apply ensures_ite
  · intro _
    apply ensures_pure
    exact Or.inl ⟨h.configured, h.current, h.queue, h.queueHead, h.queueCount, h.overflowPending⟩
  · intro hchanged
    rw [← h.queueCount] at hcount
    obtain ⟨t, ht, henqueued⟩ := enqueueSnapshot_of (p := { q with
      current := next
      diagnostics := { q.diagnostics with
        reportsAccepted := q.diagnostics.reportsAccepted+1
        lastStatus := .ok
        lastRejectReason := .none
        stateChanges := q.diagnostics.stateChanges+1 } }) hcount
    rw [ht]
    apply ensures_pure
    have hcurrent : t.current = next := henqueued.current
    refine Or.inr ⟨?_, ?_⟩
    · dsimp only
      rw [hcurrent, ← h.current]
      exact hchanged
    · have hq : Enqueued q t t.current :=
        ⟨henqueued.configured, rfl, hcurrent ▸ henqueued.room, hcurrent ▸ henqueued.full⟩
      exact hq.before h

theorem parseInput_ensures {p : Parser} (hcount : p.queueCount ≤ 16) (data : List UInt8) :
    Ensures (parseInput p data) fun r => Reported p r.2 := by
  have hkept : Kept p (countReport p data.length) := ⟨rfl, rfl, rfl, rfl, rfl, rfl⟩
  rw [parseInput]
  apply ensures_ite
  · intro _
    exact ensures_pure (rejectReport_kept (.refl p) _ _)
  · intro _
    dsimp only
    apply ensures_ite
    · intro _
      exact ensures_pure (rejectReport_kept hkept _ _)
    · intro _
      apply ensures_ite
      · intro _
        exact ensures_pure (rejectReport_kept hkept _ _)
      · intro _
        apply ensures_ite
        · intro _
          exact ensures_pure (rejectReport_kept hkept _ _)
        · intro _
          refine ensures_bind (ensures_any _) fun reportId _ => ?_
          split
          · apply ensures_pure
            apply rejectReport_kept
            exact hkept.trans ⟨rfl, rfl, rfl, rfl, rfl, rfl⟩
          · apply ensures_ite
            · intro _
              apply ensures_pure
              apply rejectReport_kept
              exact hkept.trans ⟨rfl, rfl, rfl, rfl, rfl, rfl⟩
            · intro _
              rw [parseFields]
              refine ensures_bind (ensures_any _) fun r _ => ?_
              apply ensures_ite
              · intro _
                exact acceptReport_ensures hkept hcount _
              · intro _
                exact ensures_pure (rejectReport_kept hkept _ _)

theorem appendField_kept (p : Parser) (item : UsageField) :
    Ensures (appendField p item) fun r => Kept p r.2 := by
  rw [appendField]
  split
  · exact ensures_pure ⟨rfl, rfl, rfl, rfl, rfl, rfl⟩
  · apply ensures_ite
    · intro _
      exact ensures_pure (.refl p)
    · intro _
      apply ensures_ite
      · intro _
        exact ensures_pure (.refl p)
      · intro _
        apply ensures_ite
        · intro _
          exact ensures_pure (.refl p)
        · intro _
          refine ensures_bind (ensures_any _) fun fields _ => ?_
          exact ensures_pure ⟨rfl, rfl, rfl, rfl, rfl, rfl⟩

theorem collectFrom_kept (g : Globals) (l : Locals) (bitPosition : ℕ) (mainFlags : UInt8)
    (left index : ℕ) (p : Parser) :
    Ensures (collectFrom g l bitPosition mainFlags left index p) fun r => Kept p r.2 := by
  induction left generalizing index p with
  | zero => exact ensures_pure (.refl p)
  | succ left ih =>
    rw [collectFrom]
    refine ensures_bind (ensures_any _) fun usage _ => ?_
    cases usage with
    | none =>
      intro r hr
      have hrest := ih (index+1) (ignoreUsages p 1) r hr
      have hignored : Kept p (ignoreUsages p 1) := ⟨rfl, rfl, rfl, rfl, rfl, rfl⟩
      exact hignored.trans hrest
    | some usage =>
      refine ensures_bind (ensures_any _) fun offset _ => ?_
      refine ensures_bind (ensures_any _) fun position _ => ?_
      refine ensures_bind (appendField_kept p _) fun r hkept => ?_
      apply ensures_ite
      · intro _ t ht
        exact hkept.trans (ih _ _ t ht)
      · intro _
        exact ensures_pure hkept

theorem collectInputFields_kept (p : Parser) (g : Globals) (l : Locals) (bitPosition : ℕ)
    (mainFlags : UInt8) :
    Ensures (collectInputFields p g l bitPosition mainFlags) fun r => Kept p r.2 := by
  rw [collectInputFields]
  apply ensures_ite
  · intro _
    exact ensures_pure ⟨rfl, rfl, rfl, rfl, rfl, rfl⟩
  · intro _
    exact collectFrom_kept g l bitPosition mainFlags _ _ p

theorem getReportLayout_kept (p : Parser) (reportId : UInt16) :
    Ensures (getReportLayout p reportId) fun r => ∀ layout q, r = some (layout, q) → Kept p q := by
  rw [getReportLayout]
  split
  · apply ensures_pure
    rintro _ _ ⟨⟩
    exact .refl p
  · apply ensures_ite
    · intro _
      apply ensures_pure
      rintro _ _ ⟨⟩
    · intro _
      refine ensures_bind (ensures_any _) fun layouts _ => ?_
      apply ensures_pure
      rintro _ _ ⟨⟩
      exact ⟨rfl, rfl, rfl, rfl, rfl, rfl⟩

theorem inputFields_kept (item : Item) (s : Scan) (bitPosition : ℕ) (inside : Bool) (p : Parser) :
    Ensures (inputFields item s bitPosition inside p) fun r => Kept p r.2 := by
  rw [inputFields]
  apply ensures_ite
  · intro _
    exact collectInputFields_kept p _ _ _ _
  · intro _
    exact ensures_pure (.refl p)

theorem inputItem_kept (item : Item) (s : Scan) :
    Ensures (inputItem item s) fun r => Kept s.parser r.2.parser := by
  rw [inputItem]
  apply ensures_ite
  · intro _
    exact ensures_pure (.refl _)
  · intro _
    dsimp only
    apply ensures_ite
    · intro _
      exact ensures_pure (.refl _)
    · intro _
      refine ensures_bind (getReportLayout_kept _ _) fun found hfound => ?_
      split
      · exact ensures_pure (.refl _)
      · rename_i layout parser
        have hkept := hfound layout parser rfl
        apply ensures_ite
        · intro _
          exact ensures_pure hkept
        · intro _
          refine ensures_bind (ensures_any _) fun inside _ => ?_
          refine ensures_bind (inputFields_kept _ _ _ _ _) fun r hr => ?_
          refine ensures_bind (ensures_any _) fun bitLength _ => ?_
          refine ensures_bind (ensures_any _) fun requiredBytes _ => ?_
          apply ensures_pure
          exact (hkept.trans hr).trans ⟨rfl, rfl, rfl, rfl, rfl, rfl⟩

theorem globalItem_kept (item : Item) (s : Scan) :
    Ensures (globalItem item s) fun r => Kept s.parser r.2.parser := by
  rw [globalItem]
  split
  · apply ensures_ite
    · intro _
      exact ensures_pure (.refl _)
    · intro _
      exact ensures_pure (.refl _)
  · exact ensures_pure (.refl _)
  · exact ensures_pure (.refl _)
  · apply ensures_ite
    · intro _
      exact ensures_pure (.refl _)
    · intro _
      exact ensures_pure (.refl _)
  · apply ensures_ite
    · intro _
      exact ensures_pure (.refl _)
    · intro _
      exact ensures_pure ⟨rfl, rfl, rfl, rfl, rfl, rfl⟩
  · apply ensures_ite
    · intro _
      exact ensures_pure (.refl _)
    · intro _
      exact ensures_pure (.refl _)
  · apply ensures_ite
    · intro _
      exact ensures_pure (.refl _)
    · intro _
      exact ensures_bind (ensures_any _) fun stack _ => ensures_pure (.refl _)
  · apply ensures_ite
    · intro _
      exact ensures_pure (.refl _)
    · intro _
      exact ensures_bind (ensures_any _) fun g _ => ensures_pure (.refl _)
  · exact ensures_pure (.refl _)
  · exact ensures_pure (.refl _)
  · exact ensures_pure (.refl _)
  · exact ensures_pure (.refl _)
  · exact ensures_pure (.refl _)

theorem localItem_kept (item : Item) (s : Scan) :
    Ensures (localItem item s) fun r => Kept s.parser r.2.parser := by
  rw [localItem]
  dsimp only
  split
  · apply ensures_ite
    · intro _
      exact ensures_pure (.refl _)
    · intro _
      exact ensures_bind (ensures_any _) fun usages _ => ensures_pure (.refl _)
  · exact ensures_pure (.refl _)
  · exact ensures_pure (.refl _)
  · exact ensures_pure (.refl _)

theorem collectionItem_kept (item : Item) (s : Scan) :
    Ensures (collectionItem item s) fun r => Kept s.parser r.2.parser := by
  rw [collectionItem]
  apply ensures_ite
  · intro _
    exact ensures_pure (.refl _)
  · intro _
    refine ensures_bind (ensures_any _) fun usage _ => ?_
    refine ensures_bind (ensures_any _) fun parentAccepted _ => ?_
    exact ensures_bind (ensures_any _) fun accepted _ => ensures_pure (.refl _)

theorem mainItem_kept (item : Item) (s : Scan) :
    Ensures (mainItem item s) fun r => Kept s.parser r.2.parser := by
  rw [mainItem]
  split
  · exact collectionItem_kept item s
  · apply ensures_ite
    · intro _
      exact ensures_pure (.refl _)
    · intro _
      exact ensures_pure (.refl _)
  · exact inputItem_kept item s
  · exact ensures_pure (.refl _)

theorem handleItem_kept (item : Item) (s : Scan) :
    Ensures (handleItem item s) fun r => Kept s.parser r.2.parser := by
  rw [handleItem]
  split
  · exact globalItem_kept item s
  · exact localItem_kept item s
  · exact mainItem_kept item s
  · exact ensures_pure (.refl _)

theorem closeDescriptor_kept (s : Scan) : Kept s.parser (closeDescriptor s).2.parser := by
  rw [closeDescriptor]
  split
  · exact .refl _
  · split
    · exact .refl _
    · exact .refl _

theorem parseItems_kept (descriptor : List UInt8) (fuel : ℕ) (s : Scan) :
    Ensures (parseItems descriptor fuel s) fun r => Kept s.parser r.2.parser := by
  induction fuel generalizing s with
  | zero =>
    intro r hr
    cases hr
  | succ fuel ih =>
    rw [parseItems]
    apply ensures_ite
    · intro _
      refine ensures_bind (ensures_any _) fun found _ => ?_
      split
      · exact ensures_pure (.refl _)
      · rename_i item position
        refine ensures_bind (handleItem_kept item _) fun r hr => ?_
        apply ensures_ite
        · intro _ t ht
          exact hr.trans (ih _ t ht)
        · intro _
          exact ensures_pure hr
    · intro _
      exact ensures_pure (closeDescriptor_kept s)

structure Fresh (status : Status) (p : Parser) : Prop where
  configured : p.configured = true ↔ status = .ok
  current : p.current = emptySnapshot
  queueHead : p.queueHead = 0
  queueCount : p.queueCount = 0
  overflowPending : p.overflowPending = false

theorem rejectDescriptor_fresh {p : Parser} (h : Kept init p) {status : Status}
    (hstatus : status ≠ .ok) (reason : RejectReason) :
    Fresh (rejectDescriptor p status reason).1 (rejectDescriptor p status reason).2 := by
  have hconfigured : (rejectDescriptor p status reason).2.configured = false := rfl
  refine ⟨?_, h.current, h.queueHead, h.queueCount, h.overflowPending⟩
  rw [hconfigured]
  simp [rejectDescriptor, hstatus]

theorem configure_fresh (descriptor : List UInt8) :
    Ensures (configure descriptor) fun r => Fresh r.1 r.2 := by
  rw [configure]
  apply ensures_ite
  · intro _
    exact ensures_pure (rejectDescriptor_fresh (.refl _) (by simp) _)
  · intro _
    dsimp only
    apply ensures_ite
    · intro _
      apply ensures_pure
      apply rejectDescriptor_fresh
      · exact ⟨rfl, rfl, rfl, rfl, rfl, rfl⟩
      · simp
    · intro _
      refine ensures_bind (parseItems_kept _ _ _) fun r hr => ?_
      have hkept : Kept init r.2.parser := ⟨hr.configured, hr.current, hr.queue, hr.queueHead,
        hr.queueCount, hr.overflowPending⟩
      apply ensures_ite
      · intro hstatus
        exact ensures_pure (rejectDescriptor_fresh hkept hstatus _)
      · intro hstatus
        apply ensures_pure
        exact ⟨by simp, hkept.current, hkept.queueHead, hkept.queueCount, hkept.overflowPending⟩

/-- Snapshots up to `n` are accounted for; the queue holds the last ones that
were produced. -/
structure Accounted (s : Session) (n : ℕ) (acknowledged : Bool) : Prop where
  explained : Explained s.produced n acknowledged s.answers
  behind : n+s.parser.queueCount ≤ s.produced.length
  exact : s.parser.overflowPending = false → acknowledged = false →
    n+s.parser.queueCount = s.produced.length
  pending : s.parser.overflowPending = true ∨ acknowledged = true → 0 < s.parser.queueCount

structure Balanced (s : Session) : Prop where
  count : s.parser.queueCount ≤ 16
  queue : queued s.parser = s.produced.drop (s.produced.length-s.parser.queueCount)
  accounted : ∃ n acknowledged, Accounted s n acknowledged

structure Holds (s : Session) : Prop extends Balanced s where
  current : s.parser.configured = true → s.produced.getLast? = some s.parser.current

theorem explained_append {produced : List Snapshot} {n : ℕ} {acknowledged : Bool}
    {answers : List (Status × Option Snapshot)} (h : Explained produced n acknowledged answers)
    (more : List Snapshot) : Explained (produced ++ more) n acknowledged answers := by
  induction h with
  | nil => exact .nil
  | overflow _ ih => exact .overflow ih
  | snapshot _ hle hgap hget ih =>
    apply Explained.snapshot ih hle hgap
    rw [List.getElem?_append_left (List.getElem?_eq_some_iff.mp hget).1]
    exact hget
  | other _ hok hoverflow ih => exact .other ih hok hoverflow

/-- The last snapshot that was returned is the last one accounted for. -/
theorem explained_last {produced : List Snapshot} {n : ℕ} {acknowledged : Bool}
    {answers : List (Status × Option Snapshot)} (h : Explained produced n acknowledged answers) :
    (answers.filterMap Prod.snd).getLast? = if n = 0 then none else produced[n-1]? := by
  induction h with
  | nil => rfl
  | overflow _ ih => simpa using ih
  | snapshot _ _ _ hget ih => simp [hget]
  | other _ _ _ ih => simpa using ih

theorem loadAt_ensures (queue : Vector Snapshot 16) (i : ℕ) :
    Ensures (loadAt queue i) fun a => i < 16 ∧ slots queue i = a := by
  intro a ha
  rw [loadAt] at ha
  split at ha
  · rename_i h
    obtain rfl := Except.ok.inj ha
    refine ⟨h, ?_⟩
    simp [slots, h]
    rfl
  · cases ha

theorem narrow_ensures (bits n : ℕ) : Ensures (narrow bits n) fun m => m = n := by
  intro m hm
  rw [narrow] at hm
  split at hm
  · exact (Except.ok.inj hm).symm
  · cases hm

/-- The part of `next` that takes a snapshot out of the queue. -/
theorem popSnapshot_ensures (p : Parser) : Ensures (do
    let snapshot ← loadAt p.queue p.queueHead
    let queueHead ← narrow 8 ((p.queueHead+1)%queueCapacity)
    pure (Status.ok, some snapshot, ({ p with
      queueHead := queueHead, queueCount := p.queueCount-1 } : Parser)))
    fun r => p.queueHead < 16 ∧ r = (.ok, some (slots p.queue p.queueHead), { p with
      queueHead := (p.queueHead+1)%16, queueCount := p.queueCount-1 }) := by
  refine ensures_bind (loadAt_ensures _ _) fun snapshot hload => ?_
  refine ensures_bind (narrow_ensures _ _) fun queueHead hhead => ?_
  apply ensures_pure
  rw [hhead, hload.2]
  exact ⟨hload.1, rfl⟩

/-- Nothing is left to read exactly if the answer is `HAL_EAGAIN`. -/
theorem next_empty {p : Parser} (h : next p = .ok (.eagain, none, p)) :
    p.configured = true ∧ p.overflowPending = false ∧ p.queueCount = 0 := by
  rw [next] at h
  cases hconfigured : p.configured with
  | false =>
    rw [if_pos hconfigured] at h
    cases h
  | true =>
    rw [if_neg (by simp [hconfigured])] at h
    cases hoverflow : p.overflowPending with
    | true =>
      rw [if_pos hoverflow] at h
      cases h
    | false =>
      rw [if_neg (by simp [hoverflow])] at h
      refine ⟨rfl, rfl, ?_⟩
      by_contra hcount
      rw [if_neg hcount] at h
      obtain ⟨_, hpopped⟩ := popSnapshot_ensures p _ h
      cases hpopped

theorem Holds.lawful {s : Session} (h : Holds s) : Lawful s := by
  obtain ⟨n, acknowledged, haccounted⟩ := h.accounted
  constructor
  · exact ⟨n, acknowledged, haccounted.explained⟩
  · intro hnext
    obtain ⟨hconfigured, hoverflow, hempty⟩ := next_empty hnext
    have hnone : acknowledged = false := by
      cases hack : acknowledged with
      | false => rfl
      | true =>
        have hpending := haccounted.pending (Or.inr hack)
        omega
    have hexact := haccounted.exact hoverflow hnone
    rw [hempty, Nat.add_zero] at hexact
    have hlast := h.current hconfigured
    rw [explained_last haccounted.explained, hexact]
    rw [List.getLast?_eq_getElem?] at hlast
    rw [hlast]
    apply if_neg
    intro hnil
    rw [List.length_eq_zero_iff.mp hnil] at hlast
    cases hlast

theorem opened_holds : Holds opened where
  count := by decide
  queue := rfl
  current := by simp [opened, init]
  accounted := ⟨0, false, .nil, by decide, fun _ _ => rfl, by simp [opened, init]⟩

theorem Balanced.enqueued {s : Session} (h : Balanced s) {q : Parser} {a : Snapshot}
    (hq : Enqueued s.parser q a) (connected : Bool) :
    Holds ⟨q, connected, s.produced ++ [a], s.answers⟩ := by
  obtain ⟨n, acknowledged, haccounted⟩ := h.accounted
  have hbehind := haccounted.behind
  have hcount := h.count
  by_cases hfull : s.parser.queueCount = 16
  · obtain ⟨hqueued, hone, hoverflow⟩ := hq.full hfull
    refine ⟨⟨by dsimp only; omega, ?_, n, acknowledged, ?_⟩, fun _ => by simp [hq.current]⟩
    · dsimp only
      rw [hqueued, hone]
      simp
    · refine ⟨explained_append haccounted.explained _, ?_, ?_, ?_⟩
      · dsimp only
        rw [hone, List.length_append, List.length_singleton]
        omega
      · dsimp only
        rw [hoverflow]
        simp
      · dsimp only
        omega
  · obtain ⟨hqueued, hmore, hoverflow⟩ := hq.room (by omega)
    refine ⟨⟨by dsimp only; omega, ?_, n, acknowledged, ?_⟩, fun _ => by simp [hq.current]⟩
    · dsimp only
      rw [hqueued, hmore, h.queue, List.length_append, List.length_singleton,
        Nat.add_sub_add_right, List.drop_append_of_le_length (by omega)]
    · refine ⟨explained_append haccounted.explained _, ?_, ?_, ?_⟩
      · dsimp only
        rw [hmore, List.length_append, List.length_singleton]
        omega
      · dsimp only
        rw [hoverflow, hmore, List.length_append, List.length_singleton]
        intro hclear hnot
        have hexact := haccounted.exact hclear hnot
        omega
      · dsimp only
        omega

theorem Holds.kept {s : Session} (h : Holds s) {q : Parser} (hq : Kept s.parser q)
    (connected : Bool) : Holds ⟨q, connected, s.produced, s.answers⟩ := by
  obtain ⟨n, acknowledged, haccounted⟩ := h.accounted
  refine ⟨⟨?_, ?_, n, acknowledged, haccounted.explained, ?_, ?_, ?_⟩, ?_⟩
  · exact hq.queueCount.trans_le h.count
  · dsimp only
    rw [hq.queued, hq.queueCount]
    exact h.queue
  · dsimp only
    rw [hq.queueCount]
    exact haccounted.behind
  · dsimp only
    rw [hq.queueCount, hq.overflowPending]
    exact haccounted.exact
  · dsimp only
    rw [hq.queueCount, hq.overflowPending]
    exact haccounted.pending
  · dsimp only
    rw [hq.configured, hq.current]
    exact h.current

theorem report_holds {s : Session} (h : Holds s) (data : List UInt8) :
    Ensures (report s data) Holds := by
  rw [report]
  refine ensures_bind (parseInput_ensures h.count data) fun r hr => ?_
  apply ensures_pure
  rcases hr with hkept | ⟨hchanged, henqueued⟩
  · have hsame := h.kept hkept s.parserConnected
    simpa [hkept.current] using hsame
  · have hmore := h.enqueued henqueued s.parserConnected
    simpa [hchanged] using hmore

theorem connectionClosed_ensures {p : Parser} (hcount : p.queueCount ≤ 16) :
    Ensures (connectionClosed p) fun r =>
      if r.1 = .ok then Enqueued p r.2 r.2.current else Kept p r.2 := by
  rw [connectionClosed]
  apply ensures_ite
  · intro _
    exact ensures_pure (.refl p)
  · intro _
    apply ensures_ite
    · intro _
      exact ensures_pure (.refl p)
    · intro _
      obtain ⟨q, hq, henqueued⟩ := enqueueSnapshot_of (p := accepted { p with
        current := { cleared p.current with connected := false } }) hcount
      rw [hq]
      apply ensures_pure
      have hcurrent := henqueued.current
      exact ⟨henqueued.configured, rfl, hcurrent ▸ henqueued.room, hcurrent ▸ henqueued.full⟩

theorem connectionOpened_of {p : Parser} (hconfigured : p.configured = true)
    (hconnected : p.current.connected = false) (hcount : p.queueCount ≤ 16) :
    ∃ q, connectionOpened p = .ok (.ok, q) ∧ Enqueued p q q.current := by
  obtain ⟨q, hq, henqueued⟩ := enqueueSnapshot_of (p := accepted { p with
    current := { cleared p.current with
      generation := p.current.generation+1, connected := true } }) hcount
  have hcurrent := henqueued.current
  rw [connectionOpened, if_neg (by simp [hconfigured]), if_neg (by simp [hconnected]), hq]
  exact ⟨q, rfl, henqueued.configured, rfl, hcurrent ▸ henqueued.room,
    hcurrent ▸ henqueued.full⟩

theorem linkDown_holds {s : Session} (h : Holds s) : Ensures (linkDown s) Holds := by
  rw [linkDown]
  apply ensures_ite
  · intro _
    refine ensures_bind (connectionClosed_ensures h.count) fun r hr => ?_
    apply ensures_pure
    by_cases hstatus : r.1 = .ok
    · rw [if_pos hstatus] at hr ⊢
      exact h.enqueued hr false
    · rw [if_neg hstatus] at hr ⊢
      exact h.kept hr false
  · intro _
    exact ensures_pure h

/-- Setting up the parser loses nothing if nothing is left to read. -/
theorem Balanced.reset {s : Session} (h : Balanced s) (hempty : s.parser.queueCount = 0)
    (hclear : s.parser.overflowPending = false) {p : Parser} (hcount : p.queueCount = 0)
    (hoverflow : p.overflowPending = false) (connected : Bool) :
    Balanced ⟨p, connected, s.produced, s.answers⟩ := by
  obtain ⟨n, acknowledged, haccounted⟩ := h.accounted
  have hbehind := haccounted.behind
  have hexact := haccounted.exact hclear
  have hpending := haccounted.pending
  rw [hempty] at hbehind hexact hpending
  refine ⟨?_, ?_, n, acknowledged, haccounted.explained, ?_, ?_, ?_⟩
  · simp [hcount]
  · simp [queued, hcount]
  · simpa [hcount] using hbehind
  · simpa [hcount] using fun _ => hexact
  · intro h'
    apply absurd (hpending _) (Nat.lt_irrefl 0)
    rw [hoverflow] at h'
    exact Or.inr (by simpa using h')

theorem linkUp_holds {s : Session} (h : Holds s) {descriptor : List UInt8}
    (hclean : Clean s (.linkUp descriptor)) : Ensures (linkUp s descriptor) Holds := by
  rw [linkUp]
  apply ensures_ite
  · intro _
    exact ensures_pure h
  · intro hdown
    obtain ⟨hempty, hclear⟩ := hclean (by simpa using hdown)
    refine ensures_bind (configure_fresh descriptor) fun r hr => ?_
    apply ensures_ite
    · intro hstatus
      have hbalanced := h.toBalanced.reset hempty hclear (p := { r.2 with
        current := { r.2.current with generation := s.parser.current.generation } })
        hr.queueCount hr.overflowPending true
      obtain ⟨q, hq, henqueued⟩ := connectionOpened_of (p := { r.2 with
        current := { r.2.current with generation := s.parser.current.generation } })
        (hr.configured.mpr hstatus) (by simp [hr.current, emptySnapshot]) (by simp [hr.queueCount])
      rw [hq]
      exact ensures_pure (hbalanced.enqueued henqueued true)
    · intro hstatus
      apply ensures_pure
      refine ⟨h.toBalanced.reset hempty hclear hr.queueCount hr.overflowPending false, ?_⟩
      intro hconfigured
      exact absurd (hr.configured.mp hconfigured) hstatus

/-- An answer without a snapshot changes nothing but the log. -/
theorem Holds.refused {s : Session} (h : Holds s) {status : Status} (hok : status ≠ .ok)
    (hoverflow : status ≠ .eoverflow) : Holds { s with answers := s.answers ++ [(status, none)] } := by
  obtain ⟨n, acknowledged, haccounted⟩ := h.accounted
  exact ⟨⟨h.count, h.queue, n, acknowledged, .other haccounted.explained hok hoverflow,
    haccounted.behind, haccounted.exact, haccounted.pending⟩, h.current⟩

/-- The head of the queue is the oldest snapshot that is left. -/
theorem Balanced.head {s : Session} (h : Balanced s) (hhead : s.parser.queueHead < 16)
    (hsome : s.parser.queueCount ≠ 0) (hle : s.parser.queueCount ≤ s.produced.length) :
    s.produced[s.produced.length-s.parser.queueCount]? =
      some (slots s.parser.queue s.parser.queueHead) ∧
    contents 16 (slots s.parser.queue) ((s.parser.queueHead+1)%16) (s.parser.queueCount-1) =
      s.produced.drop (s.produced.length-(s.parser.queueCount-1)) := by
  have hqueue := h.queue
  have hfirst : place 16 s.parser.queueHead 0 = s.parser.queueHead := Nat.mod_eq_of_lt hhead
  rw [queued, contents_pop _ _ _ (Nat.pos_of_ne_zero hsome), hfirst,
    List.drop_eq_getElem_cons (by omega)] at hqueue
  obtain ⟨hget, hrest⟩ := List.cons.inj hqueue
  constructor
  · rw [List.getElem?_eq_getElem (by omega), ← hget]
  · refine hrest.trans ?_
    congr 1
    omega

theorem snapshotNext_holds {s : Session} (h : Holds s) : Ensures (snapshotNext s) Holds := by
  obtain ⟨n, acknowledged, haccounted⟩ := h.accounted
  rw [snapshotNext, next]
  by_cases hconfigured : s.parser.configured = false
  · rw [if_pos hconfigured]
    exact ensures_pure (h.refused (by simp) (by simp))
  · rw [if_neg hconfigured]
    by_cases hoverflow : s.parser.overflowPending = true
    · rw [if_pos hoverflow]
      apply ensures_pure
      have hpending := haccounted.pending (Or.inl hoverflow)
      refine ⟨⟨h.count, h.queue, n, true, .overflow haccounted.explained, haccounted.behind, ?_,
        fun _ => hpending⟩, h.current⟩
      simp
    · rw [if_neg hoverflow]
      have hclear : s.parser.overflowPending = false := by simpa using hoverflow
      by_cases hempty : s.parser.queueCount = 0
      · rw [if_pos hempty]
        exact ensures_pure (h.refused (by simp) (by simp))
      · rw [if_neg hempty]
        have hbehind := haccounted.behind
        refine ensures_bind (popSnapshot_ensures s.parser) fun r hr => ?_
        obtain ⟨hhead, rfl⟩ := hr
        obtain ⟨hget, hrest⟩ := h.toBalanced.head hhead hempty (by omega)
        apply ensures_pure
        have hgap : s.produced.length-s.parser.queueCount ≠ n → acknowledged = true := by
          intro hne
          by_contra hnot
          have hexact := haccounted.exact hclear (by simpa using hnot)
          omega
        refine ⟨⟨?_, hrest, _, false, .snapshot haccounted.explained (by omega) hgap hget, ?_, ?_,
          ?_⟩, h.current⟩
        · have hcount := h.count
          dsimp only
          omega
        · dsimp only
          omega
        · dsimp only
          omega
        · simp [hclear]

theorem step_holds {s : Session} (h : Holds s) {action : Action} (hclean : Clean s action) :
    Ensures (step s action) Holds := by
  cases action with
  | reopen => exact ensures_pure opened_holds
  | linkUp descriptor => exact linkUp_holds h hclean
  | linkDown => exact linkDown_holds h
  | report data => exact report_holds h data
  | next => exact snapshotNext_holds h

theorem run_holds {s : Session} (h : Holds s) {actions : List Action}
    (hclean : AllClean s actions) : Ensures (run s actions) Holds := by
  induction actions generalizing s with
  | nil => exact ensures_pure h
  | cons action actions ih =>
    intro u hu
    obtain ⟨hfirst, hrest⟩ := hclean
    cases hstep : step s action with
    | error fault =>
      rw [run, hstep] at hu
      cases hu
    | ok t =>
      rw [run, hstep] at hu
      exact ih (step_holds h hfirst t hstep) (hrest t hstep) u hu

/-- If every link comes up after the queue has been read, snapshots arrive in
order and no loss goes unreported. -/
theorem snapshots_reported {actions : List Action} {s : Session}
    (hrun : run opened actions = .ok s) (hclean : AllClean opened actions) : Lawful s :=
  (run_holds opened_holds hclean s hrun).lawful

def buttonsDescriptor : List UInt8 :=
  [0x05, 0x01, 0x09, 0x05, 0xA1, 0x01, 0x05, 0x09, 0x19, 0x01, 0x29, 0x08, 0x15, 0x00, 0x25, 0x01,
    0x75, 0x01, 0x95, 0x08, 0x81, 0x02, 0xC0]

theorem snapshots_reported_pressed : ∃ s,
    run opened [.linkUp buttonsDescriptor, .report [0x01], .next, .next, .next] = .ok s ∧
      Lawful s := by
  have hok : (run opened [.linkUp buttonsDescriptor, .report [0x01], .next, .next, .next]).isOk =
      true := by
    decide +kernel
  cases hrun : run opened [.linkUp buttonsDescriptor, .report [0x01], .next, .next, .next] with
  | error fault =>
    rw [hrun] at hok
    cases hok
  | ok s =>
    refine ⟨s, rfl, snapshots_reported hrun ?_⟩
    exact ⟨fun _ => ⟨rfl, rfl⟩, fun _ _ => ⟨trivial, fun _ _ => ⟨trivial, fun _ _ =>
      ⟨trivial, fun _ _ => ⟨trivial, fun _ _ => trivial⟩⟩⟩⟩⟩

theorem explained_nil {produced : List Snapshot} {n : ℕ} {acknowledged : Bool}
    (h : Explained produced n acknowledged []) : n = 0 ∧ acknowledged = false := by
  generalize hnil : ([] : List (Status × Option Snapshot)) = answers at h
  cases h with
  | nil => exact ⟨rfl, rfl⟩
  | overflow _ => simp at hnil
  | snapshot _ _ _ _ => simp at hnil
  | other _ _ _ => simp at hnil

/-- A snapshot that is answered first was produced first. -/
theorem explained_single {produced : List Snapshot} {n : ℕ} {acknowledged : Bool} {a : Snapshot}
    (h : Explained produced n acknowledged [(.ok, some a)]) : produced[0]? = some a := by
  generalize hsingle : [(Status.ok, some a)] = answers at h
  cases h with
  | nil => cases hsingle
  | overflow _ =>
    have hlast := congrArg List.getLast? hsingle
    simp at hlast
  | other _ _ _ =>
    have hlast := congrArg List.getLast? hsingle
    simp at hlast
  | snapshot hbefore hle hgap hget =>
    obtain ⟨hnil, hlast⟩ := List.append_eq_singleton_iff.mp hsingle.symm |>.resolve_right (by simp)
    obtain ⟨rfl, hnot⟩ := explained_nil (hnil ▸ hbefore)
    have hzero := by_contra fun hne => Bool.noConfusion (hnot.symm.trans (hgap hne))
    obtain rfl : a = _ := by simpa using hlast.symm
    rw [← hzero]
    exact hget

def released (n : UInt32) (connected : Bool) : Snapshot :=
  ⟨n, 0, Vector.replicate 9 0, 0, 0, connected⟩

/-- The link is lost and comes up again before the application reads: two
snapshots are gone and nothing says so. -/
theorem reconnect_loses : ∃ s,
    run opened [.linkUp buttonsDescriptor, .linkDown, .linkUp buttonsDescriptor, .next] = .ok s ∧
      ¬Lawful s := by
  have hresult : (run opened [.linkUp buttonsDescriptor, .linkDown, .linkUp buttonsDescriptor,
      .next]).toOption.map (fun s => (s.produced, s.answers)) =
      some ([released 1 true, released 1 false, released 2 true],
        [(.ok, some (released 2 true))]) := by
    decide +kernel
  cases hrun : run opened [.linkUp buttonsDescriptor, .linkDown, .linkUp buttonsDescriptor,
      .next] with
  | error fault =>
    rw [hrun] at hresult
    cases hresult
  | ok s =>
    rw [hrun] at hresult
    obtain ⟨hproduced, hanswers⟩ := Prod.mk.inj (Option.some.inj hresult)
    refine ⟨s, rfl, fun h => ?_⟩
    obtain ⟨n, acknowledged, hexplained⟩ := h.ordered
    rw [hproduced, hanswers] at hexplained
    have hfirst := explained_single hexplained
    exact absurd hfirst (by decide)

end JaszczurHal.GamepadQueue
