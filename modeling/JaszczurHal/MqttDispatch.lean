import JaszczurHal.RingQueue

/-!
# Dispatch of inbound MQTT messages

Loop calls fill one queue and read the registration under the mutex. The call
that finds no dispatch under way drains the queue through one slot and runs the
callback it has read outside the mutex.
-/

set_option autoImplicit false

namespace JaszczurHal.MqttDispatch
open RingQueue

def topicBufSize : ℕ := 512
def payloadBufSize : ℕ := 2048
def rxQueueDepth : ℕ := 8

structure Slot where
  topic : List UInt8
  payload : List UInt8
  deriving DecidableEq

structure Publish where
  topic : Option (List UInt8)
  payload : List UInt8

def slotOf (m : Publish) : Slot :=
  ⟨(m.topic.getD []).take (topicBufSize-1),
    m.payload.take (min (m.payload.length % 65536) payloadBufSize)⟩

structure Registration where
  callback : Option ℕ
  user : ℕ
  deriving DecidableEq

structure Mqtt where
  rxQueue : ℕ → Slot
  rxHead : ℕ
  rxTail : ℕ
  rxCount : ℕ
  overflowCount : UInt32
  dispatchSlot : Slot
  dispatchActive : Bool
  registered : Registration

def internalCallback (s : Mqtt) (m : Publish) : Mqtt :=
  if rxQueueDepth ≤ s.rxCount then { s with overflowCount := s.overflowCount+1 }
  else
    { s with
      rxQueue := Function.update s.rxQueue s.rxTail (slotOf m)
      rxTail := (s.rxTail+1) % rxQueueDepth
      rxCount := s.rxCount+1 }

/-- Where a `hal_mqtt_loop_ex` call stands, with the registration it has read
and the message that its callback was given. -/
inductive LoopCall where
  | outside
  | draining (read : Registration)
  | running (read : Registration) (message : Slot)
  deriving DecidableEq

structure Dispatch where
  message : Slot
  read : Registration
  registered : Registration
  deriving DecidableEq

structure System where
  mqtt : Mqtt
  calls : ℕ → LoopCall
  /-- Every inbound message, and whether there was room for it. -/
  arrivals : List (Slot × Bool)
  dispatches : List Dispatch

inductive Event where
  | enter (call : ℕ) (publishes : List Publish)
  | take (call : ℕ)
  | finish (call : ℕ)
  | setCallback (registration : Registration)

def setCall (s : System) (k : ℕ) (c : LoopCall) : System :=
  { s with calls := Function.update s.calls k c }

def deliver (s : System) (m : Publish) : System :=
  { s with
    mqtt := internalCallback s.mqtt m
    arrivals := s.arrivals ++ [(slotOf m, decide (s.mqtt.rxCount < rxQueueDepth))] }

def enterLoop (s : System) (k : ℕ) (publishes : List Publish) : System :=
  let s := publishes.foldl deliver s
  if s.mqtt.dispatchActive then s
  else setCall { s with mqtt := { s.mqtt with dispatchActive := true } } k
    (.draining s.mqtt.registered)

def takeHead (s : Mqtt) : Mqtt :=
  { s with
    dispatchSlot := s.rxQueue s.rxHead
    rxHead := (s.rxHead+1) % rxQueueDepth
    rxCount := s.rxCount-1 }

def takeNext (s : System) (k : ℕ) (read : Registration) : System :=
  if s.mqtt.rxCount = 0 then
    setCall { s with mqtt := { s.mqtt with dispatchActive := false } } k .outside
  else
    let message := s.mqtt.rxQueue s.mqtt.rxHead
    setCall
      { s with
        mqtt := takeHead s.mqtt
        dispatches := s.dispatches ++ [⟨message, read, s.mqtt.registered⟩] }
      k (if read.callback.isSome then .running read message else .draining read)

def step (s : System) : Event → System
  | .enter k publishes => if s.calls k = .outside then enterLoop s k publishes else s
  | .take k =>
    match s.calls k with
    | .draining read => takeNext s k read
    | _ => s
  | .finish k =>
    match s.calls k with
    | .running read _ => setCall s k (.draining read)
    | _ => s
  | .setCallback r => { s with mqtt := { s.mqtt with registered := r } }

def run (s : System) (events : List Event) : System := events.foldl step s

def init : System where
  mqtt :=
    { rxQueue := fun _ => ⟨[], []⟩
      rxHead := 0
      rxTail := 0
      rxCount := 0
      overflowCount := 0
      dispatchSlot := ⟨[], []⟩
      dispatchActive := false
      registered := ⟨none, 0⟩ }
  calls := fun _ => .outside
  arrivals := []
  dispatches := []

def queued (s : Mqtt) : List Slot := contents rxQueueDepth s.rxQueue s.rxHead s.rxCount

def accepted (s : System) : List Slot := (s.arrivals.filter Prod.snd).map Prod.fst

def Active (s : System) (k : ℕ) : Prop := s.calls k ≠ .outside

/-- The last registration that the events set. -/
def lastSet : List Event → Option Registration
  | [] => none
  | .setCallback r :: events => some ((lastSet events).getD r)
  | _ :: events => lastSet events

def registeredAfter (events : List Event) : Registration := (lastSet events).getD ⟨none, 0⟩

/-- Call `k` got the dispatch with the `enter` behind `before` and has held it
through the events since. -/
structure HeldSince (before : List Event) (k : ℕ) (publishes : List Publish)
    (since : List Event) : Prop where
  free : (run init before).mqtt.dispatchActive = false
  held : ∀ part, part <+: since → Active (run init (before ++ .enter k publishes :: part)) k

/-- The next `take` of call `k` passes a message on. -/
def Takes (s : System) (k : ℕ) : Prop := (∃ read, s.calls k = .draining read) ∧ s.mqtt.rxCount ≠ 0

/-- Since call `k` got the dispatch, no `set_callback` has left another
registration than the one in force then. -/
def SteadyTake (events : List Event) (k : ℕ) : Prop :=
  Takes (run init events) k → ∀ before publishes since,
    events = before ++ .enter k publishes :: since → HeldSince before k publishes since →
      ∀ r, lastSet since = some r → r = registeredAfter before

def Steady (events : List Event) : Prop :=
  ∀ before k after, events = before ++ .take k :: after → SteadyTake before k

structure QueueSound (s : Mqtt) : Prop where
  head : s.rxHead < rxQueueDepth
  tail : s.rxTail = place rxQueueDepth s.rxHead s.rxCount
  bound : s.rxCount ≤ rxQueueDepth

structure Sound (s : System) : Prop where
  queue : QueueSound s.mqtt
  order : accepted s = s.dispatches.map Dispatch.message ++ queued s.mqtt
  overflow : s.mqtt.overflowCount = UInt32.ofNat (s.arrivals.countP fun a => !a.2)
  owned : ∀ k, Active s k → s.mqtt.dispatchActive = true
  alone : ∀ j k, Active s j → Active s k → j = k
  owner : s.mqtt.dispatchActive = true → ∃ k, Active s k
  slot : ∀ k read message, s.calls k = .running read message → s.mqtt.dispatchSlot = message
  idle : s.mqtt.dispatchActive = false → s.mqtt.rxCount = 0

theorem place_zero {depth head : ℕ} (h : head < depth) : place depth head 0 = head := by
  simp [place, Nat.mod_eq_of_lt h]

theorem internalCallback_full {s : Mqtt} (m : Publish) (h : rxQueueDepth ≤ s.rxCount) :
    internalCallback s m = { s with overflowCount := s.overflowCount+1 } := by
  simp [internalCallback, h]

theorem internalCallback_room {s : Mqtt} (m : Publish) (h : s.rxCount < rxQueueDepth) :
    internalCallback s m =
      { s with
        rxQueue := Function.update s.rxQueue s.rxTail (slotOf m)
        rxTail := (s.rxTail+1) % rxQueueDepth
        rxCount := s.rxCount+1 } := by
  simp [internalCallback, Nat.not_le.mpr h]

theorem queue_deliver {s : Mqtt} (h : QueueSound s) (m : Publish) :
    QueueSound (internalCallback s m) := by
  by_cases hroom : s.rxCount < rxQueueDepth
  · rw [internalCallback_room m hroom]
    constructor
    · exact h.head
    · simp [h.tail, place, Nat.add_assoc]
    · exact hroom
  · rw [internalCallback_full m (by omega)]
    exact ⟨h.head, h.tail, h.bound⟩

theorem queued_deliver {s : Mqtt} (h : QueueSound s) (m : Publish) (hroom : s.rxCount < rxQueueDepth) :
    queued (internalCallback s m) = queued s ++ [slotOf m] := by
  rw [internalCallback_room m hroom]
  simp only [queued, h.tail]
  exact contents_push s.rxQueue s.rxHead hroom (slotOf m)

/-- What the messages delivered in a loop change: the queue, its order and the
overflow count, and nothing that belongs to the calls. -/
structure Filled (s t : System) : Prop where
  queue : QueueSound t.mqtt
  order : accepted t = t.dispatches.map Dispatch.message ++ queued t.mqtt
  overflow : t.mqtt.overflowCount = UInt32.ofNat (t.arrivals.countP fun a => !a.2)
  calls : t.calls = s.calls
  active : t.mqtt.dispatchActive = s.mqtt.dispatchActive
  slot : t.mqtt.dispatchSlot = s.mqtt.dispatchSlot
  registered : t.mqtt.registered = s.mqtt.registered

theorem filled_deliver {s t : System} (h : Filled s t) (m : Publish) : Filled s (deliver t m) := by
  have hqueue := queue_deliver h.queue m
  by_cases hroom : t.mqtt.rxCount < rxQueueDepth
  · constructor
    · exact hqueue
    · have horder := h.order
      simp only [accepted] at horder
      simp [accepted, deliver, hroom, horder, queued_deliver h.queue m hroom]
    · simp [deliver, hroom, internalCallback_room m hroom, h.overflow]
    · exact h.calls
    · simp [deliver, internalCallback_room m hroom, h.active]
    · simp [deliver, internalCallback_room m hroom, h.slot]
    · simp [deliver, internalCallback_room m hroom, h.registered]
  · have hfull : rxQueueDepth ≤ t.mqtt.rxCount := by omega
    constructor
    · exact hqueue
    · have horder := h.order
      simp only [accepted, queued] at horder
      simp [accepted, queued, deliver, hroom, internalCallback_full m hfull, horder]
    · simp [deliver, hroom, internalCallback_full m hfull, h.overflow, UInt32.ofNat_add]
    · exact h.calls
    · simp [deliver, internalCallback_full m hfull, h.active]
    · simp [deliver, internalCallback_full m hfull, h.slot]
    · simp [deliver, internalCallback_full m hfull, h.registered]

theorem filled_publishes {s t : System} (h : Filled s t) (publishes : List Publish) :
    Filled s (publishes.foldl deliver t) := by
  induction publishes generalizing t with
  | nil => exact h
  | cons m publishes ih => exact ih (filled_deliver h m)

theorem Sound.filled {s : System} (h : Sound s) : Filled s s :=
  ⟨h.queue, h.order, h.overflow, rfl, rfl, rfl, rfl⟩

theorem sound_enter {s : System} (h : Sound s) (k : ℕ) (publishes : List Publish) :
    Sound (enterLoop s k publishes) := by
  have hf := filled_publishes h.filled publishes
  unfold enterLoop
  by_cases hactive : (publishes.foldl deliver s).mqtt.dispatchActive = true
  · have hbefore : s.mqtt.dispatchActive = true := by rw [← hf.active]; exact hactive
    simp only [hactive, if_true]
    constructor
    · exact hf.queue
    · exact hf.order
    · exact hf.overflow
    · intro j _
      exact hactive
    · intro i j hi hj
      apply h.alone
      · rwa [Active, ← hf.calls]
      · rwa [Active, ← hf.calls]
    · intro _
      simpa [Active, hf.calls] using h.owner hbefore
    · intro j read message hj
      rw [hf.slot]
      apply h.slot j read
      rw [← hf.calls]
      exact hj
    · intro hidle
      simp [hactive] at hidle
  · have hbefore : s.mqtt.dispatchActive = false := by
      rw [← hf.active]
      simpa using hactive
    have hnone : ∀ j, s.calls j = .outside := by
      intro j
      by_contra hj
      simp [h.owned j hj] at hbefore
    simp only [hactive, setCall]
    constructor
    · exact ⟨hf.queue.head, hf.queue.tail, hf.queue.bound⟩
    · exact hf.order
    · exact hf.overflow
    · simp
    · intro i j hi hj
      have hown : ∀ n, Function.update (publishes.foldl deliver s).calls k
          (.draining (publishes.foldl deliver s).mqtt.registered) n ≠ .outside → n = k := by
        intro n hn
        by_contra hne
        simp [Function.update_of_ne hne, hf.calls, hnone] at hn
      rw [hown i hi, hown j hj]
    · intro _
      exact ⟨k, by simp [Active]⟩
    · intro j read message hj
      by_cases hjk : j = k
      · simp [hjk] at hj
      · simp [Function.update_of_ne hjk, hf.calls, hnone] at hj
    · simp

theorem draining_active {s : System} {k : ℕ} {read : Registration} (h : s.calls k = .draining read) :
    Active s k := by
  simp [Active, h]

theorem queued_head {s : Mqtt} (h : QueueSound s) (hcount : s.rxCount ≠ 0) :
    queued s = s.rxQueue s.rxHead :: queued (takeHead s) := by
  have hpop := contents_pop rxQueueDepth s.rxQueue s.rxHead
    (Nat.pos_of_ne_zero hcount)
  rw [place_zero h.head] at hpop
  exact hpop

theorem queue_takeHead {s : Mqtt} (h : QueueSound s) (hcount : s.rxCount ≠ 0) :
    QueueSound (takeHead s) := by
  have hbound := h.bound
  constructor
  · exact Nat.mod_lt _ (by decide)
  · have hsucc := place_succ rxQueueDepth s.rxHead (s.rxCount-1)
    rw [Nat.sub_add_cancel (Nat.pos_of_ne_zero hcount)] at hsucc
    rw [takeHead, h.tail, ← hsucc]
    rfl
  · simp only [takeHead]
    omega

/-- The owner of the dispatch replaced by a call that still owns it. -/
theorem alone_set {s : System} (h : Sound s) {k : ℕ} (hk : Active s k) (c : LoopCall) (i : ℕ)
    (hi : Function.update s.calls k c i ≠ .outside) : i = k := by
  by_contra hne
  rw [Function.update_of_ne hne] at hi
  exact hne (h.alone i k hi hk)

theorem sound_take {s : System} (h : Sound s) {k : ℕ} {read : Registration}
    (hk : s.calls k = .draining read) : Sound (takeNext s k read) := by
  have hactive := draining_active hk
  unfold takeNext
  by_cases hcount : s.mqtt.rxCount = 0
  · rw [if_pos hcount, setCall]
    have hnone : ∀ i, Function.update s.calls k .outside i = .outside := by
      intro i
      by_contra hi
      have heq := alone_set h hactive _ i hi
      simp [heq] at hi
    constructor
    · exact ⟨h.queue.head, h.queue.tail, h.queue.bound⟩
    · exact h.order
    · exact h.overflow
    · intro i hi
      exact absurd (hnone i) hi
    · intro i j hi
      exact absurd (hnone i) hi
    · simp
    · intro i r message hi
      simp [hnone i] at hi
    · intro _
      exact hcount
  · rw [if_neg hcount, setCall]
    have hnext : (if read.callback.isSome then LoopCall.running read (s.mqtt.rxQueue s.mqtt.rxHead)
        else .draining read) ≠ .outside := by
      split <;> simp
    constructor
    · exact queue_takeHead h.queue hcount
    · have horder := h.order
      rw [queued_head h.queue hcount] at horder
      simp only [accepted] at horder ⊢
      simp [horder]
    · exact h.overflow
    · intro _ _
      exact h.owned k hactive
    · intro i j hi hj
      rw [alone_set h hactive _ i hi, alone_set h hactive _ j hj]
    · intro _
      exact ⟨k, by simpa [Active] using hnext⟩
    · intro i r message hi
      change Function.update s.calls k _ i = _ at hi
      have heq := alone_set h hactive _ i (by rw [hi]; simp)
      subst heq
      by_cases hsome : read.callback.isSome = true
      · simp [hsome] at hi
        exact hi.2
      · simp [hsome] at hi
    · intro hidle
      have howned := h.owned k hactive
      simp [takeHead, howned] at hidle

theorem sound_finish {s : System} (h : Sound s) {k : ℕ} {read : Registration} {message : Slot}
    (hk : s.calls k = .running read message) : Sound (setCall s k (.draining read)) := by
  have hactive : Active s k := by simp [Active, hk]
  constructor
  · exact h.queue
  · exact h.order
  · exact h.overflow
  · intro _ _
    exact h.owned k hactive
  · intro i j hi hj
    rw [alone_set h hactive _ i hi, alone_set h hactive _ j hj]
  · intro _
    exact ⟨k, by simp [Active, setCall]⟩
  · intro i r m hi
    change Function.update s.calls k _ i = _ at hi
    have heq := alone_set h hactive _ i (by rw [hi]; simp)
    simp [heq] at hi
  · exact h.idle

theorem sound_step {s : System} (h : Sound s) (e : Event) : Sound (step s e) := by
  cases e with
  | enter k publishes =>
    by_cases hk : s.calls k = .outside
    · simpa [step, hk] using sound_enter h k publishes
    · simpa [step, hk] using h
  | take k =>
    cases hk : s.calls k with
    | outside => simpa [step, hk] using h
    | draining read => simpa [step, hk] using sound_take h hk
    | running read message => simpa [step, hk] using h
  | finish k =>
    cases hk : s.calls k with
    | outside => simpa [step, hk] using h
    | draining read => simpa [step, hk] using h
    | running read message => simpa [step, hk] using sound_finish h hk
  | setCallback r =>
    exact ⟨⟨h.queue.head, h.queue.tail, h.queue.bound⟩, h.order, h.overflow, h.owned, h.alone,
      h.owner, h.slot, h.idle⟩

theorem sound_init : Sound init := by
  constructor
  · exact ⟨by decide, rfl, by decide⟩
  · rfl
  · rfl
  · simp [Active, init]
  · simp [Active, init]
  · simp [init]
  · simp [init]
  · simp [init]

theorem sound_run {s : System} (h : Sound s) (events : List Event) : Sound (run s events) := by
  induction events generalizing s with
  | nil => exact h
  | cons e events ih => exact ih (sound_step h e)

theorem run_snoc (s : System) (events : List Event) (e : Event) :
    run s (events ++ [e]) = step (run s events) e := by
  simp [run]

theorem lastSet_append (before events : List Event) :
    lastSet (before ++ events) = (lastSet events).or (lastSet before) := by
  induction before with
  | nil => simp [lastSet]
  | cons e before ih =>
    cases e with
    | setCallback r => cases h : lastSet events <;> simp [lastSet, ih, h]
    | enter k publishes => simpa [lastSet] using ih
    | take k => simpa [lastSet] using ih
    | finish k => simpa [lastSet] using ih

theorem registeredAfter_append (before events : List Event) :
    registeredAfter (before ++ events) = (lastSet events).getD (registeredAfter before) := by
  cases h : lastSet events <;> simp [registeredAfter, lastSet_append, h]

theorem registered_enter {s : System} (h : Sound s) (k : ℕ) (publishes : List Publish) :
    (enterLoop s k publishes).mqtt.registered = s.mqtt.registered := by
  have hf := filled_publishes h.filled publishes
  by_cases hactive : (publishes.foldl deliver s).mqtt.dispatchActive = true
  · simpa [enterLoop, hactive] using hf.registered
  · simpa [enterLoop, hactive, setCall] using hf.registered

theorem registered_step {s : System} (h : Sound s) (e : Event) :
    (step s e).mqtt.registered = (lastSet [e]).getD s.mqtt.registered := by
  cases e with
  | enter k publishes =>
    by_cases hk : s.calls k = .outside
    · simpa [step, hk, lastSet] using registered_enter h k publishes
    · simp [step, hk, lastSet]
  | take k =>
    cases hk : s.calls k with
    | outside => simp [step, hk, lastSet]
    | draining read =>
      by_cases hcount : s.mqtt.rxCount = 0
      · simp [step, hk, lastSet, takeNext, hcount, setCall]
      · simp [step, hk, lastSet, takeNext, hcount, setCall, takeHead]
    | running read message => simp [step, hk, lastSet]
  | finish k =>
    cases hk : s.calls k <;> simp [step, hk, lastSet, setCall]
  | setCallback r => simp [step, lastSet]

theorem registered_run (events : List Event) :
    (run init events).mqtt.registered = registeredAfter events := by
  induction events using List.reverseRecOn with
  | nil => rfl
  | append_singleton events e ih =>
    rw [run_snoc, registered_step (sound_run sound_init events), registeredAfter_append, ih]

def readOf : LoopCall → Option Registration
  | .outside => none
  | .draining read => some read
  | .running read _ => some read

theorem active_of_readOf {s : System} {k : ℕ} {read : Registration}
    (h : readOf (s.calls k) = some read) : Active s k := by
  intro hk
  simp [hk, readOf] at h

theorem calls_enter {s : System} (h : Sound s) {j k : ℕ} (publishes : List Publish)
    (hjk : k ≠ j) : (enterLoop s j publishes).calls k = s.calls k := by
  have hf := filled_publishes h.filled publishes
  by_cases hactive : (publishes.foldl deliver s).mqtt.dispatchActive = true
  · simp [enterLoop, hactive, hf.calls]
  · simp [enterLoop, hactive, setCall, Function.update_of_ne hjk, hf.calls]

theorem calls_takeNext {s : System} {j k : ℕ} (read : Registration) (hjk : k ≠ j) :
    (takeNext s j read).calls k = s.calls k := by
  by_cases hcount : s.mqtt.rxCount = 0
  · simp [takeNext, hcount, setCall, Function.update_of_ne hjk]
  · simp [takeNext, hcount, setCall, Function.update_of_ne hjk]

/-- A call that keeps the dispatch keeps the registration it has read. -/
theorem readOf_step {s : System} (h : Sound s) {k : ℕ} {read : Registration}
    (hread : readOf (s.calls k) = some read) (e : Event) (hactive : Active (step s e) k) :
    readOf ((step s e).calls k) = some read := by
  have hk := active_of_readOf hread
  cases e with
  | enter j publishes =>
    by_cases hj : s.calls j = .outside
    · have hjk : k ≠ j := by
        rintro rfl
        exact hk hj
      simpa [step, hj, calls_enter h publishes hjk] using hread
    · simpa [step, hj] using hread
  | take j =>
    cases hj : s.calls j with
    | outside => simpa [step, hj] using hread
    | running other message => simpa [step, hj] using hread
    | draining other =>
      by_cases hjk : k = j
      · subst hjk
        simp only [step, hj, takeNext] at hactive ⊢
        rw [hj, readOf] at hread
        by_cases hcount : s.mqtt.rxCount = 0
        · simp [hcount, setCall, Active] at hactive
        · by_cases hsome : other.callback.isSome = true
          · simpa [hcount, setCall, hsome, readOf] using hread
          · simpa [hcount, setCall, hsome, readOf] using hread
      · simpa [step, hj, calls_takeNext other hjk] using hread
  | finish j =>
    cases hj : s.calls j with
    | outside => simpa [step, hj] using hread
    | draining other => simpa [step, hj] using hread
    | running other message =>
      by_cases hjk : k = j
      · subst hjk
        rw [hj, readOf] at hread
        simpa [step, hj, setCall, readOf] using hread
      · simpa [step, hj, setCall, Function.update_of_ne hjk] using hread
  | setCallback r => simpa [step] using hread

theorem calls_outside {s : System} (h : Sound s) (hfree : s.mqtt.dispatchActive = false) (k : ℕ) :
    s.calls k = .outside := by
  by_contra hk
  simp [h.owned k hk] at hfree

/-- The `enter` that gets the dispatch reads the registration in force. -/
theorem readOf_enter {s : System} (h : Sound s) (hfree : s.mqtt.dispatchActive = false) (k : ℕ)
    (publishes : List Publish) :
    readOf ((step s (.enter k publishes)).calls k) = some s.mqtt.registered := by
  have hf := filled_publishes h.filled publishes
  simp [step, calls_outside h hfree k, enterLoop, hf.active, hfree, setCall, readOf, hf.registered]

theorem HeldSince.shorten {before : List Event} {k : ℕ} {publishes : List Publish}
    {since : List Event} {e : Event} (h : HeldSince before k publishes (since ++ [e])) :
    HeldSince before k publishes since :=
  ⟨h.free, fun part hpart => h.held part (hpart.trans (List.prefix_append since [e]))⟩

/-- What a call that holds the dispatch has read is the registration in force
at its `enter`. -/
theorem HeldSince.read {before : List Event} {k : ℕ} {publishes : List Publish}
    {since : List Event} (h : HeldSince before k publishes since) :
    readOf ((run init (before ++ .enter k publishes :: since)).calls k) =
      some (registeredAfter before) := by
  induction since using List.reverseRecOn with
  | nil =>
    rw [run_snoc, readOf_enter (sound_run sound_init before) h.free, registered_run]
  | append_singleton since e ih =>
    have hread := ih h.shorten
    have hactive := h.held (since ++ [e]) List.prefix_rfl
    rw [← List.cons_append, ← List.append_assoc, run_snoc] at hactive ⊢
    exact readOf_step (sound_run sound_init _) hread e hactive

theorem HeldSince.extend {before : List Event} {k : ℕ} {publishes : List Publish}
    {since : List Event} {e : Event} (h : HeldSince before k publishes since)
    (hactive : Active (run init (before ++ .enter k publishes :: (since ++ [e]))) k) :
    HeldSince before k publishes (since ++ [e]) := by
  refine ⟨h.free, fun part hpart => ?_⟩
  rcases List.prefix_concat_iff.mp hpart with rfl | hpart
  · exact hactive
  · exact h.held part hpart

/-- A call that an event brings to the dispatch got it there by its `enter`. -/
theorem enter_of_active {s : System} (h : Sound s) {k : ℕ} (e : Event)
    (hout : s.calls k = .outside) (hactive : Active (step s e) k) :
    s.mqtt.dispatchActive = false ∧ ∃ publishes, e = .enter k publishes := by
  cases e with
  | enter j publishes =>
    by_cases hjk : k = j
    · subst hjk
      refine ⟨?_, publishes, rfl⟩
      by_contra hbusy
      have hf := filled_publishes h.filled publishes
      rw [Bool.not_eq_false] at hbusy
      simp [step, hout, enterLoop, hf.active, hbusy, Active, hf.calls] at hactive
    · by_cases hj : s.calls j = .outside
      · simp [step, hj, Active, calls_enter h publishes hjk, hout] at hactive
      · simp [step, hj, Active, hout] at hactive
  | take j =>
    cases hj : s.calls j with
    | outside => simp [step, hj, Active, hout] at hactive
    | running other message => simp [step, hj, Active, hout] at hactive
    | draining other =>
      have hjk : k ≠ j := by
        rintro rfl
        simp [hout] at hj
      simp [step, hj, Active, calls_takeNext other hjk, hout] at hactive
  | finish j =>
    cases hj : s.calls j with
    | outside => simp [step, hj, Active, hout] at hactive
    | draining other => simp [step, hj, Active, hout] at hactive
    | running other message =>
      have hjk : k ≠ j := by
        rintro rfl
        simp [hout] at hj
      simp [step, hj, setCall, Active, Function.update_of_ne hjk, hout] at hactive
  | setCallback r => simp [step, Active, hout] at hactive

theorem heldSince_of_active {events : List Event} {k : ℕ} (h : Active (run init events) k) :
    ∃ before publishes since, events = before ++ .enter k publishes :: since ∧
      HeldSince before k publishes since := by
  induction events using List.reverseRecOn with
  | nil => simp [run, Active, init] at h
  | append_singleton events e ih =>
    have hsound := sound_run sound_init events
    by_cases hk : Active (run init events) k
    · obtain ⟨before, publishes, since, rfl, hheld⟩ := ih hk
      refine ⟨before, publishes, since ++ [e], by simp, hheld.extend ?_⟩
      simpa using h
    · rw [run_snoc] at h
      rw [Active, not_not] at hk
      obtain ⟨hfree, publishes, rfl⟩ := enter_of_active hsound e hk h
      refine ⟨events, publishes, [], rfl, hfree, fun part hpart => ?_⟩
      rw [List.prefix_nil.mp hpart, run_snoc]
      exact h

/-- A draining call has read the registration in force exactly when none has
been set since it got the dispatch. -/
theorem steadyTake_iff {events : List Event} {k : ℕ} {read : Registration}
    (hk : (run init events).calls k = .draining read)
    (hcount : (run init events).mqtt.rxCount ≠ 0) :
    SteadyTake events k ↔ read = (run init events).mqtt.registered := by
  have htakes : Takes (run init events) k := ⟨⟨read, hk⟩, hcount⟩
  have hread : ∀ before publishes since, events = before ++ .enter k publishes :: since →
      HeldSince before k publishes since →
        read = registeredAfter before ∧
          registeredAfter events = (lastSet since).getD (registeredAfter before) := by
    rintro before publishes since rfl hheld
    have hof := hheld.read
    rw [hk, readOf, Option.some.injEq] at hof
    exact ⟨hof, registeredAfter_append before (.enter k publishes :: since)⟩
  rw [registered_run]
  constructor
  · intro hsteady
    obtain ⟨before, publishes, since, heq, hheld⟩ := heldSince_of_active (draining_active hk)
    obtain ⟨hbefore, hafter⟩ := hread before publishes since heq hheld
    rw [hbefore, hafter]
    cases hset : lastSet since with
    | none => rfl
    | some r => exact (hsteady htakes before publishes since heq hheld r hset).symm
  · intro hcurrent _ before publishes since heq hheld r hset
    obtain ⟨hbefore, hafter⟩ := hread before publishes since heq hheld
    rw [hset, Option.getD_some] at hafter
    rw [← hbefore, hcurrent, hafter]

def Current (s : System) : Prop := ∀ d ∈ s.dispatches, d.read = d.registered

theorem dispatches_publishes (s : System) (publishes : List Publish) :
    (publishes.foldl deliver s).dispatches = s.dispatches := by
  induction publishes generalizing s with
  | nil => rfl
  | cons m publishes ih => exact ih (deliver s m)

theorem dispatches_enter (s : System) (k : ℕ) (publishes : List Publish) :
    (enterLoop s k publishes).dispatches = s.dispatches := by
  have h := dispatches_publishes s publishes
  by_cases hactive : (publishes.foldl deliver s).mqtt.dispatchActive = true
  · simpa [enterLoop, hactive] using h
  · simpa [enterLoop, hactive, setCall] using h

theorem dispatches_step {s : System} {e : Event} (h : ∀ k, e = .take k → ¬ Takes s k) :
    (step s e).dispatches = s.dispatches := by
  cases e with
  | enter k publishes =>
    by_cases hk : s.calls k = .outside
    · simpa [step, hk] using dispatches_enter s k publishes
    · simp [step, hk]
  | take k =>
    cases hk : s.calls k with
    | outside => simp [step, hk]
    | draining read =>
      have hcount : s.mqtt.rxCount = 0 := by
        by_contra hcount
        exact h k rfl ⟨⟨read, hk⟩, hcount⟩
      simp [step, hk, takeNext, hcount, setCall]
    | running read message => simp [step, hk]
  | finish k =>
    cases hk : s.calls k <;> simp [step, hk, setCall]
  | setCallback r => rfl

theorem current_take {s : System} {k : ℕ} {read : Registration} (hk : s.calls k = .draining read)
    (hcount : s.mqtt.rxCount ≠ 0) :
    Current (step s (.take k)) ↔ Current s ∧ read = s.mqtt.registered := by
  have hdispatches : (step s (.take k)).dispatches =
      s.dispatches ++ [⟨s.mqtt.rxQueue s.mqtt.rxHead, read, s.mqtt.registered⟩] := by
    simp [step, hk, takeNext, hcount, setCall]
  rw [Current, hdispatches, List.forall_mem_append, List.forall_mem_singleton]
  rfl

/-- An event keeps what was passed on current exactly when it is no `take`
behind another registration. -/
theorem current_snoc (events : List Event) (e : Event) :
    Current (run init (events ++ [e])) ↔
      Current (run init events) ∧ ∀ k, e = .take k → SteadyTake events k := by
  rw [run_snoc]
  by_cases htakes : ∃ k, e = .take k ∧ Takes (run init events) k
  · obtain ⟨k, rfl, ⟨read, hk⟩, hcount⟩ := htakes
    rw [current_take hk hcount, ← steadyTake_iff hk hcount]
    simp
  · push Not at htakes
    have hsteady : ∀ k, e = .take k → SteadyTake events k :=
      fun k hk hnext => absurd hnext (htakes k hk)
    rw [Current, dispatches_step htakes]
    exact (and_iff_left hsteady).symm

theorem steady_snoc (events : List Event) (e : Event) :
    Steady (events ++ [e]) ↔ Steady events ∧ ∀ k, e = .take k → SteadyTake events k := by
  constructor
  · intro h
    constructor
    · rintro before k after rfl
      exact h before k (after ++ [e]) (by simp)
    · rintro k rfl
      exact h events k [] rfl
  · rintro ⟨hevents, he⟩ before k after heq
    rcases List.eq_nil_or_concat after with rfl | ⟨after, last, rfl⟩
    · obtain ⟨rfl, hlast⟩ := List.append_inj' heq rfl
      exact he k (List.head_eq_of_cons_eq hlast)
    · rw [List.concat_eq_append, ← List.cons_append, ← List.append_assoc] at heq
      exact hevents before k after (List.append_inj' heq rfl).1

theorem current_run (events : List Event) : Current (run init events) ↔ Steady events := by
  induction events using List.reverseRecOn with
  | nil => simp [Current, run, init, Steady]
  | append_singleton events e ih => rw [current_snoc, steady_snoc, ih]

/-- Every message is either counted as overflow or taken once in order of
arrival, callbacks run one at a time on a slot that keeps their message, and
nothing stays queued behind the last call. Every message is passed to the
registration in force exactly when none is replaced between the `enter` of a
call that gets the dispatch and a message that it takes. -/
theorem dispatch_sound (events : List Event) :
    let s := run init events
    accepted s = s.dispatches.map Dispatch.message ++ queued s.mqtt ∧
      s.mqtt.overflowCount = UInt32.ofNat (s.arrivals.countP fun a => !a.2) ∧
      (∀ j k, Active s j → Active s k → j = k) ∧
      (∀ k read message, s.calls k = .running read message → s.mqtt.dispatchSlot = message) ∧
      ((∀ k, s.calls k = .outside) → queued s.mqtt = []) ∧
      (Current s ↔ Steady events) := by
  intro s
  have h : Sound s := sound_run sound_init events
  refine ⟨h.order, h.overflow, h.alone, h.slot, ?_, current_run events⟩
  intro hall
  have hidle : s.mqtt.dispatchActive = false := by
    by_contra hactive
    obtain ⟨k, hk⟩ := h.owner (by simpa using hactive)
    exact hk (hall k)
  simp [queued, h.idle hidle]

/-- A callback that registers another one still gets the message behind its own. -/
theorem replaced_callback_called :
    ¬ Current (run init
      [.setCallback ⟨some 0, 0⟩,
        .enter 0 [⟨some [97], [1]⟩, ⟨some [97], [2]⟩], .take 0, .setCallback ⟨some 1, 1⟩,
        .finish 0, .take 0]) := by
  unfold Current
  decide +kernel

end JaszczurHal.MqttDispatch
