import JaszczurHal.BleStream

/-!
# Nothing crosses the sessions of a BLE stream

Every frame offered in a session carries the payload queued there at its own
number, and what is handed out in a session was received in it. Both hold
over every order of calls and events, whatever the backend, the clock and the
entropy source answer.
-/

set_option autoImplicit false

namespace JaszczurHal.BleSafety
open HalStatus BleSession BleStream

def Carries (k : Crypto) (l : SessionLog) (i : ℕ) (frame : List UInt8) : Prop :=
  i+1 < 2^64 ∧ ∃ payload, l.queued[i]? = some payload ∧
    dataFrame k l.key (UInt64.ofNat (i+1)) payload = some frame

structure LogSafe (k : Crypto) (l : SessionLog) : Prop where
  sent : ∀ i frame, l.sent[i]? = some frame → Carries k l i frame
  offered : ∀ f ∈ l.offered, ∃ i, Carries k l i f
  accepted : ∀ f ∈ l.sent, f ∈ l.offered
  returned : l.returned.Sublist l.received

structure HistorySafe (k : Crypto) (h : History) : Prop where
  outside : h.outside = emptyLog []
  logs : ∀ l ∈ h.sessions, LogSafe k l

structure Current (s : Runtime) (l : SessionLog) : Prop where
  head : ∃ rest, s.session.history.sessions = l :: rest
  key : l.key = s.session.keyDeviceToClient
  counter : l.sent.length = s.session.txCounter.toNat
  queued : ∃ done, l.queued = done ++ s.tx ∧ done.length = l.sent.length
  waiting : (l.returned ++ s.rx.map fun p => (p.info.counter, p.data)).Sublist l.received

structure Core (k : Crypto) (s : Runtime) : Prop where
  synced : s.session.txCounter = s.txCounter
  history : HistorySafe k s.session.history
  resting : s.session.state ≠ .authenticated → s.session.txCounter = 0 ∧ s.tx = [] ∧ s.rx = []
  idle : s.session.state = .idle → s.state ≠ .authenticated
  current : s.session.state = .authenticated → ∃ l, Current s l
  unstaged : s.session.state = .handshaking → s.notificationPending = true → s.staged = none
  staged : s.session.state = .authenticated → s.notificationPending = true →
    ∀ n, s.staged = some n → n = s.session.history.sessions.length

def Agreed (s : Runtime) : Prop :=
  s.state = .authenticated ↔ s.session.state = .authenticated

structure Safe (k : Crypto) (s : Runtime) : Prop where
  core : Core k s
  agreed : Agreed s

variable {b : Build} {k : Crypto} {r : Replies} {s s' : Runtime}

theorem closeSession_fields (s : Runtime) :
    (closeSession s).session = reset s.session ∧ (closeSession s).txCounter = 0 ∧
      (closeSession s).tx = [] ∧ (closeSession s).rx = [] ∧
      (closeSession s).state ≠ .authenticated := by
  unfold closeSession restingState
  dsimp only
  split_ifs with hbackoff hsubscribed
  · exact ⟨rfl, rfl, rfl, rfl, by rw [show _ = StreamState.backoff from hbackoff]; decide⟩
  · exact ⟨rfl, rfl, rfl, rfl, by simp⟩
  · exact ⟨rfl, rfl, rfl, rfl, by simp⟩

/-- Without a session there is nothing in the queues and no counter. -/
theorem idle_safe (hsession : s.session.state = .idle) (hcounter : s.session.txCounter = 0)
    (hcounter' : s.txCounter = 0) (htx : s.tx = []) (hrx : s.rx = [])
    (hstate : s.state ≠ .authenticated) (hs : HistorySafe k s.session.history) : Safe k s where
  core := {
    synced := hcounter.trans hcounter'.symm
    history := hs
    resting := fun _ => ⟨hcounter, htx, hrx⟩
    idle := fun _ => hstate
    current := fun h => by cases hsession.symm.trans h
    unstaged := fun h => by cases hsession.symm.trans h
    staged := fun h => by cases hsession.symm.trans h }
  agreed := ⟨fun h => absurd h hstate, fun h => by cases hsession.symm.trans h⟩

/-- A closed session leaves nothing behind but its history. -/
theorem closed_safe (hs : HistorySafe k s.session.history) : Safe k (closeSession s) := by
  obtain ⟨hsession, hcounter, htx, hrx, hstate⟩ := closeSession_fields s
  refine idle_safe ?_ ?_ hcounter htx hrx hstate ?_
  · rw [hsession]
    rfl
  · rw [hsession]
    rfl
  · rw [hsession]
    exact hs

theorem closed_core (hs : HistorySafe k s.session.history) : Core k (closeSession s) :=
  (closed_safe hs).core

def Follows (s s' : Runtime) : Prop :=
  s'.state = s.state ∧ s'.session.state = s.session.state ∨
    s'.state ≠ .authenticated ∧ s'.session.state = .idle

theorem closed_follows (s s' : Runtime) : Follows s (closeSession s') := by
  obtain ⟨hsession, _, _, _, hstate⟩ := closeSession_fields s'
  exact .inr ⟨hstate, by rw [hsession]; rfl⟩

theorem agreed_follows (hfollows : Follows s s') (hs : Agreed s) : Agreed s' := by
  rcases hfollows with ⟨hstate, hsession⟩ | ⟨hstate, hsession⟩
  · rw [Agreed, hstate, hsession]
    exact hs
  · exact ⟨fun h => absurd h hstate, fun h => by cases hsession.symm.trans h⟩

theorem record_current (f : SessionLog → SessionLog) (session : Session) {l : SessionLog}
    {rest : List SessionLog} (hstate : session.state = .authenticated)
    (hhead : session.history.sessions = l :: rest) :
    (record f session).history = ⟨f l :: rest, session.history.outside⟩ := by
  rw [record, if_pos hstate, hhead]
  rfl

theorem history_current {h : History} {l l' : SessionLog} {rest : List SessionLog}
    (hs : HistorySafe k h) (hhead : h.sessions = l :: rest) (hl : LogSafe k l') :
    HistorySafe k ⟨l' :: rest, h.outside⟩ := by
  refine ⟨hs.outside, fun x hx => ?_⟩
  rcases List.mem_cons.mp hx with rfl | hx
  · exact hl
  · exact hs.logs x (by rw [hhead]; exact List.mem_cons_of_mem _ hx)

theorem current_safe {l : SessionLog} (hs : Core k s) (hl : Current s l) : LogSafe k l := by
  obtain ⟨rest, hhead⟩ := hl.head
  exact hs.history.logs l (by rw [hhead]; exact List.mem_cons_self)

/-- The payload at the head of the queue under the next counter. -/
theorem next_carries {l : SessionLog} {payload frame : List UInt8} {rest : List (List UInt8)}
    (hl : Current s l) (htx : s.tx = payload :: rest)
    (hroom : s.session.txCounter < 0xFFFFFFFFFFFFFFFE)
    (hframe : dataFrame k s.session.keyDeviceToClient (s.session.txCounter+1) payload =
      some frame) : Carries k l l.sent.length frame := by
  obtain ⟨done, hqueued, hlength⟩ := hl.queued
  have hsmall : s.session.txCounter.toNat < 0xFFFFFFFFFFFFFFFE := UInt64.lt_iff_toNat_lt.mp hroom
  have hcounter : UInt64.ofNat (l.sent.length+1) = s.session.txCounter+1 := by
    rw [hl.counter, UInt64.ofNat_add, UInt64.ofNat_toNat]
    rfl
  refine ⟨by rw [hl.counter]; omega, payload, ?_, ?_⟩
  · rw [hqueued, htx, ← hlength, List.getElem?_append_right le_rfl, Nat.sub_self]
    rfl
  · rw [hcounter, hl.key]
    exact hframe

theorem offered_safe {l : SessionLog} {frame : List UInt8} (hl : LogSafe k l)
    (hframe : ∃ i, Carries k l i frame) :
    LogSafe k { l with offered := l.offered ++ [frame] } := by
  refine ⟨hl.sent, fun f hf => ?_, fun f hf => List.mem_append_left _ (hl.accepted f hf),
    hl.returned⟩
  rcases List.mem_append.mp hf with hf | hf
  · exact hl.offered f hf
  · rw [List.mem_singleton.mp hf]
    exact hframe

theorem sent_safe {l : SessionLog} {frame : List UInt8} (hl : LogSafe k l)
    (hframe : Carries k l l.sent.length frame) (hoffered : frame ∈ l.offered) :
    LogSafe k { l with sent := l.sent ++ [frame] } := by
  refine ⟨fun i f hi => ?_, hl.offered, fun f hf => ?_, hl.returned⟩
  · have hget : (l.sent ++ [frame])[i]? = some f := hi
    rcases Nat.lt_or_ge i l.sent.length with hlt | hge
    · rw [List.getElem?_append_left hlt] at hget
      exact hl.sent i f hget
    · rw [List.getElem?_append_right hge, List.getElem?_singleton] at hget
      split_ifs at hget with hzero
      obtain rfl : i = l.sent.length := by omega
      obtain rfl := Option.some.inj hget
      exact hframe
  · rcases List.mem_append.mp hf with hf | hf
    · exact hl.accepted f hf
    · rw [List.mem_singleton.mp hf]
      exact hoffered

theorem queued_safe {l : SessionLog} (data : List UInt8) (hl : LogSafe k l) :
    LogSafe k { l with queued := l.queued ++ [data] } := by
  have hkeeps : ∀ i f, Carries k l i f → Carries k { l with queued := l.queued ++ [data] } i f := by
    rintro i f ⟨hroom, payload, hget, hframe⟩
    obtain ⟨hlt, _⟩ := List.getElem?_eq_some_iff.mp hget
    exact ⟨hroom, payload, (List.getElem?_append_left hlt).trans hget, hframe⟩
  refine ⟨fun i f hi => hkeeps i f (hl.sent i f hi), fun f hf => ?_, hl.accepted, hl.returned⟩
  obtain ⟨i, hi⟩ := hl.offered f hf
  exact ⟨i, hkeeps i f hi⟩

/-- In an authenticated session only its own log and the staged frame count. -/
theorem core_authenticated {l : SessionLog} (hstate : s.session.state = .authenticated)
    (hsynced : s.session.txCounter = s.txCounter) (hhistory : HistorySafe k s.session.history)
    (hcurrent : Current s l) (hstaged : s.notificationPending = true →
      ∀ n, s.staged = some n → n = s.session.history.sessions.length) : Core k s where
  synced := hsynced
  history := hhistory
  resting h := absurd hstate h
  idle h := by cases hstate.symm.trans h
  current _ := ⟨l, hcurrent⟩
  unstaged h := by cases hstate.symm.trans h
  staged _ := hstaged

theorem flushControl_core (hs : Core k s) : Core k (flushControl r s).2 := by
  unfold flushControl
  split_ifs
  · exact ⟨hs.synced, hs.history, hs.resting, hs.idle,
      fun h => (hs.current h).imp fun _ hl => ⟨hl.1, hl.2, hl.3, hl.4, hl.5⟩,
      fun _ _ => rfl, fun _ _ n hn => by cases hn⟩
  · exact hs
  · exact closed_core hs.history

theorem flushControl_follows (s : Runtime) : Follows s (flushControl r s).2 := by
  unfold flushControl
  split_ifs
  · exact .inl ⟨rfl, rfl⟩
  · exact .inl ⟨rfl, rfl⟩
  · exact closed_follows _ _

theorem flushData_core {payload : List UInt8} {rest : List (List UInt8)} (hs : Core k s)
    (htx : s.tx = payload :: rest) : Core k (flushData b k r payload rest s).2 := by
  unfold flushData
  cases hbuilt : buildData b k payload s.session with
  | error built =>
    dsimp only
    split_ifs
    · exact closed_core hs.history
    · exact ⟨hs.synced, hs.history, hs.resting, hs.idle,
        fun h => (hs.current h).imp fun _ hl => ⟨hl.1, hl.2, hl.3, hl.4, hl.5⟩, hs.unstaged,
        hs.staged⟩
  | ok built =>
    obtain ⟨frame, session⟩ := built
    obtain ⟨hstate, hroom, hframe, rfl⟩ := buildData_ok hbuilt
    obtain ⟨l, hl⟩ := hs.current hstate
    obtain ⟨others, hhead⟩ := hl.head
    have hcarries := next_carries hl htx hroom hframe
    have hoffered := offered_safe (current_safe hs hl) ⟨_, hcarries⟩
    have hrecord := record_current (fun l => { l with offered := l.offered ++ [frame] })
      { s.session with txCounter := s.session.txCounter+1 } hstate hhead
    have hhistory := history_current hs.history hhead hoffered
    dsimp only
    by_cases hagain : r.notify = .eagain
    · rw [if_pos hagain]
      refine core_authenticated hstate rfl (hrecord ▸ hhistory)
        ⟨⟨others, congrArg History.sessions hrecord⟩, hl.key, ?_, hl.queued, hl.waiting⟩ ?_
      · rw [← hs.synced]
        exact hl.counter
      · intro hpending n hn
        rw [hs.staged hstate hpending n hn, hhead, hrecord]
        rfl
    rw [if_neg hagain]
    by_cases hok : r.notify ≠ .ok
    · rw [if_pos hok]
      exact closed_core (hrecord ▸ hhistory)
    rw [if_neg hok]
    have hsent := sent_safe hoffered hcarries (List.mem_append_right _ List.mem_cons_self)
    have hhead' := congrArg History.sessions hrecord
    have hrecord' := record_current (fun l => { l with sent := l.sent ++ [frame] })
      (record (fun l => { l with offered := l.offered ++ [frame] })
        { s.session with txCounter := s.session.txCounter+1 }) hstate hhead'
    have hhistory' := history_current (hrecord ▸ hhistory) hhead' hsent
    obtain ⟨done, hqueued, hlength⟩ := hl.queued
    refine core_authenticated hstate rfl (hrecord' ▸ hhistory')
      ⟨⟨others, congrArg History.sessions hrecord'⟩, hl.key, ?_,
        ⟨done ++ [payload], ?_, ?_⟩, hl.waiting⟩ ?_
    · have hroom' : s.session.txCounter.toNat < 0xFFFFFFFFFFFFFFFE :=
        UInt64.lt_iff_toNat_lt.mp hroom
      show (l.sent ++ [frame]).length = (s.session.txCounter+1).toNat
      rw [List.length_append, hl.counter, UInt64.toNat_add]
      have hone : (1 : UInt64).toNat = 1 := rfl
      simp only [List.length_singleton, hone]
      omega
    · show l.queued = done ++ [payload] ++ rest
      rw [hqueued, htx, List.append_assoc]
      rfl
    · show (done ++ [payload]).length = (l.sent ++ [frame]).length
      rw [List.length_append, List.length_append, hlength]
      rfl
    · intro _ n hn
      rw [← Option.some.inj hn, hrecord', hrecord]
      rfl

theorem flushData_follows (payload : List UInt8) (rest : List (List UInt8)) (s : Runtime) :
    Follows s (flushData b k r payload rest s).2 := by
  unfold flushData
  cases hbuilt : buildData b k payload s.session with
  | error built =>
    dsimp only
    split_ifs
    · exact closed_follows _ _
    · exact .inl ⟨rfl, rfl⟩
  | ok built =>
    obtain ⟨frame, session⟩ := built
    obtain ⟨_, _, _, rfl⟩ := buildData_ok hbuilt
    dsimp only
    split_ifs
    · exact .inl ⟨rfl, rfl⟩
    · exact closed_follows _ _
    · exact .inl ⟨rfl, rfl⟩

theorem flushTx_core (hs : Core k s) : Core k (flushTx b k r s).2 := by
  unfold flushTx
  by_cases hpending : s.notificationPending = true
  · rw [if_pos hpending]
    exact hs
  rw [if_neg hpending]
  by_cases hcontrol : s.controlFrame ≠ []
  · rw [if_pos hcontrol]
    exact flushControl_core hs
  rw [if_neg hcontrol]
  cases htx : s.tx with
  | nil => exact hs
  | cons payload rest => exact flushData_core hs htx

theorem flushTx_follows (s : Runtime) : Follows s (flushTx b k r s).2 := by
  unfold flushTx
  by_cases hpending : s.notificationPending = true
  · rw [if_pos hpending]
    exact .inl ⟨rfl, rfl⟩
  rw [if_neg hpending]
  by_cases hcontrol : s.controlFrame ≠ []
  · rw [if_pos hcontrol]
    exact flushControl_follows s
  rw [if_neg hcontrol]
  cases s.tx with
  | nil => exact .inl ⟨rfl, rfl⟩
  | cons payload rest => exact flushData_follows payload rest s

theorem flushTx_safe (hs : Safe k s) : Safe k (flushTx b k r s).2 :=
  ⟨flushTx_core hs.core, agreed_follows (flushTx_follows s) hs.agreed⟩

theorem sendAuthorized_state {expected : Option (UInt32 × UInt64)}
    (h : sendAuthorized expected s = true) : s.state = .authenticated := by
  cases expected with
  | none => exact of_decide_eq_true h
  | some e =>
    have hmatches := of_decide_eq_true h
    exact hmatches.1

theorem queue_safe (data : List UInt8) (hauthorized : s.state = .authenticated) (hs : Safe k s) :
    Safe k { s with
      tx := s.tx ++ [data]
      session := record (fun l => { l with queued := l.queued ++ [data] }) s.session } := by
  have hstate := hs.agreed.mp hauthorized
  obtain ⟨l, hl⟩ := hs.core.current hstate
  obtain ⟨others, hhead⟩ := hl.head
  obtain ⟨done, hqueued, hlength⟩ := hl.queued
  have hrecord := record_current (fun l => { l with queued := l.queued ++ [data] })
    _ hstate hhead
  have hhistory := history_current hs.core.history hhead
    (queued_safe data (current_safe hs.core hl))
  refine ⟨core_authenticated hstate hs.core.synced (hrecord ▸ hhistory)
    ⟨⟨others, congrArg History.sessions hrecord⟩, hl.key, hl.counter,
      ⟨done, ?_, hlength⟩, hl.waiting⟩ ?_, hs.agreed⟩
  · show l.queued ++ [data] = done ++ (s.tx ++ [data])
    rw [hqueued, List.append_assoc]
  · intro hpending n hn
    rw [hs.core.staged hstate hpending n hn, hhead, hrecord]
    rfl

theorem streamSend_safe (data : List UInt8) (expected : Option (UInt32 × UInt64))
    (hs : Safe k s) : Safe k (streamSend b k r data expected s).2 := by
  unfold streamSend
  dsimp only
  by_cases hdata : data.length = 0 ∨ b.maxPayload < data.length
  · rw [if_pos hdata]
    exact hs
  rw [if_neg hdata]
  by_cases hbusy : s.operation.isSome = true
  · rw [if_pos hbusy]
    exact hs
  rw [if_neg hbusy]
  by_cases hinit : ¬ s.initialized = true
  · rw [if_pos hinit]
    exact hs
  rw [if_neg hinit]
  by_cases hauthorized : ¬ sendAuthorized expected s = true
  · rw [if_pos hauthorized]
    exact hs
  rw [if_neg hauthorized]
  split_ifs
  · exact hs
  · exact ⟨⟨hs.core.1, hs.core.2, hs.core.3, hs.core.4, fun h => (hs.core.current h).imp
      fun _ hl => ⟨hl.1, hl.2, hl.3, hl.4, hl.5⟩, hs.core.6, hs.core.7⟩, hs.agreed⟩
  · exact flushTx_safe (queue_safe data (sendAuthorized_state (not_not.mp hauthorized)) hs)
  · exact flushTx_safe (queue_safe data (sendAuthorized_state (not_not.mp hauthorized)) hs)

/-- What is handed out was received in the session it is handed out in. -/
theorem hand_safe {payload : StreamPayload} {rest : List StreamPayload} (hrx : s.rx = payload :: rest)
    (hs : Safe k s) : Safe k { s with
      rx := rest
      session := record (fun l =>
        { l with returned := l.returned ++ [(payload.info.counter, payload.data)] }) s.session } := by
  have hstate : s.session.state = .authenticated := by
    by_contra hother
    have hempty := (hs.core.resting hother).2.2
    rw [hrx] at hempty
    cases hempty
  obtain ⟨l, hl⟩ := hs.core.current hstate
  obtain ⟨others, hhead⟩ := hl.head
  have hrecord := record_current (fun l =>
    { l with returned := l.returned ++ [(payload.info.counter, payload.data)] }) _ hstate hhead
  have hwaiting : (l.returned ++ [(payload.info.counter, payload.data)] ++
      rest.map fun p => (p.info.counter, p.data)).Sublist l.received := by
    have hold := hl.waiting
    rw [hrx] at hold
    rw [List.append_assoc]
    exact hold
  have hlog := current_safe hs.core hl
  have hreturned : LogSafe k
      { l with returned := l.returned ++ [(payload.info.counter, payload.data)] } :=
    ⟨hlog.sent, hlog.offered, hlog.accepted, (List.sublist_append_left _ _).trans hwaiting⟩
  have hhistory := history_current hs.core.history hhead hreturned
  refine ⟨core_authenticated hstate hs.core.synced (hrecord ▸ hhistory)
    ⟨⟨others, congrArg History.sessions hrecord⟩, hl.key, hl.counter, hl.queued, hwaiting⟩ ?_,
    hs.agreed⟩
  intro hpending n hn
  rw [hs.core.staged hstate hpending n hn, hhead, hrecord]
  rfl

/-- A change that neither the queues nor the session take part in. -/
theorem safe_congr (hstate : s'.state = s.state) (hcounter : s'.txCounter = s.txCounter)
    (hsession : s'.session = s.session) (htx : s'.tx = s.tx) (hrx : s'.rx = s.rx)
    (hpending : s'.notificationPending = true → s.notificationPending = true)
    (hstaged : s'.staged = s.staged) (hs : Safe k s) : Safe k s' := by
  refine ⟨⟨?_, ?_, ?_, ?_, fun h => ?_, fun h hp => ?_, fun h hp => ?_⟩, ?_⟩
  · rw [hsession, hcounter]
    exact hs.core.synced
  · rw [hsession]
    exact hs.core.history
  · rw [hsession, htx, hrx]
    exact hs.core.resting
  · rw [hsession, hstate]
    exact hs.core.idle
  · rw [hsession] at h
    obtain ⟨l, hl⟩ := hs.core.current h
    refine ⟨l, ?_, ?_, ?_, ?_, ?_⟩
    · rw [hsession]
      exact hl.head
    · rw [hsession]
      exact hl.key
    · rw [hsession]
      exact hl.counter
    · rw [htx]
      exact hl.queued
    · rw [hrx]
      exact hl.waiting
  · rw [hsession] at h
    rw [hstaged]
    exact hs.core.unstaged h (hpending hp)
  · rw [hsession] at h
    rw [hstaged, hsession]
    exact hs.core.staged h (hpending hp)
  · rw [Agreed, hstate, hsession]
    exact hs.agreed

theorem streamReceive_safe (capacity : ℕ) (expected : Option (UInt32 × UInt64))
    (hs : Safe k s) : Safe k (streamReceive capacity expected s).2 := by
  unfold streamReceive
  by_cases hcapacity : capacity = 0
  · rw [if_pos hcapacity]
    exact hs
  rw [if_neg hcapacity]
  by_cases hbusy : s.operation.isSome = true
  · rw [if_pos hbusy]
    exact hs
  rw [if_neg hbusy]
  by_cases hinit : ¬ s.initialized = true
  · rw [if_pos hinit]
    exact hs
  rw [if_neg hinit]
  by_cases hauthorized : ¬ receiveAuthorized expected s = true
  · rw [if_pos hauthorized]
    exact hs
  rw [if_neg hauthorized]
  by_cases hoverflow : s.rxOverflowPending = true
  · rw [if_pos hoverflow]
    exact safe_congr (s := s) rfl rfl rfl rfl rfl id rfl hs
  rw [if_neg hoverflow]
  cases hrx : s.rx with
  | nil => exact hs
  | cons payload rest =>
    dsimp only
    split_ifs
    · exact hs
    · exact hand_safe hrx hs
    · exact hs

theorem commit_safe (capabilities : UInt16) (idleTimeoutMs generation : UInt32) (hs : Safe k s) :
    Safe k (commit capabilities idleTimeoutMs generation s) := by
  unfold commit
  exact safe_congr (s := closeSession _) rfl rfl rfl rfl rfl id rfl (closed_safe hs.core.history)

theorem rollBack_safe (published : Status) (hs : Safe k s) : Safe k (rollBack published s) :=
  idle_safe rfl rfl rfl rfl rfl (by simp [rollBack]) hs.core.history

theorem tearDown_safe (unpublished : Status) (hs : Safe k s) :
    Safe k (tearDown unpublished s) := by
  obtain ⟨hsession, hcounter, htx, hrx, _⟩ := closeSession_fields { s with state := .idle }
  refine idle_safe rfl rfl hcounter htx hrx (by simp [tearDown]) ?_
  show HistorySafe k (closeSession { s with state := .idle }).session.history
  rw [hsession]
  exact hs.core.history

theorem resume_safe (hs : Safe k s) : Safe k (resume r s).2 := by
  unfold resume
  cases hoperation : s.operation with
  | none => exact hs
  | some operation =>
    cases operation with
    | publishing capabilities idleTimeoutMs generation =>
      dsimp only
      split_ifs
      · exact commit_safe capabilities idleTimeoutMs generation hs
      · exact safe_congr (s := s) rfl rfl rfl rfl rfl id rfl hs
    | rollingBack published => exact rollBack_safe published hs
    | unpublishing => exact tearDown_safe r.unpublished hs

theorem streamInitialize_safe (config : StreamConfig) (hs : Safe k s) :
    Safe k (streamInitialize b config r s).2 := by
  have hcapable : Safe k (if s.operation.isSome then (some Status.ebusy, s)
      else if s.initialized then
        (some .ok, if s.generation ≠ r.ble.generation then
          closeSession (unlink { s with generation := r.ble.generation }) else s)
      else (none, { s with operation := some (.publishing config.capabilities
        (if config.idleTimeoutMs ≠ 0 then config.idleTimeoutMs else b.sessionIdleTimeoutMs)
        r.ble.generation) })).2 := by
    by_cases hbusy : s.operation.isSome = true
    · rw [if_pos hbusy]
      exact hs
    rw [if_neg hbusy]
    by_cases hinit : s.initialized = true
    · rw [if_pos hinit]
      dsimp only
      split_ifs
      · exact closed_safe (s := unlink _) hs.core.history
      · exact hs
    · rw [if_neg hinit]
      exact safe_congr (s := s) rfl rfl rfl rfl rfl id rfl hs
  unfold streamInitialize
  by_cases hstatus : r.ble.status ≠ .ok
  · rw [if_pos hstatus]
    exact hs
  rw [if_neg hstatus]
  by_cases hstopped : r.ble.state = .uninitialized
  · rw [if_pos hstopped]
    exact hs
  rw [if_neg hstopped]
  by_cases hfailed : r.ble.state = .failed ∨ r.ble.generation = 0
  · rw [if_pos hfailed]
    exact hs
  rw [if_neg hfailed]
  by_cases hunsupported : ¬ r.streamCapable = true
  · rw [if_pos hunsupported]
    exact hs
  rw [if_neg hunsupported]
  exact hcapable

theorem deinitializeStream_safe (hs : Safe k s) : Safe k (deinitializeStream s).2 := by
  unfold deinitializeStream
  split_ifs
  · exact hs
  · exact safe_congr (s := s) rfl rfl rfl rfl rfl id rfl hs
  · exact hs

theorem setSecret_safe (secret : List UInt8) (hs : Safe k s) :
    Safe k (streamSetSecret secret s).2 := by
  have hclosed : Safe k (closeSession s) := closed_safe hs.core.history
  obtain ⟨hsession, hcounter, htx, hrx, hstate⟩ := closeSession_fields s
  unfold streamSetSecret
  split_ifs
  · exact hs
  · exact hs
  · unfold setSecret
    dsimp only
    split_ifs
    refine idle_safe rfl rfl hcounter htx hrx hstate ?_
    show HistorySafe k (closeSession s).session.history
    exact hclosed.core.history
  · exact hs

theorem clearSecret_safe (hs : Safe k s) : Safe k (clearSecret s).2 := by
  unfold clearSecret
  split_ifs
  · exact hs
  · exact closed_safe (s := { s with session := _ }) hs.core.history
  · exact hs

theorem streamCloseSession_safe (reason : CloseReason) (hs : Safe k s) :
    Safe k (streamCloseSession reason s).2 := by
  unfold streamCloseSession
  split_ifs
  · exact hs
  · exact closed_safe (s := { s with authFailures := _ }) hs.core.history
  · exact closed_safe (s := { s with replayRejections := _ }) hs.core.history
  · exact closed_safe hs.core.history
  · exact hs

theorem backoffActive_safe (hs : Safe k s) : Safe k (backoffActive r s).2 := by
  unfold backoffActive
  by_cases hstate : s.state ≠ .backoff
  · rw [if_pos hstate]
    exact hs
  rw [if_neg hstate]
  rw [not_not] at hstate
  split_ifs
  · have hresting : restingState s ≠ .authenticated := by
      unfold restingState
      split_ifs <;> decide
    have hother : s.session.state ≠ .authenticated := by
      intro h
      have hauthenticated := hs.agreed.mpr h
      rw [hstate] at hauthenticated
      cases hauthenticated
    refine ⟨⟨hs.core.1, hs.core.2, hs.core.3, fun _ => hresting, fun h => absurd h hother,
      hs.core.6, hs.core.7⟩, fun h => absurd h hresting, fun h => absurd h hother⟩
  · exact hs

theorem onSubscription_safe (subscribed : Bool) (nativeConnection mtu : UInt16) (hs : Safe k s) :
    Safe k (onSubscription subscribed nativeConnection mtu s) := by
  unfold onSubscription
  dsimp only
  split_ifs with hsubscribed hidle
  · have hother : s.session.state ≠ .authenticated := by
      intro h
      have hauthenticated := hs.agreed.mpr h
      rw [show s.state = .idle from hidle] at hauthenticated
      cases hauthenticated
    exact ⟨⟨hs.core.1, hs.core.2, hs.core.3, fun _ h => (by cases h), fun h => absurd h hother,
      hs.core.6, hs.core.7⟩, fun h => (by cases h), fun h => absurd h hother⟩
  · exact safe_congr (s := s) rfl rfl rfl rfl rfl id rfl hs
  · refine closed_safe ?_
    exact hs.core.history

theorem noteResult_session (frame : List UInt8) (status : Status) (result : Result)
    (s : Runtime) : (noteResult b r frame status result s).session = s.session := by
  unfold noteResult registerAuthFailure
  dsimp only
  split_ifs <;> rfl

theorem refused_safe (frame : List UInt8) (status : Status) (reason : CloseReason)
    (hs : HistorySafe k s.session.history) :
    Safe k (followSession (closeWith reason) (queueReceived b (closeWith reason)
      (respond b k r (closeWith reason) (noteResult b r frame status (closeWith reason) s)))) := by
  show Safe k (closeSession (noteResult b r frame status (closeWith reason) s))
  apply closed_safe
  rw [noteResult_session]
  exact hs

theorem followSession_safe {result : Result} (hclose : result.close = none) (hs : Core k s) :
    Safe k (followSession result s) := by
  unfold followSession
  rw [hclose]
  simp only [Option.isSome_none, Bool.false_eq_true, if_false]
  cases hsession : s.session.state with
  | authenticated =>
    obtain ⟨l, hl⟩ := hs.current hsession
    rw [if_pos rfl]
    exact ⟨core_authenticated hsession hs.synced hs.history ⟨hl.1, hl.2, hl.3, hl.4, hl.5⟩
      (hs.staged hsession), fun _ => hsession, fun _ => rfl⟩
  | handshaking =>
    rw [if_neg (by decide), if_pos rfl]
    have hother : s.session.state ≠ .authenticated := by
      rw [hsession]
      decide
    exact ⟨⟨hs.1, hs.2, hs.3, fun _ h => (by cases h), fun h => absurd h hother, hs.6, hs.7⟩,
      fun h => (by cases h), fun h => absurd h hother⟩
  | idle =>
    rw [if_neg (by decide), if_neg (by decide)]
    have hother : s.session.state ≠ .authenticated := by
      rw [hsession]
      decide
    exact ⟨hs, fun h => absurd h (hs.idle hsession), fun h => absurd h hother⟩

/-- A response follows the session object, whatever becomes of it. -/
theorem answered_safe {response : List UInt8} (hanswer : response ≠ []) (hs : Core k s) :
    Safe k (followSession ⟨response, [], none⟩ (queueReceived b ⟨response, [], none⟩
      (respond b k r ⟨response, [], none⟩ s))) := by
  refine followSession_safe rfl ?_
  rw [queueReceived, if_pos rfl, respond, if_neg hanswer]
  exact flushTx_core ⟨hs.1, hs.2, hs.3, hs.4,
    fun h => (hs.current h).imp fun _ hl => ⟨hl.1, hl.2, hl.3, hl.4, hl.5⟩, hs.6, hs.7⟩

theorem noteResult_ok {frame : List UInt8} {result : Result} (hclose : result.close = none)
    (hother : ¬ (isHello frame = true ∧ s.session.state = .handshaking)) :
    noteResult b r frame .ok result s = s := by
  simp only [noteResult, hclose, reduceCtorEq, true_and, if_false]
  exact if_neg hother

/-- A new hello clears the queues of the session before it. -/
theorem hello_safe {frame response : List UInt8} {session : Session}
    (hhello : isHello frame = true) (hstate : session.state = .handshaking)
    (hcounter : session.txCounter = 0) (hhistory : HistorySafe k session.history)
    (hanswer : response ≠ []) (hsession : s.session = session)
    (hpending : s.notificationPending = false) :
    Safe k (followSession ⟨response, [], none⟩ (queueReceived b ⟨response, [], none⟩
      (respond b k r ⟨response, [], none⟩
        (noteResult b r frame .ok ⟨response, [], none⟩ s)))) := by
  have hother : session.state ≠ .authenticated := by
    rw [hstate]
    decide
  subst hsession
  refine answered_safe hanswer ?_
  have hnoted : noteResult b r frame .ok ⟨response, [], none⟩ s =
      { clearPayloadQueues s with negotiatedCapabilities := 0 } := by
    simp only [noteResult, reduceCtorEq, true_and, if_false]
    exact if_pos ⟨hhello, hstate⟩
  rw [hnoted]
  exact ⟨hcounter, hhistory, fun _ => ⟨hcounter, rfl, rfl⟩,
    fun h => (by cases hstate.symm.trans h), fun h => absurd h hother,
    fun _ h => (by cases hpending.symm.trans h), fun h => absurd h hother⟩

/-- A new session starts with empty queues and counts from zero. -/
theorem authenticated_core {deviceToClient clientToDevice : List UInt8} (hs : Core k s)
    (hstate : s.session.state = .handshaking) :
    Core k { s with session := authenticate deviceToClient clientToDevice s.session } := by
  have hother : s.session.state ≠ .authenticated := by
    rw [hstate]
    decide
  obtain ⟨hcounter, htx, hrx⟩ := hs.resting hother
  have hlog : LogSafe k (emptyLog deviceToClient) :=
    ⟨fun i f hf => by simp [emptyLog] at hf, fun f hf => absurd hf List.not_mem_nil,
      fun f hf => absurd hf List.not_mem_nil, List.Sublist.refl _⟩
  refine core_authenticated rfl (hcounter.symm.trans hs.synced) ⟨hs.history.outside, ?_⟩
    ⟨⟨s.session.history.sessions, rfl⟩, rfl, rfl, ⟨[], ?_, rfl⟩, ?_⟩ ?_
  · intro l hl
    rcases List.mem_cons.mp hl with rfl | hl
    · exact hlog
    · exact hs.history.logs l hl
  · show [] = [] ++ s.tx
    rw [htx]
    rfl
  · show ([] ++ s.rx.map _).Sublist []
    rw [hrx]
    exact List.Sublist.refl _
  · intro hpending n hn
    cases (hs.unstaged hstate hpending).symm.trans hn

/-- A payload received in the session waits in its queue, or is dropped. -/
theorem received_core {counter : UInt64} {payload : List UInt8} {result : Result}
    (hs : Core k s) (hpayload : result.payload = payload) (htext : payload ≠ [])
    (hstate : s.session.state = .authenticated) :
    Core k (queueReceived b result { s with
      session := record (fun l => { l with received := l.received ++ [(counter, payload)] })
        { s.session with rxCounter := counter } }) := by
  obtain ⟨l, hl⟩ := hs.current hstate
  obtain ⟨others, hhead⟩ := hl.head
  have hlog := current_safe hs hl
  have hrecord := record_current
    (fun l => { l with received := l.received ++ [(counter, payload)] })
    { s.session with rxCounter := counter } hstate hhead
  have hreceived : LogSafe k { l with received := l.received ++ [(counter, payload)] } :=
    ⟨hlog.sent, hlog.offered, hlog.accepted,
      hlog.returned.trans (List.sublist_append_left _ _)⟩
  have hhistory := history_current hs.history hhead hreceived
  have hstaged : s.notificationPending = true → ∀ n, s.staged = some n →
      n = (record (fun l => { l with received := l.received ++ [(counter, payload)] })
        { s.session with rxCounter := counter }).history.sessions.length := by
    intro hpending n hn
    rw [hs.staged hstate hpending n hn, hhead, hrecord]
    rfl
  rw [queueReceived, hpayload, if_neg htext]
  dsimp only
  split_ifs
  · exact core_authenticated hstate hs.synced (hrecord ▸ hhistory)
      ⟨⟨others, congrArg History.sessions hrecord⟩, hl.key, hl.counter, hl.queued,
        hl.waiting.trans (List.sublist_append_left _ _)⟩ hstaged
  · refine core_authenticated hstate hs.synced (hrecord ▸ hhistory)
      ⟨⟨others, congrArg History.sessions hrecord⟩, hl.key, hl.counter, hl.queued, ?_⟩ hstaged
    have hlast : (List.map (fun p : StreamPayload => (p.info.counter, p.data))
        [⟨payload, ⟨s.generation, activeSessionId s, counter⟩⟩]) = [(counter, payload)] := rfl
    show (l.returned ++ (s.rx ++ _).map fun p => (p.info.counter, p.data)).Sublist
      (l.received ++ [(counter, payload)])
    rw [List.map_append, ← List.append_assoc]
    exact hl.waiting.append (List.Sublist.refl _)

theorem acceptFrame_safe {frame : List UInt8}
    (hpending : isHello frame = true → s.notificationPending = false) (hs : Safe k s) :
    Safe k (acceptFrame b k r frame s) := by
  have hhandled : Handled frame s.session (handleFrame b k r.entropy frame s.session) :=
    handleFrame_handled
  have hnoted : Safe k { s with lastStatus := .ok, lastActivityMs := r.millis .activity } :=
    safe_congr (s := s) rfl rfl rfl rfl rfl id rfl hs
  unfold acceptFrame
  generalize handleFrame b k r.entropy frame s.session = handled at hhandled
  cases hhandled with
  | refused status reason dropped =>
    refine refused_safe frame status reason ?_
    rcases dropped with rfl | rfl
    · exact hs.core.history
    · exact hs.core.history
  | hello hello state counter history answer =>
    have hhello : isHello frame = true := decide_eq_true hello
    exact hello_safe hhello state counter (history ▸ hs.core.history) answer rfl
      (hpending hhello)
  | authenticated deviceToClient clientToDevice state answer =>
    dsimp only
    rw [noteResult_ok rfl fun h => by cases h.2]
    exact answered_safe answer (authenticated_core hnoted.core state)
  | data counter state next text =>
    dsimp only
    rw [noteResult_ok rfl fun h => by cases state.symm.trans h.2]
    refine followSession_safe rfl ?_
    rw [respond, if_pos rfl]
    exact received_core hnoted.core rfl text state

theorem checkMtu_safe {frame : List UInt8} (mtu : UInt16)
    (hpending : isHello frame = true → s.notificationPending = false) (hs : Safe k s) :
    Safe k (checkMtu b k r frame mtu s) := by
  unfold checkMtu
  split_ifs
  · exact safe_congr (s := s) rfl rfl rfl rfl rfl id rfl hs
  · exact acceptFrame_safe hpending hs

theorem onWrite_safe (frame : List UInt8) (mtu : UInt16) (hs : Safe k s) :
    Safe k (onWrite b k r frame mtu s) := by
  have hactive : Safe k (backoffActive r s).2 := backoffActive_safe hs
  unfold onWrite
  generalize backoffActive r s = active at hactive
  obtain ⟨active, s⟩ := active
  dsimp only at hactive ⊢
  by_cases hbackoff : active = true
  · rw [if_pos hbackoff]
    exact safe_congr (s := s) rfl rfl rfl rfl rfl id rfl hactive
  rw [if_neg hbackoff]
  by_cases hcontrol : s.controlFrame ≠ []
  · rw [if_pos hcontrol]
    exact safe_congr (s := s) rfl rfl rfl rfl rfl id rfl hactive
  rw [if_neg hcontrol]
  by_cases hhello : isHello frame = true ∧ s.notificationPending = true
  · rw [if_pos hhello]
    by_cases hdiscard : r.discard ≠ .ok
    · rw [if_pos hdiscard]
      split_ifs
      · refine closed_safe ?_
        exact hactive.core.history
      · exact safe_congr (s := s) rfl rfl rfl rfl rfl id rfl hactive
    · rw [if_neg hdiscard]
      exact checkMtu_safe mtu (fun _ => rfl)
        (safe_congr (s := s) rfl rfl rfl rfl rfl (fun h => by cases h) rfl hactive)
  · rw [if_neg hhello]
    exact checkMtu_safe mtu (fun h => Bool.eq_false_of_not_eq_true fun hp => hhello ⟨h, hp⟩)
      hactive

theorem onCanSend_safe (status : Status) (hs : Safe k s) : Safe k (onCanSend b k r status s) := by
  have hsent : Safe k { s with notificationPending := false } :=
    safe_congr (s := s) rfl rfl rfl rfl rfl (fun h => by cases h) rfl hs
  unfold onCanSend
  dsimp only
  split_ifs
  · exact flushTx_safe hsent
  · refine closed_safe ?_
    exact hs.core.history

theorem onBackendEvent_safe (event : BackendEvent) (hs : Safe k s) :
    Safe k (onBackendEvent b k r event s) := by
  unfold onBackendEvent
  by_cases hignored : ¬ s.initialized = true ∨ s.operation.isSome = true
  · rw [if_pos hignored]
    exact hs
  rw [if_neg hignored]
  cases event with
  | subscription subscribed nativeConnection mtu =>
    exact onSubscription_safe subscribed nativeConnection mtu hs
  | write frame mtu => exact onWrite_safe frame mtu hs
  | canSend status => exact onCanSend_safe status hs
  | mtuUpdated nativeConnection mtu =>
    dsimp only
    split_ifs
    · exact safe_congr (s := s) rfl rfl rfl rfl rfl id rfl hs
    · exact hs

theorem onPoll_safe (hs : Safe k s) : Safe k (onPoll b k r s) := by
  have hactive : Safe k (backoffActive r s).2 := backoffActive_safe hs
  have hexpire : Safe k (expireSession r (backoffActive r s).2) := by
    unfold expireSession
    split_ifs
    · refine closed_safe ?_
      exact hactive.core.history
    · exact hactive
  unfold onPoll
  dsimp only
  split_ifs
  · exact hs
  · exact flushTx_safe hexpire
  · exact hexpire

theorem onLinkLost_safe (generation : UInt32) (hs : Safe k s) :
    Safe k (onLinkLost generation s) := by
  unfold onLinkLost
  split_ifs
  · refine closed_safe ?_
    exact hs.core.history
  · exact hs

theorem step_safe (call : Call) (hs : Safe k s) : Safe k (step b k r call s) := by
  cases call with
  | start config => exact streamInitialize_safe config hs
  | deinitializeStream => exact deinitializeStream_safe hs
  | resume => exact resume_safe hs
  | setSecret secret => exact setSecret_safe secret hs
  | clearSecret => exact clearSecret_safe hs
  | send data expected => exact streamSend_safe data expected hs
  | receive capacity expected => exact streamReceive_safe capacity expected hs
  | closeSession reason => exact streamCloseSession_safe reason hs
  | backendEvent event => exact onBackendEvent_safe event hs
  | poll => exact onPoll_safe hs
  | linkLost generation => exact onLinkLost_safe generation hs

theorem boot_safe (k : Crypto) : Safe k boot :=
  idle_safe rfl rfl rfl rfl rfl (by simp [boot]) ⟨rfl, fun l hl => absurd hl List.not_mem_nil⟩

theorem run_safe {calls : List (Call × Replies)} (hs : Safe k s) : Safe k (run b k calls s) := by
  induction calls generalizing s with
  | nil => exact hs
  | cons call rest ih => exact ih (step_safe call.1 hs)

theorem carries_counter {l : SessionLog} {i : ℕ} {frame : List UInt8} (h : Carries k l i frame) :
    (frameCounter frame).toNat = i+1 := by
  obtain ⟨hroom, payload, _, hframe⟩ := h
  rw [dataFrame_counter hframe, UInt64.toNat_ofNat']
  exact Nat.mod_eq_of_lt hroom

/-- Two frames under one counter carry one payload, so they are one frame. -/
theorem carries_unique {l : SessionLog} {i j : ℕ} {frame frame' : List UInt8}
    (h : Carries k l i frame) (h' : Carries k l j frame')
    (hsame : frameCounter frame = frameCounter frame') : frame = frame' := by
  have hindex : i = j := by
    have hi := carries_counter h
    have hj := carries_counter h'
    rw [hsame] at hi
    omega
  subst hindex
  obtain ⟨_, payload, hget, hframe⟩ := h
  obtain ⟨_, payload', hget', hframe'⟩ := h'
  obtain rfl := Option.some.inj (hget.symm.trans hget')
  exact Option.some.inj (hframe.symm.trans hframe')

/-- Over any order of calls and events, the data frames the backend accepts
in a session are sealed under its key and carry the counters 1, 2, 3 and so
on; of the frames offered to it, the refused ones among them, no two that
differ have one counter; and the counters of the runtime and of its session
object agree. -/
theorem counter_discipline (b : Build) (k : Crypto) (calls : List (Call × Replies)) :
    (∀ l ∈ (run b k calls boot).session.history.sessions,
      (∀ i frame, l.sent[i]? = some frame → (frameCounter frame).toNat = i+1) ∧
      (∀ f ∈ l.sent, f ∈ l.offered) ∧
      (∀ f ∈ l.offered, ∃ payload, dataFrame k l.key (frameCounter f) payload = some f) ∧
      ∀ f ∈ l.offered, ∀ f' ∈ l.offered, frameCounter f = frameCounter f' → f = f') ∧
    (run b k calls boot).session.history.outside.offered = [] ∧
    (run b k calls boot).session.history.outside.sent = [] ∧
    (run b k calls boot).session.txCounter = (run b k calls boot).txCounter := by
  have hs : Safe k (run b k calls boot) := run_safe (boot_safe k)
  refine ⟨fun l hl => ?_, ?_, ?_, hs.core.synced⟩
  · have hlog := hs.core.history.logs l hl
    refine ⟨fun i frame hi => carries_counter (hlog.sent i frame hi), hlog.accepted, ?_, ?_⟩
    · intro f hf
      obtain ⟨i, _, payload, _, hframe⟩ := hlog.offered f hf
      exact ⟨payload, by rw [dataFrame_counter hframe]; exact hframe⟩
    · intro f hf f' hf' hsame
      obtain ⟨i, hi⟩ := hlog.offered f hf
      obtain ⟨j, hj⟩ := hlog.offered f' hf'
      exact carries_unique hi hj hsame
  · rw [hs.core.history.outside]
    rfl
  · rw [hs.core.history.outside]
    rfl

/-- Over any order of calls and events, every frame given to the backend in a
session carries a payload that was queued in it, the accepted ones in the
order of the queue; what is handed out in a session was received in it, and
nothing is while there is none, when both queues are empty; a frame the
backend still holds in a session was sent in it; and the runtime shows an
authenticated session exactly when its session object is authenticated. -/
theorem session_isolation (b : Build) (k : Crypto) (calls : List (Call × Replies)) :
    (∀ l ∈ (run b k calls boot).session.history.sessions,
      (∀ i frame, l.sent[i]? = some frame → ∃ payload, l.queued[i]? = some payload ∧
        dataFrame k l.key (UInt64.ofNat (i+1)) payload = some frame) ∧
      (∀ f ∈ l.offered, ∃ i payload, l.queued[i]? = some payload ∧
        dataFrame k l.key (UInt64.ofNat (i+1)) payload = some f) ∧
      l.returned.Sublist l.received) ∧
    (run b k calls boot).session.history.outside = emptyLog [] ∧
    ((run b k calls boot).session.state ≠ .authenticated →
      (run b k calls boot).tx = [] ∧ (run b k calls boot).rx = []) ∧
    ((run b k calls boot).session.state = .authenticated →
      (run b k calls boot).notificationPending = true →
        ∀ n, (run b k calls boot).staged = some n →
          n = (run b k calls boot).session.history.sessions.length) ∧
    ((run b k calls boot).state = .authenticated ↔
      (run b k calls boot).session.state = .authenticated) := by
  have hs : Safe k (run b k calls boot) := run_safe (boot_safe k)
  refine ⟨fun l hl => ?_, hs.core.history.outside, fun h => (hs.core.resting h).2,
    hs.core.staged, hs.agreed⟩
  have hlog := hs.core.history.logs l hl
  refine ⟨fun i frame hi => (hlog.sent i frame hi).2, fun f hf => ?_, hlog.returned⟩
  obtain ⟨i, _, payload, hget, hframe⟩ := hlog.offered f hf
  exact ⟨i, payload, hget, hframe⟩

end JaszczurHal.BleSafety
