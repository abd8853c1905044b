import JaszczurHal.UdpDelivery

/-!
# Senders and progress of a datagram socket

The HAL socket copies the sender of a datagram when a call parses it, but not
when a read goes on to the next datagram by itself. A caller that reads only
what it has parsed stops at an empty datagram.
-/

set_option autoImplicit false

namespace JaszczurHal.UdpProgress
open HalStatus LwipUdp UdpDelivery

variable (l : Limits)

def Named (u : UdpSocket) : Prop := ∀ d, u.udp.currentReceive = some d → u.lastRemote = d.remote

def Reported (g : Log) : Prop :=
  ∀ r ∈ g.reads, ∀ d, g.accepted[r.datagram]? = some d → r.reported = d.remote

/-- Where a parse starts a datagram, its sender has a port and an address, or is
the one that the HAL socket names already. -/
def Announced (u : UdpSocket) : Prop :=
  u.udp.currentReceive = none → ∀ d, (queued l u.udp).head? = some d →
    (d.remote.port ≠ 0 ∧ d.remote.address ≠ 0) ∨ u.lastRemote = d.remote

def Continued (u : UdpSocket) (maxLength : ℕ) : Prop :=
  (∀ d, u.udp.currentReceive = some d → d.payload.length ≤ u.udp.currentOffset+maxLength) →
    ∀ d, (queued l u.udp).head? = some d → u.lastRemote = d.remote

def Clean (s : System) : Event → Prop
  | .arrive _ _ => True
  | .parse ready context => ready = true → context = true → Announced l s.socket
  | .read ready context maxLength =>
    ready = true → context = true → maxLength ≠ 0 → Continued l s.socket maxLength
  | .recvfrom parseContext _ _ => parseContext = true → Announced l s.socket
  | .canRecv context => context = true → Announced l s.socket

def AllClean : System → List Event → Prop
  | _, [] => True
  | s, e :: events => Clean l s e ∧ AllClean (step l s e) events

variable {l}

theorem reported_accept {t : LwipSocket} {g : Log} (hrecorded : Recorded l t g) (h : Reported g)
    (d : Datagram) : Reported { g with accepted := g.accepted ++ [d] } := by
  intro r hr e he
  obtain ⟨held, hheld, -⟩ := hrecorded.slice r hr
  have hlt := (List.getElem?_eq_some_iff.mp hheld).1
  rw [List.getElem?_append_left hlt] at he
  exact h r hr e he

theorem reported_observe {u : UdpSocket} {g : Log} (hrecorded : Recorded l u.udp g)
    (hnamed : Named u) (h : Reported g) (n : ℕ) (discard : Bool) :
    Reported (observe g u n discard) := by
  unfold observe
  split
  · exact h
  next hopen =>
    simp only [not_or, Option.isNone_iff_eq_none] at hopen
    obtain ⟨d, hd⟩ := Option.ne_none_iff_exists'.mp hopen.1
    intro r hr e he
    rcases List.mem_append.mp hr with hr | hr
    · exact h r hr e he
    · obtain rfl := List.mem_singleton.mp hr
      have hsame : d = e := Option.some.inj ((current_accepted hrecorded hd).symm.trans he)
      rw [← hsame]
      exact hnamed d hd

theorem getLastRemote_eq {t : LwipSocket} :
    getLastRemote t = none ∨ getLastRemote t = some t.lastRemote := by
  unfold getLastRemote
  split
  · exact Or.inl rfl
  · exact Or.inr rfl

theorem getLastRemote_some {t : LwipSocket} (hport : t.lastRemote.port ≠ 0)
    (haddress : t.lastRemote.address ≠ 0) : getLastRemote t = some t.lastRemote := by
  simp [getLastRemote, hport, haddress]

/-- The sender of the current datagram is copied behind a parse. -/
theorem socketParse_named {u : UdpSocket} (h : Bound l u) (hnamed : Named u) (context : Bool)
    (hclean : context = true → Announced l u) :
    Named (socketParsePacketLocked l u context).2.2 := by
  unfold socketParsePacketLocked
  simp only [h.bound, Bool.not_true, Bool.false_eq_true, if_false]
  split
  · exact hnamed
  split
  · exact hnamed
  next hpending hcontext =>
    obtain ⟨houtstanding, -, hcurrent, -, hsound⟩ := lwipParse_outstanding h.udp
    intro d hd
    have hd : (lwipParse l u.udp).2.currentReceive = some d := hd
    have hpacket : hasPacket (lwipParse l u.udp).2 = true := by
      rw [hasPacket_iff hsound]
      intro hnil
      simp [outstanding, hd] at hnil
    have hlast := hsound.last d hd
    dsimp only
    rw [if_pos hpacket]
    rcases getLastRemote_eq (t := (lwipParse l u.udp).2) with hnone | hsome
    · rw [hnone, Option.getD_none]
      cases hheld : u.udp.currentReceive with
      | some e =>
        have hsame : e = d := by
          rw [hcurrent, head_of_current hheld] at hd
          exact Option.some.inj hd
        rw [← hsame]
        exact hnamed e hheld
      | none =>
        have hhead : (queued l u.udp).head? = some d := by
          rw [hcurrent, outstanding, hheld] at hd
          exact hd
        have hready : context = true := by simpa using hcontext
        rcases hclean hready hheld d hhead with ⟨hport, haddress⟩ | heq
        · rw [← hlast] at hport haddress
          rw [getLastRemote_some hport haddress] at hnone
          cases hnone
        · exact heq
    · rw [hsome, Option.getD_some]
      exact hlast

/-- A read that goes on to the next datagram names it only if it has the sender
that was named before. -/
theorem readEx_named {u : UdpSocket} (h : Bound l u) (hnamed : Named u) (ready context : Bool)
    (n : ℕ) (hclean : ready = true → context = true → n ≠ 0 → Continued l u n) :
    Named (readEx l u ready context n).2.2 := by
  by_cases hrefused : n = 0 ∨ ready = false ∨ context = false
  · rw [readEx_refused ready context n hrefused]
    exact hnamed
  simp only [not_or, Bool.not_eq_false] at hrefused
  obtain ⟨hn, rfl, rfl⟩ := hrefused
  have hsound := lwipRead_sound h.udp n false
  obtain ⟨-, -, hcurrent, -, -⟩ := lwipParse_outstanding hsound
  have hqueue := lwipRead_queue (l := l) u.udp n false
  rw [readEx_socket h hn]
  intro d hd
  have hd : (lwipParse l (lwipRead u.udp n false).2.2).2.currentReceive = some d := hd
  rw [hcurrent] at hd
  have hnext : (lwipRead u.udp n false).2.2.currentReceive = none →
      (∀ d, u.udp.currentReceive = some d → d.payload.length ≤ u.udp.currentOffset+n) →
      u.lastRemote = d.remote := by
    intro hnone hends
    rw [outstanding, hnone, Option.toList_none, List.nil_append, hqueue] at hd
    exact hclean rfl rfl hn hends d hd
  cases hheld : u.udp.currentReceive with
  | none =>
    have hnone : (lwipRead u.udp n false).2.2.currentReceive = none := by
      simp [lwipRead, h.udp.bound, hheld]
    exact hnext hnone (by simp [hheld])
  | some e =>
    have hsocket := (lwipRead_current h.udp hheld hn false).2.2
    by_cases hends : e.payload.length ≤ u.udp.currentOffset+n
    · have hnone : (lwipRead u.udp n false).2.2.currentReceive = none := by
        simp [hsocket, hends, release]
      apply hnext hnone
      intro f hf
      rw [← Option.some.inj (hheld.symm.trans hf)]
      exact hends
    · have hsome : (lwipRead u.udp n false).2.2.currentReceive = some e := by
        simp [hsocket, hends, hheld]
      rw [head_of_current hsome] at hd
      rw [← Option.some.inj hd]
      exact hnamed e hheld

structure Senders (s : System) : Prop where
  named : Named s.socket
  reported : Reported s.log

theorem round_senders {s : System} (hvalid : Valid l s) (h : Senders s)
    (parseContext readContext : Bool) (n : ℕ) (hclean : parseContext = true → Announced l s.socket) :
    Senders (step l s (.recvfrom parseContext readContext n)) := by
  obtain ⟨houtstanding, hoffset, hbound⟩ := socketParse_keeps hvalid.bound parseContext
  have hnamed := socketParse_named hvalid.bound h.named parseContext hclean
  have hrecorded := recorded_view hvalid.recorded houtstanding hoffset
  have hreported := reported_observe hrecorded hnamed h.reported n true
  have hround : ∀ d, (recvfromRound l s.socket parseContext readContext n).2.2.2.udp.currentReceive =
        some d → (socketParsePacketLocked l s.socket parseContext).2.2.udp.currentReceive = some d ∧
      (recvfromRound l s.socket parseContext readContext n).2.2.2.lastRemote =
        (socketParsePacketLocked l s.socket parseContext).2.2.lastRemote := by
    intro d
    generalize hparse : socketParsePacketLocked l s.socket parseContext = parsed at *
    obtain ⟨size, packet, t⟩ := parsed
    simp only [recvfromRound, hvalid.bound.bound, hparse, Bool.not_true, Bool.false_eq_true, if_false]
    cases size with
    | none => exact fun hd => ⟨hd, rfl⟩
    | some size =>
      cases packet with
      | false => exact fun hd => ⟨hd, rfl⟩
      | true =>
        dsimp only
        split
        · exact fun hd => ⟨hd, rfl⟩
        next hn =>
          split
          · exact fun hd => ⟨hd, rfl⟩
          · cases hcurrent : t.udp.currentReceive with
            | none =>
              have hlive : t.udp.bound = true := hbound.udp.bound
              simp [lwipRead, hcurrent, hlive]
            | some e =>
              have hsocket := (lwipRead_current hbound.udp hcurrent hn true).2.2
              simp [hsocket, release]
  constructor
  · intro d hd
    obtain ⟨hcurrent, hremote⟩ := hround d hd
    exact hremote.trans (hnamed d hcurrent)
  · simp only [step]
    split
    · exact hreported
    · exact h.reported

theorem step_senders {s : System} (hvalid : Valid l s) (h : Senders s) {e : Event}
    (hclean : Clean l s e) : Senders (step l s e) := by
  cases e with
  | arrive isIpv4 d =>
    constructor
    · intro e he
      apply h.named e
      rw [← he]
      simp only [step, receiveCallback]
      split
      · rfl
      · split <;> rfl
    · simp only [step]
      split
      · exact reported_accept hvalid.recorded h.reported d
      · exact h.reported
  | parse ready context =>
    constructor
    · simp only [step]
      rcases parse_socket (l := l) s.socket ready context with heq | ⟨hready, heq⟩
      · rw [heq]
        exact h.named
      · rw [heq]
        exact socketParse_named hvalid.bound h.named context (hclean hready)
    · exact h.reported
  | read ready context n =>
    constructor
    · exact readEx_named hvalid.bound h.named ready context n hclean
    · simp only [step]
      split
      · exact reported_observe hvalid.recorded h.named h.reported n false
      · exact h.reported
  | recvfrom parseContext readContext n =>
    exact round_senders hvalid h parseContext readContext n hclean
  | canRecv context =>
    constructor
    · exact socketParse_named hvalid.bound h.named context hclean
    · exact h.reported

theorem run_senders {s : System} (hvalid : Valid l s) (h : Senders s) {events : List Event}
    (hclean : AllClean l s events) : Senders (run l s events) := by
  induction events generalizing s with
  | nil => exact h
  | cons e events ih => exact ih (step_valid hvalid e) (step_senders hvalid h hclean.1) hclean.2

/-- A round of the parse-then-read caller on the datagrams that are outstanding
and the offset in the first of them. -/
def roundView (n : ℕ) : List Datagram × ℕ → List Datagram × ℕ
  | ([], offset) => ([], offset)
  | (d :: rest, offset) =>
    if d.payload.length ≤ offset then (d :: rest, offset)
    else if d.payload.length ≤ offset+n then (rest, 0)
    else (d :: rest, offset+n)

theorem roundView_step {n offset : ℕ} {d : Datagram} (rest : List Datagram)
    (hopen : offset < d.payload.length) : roundView n (d :: rest, offset) =
      if d.payload.length ≤ offset+n then (rest, 0) else (d :: rest, offset+n) := by
  simp [roundView, hopen]

theorem roundView_blocked {n : ℕ} {v : List Datagram × ℕ} (h : ∃ d ∈ v.1, d.payload = []) :
    ∃ d ∈ (roundView n v).1, d.payload = [] := by
  obtain ⟨ds, offset⟩ := v
  cases ds with
  | nil => exact h
  | cons d rest =>
    by_cases hshut : d.payload.length ≤ offset
    · simpa [roundView, hshut] using h
    rw [roundView_step rest (not_le.mp hshut)]
    split
    · obtain ⟨e, he, hempty⟩ := h
      rcases List.mem_cons.mp he with rfl | he
      · rw [hempty] at hshut
        exact absurd (Nat.zero_le offset) hshut
      · exact ⟨e, he, hempty⟩
    · exact h

/-- Datagrams that are not empty are read to their ends one after another. -/
theorem roundView_drains {n : ℕ} (hn : n ≠ 0) {ds : List Datagram} {offset : ℕ}
    (hpayload : ∀ d ∈ ds, d.payload ≠ []) (hoffset : ∀ d, ds.head? = some d → offset < d.payload.length) :
    ∃ rounds, ((roundView n)^[rounds] (ds, offset)).1 = [] := by
  induction ds generalizing offset with
  | nil => exact ⟨0, rfl⟩
  | cons d rest ih =>
    have hrest : ∃ rounds, ((roundView n)^[rounds] (rest, 0)).1 = [] := by
      apply ih (fun e he => hpayload e (List.mem_cons_of_mem d he))
      intro e he
      exact List.length_pos_iff.mpr (hpayload e (List.mem_cons_of_mem d (List.mem_of_head? he)))
    induction hleft : d.payload.length-offset using Nat.strong_induction_on generalizing offset with
    | _ left inner =>
      have hopen := hoffset d rfl
      have hstep := roundView_step (n := n) rest hopen
      by_cases hends : d.payload.length ≤ offset+n
      · rw [if_pos hends] at hstep
        obtain ⟨rounds, hrounds⟩ := hrest
        refine ⟨rounds+1, ?_⟩
        rw [Function.iterate_succ_apply, hstep]
        exact hrounds
      · rw [if_neg hends] at hstep
        have hmore : ∀ e, (d :: rest).head? = some e → offset+n < e.payload.length := by
          intro e he
          obtain rfl := Option.some.inj he
          omega
        obtain ⟨rounds, hrounds⟩ := inner (d.payload.length-(offset+n)) (by omega) hmore rfl
        refine ⟨rounds+1, ?_⟩
        rw [Function.iterate_succ_apply, hstep]
        exact hrounds

variable (l) in
def view (s : System) : List Datagram × ℕ := (outstanding l s.socket.udp, s.socket.udp.currentOffset)

theorem read_accepted (g : Log) (u : UdpSocket) (n : ℕ) (discard : Bool) :
    (observe g u n discard).accepted = g.accepted := by
  unfold observe
  split
  · rfl
  · rfl

theorem parseThenRead_view {s : System} (h : Valid l s) {n : ℕ} (hn : n ≠ 0) :
    view l (parseThenRead l n s) = roundView n (view l s) ∧ Valid l (parseThenRead l n s) ∧
      (parseThenRead l n s).log.accepted = s.log.accepted := by
  obtain ⟨houtstanding, hoffset, hbound⟩ := socketParse_keeps h.bound true
  obtain ⟨size, packet, hsize, -, hremaining, hcurrent⟩ := socketParse_answer h.bound
  have hparsed : Valid l (step l s (.parse true true)) := step_valid h (.parse true true)
  have hsocket : (parsePacketEx l s.socket true true).2.2 =
      (socketParsePacketLocked l s.socket true).2.2 ∧
      (parsePacketEx l s.socket true true).2.1 = size := by
    simp only [parsePacketEx, h.bound.bound, Bool.not_true, Bool.false_eq_true, if_false]
    generalize socketParsePacketLocked l s.socket true = parsed at hsize ⊢
    obtain ⟨answer, found, t⟩ := parsed
    obtain rfl := hsize
    exact ⟨rfl, rfl⟩
  have hview : view l (step l s (.parse true true)) = view l s := by
    simp only [view, step, hsocket.1, houtstanding, hoffset]
  unfold parseThenRead
  simp only [hsocket.2]
  generalize ht : step l s (.parse true true) = t at hparsed hview ⊢
  have hlwip : t.socket = (socketParsePacketLocked l s.socket true).2.2 := by
    rw [← ht]
    exact hsocket.1
  have haccepted : t.log.accepted = s.log.accepted := by rw [← ht]; rfl
  rw [← hlwip] at hcurrent hremaining
  cases hds : outstanding l s.socket.udp with
  | nil =>
    rw [hds, List.head?_nil] at hcurrent
    have hzero : ¬0 < size := by simp [hremaining, remaining, hcurrent]
    rw [if_neg hzero, hview]
    exact ⟨by simp [view, hds, roundView], hparsed, haccepted⟩
  | cons d rest =>
    rw [hds, List.head?_cons] at hcurrent
    have hlength : size = d.payload.length-t.socket.udp.currentOffset := by
      simp [hremaining, remaining, hcurrent]
    have hsame : t.socket.udp.currentOffset = s.socket.udp.currentOffset := congrArg Prod.snd hview
    by_cases hshut : d.payload.length ≤ s.socket.udp.currentOffset
    · rw [if_neg (by omega), hview]
      exact ⟨by simp [view, hds, roundView, hshut], hparsed, haccepted⟩
    · rw [if_pos (by omega)]
      have hread := lwipRead_current hparsed.bound.udp hcurrent hn false
      obtain ⟨hkept, hmoved, -⟩ :=
        lwipParse_outstanding (lwipRead_sound hparsed.bound.udp n false)
      have hqueue := lwipRead_queue (l := l) t.socket.udp n false
      have hrest : queued l t.socket.udp = rest := by
        have hout : outstanding l t.socket.udp = outstanding l s.socket.udp := congrArg Prod.fst hview
        rw [hds, outstanding, hcurrent] at hout
        exact (List.cons.inj hout).2
      refine ⟨?_, step_valid hparsed (.read true true n), ?_⟩
      · have hstep : view l (step l t (.read true true n)) =
            view l { t with socket := { t.socket with udp := (lwipRead t.socket.udp n false).2.2 } } := by
          simp only [view, step, readEx_socket hparsed.bound hn, hkept, hmoved]
        rw [hstep]
        simp only [view, hds]
        rw [roundView_step rest (not_le.mp hshut), outstanding, hqueue, hrest, hread.2.2, hsame]
        by_cases hends : d.payload.length ≤ s.socket.udp.currentOffset+n
        · simp [hends, release]
        · simp [hends, hcurrent]
      · simp only [step]
        split
        · rw [read_accepted]
          exact haccepted
        · exact haccepted

theorem rounds_view {s : System} (h : Valid l s) {n : ℕ} (hn : n ≠ 0) (rounds : ℕ) :
    view l ((parseThenRead l n)^[rounds] s) = (roundView n)^[rounds] (view l s) ∧
      Valid l ((parseThenRead l n)^[rounds] s) ∧
      ((parseThenRead l n)^[rounds] s).log.accepted = s.log.accepted := by
  induction rounds with
  | zero => exact ⟨rfl, h, rfl⟩
  | succ rounds ih =>
    obtain ⟨hview, hvalid, haccepted⟩ := ih
    obtain ⟨hround, hnext, hsame⟩ := parseThenRead_view hvalid hn
    rw [Function.iterate_succ_apply', Function.iterate_succ_apply', hround, hview, hsame]
    exact ⟨rfl, hnext, haccepted⟩

theorem finished_iff {s : System} (h : Valid l s) :
    s.log.finished = s.log.accepted.length ↔ (view l s).1 = [] := by
  have hle := h.recorded.finished_le
  rw [view, h.recorded.outstanding, List.drop_eq_nil_iff]
  omega

/-- The parse-then-read caller gets through all datagrams exactly if none of
those that are outstanding is empty. -/
theorem drains_iff {s : System} (h : Valid l s) {n : ℕ} (hn : n ≠ 0) :
    Drains l n s ↔ ∀ d ∈ outstanding l s.socket.udp, d.payload ≠ [] := by
  have hdrains : Drains l n s ↔ ∃ rounds, ((roundView n)^[rounds] (view l s)).1 = [] := by
    apply exists_congr
    intro rounds
    obtain ⟨hview, hvalid, haccepted⟩ := rounds_view h hn rounds
    rw [← hview, ← haccepted]
    exact finished_iff hvalid
  rw [hdrains]
  constructor
  · rintro ⟨rounds, hdone⟩ d hd hempty
    have hblocked : ∀ k, ∃ d ∈ ((roundView n)^[k] (view l s)).1, d.payload = [] := by
      intro k
      induction k with
      | zero => exact ⟨d, hd, hempty⟩
      | succ k ih =>
        rw [Function.iterate_succ_apply']
        exact roundView_blocked ih
    obtain ⟨e, he, -⟩ := hblocked rounds
    rw [hdone] at he
    cases he
  · intro hpayload
    apply roundView_drains hn hpayload
    intro d hd
    have hpos : 0 < d.payload.length := List.length_pos_iff.mpr (hpayload d (List.mem_of_head? hd))
    cases hcurrent : s.socket.udp.currentReceive with
    | none =>
      have hidle := h.bound.udp.idle hcurrent
      change s.socket.udp.currentOffset < _
      omega
    | some e =>
      have hsame : e = d := Option.some.inj ((head_of_current hcurrent).symm.trans hd)
      have hoffset := h.bound.udp.offset e hcurrent
      change s.socket.udp.currentOffset < _
      rw [← hsame] at hpos ⊢
      omega

/-- What a run delivers: only a full queue drops a datagram, the accepted ones
are consumed in their order, and a caller that parses before it reads goes on
unless an empty one is outstanding. -/
structure Delivered (l : Limits) (s : System) : Prop where
  accepts : ∀ isIpv4 d, (step l s (.arrive isIpv4 d)).log.accepted =
    if isIpv4 ∧ (queued l s.socket.udp).length < l.queueDepth then s.log.accepted ++ [d]
    else s.log.accepted
  recorded : Recorded l s.socket.udp s.log
  drains : ∀ n, n ≠ 0 → (Drains l n s ↔ ∀ d ∈ outstanding l s.socket.udp, d.payload ≠ [])

theorem accepts_iff {s : System} (h : Valid l s) (isIpv4 : Bool) (d : Datagram) :
    (step l s (.arrive isIpv4 d)).log.accepted =
      if isIpv4 ∧ (queued l s.socket.udp).length < l.queueDepth then s.log.accepted ++ [d]
      else s.log.accepted := by
  rw [queued_length h.bound.udp]
  by_cases hroom : isIpv4 = true ∧ s.socket.udp.receiveCount < l.queueDepth
  · obtain ⟨hqueued, hsound⟩ := receiveCallback_kept h.bound.udp d hroom.2
    have hcount : s.socket.udp.receiveCount <
        (receiveCallback l s.socket.udp true d).receiveCount := by
      rw [← queued_length hsound, hqueued, ← queued_length h.bound.udp]
      simp
    rw [if_pos hroom]
    simp only [step, hroom.1, if_pos hcount]
  · have hdropped := receiveCallback_dropped h.bound.udp isIpv4 d (by
      simp only [not_and_or, Bool.not_eq_true, not_lt] at hroom
      exact hroom)
    simp only [if_neg hroom, step, hdropped, lt_irrefl, if_false]

variable (l) in
theorem delivery (events : List Event) :
    Delivered l (run l initial events) ∧
      (AllClean l initial events → Reported (run l initial events).log) := by
  have hvalid := run_valid (l := l) initial_valid events
  constructor
  · constructor
    · exact accepts_iff hvalid
    · exact hvalid.recorded
    · intro n hn
      exact drains_iff hvalid hn
  · intro hclean
    have hsenders : Senders initial := by
      constructor
      · intro d hd
        cases hd
      · intro r hr
        cases hr
    exact (run_senders initial_valid hsenders hclean).reported

def firstSender : Remote := ⟨0x0a00000a, 5000⟩
def secondSender : Remote := ⟨0x0a00000b, 5001⟩

/-- The second datagram comes when the first one has been read. -/
def inTurn : List Event :=
  [.arrive true ⟨[1], firstSender, by decide⟩, .parse true true, .read true true 1,
    .arrive true ⟨[2], secondSender, by decide⟩, .parse true true, .read true true 1]

theorem delivery_in_turn :
    (run ⟨4, by decide⟩ initial inTurn).log.reads =
        [⟨0, 0, [1], firstSender⟩, ⟨1, 0, [2], secondSender⟩] ∧
      Reported (run ⟨4, by decide⟩ initial inTurn).log := by
  have hfirst : Announced ⟨4, by decide⟩ (run ⟨4, by decide⟩ initial (inTurn.take 1)).socket := by
    intro _ d hd
    obtain rfl : ⟨[1], firstSender, by decide⟩ = d := Option.some.inj hd
    exact Or.inl (by decide)
  have hsecond : Announced ⟨4, by decide⟩
      (run ⟨4, by decide⟩ initial (inTurn.take 4)).socket := by
    intro _ d hd
    obtain rfl : ⟨[2], secondSender, by decide⟩ = d := Option.some.inj hd
    exact Or.inl (by decide)
  have hempty : Continued ⟨4, by decide⟩
        (run ⟨4, by decide⟩ initial (inTurn.take 2)).socket 1 ∧
      Continued ⟨4, by decide⟩ (run ⟨4, by decide⟩ initial (inTurn.take 5)).socket 1 := by
    constructor
    · intro _ d hd
      cases hd
    · intro _ d hd
      cases hd
  exact ⟨rfl, (delivery ⟨4, by decide⟩ inTurn).2 ⟨trivial, fun _ _ => hfirst, fun _ _ _ => hempty.1,
    trivial, fun _ _ => hsecond, fun _ _ _ => hempty.2, trivial⟩⟩

def twoSenders : List Event :=
  [.arrive true ⟨[1], firstSender, by decide⟩, .arrive true ⟨[2], secondSender, by decide⟩,
    .parse true true, .read true true 1, .read true true 1]

/-- The read that ends the first datagram goes on to the second one, which is
then read under the first sender. -/
theorem second_datagram_misreported : ¬ Reported (run ⟨4, by decide⟩ initial twoSenders).log := by
  have hreads : (run ⟨4, by decide⟩ initial twoSenders).log.reads =
      [⟨0, 0, [1], firstSender⟩, ⟨1, 0, [2], firstSender⟩] := rfl
  intro h
  have hsender := h ⟨1, 0, [2], firstSender⟩ (by rw [hreads]; simp)
    ⟨[2], secondSender, by decide⟩ rfl
  revert hsender
  decide

end JaszczurHal.UdpProgress
