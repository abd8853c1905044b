import JaszczurHal.HttpSegmentation

/-!
# What the server answers

The answer to a stream is a function of its bytes. A slot gives that answer or a
timeout, however the stream is cut, unless one receive fills the buffer with a
request that is already decided.
-/

set_option autoImplicit false

namespace JaszczurHal.HttpServer
open WebSocketHandshake (ascii crlf)

section Stream
variable {H : Type}

def answer (c : Config H) (stream : List UInt8) : Option (Outcome H) :=
  match requestState c stream with
  | .bad => some (.error 400)
  | .tooLarge => some (.error 413)
  | .complete contentLen => some (processRequest c stream contentLen)
  | .pending => if c.requestBuffer ≤ stream.length+1 then some (.error 413) else none

/-- The request is there to be handled or refused for what it says. -/
def Decided (c : Config H) (buffer : List UInt8) : Prop :=
  requestState c buffer = .bad ∨ ∃ contentLen, requestState c buffer = .complete contentLen

/-- A slot that treats the stream alike however it is cut: it waits while the
bytes decide nothing, may time out while it waits, and gives the stream's answer. -/
def Uniform (c : Config H) (stream : List UInt8) : Slot H → Prop
  | .waiting client => requestState c client.request = .pending
  | .answered client outcome => answer c stream = some outcome ∨
      (outcome = .error 408 ∧ requestState c client.request = .pending)
  | .cleared => True

def FillsDecided (c : Config H) (s : Slot H) (p : Poll) : Prop :=
  match s with
  | .waiting client => p.connected = true ∧ ∃ next, receive c client p = some next ∧
      c.requestBuffer ≤ next.request.length+1 ∧ Decided c next.request
  | _ => False

def Clean (c : Config H) : Slot H → List Poll → Prop
  | _, [] => True
  | s, p :: polls => ¬FillsDecided c s p ∧ Clean c (poll c s p) polls

theorem answer_append {c : Config H} {buffer : List UInt8} {outcome : Outcome H}
    (more : List UInt8) (h : answer c buffer = some outcome) :
    answer c (buffer ++ more) = some outcome := by
  unfold answer at h ⊢
  cases hstate : requestState c buffer with
  | pending =>
    simp only [hstate] at h
    by_cases hfull : c.requestBuffer ≤ buffer.length+1
    · have hlonger : c.requestBuffer ≤ (buffer ++ more).length+1 := by
        rw [List.length_append]
        omega
      rw [if_pos hfull] at h
      cases requestState_full c buffer more hstate hfull with
      | inl hpending => simpa only [hpending, if_pos hlonger] using h
      | inr htooLarge => simpa only [htooLarge] using h
    · simp [hfull] at h
  | bad =>
    simpa [requestState_append c buffer more (by simp [hstate]), hstate] using h
  | tooLarge =>
    simpa [requestState_append c buffer more (by simp [hstate]), hstate] using h
  | complete contentLen =>
    simpa [requestState_append c buffer more (by simp [hstate]), hstate,
      processRequest_append more hstate] using h

theorem dispatch_status {c : Config H} {method target version : List UInt8}
    {contents : List (List UInt8 × List UInt8) × List UInt8} {status : ℕ}
    (h : dispatch c method target version contents = .error status) : status = 400 := by
  unfold dispatch at h
  dsimp only at h
  split_ifs at h with hrefused
  · exact (Outcome.error.inj h).symm
  · unfold route at h
    split at h
    · cases h
    · cases h

theorem processRequest_status {c : Config H} {buffer : List UInt8} {contentLen status : ℕ}
    (h : processRequest c buffer contentLen = .error status) : status = 400 := by
  unfold processRequest at h
  split at h
  · exact (Outcome.error.inj h).symm
  · split at h
    · exact (Outcome.error.inj h).symm
    · split at h
      · exact (Outcome.error.inj h).symm
      · exact dispatch_status h

/-- A decided request has an answer that is neither a timeout nor a refusal for
its size. -/
theorem decided_answer {c : Config H} {buffer : List UInt8} (more : List UInt8)
    (h : Decided c buffer) {status : ℕ} (hstatus : status ≠ 400) :
    answer c (buffer ++ more) ≠ some (.error status) := by
  intro hanswer
  unfold answer at hanswer
  cases h with
  | inl hbad =>
    simp only [requestState_append c buffer more (by simp [hbad]), hbad, Option.some.injEq,
      Outcome.error.injEq] at hanswer
    exact hstatus hanswer.symm
  | inr hcomplete =>
    obtain ⟨contentLen, hstate⟩ := hcomplete
    simp only [requestState_append c buffer more (by simp [hstate]), hstate,
      Option.some.injEq] at hanswer
    exact hstatus (processRequest_status hanswer)

theorem run_answered (c : Config H) (client : Client) (outcome : Outcome H) (polls : List Poll) :
    run c (.answered client outcome) polls = .answered client outcome := by
  induction polls with
  | nil => rfl
  | cons p polls ih => exact ih

def Within (stream : List UInt8) : Slot H → Prop
  | .waiting client => client.request ++ client.unread = stream
  | .answered client _ => client.request ++ client.unread = stream
  | .cleared => True

theorem receive_within {c : Config H} {client next : Client} {p : Poll}
    (h : receive c client p = some next) :
    next.request ++ next.unread = client.request ++ client.unread := by
  unfold receive at h
  split_ifs at h
  · cases hreceive : p.receive with
    | nothing =>
      simp only [hreceive, Option.some.injEq] at h
      rw [h]
    | failed => simp [hreceive] at h
    | bytes count =>
      simp only [hreceive, Option.some.injEq] at h
      simp [← h, append]
  · simp only [Option.some.injEq] at h
    rw [h]

theorem examine_client (c : Config H) (client : Client) (now : UInt32) :
    examine c client now = .waiting client ∨
      ∃ outcome, examine c client now = .answered client outcome := by
  unfold examine
  by_cases hfull : c.requestBuffer ≤ client.request.length+1
  · simp [hfull]
  · rw [if_neg hfull]
    cases requestState c client.request with
    | pending =>
      simp only [checkTimeouts]
      split_ifs
      · simp
      · simp
    | bad => simp
    | tooLarge => simp
    | complete contentLen => simp

theorem poll_within {stream : List UInt8} (c : Config H) {s : Slot H} (p : Poll)
    (h : Within stream s) : Within stream (poll c s p) := by
  cases s with
  | answered client outcome => exact h
  | cleared => exact h
  | waiting client =>
    by_cases hconnected : p.connected = true
    · cases hreceive : receive c client p with
      | none => simp [poll, hconnected, hreceive, Within]
      | some next =>
        have hnext := (receive_within hreceive).trans h
        simp only [poll, hconnected, hreceive, if_true]
        cases examine_client c next p.nowMs with
        | inl hwaiting =>
          rw [hwaiting]
          exact hnext
        | inr hanswered =>
          obtain ⟨outcome, heq⟩ := hanswered
          rw [heq]
          exact hnext
    · simp [poll, hconnected, Within]

/-- What is found in the buffer is the stream's answer, unless a decided request
fills it. -/
theorem examine_uniform {c : Config H} {client : Client} (now : UInt32)
    (h : ¬(c.requestBuffer ≤ client.request.length+1 ∧ Decided c client.request)) :
    Uniform c (client.request ++ client.unread) (examine c client now) := by
  unfold examine
  by_cases hfull : c.requestBuffer ≤ client.request.length+1
  · rw [if_pos hfull]
    left
    apply answer_append
    unfold answer
    cases hstate : requestState c client.request with
    | pending => simp [hfull]
    | tooLarge => simp
    | bad => exact absurd ⟨hfull, Or.inl hstate⟩ h
    | complete contentLen => exact absurd ⟨hfull, Or.inr ⟨contentLen, hstate⟩⟩ h
  · rw [if_neg hfull]
    cases hstate : requestState c client.request with
    | bad => exact Or.inl (answer_append _ (by simp [answer, hstate]))
    | tooLarge => exact Or.inl (answer_append _ (by simp [answer, hstate]))
    | complete contentLen => exact Or.inl (answer_append _ (by simp [answer, hstate]))
    | pending =>
      simp only [checkTimeouts]
      split_ifs
      · exact Or.inr ⟨rfl, hstate⟩
      · exact hstate

theorem poll_uniform {c : Config H} {stream : List UInt8} {s : Slot H} {p : Poll}
    (hwithin : Within stream s) (huniform : Uniform c stream s) (h : ¬FillsDecided c s p) :
    Uniform c stream (poll c s p) := by
  cases s with
  | answered client outcome => exact huniform
  | cleared => exact huniform
  | waiting client =>
    by_cases hconnected : p.connected = true
    · cases hreceive : receive c client p with
      | none => simp [poll, hconnected, hreceive, Uniform]
      | some next =>
        have hstream : next.request ++ next.unread = stream :=
          (receive_within hreceive).trans hwithin
        simp only [poll, hconnected, hreceive, if_true]
        rw [← hstream]
        apply examine_uniform
        intro hfills
        exact h ⟨hconnected, next, hreceive, hfills⟩
    · simp [poll, hconnected, Uniform]

/-- A decided request that fills the buffer is refused for its size. -/
theorem poll_fills {c : Config H} {stream : List UInt8} {s : Slot H} {p : Poll}
    (hwithin : Within stream s) (h : FillsDecided c s p) :
    ∃ client, poll c s p = .answered client (.error 413) ∧ ¬Uniform c stream (poll c s p) := by
  cases s with
  | answered client outcome => exact h.elim
  | cleared => exact h.elim
  | waiting client =>
    obtain ⟨hconnected, next, hreceive, hfull, hdecided⟩ := h
    have hpoll : poll c (.waiting client) p = .answered next (.error 413) := by
      simp [poll, hconnected, hreceive, examine, hfull]
    refine ⟨next, hpoll, ?_⟩
    rw [hpoll]
    intro huniform
    cases huniform with
    | inl hanswer =>
      rw [← (receive_within hreceive).trans hwithin] at hanswer
      exact decided_answer _ hdecided (by decide) hanswer
    | inr htimeout => simp at htimeout

theorem run_uniform (c : Config H) {stream : List UInt8} {s : Slot H} (polls : List Poll)
    (hwithin : Within stream s) (huniform : Uniform c stream s) :
    Uniform c stream (run c s polls) ↔ Clean c s polls := by
  induction polls generalizing s with
  | nil => simp [run, huniform, Clean]
  | cons p polls ih =>
    by_cases hfills : FillsDecided c s p
    · obtain ⟨client, hpoll, hnot⟩ := poll_fills hwithin hfills
      have hrun : run c s (p :: polls) = poll c s p := by
        change run c (poll c s p) polls = poll c s p
        rw [hpoll, run_answered]
      rw [hrun]
      simp [Clean, hfills, hnot]
    · have hnext := ih (poll_within c p hwithin) (poll_uniform hwithin huniform hfills)
      change Uniform c stream (run c (poll c s p) polls) ↔ _
      rw [hnext]
      simp [Clean, hfills]

theorem accept_uniform (c : Config H) (stream : List UInt8) (now : UInt32) :
    Uniform c stream (accept stream now) := by
  simp [Uniform, accept, requestState, WebSocketHandshake.cString, WebSocketHandshake.splitAt]

def Fits (c : Config H) : Slot H → Prop
  | .waiting client => client.request.length ≤ c.requestBuffer-1
  | _ => True

theorem receive_fits {c : Config H} {client next : Client} {p : Poll}
    (h : receive c client p = some next) (hfits : client.request.length ≤ c.requestBuffer-1) :
    next.request.length ≤ c.requestBuffer-1 := by
  unfold receive at h
  split_ifs at h
  · cases hreceive : p.receive with
    | nothing =>
      simp only [hreceive, Option.some.injEq] at h
      rw [← h]
      exact hfits
    | failed => simp [hreceive] at h
    | bytes count =>
      simp only [hreceive, Option.some.injEq] at h
      simp only [← h, append, List.length_append, List.length_take]
      omega
  · simp only [Option.some.injEq] at h
    rw [← h]
    exact hfits

theorem poll_fits {c : Config H} {s : Slot H} (p : Poll) (h : Fits c s) : Fits c (poll c s p) := by
  cases s with
  | answered client outcome => trivial
  | cleared => trivial
  | waiting client =>
    by_cases hconnected : p.connected = true
    · cases hreceive : receive c client p with
      | none => simp [poll, hconnected, hreceive, Fits]
      | some next =>
        have hnext := receive_fits hreceive h
        simp only [poll, hconnected, hreceive, if_true]
        cases examine_client c next p.nowMs with
        | inl hwaiting =>
          rw [hwaiting]
          exact hnext
        | inr hanswered =>
          obtain ⟨outcome, heq⟩ := hanswered
          simp [heq, Fits]
    · simp [poll, hconnected, Fits]

/-- A full buffer holds the first bytes of the stream. -/
theorem filled_request {c : Config H} {stream : List UInt8} {s : Slot H} {p : Poll}
    (hwithin : Within stream s) (hfits : Fits c s) (h : FillsDecided c s p) :
    c.requestBuffer ≤ stream.length+1 ∧ Decided c (stream.take (c.requestBuffer-1)) := by
  cases s with
  | answered client outcome => exact h.elim
  | cleared => exact h.elim
  | waiting client =>
    obtain ⟨_, next, hreceive, hfull, hdecided⟩ := h
    have hstream : next.request ++ next.unread = stream := (receive_within hreceive).trans hwithin
    have hlength : next.request.length = c.requestBuffer-1 := by
      have hroom := receive_fits hreceive hfits
      omega
    rw [← hstream]
    constructor
    · rw [List.length_append]
      omega
    · rw [← hlength, List.take_left]
      exact hdecided

theorem clean_stream {c : Config H} {stream : List UInt8} {s : Slot H} (polls : List Poll)
    (h : ¬(c.requestBuffer ≤ stream.length+1 ∧ Decided c (stream.take (c.requestBuffer-1))))
    (hwithin : Within stream s) (hfits : Fits c s) : Clean c s polls := by
  induction polls generalizing s with
  | nil => trivial
  | cons p polls ih =>
    constructor
    · intro hfills
      exact h (filled_request hwithin hfits hfills)
    · exact ih (poll_within c p hwithin) (poll_fits p hfits)

def atOnce (c : Config H) (now : UInt32) : Poll := ⟨true, .bytes c.requestBuffer, now, now⟩

theorem atOnce_fills {c : Config H} {stream : List UInt8} (now : UInt32)
    (hlong : c.requestBuffer ≤ stream.length+1)
    (hdecided : Decided c (stream.take (c.requestBuffer-1))) :
    FillsDecided c (accept stream now) (atOnce c now) := by
  constructor
  · rfl
  by_cases hroom : 1 < c.requestBuffer
  · refine ⟨append ⟨stream, [], now, now⟩ (c.requestBuffer-1) now, ?_, ?_, ?_⟩
    · simp [receive, atOnce, hroom]
    · simp only [append, List.nil_append, List.length_take]
      omega
    · simpa [append] using hdecided
  · have hnone : c.requestBuffer-1 = 0 := by omega
    refine ⟨⟨stream, [], now, now⟩, ?_, ?_, ?_⟩
    · simp [receive, hroom]
    · simp only [List.length_nil]
      omega
    · simpa [hnone] using hdecided

/-- A run gives the stream's answer exactly when no receive fills the buffer with
a decided request; and a stream is answered alike however it is cut exactly when
the bytes for which the buffer has room do not decide it or are not all there. -/
theorem segmentation (c : Config H) (stream : List UInt8) (now : UInt32) :
    (∀ polls, Uniform c stream (run c (accept stream now) polls) ↔
      Clean c (accept stream now) polls) ∧
      ((∀ polls, Uniform c stream (run c (accept stream now) polls)) ↔
        ¬(c.requestBuffer ≤ stream.length+1 ∧ Decided c (stream.take (c.requestBuffer-1)))) := by
  have hwithin : Within stream (accept stream now : Slot H) := List.nil_append stream
  have hfits : Fits c (accept stream now) := Nat.zero_le _
  have hrun : ∀ polls, Uniform c stream (run c (accept stream now) polls) ↔
      Clean c (accept stream now) polls := by
    intro polls
    exact run_uniform c polls hwithin (accept_uniform c stream now)
  constructor
  · exact hrun
  constructor
  · intro huniform hfull
    have hclean := (hrun [atOnce c now]).mp (huniform [atOnce c now])
    exact hclean.1 (atOnce_fills now hfull.1 hfull.2)
  · intro hstream polls
    exact (hrun polls).mpr (clean_stream polls hstream hwithin hfits)

end Stream

def defaultConfig : Config ℕ where
  requestBuffer := 512
  maxHeaders := 12
  sizeMax := 4294967295
  charSigned := false
  timeouts := ⟨5000, 15000, 5000⟩
  routes := [⟨.post, ascii "/", false, 0⟩]

def requestOf (contentLength : String) (contentLen : ℕ) : List UInt8 :=
  ascii "POST / HTTP/1.1" ++ crlf ++ ascii "Content-Length: " ++ ascii contentLength ++
    crlf ++ crlf ++ List.replicate contentLen 65

def handledOf (contentLength : String) (contentLen : ℕ) : Outcome ℕ :=
  .handler 0 ⟨.post, ascii "/", [], List.replicate contentLen 65,
    [(ascii "Content-Length", ascii contentLength)]⟩

def exactRequest : List UInt8 := requestOf "471" 471

def followedRequest : List UInt8 := requestOf "470" 470 ++ [65]

def received (count : ℕ) : Poll := ⟨true, .bytes count, 0, 0⟩

/-- The exact request is refused for its size; the other one is handled or refused
as the byte behind it comes later or with it. -/
theorem exact_request_refused :
    answer defaultConfig exactRequest = some (handledOf "471" 471) ∧
    run defaultConfig (accept exactRequest 0) [received 511] =
      .answered ⟨[], exactRequest, 0, 0⟩ (.error 413) ∧
    run defaultConfig (accept followedRequest 0) [received 510] =
      .answered ⟨[65], requestOf "470" 470, 0, 0⟩ (handledOf "470" 470) ∧
    run defaultConfig (accept followedRequest 0) [received 511] =
      .answered ⟨[], followedRequest, 0, 0⟩ (.error 413) := by
  constructor
  · decide +kernel
  constructor
  · decide +kernel
  constructor
  · decide +kernel
  · decide +kernel

end JaszczurHal.HttpServer
