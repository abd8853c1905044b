import JaszczurHal.DecimalText
import JaszczurHal.HalStatus
import JaszczurHal.HalTimeNtp
import JaszczurHal.Utf8Texts

/-!
# Messages to Telegram

The sending of a notification: its header, the parts of its body, and the
receipt. How a part fares on the network and what the clock says are inputs. A
C string is the list of its bytes; an absent one is empty, as the code makes no
difference.
-/

set_option autoImplicit false

namespace JaszczurHal.TelegramSend
open DecimalText HalStatus HalTimeNtp

inductive Severity where
  | info
  | warning
  | error
  | critical
  deriving DecidableEq, Repr

inductive Format where
  | default
  | text
  | markdown
  | html
  deriving DecidableEq, Repr

structure Message where
  severity : Severity
  format : Format
  deviceName : List UInt8
  title : List UInt8
  body : List UInt8
  timeoutMs : UInt32

structure Provider where
  status : ℤ
  error : ℤ
  retryAfterS : UInt32
  messageId : List UInt8
  deriving DecidableEq, Repr

structure Receipt where
  provider : Provider
  truncated : Bool
  partialDelivery : Bool
  partsSent : ℕ
  partsTotal : ℕ
  deriving DecidableEq, Repr

def blankReceipt : Receipt := ⟨⟨0, 0, 0, []⟩, false, false, 0, 0⟩

structure Answer where
  status : Status
  provider : Provider
  truncated : Bool

structure World where
  textMax : ℕ
  pathFits : Bool
  allocated : Bool
  acquired : Bool
  finish : Status
  startedMs : UInt32
  nowMs : ℕ → UInt32
  answer : ℕ → Answer

def bytes (text : String) : List UInt8 := text.toList.map fun c => UInt8.ofNat c.toNat

def appendBytes (capacity : ℕ) (buffer value : List UInt8) : Option (List UInt8) :=
  if capacity ≤ value.length ∨ capacity-value.length-1 < buffer.length then none
  else some (buffer ++ value)

def severityName : Severity → List UInt8
  | .info => bytes "INFO"
  | .warning => bytes "WARNING"
  | .error => bytes "ERROR"
  | .critical => bytes "CRITICAL"

def markdownSpecial (b : UInt8) : Bool := b ∈ bytes "_*[]()~`>#+-=|\x7b\x7d.!\\"

def metadataText (format : Format) (b : UInt8) : List (List UInt8) :=
  if format = .markdown ∧ markdownSpecial b then [bytes "\\", [b]]
  else if format = .html ∧ b = 38 then [bytes "&amp;"]
  else if format = .html ∧ b = 60 then [bytes "&lt;"]
  else if format = .html ∧ b = 62 then [bytes "&gt;"]
  else [[b]]

def appendAll (capacity : ℕ) (buffer : List UInt8) (values : List (List UInt8)) :
    Option (List UInt8) :=
  values.foldlM (appendBytes capacity) buffer

def appendBracketed (capacity : ℕ) (format : Format) (buffer value : List UInt8) :
    Option (List UInt8) :=
  let opening := if format = .markdown then bytes "\\[" else bytes "["
  let closing := if format = .markdown then bytes "\\]" else bytes "]"
  appendAll capacity buffer ([opening] ++ value.flatMap (metadataText format) ++ [closing])

def buildHeader (message : Message) (capacity : ℕ) : Option (List UInt8) :=
  match appendBracketed capacity message.format [] (severityName message.severity) with
  | none => none
  | some buffer =>
    let named := if message.deviceName ≠ [] then
        (appendBytes capacity buffer (bytes " ")).bind fun buffer =>
          appendBracketed capacity message.format buffer message.deviceName
      else some buffer
    match named with
    | none => none
    | some buffer =>
      if message.title ≠ [] then appendAll capacity buffer [bytes " ", message.title]
      else some buffer

def backOff (body : List UInt8) : ℕ → ℕ
  | 0 => 0
  | n+1 => if body.getD (n+1) 0 &&& 0xC0 = 0x80 then backOff body n else n+1

def blankBefore (body : List UInt8) (floor : ℕ) : ℕ → Option ℕ
  | 0 => none
  | n+1 =>
    if floor < n+1 then
      if body.getD n 0 = 10 ∨ body.getD n 0 = 32 ∨ body.getD n 0 = 9 then some (n+1)
      else blankBefore body floor n
    else none

def choosePartLength (body : List UInt8) (capacity : ℕ) : ℕ :=
  if body.length ≤ capacity then body.length
  else
    let stop := backOff body capacity
    if stop = 0 then 0 else (blankBefore body (stop/2) stop).getD stop

def uint32Max : ℕ := 4294967295

def countParts (capacity : ℕ) : ℕ → List UInt8 → ℕ → Option ℕ
  | _, [], count => some count
  | 0, _ :: _, _ => none
  | fuel+1, b :: body, count =>
    let length := choosePartLength (b :: body) capacity
    if length = 0 ∨ count = uint32Max then none
    else countParts capacity fuel ((b :: body).drop length) (count+1)

def partMarker (format : Format) (part total : ℕ) : List UInt8 :=
  if format = .markdown then
    bytes " \\(" ++ decimal part ++ bytes "/" ++ decimal total ++ bytes "\\)"
  else bytes " (" ++ decimal part ++ bytes "/" ++ decimal total ++ bytes ")"

def buildPartText (message : Message) (body : List UInt8) (part total capacity : ℕ) :
    Option (List UInt8) :=
  match buildHeader message capacity with
  | none => none
  | some buffer =>
    let marked := if 1 < total then
        let marker := partMarker message.format part total
        if 32 ≤ marker.length then none else appendBytes capacity buffer marker
      else some buffer
    match marked with
    | none => none
    | some buffer => appendAll capacity buffer [bytes "\n", body]

/-- The state of the loop: what remains of the body, how many parts are sent,
the receipt, and the texts handed to the network. -/
structure Progress where
  rest : List UInt8
  sent : ℕ
  receipt : Option Receipt
  texts : List (List UInt8)

def Receipt.answered (receipt : Receipt) (answer : Answer) : Receipt :=
  { receipt with
    provider := answer.provider
    truncated := receipt.truncated || answer.truncated }

abbrev Cutting := Option ℕ

def Cutting.length (cutting : Cutting) (rest : List UInt8) : ℕ :=
  match cutting with
  | none => rest.length
  | some capacity => choosePartLength rest capacity

/-- The loop of `telegram_send`; the fuel is the length of the body. -/
def sendParts (world : World) (message : Message) (cutting : Cutting) (total : ℕ) :
    ℕ → Progress → Status × Progress
  | 0, p => (.ok, p)
  | fuel+1, p =>
    if p.rest = [] then (.ok, p)
    else
      let length := cutting.length p.rest
      if length = 0 then (.eoverflow, p)
      else
        match buildPartText message (p.rest.take length) (p.sent+1) total (world.textMax+1) with
        | none => (.eoverflow, p)
        | some text =>
          if elapsedU32 (world.nowMs p.sent) world.startedMs message.timeoutMs then (.etimeout, p)
          else
            let answer := world.answer p.sent
            let p := { p with
              receipt := p.receipt.map (·.answered answer)
              texts := p.texts ++ [text] }
            if answer.status ≠ .ok then (answer.status, p)
            else
              sendParts world message cutting total fuel { p with
                rest := p.rest.drop length
                sent := p.sent+1
                receipt := p.receipt.map fun receipt => { receipt with partsSent := p.sent+1 } }

def markerReserve : ℕ := 32

def planParts (world : World) (message : Message) : Option (Cutting × ℕ) :=
  match buildHeader message (world.textMax+1) with
  | none => none
  | some header =>
    if world.textMax < header.length+1 ∨
        world.textMax-header.length-1 < message.body.length then
      if message.format ≠ .text then none
      else if world.textMax ≤ header.length+1+markerReserve then none
      else
        let capacity := world.textMax-header.length-1-markerReserve
        (countParts capacity message.body.length message.body 0).map fun total =>
          (some capacity, total)
    else some (none, 1)

def telegramSend (world : World) (message : Message) (receipt : Option Receipt) :
    Status × Progress :=
  let fresh : Progress := ⟨message.body, 0, receipt, []⟩
  if ¬ world.pathFits then (.eoverflow, fresh)
  else if ¬ world.allocated then (.enomem, fresh)
  else
    match planParts world message with
    | none => (.eoverflow, fresh)
    | some (cutting, total) =>
      let (status, p) := sendParts world message cutting total message.body.length { fresh with
        receipt := receipt.map fun receipt => { receipt with partsTotal := total } }
      if 0 < p.sent ∧ p.sent < total then
        (status, { p with
          receipt := p.receipt.map fun receipt => { receipt with partialDelivery := true } })
      else (status, p)

structure Channel where
  deviceName : List UInt8
  timeoutMs : UInt32
  format : Format

def validateMessage (message : Message) : Bool :=
  decide (message.body ≠ []) && decide (13 ∉ message.deviceName) &&
    decide (10 ∉ message.deviceName)

def resolveFormat (requested fallback : Format) : Format :=
  if requested ≠ .default then requested
  else if fallback = .default then .text else fallback

def effective (channel : Channel) (message : Message) : Message :=
  { message with
    deviceName := if message.deviceName = [] then channel.deviceName else message.deviceName
    timeoutMs := if message.timeoutMs = 0 then channel.timeoutMs else message.timeoutMs
    format := resolveFormat message.format channel.format }

def notifySend (world : World) (channel : Channel) (message : Message) (wanted : Bool) :
    Status × Progress :=
  let receipt := if wanted then some blankReceipt else none
  let fresh : Progress := ⟨message.body, 0, receipt, []⟩
  if ¬ validateMessage message then (.einval, fresh)
  else if ¬ world.acquired then (.einval, fresh)
  else
    let (status, p) := telegramSend world (effective channel message) receipt
    (if status = .ok then world.finish else status, p)

open DecimalText HalStatus Utf8Texts

variable {body rest : List UInt8} {parts : List (List UInt8)} {capacity : ℕ}

theorem backOff_le (body : List UInt8) (n : ℕ) : backOff body n ≤ n := by
  induction n with
  | zero => exact Nat.le_refl 0
  | succ n ih =>
    rw [backOff]
    split_ifs
    · omega
    · exact Nat.le_refl _

theorem continuation_iff {b : UInt8} : continuation b = true ↔ b &&& 0xC0 = 0x80 := beq_iff_eq

theorem backOff_start {n : ℕ} (h : backOff body n ≠ 0) :
    continuation (body.getD (backOff body n) 0) = false := by
  induction n with
  | zero => exact absurd rfl h
  | succ n ih =>
    rw [backOff] at h ⊢
    split_ifs at h ⊢ with hcontinues
    · exact ih h
    · rw [Bool.eq_false_iff]
      exact fun hstart => hcontinues (continuation_iff.mp hstart)

theorem backOff_zero {n : ℕ} (h : backOff body n = 0) :
    ∀ i, 0 < i → i ≤ n → continuation (body.getD i 0) = true := by
  induction n with
  | zero =>
    intro i hpos hle
    omega
  | succ n ih =>
    intro i hpos hle
    rw [backOff] at h
    split_ifs at h with hcontinues
    rcases Nat.lt_or_eq_of_le hle with hlt | rfl
    · exact ih h i hpos (Nat.le_of_lt_succ hlt)
    · exact continuation_iff.mpr hcontinues

theorem blankBefore_some {floor n i : ℕ} (h : blankBefore body floor n = some i) :
    0 < i ∧ i ≤ n ∧ body.getD (i-1) 0 < 0x80 := by
  induction n with
  | zero => cases h
  | succ n ih =>
    rw [blankBefore] at h
    split_ifs at h with hfloor hblank
    · obtain rfl := Option.some.inj h
      refine ⟨Nat.succ_pos n, Nat.le_refl _, ?_⟩
      rw [Nat.add_sub_cancel]
      rcases hblank with heq | heq | heq <;> rw [heq] <;> decide
    · obtain ⟨hpos, hle, hbyte⟩ := ih h
      exact ⟨hpos, by omega, hbyte⟩

theorem byte_at {n : ℕ} (h : n < body.length) : body[n]? = some (body.getD n 0) := by
  rw [List.getD_eq_getElem?_getD, List.getElem?_eq_getElem h, Option.getD_some]

/-- A part that is chosen is cut between characters and has room. -/
theorem choosePartLength_cut (hbody : Utf8 body) (h : choosePartLength body capacity ≠ 0) :
    Boundary body (choosePartLength body capacity) ∧ choosePartLength body capacity ≤ capacity := by
  rw [choosePartLength] at h ⊢
  dsimp only at h ⊢
  split_ifs at h ⊢ with hfits hstop
  · exact ⟨.whole hbody, hfits⟩
  · exact absurd rfl h
  · have hle := backOff_le body capacity
    have hstart := backOff_start hstop
    have hcut := Boundary.of_byte hbody (byte_at (by omega)) hstart
    cases hblank : blankBefore body (backOff body capacity/2) (backOff body capacity) with
    | none => exact ⟨hcut, hle⟩
    | some i =>
      obtain ⟨hpos, hbefore, hascii⟩ := blankBefore_some hblank
      have hafter := Boundary.after_ascii hbody (byte_at (by omega : i-1 < body.length)) hascii
      rw [Nat.sub_add_cancel hpos] at hafter
      exact ⟨hafter, Nat.le_trans hbefore hle⟩

/-- No part is chosen only where not even one character has room. -/
theorem choosePartLength_zero (hne : body ≠ []) (h : choosePartLength body capacity = 0) :
    ∀ n, 0 < n → n ≤ capacity → ¬ Boundary body n := by
  intro n hpos hle hcut
  rw [choosePartLength] at h
  dsimp only at h
  split_ifs at h with hfits hstop
  · exact hne (List.length_eq_zero_iff.mp h)
  · have hcontinues := backOff_zero hstop n hpos hle
    rw [hcut.byte (byte_at (by omega))] at hcontinues
    cases hcontinues
  · cases hblank : blankBefore body (backOff body capacity/2) (backOff body capacity) with
    | none =>
      rw [hblank] at h
      exact hstop h
    | some i =>
      rw [hblank] at h
      have hlater := (blankBefore_some hblank).1
      exact absurd h (Nat.ne_of_gt hlater)

inductive Cut (cutting : Cutting) : List UInt8 → List (List UInt8) → Prop where
  | done : Cut cutting [] []
  | part {body : List UInt8} {parts : List (List UInt8)} (hne : body ≠ [])
      (hlength : cutting.length body ≠ 0)
      (hrest : Cut cutting (body.drop (cutting.length body)) parts) :
      Cut cutting body (body.take (cutting.length body) :: parts)

structure Splits (capacity : ℕ) (body : List UInt8) (parts : List (List UInt8)) : Prop where
  whole : parts.flatten = body
  nonempty : ∀ part ∈ parts, part ≠ []
  text : ∀ part ∈ parts, Utf8 part
  fits : ∀ part ∈ parts, part.length ≤ capacity

theorem cut_splits (hbody : Utf8 body) (h : Cut (some capacity) body parts) :
    Splits capacity body parts := by
  induction h with
  | done => exact ⟨rfl, nofun, nofun, nofun⟩
  | @part body parts hne hlength _ ih =>
    obtain ⟨hcut, hfits⟩ := choosePartLength_cut hbody hlength
    obtain ⟨hwhole, hnonempty, htext, hroom⟩ := ih hcut.after
    refine ⟨?_, ?_, ?_, ?_⟩
    · rw [List.flatten_cons, hwhole, List.take_append_drop]
    · refine List.forall_mem_cons.mpr ⟨?_, hnonempty⟩
      rw [Ne, List.take_eq_nil_iff, not_or]
      exact ⟨hlength, hne⟩
    · exact List.forall_mem_cons.mpr ⟨hcut.before, htext⟩
    · refine List.forall_mem_cons.mpr ⟨?_, hroom⟩
      exact Nat.le_trans (List.length_take_le _ _) hfits

def Steps (capacity : ℕ) (body : List UInt8) : Prop :=
  ∀ n, Boundary body n → n < body.length →
    ∃ k, 0 < k ∧ k ≤ capacity ∧ Boundary (body.drop n) k

theorem Steps.drop {n : ℕ} (h : Steps capacity body) (hcut : Boundary body n) :
    Steps capacity (body.drop n) := by
  intro m hm hlt
  have hlength : (body.take n).length = n := List.length_take_of_le hcut.inside
  have hlater := hm.cons hcut.before
  rw [List.take_append_drop, hlength] at hlater
  rw [List.length_drop] at hlt
  obtain ⟨k, hpos, hle, hk⟩ := h (n+m) hlater (by omega)
  rw [← List.drop_drop] at hk
  exact ⟨k, hpos, hle, hk⟩

theorem flatten_text (htext : ∀ part ∈ parts, Utf8 part) : Utf8 parts.flatten := by
  induction parts with
  | nil => exact .nil
  | cons part parts ih =>
    obtain ⟨hpart, hparts⟩ := List.forall_mem_cons.mp htext
    rw [List.flatten_cons]
    exact hpart.append (ih hparts)

theorem splits_steps (h : Splits capacity body parts) : Steps capacity body := by
  obtain ⟨rfl, hnonempty, htext, hfits⟩ := h
  induction parts with
  | nil => exact fun n _ hlt => absurd hlt (Nat.not_lt_zero n)
  | cons part parts ih =>
    obtain ⟨hpart, htexts⟩ := List.forall_mem_cons.mp htext
    obtain ⟨hroom, hrooms⟩ := List.forall_mem_cons.mp hfits
    have hrest := flatten_text htexts
    have hparts := ih (List.forall_mem_cons.mp hnonempty).2 htexts hrooms
    rw [List.flatten_cons]
    intro n hcut hlt
    have hbyte := byte_at hlt
    have hstart := hcut.byte hbyte
    rcases Nat.lt_or_ge n part.length with hinside | hlater
    · -- The rest of this part has room, and starts a character.
      rw [List.getElem?_append_left hinside] at hbyte
      have hinner := Boundary.of_byte hpart hbyte hstart
      have hstop := Boundary.cons hinner.after (n := 0) ⟨Nat.zero_le _, .nil, hrest⟩
      refine ⟨part.length-n, by omega, by omega, ?_⟩
      rw [List.drop_append_of_le_length (Nat.le_of_lt hinside)]
      rwa [List.length_drop, Nat.add_zero] at hstop
    · obtain ⟨m, rfl⟩ := Nat.exists_eq_add_of_le hlater
      rw [List.getElem?_append_right hlater, Nat.add_sub_cancel_left] at hbyte
      rw [List.length_append] at hlt
      obtain ⟨k, hpos, hle, hk⟩ := hparts m (Boundary.of_byte hrest hbyte hstart) (by omega)
      refine ⟨k, hpos, hle, ?_⟩
      rwa [List.drop_length_add_append]

/-- Where each character has room the cutting goes through. -/
theorem steps_cut (hbody : Utf8 body) (h : Steps capacity body) :
    ∃ parts, Cut (some capacity) body parts := by
  induction hlength : body.length using Nat.strongRecOn generalizing body with
  | ind n ih =>
    by_cases hne : body = []
    · exact ⟨[], hne ▸ .done⟩
    · have hsome : choosePartLength body capacity ≠ 0 := by
        intro hzero
        obtain ⟨k, hpos, hle, hk⟩ := h 0 ⟨Nat.zero_le _, .nil, hbody⟩
          (List.length_pos_of_ne_nil hne)
        exact choosePartLength_zero hne hzero k hpos hle hk
      obtain ⟨hcut, _⟩ := choosePartLength_cut hbody hsome
      have hpos := List.length_pos_of_ne_nil hne
      have hless : (body.drop (choosePartLength body capacity)).length < n := by
        rw [List.length_drop]
        omega
      obtain ⟨parts, hparts⟩ := ih _ hless hcut.after (h.drop hcut) rfl
      exact ⟨_, .part hne hsome hparts⟩

/-- A body is cut exactly when it can be split at all. -/
theorem cut_iff_splits (hbody : Utf8 body) : (∃ parts, Cut (some capacity) body parts) ↔
    ∃ parts, Splits capacity body parts := by
  constructor
  · rintro ⟨parts, hparts⟩
    exact ⟨parts, cut_splits hbody hparts⟩
  · rintro ⟨parts, hparts⟩
    exact steps_cut hbody (splits_steps hparts)

theorem Cut.unique {cutting : Cutting} {others : List (List UInt8)} (h : Cut cutting body parts)
    (hother : Cut cutting body others) : parts = others := by
  induction h generalizing others with
  | done =>
    cases hother with
    | done => rfl
    | part hne => exact absurd rfl hne
  | @part body parts hne _ _ ih =>
    cases hother with
    | done => exact absurd rfl hne
    | part _ _ hrest => rw [ih hrest]

theorem countParts_nil {fuel count total : ℕ} (hcount : count ≤ uint32Max) :
    countParts capacity fuel [] count = some total ↔
      ∃ parts, Cut (some capacity) [] parts ∧ total = count+parts.length ∧ total ≤ uint32Max := by
  have hvalue : countParts capacity fuel [] count = some count := by cases fuel <;> rfl
  rw [hvalue, Option.some.injEq]
  constructor
  · rintro rfl
    exact ⟨[], .done, rfl, hcount⟩
  · rintro ⟨parts, hparts, htotal, _⟩
    obtain rfl := hparts.unique .done
    exact htotal.symm

theorem countParts_iff {fuel count total : ℕ} (hfuel : body.length ≤ fuel)
    (hcount : count ≤ uint32Max) : countParts capacity fuel body count = some total ↔
      ∃ parts, Cut (some capacity) body parts ∧ total = count+parts.length ∧
        total ≤ uint32Max := by
  induction fuel generalizing body count with
  | zero =>
    obtain rfl := List.length_eq_zero_iff.mp (Nat.le_zero.mp hfuel)
    exact countParts_nil hcount
  | succ fuel ih =>
    cases body with
    | nil => exact countParts_nil hcount
    | cons b body =>
      rw [countParts]
      by_cases hzero : choosePartLength (b :: body) capacity = 0
      · rw [if_pos (.inl hzero)]
        refine iff_of_false nofun ?_
        rintro ⟨parts, hparts, _⟩
        cases hparts with
        | part _ hsome => exact hsome hzero
      have hsmall : ((b :: body).drop (choosePartLength (b :: body) capacity)).length ≤ fuel := by
        rw [List.length_drop]
        omega
      by_cases hfull : count = uint32Max
      · rw [if_pos (.inr hfull)]
        refine iff_of_false nofun ?_
        rintro ⟨parts, hparts, htotal, hle⟩
        cases hparts with
        | part =>
          rw [List.length_cons] at htotal
          omega
      · rw [if_neg (not_or.mpr ⟨hzero, hfull⟩), ih hsmall (by omega)]
        constructor
        · rintro ⟨parts, hparts, htotal, hle⟩
          refine ⟨_, .part (List.cons_ne_nil b body) hzero hparts, ?_, hle⟩
          rw [List.length_cons]
          omega
        · rintro ⟨parts, hparts, htotal, hle⟩
          cases hparts with
          | @part _ parts _ _ hrest =>
            refine ⟨parts, hrest, ?_, hle⟩
            rw [List.length_cons] at htotal
            omega

end JaszczurHal.TelegramSend
