import JaszczurHal.TelegramParts

/-!
# Delivery in parts

A message is refused before anything is sent, or its body is cut into texts of
UTF-8 which are sent in order, numbered, within the limit, until one is not
accepted; the receipt tells how far it came.
-/

set_option autoImplicit false

namespace JaszczurHal.TelegramSend
open DecimalText HalStatus Utf8Texts

variable {message : Message} {header : List UInt8} {capacity : ℕ}

theorem appendBytes_iff {buffer value text : List UInt8} :
    appendBytes capacity buffer value = some text ↔
      text = buffer ++ value ∧ text.length < capacity := by
  rw [appendBytes]
  split_ifs with hfull
  · refine iff_of_false nofun ?_
    rintro ⟨rfl, hlt⟩
    rw [List.length_append] at hlt
    omega
  · rw [Option.some.injEq]
    constructor
    · rintro rfl
      rw [List.length_append]
      exact ⟨rfl, by omega⟩
    · exact fun h => h.1.symm

theorem appendAll_iff {values : List (List UInt8)} {buffer text : List UInt8} (hne : values ≠ []) :
    appendAll capacity buffer values = some text ↔
      text = buffer ++ values.flatten ∧ text.length < capacity := by
  induction values generalizing buffer with
  | nil => exact absurd rfl hne
  | cons value values ih =>
    rw [appendAll, List.foldlM_cons, Option.bind_eq_bind, Option.bind_eq_some_iff]
    cases values with
    | nil =>
      constructor
      · rintro ⟨next, hnext, hpure⟩
        obtain rfl := Option.some.inj hpure
        simpa using appendBytes_iff.mp hnext
      · intro h
        refine ⟨text, appendBytes_iff.mpr ?_, rfl⟩
        simpa using h
    | cons value' values =>
      constructor
      · rintro ⟨next, hnext, hrest⟩
        obtain ⟨rfl, _⟩ := appendBytes_iff.mp hnext
        have h := (ih (List.cons_ne_nil value' values)).mp hrest
        rwa [List.flatten_cons, ← List.append_assoc]
      · rintro ⟨htext, hlt⟩
        rw [List.flatten_cons, ← List.append_assoc] at htext
        have hshort : (buffer ++ value).length < capacity := by
          rw [htext, List.length_append] at hlt
          omega
        exact ⟨_, appendBytes_iff.mpr ⟨rfl, hshort⟩,
          (ih (List.cons_ne_nil value' values)).mpr ⟨htext, hlt⟩⟩

theorem appendBracketed_length {format : Format} {buffer value text : List UInt8}
    (h : appendBracketed capacity format buffer value = some text) : text.length < capacity :=
  ((appendAll_iff (by simp)).mp h).2

theorem buildHeader_length (h : buildHeader message capacity = some header) :
    header.length < capacity := by
  rw [buildHeader] at h
  split at h
  · cases h
  · rename_i buffer hseverity
    dsimp only at h
    split at h
    · cases h
    · rename_i named hnamed
      split_ifs at h with htitle
      · exact ((appendAll_iff (by simp)).mp h).2
      · obtain rfl := Option.some.inj h
        split_ifs at hnamed with hdevice
        · obtain ⟨_, _, hbracketed⟩ := Option.bind_eq_some_iff.mp hnamed
          exact appendBracketed_length hbracketed
        · obtain rfl := Option.some.inj hnamed
          exact appendBracketed_length hseverity

def partText (message : Message) (header : List UInt8) (total part : ℕ) (body : List UInt8) :
    List UInt8 :=
  header ++ (if 1 < total then partMarker message.format part total else []) ++ bytes "\n" ++ body

theorem partMarker_length (format : Format) {part total : ℕ} (hpart : part ≤ total)
    (htotal : total ≤ uint32Max) : (partMarker format part total).length ≤ 26 := by
  have hmax : uint32Max = 4294967295 := rfl
  have hone := decimal_length (k := 9) (show part < 10^(9+1) by omega)
  have hall := decimal_length (k := 9) (show total < 10^(9+1) by omega)
  rw [partMarker]
  split_ifs
  · have hopen : (bytes " \\(").length = 3 := by decide
    have hslash : (bytes "/").length = 1 := by decide
    have hclose : (bytes "\\)").length = 2 := by decide
    simp only [List.length_append, hopen, hslash, hclose]
    omega
  · have hopen : (bytes " (").length = 2 := by decide
    have hslash : (bytes "/").length = 1 := by decide
    have hclose : (bytes ")").length = 1 := by decide
    simp only [List.length_append, hopen, hslash, hclose]
    omega

theorem buildPartText_fits {body : List UInt8} {part total : ℕ}
    (hheader : buildHeader message capacity = some header) (hpart : part ≤ total)
    (htotal : total ≤ uint32Max)
    (hfits : (partText message header total part body).length < capacity) :
    buildPartText message body part total capacity =
      some (partText message header total part body) := by
  have hmarker := partMarker_length message.format hpart htotal
  have hmarked : (if 1 < total then
      if 32 ≤ (partMarker message.format part total).length then none
      else appendBytes capacity header (partMarker message.format part total)
      else some header) = some (header ++
        (if 1 < total then partMarker message.format part total else [])) := by
    rw [partText, List.length_append, List.length_append] at hfits
    split_ifs at hfits ⊢ with hsplit hlong
    · omega
    · exact appendBytes_iff.mpr ⟨rfl, by omega⟩
    · rw [List.append_nil]
  rw [buildPartText, hheader]
  dsimp only
  rw [hmarked]
  refine (appendAll_iff (by simp)).mpr ⟨?_, hfits⟩
  rw [partText]
  simp

def partTexts (message : Message) (header : List UInt8) (total : ℕ) :
    ℕ → List (List UInt8) → List (List UInt8)
  | _, [] => []
  | part, body :: parts =>
    partText message header total part body :: partTexts message header total (part+1) parts

theorem partTexts_length {total part : ℕ} {parts : List (List UInt8)} :
    (partTexts message header total part parts).length = parts.length := by
  induction parts generalizing part with
  | nil => rfl
  | cons body parts ih => rw [partTexts, List.length_cons, List.length_cons, ih]

def Counts (total sent : ℕ) (receipt : Option Receipt) : Prop :=
  ∀ r ∈ receipt, r.partsTotal = total ∧ r.partsSent = sent ∧ r.partialDelivery = false

structure Ran (p : Progress) (texts : List (List UInt8)) (total accepted : ℕ)
    (result : Status × Progress) : Prop where
  within : accepted ≤ texts.length
  sent : result.2.sent = p.sent+accepted
  tried : ∃ tries, accepted ≤ tries ∧ tries ≤ accepted+1 ∧
    result.2.texts = p.texts ++ texts.take tries
  complete : result.1 = .ok ↔ accepted = texts.length
  receipt : Counts total (p.sent+accepted) result.2.receipt
  wanted : result.2.receipt.isSome = p.receipt.isSome

theorem Counts.answered {total sent : ℕ} {receipt : Option Receipt} (answer : Answer)
    (h : Counts total sent receipt) : Counts total sent (receipt.map (·.answered answer)) := by
  intro r hr
  obtain ⟨before, hbefore, rfl⟩ := Option.map_eq_some_iff.mp hr
  exact h before hbefore

theorem ran_done {p : Progress} {total : ℕ} (hreceipt : Counts total p.sent p.receipt) :
    Ran p [] total 0 (.ok, p) :=
  ⟨Nat.le_refl 0, rfl, ⟨0, by omega, by omega, by simp⟩, by simp, hreceipt, rfl⟩

/-- The next text is not accepted, or not even tried. -/
theorem ran_stopped {p : Progress} {text : List UInt8} {texts : List (List UInt8)} {total : ℕ}
    {status : Status} {receipt : Option Receipt} {tries : ℕ} (htries : tries ≤ 1)
    (hstatus : status ≠ .ok) (hreceipt : Counts total p.sent receipt)
    (hwanted : receipt.isSome = p.receipt.isSome) :
    Ran p (text :: texts) total 0
      (status, { p with receipt := receipt, texts := p.texts ++ (text :: texts).take tries }) :=
  ⟨Nat.zero_le _, rfl, ⟨tries, by omega, by omega, rfl⟩, iff_of_false hstatus (by simp), hreceipt,
    hwanted⟩

theorem ran_accepted {p q : Progress} {text : List UInt8} {texts : List (List UInt8)}
    {total accepted : ℕ} {result : Status × Progress} (hsent : q.sent = p.sent+1)
    (htexts : q.texts = p.texts ++ [text]) (hwanted : q.receipt.isSome = p.receipt.isSome)
    (h : Ran q texts total accepted result) : Ran p (text :: texts) total (accepted+1) result := by
  obtain ⟨tries, hless, hmore, hall⟩ := h.tried
  have hcount : q.sent+accepted = p.sent+(accepted+1) := by omega
  refine ⟨Nat.succ_le_succ h.within, h.sent.trans hcount, ⟨tries+1, by omega, by omega, ?_⟩, ?_,
    hcount ▸ h.receipt, h.wanted.trans hwanted⟩
  · rw [hall, htexts, List.append_assoc]
    rfl
  · rw [h.complete, List.length_cons, Nat.succ_inj]

theorem sendParts_run {world : World} {cutting : Cutting} {total fuel : ℕ} {p : Progress}
    {parts : List (List UInt8)} (hparts : Cut cutting p.rest parts)
    (hheader : buildHeader message (world.textMax+1) = some header)
    (hcount : p.sent+parts.length = total) (htotal : total ≤ uint32Max)
    (hfuel : p.rest.length ≤ fuel) (hreceipt : Counts total p.sent p.receipt)
    (hfits : ∀ text ∈ partTexts message header total (p.sent+1) parts,
      text.length ≤ world.textMax) :
    ∃ accepted, Ran p (partTexts message header total (p.sent+1) parts) total accepted
      (sendParts world message cutting total fuel p) := by
  induction fuel generalizing p parts with
  | zero =>
    have hnil := List.length_eq_zero_iff.mp (Nat.le_zero.mp hfuel)
    rw [hnil] at hparts
    obtain rfl := hparts.unique .done
    exact ⟨0, ran_done hreceipt⟩
  | succ fuel ih =>
    obtain ⟨rest, sent, receipt, texts⟩ := p
    dsimp only at hparts hcount hfuel hreceipt hfits ⊢
    rw [sendParts]
    cases hparts with
    | done =>
      rw [if_pos rfl]
      exact ⟨0, ran_done hreceipt⟩
    | @part _ parts hne hlength hlater =>
      rw [List.length_cons] at hcount
      rw [partTexts] at hfits ⊢
      obtain ⟨hfirst, hothers⟩ := List.forall_mem_cons.mp hfits
      rw [if_neg hne]
      dsimp only
      rw [if_neg hlength, buildPartText_fits hheader (by omega) htotal (Nat.lt_succ_of_le hfirst)]
      dsimp only
      generalize partText message header total (sent+1) (rest.take (cutting.length rest)) = text
      split_ifs with hlate hrefused
      · have hstopped : Ran ⟨rest, sent, receipt, texts⟩
            (text :: partTexts message header total (sent+1+1) parts) total 0
            (.etimeout, ⟨rest, sent, receipt, texts ++ []⟩) :=
          ran_stopped (Nat.zero_le 1) nofun hreceipt rfl
        rw [List.append_nil] at hstopped
        exact ⟨0, hstopped⟩
      · have hstopped : Ran ⟨rest, sent, receipt, texts⟩
            (text :: partTexts message header total (sent+1+1) parts) total 0
            ((world.answer sent).status,
              ⟨rest, sent, receipt.map (·.answered (world.answer sent)), texts ++ [text]⟩) :=
          ran_stopped (Nat.le_refl 1) hrefused (hreceipt.answered _) (by simp)
        exact ⟨0, hstopped⟩
      · have hnext : Counts total (sent+1) ((receipt.map (·.answered (world.answer sent))).map
            fun receipt => { receipt with partsSent := sent+1 }) := by
          intro r hr
          obtain ⟨before, hbefore, rfl⟩ := Option.map_eq_some_iff.mp hr
          obtain ⟨hall, _, hflag⟩ := hreceipt.answered _ before hbefore
          exact ⟨hall, rfl, hflag⟩
        have hsmall : (rest.drop (cutting.length rest)).length ≤ fuel := by
          rw [List.length_drop]
          omega
        generalize hmore : (receipt.map (·.answered (world.answer sent))).map
          (fun receipt => { receipt with partsSent := sent+1 }) = more at hnext
        have hran := ih (p := ⟨rest.drop (cutting.length rest), sent+1, more, texts ++ [text]⟩)
          hlater (by dsimp only; omega) hsmall hnext hothers
        obtain ⟨accepted, hran⟩ := hran
        refine ⟨accepted+1, ran_accepted rfl rfl ?_ hran⟩
        rw [← hmore]
        simp

inductive Obstacle (world : World) (message : Message) (header : List UInt8) : Prop where
  | format (h : message.format ≠ .text)
  | room (h : world.textMax ≤ header.length+1+markerReserve)
  | character (h : ¬ ∃ parts,
      Splits (world.textMax-header.length-1-markerReserve) message.body parts)
  | many {parts : List (List UInt8)}
      (hparts : Cut (some (world.textMax-header.length-1-markerReserve)) message.body parts)
      (hmany : uint32Max < parts.length)

inductive Uncuttable (world : World) (message : Message) : Prop where
  | header (h : buildHeader message (world.textMax+1) = none)
  | body {header : List UInt8} (h : buildHeader message (world.textMax+1) = some header)
      (hlong : world.textMax < header.length+1+message.body.length)
      (hobstacle : Obstacle world message header)

theorem uncuttable_iff {world : World}
    (hheader : buildHeader message (world.textMax+1) = some header) :
    Uncuttable world message ↔
      world.textMax < header.length+1+message.body.length ∧ Obstacle world message header := by
  constructor
  · rintro (h | ⟨h, hlong, hobstacle⟩)
    · rw [hheader] at h
      cases h
    · obtain rfl := Option.some.inj (hheader.symm.trans h)
      exact ⟨hlong, hobstacle⟩
  · rintro ⟨hlong, hobstacle⟩
    exact .body hheader hlong hobstacle

structure Plan (world : World) (message : Message) (cutting : Cutting) (header : List UInt8)
    (parts : List (List UInt8)) : Prop where
  built : buildHeader message (world.textMax+1) = some header
  cut : Cut cutting message.body parts
  count : parts.length ≤ uint32Max
  whole : parts.flatten = message.body
  nonempty : ∀ part ∈ parts, part ≠ []
  text : ∀ part ∈ parts, Utf8 part
  fits : ∀ text ∈ partTexts message header parts.length 1 parts, text.length ≤ world.textMax

theorem partTexts_fit {total part limit : ℕ} {parts : List (List UInt8)}
    (hcount : part+parts.length ≤ total+1) (htotal : total ≤ uint32Max)
    (hparts : ∀ body ∈ parts, header.length+27+body.length ≤ limit) :
    ∀ text ∈ partTexts message header total part parts, text.length ≤ limit := by
  induction parts generalizing part with
  | nil => exact nofun
  | cons body parts ih =>
    rw [List.length_cons] at hcount
    obtain ⟨hfirst, hothers⟩ := List.forall_mem_cons.mp hparts
    rw [partTexts]
    refine List.forall_mem_cons.mpr ⟨?_, ih (by omega) hothers⟩
    have hmarker := partMarker_length message.format (by omega : part ≤ total) htotal
    have hline : (bytes "\n").length = 1 := by decide
    rw [partText, List.length_append, List.length_append, List.length_append, hline]
    split_ifs
    · omega
    · rw [List.length_nil]
      omega

theorem markerReserve_eq : markerReserve = 32 := rfl

theorem plan_whole {world : World} (hbody : Utf8 message.body) (hne : message.body ≠ [])
    (hheader : buildHeader message (world.textMax+1) = some header)
    (hshort : header.length+1+message.body.length ≤ world.textMax) :
    Plan world message none header [message.body] := by
  refine ⟨hheader, ?_, by rw [List.length_singleton]; decide, by simp, by simp [hne],
    by simp [hbody], ?_⟩
  · have hpart : Cut none message.body
        (message.body.take message.body.length :: ([] : List (List UInt8))) := by
      apply Cut.part hne
      · exact Nat.ne_of_gt (List.length_pos_of_ne_nil hne)
      · show Cut none (message.body.drop message.body.length) []
        rw [List.drop_length]
        exact .done
    rwa [List.take_length] at hpart
  · rw [List.length_singleton, partTexts, partTexts]
    refine List.forall_mem_singleton.mpr ?_
    have hline : (bytes "\n").length = 1 := by decide
    rw [partText, if_neg (by decide), List.append_nil, List.length_append, List.length_append,
      hline]
    exact hshort

theorem plan_cut {world : World} {parts : List (List UInt8)} (hbody : Utf8 message.body)
    (hheader : buildHeader message (world.textMax+1) = some header)
    (hroom : header.length+1+markerReserve < world.textMax)
    (hparts : Cut (some (world.textMax-header.length-1-markerReserve)) message.body parts)
    (hcount : parts.length ≤ uint32Max) :
    Plan world message (some (world.textMax-header.length-1-markerReserve)) header parts := by
  obtain ⟨hwhole, hnonempty, htext, hfits⟩ := cut_splits hbody hparts
  refine ⟨hheader, hparts, hcount, hwhole, hnonempty, htext, ?_⟩
  apply partTexts_fit (by omega) hcount
  intro part hpart
  have hpart := hfits part hpart
  rw [markerReserve_eq] at hroom hpart
  omega

theorem cut_cases {world : World} (hbody : Utf8 message.body)
    (hheader : buildHeader message (world.textMax+1) = some header) :
    Obstacle world message header ∧ (message.format ≠ .text ∨
        world.textMax ≤ header.length+1+markerReserve ∨
        countParts (world.textMax-header.length-1-markerReserve) message.body.length message.body
          0 = none) ∨
      ¬ Obstacle world message header ∧ message.format = .text ∧
        header.length+1+markerReserve < world.textMax ∧ ∃ parts,
          countParts (world.textMax-header.length-1-markerReserve) message.body.length message.body
            0 = some parts.length ∧
          Plan world message (some (world.textMax-header.length-1-markerReserve)) header parts := by
  by_cases hformat : message.format = .text
  swap
  · exact .inl ⟨.format hformat, .inl hformat⟩
  by_cases hfull : world.textMax ≤ header.length+1+markerReserve
  · exact .inl ⟨.room hfull, .inr (.inl hfull)⟩
  have hroom := Nat.not_le.mp hfull
  by_cases hcut : ∃ parts,
      Cut (some (world.textMax-header.length-1-markerReserve)) message.body parts
  swap
  · refine .inl ⟨.character fun hsplit => hcut ((cut_iff_splits hbody).mpr hsplit), .inr (.inr ?_)⟩
    rw [Option.eq_none_iff_forall_ne_some]
    intro total htotal
    obtain ⟨parts, hparts, _⟩ := (countParts_iff (Nat.le_refl _) (Nat.zero_le _)).mp htotal
    exact hcut ⟨parts, hparts⟩
  obtain ⟨parts, hparts⟩ := hcut
  by_cases hmany : uint32Max < parts.length
  · refine .inl ⟨.many hparts hmany, .inr (.inr ?_)⟩
    rw [Option.eq_none_iff_forall_ne_some]
    intro total htotal
    obtain ⟨others, hothers, heq, hle⟩ :=
      (countParts_iff (Nat.le_refl _) (Nat.zero_le _)).mp htotal
    rw [hothers.unique hparts] at heq
    omega
  · have hcount := Nat.not_lt.mp hmany
    refine .inr ⟨?_, hformat, hroom, parts, ?_, plan_cut hbody hheader hroom hparts hcount⟩
    · rintro (hother | hother | hother | ⟨hothers, hother⟩)
      · exact hother hformat
      · exact hfull hother
      · exact hother ⟨parts, cut_splits hbody hparts⟩
      · rw [hothers.unique hparts] at hother
        exact hmany hother
    · exact (countParts_iff (Nat.le_refl _) (Nat.zero_le _)).mpr
        ⟨parts, hparts, (Nat.zero_add _).symm, hcount⟩

theorem planParts_cases (world : World) (hbody : Utf8 message.body) (hne : message.body ≠ []) :
    planParts world message = none ∧ Uncuttable world message ∨
      ¬ Uncuttable world message ∧ ∃ cutting header parts,
        planParts world message = some (cutting, parts.length) ∧
          Plan world message cutting header parts := by
  rw [planParts]
  cases hheader : buildHeader message (world.textMax+1) with
  | none => exact .inl ⟨rfl, .header hheader⟩
  | some header =>
    have hfit := buildHeader_length hheader
    rw [uncuttable_iff hheader]
    dsimp only
    by_cases hlong : world.textMax < header.length+1+message.body.length
    · rw [if_pos (by omega)]
      rcases cut_cases hbody hheader with ⟨hobstacle, hwhy⟩ | ⟨hclear, hformat, hroom, hplan⟩
      · refine .inl ⟨?_, hlong, hobstacle⟩
        split_ifs with hformat hfull
        · rfl
        · rfl
        · rcases hwhy with hother | hother | hnone
          · exact absurd hother hformat
          · exact absurd hother hfull
          · rw [hnone]
            rfl
      · obtain ⟨parts, hcount, hplan⟩ := hplan
        rw [if_neg (not_not.mpr hformat), if_neg (Nat.not_le.mpr hroom), hcount]
        exact .inr ⟨fun h => hclear h.2, _, header, parts, rfl, hplan⟩
    · rw [if_neg (by omega)]
      exact .inr ⟨fun h => hlong h.1, none, header, [message.body], rfl,
        plan_whole hbody hne hheader (Nat.not_lt.mp hlong)⟩

inductive Refused (world : World) (channel : Channel) (message : Message) : Prop where
  | message (h : validateMessage message = false)
  | channel (h : world.acquired = false)
  | path (h : world.pathFits = false)
  | memory (h : world.allocated = false)
  | uncuttable (h : Uncuttable world (effective channel message))

/-- What a sending does: the texts of the parts go out in order, and the receipt
counts those that are accepted. -/
structure Delivered (world : World) (message : Message) (header : List UInt8)
    (parts : List (List UInt8)) (result : Status × Progress) : Prop where
  built : buildHeader message (world.textMax+1) = some header
  whole : parts.flatten = message.body
  nonempty : ∀ part ∈ parts, part ≠ []
  text : ∀ part ∈ parts, Utf8 part
  fits : ∀ text ∈ partTexts message header parts.length 1 parts, text.length ≤ world.textMax
  within : result.2.sent ≤ parts.length
  tried : ∃ tries, result.2.sent ≤ tries ∧ tries ≤ result.2.sent+1 ∧
    result.2.texts = (partTexts message header parts.length 1 parts).take tries
  complete : result.1 = .ok → result.2.sent = parts.length
  receipt : ∀ r ∈ result.2.receipt, r.partsTotal = parts.length ∧ r.partsSent = result.2.sent ∧
    (r.partialDelivery = true ↔ 0 < result.2.sent ∧ result.2.sent < parts.length)

def fresh (wanted : Bool) : Option Receipt := if wanted then some blankReceipt else none

theorem telegramSend_delivers {world : World} {cutting : Cutting} {parts : List (List UInt8)}
    (wanted : Bool) (hpath : world.pathFits = true) (hmemory : world.allocated = true)
    (hplan : planParts world message = some (cutting, parts.length))
    (h : Plan world message cutting header parts) :
    Delivered world message header parts (telegramSend world message (fresh wanted)) := by
  rw [telegramSend, if_neg (by simp [hpath]), if_neg (by simp [hmemory]), hplan]
  dsimp only
  have hcounts : Counts parts.length 0
      ((fresh wanted).map fun receipt => { receipt with partsTotal := parts.length }) := by
    intro r hr
    obtain ⟨before, hbefore, rfl⟩ := Option.map_eq_some_iff.mp hr
    rw [fresh] at hbefore
    split_ifs at hbefore
    obtain rfl := Option.some.inj hbefore
    exact ⟨rfl, rfl, rfl⟩
  generalize (fresh wanted).map (fun receipt => { receipt with partsTotal := parts.length }) =
    receipt at hcounts ⊢
  obtain ⟨accepted, hran⟩ := sendParts_run (p := ⟨message.body, 0, receipt, []⟩) h.cut h.built
    (Nat.zero_add _) h.count (Nat.le_refl _) hcounts h.fits
  generalize sendParts world message cutting parts.length message.body.length
    ⟨message.body, 0, receipt, []⟩ = result at hran ⊢
  obtain ⟨status, q⟩ := result
  obtain ⟨hwithin, hsent, ⟨tries, hless, hmore, htexts⟩, hcomplete, hreceipt, _⟩ := hran
  dsimp only at hsent htexts hcomplete hreceipt hwithin ⊢
  rw [Nat.zero_add] at hsent hreceipt
  rw [partTexts_length] at hwithin hcomplete
  rw [List.nil_append] at htexts
  subst hsent
  split_ifs with hpartial
  · refine ⟨h.built, h.whole, h.nonempty, h.text, h.fits, hwithin, ⟨tries, hless, hmore, htexts⟩,
      hcomplete.mp, ?_⟩
    intro r hr
    obtain ⟨before, hbefore, rfl⟩ := Option.map_eq_some_iff.mp hr
    obtain ⟨htotal, hcount, _⟩ := hreceipt before hbefore
    exact ⟨htotal, hcount, iff_of_true rfl hpartial⟩
  · refine ⟨h.built, h.whole, h.nonempty, h.text, h.fits, hwithin, ⟨tries, hless, hmore, htexts⟩,
      hcomplete.mp, ?_⟩
    intro r hr
    obtain ⟨htotal, hcount, hflag⟩ := hreceipt r hr
    exact ⟨htotal, hcount, iff_of_false (by simp [hflag]) hpartial⟩

theorem telegramSend_refused {world : World} (receipt : Option Receipt)
    (h : world.pathFits = false ∨ world.allocated = false ∨ planParts world message = none) :
    (telegramSend world message receipt).1 ≠ .ok ∧
      (telegramSend world message receipt).2 = ⟨message.body, 0, receipt, []⟩ := by
  rw [telegramSend]
  by_cases hpath : world.pathFits = true
  swap
  · rw [if_pos hpath]
    exact ⟨nofun, rfl⟩
  by_cases hmemory : world.allocated = true
  swap
  · rw [if_neg (not_not.mpr hpath), if_pos hmemory]
    exact ⟨nofun, rfl⟩
  rw [if_neg (not_not.mpr hpath), if_neg (not_not.mpr hmemory)]
  rcases h with hno | hno | hno
  · rw [hpath] at hno
    cases hno
  · rw [hmemory] at hno
    cases hno
  · rw [hno]
    exact ⟨nofun, rfl⟩

theorem effective_body (channel : Channel) (message : Message) :
    (effective channel message).body = message.body := rfl

def finished (world : World) (result : Status × Progress) : Status × Progress :=
  (if result.1 = .ok then world.finish else result.1, result.2)

theorem Delivered.finished {world : World} {parts : List (List UInt8)}
    {result : Status × Progress} (h : Delivered world message header parts result) :
    Delivered world message header parts (finished world result) := by
  refine ⟨h.built, h.whole, h.nonempty, h.text, h.fits, h.within, h.tried, ?_, h.receipt⟩
  intro hok
  rw [TelegramSend.finished] at hok
  split_ifs at hok with hstatus
  · exact h.complete hstatus
  · exact absurd hok hstatus

/-- A notification whose body is UTF-8 is refused as a whole, before any of it is
sent, or its body is sent in numbered texts. -/
theorem notifySend_delivers (world : World) (channel : Channel) (message : Message)
    (wanted : Bool) (hbody : Utf8 message.body) :
    Refused world channel message ∧ (notifySend world channel message wanted).1 ≠ .ok ∧
        (notifySend world channel message wanted).2 = ⟨message.body, 0, fresh wanted, []⟩ ∨
      ¬ Refused world channel message ∧ ∃ header parts,
        Delivered world (effective channel message) header parts
          (notifySend world channel message wanted) := by
  have hsend : notifySend world channel message wanted =
      if ¬ validateMessage message then (.einval, ⟨message.body, 0, fresh wanted, []⟩)
      else if ¬ world.acquired then (.einval, ⟨message.body, 0, fresh wanted, []⟩)
      else finished world (telegramSend world (effective channel message) (fresh wanted)) := rfl
  rw [hsend]
  by_cases hvalid : validateMessage message = true
  swap
  · rw [if_pos hvalid]
    exact .inl ⟨.message (Bool.eq_false_iff.mpr hvalid), nofun, rfl⟩
  rw [if_neg (not_not.mpr hvalid)]
  by_cases hacquired : world.acquired = true
  swap
  · rw [if_pos hacquired]
    exact .inl ⟨.channel (Bool.eq_false_iff.mpr hacquired), nofun, rfl⟩
  rw [if_neg (not_not.mpr hacquired)]
  have hne : (effective channel message).body ≠ [] := by
    rw [validateMessage, Bool.and_eq_true, Bool.and_eq_true] at hvalid
    exact of_decide_eq_true hvalid.1.1
  have hrefused : Refused world channel message → (world.pathFits = false ∨
      world.allocated = false ∨ planParts world (effective channel message) = none) →
      Refused world channel message ∧
        (finished world (telegramSend world (effective channel message) (fresh wanted))).1 ≠ .ok ∧
        (finished world (telegramSend world (effective channel message) (fresh wanted))).2 =
          ⟨message.body, 0, fresh wanted, []⟩ := by
    intro hwhy hcause
    obtain ⟨hstatus, hnothing⟩ := telegramSend_refused (fresh wanted) hcause
    rw [finished, if_neg hstatus]
    exact ⟨hwhy, hstatus, hnothing⟩
  by_cases hpath : world.pathFits = true
  swap
  · have hno := Bool.eq_false_iff.mpr hpath
    exact .inl (hrefused (.path hno) (.inl hno))
  by_cases hmemory : world.allocated = true
  swap
  · have hno := Bool.eq_false_iff.mpr hmemory
    exact .inl (hrefused (.memory hno) (.inr (.inl hno)))
  rcases planParts_cases world (effective_body channel message ▸ hbody) hne with
    ⟨hnone, huncut⟩ | ⟨hclear, cutting, header, parts, hplan, hparts⟩
  · exact .inl (hrefused (.uncuttable huncut) (.inr (.inr hnone)))
  · refine .inr ⟨?_, header, parts,
      (telegramSend_delivers wanted hpath hmemory hplan hparts).finished⟩
    rintro (h | h | h | h | h)
    · rw [hvalid] at h
      cases h
    · rw [hacquired] at h
      cases h
    · rw [hpath] at h
      cases h
    · rw [hmemory] at h
      cases h
    · exact hclear h

def world (textMax : ℕ) : World :=
  ⟨textMax, true, true, true, .ok, 0, fun _ => 0, fun _ => ⟨.ok, ⟨200, 0, 0, []⟩, false⟩⟩

def channel : Channel := ⟨[], 1000, .text⟩

def letters (n : ℕ) : List UInt8 := List.replicate n 97

theorem letters_text (n : ℕ) : Utf8 (letters n) := by
  refine ⟨List.replicate n 'a', ?_⟩
  rw [List.flatMap_replicate]
  exact (List.flatten_replicate_singleton (a := (97 : UInt8))).symm

theorem letters_delivered : ∃ header parts, Delivered (world 64)
    (effective channel ⟨.info, .text, [], [], letters 70, 0⟩) header parts
      (notifySend (world 64) channel ⟨.info, .text, [], [], letters 70, 0⟩ true) := by
  have hall := notifySend_delivers (world 64) channel ⟨.info, .text, [], [], letters 70, 0⟩ true
    (letters_text 70)
  exact (hall.resolve_left fun h => h.2.1 (by decide +kernel)).2

theorem unplanned {world : World} {channel : Channel} {message : Message} {wanted : Bool}
    (h : planParts world (effective channel message) = none) :
    (notifySend world channel message wanted).1 ≠ .ok ∧
      (notifySend world channel message wanted).2.texts = [] := by
  have hsend : notifySend world channel message wanted =
      if ¬ validateMessage message then (.einval, ⟨message.body, 0, fresh wanted, []⟩)
      else if ¬ world.acquired then (.einval, ⟨message.body, 0, fresh wanted, []⟩)
      else finished world (telegramSend world (effective channel message) (fresh wanted)) := rfl
  obtain ⟨hstatus, hnothing⟩ := telegramSend_refused (fresh wanted) (.inr (.inr h))
  rw [hsend]
  split_ifs
  · rw [finished, if_neg hstatus]
    exact ⟨hstatus, congrArg Progress.texts hnothing⟩
  · exact ⟨nofun, rfl⟩
  · exact ⟨nofun, rfl⟩

def markdown (body : List UInt8) : Message := ⟨.info, .markdown, [], [], body, 1000⟩

theorem markdown_header (body : List UInt8) :
    buildHeader (markdown body) 3501 = some (bytes "\\[INFO\\]") := rfl

theorem markdown_unplanned {body : List UInt8} (hlong : 3500 < body.length+9) :
    planParts (world 3500) (markdown body) = none := by
  have hshort : (bytes "\\[INFO\\]").length = 8 := by decide
  have hbody : (markdown body).body = body := rfl
  rw [planParts, show (world 3500).textMax = 3500 from rfl, markdown_header]
  dsimp only
  rw [hshort, hbody, if_pos (.inr (by omega)), if_pos nofun]

/-- A long body in Markdown is refused, though it could be sent in two texts. -/
theorem markdown_refused :
    ((notifySend (world 3500) channel (markdown (letters 3500)) true).1 ≠ .ok ∧
      (notifySend (world 3500) channel (markdown (letters 3500)) true).2.texts = []) ∧
    ∃ header parts, buildHeader (markdown (letters 3500)) 3501 = some header ∧
      parts.flatten = letters 3500 ∧ (∀ part ∈ parts, part ≠ [] ∧ Utf8 part) ∧
      ∀ text ∈ partTexts (markdown (letters 3500)) header parts.length 1 parts,
        text.length ≤ 3500 := by
  have hlength : ∀ n, (letters n).length = n := fun n => List.length_replicate
  constructor
  · have hlong : 3500 < (letters 3500).length+9 := by
      rw [hlength]
      decide
    exact unplanned (markdown_unplanned hlong)
  · refine ⟨_, [letters 1750, letters 1750], markdown_header _, ?_, ?_, ?_⟩
    · rw [List.flatten_cons, List.flatten_cons, List.flatten_nil, List.append_nil, letters, letters,
        List.replicate_append_replicate]
    · intro part hpart
      have heq : part = letters 1750 := by simpa using hpart
      rw [heq]
      refine ⟨?_, letters_text 1750⟩
      rw [Ne, ← List.length_eq_zero_iff, hlength]
      decide
    · apply partTexts_fit (by decide) (by decide)
      intro part hpart
      have heq : part = letters 1750 := by simpa using hpart
      have hshort : (bytes "\\[INFO\\]").length = 8 := by decide
      rw [heq, hlength, hshort]
      decide

end JaszczurHal.TelegramSend
