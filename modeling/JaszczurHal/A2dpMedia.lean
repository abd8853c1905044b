import JaszczurHal.A2dpPlayback
import JaszczurHal.CheckedArith

/-!
# Media packets of the A2DP sink

An RTP packet carries a list of sources, an extension, padding and between them
a row of SBC frames. The parser is written here with every read checked; what it
accepts is the layout of the packet.
-/

set_option autoImplicit false

namespace JaszczurHal.A2dpMedia
open HalStatus CheckedArith A2dpSink

variable {α β : Type}

def attempt (m : Checked (Except Status α)) (f : α → Checked (Except Status β)) :
    Checked (Except Status β) := do
  match ← m with
  | .error status => return .error status
  | .ok a => f a

/-- The part of `jh_bluetooth_a2dp_sbc_frame_parse` behind the three reads. -/
def frameOf (length header bitpool : ℕ) : Except Status SbcFrame :=
  let channelIndex := header/4%4
  let subbands := if header%2 ≠ 0 then 8 else 4
  let channels := if channelIndex = 0 then 1 else 2
  let blocks := 4*(header/16%4+1)
  match sampleRate (header/64), channelMode channelIndex with
  | some sampleRateHz, some mode =>
    if bitpool < 2 ∨ bitpool > 53 then .error .eproto
    else
      let scaleFactorBytes := (4*subbands*channels+7)/8
      let audioBits := if channelIndex = 0 ∨ channelIndex = 2 then blocks*bitpool
        else subbands+blocks*bitpool
      let frameLength := 4+scaleFactorBytes+(audioBits+7)/8
      if frameLength > length then .error .eproto
      else .ok ⟨⟨sampleRateHz, channels, mode, blocks, subbands, bitpool, bitpool⟩, frameLength⟩
  | _, _ => .error .eunsupported

def frameParse (data : List UInt8) : Checked (Except Status SbcFrame) :=
  if data.length < 4 then return .error .eproto
  else do
    let sync ← readAt data 0
    if sync ≠ 0x9c then return .error .eproto
    else do
      let header ← readAt data 1
      let bitpool ← readAt data 2
      return frameOf data.length header.toNat bitpool.toNat

def framesParse (expected : Format) (payload : List UInt8) :
    ℕ → ℕ → Checked (Except Status ℕ)
  | 0, cursor => return .ok cursor
  | count+1, cursor =>
    attempt (frameParse (payload.drop cursor)) fun frame =>
      if formatEqual expected frame.format then
        framesParse expected payload count (cursor+frame.frameLength)
      else return .error .eproto

def sizeMax : ℕ := 2^32-1

def offsetParse (data : List UInt8) : Checked (Except Status ℕ) := do
  let first ← readAt data 0
  let offset := 12+4*(first.toNat%16)
  if offset > data.length then return .error .eproto
  else if first.toNat/16%2 = 0 then return .ok offset
  else if data.length-offset < 4 then return .error .eproto
  else do
    let high ← readAt data (offset+2)
    let low ← readAt data (offset+3)
    let extensionWords := high.toNat*256+low.toNat
    if extensionWords > (sizeMax-offset-4)/4 then return .error .eoverflow
    else
      let offset := offset+4+extensionWords*4
      if offset > data.length then return .error .eproto else return .ok offset

def endParse (data : List UInt8) (offset : ℕ) : Checked (Except Status ℕ) := do
  let first ← readAt data 0
  if first.toNat/32%2 = 0 then return .ok data.length
  else do
    let padding ← readAt data (data.length-1)
    if padding.toNat = 0 ∨ padding.toNat > data.length-offset then return .error .eproto
    else return .ok (data.length-padding.toNat)

structure MediaFrames where
  parsed : ParsedPacket
  sequenceNumber : ℕ

def mediaParse (data : List UInt8) (expected : Format) : Checked (Except Status MediaFrames) :=
  if data.length < 13 then return .error .eproto
  else do
    let first ← readAt data 0
    if first.toNat/64 ≠ 2 then return .error .eproto
    else
      attempt (offsetParse data) fun offset =>
      attempt (endParse data offset) fun last =>
      if last ≤ offset then return .error .eproto
      else do
        let sbcHeader ← readAt data offset
        let frameCount := sbcHeader.toNat%16
        if sbcHeader.toNat/16 ≠ 0 ∨ frameCount = 0 ∨ offset+1 ≥ last then return .error .eproto
        else
          let payload := (data.drop (offset+1)).take (last-(offset+1))
          attempt (framesParse expected payload frameCount 0) fun cursor =>
          if cursor ≠ payload.length then return .error .eproto
          else do
            let high ← readAt data 2
            let low ← readAt data 3
            return .ok ⟨⟨payload, frameCount⟩, high.toNat*256+low.toNat⟩

section Reads

variable {data payload : List UInt8} {expected : Format} {offset last count cursor : ℕ}

theorem safe_attempt {γ : Type} {m : Checked (Except Status α)}
    {f : α → Checked (Except Status β)} {x : Except Status α} {g : α → Except Status γ}
    {R : Except Status β → Except Status γ → Prop}
    (herror : ∀ status, R (.error status) (.error status))
    (hm : Safe m (· = x)) (hf : ∀ a, x = .ok a → Safe (f a) (R · (g a))) :
    Safe (attempt m f) (R · (x >>= g)) := by
  apply safe_bind hm
  intro r hr
  rw [hr]
  cases x with
  | error status => exact safe_pure (herror status)
  | ok a => exact hf a rfl

/-- A read in range, as the models that default to zero write it. -/
theorem safe_read {i : ℕ} (h : i < data.length) : Safe (readAt data i) (· = data.getD i 0) := by
  apply safe_mono (safe_readAt h)
  intro b hb
  rw [hb, List.getD_eq_getElem?_getD, List.getElem?_eq_getElem h]
  rfl

theorem safe_frameParse (data : List UInt8) : Safe (frameParse data) (· = sbcFrameParse data) := by
  rw [frameParse, sbcFrameParse]
  by_cases hshort : data.length < 4
  · rw [if_pos hshort, if_pos (.inl hshort)]
    exact safe_pure rfl
  · rw [if_neg hshort]
    apply safe_bind (safe_read (by omega))
    intro sync hsync
    rw [hsync]
    by_cases hword : data.getD 0 0 ≠ 0x9c
    · rw [if_pos hword, if_pos (.inr hword)]
      exact safe_pure rfl
    · rw [if_neg hword, if_neg (by tauto)]
      apply safe_bind (safe_read (i := 1) (by omega))
      intro header hheader
      apply safe_bind (safe_read (i := 2) (by omega))
      intro bitpool hbitpool
      rw [hheader, hbitpool]
      exact safe_pure rfl

theorem safe_framesParse (count cursor : ℕ) : Safe (framesParse expected payload count cursor)
    (· = walkFrames expected payload count cursor) := by
  induction count generalizing cursor with
  | zero => exact safe_pure rfl
  | succ count ih =>
    have hstep : walkFrames expected payload (count+1) cursor =
        sbcFrameParse (payload.drop cursor) >>= fun frame =>
          if formatEqual expected frame.format then
            walkFrames expected payload count (cursor+frame.frameLength)
          else .error .eproto := by
      rw [walkFrames]
      cases sbcFrameParse (payload.drop cursor) with
      | error status => rfl
      | ok frame => rfl
    rw [hstep, framesParse]
    apply safe_attempt (R := Eq) (fun _ => rfl) (safe_frameParse _)
    intro frame _
    split_ifs
    · exact ih _
    · exact safe_pure rfl

theorem safe_offsetParse (h : 13 ≤ data.length) :
    Safe (offsetParse data) (· = payloadOffset data) := by
  rw [offsetParse, payloadOffset]
  apply safe_bind (safe_read (by omega))
  intro first hfirst
  rw [hfirst]
  dsimp only
  split_ifs with hsources hplain hshort
  · exact safe_pure rfl
  · exact safe_pure rfl
  · exact safe_pure rfl
  all_goals
    apply safe_bind (safe_read (by omega))
    intro high hhigh
    apply safe_bind (safe_read (by omega))
    intro low hlow
    have h₁ := high.toNat_lt
    have h₂ := low.toNat_lt
    have hfits : ¬ high.toNat*256+low.toNat >
        (sizeMax-(12+4*((data.getD 0 0).toNat%16))-4)/4 := by
      simp only [sizeMax]
      omega
    rw [if_neg hfits, hhigh, hlow]
  · rename_i hlong
    rw [if_pos hlong]
    exact safe_pure rfl
  · rename_i hlong
    rw [if_neg hlong]
    exact safe_pure rfl

theorem safe_endParse (h : 13 ≤ data.length) :
    Safe (endParse data offset) (· = payloadEnd data offset) := by
  rw [endParse, payloadEnd]
  apply safe_bind (safe_read (by omega))
  intro first hfirst
  rw [hfirst]
  by_cases hplain : (data.getD 0 0).toNat/32%2 = 0
  · rw [if_pos hplain, if_pos hplain]
    exact safe_pure rfl
  · rw [if_neg hplain, if_neg hplain]
    apply safe_bind (safe_read (by omega))
    intro padding hpadding
    rw [hpadding]
    dsimp only
    split_ifs
    · exact safe_pure rfl
    · exact safe_pure rfl

def View (r : Except Status MediaFrames) (parsed : Except Status ParsedPacket) : Prop :=
  r.map MediaFrames.parsed = parsed

theorem safe_mediaParse (data : List UInt8) (expected : Format) :
    Safe (mediaParse data expected) (View · (mediaPacketParse data expected)) := by
  have herror : ∀ status, View (.error status) (.error status) := fun _ => rfl
  rw [mediaParse, mediaPacketParse]
  by_cases hshort : data.length < 13
  · rw [if_pos hshort, if_pos (.inl hshort)]
    exact safe_pure rfl
  · rw [if_neg hshort]
    apply safe_bind (safe_read (by omega))
    intro first hfirst
    rw [hfirst]
    by_cases hversion : (data.getD 0 0).toNat/64 ≠ 2
    · rw [if_pos hversion, if_pos (.inr hversion)]
      exact safe_pure rfl
    · rw [if_neg hversion, if_neg (by tauto)]
      apply safe_attempt herror (safe_offsetParse (by omega))
      intro offset hoffset
      apply safe_attempt herror (safe_endParse (by omega))
      intro last hlast
      have hend := payloadEnd_le hlast
      by_cases hempty : last ≤ offset
      · rw [if_pos hempty, if_pos hempty]
        exact safe_pure rfl
      · rw [if_neg hempty, if_neg hempty]
        apply safe_bind (safe_read (by omega))
        intro sbcHeader hheader
        rw [hheader]
        dsimp only
        split_ifs with hrefused
        · exact safe_pure rfl
        · apply safe_attempt herror (safe_framesParse _ _)
          intro cursor _
          split_ifs
          · exact safe_pure rfl
          · apply safe_bind (safe_read (by omega))
            intro high _
            apply safe_bind (safe_read (by omega))
            intro low _
            exact safe_pure rfl

end Reads

end JaszczurHal.A2dpMedia
