import JaszczurHal.A2dpMedia
import Mathlib.Data.List.GetD

/-!
# What the media packet parser accepts

The layout of a packet is a row of pieces; the parser accepts a string exactly
when it is such a row, and the poll of the sink then walks over the same frames.
-/

set_option autoImplicit false

namespace JaszczurHal.A2dpMediaLayout
open HalStatus CheckedArith A2dpSink A2dpMedia

variable {α : Type}

structure Offered (f : Format) : Prop where
  rate : f.sampleRateHz = 44100 ∨ f.sampleRateHz = 48000
  channels : f.channels = 1 ∨ f.channels = 2
  mode : f.channelMode ≠ .unset
  blocks : f.blockLength = 4 ∨ f.blockLength = 8 ∨ f.blockLength = 12 ∨ f.blockLength = 16
  subbands : f.subbands = 4 ∨ f.subbands = 8
  minBitpool : 2 ≤ f.minBitpool
  maxBitpool : f.maxBitpool ≤ 53
  ordered : f.minBitpool ≤ f.maxBitpool

def rateOf : ℕ → ℕ
  | 0 => 16000
  | 1 => 32000
  | 2 => 44100
  | _ => 48000

/-- The channel modes of an SBC header; dual channel is none of the sink's. -/
def modeOf : ℕ → Option ChannelMode
  | 0 => some .mono
  | 1 => none
  | 2 => some .stereo
  | _ => some .jointStereo

structure HeaderMatches (f : Format) (header bitpool : ℕ) : Prop where
  rate : rateOf (header/64) = f.sampleRateHz
  blocks : 4*(header/16%4+1) = f.blockLength
  mode : modeOf (header/4%4) = some f.channelMode
  channels : (if header/4%4 = 0 then 1 else 2) = f.channels
  subbands : (if header%2 = 0 then 4 else 8) = f.subbands
  least : f.minBitpool ≤ bitpool
  most : bitpool ≤ f.maxBitpool

def a2dpFrameLength (f : Format) (bitpool : ℕ) : ℕ :=
  let scaleFactors := 4*f.subbands*f.channels/8
  match f.channelMode with
  | .unset => 0
  | .mono => 4+scaleFactors+(f.blockLength*f.channels*bitpool+7)/8
  | .stereo => 4+scaleFactors+(f.blockLength*bitpool+7)/8
  | .jointStereo => 4+scaleFactors+(f.subbands+f.blockLength*bitpool+7)/8

structure IsFrame (f : Format) (frame : List UInt8) : Prop where
  sync : frame.getD 0 0 = 0x9c
  header : HeaderMatches f (frame.getD 1 0).toNat (frame.getD 2 0).toNat
  length : frame.length = a2dpFrameLength f (frame.getD 2 0).toNat

structure Parts where
  header : List UInt8
  csrc : List UInt8
  extension : List UInt8
  info : UInt8
  frames : List (List UInt8)
  padding : List UInt8

def Parts.bytes (p : Parts) : List UInt8 :=
  p.header ++ (p.csrc ++ (p.extension ++ p.info :: (p.frames.flatten ++ p.padding)))

def Parts.first (p : Parts) : ℕ := (p.header.getD 0 0).toNat

structure IsMediaPacket (f : Format) (p : Parts) : Prop where
  header : p.header.length = 12
  version : p.first/64 = 2
  csrc : p.csrc.length = 4*(p.first%16)
  plain : p.first/16%2 = 0 → p.extension = []
  extended : p.first/16%2 = 1 → 4 ≤ p.extension.length ∧ p.extension.length =
    4+4*((p.extension.getD 2 0).toNat*256+(p.extension.getD 3 0).toNat)
  unpadded : p.first/32%2 = 0 → p.padding = []
  padded : p.first/32%2 = 1 → 0 < p.padding.length ∧
    (p.padding.getD (p.padding.length-1) 0).toNat = p.padding.length
  fragmentation : p.info.toNat/16 = 0
  count : p.info.toNat%16 = p.frames.length
  some_frame : 1 ≤ p.frames.length
  frames : ∀ frame ∈ p.frames, IsFrame f frame

section Frames

variable {f : Format} {data payload frame rest : List UInt8} {length header bitpool l : ℕ}

theorem sampleRate_some {n r : ℕ} (h : sampleRate n = some r) (hn : n < 4) : r = rateOf n := by
  interval_cases n <;> simp [sampleRate] at h <;> simp [rateOf, h]

theorem sampleRate_offered {n : ℕ} (hn : n < 4) (h : rateOf n = 44100 ∨ rateOf n = 48000) :
    sampleRate n = some (rateOf n) := by
  interval_cases n <;> simp [rateOf] at h <;> rfl

theorem channelMode_eq {n : ℕ} (hn : n < 4) : channelMode n = modeOf n := by
  interval_cases n <;> rfl

/-- The two ways to write the length agree for a matching header. -/
theorem length_formula (h : HeaderMatches f header bitpool) :
    4+(4*(if header%2 ≠ 0 then 8 else 4)*(if header/4%4 = 0 then 1 else 2)+7)/8+
      ((if header/4%4 = 0 ∨ header/4%4 = 2 then 4*(header/16%4+1)*bitpool
        else (if header%2 ≠ 0 then 8 else 4)+4*(header/16%4+1)*bitpool)+7)/8 =
      a2dpFrameLength f bitpool := by
  have hmode := h.mode
  have hsubbands : (if header%2 ≠ 0 then 8 else 4) = f.subbands := by
    rw [← h.subbands, ite_not]
  have hfactors : (4*f.subbands*f.channels+7)/8 = 4*f.subbands*f.channels/8 := by
    rw [← h.subbands, ← h.channels]
    split_ifs <;> rfl
  rw [hsubbands, h.channels, h.blocks, hfactors, a2dpFrameLength]
  have hlt : header/4%4 < 4 := Nat.mod_lt _ (by decide)
  have hchannels := h.channels
  generalize header/4%4 = index at hmode hlt hchannels ⊢
  interval_cases index
  · have hmono : ChannelMode.mono = f.channelMode := Option.some.inj hmode
    have hone : 1 = f.channels := hchannels
    rw [← hmono, ← hone]
    simp only [Nat.mul_one, true_or, if_true]
  · cases hmode
  · have hstereo : ChannelMode.stereo = f.channelMode := Option.some.inj hmode
    rw [← hstereo]
    rfl
  · have hjoint : ChannelMode.jointStereo = f.channelMode := Option.some.inj hmode
    rw [← hjoint]
    rfl

theorem ok_of_ite {c : Prop} [Decidable c] {status : Status} {a b : α}
    (h : (if c then .error status else .ok a : Except Status α) = .ok b) : ¬ c ∧ a = b := by
  split_ifs at h with hc
  exact ⟨hc, Except.ok.inj h⟩

theorem frameOf_iff (hf : Offered f) (hheader : header < 256) :
    (∃ parsed, frameOf length header bitpool = .ok parsed ∧
      formatEqual f parsed.format = true ∧ parsed.frameLength = l) ↔
      HeaderMatches f header bitpool ∧ l = a2dpFrameLength f bitpool ∧ l ≤ length := by
  have hrate : header/64 < 4 := by omega
  have hmode : header/4%4 < 4 := Nat.mod_lt _ (by decide)
  constructor
  · rintro ⟨parsed, hparsed, hequal, hl⟩
    rw [frameOf] at hparsed
    dsimp only at hparsed
    split at hparsed
    · rename_i r mode hr hm
      by_cases hbitpool : bitpool < 2 ∨ bitpool > 53
      · rw [if_pos hbitpool] at hparsed
        cases hparsed
      · rw [if_neg hbitpool] at hparsed
        obtain ⟨hlong, rfl⟩ := ok_of_ite hparsed
        simp only [formatEqual, Bool.and_eq_true, decide_eq_true_eq] at hequal
        obtain ⟨⟨⟨⟨⟨⟨h₁, h₂⟩, h₃⟩, h₄⟩, h₅⟩, h₆⟩, h₇⟩ := hequal
        have hmatches : HeaderMatches f header bitpool := by
          constructor
          · rw [h₁, sampleRate_some hr hrate]
          · exact h₄.symm
          · rw [h₃, ← hm, channelMode_eq hmode]
          · exact h₂.symm
          · rw [h₅, ite_not]
          · exact h₆
          · exact h₇
        rw [← length_formula hmatches, ← hl]
        exact ⟨hmatches, rfl, not_lt.mp hlong⟩
    · cases hparsed
  · rintro ⟨hmatches, hl, hlength⟩
    have hr := sampleRate_offered hrate (hmatches.rate ▸ hf.rate)
    have hm : channelMode (header/4%4) = some f.channelMode := by
      rw [channelMode_eq hmode, hmatches.mode]
    have hlow := hf.minBitpool
    have hhigh := hf.maxBitpool
    have hleast := hmatches.least
    have hmost := hmatches.most
    rw [← length_formula hmatches] at hl
    rw [frameOf, hr, hm]
    dsimp only
    rw [if_neg (by omega), if_neg (by omega)]
    refine ⟨_, rfl, ?_, hl.symm⟩
    have hsubbands : f.subbands = if header%2 ≠ 0 then 8 else 4 := by
      rw [← hmatches.subbands, ite_not]
    simp only [formatEqual, Bool.and_eq_true, decide_eq_true_eq]
    exact ⟨⟨⟨⟨⟨⟨hmatches.rate.symm, hmatches.channels.symm⟩, trivial⟩, hmatches.blocks.symm⟩,
      hsubbands⟩, hleast⟩, hmost⟩

theorem sbcFrameParse_eq (data : List UInt8) : sbcFrameParse data =
    if data.length < 4 ∨ data.getD 0 0 ≠ 0x9c then .error .eproto
    else frameOf data.length (data.getD 1 0).toNat (data.getD 2 0).toNat := rfl

theorem getD_take (data : List UInt8) {i n : ℕ} (h : i < n) :
    (data.take n).getD i 0 = data.getD i 0 := by
  rw [List.getD_eq_getElem?_getD, List.getElem?_take_of_lt h, ← List.getD_eq_getElem?_getD]

theorem a2dpFrameLength_ge (hf : Offered f) (h : HeaderMatches f header bitpool) :
    7 ≤ a2dpFrameLength f bitpool := by
  have hpool := hf.minBitpool.trans h.least
  rw [← length_formula h]
  apply frameLength_ge
  · split_ifs <;> decide
  · split_ifs <;> decide
  · have hblocks : 1 ≤ 4*(header/16%4+1)*bitpool := Nat.mul_pos (by omega) (by omega)
    split_ifs <;> omega

/-- The frame parser finds a frame of the format exactly where one stands. -/
theorem sbcFrameParse_iff (hf : Offered f) :
    (∃ parsed, sbcFrameParse data = .ok parsed ∧ formatEqual f parsed.format = true ∧
      parsed.frameLength = l) ↔ l ≤ data.length ∧ IsFrame f (data.take l) := by
  rw [sbcFrameParse_eq]
  have hheader := (data.getD 1 0).toNat_lt
  have hfields := fun h : 7 ≤ l => (And.intro (getD_take data (show 0 < l by omega))
    (And.intro (getD_take data (show 1 < l by omega)) (getD_take data (show 2 < l by omega))))
  constructor
  · rintro ⟨parsed, hparsed, hequal, hl⟩
    split_ifs at hparsed with hstart
    push Not at hstart
    obtain ⟨hmatches, hlength, hle⟩ := (frameOf_iff hf hheader).mp ⟨parsed, hparsed, hequal, hl⟩
    obtain ⟨h₀, h₁, h₂⟩ := hfields (hlength ▸ a2dpFrameLength_ge hf hmatches)
    refine ⟨hle, ?_, ?_, ?_⟩
    · rw [h₀, hstart.2]
    · rw [h₁, h₂]
      exact hmatches
    · rw [h₂, List.length_take, Nat.min_eq_left hle, hlength]
  · rintro ⟨hle, hframe⟩
    have hlength := hframe.length
    have hseven := a2dpFrameLength_ge hf hframe.header
    rw [← hlength, List.length_take, Nat.min_eq_left hle] at hseven
    obtain ⟨h₀, h₁, h₂⟩ := hfields hseven
    have hsync := hframe.sync
    have hmatches := hframe.header
    rw [List.length_take, Nat.min_eq_left hle, h₂] at hlength
    rw [h₀] at hsync
    rw [h₁, h₂] at hmatches
    have hstart : ¬ (data.length < 4 ∨ data.getD 0 0 ≠ 0x9c) := by
      push Not
      exact ⟨by omega, hsync⟩
    rw [if_neg hstart]
    exact (frameOf_iff hf hheader).mpr ⟨hmatches, hlength, hle⟩

theorem sbcFrameParse_frame (hf : Offered f) (h : IsFrame f frame) (rest : List UInt8) :
    ∃ parsed, sbcFrameParse (frame ++ rest) = .ok parsed ∧
      formatEqual f parsed.format = true ∧ parsed.frameLength = frame.length := by
  apply (sbcFrameParse_iff hf).mpr
  rw [List.take_left]
  exact ⟨by rw [List.length_append]; omega, h⟩

theorem walkFrames_iff (hf : Offered f) (count cursor last : ℕ) :
    walkFrames f payload count cursor = .ok last ↔
      ∃ (frames : List (List UInt8)) (rest : List UInt8), frames.length = count ∧
        (∀ frame ∈ frames, IsFrame f frame) ∧
        payload.drop cursor = frames.flatten ++ rest ∧ last = cursor+frames.flatten.length := by
  induction count generalizing cursor with
  | zero =>
    rw [walkFrames]
    constructor
    · intro h
      cases h
      exact ⟨[], payload.drop last, rfl, by simp, rfl, rfl⟩
    · rintro ⟨frames, rest, hlength, -, -, hlast⟩
      rw [List.length_eq_zero_iff.mp hlength] at hlast
      rw [hlast]
      rfl
  | succ count ih =>
    rw [walkFrames]
    constructor
    · intro h
      cases hparsed : sbcFrameParse (payload.drop cursor) with
      | error status =>
        rw [hparsed] at h
        cases h
      | ok parsed =>
        rw [hparsed] at h
        dsimp only at h
        split_ifs at h with hequal
        obtain ⟨frames, rest, hlength, hframes, hdrop, hlast⟩ := (ih _).mp h
        obtain ⟨hle, hframe⟩ := (sbcFrameParse_iff hf).mp ⟨parsed, hparsed, hequal, rfl⟩
        refine ⟨(payload.drop cursor).take parsed.frameLength :: frames, rest, ?_, ?_, ?_, ?_⟩
        · rw [List.length_cons, hlength]
        · exact List.forall_mem_cons.mpr ⟨hframe, hframes⟩
        · rw [List.flatten_cons, List.append_assoc, ← hdrop, ← List.drop_drop,
            List.take_append_drop]
        · rw [List.flatten_cons, List.length_append, List.length_take, Nat.min_eq_left hle]
          omega
    · rintro ⟨frames, rest, hlength, hframes, hdrop, hlast⟩
      cases frames with
      | nil => cases hlength
      | cons frame frames =>
        rw [List.flatten_cons, List.append_assoc] at hdrop
        rw [List.flatten_cons, List.length_append] at hlast
        obtain ⟨hframe, hframes⟩ := List.forall_mem_cons.mp hframes
        obtain ⟨parsed, hparsed, hequal, hl⟩ :=
          sbcFrameParse_frame hf hframe (frames.flatten ++ rest)
        rw [hdrop, hparsed]
        dsimp only
        rw [if_pos hequal, hl]
        apply (ih _).mpr
        refine ⟨frames, rest, Nat.succ.inj hlength, hframes, ?_, by omega⟩
        rw [← List.drop_drop, hdrop, List.drop_left]

def payloadParse (data : List UInt8) (expected : Format) (offset last : ℕ) :
    Except Status ParsedPacket :=
  let payload := (data.drop (offset+1)).take (last-(offset+1))
  let frameCount := (data.getD offset 0).toNat%16
  if last ≤ offset ∨ (data.getD offset 0).toNat/16 ≠ 0 ∨ frameCount = 0 ∨ offset+1 ≥ last then
    .error .eproto
  else match walkFrames expected payload frameCount 0 with
  | .error status => .error status
  | .ok cursor => if cursor ≠ payload.length then .error .eproto else .ok ⟨payload, frameCount⟩

theorem mediaPacketParse_eq (data : List UInt8) (expected : Format) :
    mediaPacketParse data expected =
      if data.length < 13 ∨ (data.getD 0 0).toNat/64 ≠ 2 then .error .eproto
      else payloadOffset data >>= fun offset => payloadEnd data offset >>= fun last =>
        payloadParse data expected offset last := by
  rw [mediaPacketParse]
  split_ifs with hstart
  · rfl
  · dsimp only
    congr 1
    funext offset
    congr 1
    funext last
    rw [payloadParse]
    by_cases hempty : last ≤ offset
    · rw [if_pos hempty]
      change Except.error Status.eproto = _
      rw [if_pos (.inl hempty)]
    · rw [if_neg hempty]
      by_cases hheader : (data.getD offset 0).toNat/16 ≠ 0 ∨
          (data.getD offset 0).toNat%16 = 0 ∨ offset+1 ≥ last
      · rw [if_pos hheader]
        change Except.error Status.eproto = _
        rw [if_pos (.inr hheader)]
      · rw [if_neg hheader, if_neg (by tauto)]
        cases walkFrames expected ((data.drop (offset+1)).take (last-(offset+1)))
            ((data.getD offset 0).toNat%16) 0 with
        | error status => rfl
        | ok cursor =>
          dsimp only [bind, Except.bind]
          split_ifs <;> rfl

theorem flatten_pos (hf : Offered f) {frames : List (List UInt8)} (hsome : 1 ≤ frames.length)
    (hframes : ∀ frame ∈ frames, IsFrame f frame) : 0 < frames.flatten.length := by
  obtain ⟨frame, hframe⟩ := List.exists_mem_of_length_pos hsome
  have hseven := a2dpFrameLength_ge hf (hframes frame hframe).header
  have hsub := (List.sublist_flatten_of_mem hframe).length_le
  rw [(hframes frame hframe).length] at hsub
  omega

theorem getD_drop (data : List UInt8) (n i : ℕ) :
    (data.drop n).getD i 0 = data.getD (n+i) 0 := by
  rw [List.getD_eq_getElem?_getD, List.getElem?_drop, ← List.getD_eq_getElem?_getD]

theorem payloadParse_iff (hf : Offered f) {offset last : ℕ} {parsed : ParsedPacket}
    (hlast : last ≤ data.length) :
    payloadParse data f offset last = .ok parsed ↔
      ∃ (info : UInt8) (frames : List (List UInt8)),
        data.drop offset = info :: (frames.flatten ++ data.drop last) ∧
        offset+1+frames.flatten.length = last ∧ info.toNat/16 = 0 ∧
        info.toNat%16 = frames.length ∧ 1 ≤ frames.length ∧ (∀ frame ∈ frames, IsFrame f frame) ∧
        parsed = ⟨frames.flatten, frames.length⟩ := by
  rw [payloadParse]
  constructor
  · intro h
    split_ifs at h with hrefused
    push Not at hrefused
    obtain ⟨hle, hfragment, hcount, hlt⟩ := hrefused
    have hoffset : offset < data.length := by omega
    have hdrop : data.drop offset = data.getD offset 0 :: data.drop (offset+1) := by
      rw [List.drop_eq_getElem_cons hoffset, List.getD_eq_getElem?_getD,
        List.getElem?_eq_getElem hoffset]
      rfl
    have hsplit : data.drop (offset+1) =
        (data.drop (offset+1)).take (last-(offset+1)) ++ data.drop last := by
      have hagain := (List.take_append_drop (last-(offset+1)) (data.drop (offset+1))).symm
      rw [List.drop_drop, Nat.add_sub_cancel' (by omega)] at hagain
      exact hagain
    have hlength : ((data.drop (offset+1)).take (last-(offset+1))).length = last-(offset+1) := by
      rw [List.length_take, List.length_drop]
      omega
    generalize (data.drop (offset+1)).take (last-(offset+1)) = payload at h hsplit hlength
    cases hwalk : walkFrames f payload ((data.getD offset 0).toNat%16) 0 with
    | error status =>
      rw [hwalk] at h
      cases h
    | ok cursor =>
      rw [hwalk] at h
      dsimp only at h
      obtain ⟨hcursor, rfl⟩ := ok_of_ite h
      obtain ⟨frames, rest, hframesCount, hframes, hpayload, hend⟩ :=
        (walkFrames_iff hf _ _ _).mp hwalk
      rw [List.drop_zero] at hpayload
      have hrest : rest = [] := by
        have htotal := congrArg List.length hpayload
        rw [List.length_append] at htotal
        exact List.length_eq_zero_iff.mp (by omega)
      rw [hrest, List.append_nil] at hpayload
      rw [hpayload] at hsplit hlength ⊢
      rw [hdrop, hsplit]
      exact ⟨_, frames, rfl, by omega, by omega, hframesCount.symm, by omega, hframes, by
        rw [hframesCount]⟩
  · rintro ⟨info, frames, hdrop, hend, hfragment, hcount, hsome, hframes, rfl⟩
    have hinfo : data.getD offset 0 = info := by
      have hhead := getD_drop data offset 0
      rw [hdrop, Nat.add_zero] at hhead
      exact hhead.symm
    have hpayload : (data.drop (offset+1)).take (last-(offset+1)) = frames.flatten := by
      have htail := congrArg List.tail hdrop
      rw [List.tail_drop, List.tail_cons] at htail
      rw [htail, ← hend, Nat.add_sub_cancel_left, List.take_left]
    have hlong := flatten_pos hf hsome hframes
    have hwalk : walkFrames f frames.flatten frames.length 0 = .ok frames.flatten.length :=
      (walkFrames_iff hf _ _ _).mpr
        ⟨frames, [], rfl, hframes, by rw [List.append_nil, List.drop_zero], by omega⟩
    rw [if_neg (by rw [hinfo]; omega), hpayload, hinfo, hcount, hwalk]
    dsimp only
    rw [if_neg (by simp)]

theorem payloadOffset_iff {offset : ℕ} : payloadOffset data = .ok offset ↔
    offset ≤ data.length ∧
      ((data.getD 0 0).toNat/16%2 = 0 ∧ offset = 12+4*((data.getD 0 0).toNat%16) ∨
        (data.getD 0 0).toNat/16%2 = 1 ∧ ∃ base, base = 12+4*((data.getD 0 0).toNat%16) ∧
          offset = base+(4+4*((data.getD (base+2) 0).toNat*256+(data.getD (base+3) 0).toNat))) := by
  rw [payloadOffset]
  generalize 12+4*((data.getD 0 0).toNat%16) = base
  by_cases hbase : base > data.length
  · rw [if_pos hbase]
    constructor
    · intro h
      cases h
    · rintro ⟨hle, ⟨-, rfl⟩ | ⟨-, _, rfl, rfl⟩⟩
      · omega
      · omega
  · rw [if_neg hbase]
    by_cases hplain : (data.getD 0 0).toNat/16%2 = 0
    · rw [if_pos hplain]
      constructor
      · intro h
        cases h
        exact ⟨not_lt.mp hbase, .inl ⟨hplain, rfl⟩⟩
      · rintro ⟨-, ⟨-, rfl⟩ | ⟨hextended, -⟩⟩
        · rfl
        · omega
    · rw [if_neg hplain]
      by_cases hshort : data.length-base < 4
      · rw [if_pos hshort]
        constructor
        · intro h
          cases h
        · rintro ⟨hle, ⟨habsent, -⟩ | ⟨-, _, rfl, rfl⟩⟩
          · exact absurd habsent hplain
          · omega
      · rw [if_neg hshort]
        constructor
        · intro h
          dsimp only at h
          split_ifs at h with hlong
          cases h
          exact ⟨not_lt.mp hlong, .inr ⟨by omega, base, rfl, by omega⟩⟩
        · rintro ⟨hle, ⟨habsent, -⟩ | ⟨-, _, rfl, rfl⟩⟩
          · exact absurd habsent hplain
          · rw [if_neg (by omega), Nat.add_assoc, Nat.mul_comm _ 4]

theorem payloadEnd_iff {offset last : ℕ} : payloadEnd data offset = .ok last ↔
    (data.getD 0 0).toNat/32%2 = 0 ∧ last = data.length ∨
      (data.getD 0 0).toNat/32%2 = 1 ∧ ∃ padding, padding = (data.getD (data.length-1) 0).toNat ∧
        padding ≠ 0 ∧ padding ≤ data.length-offset ∧ last = data.length-padding := by
  rw [payloadEnd]
  by_cases hplain : (data.getD 0 0).toNat/32%2 = 0
  · rw [if_pos hplain]
    constructor
    · intro h
      cases h
      exact .inl ⟨hplain, rfl⟩
    · rintro (⟨-, rfl⟩ | ⟨hpadded, -⟩)
      · rfl
      · omega
  · rw [if_neg hplain]
    constructor
    · intro h
      dsimp only at h
      split_ifs at h with hrefused
      cases h
      exact .inr ⟨by omega, _, rfl, by omega, by omega, rfl⟩
    · rintro (⟨habsent, -⟩ | ⟨-, _, rfl, hzero, hle, rfl⟩)
      · exact absurd habsent hplain
      · rw [if_neg (by omega)]

theorem parts_drop (p : Parts) : p.bytes.drop (p.header.length+p.csrc.length+p.extension.length) =
    p.info :: (p.frames.flatten ++ p.padding) := by
  rw [Parts.bytes, Nat.add_assoc, ← List.drop_drop, List.drop_left, ← List.drop_drop,
    List.drop_left, List.drop_left]

/-- A packet with this layout is accepted with its frames. -/
theorem accepts_parts (hf : Offered f) {p : Parts} (h : IsMediaPacket f p) :
    mediaPacketParse p.bytes f = .ok ⟨p.frames.flatten, p.frames.length⟩ := by
  have hlength : p.bytes.length = 12+4*(p.first%16)+p.extension.length+1+p.frames.flatten.length+
      p.padding.length := by
    rw [Parts.bytes]
    simp only [List.length_append, List.length_cons, h.header, h.csrc]
    omega
  have hfirst : (p.bytes.getD 0 0).toNat = p.first := by
    rw [Parts.bytes, List.getD_append _ _ _ _ (by rw [h.header]; decide), Parts.first]
  have hdrop := parts_drop p
  rw [h.header, h.csrc] at hdrop
  have hoffset : payloadOffset p.bytes = .ok (12+4*(p.first%16)+p.extension.length) := by
    apply payloadOffset_iff.mpr
    rw [hfirst]
    refine ⟨by omega, ?_⟩
    by_cases hplain : p.first/16%2 = 0
    · exact .inl ⟨hplain, by rw [h.plain hplain]; rfl⟩
    · have hone : p.first/16%2 = 1 := by omega
      obtain ⟨hfour, hwords⟩ := h.extended hone
      have hread : ∀ i < 4, p.bytes.getD (12+4*(p.first%16)+i) 0 = p.extension.getD i 0 := by
        intro i hi
        have hpast : p.header.length+p.csrc.length = 12+4*(p.first%16) := by rw [h.header, h.csrc]
        rw [Parts.bytes, ← List.append_assoc, List.getD_append_right _ _ _ _ (by
          rw [List.length_append]; omega), List.length_append, hpast, Nat.add_sub_cancel_left,
          List.getD_append _ _ _ _ (by omega)]
      refine .inr ⟨hone, _, rfl, ?_⟩
      rw [hread 2 (by omega), hread 3 (by omega)]
      omega
  have hlast : p.bytes.drop (12+4*(p.first%16)+p.extension.length+1+p.frames.flatten.length) =
      p.padding := by
    rw [Nat.add_assoc _ 1, ← List.drop_drop, hdrop, Nat.add_comm 1, List.drop_succ_cons,
      List.drop_left]
  have hend : payloadEnd p.bytes (12+4*(p.first%16)+p.extension.length) =
      .ok (12+4*(p.first%16)+p.extension.length+1+p.frames.flatten.length) := by
    apply payloadEnd_iff.mpr
    rw [hfirst]
    by_cases hplain : p.first/32%2 = 0
    · refine .inl ⟨hplain, ?_⟩
      rw [hlength, h.unpadded hplain]
      rfl
    · have hone : p.first/32%2 = 1 := by omega
      obtain ⟨hsome, hcount⟩ := h.padded hone
      have hread : p.bytes.getD (p.bytes.length-1) 0 =
          p.padding.getD (p.padding.length-1) 0 := by
        rw [← hlast, getD_drop, hlast]
        congr 1
        omega
      exact .inr ⟨hone, _, rfl, by rw [hread]; omega, by rw [hread]; omega,
        by rw [hread]; omega⟩
  have hpos := flatten_pos hf h.some_frame h.frames
  rw [mediaPacketParse_eq, if_neg (by rw [hfirst, h.version]; omega), hoffset]
  simp only [bind, Except.bind, hend]
  apply (payloadParse_iff hf (by omega)).mpr
  exact ⟨p.info, p.frames, by rw [hdrop, hlast], by omega, h.fragmentation, h.count,
    h.some_frame, h.frames, rfl⟩

theorem parts_of_accepted (hf : Offered f) {parsed : ParsedPacket}
    (h : mediaPacketParse data f = .ok parsed) :
    ∃ p : Parts, IsMediaPacket f p ∧ p.bytes = data ∧
      parsed = ⟨p.frames.flatten, p.frames.length⟩ := by
  rw [mediaPacketParse_eq] at h
  split_ifs at h with hstart
  push Not at hstart
  obtain ⟨hlong, hversion⟩ := hstart
  cases hoffset : payloadOffset data with
  | error status =>
    rw [hoffset] at h
    cases h
  | ok offset =>
    cases hend : payloadEnd data offset with
    | error status =>
      simp only [hoffset, hend, bind, Except.bind] at h
      cases h
    | ok last =>
      simp only [hoffset, hend, bind, Except.bind] at h
      have hlast := payloadEnd_le hend
      obtain ⟨info, frames, hdrop, hsum, hfragment, hcount, hsome, hframes, hparsed⟩ :=
        (payloadParse_iff hf hlast).mp h
      obtain ⟨hle, hcases⟩ := payloadOffset_iff.mp hoffset
      have hpos := flatten_pos hf hsome hframes
      generalize hfirst : (data.getD 0 0).toNat = first at hversion hcases
      obtain ⟨base, hbase⟩ : ∃ base, base = 12+4*(first%16) := ⟨_, rfl⟩
      have hbefore : base ≤ offset := by
        rcases hcases with ⟨-, rfl⟩ | ⟨-, _, rfl, rfl⟩
        · omega
        · omega
      refine ⟨⟨data.take 12, (data.drop 12).take (base-12), (data.drop base).take (offset-base),
        info, frames, data.drop last⟩, ?_, ?_, hparsed⟩
      · have hpfirst : ((data.take 12).getD 0 0).toNat = first := by
          rw [getD_take data (by decide), hfirst]
        have hext : ((data.drop base).take (offset-base)).length = offset-base := by
          rw [List.length_take, List.length_drop]
          omega
        constructor
        · rw [List.length_take]
          omega
        · exact (congrArg (·/64) hpfirst).trans hversion
        · rw [Parts.first, hpfirst, List.length_take, List.length_drop]
          omega
        · intro hplain
          rw [Parts.first, hpfirst] at hplain
          rw [← List.length_eq_zero_iff, hext]
          omega
        · intro hextended
          rw [Parts.first, hpfirst] at hextended
          rcases hcases with ⟨habsent, -⟩ | ⟨-, _, rfl, hoff⟩
          · omega
          · subst hbase
            dsimp only
            rw [hext, getD_take _ (by omega), getD_take _ (by omega), getD_drop, getD_drop]
            omega
        · intro hplain
          rw [Parts.first, hpfirst] at hplain
          rcases payloadEnd_iff.mp hend with ⟨-, rfl⟩ | ⟨hpadded, -⟩
          · exact List.drop_length
          · omega
        · intro hpadded
          rw [Parts.first, hpfirst] at hpadded
          rcases payloadEnd_iff.mp hend with ⟨habsent, -⟩ | ⟨-, padding, hpadding, hzero, hfits, hl⟩
          · omega
          · have hone : last+(data.length-last-1) = data.length-1 := by omega
            dsimp only
            rw [List.length_drop, getD_drop, hone, ← hpadding]
            omega
        · exact hfragment
        · exact hcount
        · exact hsome
        · exact hframes
      · have h₁ : (data.drop 12).take (base-12) ++ data.drop base = data.drop 12 := by
          have hcut := List.take_append_drop (base-12) (data.drop 12)
          rw [List.drop_drop, Nat.add_sub_cancel' (by omega)] at hcut
          exact hcut
        have h₂ : (data.drop base).take (offset-base) ++ data.drop offset = data.drop base := by
          have hcut := List.take_append_drop (offset-base) (data.drop base)
          rw [List.drop_drop, Nat.add_sub_cancel' hbefore] at hcut
          exact hcut
        rw [Parts.bytes]
        dsimp only
        rw [← hdrop, h₂, h₁, List.take_append_drop]

inductive Stop where
  | finished
  | unparsed (status : Status)
  | refused (status : Status)
  deriving DecidableEq

/-- The decoding loop of the poll from frame `index` on; the decoder keeps a state,
so that its answer depends on the index too. -/
def pollFrames (decode : ℕ → List UInt8 → Status) (payload : List UInt8) :
    ℕ → ℕ → ℕ → List (List UInt8) × Stop
  | 0, _, _ => ([], .finished)
  | count+1, index, offset =>
    match sbcFrameParse (payload.drop offset) with
    | .error status => ([], .unparsed status)
    | .ok parsed =>
      let frame := (payload.drop offset).take parsed.frameLength
      if decode index frame ≠ .ok then ([frame], .refused (decode index frame))
      else
        let rest := pollFrames decode payload count (index+1) (offset+parsed.frameLength)
        (frame :: rest.1, rest.2)

def checkedFrames (expected : Format) (payload : List UInt8) : ℕ → ℕ → List (List UInt8)
  | 0, _ => []
  | count+1, cursor =>
    match sbcFrameParse (payload.drop cursor) with
    | .error _ => []
    | .ok parsed =>
      (payload.drop cursor).take parsed.frameLength ::
        if formatEqual expected parsed.format then
          checkedFrames expected payload count (cursor+parsed.frameLength)
        else []

theorem checkedFrames_eq (hf : Offered f) {frames : List (List UInt8)} {cursor : ℕ}
    (hframes : ∀ frame ∈ frames, IsFrame f frame)
    (hdrop : payload.drop cursor = frames.flatten ++ rest) :
    checkedFrames f payload frames.length cursor = frames := by
  induction frames generalizing cursor with
  | nil => rfl
  | cons frame frames ih =>
    obtain ⟨hframe, hframes⟩ := List.forall_mem_cons.mp hframes
    rw [List.flatten_cons, List.append_assoc] at hdrop
    obtain ⟨parsed, hparsed, hequal, hl⟩ :=
      sbcFrameParse_frame hf hframe (frames.flatten ++ rest)
    rw [List.length_cons, checkedFrames, hdrop, hparsed]
    dsimp only
    rw [if_pos hequal, hl, List.take_left, ih hframes]
    rw [← List.drop_drop, hdrop, List.drop_left]

/-- The poll sees the same frames, up to the first that the decoder refuses. -/
theorem pollFrames_eq (hf : Offered f) (decode : ℕ → List UInt8 → Status)
    (index : ℕ) {frames : List (List UInt8)} {offset : ℕ} (hframes : ∀ frame ∈ frames, IsFrame f frame)
    (hdrop : payload.drop offset = frames.flatten ++ rest) :
    (pollFrames decode payload frames.length index offset).1 <+: frames ∧
      (∀ status, (pollFrames decode payload frames.length index offset).2 ≠ .unparsed status) ∧
      ((∀ i frame, frames[i]? = some frame → decode (index+i) frame = .ok) →
        pollFrames decode payload frames.length index offset = (frames, .finished)) := by
  induction frames generalizing index offset with
  | nil => exact ⟨List.prefix_rfl, by simp [pollFrames], fun _ => rfl⟩
  | cons frame frames ih =>
    obtain ⟨hframe, hframes⟩ := List.forall_mem_cons.mp hframes
    rw [List.flatten_cons, List.append_assoc] at hdrop
    obtain ⟨parsed, hparsed, -, hl⟩ := sbcFrameParse_frame hf hframe (frames.flatten ++ rest)
    have hnext : payload.drop (offset+frame.length) = frames.flatten ++ rest := by
      rw [← List.drop_drop, hdrop, List.drop_left]
    obtain ⟨hvisited, hparses, hall⟩ := ih (index+1) hframes hnext
    rw [List.length_cons, pollFrames, hdrop, hparsed]
    dsimp only
    rw [hl, List.take_left]
    by_cases hdecode : decode index frame ≠ .ok
    · rw [if_pos hdecode]
      refine ⟨⟨frames, rfl⟩, by simp, fun hok => ?_⟩
      exact absurd (hok 0 frame rfl) hdecode
    · rw [if_neg hdecode]
      refine ⟨(List.prefix_cons_inj frame).mpr hvisited, hparses, fun hok => ?_⟩
      rw [hall fun i later hlater => by
        rw [Nat.add_assoc, Nat.add_comm 1 i]
        exact hok (i+1) later hlater]

end Frames

/-- Every read is inside the string and the parser returns; it accepts exactly
the packets with the layout above, and the poll then meets the same frames. -/
theorem media_packet_exact (data : List UInt8) (f : Format) (hf : Offered f) :
    ∃ r, mediaParse data f = .ok r ∧
      ((∃ media, r = .ok media) ↔ ∃ p, IsMediaPacket f p ∧ p.bytes = data) ∧
      ∀ media, r = .ok media → ∃ p, IsMediaPacket f p ∧ p.bytes = data ∧
        media.parsed = ⟨p.frames.flatten, p.frames.length⟩ ∧
        checkedFrames f media.parsed.frames media.parsed.frameCount 0 = p.frames ∧
        ∀ decode : ℕ → List UInt8 → Status,
          let poll := pollFrames decode media.parsed.frames media.parsed.frameCount 0 0
          poll.1 <+: p.frames ∧ (∀ status, poll.2 ≠ .unparsed status) ∧
            ((∀ i frame, p.frames[i]? = some frame → decode i frame = .ok) →
              poll = (p.frames, .finished)) := by
  obtain ⟨r, hr, hview⟩ := safe_mediaParse data f
  have hparsed : ∀ media, r = .ok media → mediaPacketParse data f = .ok media.parsed := by
    intro media hmedia
    rw [← show r.map MediaFrames.parsed = mediaPacketParse data f from hview, hmedia]
    rfl
  refine ⟨r, hr, ⟨?_, ?_⟩, ?_⟩
  · rintro ⟨media, hmedia⟩
    obtain ⟨p, hp, hbytes, -⟩ := parts_of_accepted hf (hparsed media hmedia)
    exact ⟨p, hp, hbytes⟩
  · rintro ⟨p, hp, hbytes⟩
    have haccepts := accepts_parts hf hp
    rw [hbytes] at haccepts
    cases r with
    | ok media => exact ⟨media, rfl⟩
    | error status =>
      rw [View, haccepts] at hview
      cases hview
  · intro media hmedia
    obtain ⟨p, hp, hbytes, hpieces⟩ := parts_of_accepted hf (hparsed media hmedia)
    have hdrop : media.parsed.frames.drop 0 = p.frames.flatten ++ [] := by
      rw [hpieces, List.drop_zero, List.append_nil]
    refine ⟨p, hp, hbytes, hpieces, ?_, fun decode => ?_⟩
    · have hcheck := checkedFrames_eq hf hp.frames hdrop
      rwa [show p.frames.length = media.parsed.frameCount by rw [hpieces]] at hcheck
    · have hpoll := pollFrames_eq hf decode 0 hp.frames hdrop
      simp only [Nat.zero_add] at hpoll
      rwa [show p.frames.length = media.parsed.frameCount by rw [hpieces]] at hpoll

theorem shortFormat_offered : Offered shortFormat where
  rate := .inl rfl
  channels := .inl rfl
  mode := by decide
  blocks := .inl rfl
  subbands := .inl rfl
  minBitpool := le_rfl
  maxBitpool := by decide
  ordered := le_rfl

def layeredPacket : List UInt8 :=
  0xB1 :: List.replicate 11 0 ++ List.replicate 4 0 ++ [0, 0, 0, 1, 0, 0, 0, 0] ++
    2 :: (shortFrame ++ shortFrame) ++ [0, 0, 3]

theorem layered_packet_accepted :
    ∃ p, IsMediaPacket shortFormat p ∧ p.bytes = layeredPacket := by
  obtain ⟨r, hr, hiff, -⟩ := media_packet_exact layeredPacket shortFormat shortFormat_offered
  have haccepted : (mediaParse layeredPacket shortFormat).toOption.map Except.isOk = some true := by
    decide +kernel
  rw [hr] at haccepted
  cases r with
  | error status => cases Option.some.inj haccepted
  | ok media => exact hiff.mp ⟨media, rfl⟩

end JaszczurHal.A2dpMediaLayout
