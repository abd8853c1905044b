import JaszczurHal.CanObjects

/-!
# Buffers of the MCP2515

The chip has the remote bit of a standard frame it received beside the
identifier, where a frame to send has it beside the length. Up to that, the
registers of a classic frame are received as that frame.
-/

set_option autoImplicit false

namespace JaszczurHal.Mcp2515Buffers
open ByteImage WordBits CanFrames CanObjects CanObjects.Mcp2515

variable {f : Frame} {id : UInt32}

def kinds (ext rtr : Bool) : UInt32 :=
  (if ext then canIsExtended else 0) ||| (if rtr then canIsRemoteRequest else 0)

theorem kinds_bits : ∀ ext rtr : Bool,
    (kinds ext rtr &&& canIsExtended = canIsExtended ↔ ext = true) ∧
    (kinds ext rtr &&& canIsRemoteRequest = canIsRemoteRequest ↔ rtr = true) ∧
    (kinds ext rtr &&& canIsExtended ≠ 0 ↔ ext = true) ∧
    (kinds ext rtr &&& canIsRemoteRequest ≠ 0 ↔ rtr = true) ∧
    kinds ext rtr &&& ~~~canIsExtended = kinds false rtr ∧
    kinds false rtr &&& ~~~canIsRemoteRequest = 0 := by
  decide

/-- A bit above the identifiers is that of the kinds. -/
theorem kind_bit (h : id ≤ extIdMask) (kind : UInt32) {bit : UInt32} (hbit : bit.toNat%2^29 = 0) :
    (id ||| kind) &&& bit = kind &&& bit := by
  have hid : id.toNat ≤ 2^29-1 := UInt32.le_iff_toNat_le.mp h
  rw [or_and_distrib, and_apart 29 (by omega) hbit, UInt32.zero_or]

theorem kind_cleared (h : id ≤ extIdMask) (kind : UInt32) {bit : UInt32}
    (hbit : extIdMask &&& ~~~bit = extIdMask) :
    (id ||| kind) &&& ~~~bit = id ||| (kind &&& ~~~bit) := by
  have hmask := and_mask 29 rfl h
  have hkept : id &&& ~~~bit = id := by
    rw [← hmask, UInt32.and_assoc, hbit]
  rw [or_and_distrib, hkept]

theorem without_extended (h : id ≤ extIdMask) (ext rtr : Bool) :
    (id ||| kinds ext rtr) &&& ~~~canIsExtended = id ||| kinds false rtr := by
  rw [kind_cleared h _ (by decide), (kinds_bits ext rtr).2.2.2.2.1]

theorem without_remote (h : id ≤ extIdMask) (rtr : Bool) :
    (id ||| kinds false rtr) &&& ~~~canIsRemoteRequest = id := by
  rw [kind_cleared h _ (by decide), (kinds_bits false rtr).2.2.2.2.2, UInt32.or_zero]

theorem sendMsgBuf_kinds (h : id ≤ extIdMask) (ext rtr : Bool) (len : UInt8) (buf : Image) :
    sendMsgBuf (id ||| kinds ext rtr) len buf = setMsg id rtr ext len buf := by
  obtain ⟨hext, _⟩ := kinds_bits ext rtr
  obtain ⟨_, hrtr, _⟩ := kinds_bits false rtr
  rw [← kind_bit h _ (by decide)] at hext
  rw [← kind_bit h _ (by decide)] at hrtr
  have hfirst : (if ext = true then (id ||| kinds ext rtr) &&& ~~~canIsExtended
      else id ||| kinds ext rtr) = id ||| kinds false rtr := by
    cases ext with
    | true => exact without_extended h true rtr
    | false => rfl
  have hsecond : (if rtr = true then (id ||| kinds false rtr) &&& ~~~canIsRemoteRequest
      else id ||| kinds false rtr) = id := by
    cases rtr with
    | true => exact without_remote h true
    | false => exact UInt32.or_zero
  unfold sendMsgBuf
  simp only [hext, hfirst, hrtr, hsecond, Bool.decide_eq_true]

theorem sendFrame_eq (h : f.id ≤ extIdMask) :
    sendFrame f = setMsg f.id (has f.flags frameRtr) (has f.flags frameExtended) f.len fun i =>
      if ¬ has f.flags frameRtr ∧ 0 < f.len ∧ i < f.len.toNat then f.data i else 0 := by
  have hid : (if has f.flags frameRtr then
      (if has f.flags frameExtended then f.id ||| canIsExtended else f.id) ||| canIsRemoteRequest
      else if has f.flags frameExtended then f.id ||| canIsExtended else f.id) =
        f.id ||| kinds (has f.flags frameExtended) (has f.flags frameRtr) := by
    cases has f.flags frameExtended <;> cases has f.flags frameRtr <;>
      simp [kinds, UInt32.or_assoc]
  unfold sendFrame
  rw [← sendMsgBuf_kinds h, ← hid]

theorem decodeId_toNat (registers : Image) : (decodeId registers).2.toNat =
    if registers 1 &&& exideMask = exideMask then
      (registers 0).toNat*2^21+(registers 1).toNat/2^5*2^18+(registers 1).toNat%2^2*2^16+
        (registers 2).toNat*2^8+(registers 3).toNat
    else (registers 0).toNat*2^3+(registers 1).toNat/2^5 := by
  have h0 := (registers 0).toNat_lt
  have h1 := (registers 1).toNat_lt
  have h2 := (registers 2).toNat_lt
  have h3 := (registers 3).toNat_lt
  have hhigh : (registers 1 >>> 5).toNat = (registers 1).toNat/2^5 := by
    simp [Nat.shiftRight_eq_div_pow]
  have hlow : (registers 1 &&& 0x03).toNat = (registers 1).toNat%2^2 := by
    rw [UInt8.toNat_and]
    exact Nat.and_two_pow_sub_one_eq_mod _ 2
  have hstandard : ((registers 0).toUInt32 <<< 3+(registers 1 >>> 5).toUInt32).toNat =
      (registers 0).toNat*2^3+(registers 1).toNat/2^5 := by
    rw [UInt32.toNat_add, UInt32.toNat_shiftLeft, UInt8.toNat_toUInt32, UInt8.toNat_toUInt32, hhigh]
    simp [Nat.shiftLeft_eq]
    omega
  rw [decodeId]
  dsimp only
  by_cases hext : registers 1 &&& exideMask = exideMask
  · rw [if_pos hext, if_pos hext]
    generalize ((registers 0).toUInt32 <<< 3+(registers 1 >>> 5).toUInt32) = id at hstandard ⊢
    simp only [UInt32.toNat_add, UInt32.toNat_shiftLeft, UInt8.toNat_toUInt32, hlow,
      Nat.shiftLeft_eq, hstandard]
    simp
    omega
  · rw [if_neg hext, if_neg hext]
    exact hstandard

def sidlOf (high : BitVec 16) : BitVec 8 :=
  ((high &&& 0x03).setWidth 8+((high &&& 0x1C) <<< 3).setWidth 8) ||| 0x08

theorem sidlOf_toNat (high : BitVec 16) :
    (sidlOf high).toNat = high.toNat/2^2%2^3*2^5+2^3+high.toNat%2^2 := by
  have hall : ∀ i : Fin 32, (sidlOf (BitVec.ofNat 16 i)).toNat = i/2^2%2^3*2^5+2^3+i%2^2 := by
    decide
  have hmasked : high &&& 0x1F = BitVec.ofNat 16 (high.toNat%2^5) := by
    apply BitVec.eq_of_toNat_eq
    rw [BitVec.toNat_and, BitVec.toNat_ofNat]
    exact (Nat.and_two_pow_sub_one_eq_mod _ 5).trans (Nat.mod_eq_of_lt (by omega)).symm
  have hsame : sidlOf high = sidlOf (high &&& 0x1F) := by
    rw [sidlOf, sidlOf, BitVec.and_assoc, BitVec.and_assoc]
    rfl
  have hvalue := hall ⟨high.toNat%2^5, Nat.mod_lt _ (by decide)⟩
  rw [hsame, hmasked, hvalue]
  dsimp only
  omega

/-- Of every value of the second identifier byte: its kind, and what the remote
bit adds to a standard one. Of every length: its bits. Of every classic flag
byte: its two flags. -/
theorem byte_bits : ∀ b : UInt8,
    ((b &&& exideMask = exideMask ↔ b.toNat/2^3%2 = 1) ∧
      (b.toNat%2^5 = 0 → b &&& 0x10 = 0 ∧ (b ||| 0x10) &&& 0x10 ≠ 0 ∧
        (b ||| 0x10).toNat = b.toNat+2^4 ∧ ¬ b &&& exideMask = exideMask)) ∧
    (b ≤ 8 → b &&& dlcMask = b ∧ b &&& rtrMask = 0 ∧
      (b ||| rtrMask) &&& dlcMask = b ∧ (b ||| rtrMask) &&& rtrMask ≠ 0) ∧
    (flagsValid b = true → has b frameFd = false →
      (if has b frameExtended then frameExtended else 0) |||
        (if has b frameRtr then frameRtr else 0) = b) := by
  decide +kernel

theorem exide_iff (sidl : UInt8) :
    sidl &&& exideMask = exideMask ↔ sidl.toNat/2^3%2 = 1 :=
  (byte_bits sidl).1.1

theorem standard_bytes {id : UInt32} (h : id ≤ stdIdMask) :
    ((writeId false id).getD 0 0).toNat = id.toNat/2^3 ∧
      ((writeId false id).getD 1 0).toNat = id.toNat%2^3*2^5 := by
  have hid : id.toNat ≤ 2^11-1 := UInt32.le_iff_toNat_le.mp h
  have hlow : (id.toUInt16 &&& 0x07).toNat = id.toNat%2^3 := by
    rw [UInt16.toNat_and, UInt32.toNat_toUInt16]
    refine (Nat.and_two_pow_sub_one_eq_mod _ 3).trans ?_
    omega
  constructor
  · simp [writeId, Nat.shiftRight_eq_div_pow]
    omega
  · show ((id.toUInt16 &&& 0x07) <<< 5).toUInt8.toNat = _
    rw [UInt16.toNat_toUInt8, UInt16.toNat_shiftLeft, hlow]
    simp [Nat.shiftLeft_eq]
    omega

theorem extended_bytes {id : UInt32} (h : id ≤ extIdMask) :
    ((writeId true id).getD 0 0).toNat = id.toNat/2^21 ∧
      ((writeId true id).getD 1 0).toNat = id.toNat/2^18%2^3*2^5+2^3+id.toNat/2^16%2^2 ∧
      ((writeId true id).getD 2 0).toNat = id.toNat/2^8%2^8 ∧
      ((writeId true id).getD 3 0).toNat = id.toNat%2^8 := by
  have hid : id.toNat ≤ 2^29-1 := UInt32.le_iff_toNat_le.mp h
  have hupper : ((id.toBitVec >>> 16).setWidth 16).toNat = id.toNat/2^16 := by
    simp [Nat.shiftRight_eq_div_pow]
    omega
  refine ⟨?_, ?_, ?_, ?_⟩
  · show (((id.toBitVec >>> 16).setWidth 16 >>> 5).setWidth 8).toNat = _
    rw [BitVec.toNat_setWidth, BitVec.toNat_ushiftRight, hupper, Nat.shiftRight_eq_div_pow]
    omega
  · refine (sidlOf_toNat ((id.toBitVec >>> 16).setWidth 16)).trans ?_
    rw [hupper]
    omega
  · show (((id.toBitVec.setWidth 16) >>> 8).setWidth 8).toNat = _
    rw [BitVec.toNat_setWidth, BitVec.toNat_ushiftRight, BitVec.toNat_setWidth,
      UInt32.toNat_toBitVec, Nat.shiftRight_eq_div_pow]
    omega
  · show ((id.toBitVec.setWidth 16).setWidth 8).toNat = _
    rw [BitVec.toNat_setWidth, BitVec.toNat_setWidth, UInt32.toNat_toBitVec]
    omega

theorem decodeId_kind (registers : Image) :
    (decodeId registers).1 = decide (registers 1 &&& exideMask = exideMask) := by
  rw [decodeId]
  dsimp only
  split_ifs with hset
  · exact (decide_eq_true hset).symm
  · exact (decide_eq_false hset).symm

/-- The identifier registers hold the identifier of a message. The remote bit
of a standard frame does not touch it. -/
theorem writeId_back (registers : Image) {ext : Bool} {id : UInt32}
    (h : id ≤ if ext then extIdMask else stdIdMask)
    (hwritten : ∀ i < 4, i ≠ 1 → registers i = (writeId ext id).getD i 0)
    (hsidl : (registers 1).toNat = ((writeId ext id).getD 1 0).toNat ∨
      ext = false ∧ (registers 1).toNat = ((writeId ext id).getD 1 0).toNat+2^4) :
    decodeId registers = (ext, id) := by
  have h0 := hwritten 0 (by decide) (by decide)
  have h2 := hwritten 2 (by decide) (by decide)
  have h3 := hwritten 3 (by decide) (by decide)
  have hexide := exide_iff (registers 1)
  rw [Prod.ext_iff, decodeId_kind, ← UInt32.toNat_inj, decodeId_toNat, h0, h2, h3]
  cases ext with
  | true =>
    have hid : id.toNat ≤ 2^29-1 := UInt32.le_iff_toNat_le.mp h
    obtain ⟨hsidh, hlow, heid8, heid0⟩ := extended_bytes h
    have hvalue : (registers 1).toNat = ((writeId true id).getD 1 0).toNat :=
      hsidl.resolve_right fun h => nomatch h.1
    rw [hlow] at hvalue
    have hset : registers 1 &&& exideMask = exideMask := hexide.mpr (by omega)
    refine ⟨decide_eq_true hset, ?_⟩
    rw [if_pos hset, hsidh, heid8, heid0, hvalue]
    dsimp only
    omega
  | false =>
    have hid : id.toNat ≤ 2^11-1 := UInt32.le_iff_toNat_le.mp h
    obtain ⟨hsidh, hlow⟩ := standard_bytes h
    rw [hlow] at hsidl
    have hclear : ¬ registers 1 &&& exideMask = exideMask := by
      intro hset
      have hbit := hexide.mp hset
      omega
    refine ⟨decide_eq_false hclear, ?_⟩
    rw [if_neg hclear, hsidh]
    dsimp only
    omega

/-- The registers of a frame as the chip that receives it shows them: the
remote bit of a standard frame is in SIDL. -/
def asReceived (registers : Image) : Image := fun i =>
  if i = 1 ∧ ¬ registers 1 &&& exideMask = exideMask ∧ registers 4 &&& rtrMask ≠ 0 then
    registers 1 ||| 0x10
  else registers i

def messageOf (f : Frame) : Message where
  id := f.id
  rtr := has f.flags frameRtr
  ext := has f.flags frameExtended
  dlc := f.len
  data i := if has f.flags frameRtr = false ∧ i < f.len.toNat then f.data i else 0

theorem Valid.id_le (h : Valid f) : f.id ≤ extIdMask := by
  have hid := h.id
  split_ifs at hid
  · exact hid
  · exact UInt32.le_trans hid (by decide)

theorem Valid.len_le (h : Valid f) (hclassic : has f.flags frameFd = false) : f.len ≤ 8 := by
  rw [h.len]
  exact (dlc_lengths f.dlc h.dlc).2.mpr (h.classic hclassic)

theorem sent_message (h : Valid f) (hclassic : has f.flags frameFd = false) :
    sendFrame f = messageOf f := by
  have hlen : ¬ 8 < f.len := UInt8.not_lt.mpr (Valid.len_le h hclassic)
  rw [sendFrame_eq (Valid.id_le h), setMsg, if_neg hlen, messageOf]
  congr 1
  funext i
  by_cases hdata : has f.flags frameRtr = false ∧ i < f.len.toNat
  · have hpos : 0 < f.len := UInt8.lt_iff_toNat_lt.mpr (Nat.zero_lt_of_lt hdata.2)
    rw [if_pos hdata.2, if_pos ⟨Bool.eq_false_iff.mp hdata.1, hpos, hdata.2⟩, if_pos hdata]
  · rw [if_neg hdata]
    by_cases hi : i < f.len.toNat
    · rw [if_pos hi]
      exact if_neg fun hset => hdata ⟨Bool.eq_false_iff.mpr hset.1, hi⟩
    · exact if_neg hi

variable (registers : Image)

theorem writeId_length (ext : Bool) (id : UInt32) : (writeId ext id).length = 4 := by
  cases ext <;> rfl

theorem written_id (m : Message) {i : ℕ} (hi : i < 4) :
    writeCanMsg registers m i = (writeId m.ext m.id).getD i 0 := by
  have h : writeCanMsg registers m (0+i) = (writeId m.ext m.id).getD i 0 :=
    write_at (by rw [writeId_length]; exact hi)
  rw [Nat.zero_add] at h
  exact h

theorem written_code (m : Message) : writeCanMsg registers m 4 =
    if m.rtr then m.dlc ||| rtrMask else m.dlc := by
  rw [writeCanMsg]
  rw [write_of_ge (by rw [writeId_length])]
  rfl

theorem written_data (m : Message) {i : ℕ} (hi : i < m.dlc.toNat) :
    writeCanMsg registers m (5+i) = m.data i := by
  rw [writeCanMsg]
  rw [write_of_ge (by rw [writeId_length]; omega), write_of_ge (by simp),
    write_at (by rw [slice_length]; exact hi)]
  simp [slice, hi]

theorem message_eq {m m' : Message} (hid : m.id = m'.id) (hrtr : m.rtr = m'.rtr)
    (hext : m.ext = m'.ext) (hdlc : m.dlc = m'.dlc) (hdata : m.data = m'.data) : m = m' := by
  cases m
  cases m'
  subst hid hrtr hext hdlc hdata
  rfl

/-- SIDL as received: the remote bit of a standard message is added to it. -/
theorem received_sidl {m : Message} (hid : m.id ≤ if m.ext then extIdMask else stdIdMask)
    (hremote : writeCanMsg registers m 4 &&& rtrMask ≠ 0 ↔ m.rtr = true) :
    ((asReceived (writeCanMsg registers m) 1).toNat = ((writeId m.ext m.id).getD 1 0).toNat ∨
      m.ext = false ∧ (asReceived (writeCanMsg registers m) 1).toNat =
        ((writeId m.ext m.id).getD 1 0).toNat+2^4) ∧
    (m.ext = false → (asReceived (writeCanMsg registers m) 1 &&& 0x10 ≠ 0 ↔ m.rtr = true)) := by
  have hsidl := written_id registers m (by decide : 1 < 4)
  cases hext : m.ext with
  | true =>
    rw [hext] at hid hsidl
    obtain ⟨_, hlow, _⟩ := extended_bytes hid
    have hexide : writeCanMsg registers m 1 &&& exideMask = exideMask := by
      rw [hsidl]
      exact (exide_iff _).mpr (by omega)
    have hkept : asReceived (writeCanMsg registers m) 1 = writeCanMsg registers m 1 :=
      if_neg fun h => h.2.1 hexide
    rw [hkept, hsidl]
    exact ⟨.inl rfl, nofun⟩
  | false =>
    rw [hext] at hid hsidl
    obtain ⟨_, hlow⟩ := standard_bytes hid
    obtain ⟨hnone, hsome, hsum, hexide⟩ := (byte_bits _).1.2 (by rw [hlow]; omega)
    rw [← hsidl] at hnone hsome hsum hexide
    rw [← hsidl]
    cases hrtr : m.rtr with
    | true =>
      have hadded : asReceived (writeCanMsg registers m) 1 = writeCanMsg registers m 1 ||| 0x10 :=
        if_pos ⟨rfl, hexide, hremote.mpr hrtr⟩
      rw [hadded]
      exact ⟨.inr ⟨rfl, hsum⟩, fun _ => iff_of_true hsome rfl⟩
    | false =>
      have hkept : asReceived (writeCanMsg registers m) 1 = writeCanMsg registers m 1 :=
        if_neg fun h => absurd (hremote.mp h.2.2) (by rw [hrtr]; decide)
      rw [hkept]
      exact ⟨.inl rfl, fun _ => iff_of_false (fun h => h hnone) (by decide)⟩

theorem readRx_sent {m : Message} (hid : m.id ≤ if m.ext then extIdMask else stdIdMask)
    (hlen : m.dlc ≤ 8) (hdata : ∀ i, ¬ i < m.dlc.toNat → m.data i = 0) :
    readRx (asReceived (writeCanMsg registers m)) = m := by
  obtain ⟨hcode, hclear, hcodeRtr, hset⟩ := (byte_bits m.dlc).2.1 hlen
  have hdlc := written_code registers m
  have hsame : ∀ i, i ≠ 1 →
      asReceived (writeCanMsg registers m) i = writeCanMsg registers m i :=
    fun i hi => if_neg fun h => hi h.1
  have hlength : asReceived (writeCanMsg registers m) 4 &&& dlcMask = m.dlc := by
    rw [hsame 4 (by decide), hdlc]
    cases m.rtr with
    | true => exact hcodeRtr
    | false => exact hcode
  have hremote : writeCanMsg registers m 4 &&& rtrMask ≠ 0 ↔ m.rtr = true := by
    rw [hdlc]
    cases m.rtr with
    | true => exact iff_of_true hset rfl
    | false => exact iff_of_false (fun hne => hne hclear) (by decide)
  obtain ⟨hsidl, hstandard⟩ := received_sidl registers hid hremote
  have hread : decodeId (asReceived (writeCanMsg registers m)) = (m.ext, m.id) :=
    writeId_back _ hid (fun i hi hne => (hsame i hne).trans (written_id registers m hi)) hsidl
  apply message_eq
  · rw [readRx, hread]
  · rw [readRx, hread]
    dsimp only
    cases hext : m.ext with
    | true =>
      rw [if_pos rfl, hsame 4 (by decide)]
      exact Bool.eq_iff_iff.mpr (decide_eq_true_iff.trans hremote)
    | false =>
      rw [if_neg (by decide)]
      exact Bool.eq_iff_iff.mpr (decide_eq_true_iff.trans (hstandard hext))
  · rw [readRx, hread]
  · rw [readRx, hlength]
    exact if_neg (UInt8.not_lt.mpr hlen)
  · funext i
    rw [readRx, hlength]
    dsimp only
    rw [if_neg (UInt8.not_lt.mpr hlen)]
    by_cases hi : i < m.dlc.toNat
    · rw [if_pos hi, hsame (5+i) (by omega), written_data registers m hi]
    · rw [if_neg hi, hdata i hi]

theorem receiveFrame_eq {m : Message} (h : m.id ≤ extIdMask) (hlen : m.dlc ≤ 8) :
    receiveFrame m =
      { id := m.id
        flags := (if m.ext then frameExtended else 0) ||| (if m.rtr then frameRtr else 0)
        len := m.dlc
        dlc := m.dlc
        data := fun i => if i < m.dlc.toNat then m.data i else 0 } := by
  obtain ⟨_, _, hnone, hrtr, _⟩ := kinds_bits false m.rtr
  rw [← kind_bit h _ (by decide)] at hnone hrtr
  have hmarked : (if m.rtr then m.id ||| canIsRemoteRequest else m.id) =
      m.id ||| kinds false m.rtr := by
    cases m.rtr <;> simp [kinds]
  have hext : (m.id ||| kinds false m.rtr) &&& canIsExtended ≠ 0 ∨ m.ext = true ↔
      m.ext = true := by
    rw [hnone, or_iff_right (by decide)]
  have hfirst : (if m.ext = true then (m.id ||| kinds false m.rtr) &&& ~~~canIsExtended
      else m.id ||| kinds false m.rtr) = m.id ||| kinds false m.rtr := by
    rw [without_extended h, ite_self]
  have hsecond : (if m.rtr = true then (m.id ||| kinds false m.rtr) &&& ~~~canIsRemoteRequest
      else m.id ||| kinds false m.rtr) = m.id := by
    cases m.rtr with
    | true => exact without_remote h true
    | false => exact UInt32.or_zero
  have hlength : (if m.dlc < 8 then m.dlc else 8) = m.dlc := by
    by_cases hlt : m.dlc < 8
    · exact if_pos hlt
    · rw [if_neg hlt]
      exact UInt8.le_antisymm (UInt8.not_lt.mp hlt) hlen
  unfold receiveFrame
  simp only [hmarked, hext, hfirst, hrtr, hsecond, hlength]

theorem messageOf_id (h : Valid f) :
    (messageOf f).id ≤ if (messageOf f).ext then extIdMask else stdIdMask := h.id

theorem received_back (h : Valid f) (hclassic : has f.flags frameFd = false) :
    Received f (receiveFrame (readRx (asReceived (writeCanMsg registers (sendFrame f))))) := by
  have hlen : (messageOf f).dlc ≤ 8 := Valid.len_le h hclassic
  have hzero : ∀ i, ¬ i < (messageOf f).dlc.toNat → (messageOf f).data i = 0 :=
    fun i hi => if_neg fun hdata => hi hdata.2
  rw [sent_message h hclassic, readRx_sent registers (messageOf_id h) hlen hzero,
    receiveFrame_eq (Valid.id_le h) hlen]
  constructor
  · rfl
  · exact (byte_bits f.flags).2.2 h.flags hclassic
  · exact h.len.trans (classic_length f.dlc (h.classic hclassic))
  · rfl
  · intro i
    by_cases hi : i < f.len.toNat
    · exact if_pos hi
    · exact (if_neg hi).trans (if_neg fun hdata => hi hdata.2).symm

/-- The remote bit of every other frame stands where it was written. -/
theorem asReceived_eq (h : Valid f) (hclassic : has f.flags frameFd = false)
    (hkind : has f.flags frameExtended = true ∨ has f.flags frameRtr = false) :
    asReceived (writeCanMsg registers (sendFrame f)) = writeCanMsg registers (sendFrame f) := by
  funext i
  apply if_neg
  rintro ⟨_, hstandard, hremote⟩
  rw [sent_message h hclassic] at hstandard hremote
  rcases hkind with hext | hdata
  · have hid := messageOf_id h
    rw [show (messageOf f).ext = true from hext] at hid
    obtain ⟨_, hlow, _⟩ := extended_bytes hid
    apply hstandard
    rw [written_id registers _ (by decide), show (messageOf f).ext = true from hext]
    exact (exide_iff _).mpr (by omega)
  · apply hremote
    rw [written_code, show (messageOf f).rtr = false from hdata]
    exact ((byte_bits f.len).2.1 (Valid.len_le h hclassic)).2.1

theorem message_flags : ∀ ext rtr : Bool,
    flagsValid ((if ext then frameExtended else 0) ||| (if rtr then frameRtr else 0)) = true ∧
    has ((if ext then frameExtended else 0) ||| (if rtr then frameRtr else 0))
      frameExtended = ext := by
  decide

theorem message_valid {m : Message} (hid : m.id ≤ if m.ext then extIdMask else stdIdMask)
    (hlen : m.dlc ≤ 8) : frameValid (receiveFrame m) = true := by
  obtain ⟨hflags, hext⟩ := message_flags m.ext m.rtr
  have hle : m.id ≤ extIdMask := by
    split_ifs at hid
    · exact hid
    · exact UInt32.le_trans hid (by decide)
  rw [receiveFrame_eq hle hlen]
  apply (frameValid_iff _).mpr
  constructor
  · exact hflags
  · rw [hext]
    exact hid
  · exact UInt8.le_trans hlen (by decide)
  · exact fun _ => hlen
  · exact (classic_length m.dlc hlen).symm

theorem readRx_length : (readRx registers).dlc ≤ 8 := by
  rw [readRx]
  dsimp only
  by_cases hlong : 8 < registers 4 &&& dlcMask
  · rw [if_pos hlong]
    exact UInt8.le_refl 8
  · rw [if_neg hlong]
    exact UInt8.not_lt.mp hlong

/-- Whatever the registers hold, it is received as a valid frame. -/
theorem receiveFrame_valid : frameValid (receiveFrame (readRx registers)) = true := by
  have hvalue := decodeId_toNat registers
  have hkind := decodeId_kind registers
  have h0 := (registers 0).toNat_lt
  have h1 := (registers 1).toNat_lt
  have h2 := (registers 2).toNat_lt
  have h3 := (registers 3).toNat_lt
  have hid : (decodeId registers).2 ≤
      if (decodeId registers).1 then extIdMask else stdIdMask := by
    apply UInt32.le_iff_toNat_le.mpr
    rw [hvalue, hkind]
    by_cases hset : registers 1 &&& exideMask = exideMask
    · rw [if_pos hset, if_pos (decide_eq_true hset)]
      show _ ≤ 2^29-1
      omega
    · rw [if_neg hset, if_neg (by rw [decide_eq_true_iff]; exact hset)]
      show _ ≤ 2^11-1
      omega
  exact message_valid hid (readRx_length registers)

end JaszczurHal.Mcp2515Buffers
