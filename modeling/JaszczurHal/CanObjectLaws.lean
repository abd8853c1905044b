import JaszczurHal.CanObjects
import JaszczurHal.Mcp2515Buffers

/-!
# Objects of the MCP251XFD

The object of a valid frame is received as that frame, and every object is
received as a valid frame or refused.
-/

set_option autoImplicit false

namespace JaszczurHal.Mcp251xfdObjects
open HalStatus ByteImage WordBits CanFrames CanObjects CanObjects.Mcp251xfd

variable {f : Frame}

/-- The object has the low part of the identifier above its high part. -/
theorem encoded_extended (id : UInt32) :
    (((id >>> 18) &&& stdIdMask) ||| ((id &&& 0x3FFFF) <<< 11)).toNat =
      id.toNat%2^18*2^11+id.toNat/2^18%2^11 := by
  have hhigh : ((id >>> 18) &&& stdIdMask).toNat = id.toNat/2^18%2^11 := by
    rw [toNat_and_mask 11 rfl]
    simp [Nat.shiftRight_eq_div_pow]
  have hlow : ((id &&& 0x3FFFF) <<< 11).toNat = id.toNat%2^18*2^11 := by
    rw [UInt32.toNat_shiftLeft, toNat_and_mask 18 rfl]
    simp [Nat.shiftLeft_eq]
    omega
  rw [UInt32.or_comm, toNat_or_add 11 (by rw [hlow]; omega) (by rw [hhigh]; omega), hlow, hhigh]

theorem extended_back {id : UInt32} (h : id ≤ extIdMask) (flags : UInt8) (rawFlags : UInt32)
    (hext : has flags frameExtended = true) (hide : rawFlags &&& flagsIde ≠ 0) :
    decodeId (encodeId id flags) rawFlags = id := by
  rw [encodeId, if_pos hext, decodeId, if_pos hide]
  have hid : id.toNat ≤ extIdMask.toNat := UInt32.le_iff_toNat_le.mp h
  have hmask : extIdMask.toNat = 2^29-1 := rfl
  have hraw := encoded_extended id
  generalize ((id >>> 18) &&& stdIdMask) ||| ((id &&& 0x3FFFF) <<< 11) = raw at hraw ⊢
  have hhigh : ((raw &&& stdIdMask) <<< 18).toNat = raw.toNat%2^11*2^18 := by
    rw [UInt32.toNat_shiftLeft, toNat_and_mask 11 rfl]
    simp [Nat.shiftLeft_eq]
    omega
  have hlow : ((raw >>> 11) &&& 0x3FFFF).toNat = raw.toNat/2^11%2^18 := by
    rw [toNat_and_mask 18 rfl]
    simp [Nat.shiftRight_eq_div_pow]
  have hdiv : raw.toNat/2^11%2^18 = id.toNat%2^18 := by
    rw [hraw, parts_div (Nat.mod_lt _ (by decide)), Nat.mod_mod]
  have hmod : raw.toNat%2^11 = id.toNat/2^18 := by
    rw [hraw, parts_mod (Nat.mod_lt _ (by decide))]
    omega
  apply UInt32.toNat_inj.mp
  rw [toNat_or_add 18 (by rw [hhigh]; omega) (by rw [hlow]; omega), hhigh, hlow, hdiv, hmod]
  omega

theorem encodeFlags_parts (dlc flags : UInt8) :
    encodeFlags dlc flags = (dlc &&& 0x0F).toUInt32 ||| encodeFlags 0 flags := by
  have hzero : ((0 : UInt8) &&& 0x0F).toUInt32 = 0 := rfl
  rw [encodeFlags, encodeFlags, hzero, UInt32.zero_or]
  simp only [UInt32.or_assoc]

/-- A flag of the second word is not touched by the length code. -/
theorem encodeFlags_bit (dlc flags : UInt8) (bit : UInt32) (h : 0x0F &&& bit = 0) :
    encodeFlags dlc flags &&& bit = encodeFlags 0 flags &&& bit := by
  have hmask : (0x0F : UInt8).toUInt32 = 0x0F := rfl
  rw [encodeFlags_parts, or_and_distrib, UInt8.toUInt32_and, hmask, UInt32.and_assoc, h,
    UInt32.and_zero, UInt32.zero_or]

theorem flags_back : (∀ flags : UInt8, flags ≤ 0x1F →
      decodeFlags (encodeFlags 0 flags) = flags ∧ encodeFlags 0 flags &&& 0x0F = 0 ∧
      (encodeFlags 0 flags &&& flagsIde ≠ 0 ↔ has flags frameExtended = true)) ∧
    ∀ dlc : UInt8, dlc ≤ 15 → ((dlc &&& 0x0F).toUInt32 &&& 0x0F).toUInt8 = dlc := by
  decide +kernel

theorem header_back (dlc : UInt8) (hdlc : dlc ≤ 15) (flags : UInt8) (hflags : flags ≤ 0x1F) :
    decodeFlags (encodeFlags dlc flags) = flags ∧
    ((encodeFlags dlc flags) &&& 0x0F).toUInt8 = dlc ∧
    (encodeFlags dlc flags &&& flagsIde ≠ 0 ↔ has flags frameExtended = true) := by
  obtain ⟨hback, hlow, hide⟩ := flags_back.1 flags hflags
  refine ⟨?_, ?_, ?_⟩
  · rw [decodeFlags, encodeFlags_bit _ _ flagsIde rfl, encodeFlags_bit _ _ flagsRtr rfl,
      encodeFlags_bit _ _ flagsFdf rfl, encodeFlags_bit _ _ flagsBrs rfl,
      encodeFlags_bit _ _ flagsEsi rfl]
    exact hback
  · rw [encodeFlags_parts, or_and_distrib, hlow, UInt32.or_zero]
    exact flags_back.2 dlc hdlc
  · rw [encodeFlags_bit _ _ flagsIde rfl]
    exact hide

theorem id_back (h : Valid f) :
    decodeId (encodeId f.id f.flags) (encodeFlags f.dlc f.flags) = f.id := by
  have hid := h.id
  obtain ⟨_, _, hide⟩ := header_back f.dlc h.dlc f.flags ((flagsValid_iff f.flags).mp h.flags).1
  by_cases hext : has f.flags frameExtended = true
  · rw [if_pos hext] at hid
    exact extended_back hid _ _ hext (hide.mpr hext)
  · rw [if_neg hext] at hid
    rw [encodeId, if_neg hext, decodeId, if_neg (fun hbit => hext (hide.mp hbit)),
      and_mask 11 rfl hid, and_mask 11 rfl hid]

theorem dlc_back (h : Valid f) : decodeDlc (encodeFlags f.dlc f.flags) = f.dlc := by
  obtain ⟨hflags, hdlc, _⟩ :=
    header_back f.dlc h.dlc f.flags ((flagsValid_iff f.flags).mp h.flags).1
  rw [decodeDlc, hflags, hdlc]
  apply if_neg
  rintro ⟨hfd, hlong⟩
  exact absurd hlong (UInt8.not_lt.mpr (h.classic (Bool.eq_false_iff.mpr hfd)))

theorem roundToWord_le (len : ℕ) : len ≤ roundToWord len := by
  unfold roundToWord
  omega

theorem header_fits (f : Frame) : objHeader ≤ objectLength f := by
  unfold objectLength
  split_ifs
  · exact Nat.le_add_right _ _
  · exact Nat.le_refl _

variable (ram : Image) (address : ℕ)

theorem sent_at {i : ℕ} (h : i < objectLength f) :
    sendFrame ram address f (address+i) = object f i := by
  rw [sendFrame, write_at (by rw [slice_length]; exact h)]
  simp [slice, h]

/-- The words of the header, whatever comes after them. -/
theorem object_word (f : Frame) : loadLe32 (object f) 0 = encodeId f.id f.flags ∧
    loadLe32 (object f) 4 = encodeFlags f.dlc f.flags := by
  let blank : Image := fun _ => 0
  let first := write blank 0 (storeLe32 (encodeId f.id f.flags))
  let header := write first 4 (storeLe32 (encodeFlags f.dlc f.flags))
  have hobject : ∀ i < 8, object f i = header i := by
    intro i hi
    unfold object
    split_ifs
    · exact write_of_lt hi
    · rfl
  constructor
  · have hcongr : loadLe32 (object f) 0 = loadLe32 header 0 :=
      loadLe32_congr fun k hk => hobject (0+k) (by omega)
    rw [hcongr]
    apply loadLe32_store
    rw [slice_write_disjoint (.inl (by decide))]
    exact slice_write_self blank 0 (storeLe32 (encodeId f.id f.flags))
  · have hcongr : loadLe32 (object f) 4 = loadLe32 header 4 :=
      loadLe32_congr fun k hk => hobject (4+k) (by omega)
    rw [hcongr]
    apply loadLe32_store
    exact slice_write_self first 4 (storeLe32 (encodeFlags f.dlc f.flags))

/-- The bytes of a data frame stand after the header; what fills the last word
is zero. -/
theorem object_payload (hdata : has f.flags frameRtr = false) (i : ℕ) :
    object f (objHeader+i) = if i < f.len.toNat then f.data i else 0 := by
  have hzero : ∀ j, objHeader ≤ j → write (write (fun _ => 0) 0
      (storeLe32 (encodeId f.id f.flags))) 4 (storeLe32 (encodeFlags f.dlc f.flags)) j = 0 :=
    fun j hj => (write_of_ge hj).trans (write_of_ge (Nat.le_trans (by decide : 4 ≤ objHeader) hj))
  have hnot : ¬ has f.flags frameRtr := Bool.eq_false_iff.mp hdata
  unfold object
  by_cases hlen : 0 < f.len
  · rw [if_pos ⟨hnot, hlen⟩]
    by_cases hi : i < f.len.toNat
    · rw [if_pos hi, write_at (by rw [slice_length]; exact hi)]
      simp [slice, hi]
    · rw [if_neg hi, write_of_ge (by rw [slice_length]; omega)]
      exact hzero _ (Nat.le_add_right _ _)
  · have hempty : ¬ i < f.len.toNat := by
      intro hi
      exact hlen (UInt8.lt_iff_toNat_lt.mpr (Nat.zero_lt_of_lt hi))
    rw [if_neg (fun h => hlen h.2), if_neg hempty]
    exact hzero _ (Nat.le_add_right _ _)

/-- All of a payload is written, up to the end of its last word. -/
theorem payload_fits (h : Valid f) (hdata : has f.flags frameRtr = false) :
    objHeader+roundToWord f.len.toNat = objectLength f := by
  have hnot : ¬ has f.flags frameRtr := Bool.eq_false_iff.mp hdata
  unfold objectLength
  by_cases hlen : 0 < f.len
  · rw [if_pos ⟨hnot, hlen⟩, h.len]
  · have hempty : f.len.toNat = 0 := by
      apply Nat.eq_zero_of_not_pos
      exact fun hpos => hlen (UInt8.lt_iff_toNat_lt.mpr hpos)
    rw [if_neg (fun h => hlen h.2), hempty]
    rfl

/-- What is written after the header of a data frame. -/
theorem sent_payload (h : Valid f) (hdata : has f.flags frameRtr = false) {i : ℕ}
    (hi : i < roundToWord f.len.toNat) :
    sendFrame ram address f (address+(objHeader+i)) = if i < f.len.toNat then f.data i else 0 := by
  have hfits := payload_fits h hdata
  rw [sent_at ram address (by omega), object_payload hdata]

theorem decodeObject_data (obj : Image) (i : ℕ) : (decodeObject obj).data i =
    if ¬ has (decodeFlags (loadLe32 obj 4)) frameRtr ∧
      i < (dlcToBytes (decodeDlc (loadLe32 obj 4))).toNat then obj (objHeader+i) else 0 := rfl

theorem decoded (h : Valid f) :
    Received f (decodeObject fun i => sendFrame ram address f (address+i)) := by
  have hheader := header_fits f
  have hword : ∀ offset, offset+4 ≤ objHeader →
      loadLe32 (fun i => sendFrame ram address f (address+i)) offset =
        loadLe32 (object f) offset := fun offset hoffset =>
    loadLe32_congr fun k hk => sent_at ram address (by omega)
  have hid := (hword 0 (by decide)).trans (object_word f).1
  have hflags := (hword 4 (by decide)).trans (object_word f).2
  have hback := header_back f.dlc h.dlc f.flags ((flagsValid_iff f.flags).mp h.flags).1
  constructor
  · rw [decodeObject, hid, hflags]
    exact id_back h
  · rw [decodeObject, hflags]
    exact hback.1
  · rw [decodeObject, hflags]
    exact dlc_back h
  · rw [decodeObject, hflags, dlc_back h]
    exact h.len.symm
  · intro i
    rw [decodeObject_data, hflags, dlc_back h, hback.1, ← h.len]
    by_cases hdata : has f.flags frameRtr = false ∧ i < f.len.toNat
    · rw [if_pos ⟨Bool.eq_false_iff.mp hdata.1, hdata.2⟩, if_pos hdata]
      have hround := roundToWord_le f.len.toNat
      rw [sent_payload ram address h hdata.1 (by omega), if_pos hdata.2]
    · rw [if_neg hdata, if_neg]
      exact fun hkept => hdata ⟨Bool.eq_false_iff.mpr hkept.1, hkept.2⟩

theorem received_back (h : Valid f) :
    ∃ g, receiveFrame (sendFrame ram address f) address = .ok g ∧ Received f g := by
  have hreceived := decoded ram address h
  refine ⟨_, if_pos ?_, hreceived⟩
  exact (frameValid_iff _).mpr (hreceived.valid h)

/-- Every object is refused or received as a valid frame. -/
theorem receiveFrame_valid : (∃ g, receiveFrame ram address = .ok g ∧ frameValid g = true) ∨
    receiveFrame ram address = .error .eio := by
  unfold receiveFrame
  by_cases h : frameValid (decodeObject fun i => ram (address+i)) = true
  · exact .inl ⟨_, if_pos h, h⟩
  · exact .inr (if_neg h)

end JaszczurHal.Mcp251xfdObjects

namespace JaszczurHal.FdcanElements
open ByteImage WordBits CanFrames CanObjects CanObjects.Fdcan

variable {f : Frame}

def kindBits (flags : UInt8) : UInt32 :=
  (if has flags frameExtended then elemXtd else 0) |||
    (if has flags frameRtr then elemRtr else 0) ||| (if has flags frameEsi then elemEsi else 0)

def idBits (id : UInt32) (flags : UInt8) : UInt32 :=
  if has flags frameExtended then id &&& extIdMask else (id &&& stdIdMask) <<< 18

theorem header0_parts (id : UInt32) (flags : UInt8) :
    frameHeader0 id flags = kindBits flags ||| idBits id flags := by
  rw [frameHeader0, kindBits, idBits]
  by_cases h : has flags frameExtended = true
  · rw [if_pos h, if_pos h, if_pos h, UInt32.or_comm (id &&& extIdMask), UInt32.or_assoc,
      UInt32.or_assoc, UInt32.or_assoc, UInt32.or_assoc, UInt32.or_comm (id &&& extIdMask),
      UInt32.or_assoc]
  · rw [if_neg h, if_neg h, if_neg h, UInt32.zero_or, UInt32.or_assoc, UInt32.or_comm]

theorem kindBits_high (flags : UInt8) : (kindBits flags).toNat%2^29 = 0 := by
  rw [kindBits]
  cases has flags frameExtended <;> cases has flags frameRtr <;> cases has flags frameEsi <;> rfl

theorem idBits_low (id : UInt32) (flags : UInt8) : (idBits id flags).toNat < 2^29 := by
  unfold idBits
  split_ifs
  · rw [toNat_and_mask 29 rfl]
    exact Nat.mod_lt _ (by decide)
  · rw [UInt32.toNat_shiftLeft, toNat_and_mask 11 rfl]
    simp [Nat.shiftLeft_eq]
    omega

/-- A kind bit of the first word is not touched by the identifier. -/
theorem header0_bit (id : UInt32) (flags : UInt8) {bit : UInt32} (h : bit.toNat%2^29 = 0) :
    frameHeader0 id flags &&& bit = kindBits flags &&& bit := by
  rw [header0_parts, or_and_distrib, and_apart 29 (idBits_low id flags) h, UInt32.or_zero]

def marker : Option UInt32 → UInt32
  | none => 0
  | some index => elemEfc ||| index <<< 24

theorem marker_high (event : Option UInt32) : (marker event).toNat%2^23 = 0 := by
  cases event with
  | none => rfl
  | some index =>
    have hshift : (index <<< 24).toNat%2^23 = 0 := by
      rw [UInt32.toNat_shiftLeft]
      simp [Nat.shiftLeft_eq]
      omega
    rw [marker, UInt32.toNat_or, Nat.or_mod_two_pow, hshift]
    rfl

theorem header1_bit (h1 : UInt32) (event : Option UInt32) {bit : UInt32} (h : bit.toNat < 2^23) :
    (h1 ||| marker event) &&& bit = h1 &&& bit := by
  rw [or_and_distrib, UInt32.and_comm (marker event), and_apart 23 h (marker_high event),
    UInt32.or_zero]

theorem frameHeader1_parts (dlc flags : UInt8) : frameHeader1 dlc flags =
    (dlc &&& 0x0F).toUInt32 <<< 16 ||| frameHeader1 0 flags := by
  have hzero : ((0 : UInt8) &&& 0x0F).toUInt32 <<< 16 = 0 := rfl
  rw [frameHeader1, frameHeader1, hzero, UInt32.zero_or]
  simp only [UInt32.or_assoc]

/-- A flag of the second word is not touched by the length code. -/
theorem frameHeader1_bit (dlc flags : UInt8) (bit : UInt32)
    (h : (0x0F : UInt32) <<< 16 &&& bit = 0) :
    frameHeader1 dlc flags &&& bit = frameHeader1 0 flags &&& bit := by
  have hmask : (0x0F : UInt8).toUInt32 = 0x0F := rfl
  rw [frameHeader1_parts, or_and_distrib, UInt8.toUInt32_and, hmask, UInt32.shiftLeft_and,
    UInt32.and_assoc, h, UInt32.and_zero, UInt32.zero_or]

theorem kind_back : (∀ flags : UInt8, flags ≤ 0x1F →
      decodeFlags (kindBits flags) (frameHeader1 0 flags) = flags ∧
      frameHeader1 0 flags >>> 16 &&& 0x0F = 0 ∧
      (kindBits flags &&& elemXtd ≠ 0 ↔ has flags frameExtended = true)) ∧
    ∀ dlc : UInt8, dlc ≤ 15 →
      ((dlc &&& 0x0F).toUInt32 <<< 16 >>> 16 &&& 0x0F).toUInt8 = dlc := by
  decide +kernel

theorem header_back (dlc : UInt8) (hdlc : dlc ≤ 15) (flags : UInt8) (hflags : flags ≤ 0x1F) :
    decodeFlags (kindBits flags) (frameHeader1 dlc flags) = flags ∧
    ((frameHeader1 dlc flags >>> 16) &&& 0x0F).toUInt8 = dlc ∧
    (kindBits flags &&& elemXtd ≠ 0 ↔ has flags frameExtended = true) := by
  obtain ⟨hback, hlow, hkind⟩ := kind_back.1 flags hflags
  refine ⟨?_, ?_, hkind⟩
  · rw [decodeFlags, frameHeader1_bit _ _ elemFdf rfl, frameHeader1_bit _ _ elemBrs rfl]
    exact hback
  · rw [frameHeader1_parts, UInt32.shiftRight_or, or_and_distrib, hlow, UInt32.or_zero]
    exact kind_back.2 dlc hdlc

def written0 (f : Frame) : UInt32 := frameHeader0 f.id f.flags

def written1 (f : Frame) (event : Option UInt32) : UInt32 :=
  frameHeader1 f.dlc f.flags ||| marker event

theorem length_code (h1 : UInt32) (event : Option UInt32) :
    ((h1 ||| marker event) >>> 16) &&& (0x0F : UInt32) = (h1 >>> 16) &&& 0x0F := by
  have hhigh := marker_high event
  have hshift : (marker event >>> 16).toNat%2^4 = 0 := by
    rw [UInt32.toNat_shiftRight]
    simp [Nat.shiftRight_eq_div_pow]
    omega
  have hnone : (marker event >>> 16) &&& 0x0F = 0 := by
    rw [UInt32.and_comm]
    exact and_apart 4 (by decide) hshift
  rw [UInt32.shiftRight_or, or_and_distrib, hnone, UInt32.or_zero]

theorem flags_back (h : Valid f) (event : Option UInt32) :
    decodeFlags (written0 f) (written1 f event) = f.flags := by
  have hback := (header_back f.dlc h.dlc f.flags ((flagsValid_iff f.flags).mp h.flags).1).1
  rw [decodeFlags, written0, written1, header0_bit _ _ (by decide), header0_bit _ _ (by decide),
    header0_bit _ _ (by decide), header1_bit _ _ (by decide), header1_bit _ _ (by decide)]
  exact hback

theorem dlc_back (h : Valid f) (event : Option UInt32) :
    decodeDlc (written0 f) (written1 f event) = f.dlc := by
  have hback := (header_back f.dlc h.dlc f.flags ((flagsValid_iff f.flags).mp h.flags).1).2.1
  rw [decodeDlc, flags_back h event, written1, length_code, hback]
  apply if_neg
  rintro ⟨hfd, hlong⟩
  exact absurd hlong (UInt8.not_lt.mpr (h.classic (Bool.eq_false_iff.mpr hfd)))

theorem id_back (h : Valid f) : decodeId (written0 f) = f.id := by
  have hid := h.id
  have hkind := (header_back f.dlc h.dlc f.flags ((flagsValid_iff f.flags).mp h.flags).1).2.2
  have hhigh := kindBits_high f.flags
  have hlow := idBits_low f.id f.flags
  have hsum : (written0 f).toNat = (kindBits f.flags).toNat+(idBits f.id f.flags).toNat := by
    rw [written0, header0_parts, toNat_or_add 29 hhigh hlow]
  have hbit : written0 f &&& elemXtd = kindBits f.flags &&& elemXtd :=
    header0_bit _ _ (by decide)
  rw [decodeId, hbit]
  apply UInt32.toNat_inj.mp
  by_cases hext : has f.flags frameExtended = true
  · rw [if_pos hext] at hid
    rw [if_pos (hkind.mpr hext), toNat_and_mask 29 rfl, hsum]
    have hfield : idBits f.id f.flags = f.id := by
      rw [idBits, if_pos hext, and_mask 29 rfl hid]
    rw [hfield] at hlow ⊢
    omega
  · rw [if_neg hext] at hid
    rw [if_neg fun hset => hext (hkind.mp hset), toNat_and_mask 11 rfl, UInt32.toNat_shiftRight,
      hsum]
    have hsmall : f.id.toNat ≤ 2^11-1 := UInt32.le_iff_toNat_le.mp hid
    have hfield : (idBits f.id f.flags).toNat = f.id.toNat*2^18 := by
      rw [idBits, if_neg hext, and_mask 11 rfl hid, UInt32.toNat_shiftLeft]
      simp [Nat.shiftLeft_eq]
      omega
    rw [hfield]
    simp [Nat.shiftRight_eq_div_pow]
    omega

variable (ram : Ram) (elem : ℕ) (event : Option UInt32)

def payloadByte (ram : Ram) (word i : ℕ) : UInt8 := (storeLe32 (ram (word+i/4))).getD (i%4) 0

theorem stored_word (data : Image) (i : ℕ) :
    (storeLe32 (loadLe32 data (4*(i/4)))).getD (i%4) 0 = data i := by
  have hbytes : storeLe32 (loadLe32 data (4*(i/4))) = slice data (4*(i/4)) 4 := by
    show [byte0 (word _ _ _ _), byte1 (word _ _ _ _), byte2 (word _ _ _ _),
      byte3 (word _ _ _ _)] = _
    rw [byte0_word, byte1_word, byte2_word, byte3_word]
    rfl
  have hin : i%4 < 4 := Nat.mod_lt _ (by decide)
  rw [hbytes]
  simp [slice, hin, Nat.div_add_mod]

def headers (ram : Ram) (elem : ℕ) (f : Frame) (event : Option UInt32) : Ram :=
  Function.update (Function.update ram elem (written0 f)) (elem+1) (written1 f event)

theorem writeTxElement_eq : writeTxElement ram elem f event =
    if has f.flags frameRtr then headers ram elem f event
    else writePayload (headers ram elem f event) (elem+2) f.data f.len.toNat := by
  cases event <;> rfl

theorem element_header : writeTxElement ram elem f event elem = written0 f ∧
    writeTxElement ram elem f event (elem+1) = written1 f event := by
  have hfirst : headers ram elem f event elem = written0 f := by simp [headers]
  have hsecond : headers ram elem f event (elem+1) = written1 f event := by simp [headers]
  rw [writeTxElement_eq]
  by_cases hrtr : has f.flags frameRtr = true
  · rw [if_pos hrtr]
    exact ⟨hfirst, hsecond⟩
  · rw [if_neg hrtr, writePayload, writePayload, if_neg (by omega), if_neg (by omega)]
    exact ⟨hfirst, hsecond⟩

/-- The bytes of a data frame, and zeros up to the end of the last word. -/
theorem element_payload (hdata : has f.flags frameRtr = false) {i : ℕ}
    (hi : i < Mcp251xfd.roundToWord f.len.toNat) :
    payloadByte (writeTxElement ram elem f event) (elem+2) i =
      if i < f.len.toNat then f.data i else 0 := by
  unfold Mcp251xfd.roundToWord at hi
  have hplace : elem+2+i/4-(elem+2) = i/4 := by omega
  rw [payloadByte, writeTxElement_eq, if_neg (Bool.eq_false_iff.mp hdata), writePayload,
    if_pos (by omega), hplace, stored_word]
  rfl

theorem readRxElement_data (i : ℕ) : (readRxElement ram elem).data i =
    if has (decodeFlags (ram elem) (ram (elem+1))) frameRtr = false ∧
      i < (dlcToBytes (decodeDlc (ram elem) (ram (elem+1)))).toNat then
    payloadByte ram (elem+2) i else 0 := by
  unfold readRxElement
  dsimp only
  cases has (decodeFlags (ram elem) (ram (elem+1))) frameRtr with
  | true => simp
  | false => simp [readPayload, payloadByte]

theorem received_back (h : Valid f) :
    Received f (readRxElement (writeTxElement ram elem f event) elem) := by
  obtain ⟨h0, h1⟩ := element_header (f := f) ram elem event
  constructor
  · rw [readRxElement, h0]
    exact id_back h
  · rw [readRxElement, h0, h1]
    exact flags_back h event
  · rw [readRxElement, h0, h1]
    exact dlc_back h event
  · rw [readRxElement, h0, h1, dlc_back h event]
    exact h.len.symm
  · intro i
    rw [readRxElement_data, h0, h1, flags_back h event, dlc_back h event, ← h.len]
    by_cases hdata : has f.flags frameRtr = false ∧ i < f.len.toNat
    · rw [if_pos hdata, if_pos hdata]
      have hround := Mcp251xfdObjects.roundToWord_le f.len.toNat
      rw [element_payload ram elem event hdata.1 (by omega), if_pos hdata.2]
    · rw [if_neg hdata, if_neg hdata]

theorem decodeFlags_extended (h0 h1 : UInt32) :
    has (decodeFlags h0 h1) frameExtended = true ↔ h0 &&& elemXtd ≠ 0 := by
  have hjoin : ∀ xtd rtr esi fdf brs : Bool,
      has ((if xtd then frameExtended else 0) ||| (if rtr then frameRtr else 0) |||
        (if esi then frameEsi else 0) ||| (if fdf then frameFd else 0) |||
        (if brs then frameBrs else 0)) frameExtended = xtd := by decide
  have hflags := hjoin (h0 &&& elemXtd ≠ 0) (h0 &&& elemRtr ≠ 0) (h0 &&& elemEsi ≠ 0)
    (h1 &&& elemFdf ≠ 0) (h1 &&& elemBrs ≠ 0)
  simp only [decide_eq_true_iff] at hflags
  rw [decodeFlags, hflags, decide_eq_true_iff]

/-- A classic element is read with eight bytes at most. -/
theorem decodeDlc_bounds (h0 h1 : UInt32) : decodeDlc h0 h1 ≤ 15 ∧
    (has (decodeFlags h0 h1) frameFd = false → decodeDlc h0 h1 ≤ 8) := by
  have hcode : ((h1 >>> 16) &&& (0x0F : UInt32)).toUInt8 ≤ 15 := by
    apply UInt8.le_iff_toNat_le.mpr
    rw [UInt32.toNat_toUInt8, toNat_and_mask 4 rfl]
    exact Nat.le_of_lt_succ (Nat.lt_of_le_of_lt (Nat.mod_le _ _) (Nat.mod_lt _ (by decide)))
  unfold decodeDlc
  by_cases hlong : ¬ has (decodeFlags h0 h1) frameFd ∧
      (8 : UInt8) < ((h1 >>> 16) &&& 0x0F).toUInt8
  · rw [if_pos hlong]
    exact ⟨by decide, fun _ => by decide⟩
  · rw [if_neg hlong]
    exact ⟨hcode, fun hfd => UInt8.not_lt.mp fun hlt =>
      hlong ⟨Bool.eq_false_iff.mp hfd, hlt⟩⟩

theorem readRxElement_valid
    (h : flagsValid (readRxElement ram elem).flags = true) :
    frameValid (readRxElement ram elem) = true := by
  obtain ⟨hdlc, hclassic⟩ := decodeDlc_bounds (ram elem) (ram (elem+1))
  apply (frameValid_iff _).mpr
  refine ⟨h, ?_, hdlc, hclassic, rfl⟩
  show decodeId (ram elem) ≤
    if has (decodeFlags (ram elem) (ram (elem+1))) frameExtended then extIdMask else stdIdMask
  have hkind := decodeFlags_extended (ram elem) (ram (elem+1))
  by_cases hext : ram elem &&& elemXtd ≠ 0
  · rw [if_pos (hkind.mpr hext), decodeId, if_pos hext]
    exact and_le_mask 29 rfl
  · rw [if_neg fun hset => hext (hkind.mp hset), decodeId, if_neg hext]
    exact and_le_mask 11 rfl

end JaszczurHal.FdcanElements

namespace JaszczurHal.CanObjectLaws
open HalStatus ByteImage CanFrames CanObjects

/-- The registers of an MCP2515 are received as the frame that wrote them. -/
def Mcp2515Read (f : Frame) : Prop := ∀ registers, Received f
  (Mcp2515.receiveFrame (Mcp2515.readRx (Mcp2515.writeCanMsg registers (Mcp2515.sendFrame f))))

/-- The same when the remote bit of a standard frame is where the chip that
receives it has it. -/
def Mcp2515Received (f : Frame) : Prop := ∀ registers, Received f
  (Mcp2515.receiveFrame (Mcp2515.readRx
    (Mcp2515Buffers.asReceived (Mcp2515.writeCanMsg registers (Mcp2515.sendFrame f)))))

/-- An object in the RAM is received, with zeros up to the end of the payload's
last word. -/
def Mcp251xfdRead (f : Frame) : Prop := ∀ ram address,
  (∃ g, Mcp251xfd.receiveFrame (Mcp251xfd.sendFrame ram address f) address = .ok g ∧
    Received f g) ∧
  (has f.flags frameRtr = false → ∀ i < Mcp251xfd.roundToWord f.len.toNat,
    Mcp251xfd.sendFrame ram address f (address+(Mcp251xfd.objHeader+i)) =
      if i < f.len.toNat then f.data i else 0)

/-- The same of an element, with or without a request for an event. -/
def FdcanRead (f : Frame) : Prop := ∀ ram elem event,
  Received f (Fdcan.readRxElement (Fdcan.writeTxElement ram elem f event) elem) ∧
  (has f.flags frameRtr = false → ∀ i < Mcp251xfd.roundToWord f.len.toNat,
    FdcanElements.payloadByte (Fdcan.writeTxElement ram elem f event) (elem+2) i =
      if i < f.len.toNat then f.data i else 0)

theorem mcp251xfd_read {f : Frame} (h : Valid f) : Mcp251xfdRead f := by
  intro ram address
  constructor
  · exact Mcp251xfdObjects.received_back ram address h
  · intro hdata i hi
    exact Mcp251xfdObjects.sent_payload ram address h hdata hi

theorem fdcan_read {f : Frame} (h : Valid f) : FdcanRead f := by
  intro ram elem event
  constructor
  · exact FdcanElements.received_back ram elem event h
  · intro hdata i hi
    exact FdcanElements.element_payload ram elem event hdata hi

theorem mcp2515_received {f : Frame} (h : Valid f) (hclassic : has f.flags frameFd = false) :
    Mcp2515Received f :=
  fun registers => Mcp2515Buffers.received_back registers h hclassic

theorem mcp2515_read {f : Frame} (h : Valid f) (hclassic : has f.flags frameFd = false)
    (hkind : has f.flags frameExtended = true ∨ has f.flags frameRtr = false) :
    Mcp2515Read f := by
  intro registers
  have hreceived := Mcp2515Buffers.received_back registers h hclassic
  rw [Mcp2515Buffers.asReceived_eq registers h hclassic hkind] at hreceived
  exact hreceived

/-- The codecs of the three drivers. -/
theorem codecs_read (f : Frame) (hvalid : frameValid f = true) :
    Mcp251xfdRead f ∧ FdcanRead f ∧
    (has f.flags frameFd = false → Mcp2515Received f ∧
      (has f.flags frameExtended = true ∨ has f.flags frameRtr = false → Mcp2515Read f)) ∧
    (∀ ram address,
      (∃ g, Mcp251xfd.receiveFrame ram address = .ok g ∧ frameValid g = true) ∨
        Mcp251xfd.receiveFrame ram address = .error .eio) ∧
    (∀ ram elem, flagsValid (Fdcan.readRxElement ram elem).flags = true →
      frameValid (Fdcan.readRxElement ram elem) = true) ∧
    ∀ registers, frameValid (Mcp2515.receiveFrame (Mcp2515.readRx registers)) = true := by
  have h := (frameValid_iff f).mp hvalid
  refine ⟨mcp251xfd_read h, fdcan_read h, ?_, ?_, ?_, ?_⟩
  · intro hclassic
    exact ⟨mcp2515_received h hclassic, mcp2515_read h hclassic⟩
  · exact Mcp251xfdObjects.receiveFrame_valid
  · exact FdcanElements.readRxElement_valid
  · exact Mcp2515Buffers.receiveFrame_valid

def sampleFrame : Frame where
  id := 0x1ABCDEF
  dlc := 9
  len := 12
  flags := frameExtended ||| frameFd ||| frameBrs
  data i := .ofNat i

def classicFrame : Frame where
  id := 0x123
  dlc := 3
  len := 3
  flags := 0
  data i := .ofNat i

theorem sample_read : (Mcp251xfdRead sampleFrame ∧ FdcanRead sampleFrame) ∧
    Mcp2515Received classicFrame ∧ Mcp2515Read classicFrame := by
  obtain ⟨hspi, hram, _⟩ := codecs_read sampleFrame (by decide)
  obtain ⟨_, _, hclassic, _⟩ := codecs_read classicFrame (by decide)
  obtain ⟨hreceived, hread⟩ := hclassic (by decide)
  exact ⟨⟨hspi, hram⟩, hreceived, hread (Or.inr (by decide))⟩

def remoteRequest : Frame where
  id := 0x123
  dlc := 2
  len := 2
  flags := frameRtr
  data _ := 0

def fasterElement : Fdcan.Ram := fun word => if word = 1 then Fdcan.elemBrs else 0

/-- The request is accepted and sent, but its own registers read as data; the
element is read, but not as a valid frame. -/
theorem objects_not_read :
    (frameValid remoteRequest = true ∧ has remoteRequest.flags frameFd = false ∧
      ¬ Mcp2515Read remoteRequest) ∧
    frameValid (Fdcan.readRxElement fasterElement 0) = false := by
  refine ⟨⟨by decide, by decide, fun h => ?_⟩, by decide⟩
  have hflags := (h fun _ => 0).flags
  exact absurd hflags (by decide)

end JaszczurHal.CanObjectLaws
