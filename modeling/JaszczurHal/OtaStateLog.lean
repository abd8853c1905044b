import JaszczurHal.OtaManifest

/-!
# The two-slot log of boot states

A boot state is one 256-byte record at the start of a flash sector. Every
write goes to the sector that is not the selected one, so a cut inside it
leaves either the selected state or the one being written.
-/

set_option autoImplicit false

namespace JaszczurHal.OtaStateLog
open HalStatus HalCrc ByteImage OtaImage OtaManifest

def JH_OTA_STATE_RECORD_SIZE : ℕ := 256
def JH_OTA_STATE_VERSION : UInt16 := 1
def kStateCrcOffset : ℕ := JH_OTA_STATE_RECORD_SIZE-4

def kStateMagic : List UInt8 := [74, 72, 79, 84, 65, 83, 84, 49]

abbrev Digest := Vector UInt8 32

def modeByte : BootMode → UInt8
  | .stable => 0
  | .pending => 1
  | .trial => 2
  | .rollback => 3
  | .recovery => 4

def modeOf (byte : UInt8) : Option BootMode :=
  if byte = 0 then some .stable
  else if byte = 1 then some .pending
  else if byte = 2 then some .trial
  else if byte = 3 then some .rollback
  else if byte = 4 then some .recovery
  else none

theorem modeOf_modeByte (mode : BootMode) : modeOf (modeByte mode) = some mode := by
  cases mode <;> rfl

/-- A state whose two version arrays have the size that `jh_ota_boot_state_t`
gives them. -/
structure StoredState where
  state : BootState Digest
  programLength : state.programVersion.length = JH_OTA_VERSION_TEXT_SIZE
  stagingLength : state.stagingVersion.length = JH_OTA_VERSION_TEXT_SIZE

def stateFields (s : BootState Digest) : List (List UInt8) :=
  [kStateMagic, storeLe16 JH_OTA_STATE_VERSION, storeLe16 (UInt16.ofNat JH_OTA_STATE_RECORD_SIZE),
    storeLe32 s.sequence, [modeByte s.mode], [s.attempts], [s.maxAttempts], [0],
    storeLe32 s.programSize, storeLe32 s.stagingSize, storeLe32 s.programGeneration,
    storeLe32 s.stagingGeneration, s.programSha256.toList, s.stagingSha256.toList,
    s.programVersion, s.stagingVersion, List.replicate 88 0]

def stateBody (s : BootState Digest) : List UInt8 := (stateFields s).flatten

def stateRecord (s : BootState Digest) : List UInt8 :=
  stateBody s ++ storeLe32 (crc32 (stateBody s))

def bootStateEncode (s : BootState Digest) : Except Status (List UInt8) :=
  if stateValid s then .ok (stateRecord s) else .error .einval

def terminated (text : List UInt8) : List UInt8 := text.set (JH_OTA_VERSION_TEXT_SIZE-1) 0

def stateAt (raw : List UInt8) (mode : BootMode) : BootState Digest :=
  { sequence := loadLe32 (ofList raw) 12
    mode := mode
    attempts := ofList raw 17
    maxAttempts := ofList raw 18
    programSize := loadLe32 (ofList raw) 20
    stagingSize := loadLe32 (ofList raw) 24
    programGeneration := loadLe32 (ofList raw) 28
    stagingGeneration := loadLe32 (ofList raw) 32
    programSha256 := loadArray raw 36
    stagingSha256 := loadArray raw 68
    programVersion := terminated (slice (ofList raw) 100 JH_OTA_VERSION_TEXT_SIZE)
    stagingVersion := terminated (slice (ofList raw) 132 JH_OTA_VERSION_TEXT_SIZE) }

def bootStateDecode (raw : List UInt8) : Except Status (BootState Digest) :=
  if raw.take kStateMagic.length ≠ kStateMagic ∨
      loadLe16 (ofList raw) 8 ≠ JH_OTA_STATE_VERSION ∨
      loadLe16 (ofList raw) 10 ≠ UInt16.ofNat JH_OTA_STATE_RECORD_SIZE ∨
      loadLe32 (ofList raw) kStateCrcOffset ≠ crc32 (raw.take kStateCrcOffset) then
    .error .eproto
  else
    match modeOf (ofList raw 16) with
    | none => .error .eproto
    | some mode => if stateValid (stateAt raw mode) then .ok (stateAt raw mode) else .error .eproto

def bootStateSelect (first second : List UInt8) : Except Status (BootState Digest × Bool) :=
  match bootStateDecode first, bootStateDecode second with
  | .error _, .error _ => .error .enoent
  | .ok a, .error _ => .ok (a, false)
  | .error _, .ok b => .ok (b, true)
  | .ok a, .ok b => if sequenceNewer b.sequence a.sequence then .ok (b, true) else .ok (a, false)

theorem slice_middle (a b c : List UInt8) :
    slice (ofList (a ++ (b ++ c))) a.length b.length = b := by
  apply slice_eq_iff.mpr
  intro i hi
  rw [ofList, List.getD_eq_getElem?_getD, List.getElem?_append_right (Nat.le_add_right _ _),
    Nat.add_sub_cancel_left, List.getElem?_append_left hi, List.getD_eq_getElem?_getD]

theorem slice_field (fields : List (List UInt8)) (rest : List UInt8) {i : ℕ}
    (h : i < fields.length) :
    slice (ofList (fields.flatten ++ rest)) (fields.take i).flatten.length fields[i].length =
      fields[i] := by
  have hsplit : fields.flatten ++ rest =
      (fields.take i).flatten ++ (fields[i] ++ ((fields.drop (i+1)).flatten ++ rest)) := by
    calc fields.flatten ++ rest
        = (fields.take i ++ fields.drop i).flatten ++ rest := by rw [List.take_append_drop]
      _ = _ := by
        rw [List.drop_eq_getElem_cons h, List.flatten_append, List.flatten_cons]
        simp only [List.append_assoc]
  rw [hsplit, slice_middle]

variable (s : StoredState)

theorem stateBody_length : (stateBody s.state).length = kStateCrcOffset := by
  simp [stateBody, stateFields, kStateMagic, storeLe16, storeLe32, s.programLength,
    s.stagingLength, kStateCrcOffset, JH_OTA_STATE_RECORD_SIZE, JH_OTA_VERSION_TEXT_SIZE]

theorem stateRecord_length : (stateRecord s.state).length = JH_OTA_STATE_RECORD_SIZE := by
  rw [stateRecord, List.length_append, stateBody_length]
  rfl

theorem field_at {i offset length : ℕ} (h : i < (stateFields s.state).length)
    (hoffset : ((stateFields s.state).take i).flatten.length = offset)
    (hlength : (stateFields s.state)[i].length = length) :
    slice (ofList (stateRecord s.state)) offset length = (stateFields s.state)[i] := by
  rw [← hoffset, ← hlength]
  exact slice_field _ _ h

/-- The bytes before the first zero, all that a reader of the text sees. -/
def printed (text : List UInt8) : List UInt8 := text.takeWhile fun c => c ≠ 0

theorem printed_zero {text rest : List UInt8} (h : 0 ∉ text) : printed (text ++ 0 :: rest) = text := by
  have hpos : ∀ c ∈ text, decide (c ≠ 0) = true := by
    intro c hc
    apply decide_eq_true
    rintro rfl
    exact h hc
  rw [printed, List.takeWhile_append_of_pos hpos]
  simp

/-- A text that ends inside its array is not touched. -/
theorem printed_terminated {text : List UInt8} (hvalid : textValid text = true)
    (hlength : text.length = JH_OTA_VERSION_TEXT_SIZE) :
    printed (terminated text) = printed text := by
  rw [textValid, ← hlength, List.take_length, List.contains_iff_mem] at hvalid
  obtain ⟨before, after, rfl, hbefore⟩ := List.eq_append_cons_of_mem hvalid
  rw [printed_zero hbefore, terminated]
  have hle : before.length ≤ JH_OTA_VERSION_TEXT_SIZE-1 := by
    rw [← hlength, List.length_append, List.length_cons]
    omega
  rw [List.set_append_right _ _ hle]
  cases JH_OTA_VERSION_TEXT_SIZE-1-before.length with
  | zero => exact printed_zero hbefore
  | succ n => exact printed_zero hbefore

theorem terminated_valid {text : List UInt8} (hlength : text.length = JH_OTA_VERSION_TEXT_SIZE) :
    textValid (terminated text) = true := by
  have hlast : JH_OTA_VERSION_TEXT_SIZE-1 < text.length := by
    rw [hlength]
    decide
  rw [textValid, List.take_of_length_le (by rw [terminated, List.length_set, hlength]),
    List.contains_iff_mem, terminated]
  exact List.mem_set hlast 0

def visible (state : BootState Digest) : BootState Digest :=
  { state with
    programVersion := printed state.programVersion
    stagingVersion := printed state.stagingVersion }

def restored (state : BootState Digest) : BootState Digest :=
  { state with
    programVersion := terminated state.programVersion
    stagingVersion := terminated state.stagingVersion }

theorem stateValid_iff {state : BootState Digest} : stateValid state = true ↔
    0 < state.maxAttempts ∧ textValid state.programVersion = true ∧
      textValid state.stagingVersion = true := by
  simp [stateValid, and_assoc]

theorem visible_restored (h : stateValid s.state = true) :
    visible (restored s.state) = visible s.state := by
  obtain ⟨_, hprogram, hstaging⟩ := stateValid_iff.mp h
  rw [visible, visible, restored]
  simp only
  rw [printed_terminated hprogram s.programLength, printed_terminated hstaging s.stagingLength]

theorem restored_valid (h : stateValid s.state = true) : stateValid (restored s.state) = true :=
  stateValid_iff.mpr ⟨(stateValid_iff.mp h).1, terminated_valid s.programLength,
    terminated_valid s.stagingLength⟩

theorem loadArray_eq {raw : List UInt8} {offset : ℕ} {v : Digest}
    (h : slice (ofList raw) offset 32 = v.toList) : loadArray raw offset = v := by
  apply Vector.toList_inj.mp
  rw [← h]
  rfl

theorem byte_of_slice {m : Image} {offset : ℕ} {b : UInt8} (h : slice m offset 1 = [b]) :
    m offset = b :=
  List.singleton_inj.mp h

theorem field_offsets :
    (List.range 16).map (fun i => ((stateFields s.state).take i).flatten.length) =
      [0, 8, 10, 12, 16, 17, 18, 19, 20, 24, 28, 32, 36, 68, 100, 132] := by
  simp [stateFields, kStateMagic, storeLe16, storeLe32, s.programLength, List.range_succ,
    JH_OTA_VERSION_TEXT_SIZE]

theorem field_offset {i : ℕ} (hi : i < 16) : ((stateFields s.state).take i).flatten.length =
    [0, 8, 10, 12, 16, 17, 18, 19, 20, 24, 28, 32, 36, 68, 100, 132].getD i 0 := by
  rw [← field_offsets s]
  simp [hi]

theorem stateAt_record : stateAt (stateRecord s.state) s.state.mode = restored s.state := by
  have hsequence : loadLe32 (ofList (stateRecord s.state)) 12 = s.state.sequence :=
    loadLe32_store (field_at s (by decide : 3 < 17) (field_offset s (by decide)) rfl)
  have hattempts : ofList (stateRecord s.state) 17 = s.state.attempts :=
    byte_of_slice (field_at s (by decide : 5 < 17) (field_offset s (by decide)) rfl)
  have hmax : ofList (stateRecord s.state) 18 = s.state.maxAttempts :=
    byte_of_slice (field_at s (by decide : 6 < 17) (field_offset s (by decide)) rfl)
  have hprogram : loadLe32 (ofList (stateRecord s.state)) 20 = s.state.programSize :=
    loadLe32_store (field_at s (by decide : 8 < 17) (field_offset s (by decide)) rfl)
  have hstaging : loadLe32 (ofList (stateRecord s.state)) 24 = s.state.stagingSize :=
    loadLe32_store (field_at s (by decide : 9 < 17) (field_offset s (by decide)) rfl)
  have hgeneration : loadLe32 (ofList (stateRecord s.state)) 28 = s.state.programGeneration :=
    loadLe32_store (field_at s (by decide : 10 < 17) (field_offset s (by decide)) rfl)
  have hstagingGeneration :
      loadLe32 (ofList (stateRecord s.state)) 32 = s.state.stagingGeneration :=
    loadLe32_store (field_at s (by decide : 11 < 17) (field_offset s (by decide)) rfl)
  have hsha : loadArray (stateRecord s.state) 36 = s.state.programSha256 :=
    loadArray_eq (field_at s (by decide : 12 < 17) (field_offset s (by decide))
      s.state.programSha256.length_toList)
  have hstagingSha : loadArray (stateRecord s.state) 68 = s.state.stagingSha256 :=
    loadArray_eq (field_at s (by decide : 13 < 17) (field_offset s (by decide))
      s.state.stagingSha256.length_toList)
  have htext : slice (ofList (stateRecord s.state)) 100 JH_OTA_VERSION_TEXT_SIZE =
      s.state.programVersion :=
    field_at s (by decide : 14 < 17) (field_offset s (by decide)) s.programLength
  have hstagingText : slice (ofList (stateRecord s.state)) 132 JH_OTA_VERSION_TEXT_SIZE =
      s.state.stagingVersion :=
    field_at s (by decide : 15 < 17) (field_offset s (by decide)) s.stagingLength
  rw [stateAt, hsequence, hattempts, hmax, hprogram, hstaging, hgeneration, hstagingGeneration,
    hsha, hstagingSha, htext, hstagingText]
  rfl

theorem record_crc :
    loadLe32 (ofList (stateRecord s.state)) kStateCrcOffset = crc32 (stateBody s.state) := by
  apply loadLe32_store
  have h := slice_middle (stateBody s.state) (storeLe32 (crc32 (stateBody s.state))) []
  rw [List.append_nil, stateBody_length] at h
  exact h

theorem record_body : (stateRecord s.state).take kStateCrcOffset = stateBody s.state := by
  rw [stateRecord, ← stateBody_length s, List.take_left]

/-- Decoding an encoded state gives all its fields back. -/
theorem decode_record (h : stateValid s.state = true) :
    bootStateDecode (stateRecord s.state) = .ok (restored s.state) := by
  have hversion : loadLe16 (ofList (stateRecord s.state)) 8 = JH_OTA_STATE_VERSION :=
    loadLe16_store (field_at s (by decide : 1 < 17) (field_offset s (by decide)) rfl)
  have hsize : loadLe16 (ofList (stateRecord s.state)) 10 = UInt16.ofNat JH_OTA_STATE_RECORD_SIZE :=
    loadLe16_store (field_at s (by decide : 2 < 17) (field_offset s (by decide)) rfl)
  have hmode : ofList (stateRecord s.state) 16 = modeByte s.state.mode :=
    byte_of_slice (field_at s (by decide : 4 < 17) (field_offset s (by decide)) rfl)
  rw [bootStateDecode, if_neg, hmode, modeOf_modeByte]
  · dsimp only
    rw [stateAt_record, if_pos (restored_valid s h)]
  · rw [record_crc, record_body]
    rintro (hno | hno | hno | hno)
    · exact hno rfl
    · exact hno hversion
    · exact hno hsize
    · exact hno rfl

theorem decode_encode {raw : List UInt8} (h : bootStateEncode s.state = .ok raw) :
    raw.length = JH_OTA_STATE_RECORD_SIZE ∧ bootStateDecode raw = .ok (restored s.state) ∧
      visible (restored s.state) = visible s.state := by
  unfold bootStateEncode at h
  split at h
  · rename_i hvalid
    rw [← Except.ok.inj h]
    exact ⟨stateRecord_length s, decode_record s hvalid, visible_restored s hvalid⟩
  · cases h

def FLASH_SECTOR_SIZE : ℕ := 4096

abbrev Sectors := Bool → Image

def recordOf (m : Image) : List UInt8 := slice m 0 JH_OTA_STATE_RECORD_SIZE

def loadState (sectors : Sectors) : Except Status (BootState Digest × Bool) :=
  bootStateSelect (recordOf (sectors false)) (recordOf (sectors true))

def flashRangeErase (m : Image) (size : ℕ) : Image := fun i => if i < size then 0xFF else m i

def flashRangeProgram (m : Image) (bytes : List UInt8) : Image := fun i =>
  if i < bytes.length then m i &&& bytes.getD i 0 else m i

inductive Ending where
  | whole
  | stopped (left : Image)

/-- `write_state`: the record goes to the sector that is not `currentIndex`.
A stopped write leaves any bytes in that sector. -/
def writeState (sectors : Sectors) (state : BootState Digest) (currentIndex : Bool)
    (ending : Ending) : Sectors :=
  match bootStateEncode state with
  | .error _ => sectors
  | .ok encoded =>
    match ending with
    | .whole => Function.update sectors (!currentIndex)
        (flashRangeProgram (flashRangeErase (sectors (!currentIndex)) FLASH_SECTOR_SIZE) encoded)
    | .stopped left => Function.update sectors (!currentIndex) left

/-- Every caller counts the selected state's sequence number up. Where no
state is selected, the first one is written as if the second sector were
current. -/
def nextState (sectors : Sectors) (fields : BootState Digest) : BootState Digest × Bool :=
  match loadState sectors with
  | .ok (state, index) => ({ fields with sequence := state.sequence+1 }, index)
  | .error _ => (fields, true)

structure Write where
  fields : StoredState
  ending : Ending

def step (sectors : Sectors) (w : Write) : Sectors :=
  writeState sectors (nextState sectors w.fields.state).1 (nextState sectors w.fields.state).2
    w.ending

def run (sectors : Sectors) (writes : List Write) : Sectors := writes.foldl step sectors

def TornFails (sectors : Sectors) (w : Write) : Prop :=
  ∀ left, w.ending = .stopped left →
    recordOf left = recordOf (sectors (!(nextState sectors w.fields.state).2)) ∨
    recordOf left = stateRecord (nextState sectors w.fields.state).1 ∨
    loadLe32 (ofList (recordOf left)) kStateCrcOffset ≠ crc32 ((recordOf left).take kStateCrcOffset)

def AllTornFail : Sectors → List Write → Prop
  | _, [] => True
  | sectors, w :: writes => TornFails sectors w ∧ AllTornFail (step sectors w) writes

def decoded (sectors : Sectors) (index : Bool) : Option (BootState Digest) :=
  (bootStateDecode (recordOf (sectors index))).toOption

theorem decode_state_valid {raw : List UInt8} {state : BootState Digest}
    (h : bootStateDecode raw = .ok state) : stateValid state = true := by
  unfold bootStateDecode at h
  split at h
  · cases h
  · split at h
    · cases h
    · split at h
      · rename_i hvalid
        rw [← Except.ok.inj h]
        exact hvalid
      · cases h

theorem stateDecode_decoded (sectors : Sectors) (index : Bool) :
    stateDecode (decoded sectors index) = decoded sectors index := by
  unfold decoded
  cases h : bootStateDecode (recordOf (sectors index)) with
  | error e => rfl
  | ok state => exact decode_some state (decode_state_valid h)

theorem loadState_eq (sectors : Sectors) :
    loadState sectors = match stateSelect (decoded sectors false) (decoded sectors true) with
      | none => .error .enoent
      | some selected => .ok selected := by
  rw [stateSelect, stateDecode_decoded, stateDecode_decoded, loadState, bootStateSelect]
  unfold decoded
  cases bootStateDecode (recordOf (sectors false)) with
  | error e =>
    cases bootStateDecode (recordOf (sectors true)) with
    | error e => rfl
    | ok b => rfl
  | ok a =>
    cases bootStateDecode (recordOf (sectors true)) with
    | error e => rfl
    | ok b =>
      simp only [Except.toOption]
      split <;> rfl

theorem decoded_update (sectors : Sectors) (index : Bool) (m : Image) :
    decoded (Function.update sectors index m) =
      Function.update (decoded sectors) index (bootStateDecode (recordOf m)).toOption := by
  funext i
  by_cases hi : i = index
  · subst hi
    simp [decoded]
  · simp [decoded, hi]

def nextStored (sectors : Sectors) (fields : StoredState) : StoredState where
  state := (nextState sectors fields.state).1
  programLength := by
    unfold nextState
    split <;> exact fields.programLength
  stagingLength := by
    unfold nextState
    split <;> exact fields.stagingLength

theorem load_some {sectors : Sectors} {state : BootState Digest} {index : Bool}
    (h : loadState sectors = .ok (state, index)) :
    stateSelect (decoded sectors false) (decoded sectors true) = some (state, index) := by
  rw [loadState_eq] at h
  cases hselect : stateSelect (decoded sectors false) (decoded sectors true) with
  | none =>
    rw [hselect] at h
    cases h
  | some selected =>
    rw [hselect] at h
    rw [Except.ok.inj h]

theorem load_none {sectors : Sectors} {status : Status} (h : loadState sectors = .error status) :
    stateSelect (decoded sectors false) (decoded sectors true) = none := by
  rw [loadState_eq] at h
  cases hselect : stateSelect (decoded sectors false) (decoded sectors true) with
  | none => rfl
  | some selected =>
    rw [hselect] at h
    cases h

/-- The new record over the other sector is selected. -/
theorem load_new (sectors : Sectors) (fields : StoredState) (m : Image)
    (hvalid : stateValid (nextStored sectors fields).state = true)
    (hm : recordOf m = stateRecord (nextStored sectors fields).state) :
    loadState (Function.update sectors (!(nextState sectors fields.state).2) m) =
      .ok (restored (nextStored sectors fields).state, !(nextState sectors fields.state).2) := by
  have hrestored := restored_valid _ hvalid
  rw [loadState_eq, decoded_update, hm, decode_record _ hvalid]
  cases hload : loadState sectors with
  | error status =>
    have hnext : (nextState sectors fields.state).2 = true := by
      rw [nextState, hload]
    rw [hnext]
    have hselect := select_first _ _ (load_none hload) hrestored
    simp only [Except.toOption, Bool.not_true] at hselect ⊢
    rw [hselect]
  | ok selected =>
    obtain ⟨state, index⟩ := selected
    have hnext : nextState sectors fields.state =
        ({ fields.state with sequence := state.sequence+1 }, index) := by
      rw [nextState, hload]
    have hsequence : (restored (nextStored sectors fields).state).sequence = state.sequence+1 := by
      show (nextState sectors fields.state).1.sequence = state.sequence+1
      rw [hnext]
    rw [hnext]
    have hselect := select_next _ _ _ _ (load_some hload) hsequence hrestored
    simp only [Except.toOption] at hselect ⊢
    rw [hselect]

/-- A record that does not decode, over the other sector, changes nothing. -/
theorem load_torn (sectors : Sectors) (fields : BootState Digest) (m : Image)
    (hm : (bootStateDecode (recordOf m)).toOption = none) :
    loadState (Function.update sectors (!(nextState sectors fields).2) m) = loadState sectors := by
  rw [loadState_eq, decoded_update, hm, loadState_eq]
  cases hload : loadState sectors with
  | error status =>
    have hnext : (nextState sectors fields).2 = true := by
      rw [nextState, hload]
    have hnone := load_none hload
    have hsecond := select_none_decode _ _ hnone
    rw [hnext, hnone]
    simp only [stateSelect, Bool.not_true, Function.update_self]
    rw [Function.update_of_ne (by decide), hsecond]
    rfl
  | ok selected =>
    obtain ⟨state, index⟩ := selected
    have hnext : (nextState sectors fields).2 = index := by
      rw [nextState, hload]
    rw [hnext, select_torn _ _ _ (load_some hload), load_some hload]

theorem load_same (sectors : Sectors) (index : Bool) (m : Image)
    (hm : recordOf m = recordOf (sectors index)) :
    loadState (Function.update sectors index m) = loadState sectors := by
  have hdecoded : decoded (Function.update sectors index m) = decoded sectors := by
    rw [decoded_update, hm]
    exact Function.update_eq_self index (decoded sectors)
  rw [loadState_eq, hdecoded, loadState_eq]

theorem recordOf_programmed (m : Image) {bytes : List UInt8}
    (h : bytes.length = JH_OTA_STATE_RECORD_SIZE) :
    recordOf (flashRangeProgram (flashRangeErase m FLASH_SECTOR_SIZE) bytes) = bytes := by
  rw [recordOf, ← h]
  apply slice_eq_iff.mpr
  intro i hi
  have hsector : i < FLASH_SECTOR_SIZE := by
    rw [h] at hi
    exact hi.trans (by decide)
  rw [Nat.zero_add, flashRangeProgram, if_pos hi, flashRangeErase, if_pos hsector]
  exact UInt8.neg_one_and

theorem decode_torn {raw : List UInt8}
    (h : loadLe32 (ofList raw) kStateCrcOffset ≠ crc32 (raw.take kStateCrcOffset)) :
    (bootStateDecode raw).toOption = none := by
  rw [bootStateDecode, if_pos (Or.inr (Or.inr (Or.inr h)))]
  rfl

/-- One write leaves the selection or moves it to the state being written. -/
theorem step_selects (sectors : Sectors) (w : Write) (h : TornFails sectors w) :
    (loadState (step sectors w) = loadState sectors ∨
      stateValid (nextStored sectors w.fields).state = true ∧
      loadState (step sectors w) = .ok (restored (nextStored sectors w.fields).state,
        !(nextState sectors w.fields.state).2)) ∧
    (w.ending = .whole → stateValid (nextStored sectors w.fields).state = true →
      loadState (step sectors w) = .ok (restored (nextStored sectors w.fields).state,
        !(nextState sectors w.fields.state).2)) := by
  unfold step writeState
  rw [show (nextState sectors w.fields.state).1 = (nextStored sectors w.fields).state from rfl]
  by_cases hvalid : stateValid (nextStored sectors w.fields).state = true
  · rw [bootStateEncode, if_pos hvalid]
    cases hending : w.ending with
    | whole =>
      have hnew := load_new sectors w.fields _ hvalid
        (recordOf_programmed (sectors !(nextState sectors w.fields.state).2)
          (stateRecord_length (nextStored sectors w.fields)))
      exact ⟨Or.inr ⟨hvalid, hnew⟩, fun _ _ => hnew⟩
    | stopped left =>
      refine ⟨?_, nofun⟩
      rcases h left hending with hold | hnew | htorn
      · exact Or.inl (load_same sectors _ left hold)
      · exact Or.inr ⟨hvalid, load_new sectors w.fields left hvalid hnew⟩
      · exact Or.inl (load_torn sectors w.fields.state left (decode_torn htorn))
  · rw [bootStateEncode, if_neg hvalid]
    exact ⟨Or.inl rfl, fun _ h => absurd h hvalid⟩

theorem run_append (sectors : Sectors) (first second : List Write) :
    run sectors (first ++ second) = run (run sectors first) second :=
  List.foldl_append

theorem torn_at {sectors : Sectors} {before after : List Write} {w : Write}
    (h : AllTornFail sectors (before ++ w :: after)) : TornFails (run sectors before) w := by
  induction before generalizing sectors with
  | nil => exact h.1
  | cons v before ih => exact ih h.2

def Loads (sectors : Sectors) (state : BootState Digest) : Prop :=
  ∃ loaded index, loadState sectors = .ok (loaded, index) ∧ visible loaded = visible state

/-- Decoding gives back what was encoded; and after every write of a run,
whole or stopped, the state selected before it or the one it wrote is selected,
after a whole one the latter. -/
theorem log_atomic (sectors : Sectors) (writes : List Write) (h : AllTornFail sectors writes) :
    (∀ (s : StoredState) (raw : List UInt8), bootStateEncode s.state = .ok raw →
      raw.length = JH_OTA_STATE_RECORD_SIZE ∧
        ∃ state, bootStateDecode raw = .ok state ∧ visible state = visible s.state) ∧
    ∀ before w after, writes = before ++ w :: after →
      (loadState (run sectors (before ++ [w])) = loadState (run sectors before) ∨
        Loads (run sectors (before ++ [w])) (nextState (run sectors before) w.fields.state).1) ∧
      (w.ending = .whole → stateValid (nextState (run sectors before) w.fields.state).1 = true →
        Loads (run sectors (before ++ [w])) (nextState (run sectors before) w.fields.state).1) := by
  refine ⟨fun s raw hraw => ?_, ?_⟩
  · obtain ⟨hlength, hdecode, hvisible⟩ := decode_encode s hraw
    exact ⟨hlength, _, hdecode, hvisible⟩
  · rintro before w after rfl
    obtain ⟨hany, hwhole⟩ := step_selects (run sectors before) w (torn_at h)
    rw [run_append]
    refine ⟨?_, fun hending hvalid => ?_⟩
    · rcases hany with hold | ⟨hvalid, hnew⟩
      · exact Or.inl hold
      · exact Or.inr ⟨_, _, hnew, visible_restored _ hvalid⟩
    · exact ⟨_, _, hwhole hending hvalid, visible_restored (nextStored _ w.fields) hvalid⟩

def factoryState : StoredState where
  state :=
    { sequence := 1
      mode := .stable
      attempts := 0
      maxAttempts := 3
      programSize := 4096
      stagingSize := 0
      programGeneration := 0
      stagingGeneration := 0
      programSha256 := Vector.replicate 32 0
      stagingSha256 := Vector.replicate 32 0
      programVersion := [102, 97, 99, 116, 111, 114, 121] ++ List.replicate 25 0
      stagingVersion := [101, 109, 112, 116, 121] ++ List.replicate 27 0 }
  programLength := rfl
  stagingLength := rfl

def blank : Sectors := fun _ _ => 0xFF

def firstWrites : List Write := [⟨factoryState, .stopped fun _ => 0xFF⟩, ⟨factoryState, .whole⟩]

theorem firstWrites_torn : AllTornFail blank firstWrites := by
  refine ⟨fun left hleft => Or.inl ?_, nofun, trivial⟩
  rw [← Ending.stopped.inj hleft]
  rfl

theorem blank_log_atomic :
    (loadState (run blank ([firstWrites[0]] ++ [firstWrites[1]])) =
        loadState (run blank [firstWrites[0]]) ∨
      Loads (run blank ([firstWrites[0]] ++ [firstWrites[1]]))
        (nextState (run blank [firstWrites[0]]) factoryState.state).1) ∧
    (firstWrites[1].ending = .whole →
      stateValid (nextState (run blank [firstWrites[0]]) factoryState.state).1 = true →
        Loads (run blank ([firstWrites[0]] ++ [firstWrites[1]]))
          (nextState (run blank [firstWrites[0]]) factoryState.state).1) :=
  (log_atomic blank firstWrites firstWrites_torn).2 [firstWrites[0]] firstWrites[1] [] rfl

end JaszczurHal.OtaStateLog
