import JaszczurHal.ByteImage
import JaszczurHal.HalStatus
import JaszczurHal.WordBits

/-!
# Frames of the CAN facade

A frame and the rules it has to keep, and what it means that a driver has
received the frame that another one sent.
-/

set_option autoImplicit false

namespace JaszczurHal.CanFrames
open ByteImage WordBits

def frameExtended : UInt8 := 0x01
def frameRtr : UInt8 := 0x02
def frameFd : UInt8 := 0x04
def frameBrs : UInt8 := 0x08
def frameEsi : UInt8 := 0x10

def stdIdMask : UInt32 := 0x7FF
def extIdMask : UInt32 := 0x1FFFFFFF

def maxDataLen : UInt8 := 8
def fdMaxDataLen : UInt8 := 64

structure Frame where
  id : UInt32
  dlc : UInt8
  len : UInt8
  flags : UInt8
  data : Image

def has (flags bit : UInt8) : Bool := flags &&& bit ≠ 0

def fdLengths : List UInt8 := [0, 1, 2, 3, 4, 5, 6, 7, 8, 12, 16, 20, 24, 32, 48, 64]

def dlcToBytes (dlc : UInt8) : UInt8 := if 16 ≤ dlc then 0 else fdLengths.getD dlc.toNat 0

def frameValid (f : Frame) : Bool :=
  if f.flags &&& ~~~(frameExtended ||| frameRtr ||| frameFd ||| frameBrs ||| frameEsi) ≠ 0 then
    false
  else if has f.flags (frameBrs ||| frameEsi) ∧ ¬ has f.flags frameFd then false
  else if has f.flags frameFd ∧ has f.flags frameRtr then false
  else if has f.flags frameExtended ∧ extIdMask < f.id then false
  else if ¬ has f.flags frameExtended ∧ stdIdMask < f.id then false
  else if 15 < f.dlc then false
  else if dlcToBytes f.dlc ≠ f.len then false
  else if ¬ has f.flags frameFd ∧ maxDataLen < f.len then false
  else f.len ≤ fdMaxDataLen

def flagsValid (flags : UInt8) : Bool :=
  flags ≤ 0x1F && (!has flags (frameBrs ||| frameEsi) || has flags frameFd) &&
    !(has flags frameFd && has flags frameRtr)

structure Valid (f : Frame) : Prop where
  flags : flagsValid f.flags = true
  id : f.id ≤ if has f.flags frameExtended then extIdMask else stdIdMask
  dlc : f.dlc ≤ 15
  classic : has f.flags frameFd = false → f.dlc ≤ 8
  len : f.len = dlcToBytes f.dlc

/-- The driver received the frame: all of its header, and the bytes of a data
frame with zeros after them. -/
structure Received (sent got : Frame) : Prop where
  id : got.id = sent.id
  flags : got.flags = sent.flags
  dlc : got.dlc = sent.dlc
  len : got.len = sent.len
  data : ∀ i, got.data i =
    if has sent.flags frameRtr = false ∧ i < sent.len.toNat then sent.data i else 0

theorem byte_facts : ∀ b : UInt8,
    (b &&& ~~~(frameExtended ||| frameRtr ||| frameFd ||| frameBrs ||| frameEsi) = 0 ↔
      b ≤ 0x1F) ∧
    (b ≤ 15 → dlcToBytes b ≤ 64 ∧ (dlcToBytes b ≤ 8 ↔ b ≤ 8)) ∧
    (b ≤ 8 → dlcToBytes b = b) := by
  decide +kernel

theorem supported_iff (flags : UInt8) :
    flags &&& ~~~(frameExtended ||| frameRtr ||| frameFd ||| frameBrs ||| frameEsi) = 0 ↔
      flags ≤ 0x1F :=
  (byte_facts flags).1

theorem dlc_lengths (dlc : UInt8) (h : dlc ≤ 15) : dlcToBytes dlc ≤ 64 ∧
    (dlcToBytes dlc ≤ 8 ↔ dlc ≤ 8) :=
  (byte_facts dlc).2.1 h

theorem classic_length (dlc : UInt8) (h : dlc ≤ 8) : dlcToBytes dlc = dlc :=
  (byte_facts dlc).2.2 h

theorem flagsValid_iff (flags : UInt8) : flagsValid flags = true ↔ flags ≤ 0x1F ∧
    ¬ (has flags (frameBrs ||| frameEsi) ∧ ¬ has flags frameFd) ∧
      ¬ (has flags frameFd ∧ has flags frameRtr) := by
  rw [flagsValid, Bool.and_eq_true, Bool.and_eq_true, decide_eq_true_iff, and_assoc]
  cases has flags (frameBrs ||| frameEsi) <;> cases has flags frameFd <;>
    cases has flags frameRtr <;> simp

theorem frameValid_iff (f : Frame) : frameValid f = true ↔ Valid f := by
  have hflags := flagsValid_iff f.flags
  have hsupported := supported_iff f.flags
  unfold frameValid
  constructor
  · intro h
    split_ifs at h with hsup hbrs hrtr hext hstd hdlc hlen hclassic
    have hsmall : f.dlc ≤ 15 := UInt8.not_lt.mp hdlc
    obtain ⟨_, height⟩ := dlc_lengths f.dlc hsmall
    rw [not_not] at hsup hlen
    refine ⟨hflags.mpr ⟨hsupported.mp hsup, hbrs, hrtr⟩, ?_, hsmall, fun hfd => ?_, hlen.symm⟩
    · cases hkind : has f.flags frameExtended with
      | true => exact UInt32.not_lt.mp fun hlt => hext ⟨hkind, hlt⟩
      | false => exact UInt32.not_lt.mp fun hlt => hstd ⟨by rw [hkind]; exact nofun, hlt⟩
    · rw [← height, hlen]
      exact UInt8.not_lt.mp fun hlt => hclassic ⟨by rw [hfd]; exact nofun, hlt⟩
  · intro h
    obtain ⟨hsup, hbrs, hrtr⟩ := hflags.mp h.flags
    obtain ⟨hlong, height⟩ := dlc_lengths f.dlc h.dlc
    have hid := h.id
    rw [if_neg (not_not.mpr (hsupported.mpr hsup)), if_neg hbrs, if_neg hrtr]
    rw [if_neg, if_neg, if_neg (UInt8.not_lt.mpr h.dlc), if_neg (not_not.mpr h.len.symm), if_neg]
    · rw [h.len]
      exact decide_eq_true hlong
    · rintro ⟨hfd, hlt⟩
      have hle := height.mpr (h.classic (Bool.eq_false_iff.mpr hfd))
      rw [h.len] at hlt
      exact absurd hlt (UInt8.not_lt.mpr hle)
    · rintro ⟨hkind, hlt⟩
      rw [if_neg hkind] at hid
      exact absurd hlt (UInt32.not_lt.mpr hid)
    · rintro ⟨hkind, hlt⟩
      rw [if_pos hkind] at hid
      exact absurd hlt (UInt32.not_lt.mpr hid)

theorem Received.valid {sent got : Frame} (h : Received sent got) (hsent : Valid sent) :
    Valid got where
  flags := h.flags ▸ hsent.flags
  id := by
    rw [h.id, h.flags]
    exact hsent.id
  dlc := h.dlc ▸ hsent.dlc
  classic := by
    rw [h.flags, h.dlc]
    exact hsent.classic
  len := by
    rw [h.len, h.dlc]
    exact hsent.len

end JaszczurHal.CanFrames
