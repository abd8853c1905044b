import JaszczurHal.CheckedArith

/-!
# Bytes programmed into NOR flash

Flash is programmed in pages of 256 bytes and a bit is only ever cleared. A
range of any alignment goes out page by page, the rest of a page as ones and a
page of ones not at all.
-/

set_option autoImplicit false

namespace JaszczurHal.RpFlashStorage
open CheckedArith

def flashPageSize : ℕ := 256

structure Flash where
  size : ℕ
  pages : flashPageSize ∣ size
  addressable : size < 2^32
  cells : ℕ → UInt8

def clearBits (cells : ℕ → UInt8) (offset : ℕ) (data : List UInt8) (a : ℕ) : UInt8 :=
  if offset ≤ a then
    match data[a-offset]? with
    | some value => cells a &&& value
    | none => cells a
  else cells a

def flashRangeProgram (offset : UInt32) (data : List UInt8) (f : Flash) : Checked Flash :=
  if flashPageSize ∣ offset.toNat ∧ flashPageSize ∣ data.length ∧
      offset.toNat+data.length ≤ f.size then
    .ok { f with cells := clearBits f.cells offset.toNat data }
  else .error .outOfBounds

/-- One byte of a page image; `torn` is the end of what is taken from the
data. -/
def pageByte (flashOffset torn : UInt32) (data : List UInt8) (page : UInt32) (index : ℕ) :
    Checked UInt8 :=
  let address := page+UInt32.ofNat index
  if flashOffset ≤ address ∧ address < torn then readAt data (address-flashOffset).toNat
  else pure 0xFF

def pageImage (flashOffset torn : UInt32) (data : List UInt8) (page : UInt32) :
    Checked (List UInt8) :=
  (List.range flashPageSize).mapM (pageByte flashOffset torn data page)

def programPage (flashOffset torn : UInt32) (data : List UInt8) (page : UInt32) (f : Flash) :
    Checked Flash := do
  let image ← pageImage flashOffset torn data page
  if image.all fun value => value = 0xFF then pure f
  else flashRangeProgram page image f

def programPages (flashOffset torn stop : UInt32) (data : List UInt8) :
    ℕ → UInt32 → Flash → Checked Flash
  | 0, _, _ => .error .unfinished
  | fuel+1, page, f =>
    if page < stop then do
      let f ← programPage flashOffset torn data page f
      programPages flashOffset torn stop data fuel (page+256) f
    else pure f

def programBytes (fuel : ℕ) (flashOffset : UInt32) (data : List UInt8) (size written : ℕ)
    (f : Flash) : Checked Flash :=
  let stop := flashOffset+UInt32.ofNat size
  let torn := flashOffset+UInt32.ofNat written
  programPages flashOffset torn stop data fuel (flashOffset &&& ~~~255) f

structure Partition (f : Flash) where
  flashOffset : UInt32
  size : UInt32
  inside : flashOffset.toNat+size.toNat ≤ f.size

def rangeValid {f : Flash} (p : Partition f) (offset : UInt32) (size : ℕ) : Bool :=
  decide (0 < p.size) && decide (offset ≤ p.size) && decide (size ≤ (p.size-offset).toNat)

theorem mapM_range {α : Type} {n : ℕ} {f : ℕ → Checked α} {g : ℕ → α}
    (h : ∀ i < n, f i = .ok (g i)) : (List.range n).mapM f = .ok ((List.range n).map g) := by
  induction n with
  | zero => rfl
  | succ n ih =>
    rw [List.range_succ, List.mapM_append, ih fun i hi => h i (by omega), List.map_append,
      List.mapM_cons, h n (by omega)]
    rfl

def asked (offset torn : ℕ) (data : List UInt8) (a : ℕ) : UInt8 :=
  if offset ≤ a ∧ a < torn then data.getD (a-offset) 0xFF else 0xFF

variable {flashOffset torn page : UInt32} {data : List UInt8} {f g : Flash}

theorem pageByte_ok (hdata : torn.toNat ≤ flashOffset.toNat+data.length)
    (hpage : page.toNat+256 ≤ 2^32) {index : ℕ} (hindex : index < flashPageSize) :
    pageByte flashOffset torn data page index =
      .ok (asked flashOffset.toNat torn.toNat data (page.toNat+index)) := by
  have hsmall : index < 256 := hindex
  have haddress : (page+UInt32.ofNat index).toNat = page.toNat+index := by
    rw [UInt32.toNat_add, UInt32.toNat_ofNat_of_lt' (show index < 2^32 by omega)]
    omega
  have hiff : flashOffset ≤ page+UInt32.ofNat index ∧ page+UInt32.ofNat index < torn ↔
      flashOffset.toNat ≤ page.toNat+index ∧ page.toNat+index < torn.toNat := by
    rw [UInt32.le_iff_toNat_le, UInt32.lt_iff_toNat_lt, haddress]
  rw [pageByte, asked]
  by_cases hinside : flashOffset.toNat ≤ page.toNat+index ∧ page.toNat+index < torn.toNat
  · have hread : page.toNat+index-flashOffset.toNat < data.length := by omega
    rw [if_pos hinside, if_pos (hiff.mpr hinside),
      UInt32.toNat_sub_of_le _ _ (hiff.mpr hinside).1, haddress, readAt_of hread,
      List.getD_eq_getElem?_getD, List.getElem?_eq_getElem hread, Option.getD_some]
  · rw [if_neg hinside, if_neg fun h => hinside (hiff.mp h)]
    rfl

theorem pageImage_ok (hdata : torn.toNat ≤ flashOffset.toNat+data.length) {page : UInt32}
    (hpage : page.toNat+256 ≤ 2^32) :
    pageImage flashOffset torn data page = .ok ((List.range flashPageSize).map fun index =>
      asked flashOffset.toNat torn.toNat data (page.toNat+index)) :=
  mapM_range fun _ hindex => pageByte_ok hdata hpage hindex

structure Programmed (want : ℕ → UInt8) (first last : ℕ) (f g : Flash) : Prop where
  size : g.size = f.size
  inside : ∀ a, first ≤ a → a < last → g.cells a = f.cells a &&& want a
  outside : ∀ a, a < first ∨ last ≤ a → g.cells a = f.cells a

theorem clearBits_image (cells want : ℕ → UInt8) (n first a : ℕ) :
    clearBits cells first ((List.range n).map fun index => want (first+index)) a =
      if first ≤ a ∧ a < first+n then cells a &&& want a else cells a := by
  unfold clearBits
  by_cases hfirst : first ≤ a
  · rw [if_pos hfirst, List.getElem?_map]
    by_cases hlast : a < first+n
    · rw [if_pos ⟨hfirst, hlast⟩, List.getElem?_range (by omega), Option.map_some]
      dsimp only
      rw [Nat.add_sub_cancel' hfirst]
    · have hnone : (List.range n)[a-first]? = none :=
        List.getElem?_eq_none (by rw [List.length_range]; omega)
      rw [if_neg fun h => hlast h.2, hnone, Option.map_none]
  · rw [if_neg hfirst, if_neg fun h => hfirst h.1]

/-- A page is programmed with what is asked for, also where it is skipped. -/
theorem programPage_ok (hdata : torn.toNat ≤ flashOffset.toNat+data.length)
    (haligned : 256 ∣ page.toNat) (hpage : page.toNat+256 ≤ f.size) :
    ∃ g, programPage flashOffset torn data page f = .ok g ∧
      Programmed (asked flashOffset.toNat torn.toNat data) page.toNat (page.toNat+256) f g := by
  have himage := pageImage_ok hdata (hpage.trans f.addressable.le)
  rw [programPage, himage, ok_bind]
  by_cases hblank : ((List.range flashPageSize).map fun index =>
      asked flashOffset.toNat torn.toNat data (page.toNat+index)).all fun value => value = 0xFF
  · rw [if_pos hblank]
    refine ⟨f, rfl, rfl, fun a hfirst hlast => ?_, fun _ _ => rfl⟩
    have hones := List.all_eq_true.mp hblank _ (List.mem_map_of_mem
      (List.mem_range.mpr (show a-page.toNat < 256 by omega)))
    rw [Nat.add_sub_cancel' hfirst] at hones
    rw [of_decide_eq_true hones]
    exact UInt8.and_neg_one.symm
  · rw [if_neg hblank, flashRangeProgram, if_pos]
    · refine ⟨_, rfl, rfl, fun a hfirst hlast => ?_, fun a houtside => ?_⟩
      · dsimp only
        rw [clearBits_image, if_pos ⟨hfirst, hlast⟩]
      · dsimp only
        rw [clearBits_image, if_neg]
        intro hinside
        have hlast : a < page.toNat+256 := hinside.2
        omega
    · rw [List.length_map, List.length_range]
      exact ⟨haligned, dvd_rfl, hpage⟩

/-- The pages up to here are programmed and the others as they were. -/
theorem programPages_ok (flashOffset torn stop page : UInt32) (data : List UInt8) (f : Flash)
    (hdata : torn.toNat ≤ flashOffset.toNat+data.length)
    (hstop : stop.toNat ≤ f.size) (haligned : 256 ∣ page.toNat) (fuel : ℕ)
    (hfuel : stop.toNat ≤ page.toNat+256*fuel) (hlast : page.toNat ≤ stop.toNat+255) :
    ∃ g last, programPages flashOffset torn stop data (fuel+1) page f = .ok g ∧
      stop.toNat ≤ last ∧ page.toNat ≤ last ∧
      Programmed (asked flashOffset.toNat torn.toNat data) page.toNat last f g := by
  induction fuel generalizing page f with
  | zero =>
    have hdone : ¬ page < stop := UInt32.not_lt.mpr (UInt32.le_iff_toNat_le.mpr hfuel)
    rw [programPages, if_neg hdone]
    exact ⟨f, page.toNat, rfl, hfuel, le_rfl, rfl, fun a h h' => by omega, fun _ _ => rfl⟩
  | succ fuel ih =>
    rw [programPages]
    by_cases hmore : page < stop
    · have hlt := UInt32.lt_iff_toNat_lt.mp hmore
      -- the page is whole, so it ends inside the flash
      have hpage : page.toNat+256 ≤ f.size := by
        obtain ⟨p, hp⟩ := haligned
        obtain ⟨s, hs⟩ := f.pages
        have hsize : f.size = 256*s := hs
        omega
      have hnext : (page+256).toNat = page.toNat+256 := by
        have haddressable := f.addressable
        rw [UInt32.toNat_add, show (256 : UInt32).toNat = 256 from rfl]
        exact Nat.mod_eq_of_lt (by omega)
      obtain ⟨g, hg, hprogrammed⟩ := programPage_ok (f := f) hdata haligned hpage
      obtain ⟨k, last, hk, hreach, hbeyond, hrest⟩ := @ih (page+256) g
        (by rw [hprogrammed.size]; exact hstop) (by rw [hnext]; exact haligned.add dvd_rfl)
        (by rw [hnext]; omega) (by rw [hnext]; omega)
      rw [hnext] at hbeyond hrest
      rw [if_pos hmore, hg, ok_bind]
      refine ⟨k, last, hk, hreach, by omega, hrest.size.trans hprogrammed.size,
        fun a hfirst hlt' => ?_, fun a houtside => ?_⟩
      · rcases Nat.lt_or_ge a (page.toNat+256) with hhere | hthere
        · rw [hrest.outside a (Or.inl hhere), hprogrammed.inside a hfirst hhere]
        · rw [hrest.inside a hthere hlt', hprogrammed.outside a (Or.inr hthere)]
      · rw [hrest.outside a (by omega), hprogrammed.outside a (by omega)]
    · rw [if_neg hmore]
      exact ⟨f, page.toNat, rfl, UInt32.le_iff_toNat_le.mp (UInt32.not_lt.mp hmore), le_rfl,
        rfl, fun a h h' => by omega, fun _ _ => rfl⟩

theorem page_toNat (flashOffset : UInt32) :
    (flashOffset &&& ~~~255).toNat = flashOffset.toNat/256*256 := by
  have hmask : (~~~255 : UInt32).toNat = (2^24-1) <<< 8 := by decide
  have hlow : flashOffset.toNat/256*256 = (flashOffset.toNat >>> 8) <<< 8 := by
    rw [Nat.shiftRight_eq_div_pow, Nat.shiftLeft_eq]
  rw [UInt32.toNat_and, hmask, hlow]
  apply Nat.eq_of_testBit_eq
  intro i
  rw [Nat.testBit_and, Nat.testBit_shiftLeft, Nat.testBit_shiftLeft, Nat.testBit_shiftRight,
    Nat.testBit_two_pow_sub_one]
  by_cases hi : i < 8
  · simp [show ¬ 8 ≤ i by omega]
  · have hback : 8+(i-8) = i := by omega
    rw [hback]
    by_cases hbig : i-8 < 24
    · simp [hbig, show 8 ≤ i by omega]
    · have hzero : flashOffset.toNat.testBit i = false :=
        Nat.testBit_lt_two_pow (flashOffset.toNat_lt.trans_le
          (Nat.pow_le_pow_right (by omega) (by omega)))
      simp [hbig, hzero]

/-- Under NOR semantics the range is combined with what is there, and nothing
else of the flash changes. The range has to lie in the flash. -/
theorem programBytes_combines (data : List UInt8) {size written : ℕ} (hsize : size ≤ data.length)
    (hwritten : written ≤ size) (hfits : flashOffset.toNat+size ≤ f.size) (fuel : ℕ)
    (hfuel : size/256+3 ≤ fuel) :
    ∃ g, programBytes fuel flashOffset data size written f = .ok g ∧ g.size = f.size ∧
      ∀ a, g.cells a = if flashOffset.toNat ≤ a ∧ a < flashOffset.toNat+written then
        f.cells a &&& data.getD (a-flashOffset.toNat) 0xFF else f.cells a := by
  have haddressable := f.addressable
  have hsum : ∀ n ≤ size, (flashOffset+UInt32.ofNat n).toNat = flashOffset.toNat+n := by
    intro n hn
    rw [UInt32.toNat_add, UInt32.toNat_ofNat_of_lt' (show n < 2^32 by omega)]
    exact Nat.mod_eq_of_lt (by omega)
  obtain ⟨turns, rfl⟩ := Nat.exists_eq_add_of_le' (show 1 ≤ fuel by omega)
  have hstart := page_toNat flashOffset
  obtain ⟨g, last, hrun, hreach, hbeyond, hprogrammed⟩ :=
    programPages_ok flashOffset (flashOffset+UInt32.ofNat written) (flashOffset+UInt32.ofNat size)
      (flashOffset &&& ~~~255) data f (by rw [hsum _ hwritten]; omega)
      (by rw [hsum _ le_rfl]; omega) (by rw [hstart]; exact Nat.dvd_mul_left _ _) turns
      (by rw [hsum _ le_rfl, hstart]; omega) (by rw [hsum _ le_rfl, hstart]; omega)
  rw [hsum _ le_rfl] at hreach
  rw [hstart] at hprogrammed hbeyond
  refine ⟨g, hrun, hprogrammed.size, fun a => ?_⟩
  have hvalue : asked flashOffset.toNat (flashOffset+UInt32.ofNat written).toNat data a =
      if flashOffset.toNat ≤ a ∧ a < flashOffset.toNat+written then
        data.getD (a-flashOffset.toNat) 0xFF else 0xFF := by
    rw [asked, hsum _ hwritten]
  by_cases hinside : flashOffset.toNat ≤ a ∧ a < flashOffset.toNat+written
  · rw [if_pos hinside] at hvalue ⊢
    rw [hprogrammed.inside a (by omega) (by omega), hvalue]
  · rw [if_neg hinside] at hvalue ⊢
    by_cases hpages : flashOffset.toNat/256*256 ≤ a ∧ a < last
    · rw [hprogrammed.inside a hpages.1 hpages.2, hvalue]
      exact UInt8.and_neg_one
    · exact hprogrammed.outside a (by omega)

/-- An erased range holds the data afterwards and no other byte of the flash
has changed. -/
theorem programBytes_exact (f : Flash) (flashOffset : UInt32) (data : List UInt8)
    (hfits : flashOffset.toNat+data.length ≤ f.size)
    (herased : ∀ a, flashOffset.toNat ≤ a → a < flashOffset.toNat+data.length →
      f.cells a = 0xFF) (fuel : ℕ) (hfuel : data.length/256+3 ≤ fuel) :
    ∃ g, programBytes fuel flashOffset data data.length data.length f = .ok g ∧
      g.size = f.size ∧ (∀ i, (h : i < data.length) → g.cells (flashOffset.toNat+i) = data[i]) ∧
      ∀ a, a < flashOffset.toNat ∨ flashOffset.toNat+data.length ≤ a →
        g.cells a = f.cells a := by
  obtain ⟨g, hrun, hsize, hcells⟩ :=
    programBytes_combines data le_rfl le_rfl hfits fuel hfuel
  refine ⟨g, hrun, hsize, fun i hi => ?_, fun a houtside => ?_⟩
  · rw [hcells, if_pos (by omega), herased _ (by omega) (by omega), Nat.add_sub_cancel_left,
      List.getD_eq_getElem?_getD, List.getElem?_eq_getElem hi, Option.getD_some]
    exact UInt8.neg_one_and
  · rw [hcells, if_neg (by omega)]

/-- A valid range of a partition lies in the flash at its offset there. -/
theorem rangeValid_fits {p : Partition f} {offset : UInt32} {size : ℕ}
    (h : rangeValid p offset size = true) :
    (p.flashOffset+offset).toNat = p.flashOffset.toNat+offset.toNat ∧
      (p.flashOffset+offset).toNat+size ≤ f.size := by
  have hinside := p.inside
  have haddressable := f.addressable
  rw [rangeValid, Bool.and_eq_true, Bool.and_eq_true, decide_eq_true_iff, decide_eq_true_iff,
    decide_eq_true_iff] at h
  obtain ⟨⟨_, hoffset⟩, hsize⟩ := h
  have hle := UInt32.le_iff_toNat_le.mp hoffset
  rw [UInt32.toNat_sub_of_le _ _ hoffset] at hsize
  have hsum : (p.flashOffset+offset).toNat = p.flashOffset.toNat+offset.toNat := by
    rw [UInt32.toNat_add]
    exact Nat.mod_eq_of_lt (by omega)
  exact ⟨hsum, by omega⟩

/-- What `jh_rp_flash_storage_program_bytes` asks for is programmed as a
whole, and nothing outside of it. -/
theorem partition_programmed {p : Partition f} {offset : UInt32}
    (h : rangeValid p offset data.length = true)
    (herased : ∀ i < data.length, f.cells (p.flashOffset.toNat+offset.toNat+i) = 0xFF) :
    ∃ g, programBytes (data.length/256+3) (p.flashOffset+offset) data data.length data.length f =
        .ok g ∧
      (∀ i, (hi : i < data.length) → g.cells (p.flashOffset.toNat+offset.toNat+i) = data[i]) ∧
      ∀ a, a < p.flashOffset.toNat+offset.toNat ∨
        p.flashOffset.toNat+offset.toNat+data.length ≤ a → g.cells a = f.cells a := by
  obtain ⟨hsum, hfits⟩ := rangeValid_fits h
  obtain ⟨g, hrun, _, hcells⟩ := programBytes_combines data le_rfl le_rfl hfits
    (data.length/256+3) le_rfl
  rw [hsum] at hcells
  refine ⟨g, hrun, fun i hi => ?_, fun a houtside => ?_⟩
  · rw [hcells, if_pos (by omega), herased i hi, Nat.add_sub_cancel_left,
      List.getD_eq_getElem?_getD, List.getElem?_eq_getElem hi, Option.getD_some]
    exact UInt8.neg_one_and
  · rw [hcells, if_neg (by omega)]

def blankFlash : Flash := ⟨1024, by decide, by decide, fun _ => 0xFF⟩

/-- Three bytes over the end of a page; the first one is a one in every bit. -/
theorem programBytes_exact_crossing :
    ∃ g, programBytes 4 254 [0xFF, 0x12, 0x34] 3 3 blankFlash = .ok g ∧ g.size = 1024 ∧
      (∀ i, (h : i < [0xFF, 0x12, (0x34 : UInt8)].length) →
        g.cells (254+i) = [0xFF, 0x12, 0x34][i]) ∧
      ∀ a, a < 254 ∨ 257 ≤ a → g.cells a = 0xFF :=
  programBytes_exact blankFlash 254 [0xFF, 0x12, 0x34] (by decide) (fun _ _ _ => rfl) 4 (by decide)

end JaszczurHal.RpFlashStorage
