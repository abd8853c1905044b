import Mathlib.Data.List.GetD
import JaszczurHal.OtaWriter
import JaszczurHal.OtaLaunch

/-!
# What the writer leaves in the staging slot

Every operation of the writer is watched: which flash it found and which it
left. Consuming the payload in pieces of any size stores it page by page; the
slot below the open page holds exactly what was consumed.
-/

set_option autoImplicit false

namespace JaszczurHal.OtaStaging
open HalStatus CrashRun OtaImage OtaFlash OtaSwap ByteImage OtaWriter
open OtaBoot (selected)

abbrev Changes := List (RpFlash × RpFlash)

def Settled (f : RpFlash) : Prop := ∀ s i, selected f = some (s, i) → s.mode = .stable

def Fine (cs : Changes) : Prop := ∀ c ∈ cs, c.2.staging ≠ c.1.staging → Settled c.1

def Seen (P : RpFlash → Changes → Prop) (x : Watched) : Prop := P x.device.flash x.changes

def From {β : Type} (g : RpFlash) (m : Step RpDevice β) (Q : β → RpFlash → Prop)
    (C : RpFlash → Prop) : Prop :=
  Holds (On true true fun f => f = g) m (fun r => On true true (Q r)) (Cut true true C)

variable {β : Type} {P : RpFlash → Changes → Prop}

theorem on_all (d : RpDevice) {K : RpFlash → Prop} (h : K d.flash) : On true true K d :=
  on_any d.flash d.script h

theorem watch_holds {m : Step RpDevice β} {Q : β → RpFlash → Changes → Prop}
    {C : RpFlash → Changes → Prop}
    (h : ∀ g cs, P g cs → From g m (fun r f => Q r f (cs ++ [(g, f)]))
      fun f => C f (cs ++ [(g, f)])) :
    Holds (Seen P) (watch m) (fun r => Seen (Q r)) (Seen C) := by
  rintro ⟨d, cs⟩ hx
  have hm := h d.flash cs hx d (on_all d rfl)
  simp only [watch]
  rcases hr : m d with ⟨_ | r, d'⟩
  · simp only [hr] at hm
    exact hm.2.1
  · simp only [hr] at hm
    exact hm.1

theorem fine_append {cs : Changes} {g f : RpFlash} (h : Fine cs)
    (hc : f.staging = g.staging ∨ Settled g) : Fine (cs ++ [(g, f)]) := by
  intro c hmem hne
  rcases List.mem_append.mp hmem with hmem | hmem
  · exact h c hmem hne
  · obtain rfl := List.mem_singleton.mp hmem
    exact hc.resolve_left hne

theorem settled_congr {f g : RpFlash} (h : f.record = g.record) (hg : Settled g) : Settled f := by
  intro s i hs
  rw [selected, h] at hs
  exact hg s i hs

variable {b : Build} {g : RpFlash}

theorem staging_put_ne {f : RpFlash} {s : ℕ} {x : Image} {a : ℕ} (h : a/FLASH_SECTOR_SIZE ≠ s) :
    stagingByte (f.put .staging s x) a = stagingByte f a := by
  rw [stagingByte, put_staging_ne f x h, stagingByte]

theorem staging_put_eq {f : RpFlash} {s : ℕ} {x : Image} {a : ℕ} (h : a/FLASH_SECTOR_SIZE = s) :
    stagingByte (f.put .staging s x) a = x (a%FLASH_SECTOR_SIZE) := by
  rw [stagingByte, h]
  simp [Flash.put]

def Above (offset : ℕ) (g f : RpFlash) : Prop :=
  f.record = g.record ∧ ∀ a < offset, stagingByte f a = stagingByte g a

theorem above_refl (offset : ℕ) : Above offset g g := ⟨rfl, fun _ _ => rfl⟩

theorem above_sector {offset : ℕ} (h : offset%FLASH_SECTOR_SIZE = 0) (x : Image) :
    Above offset g (g.put .staging (offset/FLASH_SECTOR_SIZE) x) := by
  refine ⟨put_record _ _ _ _, fun a ha => staging_put_ne ?_⟩
  simp only [FLASH_SECTOR_SIZE] at h ⊢
  omega

theorem above_overlay {offset size : ℕ} (change : ℕ → UInt8) :
    Above offset g (g.put .staging (offset/FLASH_SECTOR_SIZE)
      (overlay (g.staging (offset/FLASH_SECTOR_SIZE)) (offset%FLASH_SECTOR_SIZE) size change)) := by
  refine ⟨put_record _ _ _ _, fun a ha => ?_⟩
  by_cases hs : a/FLASH_SECTOR_SIZE = offset/FLASH_SECTOR_SIZE
  · have hlt : a%FLASH_SECTOR_SIZE < offset%FLASH_SECTOR_SIZE := by
      simp only [FLASH_SECTOR_SIZE] at hs ⊢
      omega
    rw [staging_put_eq hs, overlay, if_neg (by omega), stagingByte, hs]
  · exact staging_put_ne hs

theorem eraseStaging_from {offset : ℕ} (h : offset%FLASH_SECTOR_SIZE = 0) :
    From g (eraseStaging b offset) (fun r f => Above offset g f ∧ r ≠ .einternal)
      (Above offset g) := by
  refine holds_ite (fun _ => ?_) (fun _ => ?_)
  · have hleave : ∀ f, f = g → ∀ damage : Damage Image, Above offset g (damage.leave
        (fun f => f.put .staging (offset/FLASH_SECTOR_SIZE) fun _ => kErased)
        (fun x _ f => f.put .staging (offset/FLASH_SECTOR_SIZE) x) f) := by
      rintro f rfl damage
      cases damage with
      | before => exact above_refl offset
      | after => exact above_sector h _
      | torn x j => exact above_sector h x
    apply callback_holds
    · rintro f rfl
      exact ⟨above_sector h _, by simp⟩
    · intro _ f hf damage
      exact ⟨hleave f hf damage, by simp⟩
    · intro _ f hf damage
      exact hleave f hf damage
  · refine holds_pure _ fun d hd => on_mono hd fun f hf => ⟨?_, by simp⟩
    rw [hf]
    exact above_refl offset

/-- A page that was programmed and read back holds its data. -/
theorem programStaging_from {offset : ℕ} (data : List UInt8)
    (hplace : offset%FLASH_SECTOR_SIZE+data.length ≤ FLASH_SECTOR_SIZE) :
    From g (programStaging b offset data)
      (fun r f => Above offset g f ∧ r ≠ .einternal ∧
        (r = .ok → ∀ i < data.length, stagingByte f (offset+i) = data.getD i 0))
      (Above offset g) := by
  refine holds_ite (fun _ => ?_) (fun _ => ?_)
  · have hleave : ∀ f, f = g → ∀ damage : Damage Image, Above offset g (damage.leave
        (fun f => f.put .staging (offset/FLASH_SECTOR_SIZE) (programmed
          (f.staging (offset/FLASH_SECTOR_SIZE)) (offset%FLASH_SECTOR_SIZE) data))
        (fun x _ f => f.put .staging (offset/FLASH_SECTOR_SIZE) (overlay
          (f.staging (offset/FLASH_SECTOR_SIZE)) (offset%FLASH_SECTOR_SIZE) data.length x)) f) := by
      rintro f rfl damage
      cases damage with
      | before => exact above_refl offset
      | after => exact above_overlay _
      | torn x j => exact above_overlay x
    apply callback_holds
    · rintro f rfl
      refine ⟨above_overlay _, by split <;> simp, fun hr i hi => ?_⟩
      split at hr
      · rename_i hread
        have hsector : (offset+i)/FLASH_SECTOR_SIZE = offset/FLASH_SECTOR_SIZE := by
          simp only [FLASH_SECTOR_SIZE] at hplace ⊢
          omega
        have hmod : (offset+i)%FLASH_SECTOR_SIZE = offset%FLASH_SECTOR_SIZE+i := by
          simp only [FLASH_SECTOR_SIZE] at hplace ⊢
          omega
        rw [stagingByte, hsector, hmod]
        exact slice_eq_iff.mp hread i hi
      · cases hr
    · intro _ f hf damage
      exact ⟨hleave f hf damage, by simp, by simp⟩
    · intro _ f hf damage
      exact hleave f hf damage
  · refine holds_pure _ fun d hd => on_mono hd fun f hf => ⟨?_, by simp, by simp⟩
    rw [hf]
    exact above_refl offset

def Still (record : Bool → Option (BootState (List UInt8))) (f : RpFlash) (cs : Changes) : Prop :=
  f.record = record ∧ Settled f ∧ Fine cs

structure Stored (f : RpFlash) (w : Writer) (done : List UInt8) : Prop where
  received : w.payloadReceived = done.length+w.page.length
  hashed : w.sha256 = JhSha256.update JhSha256.init (done ++ w.page)
  aligned : done.length%FLASH_PAGE_SIZE = 0
  written : ∀ i < done.length, stagingByte f i = done.getD i 0

variable {record : Bool → Option (BootState (List UInt8))}

theorem stored_above {f : RpFlash} {w : Writer} {done : List UInt8} (h : Stored g w done)
    (hf : Above done.length g f) : Stored f w done :=
  ⟨h.received, h.hashed, h.aligned, fun i hi => (hf.2 i hi).trans (h.written i hi)⟩

theorem still_above {f : RpFlash} {cs : Changes} {offset : ℕ} (h : Still record g cs)
    (hf : Above offset g f) : Still record f (cs ++ [(g, f)]) :=
  ⟨hf.1.trans h.1, settled_congr hf.1 h.2.1, fine_append h.2.2 (Or.inr h.2.1)⟩

theorem pageBytes_length {w : Writer} (h : w.page.length ≤ FLASH_PAGE_SIZE) :
    (pageBytes w).length = FLASH_PAGE_SIZE := by
  rw [pageBytes, List.length_append, List.length_replicate]
  omega

/-- `good` says that the slot has kept up with the payload so far. -/
theorem flushPage_holds (good : Prop) (w : Writer) (done : List UInt8)
    (hshort : w.page.length ≤ FLASH_PAGE_SIZE) :
    Holds (Seen fun f cs => Still record f cs ∧ (good → Stored f w done)) (flushPage b w)
      (fun r => Seen fun f cs => Still record f cs ∧ r.1 ≠ .einternal ∧
        (r.1 = .ok → r.2 = { w with page := [] } ∧ (good →
          ∀ i < (done ++ w.page).length, stagingByte f i = (done ++ w.page).getD i 0)) ∧
        (r.1 ≠ .ok → r.2 = w ∧ (good → Stored f w done)))
      (Seen fun f cs => Still record f cs) := by
  rw [flushPage]
  by_cases hnil : w.page = []
  · rw [if_pos hnil]
    refine holds_pure _ fun x hx => ⟨hx.1, by simp, fun _ => ⟨by rw [← hnil], fun hg => ?_⟩,
      by simp⟩
    rw [hnil, List.append_nil]
    exact (hx.2 hg).written
  rw [if_neg hnil]
  dsimp only
  generalize hpage : w.payloadReceived-w.page.length-
    (w.payloadReceived-w.page.length)%FLASH_PAGE_SIZE = pageOffset
  have hoffset : pageOffset%FLASH_PAGE_SIZE = 0 := by
    simp only [FLASH_PAGE_SIZE] at hpage ⊢
    omega
  have hdone : ∀ f, Stored f w done → pageOffset = done.length := by
    intro f hf
    have hr := hf.received
    have ha := hf.aligned
    simp only [FLASH_PAGE_SIZE] at hpage ha
    omega
  have hstored : ∀ f f', Stored f w done → Above pageOffset f f' → Stored f' w done := by
    intro f f' hf hff
    rw [hdone f hf] at hff
    exact stored_above hf hff
  have herase : Holds (Seen fun f cs => Still record f cs ∧ (good → Stored f w done))
      (openSector b pageOffset)
      (fun r => Seen fun f cs => Still record f cs ∧ r ≠ .einternal ∧ (good → Stored f w done))
      (Seen fun f cs => Still record f cs) := by
    refine holds_ite (fun hs => ?_) (fun _ => ?_)
    · refine watch_holds fun g cs hg => holds_conseq (eraseStaging_from hs) (fun _ => id)
        (fun r d hd => on_mono hd fun f hf => ?_) fun d hd => cut_mono hd fun f hf => ?_
      · exact ⟨still_above hg.1 hf.1, hf.2, fun h => hstored g f (hg.2 h) hf.1⟩
      · exact still_above hg.1 hf
    · exact holds_pure _ fun x hx => ⟨hx.1, by simp, hx.2⟩
  refine holds_bind herase fun erased => ?_
  refine holds_ite (fun hne => ?_) (fun _ => ?_)
  · exact holds_pure _ fun x hx => ⟨hx.1, hx.2.1, fun h => absurd h hne, fun _ => ⟨rfl, hx.2.2⟩⟩
  have hlen := pageBytes_length hshort
  have hplace : pageOffset%FLASH_SECTOR_SIZE+(pageBytes w).length ≤ FLASH_SECTOR_SIZE := by
    rw [hlen]
    simp only [FLASH_PAGE_SIZE, FLASH_SECTOR_SIZE] at hoffset ⊢
    omega
  have hprogram : Holds
      (Seen fun f cs => Still record f cs ∧ erased ≠ .einternal ∧ (good → Stored f w done))
      (watch (programStaging b pageOffset (pageBytes w)))
      (fun r => Seen fun f cs => Still record f cs ∧ r ≠ .einternal ∧ (good → Stored f w done) ∧
        (r = .ok → ∀ i < (pageBytes w).length,
          stagingByte f (pageOffset+i) = (pageBytes w).getD i 0))
      (Seen fun f cs => Still record f cs) := by
    refine watch_holds fun g cs hg => holds_conseq (programStaging_from _ hplace) (fun _ => id)
      (fun r d hd => on_mono hd fun f hf => ?_) fun d hd => cut_mono hd fun f hf => ?_
    · exact ⟨still_above hg.1 hf.1, hf.2.1, fun h => hstored g f (hg.2.2 h) hf.1, hf.2.2⟩
    · exact still_above hg.1 hf
  refine holds_bind hprogram fun status => ?_
  refine holds_ite (fun hne => ?_) (fun hok => ?_)
  · exact holds_pure _ fun x hx => ⟨hx.1, hx.2.1, fun h => absurd h hne,
      fun _ => ⟨rfl, hx.2.2.1⟩⟩
  refine holds_pure _ fun x hx => ⟨hx.1, by simp, fun _ => ⟨rfl, fun hg i hi => ?_⟩, by simp⟩
  have hf := hx.2.2.1 hg
  by_cases hlt : i < done.length
  · rw [hf.written i hlt, List.getD_append _ _ _ _ hlt]
  · have hread := hx.2.2.2 (not_not.mp hok) (i-done.length)
    rw [List.length_append] at hi
    rw [hdone _ hf, Nat.add_sub_cancel' (by omega)] at hread
    rw [hread (by omega), List.getD_append_right _ _ _ _ (by omega), pageBytes,
      List.getD_append _ _ _ _ (by omega)]

structure Advanced (w w' : Writer) (size : ℕ) : Prop where
  frame : w' = { w with
    page := w'.page, payloadReceived := w'.payloadReceived, sha256 := w'.sha256 }
  atLeast : w.payloadReceived ≤ w'.payloadReceived
  atMost : w'.payloadReceived ≤ w.payloadReceived+size
  short : w'.page.length ≤ FLASH_PAGE_SIZE

theorem advanced_trans {w w' w'' : Writer} {m n : ℕ} (h : Advanced w w' m)
    (h' : Advanced w' w'' n) : Advanced w w'' (m+n) := by
  refine ⟨?_, h.atLeast.trans h'.atLeast, ?_, h'.short⟩
  · rw [h'.frame, h.frame]
  · have := h.atMost
    have := h'.atMost
    omega

theorem absorbed_initialized (bytes : List UInt8) :
    (JhSha256.update JhSha256.init bytes).initialized = true :=
  JhSha256.update_initialized _ _ (by decide)

/-- All of a payload consumed so far, with an open page that is not full. -/
def Kept (f : RpFlash) (w : Writer) (payload : List UInt8) : Prop :=
  ∃ done, Stored f w done ∧ w.page.length < FLASH_PAGE_SIZE ∧ payload = done ++ w.page

def buffered (w : Writer) (data : List UInt8) (chunk : ℕ) : Writer :=
  { w with
    sha256 := JhSha256.update w.sha256 (data.take chunk)
    page := w.page ++ data.take chunk
    payloadReceived := w.payloadReceived+chunk }

theorem buffered_stored {f : RpFlash} {w : Writer} {done data : List UInt8} {chunk : ℕ}
    (h : Stored f w done) (hc : chunk ≤ data.length) : Stored f (buffered w data chunk) done := by
  refine ⟨?_, ?_, h.aligned, h.written⟩
  · simp only [buffered, List.length_append, List.length_take, Nat.min_eq_left hc, h.received]
    omega
  · simp only [buffered]
    rw [h.hashed, JhSha256.update_absorbed, List.append_assoc]

/-- A page that is full when it is flushed leaves an empty one. -/
theorem flushed_stored {f g : RpFlash} {w : Writer} {done : List UInt8} (h : Stored g w done)
    (hfull : w.page.length = FLASH_PAGE_SIZE)
    (hw : ∀ i < (done ++ w.page).length, stagingByte f i = (done ++ w.page).getD i 0) :
    Stored f { w with page := [] } (done ++ w.page) := by
  refine ⟨?_, ?_, ?_, hw⟩
  · simp [h.received]
  · rw [h.hashed, List.append_nil]
  · have := h.aligned
    rw [List.length_append, hfull]
    simp only [FLASH_PAGE_SIZE] at this ⊢
    omega

theorem consumePayload_succ (fuel : ℕ) (w : Writer) {data : List UInt8} (h : data ≠ []) :
    consumePayload b (fuel+1) w data =
      let chunk := min data.length (FLASH_PAGE_SIZE-w.page.length)
      if !w.sha256.initialized then pure (.einval, w)
      else if (buffered w data chunk).page.length = FLASH_PAGE_SIZE then do
        let (status, w) ← flushPage b (buffered w data chunk)
        if status ≠ .ok then pure (status, w) else consumePayload b fuel w (data.drop chunk)
      else consumePayload b fuel (buffered w data chunk) (data.drop chunk) := by
  cases data with
  | nil => exact absurd rfl h
  | cons x data => rfl

structure Consumed (good : Prop) (w : Writer) (payload data : List UInt8) (status : Status)
    (w' : Writer) (f : RpFlash) : Prop where
  advanced : Advanced w w' data.length
  fuelled : status ≠ .einternal
  whole : status = .ok → w'.payloadReceived = w.payloadReceived+data.length ∧
    (good → Kept f w' (payload ++ data))
  partly : status ≠ .ok → good → data ≠ [] → w.payloadReceived < w'.payloadReceived

theorem buffered_advanced {w : Writer} (data : List UInt8)
    (hshort : w.page.length ≤ FLASH_PAGE_SIZE) :
    Advanced w (buffered w data (min data.length (FLASH_PAGE_SIZE-w.page.length)))
      (min data.length (FLASH_PAGE_SIZE-w.page.length)) := by
  refine ⟨rfl, Nat.le_add_right _ _, le_rfl, ?_⟩
  simp only [buffered, List.length_append, List.length_take]
  omega

theorem emptied_advanced {w : Writer} : Advanced w { w with page := [] } 0 :=
  ⟨rfl, le_rfl, le_rfl, Nat.zero_le _⟩

/-- The rest of the data after one turn of the loop. -/
theorem consumed_step {good : Prop} {w w₁ w' : Writer} {payload data : List UInt8} {chunk : ℕ}
    {status : Status} {f : RpFlash} (hchunk : chunk ≤ data.length)
    (hstep : Advanced w w₁ chunk) (hcount : w₁.payloadReceived = w.payloadReceived+chunk)
    (hpos : good → 0 < chunk)
    (h : Consumed good w₁ (payload ++ data.take chunk) (data.drop chunk) status w' f) :
    Consumed good w payload data status w' f := by
  have hlen : chunk+(data.drop chunk).length = data.length := by
    rw [List.length_drop]
    omega
  refine ⟨?_, h.fuelled, fun hok => ?_, fun _ hg _ => ?_⟩
  · have hboth := advanced_trans hstep h.advanced
    rwa [hlen] at hboth
  · obtain ⟨hreceived, hkept⟩ := h.whole hok
    refine ⟨by omega, fun hg => ?_⟩
    have hall := hkept hg
    rwa [List.append_assoc, List.take_append_drop] at hall
  · have := h.advanced.atLeast
    have := hpos hg
    omega

theorem consumePayload_holds (good : Prop) (fuel : ℕ) (w : Writer) (data payload : List UInt8)
    (hfuel : data.length+(if w.page.length = FLASH_PAGE_SIZE then 1 else 0) ≤ fuel)
    (hshort : w.page.length ≤ FLASH_PAGE_SIZE) :
    Holds (Seen fun f cs => Still record f cs ∧ (good → Kept f w payload))
      (consumePayload b fuel w data)
      (fun r => Seen fun f cs => Still record f cs ∧ Consumed good w payload data r.1 r.2 f)
      (Seen fun f cs => Still record f cs) := by
  induction fuel generalizing w data payload with
  | zero =>
    have hnil : data = [] := List.length_eq_zero_iff.mp (by omega)
    subst hnil
    rw [consumePayload]
    refine holds_pure _ fun x hx => ⟨hx.1, ⟨rfl, le_rfl, le_rfl, hshort⟩, by simp,
      fun _ => ⟨rfl, fun hg => ?_⟩, by simp⟩
    rw [List.append_nil]
    exact hx.2 hg
  | succ fuel ih =>
    by_cases hnil : data = []
    · subst hnil
      rw [consumePayload]
      refine holds_pure _ fun x hx => ⟨hx.1, ⟨rfl, le_rfl, le_rfl, hshort⟩, by simp,
        fun _ => ⟨rfl, fun hg => ?_⟩, by simp⟩
      rw [List.append_nil]
      exact hx.2 hg
    rw [consumePayload_succ fuel w hnil]
    have hadvanced := buffered_advanced data hshort
    dsimp only
    generalize hchunk : min data.length (FLASH_PAGE_SIZE-w.page.length) = chunk at hadvanced ⊢
    have hdata : 0 < data.length := List.length_pos_iff.mpr hnil
    have hle : chunk ≤ data.length := by omega
    have hpage : (buffered w data chunk).page.length = w.page.length+chunk := by
      simp only [buffered, List.length_append, List.length_take, Nat.min_eq_left hle]
    have hpos : ∀ f, Kept f w payload → 0 < chunk := by
      rintro f ⟨done, _, hlt, _⟩
      omega
    refine holds_ite (fun hinit => ?_) (fun _ => ?_)
    · refine holds_pure _ fun x hx => ⟨hx.1, ⟨rfl, le_rfl, Nat.le_add_right _ _, hshort⟩, by simp,
        by simp, fun _ hg _ => ?_⟩
      obtain ⟨done, hs, _⟩ := hx.2 hg
      rw [hs.hashed, absorbed_initialized] at hinit
      cases hinit
    refine holds_ite (fun hfull => ?_) (fun hopen => ?_)
    · intro x hx
      obtain ⟨done, hdone⟩ : ∃ done, good → Stored x.device.flash w done ∧
          payload = done ++ w.page := by
        by_cases hg : good
        · obtain ⟨done, hs, _, hp⟩ := hx.2 hg
          exact ⟨done, fun _ => ⟨hs, hp⟩⟩
        · exact ⟨[], fun h => absurd h hg⟩
      have hfill : 0 < chunk ∨ w.page.length = FLASH_PAGE_SIZE := by omega
      have hpos' : good → 0 < chunk := fun hg => hpos _ (hx.2 hg)
      refine holds_bind (flushPage_holds good (buffered w data chunk) done hfull.le)
        (fun r => ?_) x ⟨hx.1, fun hg => buffered_stored (hdone hg).1 hle⟩
      obtain ⟨status, w₁⟩ := r
      refine holds_ite (fun hne => ?_) (fun hok => ?_)
      · refine holds_pure _ fun y hy => ⟨hy.1, ?_⟩
        obtain ⟨rfl, _⟩ := hy.2.2.2 hne
        refine ⟨⟨hadvanced.frame, hadvanced.atLeast, ?_, hfull.le⟩, hy.2.1, ?_, ?_⟩
        · exact hadvanced.atMost.trans (by omega)
        · exact fun h => absurd h hne
        · intro _ hg _
          have := hpos' hg
          exact Nat.lt_add_of_pos_right this
      · have hok := not_not.mp hok
        refine holds_known (fun y hy => (hy.2.2.1 hok).1) fun hw => ?_
        subst hw
        have hempty : Advanced w { buffered w data chunk with page := [] } chunk :=
          advanced_trans hadvanced emptied_advanced
        refine holds_conseq (ih { buffered w data chunk with page := [] } (data.drop chunk)
          (payload ++ data.take chunk) ?_ (Nat.zero_le _)) (fun y hy => ⟨hy.1, fun hg => ?_⟩)
          (fun r y hy => ⟨hy.1, consumed_step hle hempty rfl hpos' hy.2⟩) fun y hy => hy
        · rw [if_neg (by simp [FLASH_PAGE_SIZE]), List.length_drop]
          rcases hfill with hfill | hfill
          · omega
          · rw [if_pos hfill] at hfuel
            omega
        · obtain ⟨hs, hp⟩ := hdone hg
          have hwritten := (hy.2.2.1 hok).2 hg
          refine ⟨_, flushed_stored (buffered_stored hs hle) hfull hwritten,
            (by decide : 0 < FLASH_PAGE_SIZE), ?_⟩
          simp only [buffered, List.append_nil, hp, List.append_assoc]
    · have hall : chunk = data.length := by omega
      have hbuffered : ∀ f, Kept f w payload →
          Kept f (buffered w data chunk) (payload ++ data.take chunk) := by
        rintro f ⟨done, hs, hlt, rfl⟩
        refine ⟨done, buffered_stored hs hle, by omega, ?_⟩
        simp only [buffered, List.append_assoc]
      refine holds_conseq (ih (buffered w data chunk) (data.drop chunk)
        (payload ++ data.take chunk) ?_ hadvanced.short)
        (fun x hx => ⟨hx.1, fun hg => hbuffered _ (hx.2 hg)⟩)
        (fun r x hx => ⟨hx.1, ?_⟩) fun x hx => hx
      · rw [if_neg hopen, List.length_drop]
        omega
      · exact consumed_step hle hadvanced rfl (fun _ => by omega) hx.2

end JaszczurHal.OtaStaging
