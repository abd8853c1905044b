import JaszczurHal.EepromProvider

/-!
# Coherence of the EEPROM mirror

A ledger of what happened to each byte since the mirror last followed the
medium there: written through the byte interface and not committed, torn by a
commit that failed, or written in vain and not read back. Elsewhere the mirror
is the medium.
-/

set_option autoImplicit false

namespace JaszczurHal.EepromCoherence
open JaszczurHal.HalStatus JaszczurHal.ByteImage JaszczurHal.EepromProvider

structure Ledger where
  pending : ℕ → Bool
  torn : ℕ → Bool
  unread : ℕ → Bool

def Ledger.clear : Ledger := ⟨fun _ => false, fun _ => false, fun _ => false⟩

def markRange (marks : ℕ → Bool) (addr len : ℕ) (mark : Bool) : ℕ → Bool := fun i =>
  if addr ≤ i ∧ i < addr+len then mark else marks i

def Ledger.setRange (l : Ledger) (addr len : ℕ) (pending torn unread : Bool) : Ledger :=
  ⟨markRange l.pending addr len pending, markRange l.torn addr len torn,
    markRange l.unread addr len unread⟩

def Ledger.note (l : Ledger) : Event → Ledger
  | .loaded => .clear
  | .wrote addr len => { l with pending := markRange l.pending addr len true }
  | .stored status => if status = .ok then .clear else { l with torn := fun _ => true }
  | .programmed addr len status | .replaced addr len _ status | .erased addr len status =>
    if status = .ok then l.setRange addr len false false false else l
  | .readBack addr len status => l.setRange addr len false false (status ≠ .ok)
  | .read _ | .reported _ _ _ | .returned _ => l

def ledger (events : List Event) : Ledger := events.foldl Ledger.note .clear

structure Coherent (s : State) (l : Ledger) : Prop where
  mirrored : ∀ i < s.storageSize, l.pending i = false → l.torn i = false →
    l.unread i = false → s.mirror i = s.medium i
  erased : ∀ i < s.storageSize, l.pending i = false → s.mirror i = 0xFF → s.medium i = 0xFF
  zeroed : ∀ i < s.storageSize, l.pending i = false → l.unread i = true → s.mirror i = 0

def MirrorInv (s : State) (l : Ledger) : Prop :=
  s.ready = true → s.activeSize ≤ s.storageSize ∧ Coherent s l

section Ranges

variable {s : State} {l : Ledger} {addr len i : ℕ}

theorem markRange_in (marks : ℕ → Bool) (mark : Bool) (h : addr ≤ i ∧ i < addr+len) :
    markRange marks addr len mark i = mark := if_pos h

theorem markRange_out (marks : ℕ → Bool) (mark : Bool) (h : ¬ (addr ≤ i ∧ i < addr+len)) :
    markRange marks addr len mark i = marks i := if_neg h

theorem settle_out {medium target : Image} (h : ¬ (addr ≤ i ∧ i < addr+len)) (o : Outcome) :
    settle medium target addr len o i = medium i := by
  cases o with
  | done => exact if_neg h
  | failed status refused left => exact if_neg fun hin => h hin.1

/-- A write keeps erased what was erased and was to stay so. -/
theorem settle_erased {medium target : Image} (hmedium : medium i = 0xFF)
    (htarget : target i = 0xFF) (o : Outcome) :
    settle medium target addr len o i = 0xFF := by
  cases o with
  | done =>
    simp only [settle]
    split
    · exact htarget
    · exact hmedium
  | failed status refused left =>
    simp only [settle]
    rw [if_neg fun hin => hin.2 ⟨hmedium, htarget⟩]
    exact hmedium

theorem settle_done {medium target : Image} {o : Outcome} (ho : o.status = .ok)
    (h : addr ≤ i ∧ i < addr+len) : settle medium target addr len o i = target i := by
  cases o with
  | done => exact if_pos h
  | failed status refused left => exact absurd ho refused

theorem mirrorErased_iff : mirrorErased s addr len = true ↔
    ∀ i, addr ≤ i → i < addr+len → s.mirror i = 0xFF := by
  rw [mirrorErased, List.all_eq_true]
  constructor
  · intro h i hle hlt
    have hi := h (i-addr) (List.mem_range.mpr (by omega))
    rw [Nat.add_sub_cancel' hle] at hi
    exact of_decide_eq_true hi
  · intro h index hindex
    have hlt := List.mem_range.mp hindex
    exact decide_eq_true (h (addr+index) (by omega) (by omega))

end Ranges

section Steps

variable {b : Backend} {s : State} {l : Ledger} {addr len : ℕ}

/-- A region whose mirror follows the medium again, or is zero because the
medium could not be read. -/
theorem Coherent.rewritten (h : Coherent s l) (unread : Bool) {medium mirror : Image}
    (houtMedium : ∀ i, ¬ (addr ≤ i ∧ i < addr+len) → medium i = s.medium i)
    (houtMirror : ∀ i, ¬ (addr ≤ i ∧ i < addr+len) → mirror i = s.mirror i)
    (hin : ∀ i, addr ≤ i ∧ i < addr+len → mirror i = if unread then 0 else medium i) :
    Coherent { s with medium := medium, mirror := mirror }
      (l.setRange addr len false false unread) where
  mirrored i hi hpending htorn hunread := by
    by_cases hr : addr ≤ i ∧ i < addr+len
    · simp only [Ledger.setRange, markRange_in _ _ hr] at hunread
      show mirror i = medium i
      rw [hin i hr, hunread]
      rfl
    · simp only [Ledger.setRange, markRange_out _ _ hr] at hpending htorn hunread
      show mirror i = medium i
      rw [houtMedium i hr, houtMirror i hr]
      exact h.mirrored i hi hpending htorn hunread
  erased i hi hpending hmirror := by
    change mirror i = 0xFF at hmirror
    show medium i = 0xFF
    by_cases hr : addr ≤ i ∧ i < addr+len
    · rw [hin i hr] at hmirror
      cases unread with
      | false => exact hmirror
      | true => cases hmirror
    · simp only [Ledger.setRange, markRange_out _ _ hr] at hpending
      rw [houtMirror i hr] at hmirror
      rw [houtMedium i hr]
      exact h.erased i hi hpending hmirror
  zeroed i hi hpending hunread := by
    show mirror i = 0
    by_cases hr : addr ≤ i ∧ i < addr+len
    · simp only [Ledger.setRange, markRange_in _ _ hr] at hunread
      rw [hin i hr, hunread]
      rfl
    · simp only [Ledger.setRange, markRange_out _ _ hr] at hpending hunread
      rw [houtMirror i hr]
      exact h.zeroed i hi hpending hunread

/-- A direct write that succeeded, with the mirror updated to match. -/
theorem Coherent.wrote (h : Coherent s l) {target : Image} {o : Outcome}
    (ho : o.status = .ok) {medium : Image}
    (hmedium : ∀ i, ¬ (addr ≤ i ∧ i < addr+len) → medium i = s.medium i) {data : List UInt8}
    (hlen : data.length = len)
    (htarget : ∀ i, addr ≤ i ∧ i < addr+len → target i = data.getD (i-addr) 0) :
    Coherent (setMirror { s with medium := settle medium target addr len o } addr data)
      (l.setRange addr len false false false) := by
  subst hlen
  apply h.rewritten false
  · intro i hr
    exact (settle_out hr o).trans (hmedium i hr)
  · intro i hr
    exact if_neg hr
  · intro i hr
    have hsettled : settle medium target addr data.length o i = data.getD (i-addr) 0 :=
      (settle_done ho hr).trans (htarget i hr)
    exact (if_pos hr).trans hsettled.symm

/-- A direct write that failed, with the mirror read back. -/
theorem Coherent.resynced (h : Coherent s l) {medium : Image}
    (hmedium : ∀ i, ¬ (addr ≤ i ∧ i < addr+len) → medium i = s.medium i) (readBack : Status) :
    Coherent (resyncMirror { s with medium := medium } addr len readBack).1
      (l.setRange addr len false false (readBack ≠ .ok)) := by
  apply h.rewritten (readBack ≠ .ok) hmedium
  · intro i hr
    exact if_neg hr
  · intro i hr
    rw [if_pos hr]
    by_cases hread : readBack = .ok
    · simp [hread]
    · simp [hread]

theorem Coherent.written (h : Coherent s l) (data : List UInt8) :
    Coherent (setMirror s addr data)
      { l with pending := markRange l.pending addr data.length true } where
  mirrored i hi hpending htorn hunread := by
    by_cases hr : addr ≤ i ∧ i < addr+data.length
    · simp [markRange_in _ _ hr] at hpending
    · simp only [markRange_out _ _ hr] at hpending
      exact (if_neg hr).trans (h.mirrored i hi hpending htorn hunread)
  erased i hi hpending hmirror := by
    by_cases hr : addr ≤ i ∧ i < addr+data.length
    · simp [markRange_in _ _ hr] at hpending
    · simp only [markRange_out _ _ hr] at hpending
      exact h.erased i hi hpending ((if_neg hr).symm.trans hmirror)
  zeroed i hi hpending hunread := by
    by_cases hr : addr ≤ i ∧ i < addr+data.length
    · simp [markRange_in _ _ hr] at hpending
    · simp only [markRange_out _ _ hr] at hpending
      exact (if_neg hr).trans (h.zeroed i hi hpending hunread)

theorem Coherent.tore (h : Coherent s l) (o : Outcome) :
    Coherent { s with medium := settle s.medium s.mirror 0 s.storageSize o }
      { l with torn := fun _ => true } where
  mirrored _ _ _ htorn := by cases htorn
  erased i hi hpending hmirror := settle_erased (h.erased i hi hpending hmirror) hmirror o
  zeroed := h.zeroed

theorem coherent_clear (h : ∀ i < s.storageSize, s.mirror i = s.medium i) :
    Coherent s .clear where
  mirrored i hi _ _ _ := h i hi
  erased i hi _ hmirror := (h i hi).symm.trans hmirror
  zeroed _ _ _ hunread := by cases hunread

def Kept (l : Ledger) (result : Status × State × List Event) : Prop :=
  MirrorInv result.2.1 (result.2.2.foldl Ledger.note l)

theorem kept_write (h : MirrorInv s l) (addr : ℕ) (data : List UInt8) :
    Kept l (writeBytes s addr data) := by
  rw [writeBytes]
  split
  · exact h
  · split
    · intro hready
      obtain ⟨hsize, hcoherent⟩ := h hready
      have hwritten : Coherent (setMirror s addr data) _ := hcoherent.written data
      exact ⟨hsize, hwritten.mirrored, hwritten.erased, hwritten.zeroed⟩
    · exact h

theorem kept_commit (h : MirrorInv s l) (env : Env) : Kept l (commit s env) := by
  rw [commit]
  split
  · exact h
  · split
    · exact h
    · split
      · exact h
      · by_cases hok : env.first.status = .ok
        · simp only [Kept, hok, if_true, List.foldl_cons, List.foldl_nil, Ledger.note]
          intro hready
          refine ⟨(h hready).1, coherent_clear fun i hi => ?_⟩
          exact (settle_done hok ⟨Nat.zero_le _, by simpa using hi⟩).symm
        · simp only [Kept, hok, if_false, List.foldl_cons, List.foldl_nil, Ledger.note]
          intro hready
          exact ⟨(h hready).1, (h hready).2.tore env.first⟩

theorem write_in {m : Image} {data : List UInt8} {i : ℕ}
    (h : addr ≤ i ∧ i < addr+data.length) : write m addr data i = data.getD (i-addr) 0 :=
  if_pos h

theorem kept_append (h : MirrorInv s l) (addr : ℕ) (data : List UInt8) (env : Env) :
    Kept l (append s addr data env) := by
  rw [append]
  split
  · exact h
  · split
    · exact h
    · split
      · exact h
      · split
        · exact h
        · by_cases hok : env.first.status = .ok
          · simp only [Kept, hok, if_true, List.foldl_cons, List.foldl_nil, Ledger.note]
            intro hready
            obtain ⟨hsize, hcoherent⟩ := h hready
            exact ⟨hsize, hcoherent.wrote hok (fun _ _ => rfl) rfl fun i hr => write_in hr⟩
          · simp only [Kept, hok, if_false, List.foldl_cons, Ledger.note, resyncMirror,
              List.foldl_nil]
            intro hready
            obtain ⟨hsize, hcoherent⟩ := h hready
            exact ⟨hsize, hcoherent.resynced (fun i hr => settle_out hr _) env.readBack⟩

theorem kept_erase (h : MirrorInv s l) (addr len : ℕ) (env : Env) :
    Kept l (erase s addr len env) := by
  rw [erase]
  split
  · exact h
  · split
    · exact h
    · split
      · exact h
      · by_cases hok : env.first.status = .ok
        · simp only [Kept, hok, if_true, List.foldl_cons, List.foldl_nil, Ledger.note]
          intro hready
          obtain ⟨hsize, hcoherent⟩ := h hready
          refine ⟨hsize, hcoherent.wrote hok (fun _ _ => rfl) (by simp) fun i hr => ?_⟩
          have hlt : i-addr < len := by omega
          simp [hlt]
        · simp only [Kept, hok, if_false, List.foldl_cons, Ledger.note, resyncMirror,
            List.foldl_nil]
          intro hready
          obtain ⟨hsize, hcoherent⟩ := h hready
          exact ⟨hsize, hcoherent.resynced (fun i hr => settle_out hr _) env.readBack⟩

theorem kept_replace (h : MirrorInv s l) (addr : ℕ) (data : List UInt8) (publishSize : ℕ)
    (env : Env) : Kept l (replaceRegion b s addr data publishSize env) := by
  rw [replaceRegion]
  split
  · exact h
  · split
    · exact h
    · split
      · exact h
      · by_cases hretry :
            (env.first.status = .eio && mirrorErased s addr data.length) = true
        · -- refused although the range reads erased: erased and written again
          have hboth := hretry
          simp only [Bool.and_eq_true, decide_eq_true_eq] at hboth
          simp only [Kept, hboth.1, hboth.2, decide_true, Bool.and_self, if_true]
          by_cases hok : env.second.status = .ok
          · simp only [hok, if_true, List.foldl_cons, List.foldl_nil, Ledger.note,
              reduceCtorEq, if_false]
            intro hready
            obtain ⟨hsize, hcoherent⟩ := h hready
            exact ⟨hsize, hcoherent.wrote hok (fun i hr => settle_out hr _) rfl
              fun i hr => write_in hr⟩
          · simp only [hok, if_false, List.foldl_append, List.foldl_cons, Ledger.note,
              resyncMirror, List.foldl_nil, reduceCtorEq]
            intro hready
            obtain ⟨hsize, hcoherent⟩ := h hready
            refine ⟨hsize, hcoherent.resynced (fun i hr => ?_) env.readBack⟩
            exact (settle_out hr _).trans (settle_out hr _)
        · simp only [Kept, hretry, Bool.false_eq_true, if_false]
          by_cases hok : env.first.status = .ok
          · simp only [hok, if_true, List.foldl_cons, List.foldl_nil, Ledger.note]
            intro hready
            obtain ⟨hsize, hcoherent⟩ := h hready
            exact ⟨hsize, hcoherent.wrote hok (fun _ _ => rfl) rfl fun i hr => write_in hr⟩
          · simp only [hok, if_false, List.foldl_append, List.foldl_cons, Ledger.note,
              resyncMirror, List.foldl_nil]
            intro hready
            obtain ⟨hsize, hcoherent⟩ := h hready
            exact ⟨hsize, hcoherent.resynced (fun i hr => settle_out hr _) env.readBack⟩

theorem kept_reset (h : MirrorInv s l) (env : Env) : Kept l (reset b s env) := by
  rw [reset]
  split
  · exact h
  · dsimp only
    have hcleared : ∀ n : ℕ, MirrorInv { setMirror s 0 (List.replicate n 0) with dirty := true }
        (l.note (.wrote 0 n)) := by
      intro n hready
      obtain ⟨hsize, hcoherent⟩ := h hready
      have hwritten : Coherent (setMirror s 0 (List.replicate n 0)) _ :=
        hcoherent.written (List.replicate n 0)
      simp only [List.length_replicate] at hwritten
      exact ⟨hsize, hwritten.mirrored, hwritten.erased, hwritten.zeroed⟩
    exact kept_commit (hcleared _) env

theorem kept_init (requestedSize : ℕ) (load : Load) :
    Kept l ((initializeProvider b s requestedSize load).1.1,
      (initializeProvider b s requestedSize load).2) := by
  unfold initializeProvider
  cases load with
  | failed status refused left =>
    intro hready
    cases hready
  | done storageSize =>
    dsimp only
    split
    · intro hready
      cases hready
    · split
      · intro hready
        cases hready
      · intro _
        refine ⟨?_, coherent_clear fun i hi => if_pos hi⟩
        dsimp only
        split
        · exact le_refl _
        · rename_i hsmall
          simp only [Bool.or_eq_true, decide_eq_true_eq, not_or, not_lt] at hsmall
          exact hsmall.2

theorem kept_step (h : MirrorInv s l) (a : Action) :
    MirrorInv (step b s a).1 ((step b s a).2.foldl Ledger.note l) := by
  have hanswered : ∀ result : Status × State × List Event, Kept l result →
      MirrorInv (answered result).1 ((answered result).2.foldl Ledger.note l) := by
    intro result hkept
    simp only [answered, List.foldl_append, List.foldl_cons, List.foldl_nil, Ledger.note]
    exact hkept
  cases a with
  | init requestedSize load => exact hanswered _ (kept_init requestedSize load)
  | read addr len =>
    apply hanswered
    rw [readBytes]
    split <;> exact h
  | readMedium addr len status =>
    apply hanswered
    rw [readMedium]
    split
    · exact h
    · split <;> exact h
  | write addr data => exact hanswered _ (kept_write h addr data)
  | commit env => exact hanswered _ (kept_commit h env)
  | replaceRegion addr data publishSize env =>
    exact hanswered _ (kept_replace h addr data publishSize env)
  | append addr data env => exact hanswered _ (kept_append h addr data env)
  | erase addr len env => exact hanswered _ (kept_erase h addr len env)
  | regionErased addr len =>
    apply hanswered
    rw [regionErased]
    split
    · exact h
    · split <;> exact h
  | reset env => exact hanswered _ (kept_reset h env)

theorem kept_run (h : MirrorInv s l) (as : List Action) :
    MirrorInv (run b s as).1 ((run b s as).2.foldl Ledger.note l) := by
  induction as generalizing s l with
  | nil => exact h
  | cons a as ih =>
    simp only [run, List.foldl_append]
    exact ih (kept_step h a)

theorem mem_storage (hrange : storageRangeValid s addr len = true) {i : ℕ}
    (hi : i < addr+len) : i < s.storageSize := by
  simp only [storageRangeValid, Bool.and_eq_true, decide_eq_true_eq] at hrange
  omega

theorem reported_erased (h : MirrorInv s l)
    (he : Event.reported addr len true ∈ (regionErased s addr len).2) {i : ℕ} (hle : addr ≤ i)
    (hi : i < addr+len) (hpending : l.pending i = false) : s.medium i = 0xFF := by
  rw [regionErased] at he
  split at he
  · cases he
  · rename_i hready
    split at he
    · cases he
    · rename_i hrange
      simp only [Bool.not_eq_true', Bool.not_eq_false] at hready hrange
      simp only [List.mem_singleton, Event.reported.injEq, true_and] at he
      exact (h hready).2.erased i (mem_storage hrange hi) hpending
        (mirrorErased_iff.mp he.symm i hle hi)

theorem programmed_erased (h : MirrorInv s l) {data : List UInt8} {env : Env} {status : Status}
    (he : Event.programmed addr data.length status ∈ (append s addr data env).2.2) {i : ℕ}
    (hle : addr ≤ i) (hi : i < addr+data.length) (hpending : l.pending i = false) :
    s.medium i = 0xFF := by
  rw [append] at he
  split at he
  · cases he
  · rename_i hready
    split at he
    · cases he
    · rename_i hrange
      split at he
      · cases he
      · rename_i herased
        simp only [Bool.not_eq_true', Bool.not_eq_false] at hready herased
        simp only [Bool.or_eq_true, Bool.not_eq_true', not_or, Bool.not_eq_false] at hrange
        exact (h hready).2.erased i (mem_storage hrange.2 hi) hpending
          (mirrorErased_iff.mp herased i hle hi)

end Steps

/-- The mirror as a copy of the medium, but for bytes written through the byte
interface and not committed. -/
def Faithful (s : State) (l : Ledger) : Prop :=
  (∀ addr len, Event.reported addr len true ∈ (regionErased s addr len).2 →
    ∀ i, addr ≤ i → i < addr+len → s.medium i = 0xFF) ∧
  (∀ addr data env status,
    Event.programmed addr data.length status ∈ (append s addr data env).2.2 →
    ∀ i, addr ≤ i → i < addr+data.length → s.medium i = 0xFF) ∧
  (s.ready = true → ∀ i < s.storageSize, l.pending i = false → s.mirror i = s.medium i)

/-- What the mirror reports erased, and what an append goes to program, is
erased on the medium but for writes not committed; and the mirror is the medium
but for those, for bytes a failed commit may have torn, and for ranges that
could not be read back, where it is zero. -/
theorem mirror_coherent (b : Backend) (medium : Image) (as : List Action) :
    let s := (run b (start medium) as).1
    let l := ledger (run b (start medium) as).2
    (∀ addr len, Event.reported addr len true ∈ (regionErased s addr len).2 →
      ∀ i, addr ≤ i → i < addr+len → l.pending i = false → s.medium i = 0xFF) ∧
    (∀ addr data env status,
      Event.programmed addr data.length status ∈ (append s addr data env).2.2 →
      ∀ i, addr ≤ i → i < addr+data.length → l.pending i = false → s.medium i = 0xFF) ∧
    (s.ready = true → ∀ i < s.storageSize, l.pending i = false → l.torn i = false →
      s.mirror i = if l.unread i then 0 else s.medium i) := by
  intro s l
  have hinv : MirrorInv s l := kept_run (fun hready => by cases hready) as
  refine ⟨fun addr len he i hle hi hpending => reported_erased hinv he hle hi hpending,
    fun addr data env status he i hle hi hpending => programmed_erased hinv he hle hi hpending,
    fun hready i hi hpending htorn => ?_⟩
  cases hunread : l.unread i with
  | false => exact (hinv hready).2.mirrored i hi hpending htorn hunread
  | true => exact (hinv hready).2.zeroed i hi hpending hunread

def page : Backend := ⟨2048, true, true, true, 2048, 8, 8⟩

def granted (first : Outcome) : Env := ⟨.ok, first, .done, .ok⟩

def maskingWrite : State × List Event :=
  run page (start fun _ => 0x12) [.init 0 (.done 2048), .write 0 (List.replicate 8 0xFF)]

def tornCommit : State × List Event :=
  run page (start fun _ => 0x12) [.init 0 (.done 2048), .write 0 [0],
    .commit (granted (.failed .eio (by decide) (fun _ => 0xFF)))]

/-- The append is one of whole units, as `jh_eeprom_append_region` asks for. -/
theorem mirror_not_faithful :
    (Event.reported 0 8 true ∈ (regionErased maskingWrite.1 0 8).2 ∧
      Event.programmed 0 8 .ok ∈
        (append maskingWrite.1 0 (List.replicate 8 1) (granted .done)).2.2 ∧
      maskingWrite.1.medium 0 = 0x12 ∧ ¬ Faithful maskingWrite.1 (ledger maskingWrite.2)) ∧
    (tornCommit.1.mirror 1 = 0x12 ∧ tornCommit.1.medium 1 = 0xFF ∧
      ¬ Faithful tornCommit.1 (ledger tornCommit.2)) := by
  have hreported : Event.reported 0 8 true ∈ (regionErased maskingWrite.1 0 8).2 := by decide
  have hmedium : maskingWrite.1.medium 0 = 0x12 := by decide
  have hmirror : tornCommit.1.mirror 1 = 0x12 := by decide
  have htorn : tornCommit.1.medium 1 = 0xFF := by decide
  refine ⟨⟨hreported, by decide, hmedium, fun h => ?_⟩, hmirror, htorn, fun h => ?_⟩
  · have herased := h.1 0 8 hreported 0 (Nat.le_refl 0) (by decide)
    rw [hmedium] at herased
    cases herased
  · have hsame := h.2.2 (by decide) 1 (by decide) (by decide)
    rw [hmirror, htorn] at hsame
    cases hsame

end JaszczurHal.EepromCoherence
