import JaszczurHal.ByteImage
import Mathlib.Logic.Relation

/-!
# The single-producer single-consumer ring

`jh_spsc_ring` as two parties that take turns at the granularity of one load
or store of an index and one copied byte. The producer writes `head`, the
consumer writes `tail`; both run modulo twice the capacity.
-/

set_option autoImplicit false

namespace JaszczurHal.SpscRing
open JaszczurHal.ByteImage

structure Geometry where
  elemSize : UInt16
  capacity : UInt16

variable (g : Geometry)

def used (head tail : UInt32) : UInt32 :=
  if head ≥ tail then head-tail else head+2*g.capacity.toUInt32-tail

def next (position : UInt32) : UInt32 :=
  if position+1 = 2*g.capacity.toUInt32 then 0 else position+1

def slot (position : UInt32) : ℕ :=
  let index :=
    if position < g.capacity.toUInt32 then position else position-g.capacity.toUInt32
  index.toNat*g.elemSize.toNat

def element (storage : Image) (position : UInt32) : List UInt8 :=
  slice storage (slot g position) g.elemSize.toNat

def contents (storage : Image) : UInt32 → ℕ → List (List UInt8)
  | _, 0 => []
  | position, n+1 => element g storage position :: contents storage (next g position) n

inductive Producer
  | idle
  | push (elem : List UInt8) (head : UInt32)
  | copyIn (elem : List UInt8) (head : UInt32) (copied : ℕ)
  | countHead (head : UInt32)
  | countTail (tail : UInt32)

inductive Consumer
  | idle
  | peek (pop : Bool) (tail : UInt32)
  | copyOut (tail : UInt32) (out : List UInt8)
  | drop (tail : UInt32) (item : List UInt8)
  | clear (head : UInt32)
  | countHead (head : UInt32)
  | countTail (tail : UInt32)

/-- `held` is the place of the element that a `peek` returned and that is still in the
ring; no code reads it. -/
structure State where
  storage : Image
  head : UInt32
  tail : UInt32
  producer : Producer
  consumer : Consumer
  held : Option UInt32

def init (storage : Image) : State := ⟨storage, 0, 0, .idle, .idle, none⟩

inductive Event
  | silent
  | pushed (elem : List UInt8)
  | refused
  | empty
  | peeked (elem : List UInt8)
  | popped (elem : List UInt8)
  | cleared (elems : List (List UInt8))
  | counted (count : UInt32)

inductive ProducerStep : State → Event → State → Prop
  | pushLoadHead {s : State} (elem : List UInt8) (idle : s.producer = .idle)
      (size : elem.length = g.elemSize.toNat) :
      ProducerStep s .silent { s with producer := .push elem s.head }
  | pushFull {s : State} {elem : List UInt8} {head : UInt32}
      (at_tail : s.producer = .push elem head)
      (full : used g head s.tail ≥ g.capacity.toUInt32) :
      ProducerStep s .refused { s with producer := .idle }
  | pushRoom {s : State} {elem : List UInt8} {head : UInt32}
      (at_tail : s.producer = .push elem head)
      (room : ¬ used g head s.tail ≥ g.capacity.toUInt32) :
      ProducerStep s .silent { s with producer := .copyIn elem head 0 }
  | pushCopy {s : State} {elem : List UInt8} {head : UInt32} {copied : ℕ}
      (at_copy : s.producer = .copyIn elem head copied) (more : copied < elem.length) :
      ProducerStep s .silent { s with
        storage := write s.storage (slot g head+copied) [elem[copied]]
        producer := .copyIn elem head (copied+1) }
  | pushStoreHead {s : State} {elem : List UInt8} {head : UInt32}
      (at_store : s.producer = .copyIn elem head elem.length) :
      ProducerStep s (.pushed elem) { s with head := next g head, producer := .idle }
  | countLoadHead {s : State} (idle : s.producer = .idle) :
      ProducerStep s .silent { s with producer := .countHead s.head }
  | countLoadTail {s : State} (idle : s.producer = .idle) :
      ProducerStep s .silent { s with producer := .countTail s.tail }
  | countThenTail {s : State} {head : UInt32} (loaded : s.producer = .countHead head) :
      ProducerStep s (.counted (used g head s.tail)) { s with producer := .idle }
  | countThenHead {s : State} {tail : UInt32} (loaded : s.producer = .countTail tail) :
      ProducerStep s (.counted (used g s.head tail)) { s with producer := .idle }

/-- `jh_spsc_ring_peek`, `_drop`, `_pop`, `_clear` and the consumer's
`jh_spsc_ring_count`. A `drop` has behind it a `peek` that found the element, with
any calls between that take nothing. -/
inductive ConsumerStep : State → Event → State → Prop
  | peekLoadTail {s : State} (pop : Bool) (idle : s.consumer = .idle) :
      ConsumerStep s .silent { s with consumer := .peek pop s.tail }
  | peekEmpty {s : State} {pop : Bool} {tail : UInt32}
      (at_head : s.consumer = .peek pop tail) (same : s.head = tail) :
      ConsumerStep s .empty { s with consumer := .idle }
  | peekFound {s : State} {tail : UInt32}
      (at_head : s.consumer = .peek false tail) (differ : s.head ≠ tail) :
      ConsumerStep s .silent { s with consumer := .idle, held := some tail }
  | popFound {s : State} {tail : UInt32}
      (at_head : s.consumer = .peek true tail) (differ : s.head ≠ tail) :
      ConsumerStep s .silent { s with consumer := .copyOut tail [] }
  | readFront {s : State} {tail : UInt32} (found : s.held = some tail) :
      ConsumerStep s (.peeked (element g s.storage tail)) s
  | popCopy {s : State} {tail : UInt32} {out : List UInt8}
      (at_copy : s.consumer = .copyOut tail out) (more : out.length < g.elemSize.toNat) :
      ConsumerStep s .silent { s with
        consumer := .copyOut tail (out ++ [s.storage (slot g tail+out.length)]) }
  | popLoadTail {s : State} {tail : UInt32} {out : List UInt8}
      (at_copy : s.consumer = .copyOut tail out) (whole : out.length = g.elemSize.toNat) :
      ConsumerStep s .silent { s with consumer := .drop s.tail out }
  | dropLoadTail {s : State} {tail : UInt32} (idle : s.consumer = .idle)
      (found : s.held = some tail) :
      ConsumerStep s .silent { s with
        consumer := .drop s.tail (element g s.storage tail) }
  | dropStoreTail {s : State} {tail : UInt32} {item : List UInt8}
      (at_store : s.consumer = .drop tail item) :
      ConsumerStep s (.popped item) { s with
        tail := next g tail, consumer := .idle, held := none }
  | clearLoadHead {s : State} (idle : s.consumer = .idle) :
      ConsumerStep s .silent { s with consumer := .clear s.head }
  | clearStoreTail {s : State} {head : UInt32} (at_store : s.consumer = .clear head) :
      ConsumerStep s (.cleared (contents g s.storage s.tail (used g head s.tail).toNat))
        { s with tail := head, consumer := .idle, held := none }
  | countLoadHead {s : State} (idle : s.consumer = .idle) :
      ConsumerStep s .silent { s with consumer := .countHead s.head }
  | countLoadTail {s : State} (idle : s.consumer = .idle) :
      ConsumerStep s .silent { s with consumer := .countTail s.tail }
  | countThenTail {s : State} {head : UInt32} (loaded : s.consumer = .countHead head) :
      ConsumerStep s (.counted (used g head s.tail)) { s with consumer := .idle }
  | countThenHead {s : State} {tail : UInt32} (loaded : s.consumer = .countTail tail) :
      ConsumerStep s (.counted (used g s.head tail)) { s with consumer := .idle }

inductive Step (s : State) (e : Event) (s' : State) : Prop
  | producer (h : ProducerStep g s e s')
  | consumer (h : ConsumerStep g s e s')

inductive Run (storage : Image) : List Event → State → Prop
  | start : Run storage [] (init storage)
  | step {es : List Event} {s s' : State} {e : Event} (run : Run storage es s)
      (step : Step g s e s') : Run storage (es++[e]) s'

def Event.pushes : Event → List (List UInt8)
  | .pushed elem => [elem]
  | _ => []

def Event.pops : Event → List (List UInt8)
  | .popped elem => [elem]
  | _ => []

/-- What an event takes out of the ring: one element popped, or all that a
`clear` discards. -/
def Event.takes : Event → List (List UInt8)
  | .popped elem => [elem]
  | .cleared elems => elems
  | _ => []

def pushes (es : List Event) : List (List UInt8) := es.flatMap Event.pushes
def pops (es : List Event) : List (List UInt8) := es.flatMap Event.pops
def takes (es : List Event) : List (List UInt8) := es.flatMap Event.takes

@[simp] theorem pushes_nil : pushes [] = [] := rfl
@[simp] theorem takes_nil : takes [] = [] := rfl

@[simp] theorem pushes_snoc (es : List Event) (e : Event) :
    pushes (es++[e]) = pushes es ++ e.pushes := by
  simp [pushes]

@[simp] theorem takes_snoc (es : List Event) (e : Event) :
    takes (es++[e]) = takes es ++ e.takes := by
  simp [takes]

def pos (n : ℕ) : UInt32 := UInt32.ofNat (n % (2*g.capacity.toNat))

theorem capacity_lt : g.capacity.toNat < 65536 := g.capacity.toNat_lt

theorem pos_toNat (n : ℕ) (hc : 0 < g.capacity.toNat) :
    (pos g n).toNat = n % (2*g.capacity.toNat) := by
  have hlt := Nat.mod_lt n (show 0 < 2*g.capacity.toNat by omega)
  have hcap := capacity_lt g
  rw [pos, UInt32.toNat_ofNat_of_lt']
  show n % (2*g.capacity.toNat) < 2^32
  omega

theorem double_toNat : (2*g.capacity.toUInt32).toNat = 2*g.capacity.toNat := by
  have hcap := capacity_lt g
  have h : (2*g.capacity.toUInt32).toNat = 2*g.capacity.toNat % 2^32 := by
    rw [UInt32.toNat_mul]
    rfl
  rw [h, Nat.mod_eq_of_lt (by omega)]

theorem next_pos (n : ℕ) (hc : 0 < g.capacity.toNat) : next g (pos g n) = pos g (n+1) := by
  have hcap := capacity_lt g
  have hn := pos_toNat g n hc
  have hlt := Nat.mod_lt n (show 0 < 2*g.capacity.toNat by omega)
  have hsucc : (pos g n+1).toNat = n % (2*g.capacity.toNat)+1 := by
    rw [UInt32.toNat_add, hn]
    show (n % (2*g.capacity.toNat)+1) % 2^32 = _
    rw [Nat.mod_eq_of_lt (by omega)]
  have hpos : (n+1) % (2*g.capacity.toNat) =
      (n % (2*g.capacity.toNat)+1) % (2*g.capacity.toNat) := (Nat.mod_add_mod _ _ _).symm
  apply UInt32.toNat_inj.mp
  rw [next, pos_toNat g _ hc, hpos]
  by_cases hwrap : pos g n+1 = 2*g.capacity.toUInt32
  · rw [if_pos hwrap, ← hsucc, hwrap, double_toNat, Nat.mod_self]
    rfl
  · have hne : n % (2*g.capacity.toNat)+1 ≠ 2*g.capacity.toNat := by
      intro heq
      exact hwrap (UInt32.toNat_inj.mp (by rw [hsucc, heq, double_toNat]))
    have hlow : n % (2*g.capacity.toNat)+1 < 2*g.capacity.toNat := by omega
    rw [if_neg hwrap, hsucc, Nat.mod_eq_of_lt hlow]

/-- Neither side's index arithmetic wraps at 32 bits: the difference of two
positions is the number of elements between them. -/
theorem used_pos {t h : ℕ} (hle : t ≤ h) (hroom : h ≤ t+g.capacity.toNat) :
    (used g (pos g h) (pos g t)).toNat = h-t := by
  obtain ⟨d, rfl⟩ := Nat.exists_eq_add_of_le hle
  rw [used, Nat.add_sub_cancel_left]
  by_cases hzero : d = 0
  · subst hzero
    simp
  · have hcap := capacity_lt g
    have hc : 0 < g.capacity.toNat := by omega
    have hlt := Nat.mod_lt t (show 0 < 2*g.capacity.toNat by omega)
    have hh : (pos g (t+d)).toNat =
        (t % (2*g.capacity.toNat)+d) % (2*g.capacity.toNat) := by
      rw [pos_toNat g _ hc, Nat.mod_add_mod]
    have ht := pos_toNat g t hc
    by_cases hwrap : t % (2*g.capacity.toNat)+d < 2*g.capacity.toNat
    · rw [Nat.mod_eq_of_lt hwrap] at hh
      have hge : pos g t ≤ pos g (t+d) := by
        rw [UInt32.le_iff_toNat_le]
        omega
      rw [if_pos hge, UInt32.toNat_sub_of_le _ _ hge]
      omega
    · rw [Nat.mod_eq_sub_mod (by omega), Nat.mod_eq_of_lt (by omega)] at hh
      have hlt' : ¬ pos g (t+d) ≥ pos g t := by
        rw [ge_iff_le, UInt32.le_iff_toNat_le]
        omega
      rw [if_neg hlt', UInt32.toNat_sub, UInt32.toNat_add, double_toNat, hh, ht]
      omega

theorem pos_eq_iff {t h : ℕ} (hle : t ≤ h) (hroom : h ≤ t+g.capacity.toNat) :
    pos g h = pos g t ↔ h = t := by
  constructor
  · intro heq
    have hused := used_pos g hle hroom
    rw [heq, used, if_pos (UInt32.le_refl _), UInt32.sub_self, UInt32.toNat_zero] at hused
    omega
  · rintro rfl
    rfl

theorem slot_pos (n : ℕ) (hc : 0 < g.capacity.toNat) :
    slot g (pos g n) = n % g.capacity.toNat*g.elemSize.toNat := by
  have hn := pos_toNat g n hc
  have hlt := Nat.mod_lt n (show 0 < 2*g.capacity.toNat by omega)
  have hmod : n % g.capacity.toNat = n % (2*g.capacity.toNat) % g.capacity.toNat :=
    (Nat.mod_mul_left_mod n 2 _).symm
  have hcap : g.capacity.toUInt32.toNat = g.capacity.toNat := rfl
  rw [slot]
  by_cases hlow : pos g n < g.capacity.toUInt32
  · have hlow' := UInt32.lt_iff_toNat_lt.mp hlow
    have hsmall : n % (2*g.capacity.toNat) < g.capacity.toNat := by omega
    simp only [if_pos hlow]
    rw [hn, hmod, Nat.mod_eq_of_lt hsmall]
  · have hge : g.capacity.toUInt32 ≤ pos g n := by
      rw [UInt32.le_iff_toNat_le]
      rw [UInt32.lt_iff_toNat_lt] at hlow
      omega
    have hge' := UInt32.le_iff_toNat_le.mp hge
    have hlarge : g.capacity.toNat ≤ n % (2*g.capacity.toNat) := by omega
    have hsmall : n % (2*g.capacity.toNat)-g.capacity.toNat < g.capacity.toNat := by omega
    simp only [if_neg hlow]
    rw [UInt32.toNat_sub_of_le _ _ hge, hn, hmod, hcap, Nat.mod_eq_sub_mod hlarge,
      Nat.mod_eq_of_lt hsmall]

/-- Two elements of the ring at one time have disjoint slots. -/
theorem slot_disjoint {i j : ℕ} (hij : i < j) (hroom : j < i+g.capacity.toNat) :
    slot g (pos g i)+g.elemSize.toNat ≤ slot g (pos g j) ∨
      slot g (pos g j)+g.elemSize.toNat ≤ slot g (pos g i) := by
  have hc : 0 < g.capacity.toNat := by omega
  rw [slot_pos g i hc, slot_pos g j hc]
  have hne : i % g.capacity.toNat ≠ j % g.capacity.toNat := by
    intro heq
    obtain ⟨k, hk⟩ := (Nat.modEq_iff_dvd' hij.le).mp heq
    have hk1 : k ≠ 0 := by
      rintro rfl
      omega
    have hkpos := Nat.le_mul_of_pos_right g.capacity.toNat (Nat.pos_of_ne_zero hk1)
    omega
  rcases Nat.lt_or_gt_of_ne hne with hlt | hlt
  · left
    have := Nat.mul_le_mul_right g.elemSize.toNat (Nat.succ_le_of_lt hlt)
    rwa [Nat.succ_mul] at this
  · right
    have := Nat.mul_le_mul_right g.elemSize.toNat (Nat.succ_le_of_lt hlt)
    rwa [Nat.succ_mul] at this

structure Shared (pushed taken : List (List UInt8)) (storage : Image)
    (head tail : UInt32) : Prop where
  order : taken <+: pushed
  room : pushed.length ≤ taken.length+g.capacity.toNat
  head_pos : head = pos g pushed.length
  tail_pos : tail = pos g taken.length
  stored : ∀ i elem, taken.length ≤ i → pushed[i]? = some elem →
    element g storage (pos g i) = elem

def ProducerOk (pushed taken : List (List UInt8)) (storage : Image) (head : UInt32) :
    Producer → Prop
  | .idle => True
  | .push elem h => elem.length = g.elemSize.toNat ∧ h = head
  | .copyIn elem h copied => elem.length = g.elemSize.toNat ∧ h = head ∧
      pushed.length < taken.length+g.capacity.toNat ∧
      slice storage (slot g h) copied = elem.take copied
  | .countHead h => h = head
  | .countTail t => ∃ k ≤ taken.length, t = pos g k ∧ pushed.length ≤ k+g.capacity.toNat

def ConsumerOk (pushed taken : List (List UInt8)) (tail : UInt32) : Consumer → Prop
  | .idle => True
  | .peek _ t => t = tail
  | .copyOut t out => t = tail ∧
      ∃ elem, pushed[taken.length]? = some elem ∧ out = elem.take out.length
  | .drop t item => t = tail ∧ pushed[taken.length]? = some item
  | .clear h => ∃ k, taken.length ≤ k ∧ k ≤ pushed.length ∧ h = pos g k
  | .countHead h => ∃ k, taken.length ≤ k ∧ k ≤ pushed.length ∧ h = pos g k
  | .countTail t => t = tail

structure Inv (pushed taken : List (List UInt8)) (s : State) : Prop where
  shared : Shared g pushed taken s.storage s.head s.tail
  producer : ProducerOk g pushed taken s.storage s.head s.producer
  consumer : ConsumerOk g pushed taken s.tail s.consumer
  held : ∀ t ∈ s.held, t = s.tail ∧ taken.length < pushed.length

def EventOk (pushed taken : List (List UInt8)) : Event → Prop
  | .refused => pushed.length = taken.length+g.capacity.toNat
  | .empty => pushed.length = taken.length
  | .peeked elem => pushed[taken.length]? = some elem
  | .counted count => count.toNat ≤ g.capacity.toNat
  | _ => True

section Facts

variable {g} {pushed taken : List (List UInt8)} {storage : Image} {head tail : UInt32}

theorem Shared.le (h : Shared g pushed taken storage head tail) :
    taken.length ≤ pushed.length :=
  h.order.length_le

theorem Shared.used_eq (h : Shared g pushed taken storage head tail) :
    (used g head tail).toNat = pushed.length-taken.length := by
  rw [h.head_pos, h.tail_pos]
  exact used_pos g h.le h.room

theorem Shared.empty_iff (h : Shared g pushed taken storage head tail) :
    head = tail ↔ pushed.length = taken.length := by
  rw [h.head_pos, h.tail_pos]
  exact pos_eq_iff g h.le h.room

theorem Shared.full_iff (h : Shared g pushed taken storage head tail) :
    used g head tail ≥ g.capacity.toUInt32 ↔
      pushed.length = taken.length+g.capacity.toNat := by
  have hused := h.used_eq
  have hroom := h.room
  have hle := h.le
  have hcap : g.capacity.toUInt32.toNat = g.capacity.toNat := rfl
  rw [ge_iff_le, UInt32.le_iff_toNat_le]
  omega

theorem Shared.front (h : Shared g pushed taken storage head tail)
    (hlt : taken.length < pushed.length) :
    pushed[taken.length]? = some (element g storage tail) := by
  have hget := List.getElem?_eq_getElem hlt
  rw [hget, h.tail_pos, h.stored _ _ (Nat.le_refl _) hget]

theorem Shared.front_eq (h : Shared g pushed taken storage head tail) {elem : List UInt8}
    (helem : pushed[taken.length]? = some elem) : elem = element g storage tail := by
  have hlt := (List.getElem?_eq_some_iff.mp helem).1
  exact Option.some.inj (helem.symm.trans (h.front hlt))

theorem Shared.contents_eq (h : Shared g pushed taken storage head tail) (n i : ℕ)
    (hi : taken.length ≤ i) (hn : i+n ≤ pushed.length) :
    contents g storage (pos g i) n = (pushed.drop i).take n := by
  induction n generalizing i with
  | zero => simp [contents]
  | succ n ih =>
    have hlt : i < pushed.length := by omega
    have hroom := h.room
    have hc : 0 < g.capacity.toNat := by omega
    have hget := List.getElem?_eq_getElem hlt
    rw [contents, next_pos g i hc, ih (i+1) (by omega) (by omega),
      h.stored i _ hi hget, List.drop_eq_getElem_cons hlt, List.take_succ_cons]

omit g in
theorem prefix_append_take (h : taken <+: pushed) (n : ℕ) :
    taken ++ (pushed.drop taken.length).take n <+: pushed := by
  obtain ⟨rest, rfl⟩ := h
  rw [List.drop_left]
  exact (List.prefix_append_right_inj taken).mpr (List.take_prefix n rest)

/-- Taking elements off the front leaves the rest where it was. -/
theorem Shared.take (h : Shared g pushed taken storage head tail)
    {items : List (List UInt8)} (horder : taken ++ items <+: pushed) :
    Shared g pushed (taken ++ items) storage head (pos g (taken.length+items.length)) where
  order := horder
  room := by
    have := h.room
    rw [List.length_append]
    omega
  head_pos := h.head_pos
  tail_pos := by rw [List.length_append]
  stored i elem hi := h.stored i elem (by
    rw [List.length_append] at hi
    omega)

theorem Shared.push (h : Shared g pushed taken storage head tail) {elem : List UInt8}
    (hroom : pushed.length < taken.length+g.capacity.toNat)
    (hslot : element g storage head = elem) :
    Shared g (pushed ++ [elem]) taken storage (next g head) tail where
  order := h.order.trans (List.prefix_append _ _)
  room := by
    simp only [List.length_append, List.length_singleton]
    omega
  head_pos := by
    have hle := h.le
    rw [h.head_pos, next_pos g _ (by omega), List.length_append, List.length_singleton]
  tail_pos := h.tail_pos
  stored i e hi hget := by
    rcases Nat.lt_or_ge i pushed.length with hlt | hge
    · rw [List.getElem?_append_left hlt] at hget
      exact h.stored i e hi hget
    · have hlast : i = pushed.length := by
        have := List.getElem?_eq_some_iff.mp hget |>.1
        simp only [List.length_append, List.length_singleton] at this
        omega
      subst hlast
      rw [List.getElem?_concat_length, Option.some.injEq] at hget
      rw [← h.head_pos, hslot, hget]

/-- The producer writes only the slot at `head`, which holds no element. -/
theorem Shared.write_head (h : Shared g pushed taken storage head tail)
    (hroom : pushed.length < taken.length+g.capacity.toNat) {copied : ℕ} (byte : UInt8)
    (hcopied : copied < g.elemSize.toNat) :
    Shared g pushed taken (write storage (slot g head+copied) [byte]) head tail where
  order := h.order
  room := h.room
  head_pos := h.head_pos
  tail_pos := h.tail_pos
  stored i elem hi hget := by
    have hlt : i < pushed.length := (List.getElem?_eq_some_iff.mp hget).1
    have hdisjoint := slot_disjoint g hlt (by omega)
    rw [← h.stored i elem hi hget, element, element, h.head_pos]
    apply slice_write_disjoint
    simp only [List.length_singleton]
    omega

theorem ProducerOk.take {items : List (List UInt8)} {p : Producer}
    (h : ProducerOk g pushed taken storage head p) :
    ProducerOk g pushed (taken ++ items) storage head p := by
  have hlength : (taken ++ items).length = taken.length+items.length := by simp
  cases p with
  | idle => trivial
  | push elem hd => exact h
  | copyIn elem hd copied =>
    obtain ⟨hsize, hhead, hroom, hslice⟩ := h
    exact ⟨hsize, hhead, by omega, hslice⟩
  | countHead hd => exact h
  | countTail t =>
    obtain ⟨k, hk, ht, hroom⟩ := h
    exact ⟨k, by omega, ht, hroom⟩

theorem ConsumerOk.push {elem : List UInt8} {c : Consumer}
    (h : ConsumerOk g pushed taken tail c) :
    ConsumerOk g (pushed ++ [elem]) taken tail c := by
  have hlength : (pushed ++ [elem]).length = pushed.length+1 := by simp
  have hget : ∀ {i : ℕ} {e : List UInt8}, pushed[i]? = some e →
      (pushed ++ [elem])[i]? = some e := by
    intro i e hi
    rw [List.getElem?_append_left (List.getElem?_eq_some_iff.mp hi).1, hi]
  cases c with
  | idle => trivial
  | peek pop t => exact h
  | copyOut t out =>
    obtain ⟨ht, e, he, hout⟩ := h
    exact ⟨ht, e, hget he, hout⟩
  | drop t item => exact ⟨h.1, hget h.2⟩
  | clear hd =>
    obtain ⟨k, hlo, hhi, hk⟩ := h
    exact ⟨k, hlo, by omega, hk⟩
  | countHead hd =>
    obtain ⟨k, hlo, hhi, hk⟩ := h
    exact ⟨k, hlo, by omega, hk⟩
  | countTail t => exact h

end Facts

variable {g}

theorem inv_init (storage : Image) : Inv g [] [] (init storage) where
  shared := {
    order := List.prefix_rfl
    room := by simp
    head_pos := by simp [init, pos]
    tail_pos := by simp [init, pos]
    stored := by simp }
  producer := trivial
  consumer := trivial
  held := by simp [init]

/-- A step whose event moves no element keeps both sequences. -/
theorem quiet_step {pushed taken : List (List UInt8)} {s' : State} {e : Event}
    (hpush : e.pushes = []) (htake : e.takes = []) (hok : EventOk g pushed taken e)
    (h : Inv g pushed taken s') :
    EventOk g pushed taken e ∧ Inv g (pushed ++ e.pushes) (taken ++ e.takes) s' := by
  rw [hpush, htake, List.append_nil, List.append_nil]
  exact ⟨hok, h⟩

theorem producer_step {pushed taken : List (List UInt8)} {s s' : State} {e : Event}
    (h : Inv g pushed taken s) (step : ProducerStep g s e s') :
    EventOk g pushed taken e ∧ Inv g (pushed ++ e.pushes) (taken ++ e.takes) s' := by
  obtain ⟨hs, hp, hc, hheld⟩ := h
  cases step with
  | pushLoadHead elem idle size =>
    exact quiet_step rfl rfl trivial ⟨hs, ⟨size, rfl⟩, hc, hheld⟩
  | pushFull at_tail full =>
    rw [at_tail] at hp
    obtain ⟨_, rfl⟩ := hp
    exact quiet_step rfl rfl (hs.full_iff.mp full) ⟨hs, trivial, hc, hheld⟩
  | @pushRoom elem head at_tail room =>
    rw [at_tail] at hp
    obtain ⟨size, rfl⟩ := hp
    have hroom := hs.room
    rw [hs.full_iff] at room
    exact quiet_step rfl rfl trivial ⟨hs, ⟨size, rfl, by omega, by simp [slice]⟩, hc, hheld⟩
  | @pushCopy elem head copied at_copy more =>
    rw [at_copy] at hp
    obtain ⟨size, rfl, hroom, hslice⟩ := hp
    refine quiet_step rfl rfl trivial
      ⟨hs.write_head hroom _ (by omega), ⟨size, rfl, hroom, ?_⟩, hc, hheld⟩
    -- the bytes copied before this one are below the written offset
    rw [slice_append _ _ copied 1, slice_write_disjoint (by simp), hslice,
      ← List.take_concat_get' _ _ more]
    congr 1
    exact slice_write_self _ _ [elem[copied]]
  | @pushStoreHead elem head at_store =>
    rw [at_store] at hp
    obtain ⟨size, rfl, hroom, hslice⟩ := hp
    refine ⟨trivial, ?_⟩
    simp only [Event.pushes, Event.takes, List.append_nil]
    have helem : element g s.storage s.head = elem := by
      rw [element, ← size, hslice, List.take_length]
    refine ⟨hs.push hroom helem, trivial, hc.push, fun t ht => ?_⟩
    obtain ⟨htail, hlt⟩ := hheld t ht
    exact ⟨htail, by rw [List.length_append]; omega⟩
  | countLoadHead idle =>
    exact quiet_step rfl rfl trivial ⟨hs, rfl, hc, hheld⟩
  | countLoadTail idle =>
    exact quiet_step rfl rfl trivial ⟨hs, ⟨taken.length, Nat.le_refl _, hs.tail_pos, hs.room⟩, hc, hheld⟩
  | countThenTail loaded =>
    rw [loaded] at hp
    subst hp
    have hroom := hs.room
    refine quiet_step rfl rfl ?_ ⟨hs, trivial, hc, hheld⟩
    rw [EventOk, hs.used_eq]
    omega
  | countThenHead loaded =>
    rw [loaded] at hp
    obtain ⟨k, hk, rfl, hroom⟩ := hp
    have hle := hs.le
    refine quiet_step rfl rfl ?_ ⟨hs, trivial, hc, hheld⟩
    rw [EventOk, hs.head_pos, used_pos g (by omega) hroom]
    omega

theorem consumer_step {pushed taken : List (List UInt8)} {s s' : State} {e : Event}
    (h : Inv g pushed taken s) (step : ConsumerStep g s e s') :
    EventOk g pushed taken e ∧ Inv g (pushed ++ e.pushes) (taken ++ e.takes) s' := by
  obtain ⟨hs, hp, hc, hheld⟩ := h
  cases step with
  | peekLoadTail pop idle =>
    exact quiet_step rfl rfl trivial ⟨hs, hp, rfl, hheld⟩
  | peekEmpty at_head same =>
    rw [at_head] at hc
    subst hc
    exact quiet_step rfl rfl (hs.empty_iff.mp same) ⟨hs, hp, trivial, hheld⟩
  | peekFound at_head differ =>
    rw [at_head] at hc
    subst hc
    have hle := hs.le
    rw [Ne, hs.empty_iff] at differ
    refine quiet_step rfl rfl trivial ⟨hs, hp, trivial, fun t ht => ?_⟩
    obtain rfl := Option.some.inj ht
    exact ⟨rfl, by omega⟩
  | popFound at_head differ =>
    rw [at_head] at hc
    subst hc
    have hle := hs.le
    rw [Ne, hs.empty_iff] at differ
    exact quiet_step rfl rfl trivial
      ⟨hs, hp, ⟨rfl, _, hs.front (by omega), rfl⟩, hheld⟩
  | readFront found =>
    obtain ⟨rfl, hlt⟩ := hheld _ found
    exact quiet_step rfl rfl (hs.front hlt) ⟨hs, hp, hc, hheld⟩
  | @popCopy tail out at_copy more =>
    rw [at_copy] at hc
    obtain ⟨rfl, elem, helem, hout⟩ := hc
    have hfront := hs.front_eq helem
    have hnext : out.length < elem.length := by
      rw [hfront, element, slice_length]
      exact more
    refine quiet_step rfl rfl trivial ⟨hs, hp, ⟨rfl, elem, helem, ?_⟩, hheld⟩
    rw [List.length_append, List.length_singleton, ← List.take_concat_get' _ _ hnext, ← hout]
    congr 2
    simp [hfront, element, slice]
  | @popLoadTail tail out at_copy whole =>
    rw [at_copy] at hc
    obtain ⟨rfl, elem, helem, hout⟩ := hc
    have hfront := hs.front_eq helem
    have hsize : out.length = elem.length := by
      rw [whole, hfront, element, slice_length]
    rw [hsize, List.take_length] at hout
    exact quiet_step rfl rfl trivial
      ⟨hs, hp, ⟨rfl, by rw [hout]; exact helem⟩, hheld⟩
  | dropLoadTail idle found =>
    obtain ⟨rfl, hlt⟩ := hheld _ found
    exact quiet_step rfl rfl trivial ⟨hs, hp, ⟨rfl, hs.front hlt⟩, hheld⟩
  | @dropStoreTail tail item at_store =>
    rw [at_store] at hc
    obtain ⟨rfl, hitem⟩ := hc
    have hlt := (List.getElem?_eq_some_iff.mp hitem).1
    have hroom := hs.room
    have hone : (pushed.drop taken.length).take 1 = [item] := by
      rw [List.drop_eq_getElem_cons hlt, List.take_succ_cons, List.take_zero,
        (List.getElem?_eq_some_iff.mp hitem).2]
    have htake := hs.take (hone ▸ prefix_append_take hs.order 1)
    rw [List.length_singleton, ← next_pos g _ (by omega), ← hs.tail_pos] at htake
    simp only [Event.pushes, Event.takes, List.append_nil]
    exact ⟨trivial, htake, hp.take, trivial, by simp⟩
  | clearLoadHead idle =>
    exact quiet_step rfl rfl trivial
      ⟨hs, hp, ⟨pushed.length, hs.le, Nat.le_refl _, hs.head_pos⟩, hheld⟩
  | clearStoreTail at_store =>
    rw [at_store] at hc
    obtain ⟨k, hlo, hhi, rfl⟩ := hc
    have hroom := hs.room
    have hitems : contents g s.storage s.tail (used g (pos g k) s.tail).toNat =
        (pushed.drop taken.length).take (k-taken.length) := by
      conv_lhs => rw [hs.tail_pos, used_pos g hlo (by omega)]
      exact hs.contents_eq _ _ (Nat.le_refl _) (by omega)
    have htake := hs.take (prefix_append_take hs.order (k-taken.length))
    have hlength : taken.length+((pushed.drop taken.length).take (k-taken.length)).length = k := by
      rw [List.length_take, List.length_drop]
      omega
    rw [hlength] at htake
    simp only [Event.pushes, Event.takes, List.append_nil, hitems]
    exact ⟨trivial, htake, hp.take, trivial, by simp⟩
  | countLoadHead idle =>
    exact quiet_step rfl rfl trivial
      ⟨hs, hp, ⟨pushed.length, hs.le, Nat.le_refl _, hs.head_pos⟩, hheld⟩
  | countLoadTail idle =>
    exact quiet_step rfl rfl trivial ⟨hs, hp, rfl, hheld⟩
  | countThenTail loaded =>
    rw [loaded] at hc
    obtain ⟨k, hlo, hhi, rfl⟩ := hc
    have hroom := hs.room
    refine quiet_step rfl rfl ?_ ⟨hs, hp, trivial, hheld⟩
    rw [EventOk, hs.tail_pos, used_pos g hlo (by omega)]
    omega
  | countThenHead loaded =>
    rw [loaded] at hc
    subst hc
    have hroom := hs.room
    refine quiet_step rfl rfl ?_ ⟨hs, hp, trivial, hheld⟩
    rw [EventOk, hs.used_eq]
    omega

theorem inv_step {pushed taken : List (List UInt8)} {s s' : State} {e : Event}
    (h : Inv g pushed taken s) (step : Step g s e s') :
    EventOk g pushed taken e ∧ Inv g (pushed ++ e.pushes) (taken ++ e.takes) s' := by
  cases step with
  | producer step => exact producer_step h step
  | consumer step => exact consumer_step h step

theorem run_inv {storage : Image} {es : List Event} {s : State} (run : Run g storage es s) :
    Inv g (pushes es) (takes es) s := by
  induction run with
  | start => exact inv_init storage
  | step run step ih =>
    rw [pushes_snoc, takes_snoc]
    exact (inv_step ih step).2

theorem pops_eq_takes {es : List Event} (h : ∀ elems, .cleared elems ∉ es) :
    pops es = takes es := by
  induction es with
  | nil => rfl
  | cons e es ih =>
    simp only [List.mem_cons, not_or] at h
    have hrest := ih fun elems => (h elems).2
    rw [pops, takes] at *
    rw [List.flatMap_cons, List.flatMap_cons, hrest]
    congr 1
    cases e with
    | cleared elems => exact absurd rfl (h elems).1
    | _ => rfl

/-- In every interleaving the elements taken out are, in order, the first of
those pushed; what is left is what the slots between the indices hold. A push
is refused only by a ring that is full when its tail is loaded, a peeked
element is the oldest one left, and no count exceeds the capacity. -/
theorem ring_linearizable {storage : Image} {es : List Event} {s : State}
    (run : Run g storage es s) :
    takes es <+: pushes es ∧
    ((∀ elems, .cleared elems ∉ es) → pops es <+: pushes es) ∧
    takes es ++ contents g s.storage s.tail (used g s.head s.tail).toNat = pushes es ∧
    (used g s.head s.tail).toNat ≤ g.capacity.toNat ∧
    (∀ s', Step g s .refused s' →
      (pushes es).length = (takes es).length+g.capacity.toNat) ∧
    (∀ s' elem, Step g s (.peeked elem) s' → (pushes es)[(takes es).length]? = some elem) ∧
    ∀ s' count, Step g s (.counted count) s' → count.toNat ≤ g.capacity.toNat := by
  have h := run_inv run
  have horder := h.shared.order
  have hroom := h.shared.room
  refine ⟨horder, ?_, ?_, ?_, fun s' step => (inv_step h step).1,
    fun s' elem step => (inv_step h step).1, fun s' count step => (inv_step h step).1⟩
  · intro hclear
    rw [pops_eq_takes hclear]
    exact horder
  · rw [h.shared.used_eq, h.shared.tail_pos,
      h.shared.contents_eq _ _ (Nat.le_refl _) (by have := h.shared.le; omega)]
    obtain ⟨rest, hrest⟩ := horder
    rw [← hrest]
    simp
  · rw [h.shared.used_eq]
    omega

/-- One byte through a ring of one element: looked at and left there, then taken, while
a second push is refused. -/
theorem one_element_ring : ∃ es s, Run ⟨1, 1⟩ (fun _ => 0) es s ∧
    pushes es = [[7]] ∧ pops es = [[7]] ∧ takes es <+: pushes es := by
  have r1 := Run.step (@Run.start ⟨1, 1⟩ fun _ => 0)
    (.producer (.pushLoadHead [7] rfl rfl))
  have r2 := r1.step (.producer (.pushRoom rfl (by decide)))
  have r3 := r2.step (.producer (.pushCopy rfl (by decide)))
  have r4 := r3.step (.producer (.pushStoreHead rfl))
  have r5 := r4.step (.consumer (.peekLoadTail false rfl))
  have r6 := r5.step (.consumer (.peekFound rfl (by decide)))
  have r7 := r6.step (.consumer (.readFront rfl))
  have r8 := r7.step (.consumer (.peekLoadTail true rfl))
  have r9 := r8.step (.producer (.pushLoadHead [8] rfl rfl))
  have r10 := r9.step (.consumer (.popFound rfl (by decide)))
  have r11 := r10.step (.producer (.pushFull rfl (by decide)))
  have r12 := r11.step (.consumer (.popCopy rfl (by decide)))
  have r13 := r12.step (.consumer (.popLoadTail rfl rfl))
  have r14 := r13.step (.consumer (.dropStoreTail rfl))
  exact ⟨_, _, r14, rfl, rfl, (ring_linearizable r14).1⟩

end JaszczurHal.SpscRing
