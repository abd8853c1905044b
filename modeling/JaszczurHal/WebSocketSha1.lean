import JaszczurHal.CheckedArith
import JaszczurHal.JhSha256
import JaszczurHal.Sha1Standard

/-!
# The digest of the WebSocket handshake

The incremental SHA-1 of the handshake with its block buffer. Padding goes
through the same updates, one byte at a time.
-/

set_option autoImplicit false

namespace JaszczurHal.WebSocketSha1
open CheckedArith ByteImage
open Sha1Standard (Hash)
open JhSha256 (storeBe64)

def blockBytes : ℕ := 64

def rotl32 (value bits : UInt32) : UInt32 := value <<< bits ||| value >>> (32-bits)

structure Sha1 where
  state : Hash
  bitLen : UInt64
  buffer : List UInt8
  deriving DecidableEq, Repr

def schedule (block : List UInt8) : List UInt32 :=
  (List.range' 16 64).foldl (fun w i => w ++ [rotl32 (w.getD (i-3) 0 ^^^ w.getD (i-8) 0 ^^^
    w.getD (i-14) 0 ^^^ w.getD (i-16) 0) 1])
    ((List.range 16).map fun i => loadBe32 (ofList block) (i*4))

def turn (w : List UInt32) (s : Hash) (i : ℕ) : Hash :=
  let fk : UInt32 × UInt32 :=
    if i < 20 then ((s.b &&& s.c) ||| (~~~s.b &&& s.d), 0x5a827999)
    else if i < 40 then (s.b ^^^ s.c ^^^ s.d, 0x6ed9eba1)
    else if i < 60 then ((s.b &&& s.c) ||| (s.b &&& s.d) ||| (s.c &&& s.d), 0x8f1bbcdc)
    else (s.b ^^^ s.c ^^^ s.d, 0xca62c1d6)
  let temp := rotl32 s.a 5+fk.1+s.e+fk.2+w.getD i 0
  ⟨temp, s.a, rotl32 s.b 30, s.c, s.d⟩

def transform (s : Hash) (block : List UInt8) : Hash :=
  let r := (List.range 80).foldl (turn (schedule block)) s
  ⟨s.a+r.a, s.b+r.b, s.c+r.c, s.d+r.d, s.e+r.e⟩

def init : Sha1 :=
  { state := ⟨0x67452301, 0xefcdab89, 0x98badcfe, 0x10325476, 0xc3d2e1f0⟩
    bitLen := 0, buffer := [] }

def updateLoop : ℕ → Sha1 → List UInt8 → Checked Sha1
  | 0, _, _ => .error .unfinished
  | fuel+1, ctx, data =>
    if data = [] then pure ctx
    else
      let space := blockBytes-ctx.buffer.length
      let take := min data.length space
      if blockBytes < ctx.buffer.length+take then .error .outOfBounds
      else
        let filled := ctx.buffer ++ data.take take
        let ctx :=
          if filled.length = blockBytes then
            { ctx with state := transform ctx.state filled, buffer := [] }
          else { ctx with buffer := filled }
        updateLoop fuel ctx (data.drop take)

def update (ctx : Sha1) (data : List UInt8) : Checked Sha1 :=
  if data = [] then pure ctx
  else updateLoop (data.length+1) { ctx with bitLen := ctx.bitLen+UInt64.ofNat data.length*8 } data

def padZeros : ℕ → Sha1 → Checked Sha1
  | 0, _ => .error .unfinished
  | fuel+1, ctx =>
    if ctx.buffer.length = 56 then pure ctx
    else do
      let ctx :=
        if ctx.buffer.length = blockBytes then
          { ctx with state := transform ctx.state ctx.buffer, buffer := [] }
        else ctx
      let ctx ← update ctx [0]
      padZeros fuel ctx

def digestBytes (s : Hash) : List UInt8 := [s.a, s.b, s.c, s.d, s.e].flatMap storeBe32

def final (fuel : ℕ) (ctx : Sha1) : Checked (List UInt8) := do
  let originalBitLen := ctx.bitLen
  let ctx ← update ctx [0x80]
  let ctx ← padZeros fuel ctx
  let ctx ← update ctx (storeBe64 originalBitLen)
  pure (digestBytes ctx.state)

theorem ch_or (x y z : UInt32) : (x &&& y) ||| (~~~x &&& z) = Sha1Standard.ch x y z := by
  apply UInt32.toBitVec_inj.mp
  simp only [Sha1Standard.ch, UInt32.toBitVec_or, UInt32.toBitVec_and, UInt32.toBitVec_xor,
    UInt32.toBitVec_not]
  ext i hi
  simp only [BitVec.getElem_or, BitVec.getElem_and, BitVec.getElem_xor, BitVec.getElem_not]
  cases x.toBitVec[i] <;> simp

theorem maj_or (x y z : UInt32) :
    (x &&& y) ||| (x &&& z) ||| (y &&& z) = Sha1Standard.maj x y z := by
  apply UInt32.toBitVec_inj.mp
  simp only [Sha1Standard.maj, UInt32.toBitVec_or, UInt32.toBitVec_and, UInt32.toBitVec_xor]
  ext i hi
  simp only [BitVec.getElem_or, BitVec.getElem_and, BitVec.getElem_xor]
  cases x.toBitVec[i] <;> cases y.toBitVec[i] <;> simp

theorem blockWord_load (block : List UInt8) (t : ℕ) :
    loadBe32 (ofList block) (t*4) = Sha1Standard.blockWord block t := by
  have h0 := (ofList block (t*4)).toNat_lt
  have h1 := (ofList block (t*4+1)).toNat_lt
  have h2 := (ofList block (t*4+2)).toNat_lt
  have h3 := (ofList block (t*4+3)).toNat_lt
  apply UInt32.toNat_inj.mp
  rw [toNat_loadBe32, Sha1Standard.blockWord, Nat.mul_comm 4 t]
  unfold ofList at h0 h1 h2 h3 ⊢
  rw [UInt32.toNat_ofNat_of_lt' (show _ < 2^32 by omega)]
  omega

theorem getD_words (f : ℕ → UInt32) {n j : ℕ} (h : j < n) :
    ((List.range n).map f).getD j 0 = f j := by
  rw [List.getD_eq_getElem?_getD, List.getElem?_map, List.getElem?_range h, Option.map_some,
    Option.getD_some]

theorem schedule_words (block : List UInt8) :
    schedule block = (List.range 80).map (Sha1Standard.word block) := by
  have hfirst : (List.range 16).map (fun i => loadBe32 (ofList block) (i*4)) =
      (List.range 16).map (Sha1Standard.word block) := by
    apply List.map_congr_left
    intro t ht
    rw [Sha1Standard.word, if_pos (List.mem_range.mp ht), blockWord_load]
  have hmore : ∀ n, (List.range' 16 n).foldl (fun w i => w ++ [rotl32 (w.getD (i-3) 0 ^^^
      w.getD (i-8) 0 ^^^ w.getD (i-14) 0 ^^^ w.getD (i-16) 0) 1])
      ((List.range 16).map (Sha1Standard.word block)) =
      (List.range (16+n)).map (Sha1Standard.word block) := by
    intro n
    induction n with
    | zero => rfl
    | succ n ih =>
      rw [List.range'_1_concat, List.foldl_append, ih, List.foldl_cons, List.foldl_nil,
        getD_words _ (by omega), getD_words _ (by omega), getD_words _ (by omega),
        getD_words _ (by omega), ← Nat.add_assoc, List.range_succ, List.map_append,
        List.map_singleton]
      conv_rhs => rw [Sha1Standard.word, if_neg (by omega)]
      rfl
  rw [schedule, hfirst]
  exact hmore 64

theorem turn_round (block : List UInt8) (s : Hash) {i : ℕ} (hi : i < 80) :
    turn (schedule block) s i = Sha1Standard.round block s i := by
  rw [turn, Sha1Standard.round, schedule_words, getD_words _ hi, Sha1Standard.function,
    Sha1Standard.constant]
  by_cases h20 : i < 20
  · simp only [if_pos h20, ch_or]
    rfl
  by_cases h40 : i < 40
  · simp only [if_neg h20, if_pos h40]
    rfl
  by_cases h60 : i < 60
  · simp only [if_neg h20, if_neg h40, if_pos h60, maj_or]
    rfl
  simp only [if_neg h20, if_neg h40, if_neg h60]
  rfl

theorem transform_compress (s : Hash) (block : List UInt8) :
    transform s block = Sha1Standard.compress s block := by
  have hrounds : (List.range 80).foldl (turn (schedule block)) s =
      (List.range 80).foldl (Sha1Standard.round block) s :=
    List.foldl_ext _ _ _ fun t i hi => turn_round block t (List.mem_range.mp hi)
  rw [transform, Sha1Standard.compress, hrounds, UInt32.add_comm s.a, UInt32.add_comm s.b,
    UInt32.add_comm s.c, UInt32.add_comm s.d, UInt32.add_comm s.e]

def absorbed (message : List UInt8) : Sha1 :=
  let r := BlockStream.absorb Sha1Standard.compress blockBytes Sha1Standard.initial message
  ⟨r.1, UInt64.ofNat message.length*8, r.2⟩

theorem absorbed_buffer (message : List UInt8) :
    (absorbed message).buffer.length = message.length%64 := by
  have hmod := Nat.div_add_mod message.length 64
  rw [absorbed]
  dsimp only
  rw [BlockStream.absorb, BlockStream.blocks_rest, List.length_drop]
  unfold blockBytes
  omega

/-- The loop compresses every block that fills and keeps the rest. -/
theorem updateLoop_absorb (fuel : ℕ) (ctx : Sha1) (data : List UInt8)
    (hbuffer : ctx.buffer.length < blockBytes) (hfuel : data.length < fuel) :
    updateLoop fuel ctx data =
      let r := BlockStream.absorb Sha1Standard.compress blockBytes ctx.state (ctx.buffer ++ data)
      .ok { ctx with state := r.1, buffer := r.2 } := by
  induction fuel generalizing ctx data with
  | zero => omega
  | succ fuel ih =>
    rw [updateLoop]
    by_cases hnil : data = []
    · rw [if_pos hnil, hnil, List.append_nil, BlockStream.absorb_short _ hbuffer]
      rfl
    have hlength : 0 < data.length := List.length_pos_iff.mpr hnil
    rw [if_neg hnil]
    dsimp only
    generalize hspace : blockBytes-ctx.buffer.length = space
    rw [if_neg (by omega)]
    by_cases hfull : space ≤ data.length
    · have hfilled : (ctx.buffer ++ data.take space).length = blockBytes := by
        rw [List.length_append, List.length_take]
        omega
      have hsplit : ctx.buffer ++ data = (ctx.buffer ++ data.take space) ++ data.drop space := by
        rw [List.append_assoc, List.take_append_drop]
      have hempty : ([] : List UInt8).length < blockBytes := by decide
      have hrest : (data.drop space).length < fuel := by
        rw [List.length_drop]
        omega
      rw [Nat.min_eq_right hfull, if_pos hfilled, ih _ _ hempty hrest, hsplit,
        BlockStream.absorb_block _ (by decide) hfilled, transform_compress]
      rfl
    · have hshort : (ctx.buffer ++ data).length < blockBytes := by
        rw [List.length_append]
        omega
      rw [Nat.min_eq_left (by omega), List.take_length, if_neg hshort.ne, List.drop_length,
        ih _ _ hshort (by rw [List.length_nil]; omega), List.append_nil]

/-- An update goes on where the message so far ends. -/
theorem update_absorbed (message data : List UInt8) :
    update (absorbed message) data = .ok (absorbed (message ++ data)) := by
  have hbuffer : (absorbed message).buffer.length < blockBytes := by
    rw [absorbed_buffer]
    exact Nat.mod_lt _ (by decide)
  rw [update]
  by_cases hnil : data = []
  · rw [if_pos hnil, hnil, List.append_nil]
    rfl
  have hbits : UInt64.ofNat message.length*8+UInt64.ofNat data.length*8 =
      UInt64.ofNat (message ++ data).length*8 := by
    rw [List.length_append, UInt64.ofNat_add, UInt64.add_mul]
  have hloop := updateLoop_absorb (data.length+1)
    { absorbed message with bitLen := (absorbed message).bitLen+UInt64.ofNat data.length*8 } data
    hbuffer (Nat.lt_succ_self _)
  rw [if_neg hnil, hloop]
  dsimp only [absorbed]
  rw [hbits, BlockStream.absorb_append _ message data (by decide)]

theorem updates_absorbed (pieces : List (List UInt8)) (message : List UInt8) :
    pieces.foldlM update (absorbed message) = .ok (absorbed (message ++ pieces.flatten)) := by
  induction pieces generalizing message with
  | nil =>
    rw [List.flatten_nil, List.append_nil]
    rfl
  | cons data rest ih =>
    rw [List.foldlM_cons, update_absorbed, ok_bind, ih, List.flatten_cons, List.append_assoc]

theorem init_absorbed : init = absorbed [] := rfl

/-- Zeros are added until the buffer holds 56 bytes, whatever it held. -/
theorem padZeros_absorbed (count fuel : ℕ) (message : List UInt8) (hfuel : count < fuel)
    (hend : (message.length+count)%64 = 56)
    (hbefore : ∀ k < count, (message.length+k)%64 ≠ 56) :
    padZeros fuel (absorbed message) =
      .ok (absorbed (message ++ List.replicate count 0)) := by
  induction count generalizing fuel message with
  | zero =>
    obtain ⟨fuel, rfl⟩ := Nat.exists_eq_succ_of_ne_zero (show fuel ≠ 0 by omega)
    rw [padZeros, if_pos (by rw [absorbed_buffer]; exact hend), List.replicate_zero,
      List.append_nil]
    rfl
  | succ count ih =>
    obtain ⟨fuel, rfl⟩ := Nat.exists_eq_succ_of_ne_zero (show fuel ≠ 0 by omega)
    have hbuffer := absorbed_buffer message
    have hfull : (absorbed message).buffer.length ≠ blockBytes := by
      rw [hbuffer]
      exact (Nat.mod_lt _ (by decide)).ne
    have hmore : ¬ (absorbed message).buffer.length = 56 := by
      rw [hbuffer]
      exact hbefore 0 (by omega)
    rw [padZeros, if_neg hmore]
    dsimp only
    rw [if_neg hfull, update_absorbed, ok_bind, ih fuel (message ++ [0]) (by omega),
      List.append_assoc]
    · rfl
    · rw [List.length_append, List.length_singleton]
      omega
    · intro k hk
      have hnext := hbefore (k+1) (by omega)
      rw [List.length_append, List.length_singleton]
      omega

theorem toUInt8_shift (v k : UInt32) :
    (v >>> k).toUInt8 = UInt8.ofNat (v.toNat/2^(k.toNat%32)) := by
  apply UInt8.toNat_inj.mp
  rw [UInt32.toNat_toUInt8, UInt32.toNat_shiftRight, Nat.shiftRight_eq_div_pow, UInt8.toNat_ofNat']

theorem storeBe32_bigEndian (v : UInt32) : storeBe32 v = Sha1Standard.bigEndian 4 v.toNat := by
  have hlast : v.toUInt8 = UInt8.ofNat (v.toNat/1) := by
    apply UInt8.toNat_inj.mp
    rw [UInt32.toNat_toUInt8, Nat.div_one, UInt8.toNat_ofNat']
  rw [storeBe32, toUInt8_shift, toUInt8_shift, toUInt8_shift, hlast]
  rfl

theorem ofNat_mod {m n : ℕ} (h : m%256 = n%256) : UInt8.ofNat m = UInt8.ofNat n := by
  apply UInt8.toNat_inj.mp
  rw [UInt8.toNat_ofNat', UInt8.toNat_ofNat']
  exact h

theorem bigEndian_halves (n : ℕ) : Sha1Standard.bigEndian 8 n =
    Sha1Standard.bigEndian 4 (n/2^32) ++ Sha1Standard.bigEndian 4 (n%2^32) := by
  have hupper : ∀ i < 4, n/256^(8-1-i) = n/2^32/256^(4-1-i) := by
    intro i hi
    rw [Nat.div_div_eq_div_mul]
    interval_cases i <;> rfl
  have hlower : ∀ i < 4, UInt8.ofNat (n/256^(8-1-(4+i))) = UInt8.ofNat (n%2^32/256^(4-1-i)) := by
    intro i hi
    apply ofNat_mod
    interval_cases i <;> omega
  rw [Sha1Standard.bigEndian, show (8 : ℕ) = 4+4 from rfl, List.range_add, List.map_append,
    List.map_map]
  congr 1
  · apply List.map_congr_left
    intro i hi
    exact congrArg UInt8.ofNat (hupper i (List.mem_range.mp hi))
  · apply List.map_congr_left
    intro i hi
    exact hlower i (List.mem_range.mp hi)

theorem storeBe64_bigEndian {n : ℕ} (h : n < 2^64) :
    storeBe64 (UInt64.ofNat n) = Sha1Standard.bigEndian 8 n := by
  have hvalue : (UInt64.ofNat n).toNat = n := UInt64.toNat_ofNat_of_lt' h
  have hupper : ((UInt64.ofNat n) >>> 32).toUInt32.toNat = n/2^32 := by
    rw [UInt64.toNat_toUInt32, UInt64.toNat_shiftRight, hvalue, Nat.shiftRight_eq_div_pow]
    exact Nat.mod_eq_of_lt (Nat.div_lt_of_lt_mul (by
      show n < 2^32*2^32
      omega))
  have hlower : (UInt64.ofNat n).toUInt32.toNat = n%2^32 := by
    rw [UInt64.toNat_toUInt32, hvalue]
  rw [storeBe64, storeBe32_bigEndian, storeBe32_bigEndian, hupper, hlower, bigEndian_halves]

/-- However a message is cut into updates, the final digest is the one of the
standard for the whole message, and 64 turns of the padding loop are enough. -/
theorem final_digest (pieces : List (List UInt8)) (hlength : 8*pieces.flatten.length < 2^64)
    (fuel : ℕ) (hfuel : 64 ≤ fuel) :
    (pieces.foldlM update init >>= final fuel) = .ok (Sha1Standard.digest pieces.flatten) := by
  generalize hmessage : pieces.flatten = message at hlength ⊢
  obtain ⟨hend, hbefore⟩ := Sha1Standard.zeros_least message.length
  have hzeros : Sha1Standard.zeros message.length < fuel :=
    (Nat.mod_lt _ (by decide : 0 < 64)).trans_le hfuel
  have hbits : (absorbed message).bitLen = UInt64.ofNat (8*message.length) := by
    rw [absorbed, Nat.mul_comm, UInt64.ofNat_mul]
    rfl
  have hpadded : message ++ [0x80] ++ List.replicate (Sha1Standard.zeros message.length) 0 ++
      storeBe64 (absorbed message).bitLen = Sha1Standard.padded message := by
    rw [hbits, storeBe64_bigEndian hlength, Sha1Standard.padded]
  have hone : (message ++ [0x80]).length = message.length+1 := by
    rw [List.length_append, List.length_singleton]
  rw [init_absorbed, updates_absorbed, hmessage, List.nil_append, ok_bind, final, update_absorbed,
    ok_bind, padZeros_absorbed (Sha1Standard.zeros message.length) fuel _ hzeros
      (by rw [hone]; exact hend) (by rw [hone]; exact hbefore), ok_bind, update_absorbed, ok_bind,
    hpadded, digestBytes, funext storeBe32_bigEndian]
  rfl

/-- The three letters "abc" in two pieces, as in the standard. -/
theorem final_digest_abc :
    ([[97], [98, 99]].foldlM update init >>= final 64) =
      .ok (Sha1Standard.digest [97, 98, 99]) :=
  final_digest [[97], [98, 99]] (by decide) 64 (by decide)

example : ([[97], [98, 99]].foldlM update init >>= final 64).map (·.take 4) =
    .ok [0xa9, 0x99, 0x3e, 0x36] := by decide +kernel

end JaszczurHal.WebSocketSha1
