import JaszczurHal.BlockStream
import JaszczurHal.ByteImage

/-!
# SHA-256 and HMAC-SHA256

The incremental digest of `jh_sha256.c` and the message authentication code
that `hal_crypto.cpp` builds on it. The digest of a message does not depend on
how the message was split into updates.
-/

set_option autoImplicit false

namespace JaszczurHal.JhSha256
open ByteImage

def JH_SHA256_BLOCK_BYTES : ℕ := 64

structure Words where
  a : UInt32
  b : UInt32
  c : UInt32
  d : UInt32
  e : UInt32
  f : UInt32
  g : UInt32
  h : UInt32
  deriving DecidableEq, Repr

def jhSha256K : List UInt32 :=
  [0x428a2f98, 0x71374491, 0xb5c0fbcf, 0xe9b5dba5, 0x3956c25b, 0x59f111f1, 0x923f82a4, 0xab1c5ed5,
   0xd807aa98, 0x12835b01, 0x243185be, 0x550c7dc3, 0x72be5d74, 0x80deb1fe, 0x9bdc06a7, 0xc19bf174,
   0xe49b69c1, 0xefbe4786, 0x0fc19dc6, 0x240ca1cc, 0x2de92c6f, 0x4a7484aa, 0x5cb0a9dc, 0x76f988da,
   0x983e5152, 0xa831c66d, 0xb00327c8, 0xbf597fc7, 0xc6e00bf3, 0xd5a79147, 0x06ca6351, 0x14292967,
   0x27b70a85, 0x2e1b2138, 0x4d2c6dfc, 0x53380d13, 0x650a7354, 0x766a0abb, 0x81c2c92e, 0x92722c85,
   0xa2bfe8a1, 0xa81a664b, 0xc24b8b70, 0xc76c51a3, 0xd192e819, 0xd6990624, 0xf40e3585, 0x106aa070,
   0x19a4c116, 0x1e376c08, 0x2748774c, 0x34b0bcb5, 0x391c0cb3, 0x4ed8aa4a, 0x5b9cca4f, 0x682e6ff3,
   0x748f82ee, 0x78a5636f, 0x84c87814, 0x8cc70208, 0x90befffa, 0xa4506ceb, 0xbef9a3f7, 0xc67178f2]

def rotr (x n : UInt32) : UInt32 := x >>> n ||| x <<< (32-n)

def extend : ℕ → List UInt32 → List UInt32
  | 0, w => w
  | n+1, w =>
    let w15 := w.getD 14 0
    let w2 := w.getD 1 0
    let s0 := rotr w15 7 ^^^ rotr w15 18 ^^^ w15 >>> 3
    let s1 := rotr w2 17 ^^^ rotr w2 19 ^^^ w2 >>> 10
    extend n ((w.getD 15 0 + s0 + w.getD 6 0 + s1) :: w)

def schedule (block : List UInt8) : List UInt32 :=
  (extend 48 ((List.range 16).map fun i => loadBe32 (ofList block) (4*i)).reverse).reverse

def round (s : Words) (kw : UInt32 × UInt32) : Words :=
  let S1 := rotr s.e 6 ^^^ rotr s.e 11 ^^^ rotr s.e 25
  let ch := s.e &&& s.f ^^^ ~~~s.e &&& s.g
  let temp1 := s.h + S1 + ch + kw.1 + kw.2
  let S0 := rotr s.a 2 ^^^ rotr s.a 13 ^^^ rotr s.a 22
  let maj := s.a &&& s.b ^^^ s.a &&& s.c ^^^ s.b &&& s.c
  let temp2 := S0 + maj
  ⟨temp1 + temp2, s.a, s.b, s.c, s.d + temp1, s.e, s.f, s.g⟩

def compress (s : Words) (block : List UInt8) : Words :=
  let r := (jhSha256K.zip (schedule block)).foldl round s
  ⟨s.a+r.a, s.b+r.b, s.c+r.c, s.d+r.d, s.e+r.e, s.f+r.f, s.g+r.g, s.h+r.h⟩

/-- `jh_sha256_context_t`; `buffer` holds its first `buffer_len` bytes. -/
structure Context where
  state : Words
  bitCount : UInt64
  buffer : List UInt8
  initialized : Bool
  deriving DecidableEq, Repr

def init : Context :=
  { state := ⟨0x6a09e667, 0xbb67ae85, 0x3c6ef372, 0xa54ff53a, 0x510e527f, 0x9b05688c,
      0x1f83d9ab, 0x5be0cd19⟩
    bitCount := 0, buffer := [], initialized := true }

def direct (context : Context) (data : List UInt8) : Context :=
  let r := BlockStream.absorb compress JH_SHA256_BLOCK_BYTES context.state data
  { context with state := r.1, buffer := r.2 }

def update (context : Context) (data : List UInt8) : Context :=
  if data = [] then context
  else
    let context := { context with bitCount := context.bitCount + UInt64.ofNat data.length * 8 }
    if context.buffer = [] then direct context data
    else
      let needed := JH_SHA256_BLOCK_BYTES-context.buffer.length
      let take := min data.length needed
      let filled := context.buffer ++ data.take take
      if filled.length = JH_SHA256_BLOCK_BYTES then
        direct { context with state := compress context.state filled, buffer := [] }
          (data.drop take)
      else { context with buffer := filled }

def padZeros : ℕ → Context → Context
  | 0, context => context
  | n+1, context =>
    if context.buffer.length = JH_SHA256_BLOCK_BYTES-8 then context
    else padZeros n (update context [0])

def storeBe64 (v : UInt64) : List UInt8 :=
  storeBe32 (v >>> 32).toUInt32 ++ storeBe32 v.toUInt32

def digestBytes (s : Words) : List UInt8 :=
  [s.a, s.b, s.c, s.d, s.e, s.f, s.g, s.h].flatMap storeBe32

def final (context : Context) : List UInt8 × Context :=
  let padded := padZeros JH_SHA256_BLOCK_BYTES (update context [0x80])
  let done := update padded (storeBe64 context.bitCount)
  (digestBytes done.state, { done with initialized := false })

def halSha256 (message : List UInt8) : List UInt8 := (final (update init message)).1

def halHmacSha256 (key message : List UInt8) : List UInt8 :=
  let key := if JH_SHA256_BLOCK_BYTES < key.length then halSha256 key else key
  let keyBlock := key ++ List.replicate (JH_SHA256_BLOCK_BYTES-key.length) 0
  let inner := (final (update (update init (keyBlock.map (· ^^^ 0x36))) message)).1
  (final (update (update init (keyBlock.map (· ^^^ 0x5c))) inner)).1

/-- What an update leaves, as if the buffered bytes came with the data. -/
theorem update_eq (context : Context) (data : List UInt8)
    (h : context.buffer.length < JH_SHA256_BLOCK_BYTES) :
    update context data =
      let r := BlockStream.absorb compress JH_SHA256_BLOCK_BYTES context.state
        (context.buffer ++ data)
      { context with
        state := r.1
        bitCount := context.bitCount + UInt64.ofNat data.length * 8
        buffer := r.2 } := by
  have hpos : 0 < JH_SHA256_BLOCK_BYTES := by decide
  by_cases hnil : data = []
  · subst hnil
    rw [update, if_pos rfl, List.append_nil, BlockStream.absorb_short _ h]
    simp
  rw [update, if_neg hnil]
  dsimp only
  by_cases hempty : context.buffer = []
  · rw [if_pos hempty, direct, hempty, List.nil_append]
  rw [if_neg hempty]
  generalize hneeded : JH_SHA256_BLOCK_BYTES-context.buffer.length = needed
  by_cases hfull : needed ≤ data.length
  · have hlen : (context.buffer ++ data.take needed).length = JH_SHA256_BLOCK_BYTES := by
      rw [List.length_append, List.length_take]
      omega
    have hsplit : context.buffer ++ data =
        (context.buffer ++ data.take needed) ++ data.drop needed := by
      rw [List.append_assoc, List.take_append_drop]
    rw [Nat.min_eq_right hfull, if_pos hlen, direct, hsplit,
      BlockStream.absorb_block _ hpos hlen]
  · have hshort : (context.buffer ++ data).length < JH_SHA256_BLOCK_BYTES := by
      rw [List.length_append]
      omega
    rw [Nat.min_eq_left (by omega), List.take_length, if_neg hshort.ne,
      BlockStream.absorb_short _ hshort]

theorem update_buffer_lt (context : Context) (data : List UInt8)
    (h : context.buffer.length < JH_SHA256_BLOCK_BYTES) :
    (update context data).buffer.length < JH_SHA256_BLOCK_BYTES := by
  rw [update_eq context data h]
  exact BlockStream.absorb_rest_lt _ _ (by decide)

theorem update_append (context : Context) (a b : List UInt8)
    (h : context.buffer.length < JH_SHA256_BLOCK_BYTES) :
    update (update context a) b = update context (a ++ b) := by
  have hbits : UInt64.ofNat (a ++ b).length * 8 =
      UInt64.ofNat a.length * 8 + UInt64.ofNat b.length * 8 := by
    rw [List.length_append, UInt64.ofNat_add, UInt64.add_mul]
  rw [update_eq _ b (update_buffer_lt context a h), update_eq context a h,
    update_eq context (a ++ b) h, ← List.append_assoc,
    BlockStream.absorb_append _ (context.buffer ++ a) b (by decide), hbits, UInt64.add_assoc]

theorem update_initialized (context : Context) (data : List UInt8)
    (h : context.buffer.length < JH_SHA256_BLOCK_BYTES) :
    (update context data).initialized = context.initialized := by
  rw [update_eq context data h]

/-- The running digest of everything absorbed so far. -/
theorem update_absorbed (a b : List UInt8) : update (update init a) b = update init (a ++ b) :=
  update_append init a b (by decide)

def padding (length : ℕ) (bits : UInt64) : List UInt8 :=
  0x80 :: List.replicate ((JH_SHA256_BLOCK_BYTES-9 + JH_SHA256_BLOCK_BYTES-length) %
    JH_SHA256_BLOCK_BYTES) 0 ++ storeBe64 bits

theorem update_buffer_length (context : Context) (data : List UInt8)
    (h : context.buffer.length < JH_SHA256_BLOCK_BYTES) :
    (update context data).buffer.length =
      (context.buffer.length+data.length) % JH_SHA256_BLOCK_BYTES := by
  rw [update_eq context data h]
  show (BlockStream.absorb compress JH_SHA256_BLOCK_BYTES _ _).2.length = _
  rw [BlockStream.absorb_rest_length, List.length_append]

theorem padZeros_eq (n : ℕ) (context : Context)
    (h : context.buffer.length < JH_SHA256_BLOCK_BYTES)
    (hn : (120-context.buffer.length) % 64 ≤ n) :
    padZeros n context = update context (List.replicate ((120-context.buffer.length) % 64) 0) := by
  have hblock : JH_SHA256_BLOCK_BYTES = 64 := rfl
  induction n generalizing context with
  | zero =>
    rw [Nat.le_zero.mp hn]
    rfl
  | succ n ih =>
    rw [padZeros]
    by_cases hfull : context.buffer.length = JH_SHA256_BLOCK_BYTES-8
    · rw [if_pos hfull, hfull]
      rfl
    · have hlength : (update context [0]).buffer.length = (context.buffer.length+1) % 64 :=
        update_buffer_length context [0] h
      have hless : (120-(update context [0]).buffer.length) % 64+1 =
          (120-context.buffer.length) % 64 := by
        rw [hlength]
        omega
      rw [if_neg hfull, ih _ (update_buffer_lt context [0] h) (by omega),
        update_append context _ _ h, ← hless]
      rfl

theorem final_padded (context : Context) (h : context.buffer.length < JH_SHA256_BLOCK_BYTES) :
    (final context).1 = digestBytes (BlockStream.absorb compress JH_SHA256_BLOCK_BYTES context.state
      (context.buffer ++ padding context.buffer.length context.bitCount)).1 := by
  have hblock : JH_SHA256_BLOCK_BYTES = 64 := rfl
  have hlength := update_buffer_length context [0x80] h
  have hzeros : (120-(update context [0x80]).buffer.length) % 64 =
      (64-9+64-context.buffer.length) % 64 := by
    rw [hlength, hblock, List.length_singleton]
    omega
  have hpad : padZeros JH_SHA256_BLOCK_BYTES (update context [0x80]) = update (update context [0x80])
      (List.replicate ((64-9+64-context.buffer.length) % 64) 0) := by
    rw [← hzeros]
    exact padZeros_eq _ _ (update_buffer_lt context _ h) (by omega)
  rw [final, hpad, update_append context _ _ h, update_append context _ _ h]
  dsimp only
  rw [update_eq context _ h]
  rfl

/-- The digest is that of the message padded as a whole. -/
theorem halSha256_padded (message : List UInt8) : halSha256 message =
    digestBytes (BlockStream.absorb compress JH_SHA256_BLOCK_BYTES init.state
      (message ++ padding (message.length % JH_SHA256_BLOCK_BYTES)
        (UInt64.ofNat message.length * 8))).1 := by
  rw [halSha256, final_padded _ (update_buffer_lt init message (by decide)),
    update_buffer_length init message (by decide), update_eq init message (by decide)]
  show digestBytes (BlockStream.absorb compress JH_SHA256_BLOCK_BYTES
    (BlockStream.absorb compress JH_SHA256_BLOCK_BYTES init.state ([] ++ message)).1
    ((BlockStream.absorb compress JH_SHA256_BLOCK_BYTES init.state ([] ++ message)).2 ++
      padding ((0+message.length) % JH_SHA256_BLOCK_BYTES) (0+UInt64.ofNat message.length*8))).1 = _
  rw [← BlockStream.absorb_append _ _ _ (by decide), Nat.zero_add, UInt64.zero_add,
    List.nil_append]

/-- The code of RFC 2104, for a key of at most one block. -/
theorem halHmacSha256_nested (key message : List UInt8) (h : key.length ≤ JH_SHA256_BLOCK_BYTES) :
    let block := key ++ List.replicate (JH_SHA256_BLOCK_BYTES-key.length) 0
    halHmacSha256 key message =
      halSha256 (block.map (· ^^^ 0x5c) ++ halSha256 (block.map (· ^^^ 0x36) ++ message)) := by
  rw [halHmacSha256, if_neg (Nat.not_lt.mpr h)]
  dsimp only
  rw [update_absorbed, update_absorbed]
  rfl

def turn (x n : ℕ) : ℕ := x >>> n ||| x <<< (32-n) % 4294967296

def extendNat : ℕ → List ℕ → List ℕ
  | 0, w => w
  | n+1, w =>
    let w15 := w.getD 14 0
    let w2 := w.getD 1 0
    let s0 := turn w15 7 ^^^ turn w15 18 ^^^ w15 >>> 3
    let s1 := turn w2 17 ^^^ turn w2 19 ^^^ w2 >>> 10
    extendNat n ((w.getD 15 0 + s0 + w.getD 6 0 + s1) % 4294967296 :: w)

def roundsNat : List ℕ → List ℕ → ℕ → ℕ → ℕ → ℕ → ℕ → ℕ → ℕ → ℕ → List ℕ
  | k :: ks, w :: ws, a, b, c, d, e, f, g, h =>
    let temp1 := h + (turn e 6 ^^^ turn e 11 ^^^ turn e 25) +
      (e &&& f ^^^ (4294967296-1-e) &&& g) + k + w
    let temp2 := (turn a 2 ^^^ turn a 13 ^^^ turn a 22) +
      (a &&& b ^^^ a &&& c ^^^ b &&& c)
    roundsNat ks ws ((temp1+temp2) % 4294967296) a b c ((d+temp1) % 4294967296) e f g
  | _, _, a, b, c, d, e, f, g, h => [a, b, c, d, e, f, g, h]

def Words.numbers (s : Words) : List ℕ :=
  [s.a.toNat, s.b.toNat, s.c.toNat, s.d.toNat, s.e.toNat, s.f.toNat, s.g.toNat, s.h.toNat]

theorem rotr_toNat (x : UInt32) {n : ℕ} (hn : n < 32) (hpos : 0 < n) :
    (rotr x (UInt32.ofNat n)).toNat = turn x.toNat n := by
  have hturn : (32-UInt32.ofNat n).toNat = 32-n := by
    rw [UInt32.toNat_sub_of_le _ _ (by rw [UInt32.le_iff_toNat_le]; simp; omega)]
    simp
    omega
  rw [rotr, UInt32.toNat_or, UInt32.toNat_shiftRight, UInt32.toNat_shiftLeft, hturn, turn]
  simp
  rw [Nat.mod_eq_of_lt hn, Nat.mod_eq_of_lt (by omega : 32-n < 32)]

theorem getD_toNat (w : List UInt32) (i : ℕ) :
    (w.getD i 0).toNat = (w.map UInt32.toNat).getD i 0 := by
  rw [List.getD_eq_getElem?_getD, List.getD_eq_getElem?_getD, List.getElem?_map]
  cases w[i]? <;> rfl

theorem extend_toNat (n : ℕ) (w : List UInt32) :
    (extend n w).map UInt32.toNat = extendNat n (w.map UInt32.toNat) := by
  induction n generalizing w with
  | zero => rfl
  | succ n ih =>
    have h := @rotr_toNat
    rw [extend, extendNat, ih, List.map_cons]
    simp only [UInt32.toNat_add, UInt32.toNat_xor, UInt32.toNat_shiftRight, ← getD_toNat]
    rw [← h (w.getD 14 0) (n := 7) (by decide) (by decide),
      ← h (w.getD 14 0) (n := 18) (by decide) (by decide),
      ← h (w.getD 1 0) (n := 17) (by decide) (by decide),
      ← h (w.getD 1 0) (n := 19) (by decide) (by decide)]
    simp

theorem round_toNat (ks : List UInt32) (ws : List UInt32) (s : Words) :
    ((ks.zip ws).foldl round s).numbers =
      roundsNat (ks.map UInt32.toNat) (ws.map UInt32.toNat) s.a.toNat s.b.toNat s.c.toNat
        s.d.toNat s.e.toNat s.f.toNat s.g.toNat s.h.toNat := by
  induction ks generalizing ws s with
  | nil => rfl
  | cons k ks ih =>
    cases ws with
    | nil => rfl
    | cons w ws =>
      have h := @rotr_toNat
      rw [List.zip_cons_cons, List.foldl_cons, ih, List.map_cons, List.map_cons, roundsNat]
      rw [← h s.e (n := 6) (by decide) (by decide), ← h s.e (n := 11) (by decide) (by decide),
        ← h s.e (n := 25) (by decide) (by decide), ← h s.a (n := 2) (by decide) (by decide),
        ← h s.a (n := 13) (by decide) (by decide), ← h s.a (n := 22) (by decide) (by decide)]
      simp [round]

theorem numbers_inj {s t : Words} (h : s.numbers = t.numbers) : s = t := by
  cases s
  cases t
  simp only [Words.numbers, List.cons.injEq, UInt32.toNat_inj] at h
  simp [h]

def compressNat (s : Words) (block : List UInt8) : List ℕ :=
  let words := (List.range 16).map fun i => (loadBe32 (ofList block) (4*i)).toNat
  List.zipWith (fun x y => (x+y) % 4294967296) s.numbers
    (roundsNat (jhSha256K.map UInt32.toNat) (extendNat 48 words.reverse).reverse s.a.toNat s.b.toNat
      s.c.toNat s.d.toNat s.e.toNat s.f.toNat s.g.toNat s.h.toNat)

theorem compress_of_numbers {s t : Words} {block : List UInt8} (h : compressNat s block = t.numbers) :
    compress s block = t := by
  apply numbers_inj
  have hschedule : (schedule block).map UInt32.toNat = (extendNat 48 ((List.range 16).map fun i =>
      (loadBe32 (ofList block) (4*i)).toNat).reverse).reverse := by
    rw [schedule, List.map_reverse, extend_toNat, List.map_reverse, List.map_map]
    rfl
  rw [← h, compressNat, ← hschedule, ← round_toNat, compress]
  simp [Words.numbers]

theorem halSha256_blocks {message : List UInt8} {n : ℕ}
    (h : (message.length+9)/JH_SHA256_BLOCK_BYTES+(if (message.length+9) % 64 = 0 then 0 else 1) = n) :
    halSha256 message = digestBytes (BlockStream.blocks compress JH_SHA256_BLOCK_BYTES n init.state
      (message ++ padding (message.length % JH_SHA256_BLOCK_BYTES)
        (UInt64.ofNat message.length * 8))).1 := by
  have hblock : JH_SHA256_BLOCK_BYTES = 64 := rfl
  have hzeros : (storeBe64 (UInt64.ofNat message.length * 8)).length = 8 := rfl
  rw [halSha256_padded, BlockStream.absorb, ← h]
  congr 3
  rw [padding, List.length_append, List.length_append, List.length_cons, List.length_replicate,
    hzeros, hblock]
  split_ifs with hfull <;> omega

theorem blocks_step {s t : Words} {n : ℕ} {bytes : List UInt8}
    (h : compressNat s (bytes.take JH_SHA256_BLOCK_BYTES) = t.numbers) :
    BlockStream.blocks compress JH_SHA256_BLOCK_BYTES (n+1) s bytes =
      BlockStream.blocks compress JH_SHA256_BLOCK_BYTES n t (bytes.drop JH_SHA256_BLOCK_BYTES) := by
  rw [BlockStream.blocks, compress_of_numbers h]

/-- The three letters "abc", as in FIPS 180-4. -/
example : (halSha256 [97, 98, 99]).take 4 = [0xba, 0x78, 0x16, 0xbf] := by decide +kernel

end JaszczurHal.JhSha256
