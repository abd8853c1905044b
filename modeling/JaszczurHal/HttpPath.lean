import JaszczurHal.HalStatus
import JaszczurHal.WebSocketHandshake

/-!
# Paths of the HTTP file service

A request names a file by an escaped URL path, an upload by a directory field
and a file name. Each is decoded, checked and joined to the root of its mount
in buffers of one size.
-/

set_option autoImplicit false

namespace JaszczurHal.HttpPath
open HalStatus
open WebSocketHandshake (ascii)

def slash : UInt8 := 47
def backslash : UInt8 := 92
def percent : UInt8 := 37
def plus : UInt8 := 43
def space : UInt8 := 32
def dot : List UInt8 := [46]
def dotDot : List UInt8 := [46, 46]

structure CString where
  bytes : List UInt8
  noNul : 0 ∉ bytes

def ofText (text : String) (h : 0 ∉ ascii text := by decide) : CString := ⟨ascii text, h⟩

def hexValue (c : UInt8) : Option UInt8 :=
  if 48 ≤ c ∧ c ≤ 57 then some (c-48)
  else if 97 ≤ c ∧ c ≤ 102 then some (c-97+10)
  else if 65 ≤ c ∧ c ≤ 70 then some (c-65+10)
  else none

def store (size pos : ℕ) (c : UInt8) (tail : Except Status (List UInt8)) :
    Except Status (List UInt8) :=
  if c = 0 ∨ c = backslash then .error .einval
  else if size ≤ pos+1 then .error .eoverflow
  else tail.map (c :: ·)

def decodeFrom (size : ℕ) : ℕ → List UInt8 → Except Status (List UInt8)
  | _, [] => .ok []
  | pos, c :: rest =>
    if c = percent then
      match rest with
      | hi :: lo :: behind =>
        match hexValue hi, hexValue lo with
        | some h, some l => store size pos (h*16 ||| l) (decodeFrom size (pos+1) behind)
        | _, _ => .error .eproto
      | _ => .error .eproto
    else store size pos (if c = plus then space else c) (decodeFrom size (pos+1) rest)

def urlDecodePath (size : ℕ) (text : List UInt8) : Except Status (List UInt8) :=
  if size = 0 then .error .einval else decodeFrom size 0 text

def segments (path : List UInt8) : List (List UInt8) := path.splitOn slash

/-- `path_is_safe_relative`; the empty segments of repeated slashes are safe. -/
def pathIsSafeRelative (path : List UInt8) : Bool :=
  (segments path).all fun segment => decide (segment ≠ dot) && decide (segment ≠ dotDot)

def skipSlashes (path : List UInt8) : List UInt8 := path.dropWhile fun c => c = slash

def basenameOnly (path : List UInt8) : List UInt8 :=
  path.rtakeWhile fun c => decide (c ≠ slash) && decide (c ≠ backslash)

def copyString (size : ℕ) (text : List UInt8) : Option (List UInt8) :=
  if text.length < size then some text else none

def appendString (size : ℕ) (text more : List UInt8) : Option (List UInt8) :=
  if text.length+more.length < size then some (text ++ more) else none

def normalizePrefix (size : ℕ) (text : List UInt8) : Option (List UInt8) :=
  if text.head? = some slash then
    (copyString size text).map fun copy => copy.take 1 ++ (copy.drop 1).rdropWhile fun c => c = slash
  else none

def closeRoot (size : ℕ) (root : List UInt8) : Option (List UInt8) :=
  if root.getLast? = some slash then some root else appendString size root [slash]

def buildFsPath (size : ℕ) (fsRoot relative : List UInt8) : Option (List UInt8) :=
  let rel := skipSlashes relative
  if pathIsSafeRelative rel then
    (copyString size fsRoot).bind fun root =>
      (if root = [] then copyString size [slash] else some root).bind fun out =>
        (closeRoot size out).bind fun out => appendString size out rel
  else none

def rootPrefix (fsRoot : List UInt8) : List UInt8 :=
  if fsRoot.getLast? = some slash then fsRoot else fsRoot ++ [slash]

def Decodes (text decoded : List UInt8) : Prop :=
  ∀ size pos, pos+text.length+1 < size → decodeFrom size pos text = .ok decoded

theorem copyString_some {size : ℕ} {text copy : List UInt8} (h : copyString size text = some copy) :
    copy = text := by
  unfold copyString at h
  split at h
  · exact (Option.some.inj h).symm
  · cases h

theorem appendString_some {size : ℕ} {text more out : List UInt8}
    (h : appendString size text more = some out) : out = text ++ more ∧ out.length < size := by
  unfold appendString at h
  split at h
  next hfits =>
    obtain rfl := Option.some.inj h
    rw [List.length_append]
    exact ⟨rfl, hfits⟩
  next => cases h

theorem closeRoot_some {size : ℕ} {root out : List UInt8} (h : closeRoot size root = some out) :
    out = rootPrefix root := by
  unfold closeRoot at h
  unfold rootPrefix
  split at h
  next hlast => rw [if_pos hlast, Option.some.inj h]
  next hlast =>
    rw [if_neg hlast]
    exact (appendString_some h).1

/-- What `build_fs_path` returns is the root, the slash behind it and the whole
relative path, whose segments have been checked. -/
theorem buildFsPath_some {size : ℕ} {fsRoot relative path : List UInt8}
    (h : buildFsPath size fsRoot relative = some path) :
    path = rootPrefix fsRoot ++ skipSlashes relative ∧ path.length < size ∧
      pathIsSafeRelative (skipSlashes relative) = true := by
  unfold buildFsPath at h
  by_cases hsafe : pathIsSafeRelative (skipSlashes relative) = true
  swap
  · simp only [if_neg hsafe] at h
    cases h
  simp only [if_pos hsafe] at h
  obtain ⟨root, hroot, h⟩ := Option.bind_eq_some_iff.mp h
  obtain ⟨out, hout, h⟩ := Option.bind_eq_some_iff.mp h
  obtain ⟨closed, hclosed, happend⟩ := Option.bind_eq_some_iff.mp h
  obtain rfl := copyString_some hroot
  obtain ⟨hpath, hlength⟩ := appendString_some happend
  refine ⟨?_, hlength, hsafe⟩
  rw [hpath, closeRoot_some hclosed]
  congr 1
  split at hout
  next hempty =>
    rw [copyString_some hout, hempty]
    rfl
  next => rw [Option.some.inj hout]

theorem store_ok {size pos : ℕ} {c : UInt8} {tail : Except Status (List UInt8)}
    {decoded : List UInt8} (h : store size pos c tail = .ok decoded) :
    c ≠ 0 ∧ c ≠ backslash ∧ ∃ rest, tail = .ok rest ∧ decoded = c :: rest := by
  unfold store at h
  by_cases hbad : c = 0 ∨ c = backslash
  · rw [if_pos hbad] at h
    cases h
  rw [if_neg hbad] at h
  obtain ⟨hnul, hback⟩ := not_or.mp hbad
  by_cases hfull : size ≤ pos+1
  · rw [if_pos hfull] at h
    cases h
  rw [if_neg hfull] at h
  cases tail with
  | error status => cases h
  | ok rest =>
    exact ⟨hnul, hback, rest, rfl, (Except.ok.inj h).symm⟩

theorem store_fits {size pos : ℕ} {c : UInt8} {rest : List UInt8} (hnul : c ≠ 0)
    (hback : c ≠ backslash) (hfits : pos+1 < size) :
    store size pos c (.ok rest) = .ok (c :: rest) := by
  rw [store, if_neg (not_or.mpr ⟨hnul, hback⟩), if_neg (by omega)]
  rfl

/-- A decoded text is complete, and holds neither NUL nor backslash. -/
theorem decodeFrom_ok {size pos : ℕ} {text decoded : List UInt8}
    (h : decodeFrom size pos text = .ok decoded) :
    Decodes text decoded ∧ 0 ∉ decoded ∧ backslash ∉ decoded := by
  fun_induction decodeFrom size pos text generalizing decoded with
  | case1 pos =>
    obtain rfl := Except.ok.inj h
    exact ⟨fun size pos _ => rfl, List.not_mem_nil, List.not_mem_nil⟩
  | case2 pos hi lo behind top low hlo hhi ih =>
    obtain ⟨hnul, hback, rest, htail, rfl⟩ := store_ok h
    obtain ⟨hdecodes, hrest, hplain⟩ := ih htail
    constructor
    · intro size pos hfits
      simp only [List.length_cons] at hfits
      simp only [decodeFrom, if_true, hhi, hlo]
      rw [hdecodes size (pos+1) (by omega)]
      exact store_fits hnul hback (by omega)
    · simp [hrest, hplain, Ne.symm hnul, Ne.symm hback]
  | case3 => cases h
  | case4 => cases h
  | case5 pos c rest hc ih =>
    obtain ⟨hnul, hback, behind, htail, rfl⟩ := store_ok h
    obtain ⟨hdecodes, hrest, hplain⟩ := ih htail
    constructor
    · intro size pos hfits
      simp only [List.length_cons] at hfits
      rw [decodeFrom.eq_def]
      simp only [if_neg hc]
      rw [hdecodes size (pos+1) (by omega)]
      exact store_fits hnul hback (by omega)
    · simp [hrest, hplain, Ne.symm hnul, Ne.symm hback]

theorem urlDecodePath_ok {size : ℕ} {text decoded : List UInt8}
    (h : urlDecodePath size text = .ok decoded) :
    Decodes text decoded ∧ 0 ∉ decoded ∧ backslash ∉ decoded := by
  unfold urlDecodePath at h
  split at h
  · cases h
  · exact decodeFrom_ok h

theorem mem_intercalate {separator part : List UInt8} {parts : List (List UInt8)} {c : UInt8}
    (hp : part ∈ parts) (hc : c ∈ part) : c ∈ separator.intercalate parts := by
  induction parts with
  | nil => simp at hp
  | cons first rest ih =>
    cases rest with
    | nil =>
      obtain rfl := List.mem_singleton.mp hp
      simpa using hc
    | cons second rest =>
      rw [List.intercalate_cons_cons]
      rcases List.mem_cons.mp hp with rfl | hp
      · simp [hc]
      · simp [ih hp]

theorem mem_of_mem_segment {path segment : List UInt8} {c : UInt8} (hs : segment ∈ segments path)
    (hc : c ∈ segment) : c ∈ path := by
  have hjoin : [slash].intercalate (path.splitOn slash) = path := List.intercalate_splitOn slash
  rw [← hjoin]
  exact mem_intercalate hs hc

/-- The segments of a path: none is `.` or `..` or holds a NUL, and a backslash
comes from the index name. -/
def SafeSegments (indexName rel : List UInt8) : Prop :=
  ∀ segment ∈ segments rel, segment ≠ dot ∧ segment ≠ dotDot ∧ 0 ∉ segment ∧
    (backslash ∈ segment → backslash ∈ indexName)

theorem safe_segments {indexName rel : List UInt8} (hsafe : pathIsSafeRelative rel = true)
    (hnul : 0 ∉ rel) (hback : backslash ∈ rel → backslash ∈ indexName) :
    SafeSegments indexName rel := by
  intro segment hs
  have hdots := List.all_eq_true.mp hsafe segment hs
  simp only [Bool.and_eq_true, decide_eq_true_eq] at hdots
  refine ⟨hdots.1, hdots.2, ?_, ?_⟩
  · intro hc
    exact hnul (mem_of_mem_segment hs hc)
  · intro hc
    exact hback (mem_of_mem_segment hs hc)

theorem mem_of_mem_skipSlashes {path : List UInt8} {c : UInt8} (h : c ∈ skipSlashes path) :
    c ∈ path := List.dropWhile_suffix _ |>.mem h

theorem basenameOnly_suffix (path : List UInt8) : basenameOnly path <:+ path :=
  List.rtakeWhile_suffix _ path

theorem backslash_not_mem_basename (path : List UInt8) : backslash ∉ basenameOnly path := by
  intro h
  have hplain := List.mem_rtakeWhile_imp h
  simp at hplain

end JaszczurHal.HttpPath
