import JaszczurHal.Sscanf

/-!
# Cell location of the SimCom modem

A `+CLBS:` line is taken from the response, put together again where the
firmware broke it, and read in one of three forms. When the response holds no
such line yet, the driver listens for more of it once.
-/

set_option autoImplicit false

namespace JaszczurHal.CellLocation
open WebSocketHandshake (ascii cString)
open ModemAt (lineEnd)
open GpsNmea (isSpace isDigit)
open SimcomMqtt (scanInt plus minus comma)
open Sscanf

variable {F : Type}

def marker : List UInt8 := ascii "+CLBS:"

/-- `find_last`: the text from the last place of the needle on; `skip` bytes of
the place before are passed over. -/
def findLastFrom (needle : List UInt8) : ℕ → List UInt8 → Option (List UInt8)
  | _, [] => none
  | skip+1, _ :: s => findLastFrom needle skip s
  | 0, c :: s =>
    if needle.isPrefixOf (c :: s) then
      (findLastFrom needle (needle.length-1) s).or (some (c :: s))
    else findLastFrom needle 0 s

def findLast (s needle : List UInt8) : Option (List UInt8) := findLastFrom needle 0 s

def continues : List UInt8 → Bool
  | [] => false
  | c :: rest =>
    if c = plus then rest.head?.any isDigit
    else c = comma || c = point || c = minus || c = 0x20 || c = 0x09 || isDigit c

/-- The loop of `clbs_collapse_line` with room for so many bytes: the text and
whether its end was seen. Each byte of a break looks past all of the break. -/
def clbsCollapseLine : ℕ → List UInt8 → List UInt8 × Bool
  | _, [] => ([], false)
  | 0, _ :: _ => ([], false)
  | room+1, c :: p =>
    if lineEnd c then
      if continues (p.dropWhile lineEnd) then clbsCollapseLine (room+1) p else ([], true)
    else (c :: (clbsCollapseLine room p).1, (clbsCollapseLine room p).2)

structure Reading (F : Type) where
  status : ℤ
  latitude : F
  longitude : F
  accuracy : ℤ
  deriving DecidableEq

def fullFormat : List Directive := marker.map .char ++
  ([.blank, .int, .char comma, .float, .char comma, .float, .char comma, .int] : List Directive)

def fullSpaced : List Directive := marker.map .char ++
  ([.blank, .int, .char comma, .blank, .float, .char comma, .blank, .float, .char comma, .blank,
    .int] : List Directive)

def plainFormat : List Directive := marker.map .char ++
  ([.blank, .int, .char comma, .float, .char comma, .float] : List Directive)

def plainSpaced : List Directive := marker.map .char ++
  ([.blank, .int, .char comma, .blank, .float, .char comma, .blank, .float] : List Directive)

def statusFormat : List Directive := marker.map .char ++ ([.blank, .int] : List Directive)

def scanEither (strtof : Strtof F) (count : ℕ) (format other : List Directive)
    (buf : List UInt8) : List (Value F) × Option (List UInt8) :=
  if (sscanf strtof format buf).1.length ≠ count then sscanf strtof other buf
  else sscanf strtof format buf

def readLine (strtof : Strtof F) (zero : F) (buf : List UInt8) : Option (Reading F) :=
  match scanEither strtof 4 fullFormat fullSpaced buf with
  | ([.int st, .float la, .float lo, .int ac], some []) => some ⟨st, la, lo, ac⟩
  | _ =>
    match scanEither strtof 3 plainFormat plainSpaced buf with
    | ([.int st, .float la, .float lo], some []) => some ⟨st, la, lo, -1⟩
    | _ =>
      match sscanf strtof statusFormat buf with
      | ([.int st], some []) => some ⟨st, zero, zero, -1⟩
      | _ => none

def bufSize : ℕ := 96

def parseClbsFromResponse (strtof : Strtof F) (zero : F) (resp : List UInt8) :
    Option (Reading F) :=
  match findLast resp marker with
  | none => none
  | some p =>
    let collapsed := clbsCollapseLine (bufSize-1) p
    if collapsed.2 then readLine strtof zero collapsed.1 else none

inductive Error where
  | error
  | timeout
  | parse
  deriving DecidableEq

structure Location (F : Type) where
  latitude : F
  longitude : F
  accuracy : ℤ
  deriving DecidableEq

def mapAt : ModemAt.Result → Error
  | .timeout => .timeout
  | _ => .error

/-- `hal_simcom_a76xx_get_cell_location`: the result of the command, what the
buffer holds then, and what it holds after listening for more. -/
def getCellLocation (strtof : Strtof F) (zero : F) (sent : ModemAt.Result)
    (first second : List UInt8) : Except Error (Location F) :=
  if sent ≠ .ok then .error (mapAt sent)
  else
    match (parseClbsFromResponse strtof zero (cString first)).or
        (parseClbsFromResponse strtof zero (cString second)) with
    | none => .error .parse
    | some r =>
      if r.status ≠ 0 then .error .parse else .ok ⟨r.latitude, r.longitude, r.accuracy⟩

variable {F : Type} (strtof : Strtof F) (zero : F)

inductive Fields : List UInt8 → Reading F → List UInt8 → Prop where
  | full {t t₁ t₂ t₃ rest st la lo ac} (hst : scanInt t = some (st, comma :: t₁))
      (hla : scanFloat strtof t₁ = some (la, comma :: t₂))
      (hlo : scanFloat strtof t₂ = some (lo, comma :: t₃))
      (hac : scanInt t₃ = some (ac, rest)) : Fields t ⟨st, la, lo, ac⟩ rest
  | plain {t t₁ t₂ rest st la lo} (hst : scanInt t = some (st, comma :: t₁))
      (hla : scanFloat strtof t₁ = some (la, comma :: t₂))
      (hlo : scanFloat strtof t₂ = some (lo, rest)) : Fields t ⟨st, la, lo, -1⟩ rest
  | status {t rest st} (hst : scanInt t = some (st, rest)) : Fields t ⟨st, zero, zero, -1⟩ rest

variable {strtof zero} {body : List UInt8} {v : Reading F}

theorem blank_int (format : List Directive) :
    sscanf strtof (.blank :: .int :: format) = sscanf strtof (.int :: format) :=
  funext (sscanf_blank_int strtof format)

theorem blank_float (format : List Directive) :
    sscanf strtof (.blank :: .float :: format) = sscanf strtof (.float :: format) :=
  funext (sscanf_blank_float strtof format)

theorem full_formats (body : List UInt8) :
    scanEither strtof 4 fullFormat fullSpaced (marker ++ body) = sscanf strtof
      [.int, .char comma, .float, .char comma, .float, .char comma, .int] body := by
  have hspaced : sscanf strtof [.blank, .int, .char comma, .blank, .float, .char comma, .blank,
      .float, .char comma, .blank, .int] =
        sscanf strtof [.int, .char comma, .float, .char comma, .float, .char comma, .int] := by
    rw [blank_int]
    apply sscanf_congr
    apply sscanf_congr
    rw [blank_float]
    apply sscanf_congr
    apply sscanf_congr
    rw [blank_float]
    apply sscanf_congr
    apply sscanf_congr
    exact blank_int []
  rw [scanEither, fullFormat, fullSpaced, sscanf_literal, sscanf_literal, hspaced, blank_int,
    ite_self]

theorem plain_formats (body : List UInt8) :
    scanEither strtof 3 plainFormat plainSpaced (marker ++ body) =
      sscanf strtof [.int, .char comma, .float, .char comma, .float] body := by
  have hspaced : sscanf strtof [.blank, .int, .char comma, .blank, .float, .char comma, .blank,
      .float] = sscanf strtof [.int, .char comma, .float, .char comma, .float] := by
    rw [blank_int]
    apply sscanf_congr
    apply sscanf_congr
    rw [blank_float]
    apply sscanf_congr
    apply sscanf_congr
    exact blank_float []
  rw [scanEither, plainFormat, plainSpaced, sscanf_literal, sscanf_literal, hspaced, blank_int,
    ite_self]

theorem status_format (body : List UInt8) :
    sscanf strtof statusFormat (marker ++ body) = sscanf strtof [.int] body := by
  rw [statusFormat, sscanf_literal, blank_int]

theorem full_iff {st ac : ℤ} {la lo : F} : scanEither strtof 4 fullFormat fullSpaced
      (marker ++ body) = ([.int st, .float la, .float lo, .int ac], some []) ↔
    ∃ t₁ t₂ t₃, scanInt body = some (st, comma :: t₁) ∧
      scanFloat strtof t₁ = some (la, comma :: t₂) ∧
      scanFloat strtof t₂ = some (lo, comma :: t₃) ∧ scanInt t₃ = some (ac, []) := by
  rw [full_formats]
  constructor
  · intro h
    obtain ⟨t₁, hst, t₂, hla, t₃, hlo, hac⟩ := by simpa using h
    exact ⟨t₁, t₂, t₃, hst, hla, hlo, hac⟩
  · rintro ⟨t₁, t₂, t₃, hst, hla, hlo, hac⟩
    simp [hst, hla, hlo, hac]

theorem plain_iff {st : ℤ} {la lo : F} : scanEither strtof 3 plainFormat plainSpaced
      (marker ++ body) = ([.int st, .float la, .float lo], some []) ↔
    ∃ t₁ t₂, scanInt body = some (st, comma :: t₁) ∧
      scanFloat strtof t₁ = some (la, comma :: t₂) ∧ scanFloat strtof t₂ = some (lo, []) := by
  rw [plain_formats]
  constructor
  · intro h
    obtain ⟨t₁, hst, t₂, hla, hlo⟩ := by simpa using h
    exact ⟨t₁, t₂, hst, hla, hlo⟩
  · rintro ⟨t₁, t₂, hst, hla, hlo⟩
    simp [hst, hla, hlo]

theorem status_iff {st : ℤ} : sscanf strtof statusFormat (marker ++ body) = ([.int st], some []) ↔
    scanInt body = some (st, []) := by
  rw [status_format]
  simp

theorem readLine_iff : readLine strtof zero (marker ++ body) = some v ↔
    Fields strtof zero body v [] := by
  constructor
  · intro h
    unfold readLine at h
    split at h
    · rename_i hfull
      obtain ⟨t₁, t₂, t₃, hst, hla, hlo, hac⟩ := full_iff.mp hfull
      cases h
      exact .full hst hla hlo hac
    · split at h
      · rename_i hplain
        obtain ⟨t₁, t₂, hst, hla, hlo⟩ := plain_iff.mp hplain
        cases h
        exact .plain hst hla hlo
      · split at h
        · rename_i hstatus
          cases h
          exact .status (status_iff.mp hstatus)
        · cases h
  · intro h
    unfold readLine
    cases h with
    | full hst hla hlo hac => rw [full_iff.mpr ⟨_, _, _, hst, hla, hlo, hac⟩]
    | plain hst hla hlo =>
      split
      · rename_i hfull
        obtain ⟨t₁, t₂, t₃, hst', hla', hlo', hac'⟩ := full_iff.mp hfull
        simp_all
      · rw [plain_iff.mpr ⟨_, _, hst, hla, hlo⟩]
    | status hst =>
      split
      · rename_i hfull
        obtain ⟨t₁, t₂, t₃, hst', _⟩ := full_iff.mp hfull
        simp_all
      · split
        · rename_i hplain
          obtain ⟨t₁, t₂, hst', _⟩ := plain_iff.mp hplain
          simp_all
        · rw [status_iff.mpr hst]

/-- A text that is read in one of the forms does not go on with a sign. -/
theorem fields_sign {w : List UInt8} {v' : Reading F} (h : Fields strtof zero body v [])
    (h' : Fields strtof zero body v' (plus :: w)) : False := by
  have hne : plus ≠ comma := by decide
  cases h <;> cases h' <;> simp_all

theorem fields_unique {v' : Reading F} (h : Fields strtof zero body v [])
    (h' : Fields strtof zero body v' []) : v = v' := by
  cases h <;> cases h' <;> simp_all

variable (zero) (value : List UInt8 → F)

def lineChar (c : UInt8) : Bool :=
  c = comma || c = point || c = minus || c = plus || c = 0x20 || c = 0x09 || isDigit c

def LineChars (text : List UInt8) : Prop := ∀ c ∈ text, lineChar c = true

/-- The conversion of a floating number reads decimal text as specified. -/
def ReadsDecimals (strtof : Strtof F) (value : List UInt8 → F) : Prop :=
  ∀ text, LineChars text → strtof text = decimals value text

/-- The text of a whole line behind its marker, and what it reports. -/
inductive Complete : List UInt8 → Reading F → Prop where
  | full {s la lo ac d e : List UInt8} {st a : ℤ} (hst : scanInt s = some (st, []))
      (hla : DecimalText la d) (hlo : DecimalText lo e) (hac : scanInt ac = some (a, [])) :
      Complete (s ++ comma :: (la ++ comma :: (lo ++ comma :: ac))) ⟨st, value d, value e, a⟩
  | plain {s la lo d e : List UInt8} {st : ℤ} (hst : scanInt s = some (st, []))
      (hla : DecimalText la d) (hlo : DecimalText lo e) :
      Complete (s ++ comma :: (la ++ comma :: lo)) ⟨st, value d, value e, -1⟩

inductive LineText : List UInt8 → Reading F → Prop where
  | complete {text : List UInt8} {v : Reading F} (h : Complete value text v) : LineText text v
  | status {s : List UInt8} {st : ℤ} (hst : scanInt s = some (st, [])) :
      LineText s ⟨st, zero, zero, -1⟩

variable {zero value}

theorem comma_ends : Ends comma := by
  constructor <;> decide

theorem lineText_fields (h : LineText zero value body v) :
    Fields (decimals value) zero body v [] := by
  cases h with
  | complete h =>
    cases h with
    | full hst hla hlo hac =>
      exact .full (scanInt_splits.more _ hst comma_ends)
        ((scanFloat_splits value).more _ (scanFloat_iff.mpr ⟨_, hla, rfl⟩) comma_ends)
        ((scanFloat_splits value).more _ (scanFloat_iff.mpr ⟨_, hlo, rfl⟩) comma_ends) hac
    | plain hst hla hlo =>
      exact .plain (scanInt_splits.more _ hst comma_ends)
        ((scanFloat_splits value).more _ (scanFloat_iff.mpr ⟨_, hla, rfl⟩) comma_ends)
        (scanFloat_iff.mpr ⟨_, hlo, rfl⟩)
  | status hst => exact .status hst

theorem fields_lineText (h : Fields (decimals value) zero body v []) :
    LineText zero value body v := by
  cases h with
  | full hst hla hlo hac =>
    obtain ⟨s, rfl, hs⟩ := scanInt_splits.whole hst
    obtain ⟨a, rfl, ha⟩ := (scanFloat_splits value).whole hla
    obtain ⟨o, rfl, ho⟩ := (scanFloat_splits value).whole hlo
    obtain ⟨d, hd, rfl⟩ := scanFloat_iff.mp ha
    obtain ⟨e, he, rfl⟩ := scanFloat_iff.mp ho
    exact .complete (.full hs hd he hac)
  | plain hst hla hlo =>
    obtain ⟨s, rfl, hs⟩ := scanInt_splits.whole hst
    obtain ⟨a, rfl, ha⟩ := (scanFloat_splits value).whole hla
    obtain ⟨d, hd, rfl⟩ := scanFloat_iff.mp ha
    obtain ⟨e, he, rfl⟩ := scanFloat_iff.mp hlo
    exact .complete (.plain hs hd he)
  | status hst => exact .status hst

theorem fields_decimals (hreads : ReadsDecimals strtof value) (hchars : LineChars body) :
    Fields strtof zero body v [] ↔ Fields (decimals value) zero body v [] := by
  have hfloat : ∀ {text}, LineChars text →
      scanFloat strtof text = scanFloat (decimals value) text := by
    intro text htext
    exact hreads _ fun c hc => htext c ((List.dropWhile_sublist isSpace).subset hc)
  have hafter : ∀ {text tail : List UInt8} {st : ℤ}, LineChars text →
      scanInt text = some (st, comma :: tail) → LineChars tail := by
    intro text tail st htext hscan c hc
    obtain ⟨s, rfl, _⟩ := scanInt_splits.whole hscan
    exact htext c (List.mem_append_right s (List.mem_cons_of_mem _ hc))
  have hbehind : ∀ {text tail : List UInt8} {x : F}, LineChars text →
      scanFloat (decimals value) text = some (x, comma :: tail) → LineChars tail := by
    intro text tail x htext hscan c hc
    obtain ⟨s, rfl, _⟩ := (scanFloat_splits value).whole hscan
    exact htext c (List.mem_append_right s (List.mem_cons_of_mem _ hc))
  constructor
  · intro h
    cases h with
    | full hst hla hlo hac =>
      have h₁ := hafter hchars hst
      rw [hfloat h₁] at hla
      have h₂ := hbehind h₁ hla
      rw [hfloat h₂] at hlo
      exact .full hst hla hlo hac
    | plain hst hla hlo =>
      have h₁ := hafter hchars hst
      rw [hfloat h₁] at hla
      rw [hfloat (hbehind h₁ hla)] at hlo
      exact .plain hst hla hlo
    | status hst => exact .status hst
  · intro h
    cases h with
    | full hst hla hlo hac =>
      have h₁ := hafter hchars hst
      have h₂ := hbehind h₁ hla
      rw [← hfloat h₁] at hla
      rw [← hfloat h₂] at hlo
      exact .full hst hla hlo hac
    | plain hst hla hlo =>
      have h₁ := hafter hchars hst
      rw [← hfloat (hbehind h₁ hla)] at hlo
      rw [← hfloat h₁] at hla
      exact .plain hst hla hlo
    | status hst => exact .status hst

theorem readLine_lineText (hreads : ReadsDecimals strtof value) (hchars : LineChars body) :
    readLine strtof zero (marker ++ body) = some v ↔ LineText zero value body v := by
  rw [readLine_iff, fields_decimals hreads hchars]
  exact ⟨fields_lineText, lineText_fields⟩

theorem lineText_unique {v' : Reading F} (h : LineText zero value body v)
    (h' : LineText zero value body v') : v = v' :=
  fields_unique (lineText_fields h) (lineText_fields h')

/-- Behind a text that is a line, no line goes on with a sign. -/
theorem lineText_sign {w : List UInt8} {v' : Reading F} (h : LineText zero value body v)
    (h' : LineText zero value (body ++ plus :: w) v') : False := by
  have hplus : Ends plus := by constructor <;> decide
  have hmore : Fields (decimals value) zero (body ++ plus :: w) v (plus :: w) := by
    cases h with
    | complete h =>
      cases h with
      | full hst hla hlo hac =>
        simp only [List.append_assoc, List.cons_append]
        exact .full (scanInt_splits.more _ hst comma_ends)
          ((scanFloat_splits value).more _ (scanFloat_iff.mpr ⟨_, hla, rfl⟩) comma_ends)
          ((scanFloat_splits value).more _ (scanFloat_iff.mpr ⟨_, hlo, rfl⟩) comma_ends)
          (scanInt_splits.more w hac hplus)
      | plain hst hla hlo =>
        simp only [List.append_assoc, List.cons_append]
        exact .plain (scanInt_splits.more _ hst comma_ends)
          ((scanFloat_splits value).more _ (scanFloat_iff.mpr ⟨_, hla, rfl⟩) comma_ends)
          ((scanFloat_splits value).more w (scanFloat_iff.mpr ⟨_, hlo, rfl⟩) hplus)
    | status hst => exact .status (scanInt_splits.more w hst hplus)
  exact fields_sign (lineText_fields h') hmore

end JaszczurHal.CellLocation
