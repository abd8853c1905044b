import JaszczurHal.HttpPath

/-!
# The HTTP file service

A mount serves the files under its root, takes raw uploads under its URL prefix
and multipart uploads with a directory field. The file system behind it is a
set of callbacks; the model records every path they are given.
-/

set_option autoImplicit false

namespace JaszczurHal.HttpFiles
open HalStatus HttpPath
open WebSocketHandshake (ascii crlf splitAt trim lowerAscii cString)

structure Limits where
  pathMax : ℕ
  responseBuffer : ℕ
  ioBuffer : ℕ

def boundaryMax : ℕ := 72
def dispositionMax : ℕ := 160
def quote : UInt8 := 34
def dashes : List UInt8 := ascii "--"

/-- `hal_http_files_config_t`; a callback counts only as present or not. -/
structure Config where
  urlPrefix : Option CString
  fsRoot : Option CString
  indexName : Option CString
  uploadPath : Option CString
  enableUpload : Bool
  hasStat : Bool
  hasRead : Bool
  hasWrite : Bool
  hasAuthorize : Bool

structure Mount where
  urlPrefix : List UInt8
  fsRoot : CString
  indexName : CString
  uploadPath : List UInt8
  enableUpload : Bool
  hasWrite : Bool

structure FileInfo where
  present : Bool
  isDir : Bool
  size : ℕ
  mtime : UInt32
  contentType : Option (List UInt8)
  etag : Option (List UInt8)

structure FileSystem where
  stat : List UInt8 → Status × FileInfo
  read : List UInt8 → ℕ → ℕ → Status × List UInt8
  write : List UInt8 → List UInt8 → Status

inductive Method where
  | get
  | head
  | post
  | put
  | other
  deriving DecidableEq

structure Request where
  method : Method
  path : CString
  body : List UInt8
  contentType : Option CString
  ifNoneMatch : Option CString

inductive Call where
  | stat (path : List UInt8)
  | read (path : List UInt8) (offset : ℕ)
  | write (path data : List UInt8)
  deriving DecidableEq

def Call.path : Call → List UInt8
  | .stat path => path
  | .read path _ => path
  | .write path _ => path

structure Response where
  code : ℕ
  reason : String
  contentType : List UInt8
  body : List UInt8

structure Reply where
  status : Status
  response : Response
  calls : List Call

variable (l : Limits)

def responseWrite (response : Response) (data : List UInt8) : Status × Response :=
  if l.responseBuffer ≤ response.body.length+data.length then (.eoverflow, response)
  else (.ok, { response with body := response.body ++ data })

def writeStatusText (response : Response) (code : ℕ) (reason text : String) (calls : List Call) :
    Reply :=
  let written := responseWrite l
    { response with code := code, reason := reason, contentType := ascii "text/plain" } (ascii text)
  ⟨written.1, written.2, calls⟩

def hexDigits (n : ℕ) : List UInt8 :=
  ((Nat.toDigits 16 n).leftpad 8 '0').map fun c => UInt8.ofNat c.toNat

def etagHash (path : List UInt8) (info : FileInfo) : UInt32 :=
  let hash := path.foldl (fun h c => (h ^^^ c.toUInt32)*16777619) (2166136261 : UInt32)
  ((hash ^^^ UInt32.ofNat info.size)*16777619) ^^^ info.mtime

def makeEtag (path : List UInt8) (info : FileInfo) : List UInt8 :=
  ascii "W/\"" ++ hexDigits (etagHash path info).toNat ++ ascii "-" ++ hexDigits info.size ++
    ascii "\""

def lastExtension (path : List UInt8) : List UInt8 :=
  let name := path.rtakeWhile fun c => c ≠ slash
  if 46 ∈ name then name.rtakeWhile fun c => c ≠ 46 else []

def contentTypeForPath (path : List UInt8) : String :=
  let ext := (lastExtension path).map lowerAscii
  if ext = ascii "html" ∨ ext = ascii "htm" then "text/html; charset=utf-8"
  else if ext = ascii "css" then "text/css; charset=utf-8"
  else if ext = ascii "js" then "application/javascript"
  else if ext = ascii "json" then "application/json"
  else if ext = ascii "txt" ∨ ext = ascii "log" then "text/plain; charset=utf-8"
  else if ext = ascii "png" then "image/png"
  else if ext = ascii "jpg" ∨ ext = ascii "jpeg" then "image/jpeg"
  else if ext = ascii "svg" then "image/svg+xml"
  else if ext = ascii "ico" then "image/x-icon"
  else if ext = ascii "wasm" then "application/wasm"
  else "application/octet-stream"

def needsIndex (relative : List UInt8) : Bool :=
  decide (relative = []) || decide (relative.getLast? = some slash)

def mapUrlToRelative (m : Mount) (urlPath : List UInt8) : Except Status (List UInt8) :=
  if m.urlPrefix.isPrefixOf urlPath then
    match urlDecodePath l.pathMax (skipSlashes (urlPath.drop m.urlPrefix.length)) with
    | .error status => .error status
    | .ok relative =>
      if pathIsSafeRelative relative then
        if needsIndex relative then
          ((appendString l.pathMax relative m.indexName.bytes).map Except.ok).getD (.error .eoverflow)
        else .ok relative
      else .error .eperm
  else .error .enoent

def readRounds (fs : FileSystem) (path : List UInt8) (room : ℕ) (response : Response) : Reply :=
  let offset := response.body.length
  match fs.read path offset l.ioBuffer with
  | (.ok, []) => ⟨.ok, response, [.read path offset]⟩
  | (.ok, c :: data) =>
    if data.length+1 < room then
      let reply := readRounds fs path (room-(data.length+1))
        { response with body := response.body ++ c :: data }
      { reply with calls := .read path offset :: reply.calls }
    else writeStatusText l response 413 "Payload Too Large" "Payload Too Large\n" [.read path offset]
  | (_, _) => writeStatusText l response 500 "Internal Server Error" "Read failed\n" [.read path offset]
termination_by room

def serveFile (fs : FileSystem) (m : Mount) (r : Request) (response : Response) : Reply :=
  match mapUrlToRelative l m r.path.bytes with
  | .error _ => writeStatusText l response 400 "Bad Request" "Bad Request\n" []
  | .ok relative =>
    match buildFsPath l.pathMax m.fsRoot.bytes relative with
    | none => writeStatusText l response 403 "Forbidden" "Forbidden\n" []
    | some path =>
      let found := fs.stat path
      if found.1 ≠ .ok ∨ !found.2.present ∨ found.2.isDir then
        writeStatusText l response 404 "Not Found" "Not Found\n" [.stat path]
      else if r.ifNoneMatch.map CString.bytes = some (found.2.etag.getD (makeEtag path found.2)) then
        ⟨.ok, { response with code := 304, reason := "Not Modified" }, [.stat path]⟩
      else
        let typed := { response with
          contentType := found.2.contentType.getD (ascii (contentTypeForPath path)) }
        if l.responseBuffer ≤ found.2.size then
          writeStatusText l typed 413 "Payload Too Large" "Payload Too Large\n" [.stat path]
        else
          let reply := readRounds l fs path (l.responseBuffer-typed.body.length) typed
          { reply with calls := .stat path :: reply.calls }

def strNieq (text name : List UInt8) : Bool :=
  decide ((text.take name.length).map lowerAscii = name.map lowerAscii)

/-- `copy_header_value`: the value of the first header line of this name, if it
fits; the fuel is a bound on the number of lines. -/
def copyHeaderValue (name : List UInt8) (size : ℕ) : ℕ → List UInt8 → Option (List UInt8)
  | 0, _ => none
  | fuel+1, headers =>
    if headers = [] then none
    else
      let row := ((splitAt crlf headers).map Prod.fst).getD headers
      if name.length < row.length ∧ strNieq row name ∧ row[name.length]? = some 58 then
        let value := trim (row.drop (name.length+1))
        if value.length < size then some value else none
      else ((splitAt crlf headers).map Prod.snd).bind (copyHeaderValue name size fuel)

def upToQuote (size : ℕ) (text : List UInt8) : Option (List UInt8) :=
  (splitAt [quote] text).bind fun parts => if parts.1.length < size then some parts.1 else none

def isParamGap (c : UInt8) : Bool := decide (c = 32) || decide (c = 9) || decide (c = 59)

/-- `extract_quoted_param`; the fuel is a bound on the number of parameters. -/
def extractQuotedParam (name : List UInt8) (size : ℕ) : ℕ → List UInt8 → Option (List UInt8)
  | 0, _ => none
  | fuel+1, text =>
    if text = [] then none
    else
      let param := text.dropWhile isParamGap
      if strNieq param name ∧ param[name.length]? = some 61 then
        let value := param.drop (name.length+1)
        if value.head? = some quote then upToQuote size value.tail
        else ((splitAt [59] value).map Prod.snd).bind (extractQuotedParam name size fuel)
      else ((splitAt [59] param).map Prod.snd).bind (extractQuotedParam name size fuel)

def extractQuotedParamLoose (name : List UInt8) (size : ℕ) (text : List UInt8) :
    Option (List UInt8) :=
  (splitAt (name ++ ascii "=\"") text).bind fun parts => upToQuote size parts.2

def extractBoundary (contentType : List UInt8) : Option (List UInt8) :=
  (splitAt (ascii "boundary=") contentType).bind fun parts =>
    let value :=
      if parts.2.head? = some quote then (splitAt [quote] parts.2.tail).map Prod.fst
      else some (parts.2.takeWhile fun c => c ∉ ascii "; \t\r\n")
    value.bind fun boundary =>
      if boundary = [] ∨ boundaryMax ≤ boundary.length then none else some boundary

def dispositionParam (size : ℕ) (disposition : List UInt8) (name : String) : List UInt8 :=
  let strict := (extractQuotedParam (ascii name) size (disposition.length+1) disposition).getD []
  if strict = [] then (extractQuotedParamLoose (ascii name) size disposition).getD [] else strict

def disposition (headers : List UInt8) : List UInt8 :=
  ((copyHeaderValue (ascii "Content-Disposition") dispositionMax (headers.length+1) headers).map
    cString).getD []

def closeDirectory (dir : List UInt8) : List UInt8 := if needsIndex dir then dir else dir ++ [slash]

def uploadDirectory (directory : List UInt8) : Except Status (List UInt8) :=
  if directory = [] then .ok []
  else
    match urlDecodePath l.pathMax directory with
    | .error status => .error status
    | .ok dir =>
      if pathIsSafeRelative dir then
        if needsIndex dir then .ok dir
        else ((appendString l.pathMax dir [slash]).map Except.ok).getD (.error .eoverflow)
      else .error .eperm

def writeUploadFile (fs : FileSystem) (m : Mount) (directory filename data : List UInt8) :
    Status × List Call :=
  let base := basenameOnly filename
  if base = [] then (.einval, [])
  else
    match uploadDirectory l directory with
    | .error status => (status, [])
    | .ok dir =>
      match appendString l.pathMax dir base with
      | none => (.eoverflow, [])
      | some relative =>
        match buildFsPath l.pathMax m.fsRoot.bytes relative with
        | none => (.eperm, [])
        | some path => (fs.write path data, [.write path data])

inductive Ending where
  | done (wroteFile : Bool)
  | malformed (text : String)
  | writeFailed
  | pathTooLong

/-- The loop of `handle_multipart_upload` behind one marker; every round takes
at least a marker from the body, which bounds the fuel. -/
def multipartRounds (fs : FileSystem) (m : Mount) (marker : List UInt8) :
    ℕ → List UInt8 → List UInt8 → Bool → Ending × List Call
  | 0, _, _, wrote => (.done wrote, [])
  | fuel+1, part, uploadDir, wrote =>
    if part.take 2 = dashes then (.done wrote, [])
    else if part.take 2 ≠ crlf then (.malformed "Malformed multipart body\n", [])
    else
      match splitAt (crlf ++ crlf) (part.drop 2) with
      | none => (.malformed "Malformed multipart headers\n", [])
      | some (headers, data) =>
        match splitAt (crlf ++ dashes) data with
        | none => (.malformed "Missing multipart terminator\n", [])
        | some (content, behind) =>
          let name := dispositionParam l.pathMax (disposition headers) "name"
          let filename := dispositionParam l.pathMax (disposition headers) "filename"
          let next := fun (dir : List UInt8) (wrote : Bool) =>
            match splitAt marker (dashes ++ behind) with
            | none => (.done wrote, [])
            | some (_, after) => multipartRounds fs m marker fuel after dir wrote
          if filename ≠ [] then
            match writeUploadFile l fs m uploadDir filename content with
            | (.ok, calls) => ((next uploadDir true).1, calls ++ (next uploadDir true).2)
            | (_, calls) => (.writeFailed, calls)
          else if name = ascii "path" then
            if l.pathMax ≤ content.length then (.pathTooLong, []) else next (cString content) wrote
          else next uploadDir wrote

def handleMultipartUpload (fs : FileSystem) (m : Mount) (r : Request) (response : Response) :
    Reply :=
  match extractBoundary ((r.contentType.map CString.bytes).getD []) with
  | none => writeStatusText l response 400 "Bad Request" "Missing multipart boundary\n" []
  | some boundary =>
    let marker := dashes ++ boundary
    let ending :=
      match splitAt marker r.body with
      | none => (Ending.done false, [])
      | some (_, part) => multipartRounds l fs m marker (r.body.length+1) part [] false
    match ending with
    | (.malformed text, calls) => writeStatusText l response 400 "Bad Request" text calls
    | (.writeFailed, calls) =>
      writeStatusText l response 500 "Internal Server Error" "Upload write failed\n" calls
    | (.pathTooLong, calls) =>
      writeStatusText l response 413 "Payload Too Large" "Upload path too long\n" calls
    | (.done false, calls) => writeStatusText l response 400 "Bad Request" "No file part\n" calls
    | (.done true, calls) =>
      let written := responseWrite l { response with code := 201, reason := "Created" }
        (ascii "Uploaded\n")
      ⟨written.1, written.2, calls⟩

def handleRawUpload (fs : FileSystem) (m : Mount) (r : Request) (response : Response) : Reply :=
  match mapUrlToRelative l m r.path.bytes with
  | .error _ => writeStatusText l response 400 "Bad Request" "Bad Request\n" []
  | .ok relative =>
    match buildFsPath l.pathMax m.fsRoot.bytes relative with
    | none => writeStatusText l response 403 "Forbidden" "Forbidden\n" []
    | some path =>
      if fs.write path r.body = .ok then
        let written := responseWrite l { response with code := 201, reason := "Created" }
          (ascii "Uploaded\n")
        ⟨written.1, written.2, [.write path r.body]⟩
      else
        writeStatusText l response 500 "Internal Server Error" "Upload write failed\n"
          [.write path r.body]

def fileRouteHandler (fs : FileSystem) (authorize : Request → Status) (m : Mount) (r : Request)
    (response : Response) : Reply :=
  match r.method with
  | .get => serveFile l fs m r response
  | .head => serveFile l fs m r response
  | .put =>
    if m.enableUpload && m.hasWrite then
      if authorize r = .ok then handleRawUpload l fs m r response
      else writeStatusText l response 403 "Forbidden" "Forbidden\n" []
    else writeStatusText l response 405 "Method Not Allowed" "Method Not Allowed\n" []
  | .post =>
    if m.enableUpload && m.hasWrite then
      if authorize r = .ok then handleMultipartUpload l fs m r response
      else writeStatusText l response 403 "Forbidden" "Forbidden\n" []
    else writeStatusText l response 405 "Method Not Allowed" "Method Not Allowed\n" []
  | .other => writeStatusText l response 405 "Method Not Allowed" "Method Not Allowed\n" []

def copyConfigured (name : Option CString) (fallback : CString) : Except Status CString :=
  let text := name.getD fallback
  if text.bytes.length < l.pathMax then .ok text else .error .eoverflow

def rootDefault : CString := ofText "/"
def indexDefault : CString := ofText "index.html"
def uploadDefault : CString := ofText "/upload"

/-- `hal_http_files_mount` with a free slot; `routes` is what the registration
of its routes returns. -/
def mount (routes : Status) (c : Config) : Except Status Mount :=
  match c.urlPrefix with
  | none => .error .einval
  | some url =>
    if url.bytes.head? ≠ some slash ∨ !c.hasStat ∨ !c.hasRead then .error .einval
    else if c.enableUpload ∧ (!c.hasWrite ∨ !c.hasAuthorize) then .error .einval
    else
      match normalizePrefix l.pathMax url.bytes, copyConfigured l c.fsRoot rootDefault,
          copyConfigured l c.indexName indexDefault,
          normalizePrefix l.pathMax (c.uploadPath.getD uploadDefault).bytes with
      | none, _, _, _ => .error .einval
      | some _, .error status, _, _ => .error status
      | some _, .ok _, .error status, _ => .error status
      | some _, .ok _, .ok _, none => .error .einval
      | some urlPrefix, .ok fsRoot, .ok indexName, some uploadPath =>
        if routes = .ok then
          .ok ⟨urlPrefix, fsRoot, indexName, uploadPath, c.enableUpload, c.hasWrite⟩
        else .error routes

theorem splitAt_eq {mark text first second : List UInt8} (h : splitAt mark text = some (first, second)) :
    text = first ++ mark ++ second := by
  induction text generalizing first with
  | nil => cases h
  | cons c text ih =>
    rw [splitAt] at h
    by_cases hmark : mark.isPrefixOf (c :: text) = true
    · simp only [hmark, if_true, Option.some.injEq, Prod.mk.injEq] at h
      obtain ⟨rfl, rfl⟩ := h
      obtain ⟨rest, hrest⟩ := List.isPrefixOf_iff_prefix.mp hmark
      simp [← hrest]
    · simp only [hmark, Bool.false_eq_true, if_false, Option.map_eq_some_iff] at h
      obtain ⟨parts, hparts, heq⟩ := h
      simp only [Prod.mk.injEq] at heq
      obtain ⟨rfl, rfl⟩ := heq
      simp [ih hparts]

theorem splitAt_first {mark text first second : List UInt8}
    (h : splitAt mark text = some (first, second)) : first <:+: text := by
  rw [splitAt_eq h, List.append_assoc]
  exact (List.prefix_append _ _).isInfix

theorem splitAt_second {mark text first second : List UInt8}
    (h : splitAt mark text = some (first, second)) : second <:+: text := by
  rw [splitAt_eq h]
  exact (List.suffix_append _ _).isInfix

theorem splitAt_plain {c : UInt8} {text first second : List UInt8}
    (h : splitAt [c] text = some (first, second)) : c ∉ first := by
  induction text generalizing first with
  | nil => cases h
  | cons head text ih =>
    rw [splitAt] at h
    by_cases hmark : [c].isPrefixOf (head :: text) = true
    · simp only [hmark, if_true, Option.some.injEq, Prod.mk.injEq] at h
      simp [← h.1]
    · simp only [hmark, Bool.false_eq_true, if_false, Option.map_eq_some_iff] at h
      obtain ⟨parts, hparts, heq⟩ := h
      simp only [Prod.mk.injEq] at heq
      have hne : c ≠ head := by
        rintro rfl
        simp at hmark
      have hparts : splitAt [c] text = some (parts.1, second) := by rw [hparts, ← heq.2]
      rw [← heq.1]
      simp [ih hparts, hne]

/-- The value stands quoted behind the name of its parameter, in any case. -/
def Quoted (name value text : List UInt8) : Prop :=
  quote ∉ value ∧ ∃ word : List UInt8, word.map lowerAscii = name.map lowerAscii ∧
    word ++ ascii "=\"" ++ value ++ [quote] <:+: text

theorem quoted_mono {name value part text : List UInt8} (hpart : part <:+: text)
    (h : Quoted name value part) : Quoted name value text := by
  obtain ⟨hvalue, word, hword, hstands⟩ := h
  exact ⟨hvalue, word, hword, hstands.trans hpart⟩

theorem quoted_mem {name value text : List UInt8} {c : UInt8} (h : Quoted name value text)
    (hc : c ∈ value) : c ∈ text := by
  obtain ⟨_, word, _, hstands⟩ := h
  exact hstands.mem (by simp [hc])

theorem upToQuote_some {size : ℕ} {text value : List UInt8} (h : upToQuote size text = some value) :
    quote ∉ value ∧ value ++ [quote] <+: text := by
  obtain ⟨parts, hparts, hvalue⟩ := Option.bind_eq_some_iff.mp h
  split at hvalue
  · rw [← Option.some.inj hvalue]
    constructor
    · exact splitAt_plain hparts
    · rw [splitAt_eq hparts]
      exact List.prefix_append _ _
  · cases hvalue

/-- A search that goes on behind a separator stays within the text. -/
theorem behind_quoted {mark name text value : List UInt8}
    {find : List UInt8 → Option (List UInt8)}
    (hfind : ∀ rest, find rest = some value → Quoted name value rest)
    (h : ((splitAt mark text).map Prod.snd).bind find = some value) : Quoted name value text := by
  obtain ⟨rest, hrest, hvalue⟩ := Option.bind_eq_some_iff.mp h
  obtain ⟨parts, hparts, rfl⟩ := Option.map_eq_some_iff.mp hrest
  exact quoted_mono (splitAt_second hparts) (hfind _ hvalue)

/-- A parameter of this name with a quote behind its equals sign. -/
theorem strNieq_quoted {size : ℕ} {name param value : List UInt8} (hname : strNieq param name = true)
    (hequals : param[name.length]? = some 61)
    (hopen : (param.drop (name.length+1)).head? = some quote)
    (h : upToQuote size (param.drop (name.length+1)).tail = some value) :
    Quoted name value param := by
  obtain ⟨hplain, rest, hrest⟩ := upToQuote_some h
  refine ⟨hplain, param.take name.length, of_decide_eq_true hname, List.IsPrefix.isInfix ⟨rest, ?_⟩⟩
  obtain ⟨hlength, hsign⟩ := List.getElem?_eq_some_iff.mp hequals
  have hquote : param.drop (name.length+1) = quote :: (value ++ [quote] ++ rest) := by
    rw [hrest, List.cons_head?_tail (by simp [hopen])]
  have hdrop : param.drop name.length = 61 :: param.drop (name.length+1) := by
    rw [List.drop_eq_getElem_cons hlength, hsign]
  have hsigns : ascii "=\"" = [61, quote] := by decide
  calc param.take name.length ++ ascii "=\"" ++ value ++ [quote] ++ rest
      = param.take name.length ++ (61 :: quote :: (value ++ [quote] ++ rest)) := by simp [hsigns]
    _ = param.take name.length ++ param.drop name.length := by rw [hdrop, hquote]
    _ = param := List.take_append_drop _ _

theorem extractQuotedParam_quoted {name : List UInt8} {size fuel : ℕ} {text value : List UInt8}
    (h : extractQuotedParam name size fuel text = some value) : Quoted name value text := by
  induction fuel generalizing text with
  | zero => cases h
  | succ fuel ih =>
    have hparam : text.dropWhile isParamGap <:+: text := (List.dropWhile_suffix _).isInfix
    rw [extractQuotedParam] at h
    split at h
    · cases h
    · dsimp only at h
      split at h
      next hmatch =>
        split at h
        next hopen => exact quoted_mono hparam (strNieq_quoted hmatch.1 hmatch.2 hopen h)
        next =>
          have hvalue := (List.drop_suffix (name.length+1) (text.dropWhile isParamGap)).isInfix
          exact quoted_mono (hvalue.trans hparam) (behind_quoted (fun _ => ih) h)
      next => exact quoted_mono hparam (behind_quoted (fun _ => ih) h)

theorem extractQuotedParamLoose_quoted {name : List UInt8} {size : ℕ} {text value : List UInt8}
    (h : extractQuotedParamLoose name size text = some value) : Quoted name value text := by
  obtain ⟨parts, hparts, hvalue⟩ := Option.bind_eq_some_iff.mp h
  obtain ⟨hplain, rest, hrest⟩ := upToQuote_some hvalue
  refine ⟨hplain, name, rfl, parts.1, rest, ?_⟩
  simp [splitAt_eq hparts, ← hrest]

theorem getD_quoted {name : List UInt8} {found : Option (List UInt8)} {text : List UInt8}
    (h : ∀ value, found = some value → Quoted name value text) (hne : found.getD [] ≠ []) :
    Quoted name (found.getD []) text := by
  cases found with
  | none => exact absurd rfl hne
  | some value => exact h value rfl

theorem dispositionParam_quoted {size : ℕ} {text : List UInt8} {name : String}
    (hne : dispositionParam size text name ≠ []) :
    Quoted (ascii name) (dispositionParam size text name) text := by
  unfold dispositionParam at hne ⊢
  dsimp only at hne ⊢
  split at hne
  next hstrict =>
    rw [if_pos hstrict]
    exact getD_quoted (fun _ => extractQuotedParamLoose_quoted) hne
  next hstrict =>
    rw [if_neg hstrict]
    exact getD_quoted (fun _ => extractQuotedParam_quoted) hne

theorem trim_within (text : List UInt8) : trim text <:+: text :=
  (List.rdropWhile_prefix _ _).isInfix.trans (List.dropWhile_suffix _).isInfix

theorem copyHeaderValue_within {name : List UInt8} {size fuel : ℕ} {headers value : List UInt8}
    (h : copyHeaderValue name size fuel headers = some value) : value <:+: headers := by
  induction fuel generalizing headers with
  | zero => cases h
  | succ fuel ih =>
    have hrow : ((splitAt crlf headers).map Prod.fst).getD headers <:+: headers := by
      cases hsplit : splitAt crlf headers with
      | none => exact List.infix_rfl
      | some parts => exact splitAt_first hsplit
    rw [copyHeaderValue] at h
    split at h
    · cases h
    · dsimp only at h
      split at h
      · split at h
        · rw [← Option.some.inj h]
          exact ((trim_within _).trans (List.drop_suffix _ _).isInfix).trans hrow
        · cases h
      · obtain ⟨rest, hrest, hvalue⟩ := Option.bind_eq_some_iff.mp h
        obtain ⟨parts, hparts, rfl⟩ := Option.map_eq_some_iff.mp hrest
        exact (ih hvalue).trans (splitAt_second hparts)

theorem cString_within (text : List UInt8) : cString text <:+: text :=
  (List.takeWhile_prefix _).isInfix

theorem disposition_within (headers : List UInt8) : disposition headers <:+: headers := by
  unfold disposition
  cases hfound : copyHeaderValue (ascii "Content-Disposition") dispositionMax (headers.length+1)
      headers with
  | none => exact List.nil_infix
  | some found => exact (cString_within found).trans (copyHeaderValue_within hfound)

theorem nul_not_mem_cString (text : List UInt8) : 0 ∉ cString text := by
  intro h
  have hplain := List.mem_takeWhile_imp h
  simp at hplain

theorem cString_plain {text : List UInt8} (h : 0 ∉ text) : cString text = text := by
  apply List.takeWhile_eq_self_iff.mpr
  intro c hc
  simp only [ne_eq, decide_eq_true_eq]
  intro heq
  exact h (heq ▸ hc)

theorem cString_clean {buffer : List UInt8} (more : List UInt8) (h : 0 ∉ buffer) :
    cString (buffer ++ more) = buffer ++ cString more := by
  unfold cString
  apply List.takeWhile_append_of_pos
  intro c hc
  simp only [ne_eq, decide_eq_true_eq]
  intro heq
  exact h (heq ▸ hc)

theorem nul_not_mem_disposition (headers : List UInt8) : 0 ∉ disposition headers := by
  unfold disposition
  cases copyHeaderValue (ascii "Content-Disposition") dispositionMax (headers.length+1) headers with
  | none => simp
  | some found => exact nul_not_mem_cString found

structure Part where
  headers : List UInt8
  content : List UInt8

def Part.param (l : Limits) (part : Part) (name : String) : List UInt8 :=
  dispositionParam l.pathMax (disposition part.headers) name

/-- A text behind a marker starts with a part: a line break, the headers up to
the first blank line and the content up to the first line break with two dashes. -/
structure Starts (text : List UInt8) (part : Part) (behind : List UInt8) : Prop where
  opens : text.take 2 = crlf
  divides : ∃ data, splitAt (crlf ++ crlf) (text.drop 2) = some (part.headers, data) ∧
    splitAt (crlf ++ dashes) data = some (part.content, behind)

/-- The text behind a marker of the body, and the parts in front of that marker. -/
inductive Behind (marker body : List UInt8) : List Part → List UInt8 → Prop
  | first {before text : List UInt8} (h : splitAt marker body = some (before, text)) :
      Behind marker body [] text
  | next {earlier : List Part} {text behind before after : List UInt8} {part : Part}
      (h : Behind marker body earlier text) (hpart : Starts text part behind)
      (hmarker : splitAt marker (dashes ++ behind) = some (before, after)) :
      Behind marker body (earlier ++ [part]) after

def isPathPart (l : Limits) (part : Part) : Bool :=
  decide (part.param l "filename" = []) && decide (part.param l "name" = ascii "path")

/-- The content of the last part that is named `path`. -/
def pathField (l : Limits) (parts : List Part) : List UInt8 :=
  ((parts.filter (isPathPart l)).getLast?.map Part.content).getD []

/-- The complete relative names that a request can give: its decoded URL, with
the index name where a directory is asked for, or the decoded directory field in
front of a part of its body and the last component of that part's file name. -/
inductive Named (l : Limits) (m : Mount) (r : Request) : List UInt8 → Prop
  | url {suffix decoded : List UInt8} (hpath : r.path.bytes = m.urlPrefix ++ suffix)
      (hdecoded : Decodes (skipSlashes suffix) decoded) :
      Named l m r (if needsIndex decoded then decoded ++ m.indexName.bytes else decoded)
  | upload {boundary text behind dir : List UInt8} {earlier : List Part} {part : Part}
      (hboundary : extractBoundary ((r.contentType.map CString.bytes).getD []) = some boundary)
      (hbehind : Behind (dashes ++ boundary) r.body earlier text)
      (hpart : Starts text part behind)
      (hfilename : Quoted (ascii "filename") (part.param l "filename") part.headers)
      (hdir : Decodes (cString (pathField l earlier)) dir) :
      Named l m r (closeDirectory dir ++ basenameOnly (part.param l "filename"))

def Inside (m : Mount) (r : Request) (path : List UInt8) : Prop :=
  ∃ rel, Named l m r rel ∧ path = rootPrefix m.fsRoot.bytes ++ skipSlashes rel ∧
    path.length < l.pathMax ∧ SafeSegments m.indexName.bytes (skipSlashes rel)

theorem buildFsPath_inside {l : Limits} {m : Mount} {r : Request} {rel path : List UInt8}
    (hnamed : Named l m r rel) (hnul : 0 ∉ rel) (hback : backslash ∈ rel → backslash ∈ m.indexName.bytes)
    (h : buildFsPath l.pathMax m.fsRoot.bytes rel = some path) : Inside l m r path := by
  obtain ⟨hpath, hlength, hsafe⟩ := buildFsPath_some h
  refine ⟨rel, hnamed, hpath, hlength, safe_segments hsafe ?_ ?_⟩
  · intro hc
    exact hnul (mem_of_mem_skipSlashes hc)
  · intro hc
    exact hback (mem_of_mem_skipSlashes hc)

theorem mapUrlToRelative_ok {l : Limits} {m : Mount} {r : Request} {rel : List UInt8}
    (h : mapUrlToRelative l m r.path.bytes = .ok rel) :
    Named l m r rel ∧ 0 ∉ rel ∧ (backslash ∈ rel → backslash ∈ m.indexName.bytes) := by
  unfold mapUrlToRelative at h
  by_cases hleads : m.urlPrefix.isPrefixOf r.path.bytes = true
  swap
  · rw [if_neg hleads] at h
    cases h
  rw [if_pos hleads] at h
  obtain ⟨suffix, hsuffix⟩ := List.isPrefixOf_iff_prefix.mp hleads
  have hdrop : r.path.bytes.drop m.urlPrefix.length = suffix := by simp [← hsuffix]
  rw [hdrop] at h
  cases hdecode : urlDecodePath l.pathMax (skipSlashes suffix) with
  | error status =>
    rw [hdecode] at h
    cases h
  | ok decoded =>
    obtain ⟨hdecodes, hnul, hplain⟩ := urlDecodePath_ok hdecode
    have hnamed := Named.url (l := l) hsuffix.symm hdecodes
    simp only [hdecode] at h
    split at h
    swap
    · cases h
    by_cases hindex : needsIndex decoded = true
    · rw [if_pos hindex] at h hnamed
      cases happend : appendString l.pathMax decoded m.indexName.bytes with
      | none =>
        rw [happend] at h
        cases h
      | some joined =>
        rw [happend] at h
        obtain rfl := Except.ok.inj h
        rw [(appendString_some happend).1]
        refine ⟨hnamed, ?_, ?_⟩
        · simp [hnul, m.indexName.noNul]
        · simp [hplain]
    · rw [if_neg hindex] at h hnamed
      obtain rfl := Except.ok.inj h
      exact ⟨hnamed, hnul, fun hc => absurd hc hplain⟩

theorem decodes_nil : Decodes [] [] := by
  intro size pos _
  rfl

theorem closeDirectory_needsIndex {dir : List UInt8} (h : needsIndex dir = true) :
    closeDirectory dir = dir := by simp [closeDirectory, h]

/-- The directory part of an upload is the whole field, decoded and closed. -/
theorem uploadDirectory_ok {l : Limits} {field closed : List UInt8}
    (h : uploadDirectory l field = .ok closed) :
    ∃ dir, Decodes field dir ∧ closed = closeDirectory dir ∧ 0 ∉ closed ∧ backslash ∉ closed := by
  unfold uploadDirectory at h
  by_cases hempty : field = []
  · rw [if_pos hempty] at h
    obtain rfl := Except.ok.inj h
    rw [hempty]
    exact ⟨[], decodes_nil, rfl, by simp, by simp⟩
  rw [if_neg hempty] at h
  cases hdecode : urlDecodePath l.pathMax field with
  | error status =>
    rw [hdecode] at h
    cases h
  | ok dir =>
    obtain ⟨hdecodes, hnul, hback⟩ := urlDecodePath_ok hdecode
    simp only [hdecode] at h
    split at h
    swap
    · cases h
    by_cases hindex : needsIndex dir = true
    · rw [if_pos hindex] at h
      obtain rfl := Except.ok.inj h
      exact ⟨dir, hdecodes, (closeDirectory_needsIndex hindex).symm, hnul, hback⟩
    · rw [if_neg hindex] at h
      cases happend : appendString l.pathMax dir [slash] with
      | none =>
        rw [happend] at h
        cases h
      | some joined =>
        rw [happend] at h
        obtain rfl := Except.ok.inj h
        have hjoined := (appendString_some happend).1
        refine ⟨dir, hdecodes, by simp [closeDirectory, hindex, hjoined], ?_, ?_⟩
        · simp only [hjoined, List.mem_append, List.mem_singleton, not_or]
          exact ⟨hnul, by decide⟩
        · simp only [hjoined, List.mem_append, List.mem_singleton, not_or]
          exact ⟨hback, by decide⟩

def AllInside (m : Mount) (r : Request) (calls : List Call) : Prop :=
  ∀ call ∈ calls, Inside l m r call.path

variable {l}

theorem allInside_nil (m : Mount) (r : Request) : AllInside l m r [] := by
  intro call h
  cases h

theorem allInside_cons {m : Mount} {r : Request} {call : Call} {calls : List Call}
    (hcall : Inside l m r call.path) (hcalls : AllInside l m r calls) :
    AllInside l m r (call :: calls) := by
  intro c hc
  rcases List.mem_cons.mp hc with rfl | hc
  · exact hcall
  · exact hcalls c hc

theorem allInside_append {m : Mount} {r : Request} {first second : List Call}
    (hfirst : AllInside l m r first) (hsecond : AllInside l m r second) :
    AllInside l m r (first ++ second) := by
  intro c hc
  rcases List.mem_append.mp hc with hc | hc
  · exact hfirst c hc
  · exact hsecond c hc

theorem pathField_path {parts : List Part} {part : Part} (h : isPathPart l part = true) :
    pathField l (parts ++ [part]) = part.content := by
  simp [pathField, h]

theorem pathField_other {parts : List Part} {part : Part} (h : isPathPart l part = false) :
    pathField l (parts ++ [part]) = pathField l parts := by
  simp [pathField, h]

theorem param_quoted {part : Part} {name : String} (h : part.param l name ≠ []) :
    Quoted (ascii name) (part.param l name) part.headers :=
  quoted_mono (disposition_within part.headers) (dispositionParam_quoted h)

theorem nul_not_mem_param {part : Part} {name : String} (h : part.param l name ≠ []) :
    0 ∉ part.param l name := fun hc =>
  nul_not_mem_disposition part.headers (quoted_mem (dispositionParam_quoted h) hc)

theorem writeUploadFile_inside (fs : FileSystem) (m : Mount) {r : Request}
    {boundary text behind : List UInt8} {earlier : List Part} {part : Part} (data : List UInt8)
    (hboundary : extractBoundary ((r.contentType.map CString.bytes).getD []) = some boundary)
    (hbehind : Behind (dashes ++ boundary) r.body earlier text) (hpart : Starts text part behind)
    (hname : part.param l "filename" ≠ []) :
    AllInside l m r (writeUploadFile l fs m (cString (pathField l earlier))
      (part.param l "filename") data).2 := by
  unfold writeUploadFile
  by_cases hbase : basenameOnly (part.param l "filename") = []
  · simp [hbase, allInside_nil]
  simp only [if_neg hbase]
  cases hdir : uploadDirectory l (cString (pathField l earlier)) with
  | error status => exact allInside_nil m r
  | ok closed =>
    obtain ⟨dir, hwhole, hclosed, hplain, hback⟩ := uploadDirectory_ok hdir
    cases happend : appendString l.pathMax closed (basenameOnly (part.param l "filename")) with
    | none => simp [happend, allInside_nil]
    | some relative =>
      have hrelative := (appendString_some happend).1
      cases hbuild : buildFsPath l.pathMax m.fsRoot.bytes relative with
      | none => simp [happend, hbuild, allInside_nil]
      | some path =>
        simp only [happend, hbuild]
        apply allInside_cons ?_ (allInside_nil m r)
        have hbasename : 0 ∉ basenameOnly (part.param l "filename") := fun hc =>
          nul_not_mem_param hname ((basenameOnly_suffix _).mem hc)
        apply @buildFsPath_inside l m r relative path ?_ ?_ ?_ hbuild
        · rw [hrelative, hclosed]
          exact Named.upload hboundary hbehind hpart (param_quoted hname) hwhole
        · simp [hrelative, hplain, hbasename]
        · simp [hrelative, hback, backslash_not_mem_basename]

/-- A round keeps the content of the last part named `path` as its directory. -/
theorem multipartRounds_inside (fs : FileSystem) (m : Mount) {r : Request}
    {boundary : List UInt8} (fuel : ℕ) {earlier : List Part} {text : List UInt8} (wrote : Bool)
    (hboundary : extractBoundary ((r.contentType.map CString.bytes).getD []) = some boundary)
    (hbehind : Behind (dashes ++ boundary) r.body earlier text) :
    AllInside l m r (multipartRounds l fs m (dashes ++ boundary) fuel text
      (cString (pathField l earlier)) wrote).2 := by
  induction fuel generalizing earlier text wrote with
  | zero => exact allInside_nil m r
  | succ fuel ih =>
    rw [multipartRounds]
    split
    · exact allInside_nil m r
    by_cases hcrlf : text.take 2 = crlf
    swap
    · rw [if_pos hcrlf]
      exact allInside_nil m r
    rw [if_neg (not_not.mpr hcrlf)]
    cases hheaders : splitAt (crlf ++ crlf) (text.drop 2) with
    | none => exact allInside_nil m r
    | some parts =>
      obtain ⟨headers, data⟩ := parts
      cases hcontent : splitAt (crlf ++ dashes) data with
      | none => simp [hcontent, allInside_nil]
      | some parts =>
        obtain ⟨content, behind⟩ := parts
        have hpart : Starts text ⟨headers, content⟩ behind :=
          ⟨hcrlf, data, hheaders, hcontent⟩
        have hnext : ∀ (dir : List UInt8) (wrote : Bool),
            dir = cString (pathField l (earlier ++ [⟨headers, content⟩])) →
            AllInside l m r (match splitAt (dashes ++ boundary) (dashes ++ behind) with
              | none => (Ending.done wrote, [])
              | some (_, after) =>
                multipartRounds l fs m (dashes ++ boundary) fuel after dir wrote).2 := by
          rintro dir wrote rfl
          cases hafter : splitAt (dashes ++ boundary) (dashes ++ behind) with
          | none => exact allInside_nil m r
          | some parts => exact ih wrote (hbehind.next hpart hafter)
        simp only [hcontent]
        split
        next hname =>
          have hother : isPathPart l ⟨headers, content⟩ = false := by
            simp only [isPathPart, Bool.and_eq_false_iff, decide_eq_false_iff_not]
            exact Or.inl hname
          have hwritten := writeUploadFile_inside fs m content hboundary hbehind hpart hname
          split
          next calls hwrite =>
            rw [Part.param, hwrite] at hwritten
            exact allInside_append hwritten (hnext _ true (by rw [pathField_other hother]))
          next status calls hfailed hwrite =>
            rw [Part.param, hwrite] at hwritten
            exact hwritten
        next hname =>
          have hname := not_not.mp hname
          split
          next hpath =>
            have hfield : isPathPart l ⟨headers, content⟩ = true := by
              simp [isPathPart, Part.param, hname, hpath]
            split
            · exact allInside_nil m r
            · exact hnext _ wrote (by rw [pathField_path hfield])
          next hpath =>
            have hother : isPathPart l ⟨headers, content⟩ = false := by
              simp [isPathPart, Part.param, hpath]
            exact hnext _ wrote (by rw [pathField_other hother])

theorem handleMultipartUpload_inside (fs : FileSystem) (m : Mount) (r : Request)
    (response : Response) : AllInside l m r (handleMultipartUpload l fs m r response).calls := by
  unfold handleMultipartUpload
  cases hboundary : extractBoundary ((r.contentType.map CString.bytes).getD []) with
  | none => exact allInside_nil m r
  | some boundary =>
    have hcalls : AllInside l m r (match splitAt (dashes ++ boundary) r.body with
        | none => (Ending.done false, [])
        | some (_, part) =>
          multipartRounds l fs m (dashes ++ boundary) (r.body.length+1) part [] false).2 := by
      cases hpart : splitAt (dashes ++ boundary) r.body with
      | none => exact allInside_nil m r
      | some parts => exact multipartRounds_inside fs m _ false hboundary (Behind.first hpart)
    dsimp only
    generalize (match splitAt (dashes ++ boundary) r.body with
        | none => (Ending.done false, [])
        | some (_, part) =>
          multipartRounds l fs m (dashes ++ boundary) (r.body.length+1) part [] false) = last
      at hcalls ⊢
    obtain ⟨ending, calls⟩ := last
    cases ending with
    | malformed text => exact hcalls
    | writeFailed => exact hcalls
    | pathTooLong => exact hcalls
    | done wrote =>
      cases wrote with
      | false => exact hcalls
      | true => exact hcalls

/-- The read loop gives every call the path it was given. -/
theorem readRounds_path (fs : FileSystem) (path : List UInt8) (room : ℕ) (response : Response) :
    ∀ call ∈ (readRounds l fs path room response).calls, call.path = path := by
  fun_induction readRounds l fs path room response with
  | case1 => simp [Call.path]
  | case2 room response offset c data hread hroom reply ih =>
    intro call hcall
    rcases List.mem_cons.mp hcall with rfl | hcall
    · rfl
    · exact ih call hcall
  | case3 => simp [writeStatusText, Call.path]
  | case4 => simp [writeStatusText, Call.path]

theorem serveFile_inside (fs : FileSystem) (m : Mount) (r : Request) (response : Response) :
    AllInside l m r (serveFile l fs m r response).calls := by
  unfold serveFile
  cases hmap : mapUrlToRelative l m r.path.bytes with
  | error status => exact allInside_nil m r
  | ok relative =>
    obtain ⟨hnamed, hnul, hback⟩ := mapUrlToRelative_ok hmap
    cases hbuild : buildFsPath l.pathMax m.fsRoot.bytes relative with
    | none => simp [hbuild, writeStatusText, allInside_nil]
    | some path =>
      have hinside := buildFsPath_inside hnamed hnul hback hbuild
      have hstat : AllInside l m r [.stat path] := allInside_cons hinside (allInside_nil m r)
      simp only [hbuild]
      split
      · exact hstat
      split
      · exact hstat
      split
      · exact hstat
      · apply allInside_cons hinside
        intro call hcall
        rw [readRounds_path fs path _ _ call hcall]
        exact hinside

theorem handleRawUpload_inside (fs : FileSystem) (m : Mount) (r : Request) (response : Response) :
    AllInside l m r (handleRawUpload l fs m r response).calls := by
  unfold handleRawUpload
  cases hmap : mapUrlToRelative l m r.path.bytes with
  | error status => exact allInside_nil m r
  | ok relative =>
    obtain ⟨hnamed, hnul, hback⟩ := mapUrlToRelative_ok hmap
    cases hbuild : buildFsPath l.pathMax m.fsRoot.bytes relative with
    | none => simp [hbuild, writeStatusText, allInside_nil]
    | some path =>
      have hinside := buildFsPath_inside hnamed hnul hback hbuild
      have hwrite : AllInside l m r [.write path r.body] :=
        allInside_cons hinside (allInside_nil m r)
      simp only [hbuild]
      split
      · exact hwrite
      · exact hwrite

theorem fileRouteHandler_inside (fs : FileSystem) (authorize : Request → Status) (m : Mount)
    (r : Request) (response : Response) :
    AllInside l m r (fileRouteHandler l fs authorize m r response).calls := by
  unfold fileRouteHandler
  cases r.method with
  | get => exact serveFile_inside fs m r response
  | head => exact serveFile_inside fs m r response
  | put =>
    dsimp only
    split
    · split
      · exact handleRawUpload_inside fs m r response
      · exact allInside_nil m r
    · exact allInside_nil m r
  | post =>
    dsimp only
    split
    · split
      · exact handleMultipartUpload_inside fs m r response
      · exact allInside_nil m r
    · exact allInside_nil m r
  | other => exact allInside_nil m r

theorem copyConfigured_ok {name : Option CString} {fallback text : CString}
    (h : copyConfigured l name fallback = .ok text) : text = name.getD fallback := by
  unfold copyConfigured at h
  dsimp only at h
  split at h
  · exact (Except.ok.inj h).symm
  · cases h

/-- A mount that the init accepts keeps the root and the index name that it was
configured with. -/
theorem mount_ok {routes : Status} {c : Config} {m : Mount} (h : mount l routes c = .ok m) :
    m.fsRoot = c.fsRoot.getD rootDefault ∧ m.indexName = c.indexName.getD indexDefault := by
  unfold mount at h
  split at h
  · cases h
  split at h
  · cases h
  split at h
  · cases h
  split at h
  · cases h
  · cases h
  · cases h
  · cases h
  next hroot hindex hupload =>
    split at h
    · obtain rfl := Except.ok.inj h
      exact ⟨copyConfigured_ok hroot, copyConfigured_ok hindex⟩
    · cases h

/-- A path in the words of a configuration: its root, a slash and the name
that the request gives, whole and with safe segments. -/
theorem request_inside {routes : Status} {c : Config} {m : Mount} (fs : FileSystem)
    (authorize : Request → Status) (r : Request) (response : Response)
    (h : mount l routes c = .ok m) :
    ∀ call ∈ (fileRouteHandler l fs authorize m r response).calls, ∃ rel,
      Named l m r rel ∧ call.path.length < l.pathMax ∧
      call.path = rootPrefix (c.fsRoot.getD rootDefault).bytes ++ skipSlashes rel ∧
      SafeSegments (c.indexName.getD indexDefault).bytes (skipSlashes rel) := by
  intro call hcall
  obtain ⟨rel, hnamed, hpath, hlength, hsafe⟩ :=
    fileRouteHandler_inside fs authorize m r response call hcall
  have hmount := mount_ok h
  rw [hmount.1] at hpath
  rw [hmount.2] at hsafe
  exact ⟨rel, hnamed, hlength, hpath, hsafe⟩

def limits : Limits := ⟨128, 2048, 256⟩

def indexed (indexName : CString) : Config where
  urlPrefix := some (ofText "/")
  fsRoot := some (ofText "/www")
  indexName := some indexName
  uploadPath := none
  enableUpload := false
  hasStat := true
  hasRead := true
  hasWrite := false
  hasAuthorize := false

def emptyFiles : FileSystem where
  stat := fun _ => (.enoent, ⟨false, false, 0, 0, none, none⟩)
  read := fun _ _ _ => (.enoent, [])
  write := fun _ _ => .enoent

def getRequest (path : CString) : Request := ⟨.get, path, [], none, none⟩
def blank : Response := ⟨200, "OK", [], []⟩

def indexedMount (indexName : CString) : Mount :=
  ⟨[slash], ofText "/www", indexName, ascii "/upload", false, false⟩

theorem request_inside_escaped : ∃ rel,
    Named limits (indexedMount indexDefault) (getRequest (ofText "/a%2fb%2e")) rel ∧
    (Call.stat (ascii "/www/a/b.")).path.length < 128 ∧
    (Call.stat (ascii "/www/a/b.")).path = rootPrefix (ascii "/www") ++ skipSlashes rel ∧
    SafeSegments (ascii "index.html") (skipSlashes rel) := by
  have hmount : mount limits .ok (indexed indexDefault) = .ok (indexedMount indexDefault) := rfl
  apply request_inside emptyFiles (fun _ => .ok) (getRequest (ofText "/a%2fb%2e")) blank hmount
  decide +kernel

/-- The init takes an index name with a backslash, and the path of a directory
then has it. -/
theorem index_backslash :
    mount limits .ok (indexed (ofText "a\\b")) = .ok (indexedMount (ofText "a\\b")) ∧
    ∃ call ∈ (fileRouteHandler limits emptyFiles (fun _ => .ok) (indexedMount (ofText "a\\b"))
        (getRequest (ofText "/")) blank).calls,
      ¬ ∃ rel, call.path = rootPrefix (ascii "/www") ++ rel ∧
        ∀ segment ∈ segments rel, segment ≠ dot ∧ segment ≠ dotDot ∧ 0 ∉ segment ∧
          backslash ∉ segment := by
  constructor
  · rfl
  · refine ⟨.stat (ascii "/www/a\\b"), by decide, ?_⟩
    rintro ⟨rel, hpath, hsafe⟩
    have hrel : rel = ascii "a\\b" := by
      have hroot : ascii "/www/a\\b" = rootPrefix (ascii "/www") ++ ascii "a\\b" := by decide
      exact (List.append_cancel_left (hroot.symm.trans hpath)).symm
    rw [hrel] at hsafe
    exact (hsafe (ascii "a\\b") (by decide)).2.2.2 (by decide)

end JaszczurHal.HttpFiles
