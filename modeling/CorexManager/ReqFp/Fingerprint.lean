import CorexManager.Data.Dict
import CorexManager.Data.Json
import CorexManager.ReqFp.Base62
import CorexManager.Rust.Text
import CorexManager.Rust.Utf8

/-!
# Request fingerprints

A fingerprint is seventeen fields with underscores between them.  Some of the fields are initials of
names that the client chooses.

* `captureRequest`, `captureResponse` — the fields, and the text that is made of them.
* `Plain` — no name that an initial is taken of begins with an underscore, and neither of the first
  two characters of the method is one.
* `splits_iff` — a fingerprint is split into its fields exactly then.
* `underscored` — a header whose name begins with an underscore adds a field.
-/

namespace CorexManager.ReqFp

open Data (Json Text)

/-- What other crates and the tables of Unicode do: `form_urlencoded::parse`, `serde_json::from_str`,
`to_string` of a value, and the class `\d`. -/
structure Crates where
  parseForm : Text → List (Text × Text)
  fromStr : Text → Option Json
  toString : Json → Text
  isDigit : Char → Bool

/-- `MAX_PARAMS`. -/
def maxParams : Nat := 32

abbrev Params : Type := List (Text × Text)

/-- `HashMap` of the headers: lowercased names, with their first values. -/
abbrev Headers : Type := List (Text × Text)

/-! ### Types of values -/

section Types

variable (C : Crates)

/-- A shape begins a text: `d` is a digit, and any other character stands for itself. -/
def shaped : (shape : List Char) → Text → Bool
  | [], _ => true
  | _ :: _, [] => false
  | s :: shape, c :: t => (if s = 'd' then C.isDigit c else c == s) && shaped shape t

/-- A shape is all of a text. -/
def isShaped (shape : String) (t : Text) : Bool :=
  shaped C shape.toList t && t.length == shape.length

/-- `RE_DATETIME`. -/
def isDatetime (t : Text) : Bool := shaped C "dddd-dd-ddTdd:dd:dd".toList t

/-- `RE_DT_TZ`. -/
def hasZone (t : Text) : Bool :=
  t.getLast? == some 'Z' || t.getLast? == some 'z' ||
    ["+dd:dd", "-dd:dd", "+dddd", "-dddd"].any fun shape =>
      isShaped C shape (t.drop (t.length - shape.length))

/-- `RE_DATE`. -/
def isDate (t : Text) : Bool := isShaped C "dddd-dd-dd" t

/-- `RE_TIME`. -/
def isTime (t : Text) : Bool := shaped C "dd:dd:dd".toList t

/-- A text without the sign that begins it. -/
def dropSign : Text → Text
  | '-' :: t => t
  | t => t

/-- `RE_INT`. -/
def isInt (t : Text) : Bool := !(dropSign t).isEmpty && (dropSign t).all C.isDigit

/-- `RE_FLOAT`. -/
def isFloat (t : Text) : Bool :=
  match (dropSign t).dropWhile C.isDigit with
  | '.' :: fraction => !fraction.isEmpty && fraction.all C.isDigit
  | _ => false

/-- `detect_type`. -/
def detectType (v : Text) : Char :=
  let lv := Rust.toAsciiLowercase v
  if v = [] then 'e'
  else if v.head? = some '\x7b' then 'o'
  else if v.head? = some '[' then 'l'
  else if lv = "true".toList ∨ lv = "false".toList then 'b'
  else if isDatetime C v ∧ hasZone C v then 'z'
  else if isDate C v then 'd'
  else if isTime C v then 't'
  else if isInt C v then 'i'
  else if isFloat C v then 'f'
  else if v.length = 1 then 'c'
  else 's'

end Types

/-! ### Parameters -/

section Parameters

variable (C : Crates)

/-- Parameters by name; those of one name keep their order. -/
def sortByName (params : Params) : Params := params.mergeSort fun a b => !decide (b.1 < a.1)

/-- `parse_params`. -/
def parseParams (qs : Text) : Params :=
  if qs = [] then []
  else sortByName (((C.parseForm qs).filter fun p => p.1 ≠ []).take maxParams)

mutual

/-- `json_depth`. -/
def jsonDepth (current : Nat) : Json → Nat
  | .obj fields => fieldsDepth current current fields
  | .arr items => itemsDepth current current items
  | _ => current

/-- The greatest depth of the fields of an object. -/
def fieldsDepth (current maxD : Nat) : List (Text × Json) → Nat
  | [] => maxD
  | f :: fields => fieldsDepth current (max maxD (jsonDepth (current + 1) f.2)) fields

/-- The greatest depth of the items of an array. -/
def itemsDepth (current maxD : Nat) : List Json → Nat
  | [] => maxD
  | v :: items => itemsDepth current (max maxD (jsonDepth (current + 1) v)) items

end

/-- `json_val_str`. -/
def jsonValStr : Json → Text
  | .str s => s
  | .bool b => if b then "true".toList else "false".toList
  | .null => "null".toList
  | v => C.toString v

/-- `extract_json_fields`: the fields are in the order of the map. -/
def extractJsonFields (v : Json) : Params × Nat :=
  match v with
  | .obj fields =>
      (sortByName ((fields.take maxParams).map fun f => (f.1, jsonValStr C f.2)), jsonDepth 0 v)
  | _ => ([], jsonDepth 0 v)

/-- Parameters of the body behind those of the query, as far as there is room. -/
def mergeParams (params bodyParams : Params) : Params :=
  sortByName (params ++ bodyParams.take (maxParams - params.length))

end Parameters

/-! ### Headers -/

/-- A header line: the lowercased name, and the value. -/
def headerLine (line : Text) : Option (Text × Text) :=
  (Rust.splitOnce ':' line).map fun h =>
    (Rust.toAsciiLowercase h.1, h.2.dropWhile Rust.isWhitespace)

/-- The first value of a name is recorded. -/
def recordHeader (hdrs : Headers) (h : Text × Text) : Headers :=
  if (Data.Dict.lookup hdrs h.1).isSome then hdrs else hdrs ++ [h]

/-- The headers of a raw block. -/
def headersOf (raw : Text) : Headers :=
  ((raw.splitOnP fun c => c == '\r' || c == '\n').filterMap headerLine).foldl recordHeader []

/-- `parse_headers`: an initial is recorded with each name while there is room. -/
def parseHeaders (raw : Text) : Nat × Text × Headers :=
  let hdrs := headersOf raw
  let chars := (hdrs.filterMap fun h => h.1.head?).take maxParams
  let count := min chars.length 99
  if count = 0 then (0, "nil".toList, hdrs)
  else (count, chars.mergeSort fun a b => decide (a ≤ b), hdrs)

/-- A header that is there and not empty. -/
def header (hdrs : Headers) (name : String) : Option Text :=
  (Data.Dict.lookup hdrs name.toList).filter fun v => v ≠ []

/-- Four lower case letters, filled with zeros. -/
def fourLetters (t : Text) : Text :=
  (((t.filter Char.isAlpha).take 4).map Char.toLower).rightpad 4 '0'

/-- `get_req_ctype`. -/
def getReqCtype (hdrs : Headers) : Text :=
  match header hdrs "content-type" with
  | none => "0000".toList
  | some val =>
      let subtype := ((Rust.splitOnce '/' val).map Prod.snd).getD val
      fourLetters (subtype.takeWhile (· != ';'))

/-- `get_accept_lang`. -/
def getAcceptLang (hdrs : Headers) : Text :=
  match header hdrs "accept-language" with
  | none => "0000".toList
  | some val => fourLetters (val.takeWhile fun c => c != ',' && c != ';')

/-- `get_auth_type`. -/
def getAuthType (hdrs : Headers) : Char :=
  match header hdrs "authorization" with
  | none => 'n'
  | some val =>
      let lv := Rust.toAsciiLowercase val
      if "basic".toList <+: lv then 'b'
      else if "bearer".toList <+: lv then 't'
      else if "digest".toList <+: lv then 'd'
      else 'o'

/-- `normalize_host`. -/
def normalizeHost (h : Text) : Text :=
  let lower := Rust.toAsciiLowercase h
  match lower.reverse.dropWhile (· != ':') with
  | [] => lower
  | _ :: before => before.reverse

/-- What is behind the first `://`. -/
def afterScheme : Text → Option Text
  | [] => none
  | c :: t => if "://".toList <+: c :: t then some ((c :: t).drop 3) else afterScheme t

/-- `get_referer_flag`. -/
def getRefererFlag (hdrs : Headers) : Char :=
  match header hdrs "referer", header hdrs "host" with
  | none, _ => 'n'
  | some _, none => 'x'
  | some refVal, some hostVal =>
      match afterScheme (Rust.toAsciiLowercase refVal) with
      | none => 'x'
      | some rest =>
          let refHostRaw := rest.takeWhile fun c => c != '/' && c != '?' && c != '#'
          if refHostRaw = [] then 'x'
          else if normalizeHost refHostRaw = normalizeHost hostVal then 's'
          else 'x'

/-- The names of the cookies. -/
def cookieNames (cookieVal : Text) : List Text :=
  ((Rust.split ';' cookieVal).map fun pair =>
    (pair.dropWhile Rust.isWhitespace).takeWhile fun c => c != '=' && !Rust.isWhitespace c).filter
      (· ≠ [])

/-- `get_cookie_fields`. -/
def getCookieFields (hdrs : Headers) : Text :=
  match header hdrs "cookie" with
  | none => "nil".toList
  | some cookieVal =>
      let chars := (((cookieNames cookieVal).take maxParams).filterMap List.head?).map Char.toLower
      if chars = [] then "nil".toList else chars.mergeSort fun a b => decide (a ≤ b)

/-- The kinds of bodies that are looked into. -/
inductive BodyType where
  | json
  | form
  | graphql
deriving DecidableEq

/-- `detect_body_ctype`. -/
def detectBodyCtype (hdrs : Headers) : Option BodyType :=
  (Data.Dict.lookup hdrs "content-type".toList).bind fun ct =>
    let lower := Rust.toAsciiLowercase ct
    if Rust.contains lower "application/json".toList ∨
        Rust.contains lower "application/+json".toList then some .json
    else if Rust.contains lower "application/x-www-form-urlencoded".toList then some .form
    else if Rust.contains lower "application/graphql".toList then some .graphql
    else none

/-- `http_ver_code`. -/
def httpVerCode (ver : Text) : Text :=
  if ver = "0.9".toList then "09".toList
  else if ver = "1.0".toList then "10".toList
  else if ver = "1.1".toList then "11".toList
  else if ver = "2".toList ∨ ver = "2.0".toList then "20".toList
  else if ver = "3".toList ∨ ver = "3.0".toList then "30".toList
  else "11".toList

/-- `get_path_depth`. -/
def getPathDepth (path : Text) : Nat := min (path.count '/') 99

/-! ### Capture -/

/-- What the fetches give; one that fails gives nothing.  The body is that of the API armor, or that
of this module. -/
structure Request where
  reqHdrs : Option Text
  path : Option Text
  method : Option Text
  query : Option Text
  reqVer : Option Text
  apiBody : Text
  reqFpBody : Text

namespace Request

variable (r : Request) (C : Crates)

def rawHdrs : Text := r.reqHdrs.getD []

def pathText : Text := r.path.getD "/".toList

def methodText : Text := r.method.getD "ge".toList

def ver : Text := r.reqVer.getD "1.1".toList

def hdrs : Headers := headersOf r.rawHdrs

def body : Text := if r.apiBody = [] then r.reqFpBody else r.apiBody

/-- The parameters of the query and the body, and the depth of the body. -/
def allParams : Params × Nat :=
  let params := parseParams C (r.query.getD [])
  if r.body = [] then (params, 0)
  else
    match detectBodyCtype r.hdrs with
    | some .json =>
        match C.fromStr r.body with
        | some (.obj fields) =>
            (mergeParams params (extractJsonFields C (.obj fields)).1,
              (extractJsonFields C (.obj fields)).2)
        | _ => (params, 0)
    | some .form => (mergeParams params (parseParams C r.body), 0)
    | _ => (params, 0)

end Request

/-- Two digits at least. -/
def padTwo (n : Nat) : Text := (Data.natText n).leftpad 2 '0'

section Capture

variable (C : Crates)

/-- `param_keys`, `param_types` and `param_lens`. -/
def paramKeys (params : Params) : Text :=
  if params = [] then "nil".toList else params.map fun p => p.1.head?.getD ' '

def paramTypes (params : Params) : Text :=
  if params = [] then "nil".toList else params.map fun p => detectType C p.2

def paramLens (params : Params) : Text :=
  if params = [] then "0".toList
  else ['-'].intercalate (params.map fun p => Data.natText p.2.length)

/-- The fields of the request phase. -/
def requestFields (r : Request) : List Text :=
  let (hdrCount, hdrList, hdrs) := parseHeaders r.rawHdrs
  let params := (r.allParams C).1
  [base62Encode (Rust.asBytes r.pathText), (r.methodText.take 2).map Char.toLower,
    httpVerCode r.ver, padTwo (getPathDepth r.pathText), paramKeys params, paramTypes C params,
    paramLens params, getReqCtype hdrs, padTwo hdrCount, hdrList, getAcceptLang hdrs,
    [getAuthType hdrs], [if (header hdrs "cookie").isSome then 'c' else 'n'], getCookieFields hdrs,
    [getRefererFlag hdrs]]

/-- `capture_request`: `txn.req_fp_partial`. -/
def captureRequest (r : Request) : Text := ['_'].intercalate (requestFields C r)

/-- The status and the header block of a response. -/
structure Response where
  status : Option Text
  resHdrs : Option Text

/-- The fields of the response phase. -/
def responseFields (s : Response) : List Text :=
  let status := (Rust.parseI64 (s.status.getD [])).getD 0
  let bodyBytes := (((Data.Dict.lookup (headersOf (s.resHdrs.getD [])) "content-length".toList).bind
    Rust.parseI64).filter fun v => 0 < v).getD 0
  [Data.intText status, Data.intText bodyBytes]

/-- `capture_response`: `txn.req_fp`, if the request was captured. -/
def captureResponse (partialFp : Text) (s : Response) : Option Text :=
  if partialFp = [] then none
  else some (['_'].intercalate (partialFp :: responseFields s))

/-- **No initial is an underscore**: neither of the first characters of the method, nor one of those
of the parameters, the headers and the cookies. -/
structure Plain (r : Request) : Prop where
  method : '_' ∉ r.methodText.take 2
  params : ∀ p ∈ (r.allParams C).1, p.1.head? ≠ some '_'
  headers : '_' ∉ (r.hdrs.filterMap fun h => h.1.head?).take maxParams
  cookies v : header r.hdrs "cookie" = some v →
    '_' ∉ ((cookieNames v).take maxParams).filterMap List.head?

end Capture

/-! ### Fields without underscores -/

theorem toLower_eq_underscore {c : Char} : c.toLower = '_' ↔ c = '_' := by
  refine ⟨fun h => ?_, fun h => by rw [h]; decide⟩
  unfold Char.toLower at h
  split at h
  next hupper =>
    -- a lower case letter is behind the underscore
    exfalso
    have hval := congrArg (fun c : Char => c.val.toNat) h
    have hle := UInt32.le_iff_toNat_le.mp hupper.1
    have hge := UInt32.le_iff_toNat_le.mp hupper.2
    simp only [UInt32.toNat_add] at hval
    revert hval hle hge
    show 65 ≤ c.val.toNat → c.val.toNat ≤ 90 → (c.val.toNat + 32) % 4294967296 = 95 → False
    omega
  next => exact h

theorem underscore_mem_map_toLower {t : Text} : '_' ∈ t.map Char.toLower ↔ '_' ∈ t := by
  rw [List.mem_map]
  constructor
  · rintro ⟨c, hc, hlower⟩
    exact toLower_eq_underscore.mp hlower ▸ hc
  · exact fun h => ⟨'_', h, rfl⟩

theorem underscore_mem_mergeSort {t : Text} :
    '_' ∈ t.mergeSort (fun a b => decide (a ≤ b)) ↔ '_' ∈ t :=
  List.mem_mergeSort

theorem not_mem_natText (n : Nat) : '_' ∉ Data.natText n := fun h =>
  absurd (Data.natText_isDigit n '_' h) (by decide)

theorem not_mem_intText (n : Int) : '_' ∉ Data.intText n := by
  cases n with
  | ofNat n => exact not_mem_natText n
  | negSucc n => exact List.mem_cons.not.mpr (not_or.mpr ⟨by decide, not_mem_natText _⟩)

theorem not_mem_base62 (s : List UInt8) : '_' ∉ base62Encode s := by
  have hchar : ∀ d < 62, b62Char d ≠ '_' := by decide +kernel
  rw [base62Encode_eq, base62]
  split
  · decide
  · intro h
    obtain ⟨d, hd, hchar'⟩ := List.mem_map.mp h
    exact hchar d (Data.LongDivision.numeral_lt (by decide) _ d hd) hchar'

theorem not_mem_httpVerCode (ver : Text) : '_' ∉ httpVerCode ver := by
  unfold httpVerCode
  repeat' split
  all_goals decide

theorem not_mem_padTwo (n : Nat) : '_' ∉ padTwo n := by
  rw [padTwo, List.leftpad, List.mem_append, not_or]
  refine ⟨fun h => ?_, not_mem_natText n⟩
  exact absurd (List.eq_of_mem_replicate h) (by decide)

theorem detectType_ne (C : Crates) (v : Text) : detectType C v ≠ '_' := by
  unfold detectType
  dsimp only
  repeat' split
  all_goals decide

theorem not_mem_paramTypes (C : Crates) (params : Params) : '_' ∉ paramTypes C params := by
  unfold paramTypes
  split
  · decide
  · intro h
    obtain ⟨p, -, hp⟩ := List.mem_map.mp h
    exact detectType_ne C p.2 hp

theorem not_mem_intercalate {c : Char} {ts : List Text} (hc : c ≠ '_') (h : ∀ t ∈ ts, '_' ∉ t) :
    '_' ∉ [c].intercalate ts := by
  induction ts with
  | nil => exact List.not_mem_nil
  | cons t ts ih =>
      obtain ⟨ht, hts⟩ := List.forall_mem_cons.mp h
      cases ts with
      | nil => simpa using ht
      | cons u ts =>
          rw [List.intercalate_cons_cons, List.mem_append, List.mem_append, List.mem_singleton]
          exact not_or.mpr ⟨not_or.mpr ⟨ht, hc.symm⟩, ih hts⟩

theorem not_mem_paramLens (params : Params) : '_' ∉ paramLens params := by
  unfold paramLens
  split
  · decide
  · refine not_mem_intercalate (by decide) fun t ht => ?_
    obtain ⟨p, -, rfl⟩ := List.mem_map.mp ht
    exact not_mem_natText _

theorem not_mem_fourLetters (t : Text) : '_' ∉ fourLetters t := by
  rw [fourLetters, List.rightpad, List.mem_append, underscore_mem_map_toLower, not_or]
  constructor
  · intro h
    exact absurd (List.of_mem_filter (List.mem_of_mem_take h)) (by decide)
  · exact fun h => absurd (List.eq_of_mem_replicate h) (by decide)

theorem not_mem_getReqCtype (hdrs : Headers) : '_' ∉ getReqCtype hdrs := by
  unfold getReqCtype
  split
  · decide
  · exact not_mem_fourLetters _

theorem not_mem_getAcceptLang (hdrs : Headers) : '_' ∉ getAcceptLang hdrs := by
  unfold getAcceptLang
  split
  · decide
  · exact not_mem_fourLetters _

theorem getAuthType_ne (hdrs : Headers) : getAuthType hdrs ≠ '_' := by
  unfold getAuthType
  cases header hdrs "authorization" with
  | none => decide
  | some val =>
      dsimp only
      split_ifs <;> decide

theorem getRefererFlag_ne (hdrs : Headers) : getRefererFlag hdrs ≠ '_' := by
  unfold getRefererFlag
  split
  · decide
  · decide
  · split
    · decide
    · dsimp only
      split_ifs <;> decide

/-! ### Initials -/

theorem paramKeys_iff (params : Params) :
    '_' ∉ paramKeys params ↔ ∀ p ∈ params, p.1.head? ≠ some '_' := by
  unfold paramKeys
  split
  next hnil =>
    subst hnil
    exact iff_of_true (by decide) fun p hp => absurd hp List.not_mem_nil
  next =>
    rw [List.mem_map, not_exists]
    refine forall_congr' fun p => ?_
    rw [not_and]
    refine imp_congr_right fun _ => not_congr ?_
    cases p.1.head? with
    | none => exact iff_of_false (by decide) (by simp)
    | some c => rw [Option.getD_some, Option.some.injEq]

/-- The list of a message without headers has no underscore, and no initials either. -/
theorem hdrList_iff (raw : Text) :
    '_' ∉ (parseHeaders raw).2.1 ↔
      '_' ∉ ((headersOf raw).filterMap fun h => h.1.head?).take maxParams := by
  unfold parseHeaders
  dsimp only
  split
  next hzero =>
    have hlength : (((headersOf raw).filterMap fun h => h.1.head?).take maxParams).length = 0 := by
      omega
    rw [List.eq_nil_of_length_eq_zero hlength]
    exact iff_of_true (by decide : '_' ∉ "nil".toList) List.not_mem_nil
  next => exact underscore_mem_mergeSort.not

theorem parseHeaders_hdrs (raw : Text) : (parseHeaders raw).2.2 = headersOf raw := by
  unfold parseHeaders
  dsimp only
  split <;> rfl

theorem getCookieFields_iff (hdrs : Headers) :
    '_' ∉ getCookieFields hdrs ↔ ∀ v, header hdrs "cookie" = some v →
      '_' ∉ ((cookieNames v).take maxParams).filterMap List.head? := by
  unfold getCookieFields
  cases header hdrs "cookie" with
  | none => exact iff_of_true (by decide) fun v hv => by cases hv
  | some v =>
      have hone : (∀ w, some v = some w → '_' ∉ ((cookieNames w).take maxParams).filterMap List.head?) ↔
          '_' ∉ ((cookieNames v).take maxParams).filterMap List.head? :=
        ⟨fun h => h v rfl, fun h w hw => Option.some.inj hw ▸ h⟩
      rw [hone, ← @underscore_mem_map_toLower (((cookieNames v).take maxParams).filterMap List.head?)]
      dsimp only
      split
      next hnil =>
        rw [hnil]
        exact iff_of_true (by decide) List.not_mem_nil
      next => exact underscore_mem_mergeSort.not

/-! ### Splitting -/

/-- The parts of a text have none of the characters that it is split at. -/
theorem not_mem_of_mem_split {c : Char} {t part : Text} (h : part ∈ Rust.split c t) : c ∉ part := by
  rw [Rust.split] at h
  induction t generalizing part with
  | nil =>
      rw [List.splitOn_nil, List.mem_singleton] at h
      exact h ▸ List.not_mem_nil
  | cons d t ih =>
      rw [List.splitOn_cons_eq_if_modifyHead] at h
      split at h
      next =>
        rcases List.mem_cons.mp h with rfl | hrest
        · exact List.not_mem_nil
        · exact ih hrest
      next hd =>
        cases hsplit : t.splitOn c with
        | nil => exact absurd hsplit (List.splitOn_ne_nil c t)
        | cons first rest =>
            rw [hsplit, List.modifyHead_cons] at h
            rcases List.mem_cons.mp h with rfl | hrest
            · have hfirst := ih (hsplit ▸ List.mem_cons_self)
              exact List.mem_cons.not.mpr (not_or.mpr ⟨fun hc => hd (by simp [hc]), hfirst⟩)
            · exact ih (hsplit ▸ List.mem_cons_of_mem first hrest)

/-- **Joined texts are split again** exactly if none has the character in it. -/
theorem split_intercalate_iff {c : Char} {ts : List Text} (hne : ts ≠ []) :
    Rust.split c ([c].intercalate ts) = ts ↔ ∀ t ∈ ts, c ∉ t := by
  constructor
  · intro h t ht
    rw [← h] at ht
    exact not_mem_of_mem_split ht
  · exact fun h => List.splitOn_intercalate c h hne

/-- Joined texts can be joined with others. -/
theorem intercalate_intercalate (sep : Text) {ts us : List Text} (hne : ts ≠ []) (hus : us ≠ []) :
    sep.intercalate (sep.intercalate ts :: us) = sep.intercalate (ts ++ us) := by
  induction ts with
  | nil => exact absurd rfl hne
  | cons t ts ih =>
      cases ts with
      | nil => simp
      | cons u ts =>
          have hrest := ih (List.cons_ne_nil u ts)
          obtain ⟨v, us', rfl⟩ := List.exists_cons_of_ne_nil hus
          rw [List.intercalate_cons_cons] at hrest ⊢
          rw [List.intercalate_cons_cons, List.cons_append, List.cons_append,
            List.intercalate_cons_cons]
          rw [List.cons_append] at hrest
          rw [← hrest]
          simp only [List.append_assoc]

/-! ### Fingerprints -/

section Fingerprints

variable (C : Crates) (r : Request)

theorem requestFields_ne_nil : requestFields C r ≠ [] := List.cons_ne_nil _ _

/-- **The fields of a request** have no underscores exactly if no initial is one. -/
theorem requestFields_iff : (∀ f ∈ requestFields C r, '_' ∉ f) ↔ Plain C r := by
  have hcookie : ∀ b : Bool, '_' ∉ [if b then 'c' else 'n'] := by decide
  have hauth : '_' ∉ [getAuthType r.hdrs] := fun h =>
    getAuthType_ne _ (List.mem_singleton.mp h).symm
  have hreferer : '_' ∉ [getRefererFlag r.hdrs] := fun h =>
    getRefererFlag_ne _ (List.mem_singleton.mp h).symm
  have hfields : (∀ f ∈ requestFields C r, '_' ∉ f) ↔
      '_' ∉ (r.methodText.take 2).map Char.toLower ∧ '_' ∉ paramKeys (r.allParams C).1 ∧
        '_' ∉ (parseHeaders r.rawHdrs).2.1 ∧ '_' ∉ getCookieFields r.hdrs := by
    unfold requestFields
    dsimp only
    rw [parseHeaders_hdrs]
    simp only [List.forall_mem_cons, not_mem_base62, not_mem_httpVerCode, not_mem_padTwo,
      not_mem_paramTypes, not_mem_paramLens, not_mem_getReqCtype, not_mem_getAcceptLang,
      not_false_eq_true, true_and]
    constructor
    · rintro ⟨hmethod, hkeys, hlist, -, -, hcookies, -⟩
      exact ⟨hmethod, hkeys, hlist, hcookies⟩
    · rintro ⟨hmethod, hkeys, hlist, hcookies⟩
      exact ⟨hmethod, hkeys, hlist, hauth, hcookie _, hcookies, hreferer,
        fun f hf => absurd hf List.not_mem_nil⟩
  rw [hfields, underscore_mem_map_toLower, paramKeys_iff, hdrList_iff, getCookieFields_iff]
  exact ⟨fun ⟨hmethod, hparams, hheaders, hcookies⟩ => ⟨hmethod, hparams, hheaders, hcookies⟩,
    fun ⟨hmethod, hparams, hheaders, hcookies⟩ => ⟨hmethod, hparams, hheaders, hcookies⟩⟩

theorem responseFields_clean (s : Response) : ∀ f ∈ responseFields s, '_' ∉ f := by
  unfold responseFields
  dsimp only
  refine List.forall_mem_cons.mpr ⟨not_mem_intText _, List.forall_mem_cons.mpr ⟨not_mem_intText _, ?_⟩⟩
  exact fun f hf => absurd hf List.not_mem_nil

theorem captureResponse_captureRequest (s : Response) :
    captureResponse (captureRequest C r) s =
      some (['_'].intercalate (requestFields C r ++ responseFields s)) := by
  have hne : captureRequest C r ≠ [] := by
    -- there is an underscore behind the first field
    rw [captureRequest, requestFields]
    simp
  have hresponse : responseFields s ≠ [] := List.cons_ne_nil _ _
  rw [captureResponse, if_neg hne, captureRequest,
    intercalate_intercalate _ (requestFields_ne_nil C r) hresponse]

/-- **Fingerprints**: that of the request phase and that of the response phase are split into their
fields exactly if no initial is an underscore. -/
theorem splits_iff :
    (Rust.split '_' (captureRequest C r) = requestFields C r ↔ Plain C r) ∧
      ∀ s, (∃ full, captureResponse (captureRequest C r) s = some full ∧
        Rust.split '_' full = requestFields C r ++ responseFields s) ↔ Plain C r := by
  refine ⟨?_, fun s => ?_⟩
  · rw [captureRequest, split_intercalate_iff (requestFields_ne_nil C r), requestFields_iff]
  · have hsome : (∃ full, captureResponse (captureRequest C r) s = some full ∧
        Rust.split '_' full = requestFields C r ++ responseFields s) ↔
          Rust.split '_' (['_'].intercalate (requestFields C r ++ responseFields s)) =
            requestFields C r ++ responseFields s := by
      rw [captureResponse_captureRequest]
      exact ⟨fun ⟨full, hfull, hsplit⟩ => Option.some.inj hfull ▸ hsplit, fun h => ⟨_, rfl, h⟩⟩
    rw [hsome, split_intercalate_iff (List.append_ne_nil_of_left_ne_nil (requestFields_ne_nil C r) _),
      List.forall_mem_append, requestFields_iff, and_iff_left (responseFields_clean s)]

end Fingerprints

/-! ### A header that adds a field -/

/-- Crates that find no parameters. -/
def testCrates : Crates := ⟨fun _ => [], fun _ => none, fun _ => [], Char.isDigit⟩

/-- A request with a header whose name is an underscore and a letter. -/
def underscoreRequest : Request where
  reqHdrs := some "_x: 1\r\nHost: a\r\n".toList
  path := some "/".toList
  method := some "GET".toList
  query := some []
  reqVer := some "1.1".toList
  apiBody := []
  reqFpBody := []

/-- **The initial of a header name adds a field**: the list of the header initials has an underscore,
and the fingerprint is not split into its fields. -/
theorem underscored :
    '_' ∈ (parseHeaders underscoreRequest.rawHdrs).2.1 ∧
      Rust.split '_' (captureRequest testCrates underscoreRequest) ≠
        requestFields testCrates underscoreRequest := by
  have hinitial : '_' ∈ (underscoreRequest.hdrs.filterMap fun h => h.1.head?).take maxParams := by
    decide +kernel
  have hlist : '_' ∈ (parseHeaders underscoreRequest.rawHdrs).2.1 := by
    by_contra hnot
    exact (hdrList_iff _).mp hnot hinitial
  refine ⟨hlist, fun hsplit => ?_⟩
  rw [captureRequest, split_intercalate_iff (requestFields_ne_nil _ _), requestFields_iff] at hsplit
  exact hsplit.headers hinitial

end CorexManager.ReqFp
