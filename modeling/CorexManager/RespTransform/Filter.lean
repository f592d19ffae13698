import CorexManager.RespTransform.Rules

/-!
# Headers and bodies of the transformation filter

The header callbacks remember the rules that match, by their positions in the list of rules; the
body is transformed by what is at these positions when it is complete.  A compressed body of a
response is decompressed up to the size of the longest body that one of the rules is for, and it is
compressed again.

* `readLimited_eq` — what a decoder is read to.
* `Filter.processResponseHeaders`, `Filter.processRequestHeaders` — the header callbacks.
* `Filter.transformResponseBody`, `Filter.transformRequestBody` — the bodies.
-/

namespace CorexManager.RespTransform

open Crypto (Bytes)
open Data (Text)

/-! ### Content codings -/

inductive Coding where
  | gzip
  | deflate
  | brotli
  | zstd
  deriving DecidableEq

/-- A codec: what the reads of its decoder give, up to an error, and its encoder. -/
structure Codec where
  reads : Bytes → List (Option Bytes)
  encode : Bytes → Option Bytes

/-- What a decoder gives in all: an empty read is the end. -/
def readAll : List (Option Bytes) → Option Bytes
  | [] => some []
  | none :: _ => none
  | some [] :: _ => some []
  | some (b :: chunk) :: rest => (readAll rest).map fun tail => b :: chunk ++ tail

/-- What a codec decodes. -/
def Codec.decode (c : Codec) (body : Bytes) : Option Bytes := readAll (c.reads body)

/-- The decoder undoes the encoder, which never fails. -/
def Codec.Lawful (c : Codec) : Prop := ∀ body, ∃ coded, c.encode body = some coded ∧
  c.decode coded = some body

/-- The loop of `read_limited`. -/
def readLimitedFrom (limit : Nat) (result : Bytes) : List (Option Bytes) → Option Bytes
  | [] => some result
  | none :: _ => none
  | some [] :: _ => some result
  | some (b :: chunk) :: rest =>
      if limit < (result ++ b :: chunk).length then none
      else readLimitedFrom limit (result ++ b :: chunk) rest

/-- `read_limited`. -/
def readLimited (reads : List (Option Bytes)) (limit : Nat) : Option Bytes :=
  readLimitedFrom limit [] reads

theorem readLimitedFrom_eq {limit : Nat} {result : Bytes} (h : result.length ≤ limit)
    (reads : List (Option Bytes)) : readLimitedFrom limit result reads =
      ((readAll reads).map (result ++ ·)).filter (·.length ≤ limit) := by
  fun_induction readLimitedFrom limit result reads with
  | case1 => simp [readAll, Option.filter, h]
  | case2 => rfl
  | case3 => simp [readAll, Option.filter, h]
  | case4 result b chunk rest hlimit =>
      symm
      rw [Option.filter_eq_none_iff]
      intro body hbody
      obtain ⟨all, hall, rfl⟩ := Option.map_eq_some_iff.mp hbody
      obtain ⟨tail, -, rfl⟩ := Option.map_eq_some_iff.mp hall
      simp only [List.length_append, List.length_cons, decide_eq_true_eq] at hlimit ⊢
      omega
  | case5 result b chunk rest hlimit ih =>
      rw [ih (Nat.le_of_not_lt hlimit), readAll, Option.map_map]
      congr 2
      funext tail
      simp

/-- What is decoded, unless it is too long. -/
theorem readLimited_eq (reads : List (Option Bytes)) (limit : Nat) :
    readLimited reads limit = (readAll reads).filter (·.length ≤ limit) := by
  rw [readLimited, readLimitedFrom_eq (Nat.zero_le _)]
  simp

/-- A name of a coding without its historical `x-`. -/
def withoutAlias (raw : Text) : Text :=
  if raw = "x-gzip".toList then "gzip".toList
  else if raw = "x-brotli".toList then "brotli".toList
  else if raw = "x-deflate".toList then "deflate".toList
  else raw

/-- The coding of a canonical name. -/
def codingOf (name : Text) : Option Coding :=
  if name = "gzip".toList then some .gzip
  else if name = "deflate".toList then some .deflate
  else if name = "br".toList ∨ name = "brotli".toList then some .brotli
  else if name = "zstd".toList then some .zstd
  else none

/-- `canonical_encoding`, of the first name of a list. -/
def canonicalEncoding (encoding : Text) : Text :=
  withoutAlias <| Rust.toAsciiLowercase <| Rust.trim <|
    ((Rust.split ',' (Rust.trim encoding)).headD encoding)

/-- `is_supported_encoding`. -/
def isSupportedEncoding (encoding : Text) : Bool := (codingOf (canonicalEncoding encoding)).isSome

section Codecs

variable (codec : Coding → Codec)

/-- `decompress_response`. -/
def decompressResponse (encoding : Text) (body : Bytes) (limit : Nat) : Option Bytes :=
  (codingOf (canonicalEncoding encoding)).bind fun c => readLimited ((codec c).reads body) limit

/-- `recompress_response`. -/
def recompressResponse (encoding : Text) (body : Bytes) : Option Bytes :=
  (codingOf (canonicalEncoding encoding)).bind fun c => (codec c).encode body

end Codecs

/-! ### The filter -/

/-- What the callback reads of a response and of its transaction. -/
structure ResponseHead where
  status : Nat
  isDiskCacheEligible : Text
  path : Text
  contentType : Option Text
  contentLength : Option Text
  contentEncoding : Option Text

/-- The fields of the filter that headers and bodies have to do with. -/
structure Filter where
  activeResponse : Bool := false
  activeRequest : Bool := false
  responseRules : List Nat := []
  requestRules : List Nat := []
  bodyBuf : Bytes := []
  contentType : Text := []
  responseEncoding : Text := []
  decompressLimit : Nat := 0
  converted : Bool := false
  out : Bytes := []

/-- The positions at which a list has what passes a test. -/
def positions {α : Type} (p : α → Bool) (l : List α) : List Nat :=
  (l.zipIdx.filter fun x => p x.1).map Prod.snd

/-- What a list has at some positions; those behind its end are passed over. -/
def atPositions {α : Type} (l : List α) (is : List Nat) : List α := is.filterMap (l[·]?)

section Positions

variable {α : Type} {p : α → Bool} {l : List α}

theorem mem_positions {i : Nat} : i ∈ positions p l ↔ ∃ a, l[i]? = some a ∧ p a = true := by
  simp only [positions, List.mem_map, List.mem_filter, List.mem_zipIdx_iff_getElem?]
  constructor
  · rintro ⟨⟨a, j⟩, ⟨hmem, hp⟩, rfl⟩
    exact ⟨a, hmem, hp⟩
  · rintro ⟨a, hmem, hp⟩
    exact ⟨(a, i), ⟨hmem, hp⟩, rfl⟩

/-- The list still has what it had at its positions. -/
theorem atPositions_positions (p : α → Bool) (l : List α) :
    atPositions l (positions p l) = l.filter p := by
  have hthere : ∀ x ∈ l.zipIdx.filter fun x => p x.1, l[x.2]? = some x.1 := fun x hx =>
    List.mem_zipIdx_iff_getElem?.mp (List.mem_of_mem_filter hx)
  calc atPositions l (positions p l)
      = (l.zipIdx.filter fun x => p x.1).filterMap fun x => l[x.2]? := List.filterMap_map
    _ = (l.zipIdx.filter fun x => p x.1).filterMap fun x => some x.1 :=
        List.filterMap_congr hthere
    _ = (l.zipIdx.filter fun x => p x.1).map Prod.fst := by
        rw [List.filterMap_eq_map']
    _ = (l.zipIdx.map Prod.fst).filter p := List.filter_map.symm
    _ = l.filter p := by rw [List.zipIdx_map_fst]

end Positions

/-- A rule matches the headers of a response. -/
def matchesResponse (ct path : Text) (r : CompiledRule) : Bool :=
  r.contentTypeMatches ct && r.pathMatches path

/-- A rule matches every request. -/
def matchesRequest (r : CompiledRule) : Bool := r.rule.transformType == "mask".toList

namespace Filter

variable (rules : List CompiledRule) (f : Filter)

/-- The largest body that one of the rules at some positions is for. -/
def applicableSize (matching : List Nat) : Nat :=
  ((atPositions rules matching).map fun r => r.rule.maxBodySize).max?.getD 0

/-- A side becomes active: its body is buffered from the beginning. -/
def reset : Filter := { f with bodyBuf := [], converted := false, out := [] }

/-- `process_response_headers`, with the rules that `get_rules` gives. -/
def processResponseHeaders (head : ResponseHead) : Filter :=
  if head.status < 200 ∨ 300 ≤ head.status then { f with activeResponse := false }
  else if head.isDiskCacheEligible ≠ [] then { f with activeResponse := false }
  else
    let ct := Rust.toAsciiLowercase (head.contentType.getD [])
    let matching := positions (matchesResponse ct head.path) rules
    let ce := Rust.toAsciiLowercase (head.contentEncoding.getD [])
    if matching = [] then { f with contentType := ct, activeResponse := false }
    else
      let size := applicableSize rules matching
      let g := { f with contentType := ct, decompressLimit := size }
      if (head.contentLength.bind fun cl => Rust.parseUsize (Rust.trim cl)).any (size < ·) then
        { g with activeResponse := false }
      else if ce ≠ [] ∧ isSupportedEncoding ce = false then
        { g with responseEncoding := ce, activeResponse := false }
      else
        { g.reset with
          responseEncoding := ce
          responseRules := matching
          activeResponse := true }

/-- `process_request_headers`. -/
def processRequestHeaders (contentType : Option Text) : Filter :=
  let maskRules := positions matchesRequest rules
  if maskRules = [] then { f with activeRequest := false }
  else
    { f.reset with
      contentType := Rust.toAsciiLowercase (contentType.getD [])
      requestRules := maskRules
      activeRequest := true }

variable (codec : Coding → Codec) (env : Env)

/-- What `transform_response_body` returns. -/
def transformResponseBody : Bytes :=
  let applied := applyRules env 0 (atPositions rules f.responseRules)
  if f.responseEncoding = [] then applied f.bodyBuf
  else
    match decompressResponse codec f.responseEncoding f.bodyBuf f.decompressLimit with
    | none => f.bodyBuf
    | some decompressed =>
        if applied decompressed = decompressed then f.bodyBuf
        else (recompressResponse codec f.responseEncoding (applied decompressed)).getD
          (applied decompressed)

/-- What `transform_request_body` returns. -/
def transformRequestBody : Bytes := unmaskRules env (atPositions rules f.requestRules) f.bodyBuf

variable {rules f}

/-- What an active response is transformed by. -/
structure Ready (rules : List CompiledRule) (head : ResponseHead) (g : Filter) : Prop where
  matching : g.responseRules = positions
    (matchesResponse (Rust.toAsciiLowercase (head.contentType.getD [])) head.path) rules
  limit : g.decompressLimit = applicableSize rules g.responseRules
  encoding : g.responseEncoding = Rust.toAsciiLowercase (head.contentEncoding.getD [])
  supported : g.responseEncoding = [] ∨ isSupportedEncoding g.responseEncoding = true

/-- The response is active only with the rules that match its headers. -/
theorem ready_of_active {head : ResponseHead}
    (h : (f.processResponseHeaders rules head).activeResponse = true) :
    Ready rules head (f.processResponseHeaders rules head) := by
  unfold processResponseHeaders at h ⊢
  dsimp only at h ⊢
  split_ifs at h ⊢ with hstatus hcache hnone hlong hencoding
  refine ⟨rfl, rfl, rfl, ?_⟩
  rcases not_and_or.mp hencoding with hempty | hsupported
  · exact .inl (not_not.mp hempty)
  · exact .inr (Bool.eq_true_of_not_eq_false hsupported)

/-- The headers of a response leave the request as it is. -/
theorem processResponseHeaders_request (rules : List CompiledRule) (f : Filter)
    (head : ResponseHead) :
    (f.processResponseHeaders rules head).activeRequest = f.activeRequest ∧
      (f.processResponseHeaders rules head).requestRules = f.requestRules := by
  unfold processResponseHeaders
  dsimp only
  split_ifs <;> exact ⟨rfl, rfl⟩

/-- The request is active only with the rules for masks. -/
theorem requestRules_of_active {contentType : Option Text}
    (h : (f.processRequestHeaders rules contentType).activeRequest = true) :
    (f.processRequestHeaders rules contentType).requestRules = positions matchesRequest rules := by
  unfold processRequestHeaders at h ⊢
  dsimp only at h ⊢
  split_ifs at h ⊢
  rfl

/-- The headers of a request leave the response as it is. -/
theorem processRequestHeaders_response (rules : List CompiledRule) (f : Filter)
    (contentType : Option Text) :
    (f.processRequestHeaders rules contentType).activeResponse = f.activeResponse ∧
      (f.processRequestHeaders rules contentType).responseRules = f.responseRules := by
  unfold processRequestHeaders
  dsimp only
  split_ifs <;> exact ⟨rfl, rfl⟩

end Filter

end CorexManager.RespTransform
