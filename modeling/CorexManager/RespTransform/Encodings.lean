import CorexManager.RespTransform.Filter

/-!
# Compressed bodies

The body of a compressed response is decompressed by the coding that its header names first, and it
is compressed by it again; the header is left as it is.  A header names the codings in the order in
which they were applied, so the first of several is the one to be undone last.

* `decodeNames` — what a header says of a body.
* `Described` — the body that is returned is what the header says, with the rules applied.
* `described_iff` — whatever the codecs and the rules, exactly when the header names one coding.
* `two_codings` — a header that names two.
-/

namespace CorexManager.RespTransform

open Crypto (Bytes)
open Data (Text)

/-! ### What a header says -/

/-- The names of the codings in a header, in the order in which they were applied. -/
def codingNames (header : Text) : List Text :=
  ((Rust.split ',' (Rust.trim header)).map fun name =>
    withoutAlias (Rust.toAsciiLowercase (Rust.trim name))).filter fun name =>
      name ≠ [] ∧ name ≠ "identity".toList

/-- A body with its codings undone, the last first. -/
def decodeNames (codec : Coding → Codec) : List Text → Bytes → Option Bytes
  | [], body => some body
  | name :: names, body => (decodeNames codec names body).bind fun inner =>
      (codingOf name).bind fun c => (codec c).decode inner

/-- The filter at the end of a response, and the rules that match its headers. -/
structure Response where
  rules : List CompiledRule
  head : ResponseHead
  filter : Filter

namespace Response

variable (codec : Coding → Codec) (env : Env) (r : Response) (body : Bytes)

/-- The response after its header callback, with its body. -/
def received : Filter :=
  { r.filter.processResponseHeaders r.rules r.head with bodyBuf := body }

/-- The rules that match applied in order. -/
def transformed (original : Bytes) : Bytes :=
  applyRules env 0 (r.rules.filter
    (matchesResponse (Rust.toAsciiLowercase (r.head.contentType.getD [])) r.head.path)) original

/-- The header, in lower case. -/
def encoding : Text := Rust.toAsciiLowercase (r.head.contentEncoding.getD [])

/-- What the header says of a body. -/
def decoded (coded : Bytes) : Option Bytes := decodeNames codec (codingNames r.encoding) coded

/-- What is returned. -/
def returned : Bytes := (r.received body).transformResponseBody r.rules codec env

/-- **The header still describes the body**: what is returned are the rules applied to what the body
was; where that is nothing new, or the body cannot be decoded within the limit, it is the body. -/
structure Described : Prop where
  decodes original : r.decoded codec body = some original →
    original.length ≤ (r.received body).decompressLimit →
      r.decoded codec (r.returned codec env body) = some (r.transformed env original)
  kept : (∀ original, r.decoded codec body = some original →
    original.length ≤ (r.received body).decompressLimit → r.transformed env original = original) →
      r.returned codec env body = body

end Response

/-! ### One coding -/

section One

variable {codec : Coding → Codec} {env : Env} {r : Response} {body : Bytes}

theorem names_eq_cons (header : Text) : ∃ others,
    (Rust.split ',' (Rust.trim header)).map (fun name =>
      withoutAlias (Rust.toAsciiLowercase (Rust.trim name))) = canonicalEncoding header :: others := by
  cases hsplit : Rust.split ',' (Rust.trim header) with
  | nil =>
      have hpos := Rust.split_length_pos ',' (Rust.trim header)
      rw [hsplit] at hpos
      exact absurd hpos (lt_irrefl 0)
  | cons first rest =>
      rw [canonicalEncoding, hsplit]
      exact ⟨_, rfl⟩

/-- A supported header names its first coding. -/
theorem codingNames_supported {header : Text} (h : isSupportedEncoding header = true) :
    ∃ others, codingNames header = canonicalEncoding header :: others := by
  obtain ⟨others, hothers⟩ := names_eq_cons header
  have hname : canonicalEncoding header ≠ [] ∧ canonicalEncoding header ≠ "identity".toList := by
    constructor
    · intro heq
      rw [isSupportedEncoding, heq] at h
      cases h
    · intro heq
      rw [isSupportedEncoding, heq] at h
      cases h
  rw [codingNames, hothers]
  exact ⟨_, List.filter_cons_of_pos (decide_eq_true hname)⟩

theorem Response.ready (h : (r.received body).activeResponse = true) :
    Filter.Ready r.rules r.head (r.filter.processResponseHeaders r.rules r.head) :=
  Filter.ready_of_active h

/-- The rules at the remembered positions are those that match. -/
theorem Response.applied_eq (h : (r.received body).activeResponse = true) :
    applyRules env 0 (atPositions r.rules (r.received body).responseRules) = r.transformed env := by
  have hready := Response.ready h
  funext original
  rw [received, hready.matching, atPositions_positions]
  rfl

/-- A body that is longer than the limit is too long for every rule that matches. -/
theorem Response.transformed_long (h : (r.received body).activeResponse = true)
    (hlong : (r.received body).decompressLimit < body.length) : r.transformed env body = body := by
  have hready := Response.ready h
  refine applyRules_long (fun rule hrule => lt_of_le_of_lt ?_ hlong) 0
  have hlimit : (r.received body).decompressLimit = _ := hready.limit
  rw [hlimit, Filter.applicableSize, hready.matching, atPositions_positions]
  exact List.le_max?_getD_of_mem (List.mem_map_of_mem hrule)

/-- A body that is not compressed. -/
theorem Response.described_plain (h : (r.received body).activeResponse = true)
    (hplain : r.encoding = []) : r.Described codec env body := by
  have hready := Response.ready h
  have hencoding : (r.received body).responseEncoding = [] := hready.encoding.trans hplain
  have hdecoded : ∀ coded, r.decoded codec coded = some coded := by
    intro coded
    rw [decoded, hplain]
    rfl
  have hreturned : r.returned codec env body = r.transformed env body := by
    rw [returned, Filter.transformResponseBody, if_pos hencoding, applied_eq h]
    rfl
  constructor
  · intro original horiginal _
    obtain rfl : body = original := Option.some.inj ((hdecoded body).symm.trans horiginal)
    rw [hdecoded, hreturned]
  · intro hsame
    rw [hreturned]
    by_cases hlong : body.length ≤ (r.received body).decompressLimit
    · exact hsame body (hdecoded body) hlong
    · exact transformed_long h (Nat.lt_of_not_le hlong)

/-- What is returned for a body that is decompressed by a coding. -/
theorem Response.returned_eq (h : (r.received body).activeResponse = true) {c : Coding}
    (hc : codingOf (canonicalEncoding r.encoding) = some c) : r.returned codec env body =
      match ((codec c).decode body).filter (·.length ≤ (r.received body).decompressLimit) with
      | none => body
      | some original =>
          if r.transformed env original = original then body
          else ((codec c).encode (r.transformed env original)).getD (r.transformed env original) := by
  have hready := Response.ready h
  have hencoding : (r.received body).responseEncoding = r.encoding := hready.encoding
  have hne : r.encoding ≠ [] := by
    intro heq
    rw [heq] at hc
    cases hc
  unfold returned Filter.transformResponseBody
  simp only [hencoding, hne, if_false, decompressResponse, recompressResponse, hc,
    Option.bind_some, readLimited_eq, applied_eq h]
  rfl

/-- A body that is compressed once. -/
theorem Response.described_once (hcodec : ∀ c, (codec c).Lawful)
    (h : (r.received body).activeResponse = true) {c : Coding}
    (hc : codingOf (canonicalEncoding r.encoding) = some c)
    (honce : codingNames r.encoding = [canonicalEncoding r.encoding]) :
    r.Described codec env body := by
  have hreturned : r.returned codec env body = _ := returned_eq h hc
  have hdecoded : ∀ coded, r.decoded codec coded = (codec c).decode coded := by
    intro coded
    rw [decoded, honce, decodeNames, decodeNames, Option.bind_some, hc, Option.bind_some]
  cases horiginal :
    ((codec c).decode body).filter (·.length ≤ (r.received body).decompressLimit) with
  | none =>
      rw [horiginal] at hreturned
      refine ⟨fun original hsome hle => ?_, fun _ => hreturned⟩
      rw [hdecoded] at hsome
      exact absurd hle (by simpa using Option.filter_eq_none_iff.mp horiginal original hsome)
  | some original =>
      obtain ⟨hsome, hle⟩ := Option.filter_eq_some_iff.mp horiginal
      have hsame : ∀ other, r.decoded codec body = some other → original = other := by
        intro other hother
        rw [hdecoded] at hother
        exact Option.some.inj (hsome.symm.trans hother)
      rw [horiginal] at hreturned
      dsimp only at hreturned
      by_cases hnew : r.transformed env original = original
      · rw [if_pos hnew] at hreturned
        refine ⟨fun other hother _ => ?_, fun _ => hreturned⟩
        obtain rfl := hsame other hother
        rw [hreturned, hdecoded, hsome, hnew]
      · rw [if_neg hnew] at hreturned
        obtain ⟨coded, hcoded, hdecode⟩ := hcodec c (r.transformed env original)
        rw [hcoded, Option.getD_some] at hreturned
        refine ⟨fun other hother _ => ?_, fun hkept => ?_⟩
        · obtain rfl := hsame other hother
          rw [hreturned, hdecoded, hdecode]
        · rw [← hdecoded] at hsome
          exact absurd (hkept original hsome (of_decide_eq_true hle)) hnew

end One

/-! ### Two codings -/

/-- A codec that is known at one text; the codes of the others are longer than that of this one. -/
def knownCodec (plain coded : Bytes) : Codec where
  reads body :=
    [if body = coded then some plain
      else if 0 :: coded <+: body then some (body.drop (coded.length + 1))
      else none]
  encode body := some (if body = plain then coded else 0 :: (coded ++ body))

theorem readAll_singleton (o : Option Bytes) : readAll [o] = o := by
  rcases o with _ | _ | ⟨b, chunk⟩
  · rfl
  · rfl
  · simp [readAll]

theorem decode_knownCodec (plain coded body : Bytes) : (knownCodec plain coded).decode body =
    if body = coded then some plain
    else if 0 :: coded <+: body then some (body.drop (coded.length + 1))
    else none := readAll_singleton _

theorem knownCodec_lawful (plain coded : Bytes) : (knownCodec plain coded).Lawful := by
  intro body
  refine ⟨_, rfl, ?_⟩
  rw [decode_knownCodec]
  split
  · next hplain => rw [if_pos rfl, hplain]
  · have hne : 0 :: (coded ++ body) ≠ coded := by
      intro heq
      have hlength := congrArg List.length heq
      rw [List.length_cons, List.length_append] at hlength
      omega
    rw [if_neg hne, if_pos ⟨body, rfl⟩]
    show some (((0 :: coded) ++ body).drop (0 :: coded).length) = some body
    rw [List.drop_left]

section Twice

variable {c : Codec} {plain body : Bytes}

/-- What is decoded once is not decoded again. -/
theorem decodeNames_of_inner (hplain : c.decode plain = none) {name : Text} {names : List Text}
    (h : decodeNames (fun _ => c) names body = none ∨
      decodeNames (fun _ => c) names body = some plain) :
    decodeNames (fun _ => c) (name :: names) body = none := by
  rw [decodeNames]
  rcases h with h | h
  · rw [h, Option.bind_none]
  · rw [h, Option.bind_some, hplain]
    exact Option.bind_fun_none _

theorem decodeNames_cons (hbody : c.decode body = some plain) (hplain : c.decode plain = none)
    (name : Text) (names : List Text) :
    decodeNames (fun _ => c) (name :: names) body = none ∨
      decodeNames (fun _ => c) (name :: names) body = some plain := by
  induction names generalizing name with
  | nil =>
      rw [decodeNames, decodeNames, Option.bind_some, hbody]
      cases codingOf name with
      | none => exact .inl rfl
      | some _ => exact .inr rfl
  | cons next names ih => exact .inl (decodeNames_of_inner hplain (ih next))

/-- Two codings of a body are not undone. -/
theorem decodeNames_twice (hbody : c.decode body = some plain) (hplain : c.decode plain = none)
    {names : List Text} (h : 1 < names.length) : decodeNames (fun _ => c) names body = none := by
  rcases names with _ | ⟨first, _ | ⟨second, rest⟩⟩
  · exact absurd h (Nat.not_lt_zero 1)
  · exact absurd h (lt_irrefl 1)
  · exact decodeNames_of_inner hplain (decodeNames_cons hbody hplain second rest)

end Twice

/-- The regex for the beginning of a text. -/
def startRegex : Regex where
  pieces t := ([([], emptyMatch)], t)
  join _ := rfl

/-- A rule that puts a letter in front of every text. -/
def markRule : CompiledRule where
  rule :=
    { enabled := true, priority := 0, transformType := "inject".toList, injectString := some ['x'],
      injectPosition := some "before".toList }
  findRe := some startRegex
  tokenRe := none

theorem applyRules_markRule (env : Env) {t : Text} (h : (Rust.asBytes t).length ≤ 1048576) :
    applyRules env 0 [markRule] (Rust.asBytes t) = Rust.asBytes ('x' :: t) := by
  have hlong : ¬ markRule.rule.maxBodySize < (Rust.asBytes t).length := Nat.not_lt.mpr h
  rw [applyRules, applyRules, applyRule, if_neg hlong]
  show onText _ (Rust.asBytes t) = _
  rw [onText, Rust.fromUtf8_asBytes]
  rfl

/-- A response with a header that is supported, and with this rule. -/
def markedResponse (contentEncoding : Option Text) : Response :=
  ⟨[markRule], ⟨200, [], [], none, none, contentEncoding⟩, {}⟩

theorem markedResponse_active {contentEncoding : Option Text} (body : Bytes)
    (h : isSupportedEncoding (markedResponse contentEncoding).encoding = true) :
    ((markedResponse contentEncoding).received body).activeResponse = true := by
  have hencoding : ¬ (Rust.toAsciiLowercase (contentEncoding.getD []) ≠ [] ∧
      isSupportedEncoding (Rust.toAsciiLowercase (contentEncoding.getD [])) = false) :=
    fun hboth => Bool.false_ne_true (hboth.2.symm.trans h)
  unfold Response.received Filter.processResponseHeaders
  dsimp only
  split_ifs with hstatus hcache hnone hlong hunsupported
  · exact absurd hstatus (by decide : ¬ (200 < 200 ∨ 300 ≤ 200))
  · exact absurd rfl hcache
  · cases hnone
  · cases hlong
  · exact absurd hunsupported hencoding
  · rfl

theorem markedResponse_transformed (contentEncoding : Option Text) (env : Env) {t : Text}
    (h : (Rust.asBytes t).length ≤ 1048576) :
    (markedResponse contentEncoding).transformed env (Rust.asBytes t) = Rust.asBytes ('x' :: t) :=
  applyRules_markRule env h

/-- A text of one letter that is not a body. -/
def otherText (body : Bytes) : Text := [if body = Rust.asBytes ['a'] then 'b' else 'a']

theorem otherText_cases (body : Bytes) :
    otherText body = ['a'] ∧ body ≠ [97] ∨ otherText body = ['b'] ∧ body = [97] := by
  have hbyte : Rust.asBytes ['a'] = [97] := by decide
  unfold otherText
  rw [hbyte]
  split
  · next h => exact .inr ⟨rfl, h⟩
  · next h => exact .inl ⟨rfl, h⟩

/-- The codec that decodes a body to it does not decode it. -/
theorem decode_otherText (body : Bytes) :
    (knownCodec (Rust.asBytes (otherText body)) body).decode (Rust.asBytes (otherText body)) =
      none := by
  have ha : Rust.asBytes ['a'] = [97] := by decide
  have hb : Rust.asBytes ['b'] = [98] := by decide
  rw [decode_knownCodec]
  rcases otherText_cases body with ⟨hother, hbody⟩ | ⟨hother, rfl⟩
  · rw [hother, ha, if_neg (Ne.symm hbody), if_neg]
    rintro ⟨rest, hrest⟩
    cases hrest
  · rw [hother, hb]
    rfl

/-- Whatever a body is, there are codecs with which two codings of it are not undone. -/
theorem not_described {contentEncoding : Option Text} (env : Env) (body : Bytes)
    (h : isSupportedEncoding (markedResponse contentEncoding).encoding = true)
    (htwo : 1 < (codingNames (markedResponse contentEncoding).encoding).length) :
    ¬ (markedResponse contentEncoding).Described
      (fun _ => knownCodec (Rust.asBytes (otherText body)) body) env body := by
  intro hdescribed
  have hactive := markedResponse_active body h
  obtain ⟨c, hc⟩ := Option.isSome_iff_exists.mp h
  have hbody := (decode_knownCodec (Rust.asBytes (otherText body)) body body).trans (if_pos rfl)
  have hother := decode_otherText body
  have hreturned := hdescribed.kept fun original horiginal => by
    rw [Response.decoded, decodeNames_twice hbody hother htwo] at horiginal
    cases horiginal
  have hready := Filter.ready_of_active hactive
  have hlimit : ((markedResponse contentEncoding).received body).decompressLimit = 1048576 := by
    refine hready.limit.trans ?_
    rw [hready.matching]
    rfl
  have hlength : (Rust.asBytes (otherText body)).length = 1 := by
    rcases otherText_cases body with ⟨hother, -⟩ | ⟨hother, -⟩ <;> rw [hother] <;> decide
  have hshort : (Rust.asBytes (otherText body)).length ≤ 1048576 := by omega
  have hfilter : (some (Rust.asBytes (otherText body))).filter (·.length ≤ 1048576) =
      some (Rust.asBytes (otherText body)) :=
    Option.filter_eq_some_iff.mpr ⟨rfl, decide_eq_true hshort⟩
  have hmark : Rust.asBytes ('x' :: otherText body) ≠ Rust.asBytes (otherText body) := by
    intro heq
    have hlist := Rust.asBytes_injective heq
    exact List.cons_ne_self _ _ hlist
  rw [Response.returned_eq hactive hc, hbody, hlimit, hfilter] at hreturned
  dsimp only at hreturned
  rw [markedResponse_transformed contentEncoding env hshort, if_neg hmark] at hreturned
  -- the code of the changed text is longer than the body
  have hcoded := congrArg List.length hreturned
  have hencode : (knownCodec (Rust.asBytes (otherText body)) body).encode
      (Rust.asBytes ('x' :: otherText body)) =
        some (0 :: (body ++ Rust.asBytes ('x' :: otherText body))) := congrArg some (if_neg hmark)
  rw [hencode, Option.getD_some, List.length_cons, List.length_append] at hcoded
  omega

/-- **When the header describes the body**: whatever the codecs and the rules, exactly when it names
no coding but its first. -/
theorem described_iff (env : Env) (contentEncoding : Option Text) (body : Bytes) :
    (∀ codec : Coding → Codec, (∀ c, (codec c).Lawful) → ∀ r : Response,
      r.head.contentEncoding = contentEncoding → (r.received body).activeResponse = true →
        r.Described codec env body) ↔
      (isSupportedEncoding (Rust.toAsciiLowercase (contentEncoding.getD [])) = true →
        (codingNames (Rust.toAsciiLowercase (contentEncoding.getD []))).length ≤ 1) := by
  constructor
  · intro hall hsupported
    by_contra htwo
    exact not_described env body hsupported (Nat.lt_of_not_le htwo)
      (hall _ (fun _ => knownCodec_lawful _ _) _ rfl (markedResponse_active body hsupported))
  · rintro hone codec hcodec r rfl h
    have hready := Response.ready h
    have hencoding : (r.received body).responseEncoding = r.encoding := hready.encoding
    rcases hready.supported with hempty | hsupported
    · exact Response.described_plain h (hready.encoding.symm.trans hempty)
    · rw [hready.encoding] at hsupported
      obtain ⟨others, hnames⟩ := codingNames_supported hsupported
      obtain ⟨c, hc⟩ := Option.isSome_iff_exists.mp hsupported
      have hnone : others = [] := by
        have hlength := hone hsupported
        rw [hnames, List.length_cons] at hlength
        exact List.length_eq_zero_iff.mp (by omega)
      rw [hnone] at hnames
      exact Response.described_once hcodec h hc hnames

/-- What gzip makes of `hello`. -/
def gzipHello : Bytes :=
  [31, 139, 8, 0, 0, 0, 0, 0, 0, 255, 203, 72, 205, 201, 201, 7, 0, 134, 166, 16, 54, 5, 0, 0, 0]

/-- What brotli makes of that. -/
def brotliGzipHello : Bytes :=
  [11, 12, 128, 31, 139, 8, 0, 0, 0, 0, 0, 0, 255, 203, 72, 205, 201, 201, 7, 0, 134, 166, 16, 54,
    5, 0, 0, 0, 3]

def testCodec : Coding → Codec
  | .gzip => knownCodec (Rust.asBytes "hello".toList) gzipHello
  | .brotli => knownCodec gzipHello brotliGzipHello
  | .deflate | .zstd => knownCodec [] []

/-- **Two codings**: a body that was compressed twice is returned as it is, without the rules. -/
theorem two_codings :
    (∀ c, (testCodec c).Lawful) ∧
      ((markedResponse (some "gzip, br".toList)).received brotliGzipHello).activeResponse = true ∧
      (markedResponse (some "gzip, br".toList)).decoded testCodec brotliGzipHello =
        some (Rust.asBytes "hello".toList) ∧
      (markedResponse (some "gzip, br".toList)).returned testCodec testEnv brotliGzipHello =
        brotliGzipHello ∧
      ¬ (markedResponse (some "gzip, br".toList)).Described testCodec testEnv brotliGzipHello := by
  have hdecoded : (markedResponse (some "gzip, br".toList)).decoded testCodec brotliGzipHello =
      some (Rust.asBytes "hello".toList) := by decide
  have hreturned : (markedResponse (some "gzip, br".toList)).returned testCodec testEnv
      brotliGzipHello = brotliGzipHello := by decide
  refine ⟨fun c => ?_, by decide, hdecoded, hreturned, fun h => ?_⟩
  · cases c <;> exact knownCodec_lawful _ _
  · have hdecodes := h.decodes _ hdecoded (by decide)
    rw [hreturned, hdecoded, markedResponse_transformed _ _ (by decide)] at hdecodes
    have hlist := Rust.asBytes_injective (Option.some.inj hdecodes)
    exact absurd hlist (by decide)

end CorexManager.RespTransform
