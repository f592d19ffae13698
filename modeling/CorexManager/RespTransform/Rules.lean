import CorexManager.Logic.Priority
import CorexManager.RespTransform.Backrefs
import CorexManager.RespTransform.Tokens

/-!
# Rules of the transformation filter

The rules of a file are compiled, and the file is read again when its time has changed.  A rule is
for some content types and paths, and it changes a body that is not too long for it: the texts that
its regex finds are replaced or masked, or a text is put next to the first of them; for a request
its tokens are resolved.

* `Regex` — a regex is what it finds in texts.
* `ConfigHolder.maybeReload` — the rules that are served.
* `applyRule`, `unmaskRule` — what a rule makes of the body of a response and of a request.
-/

namespace CorexManager.RespTransform

open Crypto (Bytes Library Sized)
open Data (Text)
open Rust (Captures asBytes fromUtf8)

/-! ### Regexes -/

/-- A compiled regex: the matches in a text with what is before each of them, and what is behind the
last. -/
structure Regex where
  pieces : Text → List (Text × Captures) × Text
  join t : ((pieces t).1.flatMap fun m => m.1 ++ m.2.group 0) ++ (pieces t).2 = t

/-- A text with its matches replaced, which are numbered. -/
def Regex.replaceMatches (re : Regex) (f : Nat → Captures → Text) (t : Text) : Text :=
  ((re.pieces t).1.zipIdx.flatMap fun m => m.1.1 ++ f m.2 m.1.2) ++ (re.pieces t).2

/-- `detector_regex`, the pattern of it. -/
def detectorPattern (name : Text) : Option Text :=
  if name = "email".toList then
    some "[A-Za-z0-9._%+-]+@[A-Za-z0-9.-]+\\.[A-Za-z]\x7b2,\x7d".toList
  else if name = "phone".toList then some "\\+?\\d[\\d\\s().-]\x7b7,\x7d\\d".toList
  else if name = "ssn".toList then some "\\b\\d\x7b3\x7d-\\d\x7b2\x7d-\\d\x7b4\x7d\\b".toList
  else if name = "credit_card".toList then some "\\b(?:\\d[ -]*?)\x7b13,19\x7d\\b".toList
  else if name = "ip".toList then
    some "\\b(?:\\d\x7b1,3\x7d\\.)\x7b3\x7d\\d\x7b1,3\x7d\\b".toList
  else none

/-! ### Rules -/

/-- A rule of the file; what is missing there has its default. -/
structure TransformRule where
  enabled : Bool
  priority : Int
  transformType : Text
  contentTypes : List Text := []
  maxBodySize : Nat := 1048576
  findRegex : Option Text := none
  replaceString : Option Text := none
  injectString : Option Text := none
  injectPosition : Option Text := none
  maskMode : Option Text := none
  detector : Option Text := none
  tokenMode : Option Text := none
  tokenPrefix : Option Text := none
  encryptKeyEnv : Option Text := none
  pathPatterns : List Text := []

/-- A compiled rule.  The regex of its tokens is given by their prefix. -/
structure CompiledRule where
  rule : TransformRule
  findRe : Option Regex
  tokenRe : Option Text

namespace CompiledRule

/-- `CompiledRule::compile`; a rule whose regex is none is skipped. -/
def compile (newRegex : Text → Option Regex) (rule : TransformRule) : Option CompiledRule :=
  let tokenRe := if rule.transformType = "mask".toList then rule.tokenPrefix else none
  match rule.findRegex with
  | some pat => (newRegex pat).map fun re => ⟨rule, some re, tokenRe⟩
  | none =>
      if rule.transformType = "mask".toList ∧ rule.maskMode = some "detector".toList then
        some ⟨rule, (rule.detector.bind detectorPattern).bind newRegex, tokenRe⟩
      else some ⟨rule, none, tokenRe⟩

variable (r : CompiledRule)

/-- `content_type_matches`. -/
def contentTypeMatches (ct : Text) : Bool :=
  r.rule.contentTypes.isEmpty ||
    r.rule.contentTypes.any fun pre =>
      (Rust.toAsciiLowercase pre).isPrefixOf (Rust.toAsciiLowercase ct)

/-- `path_matches`. -/
def pathMatches (path : Text) : Bool :=
  r.rule.pathPatterns.isEmpty || r.rule.pathPatterns.any fun pre => pre.isPrefixOf path

end CompiledRule

/-! ### The file -/

/-- The rule file as it is now: its time, and its rules if it can be read and parsed. -/
structure RuleFile where
  mtime : Nat
  rules : Option (List TransformRule)

/-- `ConfigHolder`. -/
structure ConfigHolder where
  rules : List CompiledRule := []
  mtime : Option Nat := none

namespace ConfigHolder

variable (newRegex : Text → Option Regex)

/-- The rules of a file: those that are enabled and compile, by their priorities. -/
def compileRules (rules : List TransformRule) : List CompiledRule :=
  Priority.sortByKey (fun r : CompiledRule => r.rule.priority)
    ((rules.filter TransformRule.enabled).filterMap (CompiledRule.compile newRegex))

/-- `reload`; without a file, and for a file that cannot be parsed, the rules stay. -/
def reload (disk : Option RuleFile) (h : ConfigHolder) : ConfigHolder :=
  match disk with
  | none => h
  | some file =>
      if some file.mtime = h.mtime then h
      else
        match file.rules with
        | none => h
        | some rules => ⟨compileRules newRegex rules, some file.mtime⟩

/-- `load`. -/
def load (disk : Option RuleFile) : ConfigHolder := reload newRegex disk {}

/-- `maybe_reload`. -/
def maybeReload (disk : Option RuleFile) (h : ConfigHolder) : ConfigHolder :=
  match disk with
  | none => h
  | some file => if some file.mtime ≠ h.mtime then reload newRegex disk h else h

end ConfigHolder

/-! ### Bodies -/

/-- The text of a body is changed; a body that is no text stays. -/
def onText (f : Text → Text) (body : Bytes) : Bytes :=
  match fromUtf8 body with
  | some t => asBytes (f t)
  | none => body

/-- What rules are applied with: the library for AES-GCM, the environment, the name of the fallback
key in it, the cache with the store behind it, and what is drawn for the matches of each rule. -/
structure Env where
  library : Library
  var : Text → Option Text
  fallbackKeyEnv : Option Text
  lookup : Text → Option Text
  draw : Nat → Nat → Draw

namespace Env

variable (env : Env)

/-- `get_aes_key`: the first 32 bytes of a variable. -/
def getAesKey (envVar : Text) : Option (Sized 32) :=
  (env.var envVar).bind fun keyStr =>
    if h : 32 ≤ (asBytes keyStr).length then
      some ⟨(asBytes keyStr).take 32, List.length_take_of_le h⟩
    else none

/-- `get_fallback_key`. -/
def getFallbackKey : Option (Sized 32) := env.fallbackKeyEnv.bind env.getAesKey

end Env

def testEnv : Env :=
  ⟨testLibrary, fun _ => none, none, fun _ => none,
    fun _ _ => ⟨false, ⟨List.replicate 16 0, length_zeros⟩, testNonce⟩⟩

section Apply

variable (env : Env) (k : Nat)

/-- `inject_at_anchor`. -/
def injectAtAnchor (re : Regex) (injectStr position : Text) : Bytes → Bytes :=
  onText fun t =>
    match (re.pieces t).1 with
    | [] => t
    | (gap, m) :: _ =>
        let rest := t.drop (gap.length + (m.group 0).length)
        if position = "before".toList then gap ++ injectStr ++ m.group 0 ++ rest
        else if position = "after".toList then gap ++ m.group 0 ++ injectStr ++ rest
        else if position = "replace".toList then gap ++ injectStr ++ rest
        else t

/-- `tokenize_mask`; a match whose token is none is left in place. -/
def tokenizeMask (re : Regex) (tokenPrefix : Text) : Bytes → Bytes :=
  onText <| re.replaceMatches fun i m =>
    (maskToken env.library env.getFallbackKey tokenPrefix (env.draw k i) (m.group 0)).getD
      (m.group 0)

/-- `encrypt_mask`. -/
def encryptMask (re : Regex) (tokenPrefix : Text) (key : Sized 32) : Bytes → Bytes :=
  onText <| re.replaceMatches fun i m =>
    ((aesEncrypt env.library key (env.draw k i).nonce (asBytes (m.group 0))).map
      (tokenPrefix ++ ·)).getD (m.group 0)

/-- `apply_mask`. -/
def applyMask (r : CompiledRule) (body : Bytes) : Bytes :=
  match r.findRe with
  | none => body
  | some re =>
      let tokenMode := r.rule.tokenMode.getD "tokenize".toList
      let tokenPrefix := r.rule.tokenPrefix.getD "TOK_".toList
      if tokenMode = "tokenize".toList then tokenizeMask env k re tokenPrefix body
      else if tokenMode = "encrypt".toList then
        match env.getAesKey (r.rule.encryptKeyEnv.getD []) with
        | some key => encryptMask env k re tokenPrefix key body
        | none => body
      else body

/-- One turn of the loop of `transform_response_body`, the `k`-th. -/
def applyRule (r : CompiledRule) (body : Bytes) : Bytes :=
  if r.rule.maxBodySize < body.length then body
  else if r.rule.transformType = "replace".toList then
    match r.findRe, r.rule.replaceString with
    | some re, some replacement =>
        onText (re.replaceMatches fun _ m => m.expand (convertBackrefs replacement)) body
    | _, _ => body
  else if r.rule.transformType = "inject".toList then
    match r.findRe, r.rule.injectString, r.rule.injectPosition with
    | some re, some injectStr, some pos => injectAtAnchor re injectStr pos body
    | _, _, _ => body
  else if r.rule.transformType = "mask".toList then applyMask env k r body
  else body

/-- Rules applied in order. -/
def applyRules : (k : Nat) → List CompiledRule → Bytes → Bytes
  | _, [], body => body
  | k, r :: rs, body => applyRules (k + 1) rs (applyRule env k r body)

/-- `decrypt_tokens`. -/
def decryptTokens (tokenRe : Text) (key : Sized 32) (rule : TransformRule) : Bytes → Bytes :=
  onText <| replaceTokens tokenRe (fun token =>
    let tokenPrefix := rule.tokenPrefix.getD "ENC_".toList
    if tokenPrefix <+: token then
      (aesDecrypt env.library key (token.drop tokenPrefix.length)).bind fromUtf8
    else none) 0

/-- One turn of the loop of `transform_request_body`. -/
def unmaskRule (r : CompiledRule) (body : Bytes) : Bytes :=
  if r.rule.maxBodySize < body.length then body
  else
    match r.tokenRe with
    | none => body
    | some tokenRe =>
        let tokenMode := r.rule.tokenMode.getD "tokenize".toList
        if tokenMode = "tokenize".toList then
          detokenize env.library env.lookup env.getFallbackKey tokenRe body
        else if tokenMode = "encrypt".toList then
          match r.rule.encryptKeyEnv.bind env.getAesKey with
          | some key => decryptTokens env tokenRe key r.rule body
          | none => body
        else body

/-- Rules whose tokens are resolved in order. -/
def unmaskRules (rs : List CompiledRule) (body : Bytes) : Bytes :=
  rs.foldl (fun body r => unmaskRule env r body) body

variable {env k}

/-- A body that is too long for every rule stays. -/
theorem applyRules_long {rs : List CompiledRule} {body : Bytes}
    (h : ∀ r ∈ rs, r.rule.maxBodySize < body.length) (k : Nat) : applyRules env k rs body = body := by
  induction rs generalizing k with
  | nil => rfl
  | cons r rs ih =>
      obtain ⟨hr, hrs⟩ := List.forall_mem_cons.mp h
      rw [applyRules, applyRule, if_pos hr, ih hrs]

end Apply

end CorexManager.RespTransform
