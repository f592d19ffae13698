import CorexManager.Gateway.Evaluate
import CorexManager.Logic.Priority

/-!
# Scanning

`dlp.rs`, `guardrails.rs` and `defaults.rs`: rules are compiled from the bundle in the order of
their priority, and applied to the strings of a JSON value.  The first rule that blocks ends
the scan of a string and leaves the value as it is; the others rewrite what they match.
-/

namespace CorexManager.Gateway

open Data (Json Text)
open Priority (sortByKey)
open Rust (Regex)

/-! ### Built-in patterns -/

/-- `DETECTORS`. -/
def detectors : List (String × String) :=
  [("email", "\\b[A-Za-z0-9._%+-]+@[A-Za-z0-9.-]+\\.[A-Z|a-z]\x7b2,\x7d\\b"),
    ("phone", "\\b(?:\\+?1[-.\\s]?)?\\(?\\d\x7b3\x7d\\)?[-.\\s]?\\d\x7b3\x7d[-.\\s]?\\d\x7b4\x7d\\b"),
    ("ssn", "\\b\\d\x7b3\x7d-\\d\x7b2\x7d-\\d\x7b4\x7d\\b"),
    ("credit_card", "\\b(?:\\d[ -]*?)\x7b13,19\x7d\\b"),
    ("ip", "\\b(?:(?:25[0-5]|2[0-4][0-9]|[01]?[0-9][0-9]?)\\.)\x7b3\x7d(?:25[0-5]|2[0-4][0-9]|[01]?[0-9][0-9]?)\\b"),
    ("aws_key", "\\bAKIA[0-9A-Z]\x7b16\x7d\\b"),
    ("private_key", "-----BEGIN (?:RSA |EC |OPENSSH |DSA |PGP )?PRIVATE KEY-----"),
    ("github_token", "\\bgh[pousr]_[A-Za-z0-9]\x7b36\x7d\\b"),
    ("slack_token", "\\bxox[baprs]-[A-Za-z0-9-]+\\b")]

/-- `PACKS`. -/
def packs : List (String × List String) :=
  [("builtin:jailbreak_v1", [
      "\\bignore\\s+(?:all\\s+)?(?:previous|prior|above)\\s+instructions?\\b",
      "\\bDAN\\b.*\\bdo\\s+anything\\s+now\\b",
      "\\byou\\s+are\\s+(?:now|a)\\s+(?:DAN|freed|unrestricted)\\b",
      "\\bjailbreak\\b",
      "\\bdeveloper\\s+mode\\b",
      "\\bact\\s+as\\s+(?:if\\s+you\\s+(?:are|have)\\s+no\\s+(?:rules|restrictions))\\b",
      "\\bpretend\\s+(?:that\\s+)?you\\s+(?:have\\s+no|don'?t\\s+have\\s+(?:any\\s+)?(?:rules|restrictions|guidelines))\\b",
      "\\bSTAN\\b.*\\bstrive\\s+to\\s+avoid\\s+norms\\b",
      "\\bevil\\s+mode\\b",
      "\\bgod\\s+mode\\b",
      "\\bun(?:censored|filtered|restricted)\\s+mode\\b",
      "\\bAIM\\b.*\\balways\\s+intelligent\\s+and\\s+machiavellian\\b"]),
    ("builtin:instruction_override", [
      "\\bignore\\s+(?:all\\s+)?(?:previous|prior|above)\\s+(?:instructions?|prompts?|rules?|directives?)\\b",
      "\\bdisregard\\s+(?:all\\s+)?(?:previous|prior|above)\\s+(?:instructions?|prompts?|rules?)\\b",
      "\\bforget\\s+(?:everything|all\\s+(?:previous|prior)\\s+(?:instructions?|rules?))\\b",
      "\\byou\\s+are\\s+now\\s+(?:in\\s+)?(?:a\\s+)?(?:different|new)\\s+mode\\b",
      "\\bfrom\\s+now\\s+on[,\\s]+you\\s+(?:are|will|must|should)\\b",
      "\\boverride\\s+(?:your|the)\\s+(?:system|safety|content)\\s+(?:prompt|instructions?|rules?)\\b",
      "\\bnew\\s+instructions?\\s*:\\s*\\b",
      "\\bsystem\\s+prompt\\s*:\\s*\\b",
      "\\breveal\\s+(?:your|the)\\s+(?:system|initial)\\s+prompt\\b",
      "\\bshow\\s+me\\s+your\\s+(?:system|initial)\\s+(?:prompt|instructions?)\\b"]),
    ("builtin:obfuscation", [
      "[A-Za-z0-9+/]\x7b40,\x7d=\x7b0,2\x7d",
      "\\\\u[0-9a-fA-F]\x7b4\x7d\\\\u[0-9a-fA-F]\x7b4\x7d\\\\u[0-9a-fA-F]\x7b4\x7d",
      "\\brot13\\b",
      "\\bbase64\\s*(?:decode|encoded)\\b",
      "\\\\x[0-9a-fA-F]\x7b2\x7d\\\\x[0-9a-fA-F]\x7b2\x7d\\\\x[0-9a-fA-F]\x7b2\x7d"])]

/-- `detector_pattern`. -/
def detectorPattern (id : Text) : Option Text :=
  (detectors.find? fun d => d.1.toList == id).map fun d => d.2.toList

/-- `pack_patterns`. -/
def packPatterns (id : Text) : Option (List Text) :=
  (packs.find? fun p => p.1.toList == id).map fun p => p.2.map String.toList

/-! ### Rules -/

/-- `Direction`. -/
inductive Direction where
  | request | response | both
  deriving DecidableEq, Repr

/-- `Direction::parse`. -/
def Direction.parse (s : Text) : Direction :=
  if s = "request".toList then .request
  else if s = "response".toList then .response
  else .both

/-- `Direction::matches`. -/
def Direction.matches (d scan : Direction) : Bool := d == .both || d == scan

/-- What a compiled rule does to a text in which it counts a match: rewrite it, or block. -/
structure Rule where
  direction : Direction
  count : Text → Nat
  rewrite : Option (Text → Text)

/-- The loop of `scan_text` over the rules.  Matches are counted in the part of the text
that is scanned, and replaced in the whole of it.  The second part of the result is whether a
rule blocked. -/
def applyRules (direction : Direction) (scanned : Text) : List Rule → Text → Text × Bool
  | [], modified => (modified, false)
  | r :: rs, modified =>
      if !r.direction.matches direction || r.count scanned == 0 then
        applyRules direction scanned rs modified
      else
        match r.rewrite with
        | none => (modified, true)
        | some f => applyRules direction scanned rs (f modified)

/-- `scan_text`. -/
def scanText (maxLength : Nat) (direction : Direction) (rules : List Rule) (text : Text) :
    Option (Text × Bool) := do
  let scanned ← if maxLength < Rust.len text then Rust.sliceTo maxLength text else some text
  let (modified, blocked) := applyRules direction scanned rules text
  some (if blocked then text else modified, blocked)

mutual

/-- `walk`: the strings of a value are scanned until one is blocked. -/
def walk (scan : Text → Option (Text × Bool)) : Json → Bool → Option (Json × Bool)
  | v, true => some (v, true)
  | .str s, false => (scan s).map fun r => (.str r.1, r.2)
  | .obj fields, false => (walkFields scan fields false).map fun r => (.obj r.1, r.2)
  | .arr items, false => (walkItems scan items false).map fun r => (.arr r.1, r.2)
  | v, false => some (v, false)

/-- The items of an array. -/
def walkItems (scan : Text → Option (Text × Bool)) :
    List Json → Bool → Option (List Json × Bool)
  | [], blocked => some ([], blocked)
  | v :: vs, blocked => do
      let (v, blocked) ← walk scan v blocked
      let (vs, blocked) ← walkItems scan vs blocked
      some (v :: vs, blocked)

/-- The fields of an object. -/
def walkFields (scan : Text → Option (Text × Bool)) :
    List (Text × Json) → Bool → Option (List (Text × Json) × Bool)
  | [], blocked => some ([], blocked)
  | (k, v) :: fields, blocked => do
      let (v, blocked) ← walk scan v blocked
      let (fields, blocked) ← walkFields scan fields blocked
      some ((k, v) :: fields, blocked)

end

/-- `scan_json_strings`: a value that is blocked is left as it is. -/
def scanJsonStrings (scan : Text → Option (Text × Bool)) (value : Json) : Option (Json × Bool) :=
  (walk scan value false).map fun r => (if r.2 then value else r.1, r.2)

/-- `DlpScanResult` and `GuardrailScanResult`. -/
structure ScanResult where
  blocked : Bool
  modified : Bool
  modifiedData : Json

/-- The result for data that is not scanned. -/
def ScanResult.unscanned (data : Json) : ScanResult := ⟨false, false, data⟩

/-- The result of a scan. -/
def ScanResult.of (data : Json) (r : Json × Bool) : ScanResult := ⟨r.2, r.1 != data, r.1⟩

/-! ### Data loss prevention -/

/-- `DlpRuleConfig`. -/
structure DlpRuleConfig where
  teamId : Int
  enabled : Bool
  priority : Int
  direction : Text
  detector : Option Text
  findRegex : Option Text
  action : Text
  applyTo : Option Text

/-- `DlpAction`. -/
inductive DlpAction where
  | block | redact | tokenize
  deriving DecidableEq, Repr

/-- `DlpAction::parse`. -/
def DlpAction.parse (s : Text) : DlpAction :=
  if s = "redact".toList then .redact
  else if s = "tokenize".toList then .tokenize
  else .block

/-- `CompiledDlpRule`. -/
structure CompiledDlpRule where
  priority : Int
  direction : Direction
  regex : Regex
  action : DlpAction
  allText : Bool

/-- `is_redos`: a pattern that contains a fragment known to backtrack. -/
def isRedos (P : Platform) (fragments : List String) (pattern : Text) : Bool :=
  fragments.any fun f => (P.regex.new f.toList).any fun r => r.isMatch pattern

/-- `REDOS_PATTERNS` of `dlp.rs`. -/
def dlpRedosPatterns : List String := ["\\(.*[+*].*\\)[+*]", "\\(.*\\|.*\\)[+*]?"]

/-- The pattern of a rule, unless it is unknown or empty. -/
def DlpRuleConfig.pattern (r : DlpRuleConfig) : Option Text :=
  let detector := r.detector.getD "custom".toList
  (if detector = "custom".toList then r.findRegex else detectorPattern detector).filter
    fun p => !p.isEmpty

/-- One turn of the loop of `compile_rules`. -/
def DlpRuleConfig.compile (P : Platform) (r : DlpRuleConfig) : Option CompiledDlpRule :=
  if !r.enabled then none
  else do
    let pattern ← r.pattern
    if isRedos P dlpRedosPatterns pattern then none
    else
      let regex ← P.regex.build true false pattern
      some ⟨r.priority, .parse r.direction, regex, .parse r.action,
        r.applyTo == some "all_text".toList⟩

/-- `dlp::compile_rules`. -/
def compileDlpRules (P : Platform) (raw : List DlpRuleConfig) : List CompiledDlpRule :=
  sortByKey CompiledDlpRule.priority (raw.filterMap (DlpRuleConfig.compile P))

/-- What a rule does.  The gateway has no tokenizer, so a match to be tokenized is redacted. -/
def CompiledDlpRule.rule (r : CompiledDlpRule) : Rule where
  direction := r.direction
  count := r.regex.count
  rewrite :=
    if r.action = .block then none
    else some (r.regex.replaceAll fun _ => "[REDACTED]".toList)

/-- `scan_all_text`: the text of the data is scanned, and read back if it was rewritten. -/
def scanAllText (P : Platform) (scan : Text → Option (Text × Bool)) (data : Json) :
    Option (Json × Bool) := do
  let (modified, blocked) ← scan (P.json.dumps data)
  if blocked then some (data, true)
  else if modified = P.json.dumps data then some (data, false)
  else some ((P.json.parse modified).getD data, false)

/-- `dlp::scan`. -/
def dlpScan (P : Platform) (direction : Direction) (data : Json) (rules : List CompiledDlpRule) :
    Option ScanResult :=
  let applicable := rules.filter fun r => r.direction.matches direction
  if applicable = [] then some (.unscanned data)
  else
    let scan := scanText P.dlpMaxScanLength direction (applicable.map CompiledDlpRule.rule)
    (if applicable.any CompiledDlpRule.allText then scanAllText P scan data
      else scanJsonStrings scan data).map (ScanResult.of data)

/-! ### Guardrails -/

/-- `GuardrailConfig`. -/
structure GuardrailConfig where
  teamId : Int
  enabled : Bool
  priority : Int
  direction : Text
  pack : Option Text
  findRegex : Option Text
  action : Text

/-- `GuardrailAction`. -/
inductive GuardrailAction where
  | block | redact | log | fence
  deriving DecidableEq, Repr

/-- `GuardrailAction::parse`. -/
def GuardrailAction.parse (s : Text) : GuardrailAction :=
  if s = "redact".toList then .redact
  else if s = "log".toList then .log
  else if s = "fence".toList then .fence
  else .block

/-- `CompiledGuardrailRule`. -/
structure CompiledGuardrailRule where
  priority : Int
  direction : Direction
  regexes : List Regex
  action : GuardrailAction

/-- `REDOS_PATTERNS` of `guardrails.rs`. -/
def guardrailRedosPatterns : List String :=
  ["\\([^)]*[+*][^)]*\\)[+*]", "\\([^)]*\\|[^)]*\\)[+*]"]

/-- The patterns of a rule. -/
def GuardrailConfig.patterns (r : GuardrailConfig) : List Text :=
  let pack := r.pack.getD "custom".toList
  if pack = "custom".toList then r.findRegex.toList else (packPatterns pack).getD []

/-- One turn of the loop of `compile_rules`. -/
def GuardrailConfig.compile (P : Platform) (r : GuardrailConfig) :
    Option CompiledGuardrailRule :=
  let regexes := r.patterns.filterMap fun p =>
    if isRedos P guardrailRedosPatterns p then none else P.regex.build true true p
  if !r.enabled || regexes.isEmpty then none
  else some ⟨r.priority, .parse r.direction, regexes, .parse r.action⟩

/-- `guardrails::compile_rules`. -/
def compileGuardrailRules (P : Platform) (raw : List GuardrailConfig) :
    List CompiledGuardrailRule :=
  sortByKey CompiledGuardrailRule.priority (raw.filterMap (GuardrailConfig.compile P))

/-- `decode_tag_chars`: the tag characters stand for those of ASCII. -/
def decodeTagChars (s : Text) : Text :=
  s.map fun c => if 0xE0000 ≤ c.toNat ∧ c.toNat ≤ 0xE007F then Char.ofNat (c.toNat - 0xE0000) else c

/-- A text with the matches of every pattern replaced, one pattern after the other. -/
def replaceEach (regexes : List Regex) (f : Text → Text) (text : Text) : Text :=
  regexes.foldl (fun t r => r.replaceAll f t) text

/-- What a rule does. -/
def CompiledGuardrailRule.rule (r : CompiledGuardrailRule) : Rule where
  direction := r.direction
  count t := (r.regexes.map fun re => re.count t).sum
  rewrite := match r.action with
    | .block => none
    | .redact => some (replaceEach r.regexes fun _ => "[FILTERED]".toList)
    | .log => some id
    | .fence => some (replaceEach r.regexes fun m => "[UNTRUSTED]".toList ++ m ++ "```".toList)

/-- The scan of `guardrails.rs`. -/
def guardrailScan (P : Platform) (direction : Direction) (data : Json)
    (rules : List CompiledGuardrailRule) : Option ScanResult :=
  let applicable := rules.filter fun r => r.direction.matches direction
  -- a response is scanned if it is an object, a request whatever it is
  if applicable = [] ∨ direction = .response ∧ data.asObject = none then
    some (.unscanned data)
  else
    (scanJsonStrings (fun s => scanText P.guardrailMaxScanLength direction
      (applicable.map CompiledGuardrailRule.rule) (decodeTagChars s)) data).map
      (ScanResult.of data)

end CorexManager.Gateway
