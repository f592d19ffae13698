import CorexManager.Gateway.Guardrails

/-!
# What a DLP scan leaves

The scan of `dlp.rs` and of `dlp_core.py`, with a tokenizer: they differ in how a long text is cut
before matches are counted in it, and in their printers and readers of JSON.

* `dlpScanWith` — the scan; the gateway's own is `dlpScan_eq`.
* `rewritten` — a text in which the rules that count a match have replaced theirs.
* `Settled` — the replacements in a text leave no match of a rule.
* `dlpScanWith_leaves` — what a scan that does not block returns.
* `not_redacted` — a text beyond the limit, a marker that is matched itself, and a text that is no
  longer JSON leave what a rule matches.
-/

namespace CorexManager.Gateway

open Data (Json Text)
open Rust (Regex)

/-! ### The scan -/

/-- A compiled rule with the prefix and the lifetime of its tokens. -/
structure TokenRule extends CompiledDlpRule where
  tokenPrefix : Text
  tokenTtl : Nat

/-- A tokenizer gives the token of a text, with a prefix and a lifetime. -/
abbrev Tokenizer := Text → Text → Nat → Text

namespace TokenRule

variable (tokenize : Option Tokenizer) (r : TokenRule)

/-- What a match is replaced by: its token, if it is to be tokenized and there is a tokenizer. -/
def mark (m : Text) : Text :=
  match r.action, tokenize with
  | .tokenize, some f => f m r.tokenPrefix r.tokenTtl
  | _, _ => "[REDACTED]".toList

/-- A text with the matches of the rule replaced. -/
def replace (t : Text) : Text := r.regex.replaceAll (r.mark tokenize) t

/-- What the rule does to a text in which it counts a match. -/
def scanRule : Rule where
  direction := r.direction
  count := r.regex.count
  rewrite := if r.action = .block then none else some (r.replace tokenize)

end TokenRule

section Scan

variable (cut : Text → Option Text) (P : Platform) (tokenize : Option Tokenizer)
  (direction : Direction) (rules : List TokenRule)

/-- The rules for the direction. -/
def applicable : List TokenRule := rules.filter fun r => r.direction.matches direction

/-- `scan_text`, for the part of the text that is cut from it. -/
def scanCut (text : Text) : Option (Text × Bool) :=
  (cut text).map fun scanned =>
    let r := applyRules direction scanned ((applicable direction rules).map (TokenRule.scanRule tokenize))
      text
    (if r.2 then text else r.1, r.2)

/-- `scan_request` and `scan_response`. -/
def dlpScanWith (data : Json) : Option ScanResult :=
  if applicable direction rules = [] then some (.unscanned data)
  else
    (if (applicable direction rules).any (·.allText) then
        scanAllText P (scanCut cut tokenize direction rules) data
      else scanJsonStrings (scanCut cut tokenize direction rules) data).map (ScanResult.of data)

/-- The gateway's scan, without a tokenizer. -/
theorem dlpScan_eq (data : Json) :
    dlpScan P direction data (rules.map TokenRule.toCompiledDlpRule) =
      dlpScanWith (scannedPart P.dlpMaxScanLength) P none direction rules data := by
  have hrule : CompiledDlpRule.rule ∘ TokenRule.toCompiledDlpRule = TokenRule.scanRule none := by
    funext r
    have hmark : r.mark none = fun _ => "[REDACTED]".toList := by
      funext m
      unfold TokenRule.mark
      cases r.action <;> rfl
    have hreplace : r.replace none = r.regex.replaceAll fun _ => "[REDACTED]".toList :=
      funext fun t => by rw [TokenRule.replace, hmark]
    rw [TokenRule.scanRule, hreplace]
    rfl
  have hfilter : ((rules.map TokenRule.toCompiledDlpRule).filter fun r =>
      r.direction.matches direction) =
        (applicable direction rules).map TokenRule.toCompiledDlpRule := List.filter_map
  have hscan : scanText P.dlpMaxScanLength direction
      (((applicable direction rules).map TokenRule.toCompiledDlpRule).map CompiledDlpRule.rule) =
        scanCut (scannedPart P.dlpMaxScanLength) none direction rules := funext fun t => by
    rw [scanText_eq, scanCut, List.map_map, hrule]
  rw [dlpScan, hfilter, dlpScanWith]
  dsimp only
  rw [hscan]
  simp only [List.map_eq_nil_iff, List.any_map, Function.comp_def]

/-- `MAX_SCAN_LENGTH` of `dlp_core.py` counts characters. -/
def pythonCut (n : Nat) (text : Text) : Option Text := some (text.take n)

/-! ### What it leaves -/

/-- What rules leave of a text: each that counts a match in the part that is scanned replaces all of
its matches, in their order. -/
def leftBy (rs : List TokenRule) (scanned text : Text) : Text :=
  rs.foldl (fun modified r => (r.scanRule tokenize).replace scanned modified) text

/-- What the rules for the direction leave of a text, in the order of their priority. -/
def rewritten (text : Text) : Text :=
  ((cut text).map fun scanned => leftBy tokenize (applicable direction rules) scanned text).getD text

/-- A rule for the direction that rewrites. -/
def Redacts (r : TokenRule) : Prop :=
  r ∈ rules ∧ r.direction.matches direction = true ∧ r.action ≠ .block

/-- **The replacements in a text are no matches**: once a rule that matches in it has replaced its
matches in what the rules before it left, there are none of it, and none of another rule that had
none. -/
def Settled (s : Text) : Prop :=
  ∀ before r after, applicable direction rules = before ++ r :: after → r.action ≠ .block →
    r.regex.find s ≠ [] →
      r.regex.find (r.replace tokenize (leftBy tokenize before s s)) = [] ∧
        ∀ r', Redacts direction rules r' → r'.regex.find (leftBy tokenize before s s) = [] →
          r'.regex.find (r.replace tokenize (leftBy tokenize before s s)) = []

/-- The texts that are scanned: that of the value if a rule for the direction is for all of it, and
its strings otherwise. -/
def scannedStrings (data : Json) : List Text :=
  if (applicable direction rules).any (·.allText) then [P.json.dumps data] else data.strings

/-- **What a scan leaves of a value.**  A text that is scanned as a whole has no match of a rule that
rewrites, if the replacements leave none; without a rule for all of the value its strings are
rewritten and its shape is kept, and with one it is read back from its text if that is possible. -/
def Leaves (data out : Json) : Prop :=
  (∀ s ∈ scannedStrings P direction rules data, cut s = some s → Settled tokenize direction rules s →
    ∀ r, Redacts direction rules r → r.regex.find (rewritten cut tokenize direction rules s) = []) ∧
  if (applicable direction rules).any (·.allText) then
    out = if rewritten cut tokenize direction rules (P.json.dumps data) = P.json.dumps data then data
      else (P.json.parse (rewritten cut tokenize direction rules (P.json.dumps data))).getD data
  else out = data.mapStrings (rewritten cut tokenize direction rules) ∧ shape out = shape data

/-- **A value is redacted**: the scan gives a result, and unless it blocks no rule that rewrites
matches in a string of it, and it has the shape of the value. -/
def Redacted (data : Json) : Prop :=
  ∃ r, dlpScanWith cut P tokenize direction rules data = some r ∧ (r.blocked = false →
    (∀ s ∈ r.modifiedData.strings, ∀ rule, Redacts direction rules rule → rule.regex.find s = []) ∧
      shape r.modifiedData = shape data)

variable {cut P tokenize direction rules}

/-- A rule that counts no match, or blocks, leaves a text as it is. -/
theorem TokenRule.scanRule_replace (r : TokenRule) (s t : Text) :
    (r.scanRule tokenize).replace s t =
      if r.regex.find s = [] ∨ r.action = .block then t else r.replace tokenize t := by
  have hcount : (r.scanRule tokenize).count s = 0 ↔ r.regex.find s = [] := List.length_eq_zero_iff
  rw [Rule.replace]
  by_cases hfind : r.regex.find s = []
  · rw [if_pos (hcount.mpr hfind), if_pos (.inl hfind)]
  · rw [if_neg (hcount.not.mpr hfind)]
    unfold TokenRule.scanRule
    by_cases hblock : r.action = .block <;> simp [hblock, hfind]

/-- Rules leave no match of those that rewrite: each has none in the text at first, or has replaced
its own, and the rules after it leave it none. -/
theorem leftBy_settled {s : Text} (hsettled : Settled tokenize direction rules s)
    {before rs : List TokenRule} (hrs : applicable direction rules = before ++ rs)
    {rule : TokenRule} (hrule : Redacts direction rules rule)
    (h : rule.regex.find (leftBy tokenize before s s) = [] ∨
      rule ∈ rs ∧ rule.regex.find s ≠ []) :
    rule.regex.find (leftBy tokenize (before ++ rs) s s) = [] := by
  induction rs generalizing before with
  | nil =>
      rw [List.append_nil]
      exact h.resolve_right fun h => List.not_mem_nil h.1
  | cons r rs ih =>
      have hnext : leftBy tokenize (before ++ [r]) s s =
          (r.scanRule tokenize).replace s (leftBy tokenize before s s) := List.foldl_append ..
      rw [List.append_cons] at hrs ⊢
      refine ih hrs ?_
      rw [hnext, TokenRule.scanRule_replace]
      by_cases hidle : r.regex.find s = [] ∨ r.action = .block
      · rw [if_pos hidle]
        refine h.imp_right fun ⟨hin, hfind⟩ => ⟨?_, hfind⟩
        rcases List.mem_cons.mp hin with rfl | hin
        · exact (hidle.elim hfind hrule.2.2).elim
        · exact hin
      · rw [if_neg hidle]
        obtain ⟨hself, hother⟩ := hsettled before r rs (by simpa using hrs)
          (fun hblock => hidle (.inr hblock)) fun hfind => hidle (.inl hfind)
        rcases h with hnone | ⟨hin, hfind⟩
        · exact .inl (hother rule hrule hnone)
        · rcases List.mem_cons.mp hin with rfl | hin
          · exact .inl hself
          · exact .inr ⟨hin, hfind⟩

/-- A text that is scanned as a whole is left without matches. -/
theorem rewritten_settled {s : Text} (hsettled : Settled tokenize direction rules s)
    (hcut : cut s = some s) {rule : TokenRule} (hrule : Redacts direction rules rule) :
    rule.regex.find (rewritten cut tokenize direction rules s) = [] := by
  rw [rewritten, hcut]
  refine leftBy_settled hsettled (List.nil_append _).symm hrule ?_
  by_cases hfind : rule.regex.find s = []
  · exact .inl hfind
  · exact .inr ⟨List.mem_filter.mpr ⟨hrule.1, hrule.2.1⟩, hfind⟩

/-- A scan of a text that does not block rewrites it. -/
theorem scanCut_unblocked {text out : Text}
    (h : scanCut cut tokenize direction rules text = some (out, false)) :
    out = rewritten cut tokenize direction rules text := by
  obtain ⟨scanned, hscanned, h⟩ := Option.map_eq_some_iff.mp h
  obtain ⟨hout, hunblocked⟩ := Prod.mk.inj h
  rw [hunblocked, if_neg Bool.false_ne_true] at hout
  have hrules : ∀ r ∈ (applicable direction rules).map (TokenRule.scanRule tokenize),
      r.direction.matches direction = true := by
    intro r hr
    obtain ⟨rule, hrule, rfl⟩ := List.mem_map.mp hr
    exact (List.mem_filter.mp hrule).2
  rw [applyRules_unblocked hrules (Prod.ext hout hunblocked), List.foldl_map, rewritten, hscanned]
  rfl

/-- Texts that can all be scanned have a verdict. -/
theorem flag_isSome {scan : Text → Option (Text × Bool)} {ts : List Text}
    (h : ∀ t ∈ ts, (scan t).isSome) (b : Bool) : (flag scan ts b).isSome := by
  induction ts generalizing b with
  | nil => cases b <;> rfl
  | cons t ts ih =>
      obtain ⟨ht, hts⟩ := List.forall_mem_cons.mp h
      cases b with
      | true => rfl
      | false =>
          obtain ⟨r, hr⟩ := Option.isSome_iff_exists.mp ht
          rw [flag, hr]
          exact ih hts r.2

/-- A value whose strings can all be scanned is scanned. -/
theorem scanJsonStrings_isSome {scan : Text → Option (Text × Bool)} {data : Json}
    (h : ∀ t ∈ data.strings, (scan t).isSome) : (scanJsonStrings scan data).isSome := by
  rw [scanJsonStrings, Option.isSome_map, ← Option.isSome_map (f := Prod.snd), walk_flag]
  exact flag_isSome h false

theorem scanCut_isSome {text : Text} :
    (scanCut cut tokenize direction rules text).isSome = (cut text).isSome := by
  rw [scanCut, Option.isSome_map]

/-- Without rules for the direction a text stays as it is. -/
theorem rewritten_of_nil (h : applicable direction rules = []) (t : Text) :
    rewritten cut tokenize direction rules t = t := by
  rw [rewritten, h]
  cases cut t <;> rfl

/-- A value whose text can be scanned is scanned. -/
theorem scanAllText_isSome {scan : Text → Option (Text × Bool)} {data : Json}
    (h : (scan (P.json.dumps data)).isSome) : (scanAllText P scan data).isSome := by
  obtain ⟨⟨modified, blocked⟩, hr⟩ := Option.isSome_iff_exists.mp h
  rw [scanAllText, hr]
  show (if blocked = true then _ else _ : Option (Json × Bool)).isSome = true
  split
  · rfl
  · split <;> rfl

variable (cut P tokenize direction rules)

/-- **A scan whose texts can be cut gives a result, and one that does not block leaves what its
rules make of the value.** -/
theorem dlpScanWith_leaves (data : Json)
    (hcut : ∀ s ∈ scannedStrings P direction rules data, (cut s).isSome) :
    ∃ r, dlpScanWith cut P tokenize direction rules data = some r ∧
      (r.blocked = false → Leaves cut P tokenize direction rules data r.modifiedData) := by
  have hnone : ∀ s ∈ scannedStrings P direction rules data, cut s = some s →
      Settled tokenize direction rules s → ∀ r, Redacts direction rules r →
        r.regex.find (rewritten cut tokenize direction rules s) = [] :=
    fun s _ hs hsettled r hr => rewritten_settled hsettled hs hr
  by_cases hempty : applicable direction rules = []
  · refine ⟨.unscanned data, if_pos hempty, fun _ => ⟨hnone, ?_⟩⟩
    have hself : data.mapStrings (rewritten cut tokenize direction rules) = data :=
      Json.mapStrings_eq_self (rewritten_of_nil hempty) data
    rw [hempty, if_neg (by simp), hself]
    exact ⟨rfl, rfl⟩
  by_cases hall : (applicable direction rules).any (·.allText) = true
  · rw [scannedStrings, if_pos hall] at hcut
    have hsome : (scanCut cut tokenize direction rules (P.json.dumps data)).isSome :=
      scanCut_isSome.trans (hcut _ List.mem_cons_self)
    obtain ⟨⟨out, blocked⟩, hr⟩ := Option.isSome_iff_exists.mp (scanAllText_isSome hsome)
    refine ⟨ScanResult.of data (out, blocked), ?_, fun hunblocked => ⟨hnone, ?_⟩⟩
    · rw [dlpScanWith, if_neg hempty, if_pos hall, hr]
      rfl
    · obtain rfl : blocked = false := hunblocked
      rw [if_pos hall]
      exact scanAllText_unblocked (fun _ _ => scanCut_unblocked) hr
  · rw [scannedStrings, if_neg hall] at hcut
    have hsome : ∀ t ∈ data.strings, (scanCut cut tokenize direction rules t).isSome :=
      fun t ht => scanCut_isSome.trans (hcut t ht)
    obtain ⟨⟨out, blocked⟩, hr⟩ := Option.isSome_iff_exists.mp (scanJsonStrings_isSome hsome)
    refine ⟨ScanResult.of data (out, blocked), ?_, fun hunblocked => ⟨hnone, ?_⟩⟩
    · rw [dlpScanWith, if_neg hempty, if_neg hall, hr]
      rfl
    · obtain rfl : blocked = false := hunblocked
      have hout : out = data.mapStrings (rewritten cut tokenize direction rules) :=
        scanJsonStrings_unblocked (fun _ _ => scanCut_unblocked) hr
      rw [if_neg hall]
      exact ⟨hout, hout ▸ shape_mapStrings _ data⟩

end Scan

/-! ### Rules for words -/

/-- The words of an engine without patterns: a word as it stands. -/
def wordRegex (word : Text) : Regex :=
  ⟨fun t => decide (word <:+: t), Rust.RegexEngine.occurrences word 0,
    fun f => Rust.RegexEngine.replaceOccurrences word f 0⟩

/-- A rule that redacts a word in requests. -/
def wordRule (word : String) (allText : Bool) : TokenRule where
  priority := 0
  direction := .request
  regex := wordRegex word.toList
  action := .redact
  allText := allText
  tokenPrefix := "tok_".toList
  tokenTtl := 3600

/-- A letter does not occur in a text it is not in. -/
theorem occurrences_append {c : Char} {s : Text} (h : c ∉ s) (t : Text) :
    Rust.RegexEngine.occurrences [c] 0 (s ++ t) = Rust.RegexEngine.occurrences [c] 0 t := by
  induction s with
  | nil => rfl
  | cons d s ih =>
      obtain ⟨hd, hs⟩ := not_or.mp (List.mem_cons.not.mp h)
      have hno : ¬ [c] <+: d :: (s ++ t) := fun hpre => hd (List.cons_prefix_cons.mp hpre).1
      rw [List.cons_append, Rust.RegexEngine.occurrences, if_neg hno, ih hs]

/-- A letter that is replaced by a text without it does not occur any more. -/
theorem occurrences_replaceOccurrences {c : Char} {f : Text → Text} (h : c ∉ f [c]) (t : Text) :
    Rust.RegexEngine.occurrences [c] 0 (Rust.RegexEngine.replaceOccurrences [c] f 0 t) = [] := by
  induction t with
  | nil => rfl
  | cons d t ih =>
      by_cases hpre : [c] <+: d :: t
      · rw [Rust.RegexEngine.replaceOccurrences, if_pos hpre, occurrences_append h]
        exact ih
      · have hd : ¬ [c] <+: d :: Rust.RegexEngine.replaceOccurrences [c] f 0 t := fun hpre' =>
          hpre (List.cons_prefix_cons.mpr ⟨(List.cons_prefix_cons.mp hpre').1, List.nil_prefix⟩)
        rw [Rust.RegexEngine.replaceOccurrences, if_neg hpre, Rust.RegexEngine.occurrences,
          if_neg hd, ih]

/-- A rule for a letter that is not in its marker leaves none of them. -/
theorem settled_letter (s : Text) : Settled none .request [wordRule "q" false] s := by
  intro before r after happlicable _ _
  have hr : r = wordRule "q" false := by
    have hmem : r ∈ applicable .request [wordRule "q" false] := happlicable ▸ List.mem_append_cons_self
    exact List.mem_singleton.mp (List.mem_filter.mp hmem).1
  have hnone : ∀ t, (wordRule "q" false).regex.find ((wordRule "q" false).replace none t) = [] :=
    occurrences_replaceOccurrences (by decide)
  refine ⟨hr ▸ hnone _, fun r' hr' _ => ?_⟩
  obtain rfl := List.mem_singleton.mp hr'.1
  exact hr ▸ hnone _

/-- Both strings of the example are short enough to be scanned, and have no match afterwards. -/
theorem dlpScanWith_letter :
    (∀ s, Settled none .request [wordRule "q" false] s) ∧ ∃ r, dlpScanWith (scannedPart 8) .plain none .request [wordRule "q" false]
        (.arr [.str "a q".toList, .str "qq".toList]) = some r ∧
      (r.blocked = false → Leaves (scannedPart 8) .plain none .request [wordRule "q" false]
        (.arr [.str "a q".toList, .str "qq".toList]) r.modifiedData) :=
  ⟨settled_letter, dlpScanWith_leaves _ _ _ _ _ _ (by decide +kernel)⟩

/-- The limit and the rule are such that a string with a match is left, or the shape changes. -/
theorem not_redacted_of {cut : Text → Option Text} {P : Platform} {rules : List TokenRule}
    {data : Json} (out : Json)
    (hout : (dlpScanWith cut P none .request rules data).map
      (fun r => (r.blocked, r.modifiedData)) = some (false, out))
    (h : (∃ rule, Redacts .request rules rule ∧ ∃ s ∈ out.strings, rule.regex.find s ≠ []) ∨
      shape out ≠ shape data) : ¬ Redacted cut P none .request rules data := by
  rintro ⟨r, hr, hredacted⟩
  rw [hr] at hout
  obtain ⟨hunblocked, rfl⟩ := Prod.mk.inj (Option.some.inj hout)
  obtain ⟨hfree, hshape⟩ := hredacted hunblocked
  rcases h with ⟨rule, hrule, s, hs, hfind⟩ | hne
  · exact hfind (hfree s hs rule hrule)
  · exact hne hshape

/-- A rule for requests that is alone rewrites. -/
theorem redacts_wordRule (word : String) (allText : Bool) :
    Redacts .request [wordRule word allText] (wordRule word allText) :=
  ⟨List.mem_singleton_self _, rfl, nofun⟩

/-- The platform with a printer and a reader of these documents. -/
def documents (docs : List (Json × String)) : Platform :=
  { Platform.plain with json := Data.printer (docs.map fun d => (d.1, d.2.toList)) }

/-- An object with a number and its numeral. -/
def numbered : Json := .obj [("n".toList, .num (.int 1)), ("s".toList, .str "1".toList)]

/-- An object with a key and a string that are the same, and the object without them. -/
def named (word : String) : Json := .obj [(word.toList, .str word.toList)]

/-- **Values that are not redacted**: a match beyond the limit, a marker that is itself a match, a
number in a value whose text is rewritten, which is no JSON then, and a key in such a text. -/
theorem not_redacted :
    ¬ Redacted (scannedPart 3) .plain none .request [wordRule "alice" false]
        (.str "by alice".toList) ∧
      ¬ Redacted (scannedPart 100) .plain none .request [wordRule "REDACTED" false]
        (.str "REDACTED".toList) ∧
      ¬ Redacted (scannedPart 100) (documents [(numbered, "\x7b\"n\":1,\"s\":\"1\"\x7d")]) none
        .request [wordRule "1" true] numbered ∧
      ¬ Redacted (scannedPart 100)
        (documents [(named "alice", "\x7b\"alice\":\"alice\"\x7d"),
          (named "[REDACTED]", "\x7b\"[REDACTED]\":\"[REDACTED]\"\x7d")]) none
        .request [wordRule "alice" true] (named "alice") := by
  refine ⟨not_redacted_of (.str "by alice".toList) (by decide +kernel) (.inl ?_),
    not_redacted_of (.str "[REDACTED]".toList) (by decide +kernel) (.inl ?_),
    not_redacted_of numbered (by decide +kernel) (.inl ?_),
    not_redacted_of (named "[REDACTED]") (by decide +kernel) (.inr (by decide +kernel))⟩
  · exact ⟨_, redacts_wordRule .., _, List.mem_cons_self, by decide⟩
  · exact ⟨_, redacts_wordRule .., _, List.mem_cons_self, by decide⟩
  · exact ⟨_, redacts_wordRule .., "1".toList, by decide, by decide⟩

end CorexManager.Gateway
