import CorexManager.Gateway.Redaction

/-!
# Verdicts of a scan

What the early exit of a scan does not change: a value is blocked when a rule that blocks matches
in one of its strings, wherever that is and whatever the other rules rewrite.  A scan limit counts
bytes; a string that is longer is cut there, which panics inside of a character.

* `walk_flag` — the verdict of the walk over a value is that of its strings in their order.
* `Guarded` — what the guardrails promise for a value.
* `guarded_iff` — they keep it exactly when every string up to the first that is blocked is cut
  between two characters.
-/

namespace CorexManager.Gateway

open Data (Json Text)

/-! ### Cuts -/

/-- The characters of a text that are within so many bytes. -/
def within : (n : Nat) → Text → Text
  | _, [] => []
  | n, c :: cs => if c.utf8Size ≤ n then c :: within (n - c.utf8Size) cs else []

/-- A limit is not inside of a character. -/
def CutsCleanly (n : Nat) (t : Text) : Prop := Rust.len t ≤ n ∨ Rust.len (within n t) = n

instance (n : Nat) (t : Text) : Decidable (CutsCleanly n t) := inferInstanceAs (Decidable (_ ∨ _))

theorem len_cons (c : Char) (cs : Text) : Rust.len (c :: cs) = c.utf8Size + Rust.len cs := rfl

theorem within_of_le {n : Nat} {t : Text} (h : Rust.len t ≤ n) : within n t = t := by
  induction t generalizing n with
  | nil => rfl
  | cons c cs ih =>
      rw [len_cons] at h
      rw [within, if_pos (by omega), ih (by omega)]

theorem sliceTo_eq {n : Nat} {t : Text} (h : n ≤ Rust.len t) :
    Rust.sliceTo n t = if Rust.len (within n t) = n then some (within n t) else none := by
  induction t generalizing n with
  | nil =>
      obtain rfl : n = 0 := Nat.le_zero.mp h
      rfl
  | cons c cs ih =>
      rw [len_cons] at h
      have hpos : 0 < c.utf8Size := Char.utf8Size_pos c
      by_cases hn : n = 0
      · subst hn
        have hnone : within 0 (c :: cs) = [] := if_neg (Nat.not_le.mpr hpos)
        rw [hnone]
        rfl
      rw [Rust.sliceTo, if_neg hn, within]
      by_cases hle : c.utf8Size ≤ n
      · rw [if_pos hle, if_pos hle, ih (by omega), len_cons]
        by_cases hclean : Rust.len (within (n - c.utf8Size) cs) = n - c.utf8Size
        · rw [if_pos hclean, if_pos (by omega)]
          rfl
        · rw [if_neg hclean, if_neg (by omega)]
          rfl
      · rw [if_neg hle, if_neg hle]
        exact (if_neg fun hzero => hn hzero.symm).symm

/-- The part of a text that is scanned: what is within the limit, unless that is not between two
characters. -/
theorem scannedPart_eq (n : Nat) (t : Text) :
    scannedPart n t = if CutsCleanly n t then some (within n t) else none := by
  unfold scannedPart
  by_cases hlong : n < Rust.len t
  · have hclean : CutsCleanly n t ↔ Rust.len (within n t) = n := or_iff_right (Nat.not_le.mpr hlong)
    rw [if_pos hlong, sliceTo_eq (Nat.le_of_lt hlong)]
    exact ite_congr (propext hclean.symm) (fun _ => rfl) fun _ => rfl
  · have hle := Nat.le_of_not_lt hlong
    have hclean : CutsCleanly n t := .inl hle
    rw [if_neg hlong, if_pos hclean, within_of_le hle]

/-! ### The walk -/

section Walk

variable {scan : Text → Option (Text × Bool)}

/-- The verdict of texts that are scanned one after the other, until one is blocked. -/
def flag (scan : Text → Option (Text × Bool)) : List Text → Bool → Option Bool
  | _, true => some true
  | [], false => some false
  | t :: ts, false => (scan t).bind fun r => flag scan ts r.2

@[simp] theorem flag_true (ts : List Text) : flag scan ts true = some true := by cases ts <;> rfl

theorem flag_append (ts us : List Text) (b : Bool) :
    flag scan (ts ++ us) b = (flag scan ts b).bind (flag scan us) := by
  induction ts generalizing b with
  | nil => cases b <;> simp [flag]
  | cons t ts ih =>
      cases b with
      | true => simp
      | false =>
          rw [List.cons_append, flag, flag, Option.bind_assoc]
          exact congrArg _ (funext fun r => ih r.2)

theorem walkItems_flag {items : List Json}
    (h : ∀ v ∈ items, ∀ b, (walk scan v b).map Prod.snd = flag scan v.strings b) (b : Bool) :
    (walkItems scan items b).map Prod.snd = flag scan (items.flatMap Json.strings) b := by
  induction items generalizing b with
  | nil => cases b <;> rfl
  | cons v items ih =>
      obtain ⟨hv, hitems⟩ := List.forall_mem_cons.mp h
      rw [List.flatMap_cons, flag_append, ← hv b, walkItems]
      cases walk scan v b with
      | none => rfl
      | some r =>
          show ((walkItems scan items r.2).bind _).map Prod.snd = flag scan _ r.2
          rw [← ih hitems r.2]
          cases walkItems scan items r.2 <;> rfl

theorem walkFields_flag {fields : List (Text × Json)}
    (h : ∀ e ∈ fields, ∀ b, (walk scan e.2 b).map Prod.snd = flag scan e.2.strings b) (b : Bool) :
    (walkFields scan fields b).map Prod.snd =
      flag scan (fields.flatMap fun e => e.2.strings) b := by
  induction fields generalizing b with
  | nil => cases b <;> rfl
  | cons e fields ih =>
      obtain ⟨he, hfields⟩ := List.forall_mem_cons.mp h
      rw [List.flatMap_cons, flag_append, ← he b, walkFields]
      cases walk scan e.2 b with
      | none => rfl
      | some r =>
          show ((walkFields scan fields r.2).bind _).map Prod.snd = flag scan _ r.2
          rw [← ih hfields r.2]
          cases walkFields scan fields r.2 <;> rfl

/-- **The verdict of a value is that of its strings.** -/
theorem walk_flag (v : Json) (b : Bool) :
    (walk scan v b).map Prod.snd = flag scan v.strings b := by
  induction v using Json.partsInduction generalizing b with
  | str t =>
      cases b with
      | true => rfl
      | false =>
          show ((scan t).map fun r => (Json.str r.1, r.2)).map Prod.snd = (scan t).bind _
          rw [Option.map_map, Option.map_eq_bind]
          exact congrArg _ (funext fun r => by cases hr : r.2 <;> simp [flag, hr])
  | arr items ih =>
      rw [Json.strings_arr, ← walkItems_flag ih b]
      cases b with
      | true => rw [walk_blocked, walkItems_blocked]; rfl
      | false => exact Option.map_map ..
  | obj fields ih =>
      rw [Json.strings_obj, ← walkFields_flag ih b]
      cases b with
      | true => rw [walk_blocked, walkFields_blocked]; rfl
      | false => exact Option.map_map ..
  | _ => cases b <;> rfl

/-- Texts are scanned to the first that is blocked, and no scan up to it fails. -/
theorem flag_isSome_iff {hit clean : Text → Prop} (hclean : ∀ t, (scan t).isSome ↔ clean t)
    (hhit : ∀ t r, scan t = some r → (r.2 = true ↔ hit t)) (ts : List Text) :
    (flag scan ts false).isSome ↔
      ∀ us t vs, ts = us ++ t :: vs → (∀ u ∈ us, ¬ hit u) → clean t := by
  induction ts with
  | nil => simp [flag]
  | cons t ts ih =>
      cases hscan : scan t with
      | none =>
          have hdirty : ¬ clean t := fun h => by simpa [hscan] using (hclean t).mpr h
          rw [flag, hscan]
          exact iff_of_false (by simp) fun h => hdirty (h [] t ts rfl nofun)
      | some r =>
          have ht : clean t := (hclean t).mp (by rw [hscan]; rfl)
          rw [flag, hscan, Option.bind_some]
          cases hr : r.2 with
          | true =>
              rw [flag_true]
              refine iff_of_true rfl fun us u vs hsplit hus => ?_
              cases us with
              | nil => exact (List.cons.inj hsplit).1 ▸ ht
              | cons x us =>
                  obtain ⟨rfl, -⟩ := List.cons.inj hsplit
                  exact absurd ((hhit t r hscan).mp hr) (hus t List.mem_cons_self)
          | false =>
              have hmiss : ¬ hit t := fun h => by simpa [hr] using (hhit t r hscan).mpr h
              rw [ih]
              constructor
              · rintro h us u vs hsplit hus
                cases us with
                | nil => exact (List.cons.inj hsplit).1 ▸ ht
                | cons x us =>
                    obtain ⟨rfl, rfl⟩ := List.cons.inj hsplit
                    exact h us u vs rfl fun y hy => hus y (List.mem_cons_of_mem _ hy)
              · rintro h us u vs rfl hus
                exact h (t :: us) u vs rfl (List.forall_mem_cons.mpr ⟨hmiss, hus⟩)

/-- A scan that does not fail blocks exactly when one of the texts is hit. -/
theorem flag_eq_some {hit : Text → Prop} (hhit : ∀ t r, scan t = some r → (r.2 = true ↔ hit t))
    {ts : List Text} {b : Bool} (h : flag scan ts false = some b) :
    b = true ↔ ∃ t ∈ ts, hit t := by
  induction ts with
  | nil =>
      obtain rfl : false = b := Option.some.inj h
      simp
  | cons t ts ih =>
      obtain ⟨r, hscan, h⟩ := Option.bind_eq_some_iff.mp h
      have ht := hhit t r hscan
      cases hr : r.2 with
      | true =>
          rw [hr, flag_true] at h
          exact iff_of_true (Option.some.inj h).symm ⟨t, List.mem_cons_self, ht.mp hr⟩
      | false =>
          rw [hr] at h ht
          rw [ih h, List.exists_mem_cons_iff, or_iff_right (fun hyes => Bool.false_ne_true (ht.mpr hyes))]

/-- The strings of a value do not show in its shape: its keys, the lengths of its arrays and its
other values do. -/
def shape (v : Json) : Json := v.mapStrings fun _ => []

theorem shape_mapStrings (f : Text → Text) (v : Json) : shape (v.mapStrings f) = shape v := by
  unfold shape
  induction v using Json.partsInduction with
  | arr items ih =>
      rw [Json.mapStrings_arr, Json.mapStrings_arr, Json.mapStrings_arr, List.map_map]
      exact congrArg Json.arr (List.map_congr_left ih)
  | obj fields ih =>
      rw [Json.mapStrings_obj, Json.mapStrings_obj, Json.mapStrings_obj, List.map_map]
      exact congrArg Json.obj (List.map_congr_left fun e he => Prod.ext rfl (ih e he))
  | _ => rfl

end Walk

/-! ### The verdict of the rules -/

/-- The rules block a text exactly when one that blocks counts a match in the part that is
scanned. -/
theorem applyRules_blocked {direction : Direction} {scanned : Text} {rules : List Rule}
    {text : Text} : (applyRules direction scanned rules text).2 = true ↔
      ∃ r ∈ rules, r.direction.matches direction = true ∧ r.count scanned ≠ 0 ∧
        r.rewrite = none := by
  induction rules generalizing text with
  | nil => simp [applyRules]
  | cons r rules ih =>
      rw [applyRules, List.exists_mem_cons_iff]
      by_cases hskip : (!r.direction.matches direction || r.count scanned == 0) = true
      · rw [if_pos hskip, ih, or_iff_right]
        rintro ⟨hdirection, hcount, -⟩
        simp [hdirection, hcount] at hskip
      · rw [if_neg hskip]
        simp only [Bool.or_eq_true, Bool.not_eq_true', beq_iff_eq, not_or, Bool.not_eq_false] at hskip
        cases hrewrite : r.rewrite with
        | none => exact iff_of_true rfl (.inl ⟨hskip.1, hskip.2, rfl⟩)
        | some f =>
            rw [or_iff_right fun h => absurd h.2.2 (Option.some_ne_none f)]
            exact ih

/-- A guardrail matches in a text. -/
def CompiledGuardrailRule.Matches (r : CompiledGuardrailRule) (t : Text) : Prop :=
  ∃ re ∈ r.regexes, re.find t ≠ []

section Guardrails

variable (P : Platform) (direction : Direction) (rules : List CompiledGuardrailRule)

/-- A rule for the direction blocks a string: it matches, within the limit, in the string with its
tag characters decoded. -/
def Blocks (s : Text) : Prop :=
  ∃ r ∈ rules, r.direction.matches direction = true ∧ r.action = .block ∧
    r.Matches (within P.guardrailMaxScanLength (decodeTagChars s))

/-- **What the guardrails promise for a value**: a verdict, by the rules that block alone, the value
itself if it is blocked, and its shape if it is not. -/
def Guarded (data : Json) : Prop :=
  ∃ r, guardrailScan P direction data rules = some r ∧
    (r.blocked = true ↔ ∃ s ∈ data.strings, Blocks P direction rules s) ∧
    (r.blocked = true → r.modifiedData = data) ∧
    (r.blocked = false → shape r.modifiedData = shape data)

/-- Every string up to the first that is blocked is cut between two characters. -/
def CutsAllCleanly (data : Json) : Prop :=
  ∀ us s vs, data.strings = us ++ s :: vs → (∀ u ∈ us, ¬ Blocks P direction rules u) →
    CutsCleanly P.guardrailMaxScanLength (decodeTagChars s)

variable {P direction rules}

/-- The scan of a string by the rules for the direction. -/
def guardrailText? (P : Platform) (direction : Direction) (rules : List CompiledGuardrailRule)
    (s : Text) : Option (Text × Bool) :=
  scanText P.guardrailMaxScanLength direction
    ((rules.filter fun r => r.direction.matches direction).map CompiledGuardrailRule.rule)
    (decodeTagChars s)

theorem CompiledGuardrailRule.count_ne_zero {r : CompiledGuardrailRule} {t : Text} :
    r.rule.count t ≠ 0 ↔ r.Matches t := by
  show (r.regexes.map fun re => re.count t).sum ≠ 0 ↔ _
  rw [ne_eq, List.sum_eq_zero_iff]
  simp [CompiledGuardrailRule.Matches, Rust.Regex.count]

theorem CompiledGuardrailRule.rewrite_eq_none {r : CompiledGuardrailRule} :
    r.rule.rewrite = none ↔ r.action = .block := by
  cases haction : r.action <;> simp [CompiledGuardrailRule.rule, haction]

/-- A string is scanned if it is cut between two characters. -/
theorem guardrailText?_isSome (s : Text) :
    (guardrailText? P direction rules s).isSome ↔
      CutsCleanly P.guardrailMaxScanLength (decodeTagChars s) := by
  rw [guardrailText?, scanText_eq, Option.isSome_map, scannedPart_eq]
  by_cases hclean : CutsCleanly P.guardrailMaxScanLength (decodeTagChars s) <;> simp [hclean]

/-- A string that is scanned is blocked exactly by a rule that blocks. -/
theorem guardrailText?_blocked (s : Text) (r : Text × Bool)
    (h : guardrailText? P direction rules s = some r) :
    r.2 = true ↔ Blocks P direction rules s := by
  rw [guardrailText?, scanText_eq] at h
  obtain ⟨scanned, hscanned, rfl⟩ := Option.map_eq_some_iff.mp h
  rw [scannedPart_eq] at hscanned
  obtain ⟨-, rfl⟩ : _ ∧ within _ _ = scanned := by
    split at hscanned
    · next hclean => exact ⟨hclean, Option.some.inj hscanned⟩
    · cases hscanned
  show (applyRules _ _ _ _).2 = true ↔ _
  rw [applyRules_blocked]
  constructor
  · rintro ⟨_, hmem, hdirection, hcount, hrewrite⟩
    obtain ⟨rule, hrule, rfl⟩ := List.mem_map.mp hmem
    exact ⟨rule, (List.mem_filter.mp hrule).1, hdirection,
      CompiledGuardrailRule.rewrite_eq_none.mp hrewrite,
      CompiledGuardrailRule.count_ne_zero.mp hcount⟩
  · rintro ⟨rule, hrule, hdirection, haction, hmatches⟩
    exact ⟨rule.rule, List.mem_map_of_mem (List.mem_filter.mpr ⟨hrule, hdirection⟩), hdirection,
      CompiledGuardrailRule.count_ne_zero.mpr hmatches,
      CompiledGuardrailRule.rewrite_eq_none.mpr haction⟩

variable (P direction rules)

/-- **When the guardrails keep their promise**: for every object, exactly when no rule is for the
direction, or every string up to the first that is blocked is cut between two characters. -/
theorem guarded_iff (fields : List (Text × Json)) :
    Guarded P direction rules (.obj fields) ↔
      (∀ r ∈ rules, r.direction.matches direction = false) ∨
        CutsAllCleanly P direction rules (.obj fields) := by
  have hempty : (rules.filter fun r => r.direction.matches direction) = [] ↔
      ∀ r ∈ rules, r.direction.matches direction = false := by
    simp [List.filter_eq_nil_iff]
  by_cases hnone : ∀ r ∈ rules, r.direction.matches direction = false
  · refine iff_of_true ⟨.unscanned (.obj fields), if_pos (.inl (hempty.mpr hnone)), ?_, ?_, ?_⟩
      (.inl hnone)
    · refine iff_of_false Bool.false_ne_true ?_
      rintro ⟨s, -, r, hr, hdirection, -⟩
      exact Bool.false_ne_true ((hnone r hr).symm.trans hdirection)
    · exact fun _ => rfl
    · exact fun _ => rfl
  · rw [or_iff_right hnone]
    have hscan : guardrailScan P direction (.obj fields) rules =
        (scanJsonStrings (guardrailText? P direction rules) (.obj fields)).map
          (ScanResult.of (.obj fields)) := by
      refine if_neg ?_
      rintro (hnil | ⟨-, hobject⟩)
      · exact hnone (hempty.mp hnil)
      · cases hobject
    have hflag := @walk_flag (guardrailText? P direction rules) (.obj fields) false
    refine Iff.trans ?_ (flag_isSome_iff guardrailText?_isSome guardrailText?_blocked _)
    rw [Guarded, hscan, ← hflag, Option.isSome_map]
    cases hwalk : walk (guardrailText? P direction rules) (.obj fields) false with
    | none =>
        refine iff_of_false ?_ Bool.false_ne_true
        rintro ⟨r, hr, -⟩
        rw [scanJsonStrings, hwalk] at hr
        cases hr
    | some r =>
        obtain ⟨w, b⟩ := r
        rw [hwalk] at hflag
        have hresult : scanJsonStrings (guardrailText? P direction rules) (.obj fields) =
            some (if b then .obj fields else w, b) := by rw [scanJsonStrings, hwalk]; rfl
        rw [hresult]
        refine iff_of_true ⟨_, rfl, ?_, fun hb => ?_, fun hb => ?_⟩ rfl
        · exact flag_eq_some guardrailText?_blocked hflag.symm
        · exact if_pos hb
        · obtain rfl : b = false := hb
          have hw : w = (Json.obj fields).mapStrings fun t =>
              ((guardrailText? P direction rules t).map Prod.fst).getD t :=
            walk_unblocked (fun t out hout => by rw [hout]; rfl) _ w hwalk
          show shape w = shape (.obj fields)
          rw [hw, shape_mapStrings]

/-- A rule that blocks the word "bad". -/
def badRule : GuardrailConfig where
  teamId := 1
  enabled := true
  priority := 0
  direction := "both".toList
  pack := none
  findRegex := some "bad".toList
  action := "block".toList

/-- A limit of one byte is inside of the first character. -/
theorem accent_panics :
    ¬ Guarded { Platform.plain with guardrailMaxScanLength := 1 } .request
      (compileGuardrailRules .plain [badRule]) (.obj [("note".toList, .str "é".toList)]) := by
  rintro ⟨r, hr, -⟩
  have hnone : guardrailScan { Platform.plain with guardrailMaxScanLength := 1 } .request
      (.obj [("note".toList, .str "é".toList)]) (compileGuardrailRules .plain [badRule]) = none := by
    decide +kernel
  rw [hnone] at hr
  cases hr

end Guardrails

end CorexManager.Gateway
