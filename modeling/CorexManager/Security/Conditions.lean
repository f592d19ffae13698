import CorexManager.Security.Fetches

/-!
# The conditions the translator writes

Each shape of text the translator pastes together, over the text of a fetch, tests
what the shape is for: values are read back, strings and integers are compared, a
list literal has one of its values, a security list has the sample.
-/

namespace CorexManager.Security

open Data
open Expression
open HAProxy

variable {env : Env} {v : View}

/-! ### Values -/

private theorem valueChar_bare {c : Char} (h : valueChar c = true) : bare c = true := by
  simp only [bare, Bool.not_eq_true', Bool.or_eq_false_iff, beq_eq_false_iff_ne, ne_eq]
  refine ⟨⟨⟨⟨⟨⟨⟨?_, ?_⟩, ?_⟩, ?_⟩, ?_⟩, ?_⟩, ?_⟩, ?_⟩ <;>
    · rintro rfl
      exact absurd h (by decide)

theorem plainValue_spec {value : Text} (h : plainValue value = true) :
    Argument value ∧ ∀ c ∈ value, quotable c = true := by
  simp only [plainValue, Bool.and_eq_true, decide_eq_true_eq, List.all_eq_true] at h
  exact ⟨⟨h.1.1, h.1.2⟩, h.2⟩

/-- A quoted text is read back. -/
private theorem reads_quoted {value : Text} (h : ∀ c ∈ value, quotable c = true) :
    Reads (quoted (escapeRegex value)) [value] :=
  (piece_quoted h).reads

/-- A value is read back, quoted or not. -/
private theorem reads_stringValue {value : Text} (h : plainValue value = true) :
    Reads (haproxyStringValue value) [value] := by
  obtain ⟨hargument, hquotable⟩ := plainValue_spec h
  have hline : '\n' ∉ value := fun hmem => absurd (hquotable _ hmem) (by decide)
  unfold haproxyStringValue
  rw [Python.chopLineEnd_eq hline]
  split
  · next hchars =>
      exact (piece_bare hchars.1 fun c hc =>
        valueChar_bare (List.all_eq_true.mp hchars.2 c hc)).reads
  · exact reads_quoted hquotable

/-- The spelling of a natural number does not begin with a dash. -/
private theorem notFlag_int {n : Int} (h : 0 ≤ n) : notFlag (intText n) = true := by
  obtain ⟨k, rfl⟩ := Int.eq_ofNat_of_zero_le h
  simp only [notFlag, bne_iff_ne, ne_eq]
  intro hhead
  have hmem : '-' ∈ natText k := List.mem_of_head? hhead
  exact absurd (natText_isDigit k _ hmem) (by decide)

/-! ### Conditions on a fetch -/

theorem tests_bangIf {t : Text} {b : Bool} (negated : Bool) (h : Tests v t b) :
    Tests v (bangIf negated t) (xor negated b) := by
  cases negated with
  | false => simpa [bangIf] using h
  | true => simpa [bangIf, bang] using h.bang

/-- The text of a condition with a match flag. -/
private theorem matching_eq (fetch args : Text) (m : Method) {name : String}
    (hname : name.toList = m.name) :
    matching fetch name args
      = anonText 0 (fetch ++ ' ' :: ("-m".toList ++ ' ' :: (m.name ++ ' ' :: args))) := by
  unfold matching braced anonText
  rw [hname]
  simp

/-- One pattern, matched with a named method: the test is the operator `holds`. -/
private theorem tests_matching {fetch word value args : Text} {holds : Sample → Bool}
    (name : String) (m : Method) (hname : name.toList = m.name) (hfetch : FetchText fetch word)
    (hread : Reads args [value]) (hvalue : Argument value) (hfirst : notFlag value = true)
    (hholds : ∀ s, matchSample v.engine m false [value] s = holds s) :
    Tests v (matching fetch name args) ((v.samples word).any holds) := by
  rw [matching_eq fetch args m hname, ← funext hholds]
  exact Tests.method m hfetch hread (by simpa using hfirst) (by simpa using hvalue)

/-- The condition of an equality. -/
theorem tests_equal {fetch word value : Text} (hfetch : FetchText fetch word)
    (hvalue : plainFirst value = true) :
    Tests v (matching fetch "str" (haproxyStringValue value))
      ((v.samples word).any (stringHolds v.engine value · .eq)) := by
  simp only [plainFirst, Bool.and_eq_true] at hvalue
  exact tests_matching "str" .str (by decide) hfetch (reads_stringValue hvalue.1)
    (plainValue_spec hvalue.1).1 hvalue.2
    fun s => by simp [matchSample, stringHolds, foldCase]

/-- **The conditions on strings** mean the operators; `plain` is the condition of an
equality. -/
theorem tests_stringCond {fetch word plain value cond : Text} {op : CompareOp}
    (hfetch : FetchText fetch word) (hvalue : plainFirst value = true)
    (hplain : Tests v plain ((v.samples word).any (stringHolds v.engine value · .eq)))
    (h : stringCond fetch plain value op = some cond) :
    Tests v cond (stringMeaning v.engine (v.samples word) value op) := by
  simp only [plainFirst, Bool.and_eq_true] at hvalue
  obtain ⟨hargument, hquotable⟩ := plainValue_spec hvalue.1
  have hread := reads_stringValue hvalue.1
  have hreg : Tests v (matching fetch "reg" (quoted (escapeRegex value)))
      ((v.samples word).any (stringHolds v.engine value · .match)) :=
    tests_matching "reg" .reg (by decide) hfetch (reads_quoted hquotable) hargument hvalue.2
      fun s => by simp [matchSample, stringHolds]
  cases op with
  | eq => cases h; exact hplain
  | ne => cases h; exact hplain.bang
  | «match» => cases h; exact hreg
  | notMatch => cases h; exact hreg.bang
  | contains =>
      cases h
      exact tests_matching "sub" .sub (by decide) hfetch hread hargument hvalue.2
        fun s => by simp [matchSample, stringHolds, foldCase]
  | startsWith =>
      cases h
      exact tests_matching "beg" .beg (by decide) hfetch hread hargument hvalue.2
        fun s => by simp [matchSample, stringHolds, foldCase]
  | endsWith =>
      cases h
      exact tests_matching "end" .end (by decide) hfetch hread hargument hvalue.2
        fun s => by simp [matchSample, stringHolds, foldCase]
  | gt => cases h
  | lt => cases h
  | ge => cases h
  | le => cases h

/-- Integers under a comparison word, or under none, which is `eq`. -/
private theorem tests_ints {fetch word args : Text} (op : IntOp) (words : List Text)
    (values : List Int) (hfetch : FetchText fetch word)
    (hmatch : ∀ n, intMatch .eq (words ++ values.map intText) n = values.any (op.holds n))
    (hread : Reads args (words ++ values.map intText))
    (hwords : ∀ w ∈ words, Argument w)
    (hfirst : ∀ w ∈ (words ++ values.map intText).head?, notFlag w = true) :
    Tests v (matching fetch "int" args)
      ((v.samples word).any fun s => (s.int? v.engine).any fun n => values.any (op.holds n)) := by
  rw [matching_eq fetch args .int (by decide)]
  have hpats : ∀ p ∈ words ++ values.map intText, Argument p := by
    intro p hp
    rcases List.mem_append.mp hp with hp | hp
    · exact hwords p hp
    · obtain ⟨n, -, rfl⟩ := List.mem_map.mp hp
      exact argument_int n
  have htests := Tests.method (v := v) .int hfetch hread hfirst hpats
  have hsame : matchSample v.engine .int false (words ++ values.map intText)
      = fun s => (s.int? v.engine).any fun n => values.any (op.holds n) := by
    funext s
    simp only [matchSample, funext hmatch]
  rwa [hsame] at htests

/-- `gt`, `lt`, `ge` or `le`, and an integer. -/
private theorem tests_intWord {fetch word : Text} (op : IntOp) (w : String) (value : Int)
    (hword : IntOp.read w.toList = some op) (hfetch : FetchText fetch word)
    (hbare : w.toList ≠ [] ∧ ∀ c ∈ w.toList, bare c = true)
    (hargument : Argument w.toList ∧ notFlag w.toList = true) :
    Tests v (matching fetch "int" (w.toList ++ ' ' :: intText value))
      ((v.samples word).any fun s => (s.int? v.engine).any (op.holds · value)) := by
  have hread : Reads (w.toList ++ ' ' :: intText value)
      ([w.toList] ++ [value].map intText) :=
    (piece_bare hbare.1 hbare.2).reads.append (reads_int value)
  have hmatch : ∀ n, intMatch .eq ([w.toList] ++ [value].map intText) n
      = [value].any (op.holds n) := by
    intro n
    rw [← intMatch_map_intText, List.singleton_append, intMatch, hword]
  simpa using tests_ints op [w.toList] [value] hfetch hmatch hread (by simpa using hargument.1)
    (by simpa using hargument.2)

/-- **The conditions on integers** mean the operators. -/
theorem tests_intCond {fetch word cond : Text} {value : Int} {op : CompareOp}
    (hfetch : FetchText fetch word) (hvalue : 0 ≤ value ∨ ¬ (op = .eq ∨ op = .ne))
    (h : intCond fetch value op = some cond) :
    Tests v cond (intMeaning v.engine (v.samples word) value op) := by
  have heq : 0 ≤ value → Tests v (matching fetch "int" (intText value))
      ((v.samples word).any fun s => (s.int? v.engine).any (intHolds value · .eq)) := by
    intro hnonneg
    have htests := tests_ints (v := v) .eq [] [value] hfetch
      (fun n => intMatch_map_intText .eq [value] n) (reads_int value) (by simp)
      (by simpa using notFlag_int hnonneg)
    simpa [IntOp.holds, intHolds] using htests
  cases op with
  | eq => cases h; exact heq (by simpa using hvalue)
  | ne => cases h; exact (heq (by simpa using hvalue)).bang
  | gt =>
      cases h
      exact tests_intWord .gt "gt" value (by decide) hfetch (by decide) (by decide)
  | lt =>
      cases h
      exact tests_intWord .lt "lt" value (by decide) hfetch (by decide) (by decide)
  | ge =>
      cases h
      exact tests_intWord .ge "ge" value (by decide) hfetch (by decide) (by decide)
  | le =>
      cases h
      exact tests_intWord .le "le" value (by decide) hfetch (by decide) (by decide)
  | «match» => cases h
  | notMatch => cases h
  | contains => cases h
  | startsWith => cases h
  | endsWith => cases h

/-! ### Truth values, presence, lists -/

/-- `{ fetch -m found }`. -/
theorem tests_found {fetch word : Text} (hfetch : FetchText fetch word) :
    Tests v (braced (fetch ++ " -m found".toList)) !(v.samples word).isEmpty := by
  have htext : braced (fetch ++ " -m found".toList)
      = anonText 0 (fetch ++ ' ' :: ("-m".toList ++ ' ' :: Method.found.name)) := by
    unfold braced anonText
    rw [show Method.found.name = "found".toList from rfl]
    simp
  have hvalue : (v.samples word).any (matchSample v.engine .found false [])
      = !(v.samples word).isEmpty := by
    cases v.samples word with
    | nil => rfl
    | cons s ss => simp [matchSample]
  rw [htext, ← hvalue]
  exact Tests.method_alone .found hfetch

/-- A fetch matched against a file by a named method. -/
theorem tests_methodFile {fetch word path flags : Text} {holds : Sample → Bool} (m : Method)
    (hflags : flags = " -m ".toList ++ m.name ++ " -f ".toList)
    (hfetch : FetchText fetch word) (hread : Reads path [path]) (hpath : Argument path)
    (hholds : ∀ s, matchSample v.engine m false (v.engine.file path) s = holds s) :
    Tests v (braced (fetch ++ flags ++ path)) ((v.samples word).any holds) := by
  have htext : braced (fetch ++ flags ++ path)
      = anonText 0 (fetch ++ ' ' :: ("-m".toList ++ ' ' :: (m.name ++ ' ' ::
          ("-f".toList ++ ' ' :: path)))) := by
    unfold braced anonText
    simp [hflags]
  rw [htext, ← funext hholds]
  exact Tests.method_file m hfetch hread hpath

private theorem any_congr_mem {α : Type*} {p q : α → Bool} {xs : List α}
    (h : ∀ x ∈ xs, p x = q x) : xs.any p = xs.any q := by
  induction xs with
  | nil => rfl
  | cons x xs ih =>
      rw [List.any_cons, List.any_cons, h x List.mem_cons_self,
        ih fun y hy => h y (List.mem_cons_of_mem _ hy)]

/-- A fetch matched against a file by the method of its samples. -/
theorem tests_file {fetch word path : Text} {holds : Sample → Bool}
    (hfetch : FetchText fetch word) (hread : Reads path [path]) (hpath : Argument path)
    (hholds : ∀ s ∈ v.samples word,
      matchSample v.engine s.method false (v.engine.file path) s = holds s) :
    Tests v (braced (fetch ++ " -f ".toList ++ path)) ((v.samples word).any holds) := by
  have htext : braced (fetch ++ " -f ".toList ++ path)
      = anonText 0 (fetch ++ ' ' :: ("-f".toList ++ ' ' :: path)) := by
    unfold braced anonText
    simp
  rw [htext, ← any_congr_mem hholds]
  exact Tests.file hfetch hread hpath

/-- A fetch on its own, whose samples are booleans. -/
theorem tests_bool {fetch word : Text} (hfetch : FetchText fetch word)
    (hbool : ∀ s ∈ v.samples word, s.method = .bool) :
    Tests v (braced fetch) ((v.samples word).any Sample.truthy) := by
  have hmatch : ∀ s ∈ v.samples word,
      matchSample v.engine s.method false [] s = s.truthy := by
    intro s hs
    rw [hbool s hs]
    rfl
  rw [← any_congr_mem hmatch]
  exact Tests.bare hfetch

/-- A boolean variable. -/
theorem tests_boolVar {fetch word : Text} (hfetch : FetchText fetch word) :
    Tests v (braced (fetch ++ " -m bool".toList)) ((v.samples word).any Sample.truthy) := by
  have htext : braced (fetch ++ " -m bool".toList)
      = anonText 0 (fetch ++ ' ' :: ("-m".toList ++ ' ' :: Method.bool.name)) := by
    unfold braced anonText
    rw [show Method.bool.name = "bool".toList from rfl]
    simp
  have hmatch : matchSample v.engine .bool false [] = Sample.truthy := rfl
  rw [htext, ← hmatch]
  exact Tests.method_alone .bool hfetch

/-- A boolean variable that holds the text `1`. -/
theorem tests_textVar {fetch word : Text} (hfetch : FetchText fetch word) :
    Tests v (braced (fetch ++ " -m str 1".toList))
      ((v.samples word).any fun s => ['1'] == s.text) := by
  have htext : braced (fetch ++ " -m str 1".toList) = matching fetch "str" ['1'] := by
    unfold matching
    simp
  rw [htext]
  exact tests_matching "str" .str (by decide) hfetch
    (piece_bare (by decide) (by decide)).reads (by decide) (by decide)
    fun s => by simp [matchSample, foldCase]

/-- The `method` fetch without a match flag. -/
theorem tests_default {fetch word value : Text} (hfetch : FetchText fetch word)
    (hvalue : plainFirst value = true) (hstr : ∀ s ∈ v.samples word, s.method = .str) :
    Tests v (braced (fetch ++ ' ' :: haproxyStringValue value))
      ((v.samples word).any (stringHolds v.engine value · .eq)) := by
  simp only [plainFirst, Bool.and_eq_true] at hvalue
  have hmatch : ∀ s ∈ v.samples word,
      matchSample v.engine s.method false [value] s = stringHolds v.engine value s .eq := by
    intro s hs
    rw [hstr s hs]
    simp [matchSample, stringHolds, foldCase]
  rw [← any_congr_mem hmatch]
  exact Tests.default hfetch (reads_stringValue hvalue.1) (by simpa using hvalue.2)
    (by simpa using (plainValue_spec hvalue.1).1)

/-! ### List literals -/

private theorem allStrings_eq {values : List Item} {strings : List Text}
    (h : allStrings values = some strings) : values = strings.map .str := by
  induction values generalizing strings with
  | nil => cases h; rfl
  | cons x xs ih =>
      cases x with
      | int n => simp [allStrings] at h
      | str s =>
          simp only [allStrings, List.mapM_cons, Option.bind_eq_bind, Option.bind_some,
            Option.bind_eq_some_iff] at h
          obtain ⟨ss, hss, heq⟩ := h
          cases heq
          rw [List.map_cons, ← ih hss]

private theorem allInts_eq {values : List Item} {ints : List Int}
    (h : allInts values = some ints) : values = ints.map .int := by
  induction values generalizing ints with
  | nil => cases h; rfl
  | cons x xs ih =>
      cases x with
      | str s => simp [allInts] at h
      | int n =>
          simp only [allInts, List.mapM_cons, Option.bind_eq_bind, Option.bind_some,
            Option.bind_eq_some_iff] at h
          obtain ⟨ns, hns, heq⟩ := h
          cases heq
          rw [List.map_cons, ← ih hns]

/-- A list of strings. -/
theorem tests_strings {fetch word : Text} {values : List Item} {strings : List Text}
    (hfetch : FetchText fetch word) (hne : values ≠ []) (hplain : plainLiterals values = true)
    (h : allStrings values = some strings) :
    Tests v (matching fetch "str" (blankJoin (strings.map haproxyStringValue)))
      ((v.samples word).any fun s => values.any (itemHolds v.engine s)) := by
  obtain rfl := allStrings_eq h
  have hstrings : strings ≠ [] := by simpa using hne
  simp only [plainLiterals, Bool.and_eq_true, List.all_map, List.all_eq_true,
    Function.comp_apply] at hplain
  obtain ⟨hvalues, hfirst⟩ := hplain
  have hread : Reads (blankJoin (strings.map haproxyStringValue)) strings := by
    have hall : Reads (blankJoin (strings.map haproxyStringValue))
        (strings.flatMap fun s => [s]) :=
      Reads.blankJoin hstrings fun s hs => reads_stringValue (hvalues s hs)
    simpa using hall
  have hhead : ∀ p ∈ strings.head?, notFlag p = true := by
    cases strings with
    | nil => simp
    | cons s ss => simpa using hfirst
  have hmatch : matchSample v.engine .str false strings
      = fun s => (strings.map Item.str).any (itemHolds v.engine s) := by
    funext s
    rw [List.any_map]
    simp [matchSample, foldCase, itemHolds, Function.comp_def]
  rw [matching_eq fetch _ .str (by decide), ← hmatch]
  exact Tests.method .str hfetch hread hhead fun p hp => (plainValue_spec (hvalues p hp)).1

/-- A list of integers. -/
theorem tests_intList {fetch word : Text} {values : List Item} {ints : List Int}
    (hfetch : FetchText fetch word) (hne : values ≠ []) (hplain : plainLiterals values = true)
    (h : allInts values = some ints) :
    Tests v (matching fetch "int" (blankJoin (ints.map intText)))
      ((v.samples word).any fun s => values.any (itemHolds v.engine s)) := by
  obtain rfl := allInts_eq h
  have hints : ints ≠ [] := by simpa using hne
  simp only [plainLiterals, Bool.and_eq_true] at hplain
  have hread : Reads (blankJoin (ints.map intText)) (ints.map intText) := by
    have hall : Reads (blankJoin (ints.map intText)) (ints.flatMap fun n => [intText n]) :=
      Reads.blankJoin hints fun n _ => reads_int n
    rwa [← List.map_eq_flatMap] at hall
  have hhead : ∀ w ∈ (ints.map intText).head?, notFlag w = true := by
    cases ints with
    | nil => simp
    | cons n ns => simpa using notFlag_int (by simpa using hplain.2)
  have htests := tests_ints (v := v) .eq [] ints hfetch
    (fun n => intMatch_map_intText .eq ints n) hread (by simp) hhead
  have hmatch : (fun s : Sample => (s.int? v.engine).any fun n => ints.any (IntOp.eq.holds n))
      = fun s => (ints.map Item.int).any (itemHolds v.engine s) := by
    funext s
    rw [List.any_map]
    cases hint : s.int? v.engine with
    | none => simp [itemHolds, hint]
    | some n =>
        simp only [itemHolds, hint, Option.any_some, Function.comp_def]
        rfl
  rwa [hmatch] at htests

/-! ### Security lists -/

private theorem fileChar_bare {c : Char} (h : fileChar c = true) : bare c = true := by
  simp only [bare, Bool.not_eq_true', Bool.or_eq_false_iff, beq_eq_false_iff_ne, ne_eq]
  refine ⟨⟨⟨⟨⟨⟨⟨?_, ?_⟩, ?_⟩, ?_⟩, ?_⟩, ?_⟩, ?_⟩, ?_⟩ <;>
    · rintro rfl
      exact absurd h (by decide)

/-- A file name has file characters only. -/
private theorem safeFilename_bare (name : Text) : ∀ c ∈ safeFilename name, bare c = true := by
  have hmap : ∀ c ∈ (name.map fun c => if fileChar c then c else '_'), bare c = true := by
    intro c hc
    obtain ⟨d, -, rfl⟩ := List.mem_map.mp hc
    split
    · next hd => exact fileChar_bare hd
    · decide
  intro c hc
  unfold safeFilename at hc
  dsimp only at hc
  split at hc
  · revert c
    decide
  · refine hmap c ?_
    have hdrop := List.mem_reverse.mp hc
    have hmem := List.mem_reverse.mp (List.dropWhile_sublist _ |>.mem hdrop)
    exact List.dropWhile_sublist _ |>.mem hmem

private theorem joinPath_bare {dir name : Text} (hdir : plainPath dir) (hname : plainPath name) :
    plainPath (joinPath dir name) := by
  unfold joinPath
  split
  · intro c hc
    exact (List.mem_append.mp hc).elim (hdir c) (hname c)
  · intro c hc
    rcases List.mem_append.mp hc with hc | hc
    · exact hdir c hc
    · rcases List.mem_cons.mp hc with rfl | hc
      · decide
      · exact hname c hc

private theorem joinPath_suffix (dir name : Text) :
    ∃ front, joinPath dir name = front ++ name := by
  unfold joinPath
  split
  · exact ⟨dir, rfl⟩
  · exact ⟨dir ++ ['/'], by simp⟩

/-- **The path of a list** is one word. -/
theorem reads_listPath (hpaths : env.PlainPaths) {listType listName path : Text}
    (h : resolveListPath env listType listName = .ok path) :
    Reads path [path] ∧ Argument path := by
  unfold resolveListPath at h
  split at h
  · cases h
  · next kind hkind =>
      split at h
      · cases h
        have htype : plainPath listType := by
          have hmem := List.find?_some hkind
          rw [← beq_iff_eq.mp hmem]
          cases kind <;> (unfold plainPath; decide)
        have hext : ∀ c ∈ ".lst".toList, bare c = true := by decide
        have hname : plainPath (safeFilename listName ++ ".lst".toList) := by
          intro c hc
          rcases List.mem_append.mp hc with hc | hc
          · exact safeFilename_bare listName c hc
          · exact hext c hc
        have hbare := joinPath_bare (joinPath_bare hpaths.listsDir htype) hname
        obtain ⟨front, hfront⟩ := joinPath_suffix (joinPath env.listsDir listType)
          (safeFilename listName ++ ".lst".toList)
        have hlast : (joinPath (joinPath env.listsDir listType)
            (safeFilename listName ++ ".lst".toList)).getLast? = some 't' := by
          rw [hfront, ← List.append_assoc, List.getLast?_append]
          rfl
        have hargument : Argument (joinPath (joinPath env.listsDir listType)
            (safeFilename listName ++ ".lst".toList)) := by
          constructor
          · intro heq
            rw [heq] at hlast
            cases hlast
          · intro heq
            rw [heq] at hlast
            exact absurd hlast (by decide)
        exact ⟨(piece_bare hargument.1 hbare).reads, hargument⟩
      · cases h

end CorexManager.Security
