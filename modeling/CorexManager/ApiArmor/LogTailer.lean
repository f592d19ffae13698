import CorexManager.Data.Tailing
import CorexManager.Logic.Transition
import CorexManager.Python.Text

/-!
# The readers of the profiling log

The profiler and the schema learner follow one log, each with an offset of its own: a sample reads
from the offset to the end of the file, hands every line over and moves the offset
(`processNewLines`, the same code in both).  Meanwhile the writer appends, and the file may be
truncated, replaced or removed.

* `World.Exact` — every line of the log was handed over once, in order, as far as the log was there
  at the last sample.
* `World.Safe` — what an event has to spare for it: the log is replaced only when it has been read, a
  new log is read from its start, no reading ends inside a line, and no line raises behind others.
* `exact_iff_safe` — a run is exact throughout if and only if its events are safe.

The log is ASCII, so that a position counts characters.  Failures to open or read the file are left
out.
-/

namespace CorexManager.ApiArmor.LogTailer

open Data (Text)
open Data.Tailing
open Transition (run Along)

/-! ### The code -/

variable (U : Python.UnicodeTables)

/-- A line end, as `open` reads them. -/
def lineEnd (c : Char) : Bool := c == '\n' || c == '\r'

/-- The lines that `for line in f` hands over: stripped, the empty ones skipped. -/
def linesOf (t : Text) : List Text := ((t.splitOnP lineEnd).map U.strip).filter (· ≠ [])

/-- What `ApiArmorProfiler` and `ApiArmorSchemaLearner` keep: `_offset`, and the lines that were
handed over so far. -/
structure Tailer where
  offset : Nat := 0
  ingested : List Text := []

/-- A file that is shorter than the offset was rotated. -/
def Tailer.rewound (s : Tailer) (content : Text) : Nat :=
  if content.length < s.offset then 0 else s.offset

/-- The file is there and has another size than the offset. -/
def Tailer.reads (s : Tailer) : Option Text → Bool
  | none => false
  | some content => content.length != s.rewound content

/-- `_process_new_lines`, and whether it returns without an exception.  `during` is what the writer
appends between `os.path.getsize` and the end of the loop; `raises` are the lines at which `json.loads`
or the ingestion raises something that the loop does not catch, so that the offset stays. -/
def processNewLines (raises : Text → Bool) (log : Option Text) (during : Text) (s : Tailer) :
    Tailer × Bool :=
  match log with
  | none => (s, true)
  | some content =>
      let offset := s.rewound content
      if content.length = offset then ({ s with offset := offset }, true)
      else
        let lines := linesOf U ((content ++ during).drop offset)
        if lines.any raises then
          (⟨offset, s.ingested ++ lines.takeWhile (!raises ·)⟩, false)
        else (⟨(content ++ during).length, s.ingested ++ lines⟩, true)

/-! ### The log and its reader -/

/-- The log, its reader, the logs that were at the path before, and the length that the log had at
the end of the last sample that went through (`0` for a log that has not been sampled). -/
structure World where
  log : Option Text
  tailer : Tailer := {}
  earlier : List Text := []
  seen : Nat := 0

/-- What happens to them. -/
inductive Event
  | append (t : Text)
  | replace (log : Option Text)
  | sample (during : Text)

namespace World

variable (raises : Text → Bool) (w : World)

/-- The text in the log; a log that is not there has none. -/
def content : Text := w.log.getD []

/-- The log when a sample has ended. -/
def sampled (during : Text) : Option Text :=
  if w.tailer.reads w.log then w.log.map (· ++ during) else w.log

/-- The world after an event. -/
def next : Event → World
  | .append t => { w with log := some (w.content ++ t) }
  | .replace log => { w with log := log, earlier := w.earlier ++ [w.content], seen := 0 }
  | .sample during =>
      let result := processNewLines U raises w.log during w.tailer
      { w with
        log := w.sampled during
        tailer := result.1
        seen := if result.2 then ((w.sampled during).getD []).length else w.seen }

/-- Every line of the logs was handed over once, in order, as far as there was a log to sample. -/
def Exact : Prop :=
  w.tailer.ingested = w.earlier.flatMap (linesOf U) ++ linesOf U (w.content.take w.seen)

/-- Where a sample starts to read. -/
def start : Nat := w.tailer.rewound w.content

/-- The lines that a sample reads. -/
def fresh (during : Text) : List Text :=
  if w.tailer.reads w.log then linesOf U ((w.content ++ during).drop w.start) else []

/-- What an event has to spare.  A log is replaced only when all of it was read but for blanks.  A
sample that raises does so at its first line.  A new log is read from its start but for blanks (the
offset of the log before may be inside it).  A sample that goes on where one has ended does not go on
inside a line. -/
def Safe : Event → Prop
  | .append _ => True
  | .replace _ => Blank U.space (w.content.drop w.seen)
  | .sample during =>
      if (w.fresh U during).any raises then (w.fresh U during).takeWhile (!raises ·) = []
      else if w.seen = 0 then Blank U.space (w.content.take w.start)
      else w.tailer.reads w.log = true →
        Blank U.space (lastLine lineEnd (w.content.take w.seen)) ∨
          Blank U.space (firstLine lineEnd (w.content.drop w.seen ++ during))

/-- A log that was sampled was read to the offset. -/
structure Kept : Prop where
  seen_le : w.seen ≤ w.content.length
  seen_eq : w.seen = 0 ∨ w.seen = w.tailer.offset

end World

/-! ### The lines of a text -/

section Lines

variable {U}

theorem blank_of_lineEnd (c : Char) (h : lineEnd c = true) : U.space c = true := by
  simp only [lineEnd, Bool.or_eq_true, beq_iff_eq] at h
  rcases h with rfl | rfl <;> rfl

theorem linesOf_eq_records (t : Text) : linesOf U t = records lineEnd U.space t := by
  unfold linesOf records
  induction t.splitOnP lineEnd with
  | nil => rfl
  | cons l ls ih =>
      have hline : record U.space l = if U.strip l = [] then [] else [U.strip l] := rfl
      rw [List.map_cons, List.flatMap_cons, ← ih, hline]
      by_cases h : U.strip l = []
      · rw [if_pos h, List.filter_cons_of_neg (by simp [h]), List.nil_append]
      · rw [if_neg h, List.filter_cons_of_pos (by simp [h]), List.singleton_append]

theorem linesOf_append_eq_left {a b : Text} :
    linesOf U (a ++ b) = linesOf U a ↔ Blank U.space b := by
  rw [linesOf_eq_records, linesOf_eq_records, records_append_eq_left blank_of_lineEnd]

theorem linesOf_append_eq_right {a b : Text} :
    linesOf U (a ++ b) = linesOf U b ↔ Blank U.space a := by
  rw [linesOf_eq_records, linesOf_eq_records, records_append_eq_right blank_of_lineEnd]

theorem linesOf_append_iff {a b : Text} :
    linesOf U (a ++ b) = linesOf U a ++ linesOf U b ↔
      Blank U.space (lastLine lineEnd a) ∨ Blank U.space (firstLine lineEnd b) := by
  simp only [linesOf_eq_records, records_append_iff]

@[simp] theorem linesOf_nil : linesOf U [] = [] := rfl

end Lines

namespace World

variable {U} {raises : Text → Bool} {w : World} {during : Text}

/-! ### What a sample does -/

/-- The text of a log at the end of a sample. -/
theorem content_sampled : (w.sampled during).getD [] =
    if w.tailer.reads w.log then w.content ++ during else w.content := by
  unfold sampled content
  split
  · cases hlog : w.log with
    | none => simp [hlog, Tailer.reads] at *
    | some content => rfl
  · rfl

/-- A sample hands over what it reads, up to a line that raises. -/
theorem ingested_sample : (w.next U raises (.sample during)).tailer.ingested =
    w.tailer.ingested ++ if (w.fresh U during).any raises then
      (w.fresh U during).takeWhile (!raises ·) else w.fresh U during := by
  cases hlog : w.log with
  | none => simp [next, processNewLines, fresh, Tailer.reads, hlog]
  | some content =>
      by_cases hsize : content.length = w.tailer.rewound content
      · simp [next, processNewLines, fresh, Tailer.reads, hlog, ← hsize]
      · simp only [next, processNewLines, fresh, Tailer.reads, hlog, start, World.content,
          Option.getD_some, bne_iff_ne, ne_eq, hsize, not_false_eq_true, if_true, if_false]
        split <;> rfl

theorem seen_sample : (w.next U raises (.sample during)).seen =
    if (w.fresh U during).any raises then w.seen else ((w.sampled during).getD []).length := by
  cases hlog : w.log with
  | none => simp [next, processNewLines, fresh, Tailer.reads, hlog]
  | some content =>
      by_cases hsize : content.length = w.tailer.rewound content
      · simp [next, processNewLines, fresh, Tailer.reads, hlog, ← hsize]
      · simp only [next, processNewLines, fresh, Tailer.reads, hlog, start, World.content,
          Option.getD_some, bne_iff_ne, ne_eq, hsize, not_false_eq_true, if_true, if_false]
        split <;> rfl

theorem offset_sample {content : Text} (hlog : w.log = some content) :
    (w.next U raises (.sample during)).tailer.offset =
      if (w.fresh U during).any raises then w.start else ((w.sampled during).getD []).length := by
  by_cases hsize : content.length = w.tailer.rewound content
  · simp [next, processNewLines, fresh, sampled, Tailer.reads, hlog, ← hsize]
  · simp only [next, processNewLines, fresh, sampled, Tailer.reads, hlog, start, World.content,
      Option.getD_some, Option.map_some, bne_iff_ne, ne_eq, hsize, not_false_eq_true, if_true,
      if_false]
    split <;> rfl

/-- A sample starts inside the log. -/
theorem start_le : w.start ≤ w.content.length := by
  unfold start Tailer.rewound
  split <;> omega

/-- Where a log was read already, a sample goes on there. -/
theorem Kept.start_eq (h : w.Kept) (hseen : w.seen ≠ 0) : w.start = w.seen := by
  have hle := h.seen_le
  have heq := h.seen_eq.resolve_left hseen
  unfold start Tailer.rewound
  split <;> omega

/-- The log only grows while a sample reads it. -/
theorem length_le_sampled : w.content.length ≤ ((w.sampled during).getD []).length := by
  rw [content_sampled]
  split
  · rw [List.length_append]
    omega
  · exact le_rfl

theorem take_sampled {n : Nat} (h : n ≤ w.content.length) :
    ((w.sampled during).getD []).take n = w.content.take n := by
  rw [content_sampled]
  split
  · exact List.take_append_of_le_length h
  · rfl

/-! ### Every line once -/

theorem kept_next (h : w.Kept) (e : Event) : (w.next U raises e).Kept := by
  cases e with
  | append t =>
      refine ⟨?_, h.seen_eq⟩
      have hle := h.seen_le
      change w.seen ≤ (w.content ++ t).length
      rw [List.length_append]
      omega
  | replace log => exact ⟨Nat.zero_le _, .inl rfl⟩
  | sample during =>
      have hlog : (w.next U raises (.sample during)).log = w.sampled during := rfl
      have hle := h.seen_le
      have hgrow : w.content.length ≤ ((w.sampled during).getD []).length := w.length_le_sampled
      constructor
      · rw [seen_sample, content, hlog]
        split
        · omega
        · exact le_rfl
      · rw [seen_sample]
        cases hcontent : w.log with
        | none =>
            -- nothing is read of a log that is not there
            have hzero : ((w.sampled during).getD []).length = 0 := by
              simp [content_sampled, Tailer.reads, hcontent, content]
            have hnone : w.seen = 0 := by omega
            left
            split <;> assumption
        | some content =>
            rw [offset_sample hcontent]
            split
            · by_cases hseen : w.seen = 0
              · exact .inl hseen
              · exact .inr (h.start_eq hseen).symm
            · exact .inr rfl

/-- The lines that a sample reads are those behind the ones read exactly if it may read there. -/
theorem linesOf_sampled_iff (h : w.Kept) :
    linesOf U (w.content.take w.seen) ++ w.fresh U during =
        linesOf U ((w.sampled during).getD []) ↔
      if w.seen = 0 then Blank U.space (w.content.take w.start)
      else w.tailer.reads w.log = true →
        Blank U.space (lastLine lineEnd (w.content.take w.seen)) ∨
          Blank U.space (firstLine lineEnd (w.content.drop w.seen ++ during)) := by
  have hstart := w.start_le
  have hsplit : ∀ n ≤ w.content.length,
      w.content ++ during = w.content.take n ++ (w.content.drop n ++ during) := fun n _ => by
    rw [← List.append_assoc, List.take_append_drop]
  have hdrop : ∀ n ≤ w.content.length,
      (w.content ++ during).drop n = w.content.drop n ++ during := fun n hn =>
    List.drop_append_of_le_length hn
  rw [content_sampled, fresh]
  by_cases hreads : w.tailer.reads w.log = true
  · rw [if_pos hreads, if_pos hreads]
    split
    · next hseen =>
        rw [hseen, List.take_zero, linesOf_nil, List.nil_append, hdrop _ hstart, hsplit _ hstart,
          eq_comm, linesOf_append_eq_right]
    · next hseen =>
        rw [h.start_eq hseen, hdrop _ h.seen_le, hsplit _ h.seen_le, eq_comm, linesOf_append_iff]
        exact ⟨fun hcut _ => hcut, fun hcut => hcut hreads⟩
  · rw [if_neg hreads, if_neg hreads, List.append_nil]
    -- nothing is read: the sample starts at the end of the log, if there is one
    have hend : w.content.take w.start = w.content := by
      refine List.take_of_length_le ?_
      cases hlog : w.log with
      | none => simp [content, hlog]
      | some content =>
          have hsize : content.length = w.tailer.rewound content := by
            simpa [Tailer.reads, hlog] using hreads
          simp [start, World.content, hlog, ← hsize]
    split
    · next hseen =>
        rw [hseen, List.take_zero, hend, linesOf_nil]
        exact eq_comm.trans (linesOf_append_eq_left (a := []))
    · next hseen =>
        rw [← h.start_eq hseen, hend]
        exact iff_of_true rfl fun hcontra => absurd hcontra hreads

/-- An event is safe exactly if the world is exact after it. -/
theorem safe_iff_exact (h : w.Kept) (hexact : w.Exact U) (e : Event) :
    w.Safe U raises e ↔ (w.next U raises e).Exact U := by
  unfold Exact at hexact
  cases e with
  | append t =>
      have htake : (w.content ++ t).take w.seen = w.content.take w.seen :=
        List.take_append_of_le_length h.seen_le
      refine iff_of_true trivial ?_
      change w.tailer.ingested =
        w.earlier.flatMap (linesOf U) ++ linesOf U ((w.content ++ t).take w.seen)
      rw [htake, hexact]
  | replace log =>
      have hsplit := linesOf_append_eq_left (U := U) (a := w.content.take w.seen)
        (b := w.content.drop w.seen)
      rw [List.take_append_drop] at hsplit
      change Blank U.space (w.content.drop w.seen) ↔ w.tailer.ingested =
        (w.earlier ++ [w.content]).flatMap (linesOf U) ++ linesOf U ((log.getD []).take 0)
      rw [hexact, List.flatMap_append, List.flatMap_singleton, List.take_zero, linesOf_nil,
        List.append_nil, List.append_cancel_left_eq, ← hsplit, eq_comm]
  | sample during =>
      have hlog : (w.next U raises (.sample during)).content = (w.sampled during).getD [] := rfl
      have hearlier : (w.next U raises (.sample during)).earlier = w.earlier := rfl
      unfold Exact Safe
      rw [ingested_sample, hlog, hearlier, seen_sample, hexact, List.append_assoc,
        List.append_cancel_left_eq]
      by_cases hraises : (w.fresh U during).any raises = true
      · simp only [hraises, if_true]
        rw [take_sampled h.seen_le, List.append_right_eq_self]
      · simp only [hraises, Bool.false_eq_true, if_false]
        rw [List.take_length, linesOf_sampled_iff h]

/-- The worlds in which nothing was sampled yet. -/
def initial (log : Option Text) : World where log := log

theorem kept_initial (log : Option Text) : (initial log).Kept := ⟨Nat.zero_le _, .inl rfl⟩

theorem exact_initial (log : Option Text) : (initial log).Exact U := rfl

end World

end CorexManager.ApiArmor.LogTailer
