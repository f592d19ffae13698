import CorexManager.RespTransform.Filter
import CorexManager.RespTransform.Payload

/-!
# Reloads between headers and bodies

The streams of a backend share the rules of a file, which is read again by any of their callbacks.
What is remembered from the headers of a message are positions in the list that was served then;
the list that is served when the body is complete may be another one.

* `World.next` — edits of the file, and callbacks of any streams.
* `Applied.Exact` — the rules that are applied to a body are those that matched its headers.
* `Stable` — every remembered position holds the rule that was there.
* `exact_iff` — the first holds throughout a run exactly when the second holds along it.
* `shifted` — a rule in front of the others shifts them all.
-/

namespace CorexManager.RespTransform

open Crypto (Bytes)
open Data (Text)
open Transition

/-! ### Positions -/

section Positions

variable {α : Type} {p : α → Bool} {l now : List α}

/-- Other values at positions that are all taken are the same in all only if they are in each. -/
theorem filterMap_eq_iff {β : Type} {f g : α → Option β} (h : ∀ a ∈ l, (g a).isSome) :
    l.filterMap f = l.filterMap g ↔ ∀ a ∈ l, f a = g a := by
  induction l with
  | nil => simp
  | cons a l ih =>
      obtain ⟨ha, hl⟩ := List.forall_mem_cons.mp h
      obtain ⟨b, hb⟩ := Option.isSome_iff_exists.mp ha
      rw [List.forall_mem_cons, ← ih hl, List.filterMap_cons_some hb, hb]
      cases hf : f a with
      | none =>
          rw [List.filterMap_cons_none hf]
          refine iff_of_false (fun heq => ?_) (fun hboth => nomatch hboth.1)
          -- the list on the right has one value for each
          have hall : (l.filterMap g).length = l.length := List.filterMap_length_eq_length.mpr hl
          have hlength := congrArg List.length heq
          have hle := List.length_filterMap_le f l
          rw [List.length_cons] at hlength
          omega
      | some c =>
          rw [List.filterMap_cons_some hf, List.cons.injEq, Option.some.injEq]

/-- **Positions are good for a list** exactly when each of them holds what it held. -/
theorem atPositions_eq_filter_iff :
    atPositions now (positions p l) = l.filter p ↔ ∀ i ∈ positions p l, now[i]? = l[i]? := by
  rw [← atPositions_positions]
  refine filterMap_eq_iff fun i hi => ?_
  obtain ⟨a, ha, -⟩ := mem_positions.mp hi
  rw [ha]
  rfl

end Positions

/-! ### Streams -/

/-- What the header callback of a side has seen: the rules that were served, and what it matched
them with. -/
structure Seen where
  served : List CompiledRule := []
  contentType : Text := []
  path : Text := []

/-- A rule matches the headers of a side. -/
def Seen.matching (s : Seen) : Side → CompiledRule → Bool
  | .request => matchesRequest
  | .response => matchesResponse s.contentType s.path

/-- A filter instance, with what its header callbacks have seen. -/
structure Stream where
  filter : Filter := {}
  seen : Side → Seen := fun _ => {}

namespace Stream

variable (s : Stream)

def active : Side → Bool
  | .request => s.filter.activeRequest
  | .response => s.filter.activeResponse

/-- The positions that a side remembers. -/
def remembered : Side → List Nat
  | .request => s.filter.requestRules
  | .response => s.filter.responseRules

/-- The side whose body a payload callback transforms: the response if it is active. -/
def converting (eom : Bool) : Option Side :=
  if eom = true ∧ s.filter.converted = false then
    if s.filter.activeResponse then some .response
    else if s.filter.activeRequest then some .request
    else none
  else none

end Stream

/-- The rules that a body was transformed by, and what the header callback had seen. -/
structure Applied where
  side : Side
  seen : Seen
  rules : List CompiledRule

/-- **The rules of the headers**: exactly those that matched, and none that did not. -/
structure Applied.Exact (a : Applied) : Prop where
  all : a.rules = a.seen.served.filter (a.seen.matching a.side)
  only : ∀ r ∈ a.rules, a.seen.matching a.side r = true

/-- The file, the rules that are served, and the streams. -/
structure World where
  disk : Option RuleFile
  holder : ConfigHolder
  stream : Nat → Stream := fun _ => {}
  log : List Applied := []

inductive Action where
  /-- The file is written, or it is gone. -/
  | edit (disk : Option RuleFile)
  | requestHeaders (i : Nat) (contentType : Option Text)
  | responseHeaders (i : Nat) (head : ResponseHead)
  | payload (i : Nat) (env : Env) (chunk : Bytes) (eom : Bool)
  /-- All of the output is sent. -/
  | sent (i : Nat)

section Steps

variable (newRegex : Text → Option Regex) (codec : Coding → Codec)

namespace World

variable (w : World)

/-- `get_rules`: the rules that are served from now on. -/
def getRules : ConfigHolder := w.holder.maybeReload newRegex w.disk

def setStream (i : Nat) (s : Stream) : World := { w with stream := Function.update w.stream i s }

/-- The headers of a request. -/
def requestHeaders (i : Nat) (contentType : Option Text) : World :=
  let holder := w.getRules newRegex
  let s := w.stream i
  { w.setStream i {
      filter := s.filter.processRequestHeaders holder.rules contentType
      seen := Function.update s.seen .request
        ⟨holder.rules, Rust.toAsciiLowercase (contentType.getD []), []⟩ } with
    holder := holder }

/-- The headers of a response. -/
def responseHeaders (i : Nat) (head : ResponseHead) : World :=
  let holder := w.getRules newRegex
  let s := w.stream i
  { w.setStream i {
      filter := s.filter.processResponseHeaders holder.rules head
      seen := Function.update s.seen .response
        ⟨holder.rules, Rust.toAsciiLowercase (head.contentType.getD []), head.path⟩ } with
    holder := holder }

/-- The body of a side is complete: it is transformed by the rules that are served now. -/
def convert (i : Nat) (env : Env) (f : Filter) (d : Side) : World :=
  let holder := w.getRules newRegex
  let s := w.stream i
  let out := match d with
    | .response => f.transformResponseBody holder.rules codec env
    | .request => f.transformRequestBody holder.rules env
  { w.setStream i { s with filter := { f with converted := true, out := out, bodyBuf := [] } } with
    holder := holder
    log := ⟨d, s.seen d, atPositions holder.rules (s.remembered d)⟩ :: w.log }

/-- The payload callback of a stream. -/
def payload (i : Nat) (env : Env) (chunk : Bytes) (eom : Bool) : World :=
  let s := w.stream i
  if s.filter.activeResponse = false ∧ s.filter.activeRequest = false then w
  else
    let f := { s.filter with bodyBuf := s.filter.bodyBuf ++ chunk }
    match s.converting eom with
    | some d => w.convert newRegex codec i env f d
    | none => w.setStream i { s with filter := f }

/-- No side of a stream is active any more. -/
def sent (i : Nat) : World :=
  let s := w.stream i
  w.setStream i { s with
    filter := { s.filter with activeResponse := false, activeRequest := false } }

end World

/-- Edits, and callbacks of the streams. -/
def World.next (w : World) : Action → World
  | .edit disk => { w with disk := disk }
  | .requestHeaders i contentType => w.requestHeaders newRegex i contentType
  | .responseHeaders i head => w.responseHeaders newRegex i head
  | .payload i env chunk eom => w.payload newRegex codec i env chunk eom
  | .sent i => w.sent i

/-- All of them are possible at any time. -/
def World.step (w : World) (a : Action) : Option World := some (w.next newRegex codec a)

/-- The filters are loaded with a file. -/
def loaded (disk : Option RuleFile) : World := ⟨disk, ConfigHolder.load newRegex disk, fun _ => {}, []⟩

/-- **Nothing is shifted**: when a body is complete, the rules that are served have at each position
that was remembered the rule that was there. -/
def Stable (w : World) : Action → Prop
  | .payload i _ _ eom => ∀ d, (w.stream i).converting eom = some d →
      ∀ k ∈ (w.stream i).remembered d,
        (w.getRules newRegex).rules[k]? = ((w.stream i).seen d).served[k]?
  | _ => True

/-! ### What is remembered -/

/-- An active side remembers the positions of the rules that matched its headers. -/
def World.Remembers (w : World) : Prop := ∀ i d, (w.stream i).active d = true →
  (w.stream i).remembered d = positions (((w.stream i).seen d).matching d) ((w.stream i).seen d).served

/-- Every body was transformed by the rules of its headers. -/
def World.Exact (w : World) : Prop := ∀ a ∈ w.log, a.Exact

variable {newRegex codec} {w w' : World}

/-- One stream has changed. -/
theorem World.Remembers.update (h : w.Remembers) {i : Nat} {s : Stream}
    (hs : ∀ d, s.active d = true →
      s.remembered d = positions ((s.seen d).matching d) (s.seen d).served)
    (hstream : w'.stream = Function.update w.stream i s) : w'.Remembers := by
  intro j d hactive
  rw [hstream] at hactive ⊢
  by_cases hj : j = i
  · subst hj
    rw [Function.update_self] at hactive ⊢
    exact hs d hactive
  · rw [Function.update_of_ne hj] at hactive ⊢
    exact h j d hactive

theorem World.Remembers.requestHeaders (h : w.Remembers) (i : Nat) (contentType : Option Text) :
    (w.requestHeaders newRegex i contentType).Remembers := by
  refine h.update (fun d hactive => ?_) rfl
  cases d with
  | request => exact Filter.requestRules_of_active hactive
  | response =>
      have hsame := Filter.processRequestHeaders_response (w.getRules newRegex).rules
        (w.stream i).filter contentType
      exact hsame.2.trans (h i .response (hsame.1.symm.trans hactive))

theorem World.Remembers.responseHeaders (h : w.Remembers) (i : Nat) (head : ResponseHead) :
    (w.responseHeaders newRegex i head).Remembers := by
  refine h.update (fun d hactive => ?_) rfl
  cases d with
  | response => exact (Filter.ready_of_active hactive).matching
  | request =>
      have hsame := Filter.processResponseHeaders_request (w.getRules newRegex).rules
        (w.stream i).filter head
      exact hsame.2.trans (h i .request (hsame.1.symm.trans hactive))

theorem Stream.active_of_converting {s : Stream} {eom : Bool} {d : Side}
    (h : s.converting eom = some d) : s.active d = true := by
  unfold Stream.converting at h
  split_ifs at h with hend hresponse hrequest
  · obtain rfl := Option.some.inj h
    exact hresponse
  · obtain rfl := Option.some.inj h
    exact hrequest

/-- A complete body is transformed. -/
theorem World.payload_converting {i : Nat} {eom : Bool} {d : Side}
    (h : (w.stream i).converting eom = some d) (env : Env) (chunk : Bytes) :
    w.payload newRegex codec i env chunk eom =
      w.convert newRegex codec i env
        { (w.stream i).filter with bodyBuf := (w.stream i).filter.bodyBuf ++ chunk } d := by
  have hactive := Stream.active_of_converting h
  unfold World.payload
  dsimp only
  rw [if_neg, h]
  rintro ⟨hresponse, hrequest⟩
  cases d with
  | request => exact absurd hactive (ne_true_of_eq_false hrequest)
  | response => exact absurd hactive (ne_true_of_eq_false hresponse)

theorem World.log_payload {i : Nat} {eom : Bool} (h : (w.stream i).converting eom = none)
    (env : Env) (chunk : Bytes) : (w.payload newRegex codec i env chunk eom).log = w.log := by
  unfold World.payload
  dsimp only
  rw [h]
  split <;> rfl

theorem World.Remembers.payload (h : w.Remembers) (i : Nat) (env : Env) (chunk : Bytes)
    (eom : Bool) : (w.payload newRegex codec i env chunk eom).Remembers := by
  unfold World.payload
  dsimp only
  split
  · exact h
  · -- the callback changes neither what is active nor what is remembered
    split
    · refine h.update (fun d hactive => ?_) rfl
      cases d with
      | request => exact h i .request hactive
      | response => exact h i .response hactive
    · refine h.update (fun d hactive => ?_) rfl
      cases d with
      | request => exact h i .request hactive
      | response => exact h i .response hactive

theorem World.Remembers.sent (h : w.Remembers) (i : Nat) : (w.sent i).Remembers := by
  refine h.update (fun d hactive => ?_) rfl
  cases d with
  | request => cases hactive
  | response => cases hactive

/-- Every step keeps what is remembered right. -/
theorem World.Remembers.step {a : Action} (h : w.Remembers)
    (hstep : w.step newRegex codec a = some w') : w'.Remembers := by
  obtain rfl : w.next newRegex codec a = w' := Option.some.inj hstep
  cases a with
  | edit disk => exact h
  | requestHeaders i contentType => exact h.requestHeaders i contentType
  | responseHeaders i head => exact h.responseHeaders i head
  | payload i env chunk eom => exact h.payload i env chunk eom
  | sent i => exact h.sent i

theorem World.remembers_loaded (disk : Option RuleFile) : (loaded newRegex disk).Remembers := by
  intro i d hactive
  cases d with
  | request => cases hactive
  | response => cases hactive

/-! ### What is applied -/

theorem Applied.exact_iff_eq (a : Applied) :
    a.Exact ↔ a.rules = a.seen.served.filter (a.seen.matching a.side) := by
  refine ⟨Exact.all, fun h => ⟨h, fun r hr => ?_⟩⟩
  rw [h] at hr
  exact (List.mem_filter.mp hr).2

/-- A complete body is transformed by what is at the positions that its side remembers. -/
theorem World.exact_payload {i : Nat} {eom : Bool} {d : Side} {env : Env} {chunk : Bytes}
    (h : (w.stream i).converting eom = some d) :
    (w.payload newRegex codec i env chunk eom).Exact ↔
      atPositions (w.getRules newRegex).rules ((w.stream i).remembered d) =
        ((w.stream i).seen d).served.filter (((w.stream i).seen d).matching d) ∧ w.Exact := by
  rw [payload_converting h]
  exact List.forall_mem_cons.trans (and_congr_left' (Applied.exact_iff_eq _))

/-- **One step**: what is applied stays exact exactly if nothing is shifted. -/
theorem World.stable_iff {a : Action} (hremembers : w.Remembers) (h : w.Exact)
    (hstep : w.step newRegex codec a = some w') : Stable newRegex w a ↔ w'.Exact := by
  obtain rfl : w.next newRegex codec a = w' := Option.some.inj hstep
  cases a with
  | edit disk => exact iff_of_true trivial h
  | requestHeaders i contentType => exact iff_of_true trivial h
  | responseHeaders i head => exact iff_of_true trivial h
  | sent i => exact iff_of_true trivial h
  | payload i env chunk eom =>
      show Stable newRegex w (.payload i env chunk eom) ↔
        (w.payload newRegex codec i env chunk eom).Exact
      cases hconverting : (w.stream i).converting eom with
      | none =>
          refine iff_of_true (fun d hd => ?_) fun a ha => h a ?_
          · rw [hconverting] at hd
            cases hd
          · rwa [log_payload hconverting] at ha
      | some d =>
          have hpositions := hremembers i d (Stream.active_of_converting hconverting)
          rw [exact_payload hconverting, and_iff_left h, hpositions, atPositions_eq_filter_iff,
            ← hpositions]
          constructor
          · exact fun hstable => hstable d hconverting
          · intro hstable d' hd'
            obtain rfl := Option.some.inj (hconverting.symm.trans hd')
            exact hstable

/-- **Reloads**: throughout a run every body is transformed by exactly the rules that matched its
headers, exactly if along it each position that is remembered still holds its rule when the body is
complete. -/
theorem World.exact_iff (disk : Option RuleFile) (as : List Action) :
    Along (World.step newRegex codec) (Stable newRegex) (loaded newRegex disk) as ↔
      ∀ bs w, bs <+: as → run (World.step newRegex codec) (loaded newRegex disk) bs = some w →
        ∀ a ∈ w.log, a.Exact := by
  obtain ⟨w, hrun⟩ := @run_total _ _ (World.step newRegex codec) (fun _ _ => ⟨_, rfl⟩)
    (loaded newRegex disk) as
  exact along_iff_throughout (J := World.Remembers) (I := World.Exact)
    (fun _ _ _ h hstep => h.step hstep)
    (fun _ _ _ hremembers h hstep => World.stable_iff hremembers h hstep)
    (World.remembers_loaded disk) (fun _ ha => absurd ha List.not_mem_nil) hrun

end Steps

/-! ### A shift -/

def htmlRule : TransformRule :=
  { enabled := true, priority := 1, transformType := "replace".toList,
    contentTypes := ["text/html".toList] }

def jsonRule : TransformRule :=
  { enabled := true, priority := 2, transformType := "mask".toList,
    contentTypes := ["application/json".toList] }

def cssRule : TransformRule :=
  { enabled := true, priority := 0, transformType := "replace".toList,
    contentTypes := ["text/css".toList] }

def jsonHead : ResponseHead :=
  ⟨200, [], "/".toList, some "application/json".toList, none, none⟩

/-- The headers of a JSON response, a rule that is put in front of the others, and the body. -/
def shiftingRun : List Action :=
  [.responseHeaders 0 jsonHead, .edit (some ⟨1, some [cssRule, htmlRule, jsonRule]⟩),
    .payload 0 testEnv [] true]

/-- **A rule in front of the others shifts them**: a JSON response is transformed by the rule for
HTML. -/
theorem shifted : ∃ w a, run (World.step (fun _ => none) fun _ => ⟨fun body => [some body], some⟩)
    (loaded (fun _ => none) (some ⟨0, some [htmlRule, jsonRule]⟩)) shiftingRun = some w ∧
      a ∈ w.log ∧ a.rules.map (fun r => r.rule.contentTypes) = [["text/html".toList]] ∧
      ¬ a.Exact := by
  refine ⟨_, _, rfl, List.mem_singleton_self _, by decide +kernel, fun h => ?_⟩
  have htypes := congrArg (List.map fun r => r.rule.contentTypes) h.all
  revert htypes
  decide +kernel

end CorexManager.RespTransform
