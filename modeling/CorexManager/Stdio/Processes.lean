import CorexManager.Logic.Transition
import Mathlib.Data.List.Infix

/-!
# Processes of the stdio servers

The calls of the process managers, step by step: `get_process` looks a process up, asks whether
it runs, starts another and puts it in the map, each in a step of its own; a call then takes the
lock of its process and writes its messages.  The gateway has a manager for requests and one for
the catalogs.

* `step` — the steps of all calls, and processes that exit.
* `Proper` — every request but `initialize` comes after the handshake of its process.
* `Alone` — at most one process of a server runs.
* `managed_iff` — both hold throughout exactly those runs in which requests are written to
  initialised processes, and a process is started only while no other of its server runs.
* `unmanaged` — a tool call after a crash, and two calls at once.
-/

namespace CorexManager.Stdio.Processes

open Transition

/-! ### Messages -/

inductive Message where
  | initializeRequest
  /-- `notifications/initialized`, at the end of the handshake. -/
  | initialized
  | request
  /-- A notification of a client. -/
  | notification
  deriving DecidableEq

/-- What is written to a process, and what comes back for a request. -/
inductive Event where
  | wrote (m : Message)
  | answered (ok : Bool)
  deriving DecidableEq

/-- The handshake: `initialize`, an answer without error, and the notification. -/
def handshake : List Event := [.wrote .initializeRequest, .answered true, .wrote .initialized]

/-- A process completed its handshake. -/
def Shaken (log : List Event) : Prop := handshake <:+: log

/-- **Requests come after the handshake.** -/
def Proper (log : List Event) : Prop :=
  ∀ before after, log = before ++ .wrote .request :: after → Shaken before

/-! ### Calls -/

/-- The operations of a manager. -/
inductive Kind where
  /-- `send_request`. -/
  | request
  /-- `send_notification`. -/
  | notification
  /-- `initialize_upstream`. -/
  | initializeUpstream
  /-- `fetch_catalog`. -/
  | catalog

/-- What a call still does with its process. -/
inductive Plan where
  | initializing
  | initialized
  | notification
  | requests (left : Nat)
  deriving DecidableEq

/-- What an operation does with a process. -/
def Kind.plan (initialized : Bool) : Kind → Plan
  | request => .requests 1
  | notification => .notification
  | initializeUpstream => if initialized then .requests 0 else .initializing
  | catalog => .requests 3

/-- How far a call is. -/
inductive Phase where
  | absent
  /-- `get_process` found a process in the map, and asks whether it runs. -/
  | checking (manager : Nat) (server : Int) (kind : Kind) (p : Nat)
  /-- None was found that runs. -/
  | missing (manager : Nat) (server : Int) (kind : Kind)
  /-- Another was started, and is not in the map. -/
  | started (manager : Nat) (server : Int) (kind : Kind) (p : Nat)
  /-- `get_process` returned. -/
  | ready (kind : Kind) (p : Nat)
  /-- The call has the lock of its process. -/
  | holding (p : Nat) (plan : Plan)
  /-- It wrote a request, and waits for the response. -/
  | awaiting (p : Nat) (plan : Plan)
  | done

/-- The process a call holds. -/
def Phase.process : Phase → Option Nat
  | checking _ _ _ p => some p
  | started _ _ _ p => some p
  | ready _ p => some p
  | holding p _ => some p
  | awaiting p _ => some p
  | _ => none

/-- The process whose lock a call has. -/
def Phase.locked : Phase → Option Nat
  | holding p _ => some p
  | awaiting p _ => some p
  | _ => none

/-- A process. -/
structure Process where
  server : Int
  alive : Bool
  /-- Its standard input is open. -/
  stdin : Bool
  /-- The flag of `StdioProcess`. -/
  initialized : Bool
  /-- The call that has the lock. -/
  holder : Option Nat
  log : List Event

/-- What a call does, or a process. -/
inductive Act where
  | lookup (r : Nat) (manager : Nat) (server : Int) (kind : Kind)
  /-- `is_running`. -/
  | check (r : Nat)
  | start (r : Nat) (spawned : Bool)
  | insert (r : Nat)
  | lock (r : Nat)
  /-- The next message of the call. -/
  | write (r : Nat)
  /-- A response, or an error or the end of the time. -/
  | answer (r : Nat) (ok : Bool)
  | finish (r : Nat)
  /-- The caller goes away. -/
  | drop (r : Nat)
  | crash (p : Nat)
  /-- A process closes its standard input. -/
  | close (p : Nat)

structure State where
  procs : Nat → Process
  spawned : Nat
  map : Nat → Int → Option Nat
  phase : Nat → Phase

namespace State

variable (s : State)

def goto (r : Nat) (ph : Phase) : State := { s with phase := Function.update s.phase r ph }

def setProc (p : Nat) (proc : Process) : State :=
  { s with procs := Function.update s.procs p proc }

/-- Something is written to a process, or comes back. -/
def record (p : Nat) (e : Event) : State :=
  s.setProc p { s.procs p with log := (s.procs p).log ++ [e] }

/-- `initialized` is set. -/
def setInitialized (p : Nat) : State := s.setProc p { s.procs p with initialized := true }

/-- The lock of a process is taken, or given back. -/
def setHolder (p : Nat) (r : Option Nat) : State := s.setProc p { s.procs p with holder := r }

/-- A process of a server is spawned. -/
def spawn (server : Int) : State :=
  { s with
    procs := Function.update s.procs s.spawned ⟨server, true, true, false, none, []⟩
    spawned := s.spawned + 1 }

/-- A process enters the map of a manager. -/
def insert (manager : Nat) (server : Int) (p : Nat) : State :=
  { s with
    map := Function.update s.map manager (Function.update (s.map manager) server (some p)) }

/-- A call writes its next message. -/
def write (r p : Nat) : Plan → Option State
  | .initializing =>
      some (if (s.procs p).stdin then (s.record p (.wrote .initializeRequest)).goto r (.awaiting p .initializing)
        else (s.setHolder p none).goto r .done)
  | .initialized =>
      some (((if (s.procs p).stdin then s.record p (.wrote .initialized) else s).setInitialized p).goto
        r (.holding p (.requests 0)))
  | .notification =>
      some ((if (s.procs p).stdin then s.record p (.wrote .notification) else s).goto
        r (.holding p (.requests 0)))
  | .requests (left + 1) =>
      some (if (s.procs p).stdin then
          (s.record p (.wrote .request)).goto r (.awaiting p (.requests left))
        else s.goto r (.holding p (.requests left)))
  | .requests 0 => none

/-- A call gets the response to its request. -/
def answer (r p : Nat) (ok : Bool) : Plan → Option State
  | .initializing =>
      let t := s.record p (.answered ok)
      some (if ok then t.goto r (.holding p .initialized) else (t.setHolder p none).goto r .done)
  | .requests left => some ((s.record p (.answered ok)).goto r (.holding p (.requests left)))
  | _ => none

end State

/-- One act, when it is possible. -/
def step (s : State) : Act → Option State
  | .lookup r manager server kind =>
      match s.phase r with
      | .absent =>
          some (s.goto r (match s.map manager server with
            | some p => .checking manager server kind p
            | none => .missing manager server kind))
      | _ => none
  | .check r =>
      match s.phase r with
      | .checking manager server kind p =>
          match (s.procs p).holder with
          | none =>
              some (s.goto r (if (s.procs p).alive then .ready kind p
                else .missing manager server kind))
          | some _ => none
      | _ => none
  | .start r spawned =>
      match s.phase r with
      | .missing manager server kind =>
          some (if spawned then
              (s.spawn server).goto r (.started manager server kind s.spawned)
            else s.goto r .done)
      | _ => none
  | .insert r =>
      match s.phase r with
      | .started manager server kind p => some ((s.insert manager server p).goto r (.ready kind p))
      | _ => none
  | .lock r =>
      match s.phase r with
      | .ready kind p =>
          match (s.procs p).holder with
          | none =>
              some ((s.setHolder p (some r)).goto r
                (.holding p (kind.plan (s.procs p).initialized)))
          | some _ => none
      | _ => none
  | .write r =>
      match s.phase r with
      | .holding p plan => s.write r p plan
      | _ => none
  | .answer r ok =>
      match s.phase r with
      | .awaiting p plan => s.answer r p ok plan
      | _ => none
  | .finish r =>
      match s.phase r with
      | .holding p (.requests 0) => some ((s.setHolder p none).goto r .done)
      | _ => none
  | .drop r =>
      match (s.phase r).locked with
      | some p => some ((s.setHolder p none).goto r .done)
      | none => some (s.goto r .done)
  | .crash p => some (s.setProc p { s.procs p with alive := false, stdin := false })
  | .close p => some (s.setProc p { s.procs p with stdin := false })

/-- Before the first call. -/
def start : State :=
  ⟨fun _ => ⟨0, false, false, false, none, []⟩, 0, fun _ _ => none, fun _ => .absent⟩

/-! ### What holds -/

/-- A manager or a call has a process; one that nobody has is killed. -/
def Held (s : State) (p : Nat) : Prop :=
  (∃ manager server, s.map manager server = some p) ∨ ∃ r, (s.phase r).process = some p

/-- A process runs. -/
def Live (s : State) (p : Nat) : Prop := (s.procs p).alive = true ∧ Held s p

/-- **At most one process of a server runs.** -/
def Alone (s : State) : Prop :=
  ∀ p q, Live s p → Live s q → (s.procs p).server = (s.procs q).server → p = q

/-- Both properties. -/
def Managed (s : State) : Prop := (∀ p, Proper (s.procs p).log) ∧ Alone s

/-- **A step is guarded**: a request is written to a process that is initialised, and a process is
started when neither a manager nor a call has one of its server that runs. -/
def Guarded (s : State) : Act → Prop
  | .write r => ∀ p left, s.phase r = .holding p (.requests (left + 1)) →
      (s.procs p).stdin = true → (s.procs p).initialized = true
  | .start r true => ∀ manager server kind, s.phase r = .missing manager server kind →
      ∀ p, (s.procs p).server = server → ¬ Live s p
  | _ => True

/-! ### Logs -/

section Logs

variable {log : List Event} {e : Event}

theorem shaken_concat : Shaken (log ++ [e]) ↔ Shaken log ∨
    e = .wrote .initialized ∧ [.wrote .initializeRequest, .answered true] <:+ log := by
  have hlast : handshake = [.wrote .initializeRequest, .answered true] ++ [.wrote .initialized] := rfl
  refine List.infix_concat_iff.trans (or_comm.trans (or_congr_right ?_))
  rw [hlast]
  refine ⟨fun h => ?_, ?_⟩
  · obtain ⟨before, hbefore⟩ := h
    rw [← List.append_assoc] at hbefore
    obtain ⟨hlog, he⟩ := List.append_inj' hbefore rfl
    exact ⟨(List.singleton_inj.mp he).symm, before, hlog⟩
  · rintro ⟨rfl, before, rfl⟩
    exact ⟨before, (List.append_assoc _ _ _).symm⟩

theorem proper_nil : Proper [] := by
  intro before after h
  exact absurd h.symm (List.append_ne_nil_of_right_ne_nil _ (List.cons_ne_nil _ _))

/-- One event more is proper unless it is a request before the handshake. -/
theorem proper_concat : Proper (log ++ [e]) ↔ Proper log ∧ (e = .wrote .request → Shaken log) := by
  constructor
  · intro h
    refine ⟨fun before after hlog => h before (after ++ [e]) ?_, fun he => h log [] (he ▸ rfl)⟩
    rw [hlog, List.append_assoc, List.cons_append]
  · rintro ⟨h, he⟩ before after heq
    rcases List.eq_nil_or_concat after with rfl | ⟨after, e', rfl⟩
    · obtain ⟨rfl, hlast⟩ := List.append_inj' heq rfl
      exact he (List.singleton_inj.mp hlast)
    · rw [List.concat_eq_append, ← List.cons_append, ← List.append_assoc] at heq
      exact h before after (List.append_inj' heq rfl).1

end Logs

/-! ### The flag, the lock and the handshake -/

variable {s s' : State} {a : Act} {r p : Nat} {ph : Phase}

/-- The flag says that the handshake is complete. -/
structure Process.Inv (proc : Process) : Prop where
  shaken : Shaken proc.log → proc.initialized = true
  initialized : proc.initialized = true → proc.stdin = true → Shaken proc.log

/-- A call with the lock of a process, in the middle of its handshake. -/
def Phase.Stage (s : State) : Phase → Prop
  | holding p .initialized => [.wrote .initializeRequest, .answered true] <:+ (s.procs p).log
  | awaiting p .initializing => [.wrote .initializeRequest] <:+ (s.procs p).log
  | _ => True

structure Inv (s : State) : Prop where
  phases : ∀ r p, (s.phase r).process = some p → p < s.spawned
  entries : ∀ manager server p, s.map manager server = some p → p < s.spawned
  locked : ∀ r p, (s.phase r).locked = some p → (s.procs p).holder = some r
  procs : ∀ p, (s.procs p).Inv
  stages : ∀ r, (s.phase r).Stage s

theorem start_inv : Inv start where
  phases := nofun
  entries := nofun
  locked := nofun
  procs := fun _ => ⟨fun h => absurd (List.infix_nil.mp h) (List.cons_ne_nil _ _), nofun⟩
  stages := fun _ => trivial

theorem start_managed : Managed start := ⟨fun _ => proper_nil, fun _ _ h => nomatch h.1⟩

theorem locked_process (h : ph.locked = some p) : ph.process = some p := by
  cases ph <;> first | exact h | cases h

theorem Inv.held (h : Inv s) (hp : Held s p) : p < s.spawned := by
  rcases hp with ⟨manager, server, hmap⟩ | ⟨i, hi⟩
  · exact h.entries manager server p hmap
  · exact h.phases i p hi

/-- Who locks a process is the only one. -/
theorem Inv.only (h : Inv s) {r' : Nat} (hr : (s.phase r).locked = some p)
    (hr' : (s.phase r').locked = some p) : r' = r :=
  Option.some.inj ((h.locked r' p hr').symm.trans (h.locked r p hr))

theorem stage_locked {s : State} {ph : Phase} (h : ph.locked = none) : ph.Stage s := by
  cases ph <;> trivial

/-- Only the log of a call's own process matters to its stage. -/
theorem stage_congr (h : ∀ p, ph.locked = some p → (s'.procs p).log = (s.procs p).log)
    (hs : ph.Stage s) : ph.Stage s' := by
  cases ph with
  | holding p plan =>
      cases plan with
      | initialized =>
          show _ <:+ _
          rw [h p rfl]
          exact hs
      | _ => trivial
  | awaiting p plan =>
      cases plan with
      | initializing =>
          show _ <:+ _
          rw [h p rfl]
          exact hs
      | _ => trivial
  | _ => trivial

/-! ### What an act keeps -/

/-- A step that writes and starts nothing keeps both properties. -/
theorem Managed.quiet (h : Managed s) (hlog : ∀ q, (s'.procs q).log = (s.procs q).log)
    (hserver : ∀ q, (s'.procs q).server = (s.procs q).server) (hlive : ∀ q, Live s' q → Live s q) :
    Managed s' := by
  refine ⟨fun q => hlog q ▸ h.1 q, fun q q' hq hq' heq => ?_⟩
  rw [hserver q, hserver q'] at heq
  exact h.2 q q' (hlive q hq) (hlive q' hq') heq

/-- A process that a call moves on with, or another one has. -/
theorem held_goto {q : Nat} (h : Held (s.goto r ph) q) : Held s q ∨ ph.process = some q := by
  rcases h with ⟨manager, server, hmap⟩ | ⟨i, hi⟩
  · exact .inl (.inl ⟨manager, server, hmap⟩)
  · rcases moved_holds (P := fun ph : Phase => ph.process = some q) hi with ⟨-, hi⟩ | ⟨-, hi⟩
    · exact .inr hi
    · exact .inl (.inr ⟨i, hi⟩)

theorem held_setProc {q : Nat} {proc : Process} : Held (s.setProc p proc) q ↔ Held s q := Iff.rfl

/-- A call moves on with a process that was there. -/
theorem Inv.goto (h : Inv s) (hprocess : ∀ q, ph.process = some q → q < s.spawned)
    (hlocked : ∀ q, ph.locked = some q → (s.procs q).holder = some r) (hstage : ph.Stage s) :
    Inv (s.goto r ph) where
  phases := fun i q hi => by
    rcases moved_holds (P := fun ph : Phase => ph.process = some q) hi with ⟨-, hi⟩ | ⟨-, hi⟩
    · exact hprocess q hi
    · exact h.phases i q hi
  entries := h.entries
  locked := fun i q hi => by
    rcases moved_holds (P := fun ph : Phase => ph.locked = some q) hi with ⟨rfl, hnew⟩ | ⟨-, hold⟩
    · exact hlocked q hnew
    · exact h.locked i q hold
  procs := h.procs
  stages := fun i => by
    show (Function.update s.phase r ph i).Stage _
    by_cases hi : i = r
    · rw [hi, Function.update_self]
      exact stage_congr (fun _ _ => rfl) hstage
    · rw [Function.update_of_ne hi]
      exact stage_congr (fun _ _ => rfl) (h.stages i)

/-- A process changes while no other call has its lock, and the call moves on. -/
theorem Inv.change {proc : Process} (h : Inv s) (hothers : ∀ i, i ≠ r → (s.phase i).locked ≠ some p)
    (hproc : proc.Inv) (hprocess : ∀ q, ph.process = some q → q < s.spawned)
    (hlocked : ∀ q, ph.locked = some q → q = p ∧ proc.holder = some r)
    (hstage : ph.Stage (s.setProc p proc)) : Inv ((s.setProc p proc).goto r ph) where
  phases := fun i q hi => by
    rcases moved_holds (P := fun ph : Phase => ph.process = some q) hi with ⟨-, hi⟩ | ⟨-, hi⟩
    · exact hprocess q hi
    · exact h.phases i q hi
  entries := h.entries
  locked := fun i q hi => by
    show (Function.update s.procs p proc q).holder = some i
    rcases moved_holds (P := fun ph : Phase => ph.locked = some q) hi with ⟨rfl, hnew⟩ | ⟨hne, hold⟩
    · obtain ⟨rfl, hholder⟩ := hlocked q hnew
      rw [Function.update_self, hholder]
    · have hq : q ≠ p := fun hq => hothers i hne (hq ▸ hold)
      rw [Function.update_of_ne hq]
      exact h.locked i q hold
  procs := fun q => by
    show (Function.update s.procs p proc q).Inv
    by_cases hq : q = p
    · rw [hq, Function.update_self]
      exact hproc
    · rw [Function.update_of_ne hq]
      exact h.procs q
  stages := fun i => by
    show (Function.update s.phase r ph i).Stage _
    by_cases hi : i = r
    · rw [hi, Function.update_self]
      exact stage_congr (fun _ _ => rfl) hstage
    · rw [Function.update_of_ne hi]
      refine stage_congr (fun q hq => ?_) (h.stages i)
      have hqp : q ≠ p := fun hqp => hothers i hi (hqp ▸ hq)
      exact congrArg Process.log (Function.update_of_ne hqp _ _)

/-- A process exits, or closes its input. -/
theorem Inv.exit {proc : Process} (h : Inv s) (hlog : proc.log = (s.procs p).log)
    (hholder : proc.holder = (s.procs p).holder) (hproc : proc.Inv) : Inv (s.setProc p proc) := by
  have hsame : ∀ q, (Function.update s.procs p proc q).log = (s.procs q).log ∧
      (Function.update s.procs p proc q).holder = (s.procs q).holder := by
    intro q
    by_cases hq : q = p
    · rw [hq, Function.update_self]
      exact ⟨hlog, hholder⟩
    · rw [Function.update_of_ne hq]
      exact ⟨rfl, rfl⟩
  refine ⟨h.phases, h.entries, fun i q hi => (hsame q).2.trans (h.locked i q hi), fun q => ?_,
    fun i => stage_congr (fun q _ => (hsame q).1) (h.stages i)⟩
  show (Function.update s.procs p proc q).Inv
  by_cases hq : q = p
  · rw [hq, Function.update_self]
    exact hproc
  · rw [Function.update_of_ne hq]
    exact h.procs q

/-- A new process has no lock, no log and no call. -/
theorem Inv.spawn (h : Inv s) (server : Int) : Inv (s.spawn server) := by
  have hold : ∀ q, q < s.spawned → ((s.spawn server).procs q) = s.procs q := fun q hq =>
    Function.update_of_ne (Nat.ne_of_lt hq) _ _
  refine ⟨fun i q hi => Nat.lt_succ_of_lt (h.phases i q hi),
    fun manager server' q hq => Nat.lt_succ_of_lt (h.entries manager server' q hq),
    fun i q hi => ?_, fun q => ?_, fun i => stage_congr (fun q hq => ?_) (h.stages i)⟩
  · have hlt : q < s.spawned := h.phases i q (locked_process hi)
    rw [hold q hlt]
    exact h.locked i q hi
  · show (Function.update s.procs s.spawned _ q).Inv
    by_cases hq : q = s.spawned
    · rw [hq, Function.update_self]
      exact ⟨fun h => absurd (List.infix_nil.mp h) (List.cons_ne_nil _ _), nofun⟩
    · rw [Function.update_of_ne hq]
      exact h.procs q
  · rw [hold q (h.phases i q (locked_process hq))]

theorem live_goto {q : Nat} (hheld : ∀ q, ph.process = some q → Held s q)
    (h : Live (s.goto r ph) q) : Live s q :=
  ⟨h.1, (held_goto h.2).elim id (hheld q)⟩

theorem live_setProc {q : Nat} {proc : Process}
    (halive : proc.alive = true → (s.procs p).alive = true) (h : Live (s.setProc p proc) q) :
    Live s q := by
  refine ⟨?_, h.2⟩
  rcases moved_holds (P := fun proc : Process => proc.alive = true) h.1 with ⟨rfl, hp⟩ | ⟨-, hq⟩
  · exact halive hp
  · exact hq

theorem setProc_self (proc : Process) : (s.setProc p proc).procs p = proc := by
  show Function.update s.procs p proc p = proc
  rw [Function.update_self]

theorem setProc_other {q : Nat} (proc : Process) (hq : q ≠ p) :
    (s.setProc p proc).procs q = s.procs q := by
  show Function.update s.procs p proc q = s.procs q
  rw [Function.update_of_ne hq]

theorem setProc_log {q : Nat} {proc : Process} (h : proc.log = (s.procs p).log) :
    ((s.setProc p proc).procs q).log = (s.procs q).log := by
  by_cases hq : q = p
  · rw [hq, setProc_self, h]
  · rw [setProc_other proc hq]

theorem setProc_server {q : Nat} {proc : Process} (h : proc.server = (s.procs p).server) :
    ((s.setProc p proc).procs q).server = (s.procs q).server := by
  by_cases hq : q = p
  · rw [hq, setProc_self, h]
  · rw [setProc_other proc hq]

/-- A process whose log is not touched. -/
theorem Managed.setProc {proc : Process} (h : Managed s) (hlog : proc.log = (s.procs p).log)
    (hserver : proc.server = (s.procs p).server)
    (halive : proc.alive = true → (s.procs p).alive = true)
    (hheld : ∀ q, ph.process = some q → Held s q) : Managed ((s.setProc p proc).goto r ph) :=
  h.quiet (fun _ => setProc_log hlog) (fun _ => setProc_server hserver)
    fun _ hq => live_setProc halive (live_goto hheld hq)

/-- A call that moves on with a process that somebody has. -/
theorem Managed.move (h : Managed s) (hheld : ∀ q, ph.process = some q → Held s q) :
    Managed (s.goto r ph) :=
  h.quiet (fun _ => rfl) (fun _ => rfl) fun _ hq => live_goto hheld hq

/-- One event more is managed unless it is a request before the handshake. -/
theorem Managed.record_iff {proc : Process} {e : Event} (h : Managed s)
    (hlog : proc.log = (s.procs p).log ++ [e]) (hserver : proc.server = (s.procs p).server)
    (halive : proc.alive = true → (s.procs p).alive = true)
    (hheld : ∀ q, ph.process = some q → Held s q) :
    Managed ((s.setProc p proc).goto r ph) ↔ (e = .wrote .request → Shaken (s.procs p).log) := by
  have hself : ((s.setProc p proc).goto r ph).procs p = proc := setProc_self proc
  constructor
  · intro h'
    have hp := h'.1 p
    rw [hself, hlog] at hp
    exact (proper_concat.mp hp).2
  · intro he
    refine ⟨fun q => ?_, fun q q' hq hq' heq => ?_⟩
    · by_cases hq : q = p
      · rw [hq, hself, hlog]
        exact proper_concat.mpr ⟨h.1 p, he⟩
      · have hother : ((s.setProc p proc).goto r ph).procs q = s.procs q := setProc_other proc hq
        rw [hother]
        exact h.1 q
    · have heq' : (s.procs q).server = (s.procs q').server :=
        (setProc_server hserver).symm.trans (Eq.trans heq (setProc_server hserver))
      exact h.2 q q' (live_setProc halive (live_goto hheld hq))
        (live_setProc halive (live_goto hheld hq')) heq'

theorem Managed.record {proc : Process} {e : Event} (h : Managed s)
    (hlog : proc.log = (s.procs p).log ++ [e]) (hserver : proc.server = (s.procs p).server)
    (halive : proc.alive = true → (s.procs p).alive = true)
    (hheld : ∀ q, ph.process = some q → Held s q) (he : e ≠ .wrote .request) :
    Managed ((s.setProc p proc).goto r ph) :=
  (h.record_iff hlog hserver halive hheld).mpr fun hrequest => absurd hrequest he

/-- A process of a server is alone exactly when no other of its server runs. -/
theorem Managed.spawn_iff (h : Managed s) (hinv : Inv s) {manager : Nat} {server : Int}
    {kind : Kind} (hr : s.phase r = .missing manager server kind) :
    Managed ((s.spawn server).goto r (.started manager server kind s.spawned)) ↔
      ∀ p, (s.procs p).server = server → ¬ Live s p := by
  have hself : ((s.spawn server).goto r (.started manager server kind s.spawned)).procs s.spawned =
      ⟨server, true, true, false, none, []⟩ := by
    show Function.update s.procs s.spawned _ s.spawned = _
    rw [Function.update_self]
  have hother : ∀ q, q ≠ s.spawned →
      ((s.spawn server).goto r (.started manager server kind s.spawned)).procs q = s.procs q := by
    intro q hq
    show Function.update s.procs s.spawned _ q = _
    rw [Function.update_of_ne hq]
  have hold : ∀ q, q ≠ s.spawned →
      (Live ((s.spawn server).goto r (.started manager server kind s.spawned)) q ↔ Live s q) := by
    intro q hq
    rw [Live, hother q hq, Live]
    refine and_congr_right fun _ => ⟨fun hheld => ?_, fun hheld => ?_⟩
    · exact (held_goto hheld).resolve_right fun hnew => hq (Option.some.inj hnew).symm
    · rcases hheld with ⟨manager', server', hmap⟩ | ⟨i, hi⟩
      · exact .inl ⟨manager', server', hmap⟩
      · have hir : i ≠ r := by
          rintro rfl
          rw [hr] at hi
          cases hi
        refine .inr ⟨i, ?_⟩
        show (Function.update s.phase r _ i).process = some q
        rw [Function.update_of_ne hir, hi]
  have hnew : Live ((s.spawn server).goto r (.started manager server kind s.spawned)) s.spawned := by
    refine ⟨by rw [hself], .inr ⟨r, ?_⟩⟩
    show (Function.update s.phase r _ r).process = _
    rw [Function.update_self]
    rfl
  constructor
  · intro h' p hserver hlive
    have hp : p ≠ s.spawned := Nat.ne_of_lt (hinv.held hlive.2)
    refine hp (h'.2 p s.spawned ((hold p hp).mpr hlive) hnew ?_)
    rw [hother p hp, hself, hserver]
  · intro halone
    refine ⟨fun q => ?_, fun q q' hq hq' heq => ?_⟩
    · by_cases hq : q = s.spawned
      · rw [hq, hself]
        exact proper_nil
      · rw [hother q hq]
        exact h.1 q
    · by_cases hqs : q = s.spawned <;> by_cases hqs' : q' = s.spawned
      · rw [hqs, hqs']
      · rw [hqs, hself, hother q' hqs'] at heq
        exact absurd ((hold q' hqs').mp hq') (halone q' heq.symm)
      · rw [hqs', hself, hother q hqs] at heq
        exact absurd ((hold q hqs).mp hq) (halone q heq)
      · rw [hother q hqs, hother q' hqs'] at heq
        exact h.2 q q' ((hold q hqs).mp hq) ((hold q' hqs').mp hq') heq

theorem Process.Inv.record {proc : Process} {e : Event} (h : proc.Inv)
    (he : e ≠ .wrote .initialized) : Process.Inv { proc with log := proc.log ++ [e] } where
  shaken := fun hlog => h.shaken ((shaken_concat.mp hlog).resolve_right fun h => he h.1)
  initialized := fun hflag hstdin => shaken_concat.mpr (.inl (h.initialized hflag hstdin))

/-- Two changes of one process are one. -/
theorem setProc_setProc (f : Process → Process) (proc : Process) :
    (s.setProc p proc).setProc p (f ((s.setProc p proc).procs p)) = s.setProc p (f proc) := by
  rw [setProc_self, State.setProc, State.setProc, Function.update_idem]
  rfl

/-- The next message keeps the invariant, and only a request before the handshake is not
managed. -/
theorem write_inv {plan : Plan} (h : Inv s) (hr : s.phase r = .holding p plan)
    (hwrite : s.write r p plan = some s') :
    Inv s' ∧ (Managed s → ((∀ left, plan = .requests (left + 1) → (s.procs p).stdin = true →
      (s.procs p).initialized = true) ↔ Managed s')) := by
  have hlocked : (s.phase r).locked = some p := by rw [hr]; rfl
  have hothers : ∀ i, i ≠ r → (s.phase i).locked ≠ some p := fun i hi hl => hi (h.only hlocked hl)
  have hholder : (s.procs p).holder = some r := h.locked r p hlocked
  have hheld : ∀ q, some p = some q → Held s q := fun q hq =>
    .inr ⟨r, by rw [hr]; exact hq⟩
  have hlt : ∀ q, some p = some q → q < s.spawned := fun q hq => h.held (hheld q hq)
  have hself : ∀ q, some p = some q → q = p ∧ (s.procs p).holder = some r :=
    fun q hq => ⟨(Option.some.inj hq).symm, hholder⟩
  have hown : ∀ q, some p = some q → (s.procs q).holder = some r :=
    fun q hq => Option.some.inj hq ▸ hholder
  have hnone : ∀ {P : Nat → Prop} (q : Nat), none = some q → P q := fun _ hq => nomatch hq
  have hquiet : ∀ {q : Prop} {b : Bool}, (∀ left, plan ≠ .requests (left + 1)) → q →
      ((∀ left, plan = .requests (left + 1) → b = true → (s.procs p).initialized = true) ↔ q) :=
    fun hplan hq => iff_of_true (fun left hleft => absurd hleft (hplan left)) hq
  cases plan with
  | initializing =>
      obtain rfl := Option.some.inj hwrite
      split
      · refine ⟨h.change hothers ((h.procs p).record nofun) hlt hself ?_, fun hs => hquiet nofun ?_⟩
        · show [_] <:+ ((s.setProc p _).procs p).log
          rw [setProc_self]
          exact List.suffix_append _ _
        · exact hs.record rfl rfl id hheld nofun
      · exact ⟨h.change hothers ⟨(h.procs p).shaken, (h.procs p).initialized⟩ hnone hnone trivial,
          fun hs => hquiet nofun (hs.setProc rfl rfl id hnone)⟩
  | initialized =>
      have hstage : [.wrote .initializeRequest, .answered true] <:+ (s.procs p).log := by
        have hstage := h.stages r
        rw [hr] at hstage
        exact hstage
      obtain rfl := Option.some.inj hwrite
      cases hstdin : (s.procs p).stdin with
      | true =>
          have hone : (s.record p (.wrote .initialized)).setInitialized p = s.setProc p
              { s.procs p with
                log := (s.procs p).log ++ [.wrote .initialized], initialized := true } :=
            setProc_setProc (fun proc => { proc with initialized := true }) _
          rw [if_pos rfl, hone]
          refine ⟨h.change hothers ⟨fun _ => rfl, fun _ _ => ?_⟩ hlt hself trivial,
            fun hs => hquiet nofun ?_⟩
          · exact shaken_concat.mpr (.inr ⟨rfl, hstage⟩)
          · exact hs.record rfl rfl id hheld nofun
      | false =>
          rw [if_neg Bool.false_ne_true]
          refine ⟨h.change hothers ⟨fun _ => rfl, fun _ hopen => ?_⟩ hlt hself trivial,
            fun hs => hquiet nofun ?_⟩
          · exact absurd (hstdin.symm.trans hopen) Bool.false_ne_true
          · exact Managed.setProc hs rfl rfl id hheld
  | notification =>
      obtain rfl := Option.some.inj hwrite
      split
      · exact ⟨h.change hothers ((h.procs p).record nofun) hlt hself trivial,
          fun hs => hquiet nofun (hs.record rfl rfl id hheld nofun)⟩
      · refine ⟨h.goto hlt hown trivial, fun hs => hquiet nofun ?_⟩
        exact hs.move hheld
  | requests left =>
      cases left with
      | zero => cases hwrite
      | succ left =>
          obtain rfl := Option.some.inj hwrite
          cases hstdin : (s.procs p).stdin with
          | true =>
              rw [if_pos rfl]
              refine ⟨h.change hothers ((h.procs p).record nofun) hlt hself trivial, fun hs => ?_⟩
              refine Iff.trans ?_ (Iff.symm (hs.record_iff rfl rfl id hheld))
              constructor
              · exact fun hflag _ => (h.procs p).initialized (hflag left rfl rfl) hstdin
              · exact fun hshaken _ _ _ => (h.procs p).shaken (hshaken rfl)
          | false =>
              rw [if_neg Bool.false_ne_true]
              refine ⟨h.goto hlt hown trivial, fun hs => iff_of_true nofun ?_⟩
              exact hs.move hheld

/-- A response ends a request, and the handshake goes on with the one to `initialize`. -/
theorem answer_inv {plan : Plan} {ok : Bool} (h : Inv s) (hr : s.phase r = .awaiting p plan)
    (hanswer : s.answer r p ok plan = some s') : Inv s' ∧ (Managed s → Managed s') := by
  have hlocked : (s.phase r).locked = some p := by rw [hr]; rfl
  have hothers : ∀ i, i ≠ r → (s.phase i).locked ≠ some p := fun i hi hl => hi (h.only hlocked hl)
  have hheld : ∀ q, some p = some q → Held s q := fun q hq =>
    .inr ⟨r, by rw [hr]; exact hq⟩
  have hlt : ∀ q, some p = some q → q < s.spawned := fun q hq => h.held (hheld q hq)
  have hself : ∀ q, some p = some q → q = p ∧ (s.procs p).holder = some r :=
    fun q hq => ⟨(Option.some.inj hq).symm, h.locked r p hlocked⟩
  cases plan with
  | initializing =>
      have hstage : [.wrote .initializeRequest] <:+ (s.procs p).log := by
        have hstage := h.stages r
        rw [hr] at hstage
        exact hstage
      obtain rfl := Option.some.inj hanswer
      cases ok with
      | true =>
          rw [if_pos rfl]
          refine ⟨h.change hothers ((h.procs p).record nofun) hlt hself ?_,
            fun hs => hs.record rfl rfl id hheld nofun⟩
          show [_, _] <:+ ((s.setProc p _).procs p).log
          rw [setProc_self]
          obtain ⟨before, hbefore⟩ := hstage
          refine ⟨before, ?_⟩
          show before ++ [_, _] = (s.procs p).log ++ [_]
          rw [← hbefore, List.append_assoc]
          rfl
      | false =>
          have hone : (s.record p (.answered false)).setHolder p none = s.setProc p
              { s.procs p with log := (s.procs p).log ++ [.answered false], holder := none } :=
            setProc_setProc (fun proc => { proc with holder := none }) _
          rw [if_neg Bool.false_ne_true, hone]
          have hproc := (h.procs p).record (e := .answered false) nofun
          exact ⟨h.change hothers ⟨hproc.shaken, hproc.initialized⟩ nofun nofun trivial,
            fun hs => hs.record rfl rfl id nofun nofun⟩
  | requests left =>
      obtain rfl := Option.some.inj hanswer
      exact ⟨h.change hothers ((h.procs p).record nofun) hlt hself trivial,
        fun hs => hs.record rfl rfl id hheld nofun⟩
  | _ => cases hanswer

/-- The lock of a process is given back, and the call is over. -/
theorem unlock_inv (h : Inv s) (hlocked : (s.phase r).locked = some p) :
    Inv ((s.setHolder p none).goto r .done) ∧
      (Managed s → Managed ((s.setHolder p none).goto r .done)) := by
  have hothers : ∀ i, i ≠ r → (s.phase i).locked ≠ some p := fun i hi hl => hi (h.only hlocked hl)
  exact ⟨h.change hothers ⟨(h.procs p).shaken, (h.procs p).initialized⟩ nofun nofun trivial,
    fun hs => Managed.setProc hs rfl rfl id nofun⟩

theorem plan_stage (kind : Kind) (flag : Bool) : (Phase.holding p (kind.plan flag)).Stage s := by
  cases kind <;> cases flag <;> trivial

/-- The process that a call started enters the map. -/
theorem insert_inv {manager : Nat} {server : Int} {kind : Kind} (h : Inv s)
    (hr : s.phase r = .started manager server kind p) :
    Inv ((s.insert manager server p).goto r (.ready kind p)) ∧
      (Managed s → Managed ((s.insert manager server p).goto r (.ready kind p))) := by
  have hp : Held s p := .inr ⟨r, by rw [hr]; rfl⟩
  have hmap : ∀ manager' server' q, (s.insert manager server p).map manager' server' = some q →
      q = p ∨ s.map manager' server' = some q := by
    intro manager' server' q hq
    by_cases hmanager : manager' = manager
    · subst hmanager
      have hq' : Function.update (s.map manager') server (some p) server' = some q := by
        rw [← hq]
        show _ = Function.update s.map manager' _ manager' server'
        rw [Function.update_self]
      rcases moved_cases hq' with ⟨-, hq'⟩ | ⟨-, hq'⟩
      · exact .inl (Option.some.inj hq').symm
      · exact .inr hq'
    · have hq' : s.map manager' server' = some q := by
        rw [← hq]
        show _ = Function.update s.map manager _ manager' server'
        rw [Function.update_of_ne hmanager]
      exact .inr hq'
  have hheld : ∀ q, Held (s.insert manager server p) q → Held s q := by
    rintro q (⟨manager', server', hq⟩ | hq)
    · rcases hmap manager' server' q hq with rfl | hq
      · exact hp
      · exact .inl ⟨manager', server', hq⟩
    · exact .inr hq
  have hinv : Inv (s.insert manager server p) :=
    ⟨h.phases, fun manager' server' q hq => h.held (hheld q (.inl ⟨manager', server', hq⟩)),
      h.locked, h.procs, fun i => stage_congr (fun _ _ => rfl) (h.stages i)⟩
  refine ⟨hinv.goto (fun q hq => Option.some.inj hq ▸ h.held hp) nofun trivial, fun hs => ?_⟩
  refine hs.quiet (fun _ => rfl) (fun _ => rfl) fun q hq => ⟨hq.1, ?_⟩
  rcases held_goto hq.2 with hq | hq
  · exact hheld q hq
  · exact Option.some.inj hq ▸ hp

/-- An act keeps the invariant, and both properties exactly when it is guarded. -/
theorem step_inv (h : Inv s) (hstep : step s a = some s') :
    Inv s' ∧ (Managed s → (Guarded s a ↔ Managed s')) := by
  have hkept : ∀ {a : Act}, Guarded s a → Inv s' ∧ (Managed s → Managed s') →
      Inv s' ∧ (Managed s → (Guarded s a ↔ Managed s')) :=
    fun hguarded hs' => ⟨hs'.1, fun hs => iff_of_true hguarded (hs'.2 hs)⟩
  cases a with
  | lookup r manager server kind =>
      refine hkept trivial ?_
      unfold step at hstep
      dsimp only at hstep
      split at hstep
      · obtain rfl := Option.some.inj hstep
        cases hmap : s.map manager server with
        | none => exact ⟨h.goto nofun nofun trivial, fun hs => hs.move nofun⟩
        | some p =>
            have hheld : ∀ q, some p = some q → Held s q := fun q hq =>
              .inl ⟨manager, server, hmap.trans hq⟩
            exact ⟨h.goto (fun q hq => h.held (hheld q hq)) nofun trivial, fun hs => hs.move hheld⟩
      · cases hstep
  | check r =>
      refine hkept trivial ?_
      unfold step at hstep
      dsimp only at hstep
      split at hstep
      · next manager server kind p hphase =>
          have hheld : ∀ q, some p = some q → Held s q := fun q hq =>
            .inr ⟨r, by rw [hphase]; exact hq⟩
          split at hstep
          · obtain rfl := Option.some.inj hstep
            split
            · exact ⟨h.goto (fun q hq => h.held (hheld q hq)) nofun trivial, fun hs => hs.move hheld⟩
            · exact ⟨h.goto nofun nofun trivial, fun hs => hs.move nofun⟩
          · cases hstep
      · cases hstep
  | start r spawned =>
      unfold step at hstep
      dsimp only at hstep
      split at hstep
      · next manager server kind hphase =>
          obtain rfl := Option.some.inj hstep
          cases spawned with
          | true =>
              have hspawn := h.spawn server
              refine ⟨hspawn.goto (fun q hq => ?_) nofun trivial, fun hs => ?_⟩
              · rw [← Option.some.inj hq]
                exact Nat.lt_succ_self s.spawned
              · rw [if_pos rfl, hs.spawn_iff h hphase]
                constructor
                · exact fun hguarded => hguarded manager server kind hphase
                · intro halone manager' server' kind' hphase'
                  obtain ⟨-, rfl, -⟩ := Phase.missing.inj (hphase.symm.trans hphase')
                  exact halone
          | false => exact hkept trivial ⟨h.goto nofun nofun trivial, fun hs => hs.move nofun⟩
      · cases hstep
  | insert r =>
      refine hkept trivial ?_
      unfold step at hstep
      dsimp only at hstep
      split at hstep
      · next manager server kind p hphase =>
          obtain rfl := Option.some.inj hstep
          exact insert_inv h hphase
      · cases hstep
  | lock r =>
      refine hkept trivial ?_
      unfold step at hstep
      dsimp only at hstep
      split at hstep
      · next kind p hphase =>
          split at hstep
          · next hfree =>
              obtain rfl := Option.some.inj hstep
              have hothers : ∀ i, i ≠ r → (s.phase i).locked ≠ some p := fun i _ hi => by
                have hholder := h.locked i p hi
                rw [hfree] at hholder
                cases hholder
              have hheld : ∀ q, some p = some q → Held s q := fun q hq =>
                .inr ⟨r, by rw [hphase]; exact hq⟩
              exact ⟨h.change hothers ⟨(h.procs p).shaken, (h.procs p).initialized⟩
                (fun q hq => h.held (hheld q hq)) (fun q hq => ⟨(Option.some.inj hq).symm, rfl⟩)
                (plan_stage kind _), fun hs => Managed.setProc hs rfl rfl id hheld⟩
          · cases hstep
      · cases hstep
  | write r =>
      unfold step at hstep
      dsimp only at hstep
      split at hstep
      · next p plan hphase =>
          obtain ⟨hinv, hiff⟩ := write_inv h hphase hstep
          refine ⟨hinv, fun hs => ?_⟩
          rw [← hiff hs]
          constructor
          · rintro hguarded left rfl hstdin
            exact hguarded p left hphase hstdin
          · intro hflag p' left hphase' hstdin
            obtain ⟨rfl, rfl⟩ := Phase.holding.inj (hphase.symm.trans hphase')
            exact hflag left rfl hstdin
      · cases hstep
  | answer r ok =>
      refine hkept trivial ?_
      unfold step at hstep
      dsimp only at hstep
      split at hstep
      · next p plan hphase => exact answer_inv h hphase hstep
      · cases hstep
  | finish r =>
      refine hkept trivial ?_
      unfold step at hstep
      dsimp only at hstep
      split at hstep
      · next p hphase => exact Option.some.inj hstep ▸ unlock_inv h (by rw [hphase]; rfl)
      · cases hstep
  | drop r =>
      refine hkept trivial ?_
      unfold step at hstep
      dsimp only at hstep
      split at hstep
      · next p hlocked => exact Option.some.inj hstep ▸ unlock_inv h hlocked
      · exact Option.some.inj hstep ▸ ⟨h.goto nofun nofun trivial, fun hs => hs.move nofun⟩
  | crash p =>
      refine hkept trivial ?_
      obtain rfl := Option.some.inj hstep
      exact ⟨h.exit rfl rfl ⟨(h.procs p).shaken, nofun⟩, fun hs => hs.quiet
        (fun _ => setProc_log rfl) (fun _ => setProc_server rfl) fun _ => live_setProc nofun⟩
  | close p =>
      refine hkept trivial ?_
      obtain rfl := Option.some.inj hstep
      exact ⟨h.exit rfl rfl ⟨(h.procs p).shaken, nofun⟩, fun hs => hs.quiet
        (fun _ => setProc_log rfl) (fun _ => setProc_server rfl) fun _ => live_setProc id⟩

/-- The handshake of a new process. -/
def shake : List Act :=
  [.lookup 0 0 1 .initializeUpstream, .start 0 true, .insert 0, .lock 0, .write 0, .answer 0 true,
    .write 0, .finish 0]

/-- A tool call after it. -/
def inOrder : List Act :=
  shake ++ [.lookup 1 0 1 .request, .check 1, .lock 1, .write 1, .answer 1 true, .finish 1]

/-- A tool call that finds the process gone. -/
def afterCrash : List Act :=
  shake ++ [.crash 0, .lookup 1 0 1 .request, .check 1, .start 1 true, .insert 1, .lock 1, .write 1]

/-- Two calls that find no process. -/
def atOnce : List Act :=
  [.lookup 0 0 1 .request, .lookup 1 0 1 .request, .start 0 true, .start 1 true]

end CorexManager.Stdio.Processes
