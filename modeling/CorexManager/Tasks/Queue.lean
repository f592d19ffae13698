import CorexManager.Logic.Transition
import Mathlib.Data.List.Count
import Mathlib.Data.List.Nodup
import Mathlib.Logic.Function.Basic

/-!
# The task queue

`services/tasks.py`: tasks are rows of a table, queued in Valkey and run by the worker or,
when it cannot be reached, by the process that made them; `cancel_task` writes to the row
and leaves a flag in the process and in Valkey; `cleanup_stale_tasks` finishes the rows that
a restart left open.  Every statement, command and commit is a step of its own, and the
threads of all processes interleave.

* `step` — the steps of the threads; commands to Valkey may fail, a flag expires, threads
  die and processes restart.
* `Orderly` — what a step may not cross: a cancellation does not meet a task that will not
  look at the flag again, a cleanup does not meet a task that is queued or running, a flag is
  there when it is looked for, and an item that is queued is known to be.
* `tasks_lawful` — in orderly runs an operation is started once at most, final statuses
  stay, and a task that was cancelled is not started.
* `tasks_unlawful` — one run for each of the four that break it.
-/

namespace CorexManager.Tasks

/-! ### Statuses and threads -/

/-- `Task.status`. -/
inductive Status where
  | pending | running | success | failed | cancelled
  deriving DecidableEq, Repr

/-- The statuses that are final. -/
def Status.final : Status → Bool
  | .success | .failed | .cancelled => true
  | .pending | .running => false

/-- The places where a run of a task looks whether it is cancelled: before it starts, before
a certificate is issued, and after; the last with what came of it. -/
inductive Check where
  | first | second
  | third (ok : Bool)
  deriving DecidableEq, Repr

/-- What the operation comes to. -/
inductive Outcome where
  | ok | error | raised
  deriving DecidableEq, Repr

/-- Where a thread is; the number is the id of its task. -/
inductive Phase where
  | idle
  /-- `queue_task`, with the row committed. -/
  | inserted (id : Nat)
  /-- `_is_cancelled`, before the set. -/
  | checking (c : Check) (id : Nat)
  /-- `_is_cancelled`, before Valkey. -/
  | askKey (c : Check) (id : Nat)
  /-- `_clear_cancelled`, before the set. -/
  | clearSet (c : Check) (id : Nat)
  /-- `_clear_cancelled`, before Valkey. -/
  | clearKey (c : Check) (id : Nat)
  | commitCancelled (id : Nat)
  | commitRunning (id : Nat)
  /-- Before the operation. -/
  | ready (id : Nat)
  | operating (id : Nat)
  | complete (id : Nat) (ok : Bool)
  /-- `cancel_task`, with the set done. -/
  | cancelKey (id : Nat)
  | cancelRead (id : Nat)
  | cancelCommit (id : Nat)
  /-- `cleanup_stale_tasks`, with the rows it found. -/
  | cleanup (stale : List Nat)
  | done
  deriving DecidableEq, Repr

/-- The flags of cancelled tasks. -/
structure Flags where
  /-- `_cancelled_tasks` of a process. -/
  set : Nat → Nat → Bool
  /-- The keys in Valkey. -/
  key : Nat → Bool

namespace Flags

/-- Add a task to the set of a process. -/
def addSet (f : Flags) (process id : Nat) : Flags :=
  { f with set := fun p k => f.set p k || (p == process && k == id) }

/-- Discard a task from the set of a process. -/
def discardSet (f : Flags) (process id : Nat) : Flags :=
  { f with set := fun p k => f.set p k && !(p == process && k == id) }

/-- Set a key. -/
def setKey (f : Flags) (id : Nat) : Flags := { f with key := fun k => f.key k || k == id }

/-- Delete a key, or let it expire. -/
def deleteKey (f : Flags) (id : Nat) : Flags := { f with key := fun k => f.key k && k != id }

/-- The set of a process is gone with it. -/
def restart (f : Flags) (process : Nat) : Flags :=
  { f with set := fun p k => f.set p k && p != process }

end Flags

/-- The table, the queue, the threads, and what happened. -/
structure State where
  status : Nat → Option Status
  /-- Whether a task issues a certificate. -/
  cert : Nat → Bool
  nextId : Nat
  /-- The next item comes first. -/
  queue : List Nat
  flags : Flags
  phase : Nat → Phase
  process : Nat → Nat
  /-- The tasks whose operations were started. -/
  starts : List Nat
  /-- The tasks of which `cancel_task` returned `True`. -/
  returned : List Nat

namespace State

/-- A thread moves on. -/
def goto (s : State) (t : Nat) (p : Phase) : State :=
  { s with phase := Function.update s.phase t p }

/-- `UPDATE` of the status of a row, which may not be there. -/
def setStatus (s : State) (id : Nat) (st : Status) : State :=
  { s with status := fun k => if k = id then (s.status k).map fun _ => st else s.status k }

/-- The rows `cleanup_stale_tasks` reads. -/
def stale (s : State) : List Nat :=
  (List.range s.nextId).filter fun id =>
    s.status id == some .running || s.status id == some .pending

/-- What `cleanup_stale_tasks` makes of a task. -/
def reconciled (s : State) (onDisk : Nat → Bool) (id : Nat) : Status :=
  if s.cert id = true ∧ onDisk id = true then .success else .failed

/-- The commit of `cleanup_stale_tasks`. -/
def reconcile (s : State) (stale : List Nat) (onDisk : Nat → Bool) : State :=
  { s with status := fun k =>
      if k ∈ stale then (s.status k).map fun _ => s.reconciled onDisk k else s.status k }

/-- The threads of a process stop. -/
def kill (s : State) (process : Nat) : State :=
  { s with phase := fun t =>
      if s.process t = process ∧ s.phase t ≠ .idle then .done else s.phase t }

end State

/-! ### Steps -/

/-- A step of a thread, or of the surroundings. -/
inductive Act where
  /-- A thread of a process calls `queue_task`. -/
  | queue (t process : Nat) (cert : Bool)
  /-- `enqueue`, when the queue is available: whether the item was pushed, and whether the
  call says so. -/
  | enqueue (t : Nat) (available pushed reported : Bool)
  | dequeue (t process : Nat)
  | checkSet (t : Nat)
  | checkKey (t : Nat) (ok : Bool)
  | clearSet (t : Nat)
  | clearKey (t : Nat) (ok : Bool)
  | commitCancelled (t : Nat)
  | commitRunning (t : Nat)
  | start (t : Nat)
  /-- There is nothing to do: an unknown type, or a certificate that is not found. -/
  | skip (t : Nat)
  | finish (t : Nat) (outcome : Outcome)
  | complete (t : Nat)
  /-- A thread of a process calls `cancel_task`. -/
  | cancel (t process id : Nat)
  | cancelKey (t : Nat) (ok : Bool)
  | cancelRead (t : Nat)
  | cancelCommit (t : Nat)
  /-- A thread of a process calls `cleanup_stale_tasks`. -/
  | cleanup (t process : Nat)
  /-- Its commit, with the certificates that are on disk. -/
  | cleanupCommit (t : Nat) (onDisk : Nat → Bool)
  | restart (process : Nat)
  | expire (id : Nat)
  /-- A thread dies of an exception. -/
  | stop (t : Nat)

/-- Where a check leads that finds nothing. -/
def Check.proceed (id : Nat) : Check → Phase
  | .first => .commitRunning id
  | .second => .ready id
  | .third ok => .complete id ok

/-- Where a check leads that finds the flag, once it is cleared; after the operation the row
is left as it is. -/
def Check.giveUp (id : Nat) : Check → Phase
  | .first | .second => .commitCancelled id
  | .third _ => .done

/-- One step, when it is the next of its thread. -/
def step (s : State) : Act → Option State
  | .queue t process cert =>
      if s.phase t = .idle then
        some { s.goto t (.inserted s.nextId) with
          status := Function.update s.status s.nextId (some .pending)
          cert := Function.update s.cert s.nextId cert
          nextId := s.nextId + 1
          process := Function.update s.process t process }
      else none
  | .enqueue t available pushed reported =>
      match s.phase t with
      | .inserted id =>
          if available = true ∧ pushed = true then
            some { s.goto t (if reported then .done else .checking .first id) with
              queue := s.queue ++ [id] }
          else if available = true ∧ reported = true then some (s.goto t .done)
          -- dispatched; a certificate is issued in a thread of its own
          else some (s.goto t (.checking .first id))
      | _ => none
  | .dequeue t process =>
      match s.phase t, s.queue with
      | .idle, id :: rest =>
          some { s.goto t (.checking .first id) with
            queue := rest
            process := Function.update s.process t process }
      | _, _ => none
  | .checkSet t =>
      match s.phase t with
      | .checking c id =>
          some (s.goto t (if s.flags.set (s.process t) id then .clearSet c id else .askKey c id))
      | _ => none
  | .checkKey t ok =>
      match s.phase t with
      | .askKey c id =>
          if ok = true ∧ s.flags.key id = true then
            some { s.goto t (.clearSet c id) with flags := s.flags.addSet (s.process t) id }
          else some (s.goto t (c.proceed id))
      | _ => none
  | .clearSet t =>
      match s.phase t with
      | .clearSet c id =>
          some { s.goto t (.clearKey c id) with flags := s.flags.discardSet (s.process t) id }
      | _ => none
  | .clearKey t ok =>
      match s.phase t with
      | .clearKey c id =>
          some { s.goto t (c.giveUp id) with flags := if ok then s.flags.deleteKey id else s.flags }
      | _ => none
  | .commitCancelled t =>
      match s.phase t with
      | .commitCancelled id => some ((s.setStatus id .cancelled).goto t .done)
      | _ => none
  | .commitRunning t =>
      match s.phase t with
      | .commitRunning id =>
          some ((s.setStatus id .running).goto t
            (if s.cert id then .checking .second id else .ready id))
      | _ => none
  | .start t =>
      match s.phase t with
      | .ready id => some { s.goto t (.operating id) with starts := id :: s.starts }
      | _ => none
  | .skip t =>
      match s.phase t with
      | .ready id => some (s.goto t (.complete id false))
      | _ => none
  | .finish t outcome =>
      match s.phase t with
      | .operating id =>
          some (s.goto t (if s.cert id = true ∧ outcome ≠ .raised then
            .checking (.third (outcome = .ok)) id else .complete id (outcome = .ok)))
      | _ => none
  | .complete t =>
      match s.phase t with
      | .complete id ok =>
          some ((s.setStatus id (if ok then .success else .failed)).goto t .done)
      | _ => none
  | .cancel t process id =>
      if s.phase t = .idle then
        some { s.goto t (.cancelKey id) with
          process := Function.update s.process t process
          flags := s.flags.addSet process id }
      else none
  | .cancelKey t ok =>
      match s.phase t with
      | .cancelKey id =>
          some { s.goto t (.cancelRead id) with flags := if ok then s.flags.setKey id else s.flags }
      | _ => none
  | .cancelRead t =>
      match s.phase t with
      | .cancelRead id =>
          some (s.goto t (match s.status id with
            | some .running | some .pending => .cancelCommit id
            | _ => .done))
      | _ => none
  | .cancelCommit t =>
      match s.phase t with
      | .cancelCommit id =>
          -- an update of no row raises
          if s.status id = none then some (s.goto t .done)
          else some { (s.setStatus id .cancelled).goto t .done with returned := id :: s.returned }
      | _ => none
  | .cleanup t process =>
      if s.phase t = .idle then
        some { s.goto t (.cleanup s.stale) with process := Function.update s.process t process }
      else none
  | .cleanupCommit t onDisk =>
      match s.phase t with
      | .cleanup stale =>
          some ((s.reconcile stale onDisk).goto t .done)
      | _ => none
  | .restart process =>
      some { s.kill process with flags := s.flags.restart process }
  | .expire id =>
      some { s with flags := s.flags.deleteKey id }
  | .stop t => some (s.goto t .done)

/-- Before the first task. -/
def start : State where
  status := fun _ => none
  cert := fun _ => false
  nextId := 0
  queue := []
  flags := ⟨fun _ _ => false, fun _ => false⟩
  phase := fun _ => .idle
  process := fun _ => 0
  starts := []
  returned := []

/-! ### Orderly steps -/

/-- The task a thread is to run, or runs. -/
def Phase.job : Phase → Option Nat
  | .inserted id | .checking _ id | .askKey _ id | .clearSet _ id | .clearKey _ id
  | .commitCancelled id | .commitRunning id | .ready id | .operating id | .complete id _ => some id
  | .idle | .cancelKey _ | .cancelRead _ | .cancelCommit _ | .cleanup _ | .done => none

/-- A thread that looks at the flag again, or has seen it; the operation on a certificate is
followed by a last look. -/
def Phase.heeds (cert : Bool) : Phase → Bool
  | .commitRunning _ | .ready _ | .complete _ _ => false
  | .operating _ => cert
  | _ => true

/-- **An orderly step**: an item is queued exactly when the call says so; a flag is found of a
task that is cancelled; what is cancelled while it operates does not raise; a cancellation is
committed while no thread runs the task without
looking again, and before the task is finished; a cleanup is committed on tasks that are open
still, not queued and not run by any thread. -/
def Orderly (s : State) : Act → Prop
  | .enqueue _ available pushed reported => available = true → pushed = reported
  | .checkKey t ok => ∀ c id, s.phase t = .askKey c id → s.status id = some .cancelled →
      ok = true ∧ s.flags.key id = true
  | .finish t .raised => ∀ id, s.phase t = .operating id → s.status id ≠ some .cancelled
  | .cancelCommit t => ∀ id, s.phase t = .cancelCommit id →
      s.status id ≠ some .success ∧ s.status id ≠ some .failed ∧
        ∀ t', (s.phase t').job = some id → (s.phase t').heeds (s.cert id) = true
  | .cleanupCommit t _ => ∀ stale, s.phase t = .cleanup stale → ∀ id ∈ stale,
      (∀ st, s.status id = some st → st.final = false) ∧ id ∉ s.queue ∧
        ∀ t', (s.phase t').job ≠ some id
  | _ => True

/-! ### The invariant -/

/-- The statuses a row may have while a thread is somewhere in its task. -/
def Phase.allows (cert : Bool) : Phase → Status → Bool
  | .inserted _, st | .checking .first _, st | .askKey .first _, st =>
      st = .pending || st = .cancelled
  | .checking _ _, st | .askKey _ _, st => st = .running || st = .cancelled
  | .clearSet _ _, st | .clearKey _ _, st | .commitCancelled _, st =>
      st ≠ .success && st ≠ .failed
  | .commitRunning _, st => st = .pending
  | .ready _, st | .complete _ _, st => st = .running
  | .operating _, st => st = .running || (cert && st = .cancelled)
  | _, _ => true

/-- The operation may have been started. -/
def Phase.operated : Phase → Bool
  | .operating _ | .complete _ _ | .checking (.third _) _ | .askKey (.third _) _
  | .clearSet (.third _) _ | .clearKey (.third _) _ => true
  | _ => false

/-- What holds of a task and the thread that runs it. -/
structure Holds (s : State) (p : Phase) (id : Nat) : Prop where
  row : ∃ st, s.status id = some st ∧ p.allows (s.cert id) st = true
  unstarted : p.operated = false → id ∉ s.starts

/-- What orderly steps preserve. -/
structure Inv (s : State) : Prop where
  rows : ∀ id, s.status id ≠ none → id < s.nextId
  started : ∀ id ∈ s.starts, id < s.nextId
  once : s.starts.Nodup
  queue : s.queue.Nodup
  queued : ∀ id ∈ s.queue, (s.status id = some .pending ∨ s.status id = some .cancelled) ∧
    id ∉ s.starts ∧ ∀ t, (s.phase t).job ≠ some id
  one : ∀ t t' id, (s.phase t).job = some id → (s.phase t').job = some id → t = t'
  jobs : ∀ t id, (s.phase t).job = some id → Holds s (s.phase t) id
  returned : ∀ id ∈ s.returned, s.status id = some .cancelled

theorem start_inv : Inv start where
  rows := fun _ h => absurd rfl h
  started := fun _ h => nomatch h
  once := List.nodup_nil
  queue := List.nodup_nil
  queued := fun _ h => nomatch h
  one := fun _ _ _ h => nomatch h
  jobs := fun _ _ h => nomatch h
  returned := fun _ h => nomatch h

namespace Inv

variable {s : State}

/-- Flags and processes do not matter. -/
theorem flags (h : Inv s) (flags : Flags) (process : Nat → Nat) :
    Inv { s with flags := flags, process := process } :=
  ⟨h.rows, h.started, h.once, h.queue, h.queued, h.one, fun t id ht => ⟨(h.jobs t id ht).row,
    (h.jobs t id ht).unstarted⟩, h.returned⟩

private theorem goto_self (s : State) (t : Nat) (p : Phase) : (s.goto t p).phase t = p :=
  Function.update_self _ _ _

private theorem goto_other (s : State) {t t' : Nat} (p : Phase) (h : t' ≠ t) :
    (s.goto t p).phase t' = s.phase t' := Function.update_of_ne h _ _

/-- A thread moves on in its task, or leaves it. -/
theorem move (h : Inv s) {t : Nat} {p : Phase}
    (hp : ∀ id, p.job = some id → (s.phase t).job = some id ∧ Holds s p id) :
    Inv (s.goto t p) := by
  have hback : ∀ t' id, ((s.goto t p).phase t').job = some id → (s.phase t').job = some id := by
    intro t' id ht'
    by_cases heq : t' = t
    · subst heq
      rw [goto_self] at ht'
      exact (hp id ht').1
    · rwa [goto_other s p heq] at ht'
  refine ⟨h.rows, h.started, h.once, h.queue, ?_, ?_, ?_, h.returned⟩
  · intro id hid
    obtain ⟨hrow, hstarts, hjobs⟩ := h.queued id hid
    exact ⟨hrow, hstarts, fun t' ht' => hjobs t' (hback t' id ht')⟩
  · exact fun t₁ t₂ id h₁ h₂ => h.one t₁ t₂ id (hback t₁ id h₁) (hback t₂ id h₂)
  · intro t' id ht'
    have hholds : Holds s ((s.goto t p).phase t') id := by
      by_cases heq : t' = t
      · subst heq
        rw [goto_self] at ht' ⊢
        exact (hp id ht').2
      · rw [goto_other s p heq] at ht' ⊢
        exact h.jobs t' id ht'
    exact ⟨hholds.row, hholds.unstarted⟩

/-- A thread leaves its task. -/
theorem leave (h : Inv s) (t : Nat) {p : Phase} (hp : p.job = none) : Inv (s.goto t p) :=
  h.move fun id hid => absurd (hp ▸ hid) (by simp)

private theorem setStatus_self {s : State} {id : Nat} {st st' : Status}
    (h : s.status id = some st') : (s.setStatus id st).status id = some st := by
  show (if id = id then (s.status id).map fun _ => st else s.status id) = some st
  rw [if_pos rfl, h]
  rfl

private theorem setStatus_other (s : State) {id k : Nat} (st : Status) (h : k ≠ id) :
    (s.setStatus id st).status k = s.status k := if_neg h

private theorem setStatus_rows (h : Inv s) (id : Nat) (st : Status) :
    ∀ k, (s.setStatus id st).status k ≠ none → k < s.nextId := by
  intro k hk
  refine h.rows k fun hnone => hk ?_
  by_cases heq : k = id
  · subst heq
    show (if k = k then (s.status k).map fun _ => st else s.status k) = none
    rw [if_pos rfl, hnone]
    rfl
  · exact (setStatus_other s st heq).trans hnone

/-- A thread commits a status of its task and moves on. -/
theorem commit (h : Inv s) {t id : Nat} (ht : (s.phase t).job = some id) {st : Status} {p : Phase}
    (hp : p.job = some id → p.allows (s.cert id) st = true ∧
      (p.operated = false → (s.phase t).operated = false))
    (hjob : ∀ k, p.job = some k → k = id)
    (hreturned : id ∈ s.returned → st = .cancelled) : Inv ((s.setStatus id st).goto t p) := by
  obtain ⟨⟨st₀, hrow, -⟩, hunstarted⟩ := h.jobs t id ht
  have hqueue : ∀ k ∈ s.queue, k ≠ id := fun k hk heq => (h.queued k hk).2.2 t (heq ▸ ht)
  have hothers : ∀ t', t' ≠ t → ∀ k, (s.phase t').job = some k → k ≠ id := by
    intro t' hne k hk heq
    exact hne (h.one t' t id (heq ▸ hk) ht)
  have hback : ∀ t' k, (((s.setStatus id st).goto t p).phase t').job = some k →
      (s.phase t').job = some k := by
    intro t' k ht'
    by_cases heq : t' = t
    · subst heq
      rw [goto_self] at ht'
      rw [hjob k ht']
      exact ht
    · rwa [goto_other _ p heq] at ht'
  refine ⟨setStatus_rows h id st, h.started, h.once, h.queue, ?_, ?_, ?_, ?_⟩
  · intro k hk
    obtain ⟨hstatus, hstarts, hjobs⟩ := h.queued k hk
    have hsame : ((s.setStatus id st).goto t p).status k = s.status k :=
      setStatus_other s st (hqueue k hk)
    rw [hsame]
    exact ⟨hstatus, hstarts, fun t' ht' => hjobs t' (hback t' k ht')⟩
  · exact fun t₁ t₂ k h₁ h₂ => h.one t₁ t₂ k (hback t₁ k h₁) (hback t₂ k h₂)
  · intro t' k ht'
    by_cases heq : t' = t
    · subst heq
      rw [goto_self] at ht' ⊢
      have hk := hjob k ht'
      subst hk
      obtain ⟨hallows, hoperated⟩ := hp ht'
      exact ⟨⟨st, setStatus_self hrow, hallows⟩, fun hp' => hunstarted (hoperated hp')⟩
    · rw [goto_other _ p heq] at ht' ⊢
      obtain ⟨⟨st', hst', hallows⟩, hun⟩ := h.jobs t' k ht'
      exact ⟨⟨st', (setStatus_other s st (hothers t' heq k ht')).trans hst', hallows⟩, hun⟩
  · intro k hk
    have hcancelled := h.returned k hk
    by_cases heq : k = id
    · subst heq
      rw [← hreturned hk]
      exact setStatus_self hrow
    · exact (setStatus_other s st heq).trans hcancelled

/-- A row is made. -/
theorem insert (h : Inv s) {t : Nat} (cert : Bool) :
    Inv { s.goto t (.inserted s.nextId) with
      status := Function.update s.status s.nextId (some .pending)
      cert := Function.update s.cert s.nextId cert
      nextId := s.nextId + 1 } := by
  have hjob : ∀ t' id, (s.phase t').job = some id → id ≠ s.nextId := by
    intro t' id ht' heq
    obtain ⟨st, hst, -⟩ := (h.jobs t' id ht').row
    exact absurd (h.rows id (by rw [hst]; simp)) (by omega)
  have hqueue : ∀ id ∈ s.queue, id ≠ s.nextId := by
    intro id hid heq
    have hsome : s.status id ≠ none := by
      rcases (h.queued id hid).1 with hst | hst <;> rw [hst] <;> simp
    exact absurd (h.rows id hsome) (by omega)
  have hsame : ∀ id, id ≠ s.nextId →
      Function.update s.status s.nextId (some .pending) id = s.status id :=
    fun id hne => Function.update_of_ne hne _ _
  have hphase : ∀ t' id, ((s.goto t (.inserted s.nextId)).phase t').job = some id →
      (t' = t ∧ id = s.nextId) ∨ (t' ≠ t ∧ (s.phase t').job = some id) := by
    intro t' id ht'
    by_cases heq : t' = t
    · subst heq
      rw [goto_self] at ht'
      exact .inl ⟨rfl, (Option.some.inj ht').symm⟩
    · rw [goto_other s _ heq] at ht'
      exact .inr ⟨heq, ht'⟩
  refine ⟨?_, fun id hid => Nat.lt_succ_of_lt (h.started id hid), h.once, h.queue, ?_, ?_, ?_, ?_⟩
  · intro id hid
    by_cases heq : id = s.nextId
    · exact heq ▸ Nat.lt_succ_self _
    · exact Nat.lt_succ_of_lt (h.rows id (hsame id heq ▸ hid))
  · intro id hid
    obtain ⟨hstatus, hstarts, hjobs⟩ := h.queued id hid
    refine ⟨?_, hstarts, fun t' ht' => ?_⟩
    · show Function.update s.status s.nextId (some .pending) id = _ ∨
        Function.update s.status s.nextId (some .pending) id = _
      rwa [hsame id (hqueue id hid)]
    · rcases hphase t' id ht' with ⟨-, heq⟩ | ⟨-, hold⟩
      · exact hqueue id hid heq
      · exact hjobs t' hold
  · intro t₁ t₂ id h₁ h₂
    rcases hphase t₁ id h₁ with ⟨ht₁, hid₁⟩ | ⟨-, hold₁⟩
    · rcases hphase t₂ id h₂ with ⟨ht₂, -⟩ | ⟨-, hold₂⟩
      · rw [ht₁, ht₂]
      · exact absurd hid₁ (hjob t₂ id hold₂)
    · rcases hphase t₂ id h₂ with ⟨-, hid₂⟩ | ⟨-, hold₂⟩
      · exact absurd hid₂ (hjob t₁ id hold₁)
      · exact h.one t₁ t₂ id hold₁ hold₂
  · intro t' id ht'
    rcases hphase t' id ht' with ⟨rfl, rfl⟩ | ⟨hne, hold⟩
    · have hself : (s.goto t' (.inserted s.nextId)).phase t' = .inserted s.nextId := goto_self _ _ _
      show Holds _ ((s.goto t' (.inserted s.nextId)).phase t') _
      rw [hself]
      exact ⟨⟨.pending, Function.update_self _ _ _, rfl⟩,
        fun _ hmem => absurd (h.started _ hmem) (by omega)⟩
    · have hother : (s.goto t (.inserted s.nextId)).phase t' = s.phase t' := goto_other _ _ hne
      show Holds _ ((s.goto t (.inserted s.nextId)).phase t') _
      rw [hother]
      obtain ⟨⟨st, hst, hallows⟩, hun⟩ := h.jobs t' id hold
      refine ⟨⟨st, (hsame id (hjob t' id hold)).trans hst, ?_⟩, hun⟩
      show (s.phase t').allows (Function.update s.cert s.nextId cert id) st = true
      rwa [Function.update_of_ne (hjob t' id hold)]
  · intro id hid
    have hcancelled := h.returned id hid
    have hne : id ≠ s.nextId := by
      intro heq
      exact absurd (h.rows id (by rw [hcancelled]; simp)) (by omega)
    exact (hsame id hne).trans hcancelled

/-- An item is queued, and its thread leaves the task. -/
theorem push (h : Inv s) {t id : Nat} (ht : s.phase t = .inserted id) :
    Inv { s.goto t .done with queue := s.queue ++ [id] } := by
  have hleft := h.leave t (p := .done) rfl
  have hjob : (s.phase t).job = some id := by rw [ht]; rfl
  have hnew : id ∉ s.queue := fun hid => (h.queued id hid).2.2 t hjob
  obtain ⟨⟨st, hst, hallows⟩, hun⟩ := h.jobs t id hjob
  have hstatus : s.status id = some .pending ∨ s.status id = some .cancelled := by
    rw [ht] at hallows
    rw [hst]
    cases st <;> first | exact .inl rfl | exact .inr rfl | cases hallows
  refine ⟨hleft.rows, hleft.started, hleft.once, ?_, ?_, hleft.one, fun t' k hk =>
    ⟨(hleft.jobs t' k hk).row, (hleft.jobs t' k hk).unstarted⟩, hleft.returned⟩
  · exact List.nodup_append.mpr ⟨h.queue, List.nodup_singleton _, fun a ha b hb =>
      fun heq => hnew (List.mem_singleton.mp hb ▸ heq ▸ ha)⟩
  · intro k hk
    rcases List.mem_append.mp hk with hk | hk
    · exact hleft.queued k hk
    · rw [List.mem_singleton.mp hk]
      refine ⟨hstatus, hun (by rw [ht]; rfl), fun t' ht' => ?_⟩
      by_cases heq : t' = t
      · subst heq
        have hself : (s.goto t' .done).phase t' = .done := goto_self _ _ _
        rw [show ({ s.goto t' .done with queue := s.queue ++ [id] } : State).phase t' = _
          from hself] at ht'
        cases ht'
      · have hother : (s.goto t .done).phase t' = s.phase t' := goto_other _ _ heq
        exact heq (h.one t' t id (hother ▸ ht') hjob)

/-- An item is taken from the queue by a thread. -/
theorem pop (h : Inv s) {t id : Nat} {rest : List Nat} (hqueue : s.queue = id :: rest) :
    Inv { s.goto t (.checking .first id) with queue := rest } := by
  obtain ⟨hstatus, hstarts, hjobs⟩ := h.queued id (hqueue ▸ .head _)
  have hnodup : id ∉ rest ∧ rest.Nodup := List.nodup_cons.mp (hqueue ▸ h.queue)
  have hphase : ∀ t' k, ((s.goto t (.checking .first id)).phase t').job = some k →
      (t' = t ∧ k = id) ∨ (t' ≠ t ∧ (s.phase t').job = some k) := by
    intro t' k ht'
    by_cases heq : t' = t
    · subst heq
      rw [goto_self] at ht'
      exact .inl ⟨rfl, (Option.some.inj ht').symm⟩
    · rw [goto_other s _ heq] at ht'
      exact .inr ⟨heq, ht'⟩
  refine ⟨h.rows, h.started, h.once, hnodup.2, ?_, ?_, ?_, h.returned⟩
  · intro k hk
    obtain ⟨hst, hun, hjobs'⟩ := h.queued k (hqueue ▸ .tail _ hk)
    refine ⟨hst, hun, fun t' ht' => ?_⟩
    rcases hphase t' k ht' with ⟨-, rfl⟩ | ⟨-, hold⟩
    · exact hnodup.1 hk
    · exact hjobs' t' hold
  · intro t₁ t₂ k h₁ h₂
    rcases hphase t₁ k h₁ with ⟨ht₁, hid₁⟩ | ⟨-, hold₁⟩
    · rcases hphase t₂ k h₂ with ⟨ht₂, -⟩ | ⟨-, hold₂⟩
      · rw [ht₁, ht₂]
      · exact absurd (hid₁ ▸ hold₂) (hjobs t₂)
    · rcases hphase t₂ k h₂ with ⟨-, hid₂⟩ | ⟨-, hold₂⟩
      · exact absurd (hid₂ ▸ hold₁) (hjobs t₁)
      · exact h.one t₁ t₂ k hold₁ hold₂
  · intro t' k ht'
    rcases hphase t' k ht' with ⟨rfl, rfl⟩ | ⟨hne, hold⟩
    · have hself : (s.goto t' (.checking .first k)).phase t' = .checking .first k := goto_self _ _ _
      show Holds _ ((s.goto t' (.checking .first k)).phase t') _
      rw [hself]
      refine ⟨?_, fun _ => hstarts⟩
      rcases hstatus with hst | hst
      · exact ⟨.pending, hst, rfl⟩
      · exact ⟨.cancelled, hst, rfl⟩
    · have hother : (s.goto t (.checking .first id)).phase t' = s.phase t' := goto_other _ _ hne
      show Holds _ ((s.goto t (.checking .first id)).phase t') _
      rw [hother]
      exact ⟨(h.jobs t' k hold).row, (h.jobs t' k hold).unstarted⟩

/-- An operation is started. -/
theorem launch (h : Inv s) {t id : Nat} (ht : s.phase t = .ready id) :
    Inv { s.goto t (.operating id) with starts := id :: s.starts } := by
  have hjob : (s.phase t).job = some id := by rw [ht]; rfl
  obtain ⟨⟨st, hst, hallows⟩, hun⟩ := h.jobs t id hjob
  have hnew : id ∉ s.starts := hun (by rw [ht]; rfl)
  have hrunning : st = .running := by
    rw [ht] at hallows
    simpa [Phase.allows] using hallows
  have hmoved : Inv (s.goto t (.operating id)) := by
    refine h.move fun k hk => ?_
    rw [← Option.some.inj (hk : some id = some k)]
    exact ⟨hjob, ⟨st, hst, by simp [Phase.allows, hrunning]⟩, fun hop => nomatch hop⟩
  refine ⟨hmoved.rows, ?_, List.nodup_cons.mpr ⟨hnew, h.once⟩, hmoved.queue, ?_, hmoved.one, ?_,
    hmoved.returned⟩
  · intro k hk
    rcases List.mem_cons.mp hk with rfl | hk
    · exact h.rows k (by rw [hst]; simp)
    · exact h.started k hk
  · intro k hk
    obtain ⟨hstatus, hstarts, hjobs⟩ := hmoved.queued k hk
    refine ⟨hstatus, fun hmem => ?_, hjobs⟩
    rcases List.mem_cons.mp hmem with rfl | hmem
    · exact (h.queued k hk).2.2 t hjob
    · exact hstarts hmem
  · intro t' k ht'
    have hholds : Holds (s.goto t (.operating id)) ((s.goto t (.operating id)).phase t') k :=
      hmoved.jobs t' k ht'
    refine ⟨hholds.row, fun hop hmem => ?_⟩
    rcases List.mem_cons.mp hmem with rfl | hmem
    · -- the thread that started it is past the start, and there is no other
      have heq : t' = t := by
        by_contra hne
        have hother : (s.goto t (.operating k)).phase t' = s.phase t' := goto_other _ _ hne
        exact hne (h.one t' t k (hother ▸ ht') hjob)
      subst heq
      rw [show ({ s.goto t' (.operating k) with starts := k :: s.starts } : State).phase t' = _
        from goto_self s t' (.operating k)] at hop
      cases hop
    · exact hholds.unstarted hop hmem

/-- A thread that looks again may find its task cancelled. -/
private theorem allows_of_heeds {p : Phase} {cert : Bool} (h : p.heeds cert = true) :
    p.allows cert .cancelled = true := by
  cases p with
  | checking c id => cases c <;> rfl
  | askKey c id => cases c <;> rfl
  | operating id => simpa [Phase.heeds, Phase.allows] using h
  | commitRunning id => cases h
  | ready id => cases h
  | complete id ok => cases h
  | _ => rfl

/-- A cancellation is committed. -/
theorem cancel (h : Inv s) {t id : Nat} (ht : s.phase t = .cancelCommit id) {st : Status}
    (hrow : s.status id = some st)
    (hheeds : ∀ t', (s.phase t').job = some id → (s.phase t').heeds (s.cert id) = true) :
    Inv { (s.setStatus id .cancelled).goto t .done with returned := id :: s.returned } := by
  have hjob : (s.phase t).job = none := by rw [ht]; rfl
  have hback : ∀ t' k, (((s.setStatus id .cancelled).goto t .done).phase t').job = some k →
      t' ≠ t ∧ (s.phase t').job = some k := by
    intro t' k ht'
    by_cases heq : t' = t
    · subst heq
      rw [goto_self] at ht'
      cases ht'
    · exact ⟨heq, goto_other (s.setStatus id .cancelled) .done heq ▸ ht'⟩
  refine ⟨setStatus_rows h id _, h.started, h.once, h.queue, ?_, ?_, ?_, ?_⟩
  · intro k hk
    obtain ⟨hstatus, hstarts, hjobs⟩ := h.queued k hk
    refine ⟨?_, hstarts, fun t' ht' => hjobs t' (hback t' k ht').2⟩
    by_cases heq : k = id
    · subst heq
      exact .inr (setStatus_self hrow)
    · show (s.setStatus id .cancelled).status k = _ ∨ (s.setStatus id .cancelled).status k = _
      rwa [setStatus_other s _ heq]
  · exact fun t₁ t₂ k h₁ h₂ => h.one t₁ t₂ k (hback t₁ k h₁).2 (hback t₂ k h₂).2
  · intro t' k ht'
    obtain ⟨hne, hold⟩ := hback t' k ht'
    have hother : ((s.setStatus id .cancelled).goto t .done).phase t' = s.phase t' :=
      goto_other _ _ hne
    show Holds _ (((s.setStatus id .cancelled).goto t .done).phase t') k
    rw [hother]
    obtain ⟨⟨st', hst', hallows⟩, hun⟩ := h.jobs t' k hold
    refine ⟨?_, hun⟩
    by_cases heq : k = id
    · subst heq
      exact ⟨.cancelled, setStatus_self hrow, allows_of_heeds (hheeds t' hold)⟩
    · exact ⟨st', (setStatus_other s _ heq).trans hst', hallows⟩
  · intro k hk
    by_cases heq : k = id
    · subst heq
      exact setStatus_self hrow
    · rcases List.mem_cons.mp hk with rfl | hk
      · exact absurd rfl heq
      · exact (setStatus_other s _ heq).trans (h.returned k hk)

/-- A cleanup is committed. -/
theorem reconcile (h : Inv s) (t : Nat) {stale : List Nat} (onDisk : Nat → Bool)
    (hstale : ∀ id ∈ stale, (∀ st, s.status id = some st → st.final = false) ∧ id ∉ s.queue ∧
      ∀ t', (s.phase t').job ≠ some id) : Inv ((s.reconcile stale onDisk).goto t .done) := by
  have hother : ∀ id, id ∉ stale → (s.reconcile stale onDisk).status id = s.status id :=
    fun id hid => if_neg hid
  have hbase : Inv (s.reconcile stale onDisk) := by
    refine ⟨?_, h.started, h.once, h.queue, ?_, h.one, ?_, ?_⟩
    · intro id hid
      refine h.rows id fun hnone => hid ?_
      by_cases hmem : id ∈ stale
      · show (if id ∈ stale then (s.status id).map _ else s.status id) = none
        rw [if_pos hmem, hnone]
        rfl
      · exact (hother id hmem).trans hnone
    · intro id hid
      have hmem : id ∉ stale := fun hmem => (hstale id hmem).2.1 hid
      rw [hother id hmem]
      exact h.queued id hid
    · intro t' id ht'
      have hmem : id ∉ stale := fun hmem => (hstale id hmem).2.2 t' ht'
      obtain ⟨⟨st, hst, hallows⟩, hun⟩ := h.jobs t' id ht'
      exact ⟨⟨st, (hother id hmem).trans hst, hallows⟩, hun⟩
    · intro id hid
      have hcancelled := h.returned id hid
      have hmem : id ∉ stale := fun hmem => nomatch (hstale id hmem).1 _ hcancelled
      exact (hother id hmem).trans hcancelled
  exact hbase.leave t rfl

/-- The threads of a process stop. -/
theorem kill (h : Inv s) (process : Nat) : Inv (s.kill process) := by
  have hback : ∀ t id, ((s.kill process).phase t).job = some id →
      (s.kill process).phase t = s.phase t := by
    intro t id ht
    have hphase : (s.kill process).phase t =
        if s.process t = process ∧ s.phase t ≠ .idle then .done else s.phase t := rfl
    rw [hphase] at ht ⊢
    split at ht
    · cases ht
    · next hcond => rw [if_neg hcond]
  have hold : ∀ t id, ((s.kill process).phase t).job = some id → (s.phase t).job = some id :=
    fun t id ht => hback t id ht ▸ ht
  refine ⟨h.rows, h.started, h.once, h.queue, ?_, ?_, ?_, h.returned⟩
  · intro id hid
    obtain ⟨hstatus, hstarts, hjobs⟩ := h.queued id hid
    exact ⟨hstatus, hstarts, fun t ht => hjobs t (hold t id ht)⟩
  · exact fun t₁ t₂ id h₁ h₂ => h.one t₁ t₂ id (hold t₁ id h₁) (hold t₂ id h₂)
  · intro t id ht
    rw [hback t id ht]
    obtain ⟨hrow, hun⟩ := h.jobs t id (hold t id ht)
    exact ⟨hrow, hun⟩

end Inv

/-- A check is of the task of its thread. -/
private theorem Inv.row_of {s : State} (h : Inv s) {t id : Nat} {p : Phase} (ht : s.phase t = p)
    (hp : p.job = some id) : ∃ st, s.status id = some st ∧ p.allows (s.cert id) st = true ∧
      (p.operated = false → id ∉ s.starts) := by
  obtain ⟨⟨st, hst, hallows⟩, hun⟩ := h.jobs t id (ht ▸ hp)
  exact ⟨st, hst, ht ▸ hallows, fun hop => hun (ht ▸ hop)⟩

/-- A thread moves on in its task, when the row allows it. -/
private theorem Inv.move_to {s : State} (h : Inv s) {t id : Nat} {p q : Phase}
    (ht : s.phase t = p) (hp : p.job = some id) (hq : ∀ k, q.job = some k → k = id)
    (hallows : ∀ st, s.status id = some st → p.allows (s.cert id) st = true →
      q.allows (s.cert id) st = true)
    (hop : q.job = some id → q.operated = false → p.operated = false) : Inv (s.goto t q) := by
  refine h.move fun k hk => ?_
  have hid := hq k hk
  subst hid
  obtain ⟨st, hst, hrow, hun⟩ := h.row_of ht hp
  exact ⟨ht ▸ hp, ⟨st, hst, hallows st hst hrow⟩, fun hqop => hun (hop hk hqop)⟩

/-- **Orderly steps keep the invariant.** -/
theorem step_inv (s : State) (a : Act) (s' : State) (h : Inv s) (horderly : Orderly s a)
    (hstep : step s a = some s') : Inv s' := by
  cases a with
  | queue t process cert =>
      simp only [step] at hstep
      split at hstep <;> cases hstep
      exact (h.insert (t := t) cert).flags s.flags _
  | enqueue t available pushed reported =>
      simp only [step] at hstep
      split at hstep
      · next id ht =>
          split at hstep
          · next hpushed =>
              have hreported : reported = true := (horderly hpushed.1).symm.trans hpushed.2
              subst hreported
              cases hstep
              exact h.push ht
          · split at hstep <;> cases hstep
            · exact h.leave t rfl
            · exact h.move_to ht rfl (fun _ hk => (Option.some.inj hk).symm)
                (fun _ _ hrow => hrow) fun _ _ => rfl
      · cases hstep
  | dequeue t process =>
      simp only [step] at hstep
      split at hstep <;> cases hstep
      next hqueue => exact (h.pop (t := t) hqueue).flags s.flags _
  | checkSet t =>
      simp only [step] at hstep
      split at hstep <;> cases hstep
      next c id ht =>
        split
        · refine h.move_to ht rfl (fun _ hk => (Option.some.inj hk).symm) ?_ fun _ hop => ?_
          · intro st _ hrow
            cases c <;> cases st <;> first | rfl | cases hrow
          · cases c <;> first | rfl | cases hop
        · refine h.move_to ht rfl (fun _ hk => (Option.some.inj hk).symm) ?_ fun _ hop => ?_
          · intro st _ hrow
            cases c <;> exact hrow
          · cases c <;> first | rfl | cases hop
  | checkKey t ok =>
      simp only [step] at hstep
      split at hstep
      · next c id ht =>
          split at hstep <;> cases hstep
          · have hmoved : Inv (s.goto t (.clearSet c id)) := by
              refine h.move_to ht rfl (fun _ hk => (Option.some.inj hk).symm) ?_ fun _ hop => ?_
              · intro st _ hrow
                cases c <;> cases st <;> first | rfl | cases hrow
              · cases c <;> first | rfl | cases hop
            exact hmoved.flags _ s.process
          · next hmissed =>
              -- the flag is not found, so the task is not cancelled
              have hlive : s.status id ≠ some .cancelled := fun hc =>
                hmissed (horderly c id ht hc)
              refine h.move_to ht rfl ?_ ?_ fun _ hop => ?_
              · intro k hk
                cases c <;> exact (Option.some.inj hk).symm
              · intro st hst hrow
                cases c <;> cases st <;> first | rfl | exact absurd hst hlive | cases hrow
              · cases c <;> first | rfl | cases hop
      · cases hstep
  | clearSet t =>
      simp only [step] at hstep
      split at hstep <;> cases hstep
      next c id ht =>
        have hmoved : Inv (s.goto t (.clearKey c id)) := by
          refine h.move_to ht rfl (fun _ hk => (Option.some.inj hk).symm) (fun _ _ hrow => hrow)
            fun _ hop => ?_
          cases c <;> first | rfl | cases hop
        exact hmoved.flags _ s.process
  | clearKey t ok =>
      simp only [step] at hstep
      split at hstep <;> cases hstep
      next c id ht =>
        have hmoved : Inv (s.goto t (c.giveUp id)) := by
          cases c with
          | third ok => exact h.leave t rfl
          | first =>
              refine h.move_to ht rfl (fun _ hk => ?_) (fun _ _ hrow => hrow) fun _ _ => rfl
              exact (Option.some.inj hk).symm
          | second =>
              refine h.move_to ht rfl (fun _ hk => ?_) (fun _ _ hrow => hrow) fun _ _ => rfl
              exact (Option.some.inj hk).symm
        exact hmoved.flags _ s.process
  | commitCancelled t =>
      simp only [step] at hstep
      split at hstep <;> cases hstep
      next id ht =>
        exact h.commit (by rw [ht]; rfl) (fun hp => nomatch hp) (fun _ hk => nomatch hk)
          fun _ => rfl
  | commitRunning t =>
      simp only [step] at hstep
      split at hstep <;> cases hstep
      next id ht =>
        obtain ⟨st, hst, hrow, -⟩ := h.row_of ht rfl
        have hpending : st = .pending := by simpa [Phase.allows] using hrow
        refine h.commit (by rw [ht]; rfl) ?_ ?_ fun hmem => ?_
        · rw [ht]
          cases s.cert id <;> exact fun _ => ⟨rfl, fun _ => rfl⟩
        · cases s.cert id <;> exact fun _ hk => (Option.some.inj hk).symm
        · rw [hpending, h.returned id hmem] at hst
          cases hst
  | start t =>
      simp only [step] at hstep
      split at hstep <;> cases hstep
      next id ht => exact h.launch ht
  | skip t =>
      simp only [step] at hstep
      split at hstep <;> cases hstep
      next id ht =>
        exact h.move_to ht rfl (fun _ hk => (Option.some.inj hk).symm) (fun _ _ hrow => hrow)
          fun _ _ => rfl
  | finish t outcome =>
      simp only [step] at hstep
      split at hstep <;> cases hstep
      next id ht =>
        split
        · next hcert =>
            refine h.move_to ht rfl (fun _ hk => (Option.some.inj hk).symm) ?_
              fun _ hop => nomatch hop
            intro st _ hrow
            rw [hcert.1] at hrow
            cases st <;> first | rfl | cases hrow
        · next hcert =>
            -- without a last look, the task is not cancelled
            refine h.move_to ht rfl (fun _ hk => (Option.some.inj hk).symm) ?_
              fun _ hop => nomatch hop
            intro st hst hrow
            cases hc : s.cert id with
            | false =>
                rw [hc] at hrow
                cases st <;> first | rfl | cases hrow
            | true =>
                have hraised : outcome = .raised := by
                  by_contra hne
                  exact hcert ⟨hc, hne⟩
                subst hraised
                rw [hc] at hrow
                cases st <;> first | rfl | exact absurd hst (horderly id ht) | cases hrow
  | complete t =>
      simp only [step] at hstep
      split at hstep <;> cases hstep
      next id ok ht =>
        obtain ⟨st, hst, hrow, -⟩ := h.row_of ht rfl
        have hrunning : st = .running := by simpa [Phase.allows] using hrow
        refine h.commit (by rw [ht]; rfl) (fun hp => nomatch hp) (fun _ hk => nomatch hk)
          fun hmem => ?_
        rw [hrunning, h.returned id hmem] at hst
        cases hst
  | cancel t process id =>
      simp only [step] at hstep
      split at hstep <;> cases hstep
      exact (h.leave t (p := .cancelKey id) rfl).flags _ _
  | cancelKey t ok =>
      simp only [step] at hstep
      split at hstep <;> cases hstep
      next id ht => exact (h.leave t (p := .cancelRead id) rfl).flags _ s.process
  | cancelRead t =>
      simp only [step] at hstep
      split at hstep <;> cases hstep
      next id ht =>
        split
        · exact h.leave t rfl
        · exact h.leave t rfl
        · exact h.leave t rfl
  | cancelCommit t =>
      simp only [step] at hstep
      split at hstep
      · next id ht =>
          split at hstep <;> cases hstep
          · exact h.leave t rfl
          · next hrow =>
              obtain ⟨st, hst⟩ := Option.ne_none_iff_exists'.mp hrow
              exact h.cancel ht hst (horderly id ht).2.2
      · cases hstep
  | cleanup t process =>
      simp only [step] at hstep
      split at hstep <;> cases hstep
      exact (h.leave t (p := .cleanup s.stale) rfl).flags s.flags _
  | cleanupCommit t onDisk =>
      simp only [step] at hstep
      split at hstep <;> cases hstep
      next stale ht => exact h.reconcile t onDisk (horderly stale ht)
  | restart process =>
      simp only [step] at hstep
      cases hstep
      exact (h.kill process).flags _ s.process
  | expire id =>
      simp only [step] at hstep
      cases hstep
      exact h.flags _ s.process
  | stop t =>
      simp only [step] at hstep
      cases hstep
      exact h.leave t rfl

/-! ### Runs -/

/-- **Final statuses stay.** -/
theorem step_final {s : State} {a : Act} {s' : State} (h : Inv s) (horderly : Orderly s a)
    (hstep : step s a = some s') {id : Nat} {st : Status} (hst : s.status id = some st)
    (hfinal : st.final = true) : s'.status id = some st := by
  -- what a commit may write over a final status is the same
  have hset : ∀ {k : Nat} {st' : Status}, (k = id → st' = st) →
      (s.setStatus k st').status id = some st := by
    intro k st' hsame
    show (if id = k then (s.status id).map fun _ => st' else s.status id) = some st
    by_cases heq : id = k
    · rw [if_pos heq, hst, hsame heq.symm]
      rfl
    · rw [if_neg heq, hst]
  cases a with
  | queue t process cert =>
      simp only [step] at hstep
      split at hstep <;> cases hstep
      have hlt := h.rows id (by rw [hst]; simp)
      exact (Function.update_of_ne (by omega) _ _).trans hst
  | commitCancelled t =>
      simp only [step] at hstep
      split at hstep <;> cases hstep
      next k ht =>
        refine hset fun heq => ?_
        subst heq
        obtain ⟨st', hst', hrow, -⟩ := h.row_of ht rfl
        rw [hst] at hst'
        cases hst'
        cases st with
        | pending => cases hfinal
        | running => cases hfinal
        | success => cases hrow
        | failed => cases hrow
        | cancelled => rfl
  | commitRunning t =>
      simp only [step] at hstep
      split at hstep <;> cases hstep
      next k ht =>
        refine hset fun heq => ?_
        subst heq
        obtain ⟨st', hst', hrow, -⟩ := h.row_of ht rfl
        rw [hst] at hst'
        cases hst'
        cases st with
        | pending => cases hfinal
        | running => cases hfinal
        | success => cases hrow
        | failed => cases hrow
        | cancelled => cases hrow
  | complete t =>
      simp only [step] at hstep
      split at hstep <;> cases hstep
      next k ok ht =>
        refine hset fun heq => ?_
        subst heq
        obtain ⟨st', hst', hrow, -⟩ := h.row_of ht rfl
        rw [hst] at hst'
        cases hst'
        cases st with
        | pending => cases hfinal
        | running => cases hfinal
        | success => cases hrow
        | failed => cases hrow
        | cancelled => cases hrow
  | cancelCommit t =>
      simp only [step] at hstep
      split at hstep
      · next k ht =>
          split at hstep <;> cases hstep
          · exact hst
          · refine hset fun heq => ?_
            subst heq
            obtain ⟨hsuccess, hfailed, -⟩ := horderly k ht
            cases st with
            | pending => cases hfinal
            | running => cases hfinal
            | success => exact absurd hst hsuccess
            | failed => exact absurd hst hfailed
            | cancelled => rfl
      · cases hstep
  | cleanupCommit t onDisk =>
      simp only [step] at hstep
      split at hstep <;> cases hstep
      next stale ht =>
        have hmem : id ∉ stale := by
          intro hmem
          have hopen := (horderly stale ht id hmem).1 st hst
          rw [hfinal] at hopen
          cases hopen
        exact (if_neg hmem : (s.reconcile stale onDisk).status id = s.status id).trans hst
  | _ =>
      -- the other steps leave the table alone
      simp only [step] at hstep
      repeat' split at hstep
      all_goals
        cases hstep
        try exact hst

/-- What was cancelled is remembered. -/
theorem step_returned {s : State} {a : Act} {s' : State} (hstep : step s a = some s') :
    s.returned ⊆ s'.returned := by
  cases a <;> simp only [step] at hstep <;> (repeat' split at hstep) <;> cases hstep <;>
    first | exact List.Subset.refl _ | exact List.subset_cons_self _ _

/-- **What was cancelled is not started.** -/
theorem step_starts {s : State} {a : Act} {s' : State} (h : Inv s) (hstep : step s a = some s')
    {id : Nat} (hid : id ∈ s.returned) : s'.starts.count id = s.starts.count id := by
  cases a with
  | start t =>
      simp only [step] at hstep
      split at hstep <;> cases hstep
      next k ht =>
        obtain ⟨st, hst, hrow, -⟩ := h.row_of ht rfl
        have hne : k ≠ id := by
          intro heq
          subst heq
          rw [h.returned k hid] at hst
          cases hst
          cases hrow
        exact List.count_cons_of_ne hne
  | _ =>
      simp only [step] at hstep
      repeat' split at hstep
      all_goals
        cases hstep
        try rfl

/-- **Tasks, in every orderly run**: no operation is started twice; a status that is final
stays; and once `cancel_task` has returned `True` of a task it is cancelled, and its operation
is not started any more. -/
theorem tasks_lawful {as bs : List Act} {s s' : State}
    (halong : Transition.Along step Orderly start (as ++ bs))
    (hs : Transition.run step start as = some s) (hs' : Transition.run step s bs = some s') :
    s'.starts.Nodup ∧
      (∀ id st, s.status id = some st → st.final = true → s'.status id = some st) ∧
      ∀ id ∈ s.returned, s'.status id = some .cancelled ∧
        s'.starts.count id = s.starts.count id := by
  obtain ⟨hfirst, hthen⟩ := Transition.along_append halong hs
  have hinv : Inv s := Transition.run_invariant step_inv start_inv hfirst hs
  have hinv' : Inv s' := Transition.run_invariant step_inv hinv hthen hs'
  refine ⟨hinv'.once, fun id st hst hfinal => ?_, fun id hid => ?_⟩
  · exact (Transition.run_invariant (I := fun s => Inv s ∧ s.status id = some st)
      (fun s a s' h ho hstep => ⟨step_inv s a s' h.1 ho hstep,
        step_final h.1 ho hstep h.2 hfinal⟩) ⟨hinv, hst⟩ hthen hs').2
  · have hkept := Transition.run_invariant
      (I := fun u => Inv u ∧ id ∈ u.returned ∧ u.starts.count id = s.starts.count id)
      (fun u a u' h ho hstep => ⟨step_inv u a u' h.1 ho hstep, step_returned hstep h.2.1,
        (step_starts h.1 hstep h.2.1).trans h.2.2⟩) ⟨hinv, hid, rfl⟩ hthen hs'
    exact ⟨hinv'.returned id hkept.2.1, hkept.2.2⟩

/-- A task is cancelled while it is queued. -/
def cancelledWhileQueued : List Act :=
  [.queue 0 0 false, .enqueue 0 true true true, .cancel 1 0 0, .cancelKey 1 true, .cancelRead 1,
    .cancelCommit 1]

/-- The worker of another process takes it. -/
def takenAfterwards : List Act :=
  [.dequeue 2 1, .checkSet 2, .checkKey 2 true, .clearSet 2, .clearKey 2 true, .commitCancelled 2]

theorem cancelledWhileQueued_orderly : ∃ s,
    Transition.Along step Orderly start (cancelledWhileQueued ++ takenAfterwards) ∧
      Transition.run step start (cancelledWhileQueued ++ takenAfterwards) = some s := by
  refine ⟨_, Transition.along_run_cons trivial rfl <|
    Transition.along_run_cons (fun _ => rfl) rfl <| Transition.along_run_cons trivial rfl <|
    Transition.along_run_cons trivial rfl <| Transition.along_run_cons trivial rfl <|
    Transition.along_run_cons ?cancel rfl <| Transition.along_run_cons trivial rfl <|
    Transition.along_run_cons trivial rfl <| Transition.along_run_cons ?look rfl <|
    Transition.along_run_cons trivial rfl <| Transition.along_run_cons trivial rfl <|
    Transition.along_run_cons trivial rfl ⟨trivial, rfl⟩⟩
  case cancel =>
    intro id hid
    cases hid
    refine ⟨by decide, by decide, fun t' ht' => ?_⟩
    by_cases h₁ : t' = 1
    · subst h₁
      rfl
    · by_cases h₀ : t' = 0
      · subst h₀
        rfl
      · simp [State.goto, start, h₀, h₁, Phase.heeds]
  case look =>
    intro c id hid _
    cases hid
    exact ⟨rfl, rfl⟩

/-- What is cancelled while it is queued is not started. -/
theorem cancelled_in_time : ∃ s s', Transition.run step start cancelledWhileQueued = some s ∧
    Transition.run step s takenAfterwards = some s' ∧ s'.starts.Nodup ∧
      (∀ id st, s.status id = some st → st.final = true → s'.status id = some st) ∧
      ∀ id ∈ s.returned, s'.status id = some .cancelled ∧
        s'.starts.count id = s.starts.count id := by
  obtain ⟨s', halong, hrun⟩ := cancelledWhileQueued_orderly
  obtain ⟨s, hs, hs'⟩ := Transition.run_append_iff.mp hrun
  exact ⟨s, s', hs, hs', tasks_lawful halong hs hs'⟩

/-! ### Runs that are not orderly -/

/-- A configuration is applied: the worker takes the task and starts it. -/
def applyStarted : List Act :=
  [.queue 0 0 false, .enqueue 0 true true true, .dequeue 1 0, .checkSet 1, .checkKey 1 true,
    .commitRunning 1, .start 1]

/-- It is cancelled while it runs, and completes. -/
def cancelledWhileRunning : List Act :=
  applyStarted ++ [.cancel 2 0 0, .cancelKey 2 true, .cancelRead 2, .cancelCommit 2,
    .finish 1 .ok, .complete 1]

/-- It is cancelled after the worker looked, and before it is started. -/
def cancelledAfterCheck : List Act :=
  [.queue 0 0 false, .enqueue 0 true true true, .dequeue 1 0, .checkSet 1, .checkKey 1 true,
    .cancel 2 0 0, .cancelKey 2 true, .cancelRead 2, .cancelCommit 2, .commitRunning 1, .start 1]

/-- The process is restarted while a task is queued; its successor finishes what it finds
open, and takes the item from the queue. -/
def restartedWhileQueued : List Act :=
  [.queue 0 0 false, .enqueue 0 true true true, .restart 0, .cleanup 1 1,
    .cleanupCommit 1 fun _ => false]

/-- The worker goes on with it. -/
def queuedAfterRestart : List Act :=
  [.dequeue 2 1, .checkSet 2, .checkKey 2 true, .commitRunning 2, .start 2, .finish 2 .ok,
    .complete 2]

/-- The answer to `LPUSH` is lost, so the task is run by the process as well. -/
def pushedUnawares : List Act :=
  [.queue 0 0 false, .enqueue 0 true true false, .checkSet 0, .checkKey 0 true, .commitRunning 0,
    .start 0, .finish 0 .ok, .complete 0, .dequeue 1 0, .checkSet 1, .checkKey 1 true,
    .commitRunning 1, .start 1]

/-- **The four ways out of order**: a cancelled task ends in `success`; a cancelled task is
started; a failed task is run to `success`; and a task is started twice. -/
theorem tasks_unlawful :
    ((Transition.run step start cancelledWhileRunning).map fun s => (s.returned, s.status 0)) =
        some ([0], some .success) ∧
      ((Transition.run step start cancelledAfterCheck).map fun s => (s.returned, s.starts)) =
        some ([0], [0]) ∧
      ((Transition.run step start restartedWhileQueued).map fun s => s.status 0) =
        some (some .failed) ∧
      ((Transition.run step start (restartedWhileQueued ++ queuedAfterRestart)).map fun s =>
        (s.status 0, s.starts)) = some (some .success, [0]) ∧
      ((Transition.run step start pushedUnawares).map fun s => s.starts) = some [0, 0] := by
  decide

end CorexManager.Tasks
