import CorexManager.HAProxy.Guards

/-!
# Directives

The directives a section runs on a request: its `http-request` rules, Lua actions
that assign what they like (`scripts`), and the removal of variables.

A directive under a guard fires when the guard holds (`fires_guard`); what named ACLs
say does not change while the directives only assign variables, if the ACLs read
something else (`declared_congr`).
-/

namespace HAProxy

open Data

/-- A directive that runs on requests. -/
inductive Directive where
  | rule (r : Rule)
  /-- A Lua action. -/
  | script (call : Text) (cond : Cond)
  | unsetVar (name : Text) (cond : Cond)
  deriving DecidableEq, Repr

namespace Directive

/-- Under what the directive fires. -/
def cond : Directive → Cond
  | rule r => r.cond
  | script _ c => c
  | unsetVar _ c => c

/-- The directive fires. -/
def fires (E : Engine) (acls : List (Text × Acl)) (t : Txn) (d : Directive) : Bool :=
  Rule.fires E acls t ⟨.stop .allow, d.cond⟩

/-- The verdict of a directive. -/
def verdict : Directive → Option Verdict
  | rule r => r.action.verdict
  | _ => none

end Directive

/-- Remove a variable. -/
def Txn.unsetVar (t : Txn) (name : Text) : Txn :=
  { t with vars := fun n => if n = name then none else t.vars n }

/-- The state after a directive. -/
def Txn.perform (scripts : Text → Txn → Txn) : Directive → Txn → Txn
  | .rule r, t => t.apply r.action
  | .script call _, t => scripts call t
  | .unsetVar name _, t => t.unsetVar name

/-- **The directives of a section**, run in order. -/
def directives (E : Engine) (acls : List (Text × Acl)) (scripts : Text → Txn → Txn) :
    RuleChain.Machine Txn Directive Verdict where
  fires t d := d.fires E acls t
  effect d := Txn.perform scripts d
  verdict := Directive.verdict

/-- `set-var(name) expr if guard`. -/
def setVarIf (name expr : Text) (gs : List Guard) : Directive :=
  .rule ⟨.setVar name expr, .when (guardText gs)⟩

/-- `deny args if guard`. -/
def denyIf (args : Text) (gs : List Guard) : Directive :=
  .rule ⟨.stop (.deny args), .when (guardText gs)⟩

section Fires

variable {E : Engine} {acls : List (Text × Acl)} {scripts : Text → Txn → Txn} {t : Txn}

/-- **A directive under a guard** fires when the guard holds. -/
theorem fires_guard {d : Directive} {gs : List Guard} (hcond : d.cond = .when (guardText gs))
    (hne : gs ≠ []) (h : ∀ g ∈ gs, g.Plain) :
    (directives E acls scripts).fires t d = guardHolds (t.view E acls) t.vars gs := by
  show Rule.fires E acls t ⟨.stop .allow, d.cond⟩ = _
  rw [hcond]
  exact guardText_fires E acls t _ hne h

/-- What a name declared by ACLs says depends on the fetches of these ACLs. -/
theorem declared_congr {samples samples' : Text → List Sample} {name : Text}
    (h : ∀ a ∈ acls, a.1 = name → samples a.2.fetch = samples' a.2.fetch) :
    declared E samples acls name = declared E samples' acls name := by
  unfold declared
  refine Bool.eq_iff_iff.mpr ?_
  rw [List.any_eq_true, List.any_eq_true]
  refine exists_congr fun a => and_congr_right fun ha => ?_
  rw [Bool.and_eq_true, Bool.and_eq_true]
  refine and_congr_right fun hname => ?_
  rw [Acl.eval, Acl.eval, h a ha (beq_iff_eq.mp hname)]

end Fires

/-! ### What a run leaves alone -/

/-- `s` is `t` with variables of `S` changed. -/
structure Txn.SameBut (S : Set Text) (t s : Txn) : Prop where
  headers : s.headers = t.headers
  src : s.src = t.src
  convert : s.convert = t.convert
  other : s.other = t.other
  vars : ∀ n ∉ S, s.vars n = t.vars n

namespace Txn.SameBut

variable {S : Set Text} {t s r : Txn}

theorem refl (S : Set Text) (t : Txn) : Txn.SameBut S t t := ⟨rfl, rfl, rfl, rfl, fun _ _ => rfl⟩

theorem trans (h : Txn.SameBut S t s) (h' : Txn.SameBut S s r) : Txn.SameBut S t r where
  headers := h'.headers.trans h.headers
  src := h'.src.trans h.src
  convert := h'.convert.trans h.convert
  other := h'.other.trans h.other
  vars n hn := (h'.vars n hn).trans (h.vars n hn)

theorem mono {S' : Set Text} (hS : S ⊆ S') (h : Txn.SameBut S t s) : Txn.SameBut S' t s :=
  { h with vars := fun n hn => h.vars n fun hmem => hn (hS hmem) }

theorem setVar (t : Txn) (name : Text) (v : Option Sample) :
    Txn.SameBut {name} t (t.setVar name v) :=
  ⟨rfl, rfl, rfl, rfl, fun _ hn => Txn.setVar_vars_other t v hn⟩

theorem unsetVar (t : Txn) (name : Text) : Txn.SameBut {name} t (t.unsetVar name) :=
  ⟨rfl, rfl, rfl, rfl, fun _ hn => if_neg hn⟩

/-- Header values do not depend on the variables. -/
theorem samples_hdr (h : Txn.SameBut S t s) {name : Text} (hname : isWord name) :
    s.samples ("req.hdr(".toList ++ (name ++ [')'])) =
      t.samples ("req.hdr(".toList ++ (name ++ [')'])) := by
  rw [Txn.samples_hdr s hname, Txn.samples_hdr t hname, Txn.hdr, Txn.hdr, Txn.fhdr, Txn.fhdr,
    h.headers]

/-- The path does not depend on the variables. -/
theorem samples_path (h : Txn.SameBut S t s) : s.samples "path".toList = t.samples "path".toList := by
  show s.other "path".toList = t.other "path".toList
  rw [h.other]

end Txn.SameBut

/-- What a Lua action may assign. -/
def WritesOnly (writes : Text → Set Text) (scripts : Text → Txn → Txn) : Prop :=
  ∀ call t, Txn.SameBut (writes call) t (scripts call t)

/-- The variables a directive may change. -/
def Directive.assigns (writes : Text → Set Text) : Directive → Set Text
  | .rule ⟨.setVar name _, _⟩ => {name}
  | .rule ⟨.setVarFmt name _, _⟩ => {name}
  | .rule ⟨.lua _ result, _⟩ => {result}
  | .rule _ => ∅
  | .script call _ => writes call
  | .unsetVar name _ => {name}

/-- The directive leaves the source address alone. -/
def Directive.keepsSrc : Directive → Bool
  | .rule ⟨.setSrc _, _⟩ => false
  | _ => true

/-- **A directive** changes the variables it assigns. -/
theorem perform_sameBut {writes : Text → Set Text} {scripts : Text → Txn → Txn}
    (hscripts : WritesOnly writes scripts) {d : Directive} (hd : d.keepsSrc = true) (t : Txn) :
    Txn.SameBut (d.assigns writes) t (Txn.perform scripts d t) := by
  rcases d with ⟨a, c⟩ | ⟨call, c⟩ | ⟨name, c⟩
  · cases a with
    | setVar name expr => exact Txn.SameBut.setVar t name _
    | setVarFmt name fmt => exact Txn.SameBut.setVar t name _
    | setLogLevel level => exact ⟨rfl, rfl, rfl, rfl, fun _ _ => rfl⟩
    | setSrc expr => cases hd
    | lua call result => exact Txn.SameBut.setVar t result _
    | stop v => exact Txn.SameBut.refl _ t
  · exact hscripts call t
  · exact Txn.SameBut.unsetVar t name

/-- **A run** changes the variables its directives assign. -/
theorem run_sameBut {E : Engine} {acls : List (Text × Acl)} {writes : Text → Set Text}
    {scripts : Text → Txn → Txn} (hscripts : WritesOnly writes scripts) {S : Set Text}
    {ds : List Directive} (h : ∀ d ∈ ds, d.keepsSrc = true ∧ d.assigns writes ⊆ S) (t : Txn) :
    Txn.SameBut S t ((directives E acls scripts).run ds t).state := by
  refine (RuleChain.Machine.run_invariant ?_ (Txn.SameBut.refl S t)).1
  intro d hd s hs _
  exact hs.trans ((perform_sameBut hscripts (h d hd).1 s).mono (h d hd).2)

/-! ### Guards that stay -/

/-- The guard says the same whatever the variables of `S` hold. -/
def Stable (E : Engine) (acls : List (Text × Acl)) (S : Set Text) (gs : List Guard) : Prop :=
  ∀ ⦃t s : Txn⦄, Txn.SameBut S t s →
    guardHolds (s.view E acls) s.vars gs = guardHolds (t.view E acls) t.vars gs

namespace Stable

variable {E : Engine} {acls : List (Text × Acl)} {S : Set Text}

theorem append {gs hs : List Guard} (hgs : Stable E acls S gs) (hhs : Stable E acls S hs) :
    Stable E acls S (gs ++ hs) := fun _ _ h => by
  rw [guardHolds_append, guardHolds_append, hgs h, hhs h]

theorem mono {S' : Set Text} (hS : S' ⊆ S) {gs : List Guard} (h : Stable E acls S gs) :
    Stable E acls S' gs := fun _ _ hsame => h (hsame.mono hS)

/-- A test of another variable. -/
theorem test {name : Text} (h : name ∉ S) (neg : Bool) (m : Method) (words : List Text) :
    Stable E acls S [.test neg name m words] := fun t s hsame => by
  simp only [guardHolds_singleton, Guard.truth, Guard.bodyTruth, hsame.vars name h]
  rfl

/-- A named ACL whose fetches do not depend on variables. -/
theorem acl {name : Text}
    (h : ∀ a ∈ acls, a.1 = name → ∀ ⦃t s : Txn⦄, Txn.SameBut S t s →
      s.samples a.2.fetch = t.samples a.2.fetch) (neg : Bool) :
    Stable E acls S [.acl neg name] := fun t s hsame => by
  have hnamed : declared E s.samples acls name = declared E t.samples acls name :=
    declared_congr fun a ha hname => h a ha hname hsame
  simp only [guardHolds_singleton, Guard.truth, Guard.bodyTruth, Txn.view, hnamed]

end Stable

end HAProxy
