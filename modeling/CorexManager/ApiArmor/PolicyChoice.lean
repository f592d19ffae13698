import CorexManager.ApiArmor.Enforcement
import CorexManager.ApiArmor.SchemaGate

/-!
# The choice of the policy

Which policy the directives pass to the body parser, and what is done with a request
whose credentials are refused.

* `listenerSelection_state`, `backendSelection_vars` — what the choice leaves in the
  variables of the transaction.
* `Site.verdict_of_refused` — the failure action a request sees.
* `choiceCorrect_iff` — the policy that is passed applies, that of the backend comes first,
  and the failure action is its own, except in backend scope when the first policy of the
  listener asks for another action than `block`: the default set before the loop keeps the
  loop from setting any other.
-/

namespace CorexManager.ApiArmor

open Data
open HAProxy
open Frontend

namespace ArmorSetup

variable (s : ArmorSetup) {E : Engine} {H : Host}

/-! ### What is chosen -/

/-- Assign the policy. -/
def passPolicy (p : PolicyRow) (t : Txn) : Txn := t.setVar authPolicyId (some (.int p.id))

/-- Assign the failure action. -/
def passAction (f : OnFailure) (t : Txn) : Txn := t.setVar apiAuthOnFailure (some (.str f.text))

private theorem samples_action (t : Txn) (f : OnFailure) :
    t.samples (strExpr f.text) = [.str f.text] :=
  t.samples_str (by cases f <;> decide)

/-- **What the choice leaves**, in listener scope. -/
theorem listenerSelection_state (listener : Int) {t : Txn}
    (happlies : (s.listenerSection listener).applies E t = true) :
    (s.listenerSection listener).chosen E H t = t.setVar authPolicyId
      (some (.int (((s.policies.listenerPolicy listener).map PolicyRow.id).getD 0))) := by
  have hS := s.listenerSection_wellFormed E listener
  have hfires : ((s.listenerSection listener).machine E H).fires t (setVarIf authPolicyId
      (intExpr (((s.policies.listenerPolicy listener).map PolicyRow.id).getD 0))
      s.listenerCondition) = true := hS.fires_alone rfl happlies
  unfold ArmorSection.chosen
  show (((s.listenerSection listener).machine E H).run [_] t).state = _
  rw [RuleChain.Machine.run_cons_fire hfires rfl]
  show t.setVar authPolicyId (t.samples (intExpr _)).head? = _
  rw [intExpr, Txn.samples_int]
  rfl

/-- A request of a listener, before anything is chosen for it. -/
structure FromListener (listener : Int) (t : Txn) : Prop where
  listener : t.vars apiArmorListenerId = some (.int listener)
  policy : t.vars authPolicyId = none
  action : t.vars apiAuthOnFailure = none

private theorem fromListener_truth (v : View) {t : Txn} {listener : Int}
    (h : t.vars apiArmorListenerId = some (.int listener)) (lid : Int) :
    (fromListener lid).truth v t.vars = decide (lid = listener) := by
  rw [fromListener, Guard.intEq_truth, h]
  show (some listener == some lid) = _
  by_cases heq : lid = listener
  · simp [heq]
  · have hne : listener ≠ lid := fun h => heq h.symm
    simp [heq, hne]

/-- One round of the loop: the policy is passed when none was and the listener is the
request's; the failure action is not touched. -/
private theorem pairSelection_state (backend : Int) (x : PolicyRow × Int) {listener : Int} {t : Txn}
    (happlies : (s.backendSection backend).applies E t = true)
    (hlistener : t.vars apiArmorListenerId = some (.int listener))
    (haction : (t.vars apiAuthOnFailure).isSome = true) :
    (((s.backendSection backend).machine E H).run (s.pairSelection x) t).state =
      if t.vars authPolicyId = none ∧ x.2 = listener then passPolicy x.1 t else t := by
  have hS := s.backendSection_wellFormed E backend
  have hplain : ∀ n, (isWord n ∧ ∀ c ∈ n, bare c = true) →
      ∀ g ∈ [(Guard.found n).not, fromListener x.2], g.Plain := by
    intro n hn g hg
    simp only [List.mem_cons, List.not_mem_nil, or_false] at hg
    rcases hg with rfl | rfl
    · exact Guard.not_plain (Guard.found_plain hn)
    · exact fromListener_plain x.2
  have hfires : ∀ (n expr : Text) {r : Txn}, (isWord n ∧ ∀ c ∈ n, bare c = true) →
      (s.backendSection backend).applies E r = true →
      r.vars apiArmorListenerId = some (.int listener) →
      ((s.backendSection backend).machine E H).fires r (setVarIf n expr
        (s.backendCondition ++ [(Guard.found n).not, fromListener x.2])) =
          (!(r.vars n).isSome && decide (x.2 = listener)) := by
    intro n expr r hn happlies hlistener
    refine (hS.fires rfl (hplain n hn) happlies).trans ?_
    simp only [guardHolds, List.all_cons, List.all_nil, Bool.and_true, Guard.not_truth,
      Guard.found_truth, fromListener_truth _ hlistener]
  -- the second directive never fires
  have hsecond : ∀ {r : Txn}, (s.backendSection backend).applies E r = true →
      r.vars apiArmorListenerId = some (.int listener) → (r.vars apiAuthOnFailure).isSome = true →
      ((s.backendSection backend).machine E H).run [setVarIf apiAuthOnFailure
        (strExpr x.1.failureAction.text) (s.backendCondition ++
          [(Guard.found apiAuthOnFailure).not, fromListener x.2])] r = ⟨r, [], none⟩ := by
    intro r happlies hlistener haction
    have hskip := hfires apiAuthOnFailure (strExpr x.1.failureAction.text) (by decide) happlies
      hlistener
    rw [haction] at hskip
    exact RuleChain.Machine.run_cons_skip hskip []
  have hfirst := hfires authPolicyId (intExpr x.1.id) (by decide) happlies hlistener
  unfold pairSelection
  by_cases hpass : t.vars authPolicyId = none ∧ x.2 = listener
  · have hgo : (!(t.vars authPolicyId).isSome && decide (x.2 = listener)) = true := by
      simp [hpass.1, hpass.2]
    rw [if_pos hpass, RuleChain.Machine.run_cons_fire (hfirst.trans hgo) rfl,
      RuleChain.Outcome.after_state]
    have heffect : ((s.backendSection backend).machine E H).effect (setVarIf authPolicyId
        (intExpr x.1.id) (s.backendCondition ++ [(Guard.found authPolicyId).not,
          fromListener x.2])) t = passPolicy x.1 t := by
      show t.setVar authPolicyId (t.samples (intExpr _)).head? = _
      rw [intExpr, Txn.samples_int]
      rfl
    have hsame : Txn.SameBut {authPolicyId} t (passPolicy x.1 t) := Txn.SameBut.setVar t _ _
    have hkeep := hS.applies_sameBut
      (hsame.mono (Set.singleton_subset_iff.mpr authPolicyId_mem)) happlies
    rw [heffect, hsecond hkeep]
    · rw [hsame.vars _ (by rw [Set.mem_singleton_iff]; decide), hlistener]
    · rw [hsame.vars _ (by rw [Set.mem_singleton_iff]; decide), haction]
  · have hskip : (!(t.vars authPolicyId).isSome && decide (x.2 = listener)) = false := by
      rw [Bool.and_eq_false_iff, Bool.not_eq_false', decide_eq_false_iff_not,
        Option.isSome_iff_ne_none]
      exact not_and_or.mp hpass
    rw [if_neg hpass, RuleChain.Machine.run_cons_skip (hfirst.trans hskip),
      hsecond happlies hlistener haction]

/-- **The loop over the listeners of the policies** passes the first policy that names the
listener, when none was passed before. -/
private theorem pairLoop_state (backend : Int) (xs : List (PolicyRow × Int)) {listener : Int}
    {t : Txn} (happlies : (s.backendSection backend).applies E t = true)
    (hlistener : t.vars apiArmorListenerId = some (.int listener))
    (haction : (t.vars apiAuthOnFailure).isSome = true) :
    (((s.backendSection backend).machine E H).run (xs.flatMap s.pairSelection) t).state =
      if t.vars authPolicyId = none then
        match xs.find? fun x => decide (x.2 = listener) with
        | none => t
        | some x => passPolicy x.1 t
      else t := by
  have hS := s.backendSection_wellFormed E backend
  induction xs generalizing t with
  | nil => exact (ite_self t).symm
  | cons x xs ih =>
      have hnone : (((s.backendSection backend).machine E H).run (s.pairSelection x) t).verdict =
          none :=
        RuleChain.Machine.run_verdict_none (by simp [pairSelection, ArmorSection.machine,
          directives, setVarIf, Directive.verdict, Action.verdict]) t
      rw [List.flatMap_cons, RuleChain.Machine.run_append_state _ hnone,
        s.pairSelection_state backend x happlies hlistener haction]
      by_cases hpass : t.vars authPolicyId = none ∧ x.2 = listener
      · have hsame : Txn.SameBut {authPolicyId} t (passPolicy x.1 t) := Txn.SameBut.setVar t _ _
        have hkeep := hS.applies_sameBut
          (hsame.mono (Set.singleton_subset_iff.mpr authPolicyId_mem)) happlies
        have hpassed : (passPolicy x.1 t).vars authPolicyId ≠ none := by
          rw [passPolicy, Txn.setVar_vars_self]
          exact Option.some_ne_none _
        rw [if_pos hpass, if_pos hpass.1, List.find?_cons_of_pos (by simpa using hpass.2), ih hkeep,
          if_neg hpassed]
        · rw [hsame.vars _ (by rw [Set.mem_singleton_iff]; decide), hlistener]
        · rw [hsame.vars _ (by rw [Set.mem_singleton_iff]; decide), haction]
      · rw [if_neg hpass, ih happlies hlistener haction]
        by_cases hfresh : t.vars authPolicyId = none
        · have hfind : (x :: xs).find? (fun y => decide (y.2 = listener)) =
              xs.find? fun y => decide (y.2 = listener) :=
            List.find?_cons_of_neg (by simpa using fun h => hpass ⟨hfresh, h⟩)
          rw [if_pos hfresh, if_pos hfresh, hfind]
        · rw [if_neg hfresh, if_neg hfresh]

/-- The policy `generate_backend` passes for a request of a listener. -/
def backendChoice (backend listener : Int) : Option PolicyRow :=
  (s.policies.backendPolicy backend).or (s.policies.pairedPolicy listener)

/-- The state after the default and the loop. -/
def afterLoop (listener : Int) (t : Txn) : Txn :=
  match s.policies.pairedPolicy listener with
  | none => passAction .block t
  | some p => passPolicy p (passAction .block t)

private theorem afterLoop_sameBut (listener : Int) (t : Txn) :
    Txn.SameBut {authPolicyId, apiAuthOnFailure} t (s.afterLoop listener t) := by
  have hfirst : Txn.SameBut {authPolicyId, apiAuthOnFailure} t (passAction .block t) :=
    (Txn.SameBut.setVar t _ _).mono (Set.singleton_subset_iff.mpr (.inr rfl))
  unfold afterLoop
  cases s.policies.pairedPolicy listener with
  | none => exact hfirst
  | some p =>
      exact hfirst.trans ((Txn.SameBut.setVar _ _ _).mono (Set.singleton_subset_iff.mpr (.inl rfl)))

private theorem choiceVars_subset : {authPolicyId, apiAuthOnFailure} ⊆ armorVars :=
  fun _ h => .inr h

/-- The default and the loop. -/
private theorem loop_state (backend listener : Int) {t : Txn}
    (happlies : (s.backendSection backend).applies E t = true) (hfrom : FromListener listener t)
    (rest : List Directive) :
    (((s.backendSection backend).machine E H).run (setVarIf apiAuthOnFailure
      (strExpr OnFailure.block.text) (s.backendCondition ++
        [(Guard.found apiAuthOnFailure).not]) ::
          (s.policies.listenerPairs.flatMap s.pairSelection ++ rest)) t).state =
      (((s.backendSection backend).machine E H).run rest (s.afterLoop listener t)).state := by
  have hS := s.backendSection_wellFormed E backend
  have hplain : ∀ g ∈ [(Guard.found apiAuthOnFailure).not], g.Plain := by
    intro g hg
    rw [List.mem_singleton.mp hg]
    exact Guard.not_plain (Guard.found_plain (by decide))
  have hdefault : ((s.backendSection backend).machine E H).fires t (setVarIf apiAuthOnFailure
      (strExpr OnFailure.block.text) (s.backendCondition ++
        [(Guard.found apiAuthOnFailure).not])) = true := by
    refine (hS.fires rfl hplain happlies).trans ?_
    rw [guardHolds_singleton, Guard.not_truth, Guard.found_truth, hfrom.action]
    rfl
  have heffect : ((s.backendSection backend).machine E H).effect (setVarIf apiAuthOnFailure
      (strExpr OnFailure.block.text) (s.backendCondition ++
        [(Guard.found apiAuthOnFailure).not])) t = passAction .block t := by
    show t.setVar apiAuthOnFailure (t.samples (strExpr _)).head? = _
    rw [samples_action]
    rfl
  have hsame : Txn.SameBut {apiAuthOnFailure} t (passAction .block t) := Txn.SameBut.setVar t _ _
  have hkeep := hS.applies_sameBut
    (hsame.mono (Set.singleton_subset_iff.mpr apiAuthOnFailure_mem)) happlies
  have hlistener : (passAction .block t).vars apiArmorListenerId = some (.int listener) := by
    rw [hsame.vars _ (by rw [Set.mem_singleton_iff]; decide), hfrom.listener]
  have hpolicy : (passAction .block t).vars authPolicyId = none := by
    rw [hsame.vars _ (by rw [Set.mem_singleton_iff]; decide), hfrom.policy]
  have haction : ((passAction .block t).vars apiAuthOnFailure).isSome = true := by
    rw [passAction, Txn.setVar_vars_self]
    rfl
  have hnone : (((s.backendSection backend).machine E H).run
      (s.policies.listenerPairs.flatMap s.pairSelection) (passAction .block t)).verdict = none := by
    refine RuleChain.Machine.run_verdict_none (fun d hd => ?_) _
    obtain ⟨x, -, hd⟩ := List.mem_flatMap.mp hd
    simp only [pairSelection, List.mem_cons, List.not_mem_nil, or_false] at hd
    rcases hd with rfl | rfl <;> rfl
  have hloop := s.pairLoop_state (H := H) backend s.policies.listenerPairs hkeep hlistener haction
  rw [if_pos hpolicy] at hloop
  rw [RuleChain.Machine.run_cons_fire hdefault rfl, RuleChain.Outcome.after_state, heffect,
    RuleChain.Machine.run_append_state _ hnone, hloop]
  unfold afterLoop PolicyTable.pairedPolicy
  cases s.policies.listenerPairs.find? fun x => decide (x.2 = listener) <;> rfl

/-- **What the choice leaves**, in backend scope: the failure action is that of the policy
of the backend, and `block` when it has none. -/
theorem backendSelection_vars (backend listener : Int) {t : Txn}
    (happlies : (s.backendSection backend).applies E t = true) (hfrom : FromListener listener t) :
    Txn.SameBut {authPolicyId, apiAuthOnFailure} t ((s.backendSection backend).chosen E H t) ∧
      ((s.backendSection backend).chosen E H t).vars authPolicyId =
        (s.backendChoice backend listener).map (fun p => .int p.id) ∧
      ((s.backendSection backend).chosen E H t).vars apiAuthOnFailure =
        some (.str (s.backendAction backend).text) := by
  have hS := s.backendSection_wellFormed E backend
  have hsame := s.afterLoop_sameBut listener t
  have hkeep := hS.applies_sameBut (hsame.mono choiceVars_subset) happlies
  have hstate := s.loop_state (H := H) backend listener happlies hfrom (s.ownSelection backend)
  unfold ArmorSection.chosen
  have hselection : (s.backendSection backend).selection = s.backendSelection backend := rfl
  rw [hselection, backendSelection, hstate, backendChoice, backendAction, ownSelection]
  cases s.policies.backendPolicy backend with
  | none =>
      refine ⟨hsame, ?_, ?_⟩
      · show (s.afterLoop listener t).vars authPolicyId = _
        unfold afterLoop
        cases s.policies.pairedPolicy listener with
        | none => exact (Txn.setVar_vars_other t _ (by decide)).trans hfrom.policy
        | some p => exact Txn.setVar_vars_self _ _ _
      · show (s.afterLoop listener t).vars apiAuthOnFailure = _
        unfold afterLoop
        cases s.policies.pairedPolicy listener with
        | none => exact Txn.setVar_vars_self _ _ _
        | some p =>
            exact (Txn.setVar_vars_other _ _ (by decide)).trans (Txn.setVar_vars_self _ _ _)
  | some p =>
      have hfires : ∀ {d : Directive} {r : Txn}, d.cond = .when (guardText s.backendCondition) →
          (s.backendSection backend).applies E r = true →
          ((s.backendSection backend).machine E H).fires r d = true :=
        fun hcond h => hS.fires_alone hcond h
      have hpassed : Txn.SameBut {authPolicyId} (s.afterLoop listener t)
          (passPolicy p (s.afterLoop listener t)) := Txn.SameBut.setVar _ _ _
      have hkeep' := hS.applies_sameBut
        (hpassed.mono (Set.singleton_subset_iff.mpr authPolicyId_mem)) hkeep
      have hfirst : ((s.backendSection backend).machine E H).effect
          (setVarIf authPolicyId (intExpr p.id) s.backendCondition) (s.afterLoop listener t) =
            passPolicy p (s.afterLoop listener t) := by
        show (s.afterLoop listener t).setVar authPolicyId
          ((s.afterLoop listener t).samples (intExpr _)).head? = _
        rw [intExpr, Txn.samples_int]
        rfl
      have hsecond : ∀ r : Txn, ((s.backendSection backend).machine E H).effect
          (setVarIf apiAuthOnFailure (strExpr p.failureAction.text) s.backendCondition) r =
            passAction p.failureAction r := by
        intro r
        show r.setVar apiAuthOnFailure (r.samples (strExpr _)).head? = _
        rw [samples_action]
        rfl
      dsimp only
      rw [RuleChain.Machine.run_cons_fire (hfires rfl hkeep) rfl, RuleChain.Outcome.after_state,
        hfirst, RuleChain.Machine.run_cons_fire (hfires rfl hkeep') rfl,
        RuleChain.Outcome.after_state, hsecond]
      refine ⟨?_, ?_, ?_⟩
      · refine (hsame.trans (hpassed.mono (Set.singleton_subset_iff.mpr (.inl rfl)))).trans ?_
        exact (Txn.SameBut.setVar _ _ _).mono (Set.singleton_subset_iff.mpr (.inr rfl))
      · refine (Txn.setVar_vars_other _ _ (by decide)).trans ?_
        exact Txn.setVar_vars_self _ _ _
      · exact Txn.setVar_vars_self _ _ _

end ArmorSetup

/-! ### Where the directives run -/

/-- The section that does the enforcement: the frontend of a listener, or a backend reached
through a listener. -/
inductive Site where
  | listener (listener : Int)
  | backend (backend listener : Int)
  deriving DecidableEq, Repr

namespace Site

/-- Its directives. -/
def armor (s : ArmorSetup) : Site → ArmorSection
  | listener l => s.listenerSection l
  | backend b _ => s.backendSection b

/-- The request meets the condition of the section; in a backend, it carries its listener and
nothing has been chosen for it. -/
def Arrives (s : ArmorSetup) (E : Engine) (t : Txn) : Site → Prop
  | listener l => (s.listenerSection l).applies E t = true
  | backend b l => (s.backendSection b).applies E t = true ∧ ArmorSetup.FromListener l t

/-- The policy that is chosen. -/
def choice (s : ArmorSetup) : Site → Option PolicyRow
  | listener l => s.policies.listenerPolicy l
  | backend b l => s.backendChoice b l

/-- The failure action the section takes. -/
def action (s : ArmorSetup) : Site → Option OnFailure
  | listener l => (s.policies.listenerPolicy l).map PolicyRow.failureAction
  | backend b _ => some (s.backendAction b)

/-- The id that is passed; 0 stands for no policy. -/
def passed (s : ArmorSetup) (E : Engine) (H : Host) (site : Site) (t : Txn) : Int :=
  Host.tgetInt ((site.armor s).chosen E H t) "api_auth_policy_id".toList

variable (s : ArmorSetup) {E : Engine} {H : Host} {t : Txn}

theorem wellFormed (site : Site) : (site.armor s).WellFormed E := by
  cases site with
  | listener l => exact s.listenerSection_wellFormed E l
  | backend b l => exact s.backendSection_wellFormed E b

theorem Arrives.applies {site : Site} (h : site.Arrives s E t) :
    (site.armor s).applies E t = true := by
  cases site with
  | listener l => exact h
  | backend b l => exact h.1

/-- The choice assigns the two variables it is made in. -/
theorem chosen_sameBut {site : Site} (h : site.Arrives s E t) :
    Txn.SameBut {authPolicyId, apiAuthOnFailure} t ((site.armor s).chosen E H t) := by
  cases site with
  | listener l =>
      have hstate := s.listenerSelection_state (H := H) l h
      show Txn.SameBut _ t ((s.listenerSection l).chosen E H t)
      rw [hstate]
      exact (Txn.SameBut.setVar t _ _).mono (Set.singleton_subset_iff.mpr (.inl rfl))
  | backend b l => exact (s.backendSelection_vars b l h.1 h.2).1

/-- **What is passed** is the id of the policy that is chosen. -/
theorem passed_eq {site : Site} (h : site.Arrives s E t) :
    site.passed s E H t = ((site.choice s).map PolicyRow.id).getD 0 := by
  have hname : varName "api_auth_policy_id".toList = authPolicyId := by decide
  cases site with
  | listener l =>
      refine Host.tgetInt_int ?_
      rw [hname]
      show ((s.listenerSection l).chosen E H t).vars authPolicyId = _
      rw [s.listenerSelection_state l h, Txn.setVar_vars_self]
      rfl
  | backend b l =>
      have hvars := (s.backendSelection_vars b l (H := H) h.1 h.2).2.1
      show Host.tgetInt ((s.backendSection b).chosen E H t) "api_auth_policy_id".toList =
        ((s.backendChoice b l).map PolicyRow.id).getD 0
      rw [← hname] at hvars
      cases hchoice : s.backendChoice b l with
      | none =>
          rw [hchoice] at hvars
          exact Host.tgetInt_none hvars
      | some p =>
          rw [hchoice] at hvars
          exact Host.tgetInt_int hvars

/-- The choice is not the end. -/
theorem verdict_eq (site : Site) (t : Txn) :
    (site.armor s).verdict E H t =
      (((site.armor s).machine E H).run (site.armor s).enforcement
        ((site.armor s).chosen E H t)).verdict := by
  refine RuleChain.Machine.run_append_verdict _ (RuleChain.Machine.run_verdict_none ?_ t) _
  intro d hd
  cases site with
  | listener l =>
      rw [List.mem_singleton.mp hd]
      rfl
  | backend b l =>
      rcases List.mem_cons.mp hd with rfl | hd
      · rfl
      · rcases List.mem_append.mp hd with hd | hd
        · obtain ⟨x, -, hd⟩ := List.mem_flatMap.mp hd
          simp only [ArmorSetup.pairSelection, List.mem_cons, List.not_mem_nil, or_false] at hd
          rcases hd with rfl | rfl <;> rfl
        · unfold ArmorSetup.ownSelection at hd
          cases hp : s.policies.backendPolicy b with
          | none =>
              rw [hp] at hd
              exact absurd hd List.not_mem_nil
          | some p =>
              rw [hp] at hd
              simp only [List.mem_cons, List.not_mem_nil, or_false] at hd
              rcases hd with rfl | rfl <;> rfl

/-- What the section does with refused credentials. -/
def actions : Site → List Directive
  | listener l => s.listenerActions l
  | backend b _ => s.backendActions b

theorem enforcement_eq (site : Site) : (site.armor s).enforcement =
    ArmorSetup.parserDirectives (site.armor s).condition ++
      (site.actions s ++ ArmorSetup.closingDirectives (site.armor s).condition) := by
  cases site <;> rfl

/-- The actions assign variables of challenges only. -/
theorem actions_assigns (site : Site) :
    ∀ d ∈ site.actions s, d.keepsSrc = true ∧ d.assigns armorWrites ⊆ challengeVars := by
  intro d hd
  cases site with
  | listener l =>
      have hmem : d ∈ s.listenerActions l := hd
      unfold ArmorSetup.listenerActions at hmem
      cases hp : s.policies.listenerPolicy l with
      | none =>
          rw [hp] at hmem
          exact absurd hmem List.not_mem_nil
      | some p =>
          rw [hp] at hmem
          dsimp only at hmem
          cases hf : p.failureAction with
          | block =>
              rw [hf] at hmem
              rw [List.mem_singleton.mp hmem]
              exact ⟨rfl, Set.empty_subset _⟩
          | challenge =>
              rw [hf] at hmem
              exact s.challengeFor_assigns _ p d hmem
          | logOnly =>
              rw [hf] at hmem
              exact absurd hmem List.not_mem_nil
  | backend b l =>
      rcases List.mem_cons.mp hd with rfl | hd
      · exact ⟨rfl, Set.empty_subset _⟩
      · rcases List.mem_append.mp hd with hd | hd
        · unfold ArmorSetup.ownChallenge at hd
          cases hp : s.policies.backendPolicy b with
          | none =>
              rw [hp] at hd
              exact absurd hd List.not_mem_nil
          | some p =>
              rw [hp] at hd
              dsimp only at hd
              by_cases hf : p.failureAction = .challenge
              · rw [if_pos hf] at hd
                exact s.challengeFor_assigns _ p d hd
              · rw [if_neg hf] at hd
                exact absurd hd List.not_mem_nil
        · obtain ⟨x, -, hd⟩ := List.mem_flatMap.mp hd
          exact s.challengeFor_assigns _ x.1 d hd

/-- The state the actions run in. -/
theorem parsed_sameBut {site : Site} (h : site.Arrives s E t) :
    Txn.SameBut armorVars t (H.parseBodyLua ((site.armor s).chosen E H t)) :=
  ((chosen_sameBut s h).mono fun _ hn => .inr hn).trans
    ((H.parseBodyLua_sameBut _).mono parserVars_subset)

/-- **What the actions do**, in the state the parser leaves. -/
theorem actions_verdict {site : Site} (h : site.Arrives s E t) :
    (((site.armor s).machine E H).run (site.actions s)
      (H.parseBodyLua ((site.armor s).chosen E H t))).verdict =
        (site.action s).bind fun f =>
          s.failureOutcome f (H.parseBodyLua ((site.armor s).chosen E H t)) := by
  have happlies := (wellFormed s site).applies_sameBut (parsed_sameBut (H := H) s h) h.applies
  cases site with
  | listener l =>
      have haction : (Site.listener l).action s =
        (s.policies.listenerPolicy l).map PolicyRow.failureAction := rfl
      refine (s.listenerActions_verdict l happlies).trans ?_
      rw [haction]
      cases s.policies.listenerPolicy l <;> rfl
  | backend b l =>
      refine s.backendActions_verdict b happlies ?_
      have hother : apiAuthOnFailure ∉ parserVars := not_mem_parserVars (by decide)
      rw [(H.parseBodyLua_sameBut _).vars _ hother]
      exact (s.backendSelection_vars b l h.1 h.2).2.2

/-- What a failure action does depends on the request only. -/
theorem outcome_parsed {site : Site} (h : site.Arrives s E t) (f : OnFailure) :
    f.outcome s.challengePage (H.parseBodyLua ((site.armor s).chosen E H t)) =
      f.outcome s.challengePage t := by
  have hsame := parsed_sameBut (H := H) s h
  cases f with
  | block => rfl
  | challenge =>
      show challengeOutcome _ _ = challengeOutcome _ _
      unfold challengeOutcome
      rw [hsame.vars _ isVarnishFetch_armor, hsame.vars _ cookieValid_other]
  | logOnly => rfl

/-- **What happens to a request whose credentials are refused.** -/
theorem verdict_of_refused {site : Site} (h : site.Arrives s E t)
    (hrefused : Refused (H.parseBodyLua ((site.armor s).chosen E H t))) :
    (site.armor s).verdict E H t = (site.action s).bind fun f => f.outcome s.challengePage t := by
  have hkeep := (wellFormed s site).applies_sameBut
    ((chosen_sameBut (H := H) s h).mono fun _ hn => .inr hn) h.applies
  rw [verdict_eq, enforcement_eq, (wellFormed s site).enforcement_verdict (actions_assigns s site)
    hkeep hrefused, actions_verdict s h]
  cases site.action s with
  | none => rfl
  | some f =>
      show s.failureOutcome f _ = f.outcome _ t
      rw [ArmorSetup.failureOutcome, hrefused.credentials, ← outcome_parsed (H := H) s h f]
      rfl

/-- **What gets past the section** has been accepted by the parser, or by the failure
action. -/
theorem accepted_of_passes {site : Site} (h : site.Arrives s E t)
    (hpasses : Passes ((site.armor s).verdict E H t)) {f : OnFailure} (hf : site.action s = some f) :
    ((H.parseBodyLua ((site.armor s).chosen E H t)).vars authValid).any Sample.truthy = true ∨
      Passes (f.outcome s.challengePage t) := by
  have hkeep := (wellFormed s site).applies_sameBut
    ((chosen_sameBut (H := H) s h).mono fun _ hn => .inr hn) h.applies
  rw [verdict_eq, enforcement_eq] at hpasses
  have hactions := (wellFormed s site).actions_pass hkeep hpasses
  rw [actions_verdict s h, hf] at hactions
  by_cases hcred : ((H.parseBodyLua ((site.armor s).chosen E H t)).vars authValid).any
      Sample.truthy = true
  · exact .inl hcred
  · right
    rw [← outcome_parsed (H := H) s h f]
    have houtcome : (some f).bind (fun f =>
        s.failureOutcome f (H.parseBodyLua ((site.armor s).chosen E H t))) =
          f.outcome s.challengePage (H.parseBodyLua ((site.armor s).chosen E H t)) := by
      show s.failureOutcome f _ = _
      rw [ArmorSetup.failureOutcome, if_neg hcred]
    rwa [houtcome] at hactions

end Site

/-! ### The table -/

namespace PolicyTable

variable (T : PolicyTable)

theorem mem_ordered {p : PolicyRow} : p ∈ T.ordered ↔ p ∈ T.inForce := List.mem_mergeSort

/-- A policy in force is known by its key. -/
theorem eq_of_id {p q : PolicyRow} (hp : p ∈ T.inForce) (hq : q ∈ T.inForce) (h : p.id = q.id) :
    p = q :=
  List.inj_on_of_nodup_map T.keys (List.mem_of_mem_filter hp) (List.mem_of_mem_filter hq) h

/-- The loop finds the first policy, by key, that names the listener. -/
theorem pairedPolicy_eq (listener : Int) :
    T.pairedPolicy listener = T.ordered.find? fun p => decide (listener ∈ p.listenerIds) := by
  unfold pairedPolicy listenerPairs
  induction T.ordered with
  | nil => rfl
  | cons p ps ih =>
      rw [List.flatMap_cons, List.find?_append]
      by_cases hmem : listener ∈ p.listenerIds
      · have hfound : ((p.listenerIds.map fun lid => (p, lid)).find?
            fun x => decide (x.2 = listener)) = some (p, listener) := by
          have hsome : ((p.listenerIds.map fun lid => (p, lid)).find?
              fun x => decide (x.2 = listener)).isSome = true :=
            List.find?_isSome.mpr ⟨(p, listener), List.mem_map_of_mem hmem, by simp⟩
          obtain ⟨x, hx⟩ := Option.isSome_iff_exists.mp hsome
          obtain ⟨lid, -, rfl⟩ := List.mem_map.mp (List.mem_of_find?_eq_some hx)
          have hlid : lid = listener := by simpa using List.find?_some hx
          rw [hx, hlid]
        rw [hfound, List.find?_cons_of_pos (by simpa using hmem)]
        rfl
      · have hnone : ((p.listenerIds.map fun lid => (p, lid)).find?
            fun x => decide (x.2 = listener)) = none := by
          refine List.find?_eq_none.mpr fun x hx => ?_
          obtain ⟨lid, hlid, rfl⟩ := List.mem_map.mp hx
          simp only [decide_eq_true_eq]
          rintro rfl
          exact hmem hlid
        have hskip : (p :: ps).find? (fun p => decide (listener ∈ p.listenerIds)) =
            ps.find? fun p => decide (listener ∈ p.listenerIds) :=
          List.find?_cons_of_neg (by simpa using hmem)
        rw [hnone, Option.none_or, ih, hskip]

theorem listenerPolicy_mem {listener : Int} {p : PolicyRow}
    (h : T.listenerPolicy listener = some p) : p ∈ T.inForce ∧ listener ∈ p.listenerIds :=
  ⟨List.mem_of_find?_eq_some h, by simpa using List.find?_some h⟩

theorem backendPolicy_mem {backend : Int} {p : PolicyRow}
    (h : T.backendPolicy backend = some p) : p ∈ T.inForce ∧ backend ∈ p.backendIds :=
  ⟨T.mem_ordered.mp (List.mem_of_find?_eq_some h), by simpa using List.find?_some h⟩

theorem pairedPolicy_mem {listener : Int} {p : PolicyRow}
    (h : T.pairedPolicy listener = some p) : p ∈ T.inForce ∧ listener ∈ p.listenerIds := by
  rw [pairedPolicy_eq] at h
  exact ⟨T.mem_ordered.mp (List.mem_of_find?_eq_some h), by simpa using List.find?_some h⟩

/-- A backend without a policy of its own is named by none. -/
theorem backendPolicy_none {backend : Int} (h : T.backendPolicy backend = none) :
    ∀ p ∈ T.inForce, backend ∉ p.backendIds := by
  intro p hp hmem
  have hskip := List.find?_eq_none.mp h p (T.mem_ordered.mpr hp)
  simp [hmem] at hskip

end PolicyTable

/-! ### The choice is right -/

/-- The policy applies: it names the listener, or all of them by naming none, or the
backend. -/
def PolicyRow.AppliesTo (p : PolicyRow) : Site → Prop
  | .listener l => p.listenerIds = [] ∨ l ∈ p.listenerIds
  | .backend b l => p.listenerIds = [] ∨ l ∈ p.listenerIds ∨ b ∈ p.backendIds

/-- **The choice is right** for a request, whatever surrounds the parser: a policy that is
passed applies, one of the backend's own goes before one of the listener's, and a request
whose credentials are refused sees the failure action of the policy that was passed. -/
structure ChoiceCorrect (s : ArmorSetup) (E : Engine) (site : Site) (t : Txn) : Prop where
  applies : ∀ H, site.passed s E H t ≠ 0 →
    ∃ p ∈ s.policies.inForce, p.id = site.passed s E H t ∧ p.AppliesTo site
  precedence : ∀ H b l, site = .backend b l → (∃ q ∈ s.policies.inForce, b ∈ q.backendIds) →
    ∃ p ∈ s.policies.inForce, p.id = site.passed s E H t ∧ b ∈ p.backendIds
  action : ∀ H, Refused (H.parseBodyLua ((site.armor s).chosen E H t)) →
    ∀ p ∈ s.policies.inForce, p.id = site.passed s E H t →
      (site.armor s).verdict E H t = p.failureAction.outcome s.challengePage t

/-- The default does not stand in the way: the frontend does the enforcement, or the
backend has a policy of its own, or the first policy of the listener asks to block. -/
def Site.KeepsAction (s : ArmorSetup) : Site → Prop
  | listener _ => True
  | backend b l => (∃ p ∈ s.policies.inForce, b ∈ p.backendIds) ∨
      ∀ p, (s.policies.ordered.find? fun p => decide (l ∈ p.listenerIds)) = some p →
        p.failureAction = .block

/-- Surroundings in which every policy refuses: the bundle has none. -/
def emptyHost : Host where
  utf8 := some
  parseJson _ := none
  parseJson_nil := parseNothing_nil
  printJson _ := []
  debug _ := []
  readFile _ := none
  envVar _ := none
  analyze _ := ⟨[], 0, 0, 0, 0, 0, [], true, []⟩
  validateSchema _ _ := ⟨true, []⟩
  validateJwt _ _ := ⟨false, .null, []⟩
  data := ⟨[], fun _ => none, [], fun _ => none⟩

/-- There the credentials of every request under a policy are refused. -/
theorem emptyHost_refused {t : Txn} (hid : Host.tgetInt t "api_auth_policy_id".toList ≠ 0) :
    Refused (emptyHost.parseBodyLua t) where
  schema := by
    have hname : apiSchemaValid = schemaValidVar := by decide
    have hjson : ∀ contentType, (ParsedBody.parse emptyHost ((emptyHost.body t).getD [])
        contentType).json = none := fun _ => ite_self none
    rw [hname, Host.parseBodyLua_schemaValid, Host.validateBody, hjson]
    rfl
  credentials := by
    rw [← Bool.not_eq_true, emptyHost.parseBodyLua_authValid_iff t hid]
    rintro ⟨policy, hpolicy, -⟩
    cases hpolicy
  profile := by
    have hname : profileAnomaly = varName "api.profile_anomaly".toList := by decide
    rw [hname]
    unfold Host.parseBodyLua
    dsimp only
    rw [tset, Txn.setVar_vars_self]
    rfl

namespace Site

variable (s : ArmorSetup) {E : Engine} {H : Host} {t : Txn}

/-- The policy that is chosen is in force, and names the listener or the backend. -/
theorem choice_mem {site : Site} {p : PolicyRow} (h : site.choice s = some p) :
    p ∈ s.policies.inForce ∧ p.AppliesTo site := by
  cases site with
  | listener l =>
      obtain ⟨hmem, hlisted⟩ := s.policies.listenerPolicy_mem h
      exact ⟨hmem, .inr hlisted⟩
  | backend b l =>
      have hor : (s.policies.backendPolicy b).or (s.policies.pairedPolicy l) = some p := h
      rcases Option.or_eq_some_iff.mp hor with hown | ⟨-, hpaired⟩
      · obtain ⟨hmem, hlisted⟩ := s.policies.backendPolicy_mem hown
        exact ⟨hmem, .inr (.inr hlisted)⟩
      · obtain ⟨hmem, hlisted⟩ := s.policies.pairedPolicy_mem hpaired
        exact ⟨hmem, .inr (.inl hlisted)⟩

/-- A policy in force that is passed is the one that was chosen. -/
theorem choice_of_passed {site : Site} (h : site.Arrives s E t) {p : PolicyRow}
    (hp : p ∈ s.policies.inForce) (hid : p.id = site.passed s E H t) : site.choice s = some p := by
  rw [passed_eq s h] at hid
  cases hchoice : site.choice s with
  | none =>
      rw [hchoice] at hid
      have hpos := p.id_pos
      rw [hid] at hpos
      exact absurd hpos (lt_irrefl 0)
  | some q =>
      rw [hchoice] at hid
      rw [s.policies.eq_of_id hp (choice_mem s hchoice).1 hid]

/-- A policy of the backend is chosen when there is one. -/
theorem choice_own {b l : Int} (h : ∃ q ∈ s.policies.inForce, b ∈ q.backendIds) :
    ∃ p ∈ s.policies.inForce, (backend b l).choice s = some p ∧ b ∈ p.backendIds ∧
      (backend b l).action s = some p.failureAction := by
  cases hown : s.policies.backendPolicy b with
  | none =>
      obtain ⟨q, hq, hmem⟩ := h
      exact absurd hmem (s.policies.backendPolicy_none hown q hq)
  | some p =>
      obtain ⟨hp, hmem⟩ := s.policies.backendPolicy_mem hown
      refine ⟨p, hp, ?_, hmem, ?_⟩
      · show (s.policies.backendPolicy b).or _ = some p
        rw [hown]
        rfl
      · show some (s.backendAction b) = _
        rw [ArmorSetup.backendAction, hown]
        rfl

/-- The failure action of a backend without a policy of its own. -/
theorem action_default {b l : Int} (h : s.policies.backendPolicy b = none) :
    (backend b l).action s = some .block := by
  show some (s.backendAction b) = _
  rw [ArmorSetup.backendAction, h]
  rfl

/-- The action taken is that of the policy chosen, where the default is not in the way. -/
theorem action_of_keeps {site : Site} (hkeeps : site.KeepsAction s) {p : PolicyRow}
    (h : site.choice s = some p) : site.action s = some p.failureAction := by
  cases site with
  | listener l =>
      show (s.policies.listenerPolicy l).map _ = _
      rw [show s.policies.listenerPolicy l = some p from h]
      rfl
  | backend b l =>
      have hor : (s.policies.backendPolicy b).or (s.policies.pairedPolicy l) = some p := h
      rcases Option.or_eq_some_iff.mp hor with hown | ⟨hnone, hpaired⟩
      · obtain ⟨q, -, hq, -, haction⟩ := choice_own s (l := l)
          ⟨p, (s.policies.backendPolicy_mem hown).1, (s.policies.backendPolicy_mem hown).2⟩
        rw [haction, Option.some.inj (hq.symm.trans h)]
      · rw [action_default s hnone]
        rcases hkeeps with ⟨q, hq, hmem⟩ | hblock
        · exact absurd hmem (s.policies.backendPolicy_none hnone q hq)
        · rw [PolicyTable.pairedPolicy_eq] at hpaired
          rw [hblock p hpaired]

end Site

/-- Only `block` denies. -/
theorem OnFailure.eq_block {f : OnFailure} {url : Text} {t : Txn}
    (h : f.outcome url t = OnFailure.block.outcome url t) : f = .block := by
  cases f with
  | block => rfl
  | challenge =>
      have hdeny : challengeOutcome url t = some (.deny "deny_status 401".toList) := h
      unfold challengeOutcome at hdeny
      split_ifs at hdeny
      · cases hdeny
      · cases hdeny
  | logOnly => cases h

/-- **When the choice is right**: exactly when the default does not stand in the way of the
failure action. -/
theorem choiceCorrect_iff (s : ArmorSetup) (E : Engine) (site : Site) (t : Txn)
    (h : site.Arrives s E t) : ChoiceCorrect s E site t ↔ site.KeepsAction s := by
  constructor
  · intro hcorrect
    cases site with
    | listener l => trivial
    | backend b l =>
        by_cases hown : ∃ p ∈ s.policies.inForce, b ∈ p.backendIds
        · exact .inl hown
        · -- the policy of the listener is passed, and the request is denied all the same
          refine .inr fun p hp => ?_
          rw [← PolicyTable.pairedPolicy_eq] at hp
          have hnone : s.policies.backendPolicy b = none := by
            by_contra hsome
            obtain ⟨q, hq⟩ := Option.ne_none_iff_exists'.mp hsome
            exact hown ⟨q, s.policies.backendPolicy_mem hq⟩
          have hchoice : (Site.backend b l).choice s = some p := by
            show (s.policies.backendPolicy b).or _ = some p
            rw [hnone]
            exact hp
          have hid : p.id = (Site.backend b l).passed s E emptyHost t := by
            rw [Site.passed_eq s h, hchoice]
            rfl
          have hrefused := emptyHost_refused (t := ((Site.backend b l).armor s).chosen E emptyHost t)
            (show (Site.backend b l).passed s E emptyHost t ≠ 0 from hid ▸ p.id_pos.ne')
          have haction := hcorrect.action emptyHost hrefused p
            (s.policies.pairedPolicy_mem hp).1 hid
          rw [Site.verdict_of_refused s h hrefused, Site.action_default s hnone] at haction
          exact OnFailure.eq_block haction.symm
  · intro hkeeps
    constructor
    · intro H hpassed
      have heq := Site.passed_eq (H := H) s h
      cases hchoice : site.choice s with
      | none =>
          rw [hchoice] at heq
          exact absurd heq hpassed
      | some p =>
          rw [hchoice] at heq
          obtain ⟨hmem, happlies⟩ := Site.choice_mem s hchoice
          exact ⟨p, hmem, heq.symm, happlies⟩
    · rintro H b l rfl hown
      obtain ⟨p, hp, hchoice, hmem, -⟩ := Site.choice_own s (l := l) hown
      have heq := Site.passed_eq (H := H) s h
      rw [hchoice] at heq
      exact ⟨p, hp, heq.symm, hmem⟩
    · intro H hrefused p hp hid
      have hchoice := Site.choice_of_passed s h hp hid
      rw [Site.verdict_of_refused s h hrefused, Site.action_of_keeps s hkeeps hchoice]
      rfl

/-! ### A policy that only logs -/

/-- A policy of a listener that lets requests pass and logs them. -/
def loggingPolicy : PolicyRow where
  id := 1
  id_pos := by decide
  listenerIds := [1]
  backendIds := []
  authType := some "jwt".toList
  onFailure := some .logOnly
  enabled := true

/-- A configuration with this policy alone. -/
def loggingSetup : ArmorSetup where
  unicode := .ascii
  pathPatterns := []
  challengeUrl := []
  policies := ⟨[loggingPolicy], by simp⟩

/-- A request of the listener, in the backend. -/
def bufferedRequest : Txn where
  headers := []
  src := []
  vars n := if n = apiBody then some (.str []) else if n = apiArmorListenerId then some (.int 1)
    else none
  logLevel := none
  convert _ _ := []
  other _ := []

theorem bufferedRequest_arrives : (Site.backend 2 1).Arrives loggingSetup Engine.simple bufferedRequest :=
  ⟨by decide, by decide, by decide, by decide⟩

theorem loggingSetup_inForce : loggingSetup.policies.inForce = [loggingPolicy] := by decide

theorem loggingSetup_paired : loggingSetup.policies.pairedPolicy 1 = some loggingPolicy := by
  rw [PolicyTable.pairedPolicy_eq, PolicyTable.ordered, loggingSetup_inForce,
    List.mergeSort_singleton]
  decide

theorem loggingSetup_own : loggingSetup.policies.backendPolicy 2 = none := by
  rw [PolicyTable.backendPolicy, PolicyTable.ordered, loggingSetup_inForce,
    List.mergeSort_singleton]
  decide

theorem choiceCorrect_iff_logging :
    ChoiceCorrect loggingSetup Engine.simple (.backend 2 1) bufferedRequest ↔
      (Site.backend 2 1).KeepsAction loggingSetup :=
  choiceCorrect_iff loggingSetup Engine.simple (.backend 2 1) bufferedRequest
    bufferedRequest_arrives

/-- A request a policy would only log is denied. -/
theorem logging_denied : ¬ ∀ (s : ArmorSetup) (E : Engine) (site : Site) (t : Txn),
    site.Arrives s E t → ChoiceCorrect s E site t := by
  intro h
  have hcorrect := h loggingSetup Engine.simple (.backend 2 1) bufferedRequest
    bufferedRequest_arrives
  have hid : loggingPolicy.id =
      (Site.backend 2 1).passed loggingSetup Engine.simple emptyHost bufferedRequest := by
    have hchoice : (Site.backend 2 1).choice loggingSetup = some loggingPolicy := by
      show (loggingSetup.policies.backendPolicy 2).or _ = _
      rw [loggingSetup_own]
      exact loggingSetup_paired
    rw [Site.passed_eq _ bufferedRequest_arrives, hchoice]
    rfl
  have hrefused := emptyHost_refused
    (t := ((Site.backend 2 1).armor loggingSetup).chosen Engine.simple emptyHost bufferedRequest)
    (show (Site.backend 2 1).passed loggingSetup Engine.simple emptyHost bufferedRequest ≠ 0 from
      hid ▸ loggingPolicy.id_pos.ne')
  have haction := hcorrect.action emptyHost hrefused loggingPolicy
    (by rw [loggingSetup_inForce]; exact List.mem_singleton_self _) hid
  rw [Site.verdict_of_refused _ bufferedRequest_arrives hrefused,
    Site.action_default _ loggingSetup_own] at haction
  cases haction

end CorexManager.ApiArmor
