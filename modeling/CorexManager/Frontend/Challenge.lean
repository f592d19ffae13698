import CorexManager.Frontend.Sanitize
import CorexManager.HAProxy.Directives

/-!
# The challenge

`_emit_challenge_redirect`, the directives that rules of every kind emit when their
action is a challenge: clients that solved one are let through, the others are sent
to the challenge page, and fetches of the cache are left alone.

`emitChallengeRedirect_verdict` says what the directives do to a request when the
condition they are given is a guard.
-/

namespace CorexManager.Frontend

open Data
open HAProxy
open Python (UnicodeTables)

/-- Whether the client has solved a challenge. -/
def cookieValid : Text := "txn.captcha_cookie_valid".toList

/-- Whether the request is a fetch of the cache. -/
def isVarnishFetch : Text := "txn.is_varnish_fetch".toList

/-- The token of the stored challenge. -/
def cidToken : Text := "txn.captcha_cid_token".toList

/-- `!{ var(txn.is_varnish_fetch) -m found }`. -/
def varnishGuard : Guard := (Guard.found isVarnishFetch).not

/-- The rule a challenge is emitted for. -/
structure ChallengeRule where
  id : Int
  kind : Text
  name : Text

/-- The name as an argument: blanks would make it several. -/
def ChallengeRule.safeName (U : UnicodeTables) (r : ChallengeRule) : Text :=
  if r.name = [] then ['-'] else (safeToken U r.name).map fun c => if c = ' ' then '_' else c

/-- The call that stores the context of a challenge. -/
def ChallengeRule.storeCtx (U : UnicodeTables) (r : ChallengeRule) : Text :=
  "captcha_store_ctx ".toList ++ blankJoin [intText r.id, r.kind, r.safeName U]

/-- Where the challenge is. -/
def challengeLocation (url : Text) : Text :=
  "location ".toList ++ url ++ "?cid=%[var(txn.captcha_cid_token)] code 302".toList

/-- The directives between the two that decide. -/
def challengeContext (U : UnicodeTables) (condition : Text) (r : ChallengeRule) :
    List Directive :=
  [.rule ⟨.setVar "txn.captcha_request_id".toList "unique-id".toList, .always⟩,
    .rule ⟨.setVar "txn.captcha_scheme".toList "str(https)".toList, .when "{ ssl_fc }".toList⟩,
    .rule ⟨.setVar "txn.captcha_scheme".toList "str(http)".toList, .unless "{ ssl_fc }".toList⟩,
    .rule ⟨.setVarFmt "txn.captcha_redirect".toList
      "%[var(txn.captcha_scheme)]://%[req.hdr(host)]%[pathq]".toList, .always⟩,
    .script (r.storeCtx U) (.when condition)]

/-- `_emit_challenge_redirect`. -/
def emitChallengeRedirect (U : UnicodeTables) (condition url : Text) (r : ChallengeRule) :
    List Directive :=
  let condition := condition ++ ' ' :: varnishGuard.text
  .rule ⟨.stop .allow, .when ((Guard.found cookieValid).text ++ ' ' :: condition)⟩ ::
    (challengeContext U condition r ++
      [.rule ⟨.stop (.redirect (challengeLocation url)), .when condition⟩])

example : varnishGuard.text = "!{ var(txn.is_varnish_fetch) -m found }".toList := by decide

/-- The variables a challenge assigns. -/
def challengeVars : Set Text :=
  {"txn.captcha_request_id".toList, "txn.captcha_scheme".toList, "txn.captcha_redirect".toList,
    cidToken}

/-- What a challenge does to a request its condition holds of. -/
def challengeOutcome (url : Text) (t : Txn) : Option Verdict :=
  if (t.vars isVarnishFetch).isSome then none
  else if (t.vars cookieValid).isSome then some .allow
  else some (.redirect (challengeLocation url))

theorem cookieValid_plain : isWord cookieValid ∧ ∀ c ∈ cookieValid, bare c = true := by decide

theorem isVarnishFetch_plain : isWord isVarnishFetch ∧ ∀ c ∈ isVarnishFetch, bare c = true := by
  decide

section Run

variable {E : Engine} {acls : List (Text × Acl)} {writes : Text → Set Text}
  {scripts : Text → Txn → Txn}

/-- The directives of a challenge assign its variables only. -/
private theorem challengeContext_assigns (U : UnicodeTables) (condition : Text) (r : ChallengeRule)
    (hctx : writes (r.storeCtx U) ⊆ challengeVars) :
    ∀ d ∈ challengeContext U condition r,
      d.keepsSrc = true ∧ d.assigns writes ⊆ challengeVars := by
  intro d hd
  simp only [challengeContext, List.mem_cons, List.not_mem_nil, or_false] at hd
  rcases hd with rfl | rfl | rfl | rfl | rfl
  · exact ⟨rfl, by simp [Directive.assigns, challengeVars]⟩
  · exact ⟨rfl, by simp [Directive.assigns, challengeVars]⟩
  · exact ⟨rfl, by simp [Directive.assigns, challengeVars]⟩
  · exact ⟨rfl, by simp [Directive.assigns, challengeVars]⟩
  · exact ⟨rfl, hctx⟩

theorem emitChallengeRedirect_assigns (U : UnicodeTables) (condition url : Text) (r : ChallengeRule)
    (hctx : writes (r.storeCtx U) ⊆ challengeVars) :
    ∀ d ∈ emitChallengeRedirect U condition url r,
      d.keepsSrc = true ∧ d.assigns writes ⊆ challengeVars := by
  intro d hd
  rcases List.mem_cons.mp hd with rfl | hd
  · exact ⟨rfl, Set.empty_subset _⟩
  · rcases List.mem_append.mp hd with hd | hd
    · exact challengeContext_assigns U _ r hctx d hd
    · rw [List.mem_singleton.mp hd]
      exact ⟨rfl, Set.empty_subset _⟩

/-- No variable of a challenge is the mark of the cache. -/
private theorem isVarnishFetch_other : isVarnishFetch ∉ challengeVars := by
  simp only [challengeVars, Set.mem_insert_iff, Set.mem_singleton_iff]
  decide

/-- After the first directive of a challenge: the request is redirected when the guard
holds, in whatever state the context leaves it. -/
private theorem challengeTail_verdict (hscripts : WritesOnly writes scripts) (U : UnicodeTables)
    (url : Text) (r : ChallengeRule) (hctx : writes (r.storeCtx U) ⊆ challengeVars)
    {gs : List Guard} (hne : gs ≠ []) (hplain : ∀ g ∈ gs, g.Plain)
    (hstable : Stable E acls challengeVars gs) (t : Txn) :
    ((directives E acls scripts).run (challengeContext U (guardText gs) r ++
      [.rule ⟨.stop (.redirect (challengeLocation url)), .when (guardText gs)⟩]) t).verdict =
        if guardHolds (t.view E acls) t.vars gs then
          some (.redirect (challengeLocation url)) else none := by
  set M := directives E acls scripts with hM
  have hnone : (M.run (challengeContext U (guardText gs) r) t).verdict = none :=
    RuleChain.Machine.run_verdict_none (by simp [hM, challengeContext, directives,
      Directive.verdict, Action.verdict]) t
  have hsame : Txn.SameBut challengeVars t (M.run (challengeContext U (guardText gs) r) t).state :=
    run_sameBut hscripts (challengeContext_assigns U _ r hctx) t
  rw [RuleChain.Machine.run_append_verdict M hnone]
  generalize (M.run (challengeContext U (guardText gs) r) t).state = s at hsame
  have hfires : M.fires s (.rule ⟨.stop (.redirect (challengeLocation url)),
      .when (guardText gs)⟩) = guardHolds (t.view E acls) t.vars gs := by
    rw [hM, fires_guard rfl hne hplain, hstable hsame]
  cases hholds : guardHolds (t.view E acls) t.vars gs with
  | true =>
      rw [RuleChain.Machine.run_cons_stop (hfires.trans hholds) rfl]
      rfl
  | false =>
      rw [RuleChain.Machine.run_cons_skip (hfires.trans hholds)]
      rfl

/-- **What a challenge does** under a guard. -/
theorem emitChallengeRedirect_verdict (hscripts : WritesOnly writes scripts) (U : UnicodeTables)
    (url : Text) (r : ChallengeRule) (hctx : writes (r.storeCtx U) ⊆ challengeVars)
    {gs : List Guard} (hne : gs ≠ []) (hplain : ∀ g ∈ gs, g.Plain)
    (hstable : Stable E acls challengeVars gs) (t : Txn) :
    ((directives E acls scripts).run (emitChallengeRedirect U (guardText gs) url r) t).verdict =
      if guardHolds (t.view E acls) t.vars gs then challengeOutcome url t else none := by
  have hguard : guardText gs ++ ' ' :: varnishGuard.text = guardText (gs ++ [varnishGuard]) :=
    (guardText_concat hne varnishGuard).symm
  have hallow : (Guard.found cookieValid).text ++ ' ' :: guardText (gs ++ [varnishGuard]) =
      guardText (.found cookieValid :: (gs ++ [varnishGuard])) :=
    (guardText_cons (Guard.found cookieValid) (by simp)).symm
  have hplain' : ∀ g ∈ gs ++ [varnishGuard], g.Plain := by
    intro g hg
    rcases List.mem_append.mp hg with hg | hg
    · exact hplain g hg
    · rw [List.mem_singleton.mp hg]
      exact Guard.not_plain (Guard.found_plain isVarnishFetch_plain)
  have hstable' : Stable E acls challengeVars (gs ++ [varnishGuard]) :=
    hstable.append (Stable.test isVarnishFetch_other true _ _)
  have htail := challengeTail_verdict hscripts U url r hctx (by simp) hplain' hstable' t
  simp only [emitChallengeRedirect, hguard, hallow]
  set M := directives E acls scripts with hM
  have hfirst : M.fires t
      (.rule ⟨.stop .allow, .when (guardText (.found cookieValid :: (gs ++ [varnishGuard])))⟩) =
        ((t.vars cookieValid).isSome && guardHolds (t.view E acls) t.vars (gs ++ [varnishGuard])) := by
    rw [hM, fires_guard rfl (by simp) fun g hg => ?_]
    · rw [← Guard.found_truth (t.view E acls)]
      rfl
    · rcases List.mem_cons.mp hg with rfl | hg
      · exact Guard.found_plain cookieValid_plain
      · exact hplain' g hg
  have hvalue : guardHolds (t.view E acls) t.vars (gs ++ [varnishGuard]) =
      (guardHolds (t.view E acls) t.vars gs && !(t.vars isVarnishFetch).isSome) := by
    rw [guardHolds_append, guardHolds_singleton, varnishGuard, Guard.not_truth, Guard.found_truth]
  cases hgs : guardHolds (t.view E acls) t.vars gs with
  | false =>
      rw [hgs, Bool.false_and] at hvalue
      rw [hvalue, Bool.and_false] at hfirst
      rw [RuleChain.Machine.run_cons_skip hfirst, htail, hvalue]
      rfl
  | true =>
      rw [hgs, Bool.true_and] at hvalue
      rw [hvalue] at hfirst htail
      by_cases hfetch : (t.vars isVarnishFetch).isSome = true
      · -- a fetch of the cache: neither directive fires
        rw [hfetch, Bool.not_true, Bool.and_false] at hfirst
        rw [RuleChain.Machine.run_cons_skip hfirst, htail]
        simp [challengeOutcome, hfetch]
      · rw [Bool.not_eq_true] at hfetch
        rw [hfetch, Bool.not_false, Bool.and_true] at hfirst
        by_cases hsolved : (t.vars cookieValid).isSome = true
        · rw [RuleChain.Machine.run_cons_stop (hfirst.trans hsolved) rfl]
          simp [challengeOutcome, hfetch, hsolved]
        · rw [Bool.not_eq_true] at hsolved
          rw [RuleChain.Machine.run_cons_skip (hfirst.trans hsolved), htail]
          simp [challengeOutcome, hfetch, hsolved]

end Run

end CorexManager.Frontend
