import CorexManager.Frontend.Sanitize
import CorexManager.HAProxy.Transaction

/-!
# The hasher bypass

Requests of the page-protect hasher skip rate limiting, the firewall, the security
rules and the log.  One `acl` line is to recognise them by their user agent and
a secret token; but an `acl` line has one fetch, and what is written as a second
fetch is read as further patterns of the first.
-/

namespace CorexManager.Frontend

open Data
open HAProxy
open Python (UnicodeTables)

/-- The settings of the hasher. -/
structure HasherSettings where
  userAgent : Text
  token : Text
  header : Text
  deriving DecidableEq, Repr

/-- `X-CoreX-Internal`, the default header. -/
def defaultHasherHeader : Text := "X-CoreX-Internal".toList

namespace HasherSettings

/-- The header the token is sent in (`_pp_hdr`). -/
def headerName (s : HasherSettings) : Text :=
  let name := if s.header = [] then defaultHasherHeader else s.header
  let kept := name.filter fun c => c.isAlphanum || c == '_' || c == '-'
  if kept = [] then defaultHasherHeader else kept

end HasherSettings

/-- A value between double quotes. -/
def doubleQuoted (value : Text) : Text := '"' :: (value ++ ['"'])

/-- The name of the ACL. -/
def isPpHasher : Text := "is_pp_hasher".toList

/-- What the `acl` line says after the name. -/
def hasherAcl (userAgent header token : Text) : Text :=
  blankJoin ["req.fhdr(user-agent)".toList, "-m".toList, "str".toList, doubleQuoted userAgent,
    "req.hdr(".toList ++ header ++ [')'], "-m".toList, "str".toList, doubleQuoted token]

/-- The lines of the bypass. -/
def hasherBypass (U : UnicodeTables) (s : HasherSettings) : List Line :=
  let userAgent := safeToken U s.userAgent
  let token := safeToken U s.token
  let set (name : Text) : Line := .request ⟨.setVar name "bool(1)".toList, .when isPpHasher⟩
  if userAgent ≠ [] ∧ token ≠ [] then
    [.acl isPpHasher (hasherAcl userAgent s.headerName token),
      .request ⟨.setLogLevel "silent".toList, .when isPpHasher⟩,
      set "txn.sec.skip_ratelimit".toList,
      set "txn.sec.skip_waf".toList,
      set "txn.sec.done".toList]
  else []

/-- The request carries the user agent, and the token in its header. -/
def HasherSettings.CarriedBy (s : HasherSettings) (t : Txn) : Prop :=
  s.userAgent ∈ t.fhdr "user-agent".toList ∧ s.token ∈ t.hdr s.headerName

/-- **What the bypass promises**: it takes effect only on a request that carries both. -/
def HasherSettings.OnlyForBoth (U : UnicodeTables) (E : Engine) (s : HasherSettings) : Prop :=
  ∀ t, (runLines E (hasherBypass U s) t).fired ≠ [] → s.CarriedBy t

/-- The user agent is read as one pattern. -/
def HasherSettings.PlainAgent (U : UnicodeTables) (s : HasherSettings) : Prop :=
  '"' ∉ safeToken U s.userAgent ∧ notFlag (safeToken U s.userAgent) = true

/-- HAProxy cannot read the token between double quotes. -/
def HasherSettings.BrokenToken (U : UnicodeTables) (E : Engine) (s : HasherSettings) : Prop :=
  words E.expand (doubleQuoted (safeToken U s.token)) = none

variable {U : UnicodeTables} {E : Engine} {s : HasherSettings}

theorem hasherBypass_silent (h : safeToken U s.userAgent = [] ∨ safeToken U s.token = []) :
    hasherBypass U s = [] := by
  refine if_neg fun hboth => ?_
  rcases h with h | h
  · exact hboth.1 h
  · exact hboth.2 h

/-! ### What the line says -/

/-- **The words of the line**: everything after the first pattern is further
patterns. -/
theorem hasherAcl_words {userAgent header token : Text}
    (hagent : Piece (doubleQuoted userAgent) userAgent)
    (hheader : ∀ c ∈ header, bare c = true) :
    words E.expand (hasherAcl userAgent header token)
      = (words E.expand (doubleQuoted token)).map
          (["req.fhdr(user-agent)".toList, "-m".toList, "str".toList, userAgent,
            "req.hdr(".toList ++ header ++ [')'], "-m".toList, "str".toList] ++ ·) := by
  have hword : ∀ w : Text, w ≠ [] ∧ (∀ c ∈ w, bare c = true) → Reads w [w] := fun w h =>
    (piece_bare h.1 h.2).reads
  have hcall : Reads ("req.hdr(".toList ++ header ++ [')'])
      ["req.hdr(".toList ++ header ++ [')']] := by
    refine hword _ ⟨by simp, fun c hc => ?_⟩
    simp only [List.mem_append, List.mem_singleton] at hc
    rcases hc with (hc | hc) | rfl
    · exact (by decide : ∀ c ∈ "req.hdr(".toList, bare c = true) c hc
    · exact hheader c hc
    · decide
  have hfront := (hword "req.fhdr(user-agent)".toList (by decide)).append
    ((hword "-m".toList (by decide)).append ((hword "str".toList (by decide)).append
      (hagent.reads.append (hcall.append ((hword "-m".toList (by decide)).append
        (hword "str".toList (by decide)))))))
  have htext : words E.expand (_ ++ ' ' :: doubleQuoted token) = _ :=
    hfront.words_blank (doubleQuoted token)
  simpa [hasherAcl] using htext

/-- The user agent is one of the patterns. -/
def agentAcl (patterns : List Text) : Acl where
  fetch := "req.fhdr(user-agent)".toList
  method := some .str
  patterns := patterns

/-- The ACL the line declares: one fetch, and the rest of the line as patterns. -/
theorem parseAcl_hasher {userAgent header : Text} {rest : List Text}
    (hflag : notFlag userAgent = true) :
    parseAcl (["req.fhdr(user-agent)".toList, "-m".toList, "str".toList, userAgent,
        "req.hdr(".toList ++ header ++ [')'], "-m".toList, "str".toList] ++ rest)
      = some (agentAcl ([userAgent, "req.hdr(".toList ++ header ++ [')'], "-m".toList,
          "str".toList] ++ rest)) :=
  parseAcl_method (m := .str) (by decide +kernel) (by simpa using hflag)

theorem headerName_bare (s : HasherSettings) : ∀ c ∈ s.headerName, bare c = true := by
  have hkeep : ∀ c : Char, (c.isAlphanum || c == '_' || c == '-') = true → bare c = true := by
    intro c hc
    have hascii : c.toNat < 128 := by
      simp only [Bool.or_eq_true, beq_iff_eq] at hc
      rcases hc with (hc | rfl) | rfl
      · exact isAlphanum_ascii hc
      · decide
      · decide
    exact ascii_forall (P := fun c => (c.isAlphanum || c == '_' || c == '-') = true →
      bare c = true) (by decide +kernel) c hascii hc
  intro c hc
  unfold HasherSettings.headerName at hc
  dsimp only at hc
  generalize (if s.header = [] then defaultHasherHeader else s.header) = name at hc
  split at hc
  · exact hkeep c ((by decide +kernel :
      ∀ c ∈ defaultHasherHeader, (c.isAlphanum || c == '_' || c == '-') = true) c hc)
  · exact hkeep c (List.mem_filter.mp hc).2

/-! ### Whom the line recognises -/

/-- The ACL matches every user agent that is one of its patterns. -/
private theorem agentAcl_eval {t : Txn} {p : Text} {patterns : List Text}
    (hagent : t.fhdr "user-agent".toList = [p]) (hp : p ∈ patterns) :
    (agentAcl patterns).eval E t.samples = true := by
  have hword : "req.fhdr(user-agent)".toList
      = "req.fhdr(".toList ++ ("user-agent".toList ++ [')']) := rfl
  have hsamples : t.samples "req.fhdr(user-agent)".toList = [.str p] := by
    rw [hword, t.samples_fhdr (by decide), hagent]
    rfl
  have hsample : matchSample E .str false patterns (.str p) = true :=
    List.any_eq_true.mpr ⟨p, hp, BEq.rfl⟩
  unfold Acl.eval agentAcl
  dsimp only [Option.getD_some]
  rw [hsamples, List.any_cons]
  simp only [List.flatMap_nil, List.nil_append, hsample, Bool.true_or]

/-- **The line does not mean both**: once it is accepted, a request whose user agent
is the configured one, or `-m`, takes the bypass, whatever else it carries. -/
theorem agent_bypasses {t : Txn} {p : Text} (hplain : s.PlainAgent U)
    (hne : safeToken U s.userAgent ≠ []) (htoken : safeToken U s.token ≠ [])
    (hread : ¬ s.BrokenToken U E) (hagent : t.fhdr "user-agent".toList = [p])
    (hp : p = safeToken U s.userAgent ∨ p = "-m".toList) :
    (runLines E (hasherBypass U s) t).fired ≠ [] := by
  obtain ⟨rest, hrest⟩ := Option.ne_none_iff_exists'.mp hread
  have hwords : words E.expand (hasherAcl _ s.headerName (safeToken U s.token)) = _ :=
    hasherAcl_words (safeToken_quoted hplain.1) (headerName_bare s)
  rw [hrest, Option.map_some] at hwords
  let patterns := [safeToken U s.userAgent, "req.hdr(".toList ++ s.headerName ++ [')'],
    "-m".toList, "str".toList] ++ rest
  have hacl : (isPpHasher, agentAcl patterns) ∈ declaredAcls E (hasherBypass U s) := by
    refine List.mem_filterMap.mpr ⟨.acl isPpHasher
      (hasherAcl (safeToken U s.userAgent) s.headerName (safeToken U s.token)), ?_, ?_⟩
    · rw [hasherBypass, if_pos ⟨hne, htoken⟩]
      exact List.mem_cons_self
    · rw [Line.acl?, hwords, Option.bind_some, parseAcl_hasher hplain.2]
      rfl
  have hmatch : (agentAcl patterns).eval E t.samples = true := by
    refine agentAcl_eval hagent ?_
    rcases hp with rfl | rfl
    · exact List.mem_cons_self
    · exact List.mem_append_left _ (by simp)
  have hdeclared : (t.view E (declaredAcls E (hasherBypass U s))).named isPpHasher = true :=
    List.any_eq_true.mpr ⟨_, hacl, by rw [hmatch, BEq.rfl]; rfl⟩
  have hnamed := (SpeltGroup.named (t.view E (declaredAcls E (hasherBypass U s)))
    (w := isPpHasher) (by decide) (by decide)).holds
  rw [hdeclared] at hnamed
  have hrule : (⟨.setLogLevel "silent".toList, .when isPpHasher⟩ : Rule) ∈
      (hasherBypass U s).filterMap Line.rule? := by
    rw [hasherBypass, if_pos ⟨hne, htoken⟩]
    exact List.mem_cons_self
  intro hquiet
  have hsilent := RuleChain.Machine.fired_eq_nil hquiet _ hrule
  simp [requestRules, Rule.fires, hnamed] at hsilent

/-- A line HAProxy cannot read declares nothing, and nothing fires. -/
private theorem broken_quiet (hagent : s.PlainAgent U) (hbroken : s.BrokenToken U E) (t : Txn) :
    (runLines E (hasherBypass U s) t).fired = [] := by
  by_cases hboth : safeToken U s.userAgent ≠ [] ∧ safeToken U s.token ≠ []
  · have hwords : words E.expand (hasherAcl _ s.headerName (safeToken U s.token)) = _ :=
      hasherAcl_words (safeToken_quoted hagent.1) (headerName_bare s)
    rw [hbroken, Option.map_none] at hwords
    have hacls : declaredAcls E (hasherBypass U s) = [] := by
      rw [hasherBypass, if_pos hboth]
      simp [declaredAcls, Line.acl?, hwords]
    have hnamed := (SpeltGroup.named (t.view E []) (w := isPpHasher) (by decide)
      (by decide)).holds
    have hquiet : ∀ r ∈ (hasherBypass U s).filterMap Line.rule?, r.fires E [] t = false := by
      intro r hr
      have hcond : r.cond = .when isPpHasher := by
        rw [hasherBypass, if_pos hboth] at hr
        simp only [List.filterMap_cons, List.filterMap_nil, Line.rule?, List.mem_cons,
          List.not_mem_nil, or_false] at hr
        rcases hr with rfl | rfl | rfl | rfl <;> rfl
      rw [Rule.fires, hcond]
      dsimp only
      rw [hnamed]
      rfl
    rw [runLines, hacls, RuleChain.Machine.run_quiet hquiet]
  · rw [hasherBypass, if_neg hboth]
    rfl

/-- A request that carries nothing but one user agent. -/
def agentRequest (userAgent : Text) : Txn where
  headers := [("User-Agent".toList, userAgent)]
  src := "203.0.113.9".toList
  vars _ := none
  logLevel := none
  convert _ _ := []
  other _ := []

private theorem agentRequest_fhdr (userAgent : Text) :
    (agentRequest userAgent).fhdr "user-agent".toList = [userAgent] := rfl

/-- A request that carries nothing but `-m` carries no plain user agent. -/
private theorem agentRequest_carries_not (hagent : s.PlainAgent U) :
    ¬ s.CarriedBy (agentRequest "-m".toList) := by
  rintro ⟨hmem, -⟩
  rw [agentRequest_fhdr, List.mem_singleton] at hmem
  have hflag := hagent.2
  rw [hmem] at hflag
  exact absurd hflag (by simp [safeToken, tokenDrops, UnicodeTables.strip,
    UnicodeTables.space, notFlag])

/-- **Whom the bypass recognises**: it is only for requests that carry both the user
agent and the token when nothing is emitted; when the user agent is read as one
pattern, in no other case but that of a line HAProxy refuses. -/
theorem onlyForBoth_iff (U : UnicodeTables) (E : Engine) (s : HasherSettings) :
    (safeToken U s.userAgent = [] ∨ safeToken U s.token = [] → s.OnlyForBoth U E) ∧
    (s.PlainAgent U → (s.OnlyForBoth U E ↔
      safeToken U s.userAgent = [] ∨ safeToken U s.token = [] ∨ s.BrokenToken U E)) := by
  have hsilent : safeToken U s.userAgent = [] ∨ safeToken U s.token = [] →
      s.OnlyForBoth U E := by
    intro h t hfired
    rw [hasherBypass_silent h] at hfired
    exact absurd rfl hfired
  refine ⟨hsilent, fun hagent => ⟨fun honly => ?_, ?_⟩⟩
  · by_contra hcases
    push Not at hcases
    obtain ⟨hne, htoken, hread⟩ := hcases
    exact agentRequest_carries_not hagent (honly (agentRequest "-m".toList)
      (agent_bypasses hagent hne htoken hread (agentRequest_fhdr _) (.inr rfl)))
  · rintro (h | h | h)
    · exact hsilent (.inl h)
    · exact hsilent (.inr h)
    · intro t hfired
      exact absurd (broken_quiet hagent h t) hfired

/-- The settings of the hasher as they are shipped, with a token. -/
def shippedHasher : HasherSettings where
  userAgent := "coreX-Manager-PageProtect/2.0 (https://corex.app/docs/page-protect/)".toList
  token := "s3cret".toList
  header := defaultHasherHeader

/-- **The token is not asked for**: a request that has the user agent and no token
takes the bypass. -/
theorem agentOnly_bypasses :
    (runLines .simple (hasherBypass .ascii shippedHasher)
        (agentRequest shippedHasher.userAgent)).fired ≠ [] ∧
      ¬ shippedHasher.CarriedBy (agentRequest shippedHasher.userAgent) := by
  have hagent : safeToken .ascii shippedHasher.userAgent = shippedHasher.userAgent := by
    decide +kernel
  have htoken : safeToken .ascii shippedHasher.token = "s3cret".toList := by decide +kernel
  have hplain : shippedHasher.PlainAgent .ascii := by
    unfold HasherSettings.PlainAgent
    rw [hagent]
    decide +kernel
  refine ⟨agent_bypasses hplain ?_ ?_ ?_ (agentRequest_fhdr _) (.inl hagent.symm), ?_⟩
  · rw [hagent]
    decide
  · rw [htoken]
    decide
  · rw [HasherSettings.BrokenToken]
    have hpiece : Piece _ (safeToken .ascii shippedHasher.token) := safeToken_quoted (by
      rw [htoken]
      decide)
    rw [doubleQuoted, hpiece.reads.words_eq]
    exact Option.some_ne_none _
  · rintro ⟨-, hmem⟩
    have hnone : (agentRequest shippedHasher.userAgent).hdr shippedHasher.headerName = [] := by
      decide +kernel
    rw [hnone] at hmem
    cases hmem

end CorexManager.Frontend
