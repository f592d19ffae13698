import CorexManager.Frontend.BackendRules
import CorexManager.Security.Correct

/-!
# Restoring the client address

Behind a content delivery network the peer of a connection is an edge, and the
client's address is in a header.  `http-request set-src` puts it back; a guard on the
peer's address is to keep clients from choosing their own.

The guard is text after the condition of a rule, so it binds to the last alternative
of that condition only; it is left out when none of the lists it names exists; and
on the listeners that only redirect it is glued to the brace before it, which makes
it a pattern of the ACL in front.  `setSrc_gated_iff` says for which requests that
matters.
-/

namespace CorexManager.Frontend

open Data
open HAProxy
open Python (UnicodeTables)
open Security (Env ListKind braced resolveListPath)

/-! ### The lines -/

/-- A header name the schema accepts. -/
structure HeaderName where
  text : Text
  nonempty : text ≠ []
  chars : ∀ c ∈ text, (c.isAlphanum || c == '-') = true

/-- `X-Forwarded-For`. -/
def HeaderName.forwardedFor : HeaderName where
  text := "X-Forwarded-For".toList
  nonempty := by decide
  chars := by decide

/-- What a backend says about client addresses. -/
structure CdnBackend where
  restoreClientIp : Bool
  clientIpHeader : Option HeaderName

/-- What the restore rules of a listener are made from. -/
structure RestoreSetup where
  env : Env
  /-- `restore_client_ip_trusted_network_list`. -/
  trustedSetting : Option Text
  tcp : Bool
  forceHttpsRedirect : Bool
  rules : List (BackendRule × CdnBackend)
  default : Option CdnBackend

/-- The path of a network list, if it exists. -/
def networkListPath (env : Env) (name : Text) : Option Text :=
  match resolveListPath env "network".toList name with
  | .ok path => some path
  | .error _ => none

namespace RestoreSetup

/-- The lists the setting names. -/
def trustedNames (s : RestoreSetup) : List Text :=
  (((s.trustedSetting.getD []).splitOn ',').map s.env.unicode.strip).filter (· ≠ [])

/-- The files of those that exist. -/
def trustedPaths (s : RestoreSetup) : List Text :=
  s.trustedNames.filterMap (networkListPath s.env)

/-- `_trusted_src_condition`. -/
def trustedSrcCondition (s : RestoreSetup) : Option Text :=
  if s.trustedPaths = [] then none
  else
    let flags := blankJoin (s.trustedPaths.map fun p => "-f ".toList ++ p)
    some (braced ("src ".toList ++ flags))

/-- `req.hdr_ip(header,1)`. -/
def srcExpr (header : Text) : Text := "req.hdr_ip".toList ++ '(' :: (header ++ [',', '1', ')'])

/-- The header is there. -/
def hdrGuard (header : Text) : Text := braced (srcExpr header ++ " -m found".toList)

/-- The header of a backend. -/
def headerOf (s : RestoreSetup) (b : CdnBackend) : Text :=
  safeToken s.env.unicode (b.clientIpHeader.getD .forwardedFor).text

/-- A `set-src` rule. -/
def setSrcRule (header cond : Text) : Rule := ⟨.setSrc (srcExpr header), .when cond⟩

/-- A blank and the guard, or nothing. -/
def trustedSuffix (s : RestoreSetup) : Text :=
  match s.trustedSrcCondition with
  | some guard => ' ' :: guard
  | none => []

/-- The rules whose backend is behind a network. -/
def cdnRules (s : RestoreSetup) : List (BackendRule × CdnBackend) :=
  s.rules.filter fun r => r.2.restoreClientIp

/-- The default backend, if it is behind a network. -/
def defaultCdn (s : RestoreSetup) : Option CdnBackend :=
  s.default.filter CdnBackend.restoreClientIp

/-- The line of a rule. -/
def ruleLine (s : RestoreSetup) (r : BackendRule × CdnBackend) : Rule :=
  setSrcRule (s.headerOf r.2)
    (r.1.combined ++ ' ' :: (hdrGuard (s.headerOf r.2) ++ s.trustedSuffix))

/-- The line of the default backend. -/
def defaultLine (s : RestoreSetup) (b : CdnBackend) : Rule :=
  setSrcRule (s.headerOf b) (hdrGuard (s.headerOf b) ++ s.trustedSuffix)

/-- `_cdn_restore_client_ip_rules`. -/
def cdnRestoreClientIpRules (s : RestoreSetup) : List Rule :=
  if s.tcp then []
  else s.cdnRules.map s.ruleLine ++ s.defaultCdn.toList.map s.defaultLine

/-- The line of a listener that only redirects. -/
def fallbackLine (s : RestoreSetup) (guard : Text) : Rule :=
  let header := safeToken s.env.unicode HeaderName.forwardedFor.text
  setSrcRule header (hdrGuard header ++ guard)

/-- The restore rules of the frontend. -/
def restoreRules (s : RestoreSetup) : List Rule :=
  if s.cdnRestoreClientIpRules = [] ∧ s.forceHttpsRedirect = true then
    s.trustedSrcCondition.toList.map s.fallbackLine
  else s.cdnRestoreClientIpRules

/-- The peer's address is kept before it is replaced. -/
def stashRule : Rule := ⟨.setVar "txn.orig_src".toList "src".toList, .always⟩

/-- The lines about the client address, after the ACLs of the rules. -/
def lines (s : RestoreSetup) : List Line :=
  s.rules.flatMap (fun r => r.1.acls s.env.unicode) ++
    (if s.restoreRules = [] then [] else stashRule :: s.restoreRules).map .request

/-! ### What they are to mean -/

/-- The peer is in one of the trusted lists. -/
def PeerTrusted (s : RestoreSetup) (E : Engine) (t : Txn) : Prop :=
  ∃ path ∈ s.trustedPaths, ∃ net ∈ E.file path, E.net t.src net = true

/-- **The address is only taken from a header when the peer is trusted.** -/
def Gated (s : RestoreSetup) (E : Engine) (t : Txn) : Prop :=
  ∀ r ∈ (runLines E s.lines t).fired, (∃ e, r.action = .setSrc e) → s.PeerTrusted E t

/-! ### Who gets past the guard -/

variable {s : RestoreSetup} {E : Engine}

/-- The header of a backend is there. -/
def headerFound (t : Txn) (header : Text) : Bool := !(t.samples (srcExpr header)).isEmpty

/-- A rule replaces the address of any peer: an alternative but the last holds, or the
last does and there is no guard. -/
def ruleOpen (s : RestoreSetup) (v : View) (t : Txn) (r : BackendRule × CdnBackend) : Bool :=
  let alts := r.1.alternatives fun i => v.named (aclName r.1.id i)
  alts.1.any (fun b => b) ||
    s.trustedSrcCondition.isNone && (alts.2 && headerFound t (s.headerOf r.2))

/-- **A request whose address is replaced whatever its peer.** -/
def Open (s : RestoreSetup) (E : Engine) (t : Txn) : Prop :=
  let v := t.view E (declaredAcls E s.lines)
  (s.tcp = false ∧ ∃ r ∈ s.cdnRules, s.ruleOpen v t r = true) ∨
  (s.tcp = false ∧ s.trustedSrcCondition = none ∧
    ∃ b, s.defaultCdn = some b ∧ headerFound t (s.headerOf b) = true) ∨
  (s.cdnRestoreClientIpRules = [] ∧ s.forceHttpsRedirect = true ∧
    s.trustedSrcCondition ≠ none ∧
    headerFound t (safeToken s.env.unicode HeaderName.forwardedFor.text) = true)

/-! ### The texts -/

private theorem headerChar_plain (U : UnicodeTables) {c : Char}
    (h : (c.isAlphanum || c == '-') = true) :
    bare c = true ∧ tokenDrops c = false ∧ U.space c = false := by
  have hascii : c.toNat < 128 := by
    simp only [Bool.or_eq_true, beq_iff_eq] at h
    rcases h with h | rfl
    · exact isAlphanum_ascii h
    · decide
  have hchar := ascii_forall (P := fun c => (c.isAlphanum || c == '-') = true →
    bare c = true ∧ tokenDrops c = false ∧ UnicodeTables.ascii.space c = false)
    (by decide) c hascii h
  refine ⟨hchar.1, hchar.2.1, ?_⟩
  have hspace := hchar.2.2
  unfold UnicodeTables.space at hspace ⊢
  rwa [if_pos hascii] at hspace ⊢

/-- A header name is read as it is. -/
private theorem header_bare (U : UnicodeTables) (h : HeaderName) :
    ∀ c ∈ safeToken U h.text, bare c = true := fun c hc =>
  (headerChar_plain U (h.chars c (safeToken_keeps hc).1)).1

private theorem fetchText_srcExpr {header : Text} (h : ∀ c ∈ header, bare c = true) :
    FetchText (srcExpr header) (srcExpr header) := by
  refine FetchText.call (by decide) (by decide) (by decide) (by decide) fun c hc => ?_
  have hback : ∀ c ∈ [',', '1', ')'], bare c = true := by decide
  exact (List.mem_append.mp hc).elim (h c) (hback c)

private theorem tests_hdrGuard {v : View} {header : Text} (h : ∀ c ∈ header, bare c = true) :
    Tests v (hdrGuard header) (!(v.samples (srcExpr header)).isEmpty) :=
  Security.tests_found (fetchText_srcExpr h)

/-- The flags of several pattern files. -/
private theorem parseFlags_files (a : Acl) (paths : List Text) :
    parseFlags a none (paths.flatMap fun p => ["-f".toList, p])
      = some { a with files := a.files ++ paths } := by
  induction paths generalizing a with
  | nil => simp [parseFlags]
  | cons p paths ih =>
      have hstep : parseFlags a none ("-f".toList :: p :: paths.flatMap fun p => ["-f".toList, p])
          = parseFlags { a with files := a.files ++ [p] } none
              (paths.flatMap fun p => ["-f".toList, p]) := by
        simp [parseFlags]
      rw [List.flatMap_cons, List.cons_append, List.cons_append, List.nil_append, hstep, ih]
      simp

/-- The files of the trusted lists are plain words. -/
private theorem trustedPath_spec (hpaths : s.env.PlainPaths) {p : Text}
    (hp : p ∈ s.trustedPaths) : Reads p [p] ∧ Argument p := by
  obtain ⟨name, -, hname⟩ := List.mem_filterMap.mp hp
  unfold networkListPath at hname
  split at hname
  · next path hpath =>
    cases hname
    exact Security.reads_listPath hpaths hpath
  · cases hname

/-- The words of the guard. -/
private theorem guard_words (hpaths : s.env.PlainPaths) (hne : s.trustedPaths ≠ []) :
    Reads ("src ".toList ++ blankJoin (s.trustedPaths.map fun p => "-f ".toList ++ p))
        ("src".toList :: s.trustedPaths.flatMap fun p => ["-f".toList, p]) ∧
      ∀ w ∈ "src".toList :: s.trustedPaths.flatMap fun p => ["-f".toList, p], Argument w := by
  have hflags : Reads (blankJoin (s.trustedPaths.map fun p => "-f ".toList ++ p))
      (s.trustedPaths.flatMap fun p => ["-f".toList, p]) :=
    Reads.blankJoin hne fun p hp =>
      (piece_bare (t := "-f".toList) (by decide) (by decide)).reads.append
        (trustedPath_spec hpaths hp).1
  refine ⟨(piece_bare (t := "src".toList) (by decide) (by decide)).reads.append hflags, ?_⟩
  intro w hw
  rcases List.mem_cons.mp hw with rfl | hw
  · decide
  · obtain ⟨p, hp, hw⟩ := List.mem_flatMap.mp hw
    rcases List.mem_cons.mp hw with rfl | hw
    · decide
    · rw [List.mem_singleton.mp hw]
      exact (trustedPath_spec hpaths hp).2

theorem trustedSrcCondition_some (hne : s.trustedPaths ≠ []) :
    s.trustedSrcCondition = some (braced ("src ".toList ++
      blankJoin (s.trustedPaths.map fun p => "-f ".toList ++ p))) := if_neg hne

theorem trustedSrcCondition_none : s.trustedSrcCondition = none ↔ s.trustedPaths = [] := by
  unfold trustedSrcCondition
  split
  · next h => simp [h]
  · next h => simp [h]

/-- The guard tests the peer. -/
private theorem tests_guard {acls : List (Text × Acl)} {t : Txn} {guard : Text}
    (hpaths : s.env.PlainPaths) (hguard : s.trustedSrcCondition = some guard) :
    Tests (t.view E acls) guard ((s.trustedPaths.flatMap E.file).any (E.net t.src)) := by
  have hne : s.trustedPaths ≠ [] := by
    intro h
    rw [trustedSrcCondition_none.mpr h] at hguard
    cases hguard
  rw [trustedSrcCondition_some hne] at hguard
  cases hguard
  obtain ⟨hread, hwords⟩ := guard_words hpaths hne
  have hacl : parseAcl ("src".toList :: s.trustedPaths.flatMap fun p => ["-f".toList, p])
      = some { fetch := "src".toList, files := s.trustedPaths } := by
    have hplain : derivedFetch "src".toList = ("src".toList, none) := by decide
    simp only [parseAcl, hplain, parseFlags_files, List.nil_append]
  refine ⟨0, _, _, _, rfl, hread, hacl, hwords, ?_⟩
  have hsamples : (t.view E acls).samples "src".toList = [.addr t.src] := t.samples_src
  simp only [Acl.eval, hsamples, List.any_cons, List.any_nil, Bool.or_false, Sample.method,
    Option.getD_none, matchSample, Sample.text, List.append_nil]
  simp [Txn.view]

/-- **The glued guard**: what follows the closing brace is read as patterns of the
test for the header. -/
private theorem tests_glued {v : View} {header guard : Text} (hpaths : s.env.PlainPaths)
    (hheader : ∀ c ∈ header, bare c = true) (hguard : s.trustedSrcCondition = some guard) :
    Tests v (hdrGuard header ++ guard) (!(v.samples (srcExpr header)).isEmpty) := by
  have hne : s.trustedPaths ≠ [] := by
    intro h
    rw [trustedSrcCondition_none.mpr h] at hguard
    cases hguard
  rw [trustedSrcCondition_some hne] at hguard
  cases hguard
  obtain ⟨hread, hwords⟩ := guard_words hpaths hne
  have hargs := (piece_bare (t := ['}', '{']) (by decide) (by decide)).reads.append hread
  have htests := Tests.method (v := v) .found (fetchText_srcExpr hheader) hargs
    (by simp [notFlag]) (by
      intro p hp
      rcases List.mem_append.mp hp with hp | hp
      · rw [List.mem_singleton.mp hp]
        decide
      · exact hwords p hp)
  have hfound : matchSample v.engine .found false (['}', '{'] ::
      "src".toList :: s.trustedPaths.flatMap fun p => ["-f".toList, p]) = fun _ => true := rfl
  rw [List.singleton_append, hfound] at htests
  generalize "src ".toList ++ blankJoin (s.trustedPaths.map fun p => "-f ".toList ++ p) = inner
    at htests ⊢
  have hflag : " -m found".toList = ' ' :: ("-m".toList ++ ' ' :: Method.found.name) := rfl
  have htext : hdrGuard header ++ braced inner = anonText 0 (srcExpr header ++ ' ' ::
      ("-m".toList ++ ' ' :: (Method.found.name ++ ' ' :: (['}', '{'] ++ ' ' :: inner)))) := by
    unfold hdrGuard braced anonText
    rw [hflag]
    simp
  rw [htext]
  have hany : (v.samples (srcExpr header)).any (fun _ => true)
      = !(v.samples (srcExpr header)).isEmpty := by
    cases v.samples (srcExpr header) <;> simp
  rwa [hany] at htests

/-! ### When the lines fire -/

section Lines

variable {acls : List (Text × Acl)} {t : Txn}

/-- The peer is trusted, as a truth value. -/
def trusts (s : RestoreSetup) (E : Engine) (t : Txn) : Bool :=
  (s.trustedPaths.flatMap E.file).any (E.net t.src)

theorem trusts_iff : s.trusts E t = true ↔ s.PeerTrusted E t := by
  simp [trusts, PeerTrusted, List.any_eq_true]

/-- The guard appended to a condition binds to its last alternative. -/
private theorem spelt_guarded (hpaths : s.env.PlainPaths) {header cond : Text} {bs : List Bool}
    {b : Bool} (hheader : ∀ c ∈ header, bare c = true)
    (h : Spelt (t.view E acls) cond (bs ++ [b])) :
    Spelt (t.view E acls) (cond ++ ' ' :: (hdrGuard header ++ s.trustedSuffix))
      (bs ++ [b && (headerFound t header &&
        (s.trustedSrcCondition.isNone || s.trusts E t))]) := by
  have hfound := (tests_hdrGuard (v := t.view E acls) hheader).speltGroup
  refine h.append ?_
  unfold trustedSuffix
  cases hguard : s.trustedSrcCondition with
  | none => simpa [headerFound, Txn.view] using hfound
  | some guard =>
      have htrust : SpeltGroup (t.view E acls) guard _ := (tests_guard hpaths hguard).speltGroup
      simpa [headerFound, Txn.view, trusts] using hfound.append htrust

/-- The line of a rule fires for any peer, or for a trusted one. -/
private theorem ruleLine_fires (hpaths : s.env.PlainPaths) (r : BackendRule × CdnBackend) :
    (s.ruleLine r).fires E acls t = true ↔ s.ruleOpen (t.view E acls) t r = true ∨
      (s.trusts E t = true ∧ (r.1.alternatives fun i =>
          (t.view E acls).named (aclName r.1.id i)).2 = true ∧
        headerFound t (s.headerOf r.2) = true) := by
  have hspelt := spelt_guarded hpaths
    (header_bare s.env.unicode (r.2.clientIpHeader.getD .forwardedFor))
    (combined_spelt (t.view E acls) r.1)
  have hholds : (s.ruleLine r).fires E acls t
      = ((t.view E acls).holds (r.1.combined ++ ' ' ::
          (hdrGuard (s.headerOf r.2) ++ s.trustedSuffix)) == some true) := rfl
  rw [hholds, headerOf, hspelt.holds]
  simp only [ruleOpen, headerOf]
  generalize (r.1.alternatives fun i => (t.view E acls).named (aclName r.1.id i)) = alts
  cases s.trustedSrcCondition.isNone <;> cases s.trusts E t <;> simp

/-- The line of the default backend. -/
private theorem defaultLine_fires (hpaths : s.env.PlainPaths) (b : CdnBackend) :
    (s.defaultLine b).fires E acls t = true ↔ headerFound t (s.headerOf b) = true ∧
      (s.trustedSrcCondition = none ∨ s.trusts E t = true) := by
  have hheader := header_bare s.env.unicode (b.clientIpHeader.getD .forwardedFor)
  have hfound := (tests_hdrGuard (v := t.view E acls) hheader).speltGroup
  have hholds : (s.defaultLine b).fires E acls t
      = ((t.view E acls).holds (hdrGuard (s.headerOf b) ++ s.trustedSuffix) == some true) := rfl
  rw [hholds, headerOf, trustedSuffix]
  cases hguard : s.trustedSrcCondition with
  | none =>
      dsimp only
      rw [List.append_nil, hfound.holds]
      simp [headerFound, Txn.view]
  | some guard =>
      have htrust : SpeltGroup (t.view E acls) guard _ := (tests_guard hpaths hguard).speltGroup
      dsimp only
      rw [(hfound.append htrust).holds]
      simp [headerFound, Txn.view, trusts]

/-- The line of a listener that only redirects asks for the header and nothing else. -/
private theorem fallbackLine_fires (hpaths : s.env.PlainPaths) {guard : Text}
    (hguard : s.trustedSrcCondition = some guard) :
    (s.fallbackLine guard).fires E acls t
      = headerFound t (safeToken s.env.unicode HeaderName.forwardedFor.text) := by
  have hglued := (tests_glued (v := t.view E acls) hpaths
    (header_bare s.env.unicode .forwardedFor) hguard).speltGroup
  have hholds : (s.fallbackLine guard).fires E acls t
      = ((t.view E acls).holds (hdrGuard (safeToken s.env.unicode HeaderName.forwardedFor.text)
          ++ guard) == some true) := rfl
  rw [hholds, hglued.holds]
  cases h : headerFound t (safeToken s.env.unicode HeaderName.forwardedFor.text) with
  | true =>
      have hview : (!((t.view E acls).samples (srcExpr
          (safeToken s.env.unicode HeaderName.forwardedFor.text))).isEmpty) = true := h
      rw [hview]
      rfl
  | false =>
      have hview : (!((t.view E acls).samples (srcExpr
          (safeToken s.env.unicode HeaderName.forwardedFor.text))).isEmpty) = false := h
      rw [hview]
      rfl

end Lines

/-- Every restore rule replaces the address. -/
private theorem restoreRules_setSrc {r : Rule} (h : r ∈ s.restoreRules) :
    ∃ e, r.action = .setSrc e := by
  unfold restoreRules at h
  split at h
  · obtain ⟨guard, -, rfl⟩ := List.mem_map.mp h
    exact ⟨_, rfl⟩
  · unfold cdnRestoreClientIpRules at h
    split at h
    · cases h
    · rcases List.mem_append.mp h with h | h
      · obtain ⟨r, -, rfl⟩ := List.mem_map.mp h
        exact ⟨_, rfl⟩
      · obtain ⟨b, -, rfl⟩ := List.mem_map.mp h
        exact ⟨_, rfl⟩

/-- The lines of the restore rules, from where they come. -/
private theorem mem_restoreRules {r : Rule} : r ∈ s.restoreRules ↔
    (s.tcp = false ∧ ∃ q ∈ s.cdnRules, r = s.ruleLine q) ∨
    (s.tcp = false ∧ ∃ b, s.defaultCdn = some b ∧ r = s.defaultLine b) ∨
    (s.cdnRestoreClientIpRules = [] ∧ s.forceHttpsRedirect = true ∧
      ∃ guard, s.trustedSrcCondition = some guard ∧ r = s.fallbackLine guard) := by
  have hcdn : r ∈ s.cdnRestoreClientIpRules ↔
      (s.tcp = false ∧ ∃ q ∈ s.cdnRules, r = s.ruleLine q) ∨
      (s.tcp = false ∧ ∃ b, s.defaultCdn = some b ∧ r = s.defaultLine b) := by
    unfold cdnRestoreClientIpRules
    cases s.tcp <;> simp [eq_comm]
  unfold restoreRules
  split
  · next h =>
    rw [h.1] at hcdn
    have hnone := fun hor => hcdn.mpr hor
    simp only [List.not_mem_nil] at hnone
    rw [← or_assoc]
    constructor
    · intro hr
      obtain ⟨guard, hguard, rfl⟩ := List.mem_map.mp hr
      exact .inr ⟨h.1, h.2, guard, by simpa using hguard, rfl⟩
    · rintro (hr | ⟨-, -, guard, hguard, rfl⟩)
      · exact absurd hr hnone
      · exact List.mem_map.mpr ⟨guard, by simp [hguard], rfl⟩
  · next h =>
    rw [hcdn, ← or_assoc]
    constructor
    · exact .inl
    · rintro (hr | ⟨hempty, hforce, -⟩)
      · exact hr
      · exact absurd ⟨hempty, hforce⟩ h

/-- **Which requests make some line fire**: the open ones, and of the others only those
of a trusted peer. -/
private theorem fires_iff_open (hpaths : s.env.PlainPaths) {t : Txn} :
    (s.Open E t → ∃ r ∈ s.restoreRules, r.fires E (declaredAcls E s.lines) t = true) ∧
    ((∃ r ∈ s.restoreRules, r.fires E (declaredAcls E s.lines) t = true) →
      s.trusts E t = false → s.Open E t) := by
  constructor
  · rintro (⟨htcp, r, hr, hopen⟩ | ⟨htcp, hguard, b, hb, hfound⟩ | ⟨hempty, hforce, hguard, hfound⟩)
    · exact ⟨_, mem_restoreRules.mpr (.inl ⟨htcp, r, hr, rfl⟩),
        (ruleLine_fires hpaths r).mpr (.inl hopen)⟩
    · exact ⟨_, mem_restoreRules.mpr (.inr (.inl ⟨htcp, b, hb, rfl⟩)),
        (defaultLine_fires hpaths b).mpr ⟨hfound, .inl hguard⟩⟩
    · obtain ⟨guard, hguard⟩ := Option.ne_none_iff_exists'.mp hguard
      exact ⟨_, mem_restoreRules.mpr (.inr (.inr ⟨hempty, hforce, guard, hguard, rfl⟩)),
        (fallbackLine_fires hpaths hguard).trans hfound⟩
  · rintro ⟨r, hr, hfires⟩ htrust
    rcases mem_restoreRules.mp hr with ⟨htcp, q, hq, rfl⟩ | ⟨htcp, b, hb, rfl⟩ |
      ⟨hempty, hforce, guard, hguard, rfl⟩
    · rcases (ruleLine_fires hpaths q).mp hfires with hopen | ⟨hpeer, -⟩
      · exact .inl ⟨htcp, q, hq, hopen⟩
      · rw [htrust] at hpeer
        cases hpeer
    · obtain ⟨hfound, hguard⟩ := (defaultLine_fires hpaths b).mp hfires
      rcases hguard with hguard | hpeer
      · exact .inr (.inl ⟨htcp, hguard, b, hb, hfound⟩)
      · rw [htrust] at hpeer
        cases hpeer
    · rw [fallbackLine_fires hpaths hguard] at hfires
      exact .inr (.inr ⟨hempty, hforce, by simp [hguard], hfires⟩)

/-- The rules of the lines. -/
private theorem rules_lines : s.lines.filterMap Line.rule?
    = if s.restoreRules = [] then [] else stashRule :: s.restoreRules := by
  have hacls : (s.rules.flatMap fun r => r.1.acls s.env.unicode).filterMap Line.rule? = [] := by
    refine List.filterMap_eq_nil_iff.mpr fun l hl => ?_
    obtain ⟨r, -, hl⟩ := List.mem_flatMap.mp hl
    obtain ⟨c, -, rfl⟩ := List.mem_map.mp hl
    rfl
  rw [lines, List.filterMap_append, hacls, List.nil_append, List.filterMap_map]
  exact List.filterMap_some

/-- The state the restore rules run in: the peer's address is kept. -/
def stashed (t : Txn) : Txn := t.setVar "txn.orig_src".toList (some (.addr t.src))

/-- **Whose address is replaced**: on a request, the address is only taken from a
header when the peer is trusted, exactly if the peer is trusted or no line lets
every peer through. -/
theorem setSrc_gated_iff (s : RestoreSetup) (E : Engine) (t : Txn) (hpaths : s.env.PlainPaths) :
    s.Gated E t ↔ s.PeerTrusted E t ∨ ¬ s.Open E (stashed t) := by
  have hopen := fires_iff_open (E := E) (t := stashed t) hpaths
  have hsame : s.trusts E (stashed t) = s.trusts E t := rfl
  have hfired : s.restoreRules ≠ [] → (runLines E s.lines t).fired = stashRule ::
      ((requestRules E (declaredAcls E s.lines)).run s.restoreRules (stashed t)).fired := by
    intro hne
    rw [runLines, rules_lines, if_neg hne, RuleChain.Machine.run_cons_fire rfl rfl]
    rfl
  constructor
  · intro hgated
    refine or_iff_not_imp_left.mpr fun hpeer hreq => ?_
    obtain ⟨r, hr, hfires⟩ := hopen.1 hreq
    have hne : s.restoreRules ≠ [] := List.ne_nil_of_mem hr
    have hsome : ((requestRules E (declaredAcls E s.lines)).run s.restoreRules
        (stashed t)).fired ≠ [] := by
      intro hnil
      have hquiet := RuleChain.Machine.fired_eq_nil hnil r hr
      rw [show (requestRules E (declaredAcls E s.lines)).fires (stashed t) r
        = r.fires E (declaredAcls E s.lines) (stashed t) from rfl, hfires] at hquiet
      cases hquiet
    obtain ⟨q, hq⟩ := List.exists_mem_of_ne_nil _ hsome
    refine hpeer (hgated q ?_ (restoreRules_setSrc (RuleChain.Machine.fired_subset _ _ hq)))
    rw [hfired hne]
    exact List.mem_cons_of_mem _ hq
  · rintro (hpeer | hclosed) q hq hset
    · exact hpeer
    · by_cases hne : s.restoreRules = []
      · rw [runLines, rules_lines, if_pos hne] at hq
        cases hq
      · rw [hfired hne] at hq
        rcases List.mem_cons.mp hq with rfl | hq
        · obtain ⟨e, he⟩ := hset
          cases he
        · by_contra hpeer
          have htrust : s.trusts E (stashed t) = false := by
            rw [hsame]
            exact Bool.eq_false_iff.mpr fun h => hpeer (trusts_iff.mp h)
          rw [RuleChain.Machine.run_quiet fun r hr => Bool.eq_false_iff.mpr fun hfires =>
            hclosed (hopen.2 ⟨r, hr, hfires⟩ htrust)] at hq
          cases hq

/-- A rule for the paths under `/a` or `/b`. -/
def orRule : BackendRule × CdnBackend :=
  ({ id := 1
     priority := 100
     backend := some "cdn_pool".toList
     first := { conditionType := .path, operator := .beg, value := some "/a".toList }
     more := [⟨.path, none, .beg, some "/b".toList, .or⟩] }, ⟨true, none⟩)

/-- The rule, and a trusted list. -/
def orRestore : RestoreSetup where
  env := { Env.plain with lists := [(.network, "cdn".toList)] }
  trustedSetting := some "cdn".toList
  tcp := false
  forceHttpsRedirect := false
  rules := [orRule]
  default := none

/-- A request from outside the list, with a header of its own. -/
def forgedRequest (path : Text) : Txn where
  headers := [("X-Forwarded-For".toList, "10.0.0.1".toList)]
  src := "203.0.113.9".toList
  vars _ := none
  logLevel := none
  convert _ _ := []
  other fetch :=
    if fetch = "path".toList then [.str path]
    else if fetch = srcExpr "X-Forwarded-For".toList then [.addr "10.0.0.1".toList]
    else []

private theorem orRestore_paths : orRestore.env.PlainPaths :=
  ⟨Security.plain_paths.geoDb, Security.plain_paths.asnDb, Security.plain_paths.countryMap,
    Security.plain_paths.asnMap, Security.plain_paths.listsDir⟩

/-- The guard protects the last alternative. -/
theorem setSrc_gated_last : orRestore.Gated .simple (forgedRequest "/b/x".toList) := by
  refine (setSrc_gated_iff orRestore .simple (forgedRequest "/b/x".toList)
    orRestore_paths).mpr (.inr ?_)
  rintro (⟨-, r, hr, hopen⟩ | ⟨-, -, b, hb, -⟩ | ⟨-, hforce, -⟩)
  · have hrule : r = orRule := List.mem_singleton.mp hr
    subst hrule
    revert hopen
    decide
  · cases hb
  · cases hforce

/-- **A client chooses its address**: the path `/a` meets the first alternative, which
the guard does not bind to. -/
theorem forged_first_alternative :
    orRestore.trustedNames ≠ [] ∧ ¬ orRestore.Gated .simple (forgedRequest "/a/x".toList) := by
  have hfired : orRestore.ruleLine orRule ∈
      (runLines .simple orRestore.lines (forgedRequest "/a/x".toList)).fired := by
    decide +kernel
  refine ⟨by decide, fun hgated => ?_⟩
  obtain ⟨_, _, _, hnet, -⟩ := hgated _ hfired ⟨_, rfl⟩
  cases hnet

end RestoreSetup

end CorexManager.Frontend
