import CorexManager.ApiArmor.Authentication
import CorexManager.ApiArmor.Bundle
import CorexManager.Config.ListFiles
import CorexManager.Logic.Transition

/-!
# Lists of API keys

The body parser holds the policies of `auth-policies.json` and the keys of the lists they name.  Both
are loaded by `reload_if_changed`, before every request, but only when the metadata of the policies
have changed: the files of the lists are not looked at.  Every line of a file is a key, the empty one
too, and a request without its header has the empty key.

* `Cache.reloadIfChanged` — the load; `step` — edits of the files, and requests.
* `Safe` — no request that may come next is reported valid with a key that is empty or no entry of
  the file of its list.
* `Announced` — the condition on an edit: no list in force has an empty line, and keys are withdrawn
  only along with policies that are read again.
* `keysSafe_iff` — a run is safe throughout exactly if its edits are announced.
-/

namespace CorexManager.ApiArmor.ApiKeys

open Data
open HAProxy
open CorexManager.Bundle (File Loaded)
open Transition (run Along)

/-! ### Files and what is loaded of them -/

/-- The files of the bundle that keys depend on. -/
structure Directory where
  /-- `auth-policies.json`. -/
  authPolicies : Option File
  /-- The files under `api-keys` by their names. -/
  keyFiles : Text → Option Text

/-- What the module holds of them. -/
structure Cache where
  policies : Loaded (List Bundle.AuthPolicy)
  apiKeys : Text → Option (List Text)

/-- The policies of a document in a map: of two with one id the last is kept. -/
def insertAll : List Bundle.AuthPolicy → List Bundle.AuthPolicy
  | [] => []
  | p :: ps => if ps.any fun q => q.id == p.id then insertAll ps else p :: insertAll ps

/-- The policy of an id. -/
def policyOf (ps : List Bundle.AuthPolicy) (id : Int) : Option Bundle.AuthPolicy :=
  ps.find? fun p => p.id == id

/-- The text of `auth-policies.json`. -/
def readPolicies (J : JsonText) (t : Text) : Option (List Bundle.AuthPolicy) :=
  ((J.parse t).bind (Bundle.entries "policies".toList Bundle.authPolicy)).map insertAll

namespace Directory

variable (letters : Char → Bool) (d : Directory)

/-- The lines of the file of a list. -/
def lines (name : Text) : Option (List Text) :=
  (d.keyFiles (Apply.safeName letters name ++ ".lst".toList)).map Rust.lines

/-- The entries of a list: a line of blanks is none. -/
def entries (name : Text) : List Text :=
  ((d.lines letters name).getD []).filter fun line => !line.all Rust.isWhitespace

/-- The lists of keys some policies name. -/
def keyLists (ps : List Bundle.AuthPolicy) (name : Text) : Option (List Text) :=
  if some name ∈ ps.map (·.apiKeyListName) then d.lines letters name else none

end Directory

section Load

variable (J : JsonText) (letters : Char → Bool) (d : Directory) (c : Cache)

/-- `reload_if_changed`, of the policies and the keys. -/
def Cache.reloadIfChanged : Cache :=
  match d.authPolicies with
  | none => c
  | some f =>
      if c.policies.Outdated f then
        match readPolicies J f.text with
        | none => c
        | some ps => ⟨⟨ps, f.mtime, f.size⟩, d.keyLists letters ps⟩
      else c

/-- The policies are read again, and are these. -/
def Rereads (ps : List Bundle.AuthPolicy) : Prop :=
  ∃ f, d.authPolicies = some f ∧ c.policies.Outdated f ∧ readPolicies J f.text = some ps

end Load

/-- The module with what it holds. -/
def Cache.host (H : Host) (c : Cache) : Host :=
  { H with data := { H.data with
      authPolicies := fun id => (policyOf c.policies.value id).map (·.toAuthPolicy)
      apiKeys := c.apiKeys } }

/-! ### Edits and requests -/

/-- The files, and what the module holds. -/
structure State where
  directory : Directory
  cache : Cache

/-- Before the first file and the first load. -/
def State.start : State := ⟨⟨none, fun _ => none⟩, ⟨⟨[], none, 0⟩, fun _ => none⟩⟩

inductive Event where
  /-- The files become others. -/
  | edit (d : Directory)
  | request (t : Txn)

/-- The module. -/
structure Module where
  json : JsonText
  letters : Char → Bool
  host : Host

namespace Module

variable (M : Module)

/-- The state a request finds once the files are loaded. -/
def load (s : State) : Cache := s.cache.reloadIfChanged M.json M.letters s.directory

/-- An edit changes the files; a request loads them first. -/
def step (s : State) : Event → Option State
  | .edit d => some { s with directory := d }
  | .request _ => some { s with cache := M.load s }

/-- The request is reported valid. -/
def ReportedValid (s : State) (t : Txn) : Prop :=
  ((((M.load s).host M.host).parseBodyLua t).vars authValid).any Sample.truthy = true

end Module

/-! ### Safety -/

/-- The policy checks keys; the id 0 is that of no policy. -/
def AsksKey (q : Bundle.AuthPolicy) : Prop := q.authType = some "api_key".toList ∧ q.id ≠ 0

/-- The header of the key. -/
def keyHeader (q : Bundle.AuthPolicy) : Text := q.apiKeyHeader.getD "Authorization".toList

/-- The name of the list. -/
def listName (q : Bundle.AuthPolicy) : Text := q.apiKeyListName.getD []

/-- Some request to the policy carries the key; a request without the header carries the empty
one. -/
def Carried (H : Host) (q : Bundle.AuthPolicy) (key : Text) : Prop :=
  ∃ t, Host.tgetInt t "api_auth_policy_id".toList = q.id ∧ H.header t (keyHeader q) = key

namespace Module

variable (M : Module)

/-- No request that may come next is reported valid under a policy of keys, unless its key is there
and an entry of the list. -/
def Safe (s : State) : Prop :=
  ∀ t q, policyOf (M.load s).policies.value (Host.tgetInt t "api_auth_policy_id".toList) = some q →
    AsksKey q → M.ReportedValid s t →
    M.host.header t (keyHeader q) ≠ [] ∧
      M.host.header t (keyHeader q) ∈ s.directory.entries M.letters (listName q)

/-- An edit that leaves no empty line where a request may come without a key, and withdraws keys only
with policies that are read again. -/
structure Announced (c : Cache) (d : Directory) : Prop where
  reread : ∀ ps, Rereads M.json d c ps → ∀ id q, policyOf ps id = some q → AsksKey q →
    Carried M.host q [] → [] ∉ (d.keyLists M.letters ps (listName q)).getD []
  kept : (∀ ps, ¬ Rereads M.json d c ps) → ∀ id q, policyOf c.policies.value id = some q →
    AsksKey q → ∀ key ∈ (c.apiKeys (listName q)).getD [], Carried M.host q key →
    key ≠ [] ∧ key ∈ (d.lines M.letters (listName q)).getD []

/-- The condition on the events of a run. -/
def Careful (s : State) : Event → Prop
  | .edit d => M.Announced s.cache d
  | .request _ => True

end Module

/-! ### The load -/

section Load

variable {J : JsonText} {letters : Char → Bool} {d : Directory} {c : Cache}

variable (J letters d c) in
/-- What a load does. -/
theorem reloadIfChanged_cases :
    (∃ f ps, d.authPolicies = some f ∧ c.policies.Outdated f ∧ readPolicies J f.text = some ps ∧
      c.reloadIfChanged J letters d = ⟨⟨ps, f.mtime, f.size⟩, d.keyLists letters ps⟩) ∨
    (∀ ps, ¬ Rereads J d c ps) ∧ c.reloadIfChanged J letters d = c := by
  unfold Cache.reloadIfChanged
  cases hfile : d.authPolicies with
  | none =>
      right
      refine ⟨?_, rfl⟩
      rintro ps ⟨f, hf, -⟩
      rw [hfile] at hf
      cases hf
  | some f =>
      dsimp only
      by_cases houtdated : c.policies.Outdated f
      · rw [if_pos houtdated]
        cases hread : readPolicies J f.text with
        | none =>
            right
            refine ⟨?_, rfl⟩
            rintro ps ⟨g, hg, -, hps⟩
            rw [hfile] at hg
            rw [← Option.some.inj hg, hread] at hps
            cases hps
        | some ps => exact .inl ⟨f, ps, rfl, houtdated, hread, rfl⟩
      · rw [if_neg houtdated]
        right
        refine ⟨?_, rfl⟩
        rintro ps ⟨g, hg, hold, -⟩
        rw [hfile] at hg
        exact houtdated (Option.some.inj hg ▸ hold)

/-- A second load changes nothing. -/
theorem reloadIfChanged_twice :
    (c.reloadIfChanged J letters d).reloadIfChanged J letters d =
      c.reloadIfChanged J letters d := by
  rcases reloadIfChanged_cases J letters d c with
    ⟨f, ps, hf, -, hread, hload⟩ | ⟨-, hload⟩
  · rw [hload]
    unfold Cache.reloadIfChanged
    rw [hf]
    dsimp only
    rw [hread]
    exact ite_self _
  · rw [hload, hload]

/-- A key of the lists that are loaded is a line of its file. -/
theorem mem_lines_of_mem_keyLists {ps : List Bundle.AuthPolicy} {name key : Text}
    (h : key ∈ (d.keyLists letters ps name).getD []) : key ∈ (d.lines letters name).getD [] := by
  unfold Directory.keyLists at h
  split_ifs at h with hnamed
  · exact h
  · exact absurd h List.not_mem_nil

end Load

/-! ### Keys of headers -/

/-- A text that is trimmed has no blank at its end. -/
theorem trim_blank {t : Text} (h : (Rust.trim t).all Rust.isWhitespace = true) :
    Rust.trim t = [] := by
  unfold Rust.trim at h ⊢
  rw [List.all_reverse] at h
  by_contra hne
  have hdrop : (t.dropWhile Rust.isWhitespace).reverse.dropWhile Rust.isWhitespace ≠ [] :=
    fun heq => hne (by rw [heq]; rfl)
  have hhead := List.head_dropWhile_not Rust.isWhitespace hdrop
  have hblank := List.all_eq_true.mp h _ (List.head_mem hdrop)
  rw [hhead] at hblank
  cases hblank

theorem header_trimmed (H : Host) (t : Txn) (name : Text) :
    H.header t name = [] ∨ ∃ v, H.header t name = Rust.trim v := by
  unfold Host.header
  dsimp only
  cases hfind : (Rust.lines ((H.utf8 (Host.reqHdrs t)).getD [])).findSome?
      (Host.headerLine (Rust.toAsciiLowercase name)) with
  | none => exact .inl rfl
  | some v =>
      right
      obtain ⟨line, -, hline⟩ := List.exists_of_findSome?_eq_some hfind
      obtain ⟨⟨k, w⟩, -, hkw⟩ := Option.bind_eq_some_iff.mp hline
      dsimp only at hkw
      split_ifs at hkw
      exact ⟨w, (Option.some.inj hkw).symm⟩

/-- The key of a header is no line of blanks. -/
theorem header_blank {H : Host} {t : Txn} {name : Text} (hne : H.header t name ≠ []) :
    (H.header t name).all Rust.isWhitespace = false := by
  rw [Bool.eq_false_iff]
  intro hblank
  rcases header_trimmed H t name with hnil | ⟨v, hv⟩
  · exact hne hnil
  · rw [hv] at hblank hne
    exact hne (trim_blank hblank)

/-! ### What is reported -/

namespace Module

variable {M : Module}

theorem policyOf_id {ps : List Bundle.AuthPolicy} {id : Int} {q : Bundle.AuthPolicy}
    (h : policyOf ps id = some q) : id = q.id :=
  (beq_iff_eq.mp (List.find?_some (p := fun p : Bundle.AuthPolicy => p.id == id) h)).symm

/-- A request under a policy of keys is reported valid if its key is in the list that is loaded. -/
theorem reportedValid_iff {s : State} {t : Txn} {q : Bundle.AuthPolicy}
    (hq : policyOf (M.load s).policies.value (Host.tgetInt t "api_auth_policy_id".toList) = some q)
    (hasks : AsksKey q) :
    M.ReportedValid s t ↔
      M.host.header t (keyHeader q) ∈ ((M.load s).apiKeys (listName q)).getD [] := by
  have hid := policyOf_id hq
  have hauth : ((M.load s).host M.host).Authentic t q.toAuthPolicy ↔
      M.host.header t (keyHeader q) ∈ ((M.load s).apiKeys (listName q)).getD [] := by
    unfold Host.Authentic
    rw [hasks.1, if_neg (by decide), if_pos rfl]
    exact Iff.rfl
  have hpolicy : ((M.load s).host M.host).data.authPolicies
      (Host.tgetInt t "api_auth_policy_id".toList) = some q.toAuthPolicy := by
    show (policyOf _ _).map _ = _
    rw [hq]
    rfl
  unfold ReportedValid
  rw [Host.parseBodyLua_authValid_iff _ t (hid ▸ hasks.2), ← hauth]
  constructor
  · rintro ⟨policy, hfound, hok⟩
    rw [hpolicy] at hfound
    exact Option.some.inj hfound ▸ hok
  · exact fun hok => ⟨_, hpolicy, hok⟩

/-- Safety in terms of the keys that requests can carry. -/
theorem safe_iff_carried {s : State} :
    M.Safe s ↔ ∀ id q, policyOf (M.load s).policies.value id = some q → AsksKey q →
      ∀ key ∈ ((M.load s).apiKeys (listName q)).getD [], Carried M.host q key →
        key ≠ [] ∧ key ∈ (s.directory.lines M.letters (listName q)).getD [] := by
  constructor
  · rintro h id q hq hasks key hkey ⟨t, hid, rfl⟩
    rw [policyOf_id hq, ← hid] at hq
    obtain ⟨hne, hmem⟩ := h t q hq hasks ((reportedValid_iff hq hasks).mpr hkey)
    exact ⟨hne, (List.mem_filter.mp hmem).1⟩
  · intro h t q hq hasks hvalid
    obtain ⟨hne, hmem⟩ := h _ q hq hasks _ ((reportedValid_iff hq hasks).mp hvalid)
      ⟨t, policyOf_id hq, rfl⟩
    refine ⟨hne, List.mem_filter.mpr ⟨hmem, ?_⟩⟩
    rw [header_blank hne]
    rfl

/-! ### Runs -/

/-- **An edit** leaves a safe state exactly if it is announced. -/
theorem safe_edit_iff {s : State} {d : Directory} :
    M.Announced s.cache d ↔ M.Safe { s with directory := d } := by
  rw [safe_iff_carried]
  unfold load
  rcases reloadIfChanged_cases M.json M.letters d s.cache with
    ⟨f, ps, hf, houtdated, hread, hload⟩ | ⟨hkept, hload⟩
  · rw [hload]
    dsimp only
    have hrereads : Rereads M.json d s.cache ps := ⟨f, hf, houtdated, hread⟩
    constructor
    · intro h id q hq hasks key hkey hcarried
      refine ⟨?_, mem_lines_of_mem_keyLists hkey⟩
      rintro rfl
      exact h.reread ps hrereads id q hq hasks hcarried hkey
    · intro h
      refine ⟨?_, fun hnone => absurd hrereads (hnone ps)⟩
      rintro ps' ⟨g, hg, -, hps'⟩ id q hq hasks hcarried hkey
      rw [hf] at hg
      rw [← Option.some.inj hg, hread] at hps'
      obtain rfl := Option.some.inj hps'
      exact (h id q hq hasks [] hkey hcarried).1 rfl
  · rw [hload]
    exact ⟨fun h => h.kept hkept, fun h => ⟨fun ps hps => absurd hps (hkept ps), fun _ => h⟩⟩

/-- A request leaves the state as safe as it was. -/
theorem safe_request {s : State} (h : M.Safe s) : M.Safe { s with cache := M.load s } := by
  have hload : M.load { s with cache := M.load s } = M.load s := reloadIfChanged_twice
  rw [safe_iff_carried] at h ⊢
  rw [hload]
  exact h

theorem safe_start : M.Safe State.start := by
  intro t q hq
  cases hq

theorem step_safe_iff {s s' : State} {e : Event} (h : M.Safe s) (hstep : M.step s e = some s') :
    M.Careful s e ↔ M.Safe s' := by
  cases e with
  | edit d =>
      rw [← Option.some.inj hstep]
      exact safe_edit_iff
  | request t =>
      rw [← Option.some.inj hstep]
      exact ⟨fun _ => safe_request h, fun _ => trivial⟩

theorem step_total (s : State) (e : Event) : ∃ s', M.step s e = some s' := by
  cases e with
  | edit d => exact ⟨_, rfl⟩
  | request t => exact ⟨_, rfl⟩

/-- **Safe runs**: in every state of a run only keys of the lists are valid, exactly if the edits of
the run are announced. -/
theorem keysSafe_iff (M : Module) (es : List Event) :
    Along M.step M.Careful State.start es ↔
      ∀ fs s, fs <+: es → run M.step State.start fs = some s → M.Safe s := by
  obtain ⟨s', hrun⟩ := Transition.run_total (step_total (M := M)) State.start es
  exact Transition.along_iff_throughout (J := fun _ => True) (fun _ _ _ _ _ => trivial)
    (fun _ _ _ _ h hstep => step_safe_iff h hstep) trivial safe_start hrun

end Module

/-! ### A withdrawn key -/

/-- The document of a policy for the list `k`. -/
def policyDocument : Json :=
  .obj [("policies".toList, .arr [.obj [("id".toList, .num (.int 1)), ("name".toList, .str ['p']),
    ("auth_type".toList, .str "api_key".toList), ("api_key_header".toList, .str "X-Api-Key".toList),
    ("api_key_list_name".toList, .str ['k'])]])]

def keyPolicy : Bundle.AuthPolicy :=
  ⟨⟨1, ['p'], some "api_key".toList, none, none, none, some "X-Api-Key".toList, some ['k']⟩, none,
    none, none, none⟩

/-- The files with some text of the list; those of the policies stay. -/
def keyDirectory (text : String) : Directory where
  authPolicies := some ⟨['P'], some 1, 10⟩
  keyFiles name := if name = "k.lst".toList then some text.toList else none

/-- An installation that reads the document. -/
def keyModule : Module where
  json := printer [(policyDocument, ['P'])]
  letters _ := false
  host :=
    { utf8 := some
      parseJson := fun _ => none
      parseJson_nil := parseNothing_nil
      printJson := fun _ => []
      debug := fun _ => []
      readFile := fun _ => none
      envVar := fun _ => none
      analyze := fun _ => ⟨[], 0, 0, 0, 0, 0, [], true, []⟩
      validateSchema := fun _ _ => ⟨true, []⟩
      validateJwt := fun _ _ => ⟨false, .null, []⟩
      data := ⟨[], fun _ => none, [], fun _ => none⟩ }

/-- A request to the policy with some headers. -/
def keyRequest (headers : List (Text × Text)) : Txn where
  headers := headers
  src := []
  vars n := if n = varName "api_auth_policy_id".toList then some (.int 1) else none
  logLevel := none
  convert _ _ := []
  other _ := []

/-- The policies with the keys of a file. -/
def keyCache (keys : List Text) : Cache where
  policies := ⟨[keyPolicy], some 1, 10⟩
  apiKeys name := if name = ['k'] then some keys else none

theorem keyCache_load (text : String) :
    State.start.cache.reloadIfChanged keyModule.json keyModule.letters (keyDirectory text) =
      keyCache (Rust.lines text.toList) := by
  have hread : readPolicies keyModule.json ['P'] = some [keyPolicy] := rfl
  have hfile : Apply.safeName keyModule.letters ['k'] ++ ".lst".toList = "k.lst".toList := by decide
  have hlists : (keyDirectory text).keyLists keyModule.letters [keyPolicy] =
      fun name => if name = ['k'] then some (Rust.lines text.toList) else none := by
    funext name
    have hnamed : some name ∈ [keyPolicy].map (·.apiKeyListName) ↔ name = ['k'] := by
      simp [keyPolicy]
    unfold Directory.keyLists Directory.lines
    by_cases hname : name = ['k']
    · rw [if_pos (hnamed.mpr hname), if_pos hname, hname, hfile]
      rfl
    · rw [if_neg fun h => hname (hnamed.mp h), if_neg hname]
  rcases reloadIfChanged_cases keyModule.json keyModule.letters (keyDirectory text) State.start.cache
    with ⟨f, ps, hf, -, hps, hload⟩ | ⟨hnone, -⟩
  · obtain rfl := Option.some.inj hf
    obtain rfl := Option.some.inj (hread.symm.trans hps)
    rw [hload, hlists]
    rfl
  · exact absurd ⟨_, rfl, .inl rfl, hread⟩ (hnone [keyPolicy])

/-- The policies that were read stay while their file does. -/
theorem keyCache_kept (keys : List Text) (text : String) :
    (keyCache keys).reloadIfChanged keyModule.json keyModule.letters (keyDirectory text) =
      keyCache keys := rfl

/-- **A key that is no entry**: a request without a key is valid when the list has an empty line, and
a key that was taken out of the file stays valid. -/
theorem keys_accepted :
    (∃ s, run keyModule.step State.start [.edit (keyDirectory "\n")] = some s ∧
      ¬ keyModule.Safe s) ∧
    ∃ s, run keyModule.step State.start [.edit (keyDirectory "a\n"), .request (keyRequest []),
      .edit (keyDirectory "")] = some s ∧ ¬ keyModule.Safe s := by
  have hpolicy : policyOf [keyPolicy] 1 = some keyPolicy := rfl
  have hasks : AsksKey keyPolicy := ⟨rfl, by decide⟩
  refine ⟨⟨_, rfl, fun hsafe => ?_⟩, ⟨_, rfl, fun hsafe => ?_⟩⟩
  · rw [Module.safe_iff_carried] at hsafe
    have hload : keyModule.load { State.start with directory := keyDirectory "\n" } =
        keyCache (Rust.lines "\n".toList) := keyCache_load "\n"
    rw [hload] at hsafe
    exact (hsafe 1 keyPolicy hpolicy hasks [] (by decide) ⟨keyRequest [], rfl, by decide⟩).1 rfl
  · rw [Module.safe_iff_carried] at hsafe
    have hload : keyModule.load { State.start with directory := keyDirectory "a\n" } =
        keyCache (Rust.lines "a\n".toList) := keyCache_load "a\n"
    rw [hload, Module.load, keyCache_kept] at hsafe
    have hkey := hsafe 1 keyPolicy hpolicy hasks ['a'] (by decide)
      ⟨keyRequest [("X-Api-Key".toList, ['a'])], rfl, by decide +kernel⟩
    exact absurd hkey.2 (by decide)

end CorexManager.ApiArmor.ApiKeys
