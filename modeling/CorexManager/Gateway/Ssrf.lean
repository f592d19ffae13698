import CorexManager.Rust.IpAddr

/-!
# URLs of upstreams

`SsrfPolicy::is_url_safe`: a URL is refused for its scheme, for the address it spells, or for
an address its host resolves to.

* `isUrlSafe` — the answer and its reason.
* `Dangerous` — a URL that spells a loopback, link-local or unspecified address, in either
  family, that no entry of the allowed addresses spells.
* `refused_iff` — such a URL is refused for its scheme, or when the address has four octets.
* `loopback_safe` — the loopback address in brackets passes.
-/

namespace CorexManager.Ssrf

open Data (Text)
open Rust (IpAddr Ipv4Addr Ipv6Addr parseIpAddr parseIpAddr_v4 parseIpAddr_bracket UnicodeTables)

/-! ### URLs -/

/-- `url::Host`. -/
inductive Host where
  | domain (name : Text)
  | ipv4 (addr : Ipv4Addr)
  | ipv6 (addr : Ipv6Addr)

/-- What the function reads of a parsed URL. -/
structure Url where
  scheme : Text
  host : Option Host

/-- `Url::host_str`: an address of eight segments keeps its brackets. -/
def Host.text : Host → Text
  | domain name => name
  | ipv4 addr => addr.display
  | ipv6 addr => '[' :: (Rust.compressed addr.segments ++ [']'])

/-- The address a host spells. -/
def Host.literal : Host → Option IpAddr
  | domain _ => none
  | ipv4 addr => some (.v4 addr)
  | ipv6 addr => some (.v6 addr)

/-- The `url` crate, and the resolver of the system. -/
structure Net where
  parseUrl : Text → Except Text Url
  toSocketAddrs : Text → Option (List IpAddr)
  unicode : UnicodeTables

/-! ### The policy -/

/-- `SsrfState`. -/
structure SsrfState where
  enabled : Bool
  blockPrivate : Bool
  allowedIps : List Text
  allowedHosts : List Text
  dynamicAllowed : List Text

/-- IPv4 reserved. -/
def isIpv4Reserved (addr : Ipv4Addr) : Bool := decide (240 ≤ addr.a)

/-- IPv6 unique-local. -/
def isIpv6Ula (addr : Ipv6Addr) : Bool := addr.first &&& 0xfe00 == 0xfc00

/-- IPv6 link-local. -/
def isIpv6LinkLocal (addr : Ipv6Addr) : Bool := addr.first &&& 0xffc0 == 0xfe80

/-- `is_always_blocked`. -/
def isAlwaysBlocked : IpAddr → Bool
  | .v4 addr => addr.isLoopback || addr.isLinkLocal || addr.isUnspecified
  | .v6 addr => addr.isLoopback || isIpv6LinkLocal addr || addr.isUnspecified

/-- `is_blocked_ip`. -/
def isBlockedIp (ip : IpAddr) (blockPrivate : Bool) (allowedIps : List Text) : Bool :=
  if ip.display ∈ allowedIps then false
  else
    match ip with
    | .v4 addr =>
        (blockPrivate && addr.isPrivate) || (addr.isLoopback || addr.isLinkLocal ||
          addr.isMulticast || isIpv4Reserved addr || addr.isUnspecified)
    | .v6 addr =>
        (blockPrivate && isIpv6Ula addr) || (addr.isLoopback || isIpv6LinkLocal addr ||
          addr.isMulticast || addr.isUnspecified)

variable (net : Net)

/-- `resolve_hostname`. -/
def resolveHostname (hostname : Text) : List Text :=
  ((net.toSocketAddrs hostname).getD []).map IpAddr.display

/-- `update_allowed_upstreams`. -/
def updateAllowedUpstreams (state : SsrfState) (urls : List Text) : SsrfState :=
  { state with
    dynamicAllowed := urls.filterMap fun url =>
      match net.parseUrl url with
      | .ok parsed => parsed.host.map fun host => net.unicode.toLowercase host.text
      | .error _ => none }

/-- The first address of a host name that is blocked. -/
def resolvedBlocked (state : SsrfState) (host : Text) : Option IpAddr :=
  (resolveHostname net host).findSome? fun text =>
    (parseIpAddr text).filter fun ip => isBlockedIp ip state.blockPrivate state.allowedIps

/-- `is_url_safe`. -/
def isUrlSafe (state : SsrfState) (url : Text) : Bool × Text :=
  if !state.enabled then (true, "SSRF protection disabled".toList)
  else
    match net.parseUrl url with
    | .error e => (false, "Invalid URL: ".toList ++ e)
    | .ok parsed =>
        if parsed.scheme ≠ "http".toList ∧ parsed.scheme ≠ "https".toList then
          (false, "Blocked scheme: ".toList ++ parsed.scheme)
        else
          match parsed.host with
          | none => (false, "No hostname in URL".toList)
          | some h =>
              let host := net.unicode.toLowercase h.text
              if host ∈ state.allowedHosts ∨ host ∈ state.dynamicAllowed then
                match parseIpAddr host with
                | some ip =>
                    if isAlwaysBlocked ip && !decide (host ∈ state.allowedIps) then
                      (false, "Blocked IP: ".toList ++ host)
                    else (true, [])
                | none => (true, [])
              else
                match parseIpAddr host with
                | some ip =>
                    if isBlockedIp ip state.blockPrivate state.allowedIps then
                      (false, "Blocked IP: ".toList ++ host)
                    else (true, [])
                | none =>
                    match resolvedBlocked net state host with
                    | some ip =>
                        (false, "Hostname ".toList ++ host ++ " resolves to blocked IP: ".toList ++
                          ip.display)
                    | none => (true, [])

/-! ### Addresses that are never allowed -/

/-- The address that an address denotes: one of eight segments may embed one of four octets. -/
def denoted : IpAddr → IpAddr
  | .v4 addr => .v4 addr
  | .v6 addr => if addr.isMapped || addr.isCompatible then .v4 addr.lastOctets else .v6 addr

/-- **A dangerous URL** spells an address that denotes a loopback, link-local or unspecified one,
and no entry of the allowed addresses spells either. -/
structure Dangerous (state : SsrfState) (parsed : Url) (ip : IpAddr) : Prop where
  literal : parsed.host.bind Host.literal = some ip
  blocked : isAlwaysBlocked (denoted ip) = true
  allowed : ∀ entry ∈ state.allowedIps,
    parseIpAddr entry ≠ some ip ∧ parseIpAddr entry ≠ some (denoted ip)

/-! ### What a host spells -/

variable {net : Net} {state : SsrfState} {url : Text} {parsed : Url} {ip : IpAddr}

/-- The characters of a spelled address are in lower case. -/
theorem display_lower (addr : Ipv4Addr) (U : UnicodeTables) :
    U.toLowercase addr.display = addr.display := by
  have hdigit : ∀ n, ∀ c ∈ Data.natText n, c.toNat < 128 ∧ c.toLower = c := fun n c hc => by
    have hc := Data.natText_isDigit n c hc
    have hascii : c.toNat < 128 := Data.isAlphanum_ascii (by rw [Char.isAlphanum, hc, Bool.or_true])
    refine ⟨hascii, ?_⟩
    have hall : ∀ n < 128, (Char.ofNat n).isDigit = true → (Char.ofNat n).toLower = Char.ofNat n := by
      decide
    exact Data.ascii_forall (P := fun c => c.isDigit = true → c.toLower = c) hall c hascii hc
  have hall : ∀ c ∈ addr.display, c.toNat < 128 ∧ c.toLower = c := by
    intro c hc
    simp only [Ipv4Addr.display, List.mem_append, List.mem_cons] at hc
    rcases hc with hc | rfl | hc | rfl | hc | rfl | hc
    · exact hdigit _ c hc
    · decide
    · exact hdigit _ c hc
    · decide
    · exact hdigit _ c hc
    · decide
    · exact hdigit _ c hc
  rw [UnicodeTables.toLowercase, if_pos (List.all_eq_true.mpr fun c hc =>
    decide_eq_true (hall c hc).1)]
  exact (List.map_congr_left fun c hc => (hall c hc).2).trans (List.map_id _)

/-- An address of eight segments is spelled in ASCII. -/
theorem compressed_ascii (gs : List (Fin 65536)) : ∀ c ∈ Rust.compressed gs, c.toNat < 128 := by
  have hdigit : ∀ n, (Rust.hexDigit n).toNat < 128 := fun n => by
    by_cases hn : n < 16
    · have hall : ∀ n < 16, (Rust.hexDigit n).toNat < 128 := by decide
      exact hall n hn
    · rw [Rust.hexDigit, List.getD_eq_default _ _ (Nat.not_lt.mp hn)]
      decide
  have hhex : ∀ n, ∀ c ∈ Rust.hexText n, c.toNat < 128 := fun n c hc => by
    simp only [Rust.hexText] at hc
    split at hc
    · simp only [List.mem_singleton] at hc
      exact hc ▸ hdigit _
    split at hc
    · simp only [List.mem_cons, List.not_mem_nil, or_false] at hc
      rcases hc with rfl | rfl <;> exact hdigit _
    split at hc
    · simp only [List.mem_cons, List.not_mem_nil, or_false] at hc
      rcases hc with rfl | rfl | rfl <;> exact hdigit _
    · simp only [List.mem_cons, List.not_mem_nil, or_false] at hc
      rcases hc with rfl | rfl | rfl | rfl <;> exact hdigit _
  have hsegments : ∀ gs, ∀ c ∈ Rust.segmentsText gs, c.toNat < 128 := fun gs => by
    fun_induction Rust.segmentsText gs with
    | case1 => exact fun c hc => absurd hc List.not_mem_nil
    | case2 g => exact hhex g
    | case3 g gs hgs ih =>
        intro c hc
        simp only [List.mem_append, List.mem_cons] at hc
        rcases hc with hc | rfl | hc
        · exact hhex g c hc
        · decide
        · exact ih c hc
  intro c hc
  simp only [Rust.compressed] at hc
  split at hc
  · simp only [List.mem_append, List.mem_cons] at hc
    rcases hc with hc | rfl | rfl | hc
    · exact hsegments _ c hc
    · decide
    · decide
    · exact hsegments _ c hc
  · exact hsegments _ c hc

/-- The host of such an address begins with a bracket. -/
theorem ipv6_lower (addr : Ipv6Addr) (U : UnicodeTables) :
    ∃ name, U.toLowercase (Host.text (.ipv6 addr)) = '[' :: name := by
  have hall : ∀ c ∈ Host.text (.ipv6 addr), c.toNat < 128 := by
    intro c hc
    simp only [Host.text, List.mem_cons, List.mem_append, List.not_mem_nil, or_false] at hc
    rcases hc with rfl | hc | rfl
    · decide
    · exact compressed_ascii _ c hc
    · decide
  rw [UnicodeTables.toLowercase, if_pos (List.all_eq_true.mpr fun c hc =>
    decide_eq_true (hall c hc))]
  exact ⟨_, rfl⟩

/-! ### Which dangerous URLs are refused -/

/-- An address of four octets is refused, whatever its host is allowed as. -/
theorem ipv4_refused {addr : Ipv4Addr} (henabled : state.enabled = true)
    (hparse : net.parseUrl url = .ok parsed) (hhost : parsed.host = some (.ipv4 addr))
    (hdanger : Dangerous state parsed (.v4 addr)) : (isUrlSafe net state url).1 = false := by
  have hhostText : net.unicode.toLowercase (Host.text (.ipv4 addr)) = addr.display :=
    display_lower addr net.unicode
  have hblocked : isAlwaysBlocked (.v4 addr) = true := hdanger.blocked
  have hnotAllowed : addr.display ∉ state.allowedIps := fun hmem =>
    (hdanger.allowed _ hmem).1 (parseIpAddr_v4 addr)
  have hnotIp : (IpAddr.v4 addr).display ∉ state.allowedIps := hnotAllowed
  rw [isUrlSafe, henabled, hparse]
  dsimp only
  rw [if_neg (by decide)]
  split
  · rfl
  · rw [hhost]
    dsimp only
    rw [hhostText, parseIpAddr_v4]
    dsimp only
    split
    · rw [hblocked, decide_eq_false hnotAllowed]
      rfl
    · have hbad : isBlockedIp (.v4 addr) state.blockPrivate state.allowedIps = true := by
        rw [isBlockedIp, if_neg hnotIp]
        simp only [isAlwaysBlocked, Bool.or_eq_true] at hblocked ⊢
        rcases hblocked with (h | h) | h <;> simp only [h, true_or, or_true]
      rw [hbad]
      rfl

/-- An address of eight segments is no address to the policy, and its host does not resolve. -/
theorem ipv6_passes {addr : Ipv6Addr} (hresolve : ∀ name, net.toSocketAddrs ('[' :: name) = none)
    (hparse : net.parseUrl url = .ok parsed) (hhost : parsed.host = some (.ipv6 addr))
    (hscheme : ¬(parsed.scheme ≠ "http".toList ∧ parsed.scheme ≠ "https".toList)) :
    (isUrlSafe net state url).1 = true := by
  obtain ⟨name, hname⟩ := ipv6_lower addr net.unicode
  have hnone : resolvedBlocked net state ('[' :: name) = none := by
    rw [resolvedBlocked, resolveHostname, hresolve]
    rfl
  rw [isUrlSafe, hparse]
  split
  · rfl
  · dsimp only
    rw [if_neg hscheme, hhost]
    dsimp only
    rw [hname, parseIpAddr_bracket, hnone]
    dsimp only
    split <;> rfl

/-- **A dangerous URL is refused exactly when the policy is enabled and the scheme is refused, or
the address has four octets**: the resolver knows no name that begins with a bracket. -/
theorem refused_iff (hresolve : ∀ name, net.toSocketAddrs ('[' :: name) = none)
    (hparse : net.parseUrl url = .ok parsed) (hdanger : Dangerous state parsed ip) :
    (isUrlSafe net state url).1 = false ↔ state.enabled = true ∧
      ((parsed.scheme ≠ "http".toList ∧ parsed.scheme ≠ "https".toList) ∨
        ∃ addr, ip = .v4 addr) := by
  cases henabled : state.enabled with
  | false =>
      have hsafe : (isUrlSafe net state url).1 = true := by
        rw [isUrlSafe, henabled]
        rfl
      rw [hsafe]
      exact iff_of_false Bool.true_eq_false.mp fun h => Bool.false_ne_true h.1
  | true =>
      rw [eq_self_iff_true, true_and]
      by_cases hscheme : parsed.scheme ≠ "http".toList ∧ parsed.scheme ≠ "https".toList
      · refine iff_of_true ?_ (.inl hscheme)
        rw [isUrlSafe, henabled, hparse]
        dsimp only
        rw [if_neg (by decide), if_pos hscheme]
      · rw [or_iff_right hscheme]
        obtain ⟨host, hhost, hliteral⟩ := Option.bind_eq_some_iff.mp hdanger.literal
        cases host with
        | domain name => cases hliteral
        | ipv4 addr =>
            obtain rfl := Option.some.inj hliteral
            exact iff_of_true (ipv4_refused henabled hparse hhost hdanger) ⟨addr, rfl⟩
        | ipv6 addr =>
            obtain rfl := Option.some.inj hliteral
            rw [ipv6_passes hresolve hparse hhost hscheme]
            exact iff_of_false Bool.true_eq_false.mp nofun

/-! ### A loopback address in each family -/

/-- Two URLs with their parts, and a resolver that knows no name. -/
def net₀ : Net where
  parseUrl url :=
    if url = "http://127.0.0.1/mcp".toList then .ok ⟨"http".toList, some (.ipv4 ⟨127, 0, 0, 1⟩)⟩
    else if url = "http://[::1]/mcp".toList then
      .ok ⟨"http".toList, some (.ipv6 ⟨[0, 0, 0, 0, 0, 0, 0, 1], rfl⟩)⟩
    else .error "relative URL without a base".toList
  toSocketAddrs _ := none
  unicode := .ascii

/-- The policy of the tests. -/
def policy : SsrfState := ⟨true, false, [], [], []⟩

/-- The loopback address of the first family. -/
def loopbackV4 : Url := ⟨"http".toList, some (.ipv4 ⟨127, 0, 0, 1⟩)⟩

/-- The loopback address of the second family. -/
def loopbackV6 : Url := ⟨"http".toList, some (.ipv6 ⟨[0, 0, 0, 0, 0, 0, 0, 1], rfl⟩)⟩

theorem refused_v4 : (isUrlSafe net₀ policy "http://127.0.0.1/mcp".toList).1 = false ↔
    policy.enabled = true ∧
      ((loopbackV4.scheme ≠ "http".toList ∧ loopbackV4.scheme ≠ "https".toList) ∨
        ∃ addr, IpAddr.v4 ⟨127, 0, 0, 1⟩ = .v4 addr) := by
  have hparse : net₀.parseUrl "http://127.0.0.1/mcp".toList = .ok loopbackV4 := rfl
  exact refused_iff (fun _ => rfl) hparse ⟨rfl, rfl, nofun⟩

/-- The loopback address of the second family passes, as `http://[::1]/mcp`. -/
theorem loopback_safe : ¬ ∀ parsed ip, net₀.parseUrl "http://[::1]/mcp".toList = .ok parsed →
    Dangerous policy parsed ip → (isUrlSafe net₀ policy "http://[::1]/mcp".toList).1 = false := by
  intro h
  have hrefused := h loopbackV6 (.v6 ⟨[0, 0, 0, 0, 0, 0, 0, 1], rfl⟩) rfl ⟨rfl, by decide, nofun⟩
  have hsafe : (isUrlSafe net₀ policy "http://[::1]/mcp".toList).1 = true := by decide
  exact Bool.false_ne_true (hrefused.symm.trans hsafe)

end CorexManager.Ssrf
