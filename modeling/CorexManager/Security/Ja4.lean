import CorexManager.Data.JsonPrint
import CorexManager.Python.Text

/-!
# JA4 fingerprints

A fingerprint of a TLS client is computed by `ja4.lua`, checked by `validate_ja4_value` of
`services/security_lists.py` when an entry of a list is made from it, and read by `risk_capture`
of `risk_score.lua` for the numbers of ciphers and extensions.

* `computeJa4` — the fingerprint of a ClientHello.
* `validate_computeJa4` — every fingerprint is accepted, and `unchanged_iff` — returned unchanged
  exactly when the characters taken from the protocol name are not in upper case.
* `counts_written` — the numbers are where the format has them.
* `not_agreed` — no fingerprint is read for them: the pattern of `risk_capture` asks for a digit
  in the place of the SNI flag.
-/

namespace CorexManager.Ja4

open Data (Text natText)
open Python (UnicodeTables chopLineEnd)

/-! ### The fingerprint -/

/-- What the fetches give of a ClientHello, without the values of GREASE. -/
structure ClientHello where
  protocolHelloId : Nat
  reqVer : Option Text
  supportedVersionsBin : Option (List UInt8)
  alpn : Option (List UInt8)
  cipherlistBin : Option (List UInt8)
  extlistBin : Option (List UInt8)
  sigalgsBin : Option (List UInt8)
  hasSni : Bool

/-- `string.unpack` of `>I2` at every second place. -/
def unpack : List UInt8 → List Nat
  | high :: low :: bytes => (high.toNat * 256 + low.toNat) :: unpack bytes
  | _ => []

/-- The numbers of a list, which may not be there. -/
def entries (bin : Option (List UInt8)) : List Nat := bin.elim [] unpack

/-- `TLS_VERSIONS`. -/
def tlsVersion : Nat → Option Text
  | 0xfeff => some ['d', '1']
  | 0xfefd => some ['d', '2']
  | 0xfefc => some ['d', '3']
  | 0x0304 => some ['1', '3']
  | 0x0303 => some ['1', '2']
  | 0x0302 => some ['1', '1']
  | 0x0301 => some ['1', '0']
  | 0x0300 => some ['s', '3']
  | 0x0002 => some ['s', '2']
  | _ => none

/-- `DTLS_VERSIONS`. -/
def dtlsVersion (id : Nat) : Bool := id = 0xfeff || id = 0xfefd || id = 0xfefc

/-- `EXCLUDED_EXTENSIONS`. -/
def excludedExtension (id : Nat) : Bool := id = 0 || id = 16

/-- `PAD2`. -/
def pad2 (n : Nat) : Text := [Nat.digitChar (n / 10), Nat.digitChar (n % 10)]

/-- The protocol. -/
def protocol (hello : ClientHello) : Char :=
  if dtlsVersion hello.protocolHelloId then 'd'
  else if hello.reqVer.any fun version => version.head? == some '3' then 'q'
  else 't'

/-- The newest version that has a name; of DTLS it has the smallest number. -/
def newestVersion (dtls : Bool) (versions : List Nat) : Option Nat :=
  versions.foldl (fun newest version =>
    if (tlsVersion version).isSome &&
        newest.all fun n => (dtls && decide (version < n)) || (!dtls && decide (n < version)) then
      some version
    else newest) none

/-- The version. -/
def version (hello : ClientHello) : Text :=
  ((newestVersion (dtlsVersion hello.protocolHelloId) (entries hello.supportedVersionsBin)).bind
    tlsVersion).getD ((tlsVersion hello.protocolHelloId).getD ['0', '0'])

/-- A byte of a protocol name is a letter or a digit. -/
def alnumByte (b : UInt8) : Bool :=
  (48 ≤ b && b ≤ 57) || (65 ≤ b && b ≤ 90) || (97 ≤ b && b ≤ 122)

/-- The first and the last character of the name of the negotiated protocol; the first and the
last digit of the two bytes where one is neither a letter nor a digit. -/
def alpnField (hello : ClientHello) : Text :=
  match hello.alpn with
  | some (b :: bytes) =>
      let last := (b :: bytes).getLast (List.cons_ne_nil b bytes)
      if !alnumByte b || !alnumByte last then
        [Nat.digitChar (b.toNat / 16), Nat.digitChar (last.toNat % 16)]
      else [Char.ofNat b.toNat, Char.ofNat last.toNat]
  | _ => ['0', '0']

/-- `table.concat` with a comma. -/
def concat (items : List Text) : Text := List.intercalate [','] items

/-- An entry as it is hashed; `HEX_LOOKUP` has what `string.format` writes. -/
def entryText (value : Nat) : Text := Data.Json.hex4 value

/-- The hexadecimal digits of some bytes, in upper case. -/
def hex (bytes : List UInt8) : Text :=
  bytes.flatMap fun b =>
    [(Nat.digitChar (b.toNat / 16)).toUpper, (Nat.digitChar (b.toNat % 16)).toUpper]

section Compute

variable (sha256 : List UInt8 → Vector UInt8 32)

/-- `sha256_truncated`. -/
def sha256Truncated (input : Text) : Text :=
  ((hex (sha256 (input.map fun c => UInt8.ofNat c.toNat)).toList).take 12).map Char.toLower

/-- The hash of a list of ciphers, which is all zeros for none. -/
def hashOf (input : Text) : Text :=
  if input = [] then List.replicate 12 '0' else sha256Truncated sha256 input

/-- The hash of the ciphers. -/
def cipherHash (hello : ClientHello) : Text :=
  hashOf sha256 (concat (((entries hello.cipherlistBin).map entryText).mergeSort))

/-- The hash of the extensions and the signature algorithms. -/
def extensionHash (hello : ClientHello) : Text :=
  let extensionList := concat
    ((((entries hello.extlistBin).filter fun id => !excludedExtension id).map
      entryText).mergeSort)
  let signatureAlgorithmList := concat ((entries hello.sigalgsBin).map entryText)
  if extensionList = [] then List.replicate 12 '0'
  else if signatureAlgorithmList ≠ [] then
    sha256Truncated sha256 (extensionList ++ '_' :: signatureAlgorithmList)
  else sha256Truncated sha256 extensionList

/-- `compute_ja4`. -/
def computeJa4 (hello : ClientHello) : Text :=
  let fingerprintPrefix := protocol hello :: (version hello ++
    (if hello.hasSni then 'd' else 'i') :: (pad2 (min (entries hello.cipherlistBin).length 99) ++
      (pad2 (min (entries hello.extlistBin).length 99) ++ alpnField hello)))
  fingerprintPrefix ++ '_' :: (cipherHash sha256 hello ++ '_' :: extensionHash sha256 hello)

end Compute

/-! ### Its readers -/

/-- A text is spelt with a list of character classes. -/
def fits : List (Char → Bool) → Text → Bool
  | [], [] => true
  | p :: ps, c :: t => p c && fits ps t
  | _, _ => false

/-- `[a-z0-9]`. -/
def lowerAlnum (c : Char) : Bool := c.isLower || c.isDigit

/-- `[a-f0-9]`. -/
def lowerHex (c : Char) : Bool := ('a' ≤ c && c ≤ 'f') || c.isDigit

/-- An underscore. -/
def underscore (c : Char) : Bool := c == '_'

section Validate

variable (U : UnicodeTables)

/-- `\d`. -/
def decimal (c : Char) : Bool := (U.decimalValue c).isSome

/-- The classes of `_JA4_RE` up to the counts. -/
def frontClasses : List (Char → Bool) :=
  [fun c => c == 't' || c == 'q' || c == 'd', lowerAlnum, lowerAlnum,
    fun c => c == 'd' || c == 'i', decimal U, decimal U, decimal U, decimal U]

/-- The classes of the hashes. -/
def backClasses : List (Char → Bool) :=
  underscore :: (List.replicate 12 lowerHex ++ underscore :: List.replicate 12 lowerHex)

/-- `_JA4_RE`. -/
def ja4Re (t : Text) : Bool :=
  fits (frontClasses U ++ ([lowerAlnum, lowerAlnum] ++ backClasses)) (chopLineEnd t)

/-- `validate_ja4_value`, with the text of a `ValueError`. -/
def validateJa4Value (value : Text) : Except Text Text :=
  if value = [] then .error "JA4 fingerprint is required".toList
  else
    let v := U.lower (U.strip value)
    if ja4Re U v then .ok v
    else .error ("Invalid JA4 fingerprint format: ".toList ++ value ++
      ". Expected format: \x7bproto\x7d\x7bversion\x7d\x7bsni\x7d\x7bciphers\x7d".toList ++
      "\x7bexts\x7d\x7balpn\x7d_\x7bhash1\x7d_\x7bhash2\x7d ".toList ++
      "(e.g. t13d1516h2_8daaf6152771_b186095e22b6)".toList)

end Validate

/-- The two captures of `^%a%d%d%d(%d%d)(%d%d)`. -/
def captures : Text → Option (Text × Text)
  | p :: a :: b :: c :: d :: e :: f :: g :: _ =>
      if p.isAlpha && [a, b, c, d, e, f, g].all Char.isDigit then some ([d, e], [f, g]) else none
  | _ => none

/-- `tostring(tonumber(...))` of decimal digits. -/
def tostring (digits : Text) : Text := natText (Nat.ofDigitChars 10 digits 0)

/-- `risk_capture`: `txn.risk_fp.cipher_count` and `txn.risk_fp.ext_count` for a fingerprint. -/
def riskCapture (ja4 : Text) : Text × Text :=
  (captures ja4).elim ([], []) fun (cc, ec) => (tostring cc, tostring ec)

/-! ### The parts of a fingerprint -/

/-- The characters of a part that is in lower case. -/
def lowWord (c : Char) : Bool := c.isLower || c.isDigit || c == '_'

/-- A part in lower case that is spelt with some classes. -/
structure Part (ps : List (Char → Bool)) (t : Text) : Prop where
  fits : fits ps t = true
  low : ∀ c ∈ t, lowWord c = true

theorem fits_append {ps qs : List (Char → Bool)} {t u : Text} (ht : fits ps t = true)
    (hu : fits qs u = true) : fits (ps ++ qs) (t ++ u) = true := by
  fun_induction fits ps t with
  | case1 => exact hu
  | case2 p ps c t ih =>
      obtain ⟨hc, ht⟩ := Bool.and_eq_true_iff.mp ht
      exact Bool.and_eq_true_iff.mpr ⟨hc, ih ht⟩
  | case3 => cases ht

theorem fits_replicate {p : Char → Bool} {t : Text} (h : ∀ c ∈ t, p c = true) :
    fits (List.replicate t.length p) t = true := by
  induction t with
  | nil => rfl
  | cons c t ih =>
      obtain ⟨hc, ht⟩ := List.forall_mem_cons.mp h
      exact Bool.and_eq_true_iff.mpr ⟨hc, ih ht⟩

theorem Part.append {ps qs : List (Char → Bool)} {t u : Text} (ht : Part ps t) (hu : Part qs u) :
    Part (ps ++ qs) (t ++ u) :=
  ⟨fits_append ht.fits hu.fits, List.forall_mem_append.mpr ⟨ht.low, hu.low⟩⟩

theorem Part.cons {p : Char → Bool} {qs : List (Char → Bool)} {c : Char} {u : Text}
    (hp : p c = true) (hc : lowWord c = true) (hu : Part qs u) : Part (p :: qs) (c :: u) :=
  ⟨Bool.and_eq_true_iff.mpr ⟨hp, hu.fits⟩, List.forall_mem_cons.mpr ⟨hc, hu.low⟩⟩

theorem lowWord_ascii {c : Char} (h : lowWord c = true) : c.toNat < 128 := by
  rcases Bool.or_eq_true_iff.mp h with h | h
  · refine Data.isAlphanum_ascii ?_
    rcases Bool.or_eq_true_iff.mp h with h | h
    · simp [Char.isAlphanum, Char.isAlpha, h]
    · simp [Char.isAlphanum, h]
  · rw [beq_iff_eq] at h
    subst h
    decide

theorem toLower_lowWord {c : Char} (h : lowWord c = true) : c.toLower = c :=
  Data.ascii_forall (P := fun c => lowWord c = true → c.toLower = c) (by decide) c
    (lowWord_ascii h) h

theorem Part.map_toLower {ps : List (Char → Bool)} {t : Text} (h : Part ps t) :
    t.map Char.toLower = t := by
  rw [List.map_congr_left fun c hc => toLower_lowWord (h.low c hc), List.map_id']

theorem part_version (hello : ClientHello) : Part [lowerAlnum, lowerAlnum] (version hello) := by
  have hnamed : ∀ id name, tlsVersion id = some name → Part [lowerAlnum, lowerAlnum] name := by
    intro id name hname
    unfold tlsVersion at hname
    split at hname
    all_goals first
      | cases hname
        done
      | obtain rfl := Option.some.inj hname
        exact ⟨by decide, by decide⟩
  have hfallback : Part [lowerAlnum, lowerAlnum]
      ((tlsVersion hello.protocolHelloId).getD ['0', '0']) := by
    cases hid : tlsVersion hello.protocolHelloId with
    | none => exact ⟨by decide, by decide⟩
    | some name => exact hnamed _ name hid
  unfold version
  cases hnewest : (newestVersion (dtlsVersion hello.protocolHelloId)
      (entries hello.supportedVersionsBin)).bind tlsVersion with
  | none => exact hfallback
  | some name =>
      obtain ⟨id, -, hname⟩ := Option.bind_eq_some_iff.mp hnewest
      exact hnamed id name hname

theorem fits_length {ps : List (Char → Bool)} {t : Text} (h : fits ps t = true) :
    t.length = ps.length := by
  fun_induction fits ps t with
  | case1 => rfl
  | case2 p ps c t ih => exact congrArg (· + 1) (ih (Bool.and_eq_true_iff.mp h).2)
  | case3 => cases h

theorem version_eq_pair (hello : ClientHello) : ∃ a b, version hello = [a, b] :=
  List.length_eq_two.mp (fits_length (part_version hello).fits)

theorem digit_digitChar {d : Nat} (h : d < 10) : (Nat.digitChar d).isDigit = true := by
  have hall : ∀ d < 10, (Nat.digitChar d).isDigit = true := by decide
  exact hall d h

theorem decimal_of_isDigit {U : UnicodeTables} {c : Char} (h : c.isDigit = true) :
    decimal U c = true := by
  have hascii : c.toNat < 128 := Data.isAlphanum_ascii (by simp [Char.isAlphanum, h])
  rw [decimal, UnicodeTables.decimalValue, if_pos hascii, if_pos h]
  rfl

theorem part_pad2 {U : UnicodeTables} {n : Nat} (h : n < 100) :
    Part [decimal U, decimal U] (pad2 n) := by
  have hten : (Nat.digitChar (n / 10)).isDigit = true := digit_digitChar (by omega)
  have hone : (Nat.digitChar (n % 10)).isDigit = true := digit_digitChar (by omega)
  have hlow : ∀ {c : Char}, c.isDigit = true → lowWord c = true := fun h => by simp [lowWord, h]
  refine .cons (decimal_of_isDigit hten) (hlow hten) (.cons (decimal_of_isDigit hone) (hlow hone) ?_)
  exact ⟨rfl, nofun⟩

theorem length_hex (bytes : List UInt8) : (hex bytes).length = 2 * bytes.length := by
  induction bytes with
  | nil => rfl
  | cons b bytes ih =>
      have hcons : hex (b :: bytes) = (Nat.digitChar (b.toNat / 16)).toUpper ::
          (Nat.digitChar (b.toNat % 16)).toUpper :: hex bytes := rfl
      rw [hcons, List.length_cons, List.length_cons, ih, List.length_cons]
      omega

/-- The digits of a hash are in lower case. -/
theorem low_hex {bytes : List UInt8} {c : Char} (hc : c ∈ hex bytes) :
    lowerHex c.toLower = true ∧ lowWord c.toLower = true := by
  have hdigit : ∀ n < 16, lowerHex (Nat.digitChar n).toUpper.toLower = true ∧
      lowWord (Nat.digitChar n).toUpper.toLower = true := by decide
  obtain ⟨b, -, hc⟩ := List.mem_flatMap.mp hc
  have hb := b.toNat_lt
  simp only [List.mem_cons, List.not_mem_nil, or_false] at hc
  rcases hc with rfl | rfl
  · exact hdigit _ (by omega)
  · exact hdigit _ (by omega)

theorem part_zeros : Part (List.replicate 12 lowerHex) (List.replicate 12 '0') :=
  ⟨by decide, by decide⟩

variable {sha256 : List UInt8 → Vector UInt8 32} {U : UnicodeTables}

theorem part_sha256Truncated (input : Text) :
    Part (List.replicate 12 lowerHex) (sha256Truncated sha256 input) := by
  have hlength : (sha256Truncated sha256 input).length = 12 := by
    rw [sha256Truncated, List.length_map, List.length_take, length_hex, Vector.length_toList]
    rfl
  have hchars : ∀ c ∈ sha256Truncated sha256 input, lowerHex c = true ∧ lowWord c = true := by
    intro c hc
    obtain ⟨d, hd, rfl⟩ := List.mem_map.mp hc
    exact low_hex (List.mem_of_mem_take hd)
  refine ⟨?_, fun c hc => (hchars c hc).2⟩
  rw [← hlength]
  exact fits_replicate fun c hc => (hchars c hc).1

theorem part_cipherHash (hello : ClientHello) :
    Part (List.replicate 12 lowerHex) (cipherHash sha256 hello) := by
  rw [cipherHash, hashOf]
  split
  · exact part_zeros
  · exact part_sha256Truncated _

theorem part_extensionHash (hello : ClientHello) :
    Part (List.replicate 12 lowerHex) (extensionHash sha256 hello) := by
  simp only [extensionHash]
  split
  · exact part_zeros
  · split
    · exact part_sha256Truncated _
    · exact part_sha256Truncated _

/-- The part of a fingerprint in front of the protocol name. -/
def front (hello : ClientHello) : Text :=
  protocol hello :: (version hello ++ (if hello.hasSni then 'd' else 'i') ::
    (pad2 (min (entries hello.cipherlistBin).length 99) ++
      pad2 (min (entries hello.extlistBin).length 99)))

/-- The part after it. -/
def back (sha256 : List UInt8 → Vector UInt8 32) (hello : ClientHello) : Text :=
  '_' :: (cipherHash sha256 hello ++ '_' :: extensionHash sha256 hello)

theorem computeJa4_eq (hello : ClientHello) :
    computeJa4 sha256 hello = front hello ++ (alpnField hello ++ back sha256 hello) := by
  simp [computeJa4, front, back]

theorem part_front (hello : ClientHello) : Part (frontClasses U) (front hello) := by
  have hprotocol : (protocol hello == 't' || protocol hello == 'q' || protocol hello == 'd') = true ∧
      lowWord (protocol hello) = true := by
    rw [protocol]
    split
    · exact ⟨rfl, rfl⟩
    · split
      · exact ⟨rfl, rfl⟩
      · exact ⟨rfl, rfl⟩
  have hcounts : ∀ n, min n 99 < 100 := fun n => by omega
  have hpads := (part_pad2 (U := U) (hcounts (entries hello.cipherlistBin).length)).append
    (part_pad2 (U := U) (hcounts (entries hello.extlistBin).length))
  refine .cons hprotocol.1 hprotocol.2 ((part_version hello).append (.cons ?_ ?_ hpads))
  · cases hello.hasSni <;> rfl
  · cases hello.hasSni <;> rfl

theorem part_back (hello : ClientHello) : Part backClasses (back sha256 hello) :=
  .cons rfl rfl ((part_cipherHash hello).append (.cons rfl rfl (part_extensionHash hello)))

/-- The characters from the protocol name are letters and digits. -/
theorem alpnField_spec (hello : ClientHello) :
    ∃ a b, alpnField hello = [a, b] ∧ a.isAlphanum = true ∧ b.isAlphanum = true := by
  have hdigit : ∀ n < 16, (Nat.digitChar n).isAlphanum = true := by decide
  have hbyte : ∀ b : UInt8, alnumByte b = true → (Char.ofNat b.toNat).isAlphanum = true := by
    intro b hb
    have hall : ∀ n < 128, alnumByte (UInt8.ofNat n) = true →
        (Char.ofNat n).isAlphanum = true := by decide
    have hascii : b.toNat < 128 := by
      have h9 : (57 : UInt8).toNat = 57 := rfl
      have hZ : (90 : UInt8).toNat = 90 := rfl
      have hz : (122 : UInt8).toNat = 122 := rfl
      simp only [alnumByte, Bool.or_eq_true, Bool.and_eq_true, decide_eq_true_eq,
        UInt8.le_iff_toNat_le] at hb
      omega
    refine hall b.toNat hascii ?_
    rwa [UInt8.ofNat_toNat]
  rw [alpnField]
  split
  · next b bytes halpn =>
      dsimp only
      split
      · have hb := b.toNat_lt
        exact ⟨_, _, rfl, hdigit _ (by omega), hdigit _ (by omega)⟩
      · next hboth =>
          rw [Bool.or_eq_true_iff, not_or, Bool.not_eq_true', Bool.not_eq_true',
            Bool.not_eq_false, Bool.not_eq_false] at hboth
          exact ⟨_, _, rfl, hbyte b hboth.1, hbyte _ hboth.2⟩
  · exact ⟨'0', '0', rfl, rfl, rfl⟩

/-! ### Fingerprints as list entries -/

theorem isAlphanum_of_mem_alpnField {hello : ClientHello} {c : Char}
    (hc : c ∈ alpnField hello) : c.isAlphanum = true := by
  obtain ⟨a, b, halpn, ha, hb⟩ := alpnField_spec hello
  rw [halpn] at hc
  simp only [List.mem_cons, List.not_mem_nil, or_false] at hc
  rcases hc with rfl | rfl
  · exact ha
  · exact hb

/-- The characters of a fingerprint are letters, digits and underscores. -/
theorem word_computeJa4 {hello : ClientHello} {c : Char} (hc : c ∈ computeJa4 sha256 hello) :
    lowWord c = true ∨ c.isAlphanum = true := by
  rw [computeJa4_eq, List.mem_append, List.mem_append] at hc
  rcases hc with hc | hc | hc
  · exact .inl ((part_front (U := .ascii) hello).low c hc)
  · exact .inr (isAlphanum_of_mem_alpnField hc)
  · exact .inl ((part_back hello).low c hc)

theorem space_word {c : Char} (h : lowWord c = true ∨ c.isAlphanum = true) :
    c.toNat < 128 ∧ U.space c = false := by
  have hascii : c.toNat < 128 := h.elim lowWord_ascii Data.isAlphanum_ascii
  refine ⟨hascii, ?_⟩
  rw [UnicodeTables.space, if_pos hascii]
  refine Data.ascii_forall (P := fun c => lowWord c = true ∨ c.isAlphanum = true →
    (c == ' ' || (9 ≤ c.toNat && c.toNat ≤ 13) || (28 ≤ c.toNat && c.toNat ≤ 31)) = false)
    (by decide) c hascii h

/-- **Every fingerprint is accepted**, and returned in lower case. -/
theorem validate_computeJa4 (hello : ClientHello) :
    validateJa4Value U (computeJa4 sha256 hello) =
      .ok ((computeJa4 sha256 hello).map Char.toLower) := by
  have hword := fun c (hc : c ∈ computeJa4 sha256 hello) => space_word (U := U) (word_computeJa4 hc)
  have hne : computeJa4 sha256 hello ≠ [] := List.cons_ne_nil _ _
  have hlow : ∀ {c : Char}, c.isAlphanum = true → lowerAlnum c.toLower = true := by
    intro c hc
    exact Data.ascii_forall (P := fun c => c.isAlphanum = true → lowerAlnum c.toLower = true)
      (by decide) c (Data.isAlphanum_ascii hc) hc
  have hre : ja4Re U ((computeJa4 sha256 hello).map Char.toLower) = true := by
    obtain ⟨a, b, halpn, ha, hb⟩ := alpnField_spec hello
    have hline : '\n' ∉ (computeJa4 sha256 hello).map Char.toLower := by
      intro hc
      obtain ⟨c, hc, hlower⟩ := List.mem_map.mp hc
      have hascii := (hword c hc).1
      exact Data.ascii_forall (P := fun c => lowWord c = true ∨ c.isAlphanum = true →
        c.toLower ≠ '\n') (by decide) c hascii (word_computeJa4 hc) hlower
    rw [ja4Re, Python.chopLineEnd_eq hline, computeJa4_eq, List.map_append, List.map_append,
      (part_front (U := U) hello).map_toLower, (part_back hello).map_toLower, halpn]
    refine fits_append (part_front hello).fits (fits_append ?_ (part_back hello).fits)
    simp only [List.map_cons, List.map_nil, fits, hlow ha, hlow hb, Bool.and_true]
  simp only [validateJa4Value]
  rw [if_neg hne, U.strip_eq_self fun c hc => (hword c hc).2,
    U.lower_eq_map fun c hc => (hword c hc).1, if_pos hre]

/-- **Exactly the fingerprints whose characters from the protocol name are not in upper case are
returned unchanged**. -/
theorem unchanged_iff (hello : ClientHello) :
    validateJa4Value U (computeJa4 sha256 hello) = .ok (computeJa4 sha256 hello) ↔
      ∀ c ∈ alpnField hello, c.isUpper = false := by
  have hlower : ∀ {c : Char}, c.isAlphanum = true → (c.toLower = c ↔ c.isUpper = false) := by
    intro c hc
    exact Data.ascii_forall (P := fun c => c.toLower = c ↔ c.isUpper = false) (by decide) c
      (Data.isAlphanum_ascii hc)
  rw [validate_computeJa4, Except.ok.injEq, computeJa4_eq, List.map_append, List.map_append,
    (part_front (U := U) hello).map_toLower, (part_back hello).map_toLower,
    List.append_cancel_left_eq, List.append_cancel_right_eq]
  constructor
  · intro h c hc
    refine (hlower (isAlphanum_of_mem_alpnField hc)).mp ?_
    exact List.map_eq_map_iff.mp (h.trans (List.map_id' _).symm) c hc
  · intro h
    refine (List.map_congr_left fun c hc => ?_).trans (List.map_id' _)
    exact (hlower (isAlphanum_of_mem_alpnField hc)).mpr (h c hc)

/-! ### The counts -/

/-- **The counts are written** in the places of the format. -/
theorem counts_written (hello : ClientHello) :
    ((computeJa4 sha256 hello).drop 4).take 4 =
      pad2 (min (entries hello.cipherlistBin).length 99) ++
        pad2 (min (entries hello.extlistBin).length 99) := by
  obtain ⟨v₁, v₂, hversion⟩ := version_eq_pair hello
  rw [computeJa4, hversion]
  rfl

/-- The pattern of `risk_capture` asks for a digit in the fourth place. -/
theorem captures_eq_none {p a b c : Char} {t : Text} (hc : c.isDigit = false) :
    captures (p :: a :: b :: c :: t) = none := by
  unfold captures
  split
  · next heq =>
      obtain ⟨rfl, rfl, rfl, rfl, rfl⟩ : _ ∧ _ ∧ _ ∧ _ ∧ _ := by simpa using heq
      simp [hc]
  · rfl

/-- Nothing is read from a fingerprint. -/
theorem riskCapture_computeJa4 (hello : ClientHello) :
    riskCapture (computeJa4 sha256 hello) = ([], []) := by
  obtain ⟨v₁, v₂, hversion⟩ := version_eq_pair hello
  have hflag : (if hello.hasSni then 'd' else 'i').isDigit = false := by
    cases hello.hasSni <;> rfl
  have hnone : captures (computeJa4 sha256 hello) = none := by
    rw [computeJa4, hversion]
    exact captures_eq_none hflag
  rw [riskCapture, hnone]
  rfl

variable (sha256) (U) in
/-- A fingerprint is returned unchanged, and read for the numbers of ciphers and extensions. -/
def Agreed (hello : ClientHello) : Prop :=
  validateJa4Value U (computeJa4 sha256 hello) = .ok (computeJa4 sha256 hello) ∧
    riskCapture (computeJa4 sha256 hello) =
      (natText (min 99 (entries hello.cipherlistBin).length),
        natText (min 99 (entries hello.extlistBin).length))

/-- **The fingerprint of no ClientHello is agreed on**: it is read for no numbers. -/
theorem not_agreed (hello : ClientHello) : ¬ Agreed sha256 U hello := by
  intro h
  have hcount := congrArg Prod.fst ((riskCapture_computeJa4 hello).symm.trans h.2)
  exact Data.natText_ne_nil _ hcount.symm

/-! ### A client of TLS 1.3 -/

/-- One cipher, and the extensions `server_name` and `supported_versions`. -/
def tls13Client : ClientHello where
  protocolHelloId := 0x0303
  reqVer := some "1.1".toList
  supportedVersionsBin := some [0x03, 0x04]
  alpn := some [0x68, 0x32]
  cipherlistBin := some [0x13, 0x01]
  extlistBin := some [0x00, 0x00, 0x00, 0x2b]
  sigalgsBin := none
  hasSni := true

/-- The digests of its two lists, as far as the fingerprint has them. -/
def tls13Digest (input : List UInt8) : Vector UInt8 32 :=
  let digest : List UInt8 :=
    if input = [0x31, 0x33, 0x30, 0x31] then [0x0f, 0x2c, 0xb4, 0x41, 0x70, 0xf4]
    else [0xb9, 0xa4, 0x91, 0xfe, 0xfe, 0x05]
  Vector.ofFn fun i => digest.getD i 0

/-- Its fingerprint. -/
example : computeJa4 tls13Digest tls13Client =
    "t13d0102h2_0f2cb44170f4_b9a491fefe05".toList := by decide +kernel

/-- **Its numbers are not read**, though it has one cipher and two extensions. -/
theorem tls13Client_unread : ¬ Agreed tls13Digest .ascii tls13Client := by
  have hread : riskCapture (computeJa4 tls13Digest tls13Client) ≠ (natText 1, natText 2) := by
    decide +kernel
  exact fun h => hread h.2

end CorexManager.Ja4
