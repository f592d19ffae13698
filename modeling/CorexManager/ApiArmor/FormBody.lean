import CorexManager.Rust.Text
import CorexManager.Rust.Utf8

/-!
# Form bodies

`parse_form_body` and `url_decode` of `body_parser/src/lib.rs`, and the format that they read,
`application/x-www-form-urlencoded`: escapes stand for bytes, and the bytes are those of UTF-8.  The
decoder makes a character of every byte, it cuts the text behind two bytes of an escape, and it reads
the digits of an escape as a number, which may have a sign.

* `urlDecode`, `parseFormBody` — the functions; `none` is a panic.
* `decodeText`, `formPairs` — the format.
* `Plain` — a text of ASCII whose escapes are ASCII and without signs.
* `decodes_iff` — a text is decoded as the format says exactly if it is plain, and its pairs are read
  exactly if also no name or value has blanks around it and every pair has a name.
-/

namespace CorexManager.ApiArmor

open Data (Text)
open Rust (asBytes fromUtf8)

/-! ### The decoder -/

/-- A digit of an escape. -/
def hexByte (b : UInt8) : Option UInt8 :=
  if 48 ≤ b ∧ b ≤ 57 then some (b - 48)
  else if 65 ≤ b ∧ b ≤ 70 then some (b - 55)
  else if 97 ≤ b ∧ b ≤ 102 then some (b - 87)
  else none

/-- `u8::from_str_radix(hex, 16)` of two bytes; the first one may be a sign. -/
def fromStrRadix (h₁ h₂ : UInt8) : Option UInt8 :=
  (hexByte h₂).bind fun low =>
    if h₁ = 43 then some low else (hexByte h₁).map fun high => 16 * high + low

/-- `is_char_boundary`, in front of some bytes. -/
def isCharBoundary : List UInt8 → Bool
  | [] => true
  | b :: _ => !(128 ≤ b && b < 192)

/-- `byte as char`. -/
def byteChar (b : UInt8) : Char := Char.ofNat b.toNat

/-- What is read behind a percent sign: the number of two bytes, if they are there. -/
def escapeWith (read : UInt8 → UInt8 → Option UInt8) : List UInt8 → Option UInt8
  | h₁ :: h₂ :: _ => read h₁ h₂
  | _ => none

/-- The loop of `url_decode`; `skip` bytes are those of the last escape. -/
def urlDecodeFrom : (skip : Nat) → List UInt8 → Option Text
  | _, [] => some []
  | skip + 1, _ :: rest => urlDecodeFrom skip rest
  | 0, b :: rest =>
      if b = 43 then (urlDecodeFrom 0 rest).map (' ' :: ·)
      else if b = 37 ∧ 2 ≤ rest.length then
        -- `&s[i + 1..i + 3]` panics if a character does not end there
        if isCharBoundary rest ∧ isCharBoundary (rest.drop 2) then
          match escapeWith fromStrRadix rest with
          | some byte => (urlDecodeFrom 2 rest).map (byteChar byte :: ·)
          | none => (urlDecodeFrom 0 rest).map ('%' :: ·)
        else none
      else (urlDecodeFrom 0 rest).map (byteChar b :: ·)

/-- `url_decode`. -/
def urlDecode (s : Text) : Option Text := urlDecodeFrom 0 (asBytes s)

/-- The name of a pair, in front of the first `=`. -/
def formKey (pair : Text) : Text := pair.takeWhile (· != '=')

/-- The value of a pair, behind the first `=`. -/
def formValue (pair : Text) : Text := (pair.dropWhile (· != '=')).drop 1

/-- One pair; without a name it is left out. -/
def formPair (pair : Text) : Option (Option (Text × Text)) :=
  (urlDecode (Rust.trim (formKey pair))).bind fun key =>
    (urlDecode (Rust.trim (formValue pair))).map fun value =>
      if key ≠ [] then some (key, value) else none

/-- `parse_form_body`. -/
def parseFormBody (body : Text) : Option (List (Text × Text)) :=
  ((Rust.split '&' body).mapM formPair).map fun pairs => pairs.filterMap id

/-! ### The format -/

/-- Two digits. -/
def hexPair (h₁ h₂ : UInt8) : Option UInt8 :=
  (hexByte h₁).bind fun high => (hexByte h₂).map fun low => 16 * high + low

/-- The bytes that bytes with escapes stand for; `skip` of them are those of the last escape. -/
def percentDecodeFrom : (skip : Nat) → List UInt8 → List UInt8
  | _, [] => []
  | skip + 1, _ :: rest => percentDecodeFrom skip rest
  | 0, b :: rest =>
      if b = 43 then 32 :: percentDecodeFrom 0 rest
      else if b = 37 then
        match escapeWith hexPair rest with
        | some byte => byte :: percentDecodeFrom 2 rest
        | none => 37 :: percentDecodeFrom 0 rest
      else b :: percentDecodeFrom 0 rest

/-- A reader of UTF-8, with replacement characters in place of what is none. -/
structure Utf8Reader where
  read : List UInt8 → Text
  valid {bytes : List UInt8} {t : Text} : fromUtf8 bytes = some t → read bytes = t
  invalid {bytes : List UInt8} : fromUtf8 bytes = none → Char.ofNat 65533 ∈ read bytes

/-- The reader that replaces all of what is none. -/
instance : Inhabited Utf8Reader where
  default :=
    { read := fun bytes => (fromUtf8 bytes).getD [Char.ofNat 65533]
      valid := fun h => by rw [h]; rfl
      invalid := fun h => by rw [h]; exact List.mem_singleton_self _ }

/-- What an encoded text stands for. -/
def decodeText (D : Utf8Reader) (s : Text) : Text := D.read (percentDecodeFrom 0 (asBytes s))

/-- The pairs of a body. -/
def formPairs (D : Utf8Reader) (body : Text) : List (Text × Text) :=
  ((Rust.split '&' body).filter (· ≠ [])).map fun pair =>
    (decodeText D (formKey pair), decodeText D (formValue pair))

/-! ### Plain texts -/

/-- **Plain bytes**: ASCII, with escapes of ASCII and no percent sign in front of a plus sign and a
digit. -/
structure PlainBytes (bytes : List UInt8) : Prop where
  ascii b : b ∈ bytes → b < 128
  escapes h₁ h₂ v : [37, h₁, h₂] <:+: bytes → hexPair h₁ h₂ = some v → v < 128
  signs h : [37, 43, h] <:+: bytes → hexByte h = none

/-- Part of plain bytes. -/
theorem PlainBytes.of_infix {part bytes : List UInt8} (h : PlainBytes bytes) (hpart : part <:+: bytes) :
    PlainBytes part where
  ascii b hb := h.ascii b (hpart.subset hb)
  escapes h₁ h₂ v hin := h.escapes h₁ h₂ v (hin.trans hpart)
  signs d hin := h.signs d (hin.trans hpart)

/-- **A plain text.** -/
def Plain (s : Text) : Prop := PlainBytes (asBytes s)

/-! ### Digits -/

theorem fromStrRadix_eq {h₁ h₂ : UInt8} (h : h₁ ≠ 43) : fromStrRadix h₁ h₂ = hexPair h₁ h₂ := by
  unfold fromStrRadix hexPair
  cases hexByte h₂ with
  | none => cases hexByte h₁ <;> rfl
  | some low =>
      rw [Option.bind_some, if_neg h]
      cases hexByte h₁ <;> rfl

theorem hexPair_plus (h₂ : UInt8) : hexPair 43 h₂ = none := rfl

theorem fromStrRadix_plus (h₂ : UInt8) : fromStrRadix 43 h₂ = hexByte h₂ := by
  unfold fromStrRadix
  cases hexByte h₂ <;> rfl

/-- Where the digits are. -/
theorem hexByte_range (b : UInt8) : ∀ v ∈ hexByte b, 48 ≤ b ∧ b ≤ 102 ∧ v < 16 := by
  intro v hv
  have hread : 48 ≤ b ∧ b ≤ 57 ∧ b - 48 = v ∨ 65 ≤ b ∧ b ≤ 70 ∧ b - 55 = v ∨
      97 ≤ b ∧ b ≤ 102 ∧ b - 87 = v := by
    unfold hexByte at hv
    split at hv
    · next h => exact Or.inl ⟨h.1, h.2, Option.some.inj hv⟩
    split at hv
    · next h => exact Or.inr (Or.inl ⟨h.1, h.2, Option.some.inj hv⟩)
    split at hv
    · next h => exact Or.inr (Or.inr ⟨h.1, h.2, Option.some.inj hv⟩)
    · cases hv
  simp only [UInt8.le_iff_toNat_le, UInt8.lt_iff_toNat_lt, ← UInt8.toNat_inj, UInt8.toNat_sub,
    UInt8.toNat_ofNat] at hread ⊢
  omega

/-- Digits are ASCII, and they are no signs and no percent signs. -/
theorem of_hexByte (b : UInt8) : ∀ v ∈ hexByte b, b < 128 ∧ b ≠ 37 ∧ b ≠ 43 ∧ v < 128 := by
  intro v hv
  have hrange := hexByte_range b v hv
  simp only [UInt8.le_iff_toNat_le, UInt8.lt_iff_toNat_lt, ← UInt8.toNat_inj, UInt8.toNat_ofNat,
    ne_eq] at hrange ⊢
  omega

/-- Bytes of an escape. -/
theorem of_hexPair {h₁ h₂ v : UInt8} (h : hexPair h₁ h₂ = some v) :
    (h₁ < 128 ∧ h₁ ≠ 37) ∧ h₂ < 128 ∧ h₂ ≠ 37 := by
  obtain ⟨high, hhigh, h⟩ := Option.bind_eq_some_iff.mp h
  obtain ⟨low, hlow, -⟩ := Option.map_eq_some_iff.mp h
  have h₁' := of_hexByte h₁ high hhigh
  have h₂' := of_hexByte h₂ low hlow
  exact ⟨⟨h₁'.1, h₁'.2.1⟩, h₂'.1, h₂'.2.1⟩

theorem escapeWith_eq_some {read : UInt8 → UInt8 → Option UInt8} {bytes : List UInt8} {v : UInt8} :
    escapeWith read bytes = some v ↔ ∃ h₁ h₂ rest, bytes = h₁ :: h₂ :: rest ∧ read h₁ h₂ = some v := by
  constructor
  · intro h
    unfold escapeWith at h
    split at h
    · exact ⟨_, _, _, rfl, h⟩
    · cases h
  · rintro ⟨h₁, h₂, rest, rfl, h⟩
    exact h

/-- What the decoder reads behind a percent sign is the escape, unless there is a sign. -/
theorem escape_cases (rest : List UInt8) :
    escapeWith fromStrRadix rest = escapeWith hexPair rest ∨
      ∃ h v tail, rest = 43 :: h :: tail ∧ hexByte h = some v ∧
        escapeWith fromStrRadix rest = some v ∧ escapeWith hexPair rest = none := by
  rcases rest with _ | ⟨h₁, _ | ⟨h₂, tail⟩⟩
  · exact .inl rfl
  · exact .inl rfl
  · by_cases hplus : h₁ = 43
    · subst hplus
      cases hdigit : hexByte h₂ with
      | none => exact .inl ((fromStrRadix_plus h₂).trans hdigit)
      | some v => exact .inr ⟨h₂, v, tail, rfl, hdigit, (fromStrRadix_plus h₂).trans hdigit, rfl⟩
    · exact .inl (fromStrRadix_eq hplus)

/-! ### Escapes and signs -/

/-- Escapes are ASCII. -/
def AsciiEscapes (bytes : List UInt8) : Prop :=
  ∀ h₁ h₂ v, [37, h₁, h₂] <:+: bytes → hexPair h₁ h₂ = some v → v < 128

/-- No percent sign is in front of a plus sign and a digit. -/
def Signless (bytes : List UInt8) : Prop := ∀ h, [37, 43, h] <:+: bytes → hexByte h = none

variable {b : UInt8} {bytes rest : List UInt8}

theorem plainBytes_iff : PlainBytes bytes ↔
    (∀ b ∈ bytes, b < 128) ∧ AsciiEscapes bytes ∧ Signless bytes :=
  ⟨fun h => ⟨h.ascii, h.escapes, h.signs⟩, fun ⟨ascii, escapes, signs⟩ => ⟨ascii, escapes, signs⟩⟩

theorem asciiEscapes_cons : AsciiEscapes (b :: rest) ↔
    (b = 37 → ∀ v, escapeWith hexPair rest = some v → v < 128) ∧ AsciiEscapes rest := by
  constructor
  · intro h
    refine ⟨fun hb v hv => ?_, fun h₁ h₂ v hin => h h₁ h₂ v (List.infix_cons hin)⟩
    obtain ⟨h₁, h₂, tail, rfl, hpair⟩ := escapeWith_eq_some.mp hv
    exact h h₁ h₂ v ⟨[], tail, by rw [hb]; rfl⟩ hpair
  · rintro ⟨hhead, hrest⟩ h₁ h₂ v hin hpair
    rcases List.infix_cons_iff.mp hin with hprefix | hin
    · obtain ⟨hb, hprefix⟩ := List.cons_prefix_cons.mp hprefix
      obtain ⟨tail, rfl⟩ := hprefix
      exact hhead hb.symm v hpair
    · exact hrest h₁ h₂ v hin hpair

theorem signless_cons : Signless (b :: rest) ↔
    (b = 37 → ∀ h tail, rest = 43 :: h :: tail → hexByte h = none) ∧ Signless rest := by
  constructor
  · intro h
    refine ⟨fun hb d tail hrest => ?_, fun d hin => h d (List.infix_cons hin)⟩
    exact h d ⟨[], tail, by rw [hb, hrest]; rfl⟩
  · rintro ⟨hhead, hrest⟩ d hin
    rcases List.infix_cons_iff.mp hin with hprefix | hin
    · obtain ⟨hb, hprefix⟩ := List.cons_prefix_cons.mp hprefix
      obtain ⟨tail, rfl⟩ := hprefix
      exact hhead hb.symm d tail rfl
    · exact hrest d hin

/-- A byte that is no percent sign begins neither. -/
theorem signless_cons_ne (hb : b ≠ 37) : Signless (b :: rest) ↔ Signless rest :=
  signless_cons.trans (and_iff_right fun h => absurd h hb)

theorem percentDecodeFrom_plus (rest : List UInt8) :
    percentDecodeFrom 0 (43 :: rest) = 32 :: percentDecodeFrom 0 rest := rfl

theorem percentDecodeFrom_escape {v : UInt8} (h : escapeWith hexPair rest = some v) :
    percentDecodeFrom 0 (37 :: rest) = v :: percentDecodeFrom 2 rest := by
  rw [percentDecodeFrom, if_neg (by decide), if_pos rfl, h]

theorem percentDecodeFrom_percent (h : escapeWith hexPair rest = none) :
    percentDecodeFrom 0 (37 :: rest) = 37 :: percentDecodeFrom 0 rest := by
  rw [percentDecodeFrom, if_neg (by decide), if_pos rfl, h]

theorem percentDecodeFrom_other (hplus : b ≠ 43) (hpercent : b ≠ 37) :
    percentDecodeFrom 0 (b :: rest) = b :: percentDecodeFrom 0 rest := by
  rw [percentDecodeFrom, if_neg hplus, if_neg hpercent]

/-- One turn of the format: a byte, and the digits that are skipped behind it. -/
theorem percentDecodeFrom_cons (b : UInt8) (rest : List UInt8) : ∃ v skip,
    percentDecodeFrom 0 (b :: rest) = v :: percentDecodeFrom skip rest ∧
      (∀ d ∈ rest.take skip, d < 128 ∧ d ≠ 37) ∧
      (v < 128 ↔ b < 128 ∧ (b = 37 → ∀ w, escapeWith hexPair rest = some w → w < 128)) := by
  have hnone : ∀ d ∈ rest.take 0, d < 128 ∧ d ≠ 37 := fun d hd => absurd hd List.not_mem_nil
  by_cases hplus : b = 43
  · subst hplus
    exact ⟨32, 0, percentDecodeFrom_plus rest, hnone,
      iff_of_true (by decide) ⟨by decide, fun h => absurd h (by decide)⟩⟩
  · by_cases hpercent : b = 37
    · subst hpercent
      cases hescape : escapeWith hexPair rest with
      | none =>
          exact ⟨37, 0, percentDecodeFrom_percent hescape, hnone,
            iff_of_true (by decide) ⟨by decide, fun _ w hw => by cases hw⟩⟩
      | some v =>
          obtain ⟨h₁, h₂, tail, rfl, hpair⟩ := escapeWith_eq_some.mp hescape
          obtain ⟨hfirst, hsecond⟩ := of_hexPair hpair
          refine ⟨v, 2, percentDecodeFrom_escape hescape, by simpa using ⟨hfirst, hsecond⟩, ?_⟩
          exact ⟨fun hv => ⟨by decide, fun _ w hw => Option.some.inj hw ▸ hv⟩, fun h => h.2 rfl v rfl⟩
    · exact ⟨b, 0, percentDecodeFrom_other hplus hpercent, hnone,
        fun hb => ⟨hb, fun h => absurd h hpercent⟩, And.left⟩

/-- What is decoded is ASCII exactly if the bytes and their escapes are; the bytes that are skipped
are digits. -/
theorem percentDecodeFrom_ascii {skip : Nat} (hskip : ∀ b ∈ bytes.take skip, b < 128 ∧ b ≠ 37) :
    (∀ b ∈ percentDecodeFrom skip bytes, b < 128) ↔ (∀ b ∈ bytes, b < 128) ∧ AsciiEscapes bytes := by
  induction bytes generalizing skip with
  | nil =>
      refine iff_of_true (fun b hb => ?_) ⟨fun b hb => absurd hb List.not_mem_nil, fun h₁ h₂ v hin => ?_⟩
      · cases skip <;> exact absurd hb List.not_mem_nil
      · exact absurd (List.infix_nil.mp hin) (List.cons_ne_nil _ _)
  | cons b rest ih =>
      rw [List.forall_mem_cons, asciiEscapes_cons]
      cases skip with
      | succ skip =>
          obtain ⟨hb, hrest⟩ := List.forall_mem_cons.mp hskip
          rw [percentDecodeFrom, ih hrest, and_iff_right hb.1,
            and_iff_right (fun h : b = 37 => absurd h hb.2)]
      | zero =>
          obtain ⟨v, skip, hstep, hdigits, hv⟩ := percentDecodeFrom_cons b rest
          rw [hstep, List.forall_mem_cons, ih hdigits, hv, and_and_and_comm]

/-! ### The decoder on any text -/

/-- One turn of the decoder, if it does not panic: a byte where the format has one, or the byte of a
sign and a digit where it has three. -/
theorem urlDecodeFrom_cons {t : Text} (h : urlDecodeFrom 0 (b :: rest) = some t) :
    (∃ v skip u, t = byteChar v :: u ∧ urlDecodeFrom skip rest = some u ∧
        percentDecodeFrom 0 (b :: rest) = v :: percentDecodeFrom skip rest ∧
        (∀ d ∈ rest.take skip, d < 128 ∧ d ≠ 37) ∧ (Signless (b :: rest) ↔ Signless rest)) ∨
      ∃ v d tail u, rest = 43 :: d :: tail ∧ v < 128 ∧ t = byteChar v :: u ∧
        urlDecodeFrom 2 rest = some u ∧ d < 128 ∧ d ≠ 37 ∧ d ≠ 43 ∧ ¬ Signless (b :: rest) ∧
        percentDecodeFrom 0 (b :: rest) = 37 :: 32 :: d :: percentDecodeFrom 2 rest := by
  have hnone : ∀ d ∈ rest.take 0, d < 128 ∧ d ≠ 37 := fun d hd => absurd hd List.not_mem_nil
  rw [urlDecodeFrom] at h
  by_cases hplus : b = 43
  · subst hplus
    rw [if_pos rfl] at h
    obtain ⟨u, hu, rfl⟩ := Option.map_eq_some_iff.mp h
    exact .inl ⟨32, 0, u, rfl, hu, percentDecodeFrom_plus rest, hnone,
      signless_cons_ne (by decide)⟩
  rw [if_neg hplus] at h
  by_cases hpercent : b = 37
  · subst hpercent
    by_cases hlength : 2 ≤ rest.length
    · rw [if_pos ⟨rfl, hlength⟩] at h
      split at h
      next =>
        rcases escape_cases rest with heq | ⟨d, v, tail, rfl, hdigit, hcode, hformat⟩
        · rw [heq] at h
          cases hescape : escapeWith hexPair rest with
          | none =>
              rw [hescape] at h heq
              obtain ⟨u, hu, rfl⟩ := Option.map_eq_some_iff.mp h
              refine .inl ⟨37, 0, u, rfl, hu, percentDecodeFrom_percent hescape, hnone,
                signless_cons.trans (and_iff_right ?_)⟩
              rintro - d tail rfl
              exact (fromStrRadix_plus d).symm.trans heq
          | some v =>
              rw [hescape] at h
              obtain ⟨u, hu, rfl⟩ := Option.map_eq_some_iff.mp h
              obtain ⟨h₁, h₂, tail, rfl, hpair⟩ := escapeWith_eq_some.mp hescape
              obtain ⟨hfirst, hsecond⟩ := of_hexPair hpair
              refine .inl ⟨v, 2, u, rfl, hu, percentDecodeFrom_escape hescape,
                by simpa using ⟨hfirst, hsecond⟩, signless_cons.trans (and_iff_right ?_)⟩
              rintro - d tail' htail
              rw [(List.cons.inj htail).1, hexPair_plus] at hpair
              cases hpair
        · rw [hcode] at h
          obtain ⟨u, hu, rfl⟩ := Option.map_eq_some_iff.mp h
          obtain ⟨hd, hdpercent, hdplus, hv⟩ := of_hexByte d v hdigit
          refine .inr ⟨v, d, tail, u, rfl, hv, rfl, hu, hd, hdpercent, hdplus, fun hsigns => ?_, ?_⟩
          · rw [(signless_cons.mp hsigns).1 rfl d tail rfl] at hdigit
            cases hdigit
          · rw [percentDecodeFrom_percent hformat, percentDecodeFrom_plus,
              percentDecodeFrom_other hdplus hdpercent]
            rfl
      next => cases h
    · rw [if_neg (fun hboth => hlength hboth.2)] at h
      obtain ⟨u, hu, rfl⟩ := Option.map_eq_some_iff.mp h
      have hescape : escapeWith hexPair rest = none := by
        cases hescape : escapeWith hexPair rest with
        | none => rfl
        | some v =>
            obtain ⟨h₁, h₂, tail, rfl, -⟩ := escapeWith_eq_some.mp hescape
            exact absurd (Nat.le_add_left 2 tail.length) hlength
      refine .inl ⟨37, 0, u, rfl, hu, percentDecodeFrom_percent hescape, hnone,
        signless_cons.trans (and_iff_right ?_)⟩
      rintro - d tail rfl
      exact absurd (Nat.le_add_left 2 tail.length) hlength
  · rw [if_neg (fun hboth => hpercent hboth.1)] at h
    obtain ⟨u, hu, rfl⟩ := Option.map_eq_some_iff.mp h
    exact .inl ⟨b, 0, u, rfl, hu, percentDecodeFrom_other hplus hpercent, hnone,
      signless_cons_ne hpercent⟩

/-- The bytes that are no ASCII. -/
def wide (bytes : List UInt8) : Nat := bytes.countP fun b => 128 ≤ b

/-- **What the decoder gives**, if it does not panic: the characters of some bytes, as many of which
are no ASCII as in the format, and which are fewer if there is a sign, and the same otherwise. -/
theorem of_urlDecodeFrom {skip : Nat} {t : Text} (h : urlDecodeFrom skip bytes = some t)
    (hskip : ∀ b ∈ bytes.take skip, b < 128 ∧ b ≠ 37) :
    ∃ q, t = q.map byteChar ∧ wide q = wide (percentDecodeFrom skip bytes) ∧
      (Signless bytes → q = percentDecodeFrom skip bytes) ∧
      (¬ Signless bytes → q.length < (percentDecodeFrom skip bytes).length) := by
  induction bytes generalizing skip t with
  | nil =>
      have hsigns : Signless [] := fun d hin => absurd (List.infix_nil.mp hin) (List.cons_ne_nil _ _)
      refine ⟨[], ?_⟩
      cases skip with
      | zero => exact ⟨(Option.some.inj h).symm, rfl, fun _ => rfl, fun hnot => absurd hsigns hnot⟩
      | succ skip => exact ⟨(Option.some.inj h).symm, rfl, fun _ => rfl, fun hnot => absurd hsigns hnot⟩
  | cons b rest ih =>
      cases skip with
      | succ skip =>
          obtain ⟨hb, hrest⟩ := List.forall_mem_cons.mp hskip
          rw [signless_cons_ne hb.2]
          exact ih h hrest
      | zero =>
          rcases urlDecodeFrom_cons h with ⟨v, skip, u, rfl, hu, hstep, hdigits, hsigns⟩ |
            ⟨v, d, tail, u, rfl, hv, rfl, hu, hd, hdpercent, hdplus, hsign, hstep⟩
          · obtain ⟨q, rfl, hwide, hsame, hless⟩ := ih hu hdigits
            refine ⟨v :: q, rfl, ?_, ?_, ?_⟩
            · rw [hstep, wide, wide, List.countP_cons, List.countP_cons]
              exact congrArg (· + _) hwide
            · intro h
              rw [hstep, hsame (hsigns.mp h)]
            · intro h
              rw [hstep]
              exact Nat.succ_lt_succ (hless fun hrest => h (hsigns.mpr hrest))
          · obtain ⟨q, rfl, hwide, hsame, hless⟩ := ih hu (by simpa using ⟨hd, hdpercent⟩)
            refine ⟨v :: q, rfl, ?_, fun h => absurd h hsign, fun _ => ?_⟩
            · -- the sign and the digit are ASCII, as is what they are read as
              have hnarrow : ∀ x : UInt8, x < 128 → ¬ (128 ≤ x) := fun x hx => UInt8.not_le.mpr hx
              rw [hstep, wide, wide, List.countP_cons_of_neg (by simpa using hnarrow v hv),
                List.countP_cons_of_neg (by decide), List.countP_cons_of_neg (by decide),
                List.countP_cons_of_neg (by simpa using hnarrow d hd)]
              exact hwide
            · have hle : q.length ≤ (percentDecodeFrom 2 (43 :: d :: tail)).length := by
                by_cases hrest : Signless (43 :: d :: tail)
                · exact Nat.le_of_eq (congrArg List.length (hsame hrest))
                · exact (hless hrest).le
              rw [hstep, List.length_cons, List.length_cons, List.length_cons, List.length_cons]
              omega

/-- ASCII is decoded without a panic. -/
theorem urlDecodeFrom_isSome {skip : Nat} (h : ∀ b ∈ bytes, b < 128) :
    (urlDecodeFrom skip bytes).isSome := by
  have hboundary : ∀ bytes : List UInt8, (∀ b ∈ bytes, b < 128) → isCharBoundary bytes = true := by
    intro bytes hascii
    cases bytes with
    | nil => rfl
    | cons b rest =>
        have hb : ¬ (128 ≤ b) := UInt8.not_le.mpr (hascii b List.mem_cons_self)
        simp [isCharBoundary, hb]
  induction bytes generalizing skip with
  | nil => cases skip <;> rfl
  | cons b rest ih =>
      have hrest := (List.forall_mem_cons.mp h).2
      cases skip with
      | succ skip => exact ih hrest
      | zero =>
          rw [urlDecodeFrom]
          split
          · rw [Option.isSome_map]
            exact ih hrest
          · split
            · rw [if_pos ⟨hboundary rest hrest,
                hboundary _ fun b hb => hrest b (List.mem_of_mem_drop hb)⟩]
              split
              · rw [Option.isSome_map]
                exact ih hrest
              · rw [Option.isSome_map]
                exact ih hrest
            · rw [Option.isSome_map]
              exact ih hrest

/-! ### Characters of bytes -/

theorem toNat_byteChar (b : UInt8) : (byteChar b).toNat = b.toNat := by
  have hb := b.toNat_lt
  rw [byteChar, Char.toNat_ofNat, if_pos (Or.inl (by omega))]

theorem encode_byteChar (b : UInt8) :
    String.utf8EncodeChar (byteChar b) = [b] ∧ b < 128 ∨
      wide (String.utf8EncodeChar (byteChar b)) = 2 ∧ 128 ≤ b := by
  have hchar := toNat_byteChar b
  have hlt := b.toNat_lt
  by_cases hb : b < 128
  · left
    have hascii : (byteChar b).toNat < 128 := hchar.trans_lt (UInt8.lt_iff_toNat_lt.mp hb)
    rw [Rust.utf8EncodeChar_ascii hascii, hchar, UInt8.ofNat_toNat]
    exact ⟨rfl, hb⟩
  · right
    have hwide : 128 ≤ b.toNat := UInt8.le_iff_toNat_le.mp (UInt8.not_lt.mp hb)
    have hall : ∀ c ∈ String.utf8EncodeChar (byteChar b), decide (128 ≤ c) = true := fun c hc =>
      decide_eq_true (UInt8.le_iff_toNat_le.mpr
        (Rust.le_of_mem_utf8EncodeChar (hwide.trans_eq hchar.symm) hc))
    have hsize : (byteChar b).utf8Size = 2 := by
      have hval : (byteChar b).val.toNat = b.toNat := hchar
      simp only [Char.utf8Size, UInt32.le_iff_toNat_le, hval, UInt32.toNat_ofNatLT]
      rw [if_neg (by omega), if_pos (by omega)]
    refine ⟨?_, UInt8.not_lt.mp hb⟩
    rw [wide, List.countP_eq_length.mpr hall, String.length_utf8EncodeChar, hsize]

theorem asBytes_cons (b : UInt8) (q : List UInt8) : asBytes ((b :: q).map byteChar) =
    String.utf8EncodeChar (byteChar b) ++ asBytes (q.map byteChar) :=
  List.flatMap_cons

/-- A character of a byte that is no ASCII is two such bytes in UTF-8. -/
theorem wide_asBytes (q : List UInt8) : wide (asBytes (q.map byteChar)) = 2 * wide q := by
  induction q with
  | nil => rfl
  | cons b q ih =>
      have happend : wide (String.utf8EncodeChar (byteChar b) ++ asBytes (q.map byteChar)) =
          wide (String.utf8EncodeChar (byteChar b)) + wide (asBytes (q.map byteChar)) :=
        List.countP_append
      rw [asBytes_cons, happend, ih]
      rcases encode_byteChar b with ⟨hencode, hb⟩ | ⟨hwide, hb⟩
      · have hnarrow : ¬ (128 ≤ b) := UInt8.not_le.mpr hb
        rw [hencode]
        simp [wide, hnarrow]
      · rw [hwide]
        simp [wide, hb, Nat.mul_add, Nat.add_comm]

theorem wide_eq_zero {q : List UInt8} : wide q = 0 ↔ ∀ b ∈ q, b < 128 := by
  simp [wide, List.countP_eq_zero]

theorem asBytes_narrow {q : List UInt8} (h : ∀ b ∈ q, b < 128) : asBytes (q.map byteChar) = q := by
  induction q with
  | nil => rfl
  | cons b q ih =>
      obtain ⟨hb, hq⟩ := List.forall_mem_cons.mp h
      rcases encode_byteChar b with ⟨hencode, -⟩ | ⟨-, hwide⟩
      · rw [asBytes_cons, hencode, ih hq]
        rfl
      · exact absurd hb (UInt8.not_lt.mpr hwide)

theorem byteChar_ne (b : UInt8) : byteChar b ≠ Char.ofNat 65533 := by
  intro h
  have hchar : b.toNat = 65533 := (toNat_byteChar b).symm.trans (congrArg Char.toNat h)
  have hb := b.toNat_lt
  omega

/-! ### Texts -/

variable {D : Utf8Reader} {s : Text}

/-- What a plain text stands for. -/
def plainText (s : Text) : Text := (percentDecodeFrom 0 (asBytes s)).map byteChar

theorem Plain.narrow (h : Plain s) : ∀ b ∈ percentDecodeFrom 0 (asBytes s), b < 128 :=
  (percentDecodeFrom_ascii fun _ hb => absurd hb List.not_mem_nil).mpr ⟨h.ascii, h.escapes⟩

theorem Plain.decodeText (h : Plain s) : decodeText D s = plainText s :=
  D.valid (Rust.fromUtf8_eq_some.mpr (asBytes_narrow h.narrow))

theorem Plain.urlDecode (h : Plain s) : urlDecode s = some (plainText s) := by
  obtain ⟨t, ht⟩ := Option.isSome_iff_exists.mp (@urlDecodeFrom_isSome _ 0 h.ascii)
  obtain ⟨q, rfl, -, hsame, -⟩ := of_urlDecodeFrom ht fun _ hb => absurd hb List.not_mem_nil
  rw [ApiArmor.urlDecode, ht, hsame h.signs]
  rfl

/-- **One text** is decoded as the format says exactly if it is plain. -/
theorem urlDecode_iff : urlDecode s = some (decodeText D s) ↔ Plain s := by
  refine ⟨fun h => ?_, fun h => by rw [h.urlDecode, h.decodeText]⟩
  have hnone : ∀ b ∈ (asBytes s).take 0, b < 128 ∧ b ≠ 37 := fun b hb => absurd hb List.not_mem_nil
  obtain ⟨q, hq, hwide, hsame, hless⟩ := of_urlDecodeFrom h hnone
  -- the characters of bytes have no replacement character, so the bytes are UTF-8
  cases hvalid : fromUtf8 (percentDecodeFrom 0 (asBytes s)) with
  | none =>
      have hmem := D.invalid hvalid
      rw [show D.read _ = q.map byteChar from hq] at hmem
      obtain ⟨b, -, hb⟩ := List.mem_map.mp hmem
      exact absurd hb (byteChar_ne b)
  | some t =>
      have ht : t = q.map byteChar := (D.valid hvalid).symm.trans hq
      rw [ht, Rust.fromUtf8_eq_some] at hvalid
      -- twice as many of them are no ASCII as there are
      have hzero : wide q = 0 := by
        have htwice := wide_asBytes q
        rw [hvalid, ← hwide] at htwice
        omega
      have hdecoded : percentDecodeFrom 0 (asBytes s) = q :=
        hvalid.symm.trans (asBytes_narrow (wide_eq_zero.mp hzero))
      obtain ⟨hascii, hescapes⟩ :=
        (percentDecodeFrom_ascii hnone).mp (hdecoded ▸ wide_eq_zero.mp hzero)
      refine ⟨hascii, hescapes, ?_⟩
      by_contra hsigns
      have hlength := hless hsigns
      rw [hdecoded] at hlength
      exact absurd hlength (Nat.lt_irrefl _)

/-! ### Parts of a text -/

theorem asBytes_append (s t : Text) : asBytes (s ++ t) = asBytes s ++ asBytes t := List.flatMap_append

theorem Plain.of_infix {part : Text} (h : Plain s) (hpart : part <:+: s) : Plain part := by
  obtain ⟨before, after, rfl⟩ := hpart
  refine PlainBytes.of_infix h ⟨asBytes before, asBytes after, ?_⟩
  rw [asBytes_append, asBytes_append]

theorem infix_intercalate {sep part : Text} {ts : List Text} (h : part ∈ ts) :
    part <:+: sep.intercalate ts := by
  induction ts with
  | nil => cases h
  | cons t ts ih =>
      cases ts with
      | nil =>
          rw [List.mem_singleton.mp h, List.intercalate_singleton]
      | cons u ts =>
          rw [List.intercalate_cons_cons]
          rcases List.mem_cons.mp h with rfl | hrest
          · rw [List.append_assoc]
            exact (List.prefix_append ..).isInfix
          · exact (ih hrest).trans (List.suffix_append ..).isInfix

/-- The parts of a text are in it. -/
theorem infix_of_mem_split {c : Char} {part : Text} (h : part ∈ Rust.split c s) : part <:+: s := by
  have hinfix := @infix_intercalate [c] part _ h
  rwa [Rust.split, List.intercalate_splitOn] at hinfix

/-- A text is what it is without the blanks around it, and the blanks. -/
theorem trim_split (t : Text) : ∃ before after, t = before ++ Rust.trim t ++ after ∧
    ∀ c ∈ before ++ after, Rust.isWhitespace c = true := by
  refine ⟨t.takeWhile Rust.isWhitespace,
    ((t.dropWhile Rust.isWhitespace).reverse.takeWhile Rust.isWhitespace).reverse, ?_, ?_⟩
  · rw [Rust.trim, List.append_assoc, ← List.reverse_append, List.takeWhile_append_dropWhile,
      List.reverse_reverse, List.takeWhile_append_dropWhile]
  · intro c hc
    rcases List.mem_append.mp hc with hc | hc
    · exact List.mem_takeWhile_imp hc
    · exact List.mem_takeWhile_imp (List.mem_reverse.mp hc)

/-! ### Blanks -/

/-- A byte that neither is decoded nor belongs to an escape. -/
def Inert (b : UInt8) : Prop := b ≠ 43 ∧ b ≠ 37 ∧ hexByte b = none

instance (b : UInt8) : Decidable (Inert b) := inferInstanceAs (Decidable (_ ∧ _ ∧ _))

/-- The blanks. -/
def blanks : List Nat :=
  [9, 10, 11, 12, 13, 32, 133, 160, 5760, 8192, 8193, 8194, 8195, 8196, 8197, 8198, 8199, 8200, 8201,
    8202, 8232, 8233, 8239, 8287, 12288]

theorem mem_blanks {c : Char} (h : Rust.isWhitespace c = true) : c.toNat ∈ blanks := by
  simp only [Rust.isWhitespace, Bool.or_eq_true, Bool.and_eq_true, decide_eq_true_eq,
    beq_iff_eq] at h
  simp only [blanks, List.mem_cons, List.not_mem_nil, or_false]
  omega

/-- The signs and the digits are between these bounds. -/
theorem inert_of_outside {b : UInt8} (h : b < 37 ∨ 128 ≤ b) : Inert b := by
  have hnone : hexByte b = none := by
    cases hread : hexByte b with
    | none => rfl
    | some v =>
        have hrange := hexByte_range b v hread
        simp only [UInt8.le_iff_toNat_le, UInt8.lt_iff_toNat_lt, UInt8.toNat_ofNat] at h hrange
        omega
  refine ⟨?_, ?_, hnone⟩
  · rintro rfl
    exact absurd h (by decide)
  · rintro rfl
    exact absurd h (by decide)

/-- The bytes of a blank are inert, and there are some. -/
theorem inert_of_isWhitespace {c : Char} (h : Rust.isWhitespace c = true) :
    (∀ b ∈ String.utf8EncodeChar c, Inert b) ∧ String.utf8EncodeChar c ≠ [] := by
  refine ⟨fun b hb => inert_of_outside ?_, String.utf8EncodeChar_ne_nil⟩
  by_cases hascii : c.toNat < 128
  · left
    have hblank : c.toNat < 37 := by
      have hmem := mem_blanks h
      simp only [blanks, List.mem_cons, List.not_mem_nil, or_false] at hmem
      omega
    rw [Rust.utf8EncodeChar_ascii hascii] at hb
    rw [List.mem_singleton.mp hb, UInt8.lt_iff_toNat_lt, UInt8.toNat_ofNat']
    exact (Nat.mod_le _ _).trans_lt hblank
  · right
    exact UInt8.le_iff_toNat_le.mpr (Rust.le_of_mem_utf8EncodeChar (Nat.le_of_not_lt hascii) hb)

theorem percentDecodeFrom_inert_append {before : List UInt8} (h : ∀ b ∈ before, Inert b)
    (bytes : List UInt8) : percentDecodeFrom 0 (before ++ bytes) = before ++ percentDecodeFrom 0 bytes := by
  induction before with
  | nil => rfl
  | cons b before ih =>
      obtain ⟨⟨hplus, hpercent, -⟩, hrest⟩ := List.forall_mem_cons.mp h
      rw [List.cons_append, percentDecodeFrom_other hplus hpercent, ih hrest, List.cons_append]

/-- A byte behind others that belongs to no escape. -/
theorem percentDecodeFrom_concat {skip : Nat} (hb : Inert b) (hskip : skip ≤ bytes.length) :
    percentDecodeFrom skip (bytes ++ [b]) = percentDecodeFrom skip bytes ++ [b] := by
  induction bytes generalizing skip with
  | nil =>
      obtain rfl := Nat.le_zero.mp hskip
      exact percentDecodeFrom_other hb.1 hb.2.1
  | cons d rest ih =>
      cases skip with
      | succ skip => exact ih (Nat.le_of_succ_le_succ hskip)
      | zero =>
          rw [List.cons_append]
          by_cases hplus : d = 43
          · subst hplus
            rw [percentDecodeFrom_plus, percentDecodeFrom_plus, ih (Nat.zero_le _), List.cons_append]
          by_cases hpercent : d = 37
          · subst hpercent
            have hescape : escapeWith hexPair (rest ++ [b]) = escapeWith hexPair rest := by
              rcases rest with _ | ⟨h₁, _ | ⟨h₂, tail⟩⟩
              · rfl
              · show hexPair h₁ b = none
                rw [hexPair, hb.2.2]
                cases hexByte h₁ <;> rfl
              · rfl
            cases hread : escapeWith hexPair rest with
            | none =>
                rw [percentDecodeFrom_percent (hescape.trans hread), percentDecodeFrom_percent hread,
                  ih (Nat.zero_le _), List.cons_append]
            | some v =>
                obtain ⟨h₁, h₂, tail, rfl, -⟩ := escapeWith_eq_some.mp hread
                rw [percentDecodeFrom_escape (hescape.trans hread), percentDecodeFrom_escape hread,
                  ih (Nat.le_add_left 2 tail.length), List.cons_append]
          · rw [percentDecodeFrom_other hplus hpercent, percentDecodeFrom_other hplus hpercent,
              ih (Nat.zero_le _), List.cons_append]

theorem percentDecodeFrom_append_inert {after : List UInt8} (h : ∀ b ∈ after, Inert b)
    (bytes : List UInt8) : percentDecodeFrom 0 (bytes ++ after) = percentDecodeFrom 0 bytes ++ after := by
  induction after generalizing bytes with
  | nil => rw [List.append_nil, List.append_nil]
  | cons b after ih =>
      obtain ⟨hb, hrest⟩ := List.forall_mem_cons.mp h
      rw [List.append_cons, ih hrest, percentDecodeFrom_concat hb (Nat.zero_le _), ← List.append_cons]

theorem inert_asBytes {t : Text} (h : ∀ c ∈ t, Rust.isWhitespace c = true) :
    ∀ b ∈ asBytes t, Inert b := by
  intro b hb
  obtain ⟨c, hc, hbc⟩ := List.mem_flatMap.mp hb
  exact (inert_of_isWhitespace (h c hc)).1 b hbc

/-- **Blanks around a text** are part of what it stands for. -/
theorem plainText_trim_iff (t : Text) : plainText (Rust.trim t) = plainText t ↔ Rust.trim t = t := by
  refine ⟨fun h => ?_, fun h => by rw [h]⟩
  obtain ⟨before, after, ht, hblank⟩ := trim_split t
  obtain ⟨hbefore, hafter⟩ := List.forall_mem_append.mp hblank
  have hdecoded : percentDecodeFrom 0 (asBytes t) =
      asBytes before ++ percentDecodeFrom 0 (asBytes (Rust.trim t)) ++ asBytes after := by
    conv_lhs => rw [ht]
    rw [asBytes_append, asBytes_append, percentDecodeFrom_append_inert (inert_asBytes hafter),
      percentDecodeFrom_inert_append (inert_asBytes hbefore)]
  have hlength := congrArg List.length h
  rw [plainText, plainText, List.length_map, List.length_map, hdecoded, List.length_append,
    List.length_append] at hlength
  have hnil : ∀ u : Text, (∀ c ∈ u, Rust.isWhitespace c = true) → (asBytes u).length = 0 → u = [] := by
    intro u hu hzero
    cases u with
    | nil => rfl
    | cons c u =>
        have hsome := (inert_of_isWhitespace (hu c List.mem_cons_self)).2
        have hempty : String.utf8EncodeChar c ++ asBytes u = [] := List.eq_nil_of_length_eq_zero hzero
        exact absurd (List.append_eq_nil_iff.mp hempty).1 hsome
  have hbeforeNil := hnil before hbefore (by omega)
  have hafterNil := hnil after hafter (by omega)
  rw [hbeforeNil, hafterNil, List.nil_append, List.append_nil] at ht
  exact ht.symm

theorem plainText_eq_nil {t : Text} : plainText t = [] ↔ t = [] := by
  refine ⟨fun h => ?_, fun h => by rw [h]; rfl⟩
  cases t with
  | nil => rfl
  | cons c t =>
      exfalso
      have hne : asBytes (c :: t) ≠ [] := fun hnil => by
        have hlength := congrArg List.length hnil
        rw [Rust.length_asBytes] at hlength
        have hle := Rust.length_le_len (c :: t)
        rw [List.length_cons] at hle
        rw [List.length_nil] at hlength
        omega
      obtain ⟨b, rest, hbytes⟩ := List.exists_cons_of_ne_nil hne
      obtain ⟨v, skip, hstep, -⟩ := percentDecodeFrom_cons b rest
      rw [plainText, hbytes, hstep] at h
      cases h

/-! ### Bodies -/

/-- **A regular body**: a plain text of pairs with names, and no blanks around a name or a value. -/
structure Regular (body : Text) : Prop where
  plain : Plain body
  trimmed pair : pair ∈ Rust.split '&' body →
    Rust.trim (formKey pair) = formKey pair ∧ Rust.trim (formValue pair) = formValue pair
  named pair : pair ∈ Rust.split '&' body → pair ≠ [] → formKey pair ≠ []

theorem length_filterMap_le {α β : Type} {p : α → Bool} {f : α → Option β} {l : List α}
    (hf : ∀ a ∈ l, p a = false → f a = none) : (l.filterMap f).length ≤ (l.filter p).length := by
  induction l with
  | nil => exact le_refl 0
  | cons a l ih =>
      obtain ⟨ha, hl⟩ := List.forall_mem_cons.mp hf
      cases hp : p a with
      | false =>
          rw [List.filterMap_cons_none (ha hp), List.filter_cons_of_neg (by simp [hp])]
          exact ih hl
      | true =>
          rw [List.filter_cons_of_pos hp, List.length_cons]
          cases hfa : f a with
          | none =>
              rw [List.filterMap_cons_none hfa]
              exact (ih hl).trans (Nat.le_succ _)
          | some b =>
              rw [List.filterMap_cons_some hfa, List.length_cons]
              exact Nat.succ_le_succ (ih hl)

/-- A list without what is left out is a list of some of its values exactly if each of these is as it
should be. -/
theorem filterMap_eq_map_filter {α β : Type} {p : α → Bool} {f : α → Option β} {g : α → β} {l : List α}
    (hf : ∀ a ∈ l, p a = false → f a = none) :
    l.filterMap f = (l.filter p).map g ↔ ∀ a ∈ l, p a = true → f a = some (g a) := by
  induction l with
  | nil => simp
  | cons a l ih =>
      obtain ⟨ha, hl⟩ := List.forall_mem_cons.mp hf
      rw [List.forall_mem_cons, ← ih hl]
      cases hp : p a with
      | false =>
          rw [List.filterMap_cons_none (ha hp), List.filter_cons_of_neg (by simp [hp])]
          exact (and_iff_right fun h => by cases h).symm
      | true =>
          rw [List.filter_cons_of_pos hp, List.map_cons]
          cases hfa : f a with
          | some b =>
              rw [List.filterMap_cons_some hfa, List.cons.injEq, Option.some.injEq]
              exact and_congr_left' ⟨fun h _ => h, fun h => h rfl⟩
          | none =>
              rw [List.filterMap_cons_none hfa]
              refine iff_of_false (fun heq => ?_) (fun hboth => by cases hboth.1 rfl)
              -- the list on the left has no more values than are kept
              have hle := length_filterMap_le hl
              have hlength := congrArg List.length heq
              rw [List.length_cons, List.length_map] at hlength
              omega

theorem mapM_eq_some {α β : Type} {f : α → Option β} {g : α → β} {l : List α}
    (h : ∀ a ∈ l, f a = some (g a)) : l.mapM f = some (l.map g) := by
  induction l with
  | nil => rfl
  | cons a l ih =>
      obtain ⟨ha, hl⟩ := List.forall_mem_cons.mp h
      rw [List.mapM_cons, ha, ih hl]
      rfl

/-- What is read of a pair of a plain body. -/
def plainPair (pair : Text) : Option (Text × Text) :=
  if plainText (Rust.trim (formKey pair)) ≠ [] then
    some (plainText (Rust.trim (formKey pair)), plainText (Rust.trim (formValue pair)))
  else none

theorem infix_trim (t : Text) : Rust.trim t <:+: t := by
  obtain ⟨before, after, ht, -⟩ := trim_split t
  exact ⟨before, after, ht.symm⟩

theorem infix_formKey (pair : Text) : formKey pair <:+: pair :=
  (List.takeWhile_prefix _).isInfix

theorem infix_formValue (pair : Text) : formValue pair <:+: pair :=
  (List.drop_suffix _ _).isInfix.trans (List.dropWhile_suffix _).isInfix

theorem Plain.formPair {pair : Text} (h : Plain pair) : formPair pair = some (plainPair pair) := by
  have hkey := h.of_infix ((infix_trim _).trans (infix_formKey pair))
  have hvalue := h.of_infix ((infix_trim _).trans (infix_formValue pair))
  rw [ApiArmor.formPair, hkey.urlDecode, hvalue.urlDecode]
  rfl

theorem Plain.parseFormBody {body : Text} (h : Plain body) :
    parseFormBody body = some ((Rust.split '&' body).filterMap plainPair) := by
  have hpairs : ∀ pair ∈ Rust.split '&' body, ApiArmor.formPair pair = some (plainPair pair) :=
    fun pair hpair => (h.of_infix (infix_of_mem_split hpair)).formPair
  rw [ApiArmor.parseFormBody, mapM_eq_some hpairs, Option.map_some, List.filterMap_map]
  rfl

theorem Plain.formPairs {body : Text} (h : Plain body) : formPairs D body =
    ((Rust.split '&' body).filter (· ≠ [])).map fun pair =>
      (plainText (formKey pair), plainText (formValue pair)) := by
  refine List.map_congr_left fun pair hpair => ?_
  have hplain := h.of_infix (infix_of_mem_split (List.mem_filter.mp hpair).1)
  rw [(hplain.of_infix (infix_formKey pair)).decodeText,
    (hplain.of_infix (infix_formValue pair)).decodeText]

/-- A pair is read as it should be exactly if it has a name, and no blanks. -/
theorem plainPair_eq_iff (pair : Text) :
    plainPair pair = some (plainText (formKey pair), plainText (formValue pair)) ↔
      formKey pair ≠ [] ∧ Rust.trim (formKey pair) = formKey pair ∧
        Rust.trim (formValue pair) = formValue pair := by
  have hkey := plainText_trim_iff (formKey pair)
  have hvalue := plainText_trim_iff (formValue pair)
  unfold plainPair
  split
  next hne =>
    rw [Option.some.injEq, Prod.mk.injEq, hkey, hvalue]
    refine ⟨fun hboth => ⟨fun hnil => ?_, hboth⟩, And.right⟩
    rw [hboth.1, hnil] at hne
    exact hne rfl
  next hnil =>
    refine iff_of_false (fun h => by cases h) ?_
    rintro ⟨hne, htrim, -⟩
    rw [not_not, htrim, plainText_eq_nil] at hnil
    exact hne hnil

/-- **Form bodies**: a text is decoded as the format says exactly if it is plain, and as a body it is
also read as the format says exactly if it is regular. -/
theorem decodes_iff (D : Utf8Reader) (s : Text) :
    (urlDecode s = some (decodeText D s) ↔ Plain s) ∧
      (urlDecode s = some (decodeText D s) ∧ parseFormBody s = some (formPairs D s) ↔ Regular s) := by
  refine ⟨urlDecode_iff, ?_⟩
  rw [urlDecode_iff]
  have hpairs : Plain s → (parseFormBody s = some (formPairs D s) ↔
      ∀ pair ∈ Rust.split '&' s, pair ≠ [] → formKey pair ≠ [] ∧
        Rust.trim (formKey pair) = formKey pair ∧ Rust.trim (formValue pair) = formValue pair) := by
    intro h
    rw [h.parseFormBody, h.formPairs, Option.some.injEq,
      filterMap_eq_map_filter fun pair _ hnil => ?_]
    · refine forall₂_congr fun pair _ => ?_
      rw [decide_eq_true_iff, plainPair_eq_iff]
    · rw [of_decide_eq_false hnil |> not_not.mp]
      rfl
  constructor
  · rintro ⟨hplain, hread⟩
    have hall := (hpairs hplain).mp hread
    refine ⟨hplain, fun pair hpair => ?_, fun pair hpair hne => (hall pair hpair hne).1⟩
    by_cases hnil : pair = []
    · rw [hnil]
      exact ⟨rfl, rfl⟩
    · exact (hall pair hpair hnil).2
  · intro h
    exact ⟨h.plain, (hpairs h.plain).mpr fun pair hpair hne =>
      ⟨h.named pair hpair hne, h.trimmed pair hpair⟩⟩

/-! ### A panic -/

/-- **A character behind a percent sign**: the slice of two bytes ends inside the euro sign.  And an
accented letter is read as two characters. -/
theorem urlDecode_panics : urlDecode "%a€".toList = none ∧ parseFormBody "%a€".toList = none ∧
    urlDecode "é".toList = some "Ã©".toList := by
  decide +kernel

end CorexManager.ApiArmor
