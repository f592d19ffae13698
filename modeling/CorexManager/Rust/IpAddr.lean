import CorexManager.Rust.Text

/-!
# Addresses of the internet protocol

`std::net`: the addresses of both families with their ranges, their spelling and its reader.

* `parseIpAddr` — `str::parse::<IpAddr>`, on the forms of both families.
* `parseIpAddr_v4` — the spelling of an address of the first family reads back.
* `parseIpAddr_bracket` — nothing in brackets is an address.
-/

namespace Rust

open Data (Text natText)

/-! ### Addresses -/

instance neZeroOctet : NeZero 256 := ⟨by decide⟩

instance neZeroSegment : NeZero 65536 := ⟨by decide⟩

/-- An address of four octets. -/
structure Ipv4Addr where
  a : Fin 256
  b : Fin 256
  c : Fin 256
  d : Fin 256
  deriving DecidableEq

/-- An address of eight segments. -/
structure Ipv6Addr where
  segments : List (Fin 65536)
  size : segments.length = 8
  deriving DecidableEq

inductive IpAddr where
  | v4 (addr : Ipv4Addr)
  | v6 (addr : Ipv6Addr)
  deriving DecidableEq

namespace Ipv4Addr

variable (addr : Ipv4Addr)

/-- `127.0.0.0/8`. -/
def isLoopback : Bool := addr.a == 127

/-- `169.254.0.0/16`. -/
def isLinkLocal : Bool := addr.a == 169 && addr.b == 254

/-- `0.0.0.0`. -/
def isUnspecified : Bool := addr == ⟨0, 0, 0, 0⟩

/-- `224.0.0.0/4`. -/
def isMulticast : Bool := decide (224 ≤ addr.a) && decide (addr.a ≤ 239)

/-- `10.0.0.0/8`, `172.16.0.0/12` and `192.168.0.0/16`. -/
def isPrivate : Bool :=
  addr.a == 10 || (addr.a == 172 && decide (16 ≤ addr.b) && decide (addr.b ≤ 31)) ||
    (addr.a == 192 && addr.b == 168)

/-- `to_string`. -/
def display : Text :=
  natText addr.a ++ '.' :: (natText addr.b ++ '.' :: (natText addr.c ++ '.' :: natText addr.d))

end Ipv4Addr

namespace Ipv6Addr

variable (addr : Ipv6Addr)

/-- An address, if there are as many segments as it has. -/
def ofSegments? (segments : List (Fin 65536)) : Option Ipv6Addr :=
  if h : segments.length = 8 then some ⟨segments, h⟩ else none

/-- The first segment. -/
def first : Fin 65536 := addr.segments.headD 0

/-- `::1`. -/
def isLoopback : Bool := addr.segments == [0, 0, 0, 0, 0, 0, 0, 1]

/-- `::`. -/
def isUnspecified : Bool := addr.segments == [0, 0, 0, 0, 0, 0, 0, 0]

/-- `ff00::/8`. -/
def isMulticast : Bool := addr.first &&& 0xff00 == 0xff00

/-- The address of the first family in the last two segments. -/
def lastOctets : Ipv4Addr :=
  let high := (addr.segments.getD 6 0).val
  let low := (addr.segments.getD 7 0).val
  ⟨Fin.ofNat 256 (high / 256), Fin.ofNat 256 high, Fin.ofNat 256 (low / 256), Fin.ofNat 256 low⟩

/-- `::ffff:a.b.c.d`. -/
def isMapped : Bool := addr.segments.take 6 == [0, 0, 0, 0, 0, 65535]

/-- `::a.b.c.d`, the unspecified and the loopback address apart. -/
def isCompatible : Bool :=
  addr.segments.take 6 == [0, 0, 0, 0, 0, 0] && !addr.isUnspecified && !addr.isLoopback

end Ipv6Addr

/-! ### Spelling of segments -/

/-- A hexadecimal digit. -/
def hexDigit (n : Nat) : Char := "0123456789abcdef".toList.getD n '0'

/-- A segment without leading zeros. -/
def hexText (n : Nat) : Text :=
  if n < 16 then [hexDigit n]
  else if n < 256 then [hexDigit (n / 16), hexDigit (n % 16)]
  else if n < 4096 then [hexDigit (n / 256), hexDigit (n / 16 % 16), hexDigit (n % 16)]
  else [hexDigit (n / 4096), hexDigit (n / 256 % 16), hexDigit (n / 16 % 16), hexDigit (n % 16)]

/-- Segments with colons between them. -/
def segmentsText : List (Fin 65536) → Text
  | [] => []
  | [g] => hexText g
  | g :: gs => hexText g ++ ':' :: segmentsText gs

/-- How many zeros segments begin with. -/
def zeros (gs : List (Fin 65536)) : Nat := (gs.takeWhile (· == 0)).length

/-- Where the first longest run of zeros begins, and how long it is. -/
def longestZeros : List (Fin 65536) → Nat × Nat
  | [] => (0, 0)
  | g :: gs =>
      let rest := longestZeros gs
      let here := zeros (g :: gs)
      if rest.2 ≤ here then (0, here) else (rest.1 + 1, rest.2)

/-- The longest run of more than one zero is left out. -/
def compressed (gs : List (Fin 65536)) : Text :=
  let run := longestZeros gs
  if 1 < run.2 then
    segmentsText (gs.take run.1) ++ ':' :: ':' :: segmentsText (gs.drop (run.1 + run.2))
  else segmentsText gs

/-- `to_string`. -/
def IpAddr.display : IpAddr → Text
  | v4 addr => addr.display
  | v6 addr =>
      if addr.isMapped then "::ffff:".toList ++ addr.lastOctets.display else compressed addr.segments

/-! ### The reader -/

/-- `char::to_digit`. -/
def toDigit (radix : Nat) (c : Char) : Option Nat :=
  let n :=
    if c.isDigit then some (c.toNat - 48)
    else if 'a' ≤ c ∧ c ≤ 'f' then some (c.toNat - 87)
    else if 'A' ≤ c ∧ c ≤ 'F' then some (c.toNat - 55)
    else none
  n.filter (· < radix)

/-- The value of digits. -/
def digitsValue (radix : Nat) (digits : Text) : Nat :=
  digits.foldl (fun n c => n * radix + (toDigit radix c).getD 0) 0

/-- `read_number`: all digits that follow, if there are some and not too many. -/
def readNumber (radix maxDigits : Nat) (zeroPrefix : Bool) (t : Text) : Option (Nat × Text) :=
  let digits := t.takeWhile fun c => (toDigit radix c).isSome
  if digits = [] ∨ maxDigits < digits.length ∨
      zeroPrefix = false ∧ digits.head? = some '0' ∧ 1 < digits.length then none
  else some (digitsValue radix digits, t.dropWhile fun c => (toDigit radix c).isSome)

/-- `read_given_char`. -/
def readChar (c : Char) : Text → Option Text
  | [] => none
  | d :: t => if d = c then some t else none

/-- An octet. -/
def readOctet (t : Text) : Option (Fin 256 × Text) :=
  (readNumber 10 3 false t).bind fun r => if h : r.1 < 256 then some (⟨r.1, h⟩, r.2) else none

/-- `read_ipv4_addr`. -/
def readIpv4 (t : Text) : Option (Ipv4Addr × Text) :=
  (readOctet t).bind fun (a, t) => (readChar '.' t).bind fun t =>
    (readOctet t).bind fun (b, t) => (readChar '.' t).bind fun t =>
      (readOctet t).bind fun (c, t) => (readChar '.' t).bind fun t =>
        (readOctet t).map fun (d, t) => (⟨a, b, c, d⟩, t)

/-- The separator before a segment, unless it is the first. -/
def readSeparator (isFirst : Bool) (t : Text) : Option Text :=
  if isFirst then some t else readChar ':' t

/-- `read_groups`: at most so many segments, the last two perhaps as an address of the first
family, and whether they were. -/
def readGroups (isFirst : Bool) : Nat → Text → List (Fin 65536) × Bool × Text
  | 0, t => ([], false, t)
  | limit + 1, t =>
      match if limit = 0 then none else (readSeparator isFirst t).bind readIpv4 with
      | some (addr, rest) =>
          ([Fin.ofNat 65536 (addr.a.val * 256 + addr.b.val),
            Fin.ofNat 65536 (addr.c.val * 256 + addr.d.val)], true, rest)
      | none =>
          match (readSeparator isFirst t).bind (readNumber 16 4 true) with
          | some (group, rest) =>
              let (groups, embedded, rest) := readGroups false limit rest
              (Fin.ofNat 65536 group :: groups, embedded, rest)
          | none => ([], false, t)

/-- `read_ipv6_addr`. -/
def readIpv6 (t : Text) : Option (Ipv6Addr × Text) :=
  let (head, embedded, rest) := readGroups true 8 t
  if head.length = 8 then (Ipv6Addr.ofSegments? head).map fun addr => (addr, rest)
  else if embedded then none
  else
    ((readChar ':' rest).bind (readChar ':')).bind fun rest =>
      let (tail, _, rest) := readGroups true (8 - (head.length + 1)) rest
      (Ipv6Addr.ofSegments? (head ++ List.replicate (8 - tail.length - head.length) 0 ++ tail)).map
        fun addr => (addr, rest)

/-- `str::parse::<IpAddr>`: the address is the whole text. -/
def parseIpAddr (t : Text) : Option IpAddr :=
  match ((readIpv4 t).map fun r => (IpAddr.v4 r.1, r.2)).or
    ((readIpv6 t).map fun r => (IpAddr.v6 r.1, r.2)) with
  | some (addr, []) => some addr
  | _ => none

example : parseIpAddr "::ffff:127.0.0.1".toList =
    (Ipv6Addr.ofSegments? [0, 0, 0, 0, 0, 65535, 32512, 1]).map .v6 := by decide

/-! ### Reading back -/

theorem toDigit_ten_isSome {c : Char} (h : c.isDigit = true) : (toDigit 10 c).isSome = true := by
  have hlt : c.toNat - 48 < 10 := by
    simp only [Char.isDigit, Bool.and_eq_true, decide_eq_true_eq, UInt32.le_iff_toNat_le,
      ge_iff_le] at h
    have hc : c.toNat = c.val.toNat := rfl
    have h9 : '9'.val.toNat = 57 := rfl
    omega
  rw [toDigit, if_pos h, Option.filter_some, if_pos (decide_eq_true hlt)]
  rfl

/-- The spelling of an octet is what the reader of numbers takes. -/
theorem natText_octet (n : Fin 256) : (natText n).length ≤ 3 ∧
    ¬((natText n).head? = some '0' ∧ 1 < (natText n).length) ∧ digitsValue 10 (natText n) = n := by
  decide +kernel +revert

/-- An octet reads back, before anything that is no digit. -/
theorem readOctet_natText (n : Fin 256) {rest : Text}
    (hrest : ∀ c ∈ rest.head?, (toDigit 10 c).isSome = false) :
    readOctet (natText n ++ rest) = some (n, rest) := by
  obtain ⟨hlength, hzero, hvalue⟩ := natText_octet n
  have hdigits : ∀ c ∈ natText n, (toDigit 10 c).isSome = true := fun c hc =>
    toDigit_ten_isSome (Data.natText_isDigit n c hc)
  have hstop : rest.takeWhile (fun c => (toDigit 10 c).isSome) = [] ∧
      rest.dropWhile (fun c => (toDigit 10 c).isSome) = rest := by
    cases rest with
    | nil => exact ⟨rfl, rfl⟩
    | cons c rest =>
        have hc := hrest c rfl
        exact ⟨List.takeWhile_cons_of_neg (by rw [hc]; exact Bool.false_ne_true),
          List.dropWhile_cons_of_neg (by rw [hc]; exact Bool.false_ne_true)⟩
  have htake : (natText n ++ rest).takeWhile (fun c => (toDigit 10 c).isSome) = natText n := by
    rw [List.takeWhile_append_of_pos hdigits, hstop.1, List.append_nil]
  have hdrop : (natText n ++ rest).dropWhile (fun c => (toDigit 10 c).isSome) = rest := by
    rw [List.dropWhile_append_of_pos hdigits, hstop.2]
  have hread : readNumber 10 3 false (natText n ++ rest) = some (n.val, rest) := by
    rw [readNumber]
    simp only [htake, hdrop, hvalue]
    refine if_neg ?_
    rintro (hnil | hlong | ⟨-, hhead, hmore⟩)
    · exact Data.natText_ne_nil n hnil
    · exact Nat.not_lt.mpr hlength hlong
    · exact hzero ⟨hhead, hmore⟩
  rw [readOctet, hread, Option.bind_some, dif_pos n.isLt]

/-- **The spelling of an address of four octets reads back.** -/
theorem parseIpAddr_v4 (addr : Ipv4Addr) : parseIpAddr addr.display = some (.v4 addr) := by
  have hdot : ∀ {rest : Text}, ∀ c ∈ ('.' :: rest).head?, (toDigit 10 c).isSome = false := by
    intro rest c hc
    rw [← Option.some.inj hc]
    decide
  have hread : readIpv4 addr.display = some (addr, []) := by
    rw [Ipv4Addr.display, readIpv4, readOctet_natText addr.a hdot]
    dsimp only [Option.bind_some]
    rw [readChar, if_pos rfl, Option.bind_some, readOctet_natText addr.b hdot]
    dsimp only [Option.bind_some]
    rw [readChar, if_pos rfl, Option.bind_some, readOctet_natText addr.c hdot]
    dsimp only [Option.bind_some]
    rw [readChar, if_pos rfl, Option.bind_some, ← List.append_nil (natText addr.d.val),
      readOctet_natText addr.d fun _ h => absurd h (Option.not_mem_none _)]
    rfl
  rw [parseIpAddr, hread]
  rfl

/-- **Nothing in brackets is an address.** -/
theorem parseIpAddr_bracket (t : Text) : parseIpAddr ('[' :: t) = none := rfl

end Rust
