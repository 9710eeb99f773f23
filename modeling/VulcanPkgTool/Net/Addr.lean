import VulcanPkgTool.Go

/-!
`net` and `net/netip` as package `ip` uses them: `net.ParseIP` through
`netip.ParseAddr`, and `IP.To4`, `IP.To16`, `IP.IsLoopback` and `IP.String`.

An `IP` is a byte slice, four or sixteen bytes as package `net` has it, and a
string is its bytes. `ParseIP` drops the error `ParseAddr` reports, so only
whether parsing fails is kept. The loop of `parseIPv4`, the hex field reader and
the field loop of `parseIPv6` are structural recursions over the rest of the
string, the last on the number of 16-bit fields left (at most eight). The loop
of `appendTo6` that looks for the longest run of zero fields is a fold over the
eight fields, and the one that prints them has one step per field as fuel.

What the package relies on is proved in `Net.IPv4` and `Net.IPv6`: the IPv4
parser accepts exactly the canonical dotted quads (`parseIPv4_eq_some_iff`), and
`ParseIP(ip.String())` is `ip.To16()` for every byte slice (`ParseIP_String`).
-/

set_option autoImplicit false

namespace VulcanPkgTool

namespace net

/-- A `net.IP`: a byte slice. -/
abbrev IP := List UInt8

/-! ## 1. Parsing -/

/-- Whether `c` is an ASCII decimal digit. -/
def isDigit (c : UInt8) : Bool := decide (48 ≤ c.toNat ∧ c.toNat ≤ 57)

/-- The loop of `netip.parseIPv4` from byte `i` of the string on, given the fields
read so far, the value and digit count of the current field, and whether byte `i`
starts a field (`i == 0` or `s[i-1] == '.'`). -/
def parseIPv4Loop : GoString → List UInt8 → Nat → Nat → Bool → Option (List UInt8)
  | [], fields, val, _, _ => if fields.length < 3 then none else some (fields ++ [UInt8.ofNat val])
  | c :: cs, fields, val, digLen, fieldStart =>
    if isDigit c then
      if digLen = 1 ∧ val = 0 then none
      else if 255 < val * 10 + (c.toNat - 48) then none
      else parseIPv4Loop cs fields (val * 10 + (c.toNat - 48)) (digLen + 1) false
    else if c = 46 then
      if fieldStart = true ∨ cs = [] then none
      else if fields.length = 3 then none
      else parseIPv4Loop cs (fields ++ [UInt8.ofNat val]) 0 0 true
    else none

/-- `netip.parseIPv4(s)`: the four bytes of a dotted quad. -/
def parseIPv4 (s : GoString) : Option (List UInt8) := parseIPv4Loop s [] 0 0 true

/-- The value of a hex digit, `0-9`, `a-f` or `A-F`, as `parseIPv6` reads it. -/
def hexVal (c : UInt8) : Option Nat :=
  if 48 ≤ c.toNat ∧ c.toNat ≤ 57 then some (c.toNat - 48)
  else if 97 ≤ c.toNat ∧ c.toNat ≤ 102 then some (c.toNat - 97 + 10)
  else if 65 ≤ c.toNat ∧ c.toNat ≤ 70 then some (c.toNat - 65 + 10)
  else none

/-- The hex number `parseIPv6` reads from `s[off:]` on with `acc` so far: it ends
at the first byte that is not a hex digit, and fails at a fifth digit or a value
of `2^16` or more. It returns the value, the number of digits and the rest. -/
def hexField : GoString → Nat → Nat → Option (Nat × Nat × GoString)
  | [], acc, off => some (acc, off, [])
  | c :: cs, acc, off =>
    match hexVal c with
    | none => some (acc, off, c :: cs)
    | some v => if 3 < off ∨ 65535 < acc * 16 + v then none else hexField cs (acc * 16 + v) (off + 1)

/-- The two bytes `byte(acc >> 8), byte(acc)` a field is saved as. -/
def fieldBytes (acc : Nat) : List UInt8 := [UInt8.ofNat (acc / 256), UInt8.ofNat acc]

/-- The field loop of `netip.parseIPv6` with at most `k` fields left to read, the
bytes saved so far, where the `::` was (`ellipsis`, once seen) and the rest of the
string. It returns what the loop leaves: the bytes, the ellipsis and the rest. A
field followed by a dot starts the embedded IPv4 address, which must fill the
last four bytes. -/
def parseIPv6Loop : Nat → List UInt8 → Option Nat → GoString →
    Option (List UInt8 × Option Nat × GoString)
  | 0, ip, ellipsis, s => some (ip, ellipsis, s)
  | k + 1, ip, ellipsis, s =>
    match hexField s 0 0 with
    | none => none
    | some (acc, off, rest) =>
      if off = 0 then none
      else match rest with
        | [] => some (ip ++ fieldBytes acc, ellipsis, [])
        | c :: rest =>
          if c = 46 then
            if ellipsis = none ∧ ip.length ≠ 12 then none
            else if 16 < ip.length + 4 then none
            else (parseIPv4 s).map fun ip4 => (ip ++ ip4, ellipsis, [])
          else if c ≠ 58 then none
          else match rest with
            | [] => none
            | c' :: rest' =>
              if c' = 58 then
                if ellipsis.isSome then none
                else if rest' = [] then some (ip ++ fieldBytes acc, some (ip.length + 2), [])
                else parseIPv6Loop k (ip ++ fieldBytes acc) (some (ip.length + 2)) rest'
              else parseIPv6Loop k (ip ++ fieldBytes acc) ellipsis (c' :: rest')

/-- The split of `parseIPv6`'s input at its first `%` into address and zone; an
empty zone after a `%` fails. -/
def splitZone (s : GoString) : Option (GoString × GoString) :=
  match s.indexOf? 37 with
  | none => some (s, [])
  | some i => if s.drop (i + 1) = [] then none else some (s.take i, s.drop (i + 1))

/-- The leading `::` of `parseIPv6`: an ellipsis at byte 0, and the rest. -/
def leadingEllipsis (s : GoString) : Option Nat × GoString :=
  match s with
  | c :: c' :: rest => if c = 58 ∧ c' = 58 then (some 0, rest) else (none, s)
  | _ => (none, s)

/-- `netip.parseIPv6(s)`: the sixteen bytes and the zone. A leading `::` is taken
before the loop, and `::` alone is the unspecified address; after the loop the
whole string must be used, and the bytes are spread around the ellipsis. -/
def parseIPv6 (s0 : GoString) : Option (List UInt8 × GoString) :=
  match splitZone s0 with
  | none => none
  | some (s, zone) =>
    let start := leadingEllipsis s
    if start.1 = some 0 ∧ start.2 = [] then some (List.replicate 16 0, zone)
    else match parseIPv6Loop 8 [] start.1 start.2 with
      | none => none
      | some (ip, ellipsis, rest) =>
        if rest ≠ [] then none
        else if ip.length < 16 then
          match ellipsis with
          | none => none
          | some e => some (ip.take e ++ List.replicate (16 - ip.length) 0 ++ ip.drop e, zone)
        else if ellipsis.isSome then none
        else some (ip, zone)

/-- A `netip.Addr`: four bytes, or sixteen and a zone. -/
inductive Addr where
  | v4 (b : List UInt8)
  | v6 (b : List UInt8) (zone : GoString)
  deriving DecidableEq, Repr

/-- The first twelve bytes of an IPv4 address in sixteen, `::ffff:0:0`. -/
def v4InV6Prefix : List UInt8 := List.replicate 10 0 ++ [255, 255]

/-- `Addr.As16()`. -/
def Addr.As16 : Addr → List UInt8
  | .v4 b => v4InV6Prefix ++ b
  | .v6 b _ => b

/-- `Addr.Zone()`. -/
def Addr.Zone : Addr → GoString
  | .v4 _ => []
  | .v6 _ zone => zone

/-- `netip.ParseAddr(s)`: an IPv4 or an IPv6 address by the first `.`, `:` or `%`
of `s`; neither if that is a `%` or there is none. -/
def ParseAddr (s : GoString) : Option Addr :=
  match s.find? (fun c => c == 46 || c == 58 || c == 37) with
  | none => none
  | some c =>
    if c = 46 then (parseIPv4 s).map .v4
    else if c = 58 then (parseIPv6 s).map fun a => .v6 a.1 a.2
    else none

/-- `net.ParseIP(s)`: the sixteen-byte form of the address; `nil` (`none`) when
`ParseAddr` fails or the address has a zone. -/
def ParseIP (s : GoString) : Option IP :=
  match ParseAddr s with
  | none => none
  | some a => if a.Zone = [] then some a.As16 else none

/-- `ip.To4()`: the four bytes of an IPv4 address, in four or in sixteen. Go tests
`isZeros(ip[0:10]) && ip[10] == 0xff && ip[11] == 0xff`, which is the prefix. -/
def IP.To4 (ip : IP) : Option IP :=
  if ip.length = 4 then some ip
  else if ip.length = 16 ∧ ip.take 12 = v4InV6Prefix then some (ip.drop 12)
  else none

/-- `ip.To16()`. -/
def IP.To16 (ip : IP) : Option IP :=
  if ip.length = 4 then some (v4InV6Prefix ++ ip)
  else if ip.length = 16 then some ip
  else none

/-- `net.IPv6loopback`, `::1`. -/
def IPv6loopback : IP := List.replicate 15 0 ++ [1]

/-- `ip.IsLoopback()`: `127.0.0.0/8`, or `::1`. `ip.Equal(IPv6loopback)` compares
bytes when `ip` has sixteen, and fails on any other length but four, which
`To4` has taken. -/
def IP.IsLoopback (ip : IP) : Bool :=
  match ip.To4 with
  | some ip4 => ip4.head? == some 127
  | none => ip == IPv6loopback

/-! ## 2. Printing -/

/-- `netip`'s `digits`, `"0123456789abcdef"`. -/
def digits : GoString := ascii "0123456789abcdef"

/-- `digits[d]`. -/
def digit (d : Nat) : UInt8 := digits.getD d 0

/-- `appendDecimal(b, x)`: `x` in decimal without leading zeros. -/
def appendDecimal (x : Nat) : GoString :=
  (if 100 ≤ x then [digit (x / 100)] else []) ++ (if 10 ≤ x then [digit (x / 10 % 10)] else []) ++
    [digit (x % 10)]

/-- `appendHex(b, x)`: `x` in lower-case hex without leading zeros. -/
def appendHex (x : Nat) : GoString :=
  (if 0x1000 ≤ x then [digit (x / 0x1000)] else []) ++
    (if 0x100 ≤ x then [digit (x / 0x100 % 16)] else []) ++
    (if 0x10 ≤ x then [digit (x / 0x10 % 16)] else []) ++ [digit (x % 16)]

/-- `Addr.appendTo4`: the four bytes in decimal, dots between. -/
def string4 (b : List UInt8) : GoString := [46].intercalate (b.map fun x => appendDecimal x.toNat)

/-- The big-endian 16-bit fields of the bytes, `v6u16(i)`. -/
def fields : List UInt8 → List Nat
  | a :: b :: rest => (a.toNat * 256 + b.toNat) :: fields rest
  | _ => []

/-- The first loop of `appendTo6`: the first longest run `[zeroStart, zeroEnd)` of
at least two zero fields, or `(255, 255)`. From each `i`, `j` is where
`for j < 8 && v6u16(j) == 0 { j++ }` stops. -/
def zeroRun (g : List Nat) : Nat × Nat :=
  (List.range 8).foldl (fun run i =>
    let j := i + ((g.drop i).takeWhile (· == 0)).length
    if 2 ≤ j - i ∧ run.2 - run.1 < j - i then (i, j) else run) (255, 255)

/-- The second loop of `appendTo6` from field `i`, with `fuel` iterations left:
`::` at `zeroStart` and on from `zeroEnd`, and a colon before every other field
but the first. -/
def string6Loop (g : List Nat) (zs ze : Nat) : Nat → Nat → GoString
  | 0, _ => []
  | fuel + 1, i =>
    if 8 ≤ i then []
    else if i = zs then
      if 8 ≤ ze then [58, 58]
      else [58, 58] ++ appendHex (g.getD ze 0) ++ string6Loop g zs ze fuel (ze + 1)
    else (if 0 < i then [58] else []) ++ appendHex (g.getD i 0) ++ string6Loop g zs ze fuel (i + 1)

/-- `Addr.appendTo6` of an address without a zone. -/
def string6 (b : List UInt8) : GoString :=
  string6Loop (fields b) (zeroRun (fields b)).1 (zeroRun (fields b)).2 8 0

/-- `hexString(b)`: two hex digits a byte. -/
def hexString (b : List UInt8) : GoString :=
  b.flatMap fun x => [digit (x.toNat / 16), digit (x.toNat % 16)]

/-- `ip.String()`: `<nil>` for no bytes, `?` and the hex of a length that is
neither four nor sixteen, dotted decimal for an IPv4 address, and the IPv6 form
otherwise. -/
def IP.String (ip : IP) : GoString :=
  if ip.length = 0 then ascii "<nil>"
  else if ip.length ≠ 4 ∧ ip.length ≠ 16 then 63 :: hexString ip
  else match ip.To4 with
    | some ip4 => string4 ip4
    | none => string6 ip

/-! ## 3. Digits -/

theorem toNat_ofNat_uint8 (n : Nat) : (UInt8.ofNat n).toNat = n % 256 := by
  simp [UInt8.ofNat, UInt8.toNat]

theorem ofNat_toNat_uint8 (x : UInt8) : UInt8.ofNat x.toNat = x :=
  UInt8.toNat.inj (by rw [toNat_ofNat_uint8]; exact Nat.mod_eq_of_lt x.toNat_lt_size)

/-- The table: `0-9` at `48 + d`, `a-f` at `87 + d`. -/
theorem toNat_digit : ∀ d, d < 16 → (digit d).toNat = if d < 10 then 48 + d else 87 + d := by
  decide

theorem isDigit_digit {d : Nat} (hd : d < 10) : isDigit (digit d) = true := by
  simp only [isDigit, toNat_digit d (by omega), if_pos hd, decide_eq_true_eq]
  omega

theorem hexVal_digit {d : Nat} (hd : d < 16) : hexVal (digit d) = some d := by
  have h := toNat_digit d hd
  unfold hexVal
  split_ifs at h ⊢ <;> first | omega | (congr 1; omega)

end net

end VulcanPkgTool
