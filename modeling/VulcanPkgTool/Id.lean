import VulcanPkgTool.Go

/-!
`id`: the public form of an `int64` id, and the packing of a zone into an id.

`EncodeId` writes a negative id in decimal with `strconv.FormatInt` and any
other through the `hashids` codec that `init` builds (salt `vulcan2020`,
minimum length 18); `DecodeId` sends a string that starts with `-` to
`strconv.ParseInt` and any other to the codec. The codec is a library this
development does not model: `HashID` is the part of it the two functions call,
and `HashID.RoundTrips` is what is assumed of it, that it encodes every
non-negative `int64`, never starts its output with `-`, and decodes its output
to the one id it encoded. `strconv` is modelled from its source: the digit loop
of `ParseUint` with its overflow tests, the sign and range tests of `ParseInt`,
and the decimal digits `formatBits` writes.

The result is `DecodeId_EncodeId`: both branches agree on where a string goes,
and `ParseInt` reads back every `FormatInt` of an `int64`
(`ParseInt_FormatInt`), `math.MinInt64` included, whose magnitude `2^63` is
not an `int64` but is the one negative magnitude `ParseInt` accepts.

`CombineZoneId(zoneId, zone)` is `zoneId << zoneBit & int64(zone)`. Go gives
`<<` and `&` the same precedence and applies them left to right, so the zone
byte is masked against the eight zero bits the shift put at the bottom, and
every pair packs to `0` (`CombineZoneId_eq_zero`); `SplitId` reads `0` back as
`(0, 0)`.
-/

set_option autoImplicit false

namespace VulcanPkgTool

namespace strconv

/-! ## 1. `strconv` in base 10 -/

/-- `strconv.ErrSyntax` and `strconv.ErrRange`. -/
inductive NumErr where
  | ErrSyntax
  | ErrRange
  deriving DecidableEq, Repr

/-- `*strconv.NumError`: the function that failed, its input, and the error. -/
structure NumError where
  Func : String
  Num : GoString
  Err : NumErr
  deriving DecidableEq, Repr

/-- `maxUint64`, the largest value `ParseUint(s, 10, 64)` accepts. -/
def maxUint64 : Nat := 2 ^ 64 - 1

/-- The loop of `ParseUint(s0, 10, 64)` over the bytes still to read, from the
value `n` read so far. A byte outside `'0'..'9'` is a syntax error (a letter
gives a digit `≥ 10 = base`, which is one too). Before `n *= 10` the loop tests
`n ≥ cutoff = maxUint64/10 + 1`; after it, `n1 := n + d` at `uint64`, where a
wrap shows as `n1 < n`. -/
def parseDigits (s0 : GoString) : Nat → GoString → Except NumError Nat
  | n, [] => .ok n
  | n, c :: cs =>
    if c.toNat < 48 ∨ 57 < c.toNat then .error ⟨"ParseUint", s0, .ErrSyntax⟩
    else if n ≥ maxUint64 / 10 + 1 then .error ⟨"ParseUint", s0, .ErrRange⟩
    else
      let n1 := (n * 10 + (c.toNat - 48)) % 2 ^ 64
      if n1 < n * 10 ∨ n1 > maxUint64 then .error ⟨"ParseUint", s0, .ErrRange⟩
      else parseDigits s0 n1 cs

/-- `strconv.ParseUint(s, 10, 64)`. On an error Go also returns a value, which
no caller here reads. -/
def ParseUint (s : GoString) : Except NumError Nat :=
  if s = [] then .error ⟨"ParseUint", s, .ErrSyntax⟩ else parseDigits s 0 s

/-- The sign `ParseInt` picks off the front of its input: whether it was `-`,
and the rest. -/
def splitSign : GoString → Bool × GoString
  | 43 :: t => (false, t)
  | 45 :: t => (true, t)
  | t => (false, t)

/-- `strconv.ParseInt(s, 10, 64)`: an optional sign, then `ParseUint` of the
rest and the range of `int64`, `[-2^63, 2^63)`. A syntax error of `ParseUint`
is renamed to `ParseInt` of the whole input; after a range error `ParseUint`
hands back `maxUint64`, which the range test then rejects under the same name. -/
def ParseInt (s : GoString) : Except NumError Int :=
  if s = [] then .error ⟨"ParseInt", s, .ErrSyntax⟩ else
  let sign := splitSign s
  match ParseUint sign.2 with
  | .error e => .error ⟨"ParseInt", s, e.Err⟩
  | .ok un =>
    if !sign.1 ∧ un ≥ 2 ^ 63 then .error ⟨"ParseInt", s, .ErrRange⟩
    else if sign.1 ∧ un > 2 ^ 63 then .error ⟨"ParseInt", s, .ErrRange⟩
    else .ok (if sign.1 then -(un : Int) else un)

theorem splitSign_of_digit {c : UInt8} (cs : GoString) (hc : 48 ≤ c.toNat) :
    splitSign (c :: cs) = (false, c :: cs) := by
  have h43 : c ≠ 43 := by rintro rfl; exact absurd hc (by decide)
  have h45 : c ≠ 45 := by rintro rfl; exact absurd hc (by decide)
  unfold splitSign
  split <;> simp_all

/-- The ASCII byte of the decimal digit `d`. -/
def digitByte (d : Nat) : UInt8 := UInt8.ofNat (48 + d)

/-- The decimal digits of `u`, most significant first; `[0]` for zero. -/
def decimalDigits (u : Nat) : List Nat := if u = 0 then [0] else (Nat.digits 10 u).reverse

/-- `formatBits(u, 10)`: the decimal digits of `u`. Go writes them two at a
time from the low end into a buffer, and `FormatInt` of a value below 100
takes them from a table; the bytes are these. -/
def formatBits (u : Nat) : GoString := (decimalDigits u).map digitByte

/-- `strconv.FormatInt(i, 10)`: `-` and the digits of `uint64(-i)`, which for
`math.MinInt64` is `2^63`, or the digits of `i`. -/
def FormatInt (i : Int) : GoString := if i < 0 then 45 :: formatBits i.natAbs else formatBits i.toNat

/-- `strconv.Itoa(i)`: `FormatInt(int64(i), 10)`. -/
def Itoa (i : Int) : GoString := FormatInt i

/-- The value of a digit list read as the loop reads it. -/
def readDigits (n : Nat) (ds : List Nat) : Nat := ds.foldl (fun a d => a * 10 + d) n

theorem le_readDigits : ∀ (ds : List Nat) (n : Nat), n ≤ readDigits n ds
  | [], _ => le_rfl
  | d :: ds, n => (by omega : n ≤ n * 10 + d).trans (le_readDigits ds (n * 10 + d))

theorem toNat_digitByte {d : Nat} (hd : d < 10) : (digitByte d).toNat = 48 + d := by
  simp [digitByte, UInt8.toNat, UInt8.ofNat]
  omega

/-- The loop reads the digits of a number that fits in `uint64` without an
error, and to the number. -/
theorem parseDigits_map (s0 : GoString) : ∀ (ds : List Nat) (n : Nat), (∀ d ∈ ds, d < 10) →
    readDigits n ds ≤ maxUint64 → parseDigits s0 n (ds.map digitByte) = .ok (readDigits n ds)
  | [], _, _, _ => rfl
  | d :: ds, n, hds, hle => by
    have hd10 := hds d (List.mem_cons_self d ds)
    have hd := toNat_digitByte hd10
    have hstep : n * 10 + d ≤ maxUint64 := (le_readDigits ds _).trans hle
    have hmax : maxUint64 = 2 ^ 64 - 1 := rfl
    rw [hmax] at hstep
    have hwrap : (n * 10 + d) % 2 ^ 64 = n * 10 + d := Nat.mod_eq_of_lt (by omega)
    have hcut : ¬n ≥ maxUint64 / 10 + 1 := by rw [hmax]; omega
    rw [List.map_cons, parseDigits, if_neg (by omega), if_neg hcut]
    simp only [hd, Nat.add_sub_cancel_left, hwrap]
    rw [if_neg (by omega)]
    exact parseDigits_map s0 ds _ (fun e he => hds e (List.mem_cons_of_mem d he)) hle

theorem lt_ten_of_mem_decimalDigits {u d : Nat} (h : d ∈ decimalDigits u) : d < 10 := by
  unfold decimalDigits at h
  split at h
  · simp_all
  · exact Nat.digits_lt_base (by decide) (List.mem_reverse.mp h)

theorem readDigits_decimalDigits (u : Nat) : readDigits 0 (decimalDigits u) = u := by
  unfold decimalDigits readDigits
  split
  · simp_all
  · rw [List.foldl_reverse]
    conv_rhs => rw [← Nat.ofDigits_digits 10 u]
    induction Nat.digits 10 u with
    | nil => rfl
    | cons d ds ih => rw [List.foldr_cons, ih, Nat.ofDigits_cons]; ring

theorem formatBits_eq_cons (u : Nat) : ∃ d ds, decimalDigits u = d :: ds ∧ d < 10 := by
  unfold decimalDigits
  split
  · exact ⟨0, [], rfl, by decide⟩
  · next hu =>
    obtain ⟨d, ds, h⟩ := List.exists_cons_of_ne_nil
      (List.reverse_ne_nil_iff.mpr (Nat.digits_ne_nil_iff_ne_zero.mpr hu))
    exact ⟨d, ds, h, Nat.digits_lt_base (by decide) (List.mem_reverse.mp (h ▸ List.mem_cons_self d ds))⟩

/-- `ParseUint` reads back every `formatBits` of a `uint64`. -/
theorem ParseUint_formatBits {u : Nat} (hu : u ≤ maxUint64) : ParseUint (formatBits u) = .ok u := by
  obtain ⟨d, ds, hds, -⟩ := formatBits_eq_cons u
  have hne : formatBits u ≠ [] := by simp [formatBits, hds]
  rw [ParseUint, if_neg hne, formatBits,
    parseDigits_map _ _ 0 (fun _ => lt_ten_of_mem_decimalDigits) (by rwa [readDigits_decimalDigits]),
    readDigits_decimalDigits]

/-- The first byte of `formatBits u` is a digit, so neither sign. -/
theorem formatBits_head (u : Nat) : ∃ c cs, formatBits u = c :: cs ∧ 48 ≤ c.toNat ∧ c.toNat ≤ 57 := by
  obtain ⟨d, ds, hds, hd⟩ := formatBits_eq_cons u
  refine ⟨digitByte d, ds.map digitByte, by simp [formatBits, hds], ?_⟩
  rw [toNat_digitByte hd]
  omega

/-- **`ParseInt` reads back `FormatInt`** of every `int64`. -/
theorem ParseInt_FormatInt {x : Int} (hx : -2 ^ 63 ≤ x ∧ x < 2 ^ 63) : ParseInt (FormatInt x) = .ok x := by
  unfold FormatInt
  split
  · next hneg =>
    have hbody := ParseUint_formatBits (show x.natAbs ≤ maxUint64 by unfold maxUint64; omega)
    have hsign : splitSign (45 :: formatBits x.natAbs) = (true, formatBits x.natAbs) := rfl
    rw [ParseInt, if_neg (List.cons_ne_nil _ _)]
    simp only [hsign, hbody, Bool.not_true, Bool.false_eq_true, false_and, true_and, if_false, if_true]
    rw [if_neg (by omega), show -(x.natAbs : Int) = x by omega]
  · next hnneg =>
    obtain ⟨c, cs, hcs, hc⟩ := formatBits_head x.toNat
    have hbody := ParseUint_formatBits (show x.toNat ≤ maxUint64 by unfold maxUint64; omega)
    rw [hcs] at hbody ⊢
    rw [ParseInt, if_neg (List.cons_ne_nil _ _)]
    simp only [splitSign_of_digit cs hc.1, hbody, Bool.not_false, Bool.false_eq_true, false_and,
      true_and, if_false]
    rw [if_neg (by omega), show (x.toNat : Int) = x by omega]

end strconv

namespace id

open strconv

/-! ## 2. The id codec -/

/-- The part of a `hashids.HashID` that `EncodeId` and `DecodeId` call; its
errors are their messages. -/
structure HashID where
  EncodeInt64 : List Int → Except String GoString
  DecodeInt64WithError : GoString → Except String (List Int)

/-- What is assumed of the codec `init` builds: it encodes every non-negative
`int64` alone, the result does not start with `-`, and it decodes to that id. -/
def HashID.RoundTrips (h : HashID) : Prop :=
  ∀ x : Int, 0 ≤ x → x < 2 ^ 63 →
    ∃ s, h.EncodeInt64 [x] = .ok s ∧ s.head? ≠ some 45 ∧ h.DecodeInt64WithError s = .ok [x]

/-- The errors `EncodeId` and `DecodeId` return. -/
inductive Error where
  /-- `strconv.ParseInt`'s error, returned as it is. -/
  | num (e : NumError)
  /-- `errors.Wrapf(cause, msg)`. -/
  | wrap (msg : GoString) (cause : String)
  /-- `errors.Errorf(msg)`. -/
  | msg (msg : GoString)

/-- `strings.IndexRune(s, r)` for an ASCII `r`, which Go answers with
`IndexByte`: the index of the first byte `r` of `s`, or `-1`. -/
def IndexRune (s : GoString) (r : UInt8) : Int :=
  match s.indexOf? r with
  | some i => i
  | none => -1

/-- `EncodeId(id)`. -/
def EncodeId (h : HashID) (id : Int) : Except Error GoString :=
  if id < 0 then .ok (FormatInt id)
  else match h.EncodeInt64 [id] with
    | .error err => .error (.wrap (ascii "HashID encode failed. id:" ++ FormatInt id) err)
    | .ok str => .ok str

/-- `DecodeId(str)`. -/
def DecodeId (h : HashID) (str : GoString) : Except Error Int :=
  if IndexRune str 45 = 0 then (ParseInt str).mapError .num
  else match h.DecodeInt64WithError str with
    | .error err => .error (.wrap (ascii "HashID decode failed. str:" ++ str) err)
    | .ok [] => .error (.msg (ascii "HashID decode failed. str:" ++ str))
    | .ok (id :: _) => .ok id

theorem IndexRune_eq_zero_iff (s : GoString) (r : UInt8) : IndexRune s r = 0 ↔ s.head? = some r := by
  cases s with
  | nil => simp [IndexRune]
  | cons c cs =>
    unfold IndexRune
    rw [List.indexOf?_cons]
    by_cases hc : c = r
    · simp [hc]
    · cases cs.indexOf? r <;> simp [hc, beq_iff_eq]; omega

/-- **Every `int64` id round-trips.** Under the codec assumption, `EncodeId`
succeeds on every `int64`, and `DecodeId` of its result is the id. -/
theorem DecodeId_EncodeId (h : HashID) (hh : h.RoundTrips) (x : Int) (hx : -2 ^ 63 ≤ x ∧ x < 2 ^ 63) :
    ∃ s, EncodeId h x = .ok s ∧ DecodeId h s = .ok x := by
  by_cases hneg : x < 0
  · refine ⟨FormatInt x, if_pos hneg, ?_⟩
    have hfmt : FormatInt x = 45 :: formatBits x.natAbs := if_pos hneg
    rw [DecodeId, if_pos ((IndexRune_eq_zero_iff _ _).mpr (by rw [hfmt]; rfl)), ParseInt_FormatInt hx]
    rfl
  · obtain ⟨s, henc, hhead, hdec⟩ := hh x (by omega) hx.2
    refine ⟨s, by rw [EncodeId, if_neg hneg, henc], ?_⟩
    rw [DecodeId, if_neg (fun h0 => hhead ((IndexRune_eq_zero_iff _ _).mp h0)), hdec]

/-- A codec that writes a non-negative id in decimal. It is not the one `init`
builds; it shows that `RoundTrips` can hold. -/
def decimalHashID : HashID where
  EncodeInt64 ids := match ids with
    | [x] => .ok (FormatInt x)
    | _ => .error "one id"
  DecodeInt64WithError s := match ParseInt s with
    | .ok x => .ok [x]
    | .error _ => .error "not decimal"

theorem decimalHashID_roundTrips : decimalHashID.RoundTrips := by
  intro x hx0 hx
  have hfmt : FormatInt x = formatBits x.toNat := if_neg (by omega)
  obtain ⟨c, cs, hcs, hc⟩ := formatBits_head x.toNat
  refine ⟨FormatInt x, rfl, ?_, ?_⟩
  · rw [hfmt, hcs]
    intro h45
    simp only [List.head?_cons, Option.some.injEq] at h45
    subst h45
    exact absurd hc.1 (by decide)
  · show (match ParseInt (FormatInt x) with | .ok x => _ | .error _ => _) = _
    rw [ParseInt_FormatInt ⟨by omega, hx⟩]

theorem DecodeId_EncodeId_minInt64 :
    decimalHashID.RoundTrips ∧ (-2 ^ 63 ≤ (-2 ^ 63 : Int) ∧ (-2 ^ 63 : Int) < 2 ^ 63) ∧
      ∃ s, EncodeId decimalHashID (-2 ^ 63) = .ok s ∧ DecodeId decimalHashID s = .ok (-2 ^ 63) :=
  ⟨decimalHashID_roundTrips, by norm_num,
    DecodeId_EncodeId decimalHashID decimalHashID_roundTrips (-2 ^ 63) (by norm_num)⟩

/-! ## 3. Zone packing -/

/-- `zoneBit`. -/
def zoneBit : Nat := 8

/-- `MaxZone`, `(1 << zoneBit) - 1`. -/
def MaxZone : Int := 2 ^ zoneBit - 1

/-- `CombineZoneId(zoneId, zone)`: `zoneId << zoneBit & int64(zone)`, which
Go reads as `(zoneId << zoneBit) & int64(zone)`, on the 64 bits of `int64`. -/
def CombineZoneId (zoneId : Int) (zone : UInt8) : Int :=
  ((BitVec.ofInt 64 zoneId <<< zoneBit) &&& BitVec.ofNat 64 zone.toNat).toInt

/-- `SplitId(id)`: `id >> zoneBit`, an arithmetic shift, and `uint8(id & MaxZone)`. -/
def SplitId (id : Int) : Int × UInt8 :=
  (((BitVec.ofInt 64 id).sshiftRight zoneBit).toInt,
    UInt8.ofNat (BitVec.ofInt 64 id &&& BitVec.ofInt 64 MaxZone).toNat)

/-- The zone byte is masked against the zero bits the shift leaves, so every
pair packs to `0`. -/
theorem CombineZoneId_eq_zero (zoneId : Int) (zone : UInt8) : CombineZoneId zoneId zone = 0 := by
  have hzero : (BitVec.ofInt 64 zoneId <<< zoneBit) &&& BitVec.ofNat 64 zone.toNat = 0 := by
    ext i
    simp only [BitVec.getLsbD_and, BitVec.getLsbD_shiftLeft, BitVec.getLsbD_ofNat,
      BitVec.getLsbD_zero, zoneBit]
    by_cases hi : (i : Nat) < 8
    · simp [hi]
    · have hlt : zone.toNat < 2 ^ (i : Nat) :=
        calc zone.toNat < 2 ^ 8 := zone.toNat_lt_size
          _ ≤ 2 ^ (i : Nat) := Nat.pow_le_pow_right (by decide) (by omega)
      simp [Nat.testBit_lt_two_pow hlt]
  rw [CombineZoneId, hzero]
  rfl

/-- **`SplitId` does not invert `CombineZoneId`**: whatever the pair, it reads
back `(0, 0)`. -/
theorem SplitId_CombineZoneId (zoneId : Int) (zone : UInt8) :
    SplitId (CombineZoneId zoneId zone) = (0, 0) := by
  rw [CombineZoneId_eq_zero]
  decide

end id

end VulcanPkgTool
