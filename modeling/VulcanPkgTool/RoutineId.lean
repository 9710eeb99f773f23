import VulcanPkgTool.Id
import VulcanPkgTool.Net.HostPort

/-!
`sync.RoutineId`: the id of the calling goroutine, read from the first line of
its stack trace, `goroutine N [status]:`.

`RoutineId` asks `runtime.Stack` for the trace into a buffer of
`initialRoutineIDBuffer = 128` bytes, which keeps the first 128 bytes, and
parses them; the test helper `parseRoutineID` runs the same parse on a stack it
is given. So `RoutineId` is `parseRoutineID` of the trace cut to 128 bytes.

The parse wants `goroutine `, then bytes up to the first space that are all
decimal digits, which it reads at `uint64`, so a long run wraps. Anything else
gives `0`.

- What the parse accepts is well formed: a stack it reads as nonzero is
  `goroutine `, decimal digits, a space and the rest, and the result is the
  digits' value modulo `2^64` (`parseRoutineID_ne_zero`).
- `RoutineId` returns the id of every trace the runtime writes for a `uint64`
  id `N`, whose first field has at most 20 digits and fits in the 128 bytes. A
  buffer that ends before the space after the id, such as the 10-byte one of the
  test, gives `0` (`RoutineId_formatBits`).
-/

set_option autoImplicit false

namespace VulcanPkgTool

open strconv

namespace bytes

/-- `bytes.HasPrefix(s, prefix)`. -/
def HasPrefix (s pre : GoString) : Bool := s.length ≥ pre.length && s.take pre.length == pre

/-- `bytes.IndexByte(b, c)`: `bytealg.IndexByte`, the same scan as
`bytealg.IndexByteString`; `none` for `-1`. -/
def IndexByte (b : GoString) (c : UInt8) : Option Nat := bytealg.IndexByteString b c

theorem HasPrefix_append (pre t : GoString) : HasPrefix (pre ++ t) pre = true := by
  simp [HasPrefix]

theorem eq_append_of_HasPrefix {s pre : GoString} (h : HasPrefix s pre = true) :
    s = pre ++ s.drop pre.length := by
  simp only [HasPrefix, Bool.and_eq_true, decide_eq_true_eq, beq_iff_eq] at h
  conv_lhs => rw [← List.take_append_drop pre.length s, h.2]

end bytes

namespace sync

/-- `const prefix = "goroutine "`. -/
def routinePrefix : GoString := ascii "goroutine "

/-- `initialRoutineIDBuffer`, the size of the buffer `RoutineId` gives `runtime.Stack`. -/
def initialRoutineIDBuffer : Nat := 128

/-- The loop `for _, c := range stack[:end]` from the value `id` read so far: `0`
at the first byte outside `'0'..'9'`, and otherwise `id = id*10 + uint64(c-'0')`. -/
def idLoop : GoString → UInt64 → UInt64
  | [], id => id
  | c :: cs, id => if c < 48 ∨ c > 57 then 0 else idLoop cs (id * 10 + (c - 48).toUInt64)

/-- `parseRoutineID(stack)`. -/
def parseRoutineID (stack : GoString) : UInt64 :=
  if !bytes.HasPrefix stack routinePrefix then 0
  else
    let stack := stack.drop routinePrefix.length
    match bytes.IndexByte stack 32 with
    | none => 0
    | some i => idLoop (stack.take i) 0

/-- `RoutineId()`: `runtime.Stack(buf, false)` copies the first `len(buf)` bytes of
the calling goroutine's trace `trace` into `buf`, and `buf[:n]` is parsed as
`parseRoutineID` does. -/
def RoutineId (trace : GoString) : UInt64 := parseRoutineID (trace.take initialRoutineIDBuffer)

/-! ## The digit loop -/

/-- `uint64` arithmetic is arithmetic modulo `2^64`. -/
theorem ofNat_mul_ten_add (a d : Nat) :
    UInt64.ofNat a * 10 + UInt64.ofNat d = UInt64.ofNat (a * 10 + d) := by
  apply UInt64.eq_of_toBitVec_eq
  apply BitVec.eq_of_toNat_eq
  show ((a % 2 ^ 64) * (10 % 2 ^ 64) % 2 ^ 64 + d % 2 ^ 64) % 2 ^ 64 = (a * 10 + d) % 2 ^ 64
  omega

/-- A byte in `'0'..'9'` is the digit `c - '0'`. -/
theorem digit_of_not_lt {c : UInt8} (h : ¬(c < 48 ∨ c > 57)) :
    c.toNat - 48 < 10 ∧ c = digitByte (c.toNat - 48) ∧ (c - 48).toUInt64 = UInt64.ofNat (c.toNat - 48) := by
  have h₁ : ¬c.toNat < 48 := fun h' => h (.inl h')
  have h₂ : ¬c.toNat > 57 := fun h' => h (.inr h')
  refine ⟨by omega, UInt8.toNat.inj ?_, ?_⟩
  · rw [toNat_digitByte (by omega)]
    omega
  · apply UInt64.eq_of_toBitVec_eq
    apply BitVec.eq_of_toNat_eq
    show (c - 48).toNat = (c.toNat - 48) % 2 ^ 64
    rw [UInt8.toNat_sub_of_le _ _ (UInt8.not_lt.1 h₁)]
    have : c.toNat < 256 := c.toNat_lt_size
    show c.toNat - 48 = (c.toNat - 48) % 2 ^ 64
    omega

theorem idLoop_digitByte {d : Nat} (hd : d < 10) (cs : GoString) (a : Nat) :
    idLoop (digitByte d :: cs) (UInt64.ofNat a) = idLoop cs (UInt64.ofNat (a * 10 + d)) := by
  have hc : ¬(digitByte d < 48 ∨ digitByte d > 57) := by
    show ¬((digitByte d).toNat < 48 ∨ (digitByte d).toNat > 57)
    rw [toNat_digitByte hd]
    omega
  obtain ⟨-, -, hsub⟩ := digit_of_not_lt hc
  rw [idLoop, if_neg hc, hsub, toNat_digitByte hd, Nat.add_sub_cancel_left, ofNat_mul_ten_add]

/-- On digits the loop reads their value, modulo `2^64`. -/
theorem idLoop_digits : ∀ (ds : List Nat) (a : Nat), (∀ d ∈ ds, d < 10) →
    idLoop (ds.map digitByte) (UInt64.ofNat a) = UInt64.ofNat (readDigits a ds)
  | [], _, _ => rfl
  | d :: ds, a, hds => by
    rw [List.map_cons, idLoop_digitByte (hds d (List.mem_cons_self d ds))]
    exact idLoop_digits ds _ fun d' hd' => hds d' (List.mem_cons_of_mem d hd')

/-- A nonzero result comes from digits only. -/
theorem idLoop_ne_zero : ∀ (cs : GoString) (a : Nat), idLoop cs (UInt64.ofNat a) ≠ 0 →
    ∃ ds : List Nat, cs = ds.map digitByte ∧ ∀ d ∈ ds, d < 10
  | [], _, _ => ⟨[], rfl, fun _ h => by cases h⟩
  | c :: cs, a, h => by
    by_cases hc : c < 48 ∨ c > 57
    · rw [idLoop, if_pos hc] at h
      exact absurd rfl h
    · obtain ⟨hd, hceq, -⟩ := digit_of_not_lt hc
      rw [hceq, idLoop_digitByte hd] at h
      obtain ⟨ds, rfl, hds⟩ := idLoop_ne_zero cs _ h
      refine ⟨(c.toNat - 48) :: ds, by rw [List.map_cons, ← hceq], fun d hd' => ?_⟩
      rcases List.mem_cons.1 hd' with rfl | hd'
      · exact hd
      · exact hds d hd'

/-! ## The parse -/

/-- A digit is not a space. -/
theorem space_not_mem_digits {ds : List Nat} (hds : ∀ d ∈ ds, d < 10) :
    (32 : UInt8) ∉ ds.map digitByte := fun h => by
  obtain ⟨d, hd, heq⟩ := List.mem_map.1 h
  have := toNat_digitByte (hds d hd)
  rw [heq, show (32 : UInt8).toNat = 32 from rfl] at this
  omega

/-- The parse of `goroutine `, digits, a space and the rest. -/
theorem parseRoutineID_digits {ds : List Nat} (hds : ∀ d ∈ ds, d < 10) (rest : GoString) :
    parseRoutineID (routinePrefix ++ ds.map digitByte ++ 32 :: rest) =
      UInt64.ofNat (readDigits 0 ds) := by
  rw [parseRoutineID, List.append_assoc, bytes.HasPrefix_append]
  dsimp only [Bool.not_true, Bool.false_eq_true, ↓reduceIte]
  rw [List.drop_left, bytes.IndexByte,
    bytealg.IndexByteString_append_cons _ _ (space_not_mem_digits hds)]
  dsimp only
  rw [List.take_left]
  exact idLoop_digits ds 0 hds

/-- **What the parse accepts is well formed.** A stack that `parseRoutineID` reads
as nonzero is `goroutine `, then decimal digits, a space and the rest, and the
result is the value of the digits modulo `2^64`. -/
theorem parseRoutineID_ne_zero (stack : GoString) (h : parseRoutineID stack ≠ 0) :
    ∃ ds rest, stack = routinePrefix ++ ds.map digitByte ++ 32 :: rest ∧ (∀ d ∈ ds, d < 10) ∧
      parseRoutineID stack = UInt64.ofNat (readDigits 0 ds) := by
  unfold parseRoutineID at h
  split at h
  · exact absurd rfl h
  · next hpre =>
    have hs := bytes.eq_append_of_HasPrefix (by simpa using hpre)
    dsimp only at h
    split at h
    · exact absurd rfl h
    · next i hi =>
      obtain ⟨pre, post, hsplit, rfl, -⟩ := bytealg.IndexByteString_eq_some hi
      rw [hsplit, List.take_left] at h
      obtain ⟨ds, rfl, hds⟩ := idLoop_ne_zero pre 0 h
      have hstack : stack = routinePrefix ++ ds.map digitByte ++ 32 :: post := by
        rw [hs, hsplit, List.append_assoc]
      exact ⟨ds, post, hstack, hds, by rw [hstack, parseRoutineID_digits hds]⟩

theorem parseRoutineID_ne_zero_running :
    parseRoutineID (ascii "goroutine 7 [running]") ≠ 0 ∧
      ∃ ds rest, ascii "goroutine 7 [running]" = routinePrefix ++ ds.map digitByte ++ 32 :: rest ∧
        (∀ d ∈ ds, d < 10) ∧
        parseRoutineID (ascii "goroutine 7 [running]") = UInt64.ofNat (readDigits 0 ds) :=
  ⟨by decide, parseRoutineID_ne_zero _ (by decide)⟩

/-! ## `RoutineId` on the traces the runtime writes -/

/-- A `uint64` has at most 20 decimal digits. -/
theorem length_formatBits_le {n : Nat} (hn : n < 2 ^ 64) : (formatBits n).length ≤ 20 := by
  have h20 : n < 10 ^ 20 := lt_of_lt_of_le hn (by norm_num)
  simp only [formatBits, decimalDigits, List.length_map]
  split
  · simp
  · next hn0 =>
    rw [List.length_reverse, Nat.digits_len 10 n (by norm_num) hn0]
    have := Nat.log_lt_of_lt_pow hn0 h20
    omega

/-- A stack cut before the space after the id parses as `0`. -/
theorem parseRoutineID_take_le {ds : List Nat} (hds : ∀ d ∈ ds, d < 10) (rest : GoString) {k : Nat}
    (hk : k ≤ routinePrefix.length + ds.length) :
    parseRoutineID ((routinePrefix ++ ds.map digitByte ++ 32 :: rest).take k) = 0 := by
  have hlen : routinePrefix.length = 10 := rfl
  by_cases hk₁ : k < 10
  · have hpre : bytes.HasPrefix ((routinePrefix ++ ds.map digitByte ++ 32 :: rest).take k)
        routinePrefix = false := by
      simp only [bytes.HasPrefix, List.length_take, hlen, Bool.and_eq_false_iff,
        decide_eq_false_iff_not]
      exact .inl (by omega)
    rw [parseRoutineID, hpre]
    rfl
  · have htake : (routinePrefix ++ ds.map digitByte ++ 32 :: rest).take k =
        routinePrefix ++ (ds.map digitByte).take (k - 10) := by
      rw [List.append_assoc, List.take_append_eq_append_take, List.take_of_length_le (by omega),
        hlen, List.take_append_eq_append_take, List.length_map,
        show k - 10 - ds.length = 0 by omega, List.take_zero, List.append_nil]
    have hnone : bytes.IndexByte ((ds.map digitByte).take (k - 10)) 32 = none := by
      cases hI : bytes.IndexByte ((ds.map digitByte).take (k - 10)) 32 with
      | none => rfl
      | some j =>
        have := bytealg.isSome_IndexByteString.1 (by rw [← bytes.IndexByte, hI]; rfl)
        exact absurd (List.mem_of_mem_take this) (space_not_mem_digits hds)
    rw [htake, parseRoutineID, bytes.HasPrefix_append]
    dsimp only [Bool.not_true, Bool.false_eq_true, ↓reduceIte]
    rw [List.drop_left, hnone]
    rfl

/-- **`RoutineId` returns the goroutine's id.** For every `uint64` id `n`, the
trace `goroutine n [...` that the runtime writes has its first field within the
128 bytes `RoutineId` reads, and `RoutineId` returns `n`. A buffer that ends at or
before the space after the id would give `0`. -/
theorem RoutineId_formatBits (n : Nat) (hn : n < 2 ^ 64) (rest : GoString) :
    RoutineId (routinePrefix ++ formatBits n ++ 32 :: rest) = UInt64.ofNat n ∧
      ∀ k ≤ routinePrefix.length + (formatBits n).length,
        parseRoutineID ((routinePrefix ++ formatBits n ++ 32 :: rest).take k) = 0 := by
  have hds : ∀ d ∈ decimalDigits n, d < 10 := fun _ => lt_ten_of_mem_decimalDigits
  have hlen := length_formatBits_le hn
  have hpre : routinePrefix.length = 10 := rfl
  refine ⟨?_, fun k hk => ?_⟩
  · have htake : (routinePrefix ++ formatBits n ++ 32 :: rest).take initialRoutineIDBuffer =
        routinePrefix ++ formatBits n ++ 32 :: rest.take (initialRoutineIDBuffer - 11 - (formatBits n).length) := by
      rw [List.append_assoc, List.take_append_eq_append_take, List.take_of_length_le (by
        rw [hpre]; decide), List.take_append_eq_append_take, List.take_of_length_le (by
        simp only [initialRoutineIDBuffer, hpre]; omega), hpre, List.append_assoc]
      congr 2
      rw [show initialRoutineIDBuffer - 10 - (formatBits n).length =
        (initialRoutineIDBuffer - 11 - (formatBits n).length) + 1 by
          simp only [initialRoutineIDBuffer]; omega, List.take_succ_cons]
    rw [RoutineId, htake, formatBits, parseRoutineID_digits hds, readDigits_decimalDigits]
  · rw [formatBits, List.length_map] at hk
    exact parseRoutineID_take_le hds rest hk

theorem RoutineId_formatBits_one :
    1 < 2 ^ 64 ∧ RoutineId (routinePrefix ++ formatBits 1 ++ 32 :: ascii "[running]:") = UInt64.ofNat 1 ∧
      ∀ k ≤ routinePrefix.length + (formatBits 1).length,
        parseRoutineID ((routinePrefix ++ formatBits 1 ++ 32 :: ascii "[running]:").take k) = 0 :=
  ⟨by decide, RoutineId_formatBits 1 (by decide) _⟩

end sync

end VulcanPkgTool
