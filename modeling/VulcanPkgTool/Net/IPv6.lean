import VulcanPkgTool.Net.IPv4

/-!
`ParseIP(ip.String())` is `ip.To16()`, for every byte slice (`ParseIP_String`).

`IP.String` writes one of four forms, and `ParseAddr` sends each one to its own
parser by the first `.`, `:` or `%` it contains. `<nil>` and `?` followed by hex
contain none of them, so they fail. A dotted quad goes to `parseIPv4`, which reads
it back (`parseIPv4_string4`). The IPv6 form is the real work. `string6` drops the
first longest run of zero fields as `::`, and `parseIPv6` spreads the fields on
either side back out to sixteen bytes.

Both sides are stated with `joinColon`, hex fields separated by colons. The printer
writes `joinColon g` when there is no run of two zero fields (`string6Loop_noRun`).
Otherwise it writes `joinColon` of the fields before the run, then `::`, then
`joinColon` of the fields after it (`string6Loop_run`). The parser's field loop
reads a `joinColon` one field per step (`parseIPv6Loop_joinColon`), and the
same with one `::` inside it (`parseIPv6Loop_joinColon_ellipsis`).
-/

set_option autoImplicit false

namespace VulcanPkgTool

namespace net

/-! ## 1. Hex digits and fields -/

theorem digit_ne : ∀ d, d < 16 → digit d ≠ 46 ∧ digit d ≠ 58 ∧ digit d ≠ 37 := by
  decide

/-- No hex digit is one of the bytes `ParseAddr` dispatches on. -/
theorem digit_not_sep : ∀ d, d < 16 → (digit d == 46 || digit d == 58 || digit d == 37) = false := by
  decide

theorem appendHex_ne_nil (x : Nat) : appendHex x ≠ [] := by
  simp [appendHex]

/-- Every byte of a field in hex is a hex digit. -/
theorem mem_appendHex {x : Nat} (hx : x < 65536) {c : UInt8} (hc : c ∈ appendHex x) :
    ∃ d, d < 16 ∧ c = digit d := by
  simp only [appendHex, List.mem_append, List.mem_ite_nil_right, List.mem_singleton] at hc
  rcases hc with ((⟨-, rfl⟩ | ⟨-, rfl⟩) | ⟨-, rfl⟩) | rfl <;> exact ⟨_, by omega, rfl⟩

/-- Every byte of a field in decimal is a decimal digit. -/
theorem mem_appendDecimal {x : Nat} (hx : x < 256) {c : UInt8} (hc : c ∈ appendDecimal x) :
    ∃ d, d < 10 ∧ c = digit d := by
  simp only [appendDecimal, List.mem_append, List.mem_ite_nil_right, List.mem_singleton] at hc
  rcases hc with (⟨-, rfl⟩ | ⟨-, rfl⟩) | rfl <;> exact ⟨_, by omega, rfl⟩

/-- A field in hex starts with a hex digit. -/
theorem appendHex_eq_cons {x : Nat} (hx : x < 65536) : ∃ d t, d < 16 ∧ appendHex x = digit d :: t := by
  match h : appendHex x, appendHex_ne_nil x with
  | c :: t, _ =>
    obtain ⟨d, hd, rfl⟩ := mem_appendHex hx (h ▸ List.mem_cons_self c t)
    exact ⟨d, t, hd, rfl⟩

section HexField

variable (cs : GoString)

theorem hexField_digit (d acc off : Nat) (hd : d < 16) (hoff : off ≤ 3) (hacc : acc * 16 + d ≤ 65535) :
    hexField (digit d :: cs) acc off = hexField cs (acc * 16 + d) (off + 1) := by
  simp only [hexField, hexVal_digit hd]
  rw [if_neg (by omega)]

/-- The reader stops at the first byte that is not a hex digit. -/
theorem hexField_stop (acc off : Nat) (h : ∀ c ∈ cs.head?, hexVal c = none) :
    hexField cs acc off = some (acc, off, cs) := by
  match cs, h with
  | [], _ => rfl
  | c :: cs, h => simp only [hexField, h c rfl]

/-- A field in hex reads as its value. -/
theorem hexField_appendHex {x : Nat} (hx : x < 65536) :
    ∃ n, n ≠ 0 ∧ hexField (appendHex x ++ cs) 0 0 = hexField cs x n := by
  by_cases h3 : 0x1000 ≤ x
  · refine ⟨4, by omega, ?_⟩
    simp only [appendHex, if_pos h3, if_pos (show 0x100 ≤ x by omega), if_pos (show 0x10 ≤ x by omega),
      List.append_assoc, List.cons_append, List.nil_append]
    rw [hexField_digit _ (x / 0x1000) 0 0 (by omega) (by omega) (by omega),
      hexField_digit _ (x / 0x100 % 16) _ _ (by omega) (by omega) (by omega),
      hexField_digit _ (x / 0x10 % 16) _ _ (by omega) (by omega) (by omega),
      hexField_digit _ (x % 16) _ _ (by omega) (by omega) (by omega)]
    congr 1
    omega
  by_cases h2 : 0x100 ≤ x
  · refine ⟨3, by omega, ?_⟩
    simp only [appendHex, if_neg h3, if_pos h2, if_pos (show 0x10 ≤ x by omega), List.nil_append,
      List.append_assoc, List.cons_append]
    rw [hexField_digit _ (x / 0x100 % 16) 0 0 (by omega) (by omega) (by omega),
      hexField_digit _ (x / 0x10 % 16) _ _ (by omega) (by omega) (by omega),
      hexField_digit _ (x % 16) _ _ (by omega) (by omega) (by omega)]
    congr 1
    omega
  by_cases h1 : 0x10 ≤ x
  · refine ⟨2, by omega, ?_⟩
    simp only [appendHex, if_neg h3, if_neg h2, if_pos h1, List.nil_append, List.append_assoc,
      List.cons_append]
    rw [hexField_digit _ (x / 0x10 % 16) 0 0 (by omega) (by omega) (by omega),
      hexField_digit _ (x % 16) _ _ (by omega) (by omega) (by omega)]
    congr 1
    omega
  · refine ⟨1, by omega, ?_⟩
    simp only [appendHex, if_neg h3, if_neg h2, if_neg h1, List.nil_append, List.singleton_append]
    rw [hexField_digit _ (x % 16) 0 0 (by omega) (by omega) (by omega)]
    congr 1
    omega

end HexField

/-! ## 2. One field of the loop -/

section Loop

variable (k : Nat) (ip : List UInt8) (e : Option Nat) {x : Nat}

theorem hexVal_colon : hexVal 58 = none := by
  decide

/-- The last field. -/
theorem parseIPv6Loop_last (hx : x < 65536) :
    parseIPv6Loop (k + 1) ip e (appendHex x) = some (ip ++ fieldBytes x, e, []) := by
  obtain ⟨n, hn, h⟩ := hexField_appendHex [] hx
  rw [List.append_nil] at h
  simp only [parseIPv6Loop, h, hexField_stop [] x n (by simp), if_neg hn]

/-- A field, then a colon and another field. -/
theorem parseIPv6Loop_colon (hx : x < 65536) {rest : GoString} (hr : ∃ d t, d < 16 ∧ rest = digit d :: t) :
    parseIPv6Loop (k + 1) ip e (appendHex x ++ 58 :: rest) = parseIPv6Loop k (ip ++ fieldBytes x) e rest := by
  obtain ⟨d, t, hd, rfl⟩ := hr
  obtain ⟨n, hn, h⟩ := hexField_appendHex (58 :: digit d :: t) hx
  simp [parseIPv6Loop, h, hexField_stop (58 :: digit d :: t) x n (by simp [hexVal_colon]), hn,
    (digit_ne d hd).2.1]

/-- A field, then `::` and more. -/
theorem parseIPv6Loop_ellipsis (hx : x < 65536) (rest : GoString) (hr : rest ≠ []) :
    parseIPv6Loop (k + 1) ip none (appendHex x ++ 58 :: 58 :: rest) =
      parseIPv6Loop k (ip ++ fieldBytes x) (some (ip.length + 2)) rest := by
  obtain ⟨n, hn, h⟩ := hexField_appendHex (58 :: 58 :: rest) hx
  simp [parseIPv6Loop, h, hexField_stop (58 :: 58 :: rest) x n (by simp [hexVal_colon]), hn, hr]

/-- A field, then `::` at the end. -/
theorem parseIPv6Loop_ellipsis_last (hx : x < 65536) :
    parseIPv6Loop (k + 1) ip none (appendHex x ++ [58, 58]) =
      some (ip ++ fieldBytes x, some (ip.length + 2), []) := by
  obtain ⟨n, hn, h⟩ := hexField_appendHex [58, 58] hx
  simp [parseIPv6Loop, h, hexField_stop [58, 58] x n (by simp [hexVal_colon]), hn]

end Loop

/-! ## 3. Fields separated by colons -/

/-- Each field in hex after a colon. -/
def colonHex (g : List Nat) : GoString := g.flatMap fun x => 58 :: appendHex x

/-- Fields in hex separated by colons: what `string6` writes either side of `::`. -/
def joinColon : List Nat → GoString
  | [] => []
  | x :: xs => appendHex x ++ colonHex xs

/-- The bytes of 16-bit fields, high byte first. -/
def fieldsBytes (g : List Nat) : List UInt8 := g.flatMap fieldBytes

@[simp] theorem fieldsBytes_nil : fieldsBytes [] = [] := rfl

@[simp] theorem fieldsBytes_cons (x : Nat) (g : List Nat) :
    fieldsBytes (x :: g) = fieldBytes x ++ fieldsBytes g := rfl

@[simp] theorem fieldsBytes_append (g h : List Nat) : fieldsBytes (g ++ h) = fieldsBytes g ++ fieldsBytes h :=
  List.flatMap_append g h fieldBytes

@[simp] theorem length_fieldsBytes (g : List Nat) : (fieldsBytes g).length = 2 * g.length := by
  induction g with
  | nil => rfl
  | cons x g ih => simp [fieldBytes, ih]; omega

theorem fieldsBytes_replicate : ∀ n, fieldsBytes (List.replicate n 0) = List.replicate (2 * n) 0
  | 0 => rfl
  | n + 1 => by
    rw [List.replicate_succ, fieldsBytes_cons, fieldsBytes_replicate n, show 2 * (n + 1) = 2 * n + 1 + 1 by omega]
    rfl

theorem joinColon_cons_cons (x y : Nat) (ys : List Nat) :
    joinColon (x :: y :: ys) = appendHex x ++ 58 :: joinColon (y :: ys) := by
  simp [joinColon, colonHex]

/-- Whatever follows, a `joinColon` starts with a hex digit. -/
theorem joinColon_append_eq_cons {g : List Nat} (hg : g ≠ []) (h : ∀ x ∈ g, x < 65536) (rest : GoString) :
    ∃ d t, d < 16 ∧ joinColon g ++ rest = digit d :: t := by
  match g, hg with
  | x :: xs, _ =>
    obtain ⟨d, t, hd, he⟩ := appendHex_eq_cons (h x (List.mem_cons_self x xs))
    exact ⟨d, t ++ colonHex xs ++ rest, hd, by simp [joinColon, he]⟩

/-- Every byte of a `joinColon` is a colon or a hex digit. -/
theorem mem_joinColon {g : List Nat} (h : ∀ x ∈ g, x < 65536) {c : UInt8} (hc : c ∈ joinColon g) :
    c = 58 ∨ ∃ d, d < 16 ∧ c = digit d := by
  match g, hc with
  | x :: xs, hc =>
    simp only [joinColon, colonHex, List.mem_append, List.mem_flatMap, List.mem_cons] at hc
    rcases hc with hc | ⟨y, hy, rfl | hc⟩
    · exact Or.inr (mem_appendHex (h x (List.mem_cons_self x xs)) hc)
    · exact Or.inl rfl
    · exact Or.inr (mem_appendHex (h y (List.mem_cons_of_mem x hy)) hc)

/-- **The field loop reads a `joinColon`**, one field a step, given fuel for every field. -/
theorem parseIPv6Loop_joinColon : ∀ (g : List Nat) (k : Nat) (ip : List UInt8) (e : Option Nat),
    g ≠ [] → g.length ≤ k → (∀ x ∈ g, x < 65536) →
    parseIPv6Loop k ip e (joinColon g) = some (ip ++ fieldsBytes g, e, [])
  | [], _, _, _, hg, _, _ => absurd rfl hg
  | _ :: _, 0, _, _, _, hk, _ => absurd hk (by simp)
  | [x], k + 1, ip, e, _, _, h => by
    simpa [joinColon, colonHex] using parseIPv6Loop_last k ip e (h x (List.mem_singleton_self x))
  | x :: y :: ys, k + 1, ip, e, _, hk, h => by
    have hys : ∀ z ∈ y :: ys, z < 65536 := fun z hz => h z (List.mem_cons_of_mem x hz)
    rw [joinColon_cons_cons, parseIPv6Loop_colon k ip e (h x (List.mem_cons_self x _))
        (by simpa using joinColon_append_eq_cons (List.cons_ne_nil y ys) hys []),
      parseIPv6Loop_joinColon (y :: ys) k _ e (List.cons_ne_nil y ys) (by simp at hk ⊢; omega) hys]
    simp

/-- **The field loop reads `::` between two `joinColon`s**, and puts the ellipsis
after the fields before it. -/
theorem parseIPv6Loop_joinColon_ellipsis : ∀ (hs ts : List Nat) (k : Nat) (ip : List UInt8),
    hs ≠ [] → hs.length + ts.length ≤ k → (∀ x ∈ hs, x < 65536) → (∀ x ∈ ts, x < 65536) →
    parseIPv6Loop k ip none (joinColon hs ++ 58 :: 58 :: joinColon ts) =
      some (ip ++ fieldsBytes hs ++ fieldsBytes ts, some (ip.length + 2 * hs.length), [])
  | [], _, _, _, hg, _, _, _ => absurd rfl hg
  | _ :: _, _, 0, _, _, hk, _, _ => absurd hk (by simp)
  | [x], [], k + 1, ip, _, _, h, _ => by
    simpa [joinColon, colonHex] using parseIPv6Loop_ellipsis_last k ip (h x (List.mem_singleton_self x))
  | [x], t :: ts, k + 1, ip, _, hk, h, ht => by
    have hj : joinColon [x] = appendHex x := by simp [joinColon, colonHex]
    rw [hj, parseIPv6Loop_ellipsis k ip (h x (List.mem_singleton_self x)) _
        (by simp [joinColon, appendHex_ne_nil]),
      parseIPv6Loop_joinColon (t :: ts) k _ _ (List.cons_ne_nil t ts) (by simp at hk ⊢; omega) ht]
    simp
  | x :: y :: ys, ts, k + 1, ip, _, hk, h, ht => by
    have hys : ∀ z ∈ y :: ys, z < 65536 := fun z hz => h z (List.mem_cons_of_mem x hz)
    rw [joinColon_cons_cons, List.append_assoc, List.cons_append,
      parseIPv6Loop_colon k ip none (h x (List.mem_cons_self x _))
        (joinColon_append_eq_cons (List.cons_ne_nil y ys) hys _),
      parseIPv6Loop_joinColon_ellipsis (y :: ys) ts k _ (List.cons_ne_nil y ys) (by simp at hk ⊢; omega) hys ht]
    simp [fieldBytes]
    omega

/-! ## 4. What `string6` writes -/

/-- `(zs, ze)` is no run (`zs` past the last field), or a run of at least two zero fields. -/
def IsZeroRun (g : List Nat) (run : Nat × Nat) : Prop :=
  8 ≤ run.1 ∨ (run.1 + 2 ≤ run.2 ∧ run.2 ≤ 8 ∧
    (g.drop run.1).take (run.2 - run.1) = List.replicate (run.2 - run.1) 0)

section String6

variable {g : List Nat}

/-- **The search keeps its invariant**: after every field, the best run so far is
a run of zero fields, or none. -/
theorem zeroRun_isZeroRun (hg : g.length = 8) : IsZeroRun g (zeroRun g) := by
  unfold zeroRun
  refine List.foldlRecOn (motive := IsZeroRun g) _ _ _ (Or.inl (by decide)) fun run hrun i hi => ?_
  dsimp only
  split_ifs with h
  · have htw := List.takeWhile_prefix (l := g.drop i) (· == 0)
    have hlen : ((g.drop i).takeWhile (· == 0)).length ≤ 8 - i := by
      simpa [hg] using htw.length_le
    refine Or.inr ⟨by omega, by omega, ?_⟩
    rw [Nat.add_sub_cancel_left, ← List.prefix_iff_eq_take.mp htw]
    exact List.eq_replicate_iff.mpr ⟨rfl, fun b hb => by simpa using List.mem_takeWhile_imp hb⟩
  · exact hrun

theorem drop_eq_getD_cons {i : Nat} (h : i < g.length) : g.drop i = g.getD i 0 :: g.drop (i + 1) := by
  rw [List.drop_eq_getElem_cons h, List.getD_eq_getElem?_getD, List.getElem?_eq_getElem h]
  rfl

variable (hg : g.length = 8) {zs ze : Nat}
include hg

/-- Past the run, or with none, each field is written after a colon. -/
theorem string6Loop_after :
    ∀ fuel i, 0 < i → zs < i ∨ 8 ≤ zs → 8 ≤ fuel + i → string6Loop g zs ze fuel i = colonHex (g.drop i)
  | 0, i, _, _, hf => by rw [List.drop_eq_nil_of_le (by omega)]; rfl
  | fuel + 1, i, hi, hz, hf => by
    by_cases h8 : 8 ≤ i
    · rw [List.drop_eq_nil_of_le (by omega), string6Loop, if_pos h8]; rfl
    · rw [string6Loop, if_neg h8, if_neg (by omega), if_pos hi,
        string6Loop_after fuel (i + 1) (by omega) (by omega) (by omega),
        drop_eq_getD_cons (show i < g.length by omega)]
      simp [colonHex]

/-- Before the run, each field after a colon; then `::` and the fields after the run. -/
theorem string6Loop_before (hzs : zs < 8) (hz : zs < ze) (hze : ze ≤ 8) :
    ∀ fuel i, (0 < i ∨ i = zs) → i ≤ zs → 8 ≤ fuel + i →
      string6Loop g zs ze fuel i = colonHex ((g.drop i).take (zs - i)) ++ 58 :: 58 :: joinColon (g.drop ze)
  | 0, i, _, hi, hf => absurd hf (by omega)
  | fuel + 1, i, h0, hi, hf => by
    rw [string6Loop, if_neg (by omega)]
    by_cases hiz : i = zs
    · subst hiz
      rw [if_pos rfl, Nat.sub_self, List.take_zero]
      by_cases h8 : 8 ≤ ze
      · rw [if_pos h8, List.drop_eq_nil_of_le (by omega)]; rfl
      · rw [if_neg h8, string6Loop_after hg fuel (ze + 1) (by omega) (by omega) (by omega),
          drop_eq_getD_cons (show ze < g.length by omega)]
        rfl
    · rw [if_neg hiz, if_pos (by omega), string6Loop_before hzs hz hze fuel (i + 1) (by omega) (by omega) (by omega),
        drop_eq_getD_cons (show i < g.length by omega), show zs - i = zs - (i + 1) + 1 by omega, List.take_succ_cons]
      simp [colonHex]

/-- With no run of two zero fields, `string6` writes every field. -/
theorem string6Loop_noRun (hzs : 8 ≤ zs) : string6Loop g zs ze 8 0 = joinColon g := by
  match g, hg with
  | a :: g', hg =>
    rw [string6Loop, if_neg (by omega), if_neg (by omega), if_neg (by omega),
      string6Loop_after hg 7 1 (by omega) (Or.inr hzs) (by omega)]
    rfl

/-- With a run, `string6` writes the fields before it, `::`, and those after it. -/
theorem string6Loop_run (hzs : zs < 8) (hz : zs < ze) (hze : ze ≤ 8) :
    string6Loop g zs ze 8 0 = joinColon (g.take zs) ++ 58 :: 58 :: joinColon (g.drop ze) := by
  match g, hg, zs with
  | _, hg, 0 => rw [string6Loop_before hg hzs hz hze 8 0 (Or.inr rfl) le_rfl (by omega)]; rfl
  | a :: g', hg, zs + 1 =>
    rw [string6Loop, if_neg (by omega), if_neg (by omega), if_neg (by omega),
      string6Loop_before hg hzs hz hze 7 1 (Or.inl one_pos) (by omega) (by omega)]
    simp [joinColon]

end String6

/-! ## 5. The bytes of the fields -/

theorem ofNat_eq_of_mod {n : Nat} {x : UInt8} (h : n % 256 = x.toNat) : UInt8.ofNat n = x :=
  UInt8.toNat.inj (by rw [toNat_ofNat_uint8, h])

/-- The two bytes of a field are the bytes it was read from. -/
theorem fieldBytes_pair (a c : UInt8) : fieldBytes (a.toNat * 256 + c.toNat) = [a, c] := by
  have ha := a.toNat_lt_size
  have hc := c.toNat_lt_size
  simp only [fieldBytes, UInt8.size] at ha hc ⊢
  rw [ofNat_eq_of_mod (x := a) (by omega), ofNat_eq_of_mod (x := c) (by omega)]

theorem fieldsBytes_fields : ∀ b : List UInt8, b.length % 2 = 0 → fieldsBytes (fields b) = b
  | [], _ => rfl
  | [_], h => by simp at h
  | a :: c :: rest, h => by
    rw [fields, fieldsBytes_cons, fieldBytes_pair,
      fieldsBytes_fields rest (by simp only [List.length_cons] at h; omega)]
    rfl

theorem length_fields : ∀ b : List UInt8, (fields b).length = b.length / 2
  | [] => rfl
  | [_] => by unfold fields; simp
  | a :: c :: rest => by rw [fields, List.length_cons, length_fields rest]; simp; omega

theorem fields_lt : ∀ (b : List UInt8), ∀ x ∈ fields b, x < 65536
  | [], _, hx => absurd hx (List.not_mem_nil _)
  | [_], _, hx => absurd hx (List.not_mem_nil _)
  | a :: c :: rest, x, hx => by
    rw [fields, List.mem_cons] at hx
    rcases hx with rfl | hx
    · have := a.toNat_lt_size; have := c.toNat_lt_size; simp only [UInt8.size] at *; omega
    · exact fields_lt rest x hx

/-- Sixteen bytes are the run's zeros between the fields either side of it. -/
theorem fieldsBytes_split {g : List Nat} {zs ze : Nat} (hz : zs ≤ ze)
    (hrun : (g.drop zs).take (ze - zs) = List.replicate (ze - zs) 0) :
    fieldsBytes g = fieldsBytes (g.take zs) ++ List.replicate (2 * (ze - zs)) 0 ++ fieldsBytes (g.drop ze) := by
  have hsplit : g = g.take zs ++ (g.drop zs).take (ze - zs) ++ (g.drop zs).drop (ze - zs) := by
    rw [List.append_assoc, List.take_append_drop, List.take_append_drop]
  rw [List.drop_drop, Nat.add_sub_cancel' hz, hrun] at hsplit
  calc fieldsBytes g = fieldsBytes (g.take zs ++ List.replicate (ze - zs) 0 ++ g.drop ze) := congrArg _ hsplit
    _ = _ := by rw [fieldsBytes_append, fieldsBytes_append, fieldsBytes_replicate]

/-- The bytes spread around the ellipsis. -/
theorem spread_append (l₁ l₂ : List UInt8) (m : Nat) :
    (l₁ ++ l₂).take l₁.length ++ List.replicate m 0 ++ (l₁ ++ l₂).drop l₁.length = l₁ ++ List.replicate m 0 ++ l₂ := by
  rw [List.take_left' rfl, List.drop_left' rfl]

/-! ## 6. The IPv6 round trip -/

theorem splitZone_of_not_mem {s : GoString} (h : 37 ∉ s) : splitZone s = some (s, []) := by
  rw [splitZone, List.indexOf?_eq_none_iff.mpr fun c hc hce => h (by simpa using (beq_iff_eq.mp hce) ▸ hc)]

theorem leadingEllipsis_digit {d : Nat} (hd : d < 16) (t : GoString) :
    leadingEllipsis (digit d :: t) = (none, digit d :: t) := by
  cases t <;> simp [leadingEllipsis, (digit_ne d hd).2.1]

theorem leadingEllipsis_colon (rest : GoString) : leadingEllipsis (58 :: 58 :: rest) = (some 0, rest) := by
  simp [leadingEllipsis]

theorem joinColon_ne_nil {g : List Nat} (hg : g ≠ []) : joinColon g ≠ [] := by
  match g, hg with
  | x :: xs, _ => simp [joinColon, appendHex_ne_nil]

/-- Every byte of the run form is a colon or a hex digit. -/
theorem mem_joinColon_ellipsis {hs ts : List Nat} (h₁ : ∀ x ∈ hs, x < 65536) (h₂ : ∀ x ∈ ts, x < 65536) :
    ∀ c ∈ joinColon hs ++ 58 :: 58 :: joinColon ts, c = 58 ∨ ∃ d, d < 16 ∧ c = digit d := by
  intro c hc
  simp only [List.mem_append, List.mem_cons] at hc
  rcases hc with hc | rfl | rfl | hc
  · exact mem_joinColon h₁ hc
  · exact Or.inl rfl
  · exact Or.inl rfl
  · exact mem_joinColon h₂ hc

theorem not_mem_zone {s : GoString} (h : ∀ c ∈ s, c = 58 ∨ ∃ d, d < 16 ∧ c = digit d) : 37 ∉ s := fun h37 => by
  rcases h 37 h37 with h | ⟨d, hd, h⟩
  · exact absurd h (by decide)
  · exact (digit_ne d hd).2.2 h.symm

section Parse

variable {g : List Nat} (hg : g.length = 8) (hlt : ∀ x ∈ g, x < 65536)
include hg hlt

theorem parseIPv6_noRun : parseIPv6 (joinColon g) = some (fieldsBytes g, []) := by
  have hne : g ≠ [] := List.ne_nil_of_length_pos (by omega)
  obtain ⟨d, t, hd, hs⟩ := joinColon_append_eq_cons hne hlt []
  rw [List.append_nil] at hs
  rw [parseIPv6, splitZone_of_not_mem (not_mem_zone fun c hc => mem_joinColon hlt hc)]
  dsimp only
  rw [hs, leadingEllipsis_digit hd, ← hs]
  dsimp only
  rw [if_neg (by simp), parseIPv6Loop_joinColon g 8 [] none hne (by omega) hlt]
  simp [hg]

theorem parseIPv6_run {zs ze : Nat} (hz : zs + 2 ≤ ze) (hze : ze ≤ 8)
    (hrun : (g.drop zs).take (ze - zs) = List.replicate (ze - zs) 0) :
    parseIPv6 (joinColon (g.take zs) ++ 58 :: 58 :: joinColon (g.drop ze)) = some (fieldsBytes g, []) := by
  have htake : ∀ x ∈ g.take zs, x < 65536 := fun x hx => hlt x (List.mem_of_mem_take hx)
  have hdrop : ∀ x ∈ g.drop ze, x < 65536 := fun x hx => hlt x (List.mem_of_mem_drop hx)
  rw [fieldsBytes_split (by omega) hrun, parseIPv6,
    splitZone_of_not_mem (not_mem_zone (mem_joinColon_ellipsis htake hdrop))]
  dsimp only
  cases zs with
  | zero =>
    -- a leading `::`
    rw [List.take_zero, show joinColon [] = [] from rfl, List.nil_append, leadingEllipsis_colon]
    dsimp only
    by_cases h8 : ze = 8
    · subst h8
      rw [List.drop_eq_nil_of_le (by omega)]
      rfl
    · have hne : g.drop ze ≠ [] := List.ne_nil_of_length_pos (by simp [hg]; omega)
      rw [if_neg fun h => joinColon_ne_nil hne h.2,
        parseIPv6Loop_joinColon _ 8 [] (some 0) hne (by simp [hg]) hdrop]
      have hlen : (fieldsBytes (g.drop ze)).length = 2 * (8 - ze) := by simp [hg]
      simp only [List.nil_append, hlen, ne_eq, not_true_eq_false, if_false,
        show 2 * (8 - ze) < 16 by omega, if_true, List.take_zero, List.drop_zero, fieldsBytes_nil,
        show 16 - 2 * (8 - ze) = 2 * (ze - 0) by omega]
  | succ zs =>
    -- `::` after the first `zs + 1` fields
    have hne : g.take (zs + 1) ≠ [] := List.ne_nil_of_length_pos (by simp; omega)
    obtain ⟨d, t, hd, hs⟩ := joinColon_append_eq_cons hne htake (58 :: 58 :: joinColon (g.drop ze))
    rw [hs, leadingEllipsis_digit hd, ← hs]
    dsimp only
    rw [if_neg (by simp), parseIPv6Loop_joinColon_ellipsis _ _ 8 [] hne (by simp [hg]; omega) htake hdrop]
    have hl := length_fieldsBytes (g.take (zs + 1))
    have hlen : (fieldsBytes (g.take (zs + 1)) ++ fieldsBytes (g.drop ze)).length = 2 * (zs + 1) + 2 * (8 - ze) := by
      simp [hg]; omega
    simp only [List.nil_append, ne_eq, not_true_eq_false, if_false, hlen, show 2 * (zs + 1) + 2 * (8 - ze) < 16 by omega,
      if_true, List.length_nil, Nat.zero_add]
    rw [← hl, spread_append, show 16 - (2 * (zs + 1) + 2 * (8 - ze)) = 2 * (ze - (zs + 1)) by omega]

end Parse

/-- **`parseIPv6` reads back `string6`**, for all sixteen bytes. -/
theorem parseIPv6_string6 {b : List UInt8} (hb : b.length = 16) : parseIPv6 (string6 b) = some (b, []) := by
  have hg : (fields b).length = 8 := by rw [length_fields, hb]
  have hbytes := fieldsBytes_fields b (by omega)
  unfold string6
  rcases zeroRun_isZeroRun hg with hzs | ⟨hz, hze, hrun⟩
  · rw [string6Loop_noRun hg hzs, parseIPv6_noRun hg (fields_lt b), hbytes]
  · rw [string6Loop_run hg (by omega) (by omega) hze, parseIPv6_run hg (fields_lt b) hz hze hrun, hbytes]

/-- What `string6` writes is hex digits and colons, with a colon. -/
theorem string6_chars {b : List UInt8} (hb : b.length = 16) :
    (∀ c ∈ string6 b, c = 58 ∨ ∃ d, d < 16 ∧ c = digit d) ∧ 58 ∈ string6 b := by
  have hg : (fields b).length = 8 := by rw [length_fields, hb]
  have hlt := fields_lt b
  unfold string6
  rcases zeroRun_isZeroRun hg with hzs | ⟨hz, hze, -⟩
  · rw [string6Loop_noRun hg hzs]
    refine ⟨fun c => mem_joinColon hlt, ?_⟩
    match fields b, hg with
    | x :: y :: ys, _ => simp [joinColon_cons_cons]
  · rw [string6Loop_run hg (by omega) (by omega) hze]
    exact ⟨mem_joinColon_ellipsis (fun x hx => hlt x (List.mem_of_mem_take hx))
      (fun x hx => hlt x (List.mem_of_mem_drop hx)), by simp⟩

/-! ## 7. `ParseIP` over `IP.String` -/

/-- The first byte `p` accepts is `a`, when `a` is the only one it accepts. -/
theorem find?_eq_of_unique {s : GoString} {p : UInt8 → Bool} {a : UInt8}
    (hp : ∀ c ∈ s, p c = true → c = a) (ha : a ∈ s) (hpa : p a = true) : s.find? p = some a := by
  cases h : s.find? p with
  | none => exact absurd hpa (List.find?_eq_none.mp h a ha)
  | some b => rw [hp b (List.mem_of_find?_eq_some h) (List.find?_some h)]

/-- A string of hex digits and colons, with a colon, goes to `parseIPv6`. -/
theorem ParseAddr_of_colon {s : GoString} (hs : ∀ c ∈ s, c = 58 ∨ ∃ d, d < 16 ∧ c = digit d) (h58 : 58 ∈ s) :
    ParseAddr s = (parseIPv6 s).map fun a => .v6 a.1 a.2 := by
  rw [ParseAddr, find?_eq_of_unique (a := 58) (fun c hc hp => ?_) h58 (by decide)]
  · rfl
  · rcases hs c hc with h | ⟨d, hd, rfl⟩
    · exact h
    · simp [digit_not_sep d hd] at hp

/-- A string of decimal digits and dots, with a dot, goes to `parseIPv4`. -/
theorem ParseAddr_of_dot {s : GoString} (hs : ∀ c ∈ s, c = 46 ∨ ∃ d, d < 10 ∧ c = digit d) (h46 : 46 ∈ s) :
    ParseAddr s = (parseIPv4 s).map .v4 := by
  rw [ParseAddr, find?_eq_of_unique (a := 46) (fun c hc hp => ?_) h46 (by decide)]
  · rfl
  · rcases hs c hc with h | ⟨d, hd, rfl⟩
    · exact h
    · simp [digit_not_sep d (by omega)] at hp

theorem string4_chars {b : List UInt8} (hb : b.length = 4) :
    (∀ c ∈ string4 b, c = 46 ∨ ∃ d, d < 10 ∧ c = digit d) ∧ 46 ∈ string4 b := by
  match b, hb with
  | [a0, a1, a2, a3], _ =>
    rw [string4_cons]
    refine ⟨fun c hc => ?_, by simp⟩
    simp only [List.mem_append, List.mem_cons] at hc
    rcases hc with hc | rfl | hc | rfl | hc | rfl | hc <;>
      first | exact Or.inl rfl | exact Or.inr (mem_appendDecimal (UInt8.toNat_lt_size _) hc)

theorem ParseIP_string4 {b : List UInt8} (hb : b.length = 4) : ParseIP (string4 b) = some (v4InV6Prefix ++ b) := by
  rw [ParseIP, ParseAddr_of_dot (string4_chars hb).1 (string4_chars hb).2, parseIPv4_string4 hb]
  rfl

theorem ParseIP_string6 {b : List UInt8} (hb : b.length = 16) : ParseIP (string6 b) = some b := by
  rw [ParseIP, ParseAddr_of_colon (string6_chars hb).1 (string6_chars hb).2, parseIPv6_string6 hb]
  rfl

/-- Every byte of `hexString` is a hex digit. -/
theorem mem_hexString {b : List UInt8} {c : UInt8} (hc : c ∈ hexString b) : ∃ d, d < 16 ∧ c = digit d := by
  simp only [hexString, List.mem_flatMap, List.mem_cons, List.mem_singleton, List.not_mem_nil, or_false] at hc
  obtain ⟨x, -, rfl | rfl⟩ := hc
  all_goals
    have hx := x.toNat_lt_size
    simp only [UInt8.size] at hx
    exact ⟨_, by omega, rfl⟩

/-- `?` and hex has no `.`, `:` or `%`. -/
theorem ParseIP_hexString (b : List UInt8) : ParseIP (63 :: hexString b) = none := by
  have hnone : (63 :: hexString b).find? (fun c => c == 46 || c == 58 || c == 37) = none := by
    refine List.find?_eq_none.mpr fun c hc => ?_
    rcases List.mem_cons.mp hc with rfl | hc
    · decide
    · obtain ⟨d, hd, rfl⟩ := mem_hexString hc
      simp [digit_not_sep d hd]
  rw [ParseIP, ParseAddr, hnone]

section Forms

variable {ip ip4 : IP}

theorem To4_length (h : ip.To4 = some ip4) : ip4.length = 4 := by
  unfold IP.To4 at h
  split_ifs at h with h4 h16
  · cases h; exact h4
  · cases h; simp [h16.1]

theorem To4_of_length (h : ip.length = 4) : ip.To4 = some ip := by
  rw [IP.To4, if_pos h]

theorem length_of_To4_none (h : ip.To4 = none) (hl : ip.length = 4 ∨ ip.length = 16) : ip.length = 16 :=
  hl.resolve_left fun h4 => by rw [To4_of_length h4] at h; cases h

/-- An address `To4` accepts prints as a dotted quad. -/
theorem String_of_To4 (h : ip.To4 = some ip4) : ip.String = string4 ip4 := by
  have hl : ip.length = 4 ∨ ip.length = 16 := by
    unfold IP.To4 at h
    split_ifs at h with h4 h16
    · exact Or.inl h4
    · exact Or.inr h16.1
  rw [IP.String, if_neg (by omega), if_neg (by omega), h]

/-- Any other sixteen bytes print in IPv6 form. -/
theorem String_of_To4_none (h : ip.To4 = none) (h16 : ip.length = 16) : ip.String = string6 ip := by
  rw [IP.String, if_neg (by omega), if_neg (by omega), h]

/-- A slice of another length prints as text `ParseIP` rejects. -/
theorem ParseIP_String_none (h : ip.To4 = none) (h16 : ip.length ≠ 16) : ParseIP ip.String = none := by
  have h4 : ip.length ≠ 4 := fun h4 => by rw [To4_of_length h4] at h; cases h
  unfold IP.String
  by_cases h0 : ip.length = 0
  · rw [if_pos h0]
    rfl
  · rw [if_neg h0, if_pos ⟨h4, h16⟩, ParseIP_hexString]

theorem To16_of_To4 (h : ip.To4 = some ip4) : ip.To16 = some (v4InV6Prefix ++ ip4) := by
  unfold IP.To4 at h
  split_ifs at h with h4 h16
  · cases h; rw [IP.To16, if_pos h4]
  · cases h
    rw [IP.To16, if_neg (by omega), if_pos h16.1, ← h16.2, List.take_append_drop]

theorem To16_of_length16 (h16 : ip.length = 16) : ip.To16 = some ip := by
  rw [IP.To16, if_neg (by omega), if_pos h16]

theorem To16_of_length (h4 : ip.length ≠ 4) (h16 : ip.length ≠ 16) : ip.To16 = none := by
  rw [IP.To16, if_neg h4, if_neg h16]

/-- The four bytes behind the v4-in-v6 prefix are what `To4` reads. -/
theorem To4_v4InV6 (h : ip4.length = 4) : IP.To4 (v4InV6Prefix ++ ip4) = some ip4 := by
  rw [IP.To4, if_neg (by simp [h, v4InV6Prefix]), if_pos ⟨by simp [h, v4InV6Prefix], List.take_left' rfl⟩,
    List.drop_left' (by rfl)]

end Forms

/-! ## 8. What `ParseIP` returns -/

/-- **The loop invariant of the field loop**: with room for the fields it may
still read, it never writes past sixteen bytes, and its ellipsis stays within what
it wrote. -/
theorem parseIPv6Loop_length : ∀ (k : Nat) (ip : List UInt8) (e : Option Nat) (s : GoString)
    {ip' : List UInt8} {e' : Option Nat} {rest : GoString},
    parseIPv6Loop k ip e s = some (ip', e', rest) → ip.length + 2 * k ≤ 16 → (∀ j, e = some j → j ≤ ip.length) →
    ip'.length ≤ 16 ∧ ∀ j, e' = some j → j ≤ ip'.length
  | 0, ip, e, s, _, _, _, h, hk, he => by
    cases h
    exact ⟨by omega, he⟩
  | k + 1, ip, e, s, ip', e', rest, h, hk, he => by
    have hfb : ∀ x, (ip ++ fieldBytes x).length = ip.length + 2 := fun x => by simp [fieldBytes]
    unfold parseIPv6Loop at h
    split at h
    · cases h
    split at h
    · cases h
    split at h
    · -- the last field
      cases h
      exact ⟨by rw [hfb]; omega, fun j hj => by rw [hfb]; have := he j hj; omega⟩
    split at h
    · -- an embedded IPv4 address
      split at h
      · cases h
      split at h
      · cases h
      next hroom =>
      obtain ⟨ip4, hip4, hh⟩ := Option.map_eq_some'.mp h
      cases hh
      simp only [List.length_append, (string4_of_parseIPv4 hip4).1]
      exact ⟨by omega, fun j hj => by have := he j hj; omega⟩
    split at h
    · cases h
    split at h
    · cases h
    split at h
    · -- `::`
      split at h
      · cases h
      split at h
      · cases h
        exact ⟨by rw [hfb]; omega, fun j hj => by cases hj; rw [hfb]⟩
      · exact parseIPv6Loop_length k _ _ _ h (by rw [hfb]; omega) fun j hj => by cases hj; rw [hfb]
    · exact parseIPv6Loop_length k _ _ _ h (by rw [hfb]; omega) fun j hj => by rw [hfb]; have := he j hj; omega

/-- `parseIPv6` returns sixteen bytes. -/
theorem parseIPv6_length {s : GoString} {ip zone : GoString} (h : parseIPv6 s = some (ip, zone)) : ip.length = 16 := by
  unfold parseIPv6 at h
  split at h
  · cases h
  dsimp only at h
  split_ifs at h with hstart
  · cases h
    simp
  split at h
  · cases h
  next ip' e rest hloop =>
  have hinv := parseIPv6Loop_length 8 [] _ _ hloop (by decide) fun j hj => by
    simp only [leadingEllipsis] at hj
    split at hj <;> (try split_ifs at hj) <;> simp_all
  split at h
  · cases h
  split at h
  · -- spread around the ellipsis
    split at h
    · cases h
    next j =>
    cases h
    have hj := hinv.2 j rfl
    simp only [List.length_append, List.length_take, List.length_replicate, List.length_drop]
    omega
  · split at h
    · cases h
    · cases h
      omega

/-- **`ParseIP` returns sixteen bytes**, whatever it is given. -/
theorem ParseIP_length {s : GoString} {ip : IP} (h : ParseIP s = some ip) : ip.length = 16 := by
  unfold ParseIP at h
  split at h
  · cases h
  next a ha =>
  split_ifs at h
  cases h
  unfold ParseAddr at ha
  split at ha
  · cases ha
  split_ifs at ha
  · obtain ⟨b, hb, rfl⟩ := Option.map_eq_some'.mp ha
    simp [Addr.As16, v4InV6Prefix, (string4_of_parseIPv4 hb).1]
  · obtain ⟨⟨b, zone⟩, hb, rfl⟩ := Option.map_eq_some'.mp ha
    exact parseIPv6_length hb

/-- **`net.ParseIP(ip.String())` is `ip.To16()`.** Every address reads back as
its sixteen-byte form, and every slice of another length prints as something
`ParseIP` rejects. -/
theorem ParseIP_String (ip : IP) : ParseIP ip.String = ip.To16 := by
  cases h4 : ip.To4 with
  | some ip4 => rw [String_of_To4 h4, ParseIP_string4 (To4_length h4), To16_of_To4 h4]
  | none =>
    by_cases h16 : ip.length = 16
    · rw [String_of_To4_none h4 h16, ParseIP_string6 h16, To16_of_length16 h16]
    · rw [ParseIP_String_none h4 h16, To16_of_length (fun h => by rw [To4_of_length h] at h4; cases h4) h16]

end net

end VulcanPkgTool
