import VulcanPkgTool.Net.Addr

/-!
The IPv4 half of `netip.ParseAddr`. `parseIPv4` reads back every `string4`
(`parseIPv4_string4`), and whatever it accepts is the `string4` of the bytes it
returns (`string4_of_parseIPv4`). So leading zeros, fields above 255, missing or
extra fields, empty fields and any other byte all fail, and the strings it
accepts are exactly the canonical dotted quads (`parseIPv4_eq_some_iff`).
-/

set_option autoImplicit false

namespace VulcanPkgTool

namespace net

/-- The dotted quad of four bytes, spelt out. -/
theorem string4_cons (a b c d : UInt8) :
    string4 [a, b, c, d] = appendDecimal a.toNat ++ 46 :: (appendDecimal b.toNat ++ 46 ::
      (appendDecimal c.toNat ++ 46 :: appendDecimal d.toNat)) := by
  simp [string4, List.intercalate, List.intersperse]

theorem appendDecimal_ne_nil (x : Nat) : appendDecimal x ≠ [] := by
  simp [appendDecimal]

/-! ## 1. One byte of the loop -/

section Loop

variable (cs : GoString) (fields : List UInt8)

/-- A digit that neither follows a lone `0` nor takes the field past 255 is
appended to the field. -/
theorem parseIPv4Loop_digit (d val digLen : Nat) (fs : Bool) (hd : d < 10)
    (hz : ¬(digLen = 1 ∧ val = 0)) (hv : val * 10 + d ≤ 255) :
    parseIPv4Loop (digit d :: cs) fields val digLen fs =
      parseIPv4Loop cs fields (val * 10 + d) (digLen + 1) false := by
  have h : (digit d).toNat - 48 = d := by rw [toNat_digit d (by omega), if_pos hd]; omega
  simp only [parseIPv4Loop, isDigit_digit hd, h, if_true, if_neg hz, if_neg (show ¬255 < val * 10 + d by omega)]

/-- A dot after a digit, with more to come and fewer than three fields done,
closes the field. -/
theorem parseIPv4Loop_dot (hcs : cs ≠ []) (hf : fields.length < 3) (val digLen : Nat) :
    parseIPv4Loop (46 :: cs) fields val digLen false =
      parseIPv4Loop cs (fields ++ [UInt8.ofNat val]) 0 0 true := by
  simp only [parseIPv4Loop, show isDigit 46 = false by decide, hcs, if_false, if_true,
    Bool.false_eq_true, false_or, if_neg (show fields.length ≠ 3 by omega)]

/-- A field in decimal reads as its value, whatever follows. -/
theorem parseIPv4Loop_appendDecimal {x : Nat} (hx : x < 256) :
    ∃ n, parseIPv4Loop (appendDecimal x ++ cs) fields 0 0 true = parseIPv4Loop cs fields x n false := by
  by_cases h100 : 100 ≤ x
  · refine ⟨3, ?_⟩
    simp only [appendDecimal, if_pos h100, if_pos (show 10 ≤ x by omega), List.cons_append,
      List.singleton_append, List.nil_append]
    rw [parseIPv4Loop_digit _ _ (x / 100) 0 0 _ (by omega) (by omega) (by omega),
      parseIPv4Loop_digit _ _ (x / 10 % 10) _ _ _ (by omega) (by omega) (by omega),
      parseIPv4Loop_digit _ _ (x % 10) _ _ _ (by omega) (by omega) (by omega)]
    congr 1
    omega
  · by_cases h10 : 10 ≤ x
    · refine ⟨2, ?_⟩
      simp only [appendDecimal, if_neg h100, if_pos h10, List.nil_append, List.cons_append,
        List.singleton_append]
      rw [parseIPv4Loop_digit _ _ (x / 10 % 10) 0 0 _ (by omega) (by omega) (by omega),
        parseIPv4Loop_digit _ _ (x % 10) _ _ _ (by omega) (by omega) (by omega)]
      congr 1
      omega
    · refine ⟨1, ?_⟩
      simp only [appendDecimal, if_neg h100, if_neg h10, List.nil_append, List.singleton_append]
      rw [parseIPv4Loop_digit _ _ (x % 10) 0 0 _ (by omega) (by omega) (by omega)]
      congr 1
      omega

end Loop

/-! ## 2. The round trip -/

/-- **`parseIPv4` reads back `string4`.** -/
theorem parseIPv4_string4 {b : List UInt8} (hb : b.length = 4) : parseIPv4 (string4 b) = some b := by
  match b, hb with
  | [a0, a1, a2, a3], _ =>
    have hne : ∀ (x : UInt8) (r : GoString), appendDecimal x.toNat ++ r ≠ [] := fun x r h =>
      appendDecimal_ne_nil x.toNat (List.append_eq_nil.mp h).1
    obtain ⟨n0, h0⟩ := parseIPv4Loop_appendDecimal (46 :: (appendDecimal a1.toNat ++ 46 ::
      (appendDecimal a2.toNat ++ 46 :: appendDecimal a3.toNat))) [] a0.toNat_lt_size
    obtain ⟨n1, h1⟩ := parseIPv4Loop_appendDecimal (46 :: (appendDecimal a2.toNat ++ 46 ::
      appendDecimal a3.toNat)) [a0] a1.toNat_lt_size
    obtain ⟨n2, h2⟩ := parseIPv4Loop_appendDecimal (46 :: appendDecimal a3.toNat) [a0, a1]
      a2.toNat_lt_size
    obtain ⟨n3, h3⟩ := parseIPv4Loop_appendDecimal [] [a0, a1, a2] a3.toNat_lt_size
    rw [List.append_nil] at h3
    rw [string4_cons, parseIPv4, h0, parseIPv4Loop_dot _ _ (hne _ _) (by simp), ofNat_toNat_uint8,
      List.nil_append, h1, parseIPv4Loop_dot _ _ (hne _ _) (by simp), ofNat_toNat_uint8,
      List.singleton_append, h2, parseIPv4Loop_dot _ _ (appendDecimal_ne_nil _) (by simp),
      ofNat_toNat_uint8, List.cons_append, List.singleton_append, h3]
    simp [parseIPv4Loop, ofNat_toNat_uint8]

/-! ## 3. What the parser accepts -/

/-- Each field closed so far in decimal with its dot. -/
def closedFields (fields : List UInt8) : GoString :=
  (fields.map fun x => appendDecimal x.toNat ++ [46]).flatten

theorem appendDecimal_of_lt {d : Nat} (hd : d < 10) : appendDecimal d = [digit d] := by
  simp only [appendDecimal, if_neg (show ¬100 ≤ d by omega), if_neg (show ¬10 ≤ d by omega),
    Nat.mod_eq_of_lt hd, List.nil_append]

/-- A canonical field grows by a digit: `x` in decimal, then `d`. -/
theorem appendDecimal_snoc {x d : Nat} (hx : 1 ≤ x) (hd : d < 10) (h : x * 10 + d ≤ 255) :
    appendDecimal (x * 10 + d) = appendDecimal x ++ [digit d] := by
  by_cases h10 : 10 ≤ x
  · simp only [appendDecimal, if_pos (show 100 ≤ x * 10 + d by omega), if_pos (show 10 ≤ x * 10 + d by omega),
      if_pos h10, if_neg (show ¬100 ≤ x by omega), List.nil_append, List.singleton_append,
      List.cons_append]
    refine congrArg₂ _ (congrArg _ (by omega)) (congrArg₂ _ (congrArg _ (by omega)) ?_)
    exact congrArg₂ _ (congrArg _ (by omega)) rfl
  · simp only [appendDecimal, if_neg (show ¬100 ≤ x * 10 + d by omega), if_pos (show 10 ≤ x * 10 + d by omega),
      if_neg h10, if_neg (show ¬100 ≤ x by omega), List.nil_append, List.singleton_append]
    exact congrArg₂ _ (congrArg _ (by omega)) (congrArg₂ _ (congrArg _ (by omega)) rfl)

/-- The digit a byte `c` stands for, when `isDigit c`. -/
theorem eq_digit {c : UInt8} (hc : isDigit c = true) : c = digit (c.toNat - 48) := by
  simp only [isDigit, decide_eq_true_eq] at hc
  refine UInt8.toNat.inj ?_
  rw [toNat_digit _ (by omega), if_pos (by omega)]
  omega

/-- **The loop invariant.** In a run that succeeds, what was read is the closed
fields and `cur`, the digits of the current field: empty exactly at the start of a
field, and otherwise the value in decimal. What is read and what is left is then
the `string4` of the result. -/
theorem string4_of_parseIPv4Loop {a : List UInt8} :
    ∀ (s : GoString) (fields : List UInt8) (val : Nat) (fs : Bool) (cur : GoString),
      parseIPv4Loop s fields val cur.length fs = some a → fields.length ≤ 3 →
      (fs = true ↔ cur = []) → (cur = [] → val = 0) → (cur ≠ [] → cur = appendDecimal val ∧ val ≤ 255) →
      (fs = true → s = [] → fields.length < 3) →
      a.length = 4 ∧ closedFields fields ++ cur ++ s = string4 a
  | [], fields, val, fs, cur, h, hf, hfs, h0, hcur, hend => by
    simp only [parseIPv4Loop] at h
    split at h
    · cases h
    · next h3 =>
      cases h
      have hne : cur ≠ [] := fun hc => h3 (hend (hfs.mpr hc) rfl)
      obtain ⟨rfl, hv⟩ := hcur hne
      obtain ⟨f0, f1, f2, rfl⟩ := List.length_eq_three.mp (show fields.length = 3 by omega)
      refine ⟨rfl, ?_⟩
      rw [List.cons_append, List.cons_append, List.cons_append, List.nil_append, string4_cons,
        toNat_ofNat_uint8, Nat.mod_eq_of_lt (by omega)]
      simp [closedFields]
  | c :: cs, fields, val, fs, cur, h, hf, hfs, h0, hcur, _ => by
    simp only [parseIPv4Loop] at h
    split at h
    · next hc =>
      split at h
      · cases h
      split at h
      · cases h
      next hz hv =>
      have hc' := eq_digit hc
      have hd : c.toNat - 48 < 10 := by simp only [isDigit, decide_eq_true_eq] at hc; omega
      -- the digit joins the current field
      have hcur' : cur ++ [c] = appendDecimal (val * 10 + (c.toNat - 48)) := by
        by_cases hcn : cur = []
        · rw [hcn, h0 hcn, Nat.zero_mul, Nat.zero_add, appendDecimal_of_lt hd, List.nil_append, ← hc']
        · obtain ⟨rfl, -⟩ := hcur hcn
          have hv1 : 1 ≤ val := by
            by_contra hv0
            exact hz ⟨by rw [show val = 0 by omega]; rfl, by omega⟩
          rw [appendDecimal_snoc hv1 hd (by omega), ← hc']
      have ih := string4_of_parseIPv4Loop cs fields _ false (cur ++ [c])
        (by rwa [List.length_append, List.length_singleton]) hf
        (by simp) (fun h => absurd h (by simp)) (fun _ => ⟨hcur', by omega⟩)
        (fun h => absurd h (by decide))
      simpa using ih
    · next hc =>
      split at h
      · next hdot =>
        subst hdot
        split at h
        · cases h
        split at h
        · cases h
        next hstart hlen =>
        simp only [not_or] at hstart
        have hcn : cur ≠ [] := fun hc => hstart.1 (hfs.mpr hc)
        obtain ⟨rfl, hv⟩ := hcur hcn
        have hlen0 : (0 : Nat) = ([] : GoString).length := rfl
        rw [hlen0] at h
        have ih := string4_of_parseIPv4Loop cs (fields ++ [UInt8.ofNat val]) 0 true []
          h (by simp; omega) (by simp) (fun _ => rfl) (fun h => absurd rfl h)
          (fun _ hcs => absurd hcs hstart.2)
        refine ⟨ih.1, ?_⟩
        rw [← ih.2]
        simp [closedFields, toNat_ofNat_uint8, Nat.mod_eq_of_lt (show val < 256 by omega)]
      · cases h

/-- **What `parseIPv4` accepts is canonical**: four bytes whose `string4` is the input. -/
theorem string4_of_parseIPv4 {s : GoString} {a : List UInt8} (h : parseIPv4 s = some a) :
    a.length = 4 ∧ s = string4 a := by
  have := string4_of_parseIPv4Loop s [] 0 true [] h (by decide) (by simp) (fun _ => rfl)
    (fun h => absurd rfl h) (fun _ _ => by decide)
  simpa [closedFields] using this

/-- **`parseIPv4` accepts exactly the canonical dotted quads**, and reads each as
its bytes. -/
theorem parseIPv4_eq_some_iff {s : GoString} {a : List UInt8} :
    parseIPv4 s = some a ↔ a.length = 4 ∧ s = string4 a :=
  ⟨string4_of_parseIPv4, fun ⟨ha, hs⟩ => hs ▸ parseIPv4_string4 ha⟩

end net

end VulcanPkgTool
