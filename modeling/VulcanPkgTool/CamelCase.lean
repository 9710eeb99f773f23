import VulcanPkgTool.Go

/-!
`camelcase/camel.go`: identifiers between `snake_case` and `UpperCamel`, with
the common initialisms (`ID`, `HTTP`, …) kept in capitals.

A string is its runes: the identifiers converted are valid UTF-8, which is exactly a list
of `Char`. Every pattern the code splits on or replaces is ASCII, and an ASCII
byte of valid UTF-8 is always a whole rune, so `strings.Split` and
`strings.Replacer` act on the runes as they act on the bytes.

Package `unicode` answers ASCII (for the case mappings) and Latin-1 (for
`IsUpper` and `IsDigit`) in code, and everything above from its tables. The code
is modelled here; the tables are a parameter, `Tables`, so every result holds
whatever they say.

`strings.NewReplacer` builds, for these patterns, the generic replacer: scanning
left to right, at each position it replaces the first pattern, in argument
order, that starts there, and otherwise copies one rune (`Replace`).

`ToUnderScore` puts an underscore only before a capital or digit that follows a
rune that is neither, so it keeps two capitals together. `ToUpperCamel("a_b")`
is `"AB"`, whose underscore form is `"ab"`, which converts back to `"Ab"`
(`ToUpperCamel_ToUnderScore_a_b`).
-/

set_option autoImplicit false

namespace VulcanPkgTool

namespace camelcase

/-! ## 1. `unicode` and `strings` -/

/-- The answers of `unicode`'s tables: the case mappings above ASCII, and
`IsUpper` and `IsDigit` above Latin-1. -/
structure Tables where
  toUpper : Char → Char
  toLower : Char → Char
  isUpper : Char → Bool
  isDigit : Char → Bool

variable (t : Tables)

/-- `unicode.ToUpper(r)`. -/
def ToUpper (r : Char) : Char :=
  if r.toNat ≤ 127 then (if 'a' ≤ r ∧ r ≤ 'z' then Char.ofNat (r.toNat - 32) else r) else t.toUpper r

/-- `unicode.ToLower(r)`. -/
def ToLower (r : Char) : Char :=
  if r.toNat ≤ 127 then (if 'A' ≤ r ∧ r ≤ 'Z' then Char.ofNat (r.toNat + 32) else r) else t.toLower r

/-- `unicode.IsUpper(r)`: in Latin-1, the letters of category `Lu`,
`'A'..'Z'`, `U+00C0..U+00D6` and `U+00D8..U+00DE`. -/
def IsUpper (r : Char) : Bool :=
  if r.toNat ≤ 255 then
    decide (('A' ≤ r ∧ r ≤ 'Z') ∨ (0xC0 ≤ r.toNat ∧ r.toNat ≤ 0xD6) ∨ (0xD8 ≤ r.toNat ∧ r.toNat ≤ 0xDE))
  else t.isUpper r

/-- `unicode.IsDigit(r)`. -/
def IsDigit (r : Char) : Bool :=
  if r.toNat ≤ 255 then decide ('0' ≤ r ∧ r ≤ '9') else t.isDigit r

/-- `strings.ToLower(s)`: its ASCII path lowers `'A'..'Z'`, its other path maps
`unicode.ToLower`, which does the same on ASCII. -/
def stringsToLower (s : List Char) : List Char := s.map (ToLower t)

/-- `r := []rune(s); r[0] = unicode.ToUpper(r[0]); string(r)`, on a non-empty `s`. -/
def capitalize : List Char → List Char
  | [] => []
  | r :: rs => ToUpper t r :: rs

/-- The generic `strings.Replacer` of `pairs` (old, new): at each position the
first pair whose `old` starts there is replaced, else one rune is copied. An
empty `old`, which no table here has, is passed over. `fuel`, one per rune,
bounds the scan (`replaceAux_fuel`). -/
def replaceAux (pairs : List (List Char × List Char)) : Nat → List Char → List Char
  | 0, s => s
  | _, [] => []
  | fuel + 1, c :: cs =>
    match pairs.find? (fun p => !p.1.isEmpty && p.1.isPrefixOf (c :: cs)) with
    | some (old, new) => new ++ replaceAux pairs fuel ((c :: cs).drop old.length)
    | none => c :: replaceAux pairs fuel cs

/-- `r.Replace(s)`. -/
def Replace (pairs : List (List Char × List Char)) (s : List Char) : List Char :=
  replaceAux pairs s.length s

theorem replaceAux_nil (pairs : List (List Char × List Char)) (f : Nat) : replaceAux pairs f [] = [] := by
  cases f <;> rfl

/-- Every step of the scan consumes at least one rune, so any fuel from the
length of the string on gives the same result: the scan ends at the end of the
string, never for want of fuel. -/
theorem replaceAux_fuel (pairs : List (List Char × List Char)) :
    ∀ (f g : Nat) (s : List Char), s.length ≤ f → s.length ≤ g → replaceAux pairs f s = replaceAux pairs g s
  | 0, g, s, hf, _ => by
    rw [List.eq_nil_of_length_eq_zero (Nat.le_zero.mp hf), replaceAux_nil, replaceAux_nil]
  | f, g, [], _, _ => by rw [replaceAux_nil, replaceAux_nil]
  | f + 1, 0, c :: cs, _, hg => absurd hg (by simp)
  | f + 1, g + 1, c :: cs, hf, hg => by
    simp only [replaceAux]
    split
    · next old new hfind =>
      have hold : old ≠ [] := by
        have := List.find?_some hfind
        simp only [Bool.and_eq_true, Bool.not_eq_true', List.isEmpty_eq_false] at this
        exact this.1
      have hlen : ((c :: cs).drop old.length).length ≤ cs.length := by
        have := List.length_pos.mpr hold
        simp
        omega
      rw [replaceAux_fuel pairs f g _ (hlen.trans (by simpa using hf)) (hlen.trans (by simpa using hg))]
    · rw [replaceAux_fuel pairs f g cs (by simpa using hf) (by simpa using hg)]

/-! ## 2. The package -/

/-- `commonInitialisms`. -/
def commonInitialisms : List String :=
  ["ASCII", "MySQL",
   "XSRF", "XSS", "YAML", "UUID", "SMTP", "HTML", "HTTP", "JSON", "UTF8",
   "QPS", "CPU", "UID", "URI", "URL", "XML", "ACL", "API", "CSS", "DNS", "EOF",
   "LHS", "RAM", "RHS", "RPC", "SLA", "SSH", "TCP", "TLS", "TTL", "UDP",
   "UI", "ID", "VM", "IP"]

/-- The camel form `buildReplacers` makes of an initialism: lowered, first rune raised. -/
def camelOf (abbr : String) : List Char := capitalize t (stringsToLower t abbr.toList)

/-- `camelCommonPairs`: each camel form to its initialism. -/
def camelCommonPairs : List (List Char × List Char) :=
  commonInitialisms.map fun abbr => (camelOf t abbr, abbr.toList)

/-- `abbrCommonPairs`: each initialism to its camel form. -/
def abbrCommonPairs : List (List Char × List Char) :=
  commonInitialisms.map fun abbr => (abbr.toList, camelOf t abbr)

/-- `toUpperCamel(s)`: the parts between `_` and `-`, empty ones skipped, each
lowered and its first rune raised. -/
def toUpperCamel (s : List Char) : List Char :=
  if s = [] then []
  else (s.splitOn '_').flatMap fun part =>
    (part.splitOn '-').flatMap fun p => if p = [] then [] else capitalize t (stringsToLower t p)

/-- `ToUpperCamel(s)`. -/
def ToUpperCamel (s : List Char) : List Char :=
  if s = [] then [] else Replace (camelCommonPairs t) (toUpperCamel t s)

/-- `ToLowerCamel(s)`: `r[0]` of the runes of `toUpperCamel(s)` lowered, which
panics when that is empty, as it is for a string of separators only. -/
def ToLowerCamel (s : List Char) : Go (List Char) :=
  if s = [] then pure []
  else match toUpperCamel t s with
    | [] => throw indexOutOfRange
    | r0 :: rs => pure (Replace (camelCommonPairs t) (ToLower t r0 :: rs))

/-- The loop of `ToUnderScore` over the runes, given the rune before: a capital
or digit is lowered, with `_` before it when the rune before is neither. -/
def underscoreLoop : Option Char → List Char → List Char
  | _, [] => []
  | prev, r :: rs =>
    (if IsUpper t r || IsDigit t r then
      (match prev with
        | some p => if !IsUpper t p && !IsDigit t p then ['_'] else []
        | none => []) ++ [ToLower t r]
    else [r]) ++ underscoreLoop (some r) rs

/-- `ToUnderScore(s)`. -/
def ToUnderScore (s : List Char) : List Char :=
  if s = [] then [] else underscoreLoop t none (Replace (abbrCommonPairs t) s)

/-! ## 3. The round trip -/

/-- **The underscore form of `ToUpperCamel("a_b")` does not convert back.**
Whatever `unicode`'s tables say above Latin-1: `ToUpperCamel("a_b")` is `"AB"`,
`ToUnderScore("AB")` is `"ab"`, and `ToUpperCamel("ab")` is `"Ab"`. -/
theorem ToUpperCamel_ToUnderScore_a_b :
    ToUpperCamel t (ToUnderScore t (ToUpperCamel t "a_b".toList)) ≠ ToUpperCamel t "a_b".toList := by
  have h₁ : ToUpperCamel t "a_b".toList = "AB".toList := by rfl
  have h₂ : ToUnderScore t "AB".toList = "ab".toList := by rfl
  have h₃ : ToUpperCamel t "ab".toList = "Ab".toList := by rfl
  rw [h₁, h₂, h₃]
  decide

end camelcase

end VulcanPkgTool
