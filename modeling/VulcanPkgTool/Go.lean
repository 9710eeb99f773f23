import Mathlib.Algebra.Group.Int
import Mathlib.Algebra.Order.BigOperators.Group.List
import Mathlib.Data.Finite.Prod
import Mathlib.Data.Fintype.Card
import Mathlib.Data.List.AList
import Mathlib.Data.List.Basic
import Mathlib.Data.List.Defs
import Mathlib.Data.List.Range
import Mathlib.Data.Nat.Digits
import Mathlib.Data.Set.Finite.Basic
import Mathlib.Data.Vector.Basic
import Mathlib.Logic.Equiv.Defs
import Mathlib.Logic.Function.Basic
import Mathlib.Tactic.LinearCombination

/-!
The Go runtime as the models below see it: a call either returns or faults,
and a fault is a panic with the runtime's message or a wait that never ends.

Every model in this development is sequential or an explicit interleaving, so
a goroutine the source starts and then waits for is folded into the caller;
what survives of `sync.WaitGroup` is `waitGroupWait`, which says whether the
`Add`/`Done` counts a fan-out produces let `Wait` return, block, or drive the
counter negative. A panic is a value here, so a run that recovers from one
keeps the state it had before the call that panicked.

Go's integer types are modelled by their values: `int` and `int64` as `Int`,
the unsigned types as `UIntN`, and each conversion between them as the explicit
reduction Go performs (`uint64(x)` for a negative `x` is `x + 2^64`).

Loops over a slice are `List.foldlM` in `Go`, and the lemmas about them say
once what every model needs: a loop keeps an invariant its body keeps
(`foldlM_range_invariant`, `foldlM_enum_invariant`), and a loop that rewrites
slot after slot from the old value leaves the mapped slice
(`foldlM_range_set`, `foldlM_enum_set`). `Fnv` is the 32-bit FNV-1 and FNV-1a
of `hash/fnv`, which the Bloom filters and the concurrent maps hash with.
-/

set_option autoImplicit false

namespace VulcanPkgTool

/-- How a Go call fails to return normally. -/
inductive Fault where
  /-- A runtime panic, with the message Go prints. -/
  | panic (msg : String)
  /-- A wait that never ends: a `Lock` of a mutex nobody will unlock, or a
  `WaitGroup.Wait` whose counter never reaches zero. -/
  | hang
  deriving DecidableEq, Repr

/-- The outcome of a Go call. -/
abbrev Go (α : Type) := Except Fault α

/-- Outcomes are compared in the statements below, so they can be decided. -/
instance instDecidableEqExcept {ε α : Type _} [DecidableEq ε] [DecidableEq α] :
    DecidableEq (Except ε α)
  | .error a, .error b => if h : a = b then isTrue (by rw [h]) else isFalse fun e => h (Except.error.inj e)
  | .ok a, .ok b => if h : a = b then isTrue (by rw [h]) else isFalse fun e => h (Except.ok.inj e)
  | .error _, .ok _ => isFalse fun e => Except.noConfusion e
  | .ok _, .error _ => isFalse fun e => Except.noConfusion e

/-- A Go `string` or `[]byte`: bytes, not necessarily valid UTF-8. -/
abbrev GoString := List UInt8

/-- The panic of an out-of-range slice index. -/
def indexOutOfRange : Fault := .panic "index out of range"

/-- Go's `s[i]`, which panics when `i` is not below `len(s)`. -/
def sliceGet {α : Type} (s : List α) (i : Nat) : Go α :=
  match s[i]? with
  | some a => pure a
  | none => throw indexOutOfRange

theorem sliceGet_of_lt {α : Type} {s : List α} {i : Nat} (h : i < s.length) :
    sliceGet s i = pure s[i] := by
  simp [sliceGet, h]

theorem sliceGet_of_le {α : Type} {s : List α} {i : Nat} (h : s.length ≤ i) :
    sliceGet s i = throw indexOutOfRange := by
  simp [sliceGet, List.getElem?_eq_none h]

/-- `sync.WaitGroup` after `Add(added)` and `done` calls of `Done`, one from
each goroutine of a fan-out: `Wait` returns when the two agree, never returns
when fewer goroutines were started than counted, and a `Done` past zero panics. -/
def waitGroupWait (added done : Nat) : Go Unit :=
  if done = added then pure ()
  else if done < added then throw .hang
  else throw (.panic "sync: negative WaitGroup counter")

/-- Go's `uint64(x)` for an `int64` `x`: two's complement. -/
def uint64OfInt (x : Int) : UInt64 := UInt64.ofNat (x % 2 ^ 64).toNat

/-- Go's `uint32(x)` for an `int64` `x`: its low 32 bits. -/
def uint32OfInt (x : Int) : UInt32 := UInt32.ofNat (x % 2 ^ 32).toNat

/-- Go's `byte(x)` for an `int64` `x`: its low 8 bits. -/
def byteOfInt (x : Int) : UInt8 := UInt8.ofNat (x % 256).toNat

/-- Go's `int64(x)` for a `uint64` `x`: the same bits read in two's complement. -/
def int64OfUInt64 (x : UInt64) : Int :=
  if x.toNat < 2 ^ 63 then x.toNat else (x.toNat : Int) - 2 ^ 64

/-- The `int64` that Go's wrapping arithmetic leaves of the exact result `x`. -/
def wrapInt64 (x : Int) : Int := (x + 2 ^ 63) % 2 ^ 64 - 2 ^ 63

/-- Go's `a / b` on signed integers, which rounds toward zero. -/
def intDiv (a b : Int) : Int := a.tdiv b

/-- Go's quotient by a positive divisor: the floor of a nonnegative dividend's, and
minus the floor of a negative one's opposite. -/
theorem intDiv_eq {a b : Int} (hb : 0 < b) : intDiv a b = if 0 ≤ a then a / b else -((-a) / b) := by
  unfold intDiv
  split
  · exact Int.tdiv_eq_ediv ‹_› hb.le
  · rw [← Int.tdiv_eq_ediv (by omega) hb.le, Int.neg_tdiv, neg_neg]

/-- `maxAlloc` of the Go runtime on 64-bit Linux: no allocation may be larger
than `2^48` bytes. -/
def maxAlloc : Nat := 2 ^ 48

/-- The panic of `make([]T, n)` for a length out of range. -/
def makesliceLen : Fault := .panic "makeslice: len out of range"

/-- `make([]T, n)` for a one-byte element type with zero value `zero`:
`runtime.makeslice` panics when `n` is negative or its `n` bytes exceed
`maxAlloc`. -/
def makeslice {α : Type} (zero : α) (n : Int) : Go (List α) :=
  if n < 0 ∨ maxAlloc < n then throw makesliceLen else pure (List.replicate n.toNat zero)

theorem makeslice_of_le {α : Type} (zero : α) {n : Int} (h0 : 0 ≤ n) (h : n ≤ maxAlloc) :
    makeslice zero n = pure (List.replicate n.toNat zero) :=
  if_neg (by omega)

/-- The bytes of an ASCII string. -/
def ascii (s : String) : GoString := s.data.map fun c => c.toNat.toUInt8

/-- `strconv.Itoa(i)` for `i ≥ 0`: its decimal digits. -/
def itoa (i : Nat) : GoString := ascii (toString i)


/-- Go's `s[i] = a`, which panics when `i` is not below `len(s)`. -/
def sliceSet {α : Type} (s : List α) (i : Nat) (a : α) : Go (List α) :=
  if i < s.length then pure (s.set i a) else throw indexOutOfRange

/-- Writing back what a slot holds changes nothing. -/
theorem set_getElem_self {α : Type} (s : List α) (i : Nat) (h : i < s.length) : s.set i s[i] = s :=
  List.ext_getElem? fun j => by
    rw [List.getElem?_set]
    split
    · next hij => subst hij; simp [h]
    · rfl

theorem sliceSet_of_lt {α : Type} {s : List α} {i : Nat} (h : i < s.length) (a : α) :
    sliceSet s i a = .ok (s.set i a) := if_pos h

theorem sliceSet_of_le {α : Type} {s : List α} {i : Nat} (h : s.length ≤ i) (a : α) :
    sliceSet s i a = throw indexOutOfRange := if_neg (Nat.not_lt_of_le h)

/-! ## Loops

A loop that runs a fallible body over a list, as `List.foldlM` in `Go`: what
the body keeps, the loop keeps. -/

/-- **A loop over `range n` keeps an invariant** that its body keeps at each
index. -/
theorem foldlM_range_invariant {α : Type} (f : α → Nat → Go α) (P : Nat → α → Prop) (n : Nat)
    (hstep : ∀ i < n, ∀ a, P i a → ∃ a', f a i = .ok a' ∧ P (i + 1) a') (a : α) (ha : P 0 a) :
    ∃ a', (List.range n).foldlM f a = .ok a' ∧ P n a' := by
  induction n with
  | zero => exact ⟨a, rfl, ha⟩
  | succ n ih =>
    obtain ⟨a₁, h₁, hP₁⟩ := ih (fun i hi => hstep i (Nat.lt_succ_of_lt hi))
    obtain ⟨a₂, h₂, hP₂⟩ := hstep n (Nat.lt_succ_self n) a₁ hP₁
    refine ⟨a₂, ?_, hP₂⟩
    rw [List.range_succ, List.foldlM_append, h₁]
    simpa using h₂

/-- **A loop `for i, x := range l` keeps an invariant** that its body keeps at
each index. -/
theorem foldlM_enum_invariant {α β : Type} : ∀ (f : α → Nat × β → Go α) (P : Nat → α → Prop)
    (l : List β), (∀ i (hi : i < l.length) a, P i a → ∃ a', f a (i, l[i]) = .ok a' ∧ P (i + 1) a') →
    ∀ a, P 0 a → ∃ a', l.enum.foldlM f a = .ok a' ∧ P l.length a'
  | _, _, [], _, a, ha => ⟨a, rfl, ha⟩
  | f, P, x :: l, hstep, a, ha => by
    obtain ⟨a₁, h₁, hP₁⟩ := hstep 0 (Nat.succ_pos _) a ha
    obtain ⟨a₂, h₂, hP₂⟩ := foldlM_enum_invariant (fun a p => f a (p.1 + 1, p.2))
      (fun i => P (i + 1)) l (fun i hi => hstep (i + 1) (Nat.succ_lt_succ hi)) a₁ hP₁
    refine ⟨a₂, ?_, hP₂⟩
    rw [List.enum_cons, List.foldlM_cons, show f a (0, x) = .ok a₁ from h₁]
    show (l.enumFrom 1).foldlM f a₁ = _
    rw [List.enumFrom_eq_map_enum, List.foldlM_map]
    exact h₂

/-- **A loop that rewrites each slot from the matching element of another
slice**: `for i, x := range l { s[i] = g(s[i], x) }` with `len(l) ≤ len(s)`
rewrites the first `len(l)` slots and keeps the others. -/
theorem foldlM_enum_set_le {α β : Type} (g : α → β → α) (f : List α → Nat × β → Go (List α))
    (hf : ∀ s i b (h : i < s.length), f s (i, b) = .ok (s.set i (g s[i] b))) (s : List α)
    (l : List β) (hl : l.length ≤ s.length) :
    l.enum.foldlM f s = .ok (List.zipWith g s l ++ s.drop l.length) := by
  obtain ⟨r, hr, -, hget⟩ := foldlM_enum_invariant f
    (fun i r => r.length = s.length ∧ ∀ j, r[j]? = if j < i then (List.zipWith g s l)[j]? else s[j]?) l
    (fun i hi r ⟨hlen, hget⟩ => by
      have hi' : i < s.length := by omega
      have hir : i < r.length := hlen ▸ hi'
      have hri : r[i] = s[i] := by
        have h := hget i
        rw [if_neg (Nat.lt_irrefl i), List.getElem?_eq_getElem hir,
          List.getElem?_eq_getElem hi'] at h
        exact Option.some.inj h
      refine ⟨_, hf r i l[i] hir, by simp [hlen], fun j => ?_⟩
      rw [List.getElem?_set]
      by_cases hij : i = j
      · subst hij
        simp [hir, hri, List.getElem?_zipWith, List.getElem?_eq_getElem hi,
          List.getElem?_eq_getElem hi']
      · rw [if_neg hij, hget j]
        split_ifs <;> first | rfl | omega) s ⟨rfl, fun j => by simp⟩
  have hz : (List.zipWith g s l).length = l.length := by simp; omega
  rw [hr, List.ext_getElem? fun j => (hget j).trans ?_]
  split
  · rw [List.getElem?_append_left (by omega)]
  · rw [List.getElem?_append_right (by omega), List.getElem?_drop, hz]
    congr 1
    omega

/-- With `len(l) = len(s)` every slot is rewritten: the loop leaves `zipWith g s l`. -/
theorem foldlM_enum_set {α β : Type} (g : α → β → α) (f : List α → Nat × β → Go (List α))
    (hf : ∀ s i b (h : i < s.length), f s (i, b) = .ok (s.set i (g s[i] b))) (s : List α)
    (l : List β) (hl : l.length = s.length) :
    l.enum.foldlM f s = .ok (List.zipWith g s l) := by
  rw [foldlM_enum_set_le g f hf s l hl.le, hl, List.drop_length, List.append_nil]

/-- **A loop that rewrites each slot from its old value**:
`for i := 0; i < len(s); i++ { s[i] = g(s[i]) }` leaves `map g s`. -/
theorem foldlM_range_set {α : Type} (g : α → α) (f : List α → Nat → Go (List α))
    (hf : ∀ s i (h : i < s.length), f s i = .ok (s.set i (g s[i]))) (s : List α) :
    (List.range s.length).foldlM f s = .ok (s.map g) := by
  rw [← List.enum_map_fst, List.foldlM_map,
    foldlM_enum_set (fun a _ => g a) _ (fun t i _ hi => hf t i hi) s s rfl, List.zipWith_same]

/-! ## FNV-1 and FNV-1a, 32-bit (`hash/fnv`) -/

namespace Fnv

/-- `offset32`. -/
def offset32 : UInt32 := 2166136261

/-- `prime32`. -/
def prime32 : UInt32 := 16777619

/-- `fnv.New32a()` after `Reset` and `Write(data)`: xor, then multiply. -/
def sum32a (data : GoString) : UInt32 :=
  data.foldl (fun hash c => (hash ^^^ c.toUInt32) * prime32) offset32

/-- `fnv.New32()` after `Reset` and `Write(data)`: multiply, then xor. -/
def sum32 (data : GoString) : UInt32 :=
  data.foldl (fun hash c => hash * prime32 ^^^ c.toUInt32) offset32

end Fnv

end VulcanPkgTool
