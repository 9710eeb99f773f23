import VulcanPkgTool.Go

/-!
`bitmap/bitmap.go`: a fixed-size bit array packed into bytes, bit `i` being bit
`i % 8` of byte `i / 8`, every operation under one `sync.Mutex`.

The model keeps the three fields of the Go struct. The mutex is a flag that says
whether it is held, because `MSet` takes it and then calls `Set`, which takes it
again: a `sync.Mutex` is not reentrant, so that second `Lock` never returns.

What the rest of the development needs from this file is `Represents`: the
bitmap's bits below `size` are a given predicate and the padding bits of the last
byte are clear. `NewBitmap` establishes it for every size whose bytes `make` can
allocate, at most `8 * maxAlloc` bits, and panics in `make` past that, where
`size + 7` may also wrap around (`NewBitmap_of_lt`). `Set`, `Clear`, `IsSet` and `Count`
keep it and read it exactly (`Set_spec` and its siblings), and an index outside
`[0, size)` panics in `validateIndex` before the byte array is read. `Count` is
right only because the padding stays clear; `Count_spec` is where that is used.
-/

set_option autoImplicit false

namespace VulcanPkgTool

/-- `bitmap.Bitmap`: whether `mutex` is held, the byte array, and the size in bits. -/
structure Bitmap where
  mutex : Bool
  bits : List (BitVec 8)
  size : Int
  deriving DecidableEq, Repr

namespace Bitmap

/-! ## The code -/

/-- `bitmap.NewBitmap`: `make([]byte, (size+7)/8)`, in Go's `int` arithmetic. -/
def NewBitmap (size : Int) : Go Bitmap :=
  if size < 0 then throw (.panic "bitmap size must be non-negative")
  else do
    let bits ← makeslice 0 (intDiv (wrapInt64 (size + 7)) 8)
    pure { mutex := false, bits := bits, size := size }

/-- `b.mutex.Lock()`. A `sync.Mutex` is not reentrant, so a `Lock` by the
goroutine that already holds it never returns. -/
def lock (b : Bitmap) : Go Bitmap :=
  if b.mutex then throw .hang else pure { b with mutex := true }

/-- `b.mutex.Unlock()`, run by `defer` when the method returns. -/
def unlock (b : Bitmap) : Bitmap := { b with mutex := false }

/-- The panic of `validateIndex`. -/
def outOfRange : Fault := .panic "bitmap index out of range"

/-- `Bitmap.validateIndex`. -/
def validateIndex (b : Bitmap) (index : Int) : Go Unit :=
  if index < 0 ∨ index ≥ b.size then throw outOfRange else pure ()

/-- `1 << (index % 8)` at type `byte`. -/
def mask (index : Int) : BitVec 8 := 1#8 <<< (index % 8).toNat

/-- `Bitmap.Set`. -/
def Set (b : Bitmap) (index : Int) : Go Bitmap := do
  b.validateIndex index
  let b ← b.lock
  let byte ← sliceGet b.bits (index / 8).toNat
  pure (unlock { b with bits := b.bits.set (index / 8).toNat (byte ||| mask index) })

/-- `Bitmap.MSet`: takes the mutex, then calls `Set` for each index. -/
def MSet (b : Bitmap) (indexes : List Int) : Go Bitmap := do
  let b ← b.lock
  let b ← indexes.foldlM (fun b index => b.Set index) b
  pure b.unlock

/-- `Bitmap.Clear`: `&^=` is and-not. -/
def Clear (b : Bitmap) (index : Int) : Go Bitmap := do
  b.validateIndex index
  let b ← b.lock
  let byte ← sliceGet b.bits (index / 8).toNat
  pure (unlock { b with bits := b.bits.set (index / 8).toNat (byte &&& ~~~mask index) })

/-- `Bitmap.IsSet`. The lock it takes is released by `defer`, so the bitmap is
unchanged. -/
def IsSet (b : Bitmap) (index : Int) : Go Bool := do
  b.validateIndex index
  let b ← b.lock
  let byte ← sliceGet b.bits (index / 8).toNat
  pure (byte &&& mask index != 0)

/-- `bits.OnesCount8` from `math/bits`: the number of one bits of a byte. -/
def OnesCount8 (x : BitVec 8) : Nat := (List.range 8).countP x.getLsbD

/-- `Bitmap.Count`. -/
def Count (b : Bitmap) : Go Nat := do
  let b ← b.lock
  pure (b.bits.foldl (fun count byteVal => count + OnesCount8 byteVal) 0)

/-- `Bitmap.Size`. -/
def Size (b : Bitmap) : Int := b.size

/-! ## Reading the bytes as bits -/

/-- Bit `i` of a byte array: bit `i % 8` of byte `i / 8`, clear past the end. -/
def byteBit (bits : List (BitVec 8)) (i : Nat) : Bool := (bits.getD (i / 8) 0).getLsbD (i % 8)

/-- **The representation invariant.** The mutex is free between calls, the array
has `(size + 7) / 8` bytes, and bit `i` is `s i` below `size` and clear above it:
the padding bits of the last byte stay zero. -/
structure Represents (b : Bitmap) (s : Nat → Bool) : Prop where
  unlocked : b.mutex = false
  size_nonneg : 0 ≤ b.size
  length_bits : b.bits.length = (b.size.toNat + 7) / 8
  byteBit_eq : ∀ i, byteBit b.bits i = (decide (i < b.size.toNat) && s i)

@[simp] theorem unlock_bits (b : Bitmap) : b.unlock.bits = b.bits := rfl
@[simp] theorem unlock_size (b : Bitmap) : b.unlock.size = b.size := rfl
@[simp] theorem unlock_mutex (b : Bitmap) : b.unlock.mutex = false := rfl

theorem lock_of_unlocked {b : Bitmap} (h : b.mutex = false) :
    b.lock = pure { b with mutex := true } := by
  simp [lock, h]

theorem validateIndex_of_lt {b : Bitmap} {i : Nat} (h : (i : Int) < b.size) :
    b.validateIndex i = pure () := by
  simp only [validateIndex]
  rw [if_neg (by omega)]

theorem validateIndex_of_not_mem {b : Bitmap} {index : Int} (h : ¬(0 ≤ index ∧ index < b.size)) :
    b.validateIndex index = throw outOfRange := by
  simp only [validateIndex]
  rw [if_pos (by omega)]

theorem getLsbD_mask (i k : Nat) (hk : k < 8) :
    (mask i).getLsbD k = decide (k = i % 8) := by
  have : ((i : Int) % 8).toNat = i % 8 := by omega
  simp only [mask, this, BitVec.getLsbD_shiftLeft, BitVec.getLsbD_one]
  by_cases hki : k = i % 8 <;> simp [hki, hk] <;> omega

/-- Rewriting one byte changes only the bits it holds. -/
theorem byteBit_set (bits : List (BitVec 8)) (j : Nat) (x : BitVec 8) (i : Nat)
    (hj : j < bits.length) :
    byteBit (bits.set j x) i = if i / 8 = j then x.getLsbD (i % 8) else byteBit bits i := by
  simp only [byteBit, List.getD_eq_getElem?_getD, List.getElem?_set]
  by_cases h : i / 8 = j
  · simp [h, hj]
  · simp [h, Ne.symm h]

/-- The byte `Set`, `Clear` and `IsSet` index is in the array: `i / 8 < (size + 7) / 8`. -/
theorem index_lt_length {b : Bitmap} {s : Nat → Bool} (hb : b.Represents s) {i : Nat}
    (hi : i < b.size.toNat) : i / 8 < b.bits.length := by
  rw [hb.length_bits]; omega

theorem sliceGet_byte {b : Bitmap} {s : Nat → Bool} (hb : b.Represents s) {i : Nat}
    (hi : i < b.size.toNat) : sliceGet b.bits (i / 8) = pure (b.bits.getD (i / 8) 0) := by
  simp [sliceGet_of_lt (index_lt_length hb hi), index_lt_length hb hi]

/-- **The write step.** Rewriting the byte of bit `i` with one that agrees with
the old byte except at bit `i`, where it holds `v`, represents `s` updated at `i`. -/
theorem represents_write {b : Bitmap} {s : Nat → Bool} (hb : b.Represents s) {i : Nat}
    (hi : i < b.size.toNat) (v : Bool) (x : BitVec 8)
    (hx : ∀ k, k < 8 → x.getLsbD k = if k = i % 8 then v else (b.bits.getD (i / 8) 0).getLsbD k) :
    Represents (unlock { b with mutex := true, bits := b.bits.set (i / 8) x })
      (Function.update s i v) where
  unlocked := rfl
  size_nonneg := hb.size_nonneg
  length_bits := by simpa using hb.length_bits
  byteBit_eq j := by
    simp only [unlock_bits, unlock_size, byteBit_set _ _ _ _ (index_lt_length hb hi)]
    by_cases hj : j = i
    · subst hj; simp [hx _ (Nat.mod_lt _ (by decide)), hi]
    · have hbit := hb.byteBit_eq j
      simp only [byteBit] at hbit
      split_ifs with h8
      · rw [hx _ (Nat.mod_lt _ (by decide)), if_neg (by omega), ← h8, hbit]
        simp [hj]
      · simpa [byteBit, hj] using hbit

/-- The test `IsSet` makes, `byte & (1 << (i % 8)) != 0`, reads bit `i % 8`. -/
theorem and_mask_ne_zero (x : BitVec 8) (i : Nat) :
    (x &&& mask i != 0) = x.getLsbD (i % 8) := by
  have hi : i % 8 < 8 := Nat.mod_lt _ (by decide)
  by_cases hx : x.getLsbD (i % 8)
  · have : x &&& mask i ≠ 0#8 := fun h => by
      simpa [getLsbD_mask _ _ hi, hx] using congrArg (BitVec.getLsbD · (i % 8)) h
    simpa [hx] using this
  · have : x &&& mask i = 0 := by
      ext k
      simp only [BitVec.getLsbD_and, getLsbD_mask _ _ k.isLt, BitVec.getLsbD_zero]
      by_cases hk : k.val = i % 8 <;> simp_all
    simp [this, hx]

/-! ## One lemma per operation -/

/-- Below `8 * maxAlloc` bits, `size + 7` is an `int` and `make` allocates its bytes. -/
theorem NewBitmap_eq {size : Int} (h : 0 ≤ size) (hmax : size ≤ 8 * maxAlloc) :
    NewBitmap size = .ok { mutex := false, bits := List.replicate ((size + 7) / 8).toNat 0, size := size } := by
  have hwrap : wrapInt64 (size + 7) = size + 7 := by
    simp only [wrapInt64, maxAlloc] at hmax ⊢; omega
  rw [NewBitmap, if_neg (by omega), hwrap, intDiv_eq (by decide), if_pos (by omega),
    makeslice_of_le _ (by omega) (by omega)]
  rfl

/-- **Past `8 * maxAlloc` bits, `NewBitmap` panics in `make`**: its byte count is
past `maxAlloc`, or `size + 7` wraps around to a negative `int`. -/
theorem NewBitmap_of_lt {size : Int} (h : 8 * maxAlloc < size) (h63 : size < 2 ^ 63) :
    NewBitmap size = throw makesliceLen := by
  have hlen : intDiv (wrapInt64 (size + 7)) 8 < 0 ∨ maxAlloc < intDiv (wrapInt64 (size + 7)) 8 := by
    rw [intDiv_eq (by decide)]
    simp only [wrapInt64, maxAlloc] at h ⊢
    split <;> omega
  rw [NewBitmap, if_neg (by omega), makeslice, if_pos hlen]
  rfl

theorem NewBitmap_spec {size : Int} (h : 0 ≤ size) (hmax : size ≤ 8 * maxAlloc) :
    ∃ b, NewBitmap size = .ok b ∧ b.size = size ∧ b.Represents (fun _ => false) := by
  refine ⟨_, NewBitmap_eq h hmax, rfl, rfl, h, ?_, ?_⟩
  · simp only [List.length_replicate]; omega
  · intro i
    simp only [byteBit, List.getD_eq_getElem?_getD, List.getElem?_replicate]
    split <;> simp

theorem Set_spec {b : Bitmap} {s : Nat → Bool} (hb : b.Represents s) {i : Nat}
    (hi : i < b.size.toNat) :
    ∃ b', b.Set i = .ok b' ∧ b'.size = b.size ∧ b'.Represents (Function.update s i true) := by
  refine ⟨unlock { b with mutex := true, bits := b.bits.set (i / 8) (b.bits.getD (i / 8) 0 ||| mask i) }, ?_, rfl,
    represents_write hb hi true _ ?_⟩
  · have h8 : ((i : Int) / 8).toNat = i / 8 := by omega
    simp only [Set, validateIndex_of_lt (show (i : Int) < b.size by omega),
      lock_of_unlocked hb.unlocked, pure_bind, h8, sliceGet_byte hb hi]
    rfl
  · intro k hk
    simp only [BitVec.getLsbD_or, getLsbD_mask _ _ hk]
    by_cases hki : k = i % 8 <;> simp [hki]

theorem Clear_spec {b : Bitmap} {s : Nat → Bool} (hb : b.Represents s) {i : Nat}
    (hi : i < b.size.toNat) :
    ∃ b', b.Clear i = .ok b' ∧ b'.size = b.size ∧ b'.Represents (Function.update s i false) := by
  refine ⟨unlock { b with mutex := true, bits := b.bits.set (i / 8) (b.bits.getD (i / 8) 0 &&& ~~~mask i) }, ?_, rfl,
    represents_write hb hi false _ ?_⟩
  · have h8 : ((i : Int) / 8).toNat = i / 8 := by omega
    simp only [Clear, validateIndex_of_lt (show (i : Int) < b.size by omega),
      lock_of_unlocked hb.unlocked, pure_bind, h8, sliceGet_byte hb hi]
    rfl
  · intro k hk
    simp only [BitVec.getLsbD_and, BitVec.getLsbD_not, getLsbD_mask _ _ hk]
    by_cases hki : k = i % 8 <;> simp [hki, hk]

theorem IsSet_spec {b : Bitmap} {s : Nat → Bool} (hb : b.Represents s) {i : Nat}
    (hi : i < b.size.toNat) : b.IsSet i = .ok (s i) := by
  have h8 : ((i : Int) / 8).toNat = i / 8 := by omega
  have hbit := hb.byteBit_eq i
  simp only [byteBit, hi, decide_True, Bool.true_and] at hbit
  simp only [IsSet, validateIndex_of_lt (show (i : Int) < b.size by omega),
    lock_of_unlocked hb.unlocked, pure_bind, h8, sliceGet_byte hb hi, and_mask_ne_zero, hbit]
  rfl

/-- **`MSet` never returns once it has an index to set.** It holds the mutex when it
calls `Set`, which validates the index and then takes the same mutex again. -/
theorem MSet_cons_of_mem {b : Bitmap} (hb : b.mutex = false) {i : Int}
    (hi : 0 ≤ i ∧ i < b.size) (rest : List Int) : b.MSet (i :: rest) = throw .hang := by
  have hv : ({ b with mutex := true } : Bitmap).validateIndex i = pure () := by
    simp only [validateIndex]; rw [if_neg (by omega)]
  rw [MSet, lock_of_unlocked hb, pure_bind, List.foldlM_cons, Set, hv, pure_bind]
  rfl

/-- **`MSet` returns only when it has nothing to set.** For every bitmap between
calls and every list of indices in `[0, size)`, `MSet` returns exactly on the
empty list, and then with the bitmap unchanged; on any other list it blocks
forever in its first `Set`. -/
theorem MSet_of_valid {b : Bitmap} (hb : b.mutex = false) (indexes : List Int)
    (hidx : ∀ i ∈ indexes, 0 ≤ i ∧ i < b.size) :
    b.MSet indexes = if indexes = [] then pure b else throw .hang := by
  cases indexes with
  | nil =>
    obtain ⟨m, bits, size⟩ := b
    subst hb
    rfl
  | cons i rest => exact MSet_cons_of_mem hb (hidx i (List.mem_cons_self i rest)) rest

theorem MSet_of_valid_eight :
    (⟨false, [0], 8⟩ : Bitmap).mutex = false ∧ (∀ i ∈ [3], 0 ≤ i ∧ i < (8 : Int)) ∧
      (⟨false, [0], 8⟩ : Bitmap).MSet [3] = if [3] = ([] : List Int) then pure ⟨false, [0], 8⟩
        else throw .hang :=
  ⟨rfl, by decide, MSet_of_valid rfl [3] (by decide)⟩

theorem foldl_onesCount8 (bits : List (BitVec 8)) (c : Nat) :
    bits.foldl (fun count byteVal => count + OnesCount8 byteVal) c
      = c + (bits.map OnesCount8).sum := by
  induction bits generalizing c with
  | nil => simp
  | cons x xs ih => simp only [List.foldl_cons, ih, List.map_cons, List.sum_cons]; omega

/-- Summing `OnesCount8` over the bytes counts the set bits of the array. -/
theorem sum_onesCount8 (bits : List (BitVec 8)) :
    (bits.map OnesCount8).sum = (List.range (8 * bits.length)).countP (byteBit bits) := by
  induction bits with
  | nil => simp
  | cons x xs ih =>
    have hshift : byteBit (x :: xs) ∘ (8 + ·) = byteBit xs := by
      funext j
      simp [byteBit, show (8 + j) / 8 = j / 8 + 1 by omega]
    rw [List.length_cons, Nat.mul_succ, Nat.add_comm, List.range_add, List.countP_append,
      List.countP_map, hshift, ← ih, List.map_cons, List.sum_cons]
    rfl

/-- **`Count` is exact because the padding is clear.** The bytes hold
`8 * ((size + 7) / 8)` bits; those at or past `size` are zero, so summing every
byte counts exactly the set bits below `size`. -/
theorem Count_spec {b : Bitmap} {s : Nat → Bool} (hb : b.Represents s) :
    b.Count = .ok ((List.range b.size.toNat).countP s) := by
  simp only [Count, lock_of_unlocked hb.unlocked, pure_bind, foldl_onesCount8, Nat.zero_add,
    sum_onesCount8]
  obtain ⟨r, hr⟩ : ∃ r, 8 * b.bits.length = b.size.toNat + r :=
    ⟨8 * b.bits.length - b.size.toNat, by rw [hb.length_bits]; omega⟩
  have hlow : (List.range b.size.toNat).countP (byteBit b.bits)
      = (List.range b.size.toNat).countP s :=
    List.countP_congr fun j hj => by simp [hb.byteBit_eq, List.mem_range.1 hj]
  have hpad : (List.range r).countP (byteBit b.bits ∘ (b.size.toNat + ·)) = 0 :=
    List.countP_eq_zero.2 fun j _ => by
      rw [Function.comp_apply, hb.byteBit_eq, decide_eq_false (by omega), Bool.false_and]
      exact Bool.false_ne_true
  rw [hr, List.range_add, List.countP_append, List.countP_map, hlow, hpad]
  rfl

theorem Set_of_not_mem {b : Bitmap} {index : Int} (h : ¬(0 ≤ index ∧ index < b.size)) :
    b.Set index = throw outOfRange := by
  simp only [Set, validateIndex_of_not_mem h]; rfl

theorem Clear_of_not_mem {b : Bitmap} {index : Int} (h : ¬(0 ≤ index ∧ index < b.size)) :
    b.Clear index = throw outOfRange := by
  simp only [Clear, validateIndex_of_not_mem h]; rfl

theorem IsSet_of_not_mem {b : Bitmap} {index : Int} (h : ¬(0 ≤ index ∧ index < b.size)) :
    b.IsSet index = throw outOfRange := by
  simp only [IsSet, validateIndex_of_not_mem h]; rfl

theorem Represents.congr {b : Bitmap} {s t : Nat → Bool} (hb : b.Represents s)
    (h : ∀ i, i < b.size.toNat → s i = t i) : b.Represents t where
  unlocked := hb.unlocked
  size_nonneg := hb.size_nonneg
  length_bits := hb.length_bits
  byteBit_eq i := by
    rw [hb.byteBit_eq]
    by_cases hi : i < b.size.toNat <;> simp [hi, h]

/-! ## Runs of calls

A run is a list of calls made one after another; a call that panics is
recovered by the caller and leaves the bitmap as it was. The specification is
`expectRun`: each `IsSet(i)` in range answers whether the last `Set` or `Clear`
of `i` before it was a `Set`, each `Count()` the number of such `i` below
`size`, and every call with an index outside `[0, size)` panics. -/

/-- A call on a bitmap. -/
inductive Op where
  | set (index : Int)
  | clear (index : Int)
  | isSet (index : Int)
  | count
  deriving DecidableEq, Repr

/-- What a call returns; `fault` is a panic the caller recovers. -/
inductive Ret where
  | unit
  | bool (v : Bool)
  | nat (n : Nat)
  | fault (f : Fault)
  deriving DecidableEq, Repr

/-- One call. When it faults, the bitmap is the one before the call. -/
def step (b : Bitmap) : Op → Ret × Bitmap
  | .set i => match b.Set i with
    | .ok b' => (.unit, b')
    | .error f => (.fault f, b)
  | .clear i => match b.Clear i with
    | .ok b' => (.unit, b')
    | .error f => (.fault f, b)
  | .isSet i => match b.IsSet i with
    | .ok v => (.bool v, b)
    | .error f => (.fault f, b)
  | .count => match b.Count with
    | .ok n => (.nat n, b)
    | .error f => (.fault f, b)

/-- The calls `ops` one after another: what each returns, and the bitmap after them. -/
def run (b : Bitmap) : List Op → List Ret × Bitmap
  | [] => ([], b)
  | op :: ops => ((step b op).1 :: (run (step b op).2 ops).1, (run (step b op).2 ops).2)

/-- Whether `op` is a `Set` or `Clear` of bit `i`, and which. -/
def Op.writes (i : Nat) : Op → Option Bool
  | .set j => if j = i then some true else none
  | .clear j => if j = i then some false else none
  | _ => none

/-- Whether the last `Set` or `Clear` of bit `i` in `hist` was a `Set`; false
when there was none. -/
def lastWasSet (hist : List Op) (i : Nat) : Bool :=
  (hist.reverse.findSome? (Op.writes i)).getD false

/-- What a call returns after the calls `hist`, on a bitmap of `size` bits. -/
def expect (size : Nat) (hist : List Op) : Op → Ret
  | .set i | .clear i => if 0 ≤ i ∧ i < size then .unit else .fault outOfRange
  | .isSet i => if 0 ≤ i ∧ i < size then .bool (lastWasSet hist i.toNat) else .fault outOfRange
  | .count => .nat ((List.range size).countP (lastWasSet hist))

/-- `expect` along a run. -/
def expectRun (size : Nat) (hist : List Op) : List Op → List Ret
  | [] => []
  | op :: ops => expect size hist op :: expectRun size (hist ++ [op]) ops

@[simp] theorem lastWasSet_nil (i : Nat) : lastWasSet [] i = false := rfl

theorem lastWasSet_append (hist : List Op) (op : Op) (i : Nat) :
    lastWasSet (hist ++ [op]) i = (op.writes i).getD (lastWasSet hist i) := by
  simp only [lastWasSet, List.reverse_append, List.reverse_singleton, List.singleton_append,
    List.findSome?_cons]
  cases op.writes i <;> rfl

/-- A call whose index is out of range writes no bit in range. -/
theorem writes_eq_none {b : Bitmap} {j : Int} (hj : ¬(0 ≤ j ∧ j < b.size)) {i : Nat}
    (hi : i < b.size.toNat) : (Op.set j).writes i = none ∧ (Op.clear j).writes i = none := by
  simp only [Op.writes]
  constructor <;> rw [if_neg (by omega)]

/-- After a call that writes `v` to bit `i`, the history answers `v` at `i`. -/
theorem lastWasSet_write (hist : List Op) (op : Op) (i : Nat) (v : Bool)
    (hop : ∀ k, op.writes k = if k = i then some v else none) :
    lastWasSet (hist ++ [op]) = Function.update (lastWasSet hist) i v := by
  funext k
  rw [lastWasSet_append, hop, Function.update_apply]
  split_ifs <;> rfl

@[simp] theorem step_isSet_snd (b : Bitmap) (j : Int) : (step b (.isSet j)).2 = b := by
  simp only [step]; split <;> rfl

@[simp] theorem step_count_snd (b : Bitmap) : (step b .count).2 = b := by
  simp only [step]; split <;> rfl

/-- **The step lemma.** On a bitmap that represents the history `hist`, a call
returns what `expect` says and leaves a bitmap of the same size that represents
`hist ++ [op]`. -/
theorem step_spec {b : Bitmap} {hist : List Op} (hb : b.Represents (lastWasSet hist))
    (op : Op) : (step b op).1 = expect b.size.toNat hist op ∧ (step b op).2.size = b.size ∧
      (step b op).2.Represents (lastWasSet (hist ++ [op])) := by
  have hsz : (b.size.toNat : Int) = b.size := Int.toNat_of_nonneg hb.size_nonneg
  have hsame : ∀ op : Op, (∀ i, i < b.size.toNat → op.writes i = none) →
      b.Represents (lastWasSet (hist ++ [op])) :=
    fun op h => hb.congr fun i hi => by rw [lastWasSet_append, h i hi]; rfl
  cases op with
  | set j =>
    by_cases hj : 0 ≤ j ∧ j < b.size
    · obtain ⟨i, rfl⟩ : ∃ i : Nat, j = i := ⟨j.toNat, by omega⟩
      obtain ⟨b', hop, hsize, hb'⟩ := Set_spec hb (show i < b.size.toNat by omega)
      rw [lastWasSet_write _ _ i true fun k => by
        simp only [Op.writes, Int.ofNat_inj, @eq_comm _ i k]]
      simp only [step, hop]
      exact ⟨by simp [expect, hsz, hj], hsize, hb'⟩
    · simp only [step, Set_of_not_mem hj]
      exact ⟨by simp [expect, hsz, hj], trivial, hsame _ fun i hi => (writes_eq_none hj hi).1⟩
  | clear j =>
    by_cases hj : 0 ≤ j ∧ j < b.size
    · obtain ⟨i, rfl⟩ : ∃ i : Nat, j = i := ⟨j.toNat, by omega⟩
      obtain ⟨b', hop, hsize, hb'⟩ := Clear_spec hb (show i < b.size.toNat by omega)
      rw [lastWasSet_write _ _ i false fun k => by
        simp only [Op.writes, Int.ofNat_inj, @eq_comm _ i k]]
      simp only [step, hop]
      exact ⟨by simp [expect, hsz, hj], hsize, hb'⟩
    · simp only [step, Clear_of_not_mem hj]
      exact ⟨by simp [expect, hsz, hj], trivial, hsame _ fun i hi => (writes_eq_none hj hi).2⟩
  | isSet j =>
    refine ⟨?_, by simp, by simpa using hsame (.isSet j) fun i _ => rfl⟩
    by_cases hj : 0 ≤ j ∧ j < b.size
    · obtain ⟨i, rfl⟩ : ∃ i : Nat, j = i := ⟨j.toNat, by omega⟩
      simp [step, IsSet_spec hb (show i < b.size.toNat by omega), expect, hsz, hj]
    · simp [step, IsSet_of_not_mem hj, expect, hsz, hj]
  | count =>
    refine ⟨?_, by simp, by simpa using hsame .count fun i _ => rfl⟩
    simp [step, Count_spec hb, expect]

/-- **The run lemma.** From a bitmap that represents `hist`, the calls `ops`
return what `expectRun` says, and the bitmap after them represents `hist ++ ops`. -/
theorem run_spec {b : Bitmap} {hist : List Op} (hb : b.Represents (lastWasSet hist))
    (ops : List Op) : (run b ops).1 = expectRun b.size.toNat hist ops ∧
      (run b ops).2.Represents (lastWasSet (hist ++ ops)) := by
  induction ops generalizing b hist with
  | nil => simpa [run, expectRun] using hb
  | cons op ops ih =>
    obtain ⟨hr, hsize, hb'⟩ := step_spec hb op
    obtain ⟨ih1, ih2⟩ := ih hb'
    exact ⟨by simp only [run, expectRun, hr, ih1, hsize], by simpa [run] using ih2⟩

/-- **A bitmap answers with the last write of each bit.** For every `size ≥ 0`
that is an `int`, `NewBitmap(size)` panics in `make` exactly when `size` is past
`8 * maxAlloc` bits; otherwise every run of `Set`, `Clear`, `IsSet` and `Count` on
the bitmap it returns gives what `expectRun` says: `IsSet(i)` in range is whether
the last `Set` or `Clear` of `i` was a `Set`, `Count()` the number of such `i` in
`[0, size)`, and a call outside the range panics; and the bitmap afterwards
still has its padding bits clear. -/
theorem NewBitmap_run (size : Int) (hsize : 0 ≤ size) (h63 : size < 2 ^ 63) (ops : List Op) :
    (size ≤ 8 * maxAlloc ∧ ∃ b, NewBitmap size = .ok b ∧ (run b ops).1 = expectRun size.toNat [] ops ∧
      (run b ops).2.Represents (lastWasSet ops)) ∨
    (8 * maxAlloc < size ∧ NewBitmap size = throw makesliceLen) := by
  by_cases hmax : size ≤ 8 * maxAlloc
  · obtain ⟨b, hnew, hbsize, hb⟩ := NewBitmap_spec hsize hmax
    have hb0 : b.Represents (lastWasSet []) := hb.congr fun _ _ => rfl
    obtain ⟨h1, h2⟩ := run_spec hb0 ops
    exact .inl ⟨hmax, b, hnew, hbsize ▸ h1, by simpa using h2⟩
  · exact .inr ⟨by omega, NewBitmap_of_lt (by omega) h63⟩

example : expectRun 10 [] [.set 3, .isSet 3, .set 12, .clear 3, .count] =
    [.unit, .bool true, .fault outOfRange, .unit, .nat 0] := by decide

theorem NewBitmap_run_ten : (0 : Int) ≤ 10 ∧ (10 : Int) < 2 ^ 63 ∧
    ((10 ≤ 8 * (maxAlloc : Int) ∧ ∃ b, NewBitmap 10 = .ok b ∧
      (run b [.set 3, .isSet 3, .set 12, .count]).1 = expectRun 10 [] [.set 3, .isSet 3, .set 12, .count] ∧
      (run b [.set 3, .isSet 3, .set 12, .count]).2.Represents (lastWasSet [.set 3, .isSet 3, .set 12, .count])) ∨
    (8 * (maxAlloc : Int) < 10 ∧ NewBitmap 10 = throw makesliceLen)) :=
  ⟨by decide, by decide, NewBitmap_run 10 (by decide) (by decide) _⟩

end Bitmap

end VulcanPkgTool
