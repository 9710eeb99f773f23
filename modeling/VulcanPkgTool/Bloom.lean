import VulcanPkgTool.Bitmap

/-!
`bloom/bloom.go` and `bloom/int64_bloom.go`: two Bloom filters over one
`Bitmap` of `m` bits, each with `k ≤ 8` hash functions built by double hashing,
function `i` being base function `i % len(base)` times `i / len(base) + 1`.

`estimateParameters` computes `m` and `k` in `float64`; the constructors here
take that function as a parameter, so every statement holds whatever it returns.
The base hashers are the standard library's FNV-1a and FNV-1 (`Fnv`).

The byte filter is correct (`New_Add_Contains`): after any sequence of `Add`s the
bitmap holds exactly the bits the added elements hash to, so no bit is ever
cleared and `Contains` has no false negatives. The integer filter's `Add` is the
same loop, but `AddMany` is not: it calls `Bitmap.MSet`, which never returns
(`AddMany_cons_hang`, `AddMany_one_hangs`), and it keeps only the last hash function's index of each
element, so even a working `MSet` would leave `Contains` false
(`AddMany_indexes_miss`).
-/

set_option autoImplicit false

namespace VulcanPkgTool

/-- Go's `a % b` on `uint32`, which panics when `b` is zero. -/
def uint32Mod (a b : UInt32) : Go UInt32 :=
  if b = 0 then throw (.panic "integer divide by zero") else pure (a % b)

theorem uint32Mod_of_pos {a b : UInt32} (hb : 0 < b.toNat) : uint32Mod a b = pure (a % b) := by
  simp only [uint32Mod]
  rw [if_neg fun h => by simp [h] at hb]

/-- The double-hashing loop of `createHashFunctions` and `createInt64HashFunctions`:
function `i` is base function `i % len(base)` times `i / len(base) + 1`, in
`uint32` arithmetic. -/
def doubleHash {α : Type} (base : List (α → UInt32)) (k : UInt32) : List (α → UInt32) :=
  (List.range k.toNat).map fun i =>
    let idx := i.toUInt32 % base.length.toUInt32
    let factor := i.toUInt32 / base.length.toUInt32 + 1
    fun data => (base.getD idx.toNat fun _ => 0) data * factor

/-- `k` capped at 8, as both constructors do. -/
def capK (k : UInt32) : UInt32 := if k > 8 then 8 else k

theorem capK_toNat (k : UInt32) : (capK k).toNat = min k.toNat 8 := by
  have h8 : (8 : UInt32).toNat = 8 := rfl
  unfold capK
  split
  · next h => have : 8 < k.toNat := h; rw [h8]; omega
  · next h => have : ¬8 < k.toNat := h; omega

/-- The bit index a hash function gives `data` in a filter of `size` bits. -/
def bitIndex {α : Type} (size : UInt32) (fn : α → UInt32) (data : α) : Nat := (fn data % size).toNat

/-- The bits that adding each of `ds` sets: some hash function sends some element there. -/
def addedBits {α : Type} (fns : List (α → UInt32)) (size : UInt32) (ds : List α) (i : Nat) : Bool :=
  ds.any fun d => fns.any fun fn => decide (bitIndex size fn d = i)

theorem bitIndex_lt {α : Type} {size : UInt32} (hm : 0 < size.toNat) (fn : α → UInt32) (data : α) :
    bitIndex size fn data < size.toNat := by
  simpa [bitIndex, UInt32.toNat_mod] using Nat.mod_lt _ hm

/-! ## Setting and testing one element's bits

Both filters' `Add` and `Contains` are these two loops over the hash functions. -/

/-- The loop of `Add`: `bitmap.Set(int(fn(data) % size))` for each function. -/
def setBits {α : Type} (fns : List (α → UInt32)) (size : UInt32) (data : α) (bitmap : Bitmap) :
    Go Bitmap :=
  fns.foldlM (fun bitmap fn => do
    let h ← uint32Mod (fn data) size
    bitmap.Set h.toNat) bitmap

/-- The loop of `Contains`: false at the first function whose bit is clear. -/
def testBits {α : Type} (size : UInt32) (bitmap : Bitmap) (data : α) :
    List (α → UInt32) → Go Bool
  | [] => pure true
  | fn :: fns => do
    let h ← uint32Mod (fn data) size
    if !(← bitmap.IsSet h.toNat) then pure false else testBits size bitmap data fns

section Loops

variable {α : Type} {size : UInt32} {s : Nat → Bool}

/-- `Add`'s loop sets exactly the element's bits and clears none. -/
theorem setBits_spec (fns : List (α → UInt32)) (data : α) {bitmap : Bitmap}
    (hb : bitmap.Represents s) (hsize : bitmap.size = size.toNat) (hm : 0 < size.toNat) :
    ∃ bitmap', setBits fns size data bitmap = .ok bitmap' ∧ bitmap'.size = bitmap.size ∧
      bitmap'.Represents fun i => s i || fns.any fun fn => decide (bitIndex size fn data = i) := by
  induction fns generalizing bitmap s with
  | nil => exact ⟨bitmap, rfl, rfl, by simpa using hb⟩
  | cons fn fns ih =>
    have hlt : bitIndex size fn data < bitmap.size.toNat := by
      simpa [hsize] using bitIndex_lt hm fn data
    obtain ⟨b₁, hset, hsize₁, hb₁⟩ := Bitmap.Set_spec hb hlt
    obtain ⟨b₂, hrun, hsize₂, hb₂⟩ := ih hb₁ (hsize₁.trans hsize)
    refine ⟨b₂, ?_, hsize₂.trans hsize₁, hb₂.congr fun i _ => ?_⟩
    · simp only [setBits, List.foldlM_cons, uint32Mod_of_pos hm, pure_bind] at hrun ⊢
      rw [show ((fn data % size).toNat : Int) = (bitIndex size fn data : Nat) from rfl, hset]
      exact hrun
    · by_cases h : bitIndex size fn data = i
      · subst h; simp
      · simp [Function.update_apply, h, Ne.symm h]

/-- `Contains`' loop answers whether every one of the element's bits is set. -/
theorem testBits_spec (fns : List (α → UInt32)) (data : α) {bitmap : Bitmap}
    (hb : bitmap.Represents s) (hsize : bitmap.size = size.toNat) (hm : 0 < size.toNat) :
    testBits size bitmap data fns = .ok (fns.all fun fn => s (bitIndex size fn data)) := by
  induction fns with
  | nil => rfl
  | cons fn fns ih =>
    have hlt : bitIndex size fn data < bitmap.size.toNat := by
      simpa [hsize] using bitIndex_lt hm fn data
    simp only [testBits, uint32Mod_of_pos hm, pure_bind]
    rw [show ((fn data % size).toNat : Int) = (bitIndex size fn data : Nat) from rfl,
      Bitmap.IsSet_spec hb hlt]
    simp only [List.all_cons]
    cases s (bitIndex size fn data)
    · rfl
    · exact ih

end Loops

/-! ## `BloomFilter` (`bloom/bloom.go`) -/

/-- `bloom.BloomFilter`. -/
structure BloomFilter where
  bitmap : Bitmap
  hashFunc : List (GoString → UInt32)
  size : UInt32

namespace BloomFilter

/-- `createHashFunctions`: FNV-1a and FNV-1 as the two base functions. -/
def createHashFunctions (k : UInt32) : List (GoString → UInt32) :=
  doubleHash [Fnv.sum32a, Fnv.sum32] k

/-- Function `i` of `createHashFunctions(k)` is FNV-1a for an even `i` and FNV-1
for an odd one, each computed afresh (the hasher is reset), times `i / 2 + 1` in
`uint32`. -/
theorem createHashFunctions_eq (k : UInt32) :
    createHashFunctions k = (List.range k.toNat).map fun i data =>
      (if i % 2 = 0 then Fnv.sum32a data else Fnv.sum32 data) * (i.toUInt32 / 2 + 1) := by
  refine List.map_congr_left fun i hi => ?_
  have hi : i < UInt32.size := (List.mem_range.1 hi).trans k.toNat_lt_size
  have hmod : (i.toUInt32 % 2).toNat = i % 2 := by
    rw [UInt32.toNat_mod, Nat.toUInt32, UInt32.toNat_ofNat_of_lt hi]; rfl
  funext data
  show ([Fnv.sum32a, Fnv.sum32].getD (i.toUInt32 % 2).toNat fun _ => 0) data * (i.toUInt32 / 2 + 1) = _
  rw [hmod]
  rcases Nat.mod_two_eq_zero_or_one i with h | h <;> simp [h]

/-- `bloom.New(n, p)`, given what `estimateParameters(n, p)` returns. -/
def New (estimateParameters : UInt32 → Float → UInt32 × UInt32) (n : UInt32) (p : Float) :
    Go BloomFilter := do
  let (m, k) := estimateParameters n p
  let bitmap ← Bitmap.NewBitmap m.toNat
  pure { bitmap := bitmap, hashFunc := createHashFunctions (capK k), size := m }

/-- `BloomFilter.Add`. -/
def Add (bf : BloomFilter) (data : GoString) : Go BloomFilter := do
  let bitmap ← setBits bf.hashFunc bf.size data bf.bitmap
  pure { bf with bitmap := bitmap }

/-- `BloomFilter.Contains`. -/
def Contains (bf : BloomFilter) (data : GoString) : Go Bool :=
  testBits bf.size bf.bitmap data bf.hashFunc

/-- A filter whose bitmap has `size ≥ 1` bits and represents `s`. -/
structure Valid (bf : BloomFilter) (s : Nat → Bool) : Prop where
  represents : bf.bitmap.Represents s
  bitmap_size : bf.bitmap.size = bf.size.toNat
  size_pos : 0 < bf.size.toNat

theorem New_spec (estimateParameters : UInt32 → Float → UInt32 × UInt32) (n : UInt32) (p : Float)
    (hm : 0 < (estimateParameters n p).1.toNat) :
    ∃ bf, New estimateParameters n p = .ok bf ∧ bf.size = (estimateParameters n p).1 ∧
      bf.hashFunc = createHashFunctions (capK (estimateParameters n p).2) ∧
      bf.Valid fun _ => false := by
  obtain ⟨b, hnew, hsize, hb⟩ := Bitmap.NewBitmap_spec (Int.ofNat_nonneg (estimateParameters n p).1.toNat)
    (by have := (estimateParameters n p).1.toNat_lt_size; simp only [maxAlloc, UInt32.size] at this ⊢; omega)
  exact ⟨_, by simp only [New, hnew]; rfl, rfl, rfl, hb, hsize, hm⟩

/-- Adding the elements `ds` one after another sets exactly their bits. -/
theorem foldlM_Add_spec {bf : BloomFilter} {s : Nat → Bool} (hbf : bf.Valid s) (ds : List GoString) :
    ∃ bf', ds.foldlM Add bf = .ok bf' ∧ bf'.hashFunc = bf.hashFunc ∧ bf'.size = bf.size ∧
      bf'.Valid fun i => s i || addedBits bf.hashFunc bf.size ds i := by
  induction ds generalizing bf s with
  | nil => exact ⟨bf, rfl, rfl, rfl, by simpa [addedBits] using hbf⟩
  | cons d ds ih =>
    obtain ⟨b₁, hset, hsize₁, hb₁⟩ :=
      setBits_spec bf.hashFunc d hbf.represents hbf.bitmap_size hbf.size_pos
    have hv₁ : ({ bf with bitmap := b₁ } : BloomFilter).Valid _ :=
      ⟨hb₁, hsize₁.trans hbf.bitmap_size, hbf.size_pos⟩
    obtain ⟨bf', hrun, hfns, hsize', hv⟩ := ih hv₁
    refine ⟨bf', ?_, hfns, hsize', ?_⟩
    · simpa [List.foldlM_cons, Add, hset] using hrun
    · refine ⟨hv.represents.congr fun i _ => ?_, hv.bitmap_size, hv.size_pos⟩
      simp only [addedBits, List.any_cons, Bool.or_assoc]

/-- **No false negatives.** For every `estimateParameters` result `(m, k)` with
`m ≥ 1` and every sequence of byte strings `ds` added to `New(n, p)`: every `Add`
returns; the filter has `m` bits and `min k 8` hash functions, function `i` being
FNV-1a (even `i`) or FNV-1 (odd `i`) times `i / 2 + 1`; the bitmap afterwards has
exactly the bits `fn(d) % m` of the added elements `d` (so no `Add` clears a bit);
`Contains(d)` returns, without an out-of-range index, whether every bit
`fn(d) % m` is set; and it is true for every added element. -/
theorem New_Add_Contains (estimateParameters : UInt32 → Float → UInt32 × UInt32) (n : UInt32)
    (p : Float) (hm : 1 ≤ (estimateParameters n p).1.toNat) (ds : List GoString) :
    ∃ bf, (do let bf ← New estimateParameters n p; ds.foldlM Add bf) = .ok bf ∧
      bf.size = (estimateParameters n p).1 ∧
      bf.hashFunc = (List.range (min (estimateParameters n p).2.toNat 8)).map (fun i data =>
        (if i % 2 = 0 then Fnv.sum32a data else Fnv.sum32 data) * (i.toUInt32 / 2 + 1)) ∧
      bf.bitmap.Represents (addedBits bf.hashFunc bf.size ds) ∧
      (∀ d, bf.Contains d =
        .ok (bf.hashFunc.all fun fn => addedBits bf.hashFunc bf.size ds (bitIndex bf.size fn d))) ∧
      ∀ d ∈ ds, bf.Contains d = .ok true := by
  obtain ⟨bf₀, hnew, hsize₀, hfns₀, hv₀⟩ := New_spec estimateParameters n p hm
  obtain ⟨bf, hrun, hfns, hsize, hv⟩ := foldlM_Add_spec hv₀ ds
  have hcontains : ∀ d, bf.Contains d
      = .ok (bf.hashFunc.all fun fn => addedBits bf.hashFunc bf.size ds (bitIndex bf.size fn d)) :=
    fun d => by
      simpa [Contains, hfns, hsize] using
        testBits_spec bf.hashFunc d hv.represents hv.bitmap_size hv.size_pos
  refine ⟨bf, by rw [hnew]; exact hrun, hsize.trans hsize₀,
    by rw [hfns, hfns₀, createHashFunctions_eq, capK_toNat], by simpa [hfns, hsize] using hv.represents,
    hcontains, fun d hd => ?_⟩
  rw [hcontains, List.all_eq_true.2]
  exact fun fn hfn => List.any_eq_true.2 ⟨d, hd, List.any_eq_true.2 ⟨fn, hfn, by simp⟩⟩

theorem New_Add_Contains_example : 1 ≤ ((fun _ _ => (64, 3)) 10 0.01 : UInt32 × UInt32).1.toNat ∧
    ∃ bf, (do let bf ← New (fun _ _ => (64, 3)) 10 0.01; [[1, 2, 3]].foldlM Add bf) = .ok bf ∧
      bf.size = ((fun _ _ => (64, 3)) 10 0.01 : UInt32 × UInt32).1 ∧
      bf.hashFunc = (List.range (min ((fun _ _ => (64, 3)) 10 0.01 : UInt32 × UInt32).2.toNat 8)).map
        (fun i data => (if i % 2 = 0 then Fnv.sum32a data else Fnv.sum32 data) * (i.toUInt32 / 2 + 1)) ∧
      bf.bitmap.Represents (addedBits bf.hashFunc bf.size [[1, 2, 3]]) ∧
      (∀ d, bf.Contains d =
        .ok (bf.hashFunc.all fun fn => addedBits bf.hashFunc bf.size [[1, 2, 3]] (bitIndex bf.size fn d))) ∧
      ∀ d ∈ [[(1 : UInt8), 2, 3]], bf.Contains d = .ok true :=
  ⟨by decide, New_Add_Contains (fun _ _ => (64, 3)) 10 0.01 (by decide) [[1, 2, 3]]⟩

end BloomFilter

/-! ## `Int64BloomFilter` (`bloom/int64_bloom.go`) -/

/-- `bloom.Int64BloomFilter`; an `int64` element is its value. -/
structure Int64BloomFilter where
  bitmap : Bitmap
  hashFunc : List (Int → UInt32)
  size : UInt32

namespace Int64BloomFilter

/-- `createInt64HashFunctions`: the high 32 bits, the low 32 bits, and the two
mixed by `uint32(uint64(data)>>16) ^ uint32(data)`. -/
def createInt64HashFunctions (k : UInt32) : List (Int → UInt32) :=
  doubleHash [fun data => (uint64OfInt data >>> 32).toUInt32, fun data => uint32OfInt data,
    fun data => (uint64OfInt data >>> 16).toUInt32 ^^^ uint32OfInt data] k

/-- `bloom.NewInt64Bloom(n, p)`, given what `estimateParameters(n, p)` returns. -/
def NewInt64Bloom (estimateParameters : UInt32 → Float → UInt32 × UInt32) (n : UInt32) (p : Float) :
    Go Int64BloomFilter := do
  let (m, k) := estimateParameters n p
  let bitmap ← Bitmap.NewBitmap m.toNat
  pure { bitmap := bitmap, hashFunc := createInt64HashFunctions (capK k), size := m }

/-- `Int64BloomFilter.Add`. -/
def Add (bf : Int64BloomFilter) (data : Int) : Go Int64BloomFilter := do
  let bitmap ← setBits bf.hashFunc bf.size data bf.bitmap
  pure { bf with bitmap := bitmap }

/-- The first loop of `AddMany`: `indexes[i]` is written once per hash function,
so it ends holding the last function's index (0 when there are none). -/
def addManyIndexes (bf : Int64BloomFilter) (data : List Int) : Go (List Int) :=
  data.mapM fun d => bf.hashFunc.foldlM (fun _ fn => do
    let h ← uint32Mod (fn d) bf.size
    pure (h.toNat : Int)) 0

/-- `Int64BloomFilter.AddMany`. -/
def AddMany (bf : Int64BloomFilter) (data : List Int) : Go Int64BloomFilter := do
  let indexes ← bf.addManyIndexes data
  let bitmap ← bf.bitmap.MSet indexes
  pure { bf with bitmap := bitmap }

/-- `Int64BloomFilter.Contains`. -/
def Contains (bf : Int64BloomFilter) (data : Int) : Go Bool :=
  testBits bf.size bf.bitmap data bf.hashFunc

/-- The index `AddMany` records for one element is in range. -/
theorem foldlM_index_mem (fns : List (Int → UInt32)) (size : UInt32) (hm : 0 < size.toNat)
    (d i : Int) (hi : 0 ≤ i ∧ i < size.toNat) :
    ∃ j : Int, (fns.foldlM (fun _ fn => do
      let h ← uint32Mod (fn d) size
      pure (h.toNat : Int)) i : Go Int) = .ok j ∧ 0 ≤ j ∧ j < size.toNat := by
  induction fns generalizing i with
  | nil => exact ⟨i, rfl, hi⟩
  | cons fn fns ih =>
    rw [List.foldlM_cons, uint32Mod_of_pos hm, pure_bind, pure_bind]
    have hlt := bitIndex_lt hm fn d
    exact ih ((fn d % size).toNat : Int) ⟨by omega, by simp only [bitIndex] at hlt; omega⟩

/-- `AddMany`'s first loop returns one in-range index per element. -/
theorem addManyIndexes_spec (bf : Int64BloomFilter) (hm : 0 < bf.size.toNat) (data : List Int) :
    ∃ indexes, bf.addManyIndexes data = .ok indexes ∧ indexes.length = data.length ∧
      ∀ i ∈ indexes, 0 ≤ i ∧ i < bf.size.toNat := by
  induction data with
  | nil => exact ⟨[], rfl, rfl, by simp⟩
  | cons d ds ih =>
    obtain ⟨j, hj, hjr⟩ := foldlM_index_mem bf.hashFunc bf.size hm d 0 ⟨Int.le_refl 0, by omega⟩
    obtain ⟨js, hjs, hlen, hjsr⟩ := ih
    refine ⟨j :: js, ?_, by simp [hlen], by simpa using ⟨hjr, hjsr⟩⟩
    simp only [addManyIndexes, List.mapM_cons] at hjs ⊢
    rw [hj, hjs]
    rfl

/-- **`AddMany` never returns** on a filter of `m ≥ 1` bits when given at least
one element: its indexes are in range, and `Bitmap.MSet` then blocks on its own
mutex (`Bitmap.MSet_cons_of_mem`). -/
theorem AddMany_cons_hang (bf : Int64BloomFilter) (hb : bf.bitmap.mutex = false)
    (hsize : bf.bitmap.size = bf.size.toNat) (hm : 0 < bf.size.toNat) (x : Int) (xs : List Int) :
    bf.AddMany (x :: xs) = throw .hang := by
  obtain ⟨indexes, hidx, hlen, hr⟩ := addManyIndexes_spec bf hm (x :: xs)
  obtain ⟨j, js, rfl⟩ : ∃ j js, indexes = j :: js :=
    List.exists_cons_of_ne_nil fun h => by simp [h] at hlen
  have hj := hr j (List.mem_cons_self _ _)
  rw [AddMany, hidx]
  show (do let bitmap ← bf.bitmap.MSet (j :: js); pure { bf with bitmap := bitmap }) = _
  rw [Bitmap.MSet_cons_of_mem hb (by rw [hsize]; exact hj)]
  rfl

/-- `AddMany([1])` on a filter of 64 bits and two hash functions never returns. -/
theorem AddMany_one_hangs :
    (do let bf ← NewInt64Bloom (fun _ _ => (64, 2)) 100 0.01; bf.AddMany [1]) = throw .hang := by
  exact AddMany_cons_hang ⟨⟨false, List.replicate 8 0, 64⟩, createInt64HashFunctions 2, 64⟩
    rfl rfl (by decide) 1 []

/-- **The lost indexes.** On the same filter, `AddMany` records for the element 1
only the index of the last hash function (the low 32 bits, index 1) and drops
that of the first (the high 32 bits, index 0). Setting exactly the recorded
indexes, one `Set` each, leaves `Contains(1)` false. -/
theorem AddMany_indexes_miss :
    (do let bf ← NewInt64Bloom (fun _ _ => (64, 2)) 100 0.01
        let indexes ← bf.addManyIndexes [1]
        let bitmap ← indexes.foldlM (fun (b : Bitmap) (i : Int) => b.Set i) bf.bitmap
        ({ bf with bitmap := bitmap } : Int64BloomFilter).Contains 1) = .ok false := by
  decide

end Int64BloomFilter

end VulcanPkgTool
