import VulcanPkgTool.Go

/-!
What the sharded maps of `concurrentmap/i64map` and `concurrentmap/strmap`
share.

A `ConcurrentMap` is a slice of shards, each a Go map behind its own
`RWMutex`. Every single-key method takes the key's shard (`getShard`), locks
it, reads or changes the entry at that key, and unlocks: `withShard` is that
shape, with the method's work on the shard's items (`Shard.*`) as a parameter.
Methods are called one after another, each under the locks it takes, so each
sees the effects of the ones before it in full.

What the shards are for is one finite map. `Refines getShard n m A` says that
the `n` shards `m` store the map `A`, each key in shard `getShard key`: the
representation invariant of both packages. A single-key method whose work is
local to its key (`Local`) acts on `A` as that work acts on the key's entry
(`withShard_refines`), and under the invariant the shards' entries, one shard
after another, are a permutation of `A`'s (`entries_perm`): enumerating the
shards lists every key exactly once, and their lengths add up to `A`'s.

Go maps are Mathlib's `AList`, entries in the order `range` visits them; Go
leaves that order unspecified, so every statement about an enumeration holds
up to permutation. A stored value is any `V`, and the `nil` that a lookup of a
missing key returns is `default`.
-/

set_option autoImplicit false

namespace VulcanPkgTool

/-- A Go `map[K]V`. -/
abbrev GoMap (K V : Type) := AList fun _ : K => V

namespace GoMap

variable {K V : Type} [DecidableEq K]

/-- The entry at `key` set to a value, or removed for `none`. -/
def put (m : GoMap K V) (key : K) : Option V → GoMap K V
  | some v => m.insert key v
  | none => m.erase key

/-- `for k, v := range src { dst[k] = v }`. -/
def insertAll (dst : GoMap K V) (src : List (Σ _ : K, V)) : GoMap K V :=
  src.foldl (fun d e => d.insert e.1 e.2) dst

theorem lookup_put (m : GoMap K V) (key k : K) (o : Option V) :
    (m.put key o).lookup k = if k = key then o else m.lookup k := by
  by_cases hk : k = key
  · subst hk
    cases o <;> simp [put, AList.lookup_insert, AList.lookup_erase]
  · cases o <;> simp [put, hk, AList.lookup_insert_ne, AList.lookup_erase_ne]

/-- Copying entries with distinct keys: a copied key has its copied value. -/
theorem lookup_insertAll (k : K) : ∀ {src : List (Σ _ : K, V)} (dst : GoMap K V),
    src.NodupKeys → (dst.insertAll src).lookup k = (src.dlookup k).or (dst.lookup k)
  | [], _, _ => rfl
  | ⟨k', v'⟩ :: src, dst, h => by
    rw [List.nodupKeys_cons] at h
    show (GoMap.insertAll (dst.insert k' v') src).lookup k = _
    rw [lookup_insertAll k _ h.2]
    by_cases hk : k = k'
    · subst hk
      simp [List.dlookup_eq_none.mpr h.1, AList.lookup_insert]
    · simp [List.dlookup_cons_ne src (⟨k', v'⟩ : Σ _ : K, V) hk, AList.lookup_insert_ne hk]

theorem lookup_insert_eq_ite (key : K) (items : GoMap K V) (v : V) (k : K) :
    (items.insert key v).lookup k = if k = key then some v else items.lookup k :=
  GoMap.lookup_put items key k (some v)

theorem lookup_erase_eq_ite (key : K) (items : GoMap K V) (k : K) :
    (items.erase key).lookup k = if k = key then none else items.lookup k :=
  GoMap.lookup_put items key k none

theorem lookup_self_eq_ite (key : K) (items : GoMap K V) (k : K) :
    items.lookup k = if k = key then items.lookup key else items.lookup k := by
  by_cases hk : k = key
  · rw [if_pos hk, hk]
  · rw [if_neg hk]

end GoMap

namespace Sharded

variable {K V : Type} [DecidableEq K]

/-- The shards of a `ConcurrentMap`, in slice order. -/
abbrev Shards (K V : Type) := List (GoMap K V)

/-! ## 1. Single-key methods -/

section Single

variable (getShard : K → Nat)

/-- A single-key method: `shard := m.getShard(key)`, lock it, let `f` give the
method's result and the shard's new items, unlock. -/
def withShard {α : Type} (m : Shards K V) (key : K) (f : GoMap K V → α × GoMap K V) :
    Go (α × Shards K V) := do
  let shard ← sliceGet m (getShard key)
  pure ((f shard).1, m.set (getShard key) (f shard).2)

omit [DecidableEq K] in
/-- A key whose shard index is past the last shard panics. -/
theorem withShard_of_le {m : Shards K V} {key : K} (h : m.length ≤ getShard key) {α : Type}
    (f : GoMap K V → α × GoMap K V) : withShard getShard m key f = throw indexOutOfRange := by
  rw [withShard, sliceGet_of_le h]
  rfl

/-- The value the shards hold at `key`, where `getShard` puts it. -/
def lookup (m : Shards K V) (key : K) : Option V :=
  m[getShard key]?.bind fun s => s.lookup key

/-- **The representation invariant**: `n` shards, each key in shard `getShard key`,
together storing the map `A`. -/
structure Refines (n : Nat) (m : Shards K V) (A : GoMap K V) : Prop where
  length_eq : m.length = n
  placed : ∀ i (s : GoMap K V), m[i]? = some s → ∀ k ∈ s, getShard k = i
  lookup_eq : ∀ k, lookup getShard m k = A.lookup k

/-- `f` changes the entry at `key` only, as `g` says: `g` takes the entry's value
(`none`: absent) to the method's result and the entry's new value. -/
def Local {α : Type} (key : K) (f : GoMap K V → α × GoMap K V) (g : Option V → α × Option V) :
    Prop :=
  ∀ items : GoMap K V, (f items).1 = (g (items.lookup key)).1 ∧
    ∀ k, (f items).2.lookup k = if k = key then (g (items.lookup key)).2 else items.lookup k

/-- A single-key method on the abstract map. -/
def apply {α : Type} (A : GoMap K V) (key : K) (g : Option V → α × Option V) : α × GoMap K V :=
  ((g (A.lookup key)).1, A.put key (g (A.lookup key)).2)

variable {getShard}

/-- **A local single-key method refines its abstract counterpart**: it returns
what the abstract method returns, and the shards go on storing the abstract map. -/
theorem withShard_refines {n : Nat} (hlt : ∀ k, getShard k < n) {m : Shards K V}
    {A : GoMap K V} (hR : Refines getShard n m A) {α : Type} {key : K}
    {f : GoMap K V → α × GoMap K V} {g : Option V → α × Option V} (hf : Local key f g) :
    ∃ m', withShard getShard m key f = .ok ((apply A key g).1, m') ∧
      Refines getShard n m' (apply A key g).2 := by
  have hi : getShard key < m.length := hR.length_eq ▸ hlt key
  have hs : A.lookup key = m[getShard key].lookup key := by
    rw [← hR.lookup_eq key, lookup, List.getElem?_eq_getElem hi, Option.some_bind]
  obtain ⟨hres, hitems⟩ := hf m[getShard key]
  refine ⟨m.set (getShard key) (f m[getShard key]).2, ?_, ⟨by simp [hR.length_eq], ?_, ?_⟩⟩
  · simp [withShard, sliceGet_of_lt hi, apply, hres, hs]
    rfl
  · intro j s hj k hk
    by_cases hij : getShard key = j
    · subst hij
      rw [List.getElem?_set_self hi, Option.some_inj] at hj
      subst hj
      have hlk := hitems k
      by_cases hkey : k = key
      · rw [hkey]
      · rw [if_neg hkey] at hlk
        have hk' : k ∈ m[getShard key] := by
          rw [← AList.lookup_isSome, ← hlk, AList.lookup_isSome]; exact hk
        exact hR.placed _ _ (List.getElem?_eq_getElem hi) k hk'
    · rw [List.getElem?_set_ne hij] at hj
      exact hR.placed j s hj k hk
  · intro k
    rw [apply, GoMap.lookup_put, hs]
    by_cases hk : getShard k = getShard key
    · rw [lookup, hk, List.getElem?_set_self hi, Option.some_bind, hitems k]
      split
      · rfl
      · rw [← hR.lookup_eq k, lookup, hk, List.getElem?_eq_getElem hi, Option.some_bind]
    · have hne : k ≠ key := fun h => hk (h ▸ rfl)
      rw [lookup, List.getElem?_set_ne (Ne.symm hk), if_neg hne, ← hR.lookup_eq k, lookup]

end Single

/-! ## 2. What each single-key method does to its shard

`Shard.*` is the body of a method between its `Lock` and `Unlock`, as the
source has it; `Entry.*` is the same method on the entry at the key, the
abstract map's view. -/

namespace Shard

variable [Inhabited V] (key : K)

/-- `old = shard.items[key]; shard.items[key] = value` (`i64map.Set`). -/
def Set (value : V) (items : GoMap K V) : V × GoMap K V :=
  ((items.lookup key).getD default, items.insert key value)

/-- `shard.items[key] = value` (`strmap.Set`, which returns nothing). -/
def Store (value : V) (items : GoMap K V) : Unit × GoMap K V := ((), items.insert key value)

/-- `v, ok := shard.items[key]; res = cb(ok, v, value); shard.items[key] = res`. -/
def Upsert (value : V) (cb : Bool → V → V → V) (items : GoMap K V) : V × GoMap K V :=
  let res := cb (items.lookup key).isSome ((items.lookup key).getD default) value
  (res, items.insert key res)

/-- `_, ok := shard.items[key]; if !ok { shard.items[key] = value }; return !ok`. -/
def SetIfAbsent (value : V) (items : GoMap K V) : Bool × GoMap K V :=
  if (items.lookup key).isSome then (false, items) else (true, items.insert key value)

/-- `val, ok := shard.items[key]`. -/
def Get (items : GoMap K V) : (V × Bool) × GoMap K V :=
  (((items.lookup key).getD default, (items.lookup key).isSome), items)

/-- `_, ok := shard.items[key]`. -/
def Has (items : GoMap K V) : Bool × GoMap K V := ((items.lookup key).isSome, items)

/-- `delete(shard.items, key)`. -/
def Remove (items : GoMap K V) : Unit × GoMap K V := ((), items.erase key)

/-- `v, ok := shard.items[key]; remove := cb(key, v, ok); if remove && ok { delete }`. -/
def RemoveCb (cb : K → V → Bool → Bool) (items : GoMap K V) : Bool × GoMap K V :=
  let ok := (items.lookup key).isSome
  let remove := cb key ((items.lookup key).getD default) ok
  (remove, if remove && ok then items.erase key else items)

/-- `v, exists = shard.items[key]; delete(shard.items, key)`. -/
def Pop (items : GoMap K V) : (V × Bool) × GoMap K V :=
  (((items.lookup key).getD default, (items.lookup key).isSome), items.erase key)

/-- `if val, ok := shard.items[key]; ok { return val }; shard.items[key] = value`
(`strmap.GetOrSet`). -/
def GetOrSet (value : V) (items : GoMap K V) : V × GoMap K V :=
  match items.lookup key with
  | some val => (val, items)
  | none => (value, items.insert key value)

end Shard

namespace Entry

variable [Inhabited V]

/-- `Set`: the old value (`nil` if none); the key holds `value`. -/
def Set (value : V) (o : Option V) : V × Option V := (o.getD default, some value)

/-- `strmap.Set`: the key holds `value`. -/
def Store (value : V) (_ : Option V) : Unit × Option V := ((), some value)

/-- `Upsert`: the callback's value, stored and returned. -/
def Upsert (value : V) (cb : Bool → V → V → V) (o : Option V) : V × Option V :=
  (cb o.isSome (o.getD default) value, some (cb o.isSome (o.getD default) value))

/-- `SetIfAbsent`: whether the key was absent; it holds `value` if it was. -/
def SetIfAbsent (value : V) (o : Option V) : Bool × Option V :=
  (o.isNone, o.or (some value))

/-- `Get`: the value and whether there was one. -/
def Get (o : Option V) : (V × Bool) × Option V := ((o.getD default, o.isSome), o)

/-- `Has`. -/
def Has (o : Option V) : Bool × Option V := (o.isSome, o)

/-- `Remove`. -/
def Remove (_ : Option V) : Unit × Option V := ((), none)

/-- `RemoveCb`: the callback's decision; the key is removed if it was present
and the callback says so. -/
def RemoveCb (key : K) (cb : K → V → Bool → Bool) (o : Option V) : Bool × Option V :=
  (cb key (o.getD default) o.isSome,
    if cb key (o.getD default) o.isSome && o.isSome then none else o)

/-- `Pop`: the value and whether there was one; the key is removed. -/
def Pop (o : Option V) : (V × Bool) × Option V := ((o.getD default, o.isSome), none)

/-- `GetOrSet`: the present value, or `value`, stored. -/
def GetOrSet (value : V) (o : Option V) : V × Option V :=
  ((o.or (some value)).getD value, o.or (some value))

end Entry

section Locality

variable [Inhabited V] (key : K)
open GoMap

theorem Set_local (value : V) : Local key (Shard.Set key value) (Entry.Set value) :=
  fun items => ⟨rfl, lookup_insert_eq_ite key items value⟩

omit [Inhabited V] in
theorem Store_local (value : V) : Local key (Shard.Store key value) (Entry.Store value) :=
  fun items => ⟨rfl, lookup_insert_eq_ite key items value⟩

theorem Upsert_local (value : V) (cb : Bool → V → V → V) :
    Local key (Shard.Upsert key value cb) (Entry.Upsert value cb) :=
  fun items => ⟨rfl, lookup_insert_eq_ite key items _⟩

omit [Inhabited V] in
theorem SetIfAbsent_local (value : V) :
    Local key (Shard.SetIfAbsent key value) (Entry.SetIfAbsent value) := fun items => by
  cases h : items.lookup key with
  | none => exact ⟨by simp [Shard.SetIfAbsent, Entry.SetIfAbsent, h],
      fun k => by simp [Shard.SetIfAbsent, Entry.SetIfAbsent, h, lookup_insert_eq_ite]⟩
  | some v => exact ⟨by simp [Shard.SetIfAbsent, Entry.SetIfAbsent, h],
      fun k => by simpa [Shard.SetIfAbsent, Entry.SetIfAbsent, h] using lookup_self_eq_ite key items k⟩

theorem Get_local : Local key (Shard.Get key : GoMap K V → _) Entry.Get :=
  fun items => ⟨rfl, lookup_self_eq_ite key items⟩

omit [Inhabited V] in
theorem Has_local : Local key (Shard.Has key : GoMap K V → _) Entry.Has :=
  fun items => ⟨rfl, lookup_self_eq_ite key items⟩

omit [Inhabited V] in
theorem Remove_local : Local key (Shard.Remove key : GoMap K V → _) Entry.Remove :=
  fun items => ⟨rfl, lookup_erase_eq_ite key items⟩

theorem RemoveCb_local (cb : K → V → Bool → Bool) :
    Local key (Shard.RemoveCb key cb) (Entry.RemoveCb key cb) := fun items => by
  refine ⟨rfl, fun k => ?_⟩
  simp only [Shard.RemoveCb, Entry.RemoveCb]
  split
  · exact lookup_erase_eq_ite key items k
  · exact lookup_self_eq_ite key items k

theorem Pop_local : Local key (Shard.Pop key : GoMap K V → _) Entry.Pop :=
  fun items => ⟨rfl, lookup_erase_eq_ite key items⟩

omit [Inhabited V] in
theorem GetOrSet_local (value : V) :
    Local key (Shard.GetOrSet key value) (Entry.GetOrSet value) := fun items => by
  cases h : items.lookup key with
  | none => exact ⟨by simp [Shard.GetOrSet, Entry.GetOrSet, h],
      fun k => by simp [Shard.GetOrSet, Entry.GetOrSet, h, lookup_insert_eq_ite]⟩
  | some v => exact ⟨by simp [Shard.GetOrSet, Entry.GetOrSet, h],
      fun k => by simpa [Shard.GetOrSet, Entry.GetOrSet, h] using lookup_self_eq_ite key items k⟩

end Locality

/-! ## 3. Whole-map reads

`Count`, `Keys`, `Iter` and `Items` visit the shards one after another. Under
the invariant no key is in two shards, so what they visit is `A`, each entry
once. -/

section Whole

variable {getShard : K → Nat}

/-- No shards hold anything yet: `New` stores the empty map. -/
theorem Refines.empty (n : Nat) :
    Refines getShard n (List.replicate n (∅ : GoMap K V)) ∅ := by
  refine ⟨List.length_replicate n _, fun i s hs k hk => ?_, fun k => ?_⟩
  · rw [List.getElem?_replicate] at hs
    split at hs
    · simp only [Option.some.injEq] at hs
      subst hs
      exact absurd hk (AList.not_mem_empty k)
    · cases hs
  · rw [lookup, List.getElem?_replicate]
    split <;> simp [AList.lookup_empty]

/-- Shards at two positions share no key. -/
theorem Refines.disjoint {n : Nat} {m : Shards K V} {A : GoMap K V}
    (hR : Refines getShard n m A) :
    (m.map fun s : GoMap K V => s.entries.keys).Pairwise List.Disjoint := by
  rw [List.pairwise_iff_getElem]
  intro i j hi hj hij k hki hkj
  simp only [List.getElem_map] at hki hkj
  have hi' : i < m.length := by simpa using hi
  have hj' : j < m.length := by simpa using hj
  have h₁ := hR.placed i _ (List.getElem?_eq_getElem hi') k (AList.mem_keys.mpr hki)
  have h₂ := hR.placed j _ (List.getElem?_eq_getElem hj') k (AList.mem_keys.mpr hkj)
  omega

theorem Refines.mem_entries_iff {n : Nat} {m : Shards K V} {A : GoMap K V}
    (hR : Refines getShard n m A) (e : Σ _ : K, V) :
    e ∈ m.flatMap AList.entries ↔ e ∈ A.entries := by
  obtain ⟨k, v⟩ := e
  rw [← AList.mem_lookup_iff, ← hR.lookup_eq k, List.mem_flatMap]
  constructor
  · rintro ⟨s, hs, hkv⟩
    obtain ⟨i, hi, rfl⟩ := List.getElem_of_mem hs
    have hk : getShard k = i :=
      hR.placed i _ (List.getElem?_eq_getElem hi) k (AList.mem_keys.mpr (List.mem_keys_of_mem hkv))
    rw [lookup, hk, List.getElem?_eq_getElem hi, Option.some_bind]
    exact AList.mem_lookup_iff.mpr hkv
  · intro hkv
    rw [lookup] at hkv
    cases hs : m[getShard k]? with
    | none => simp [hs] at hkv
    | some s =>
      rw [hs, Option.some_bind] at hkv
      exact ⟨s, List.getElem?_mem hs, AList.mem_lookup_iff.mp hkv⟩

/-- No key twice among the shards' entries. -/
theorem Refines.nodupKeys {n : Nat} {m : Shards K V} {A : GoMap K V}
    (hR : Refines getShard n m A) : (m.flatMap AList.entries).NodupKeys := by
  rw [List.flatMap, List.nodupKeys_flatten]
  refine ⟨fun l hl => ?_, by simpa [List.map_map, Function.comp_def] using hR.disjoint⟩
  obtain ⟨s, -, rfl⟩ := List.mem_map.mp hl
  exact s.nodupKeys

/-- **The shards' entries, one shard after another, are `A`'s**, each once. -/
theorem Refines.entries_perm {n : Nat} {m : Shards K V} {A : GoMap K V}
    (hR : Refines getShard n m A) : (m.flatMap AList.entries).Perm A.entries :=
  (List.perm_ext_iff_of_nodup hR.nodupKeys.nodup A.nodupKeys.nodup).mpr hR.mem_entries_iff

theorem Refines.keys_perm {n : Nat} {m : Shards K V} {A : GoMap K V}
    (hR : Refines getShard n m A) : (m.flatMap AList.keys).Perm A.keys := by
  have h := hR.entries_perm.map Sigma.fst
  simpa [List.map_flatMap, AList.keys, List.keys] using h

end Whole

end Sharded

end VulcanPkgTool
