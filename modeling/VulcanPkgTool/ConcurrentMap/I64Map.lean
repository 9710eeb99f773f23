import VulcanPkgTool.ConcurrentMap.Refinement

/-!
`concurrentmap/i64map`: a concurrent map from `int64` keys, in `shardCount = 32`
shards.

A key lives in shard `uint(fnv32(key)) % 32` (`getShard`), where `fnv32` is
FNV-1a over the key's eight bytes, most significant first. The single-key
methods reach that shard through `getShard`; `MGet` and `MSet` instead group
their keys by the same expression written out inline (`bucket`), and `MSet`
writes each group from its own goroutine. `Count` and `Clear` and `Resize`
loop over `i < shardCount`; `snapshot`, `Keys` and `fanIn` over the shards.

The results of this file are that every one of these places a key, or looks
for it, where the others do, so that one after another the methods act on one
finite map (`spec`). Each whole-map method refines its abstract counterpart
from any shards that store a map (`MGet_refines`, `MSet_refines`,
`Clear_refines`, `Resize_refines`, `Iter_refines`, `Items_refines`); with the
single-key methods (`withRet_refines`) they give `step_refines`, and from it,
by `run_refines`, the run from `New`: every result agrees with the abstract
map's and the shards go on storing it.

`New`'s capacity and `Resize`'s only size the Go maps; the values stored are of
any type `V`, with `default` for the `nil` a missing key reads as. `ForEach`
and `MarshalJSON` are not modelled.
-/

set_option autoImplicit false

namespace VulcanPkgTool.i64map

open Sharded

/-! ## 1. Shard placement -/

/-- `shardCount`. -/
def shardCount : Nat := 32

/-- `fnv32(key)`: FNV-1a over the eight bytes `bytes[7-i] = byte(key >> (i * 8))`. -/
def fnv32 (key : Int) : UInt32 :=
  Fnv.sum32a ((List.range 8).map fun j => byteOfInt (Int.shiftRight key ((7 - j) * 8)))

/-- The index `getShard` reads, `uint(fnv32(key)) % uint(shardCount)`. -/
def getShard (key : Int) : Nat := (fnv32 key).toNat % shardCount

theorem getShard_lt (key : Int) : getShard key < shardCount := Nat.mod_lt _ (by decide)

/-- `for _, x := range xs { buckets[idx(x)] = add(buckets[idx(x)], x) }`: the
grouping loops of `MGet` and `MSet`. Their index is `getShard`'s, always below
`shardCount = len(buckets)`. -/
def bucket {β γ : Type} (idx : γ → Nat) (add : β → γ → β) (buckets : List β) (xs : List γ) :
    List β :=
  xs.foldl (fun bs x => bs.modify (fun b => add b x) (idx x)) buckets

section Bucket

variable {β γ : Type} (idx : γ → Nat) (add : β → γ → β)

theorem foldl_append_singleton : ∀ (acc xs : List γ), xs.foldl (fun l x => l ++ [x]) acc = acc ++ xs
  | acc, [] => (List.append_nil acc).symm
  | acc, x :: xs => (foldl_append_singleton (acc ++ [x]) xs).trans (by simp)

theorem length_bucket : ∀ (bs : List β) (xs : List γ), (bucket idx add bs xs).length = bs.length
  | _, [] => rfl
  | _, _ :: xs => (length_bucket _ xs).trans (List.length_modify _ _ _)

/-- Bucket `i` receives, in order, the elements whose index is `i`. -/
theorem getElem?_bucket (i : Nat) : ∀ (bs : List β) (xs : List γ),
    (bucket idx add bs xs)[i]? = bs[i]?.map fun b => (xs.filter fun x => idx x = i).foldl add b
  | bs, [] => by simp [bucket]
  | bs, x :: xs => by
    show (bucket idx add (bs.modify (fun b => add b x) (idx x)) xs)[i]? = _
    rw [getElem?_bucket i _ xs, List.getElem?_modify]
    by_cases hx : idx x = i <;> cases bs[i]? <;> simp [hx, List.filter_cons]

end Bucket

/-! ## 2. The methods -/

variable {V : Type} [Inhabited V]

/-- `ConcurrentMap`: the shards' items, in slice order. -/
abbrev ConcurrentMap (V : Type) := Shards Int V

/-- `Tuple`: a key and its value. -/
abbrev Tuple (V : Type) := Σ _ : Int, V

/-- `New(initCapacity)`: `shardCount` empty shards. -/
def New (_initCapacity : Int) : ConcurrentMap V := List.replicate shardCount ∅

namespace ConcurrentMap

/-- `Set(key, value)`, returning the old value. -/
def Set (m : ConcurrentMap V) (key : Int) (value : V) : Go (V × ConcurrentMap V) :=
  withShard getShard m key (Shard.Set key value)

/-- `Upsert(key, value, cb)`. -/
def Upsert (m : ConcurrentMap V) (key : Int) (value : V) (cb : Bool → V → V → V) :
    Go (V × ConcurrentMap V) :=
  withShard getShard m key (Shard.Upsert key value cb)

/-- `SetIfAbsent(key, value)`. -/
def SetIfAbsent (m : ConcurrentMap V) (key : Int) (value : V) : Go (Bool × ConcurrentMap V) :=
  withShard getShard m key (Shard.SetIfAbsent key value)

/-- `Get(key)`. -/
def Get (m : ConcurrentMap V) (key : Int) : Go ((V × Bool) × ConcurrentMap V) :=
  withShard getShard m key (Shard.Get key)

/-- `Has(key)`. -/
def Has (m : ConcurrentMap V) (key : Int) : Go (Bool × ConcurrentMap V) :=
  withShard getShard m key (Shard.Has key)

/-- `Remove(key)`. -/
def Remove (m : ConcurrentMap V) (key : Int) : Go (Unit × ConcurrentMap V) :=
  withShard getShard m key (Shard.Remove key)

/-- `RemoveCb(key, cb)`. -/
def RemoveCb (m : ConcurrentMap V) (key : Int) (cb : Int → V → Bool → Bool) :
    Go (Bool × ConcurrentMap V) :=
  withShard getShard m key (Shard.RemoveCb key cb)

/-- `Pop(key)`. -/
def Pop (m : ConcurrentMap V) (key : Int) : Go ((V × Bool) × ConcurrentMap V) :=
  withShard getShard m key (Shard.Pop key)

/-- `Count()`. -/
def Count (m : ConcurrentMap V) : Go Nat := count shardCount m

/-- `IsEmpty()`: `m.Count() == 0`. -/
def IsEmpty (m : ConcurrentMap V) : Go Bool := do
  let c ← Count m
  pure (c == 0)

/-- `for i := 0; i < shardCount; i++ { shard := m[i]; shard.items = g(shard.items) }`:
the loop of `Clear` and `Resize`. -/
def updateShards (g : GoMap Int V → GoMap Int V) (m : ConcurrentMap V) : Go (ConcurrentMap V) :=
  (List.range shardCount).foldlM (fun m i => do
    let shard ← sliceGet m i
    pure (m.set i (g shard))) m

omit [Inhabited V] in
theorem updateShards_eq {m : ConcurrentMap V} (h : m.length = shardCount) (g : GoMap Int V → GoMap Int V) :
    updateShards g m = .ok (m.map g) := by
  rw [updateShards, ← h]
  exact foldlM_range_set g _ (fun s i hi => by
    show (sliceGet s i >>= _) = _
    rw [sliceGet_of_lt hi]
    rfl) m

/-- `Clear()`: each shard's items replaced by a new empty map. -/
def Clear (m : ConcurrentMap V) : Go (ConcurrentMap V) := updateShards (fun _ => ∅) m

/-- `Resize(newCapacity)`: nothing for a negative capacity; otherwise each shard's
items copied into a new map. -/
def Resize (m : ConcurrentMap V) (newCapacity : Int) : Go (ConcurrentMap V) :=
  if newCapacity < 0 then pure m
  else updateShards (fun shard => GoMap.insertAll ∅ shard.entries) m

/-- The body of `MGet`'s loop for shard `p.1` and its group of keys `p.2`: an
empty group is skipped; otherwise its present keys are copied from the shard. -/
def getGroup (m : ConcurrentMap V) (result : GoMap Int V) (p : Nat × List Int) :
    Go (GoMap Int V) :=
  if p.2.length = 0 then pure result
  else do
    let shard ← sliceGet m p.1
    pure (p.2.foldl (GoMap.copyPresent shard) result)

omit [Inhabited V] in
theorem getGroup_eq {m : ConcurrentMap V} (result : GoMap Int V) {i : Nat} (hi : i < m.length)
    (ks : List Int) : getGroup m result (i, ks) = .ok (ks.foldl (GoMap.copyPresent m[i]) result) := by
  unfold getGroup
  split
  · next h0 => obtain rfl : ks = [] := List.eq_nil_of_length_eq_zero h0; rfl
  · rw [sliceGet_of_lt hi]; rfl

/-- `MGet(keys)`: `keys` grouped by shard, then `getGroup` for each group. -/
def MGet (m : ConcurrentMap V) (keys : List Int) : Go (GoMap Int V) :=
  let shardKeys := bucket getShard (fun ks key => ks ++ [key]) (List.replicate shardCount []) keys
  shardKeys.enum.foldlM (getGroup m) ∅

/-- The goroutine `MSet` starts for shard `p.1` and its group `p.2`: it is
handed `m[p.1]`, and writes a non-empty group into it. -/
def setGroup (m : ConcurrentMap V) (p : Nat × GoMap Int V) : Go (ConcurrentMap V) := do
  let shard ← sliceGet m p.1
  if p.2.entries.length = 0 then pure m
  else pure (m.set p.1 (GoMap.insertAll shard p.2.entries))

omit [Inhabited V] in
theorem setGroup_eq {m : ConcurrentMap V} {i : Nat} (hi : i < m.length) (items : GoMap Int V) :
    setGroup m (i, items) = .ok (m.set i (GoMap.insertAll m[i] items.entries)) := by
  unfold setGroup
  rw [sliceGet_of_lt hi]
  show (if items.entries.length = 0 then _ else _) = _
  split
  · next h0 =>
    rw [show items.entries = [] from List.eq_nil_of_length_eq_zero h0]
    exact congrArg _ (set_getElem_self m i hi).symm
  · rfl

/-- `MSet(data)`: `data` grouped by shard; `wg.Add(shardCount)` and a `setGroup`
goroutine per group, each ending in `wg.Done()`; then `wg.Wait()`. -/
def MSet (m : ConcurrentMap V) (data : GoMap Int V) : Go (ConcurrentMap V) := do
  let shardData := bucket (fun e : Tuple V => getShard e.1)
    (fun (items : GoMap Int V) e => items.insert e.1 e.2) (List.replicate shardCount ∅) data.entries
  let m ← shardData.enum.foldlM setGroup m
  waitGroupWait shardCount shardData.length
  pure m

/-- `snapshot(m)`. -/
def snapshot (m : ConcurrentMap V) : Go (List (List (Tuple V))) := fillChans shardCount m

/-- `Iter()`: `fanIn(snapshot(m), ch)`, read to the end. -/
def Iter (m : ConcurrentMap V) : Go (List (Tuple V)) := do
  let chans ← snapshot m
  fanIn chans

/-- `Items()`: every tuple `Iter` yields, written into a new map. -/
def Items (m : ConcurrentMap V) : Go (GoMap Int V) := do
  let items ← Iter m
  pure (GoMap.insertAll ∅ items)

/-- `Keys()`. -/
def Keys (m : ConcurrentMap V) : Go (List Int) := keys shardCount m

end ConcurrentMap

/-! ## 3. Runs of methods, and the map they are for -/

/-- A call of one of the methods, with its arguments. -/
inductive Op (V : Type) where
  | Set (key : Int) (value : V)
  | Get (key : Int)
  | Has (key : Int)
  | Remove (key : Int)
  | Pop (key : Int)
  | SetIfAbsent (key : Int) (value : V)
  | Upsert (key : Int) (value : V) (cb : Bool → V → V → V)
  | RemoveCb (key : Int) (cb : Int → V → Bool → Bool)
  | MSet (data : GoMap Int V)
  | MGet (keys : List Int)
  | Count
  | IsEmpty
  | Clear
  | Resize (newCapacity : Int)
  | Iter
  | Items
  | Keys

open ConcurrentMap in
/-- One call on the shards. -/
def step (m : ConcurrentMap V) : Op V → Go (Ret Int V × ConcurrentMap V)
  | .Set key value => withRet .value (Set m key value)
  | .Get key => withRet (fun r => .found r.1 r.2) (Get m key)
  | .Has key => withRet .bool (Has m key)
  | .Remove key => withRet (fun _ => .none) (Remove m key)
  | .Pop key => withRet (fun r => .found r.1 r.2) (Pop m key)
  | .SetIfAbsent key value => withRet .bool (SetIfAbsent m key value)
  | .Upsert key value cb => withRet .value (Upsert m key value cb)
  | .RemoveCb key cb => withRet .bool (RemoveCb m key cb)
  | .MSet data => do let m ← MSet m data; pure (.none, m)
  | .MGet keys => do let r ← MGet m keys; pure (.map r, m)
  | .Count => do let c ← Count m; pure (.count c, m)
  | .IsEmpty => do let b ← IsEmpty m; pure (.bool b, m)
  | .Clear => do let m ← Clear m; pure (.none, m)
  | .Resize newCapacity => do let m ← Resize m newCapacity; pure (.none, m)
  | .Iter => do let ts ← Iter m; pure (.tuples ts, m)
  | .Items => do let r ← Items m; pure (.map r, m)
  | .Keys => do let ks ← Keys m; pure (.keys ks, m)

/-- The same call on one finite map from keys to values. -/
def spec (A : GoMap Int V) : Op V → Ret Int V × GoMap Int V
  | .Set key value => applyRet A key (Entry.Set value) .value
  | .Get key => applyRet A key Entry.Get fun r => .found r.1 r.2
  | .Has key => applyRet A key Entry.Has .bool
  | .Remove key => applyRet A key Entry.Remove fun _ => .none
  | .Pop key => applyRet A key Entry.Pop fun r => .found r.1 r.2
  | .SetIfAbsent key value => applyRet A key (Entry.SetIfAbsent value) .bool
  | .Upsert key value cb => applyRet A key (Entry.Upsert value cb) .value
  | .RemoveCb key cb => applyRet A key (Entry.RemoveCb key cb) .bool
  | .MSet data => (.none, GoMap.insertAll A data.entries)
  | .MGet keys => (.map (GoMap.restrict A keys), A)
  | .Count => (.count A.keys.length, A)
  | .IsEmpty => (.bool A.keys.isEmpty, A)
  | .Clear => (.none, ∅)
  | .Resize _ => (.none, A)
  | .Iter => (.tuples A.entries, A)
  | .Items => (.map A, A)
  | .Keys => (.keys A.keys, A)

/-! ## 4. Each method refines its abstract counterpart -/

section Refinement

variable {m : ConcurrentMap V} {A : GoMap Int V} (hR : Refines getShard shardCount m A)
include hR

omit [Inhabited V] in
/-- `MGet` returns `A` restricted to the requested keys: its inline grouping
sends each key to the shard `getShard` placed it in, and the loop over the
groups adds shard after shard. -/
theorem MGet_refines (keys : List Int) :
    ∃ r, ConcurrentMap.MGet m keys = .ok r ∧ ∀ k, r.lookup k = (GoMap.restrict A keys).lookup k := by
  have hm : m.length = shardCount := hR.length_eq
  let shardKeys := bucket getShard (fun ks key => ks ++ [key]) (List.replicate shardCount []) keys
  have hlen : shardKeys.length = shardCount := by simp [shardKeys, length_bucket]
  have hmem : ∀ i (hi : i < shardKeys.length) k, k ∈ shardKeys[i] ↔ k ∈ keys ∧ getShard k = i := by
    intro i hi k
    have h := getElem?_bucket getShard (fun ks key => ks ++ [key]) i (List.replicate shardCount []) keys
    rw [List.getElem?_eq_getElem hi, List.getElem?_replicate, if_pos (hlen ▸ hi)] at h
    simp only [Option.map_some', Option.some.injEq] at h
    rw [h, foldl_append_singleton]
    simp
  obtain ⟨r, hr, hP⟩ := foldlM_enum_invariant _
    (fun i (r : GoMap Int V) => ∀ k, r.lookup k = if k ∈ keys ∧ getShard k < i then A.lookup k else none)
    shardKeys (fun i hi r hP => by
      have hi' : i < m.length := by omega
      refine ⟨_, ConcurrentMap.getGroup_eq r hi' _, fun k => ?_⟩
      rw [GoMap.lookup_foldl_copyPresent, hP k]
      by_cases hk : k ∈ keys ∧ getShard k = i
      · rw [if_pos ((hmem i hi k).mpr hk), if_neg (by omega), if_pos ⟨hk.1, by omega⟩,
          Option.or_none, hR.lookup_shard hi' hk.2]
      · have hiff : (k ∈ keys ∧ getShard k < i + 1) ↔ (k ∈ keys ∧ getShard k < i) := by
          refine ⟨fun ⟨h₁, h₂⟩ => ⟨h₁, ?_⟩, fun ⟨h₁, h₂⟩ => ⟨h₁, by omega⟩⟩
          have hne : getShard k ≠ i := fun he => hk ⟨h₁, he⟩
          omega
        rw [if_neg (mt (hmem i hi k).mp hk)]
        simp only [hiff])
    ∅ (fun k => by simp [AList.lookup_empty])
  refine ⟨r, hr, fun k => ?_⟩
  rw [hP k, GoMap.lookup_restrict, hlen]
  simp [getShard_lt]

omit [Inhabited V] in
/-- `MSet` writes `data` over `A`: group `i` holds exactly the entries of `data`
whose keys `getShard` places in shard `i`, and its goroutine writes them there. -/
theorem MSet_refines (data : GoMap Int V) :
    ∃ m', ConcurrentMap.MSet m data = .ok m' ∧
      Refines getShard shardCount m' (GoMap.insertAll A data.entries) := by
  have hm : m.length = shardCount := hR.length_eq
  let shardData := bucket (fun e : Tuple V => getShard e.1)
    (fun (items : GoMap Int V) e => items.insert e.1 e.2) (List.replicate shardCount ∅) data.entries
  have hlen : shardData.length = shardCount := by simp [shardData, length_bucket]
  have hgroup : ∀ i (hi : i < shardData.length) k,
      shardData[i].lookup k = if getShard k = i then data.lookup k else none := by
    intro i hi k
    have h := getElem?_bucket (fun e : Tuple V => getShard e.1)
      (fun (items : GoMap Int V) e => items.insert e.1 e.2) i (List.replicate shardCount ∅)
      data.entries
    rw [List.getElem?_eq_getElem hi, List.getElem?_replicate, if_pos (hlen ▸ hi)] at h
    simp only [Option.map_some', Option.some.injEq] at h
    rw [h]
    show (GoMap.insertAll ∅ _).lookup k = _
    rw [GoMap.lookup_insertAll k _ (data.nodupKeys.sublist (List.filter_sublist _)),
      AList.lookup_empty, Option.or_none]
    simpa using GoMap.dlookup_filter data (fun k => getShard k = i) k
  let g := fun (shard items : GoMap Int V) => GoMap.insertAll shard items.entries
  have hlookup : ∀ shard items k, (g shard items).lookup k = (items.lookup k).or (shard.lookup k) :=
    fun shard items k => GoMap.lookup_insertAll k shard items.nodupKeys
  refine ⟨List.zipWith g m shardData, ?_, ⟨by simp [hm, hlen], fun i s hs k hk => ?_, fun k => ?_⟩⟩
  · show (do
      let m ← shardData.enum.foldlM ConcurrentMap.setGroup m
      waitGroupWait shardCount shardData.length
      pure m) = _
    rw [foldlM_enum_set g _ (fun s i b hi => ConcurrentMap.setGroup_eq hi b) m shardData
      (hlen.trans hm.symm), hlen]
    rfl
  · obtain ⟨x, y, hx, hy, rfl⟩ := List.getElem?_zipWith_eq_some.mp hs
    obtain ⟨hi, rfl⟩ := List.getElem?_eq_some_iff.mp hy
    by_cases hki : getShard k = i
    · exact hki
    · rw [← AList.lookup_isSome, hlookup, hgroup i hi k, if_neg hki, Option.none_or,
        AList.lookup_isSome] at hk
      exact hR.placed i x hx k hk
  · have hk : getShard k < m.length := hm ▸ getShard_lt k
    have hk' : getShard k < shardData.length := hlen ▸ getShard_lt k
    rw [Sharded.lookup, List.getElem?_zipWith_eq_some.mpr ⟨_, _, List.getElem?_eq_getElem hk,
      List.getElem?_eq_getElem hk', rfl⟩, Option.some_bind, hlookup, hgroup _ hk' k, if_pos rfl,
      hR.lookup_shard hk rfl]
    exact (GoMap.lookup_insertAll k A data.nodupKeys).symm

omit [Inhabited V] in
/-- `Clear` empties the map. -/
theorem Clear_refines : ∃ m', ConcurrentMap.Clear m = .ok m' ∧ Refines getShard shardCount m' ∅ :=
  ⟨_, ConcurrentMap.updateShards_eq hR.length_eq _, by
    rw [List.map_const', hR.length_eq]
    exact Refines.empty shardCount⟩

omit [Inhabited V] in
/-- `Resize` copies each shard into a new map and so keeps the contents. -/
theorem Resize_refines (newCapacity : Int) :
    ∃ m', ConcurrentMap.Resize m newCapacity = .ok m' ∧ Refines getShard shardCount m' A := by
  unfold ConcurrentMap.Resize
  split
  · exact ⟨m, rfl, hR⟩
  · refine ⟨_, ConcurrentMap.updateShards_eq hR.length_eq _, hR.map _ fun s k => ?_⟩
    rw [GoMap.lookup_insertAll k _ s.nodupKeys, AList.lookup_empty, Option.or_none]
    rfl

omit [Inhabited V] in
/-- `Iter` yields each entry of `A` once. -/
theorem Iter_refines : ∃ ts, ConcurrentMap.Iter m = .ok ts ∧ ts.Perm A.entries := by
  refine ⟨_, ?_, hR.entries_perm⟩
  rw [ConcurrentMap.Iter, ConcurrentMap.snapshot, fillChans_eq hR.length_eq]
  exact fanIn_eq _

omit [Inhabited V] in
/-- `Items` is `A` as a map. -/
theorem Items_refines : ∃ r, ConcurrentMap.Items m = .ok r ∧ ∀ k, r.lookup k = A.lookup k := by
  refine ⟨_, ?_, hR.lookup_insertAll⟩
  rw [ConcurrentMap.Items, ConcurrentMap.Iter, ConcurrentMap.snapshot, fillChans_eq hR.length_eq]
  show (fanIn _ >>= _) = _
  rw [fanIn_eq]
  rfl

/-- **Every method refines its abstract counterpart**, from any shards that
store a map. -/
theorem step_refines (op : Op V) :
    ∃ r m', step m op = .ok (r, m') ∧ r.Agree (spec A op).1 ∧
      Refines getShard shardCount m' (spec A op).2 := by
  cases op with
  | Set key value => exact withRet_refines getShard_lt hR (Set_local key value) _
  | Get key => exact withRet_refines getShard_lt hR (Get_local key) fun r => .found r.1 r.2
  | Has key => exact withRet_refines getShard_lt hR (Has_local key) _
  | Remove key => exact withRet_refines getShard_lt hR (Remove_local key) fun _ => .none
  | Pop key => exact withRet_refines getShard_lt hR (Pop_local key) fun r => .found r.1 r.2
  | SetIfAbsent key value => exact withRet_refines getShard_lt hR (SetIfAbsent_local key value) _
  | Upsert key value cb => exact withRet_refines getShard_lt hR (Upsert_local key value cb) _
  | RemoveCb key cb => exact withRet_refines getShard_lt hR (RemoveCb_local key cb) _
  | MSet data =>
    obtain ⟨m', h, hR'⟩ := MSet_refines hR data
    exact ⟨.none, m', by simp only [step, h]; rfl, rfl, hR'⟩
  | MGet keys =>
    obtain ⟨r, h, hr⟩ := MGet_refines hR keys
    exact ⟨.map r, m, by simp only [step, h]; rfl, hr, hR⟩
  | Count =>
    exact ⟨.count A.entries.length, m, by simp only [step, ConcurrentMap.Count, hR.count]; rfl,
      by show Ret.count _ = Ret.count _; simp [AList.keys, List.keys], hR⟩
  | IsEmpty =>
    refine ⟨.bool (A.entries.length == 0), m, ?_, ?_, hR⟩
    · simp only [step, ConcurrentMap.IsEmpty, ConcurrentMap.Count, hR.count]; rfl
    · show Ret.bool _ = Ret.bool _
      cases h : A.entries <;> simp [AList.keys, List.keys, h]
  | Clear =>
    obtain ⟨m', h, hR'⟩ := Clear_refines hR
    exact ⟨.none, m', by simp only [step, h]; rfl, rfl, hR'⟩
  | Resize newCapacity =>
    obtain ⟨m', h, hR'⟩ := Resize_refines hR newCapacity
    exact ⟨.none, m', by simp only [step, h]; rfl, rfl, hR'⟩
  | Iter =>
    obtain ⟨ts, h, hts⟩ := Iter_refines hR
    exact ⟨.tuples ts, m, by simp only [step, h]; rfl, hts, hR⟩
  | Items =>
    obtain ⟨r, h, hr⟩ := Items_refines hR
    exact ⟨.map r, m, by simp only [step, h]; rfl, hr, hR⟩
  | Keys =>
    obtain ⟨ks, h, hks⟩ := hR.keys
    exact ⟨.keys ks, m, by simp only [step, ConcurrentMap.Keys, h]; rfl, hks, hR⟩

end Refinement

/-- **`i64map` is one finite map.** From `New(initCapacity)`, every sequence of
method calls made one after another runs without a fault; each result agrees
with the same call's on one abstract map (maps as maps, `Keys` and `Iter` up to
order), and the shards store, each key in shard `fnv32(key) % 32`, the map the
abstract calls leave. -/
theorem New_run_refines (initCapacity : Int) (ops : List (Op V)) :
    ∃ rets m, run step (New initCapacity) ops = .ok (rets, m) ∧
      List.Forall₂ Ret.Agree rets (runSpec spec ∅ ops).1 ∧
      Refines getShard shardCount m (runSpec spec ∅ ops).2 :=
  run_refines (fun _ _ op hR => step_refines hR op) ops _ ∅ (Refines.empty shardCount)

end VulcanPkgTool.i64map
