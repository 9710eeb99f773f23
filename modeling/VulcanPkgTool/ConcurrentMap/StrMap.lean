import VulcanPkgTool.ConcurrentMap.Refinement

/-!
`concurrentmap/strmap`: a concurrent map from string keys, in
`defaultShardCount = 32` shards unless `NewWithOptions` asks for another count.

A key lives in shard `uint(fnv32(key)) % defaultShardCount` (`getShard`),
`fnv32` being FNV-1a over the key's bytes. Unlike `i64map`, the batch methods
go through the single-key ones: `MSet` starts a goroutine per entry that calls
`Set`, `MGet` one per key that calls `Get`. `Clear` starts one goroutine per
shard. `Count` reads `m[i]` for `i < defaultShardCount`; `snapshot` starts a
goroutine per shard that sets `chans[index]` in a slice of
`defaultShardCount` channels, after `wg.Add(defaultShardCount)`; `Keys` does
`wg.Add(defaultShardCount)` and starts one goroutine per shard.

From `New()` the shards are `defaultShardCount`, and every run of methods acts
on one finite map (`New_run_matches_spec`), as in `i64map`. The shard count is
written into the code's constants, not read from `len(m)`, so the maps
`NewWithOptions` builds with another count are not that map: with fewer shards,
`Count` reads past the last one, a key whose index is past it panics in every
single-key method, and `snapshot` waits for `Done` calls that never come; with
more, `snapshot`'s goroutine for shard 32 writes `chans[32]`, and `Keys` calls
`Done` more often than it added (`Count_of_lt`, `withShard_of_le`,
`Iter_of_lt`, `Keys_of_gt`, `Iter_of_gt`). From 32 shards on, the keys all lie
in the first 32, and every method but the three that enumerate the shards
still acts on one finite map (`NewWithOptions_run_refines`).

A panic in a goroutine ends the program; here it ends the method. `MarshalJSON`
is not modelled.
-/

set_option autoImplicit false

namespace VulcanPkgTool.strmap

open Sharded

/-! ## 1. Shard placement -/

/-- `defaultShardCount`. -/
def defaultShardCount : Nat := 32

/-- `fnv32(key)`: FNV-1a over the bytes of `key`. -/
def fnv32 (key : GoString) : UInt32 := Fnv.sum32a key

/-- The index `getShard` reads, `uint(fnv32(key)) % uint(defaultShardCount)`. -/
def getShard (key : GoString) : Nat := (fnv32 key).toNat % defaultShardCount

theorem getShard_lt (key : GoString) : getShard key < defaultShardCount := Nat.mod_lt _ (by decide)

/-! ## 2. The methods -/

variable {V : Type} [Inhabited V]

/-- `ConcurrentMap`: the shards' items, in slice order. -/
abbrev ConcurrentMap (V : Type) := Shards GoString V

/-- `Tuple`: a key and its value. -/
abbrev Tuple (V : Type) := Σ _ : GoString, V

/-- `Options`. -/
structure Options where
  ShardCount : Int

/-- `NewWithOptions(opts)`: `opts.ShardCount` empty shards if it is positive,
else `defaultShardCount`. -/
def NewWithOptions (opts : Options) : ConcurrentMap V :=
  List.replicate (if opts.ShardCount > 0 then opts.ShardCount.toNat else defaultShardCount) ∅

/-- `New()`: `defaultShardCount` empty shards. -/
def New : ConcurrentMap V := List.replicate defaultShardCount ∅

namespace ConcurrentMap

/-- `Set(key, value)`. -/
def Set (m : ConcurrentMap V) (key : GoString) (value : V) : Go (Unit × ConcurrentMap V) :=
  withShard getShard m key (Shard.Store key value)

/-- `GetOrSet(key, value)`. -/
def GetOrSet (m : ConcurrentMap V) (key : GoString) (value : V) : Go (V × ConcurrentMap V) :=
  withShard getShard m key (Shard.GetOrSet key value)

/-- `Upsert(key, value, cb)`. -/
def Upsert (m : ConcurrentMap V) (key : GoString) (value : V) (cb : Bool → V → V → V) :
    Go (V × ConcurrentMap V) :=
  withShard getShard m key (Shard.Upsert key value cb)

/-- `SetIfAbsent(key, value)`. -/
def SetIfAbsent (m : ConcurrentMap V) (key : GoString) (value : V) :
    Go (Bool × ConcurrentMap V) :=
  withShard getShard m key (Shard.SetIfAbsent key value)

/-- `Get(key)`. -/
def Get (m : ConcurrentMap V) (key : GoString) : Go ((V × Bool) × ConcurrentMap V) :=
  withShard getShard m key (Shard.Get key)

/-- `Has(key)`. -/
def Has (m : ConcurrentMap V) (key : GoString) : Go (Bool × ConcurrentMap V) :=
  withShard getShard m key (Shard.Has key)

/-- `Remove(key)`. -/
def Remove (m : ConcurrentMap V) (key : GoString) : Go (Unit × ConcurrentMap V) :=
  withShard getShard m key (Shard.Remove key)

/-- `RemoveCb(key, cb)`. -/
def RemoveCb (m : ConcurrentMap V) (key : GoString) (cb : GoString → V → Bool → Bool) :
    Go (Bool × ConcurrentMap V) :=
  withShard getShard m key (Shard.RemoveCb key cb)

/-- `Pop(key)`. -/
def Pop (m : ConcurrentMap V) (key : GoString) : Go ((V × Bool) × ConcurrentMap V) :=
  withShard getShard m key (Shard.Pop key)

/-- `MSet(data)`: for each entry `wg.Add(1)` and a goroutine that calls
`m.Set(key, value)` and `wg.Done()`; then `wg.Wait()`. -/
def MSet (m : ConcurrentMap V) (data : GoMap GoString V) : Go (ConcurrentMap V) := do
  let m ← data.entries.foldlM (fun m e => do
    let (_, m) ← Set m e.1 e.2
    pure m) m
  waitGroupWait data.entries.length data.entries.length
  pure m

/-- `MGet(keys)`: for each key `wg.Add(1)` and a goroutine that calls
`m.Get(key)` and, if the key is present, writes it into `result` under
`mutex`; then `wg.Wait()`. -/
def MGet (m : ConcurrentMap V) (keys : List GoString) : Go (GoMap GoString V) := do
  let result ← keys.foldlM (fun result key => do
    let ((val, ok), _) ← Get m key
    pure (if ok then result.insert key val else result)) ∅
  waitGroupWait keys.length keys.length
  pure result

/-- `Clear()`: `wg.Add(len(m))` and one goroutine per shard that gives it new
empty items and calls `wg.Done()`; then `wg.Wait()`. -/
def Clear (m : ConcurrentMap V) : Go (ConcurrentMap V) := do
  let m' := m.map fun _ => ∅
  waitGroupWait m.length m.length
  pure m'

/-- `Count()`. -/
def Count (m : ConcurrentMap V) : Go Nat := count defaultShardCount m

/-- `IsEmpty()`: `m.Count() == 0`. -/
def IsEmpty (m : ConcurrentMap V) : Go Bool := do
  let c ← Count m
  pure (c == 0)

/-- `snapshot(m)`: `wg.Add(defaultShardCount)`, one goroutine per shard that
makes and fills `chans[index]` and calls `wg.Done()`, then `wg.Wait()`. -/
def snapshot (m : ConcurrentMap V) : Go (List (List (Tuple V))) := do
  let chans ← fillChans defaultShardCount m
  waitGroupWait defaultShardCount m.length
  pure chans

/-- `Iter()`: `fanIn(snapshot(m), ch)`, read to the end. -/
def Iter (m : ConcurrentMap V) : Go (List (Tuple V)) := do
  let chans ← snapshot m
  fanIn chans

/-- `Items()`: every tuple `Iter` yields, written into a new map. -/
def Items (m : ConcurrentMap V) : Go (GoMap GoString V) := do
  let items ← Iter m
  pure (GoMap.insertAll ∅ items)

/-- `Keys()`. -/
def Keys (m : ConcurrentMap V) : Go (List GoString) := keys defaultShardCount m

end ConcurrentMap

/-! ## 3. Runs of methods, and the map they are for -/

/-- A call of one of the methods, with its arguments. -/
inductive Op (V : Type) where
  | Set (key : GoString) (value : V)
  | Get (key : GoString)
  | Has (key : GoString)
  | Remove (key : GoString)
  | Pop (key : GoString)
  | GetOrSet (key : GoString) (value : V)
  | SetIfAbsent (key : GoString) (value : V)
  | Upsert (key : GoString) (value : V) (cb : Bool → V → V → V)
  | RemoveCb (key : GoString) (cb : GoString → V → Bool → Bool)
  | MSet (data : GoMap GoString V)
  | MGet (keys : List GoString)
  | Count
  | IsEmpty
  | Clear
  | Iter
  | Items
  | Keys

/-- The calls that enumerate the shards, through `snapshot` or `Keys`. -/
def Op.enumerates : Op V → Bool
  | .Iter | .Items | .Keys => true
  | _ => false

open ConcurrentMap in
/-- One call on the shards. -/
def step (m : ConcurrentMap V) : Op V → Go (Ret GoString V × ConcurrentMap V)
  | .Set key value => withRet (fun _ => .none) (Set m key value)
  | .Get key => withRet (fun r => .found r.1 r.2) (Get m key)
  | .Has key => withRet .bool (Has m key)
  | .Remove key => withRet (fun _ => .none) (Remove m key)
  | .Pop key => withRet (fun r => .found r.1 r.2) (Pop m key)
  | .GetOrSet key value => withRet .value (GetOrSet m key value)
  | .SetIfAbsent key value => withRet .bool (SetIfAbsent m key value)
  | .Upsert key value cb => withRet .value (Upsert m key value cb)
  | .RemoveCb key cb => withRet .bool (RemoveCb m key cb)
  | .MSet data => do let m ← MSet m data; pure (.none, m)
  | .MGet keys => do let r ← MGet m keys; pure (.map r, m)
  | .Count => do let c ← Count m; pure (.count c, m)
  | .IsEmpty => do let b ← IsEmpty m; pure (.bool b, m)
  | .Clear => do let m ← Clear m; pure (.none, m)
  | .Iter => do let ts ← Iter m; pure (.tuples ts, m)
  | .Items => do let r ← Items m; pure (.map r, m)
  | .Keys => do let ks ← Keys m; pure (.keys ks, m)

/-- The same call on one finite map from keys to values. -/
def spec (A : GoMap GoString V) : Op V → Ret GoString V × GoMap GoString V
  | .Set key value => applyRet A key (Entry.Store value) fun _ => .none
  | .Get key => applyRet A key Entry.Get fun r => .found r.1 r.2
  | .Has key => applyRet A key Entry.Has .bool
  | .Remove key => applyRet A key Entry.Remove fun _ => .none
  | .Pop key => applyRet A key Entry.Pop fun r => .found r.1 r.2
  | .GetOrSet key value => applyRet A key (Entry.GetOrSet value) .value
  | .SetIfAbsent key value => applyRet A key (Entry.SetIfAbsent value) .bool
  | .Upsert key value cb => applyRet A key (Entry.Upsert value cb) .value
  | .RemoveCb key cb => applyRet A key (Entry.RemoveCb key cb) .bool
  | .MSet data => (.none, GoMap.insertAll A data.entries)
  | .MGet keys => (.map (GoMap.restrict A keys), A)
  | .Count => (.count A.keys.length, A)
  | .IsEmpty => (.bool A.keys.isEmpty, A)
  | .Clear => (.none, ∅)
  | .Iter => (.tuples A.entries, A)
  | .Items => (.map A, A)
  | .Keys => (.keys A.keys, A)

/-! ## 4. From `New()`, each method refines its abstract counterpart -/

section Refinement

variable {n : Nat} {m : ConcurrentMap V} {A : GoMap GoString V}

/-- From 32 shards on, every key's index is a shard. -/
theorem getShard_lt_of_le (hn : defaultShardCount ≤ n) (key : GoString) : getShard key < n :=
  Nat.lt_of_lt_of_le (getShard_lt key) hn

omit [Inhabited V] in
/-- The goroutines of `MSet`, one `Set` after another, write `data` over `A`. -/
theorem foldlM_Set_refines (hn : defaultShardCount ≤ n) :
    ∀ (es : List (Tuple V)) (m : ConcurrentMap V) (A : GoMap GoString V), Refines getShard n m A →
    ∃ m', es.foldlM (fun m e => do let (_, m) ← ConcurrentMap.Set m e.1 e.2; pure m) m = .ok m' ∧
      Refines getShard n m' (GoMap.insertAll A es)
  | [], m, _, hR => ⟨m, rfl, hR⟩
  | e :: es, m, A, hR => by
    obtain ⟨m₁, h₁, hR₁⟩ := withShard_refines (getShard_lt_of_le hn) hR (Store_local e.1 e.2)
    obtain ⟨m₂, h₂, hR₂⟩ := foldlM_Set_refines hn es m₁ _ hR₁
    refine ⟨m₂, ?_, hR₂⟩
    rw [List.foldlM_cons]
    show (ConcurrentMap.Set m e.1 e.2 >>= _) >>= _ = _
    rw [ConcurrentMap.Set, h₁]
    exact h₂

/-- The goroutines of `MGet`, one `Get` after another, copy the present keys. -/
theorem foldlM_Get_eq (hn : defaultShardCount ≤ n) (hR : Refines getShard n m A) :
    ∀ (keys : List GoString) (result : GoMap GoString V),
    keys.foldlM (fun result key => do
      let ((val, ok), _) ← ConcurrentMap.Get m key
      pure (if ok then result.insert key val else result)) result =
      .ok (keys.foldl (GoMap.copyPresent A) result)
  | [], _ => rfl
  | key :: keys, result => by
    obtain ⟨m₁, h₁, -⟩ := withShard_refines (getShard_lt_of_le hn) hR (Get_local key)
    rw [List.foldlM_cons]
    show (ConcurrentMap.Get m key >>= _) >>= _ = _
    rw [ConcurrentMap.Get, h₁]
    show List.foldlM _ (if (A.lookup key).isSome then
      result.insert key ((A.lookup key).getD default) else result) keys = _
    rw [show (if (A.lookup key).isSome then result.insert key ((A.lookup key).getD default)
        else result) = GoMap.copyPresent A result key by
      unfold GoMap.copyPresent; cases A.lookup key <;> rfl]
    exact foldlM_Get_eq hn hR keys _

omit [Inhabited V] in
/-- With exactly 32 shards, `Iter` yields the shards' entries, shard after shard. -/
theorem Iter_eq (hR : Refines getShard defaultShardCount m A) :
    ConcurrentMap.Iter m = .ok (m.map AList.entries).flatten := by
  rw [ConcurrentMap.Iter, ConcurrentMap.snapshot, fillChans_eq hR.length_eq]
  simp only [hR.length_eq, waitGroupWait, if_pos]
  exact fanIn_eq _

omit [Inhabited V] in
theorem Iter_refines (hR : Refines getShard defaultShardCount m A) :
    ∃ ts, ConcurrentMap.Iter m = .ok ts ∧ ts.Perm A.entries :=
  ⟨_, Iter_eq hR, hR.entries_perm⟩

omit [Inhabited V] in
theorem Items_refines (hR : Refines getShard defaultShardCount m A) :
    ∃ r, ConcurrentMap.Items m = .ok r ∧ ∀ k, r.lookup k = A.lookup k := by
  refine ⟨_, ?_, hR.lookup_insertAll⟩
  rw [ConcurrentMap.Items, Iter_eq hR]
  rfl

variable (hn : defaultShardCount ≤ n) (hR : Refines getShard n m A)
include hn hR

omit [Inhabited V] in
/-- `MSet` writes `data` over `A`. -/
theorem MSet_refines (data : GoMap GoString V) :
    ∃ m', ConcurrentMap.MSet m data = .ok m' ∧ Refines getShard n m' (GoMap.insertAll A data.entries) := by
  obtain ⟨m', h, hR'⟩ := foldlM_Set_refines hn data.entries m A hR
  refine ⟨m', ?_, hR'⟩
  rw [ConcurrentMap.MSet, h]
  simp [waitGroupWait]

/-- `MGet` returns `A` restricted to the requested keys. -/
theorem MGet_refines (keys : List GoString) :
    ∃ r, ConcurrentMap.MGet m keys = .ok r ∧ ∀ k, r.lookup k = (GoMap.restrict A keys).lookup k := by
  refine ⟨keys.foldl (GoMap.copyPresent A) ∅, ?_, fun k => ?_⟩
  · rw [ConcurrentMap.MGet, foldlM_Get_eq hn hR]
    simp [waitGroupWait]
  · rw [GoMap.lookup_foldl_copyPresent, GoMap.lookup_restrict, AList.lookup_empty, Option.or_none]

omit [Inhabited V] hn in
/-- `Clear` empties the map. -/
theorem Clear_refines : ∃ m', ConcurrentMap.Clear m = .ok m' ∧ Refines getShard n m' ∅ := by
  refine ⟨_, by simp [ConcurrentMap.Clear, waitGroupWait]; rfl, ?_⟩
  rw [hR.length_eq]
  exact Refines.empty n

omit [Inhabited V] in
/-- `Count` reads the first 32 shards, and the keys are all there. -/
theorem Count_eq : ConcurrentMap.Count m = .ok A.entries.length :=
  hR.count_of_le hn getShard_lt

/-- **Every method refines its abstract counterpart**, from any shards that
store a map, 32 of them or more; those that enumerate the shards need exactly
32. -/
theorem step_refines (op : Op V) (hop : n = defaultShardCount ∨ op.enumerates = false) :
    ∃ r m', step m op = .ok (r, m') ∧ r.Agree (spec A op).1 ∧ Refines getShard n m' (spec A op).2 := by
  have hlt := getShard_lt_of_le hn
  cases op with
  | Set key value => exact withRet_refines hlt hR (Store_local key value) fun _ => .none
  | Get key => exact withRet_refines hlt hR (Get_local key) fun r => .found r.1 r.2
  | Has key => exact withRet_refines hlt hR (Has_local key) _
  | Remove key => exact withRet_refines hlt hR (Remove_local key) fun _ => .none
  | Pop key => exact withRet_refines hlt hR (Pop_local key) fun r => .found r.1 r.2
  | GetOrSet key value => exact withRet_refines hlt hR (GetOrSet_local key value) _
  | SetIfAbsent key value => exact withRet_refines hlt hR (SetIfAbsent_local key value) _
  | Upsert key value cb => exact withRet_refines hlt hR (Upsert_local key value cb) _
  | RemoveCb key cb => exact withRet_refines hlt hR (RemoveCb_local key cb) _
  | MSet data =>
    obtain ⟨m', h, hR'⟩ := MSet_refines hn hR data
    exact ⟨.none, m', by simp only [step, h]; rfl, rfl, hR'⟩
  | MGet keys =>
    obtain ⟨r, h, hr⟩ := MGet_refines hn hR keys
    exact ⟨.map r, m, by simp only [step, h]; rfl, hr, hR⟩
  | Count =>
    exact ⟨.count A.entries.length, m, by simp only [step, Count_eq hn hR]; rfl,
      by show Ret.count _ = Ret.count _; simp [AList.keys, List.keys], hR⟩
  | IsEmpty =>
    refine ⟨.bool (A.entries.length == 0), m, ?_, ?_, hR⟩
    · simp only [step, ConcurrentMap.IsEmpty, Count_eq hn hR]; rfl
    · show Ret.bool _ = Ret.bool _
      cases h : A.entries <;> simp [AList.keys, List.keys, h]
  | Clear =>
    obtain ⟨m', h, hR'⟩ := Clear_refines hR
    exact ⟨.none, m', by simp only [step, h]; rfl, rfl, hR'⟩
  | Iter =>
    obtain rfl := hop.resolve_right (by simp [Op.enumerates])
    obtain ⟨ts, h, hts⟩ := Iter_refines hR
    exact ⟨.tuples ts, m, by simp only [step, h]; rfl, hts, hR⟩
  | Items =>
    obtain rfl := hop.resolve_right (by simp [Op.enumerates])
    obtain ⟨r, h, hr⟩ := Items_refines hR
    exact ⟨.map r, m, by simp only [step, h]; rfl, hr, hR⟩
  | Keys =>
    obtain rfl := hop.resolve_right (by simp [Op.enumerates])
    obtain ⟨ks, h, hks⟩ := hR.keys
    exact ⟨.keys ks, m, by simp only [step, ConcurrentMap.Keys, h]; rfl, hks, hR⟩

end Refinement

/-- **`strmap` from `New()` is one finite map.** Every sequence of method calls
made one after another runs without a fault; each result agrees with the same
call's on one abstract map (maps as maps, `Keys` and `Iter` up to order), and
the shards store, each key in shard `fnv32(key) % 32`, the map the abstract
calls leave. -/
theorem New_run_matches_spec (ops : List (Op V)) :
    ∃ rets m, run step New ops = .ok (rets, m) ∧
      List.Forall₂ Ret.Agree rets (runSpec spec ∅ ops).1 ∧
      Refines getShard defaultShardCount m (runSpec spec ∅ ops).2 :=
  run_refines (fun _ _ op hR => step_refines le_rfl hR op (.inl rfl)) ops _ ∅
    (Refines.empty defaultShardCount)

/-! ## 5. `NewWithOptions` with another shard count -/

section Options

omit [Inhabited V] in
theorem NewWithOptions_of_pos {n : Int} (h : 0 < n) :
    (NewWithOptions ⟨n⟩ : ConcurrentMap V) = List.replicate n.toNat ∅ := by
  simp [NewWithOptions, h]

omit [Inhabited V] in
theorem length_NewWithOptions {n : Int} (h : 0 < n) :
    (NewWithOptions ⟨n⟩ : ConcurrentMap V).length = n.toNat := by
  rw [NewWithOptions_of_pos h, List.length_replicate]

omit [Inhabited V] in
/-- With fewer than 32 shards, `Count` reads `m[len(m)]`. -/
theorem Count_of_lt {n : Int} (h0 : 0 < n) (h : n < 32) :
    ConcurrentMap.Count (NewWithOptions ⟨n⟩ : ConcurrentMap V) = throw indexOutOfRange :=
  count_of_lt (by rw [length_NewWithOptions h0]; unfold defaultShardCount; omega)

omit [Inhabited V] in
/-- With fewer than 32 shards, `snapshot` waits for 32 calls of `wg.Done()` and
only `len(m)` come: `Iter`, and `Items` after it, never return. -/
theorem Iter_of_lt {n : Int} (h0 : 0 < n) (h : n < 32) :
    ConcurrentMap.Iter (NewWithOptions ⟨n⟩ : ConcurrentMap V) = throw .hang := by
  have hlen := length_NewWithOptions (V := V) h0
  obtain ⟨chans, hc⟩ : ∃ chans, fillChans defaultShardCount (NewWithOptions ⟨n⟩ : ConcurrentMap V) =
      .ok chans := fillChans_ok (by rw [hlen]; unfold defaultShardCount; omega)
  rw [ConcurrentMap.Iter, ConcurrentMap.snapshot, hc]
  show (waitGroupWait defaultShardCount _ >>= _) >>= _ = _
  rw [waitGroupWait, hlen, if_neg (by unfold defaultShardCount; omega),
    if_pos (by unfold defaultShardCount; omega)]
  rfl

omit [Inhabited V] in
/-- With more than 32 shards, `Keys` adds 32 to its `WaitGroup` and starts a
goroutine, ending in `wg.Done()`, per shard. -/
theorem Keys_of_gt {n : Int} (h : 32 < n) :
    ConcurrentMap.Keys (NewWithOptions ⟨n⟩ : ConcurrentMap V) =
      throw (.panic "sync: negative WaitGroup counter") := by
  have hlen := length_NewWithOptions (V := V) (by omega : 0 < n)
  rw [ConcurrentMap.Keys, keys, count_eq (by rw [hlen]; unfold defaultShardCount; omega)]
  show waitGroupWait defaultShardCount _ >>= _ = _
  rw [waitGroupWait, hlen, if_neg (by unfold defaultShardCount; omega),
    if_neg (by unfold defaultShardCount; omega)]
  rfl

omit [Inhabited V] in
/-- With more than 32 shards, `snapshot`'s goroutine for shard 32 sets `chans[32]`. -/
theorem Iter_of_gt {n : Int} (h : 32 < n) :
    ConcurrentMap.Iter (NewWithOptions ⟨n⟩ : ConcurrentMap V) = throw indexOutOfRange := by
  rw [ConcurrentMap.Iter, ConcurrentMap.snapshot, fillChans_of_lt (by
    rw [length_NewWithOptions (by omega)]; unfold defaultShardCount; omega)]
  rfl

omit [Inhabited V] in
/-- **`NewWithOptions` with a shard count other than 32 faults.** With one
shard, `Count` reads past it, `Set` of the key `"a"` (index 12) reads past it,
and `Iter` never returns; with 33, `Keys` drives its `WaitGroup` counter
negative and `Iter` writes `chans[32]`. -/
theorem NewWithOptions_faults (value : V) :
    ConcurrentMap.Count (NewWithOptions ⟨1⟩ : ConcurrentMap V) = throw indexOutOfRange ∧
    ConcurrentMap.Set (NewWithOptions ⟨1⟩ : ConcurrentMap V) (ascii "a") value =
      throw indexOutOfRange ∧
    ConcurrentMap.Iter (NewWithOptions ⟨1⟩ : ConcurrentMap V) = throw .hang ∧
    ConcurrentMap.Keys (NewWithOptions ⟨33⟩ : ConcurrentMap V) =
      throw (.panic "sync: negative WaitGroup counter") ∧
    ConcurrentMap.Iter (NewWithOptions ⟨33⟩ : ConcurrentMap V) = throw indexOutOfRange :=
  ⟨Count_of_lt (by decide) (by decide),
    withShard_of_le getShard (by rw [length_NewWithOptions (by decide)]; decide) _,
    Iter_of_lt (by decide) (by decide), Keys_of_gt (by decide), Iter_of_gt (by decide)⟩

end Options

end VulcanPkgTool.strmap
