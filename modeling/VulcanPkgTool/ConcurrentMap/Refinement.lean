import VulcanPkgTool.ConcurrentMap.Shards

/-!
The whole-map methods `i64map` and `strmap` share, and what a run of methods
refines.

`Count`, `Keys`, `snapshot` and `fanIn` have the same body in both packages up
to the shard count they loop to, which each package fixes as its own constant
(`shardCount`, `defaultShardCount`, both 32). Each body is written here once
with that bound as a parameter (`count`, `keys`, `fillChans`, `fanIn`); the
packages apply it to their constant. Each comes with what it computes on shards
of exactly that many (`Refines.count`, `Refines.keys`, `fillChans_eq`) and,
for the counts `strmap.NewWithOptions` allows, where it fails
(`count_of_lt`, `fillChans_of_lt`).

A run is a list of method calls made one after another (`run`); the abstract
map answers the same calls (`runSpec`). `run_refines` is the simulation: if each
method, from any shards that store a map, returns what the abstract method
returns and leaves shards that store the abstract map's successor, then so does
every run; `run_refines_of` says the same of the runs whose calls all pass a
given test. Results are compared by `Ret.Agree`: a returned map is the
abstract one as a map (the same value at every key), and a key list or a stream
of tuples is the abstract one up to order, the order being the one thing Go
leaves unspecified.
-/

set_option autoImplicit false

namespace VulcanPkgTool

namespace GoMap

variable {K V : Type} [DecidableEq K]

/-- The entries whose keys pass a test hold what the map holds at those keys. -/
theorem dlookup_filter (A : GoMap K V) (p : K → Bool) (k : K) :
    (A.entries.filter fun e => p e.1).dlookup k = if p k then A.lookup k else none := by
  refine Option.ext fun v => ?_
  rw [List.mem_dlookup_iff (A.nodupKeys.sublist (List.filter_sublist _)), List.mem_filter]
  by_cases hk : p k
  · simpa [hk] using AList.mem_lookup_iff.symm
  · simp [hk]

/-- `A` restricted to `keys`: what `MGet(keys)` is for. -/
def restrict (A : GoMap K V) (keys : List K) : GoMap K V :=
  ⟨A.entries.filter fun e => e.1 ∈ keys, A.nodupKeys.sublist (List.filter_sublist _)⟩

theorem lookup_restrict (A : GoMap K V) (keys : List K) (k : K) :
    (restrict A keys).lookup k = if k ∈ keys then A.lookup k else none := by
  simpa using dlookup_filter A (fun k => k ∈ keys) k

/-- `if val, ok := src[key]; ok { result[key] = val }`. -/
def copyPresent (src result : GoMap K V) (key : K) : GoMap K V :=
  match src.lookup key with
  | some val => result.insert key val
  | none => result

theorem lookup_copyPresent (src result : GoMap K V) (key k : K) :
    (copyPresent src result key).lookup k =
      if k = key then (src.lookup k).or (result.lookup k) else result.lookup k := by
  by_cases hk : k = key
  · subst hk
    unfold copyPresent
    split <;> simp [*, lookup_insert_eq_ite]
  · unfold copyPresent
    split <;> simp [hk, lookup_insert_eq_ite]

/-- Copying the present ones of `keys`, one after another. -/
theorem lookup_foldl_copyPresent (src : GoMap K V) (k : K) : ∀ (keys : List K) (result : GoMap K V),
    (keys.foldl (copyPresent src) result).lookup k =
      if k ∈ keys then (src.lookup k).or (result.lookup k) else result.lookup k
  | [], _ => rfl
  | key :: keys, result => by
    rw [List.foldl_cons, lookup_foldl_copyPresent src k keys, lookup_copyPresent]
    simp only [List.mem_cons]
    by_cases h₁ : k = key
    · subst h₁
      by_cases h₂ : k ∈ keys
      · simp only [h₂, if_true, true_or]
        cases src.lookup k <;> rfl
      · simp [h₂]
    · simp [h₁]

end GoMap

namespace Sharded

variable {K V : Type}

/-! ## 1. Whole-map method bodies -/

/-- `count := 0; for i := 0; i < bound; i++ { shard := m[i]; count += len(shard.items) }`. -/
def count (bound : Nat) (m : Shards K V) : Go Nat :=
  (List.range bound).foldlM (fun count i => do
    let shard ← sliceGet m i
    pure (count + shard.entries.length)) 0

/-- `Keys`: `count := m.Count()` sizes the channel, then `wg.Add(bound)` and one
goroutine per shard of `m` that sends the shard's keys and calls `wg.Done()`.
The keys arrive interleaved; here they are listed shard after shard. -/
def keys (bound : Nat) (m : Shards K V) : Go (List K) := do
  let _count ← count bound m
  waitGroupWait bound m.length
  pure (m.flatMap AList.keys)

/-- `chans = make([]chan Tuple, bound)`, then for each `index, shard` of `m`,
`chans[index]` made and filled with the shard's entries. -/
def fillChans (bound : Nat) (m : Shards K V) : Go (List (List (Σ _ : K, V))) :=
  m.enum.foldlM (fun chans p => sliceSet chans p.1 p.2.entries) (List.replicate bound [])

/-- `fanIn(chans, out)`: `wg.Add(len(chans))`, one goroutine per channel that
drains it into `out` and calls `wg.Done()`, then `wg.Wait()` and `close(out)`. -/
def fanIn (chans : List (List (Σ _ : K, V))) : Go (List (Σ _ : K, V)) := do
  waitGroupWait chans.length chans.length
  pure chans.flatten

theorem count_eq {bound : Nat} {m : Shards K V} (h : bound ≤ m.length) :
    count bound m = .ok ((m.take bound).flatMap AList.entries).length := by
  obtain ⟨c, hc, rfl⟩ := foldlM_range_invariant
    (fun count i => do let shard ← sliceGet m i; pure (count + shard.entries.length))
    (fun i c => c = ((m.take i).flatMap AList.entries).length) bound
    (fun i hi c hc => ⟨_, by dsimp only; rw [sliceGet_of_lt (by omega)]; rfl, by
      dsimp only at hc ⊢
      rw [hc, List.take_succ, List.getElem?_eq_getElem (show i < m.length by omega)]
      simp only [Option.toList_some, List.flatMap_append, List.flatMap_cons, List.flatMap_nil,
        List.append_nil, List.length_append]⟩) 0 rfl
  exact hc

/-- With fewer than `bound` shards, `count` reads past the end. -/
theorem count_of_lt {bound : Nat} {m : Shards K V} (h : m.length < bound) :
    count bound m = throw indexOutOfRange := by
  obtain ⟨d, rfl⟩ : ∃ d, bound = m.length + (d + 1) := ⟨bound - m.length - 1, by omega⟩
  have hpre := count_eq (m := m) le_rfl
  rw [count] at hpre ⊢
  rw [List.range_add, List.foldlM_append, hpre, List.range_succ_eq_map]
  simp [sliceGet_of_le (Nat.le_refl m.length)]
  rfl

theorem fanIn_eq (chans : List (List (Σ _ : K, V))) : fanIn chans = .ok chans.flatten := by
  simp [fanIn, waitGroupWait]
  rfl

theorem fillChans_eq {bound : Nat} {m : Shards K V} (h : m.length = bound) :
    fillChans bound m = .ok (m.map AList.entries) := by
  subst h
  rw [fillChans, foldlM_enum_set (fun _ s => AList.entries s) _
    (fun s i b hi => sliceSet_of_lt hi _) _ m (by simp), ← List.map_const', List.zipWith_map_left,
    List.zipWith_same]

/-- With at most `bound` shards every `chans[index]` is in range. -/
theorem fillChans_ok {bound : Nat} {m : Shards K V} (h : m.length ≤ bound) :
    ∃ chans, fillChans bound m = .ok chans :=
  ⟨_, foldlM_enum_set_le (fun _ s => AList.entries s) _ (fun s i b hi => sliceSet_of_lt hi _) _ m
    (by simpa using h)⟩

/-- With more than `bound` shards, `chans[bound]` is out of range. -/
theorem fillChans_of_lt {bound : Nat} {m : Shards K V} (h : bound < m.length) :
    fillChans bound m = throw indexOutOfRange := by
  have hm : m = m.take bound ++ m.drop bound := (List.take_append_drop bound m).symm
  have hlen : (m.take bound).length = bound := by simp; omega
  rw [fillChans, hm, List.enum_append, List.foldlM_append,
    foldlM_enum_set (fun _ s => AList.entries s) _ (fun s i b hi => sliceSet_of_lt hi _) _ _
      (by simp [hlen]),
    hlen, List.drop_eq_getElem_cons (by simpa using h)]
  simp only [List.enumFrom_cons, List.foldlM_cons, bind, Except.bind]
  rw [sliceSet_of_le (by simp [hlen])]
  rfl

/-! ## 2. What they compute on shards that store a map -/

variable [DecidableEq K] {getShard : K → Nat}

/-- Shard `i` holds what `A` holds at the keys placed in it. -/
theorem Refines.lookup_shard {n : Nat} {m : Shards K V} {A : GoMap K V}
    (hR : Refines getShard n m A) {i : Nat} (hi : i < m.length) {k : K} (hk : getShard k = i) :
    m[i].lookup k = A.lookup k := by
  rw [← hR.lookup_eq k, lookup, hk, List.getElem?_eq_getElem hi, Option.some_bind]

theorem Refines.count {n : Nat} {m : Shards K V} {A : GoMap K V} (hR : Refines getShard n m A) :
    count n m = .ok A.entries.length := by
  obtain rfl := hR.length_eq
  rw [count_eq le_rfl, List.take_length, hR.entries_perm.length_eq]

theorem Refines.keys {n : Nat} {m : Shards K V} {A : GoMap K V} (hR : Refines getShard n m A) :
    ∃ ks, keys n m = .ok ks ∧ ks.Perm A.keys :=
  ⟨_, by simp [Sharded.keys, hR.count, hR.length_eq, waitGroupWait], hR.keys_perm⟩

/-- A `count` over the first `bound` shards sees every entry when no key is
placed at or past `bound`: the shards there are empty. -/
theorem Refines.count_of_le {n : Nat} {m : Shards K V} {A : GoMap K V}
    (hR : Refines getShard n m A) {bound : Nat} (hb : bound ≤ n) (hlt : ∀ k, getShard k < bound) :
    Sharded.count bound m = .ok A.entries.length := by
  have hdrop : (m.drop bound).flatMap AList.entries = [] := by
    refine List.flatMap_eq_nil_iff.mpr fun s hs => ?_
    obtain ⟨j, hj, rfl⟩ := List.getElem_of_mem hs
    refine List.eq_nil_iff_forall_not_mem.mpr fun e he => ?_
    have hk := hR.placed (bound + j) _ (by rw [List.getElem_drop]; exact List.getElem?_eq_getElem _)
      e.1 (AList.mem_keys.mpr (List.mem_keys_of_mem he))
    have := hlt e.1
    omega
  have hsplit : ((m.take bound).flatMap AList.entries).length = (m.flatMap AList.entries).length := by
    conv_rhs => rw [← List.take_append_drop bound m]
    rw [List.flatMap_append, hdrop, List.append_nil]
  rw [count_eq (hR.length_eq ▸ hb), hsplit, hR.entries_perm.length_eq]

/-- Copying the shards' entries into one map gives `A` back (`Items`). -/
theorem Refines.lookup_insertAll {n : Nat} {m : Shards K V} {A : GoMap K V}
    (hR : Refines getShard n m A) (k : K) :
    ((∅ : GoMap K V).insertAll (m.map AList.entries).flatten).lookup k = A.lookup k := by
  rw [← List.flatMap, GoMap.lookup_insertAll k _ hR.nodupKeys, AList.lookup_empty, Option.or_none]
  exact List.perm_dlookup k hR.nodupKeys A.nodupKeys hR.entries_perm

/-- Replacing each shard by one with the same entries, as a map, keeps the
invariant. -/
theorem Refines.map {n : Nat} {m : Shards K V} {A : GoMap K V} (hR : Refines getShard n m A)
    (g : GoMap K V → GoMap K V) (hg : ∀ s k, (g s).lookup k = s.lookup k) :
    Refines getShard n (m.map g) A := by
  refine ⟨by simp [hR.length_eq], fun i s hs k hk => ?_, fun k => ?_⟩
  · rw [List.getElem?_map, Option.map_eq_some'] at hs
    obtain ⟨s', hs', rfl⟩ := hs
    exact hR.placed i s' hs' k (by rwa [← AList.lookup_isSome, ← hg, AList.lookup_isSome])
  · rw [← hR.lookup_eq k, lookup, lookup, List.getElem?_map]
    cases m[getShard k]? <;> simp [hg]

/-! ## 3. Runs -/

/-- What a method returns, for every method of both packages. -/
inductive Ret (K V : Type) where
  | none
  | value (v : V)
  | found (v : V) (ok : Bool)
  | bool (b : Bool)
  | count (n : Nat)
  | map (m : GoMap K V)
  | keys (ks : List K)
  | tuples (ts : List (Σ _ : K, V))

/-- A result as the abstract map gives it: maps equal as maps, key lists and
tuple streams equal up to order. -/
def Ret.Agree : Ret K V → Ret K V → Prop
  | .map m₁, .map m₂ => ∀ k, m₁.lookup k = m₂.lookup k
  | .keys ks₁, .keys ks₂ => ks₁.Perm ks₂
  | .tuples ts₁, .tuples ts₂ => ts₁.Perm ts₂
  | r₁, r₂ => r₁ = r₂

theorem Ret.Agree.refl : ∀ r : Ret K V, r.Agree r
  | .none | .value _ | .found _ _ | .bool _ | .count _ => rfl
  | .map _ => fun _ => rfl
  | .keys _ => List.Perm.refl _
  | .tuples _ => List.Perm.refl _

/-- Methods called one after another, each result recorded. -/
def run {Op : Type} (step : Shards K V → Op → Go (Ret K V × Shards K V)) :
    Shards K V → List Op → Go (List (Ret K V) × Shards K V)
  | m, [] => pure ([], m)
  | m, op :: ops => do
    let (r, m) ← step m op
    let (rs, m) ← run step m ops
    pure (r :: rs, m)

/-- The same calls on the abstract map. -/
def runSpec {Op : Type} (spec : GoMap K V → Op → Ret K V × GoMap K V) :
    GoMap K V → List Op → List (Ret K V) × GoMap K V
  | A, [] => ([], A)
  | A, op :: ops =>
    ((spec A op).1 :: (runSpec spec (spec A op).2 ops).1, (runSpec spec (spec A op).2 ops).2)

/-- **A run refines the abstract run** when each method it calls refines the
abstract method from every pair of related states. `good` says which calls the
run may make. -/
theorem run_refines_of {Op : Type} {n : Nat} {step : Shards K V → Op → Go (Ret K V × Shards K V)}
    {spec : GoMap K V → Op → Ret K V × GoMap K V} (good : Op → Prop)
    (hstep : ∀ m A op, good op → Refines getShard n m A → ∃ r m', step m op = .ok (r, m') ∧
      r.Agree (spec A op).1 ∧ Refines getShard n m' (spec A op).2) :
    ∀ (ops : List Op) (m : Shards K V) (A : GoMap K V), (∀ op ∈ ops, good op) →
      Refines getShard n m A →
      ∃ rs m', run step m ops = .ok (rs, m') ∧ List.Forall₂ Ret.Agree rs (runSpec spec A ops).1 ∧
        Refines getShard n m' (runSpec spec A ops).2
  | [], m, _, _, hR => ⟨[], m, rfl, .nil, hR⟩
  | op :: ops, m, A, hgood, hR => by
    obtain ⟨r, m₁, h₁, hr, hR₁⟩ := hstep m A op (hgood op (List.mem_cons_self _ _)) hR
    obtain ⟨rs, m₂, h₂, hrs, hR₂⟩ := run_refines_of good hstep ops m₁ _
      (fun op' h => hgood op' (List.mem_cons_of_mem _ h)) hR₁
    refine ⟨r :: rs, m₂, ?_, .cons hr hrs, hR₂⟩
    rw [run, h₁]
    show (run step m₁ ops >>= _) = _
    rw [h₂]
    rfl

/-- A run of any calls refines the abstract run when every method does. -/
theorem run_refines {Op : Type} {n : Nat} {step : Shards K V → Op → Go (Ret K V × Shards K V)}
    {spec : GoMap K V → Op → Ret K V × GoMap K V}
    (hstep : ∀ m A op, Refines getShard n m A → ∃ r m', step m op = .ok (r, m') ∧
      r.Agree (spec A op).1 ∧ Refines getShard n m' (spec A op).2)
    (ops : List Op) (m : Shards K V) (A : GoMap K V) (hR : Refines getShard n m A) :
    ∃ rs m', run step m ops = .ok (rs, m') ∧ List.Forall₂ Ret.Agree rs (runSpec spec A ops).1 ∧
      Refines getShard n m' (runSpec spec A ops).2 :=
  run_refines_of (fun _ => True) (fun m A op _ => hstep m A op) ops m A (fun _ _ => trivial) hR

/-- A single-key method's result, as a `Ret`. -/
def withRet {α : Type} (wrap : α → Ret K V) (x : Go (α × Shards K V)) :
    Go (Ret K V × Shards K V) :=
  (fun p => (wrap p.1, p.2)) <$> x

/-- A single-key method on the abstract map, its result as a `Ret`. -/
def applyRet {α : Type} (A : GoMap K V) (key : K) (g : Option V → α × Option V)
    (wrap : α → Ret K V) : Ret K V × GoMap K V :=
  (wrap (apply A key g).1, (apply A key g).2)

/-- The step of a run for a single-key method, from `withShard_refines`. -/
theorem withRet_refines {n : Nat} (hlt : ∀ k, getShard k < n) {m : Shards K V} {A : GoMap K V}
    (hR : Refines getShard n m A) {α : Type} {key : K} {f : GoMap K V → α × GoMap K V}
    {g : Option V → α × Option V} (hf : Local key f g) (wrap : α → Ret K V) :
    ∃ r m', withRet wrap (withShard getShard m key f) = .ok (r, m') ∧
      r.Agree (applyRet A key g wrap).1 ∧ Refines getShard n m' (applyRet A key g wrap).2 := by
  obtain ⟨m', h, hR'⟩ := withShard_refines hlt hR hf
  exact ⟨_, m', by rw [withRet, h]; rfl, Ret.Agree.refl _, hR'⟩

end Sharded

end VulcanPkgTool
