import VulcanPkgTool.Id

/-!
`db`: the id counters `IncrementBatchID` and `InitIncrementIDDoc` keep in a
MongoDB collection, one document `{name, next_id}` per counter.

The collection is its documents in natural order. The code creates no index on
`name`, so nothing stops two documents from sharing one. Each request
(`FindOne`, `InsertOne`, `FindOneAndUpdate`) is one atomic step of the server.
When several documents match a filter the server may pick any of them; the model
picks the first, which is the only choice when one document matches.
`FindOneAndUpdate` is sent with the driver's default options: no upsert, and
`ReturnDocument` `Before`, so it answers with the document as it was before the
update. An `$inc` whose `int64` sum overflows is refused by the server.
`InitIncrementIDDoc`'s requests can also fail (the network, a timeout): how the
server answers each of them is a `Reply`, and a failed `InsertOne` may or may
not have written its document.

`IncrementBatchID` therefore returns the counter before its increment
(`runBatches_eq`): a caller of batch `b` that got `r` owns `[r, r + b - 1]`,
and those ranges are positive and disjoint along any sequence of calls
(`IncrementBatchID_ranges_disjoint`); on a counter `InitIncrementIDDoc` has just
created, the `i`-th call returns `1` plus the batches before it
(`IncrementBatchID_pre_increment`). The ranges `[r - b + 1, r]` the
post-increment reading would give overlap at the first two calls of batches 1
and 2, and start at 0 for a first batch of 2 (`IncrementBatchID_returns_before`).

`InitIncrementIDDoc` is a check and an act: `FindOne`, then `InsertOne` if
nothing was found. Concurrent calls are clients stepping through those two
requests in any interleaving, with any replies (`World`, `Reachable`). A call
returns an error only when the server failed one of its requests, once a call
has returned nil the counter exists, and calls that find it leave the collection
as it was (`InitIncrementIDDoc_safe`); but two calls that both check before
either inserts both insert (`InitIncrementIDDoc_race`).
-/

set_option autoImplicit false

namespace VulcanPkgTool

namespace db

open strconv

/-! ## 1. The collection and its requests -/

/-- `IncrementIDDoc`: a counter's `name` and `next_id`. -/
structure IncrementIDDoc where
  Name : GoString
  NextID : Int
  deriving DecidableEq, Repr

/-- The counter collection, in natural order. -/
abbrev Collection := List IncrementIDDoc

/-- The errors the helpers return. -/
inductive Error where
  /-- `mongo.ErrNoDocuments`. -/
  | ErrNoDocuments
  /-- The server's refusal of an `$inc` that overflows `int64`. -/
  | incOverflow
  /-- `errors.Wrapf(cause, msg)`. -/
  | wrap (msg : GoString) (cause : Error)
  /-- `errors.Errorf(msg)`. -/
  | msg (msg : GoString)
  /-- A request the server or the network failed. -/
  | server
  deriving DecidableEq, Repr

/-- How the server answers a request of `InitIncrementIDDoc`: as its collection
dictates, or with a failure; a failed write may have been applied all the same. -/
inductive Reply where
  | ok
  | fail (written : Bool)
  deriving DecidableEq, Repr

/-- How many documents have the name `name`. -/
def count (c : Collection) (name : GoString) : Nat := c.countP (·.Name = name)

/-- `coll.FindOne(ctx, bson.M{"name": name}).Err()`, answered `r`. -/
def FindOne (c : Collection) (name : GoString) : Reply → Except Error IncrementIDDoc
  | .ok => match c.find? (·.Name = name) with
    | some d => .ok d
    | none => .error .ErrNoDocuments
  | .fail _ => .error .server

/-- `coll.InsertOne(ctx, doc)`, answered `r`: the collection after it, and its error. -/
def InsertOne (c : Collection) (doc : IncrementIDDoc) : Reply → Collection × Option Error
  | .ok => (c ++ [doc], none)
  | .fail written => (if written then c ++ [doc] else c, some .server)

/-- `coll.FindOneAndUpdate(ctx, bson.M{"name": name}, bson.M{"$inc": bson.M{"next_id": inc}})`,
decoded: the document before the update, and the collection after it. -/
def FindOneAndUpdate (name : GoString) (inc : Int) : Collection → Except Error (IncrementIDDoc × Collection)
  | [] => .error .ErrNoDocuments
  | d :: ds =>
    if d.Name = name then
      if d.NextID + inc < -2 ^ 63 ∨ 2 ^ 63 ≤ d.NextID + inc then .error .incOverflow
      else .ok (d, { d with NextID := d.NextID + inc } :: ds)
    else (FindOneAndUpdate name inc ds).map fun (pre, ds') => (pre, d :: ds')

/-- `IncrementBatchID(ctx, coll, collName, batch)`: the id it returns, and the collection after. -/
def IncrementBatchID (c : Collection) (collName : GoString) (batch : Int) : Except Error (Int × Collection) :=
  if batch ≤ 0 then
    .error (.msg (ascii "mongo increment batch must be greater than 0. batch=" ++ FormatInt batch))
  else match FindOneAndUpdate collName batch c with
    | .error err => .error (.wrap (ascii "mongo increment batch id failed. collName=" ++ collName) err)
    | .ok (result, c') => .ok (result.NextID, c')

/-- `IncrementID(ctx, coll, collName)`. -/
def IncrementID (c : Collection) (collName : GoString) : Except Error (Int × Collection) :=
  IncrementBatchID c collName 1

/-- `InitIncrementIDDoc(ctx, coll, incrCollName)` run alone, with the replies to its
`FindOne` and `InsertOne`: the collection after it, and its error. Its log line is
not modelled. -/
def InitIncrementIDDoc (c : Collection) (incrCollName : GoString) (find insert : Reply) :
    Collection × Option Error :=
  match FindOne c incrCollName find with
  | .ok _ => (c, none)
  | .error .ErrNoDocuments =>
    let (c', err) := InsertOne c ⟨incrCollName, 1⟩ insert
    (c', err.map (.wrap (ascii "mongo insert one failed. incrCollName=" ++ incrCollName)))
  | .error err => (c, some (.wrap (ascii "mongo find one failed. incrCollName=" ++ incrCollName) err))

theorem FindOne_eq_ok_or (c : Collection) (name : GoString) :
    (∃ d, FindOne c name .ok = .ok d) ∨ FindOne c name .ok = .error .ErrNoDocuments := by
  simp only [FindOne]
  split
  · exact .inl ⟨_, rfl⟩
  · exact .inr rfl

theorem FindOne_ok_iff {c : Collection} {name : GoString} :
    (∃ d, FindOne c name .ok = .ok d) ↔ 1 ≤ count c name := by
  rw [count, Nat.one_le_iff_ne_zero, Ne, List.countP_eq_zero, FindOne]
  split
  · next d hd =>
    have hp := List.find?_some hd
    exact iff_of_true ⟨d, rfl⟩ fun h => h d (List.mem_of_find?_eq_some hd) hp
  · next hd =>
    exact iff_of_false (fun ⟨_, h⟩ => by cases h) (not_not.mpr fun a ha => List.find?_eq_none.mp hd a ha)

/-! ## 2. `IncrementBatchID` returns the counter before its increment -/

/-- The ids a run of batches `bs` gets from a counter at `v`: the counter before each call. -/
def idsFrom : Int → List Int → List Int
  | _, [] => []
  | v, b :: bs => v :: idsFrom (v + b) bs

/-- `IncrementBatchID` for each batch of `bs` in turn: the ids returned and the
collection after them, or the first error. -/
def runBatches (collName : GoString) : Collection → List Int → Except Error (List Int × Collection)
  | c, [] => .ok ([], c)
  | c, b :: bs => do
    let (r, c') ← IncrementBatchID c collName b
    let (rs, c'') ← runBatches collName c' bs
    pure (r :: rs, c'')

/-- The update reaches the first document with the name and no other. -/
theorem FindOneAndUpdate_first {name : GoString} {inc v : Int} (post : Collection)
    (hv : -2 ^ 63 ≤ v + inc ∧ v + inc < 2 ^ 63) :
    ∀ pre : Collection, (∀ d ∈ pre, d.Name ≠ name) →
      FindOneAndUpdate name inc (pre ++ ⟨name, v⟩ :: post) = .ok (⟨name, v⟩, pre ++ ⟨name, v + inc⟩ :: post)
  | [], _ => by
    rw [List.nil_append, FindOneAndUpdate, if_pos rfl, if_neg (by simp only; omega)]
    rfl
  | d :: pre, hpre => by
    rw [List.cons_append, FindOneAndUpdate, if_neg (hpre d (List.mem_cons_self d pre)),
      FindOneAndUpdate_first post hv pre fun e he => hpre e (List.mem_cons_of_mem d he)]
    rfl

/-- **`IncrementBatchID` returns the counter before its increment.** From a
collection whose first document named `collName` holds `v`, positive batches
whose sum keeps the counter an `int64` return `v`, `v + b₁`, `v + b₁ + b₂`, …,
and leave that document at `v` plus their sum. -/
theorem runBatches_eq {collName : GoString} (pre post : Collection) (hpre : ∀ d ∈ pre, d.Name ≠ collName) :
    ∀ (bs : List Int) (v : Int), (∀ b ∈ bs, 0 < b) → -2 ^ 63 ≤ v → v + bs.sum < 2 ^ 63 →
      runBatches collName (pre ++ ⟨collName, v⟩ :: post) bs =
        .ok (idsFrom v bs, pre ++ ⟨collName, v + bs.sum⟩ :: post)
  | [], v, _, _, _ => by simp [runBatches, idsFrom]
  | b :: bs, v, hbs, hv, hsum => by
    have hb := hbs b (List.mem_cons_self b bs)
    have hnonneg : 0 ≤ bs.sum := List.sum_nonneg fun x hx => (hbs x (List.mem_cons_of_mem b hx)).le
    rw [List.sum_cons] at hsum
    have hcall : IncrementBatchID (pre ++ ⟨collName, v⟩ :: post) collName b =
        .ok (v, pre ++ ⟨collName, v + b⟩ :: post) := by
      rw [IncrementBatchID, if_neg (by omega), FindOneAndUpdate_first post (by omega) pre hpre]
    rw [runBatches, hcall]
    show (runBatches collName (pre ++ ⟨collName, v + b⟩ :: post) bs >>= _) = _
    rw [runBatches_eq pre post hpre bs (v + b) (fun x hx => hbs x (List.mem_cons_of_mem b hx))
      (by omega) (by omega), List.sum_cons, add_assoc]
    rfl

theorem le_of_mem_idsFrom : ∀ {bs : List Int} {v r : Int}, (∀ b ∈ bs, 0 < b) → r ∈ idsFrom v bs → v ≤ r
  | [], _, _, _, h => by simp [idsFrom] at h
  | b :: bs, v, r, hbs, h => by
    rcases List.mem_cons.mp h with rfl | h
    · exact le_rfl
    · have := le_of_mem_idsFrom (fun x hx => hbs x (List.mem_cons_of_mem b hx)) h
      have := hbs b (List.mem_cons_self b bs)
      omega

/-- Each range `[r, r + b - 1]` ends before every later one starts. -/
theorem idsFrom_pairwise : ∀ (bs : List Int) (v : Int), (∀ b ∈ bs, 0 < b) →
    ((idsFrom v bs).zip bs).Pairwise fun p q => p.1 + p.2 ≤ q.1
  | [], _, _ => List.Pairwise.nil
  | b :: bs, v, hbs => by
    have hrest : ∀ x ∈ bs, 0 < x := fun x hx => hbs x (List.mem_cons_of_mem b hx)
    refine List.Pairwise.cons (fun q hq => ?_) (idsFrom_pairwise bs (v + b) hrest)
    exact le_of_mem_idsFrom hrest (List.of_mem_zip hq).1

/-- **The ranges callers own are positive and disjoint.** Along any sequence of
calls with positive batches on a counter that `InitIncrementIDDoc` started at
`1` or has since moved up, a caller that got `r` for batch `b` owns
`[r, r + b - 1]`: every `r` is positive, and each range ends before the next
one starts. -/
theorem IncrementBatchID_ranges_disjoint {collName : GoString} (pre post : Collection)
    (hpre : ∀ d ∈ pre, d.Name ≠ collName) (bs : List Int) (v : Int) (hbs : ∀ b ∈ bs, 0 < b)
    (hv : 1 ≤ v) (hsum : v + bs.sum < 2 ^ 63) :
    ∃ rs c', runBatches collName (pre ++ ⟨collName, v⟩ :: post) bs = .ok (rs, c') ∧
      (∀ r ∈ rs, 1 ≤ r) ∧ (rs.zip bs).Pairwise fun p q => p.1 + p.2 ≤ q.1 :=
  ⟨_, _, runBatches_eq pre post hpre bs v hbs (by omega) hsum,
    fun r hr => hv.trans (le_of_mem_idsFrom hbs hr), idsFrom_pairwise bs v hbs⟩

theorem IncrementBatchID_ranges_disjoint_one_two :
    (∀ d ∈ ([] : Collection), d.Name ≠ ascii "user") ∧ (∀ b ∈ [1, 2], (0 : Int) < b) ∧ (1 : Int) ≤ 1 ∧
      (1 : Int) + [1, 2].sum < 2 ^ 63 ∧
      ∃ rs c', runBatches (ascii "user") ([] ++ [⟨ascii "user", 1⟩]) [1, 2] = .ok (rs, c') ∧
        (∀ r ∈ rs, 1 ≤ r) ∧ (rs.zip [1, 2]).Pairwise fun p q => p.1 + p.2 ≤ q.1 :=
  ⟨by simp, by decide, le_rfl, by norm_num,
    IncrementBatchID_ranges_disjoint [] [] (by simp) [1, 2] 1 (by decide) le_rfl (by norm_num)⟩

/-- The `i`-th id of a run is the counter plus the batches before the `i`-th call. -/
theorem getElem?_idsFrom : ∀ (bs : List Int) (v : Int) (i : Nat), i < bs.length →
    (idsFrom v bs)[i]? = some (v + (bs.take i).sum)
  | [], _, _, h => absurd h (Nat.not_lt_zero _)
  | b :: bs, v, 0, _ => by simp [idsFrom]
  | b :: bs, v, i + 1, h => by
    rw [idsFrom, List.getElem?_cons_succ, getElem?_idsFrom bs (v + b) i (by simpa using h),
      List.take_succ_cons, List.sum_cons, add_assoc]

/-- **On a new counter, each call returns the counter before it.** After
`InitIncrementIDDoc` has created the counter in a collection without one, positive
batches whose sum keeps the counter an `int64` return, at the `i`-th call, `1` plus
the batches before it. So the ranges `[r, r + b - 1]` callers own are positive, and
each ends before the next one starts. -/
theorem IncrementBatchID_pre_increment {collName : GoString} (c : Collection)
    (hc : count c collName = 0) (bs : List Int) (hbs : ∀ b ∈ bs, 0 < b) (hsum : 1 + bs.sum < 2 ^ 63) :
    InitIncrementIDDoc c collName .ok .ok = (c ++ [⟨collName, 1⟩], none) ∧
      ∃ rs c', runBatches collName (c ++ [⟨collName, 1⟩]) bs = .ok (rs, c') ∧
        (∀ i < bs.length, rs[i]? = some (1 + (bs.take i).sum)) ∧
        (∀ r ∈ rs, 1 ≤ r) ∧ (rs.zip bs).Pairwise fun p q => p.1 + p.2 ≤ q.1 := by
  have hpre : ∀ d ∈ c, d.Name ≠ collName := by simpa [count, List.countP_eq_zero] using hc
  have hnone : FindOne c collName .ok = .error .ErrNoDocuments :=
    (FindOne_eq_ok_or c collName).resolve_left fun h => by have := FindOne_ok_iff.mp h; omega
  refine ⟨by simp [InitIncrementIDDoc, hnone, InsertOne], idsFrom 1 bs, _,
    runBatches_eq c [] hpre bs 1 hbs (by norm_num) hsum, fun i hi => getElem?_idsFrom bs 1 i hi,
    fun r hr => le_of_mem_idsFrom hbs hr, idsFrom_pairwise bs 1 hbs⟩

theorem IncrementBatchID_pre_increment_order :
    count [⟨ascii "order", 7⟩] (ascii "user") = 0 ∧ (∀ b ∈ [3, 5], (0 : Int) < b) ∧
      (1 : Int) + [3, 5].sum < 2 ^ 63 ∧
      InitIncrementIDDoc [⟨ascii "order", 7⟩] (ascii "user") .ok .ok =
        ([⟨ascii "order", 7⟩] ++ [⟨ascii "user", 1⟩], none) ∧
      ∃ rs c', runBatches (ascii "user") ([⟨ascii "order", 7⟩] ++ [⟨ascii "user", 1⟩]) [3, 5] =
          .ok (rs, c') ∧
        (∀ i < [(3 : Int), 5].length, rs[i]? = some (1 + ([3, 5].take i).sum)) ∧
        (∀ r ∈ rs, 1 ≤ r) ∧ (rs.zip [3, 5]).Pairwise fun p q => p.1 + p.2 ≤ q.1 :=
  ⟨by decide, by decide, by norm_num,
    IncrementBatchID_pre_increment [⟨ascii "order", 7⟩] (by decide) [3, 5] (by decide) (by norm_num)⟩

/-- **`IncrementBatchID` does not return the counter after its increment.** On
a counter `InitIncrementIDDoc` has just created, a first batch of 2 returns
`1`, and batches of 1 then 2 return `1` then `2`: the ranges `[r - b + 1, r]`
are `[0, 1]` in the first run, and `[1, 1]` and `[1, 2]` in the second. -/
theorem IncrementBatchID_returns_before :
    InitIncrementIDDoc [] (ascii "user") .ok .ok = ([⟨ascii "user", 1⟩], none) ∧
      runBatches (ascii "user") [⟨ascii "user", 1⟩] [2] = .ok ([1], [⟨ascii "user", 3⟩]) ∧
      runBatches (ascii "user") [⟨ascii "user", 1⟩] [1, 2] = .ok ([1, 2], [⟨ascii "user", 4⟩]) := by
  decide

/-! ## 3. Concurrent `InitIncrementIDDoc` calls -/

/-- Where a call of `InitIncrementIDDoc` is. -/
inductive Pc where
  /-- About to send `FindOne`. -/
  | findOne
  /-- `FindOne` found nothing; about to send `InsertOne`. -/
  | insertOne
  /-- Returned, with its error. -/
  | returned (err : Option Error)
  deriving DecidableEq, Repr

/-- One request of a call for the counter `name`, answered `r`; `none` once the
call has returned. -/
def stepCall (name : GoString) (c : Collection) : Pc → Reply → Option (Collection × Pc)
  | .findOne, r => some (match FindOne c name r with
    | .ok _ => (c, .returned none)
    | .error .ErrNoDocuments => (c, .insertOne)
    | .error err => (c, .returned (some (.wrap (ascii "mongo find one failed. incrCollName=" ++ name) err))))
  | .insertOne, r =>
    let (c', err) := InsertOne c ⟨name, 1⟩ r
    some (c', .returned (err.map (.wrap (ascii "mongo insert one failed. incrCollName=" ++ name))))
  | .returned _, _ => none

/-- The collection and the calls on it, by index. -/
structure World where
  coll : Collection
  calls : List Pc
  deriving DecidableEq, Repr

/-- `n` calls started on the collection `c`. -/
def World.init (c : Collection) (n : Nat) : World := ⟨c, List.replicate n .findOne⟩

/-- A request of call `i`, answered `r`. -/
def World.step (name : GoString) (w : World) (i : Nat) (r : Reply) : Option World :=
  match w.calls[i]? with
  | some pc => (stepCall name w.coll pc r).map fun (c, pc') => ⟨c, w.calls.set i pc'⟩
  | none => none

/-- The requests `(i, r)` of the calls `i`, in order; `none` if one cannot be taken. -/
def World.run (name : GoString) (w : World) : List (Nat × Reply) → Option World
  | [] => some w
  | (i, r) :: is => (w.step name i r).bind (·.run name is)

/-- The states some interleaving of `n` calls on `c₀` reaches, whatever the server replies. -/
inductive Reachable (name : GoString) (c₀ : Collection) (n : Nat) : World → Prop
  | init : Reachable name c₀ n (World.init c₀ n)
  | step {w w' : World} (i : Nat) (r : Reply) : Reachable name c₀ n w → w.step name i r = some w' →
      Reachable name c₀ n w'

theorem Reachable.run {name : GoString} {c₀ : Collection} {n : Nat} {w w' : World}
    (h : Reachable name c₀ n w) {is : List (Nat × Reply)} (hrun : w.run name is = some w') :
    Reachable name c₀ n w' := by
  induction is generalizing w with
  | nil => cases hrun; exact h
  | cons ir is ih =>
    simp only [World.run, Option.bind_eq_some] at hrun
    obtain ⟨w₁, h₁, h₂⟩ := hrun
    exact ih (h.step ir.1 ir.2 h₁) h₂

/-- Whether a call has yet to return. -/
def Pc.pending : Pc → Bool
  | .findOne | .insertOne => true
  | .returned _ => false

theorem count_append_counters (c : Collection) (name : GoString) (m : Nat) :
    count (c ++ List.replicate m ⟨name, 1⟩) name = count c name + m := by
  simp [count, List.countP_append, List.countP_replicate]

/-- The two errors a call can return: a request of it failed, and it says which. -/
def CallError (name : GoString) (e : Error) : Prop :=
  e = .wrap (ascii "mongo find one failed. incrCollName=" ++ name) .server ∨
    e = .wrap (ascii "mongo insert one failed. incrCollName=" ++ name) .server

/-- **The invariant of concurrent `InitIncrementIDDoc` calls** on `c₀`: every
error returned is a failed request's; the collection is `c₀` and the counters
inserted since, no more of them than the calls that are no longer pending; once a
call has returned nil, the counter exists; and if it existed in `c₀`, no call
inserts. -/
structure World.Inv (name : GoString) (c₀ : Collection) (n : Nat) (w : World) : Prop where
  length_calls : w.calls.length = n
  errors : ∀ e, .returned (some e) ∈ w.calls → CallError name e
  coll_eq : ∃ m, w.coll = c₀ ++ List.replicate m ⟨name, 1⟩ ∧ m + w.calls.countP Pc.pending ≤ n
  exists_of_returned : .returned none ∈ w.calls → 1 ≤ count w.coll name
  unchanged_of_exists : 1 ≤ count c₀ name → .insertOne ∉ w.calls ∧ w.coll = c₀

theorem World.Inv.init (name : GoString) (c₀ : Collection) (n : Nat) :
    (World.init c₀ n).Inv name c₀ n where
  length_calls := List.length_replicate n _
  errors e h := by simp [World.init] at h
  coll_eq := ⟨0, by simp [World.init], by simp [World.init, List.countP_replicate, Pc.pending]⟩
  exists_of_returned h := by simp [World.init] at h
  unchanged_of_exists _ := ⟨by simp [World.init], rfl⟩

/-- What one request of a call does: a `FindOne` that finds the counter returns
nil, one that does not moves on to `InsertOne`, a failed one returns its error;
`InsertOne` appends a counter at 1 and returns nil, or fails, having appended it
or not, and returns its error. -/
theorem stepCall_cases {name : GoString} {c c' : Collection} {pc pc' : Pc} {r : Reply}
    (h : stepCall name c pc r = some (c', pc')) :
    (pc = .findOne ∧ 1 ≤ count c name ∧ c' = c ∧ pc' = .returned none) ∨
    (pc = .findOne ∧ count c name = 0 ∧ c' = c ∧ pc' = .insertOne) ∨
    (pc = .findOne ∧ c' = c ∧
      pc' = .returned (some (.wrap (ascii "mongo find one failed. incrCollName=" ++ name) .server))) ∨
    (pc = .insertOne ∧ c' = c ++ [⟨name, 1⟩] ∧ pc' = .returned none) ∨
    (pc = .insertOne ∧ (c' = c ++ [⟨name, 1⟩] ∨ c' = c) ∧
      pc' = .returned (some (.wrap (ascii "mongo insert one failed. incrCollName=" ++ name) .server))) := by
  cases pc with
  | findOne =>
    cases r with
    | ok =>
      rcases FindOne_eq_ok_or c name with ⟨d, hd⟩ | hd
      · simp only [stepCall, hd, Option.some.injEq, Prod.mk.injEq] at h
        exact .inl ⟨rfl, FindOne_ok_iff.mp ⟨d, hd⟩, h.1.symm, h.2.symm⟩
      · simp only [stepCall, hd, Option.some.injEq, Prod.mk.injEq] at h
        have hnone : ¬1 ≤ count c name := fun h1 => by
          obtain ⟨d, hd'⟩ := FindOne_ok_iff.mpr h1
          rw [hd] at hd'
          cases hd'
        exact .inr (.inl ⟨rfl, by omega, h.1.symm, h.2.symm⟩)
    | fail _ =>
      simp only [stepCall, FindOne, Option.some.injEq, Prod.mk.injEq] at h
      exact .inr (.inr (.inl ⟨rfl, h.1.symm, h.2.symm⟩))
  | insertOne =>
    cases r with
    | ok =>
      simp only [stepCall, InsertOne, Option.map_none', Option.some.injEq, Prod.mk.injEq] at h
      exact .inr (.inr (.inr (.inl ⟨rfl, h.1.symm, h.2.symm⟩)))
    | fail written =>
      simp only [stepCall, InsertOne, Option.map_some', Option.some.injEq, Prod.mk.injEq] at h
      refine .inr (.inr (.inr (.inr ⟨rfl, ?_, h.2.symm⟩)))
      cases written
      · exact .inr h.1.symm
      · exact .inl h.1.symm
  | returned err => cases h

/-- A call's position among the others after it moves. -/
theorem mem_set_of_mem {l : List Pc} {i : Nat} {a b : Pc} (hb : b ∈ l.set i a) : b = a ∨ b ∈ l := by
  rcases List.mem_iff_getElem?.mp hb with ⟨j, hj⟩
  rw [List.getElem?_set] at hj
  split at hj
  · split at hj
    · exact .inl (Option.some.inj hj).symm
    · cases hj
  · exact .inr (List.getElem?_mem hj)

/-- A call moved to `a` does not bring back a position `b` no call was at. -/
theorem not_mem_set {l : List Pc} {i : Nat} {a b : Pc} (hl : b ∉ l) (hab : b ≠ a) : b ∉ l.set i a :=
  fun hb => (mem_set_of_mem hb).elim hab hl

/-- The errors after a call moves to `a`: the ones before, and `a`'s. -/
theorem errors_set {name : GoString} {l : List Pc} {i : Nat} {a : Pc}
    (hl : ∀ e, .returned (some e) ∈ l → CallError name e) (ha : ∀ e, a = .returned (some e) → CallError name e) :
    ∀ e, .returned (some e) ∈ l.set i a → CallError name e :=
  fun e he => (mem_set_of_mem he).elim (fun h => ha e h.symm) (hl e)

/-- **The step lemma.** A request of any call, whatever its reply, keeps the invariant. -/
theorem World.Inv.step {name : GoString} {c₀ : Collection} {n : Nat} {w w' : World}
    (h : w.Inv name c₀ n) {i : Nat} {r : Reply} (hs : w.step name i r = some w') : w'.Inv name c₀ n := by
  simp only [World.step] at hs
  split at hs
  · next pc hpc =>
    obtain ⟨hlt, hget⟩ := List.getElem?_eq_some_iff.1 hpc
    simp only [Option.map_eq_some'] at hs
    obtain ⟨⟨c', pc'⟩, hstep, rfl⟩ := hs
    obtain ⟨m, hcoll, hm⟩ := h.coll_eq
    have hcount := List.countP_set Pc.pending w.calls i pc' hlt
    have hle := List.boole_getElem_le_countP Pc.pending w.calls i hlt
    have hlen : (w.calls.set i pc').length = n := by simp [h.length_calls]
    have hins : c₀ ++ List.replicate (m + 1) ⟨name, 1⟩ = w.coll ++ [⟨name, 1⟩] := by
      rw [hcoll, List.replicate_succ', List.append_assoc]
    rw [hget] at hcount hle
    -- what the other calls keep while `i` moves, unless `i` moves to the position in question
    have keep_returned : .returned none ≠ pc' → .returned none ∈ w.calls.set i pc' →
        1 ≤ count w.coll name := fun hne hret => h.exists_of_returned ((mem_set_of_mem hret).resolve_left hne)
    have keep_unchanged : .insertOne ≠ pc' → 1 ≤ count c₀ name →
        .insertOne ∉ w.calls.set i pc' ∧ w.coll = c₀ := fun hne h0 =>
      ⟨not_mem_set (h.unchanged_of_exists h0).1 hne, (h.unchanged_of_exists h0).2⟩
    rcases stepCall_cases hstep with ⟨rfl, hfound, rfl, rfl⟩ | ⟨rfl, hzero, rfl, rfl⟩ |
      ⟨rfl, rfl, rfl⟩ | ⟨rfl, rfl, rfl⟩ | ⟨rfl, hc', rfl⟩
    all_goals simp only [Pc.pending, ↓reduceIte, Bool.false_eq_true] at hcount hle
    · -- `FindOne` found the counter: the call returns nil
      exact ⟨hlen, errors_set h.errors (by simp), ⟨m, hcoll, by dsimp only; omega⟩,
        fun _ => hfound, keep_unchanged (by simp)⟩
    · -- it found none: the call moves on to `InsertOne`
      refine ⟨hlen, errors_set h.errors (by simp), ⟨m, hcoll, by dsimp only; omega⟩,
        keep_returned (by simp), fun h0 => ?_⟩
      rw [(h.unchanged_of_exists h0).2] at hzero
      omega
    · -- `FindOne` failed: the call returns its error
      exact ⟨hlen, errors_set h.errors (by simp [CallError]), ⟨m, hcoll, by dsimp only; omega⟩,
        keep_returned (by simp), keep_unchanged (by simp)⟩
    · -- `InsertOne` appends a counter and the call returns nil
      refine ⟨hlen, errors_set h.errors (by simp), ⟨m + 1, hins.symm, by dsimp only; omega⟩,
        fun _ => ?_, fun h0 => absurd (List.getElem?_mem hpc) (h.unchanged_of_exists h0).1⟩
      rw [← hins, count_append_counters]
      omega
    · -- `InsertOne` failed, with its counter written or not: the call returns its error
      have := keep_returned (by simp)
      refine ⟨hlen, errors_set h.errors (by simp [CallError]), ?_, fun hret => ?_,
        fun h0 => absurd (List.getElem?_mem hpc) (h.unchanged_of_exists h0).1⟩
      all_goals rcases hc' with rfl | rfl
      · exact ⟨m + 1, hins.symm, by dsimp only; omega⟩
      · exact ⟨m, hcoll, by dsimp only; omega⟩
      · have := this hret
        simp only [count, List.countP_append] at this ⊢
        omega
      · exact this hret
  · cases hs

/-- **What concurrent `InitIncrementIDDoc` calls do guarantee.** In every state
any interleaving of `n` calls on a collection `c₀` reaches, whatever the server
replies: a call has returned an error only when one of its requests failed, and
the error says which; once a call has returned nil the counter exists; the calls
have added at most `n` counters; and if the counter existed in `c₀` they have
changed nothing. -/
theorem InitIncrementIDDoc_safe {name : GoString} {c₀ : Collection} {n : Nat} {w : World}
    (h : Reachable name c₀ n w) :
    (∀ e, .returned (some e) ∈ w.calls →
      e = .wrap (ascii "mongo find one failed. incrCollName=" ++ name) .server ∨
        e = .wrap (ascii "mongo insert one failed. incrCollName=" ++ name) .server) ∧
      (.returned none ∈ w.calls → 1 ≤ count w.coll name) ∧
      count w.coll name ≤ count c₀ name + n ∧ (1 ≤ count c₀ name → w.coll = c₀) := by
  have hinv : w.Inv name c₀ n := by
    induction h with
    | init => exact World.Inv.init name c₀ n
    | step i r _ hs ih => exact ih.step hs
  obtain ⟨m, hcoll, hm⟩ := hinv.coll_eq
  refine ⟨hinv.errors, hinv.exists_of_returned, ?_, fun h0 => (hinv.unchanged_of_exists h0).2⟩
  rw [hcoll, count_append_counters]
  omega

/-- Two calls on an empty collection: both find nothing, and the first one's
`InsertOne` fails after writing its counter. -/
def insertFails : List (Nat × Reply) := [(0, .ok), (1, .ok), (0, .fail true), (1, .ok)]

theorem InitIncrementIDDoc_safe_insertFails :
    ∃ w, Reachable (ascii "user") [] 2 w ∧ count w.coll (ascii "user") = 2 ∧
      w.calls.map Pc.pending = [false, false] ∧
      (∀ e, .returned (some e) ∈ w.calls →
        e = .wrap (ascii "mongo find one failed. incrCollName=" ++ ascii "user") .server ∨
          e = .wrap (ascii "mongo insert one failed. incrCollName=" ++ ascii "user") .server) ∧
      (.returned none ∈ w.calls → 1 ≤ count w.coll (ascii "user")) ∧
      count w.coll (ascii "user") ≤ count [] (ascii "user") + 2 ∧
      (1 ≤ count [] (ascii "user") → w.coll = []) := by
  have hrun : ((World.init [] 2).run (ascii "user") insertFails).map
      (fun w => (count w.coll (ascii "user"), w.calls.map Pc.pending)) = some (2, [false, false]) := by
    decide
  obtain ⟨w, hw, hval⟩ := Option.map_eq_some'.1 hrun
  simp only [Prod.mk.injEq] at hval
  exact ⟨w, Reachable.init.run hw, hval.1, hval.2, InitIncrementIDDoc_safe (Reachable.init.run hw)⟩

/-- **Two concurrent calls can both insert.** Both send `FindOne` before either
sends `InsertOne`; both find nothing, both insert, and both return nil, leaving
two counters with the same name. -/
theorem InitIncrementIDDoc_race :
    ∃ w, Reachable (ascii "user") [] 2 w ∧ w.calls = [.returned none, .returned none] ∧
      count w.coll (ascii "user") = 2 := by
  have hrun : ((World.init [] 2).run (ascii "user") [(0, .ok), (1, .ok), (0, .ok), (1, .ok)]).map
      (fun w => (w.calls, count w.coll (ascii "user"))) =
      some ([.returned none, .returned none], 2) := by decide
  obtain ⟨w, hw, hval⟩ := Option.map_eq_some'.1 hrun
  simp only [Prod.mk.injEq] at hval
  exact ⟨w, Reachable.init.run hw, hval⟩

end db

end VulcanPkgTool
