import VulcanPkgTool.Go
import VulcanPkgTool.Sort

/-!
The consistent-hash rings of `consistenthash`: `HashRing` (string keys,
`unnamed/part_008`) and `Int64HashRing` (`int64_ketama.go`).

The two rings run one algorithm over two node types. `AddNode(name)` appends
the `virtualSpots` virtual nodes `name:0`, `name:1`, … and re-sorts the whole
array by position with `sort.Sort`; `RemoveNode(name)` filters the array in
place, keeping the order of what stays; `GetNode` binary-searches for the first
node at or above the key's position and wraps to index 0. `Ring` holds the
shared state and operations once, with the constructor of a virtual node
(`spot`) as a parameter, and `HashRing.*` and `Int64HashRing.*` are that
algorithm at each ring's own node constructor and key position. murmur3's
`Sum64` is a parameter `sum64`: the string ring places a node or a key at the
low 32 bits of it, the integer ring places a node at all 64 bits and a key
`k` at `uint64(k)`. Positions are kept as their `Nat` values.

What the code guarantees:
* every reachable node array is sorted and holds exactly the live virtual
  nodes, those of each `AddNode` that no later `RemoveNode` of the same name
  undid (`run_sorted`, `run_perm_liveNodes`);
* on a sorted array `GetNode` is the linear scan its binary search stands for
  (`GetNode_eq_scan`), so it returns the owner of a node at the least position
  at or above the key's, or at the least position overall (`GetNode_routes`);
* removing a node never moves a key owned by someone else.

What it does not: `ringNodes.Less` compares positions only, so where nodes of
two owners share a position the owner a key gets is whichever the sort put
first. Adding the same names in another order then routes differently
(`GetNode_order_dependent`, already for two names, where `sort.Sort` is an
insertion sort), and an `AddNode` may move keys between two other owners
(`AddNode_moves_other_owner`, with `sort.Sort`'s unspecified order on long
slices). Where no two owners share a position, both properties hold
(`GetNode_order_independent`, `GetNode_keeps_owners`).
-/

set_option autoImplicit false

namespace VulcanPkgTool.ConsistentHash

/-- `DefaultVirtualSpots`. -/
def DefaultVirtualSpots : Nat := 160

/-- A virtual node, `ringNode` or `int64RingNode`: its owner, its key, and its
position `hash` on the ring. -/
structure RingNode (κ : Type) where
  nodeName : GoString
  key : κ
  hash : Nat
  deriving DecidableEq, Repr

/-- The state of a `HashRing` or an `Int64HashRing`. Its `RWMutex` serialises
the calls modelled here, and `hashCache` only recycles hasher objects. -/
structure Ring (κ : Type) where
  virtualSpots : Nat
  nodes : List (RingNode κ)
  deriving DecidableEq, Repr

/-- A call that changes a ring. -/
inductive Op where
  | AddNode (nodeName : GoString)
  | RemoveNode (nodeName : GoString)
  deriving DecidableEq, Repr

/-! ## 1. The shared algorithm -/

namespace Ring

variable {κ : Type} (spot : GoString → Nat → RingNode κ)
  (pdqsort : List (RingNode κ) → List (RingNode κ))

/-- `NewRing(virtualSpots)` and `NewInt64Ring(virtualSpots)`. -/
def New (virtualSpots : Int) : Ring κ :=
  { virtualSpots := if virtualSpots ≤ 0 then DefaultVirtualSpots else virtualSpots.toNat
    nodes := [] }

/-- The virtual nodes `nodeName:i`, `i < virtualSpots`, that `AddNode` builds. -/
def spots (virtualSpots : Nat) (nodeName : GoString) : List (RingNode κ) :=
  (List.range virtualSpots).map (spot nodeName)

/-- `AddNode(nodeName)`: append the new virtual nodes, then `sort.Sort` by
position. -/
def AddNode (h : Ring κ) (nodeName : GoString) : Ring κ :=
  { h with nodes :=
      sort.«Sort» RingNode.hash pdqsort (h.nodes ++ spots spot h.virtualSpots nodeName) }

/-- `RemoveNode(nodeName)`: the in-place filter keeps the other nodes in order. -/
def RemoveNode (h : Ring κ) (nodeName : GoString) : Ring κ :=
  { h with nodes := h.nodes.filter fun n => n.nodeName != nodeName }

/-- `GetNode` once the key's position `targetHash` is known. `Search` reads only
indexes below `len(h.nodes)`, where `h.nodes[i]?.all` is the `>=` test. -/
def GetNode (h : Ring κ) (targetHash : Nat) : Go (GoString × Bool) :=
  if h.nodes.length = 0 then pure ([], false) else do
    let idx := sort.Search h.nodes.length fun i =>
      h.nodes[i]?.all fun n => decide (targetHash ≤ n.hash)
    let n ← sliceGet h.nodes (if idx = h.nodes.length then 0 else idx)
    pure (n.nodeName, true)

/-- One call. -/
def step (h : Ring κ) : Op → Ring κ
  | .AddNode nodeName => h.AddNode spot pdqsort nodeName
  | .RemoveNode nodeName => h.RemoveNode nodeName

/-- Calls one after another. -/
def run (h : Ring κ) (ops : List Op) : Ring κ := ops.foldl (step spot pdqsort) h

@[simp] theorem New_nodes (v : Int) : (New v : Ring κ).nodes = [] := rfl

@[simp] theorem step_virtualSpots (h : Ring κ) (op : Op) :
    (step spot pdqsort h op).virtualSpots = h.virtualSpots := by
  cases op <;> rfl

@[simp] theorem run_virtualSpots (h : Ring κ) (ops : List Op) :
    (run spot pdqsort h ops).virtualSpots = h.virtualSpots := by
  induction ops generalizing h with
  | nil => rfl
  | cons op ops ih => exact (ih _).trans (step_virtualSpots spot pdqsort h op)

theorem run_append (h : Ring κ) (ops : List Op) (op : Op) :
    run spot pdqsort h (ops ++ [op]) = step spot pdqsort (run spot pdqsort h ops) op := by
  simp [run]

end Ring

/-! ## 2. What the code should do

The live virtual nodes after a call sequence, and where a key must go. -/

section Spec

variable {κ : Type} (spot : GoString → Nat → RingNode κ)

/-- The live virtual nodes after `ops`: the virtual nodes of each `AddNode(name)`
that no later `RemoveNode(name)` follows. -/
def liveNodes (virtualSpots : Nat) : List Op → List (RingNode κ)
  | [] => []
  | .AddNode name :: ops =>
    (if Op.RemoveNode name ∈ ops then [] else Ring.spots spot virtualSpots name) ++
      liveNodes virtualSpots ops
  | .RemoveNode _ :: ops => liveNodes virtualSpots ops

/-- Node `n` is where a key of position `target` must go among `nodes`: it is at
the least position at or above `target`, or, when no position is, at the least
position. -/
def Routes (nodes : List (RingNode κ)) (target : Nat) (n : RingNode κ) : Prop :=
  (target ≤ n.hash ∧ ∀ m ∈ nodes, target ≤ m.hash → n.hash ≤ m.hash) ∨
    ∀ m ∈ nodes, m.hash < target ∧ n.hash ≤ m.hash

/-- `a` owns a node of `nodes` where a key of position `target` must go. -/
def Owns (nodes : List (RingNode κ)) (target : Nat) (a : GoString) : Prop :=
  ∃ n ∈ nodes, n.nodeName = a ∧ Routes nodes target n

/-- What `GetNode` must return for a key of position `target` when the live
virtual nodes are `live`: `("", false)` exactly when there are none, and
otherwise `(a, true)` for an owner `a` of the node the key must go to. -/
def Routed (live : List (RingNode κ)) (target : Nat) (res : Go (GoString × Bool)) : Prop :=
  (res = .ok ([], false) ↔ live = []) ∧
    (live ≠ [] → ∃ a, res = .ok (a, true) ∧ Owns live target a)

/-- No two virtual nodes of different owners share a position. -/
def OwnersApart (nodes : List (RingNode κ)) : Prop :=
  ∀ m₁ ∈ nodes, ∀ m₂ ∈ nodes, m₁.hash = m₂.hash → m₁.nodeName = m₂.nodeName

instance (nodes : List (RingNode κ)) : Decidable (OwnersApart nodes) :=
  inferInstanceAs (Decidable (∀ m₁ ∈ nodes, ∀ m₂ ∈ nodes, m₁.hash = m₂.hash → m₁.nodeName = m₂.nodeName))

variable {spot}

theorem Routes.mono {nodes nodes' : List (RingNode κ)} {target : Nat} {n : RingNode κ}
    (hsub : ∀ m ∈ nodes, m ∈ nodes') : Routes nodes' target n → Routes nodes target n
  | .inl ⟨ht, hmin⟩ => .inl ⟨ht, fun m hm => hmin m (hsub m hm)⟩
  | .inr hall => .inr fun m hm => hall m (hsub m hm)

theorem Routes.congr {nodes nodes' : List (RingNode κ)} {target : Nat} {n : RingNode κ}
    (h : ∀ m, m ∈ nodes ↔ m ∈ nodes') : Routes nodes target n ↔ Routes nodes' target n :=
  ⟨Routes.mono fun m => (h m).mpr, Routes.mono fun m => (h m).mp⟩

/-- Where a key must go is one position. -/
theorem Routes.hash_eq {nodes : List (RingNode κ)} {target : Nat} {n n' : RingNode κ}
    (hn : n ∈ nodes) (hn' : n' ∈ nodes) :
    Routes nodes target n → Routes nodes target n' → n.hash = n'.hash
  | .inl ⟨ht, hmin⟩, .inl ⟨ht', hmin'⟩ => Nat.le_antisymm (hmin n' hn' ht') (hmin' n hn ht)
  | .inl ⟨ht, _⟩, .inr hall' => absurd ht (Nat.not_le_of_lt (hall' n hn).1)
  | .inr hall, .inl ⟨ht', _⟩ => absurd ht' (Nat.not_le_of_lt (hall n' hn').1)
  | .inr hall, .inr hall' => Nat.le_antisymm (hall n' hn').2 (hall' n hn).2

end Spec

/-! ## 3. `GetNode` is a linear scan on a sorted array -/

section Scan

variable {κ : Type}

/-- The linear scan `GetNode`'s binary search stands for: the first node at or
above `target`, or else the first node. -/
def scan (nodes : List (RingNode κ)) (target : Nat) : Option (RingNode κ) :=
  (nodes.find? fun n => decide (target ≤ n.hash)).or nodes.head?

/-- What `GetNode` returns for the node it picks. -/
def answer : Option (RingNode κ) → GoString × Bool
  | some n => (n.nodeName, true)
  | none => ([], false)

/-- Ordered by `hash`. -/
def Sorted (nodes : List (RingNode κ)) : Prop := nodes.Pairwise fun a b => a.hash ≤ b.hash

theorem Sorted.nil : Sorted ([] : List (RingNode κ)) := List.Pairwise.nil

theorem answer_eq_true {o : Option (RingNode κ)} {a : GoString} :
    answer o = (a, true) ↔ ∃ n, o = some n ∧ n.nodeName = a := by
  cases o <;> simp [answer]

/-- What `find?` finds in a list ordered by a reflexive `R` is `R`-below every
other element that passes the test. -/
theorem find?_pairwise {α : Type} {R : α → α → Prop} (hR : ∀ a, R a a) {P : α → Bool} {n : α} :
    ∀ {l : List α}, l.Pairwise R → l.find? P = some n → ∀ m ∈ l, P m = true → R n m
  | a :: l, hl, hfind, m, hm, hPm => by
    rw [List.pairwise_cons] at hl
    by_cases hPa : P a = true
    · obtain rfl : a = n := by simpa [hPa] using hfind
      rcases List.mem_cons.mp hm with rfl | hm
      · exact hR _
      · exact hl.1 m hm
    · rw [List.find?_cons_of_neg _ hPa] at hfind
      rcases List.mem_cons.mp hm with rfl | hm
      · exact absurd hPm hPa
      · exact find?_pairwise hR hl.2 hfind m hm hPm

/-- The head of a list ordered by a reflexive `R` is `R`-below every element. -/
theorem head?_pairwise {α : Type} {R : α → α → Prop} (hR : ∀ a, R a a) {n : α} :
    ∀ {l : List α}, l.Pairwise R → l.head? = some n → ∀ m ∈ l, R n m
  | a :: l, hl, hhead, m, hm => by
    obtain rfl : a = n := by simpa using hhead
    rcases List.mem_cons.mp hm with rfl | hm
    · exact hR _
    · exact (List.pairwise_cons.mp hl).1 m hm

theorem scan_eq_none {nodes : List (RingNode κ)} {target : Nat} :
    scan nodes target = none ↔ nodes = [] := by
  cases nodes <;> simp [scan]

theorem answer_scan_eq {nodes : List (RingNode κ)} {target : Nat} :
    answer (scan nodes target) = ([], false) ↔ nodes = [] := by
  rw [← scan_eq_none]
  cases scan nodes target <;> simp [answer]

/-- Among nodes ordered by a reflexive `R`, the node the scan picks is
`R`-below every node at its position. -/
theorem scan_first {R : RingNode κ → RingNode κ → Prop} (hR : ∀ a, R a a)
    {nodes : List (RingNode κ)} (hs : nodes.Pairwise R) {target : Nat} {n : RingNode κ}
    (h : scan nodes target = some n) : ∀ m ∈ nodes, m.hash = n.hash → R n m := by
  intro m hm hmn
  rcases Option.or_eq_some.mp h with hfind | ⟨_, hhead⟩
  · exact find?_pairwise hR hs hfind m hm (by simpa [hmn] using List.find?_some hfind)
  · exact head?_pairwise hR hs hhead m hm

/-- **The scan routes**: on a sorted array it picks a node where the key must go. -/
theorem scan_routes {nodes : List (RingNode κ)} (hs : Sorted nodes) {target : Nat}
    {n : RingNode κ} (h : scan nodes target = some n) : n ∈ nodes ∧ Routes nodes target n := by
  have hle : ∀ a : RingNode κ, a.hash ≤ a.hash := fun a => Nat.le_refl _
  rcases Option.or_eq_some.mp h with hfind | ⟨hnone, hhead⟩
  · refine ⟨List.mem_of_find?_eq_some hfind, .inl ⟨by simpa using List.find?_some hfind, ?_⟩⟩
    exact fun m hm ht => find?_pairwise hle hs hfind m hm (by simpa using ht)
  · refine ⟨List.mem_of_mem_head? hhead, .inr fun m hm => ⟨?_, head?_pairwise hle hs hhead m hm⟩⟩
    simpa using List.find?_eq_none.mp hnone m hm

/-- A node that the scan picks and the filter keeps is still the one it picks. -/
theorem scan_filter {nodes : List (RingNode κ)} {target : Nat} {n : RingNode κ}
    {q : RingNode κ → Bool} (h : scan nodes target = some n) (hq : q n = true) :
    scan (nodes.filter q) target = some n := by
  rcases Option.or_eq_some.mp h with hfind | ⟨hnone, hhead⟩
  · obtain ⟨hPn, as, bs, rfl, has⟩ := List.find?_eq_some.mp hfind
    have has' : ∀ a ∈ as, ¬ target ≤ a.hash := fun a ha => by simpa using has a ha
    simp_all [scan, List.find?_filter]
  · obtain ⟨rest, rfl⟩ : ∃ rest, nodes = n :: rest := by
      cases nodes with
      | nil => simp at hhead
      | cons a rest => exact ⟨rest, by simpa using hhead⟩
    simp_all [scan, List.find?_filter]

/-- **`GetNode` is the linear scan** on a sorted array. -/
theorem GetNode_eq_scan {h : Ring κ} (hs : Sorted h.nodes) (target : Nat) :
    h.GetNode target = .ok (answer (scan h.nodes target)) := by
  obtain ⟨vs, nodes⟩ := h
  cases nodes with
  | nil => rfl
  | cons a rest =>
    have hmono : (a :: rest).Pairwise fun m m' =>
        decide (target ≤ m.hash) = true → decide (target ≤ m'.hash) = true :=
      List.Pairwise.imp (fun hmm' hm => by simp only [decide_eq_true_eq] at hm ⊢; omega) hs
    obtain ⟨hle, hget⟩ := sort.getElem?_Search hmono
    simp only [Ring.GetNode, scan, ← hget]
    generalize sort.Search (a :: rest).length
      (fun i => (a :: rest)[i]?.all fun n => decide (target ≤ n.hash)) = idx at hle ⊢
    rcases Nat.lt_or_eq_of_le hle with hlt | rfl
    · have hne : idx ≠ rest.length + 1 := Nat.ne_of_lt hlt
      simp only [List.length_cons, Nat.add_one_ne_zero, if_false, if_neg hne, sliceGet_of_lt hlt,
        List.getElem?_eq_getElem hlt, Option.or_some]
      rfl
    · simp [sliceGet, answer]
      rfl

end Scan

/-! ## 4. Every reachable array is sorted and holds the live nodes -/

section Runs

variable {κ : Type} {spot : GoString → Nat → RingNode κ}
  {pdqsort : List (RingNode κ) → List (RingNode κ)}

/-- The sort `AddNode` runs keeps the contract. -/
theorem AddNode_nodes (hsort : sort.SortContract RingNode.hash pdqsort) (h : Ring κ) (name : GoString) :
    (h.AddNode spot pdqsort name).nodes.Perm (h.nodes ++ Ring.spots spot h.virtualSpots name) ∧
      Sorted (h.AddNode spot pdqsort name).nodes :=
  sort.Sort_contract RingNode.hash hsort _

theorem step_sorted (hsort : sort.SortContract RingNode.hash pdqsort) {h : Ring κ}
    (hs : Sorted h.nodes) : ∀ op, Sorted (Ring.step spot pdqsort h op).nodes
  | .AddNode name => (AddNode_nodes hsort h name).2
  | .RemoveNode _ => List.Pairwise.filter _ hs

theorem run_sorted (hsort : sort.SortContract RingNode.hash pdqsort) {h : Ring κ}
    (hs : Sorted h.nodes) (ops : List Op) : Sorted (Ring.run spot pdqsort h ops).nodes := by
  induction ops generalizing h with
  | nil => exact hs
  | cons op ops ih => exact ih (step_sorted hsort hs op)

/-- **Every reachable node array is sorted.** -/
theorem run_New_sorted (hsort : sort.SortContract RingNode.hash pdqsort) (v : Int) (ops : List Op) :
    Sorted (Ring.run spot pdqsort (.New v) ops).nodes :=
  run_sorted hsort Sorted.nil ops

theorem liveNodes_append_AddNode (vs : Nat) (ops : List Op) (name : GoString) :
    liveNodes spot vs (ops ++ [.AddNode name]) = liveNodes spot vs ops ++ Ring.spots spot vs name := by
  induction ops with
  | nil => simp [liveNodes]
  | cons op ops ih => cases op <;> simp [liveNodes, ih]

variable (hspot : ∀ name i, (spot name i).nodeName = name)
include hspot

theorem filter_spots (vs : Nat) (name' name : GoString) :
    (Ring.spots spot vs name').filter (fun n => n.nodeName != name) =
      if name' = name then [] else Ring.spots spot vs name' := by
  split <;> simp [Ring.spots, hspot, *]

theorem liveNodes_append_RemoveNode (vs : Nat) (ops : List Op) (name : GoString) :
    liveNodes spot vs (ops ++ [.RemoveNode name]) =
      (liveNodes spot vs ops).filter fun n => n.nodeName != name := by
  induction ops with
  | nil => simp [liveNodes]
  | cons op ops ih =>
    cases op with
    | AddNode name' =>
      simp only [List.cons_append, liveNodes, ih, List.filter_append]
      congr 1
      rw [apply_ite (List.filter _), List.filter_nil, filter_spots hspot]
      by_cases h₁ : Op.RemoveNode name' ∈ ops <;> by_cases h₂ : name' = name <;> simp [h₁, h₂]
    | RemoveNode _ => simp [liveNodes, ih]

/-- **The node array holds exactly the live virtual nodes**, in some order. -/
theorem run_perm_liveNodes (hsort : sort.SortContract RingNode.hash pdqsort) (v : Int) (ops : List Op) :
    (Ring.run spot pdqsort (.New v) ops).nodes.Perm (liveNodes spot (Ring.New v : Ring κ).virtualSpots ops) := by
  induction ops using List.reverseRecOn with
  | nil => exact .nil
  | append_singleton ops op ih =>
    rw [Ring.run_append]
    cases op with
    | AddNode name =>
      rw [liveNodes_append_AddNode]
      refine (AddNode_nodes hsort _ name).1.trans ?_
      rw [Ring.run_virtualSpots]
      exact ih.append_right _
    | RemoveNode name =>
      rw [liveNodes_append_RemoveNode hspot]
      exact ih.filter _

/-- **`GetNode` routes every key** of every reachable ring. -/
theorem run_routed (hsort : sort.SortContract RingNode.hash pdqsort) (v : Int) (ops : List Op)
    (target : Nat) :
    Routed (liveNodes spot (Ring.New v : Ring κ).virtualSpots ops) target
      ((Ring.run spot pdqsort (.New v) ops).GetNode target) := by
  have hperm := run_perm_liveNodes hspot hsort v ops
  rw [GetNode_eq_scan (run_New_sorted hsort v ops) target]
  constructor
  · rw [Except.ok.injEq, answer_scan_eq]
    exact ⟨fun h => by simpa [h] using hperm, fun h => by simpa [h] using hperm⟩
  · intro hlive
    cases hn : scan (Ring.run spot pdqsort (.New v) ops).nodes target with
    | none => exact absurd (by simpa [scan_eq_none.mp hn] using hperm) hlive
    | some n =>
      obtain ⟨hmem, hroutes⟩ := scan_routes (run_New_sorted hsort v ops) hn
      exact ⟨n.nodeName, rfl, n, hperm.subset hmem, rfl,
        (Routes.congr fun m => hperm.mem_iff).mp hroutes⟩

end Runs

/-! ## 5. Order of calls, and what an `AddNode` or a `RemoveNode` moves -/

section Moves

variable {κ K : Type} (cond : List (RingNode κ) → Prop) (spot : GoString → Nat → RingNode κ)
  (pdqsort : List (RingNode κ) → List (RingNode κ)) (getNode : Ring κ → K → Go (GoString × Bool))

/-- Call sequences that leave the same live virtual nodes, when these satisfy
`cond`, make `getNode` answer alike for every key. -/
def OrderIndependent : Prop :=
  ∀ (v : Int) (ops₁ ops₂ : List Op),
    (liveNodes spot (Ring.New v : Ring κ).virtualSpots ops₁).Perm
        (liveNodes spot (Ring.New v : Ring κ).virtualSpots ops₂) →
      cond (liveNodes spot (Ring.New v : Ring κ).virtualSpots ops₁) →
      ∀ key, getNode (Ring.run spot pdqsort (.New v) ops₁) key =
        getNode (Ring.run spot pdqsort (.New v) ops₂) key

/-- On every reachable ring, `AddNode(n)` moves a key, if at all, to `n` (asked
when the nodes after the add satisfy `cond`), and `RemoveNode(n)` leaves a key
of another owner where it was. -/
def KeepsOwners : Prop :=
  ∀ (v : Int) (ops : List Op) (n a : GoString) (key : K),
    let h := Ring.run spot pdqsort (.New v) ops
    (getNode h key = .ok (a, true) → cond (h.AddNode spot pdqsort n).nodes →
        getNode (h.AddNode spot pdqsort n) key = .ok (a, true) ∨
          getNode (h.AddNode spot pdqsort n) key = .ok (n, true)) ∧
      (getNode h key = .ok (a, true) → a ≠ n → getNode (h.RemoveNode n) key = .ok (a, true))

variable {spot pdqsort}

/-- Two sorted arrays of the same nodes, no two owners sharing a position, give
every key the same owner. -/
theorem answer_scan_eq_of_apart {nodes₁ nodes₂ : List (RingNode κ)} (hs₁ : Sorted nodes₁)
    (hs₂ : Sorted nodes₂) (hmem : ∀ m, m ∈ nodes₁ ↔ m ∈ nodes₂) (hapart : OwnersApart nodes₁)
    (target : Nat) : answer (scan nodes₁ target) = answer (scan nodes₂ target) := by
  have hnil : nodes₁ = [] ↔ nodes₂ = [] := by
    simp only [List.eq_nil_iff_forall_not_mem, hmem]
  cases h₁ : scan nodes₁ target with
  | none => rw [scan_eq_none.mpr (hnil.mp (scan_eq_none.mp h₁))]
  | some m₁ =>
    cases h₂ : scan nodes₂ target with
    | none =>
      rw [scan_eq_none.mpr (hnil.mpr (scan_eq_none.mp h₂))] at h₁
      exact absurd h₁ (by simp [scan])
    | some m₂ =>
      obtain ⟨hm₁, hr₁⟩ := scan_routes hs₁ h₁
      obtain ⟨hm₂, hr₂⟩ := scan_routes hs₂ h₂
      have hm₂' := (hmem m₂).mpr hm₂
      have hhash := Routes.hash_eq hm₁ hm₂' hr₁ ((Routes.congr hmem).mpr hr₂)
      simp [answer, hapart m₁ hm₁ m₂ hm₂' hhash]

variable (hspot : ∀ name i, (spot name i).nodeName = name)
  (hsort : sort.SortContract RingNode.hash pdqsort)
include hspot hsort

/-- **Where no two owners share a position, the order of calls does not matter.** -/
theorem orderIndependent_of_apart (pos : K → Nat) :
    OrderIndependent OwnersApart spot pdqsort fun h key => h.GetNode (pos key) := by
  intro v ops₁ ops₂ hperm hapart key
  have hp₁ := run_perm_liveNodes hspot hsort v ops₁
  have hp₂ := run_perm_liveNodes hspot hsort v ops₂
  have hmem : ∀ m, m ∈ (Ring.run spot pdqsort (.New v) ops₁).nodes ↔
      m ∈ (Ring.run spot pdqsort (.New v) ops₂).nodes :=
    fun m => (hp₁.trans (hperm.trans hp₂.symm)).mem_iff
  beta_reduce
  rw [GetNode_eq_scan (run_New_sorted hsort v ops₁), GetNode_eq_scan (run_New_sorted hsort v ops₂),
    answer_scan_eq_of_apart (run_New_sorted hsort v ops₁) (run_New_sorted hsort v ops₂) hmem
    (fun m₁ h₁ m₂ h₂ => hapart m₁ (hp₁.subset h₁) m₂ (hp₁.subset h₂))]

/-- **Where no two owners share a position, `AddNode` moves keys only to the new
owner**, and in any case `RemoveNode` moves no key of another owner. -/
theorem keepsOwners_of_apart (pos : K → Nat) :
    KeepsOwners OwnersApart spot pdqsort fun h key => h.GetNode (pos key) := by
  intro v ops n a key
  have hs : Sorted (Ring.run spot pdqsort (.New v) ops).nodes := run_New_sorted hsort v ops
  dsimp only
  generalize Ring.run spot pdqsort (.New v) ops = h at hs ⊢
  refine ⟨fun hget hapart => ?_, fun hget hne => ?_⟩
  · obtain ⟨hperm, hs'⟩ := AddNode_nodes hsort h n
    have hsub : ∀ x ∈ h.nodes, x ∈ (h.AddNode spot pdqsort n).nodes :=
      fun x hx => hperm.symm.subset (List.mem_append_left _ hx)
    rw [GetNode_eq_scan hs, Except.ok.injEq, answer_eq_true] at hget
    obtain ⟨m, hm, rfl⟩ := hget
    obtain ⟨hmem, hr⟩ := scan_routes hs hm
    rw [GetNode_eq_scan hs']
    cases hm' : scan (h.AddNode spot pdqsort n).nodes (pos key) with
    | none => exact absurd (scan_eq_none.mp hm') (List.ne_nil_of_mem (hsub m hmem))
    | some m' =>
      obtain ⟨hmem', hr'⟩ := scan_routes hs' hm'
      rcases List.mem_append.mp (hperm.subset hmem') with hold | hnew
      · have hhash := Routes.hash_eq hold hmem (hr'.mono hsub) hr
        simp [answer, hapart m' hmem' m (hsub m hmem) hhash]
      · obtain ⟨i, -, rfl⟩ := List.mem_map.mp hnew
        simp [answer, hspot]
  · rw [GetNode_eq_scan hs, Except.ok.injEq, answer_eq_true] at hget
    obtain ⟨m, hm, rfl⟩ := hget
    rw [GetNode_eq_scan (show Sorted (h.RemoveNode n).nodes from hs.filter _), Ring.RemoveNode,
      scan_filter hm (by simpa using hne)]
    rfl

end Moves

/-! ### Where owners share positions

Positions are bounded and names are not, so for every `virtualSpots` there
are three names whose virtual nodes sit at the same positions, spot by spot
(`exists_tied`). Two of them added in either order already route differently
with the insertion sort `sort.Sort` runs on short slices; with `pdqsort` free
to order equal positions as it likes, adding the third moves keys from one of
the other two to the other. -/

section Ties

variable {κ K : Type} {spot : GoString → Nat → RingNode κ}

/-- **Three names tie everywhere**: for every bound on positions and every
number of virtual nodes, some three names have their `i`-th virtual nodes at
one position, for each `i`. -/
theorem exists_tied {B : Nat} (hB : ∀ name i, (spot name i).hash < B) (v : Nat) :
    ∃ x y z : GoString, x ≠ y ∧ x ≠ z ∧ y ≠ z ∧
      ∀ i < v, (spot y i).hash = (spot x i).hash ∧ (spot z i).hash = (spot x i).hash := by
  let f : GoString → Fin v → Fin B := fun name i => ⟨(spot name i).hash, hB name i⟩
  obtain ⟨c, hc⟩ := Finite.exists_infinite_fiber f
  have hinf : (Set.preimage f {c}).Infinite := Set.infinite_coe_iff.mp hc
  obtain ⟨x, hx, -⟩ := hinf.exists_not_mem_finset ∅
  obtain ⟨y, hy, hyx⟩ := hinf.exists_not_mem_finset {x}
  obtain ⟨z, hz, hzxy⟩ := hinf.exists_not_mem_finset {x, y}
  simp only [Finset.mem_singleton, Finset.mem_insert, not_or] at hyx hzxy
  refine ⟨x, y, z, Ne.symm hyx, Ne.symm hzxy.1, Ne.symm hzxy.2, fun i hi => ?_⟩
  have hxy := congrArg (fun g : Fin v → Fin B => (g ⟨i, hi⟩).val) (hy.trans hx.symm)
  have hxz := congrArg (fun g : Fin v → Fin B => (g ⟨i, hi⟩).val) (hz.trans hx.symm)
  exact ⟨hxy, hxz⟩

/-- Two nodes at one position: the first is the one `GetNode` returns. -/
theorem GetNode_pair {a b : RingNode κ} (hab : a.hash = b.hash) (vs target : Nat) :
    (⟨vs, [a, b]⟩ : Ring κ).GetNode target = .ok (a.nodeName, true) := by
  rw [GetNode_eq_scan (by simp [Sorted, hab])]
  by_cases ht : target ≤ a.hash <;> simp [scan, answer, ht, ← hab]

variable (hspot : ∀ name i, (spot name i).nodeName = name)
include hspot

/-- **The order of `AddNode` calls matters**, whatever `pdqsort` does: two tied
names, one virtual node each, end in the order they were added. -/
theorem not_orderIndependent {B : Nat} (hB : ∀ name i, (spot name i).hash < B)
    (pdqsort : List (RingNode κ) → List (RingNode κ)) (pos : K → Nat) (key : K) :
    ¬ OrderIndependent (fun _ => True) spot pdqsort fun h key => h.GetNode (pos key) := by
  intro hind
  obtain ⟨x, y, _z, hxy, -, -, htie⟩ := exists_tied hB 1
  have h0 : (spot y 0).hash = (spot x 0).hash := (htie 0 Nat.one_pos).1
  have hrun : ∀ a b, (spot a 0).hash = (spot b 0).hash →
      Ring.run spot pdqsort (.New 1) [.AddNode a, .AddNode b] = ⟨1, [spot a 0, spot b 0]⟩ := by
    intro a b hab
    have hone : (Ring.New 1 : Ring κ).virtualSpots = 1 := rfl
    simp only [Ring.run, List.foldl, Ring.step, Ring.AddNode, hone, Ring.spots,
      show List.range 1 = [0] from rfl, List.map, Ring.New_nodes, List.nil_append,
      List.singleton_append, sort.Sort_singleton, sort.Sort_pair_of_key_eq _ _ hab]
  have hlive : (liveNodes spot (Ring.New 1 : Ring κ).virtualSpots [.AddNode x, .AddNode y]).Perm
      (liveNodes spot (Ring.New 1 : Ring κ).virtualSpots [.AddNode y, .AddNode x]) := by
    simpa [liveNodes, Ring.spots, Ring.New] using List.Perm.swap (spot y 0) (spot x 0) []
  have h := hind 1 [.AddNode x, .AddNode y] [.AddNode y, .AddNode x] hlive trivial key
  simp only [hrun x y h0.symm, hrun y x h0, GetNode_pair h0.symm, GetNode_pair h0, hspot] at h
  exact hxy (by simpa using h)

/-- Twice the position, plus one unless the node is `w`'s: ordering by it sorts
by position and puts `w`'s nodes first among equal positions. -/
def tieKey (w : GoString) (n : RingNode κ) : Nat := 2 * n.hash + if n.nodeName = w then 0 else 1

/-- A sort by position that puts `w`'s nodes first among equal positions. -/
def rankedSort (w : GoString) (l : List (RingNode κ)) : List (RingNode κ) :=
  l.mergeSort fun a b => decide (tieKey w a ≤ tieKey w b)

/-- A `pdqsort` that favours `y` on slices holding a node of `z`, and `x` on the
others. -/
def switchSort (x y z : GoString) (l : List (RingNode κ)) : List (RingNode κ) :=
  if l.any (fun n => n.nodeName == z) then rankedSort y l else rankedSort x l

omit hspot in
theorem mem_rankedSort {w : GoString} {l : List (RingNode κ)} {m : RingNode κ} :
    m ∈ rankedSort w l ↔ m ∈ l :=
  List.mem_mergeSort

omit hspot in
theorem hash_le_of_tieKey_le {w : GoString} {a b : RingNode κ} (h : tieKey w a ≤ tieKey w b) :
    a.hash ≤ b.hash := by
  unfold tieKey at h
  split_ifs at h <;> omega

omit hspot in
theorem rankedSort_pairwise (w : GoString) (l : List (RingNode κ)) :
    (rankedSort w l).Pairwise fun a b => tieKey w a ≤ tieKey w b := by
  simpa using @List.sorted_mergeSort _ (fun a b => decide (tieKey w a ≤ tieKey w b))
    (fun a b c hab hbc => by simp only [decide_eq_true_eq] at *; omega)
    (fun a b => by simp only [Bool.or_eq_true, decide_eq_true_eq]; omega) l

omit hspot in
theorem switchSort_contract (x y z : GoString) :
    sort.SortContract RingNode.hash (switchSort (κ := κ) x y z) := fun l => by
  have ranked : ∀ w, sort.SortContract RingNode.hash (rankedSort (κ := κ) w) := fun w l =>
    ⟨List.mergeSort_perm _ _, (rankedSort_pairwise w l).imp hash_le_of_tieKey_le⟩
  unfold switchSort
  split
  · exact ranked y l
  · exact ranked x l

omit hspot in
/-- Where every position holds a node of `w`, a ring sorted by `rankedSort w`
sends every key to `w`. -/
theorem GetNode_rankedSort (w : GoString) {l : List (RingNode κ)} (hne : l ≠ [])
    (hw : ∀ m ∈ l, ∃ m' ∈ l, m'.hash = m.hash ∧ m'.nodeName = w) {h : Ring κ}
    (hh : h.nodes = rankedSort w l) (target : Nat) : h.GetNode target = .ok (w, true) := by
  have hsorted := rankedSort_pairwise w l
  have hperm : (rankedSort w l).Perm l := List.mergeSort_perm _ _
  rw [GetNode_eq_scan (hh ▸ hsorted.imp hash_le_of_tieKey_le), hh]
  cases hm : scan (rankedSort w l) target with
  | none =>
    rw [scan_eq_none.mp hm] at hperm
    exact absurd hperm.nil_eq.symm hne
  | some m =>
    obtain ⟨m', hm', hhash, hname⟩ :=
      hw m (hperm.subset (scan_routes (hsorted.imp hash_le_of_tieKey_le) hm).1)
    have hkey := scan_first (fun a => Nat.le_refl (tieKey w a)) hsorted hm m'
      (hperm.symm.subset hm') hhash
    have hmw : m.nodeName = w := by
      by_contra hne'
      simp only [tieKey, hne', hname, hhash, if_false, if_true] at hkey
      omega
    simp [answer, hmw]

/-- **`AddNode` can move keys between two other owners**: three tied names, 13
virtual nodes each, so that every sort is `pdqsort`'s; `x` owns every key after
`x` and `y` are added, and `y` owns every key once `z` is. -/
theorem not_keepsOwners {B : Nat} (hB : ∀ name i, (spot name i).hash < B) (pos : K → Nat)
    (key : K) :
    ∃ pdqsort : List (RingNode κ) → List (RingNode κ), sort.SortContract RingNode.hash pdqsort ∧
      ¬ KeepsOwners (fun _ => True) spot pdqsort fun h key => h.GetNode (pos key) := by
  obtain ⟨x, y, z, hxy, hxz, hyz, htie⟩ := exists_tied hB 13
  refine ⟨switchSort x y z, switchSort_contract x y z, fun hkeep => ?_⟩
  have hcover : ∀ (w : GoString) (l : List (RingNode κ)), (w = x ∨ w = y ∨ w = z) →
      (∀ i < 13, spot w i ∈ l) →
      (∀ m ∈ l, ∃ i < 13, ∃ w', (w' = x ∨ w' = y ∨ w' = z) ∧ spot w' i = m) →
      ∀ m ∈ l, ∃ m' ∈ l, m'.hash = m.hash ∧ m'.nodeName = w := by
    rintro w l hw hin hl m hm
    obtain ⟨i, hi, w', hw', rfl⟩ := hl m hm
    refine ⟨spot w i, hin i hi, ?_, hspot w i⟩
    have hxi := htie i hi
    rcases hw with rfl | rfl | rfl <;> rcases hw' with rfl | rfl | rfl <;> omega
  have hmem : ∀ w m, m ∈ Ring.spots spot 13 w ↔ ∃ i < 13, spot w i = m := by
    simp [Ring.spots]
  have hlong : ∀ (l : List (RingNode κ)) w, 12 < (l ++ Ring.spots spot 13 w).length := by
    simp [Ring.spots]
  have hsw : ∀ l : List (RingNode κ), 12 < l.length →
      sort.«Sort» RingNode.hash (switchSort x y z) l =
        if ∃ m ∈ l, m.nodeName = z then rankedSort y l else rankedSort x l := by
    intro l hl
    simp [sort.Sort_of_lt _ _ hl, switchSort, List.any_eq_true]
  have hnoz : ∀ w, w ≠ z → ¬ ∃ m ∈ Ring.spots spot 13 w, m.nodeName = z := by
    rintro w hw ⟨m, hm, rfl⟩
    obtain ⟨i, -, rfl⟩ := (hmem w m).mp hm
    exact hw (hspot w i).symm
  -- the node arrays after `AddNode(x)`, `AddNode(y)` and then `AddNode(z)`
  have h₁ : sort.«Sort» RingNode.hash (switchSort x y z) (Ring.spots spot 13 x) =
      rankedSort x (Ring.spots spot 13 x) := by
    rw [hsw _ (by simp [Ring.spots]), if_neg (hnoz x hxz)]
  have h₂ : sort.«Sort» RingNode.hash (switchSort x y z)
      (rankedSort x (Ring.spots spot 13 x) ++ Ring.spots spot 13 y) =
        rankedSort x (rankedSort x (Ring.spots spot 13 x) ++ Ring.spots spot 13 y) := by
    rw [hsw _ (hlong _ _), if_neg]
    simp only [List.mem_append, rankedSort, List.mem_mergeSort, not_exists, not_and]
    rintro m (hm | hm) <;> exact fun h => by
      first | exact hnoz x hxz ⟨m, hm, h⟩ | exact hnoz y hyz ⟨m, hm, h⟩
  have h₃ : sort.«Sort» RingNode.hash (switchSort x y z)
      (rankedSort x (rankedSort x (Ring.spots spot 13 x) ++ Ring.spots spot 13 y) ++
        Ring.spots spot 13 z) =
      rankedSort y (rankedSort x (rankedSort x (Ring.spots spot 13 x) ++ Ring.spots spot 13 y) ++
        Ring.spots spot 13 z) := by
    rw [hsw _ (hlong _ _),
      if_pos ⟨spot z 0, List.mem_append_right _ ((hmem z _).mpr ⟨0, by decide, rfl⟩), hspot z 0⟩]
  have hk := (hkeep 13 [.AddNode x, .AddNode y] z x key).1
  simp only [Ring.run, List.foldl, Ring.step, Ring.AddNode, Ring.New_nodes, List.nil_append,
    show (Ring.New 13 : Ring κ).virtualSpots = 13 from rfl, h₁, h₂, h₃] at hk
  have hcov₁ : ∀ m ∈ rankedSort x (Ring.spots spot 13 x) ++ Ring.spots spot 13 y,
      ∃ i < 13, ∃ w', (w' = x ∨ w' = y ∨ w' = z) ∧ spot w' i = m := by
    simp only [List.mem_append, mem_rankedSort, hmem]
    rintro m (⟨i, hi, rfl⟩ | ⟨i, hi, rfl⟩)
    exacts [⟨i, hi, x, by simp⟩, ⟨i, hi, y, by simp⟩]
  have hcov₂ : ∀ m ∈ rankedSort x (rankedSort x (Ring.spots spot 13 x) ++ Ring.spots spot 13 y) ++
      Ring.spots spot 13 z, ∃ i < 13, ∃ w', (w' = x ∨ w' = y ∨ w' = z) ∧ spot w' i = m := by
    intro m hm
    rcases List.mem_append.mp hm with hm | hm
    · exact hcov₁ m (mem_rankedSort.mp hm)
    · obtain ⟨i, hi, rfl⟩ := (hmem z m).mp hm
      exact ⟨i, hi, z, by simp⟩
  have hxs : ∀ i < 13, spot x i ∈ rankedSort x (Ring.spots spot 13 x) ++ Ring.spots spot 13 y :=
    fun i hi => List.mem_append_left _ (mem_rankedSort.mpr ((hmem x _).mpr ⟨i, hi, rfl⟩))
  have hys : ∀ i < 13, spot y i ∈
      rankedSort x (rankedSort x (Ring.spots spot 13 x) ++ Ring.spots spot 13 y) ++ Ring.spots spot 13 z :=
    fun i hi => List.mem_append_left _
      (mem_rankedSort.mpr (List.mem_append_right _ ((hmem y _).mpr ⟨i, hi, rfl⟩)))
  have hbefore := GetNode_rankedSort x (List.ne_nil_of_mem (hxs 0 (by decide)))
    (hcover x _ (Or.inl rfl) hxs hcov₁) (h := ⟨13, _⟩) rfl (pos key)
  have hafter := GetNode_rankedSort y (List.ne_nil_of_mem (hys 0 (by decide)))
    (hcover y _ (Or.inr (Or.inl rfl)) hys hcov₂) (h := ⟨13, _⟩) rfl (pos key)
  rcases hk hbefore trivial with h | h
  · exact hxy (Prod.mk.inj (Except.ok.inj (hafter.symm.trans h))).1.symm
  · exact hyz (Prod.mk.inj (Except.ok.inj (hafter.symm.trans h))).1

end Ties

/-! ## 6. The two rings

`sum64` stands for murmur3's `New64` after `Reset` and `Write`, read with
`Sum64`. The string ring reads the last four bytes of the big-endian `Sum`,
which are the low 32 bits of `Sum64`; the integer ring keeps all 64 bits and
places a key at `uint64(key)` without hashing it. -/

namespace HashRing

/-- The position of a string on the ring: `binary.BigEndian.Uint32` of the
last four bytes of its murmur3 sum. -/
def position (sum64 : GoString → UInt64) (key : GoString) : Nat := (sum64 key).toUInt32.toNat

/-- The virtual node `nodeName:i` of `AddNode`. -/
def spot (sum64 : GoString → UInt64) (nodeName : GoString) (i : Nat) : RingNode GoString :=
  let key := nodeName ++ ascii ":" ++ itoa i
  { nodeName := nodeName, key := key, hash := position sum64 key }

/-- `(*HashRing).AddNode`. -/
def AddNode (sum64 : GoString → UInt64) (pdqsort : List (RingNode GoString) → List (RingNode GoString))
    (h : Ring GoString) (nodeName : GoString) : Ring GoString :=
  h.AddNode (spot sum64) pdqsort nodeName

/-- `(*HashRing).RemoveNode`. -/
def RemoveNode (h : Ring GoString) (nodeName : GoString) : Ring GoString := h.RemoveNode nodeName

/-- `(*HashRing).GetNode`. -/
def GetNode (sum64 : GoString → UInt64) (h : Ring GoString) (key : GoString) : Go (GoString × Bool) :=
  h.GetNode (position sum64 key)

theorem spot_nodeName (sum64 : GoString → UInt64) (nodeName : GoString) (i : Nat) :
    (spot sum64 nodeName i).nodeName = nodeName := rfl

theorem spot_hash_lt (sum64 : GoString → UInt64) (nodeName : GoString) (i : Nat) :
    (spot sum64 nodeName i).hash < 2 ^ 32 := UInt32.toNat_lt_size _

end HashRing

/-- `NewRing(virtualSpots)`. -/
def NewRing (virtualSpots : Int) : Ring GoString := Ring.New virtualSpots

namespace Int64HashRing

/-- The virtual node `nodeName:i` of `AddNode`: its key is the hash read as an
`int64`. -/
def spot (sum64 : GoString → UInt64) (nodeName : GoString) (i : Nat) : RingNode Int :=
  let keyStr := nodeName ++ ascii ":" ++ itoa i
  let hash64 := sum64 keyStr
  { nodeName := nodeName, key := int64OfUInt64 hash64, hash := hash64.toNat }

/-- `(*Int64HashRing).AddNode`. -/
def AddNode (sum64 : GoString → UInt64) (pdqsort : List (RingNode Int) → List (RingNode Int))
    (h : Ring Int) (nodeName : GoString) : Ring Int :=
  h.AddNode (spot sum64) pdqsort nodeName

/-- `(*Int64HashRing).RemoveNode`. -/
def RemoveNode (h : Ring Int) (nodeName : GoString) : Ring Int := h.RemoveNode nodeName

/-- `(*Int64HashRing).GetNode`. -/
def GetNode (h : Ring Int) (key : Int) : Go (GoString × Bool) := h.GetNode (uint64OfInt key).toNat

theorem spot_nodeName (sum64 : GoString → UInt64) (nodeName : GoString) (i : Nat) :
    (spot sum64 nodeName i).nodeName = nodeName := rfl

theorem spot_hash_lt (sum64 : GoString → UInt64) (nodeName : GoString) (i : Nat) :
    (spot sum64 nodeName i).hash < 2 ^ 64 := UInt64.toNat_lt_size _

end Int64HashRing

/-- `NewInt64Ring(virtualSpots)`. -/
def NewInt64Ring (virtualSpots : Int) : Ring Int := Ring.New virtualSpots

/-- **Both rings route every key**: after any calls, `GetNode` returns
`("", false)` exactly when no virtual node is live, and otherwise the owner of
a live virtual node at the least live position at or above the key's, or, when
there is none, at the least live position. -/
theorem GetNode_routes (sum64 : GoString → UInt64)
    (pdqsort : List (RingNode GoString) → List (RingNode GoString))
    (pdqsort64 : List (RingNode Int) → List (RingNode Int))
    (hsort : sort.SortContract RingNode.hash pdqsort)
    (hsort64 : sort.SortContract RingNode.hash pdqsort64)
    (virtualSpots : Int) (ops : List Op) (key : GoString) (key64 : Int) :
    Routed (liveNodes (HashRing.spot sum64) (NewRing virtualSpots).virtualSpots ops)
        (HashRing.position sum64 key)
        (HashRing.GetNode sum64 (Ring.run (HashRing.spot sum64) pdqsort (NewRing virtualSpots) ops) key) ∧
      Routed (liveNodes (Int64HashRing.spot sum64) (NewInt64Ring virtualSpots).virtualSpots ops)
        (uint64OfInt key64).toNat
        (Int64HashRing.GetNode (Ring.run (Int64HashRing.spot sum64) pdqsort64 (NewInt64Ring virtualSpots) ops)
          key64) :=
  ⟨run_routed (HashRing.spot_nodeName sum64) hsort virtualSpots ops _,
    run_routed (Int64HashRing.spot_nodeName sum64) hsort64 virtualSpots ops _⟩

theorem GetNode_routes_one_node :
    Routed (liveNodes (HashRing.spot fun _ => 0) (NewRing 1).virtualSpots [.AddNode (ascii "a")])
        (HashRing.position (fun _ => 0) [])
        (HashRing.GetNode (fun _ => 0)
          (Ring.run (HashRing.spot fun _ => 0) (sort.insertionSort RingNode.hash) (NewRing 1)
            [.AddNode (ascii "a")]) []) ∧
      Routed (liveNodes (Int64HashRing.spot fun _ => 0) (NewInt64Ring 1).virtualSpots [.AddNode (ascii "a")])
        (uint64OfInt 0).toNat
        (Int64HashRing.GetNode
          (Ring.run (Int64HashRing.spot fun _ => 0) (sort.insertionSort RingNode.hash) (NewInt64Ring 1)
            [.AddNode (ascii "a")]) 0) :=
  GetNode_routes _ _ _ (sort.insertionSort_contract _) (sort.insertionSort_contract _) 1 _ _ _

/-- **Where no two owners share a position, the order of calls does not
matter** to either ring: call sequences that leave the same live virtual nodes
route every key to the same owner. -/
theorem GetNode_order_independent (sum64 : GoString → UInt64)
    (pdqsort : List (RingNode GoString) → List (RingNode GoString))
    (pdqsort64 : List (RingNode Int) → List (RingNode Int))
    (hsort : sort.SortContract RingNode.hash pdqsort)
    (hsort64 : sort.SortContract RingNode.hash pdqsort64) :
    OrderIndependent OwnersApart (HashRing.spot sum64) pdqsort (HashRing.GetNode sum64) ∧
      OrderIndependent OwnersApart (Int64HashRing.spot sum64) pdqsort64 Int64HashRing.GetNode :=
  ⟨orderIndependent_of_apart (HashRing.spot_nodeName sum64) hsort (HashRing.position sum64),
    orderIndependent_of_apart (Int64HashRing.spot_nodeName sum64) hsort64
      fun key => (uint64OfInt key).toNat⟩

theorem GetNode_order_independent_insertionSort :
    OrderIndependent OwnersApart (HashRing.spot fun _ => 0) (sort.insertionSort RingNode.hash)
        (HashRing.GetNode fun _ => 0) ∧
      OrderIndependent OwnersApart (Int64HashRing.spot fun _ => 0) (sort.insertionSort RingNode.hash)
        Int64HashRing.GetNode :=
  GetNode_order_independent _ _ _ (sort.insertionSort_contract _) (sort.insertionSort_contract _)

/-- **The order of calls matters to both rings**: for every hash and whatever
`pdqsort` does, two call sequences that leave the same live virtual nodes route
some key to different owners. -/
theorem GetNode_order_dependent :
    (¬ ∃ (sum64 : GoString → UInt64) (pdqsort : List (RingNode GoString) → List (RingNode GoString)),
        OrderIndependent (fun _ => True) (HashRing.spot sum64) pdqsort (HashRing.GetNode sum64)) ∧
      ¬ ∃ (sum64 : GoString → UInt64) (pdqsort64 : List (RingNode Int) → List (RingNode Int)),
        OrderIndependent (fun _ => True) (Int64HashRing.spot sum64) pdqsort64 Int64HashRing.GetNode :=
  ⟨fun ⟨sum64, pdqsort, h⟩ => not_orderIndependent (HashRing.spot_nodeName sum64)
      (HashRing.spot_hash_lt sum64) pdqsort (HashRing.position sum64) [] h,
    fun ⟨sum64, pdqsort64, h⟩ => not_orderIndependent (Int64HashRing.spot_nodeName sum64)
      (Int64HashRing.spot_hash_lt sum64) pdqsort64 (fun key => (uint64OfInt key).toNat) 0 h⟩

/-- **On both rings `RemoveNode` moves no key of another owner, and, where no
two owners share a position after it, `AddNode(n)` moves keys only to `n`.** -/
theorem GetNode_keeps_owners (sum64 : GoString → UInt64)
    (pdqsort : List (RingNode GoString) → List (RingNode GoString))
    (pdqsort64 : List (RingNode Int) → List (RingNode Int))
    (hsort : sort.SortContract RingNode.hash pdqsort)
    (hsort64 : sort.SortContract RingNode.hash pdqsort64) :
    KeepsOwners OwnersApart (HashRing.spot sum64) pdqsort (HashRing.GetNode sum64) ∧
      KeepsOwners OwnersApart (Int64HashRing.spot sum64) pdqsort64 Int64HashRing.GetNode :=
  ⟨keepsOwners_of_apart (HashRing.spot_nodeName sum64) hsort (HashRing.position sum64),
    keepsOwners_of_apart (Int64HashRing.spot_nodeName sum64) hsort64
      fun key => (uint64OfInt key).toNat⟩

theorem GetNode_keeps_owners_insertionSort :
    KeepsOwners OwnersApart (HashRing.spot fun _ => 0) (sort.insertionSort RingNode.hash)
        (HashRing.GetNode fun _ => 0) ∧
      KeepsOwners OwnersApart (Int64HashRing.spot fun _ => 0) (sort.insertionSort RingNode.hash)
        Int64HashRing.GetNode :=
  GetNode_keeps_owners _ _ _ (sort.insertionSort_contract _) (sort.insertionSort_contract _)

/-- **`AddNode` can move keys between two other owners** on both rings: for
every hash there is a `pdqsort` meeting the package's contract under which an
`AddNode(z)` moves keys from `x` to `y`. -/
theorem AddNode_moves_other_owner :
    (¬ ∃ sum64 : GoString → UInt64, ∀ pdqsort : List (RingNode GoString) → List (RingNode GoString),
        sort.SortContract RingNode.hash pdqsort →
          KeepsOwners (fun _ => True) (HashRing.spot sum64) pdqsort (HashRing.GetNode sum64)) ∧
      ¬ ∃ sum64 : GoString → UInt64, ∀ pdqsort64 : List (RingNode Int) → List (RingNode Int),
        sort.SortContract RingNode.hash pdqsort64 →
          KeepsOwners (fun _ => True) (Int64HashRing.spot sum64) pdqsort64 Int64HashRing.GetNode :=
  ⟨fun ⟨sum64, h⟩ =>
    let ⟨pdqsort, hsort, hnot⟩ := not_keepsOwners (HashRing.spot_nodeName sum64)
      (HashRing.spot_hash_lt sum64) (HashRing.position sum64) []
    hnot (h pdqsort hsort),
  fun ⟨sum64, h⟩ =>
    let ⟨pdqsort64, hsort, hnot⟩ := not_keepsOwners (Int64HashRing.spot_nodeName sum64)
      (Int64HashRing.spot_hash_lt sum64) (fun key => (uint64OfInt key).toNat) 0
    hnot (h pdqsort64 hsort)⟩

end VulcanPkgTool.ConsistentHash
