import VulcanPkgTool.Go

/-!
Go's `sort` package, as far as the consistent-hash rings use it.

`Search(n, f)` is the binary search for the least index of `[0, n)` at which
`f` holds, written as the loop the standard library runs. For an `f` that is
monotone on `[0, n)` it returns the boundary (`Search_spec`); over a list whose
predicate is monotone along it, the boundary is the index of the element
`List.find?` finds, or the length when there is none (`getElem?_Search`).

`Sort(data)` is pattern-defeating quicksort. A slice of at most 12 elements
goes straight to `insertionSort`, which is written out here: it swaps two
neighbours only when `Less` holds strictly, so on short slices `Sort` keeps
equal elements in the order it found them. Longer slices go through pivot
choice, partitioning and a heapsort fallback that are not modelled: `Sort`
takes that branch as a function `pdqsort`, and the statements that use it
assume only what the package documents, that the result is an ordered
permutation of the input (`SortContract`), "not guaranteed to be stable".
Both slices sorted in this repository order by an unsigned hash, so `Less`
is given by a key in `Nat`.
-/

set_option autoImplicit false

namespace VulcanPkgTool.sort

/-! ## `Search` -/

/-- The loop of `Search`: `f` is false below `i` and true from `j` on, and `h`
is the midpoint `int(uint(i+j) >> 1)`. -/
def searchLoop (f : Nat → Bool) (i j : Nat) : Nat :=
  if i < j then
    let h := (i + j) / 2
    if !f h then searchLoop f (h + 1) j else searchLoop f i h
  else i
termination_by j - i

/-- `sort.Search(n, f)`. -/
def Search (n : Nat) (f : Nat → Bool) : Nat := searchLoop f 0 n

section Search

variable (f : Nat → Bool) (n : Nat)

/-- The loop keeps its invariant: `f` is false below `i` and true on `[j, n)`. -/
theorem searchLoop_spec (hf : ∀ x y, x ≤ y → y < n → f x = true → f y = true) (i j : Nat)
    (hij : i ≤ j) (hj : j ≤ n) (hi : ∀ x < i, f x = false) (hj' : ∀ x, j ≤ x → x < n → f x = true) :
    searchLoop f i j ≤ j ∧ (∀ x < searchLoop f i j, f x = false) ∧
      ∀ x, searchLoop f i j ≤ x → x < n → f x = true := by
  induction i, j using searchLoop.induct f with
  | case1 i j hlt _ hfh ih =>
    rw [searchLoop, if_pos hlt, if_pos hfh]
    refine ih (by omega) hj (fun x hx => ?_) hj'
    rcases Nat.lt_succ_iff_lt_or_eq.mp hx with hx | rfl
    · by_cases hxi : x < i
      · exact hi x hxi
      · cases hfx : f x
        · rfl
        · simp [hf x ((i + j) / 2) (by omega) (by omega) hfx] at hfh
    · simpa using hfh
  | case2 i j hlt _ hfh ih =>
    rw [searchLoop, if_pos hlt, if_neg hfh]
    have hmid : (i + j) / 2 ≤ j := by omega
    have hj'' : ∀ x, (i + j) / 2 ≤ x → x < n → f x = true := fun x hx hxn => by
      by_cases hxj : j ≤ x
      · exact hj' x hxj hxn
      · exact hf _ x hx hxn (by simpa using hfh)
    obtain ⟨hle, hinv⟩ := ih (by omega) (by omega) hi hj''
    exact ⟨Nat.le_trans hle hmid, hinv⟩
  | case3 i j hge =>
    rw [searchLoop, if_neg hge]
    obtain rfl : i = j := by omega
    exact ⟨le_rfl, hi, hj'⟩

/-- **`Search` finds the boundary** of an `f` that is monotone on `[0, n)`:
`f` is false below the result and true from it up to `n`. -/
theorem Search_spec (hf : ∀ x y, x ≤ y → y < n → f x = true → f y = true) :
    Search n f ≤ n ∧ (∀ x < Search n f, f x = false) ∧
      ∀ x, Search n f ≤ x → x < n → f x = true :=
  searchLoop_spec f n hf 0 n (Nat.zero_le n) le_rfl (fun _ h => absurd h (Nat.not_lt_zero _))
    (fun _ h1 h2 => absurd h2 (Nat.not_lt_of_le h1))

end Search

/-- An index below which the predicate fails and from which it holds (past the
end of the list too) is where `find?` stops. -/
theorem getElem?_eq_find? {α : Type} {P : α → Bool} : ∀ {l : List α} {r : Nat},
    (∀ x < r, l[x]?.all P = false) → (∀ x, r ≤ x → l[x]?.all P = true) → l[r]? = l.find? P
  | [], _, _, _ => by simp
  | a :: l, 0, _, hge => by
    have ha : P a = true := by simpa using hge 0 le_rfl
    simp [ha]
  | a :: l, r + 1, hlt, hge => by
    have ha : P a = false := by simpa using hlt 0 (Nat.succ_pos r)
    rw [List.find?_cons_of_neg _ (by simp [ha]), List.getElem?_cons_succ]
    exact getElem?_eq_find? (fun x hx => by simpa using hlt (x + 1) (by omega))
      (fun x hx => by simpa using hge (x + 1) (by omega))

/-- **`Search` over a list agrees with a linear scan**: when the predicate is
monotone along the list, the index `Search` returns holds the element `find?`
finds, and is past the end when there is none. -/
theorem getElem?_Search {α : Type} {l : List α} {P : α → Bool}
    (hP : l.Pairwise fun a b => P a = true → P b = true) :
    Search l.length (fun i => l[i]?.all P) ≤ l.length ∧
      l[Search l.length (fun i => l[i]?.all P)]? = l.find? P := by
  have hmono : ∀ x y, x ≤ y → y < l.length →
      l[x]?.all P = true → l[y]?.all P = true := by
    intro x y hxy hy hx
    rcases Nat.lt_or_eq_of_le hxy with hxy | rfl
    · have hpair := List.pairwise_iff_getElem.mp hP x y (by omega) hy hxy
      simp only [List.getElem?_eq_getElem (Nat.lt_trans hxy hy), List.getElem?_eq_getElem hy,
        Option.all_some] at hx ⊢
      exact hpair hx
    · exact hx
  obtain ⟨hle, hlt, hge⟩ := Search_spec _ _ hmono
  refine ⟨hle, getElem?_eq_find? hlt fun x hx => ?_⟩
  by_cases hxl : x < l.length
  · exact hge x hx hxl
  · simp [List.getElem?_eq_none (Nat.le_of_not_lt hxl)]

/-! ## `Sort` -/

section Sorting

variable {α : Type} (key : α → Nat)

/-- What the package documents of a sort: the result is a permutation of the
input, ordered by `key`. -/
def SortContract (srt : List α → List α) : Prop :=
  ∀ data, (srt data).Perm data ∧ (srt data).Pairwise fun a b => key a ≤ key b

/-- The inner loop of `insertionSort` for one element: while `Less(j, j-1)`,
swap. The sorted prefix is held reversed, so moving left walks down the list. -/
def insertLeft (x : α) : List α → List α
  | [] => [x]
  | y :: ys => if key x < key y then y :: insertLeft x ys else x :: y :: ys

/-- `insertionSort(data, 0, n)`: each element in turn moves left past the
greater ones before it. -/
def insertionSort (data : List α) : List α :=
  (data.foldl (fun pre x => insertLeft key x pre) []).reverse

/-- `sort.Sort(data)` with `Less(i, j)` being `key i < key j`: insertion sort
on at most 12 elements, `pdqsort` proper beyond. -/
def «Sort» (pdqsort : List α → List α) (data : List α) : List α :=
  if data.length ≤ 12 then insertionSort key data else pdqsort data

theorem insertLeft_perm (x : α) : ∀ pre : List α, (insertLeft key x pre).Perm (x :: pre)
  | [] => .refl _
  | y :: ys => by
    unfold insertLeft
    split
    · exact ((insertLeft_perm x ys).cons y).trans (.swap x y ys)
    · exact .refl _

/-- Inserting keeps the reversed prefix ordered, greatest key first. -/
theorem insertLeft_pairwise (x : α) : ∀ {pre : List α},
    pre.Pairwise (fun a b => key b ≤ key a) →
      (insertLeft key x pre).Pairwise fun a b => key b ≤ key a
  | [], _ => List.pairwise_singleton _ _
  | y :: ys, h => by
    rw [List.pairwise_cons] at h
    unfold insertLeft
    split
    · refine List.pairwise_cons.mpr ⟨fun z hz => ?_, insertLeft_pairwise x h.2⟩
      rcases List.mem_cons.mp ((insertLeft_perm key x ys).subset hz) with rfl | hz
      · omega
      · exact h.1 z hz
    · refine List.pairwise_cons.mpr ⟨fun z hz => ?_, List.pairwise_cons.mpr h⟩
      rcases List.mem_cons.mp hz with rfl | hz
      · omega
      · exact Nat.le_trans (h.1 z hz) (by omega)

theorem foldl_insertLeft (data : List α) : ∀ pre : List α,
    pre.Pairwise (fun a b => key b ≤ key a) →
      (data.foldl (fun pre x => insertLeft key x pre) pre).Perm (data.reverse ++ pre) ∧
        (data.foldl (fun pre x => insertLeft key x pre) pre).Pairwise fun a b => key b ≤ key a := by
  induction data with
  | nil => exact fun pre h => ⟨.refl _, h⟩
  | cons x data ih =>
    intro pre h
    obtain ⟨hperm, hsorted⟩ := ih _ (insertLeft_pairwise key x h)
    refine ⟨hperm.trans ?_, hsorted⟩
    simpa using (List.perm_append_left_iff _).mpr (insertLeft_perm key x pre)

theorem insertionSort_contract : SortContract key (insertionSort key) := fun data => by
  obtain ⟨hperm, hsorted⟩ := foldl_insertLeft key data [] List.Pairwise.nil
  exact ⟨(List.reverse_perm _).trans (hperm.trans (by simp)),
    List.pairwise_reverse.mpr hsorted⟩

/-- `Sort` keeps the contract whenever its `pdqsort` branch does. -/
theorem Sort_contract {pdqsort : List α → List α} (h : SortContract key pdqsort) :
    SortContract key («Sort» key pdqsort) := fun data => by
  unfold «Sort»
  split
  · exact insertionSort_contract key data
  · exact h data

/-- Beyond 12 elements `Sort` is `pdqsort` proper. -/
theorem Sort_of_lt (pdqsort : List α → List α) {data : List α} (h : 12 < data.length) :
    «Sort» key pdqsort data = pdqsort data :=
  if_neg (Nat.not_le_of_lt h)

theorem Sort_singleton (pdqsort : List α → List α) (a : α) : «Sort» key pdqsort [a] = [a] := rfl

/-- Two elements of equal key stay in order: `Less` fails both ways. -/
theorem Sort_pair_of_key_eq (pdqsort : List α → List α) {a b : α} (h : key a = key b) :
    «Sort» key pdqsort [a, b] = [a, b] := by
  simp [«Sort», insertionSort, insertLeft, h]

end Sorting

end VulcanPkgTool.sort
