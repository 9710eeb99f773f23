import VulcanPkgTool.Go

/-!
`compress`: zlib compression above a size threshold, at a faster level below a
second threshold, through buffers taken from a `sync.Pool`.

The package's state is its two thresholds, set by `Init`, and the buffers of
`compressBufferPool`. A buffer's bytes live in a backing array of the heap, and
`zlibCompress` returns `buffer.Bytes()`, a slice of that array, before its
deferred function resets the buffer and puts it back in the pool. So the slice
`Compress` returns is shared with a pooled buffer. The model keeps the heap:
`bytes.Buffer.Write` writes in place while the capacity allows and moves to a
new array otherwise, as `tryGrowByReslice` and `grow` do, and a returned slice
is read from the heap when it is read.

zlib is not modelled: `Zlib` gives the writes a zlib writer makes on its
`io.Writer` and what a zlib reader reads back, and `Zlib.RoundTrips` is the law
that it reads back what was written. Which pooled buffer `Get` returns, if any,
is the runtime's choice, and an input here.

- Every call returns without an error; read right away, the result is the data
  or, when compressed, a stream `Decompress` reads back to the data
  (`Compress_Decompress`), in every state a sequence of calls reaches.
- The result does not stay as it was. When the next `Compress` gets the same
  buffer back from the pool, which `sync.Pool` does on one goroutine between
  collections, it writes its own output over the first result's bytes
  (`Compress_overwrites`).

`Decompress` is modelled by what it returns; its result is a slice of a pooled
buffer in the same way, and the model does not follow that buffer.
-/

set_option autoImplicit false

namespace VulcanPkgTool

namespace compress

/-! ## 1. Buffers and pools -/

/-- The heap: backing arrays by address, each with as many bytes as its capacity. -/
abbrev Heap := List GoString

/-- A `[]byte` into the heap: its array, offset and length. -/
structure Slice where
  arr : Nat
  off : Nat
  len : Nat
  deriving DecidableEq, Repr

/-- The bytes a slice reads now. -/
def Heap.read (h : Heap) (s : Slice) : GoString := ((h.getD s.arr []).drop s.off).take s.len

/-- A `bytes.Buffer` that is only written and reset, so its read offset stays 0:
its backing array (none while `buf` is nil) and its length. -/
structure Buffer where
  arr : Option Nat
  len : Nat
  deriving DecidableEq, Repr

/-- `b.Bytes()`, `b.buf[b.off:]`. -/
def Buffer.Bytes (b : Buffer) : Slice := ⟨b.arr.getD 0, 0, b.len⟩

/-- `b.Reset()`: length 0, same array. -/
def Buffer.Reset (b : Buffer) : Buffer := { b with len := 0 }

/-- `smallBufferSize`. -/
def smallBufferSize : Nat := 64

/-- The capacity `b.grow(n)` allocates when the bytes do not fit, for a buffer of
length `m` and capacity `c`: `make([]byte, n, smallBufferSize)` for a small first
write to a nil buffer, else `growSlice`'s `max(m + n, 2c)`, which `append` rounds
up to a size class (`roundup`). -/
def growCap (roundup : Nat → Nat) (isNil : Bool) (m c n : Nat) : Nat :=
  if isNil ∧ n ≤ smallBufferSize then smallBufferSize else roundup (max (m + n) (2 * c))

/-- `b.Write(p)`: in place when the capacity allows, otherwise into a new array
holding the old bytes, `p`, and zeros up to the new capacity. -/
def Buffer.Write (roundup : Nat → Nat) (h : Heap) (b : Buffer) (p : GoString) : Heap × Buffer :=
  match b.arr with
  | none =>
    if p.length = 0 then (h, b)
    else (h ++ [p ++ List.replicate (growCap roundup true 0 0 p.length - p.length) 0], ⟨some h.length, p.length⟩)
  | some a =>
    if b.len + p.length ≤ (h.getD a []).length then
      (h.set a ((h.getD a []).take b.len ++ p ++ (h.getD a []).drop (b.len + p.length)),
        ⟨some a, b.len + p.length⟩)
    else
      (h ++ [(h.getD a []).take b.len ++ p ++
          List.replicate (growCap roundup false b.len (h.getD a []).length p.length - (b.len + p.length)) 0],
        ⟨some h.length, b.len + p.length⟩)

/-- A sequence of `Write` calls. -/
def Buffer.writeAll (roundup : Nat → Nat) (hb : Heap × Buffer) (ws : List GoString) : Heap × Buffer :=
  ws.foldl (fun hb p => Buffer.Write roundup hb.1 hb.2 p) hb

/-- A `sync.Pool` of buffers whose `New` is `new(bytes.Buffer)`. -/
structure Pool where
  items : List Buffer
  deriving DecidableEq, Repr

/-- `p.Get()`: the pooled buffer the runtime picks, or a new one. -/
def Pool.Get (p : Pool) (pick : Option Nat) : Buffer × Pool :=
  match pick.bind (p.items.get? ·) with
  | some b => (b, ⟨p.items.eraseIdx (pick.getD 0)⟩)
  | none => (⟨none, 0⟩, p)

/-- `p.Put(b)`. -/
def Pool.Put (p : Pool) (b : Buffer) : Pool := ⟨b :: p.items⟩

/-! ## 2. The package -/

/-- `zlib.HuffmanOnly`. -/
def HuffmanOnly : Int := -2

/-- `zlib.DefaultCompression`. -/
def DefaultCompression : Int := -1

/-- `zlib.BestSpeed`. -/
def BestSpeed : Int := 1

/-- `zlib.BestCompression`. -/
def BestCompression : Int := 9

/-- `defaultWeakLevel`. -/
def defaultWeakLevel : Int := BestSpeed

/-- `defaultStrongLevel`. -/
def defaultStrongLevel : Int := DefaultCompression

/-- What the package uses of `compress/zlib`: the `Write` calls that
`NewWriterLevel(w, level)`, `Write(data)` and `Close()` make on `w`; the error
`NewReader(bytes.NewReader(data))` returns, if any; and what reading it to the
end gives, the bytes or the error of a read. -/
structure Zlib where
  writes : Int → GoString → List GoString
  readerErr : GoString → Option String
  readAll : GoString → Except String GoString

/-- zlib reads back what it wrote at a valid level, and a stream is never empty:
it has a header and a checksum. -/
def Zlib.RoundTrips (z : Zlib) : Prop :=
  ∀ level data, HuffmanOnly ≤ level → level ≤ BestCompression →
    (z.writes level data).flatten ≠ [] ∧ z.readerErr (z.writes level data).flatten = none ∧
      z.readAll (z.writes level data).flatten = .ok data

/-- The package's variables: the thresholds `compressMutex` guards, the heap,
and `compressBufferPool`. -/
structure State where
  defaultWeakCompress : Int
  defaultStrongCompress : Int
  heap : Heap
  compressBufferPool : Pool

/-- The state at program start: `10 << 10` and `512 << 10`, an empty pool. -/
def NewState : State := ⟨10 * 1024, 512 * 1024, [], ⟨[]⟩⟩

/-- `Init(weak, strong)`: each positive argument replaces its threshold. -/
def Init (st : State) (weak strong : Int) : State :=
  { st with
    defaultWeakCompress := if weak > 0 then weak else st.defaultWeakCompress
    defaultStrongCompress := if strong > 0 then strong else st.defaultStrongCompress }

/-- `zlibCompress(data, level)`: the slice of the buffer's bytes, and the state
after the deferred `Reset` and `Put`. `Write` and `Close` on a `bytes.Buffer`
cannot fail. -/
def zlibCompress (z : Zlib) (roundup : Nat → Nat) (st : State) (pick : Option Nat) (data : GoString)
    (level : Int) : Except String Slice × State :=
  let level := if level < BestSpeed ∨ level > BestCompression then DefaultCompression else level
  let got := st.compressBufferPool.Get pick
  if level < HuffmanOnly ∨ BestCompression < level then
    (.error ("create zlib writer failed (level " ++ toString level ++ "): zlib: invalid compression level: " ++
      toString level), { st with compressBufferPool := got.2.Put got.1.Reset })
  else
    let written := Buffer.writeAll roundup (st.heap, got.1) (z.writes level data)
    (.ok written.2.Bytes, { st with heap := written.1, compressBufferPool := got.2.Put written.2.Reset })

/-- A result of `Compress`: a slice the caller owns, or one into a pooled buffer. -/
inductive Bytes where
  | own (b : GoString)
  | pooled (s : Slice)
  deriving DecidableEq, Repr

/-- The bytes a result reads now. -/
def Bytes.read (h : Heap) : Bytes → GoString
  | .own b => b
  | .pooled s => h.read s

/-- `Compress(data)`: the result, whether it was compressed, and the state after. -/
def Compress (z : Zlib) (roundup : Nat → Nat) (st : State) (pick : Option Nat) (data : GoString) :
    Except String (Bytes × Bool) × State :=
  if data.length = 0 then (.ok (.own [], false), st)
  else
    let weakThreshold := st.defaultWeakCompress
    let strongThreshold := st.defaultStrongCompress
    if (data.length : Int) < weakThreshold then (.ok (.own data, false), st)
    else
      let level := if (data.length : Int) ≥ strongThreshold then defaultStrongLevel else defaultWeakLevel
      match zlibCompress z roundup st pick data level with
      | (.error err, st') => (.error ("compression failed: " ++ err), st')
      | (.ok s, st') => (.ok (.pooled s, true), st')

/-- `zlibDecompress(data)`. -/
def zlibDecompress (z : Zlib) (data : GoString) : Except String GoString :=
  match z.readerErr data with
  | some err => .error ("create zlib reader failed: " ++ err)
  | none =>
    match z.readAll data with
    | .error err => .error ("read from decompressor failed: " ++ err)
    | .ok out => .ok out

/-- `Decompress(data)`. -/
def Decompress (z : Zlib) (data : GoString) : Except String GoString :=
  if data.length = 0 then .ok []
  else
    match zlibDecompress z data with
    | .error err => .error ("decompression failed: " ++ err)
    | .ok out => .ok out

/-- A call of the package. -/
inductive Call where
  | init (weak strong : Int)
  | compress (pick : Option Nat) (data : GoString)
  | decompress (data : GoString)

/-- The state after a call. -/
def step (z : Zlib) (roundup : Nat → Nat) (st : State) : Call → State
  | .init weak strong => Init st weak strong
  | .compress pick data => (Compress z roundup st pick data).2
  | .decompress _ => st

/-- The states some sequence of calls reaches from program start. -/
inductive Reachable (z : Zlib) (roundup : Nat → Nat) : State → Prop
  | start : Reachable z roundup NewState
  | step {st : State} (c : Call) : Reachable z roundup st → Reachable z roundup (step z roundup st c)

/-! ## 3. What a buffer holds -/

/-- `b` holds the bytes `c`: they are as many as its length, and they begin its
array, which is allocated. -/
structure Buffer.Holds (h : Heap) (b : Buffer) (c : GoString) : Prop where
  len_eq : b.len = c.length
  nil : b.arr = none → c = []
  arr : ∀ a, b.arr = some a → a < h.length ∧ c <+: h.getD a []

@[simp] theorem getD_set_self {h : Heap} {a : Nat} (x : GoString) (ha : a < h.length) :
    (h.set a x).getD a [] = x := by
  simp [List.getD_eq_getElem?_getD, List.getElem?_set, ha]

@[simp] theorem getD_append_length (h : Heap) (x : GoString) : (h ++ [x]).getD h.length [] = x := by
  simp [List.getD_eq_getElem?_getD]

section Write

variable (roundup : Nat → Nat)

theorem length_le_Write (h : Heap) (b : Buffer) (p : GoString) : h.length ≤ (Buffer.Write roundup h b p).1.length := by
  unfold Buffer.Write
  split
  · split <;> simp
  · split <;> simp

theorem length_le_writeAll : ∀ (ws : List GoString) (hb : Heap × Buffer),
    hb.1.length ≤ (Buffer.writeAll roundup hb ws).1.length
  | [], _ => le_rfl
  | p :: ws, hb => (length_le_Write roundup hb.1 hb.2 p).trans (length_le_writeAll ws _)

/-- **A write appends to what the buffer holds**, in place or in a new array. -/
theorem Buffer.Holds.write {h : Heap} {b : Buffer} {c : GoString} (hb : b.Holds h c) (p : GoString) :
    (Buffer.Write roundup h b p).2.Holds (Buffer.Write roundup h b p).1 (c ++ p) := by
  cases harr : b.arr with
  | none =>
    obtain rfl := hb.nil harr
    by_cases hp : p.length = 0
    · rw [List.length_eq_zero.mp hp]
      simpa [Buffer.Write, harr] using hb
    · simp only [Buffer.Write, harr, if_neg hp]
      refine ⟨rfl, fun h => Option.noConfusion h, fun a ha => ?_⟩
      cases ha
      exact ⟨by simp, by simp [List.prefix_append]⟩
  | some a =>
    obtain ⟨hlt, hpre⟩ := hb.arr a harr
    have htake : (h.getD a []).take b.len = c := by
      rw [hb.len_eq, ← List.prefix_iff_eq_take.mp hpre]
    simp only [Buffer.Write, harr]
    split
    · refine ⟨by simp [hb.len_eq], fun h => Option.noConfusion h, fun a' ha' => ?_⟩
      cases ha'
      refine ⟨by simpa using hlt, ?_⟩
      rw [getD_set_self _ hlt, htake]
      exact List.prefix_append _ _
    · refine ⟨by simp [hb.len_eq], fun h => Option.noConfusion h, fun a' ha' => ?_⟩
      cases ha'
      refine ⟨by simp, ?_⟩
      rw [getD_append_length, htake]
      exact List.prefix_append _ _

theorem Buffer.Holds.writeAll : ∀ (ws : List GoString) {h : Heap} {b : Buffer} {c : GoString},
    b.Holds h c → (Buffer.writeAll roundup (h, b) ws).2.Holds (Buffer.writeAll roundup (h, b) ws).1 (c ++ ws.flatten)
  | [], _, _, c, hb => by simpa [Buffer.writeAll] using hb
  | p :: ws, _, _, c, hb => by
    have := Buffer.Holds.writeAll ws (hb.write roundup p)
    rwa [List.append_assoc] at this

/-- Writes that fit in the array go in place: the array keeps its address and
capacity, and its bytes from the buffer's length on are the written ones. -/
theorem writeAll_in_place : ∀ (ws : List GoString) (h : Heap) (a len : Nat), a < h.length →
    len + ws.flatten.length ≤ (h.getD a []).length →
      (Buffer.writeAll roundup (h, ⟨some a, len⟩) ws).2 = ⟨some a, len + ws.flatten.length⟩ ∧
      (Buffer.writeAll roundup (h, ⟨some a, len⟩) ws).1.length = h.length ∧
      (Buffer.writeAll roundup (h, ⟨some a, len⟩) ws).1.getD a [] =
        (h.getD a []).take len ++ ws.flatten ++ (h.getD a []).drop (len + ws.flatten.length)
  | [], h, a, len, _, hfit => by
    simp only [Buffer.writeAll, List.foldl_nil, List.flatten_nil, List.length_nil, Nat.add_zero,
      List.append_nil, List.take_append_drop, and_self]
  | p :: ws, h, a, len, ha, hfit => by
    simp only [List.flatten_cons, List.length_append] at hfit ⊢
    let new := (h.getD a []).take len ++ p ++ (h.getD a []).drop (len + p.length)
    have hwrite : Buffer.Write roundup h ⟨some a, len⟩ p = (h.set a new, ⟨some a, len + p.length⟩) := by
      simp only [Buffer.Write, if_pos (show len + p.length ≤ (h.getD a []).length by omega)]
    have hlen : ((h.getD a []).take len ++ p).length = len + p.length := by
      simp only [List.length_append, List.length_take]; omega
    have hnew : new.length = (h.getD a []).length := by
      simp only [new, List.length_append, List.length_take, List.length_drop]; omega
    obtain ⟨h2, h3, h4⟩ := writeAll_in_place ws (h.set a new) a (len + p.length) (by simpa using ha)
      (by rw [getD_set_self _ ha, hnew]; omega)
    have hstep : Buffer.writeAll roundup (h, ⟨some a, len⟩) (p :: ws) =
        Buffer.writeAll roundup (h.set a new, ⟨some a, len + p.length⟩) ws := by
      rw [← hwrite]; rfl
    rw [hstep]
    refine ⟨by rw [h2, Nat.add_assoc], by rw [h3, List.length_set], ?_⟩
    have e1 : new.take (len + p.length) = (h.getD a []).take len ++ p := List.take_left' hlen
    have e2 : new.drop (len + p.length + ws.flatten.length) =
        (h.getD a []).drop (len + (p.length + ws.flatten.length)) := by
      simp only [new]
      rw [List.drop_append_eq_append_drop, List.drop_eq_nil_of_le (by rw [hlen]; omega), hlen,
        List.nil_append, List.drop_drop]
      congr 1
      omega
    rw [h4, getD_set_self _ ha, e1, e2]
    simp only [List.append_assoc]

end Write

theorem Buffer.Holds.read_Bytes {h : Heap} {b : Buffer} {c : GoString} (hb : b.Holds h c) : h.read b.Bytes = c := by
  unfold Heap.read Buffer.Bytes
  cases harr : b.arr with
  | none => simp [hb.len_eq, hb.nil harr]
  | some a =>
    rw [Option.getD_some, List.drop_zero, hb.len_eq]
    exact (List.prefix_iff_eq_take.mp (hb.arr a harr).2).symm

theorem Buffer.Holds.reset {h : Heap} {b : Buffer} {c : GoString} (hb : b.Holds h c) : b.Reset.Holds h [] :=
  ⟨rfl, fun _ => rfl, fun a ha => ⟨(hb.arr a ha).1, List.nil_prefix⟩⟩

/-- A reset buffer stays valid as the heap grows. -/
theorem Buffer.Holds.mono {h h' : Heap} {b : Buffer} (hb : b.Holds h []) (hle : h.length ≤ h'.length) :
    b.Holds h' [] :=
  ⟨hb.len_eq, hb.nil, fun a ha => ⟨((hb.arr a ha).1.trans_le hle), List.nil_prefix⟩⟩

theorem Pool.Get_holds {h : Heap} {p : Pool} (hp : ∀ b ∈ p.items, b.Holds h []) (pick : Option Nat) :
    (p.Get pick).1.Holds h [] ∧ ∀ b ∈ (p.Get pick).2.items, b.Holds h [] := by
  unfold Pool.Get
  split
  next b hb =>
    obtain ⟨i, -, hi⟩ := Option.bind_eq_some.mp hb
    exact ⟨hp b (List.get?_mem hi), fun b' hb' => hp b' ((List.eraseIdx_sublist _ _).subset hb')⟩
  · exact ⟨⟨rfl, fun _ => rfl, fun _ h => by cases h⟩, hp⟩

/-! ## 4. Every call, in every reachable state -/

section Calls

variable (z : Zlib) (roundup : Nat → Nat)

/-- What holds in every reachable state: both thresholds are positive, and every
pooled buffer is reset, on an allocated array. -/
structure State.Inv (st : State) : Prop where
  weak_pos : 0 < st.defaultWeakCompress
  strong_pos : 0 < st.defaultStrongCompress
  pooled : ∀ b ∈ st.compressBufferPool.items, b.Holds st.heap []

/-- The level `Compress` passes to `zlibCompress` for data it compresses. -/
def State.levelFor (st : State) (data : GoString) : Int :=
  if (data.length : Int) ≥ st.defaultStrongCompress then defaultStrongLevel else defaultWeakLevel

/-- The heap and the buffer after zlib's writes, into the buffer `Get` returns. -/
def State.written (st : State) (pick : Option Nat) (data : GoString) : Heap × Buffer :=
  Buffer.writeAll roundup (st.heap, (st.compressBufferPool.Get pick).1) (z.writes (st.levelFor data) data)

/-- The state after `Compress` compressed: the heap written, the buffer reset and put back. -/
def State.afterCompress (st : State) (pick : Option Nat) (data : GoString) : State :=
  { st with
    heap := (st.written z roundup pick data).1
    compressBufferPool := (st.compressBufferPool.Get pick).2.Put (st.written z roundup pick data).2.Reset }

theorem levelFor_valid (st : State) (data : GoString) :
    HuffmanOnly ≤ st.levelFor data ∧ st.levelFor data ≤ BestCompression := by
  unfold State.levelFor
  split <;> decide

/-- `zlibCompress` at the level `Compress` passes: the clamp keeps it, and
`NewWriterLevel` accepts it. -/
theorem zlibCompress_levelFor (st : State) (pick : Option Nat) (data : GoString) :
    zlibCompress z roundup st pick data (st.levelFor data) =
      (.ok (st.written z roundup pick data).2.Bytes, st.afterCompress z roundup pick data) := by
  have hclamp : (if st.levelFor data < BestSpeed ∨ st.levelFor data > BestCompression then DefaultCompression
      else st.levelFor data) = st.levelFor data := by
    unfold State.levelFor
    split <;> decide
  have hvalid : ¬(st.levelFor data < HuffmanOnly ∨ BestCompression < st.levelFor data) := by
    unfold State.levelFor
    split <;> decide
  simp only [zlibCompress, hclamp, if_neg hvalid]
  rfl

/-- Data below the weak threshold, or empty, comes back as it is. -/
theorem Compress_eq_own (st : State) (pick : Option Nat) (data : GoString)
    (h : data = [] ∨ (data.length : Int) < st.defaultWeakCompress) :
    Compress z roundup st pick data = (.ok (.own data, false), st) := by
  unfold Compress
  by_cases h0 : data.length = 0
  · rw [if_pos h0, List.length_eq_zero.mp h0]
  · rw [if_neg h0, if_pos (h.resolve_left (fun he => h0 (by rw [he]; rfl)))]

/-- **What `Compress` does with data it compresses**: zlib's output, at the level
of the strong threshold, is written into the buffer `Get` returns, and the
result is that buffer's bytes. -/
theorem Compress_eq_pooled (st : State) (pick : Option Nat) (data : GoString) (hne : data ≠ [])
    (hw : st.defaultWeakCompress ≤ (data.length : Int)) :
    Compress z roundup st pick data =
      (.ok (.pooled (st.written z roundup pick data).2.Bytes, true), st.afterCompress z roundup pick data) := by
  unfold Compress
  rw [if_neg (fun h => hne (List.length_eq_zero.mp h)), if_neg (not_lt.mpr hw)]
  rw [show (if (data.length : Int) ≥ st.defaultStrongCompress then defaultStrongLevel else defaultWeakLevel) =
    st.levelFor data from rfl]
  dsimp only
  rw [zlibCompress_levelFor]

/-- The buffer written in a compressing call holds zlib's output. -/
theorem written_holds {st : State} (hi : st.Inv) (pick : Option Nat) (data : GoString) :
    (st.written z roundup pick data).2.Holds (st.written z roundup pick data).1
      (z.writes (st.levelFor data) data).flatten := by
  have h := (Pool.Get_holds hi.pooled pick).1.writeAll roundup (z.writes (st.levelFor data) data)
  rwa [List.nil_append] at h

/-- **Each call keeps the invariant.** -/
theorem State.Inv.step {st : State} (hi : st.Inv) (c : Call) : (step z roundup st c).Inv := by
  cases c with
  | init weak strong =>
    have := hi.weak_pos
    have := hi.strong_pos
    refine ⟨?_, ?_, hi.pooled⟩ <;> simp only [compress.step, Init] <;> split <;> omega
  | decompress _ => exact hi
  | compress pick data =>
    by_cases h : data = [] ∨ (data.length : Int) < st.defaultWeakCompress
    · rw [compress.step, Compress_eq_own z roundup st pick data h]
      exact hi
    · push_neg at h
      rw [compress.step, Compress_eq_pooled z roundup st pick data h.1 h.2]
      refine ⟨hi.weak_pos, hi.strong_pos, fun b hb => ?_⟩
      rcases List.mem_cons.mp hb with rfl | hb
      · exact (written_holds z roundup hi pick data).reset
      · exact ((Pool.Get_holds hi.pooled pick).2 b hb).mono
          (length_le_writeAll roundup (z.writes (st.levelFor data) data) (st.heap, _))

theorem Reachable.inv {st : State} (h : Reachable z roundup st) : st.Inv := by
  induction h with
  | start => exact ⟨by decide, by decide, fun _ h => by cases h⟩
  | step c _ ih => exact ih.step z roundup c

/-- What a call of `Compress` should give: no error; uncompressed, the data
themselves, exactly when they are empty or below the weak threshold; compressed,
a stream `Decompress` reads back to the data. -/
def GivesBack (z : Zlib) (st : State) (data : GoString) : Except String (Bytes × Bool) × State → Prop
  | (.ok (out, true), st') => st.defaultWeakCompress ≤ (data.length : Int) ∧ Decompress z (out.read st'.heap) = .ok data
  | (.ok (out, false), st') => (data = [] ∨ (data.length : Int) < st.defaultWeakCompress) ∧ out.read st'.heap = data
  | (.error _, _) => False

/-- **`Compress` never fails, and its result, read right away, gives the data
back**: as it is, when empty or below the weak threshold, and otherwise through
`Decompress`. In every reachable state, whichever buffer the pool hands out. -/
theorem Compress_Decompress (hz : z.RoundTrips) {st : State} (hst : Reachable z roundup st)
    (pick : Option Nat) (data : GoString) : GivesBack z st data (Compress z roundup st pick data) := by
  by_cases h : data = [] ∨ (data.length : Int) < st.defaultWeakCompress
  · rw [Compress_eq_own z roundup st pick data h]
    exact ⟨h, rfl⟩
  · push_neg at h
    rw [Compress_eq_pooled z roundup st pick data h.1 h.2]
    refine ⟨h.2, ?_⟩
    obtain ⟨hne, hreader, hread⟩ := hz _ data (levelFor_valid st data).1 (levelFor_valid st data).2
    show Decompress z ((st.written z roundup pick data).1.read (st.written z roundup pick data).2.Bytes) = _
    rw [(written_holds z roundup hst.inv pick data).read_Bytes, Decompress,
      if_neg (fun h0 => hne (List.length_eq_zero.mp h0)), zlibDecompress, hreader, hread]

/-- A stand-in for zlib in the closed instances below: a two-byte header, then
the data as they are. It meets `Zlib.RoundTrips`. -/
def headerZlib : Zlib :=
  ⟨fun _ data => [[0x78, 0x01], data],
    fun s => if s.take 2 = [0x78, 0x01] then none else some "zlib: invalid header",
    fun s => .ok (s.drop 2)⟩

theorem headerZlib_roundTrips : headerZlib.RoundTrips :=
  fun _ _ _ _ => ⟨by simp [headerZlib], by simp [headerZlib], by simp [headerZlib]⟩

theorem Compress_Decompress_header :
    headerZlib.RoundTrips ∧ Reachable headerZlib id (Init NewState 1 1) ∧
      GivesBack headerZlib (Init NewState 1 1) [1, 2] (Compress headerZlib id (Init NewState 1 1) none [1, 2]) :=
  ⟨headerZlib_roundTrips, .step (.init 1 1) .start,
    Compress_Decompress headerZlib id headerZlib_roundTrips (.step (.init 1 1) .start) none [1, 2]⟩

/-- A compressing call: the data, the result and the state after it. -/
theorem Compress_pooled_inv {st st' : State} {pick : Option Nat} {data : GoString} {s : Slice}
    (h : Compress z roundup st pick data = (.ok (.pooled s, true), st')) :
    s = (st.written z roundup pick data).2.Bytes ∧ st' = st.afterCompress z roundup pick data := by
  by_cases hc : data = [] ∨ (data.length : Int) < st.defaultWeakCompress
  · rw [Compress_eq_own z roundup st pick data hc] at h
    cases h
  · push_neg at hc
    rw [Compress_eq_pooled z roundup st pick data hc.1 hc.2] at h
    obtain ⟨h1, h2⟩ := Prod.mk.inj h
    exact ⟨(Bytes.pooled.inj (Prod.mk.inj (Except.ok.inj h1)).1).symm, h2.symm⟩

/-- **A later `Compress` writes over an earlier result.** When the next call gets
back the buffer the first one put in the pool, and its output is no longer, the
first result's bytes become the second output followed by the rest of the first. -/
theorem Compress_overwrites {st st₁ st₂ : State} (hst : Reachable z roundup st) {pick : Option Nat}
    {d₁ d₂ : GoString} {s₁ s₂ : Slice}
    (h₁ : Compress z roundup st pick d₁ = (.ok (.pooled s₁, true), st₁))
    (h₂ : Compress z roundup st₁ (some 0) d₂ = (.ok (.pooled s₂, true), st₂))
    (hlen : (st₂.heap.read s₂).length ≤ (st₁.heap.read s₁).length) :
    st₂.heap.read s₁ = st₂.heap.read s₂ ++ (st₁.heap.read s₁).drop (st₂.heap.read s₂).length := by
  obtain ⟨rfl, rfl⟩ := Compress_pooled_inv z roundup h₁
  obtain ⟨rfl, rfl⟩ := Compress_pooled_inv z roundup h₂
  set w₁ := st.written z roundup pick d₁
  set z₁ := (z.writes (st.levelFor d₁) d₁).flatten
  set ws := z.writes ((st.afterCompress z roundup pick d₁).levelFor d₂) d₂
  have hb₁ : w₁.2.Holds w₁.1 z₁ := written_holds z roundup hst.inv pick d₁
  -- the second call writes into the buffer the first one put back
  set w₂ := (st.afterCompress z roundup pick d₁).written z roundup (some 0) d₂
  have hw₂ : w₂ = Buffer.writeAll roundup (w₁.1, w₁.2.Reset) ws := rfl
  have hb₂ : w₂.2.Holds w₂.1 ws.flatten := by
    rw [hw₂]
    simpa using hb₁.reset.writeAll roundup ws
  change (w₂.1.read w₂.2.Bytes).length ≤ (w₁.1.read w₁.2.Bytes).length at hlen
  show w₂.1.read w₁.2.Bytes = w₂.1.read w₂.2.Bytes ++ (w₁.1.read w₁.2.Bytes).drop (w₂.1.read w₂.2.Bytes).length
  rw [hb₂.read_Bytes, hb₁.read_Bytes] at hlen ⊢
  rw [hw₂]
  cases ha : w₁.2.arr with
  | none =>
    have hz₁ : z₁ = [] := hb₁.nil ha
    have hz₂ : ws.flatten = [] := List.eq_nil_of_length_eq_zero (by rw [hz₁] at hlen; simpa using hlen)
    simp only [Heap.read, Buffer.Bytes, hb₁.len_eq, hz₁, hz₂, List.length_nil, List.take_zero, List.nil_append,
      List.drop_nil]
  | some a =>
    obtain ⟨hlt, hpre⟩ := hb₁.arr a ha
    have hreset : w₁.2.Reset = ⟨some a, 0⟩ := by simp only [Buffer.Reset, ha]
    obtain ⟨-, -, hget⟩ := writeAll_in_place roundup ws w₁.1 a 0 hlt
      (by rw [Nat.zero_add]; exact hlen.trans hpre.length_le)
    simp only [Heap.read, Buffer.Bytes, ha, hreset, Option.getD_some, List.drop_zero, hget, hb₁.len_eq,
      List.take_zero, List.nil_append, Nat.zero_add]
    rw [List.take_append_eq_append_take, List.take_of_length_le hlen]
    conv_rhs => rw [List.prefix_iff_eq_take.mp hpre, List.drop_take]

/-- Two calls: `[1, 2]` is compressed to `78 01 01 02`, then `[3]` to `78 01 03`
in the same buffer, and the first result reads `78 01 03 02`. -/
theorem Compress_overwrites_two :
    Reachable headerZlib id (Init NewState 1 1) ∧
    Compress headerZlib id (Init NewState 1 1) none [1, 2] =
      (.ok (.pooled ⟨0, 0, 4⟩, true), (Compress headerZlib id (Init NewState 1 1) none [1, 2]).2) ∧
    Compress headerZlib id (Compress headerZlib id (Init NewState 1 1) none [1, 2]).2 (some 0) [3] =
      (.ok (.pooled ⟨0, 0, 3⟩, true),
        (Compress headerZlib id (Compress headerZlib id (Init NewState 1 1) none [1, 2]).2 (some 0) [3]).2) ∧
    ((Compress headerZlib id (Compress headerZlib id (Init NewState 1 1) none [1, 2]).2 (some 0) [3]).2.heap.read
        ⟨0, 0, 3⟩).length ≤
      ((Compress headerZlib id (Init NewState 1 1) none [1, 2]).2.heap.read ⟨0, 0, 4⟩).length ∧
    (Compress headerZlib id (Compress headerZlib id (Init NewState 1 1) none [1, 2]).2 (some 0) [3]).2.heap.read
        ⟨0, 0, 4⟩ =
      (Compress headerZlib id (Compress headerZlib id (Init NewState 1 1) none [1, 2]).2 (some 0) [3]).2.heap.read
          ⟨0, 0, 3⟩ ++
        ((Compress headerZlib id (Init NewState 1 1) none [1, 2]).2.heap.read ⟨0, 0, 4⟩).drop
          ((Compress headerZlib id (Compress headerZlib id (Init NewState 1 1) none [1, 2]).2 (some 0) [3]).2.heap.read
            ⟨0, 0, 3⟩).length :=
  have h₁ : Compress headerZlib id (Init NewState 1 1) none [1, 2] =
      (.ok (.pooled ⟨0, 0, 4⟩, true), (Compress headerZlib id (Init NewState 1 1) none [1, 2]).2) := rfl
  have h₂ : Compress headerZlib id (Compress headerZlib id (Init NewState 1 1) none [1, 2]).2 (some 0) [3] =
      (.ok (.pooled ⟨0, 0, 3⟩, true),
        (Compress headerZlib id (Compress headerZlib id (Init NewState 1 1) none [1, 2]).2 (some 0) [3]).2) := rfl
  have hlen : ((Compress headerZlib id (Compress headerZlib id (Init NewState 1 1) none [1, 2]).2 (some 0) [3]).2.heap.read
        ⟨0, 0, 3⟩).length ≤
      ((Compress headerZlib id (Init NewState 1 1) none [1, 2]).2.heap.read ⟨0, 0, 4⟩).length := by decide
  ⟨.step (.init 1 1) .start, h₁, h₂, hlen, Compress_overwrites headerZlib id (.step (.init 1 1) .start) h₁ h₂ hlen⟩

example : (Compress headerZlib id (Compress headerZlib id (Init NewState 1 1) none [1, 2]).2 (some 0) [3]).2.heap.read
    ⟨0, 0, 4⟩ = [0x78, 0x01, 3, 2] := by decide

end Calls

end compress

end VulcanPkgTool
