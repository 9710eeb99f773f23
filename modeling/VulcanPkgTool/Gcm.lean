import VulcanPkgTool.Aes

/-!
`crypto/cipher`'s GCM, as `security/channel` uses it: `cipher.NewGCM(block)`
with the standard 12-byte nonce and 16-byte tag, `Seal` and `Open`.

The block cipher is the one of `VulcanPkgTool.Aes`, an arbitrary permutation of
16-byte blocks per key. GCM is modelled from `crypto/cipher/gcm.go` (the AES
cipher of the standard library has its own assembly GCM, which computes the
same bytes): the counter block is the nonce followed by a 32-bit counter that
starts at 1, the tag mask is the encryption of that block, the message is XORed
with the encryptions of the counters after it (`counterCrypt`), and the tag is
GHASH of the additional data, the ciphertext and their bit lengths, under the
hash key `H`, the encryption of the zero block, XORed with the mask
(`GCM.auth`). GHASH's product in GF(2^128) is written bit by bit as in NIST
SP 800-38D, Algorithm 1; Go computes it with 4-bit tables.

No proof below looks inside GHASH or the permutation. Counter mode is XOR with
a key stream that depends on the nonce only (`counterCrypt_eq`), so applying it
twice is the identity, and `Open` recomputes the tag `Seal` appended from the
same bytes. Together: `Open` accepts a ciphertext exactly when it is the `Seal`
of some plaintext under the same key and nonce, and returns that plaintext
(`Open_eq_ok_iff`). That a ciphertext nobody sealed fails the tag check with
high probability is a property of GHASH and AES that this model does not
claim.
-/

set_option autoImplicit false

namespace VulcanPkgTool

namespace aes

theorem XORBytes_nil_left (y : GoString) : XORBytes [] y = [] := rfl

/-- XOR with a key stream at least as long as the message, twice, is the identity. -/
theorem XORBytes_XORBytes_of_le : ∀ {p k : GoString}, p.length ≤ k.length → XORBytes (XORBytes p k) k = p
  | [], _, _ => rfl
  | _ :: _, [], h => absurd h (by simp)
  | a :: p, b :: k, h => by
    show (a ^^^ b ^^^ b) :: XORBytes (XORBytes p k) k = a :: p
    rw [UInt8.xor_xor_cancel, XORBytes_XORBytes_of_le (Nat.le_of_succ_le_succ h)]

/-- XOR with a stream cut in two is XOR of the matching pieces of the message. -/
theorem XORBytes_append : ∀ (s k₁ k₂ : GoString),
    XORBytes (s.take k₁.length) k₁ ++ XORBytes (s.drop k₁.length) k₂ = XORBytes s (k₁ ++ k₂)
  | s, [], k₂ => by simp [XORBytes_nil_left]
  | [], _ :: _, _ => rfl
  | x :: s, a :: k₁, k₂ => by
    show (x ^^^ a) :: (XORBytes (s.take k₁.length) k₁ ++ XORBytes (s.drop k₁.length) k₂) =
      (x ^^^ a) :: XORBytes s (k₁ ++ k₂)
    rw [XORBytes_append s k₁ k₂]

end aes

namespace cipher

open aes

/-! ## 1. The model -/

/-- `gcmBlockSize`. -/
def gcmBlockSize : Nat := 16

/-- `gcmStandardNonceSize`, the nonce size `NewGCM` sets. -/
def gcmStandardNonceSize : Nat := 12

/-- `gcmTagSize`, the tag size `NewGCM` sets. -/
def gcmTagSize : Nat := 16

/-- `errOpen`. -/
def errOpen : String := "cipher: message authentication failed"

/-- The longest plaintext `Seal` takes: `((1<<32)-2) * BlockSize()` bytes. -/
def maxPlaintext : Nat := (2 ^ 32 - 2) * 16

/-- The value of big-endian bytes, as `byteorder.BeUint32` and `BeUint64` read them. -/
def beUint (l : GoString) : Nat := l.foldl (fun acc b => acc * 256 + b.toNat) 0

/-- `n` as `k` big-endian bytes, reduced mod `256^k` as `byteorder.BePutUint*` stores it. -/
def beBytes : Nat → Nat → GoString
  | 0, _ => []
  | k + 1, n => beBytes k (n / 256) ++ [UInt8.ofNat n]

@[simp] theorem length_beBytes : ∀ k n, (beBytes k n).length = k
  | 0, _ => rfl
  | k + 1, n => by simp [beBytes, length_beBytes k]

/-- `deriveCounter` for a nonce of the standard size: the nonce, then the 32-bit
counter 1. -/
def deriveCounter (nonce : GoString) (h : nonce.length = gcmStandardNonceSize) : Block16 :=
  ⟨nonce ++ [0, 0, 0, 1], by simp [h, gcmStandardNonceSize]⟩

/-- `gcmInc32`: the last four bytes, big-endian, plus one mod 2^32. -/
def gcmInc32 (counter : Block16) : Block16 :=
  ⟨counter.1.take 12 ++ beBytes 4 (beUint (counter.1.drop 12) + 1), by simp [counter.2]⟩

/-- How many blocks `counterCrypt` and GHASH cut a message into, the last one
possibly partial. -/
def blocks (s : GoString) : Nat := (s.length + 15) / 16

/-- `counterCrypt(out, in, counter)` over `n` blocks of `in`: each block XORed
with the encryption of the counter, which goes up by one per block. A last
partial block is XORed with the start of its mask. -/
def counterCrypt (b : Block) : Nat → Block16 → GoString → GoString
  | 0, _, _ => []
  | n + 1, counter, src =>
    XORBytes (src.take 16) (b.perm counter).1 ++ counterCrypt b n (gcmInc32 counter) (src.drop 16)

/-- The reduction constant of GF(2^128) in GCM's bit order, `11100001 ‖ 0^120`. -/
def gcmR : Nat := 0xe1 * 2 ^ 120

/-- `mul`: the product in GF(2^128) of two 128-bit values whose most significant
bit is the coefficient of `x^0`. -/
def gfMul (x y : Nat) : Nat :=
  ((List.range 128).foldl (fun (zv : Nat × Nat) i =>
    (if x.testBit (127 - i) then zv.1 ^^^ zv.2 else zv.1,
     if zv.2 % 2 = 0 then zv.2 / 2 else (zv.2 / 2) ^^^ gcmR)) (0, y)).1

/-- `update`: fold `n` 16-byte blocks of `s` into the GHASH state `y`, the last
one zero-padded. -/
def ghashUpdate (h : Nat) : Nat → Nat → GoString → Nat
  | 0, y, _ => y
  | n + 1, y, s =>
    ghashUpdate h n (gfMul (y ^^^ beUint (s.take 16 ++ List.replicate (16 - (s.take 16).length) 0)) h) (s.drop 16)

/-- The `gcm` that `NewGCM` returns for a block cipher of 16-byte blocks, with
the standard nonce and tag sizes. -/
structure GCM where
  cipher : Block

/-- `g.NonceSize()`. -/
def GCM.NonceSize (_g : GCM) : Nat := gcmStandardNonceSize

/-- `g.Overhead()`. -/
def GCM.Overhead (_g : GCM) : Nat := gcmTagSize

/-- The hash key `H`, the encryption of the zero block, from which `NewGCM`
precomputes its product table. -/
def GCM.H (g : GCM) : Nat := beUint (g.cipher.perm ⟨List.replicate 16 0, by simp⟩).1

/-- `g.auth(out, ciphertext, additionalData, tagMask)`: GHASH of the additional
data, the ciphertext and their lengths in bits, XORed with the mask. -/
def GCM.auth (g : GCM) (ciphertext additionalData : GoString) (tagMask : Block16) : GoString :=
  let y := ghashUpdate g.H (blocks additionalData) 0 additionalData
  let y := ghashUpdate g.H (blocks ciphertext) y ciphertext
  let y := y ^^^ (additionalData.length * 8 % 2 ^ 64 * 2 ^ 64 + ciphertext.length * 8 % 2 ^ 64)
  XORBytes (beBytes 16 (gfMul y g.H)) tagMask.1

/-- `cipher.NewGCM(cipher)`. The tag and nonce sizes it passes on are valid, so
the only check left is the block size. -/
def NewGCM (b : Block) : Except String GCM :=
  if b.BlockSize ≠ gcmBlockSize then .error "cipher: NewGCM requires 128-bit block cipher" else .ok ⟨b⟩

/-- `g.Seal(dst, nonce, plaintext, data)`. -/
def GCM.Seal (g : GCM) (dst nonce plaintext data : GoString) : Go GoString :=
  if h : nonce.length = gcmStandardNonceSize then
    if maxPlaintext < plaintext.length then throw (.panic "crypto/cipher: message too large for GCM")
    else
      let counter := deriveCounter nonce h
      let out := counterCrypt g.cipher (blocks plaintext) (gcmInc32 counter) plaintext
      pure (dst ++ out ++ g.auth out data (g.cipher.perm counter))
  else throw (.panic "crypto/cipher: incorrect nonce length given to GCM")

/-- `g.Open(dst, nonce, ciphertext, data)`: the plaintext after `dst`, or
`errOpen`. -/
def GCM.Open (g : GCM) (dst nonce ciphertext data : GoString) : Go (Except String GoString) :=
  if h : nonce.length = gcmStandardNonceSize then
    if ciphertext.length < gcmTagSize ∨ maxPlaintext + gcmTagSize < ciphertext.length then
      pure (.error errOpen)
    else
      let tag := ciphertext.drop (ciphertext.length - gcmTagSize)
      let body := ciphertext.take (ciphertext.length - gcmTagSize)
      let counter := deriveCounter nonce h
      if g.auth body data (g.cipher.perm counter) ≠ tag then pure (.error errOpen)
      else pure (.ok (dst ++ counterCrypt g.cipher (blocks body) (gcmInc32 counter) body))
  else throw (.panic "crypto/cipher: incorrect nonce length given to GCM")

/-! ## 2. Counter mode is XOR with a key stream -/

/-- The masks `counterCrypt` XORs with, `n` blocks from `counter` on. -/
def keyStream (b : Block) : Nat → Block16 → GoString
  | 0, _ => []
  | n + 1, counter => (b.perm counter).1 ++ keyStream b n (gcmInc32 counter)

@[simp] theorem length_keyStream (b : Block) : ∀ n counter, (keyStream b n counter).length = 16 * n
  | 0, _ => rfl
  | n + 1, counter => by simp [keyStream, length_keyStream b n, (b.perm counter).2]; omega

theorem counterCrypt_eq (b : Block) :
    ∀ n counter src, counterCrypt b n counter src = XORBytes src (keyStream b n counter)
  | 0, _, src => by cases src <;> rfl
  | n + 1, counter, src => by
    rw [counterCrypt, keyStream, counterCrypt_eq b n, ← XORBytes_append, (b.perm counter).2]

theorem length_counterCrypt (b : Block) (n : Nat) (counter : Block16) (src : GoString) :
    (counterCrypt b n counter src).length = min src.length (16 * n) := by
  rw [counterCrypt_eq, length_XORBytes, length_keyStream]

/-- Counter mode from the same counter undoes itself. -/
theorem counterCrypt_counterCrypt (b : Block) {n : Nat} (counter : Block16) {src : GoString}
    (h : src.length ≤ 16 * n) : counterCrypt b n counter (counterCrypt b n counter src) = src := by
  rw [counterCrypt_eq, counterCrypt_eq, XORBytes_XORBytes_of_le (by rwa [length_keyStream])]

theorem le_blocks (s : GoString) : s.length ≤ 16 * blocks s := by
  unfold blocks
  omega

/-- Counter mode keeps the length. -/
theorem length_counterCrypt_blocks (b : Block) (counter : Block16) (src : GoString) :
    (counterCrypt b (blocks src) counter src).length = src.length := by
  rw [length_counterCrypt, Nat.min_eq_left (le_blocks src)]

theorem blocks_counterCrypt (b : Block) (counter : Block16) (src : GoString) :
    blocks (counterCrypt b (blocks src) counter src) = blocks src := by
  rw [blocks, length_counterCrypt_blocks]
  rfl

theorem length_auth (g : GCM) (ciphertext data : GoString) (tagMask : Block16) :
    (g.auth ciphertext data tagMask).length = 16 := by
  simp [GCM.auth, length_XORBytes, tagMask.2]

/-! ## 3. `Open` inverts `Seal` -/

section SealOpen

variable (g : GCM) {nonce : GoString} (h : nonce.length = gcmStandardNonceSize)

theorem NewGCM_eq (b : Block) : NewGCM b = .ok ⟨b⟩ := if_neg (not_not.mpr rfl)

include h in
/-- The sealed message: counter mode after the first counter, then the tag. -/
theorem Seal_eq {plaintext : GoString} (dst data : GoString) (hp : plaintext.length ≤ maxPlaintext) :
    g.Seal dst nonce plaintext data =
      .ok (dst ++ counterCrypt g.cipher (blocks plaintext) (gcmInc32 (deriveCounter nonce h)) plaintext ++
        g.auth (counterCrypt g.cipher (blocks plaintext) (gcmInc32 (deriveCounter nonce h)) plaintext) data
          (g.cipher.perm (deriveCounter nonce h))) := by
  rw [GCM.Seal, dif_pos h, if_neg (Nat.not_lt.mpr hp)]
  rfl

include h in
/-- `Seal` appends to `dst`. -/
theorem Seal_append (dst plaintext data : GoString) :
    g.Seal dst nonce plaintext data = (g.Seal [] nonce plaintext data).map (dst ++ ·) := by
  unfold GCM.Seal
  rw [dif_pos h, dif_pos h]
  split
  · rfl
  · simp only [List.nil_append, List.append_assoc]
    rfl

include h in
/-- `Seal` returns only for a plaintext within the limit; beyond it, it panics. -/
theorem length_le_of_Seal {dst plaintext data : GoString} {out : GoString}
    (hs : g.Seal dst nonce plaintext data = .ok out) : plaintext.length ≤ maxPlaintext := by
  rw [GCM.Seal, dif_pos h] at hs
  split at hs
  · cases hs
  · omega

include h in
/-- `Open` with a nonce of the standard size never panics, and its only error is
`errOpen`. -/
theorem Open_ok (c data : GoString) :
    ∃ r, g.Open [] nonce c data = .ok r ∧ ∀ err, r = .error err → err = errOpen := by
  rw [GCM.Open, dif_pos h]
  split
  · exact ⟨_, rfl, fun _ he => (Except.error.inj he).symm⟩
  · dsimp only
    split
    · exact ⟨_, rfl, fun _ he => (Except.error.inj he).symm⟩
    · exact ⟨_, rfl, fun _ he => Except.noConfusion he⟩

include h in
/-- A ciphertext shorter than a tag, or longer than the longest sealed message, is refused. -/
theorem Open_of_length {c : GoString} (data : GoString)
    (hc : c.length < gcmTagSize ∨ maxPlaintext + gcmTagSize < c.length) :
    g.Open [] nonce c data = .ok (.error errOpen) := by
  rw [GCM.Open, dif_pos h, if_pos hc]
  rfl

include h in
/-- `Open` of a body and a tag: the body decrypted if the tag is the one `Seal`
computes for it. -/
theorem Open_append {body tag : GoString} (data : GoString) (htag : tag.length = gcmTagSize)
    (hbody : body.length ≤ maxPlaintext) :
    g.Open [] nonce (body ++ tag) data =
      if g.auth body data (g.cipher.perm (deriveCounter nonce h)) = tag then
        .ok (.ok (counterCrypt g.cipher (blocks body) (gcmInc32 (deriveCounter nonce h)) body))
      else .ok (.error errOpen) := by
  have hlen : (body ++ tag).length - gcmTagSize = body.length := by
    rw [List.length_append, htag, Nat.add_sub_cancel]
  rw [GCM.Open, dif_pos h, if_neg (by rw [List.length_append, htag]; omega)]
  simp only [hlen, List.take_left, List.drop_left, List.nil_append, ne_eq, ite_not]
  split <;> rfl

include h in
/-- **`Open` accepts exactly what `Seal` produces.** Under one key and nonce,
`Open` returns a plaintext exactly when the ciphertext is the `Seal` of it. -/
theorem Open_eq_ok_iff (c p data : GoString) :
    g.Open [] nonce c data = .ok (.ok p) ↔ p.length ≤ maxPlaintext ∧ g.Seal [] nonce p data = .ok c := by
  constructor
  · intro ho
    by_cases hc : c.length < gcmTagSize ∨ maxPlaintext + gcmTagSize < c.length
    · rw [Open_of_length g h data hc] at ho
      cases ho
    have hsplit := List.take_append_drop (c.length - gcmTagSize) c
    have htag : (c.drop (c.length - gcmTagSize)).length = gcmTagSize := by
      rw [List.length_drop]; omega
    have hbody : (c.take (c.length - gcmTagSize)).length ≤ maxPlaintext := by
      rw [List.length_take]; omega
    rw [← hsplit, Open_append g h data htag hbody] at ho
    split at ho
    next hauth =>
      obtain rfl := (Except.ok.inj (Except.ok.inj ho))
      refine ⟨by rwa [length_counterCrypt_blocks], ?_⟩
      rw [Seal_eq g h [] data (by rwa [length_counterCrypt_blocks]), blocks_counterCrypt,
        counterCrypt_counterCrypt _ _ (le_blocks _), hauth, List.nil_append, hsplit]
    · cases ho
  · rintro ⟨hp, hs⟩
    rw [Seal_eq g h [] data hp, List.nil_append] at hs
    cases hs
    rw [Open_append g h data (length_auth ..) (by rwa [length_counterCrypt_blocks]), if_pos rfl,
      blocks_counterCrypt, counterCrypt_counterCrypt _ _ (le_blocks p)]

theorem Open_eq_ok_iff_zero_nonce :
    (List.replicate 12 (0 : UInt8)).length = gcmStandardNonceSize ∧
    ((⟨⟨Equiv.refl _⟩⟩ : GCM).Open [] (List.replicate 12 0) (List.replicate 16 0) [] = .ok (.ok []) ↔
      ([] : GoString).length ≤ maxPlaintext ∧
        (⟨⟨Equiv.refl _⟩⟩ : GCM).Seal [] (List.replicate 12 0) [] [] = .ok (List.replicate 16 0)) :=
  ⟨rfl, Open_eq_ok_iff _ (show (List.replicate 12 (0 : UInt8)).length = gcmStandardNonceSize from rfl) _ _ _⟩

end SealOpen

end cipher

end VulcanPkgTool
