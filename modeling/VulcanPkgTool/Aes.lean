import VulcanPkgTool.Go

/-!
`security/aes`: AES in CBC mode with PKCS#7 padding, the first block of the key
serving as the IV.

AES itself is not modelled: `aes key` is an arbitrary permutation of 16-byte
blocks for each key, and a `Block` is what `aes.NewCipher` returns, that
permutation with `Encrypt` and `Decrypt` panicking on a source shorter than a
block. CBC is modelled from `crypto/cipher`: the checks `CryptBlocks` makes
before its loop, and the chaining, each ciphertext block the permutation of the
plaintext block XOR the previous ciphertext block (the IV before the first).
The decrypter walks the blocks backwards to save a copy; every output block
depends on the source only, so here it walks them forwards.

`Decrypt_Encrypt`: for a key `NewBlock` accepts and any non-empty plaintext,
`Encrypt` pads to the next multiple of 16 past the length (a whole block when
the length is one already) and `Decrypt` gives the plaintext back; the padding
byte is the pad length, between 1 and 16, which `pkcs7UnPadding` strips.

`Decrypt` checks neither the length of its input nor that it is non-empty.
`CryptBlocks` panics on a partial block, and on an empty input `pkcs7UnPadding`
reads `origData[-1]`; every other input returns, a plaintext or an error
(`Decrypt_faults`).
-/

set_option autoImplicit false

namespace VulcanPkgTool

theorem UInt8.xor_xor_cancel (a b : UInt8) : a ^^^ b ^^^ b = a := by
  obtain ⟨x⟩ := a
  obtain ⟨y⟩ := b
  show UInt8.mk (x ^^^ y ^^^ y) = UInt8.mk x
  rw [BitVec.xor_assoc, BitVec.xor_self, BitVec.xor_zero]

namespace aes

/-! ## 1. Blocks, CBC and padding -/

/-- A 16-byte AES block. -/
abbrev Block16 := Mathlib.Vector UInt8 16

/-- The `cipher.Block` that `aes.NewCipher` returns: `BlockSize()` is 16, and
`Encrypt` and `Decrypt` apply the key's permutation to the first block of the
source, panicking if the source is shorter. -/
structure Block where
  perm : Equiv.Perm Block16

/-- `b.BlockSize()`. -/
def Block.BlockSize (_b : Block) : Nat := 16

/-- The first block of `src`, or the panic of a source shorter than a block. -/
def firstBlock (src : GoString) : Go Block16 :=
  if h : 16 ≤ src.length then pure ⟨src.take 16, by simp; omega⟩
  else throw (.panic "crypto/aes: input not full block")

/-- `b.Encrypt(dst, src)`: the block written to `dst[:16]`. -/
def Block.Encrypt (b : Block) (src : GoString) : Go GoString := do
  let x ← firstBlock src
  pure (b.perm x).1

/-- `b.Decrypt(dst, src)`: the block written to `dst[:16]`. -/
def Block.Decrypt (b : Block) (src : GoString) : Go GoString := do
  let x ← firstBlock src
  pure (b.perm.symm x).1

/-- `aes.NewCipher(key)`: a `Block` for keys of 16, 24 or 32 bytes, else a `KeySizeError`. -/
def NewCipher (aes : GoString → Equiv.Perm Block16) (key : GoString) : Except String Block :=
  if key.length = 16 ∨ key.length = 24 ∨ key.length = 32 then .ok ⟨aes key⟩
  else .error ("crypto/aes: invalid key size " ++ toString key.length)

/-- `subtle.XORBytes(dst, x, y)`: the first `min(len(x), len(y))` bytes of `dst`. -/
def XORBytes (x y : GoString) : GoString := List.zipWith (· ^^^ ·) x y

/-- `s[:n]`, which panics past the end of `s`. -/
def sliceTo (s : GoString) (n : Nat) : Go GoString :=
  if n ≤ s.length then pure (s.take n) else throw (.panic "slice bounds out of range")

/-- `cipher.NewCBCEncrypter(b, iv)` and `cipher.NewCBCDecrypter(b, iv)` (named
`who`) panic unless the IV is one block long. -/
def checkIV (b : Block) (iv : GoString) (who : String) : Go Unit :=
  if iv.length = b.BlockSize then pure ()
  else throw (.panic ("cipher." ++ who ++ ": IV length must equal block size"))

/-- The checks of `CryptBlocks(dst, src)` in both directions, before its loop. -/
def checkBlocks (b : Block) (dst src : GoString) : Go Unit :=
  if src.length % b.BlockSize ≠ 0 then throw (.panic "crypto/cipher: input not full blocks")
  else if dst.length < src.length then throw (.panic "crypto/cipher: output smaller than input")
  else pure ()

/-- The loop of `cbcEncrypter.CryptBlocks` over `n` blocks of `src`: XOR the
block with `iv`, encrypt it, and chain it as the next `iv`. -/
def encryptLoop (b : Block) : Nat → GoString → GoString → Go GoString
  | 0, _, _ => pure []
  | n + 1, iv, src => do
    let c ← b.Encrypt (XORBytes (src.take 16) iv)
    let rest ← encryptLoop b n c (src.drop 16)
    pure (c ++ rest)

/-- The loop of `cbcDecrypter.CryptBlocks` over `n` blocks of `src`: decrypt
each block and XOR it with the block before it, or with `prev` for the first. -/
def decryptLoop (b : Block) : Nat → GoString → GoString → Go GoString
  | 0, _, _ => pure []
  | n + 1, prev, src => do
    let p ← b.Decrypt (src.take 16)
    let rest ← decryptLoop b n (src.take 16) (src.drop 16)
    pure (XORBytes p prev ++ rest)

/-- `cipher.NewCBCEncrypter(b, iv).CryptBlocks(dst, src)`: the new `dst`. -/
def cbcEncrypt (b : Block) (iv dst src : GoString) : Go GoString := do
  checkIV b iv "NewCBCEncrypter"
  checkBlocks b dst src
  let out ← encryptLoop b (src.length / 16) iv src
  pure (out ++ dst.drop src.length)

/-- `cipher.NewCBCDecrypter(b, iv).CryptBlocks(dst, src)`: the new `dst`. -/
def cbcDecrypt (b : Block) (iv dst src : GoString) : Go GoString := do
  checkIV b iv "NewCBCDecrypter"
  checkBlocks b dst src
  let out ← decryptLoop b (src.length / 16) iv src
  pure (out ++ dst.drop src.length)

/-- `pkcs7Padding(ciphertext, blockSize)`: `padding` bytes of value `padding`,
`padding = blockSize - len % blockSize`. -/
def pkcs7Padding (ciphertext : GoString) (blockSize : Nat) : GoString :=
  let padding := blockSize - ciphertext.length % blockSize
  ciphertext ++ List.replicate padding (UInt8.ofNat padding)

/-- `pkcs7UnPadding(origData)`: `origData[length-1]` is the pad length, which
must lie in `[1, length]`; with `length = 0` that index is `-1`. -/
def pkcs7UnPadding (origData : GoString) : Go (Except String GoString) := do
  let length := origData.length
  let last ← if length = 0 then throw indexOutOfRange else sliceGet origData (length - 1)
  let unPadding := last.toNat
  if unPadding ≤ 0 ∨ unPadding > length then return .error "[aes.pkcs7UnPadding] length error"
  return .ok (origData.take (length - unPadding))

theorem length_XORBytes (x y : GoString) : (XORBytes x y).length = min x.length y.length :=
  List.length_zipWith _ _ _

/-- XOR with the same bytes twice is the identity. -/
theorem XORBytes_XORBytes : ∀ {p iv : GoString}, p.length = iv.length → XORBytes (XORBytes p iv) iv = p
  | [], [], _ => rfl
  | a :: p, b :: iv, h => by
    show (a ^^^ b ^^^ b) :: XORBytes (XORBytes p iv) iv = a :: p
    rw [UInt8.xor_xor_cancel, XORBytes_XORBytes (Nat.succ.inj h)]

theorem firstBlock_of_length {src : GoString} (h : src.length = 16) : firstBlock src = pure ⟨src, h⟩ := by
  rw [firstBlock, dif_pos h.ge]
  congr
  exact List.take_of_length_le h.le

theorem Block.Encrypt_of_length (b : Block) {x : GoString} (h : x.length = 16) :
    b.Encrypt x = pure (b.perm ⟨x, h⟩).1 := by
  rw [Block.Encrypt, firstBlock_of_length h]
  rfl

/-- Decrypting an encrypted block gives it back. -/
theorem Block.Decrypt_perm (b : Block) (x : Block16) : b.Decrypt (b.perm x).1 = pure x.1 := by
  rw [Block.Decrypt, firstBlock_of_length (b.perm x).2]
  show (pure (b.perm.symm (b.perm x)).1 : Go GoString) = _
  rw [Equiv.symm_apply_apply]

theorem Block.Decrypt_ok (b : Block) {x : GoString} (h : x.length = 16) :
    ∃ p : Block16, b.Decrypt x = pure p.1 := by
  rw [Block.Decrypt, firstBlock_of_length h]
  exact ⟨_, rfl⟩

/-- **CBC round trip.** On whole blocks, the encryption loop succeeds, keeps the
length, and the decryption loop from the same IV gives the source back. -/
theorem decryptLoop_encryptLoop (b : Block) : ∀ (n : Nat) (iv src : GoString), iv.length = 16 →
    src.length = 16 * n →
      ∃ ser, encryptLoop b n iv src = .ok ser ∧ ser.length = 16 * n ∧ decryptLoop b n iv ser = .ok src
  | 0, _, src, _, hsrc => ⟨[], rfl, rfl, by rw [List.eq_nil_of_length_eq_zero hsrc]; rfl⟩
  | n + 1, iv, src, hiv, hsrc => by
    have hp : (src.take 16).length = 16 := by simp; omega
    have hx : (XORBytes (src.take 16) iv).length = 16 := by rw [length_XORBytes]; omega
    let c := b.perm ⟨_, hx⟩
    obtain ⟨ser, henc, hlen, hdec⟩ :=
      decryptLoop_encryptLoop b n c.1 (src.drop 16) c.2 (by simp; omega)
    refine ⟨c.1 ++ ser, ?_, by simp [hlen, c.2]; omega, ?_⟩
    · rw [encryptLoop, Block.Encrypt_of_length b hx]
      show (encryptLoop b n c.1 (src.drop 16) >>= _) = _
      rw [henc]
      rfl
    · have htake : (c.1 ++ ser).take 16 = c.1 := List.take_left' c.2
      have hdrop : (c.1 ++ ser).drop 16 = ser := List.drop_left' c.2
      rw [decryptLoop, htake, hdrop, Block.Decrypt_perm]
      show (decryptLoop b n c.1 ser >>= _) = _
      rw [hdec]
      show Except.ok (XORBytes (XORBytes (src.take 16) iv) iv ++ src.drop 16) = _
      rw [XORBytes_XORBytes (hp.trans hiv.symm), List.take_append_drop]

/-- The decryption loop returns on whole blocks, whatever they hold. -/
theorem decryptLoop_ok (b : Block) : ∀ (n : Nat) (prev src : GoString), prev.length = 16 →
    src.length = 16 * n → ∃ out, decryptLoop b n prev src = .ok out ∧ out.length = 16 * n
  | 0, _, _, _, _ => ⟨[], rfl, rfl⟩
  | n + 1, prev, src, hprev, hsrc => by
    have hp : (src.take 16).length = 16 := by simp; omega
    obtain ⟨x, hx⟩ := b.Decrypt_ok hp
    obtain ⟨out, hout, hlen⟩ := decryptLoop_ok b n (src.take 16) (src.drop 16) hp (by simp; omega)
    refine ⟨XORBytes x.1 prev ++ out, ?_, by simp [length_XORBytes, x.2, hprev, hlen]; omega⟩
    rw [decryptLoop, hx]
    show (decryptLoop b n (src.take 16) (src.drop 16) >>= _) = _
    rw [hout]
    rfl

/-- The padded length: the least multiple of 16 above the length. -/
theorem length_pkcs7Padding (org : GoString) :
    (pkcs7Padding org 16).length = 16 * (org.length / 16 + 1) := by
  simp only [pkcs7Padding, List.length_append, List.length_replicate]
  omega

/-- Unpadding strips what padding added. -/
theorem pkcs7UnPadding_pkcs7Padding (org : GoString) :
    pkcs7UnPadding (pkcs7Padding org 16) = pure (.ok org) := by
  have hpad : 1 ≤ 16 - org.length % 16 ∧ 16 - org.length % 16 ≤ 16 := by omega
  have hlen : (pkcs7Padding org 16).length = org.length + (16 - org.length % 16) := by
    simp [pkcs7Padding]
  have hget : sliceGet (pkcs7Padding org 16) ((pkcs7Padding org 16).length - 1) =
      pure (UInt8.ofNat (16 - org.length % 16)) := by
    rw [sliceGet_of_lt (by omega)]
    simp only [pkcs7Padding]
    rw [List.getElem_append_right (by simp; omega), List.getElem_replicate]
  have htoNat : (UInt8.ofNat (16 - org.length % 16)).toNat = 16 - org.length % 16 := by
    simp [UInt8.toNat, UInt8.ofNat]
    omega
  rw [pkcs7UnPadding, if_neg (by omega), hget, pure_bind]
  dsimp only
  rw [htoNat, if_neg (by omega), hlen]
  show (pure (.ok ((org ++ _).take _)) : Go (Except String GoString)) = _
  rw [List.take_left' (by omega)]

/-- Unpadding returns, a plaintext or an error, on every non-empty input. -/
theorem pkcs7UnPadding_ok {origData : GoString} (h : origData ≠ []) :
    ∃ r, pkcs7UnPadding origData = .ok r := by
  have hpos : origData.length ≠ 0 := fun h0 => h (List.eq_nil_of_length_eq_zero h0)
  rw [pkcs7UnPadding, if_neg hpos, sliceGet_of_lt (by omega), pure_bind]
  dsimp only
  split <;> exact ⟨_, rfl⟩

/-! ## 2. The package -/

section Package

variable (aes : GoString → Equiv.Perm Block16)

/-- `NewBlock(key)`. -/
def NewBlock (key : GoString) : Except String Block :=
  match NewCipher aes key with
  | .ok block => .ok block
  | .error err => .error ("[aes.NewBlock] aes.NewCipher failed: " ++ err)

/-- `Encrypt(key, block, org)`; `none` is a nil `block`. -/
def Encrypt (key : GoString) (block : Option Block) (org : GoString) : Go (Except String GoString) := do
  let some block := block | return .error "[aes.Encrypt] block is nil"
  if key.length ≤ 0 then return .error "[aes.Encrypt] key is empty"
  if org.length ≤ 0 then return .error "[aes.Encrypt] org is empty"
  let org := pkcs7Padding org block.BlockSize
  let iv ← sliceTo key block.BlockSize
  let ser ← cbcEncrypt block iv (List.replicate org.length 0) org
  return .ok ser

/-- `Decrypt(key, block, ser)`; calling `BlockSize()` on a nil `block` panics. -/
def Decrypt (key : GoString) (block : Option Block) (ser : GoString) : Go (Except String GoString) := do
  if key.length ≤ 0 then return .error "[aes.Decrypt] key is empty"
  let some block := block | throw (.panic "invalid memory address or nil pointer dereference")
  let iv ← sliceTo key block.BlockSize
  let org ← cbcDecrypt block iv (List.replicate ser.length 0) ser
  pkcs7UnPadding org

theorem NewBlock_ok {key : GoString} {block : Block} (h : NewBlock aes key = .ok block) :
    16 ≤ key.length ∧ block = ⟨aes key⟩ := by
  unfold NewBlock NewCipher at h
  by_cases hk : key.length = 16 ∨ key.length = 24 ∨ key.length = 32
  · rw [if_pos hk] at h
    exact ⟨by omega, (Except.ok.inj h).symm⟩
  · rw [if_neg hk] at h
    cases h

theorem sliceTo_of_le {s : GoString} {n : Nat} (h : n ≤ s.length) : sliceTo s n = pure (s.take n) :=
  if_pos h

theorem cbcEncrypt_of_dvd (b : Block) {iv src : GoString} (hiv : iv.length = 16)
    (hsrc : src.length % 16 = 0) :
    cbcEncrypt b iv (List.replicate src.length 0) src = encryptLoop b (src.length / 16) iv src := by
  simp [cbcEncrypt, checkIV, checkBlocks, Block.BlockSize, hiv, hsrc]

theorem cbcDecrypt_of_dvd (b : Block) {iv src : GoString} (hiv : iv.length = 16)
    (hsrc : src.length % 16 = 0) :
    cbcDecrypt b iv (List.replicate src.length 0) src = decryptLoop b (src.length / 16) iv src := by
  simp [cbcDecrypt, checkIV, checkBlocks, Block.BlockSize, hiv, hsrc]

theorem cbcDecrypt_of_not_dvd (b : Block) {iv dst src : GoString} (hiv : iv.length = 16)
    (hsrc : src.length % 16 ≠ 0) :
    cbcDecrypt b iv dst src = throw (.panic "crypto/cipher: input not full blocks") := by
  simp [cbcDecrypt, checkIV, checkBlocks, Block.BlockSize, hiv, hsrc]
  rfl

/-- With a key of at least one block, `Decrypt` is CBC decryption from the
key's first block, then unpadding. -/
theorem Decrypt_eq {key : GoString} (hkey : 16 ≤ key.length) (block : Block) (ser : GoString) :
    Decrypt key (some block) ser =
      (cbcDecrypt block (key.take 16) (List.replicate ser.length 0) ser >>= pkcs7UnPadding) := by
  simp [Decrypt, Block.BlockSize, sliceTo_of_le hkey, show ¬key.length ≤ 0 by omega]

/-- With a key of at least one block and a non-empty plaintext, `Encrypt` is
CBC encryption of the padded plaintext from the key's first block. -/
theorem Encrypt_eq {key : GoString} (hkey : 16 ≤ key.length) (block : Block) {org : GoString}
    (horg : org ≠ []) :
    Encrypt key (some block) org =
      (cbcEncrypt block (key.take 16) (List.replicate (pkcs7Padding org 16).length 0)
        (pkcs7Padding org 16)).map .ok := by
  have horg' : ¬org.length ≤ 0 := fun h => horg (List.eq_nil_of_length_eq_zero (by omega))
  simp [Encrypt, Block.BlockSize, sliceTo_of_le hkey, show ¬key.length ≤ 0 by omega, horg']
  rfl

/-- **`Decrypt` inverts `Encrypt`.** For every key `NewBlock` accepts and every
non-empty plaintext, `Encrypt` succeeds with a ciphertext whose length is the
least multiple of 16 above the plaintext's, and `Decrypt` returns the plaintext. -/
theorem Decrypt_Encrypt {key : GoString} {block : Block} (hblock : NewBlock aes key = .ok block)
    {org : GoString} (horg : org ≠ []) :
    ∃ ser, Encrypt key (some block) org = .ok (.ok ser) ∧ ser.length = 16 * (org.length / 16 + 1) ∧
      Decrypt key (some block) ser = .ok (.ok org) := by
  obtain ⟨hkey, -⟩ := NewBlock_ok aes hblock
  have hlen := length_pkcs7Padding org
  have hiv : (key.take 16).length = 16 := by simp; omega
  obtain ⟨ser, henc, hslen, hdec⟩ := decryptLoop_encryptLoop block ((pkcs7Padding org 16).length / 16)
    (key.take 16) (pkcs7Padding org 16) hiv (by omega)
  refine ⟨ser, ?_, by omega, ?_⟩
  · rw [Encrypt_eq hkey block horg, cbcEncrypt_of_dvd block hiv (by omega), henc]
    rfl
  · rw [Decrypt_eq hkey, cbcDecrypt_of_dvd block hiv (by omega), show ser.length / 16 =
      (pkcs7Padding org 16).length / 16 by omega, hdec]
    exact pkcs7UnPadding_pkcs7Padding org

theorem Decrypt_Encrypt_identity :
    NewBlock (fun _ => Equiv.refl Block16) (List.replicate 16 0) = .ok ⟨Equiv.refl _⟩ ∧
      ([1] : GoString) ≠ [] ∧
      ∃ ser, Encrypt (List.replicate 16 0) (some ⟨Equiv.refl _⟩) [1] = .ok (.ok ser) ∧
        ser.length = 16 * (([1] : GoString).length / 16 + 1) ∧
        Decrypt (List.replicate 16 0) (some ⟨Equiv.refl _⟩) ser = .ok (.ok [1]) :=
  ⟨rfl, List.cons_ne_nil _ _, @Decrypt_Encrypt (fun _ => Equiv.refl Block16) (List.replicate 16 0)
    ⟨Equiv.refl _⟩ rfl [1] (List.cons_ne_nil _ _)⟩

/-- **`Decrypt` panics on two kinds of input.** For every key `NewBlock`
accepts: a ciphertext whose length is not a multiple of 16 makes `CryptBlocks`
panic, the empty ciphertext makes `pkcs7UnPadding` index `origData[-1]`, and
every other ciphertext returns, with a plaintext or an error. -/
theorem Decrypt_faults {key : GoString} {block : Block} (hblock : NewBlock aes key = .ok block)
    (c : GoString) :
    (c.length % 16 ≠ 0 → Decrypt key (some block) c =
        throw (.panic "crypto/cipher: input not full blocks")) ∧
      (c = [] → Decrypt key (some block) c = throw indexOutOfRange) ∧
      (c ≠ [] → c.length % 16 = 0 → ∃ r, Decrypt key (some block) c = .ok r) := by
  obtain ⟨hkey, -⟩ := NewBlock_ok aes hblock
  have hiv : (key.take 16).length = 16 := by simp; omega
  refine ⟨fun hc => ?_, fun hc => ?_, fun hc hdvd => ?_⟩
  · rw [Decrypt_eq hkey, cbcDecrypt_of_not_dvd block hiv hc]
    rfl
  · subst hc
    rw [Decrypt_eq hkey, cbcDecrypt_of_dvd block hiv (show ([] : GoString).length % 16 = 0 from rfl)]
    rfl
  · obtain ⟨out, hout, hlen⟩ := decryptLoop_ok block (c.length / 16) (key.take 16) c hiv (by omega)
    rw [Decrypt_eq hkey, cbcDecrypt_of_dvd block hiv hdvd, hout]
    exact pkcs7UnPadding_ok fun h0 => hc (List.eq_nil_of_length_eq_zero (by simp [h0] at hlen; omega))

theorem Decrypt_faults_identity :
    NewBlock (fun _ => Equiv.refl Block16) (List.replicate 16 0) = .ok ⟨Equiv.refl _⟩ ∧
      ((([0] : GoString).length % 16 ≠ 0 → Decrypt (List.replicate 16 0) (some ⟨Equiv.refl _⟩) [0] =
          throw (.panic "crypto/cipher: input not full blocks")) ∧
        (([0] : GoString) = [] → Decrypt (List.replicate 16 0) (some ⟨Equiv.refl _⟩) [0] =
          throw indexOutOfRange) ∧
        (([0] : GoString) ≠ [] → ([0] : GoString).length % 16 = 0 →
          ∃ r, Decrypt (List.replicate 16 0) (some ⟨Equiv.refl _⟩) [0] = .ok r)) :=
  ⟨rfl, @Decrypt_faults (fun _ => Equiv.refl Block16) (List.replicate 16 0) ⟨Equiv.refl _⟩ rfl [0]⟩

end Package

end aes

end VulcanPkgTool
