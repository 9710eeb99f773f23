import VulcanPkgTool.Gcm

/-!
`security/curve25519` and `security/channel`: two parties, each with an X25519
key pair, build a channel with `EstablishSecureChannel(localPrivateKey,
remotePublicKey)` and exchange AES-256-GCM messages over it.

The primitives are parameters with the one law each that the protocol needs.
X25519 is a scalar multiplication `Curve.ScalarMult` with a base point, assumed
to commute (`Curve.Commutes`: `a · (b · B) = b · (a · B)`, which X25519 meets
for every pair of 32-byte scalars, clamping included). HMAC-SHA256 is any
function with 32-byte sums (`hkdf.HMAC`); HKDF is modelled from
`golang.org/x/crypto/hkdf` over it. AES is the permutation of
`VulcanPkgTool.Aes`, and GCM is `VulcanPkgTool.Gcm`. What `crypto/rand` returns
is an input: the bytes it fills a buffer with, or its error.

What the code does, for every input:

- `EstablishSecureChannel` fails exactly when X25519 gives the all-zero value, a
  low-order remote key. HKDF, `aes.NewCipher` and `cipher.NewGCM` never fail on
  the 32-byte key it derives (`EstablishSecureChannel_eq_error_iff`).
- The two ends compute the same shared secret and so build the same encryptor
  and decryptor (`EstablishSecureChannel_agree`); what one end encrypts, the
  other decrypts (`Decrypt_Encrypt_peer`).
- The encryptor and the decryptor of one end share a key and there is no
  sequence number, so a decryptor accepts exactly the ciphertexts its own
  encryptor can produce (`Decrypt_eq_ok_iff_Encrypt`): a message reflected
  back to its sender, or replayed, is accepted.
- `Decrypt` never panics; it says `ciphertext too short` exactly below twelve
  bytes (`Decrypt_total`). The nonce seed HKDF derives is stored in the
  encryptor and never read: every nonce is fresh from `crypto/rand`.
-/

set_option autoImplicit false

namespace VulcanPkgTool

namespace curve25519

/-- A `[32]byte` key. -/
abbrev Key := Mathlib.Vector UInt8 32

/-- What `security/curve25519` uses of `golang.org/x/crypto/curve25519`: X25519's
scalar multiplication of a point by a scalar, and the base point. -/
structure Curve where
  ScalarMult : Key → Key → Key
  Basepoint : Key

/-- `curve25519.ScalarBaseMult(&dst, &scalar)`. -/
def Curve.ScalarBaseMult (x : Curve) (scalar : Key) : Key := x.ScalarMult scalar x.Basepoint

/-- The Diffie–Hellman law: `a · (b · B) = b · (a · B)`. -/
def Curve.Commutes (x : Curve) : Prop :=
  ∀ a b, x.ScalarMult a (x.ScalarBaseMult b) = x.ScalarMult b (x.ScalarBaseMult a)

/-- The all-zero value. -/
def zero : Key := ⟨List.replicate 32 0, by simp⟩

/-- The error of `crypto/ecdh`, through which `curve25519.X25519` computes, for
an all-zero result. -/
def lowOrderErr : String := "crypto/ecdh: bad X25519 remote ECDH input: low order point"

/-- `curve25519.X25519(scalar, point)` on two 32-byte slices: the product, unless
it is all zeros. -/
def Curve.X25519 (x : Curve) (scalar point : Key) : Except String GoString :=
  if x.ScalarMult scalar point = zero then .error lowOrderErr else .ok (x.ScalarMult scalar point).1

/-- `GenerateKeyPair()`, given what `rand.Read` fills the private key with. -/
def GenerateKeyPair (x : Curve) (rnd : Except String Key) : Except String (Key × Key) :=
  match rnd with
  | .error err => .error ("failed to generate random private key: " ++ err)
  | .ok privateKey => .ok (privateKey, x.ScalarBaseMult privateKey)

/-- `ComputeSharedSecret(privateKey, publicKey)`. -/
def ComputeSharedSecret (x : Curve) (privateKey publicKey : Key) : Except String GoString :=
  match x.X25519 privateKey publicKey with
  | .error err => .error ("failed to compute shared secret: " ++ err)
  | .ok secret => .ok secret

end curve25519

namespace hkdf

/-- HMAC-SHA256 as `hkdf` uses it: `hmac.New(sha256.New, key)`, `Write(message)`,
`Sum(nil)`. SHA-256 is not modelled; its sums are `sha256.Size` bytes. -/
structure HMAC where
  Sum : GoString → GoString → GoString
  length_Sum : ∀ key message, (Sum key message).length = 32

/-- `sha256.Size`. -/
def Size : Nat := 32

/-- `hkdf.Extract(sha256.New, secret, nil)`: a nil salt is `Size` zero bytes. -/
def Extract (mac : HMAC) (secret : GoString) : GoString := mac.Sum (List.replicate Size 0) secret

/-- The blocks the reader's loop writes, `n` of them after `prev`:
`T(i) = HMAC(prk, T(i-1) ‖ info ‖ i)`. -/
def expand (mac : HMAC) (prk info : GoString) : Nat → GoString → Nat → GoString
  | 0, _, _ => []
  | n + 1, prev, counter =>
    mac.Sum prk (prev ++ info ++ [UInt8.ofNat counter]) ++
      expand mac prk info n (mac.Sum prk (prev ++ info ++ [UInt8.ofNat counter])) (counter + 1)

/-- `io.ReadFull(hkdf.New(sha256.New, secret, nil, info), buf)` for a buffer of
`need` bytes: the first `Read` of a new reader, which refuses more than 255
blocks and otherwise fills the buffer from `T(1)` on. -/
def ReadFull (mac : HMAC) (secret info : GoString) (need : Nat) : Except String GoString :=
  if 255 * Size < need then .error "hkdf: entropy limit reached"
  else .ok ((expand mac (Extract mac secret) info ((need + Size - 1) / Size) [] 1).take need)

@[simp] theorem length_expand (mac : HMAC) (prk info : GoString) :
    ∀ n prev counter, (expand mac prk info n prev counter).length = 32 * n
  | 0, _, _ => rfl
  | n + 1, prev, counter => by
    simp only [expand, List.length_append, mac.length_Sum, length_expand mac prk info n]; omega

end hkdf

namespace channel

open curve25519 aes cipher

/-! ## 1. The model -/

/-- `ECDHKeyPair`. -/
structure ECDHKeyPair where
  PrivateKey : Key
  PublicKey : Key

/-- `GenerateKeyPair()`, given what `rand.Read` fills the private key with. -/
def GenerateKeyPair (x : Curve) (rnd : Except String Key) : Except String ECDHKeyPair :=
  match curve25519.GenerateKeyPair x rnd with
  | .error err => .error ("generate key pair failed: " ++ err)
  | .ok (privateKey, publicKey) => .ok ⟨privateKey, publicKey⟩

/-- The HKDF info string of `DeriveSharedKey`. -/
def info : GoString := ascii "REC_GATESECURE_CHANNEL_V1"

/-- `DeriveSharedKey(sharedSecret)`: 44 bytes of HKDF, a 32-byte AES-256 key and
a 12-byte nonce seed. -/
def DeriveSharedKey (mac : hkdf.HMAC) (sharedSecret : GoString) : Except String (GoString × GoString) :=
  match hkdf.ReadFull mac sharedSecret info 44 with
  | .error err => .error err
  | .ok combined => .ok (combined.take 32, combined.drop 32)

/-- The body `NewEncryptor` and `NewDecryptor` share: `aes.NewCipher`, then
`cipher.NewGCM`. -/
def newAEAD (aes : GoString → Equiv.Perm Block16) (aesKey : GoString) : Except String GCM :=
  match NewCipher aes aesKey with
  | .error err => .error ("create aes cipher failed: " ++ err)
  | .ok block =>
    match NewGCM block with
    | .error err => .error ("create aes gcm failed: " ++ err)
    | .ok aesgcm => .ok aesgcm

/-- `Encryptor`. -/
structure Encryptor where
  aesgcm : GCM
  nonceSeed : GoString

/-- `NewEncryptor(aesKey, nonceSeed)`. -/
def NewEncryptor (aes : GoString → Equiv.Perm Block16) (aesKey nonceSeed : GoString) : Except String Encryptor :=
  (newAEAD aes aesKey).map fun aesgcm => ⟨aesgcm, nonceSeed⟩

/-- `e.Encrypt(plaintext)`, given what `rand.Read` fills the nonce with: the nonce,
then `Seal` of the plaintext under it. -/
def Encryptor.Encrypt (e : Encryptor) (rnd : Except String (Mathlib.Vector UInt8 gcmStandardNonceSize))
    (plaintext : GoString) : Go (Except String GoString) :=
  match rnd with
  | .error err => pure (.error ("generate nonce failed: " ++ err))
  | .ok nonce => Except.ok <$> e.aesgcm.Seal nonce.1 nonce.1 plaintext []

/-- `Decryptor`. -/
structure Decryptor where
  aesgcm : GCM

/-- `NewDecryptor(aesKey)`. -/
def NewDecryptor (aes : GoString → Equiv.Perm Block16) (aesKey : GoString) : Except String Decryptor :=
  (newAEAD aes aesKey).map Decryptor.mk

/-- `d.Decrypt(ciphertext)`: the first `NonceSize()` bytes are the nonce, the rest
goes to `Open`. -/
def Decryptor.Decrypt (d : Decryptor) (ciphertext : GoString) : Go (Except String GoString) :=
  if ciphertext.length < d.aesgcm.NonceSize then pure (.error "ciphertext too short")
  else d.aesgcm.Open [] (ciphertext.take d.aesgcm.NonceSize) (ciphertext.drop d.aesgcm.NonceSize) []

/-- `EstablishSecureChannel(localPrivateKey, remotePublicKey)`. -/
def EstablishSecureChannel (x : Curve) (mac : hkdf.HMAC) (aes : GoString → Equiv.Perm Block16)
    (localPrivateKey remotePublicKey : Key) : Except String (Encryptor × Decryptor) := do
  let sharedSecret ← ComputeSharedSecret x localPrivateKey remotePublicKey
  let (aesKey, nonceSeed) ← DeriveSharedKey mac sharedSecret
  let encryptor ← NewEncryptor aes aesKey nonceSeed
  let decryptor ← NewDecryptor aes aesKey
  pure (encryptor, decryptor)

/-- A curve on which every scalar fixes every point. It meets `Curve.Commutes`,
and the closed instances below run on it. -/
def fixedCurve : Curve := ⟨fun _ point => point, ⟨9 :: List.replicate 31 0, rfl⟩⟩

/-- An HMAC whose sums are all zero. -/
def zeroMac : hkdf.HMAC := ⟨fun _ _ => List.replicate 32 0, fun _ _ => List.length_replicate _ _⟩

/-- The identity permutation for every key. -/
def identityAes : GoString → Equiv.Perm Block16 := fun _ => Equiv.refl _

/-! ## 2. Establishing a channel -/

section Establish

variable (x : Curve) (mac : hkdf.HMAC) (aes : GoString → Equiv.Perm Block16)

/-- The 44 bytes `DeriveSharedKey` reads: `T(1)` and the start of `T(2)`. -/
def okm (sharedSecret : GoString) : GoString :=
  (hkdf.expand mac (hkdf.Extract mac sharedSecret) info 2 [] 1).take 44

/-- The channel a shared secret gives: both halves on the GCM of the first 32
bytes of `okm`, the encryptor keeping the other 12. -/
def channelOf (sharedSecret : GoString) : Encryptor × Decryptor :=
  (⟨⟨⟨aes ((okm mac sharedSecret).take 32)⟩⟩, (okm mac sharedSecret).drop 32⟩,
    ⟨⟨⟨aes ((okm mac sharedSecret).take 32)⟩⟩⟩)

theorem length_okm (sharedSecret : GoString) : (okm mac sharedSecret).length = 44 := by
  simp [okm]

/-- HKDF never runs out for 44 bytes. -/
theorem DeriveSharedKey_eq (sharedSecret : GoString) :
    DeriveSharedKey mac sharedSecret = .ok ((okm mac sharedSecret).take 32, (okm mac sharedSecret).drop 32) := by
  rw [DeriveSharedKey, hkdf.ReadFull, if_neg (by decide)]
  rfl

/-- `aes.NewCipher` and `cipher.NewGCM` accept a 32-byte key. -/
theorem newAEAD_eq {aesKey : GoString} (h : aesKey.length = 32) : newAEAD aes aesKey = .ok ⟨⟨aes aesKey⟩⟩ := by
  rw [newAEAD, NewCipher, if_pos (Or.inr (Or.inr h))]
  rfl

/-- Everything after the shared secret succeeds. -/
theorem EstablishSecureChannel_eq (localPrivateKey remotePublicKey : Key) :
    EstablishSecureChannel x mac aes localPrivateKey remotePublicKey =
      (ComputeSharedSecret x localPrivateKey remotePublicKey).map (channelOf mac aes) := by
  unfold EstablishSecureChannel
  cases ComputeSharedSecret x localPrivateKey remotePublicKey with
  | error err => rfl
  | ok s =>
    have hk : ((okm mac s).take 32).length = 32 := by rw [List.length_take, length_okm]; rfl
    simp only [bind, Except.bind, DeriveSharedKey_eq, NewEncryptor, NewDecryptor, newAEAD_eq aes hk]
    rfl

/-- **`EstablishSecureChannel` fails exactly on a low-order remote key**, that is
when X25519 gives all zeros, and then with the error of `ComputeSharedSecret`. -/
theorem EstablishSecureChannel_eq_error_iff (localPrivateKey remotePublicKey : Key) (err : String) :
    EstablishSecureChannel x mac aes localPrivateKey remotePublicKey = .error err ↔
      x.ScalarMult localPrivateKey remotePublicKey = zero ∧
        err = "failed to compute shared secret: " ++ lowOrderErr := by
  rw [EstablishSecureChannel_eq, ComputeSharedSecret, Curve.X25519]
  by_cases hz : x.ScalarMult localPrivateKey remotePublicKey = zero
  · simp only [hz, if_true, Except.map, Except.error.injEq, true_and]
    exact eq_comm
  · simp only [hz, if_false, Except.map, false_and, iff_false]
    exact Except.noConfusion

/-- **Both ends build the same channel.** With the public key of the other end,
each computes `a · (b · B) = b · (a · B)`, so the same shared secret, key and
nonce seed. -/
theorem EstablishSecureChannel_agree (hx : x.Commutes) (a b : Key) :
    EstablishSecureChannel x mac aes a (x.ScalarBaseMult b) =
      EstablishSecureChannel x mac aes b (x.ScalarBaseMult a) := by
  simp only [EstablishSecureChannel_eq, ComputeSharedSecret, Curve.X25519, hx a b]

theorem EstablishSecureChannel_agree_fixed :
    fixedCurve.Commutes ∧
      EstablishSecureChannel fixedCurve zeroMac identityAes zero (fixedCurve.ScalarBaseMult ⟨List.replicate 32 1, rfl⟩) =
        EstablishSecureChannel fixedCurve zeroMac identityAes ⟨List.replicate 32 1, rfl⟩ (fixedCurve.ScalarBaseMult zero) :=
  ⟨fun _ _ => rfl, EstablishSecureChannel_agree fixedCurve zeroMac identityAes (fun _ _ => rfl) _ _⟩

end Establish

/-! ## 3. Messages -/

section Messages

variable {g : GCM}

theorem length_nonce (nonce : Mathlib.Vector UInt8 gcmStandardNonceSize) :
    nonce.1.length = gcmStandardNonceSize := nonce.2

/-- `Encrypt` with a nonce: the nonce, then what `Seal` appends. -/
theorem Encrypt_ok {e : Encryptor} (nonce : Mathlib.Vector UInt8 gcmStandardNonceSize) (p c : GoString) :
    e.Encrypt (.ok nonce) p = .ok (.ok c) ↔ ∃ s, e.aesgcm.Seal [] nonce.1 p [] = .ok s ∧ c = nonce.1 ++ s := by
  rw [Encryptor.Encrypt, Seal_append _ (length_nonce nonce)]
  cases e.aesgcm.Seal [] nonce.1 p [] with
  | error f => exact ⟨fun h => Except.noConfusion h, fun ⟨_, h, _⟩ => Except.noConfusion h⟩
  | ok s =>
    simp only [Except.map, Functor.map, Except.ok.injEq, exists_eq_left']
    exact eq_comm

/-- **A decryptor accepts exactly what an encryptor on its key produces**, and
returns the plaintext that was encrypted. -/
theorem Decrypt_eq_ok_iff {e : Encryptor} {d : Decryptor} (he : e.aesgcm = d.aesgcm) (c p : GoString) :
    d.Decrypt c = .ok (.ok p) ↔ ∃ nonce, e.Encrypt (.ok nonce) p = .ok (.ok c) := by
  simp only [Encrypt_ok, he]
  constructor
  · intro hd
    rw [Decryptor.Decrypt] at hd
    split at hd
    · cases hd
    next hlen =>
    have hn : (c.take d.aesgcm.NonceSize).length = gcmStandardNonceSize := by
      rw [List.length_take]; exact Nat.min_eq_left (Nat.not_lt.mp hlen)
    obtain ⟨-, hs⟩ := (Open_eq_ok_iff _ hn _ _ _).mp hd
    exact ⟨⟨_, hn⟩, _, hs, (List.take_append_drop _ c).symm⟩
  · rintro ⟨nonce, s, hs, rfl⟩
    have hn := length_nonce nonce
    have hlen : ¬(nonce.1 ++ s).length < gcmStandardNonceSize := by
      rw [List.length_append, hn]; exact Nat.not_lt.mpr (Nat.le_add_right _ _)
    rw [Decryptor.Decrypt, GCM.NonceSize, if_neg hlen, List.take_left' hn, List.drop_left' hn]
    exact (Open_eq_ok_iff _ hn _ _ _).mpr ⟨length_le_of_Seal _ hn hs, hs⟩

/-- **`Decrypt` never panics**, and it says `ciphertext too short` exactly when
there are fewer than twelve bytes; otherwise it returns a plaintext or
`errOpen`. -/
theorem Decrypt_total (d : Decryptor) (c : GoString) :
    ∃ r, d.Decrypt c = .ok r ∧ (r = .error "ciphertext too short" ↔ c.length < 12) ∧
      ∀ err, r = .error err → err = "ciphertext too short" ∨ err = errOpen := by
  rw [Decryptor.Decrypt, GCM.NonceSize]
  by_cases hc : c.length < gcmStandardNonceSize
  · exact ⟨_, if_pos hc, iff_of_true rfl hc, fun err h => .inl (Except.error.inj h).symm⟩
  · have hn : (c.take gcmStandardNonceSize).length = gcmStandardNonceSize := by
      rw [List.length_take]; exact Nat.min_eq_left (Nat.not_lt.mp hc)
    obtain ⟨r, hr, herr⟩ := Open_ok d.aesgcm hn (c.drop gcmStandardNonceSize) []
    rw [if_neg hc]
    exact ⟨r, hr, iff_of_false (fun he => absurd (herr _ he) (by decide)) hc,
      fun err h => .inr (herr err h)⟩

end Messages

/-! ## 4. The two ends of a channel -/

section Ends

variable (x : Curve) (mac : hkdf.HMAC) (aes : GoString → Equiv.Perm Block16)

/-- The encryptor and the decryptor of one end share their GCM. -/
theorem aesgcm_eq_of_EstablishSecureChannel {localPrivateKey remotePublicKey : Key} {e : Encryptor}
    {d : Decryptor} (h : EstablishSecureChannel x mac aes localPrivateKey remotePublicKey = .ok (e, d)) :
    e.aesgcm = d.aesgcm := by
  rw [EstablishSecureChannel_eq] at h
  cases hs : ComputeSharedSecret x localPrivateKey remotePublicKey with
  | error err => rw [hs] at h; cases h
  | ok s =>
    rw [hs] at h
    cases h
    rfl

/-- **A decryptor accepts exactly the ciphertexts its own end's encryptor can
produce**: the two directions of a channel share one key and nothing counts
messages, so a message reflected back to its sender, or replayed, is
accepted. -/
theorem Decrypt_eq_ok_iff_Encrypt {localPrivateKey remotePublicKey : Key} {e : Encryptor} {d : Decryptor}
    (h : EstablishSecureChannel x mac aes localPrivateKey remotePublicKey = .ok (e, d)) (c p : GoString) :
    d.Decrypt c = .ok (.ok p) ↔ ∃ nonce, e.Encrypt (.ok nonce) p = .ok (.ok c) :=
  Decrypt_eq_ok_iff (aesgcm_eq_of_EstablishSecureChannel x mac aes h) c p

theorem Decrypt_eq_ok_iff_Encrypt_fixed :
    EstablishSecureChannel fixedCurve zeroMac identityAes zero (fixedCurve.ScalarBaseMult zero) =
      .ok (⟨⟨⟨Equiv.refl _⟩⟩, List.replicate 12 0⟩, ⟨⟨⟨Equiv.refl _⟩⟩⟩) ∧
    ((⟨⟨⟨Equiv.refl _⟩⟩⟩ : Decryptor).Decrypt (ascii "hi") = .ok (.ok []) ↔
      ∃ nonce, (⟨⟨⟨Equiv.refl _⟩⟩, List.replicate 12 0⟩ : Encryptor).Encrypt (.ok nonce) [] = .ok (.ok (ascii "hi"))) :=
  have h : EstablishSecureChannel fixedCurve zeroMac identityAes zero (fixedCurve.ScalarBaseMult zero) =
      .ok (⟨⟨⟨Equiv.refl _⟩⟩, List.replicate 12 0⟩, ⟨⟨⟨Equiv.refl _⟩⟩⟩) := rfl
  ⟨h, Decrypt_eq_ok_iff_Encrypt fixedCurve zeroMac identityAes h _ _⟩

/-- **What one end encrypts, the other decrypts.** For every nonce and every
plaintext `Seal` takes, the ciphertext is the nonce, the GCM ciphertext and the
tag, 28 bytes longer than the plaintext. -/
theorem Decrypt_Encrypt_peer (hx : x.Commutes) {a b : Key} {eA eB : Encryptor} {dA dB : Decryptor}
    (hA : EstablishSecureChannel x mac aes a (x.ScalarBaseMult b) = .ok (eA, dA))
    (hB : EstablishSecureChannel x mac aes b (x.ScalarBaseMult a) = .ok (eB, dB))
    (nonce : Mathlib.Vector UInt8 gcmStandardNonceSize) {p : GoString} (hp : p.length ≤ maxPlaintext) :
    ∃ c, eA.Encrypt (.ok nonce) p = .ok (.ok c) ∧ c.length = p.length + 28 ∧ dB.Decrypt c = .ok (.ok p) := by
  rw [EstablishSecureChannel_agree x mac aes hx, hB] at hA
  obtain ⟨rfl, rfl⟩ := Prod.mk.inj (Except.ok.inj hA)
  have hs := Seal_eq eB.aesgcm (length_nonce nonce) [] [] hp
  have hc : eB.Encrypt (.ok nonce) p = .ok (.ok (nonce.1 ++ _)) := (Encrypt_ok nonce p _).mpr ⟨_, hs, rfl⟩
  refine ⟨_, hc, ?_, (Decrypt_eq_ok_iff_Encrypt x mac aes hB _ p).mpr ⟨nonce, hc⟩⟩
  simp only [List.length_append, length_nonce, length_counterCrypt_blocks, length_auth, List.length_nil,
    gcmStandardNonceSize]
  omega

theorem Decrypt_Encrypt_peer_fixed :
    fixedCurve.Commutes ∧
    EstablishSecureChannel fixedCurve zeroMac identityAes zero (fixedCurve.ScalarBaseMult zero) =
      .ok (⟨⟨⟨Equiv.refl _⟩⟩, List.replicate 12 0⟩, ⟨⟨⟨Equiv.refl _⟩⟩⟩) ∧
    (ascii "hello").length ≤ maxPlaintext ∧
    ∃ c, (⟨⟨⟨Equiv.refl _⟩⟩, List.replicate 12 0⟩ : Encryptor).Encrypt (.ok ⟨List.replicate 12 7, rfl⟩)
        (ascii "hello") = .ok (.ok c) ∧ c.length = (ascii "hello").length + 28 ∧
      (⟨⟨⟨Equiv.refl _⟩⟩⟩ : Decryptor).Decrypt c = .ok (.ok (ascii "hello")) :=
  have h : EstablishSecureChannel fixedCurve zeroMac identityAes zero (fixedCurve.ScalarBaseMult zero) =
      .ok (⟨⟨⟨Equiv.refl _⟩⟩, List.replicate 12 0⟩, ⟨⟨⟨Equiv.refl _⟩⟩⟩) := rfl
  have hp : (ascii "hello").length ≤ maxPlaintext := by decide
  ⟨fun _ _ => rfl, h, hp, Decrypt_Encrypt_peer fixedCurve zeroMac identityAes (fun _ _ => rfl) h h _ hp⟩

end Ends

end channel

end VulcanPkgTool
