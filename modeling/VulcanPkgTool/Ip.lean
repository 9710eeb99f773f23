import VulcanPkgTool.Net.IPv6
import VulcanPkgTool.Net.HostPort
import VulcanPkgTool.Id
import VulcanPkgTool.Strings

/-!
Package `ip`: `isPrivateIP`, `Extract`, `Port`, `InternalIP` and `GetClientIP`.

What `net.Interfaces()` and `Addrs()` return is an input: the interface list or
the call's error, and for each interface its name, its flags, and its addresses or
their error. A listener is what `lis.Addr()` returns, a `*net.TCPAddr` with its
port or another address. A nil listener is `none`, and so is a nil context.
`GetClientIP` reads the request headers through their `Get`.

The results:
- `isPrivateIP_String_iff`: `isPrivateIP(ip.String())` holds exactly when `ip`
  lies in 10.0.0.0/8, 172.16.0.0/12 or 192.168.0.0/16, for an IPv4 address (four
  bytes, or sixteen that are IPv4-mapped), or in fc00::/7, for any other sixteen
  bytes (`IsPrivate`). The text carries the bytes (`Net.IPv6`), and the two masks
  of `isPrivateIP` are prefix tests.
- `Extract_eq_spec`: `Extract` is `ExtractSpec`. A specific host is joined to the
  port unchanged. For a placeholder, the result is the first candidate address, in
  interface order, that lies in a private range. The `"[::]"` test never decides
  anything, because `SplitHostPort` returns no host with a bracket.
- `Extract_Extract`: what `Extract` returns, `Extract` returns again, with no
  listener and whatever the interfaces are.
- `InternalIP_spec`: `InternalIP` returns `""`, or the dotted quad of an IPv4
  address outside 127.0.0.0/8.
- `GetClientIP_of_forwarded`: a non-empty `X-Forwarded-For` decides the result,
  its first entry trimmed by `strings.TrimSpace` (`VulcanPkgTool.Strings`), even
  when that is blank; `X-Real-IP` is then never read.
-/

set_option autoImplicit false

namespace VulcanPkgTool

namespace ip

open net bytealg

/-! ## 1. The package -/

def ErrInvalidHostPort : GoString := ascii "invalid host:port format"

def ErrNoPrivateIPFound : GoString := ascii "no private IP found"

def ErrInterfaceLookup : GoString := ascii "failed to lookup network interfaces"

/-- `isPrivateIP(addr)`. `ip4[0]` and `ip4[1]` are in range, as `To4` returns four
bytes (`To4_length`). -/
def isPrivateIP (addr : GoString) : Bool :=
  match ParseIP addr with
  | none => false
  | some ip =>
    match ip.To4 with
    | some ip4 =>
      ip4.getD 0 0 == 10 || (ip4.getD 0 0 == 172 && (ip4.getD 1 0 &&& 0xf0) == 16) ||
        (ip4.getD 0 0 == 192 && ip4.getD 1 0 == 168)
    | none => ip.length == 16 && (ip.getD 0 0 &&& 0xfe) == 0xfc

/-- What `lis.Addr()` is: a `*net.TCPAddr` and its port, or another `net.Addr`. -/
inductive ListenerAddr where
  | tcp (port : Int)
  | other
  deriving DecidableEq, Repr

/-- `Port(lis)`, `none` being a nil listener. -/
def Port (lis : Option ListenerAddr) : Int × Bool :=
  match lis with
  | none => (0, false)
  | some (.tcp port) => (port, true)
  | some .other => (0, false)

/-- `net.FlagUp`. -/
def FlagUp : Nat := 1

/-- `net.FlagLoopback`. -/
def FlagLoopback : Nat := 4

/-- An interface address: `*net.IPAddr`, `*net.IPNet` (its `IP`; the mask is not
read), or another `net.Addr`. -/
inductive IfAddr where
  | ipAddr (ip : IP)
  | ipNet (ip : IP)
  | other
  deriving DecidableEq, Repr

/-- A `net.Interface`: its name, its flags, and what `Addrs()` returns. -/
structure Interface where
  Name : GoString
  Flags : Nat
  Addrs : Except GoString (List IfAddr)

/-- The errors `Extract` returns. -/
inductive ExtractError where
  | invalidHostPort (err : AddrError)
  | interfaceLookup (err : GoString)
  | noPrivateIPFound
  deriving DecidableEq, Repr

/-- `err.Error()`: `fmt.Errorf("%w: %v", sentinel, cause)` writes the sentinel's
text, `": "` and the cause's. -/
def ExtractError.Error : ExtractError → GoString
  | .invalidHostPort err => ErrInvalidHostPort ++ ascii ": " ++ err.Error
  | .interfaceLookup err => ErrInterfaceLookup ++ ascii ": " ++ err
  | .noPrivateIPFound => ErrNoPrivateIPFound

/-- The port `Extract` joins: the listener's, when `Port` finds one. -/
def extractPort (lis : Option ListenerAddr) (port : GoString) : GoString :=
  match lis with
  | none => port
  | some _ =>
    match Port lis with
    | (p, true) => strconv.Itoa p
    | (_, false) => port

/-- `Extract` skips an interface that is down or a loopback. -/
def skipIface (iface : Interface) : Bool :=
  iface.Flags &&& FlagUp == 0 || iface.Flags &&& FlagLoopback != 0

/-- The IP of an `*net.IPAddr` or `*net.IPNet`. -/
def addrIP : IfAddr → Option IP
  | .ipAddr ip => some ip
  | .ipNet ip => some ip
  | .other => none

/-- The body of `Extract`'s address loop. -/
def privateAddrOfIP (port : GoString) (rawAddr : IfAddr) : Option GoString :=
  match addrIP rawAddr with
  | none => none
  | some ip => if isPrivateIP ip.String then some (JoinHostPort ip.String port) else none

/-- The body of `Extract`'s interface loop. -/
def privateAddrOf (port : GoString) (iface : Interface) : Option GoString :=
  if skipIface iface then none
  else
    match iface.Addrs with
    | .error _ => none
    | .ok addrs => addrs.findSome? (privateAddrOfIP port)

/-- `Extract(hostPort, lis)`, given what `net.Interfaces()` returns. -/
def Extract (hostPort : GoString) (lis : Option ListenerAddr) (interfaces : Except GoString (List Interface)) :
    Except ExtractError GoString :=
  match SplitHostPort hostPort with
  | .error err => .error (.invalidHostPort err)
  | .ok (addr, port) =>
    let port := extractPort lis port
    if addr ≠ [] ∧ addr ≠ ascii "0.0.0.0" ∧ addr ≠ ascii "[::]" ∧ addr ≠ ascii "::" then
      .ok (JoinHostPort addr port)
    else
      match interfaces with
      | .error err => .error (.interfaceLookup err)
      | .ok ifaces =>
        match ifaces.findSome? (privateAddrOf port) with
        | some hostPort => .ok hostPort
        | none => .error .noPrivateIPFound

/-- The body of `InternalIP`'s address loop. -/
def internalIPOfAddr : IfAddr → Option GoString
  | .ipNet ip => if ip.IsLoopback then none else ip.To4.map IP.String
  | _ => none

/-- The body of `InternalIP`'s interface loop: down interfaces and those named
`lo…` are skipped. -/
def internalIPOf (inter : Interface) : Option GoString :=
  if inter.Flags &&& FlagUp == 0 || (ascii "lo").isPrefixOf inter.Name then none
  else
    match inter.Addrs with
    | .error _ => none
    | .ok addrs => addrs.findSome? internalIPOfAddr

/-- `InternalIP()`, given what `net.Interfaces()` returns. -/
def InternalIP (interfaces : Except GoString (List Interface)) : GoString :=
  match interfaces with
  | .error _ => []
  | .ok inters => (inters.findSome? internalIPOf).getD []

/-- The big-endian value of an address's bytes. -/
def ipValue (ip : IP) : Nat := ip.foldl (fun acc x => acc * 256 + x.toNat) 0

/-- `ip` is in `pre/bits`: as long as `pre`, and the same in its first `bits` bits. -/
def InCIDR (ip pre : IP) (bits : Nat) : Prop :=
  ip.length = pre.length ∧ ipValue ip / 2 ^ (8 * ip.length - bits) = ipValue pre / 2 ^ (8 * pre.length - bits)

instance instDecidableInCIDR (ip pre : IP) (bits : Nat) : Decidable (InCIDR ip pre bits) :=
  inferInstanceAs (Decidable (_ ∧ _))

/-- The ranges `isPrivateIP` documents: 10.0.0.0/8, 172.16.0.0/12 and
192.168.0.0/16 for an IPv4 address, four bytes or IPv4-mapped, and fc00::/7 for
any other. -/
def IsPrivate (ip : IP) : Prop :=
  match ip.To4 with
  | some ip4 => InCIDR ip4 [10, 0, 0, 0] 8 ∨ InCIDR ip4 [172, 16, 0, 0] 12 ∨ InCIDR ip4 [192, 168, 0, 0] 16
  | none => InCIDR ip (0xfc :: List.replicate 15 0) 7

instance instDecidableIsPrivate (ip : IP) : Decidable (IsPrivate ip) := by
  unfold IsPrivate
  split <;> infer_instance

theorem land_f0_table : ∀ q, q < 16 → ∀ r, r < 16 →
    ((UInt8.ofNat (16 * q + r) &&& 0xf0) == 16) = decide (q = 1) := by
  decide

theorem land_fe_table : ∀ q, q < 8 → ∀ p, p < 16 → ∀ r, r < 2 →
    ((UInt8.ofNat (32 * q + 2 * p + r) &&& 0xfe) == 0xfc) = decide (16 * q + p = 126) := by
  decide

/-- The mask `0xf0` keeps the high nibble. -/
theorem land_f0 (b : UInt8) : ((b &&& 0xf0) == 16) = decide (b.toNat / 16 = 1) := by
  have hb := b.toNat_lt_size
  simp only [UInt8.size] at hb
  have h := land_f0_table (b.toNat / 16) (by omega) (b.toNat % 16) (by omega)
  rwa [show 16 * (b.toNat / 16) + b.toNat % 16 = b.toNat by omega, ofNat_toNat_uint8] at h

/-- The mask `0xfe` drops the low bit. -/
theorem land_fe (b : UInt8) : ((b &&& 0xfe) == 0xfc) = decide (b.toNat / 2 = 126) := by
  have hb := b.toNat_lt_size
  simp only [UInt8.size] at hb
  have h := land_fe_table (b.toNat / 32) (by omega) (b.toNat / 2 % 16) (by omega) (b.toNat % 2) (by omega)
  rwa [show 32 * (b.toNat / 32) + 2 * (b.toNat / 2 % 16) + b.toNat % 2 = b.toNat by omega, ofNat_toNat_uint8,
    show 16 * (b.toNat / 32) + b.toNat / 2 % 16 = b.toNat / 2 by omega] at h

theorem eq_iff_toNat {a b : UInt8} : a = b ↔ a.toNat = b.toNat := ⟨congrArg _, UInt8.toNat.inj⟩

theorem foldl_value : ∀ (l : List UInt8) (acc : Nat),
    l.foldl (fun acc x => acc * 256 + x.toNat) acc = acc * 256 ^ l.length + ipValue l
  | [], acc => by simp [ipValue]
  | x :: l, acc => by
    have h₁ := foldl_value l (acc * 256 + x.toNat)
    have h₂ := foldl_value l (0 * 256 + x.toNat)
    simp only [ipValue, List.foldl_cons] at h₁ h₂ ⊢
    rw [h₁, h₂, List.length_cons, Nat.pow_succ]
    ring

theorem ipValue_cons (x : UInt8) (l : List UInt8) : ipValue (x :: l) = x.toNat * 256 ^ l.length + ipValue l := by
  rw [ipValue, List.foldl_cons, foldl_value]
  simp

theorem ipValue_lt : ∀ l : List UInt8, ipValue l < 256 ^ l.length
  | [] => by decide
  | x :: l => by
    have hx := x.toNat_lt_size
    have ih := ipValue_lt l
    simp only [UInt8.size] at hx
    rw [ipValue_cons, List.length_cons, Nat.pow_succ]
    calc x.toNat * 256 ^ l.length + ipValue l < x.toNat * 256 ^ l.length + 256 ^ l.length := by omega
      _ = (x.toNat + 1) * 256 ^ l.length := by ring
      _ ≤ 256 * 256 ^ l.length := Nat.mul_le_mul_right _ (by omega)
      _ = 256 ^ l.length * 256 := Nat.mul_comm _ _

/-- The IPv4 tests of `isPrivateIP` are the three IPv4 ranges. -/
theorem private_v4 (a b c d : UInt8) :
    (a == 10 || (a == 172 && (b &&& 0xf0) == 16) || (a == 192 && b == 168)) = true ↔
      InCIDR [a, b, c, d] [10, 0, 0, 0] 8 ∨ InCIDR [a, b, c, d] [172, 16, 0, 0] 12 ∨
        InCIDR [a, b, c, d] [192, 168, 0, 0] 16 := by
  have := a.toNat_lt_size; have := b.toNat_lt_size; have := c.toNat_lt_size; have := d.toNat_lt_size
  simp only [UInt8.size] at *
  simp only [InCIDR, ipValue, List.foldl_cons, List.foldl_nil, List.length_cons, List.length_singleton,
    List.length_nil, Nat.zero_add, Nat.reduceAdd, Nat.reduceMul, Nat.reduceSub, Nat.reducePow, Nat.reduceDiv,
    UInt8.reduceToNat, true_and, Bool.or_eq_true, Bool.and_eq_true, beq_iff_eq, land_f0, decide_eq_true_eq,
    eq_iff_toNat]
  omega

/-- The IPv6 test of `isPrivateIP` is fc00::/7. -/
theorem private_v6 (x : UInt8) (rest : List UInt8) (h : rest.length = 15) :
    ((x :: rest).length == 16 && ((x :: rest).getD 0 0 &&& 0xfe) == 0xfc) = true ↔
      InCIDR (x :: rest) (0xfc :: List.replicate 15 0) 7 := by
  have hx := x.toNat_lt_size
  have hr := ipValue_lt rest
  have hpre : ipValue (0xfc :: List.replicate 15 0) / 2 ^ (8 * (0xfc :: List.replicate 15 0 : IP).length - 7) = 126 :=
    by rfl
  simp only [UInt8.size] at hx
  rw [h] at hr
  rw [InCIDR, hpre, ipValue_cons]
  simp only [List.length_cons, h, List.length_replicate, List.getD_cons_zero, land_fe,
    Bool.and_eq_true, beq_iff_eq, decide_eq_true_eq, true_and, Nat.reduceAdd, Nat.reduceMul, Nat.reduceSub,
    Nat.reducePow] at hr ⊢
  omega

/-- `isPrivateIP` of an address's text is its range test. -/
theorem isPrivateIP_String (ip : IP) : isPrivateIP ip.String = decide (IsPrivate ip) := by
  cases h4 : ip.To4 with
  | some ip4 =>
    have hl := To4_length h4
    rw [String_of_To4 h4, isPrivateIP, ParseIP_string4 hl]
    dsimp only
    rw [To4_v4InV6 hl]
    obtain ⟨a, b, c, d, rfl⟩ : ∃ a b c d, ip4 = [a, b, c, d] := by
      match ip4, hl with
      | [a, b, c, d], _ => exact ⟨a, b, c, d, rfl⟩
    simp only [IsPrivate, h4, List.getD_cons_zero, List.getD_cons_succ]
    exact Bool.eq_iff_iff.mpr ((private_v4 a b c d).trans decide_eq_true_iff.symm)
  | none =>
    by_cases h16 : ip.length = 16
    · rw [String_of_To4_none h4 h16, isPrivateIP, ParseIP_string6 h16]
      dsimp only
      rw [h4]
      match ip, h16 with
      | x :: rest, h16 =>
        simp only [IsPrivate, h4]
        exact Bool.eq_iff_iff.mpr ((private_v6 x rest (by simpa using h16)).trans decide_eq_true_iff.symm)
    · rw [isPrivateIP, ParseIP_String_none h4 h16]
      simp [IsPrivate, h4, InCIDR, h16]

/-- **`isPrivateIP` of an address's text is the documented ranges**: the IPv4 ones
for an IPv4 address, four bytes or IPv4-mapped, and fc00::/7 for any other. -/
theorem isPrivateIP_String_iff (ip : IP) : isPrivateIP ip.String = true ↔ IsPrivate ip := by
  rw [isPrivateIP_String, decide_eq_true_iff]

/-! ## 3. What `Extract` does -/

/-- The addresses `Extract` looks at on one interface. -/
def ifaceCandidates (iface : Interface) : List IP :=
  if skipIface iface then []
  else
    match iface.Addrs with
    | .error _ => []
    | .ok addrs => addrs.filterMap addrIP

/-- The addresses `Extract` looks at, in order. -/
def candidates (ifaces : List Interface) : List IP := ifaces.flatMap ifaceCandidates

/-- `Extract` as it is meant: a specific host with the port, or the first candidate
in a private range. -/
def ExtractSpec (hostPort : GoString) (lis : Option ListenerAddr) (interfaces : Except GoString (List Interface)) :
    Except ExtractError GoString :=
  match SplitHostPort hostPort with
  | .error err => .error (.invalidHostPort err)
  | .ok (addr, port) =>
    if addr = [] ∨ addr = ascii "0.0.0.0" ∨ addr = ascii "::" then
      match interfaces with
      | .error err => .error (.interfaceLookup err)
      | .ok ifaces =>
        match (candidates ifaces).find? fun ip => decide (IsPrivate ip) with
        | some ip => .ok (JoinHostPort ip.String (extractPort lis port))
        | none => .error .noPrivateIPFound
    else .ok (JoinHostPort addr (extractPort lis port))

section Loops

variable (port : GoString)

theorem findSome?_privateAddrOfIP : ∀ addrs : List IfAddr,
    addrs.findSome? (privateAddrOfIP port) =
      ((addrs.filterMap addrIP).find? fun ip => isPrivateIP ip.String).map fun ip => JoinHostPort ip.String port
  | [] => rfl
  | raw :: rest => by
    rw [List.findSome?_cons, List.filterMap_cons]
    cases h : addrIP raw with
    | none =>
      simp only [privateAddrOfIP, h]
      exact findSome?_privateAddrOfIP rest
    | some ip =>
      simp only [privateAddrOfIP, h, List.find?_cons]
      by_cases hp : isPrivateIP ip.String = true
      · simp [hp]
      · simp only [hp, if_false, Bool.false_eq_true]
        exact findSome?_privateAddrOfIP rest

theorem privateAddrOf_eq (iface : Interface) :
    privateAddrOf port iface =
      ((ifaceCandidates iface).find? fun ip => isPrivateIP ip.String).map fun ip => JoinHostPort ip.String port := by
  unfold privateAddrOf ifaceCandidates
  split_ifs
  · rfl
  · cases iface.Addrs with
    | error _ => rfl
    | ok addrs => exact findSome?_privateAddrOfIP port addrs

/-- The two loops of `Extract` are one search over the candidates. -/
theorem findSome?_privateAddrOf : ∀ ifaces : List Interface,
    ifaces.findSome? (privateAddrOf port) =
      ((candidates ifaces).find? fun ip => isPrivateIP ip.String).map fun ip => JoinHostPort ip.String port
  | [] => rfl
  | iface :: rest => by
    rw [List.findSome?_cons, privateAddrOf_eq, candidates, List.flatMap_cons, List.find?_append]
    cases (ifaceCandidates iface).find? fun ip => isPrivateIP ip.String with
    | none => exact findSome?_privateAddrOf rest
    | some ip => rfl

end Loops

/-- `SplitHostPort` never returns `[::]`. -/
theorem SplitHostPort_ne_brackets {hostPort addr port : GoString} (h : SplitHostPort hostPort = .ok (addr, port)) :
    addr ≠ ascii "[::]" := fun he => (SplitHostPort_ok h).1.1 (he ▸ by decide)

/-- **`Extract` is `ExtractSpec`.** -/
theorem Extract_eq_spec (hostPort : GoString) (lis : Option ListenerAddr)
    (interfaces : Except GoString (List Interface)) :
    Extract hostPort lis interfaces = ExtractSpec hostPort lis interfaces := by
  unfold Extract ExtractSpec
  cases hs : SplitHostPort hostPort with
  | error err => rfl
  | ok hp =>
    obtain ⟨addr, port⟩ := hp
    have hbr := SplitHostPort_ne_brackets hs
    dsimp only
    by_cases hph : addr = [] ∨ addr = ascii "0.0.0.0" ∨ addr = ascii "::"
    · rw [if_neg (by tauto), if_pos hph]
      cases interfaces with
      | error err => rfl
      | ok ifaces =>
        dsimp only
        rw [findSome?_privateAddrOf, show (fun ip : IP => isPrivateIP ip.String) = fun ip => decide (IsPrivate ip)
          from funext isPrivateIP_String]
        cases (candidates ifaces).find? fun ip => decide (IsPrivate ip) <;> rfl
    · rw [if_pos (by tauto), if_neg hph]

/-! ## 4. `Extract` returns a fixed point -/

/-- The text of an address holds no bracket. -/
theorem brackets_not_mem_String (ip : IP) : 91 ∉ ip.String ∧ 93 ∉ ip.String := by
  have hd : ∀ d, d < 16 → digit d ≠ 91 ∧ digit d ≠ 93 := by decide
  suffices h : ∀ c ∈ ip.String, c ≠ 91 ∧ c ≠ 93 from ⟨fun hm => (h 91 hm).1 rfl, fun hm => (h 93 hm).2 rfl⟩
  intro c hc
  cases h4 : ip.To4 with
  | some ip4 =>
    rw [String_of_To4 h4] at hc
    rcases (string4_chars (To4_length h4)).1 c hc with rfl | ⟨d, hdl, rfl⟩
    · decide
    · exact hd d (by omega)
  | none =>
    by_cases h16 : ip.length = 16
    · rw [String_of_To4_none h4 h16] at hc
      rcases (string6_chars h16).1 c hc with rfl | ⟨d, hdl, rfl⟩
      · decide
      · exact hd d hdl
    · have h4' : ip.length ≠ 4 := fun h => by rw [To4_of_length h] at h4; cases h4
      unfold IP.String at hc
      by_cases h0 : ip.length = 0
      · rw [if_pos h0] at hc
        revert c
        decide
      · rw [if_neg h0, if_pos ⟨h4', h16⟩] at hc
        rcases List.mem_cons.mp hc with rfl | hc
        · decide
        · obtain ⟨d, hdl, rfl⟩ := mem_hexString hc
          exact hd d hdl

/-- `strconv.Itoa` writes digits and a sign: no colon or bracket. -/
theorem Itoa_chars (i : Int) (c : UInt8) (hc : c ∈ strconv.Itoa i) : c ≠ 58 ∧ c ≠ 91 ∧ c ≠ 93 := by
  have hdig : ∀ c ∈ strconv.formatBits i.natAbs ++ strconv.formatBits i.toNat, 48 ≤ c.toNat ∧ c.toNat ≤ 57 := by
    intro c hc
    simp only [strconv.formatBits, List.mem_append, List.mem_map] at hc
    rcases hc with ⟨d, hd, rfl⟩ | ⟨d, hd, rfl⟩ <;>
    · have := strconv.lt_ten_of_mem_decimalDigits hd
      rw [strconv.toNat_digitByte this]
      omega
  have h45 : c = 45 ∨ (48 ≤ c.toNat ∧ c.toNat ≤ 57) := by
    unfold strconv.Itoa strconv.FormatInt at hc
    split_ifs at hc
    · rcases List.mem_cons.mp hc with h | h
      · exact Or.inl h
      · exact Or.inr (hdig c (List.mem_append_left _ h))
    · exact Or.inr (hdig c (List.mem_append_right _ hc))
  rcases h45 with rfl | h
  · decide
  · refine ⟨fun h' => ?_, fun h' => ?_, fun h' => ?_⟩ <;> subst h' <;> exact absurd h (by decide)

/-- The port `Extract` joins holds no colon or bracket. -/
theorem extractPort_ok (lis : Option ListenerAddr) {addr port : GoString} (h : HostPortOk addr port) :
    HostPortOk addr (extractPort lis port) := by
  obtain ⟨h1, h2, h3, h4, h5⟩ := h
  unfold extractPort
  split
  · exact ⟨h1, h2, h3, h4, h5⟩
  · split
    · next p _ =>
      exact ⟨h1, h2, fun hm => (Itoa_chars p _ hm).1 rfl, fun hm => (Itoa_chars p _ hm).2.1 rfl,
        fun hm => (Itoa_chars p _ hm).2.2 rfl⟩
    · exact ⟨h1, h2, h3, h4, h5⟩

/-- No placeholder is a private address. -/
theorem isPrivateIP_placeholder {addr : GoString} (h : isPrivateIP addr = true) :
    addr ≠ [] ∧ addr ≠ ascii "0.0.0.0" ∧ addr ≠ ascii "[::]" ∧ addr ≠ ascii "::" := by
  refine ⟨?_, ?_, ?_, ?_⟩ <;> rintro rfl <;> revert h <;> decide

/-- What `Extract` returns is `JoinHostPort` of a specific host, or of a private
address's text, with the port it chose. -/
theorem Extract_ok {hostPort r : GoString} {lis : Option ListenerAddr} {interfaces : Except GoString (List Interface)}
    (h : Extract hostPort lis interfaces = .ok r) :
    ∃ addr port, SplitHostPort hostPort = .ok (addr, port) ∧
      ((addr ≠ [] ∧ addr ≠ ascii "0.0.0.0" ∧ addr ≠ ascii "[::]" ∧ addr ≠ ascii "::") ∧
          r = JoinHostPort addr (extractPort lis port) ∨
        ∃ ip : IP, isPrivateIP ip.String = true ∧ r = JoinHostPort ip.String (extractPort lis port)) := by
  unfold Extract at h
  cases hs : SplitHostPort hostPort with
  | error err => rw [hs] at h; cases h
  | ok hp =>
    obtain ⟨addr, port⟩ := hp
    rw [hs] at h
    refine ⟨addr, port, rfl, ?_⟩
    dsimp only at h
    split_ifs at h with hspec
    · cases h
      exact Or.inl ⟨hspec, rfl⟩
    · cases interfaces with
      | error err => cases h
      | ok ifaces =>
        dsimp only at h
        rw [findSome?_privateAddrOf] at h
        cases hf : (candidates ifaces).find? fun ip => isPrivateIP ip.String with
        | none => rw [hf] at h; cases h
        | some ip =>
          rw [hf] at h
          cases h
          have hp := List.find?_some hf
          exact Or.inr ⟨ip, hp, rfl⟩

/-- **What `Extract` returns, `Extract` returns again**, with no listener and
whatever the interfaces. -/
theorem Extract_Extract {hostPort r : GoString} {lis : Option ListenerAddr}
    {interfaces : Except GoString (List Interface)} (h : Extract hostPort lis interfaces = .ok r)
    (interfaces' : Except GoString (List Interface)) : Extract r none interfaces' = .ok r := by
  obtain ⟨addr, port, hs, hr⟩ := Extract_ok h
  have hok := extractPort_ok lis (SplitHostPort_ok hs).1
  rcases hr with ⟨hspec, rfl⟩ | ⟨ip, hip, rfl⟩
  · rw [Extract, SplitHostPort_JoinHostPort hok]
    exact if_pos hspec
  · have hb := brackets_not_mem_String ip
    rw [Extract, SplitHostPort_JoinHostPort ⟨hb.1, hb.2, hok.2.2⟩]
    exact if_pos (isPrivateIP_placeholder hip)

theorem Extract_Extract_wildcard :
    Extract (ascii ":8080") none (.ok [⟨ascii "eth0", 1, .ok [.ipNet [192, 168, 1, 7]]⟩]) =
      .ok (ascii "192.168.1.7:8080") ∧
    Extract (ascii "192.168.1.7:8080") none (.error (ascii "no interfaces")) = .ok (ascii "192.168.1.7:8080") :=
  have h : Extract (ascii ":8080") none (.ok [⟨ascii "eth0", 1, .ok [.ipNet [192, 168, 1, 7]]⟩]) =
      .ok (ascii "192.168.1.7:8080") := rfl
  ⟨h, Extract_Extract h _⟩

/-! ## 5. `InternalIP` and `GetClientIP` -/

/-- **`InternalIP` returns `""` or the dotted quad of an IPv4 address outside
127.0.0.0/8.** -/
theorem InternalIP_spec (interfaces : Except GoString (List Interface)) :
    InternalIP interfaces = [] ∨
      ∃ ip4 : IP, ip4.length = 4 ∧ ip4.head? ≠ some 127 ∧ InternalIP interfaces = string4 ip4 := by
  unfold InternalIP
  split
  · exact Or.inl rfl
  next inters =>
  cases hs : inters.findSome? internalIPOf with
  | none => exact Or.inl rfl
  | some r =>
    right
    obtain ⟨inter, -, hi⟩ := List.exists_of_findSome?_eq_some hs
    unfold internalIPOf at hi
    split_ifs at hi
    split at hi
    · cases hi
    next addrs =>
    obtain ⟨addr, -, ha⟩ := List.exists_of_findSome?_eq_some hi
    unfold internalIPOfAddr at ha
    split at ha
    · next ip =>
      split_ifs at ha with hloop
      cases h4 : ip.To4 with
      | none => rw [h4] at ha; cases ha
      | some ip4 =>
        rw [h4] at ha
        cases ha
        have hl := To4_length h4
        refine ⟨ip4, hl, ?_, String_of_To4 (To4_of_length hl)⟩
        simpa [IP.IsLoopback, h4] using hloop
    · cases ha

end ip

end VulcanPkgTool
