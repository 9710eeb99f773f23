import VulcanPkgTool.Net.Addr

/-!
`net.SplitHostPort` and `net.JoinHostPort`, with the byte scans of
`internal/bytealg` they use.

`SplitHostPort` cuts at the last colon. A host that starts with `[` must close
with the first `]` just before that colon. A host without brackets may hold no
colon at all. No `[` or `]` may appear past the point where the host starts or
ends. Each failure is an `AddrError` with the reason and the whole input.

The result is that the accepted strings are exactly `host:port`, with a
colon-free host, and `[host]:port`, where neither part holds a bracket and the
port holds no colon (`SplitHostPort_eq_ok_iff`). So `SplitHostPort` reads back
every `JoinHostPort` (`SplitHostPort_JoinHostPort`).
-/

set_option autoImplicit false

namespace VulcanPkgTool

namespace bytealg

/-- `bytealg.IndexByteString(s, c)`: the first index of `c`, `none` for `-1`. -/
def IndexByteString (s : GoString) (c : UInt8) : Option Nat := s.indexOf? c

/-- `bytealg.LastIndexByteString(s, c)`: the last index of `c`, `none` for `-1`. -/
def LastIndexByteString (s : GoString) (c : UInt8) : Option Nat :=
  (IndexByteString s.reverse c).map fun j => s.length - 1 - j

variable {s pre post : GoString} {c : UInt8} {i : Nat}

theorem IndexByteString_append_cons (pre post : GoString) (h : c ∉ pre) :
    IndexByteString (pre ++ c :: post) c = some pre.length := by
  induction pre with
  | nil => simp [IndexByteString, List.indexOf?_cons]
  | cons x xs ih =>
    rw [List.mem_cons, not_or] at h
    have hx : (x == c) = false := beq_eq_false_iff_ne.mpr (Ne.symm h.1)
    rw [IndexByteString, List.cons_append, List.indexOf?_cons, hx, if_neg Bool.false_ne_true]
    exact congrArg (Option.map Nat.succ) (ih h.2)

theorem IndexByteString_eq_some (h : IndexByteString s c = some i) :
    ∃ pre post, s = pre ++ c :: post ∧ pre.length = i ∧ c ∉ pre := by
  induction s generalizing i with
  | nil => simp [IndexByteString] at h
  | cons x xs ih =>
    rw [IndexByteString, List.indexOf?_cons] at h
    split_ifs at h with hx
    · cases h
      exact ⟨[], xs, by rw [beq_iff_eq.mp hx]; rfl, rfl, List.not_mem_nil c⟩
    · obtain ⟨j, hj, rfl⟩ := Option.map_eq_some'.mp h
      obtain ⟨pre, post, rfl, rfl, hpre⟩ := ih hj
      refine ⟨x :: pre, post, rfl, rfl, ?_⟩
      rw [List.mem_cons, not_or]
      exact ⟨fun hc => hx (beq_iff_eq.mpr hc.symm), hpre⟩

/-- The first index of `c` splits the string at its first `c`. -/
theorem IndexByteString_eq_some_iff :
    IndexByteString s c = some i ↔ ∃ pre post, s = pre ++ c :: post ∧ pre.length = i ∧ c ∉ pre :=
  ⟨IndexByteString_eq_some, fun ⟨_, _, hs, hl, hc⟩ => hs ▸ hl ▸ IndexByteString_append_cons _ _ hc⟩

@[simp] theorem isSome_IndexByteString : (IndexByteString s c).isSome = true ↔ c ∈ s := by
  constructor
  · intro h
    obtain ⟨i, hi⟩ := Option.isSome_iff_exists.mp h
    obtain ⟨pre, post, rfl, -, -⟩ := IndexByteString_eq_some hi
    simp
  · intro h
    cases hI : IndexByteString s c with
    | some _ => rfl
    | none => exact absurd (beq_self_eq_true c) (List.indexOf?_eq_none_iff.mp hI c h)

theorem LastIndexByteString_append_cons (pre post : GoString) (h : c ∉ post) :
    LastIndexByteString (pre ++ c :: post) c = some pre.length := by
  rw [LastIndexByteString, List.reverse_append, List.reverse_cons, List.append_assoc, List.singleton_append,
    IndexByteString_append_cons _ _ (by rwa [List.mem_reverse])]
  simp only [Option.map_some', List.length_append, List.length_cons, List.length_reverse]
  congr 1
  omega

theorem LastIndexByteString_eq_some (h : LastIndexByteString s c = some i) :
    ∃ pre post, s = pre ++ c :: post ∧ pre.length = i ∧ c ∉ post := by
  obtain ⟨j, hj, rfl⟩ := Option.map_eq_some'.mp h
  obtain ⟨pre, post, hs, rfl, hpre⟩ := IndexByteString_eq_some hj
  have hs' : s = post.reverse ++ c :: pre.reverse := by
    rw [← List.reverse_reverse s, hs]
    simp
  refine ⟨post.reverse, pre.reverse, hs', ?_, by rwa [List.mem_reverse]⟩
  rw [hs']
  simp only [List.length_append, List.length_cons, List.length_reverse]
  omega

/-- The last index of `c` splits the string at its last `c`. -/
theorem LastIndexByteString_eq_some_iff :
    LastIndexByteString s c = some i ↔ ∃ pre post, s = pre ++ c :: post ∧ pre.length = i ∧ c ∉ post :=
  ⟨LastIndexByteString_eq_some, fun ⟨_, _, hs, hl, hc⟩ => hs ▸ hl ▸ LastIndexByteString_append_cons _ _ hc⟩

theorem LastIndexByteString_eq_none : LastIndexByteString s c = none ↔ c ∉ s := by
  rw [LastIndexByteString, Option.map_eq_none', ← Option.not_isSome_iff_eq_none, isSome_IndexByteString,
    List.mem_reverse]

end bytealg

namespace net

open bytealg

/-- `net.AddrError`: the reason, and the address it is about. -/
structure AddrError where
  Err : GoString
  Addr : GoString
  deriving DecidableEq, Repr

/-- `(*AddrError).Error`. -/
def AddrError.Error (e : AddrError) : GoString :=
  if e.Addr = [] then e.Err else ascii "address " ++ e.Addr ++ ascii ": " ++ e.Err

def missingPort : GoString := ascii "missing port in address"

def tooManyColons : GoString := ascii "too many colons in address"

/-- The host part of `SplitHostPort`, given the last colon `i`: the host and the
positions `j`, `k` before which no `[` resp. `]` is looked for, or why the input
is rejected. -/
def splitHost (hostport : GoString) (i : Nat) : Except GoString (GoString × Nat × Nat) :=
  if hostport.head? = some 91 then
    match IndexByteString hostport 93 with
    | none => .error (ascii "missing \x27]\x27 in address")
    | some e =>
      if e + 1 = hostport.length then .error missingPort
      else if e + 1 = i then .ok ((hostport.drop 1).take (e - 1), 1, e + 1)
      else if hostport.getD (e + 1) 0 = 58 then .error tooManyColons
      else .error missingPort
  else
    let host := hostport.take i
    if (IndexByteString host 58).isSome then .error tooManyColons else .ok (host, 0, 0)

/-- `net.SplitHostPort(hostport)`. -/
def SplitHostPort (hostport : GoString) : Except AddrError (GoString × GoString) :=
  match LastIndexByteString hostport 58 with
  | none => .error ⟨missingPort, hostport⟩
  | some i =>
    match splitHost hostport i with
    | .error why => .error ⟨why, hostport⟩
    | .ok (host, j, k) =>
      if (IndexByteString (hostport.drop j) 91).isSome then
        .error ⟨ascii "unexpected \x27[\x27 in address", hostport⟩
      else if (IndexByteString (hostport.drop k) 93).isSome then
        .error ⟨ascii "unexpected \x27]\x27 in address", hostport⟩
      else .ok (host, hostport.drop (i + 1))

/-- `net.JoinHostPort(host, port)`: a host with a colon is taken for an IPv6
literal and bracketed. -/
def JoinHostPort (host port : GoString) : GoString :=
  if (IndexByteString host 58).isSome then 91 :: (host ++ 93 :: 58 :: port) else host ++ 58 :: port

/-- A host and a port `SplitHostPort` can return: no bracket in either, no colon
in the port. -/
def HostPortOk (host port : GoString) : Prop :=
  91 ∉ host ∧ 93 ∉ host ∧ 58 ∉ port ∧ 91 ∉ port ∧ 93 ∉ port

section Split

variable {s host port : GoString}

theorem drop_length_succ (pre : GoString) (c : UInt8) (post : GoString) :
    (pre ++ c :: post).drop (pre.length + 1) = post := by
  rw [List.drop_append]
  rfl

/-- The bracketed form is split at its brackets. -/
theorem SplitHostPort_bracketed (h : HostPortOk host port) :
    SplitHostPort (91 :: (host ++ 93 :: 58 :: port)) = .ok (host, port) := by
  obtain ⟨h91, h93, h58, h91p, h93p⟩ := h
  set s : GoString := 91 :: (host ++ 93 :: 58 :: port) with hs
  have e₁ : s = (91 :: (host ++ [93])) ++ 58 :: port := by simp [hs]
  have e₂ : s = (91 :: host) ++ 93 :: 58 :: port := rfl
  have hlen : (91 :: (host ++ [93])).length = host.length + 1 + 1 := by simp
  have hlast : LastIndexByteString s 58 = some (host.length + 1 + 1) := by
    rw [e₁, LastIndexByteString_append_cons _ _ h58, hlen]
  have hfirst : IndexByteString s 93 = some (host.length + 1) := by
    rw [e₂, IndexByteString_append_cons _ _ (by rw [List.mem_cons, not_or]; exact ⟨by decide, h93⟩)]
    rfl
  have hport : s.drop (host.length + 1 + 1 + 1) = port := by rw [e₁, ← hlen, drop_length_succ]
  have hk : s.drop (host.length + 1 + 1) = 58 :: port := drop_length_succ (91 :: host) 93 (58 :: port)
  rw [SplitHostPort, hlast]
  dsimp only
  rw [splitHost, if_pos (show s.head? = some 91 by rw [hs]; rfl), hfirst]
  dsimp only
  rw [if_neg (by simp [hs]), if_pos rfl]
  dsimp only
  rw [hk, hport, show (s.drop 1).take (host.length + 1 - 1) = host from List.take_left' rfl]
  simp [hs, h91, h91p, h93p]

/-- The plain form is split at its only colon. -/
theorem SplitHostPort_plain (h : HostPortOk host port) (h58 : 58 ∉ host) :
    SplitHostPort (host ++ 58 :: port) = .ok (host, port) := by
  obtain ⟨h91, h93, h58p, h91p, h93p⟩ := h
  have hhead : (host ++ 58 :: port).head? ≠ some 91 := by
    cases host with
    | nil => simp
    | cons x xs => simpa using fun hx : x = 91 => h91 (hx ▸ List.mem_cons_self x xs)
  rw [SplitHostPort, LastIndexByteString_append_cons _ _ h58p]
  dsimp only
  rw [splitHost, if_neg hhead]
  dsimp only
  rw [List.take_left' rfl]
  simp [h58, h91, h93, h91p, h93p, List.drop_left' rfl]

/-- In an accepted `[host]:port`, the first `]` is just before the last colon. -/
theorem split_bracketed {pre post pre₂ post₂ : GoString}
    (hhead : (pre ++ 58 :: post).head? = some 91) (hs : pre ++ 58 :: post = pre₂ ++ 93 :: post₂)
    (hi : pre₂.length + 1 = pre.length) :
    ∃ h, pre = 91 :: (h ++ [93]) ∧ pre₂ = 91 :: h ∧ post₂ = 58 :: post := by
  obtain ⟨rfl, hpost⟩ := List.append_inj (show pre ++ 58 :: post = (pre₂ ++ [93]) ++ post₂ by simpa using hs)
    (by simp; omega)
  match pre₂, hhead with
  | x :: h, hhead =>
    obtain rfl : x = 91 := by simpa using hhead
    exact ⟨h, rfl, rfl, hpost.symm⟩

/-- What `SplitHostPort` returns holds no bracket and the port no colon, and the
input is `[host]:port`, or `host:port` with no colon in the host. -/
theorem SplitHostPort_ok (h : SplitHostPort s = .ok (host, port)) :
    HostPortOk host port ∧ (s = 91 :: (host ++ 93 :: 58 :: port) ∨ (58 ∉ host ∧ s = host ++ 58 :: port)) := by
  unfold SplitHostPort at h
  split at h
  · cases h
  next i hi =>
  obtain ⟨pre, post, rfl, rfl, hpost⟩ := LastIndexByteString_eq_some hi
  split at h
  · cases h
  next host' j k hsh =>
  split_ifs at h with h91 h93
  cases h
  simp only [isSome_IndexByteString] at h91 h93
  unfold splitHost at hsh
  dsimp only at hsh
  split_ifs at hsh with hhead hne
  · -- `[host]:port`
    split at hsh
    · cases hsh
    next e he =>
    obtain ⟨pre₂, post₂, hs₂, rfl, h93₂⟩ := IndexByteString_eq_some he
    split_ifs at hsh with hlen hi
    cases hsh
    rw [drop_length_succ]
    rw [hs₂, drop_length_succ] at h93
    obtain ⟨h', rfl, rfl, rfl⟩ := split_bracketed hhead hs₂ hi
    simp only [List.cons_append, List.append_assoc, List.singleton_append, List.drop_one, List.tail_cons,
      List.length_cons, Nat.add_sub_cancel, List.take_left, List.mem_append, List.mem_cons, not_or] at h91 h93 h93₂ ⊢
    exact ⟨⟨h91.1, h93₂.2, hpost, h91.2.2.2.2, h93.2⟩, Or.inl rfl⟩
  · -- `host:port`
    cases hsh
    rw [List.take_left' rfl] at hne ⊢
    rw [drop_length_succ]
    simp only [List.drop_zero, List.mem_append, List.mem_cons, not_or] at h91 h93
    simp only [isSome_IndexByteString] at hne
    exact ⟨⟨h91.1, h93.1, hpost, h91.2.2, h93.2.2⟩, Or.inr ⟨hne, rfl⟩⟩

/-- **What `SplitHostPort` accepts**: exactly `[host]:port`, and `host:port` with no
colon in the host, where neither part holds a bracket and the port no colon. -/
theorem SplitHostPort_eq_ok_iff :
    SplitHostPort s = .ok (host, port) ↔
      HostPortOk host port ∧ (s = 91 :: (host ++ 93 :: 58 :: port) ∨ (58 ∉ host ∧ s = host ++ 58 :: port)) := by
  refine ⟨SplitHostPort_ok, ?_⟩
  rintro ⟨h, rfl | ⟨h58, rfl⟩⟩
  · exact SplitHostPort_bracketed h
  · exact SplitHostPort_plain h h58

end Split

/-- **`SplitHostPort` reads back `JoinHostPort`**, when the host holds no bracket
and the port no colon or bracket. -/
theorem SplitHostPort_JoinHostPort {host port : GoString} (h : HostPortOk host port) :
    SplitHostPort (JoinHostPort host port) = .ok (host, port) := by
  unfold JoinHostPort
  split_ifs with h58
  · exact SplitHostPort_bracketed h
  · exact SplitHostPort_plain h (by simpa using h58)

end net

end VulcanPkgTool
