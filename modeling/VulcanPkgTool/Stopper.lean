import VulcanPkgTool.Go

/-!
`sync/stopper.go`: `Stopper.TriggerStop` and `Stopper.DoStop` under every
interleaving of any number of goroutines calling them.

Both methods run the same double-checked close: test an atomic flag, take a
mutex, test the flag again, close a channel, set the flag, release the mutex.
`TriggerStop` runs it on `stopTriggered`, `_triggerLock` and `stopTrigger`;
`DoStop` runs it on `isStopping`, `_stoppingLock` and `stoppingChan`, except that
in `DoStop` the part under the mutex is a closure, so the `return` after the
second test leaves only the closure. `DoStop` then goes on, as the caller that
closed the channel does: it starts a goroutine that calls `f` and closes `done`,
waits in a `select` for `done` or for its timeout, and closes `stoppedChan`.

The model is a step relation on the shared state and one program counter per
goroutine, the goroutines `DoStop` starts included; each atomic load or store,
`Lock`, `Unlock`, `close`, `go` statement, `select` and call of `f` is one step.
The model has no clock, so `DoStop`'s timeout may have passed at any step: its
`select` may return whether `f` has returned or not. A `close` is counted rather
than checked, so "closed at most once" is a bound on the count. `OnceInv` is the
invariant of the double-checked close; from it `closes_le_one` shows that
`stopTrigger` and `stoppingChan` are each closed at most once in every reachable
state. `stoppedChan` and `f` have no such guard: two `DoStop` calls that both pass
the first test before either takes the mutex both reach them (`DoStop_twice`).
-/

set_option autoImplicit false

namespace VulcanPkgTool

namespace Stopper

/-! ## The double-checked close -/

/-- Program points of the double-checked close:
`if flag.Load() { return }; mu.Lock(); defer mu.Unlock(); if flag.Load() { return };
close(ch); flag.Store(true)`. -/
inductive OncePc where
  /-- The first test of the flag, without the mutex. -/
  | start
  /-- `mu.Lock()`. -/
  | lock
  /-- The second test of the flag, under the mutex. -/
  | check
  /-- `close(ch)`. -/
  | close
  /-- `flag.Store(true)`. -/
  | store
  /-- The deferred `mu.Unlock()`. -/
  | unlock
  deriving DecidableEq, Repr

/-- The points at which the goroutine holds the mutex. -/
def OncePc.locked : OncePc → Bool
  | .check | .close | .store | .unlock => true
  | .start | .lock => false

/-- What one double-checked close guards: the flag, the goroutine holding the
mutex, and how many times `close(ch)` has run. -/
structure Once where
  flag : Bool
  holder : Option Nat
  closes : Nat
  deriving DecidableEq, Repr

/-- Where a goroutine is after a step of the double-checked close. -/
inductive OnceNext where
  /-- Still inside, at `pc`. -/
  | inside (pc : OncePc)
  /-- The first test found the flag set: the method returns. -/
  | skipped
  /-- The mutex is released and the code under it has returned. -/
  | released
  deriving DecidableEq, Repr

/-- The program point after a step, if still inside. -/
def OnceNext.pc? : OnceNext → Option OncePc
  | .inside pc => some pc
  | .skipped | .released => none

/-- One step of goroutine `t` at `pc`; `none` when it is blocked on the mutex. -/
def onceStep (o : Once) (t : Nat) : OncePc → Option (Once × OnceNext)
  | .start => some (o, if o.flag then .skipped else .inside .lock)
  | .lock => if o.holder = none then some ({ o with holder := some t }, .inside .check) else none
  | .check => some (o, if o.flag then .inside .unlock else .inside .close)
  | .close => some ({ o with closes := o.closes + 1 }, .inside .store)
  | .store => some ({ o with flag := true }, .inside .unlock)
  | .unlock => some ({ o with holder := none }, .released)

/-- The flag is clear, nobody holds the mutex, the channel is open. -/
def Once.init : Once := ⟨false, none, 0⟩

/-- **The invariant of the double-checked close**, given the program point `pcs t`
of each goroutine `t` inside it. Whoever is past `Lock` holds the mutex; the
channel was closed at most once, and it was closed exactly when the flag is set
or the goroutine that closed it has yet to set it; a goroutine about to close
finds it open and the flag clear. -/
structure OnceInv (o : Once) (pcs : Nat → Option OncePc) : Prop where
  holder_eq : ∀ t pc, pcs t = some pc → pc.locked → o.holder = some t
  closes_le : o.closes ≤ 1
  closes_eq_one : o.closes = 1 ↔ (o.flag = true ∨ ∃ t, pcs t = some .store)
  at_close : ∀ t, pcs t = some .close → o.closes = 0 ∧ o.flag = false

/-- Before any step, every goroutine inside is at its first test. -/
theorem OnceInv.init {pcs : Nat → Option OncePc} (h : ∀ t pc, pcs t = some pc → pc = .start) :
    OnceInv Once.init pcs where
  holder_eq t pc ht hpc := by cases h t pc ht; cases hpc
  closes_le := by decide
  closes_eq_one := by
    simp only [Once.init, Bool.false_eq_true, false_or, Nat.zero_ne_one, false_iff, not_exists]
    exact fun t ht => by cases h t _ ht
  at_close t ht := by cases h t _ ht

/-- Only the goroutine holding the mutex is past `Lock`. -/
theorem OnceInv.unique {o : Once} {pcs : Nat → Option OncePc} (h : OnceInv o pcs) {t u : Nat}
    {pc pc' : OncePc} (ht : pcs t = some pc) (hpc : pc.locked) (hu : pcs u = some pc')
    (hpc' : pc'.locked) : u = t := by
  have := (h.holder_eq t pc ht hpc).symm.trans (h.holder_eq u pc' hu hpc')
  exact (Option.some.inj this).symm

section OnceStep

variable {o o' : Once} {pcs : Nat → Option OncePc} {t : Nat} {pc : OncePc} {next : OnceNext}

/-- After `t` moves, a goroutine inside is `t` at its new point or another one
where it was. -/
theorem update_eq_some {p : OncePc} {u : Nat} (h : Function.update pcs t next.pc? u = some p) :
    (u = t ∧ next.pc? = some p) ∨ (u ≠ t ∧ pcs u = some p) := by
  by_cases hut : u = t
  · subst hut; simp only [Function.update_same] at h; exact .inl ⟨rfl, h⟩
  · rw [Function.update_noteq hut] at h; exact .inr ⟨hut, h⟩

/-- A move between points other than `store` leaves the goroutines at `store` as they were. -/
theorem exists_store_update (ht : pcs t = some pc) (hpc : pc ≠ .store)
    (hnext : next.pc? ≠ some .store) :
    (∃ u, Function.update pcs t next.pc? u = some .store) ↔ ∃ u, pcs u = some .store := by
  constructor
  · rintro ⟨u, hu⟩
    rcases update_eq_some hu with ⟨-, h⟩ | ⟨-, h⟩
    · exact absurd h hnext
    · exact ⟨u, h⟩
  · rintro ⟨u, hu⟩
    have hut : u ≠ t := fun h => hpc (Option.some.inj (ht.symm.trans (h ▸ hu)))
    exact ⟨u, by rwa [Function.update_noteq hut]⟩

/-- A step that keeps the flag and the count, moves `t` from a point other than
`store` to one other than `close` and `store`, and leaves whoever is past `Lock`
the holder, keeps the invariant. -/
theorem OnceInv.frame (h : OnceInv o pcs) (ht : pcs t = some pc) (hpc : pc ≠ .store)
    (hflag : o'.flag = o.flag) (hcloses : o'.closes = o.closes)
    (hnext : ∀ p, next.pc? = some p → p ≠ .store ∧ p ≠ .close ∧ (p.locked → o'.holder = some t))
    (hothers : ∀ u p, u ≠ t → pcs u = some p → p.locked → o'.holder = some u) :
    OnceInv o' (Function.update pcs t next.pc?) := by
  refine ⟨fun u p hu hp => ?_, hcloses ▸ h.closes_le, ?_, fun u hu => ?_⟩
  · rcases update_eq_some hu with ⟨rfl, hn⟩ | ⟨hut, hn⟩
    · exact (hnext p hn).2.2 hp
    · exact hothers u p hut hn hp
  · rw [hcloses, hflag, exists_store_update ht hpc fun hs => (hnext _ hs).1 rfl]
    exact h.closes_eq_one
  · rcases update_eq_some hu with ⟨-, hn⟩ | ⟨-, hn⟩
    · exact absurd rfl (hnext _ hn).2.1
    · rw [hcloses, hflag]
      exact h.at_close u hn

/-- **The step lemma of the double-checked close.** A step of goroutine `t` keeps
the invariant, with `t` moved to its new point. -/
theorem OnceInv.step (h : OnceInv o pcs) (ht : pcs t = some pc)
    (hstep : onceStep o t pc = some (o', next)) : OnceInv o' (Function.update pcs t next.pc?) := by
  cases pc <;>
    simp only [onceStep, Option.ite_none_right_eq_some, Option.some.injEq, Prod.mk.injEq] at hstep
  case start =>
    obtain ⟨rfl, rfl⟩ := hstep
    refine h.frame ht (by decide) rfl rfl (fun p hp => ?_) fun u p _ => h.holder_eq u p
    split at hp <;> simp [OnceNext.pc?] at hp
    subst hp
    simp [OncePc.locked]
  case lock =>
    obtain ⟨hfree, rfl, rfl⟩ := hstep
    refine h.frame ht (by decide) rfl rfl (fun p hp => ?_) fun u p _ hu hp => ?_
    · simp only [OnceNext.pc?, Option.some.injEq] at hp
      subst hp
      simp
    · simp [h.holder_eq u p hu hp] at hfree
  case check =>
    obtain ⟨rfl, rfl⟩ := hstep
    have hheld := h.holder_eq t .check ht rfl
    cases hf : o.flag
    · -- the flag is clear: `t` goes on to close, and finds the channel open
      simp only [Bool.false_eq_true, ↓reduceIte]
      have hnostore : ¬∃ v, pcs v = some .store := fun ⟨v, hv⟩ => by
        cases h.unique ht rfl hv rfl
        simp [ht] at hv
      have hzero : o.closes = 0 := by
        have hle := h.closes_le
        have hone := h.closes_eq_one
        simp only [hf, Bool.false_eq_true, hnostore, or_self, iff_false] at hone
        omega
      refine ⟨fun u p hu hp => ?_, h.closes_le, ?_, fun u hu => ?_⟩
      · rcases update_eq_some hu with ⟨rfl, -⟩ | ⟨-, hn⟩
        · exact hheld
        · exact h.holder_eq u p hn hp
      · rw [exists_store_update ht (by decide) (by simp [OnceNext.pc?])]
        exact h.closes_eq_one
      · rcases update_eq_some hu with ⟨-, -⟩ | ⟨-, hn⟩
        · exact ⟨hzero, hf⟩
        · exact h.at_close u hn
    · -- the flag is set: `t` goes to unlock
      simp only [↓reduceIte]
      refine h.frame ht (by decide) rfl rfl (fun p hp => ?_) fun u p _ => h.holder_eq u p
      simp only [OnceNext.pc?, Option.some.injEq] at hp
      subst hp
      exact ⟨by decide, by decide, fun _ => hheld⟩
  case close =>
    obtain ⟨rfl, rfl⟩ := hstep
    obtain ⟨hzero, hflag⟩ := h.at_close t ht
    refine ⟨fun u p hu hp => ?_, by simp [hzero], ?_, fun u hu => ?_⟩
    · rcases update_eq_some hu with ⟨rfl, -⟩ | ⟨-, hn⟩
      · exact h.holder_eq _ .close ht rfl
      · exact h.holder_eq u p hn hp
    · simp only [hzero, Nat.zero_add, true_iff]
      exact .inr ⟨t, by simp [OnceNext.pc?]⟩
    · rcases update_eq_some hu with ⟨-, hn⟩ | ⟨hut, hn⟩
      · simp [OnceNext.pc?] at hn
      · exact absurd (h.unique ht rfl hn rfl) hut
  case store =>
    obtain ⟨rfl, rfl⟩ := hstep
    have hone : o.closes = 1 := h.closes_eq_one.2 (.inr ⟨t, ht⟩)
    refine ⟨fun u p hu hp => ?_, h.closes_le, by simp [hone], fun u hu => ?_⟩
    · rcases update_eq_some hu with ⟨rfl, -⟩ | ⟨-, hn⟩
      · exact h.holder_eq _ .store ht rfl
      · exact h.holder_eq u p hn hp
    · rcases update_eq_some hu with ⟨-, hn⟩ | ⟨hut, hn⟩
      · simp [OnceNext.pc?] at hn
      · exact absurd (h.unique ht rfl hn rfl) hut
  case unlock =>
    obtain ⟨rfl, rfl⟩ := hstep
    exact h.frame ht (by decide) rfl rfl (fun p hp => by simp [OnceNext.pc?] at hp)
      fun u p hut hu hp => absurd (h.unique ht rfl hu hp) hut

end OnceStep

/-! ## Goroutines on one stopper -/

/-- Program points of a goroutine calling `TriggerStop()` or `DoStop(f)`, or of a
goroutine `DoStop` started. -/
inductive Goroutine where
  /-- Inside `TriggerStop`. -/
  | triggerStop (pc : OncePc)
  /-- Inside `DoStop`, up to the end of its closure. -/
  | doStop (pc : OncePc)
  /-- `DoStop` after its closure: `go func() { f(); close(done) }()`. -/
  | spawnF
  /-- `DoStop`'s `select` on `done` and `ctx.Done()`. -/
  | select
  /-- `DoStop`'s deferred `close(s.stoppedChan)`. -/
  | closeStopped
  /-- The goroutine the `DoStop` of goroutine `caller` started, about to call `f`.
  The `close(done)` after it matters only to that `select`, which may return
  without it. -/
  | callF (caller : Nat)
  /-- Returned. -/
  | done
  deriving DecidableEq, Repr

/-- The program point inside `TriggerStop`'s double-checked close. -/
def Goroutine.triggerPc : Goroutine → Option OncePc
  | .triggerStop pc => some pc
  | _ => none

/-- The program point inside `DoStop`'s double-checked close. -/
def Goroutine.stoppingPc : Goroutine → Option OncePc
  | .doStop pc => some pc
  | _ => none

/-- Where a `TriggerStop` goroutine is after a step of its double-checked close:
it returns when it leaves it, either way. -/
def OnceNext.afterTrigger : OnceNext → Goroutine
  | .inside pc => .triggerStop pc
  | .skipped | .released => .done

/-- Where a `DoStop` goroutine is after a step of its double-checked close: it
returns when its first test finds the flag set, and goes on once its closure
returns. -/
def OnceNext.afterDoStop : OnceNext → Goroutine
  | .inside pc => .doStop pc
  | .skipped => .done
  | .released => .spawnF

section Next

variable (next : OnceNext)

@[simp] theorem triggerPc_afterTrigger : next.afterTrigger.triggerPc = next.pc? := by
  cases next <;> rfl

@[simp] theorem stoppingPc_afterTrigger : next.afterTrigger.stoppingPc = none := by
  cases next <;> rfl

@[simp] theorem stoppingPc_afterDoStop : next.afterDoStop.stoppingPc = next.pc? := by
  cases next <;> rfl

@[simp] theorem triggerPc_afterDoStop : next.afterDoStop.triggerPc = none := by
  cases next <;> rfl

end Next

/-- A call made on the stopper. -/
inductive Call where
  | triggerStop
  | doStop
  deriving DecidableEq, Repr

/-- Where a call starts. -/
def Call.start : Call → Goroutine
  | .triggerStop => .triggerStop .start
  | .doStop => .doStop .start

end Stopper

/-- `sync.Stopper`: `stopTriggered`, `_triggerLock` and `stopTrigger` as one
double-checked close, `isStopping`, `_stoppingLock` and `stoppingChan` as the
other, and how many times `stoppedChan` was closed; then, in order, the `DoStop`
goroutines that started a goroutine for `f`, and those whose `f` has been called. -/
structure Stopper where
  trigger : Stopper.Once
  stopping : Stopper.Once
  stoppedCloses : Nat
  fStarted : List Nat
  fCalls : List Nat
  deriving DecidableEq, Repr

namespace Stopper

/-- `NewStopper`: flags clear, channels open. -/
def NewStopper : Stopper := ⟨Once.init, Once.init, 0, [], []⟩

/-- One step of goroutine `t`, with the goroutines it starts; `none` when it is
blocked or has returned. -/
def stepGoroutine (s : Stopper) (t : Nat) : Goroutine → Option (Stopper × Goroutine × List Goroutine)
  | .triggerStop pc => (onceStep s.trigger t pc).map fun (o, next) =>
    ({ s with trigger := o }, next.afterTrigger, [])
  | .doStop pc => (onceStep s.stopping t pc).map fun (o, next) =>
    ({ s with stopping := o }, next.afterDoStop, [])
  | .spawnF => some ({ s with fStarted := s.fStarted ++ [t] }, .select, [.callF t])
  | .select => some (s, .closeStopped, [])
  | .closeStopped => some ({ s with stoppedCloses := s.stoppedCloses + 1 }, .done, [])
  | .callF caller => some ({ s with fCalls := s.fCalls ++ [caller] }, .done, [])
  | .done => none

/-- The stopper and the goroutines using it, by index. -/
structure World where
  stopper : Stopper
  goroutines : List Goroutine

/-- The calls `calls` started on a new stopper. -/
def World.init (calls : List Call) : World := ⟨NewStopper, calls.map Call.start⟩

/-- A step of goroutine `t`; the goroutines it starts take the next indices. -/
def World.step (w : World) (t : Nat) : Option World :=
  match w.goroutines[t]? with
  | some g => (stepGoroutine w.stopper t g).map fun (s, g', started) =>
    ⟨s, w.goroutines.set t g' ++ started⟩
  | none => none

/-- The steps `ts`, in order; `none` if one of them cannot be taken. -/
def World.run (w : World) : List Nat → Option World
  | [] => some w
  | t :: ts => (w.step t).bind (·.run ts)

/-- The states some interleaving of the calls `calls` reaches. -/
inductive Reachable (calls : List Call) : World → Prop
  | init : Reachable calls (World.init calls)
  | step {w w' : World} (t : Nat) : Reachable calls w → w.step t = some w' → Reachable calls w'

theorem Reachable.run {calls : List Call} {w w' : World} (h : Reachable calls w) {ts : List Nat}
    (hrun : w.run ts = some w') : Reachable calls w' := by
  induction ts generalizing w with
  | nil => cases hrun; exact h
  | cons t ts ih =>
    simp only [World.run, Option.bind_eq_some] at hrun
    obtain ⟨w₁, h₁, h₂⟩ := hrun
    exact ih (h.step t h₁) h₂

/-- A step of the world is a step of one goroutine, put back at its index, with
the goroutines it starts after the others. -/
theorem World.step_eq_some {w w' : World} {t : Nat} (hs : w.step t = some w') :
    ∃ g s g' started, w.goroutines[t]? = some g ∧ stepGoroutine w.stopper t g = some (s, g', started) ∧
      w' = ⟨s, w.goroutines.set t g' ++ started⟩ := by
  simp only [World.step] at hs
  split at hs
  · next g hg =>
    obtain ⟨⟨s, g', started⟩, h, rfl⟩ := Option.map_eq_some'.1 hs
    exact ⟨g, s, g', started, hg, h, rfl⟩
  · cases hs

section StepGoroutine

variable {s s' : Stopper} {t : Nat} {pc : OncePc} {g' : Goroutine} {started : List Goroutine}

theorem stepGoroutine_triggerStop (h : stepGoroutine s t (.triggerStop pc) = some (s', g', started)) :
    ∃ o next, onceStep s.trigger t pc = some (o, next) ∧ s' = { s with trigger := o } ∧
      g' = next.afterTrigger ∧ started = [] := by
  simp only [stepGoroutine, Option.map_eq_some', Prod.mk.injEq] at h
  obtain ⟨⟨o, next⟩, hone, rfl, rfl, rfl⟩ := h
  exact ⟨o, next, hone, rfl, rfl, rfl⟩

theorem stepGoroutine_doStop (h : stepGoroutine s t (.doStop pc) = some (s', g', started)) :
    ∃ o next, onceStep s.stopping t pc = some (o, next) ∧ s' = { s with stopping := o } ∧
      g' = next.afterDoStop ∧ started = [] := by
  simp only [stepGoroutine, Option.map_eq_some', Prod.mk.injEq] at h
  obtain ⟨⟨o, next⟩, hone, rfl, rfl, rfl⟩ := h
  exact ⟨o, next, hone, rfl, rfl, rfl⟩

/-- The only goroutine a step starts is the one of `DoStop`'s `go` statement. -/
theorem stepGoroutine_started {g : Goroutine} (h : stepGoroutine s t g = some (s', g', started)) :
    ∀ u ∈ started, u = .callF t := by
  cases g
  case triggerStop pc => obtain ⟨-, -, -, -, -, rfl⟩ := stepGoroutine_triggerStop h; simp
  case doStop pc => obtain ⟨-, -, -, -, -, rfl⟩ := stepGoroutine_doStop h; simp
  all_goals simp only [stepGoroutine, Option.some.injEq, Prod.mk.injEq, reduceCtorEq] at h
  all_goals obtain ⟨-, -, rfl⟩ := h
  all_goals simp

/-- Past both double-checked closes, a step keeps both locks and flags. -/
theorem stepGoroutine_outside {g : Goroutine} (h : stepGoroutine s t g = some (s', g', started))
    (hg : g.triggerPc = none) (hg' : g.stoppingPc = none) :
    s'.trigger = s.trigger ∧ s'.stopping = s.stopping ∧ g'.triggerPc = none ∧ g'.stoppingPc = none := by
  cases g <;> simp only [Goroutine.triggerPc, Goroutine.stoppingPc, stepGoroutine, Option.some.injEq,
      Prod.mk.injEq, reduceCtorEq] at hg hg' h
  all_goals obtain ⟨rfl, rfl, rfl⟩ := h
  all_goals exact ⟨rfl, rfl, rfl, rfl⟩

end StepGoroutine

/-! ## Each channel under a double-checked close is closed at most once -/

/-- The goroutines' program points inside `TriggerStop`'s double-checked close. -/
def World.triggerPcs (w : World) (t : Nat) : Option OncePc := w.goroutines[t]?.bind Goroutine.triggerPc

/-- The goroutines' program points inside `DoStop`'s double-checked close. -/
def World.stoppingPcs (w : World) (t : Nat) : Option OncePc := w.goroutines[t]?.bind Goroutine.stoppingPc

/-- Both double-checked closes keep their invariant. -/
structure World.Inv (w : World) : Prop where
  trigger : OnceInv w.stopper.trigger w.triggerPcs
  stopping : OnceInv w.stopper.stopping w.stoppingPcs

theorem World.Inv.init (calls : List Call) : (World.init calls).Inv := by
  constructor <;> refine OnceInv.init fun t pc ht => ?_
  all_goals
    simp only [World.triggerPcs, World.stoppingPcs, World.init, List.getElem?_map,
      Option.bind_eq_some, Option.map_eq_some'] at ht
    obtain ⟨_, ⟨c, -, rfl⟩, hpc⟩ := ht
    cases c <;> cases hpc
    rfl

/-- Replacing goroutine `t`, and starting goroutines `f` gives no program point,
changes only `t`'s own program point. -/
theorem bind_set_append {l : List Goroutine} {t : Nat} (ht : t < l.length) (g : Goroutine)
    {started : List Goroutine} (f : Goroutine → Option OncePc) (hs : ∀ u ∈ started, f u = none) :
    (fun u => (l.set t g ++ started)[u]?.bind f) = Function.update (fun u => l[u]?.bind f) t (f g) := by
  funext u
  by_cases hu : u < l.length
  · rw [List.getElem?_append_left (by rwa [List.length_set])]
    by_cases hut : u = t
    · subst hut; simp [ht]
    · simp [Function.update_noteq hut, List.getElem?_set, Ne.symm hut]
  · rw [List.getElem?_append_right (by rw [List.length_set]; omega), Function.update_noteq (by omega),
      List.getElem?_eq_none (l := l) (by omega)]
    cases hv : started[u - (l.set t g).length]? with
    | none => rfl
    | some v => exact hs v (List.getElem?_mem hv)

/-- A step moves only the program points of the goroutine that takes it. -/
theorem World.pcs_set_append {w : World} {t : Nat} {g : Goroutine} (hg : w.goroutines[t]? = some g)
    (s : Stopper) (g' : Goroutine) {started : List Goroutine} (hs : ∀ u ∈ started, u = .callF t) :
    World.triggerPcs ⟨s, w.goroutines.set t g' ++ started⟩ = Function.update w.triggerPcs t g'.triggerPc ∧
      World.stoppingPcs ⟨s, w.goroutines.set t g' ++ started⟩ =
        Function.update w.stoppingPcs t g'.stoppingPc := by
  have hlt : t < w.goroutines.length := (List.getElem?_eq_some_iff.1 hg).1
  exact ⟨bind_set_append hlt g' _ fun u hu => by rw [hs u hu]; rfl,
    bind_set_append hlt g' _ fun u hu => by rw [hs u hu]; rfl⟩

/-- **The step lemma of the stopper.** -/
theorem World.Inv.step {w w' : World} (h : w.Inv) {t : Nat} (hs : w.step t = some w') : w'.Inv := by
  obtain ⟨g, s, g', started, hg, hstep, rfl⟩ := World.step_eq_some hs
  obtain ⟨htrig', hstop'⟩ := World.pcs_set_append hg s g' (stepGoroutine_started hstep)
  have htrig : w.triggerPcs t = g.triggerPc := by simp [World.triggerPcs, hg]
  have hstop : w.stoppingPcs t = g.stoppingPc := by simp [World.stoppingPcs, hg]
  suffices OnceInv s.trigger (Function.update w.triggerPcs t g'.triggerPc) ∧
      OnceInv s.stopping (Function.update w.stoppingPcs t g'.stoppingPc) from
    ⟨by rw [htrig']; exact this.1, by rw [hstop']; exact this.2⟩
  have keep : ∀ (pcs : Nat → Option OncePc) (v : Option OncePc), pcs t = v →
      Function.update pcs t v = pcs := fun pcs v hv => by rw [← hv, Function.update_eq_self]
  cases g with
  | triggerStop pc =>
    obtain ⟨o, next, hone, rfl, rfl, rfl⟩ := stepGoroutine_triggerStop hstep
    rw [triggerPc_afterTrigger, stoppingPc_afterTrigger, keep _ none hstop]
    exact ⟨h.trigger.step htrig hone, h.stopping⟩
  | doStop pc =>
    obtain ⟨o, next, hone, rfl, rfl, rfl⟩ := stepGoroutine_doStop hstep
    rw [triggerPc_afterDoStop, stoppingPc_afterDoStop, keep _ none htrig]
    exact ⟨h.trigger, h.stopping.step hstop hone⟩
  | spawnF | select | closeStopped | callF _ | done =>
    obtain ⟨htr, hst, hg't, hg's⟩ := stepGoroutine_outside hstep rfl rfl
    rw [hg't, hg's, keep _ none htrig, keep _ none hstop]
    exact ⟨htr ▸ h.trigger, hst ▸ h.stopping⟩

/-- Every state an interleaving reaches keeps `World.Inv`. -/
theorem Reachable.inv {calls : List Call} {w : World} (h : Reachable calls w) : w.Inv := by
  induction h with
  | init => exact World.Inv.init calls
  | step t _ hs ih => exact ih.step hs

/-- **`stopTrigger` and `stoppingChan` are each closed at most once**, in every
state any interleaving of any number of `TriggerStop` and `DoStop` calls reaches. -/
theorem closes_le_one {calls : List Call} {w : World} (h : Reachable calls w) :
    w.stopper.trigger.closes ≤ 1 ∧ w.stopper.stopping.closes ≤ 1 :=
  ⟨h.inv.trigger.closes_le, h.inv.stopping.closes_le⟩

/-- Two `DoStop` calls on a new stopper: both pass the first test; the first
runs its closure through and starts `f`'s goroutine (goroutine 2), then the
second finds the flag set under the lock and starts one too (goroutine 3); both
call `f`; then each `DoStop` returns from its `select` and closes `stoppedChan`. -/
def twoDoStops : List Nat := [0, 1, 0, 0, 0, 0, 0, 0, 1, 1, 1, 1, 2, 3, 0, 0, 1, 1]

theorem run_twoDoStops : ((World.init [.doStop, .doStop]).run twoDoStops).map
    (fun w => (w.stopper.stoppedCloses, w.stopper.fCalls)) = some (2, [0, 1]) := by decide

theorem closes_le_one_twoDoStops : ∃ w, Reachable [.doStop, .doStop] w ∧ w.stopper.stoppedCloses = 2 ∧
    w.stopper.trigger.closes ≤ 1 ∧ w.stopper.stopping.closes ≤ 1 := by
  obtain ⟨w, hw, hval⟩ := Option.map_eq_some'.1 run_twoDoStops
  simp only [Prod.mk.injEq] at hval
  exact ⟨w, Reachable.init.run hw, hval.1, closes_le_one (Reachable.init.run hw)⟩

/-- **Two `DoStop` calls both call their `f` and both close `stoppedChan`.** Both
pass the first test of `isStopping` before either takes `_stoppingLock`; the
first closes `stoppingChan`, sets the flag and leaves the closure; the second
finds the flag set under the lock, but its `return` leaves only the closure. -/
theorem DoStop_twice : ∃ w, Reachable [.doStop, .doStop] w ∧
    w.stopper.stoppedCloses = 2 ∧ w.stopper.fCalls = [0, 1] := by
  obtain ⟨w, hw, hval⟩ := Option.map_eq_some'.1 run_twoDoStops
  simp only [Prod.mk.injEq] at hval
  exact ⟨w, Reachable.init.run hw, hval⟩

end Stopper

end VulcanPkgTool
