import VulcanPkgTool.Stopper

/-!
The lifecycle of one `Stopper` under every interleaving of `TriggerStop` and
`DoStop` calls, in the model of `VulcanPkgTool.Stopper`.

`Stopper.lean` shows that each guarded channel is closed at most once. This file
adds what a caller of `StopTriggered`, `Stopping` and `WaitStopped` relies on.

- `f`'s goroutine is started, and `stoppedChan` closed, only after `isStopping` is
  set and `stoppingChan` closed; `stoppedChan` is closed, and `f` called, no more
  often than `f`'s goroutine is started (`stopped_after_stopping`).
- No interleaving deadlocks: a state where no goroutine can step is one where
  every goroutine has returned (`stuck_all_returned`). A goroutine blocked on
  `Lock` waits for the holder, which is past `Lock` and never blocks.
- Once every call has returned, `stopTrigger` is closed if `TriggerStop` was
  called, and if `DoStop` was called, `stoppingChan` and `stoppedChan` are both
  closed, so `WaitStopped` returns (`returned_closes`); `f` may still be running
  or not yet called, since the `select` may have ended on the timeout.

`OnceExit` is what the double-checked close guarantees the code around it, stated
and proved once for both closes. `World.Lifecycle` adds `DoStop`'s tail: the start
of `f`'s goroutine, the `select`, the close of `stoppedChan`, and the call of `f`.
-/

set_option autoImplicit false

namespace VulcanPkgTool

namespace Stopper

/-! ## What the double-checked close guarantees around it -/

/-- **What a double-checked close guarantees the code around it**, given the
goroutines `mine` that make this call. The holder of the mutex is past `Lock`; a
goroutine at the deferred `Unlock` finds the flag set; and while the flag is clear,
every goroutine of `mine` is still inside. -/
structure OnceExit (mine : Nat → Prop) (o : Once) (pcs : Nat → Option OncePc) : Prop where
  holder_inside : ∀ u, o.holder = some u → ∃ pc, pcs u = some pc ∧ pc.locked
  at_unlock : ∀ u, pcs u = some .unlock → o.flag = true
  inside : o.flag = false → ∀ u, mine u → pcs u ≠ none

/-- Before any step: nobody holds the mutex, and every goroutine of `mine` is at
its first test. -/
theorem OnceExit.init {mine : Nat → Prop} {pcs : Nat → Option OncePc}
    (hstart : ∀ t pc, pcs t = some pc → pc = .start) (hmine : ∀ u, mine u → pcs u ≠ none) :
    OnceExit mine Once.init pcs :=
  ⟨fun _ h => Option.noConfusion h, fun u hu => (by cases hstart u _ hu), fun _ => hmine⟩

section OnceExitStep

variable {mine : Nat → Prop} {o o' : Once} {pcs : Nat → Option OncePc} {t : Nat} {pc : OncePc}
  {next : OnceNext}

/-- The flag is never cleared. -/
theorem onceStep_flag (hstep : onceStep o t pc = some (o', next)) (hf : o.flag = true) :
    o'.flag = true := by
  cases pc <;>
    simp only [onceStep, Option.ite_none_right_eq_some, Option.some.injEq, Prod.mk.injEq] at hstep
  all_goals first | obtain ⟨rfl, -⟩ := hstep | obtain ⟨-, rfl, -⟩ := hstep
  all_goals first | exact hf | rfl

/-- Only the deferred `Unlock` releases the goroutine, and it leaves the flag as it is. -/
theorem onceStep_released (hstep : onceStep o t pc = some (o', .released)) :
    pc = .unlock ∧ o'.flag = o.flag := by
  cases pc <;> cases hf : o.flag <;> simp [onceStep, hf] at hstep ⊢ <;> rw [← hstep]

/-- Only `flag.Store(true)` sets the flag, and the goroutine goes on to `Unlock`. -/
theorem onceStep_sets (hstep : onceStep o t pc = some (o', next)) (hf : o.flag = false)
    (hf' : o'.flag = true) : pc = .store ∧ next = .inside .unlock := by
  cases pc <;> simp only [onceStep, Option.ite_none_right_eq_some, Option.some.injEq,
    Prod.mk.injEq] at hstep
  all_goals first
    | (obtain ⟨rfl, rfl⟩ := hstep; exact ⟨rfl, rfl⟩)
    | (obtain ⟨rfl, -⟩ := hstep; rw [hf] at hf'; cases hf')
    | (obtain ⟨-, rfl, -⟩ := hstep; rw [hf] at hf'; cases hf')

/-- A step of `t` that hands the mutex only to `t` at a locked point, keeps a set
flag, sets it before `t` reaches `Unlock`, and lets `t` leave only with the flag
set, keeps `OnceExit`. -/
theorem OnceExit.update (h : OnceExit mine o pcs)
    (hholder : ∀ u, o'.holder = some u →
      (u = t ∧ ∃ p, next.pc? = some p ∧ p.locked) ∨ (u ≠ t ∧ o.holder = some u))
    (hflag : o.flag = true → o'.flag = true) (hunlock : next.pc? = some .unlock → o'.flag = true)
    (hleave : next.pc? = none → o'.flag = true) :
    OnceExit mine o' (Function.update pcs t next.pc?) := by
  refine ⟨fun u hu => ?_, fun u hu => ?_, fun hf u hu => ?_⟩
  · rcases hholder u hu with ⟨rfl, p, hp, hl⟩ | ⟨hut, hu⟩
    · exact ⟨p, by rw [Function.update_same, hp], hl⟩
    · rw [Function.update_noteq hut]
      exact h.holder_inside u hu
  · rcases update_eq_some hu with ⟨-, hn⟩ | ⟨-, hn⟩
    · exact hunlock hn
    · exact hflag (h.at_unlock u hn)
  · have hf₀ : o.flag = false := by
      cases hf₀ : o.flag
      · rfl
      · rw [hflag hf₀] at hf; cases hf
    by_cases hut : u = t
    · subst hut
      rw [Function.update_same]
      intro hn
      rw [hleave hn] at hf
      cases hf
    · rw [Function.update_noteq hut]
      exact h.inside hf₀ u hu

/-- **The step lemma of `OnceExit`.** -/
theorem OnceExit.step (h : OnceExit mine o pcs) (ht : pcs t = some pc)
    (hstep : onceStep o t pc = some (o', next)) :
    OnceExit mine o' (Function.update pcs t next.pc?) := by
  have hflag := fun hf => onceStep_flag hstep hf
  -- whoever holds the mutex and is not `t` keeps it; `t` holding it goes to `p`
  have keep : ∀ p : OncePc, p.locked → next = .inside p → ∀ u, o.holder = some u →
      (u = t ∧ ∃ p, next.pc? = some p ∧ p.locked) ∨ (u ≠ t ∧ o.holder = some u) :=
    fun p hp hn u hu => if hut : u = t then .inl ⟨hut, p, by rw [hn]; rfl, hp⟩ else .inr ⟨hut, hu⟩
  cases pc <;>
    simp only [onceStep, Option.ite_none_right_eq_some, Option.some.injEq, Prod.mk.injEq] at hstep
  case start =>
    obtain ⟨rfl, rfl⟩ := hstep
    have hother : ∀ u, o.holder = some u → u ≠ t := fun u hu hut => by
      obtain ⟨p, hp, hl⟩ := h.holder_inside u hu
      rw [hut, ht, Option.some.injEq] at hp
      rw [← hp] at hl
      cases hl
    cases hf : o.flag <;> simp only [Bool.false_eq_true, ↓reduceIte] <;>
      refine h.update (fun u hu => .inr ⟨hother u hu, hu⟩) id (fun hn => by cases hn) ?_
    · exact fun hn => by cases hn
    · exact fun _ => hf
  case lock =>
    obtain ⟨-, rfl, rfl⟩ := hstep
    exact h.update (fun u hu => .inl ⟨(Option.some.inj hu).symm, .check, rfl, rfl⟩) hflag
      (fun hn => by cases hn) fun hn => by cases hn
  case check =>
    obtain ⟨rfl, rfl⟩ := hstep
    cases hf : o.flag <;> simp only [hf, Bool.false_eq_true, ↓reduceIte] at keep ⊢
    · exact h.update (keep .close rfl rfl) id (fun hn => by cases hn) fun hn => by cases hn
    · exact h.update (keep .unlock rfl rfl) id (fun _ => hf) fun hn => by cases hn
  case close =>
    obtain ⟨rfl, rfl⟩ := hstep
    exact h.update (keep .store rfl rfl) hflag (fun hn => by cases hn) fun hn => by cases hn
  case store =>
    obtain ⟨rfl, rfl⟩ := hstep
    exact h.update (keep .unlock rfl rfl) (fun _ => rfl) (fun _ => rfl) fun _ => rfl
  case unlock =>
    obtain ⟨rfl, rfl⟩ := hstep
    exact h.update (fun u hu => Option.noConfusion hu) hflag (fun hn => by cases hn)
      fun _ => h.at_unlock t ht

/-- A goroutine past `Lock` never blocks. -/
theorem onceStep_isSome_of_locked (hpc : pc.locked) : (onceStep o t pc).isSome := by
  cases pc <;> first | rfl | cases hpc

end OnceExitStep

/-! ## `DoStop` past its closure -/

/-- Past `DoStop`'s closure: about to start `f`'s goroutine, in the `select`, or
about to close `stoppedChan`. -/
def Goroutine.afterClosure : Goroutine → Bool
  | .spawnF | .select | .closeStopped => true
  | _ => false

/-- Past the start of `f`'s goroutine, and yet to close `stoppedChan`. -/
def Goroutine.waiting : Goroutine → Bool
  | .select | .closeStopped => true
  | _ => false

/-- A goroutine `DoStop` started, yet to call `f`. -/
def Goroutine.isCallF : Goroutine → Bool
  | .callF _ => true
  | _ => false

/-- Bound to close `stoppedChan` with no further test: at the closure's deferred
`Unlock`, or past the closure. -/
def Goroutine.pendingStopped : Goroutine → Bool
  | .doStop .unlock | .spawnF | .select | .closeStopped => true
  | _ => false

/-- What a goroutine `DoStop` started can be: about to call `f`, or returned. -/
def Goroutine.ofF : Goroutine → Bool
  | .callF _ | .done => true
  | _ => false

section Next

variable (next : OnceNext)

@[simp] theorem afterClosure_afterTrigger : next.afterTrigger.afterClosure = false := by
  cases next <;> rfl

@[simp] theorem waiting_afterTrigger : next.afterTrigger.waiting = false := by
  cases next <;> rfl

@[simp] theorem isCallF_afterTrigger : next.afterTrigger.isCallF = false := by
  cases next <;> rfl

@[simp] theorem pendingStopped_afterTrigger : next.afterTrigger.pendingStopped = false := by
  cases next <;> rfl

@[simp] theorem waiting_afterDoStop : next.afterDoStop.waiting = false := by
  cases next <;> rfl

@[simp] theorem isCallF_afterDoStop : next.afterDoStop.isCallF = false := by
  cases next <;> rfl

theorem eq_released_of_afterClosure (h : next.afterDoStop.afterClosure = true) :
    next = .released := by
  cases next <;> first | rfl | cases h

end Next

/-- A goroutine `DoStop` started only returns. -/
theorem ofF_stepGoroutine {s s' : Stopper} {t : Nat} {g g' : Goroutine} {started : List Goroutine}
    (h : stepGoroutine s t g = some (s', g', started)) (hg : g.ofF = true) : g' = .done := by
  cases g with
  | callF c =>
    simp only [stepGoroutine, Option.some.injEq, Prod.mk.injEq] at h
    exact h.2.1.symm
  | done => simp [stepGoroutine] at h
  | _ => cases hg

/-- **The lifecycle invariant.** The goroutines past the calls' own are the ones
`DoStop` started. Each double-checked close keeps `OnceExit` for the goroutines
making its call. `f`'s goroutine is started, or about to be, only once
`isStopping` is set. Each start of `f`'s goroutine is followed by a close of
`stoppedChan`, and by a call of `f`, each made or still to be made. Once
`isStopping` is set, `stoppedChan` has been closed or some goroutine will close it. -/
structure World.Lifecycle (calls : List Call) (w : World) : Prop where
  length_goroutines : calls.length ≤ w.goroutines.length
  spawned : ∀ u g, calls.length ≤ u → w.goroutines[u]? = some g → g.ofF = true
  trigger : OnceExit (fun t => calls[t]? = some .triggerStop) w.stopper.trigger w.triggerPcs
  stopping : OnceExit (fun t => calls[t]? = some .doStop) w.stopper.stopping w.stoppingPcs
  after_stopping : 0 < w.stopper.fStarted.length + w.goroutines.countP Goroutine.afterClosure →
    w.stopper.stopping.flag = true
  length_fStarted : w.stopper.fStarted.length =
    w.stopper.stoppedCloses + w.goroutines.countP Goroutine.waiting
  length_fCalls : w.stopper.fStarted.length =
    w.stopper.fCalls.length + w.goroutines.countP Goroutine.isCallF
  pending : w.stopper.stopping.flag = true →
    0 < w.stopper.stoppedCloses + w.goroutines.countP Goroutine.pendingStopped

theorem World.Lifecycle.init (calls : List Call) : (World.init calls).Lifecycle calls := by
  have hzero : ∀ p : Goroutine → Bool, p (.triggerStop .start) = false →
      p (.doStop .start) = false → (calls.map Call.start).countP p = 0 := fun p h₁ h₂ =>
    List.countP_eq_zero.2 fun g hg => by
      obtain ⟨c, -, rfl⟩ := List.mem_map.1 hg
      cases c <;> simp [Call.start, h₁, h₂]
  have hpcs : ∀ (f : Goroutine → Option OncePc) u, ((calls.map Call.start)[u]?).bind f =
      (calls[u]?).bind (fun c : Call => f c.start) := fun f u => by
    rw [List.getElem?_map]; cases calls[u]? <;> rfl
  refine ⟨by simp [World.init], fun u g hu hg => ?_, OnceExit.init ?_ ?_, OnceExit.init ?_ ?_, ?_, ?_,
    ?_, fun hf => by cases hf⟩
  · rw [World.init, List.getElem?_eq_none (by simpa using hu)] at hg
    cases hg
  all_goals simp only [World.triggerPcs, World.stoppingPcs, World.init, hpcs]
  · intro t pc ht
    obtain ⟨c, -, hc⟩ := Option.bind_eq_some.1 ht
    cases c <;> cases hc
    rfl
  · intro u hu; simp [hu, Call.start, Goroutine.triggerPc]
  · intro t pc ht
    obtain ⟨c, -, hc⟩ := Option.bind_eq_some.1 ht
    cases c <;> cases hc
    rfl
  · intro u hu; simp [hu, Call.start, Goroutine.stoppingPc]
  · rw [hzero _ rfl rfl]
    exact fun h => absurd h (by decide)
  all_goals rw [hzero _ rfl rfl]; rfl

/-- Replacing the goroutine at `t` and starting `started`, counted. -/
theorem countP_set_append {l : List Goroutine} {t : Nat} {g : Goroutine} (hg : l[t]? = some g)
    (g' : Goroutine) (started : List Goroutine) (p : Goroutine → Bool) :
    (l.set t g' ++ started).countP p + (if p g then 1 else 0) =
      l.countP p + (if p g' then 1 else 0) + started.countP p := by
  obtain ⟨hlt, rfl⟩ := List.getElem?_eq_some_iff.1 hg
  have := List.boole_getElem_le_countP p l t hlt
  rw [List.countP_append, List.countP_set p l t g' hlt]
  omega

/-- The goroutines past the calls' own stay ones `DoStop` started. -/
theorem spawned_set_append {n t : Nat} {l : List Goroutine} {g g' : Goroutine} {started : List Goroutine}
    (hl : ∀ u g, n ≤ u → l[u]? = some g → g.ofF = true) (hg : l[t]? = some g)
    (hg' : g.ofF = true → g'.ofF = true) (hs : ∀ u ∈ started, u.ofF = true) :
    ∀ u g'', n ≤ u → (l.set t g' ++ started)[u]? = some g'' → g''.ofF = true := by
  intro u g'' hu hget
  by_cases hlu : u < l.length
  · rw [List.getElem?_append_left (by rwa [List.length_set]), List.getElem?_set] at hget
    split at hget
    · next hut =>
      subst hut
      rw [if_pos hlu, Option.some.injEq] at hget
      exact hget ▸ hg' (hl _ g hu hg)
    · exact hl u g'' hu hget
  · rw [List.getElem?_append_right (by rw [List.length_set]; omega)] at hget
    exact hs g'' (List.getElem?_mem hget)

/-- **The step lemma of the lifecycle invariant.** -/
theorem World.Lifecycle.step {calls : List Call} {w w' : World} (h : w.Lifecycle calls) {t : Nat}
    (hs : w.step t = some w') : w'.Lifecycle calls := by
  obtain ⟨g, s, g', started, hg, hstep, rfl⟩ := World.step_eq_some hs
  obtain ⟨htrig', hstop'⟩ := World.pcs_set_append hg s g' (stepGoroutine_started hstep)
  have htrig : w.triggerPcs t = g.triggerPc := by simp [World.triggerPcs, hg]
  have hstop : w.stoppingPcs t = g.stoppingPc := by simp [World.stoppingPcs, hg]
  have keep : ∀ (pcs : Nat → Option OncePc) (v : Option OncePc), pcs t = v →
      Function.update pcs t v = pcs := fun pcs v hv => by rw [← hv, Function.update_eq_self]
  have hlen : calls.length ≤ (w.goroutines.set t g' ++ started).length := by
    have := h.length_goroutines
    simp only [List.length_append, List.length_set]
    omega
  have hspawned := spawned_set_append h.spawned hg
    (show g.ofF = true → g'.ofF = true from fun hf => by rw [ofF_stepGoroutine hstep hf]; rfl)
    fun u hu => by rw [stepGoroutine_started hstep u hu]; rfl
  have hA := countP_set_append hg g' started Goroutine.afterClosure
  have hW := countP_set_append hg g' started Goroutine.waiting
  have hF := countP_set_append hg g' started Goroutine.isCallF
  have hP := countP_set_append hg g' started Goroutine.pendingStopped
  have hinA := List.boole_getElem_le_countP Goroutine.afterClosure w.goroutines t
    (List.getElem?_eq_some_iff.1 hg).1
  rw [(List.getElem?_eq_some_iff.1 hg).2] at hinA
  have hL := h.length_fStarted
  have hC := h.length_fCalls
  have hafter := h.after_stopping
  have hpend := h.pending
  cases g with
  | triggerStop pc =>
    obtain ⟨o, next, hone, rfl, rfl, rfl⟩ := stepGoroutine_triggerStop hstep
    simp only [afterClosure_afterTrigger, waiting_afterTrigger, isCallF_afterTrigger,
      pendingStopped_afterTrigger, Bool.false_eq_true, ↓reduceIte, add_zero, List.countP_nil] at hA hW hF hP
    simp only [Goroutine.afterClosure, Goroutine.waiting, Goroutine.isCallF, Goroutine.pendingStopped,
      Bool.false_eq_true, ↓reduceIte, add_zero] at hA hW hF hP
    refine ⟨hlen, hspawned, ?_, ?_, by simpa only [hA] using hafter, by simpa only [hW] using hL,
      by simpa only [hF] using hC, by simpa only [hP] using hpend⟩
    · rw [htrig', triggerPc_afterTrigger]; exact h.trigger.step htrig hone
    · rw [hstop', stoppingPc_afterTrigger, keep _ none hstop]; exact h.stopping
  | doStop pc =>
    obtain ⟨o, next, hone, rfl, rfl, rfl⟩ := stepGoroutine_doStop hstep
    have hflag := fun hf => onceStep_flag hone hf
    have hgA : (Goroutine.doStop pc).afterClosure = false := rfl
    simp only [waiting_afterDoStop, isCallF_afterDoStop, hgA, Bool.false_eq_true, ↓reduceIte,
      add_zero, List.countP_nil] at hA hW hF hP
    simp only [Goroutine.waiting, Goroutine.isCallF, Bool.false_eq_true, ↓reduceIte, add_zero] at hW hF
    refine ⟨hlen, hspawned, ?_, ?_, fun hpos => ?_, by simpa only [hW] using hL,
      by simpa only [hF] using hC, fun hf => ?_⟩
    · rw [htrig', triggerPc_afterDoStop, keep _ none htrig]; exact h.trigger
    · rw [hstop', stoppingPc_afterDoStop]; exact h.stopping.step hstop hone
    · -- `t` is past the closure only if it left it through the unlock, with the flag set
      cases hgA : next.afterDoStop.afterClosure
      · simp only [hgA, Bool.false_eq_true, ↓reduceIte, add_zero] at hA
        exact hflag (hafter (by simp only at hpos; omega))
      · obtain ⟨rfl, hsame⟩ := onceStep_released (eq_released_of_afterClosure next hgA ▸ hone)
        simp only at hsame ⊢
        rw [hsame]
        exact h.stopping.at_unlock t hstop
    · simp only at hf ⊢
      cases hf₀ : w.stopper.stopping.flag
      · -- the flag is set by `t`'s store, which leaves `t` at the unlock
        obtain ⟨rfl, rfl⟩ := onceStep_sets hone hf₀ hf
        simp only [OnceNext.afterDoStop] at hP ⊢
        simp only [Goroutine.pendingStopped, ↓reduceIte, Bool.false_eq_true, add_zero] at hP
        omega
      · -- a pending `t` stays pending
        have := hpend hf₀
        by_cases hu : pc = .unlock
        · subst hu
          simp only [onceStep, Option.some.injEq, Prod.mk.injEq] at hone
          obtain ⟨-, rfl⟩ := hone
          simp only [OnceNext.afterDoStop] at hP ⊢
          simp only [Goroutine.pendingStopped, ↓reduceIte] at hP
          omega
        · have hg : (Goroutine.doStop pc).pendingStopped = false := by
            cases pc <;> first | rfl | exact absurd rfl hu
          simp only [hg, Bool.false_eq_true, ↓reduceIte, add_zero] at hP
          split at hP <;> omega
  | spawnF | select | closeStopped | callF _ =>
    simp only [stepGoroutine, Option.some.injEq, Prod.mk.injEq] at hstep
    obtain ⟨rfl, rfl, rfl⟩ := hstep
    simp only [Goroutine.triggerPc, Goroutine.stoppingPc] at htrig' hstop'
    simp only [Goroutine.afterClosure, Goroutine.waiting, Goroutine.isCallF, Goroutine.pendingStopped,
      List.countP_cons, List.countP_nil, Bool.false_eq_true, ↓reduceIte] at hA hW hF hP hinA
    refine ⟨hlen, hspawned, by rw [htrig', keep _ none htrig]; exact h.trigger,
      by rw [hstop', keep _ none hstop]; exact h.stopping,
      fun hpos => hafter (by simp only [List.length_append, List.length_singleton] at hpos; omega),
      by simp only [List.length_append, List.length_singleton]; omega,
      by simp only [List.length_append, List.length_singleton]; omega,
      fun hf => by have := hpend hf; simp only; omega⟩
  | done => simp [stepGoroutine] at hstep

/-- Every state an interleaving reaches keeps `World.Lifecycle`. -/
theorem Reachable.lifecycle {calls : List Call} {w : World} (h : Reachable calls w) :
    w.Lifecycle calls := by
  induction h with
  | init => exact World.Lifecycle.init calls
  | step t _ hs ih => exact ih.step hs

/-- **`stoppedChan` is closed only after `stoppingChan`.** In every state any
interleaving of `TriggerStop` and `DoStop` calls reaches, `stoppedChan` has been
closed no more often than `DoStop` has started `f`'s goroutine, and `f` has been
called no more often either; once `f`'s goroutine has been started, `isStopping`
is set and `stoppingChan` closed. So a `WaitStopped` that returns finds
`IsStopping()` true, `Stopping()` closed, and `f` started on its goroutine. -/
theorem stopped_after_stopping {calls : List Call} {w : World} (h : Reachable calls w) :
    w.stopper.stoppedCloses ≤ w.stopper.fStarted.length ∧
      w.stopper.fCalls.length ≤ w.stopper.fStarted.length ∧
      (w.stopper.fStarted ≠ [] → w.stopper.stopping.flag = true ∧ w.stopper.stopping.closes = 1) := by
  have hl := h.lifecycle
  refine ⟨by have := hl.length_fStarted; omega, by have := hl.length_fCalls; omega, fun hf => ?_⟩
  have hset : w.stopper.stopping.flag = true :=
    hl.after_stopping (by have := List.length_pos.2 hf; omega)
  exact ⟨hset, h.inv.stopping.closes_eq_one.2 (.inl hset)⟩

/-- One `DoStop` call run to its return, its `select` ending on the timeout before
`f`'s goroutine has called `f`. -/
def doStopTimeout : List Nat := List.replicate 9 0

theorem stopped_after_stopping_doStopTimeout : ∃ w, Reachable [.doStop] w ∧
    w.stopper.stoppedCloses = 1 ∧ w.stopper.fStarted = [0] ∧ w.stopper.fCalls = [] ∧
    (w.stopper.stoppedCloses ≤ w.stopper.fStarted.length ∧
      w.stopper.fCalls.length ≤ w.stopper.fStarted.length ∧
      (w.stopper.fStarted ≠ [] → w.stopper.stopping.flag = true ∧ w.stopper.stopping.closes = 1)) := by
  have hrun : ((World.init [.doStop]).run doStopTimeout).map
      (fun w => (w.stopper.stoppedCloses, w.stopper.fStarted, w.stopper.fCalls)) = some (1, [0], []) := by
    decide
  obtain ⟨w, hw, hval⟩ := Option.map_eq_some'.1 hrun
  simp only [Prod.mk.injEq] at hval
  exact ⟨w, Reachable.init.run hw, hval.1, hval.2.1, hval.2.2, stopped_after_stopping (Reachable.init.run hw)⟩

/-! ## No interleaving deadlocks -/

/-- While a goroutine is inside a double-checked close, one inside can step: the
goroutine itself, or the holder of the mutex it waits for. -/
theorem OnceExit.progress {mine : Nat → Prop} {o : Once} {pcs : Nat → Option OncePc}
    (h : OnceExit mine o pcs) {t : Nat} {pc : OncePc} (ht : pcs t = some pc) :
    ∃ u p, pcs u = some p ∧ (onceStep o u p).isSome := by
  cases hstep : (onceStep o t pc).isSome
  · -- only `Lock` blocks, on a mutex someone holds
    have hlock : pc = .lock ∧ o.holder ≠ none := by
      cases pc <;> simp only [onceStep] at hstep <;> first | cases hstep | skip
      split at hstep
      · cases hstep
      · exact ⟨rfl, ‹_›⟩
    obtain ⟨u, hu⟩ := Option.ne_none_iff_exists'.1 hlock.2
    obtain ⟨p, hp, hl⟩ := h.holder_inside u hu
    exact ⟨u, p, hp, onceStep_isSome_of_locked hl⟩
  · exact ⟨t, pc, ht, hstep⟩

/-- A goroutine inside `TriggerStop`'s double-checked close. -/
theorem World.triggerPcs_eq_some {w : World} {t : Nat} {pc : OncePc}
    (h : w.triggerPcs t = some pc) : w.goroutines[t]? = some (.triggerStop pc) := by
  obtain ⟨g, hg, hpc⟩ := Option.bind_eq_some.1 h
  cases g <;> cases hpc
  exact hg

/-- A goroutine inside `DoStop`'s double-checked close. -/
theorem World.stoppingPcs_eq_some {w : World} {t : Nat} {pc : OncePc}
    (h : w.stoppingPcs t = some pc) : w.goroutines[t]? = some (.doStop pc) := by
  obtain ⟨g, hg, hpc⟩ := Option.bind_eq_some.1 h
  cases g <;> cases hpc
  exact hg

/-- **No interleaving deadlocks.** In every state an interleaving reaches, if no
goroutine can take a step, every goroutine has returned. -/
theorem stuck_all_returned {calls : List Call} {w : World} (h : Reachable calls w)
    (hstuck : ∀ t, w.step t = none) : ∀ g ∈ w.goroutines, g = .done := by
  have hl := h.lifecycle
  have blocked : ∀ t g, w.goroutines[t]? = some g → stepGoroutine w.stopper t g = none :=
    fun t g hg => by
      have := hstuck t
      simp only [World.step, hg] at this
      exact Option.map_eq_none'.1 this
  intro g hg
  obtain ⟨t, ht⟩ := List.mem_iff_getElem?.1 hg
  cases g with
  | done => rfl
  | triggerStop pc =>
    have hpc : w.triggerPcs t = some pc := by simp [World.triggerPcs, ht, Goroutine.triggerPc]
    obtain ⟨u, p, hp, hsome⟩ := hl.trigger.progress hpc
    have := blocked u _ (World.triggerPcs_eq_some hp)
    rw [stepGoroutine, Option.map_eq_none'] at this
    rw [this] at hsome
    cases hsome
  | doStop pc =>
    have hpc : w.stoppingPcs t = some pc := by simp [World.stoppingPcs, ht, Goroutine.stoppingPc]
    obtain ⟨u, p, hp, hsome⟩ := hl.stopping.progress hpc
    have := blocked u _ (World.stoppingPcs_eq_some hp)
    rw [stepGoroutine, Option.map_eq_none'] at this
    rw [this] at hsome
    cases hsome
  | spawnF | select | closeStopped | callF _ => cases blocked t _ ht

/-- `TriggerStop` run to its end, then `DoStop`, whose `select` ends on the
timeout before `f`'s goroutine (goroutine 2) has called `f`. -/
def triggerThenStop : List Nat := List.replicate 6 0 ++ List.replicate 9 1

theorem run_triggerThenStop :
    ((World.init [.triggerStop, .doStop]).run triggerThenStop).map
      (fun w => (w.goroutines, w.stopper.fCalls)) = some ([.done, .done, .callF 1], []) := by decide

theorem run_triggerThenStop_f :
    ((World.init [.triggerStop, .doStop]).run (triggerThenStop ++ [2])).map World.goroutines =
      some [.done, .done, .done] := by decide

theorem stuck_all_returned_triggerThenStop : ∃ w, Reachable [.triggerStop, .doStop] w ∧
    (∀ t, w.step t = none) ∧ ∀ g ∈ w.goroutines, g = .done := by
  obtain ⟨w, hw, hval⟩ := Option.map_eq_some'.1 run_triggerThenStop_f
  have hstuck : ∀ t, w.step t = none := fun t => by
    simp only [World.step, hval]
    match t with
    | 0 | 1 | 2 => rfl
    | _ + 3 => rfl
  exact ⟨w, Reachable.init.run hw, hstuck, stuck_all_returned (Reachable.init.run hw) hstuck⟩

/-! ## When every call has returned -/

/-- **Once every call has returned**, `stopTrigger` is closed if `TriggerStop` was
called; and if `DoStop` was called, `isStopping` is set, `stoppingChan` is closed,
and `stoppedChan` has been closed once per start of `f`'s goroutine, at least
once, so `WaitStopped` returns. -/
theorem returned_closes {calls : List Call} {w : World} (h : Reachable calls w)
    (hdone : ∀ t < calls.length, w.goroutines[t]? = some .done) :
    (Call.triggerStop ∈ calls →
      w.stopper.trigger.flag = true ∧ w.stopper.trigger.closes = 1) ∧
    (Call.doStop ∈ calls →
      w.stopper.stopping.flag = true ∧ w.stopper.stopping.closes = 1 ∧
        0 < w.stopper.stoppedCloses ∧ w.stopper.stoppedCloses = w.stopper.fStarted.length) := by
  have hl := h.lifecycle
  have hinv := h.inv
  -- every goroutine is one that has returned or one `DoStop` started
  have hofF : ∀ g ∈ w.goroutines, g.ofF = true := fun g hg => by
    obtain ⟨t, ht⟩ := List.mem_iff_getElem?.1 hg
    by_cases htc : t < calls.length
    · rw [hdone t htc, Option.some.injEq] at ht
      rw [← ht]; rfl
    · exact hl.spawned t g (by omega) ht
  have hnone : ∀ t, w.triggerPcs t = none ∧ w.stoppingPcs t = none := fun t => by
    simp only [World.triggerPcs, World.stoppingPcs]
    cases hg : w.goroutines[t]? with
    | none => exact ⟨rfl, rfl⟩
    | some g =>
      have := hofF g (List.getElem?_mem hg)
      cases g <;> first | exact ⟨rfl, rfl⟩ | cases this
  -- a flag still clear would keep the goroutines of its call inside
  have hset : ∀ (c : Call) (o : Once) (pcs : Nat → Option OncePc),
      OnceExit (fun t => calls[t]? = some c) o pcs → (∀ t, pcs t = none) → c ∈ calls →
        o.flag = true := fun c o pcs hexit hpcs hc => by
    obtain ⟨t, ht⟩ := List.mem_iff_getElem?.1 hc
    cases hf : o.flag
    · exact absurd (hpcs t) (hexit.inside hf t ht)
    · rfl
  have hzero : ∀ p : Goroutine → Bool, (∀ c, p (.callF c) = false) → p .done = false →
      w.goroutines.countP p = 0 := fun p hc hd => List.countP_eq_zero.2 fun g hg => by
    have := hofF g hg
    cases g with
    | callF c => simp [hc]
    | done => simp [hd]
    | _ => cases this
  refine ⟨fun hc => ?_, fun hc => ?_⟩
  · have hf := hset _ _ _ hl.trigger (fun t => (hnone t).1) hc
    exact ⟨hf, hinv.trigger.closes_eq_one.2 (.inl hf)⟩
  · have hf := hset _ _ _ hl.stopping (fun t => (hnone t).2) hc
    have hpend := hl.pending hf
    have hL := hl.length_fStarted
    rw [hzero _ (fun _ => rfl) rfl] at hpend hL
    exact ⟨hf, hinv.stopping.closes_eq_one.2 (.inl hf), hpend, by omega⟩

theorem returned_closes_triggerThenStop : ∃ w, Reachable [.triggerStop, .doStop] w ∧
    (∀ t < [Call.triggerStop, .doStop].length, w.goroutines[t]? = some .done) ∧ w.stopper.fCalls = [] ∧
    (Call.triggerStop ∈ [Call.triggerStop, .doStop] →
      w.stopper.trigger.flag = true ∧ w.stopper.trigger.closes = 1) ∧
    (Call.doStop ∈ [Call.triggerStop, .doStop] →
      w.stopper.stopping.flag = true ∧ w.stopper.stopping.closes = 1 ∧
        0 < w.stopper.stoppedCloses ∧ w.stopper.stoppedCloses = w.stopper.fStarted.length) := by
  obtain ⟨w, hw, hval⟩ := Option.map_eq_some'.1 run_triggerThenStop
  simp only [Prod.mk.injEq] at hval
  have hdone : ∀ t < [Call.triggerStop, .doStop].length, w.goroutines[t]? = some .done := by
    intro t ht
    rw [hval.1]
    match t, ht with
    | 0, _ | 1, _ => rfl
  exact ⟨w, Reachable.init.run hw, hdone, hval.2, returned_closes (Reachable.init.run hw) hdone⟩

end Stopper

end VulcanPkgTool
