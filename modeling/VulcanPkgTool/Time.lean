import VulcanPkgTool.Go

/-!
`time`: the next daily or weekly instant after a time, past a delay.

`NextDailyTime(t, delay)` is `StartOfDay(t.Add(-delay)).AddDate(0, 0, 1).Add(delay)`,
and `NextWeeklyTime` the same with `StartOfWeek` and 7 days. The model follows
package `time` where these depend on it. A `Time` is seconds since January 1,
year 1, 00:00:00 UTC, nanoseconds, and a location (monotonic readings play no
part: `Truncate` strips them, and `AddDate` builds a time without one). `Add`
splits the duration with Go's truncating `/` and `%`, renormalises the
nanoseconds and saturates the seconds as `addSec` does. `Truncate` by a whole
number of seconds rounds down to a multiple of the duration counted from the
zero time, in UTC whatever the location, through the sign handling of `div`.
`AddDate(0, 0, n)` moves the wall clock of `t`'s location `n` calendar days on
and turns it back into an instant as `Date` does, through the location's zone
`lookup`; Go's calendar has no leap seconds and `Date` adds the day field
linearly, so the wall clock moves by `n * 86400` seconds. A `Location` is its
`lookup`.

For every delay but `math.MinInt64` and every time within `2^62` seconds of the
zero time whose location keeps one offset over the period around the time less
the delay (`Location.FixedNear`), the result lies in `(t, t + period]` and less
the delay it is a whole number of periods after the zero time
(`NextDailyTime_NextWeeklyTime`). Both conditions
are needed (`NextDailyTime_not_after`): `-delay` of `math.MinInt64` is itself,
so the result is some 584 years before `t`; and across a change of offset a
calendar day is not 24 hours, so in `America/New_York` on the day clocks go
forward the next daily time after 19:30 is 19:00 the same evening.
-/

set_option autoImplicit false

namespace VulcanPkgTool

namespace time

/-! ## 1. Durations, locations and times -/

/-- Go's `x / y` for `y > 0`: the quotient rounded toward zero. -/
def quo (x y : Int) : Int := if x < 0 then -(-x / y) else x / y

/-- Go's `x % y` for `y > 0`: the remainder, with the sign of `x`. -/
def rem (x y : Int) : Int := x - y * quo x y

theorem quo_rem (x : Int) : 1000000000 * quo x 1000000000 + rem x 1000000000 = x := by
  unfold rem
  omega

theorem rem_bounds (x : Int) : -1000000000 < rem x 1000000000 ∧ rem x 1000000000 < 1000000000 := by
  unfold rem quo
  split <;> omega

/-- `time.Second`; a `time.Duration` is an `int64` count of nanoseconds. -/
def Second : Int := 1000000000

/-- `time.Hour`. -/
def Hour : Int := 3600 * Second

/-- Go's `-d` on a `time.Duration`, which leaves `math.MinInt64` as it is. -/
def negDuration (d : Int) : Int := wrapInt64 (-d)

theorem negDuration_of_lt {d : Int} (hd : -2 ^ 63 < d ∧ d < 2 ^ 63) : negDuration d = -d := by
  unfold negDuration wrapInt64
  omega

/-- A zone as `lookup` finds it: its offset east of UTC in seconds, and the
Unix seconds `[start, stop)` over which it holds. -/
structure Zone where
  offset : Int
  start : Int
  stop : Int

/-- A `*time.Location`, as its `lookup` of a Unix second answers. -/
structure Location where
  lookup : Int → Zone

/-- `time.UTC`: offset 0 from the first second to the last. -/
def UTC : Location := ⟨fun _ => ⟨0, -2 ^ 63, 2 ^ 63 - 1⟩⟩

/-- A `time.Time`: `t.sec()`, the seconds since January 1, year 1, 00:00:00 UTC;
`t.nsec()`; and `t.Location()`. -/
structure Time where
  sec : Int
  nsec : Nat
  nsec_lt : nsec < 1000000000
  loc : Location

/-- The nanoseconds since the zero time. -/
def Time.ns (t : Time) : Int := t.sec * 1000000000 + t.nsec

/-- `unixToInternal`: the seconds from January 1, year 1 to the Unix epoch. -/
def unixToInternal : Int := (1969 * 365 + 1969 / 4 - 1969 / 100 + 1969 / 400) * 86400

/-- `t.Before(u)`. -/
def Time.Before (t u : Time) : Bool := t.sec < u.sec || (t.sec = u.sec && t.nsec < u.nsec)

theorem Time.Before_iff (t u : Time) : t.Before u ↔ t.ns < u.ns := by
  have := t.nsec_lt
  have := u.nsec_lt
  simp only [Time.Before, Time.ns, Bool.or_eq_true, decide_eq_true_eq, Bool.and_eq_true]
  omega

/-- `t.addSec(d)`: the seconds moved by `d`, saturating at `±(2^63 - 1)` when the
`int64` sum overflows. -/
def addSec (sec d : Int) : Int :=
  if 2 ^ 63 ≤ sec + d then 2 ^ 63 - 1 else if sec + d < -2 ^ 63 then -(2 ^ 63 - 1) else sec + d

/-- `t.Add(d)`. -/
def Time.Add (t : Time) (d : Int) : Time :=
  if h : 1000000000 ≤ t.nsec + rem d 1000000000 then
    ⟨addSec t.sec (quo d 1000000000 + 1), (t.nsec + rem d 1000000000 - 1000000000).toNat,
      by have := t.nsec_lt; have := rem_bounds d; omega, t.loc⟩
  else if h' : t.nsec + rem d 1000000000 < 0 then
    ⟨addSec t.sec (quo d 1000000000 - 1), (t.nsec + rem d 1000000000 + 1000000000).toNat,
      by omega, t.loc⟩
  else ⟨addSec t.sec (quo d 1000000000), (t.nsec + rem d 1000000000).toNat, by omega, t.loc⟩

/-! ## 2. The package -/

/-- The remainder `div(t, d)` returns for `d` of `d1` whole seconds: how far `t`
is past the last multiple of `d` since the zero time. A `t` before the zero
time is negated, divided, and the remainder taken from `d`. -/
def Time.remSeconds (t : Time) (d1 : Nat) : Int :=
  if t.sec < 0 then
    let r := (if t.nsec = 0 then -t.sec else -t.sec - 1) % d1 * Second +
      (if t.nsec = 0 then 0 else 1000000000 - (t.nsec : Int))
    if r ≠ 0 then d1 * Second - r else r
  else t.sec % d1 * Second + t.nsec

/-- `t.Truncate(d)` for `d` of `d1` whole seconds: `t.Add(-r)`. -/
def Time.Truncate (t : Time) (d1 : Nat) : Time :=
  if d1 = 0 then t else t.Add (-t.remSeconds d1)

/-- `StartOfDay(t)`: `t.Truncate(24 * time.Hour)`. -/
def StartOfDay (t : Time) : Time := t.Truncate (24 * 3600)

/-- `StartOfWeek(t)`: `t.Truncate(7 * 24 * time.Hour)`. -/
def StartOfWeek (t : Time) : Time := t.Truncate (7 * 24 * 3600)

/-- The instant of a wall clock `unix` (seconds, read as if UTC) in location
`l`, as `Date` finds it: the offset in effect at `unix`, and the one in effect
at the instant that gives if it falls outside that zone. -/
def Location.unixOfWall (l : Location) (unix : Int) : Int :=
  if (l.lookup unix).offset ≠ 0 then
    let utc := unix - (l.lookup unix).offset
    if utc < (l.lookup unix).start ∨ utc ≥ (l.lookup unix).stop then unix - (l.lookup utc).offset
    else unix - (l.lookup unix).offset
  else unix

/-- `t.AddDate(0, 0, days)`: the wall clock of `t`, read through `lookup` at its
Unix second, `days * 86400` seconds on, turned back into an instant. -/
def Time.AddDays (t : Time) (days : Int) : Time :=
  let unix := t.sec - unixToInternal
  { t with sec := t.loc.unixOfWall (unix + (t.loc.lookup unix).offset + days * 86400) + unixToInternal }

/-- `NextDailyTime(t, delay)`. -/
def NextDailyTime (t : Time) (delay : Int) : Time :=
  ((StartOfDay (t.Add (negDuration delay))).AddDays 1).Add delay

/-- `NextWeeklyTime(t, delay)`. -/
def NextWeeklyTime (t : Time) (delay : Int) : Time :=
  ((StartOfWeek (t.Add (negDuration delay))).AddDays 7).Add delay

/-! ## 3. What each step does to the instant -/

theorem Time.ns_bounds (t : Time) : t.sec * 1000000000 ≤ t.ns ∧ t.ns < t.sec * 1000000000 + 1000000000 := by
  have := t.nsec_lt
  unfold Time.ns
  omega

theorem addSec_of_bounds {sec d : Int} (h : -2 ^ 63 ≤ sec + d ∧ sec + d < 2 ^ 63) :
    addSec sec d = sec + d := by
  rw [addSec, if_neg (by omega), if_neg (by omega)]

@[simp] theorem Time.loc_Add (t : Time) (d : Int) : (t.Add d).loc = t.loc := by
  unfold Time.Add
  split
  · rfl
  · split <;> rfl

/-- Away from the ends of the `int64` range of seconds, `Add` moves the instant
by exactly `d`. -/
theorem Time.ns_Add {t : Time} {d : Int} (ht : -2 ^ 62 - 2 ^ 40 ≤ t.sec ∧ t.sec ≤ 2 ^ 62 + 2 ^ 40)
    (hd : -2 ^ 63 ≤ d ∧ d ≤ 2 ^ 63) : (t.Add d).ns = t.ns + d := by
  have hqr := quo_rem d
  have hb := rem_bounds d
  have hn := t.nsec_lt
  unfold Time.Add
  split <;> try split
  all_goals (simp only [Time.ns]; rw [addSec_of_bounds (by omega)]; omega)

/-- The remainder `div` returns lies in `[0, d)`, and `t` less it is a
multiple of `d` counted from the zero time. -/
theorem Time.remSeconds_spec (t : Time) {d1 : Nat} (hd1 : 0 < d1) :
    0 ≤ t.remSeconds d1 ∧ t.remSeconds d1 < d1 * Second ∧
      (d1 * Second : Int) ∣ t.ns - t.remSeconds d1 := by
  have hn := t.nsec_lt
  have hd : (0 : Int) < d1 := by omega
  unfold Time.remSeconds
  dsimp only
  split
  · next hneg =>
    have hparts : 0 ≤ (if t.nsec = 0 then -t.sec else -t.sec - 1) ∧
        0 ≤ (if t.nsec = 0 then (0 : Int) else 1000000000 - t.nsec) ∧
        (if t.nsec = 0 then (0 : Int) else 1000000000 - t.nsec) < 1000000000 ∧
        t.ns = -((if t.nsec = 0 then -t.sec else -t.sec - 1) * 1000000000 +
          (if t.nsec = 0 then (0 : Int) else 1000000000 - t.nsec)) := by
      unfold Time.ns
      split <;> omega
    generalize (if t.nsec = 0 then -t.sec else -t.sec - 1) = s at hparts ⊢
    generalize (if t.nsec = 0 then (0 : Int) else 1000000000 - t.nsec) = n at hparts ⊢
    obtain ⟨hs, hn0, hn1, hns⟩ := hparts
    have hm0 := Int.emod_nonneg s hd.ne'
    have hm1 := Int.emod_lt_of_pos s hd
    simp only [Second] at *
    split
    · next hr =>
      refine ⟨by omega, by omega, ⟨-(s / d1) - 1, ?_⟩⟩
      rw [hns, Int.emod_def]
      ring
    · next hr =>
      refine ⟨by omega, by omega, ⟨-(s / d1), ?_⟩⟩
      rw [not_not, Int.emod_def] at hr
      rw [hns, Int.emod_def]
      linear_combination (-2 : Int) * hr
  · next hpos =>
    have hm0 := Int.emod_nonneg t.sec hd.ne'
    have hm1 := Int.emod_lt_of_pos t.sec hd
    simp only [Second] at *
    refine ⟨by omega, by omega, ⟨t.sec / d1, ?_⟩⟩
    rw [Time.ns, Int.emod_def]
    ring

/-- `Truncate` moves the instant back by the remainder, to a multiple of the duration. -/
theorem Time.ns_Truncate {t : Time} {d1 : Nat} (hd1 : 0 < d1 ∧ d1 ≤ 7 * 86400)
    (ht : -2 ^ 62 - 2 ^ 40 ≤ t.sec ∧ t.sec ≤ 2 ^ 62 + 2 ^ 40) :
    (t.Truncate d1).ns = t.ns - t.remSeconds d1 ∧ (t.Truncate d1).loc = t.loc := by
  obtain ⟨h0, h1, -⟩ := t.remSeconds_spec hd1.1
  rw [Time.Truncate, if_neg (by omega)]
  refine ⟨?_, Time.loc_Add _ _⟩
  rw [Time.ns_Add ht (by unfold Second at h1; omega)]
  omega

/-- `AddDate(0, 0, days)` moves the instant by `days` times 24 hours when the
location has one offset `c` at the three Unix seconds it looks up: `t`'s own, the
wall clock `days` on read as a Unix second, and the instant that wall clock is. -/
theorem Time.ns_AddDays {t : Time} {c : Int} (days : Int)
    (h₀ : (t.loc.lookup (t.sec - unixToInternal)).offset = c)
    (h₁ : (t.loc.lookup (t.sec - unixToInternal + c + days * 86400)).offset = c)
    (h₂ : (t.loc.lookup (t.sec - unixToInternal + days * 86400)).offset = c) :
    (t.AddDays days).ns = t.ns + days * 86400 * 1000000000 ∧ (t.AddDays days).loc = t.loc := by
  refine ⟨?_, rfl⟩
  have h₂' : (t.loc.lookup (t.sec - unixToInternal + c + days * 86400 - c)).offset = c := by
    rw [show t.sec - unixToInternal + c + days * 86400 - c = t.sec - unixToInternal + days * 86400 by ring]
    exact h₂
  simp only [Time.AddDays, Location.unixOfWall, Time.ns, h₀, h₁]
  split
  · split
    · rw [h₂']; ring
    · ring
  · next h =>
    rw [not_not] at h
    subst h
    ring

/-- The location keeps the one offset `c` at every Unix second within `D`
seconds, and `|c|` more, of the instant `ns` nanoseconds after the zero time:
every second `AddDate` looks up for a period of `D` seconds that starts at most
`D` seconds before that instant. -/
def Location.FixedNear (l : Location) (ns D c : Int) : Prop :=
  ∀ u, ns / 1000000000 - unixToInternal - D - |c| ≤ u → u ≤ ns / 1000000000 - unixToInternal + D + |c| →
    (l.lookup u).offset = c

/-- The shape both functions share, for a period of `days` days: the instant
`d` before `t`, truncated to a multiple of the period, a period on, and `d`
after. When the location keeps one offset near `t - d`, it lies in
`(t, t + period]`, and less `d` it is a multiple of the period. -/
theorem next_spec (t : Time) (d : Int) (days : Nat) (hdays : 0 < days ∧ days ≤ 7) {c : Int}
    (hloc : t.loc.FixedNear (t.ns - d) (days * 86400 : Nat) c)
    (ht : -2 ^ 62 ≤ t.sec ∧ t.sec ≤ 2 ^ 62) (hd : -2 ^ 63 < d ∧ d < 2 ^ 63) :
    t.ns < ((((t.Add (negDuration d)).Truncate (days * 86400)).AddDays days).Add d).ns ∧
      ((((t.Add (negDuration d)).Truncate (days * 86400)).AddDays days).Add d).ns ≤
        t.ns + days * 86400 * Second ∧
      (days * 86400 * Second : Int) ∣
        (((((t.Add (negDuration d)).Truncate (days * 86400)).AddDays days).Add d).Add
          (negDuration d)).ns := by
  rw [negDuration_of_lt hd]
  have hD : 0 < days * 86400 ∧ days * 86400 ≤ 7 * 86400 := by omega
  set t₁ := t.Add (-d) with ht₁
  set t₂ := t₁.Truncate (days * 86400)
  set t₃ := t₂.AddDays days
  set t₄ := t₃.Add d
  set r := t₁.remSeconds (days * 86400)
  have hb₀ := t.ns_bounds
  -- `t` less the delay
  have h₁ : t₁.ns = t.ns + -d := Time.ns_Add (by omega) (by omega)
  have hb₁ := t₁.ns_bounds
  -- truncated to the period
  have h₂ : t₂.ns = t₁.ns - r ∧ t₂.loc = t₁.loc := Time.ns_Truncate hD (by omega)
  obtain ⟨hr0, hr1, hdvd⟩ : 0 ≤ r ∧ r < ↑(days * 86400) * Second ∧ ↑(days * 86400) * Second ∣ t₁.ns - r :=
    t₁.remSeconds_spec hD.1
  have hb₂ := t₂.ns_bounds
  simp only [Second] at hr1 hdvd ⊢
  push_cast at hr1 hdvd hloc ⊢
  -- a period on, through the offset `t₂` keeps
  have hfix : ∀ u, t₂.sec - unixToInternal - |c| ≤ u →
      u ≤ t₂.sec - unixToInternal + days * 86400 + |c| → (t₂.loc.lookup u).offset = c :=
    fun u hu₁ hu₂ => by
      rw [h₂.2, ht₁, Time.loc_Add]
      exact hloc u (by omega) (by omega)
  have hc := le_abs_self c
  have hc' := neg_abs_le c
  have h₃ : t₃.ns = t₂.ns + days * 86400 * 1000000000 :=
    (Time.ns_AddDays days (hfix _ (by omega) (by omega)) (hfix _ (by omega) (by omega))
      (hfix _ (by omega) (by omega))).1
  have hb₃ := t₃.ns_bounds
  -- the delay after, and before again
  have h₄ : t₄.ns = t₃.ns + d := Time.ns_Add (by omega) (by omega)
  have hb₄ := t₄.ns_bounds
  have h₅ : (t₄.Add (-d)).ns = t₄.ns + -d := Time.ns_Add (by omega) (by omega)
  refine ⟨by omega, by omega, ?_⟩
  rw [h₅, show t₄.ns + -d = (t₁.ns - r) + days * 86400 * 1000000000 by omega]
  exact Int.dvd_add hdvd (Int.dvd_refl _)

/-! ## 4. The next daily and weekly times -/

/-- **`NextDailyTime` and `NextWeeklyTime` are the next boundary past the delay.**
For a time within `2^62` seconds of the zero time and a delay other than
`math.MinInt64`: when the location keeps one offset over the day around `t`
less the delay, `NextDailyTime` is after `t`, at most a day after it, and less
the delay a whole number of days after the zero time; and the same for
`NextWeeklyTime` and a week. -/
theorem NextDailyTime_NextWeeklyTime (t : Time) (d : Int)
    (ht : -2 ^ 62 ≤ t.sec ∧ t.sec ≤ 2 ^ 62) (hd : -2 ^ 63 < d ∧ d < 2 ^ 63) :
    ((∃ c, t.loc.FixedNear (t.ns - d) 86400 c) →
      t.ns < (NextDailyTime t d).ns ∧ (NextDailyTime t d).ns ≤ t.ns + 24 * Hour ∧
        24 * Hour ∣ ((NextDailyTime t d).Add (negDuration d)).ns) ∧
    ((∃ c, t.loc.FixedNear (t.ns - d) (7 * 86400) c) →
      t.ns < (NextWeeklyTime t d).ns ∧ (NextWeeklyTime t d).ns ≤ t.ns + 7 * 24 * Hour ∧
        7 * 24 * Hour ∣ ((NextWeeklyTime t d).Add (negDuration d)).ns) := by
  refine ⟨fun ⟨c, hc⟩ => ?_, fun ⟨c, hc⟩ => ?_⟩
  · have hday := next_spec t d 1 (by omega) (by simpa using hc) ht hd
    simp only [Hour, Second, Nat.cast_ofNat, Nat.cast_one] at hday ⊢
    exact hday
  · have hweek := next_spec t d 7 (by omega) (by simpa using hc) ht hd
    simp only [Hour, Second, Nat.cast_ofNat] at hweek ⊢
    exact hweek

/-- A location that moves from UTC−5 to UTC−4 at 07:00 UTC on March 10, 2024, as
`America/New_York` does. -/
def springForward2024 : Location :=
  ⟨fun u => if u < 1710054000 then ⟨-18000, -2 ^ 63, 1710054000⟩ else ⟨-14400, 1710054000, 2 ^ 63 - 1⟩⟩

/-- 12:00:00.5 UTC on July 1, 2024 in `springForward2024`, far from its change of offset. -/
def summerNoon : Time := ⟨63855432000, 500000000, by decide, springForward2024⟩

/-- Over July 2024 `springForward2024` keeps the offset of UTC−4. -/
theorem summerNoon_fixedNear (D : Int) (hD : 0 ≤ D ∧ D ≤ 7 * 86400) :
    summerNoon.loc.FixedNear (summerNoon.ns - 2 * Hour) D (-14400) := by
  intro u hu _
  simp only [summerNoon, Time.ns, Hour, Second, unixToInternal, abs_neg] at hu
  norm_num at hu
  show (if u < 1710054000 then _ else _ : Zone).offset = _
  rw [if_neg (by omega)]

theorem NextDailyTime_NextWeeklyTime_summerNoon :
    (-2 ^ 62 ≤ summerNoon.sec ∧ summerNoon.sec ≤ 2 ^ 62) ∧ (-2 ^ 63 < 2 * Hour ∧ 2 * Hour < 2 ^ 63) ∧
      (∃ c, summerNoon.loc.FixedNear (summerNoon.ns - 2 * Hour) 86400 c) ∧
      (∃ c, summerNoon.loc.FixedNear (summerNoon.ns - 2 * Hour) (7 * 86400) c) ∧
      (summerNoon.ns < (NextDailyTime summerNoon (2 * Hour)).ns ∧
        (NextDailyTime summerNoon (2 * Hour)).ns ≤ summerNoon.ns + 24 * Hour ∧
        24 * Hour ∣ ((NextDailyTime summerNoon (2 * Hour)).Add (negDuration (2 * Hour))).ns) ∧
      (summerNoon.ns < (NextWeeklyTime summerNoon (2 * Hour)).ns ∧
        (NextWeeklyTime summerNoon (2 * Hour)).ns ≤ summerNoon.ns + 7 * 24 * Hour ∧
        7 * 24 * Hour ∣ ((NextWeeklyTime summerNoon (2 * Hour)).Add (negDuration (2 * Hour))).ns) := by
  have hday : ∃ c, summerNoon.loc.FixedNear (summerNoon.ns - 2 * Hour) 86400 c :=
    ⟨_, summerNoon_fixedNear 86400 (by norm_num)⟩
  have hweek : ∃ c, summerNoon.loc.FixedNear (summerNoon.ns - 2 * Hour) (7 * 86400) c :=
    ⟨_, summerNoon_fixedNear (7 * 86400) (by norm_num)⟩
  have h := NextDailyTime_NextWeeklyTime summerNoon (2 * Hour) (by norm_num [summerNoon])
    (by norm_num [Hour, Second])
  exact ⟨by norm_num [summerNoon], by norm_num [Hour, Second], hday, hweek, h.1 hday, h.2 hweek⟩

/-- 19:30 local time on March 10, 2024 in `springForward2024`. -/
def springEvening : Time := ⟨63845625600 + 84600, 0, by decide, springForward2024⟩

/-- **Neither condition can be dropped.** With the delay `math.MinInt64` the
next daily time of the zero time in UTC is before it; and on the evening
clocks go forward, the next daily time after 19:30 with no delay is 19:00 the
same evening, also before it. -/
theorem NextDailyTime_not_after :
    (NextDailyTime ⟨0, 0, by decide, UTC⟩ (-2 ^ 63)).ns < Time.ns ⟨0, 0, by decide, UTC⟩ ∧
      (NextDailyTime springEvening 0).ns < springEvening.ns := by
  decide

end time

end VulcanPkgTool
