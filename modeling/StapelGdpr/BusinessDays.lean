import StapelGdpr.Dsar
import StapelGdpr.Lib.Counting

/-!
# StapelGdpr.BusinessDays

The acknowledgement clock (`business_days_from`): the loop counts the days it steps onto that are
Monday to Friday (`businessDaysFrom_reaches`), so it stops after the least number of days that
holds exactly `n` of them.

A `datetime` ends with the year 9999. Within that range the code computes what `businessDaysFrom`
does; past it the step by a day raises (`Datetime.businessDaysFrom_eq`).
-/

namespace StapelGdpr

open Counting

/-! ### Datetimes -/

/-- A `datetime`, by the clock of its own zone: `+ timedelta` and `weekday()` read no other. -/
structure Datetime where
  clock : Time
  earliest : datetimeMin ≤ clock
  latest : clock ≤ datetimeMax
  deriving DecidableEq

inductive OverflowError
  | dateValueOutOfRange
  deriving DecidableEq, Repr

/-- The datetime of a clock, within the range. -/
def Datetime.ofClock (clock : Time) : Except OverflowError Datetime :=
  if h : datetimeMin ≤ clock ∧ clock ≤ datetimeMax then .ok ⟨clock, h.1, h.2⟩
  else .error .dateValueOutOfRange

/-- `moment + delta`. -/
def Datetime.add (moment : Datetime) (delta : Delta) : Except OverflowError Datetime :=
  Datetime.ofClock (moment.clock + delta)

/-- The time of day: `moment.time()`, in microseconds. -/
def Datetime.time (moment : Datetime) : Delta := moment.clock % days 1

theorem days_one_pos : 0 < days 1 := by decide

theorem Datetime.ofClock_eq_ok {clock : Time} {moment : Datetime} :
    Datetime.ofClock clock = .ok moment ↔ moment.clock = clock := by
  unfold Datetime.ofClock
  constructor
  · intro h
    split at h
    · obtain rfl := Except.ok.inj h
      rfl
    · cases h
  · rintro rfl
    rw [dif_pos ⟨moment.earliest, moment.latest⟩]

theorem Datetime.ofClock_clock (moment : Datetime) : Datetime.ofClock moment.clock = .ok moment :=
  ofClock_eq_ok.mpr rfl

theorem Datetime.ofClock_late {clock : Time} (h : datetimeMax < clock) :
    Datetime.ofClock clock = .error .dateValueOutOfRange :=
  dif_neg fun hrange => absurd hrange.2 (not_le.mpr h)

theorem Datetime.add_eq_ok {moment next : Datetime} {delta : Delta} :
    moment.add delta = .ok next ↔ next.clock = moment.clock + delta :=
  ofClock_eq_ok

/-- What `+ timedelta` refuses, with a positive delta, is past the last datetime. -/
theorem Datetime.late_of_add {moment : Datetime} {delta : Delta} {e : OverflowError}
    (hdelta : 0 < delta) (h : moment.add delta = .error e) :
    datetimeMax < moment.clock + delta := by
  rw [Datetime.add, Datetime.ofClock] at h
  split at h
  · cases h
  · rename_i hrange
    have hearliest : datetimeMin ≤ moment.clock + delta :=
      moment.earliest.trans (Int.le_add_of_nonneg_right hdelta.le)
    exact lt_of_not_ge fun hlatest => hrange ⟨hearliest, hlatest⟩

/-- What is left of the range after a step. -/
theorem Datetime.remaining_lt {moment next : Datetime} {delta : Delta} (hdelta : 0 < delta)
    (h : moment.add delta = .ok next) :
    (datetimeMax - next.clock).toNat < (datetimeMax - moment.clock).toNat := by
  have hlt : moment.clock < next.clock := by
    rw [add_eq_ok.mp h]
    exact Int.lt_add_of_pos_right _ hdelta
  have hleft : 0 < datetimeMax - moment.clock := Int.sub_pos_of_lt (hlt.trans_le next.latest)
  exact (Int.toNat_lt_toNat hleft).mpr (Int.sub_lt_sub_left hlt _)

/-! ### The loop -/

/-- `business_days_from`, on datetimes. -/
def Datetime.businessDaysFrom (moment : Datetime) (remaining : Nat) :
    Except OverflowError Datetime :=
  if remaining = 0 then .ok moment
  else
    match _ : moment.add (days 1) with
    | .error e => .error e
    | .ok next =>
        if weekday next.clock < 5 then next.businessDaysFrom (remaining - 1)
        else next.businessDaysFrom remaining
termination_by (datetimeMax - moment.clock).toNat
decreasing_by
  all_goals
    -- a day within the range leaves less of it
    exact Datetime.remaining_lt days_one_pos ‹_›

/-- The day after, at the same time. -/
def tomorrow (moment : Time) : Time := moment + days 1

/-- Monday to Friday. -/
def IsWorkingDay (moment : Time) : Prop := weekday moment < 5

instance : DecidablePred IsWorkingDay := fun moment => Int.decLt (weekday moment) 5

/-- How many of the days `start + 1`, …, `start + k` are Monday to Friday. -/
def workingDays (start : Time) (k : Nat) : Nat :=
  Nat.count (fun j => weekday (start + days (j + 1)) < 5) k

theorem tomorrow_iterate (start : Time) (k : Nat) : tomorrow^[k] start = start + days k := by
  induction k with
  | zero => exact (Int.add_zero start).symm
  | succ k ih =>
      rw [Function.iterate_succ_apply', ih, tomorrow, Nat.cast_succ, days_add, Int.add_assoc]

theorem hits_tomorrow (start : Time) (k : Nat) :
    hits tomorrow IsWorkingDay start k = workingDays start k := by
  simp only [hits, workingDays, tomorrow_iterate, IsWorkingDay, Nat.cast_succ]

/-- The loop counts the working days. -/
theorem businessDaysFrom_reaches (start : Time) (n : Nat) :
    ∃ k, Reaches tomorrow IsWorkingDay start n k (businessDaysFrom start n) := by
  induction start, n using businessDaysFrom.induct with
  | case1 start =>
      rw [businessDaysFrom, if_pos rfl]
      exact ⟨0, .done start⟩
  | case2 start n hn hworking ih =>
      obtain ⟨k, hrest⟩ := ih
      rw [businessDaysFrom, if_neg hn, if_pos hworking]
      obtain ⟨n, rfl⟩ := Nat.exists_eq_succ_of_ne_zero hn
      exact ⟨k + 1, .hit hworking hrest⟩
  | case3 start n hn hfree ih =>
      obtain ⟨k, hrest⟩ := ih
      rw [businessDaysFrom, if_neg hn, if_neg hfree]
      obtain ⟨n, rfl⟩ := Nat.exists_eq_succ_of_ne_zero hn
      exact ⟨k + 1, .skip hfree hrest⟩

/-- It stops after the least number of days with `n` working days among them. -/
theorem businessDaysFrom_days (start : Time) (n : Nat) :
    ∃ k : Nat, IsLeast {k | workingDays start k = n} k ∧ n ≤ k ∧
      businessDaysFrom start n = start + days k := by
  obtain ⟨k, hrun⟩ := businessDaysFrom_reaches start n
  have hleast := hrun.isLeast
  simp only [hits_tomorrow] at hleast
  exact ⟨k, hleast, hrun.le, hrun.iterate.trans (tomorrow_iterate start k)⟩

theorem weekday_businessDaysFrom (start : Time) {n : Nat} (hn : 0 < n) :
    weekday (businessDaysFrom start n) < 5 := by
  obtain ⟨k, hrun⟩ := businessDaysFrom_reaches start n
  exact hrun.landed hn

/-- Counting `a` business days and then `b` is counting `a + b`. -/
theorem businessDaysFrom_add (start : Time) (a b : Nat) :
    businessDaysFrom (businessDaysFrom start a) b = businessDaysFrom start (a + b) := by
  obtain ⟨k, hfirst⟩ := businessDaysFrom_reaches start a
  obtain ⟨j, hsecond⟩ := businessDaysFrom_reaches (businessDaysFrom start a) b
  obtain ⟨i, hboth⟩ := businessDaysFrom_reaches start (a + b)
  exact ((hfirst.trans hsecond).unique hboth).2

/-- A business day takes a day at least. -/
theorem le_businessDaysFrom (start : Time) (n : Nat) :
    start + days n ≤ businessDaysFrom start n := by
  obtain ⟨k, -, hle, heq⟩ := businessDaysFrom_days start n
  rw [heq]
  exact Int.add_le_add_left (days_mono (Int.ofNat_le.mpr hle)) start

theorem businessDaysFrom_lt (start : Time) {m n : Nat} (h : m < n) :
    businessDaysFrom start m < businessDaysFrom start n := by
  obtain ⟨k, rfl⟩ := Nat.exists_eq_add_of_lt h
  have hrest := le_businessDaysFrom (businessDaysFrom start m) (k + 1)
  rw [businessDaysFrom_add] at hrest
  have hone : days 1 ≤ days (k + 1 : Nat) := days_mono (by omega)
  exact (Int.lt_add_of_pos_right _ (days_one_pos.trans_le hone)).trans_le hrest

/-! ### Within the range -/

theorem businessDaysFrom_zero (start : Time) : businessDaysFrom start 0 = start := by
  rw [businessDaysFrom, if_pos rfl]

/-- The loop on datetimes, one step taken. -/
theorem Datetime.businessDaysFrom_succ {moment next : Datetime} (n : Nat)
    (h : moment.add (days 1) = .ok next) :
    moment.businessDaysFrom (n + 1) =
      if weekday next.clock < 5 then next.businessDaysFrom n
      else next.businessDaysFrom (n + 1) := by
  rw [Datetime.businessDaysFrom, if_neg (Nat.succ_ne_zero n)]
  split
  · rename_i hover
    cases h.symm.trans hover
  · rename_i next' hstep
    obtain rfl := Except.ok.inj (h.symm.trans hstep)
    rfl

theorem Datetime.businessDaysFrom_over {moment : Datetime} {e : OverflowError} (n : Nat)
    (h : moment.add (days 1) = .error e) : moment.businessDaysFrom (n + 1) = .error e := by
  rw [Datetime.businessDaysFrom, if_neg (Nat.succ_ne_zero n)]
  split
  · rename_i hover
    obtain rfl := Except.error.inj (h.symm.trans hover)
    rfl
  · rename_i hstep
    cases h.symm.trans hstep

/-- On datetimes the loop computes the same, as far as they go. -/
theorem Datetime.businessDaysFrom_eq (moment : Datetime) (n : Nat) :
    moment.businessDaysFrom n = ofClock (StapelGdpr.businessDaysFrom moment.clock n) := by
  induction moment, n using Datetime.businessDaysFrom.induct with
  | case1 moment =>
      rw [Datetime.businessDaysFrom, if_pos rfl, businessDaysFrom_zero, ofClock_clock]
  | case2 moment n hn e hover =>
      obtain ⟨n, rfl⟩ := Nat.exists_eq_succ_of_ne_zero hn
      -- the first day is past the range, and the last is not before it
      have hone : days 1 ≤ days (n + 1 : Nat) := days_mono (by omega)
      have hlate := (late_of_add days_one_pos hover).trans_le
        ((Int.add_le_add_left hone _).trans (le_businessDaysFrom moment.clock (n + 1)))
      cases e
      rw [businessDaysFrom_over n hover, ofClock_late hlate]
  | case3 moment n hn next hstep hworking ih =>
      obtain ⟨n, rfl⟩ := Nat.exists_eq_succ_of_ne_zero hn
      rw [businessDaysFrom_succ n hstep, if_pos hworking, StapelGdpr.businessDaysFrom,
        if_neg hn, ← add_eq_ok.mp hstep, if_pos hworking]
      exact ih
  | case4 moment n hn next hstep hfree ih =>
      obtain ⟨n, rfl⟩ := Nat.exists_eq_succ_of_ne_zero hn
      rw [businessDaysFrom_succ n hstep, if_neg hfree, StapelGdpr.businessDaysFrom,
        if_neg hn, ← add_eq_ok.mp hstep, if_neg hfree]
      exact ih

theorem Datetime.businessDaysFrom_eq_ok {start last : Datetime} {n : Nat} :
    start.businessDaysFrom n = .ok last ↔
      last.clock = StapelGdpr.businessDaysFrom start.clock n := by
  rw [businessDaysFrom_eq, ofClock_eq_ok]

/-- What is computed is later than what any smaller number of days gives. -/
theorem Datetime.businessDaysFrom_lt {start last : Datetime} {m n : Nat} (hmn : m < n)
    (h : start.businessDaysFrom n = .ok last) :
    ∃ earlier, start.businessDaysFrom m = .ok earlier ∧ earlier.clock < last.clock := by
  have hlast := businessDaysFrom_eq_ok.mp h
  have hlt := StapelGdpr.businessDaysFrom_lt start.clock hmn
  have hstart := le_businessDaysFrom start.clock m
  have hzero : start.clock ≤ start.clock + days m :=
    Int.le_add_of_nonneg_right (days_mono (v := 0) (Int.natCast_nonneg m))
  refine ⟨⟨StapelGdpr.businessDaysFrom start.clock m, start.earliest.trans (hzero.trans hstart),
    hlt.le.trans (hlast ▸ last.latest)⟩, ?_, ?_⟩
  · exact businessDaysFrom_eq_ok.mpr rfl
  · exact hlt.trans_eq hlast.symm

/-- Counting on from a result, also where one of the two raises. -/
theorem Datetime.businessDaysFrom_bind (start : Datetime) (a b : Nat) :
    (start.businessDaysFrom a >>= fun moment => moment.businessDaysFrom b) =
      start.businessDaysFrom (a + b) := by
  cases h : start.businessDaysFrom a with
  | ok moment =>
      have hclock := businessDaysFrom_eq_ok.mp h
      calc moment.businessDaysFrom b
          = ofClock (StapelGdpr.businessDaysFrom moment.clock b) := businessDaysFrom_eq ..
        _ = ofClock (StapelGdpr.businessDaysFrom start.clock (a + b)) := by
            rw [hclock, businessDaysFrom_add]
        _ = start.businessDaysFrom (a + b) := (businessDaysFrom_eq ..).symm
  | error e =>
      cases hboth : start.businessDaysFrom (a + b) with
      | error e' =>
          cases e
          cases e'
          rfl
      | ok last =>
          -- the whole count stays within the range, so its first part did
          exfalso
          rcases Nat.eq_zero_or_pos b with rfl | hb
          · cases h.symm.trans hboth
          · obtain ⟨earlier, hearlier, -⟩ := businessDaysFrom_lt (Nat.lt_add_of_pos_right hb) hboth
            cases h.symm.trans hearlier

theorem Datetime.time_add_days {start last : Datetime} {k : Nat}
    (h : last.clock = start.clock + days k) : last.time = start.time := by
  rw [Datetime.time, Datetime.time, h]
  exact Int.add_mul_emod_self_right ..

/-! ### The count -/

/-- `datetime.max`. -/
def Datetime.max : Datetime := ⟨datetimeMax, by decide, le_refl _⟩

/-- No day follows the last: the loop raises there, and returns nothing. -/
theorem Datetime.businessDaysFrom_max :
    max.businessDaysFrom 1 = .error .dateValueOutOfRange ∧
      ¬∃ (k : Nat) (r : Datetime),
        max.businessDaysFrom 1 = .ok r ∧ r.clock = max.clock + days k := by
  have hover : max.businessDaysFrom 1 = .error .dateValueOutOfRange :=
    businessDaysFrom_over 0 (by decide)
  refine ⟨hover, ?_⟩
  intro ⟨k, r, hr, _⟩
  cases hover.symm.trans hr

/-- The result is the start and the least number of whole days with exactly `n` days of Monday to
Friday among them, or `OverflowError` when that is no datetime. A result is at the start's time
of day, on a weekday unless nothing was counted, and later for more days; and counting in two
parts is counting at once. -/
theorem Datetime.businessDaysFrom_exact (start : Datetime) (n : Nat) :
    (∃ k : Nat, IsLeast {k | workingDays start.clock k = n} k ∧
      start.businessDaysFrom n = ofClock (start.clock + days k)) ∧
    (∀ r, start.businessDaysFrom n = .ok r →
      r.time = start.time ∧ (0 < n → weekday r.clock < 5) ∧
      ∀ m < n, ∃ q, start.businessDaysFrom m = .ok q ∧ q.clock < r.clock) ∧
    ∀ b, (start.businessDaysFrom n >>= fun moment => moment.businessDaysFrom b) =
      start.businessDaysFrom (n + b) := by
  obtain ⟨k, hleast, -, hdays⟩ := businessDaysFrom_days start.clock n
  refine ⟨⟨k, hleast, by rw [businessDaysFrom_eq, hdays]⟩, ?_, businessDaysFrom_bind start n⟩
  intro r hr
  have hclock := businessDaysFrom_eq_ok.mp hr
  refine ⟨time_add_days (hclock.trans hdays), ?_, fun m hm => businessDaysFrom_lt hm hr⟩
  intro hn
  rw [hclock]
  exact weekday_businessDaysFrom start.clock hn

end StapelGdpr
