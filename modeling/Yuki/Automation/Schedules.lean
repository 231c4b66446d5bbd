import Mathlib.Algebra.Order.Archimedean.Basic
import Mathlib.Data.Rat.Floor
import Mathlib.Tactic.Linarith
import Mathlib.Tactic.Positivity
import Mathlib.Data.Nat.Find
import Yuki.Lib.PyText
import Yuki.Runtime.Schema

/-! Schedule calculations over a calendar of time zones. -/

namespace Yuki

/-- What the time zone data provides: valid names, local dates, and the instants of wall times. -/
structure Calendar where
  valid : String → Bool
  day : String → Time → Int
  wallTime : String → Int → Nat → Nat → Time
  /-- Wall times of later dates pass every instant. -/
  later (zone : String) (hour minute : Nat) (day : Int) (after : Time) :
    ∃ n : Nat, ∀ k : Nat, n ≤ k → after < wallTime zone (day + k) hour minute

structure DailySchedule where
  hour : Nat
  minute : Nat
  timezone : Option String
deriving DecidableEq

structure WeeklySchedule where
  weekdays : List Nat
  hour : Nat
  minute : Nat
  timezone : Option String
  nonempty : weekdays ≠ []
  validWeekdays : ∀ day ∈ weekdays, 1 ≤ day ∧ day ≤ 7
deriving DecidableEq

inductive Schedule
  | after (seconds : Nat) (positive : 1 ≤ seconds)
  | once (localDatetime : Time)
  | daily (schedule : DailySchedule)
  | weekly (schedule : WeeklySchedule)
  | interval (seconds : Nat) (positive : 1 ≤ seconds)
deriving DecidableEq

/-- `date.isoweekday` by ordinal. -/
def isoweekday (day : Int) : Nat :=
  ((day - 1) % 7).toNat + 1

/-- `validate_timezone(zone or default)`; there may be neither. -/
def validateTimezone (cal : Calendar) (zone script : Option String) : Except Err String :=
  match (zone.filter (· ≠ "")).or script with
  | none => .error (.runtime "AttributeError")
  | some value =>
    let normalized := strip value
    if cal.valid normalized then .ok normalized
    else .error (.valueError ("无效的 IANA 时区：" ++ normalized))

namespace Calendar

variable (cal : Calendar)

/-- Every weekday comes round within a week, as late as one likes. -/
theorem exists_weekday {weekdays : List Nat} (hne : weekdays ≠ [])
    (hvalid : ∀ day ∈ weekdays, 1 ≤ day ∧ day ≤ 7) (zone : String) (hour minute : Nat) (day : Int)
    (after : Time) : ∃ k : Nat, isoweekday (day + k) ∈ weekdays ∧
      after < cal.wallTime zone (day + k) hour minute := by
  obtain ⟨n, hn⟩ := cal.later zone hour minute day after
  obtain ⟨w, hw⟩ := List.exists_mem_of_ne_nil weekdays hne
  have hr := hvalid w hw
  let shift := ((w : Int) - 1 - (day + n - 1)) % 7
  have hshift : 0 ≤ shift ∧ shift < 7 := by omega
  refine ⟨n + shift.toNat, ?_, ?_⟩
  · have he : isoweekday (day + ((n + shift.toNat : Nat) : Int)) = w := by
      unfold isoweekday
      omega
    rw [he]
    exact hw
  · exact hn _ (by omega)

theorem exists_day (zone : String) (hour minute : Nat) (day : Int) (after : Time) :
    ∃ k : Nat, after < cal.wallTime zone (day + k) hour minute := by
  obtain ⟨n, hn⟩ := cal.later zone hour minute day after
  exact ⟨n, hn n le_rfl⟩

end Calendar

/-- `next_run_at`; the search goes day by day from the local date of `after`. -/
def nextRunAt (cal : Calendar) (schedule : Schedule) (after : Time)
    (scriptTimezone : Option String) : Except Err Time :=
  match schedule with
  | .after .. | .once _ => .error (.valueError "一次性 schedule 没有下一次执行时间")
  | .interval seconds _ => .ok (after + seconds)
  | .daily s => do
    let zone ← validateTimezone cal s.timezone scriptTimezone
    let day := cal.day zone after
    return cal.wallTime zone
      (day + Nat.find (cal.exists_day zone s.hour s.minute day after)) s.hour s.minute
  | .weekly s => do
    let zone ← validateTimezone cal s.timezone scriptTimezone
    let day := cal.day zone after
    return cal.wallTime zone
      (day + Nat.find (cal.exists_weekday s.nonempty s.validWeekdays zone s.hour s.minute day after))
      s.hour s.minute

/-- `initial_run_at`. -/
def initialRunAt (cal : Calendar) (schedule : Schedule) (now : Time) : Except Err Time :=
  match schedule with
  | .after seconds _ => .ok (now + seconds)
  | .interval seconds _ => .ok (now + seconds)
  | .once candidate =>
    if candidate ≤ now then .error (.valueError "once 的执行时间必须晚于当前可信时间") else .ok candidate
  | .daily s => nextRunAt cal (.daily s) now (some "Asia/Shanghai")
  | .weekly s => nextRunAt cal (.weekly s) now (some "Asia/Shanghai")

/-- `schedule_after_completion`. -/
def scheduleAfterCompletion (cal : Calendar) (schedule : Schedule) (scheduledFor now : Time)
    (scriptTimezone : Option String) : Except Err (Option Time) :=
  match schedule with
  | .after .. | .once _ => .ok none
  | .interval .. | .daily _ | .weekly _ =>
    (nextRunAt cal schedule (max scheduledFor now) scriptTimezone).map some

theorem lt_nextRunAt {cal : Calendar} {schedule : Schedule} {after next : Time} {zone : Option String}
    (h : nextRunAt cal schedule after zone = .ok next) : after < next := by
  cases schedule with
  | after | once => simp [nextRunAt] at h
  | interval seconds positive =>
    obtain rfl := Except.ok.inj h
    have hp : (0 : Rat) < seconds := by exact_mod_cast positive
    linarith
  | daily s =>
    simp only [nextRunAt, bind_eq_ok, pure_eq_ok] at h
    obtain ⟨zone, -, rfl⟩ := h
    exact Nat.find_spec (cal.exists_day zone s.hour s.minute (cal.day zone after) after)
  | weekly s =>
    simp only [nextRunAt, bind_eq_ok, pure_eq_ok] at h
    obtain ⟨zone, -, rfl⟩ := h
    exact (Nat.find_spec (cal.exists_weekday s.nonempty s.validWeekdays zone s.hour s.minute
      (cal.day zone after) after)).2

theorem lt_initialRunAt {cal : Calendar} {schedule : Schedule} {now next : Time}
    (h : initialRunAt cal schedule now = .ok next) : now < next := by
  cases schedule with
  | after seconds positive | interval seconds positive =>
    obtain rfl := Except.ok.inj h
    have hp : (0 : Rat) < seconds := by exact_mod_cast positive
    linarith
  | once candidate =>
    by_cases hp : candidate ≤ now
    · simp [initialRunAt, hp] at h
    · simp only [initialRunAt, hp, if_false] at h
      obtain rfl := Except.ok.inj h
      exact lt_of_not_ge hp
  | daily s | weekly s =>
    unfold initialRunAt at h
    exact lt_nextRunAt h

theorem lt_scheduleAfterCompletion {cal : Calendar} {schedule : Schedule}
    {scheduledFor now next : Time} {zone : Option String}
    (h : scheduleAfterCompletion cal schedule scheduledFor now zone = .ok (some next)) :
    scheduledFor < next := by
  have hmax : max scheduledFor now < next := by
    cases schedule with
    | after | once => simp [scheduleAfterCompletion] at h
    | interval | daily | weekly =>
      unfold scheduleAfterCompletion at h
      obtain ⟨t, ht, he⟩ := map_eq_ok.mp h
      obtain rfl := Option.some.inj he
      exact lt_nextRunAt ht
  exact lt_of_le_of_lt (le_max_left _ _) hmax

/-- The calendar that knows UTC alone; the epoch is day 719163. -/
def utcCalendar : Calendar where
  valid zone := zone == "UTC"
  day _ t := ⌊t / 86400⌋ + 719163
  wallTime _ day hour minute := (day - 719163) * 86400 + hour * 3600 + minute * 60
  later _ hour minute day after := by
    obtain ⟨n, hn⟩ := exists_nat_gt (after / 86400 - day + 719163)
    refine ⟨n, fun k hk => ?_⟩
    have hle : (n : Rat) ≤ k := by exact_mod_cast hk
    have hpos : (0 : Rat) ≤ hour * 3600 + minute * 60 := by positivity
    have hlt : after / 86400 < day + k - 719163 := by linarith
    have hmul := (div_lt_iff₀ (by norm_num : (0 : Rat) < 86400)).mp hlt
    push_cast
    linarith

end Yuki
