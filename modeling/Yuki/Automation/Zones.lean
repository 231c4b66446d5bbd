import Mathlib.Order.Bounds.Basic
import Yuki.Automation.Schedules
import Yuki.Lib.OffsetHistory

/-! Periodic schedules in zones with arbitrary transitions: which instant the search
from the local date finds, and when it is the first one. -/

namespace Yuki

/-- A zone's transitions; every offset is less than a day. -/
structure TimeZone where
  history : OffsetHistory Time
  initial : |history.initial| < 86400
  bounded : ∀ c ∈ history.changes, |c.2| < 86400

def utcZone : TimeZone where
  history := ⟨0, [], List.Pairwise.nil⟩
  initial := by norm_num
  bounded := by simp

namespace TimeZone

/-- `datetime.combine(day, time(hour, minute))`, in seconds; the epoch is day 719163. -/
def wall (day : Int) (hour minute : Nat) : Time :=
  (day - 719163) * 86400 + hour * 3600 + minute * 60

/-- `after.astimezone(zone).date()`. -/
def date (zone : TimeZone) (after : Time) : Int :=
  ⌊zone.history.localTime after / 86400⌋ + 719163

theorem sub_lt_resolve (zone : TimeZone) (w : Time) : w - 86400 < zone.history.resolve w :=
  OffsetHistory.sub_lt_resolveFrom (abs_lt.mp zone.initial).2 fun c hc =>
    (abs_lt.mp (zone.bounded c hc)).2

theorem wall_mono {d e : Int} (h : d ≤ e) (hour minute : Nat) :
    wall d hour minute ≤ wall e hour minute := by
  have hcast : (d : Time) ≤ e := by exact_mod_cast h
  unfold wall
  linarith

/-- A wall time of an earlier date has passed on the clock. -/
theorem wall_lt_localTime (zone : TimeZone) {d : Int} {hour minute : Nat} {after : Time}
    (hhour : hour < 24) (hminute : minute < 60) (h : d < zone.date after) :
    wall d hour minute < zone.history.localTime after := by
  have hfloor := Int.floor_le (zone.history.localTime after / 86400)
  have hday : d + 1 - 719163 ≤ ⌊zone.history.localTime after / 86400⌋ := by
    unfold date at h
    omega
  have hcast : ((d : Time) + 1 - 719163) ≤ ⌊zone.history.localTime after / 86400⌋ := by
    exact_mod_cast hday
  have hh : (hour : Time) ≤ 23 := by exact_mod_cast Nat.le_of_lt_succ hhour
  have hm : (minute : Time) ≤ 59 := by exact_mod_cast Nat.le_of_lt_succ hminute
  have hle := (le_div_iff₀ (by norm_num : (0 : Time) < 86400)).mp (le_trans hcast hfloor)
  unfold wall
  linarith

end TimeZone

/-- The calendar of a table of zones. -/
def zoneCalendar (zones : String → Option TimeZone) : Calendar where
  valid name := (zones name).isSome
  day name after := ((zones name).getD utcZone).date after
  wallTime name day hour minute :=
    ((zones name).getD utcZone).history.resolve (TimeZone.wall day hour minute)
  later name hour minute day after := by
    obtain ⟨n, hn⟩ := exists_nat_gt (after / 86400 - day + 719164)
    refine ⟨n, fun k hk => ?_⟩
    have hle : (n : Time) ≤ k := by exact_mod_cast hk
    have hpos : (0 : Time) ≤ hour * 3600 + minute * 60 := by positivity
    have hlt : after / 86400 < day + k - 719164 := by linarith
    have hmul := (div_lt_iff₀ (by norm_num : (0 : Time) < 86400)).mp hlt
    have hres := TimeZone.sub_lt_resolve ((zones name).getD utcZone)
      (TimeZone.wall (day + k) hour minute)
    refine lt_trans ?_ hres
    unfold TimeZone.wall
    push_cast
    linarith

/-- The wall time of a periodic schedule, and the local dates it allows. -/
structure PeriodicRule where
  hour : Nat
  minute : Nat
  timezone : Option String
  allows : Int → Prop

def Schedule.rule : Schedule → Option PeriodicRule
  | .daily s => some ⟨s.hour, s.minute, s.timezone, fun _ => True⟩
  | .weekly s => some ⟨s.hour, s.minute, s.timezone, fun day => isoweekday day ∈ s.weekdays⟩
  | _ => none

/-- The instants after the given one that an allowed date resolves to. -/
def PeriodicRule.instants (cal : Calendar) (rule : PeriodicRule) (name : String) (after : Time) :
    Set Time :=
  { t | ∃ day, rule.allows day ∧ cal.wallTime name day rule.hour rule.minute = t ∧ after < t }

/-- The search returns the first date from the local one on that resolves late enough. -/
theorem nextRunAt_search (cal : Calendar) {schedule : Schedule} {rule : PeriodicRule}
    (hrule : schedule.rule = some rule) {script : Option String} {name : String}
    (hzone : validateTimezone cal rule.timezone script = .ok name) (after : Time) :
    ∃ day, cal.day name after ≤ day ∧ rule.allows day ∧
      after < cal.wallTime name day rule.hour rule.minute ∧
      nextRunAt cal schedule after script =
        .ok (cal.wallTime name day rule.hour rule.minute) ∧
      ∀ earlier, cal.day name after ≤ earlier → earlier < day → rule.allows earlier →
        cal.wallTime name earlier rule.hour rule.minute ≤ after := by
  cases schedule with
  | after | once | interval => cases hrule
  | daily s =>
    cases hrule
    have hex := cal.exists_day name s.hour s.minute (cal.day name after) after
    refine ⟨cal.day name after + Nat.find hex, by omega, trivial, Nat.find_spec hex, ?_, ?_⟩
    · change (validateTimezone cal s.timezone script >>= fun zone => _) = _
      rw [hzone]
      rfl
    · intro earlier hge hlt _
      have hnot := Nat.find_min hex (m := (earlier - cal.day name after).toNat) (by omega)
      have heq : cal.day name after + ((earlier - cal.day name after).toNat : Int) = earlier := by
        omega
      rw [heq] at hnot
      exact not_lt.mp hnot
  | weekly s =>
    cases hrule
    have hex := cal.exists_weekday s.nonempty s.validWeekdays name s.hour s.minute
      (cal.day name after) after
    obtain ⟨hallows, hlate⟩ := Nat.find_spec hex
    refine ⟨cal.day name after + Nat.find hex, by omega, hallows, hlate, ?_, ?_⟩
    · change (validateTimezone cal s.timezone script >>= fun zone => _) = _
      rw [hzone]
      rfl
    · intro earlier hge hlt hallowed
      have hnot := Nat.find_min hex (m := (earlier - cal.day name after).toNat) (by omega)
      have heq : cal.day name after + ((earlier - cal.day name after).toNat : Int) = earlier := by
        omega
      rw [heq] at hnot
      exact not_lt.mp fun hlate => hnot ⟨hallowed, hlate⟩

/-- No allowed date in a gap is moved past the search: not one before the local date
of `after`, and not the first one found. -/
structure PeriodicRule.InOrder (rule : PeriodicRule) (zone : TimeZone) (after : Time) : Prop where
  passed : ∀ d, rule.allows d → d < zone.date after →
    zone.history.Skipped (TimeZone.wall d rule.hour rule.minute) →
    after < zone.history.resolve (TimeZone.wall d rule.hour rule.minute) →
    ∃ e, zone.date after ≤ e ∧ rule.allows e ∧
      after < zone.history.resolve (TimeZone.wall e rule.hour rule.minute) ∧
      zone.history.resolve (TimeZone.wall e rule.hour rule.minute) ≤
        zone.history.resolve (TimeZone.wall d rule.hour rule.minute)
  overtaken : ∀ d e, rule.allows d → rule.allows e → zone.date after ≤ d → d < e →
    zone.history.Skipped (TimeZone.wall d rule.hour rule.minute) →
    after < zone.history.resolve (TimeZone.wall d rule.hour rule.minute) →
    after < zone.history.resolve (TimeZone.wall e rule.hour rule.minute) →
    (∀ c, rule.allows c → zone.date after ≤ c → c < d →
      zone.history.resolve (TimeZone.wall c rule.hour rule.minute) ≤ after) →
    zone.history.resolve (TimeZone.wall d rule.hour rule.minute) ≤
      zone.history.resolve (TimeZone.wall e rule.hour rule.minute)

/-- The search ends, and what it returns is the first instant of the schedule exactly when
no allowed date is moved past it by a gap. -/
theorem nextRunAt_isLeast_iff (zones : String → Option TimeZone) {schedule : Schedule}
    {rule : PeriodicRule} (hrule : schedule.rule = some rule) (hhour : rule.hour < 24)
    (hminute : rule.minute < 60) {script : Option String} {name : String} {zone : TimeZone}
    (hzone : validateTimezone (zoneCalendar zones) rule.timezone script = .ok name)
    (hname : zones name = some zone) (after : Time) :
    ∃ next, nextRunAt (zoneCalendar zones) schedule after script = .ok next ∧
      (IsLeast (rule.instants (zoneCalendar zones) name after) next ↔
        rule.InOrder zone after) := by
  obtain ⟨day, hge, hallows, hlate, hrun, hfirst⟩ :=
    nextRunAt_search (zoneCalendar zones) hrule hzone after
  have hday : (zoneCalendar zones).day name after = zone.date after := by
    simp [zoneCalendar, hname]
  have hwall : ∀ d, (zoneCalendar zones).wallTime name d rule.hour rule.minute =
      zone.history.resolve (TimeZone.wall d rule.hour rule.minute) := by
    intro d
    simp [zoneCalendar, hname]
  refine ⟨_, hrun, ?_⟩
  simp only [PeriodicRule.instants, hday, hwall] at hge hlate hfirst ⊢
  constructor
  · rintro ⟨-, hleast⟩
    refine ⟨fun d hd _ _ hlate' => ⟨day, hge, hallows, hlate, hleast ⟨d, hd, rfl, hlate'⟩⟩, ?_⟩
    intro d e hd he hged hlt _ hlated hlatee hnone
    -- the search stops at the first date that is late enough
    have hdeq : d = day := by
      rcases lt_trichotomy d day with h | h | h
      · exact absurd (hfirst d hged h hd) (not_le.mpr hlated)
      · exact h
      · exact absurd (hnone day hallows hge h) (not_le.mpr hlate)
    rw [hdeq]
    exact hleast ⟨e, he, rfl, hlatee⟩
  · intro hord
    refine ⟨⟨day, hallows, rfl, hlate⟩, ?_⟩
    have hfrom : ∀ e, rule.allows e → zone.date after ≤ e →
        after < zone.history.resolve (TimeZone.wall e rule.hour rule.minute) →
        zone.history.resolve (TimeZone.wall day rule.hour rule.minute) ≤
          zone.history.resolve (TimeZone.wall e rule.hour rule.minute) := by
      intro e he hgee hlatee
      rcases lt_trichotomy e day with h | h | h
      · exact absurd (hfirst e hgee h he) (not_le.mpr hlatee)
      · rw [h]
      · by_contra hlt
        have hskip := zone.history.skipped_of_overtaken
          (TimeZone.wall_mono (le_of_lt h) rule.hour rule.minute) (not_le.mp hlt)
        exact hlt (hord.overtaken day e hallows he hge h hskip hlate hlatee
          fun c hc hgec hltc => hfirst c hgec hltc hc)
    rintro t ⟨e, he, rfl, hlatee⟩
    by_cases hgee : zone.date after ≤ e
    · exact hfrom e he hgee hlatee
    · have hpassed := zone.wall_lt_localTime hhour hminute (not_le.mp hgee)
      have hskip := zone.history.skipped_of_passed hpassed hlatee
      obtain ⟨e', hge', he', hlate', hle⟩ := hord.passed e he (not_le.mp hgee) hskip hlatee
      exact le_trans (hfrom e' he' hge' hlate') hle

def morning : DailySchedule :=
  ⟨9, 0, some "UTC"⟩

/-- Without transitions nothing is moved. -/
theorem nextRunAt_isLeast_iff_utc : ∃ next,
    nextRunAt (zoneCalendar fun _ => some utcZone) (.daily morning) 0 none = .ok next ∧
      IsLeast (PeriodicRule.instants (zoneCalendar fun _ => some utcZone)
        ⟨9, 0, some "UTC", fun _ => True⟩ "UTC" 0) next := by
  have hzone : validateTimezone (zoneCalendar fun _ => some utcZone) (some "UTC") none =
      .ok "UTC" := by decide
  obtain ⟨next, hrun, hiff⟩ := @nextRunAt_isLeast_iff (fun _ => some utcZone) (.daily morning)
    ⟨9, 0, some "UTC", fun _ => True⟩ rfl (by decide) (by decide) none "UTC" utcZone hzone rfl 0
  exact ⟨next, hrun, hiff.mpr ⟨fun _ _ _ hskip => hskip.elim, fun _ _ _ _ _ _ hskip => hskip.elim⟩⟩

/-- A clock that jumps from 23:30 to 00:30 of the next day. -/
def midnightGap : TimeZone where
  history := ⟨-18000, [(102600, -14400)], List.pairwise_singleton _ _⟩
  initial := by norm_num [abs_lt]
  bounded := by
    intro c hc
    rw [List.mem_singleton.mp hc]
    norm_num [abs_lt]

def lateCheck : DailySchedule :=
  ⟨23, 45, none⟩

/-- Five minutes after the jump the search starts at the next date, and the skipped 23:45,
ten minutes ahead, is passed over for that of the day. -/
theorem nextRunAt_passes_over_gap : ∃ next,
    nextRunAt (zoneCalendar fun _ => some midnightGap) (.daily lateCheck) 102900
      (some "America/Toronto") = .ok next ∧
    ¬ IsLeast (PeriodicRule.instants (zoneCalendar fun _ => some midnightGap)
      ⟨23, 45, none, fun _ => True⟩ "America/Toronto" 102900) next := by
  have hzone : validateTimezone (zoneCalendar fun _ => some midnightGap) none
      (some "America/Toronto") = .ok "America/Toronto" := by decide
  obtain ⟨day, hge, -, -, hrun, -⟩ := @nextRunAt_search (zoneCalendar fun _ => some midnightGap)
    (.daily lateCheck) ⟨23, 45, none, fun _ => True⟩ rfl (some "America/Toronto")
    "America/Toronto" hzone 102900
  refine ⟨_, hrun, fun hleast => ?_⟩
  have hday : (719164 : Int) ≤ day := by
    refine le_trans ?_ hge
    norm_num [zoneCalendar, TimeZone.date, OffsetHistory.localTime, OffsetHistory.offsetFrom,
      midnightGap, Int.le_floor]
  have hcast : (719164 : Time) ≤ day := by exact_mod_cast hday
  have hskipped : (103500 : Time) ∈ PeriodicRule.instants
      (zoneCalendar fun _ => some midnightGap) ⟨23, 45, none, fun _ => True⟩ "America/Toronto"
      102900 := by
    refine ⟨719163, trivial, ?_, by norm_num⟩
    norm_num [zoneCalendar, TimeZone.wall, OffsetHistory.resolve, OffsetHistory.resolveFrom,
      midnightGap]
  have hle := hleast.2 hskipped
  have hlate : ¬ TimeZone.wall day 23 45 < 102600 + max (-18000 : Time) (-14400) := by
    unfold TimeZone.wall
    norm_num
    linarith
  simp only [zoneCalendar, Option.getD_some, OffsetHistory.resolve, midnightGap,
    OffsetHistory.resolveFrom, if_neg hlate] at hle
  unfold TimeZone.wall at hle
  norm_num at hle
  linarith

end Yuki
