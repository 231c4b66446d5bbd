import Yuki.Runtime.Heartbeat

/-! A supervised activity: its task runs a body while a pulse renews the lease. The pulse's
failure cancels the task, and so may anybody else. -/

namespace Yuki.LeaseHeartbeat

open Persistence

/-- How the body ends, or what is around it. -/
inductive Exit
  | returned
  | cancelledError
  | raised (error : Error)
deriving DecidableEq

/-- The task: `cancelling()`, and whether a `CancelledError` is on its way to it. -/
structure Owner where
  cancelling : Nat
  pending : Bool

def Owner.cancel (o : Owner) : Owner :=
  ⟨o.cancelling + 1, true⟩

def Owner.uncancel (o : Owner) : Owner :=
  { o with cancelling := o.cancelling - 1 }

/-- The task goes on, with the `CancelledError` if one was on its way. -/
def Owner.resume (o : Owner) : Owner :=
  { o with pending := false }

def Phase.done : Phase → Bool
  | .ended _ => true
  | _ => false

def Phase.cancelled : Phase → Bool
  | .ended .cancelled => true
  | _ => false

/-- The exception of a pulse that failed. -/
def Phase.exception? : Phase → Option Error
  | .ended (.failed error) => some error
  | _ => none

/-- `await pulse`, unless it would wait. -/
def Phase.result? : Phase → Option Exit
  | .ended (.failed error) => some (.raised error)
  | .ended .cancelled => some .cancelledError
  | _ => none

/-- Where the task is: in the body, at an await of the body, at the last await, or gone. -/
inductive Stage
  | running | waiting
  | gather (exit : Exit)
  | left (exit : Exit)
deriving DecidableEq

/-- The end of the body, and what was so then. -/
structure BodyEnd where
  exit : Exit
  pulse : Phase
  called : Bool
  pending : Bool
  outside : Nat

/-- The activity; `called` is whether the done callback has run or was removed. The number of
cancellations from outside and the end of the body are kept as history. -/
structure Supervised where
  heart : Heart
  owner : Owner
  called : Bool
  interrupted : Bool
  active : Bool
  stage : Stage
  outside : Nat
  body : Option BodyEnd

/-- The activity as its body starts. -/
def entered (now stored : Time) : Supervised where
  heart := .start now stored
  owner := ⟨0, false⟩
  called := false
  interrupted := false
  active := true
  stage := .running
  outside := 0
  body := none

/-- The done callback of the pulse. -/
def failed (s : Supervised) : Supervised :=
  if s.active && !s.heart.phase.cancelled && s.heart.phase.exception?.isSome then
    { s with called := true, interrupted := true, owner := s.owner.cancel }
  else { s with called := true }

/-- `except CancelledError` and `else`: what the body's end becomes, unless they would wait. -/
def unwound (s : Supervised) : Exit → Supervised × Option Exit
  | .cancelledError =>
    let s := { s with active := false }
    if s.interrupted then
      let s := { s with owner := s.owner.uncancel, interrupted := false }
      if s.owner.cancelling = 0 then (s, s.heart.phase.result?) else (s, some .cancelledError)
    else (s, some .cancelledError)
  | .returned =>
    let s := { s with active := false }
    (s, if s.heart.phase.done && !s.heart.phase.cancelled then s.heart.phase.result?
      else some .returned)
  | .raised error => (s, some (.raised error))

/-- `finally`, behind its await. -/
def released (s : Supervised) (exit : Exit) : Supervised :=
  { s with owner := if s.interrupted then s.owner.uncancel else s.owner, stage := .left exit }

/-- `finally`: a `gather` over a pulse that is done is done at once. -/
def cleaned (s : Supervised) (exit : Exit) : Supervised :=
  let s := { s with active := false, called := true }
  if s.heart.phase.done then released s exit else { s with stage := .gather exit }

/-- The task goes on behind the `gather`. -/
def gathered (s : Supervised) (exit : Exit) : Supervised :=
  if s.owner.pending then { s with owner := s.owner.resume, stage := .left .cancelledError }
  else released s exit

/-- The body ends. -/
def Supervised.ending (s : Supervised) (exit : Exit) : BodyEnd :=
  ⟨exit, s.heart.phase, s.called, s.owner.pending, s.outside⟩

/-- The pulse and its callback run while the task waits; the body may end in any way, whatever has
been delivered to it, and cancellations may come at any time, also from the body. -/
inductive Step (seconds interval : Time) : Supervised → Supervised → Prop
  | pulse (s : Supervised) (heart : Heart) (beat : Beat seconds interval s.heart heart)
      (suspended : s.stage = .waiting ∨ ∃ exit, s.stage = .gather exit) :
      Step seconds interval s { s with heart }
  | callback (s : Supervised) (suspended : s.stage = .waiting) (done : s.heart.phase.done = true)
      (scheduled : s.called = false) : Step seconds interval s (failed s)
  | cancel (s : Supervised) (inside : ∀ exit, s.stage ≠ .left exit) :
      Step seconds interval s { s with owner := s.owner.cancel, outside := s.outside + 1 }
  | suspend (s : Supervised) (running : s.stage = .running) :
      Step seconds interval s { s with stage := .waiting }
  | resume (s : Supervised) (suspended : s.stage = .waiting) :
      Step seconds interval s { s with owner := s.owner.resume, stage := .running }
  | finish (s s' : Supervised) (exit left : Exit) (running : s.stage = .running)
      (unwinds : unwound s exit = (s', some left)) :
      Step seconds interval s (cleaned { s' with body := some (s.ending exit) } left)
  | gather (s : Supervised) (exit : Exit) (suspended : s.stage = .gather exit)
      (done : s.heart.phase.done = true) : Step seconds interval s (gathered s exit)

/-- What is promised of the end: it is normal only over a pulse that had not failed, a failure is
not hidden by a `CancelledError` of nobody, cancellations from outside are not lost, and those of
the supervisor are taken back. -/
structure Promised (s : Supervised) (body : BodyEnd) (exit : Exit) : Prop where
  normal : exit = .returned → body.exit = .returned ∧ body.pulse.exception? = none
  exposed : ∀ error, body.pulse.exception? = some error → s.outside = 0 →
    exit = .raised error ∨ ∃ error', body.exit = .raised error' ∧ exit = .raised error'
  passed : body.exit = .cancelledError → 0 < body.outside → exit = .cancelledError
  held : body.pending = true → exit = .cancelledError ∨ s.owner.pending = true
  late : body.outside < s.outside → exit = .cancelledError
  balanced : s.owner.cancelling = s.outside
  quiet : s.owner.pending = true → 0 < s.outside

/-- The body ends with a `CancelledError` that nobody sent to its task, when the pulse has failed
and its callback has not run. -/
def BodyEnd.Missed (body : BodyEnd) : Prop :=
  body.exit = .cancelledError ∧ body.outside = 0 ∧ body.called = false ∧
    body.pulse.exception?.isSome = true

variable {seconds interval now stored : Time} {s s' : Supervised} {exit left : Exit}

/-! While the body runs. -/

/-- The supervisor has sent one cancellation if its callback has met a failure, and none else. -/
structure Inside (s : Supervised) : Prop where
  active : s.active = true
  balanced : s.owner.cancelling = s.outside + if s.interrupted then 1 else 0
  pending : s.owner.pending = true → 0 < s.outside ∨ s.stage = .waiting
  called : s.called = true → s.heart.phase.done = true ∧
    (s.heart.phase.exception?.isSome = true → s.interrupted = true)
  interrupted : s.interrupted = true → s.called = true ∧ s.heart.phase.exception?.isSome = true

theorem inside_entered : Inside (entered now stored) :=
  ⟨rfl, rfl, nofun, nofun, nofun⟩

/-- A pulse that is done stays as it is. -/
theorem phase_beat {h h' : Heart} (hbeat : Beat seconds interval h h')
    (hdone : h.phase.done = true) : h'.phase = h.phase := by
  cases hphase : h.phase with
  | ended ending =>
    cases hbeat with
    | tick => exact hphase
    | expiry hreading => exact absurd (hreading.symm.trans hphase) (by simp)
    | lost hreading => exact absurd (hreading.symm.trans hphase) (by simp)
    | unread hreading => exact absurd (hreading.symm.trans hphase) (by simp)
    | wake d nap hasleep => exact absurd (hasleep.symm.trans hphase) (by simp)
    | write d started dl hout => exact absurd (hout.symm.trans hphase) (by simp)
    | answer d started dl written hout => exact absurd (hout.symm.trans hphase) (by simp)
    | resume d pause dl hpaused => exact absurd (hpaused.symm.trans hphase) (by simp)
    | cancel hruns => exact absurd hphase (hruns ending)
  | expiry | sleep | renew | backoff => rw [hphase] at hdone; cases hdone

theorem done_of_exception {phase : Phase} (h : phase.exception?.isSome = true) :
    phase.done = true ∧ phase.cancelled = false := by
  cases phase with
  | ended ending =>
    cases ending with
    | cancelled => cases h
    | failed error => exact ⟨rfl, rfl⟩
  | expiry | sleep | renew | backoff => cases h

theorem result_of_exception {phase : Phase} {error : Error} (h : phase.exception? = some error) :
    phase.result? = some (.raised error) := by
  cases phase with
  | ended ending =>
    cases ending with
    | cancelled => cases h
    | failed e => exact congrArg (fun e => some (Exit.raised e)) (Option.some.inj h)
  | expiry | sleep | renew | backoff => cases h

theorem exception_of_done {phase : Phase} (hdone : phase.done = true)
    (hcancelled : phase.cancelled = false) : ∃ error, phase.exception? = some error := by
  cases phase with
  | ended ending =>
    cases ending with
    | cancelled => cases hcancelled
    | failed error => exact ⟨error, rfl⟩
  | expiry | sleep | renew | backoff => cases hdone

theorem inside_pulse {heart : Heart} (hs : Inside s) (hbeat : Beat seconds interval s.heart heart) :
    Inside { s with heart } := by
  have hphase : s.heart.phase.done = true → heart.phase = s.heart.phase := phase_beat hbeat
  refine ⟨hs.active, hs.balanced, hs.pending, fun hcalled => ?_, fun hinterrupted => ?_⟩
  · have hdone := hs.called hcalled
    rw [show ({ s with heart } : Supervised).heart.phase = s.heart.phase from hphase hdone.1]
    exact hdone
  · obtain ⟨hcalled, hfailed⟩ := hs.interrupted hinterrupted
    refine ⟨hcalled, ?_⟩
    rw [show ({ s with heart } : Supervised).heart.phase = s.heart.phase from
      hphase (done_of_exception hfailed).1]
    exact hfailed

/-- The callback interrupts the task exactly when the pulse has failed. -/
theorem inside_failed (hs : Inside s) (hwaiting : s.stage = .waiting)
    (hdone : s.heart.phase.done = true) (hcalled : s.called = false) : Inside (failed s) := by
  have hquiet : s.interrupted = false := by
    cases h : s.interrupted with
    | false => rfl
    | true => exact absurd ((hs.interrupted h).1.symm.trans hcalled) (by simp)
  have hbalanced := hs.balanced
  rw [hquiet] at hbalanced
  unfold failed
  split
  · rename_i hfailed
    simp only [Bool.and_eq_true] at hfailed
    exact ⟨hs.active, congrArg (· + 1) hbalanced, fun _ => Or.inr hwaiting,
      fun _ => ⟨hdone, fun _ => rfl⟩, fun _ => ⟨rfl, hfailed.2⟩⟩
  · rename_i hfailed
    refine ⟨hs.active, by rw [hbalanced, hquiet], hs.pending, fun _ => ⟨hdone, fun hsome => ?_⟩,
      fun h => absurd (hquiet.symm.trans h) (by simp)⟩
    exact absurd (by simp [hs.active, (done_of_exception hsome).2, hsome]) hfailed

/-! The end of the body. -/

/-- What the `except` and `else` parts make of the end of the body. -/
structure Unwound (s : Supervised) (exit : Exit) (s' : Supervised) (left : Exit) : Prop where
  heart : s'.heart = s.heart
  outside : s'.outside = s.outside
  pending : s'.owner.pending = s.owner.pending
  balanced : s'.owner.cancelling = s'.outside + if s'.interrupted then 1 else 0
  interrupted : s'.interrupted = true → s.interrupted = true
  normal : left = .returned → exit = .returned ∧ s.heart.phase.exception? = none
  exposed : ∀ error, s.heart.phase.exception? = some error → s.outside = 0 →
    exit = .cancelledError → s.called = true → left = .raised error
  returned : ∀ error, s.heart.phase.exception? = some error → exit = .returned →
    left = .raised error
  raised : ∀ error, exit = .raised error → left = exit
  passed : exit = .cancelledError → 0 < s.outside ∨ s.called = false → left = .cancelledError
  same : s.heart.phase.exception? = none → left = exit

theorem unwound_cancelledError (hs : Inside s)
    (h : unwound s .cancelledError = (s', some left)) : Unwound s .cancelledError s' left := by
  have hbalanced := hs.balanced
  unfold unwound at h
  dsimp only at h
  split at h
  · rename_i hinterrupted
    obtain ⟨hcalled, hsome⟩ := hs.interrupted hinterrupted
    obtain ⟨error, herror⟩ := Option.isSome_iff_exists.mp hsome
    rw [if_pos hinterrupted] at hbalanced
    have hcount : s.owner.uncancel.cancelling = s.outside := by
      unfold Owner.uncancel
      dsimp only
      omega
    split at h
    · rename_i hzero
      rw [result_of_exception herror] at h
      obtain ⟨rfl, hleft⟩ := Prod.mk.inj h
      obtain rfl := Option.some.inj hleft
      rw [hcount] at hzero
      refine ⟨rfl, rfl, rfl, hcount, nofun, nofun,
        fun e he _ _ _ => ?_, nofun, nofun, fun _ hor => ?_,
        fun hnone => ?_⟩
      · exact congrArg Exit.raised (Option.some.inj (herror.symm.trans he))
      · rcases hor with hpos | hnot
        · omega
        · exact absurd (hcalled.symm.trans hnot) (by simp)
      · exact absurd (herror.symm.trans hnone) (by simp)
    · rename_i hzero
      obtain ⟨rfl, hleft⟩ := Prod.mk.inj h
      obtain rfl := Option.some.inj hleft
      rw [hcount] at hzero
      exact ⟨rfl, rfl, rfl, hcount, nofun, nofun,
        fun _ _ h0 _ _ => absurd h0 hzero, nofun, nofun,
        fun _ _ => rfl, fun _ => rfl⟩
  · rename_i hinterrupted
    obtain ⟨rfl, hleft⟩ := Prod.mk.inj h
    obtain rfl := Option.some.inj hleft
    refine ⟨rfl, rfl, rfl, hbalanced, fun hi => hi, nofun, fun e he _ _ hcalled => ?_,
      nofun, nofun, fun _ _ => rfl, fun _ => rfl⟩
    exact absurd ((hs.called hcalled).2 (Option.isSome_of_mem he)) hinterrupted

theorem unwound_returned (hs : Inside s) (h : unwound s .returned = (s', some left)) :
    Unwound s .returned s' left := by
  obtain ⟨rfl, hleft⟩ := Prod.mk.inj h
  cases hfailed : s.heart.phase.exception? with
  | some error =>
    obtain ⟨hdone, hnot⟩ := done_of_exception (Option.isSome_of_mem hfailed)
    rw [if_pos (by simp [hdone, hnot]), result_of_exception hfailed] at hleft
    obtain rfl := Option.some.inj hleft
    exact ⟨rfl, rfl, rfl, hs.balanced, fun hi => hi, nofun,
      nofun,
      fun e he _ => congrArg Exit.raised (Option.some.inj (hfailed.symm.trans he)),
      nofun, nofun, fun hnone => absurd (hfailed.symm.trans hnone)
        (by simp)⟩
  | none =>
    have hcond : ¬ (s.heart.phase.done && !s.heart.phase.cancelled) = true := by
      intro hand
      simp only [Bool.and_eq_true, Bool.not_eq_true'] at hand
      obtain ⟨e, he⟩ := exception_of_done hand.1 hand.2
      exact absurd (hfailed.symm.trans he) (by simp)
    rw [if_neg hcond] at hleft
    obtain rfl := Option.some.inj hleft
    exact ⟨rfl, rfl, rfl, hs.balanced, fun hi => hi, fun _ => ⟨rfl, hfailed⟩,
      nofun, fun e he _ => absurd (hfailed.symm.trans he) (by simp),
      nofun, nofun, fun _ => rfl⟩

theorem unwound_raised {error : Error} (hs : Inside s)
    (h : unwound s (.raised error) = (s', some left)) : Unwound s (.raised error) s' left := by
  obtain ⟨rfl, hleft⟩ := Prod.mk.inj h
  obtain rfl := Option.some.inj hleft
  exact ⟨rfl, rfl, rfl, hs.balanced, fun hi => hi, nofun,
    nofun, nofun, fun _ _ => rfl, nofun,
    fun _ => rfl⟩

theorem unwound_spec (hs : Inside s) (h : unwound s exit = (s', some left)) :
    Unwound s exit s' left := by
  cases exit with
  | returned => exact unwound_returned hs h
  | cancelledError => exact unwound_cancelledError hs h
  | raised error => exact unwound_raised hs h

/-- No await before the `finally` waits. -/
theorem unwound_isSome (hs : Inside s) (exit : Exit) :
    ∃ s' left, unwound s exit = (s', some left) := by
  cases exit with
  | raised error => exact ⟨_, _, rfl⟩
  | returned =>
    unfold unwound
    dsimp only
    split
    · rename_i hdone
      simp only [Bool.and_eq_true, Bool.not_eq_true'] at hdone
      obtain ⟨error, herror⟩ := exception_of_done hdone.1 hdone.2
      exact ⟨_, .raised error, by rw [result_of_exception herror]⟩
    · exact ⟨_, _, rfl⟩
  | cancelledError =>
    unfold unwound
    dsimp only
    split
    · rename_i hinterrupted
      obtain ⟨error, herror⟩ := Option.isSome_iff_exists.mp (hs.interrupted hinterrupted).2
      split
      · exact ⟨_, .raised error, by rw [result_of_exception herror]⟩
      · exact ⟨_, _, rfl⟩
    · exact ⟨_, _, rfl⟩

/-! The last await. -/

/-- The pulse had not failed, and what has come since is on its way. -/
structure Gathering (s : Supervised) (exit : Exit) (body : BodyEnd) : Prop where
  kept : s.body = some body
  same : body.exit = exit
  unfailed : body.pulse.exception? = none
  late : body.outside < s.outside → s.owner.pending = true
  held : body.pending = true → s.owner.pending = true
  interrupted : s.interrupted = false
  balanced : s.owner.cancelling = s.outside
  pending : s.owner.pending = true → 0 < s.outside

/-- What every run keeps. -/
def Kept (s : Supervised) : Prop :=
  match s.stage with
  | .running | .waiting => Inside s
  | .gather exit => ∃ body, Gathering s exit body
  | .left exit => ∃ body, s.body = some body ∧ (Promised s body exit ↔ ¬ body.Missed)

theorem balanced_released {owner : Owner} {interrupted : Bool} {outside : Nat}
    (h : owner.cancelling = outside + if interrupted then 1 else 0) :
    (if interrupted then owner.uncancel else owner).cancelling = outside := by
  cases interrupted with
  | false => exact h
  | true =>
    rw [if_pos rfl] at h ⊢
    unfold Owner.uncancel
    dsimp only
    omega

theorem pending_released (owner : Owner) (interrupted : Bool) :
    (if interrupted then owner.uncancel else owner).pending = owner.pending := by
  cases interrupted <;> rfl

theorem exit_cases (exit : Exit) :
    exit = .returned ∨ exit = .cancelledError ∨ ∃ error, exit = .raised error := by
  cases exit with
  | returned => exact Or.inl rfl
  | cancelledError => exact Or.inr (Or.inl rfl)
  | raised error => exact Or.inr (Or.inr ⟨error, rfl⟩)

/-- Over a pulse that is done the body's end is the end of all. -/
theorem promised_released_iff (hs : Inside s) (hrunning : s.stage = .running)
    (h : Unwound s exit s' left) :
    Promised (released { s' with active := false, called := true, body := some (s.ending exit) }
      left) (s.ending exit) left ↔ ¬ (s.ending exit).Missed := by
  have hpending : s'.owner.pending = true → 0 < s'.outside := by
    intro hp
    rw [h.pending] at hp
    rw [h.outside]
    exact (hs.pending hp).resolve_right (by simp [hrunning])
  constructor
  · rintro hpromised ⟨hexit, houtside, hcalled, hsome⟩
    obtain ⟨error, herror⟩ := Option.isSome_iff_exists.mp hsome
    have hleft := h.passed hexit (Or.inr hcalled)
    rcases hpromised.exposed error herror (h.outside.trans houtside) with hraised | ⟨e, he, _⟩
    · exact absurd (hleft.symm.trans hraised) (by simp)
    · exact absurd (hexit.symm.trans he) (by simp)
  · intro hmissed
    refine ⟨h.normal, fun error herror hzero => ?_, fun hexit hpos => h.passed hexit (Or.inl hpos),
      fun hp => Or.inr ?_, fun hlate => ?_, balanced_released h.balanced, fun hp => hpending ?_⟩
    · have houtside : s.outside = 0 := h.outside.symm.trans hzero
      rcases exit_cases exit with hexit | hexit | ⟨e, hexit⟩
      · exact Or.inl (h.returned error herror hexit)
      · cases hcalled : s.called with
        | true => exact Or.inl (h.exposed error herror houtside hexit hcalled)
        | false =>
          exact absurd ⟨hexit, houtside, hcalled, Option.isSome_of_mem herror⟩ hmissed
      · exact Or.inr ⟨e, hexit, (h.raised e hexit).trans hexit⟩
    · exact (pending_released _ _).trans (h.pending.trans hp)
    · exact absurd hlate (Nat.not_lt.mpr (le_of_eq h.outside))
    · exact (pending_released _ _).symm.trans hp

theorem kept_finish (hs : Inside s) (hrunning : s.stage = .running)
    (h : unwound s exit = (s', some left)) :
    Kept (cleaned { s' with body := some (s.ending exit) } left) := by
  have hspec := unwound_spec hs h
  unfold cleaned
  dsimp only
  split
  · exact ⟨_, rfl, promised_released_iff hs hrunning hspec⟩
  · rename_i hdone
    rw [hspec.heart] at hdone
    have hunfailed : s.heart.phase.exception? = none := by
      by_contra hsome
      exact hdone (done_of_exception (Option.isSome_iff_ne_none.mpr hsome)).1
    have hinterrupted : s'.interrupted = false := by
      by_contra hi
      have hsome := (hs.interrupted (hspec.interrupted (by simpa using hi))).2
      exact hdone (done_of_exception hsome).1
    have hbalanced := hspec.balanced
    rw [hinterrupted] at hbalanced
    refine ⟨s.ending exit, rfl, (hspec.same hunfailed).symm, hunfailed, fun hlate => ?_,
      fun hp => hspec.pending.trans hp, hinterrupted, hbalanced, fun hp => ?_⟩
    · exact absurd hlate (Nat.not_lt.mpr (le_of_eq hspec.outside))
    · have hsent := (hs.pending (hspec.pending.symm.trans hp)).resolve_right (by simp [hrunning])
      exact hspec.outside ▸ hsent

theorem kept_gathered {body : BodyEnd} (hs : Gathering s exit body) :
    Kept (gathered s exit) := by
  have hmissed : ¬ body.Missed := by
    rintro ⟨_, _, _, hsome⟩
    exact absurd (hs.unfailed ▸ hsome) (by simp)
  have hexposed : ∀ error, body.pulse.exception? ≠ some error := fun error he =>
    absurd (hs.unfailed.symm.trans he) (by simp)
  unfold gathered
  split
  · refine ⟨body, hs.kept, iff_of_true ⟨nofun, fun e he => absurd he (hexposed e),
      fun _ _ => rfl, fun _ => Or.inl rfl, fun _ => rfl, hs.balanced, nofun⟩ hmissed⟩
  · rename_i hpending
    have howner : (released s exit).owner = s.owner := by
      unfold released
      rw [hs.interrupted]
      rfl
    refine ⟨body, hs.kept, iff_of_true ⟨fun hr => ⟨hs.same.trans hr, hs.unfailed⟩,
      fun e he => absurd he (hexposed e), fun hexit _ => hs.same.symm.trans hexit,
      fun hp => absurd (hs.held hp) hpending, fun hlate => absurd (hs.late hlate) hpending, ?_,
      fun hp => ?_⟩ hmissed⟩
    · rw [howner]
      exact hs.balanced
    · rw [howner] at hp
      exact absurd hp hpending

/-! Runs. -/

theorem kept_of_inside (hs : Inside s) (hstage : s.stage = .running ∨ s.stage = .waiting) :
    Kept s := by
  unfold Kept
  rcases hstage with hstage | hstage <;> rw [hstage] <;> exact hs

theorem inside_of_kept (hs : Kept s) (hstage : s.stage = .running ∨ s.stage = .waiting) :
    Inside s := by
  unfold Kept at hs
  rcases hstage with hstage | hstage <;> rw [hstage] at hs <;> exact hs

theorem gathering_of_kept (hs : Kept s) (hstage : s.stage = .gather exit) :
    ∃ body, Gathering s exit body := by
  unfold Kept at hs
  rwa [hstage] at hs

theorem stage_cases (stage : Stage) : (stage = .running ∨ stage = .waiting) ∨
    (∃ exit, stage = .gather exit) ∨ ∃ exit, stage = .left exit := by
  cases stage with
  | running => exact Or.inl (Or.inl rfl)
  | waiting => exact Or.inl (Or.inr rfl)
  | gather exit => exact Or.inr (Or.inl ⟨exit, rfl⟩)
  | left exit => exact Or.inr (Or.inr ⟨exit, rfl⟩)

theorem kept_cancel (hs : Kept s) (hinside : ∀ exit, s.stage ≠ .left exit) :
    Kept { s with owner := s.owner.cancel, outside := s.outside + 1 } := by
  have hbody : (s.stage = .running ∨ s.stage = .waiting) →
      Inside { s with owner := s.owner.cancel, outside := s.outside + 1 } := by
    intro hstage
    have hin := inside_of_kept hs hstage
    refine ⟨hin.active, ?_, fun _ => Or.inl (Nat.succ_pos _), hin.called, hin.interrupted⟩
    have hbalanced := hin.balanced
    unfold Owner.cancel
    dsimp only
    omega
  rcases stage_cases s.stage with hstage | ⟨exit, hstage⟩ | ⟨exit, hstage⟩
  · exact kept_of_inside (hbody hstage) hstage
  · obtain ⟨body, hg⟩ := gathering_of_kept hs hstage
    unfold Kept
    dsimp only
    rw [hstage]
    exact ⟨body, hg.kept, hg.same, hg.unfailed, fun _ => rfl, fun _ => rfl, hg.interrupted,
      congrArg (· + 1) hg.balanced, fun _ => Nat.succ_pos _⟩
  · exact absurd hstage (hinside exit)

theorem kept_pulse {heart : Heart} (hs : Kept s) (hbeat : Beat seconds interval s.heart heart)
    (hsuspended : s.stage = .waiting ∨ ∃ exit, s.stage = .gather exit) :
    Kept { s with heart } := by
  rcases hsuspended with hwaiting | ⟨exit, hgather⟩
  · exact kept_of_inside (inside_pulse (inside_of_kept hs (Or.inr hwaiting)) hbeat) (Or.inr hwaiting)
  · obtain ⟨body, hg⟩ := gathering_of_kept hs hgather
    unfold Kept
    dsimp only
    rw [hgather]
    exact ⟨body, hg.kept, hg.same, hg.unfailed, hg.late, hg.held, hg.interrupted, hg.balanced,
      hg.pending⟩

theorem stage_failed : (failed s).stage = s.stage := by
  unfold failed
  split <;> rfl

theorem kept_step (hs : Kept s) (hstep : Step seconds interval s s') : Kept s' := by
  cases hstep with
  | pulse heart hbeat hsuspended => exact kept_pulse hs hbeat hsuspended
  | callback hwaiting hdone hcalled =>
    have hin := inside_of_kept hs (Or.inr hwaiting)
    exact kept_of_inside (inside_failed hin hwaiting hdone hcalled)
      (Or.inr (stage_failed.trans hwaiting))
  | cancel hinside => exact kept_cancel hs hinside
  | suspend hrunning =>
    have hin := inside_of_kept hs (Or.inl hrunning)
    exact ⟨hin.active, hin.balanced, fun _ => Or.inr rfl, hin.called, hin.interrupted⟩
  | resume hwaiting =>
    have hin := inside_of_kept hs (Or.inr hwaiting)
    exact ⟨hin.active, hin.balanced, nofun, hin.called, hin.interrupted⟩
  | finish s₁ exit left hrunning hunwinds =>
    exact kept_finish (inside_of_kept hs (Or.inl hrunning)) hrunning hunwinds
  | gather exit hgather hdone =>
    obtain ⟨body, hg⟩ := gathering_of_kept hs hgather
    exact kept_gathered hg

theorem kept_run (hrun : Relation.ReflTransGen (Step seconds interval) (entered now stored) s) :
    Kept s := by
  induction hrun with
  | refl => exact inside_entered
  | tail _ hstep ih => exact kept_step ih hstep

theorem body_cleaned (s : Supervised) (exit : Exit) : (cleaned s exit).body = s.body := by
  unfold cleaned released
  dsimp only
  split <;> rfl

/-- In every run the body can end in any way: nothing before the `finally` waits. -/
theorem finish_enabled
    (hrun : Relation.ReflTransGen (Step seconds interval) (entered now stored) s)
    (hrunning : s.stage = .running) (exit : Exit) :
    ∃ s', Step seconds interval s s' ∧ s'.body = some (s.ending exit) := by
  obtain ⟨s₁, left, hunwinds⟩ := unwound_isSome (inside_of_kept (kept_run hrun) (Or.inl hrunning))
    exit
  exact ⟨_, .finish s s₁ exit left hrunning hunwinds, body_cleaned _ _⟩

theorem heart_cleaned (s : Supervised) (exit : Exit) : (cleaned s exit).heart = s.heart := by
  unfold cleaned released
  dsimp only
  split <;> rfl

theorem heart_unwound (h : unwound s exit = (s', some left)) : s'.heart = s.heart := by
  have hheart : (unwound s exit).1.heart = s.heart := by
    cases exit with
    | returned => rfl
    | raised error => rfl
    | cancelledError =>
      unfold unwound
      dsimp only
      repeat' split
      all_goals rfl
  rw [← hheart, h]

/-- Only the pulse moves the pulse. -/
theorem heart_step (hstep : Step seconds interval s s') :
    s'.heart = s.heart ∨ Beat seconds interval s.heart s'.heart := by
  cases hstep with
  | pulse heart hbeat hsuspended => exact Or.inr hbeat
  | callback hwaiting hdone hcalled =>
    refine Or.inl ?_
    unfold failed
    split <;> rfl
  | cancel hinside => exact Or.inl rfl
  | suspend hrunning => exact Or.inl rfl
  | resume hwaiting => exact Or.inl rfl
  | finish s₁ exit left hrunning hunwinds =>
    have hsame : s₁.heart = s.heart := heart_unwound hunwinds
    exact Or.inl ((heart_cleaned _ _).trans hsame)
  | gather exit hgather hdone =>
    refine Or.inl ?_
    unfold gathered released
    split <;> rfl

theorem heart_run (hrun : Relation.ReflTransGen (Step seconds interval) (entered now stored) s) :
    Relation.ReflTransGen (Beat seconds interval) (.start now stored) s.heart := by
  induction hrun with
  | refl => exact .refl
  | tail _ hstep ih =>
    rcases heart_step hstep with hsame | hbeat
    · exact hsame ▸ ih
    · exact ih.tail hbeat

/-- In every run the pulse knows its lease, and the promises are kept at the end exactly when the
body does not end with a `CancelledError` of its own between the failure of the pulse and its
callback. -/
theorem supervise_lease_promised_iff
    (hrun : Relation.ReflTransGen (Step seconds interval) (entered now stored) s) :
    s.heart.Known (stored ≤ now + seconds) ∧ ∀ exit, s.stage = .left exit →
      ∃ body, s.body = some body ∧ (Promised s body exit ↔ ¬ body.Missed) := by
  refine ⟨known_run (heart_run hrun), fun exit hleft => ?_⟩
  have hkept := kept_run hrun
  unfold Kept at hkept
  rwa [hleft] at hkept

/-- The read of the expiry fails. -/
def unreadable : Raised where
  typeName := "OperationalError"

/-- The activity at an await of its body, with the pulse failed and the callback to run. -/
def unnoticed : Supervised :=
  { entered 0 60 with
    heart := ⟨0, 60, .ended (.failed (.other unreadable))⟩
    stage := .waiting }

theorem unnoticed_reached : Relation.ReflTransGen (Step 60 15) (entered 0 60) unnoticed := by
  have hsuspend : Step 60 15 (entered 0 60) { entered 0 60 with stage := .waiting } :=
    .suspend _ rfl
  have hfail : Step 60 15 { entered 0 60 with stage := .waiting } unnoticed :=
    .pulse _ _ (.unread (.start 0 60) rfl unreadable) (Or.inl rfl)
  exact (Relation.ReflTransGen.single hsuspend).tail hfail

/-- The callback interrupts the body, and the failure of the pulse is what the activity ends
with. -/
theorem supervise_lease_promised_iff_unreadable :
    ∃ s, Relation.ReflTransGen (Step 60 15) (entered 0 60) s ∧
      s.stage = .left (.raised (.other unreadable)) ∧ s.heart.Known ((60 : Time) ≤ 0 + 60) ∧
      ∀ exit, s.stage = .left exit →
        ∃ body, s.body = some body ∧ (Promised s body exit ↔ ¬ body.Missed) := by
  have hcallback : Step 60 15 unnoticed (failed unnoticed) := .callback _ rfl rfl rfl
  have hresume : Step 60 15 (failed unnoticed) _ := .resume _ rfl
  have hfinish : Step 60 15
      { failed unnoticed with owner := (failed unnoticed).owner.resume, stage := .running } _ :=
    .finish _ _ .cancelledError (.raised (.other unreadable)) rfl rfl
  have hrun := ((unnoticed_reached.tail hcallback).tail hresume).tail hfinish
  exact ⟨_, hrun, rfl, supervise_lease_promised_iff hrun⟩

/-- A task the body waits for is cancelled as the pulse fails, and the body goes on with its
`CancelledError` before the callback runs: nobody has cancelled the activity, and yet that is what
it ends with. -/
theorem supervise_lease_hides_failure :
    ∃ s body, Relation.ReflTransGen (Step 60 15) (entered 0 60) s ∧
      s.stage = .left .cancelledError ∧ s.body = some body ∧
      body.pulse.exception? = some (.other unreadable) ∧ s.outside = 0 ∧
      s.owner.cancelling = 0 ∧ ¬ Promised s body .cancelledError := by
  have hresume : Step 60 15 unnoticed _ := .resume _ rfl
  have hfinish : Step 60 15
      { unnoticed with owner := unnoticed.owner.resume, stage := .running } _ :=
    .finish _ _ .cancelledError .cancelledError rfl rfl
  refine ⟨_, _, (unnoticed_reached.tail hresume).tail hfinish, rfl, rfl, rfl, rfl, rfl,
    fun hpromised => ?_⟩
  rcases hpromised.exposed (.other unreadable) rfl rfl with hraised | ⟨error, hbody, _⟩
  · cases hraised
  · cases hbody

end Yuki.LeaseHeartbeat
