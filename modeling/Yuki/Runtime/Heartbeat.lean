import Mathlib.Logic.Relation
import Mathlib.Tactic.Linarith
import Yuki.Persistence.Writer
import Yuki.Runtime.Schema

/-! The pulse of a supervised activity: it renews a lease until it fails or is cancelled, and
keeps a deadline of its own, up to which the lease is known to be held. -/

namespace Yuki.LeaseHeartbeat

open Persistence

/-- An exception: a conflict of this module, or one that passes through. -/
inductive Error
  | workConflict (code : String)
  | other (error : Raised)
deriving DecidableEq

inductive Ending
  | cancelled
  | failed (error : Error)
deriving DecidableEq

/-- What the pulse is waiting for. While `renew` is out, `written` is when it wrote. -/
inductive Phase
  | expiry
  | sleep (deadline nap : Time)
  | renew (deadline started delay : Time) (written : Option Time)
  | backoff (deadline pause delay : Time)
  | ended (ending : Ending)
deriving DecidableEq

/-- The clock, the stored expiry and the pulse. -/
structure Heart where
  now : Time
  stored : Time
  phase : Phase
deriving DecidableEq

def obsolete : Phase :=
  .ended (.failed (.workConflict "work_heartbeat_lease_obsolete"))

def expired : Phase :=
  .ended (.failed (.workConflict "work_heartbeat_lease_expired"))

/-- The head of the outer loop. -/
def rest (interval now deadline : Time) : Phase :=
  .sleep deadline (min interval (max 0 (deadline - now)))

/-- The head of the inner loop: a call of `renew` is started, unless it is too late. -/
def attempt (now deadline delay : Time) : Phase :=
  if deadline - now ≤ 0 then expired else .renew deadline now delay none

def raised (error : Raised) : Phase :=
  .ended (if error.cancelled then .cancelled else .failed (.other error))

/-- The rest of the inner loop, by what `renew` returns or raises. -/
def answered (seconds interval now deadline started delay : Time) : Except Raised Bool → Phase
  | .error error =>
    if error.typeName = "OperationalError" then
      if !writeFailureRetryable error then
        .ended (.failed (.workConflict "work_heartbeat_renew_failed"))
      else if deadline - now ≤ 0 then expired
      else .backoff deadline (min delay (deadline - now)) (min (delay * 2) (1 / 2))
    else if error.typeName = "TimeoutError" then expired
    else raised error
  | .ok false => obsolete
  | .ok true => rest interval now (started + seconds)

/-- The pulse under any clock that does not go back, with no other writer of the lease: `renew`
writes its own time plus `seconds` at most once and before it returns true, and a busy error that
may be retried comes without effect. -/
inductive Beat (seconds interval : Time) : Heart → Heart → Prop
  | tick (h : Heart) (now : Time) (later : h.now ≤ now) : Beat seconds interval h { h with now }
  | expiry (h : Heart) (reading : h.phase = .expiry) :
      Beat seconds interval h { h with phase := rest interval h.now h.stored }
  | lost (h : Heart) (reading : h.phase = .expiry) :
      Beat seconds interval h { h with phase := obsolete }
  | unread (h : Heart) (reading : h.phase = .expiry) (error : Raised) :
      Beat seconds interval h { h with phase := raised error }
  | wake (h : Heart) (deadline nap : Time) (asleep : h.phase = .sleep deadline nap) :
      Beat seconds interval h { h with phase := attempt h.now deadline (1 / 20) }
  | write (h : Heart) (deadline started delay : Time)
      (out : h.phase = .renew deadline started delay none) :
      Beat seconds interval h
        { h with stored := h.now + seconds, phase := .renew deadline started delay (some h.now) }
  | answer (h : Heart) (deadline started delay : Time) (written : Option Time)
      (out : h.phase = .renew deadline started delay written) (answer : Except Raised Bool)
      (valid : answer = .ok true → written.isSome = true)
      (busy : ∀ error, answer = .error error → writeFailureRetryable error = true →
        written = none) :
      Beat seconds interval h
        { h with phase := answered seconds interval h.now deadline started delay answer }
  | resume (h : Heart) (deadline pause delay : Time) (paused : h.phase = .backoff deadline pause delay) :
      Beat seconds interval h { h with phase := attempt h.now deadline delay }
  | cancel (h : Heart) (runs : ∀ ending, h.phase ≠ .ended ending) :
      Beat seconds interval h { h with phase := .ended .cancelled }

/-- The local deadline. -/
def Phase.deadline? : Phase → Option Time
  | .sleep deadline _ | .renew deadline _ _ _ | .backoff deadline _ _ => some deadline
  | .expiry | .ended _ => none

/-- When the call of `renew` that is out has written. -/
def Phase.written? : Phase → Option Time
  | .renew _ _ _ written => written
  | _ => none

/-- The pulse is within the stored lease: by its deadline, or by what the call that is out wrote. -/
def Phase.Covered (seconds now stored : Time) : Phase → Prop
  | .sleep deadline _ | .backoff deadline _ _ => deadline ≤ stored
  | .renew deadline started _ none => started < deadline ∧ started ≤ now ∧ deadline ≤ stored
  | .renew deadline started _ (some t) => started < deadline ∧ started ≤ t ∧ stored = t + seconds
  | .expiry | .ended _ => True

def Heart.Covered (seconds : Time) (h : Heart) : Prop :=
  h.phase.Covered seconds h.now h.stored

/-- The stored expiry is at most `seconds` ahead, and the deadline not beyond it. -/
structure Heart.Current (seconds : Time) (h : Heart) : Prop where
  ahead : h.stored ≤ h.now + seconds
  deadline : ∀ d, h.phase.deadline? = some d → d ≤ h.stored

variable {seconds interval now stored deadline delay : Time} {h h' : Heart}

theorem deadline_attempt {d : Time} (hd : (attempt now deadline delay).deadline? = some d) :
    d = deadline := by
  unfold attempt at hd
  split at hd
  · cases hd
  · exact (Option.some.inj hd).symm

/-- A call is only started before the deadline. -/
theorem covered_attempt (h : deadline ≤ stored) :
    (attempt now deadline delay).Covered seconds now stored := by
  unfold attempt
  split
  · trivial
  · rename_i hpast
    exact ⟨by linarith, le_refl now, h⟩

/-- After a call that does not renew, the deadline is the one before, if there is one. -/
theorem deadline_answered {started d : Time} {answer : Except Raised Bool}
    (hanswer : answer ≠ .ok true)
    (hd : (answered seconds interval now deadline started delay answer).deadline? = some d) :
    d = deadline ∧ ∃ error, answer = .error error ∧ writeFailureRetryable error = true := by
  cases answer with
  | ok valid =>
    cases valid with
    | false => cases hd
    | true => exact absurd rfl hanswer
  | error error =>
    unfold answered at hd
    dsimp only at hd
    split at hd
    · split at hd
      · cases hd
      · rename_i hretry
        split at hd
        · cases hd
        · exact ⟨(Option.some.inj hd).symm, error, rfl, by simpa using hretry⟩
    · split at hd
      · cases hd
      · cases hd

theorem answered_ne_renew {started : Time} {answer : Except Raised Bool} :
    ∀ d s dl w, answered seconds interval now deadline started delay answer ≠ .renew d s dl w := by
  intro d s dl w h
  unfold answered at h
  repeat' split at h
  all_goals cases h

theorem written?_eq_none {phase : Phase} (hphase : ∀ d s dl w, phase ≠ .renew d s dl w) :
    phase.written? = none := by
  cases phase with
  | renew d s dl w => exact absurd rfl (hphase d s dl w)
  | expiry | sleep | backoff | ended => rfl

theorem covered_of_deadline {phase : Phase} (hphase : ∀ d s dl w, phase ≠ .renew d s dl w)
    (h : ∀ d, phase.deadline? = some d → d ≤ stored) : phase.Covered seconds now stored := by
  cases phase with
  | expiry => trivial
  | sleep d nap => exact h d rfl
  | renew d s dl w => exact absurd rfl (hphase d s dl w)
  | backoff d pause dl => exact h d rfl
  | ended ending => trivial

/-- What the pulse waits for is covered when a call has been answered. -/
theorem covered_answer {started : Time} {written : Option Time} {answer : Except Raised Bool}
    (h : (Phase.renew deadline started delay written).Covered seconds now stored)
    (hvalid : answer = .ok true → written.isSome = true)
    (hbusy : ∀ error, answer = .error error → writeFailureRetryable error = true →
      written = none) :
    (answered seconds interval now deadline started delay answer).Covered seconds now stored := by
  refine covered_of_deadline answered_ne_renew fun d hd => ?_
  by_cases hanswer : answer = .ok true
  · obtain ⟨t, rfl⟩ := Option.isSome_iff_exists.mp (hvalid hanswer)
    obtain ⟨_, hstarted, hstored⟩ := h
    subst hanswer
    have hdeadline : started + seconds = d := Option.some.inj hd
    linarith
  · obtain ⟨rfl, error, herror, hretry⟩ := deadline_answered hanswer hd
    obtain rfl := hbusy error herror hretry
    exact h.2.2

theorem deadline_of_covered (hcovered : h.Covered seconds) {d : Time}
    (hd : h.phase.deadline? = some d) (hwritten : h.phase.written? = none) : d ≤ h.stored := by
  unfold Heart.Covered at hcovered
  cases hphase : h.phase with
  | expiry => rw [hphase] at hd; cases hd
  | sleep e nap =>
    rw [hphase] at hd hcovered
    exact Option.some.inj hd ▸ hcovered
  | renew e started dl written =>
    rw [hphase] at hd hcovered hwritten
    obtain rfl : written = none := hwritten
    exact Option.some.inj hd ▸ hcovered.2.2
  | backoff e pause dl =>
    rw [hphase] at hd hcovered
    exact Option.some.inj hd ▸ hcovered
  | ended ending => rw [hphase] at hd; cases hd

theorem covered_beat (hcovered : h.Covered seconds) (hbeat : Beat seconds interval h h') :
    h'.Covered seconds := by
  unfold Heart.Covered at hcovered ⊢
  cases hbeat with
  | tick now hlater =>
    cases hphase : h.phase with
    | expiry => trivial
    | sleep d nap => rwa [hphase] at hcovered
    | renew d started dl written =>
      rw [hphase] at hcovered
      cases written with
      | none => exact ⟨hcovered.1, hcovered.2.1.trans hlater, hcovered.2.2⟩
      | some t => exact hcovered
    | backoff d pause dl => rwa [hphase] at hcovered
    | ended ending => trivial
  | expiry => exact le_refl h.stored
  | lost => trivial
  | unread => trivial
  | wake d nap hasleep =>
    rw [hasleep] at hcovered
    exact covered_attempt hcovered
  | write d started dl hout =>
    rw [hout] at hcovered
    exact ⟨hcovered.1, hcovered.2.1, rfl⟩
  | answer d started dl written hout answer hvalid hbusy =>
    rw [hout] at hcovered
    exact covered_answer hcovered hvalid hbusy
  | resume d pause dl hpaused =>
    rw [hpaused] at hcovered
    exact covered_attempt hcovered
  | cancel => trivial

theorem current_beat (hcovered : h.Covered seconds) (hcurrent : h.Current seconds)
    (hbeat : Beat seconds interval h h') : h'.Current seconds := by
  have hnext := covered_beat hcovered hbeat
  obtain ⟨hahead, hdeadline⟩ := hcurrent
  cases hbeat with
  | tick now hlater => exact ⟨by dsimp only; linarith, hdeadline⟩
  | expiry => exact ⟨hahead, fun d hd => le_of_eq (Option.some.inj hd).symm⟩
  | lost => exact ⟨hahead, fun d hd => nomatch hd⟩
  | unread => exact ⟨hahead, fun d hd => nomatch hd⟩
  | wake d nap hasleep =>
    refine ⟨hahead, fun d' hd => ?_⟩
    rw [deadline_attempt hd]
    exact hdeadline d (by rw [hasleep]; rfl)
  | write d started dl hout =>
    refine ⟨le_refl _, fun d' hd => ?_⟩
    obtain rfl : d = d' := Option.some.inj hd
    exact (hdeadline d (by rw [hout]; rfl)).trans hahead
  | answer d started dl written hout answer hvalid hbusy =>
    exact ⟨hahead, fun d' hd =>
      deadline_of_covered hnext hd (written?_eq_none answered_ne_renew)⟩
  | resume d pause dl hpaused =>
    refine ⟨hahead, fun d' hd => ?_⟩
    rw [deadline_attempt hd]
    exact hdeadline d (by rw [hpaused]; rfl)
  | cancel => exact ⟨hahead, fun d hd => nomatch hd⟩

/-- What the pulse knows of its lease: a deadline within the stored expiry, but for a lease that
was found further ahead while the call that shortens it is out, and calls only before it. -/
structure Heart.Known (h : Heart) (found : Prop) : Prop where
  deadline : ∀ d, h.phase.deadline? = some d → h.phase.written? = none ∨ found → d ≤ h.stored
  started : ∀ d started delay written, h.phase = .renew d started delay written → started < d

theorem started_of_covered (hcovered : h.Covered seconds) {d started dl : Time}
    {written : Option Time} (hphase : h.phase = .renew d started dl written) : started < d := by
  unfold Heart.Covered at hcovered
  rw [hphase] at hcovered
  cases written with
  | none => exact hcovered.1
  | some t => exact hcovered.1

/-- The pulse at its start. -/
def Heart.start (now stored : Time) : Heart :=
  ⟨now, stored, .expiry⟩

/-- In every run the pulse knows its lease. -/
theorem known_run (hrun : Relation.ReflTransGen (Beat seconds interval) (.start now stored) h) :
    h.Known (stored ≤ now + seconds) := by
  have hall : h.Covered seconds ∧ (stored ≤ now + seconds → h.Current seconds) := by
    induction hrun with
    | refl => exact ⟨trivial, fun hfound => ⟨hfound, fun d hd => nomatch hd⟩⟩
    | tail _ hbeat ih =>
      exact ⟨covered_beat ih.1 hbeat, fun hfound => current_beat ih.1 (ih.2 hfound) hbeat⟩
  refine ⟨fun d hd hor => ?_, fun d started dl written hphase => started_of_covered hall.1 hphase⟩
  rcases hor with hwritten | hfound
  · exact deadline_of_covered hall.1 hd hwritten
  · exact (hall.2 hfound).deadline d hd

end Yuki.LeaseHeartbeat
