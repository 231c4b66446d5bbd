import Mathlib.Data.List.Basic
import Mathlib.Order.Defs.PartialOrder

/-! One-shot subscriptions. A subscription is armed, gathers progress, and closes
once; closing it may send one message. At most one of an owner's is armed. -/

namespace Yuki.OneShot

variable {κ ω π ρ : Type}

inductive Phase (π ρ : Type)
  | armed (progress : π)
  | closed (result : ρ)

/-- The subscriptions with their owners, and how many messages each has sent. -/
structure Board (κ ω π ρ : Type) where
  phase : κ → Option (ω × Phase π ρ)
  sent : κ → Nat

/-- How a phase may go on: progress only grows, up to what the result holds of it, and a
result is final. -/
inductive Phase.Leads [Preorder π] (last : ρ → π) : Phase π ρ → Phase π ρ → Prop
  | grow {p p' : π} : p ≤ p' → Leads last (.armed p) (.armed p')
  | close {p : π} {r : ρ} : p ≤ last r → Leads last (.armed p) (.closed r)
  | stay {r : ρ} : Leads last (.closed r) (.closed r)

/-- Whether a phase has sent its message; `sends` tells which results do. -/
def Phase.fired (sends : ρ → Bool) : Phase π ρ → Bool
  | .armed _ => false
  | .closed r => sends r

namespace Phase.Leads

variable [Preorder π] {last : ρ → π} {a b c : Phase π ρ}

theorem refl (a : Phase π ρ) : a.Leads last a := by
  cases a with
  | armed p => exact .grow (le_refl p)
  | closed r => exact .stay

theorem trans (h : a.Leads last b) (h' : b.Leads last c) : a.Leads last c := by
  cases h with
  | grow hp =>
    cases h' with
    | grow hp' => exact .grow (le_trans hp hp')
    | close hp' => exact .close (le_trans hp hp')
  | close hp =>
    cases h'
    exact .close hp
  | stay => exact h'

theorem of_closed {r : ρ} (h : (Phase.closed r : Phase π ρ).Leads last b) : b = .closed r := by
  cases h
  rfl

theorem to_armed {p : π} (h : a.Leads last (.armed p)) : ∃ q, a = .armed q ∧ q ≤ p := by
  cases h with
  | grow hp => exact ⟨_, rfl, hp⟩

theorem fired {sends : ρ → Bool} (h : a.Leads last b) (ha : a.fired sends = true) :
    b.fired sends = true := by
  cases h with
  | grow => exact absurd ha (by simp [Phase.fired])
  | close => exact absurd ha (by simp [Phase.fired])
  | stay => exact ha

end Phase.Leads

namespace Board

/-- Whether a subscription has sent its message. -/
def fired (sends : ρ → Bool) (s : Board κ ω π ρ) (k : κ) : Bool :=
  (s.phase k).any fun x => x.2.fired sends

/-- At most one subscription of an owner is armed. -/
def Exclusive (s : Board κ ω π ρ) : Prop :=
  ∀ j k o p q, s.phase j = some (o, .armed p) → s.phase k = some (o, .armed q) → j = k

/-- A message stands for each result that sends one, once, and for nothing else. -/
def Honest (sends : ρ → Bool) (s : Board κ ω π ρ) : Prop :=
  ∀ k, s.sent k = (s.fired sends k).toNat

/-- A change of the board: phases lead on, each newly sent message is one, and an owner still
has at most one armed subscription. -/
structure Moves [Preorder π] (last : ρ → π) (sends : ρ → Bool) (s t : Board κ ω π ρ) : Prop where
  leads : ∀ k o a, s.phase k = some (o, a) → ∃ b, t.phase k = some (o, b) ∧ a.Leads last b
  sent : ∀ k, t.sent k + (s.fired sends k).toNat = s.sent k + (t.fired sends k).toNat
  exclusive : s.Exclusive → t.Exclusive

namespace Moves

variable [Preorder π] {last : ρ → π} {sends : ρ → Bool} {s t u : Board κ ω π ρ}

theorem refl (s : Board κ ω π ρ) : Moves last sends s s where
  leads _ _ a h := ⟨a, h, .refl a⟩
  sent _ := rfl
  exclusive h := h

theorem trans (h : Moves last sends s t) (h' : Moves last sends t u) : Moves last sends s u where
  leads k o a ha := by
    obtain ⟨b, hb, hab⟩ := h.leads k o a ha
    obtain ⟨c, hc, hbc⟩ := h'.leads k o b hb
    exact ⟨c, hc, hab.trans hbc⟩
  sent k := by
    have h₁ := h.sent k
    have h₂ := h'.sent k
    omega
  exclusive hs := h'.exclusive (h.exclusive hs)

/-- Without new subscriptions nothing can break exclusion. -/
theorem of_old (hleads : ∀ k o a, s.phase k = some (o, a) →
      ∃ b, t.phase k = some (o, b) ∧ a.Leads last b)
    (hsent : ∀ k, t.sent k + (s.fired sends k).toNat = s.sent k + (t.fired sends k).toNat)
    (hold : ∀ k, s.phase k = none → t.phase k = none) : Moves last sends s t where
  leads := hleads
  sent := hsent
  exclusive hs j k o p q hj hk := by
    have harmed : ∀ i r, t.phase i = some (o, .armed r) → ∃ r', s.phase i = some (o, .armed r') := by
      intro i r hi
      cases hsi : s.phase i with
      | none =>
        rw [hold i hsi] at hi
        simp at hi
      | some x =>
        obtain ⟨b, hb, hl⟩ := hleads i x.1 x.2 hsi
        rw [hi, Option.some.injEq, Prod.mk.injEq] at hb
        obtain ⟨rfl, rfl⟩ := hb
        obtain ⟨r', hr', -⟩ := hl.to_armed
        exact ⟨r', by rw [← hr']⟩
    obtain ⟨p', hp'⟩ := harmed j p hj
    obtain ⟨q', hq'⟩ := harmed k q hk
    exact hs j k o p' q' hp' hq'

theorem fired (h : Moves last sends s t) {k : κ} (hk : s.fired sends k = true) :
    t.fired sends k = true := by
  unfold Board.fired at hk ⊢
  cases hx : s.phase k with
  | none => simp [hx] at hk
  | some x =>
    obtain ⟨b, hb, hl⟩ := h.leads k x.1 x.2 hx
    rw [hx, Option.any_some] at hk
    rw [hb, Option.any_some]
    exact hl.fired hk

theorem honest (h : Moves last sends s t) (hs : s.Honest sends) : t.Honest sends := by
  intro k
  have := h.sent k
  have := hs k
  omega

/-- A closed subscription keeps its result. -/
theorem closed (h : Moves last sends s t) {k : κ} {o : ω} {r : ρ}
    (hk : s.phase k = some (o, .closed r)) : t.phase k = some (o, .closed r) := by
  obtain ⟨b, hb, hl⟩ := h.leads k o _ hk
  rw [hb, hl.of_closed]

/-- While a subscription is armed, its progress has only grown. -/
theorem grown (h : Moves last sends s t) {k : κ} {o o' : ω} {a : Phase π ρ} {p : π}
    (hk : s.phase k = some (o, a)) (hk' : t.phase k = some (o', .armed p)) :
    ∃ q, a = .armed q ∧ q ≤ p := by
  obtain ⟨b, hb, hl⟩ := h.leads k o a hk
  rw [hk', Option.some.injEq, Prod.mk.injEq] at hb
  rw [← hb.2] at hl
  exact hl.to_armed

/-- What a subscription had gathered is still there when it is closed. -/
theorem gathered (h : Moves last sends s t) {k : κ} {o o' : ω} {p : π} {r : ρ}
    (hk : s.phase k = some (o, .armed p)) (hk' : t.phase k = some (o', .closed r)) :
    p ≤ last r := by
  obtain ⟨b, hb, hl⟩ := h.leads k o _ hk
  rw [hk', Option.some.injEq, Prod.mk.injEq] at hb
  rw [← hb.2] at hl
  cases hl with
  | close hp => exact hp

end Moves

end Board

end Yuki.OneShot
