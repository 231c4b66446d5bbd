/-! The longest prefix that fits, found by one pass that may stop early. -/

namespace Yuki

/-- Try one length after another from `length` on; `best` is the longest that fitted so far. -/
def longestFit (fits stops : Nat → Bool) : Nat → Nat → Nat → Nat
  | 0, _, best => best
  | n + 1, length, best =>
    let best := if fits (length + 1) then length + 1 else best
    if stops (length + 1) then best else longestFit fits stops n (length + 1) best

/-- `best` is the longest of the lengths up to `n` that fits, and 0 if none does. -/
structure LongestFit (fits : Nat → Bool) (n best : Nat) : Prop where
  le : best ≤ n
  holds : 0 < best → fits best = true
  longest : ∀ l, 0 < l → l ≤ n → fits l = true → l ≤ best

theorem LongestFit.zero (fits : Nat → Bool) : LongestFit fits 0 0 :=
  ⟨Nat.le_refl 0, fun h => absurd h (Nat.lt_irrefl 0), fun _ _ h _ => h⟩

theorem LongestFit.succ {fits : Nat → Bool} {n best : Nat} (h : LongestFit fits n best) :
    LongestFit fits (n + 1) (if fits (n + 1) then n + 1 else best) := by
  cases hf : fits (n + 1) with
  | true => exact ⟨Nat.le_refl _, fun _ => hf, fun _ _ hl _ => hl⟩
  | false =>
    refine ⟨Nat.le_succ_of_le h.le, h.holds, fun l hpos hl hfit => ?_⟩
    obtain rfl | hlt : l = n + 1 ∨ l ≤ n := by omega
    · rw [hf] at hfit
      cases hfit
    · exact h.longest l hpos hlt hfit

/-- Stopping early loses nothing when no longer prefix fits any more. -/
theorem longestFit_spec {fits stops : Nat → Bool} {n length best : Nat}
    (hstop : ∀ l l', stops l = true → l < l' → l' ≤ length + n → fits l' = false)
    (h : LongestFit fits length best) :
    LongestFit fits (length + n) (longestFit fits stops n length best) := by
  induction n generalizing length best with
  | zero => exact h
  | succ n ih =>
    have hnext := h.succ
    unfold longestFit
    dsimp only
    split
    · next hs =>
      refine ⟨Nat.le_trans hnext.le (by omega), hnext.holds, fun l hpos hl hfit => ?_⟩
      by_cases hle : l ≤ length + 1
      · exact hnext.longest l hpos hle hfit
      · rw [hstop _ l hs (by omega) hl] at hfit
        cases hfit
    · have hadd : length + (n + 1) = length + 1 + n := by omega
      rw [hadd] at hstop ⊢
      exact ih hstop hnext

end Yuki
