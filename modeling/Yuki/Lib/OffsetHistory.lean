import Mathlib.Algebra.Order.Field.Basic
import Mathlib.Data.List.Pairwise
import Mathlib.Tactic.Linarith

/-! Clocks that change their offset at instants of a finite list: the local time of
an instant, and the instant that a local time resolves to. -/

namespace Yuki

/-- The first offset, and the instants from which another one holds. -/
structure OffsetHistory (K : Type) [LT K] where
  initial : K
  changes : List (K × K)
  sorted : changes.Pairwise fun a b => a.1 < b.1

namespace OffsetHistory

variable {K : Type} [Field K] [LinearOrder K]

def offsetFrom (off : K) : List (K × K) → K → K
  | [], _ => off
  | c :: cs, u => if u < c.1 then off else offsetFrom c.2 cs u

/-- A wall time belongs to the first offset that it does not outlast: an ambiguous one to
the earlier offset, and one in a gap to the offset before it. -/
def resolveFrom (off : K) : List (K × K) → K → K
  | [], w => w - off
  | c :: cs, w => if w < c.1 + max off c.2 then w - off else resolveFrom c.2 cs w

/-- The wall time lies in a gap: no instant shows it, and it is moved forward. -/
def SkippedFrom (off : K) : List (K × K) → K → Prop
  | [], _ => False
  | c :: cs, w => if w < c.1 + max off c.2 then c.1 + off ≤ w else SkippedFrom c.2 cs w

def localTime (h : OffsetHistory K) (u : K) : K :=
  u + offsetFrom h.initial h.changes u

def resolve (h : OffsetHistory K) (w : K) : K :=
  resolveFrom h.initial h.changes w

def Skipped (h : OffsetHistory K) (w : K) : Prop :=
  SkippedFrom h.initial h.changes w

variable [IsStrictOrderedRing K] {off w w' u : K} {cs : List (K × K)}

theorem le_resolveFrom {low : K} (hsorted : cs.Pairwise fun a b => a.1 < b.1)
    (hlow : ∀ c ∈ cs, low ≤ c.1) (hw : low + off ≤ w) : low ≤ resolveFrom off cs w := by
  induction cs generalizing off low with
  | nil =>
    unfold resolveFrom
    linarith
  | cons c cs ih =>
    obtain ⟨hc, hsorted⟩ := List.pairwise_cons.mp hsorted
    unfold resolveFrom
    split
    · linarith
    · rename_i hlate
      have hmax := le_max_right off c.2
      have hin : c.1 ≤ resolveFrom c.2 cs w := ih hsorted (fun d hd => le_of_lt (hc d hd))
        (by linarith [not_lt.mp hlate])
      exact le_trans (hlow c List.mem_cons_self) hin

/-- A wall time that a clock has passed, and that resolves to a later instant, is in a gap. -/
theorem skippedFrom_of_passed (hwall : w < u + offsetFrom off cs u)
    (hlate : u < resolveFrom off cs w) : SkippedFrom off cs w := by
  induction cs generalizing off with
  | nil =>
    unfold offsetFrom at hwall
    unfold resolveFrom at hlate
    linarith
  | cons c cs ih =>
    unfold offsetFrom at hwall
    unfold resolveFrom at hlate
    unfold SkippedFrom
    have hmax := le_max_left off c.2
    by_cases hu : u < c.1
    · rw [if_pos hu] at hwall
      rw [if_pos (by linarith)] at hlate
      linarith
    · rw [if_neg hu] at hwall
      by_cases hw : w < c.1 + max off c.2
      · rw [if_pos hw] at hlate ⊢
        linarith [not_lt.mp hu]
      · rw [if_neg hw] at hlate ⊢
        exact ih hwall hlate

/-- A wall time that resolves later than one after it is in a gap. -/
theorem skippedFrom_of_overtaken (hsorted : cs.Pairwise fun a b => a.1 < b.1) (hle : w ≤ w')
    (hlt : resolveFrom off cs w' < resolveFrom off cs w) : SkippedFrom off cs w := by
  induction cs generalizing off with
  | nil =>
    unfold resolveFrom at hlt
    linarith
  | cons c cs ih =>
    obtain ⟨hc, hsorted⟩ := List.pairwise_cons.mp hsorted
    unfold resolveFrom at hlt
    unfold SkippedFrom
    by_cases hw : w < c.1 + max off c.2
    · rw [if_pos hw] at hlt ⊢
      by_cases hw' : w' < c.1 + max off c.2
      · rw [if_pos hw'] at hlt
        linarith
      · rw [if_neg hw'] at hlt
        have hmax := le_max_right off c.2
        have hge : c.1 ≤ resolveFrom c.2 cs w' := le_resolveFrom hsorted
          (fun d hd => le_of_lt (hc d hd)) (by linarith [not_lt.mp hw'])
        linarith
    · rw [if_neg hw] at hlt ⊢
      rw [if_neg fun hw' => hw (lt_of_le_of_lt hle hw')] at hlt
      exact ih hsorted hlt

theorem sub_lt_resolveFrom {bound : K} (hoff : off < bound) (hbound : ∀ c ∈ cs, c.2 < bound) :
    w - bound < resolveFrom off cs w := by
  induction cs generalizing off with
  | nil =>
    unfold resolveFrom
    linarith
  | cons c cs ih =>
    unfold resolveFrom
    split
    · linarith
    · exact ih (hbound c List.mem_cons_self) fun d hd => hbound d (List.mem_cons_of_mem _ hd)

variable (h : OffsetHistory K)

theorem skipped_of_passed (hwall : w < h.localTime u) (hlate : u < h.resolve w) : h.Skipped w :=
  skippedFrom_of_passed hwall hlate

theorem skipped_of_overtaken (hle : w ≤ w') (hlt : h.resolve w' < h.resolve w) : h.Skipped w :=
  skippedFrom_of_overtaken h.sorted hle hlt

end OffsetHistory

end Yuki
