import Mathlib.Data.List.MinMax
import Mathlib.Data.List.Nodup
import Mathlib.Data.List.TakeWhile

/-! Going round an ordered set: candidates come in ascending order from behind a cursor on and
then from the start again, and the cursor stays at the last one taken. -/

namespace Yuki.RoundRobin

variable {α : Type*} [LinearOrder α]

/-! Every element once, by the least one above the last. -/

/-- The elements above `last` in ascending order. -/
def seek (xs : List α) : Nat → Option α → List α
  | 0, _ => []
  | fuel + 1, last =>
    match (xs.filter fun x => last.all (· < x)).min? with
    | none => []
    | some x => x :: seek xs fuel (some x)

theorem mem_of_mem_seek {xs : List α} {fuel : Nat} {last : Option α} {x : α}
    (h : x ∈ seek xs fuel last) : x ∈ xs ∧ last.all (· < x) = true := by
  induction fuel generalizing last with
  | zero => cases h
  | succ fuel ih =>
    unfold seek at h
    cases hmin : (xs.filter fun x => last.all (· < x)).min? with
    | none =>
      rw [hmin] at h
      cases h
    | some y =>
      rw [hmin] at h
      have hy := List.mem_filter.mp (List.min?_mem hmin)
      rcases List.mem_cons.mp h with rfl | h
      · exact hy
      · obtain ⟨hx, hlt⟩ := ih h
        refine ⟨hx, ?_⟩
        cases last with
        | none => rfl
        | some c =>
          have hcy : c < y := by simpa using hy.2
          have hyx : y < x := by simpa using hlt
          simpa using lt_trans hcy hyx

theorem pairwise_seek (xs : List α) (fuel : Nat) (last : Option α) :
    (seek xs fuel last).Pairwise (· < ·) := by
  induction fuel generalizing last with
  | zero => exact .nil
  | succ fuel ih =>
    unfold seek
    split
    · exact .nil
    · rename_i y hmin
      refine List.pairwise_cons.mpr ⟨fun x hx => ?_, ih (some y)⟩
      simpa using (mem_of_mem_seek hx).2

/-- With a step for each element none is left out. -/
theorem mem_seek {xs : List α} {fuel : Nat} {last : Option α}
    (hfuel : (xs.filter fun x => last.all (· < x)).length ≤ fuel) {x : α} (hx : x ∈ xs)
    (hlast : last.all (· < x) = true) : x ∈ seek xs fuel last := by
  induction fuel generalizing last with
  | zero =>
    have hmem : x ∈ xs.filter fun x => last.all (· < x) := List.mem_filter.mpr ⟨hx, hlast⟩
    rw [List.eq_nil_of_length_eq_zero (Nat.le_zero.mp hfuel)] at hmem
    cases hmem
  | succ fuel ih =>
    have hmem : x ∈ xs.filter fun x => last.all (· < x) := List.mem_filter.mpr ⟨hx, hlast⟩
    unfold seek
    cases hmin : (xs.filter fun x => last.all (· < x)).min? with
    | none =>
      rw [List.min?_eq_none_iff.mp hmin] at hmem
      cases hmem
    | some y =>
      obtain ⟨hy, hleast⟩ := List.min?_eq_some_iff.mp hmin
      rcases eq_or_lt_of_le (hleast x hmem) with rfl | hlt
      · exact List.mem_cons_self
      · refine List.mem_cons_of_mem _ (ih ?_ (by simpa using hlt))
        have hagain : (xs.filter fun x => (some y).all (· < x)) =
            (xs.filter fun x => last.all (· < x)).filter fun x => (some y).all (· < x) := by
          rw [List.filter_filter]
          refine List.filter_congr fun z _ => ?_
          cases last with
          | none => simp
          | some c =>
            have hcy : c < y := by simpa using (List.mem_filter.mp hy).2
            simpa using fun hyz => lt_trans hcy hyz
        have hshorter : ((xs.filter fun x => last.all (· < x)).filter
            fun x => (some y).all (· < x)).length < (xs.filter fun x => last.all (· < x)).length :=
          List.length_filter_lt_length_iff_exists.mpr ⟨y, hy, by simp⟩
        rw [hagain]
        omega

/-! Turns. -/

/-- Going round from the cursor, `x` comes up before `s` does. -/
def Ahead (s : α) : Option α → α → Prop
  | none, x => x < s
  | some c, x => if c < s then c < x ∧ x < s else c < x ∨ x < s

/-- The cursor stays at the last element that was taken. -/
def moved (cursor : Option α) (picks : List α) : Option α :=
  picks.getLast?.or cursor

/-- What one turn takes does not leave `s` behind. -/
structure Orderly (s : α) (cursor : Option α) (picks : List α) : Prop where
  ahead : ∀ x ∈ picks.takeWhile (· ≠ s), Ahead s cursor x
  nodup : (picks.takeWhile (· ≠ s)).Nodup
  passed : s ∉ picks → ∀ x, Ahead s (moved cursor picks) x → Ahead s cursor x ∧ x ∉ picks

/-- A turn that takes nothing. -/
theorem orderly_nil {s : α} {cursor : Option α} : Orderly s cursor [] :=
  ⟨fun _ hx => absurd hx List.not_mem_nil, List.nodup_nil, fun _ _ hx => ⟨hx, List.not_mem_nil⟩⟩

/-- Everything the turns take, one after the other. -/
def takeTurns : List (Option α → List α) → Option α → List α
  | [], _ => []
  | turn :: turns, cursor => turn cursor ++ takeTurns turns (moved cursor (turn cursor))

theorem takeWhile_ne_of_not_mem {s : α} {xs : List α} (h : s ∉ xs) :
    xs.takeWhile (· ≠ s) = xs :=
  List.takeWhile_eq_self_iff.mpr fun x hx => by
    have hne : x ≠ s := fun heq => h (heq ▸ hx)
    simpa using hne

theorem takeWhile_ne_append {s : α} {xs ys : List α} (h : s ∈ xs) :
    (xs ++ ys).takeWhile (· ≠ s) = xs.takeWhile (· ≠ s) := by
  induction xs with
  | nil => cases h
  | cons x xs ih =>
    by_cases hx : x = s
    · simp [hx]
    · have hs : s ∈ xs := (List.mem_cons.mp h).resolve_left (Ne.symm hx)
      rw [List.cons_append, List.takeWhile_cons_of_pos (by simpa using hx),
        List.takeWhile_cons_of_pos (by simpa using hx), ih hs]

/-- In orderly turns nothing is taken twice before `s` is taken. -/
theorem nodup_takeTurns {s : α} {turns : List (Option α → List α)}
    (h : ∀ turn ∈ turns, ∀ cursor, Orderly s cursor (turn cursor)) (cursor : Option α) :
    (∀ x ∈ (takeTurns turns cursor).takeWhile (· ≠ s), Ahead s cursor x) ∧
      ((takeTurns turns cursor).takeWhile (· ≠ s)).Nodup := by
  induction turns generalizing cursor with
  | nil => simp [takeTurns]
  | cons turn turns ih =>
    have hturn := h turn List.mem_cons_self cursor
    obtain ⟨hahead, hnodup⟩ := ih (fun t ht => h t (List.mem_cons_of_mem _ ht))
      (moved cursor (turn cursor))
    rw [takeTurns]
    by_cases hs : s ∈ turn cursor
    · rw [takeWhile_ne_append hs]
      exact ⟨hturn.ahead, hturn.nodup⟩
    · have hall := takeWhile_ne_of_not_mem hs
      have hsplit : ∀ rest : List α,
          (turn cursor ++ rest).takeWhile (· ≠ s) = turn cursor ++ rest.takeWhile (· ≠ s) :=
        fun rest => List.takeWhile_append_of_pos fun x hx => by
          have hne : x ≠ s := fun heq => hs (heq ▸ hx)
          simpa using hne
      have hpicks := hturn.ahead
      have hdistinct := hturn.nodup
      rw [hall] at hpicks hdistinct
      rw [hsplit]
      refine ⟨fun x hx => ?_, List.nodup_append'.mpr ⟨hdistinct, hnodup, ?_⟩⟩
      · rcases List.mem_append.mp hx with hx | hx
        · exact hpicks x hx
        · exact (hturn.passed hs x (hahead x hx)).1
      · exact fun x hx hrest => (hturn.passed hs x (hahead x hrest)).2 hx

/-! A turn under a capacity. -/

/-- An ascending list that is cut before `s` is full, with everything taken below `s`. -/
theorem take_before {s : α} {xs : List α} {n : Nat} (hxs : xs.Pairwise (· < ·)) (hs : s ∈ xs)
    (hcut : s ∉ xs.take n) : (xs.take n).length = n ∧ ∀ x ∈ xs.take n, x < s := by
  have hsplit := List.take_append_drop n xs
  have hdrop : s ∈ xs.drop n := by
    rw [← hsplit] at hs
    exact (List.mem_append.mp hs).resolve_left hcut
  rw [← hsplit] at hxs
  refine ⟨?_, fun x hx => (List.pairwise_append.mp hxs).2.2 x hx s hdrop⟩
  have hpos := List.length_pos_of_mem hdrop
  rw [List.length_drop] at hpos
  rw [List.length_take]
  omega

/-- The last of an ascending list is above the others. -/
theorem le_getLast {xs : List α} {l : α} (hxs : xs.Pairwise (· < ·)) (hl : xs.getLast? = some l) :
    ∀ x ∈ xs, x ≤ l := by
  obtain ⟨before, rfl⟩ := List.getLast?_eq_some_iff.mp hl
  intro x hx
  rcases List.mem_append.mp hx with hx | hx
  · exact le_of_lt ((List.pairwise_append.mp hxs).2.2 x hx l (List.mem_singleton_self l))
  · exact le_of_eq (List.mem_singleton.mp hx)

theorem mem_takeWhile_lt {s x : α} {xs : List α} (hxs : xs.Pairwise (· < ·)) (hs : s ∈ xs)
    (hx : x ∈ xs.takeWhile (· ≠ s)) : x < s := by
  have hne : x ≠ s := by simpa using List.mem_takeWhile_imp hx
  have hsplit := List.takeWhile_append_dropWhile (p := (· ≠ s)) (l := xs)
  have hdrop : s ∈ xs.dropWhile (· ≠ s) := by
    rw [← hsplit] at hs
    refine (List.mem_append.mp hs).resolve_left fun hmem => ?_
    simpa using List.mem_takeWhile_imp hmem
  rw [← hsplit] at hxs
  exact (List.pairwise_append.mp hxs).2.2 x hx s hdrop

variable {s : α} {cursor : Option α} {above below : List α} {capacity : Nat}

/-- Where `s` stands above the cursor, a turn stops at it or below it. -/
theorem orderly_above (habove : above.Pairwise (· < ·))
    (hbeyond : ∀ x ∈ above, cursor.all (· < x) = true) (hs : s ∈ above) :
    Orderly s cursor (above.take capacity ++ below.take (capacity - (above.take capacity).length))
    := by
  have hsorted := habove.sublist (List.take_sublist capacity above)
  have hahead : ∀ x ∈ above.take capacity, x < s → Ahead s cursor x := by
    intro x hx hlt
    cases cursor with
    | none => exact hlt
    | some c =>
      have hcs : c < s := by simpa using hbeyond s hs
      have hcx : c < x := by simpa using hbeyond x (List.mem_of_mem_take hx)
      rw [Ahead, if_pos hcs]
      exact ⟨hcx, hlt⟩
  by_cases hpicked : s ∈ above.take capacity
  · have hfront : ∀ rest : List α, (above.take capacity ++ rest).takeWhile (· ≠ s) =
        (above.take capacity).takeWhile (· ≠ s) := fun _ => takeWhile_ne_append hpicked
    refine ⟨fun x hx => ?_, ?_, fun hnot => absurd (List.mem_append_left _ hpicked) hnot⟩
    · rw [hfront] at hx
      exact hahead x ((List.takeWhile_prefix _).subset hx) (mem_takeWhile_lt hsorted hpicked hx)
    · rw [hfront]
      exact (hsorted.imp ne_of_lt).sublist (List.takeWhile_sublist _)
  · obtain ⟨hfull, hbefore⟩ := take_before habove hs hpicked
    have hnone : below.take (capacity - (above.take capacity).length) = [] := by
      rw [hfull, Nat.sub_self, List.take_zero]
    rw [hnone, List.append_nil]
    refine ⟨fun x hx => ?_, ?_, fun _ x hx => ?_⟩
    · have hmem := (List.takeWhile_prefix _).subset hx
      exact hahead x hmem (hbefore x hmem)
    · exact (hsorted.imp ne_of_lt).sublist (List.takeWhile_sublist _)
    · cases hlast : (above.take capacity).getLast? with
      | none =>
        rw [moved, hlast, Option.none_or] at hx
        rw [List.getLast?_eq_none_iff.mp hlast]
        exact ⟨hx, List.not_mem_nil⟩
      | some l =>
        have hl := List.mem_of_getLast? hlast
        rw [moved, hlast, Option.some_or, Ahead, if_pos (hbefore l hl)] at hx
        refine ⟨?_, fun hmem => absurd (le_getLast hsorted hlast x hmem) (not_le_of_gt hx.1)⟩
        cases cursor with
        | none => exact hx.2
        | some c =>
          have hcs : c < s := by simpa using hbeyond s hs
          have hcl : c < l := by simpa using hbeyond l (List.mem_of_mem_take hl)
          rw [Ahead, if_pos hcs]
          exact ⟨lt_trans hcl hx.1, hx.2⟩

/-- Where `s` stands at the cursor or below it, so does a turn that goes round. -/
theorem orderly_below {c : α} (habove : above.Pairwise (· < ·)) (hbelow : below.Pairwise (· < ·))
    (hbeyond : ∀ x ∈ above, c < x) (hbehind : ∀ x ∈ below, x ≤ c) (hs : s ∈ below) :
    Orderly s (some c)
      (above.take capacity ++ below.take (capacity - (above.take capacity).length)) := by
  obtain ⟨first, hfirst⟩ : ∃ first, first = above.take capacity := ⟨_, rfl⟩
  obtain ⟨second, hsecond⟩ : ∃ second, second = below.take (capacity - first.length) := ⟨_, rfl⟩
  rw [← hfirst, ← hsecond]
  have hsc := hbehind s hs
  have hfirstSorted : first.Pairwise (· < ·) := hfirst ▸ habove.sublist (List.take_sublist _ _)
  have hsecondSorted : second.Pairwise (· < ·) := hsecond ▸ hbelow.sublist (List.take_sublist _ _)
  have hup : ∀ x ∈ first, c < x := fun x hx =>
    hbeyond x (List.mem_of_mem_take (hfirst ▸ hx))
  have hdown : ∀ x ∈ second, x ≤ c := fun x hx =>
    hbehind x (List.mem_of_mem_take (hsecond ▸ hx))
  have hahead : ∀ x, Ahead s (some c) x ↔ c < x ∨ x < s := fun x => by
    rw [Ahead, if_neg (not_lt_of_ge hsc)]
  have hnot : s ∉ first := fun hmem => absurd (hup s hmem) (not_lt_of_ge hsc)
  have hsplit : (first ++ second).takeWhile (· ≠ s) = first ++ second.takeWhile (· ≠ s) :=
    List.takeWhile_append_of_pos fun x hx => by
      have hne : x ≠ s := fun heq => hnot (heq ▸ hx)
      simpa using hne
  have hbefore : ∀ x ∈ second.takeWhile (· ≠ s), x < s := by
    intro x hx
    by_cases hpicked : s ∈ second
    · exact mem_takeWhile_lt hsecondSorted hpicked hx
    · have hmem := (List.takeWhile_prefix _).subset hx
      rw [hsecond] at hpicked hmem
      exact (take_before hbelow hs hpicked).2 x hmem
  refine ⟨fun x hx => (hahead x).mpr ?_, ?_, fun hnone x hx => ?_⟩
  · rw [hsplit] at hx
    rcases List.mem_append.mp hx with hx | hx
    · exact Or.inl (hup x hx)
    · exact Or.inr (hbefore x hx)
  · rw [hsplit]
    refine List.nodup_append'.mpr ⟨hfirstSorted.imp ne_of_lt,
      (hsecondSorted.imp ne_of_lt).sublist (List.takeWhile_sublist _), fun x hx hx' => ?_⟩
    exact absurd (hup x hx) (not_lt_of_ge (hdown x ((List.takeWhile_prefix _).subset hx')))
  · have hskipped : s ∉ second := fun hmem => hnone (List.mem_append_right _ hmem)
    have hall := takeWhile_ne_of_not_mem hskipped
    rw [hall] at hbefore
    rw [hahead]
    cases hlast : second.getLast? with
    | some l =>
      have hl := List.mem_of_getLast? hlast
      rw [moved, List.getLast?_append, hlast, Option.some_or, Option.some_or, Ahead,
        if_pos (hbefore l hl)] at hx
      refine ⟨Or.inr hx.2, fun hmem => ?_⟩
      rcases List.mem_append.mp hmem with hmem | hmem
      · exact absurd (hup x hmem) (not_lt_of_ge (le_of_lt (lt_of_lt_of_le hx.2 hsc)))
      · exact absurd (le_getLast hsecondSorted hlast x hmem) (not_le_of_gt hx.1)
    | none =>
      rw [List.getLast?_eq_none_iff.mp hlast, List.append_nil] at hx ⊢
      cases htop : first.getLast? with
      | none =>
        rw [moved, htop, Option.none_or] at hx
        rw [List.getLast?_eq_none_iff.mp htop]
        exact ⟨(hahead x).mp hx, List.not_mem_nil⟩
      | some l =>
        have hcl := hup l (List.mem_of_getLast? htop)
        rw [moved, htop, Option.some_or, Ahead,
          if_neg (not_lt_of_ge (le_trans hsc (le_of_lt hcl)))] at hx
        rcases hx with hlx | hxs
        · exact ⟨Or.inl (lt_trans hcl hlx), fun hmem =>
            absurd (le_getLast hfirstSorted htop x hmem) (not_le_of_gt hlx)⟩
        · exact ⟨Or.inr hxs, fun hmem =>
            absurd (hup x hmem) (not_lt_of_ge (le_of_lt (lt_of_lt_of_le hxs hsc)))⟩

end Yuki.RoundRobin
