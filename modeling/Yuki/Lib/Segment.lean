import Mathlib.Data.List.Basic
import Mathlib.Data.List.Induction

/-! Greedy grouping of a sequence: an item joins the last group when its first
and last members allow it. Where grouping may restart, and when two runs agree again. -/

namespace Yuki

variable {α β : Type}

/-- Whether `x` continues the group `g`. -/
def joins (cont : α → α → α → Bool) (g : List α) (x : α) : Bool :=
  match g.head?, g.getLast? with
  | some first, some last => cont first last x
  | _, _ => false

/-- One more item: it joins the last group or opens a new one. -/
def pushItem (cont : α → α → α → Bool) (groups : List (List α)) (x : α) : List (List α) :=
  match groups.getLast? with
  | some g => if joins cont g x then groups.dropLast ++ [g ++ [x]] else groups ++ [[x]]
  | none => [[x]]

def segments (cont : α → α → α → Bool) (xs : List α) : List (List α) :=
  xs.foldl (pushItem cont) []

/-- What follows a group from `first` to `last`: its further members, and the later groups. -/
def resume (cont : α → α → α → Bool) (first last : α) : List α → List α × List (List α)
  | [] => ([], [])
  | x :: xs =>
    if cont first last x then (x :: (resume cont first x xs).1, (resume cont first x xs).2)
    else ([], (x :: (resume cont x x xs).1) :: (resume cont x x xs).2)

-- The equations of the functions are made here, once, for all the lemmas below.
example (cont : α → α → α → Bool) (first last : α) : resume cont first last [] = ([], []) := by
  rw [resume]

example (cont : α → α → α → Bool) (x : α) : joins cont [] x = false := by
  simp [joins]

section

variable (cont : α → α → α → Bool)

theorem pushItem_snoc (gs : List (List α)) (g : List α) (x : α) :
    pushItem cont (gs ++ [g]) x =
      if joins cont g x then gs ++ [g ++ [x]] else gs ++ [g] ++ [[x]] := by
  simp [pushItem]

theorem segments_snoc (xs : List α) (x : α) :
    segments cont (xs ++ [x]) = pushItem cont (segments cont xs) x := by
  simp [segments]

/-- The rest of a run depends only on the ends of the open group. -/
theorem foldl_pushItem {g : List α} {first last : α} (hf : g.head? = some first)
    (hl : g.getLast? = some last) (gs : List (List α)) (xs : List α) :
    xs.foldl (pushItem cont) (gs ++ [g]) =
      gs ++ (g ++ (resume cont first last xs).1) :: (resume cont first last xs).2 := by
  induction xs generalizing gs g first last with
  | nil => simp [resume]
  | cons x xs ih =>
    have hj : joins cont g x = cont first last x := by simp [joins, hf, hl]
    rw [List.foldl_cons, pushItem_snoc, hj]
    by_cases hc : cont first last x = true
    · have hhead : (g ++ [x]).head? = some first := by simp [List.head?_append, hf]
      have hlast : (g ++ [x]).getLast? = some x := by simp
      rw [if_pos hc, ih hhead hlast]
      simp [resume, hc]
    · have hhead : [x].head? = some x := rfl
      rw [if_neg hc, ih hhead rfl]
      simp [resume, hc]

theorem segments_cons (x : α) (xs : List α) :
    segments cont (x :: xs) = (x :: (resume cont x x xs).1) :: (resume cont x x xs).2 := by
  have hhead : [x].head? = some x := rfl
  have hh := foldl_pushItem cont hhead rfl [] xs
  simpa [segments, pushItem] using hh

theorem resume_flatten (first last : α) (xs : List α) :
    (resume cont first last xs).1 ++ (resume cont first last xs).2.flatten = xs := by
  induction xs generalizing first last with
  | nil => rfl
  | cons x xs ih =>
    by_cases hc : cont first last x = true
    · simp [resume, hc, ih]
    · simp [resume, hc, ih]

/-- The groups together are the sequence. -/
@[simp] theorem segments_flatten (xs : List α) : (segments cont xs).flatten = xs := by
  cases xs with
  | nil => rfl
  | cons x xs => simp [segments_cons, resume_flatten]

theorem resume_ne_nil {first last : α} {xs : List α} {g : List α}
    (hg : g ∈ (resume cont first last xs).2) : g ≠ [] := by
  induction xs generalizing first last with
  | nil => simp [resume] at hg
  | cons x xs ih =>
    by_cases hc : cont first last x = true
    · simp only [resume, hc, if_true] at hg
      exact ih hg
    · simp only [resume, hc, Bool.false_eq_true, if_false, List.mem_cons] at hg
      obtain rfl | hg := hg
      · simp
      · exact ih hg

theorem segments_ne_nil {xs g : List α} (hg : g ∈ segments cont xs) : g ≠ [] := by
  cases xs with
  | nil => simp [segments] at hg
  | cons x xs =>
    simp only [segments_cons, List.mem_cons] at hg
    obtain rfl | hg := hg
    · simp
    · exact resume_ne_nil cont hg

/-- A group that gains no member leaves the rest to be grouped on its own. -/
theorem resume_eq_segments {first last : α} {xs : List α}
    (h : (resume cont first last xs).1 = []) : (resume cont first last xs).2 = segments cont xs := by
  cases xs with
  | nil => rfl
  | cons x xs =>
    by_cases hc : cont first last x = true
    · simp [resume, hc] at h
    · simp [resume, hc, segments_cons]

/-- The open group of a grouping, and what a longer sequence makes of it. -/
theorem segments_append {xs : List α} {gs : List (List α)} {g : List α}
    (h : segments cont xs = gs ++ [g]) : ∃ first last, g.head? = some first ∧
      g.getLast? = some last ∧ ∀ ys, segments cont (xs ++ ys) =
        gs ++ (g ++ (resume cont first last ys).1) :: (resume cont first last ys).2 := by
  have hmem : g ∈ segments cont xs := by simp [h]
  have hne : g ≠ [] := segments_ne_nil cont hmem
  refine ⟨g.head hne, g.getLast hne, List.head?_eq_some_head hne, List.getLast?_eq_some_getLast hne, ?_⟩
  intro ys
  have hh := foldl_pushItem cont (List.head?_eq_some_head hne) (List.getLast?_eq_some_getLast hne) gs ys
  rw [← hh, ← h]
  simp [segments]

/-- The first groups of a grouping are the grouping of their members. -/
theorem segments_left {xs : List α} {pre post : List (List α)}
    (h : segments cont xs = pre ++ post) : segments cont pre.flatten = pre := by
  induction xs using List.reverseRecOn generalizing pre post with
  | nil =>
    obtain ⟨rfl, -⟩ : pre = [] ∧ post = [] := by simpa [segments] using h.symm
    rfl
  | append_singleton ys x ih =>
    obtain rfl | ⟨post, g, rfl⟩ := List.eq_nil_or_concat post
    · have hf := segments_flatten cont (ys ++ [x])
      rw [h, List.append_nil] at hf
      rw [hf, h, List.append_nil]
    · rw [segments_snoc] at h
      obtain hs | ⟨gs, u, hs⟩ := List.eq_nil_or_concat (segments cont ys)
      · have hlen := congrArg List.length h
        obtain rfl : pre = [] := by
          simp only [hs, pushItem, List.getLast?_nil, List.length_append, List.length_cons,
            List.length_nil, List.concat_eq_append] at hlen
          exact List.eq_nil_of_length_eq_zero (by omega)
        rfl
      · rw [List.concat_eq_append] at hs h
        rw [hs, pushItem_snoc] at h
        by_cases hj : joins cont u x = true
        · rw [if_pos hj, ← List.append_assoc] at h
          obtain ⟨hgs, -⟩ := List.append_inj' h rfl
          have hsplit : segments cont ys = pre ++ (post ++ [u]) := by
            rw [hs, hgs, List.append_assoc]
          exact ih hsplit
        · rw [if_neg hj, ← List.append_assoc] at h
          obtain ⟨hgs, -⟩ := List.append_inj' h rfl
          exact ih (hs.trans hgs)

/-- Grouping restarts at every group: the last groups are the grouping of their members. -/
theorem segments_right {xs : List α} {pre post : List (List α)}
    (h : segments cont xs = pre ++ post) : segments cont post.flatten = post := by
  have hx : xs = pre.flatten ++ post.flatten := by
    rw [← segments_flatten cont xs, h, List.flatten_append]
  obtain rfl | ⟨gs, g, rfl⟩ := List.eq_nil_or_concat pre
  · have hall : segments cont xs = post := by simpa using h
    rw [← hall, segments_flatten]
  · have hleft := segments_left cont h
    rw [List.concat_eq_append] at hleft hx h
    obtain ⟨first, last, -, -, hext⟩ := segments_append cont hleft
    have hh := hext post.flatten
    rw [← hx, h, List.append_assoc] at hh
    have hcons := List.append_cancel_left hh
    simp only [List.singleton_append, List.cons.injEq] at hcons
    have hnil : (resume cont first last post.flatten).1 = [] := by
      simpa using hcons.1.symm
    rw [← resume_eq_segments cont hnil, ← hcons.2]

/-- A group on its own is one group. -/
theorem segments_mem {xs g : List α} (h : g ∈ segments cont xs) : segments cont g = [g] := by
  obtain ⟨pre, post, hp⟩ := List.append_of_mem h
  have hright := segments_right cont hp
  have hh : segments cont (g :: post).flatten = [g] ++ post := by simpa using hright
  simpa using segments_left cont hh

/-- Grouping may start afresh at a group whose first member stays where it is. -/
theorem segments_restart {xs ys : List α} {pre post : List (List α)} {x : α}
    (h : segments cont xs = pre ++ post) (hx : post.flatten.head? = some x)
    (hy : ys.head? = some x) : segments cont (pre.flatten ++ ys) = pre ++ segments cont ys := by
  obtain rfl | ⟨gs, g, rfl⟩ := List.eq_nil_or_concat pre
  · rfl
  · have hleft := segments_left cont h
    have hright := segments_right cont h
    have hxs : xs = (gs.concat g).flatten ++ post.flatten := by
      rw [← segments_flatten cont xs, h, List.flatten_append]
    rw [List.concat_eq_append] at hleft hxs h ⊢
    obtain ⟨first, last, -, -, hext⟩ := segments_append cont hleft
    obtain ⟨zs, hz⟩ : ∃ zs, post.flatten = x :: zs := ⟨_, (List.eq_cons_of_mem_head? hx)⟩
    obtain ⟨ws, hw⟩ : ∃ ws, ys = x :: ws := ⟨_, (List.eq_cons_of_mem_head? hy)⟩
    have hstop : cont first last x = false := by
      have hh := hext post.flatten
      rw [← hxs, h, List.append_assoc, hz] at hh
      have hcons := List.append_cancel_left hh
      by_contra hc
      rw [Bool.not_eq_false] at hc
      simp [resume, hc] at hcons
    rw [hext ys, hw]
    simp [resume, hstop, segments_cons]

/-- Every group of a prefix is the beginning of a group of the whole. -/
theorem segments_extend {xs g : List α} (h : g ∈ segments cont xs) (ys : List α) :
    ∃ zs, g ++ zs ∈ segments cont (xs ++ ys) ∧ zs <+: ys := by
  obtain hnil | ⟨gs, u, hgs⟩ := List.eq_nil_or_concat (segments cont xs)
  · simp [hnil] at h
  · rw [List.concat_eq_append] at hgs
    obtain ⟨first, last, -, -, hext⟩ := segments_append cont hgs
    rw [hgs, List.mem_append, List.mem_singleton] at h
    obtain h | rfl := h
    · exact ⟨[], by simp [hext ys, h], List.nil_prefix⟩
    · refine ⟨(resume cont first last ys).1, by simp [hext ys], ?_⟩
      exact ⟨_, resume_flatten cont first last ys⟩

/-- Two runs whose open groups have the same ends go on alike. -/
theorem segments_resync {xs xs' : List α} {gs gs' : List (List α)} {g g' : List α}
    (h : segments cont xs = gs ++ [g]) (h' : segments cont xs' = gs' ++ [g'])
    (hhead : g.head? = g'.head?) (hlast : g.getLast? = g'.getLast?) (ys : List α) :
    ∃ zs rest, segments cont (xs ++ ys) = gs ++ (g ++ zs) :: rest ∧
      segments cont (xs' ++ ys) = gs' ++ (g' ++ zs) :: rest ∧ zs ++ rest.flatten = ys := by
  obtain ⟨first, last, hf, hl, hext⟩ := segments_append cont h
  obtain ⟨first', last', hf', hl', hext'⟩ := segments_append cont h'
  obtain rfl : first = first' := Option.some.inj (hf.symm.trans (hhead.trans hf'))
  obtain rfl : last = last' := Option.some.inj (hl.symm.trans (hlast.trans hl'))
  exact ⟨_, _, hext ys, hext' ys, resume_flatten cont first last ys⟩

theorem exists_last_segment (xs : List α) (x : α) :
    ∃ gs g, segments cont (xs ++ [x]) = gs ++ [g] := by
  obtain hnil | ⟨gs, g, hc⟩ := List.eq_nil_or_concat (segments cont (xs ++ [x]))
  · have hflat := segments_flatten cont (xs ++ [x])
    rw [hnil] at hflat
    simp at hflat
  · exact ⟨gs, g, by rw [hc, List.concat_eq_append]⟩

/-- The last group of a sequence ends with its last item. -/
theorem segments_last {xs : List α} {x : α} {gs : List (List α)} {g : List α}
    (h : segments cont (xs ++ [x]) = gs ++ [g]) : g.getLast? = some x := by
  have hmem : g ∈ segments cont (xs ++ [x]) := by simp [h]
  have hne : g ≠ [] := segments_ne_nil cont hmem
  have hflat := segments_flatten cont (xs ++ [x])
  rw [h, List.flatten_append, List.flatten_singleton] at hflat
  have hl := congrArg List.getLast? hflat
  rwa [List.getLast?_append_of_ne_nil _ hne, List.getLast?_concat] at hl

end

/-- In a grouping without repetition an item has one group. -/
theorem group_unique {gs : List (List α)} (hn : gs.flatten.Nodup) {g g' : List α} {x : α}
    (hg : g ∈ gs) (hg' : g' ∈ gs) (hx : x ∈ g) (hx' : x ∈ g') : g = g' := by
  induction gs with
  | nil => simp at hg
  | cons u gs ih =>
    rw [List.flatten_cons, List.nodup_append] at hn
    obtain ⟨-, hn', hdis⟩ := hn
    rw [List.mem_cons] at hg hg'
    obtain rfl | hg := hg
    · obtain rfl | hg' := hg'
      · rfl
      · exact absurd rfl (hdis x hx x (List.mem_flatten_of_mem hg' hx'))
    · obtain rfl | hg' := hg'
      · exact absurd rfl (hdis x hx' x (List.mem_flatten_of_mem hg hx))
      · exact ih hn' hg hg'

/-- Without repetition a sequence splits at an item in one way. -/
theorem split_unique {xs xs' ys ys' : List α} {x : α} (hn : (xs ++ x :: ys).Nodup)
    (h : xs ++ x :: ys = xs' ++ x :: ys') : xs = xs' ∧ ys = ys' := by
  induction xs generalizing xs' with
  | nil =>
    cases xs' with
    | nil => simpa using h
    | cons z xs' =>
      obtain ⟨rfl, hrest⟩ := List.cons.inj h
      rw [List.nil_append, List.nodup_cons] at hn
      exact absurd (by simp [hrest]) hn.1
  | cons z xs ih =>
    rw [List.cons_append, List.nodup_cons] at hn
    cases xs' with
    | nil =>
      obtain ⟨rfl, hrest⟩ := List.cons.inj h
      exact absurd (by simp) hn.1
    | cons w xs' =>
      obtain ⟨rfl, hrest⟩ := List.cons.inj h
      obtain ⟨rfl, rfl⟩ := ih hn.2 hrest
      exact ⟨rfl, rfl⟩

/-- Groupings under a relabelling of the items. -/
theorem segments_map {cont : α → α → α → Bool} {cont' : β → β → β → Bool} {f : α → β}
    {xs : List α} (h : ∀ a ∈ xs, ∀ b ∈ xs, ∀ c ∈ xs, cont' (f a) (f b) (f c) = cont a b c) :
    segments cont' (xs.map f) = (segments cont xs).map (List.map f) := by
  have hres : ∀ (ys : List α) (a b : α), a ∈ xs → b ∈ xs → (∀ y ∈ ys, y ∈ xs) →
      resume cont' (f a) (f b) (ys.map f) =
        ((resume cont a b ys).1.map f, (resume cont a b ys).2.map (List.map f)) := by
    intro ys
    induction ys with
    | nil => intro a b _ _ _; rfl
    | cons y ys ih =>
      intro a b ha hb hys
      have hy : y ∈ xs := hys y (by simp)
      have hrest : ∀ z ∈ ys, z ∈ xs := fun z hz => hys z (by simp [hz])
      by_cases hc : cont a b y = true
      · simp [resume, h a ha b hb y hy, hc, ih a y ha hy hrest]
      · simp [resume, h a ha b hb y hy, hc, ih y y hy hy hrest]
  cases xs with
  | nil => rfl
  | cons x xs =>
    rw [List.map_cons, segments_cons, segments_cons,
      hres xs x x (by simp) (by simp) (fun y hy => by simp [hy])]
    rfl

end Yuki
