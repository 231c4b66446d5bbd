import Yuki.ToolResults.JsonPages

/-! Following the cursor of a JSON artifact: every child, member or match is
shown once, in pages as long as the budget allows. -/

namespace Yuki.ToolResults

/-! The loop is the search for the longest prefix that fits. -/

def cursorWidth (total stop : Nat) : Nat :=
  if stop < total then digits stop else 4

def cursorFloor (terminal : Bool) (stop : Nat) : Nat :=
  if terminal then min (digits stop) 4 else digits stop

/-- The members with the separators between them. -/
def usedSum (lens : List Int) : Int :=
  lens.sum + 2 * ((lens.length - 1 : Nat) : Int)

theorem usedSum_append_one (lens : List Int) (len : Int) :
    usedSum (lens ++ [len]) = usedSum lens + len + if lens.length + 1 > 1 then 2 else 0 := by
  cases lens with
  | nil => simp [usedSum]
  | cons a lens =>
    simp [usedSum]
    omega

def knownSizes (sizes : List (Option Int)) : List Int :=
  sizes.map fun size => size.getD 0

section Loop

variable (sizes : List (Option Int)) (fixed : Int) (offset total : Nat) (terminal : Bool)
  (budget : Nat)

def prefixFits (l : Nat) : Bool :=
  (sizes.take l).all (·.isSome) &&
    decide (fixed + usedSum (knownSizes (sizes.take l)) + cursorWidth total (offset + l) ≤ budget)

def prefixStops (l : Nat) : Bool :=
  !(sizes.take l).all (·.isSome) ||
    decide (fixed + usedSum (knownSizes (sizes.take l)) + cursorFloor terminal (offset + l) > budget)

theorem longestFit_stopped {fits stops : Nat → Bool} {n length best : Nat}
    (hf : fits (length + 1) = false) (hs : stops (length + 1) = true) (hn : 0 < n) :
    longestFit fits stops n length best = best := by
  obtain ⟨m, rfl⟩ := Nat.exists_eq_succ_of_ne_zero (Nat.pos_iff_ne_zero.1 hn)
  simp [longestFit, hf, hs]

theorem prefixLoop_eq {pre cs : List (Option Int)} (h : pre ++ cs = sizes)
    (hpre : pre.all (·.isSome) = true) (best : Nat) :
    prefixLoop fixed offset total terminal budget cs pre.length (usedSum (knownSizes pre)) best =
      longestFit (prefixFits sizes fixed offset total budget)
        (prefixStops sizes fixed offset terminal budget) cs.length pre.length best := by
  induction cs generalizing pre best with
  | nil => rfl
  | cons size cs ih =>
    have htake : sizes.take (pre.length + 1) = pre ++ [size] := by
      rw [← h, List.take_append]
      simp
    cases size with
    | none =>
      have hall : (sizes.take (pre.length + 1)).all (·.isSome) = false := by simp [htake]
      rw [longestFit_stopped (by simp [prefixFits, hall]) (by simp [prefixStops, hall]) (by simp)]
      rfl
    | some n =>
      have hall : (sizes.take (pre.length + 1)).all (·.isSome) = true := by
        rw [htake, List.all_append, hpre]
        rfl
      have hused : usedSum (knownSizes (pre ++ [some n])) =
          usedSum (knownSizes pre) + n + if pre.length + 1 > 1 then 2 else 0 := by
        have := usedSum_append_one (knownSizes pre) n
        simpa [knownSizes] using this
      have hnext : (pre ++ [some n]) ++ cs = sizes := by simpa using h
      have hih := fun best => ih hnext (by rw [← htake]; exact hall) best
      simp only [List.length_append, List.length_cons, List.length_nil, Nat.zero_add] at hih
      have hfits : prefixFits sizes fixed offset total budget (pre.length + 1) =
          decide (fixed + usedSum (knownSizes (pre ++ [some n])) +
            cursorWidth total (offset + (pre.length + 1)) ≤ budget) := by
        rw [prefixFits, hall, htake, Bool.true_and]
      have hstops : prefixStops sizes fixed offset terminal budget (pre.length + 1) =
          decide (fixed + usedSum (knownSizes (pre ++ [some n])) +
            cursorFloor terminal (offset + (pre.length + 1)) > budget) := by
        rw [prefixStops, hall, htake, Bool.not_true, Bool.false_or]
      simp only [prefixLoop, List.length_cons, longestFit, hfits, hstops, decide_eq_true_eq, ← hused,
        hih]
      rfl

end Loop

/-- A size is the length of a member, or both are past the budget. -/
structure Sized (budget : Nat) (size : Option Int) (len : Int) : Prop where
  nonneg : 0 ≤ len
  size : ∀ s, size = some s → s = len ∨ (budget : Int) < s ∧ (budget : Int) < len

theorem usedSum_take_mono {lens : List Int} (h : ∀ len ∈ lens, 0 ≤ len) {l l' : Nat} (hl : l ≤ l') :
    usedSum (lens.take l) ≤ usedSum (lens.take l') := by
  have hsplit : lens.take l' = lens.take l ++ (lens.drop l).take (l' - l) := by
    rw [← List.take_add, Nat.add_sub_cancel' hl]
  have hrest : 0 ≤ ((lens.drop l).take (l' - l)).sum :=
    List.sum_nonneg fun len hm => h len (List.mem_of_mem_drop (List.mem_of_mem_take hm))
  rw [hsplit]
  simp only [usedSum, List.sum_append, List.length_append]
  omega

theorem cursorFloor_le {terminal : Bool} {total stop stop' : Nat} (h : stop < stop')
    (hterminal : terminal = false → stop' < total) :
    cursorFloor terminal stop ≤ cursorWidth total stop' := by
  have hd := digits_mono (Nat.le_of_lt h)
  unfold cursorFloor cursorWidth
  cases terminal with
  | true =>
    rw [if_pos rfl]
    split <;> omega
  | false =>
    rw [if_neg (by simp), if_pos (hterminal rfl)]
    exact hd

/-- Sizes that are cut off at the budget decide as the lengths themselves do. -/
theorem sized_fits {budget : Nat} {sizes : List (Option Int)} {lens : List Int}
    (h : List.Forall₂ (Sized budget) sizes lens) (hknown : sizes.all (·.isSome) = true) :
    (∀ size ∈ knownSizes sizes, 0 ≤ size) ∧ (∀ len ∈ lens, 0 ≤ len) ∧
      ∀ c : Int, 0 ≤ c →
        (usedSum (knownSizes sizes) + c ≤ budget ↔ usedSum lens + c ≤ budget) := by
  have hlen := h.length_eq
  have hsum : (∀ size ∈ knownSizes sizes, 0 ≤ size) ∧ (∀ len ∈ lens, 0 ≤ len) ∧
      ((knownSizes sizes).sum = lens.sum ∨
        (budget : Int) < (knownSizes sizes).sum ∧ (budget : Int) < lens.sum) := by
    clear hlen
    induction h with
    | nil => simp [knownSizes]
    | @cons size len sizes lens hs hrest ih =>
      cases size with
      | none => simp at hknown
      | some n =>
        obtain ⟨h1, h2, h3⟩ := ih (by simpa using hknown)
        have hs1 := List.sum_nonneg h1
        have hs2 := List.sum_nonneg h2
        have hl0 := hs.nonneg
        have hn := hs.size n rfl
        simp only [knownSizes, List.map_cons, Option.getD_some, List.mem_cons, forall_eq_or_imp,
          List.sum_cons] at h1 h3 hs1 ⊢
        refine ⟨⟨by omega, h1⟩, ⟨hl0, h2⟩, by omega⟩
  refine ⟨hsum.1, hsum.2.1, fun c hc => ?_⟩
  have hl : (knownSizes sizes).length = lens.length := by simp [knownSizes, hlen]
  obtain heq | ⟨h1, h2⟩ := hsum.2.2
  · rw [usedSum, usedSum, heq, hl]
  · unfold usedSum
    omega

/-- `_prefix_count` is the longest prefix of members whose sizes are known and that fits. -/
theorem prefixCount_spec {sizes : List (Option Int)} {lens : List Int} {fixed : Int}
    {offset total limit budget : Nat} (hfixed : 0 ≤ fixed)
    (hsized : List.Forall₂ (Sized budget) sizes lens)
    (hlen : sizes.length = min limit (total - offset)) :
    LongestFit (fun l => (sizes.take l).all (·.isSome) &&
        decide (fixed + usedSum (lens.take l) + cursorWidth total (offset + l) ≤ budget))
      (min limit (total - offset)) (prefixCount sizes fixed offset total limit budget) := by
  have htake : sizes.take limit = sizes := List.take_of_length_le (by omega)
  rw [prefixCount, htake]
  generalize hterminal : decide (offset + min limit (total - offset) = total) = terminal
  have hfits : (fun l => (sizes.take l).all (·.isSome) &&
      decide (fixed + usedSum (lens.take l) + cursorWidth total (offset + l) ≤ budget)) =
      prefixFits sizes fixed offset total budget := by
    funext l
    unfold prefixFits
    cases hall : (sizes.take l).all (·.isSome) with
    | false => rfl
    | true =>
      have hiff := (sized_fits (List.forall₂_take l hsized) hall).2.2
        (fixed + cursorWidth total (offset + l)) (by omega)
      rw [Bool.true_and, Bool.true_and, decide_eq_decide]
      constructor <;> intro h <;> omega
  rw [hfits, ← hlen]
  have hstop : ∀ l l', prefixStops sizes fixed offset terminal budget l = true → l < l' →
      l' ≤ 0 + sizes.length → prefixFits sizes fixed offset total budget l' = false := by
    intro l l' hs hlt hle
    rw [Nat.zero_add] at hle
    unfold prefixFits
    cases hall : (sizes.take l').all (·.isSome) with
    | false => rfl
    | true =>
      have hsplit : sizes.take l = (sizes.take l').take l := by
        rw [List.take_take, Nat.min_eq_left (Nat.le_of_lt hlt)]
      have hall' : (sizes.take l).all (·.isSome) = true := by
        rw [hsplit, List.all_eq_true]
        intro size hm
        exact List.all_eq_true.1 hall size (List.mem_of_mem_take hm)
      have hnonneg := (sized_fits (List.forall₂_take l' hsized) hall).1
      have hmono := usedSum_take_mono hnonneg (Nat.le_of_lt hlt)
      have hknown : (knownSizes (sizes.take l')).take l = knownSizes (sizes.take l) := by
        rw [hsplit]
        simp [knownSizes]
      rw [hknown] at hmono
      have hlast : (knownSizes (sizes.take l')).take l' = knownSizes (sizes.take l') :=
        List.take_of_length_le (by simp [knownSizes])
      rw [hlast] at hmono
      have hlater : terminal = false → offset + l' < total := by
        intro ht
        rw [ht, decide_eq_false_iff_not] at hterminal
        omega
      have hfloor := cursorFloor_le (Nat.add_lt_add_left hlt offset) hlater
      simp only [prefixStops, hall', Bool.not_true, Bool.false_or, decide_eq_true_eq] at hs
      rw [Bool.true_and, decide_eq_false_iff_not]
      omega
  have hloop := longestFit_spec hstop (LongestFit.zero _)
  have heq := prefixLoop_eq sizes fixed offset total terminal budget (List.nil_append sizes) rfl 0
  rw [Nat.zero_add] at hloop
  exact heq ▸ hloop

/-! The length of a page. -/

section Lengths

variable {comma colon : List Char}

theorem fieldsLength_append (first : Bool) (xs ys : List (String × Json)) :
    fieldsLength comma colon first (xs ++ ys) = fieldsLength comma colon first xs +
      fieldsLength comma colon (first && xs.isEmpty) ys := by
  induction xs generalizing first with
  | nil => simp [fieldsLength]
  | cons x xs ih =>
    obtain ⟨k, v⟩ := x
    simp only [List.cons_append, fieldsLength, ih, Bool.false_and, List.isEmpty_cons, Bool.and_false]
    omega

end Lengths

/-- Two pages of one kind differ by their collections and their cursors. -/
theorem dumpsLength_collectionPage (front : List (String × Json)) (name : String)
    (collection collection' : Json) (next : Option Nat) (back : List (String × Json)) :
    dumpsLength (collectionPage front name collection next back) =
      dumpsLength (collectionPage front name collection' none back) - dumpsLength collection' - 4 +
        dumpsLength collection + next.elim 4 fun n => (digits n : Int) := by
  simp only [dumpsLength, collectionPage, textLength_obj, fieldsLength_append, fieldsLength,
    textLength_optionalInt, Option.elim]
  omega

theorem cursorWidth_eq (offset count total : Nat) :
    ((nextOffset offset count total).elim 4 fun n => (digits n : Int)) =
      cursorWidth total (offset + count) := by
  unfold nextOffset cursorWidth
  split <;> rfl

theorem itemsLength_eq (items : List Json) :
    itemsLength [',', ' '] [':', ' '] true items = usedSum (items.map dumpsLength) ∧
    itemsLength [',', ' '] [':', ' '] false items =
      (items.map dumpsLength).sum + 2 * (items.length : Int) := by
  induction items with
  | nil => exact ⟨rfl, rfl⟩
  | cons x xs ih =>
    simp only [itemsLength, ih.2, List.map_cons, usedSum, List.sum_cons, List.length_cons,
      List.length_map, List.length_nil, dumpsLength]
    constructor <;> simp <;> omega

def memberLength (f : String × Json) : Int :=
  (Json.quote f.1).length + 2 + dumpsLength f.2

theorem fieldsLength_eq (fields : List (String × Json)) :
    fieldsLength [',', ' '] [':', ' '] true fields = usedSum (fields.map memberLength) ∧
    fieldsLength [',', ' '] [':', ' '] false fields =
      (fields.map memberLength).sum + 2 * (fields.length : Int) := by
  induction fields with
  | nil => exact ⟨rfl, rfl⟩
  | cons f fs ih =>
    obtain ⟨k, v⟩ := f
    simp only [fieldsLength, ih.2, List.map_cons, usedSum, List.sum_cons, List.length_cons,
      List.length_map, List.length_nil, dumpsLength, memberLength]
    constructor <;> simp <;> omega

theorem dumpsLength_arr (items : List Json) :
    dumpsLength (.arr items) = 2 + usedSum (items.map dumpsLength) := by
  rw [dumpsLength, textLength_arr, (itemsLength_eq items).1]

theorem dumpsLength_obj (fields : List (String × Json)) :
    dumpsLength (.obj fields) = 2 + usedSum (fields.map memberLength) := by
  rw [dumpsLength, textLength_obj, (fieldsLength_eq fields).1]

theorem sized_saturated {budget : Nat} {len : Int} (h : 0 ≤ len) {size : Option Int}
    (hsize : ∀ s, size = some s → s = saturated (some (budget : Int)) len) : Sized budget size len := by
  refine ⟨h, fun s hs => ?_⟩
  rw [hsize s hs, saturated]
  simp only [isNegative, Option.any_some, decide_eq_true_eq, cap]
  rw [if_neg (by omega)]
  omega

theorem dumpsLength_nonneg (j : Json) : 0 ≤ dumpsLength j :=
  Int.natCast_nonneg _

/-! Following the cursor. -/

section Visits

variable {α : Type}

/-- The pages a reader gets, as answers of an operation; nothing is an exception. -/
def jsonPager (read : Nat → Option Json) (shown : Json → List α) : Pager α (Option Json) where
  read := read
  refused reply := reply.all fun page => (page.get "error_code").isStr
  next reply := reply.bind fun page => match page.get "next_offset" with
    | .int n => some n.toNat
    | _ => none
  shown reply := reply.elim [] shown

/-- How an operation pages through a list: `page o count` shows `count` entries from `o` on and
fits when its envelope does and its entries could be counted. -/
structure PagesOf (read : Nat → Option Json) (shown : Json → List α) (items : List α)
    (page : Nat → Nat → Json) (countable : Nat → Nat → Bool) (limit budget : Nat) : Prop where
  reply : ∀ o, o < items.length → ∃ count,
    LongestFit (fun l => countable o l && decide (dumpsLength (artifactEnvelope (page o l)) ≤ budget))
      (min limit (items.length - o)) count ∧
    if count = 0 then ∃ error, read o = some error ∧ (error.get "error_code").isStr = true
    else read o = some (page o count)
  past : ∀ o, items.length ≤ o → read o = some (page o 0)
  shows : ∀ o count, count ≤ min limit (items.length - o) →
    shown (page o count) = (items.drop o).take count
  next : ∀ o count, (page o count).get "next_offset" = optionalInt (nextOffset o count items.length)
  isPage : ∀ o count, IsPage (page o count)

/-- The walk from 0 shows every entry once, in pages as long as they may be. -/
def VisitsOnce (read : Nat → Option Json) (shown : Json → List α) (items : List α)
    (page : Nat → Nat → Json) (countable : Nat → Nat → Bool) (limit budget : Nat) : Prop :=
  ∃ pages ending, (jsonPager read shown).Walk 0 pages ending ∧
    (pages.map Prod.fst).Pairwise (· < ·) ∧
    (∀ p ∈ pages, ∃ count, p.2 = some (page p.1 count) ∧
      (0 < count → dumpsLength (artifactEnvelope (page p.1 count)) ≤ budget) ∧
      (count = 0 → items.length ≤ p.1) ∧
      LongestFit (fun l => countable p.1 l &&
        decide (dumpsLength (artifactEnvelope (page p.1 l)) ≤ budget))
        (min limit (items.length - p.1)) count) ∧
    match ending with
    | .finished => pages.flatMap (fun p => p.2.elim [] shown) = items
    | .refused o => o < items.length ∧ pages.flatMap (fun p => p.2.elim [] shown) = items.take o ∧
      (∃ error, read o = some error ∧ (error.get "error_code").isStr = true) ∧
      (countable o 1 = false ∨ (budget : Int) < dumpsLength (artifactEnvelope (page o 1)))

variable {read : Nat → Option Json} {shown : Json → List α} {items : List α}
  {page : Nat → Nat → Json} {countable : Nat → Nat → Bool} {limit budget : Nat}

theorem next_optionalInt (n : Option Nat) : (match optionalInt n with
    | .int n => some n.toNat
    | _ => none) = n := by
  cases n <;> rfl

theorem isStr_page {j : Json} (h : IsPage j) : (j.get "error_code").isStr = false := by
  cases hc : j.get "error_code" with
  | str s => exact absurd hc (h.2.1 s)
  | _ => rfl

theorem PagesOf.serves (h : PagesOf read shown items page countable limit budget) :
    (jsonPager read shown).Serves items := by
  intro o ho hr
  by_cases hlt : o < items.length
  · obtain ⟨count, hfit, hreply⟩ := h.reply o hlt
    by_cases hc : count = 0
    · rw [if_pos hc] at hreply
      obtain ⟨error, he, hstr⟩ := hreply
      have : (jsonPager read shown).refused (read o) = true := by
        rw [he]
        exact hstr
      rw [show (jsonPager read shown).read o = read o from rfl, this] at hr
      cases hr
    · rw [if_neg hc] at hreply
      have hle := hfit.le
      refine ⟨count, ?_, by omega, fun _ => Nat.pos_of_ne_zero hc, ?_⟩
      · show (read o).elim [] shown = _
        rw [hreply]
        exact h.shows o count hle
      · show ((read o).bind fun page => _) = _
        rw [hreply, Option.bind_some, h.next, next_optionalInt]
        rfl
  · have hreply := h.past o (Nat.not_lt.1 hlt)
    refine ⟨0, ?_, by omega, fun hlt' => absurd hlt' hlt, ?_⟩
    · show (read o).elim [] shown = _
      rw [hreply]
      exact h.shows o 0 (Nat.zero_le _)
    · show ((read o).bind fun page => _) = _
      rw [hreply, Option.bind_some, h.next, next_optionalInt]
      rfl

theorem PagesOf.visitsOnce (h : PagesOf read shown items page countable limit budget)
    (hlimit : 1 ≤ limit) : VisitsOnce read shown items page countable limit budget := by
  obtain ⟨pages, ending, hwalk⟩ := Pager.exists_walk h.serves (Nat.zero_le items.length)
  obtain ⟨hmem, hincreasing, hcovers⟩ := hwalk.covers h.serves (Nat.zero_le items.length)
  refine ⟨pages, ending, hwalk, hincreasing, fun p hp => ?_, ?_⟩
  · obtain ⟨-, hle, hread, hrefused⟩ := hmem p hp
    have hread : p.2 = read p.1 := hread
    by_cases hlt : p.1 < items.length
    · obtain ⟨count, hfit, hreply⟩ := h.reply p.1 hlt
      by_cases hc : count = 0
      · rw [if_pos hc] at hreply
        obtain ⟨error, he, hstr⟩ := hreply
        rw [hread, he] at hrefused
        exact absurd (hstr.symm.trans hrefused) (by simp)
      · rw [if_neg hc] at hreply
        refine ⟨count, hread.trans hreply, fun hpos => ?_, fun h0 => absurd h0 hc, hfit⟩
        have := hfit.holds hpos
        simp only [Bool.and_eq_true, decide_eq_true_eq] at this
        exact this.2
    · have hzero : min limit (items.length - p.1) = 0 := by omega
      refine ⟨0, hread.trans (h.past p.1 (Nat.not_lt.1 hlt)), fun h0 => absurd h0 (by omega),
        fun _ => Nat.not_lt.1 hlt, ?_⟩
      rw [hzero]
      exact LongestFit.zero _
  · cases ending with
    | finished => exact hcovers
    | refused o =>
      obtain ⟨-, hle, hrefused, hshown⟩ := hcovers
      have hrefused : (read o).all (fun page => (page.get "error_code").isStr) = true := hrefused
      have hlt : o < items.length := by
        by_contra hge
        rw [h.past o (Nat.not_lt.1 hge)] at hrefused
        simp [isStr_page (h.isPage o 0)] at hrefused
      obtain ⟨count, hfit, hreply⟩ := h.reply o hlt
      have hc : count = 0 := by
        by_contra hc
        rw [if_neg hc] at hreply
        rw [hreply] at hrefused
        simp [isStr_page (h.isPage o count)] at hrefused
      subst hc
      refine ⟨hlt, hshown, by simpa using hreply, ?_⟩
      by_contra hno
      rw [not_or, Int.not_lt, Bool.not_eq_false] at hno
      have := hfit.longest 1 Nat.one_pos (by omega) (by simp [hno.1, hno.2])
      omega

end Visits

/-! The three operations. -/

theorem selected_eq {β : Type} (sorted : List β) (offset limit : Nat) :
    selected sorted offset limit = (sorted.drop offset).take limit := by
  rw [selected, List.drop_take, Nat.add_sub_cancel_left]

theorem length_selected {β : Type} (sorted : List β) (offset limit : Nat) :
    (selected sorted offset limit).length = min limit (sorted.length - offset) := by
  rw [selected_eq, List.length_take, List.length_drop]

theorem take_selected {β : Type} (sorted : List β) {offset limit count : Nat}
    (h : count ≤ min limit (sorted.length - offset)) :
    (selected sorted offset limit).take count = (sorted.drop offset).take count := by
  rw [selected_eq, List.take_take, Nat.min_eq_left (by omega)]

theorem heightItems_parts (path : List Part) :
    Node.heightItems (Node.ofItems (path.map Part.json)) ≤ 1 := by
  induction path with
  | nil => simp [Node.ofItems, Node.heightItems]
  | cons part path ih =>
    have hpart : (Node.ofJson part.json).height = 1 := by cases part <;> rfl
    simp only [List.map_cons, Node.ofItems, Node.heightItems, hpart]
    omega

theorem heightFields_append (xs ys : List (String × Json)) :
    Node.heightFields (Node.ofFields (xs ++ ys)) =
      max (Node.heightFields (Node.ofFields xs)) (Node.heightFields (Node.ofFields ys)) := by
  induction xs with
  | nil => simp [Node.ofFields, Node.heightFields]
  | cons x xs ih =>
    obtain ⟨k, v⟩ := x
    simp only [List.cons_append, Node.ofFields, Node.heightFields, ih]
    omega

theorem height_pathJson (path : List Part) : (Node.ofJson (pathJson path)).height ≤ 2 := by
  have := heightItems_parts path
  simp only [pathJson, Node.ofJson, Node.height]
  omega

theorem heightFields_base (g : Setting) : Node.heightFields (Node.ofFields g.base) = 1 := by
  simp [Setting.base, Node.ofFields, Node.ofJson, Node.heightFields, Node.height]

theorem heightFields_shape (value : Node) :
    Node.heightFields (Node.ofFields (valueShape value)) = 1 := by
  cases value <;> simp [valueShape, Node.ofFields, Node.ofJson, Node.heightFields, Node.height]

/-- The fixed part of a page that is not too high. -/
theorem pageFixedSize_eq (g : Setting) {page : Json} (h : IsPage page)
    (hh : (Node.ofJson page).height < g.stack) :
    g.pageFixedSize page = some (emptyEnvelope + dumpsLength page - 4) := by
  rw [Setting.pageFixedSize, artifactPageSize_page h hh]
  simp [saturated, isNegative, cap, dumpsLength_envelope h]

theorem emptyEnvelope_ge : 6 ≤ emptyEnvelope := by decide +kernel

/-- What is counted for a value of known height or not. -/
theorem sized_countOf (g : Setting) (value : Node) (budget : Nat) {cache : Option Cache}
    (hs : Sound [',', ' '] [':', ' '] cache) :
    Sound [',', ' '] [':', ' '] (g.countOf value budget cache).2 ∧
    Sized budget (g.countOf value budget cache).1 (dumpsLength value.plain) ∧
    (value.height ≤ g.stack → (g.countOf value budget cache).1.isSome = true) := by
  obtain ⟨hsound, hval, hsome⟩ := jsonCharacterCount_spec g.stack value (some (budget : Int)) hs
  refine ⟨hsound, sized_saturated (dumpsLength_nonneg _) hval, fun hh => ?_⟩
  rw [Setting.countOf, hsome hh]
  rfl

/-- The pages of one call, from the sizes of their entries. -/
theorem prefixCount_pages {page : Nat → Json} {sizes : List (Option Int)} {lens : List Int}
    (fixed : Int) {offset total limit budget : Nat} (hfixed : 0 ≤ fixed)
    (hsized : List.Forall₂ (Sized budget) sizes lens)
    (hlen : sizes.length = min limit (total - offset))
    (hpage : ∀ l, dumpsLength (artifactEnvelope (page l)) =
      fixed + usedSum (lens.take l) + cursorWidth total (offset + l)) :
    LongestFit (fun l => (sizes.take l).all (·.isSome) &&
        decide (dumpsLength (artifactEnvelope (page l)) ≤ budget))
      (min limit (total - offset)) (prefixCount sizes fixed offset total limit budget) := by
  simp only [hpage]
  exact prefixCount_spec hfixed hsized hlen

section Inspect

variable (g : Setting) (value : Node) (path : List Part) (limit budget : Nat)

/-- The page of the children from `offset` on. -/
def inspectPageAt (offset count : Nat) : Json :=
  inspectPage g path value ((selected (inspectChildren g value) offset limit).take count)
    (nextOffset offset count (inspectChildren g value).length)

def shownChildren (page : Json) : List Json :=
  match page.get "children" with
  | .arr children => children
  | _ => []

theorem isPage_inspectPage (children : List Json) (next : Option Nat) :
    IsPage (inspectPage g path value children next) := by
  refine ⟨rfl, fun s => ?_, ?_⟩
  · have : (inspectPage g path value children next).get "error_code" = .null := by
      cases value <;> rfl
    rw [this]
    simp
  · have : (inspectPage g path value children next).get "executed" = .null := by
      cases value <;> rfl
    rw [this]
    rfl

theorem dumpsLength_inspectPage (children : List Json) (next : Option Nat) :
    dumpsLength (inspectPage g path value children next) =
      dumpsLength (inspectPage g path value [] none) - 4 + usedSum (children.map dumpsLength) +
        next.elim 4 fun n => (digits n : Int) := by
  have hnil : usedSum (([] : List Json).map dumpsLength) = 0 := rfl
  unfold inspectPage
  dsimp only
  rw [dumpsLength_collectionPage _ _ _ (.arr []), dumpsLength_arr, dumpsLength_arr]
  omega

theorem height_inspectPage : (Node.ofJson (inspectPage g path value [] none)).height ≤ 3 := by
  have hpath := height_pathJson path
  have hbase := heightFields_base g
  cases value <;>
    simp [inspectPage, collectionPage, inspectFront, Node.ofJson, Node.height, heightFields_append,
      Node.ofFields, Node.heightFields, hbase, Node.ofItems, Node.heightItems, optionalInt] <;> omega

theorem height_inspectChildren {child : Json} (h : child ∈ inspectChildren g value) :
    (Node.ofJson child).height ≤ 2 := by
  have hshape := heightFields_shape
  cases value with
  | obj ident fields =>
    obtain ⟨f, -, rfl⟩ := List.mem_map.1 h
    simp [Node.ofJson, Node.height, Node.ofFields, Node.heightFields, hshape]
  | arr ident items =>
    obtain ⟨x, -, rfl⟩ := List.mem_map.1 h
    simp [Node.ofJson, Node.height, Node.ofFields, Node.heightFields, hshape]
  | _ => simp [inspectChildren] at h

/-- The answers of `inspect` page through the children. -/
theorem pagesOf_inspect (hstack : 3 < g.stack) (hc : value.isContainer = true) :
    PagesOf (fun o => inspectJson g value path o limit budget) shownChildren
      (inspectChildren g value) (inspectPageAt g value path limit) (fun _ _ => true) limit budget where
  reply := by
    intro o ho
    have hfixed := pageFixedSize_eq g (isPage_inspectPage g value path [] none)
      (Nat.lt_of_le_of_lt (height_inspectPage g value path) hstack)
    generalize hsh : selected (inspectChildren g value) o limit = shown
    have hmem : ∀ child ∈ shown, child ∈ inspectChildren g value := by
      intro child hm
      rw [← hsh] at hm
      exact List.mem_of_mem_take (List.mem_of_mem_drop hm)
    have hsized : List.Forall₂ (Sized budget)
        (shown.map fun child => (g.countOf (.ofJson child) budget none).1)
        (shown.map dumpsLength) := by
      rw [List.forall₂_map_left_iff, List.forall₂_map_right_iff, List.forall₂_same]
      intro child _
      have := (sized_countOf g (.ofJson child) budget sound_none).2.1
      rwa [Node.plain_ofJson] at this
    have hlen : (shown.map fun child => (g.countOf (.ofJson child) budget none).1).length =
        min limit ((inspectChildren g value).length - o) := by
      rw [List.length_map, ← hsh, length_selected]
    have hall : ∀ l, ((shown.map fun child => (g.countOf (.ofJson child) budget none).1).take l).all
        (·.isSome) = true := by
      intro l
      rw [List.all_eq_true]
      intro size hm
      obtain ⟨child, hcm, rfl⟩ := List.mem_map.1 (List.mem_of_mem_take hm)
      exact (sized_countOf g (.ofJson child) budget sound_none).2.2
        (Nat.le_trans (height_inspectChildren g value (hmem child hcm)) (by omega))
    have hge := emptyEnvelope_ge
    have hnn := dumpsLength_nonneg (inspectPage g path value [] none)
    have hpage : ∀ l, dumpsLength (artifactEnvelope (inspectPageAt g value path limit o l)) =
        emptyEnvelope + dumpsLength (inspectPage g path value [] none) - 4 +
          usedSum ((shown.map dumpsLength).take l) +
            cursorWidth (inspectChildren g value).length (o + l) := by
      intro l
      rw [inspectPageAt, dumpsLength_envelope (isPage_inspectPage ..), hsh,
        dumpsLength_inspectPage, cursorWidth_eq, ← List.map_take]
      omega
    have hfit := prefixCount_pages _ (by omega) hsized hlen hpage
    simp only [hall] at hfit
    refine ⟨_, hfit, ?_⟩
    simp only [inspectJson, hc, if_true, if_neg (Nat.not_le.2 ho), hsh, hfixed,
      Option.bind_eq_bind, Option.bind_some]
    split
    · exact ⟨_, rfl, rfl⟩
    · rw [inspectPageAt, hsh]
      rfl
  past := by
    intro o ho
    simp only [inspectJson, hc, if_true, if_pos ho]
    rw [inspectPageAt, List.take_zero, nextOffset, if_neg (by omega)]
    rfl
  shows := by
    intro o count hle
    rw [inspectPageAt, take_selected _ hle]
    cases value <;> rfl
  next := by
    intro o count
    rw [inspectPageAt]
    cases value <;> rfl
  isPage o count := isPage_inspectPage ..

end Inspect

section Get

variable (g : Setting) (value : Node) (path : List Part) (limit budget : Nat)

/-- The page of the members from `offset` on. -/
def getPageAt (offset count : Nat) : Json :=
  getPage g path value (getMembers g value).length offset
    ((selected (getMembers g value) offset limit).take count)
    (nextOffset offset count (getMembers g value).length)

/-- The members of a collection, with their keys. -/
def shownMembers (page : Json) : List (Option String × Json) :=
  match page.get "value" with
  | .arr items => items.map fun item => (none, item)
  | .obj fields => fields.map fun f => (some f.1, f.2)
  | _ => []

def plainMembers : List (Option String × Json) :=
  (getMembers g value).map fun m => (m.1, m.2.plain)

/-- Whether the members from `offset` on are counted. -/
def membersCountable (offset count : Nat) : Bool :=
  ((memberSizes g budget (selected (getMembers g value) offset limit) (some [])).take count).all
    (·.isSome)

theorem isPage_getPage (total offset : Nat) (members : List (Option String × Node))
    (next : Option Nat) : IsPage (getPage g path value total offset members next) := by
  refine ⟨rfl, fun s => ?_, ?_⟩
  · have : (getPage g path value total offset members next).get "error_code" = .null := rfl
    rw [this]
    simp
  · have : (getPage g path value total offset members next).get "executed" = .null := rfl
    rw [this]
    rfl

theorem height_getPage (total offset : Nat) :
    (Node.ofJson (getPage g path value total offset [] none)).height ≤ 3 := by
  have hpath := height_pathJson path
  have hbase := heightFields_base g
  cases value <;>
    simp [getPage, collectionPage, collectionOf, inspectFront, Node.ofJson, Node.height,
      heightFields_append, Node.ofFields, Node.heightFields, hbase, Node.ofItems, Node.heightItems,
      optionalInt] <;> omega

/-- The length of a member in its collection. -/
def memberLen (m : Option String × Node) : Int :=
  (m.1.elim 0 fun k => ((Json.quote k).length : Int) + 2) + dumpsLength m.2.plain

theorem dumpsLength_collectionOf {members : List (Option String × Node)}
    (h : ∀ m ∈ members, m ∈ getMembers g value) :
    dumpsLength (collectionOf value members) = 2 + usedSum (members.map memberLen) := by
  cases value with
  | obj ident fields =>
    rw [collectionOf, dumpsLength_obj, List.map_map]
    congr 2
    apply List.map_congr_left
    intro m hm
    obtain ⟨f, -, rfl⟩ := List.mem_map.1 (h m hm)
    simp [memberLength, memberLen]
  | arr ident items =>
    rw [collectionOf, dumpsLength_arr, List.map_map]
    · congr 2
      apply List.map_congr_left
      intro m hm
      obtain ⟨x, -, rfl⟩ := List.mem_map.1 (h m hm)
      simp [memberLen]
    · simp
  | _ =>
    cases members with
    | nil => rfl
    | cons m ms => exact absurd (h m (by simp)) (by simp [getMembers])

theorem sized_memberSizes (members : List (Option String × Node)) {cache : Option Cache}
    (hs : Sound [',', ' '] [':', ' '] cache) :
    List.Forall₂ (Sized budget) (memberSizes g budget members cache) (members.map memberLen) ∧
    ((∀ m ∈ members, m.2.height ≤ g.stack) →
      (memberSizes g budget members cache).all (·.isSome) = true) := by
  induction members generalizing cache with
  | nil => exact ⟨.nil, fun _ => rfl⟩
  | cons m members ih =>
    obtain ⟨key, v⟩ := m
    obtain ⟨hsound, hsize, hsome⟩ := sized_countOf g v budget hs
    obtain ⟨hrest, hall⟩ := ih hsound
    cases key with
    | none =>
      refine ⟨.cons (by simpa [memberLen] using hsize) hrest, fun hh => ?_⟩
      simp only [memberSizes, List.all_cons, Bool.and_eq_true]
      exact ⟨hsome (hh (none, v) (by simp)), hall fun m hm => hh m (by simp [hm])⟩
    | some k =>
      obtain ⟨-, hkey, hkeySome⟩ := sized_countOf g (.str k) budget sound_none
      have hklen : dumpsLength (Node.str k).plain = (Json.quote k).length := rfl
      refine ⟨.cons ⟨?_, ?_⟩ hrest, fun hh => ?_⟩
      · have := dumpsLength_nonneg v.plain
        simp only [memberLen, Option.elim]
        omega
      · intro s hsz
        obtain ⟨kn, hkn, hv⟩ := Option.bind_eq_some_iff.1 hsz
        obtain ⟨vn, hvn, rfl⟩ := Option.map_eq_some_iff.1 hv
        have h1 := hkey.size kn hkn
        have h2 := hsize.size vn hvn
        have h3 := hsize.nonneg
        rw [hklen] at h1
        simp only [memberLen, Option.elim]
        omega
      · have hv := hsome (hh (some k, v) (by simp))
        have hpos : 1 ≤ g.stack := Nat.le_trans v.height_pos (hh (some k, v) (by simp))
        have hk := hkeySome hpos
        obtain ⟨kn, hkn⟩ := Option.isSome_iff_exists.1 hk
        obtain ⟨vn, hvn⟩ := Option.isSome_iff_exists.1 hv
        simp only [memberSizes, hkn, hvn, List.all_cons, Bool.and_eq_true]
        exact ⟨rfl, hall fun m hm => hh m (by simp [hm])⟩

theorem dumpsLength_getPage (total offset : Nat) {members : List (Option String × Node)}
    (next : Option Nat) (h : ∀ m ∈ members, m ∈ getMembers g value) :
    dumpsLength (getPage g path value total offset members next) =
      dumpsLength (getPage g path value total offset [] none) - 4 + usedSum (members.map memberLen) +
        next.elim 4 fun n => (digits n : Int) := by
  have hnil : dumpsLength (collectionOf value []) = 2 := by cases value <;> rfl
  unfold getPage
  rw [dumpsLength_collectionPage _ _ _ (collectionOf value []), dumpsLength_collectionOf g value h]
  omega

theorem mem_selected {β : Type} {sorted : List β} {offset limit : Nat} {x : β}
    (h : x ∈ selected sorted offset limit) : x ∈ sorted :=
  List.mem_of_mem_take (List.mem_of_mem_drop h)

theorem isStr_oversizedValue :
    ((oversizedValue g path value budget).get "error_code").isStr = true := by
  unfold oversizedValue
  dsimp only
  split
  · split <;> rfl
  · rfl

/-- The answers of `get` page through the members, unless the whole value fits. -/
theorem pagesOf_get (hstack : 3 < g.stack) (hc : value.isContainer = true)
    (hdirect : (decide ((getMembers g value).length ≤ limit) &&
      artifactPageFits g.stack (directPage g path value) budget) = false) :
    PagesOf (fun o => getJson g value path o limit budget) shownMembers (plainMembers g value)
      (getPageAt g value path limit) (membersCountable g value limit budget) limit budget := by
  have hlength : (plainMembers g value).length = (getMembers g value).length :=
    List.length_map ..
  have hget : ∀ o, getJson g value path o limit budget =
      if o ≥ (getMembers g value).length then
        some (getPage g path value (getMembers g value).length o [] none)
      else do
        let shown := selected (getMembers g value) o limit
        let sizes := memberSizes g budget shown (some [])
        let fixed ← g.pageFixedSize (getPage g path value (getMembers g value).length o [] none)
        let count := prefixCount sizes fixed o (getMembers g value).length limit budget
        if count = 0 then return oversizedValue g path value budget
        else
          return getPage g path value (getMembers g value).length o (shown.take count)
            (nextOffset o count (getMembers g value).length) := by
    intro o
    have hno : (decide (o = 0) && (!value.isContainer || decide ((getMembers g value).length ≤ limit)) &&
        artifactPageFits g.stack (directPage g path value) budget) = false := by
      rw [hc, Bool.not_true, Bool.false_or, Bool.and_assoc, hdirect, Bool.and_false]
    cases value with
    | obj | arr =>
      simp only [getJson]
      rw [hno, if_neg (by simp), hc, if_neg (by simp)]
    | _ => simp [Node.isContainer] at hc
  refine ⟨?_, ?_, ?_, ?_, fun o count => isPage_getPage ..⟩
  · intro o ho
    rw [hlength] at ho ⊢
    have hfixed := pageFixedSize_eq g
      (isPage_getPage g value path (getMembers g value).length o [] none)
      (Nat.lt_of_le_of_lt (height_getPage g value path _ o) hstack)
    obtain ⟨hsized, -⟩ := sized_memberSizes g budget (selected (getMembers g value) o limit) sound_nil
    have hlen : (memberSizes g budget (selected (getMembers g value) o limit) (some [])).length =
        min limit ((getMembers g value).length - o) := by
      rw [hsized.length_eq, List.length_map, length_selected]
    have hge := emptyEnvelope_ge
    have hnn := dumpsLength_nonneg (getPage g path value (getMembers g value).length o [] none)
    have hpage : ∀ l, dumpsLength (artifactEnvelope (getPageAt g value path limit o l)) =
        emptyEnvelope +
          dumpsLength (getPage g path value (getMembers g value).length o [] none) - 4 +
          usedSum (((selected (getMembers g value) o limit).map memberLen).take l) +
            cursorWidth (getMembers g value).length (o + l) := by
      intro l
      have hmem : ∀ m ∈ (selected (getMembers g value) o limit).take l, m ∈ getMembers g value :=
        fun m hm => mem_selected (List.mem_of_mem_take hm)
      rw [getPageAt, dumpsLength_envelope (isPage_getPage ..), dumpsLength_getPage _ _ _ _ _ _ hmem,
        cursorWidth_eq, ← List.map_take]
      omega
    have hfit := prefixCount_pages _ (by omega) hsized hlen hpage
    refine ⟨_, hfit, ?_⟩
    rw [hget, if_neg (Nat.not_le.2 ho)]
    simp only [hfixed, Option.bind_eq_bind, Option.bind_some]
    split
    · exact ⟨_, rfl, isStr_oversizedValue ..⟩
    · rfl
  · intro o ho
    rw [hlength] at ho
    rw [hget, if_pos ho, getPageAt, List.take_zero, nextOffset, if_neg (by omega)]
  · intro o count hle
    rw [hlength] at hle
    rw [getPageAt, take_selected _ hle, plainMembers, ← List.map_drop, ← List.map_take]
    generalize hms : ((getMembers g value).drop o).take count = members
    have hmem : ∀ m ∈ members, m ∈ getMembers g value := by
      intro m hm
      rw [← hms] at hm
      exact List.mem_of_mem_drop (List.mem_of_mem_take hm)
    cases value with
    | obj ident fields =>
      show (members.map fun m => (m.1.getD "", m.2.plain)).map (fun f => (some f.1, f.2)) = _
      rw [List.map_map]
      apply List.map_congr_left
      intro m hm
      obtain ⟨f, -, rfl⟩ := List.mem_map.1 (hmem m hm)
      rfl
    | arr ident items =>
      show (members.map fun m => m.2.plain).map (fun item => (none, item)) = _
      rw [List.map_map]
      apply List.map_congr_left
      intro m hm
      obtain ⟨x, -, rfl⟩ := List.mem_map.1 (hmem m hm)
      rfl
    | _ => simp [Node.isContainer] at hc
  · intro o count
    rw [hlength]
    rfl

end Get

section Search

variable (g : Setting)

theorem plainItems_parts (path : List Part) :
    Node.plainItems (path.map fun p => .ofJson p.json) = path.map Part.json := by
  induction path with
  | nil => rfl
  | cons part path ih => simp [Node.plainItems, ih]

theorem heightItems_nodes (path : List Part) :
    Node.heightItems (path.map fun p => .ofJson p.json) ≤ 1 := by
  induction path with
  | nil => simp [Node.heightItems]
  | cons part path ih =>
    have hpart : (Node.ofJson part.json).height = 1 := by cases part <;> rfl
    simp only [List.map_cons, Node.heightItems, hpart]
    omega

/-- A match, before its value is replaced or not. -/
def candidateFields (found : Found) (rest : List (String × Json)) : Json :=
  .obj (("path", pathJson found.path) :: ("matched_path", pathJson (matchedPath found)) :: rest)

theorem plain_candidate (ident : Nat × Nat × Nat) (found : Found) :
    (candidate ident found).plain = candidateFields found [("value", found.value.plain)] := by
  simp [candidate, Node.plain, Node.plainFields, plainItems_parts, candidateFields, pathJson]

theorem plain_omitted (ident : Nat × Nat × Nat) (shape : Nat) (found : Found) :
    (omittedCandidate ident shape found).plain = candidateFields found
      [("value_omitted", .bool true), ("value_shape", .obj (valueShape found.value)),
        ("instruction", .str "匹配对象过大，请对 path 执行 inspect 或 get")] := by
  simp [omittedCandidate, Node.plain, Node.plainFields, plainItems_parts, candidateFields, pathJson,
    Node.plainFields_ofFields]

theorem isPage_nullCandidate (found : Found) :
    IsPage (candidateFields found [("value", .null)]) :=
  ⟨rfl, fun s => by simp [candidateFields, Json.get, Json.getD, Json.get?, Json.fields,
    List.lookup_cons], rfl⟩

theorem height_nullCandidate (found : Found) :
    (Node.ofJson (candidateFields found [("value", .null)])).height ≤ 3 := by
  have h1 := height_pathJson found.path
  have h2 := height_pathJson (matchedPath found)
  simp only [candidateFields, Node.ofJson, Node.height, Node.ofFields, Node.heightFields]
  omega

theorem height_candidate (ident : Nat × Nat × Nat) (found : Found) :
    (candidate ident found).height ≤ max 3 (found.value.height + 1) := by
  have h1 := heightItems_nodes found.path
  have h2 := heightItems_nodes (matchedPath found)
  simp only [candidate, Node.height, Node.heightFields]
  omega

theorem height_omitted (ident : Nat × Nat × Nat) (shape : Nat) (found : Found) :
    (omittedCandidate ident shape found).height ≤ 3 := by
  have h1 := heightItems_nodes found.path
  have h2 := heightItems_nodes (matchedPath found)
  have h3 := heightFields_shape found.value
  simp only [omittedCandidate, Node.height, Node.heightFields]
  omega

theorem get_path (found : Found) (rest : List (String × Json)) :
    (candidateFields found rest).get "path" = pathJson found.path := rfl

/-- Every match is prepared, whole or with its value omitted, and its size is right. -/
theorem preparedMatches_spec (hstack : 3 < g.stack) (fresh : Nat → (Nat × Nat × Nat) × Nat)
    (budget : Nat) (found : List Found) (index : Nat) {cache : Option Cache}
    (hs : Sound [',', ' '] [':', ' '] cache) :
    ∃ prepared, preparedMatches g fresh budget found index cache = some prepared ∧
      prepared.map (fun p => p.1.plain.get "path") = found.map (fun f => pathJson f.path) ∧
      List.Forall₂ (Sized budget) (prepared.map (·.2))
        (prepared.map fun p => dumpsLength p.1.plain) ∧
      ((∀ f ∈ found, f.value.height < g.stack) → (prepared.map (·.2)).all (·.isSome) = true) := by
  induction found generalizing index cache with
  | nil => exact ⟨[], rfl, rfl, .nil, fun _ => rfl⟩
  | cons f found ih =>
    have hfixed := pageFixedSize_eq g (isPage_nullCandidate f)
      (Nat.lt_of_le_of_lt (height_nullCandidate f) hstack)
    have hnull : (candidate (fresh index).1 { f with value := .null }).plain =
        candidateFields f [("value", .null)] := plain_candidate ..
    rw [← hnull] at hfixed
    obtain ⟨hs1, -, hsome1⟩ := sized_countOf g f.value budget hs
    generalize hshown : (if (g.countOf f.value budget cache).1.any (fun size =>
        emptyEnvelope + dumpsLength (candidate (fresh index).1 { f with value := .null }).plain - 4 +
          size ≤ budget) then candidate (fresh index).1 f
        else omittedCandidate (fresh index).1 (fresh index).2 f) = shown
    obtain ⟨hs2, hsize, hsome2⟩ := sized_countOf g shown budget hs1
    obtain ⟨prepared, hp, hpaths, hsized, hall⟩ := ih (index + 1) hs2
    have hpath : shown.plain.get "path" = pathJson f.path := by
      rw [← hshown]
      split
      · rw [plain_candidate, get_path]
      · rw [plain_omitted, get_path]
    have hheight : f.value.height < g.stack → shown.height ≤ g.stack := by
      intro hh
      rw [← hshown]
      split
      · have := height_candidate (fresh index).1 f
        omega
      · have := height_omitted (fresh index).1 (fresh index).2 f
        omega
    refine ⟨(shown, (g.countOf shown budget (g.countOf f.value budget cache).2).1) :: prepared,
      ?_, ?_, ?_, ?_⟩
    · simp only [preparedMatches, hfixed, Option.bind_eq_bind, Option.bind_some, hshown, hp]
      rfl
    · simp only [List.map_cons, hpath, hpaths]
    · exact .cons hsize hsized
    · intro hh
      simp only [List.map_cons, List.all_cons, Bool.and_eq_true]
      exact ⟨hsome2 (hheight (hh f (by simp))), hall fun f' hf' => hh f' (by simp [hf'])⟩

variable (fresh : Nat → (Nat × Nat × Nat) × Nat) (path : List Part) (query : String)
  (found : List Found) (scanned limit budget : Nat)

/-- The matches from `offset` on, as they are shown, with their sizes. -/
def preparedAt (offset : Nat) : List (Node × Option Int) :=
  (preparedMatches g fresh budget (selected found offset limit) 0 (some [])).getD []

def searchPageAt (offset count : Nat) : Json :=
  searchPage g query scanned (((preparedAt g fresh found limit budget offset).take count).map
    fun p => p.1.plain) (nextOffset offset count found.length)

def shownMatches (page : Json) : List Json :=
  match page.get "matches" with
  | .arr items => items.map fun item => item.get "path"
  | _ => []

def matchesCountable (offset count : Nat) : Bool :=
  (((preparedAt g fresh found limit budget offset).map (·.2)).take count).all (·.isSome)

theorem isPage_searchPage (items : List Json) (next : Option Nat) :
    IsPage (searchPage g query scanned items next) := by
  refine ⟨rfl, fun s => ?_, ?_⟩
  · have : (searchPage g query scanned items next).get "error_code" = .null := rfl
    rw [this]
    simp
  · have : (searchPage g query scanned items next).get "executed" = .null := rfl
    rw [this]
    rfl

theorem height_searchPage : (Node.ofJson (searchPage g query scanned [] none)).height ≤ 3 := by
  have hbase := heightFields_base g
  simp [searchPage, collectionPage, Node.ofJson, Node.height, heightFields_append, Node.ofFields,
    Node.heightFields, hbase, Node.ofItems, Node.heightItems, optionalInt]

theorem dumpsLength_searchPage (items : List Json) (next : Option Nat) :
    dumpsLength (searchPage g query scanned items next) =
      dumpsLength (searchPage g query scanned [] none) - 4 + usedSum (items.map dumpsLength) +
        next.elim 4 fun n => (digits n : Int) := by
  have hnil : usedSum (([] : List Json).map dumpsLength) = 0 := rfl
  unfold searchPage
  rw [dumpsLength_collectionPage _ _ _ (.arr []), dumpsLength_arr, dumpsLength_arr]
  omega

/-- The answers of `search` page through the matches. -/
theorem pagesOf_search {value : Node} (hstack : 3 < g.stack)
    (hfound : searchMatches g value path query = some (found, scanned)) (hlimit : 1 ≤ limit) :
    PagesOf (fun o => searchJson g fresh value path query o limit budget) shownMatches
      (found.map fun f => pathJson f.path) (searchPageAt g fresh query found scanned limit budget)
      (matchesCountable g fresh found limit budget) limit budget := by
  have hfixed := pageFixedSize_eq g (isPage_searchPage g query scanned [] none)
    (Nat.lt_of_le_of_lt (height_searchPage g query scanned) hstack)
  have hprepared : ∀ o, ∃ prepared,
      preparedMatches g fresh budget (selected found o limit) 0 (some []) = some prepared ∧
      preparedAt g fresh found limit budget o = prepared ∧
      prepared.map (fun p => p.1.plain.get "path") =
        (selected found o limit).map (fun f => pathJson f.path) ∧
      List.Forall₂ (Sized budget) (prepared.map (·.2))
        (prepared.map fun p => dumpsLength p.1.plain) := by
    intro o
    obtain ⟨prepared, hp, hpaths, hsized, -⟩ :=
      preparedMatches_spec g hstack fresh budget (selected found o limit) 0 sound_nil
    exact ⟨prepared, hp, by rw [preparedAt, hp]; rfl, hpaths, hsized⟩
  have hread : ∀ o prepared, preparedMatches g fresh budget (selected found o limit) 0 (some []) =
      some prepared → searchJson g fresh value path query o limit budget =
        (let count := prefixCount (prepared.map (·.2))
          (emptyEnvelope + dumpsLength (searchPage g query scanned [] none) - 4) o found.length limit
          budget
        if selected found o limit ≠ [] && count = 0 then
          some (artifactError "artifact_budget_too_small"
            "无法放入一个匹配，请增大预算或读取更深path"
            (g.base ++ [("path", pathJson path), ("offset", .int o), ("next_offset", .int o)]))
        else some (searchPage g query scanned ((prepared.take count).map fun p => p.1.plain)
          (nextOffset o count found.length))) := by
    intro o prepared hp
    simp only [searchJson, hfound, Option.bind_eq_bind, Option.bind_some, hp, hfixed]
    split <;> rfl
  refine ⟨?_, ?_, ?_, ?_, fun o count => isPage_searchPage ..⟩
  · intro o ho
    rw [List.length_map] at ho ⊢
    obtain ⟨prepared, hp, hat, hpaths, hsized⟩ := hprepared o
    have hlen : (prepared.map (·.2)).length = min limit (found.length - o) := by
      have := congrArg List.length hpaths
      rw [List.length_map, List.length_map, length_selected] at this
      rw [List.length_map, this]
    have hge := emptyEnvelope_ge
    have hnn := dumpsLength_nonneg (searchPage g query scanned [] none)
    have hpage : ∀ l, dumpsLength (artifactEnvelope
        (searchPageAt g fresh query found scanned limit budget o l)) =
        emptyEnvelope + dumpsLength (searchPage g query scanned [] none) - 4 +
          usedSum ((prepared.map fun p => dumpsLength p.1.plain).take l) +
            cursorWidth found.length (o + l) := by
      intro l
      rw [searchPageAt, dumpsLength_envelope (isPage_searchPage ..), dumpsLength_searchPage,
        cursorWidth_eq, hat, List.map_map, List.map_take]
      have hcomp : prepared.map (dumpsLength ∘ fun p => p.1.plain) =
          prepared.map fun p => dumpsLength p.1.plain := rfl
      rw [hcomp]
      omega
    have hfit := prefixCount_pages _ (by omega) hsized hlen hpage
    rw [← hat] at hfit
    refine ⟨_, hfit, ?_⟩
    have hne : selected found o limit ≠ [] := by
      intro hnil
      have := length_selected found o limit
      rw [hnil, List.length_nil] at this
      omega
    rw [hread o prepared hp, hat]
    by_cases hcount : prefixCount (prepared.map (·.2))
        (emptyEnvelope + dumpsLength (searchPage g query scanned [] none) - 4) o found.length limit
        budget = 0
    · rw [if_pos hcount, if_pos (by simp [hne, hcount])]
      exact ⟨_, rfl, rfl⟩
    · rw [if_neg hcount, if_neg (by simp [hcount]), searchPageAt, hat]
  · intro o ho
    rw [List.length_map] at ho
    obtain ⟨prepared, hp, hat, hpaths, -⟩ := hprepared o
    have hnil : selected found o limit = [] := by
      apply List.length_eq_zero_iff.1
      rw [length_selected]
      omega
    rw [hnil, List.map_nil, List.map_eq_nil_iff] at hpaths
    subst hpaths
    rw [hread o [] hp]
    simp [hnil, searchPageAt, hat, prefixCount, prefixLoop]
  · intro o count hle
    rw [List.length_map] at hle
    obtain ⟨prepared, -, hat, hpaths, -⟩ := hprepared o
    show ((((preparedAt g fresh found limit budget o).take count).map fun p => p.1.plain).map
      fun item => item.get "path") = _
    rw [hat, List.map_map, List.map_take]
    have hcomp : prepared.map ((fun item => item.get "path") ∘ fun p => p.1.plain) =
        prepared.map fun p => p.1.plain.get "path" := rfl
    rw [hcomp, hpaths, ← List.map_take, take_selected _ hle, List.map_take, List.map_drop]
  · intro o count
    rw [List.length_map]
    rfl

end Search

end Yuki.ToolResults
