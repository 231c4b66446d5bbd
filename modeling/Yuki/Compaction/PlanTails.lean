import Yuki.Compaction.Plan

/-! The tail from a boundary is what the tail from an earlier one holds behind it,
when the boundary splits no round. -/

namespace Yuki.Compaction

/-! Items before a state's own do not change what it does. -/

def TailState.after (before : List RetainedItem) (s : TailState) : TailState :=
  { s with result := before ++ s.result }

section Tails

variable {t : TailInput}

theorem flushRound_after (before : List RetainedItem) (s : TailState) :
    t.flushRound (s.after before) = (t.flushRound s).map (TailState.after before) := by
  obtain ⟨result, results, response, responseStart, resultsStart⟩ := s
  unfold TailInput.flushRound
  simp only [TailState.after]
  by_cases hresults : results = []
  · simp only [hresults, ne_eq, not_true_eq_false, if_false]
    cases response with
    | none => rfl
    | some response =>
      dsimp only
      split
      · cases responseStart with
        | none => rfl
        | some start =>
          simp [expect, ok_bind, pure, Except.pure, Except.map, TailState.after]
      · rfl
  · simp only [ne_eq, hresults, not_false_eq_true, if_true]
    cases toolResultEvidence response results (t.keyAt responseStart) with
    | error e => rfl
    | ok message =>
      cases response <;> cases responseStart <;> cases resultsStart <;>
        simp [expect, pure, Except.pure, Except.map, bind, Except.bind, TailState.after]

theorem tailStep_after (before : List RetainedItem) (n : Nat) (entry : Entry) (s : TailState) :
    t.tailStep n entry (s.after before) = (t.tailStep n entry s).map (TailState.after before) := by
  rw [tailStep_eq, tailStep_eq]
  cases t.kindOf n entry with
  | opened r =>
    dsimp only
    rw [flushRound_after]
    cases t.flushRound s <;> rfl
  | called r => rfl
  | answered id out => rfl
  | plain m =>
    dsimp only
    rw [flushRound_after]
    cases t.flushRound s with
    | error e => rfl
    | ok s' => simp [Except.map, bind, Except.bind, pure, Except.pure, TailState.after]

theorem tailLoop_after (before : List RetainedItem) (n : Nat) (entries : List Entry)
    (s : TailState) :
    t.tailLoop n entries (s.after before) =
      (t.tailLoop n entries s).map (TailState.after before) := by
  induction entries generalizing n s with
  | nil => rfl
  | cons entry entries ih =>
    rw [TailInput.tailLoop, TailInput.tailLoop, tailStep_after]
    cases hstep : t.tailStep n entry s with
    | error e => rfl
    | ok s' => exact ih (n + 1) s'

theorem tailLoop_append (n : Nat) (front rest : List Entry) (s : TailState) :
    t.tailLoop n (front ++ rest) s = (t.tailLoop n front s).bind fun s' =>
      t.tailLoop (n + front.length) rest s' := by
  induction front generalizing n s with
  | nil => rfl
  | cons entry front ih =>
    rw [List.cons_append, TailInput.tailLoop, TailInput.tailLoop]
    cases t.tailStep n entry s with
    | error e => rfl
    | ok s' =>
      have hlength : n + (entry :: front).length = n + 1 + front.length := by
        rw [List.length_cons]
        omega
      rw [hlength]
      exact ih (n + 1) s'

theorem kinds_append (n : Nat) (front rest : List Entry) :
    t.kinds n (front ++ rest) = t.kinds n front ++ t.kinds (n + front.length) rest := by
  induction front generalizing n with
  | nil => rfl
  | cons entry front ih =>
    have hlength : n + (entry :: front).length = n + 1 + front.length := by
      rw [List.length_cons]
      omega
    rw [hlength, List.cons_append, TailInput.kinds, TailInput.kinds, ih, List.cons_append]

theorem getElem?_kinds (n : Nat) (entries : List Entry) (k : Nat) :
    (t.kinds n entries)[k]? = entries[k]?.map (t.kindOf (n + k)) := by
  induction entries generalizing n k with
  | nil => rfl
  | cons entry entries ih =>
    cases k with
    | zero => rfl
    | succ k =>
      have hk : n + (k + 1) = n + 1 + k := by omega
      rw [TailInput.kinds, List.getElem?_cons_succ, List.getElem?_cons_succ, ih, hk]

/-! Every item is built the same way. -/

/-- An item is required when it starts behind the boundary of what is kept. -/
def Built (t : TailInput) (item : RetainedItem) : Prop :=
  item = t.item item.start item.message

theorem built_item (start : Nat) (message : ChatMessage) : Built t (t.item start message) := rfl

theorem flushRound_built {s s' : TailState} (hb : ∀ item ∈ s.result, Built t item)
    (h : t.flushRound s = .ok s') : ∀ item ∈ s'.result, Built t item := by
  obtain ⟨i, m, rfl, -⟩ | rfl := flushRound_cases h
  · intro item hitem
    obtain hitem | hitem := List.mem_append.mp hitem
    · exact hb item hitem
    · obtain rfl := List.mem_singleton.mp hitem
      exact built_item i m
  · exact hb

theorem tailStep_built {n : Nat} {entry : Entry} {s s' : TailState}
    (hb : ∀ item ∈ s.result, Built t item) (h : t.tailStep n entry s = .ok s') :
    ∀ item ∈ s'.result, Built t item := by
  rw [tailStep_eq] at h
  cases hk : t.kindOf n entry with
  | opened r =>
    simp only [hk, bind_eq_ok, pure_eq_ok] at h
    obtain ⟨s₁, hf, rfl⟩ := h
    intro item hitem
    exact flushRound_built hb hf item hitem
  | called r =>
    simp only [hk, Except.ok.injEq] at h
    subst h
    exact hb
  | answered id out =>
    simp only [hk, Except.ok.injEq] at h
    subst h
    exact hb
  | plain m =>
    simp only [hk, bind_eq_ok, pure_eq_ok] at h
    obtain ⟨s₁, hf, rfl⟩ := h
    intro item hitem
    obtain hitem | hitem := List.mem_append.mp hitem
    · exact flushRound_built hb hf item hitem
    · obtain rfl := List.mem_singleton.mp hitem
      exact built_item n _

theorem tailLoop_built {n : Nat} {entries : List Entry} {s s' : TailState}
    (hb : ∀ item ∈ s.result, Built t item) (h : t.tailLoop n entries s = .ok s') :
    ∀ item ∈ s'.result, Built t item := by
  induction entries generalizing n s with
  | nil =>
    cases h
    exact hb
  | cons entry entries ih =>
    obtain ⟨s₁, hstep, hrest⟩ := bind_eq_ok.mp h
    exact ih (tailStep_built hb hstep) hrest

theorem nativeTailItems_built {n : Nat} {entries : List Entry} {items : List RetainedItem}
    (h : t.nativeTailItems n entries = .ok items) : ∀ item ∈ items, Built t item := by
  obtain ⟨s, hloop, h⟩ := bind_eq_ok.mp h
  obtain ⟨s', hflush, h⟩ := bind_eq_ok.mp h
  cases h
  have hb := tailLoop_built (s := {}) (by simp) hloop
  exact flushRound_built hb hflush

/-! The restart at a boundary. -/

/-- A flush of closed rounds leaves nothing but the items. -/
theorem flushRound_plain {at? : Nat → Option Kind} {n : Nat} {afterResult : Bool} {s : TailState}
    (h : TailInv t at? n afterResult [] s) :
    ∃ result, t.flushRound s = .ok { result := result } ∧ ∀ item ∈ result, item.start < n := by
  obtain ⟨s', hflush, h', hresponse⟩ := flushRound_closed h
  obtain ⟨hresults, -⟩ := h'.idle hresponse
  have hstart : s'.responseStart = none := by
    obtain ⟨i, m, rfl, -⟩ | rfl := flushRound_cases hflush
    · rfl
    · rfl
  have hplain : s' = { result := s'.result } := by
    have hresultsStart := h'.resultsStart hresults
    obtain ⟨result, results, response, responseStart, resultsStart⟩ := s'
    cases hresults
    cases hresponse
    cases hstart
    cases hresultsStart
    rfl
  exact ⟨s'.result, hplain ▸ hflush, h'.below⟩

/-- An entry that answers no call leaves what it would leave at the start, behind the
items of the rounds before it. -/
theorem tailStep_restart {at? : Nat → Option Kind} {n : Nat} {afterResult : Bool}
    {pending : List String} {s : TailState} {entry : Entry}
    (h : TailInv t at? n afterResult pending s) (hp : (t.kindOf n entry).Pairs pending)
    (hc : (t.kindOf n entry).Closes afterResult pending)
    (hno : (t.kindOf n entry).isAnswer = false) :
    pending = [] ∧ ∃ before, (∀ item ∈ before, item.start < n) ∧
      t.tailStep n entry s = (t.tailStep n entry {}).map (TailState.after before) := by
  have hempty : t.flushRound {} = .ok {} := rfl
  rw [tailStep_eq, tailStep_eq]
  generalize t.kindOf n entry = k at *
  cases k with
  | opened r =>
    obtain rfl : pending = [] := hp
    obtain ⟨result, hflush, hbelow⟩ := flushRound_plain h
    refine ⟨rfl, result, hbelow, ?_⟩
    simp [hflush, hempty, bind, Except.bind, pure, Except.pure, Except.map, TailState.after]
  | called r =>
    obtain rfl : pending = [] := hp
    obtain rfl : afterResult = false := hc
    have hresults : s.results = [] := by
      by_contra hne
      exact absurd (h.afterResult.mpr hne) Bool.false_ne_true
    refine ⟨rfl, s.result, h.below, ?_⟩
    simp [Except.map, TailState.after, hresults, h.resultsStart hresults]
  | answered id out => cases hno
  | plain m =>
    obtain rfl : pending = [] := hc
    obtain ⟨result, hflush, hbelow⟩ := flushRound_plain h
    refine ⟨rfl, result, hbelow, ?_⟩
    simp [hflush, hempty, bind, Except.bind, pure, Except.pure, Except.map, TailState.after]

/-- What holds behind the entries in front, when they leave their rounds closed. -/
theorem tailInv_loop {at? : Nat → Option Kind} {n : Nat} {afterResult : Bool}
    {pending : List String} {s : TailState} (front rest : List Entry)
    (h : TailInv t at? n afterResult pending s)
    (hat : ∀ j, at? (n + j) = (t.kinds n (front ++ rest))[j]?)
    (hn : ∀ k ∈ t.kinds n (front ++ rest), k.callIds.Nodup)
    (hp : Paired pending (t.kinds n (front ++ rest)))
    (hc : RoundsClosed afterResult pending (t.kinds n (front ++ rest))) :
    ∃ afterResult' pending' s', t.tailLoop n front s = .ok s' ∧
      TailInv t at? (n + front.length) afterResult' pending' s' ∧
      Paired pending' (t.kinds (n + front.length) rest) ∧
      RoundsClosed afterResult' pending' (t.kinds (n + front.length) rest) := by
  induction front generalizing n afterResult pending s with
  | nil => exact ⟨afterResult, pending, s, rfl, h, hp, hc⟩
  | cons entry front ih =>
    have hhead : at? n = some (t.kindOf n entry) := by simpa [TailInput.kinds] using hat 0
    obtain ⟨s₁, hs, h'⟩ := tailInv_step h hhead (hn _ (by simp [TailInput.kinds])) hp.1 hc.1
    have hlength : n + (entry :: front).length = n + 1 + front.length := by
      rw [List.length_cons]
      omega
    rw [hlength]
    obtain ⟨a', p', s', hloop, hinv, hp', hc'⟩ := ih h' (fun j => by
      have hj := hat (j + 1)
      rw [show n + (j + 1) = n + 1 + j by omega] at hj
      simpa [TailInput.kinds] using hj)
      (fun k hk => hn k (by simp [TailInput.kinds, hk])) hp.2 hc.2
    exact ⟨a', p', s', by simp [TailInput.tailLoop, hs, ok_bind, hloop], hinv, hp', hc'⟩

/-- The rounds of a list of entries are answered and closed. -/
structure Closed (t : TailInput) (n : Nat) (entries : List Entry) : Prop where
  ids : ∀ k ∈ t.kinds n entries, k.callIds.Nodup
  paired : Paired [] (t.kinds n entries)
  closed : RoundsClosed false [] (t.kinds n entries)

theorem Closed.items {n : Nat} {entries : List Entry} (h : Closed t n entries) :
    ∃ items, t.nativeTailItems n entries = .ok items ∧
      (items.Pairwise fun a b => a.start < b.start) ∧
      ∀ item ∈ items, n ≤ item.start ∧ item.start < n + entries.length := by
  have hinit : TailInv t (kindAt n (t.kinds n entries)) n false [] {} :=
    tailInv_init fun i hi => by simp [kindAt, Nat.not_le.2 hi]
  have hat : ∀ j, kindAt n (t.kinds n entries) (n + j) = (t.kinds n entries)[j]? :=
    fun j => by simp [kindAt]
  obtain ⟨s, s', hloop, hflush, hk⟩ := nativeTailItems_of_closed hinit hat h.ids h.paired h.closed
  refine ⟨s'.result, by simp [TailInput.nativeTailItems, hloop, hflush, ok_bind, pure, Except.pure],
    hk.ordered, fun item hitem => ?_⟩
  have hsome : ∃ k, kindAt n (t.kinds n entries) item.start = some k := by
    obtain ⟨k, r, hk, -⟩ | ⟨k, m, hk, -⟩ := hk.items item hitem
    · exact ⟨k, hk⟩
    · exact ⟨k, hk⟩
  obtain ⟨k, hk⟩ := hsome
  unfold kindAt at hk
  split at hk
  · rename_i hle
    refine ⟨hle, ?_⟩
    rw [getElem?_kinds] at hk
    obtain ⟨entry, hentry, -⟩ := Option.map_eq_some_iff.mp hk
    obtain ⟨hlt, -⟩ := List.getElem?_eq_some_iff.mp hentry
    omega
  · cases hk

/-- Behind a boundary that no answer follows, the tail is that from the boundary itself. -/
theorem Closed.split {n : Nat} {front rest : List Entry} (h : Closed t n (front ++ rest))
    (hno : (t.kinds (n + front.length) rest).head?.all (! Kind.isAnswer ·)) :
    Closed t (n + front.length) rest ∧ ∃ items kept,
      t.nativeTailItems n (front ++ rest) = .ok items ∧
      t.nativeTailItems (n + front.length) rest = .ok kept ∧
      (items.filter fun item => n + front.length ≤ item.start) = kept := by
  have hinit : TailInv t (kindAt n (t.kinds n (front ++ rest))) n false [] {} :=
    tailInv_init fun i hi => by simp [kindAt, Nat.not_le.2 hi]
  have hat : ∀ j, kindAt n (t.kinds n (front ++ rest)) (n + j) = (t.kinds n (front ++ rest))[j]? :=
    fun j => by simp [kindAt]
  obtain ⟨a, p, s, hloop, hinv, hp, hc⟩ :=
    tailInv_loop front rest hinit hat h.ids h.paired h.closed
  have hids : ∀ k ∈ t.kinds (n + front.length) rest, k.callIds.Nodup := fun k hk =>
    h.ids k (by rw [kinds_append]; exact List.mem_append_right _ hk)
  -- The rest is reached with no call waiting, and as it would be at its own start.
  obtain ⟨hclosed, before, hbelow, hrest⟩ : Closed t (n + front.length) rest ∧
      ∃ before : List RetainedItem, (∀ item ∈ before, item.start < n + front.length) ∧
        ((t.tailLoop (n + front.length) rest s).bind fun s' => t.flushRound s') =
          ((t.tailLoop (n + front.length) rest {}).bind fun s' => t.flushRound s').map
            (TailState.after before) := by
    cases rest with
    | nil =>
      obtain rfl : p = [] := hp
      obtain ⟨result, hflush, hbelow⟩ := flushRound_plain hinv
      refine ⟨⟨hids, rfl, trivial⟩, result, hbelow, ?_⟩
      change t.flushRound s = _
      rw [hflush]
      simp [TailInput.tailLoop, Except.bind, TailInput.flushRound, pure, Except.pure, Except.map,
        TailState.after]
    | cons entry rest =>
      have hanswer : (t.kindOf (n + front.length) entry).isAnswer = false := by
        simpa [TailInput.kinds] using hno
      obtain ⟨rfl, before, hbelow, hstep⟩ := tailStep_restart hinv hp.1 hc.1 hanswer
      refine ⟨⟨hids, hp, ?_, hc.2⟩, before, hbelow, ?_⟩
      · cases hkind : t.kindOf (n + front.length) entry with
        | opened r => trivial
        | called r => rfl
        | answered id out =>
          rw [hkind] at hanswer
          cases hanswer
        | plain m => rfl
      · rw [TailInput.tailLoop, TailInput.tailLoop, hstep]
        cases t.tailStep (n + front.length) entry {} with
        | error e => rfl
        | ok s₁ =>
          change ((t.tailLoop (n + front.length + 1) rest (s₁.after before)).bind fun s' =>
            t.flushRound s') = _
          rw [tailLoop_after]
          change _ = ((t.tailLoop (n + front.length + 1) rest s₁).bind fun s' =>
            t.flushRound s').map _
          cases t.tailLoop (n + front.length + 1) rest s₁ with
          | error e => rfl
          | ok s₂ => exact flushRound_after before s₂
  obtain ⟨kept, hkept, -, hbounds⟩ := hclosed.items
  obtain ⟨s₁, hloop₁, hkept'⟩ := bind_eq_ok.mp hkept
  obtain ⟨s₂, hflush₂, hresult⟩ := bind_eq_ok.mp hkept'
  cases hresult
  have hwhole : t.nativeTailItems n (front ++ rest) = .ok (before ++ s₂.result) := by
    unfold TailInput.nativeTailItems
    rw [tailLoop_append, hloop]
    change ((t.tailLoop (n + front.length) rest s).bind fun s' =>
      (t.flushRound s').bind fun s'' => .ok s''.result) = _
    have hrun : ((t.tailLoop (n + front.length) rest s).bind fun s' => t.flushRound s') =
        .ok (s₂.after before) := by
      rw [hrest, hloop₁]
      change (t.flushRound s₁).map _ = _
      rw [hflush₂]
      rfl
    cases hs : t.tailLoop (n + front.length) rest s with
    | error e =>
      rw [hs] at hrun
      cases hrun
    | ok s' =>
      rw [hs] at hrun
      change (t.flushRound s').bind _ = _
      rw [show t.flushRound s' = _ from hrun]
      rfl
  refine ⟨hclosed, before ++ s₂.result, s₂.result, hwhole, hkept, ?_⟩
  rw [List.filter_append, List.filter_eq_nil_iff.mpr fun item hitem => by
      simpa using hbelow item hitem,
    List.filter_eq_self.mpr fun item hitem => decide_eq_true (hbounds item hitem).1,
    List.nil_append]

end Tails

end Yuki.Compaction
