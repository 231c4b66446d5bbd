import Yuki.Compaction.Plan

/-! The index of the tails holds, for every boundary, what a scan of the items behind it
would find. -/

namespace Yuki.Compaction

open ModelRuntime

/-! Membership by key. -/

theorem messageKey_of_same {a b : ChatMessage} (h : a.same b = true) :
    messageKey a = messageKey b := by
  have he : a.compared = b.compared := of_decide_eq_true h
  have hkey : ∀ m : ChatMessage, messageKey m =
      ⟨m.compared.role, m.compared.content, m.compared.toolCalls, m.compared.toolCallId,
        m.compared.reasoningContent, m.compared.images⟩ := fun _ => rfl
  rw [hkey a, hkey b, he]

theorem within_iff {message : ChatMessage} {messages : List ChatMessage} :
    within message messages = true ↔ ∃ m ∈ messages, m.same message = true :=
  List.any_eq_true

theorem within_append (message : ChatMessage) (front rest : List ChatMessage) :
    within message (front ++ rest) = (within message front || within message rest) :=
  List.any_append

/-- Messages with another key are not equal. -/
theorem within_filter_key (message : ChatMessage) (messages : List ChatMessage) :
    within message (messages.filter fun m => messageKey m = messageKey message) =
      within message messages := by
  refine Bool.eq_iff_iff.mpr ?_
  rw [within_iff, within_iff]
  constructor
  · rintro ⟨m, hm, hsame⟩
    exact ⟨m, List.mem_of_mem_filter hm, hsame⟩
  · rintro ⟨m, hm, hsame⟩
    exact ⟨m, List.mem_filter.mpr ⟨hm, decide_eq_true (messageKey_of_same hsame)⟩, hsame⟩

theorem publicMessages_eq (initial retainedPublic : List ChatMessage) :
    publicMessages initial retainedPublic =
      retainedPublic.filter fun message => !within message initial := by
  unfold publicMessages
  refine List.filter_congr fun message _ => ?_
  rw [Dict.lookup_groupBy, within_filter_key]

/-! The last occurrence of every public message. -/

/-- Where the last item with this message starts. -/
def lastStart (items : List RetainedItem) (message : ChatMessage) : Int :=
  items.foldl (fun last item => if item.message.same message then item.start else last) (-1)

theorem lastStart_snoc (items : List RetainedItem) (item : RetainedItem) (message : ChatMessage) :
    lastStart (items ++ [item]) message =
      if item.message.same message then (item.start : Int) else lastStart items message := by
  rw [lastStart, List.foldl_append]
  rfl

theorem lastStart_ge (items : List RetainedItem) (message : ChatMessage) :
    -1 ≤ lastStart items message := by
  induction items using List.reverseRecOn with
  | nil => exact Int.le_refl _
  | append_singleton items item ih =>
    rw [lastStart_snoc]
    split
    · omega
    · exact ih

theorem lastStart_lt {items : List RetainedItem} {count : Nat}
    (h : ∀ item ∈ items, item.start < count) (message : ChatMessage) :
    lastStart items message < count := by
  induction items using List.reverseRecOn with
  | nil =>
    change (-1 : Int) < count
    omega
  | append_singleton items item ih =>
    rw [lastStart_snoc]
    split
    · have := h item (by simp)
      omega
    · exact ih fun other ho => h other (by simp [ho])

/-- Positions of public messages that the item is not equal to are left as they are. -/
theorem markPublic_eq (publics : List ChatMessage) (item : RetainedItem)
    (f : ChatMessage → Int) (ordinals : List Nat)
    (hall : ∀ k m, publics[k]? = some m → item.message.same m = true → k ∈ ordinals) :
    markPublic publics item (publics.map f) ordinals =
      publics.map fun m => if item.message.same m then (item.start : Int) else f m := by
  have hlength :
      ∀ last : List Int, (markPublic publics item last ordinals).length = last.length := by
    unfold markPublic
    clear hall
    induction ordinals with
    | nil => exact fun _ => rfl
    | cons ordinal ordinals ih =>
      intro last
      rw [List.foldl_cons, ih]
      split <;> simp
  have hget : ∀ (k : Nat) (last : List Int), k < last.length →
      (markPublic publics item last ordinals)[k]? =
        if k ∈ ordinals ∧ publics[k]?.any (fun m => item.message.same m) = true then
          some (item.start : Int) else last[k]? := by
    unfold markPublic
    clear hall hlength
    intro k
    induction ordinals with
    | nil => simp
    | cons ordinal ordinals ih =>
      intro last hk
      rw [List.foldl_cons]
      by_cases hsame : publics[ordinal]?.any (fun m => item.message.same m) = true
      · rw [if_pos hsame, ih _ (by rwa [List.length_set]), List.getElem?_set]
        by_cases ho : ordinal = k
        · subst ho
          simp [hsame, hk]
        · simp [ho, Ne.symm ho]
      · rw [if_neg hsame, ih _ hk]
        by_cases ho : k = ordinal
        · subst ho
          simp [hsame]
        · simp [ho]
  refine List.ext_getElem? fun k => ?_
  by_cases hk : k < publics.length
  · rw [hget k _ (by rwa [List.length_map]), List.getElem?_map, List.getElem?_map]
    have hm : publics[k]? = some publics[k] := List.getElem?_eq_getElem hk
    rw [hm]
    by_cases hsame : item.message.same publics[k] = true
    · simp [hall k _ hm hsame, hsame]
    · simp [hsame]
  · have hle := Nat.le_of_not_lt hk
    rw [List.getElem?_eq_none (by rw [hlength, List.length_map]; exact hle),
      List.getElem?_eq_none (by rw [List.length_map]; exact hle)]

theorem lastPublics_eq (publics : List ChatMessage) (items : List RetainedItem) :
    lastPublics publics items = publics.map (lastStart items) := by
  unfold lastPublics
  dsimp only
  induction items using List.reverseRecOn with
  | nil =>
    rw [List.foldl_nil]
    exact List.map_const.symm
  | append_singleton items item ih =>
    rw [List.foldl_append, ih, List.foldl_cons, List.foldl_nil, Dict.lookup_groupBy,
      markPublic_eq publics item (lastStart items)]
    · exact List.map_congr_left fun m _ => (lastStart_snoc items item m).symm
    · intro k m hm hsame
      refine List.mem_map.mpr ⟨(m, k), List.mem_filter.mpr ⟨?_, ?_⟩, rfl⟩
      · exact List.mem_zipIdx_iff_getElem?.mpr hm
      · exact decide_eq_true (messageKey_of_same hsame).symm

/-- Items in the order of the entries. -/
def Ordered (items : List RetainedItem) : Prop :=
  items.Pairwise fun a b => a.start < b.start

/-- The items that start at a boundary or behind it. -/
def itemsFrom (items : List RetainedItem) (boundary : Nat) : List RetainedItem :=
  items.filter fun item => boundary ≤ item.start

theorem lastStart_lt_iff {items : List RetainedItem} (h : Ordered items) (message : ChatMessage)
    (boundary : Nat) : lastStart items message < boundary ↔
      within message ((itemsFrom items boundary).map (·.message)) = false := by
  induction items using List.reverseRecOn with
  | nil =>
    refine iff_of_true ?_ rfl
    change (-1 : Int) < boundary
    omega
  | append_singleton items item ih =>
    obtain ⟨hordered, -, hlast⟩ := List.pairwise_append.mp h
    rw [lastStart_snoc, itemsFrom, List.filter_append, List.map_append, within_append,
      Bool.or_eq_false_iff]
    by_cases hsame : item.message.same message = true
    · rw [if_pos hsame]
      by_cases hb : boundary ≤ item.start
      · refine iff_of_false (by omega) fun hno => ?_
        have hin := hno.2
        simp [hb, within, hsame] at hin
      · refine iff_of_true (by omega) ⟨?_, by simp [hb, within]⟩
        have hnone : items.filter (fun other => decide (boundary ≤ other.start)) = [] :=
          List.filter_eq_nil_iff.mpr fun other ho => by
            have := hlast other ho item (List.mem_singleton_self item)
            simp only [decide_eq_true_eq]
            omega
        rw [hnone]
        rfl
    · rw [if_neg hsame, ih hordered]
      refine ⟨fun hno => ⟨hno, ?_⟩, fun hno => hno.1⟩
      by_cases hb : boundary ≤ item.start
      · simp [hb, within, hsame]
      · simp [hb, within]

theorem drop_bisectLeft {items : List RetainedItem} (h : Ordered items) (boundary : Nat) :
    items.drop (bisectLeft (items.map (·.start)) boundary) = itemsFrom items boundary := by
  unfold bisectLeft itemsFrom
  induction items with
  | nil => rfl
  | cons item items ih =>
    obtain ⟨hfirst, hrest⟩ := List.pairwise_cons.mp h
    rw [List.map_cons]
    by_cases hb : item.start < boundary
    · rw [List.takeWhile_cons_of_pos (by simpa using hb), List.length_cons, List.drop_succ_cons,
        ih hrest, List.filter_cons_of_neg (by simpa using hb)]
    · have hall : ∀ other ∈ item :: items, boundary ≤ other.start := by
        intro other ho
        obtain rfl | ho := List.mem_cons.mp ho
        · omega
        · have := hfirst other ho
          omega
      rw [List.takeWhile_cons_of_neg (by simpa using hb), List.length_nil, List.drop_zero,
        List.filter_eq_self.mpr fun other ho => decide_eq_true (hall other ho)]

theorem zip_map_filter {α : Type} (f : α → Int) (xs : List α) (boundary : Nat) :
    ((xs.zip (xs.map f)).filter fun entry => entry.2 < (boundary : Int)).map (·.1) =
      xs.filter fun x => f x < (boundary : Int) := by
  induction xs with
  | nil => rfl
  | cons x xs ih =>
    rw [List.map_cons, List.zip_cons_cons, List.filter_cons, List.filter_cons]
    split
    · rw [List.map_cons, ih]
    · exact ih

/-! The costs. -/

section Costs

variable (text : ChatImage ⊕ ProviderContinuation → String)

/-- The public messages that neither the initial ones nor the kept ones hold. -/
def publicBeside (initial retainedPublic : List ChatMessage) (kept : List RetainedItem) :
    List ChatMessage :=
  retainedPublic.filter fun message =>
    !within message initial && !within message (kept.map (·.message))

theorem publics_lt {items : List RetainedItem} (h : Ordered items) (initial retainedPublic :
    List ChatMessage) (boundary : Nat) :
    (publicMessages initial retainedPublic).filter (fun m => lastStart items m < (boundary : Int)) =
      publicBeside initial retainedPublic (itemsFrom items boundary) := by
  rw [publicMessages_eq, List.filter_filter]
  refine List.filter_congr fun message _ => ?_
  have hiff := lastStart_lt_iff h message boundary
  cases hw : within message ((itemsFrom items boundary).map (·.message)) with
  | false => simp [hiff.mpr hw]
  | true =>
    have hno : ¬ lastStart items message < (boundary : Int) := fun hlt => by
      rw [hiff.mp hlt] at hw
      cases hw
    simp [hno]

/-- The messages that the index selects at a boundary. -/
theorem retained_new {items : List RetainedItem} (h : Ordered items) (count : Nat)
    (initial retainedPublic : List ChatMessage) (boundary : Nat) :
    (TailIndex.new text items count initial retainedPublic).retained boundary =
      publicBeside initial retainedPublic (itemsFrom items boundary) ++
        (itemsFrom items boundary).map (·.message) := by
  unfold TailIndex.retained TailIndex.new
  dsimp only
  rw [lastPublics_eq, zip_map_filter, publics_lt h, drop_bisectLeft h]

theorem sumWhere_growth (f : ChatMessage → Int) (hf : ∀ m, -1 ≤ f m) (publics : List ChatMessage)
    (boundary : Nat) :
    sumWhere (· < boundary + 1) (growth text publics (publics.map f)) =
      ((publics.filter fun m => f m < (boundary : Int)).map (messageTokenCost text)).sum := by
  unfold sumWhere growth
  induction publics with
  | nil => rfl
  | cons m publics ih =>
    have hpos : (f m + 1).toNat < boundary + 1 ↔ f m < (boundary : Int) := by
      have := hf m
      omega
    rw [List.map_cons, List.zip_cons_cons, List.map_cons]
    by_cases hb : f m < (boundary : Int)
    · rw [List.filter_cons_of_pos (by simpa [hpos] using hb),
        List.filter_cons_of_pos (by simpa using hb), List.map_cons, List.map_cons, List.sum_cons,
        List.sum_cons, ih]
    · rw [List.filter_cons_of_neg (by simpa [hpos] using hb),
        List.filter_cons_of_neg (by simpa using hb), ih]

theorem publicCost_new {items : List RetainedItem} (h : Ordered items) {count : Nat}
    (hcount : ∀ item ∈ items, item.start < count) (initial retainedPublic : List ChatMessage)
    {boundary : Nat} (hb : boundary ≤ count) :
    (TailIndex.new text items count initial retainedPublic).publicCost.getD boundary 0 =
      ((publicBeside initial retainedPublic (itemsFrom items boundary)).map
        (messageTokenCost text)).sum := by
  unfold TailIndex.new
  dsimp only
  rw [lastPublics_eq, getD_prefixSums_gather _ (Nat.lt_succ_of_le hb),
    sumWhere_growth text _ (lastStart_ge items), publics_lt h]
  intro item hitem
  obtain ⟨⟨m, last⟩, hm, rfl⟩ := List.mem_map.mp hitem
  obtain ⟨k, hk⟩ := List.mem_iff_getElem?.mp hm
  rw [List.getElem?_zip_eq_some, List.getElem?_map] at hk
  obtain ⟨m', -, hlast⟩ := Option.map_eq_some_iff.mp hk.2
  have hlt := lastStart_lt hcount m'
  dsimp only at hlast ⊢
  omega

/-- The items that are kept whatever the boundary. -/
def requiredItems (keepFrom : Nat) (items : List RetainedItem) : List RetainedItem :=
  items.filter fun item => keepFrom ≤ item.start

theorem requiredItems_itemsFrom {boundary keepFrom : Nat} (h : boundary ≤ keepFrom)
    (items : List RetainedItem) :
    requiredItems keepFrom (itemsFrom items boundary) = requiredItems keepFrom items := by
  unfold requiredItems itemsFrom
  rw [List.filter_filter]
  refine List.filter_congr fun item _ => ?_
  rw [Bool.eq_iff_iff, Bool.and_eq_true, decide_eq_true_eq, decide_eq_true_eq]
  omega

theorem requiredCost_new {t : TailInput} {items : List RetainedItem}
    (hbuilt : ∀ item ∈ items, item = t.item item.start item.message) {count : Nat}
    (hkeep : t.keepFrom ≤ count) (initial retainedPublic : List ChatMessage) {boundary : Nat}
    (hb : boundary ≤ t.keepFrom) :
    (TailIndex.new text items count initial retainedPublic).requiredCost.getD boundary 0 =
      ((requiredItems t.keepFrom (itemsFrom items boundary)).map fun item =>
        messageTokenCost text item.message).sum := by
  have hrequired : requiredCosts text items = (requiredItems t.keepFrom items).map fun item =>
      (t.keepFrom, messageTokenCost text item.message) := by
    unfold requiredCosts requiredItems
    clear hb
    induction items with
    | nil => rfl
    | cons item items ih =>
      have hitem : item.requiredFrom = if t.keepFrom ≤ item.start then some t.keepFrom else none :=
        congrArg RetainedItem.requiredFrom (hbuilt item List.mem_cons_self)
      have hrest := ih fun other ho => hbuilt other (List.mem_cons_of_mem _ ho)
      by_cases hle : t.keepFrom ≤ item.start
      · rw [if_pos hle] at hitem
        simp [hitem, hle, hrest]
      · rw [if_neg hle] at hitem
        simp [hitem, hle, hrest]
  have hall : ∀ item ∈ requiredCosts text items, item.1 = t.keepFrom := by
    rw [hrequired]
    intro item hitem
    obtain ⟨other, -, rfl⟩ := List.mem_map.mp hitem
    rfl
  unfold TailIndex.new
  dsimp only
  rw [getD_suffixSums_gather fun item hitem => by rw [hall item hitem]; omega, sumWhere,
    List.filter_eq_self.mpr fun item hitem => decide_eq_true (by rw [hall item hitem]; exact hb),
    requiredItems_itemsFrom hb, hrequired, List.map_map]
  rfl

end Costs

end Yuki.Compaction
