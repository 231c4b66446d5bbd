import Yuki.ToolResults.JsonPaging

/-! Every child, member or match of a JSON artifact is visited once; what cannot
be counted does not fit. -/

namespace Yuki.ToolResults

theorem exists_foldlM {σ α : Type} (f : σ → α → Option σ) (P : σ → Prop) (items : List α)
    (hstep : ∀ s, ∀ a ∈ items, P s → ∃ s', f s a = some s' ∧ P s') (s : σ) (hs : P s) :
    ∃ s', items.foldlM f s = some s' ∧ P s' := by
  induction items generalizing s with
  | nil => exact ⟨s, rfl, hs⟩
  | cons a items ih =>
    obtain ⟨t, ht, hpt⟩ := hstep s a (by simp) hs
    obtain ⟨u, hu, hpu⟩ := ih (fun s b hb => hstep s b (by simp [hb])) t hpt
    exact ⟨u, by simp [List.foldlM_cons, ht, hu], hpu⟩

theorem height_le_fields {fields : List (String × Node)} {f : String × Node} (h : f ∈ fields) :
    f.2.height ≤ Node.heightFields fields := by
  induction fields with
  | nil => simp at h
  | cons f' fs ih =>
    obtain ⟨k, v⟩ := f'
    simp only [Node.heightFields]
    obtain rfl | h := List.mem_cons.1 h
    · exact Nat.le_max_left _ _
    · exact Nat.le_trans (ih h) (Nat.le_max_right _ _)

theorem height_le_items {items : List Node} {x : Node} (h : x ∈ items) :
    x.height ≤ Node.heightItems items := by
  induction items with
  | nil => simp at h
  | cons y ys ih =>
    simp only [Node.heightItems]
    obtain rfl | h := List.mem_cons.1 h
    · exact Nat.le_max_left _ _
    · exact Nat.le_trans (ih h) (Nat.le_max_right _ _)

/-- What the walk records of the item itself. -/
def ownMatch (path : List Part) (item : Node) (keyMatch : Bool) : List Found :=
  if keyMatch then [⟨path, none, item⟩] else []

theorem walk_obj (g : Setting) (folded : String) (stack ident : Nat) (fields : List (String × Node))
    (path : List Part) (keyMatch : Bool) :
    walk g folded (stack + 1) (.obj ident fields) path keyMatch =
      ((g.sortedFields fields).foldlM
        (walkField g folded (.obj ident fields) path (walk g folded stack))
        (keyMatch, ownMatch path (.obj ident fields) keyMatch, 1)).map (·.2) := rfl

/-- A value no higher than the calls left is walked, and what is found lies in it. -/
theorem walk_spec (g : Setting) (folded : String) (stack : Nat) (item : Node) (path : List Part)
    (keyMatch : Bool) (h : item.height ≤ stack) :
    ∃ r, walk g folded stack item path keyMatch = some r ∧
      ∀ f ∈ r.1, f.value.height ≤ item.height := by
  induction stack generalizing item path keyMatch with
  | zero => exact absurd item.height_pos (by omega)
  | succ stack ih =>
    have hown : ∀ f ∈ ownMatch path item keyMatch, f.value.height ≤ item.height := by
      intro f hf
      unfold ownMatch at hf
      split at hf
      · obtain rfl := List.mem_singleton.1 hf
        exact Nat.le_refl _
      · simp at hf
    cases item with
    | obj ident fields =>
      have hlow : 1 + Node.heightFields fields ≤ stack + 1 := h
      have hstep : ∀ s, ∀ f ∈ g.sortedFields fields,
          (∀ f' ∈ s.2.1, f'.value.height ≤ (Node.obj ident fields).height) →
          ∃ s', walkField g folded (.obj ident fields) path (walk g folded stack) s f = some s' ∧
            ∀ f' ∈ s'.2.1, f'.value.height ≤ (Node.obj ident fields).height := by
        intro s f hf hs
        have hmem : f ∈ fields := (List.mem_insertionSort _).1 hf
        have hle := height_le_fields hmem
        unfold walkField
        dsimp only
        split
        · split
          · refine ⟨_, rfl, fun f' hf' => ?_⟩
            obtain hf' | hf' := List.mem_append.1 hf'
            · exact hs f' hf'
            · obtain rfl := List.mem_singleton.1 hf'
              exact Nat.le_refl _
          · exact ⟨s, rfl, hs⟩
        · obtain ⟨r, hr, hall⟩ := ih f.2 (path ++ [.key f.1]) (contains (g.casefold f.1) folded)
            (by omega)
          refine ⟨_, by rw [hr]; rfl, fun f' hf' => ?_⟩
          obtain hf' | hf' := List.mem_append.1 hf'
          · exact hs f' hf'
          · have := hall f' hf'
            simp only [Node.height]
            omega
      obtain ⟨s, hs, hall⟩ := exists_foldlM _ _ _ hstep
        (keyMatch, ownMatch path (.obj ident fields) keyMatch, 1) hown
      exact ⟨s.2, by rw [walk_obj, hs]; rfl, hall⟩
    | arr ident items =>
      have hlow : 1 + Node.heightItems items ≤ stack + 1 := h
      have hstep : ∀ s, ∀ x ∈ items.zipIdx,
          (∀ f ∈ s.1, f.value.height ≤ (Node.arr ident items).height) →
          ∃ s', walkItem g folded path (walk g folded stack) s x = some s' ∧
            ∀ f ∈ s'.1, f.value.height ≤ (Node.arr ident items).height := by
        intro s x hx hs
        have hle := height_le_items (List.fst_mem_of_mem_zipIdx hx)
        unfold walkItem
        split
        · split
          · refine ⟨_, rfl, fun f' hf' => ?_⟩
            obtain hf' | hf' := List.mem_append.1 hf'
            · exact hs f' hf'
            · obtain rfl := List.mem_singleton.1 hf'
              simp only [Node.height]
              omega
          · exact ⟨s, rfl, hs⟩
        · obtain ⟨r, hr, hall⟩ := ih x.1 (path ++ [.index x.2]) false (by omega)
          refine ⟨_, by rw [hr]; rfl, fun f' hf' => ?_⟩
          obtain hf' | hf' := List.mem_append.1 hf'
          · exact hs f' hf'
          · have := hall f' hf'
            simp only [Node.height]
            omega
      obtain ⟨s, hs, hall⟩ := exists_foldlM _ _ _ hstep
        (ownMatch path (.arr ident items) keyMatch, 1) hown
      exact ⟨s, hs, hall⟩
    | null | bool | int | real | str =>
      unfold walk
      dsimp only
      split
      · refine ⟨_, rfl, fun f hf => ?_⟩
        obtain hf | hf := List.mem_append.1 hf
        · exact hown f hf
        · obtain rfl := List.mem_singleton.1 hf
          exact Nat.le_refl _
      · exact ⟨_, rfl, hown⟩

theorem mem_firstOfPath {kept rest : List Found} {f : Found} (h : f ∈ firstOfPath kept rest) :
    f ∈ kept ∨ f ∈ rest := by
  induction rest generalizing kept with
  | nil => exact .inl h
  | cons found rest ih =>
    unfold firstOfPath at h
    split at h
    · exact (ih h).imp_right (List.mem_cons_of_mem _)
    · obtain h | h := ih h
      · obtain h | h := List.mem_append.1 h
        · exact .inl h
        · exact .inr (by simp_all)
      · exact .inr (List.mem_cons_of_mem _ h)

theorem searchMatches_spec (g : Setting) {value : Node} (h : value.height ≤ g.stack)
    (path : List Part) (query : String) : ∃ found scanned,
      searchMatches g value path query = some (found, scanned) ∧
        ∀ f ∈ found, f.value.height ≤ value.height := by
  obtain ⟨r, hr, hall⟩ := walk_spec g (g.casefold query) g.stack value path false h
  refine ⟨_, r.2, by rw [searchMatches, hr]; rfl, fun f hf => ?_⟩
  obtain h0 | h0 := mem_firstOfPath ((List.mem_insertionSort _).1 hf)
  · simp at h0
  · exact hall f h0

theorem nodup_firstOfPath {kept rest : List Found} (h : (kept.map Found.path).Nodup) :
    ((firstOfPath kept rest).map Found.path).Nodup := by
  induction rest generalizing kept with
  | nil => exact h
  | cons found rest ih =>
    unfold firstOfPath
    split
    · exact ih h
    · next hany =>
      refine ih ?_
      rw [List.map_append, List.map_cons, List.map_nil, List.nodup_append_comm]
      refine List.nodup_cons.2 ⟨fun hm => hany ?_, h⟩
      obtain ⟨f, hf, hp⟩ := List.mem_map.1 hm
      exact List.any_eq_true.2 ⟨f, hf, decide_eq_true hp⟩

/-- The matches are at different places. -/
theorem nodup_searchMatches {g : Setting} {value : Node} {path : List Part} {query : String}
    {found : List Found} {scanned : Nat}
    (h : searchMatches g value path query = some (found, scanned)) :
    (found.map Found.path).Nodup := by
  obtain ⟨r, -, hr⟩ := Option.map_eq_some_iff.1 h
  obtain ⟨rfl, rfl⟩ := Prod.mk.inj hr
  have hperm := (List.perm_insertionSort (fun a b : Found => pathSortKey a.path ≤ pathSortKey b.path)
    (firstOfPath [] r.1)).map Found.path
  exact hperm.nodup_iff.2 (nodup_firstOfPath .nil)

/-! What is stored at the path. -/

section Stored

variable (g : Setting) (value : Node) (path : List Part) (limit budget : Nat)

/-- The members as they are stored. -/
def storedMembers : Node → List (Option String × Json)
  | .obj _ fields => fields.map fun f => (some f.1, f.2.plain)
  | .arr _ items => items.map fun x => (none, x.plain)
  | _ => []

/-- The shapes of the members as they are stored. -/
def storedChildren : Node → List Json
  | .obj _ fields => fields.map fun f => .obj (("key", .str f.1) :: valueShape f.2)
  | .arr _ items => items.zipIdx.map fun x => .obj (("index", .int x.2) :: valueShape x.1)
  | _ => []

theorem perm_inspectChildren : (inspectChildren g value).Perm (storedChildren value) := by
  cases value with
  | obj ident fields => exact (List.perm_insertionSort _ fields).map _
  | _ => exact .refl _

theorem perm_plainMembers : (plainMembers g value).Perm (storedMembers value) := by
  cases value with
  | obj ident fields =>
    rw [plainMembers, getMembers, List.map_map]
    exact (List.perm_insertionSort _ fields).map _
  | arr ident items =>
    rw [plainMembers, getMembers, List.map_map]
    exact .refl _
  | _ => exact .refl _

theorem height_getMembers {m : Option String × Node} (h : m ∈ getMembers g value) :
    m.2.height < value.height := by
  cases value with
  | obj ident fields =>
    obtain ⟨f, hf, rfl⟩ := List.mem_map.1 h
    have := height_le_fields ((List.mem_insertionSort _).1 hf)
    simp only [Node.height]
    omega
  | arr ident items =>
    obtain ⟨x, hx, rfl⟩ := List.mem_map.1 h
    have := height_le_items hx
    simp only [Node.height]
    omega
  | _ => simp [getMembers] at h

theorem membersCountable_of_height (h : value.height ≤ g.stack) (offset count : Nat) :
    membersCountable g value limit budget offset count = true := by
  have hall := (sized_memberSizes g budget (selected (getMembers g value) offset limit)
    sound_nil).2 fun m hm => by
      have := height_getMembers g value (mem_selected hm)
      omega
  rw [membersCountable, List.all_eq_true]
  intro size hm
  exact List.all_eq_true.1 hall size (List.mem_of_mem_take hm)

theorem isPage_directPage : IsPage (directPage g path value) := by
  refine ⟨rfl, fun s => ?_, ?_⟩
  · have : (directPage g path value).get "error_code" = .null := rfl
    rw [this]
    simp
  · have : (directPage g path value).get "executed" = .null := rfl
    rw [this]
    rfl

theorem artifactPageFits_le {stack : Nat} {page : Json} {maxCharacters : Nat}
    (h : artifactPageFits stack page maxCharacters = true) :
    dumpsLength (artifactEnvelope page) ≤ maxCharacters := by
  obtain ⟨size, hsize, hle⟩ := Option.any_eq_true .. |>.1 h
  have hval := (jsonCharacterCount_spec stack (.ofJson (artifactEnvelope page))
    (some (maxCharacters : Int)) sound_none).2.1 size hsize
  rw [Node.plain_ofJson, saturated] at hval
  have hneg : isNegative (some (maxCharacters : Int)) = false := by simp [isNegative]
  simp only [hneg, Bool.false_eq_true, if_false, cap] at hval
  have hle := of_decide_eq_true hle
  omega

theorem plainItems_eq (items : List Node) : Node.plainItems items = items.map Node.plain := by
  induction items with
  | nil => rfl
  | cons x xs ih => rw [Node.plainItems, ih, List.map_cons]

theorem plainFields_eq (fields : List (String × Node)) :
    Node.plainFields fields = fields.map fun f => (f.1, f.2.plain) := by
  induction fields with
  | nil => rfl
  | cons f fs ih => rw [Node.plainFields, ih, List.map_cons]

theorem shownMembers_directPage (hc : value.isContainer = true) :
    shownMembers (directPage g path value) = storedMembers value := by
  cases value with
  | obj ident fields =>
    show (Node.plainFields fields).map (fun f => (some f.1, f.2)) = _
    rw [plainFields_eq, List.map_map]
    rfl
  | arr ident items =>
    show (Node.plainItems items).map (fun item => (none, item)) = _
    rw [plainItems_eq, List.map_map]
    rfl
  | _ => simp [Node.isContainer] at hc

/-- The answer to a first read of a value that fits as a whole: all of it, and no cursor. -/
def WholeValue : Prop :=
  getJson g value path 0 limit budget = some (directPage g path value) ∧
  shownMembers (directPage g path value) = storedMembers value ∧
  (storedMembers value).length ≤ limit ∧
  (directPage g path value).get "next_offset" = .null ∧
  dumpsLength (artifactEnvelope (directPage g path value)) ≤ budget

theorem wholeValue (hc : value.isContainer = true)
    (hdirect : (decide ((getMembers g value).length ≤ limit) &&
      artifactPageFits g.stack (directPage g path value) budget) = true) :
    WholeValue g value path limit budget := by
  obtain ⟨hle, hfits⟩ := (Bool.and_eq_true ..).mp hdirect
  have hlen : (getMembers g value).length = (storedMembers value).length := by
    rw [← (perm_plainMembers g value).length_eq, plainMembers, List.length_map]
  refine ⟨?_, ?_, hlen ▸ of_decide_eq_true hle, rfl, artifactPageFits_le hfits⟩
  · cases value with
    | obj | arr =>
      simp only [getJson]
      rw [if_pos (by simp [hc, of_decide_eq_true hle, hfits])]
    | _ => simp [Node.isContainer] at hc
  · exact shownMembers_directPage g value path hc

end Stored

/-! The walks. -/

section Walks

variable (g : Setting) (fresh : Nat → (Nat × Nat × Nat) × Nat) (value : Node) (path : List Part)
  (query : String) (limit budget : Nat)

def InspectOnce : Prop :=
  (inspectChildren g value).Perm (storedChildren value) ∧
  VisitsOnce (fun o => inspectJson g value path o limit budget) shownChildren
    (inspectChildren g value) (inspectPageAt g value path limit) (fun _ _ => true) limit budget

/-- `get` gives the whole value at once, or walks through its members; members past one that
cannot be counted do not fit. -/
def GetOnce (countable : Nat → Nat → Bool) : Prop :=
  WholeValue g value path limit budget ∨
  (plainMembers g value).Perm (storedMembers value) ∧
  VisitsOnce (fun o => getJson g value path o limit budget) shownMembers (plainMembers g value)
    (getPageAt g value path limit) countable limit budget

/-- `search` walks through its matches, or finds none because the value is too high to walk. -/
def SearchOnce : Prop :=
  (∃ found scanned, searchMatches g value path query = some (found, scanned) ∧
    (found.map Found.path).Nodup ∧
    VisitsOnce (fun o => searchJson g fresh value path query o limit budget) shownMatches
      (found.map fun f => pathJson f.path) (searchPageAt g fresh query found scanned limit budget)
      (matchesCountable g fresh found limit budget) limit budget ∧
    (value.height < g.stack → ∀ o l, matchesCountable g fresh found limit budget o l = true)) ∨
  g.stack < value.height ∧ ∀ o, searchJson g fresh value path query o limit budget = none

theorem matchesCountable_of_height (hstack : 3 < g.stack) {found : List Found}
    (h : ∀ f ∈ found, f.value.height < g.stack) (offset count : Nat) :
    matchesCountable g fresh found limit budget offset count = true := by
  obtain ⟨prepared, hp, -, -, hall⟩ := preparedMatches_spec g hstack fresh budget
    (selected found offset limit) 0 sound_nil
  have hsome := hall fun f hf => h f (mem_selected hf)
  rw [matchesCountable, preparedAt, hp, List.all_eq_true]
  intro size hm
  exact List.all_eq_true.1 hsome size (List.mem_of_mem_take hm)

theorem getOnce (hstack : 3 < g.stack) (hc : value.isContainer = true) (hlimit : 1 ≤ limit) :
    GetOnce g value path limit budget (membersCountable g value limit budget) := by
  cases hdirect : (decide ((getMembers g value).length ≤ limit) &&
      artifactPageFits g.stack (directPage g path value) budget) with
  | true => exact .inl (wholeValue g value path limit budget hc hdirect)
  | false =>
    have hpages := pagesOf_get g value path limit budget hstack hc hdirect
    exact .inr ⟨perm_plainMembers g value, hpages.visitsOnce hlimit⟩

theorem searchOnce (hstack : 3 < g.stack) (hlimit : 1 ≤ limit) :
    SearchOnce g fresh value path query limit budget := by
  cases hs : searchMatches g value path query with
  | none =>
    refine .inr ⟨?_, fun o => by rw [searchJson, hs]; rfl⟩
    by_contra hle
    obtain ⟨found, scanned, hf, -⟩ := searchMatches_spec g (Nat.not_lt.1 hle) path query
    rw [hs] at hf
    cases hf
  | some r =>
    obtain ⟨found, scanned⟩ := r
    have hpages := pagesOf_search g fresh path query found scanned limit budget hstack hs hlimit
    refine .inl ⟨found, scanned, hs, nodup_searchMatches hs, hpages.visitsOnce hlimit, ?_⟩
    intro hh
    obtain ⟨found', scanned', hf, hall⟩ := searchMatches_spec g (Nat.le_of_lt hh) path query
    obtain ⟨rfl, -⟩ := Prod.mk.inj (Option.some.inj (hs.symm.trans hf))
    exact matchesCountable_of_height g fresh limit budget hstack
      fun f hm => Nat.lt_of_le_of_lt (hall f hm) hh

end Walks

def sampleSetting : Setting where
  stack := 980
  casefold s := s.toLower
  handle := "result-1"
  logicalRoot := "$"
  providerId := "files"
  toolName := "list"

/-- Lists inside each other. -/
def nestedList : Nat → Node
  | 0 => .arr 0 []
  | n + 1 => .arr (n + 1) [nestedList n]

theorem dumpsLength_nestedList (n : Nat) : dumpsLength (nestedList n).plain = 2 * (n + 1) := by
  induction n with
  | zero => rfl
  | succ n ih =>
    simp only [nestedList, Node.plain, Node.plainItems, dumpsLength_arr, List.map_cons, List.map_nil,
      ih, usedSum, List.sum_cons, List.sum_nil, List.length_cons, List.length_nil]
    omega

/-- The calls run out in lists nested as deeply. -/
theorem count_nestedList (n stack : Nat) (budget : Int) (h : stack ≤ n) (hb : 2 * stack ≤ budget) :
    count 2 (nestedList n) stack (some budget) (some []) = (none, some []) := by
  induction stack generalizing n budget with
  | zero => cases n <;> simp [nestedList, count]
  | succ stack ih =>
    obtain ⟨m, rfl⟩ := Nat.exists_eq_add_of_le' (Nat.le_trans (Nat.succ_le_succ (Nat.zero_le _)) h)
    have hneg : isNegative (some budget) = false := decide_eq_false (by omega)
    have hexceeds : exceeds 2 (some budget) = false := decide_eq_false (by omega)
    have hsaved : saved (some []) (m + 1) (.arr (m + 1) [nestedList m]) (some budget) = none := rfl
    have hrest : rest (some budget) 2 = some (budget - 2) := rfl
    have hinner := ih m (budget - 2) (by omega) (by omega)
    simp only [nestedList, count, hneg, hsaved, hexceeds, Bool.false_eq_true, if_false, countItems,
      if_true, hrest, hinner, Option.map_none]

/-- A list with a member nested deeper than the calls left, and one after it. -/
def deepValue : Node :=
  .arr 1 [nestedList 1000, .null]

theorem membersCountable_deepValue (l : Nat) :
    membersCountable sampleSetting deepValue 1 8000 0 (l + 1) = false := by
  have hcount : (sampleSetting.countOf (nestedList 1000) 8000 (some [])).1 = none :=
    congrArg Prod.fst (count_nestedList 1000 980 8000 (by decide) (by decide))
  have hsizes : memberSizes sampleSetting 8000 (selected (getMembers sampleSetting deepValue) 0 1)
      (some []) = [none] := by
    show [(sampleSetting.countOf (nestedList 1000) 8000 (some [])).1] = _
    rw [hcount]
  rw [membersCountable, hsizes]
  rfl

theorem dumpsLength_deepPage : dumpsLength (artifactEnvelope
    (getPageAt sampleSetting deepValue [] 1 0 1)) ≤ 8000 := by
  have hmem : ∀ m ∈ [((none : Option String), nestedList 1000)], m ∈ getMembers sampleSetting deepValue :=
    fun m hm => by simp_all [getMembers, deepValue]
  have hlen : usedSum ([((none : Option String), nestedList 1000)].map memberLen) = 2002 := by
    simp [usedSum, memberLen, dumpsLength_nestedList]
  have hempty : dumpsLength (getPage sampleSetting [] deepValue 2 0 [] none) ≤ 1000 := by
    decide +kernel
  have henvelope : emptyEnvelope ≤ 1000 := by decide +kernel
  show dumpsLength (artifactEnvelope (getPage sampleSetting [] deepValue 2 0
    [(none, nestedList 1000)] (some 1))) ≤ 8000
  rw [dumpsLength_envelope (isPage_getPage ..), dumpsLength_getPage _ _ _ _ _ _ hmem, hlen]
  have hone : (digits 1 : Int) = 1 := by decide +kernel
  simp only [Option.elim, hone]
  omega

end Yuki.ToolResults
