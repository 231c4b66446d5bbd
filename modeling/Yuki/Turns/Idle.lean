import Yuki.Turns.Protection

/-! Background turns start on an idle conversation, as long as no section takes a running task
off both occupancy tables. -/

namespace Yuki

/-! The occupancy tables. -/

namespace TurnState

/-- `_occupied` looks at this task. -/
def listed (s : TurnState) (task : TaskId) : Bool :=
  s.tasks.any (fun item => decide (item.2 = task)) || decide (task ∈ Dict.keys s.holders)

/-- The task has a place other than this slot. -/
def listedBeside (s : TurnState) (stage : TurnStage) (task : TaskId) : Bool :=
  s.tasks.any (fun item => decide (item.1 ≠ stage ∧ item.2 = task)) ||
    decide (task ∈ Dict.keys s.holders)

/-- `track` admits the task. -/
def admits (s : TurnState) (token : TurnToken) (task : TaskId) : Bool :=
  decide (s.version = token.version) && (s.registrations.lookup task).all (·.token = token)

variable {s s' : TurnState} {task other : TaskId} {token : TurnToken} {stage : TurnStage}

theorem listed_iff : s.listed task = true ↔
    (∃ item ∈ s.tasks, item.2 = task) ∨ task ∈ Dict.keys s.holders := by
  simp [listed]

theorem listedBeside_iff : s.listedBeside stage task = true ↔
    (∃ item ∈ s.tasks, item.1 ≠ stage ∧ item.2 = task) ∨ task ∈ Dict.keys s.holders := by
  simp [listedBeside]

theorem done_of_idle {done : TaskId → Bool} (h : s.occupied done = false)
    (hl : s.listed task = true) : done task = true := by
  simp only [occupied, List.any_eq_false, Bool.not_eq_true', Bool.not_eq_false] at h
  refine h task (List.mem_append.mpr ?_)
  rcases listed_iff.mp hl with ⟨item, hi, rfl⟩ | hh
  · exact Or.inl (List.mem_map_of_mem hi)
  · exact Or.inr hh

/-- Outside its slots' own stage, a listed task has another place. -/
theorem listedBeside_of_ne (hnd : (Dict.keys s.tasks).Nodup) (hl : s.listed task = true)
    (hs : s.tasks.lookup stage ≠ some task) : s.listedBeside stage task = true := by
  rcases listed_iff.mp hl with ⟨⟨stage', t⟩, hi, rfl⟩ | hh
  · refine listedBeside_iff.mpr (Or.inl ⟨_, hi, fun he => hs ?_, rfl⟩)
    simp only at he
    rw [← he]
    exact Dict.lookup_of_mem hnd hi
  · exact listedBeside_iff.mpr (Or.inr hh)

theorem enterStage_admits : (∃ s', s.enterStage token stage task = .ok s') ↔
    s.admits token task = true := by
  unfold enterStage admits
  by_cases hv : s.version = token.version
  · cases hr : s.registrations.lookup task with
    | none => simp [hv]
    | some r =>
      by_cases ht : r.token = token
      · simp [hv, ht]
      · simp [hv, ht]
  · simp [hv]

theorem listed_enterStage (hnd : (Dict.keys s.tasks).Nodup)
    (h : s.enterStage token stage task = .ok s') :
    s'.listed other = true ↔ other = task ∨ s.listedBeside stage other = true := by
  obtain ⟨-, htasks, -, -, hholders, -⟩ := Registered.enterStage_cases h
  rw [listed_iff, listedBeside_iff, htasks, hholders]
  simp only [Dict.mem_set hnd]
  constructor
  · rintro (⟨item, rfl | ⟨hi, hk⟩, ht⟩ | hh)
    · exact Or.inl ht.symm
    · exact Or.inr (Or.inl ⟨item, hi, hk, ht⟩)
    · exact Or.inr (Or.inr hh)
  · rintro (rfl | ⟨item, hi, hk, ht⟩ | hh)
    · exact Or.inl ⟨_, Or.inl rfl, rfl⟩
    · exact Or.inl ⟨item, Or.inr ⟨hi, hk⟩, ht⟩
    · exact Or.inr hh

theorem listed_exitStage : (s.exitStage stage task).listed other = true ↔
    if s.tasks.lookup stage = some task then s.listedBeside stage other = true
    else s.listed other = true := by
  rw [listed_iff]
  by_cases hs : s.tasks.lookup stage = some task
  · rw [if_pos hs, listedBeside_iff]
    simp [exitStage, hs, Dict.erase, and_assoc]
  · rw [if_neg hs, listed_iff]
    simp [exitStage, hs]

theorem listed_addHolder :
    (s.addHolder task).listed other = true ↔ other = task ∨ s.listed other = true := by
  rw [listed_iff, listed_iff]
  simp only [addHolder, Dict.mem_keys_set]
  exact or_left_comm

theorem listed_dropHolder : (s.dropHolder task).listed other = true ↔
    (∃ item ∈ s.tasks, item.2 = other) ∨
      other ∈ Dict.keys s.holders ∧ (other = task → (s.holders.lookup task).getD 0 > 1) := by
  rw [listed_iff]
  unfold dropHolder
  by_cases hc : (s.holders.lookup task).getD 0 > 1
  · have hk : task ∈ Dict.keys s.holders := by
      rw [Dict.mem_keys]
      cases hl : s.holders.lookup task with
      | none => simp [hl] at hc
      | some n => exact ⟨n, rfl⟩
    simp only [hc, if_true, Dict.keys_set_of_mem hk, implies_true, and_true]
  · simp only [hc, if_false, Dict.mem_keys_erase, imp_false]

theorem promoteObservation_tables {done : TaskId → Bool} {b : Bool} :
    (s.promoteObservation done token b).1.tasks = s.tasks ∧
      (s.promoteObservation done token b).1.holders = s.holders := by
  unfold promoteObservation
  split
  · exact ⟨rfl, rfl⟩
  split
  · exact ⟨rfl, rfl⟩
  split
  · exact ⟨rfl, rfl⟩
  · exact ⟨rfl, rfl⟩

theorem beginBackground_tables {done : TaskId → Bool} {now : Int} :
    (s.beginBackground done now).1.tasks = s.tasks ∧
      (s.beginBackground done now).1.holders = s.holders := by
  unfold beginBackground
  split
  · exact ⟨rfl, rfl⟩
  · exact ⟨rfl, rfl⟩

end TurnState

namespace Conversation

variable {c c' : Conversation} {a : TurnAction}

/-- The task is inside some block. -/
def inside (blocks : List TurnBlock) (task : TaskId) : Bool :=
  blocks.any fun block => decide (block.task = task)

/-- The section takes a task that stays inside a block off both tables: a stage is entered over
the only place of another task, or left as the last place of a task with a further block. -/
def hides (c : Conversation) : TurnAction → Bool
  | .track task token stage =>
    decide (task ∉ c.done ∧ token ∈ c.tokens) && c.state.any fun s =>
      s.admits token task && (s.tasks.lookup stage).any fun prior =>
        decide (prior ≠ task) && inside c.blocks prior && !s.listedBeside stage prior
  | .exit i =>
    match c.blocks[i]? with
    | none => false
    | some (.track task _ stage) =>
      decide (c.current.tasks.lookup stage = some task) && inside (c.blocks.eraseIdx i) task &&
        !c.current.listedBeside stage task
    | some (.hold task) | some (.background task) =>
      decide ((c.current.holders.lookup task).getD 0 ≤ 1) && inside (c.blocks.eraseIdx i) task &&
        !c.current.tasks.any (fun item => decide (item.2 = task))
  | _ => false

/-- The section hands out a token for an idle conversation. -/
def grants (c : Conversation) : TurnAction → Bool
  | .beginBackground now => (c.current.beginBackground c.isDone now).2.isSome
  | .background task origin now =>
    decide (task ∉ c.done) && (c.current.enterBackground c.isDone task origin now).2.isSome
  | .promote token false =>
    decide (token ∈ c.tokens) && c.state.any fun s =>
      (s.promoteObservation c.isDone token false).2.isSome
  | _ => false

/-- A step that hides no task. -/
def OpenStep (c : Conversation) (a : TurnAction) (c' : Conversation) : Prop :=
  c.step a = some c' ∧ c.hides a = false

/-- The tasks inside a block run, and a stage has one slot. -/
structure Placed (c : Conversation) : Prop where
  slots : (Dict.keys c.current.tasks).Nodup
  running : ∀ block ∈ c.blocks, block.task ∉ c.done

/-- `_occupied` sees every task inside a block. -/
def Covered (c : Conversation) : Prop :=
  ∀ block ∈ c.blocks, c.current.listed block.task = true

theorem inside_iff {blocks : List TurnBlock} {task : TaskId} :
    inside blocks task = true ↔ ∃ block ∈ blocks, block.task = task := by
  simp [inside]

/-- A section that changes neither the tables nor the blocks. -/
theorem Covered.congr (h : c.Covered) (htasks : c'.current.tasks = c.current.tasks)
    (hholders : c'.current.holders = c.current.holders) (hblocks : c'.blocks = c.blocks) :
    c'.Covered := by
  unfold Covered TurnState.listed
  rw [htasks, hholders, hblocks]
  exact h

theorem Placed.congr (h : c.Placed) (htasks : c'.current.tasks = c.current.tasks)
    (hblocks : c'.blocks = c.blocks) (hdone : c'.done = c.done) : c'.Placed :=
  ⟨htasks ▸ h.slots, by rw [hblocks, hdone]; exact h.running⟩

theorem tables_notify (hc : c.Sound) (current : Option TaskId) (origin : TurnOrigin)
    (flags : NotifyFlags) (now : Int) :
    (c.current.notifyMessage current c.isDone c.interruptAutonomous origin flags now).state.tasks =
        c.current.tasks ∧
      (c.current.notifyMessage current c.isDone c.interruptAutonomous origin flags
        now).state.holders = c.current.holders := by
  rcases TurnState.notifyMessage_cases hc.registered.keys current c.isDone c.interruptAutonomous
    origin flags now with ⟨-, hs, -⟩ | ⟨g, -, -, -, pv, hs⟩
  · rw [hs]
    exact ⟨rfl, rfl⟩
  · rw [hs]
    exact ⟨rfl, rfl⟩

theorem tables_mark {token : TurnToken} :
    ((c.state.map fun s : TurnState => s.markMutationStarted token).getD {}).tasks =
        c.current.tasks ∧
      ((c.state.map fun s : TurnState => s.markMutationStarted token).getD {}).holders =
        c.current.holders := by
  unfold current
  cases c.state with
  | none => exact ⟨rfl, rfl⟩
  | some s => exact ⟨rfl, rfl⟩

theorem covered_enter (block : TurnBlock) {state : TurnState} {task : TaskId} (hcov : c.Covered)
    (ht : block.task = task)
    (hl : ∀ other, state.listed other = true ↔ other = task ∨ c.current.listed other = true) :
    (c.enter state block).Covered := by
  intro b hb
  show state.listed b.task = true
  rw [hl]
  rcases List.mem_append.mp hb with hb | hb
  · exact Or.inr (hcov b hb)
  · rw [List.mem_singleton.mp hb]
    exact Or.inl ht

theorem covered_track (hp : c.Placed) (hcov : c.Covered) {s s' : TurnState} {task : TaskId}
    {token : TurnToken} {stage : TurnStage} (hstate : c.state = some s)
    (hs : s.enterStage token stage task = .ok s') :
    (c.track s' task token stage).Covered ↔
      ∀ prior, s.tasks.lookup stage = some prior → prior ≠ task → inside c.blocks prior = true →
        s.listedBeside stage prior = true := by
  have hcur := current_some hstate
  have hnd := hp.slots
  rw [hcur] at hnd
  have hl : ∀ other, s'.listed other = true ↔ other = task ∨ s.listedBeside stage other = true :=
    fun other => TurnState.listed_enterStage hnd hs
  constructor
  · intro hcov' prior hprior hne hin
    obtain ⟨block, hb, rfl⟩ := inside_iff.mp hin
    have hlist : s'.listed block.task = true := hcov' block (List.mem_append_left _ hb)
    exact ((hl _).mp hlist).resolve_left hne
  · intro hkept b hb
    show s'.listed b.task = true
    rw [hl]
    rcases List.mem_append.mp hb with hb | hb
    · by_cases ht : b.task = task
      · exact Or.inl ht
      · right
        have hold : s.listed b.task = true := hcur ▸ hcov b hb
        by_cases hslot : s.tasks.lookup stage = some b.task
        · exact hkept b.task hslot ht (inside_iff.mpr ⟨b, hb, rfl⟩)
        · exact TurnState.listedBeside_of_ne hnd hold hslot
    · rw [List.mem_singleton.mp hb]
      exact Or.inl rfl

/-- The exit of a block, where the tables may lose its task only. -/
theorem covered_exit (hcov : c.Covered) {i : Nat} {block : TurnBlock}
    (hi : c.blocks[i]? = some block) (hblocks : c'.blocks = c.blocks.eraseIdx i)
    (hl : ∀ other, other ≠ block.task → c.current.listed other = true →
      c'.current.listed other = true) :
    c'.Covered ↔ (inside (c.blocks.eraseIdx i) block.task = true →
      c'.current.listed block.task = true) := by
  unfold Covered
  rw [hblocks]
  constructor
  · intro hcov' hin
    obtain ⟨b, hb, ht⟩ := inside_iff.mp hin
    rw [← ht]
    exact hcov' b hb
  · intro hkept b hb
    have hold := hcov b ((blocks_perm hi).mem_iff.mpr (List.mem_cons_of_mem _ hb))
    by_cases ht : b.task = block.task
    · rw [ht]
      exact hkept (inside_iff.mpr ⟨b, hb, ht⟩)
    · exact hl b.task ht hold

theorem covered_exitStage (hp : c.Placed) (hcov : c.Covered) {i : Nat} {task : TaskId}
    {token : TurnToken} {stage : TurnStage} (hi : c.blocks[i]? = some (.track task token stage))
    (hblocks : c'.blocks = c.blocks.eraseIdx i)
    (hcur : c'.current = c.current.exitStage stage task) :
    c'.Covered ↔ (c.current.tasks.lookup stage = some task →
      inside (c.blocks.eraseIdx i) task = true → c.current.listedBeside stage task = true) := by
  have hold : c.current.listed task = true := hcov _ (List.mem_of_getElem? hi)
  rw [covered_exit hcov hi hblocks fun other ho hlist => ?_]
  · simp only [TurnBlock.task, hcur, TurnState.listed_exitStage]
    by_cases hs : c.current.tasks.lookup stage = some task
    · simp [hs]
    · simp [hs, hold]
  · rw [hcur, TurnState.listed_exitStage]
    split
    · rename_i hs
      exact TurnState.listedBeside_of_ne hp.slots hlist fun he =>
        ho (Option.some.inj (he.symm.trans hs))
    · exact hlist

theorem covered_dropHolder (hcov : c.Covered) {i : Nat} {block : TurnBlock}
    (hi : c.blocks[i]? = some block) (hblocks : c'.blocks = c.blocks.eraseIdx i)
    (hcur : c'.current = c.current.dropHolder block.task) :
    c'.Covered ↔ ((c.current.holders.lookup block.task).getD 0 ≤ 1 →
      inside (c.blocks.eraseIdx i) block.task = true →
        ∃ item ∈ c.current.tasks, item.2 = block.task) := by
  have hold : c.current.listed block.task = true := hcov _ (List.mem_of_getElem? hi)
  rw [covered_exit hcov hi hblocks fun other ho hlist => ?_]
  · rw [hcur, TurnState.listed_dropHolder]
    rw [TurnState.listed_iff] at hold
    by_cases hc : (c.current.holders.lookup block.task).getD 0 ≤ 1
    · have hc' : ¬ (c.current.holders.lookup block.task).getD 0 > 1 := by omega
      simp [hc, hc']
    · have hc' : (c.current.holders.lookup block.task).getD 0 > 1 := by omega
      refine iff_of_true (fun _ => ?_) (fun h => absurd h hc)
      exact hold.imp_right fun hk => ⟨hk, fun _ => hc'⟩
  · rw [hcur, TurnState.listed_dropHolder]
    exact (TurnState.listed_iff.mp hlist).imp_right fun hk => ⟨hk, fun he => absurd he ho⟩

theorem placed_step (hc : c.Sound) (h : c.Placed) (hs : Step c a c') : c'.Placed := by
  have hexit : ∀ {i : Nat} {block : TurnBlock}, c.blocks[i]? = some block →
      ∀ b ∈ c.blocks.eraseIdx i, b.task ∉ c.done := fun hi b hb =>
    h.running b ((blocks_perm hi).mem_iff.mpr (List.mem_cons_of_mem _ hb))
  have henter : ∀ block : TurnBlock, block.task ∉ c.done →
      ∀ b ∈ c.blocks ++ [block], b.task ∉ c.done := by
    intro block hb b hin
    rcases List.mem_append.mp hin with hin | hin
    · exact h.running b hin
    · rw [List.mem_singleton.mp hin]
      exact hb
  cases a with
  | configure b =>
    obtain rfl := Option.some.inj hs
    exact ⟨h.slots, h.running⟩
  | notify current origin flags now =>
    obtain rfl := Option.some.inj hs
    exact h.congr (tables_notify hc current origin flags now).1 rfl rfl
  | hold task =>
    obtain ⟨hd, hs⟩ := Option.ite_none_left_eq_some.mp hs
    obtain rfl := Option.some.inj hs
    exact ⟨h.slots, henter _ hd⟩
  | track task token stage =>
    obtain ⟨hd, hs⟩ := Option.ite_none_left_eq_some.mp hs
    cases hst : c.state with
    | none =>
      rw [hst] at hs
      obtain rfl := Option.some.inj hs
      exact h
    | some s =>
      simp only [hst] at hs
      cases hent : s.enterStage token stage task with
      | error e =>
        rw [hent] at hs
        obtain rfl := Option.some.inj hs
        exact h
      | ok s' =>
        rw [hent] at hs
        obtain rfl := Option.some.inj hs
        refine ⟨?_, henter (.track task token stage) fun hin => hd (Or.inl hin)⟩
        obtain ⟨-, htasks, -⟩ := TurnState.Registered.enterStage_cases hent
        show (Dict.keys s'.tasks).Nodup
        rw [htasks, ← current_some hst]
        exact Dict.nodup_set h.slots _ _
  | background task origin now =>
    obtain ⟨hd, hs⟩ := Option.ite_none_left_eq_some.mp hs
    unfold TurnState.enterBackground at hs
    split at hs
    · rename_i hg
      split at hg
      · cases hg
        obtain rfl := Option.some.inj hs
        exact ⟨h.slots, h.running⟩
      · cases hg
    · rename_i hg
      split at hg
      · cases hg
      · cases hg
        obtain rfl := Option.some.inj hs
        exact ⟨h.slots, henter (.background task) hd⟩
  | exit i =>
    cases hi : c.blocks[i]? with
    | none => simp [Step, Conversation.step, hi] at hs
    | some block =>
      cases block with
      | track task token stage =>
        simp only [Step, Conversation.step, hi] at hs
        have hcur := (hc.exitStage hi (Option.some.inj hs).symm).2
        refine ⟨?_, ?_⟩
        · rw [hcur]
          unfold TurnState.exitStage
          split
          · exact Dict.nodup_erase h.slots _
          · exact h.slots
        · obtain rfl := Option.some.inj hs
          exact hexit hi
      | hold task | background task =>
        simp only [Step, Conversation.step, hi] at hs
        obtain rfl := Option.some.inj hs
        exact ⟨h.slots, hexit hi⟩
  | mark token =>
    obtain ⟨-, hs⟩ := Option.ite_none_right_eq_some.mp hs
    obtain rfl := Option.some.inj hs
    exact h.congr tables_mark.1 rfl rfl
  | promote token preserveActive =>
    obtain ⟨-, hs⟩ := Option.ite_none_right_eq_some.mp hs
    cases hst : c.state with
    | none =>
      rw [hst] at hs
      obtain rfl := Option.some.inj hs
      exact h
    | some s =>
      simp only [hst] at hs
      obtain rfl := Option.some.inj hs
      refine h.congr ?_ rfl rfl
      rw [current_some hst]
      exact TurnState.promoteObservation_tables.1
  | beginBackground now =>
    obtain rfl := Option.some.inj hs
    exact h.congr TurnState.beginBackground_tables.1 rfl rfl
  | finish task =>
    obtain ⟨hn, hs⟩ := Option.ite_none_left_eq_some.mp hs
    obtain rfl := Option.some.inj hs
    refine ⟨h.slots, fun b hb hin => ?_⟩
    rcases List.mem_cons.mp hin with he | hin
    · exact hn (Or.inr (he ▸ List.mem_map_of_mem hb))
    · exact h.running b hb hin

/-- A section keeps `_occupied` sighted exactly when it hides no task. -/
theorem covered_step (hc : c.Sound) (h : c.Placed) (hcov : c.Covered) (hs : Step c a c') :
    c'.Covered ↔ c.hides a = false := by
  cases a with
  | configure b =>
    obtain rfl := Option.some.inj hs
    exact iff_of_true hcov rfl
  | notify current origin flags now =>
    obtain rfl := Option.some.inj hs
    obtain ⟨htasks, hholders⟩ := tables_notify hc current origin flags now
    exact iff_of_true (hcov.congr htasks hholders rfl) rfl
  | hold task =>
    obtain ⟨-, hs⟩ := Option.ite_none_left_eq_some.mp hs
    obtain rfl := Option.some.inj hs
    exact iff_of_true (covered_enter _ hcov rfl fun _ => TurnState.listed_addHolder) rfl
  | track task token stage =>
    obtain ⟨hd, hs⟩ := Option.ite_none_left_eq_some.mp hs
    obtain ⟨hd, ht⟩ := not_or.mp hd
    have ht := not_not.mp ht
    cases hst : c.state with
    | none =>
      rw [hst] at hs
      obtain rfl := Option.some.inj hs
      exact iff_of_true hcov (by simp [hides, hst])
    | some s =>
      simp only [hst] at hs
      cases hent : s.enterStage token stage task with
      | error e =>
        rw [hent] at hs
        obtain rfl := Option.some.inj hs
        have hadmits : s.admits token task = false := by
          rw [Bool.eq_false_iff]
          intro hh
          obtain ⟨s', hs'⟩ := TurnState.enterStage_admits.mpr hh
          rw [hent] at hs'
          cases hs'
        exact iff_of_true hcov (by simp [hides, hst, hadmits])
      | ok s' =>
        rw [hent] at hs
        obtain rfl := Option.some.inj hs
        have hadmits : s.admits token task = true := TurnState.enterStage_admits.mp ⟨s', hent⟩
        rw [covered_track h hcov hst hent]
        cases hslot : s.tasks.lookup stage with
        | none => simp [hides, hst, hslot]
        | some prior => simp [hides, hst, hslot, hd, ht, hadmits]
  | background task origin now =>
    obtain ⟨-, hs⟩ := Option.ite_none_left_eq_some.mp hs
    unfold TurnState.enterBackground at hs
    split at hs
    · rename_i hg
      split at hg
      · cases hg
        obtain rfl := Option.some.inj hs
        exact iff_of_true hcov rfl
      · cases hg
    · rename_i hg
      split at hg
      · cases hg
      · cases hg
        obtain rfl := Option.some.inj hs
        exact iff_of_true (covered_enter (.background task) hcov rfl fun _ =>
          TurnState.listed_addHolder (s := (c.current.backgroundToken origin now).1)) rfl
  | exit i =>
    cases hi : c.blocks[i]? with
    | none => simp [Step, Conversation.step, hi] at hs
    | some block =>
      cases block with
      | track task token stage =>
        simp only [Step, Conversation.step, hi] at hs
        have hcur := (hc.exitStage hi (Option.some.inj hs).symm).2
        obtain rfl := Option.some.inj hs
        rw [covered_exitStage h hcov hi rfl hcur]
        simp [hides, hi]
      | hold task | background task =>
        simp only [Step, Conversation.step, hi] at hs
        obtain rfl := Option.some.inj hs
        rw [covered_dropHolder hcov hi rfl rfl]
        simp [hides, hi, TurnBlock.task]
  | mark token =>
    obtain ⟨-, hs⟩ := Option.ite_none_right_eq_some.mp hs
    obtain rfl := Option.some.inj hs
    exact iff_of_true (hcov.congr tables_mark.1 tables_mark.2 rfl) rfl
  | promote token preserveActive =>
    obtain ⟨-, hs⟩ := Option.ite_none_right_eq_some.mp hs
    cases hst : c.state with
    | none =>
      rw [hst] at hs
      obtain rfl := Option.some.inj hs
      exact iff_of_true hcov rfl
    | some s =>
      simp only [hst] at hs
      obtain rfl := Option.some.inj hs
      have hcur := current_some hst
      refine iff_of_true (hcov.congr ?_ ?_ rfl) rfl
      · rw [hcur]
        exact TurnState.promoteObservation_tables.1
      · rw [hcur]
        exact TurnState.promoteObservation_tables.2
  | beginBackground now =>
    obtain rfl := Option.some.inj hs
    exact iff_of_true (hcov.congr TurnState.beginBackground_tables.1
      TurnState.beginBackground_tables.2 rfl) rfl
  | finish task =>
    obtain ⟨-, hs⟩ := Option.ite_none_left_eq_some.mp hs
    obtain rfl := Option.some.inj hs
    exact iff_of_true hcov rfl

/-- Where `_occupied` is sighted, a grant finds every block left. -/
theorem left_of_grants (hcov : c.Covered) (hg : c.grants a = true) :
    ∀ block ∈ c.blocks, block.task ∈ c.done := by
  have hidle : c.current.occupied c.isDone = false := by
    cases a with
    | beginBackground now =>
      cases ho : c.current.occupied c.isDone with
      | false => rfl
      | true => simp [grants, TurnState.beginBackground, ho] at hg
    | background task origin now =>
      cases ho : c.current.occupied c.isDone with
      | false => rfl
      | true => simp [grants, TurnState.enterBackground, ho] at hg
    | promote token preserveActive =>
      cases preserveActive with
      | true => cases hg
      | false =>
        cases hst : c.state with
        | none => simp [grants, hst] at hg
        | some s =>
          rw [current_some hst]
          cases ho : s.occupied c.isDone with
          | false => rfl
          | true =>
            by_cases hv : s.version = token.version
            · simp [grants, hst, TurnState.promoteObservation, ho, hv] at hg
            · simp [grants, hst, TurnState.promoteObservation, hv] at hg
    | _ => cases hg
  intro block hb
  exact of_decide_eq_true (TurnState.done_of_idle hidle (hcov block hb))

/-- What a run keeps while its sections hide no task. -/
def Sighted (c : Conversation) : Prop :=
  c.Sound ∧ c.Placed ∧ c.Covered

theorem sighted_run (h : c.Sighted) {as : List TurnAction} (hr : Run OpenStep c as c') :
    c'.Sighted := by
  have hstep : ∀ c a c', Sighted c → OpenStep c a c' → Sighted c' := by
    rintro c a c' ⟨hsound, hplaced, hcov⟩ ⟨hs, hhide⟩
    exact ⟨(hsound.step hs).1, placed_step hsound hplaced hs,
      (covered_step hsound hplaced hcov hs).mpr hhide⟩
  exact Run.invariant hstep hr h

/-- In a run whose sections hide no task, a token for an idle conversation finds no unfinished
task inside a block; and the first section that hides a task leaves one that `_occupied` does not
see. -/
theorem granted_when_idle (interruptAutonomous : Bool) {as : List TurnAction}
    (h : Run OpenStep { interruptAutonomous := interruptAutonomous } as c) :
    (∀ a, c.grants a = true → ∀ block ∈ c.blocks, block.task ∈ c.done) ∧
      ∀ a c', Step c a c' → c.hides a = true →
        ∃ block ∈ c'.blocks, block.task ∉ c'.done ∧ c'.current.listed block.task = false := by
  obtain ⟨hsound, hplaced, hcov⟩ := sighted_run
    ⟨sound_of_fresh interruptAutonomous, ⟨List.nodup_nil, nofun⟩, nofun⟩ h
  refine ⟨fun a hg => left_of_grants hcov hg, fun a c' hs hhide => ?_⟩
  have hnot : ¬ c'.Covered := by
    rw [covered_step hsound hplaced hcov hs, hhide]
    exact Bool.noConfusion
  unfold Covered at hnot
  push Not at hnot
  obtain ⟨block, hb, hl⟩ := hnot
  exact ⟨block, hb, (placed_step hsound hplaced hs).running block hb, Bool.eq_false_iff.mpr hl⟩

/-- Two user turns in their generation stage, and the second one leaves. -/
def superseded : List TurnAction :=
  [.notify none .userMessage {} 0, .track 1 ⟨1, .userMessage, 0⟩ .generation,
    .notify none .userMessage {} 1, .track 2 ⟨2, .userMessage, 1⟩ .generation, .exit 1]

/-- The slot of the first turn went to the second and left with it: background work is granted
while the first turn still runs. -/
theorem granted_over_running_turn :
    ∃ c, Run Step {} superseded c ∧ c.grants (.beginBackground 2) = true ∧
      TurnBlock.track 1 ⟨1, .userMessage, 0⟩ .generation ∈ c.blocks ∧ 1 ∉ c.done := by
  have hplay : ((Run.play step {} superseded).map fun c =>
      decide (c.grants (.beginBackground 2) = true ∧
        TurnBlock.track 1 ⟨1, .userMessage, 0⟩ .generation ∈ c.blocks ∧ 1 ∉ c.done)) = some true := by
    decide +kernel
  obtain ⟨c, hc, hd⟩ := Option.map_eq_some_iff.mp hplay
  exact ⟨c, Run.of_play hc, of_decide_eq_true hd⟩

/-- The first turn leaves first, and the conversation is idle once the second has left. -/
theorem granted_when_idle_sample :
    ∃ c, Run OpenStep {} [.notify none .userMessage {} 0, .track 1 ⟨1, .userMessage, 0⟩ .generation,
        .exit 0] c ∧ c.grants (.beginBackground 2) = true ∧
      ∀ block ∈ c.blocks, block.task ∈ c.done := by
  have hplay : ((Run.play (fun (c : Conversation) a => if c.hides a = false then c.step a else none) {}
      [.notify none .userMessage {} 0, .track 1 ⟨1, .userMessage, 0⟩ .generation, .exit 0]).map
        fun c => c.grants (.beginBackground 2)) = some true := by
    decide +kernel
  obtain ⟨c, hc, hg⟩ := Option.map_eq_some_iff.mp hplay
  have hrun : Run OpenStep {} _ c := (Run.of_play hc).mono fun c a c' hs => by
    obtain ⟨hh, hs⟩ := Option.ite_none_right_eq_some.mp hs
    exact ⟨hs, hh⟩
  exact ⟨c, hrun, hg, (granted_when_idle true hrun).1 _ hg⟩

end Conversation

end Yuki
