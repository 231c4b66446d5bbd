import Mathlib.Data.List.Perm.Basic
import Yuki.Lib.Transition
import Yuki.Turns.Coordinator

/-! A turn that has started a side effect is never cancelled by a notification,
and a registration is cancelled at most once. -/

namespace Yuki

/-! What a notification gathers. -/

namespace TurnState

variable {current : Option TaskId} {done : TaskId → Bool} {regs : Dict TaskId RegisteredTurn}

/-- The registrations as a notification leaves them: its tasks are flagged, and were free of
effects and flags before. -/
structure Gathered (regs : Dict TaskId RegisteredTurn) (slots : Dict TurnStage TaskId)
    (c : Cancelling) : Prop where
  keys : Dict.keys c.registrations = Dict.keys regs
  flagged : ∀ task, c.registrations.lookup task = (regs.lookup task).map fun r =>
    if task ∈ c.toCancel then { r with cancellationRequested := true } else r
  nodup : c.toCancel.Nodup
  free : ∀ task ∈ c.toCancel, ∀ r, regs.lookup task = some r →
    r.effectStarted = false ∧ r.cancellationRequested = false
  owned : ∀ task ∈ c.toCancel, regs.lookup task = none →
    ∃ stage, slots.lookup stage = some task

theorem gathered_none (regs : Dict TaskId RegisteredTurn) (slots : Dict TurnStage TaskId) :
    Gathered regs slots { registrations := regs } :=
  ⟨rfl, by simp, by simp, by simp, by simp⟩

theorem gathered_preemptPrivate (hnd : (Dict.keys regs).Nodup) (slots : Dict TurnStage TaskId) :
    Gathered regs slots (preemptPrivate current done regs) := by
  have hmem : ∀ task r, regs.lookup task = some r →
      (task ∈ (preemptPrivate current done regs).toCancel ↔
        preemptable current done task r = true ∧ r.cancellationRequested = false) := by
    intro task r hr
    constructor
    · intro h
      obtain ⟨item, hitem, rfl⟩ := List.mem_map.mp h
      obtain ⟨hin, hp⟩ := List.mem_filter.mp hitem
      obtain rfl := Option.some.inj ((Dict.lookup_of_mem hnd hin).symm.trans hr)
      simpa using hp
    · rintro ⟨hp, hc⟩
      exact List.mem_map.mpr ⟨(task, r), List.mem_filter.mpr
        ⟨Dict.mem_of_lookup hr, by simp [hp, hc]⟩, rfl⟩
  have hin : ∀ task ∈ (preemptPrivate current done regs).toCancel,
      ∃ r, regs.lookup task = some r := by
    intro task h
    obtain ⟨item, hitem, rfl⟩ := List.mem_map.mp h
    exact ⟨item.2, Dict.lookup_of_mem hnd (List.mem_filter.mp hitem).1⟩
  refine ⟨?_, fun task => ?_, ?_, fun task h r hr => ?_, fun task h hn => ?_⟩
  · simp [preemptPrivate, Dict.keys, Function.comp_def]
  · have hlookup : (preemptPrivate current done regs).registrations.lookup task =
        (regs.lookup task).map fun r =>
          if preemptable current done task r then { r with cancellationRequested := true } else r :=
      Dict.lookup_mapValues regs (fun task r => if preemptable current done task r then
        { r with cancellationRequested := true } else r) task
    rw [hlookup]
    cases hr : regs.lookup task with
    | none => rfl
    | some r =>
      by_cases hp : preemptable current done task r = true
      · by_cases hc : r.cancellationRequested = true
        · have hsame : { r with cancellationRequested := true } = r := by
            cases r
            simp_all
          simp [hmem task r hr, hp, hc, hsame]
        · simp [hmem task r hr, hp, hc]
      · simp [hmem task r hr, hp]
  · exact (List.filter_sublist.map _).nodup hnd
  · obtain ⟨hp, hc⟩ := (hmem task r hr).mp h
    simp only [preemptable, Bool.and_eq_true, Bool.not_eq_true'] at hp
    exact ⟨hp.1.1.2, hc⟩
  · obtain ⟨r, hr⟩ := hin task h
    rw [hn] at hr
    cases hr

theorem Gathered.interruptStage {slots : Dict TurnStage TaskId} {c : Cancelling}
    (h : Gathered regs slots c) (stage : TurnStage) :
    Gathered regs slots (interruptStage current done slots c stage) := by
  unfold TurnState.interruptStage
  cases hs : slots.lookup stage with
  | none => exact h
  | some prior =>
    by_cases hskip : current = some prior ∨ done prior = true
    · simpa [hskip] using h
    simp only [hskip, if_false]
    cases hr : c.registrations.lookup prior with
    | none =>
      have hn : regs.lookup prior = none := by
        have hf := h.flagged prior
        rw [hr] at hf
        simpa using hf.symm
      refine ⟨h.keys, fun task => ?_, h.nodup.insert, fun task ht r hl => ?_, fun task ht hl => ?_⟩
      · by_cases ht : task = prior
        · subst ht
          simp [hr, hn]
        · simp [h.flagged task, ht]
      · rcases List.mem_insert_iff.mp ht with rfl | ht
        · rw [hn] at hl
          cases hl
        · exact h.free task ht r hl
      · rcases List.mem_insert_iff.mp ht with rfl | ht
        · exact ⟨stage, hs⟩
        · exact h.owned task ht hl
    | some registered =>
      by_cases hflag : registered.effectStarted = true ∨ registered.cancellationRequested = true
      · simpa [hflag] using h
      simp only [hflag, if_false]
      obtain ⟨he, hc⟩ := not_or.mp hflag
      -- the flag of a task gathered before would show
      have hf := h.flagged prior
      rw [hr] at hf
      obtain ⟨r, hreg, hrr⟩ := Option.map_eq_some_iff.mp hf.symm
      have hnew : prior ∉ c.toCancel := by
        intro hin
        rw [if_pos hin] at hrr
        rw [← hrr] at hc
        exact hc rfl
      rw [if_neg hnew] at hrr
      subst hrr
      refine ⟨?_, fun task => ?_, h.nodup.insert, fun task ht r' hl => ?_, fun task ht hl => ?_⟩
      · rw [Dict.keys_set_of_mem (Dict.mem_keys.mpr ⟨r, hr⟩), h.keys]
      · rw [Dict.lookup_set]
        by_cases ht : prior = task
        · subst ht
          simp [hreg]
        · simp [ht, h.flagged task, Ne.symm ht]
      · rcases List.mem_insert_iff.mp ht with rfl | ht
        · obtain rfl := Option.some.inj (hreg.symm.trans hl)
          exact ⟨by simpa using he, by simpa using hc⟩
        · exact h.free task ht r' hl
      · rcases List.mem_insert_iff.mp ht with rfl | ht
        · rw [hreg] at hl
          cases hl
        · exact h.owned task ht hl

/-- A notification either returns the present version and cancels nothing, or opens the next
version and changes registrations by its flags only. -/
theorem notifyMessage_cases {s : TurnState} (hnd : (Dict.keys s.registrations).Nodup)
    (current : Option TaskId) (done : TaskId → Bool) (b : Bool) (origin : TurnOrigin)
    (flags : NotifyFlags) (now : Int) :
    (s.notifyMessage current done b origin flags now).toCancel = [] ∧
        (s.notifyMessage current done b origin flags now).state = s ∧
        (s.notifyMessage current done b origin flags now).token.version = s.version ∨
      ∃ c, Gathered s.registrations s.tasks c ∧
        (s.notifyMessage current done b origin flags now).toCancel = c.toCancel ∧
        (s.notifyMessage current done b origin flags now).token.version = s.version + 1 ∧
        ∃ protectedVersion, (s.notifyMessage current done b origin flags now).state =
          { s with
            version := s.version + 1
            origin := origin
            mutationStarted := false
            protectedVersion := protectedVersion
            registrations := c.registrations } := by
  unfold notifyMessage
  by_cases hkeep : flags.preserveActive ∨
      flags.observation = true ∧ s.protectedVersion = some s.version
  · left
    rw [if_pos hkeep]
    exact ⟨rfl, rfl, rfl⟩
  · right
    rw [if_neg hkeep]
    refine ⟨_, ?_, rfl, rfl, _, rfl⟩
    have hfirst : Gathered s.registrations s.tasks
        (if flags.preemptPrivate then preemptPrivate current done s.registrations
          else { registrations := s.registrations }) := by
      split
      · exact gathered_preemptPrivate hnd _
      · exact gathered_none _ _
    split
    · exact (hfirst.interruptStage _).interruptStage _
    · exact hfirst

/-! Registrations and slots over the open blocks. -/

end TurnState

/-- A stage of a task. -/
def TurnBlock.tracks (task : TaskId) : TurnBlock → Bool
  | .track t _ _ => t == task
  | _ => false

namespace TurnState

/-- A registration counts its task's open stages under one token, and a slot names a task with an
open stage. -/
structure Registered (s : TurnState) (blocks : List TurnBlock) : Prop where
  keys : (Dict.keys s.registrations).Nodup
  stages : ∀ task r, s.registrations.lookup task = some r →
    r.stages = blocks.countP (TurnBlock.tracks task) ∧ 0 < r.stages
  owned : ∀ task token stage, .track task token stage ∈ blocks →
    ∃ r, s.registrations.lookup task = some r ∧ r.token = token
  slots : ∀ stage task, s.tasks.lookup stage = some task →
    ∃ token, .track task token stage ∈ blocks

namespace Registered

variable {s s' : TurnState} {blocks blocks' : List TurnBlock}

theorem perm (h : s.Registered blocks) (hp : blocks.Perm blocks') : s.Registered blocks' where
  keys := h.keys
  stages task r hr := by
    have hs := h.stages task r hr
    rwa [hp.countP_eq] at hs
  owned task token stage hb := h.owned task token stage (hp.mem_iff.mpr hb)
  slots stage task hs := by
    obtain ⟨token, hb⟩ := h.slots stage task hs
    exact ⟨token, hp.mem_iff.mp hb⟩

/-- A section that only sets flags of registrations. -/
theorem flags (h : s.Registered blocks) (htasks : s'.tasks = s.tasks)
    (hkeys : Dict.keys s'.registrations = Dict.keys s.registrations)
    (hregs : ∀ task r', s'.registrations.lookup task = some r' →
      ∃ r, s.registrations.lookup task = some r ∧ r'.stages = r.stages ∧ r'.token = r.token) :
    s'.Registered blocks where
  keys := hkeys ▸ h.keys
  stages task r' hr := by
    obtain ⟨r, hl, hst, -⟩ := hregs task r' hr
    rw [hst]
    exact h.stages task r hl
  owned task token stage hb := by
    obtain ⟨r, hl, ht⟩ := h.owned task token stage hb
    obtain ⟨r', hl'⟩ : ∃ r', s'.registrations.lookup task = some r' := by
      rw [← Dict.mem_keys, hkeys]
      exact Dict.mem_keys.mpr ⟨r, hl⟩
    obtain ⟨r₀, hl₀, -, ht'⟩ := hregs task r' hl'
    obtain rfl := Option.some.inj (hl.symm.trans hl₀)
    exact ⟨r', hl', ht'.trans ht⟩
  slots stage task hs := h.slots stage task (htasks ▸ hs)

/-- A block that is no stage comes or goes. -/
theorem congr (h : s.Registered blocks) (htasks : s'.tasks = s.tasks)
    (hregs : s'.registrations = s.registrations)
    (hcount : ∀ task, blocks'.countP (TurnBlock.tracks task) =
      blocks.countP (TurnBlock.tracks task))
    (hmem : ∀ task token stage, TurnBlock.track task token stage ∈ blocks' ↔
      TurnBlock.track task token stage ∈ blocks) : s'.Registered blocks' where
  keys := hregs ▸ h.keys
  stages task r hr := by
    rw [hcount]
    exact h.stages task r (hregs ▸ hr)
  owned task token stage hb := hregs ▸ h.owned task token stage ((hmem _ _ _).mp hb)
  slots stage task hs := by
    obtain ⟨token, hb⟩ := h.slots stage task (htasks ▸ hs)
    exact ⟨token, (hmem _ _ _).mpr hb⟩

theorem of_fresh : ({} : TurnState).Registered [] :=
  ⟨List.nodup_nil, by simp, by simp, by simp⟩

theorem enterStage_cases {token : TurnToken} {stage : TurnStage} {task : TaskId}
    (h : s.enterStage token stage task = .ok s') :
    s.version = token.version ∧ s'.tasks = s.tasks.set stage task ∧
      s'.version = s.version ∧ s'.mutationStarted = s.mutationStarted ∧ s'.holders = s.holders ∧
      ((s.registrations.lookup task = none ∧
          s'.registrations = s.registrations.set task
            { token := token, effectStarted := s.mutationStarted }) ∨
        ∃ r, s.registrations.lookup task = some r ∧ r.token = token ∧
          s'.registrations = s.registrations.set task { r with stages := r.stages + 1 }) := by
  unfold TurnState.enterStage at h
  split at h
  · cases h
  · rename_i hv
    have hv := not_not.mp hv
    cases hr : s.registrations.lookup task with
    | none =>
      simp only [hr] at h
      obtain rfl := Except.ok.inj h
      exact ⟨hv, rfl, rfl, rfl, rfl, Or.inl ⟨rfl, rfl⟩⟩
    | some r =>
      simp only [hr] at h
      split at h
      · cases h
      · rename_i ht
        obtain rfl := Except.ok.inj h
        exact ⟨hv, rfl, rfl, rfl, rfl, Or.inr ⟨r, rfl, not_not.mp ht, rfl⟩⟩

theorem tracks_self (task : TaskId) (token : TurnToken) (stage : TurnStage) :
    TurnBlock.tracks task (.track task token stage) = true := by
  simp [TurnBlock.tracks]

theorem tracks_other {task other : TaskId} (h : task ≠ other) (token : TurnToken)
    (stage : TurnStage) : ¬ TurnBlock.tracks other (.track task token stage) = true := by
  simpa [TurnBlock.tracks] using h

/-- A task without a registration has no open stage. -/
theorem count_zero (h : s.Registered blocks) {task : TaskId}
    (hn : s.registrations.lookup task = none) : blocks.countP (TurnBlock.tracks task) = 0 := by
  refine List.countP_eq_zero.mpr fun b hb ht => ?_
  cases b with
  | hold | background => cases ht
  | track other token stage =>
    have he : other = task := by simpa [TurnBlock.tracks] using ht
    obtain ⟨r, hr, -⟩ := h.owned other token stage hb
    rw [he, hn] at hr
    cases hr

theorem enterStage (h : s.Registered blocks) {token : TurnToken} {stage : TurnStage}
    {task : TaskId} (hs : s.enterStage token stage task = .ok s') :
    s'.Registered (.track task token stage :: blocks) := by
  obtain ⟨-, htasks, -, -, -, hregs⟩ := enterStage_cases hs
  -- both branches store one more stage of the task under the token
  obtain ⟨r', hset, htoken, hcount, hpos⟩ : ∃ r', s'.registrations = s.registrations.set task r' ∧
      r'.token = token ∧ r'.stages = blocks.countP (TurnBlock.tracks task) + 1 ∧
        0 < r'.stages := by
    rcases hregs with ⟨hn, hset⟩ | ⟨r, hr, ht, hset⟩
    · exact ⟨_, hset, rfl, by rw [h.count_zero hn], Nat.one_pos⟩
    · exact ⟨_, hset, ht, by rw [← (h.stages task r hr).1], Nat.succ_pos _⟩
  constructor
  · rw [hset]
    exact Dict.nodup_set h.keys _ _
  · intro other r hr
    rw [hset, Dict.lookup_set] at hr
    by_cases ho : task = other
    · subst ho
      rw [if_pos rfl] at hr
      obtain rfl := Option.some.inj hr
      rw [List.countP_cons_of_pos (tracks_self task token stage)]
      exact ⟨hcount, hpos⟩
    · rw [if_neg ho] at hr
      rw [List.countP_cons_of_neg (tracks_other ho token stage)]
      exact h.stages other r hr
  · intro other token' stage' hb
    rw [hset, Dict.lookup_set]
    by_cases ho : task = other
    · subst ho
      refine ⟨r', if_pos rfl, ?_⟩
      rcases List.mem_cons.mp hb with hb | hb
      · cases hb
        exact htoken
      · rcases hregs with ⟨hn, -⟩ | ⟨r, hr, ht, -⟩
        · obtain ⟨r₀, hr₀, -⟩ := h.owned task token' stage' hb
          rw [hn] at hr₀
          cases hr₀
        · obtain ⟨r₀, hr₀, ht₀⟩ := h.owned task token' stage' hb
          obtain rfl := Option.some.inj (hr.symm.trans hr₀)
          rw [htoken, ← ht, ht₀]
    · rw [if_neg ho]
      rcases List.mem_cons.mp hb with hb | hb
      · cases hb
        exact absurd rfl ho
      · exact h.owned other token' stage' hb
  · intro stage' other hslot
    rw [htasks, Dict.lookup_set] at hslot
    by_cases hst : stage = stage'
    · subst hst
      rw [if_pos rfl] at hslot
      obtain rfl := Option.some.inj hslot
      exact ⟨token, List.mem_cons_self⟩
    · rw [if_neg hst] at hslot
      obtain ⟨token', hb⟩ := h.slots stage' other hslot
      exact ⟨token', List.mem_cons_of_mem _ hb⟩

theorem exitStage {token : TurnToken} {stage : TurnStage} {task : TaskId}
    (h : s.Registered (.track task token stage :: blocks)) :
    (s.exitStage stage task).Registered blocks := by
  obtain ⟨r, hr, htoken⟩ := h.owned task token stage List.mem_cons_self
  obtain ⟨hcount, hpos⟩ := h.stages task r hr
  rw [List.countP_cons_of_pos (tracks_self task token stage)] at hcount
  have hlookup : ∀ other, (s.exitStage stage task).registrations.lookup other =
      if task = other then
        if r.stages - 1 = 0 then none else some { r with stages := r.stages - 1 }
      else s.registrations.lookup other := by
    intro other
    simp only [TurnState.exitStage, hr]
    by_cases hz : r.stages - 1 = 0
    · rw [if_pos hz, Dict.lookup_erase, if_pos hz]
    · rw [if_neg hz, Dict.lookup_set, if_neg hz]
  constructor
  · simp only [TurnState.exitStage, hr]
    split
    · exact Dict.nodup_erase h.keys _
    · exact Dict.nodup_set h.keys _ _
  · intro other r' hr'
    rw [hlookup] at hr'
    by_cases ho : task = other
    · subst ho
      rw [if_pos rfl, Option.ite_none_left_eq_some] at hr'
      obtain ⟨hz, hr'⟩ := hr'
      obtain rfl := Option.some.inj hr'
      have hone : r.stages - 1 = blocks.countP (TurnBlock.tracks task) := by omega
      exact ⟨hone, Nat.pos_of_ne_zero hz⟩
    · rw [if_neg ho] at hr'
      have hs := h.stages other r' hr'
      rwa [List.countP_cons_of_neg (tracks_other ho token stage)] at hs
  · intro other token' stage' hb
    obtain ⟨r₀, hr₀, ht₀⟩ := h.owned other token' stage' (List.mem_cons_of_mem _ hb)
    rw [hlookup]
    by_cases ho : task = other
    · subst ho
      obtain rfl := Option.some.inj (hr.symm.trans hr₀)
      have hleft : 0 < blocks.countP (TurnBlock.tracks task) :=
        List.countP_pos_iff.mpr ⟨_, hb, tracks_self task token' stage'⟩
      have hz : ¬ r.stages - 1 = 0 := by omega
      exact ⟨{ r with stages := r.stages - 1 }, by rw [if_pos rfl, if_neg hz], ht₀⟩
    · exact ⟨r₀, by rw [if_neg ho, hr₀], ht₀⟩
  · intro stage' other hslot
    have hold : s.tasks.lookup stage' = some other ∧ (stage = stage' → other ≠ task) := by
      simp only [TurnState.exitStage] at hslot
      split at hslot
      · rw [Dict.lookup_erase] at hslot
        by_cases hst : stage = stage'
        · rw [if_pos hst] at hslot
          cases hslot
        · rw [if_neg hst] at hslot
          exact ⟨hslot, fun he => absurd he hst⟩
      · rename_i hne
        exact ⟨hslot, fun he ht => hne (by rw [he, hslot, ht])⟩
    obtain ⟨token', hb⟩ := h.slots stage' other hold.1
    rcases List.mem_cons.mp hb with hb | hb
    · cases hb
      exact absurd rfl (hold.2 rfl)
    · exact ⟨token', hb⟩

end Registered

end TurnState

namespace Conversation

variable {c c' : Conversation}

/-! What the marked tokens protect. -/

/-- Tokens are not from the future, and a marked token protects the registrations under it and,
while its version lasts, those to come. -/
structure Marks (c : Conversation) : Prop where
  fresh : c.state = none → c.tokens = []
  versions : ∀ t ∈ c.tokens, t.version ≤ c.current.version
  issued : ∀ t ∈ c.marked, t ∈ c.tokens
  effects : ∀ task r, c.current.registrations.lookup task = some r → r.token ∈ c.marked →
    r.effectStarted = true
  mutation : ∀ t ∈ c.marked, t.version = c.current.version → c.current.mutationStarted = true

/-- Every cancellation hit a registration, and the registration it hit is flagged. -/
structure Logged (c : Conversation) : Prop where
  past : ∀ task n, (task, n) ∈ c.cancelled → n ≤ c.registration task
  flagged : ∀ task r, c.current.registrations.lookup task = some r →
    (task, c.registration task) ∈ c.cancelled → r.cancellationRequested = true
  once : c.cancelled.Nodup

/-- A section that leaves every registration's token and effect as they are. -/
theorem Marks.mono (h : c.Marks) (hstate : c'.state ≠ none ∨ c'.tokens = [])
    (hversion : c.current.version ≤ c'.current.version)
    (htokens : ∀ t ∈ c'.tokens, t ∈ c.tokens ∨ t.version ≤ c'.current.version)
    (hkept : ∀ t ∈ c.tokens, t ∈ c'.tokens) (hmarked : c'.marked = c.marked)
    (hregs : ∀ task r', c'.current.registrations.lookup task = some r' →
      ∃ r, c.current.registrations.lookup task = some r ∧ r'.token = r.token ∧
        r'.effectStarted = r.effectStarted)
    (hmutation : c'.current.version = c.current.version →
      c'.current.mutationStarted = c.current.mutationStarted) : c'.Marks where
  fresh hn := hstate.resolve_left (not_not.mpr hn)
  versions t ht := by
    rcases htokens t ht with ht | ht
    · exact Nat.le_trans (h.versions t ht) hversion
    · exact ht
  issued t ht := hkept t (h.issued t (hmarked ▸ ht))
  effects task r' hr ht := by
    obtain ⟨r, hl, htoken, heffect⟩ := hregs task r' hr
    rw [hmarked, htoken] at ht
    rw [heffect]
    exact h.effects task r hl ht
  mutation t ht hv := by
    rw [hmarked] at ht
    have hold := h.versions t (h.issued t ht)
    have hsame : c'.current.version = c.current.version := by omega
    rw [hmutation hsame]
    exact h.mutation t ht (hv.trans hsame)

/-- A section that cancels nothing and registers no task anew. -/
theorem Logged.mono (h : c.Logged) (hregistered : c'.registered = c.registered)
    (hcancelled : c'.cancelled = c.cancelled)
    (hregs : ∀ task r', c'.current.registrations.lookup task = some r' →
      ∃ r, c.current.registrations.lookup task = some r ∧
        r'.cancellationRequested = r.cancellationRequested) : c'.Logged where
  past task n hn := by
    have hreg : c'.registration task = c.registration task := by
      rw [registration, hregistered, registration]
    rw [hreg]
    exact h.past task n (hcancelled ▸ hn)
  flagged task r' hr hn := by
    obtain ⟨r, hl, hflag⟩ := hregs task r' hr
    rw [hflag]
    rw [hcancelled, registration, hregistered] at hn
    exact h.flagged task r hl hn
  once := hcancelled ▸ h.once

structure Sound (c : Conversation) : Prop where
  registered : c.current.Registered c.blocks
  marks : c.Marks
  logged : c.Logged

/-- A section that leaves the registrations, the slots and the stages alone. -/
theorem Sound.mono (h : c.Sound) (hstate : c'.state ≠ none ∨ c'.tokens = [])
    (hregs : c'.current.registrations = c.current.registrations)
    (htasks : c'.current.tasks = c.current.tasks)
    (hcount : ∀ task, c'.blocks.countP (TurnBlock.tracks task) =
      c.blocks.countP (TurnBlock.tracks task))
    (hmem : ∀ task token stage, TurnBlock.track task token stage ∈ c'.blocks ↔
      TurnBlock.track task token stage ∈ c.blocks)
    (hversion : c.current.version ≤ c'.current.version)
    (hmutation : c'.current.version = c.current.version →
      c'.current.mutationStarted = c.current.mutationStarted)
    (htokens : ∀ t ∈ c'.tokens, t ∈ c.tokens ∨ t.version ≤ c'.current.version)
    (hkept : ∀ t ∈ c.tokens, t ∈ c'.tokens) (hmarked : c'.marked = c.marked)
    (hregistered : c'.registered = c.registered) (hcancelled : c'.cancelled = c.cancelled) :
    c'.Sound where
  registered := h.registered.congr htasks hregs hcount hmem
  marks := h.marks.mono hstate hversion htokens hkept hmarked
    (fun _ r hr => ⟨r, hregs ▸ hr, rfl, rfl⟩) hmutation
  logged := h.logged.mono hregistered hcancelled fun _ r hr => ⟨r, hregs ▸ hr, rfl⟩

theorem current_some {s : TurnState} (h : c.state = some s) : c.current = s := by
  rw [current, h]
  rfl

/-- The registrations that a notification leaves are those it found, with flags. -/
theorem lookup_gathered {s : TurnState} {g : Cancelling}
    (hg : TurnState.Gathered s.registrations s.tasks g) {task : TaskId} {r' : RegisteredTurn}
    (hr : g.registrations.lookup task = some r') :
    ∃ r, s.registrations.lookup task = some r ∧ r'.stages = r.stages ∧ r'.token = r.token ∧
      r'.effectStarted = r.effectStarted ∧
      (r.cancellationRequested = true ∨ task ∈ g.toCancel ↔ r'.cancellationRequested = true) := by
  rw [hg.flagged task] at hr
  obtain ⟨r, hl, hr'⟩ := Option.map_eq_some_iff.mp hr
  refine ⟨r, hl, ?_⟩
  by_cases hin : task ∈ g.toCancel
  · rw [if_pos hin] at hr'
    subst hr'
    exact ⟨rfl, rfl, rfl, by simp [hin]⟩
  · rw [if_neg hin] at hr'
    subst hr'
    exact ⟨rfl, rfl, rfl, by simp [hin]⟩

/-- A task that a notification cancels is registered, has no effect and no earlier cancellation. -/
theorem Sound.toCancel (h : c.Sound) {g : Cancelling}
    (hg : TurnState.Gathered c.current.registrations c.current.tasks g) {task : TaskId}
    (hin : task ∈ g.toCancel) : ∃ r, c.current.registrations.lookup task = some r ∧
      r.effectStarted = false ∧ r.cancellationRequested = false := by
  cases hr : c.current.registrations.lookup task with
  | some r => exact ⟨r, rfl, hg.free task hin r hr⟩
  | none =>
    -- a slot names a task with an open stage, and that task is registered
    obtain ⟨stage, hslot⟩ := hg.owned task hin hr
    obtain ⟨token, hb⟩ := h.registered.slots stage task hslot
    obtain ⟨r, hl, -⟩ := h.registered.owned task token stage hb
    rw [hr] at hl
    cases hl

theorem Sound.notify (h : c.Sound) (current : Option TaskId) (origin : TurnOrigin)
    (flags : NotifyFlags) (now : Int) :
    (c.notify (c.current.notifyMessage current c.isDone c.interruptAutonomous origin flags
        now)).Sound ∧
      c.current.version ≤ (c.notify (c.current.notifyMessage current c.isDone
        c.interruptAutonomous origin flags now)).current.version := by
  generalize hn : c.current.notifyMessage current c.isDone c.interruptAutonomous origin flags now
    = n
  have hcases := TurnState.notifyMessage_cases h.registered.keys current c.isDone
    c.interruptAutonomous origin flags now
  rw [hn] at hcases
  rcases hcases with ⟨hcancel, hstate, htoken⟩ | ⟨g, hg, hcancel, htoken, pv, hstate⟩
  · have hcur : (c.notify n).current = c.current := hstate
    refine ⟨h.mono (Or.inl nofun) (by rw [hcur]) (by rw [hcur]) (fun _ => rfl) (fun _ _ _ => Iff.rfl)
      (Nat.le_of_eq (by rw [hcur])) (fun _ => by rw [hcur]) (fun t ht => ?_)
      (fun t => List.mem_cons_of_mem _) rfl rfl ?_, Nat.le_of_eq (by rw [hcur])⟩
    · rcases List.mem_cons.mp ht with rfl | ht
      · exact Or.inr (Nat.le_of_eq (by rw [hcur, htoken]))
      · exact Or.inl ht
    · show n.toCancel.map _ ++ c.cancelled = c.cancelled
      rw [hcancel]
      rfl
  · have hcur : (c.notify n).current = n.state := rfl
    rw [hstate] at hcur
    have hversion : (c.notify n).current.version = c.current.version + 1 := by rw [hcur]
    have hregs : (c.notify n).current.registrations = g.registrations := by rw [hcur]
    have hlog : (c.notify n).cancelled =
        g.toCancel.map (fun task => (task, c.registration task)) ++ c.cancelled := by
      rw [← hcancel]
      rfl
    refine ⟨⟨?_, ?_, ?_⟩, by omega⟩
    · refine h.registered.flags (by rw [hcur]) (by rw [hregs, hg.keys]) fun task r' hr => ?_
      rw [hregs] at hr
      obtain ⟨r, hl, hstages, ht, -⟩ := lookup_gathered hg hr
      exact ⟨r, hl, hstages, ht⟩
    · refine h.marks.mono (Or.inl nofun) (by omega) (fun t ht => ?_)
        (fun t => List.mem_cons_of_mem _) rfl (fun task r' hr => ?_) (fun he => by omega)
      · rcases List.mem_cons.mp ht with rfl | ht
        · exact Or.inr (Nat.le_of_eq (by rw [hversion, htoken]))
        · exact Or.inl ht
      · rw [hregs] at hr
        obtain ⟨r, hl, -, ht, he, -⟩ := lookup_gathered hg hr
        exact ⟨r, hl, ht, he⟩
    · constructor
      · intro task n' hin
        rw [hlog] at hin
        rcases List.mem_append.mp hin with hin | hin
        · obtain ⟨t, -, he⟩ := List.mem_map.mp hin
          cases he
          exact Nat.le_refl _
        · exact h.logged.past task n' hin
      · intro task r' hr hin
        rw [hregs] at hr
        obtain ⟨r, hl, -, -, -, hflag⟩ := lookup_gathered hg hr
        rw [← hflag]
        rw [hlog] at hin
        rcases List.mem_append.mp hin with hin | hin
        · obtain ⟨t, ht, he⟩ := List.mem_map.mp hin
          cases he
          exact Or.inr ht
        · exact Or.inl (h.logged.flagged task r hl hin)
      · rw [hlog]
        refine List.Nodup.append (hg.nodup.map fun a b he => (Prod.mk.inj he).1) h.logged.once ?_
        -- a registration in the log is flagged, and no flagged registration is cancelled
        intro item hin hold
        obtain ⟨task, ht, rfl⟩ := List.mem_map.mp hin
        obtain ⟨r, hl, -, hfree⟩ := h.toCancel hg ht
        have hset := h.logged.flagged task r hl hold
        rw [hfree] at hset
        cases hset

/-- The entry of a stage, in an admitted version. -/
theorem Sound.track (h : c.Sound) {s s' : TurnState} {task : TaskId} {token : TurnToken}
    {stage : TurnStage} (hstate : c.state = some s)
    (hs : s.enterStage token stage task = .ok s') : (c.track s' task token stage).Sound := by
  have hcur := current_some hstate
  have hcur' : (c.track s' task token stage).current = s' := rfl
  have hreg := h.registered
  rw [hcur] at hreg
  obtain ⟨hv, -, hversion, hmutation, -, hregs⟩ := TurnState.Registered.enterStage_cases hs
  have hlookup : ∀ other, other ≠ task →
      s'.registrations.lookup other = s.registrations.lookup other := by
    intro other ho
    rcases hregs with ⟨-, hset⟩ | ⟨r, -, -, hset⟩
    · rw [hset, Dict.lookup_set, if_neg ho.symm]
    · rw [hset, Dict.lookup_set, if_neg ho.symm]
  refine ⟨?_, ?_, ?_⟩
  · rw [hcur']
    exact (hreg.enterStage hs).perm (List.perm_append_singleton _ _).symm
  · refine ⟨nofun, fun t ht => ?_, h.marks.issued, fun other r hr ht => ?_, fun t ht he => ?_⟩
    · rw [hcur', hversion, ← hcur]
      exact h.marks.versions t ht
    · rw [hcur'] at hr
      by_cases ho : other = task
      · subst ho
        rcases hregs with ⟨-, hset⟩ | ⟨r₀, hr₀, -, hset⟩
        · -- a new registration takes the shared flag, which a marked token of this version set
          rw [hset, Dict.lookup_set, if_pos rfl] at hr
          obtain rfl := Option.some.inj hr
          have hm := h.marks.mutation token ht (by rw [hcur, hv])
          rwa [hcur] at hm
        · rw [hset, Dict.lookup_set, if_pos rfl] at hr
          obtain rfl := Option.some.inj hr
          exact h.marks.effects other r₀ (by rw [hcur, hr₀]) ht
      · rw [hlookup other ho] at hr
        exact h.marks.effects other r (by rw [hcur, hr]) ht
    · rw [hcur', hversion, ← hcur] at he
      rw [hcur', hmutation, ← hcur]
      exact h.marks.mutation t ht he
  · have hregistered : ∀ other, (c.track s' task token stage).registration other =
        if task = other ∧ s.registrations.lookup task = none then c.registration task + 1
        else c.registration other := by
      intro other
      simp only [registration, Conversation.track, hcur]
      cases hn : s.registrations.lookup task with
      | some r => simp
      | none =>
        by_cases ho : task = other
        · subst ho
          simp [Dict.lookup_set]
        · simp [Dict.lookup_set, ho]
    refine ⟨fun other n hin => ?_, fun other r hr hin => ?_, h.logged.once⟩
    · have hpast := h.logged.past other n hin
      rw [hregistered]
      split
      · rename_i hnew
        obtain rfl := hnew.1
        omega
      · exact hpast
    · rw [hcur'] at hr
      rw [hregistered] at hin
      by_cases ho : task = other
      · subst ho
        rcases hregs with ⟨hn, -⟩ | ⟨r₀, hr₀, -, hset⟩
        · rw [if_pos ⟨rfl, hn⟩] at hin
          have hpast := h.logged.past task _ hin
          omega
        · rw [if_neg (by simp [hr₀])] at hin
          rw [hset, Dict.lookup_set, if_pos rfl] at hr
          obtain rfl := Option.some.inj hr
          exact h.logged.flagged task r₀ (by rw [hcur, hr₀]) hin
      · rw [if_neg fun hh => ho hh.1] at hin
        rw [hlookup other (Ne.symm ho)] at hr
        exact h.logged.flagged other r (by rw [hcur, hr]) hin

/-- The exit of a stage: a task keeps its registration, or loses it with its last stage. -/
theorem exitStage_lookup {s : TurnState} {stage : TurnStage} {task other : TaskId}
    {r' : RegisteredTurn} (hr : (s.exitStage stage task).registrations.lookup other = some r') :
    ∃ r, s.registrations.lookup other = some r ∧ r'.token = r.token ∧
      r'.effectStarted = r.effectStarted ∧ r'.cancellationRequested = r.cancellationRequested := by
  simp only [TurnState.exitStage] at hr
  cases ht : s.registrations.lookup task with
  | none =>
    rw [ht] at hr
    exact ⟨r', hr, rfl, rfl, rfl⟩
  | some r =>
    simp only [ht] at hr
    by_cases ho : task = other
    · subst ho
      split at hr
      · rw [Dict.lookup_erase, if_pos rfl] at hr
        cases hr
      · rw [Dict.lookup_set, if_pos rfl] at hr
        obtain rfl := Option.some.inj hr
        exact ⟨r, ht, rfl, rfl, rfl⟩
    · split at hr
      · rw [Dict.lookup_erase, if_neg ho] at hr
        exact ⟨r', hr, rfl, rfl, rfl⟩
      · rw [Dict.lookup_set, if_neg ho] at hr
        exact ⟨r', hr, rfl, rfl, rfl⟩

theorem blocks_perm {i : Nat} {block : TurnBlock} (hi : c.blocks[i]? = some block) :
    c.blocks.Perm (block :: c.blocks.eraseIdx i) := by
  obtain ⟨hlt, he⟩ := List.getElem?_eq_some_iff.mp hi
  have hp := List.getElem_cons_eraseIdx_perm hlt
  rw [he] at hp
  exact hp.symm

theorem current_map {f : TurnState → TurnState} (hf : f {} = {}) :
    (c.state.map f).getD {} = f c.current := by
  cases hs : c.state with
  | none => simp [current, hs, hf]
  | some s => simp [current, hs]

theorem Sound.exitStage (h : c.Sound) {i : Nat} {task : TaskId} {token : TurnToken}
    {stage : TurnStage} (hi : c.blocks[i]? = some (.track task token stage))
    (hc : c' = { c with
      blocks := c.blocks.eraseIdx i
      state := c.state.map fun s => s.exitStage stage task }) :
    c'.Sound ∧ c'.current = c.current.exitStage stage task := by
  have hcur : c'.current = c.current.exitStage stage task := by
    rw [hc]
    exact current_map rfl
  have htokens : c'.tokens = c.tokens := by rw [hc]
  refine ⟨⟨?_, ?_, ?_⟩, hcur⟩
  · have hblocks : c'.blocks = c.blocks.eraseIdx i := by rw [hc]
    rw [hcur, hblocks]
    exact (h.registered.perm (blocks_perm hi)).exitStage
  · refine h.marks.mono ?_ (Nat.le_of_eq ?_) (fun t ht => Or.inl (htokens ▸ ht))
      (fun t ht => htokens ▸ ht) (by rw [hc]) (fun other r' hr => ?_) fun _ => ?_
    · cases hs : c.state with
      | none => exact Or.inr (htokens.trans (h.marks.fresh hs))
      | some s =>
        left
        rw [hc, hs]
        exact nofun
    · rw [hcur]
      rfl
    · obtain ⟨r, hl, ht, he, -⟩ := exitStage_lookup (hcur ▸ hr)
      exact ⟨r, hl, ht, he⟩
    · rw [hcur]
      rfl
  · refine h.logged.mono (by rw [hc]) (by rw [hc]) fun other r' hr => ?_
    obtain ⟨r, hl, -, -, hflag⟩ := exitStage_lookup (hcur ▸ hr)
    exact ⟨r, hl, hflag⟩

/-- A registration after `mark_mutation_started`. -/
theorem markMutationStarted_lookup {s : TurnState} {token : TurnToken} {task : TaskId}
    {r' : RegisteredTurn}
    (hr : (s.markMutationStarted token).registrations.lookup task = some r') :
    ∃ r, s.registrations.lookup task = some r ∧ r'.stages = r.stages ∧ r'.token = r.token ∧
      r'.cancellationRequested = r.cancellationRequested ∧
      (r.effectStarted = true ∨ r.token = token → r'.effectStarted = true) := by
  have hmap := Dict.lookup_mapValues s.registrations (fun _ (r : RegisteredTurn) =>
    if r.token = token then { r with effectStarted := true } else r) task
  obtain ⟨r, hl, he⟩ := Option.map_eq_some_iff.mp (hmap.symm.trans hr)
  refine ⟨r, hl, ?_⟩
  split at he
  · subst he
    exact ⟨rfl, rfl, rfl, fun _ => rfl⟩
  · rename_i hne
    subst he
    exact ⟨rfl, rfl, rfl, fun ho => ho.resolve_right hne⟩

/-- `mark_mutation_started` returns: from here on its token is protected. -/
theorem Sound.mark (h : c.Sound) {token : TurnToken} (ht : token ∈ c.tokens)
    (hc : c' = { c with
      state := c.state.map fun s => s.markMutationStarted token
      marked := token :: c.marked }) :
    c'.Sound ∧ c.current.version ≤ c'.current.version := by
  obtain ⟨s, hs⟩ : ∃ s, c.state = some s := by
    cases hs : c.state with
    | none =>
      rw [h.marks.fresh hs] at ht
      cases ht
    | some s => exact ⟨s, rfl⟩
  have hcur : c'.current = c.current.markMutationStarted token := by
    rw [hc, current_some hs, current, hs]
    rfl
  have hversion : c'.current.version = c.current.version := by rw [hcur]; rfl
  have hmarked : c'.marked = token :: c.marked := by rw [hc]
  have htokens : c'.tokens = c.tokens := by rw [hc]
  refine ⟨⟨?_, ⟨fun hn => ?_, fun t hin => ?_, fun t hin => ?_, fun task r' hr hin => ?_,
    fun t hin hv => ?_⟩, ?_⟩, Nat.le_of_eq hversion.symm⟩
  · have hblocks : c'.blocks = c.blocks := by rw [hc]
    rw [hblocks]
    refine h.registered.flags (by rw [hcur]; rfl) ?_ fun task r' hr => ?_
    · rw [hcur]
      simp [TurnState.markMutationStarted, Dict.keys, Function.comp_def]
    · obtain ⟨r, hl, hstages, htoken, -⟩ := markMutationStarted_lookup (hcur ▸ hr)
      exact ⟨r, hl, hstages, htoken⟩
  · rw [hc, hs] at hn
    cases hn
  · rw [hversion]
    exact h.marks.versions t (htokens ▸ hin)
  · rw [htokens]
    rcases List.mem_cons.mp (hmarked ▸ hin) with rfl | hin
    · exact ht
    · exact h.marks.issued t hin
  · obtain ⟨r, hl, -, htoken, -, heffect⟩ := markMutationStarted_lookup (hcur ▸ hr)
    refine heffect ?_
    rw [htoken, hmarked] at hin
    rcases List.mem_cons.mp hin with he | hin
    · exact Or.inr he
    · exact Or.inl (h.marks.effects task r hl hin)
  · rw [hversion] at hv
    rw [hcur, TurnState.markMutationStarted]
    by_cases hsame : c.current.version = token.version
    · simp [hsame]
    · rcases List.mem_cons.mp (hmarked ▸ hin) with rfl | hin
      · exact absurd hv.symm hsame
      · simpa [hsame] using h.marks.mutation t hin hv
  · refine h.logged.mono (by rw [hc]) (by rw [hc]) fun task r' hr => ?_
    obtain ⟨r, hl, -, -, hflag, -⟩ := markMutationStarted_lookup (hcur ▸ hr)
    exact ⟨r, hl, hflag⟩

/-- The grants: the state stays and the token carries its version, or both move on together. -/
theorem Sound.advance (h : c.Sound) {s' : TurnState} {granted : Option TurnToken}
    (hs : s' = c.current ∧ (∀ t, granted = some t → t.version = c.current.version) ∨
      s'.registrations = c.current.registrations ∧ s'.tasks = c.current.tasks ∧
        s'.version = c.current.version + 1 ∧ ∀ t, granted = some t → t.version = s'.version) :
    (({ c with state := some s' } : Conversation).grant granted).Sound ∧
      c.current.version ≤ (({ c with state := some s' } : Conversation).grant granted).current.version := by
  have hcur : (({ c with state := some s' } : Conversation).grant granted).current = s' := rfl
  have htoken : ∀ t, granted = some t → t.version ≤ s'.version := by
    intro t ht
    rcases hs with ⟨rfl, hg⟩ | ⟨-, -, -, hg⟩
    · exact Nat.le_of_eq (hg t ht)
    · exact Nat.le_of_eq (hg t ht)
  have hle : c.current.version ≤ s'.version := by
    rcases hs with ⟨rfl, -⟩ | ⟨-, -, hv, -⟩
    · exact Nat.le_refl _
    · omega
  refine ⟨h.mono (Or.inl nofun) ?_ ?_ (fun _ => rfl) (fun _ _ _ => Iff.rfl) hle (fun he => ?_)
    (fun t ht => ?_) (fun _ => List.mem_append_right _) rfl rfl rfl, hle⟩
  · rcases hs with ⟨rfl, -⟩ | ⟨hr, -⟩
    · rfl
    · exact hr
  · rcases hs with ⟨rfl, -⟩ | ⟨-, ht, -⟩
    · rfl
    · exact ht
  · rcases hs with ⟨rfl, -⟩ | ⟨-, -, hv, -⟩
    · rfl
    · rw [hcur] at he
      omega
  · rcases List.mem_append.mp ht with ht | ht
    · exact Or.inr (htoken t (Option.mem_toList.mp ht))
    · exact Or.inl ht

/-- One guarded section keeps the protection, and versions only grow. -/
theorem Sound.step (h : c.Sound) {a : TurnAction} (hs : Step c a c') :
    c'.Sound ∧ c.current.version ≤ c'.current.version := by
  cases a with
  | configure b =>
    obtain rfl := Option.some.inj hs
    refine ⟨h.mono ?_ rfl rfl (fun _ => rfl) (fun _ _ _ => Iff.rfl) (Nat.le_refl _) (fun _ => rfl)
      (fun _ => Or.inl) (fun _ => id) rfl rfl rfl, Nat.le_refl _⟩
    cases hst : c.state with
    | none => exact Or.inr (h.marks.fresh hst)
    | some s => exact Or.inl nofun
  | notify current origin flags now =>
    obtain rfl := Option.some.inj hs
    exact h.notify current origin flags now
  | hold task =>
    obtain ⟨-, hc⟩ := Option.ite_none_left_eq_some.mp hs
    obtain rfl := Option.some.inj hc
    refine ⟨h.mono (Or.inl nofun) rfl rfl (fun _ => ?_) (fun _ _ _ => ?_) (Nat.le_refl _)
      (fun _ => rfl) (fun _ => Or.inl) (fun _ => id) rfl rfl rfl, Nat.le_refl _⟩
    · simp [enter, TurnBlock.tracks]
    · simp [enter]
  | track task token stage =>
    obtain ⟨-, hc⟩ := Option.ite_none_left_eq_some.mp hs
    cases hst : c.state with
    | none =>
      rw [hst] at hc
      obtain rfl := Option.some.inj hc
      exact ⟨h, Nat.le_refl _⟩
    | some s =>
      simp only [hst] at hc
      cases hent : s.enterStage token stage task with
      | error e =>
        rw [hent] at hc
        obtain rfl := Option.some.inj hc
        exact ⟨h, Nat.le_refl _⟩
      | ok s' =>
        rw [hent] at hc
        obtain rfl := Option.some.inj hc
        obtain ⟨-, -, hversion, -⟩ := TurnState.Registered.enterStage_cases hent
        refine ⟨h.track hst hent, Nat.le_of_eq ?_⟩
        rw [current_some hst]
        exact hversion.symm
  | background task origin now =>
    obtain ⟨-, hc⟩ := Option.ite_none_left_eq_some.mp hs
    unfold TurnState.enterBackground at hc
    split at hc
    · rename_i hg
      split at hg
      · cases hg
        obtain rfl := Option.some.inj hc
        exact ⟨h.mono (Or.inl nofun) rfl rfl (fun _ => rfl) (fun _ _ _ => Iff.rfl) (Nat.le_refl _)
          (fun _ => rfl) (fun _ => Or.inl) (fun _ => id) rfl rfl rfl, Nat.le_refl _⟩
      · cases hg
    · rename_i hg
      split at hg
      · cases hg
      · cases hg
        obtain rfl := Option.some.inj hc
        refine ⟨h.mono (Or.inl nofun) rfl rfl (fun _ => ?_) (fun _ _ _ => ?_) (Nat.le_succ _)
          (fun he => absurd he (Nat.succ_ne_self _)) (fun t ht => ?_)
          (fun _ => List.mem_cons_of_mem _) rfl rfl rfl, Nat.le_succ _⟩
        · simp [enter, grant, TurnBlock.tracks]
        · simp [enter, grant]
        · rcases List.mem_cons.mp ht with rfl | ht
          · exact Or.inr (Nat.le_refl _)
          · exact Or.inl ht
  | exit i =>
    cases hi : c.blocks[i]? with
    | none => simp [Step, Conversation.step, hi] at hs
    | some block =>
      have hp := blocks_perm hi
      cases block with
      | track task token stage =>
        simp only [Step, Conversation.step, hi] at hs
        obtain ⟨hsound, hcur⟩ := h.exitStage hi (Option.some.inj hs).symm
        refine ⟨hsound, Nat.le_of_eq ?_⟩
        rw [hcur]
        rfl
      | hold task | background task =>
        simp only [Step, Conversation.step, hi] at hs
        obtain rfl := Option.some.inj hs
        refine ⟨h.mono (Or.inl nofun) rfl rfl (fun t => ?_) (fun t token stage => ?_)
          (Nat.le_refl _) (fun _ => rfl) (fun _ => Or.inl) (fun _ => id) rfl rfl rfl,
          Nat.le_refl _⟩
        · rw [hp.countP_eq]
          exact (List.countP_cons_of_neg (by simp [TurnBlock.tracks])).symm
        · rw [hp.mem_iff]
          simp
  | mark token =>
    obtain ⟨ht, hc⟩ := Option.ite_none_right_eq_some.mp hs
    exact h.mark ht (Option.some.inj hc).symm
  | promote token preserveActive =>
    obtain ⟨ht, hc⟩ := Option.ite_none_right_eq_some.mp hs
    cases hst : c.state with
    | none =>
      rw [hst] at hc
      obtain rfl := Option.some.inj hc
      exact ⟨h, Nat.le_refl _⟩
    | some s =>
      have hcur := current_some hst
      simp only [hst, TurnState.promoteObservation] at hc
      obtain rfl := Option.some.inj hc
      split
      · exact h.advance (Or.inl ⟨hcur.symm, nofun⟩)
      split
      · exact h.advance (Or.inl ⟨hcur.symm, fun t ht => by cases ht; rw [hcur]⟩)
      split
      · exact h.advance (Or.inl ⟨hcur.symm, nofun⟩)
      · exact h.advance (Or.inr (by rw [hcur]; exact ⟨rfl, rfl, rfl, fun t ht => by cases ht; rfl⟩))
  | beginBackground now =>
    simp only [Step, Conversation.step, TurnState.beginBackground] at hs
    obtain rfl := Option.some.inj hs
    split
    · exact h.advance (Or.inl ⟨rfl, nofun⟩)
    · exact h.advance (Or.inr ⟨rfl, rfl, rfl, fun t ht => by cases ht; rfl⟩)
  | finish task =>
    obtain ⟨-, hc⟩ := Option.ite_none_left_eq_some.mp hs
    obtain rfl := Option.some.inj hc
    refine ⟨h.mono ?_ rfl rfl (fun _ => rfl) (fun _ _ _ => Iff.rfl) (Nat.le_refl _) (fun _ => rfl)
      (fun _ => Or.inl) (fun _ => id) rfl rfl rfl, Nat.le_refl _⟩
    cases hst : c.state with
    | none => exact Or.inr (h.marks.fresh hst)
    | some s => exact Or.inl nofun

theorem sound_of_fresh (interruptAutonomous : Bool) :
    ({ interruptAutonomous := interruptAutonomous } : Conversation).Sound :=
  ⟨TurnState.Registered.of_fresh, ⟨by simp, by simp, by simp, by simp, by simp⟩,
    ⟨by simp, by simp, by simp⟩⟩

theorem Sound.run (h : c.Sound) {as : List TurnAction} (hr : Run Step c as c') : c'.Sound :=
  hr.invariant (fun _ _ _ hs hstep => (hs.step hstep).1) h

theorem Sound.version_le (h : c.Sound) {as : List TurnAction} (hr : Run Step c as c') :
    c.current.version ≤ c'.current.version :=
  Run.rel (r := fun c c' => c.current.version ≤ c'.current.version) (fun _ => Nat.le_refl _)
    (fun h h' => Nat.le_trans h h') (fun _ _ _ hs hstep => hs.step hstep) hr h

theorem Sound.notified (h : c.Sound) {current : Option TaskId} {origin : TurnOrigin}
    {flags : NotifyFlags} {now : Int} {task : TaskId}
    (ht : task ∈ (c.current.notifyMessage current c.isDone c.interruptAutonomous origin flags
      now).toCancel) :
    ∃ r, c.current.registrations.lookup task = some r ∧ r.token ∉ c.marked := by
  rcases TurnState.notifyMessage_cases h.registered.keys current c.isDone c.interruptAutonomous
    origin flags now with ⟨hnone, -⟩ | ⟨g, hg, hcancel, -⟩
  · rw [hnone] at ht
    cases ht
  · rw [hcancel] at ht
    obtain ⟨r, hl, hfree, -⟩ := h.toCancel hg ht
    refine ⟨r, hl, fun hm => ?_⟩
    rw [h.marks.effects task r hl hm] at hfree
    cases hfree

/-- Over every schedule: a notification cancels registered tasks only, none whose turn has
started an effect and none twice in one registration; and a version left behind stays behind. -/
theorem started_effect_protected (interruptAutonomous : Bool) {as : List TurnAction}
    (h : Run Step { interruptAutonomous := interruptAutonomous } as c) :
    (∀ task token stage, .track task token stage ∈ c.blocks →
      ∃ r, c.current.registrations.lookup task = some r ∧ r.token = token) ∧
    (∀ current origin flags now, ∀ task ∈ (c.current.notifyMessage current c.isDone
        c.interruptAutonomous origin flags now).toCancel,
      ∃ r, c.current.registrations.lookup task = some r ∧ r.token ∉ c.marked) ∧
    c.cancelled.Nodup ∧
    ∀ bs c', Run Step c bs c' → c.current.version ≤ c'.current.version ∧
      ∀ t, t.version < c.current.version → c'.isCurrent t = false := by
  have hc := (sound_of_fresh interruptAutonomous).run h
  refine ⟨hc.registered.owned, fun _ _ _ _ _ => hc.notified, hc.logged.once, fun bs c' hr => ?_⟩
  have hle := hc.version_le hr
  refine ⟨hle, fun t ht => ?_⟩
  unfold isCurrent
  cases hs : c'.state with
  | none => rfl
  | some s =>
    rw [current_some hs] at hle
    have hne : s.version ≠ t.version := by omega
    simpa [TurnState.isCurrent] using hne

/-- An autonomous turn sends, and the next message leaves its generation running. -/
theorem started_effect_protected_sample :
    ∃ c, Run Step {} [.notify none .autonomousGroup {} 0, .track 1 ⟨1, .autonomousGroup, 0⟩ .generation,
        .mark ⟨1, .autonomousGroup, 0⟩] c ∧
      c.blocks = [.track 1 ⟨1, .autonomousGroup, 0⟩ .generation] ∧
      ∀ task ∈ (c.current.notifyMessage none c.isDone c.interruptAutonomous .userMessage {}
        1).toCancel,
      ∃ r, c.current.registrations.lookup task = some r ∧ r.token ∉ c.marked := by
  have hplay : ((Run.play Conversation.step {} [.notify none .autonomousGroup {} 0,
      .track 1 ⟨1, .autonomousGroup, 0⟩ .generation, .mark ⟨1, .autonomousGroup, 0⟩]).map
        fun c => c.blocks) = some [.track 1 ⟨1, .autonomousGroup, 0⟩ .generation] := by
    decide +kernel
  obtain ⟨c, hc, hblocks⟩ := Option.map_eq_some_iff.mp hplay
  have hrun : Run Step {} _ c := Run.of_play hc
  exact ⟨c, hrun, hblocks, (started_effect_protected true hrun).2.1 _ _ _ _⟩

end Conversation

end Yuki
