import Mathlib.Data.Prod.Lex
import Mathlib.Data.String.Basic
import Mathlib.Logic.Relation
import Yuki.Lib.RoundRobin
import Yuki.Runtime.Schema

/-! The scheduler of durable Work: one call of `dispatch_once` selects Work of scopes that have
nothing in flight, going round the scopes by a cursor. -/

namespace Yuki.WorkScheduler

open RoundRobin Sql

/-- `_MAX_IN_FLIGHT`. -/
def maxInFlight : Nat := 8

/-- What one statement of the selection reads. -/
structure Pass where
  db : Db
  now : Time
  inFlight : List String

/-- How a call ends: with its tasks started, before it has all rows, or with the rows and the
cursor set when the reader fails to close. -/
inductive Exit
  | returned | interrupted | unclosed
deriving DecidableEq

/-- A call as it finds the scheduler, with what its statements see. Tasks only finish while the
call is under way. -/
structure Call where
  accepting : Bool
  inFlight : List String
  queried : Time
  first : Pass
  second : Pass
  remaining : List String
  ended : Exit
  finishedFirst : first.inFlight.Sublist inFlight
  finishedSecond : second.inFlight.Sublist first.inFlight
  finishedLast : remaining.Sublist second.inFlight

/-- `runtime_work.state IN ('queued', 'running')`. -/
def ready (w : WorkRow) : Bool :=
  w.state = .queued || w.state = .running

/-- The Work comes from a plugin, an automation or a turn of its own. -/
def ownSource (w : WorkRow) : Truth :=
  ((jsonExtract w.sourceJson ["owner"]).isIn
      [.text "plugin_invocation", .text "automation", .text "plugin_background"]).or
    ((jsonExtract w.sourceJson ["origin"]).isIn
      [.text "user_message", .text "autonomous_group", .text "self_initiative"])

def recovered (db : Db) (now : Time) (w : WorkRow) : Bool :=
  (db.recovery.get? w.id).all fun r => r.notBefore ≤ now

/-- No activation holds the scope. -/
def scopeFree (pass : Pass) (conversationId : String) : Bool :=
  (pass.db.scopes.get? conversationId).all fun scope =>
    scope.owner.isNone || scope.leaseUntil ≤ pass.now

/-- The conditions on a Work and its scope, in flight or not. -/
def eligible (queried : Time) (pass : Pass) (w : WorkRow) : Bool :=
  ready w && (ownSource w).holds && (pass.db.children.get? w.id).isNone &&
    recovered pass.db queried w && scopeFree pass w.conversationId

/-- `ORDER BY updated, id`. -/
def age (w : WorkRow) : Time ×ₗ String :=
  toLex (w.updated, w.id)

/-- `head`: the oldest eligible Work of a scope. -/
def head (queried : Time) (pass : Pass) (conversationId : String) : Option WorkRow :=
  (pass.db.works.rows.filter fun w =>
    eligible queried pass w && w.conversationId = conversationId).argmin age

/-- `ready_scopes`: the scopes of a range with Work and nothing in flight, each the least above
the last. -/
def readyScopes (pass : Pass) (range : String → Bool) : List String :=
  let scopes := (pass.db.works.rows.filter fun w =>
    ready w && !pass.inFlight.contains w.conversationId && range w.conversationId).map
      (·.conversationId)
  seek scopes scopes.length none

/-- The rows of one statement. -/
def rowsOf (queried : Time) (pass : Pass) (range : String → Bool) (limit : Nat) : List WorkRow :=
  ((readyScopes pass range).filterMap (head queried pass)).take limit

def Call.capacity (call : Call) : Nat :=
  maxInFlight - call.inFlight.length

/-- The rows a call has selected: of the scopes behind the cursor, then of those up to it. -/
def selected (cursor : Option String) (call : Call) : List WorkRow :=
  if call.ended = .interrupted || !call.accepting || call.capacity = 0 then []
  else match cursor with
    | none => rowsOf call.queried call.first (fun _ => true) call.capacity
    | some c =>
      let rows := rowsOf call.queried call.first (fun scope => c < scope) call.capacity
      if rows.length = call.capacity then rows
      else rows ++ rowsOf call.queried call.second (fun scope => scope ≤ c)
        (call.capacity - rows.length)

/-- The Work whose tasks a call starts. -/
def started (cursor : Option String) (call : Call) : List WorkRow :=
  if call.ended = .returned then selected cursor call else []

/-- The scopes a call has selected. -/
def picks (call : Call) (cursor : Option String) : List String :=
  (selected cursor call).map (·.conversationId)

/-- The scopes consecutive calls select; each leaves its cursor to the next. -/
def selections (cursor : Option String) (calls : List Call) : List String :=
  takeTurns (calls.map picks) cursor

/-- The scope has eligible Work and is not in flight for a statement. -/
def readyIn (queried : Time) (s : String) (pass : Pass) : Prop :=
  s ∉ pass.inFlight ∧ ∃ w ∈ pass.db.works.rows, eligible queried pass w = true ∧
    w.conversationId = s

/-- The scope stays eligible and not in flight during a call. -/
def Call.keepsReady (call : Call) (s : String) : Prop :=
  readyIn call.queried s call.first ∧ readyIn call.queried s call.second

/-- The Work is the oldest eligible one of its scope. -/
structure Oldest (queried : Time) (pass : Pass) (w : WorkRow) : Prop where
  stored : w ∈ pass.db.works.rows
  eligible : eligible queried pass w = true
  least : ∀ w' ∈ pass.db.works.rows, WorkScheduler.eligible queried pass w' = true →
    w'.conversationId = w.conversationId → age w ≤ age w'

/-- What one call may select. -/
structure Fair (call : Call) (rows : List WorkRow) : Prop where
  within : rows.length ≤ call.capacity
  distinct : (rows.map (·.conversationId)).Nodup
  idle : ∀ w ∈ rows, w.conversationId ∉ call.remaining
  oldest : ∀ w ∈ rows, ∃ pass ∈ [call.first, call.second],
    w.conversationId ∉ pass.inFlight ∧ Oldest call.queried pass w

/-- The scheduler between two calls. -/
structure Scheduler where
  accepting : Bool
  inFlight : List String
  cursor : Option String

/-- What happens to the scheduler: a call, the end of a task, `close` and `start`. -/
inductive Step : Scheduler → Scheduler → Prop
  | dispatch (s : Scheduler) (call : Call) (accepting : call.accepting = s.accepting)
      (inFlight : call.inFlight = s.inFlight) :
      Step s { s with
        inFlight := call.remaining ++ (started s.cursor call).map (·.conversationId)
        cursor := moved s.cursor (picks call s.cursor) }
  | finish (s : Scheduler) (conversationId : String) :
      Step s { s with inFlight := s.inFlight.erase conversationId }
  | close (s : Scheduler) : Step s { s with accepting := false, inFlight := [] }
  | start (s : Scheduler) : Step s { s with accepting := true }

/-- Within the limit, each scope has one task. -/
structure Bounded (s : Scheduler) : Prop where
  nodup : s.inFlight.Nodup
  length_le : s.inFlight.length ≤ maxInFlight

variable {queried : Time} {pass : Pass} {range : String → Bool} {limit : Nat} {c s : String}
  {w : WorkRow} {call : Call} {cursor : Option String}

/-! One statement. -/

theorem head_eq_some (h : head queried pass c = some w) :
    w.conversationId = c ∧ Oldest queried pass w := by
  have hmem := List.mem_filter.mp (List.argmin_mem h)
  rw [Bool.and_eq_true, decide_eq_true_eq] at hmem
  obtain ⟨hstored, heligible, rfl⟩ := hmem
  refine ⟨rfl, hstored, heligible, fun w' hw' heligible' hscope => ?_⟩
  exact List.le_of_mem_argmin (List.mem_filter.mpr ⟨hw', by simp [heligible', hscope]⟩) h

theorem head_isSome (h : ∃ w ∈ pass.db.works.rows, eligible queried pass w = true ∧
    w.conversationId = c) : (head queried pass c).isSome = true := by
  obtain ⟨w, hw, heligible, hscope⟩ := h
  rw [Option.isSome_iff_ne_none]
  intro hnone
  have hmem : w ∈ pass.db.works.rows.filter fun w =>
      eligible queried pass w && w.conversationId = c :=
    List.mem_filter.mpr ⟨hw, by simp [heligible, hscope]⟩
  rw [List.argmin_eq_none.mp hnone] at hmem
  cases hmem

theorem mem_readyScopes (h : c ∈ readyScopes pass range) :
    c ∉ pass.inFlight ∧ range c = true := by
  obtain ⟨hmem, _⟩ := mem_of_mem_seek h
  obtain ⟨w, hw, rfl⟩ := List.mem_map.mp hmem
  have hkept := (List.mem_filter.mp hw).2
  simp only [Bool.and_eq_true, Bool.not_eq_true', List.contains_eq_mem] at hkept
  exact ⟨by simpa using hkept.1.2, hkept.2⟩

theorem readyScopes_of_readyIn (h : readyIn queried s pass) (hrange : range s = true) :
    s ∈ readyScopes pass range := by
  obtain ⟨hfree, w, hw, heligible, rfl⟩ := h
  have hready : ready w = true := by
    unfold eligible at heligible
    simp only [Bool.and_eq_true] at heligible
    exact heligible.1.1.1.1
  refine mem_seek (List.length_filter_le _ _) (List.mem_map_of_mem (List.mem_filter.mpr
    ⟨hw, ?_⟩)) rfl
  simp [hready, hrange, hfree]

/-- The scopes of the rows, in their order. -/
def scopesOf (queried : Time) (pass : Pass) (range : String → Bool) : List String :=
  (readyScopes pass range).filter fun scope => (head queried pass scope).isSome

theorem map_rowsOf (queried : Time) (pass : Pass) (range : String → Bool) (limit : Nat) :
    (rowsOf queried pass range limit).map (·.conversationId) =
      (scopesOf queried pass range).take limit := by
  have hmap : ∀ scopes : List String,
      (scopes.filterMap (head queried pass)).map (·.conversationId) =
        scopes.filter fun scope => (head queried pass scope).isSome := by
    intro scopes
    induction scopes with
    | nil => rfl
    | cons scope scopes ih =>
      cases h : head queried pass scope with
      | none =>
        rw [List.filterMap_cons_none h, List.filter_cons_of_neg (by simp [h]), ih]
      | some w =>
        rw [List.filterMap_cons_some h, List.filter_cons_of_pos (by simp [h]), List.map_cons, ih,
          (head_eq_some h).1]
  rw [rowsOf, List.map_take, hmap, scopesOf]

theorem pairwise_scopesOf : (scopesOf queried pass range).Pairwise (· < ·) :=
  (pairwise_seek _ _ _).sublist List.filter_sublist

theorem mem_scopesOf (h : c ∈ scopesOf queried pass range) : c ∉ pass.inFlight ∧ range c = true :=
  mem_readyScopes (List.mem_filter.mp h).1

theorem scopesOf_of_readyIn (h : readyIn queried s pass) (hrange : range s = true) :
    s ∈ scopesOf queried pass range :=
  List.mem_filter.mpr ⟨readyScopes_of_readyIn h hrange, head_isSome h.2⟩

theorem mem_rowsOf (h : w ∈ rowsOf queried pass range limit) :
    Oldest queried pass w ∧ w.conversationId ∉ pass.inFlight ∧ range w.conversationId = true := by
  obtain ⟨scope, hscope, hhead⟩ := List.mem_filterMap.mp (List.mem_of_mem_take h)
  obtain ⟨rfl, holdest⟩ := head_eq_some hhead
  exact ⟨holdest, mem_readyScopes hscope⟩

/-! One call. -/

/-- The call gets as far as its rows. -/
def Call.selects (call : Call) : Prop :=
  call.ended ≠ .interrupted ∧ call.accepting = true ∧ call.capacity ≠ 0

theorem selected_of_not_selects (h : ¬ call.selects) : selected cursor call = [] := by
  unfold selected
  rw [if_pos]
  unfold Call.selects at h
  simp only [Bool.or_eq_true, Bool.not_eq_true', decide_eq_true_eq]
  by_cases hended : call.ended = .interrupted
  · exact Or.inl (Or.inl hended)
  · cases haccepting : call.accepting with
    | false => exact Or.inl (Or.inr rfl)
    | true =>
      refine Or.inr ?_
      by_contra hcapacity
      exact h ⟨hended, haccepting, hcapacity⟩

theorem selected_of_selects (h : call.selects) :
    selected cursor call = match cursor with
      | none => rowsOf call.queried call.first (fun _ => true) call.capacity
      | some c =>
        let rows := rowsOf call.queried call.first (fun scope => c < scope) call.capacity
        if rows.length = call.capacity then rows
        else rows ++ rowsOf call.queried call.second (fun scope => scope ≤ c)
          (call.capacity - rows.length) := by
  obtain ⟨hended, haccepting, hcapacity⟩ := h
  unfold selected
  rw [if_neg (by simp [hended, haccepting, hcapacity])]

theorem rowsOf_zero : rowsOf queried pass range 0 = [] :=
  List.take_zero

/-- A range that uses up the capacity leaves none to the other. -/
theorem selected_some (h : call.selects) :
    selected (some c) call =
      let rows := rowsOf call.queried call.first (fun scope => c < scope) call.capacity
      rows ++ rowsOf call.queried call.second (fun scope => scope ≤ c)
        (call.capacity - rows.length) := by
  rw [selected_of_selects h]
  dsimp only
  split
  · rename_i hfull
    rw [hfull, Nat.sub_self, rowsOf_zero, List.append_nil]
  · rfl

theorem picks_none (h : call.selects) :
    picks call none = (scopesOf call.queried call.first fun _ => true).take call.capacity := by
  rw [picks, selected_of_selects h, map_rowsOf]

theorem picks_some (h : call.selects) :
    picks call (some c) =
      let above := (scopesOf call.queried call.first fun scope => c < scope).take call.capacity
      above ++ (scopesOf call.queried call.second fun scope => scope ≤ c).take
        (call.capacity - above.length) := by
  rw [picks, selected_some h]
  dsimp only
  rw [List.map_append, map_rowsOf, map_rowsOf, ← map_rowsOf, List.length_map]

theorem orderly_picks (h : call.keepsReady s) (cursor : Option String) :
    Orderly s cursor (picks call cursor) := by
  by_cases hselects : call.selects
  · cases cursor with
    | none =>
      have hs : s ∈ scopesOf call.queried call.first fun _ => true := scopesOf_of_readyIn h.1 rfl
      have horderly : Orderly s none (picks call none ++ List.take _ []) :=
        picks_none hselects ▸ orderly_above pairwise_scopesOf (fun _ _ => rfl) hs
      rwa [List.take_nil, List.append_nil] at horderly
    | some c =>
      rw [picks_some hselects]
      rcases lt_or_ge c s with hlt | hle
      · refine orderly_above pairwise_scopesOf (fun x hx => ?_)
          (scopesOf_of_readyIn h.1 (decide_eq_true hlt))
        exact (mem_scopesOf hx).2
      · refine orderly_below pairwise_scopesOf pairwise_scopesOf (fun x hx => ?_) (fun x hx => ?_)
          (scopesOf_of_readyIn h.2 (decide_eq_true hle))
        · exact of_decide_eq_true (mem_scopesOf hx).2
        · exact of_decide_eq_true (mem_scopesOf hx).2
  · rw [picks, selected_of_not_selects hselects]
    exact orderly_nil

theorem picks_nodup (call : Call) (cursor : Option String) : (picks call cursor).Nodup := by
  by_cases hselects : call.selects
  · cases cursor with
    | none =>
      rw [picks_none hselects]
      exact (pairwise_scopesOf.imp ne_of_lt).sublist (List.take_sublist _ _)
    | some c =>
      rw [picks_some hselects]
      refine List.nodup_append'.mpr
        ⟨(pairwise_scopesOf.imp ne_of_lt).sublist (List.take_sublist _ _),
          (pairwise_scopesOf.imp ne_of_lt).sublist (List.take_sublist _ _), fun x hx hx' => ?_⟩
      have habove := of_decide_eq_true (mem_scopesOf (List.mem_of_mem_take hx)).2
      have hbelow := of_decide_eq_true (mem_scopesOf (List.mem_of_mem_take hx')).2
      exact absurd habove (not_lt_of_ge hbelow)
  · rw [picks, selected_of_not_selects hselects]
    exact List.nodup_nil

theorem length_selected (cursor : Option String) (call : Call) :
    (selected cursor call).length ≤ call.capacity := by
  by_cases hselects : call.selects
  · cases cursor with
    | none =>
      rw [selected_of_selects hselects]
      exact List.length_take_le _ _
    | some c =>
      rw [selected_some hselects]
      have hfirst : (rowsOf call.queried call.first (fun scope => c < scope)
          call.capacity).length ≤ call.capacity := List.length_take_le _ _
      have hsecond := List.length_take_le
        (call.capacity - (rowsOf call.queried call.first (fun scope => c < scope)
          call.capacity).length)
        ((readyScopes call.second fun scope => scope ≤ c).filterMap (head call.queried call.second))
      dsimp only
      rw [List.length_append]
      unfold rowsOf at hfirst hsecond ⊢
      omega
  · rw [selected_of_not_selects hselects]
    exact Nat.zero_le _

/-- A selected row comes from one of the two statements. -/
theorem mem_selected (h : w ∈ selected cursor call) : ∃ pass ∈ [call.first, call.second],
    w.conversationId ∉ pass.inFlight ∧ Oldest call.queried pass w := by
  by_cases hselects : call.selects
  · cases cursor with
    | none =>
      rw [selected_of_selects hselects] at h
      obtain ⟨holdest, hfree, _⟩ := mem_rowsOf h
      exact ⟨call.first, by simp, hfree, holdest⟩
    | some c =>
      rw [selected_some hselects] at h
      rcases List.mem_append.mp h with h | h
      · obtain ⟨holdest, hfree, _⟩ := mem_rowsOf h
        exact ⟨call.first, by simp, hfree, holdest⟩
      · obtain ⟨holdest, hfree, _⟩ := mem_rowsOf h
        exact ⟨call.second, by simp, hfree, holdest⟩
  · rw [selected_of_not_selects hselects] at h
    cases h

/-- Tasks only finish, so a scope idle for a statement is idle at the end. -/
theorem not_mem_remaining (hpass : pass ∈ [call.first, call.second]) (h : c ∉ pass.inFlight) :
    c ∉ call.remaining := by
  intro hmem
  have hsecond := call.finishedLast.subset hmem
  rcases List.mem_pair.mp hpass with rfl | rfl
  · exact h (call.finishedSecond.subset hsecond)
  · exact h hsecond

theorem fair_selected (cursor : Option String) (call : Call) :
    Fair call (selected cursor call) := by
  refine ⟨length_selected cursor call, picks_nodup call cursor, fun w hw => ?_,
    fun w hw => mem_selected hw⟩
  obtain ⟨pass, hpass, hfree, _⟩ := mem_selected hw
  exact not_mem_remaining hpass hfree

/-! Calls one after the other. -/

/-- Each call is fair to the Work of a scope, and the calls to a scope that waits: no other is
selected twice before it. -/
theorem selects_fairly :
    (∀ (cursor : Option String) (call : Call), Fair call (selected cursor call)) ∧
      ∀ (cursor : Option String) (calls : List Call) (s : String),
        (∀ call ∈ calls, call.keepsReady s) →
          ((selections cursor calls).takeWhile (· ≠ s)).Nodup := by
  refine ⟨fair_selected, fun cursor calls s hready => ?_⟩
  refine (nodup_takeTurns (fun turn hturn cursor => ?_) cursor).2
  obtain ⟨call, hcall, rfl⟩ := List.mem_map.mp hturn
  exact orderly_picks (hready call hcall) cursor

/-- A queued reply to a message in a scope. -/
def waitingReply (id conversationId : String) (updated : Time) : WorkRow :=
  { id := id, parentWorkId := none, conversationId := conversationId, generation := 1,
    sourceKey := "event:1", sourceJson := .obj [("origin", .str "user_message")], goal := "reply",
    state := .queued, created := 0, updated := updated }

/-- Two scopes with a reply each, and seven others in flight. -/
def crowded : Pass where
  db := { works := ⟨[waitingReply "w1" "c1" 2, waitingReply "w2" "c2" 1], by decide⟩ }
  now := 3
  inFlight := ["a", "b", "d", "e", "f", "g", "h"]

/-- A call with room for one. -/
def crowdedCall : Call where
  accepting := true
  inFlight := crowded.inFlight
  queried := 3
  first := crowded
  second := crowded
  remaining := crowded.inFlight
  ended := .returned
  finishedFirst := .refl _
  finishedSecond := .refl _
  finishedLast := .refl _

/-- The first call starts the reply of one scope and the second that of the other. -/
theorem selects_fairly_crowded :
    (∀ call ∈ [crowdedCall, crowdedCall], call.keepsReady "c2") ∧
      selections none [crowdedCall, crowdedCall] = ["c1", "c2"] ∧
      ((selections none [crowdedCall, crowdedCall]).takeWhile (· ≠ "c2")).Nodup := by
  have hready : readyIn 3 "c2" crowded :=
    ⟨by decide, waitingReply "w2" "c2" 1, by simp [crowded], by decide, rfl⟩
  have hcalls : ∀ call ∈ [crowdedCall, crowdedCall], call.keepsReady "c2" := by
    intro call hcall
    rcases List.mem_pair.mp hcall with rfl | rfl <;> exact ⟨hready, hready⟩
  exact ⟨hcalls, by decide +kernel, selects_fairly.2 none _ "c2" hcalls⟩

/-! The scheduler. -/

theorem bounded_step {s s' : Scheduler} (h : Bounded s) (hstep : Step s s') : Bounded s' := by
  cases hstep with
  | dispatch call haccepting hinFlight =>
    have hfair := fair_selected s.cursor call
    have hleft : call.remaining.Sublist s.inFlight :=
      hinFlight ▸ call.finishedLast.trans (call.finishedSecond.trans call.finishedFirst)
    have hstarted : (started s.cursor call).Sublist (selected s.cursor call) := by
      unfold started
      split
      · exact List.Sublist.refl _
      · exact List.nil_sublist _
    refine ⟨List.nodup_append'.mpr ⟨h.nodup.sublist hleft,
      hfair.distinct.sublist (hstarted.map _), fun c hc hc' => ?_⟩, ?_⟩
    · obtain ⟨w, hw, rfl⟩ := List.mem_map.mp hc'
      exact hfair.idle w (hstarted.subset hw) hc
    · have hremaining := hleft.length_le
      have hadded := hstarted.length_le.trans hfair.within
      have hroom := h.length_le
      rw [Call.capacity, hinFlight] at hadded
      rw [List.length_append, List.length_map]
      omega
  | finish conversationId =>
    exact ⟨h.nodup.erase conversationId, List.length_erase_le.trans h.length_le⟩
  | close => exact ⟨List.nodup_nil, Nat.zero_le _⟩
  | start => exact ⟨h.nodup, h.length_le⟩

/-- In every run each scope has one task at most and all together are within the limit. -/
theorem bounded_run {s s' : Scheduler} (h : Bounded s) (hrun : Relation.ReflTransGen Step s s') :
    Bounded s' := by
  induction hrun with
  | refl => exact h
  | tail _ hstep ih => exact bounded_step ih hstep

end Yuki.WorkScheduler
