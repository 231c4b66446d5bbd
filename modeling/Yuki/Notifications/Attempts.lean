import Mathlib.Data.List.Pairwise
import Yuki.Lib.Transition
import Yuki.Notifications.Outbox

/-! The attempts on an outbox row: what one operation can do to a row, and what
follows for every interleaving. -/

namespace Yuki.Outbox

/-- Everything one operation can do to a row that exists. -/
inductive RowChange (e : Event) (row row' : OutboxRow) : Prop
  | keep (status : row'.status = row.status) (attempts : row'.attempts = row.attempts)
      (eventId : row'.eventId = row.eventId) (error : row'.status = .failed →
        row'.lastErrorCategory = row.lastErrorCategory)
  | claimed (event : ∃ ids now lease refused, e = .claimOutbox ids now lease refused)
      (before : row.status = .pending ∨ row.status = .processing ∧ preparedLocalOutbox row = true)
      (attempts : row'.attempts = row.attempts + 1) (eventId : row'.eventId = row.eventId)
      (status : row'.status = .processing ∨ row'.status = .failed)
  | expired (event : ∃ ids now lease refused, e = .claimOutbox ids now lease refused ∧
        leaseExpired ids now row = true)
      (attempts : row'.attempts = row.attempts) (eventId : row'.eventId = row.eventId)
      (status : row'.status = if row.eventId.isSome then .sent
        else if preparedLocalOutbox row then .pending else .uncertain)
  | ended (before : row.status = .pending ∨ row.status = .processing)
      (attempts : row'.attempts = row.attempts)
      (status : row'.status = .failed ∨ row'.status = .cancelled ∨ row'.status = .uncertain)
      (eventId : row'.eventId = row.eventId)
  | sent (before : row.status = .processing ∨ row.status = .uncertain)
      (attempts : row'.attempts = row.attempts) (status : row'.status = .sent)
  | late (before : row.status = .uncertain) (attempts : row'.attempts = row.attempts)
      (status : row'.status = .uncertain) (eventId : row'.eventId = row.eventId)
  | recovered (before : row.status = .processing) (isLocal : preparedLocalOutbox row = true)
      (attempts : row'.attempts = row.attempts) (status : row'.status = .pending)
      (eventId : row'.eventId = row.eventId)
  | retried (attempt : Nat) (error : String) (now : Int)
      (event : e = .retryOutbox row.id (some attempt) error true now)
      (safe : error ∈ safeErrors) (owner : ownsProcessingAttempt row attempt = true)
      (attempts : row'.attempts = row.attempts)
      (status : row'.status = .pending ∨ row'.status = .failed)
      (eventId : row'.eventId = row.eventId)
  | manual (now : Int) (event : e = .retryOutbox row.id none "manual_retry" true now)
      (before : row.status = .failed)
      (safe : ∃ error ∈ safeErrors, row.lastErrorCategory = some error)
      (attempts : row'.attempts = row.attempts) (status : row'.status = .pending)
      (eventId : row'.eventId = row.eventId)

theorem RowChange.refl (e : Event) (row : OutboxRow) : RowChange e row row :=
  .keep rfl rfl rfl fun _ => rfl

/-- The rows of a store and the changes an operation makes to them. -/
def Changes (e : Event) (s s' : Store) : Prop :=
  ∀ id row, s.outbox.get? id = some row → ∃ row', s'.outbox.get? id = some row' ∧ RowChange e row row'

theorem changes_refl (e : Event) (s : Store) : Changes e s s :=
  fun _ row h => ⟨row, h, .refl e row⟩

theorem changes_update {e : Event} {s : Store} {p : OutboxRow → Bool} {f : OutboxRow → OutboxRow}
    {hf : ∀ row, (f row).id = row.id}
    (h : ∀ row ∈ s.outbox.rows, p row = true → RowChange e row (f row)) :
    Changes e s { s with outbox := s.outbox.update p f hf } := by
  intro id row hrow
  refine ⟨if p row then f row else row, by simp [Table.get?_update, hrow], ?_⟩
  cases hp : p row with
  | true => exact h row (Table.get?_mem hrow) hp
  | false => exact .refl e row

theorem changes_updateRow {e : Event} {s : Store} {id : Nat} {p : OutboxRow → Bool}
    {f : OutboxRow → OutboxRow} {hf : ∀ row, (f row).id = row.id}
    (h : ∀ row ∈ s.outbox.rows, row.id = id → p row = true → RowChange e row (f row)) :
    Changes e s (s.updateRow id p f hf) := by
  refine changes_update fun row hrow hp => ?_
  simp only [Bool.and_eq_true, decide_eq_true_eq] at hp
  exact h row hrow hp.1 hp.2

/-- Rows are only added under new ids. -/
structure Bounded (s : Store) : Prop where
  rows : ∀ row ∈ s.outbox.rows, row.id < s.nextId
  events : ∀ event ∈ s.events, event.id < s.nextEventId

theorem get?_addRow {s : Store} (h : ∀ row ∈ s.outbox.rows, row.id < s.nextId) (row : OutboxRow)
    (id : Nat) : (s.addRow row).outbox.get? id =
      if s.nextId = id then some { row with id := s.nextId } else s.outbox.get? id := by
  have hnone : s.outbox.get? s.nextId = none := by
    rw [Table.get?_eq_none]
    intro hm
    obtain ⟨r, hr, he⟩ := List.mem_map.1 hm
    exact Nat.lt_irrefl _ (he ▸ h r hr)
  show (s.outbox.insert { row with id := s.nextId }).get? id = _
  rw [Table.get?_insert]
  by_cases hid : s.nextId = id
  · subst hid
    simp [hnone]
  · simp [hid]

theorem rows_addRow {s : Store} (h : ∀ row ∈ s.outbox.rows, row.id < s.nextId) (row : OutboxRow) :
    ∀ r ∈ (s.addRow row).outbox.rows, r.id < (s.addRow row).nextId := by
  intro r hr
  obtain hr | ⟨rfl, -⟩ := Table.mem_insert.1 hr
  · exact Nat.lt_succ_of_lt (h r hr)
  · exact Nat.lt_succ_self s.nextId

/-- Adding rows leaves the old ones, and each new one is as it was given. -/
theorem get?_addRows {s : Store} (h : ∀ row ∈ s.outbox.rows, row.id < s.nextId)
    (rows : List OutboxRow) :
    (∀ row ∈ (rows.foldl Store.addRow s).outbox.rows,
      row.id < (rows.foldl Store.addRow s).nextId) ∧
    s.nextId ≤ (rows.foldl Store.addRow s).nextId ∧
    (∀ id, id < s.nextId →
      (rows.foldl Store.addRow s).outbox.get? id = s.outbox.get? id) ∧
    (∀ row ∈ (rows.foldl Store.addRow s).outbox.rows,
      row ∈ s.outbox.rows ∨ s.nextId ≤ row.id ∧ ∃ r ∈ rows, row = { r with id := row.id }) ∧
    (rows.foldl Store.addRow s).events = s.events ∧
    (rows.foldl Store.addRow s).nextEventId = s.nextEventId := by
  induction rows generalizing s with
  | nil => exact ⟨h, le_rfl, fun _ _ => rfl, fun row hr => .inl hr, rfl, rfl⟩
  | cons r rows ih =>
    obtain ⟨h1, h2, h3, h4, h5, h6⟩ := ih (rows_addRow h r)
    have hnext : (s.addRow r).nextId = s.nextId + 1 := rfl
    refine ⟨h1, by rw [hnext] at h2; exact Nat.le_of_succ_le h2, ?_, ?_, h5, h6⟩
    · intro id hid
      rw [List.foldl_cons, h3 id (Nat.lt_succ_of_lt hid), get?_addRow h, if_neg (by omega)]
    · intro row hrow
      obtain hr | ⟨hle, r', hr', he⟩ := h4 row hrow
      · obtain hr | ⟨rfl, -⟩ := Table.mem_insert.1 hr
        · exact .inl hr
        · exact .inr ⟨le_rfl, r, by simp, rfl⟩
      · exact .inr ⟨Nat.le_of_succ_le hle, r', by simp [hr'], he⟩

theorem changes_addRows {e : Event} {s : Store} (h : ∀ row ∈ s.outbox.rows, row.id < s.nextId)
    (rows : List OutboxRow) : Changes e s (rows.foldl Store.addRow s) := by
  intro id row hrow
  have hlt : id < s.nextId := Table.get?_key hrow ▸ h row (Table.get?_mem hrow)
  exact ⟨row, by rw [(get?_addRows h rows).2.2.1 id hlt, hrow], .refl e row⟩

/-! One operation after another. -/

/-- A publication adds its event and its parts, if its key and their identities are free. -/
theorem publish_cases (s : Store) (p : Publication) (now : Int) (permitted created : Bool) :
    publish s p now permitted created = s ∨
      s.existing p.key = none ∧ s.partsFree (p.parts s.nextEventId now) = true ∧
        publish s p now permitted created =
          (p.parts s.nextEventId now).foldl Store.addRow { s with
            events := s.events ++ [{ id := s.nextEventId, key := p.key }]
            nextEventId := s.nextEventId + 1 } := by
  unfold publish
  split
  · exact .inl rfl
  · next hnew =>
    simp only [Bool.or_eq_true, Bool.not_eq_true', not_or, Bool.not_eq_true] at hnew
    dsimp only
    split
    · next hfree =>
      exact .inr ⟨Option.isNone_iff_eq_none.1 (Option.isSome_eq_false_iff.1 hnew.1.2), hfree, rfl⟩
    · exact .inl rfl

/-- The layout of a waiting row writes it and adds the other parts, if they are free. -/
theorem prepareOutbox_cases (s : Store) (item : Item) (parts : List Json) (readable : Bool) :
    prepareOutbox s item parts readable = s ∨
      ∃ row first rest, s.outbox.get? item.id = some row ∧ row.status = .pending ∧
        s.partsFree (childRows row rest) = true ∧
        prepareOutbox s item parts readable = (childRows row rest).foldl Store.addRow
          (s.updateRow item.id (fun _ => true) fun row' => layoutRow row row' first) := by
  unfold prepareOutbox
  split
  · exact .inl rfl
  · next row hrow =>
    split
    · exact .inl rfl
    · next hopen =>
      split
      · exact .inl rfl
      · split
        · exact .inl rfl
        · next first rest =>
          split
          · next hfree =>
            exact .inr ⟨row, first, rest, hrow, by_contra fun hne => hopen (.inl hne), hfree, rfl⟩
          · exact .inl rfl

theorem changes_publish {e : Event} {s : Store} (h : Bounded s) (p : Publication) (now : Int)
    (permitted created : Bool) : Changes e s (publish s p now permitted created) := by
  obtain heq | ⟨-, -, heq⟩ := publish_cases s p now permitted created
  · rw [heq]
    exact changes_refl e s
  · rw [heq]
    intro id row hrow
    exact changes_addRows (s := { s with
      events := s.events ++ [{ id := s.nextEventId, key := p.key }]
      nextEventId := s.nextEventId + 1 }) h.rows _ id row hrow

theorem changes_prepareOutbox {e : Event} {s : Store} (h : Bounded s) (item : Item)
    (parts : List Json) (readable : Bool) : Changes e s (prepareOutbox s item parts readable) := by
  obtain heq | ⟨row, first, rest, -, -, -, heq⟩ := prepareOutbox_cases s item parts readable
  · rw [heq]
    exact changes_refl e s
  · rw [heq]
    intro id r hr
    have hrows : ∀ r ∈ (s.updateRow item.id (fun _ => true) fun row' =>
        layoutRow row row' first).outbox.rows, r.id < s.nextId := by
      intro r hr
      obtain ⟨r0, hr0, rfl⟩ := List.mem_map.1 hr
      have hlt := h.rows r0 hr0
      split <;> exact hlt
    have hlt : id < s.nextId := Table.get?_key hr ▸ h.rows r (Table.get?_mem hr)
    have hup : Changes e s (s.updateRow item.id (fun _ => true) fun row' =>
        layoutRow row row' first) :=
      changes_updateRow fun _ _ _ _ => .keep rfl rfl rfl fun _ => rfl
    obtain ⟨r', hr', hc⟩ := hup id r hr
    refine ⟨r', ?_, hc⟩
    rw [← hr']
    exact (get?_addRows (s := s.updateRow item.id (fun _ => true) fun row' =>
      layoutRow row row' first) hrows (childRows row rest)).2.2.1 id hlt

theorem owns_iff {row : OutboxRow} {attempt : Nat} :
    ownsProcessingAttempt row attempt = true ↔ row.status = .processing ∧ row.attempts = attempt := by
  simp [ownsProcessingAttempt]

theorem changes_retryOutbox {s : Store} (id : Nat) (attempt : Option Nat) (error : String)
    (readable : Bool) (now : Int) :
    Changes (.retryOutbox id attempt error readable now) s
      (retryOutbox s id attempt error readable now) := by
  unfold retryOutbox
  split
  · next hread =>
    obtain rfl : readable = true := hread
    refine changes_updateRow fun row _ hid hg => ?_
    subst hid
    cases attempt with
    | some a =>
      simp only [retryGuard, Option.all_some, Bool.and_eq_true, decide_eq_true_eq] at hg
      refine .retried a error now rfl hg.2 hg.1.1 rfl ?_ rfl
      dsimp only
      split
      · exact .inr rfl
      · exact .inl rfl
    | none =>
      simp only [retryGuard, Option.all_none, Bool.and_eq_true, decide_eq_true_eq, Bool.true_and]
        at hg
      obtain ⟨-, ⟨⟨rfl, hst⟩, herr⟩, hmax⟩ := hg
      obtain ⟨c, hc, hmem⟩ := (Option.any_eq_true _ _).1 herr
      refine .manual now rfl hst ⟨c, by simpa using hmem, hc⟩ rfl ?_ rfl
      dsimp only
      rw [if_neg (Nat.not_le.2 hmax)]
  · exact changes_refl _ s

theorem changes_finishOutbox {e : Event} {s : Store} (id attempt : Nat) (ending : Ending)
    (platformMessageId errorCategory : Option String) (now : Int) :
    Changes e s (finishOutbox s id attempt ending platformMessageId errorCategory now) := by
  refine changes_updateRow fun row _ _ hg => ?_
  have hbefore : row.status = .processing ∨ row.status = .uncertain ∧
      (ending.status = .sent ∨ ending.status = .uncertain) := by
    simp only [finishGuard, Bool.or_eq_true, Bool.and_eq_true, decide_eq_true_eq] at hg
    obtain hg | hg := hg
    · exact .inl (owns_iff.1 hg).1
    · exact .inr ⟨hg.1.1.2, hg.1.2⟩
  cases ending with
  | sent eventId =>
    refine .sent ?_ rfl rfl
    exact hbefore.imp_right And.left
  | failed =>
    obtain hb | ⟨-, hb⟩ := hbefore
    · exact .ended (.inr hb) rfl (.inl rfl) rfl
    · simp [Ending.status] at hb
  | uncertain =>
    obtain hb | ⟨hb, -⟩ := hbefore
    · exact .ended (.inr hb) rfl (.inr (.inr rfl)) rfl
    · exact .late hb rfl rfl rfl
  | cancelled =>
    obtain hb | ⟨-, hb⟩ := hbefore
    · exact .ended (.inr hb) rfl (.inr (.inl rfl)) rfl
    · simp [Ending.status] at hb

theorem claimCandidate_some {s : Store} {ids : List Nat} {now : Int} {row : OutboxRow}
    (h : claimCandidate s ids now = some row) : row ∈ s.outbox.rows ∧ row.id ∈ ids ∧
      row.nextAttemptAt ≤ now ∧ row.status = .pending := by
  have hm := (List.mem_insertionSort _).1 (List.mem_of_mem_head? h)
  simp only [List.mem_filter, Bool.and_eq_true, decide_eq_true_eq] at hm
  exact ⟨hm.1, hm.2.1.1, hm.2.1.2, hm.2.2⟩

/-- What the first part of a claim makes of a row. -/
theorem get?_expireOutbox (s : Store) (ids : List Nat) (now : Int) (id : Nat) :
    (expireOutbox s ids now).outbox.get? id =
      (s.outbox.get? id).map fun row => if leaseExpired ids now row then expireRow now row else row := by
  unfold expireOutbox
  exact Table.get?_update s.outbox (leaseExpired ids now) (expireRow now) (fun _ => rfl) id

theorem leaseExpired_processing {ids : List Nat} {now : Int} {row : OutboxRow}
    (h : leaseExpired ids now row = true) : row.status = .processing := by
  simp only [leaseExpired, Bool.and_eq_true, decide_eq_true_eq] at h
  exact h.1.2

/-- A claim leaves a row alone, expires it, or hands out one more attempt on it. -/
theorem claimOutbox_get? {s : Store} (ids : List Nat) (now : Int) (lease : Nat)
    (refused : Option String) {id : Nat} {row : OutboxRow} (hrow : s.outbox.get? id = some row) :
    ∃ row', (claimOutbox s ids now lease refused).1.outbox.get? id = some row' ∧
      (row' = (if leaseExpired ids now row then expireRow now row else row) ∨
      ((if leaseExpired ids now row then expireRow now row else row).status = .pending ∧
        row'.attempts = row.attempts + 1 ∧ row'.eventId = row.eventId ∧
        (row'.status = .processing ∧ (claimOutbox s ids now lease refused).2 = some row' ∨
          row'.status = .failed))) := by
  have hmid := get?_expireOutbox s ids now id
  rw [hrow, Option.map_some] at hmid
  have hatt : (if leaseExpired ids now row then expireRow now row else row).attempts =
      row.attempts := by split <;> rfl
  have hev : (if leaseExpired ids now row then expireRow now row else row).eventId =
      row.eventId := by split <;> rfl
  revert hmid hatt hev
  generalize (if leaseExpired ids now row then expireRow now row else row) = mid
  intro hmid hatt hev
  cases hc : claimCandidate (expireOutbox s ids now) ids now with
  | none => exact ⟨mid, by simp [claimOutbox, hc, hmid], .inl rfl⟩
  | some c =>
    obtain ⟨hcm, -, -, hcs⟩ := claimCandidate_some hc
    have hget : ∀ (f : OutboxRow → OutboxRow) (hf : ∀ row, (f row).id = row.id),
        ((expireOutbox s ids now).updateRow c.id (fun _ => true) f hf).outbox.get? id =
          some (if mid.id = c.id then f mid else mid) := by
      intro f hf
      simp [Store.updateRow, Table.get?_update, hmid]
    by_cases hid : mid.id = c.id
    · have hmc : mid = c := List.inj_on_of_nodup_map (expireOutbox s ids now).outbox.nodup
        (Table.get?_mem hmid) hcm hid
      subst hmc
      cases refused with
      | some category =>
        refine ⟨refusedRow category now mid, ?_, .inr ⟨hcs, congrArg (· + 1) hatt, hev, .inr rfl⟩⟩
        simp only [claimOutbox, hc]
        exact (hget (refusedRow category now) fun _ => rfl).trans (congrArg some (if_pos rfl))
      | none =>
        refine ⟨takenRow now lease mid, ?_,
          .inr ⟨hcs, congrArg (· + 1) hatt, hev, .inl ⟨rfl, by simp [claimOutbox, hc]⟩⟩⟩
        simp only [claimOutbox, hc]
        exact (hget (takenRow now lease) fun _ => rfl).trans (congrArg some (if_pos rfl))
    · refine ⟨mid, ?_, .inl rfl⟩
      cases refused with
      | some category =>
        simp only [claimOutbox, hc]
        exact (hget (refusedRow category now) fun _ => rfl).trans (congrArg some (if_neg hid))
      | none =>
        simp only [claimOutbox, hc]
        exact (hget (takenRow now lease) fun _ => rfl).trans (congrArg some (if_neg hid))

theorem changes_claimOutbox (s : Store) (ids : List Nat) (now : Int) (lease : Nat)
    (refused : Option String) :
    Changes (.claimOutbox ids now lease refused) s (claimOutbox s ids now lease refused).1 := by
  intro id row hrow
  obtain ⟨row', hrow', hc⟩ := claimOutbox_get? ids now lease refused hrow
  refine ⟨row', hrow', ?_⟩
  cases hexp : leaseExpired ids now row with
  | false =>
    simp only [hexp, Bool.false_eq_true, if_false] at hc
    obtain rfl | ⟨hst, hatt, hev, hs⟩ := hc
    · exact .refl _ _
    · exact .claimed ⟨ids, now, lease, refused, rfl⟩ (.inl hst) hatt hev (hs.imp_left And.left)
  | true =>
    simp only [hexp, if_true] at hc
    obtain rfl | ⟨hst, hatt, hev, hs⟩ := hc
    · exact .expired ⟨ids, now, lease, refused, rfl, hexp⟩ rfl rfl rfl
    · refine .claimed ⟨ids, now, lease, refused, rfl⟩ (.inr ⟨leaseExpired_processing hexp, ?_⟩)
        hatt hev (hs.imp_left And.left)
      -- only an expired row of the local ledger waits again
      by_contra hl
      have hl' : preparedLocalOutbox row = false := by simpa using hl
      cases he : row.eventId <;> simp [expireRow, hl', he] at hst

theorem changes_settleLocalOutbox {e : Event} (s : Store) (id attempt : Nat) (now : Int)
    (committed : Bool) (eventId : Nat) :
    Changes e s (settleLocalOutbox s id attempt now committed eventId).1 := by
  unfold settleLocalOutbox
  split
  · refine changes_update fun row _ hg => ?_
    simp only [settleGuard, Bool.and_eq_true, decide_eq_true_eq] at hg
    exact .sent (.inl hg.1.1.2) rfl rfl
  · exact changes_refl e s

theorem changes_recoverLocalOutbox {e : Event} (s : Store) (id attempt : Nat) (now : Int) :
    Changes e s (recoverLocalOutbox s id attempt now) := by
  refine changes_updateRow fun row _ _ hg => ?_
  simp only [Bool.and_eq_true] at hg
  exact .recovered (owns_iff.1 hg.1.2).1 hg.2 rfl rfl rfl

theorem changes_requireAgentReplyReady {e : Event} (s : Store) (id attempt : Nat) (now : Int)
    (category : Option String) : Changes e s (requireAgentReplyReady s id attempt now category) := by
  refine changes_updateRow fun row _ _ hg => ?_
  cases category with
  | none => exact .keep rfl rfl rfl fun _ => rfl
  | some c => exact .ended (.inr (owns_iff.1 hg).1) rfl (.inr (.inl rfl)) rfl

theorem changes_revokeTarget {e : Event} (s : Store) (g : RevokedGrant) (now : Int) :
    Changes e s (revokeTarget s g now) := by
  refine changes_update fun row _ hg => ?_
  simp only [RevokedGrant.matches, Bool.and_eq_true, Bool.or_eq_true, decide_eq_true_eq] at hg
  exact .ended hg.2 rfl (.inr (.inl rfl)) rfl

theorem changes_step {w w' : World} {e : Event} (hb : Bounded w.store) (hs : w.step e = some w') :
    Changes e w.store w'.store := by
  cases e with
  | publish p now permitted created =>
    obtain rfl := Option.some.inj hs
    exact changes_publish hb p now permitted created
  | prepareOutbox item parts readable =>
    obtain rfl := Option.some.inj hs
    exact changes_prepareOutbox hb item parts readable
  | failUnclaimedOutbox id category now =>
    obtain rfl := Option.some.inj hs
    refine changes_updateRow fun row _ _ hg => ?_
    exact .ended (.inl (by simpa using hg)) rfl (.inl rfl) rfl
  | discoverOutbox now =>
    obtain rfl := Option.some.inj hs
    exact changes_refl _ _
  | claimOutbox ids now lease refused =>
    obtain ⟨-, hs⟩ := Option.ite_none_right_eq_some.1 hs
    obtain rfl := Option.some.inj hs
    exact changes_claimOutbox w.store ids now lease refused
  | requireOutboxReady id attempt now readable =>
    obtain rfl := Option.some.inj hs
    unfold requireOutboxReady
    dsimp only
    split
    · exact changes_updateRow fun row _ _ _ => .keep rfl rfl rfl fun _ => rfl
    · exact changes_refl _ _
  | requireAgentReplyReady id attempt now category =>
    obtain rfl := Option.some.inj hs
    exact changes_requireAgentReplyReady w.store id attempt now category
  | settleLocalOutbox id attempt now committed eventId =>
    obtain rfl := Option.some.inj hs
    exact changes_settleLocalOutbox w.store id attempt now committed eventId
  | recoverLocalOutbox id attempt now =>
    obtain rfl := Option.some.inj hs
    exact changes_recoverLocalOutbox w.store id attempt now
  | finishOutbox id attempt ending message error now =>
    obtain rfl := Option.some.inj hs
    exact changes_finishOutbox id attempt ending message error now
  | retryOutbox id attempt error readable now =>
    obtain rfl := Option.some.inj hs
    exact changes_retryOutbox id attempt error readable now
  | revokeTarget g now =>
    obtain rfl := Option.some.inj hs
    exact changes_revokeTarget w.store g now

end Yuki.Outbox
