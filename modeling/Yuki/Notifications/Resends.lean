import Yuki.Notifications.Attempts

/-! No part of a notification is sent again on a guess: the invariant of the
outbox over any run of any number of workers. -/

namespace Yuki.Outbox

/-- The identity of a part. -/
def OutboxRow.part (row : OutboxRow) : String × String :=
  (row.notificationId, row.partKey)

/-- What an operation leaves of the set of rows. -/
structure Extends (s s' : Store) : Prop where
  next : s.nextId ≤ s'.nextId
  bounded : ∀ row ∈ s'.outbox.rows, row.id < s'.nextId
  rows : ∀ row' ∈ s'.outbox.rows, (∃ row, s.outbox.get? row'.id = some row) ∨
    s.nextId ≤ row'.id ∧ row'.status = .pending ∧
      (row'.eventId = none ∨ ∃ row ∈ s.outbox.rows, row.status = .pending ∧
        row'.eventId = row.eventId)
  parts : (s.outbox.rows.map OutboxRow.part).Nodup → (s'.outbox.rows.map OutboxRow.part).Nodup

theorem extends_refl {s : Store} (h : ∀ row ∈ s.outbox.rows, row.id < s.nextId) : Extends s s where
  next := le_rfl
  bounded := h
  rows row hr := .inl ⟨row, Table.mem_rows.1 hr⟩
  parts := id

theorem extends_update {s : Store} {p : OutboxRow → Bool} {f : OutboxRow → OutboxRow}
    {hf : ∀ row, (f row).id = row.id} (h : ∀ row ∈ s.outbox.rows, row.id < s.nextId)
    (hpart : ∀ row, p row = true → (f row).part = row.part) :
    Extends s { s with outbox := s.outbox.update p f hf } where
  next := le_rfl
  bounded := by
    intro row' hr
    obtain ⟨row, hrow, rfl⟩ := List.mem_map.1 hr
    have hlt := h row hrow
    split
    · rw [hf]
      exact hlt
    · exact hlt
  rows := by
    intro row' hr
    obtain ⟨row, hrow, rfl⟩ := List.mem_map.1 hr
    refine .inl ⟨row, ?_⟩
    have hid : (if p row then f row else row).id = row.id := by
      split
      · exact hf row
      · rfl
    rw [hid]
    exact Table.mem_rows.1 hrow
  parts := by
    intro hn
    have he : (s.outbox.update p f hf).rows.map OutboxRow.part =
        s.outbox.rows.map OutboxRow.part := by
      rw [Table.rows_update, List.map_map]
      apply List.map_congr_left
      intro row _
      by_cases hp : p row = true
      · simp [hp, hpart row hp]
      · simp [hp]
    show ((s.outbox.update p f hf).rows.map OutboxRow.part).Nodup
    rw [he]
    exact hn

theorem rows_addRow_eq {s : Store} (h : ∀ row ∈ s.outbox.rows, row.id < s.nextId) (row : OutboxRow) :
    (s.addRow row).outbox.rows = s.outbox.rows ++ [{ row with id := s.nextId }] := by
  have hn : s.nextId ∉ s.outbox.rows.map OutboxRow.id := by
    intro hm
    obtain ⟨r, hr, he⟩ := List.mem_map.1 hm
    exact Nat.lt_irrefl _ (he ▸ h r hr)
  simp only [Store.addRow, Table.insert]
  rw [dif_neg hn]

theorem parts_addRows {s : Store} (h : ∀ row ∈ s.outbox.rows, row.id < s.nextId)
    (rows : List OutboxRow) : (rows.foldl Store.addRow s).outbox.rows.map OutboxRow.part =
      s.outbox.rows.map OutboxRow.part ++ rows.map OutboxRow.part := by
  induction rows generalizing s with
  | nil => simp
  | cons row rows ih =>
    rw [List.foldl_cons, ih (rows_addRow h row), rows_addRow_eq h]
    simp [OutboxRow.part]

theorem extends_addRows {s : Store} (h : ∀ row ∈ s.outbox.rows, row.id < s.nextId)
    {rows : List OutboxRow} (hst : ∀ row ∈ rows, row.status = .pending ∧
      (row.eventId = none ∨ ∃ r ∈ s.outbox.rows, r.status = .pending ∧ row.eventId = r.eventId))
    (hfree : s.partsFree rows = true) : Extends s (rows.foldl Store.addRow s) := by
  obtain ⟨h1, h2, -, h4, -, -⟩ := get?_addRows h rows
  refine ⟨h2, h1, ?_, ?_⟩
  · intro row' hr
    obtain hr | ⟨hle, r, hrm, he⟩ := h4 row' hr
    · exact .inl ⟨row', Table.mem_rows.1 hr⟩
    · have hr' := hst r hrm
      refine .inr ⟨hle, ?_, ?_⟩
      · rw [he]
        exact hr'.1
      · rw [he]
        exact hr'.2
  · intro hn
    simp only [Store.partsFree, decide_eq_true_eq] at hfree
    rw [parts_addRows h, List.nodup_append]
    refine ⟨hn, hfree.1, ?_⟩
    intro a ha b hb hab
    obtain ⟨old, hold, rfl⟩ := List.mem_map.1 ha
    obtain ⟨row, hrow, rfl⟩ := List.mem_map.1 hb
    exact hfree.2 row hrow old hold hab

theorem pending_parts (p : Publication) (sourceEventId : Nat) (now : Int) :
    ∀ row ∈ p.parts sourceEventId now, row.status = .pending ∧ row.eventId = none := by
  intro row hr
  simp only [Publication.parts, List.mem_append, List.mem_map] at hr
  obtain ⟨m, -, rfl⟩ | hr := hr
  · exact ⟨rfl, rfl⟩
  · split at hr
    · simp at hr
    · obtain rfl := List.mem_singleton.1 hr
      exact ⟨rfl, rfl⟩

theorem extends_publish {s : Store} (h : Bounded s) (p : Publication) (now : Int)
    (permitted created : Bool) : Extends s (publish s p now permitted created) := by
  obtain heq | ⟨-, hfree, heq⟩ := publish_cases s p now permitted created
  · rw [heq]
    exact extends_refl h.rows
  · rw [heq]
    have hext := extends_addRows (s := { s with
        events := s.events ++ [{ id := s.nextEventId, key := p.key }]
        nextEventId := s.nextEventId + 1 }) h.rows
      (fun row hr => ⟨(pending_parts p _ now row hr).1, .inl (pending_parts p _ now row hr).2⟩) hfree
    exact ⟨hext.next, hext.bounded, hext.rows, hext.parts⟩

/-- Rows added behind an update that keeps the waiting rows and their events. -/
theorem Extends.trans_update {s s'' : Store} {p : OutboxRow → Bool} {f : OutboxRow → OutboxRow}
    {hf : ∀ row, (f row).id = row.id} (hup : Extends s { s with outbox := s.outbox.update p f hf })
    (hstatus : ∀ row, (f row).status = row.status) (hevent : ∀ row, (f row).eventId = row.eventId)
    (hadd : Extends { s with outbox := s.outbox.update p f hf } s'') : Extends s s'' := by
  refine ⟨hup.next.trans hadd.next, hadd.bounded, ?_, fun hn => hadd.parts (hup.parts hn)⟩
  intro row' hr'
  obtain ⟨r, hr⟩ | ⟨hle, hst, hev⟩ := hadd.rows row' hr'
  · have hold := Table.get?_update s.outbox p f hf row'.id
    obtain ⟨row, hrow, -⟩ := Option.map_eq_some_iff.1 (hold.symm.trans hr)
    exact .inl ⟨row, hrow⟩
  · refine .inr ⟨hle, hst, hev.imp_right fun ⟨r, hr, hrs, he⟩ => ?_⟩
    obtain ⟨row, hrow, rfl⟩ := List.mem_map.1 hr
    have hsame : ∀ {α : Type} (g : OutboxRow → α), g (f row) = g row →
        g (if p row then f row else row) = g row := by
      intro α g hg
      split
      · exact hg
      · rfl
    rw [hsame (·.status) (hstatus row)] at hrs
    rw [hsame (·.eventId) (hevent row)] at he
    exact ⟨row, hrow, hrs, he⟩

theorem extends_prepareOutbox {s : Store} (h : Bounded s) (item : Item) (parts : List Json)
    (readable : Bool) : Extends s (prepareOutbox s item parts readable) := by
  obtain heq | ⟨row, first, rest, hrow, hst, hfree, heq⟩ :=
    prepareOutbox_cases s item parts readable
  · rw [heq]
    exact extends_refl h.rows
  · rw [heq]
    have hup : Extends s (s.updateRow item.id (fun _ => true) fun row' =>
        layoutRow row row' first) := extends_update h.rows fun _ _ => rfl
    have hfree' : (s.updateRow item.id (fun _ => true) fun row' =>
        layoutRow row row' first).partsFree (childRows row rest) = true := by
      simp only [Store.partsFree, decide_eq_true_eq] at hfree ⊢
      refine ⟨hfree.1, fun child hc old hold => ?_⟩
      obtain ⟨old0, hold0, rfl⟩ := List.mem_map.1 hold
      have hne := hfree.2 child hc old0 hold0
      split <;> exact hne
    have hmem : ∃ r ∈ (s.updateRow item.id (fun _ => true) fun row' =>
        layoutRow row row' first).outbox.rows, r.status = .pending ∧ r.eventId = row.eventId := by
      refine ⟨_, List.mem_map_of_mem (Table.get?_mem hrow), ?_⟩
      split <;> exact ⟨hst, rfl⟩
    obtain ⟨r, hr, hrs, hre⟩ := hmem
    have hchildren : ∀ child ∈ childRows row rest, child.status = .pending ∧
        (child.eventId = none ∨ ∃ r ∈ (s.updateRow item.id (fun _ => true) fun row' =>
          layoutRow row row' first).outbox.rows, r.status = .pending ∧
          child.eventId = r.eventId) := by
      intro child hc
      obtain ⟨part, -, rfl⟩ := List.mem_map.1 hc
      exact ⟨hst, .inr ⟨r, hr, hrs, hre.symm⟩⟩
    exact hup.trans_update (fun _ => rfl) (fun _ => rfl)
      (extends_addRows hup.bounded hchildren hfree')

theorem extends_claimOutbox {s : Store} (h : Bounded s) (ids : List Nat) (now : Int) (lease : Nat)
    (refused : Option String) : Extends s (claimOutbox s ids now lease refused).1 := by
  have hexp : Extends s (expireOutbox s ids now) := extends_update h.rows fun _ _ => rfl
  have htrans : ∀ {s'' : Store}, Extends (expireOutbox s ids now) s'' →
      (∀ row ∈ s''.outbox.rows, ∃ r, (expireOutbox s ids now).outbox.get? row.id = some r) →
      Extends s s'' := by
    intro s'' h2 hold
    refine ⟨h2.next, h2.bounded, fun row hr => ?_, fun hn => h2.parts (hexp.parts hn)⟩
    obtain ⟨r, hr⟩ := hold row hr
    rw [get?_expireOutbox] at hr
    obtain ⟨r0, hr0, -⟩ := Option.map_eq_some_iff.1 hr
    exact .inl ⟨r0, hr0⟩
  have hrow : ∀ (id : Nat) (f : OutboxRow → OutboxRow) (hf : ∀ row, (f row).id = row.id),
      (∀ row, (f row).part = row.part) →
      Extends s ((expireOutbox s ids now).updateRow id (fun _ => true) f hf) := by
    intro id f hf hpart
    refine htrans (extends_update hexp.bounded fun row _ => hpart row) fun row hr => ?_
    have hkeys := Table.keys_update (expireOutbox s ids now).outbox
      (fun row => row.id = id && true) f hf
    have hm : row.id ∈ (expireOutbox s ids now).outbox.rows.map OutboxRow.id :=
      hkeys ▸ List.mem_map_of_mem hr
    exact Table.get?_isSome.2 hm
  unfold claimOutbox
  dsimp only
  split
  · exact hexp
  · split
    · exact hrow _ _ _ fun _ => rfl
    · exact hrow _ _ _ fun _ => rfl

theorem extends_step {w w' : World} {e : Event} (hb : Bounded w.store) (hs : w.step e = some w') :
    Extends w.store w'.store := by
  have hupdate : ∀ {id : Nat} {p : OutboxRow → Bool} {f : OutboxRow → OutboxRow}
      {hf : ∀ row, (f row).id = row.id}, (∀ row, (f row).part = row.part) →
      Extends w.store (w.store.updateRow id p f hf) :=
    fun hpart => extends_update hb.rows fun row _ => hpart row
  cases e with
  | publish p now permitted created =>
    obtain rfl := Option.some.inj hs
    exact extends_publish hb p now permitted created
  | prepareOutbox item parts readable =>
    obtain rfl := Option.some.inj hs
    exact extends_prepareOutbox hb item parts readable
  | discoverOutbox now =>
    obtain rfl := Option.some.inj hs
    exact extends_refl hb.rows
  | claimOutbox ids now lease refused =>
    obtain ⟨-, hs⟩ := Option.ite_none_right_eq_some.1 hs
    obtain rfl := Option.some.inj hs
    exact extends_claimOutbox hb ids now lease refused
  | requireOutboxReady id attempt now readable =>
    obtain rfl := Option.some.inj hs
    dsimp only
    unfold requireOutboxReady
    split
    · exact hupdate fun _ => rfl
    · exact extends_refl hb.rows
  | settleLocalOutbox id attempt now committed eventId =>
    obtain rfl := Option.some.inj hs
    dsimp only
    unfold settleLocalOutbox
    split
    · exact extends_update hb.rows fun _ _ => rfl
    · exact extends_refl hb.rows
  | retryOutbox id attempt error readable now =>
    obtain rfl := Option.some.inj hs
    dsimp only
    unfold retryOutbox
    split
    · exact hupdate fun _ => rfl
    · exact extends_refl hb.rows
  | revokeTarget g now =>
    obtain rfl := Option.some.inj hs
    exact extends_update hb.rows fun _ _ => rfl
  | failUnclaimedOutbox | requireAgentReplyReady | recoverLocalOutbox | finishOutbox =>
    obtain rfl := Option.some.inj hs
    exact hupdate fun _ => rfl

/-- Only a publication adds an event, and one whose key is new. -/
theorem events_step {w w' : World} {e : Event} (hb : Bounded w.store) (hs : w.step e = some w') :
    (w'.store.events = w.store.events ∧ w'.store.nextEventId = w.store.nextEventId) ∨
    ∃ key, w.store.existing key = none ∧
      w'.store.events = w.store.events ++ [{ id := w.store.nextEventId, key := key }] ∧
      w'.store.nextEventId = w.store.nextEventId + 1 := by
  cases e with
  | publish p now permitted created =>
    obtain rfl := Option.some.inj hs
    dsimp only
    obtain heq | ⟨hnew, -, heq⟩ := publish_cases w.store p now permitted created
    · rw [heq]
      exact .inl ⟨rfl, rfl⟩
    · rw [heq]
      obtain ⟨-, -, -, -, hev, hnext⟩ := get?_addRows (s := { w.store with
        events := w.store.events ++ [{ id := w.store.nextEventId, key := p.key }]
        nextEventId := w.store.nextEventId + 1 }) hb.rows (p.parts w.store.nextEventId now)
      exact .inr ⟨p.key, hnew, hev, hnext⟩
  | prepareOutbox item parts readable =>
    obtain rfl := Option.some.inj hs
    refine .inl ?_
    dsimp only
    obtain heq | ⟨row, first, rest, -, -, -, heq⟩ :=
      prepareOutbox_cases w.store item parts readable
    · rw [heq]
      exact ⟨rfl, rfl⟩
    · rw [heq]
      have hup : Extends w.store (w.store.updateRow item.id (fun _ => true) fun row' =>
          layoutRow row row' first) := extends_update hb.rows fun _ _ => rfl
      obtain ⟨-, -, -, -, hev, hnext⟩ := get?_addRows hup.bounded (childRows row rest)
      exact ⟨hev, hnext⟩
  | claimOutbox ids now lease refused =>
    obtain ⟨-, hs⟩ := Option.ite_none_right_eq_some.1 hs
    obtain rfl := Option.some.inj hs
    refine .inl ?_
    dsimp only
    unfold claimOutbox
    dsimp only
    split
    · exact ⟨rfl, rfl⟩
    · split <;> exact ⟨rfl, rfl⟩
  | requireOutboxReady id attempt now readable =>
    obtain rfl := Option.some.inj hs
    dsimp only
    unfold requireOutboxReady
    split <;> exact .inl ⟨rfl, rfl⟩
  | settleLocalOutbox id attempt now committed eventId =>
    obtain rfl := Option.some.inj hs
    dsimp only
    unfold settleLocalOutbox
    split <;> exact .inl ⟨rfl, rfl⟩
  | retryOutbox id attempt error readable now =>
    obtain rfl := Option.some.inj hs
    dsimp only
    unfold retryOutbox
    split <;> exact .inl ⟨rfl, rfl⟩
  | discoverOutbox | revokeTarget | failUnclaimedOutbox | requireAgentReplyReady
  | recoverLocalOutbox | finishOutbox =>
    obtain rfl := Option.some.inj hs
    exact .inl ⟨rfl, rfl⟩

theorem bounded_step {w w' : World} {e : Event} (hb : Bounded w.store) (hs : w.step e = some w') :
    Bounded w'.store where
  rows := (extends_step hb hs).bounded
  events := by
    intro event hm
    obtain ⟨he, hn⟩ | ⟨key, -, he, hn⟩ := events_step hb hs
    · rw [hn]
      exact hb.events event (he ▸ hm)
    · rw [he, List.mem_append, List.mem_singleton] at hm
      rw [hn]
      obtain hm | rfl := hm
      · exact Nat.lt_succ_of_lt (hb.events event hm)
      · exact Nat.lt_succ_self _

/-- The row handed out is stored, one attempt further than it was. -/
theorem claimOutbox_handed {s : Store} {ids : List Nat} {now : Int} {lease : Nat}
    {refused : Option String} {row' : OutboxRow}
    (h : (claimOutbox s ids now lease refused).2 = some row') :
    ∃ row, s.outbox.get? row'.id = some row ∧ row'.attempts = row.attempts + 1 ∧
      (claimOutbox s ids now lease refused).1.outbox.get? row'.id = some row' := by
  cases hc : claimCandidate (expireOutbox s ids now) ids now with
  | none => simp [claimOutbox, hc] at h
  | some c =>
    cases refused with
    | some category => simp [claimOutbox, hc] at h
    | none =>
      simp only [claimOutbox, hc, Option.some.injEq] at h
      have hget : (expireOutbox s ids now).outbox.get? c.id = some c :=
        Table.mem_rows.1 (claimCandidate_some hc).1
      have hid : row'.id = c.id := by rw [← h]; rfl
      have hatt : row'.attempts = c.attempts + 1 := by rw [← h]; rfl
      rw [hid, hatt]
      have hold := get?_expireOutbox s ids now c.id
      rw [hget] at hold
      obtain ⟨row, hrow, he⟩ := Option.map_eq_some_iff.1 hold.symm
      refine ⟨row, hrow, ?_, ?_⟩
      · rw [← he]
        split <;> rfl
      · simp only [claimOutbox, hc]
        refine (Table.get?_update _ _ (takenRow now lease) (fun _ => rfl) _).trans ?_
        simp [hget, h]

/-- What holds in every reachable world. -/
structure World.Inv (w : World) : Prop where
  bounded : Bounded w.store
  handedBelow : ∀ c ∈ w.handed, ∃ row, w.store.outbox.get? c.1 = some row ∧ c.2 ≤ row.attempts
  current : ∀ row ∈ w.store.outbox.rows, row.status = .processing →
    (row.id, row.attempts) ∈ w.handed
  increasing : w.handed.Pairwise fun c d => c.1 = d.1 → d.2 < c.2
  recorded : ∀ row ∈ w.store.outbox.rows, row.eventId ≠ none → row.status = .sent
  settledSent : ∀ id ∈ w.settled, ∃ row, w.store.outbox.get? id = some row ∧ row.status = .sent
  settledOnce : w.settled.Nodup
  keys : (w.store.events.map ExternalEvent.key).Nodup
  parts : (w.store.outbox.rows.map OutboxRow.part).Nodup

theorem RowChange.attempts_le {e : Event} {row row' : OutboxRow} (h : RowChange e row row') :
    row.attempts ≤ row'.attempts := by
  cases h <;> omega

theorem RowChange.sent_stays {e : Event} {row row' : OutboxRow} (h : RowChange e row row')
    (hs : row.status = .sent) : row'.status = .sent := by
  cases h with
  | keep status => rw [status, hs]
  | claimed _ before =>
    obtain hb | ⟨hb, -⟩ := before <;> rw [hs] at hb <;> cases hb
  | expired event =>
    obtain ⟨ids, now, lease, refused, -, hexp⟩ := event
    have hp := leaseExpired_processing hexp
    rw [hs] at hp
    cases hp
  | ended before => obtain hb | hb := before <;> rw [hs] at hb <;> cases hb
  | sent _ _ status => exact status
  | late before => rw [hs] at before; cases before
  | recovered before => rw [hs] at before; cases before
  | retried attempt _ _ _ _ owner =>
    have hp := (owns_iff.1 owner).1
    rw [hs] at hp
    cases hp
  | manual _ _ before => rw [hs] at before; cases before

theorem RowChange.sent_attempts {e : Event} {row row' : OutboxRow} (h : RowChange e row row')
    (hs : row.status = .sent) : row'.attempts = row.attempts := by
  cases h with
  | claimed _ before =>
    obtain hb | ⟨hb, -⟩ := before <;> rw [hs] at hb <;> cases hb
  | keep _ attempts | expired _ attempts | ended _ attempts | sent _ attempts
  | late _ attempts | recovered _ _ attempts | retried _ _ _ _ _ _ attempts
  | manual _ _ _ _ attempts => exact attempts

/-- A row of unknown outcome is never handed out again. -/
theorem RowChange.uncertain_stays {e : Event} {row row' : OutboxRow} (h : RowChange e row row')
    (hs : row.status = .uncertain) :
    row'.attempts = row.attempts ∧ (row'.status = .uncertain ∨ row'.status = .sent) := by
  cases h with
  | keep status attempts => exact ⟨attempts, .inl (by rw [status, hs])⟩
  | claimed _ before =>
    obtain hb | ⟨hb, -⟩ := before <;> rw [hs] at hb <;> cases hb
  | expired event =>
    obtain ⟨ids, now, lease, refused, -, hexp⟩ := event
    have hp := leaseExpired_processing hexp
    rw [hs] at hp
    cases hp
  | ended before => obtain hb | hb := before <;> rw [hs] at hb <;> cases hb
  | sent _ attempts status => exact ⟨attempts, .inr status⟩
  | late _ attempts status => exact ⟨attempts, .inl status⟩
  | recovered before => rw [hs] at before; cases before
  | retried attempt _ _ _ _ owner =>
    have hp := (owns_iff.1 owner).1
    rw [hs] at hp
    cases hp
  | manual _ _ before => rw [hs] at before; cases before

theorem handed_step {w w' : World} {e : Event} (hs : w.step e = some w') :
    w'.handed = w.handed ∨ ∃ row row', w.store.outbox.get? row'.id = some row ∧
      row'.attempts = row.attempts + 1 ∧ w'.store.outbox.get? row'.id = some row' ∧
      w'.handed = (row'.id, row'.attempts) :: w.handed := by
  cases e with
  | claimOutbox ids now lease refused =>
    obtain ⟨-, hs⟩ := Option.ite_none_right_eq_some.1 hs
    obtain rfl := Option.some.inj hs
    cases hc : (claimOutbox w.store ids now lease refused).2 with
    | none => exact .inl rfl
    | some row' =>
      obtain ⟨row, hrow, hatt, hrow'⟩ := claimOutbox_handed hc
      exact .inr ⟨row, row', hrow, hatt, hrow', rfl⟩
  | _ =>
    obtain rfl := Option.some.inj hs
    exact .inl rfl

theorem settled_step {w w' : World} {e : Event} (hs : w.step e = some w') :
    w'.settled = w.settled ∨ ∃ id row row', w.store.outbox.get? id = some row ∧
      row.status = .processing ∧ w'.store.outbox.get? id = some row' ∧ row'.status = .sent ∧
      w'.settled = id :: w.settled := by
  cases e with
  | claimOutbox ids now lease refused =>
    obtain ⟨-, hs⟩ := Option.ite_none_right_eq_some.1 hs
    obtain rfl := Option.some.inj hs
    exact .inl rfl
  | settleLocalOutbox id attempt now committed eventId =>
    obtain rfl := Option.some.inj hs
    by_cases hc : (committed && w.store.outbox.rows.any (settleGuard id attempt now)) = true
    · obtain ⟨row, hm, hg⟩ := List.any_eq_true.1 (Bool.and_eq_true_iff.1 hc).2
      have hg' := hg
      simp only [settleGuard, Bool.and_eq_true, decide_eq_true_eq] at hg'
      have hrow : w.store.outbox.get? id = some row := hg'.1.1.1 ▸ Table.mem_rows.1 hm
      refine .inr ⟨id, row, settledRow now eventId row, hrow, hg'.1.1.2, ?_, rfl,
        by simp [settleLocalOutbox, hc]⟩
      dsimp only
      rw [settleLocalOutbox, if_pos hc]
      exact (Table.get?_update _ _ (settledRow now eventId) (fun _ => rfl) id).trans
        (by rw [hrow, Option.map_some, if_pos hg])
    · exact .inl (by simp [settleLocalOutbox, hc])
  | _ =>
    obtain rfl := Option.some.inj hs
    exact .inl rfl

/-- A row in delivery was so before, or is the one handed out. -/
theorem current_step {w w' : World} {e : Event} (hb : Bounded w.store) (hs : w.step e = some w')
    {row' : OutboxRow} (hm : row' ∈ w'.store.outbox.rows) (hp : row'.status = .processing) :
    (∃ row, w.store.outbox.get? row'.id = some row ∧ row.status = .processing ∧
      row'.attempts = row.attempts) ∨ (row'.id, row'.attempts) ∈ w'.handed := by
  obtain ⟨row, hrow⟩ | ⟨-, hst, -⟩ := (extends_step hb hs).rows row' hm
  · obtain ⟨r, hr, hc⟩ := changes_step hb hs row'.id row hrow
    obtain rfl : row' = r := Option.some.inj ((Table.mem_rows.1 hm).symm.trans hr)
    cases hc with
    | keep status attempts => exact .inl ⟨row, hrow, by rw [← status, hp], attempts⟩
    | claimed event =>
      obtain ⟨ids, now, lease, refused, rfl⟩ := event
      obtain ⟨-, hs⟩ := Option.ite_none_right_eq_some.1 hs
      obtain rfl := Option.some.inj hs
      obtain ⟨r, hr', hh⟩ := claimOutbox_get? ids now lease refused hrow
      obtain rfl : r = row' := Option.some.inj (hr'.symm.trans hr)
      obtain he | ⟨-, -, -, ⟨-, ho⟩ | hf⟩ := hh
      · refine .inl ⟨row, hrow, ?_, ?_⟩
        · by_contra hne
          rw [if_neg fun h => hne (leaseExpired_processing h)] at he
          exact hne (he ▸ hp)
        · rw [he]
          split <;> rfl
      · exact .inr (by simp [ho])
      · rw [hp] at hf
        cases hf
    | expired _ _ _ status =>
      rw [hp] at status
      split at status
      · cases status
      · split at status <;> cases status
    | ended _ _ status => obtain h | h | h := status <;> rw [hp] at h <;> cases h
    | sent _ _ status => rw [hp] at status; cases status
    | late _ _ status => rw [hp] at status; cases status
    | recovered _ _ _ status => rw [hp] at status; cases status
    | retried _ _ _ _ _ _ _ status => obtain h | h := status <;> rw [hp] at h <;> cases h
    | manual _ _ _ _ _ status => rw [hp] at status; cases status
  · rw [hp] at hst
    cases hst

/-- Only a row that was sent has an event of its own. -/
theorem recorded_step {w w' : World} {e : Event} (h : w.Inv) (hs : w.step e = some w')
    {row' : OutboxRow} (hm : row' ∈ w'.store.outbox.rows) (hev : row'.eventId ≠ none) :
    row'.status = .sent := by
  obtain ⟨row, hrow⟩ | ⟨-, -, hnew | ⟨r, hr, hst, he⟩⟩ := (extends_step h.bounded hs).rows row' hm
  · obtain ⟨r, hr, hc⟩ := changes_step h.bounded hs row'.id row hrow
    obtain rfl : row' = r := Option.some.inj ((Table.mem_rows.1 hm).symm.trans hr)
    have hold : row'.eventId = row.eventId → row'.status = .sent := fun he =>
      hc.sent_stays (h.recorded row (Table.get?_mem hrow) (he ▸ hev))
    cases hc with
    | keep _ _ eventId | claimed _ _ _ eventId | expired _ _ eventId | ended _ _ _ eventId
    | late _ _ _ eventId | recovered _ _ _ _ eventId | retried _ _ _ _ _ _ _ _ eventId
    | manual _ _ _ _ _ _ eventId => exact hold eventId
    | sent _ _ status => exact status
  · exact absurd hnew hev
  · have hsent := h.recorded r hr (he ▸ hev)
    rw [hst] at hsent
    cases hsent

theorem World.Inv.step {w w' : World} {e : Event} (h : w.Inv) (hs : w.step e = some w') :
    w'.Inv where
  bounded := bounded_step h.bounded hs
  handedBelow := by
    have hold : ∀ c ∈ w.handed, ∃ row, w'.store.outbox.get? c.1 = some row ∧ c.2 ≤ row.attempts := by
      intro c hc
      obtain ⟨row, hrow, hle⟩ := h.handedBelow c hc
      obtain ⟨row', hrow', hch⟩ := changes_step h.bounded hs c.1 row hrow
      exact ⟨row', hrow', hle.trans hch.attempts_le⟩
    intro c hc
    obtain he | ⟨row, row', -, -, hrow', he⟩ := handed_step hs
    · rw [he] at hc
      exact hold c hc
    · rw [he, List.mem_cons] at hc
      obtain rfl | hc := hc
      · exact ⟨row', hrow', le_rfl⟩
      · exact hold c hc
  current := by
    intro row' hm hp
    obtain ⟨row, hrow, hst, hatt⟩ | hin := current_step h.bounded hs hm hp
    · have hin := h.current row (Table.get?_mem hrow) hst
      rw [Table.get?_key hrow, ← hatt] at hin
      obtain he | ⟨_, _, -, -, -, he⟩ := handed_step hs
      · rw [he]
        exact hin
      · rw [he]
        exact List.mem_cons_of_mem _ hin
    · exact hin
  increasing := by
    obtain he | ⟨row, row', hrow, hatt, -, he⟩ := handed_step hs
    · rw [he]
      exact h.increasing
    · rw [he, List.pairwise_cons]
      refine ⟨fun c hc hid => ?_, h.increasing⟩
      -- every attempt handed out so far is at most the one the row stands at
      obtain ⟨r, hr, hle⟩ := h.handedBelow c hc
      dsimp only at hid
      rw [← hid] at hr
      obtain rfl : row = r := Option.some.inj (hrow.symm.trans hr)
      show c.2 < row'.attempts
      omega
  recorded row' hm hev := recorded_step h hs hm hev
  settledSent := by
    have hold : ∀ id ∈ w.settled,
        ∃ row, w'.store.outbox.get? id = some row ∧ row.status = .sent := by
      intro id hid
      obtain ⟨row, hrow, hst⟩ := h.settledSent id hid
      obtain ⟨row', hrow', hch⟩ := changes_step h.bounded hs id row hrow
      exact ⟨row', hrow', hch.sent_stays hst⟩
    intro id hid
    obtain he | ⟨id', -, row', -, -, hrow', hst', he⟩ := settled_step hs
    · exact hold id (he ▸ hid)
    · rw [he, List.mem_cons] at hid
      obtain rfl | hid := hid
      · exact ⟨row', hrow', hst'⟩
      · exact hold id hid
  settledOnce := by
    obtain he | ⟨id, row, -, hrow, hst, -, -, he⟩ := settled_step hs
    · rw [he]
      exact h.settledOnce
    · rw [he, List.nodup_cons]
      refine ⟨fun hid => ?_, h.settledOnce⟩
      obtain ⟨r, hr, hsent⟩ := h.settledSent id hid
      obtain rfl : row = r := Option.some.inj (hrow.symm.trans hr)
      rw [hst] at hsent
      cases hsent
  keys := by
    obtain ⟨he, -⟩ | ⟨key, hnew, he, -⟩ := events_step h.bounded hs
    · rw [he]
      exact h.keys
    · rw [he, List.map_append, List.map_singleton, List.nodup_append]
      refine ⟨h.keys, List.nodup_singleton _, ?_⟩
      rintro a ha b hb rfl
      obtain rfl := List.mem_singleton.1 hb
      obtain ⟨event, hm, hk⟩ := List.mem_map.1 ha
      have := List.find?_eq_none.1 hnew event hm
      exact this (by simpa using hk)
  parts := (extends_step h.bounded hs).parts h.parts

theorem World.Inv.init : World.Inv {} where
  bounded := ⟨fun _ h => by simp [Table.empty] at h, fun _ h => by simp at h⟩
  handedBelow _ h := by simp at h
  current _ h := by simp [Table.empty] at h
  increasing := .nil
  recorded _ h := by simp [Table.empty] at h
  settledSent _ h := by simp at h
  settledOnce := .nil
  keys := .nil
  parts := .nil

theorem World.Inv.run {w w' : World} {es : List Event} (h : w.Inv)
    (hr : Run (fun w e w' => World.step w e = some w') w es w') : w'.Inv :=
  hr.invariant (fun _ _ _ hi hs => hi.step hs) h

/-- A retry that knows that nothing was sent: by the owner of the current attempt, or by hand
on a row that failed so. -/
def ProvesUnsent (w : World) (e : Event) (row : OutboxRow) : Prop :=
  (∃ attempt error now, e = .retryOutbox row.id (some attempt) error true now ∧
    error ∈ safeErrors ∧ ownsProcessingAttempt row attempt = true ∧ (row.id, attempt) ∈ w.handed) ∨
  ∃ now, e = .retryOutbox row.id none "manual_retry" true now ∧ row.status = .failed ∧
    ∃ error ∈ safeErrors, row.lastErrorCategory = some error

theorem provesUnsent_of_change {w : World} (h : w.Inv) {e : Event} {row row' : OutboxRow}
    (hm : row ∈ w.store.outbox.rows) (hc : RowChange e row row')
    (hl : preparedLocalOutbox row = false) (hp : row.status ≠ .pending)
    (hp' : row'.status = .pending) : ProvesUnsent w e row := by
  cases hc with
  | keep status => exact absurd (status ▸ hp') hp
  | claimed _ _ _ _ status => obtain hs | hs := status <;> rw [hp'] at hs <;> cases hs
  | expired _ _ _ status =>
    rw [hp', hl] at status
    split at status <;> cases status
  | ended _ _ status => obtain hs | hs | hs := status <;> rw [hp'] at hs <;> cases hs
  | sent _ _ status | late _ _ status => rw [hp'] at status; cases status
  | recovered _ isLocal => rw [hl] at isLocal; cases isLocal
  | retried attempt error now event safe owner =>
    obtain ⟨hst, hatt⟩ := owns_iff.1 owner
    exact .inl ⟨attempt, error, now, event, safe, owner, hatt ▸ h.current row hm hst⟩
  | manual now event before safe => exact .inr ⟨now, event, before, safe⟩

/-- A row whose lease ran out on a platform is of unknown outcome. -/
theorem uncertain_of_expired {w w' : World} (h : w.Inv) {ids : List Nat} {now : Int} {lease : Nat}
    {refused : Option String} (hs : w.step (.claimOutbox ids now lease refused) = some w')
    {id : Nat} {row row' : OutboxRow} (hrow : w.store.outbox.get? id = some row)
    (hexp : leaseExpired ids now row = true) (hl : preparedLocalOutbox row = false)
    (hrow' : w'.store.outbox.get? id = some row') : row'.status = .uncertain := by
  have hst := leaseExpired_processing hexp
  have hev : row.eventId = none := by
    by_contra hne
    have hsent := h.recorded row (Table.get?_mem hrow) hne
    rw [hst] at hsent
    cases hsent
  obtain ⟨-, hs⟩ := Option.ite_none_right_eq_some.1 hs
  obtain rfl := Option.some.inj hs
  obtain ⟨r, hr, hh⟩ := claimOutbox_get? ids now lease refused hrow
  obtain rfl : r = row' := Option.some.inj (hr.symm.trans hrow')
  have hun : (expireRow now row).status = .uncertain := by simp [expireRow, hev, hl]
  rw [if_pos hexp] at hh
  obtain rfl | ⟨hp, -⟩ := hh
  · exact hun
  · rw [hun] at hp
    cases hp

/-- Over a whole run a row of unknown outcome keeps its attempts. -/
theorem uncertain_run {w w' : World} (h : w.Inv) {es : List Event}
    (hr : Run (fun w e w' => World.step w e = some w') w es w') {id : Nat} {row : OutboxRow}
    (hrow : w.store.outbox.get? id = some row) (hu : row.status = .uncertain) :
    ∃ row', w'.store.outbox.get? id = some row' ∧
      (row'.status = .uncertain ∨ row'.status = .sent) ∧
      ∀ attempt, (id, attempt) ∈ w'.handed → (id, attempt) ∈ w.handed := by
  have hstep : ∀ (v : World) (e : Event) (v' : World),
      (v.Inv ∧ (∃ r, v.store.outbox.get? id = some r ∧ (r.status = .uncertain ∨ r.status = .sent)) ∧
        ∀ attempt, (id, attempt) ∈ v.handed → (id, attempt) ∈ w.handed) → v.step e = some v' →
      (v'.Inv ∧ (∃ r, v'.store.outbox.get? id = some r ∧ (r.status = .uncertain ∨ r.status = .sent)) ∧
        ∀ attempt, (id, attempt) ∈ v'.handed → (id, attempt) ∈ w.handed) := by
    rintro v e v' ⟨hi, ⟨r, hget, hst⟩, hold⟩ hs
    obtain ⟨r', hget', hc⟩ := changes_step hi.bounded hs id r hget
    have hkept : r'.attempts = r.attempts ∧ (r'.status = .uncertain ∨ r'.status = .sent) := by
      obtain hst | hst := hst
      · exact hc.uncertain_stays hst
      · exact ⟨hc.sent_attempts hst, .inr (hc.sent_stays hst)⟩
    refine ⟨hi.step hs, ⟨r', hget', hkept.2⟩, fun attempt hin => ?_⟩
    obtain he | ⟨c, c', hcg, hatt, hcg', he⟩ := handed_step hs
    · exact hold attempt (he ▸ hin)
    · rw [he, List.mem_cons] at hin
      obtain heq | hin := hin
      · obtain ⟨rfl, rfl⟩ := Prod.mk.inj heq
        obtain rfl : r = c := Option.some.inj (hget.symm.trans hcg)
        obtain rfl : r' = c' := Option.some.inj (hget'.symm.trans hcg')
        omega
      · exact hold attempt hin
  obtain ⟨-, ⟨row', hrow', hst'⟩, hold⟩ := hr.invariant hstep
    ⟨h, ⟨row, hrow, .inl hu⟩, fun _ ha => ha⟩
  exact ⟨row', hrow', hst', hold⟩

/-- No part is sent again on a guess, whatever the workers do and in whatever order. -/
theorem never_resent {es : List Event} {w : World}
    (hr : Run (fun w e w' => World.step w e = some w') {} es w) :
    w.handed.Nodup ∧
    (∀ row ∈ w.store.outbox.rows, ∀ a b, ownsProcessingAttempt row a = true →
      ownsProcessingAttempt row b = true → a = b ∧ (row.id, a) ∈ w.handed) ∧
    (∀ e w', w.step e = some w' → ∀ id row, w.store.outbox.get? id = some row →
      ∃ row', w'.store.outbox.get? id = some row' ∧
        (row.status = .sent → row'.status = .sent) ∧
        (preparedLocalOutbox row = false → row.status ≠ .pending → row'.status = .pending →
          ProvesUnsent w e row) ∧
        (∀ ids now lease refused, e = .claimOutbox ids now lease refused →
          leaseExpired ids now row = true → preparedLocalOutbox row = false →
          row'.status = .uncertain)) ∧
    (∀ es' w', Run (fun w e w' => World.step w e = some w') w es' w' → ∀ id row,
      w.store.outbox.get? id = some row → row.status = .uncertain →
      ∃ row', w'.store.outbox.get? id = some row' ∧
        (row'.status = .uncertain ∨ row'.status = .sent) ∧
        ∀ attempt, (id, attempt) ∈ w'.handed → (id, attempt) ∈ w.handed) ∧
    w.settled.Nodup ∧
    (w.store.events.map ExternalEvent.key).Nodup ∧
    (w.store.outbox.rows.map OutboxRow.part).Nodup := by
  have hi : w.Inv := World.Inv.init.run hr
  refine ⟨?_, ?_, ?_, ?_, hi.settledOnce, hi.keys, hi.parts⟩
  · refine hi.increasing.imp ?_
    rintro c _ hlt rfl
    exact Nat.lt_irrefl _ (hlt rfl)
  · intro row hm a b ha hb
    obtain ⟨hst, rfl⟩ := owns_iff.1 ha
    exact ⟨(owns_iff.1 hb).2, hi.current row hm hst⟩
  · intro e w' hs id row hrow
    obtain ⟨row', hrow', hc⟩ := changes_step hi.bounded hs id row hrow
    refine ⟨row', hrow', hc.sent_stays, ?_, ?_⟩
    · exact provesUnsent_of_change hi (Table.get?_mem hrow) hc
    · rintro ids now lease refused rfl hexp hl
      exact uncertain_of_expired hi hs hrow hexp hl hrow'
  · intro es' w' hr' id row hrow hu
    exact uncertain_run hi hr' hrow hu

/-- A notice to a group over a platform: the first attempt is retried by its owner, the lease
of the second runs out. -/
def noticeRun : List Event :=
  let item : Item := { id := 1, text := "hello", mediaHandleId := none }
  let publication : Publication :=
    { key := ⟨"weather", "storm", .group, "space:1"⟩, notificationId := "n1", targetType := .group
      targetId := "100", botUserId := "7", personId := none, spaceId := some "1"
      presenceId := some "p1", sourcePersonId := none, media := [], text := "hello" }
  let part : Json := .obj
    [("message", .obj [("text", .str "hello")]), ("route", .obj [("local_ledger", .bool false)])]
  [.publish publication 0 true true, .prepareOutbox item [part] true,
    .discoverOutbox 0, .claimOutbox [1] 0 300000000 none,
    .retryOutbox 1 (some 1) "bot_unavailable" true 5,
    .discoverOutbox 10000005, .claimOutbox [1] 10000005 300000000 none,
    .discoverOutbox 310000006, .claimOutbox [1] 310000006 300000000 none]

theorem never_resent_notice : ∃ w, Run.play World.step {} noticeRun = some w ∧
    w.handed = [(1, 2), (1, 1)] ∧ w.store.outbox.rows.map OutboxRow.status = [.uncertain] ∧
    w.handed.Nodup := by
  have hrun : (Run.play World.step {} noticeRun).any (fun w =>
      w.handed = [(1, 2), (1, 1)] ∧ w.store.outbox.rows.map OutboxRow.status = [.uncertain]) =
      true := by decide +kernel
  obtain ⟨w, hw, h⟩ := (Option.any_eq_true _ _).1 hrun
  obtain ⟨hh, hst⟩ := of_decide_eq_true h
  exact ⟨w, hw, hh, hst, (never_resent (Run.of_play hw)).1⟩

end Yuki.Outbox
