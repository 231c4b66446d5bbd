import Yuki.Conversation.Publication

/-! Whole runs of readers and publishers: sizes and budgets, appends only behind what is
stored, one append for each snapshot, and reads that hand out what the chunks hold. -/

namespace Yuki.Projection

open Frozen FrozenFragments

/-- The items that the chunks of a head hold, in order. -/
def Db.items (db : Db) (row : ProjectionRow) : List Item :=
  (db.payloads row.viewKey row.epochId 0 row.tailOrdinal).flatten

/-- The head says what its chunks hold. -/
structure Db.Counts (db : Db) (row : ProjectionRow) : Prop where
  chunks : ∀ n, n < row.tailOrdinal → (db.chunks.get? (row.viewKey, row.epochId, n + 1)).isSome
  count : row.itemCount = (db.items row).length
  bytes : row.byteSize = utf8Length (encodeItems (db.items row))

/-- The coverage of a view's summary, while its history is this one. -/
def Db.covers (db : Db) (v : String) (history : Int × Int × Int) : Option Int :=
  (db.rows.get? v).bind fun row =>
    if row.summary.Present ∧
        (row.generation, row.startsAfterEventId, row.sourceRevision) = history then
      some row.summary.coverage
    else none

section

variable {db db' : Db} {row : ProjectionRow} {blocks : List (List FrozenFragment)}

theorem Db.Stored.items (h : db.Stored row blocks) : db.items row = blocks.flatten.map item := by
  rw [Db.items, h.payloads, List.drop_zero, List.map_flatten]

theorem Db.Stored.counts (h : db.Stored row blocks) : db.Counts row := by
  refine ⟨fun n hn => ?_, ?_, ?_⟩
  · rw [h.tail] at hn
    rw [h.chunks, List.getElem?_eq_getElem hn]
    rfl
  · rw [h.items, h.count, List.length_map]
  · rw [h.items, h.bytes, bytesOf]

theorem mem_valid : row ∈ db.valid ↔
    db.rows.get? row.viewKey = some row ∧ row.invalidatedReason = none := by
  rw [Db.valid, List.mem_filter, Table.mem_rows, Option.isNone_iff_eq_none]

theorem Db.covers_eq_some {v : String} {history : Int × Int × Int} {c : Int} :
    db.covers v history = some c ↔ ∃ row, db.rows.get? v = some row ∧ row.summary.Present ∧
      (row.generation, row.startsAfterEventId, row.sourceRevision) = history ∧
      row.summary.coverage = c := by
  unfold Db.covers
  rw [Option.bind_eq_some_iff]
  refine exists_congr fun row => and_congr_right fun _ => ?_
  rw [Option.ite_none_right_eq_some, Option.some.injEq, and_assoc]

theorem HeadStep.covers {epochs : List String} {v : String} (h : HeadStep epochs db db' v)
    {history : Int × Int × Int} {c c' : Int} (hc : db.covers v history = some c)
    (hc' : db'.covers v history = some c') : c ≤ c' := by
  obtain ⟨old, hold, hpres, rfl, rfl⟩ := Db.covers_eq_some.mp hc
  obtain ⟨row, hrow, -, hh, rfl⟩ := Db.covers_eq_some.mp hc'
  cases h with
  | same head chunks =>
    cases hold.symm.trans (head.symm.trans hrow)
    exact Int.le_refl _
  | retired old' reason now head head' =>
    cases hold.symm.trans head
    cases hrow.symm.trans head'
    exact Int.le_refl _
  | extended old' row' added head head' was valid epoch revision summary stored =>
    cases hold.symm.trans head
    cases hrow.symm.trans head'
    exact summary hpres hh
  | rebuilt row' blocks head' valid epoch summary stored =>
    cases hrow.symm.trans head'
    exact summary old hold hpres hh

/-- A head that a step leaves in its epoch keeps what it stored in front. -/
theorem HeadStep.items {epochs : List String} {v : String} (h : HeadStep epochs db db' v)
    {old : ProjectionRow} {blocks : List (List FrozenFragment)} (hold : db.rows.get? v = some old)
    (hb : db.Stored old blocks) (hin : old.epochId ∈ epochs) (hrow : db'.rows.get? v = some row)
    (hvalid : row.invalidatedReason = none) (he : row.epochId = old.epochId) :
    db.items old <+: db'.items row := by
  cases h with
  | same head chunks =>
    cases hold.symm.trans (head.symm.trans hrow)
    have hb' : db'.Stored row blocks := by
      have hkey : row.viewKey = v := Table.get?_key hold
      refine ⟨hb.tail, fun n => ?_, hb.count, hb.bytes, hb.nodup⟩
      rw [← hb.chunks n, hkey]
      exact chunks row hold _ _
    exact ⟨[], (List.append_nil _).trans (hb.items.trans hb'.items.symm)⟩
  | retired old' reason now head head' =>
    cases hrow.symm.trans head'
    cases hvalid
  | extended old' row' added head head' was valid epoch revision summary stored =>
    cases hold.symm.trans head
    cases hrow.symm.trans head'
    rw [hb.items, (stored blocks hb).items, List.flatten_append, List.map_append]
    exact List.prefix_append _ _
  | rebuilt row' blocks head' valid epoch summary stored =>
    cases hrow.symm.trans head'
    exact absurd (he ▸ hin) epoch

end

namespace World

variable {w w' : World} {e : Event} {events : List Event} {digest : String → String} {σ : Snapshot}
  {row : ProjectionRow} {p : Publication} {epoch : String} {now : Int} {db' : Db}

/-- What a step does to the heads, and that epochs are only drawn. -/
theorem Sound.heads_of_step (h : w.Sound) (hstep : w.step digest e = some w') :
    (∀ v, HeadStep w.epochs w.db w'.db v) ∧ w.epochs ⊆ w'.epochs ∧ w.snapshots ⊆ w'.snapshots ∧
      w.publications ⊆ w'.publications := by
  have hsame : (∀ v, HeadStep w.epochs w.db w.db v) := fun _ => .same rfl fun _ _ _ _ => rfl
  have hreads : ∀ {row previous}, w.reads row previous = some w' →
      w'.db = w.db ∧ w'.epochs = w.epochs ∧ w.snapshots ⊆ w'.snapshots ∧
        w'.publications = w.publications := by
    intro row previous hreads
    unfold World.reads at hreads
    split at hreads
    · cases hreads
      exact ⟨rfl, rfl, List.Subset.refl _, rfl⟩
    · obtain ⟨-, hreads⟩ := Option.ite_none_right_eq_some.mp hreads
      cases hreads
      refine ⟨rfl, rfl, ?_, rfl⟩
      dsimp only
      split
      · exact List.subset_append_left _ _
      · exact List.Subset.refl _
  cases e with
  | build call =>
    obtain ⟨-, hstep⟩ := Option.ite_none_right_eq_some.mp hstep
    cases hstep
    exact ⟨hsame, List.Subset.refl _, List.Subset.refl _, List.Subset.refl _⟩
  | read viewKey previous =>
    obtain ⟨hdb, he, hs, hp⟩ := hreads hstep
    rw [hdb, he, hp]
    exact ⟨hsame, List.Subset.refl _, hs, List.Subset.refl _⟩
  | readCheckpoint conversationId previous =>
    obtain ⟨hdb, he, hs, hp⟩ := hreads hstep
    rw [hdb, he, hp]
    exact ⟨hsame, List.Subset.refl _, hs, List.Subset.refl _⟩
  | prepareCommit repository commit now =>
    obtain ⟨-, hstep⟩ := Option.ite_none_right_eq_some.mp hstep
    split at hstep
    · cases hstep
      exact ⟨hsame, List.Subset.refl _, List.Subset.refl _, List.subset_append_left _ _⟩
    · cases hstep
      exact ⟨hsame, List.Subset.refl _, List.Subset.refl _, List.Subset.refl _⟩
  | publish p epoch now commits =>
    obtain ⟨⟨hp, hfresh⟩, hstep⟩ := Option.ite_none_right_eq_some.mp hstep
    split at hstep
    · rename_i db' σ hrun _
      cases hstep
      exact ⟨h.publish_heads (h.prepared p hp) hfresh hrun, List.subset_cons_self _ _,
        List.subset_append_left _ _, List.Subset.refl _⟩
    · cases hstep
      exact ⟨hsame, List.subset_cons_self _ _, List.Subset.refl _, List.Subset.refl _⟩
  | invalidateView viewKey reason now =>
    dsimp only [World.step] at hstep
    split at hstep
    · rename_i db' hrun
      cases hstep
      obtain ⟨-, -, hrun⟩ := bind_eq_ok.mp hrun
      cases hrun
      refine ⟨fun v => ?_, List.Subset.refl _, List.Subset.refl _, List.Subset.refl _⟩
      dsimp only
      split
      · exact retire_heads _ _ _ _ _ v
      · exact hsame v
    · cases hstep
      exact ⟨hsame, List.Subset.refl _, List.Subset.refl _, List.Subset.refl _⟩
  | outside conversations privacyGeneration selections retired reason now =>
    cases hstep
    refine ⟨fun v => ?_, List.Subset.refl _, List.Subset.refl _, List.Subset.refl _⟩
    cases retire_heads w.epochs w.db retired reason now v with
    | same head chunks => exact .same head chunks
    | retired old reason now head head' => exact .retired old reason now head head'
    | extended old row added head head' was valid epoch revision summary stored =>
      exact .extended old row added head head' was valid epoch revision summary fun blocks hb =>
        ⟨(stored blocks hb).tail, (stored blocks hb).chunks, (stored blocks hb).count,
          (stored blocks hb).bytes, (stored blocks hb).nodup⟩
    | rebuilt row blocks head' valid epoch summary stored =>
      exact .rebuilt row blocks head' valid epoch summary
        ⟨stored.tail, stored.chunks, stored.count, stored.bytes, stored.nodup⟩

theorem Sound.counts (h : w.Sound) (hrow : row ∈ w.db.valid) : w.db.Counts row := by
  obtain ⟨hget, hvalid⟩ := mem_valid.mp hrow
  obtain ⟨blocks, hb⟩ := h.valid _ row hget hvalid
  exact hb.counts

/-- A snapshot that its head has left is never current again. -/
theorem Sound.left_step (h : w.Sound) (hσ : σ ∈ w.snapshots)
    (hstep : w.step digest e = some w')
    (hleft : ∀ row, w.db.rows.get? σ.prefixStamp.viewKey = some row →
      prefixVersion row ≠ σ.prefixStamp) :
    ∀ row, w'.db.rows.get? σ.prefixStamp.viewKey = some row →
      prefixVersion row ≠ σ.prefixStamp := by
  intro row hrow hsame
  have hk := h.known σ hσ
  have hepoch : row.epochId = σ.prefixStamp.epochId := congrArg PrefixVersion.epochId hsame
  have hrevision : row.revision = σ.prefixStamp.revision := congrArg PrefixVersion.revision hsame
  cases (h.heads_of_step hstep).1 σ.prefixStamp.viewKey with
  | same head chunks => exact hleft row (head.symm.trans hrow) hsame
  | retired old reason now head head' =>
    cases hrow.symm.trans head'
    have hle := (hk.current old head hepoch).1
    change old.revision + 1 = _ at hrevision
    omega
  | extended old row' added head head' was valid epoch revision summary stored =>
    cases hrow.symm.trans head'
    have hle := (hk.current old head (epoch.symm.trans hepoch)).1
    omega
  | rebuilt row' blocks head' valid epoch summary stored =>
    cases hrow.symm.trans head'
    rw [hepoch] at epoch
    exact epoch hk.epoch

theorem Sound.left_run (h : w.Sound) (hσ : σ ∈ w.snapshots)
    (hrun : Run (Steps digest) w events w')
    (hleft : ∀ row, w.db.rows.get? σ.prefixStamp.viewKey = some row →
      prefixVersion row ≠ σ.prefixStamp) :
    ∀ row, w'.db.rows.get? σ.prefixStamp.viewKey = some row →
      prefixVersion row ≠ σ.prefixStamp := by
  induction hrun with
  | nil => exact hleft
  | cons hstep _ ih =>
    exact ih (h.step hstep) ((h.heads_of_step hstep).2.2.1 hσ) (h.left_step hσ hstep hleft)

/-- What every publication of a reachable state leaves behind, and the coverage of the
summaries over the steps from there. -/
theorem projection_publication
    (h : Run (Steps digest) {} events w) :
    (∀ row ∈ w.db.valid, w.db.Counts row) ∧
    (∀ p ∈ w.publications, ∀ epoch, epoch ∉ w.epochs → ∀ now db' σ,
      Projection.publish w.db p epoch now = .ok (db', σ) →
        (∀ row ∈ db'.valid, db'.Counts row) ∧
        (p.writes (w.db.rows.get? p.commit.viewKey) = true →
          (db'.valid.map (·.byteSize)).sum ≤ p.repository.totalBytes ∧
            db'.valid.length ≤ p.repository.maximumViews) ∧
        (p.commit.rebuildReason = none → ∃ row row', w.db.rows.get? p.commit.viewKey = some row ∧
          db'.rows.get? p.commit.viewKey = some row' ∧ row'.epochId = row.epochId ∧
            w.db.items row <+: db'.items row')) ∧
    ∀ v history events' w', Run (fun w e w' => Steps digest w e w' ∧
      (w'.db.covers v history).isSome) w events' w' → ∀ c c', w.db.covers v history = some c →
        w'.db.covers v history = some c' → c ≤ c' := by
  have hs := sound_of_run h
  refine ⟨fun row hrow => hs.counts hrow, fun p hp epoch hfresh now db' σ hpub => ⟨?_, ?_, ?_⟩, ?_⟩
  · exact fun row hrow => (hs.publish (hs.prepared p hp) hfresh hpub).counts hrow
  · intro hwrites
    obtain ⟨-, ⟨hno, -⟩ | ⟨-, hroom, -, chunks, selections, -, rfl⟩⟩ := publish_cases hpub
    · rw [hwrites] at hno
      cases hno
    · exact valid_written (p.row (w.db.rows.get? p.commit.viewKey) epoch now) p.repository w.db
        "capacity" now rfl rfl hroom
  · intro hr
    have hprepared := hs.prepared p hp
    obtain ⟨hhead, hcases⟩ := publish_cases hpub
    rcases requireHead_cases hhead with ⟨-, hno⟩ | ⟨old, hold, -, hcas⟩
    · exact absurd hr hno
    obtain ⟨-, hvalid⟩ := hcas hr
    obtain ⟨blocks, hb⟩ := hs.valid _ old hold hvalid
    rcases hcases with ⟨-, rfl, -⟩ | ⟨-, -, -, chunks, selections, -, rfl⟩
    · exact ⟨old, old, hold, hold, rfl, List.prefix_refl _⟩
    · have hget := get?_putHead_row (w.db.retire (roomFor p.repository w.db p.commit.viewKey
        p.size).victims "capacity" now) p (w.db.rows.get? p.commit.viewKey) epoch now
      have hepoch : (p.row (w.db.rows.get? p.commit.viewKey) epoch now).epochId = old.epochId := by
        simp [Publication.row, hr, hold]
      exact ⟨old, _, hold, hget, hepoch, (hs.publish_heads hprepared hfresh hpub _).items hold hb
        (hs.epochs _ old hold) hget rfl hepoch⟩
  · intro v history events' w' hrun
    clear h
    induction hrun with
    | nil =>
      intro c c' hc hc'
      cases hc.symm.trans hc'
      exact Int.le_refl _
    | @cons w₁ w₂ w₃ e events hstep _ ih =>
      intro c c' hc hc'
      obtain ⟨c₂, hc₂⟩ := Option.isSome_iff_exists.mp hstep.2
      have hfirst := ((hs.heads_of_step hstep.1).1 v).covers hc hc₂
      exact Int.le_trans hfirst (ih (hs.step hstep.1) c₂ c' hc₂ hc')

/-! A conversation whose view is opened with one question, and then with another. -/

def openRepository : Repository where
  positive := by decide

def oneQuestion : FrozenFragments :=
  ((root 0).appendCurrent 1 Frozen.World.question 1).toOption.getD (root 0)

def openCommit : Commit where
  viewKey := "c"
  conversationId := "c"
  generation := 1
  expectedSourceRevision := 1
  startsAfterEventId := 0
  contextKey := "k"
  fragments := oneQuestion
  rebuildReason := some "bootstrap"

def openEvents : List Event :=
  [.outside ⟨[⟨"c", 1, 0, 1, 5⟩], List.nodup_singleton "c"⟩ 0 .empty [] "" 0,
    .build (.load []), .build (.appendCurrent (root 0) 1 Frozen.World.question),
    .prepareCommit openRepository openCommit 0]

/-- The state after these events and after the publication they prepared. -/
def opened : Option World :=
  (Run.play (World.step id) {} openEvents).bind fun w => w.publications.head?.bind fun p =>
    w.step id (.publish p "e" 1 true)

theorem run_opened {w : World} (h : opened = some w) : ∃ events, Run (Steps id) {} events w := by
  obtain ⟨w₁, hplay, h⟩ := Option.bind_eq_some_iff.mp h
  obtain ⟨p, -, h⟩ := Option.bind_eq_some_iff.mp h
  exact ⟨_, (Run.of_play hplay).append (.single h)⟩

theorem opened_valid : ∃ events w row, Run (Steps id) {} events w ∧ row ∈ w.db.valid ∧
    row.itemCount = 1 := by
  have hone : (opened.any fun w => w.db.valid.any fun row => row.itemCount = 1) = true := by
    decide +kernel
  obtain ⟨w, hw, hone⟩ := (Option.any_eq_true _ _).mp hone
  obtain ⟨row, hrow, hone⟩ := List.any_eq_true.mp hone
  obtain ⟨events, hrun⟩ := run_opened hw
  exact ⟨events, w, row, hrun, hrow, of_decide_eq_true hone⟩

theorem projection_publication_opened : ∃ (w : World) (row : ProjectionRow), row ∈ w.db.valid ∧
    row.itemCount = 1 ∧ w.db.Counts row := by
  obtain ⟨events, w, row, hrun, hrow, hone⟩ := opened_valid
  exact ⟨w, row, hrow, hone, (projection_publication hrun).1 row hrow⟩

/-- Of the appends prepared behind one snapshot, one is written: every later one raises. -/
theorem one_append_of_snapshot
    (h : Run (Steps digest) {} events w) {p p' : Publication}
    (hp : p ∈ w.publications) (hp' : p' ∈ w.publications) (hr : p.commit.rebuildReason = none)
    (hr' : p'.commit.rebuildReason = none)
    (hsame : p'.commit.previousSnapshot = p.commit.previousSnapshot)
    (hfresh : epoch ∉ w.epochs) (hpub : Projection.publish w.db p epoch now = .ok (db', σ))
    (hwrites : p.writes (w.db.rows.get? p.commit.viewKey) = true) {events' : List Event}
    (hrun : Run (Steps digest)
      { w with db := db', snapshots := w.snapshots ++ [σ], epochs := epoch :: w.epochs } events' w')
    (epoch' : String) (now' : Int) : ∃ e, Projection.publish w'.db p' epoch' now' = .error e := by
  have hs := sound_of_run h
  obtain ⟨before, added, -, happend, -⟩ := (hs.prepared p hp).carries
  obtain ⟨σ₀, hσ₀, hview, -, -⟩ := happend hr
  obtain ⟨before', added', -, happend', -⟩ := (hs.prepared p' hp').carries
  obtain ⟨σ₁, hσ₁, hview', -, -⟩ := happend' hr'
  cases hσ₁.symm.trans (hsame.trans hσ₀)
  obtain ⟨hhead, ⟨hno, -⟩ | ⟨-, -, -, chunks, selections, -, rfl⟩⟩ := publish_cases hpub
  · rw [hwrites] at hno
    cases hno
  rcases requireHead_cases hhead with ⟨-, hno⟩ | ⟨old, hold, -, hcas⟩
  · exact absurd hr hno
  have hstamp : σ₀.prefixStamp = prefixVersion old := by
    have := (hcas hr).1
    rw [hσ₀] at this
    exact Option.some.inj this
  -- The head the first one wrote has the next revision.
  have hleft : ∀ row, ((w.db.retire (roomFor p.repository w.db p.commit.viewKey p.size).victims
      "capacity" now).putHead (p.row (w.db.rows.get? p.commit.viewKey) epoch now)).rows.get?
        σ₀.prefixStamp.viewKey = some row → prefixVersion row ≠ σ₀.prefixStamp := by
    intro row hrow he
    rw [hview, get?_putHead_row] at hrow
    cases hrow
    have hrevision := congrArg PrefixVersion.revision (he.trans hstamp)
    have hnext :
        (p.row (w.db.rows.get? p.commit.viewKey) epoch now).revision = old.revision + 1 := by
      simp [Publication.row, hr, hold]
    have hsucc : old.revision + 1 = old.revision := hnext.symm.trans hrevision
    omega
  have hleft' := (hs.publish (hs.prepared p hp) hfresh hpub).left_run
    (List.mem_append_left _ ((hs.prepared p hp).known σ₀ hσ₀)) hrun hleft
  cases hlate : Projection.publish w'.db p' epoch' now' with
  | error e => exact ⟨e, rfl⟩
  | ok result =>
    obtain ⟨hhead', -⟩ := publish_cases hlate
    rcases requireHead_cases hhead' with ⟨-, hno⟩ | ⟨old', hold', -, hcas'⟩
    · exact absurd hr' hno
    have hstamp' := (hcas' hr').1
    rw [hsame, hσ₀] at hstamp'
    rw [← hview'] at hold'
    exact absurd (Option.some.inj hstamp').symm (hleft' old' hold')

def twoQuestions : FrozenFragments :=
  (oneQuestion.appendCurrent 2 Frozen.World.question 2).toOption.getD (root 0)

/-- The second question behind the snapshot that the first publication handed out. -/
def appendCommit (w : World) : Commit :=
  { openCommit with
    fragments := twoQuestions, expectedEpoch := some "e", expectedRevision := 1
    rebuildReason := none, previousSnapshot := w.snapshots.head? }

/-- Two callers prepare the same append. -/
def appending : Option World :=
  opened.bind fun w => Run.play (World.step id) w
    [.build (.appendCurrent oneQuestion 2 Frozen.World.question),
      .prepareCommit openRepository (appendCommit w) 1,
      .prepareCommit openRepository (appendCommit w) 2]

/-- The first of them writes, and what the second one meets. -/
def bothAppend (w : World) : Bool :=
  match w.publications with
  | [_, p, p'] =>
    p.commit.rebuildReason = none && p'.commit.rebuildReason = none &&
      p'.commit.previousSnapshot = p.commit.previousSnapshot && !w.epochs.contains "f" &&
      p.writes (w.db.rows.get? p.commit.viewKey) &&
      (Projection.publish w.db p "f" 3).toOption.isSome
  | _ => false

theorem one_append_of_snapshot_appending : ∃ (w : World) (p p' : Publication) (db' : Db)
    (σ : Snapshot) (e : Failure), p' ∈ w.publications ∧
      Projection.publish w.db p "f" 3 = .ok (db', σ) ∧
      Projection.publish db' p' "g" 4 = .error e := by
  have hboth : (appending.any bothAppend) = true := by decide +kernel
  obtain ⟨w, hw, hboth⟩ := (Option.any_eq_true _ _).mp hboth
  obtain ⟨w₀, hw₀, hplay⟩ := Option.bind_eq_some_iff.mp hw
  obtain ⟨events, hrun⟩ := run_opened hw₀
  have hrun' := hrun.append (Run.of_play hplay)
  unfold bothAppend at hboth
  split at hboth
  · rename_i p₀ p p' hpubs
    simp only [Bool.and_eq_true, decide_eq_true_eq, Bool.not_eq_true', List.contains_eq_mem,
      decide_eq_false_iff_not, Option.isSome_iff_exists] at hboth
    obtain ⟨⟨⟨⟨⟨hr, hr'⟩, hsame⟩, hfresh⟩, hwrites⟩, ⟨db', σ⟩, hpub⟩ := hboth
    have hpub' : Projection.publish w.db p "f" 3 = .ok (db', σ) := by
      cases hcase : Projection.publish w.db p "f" 3 with
      | ok r =>
        rw [hcase] at hpub
        exact congrArg Except.ok (Option.some.inj hpub)
      | error e =>
        rw [hcase] at hpub
        cases hpub
    have hp : p ∈ w.publications := by simp [hpubs]
    have hp' : p' ∈ w.publications := by simp [hpubs]
    obtain ⟨e, he⟩ := one_append_of_snapshot hrun' hp hp' hr hr' hsame hfresh hpub' hwrites (.nil _) "g" 4
    exact ⟨w, p, p', db', σ, e, hp', hpub', he⟩
  · cases hboth

/-- A reader of a valid head never fails, and gets what its chunks hold whichever snapshot
of the view it starts from. -/
theorem read_current_exact
    (h : Run (Steps digest) {} events w) (hrow : row ∈ w.db.valid)
    (previous : Option Snapshot)
    (hprevious : ∀ σ, previous = some σ → σ ∈ w.snapshots ∧ σ.prefixStamp.viewKey = row.viewKey) :
    ∃ σ, (readRow w.db row previous w.frozen).1 = .ok σ ∧
      σ.fragments.iterFragments.map item = w.db.items row ∧ σ.prefixStamp = prefixVersion row ∧
      σ.tailOrdinal = row.tailOrdinal ∧ σ.byteSize = row.byteSize := by
  have hs := sound_of_run h
  obtain ⟨hget, hvalid⟩ := mem_valid.mp hrow
  obtain ⟨blocks, hb⟩ := hs.valid _ row hget hvalid
  have hcovered : ∀ σ, previous = some σ → σ.fragments ∈ w.frozen.values ∧
      (σ.prefixStamp.epochId = row.epochId →
        σ.fragments.iterFragments = (blocks.take σ.tailOrdinal).flatten) := by
    intro σ hσ
    obtain ⟨hmem, hview⟩ := hprevious σ hσ
    have hk := hs.known σ hmem
    refine ⟨hk.held, fun he => ?_⟩
    obtain ⟨-, hcur⟩ := hk.current row (by rw [hview]; exact hget) he.symm
    obtain ⟨blocks', hb', -, hiter, -⟩ := hcur hvalid
    rwa [hb.unique hb']
  obtain ⟨σ, hσ⟩ := readRow_ok hs.frozen previous hb hcovered hvalid
  refine ⟨σ, hσ, ?_⟩
  obtain ⟨-, -, hok⟩ := readRow_spec hs.frozen previous (fun _ => hb)
    fun σ hσ => ⟨(hcovered σ hσ).1, fun he _ => (hcovered σ hσ).2 he⟩
  rcases hok σ hσ with ⟨hsome, hstamp⟩ | ⟨q, -, rfl, hiter, -⟩
  · obtain ⟨hmem, hview⟩ := hprevious σ hsome
    have hk := hs.known σ hmem
    obtain ⟨-, hcur⟩ := hk.current row (by rw [hview]; exact hget) (by rw [hstamp]; rfl)
    obtain ⟨blocks', hb', -, hiter, htail⟩ := hcur hvalid
    have hlen := htail (by rw [hstamp]; rfl)
    rw [hlen, hb'.tail, List.take_length] at hiter
    refine ⟨?_, hstamp, hlen, ?_⟩
    · rw [hiter, hb'.items]
    · rw [hk.bytes, hiter, hb'.bytes]
  · refine ⟨?_, rfl, rfl, rfl⟩
    rw [hb.items]
    exact congrArg (List.map item) (hiter hvalid)

theorem read_current_exact_opened : ∃ (w : World) (row : ProjectionRow) (σ : Snapshot),
    row.itemCount = 1 ∧ (readRow w.db row none w.frozen).1 = .ok σ ∧
      σ.fragments.iterFragments.map item = w.db.items row := by
  obtain ⟨events, w, row, hrun, hrow, hone⟩ := opened_valid
  obtain ⟨σ, hσ, hitems, -⟩ := read_current_exact hrun hrow none fun σ h => by cases h
  exact ⟨w, row, σ, hone, hσ, hitems⟩

end World

end Yuki.Projection
