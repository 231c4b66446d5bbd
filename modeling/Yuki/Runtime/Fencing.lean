import Yuki.Lib.Fencing
import Yuki.Runtime.Lease

/-! Fencing of activation leases: what every operation may do to a lease row, and
the mutual exclusion that follows for any interleaving. -/

namespace Yuki

/-- The database, the clock, and every lease handed out so far, newest first. -/
structure LeaseWorld where
  db : Db
  now : Time
  granted : List WorkLease

inductive LeaseOp
  | acquire (seen : Db) (seenAt : Time) (conversationId : String) (generation : Int)
      (seconds : Time) (owner : String)
  | acquireWorker (identity owner : String)
  | renew (seen : Db) (seenAt : Time) (lease : WorkLease) (seconds : Time)
  | release (seen : Db) (seenAt : Time) (lease : WorkLease)
  | cancelInSession (conversationId : String) (generation : Option Int)
  | bumpGeneration (conversationId : String)
  | stopOwnedExecution (identity : String) (reason : Option String)
  | tick

namespace LeaseOp

/-- The writer of an operation at time `now`, with the lease it hands out. -/
def exec (db : Db) (now : Time) : LeaseOp → Except Err (Db × Option WorkLease)
  | acquire seen seenAt conversationId generation seconds owner =>
    WorkRepository.acquire seen seenAt db now conversationId generation seconds owner
  | acquireWorker identity owner => SubagentRepository.acquire db now identity owner
  | renew seen seenAt lease seconds =>
    (WorkRepository.renew seen seenAt db now lease seconds).map fun r => (r.1, none)
  | release seen seenAt lease =>
    (WorkRepository.release seen seenAt db now lease).map fun r => (r.1, none)
  | cancelInSession conversationId generation =>
    .ok (WorkRepository.cancelInSession db now conversationId generation, none)
  | bumpGeneration conversationId =>
    (bumpCanonicalGeneration db now conversationId).map fun r => (r.1, none)
  | stopOwnedExecution identity reason => .ok (Yuki.stopOwnedExecution db now identity reason, none)
  | tick => .ok (db, none)

/-- The owner id an operation generates. -/
def newOwner : LeaseOp → Option String
  | acquire _ _ _ _ _ owner => some owner
  | acquireWorker _ owner => some owner
  | _ => none

end LeaseOp

/-- Committed work advances the world; an exception leaves everything but the clock. -/
def LeaseWorld.after (w : LeaseWorld) (now : Time) :
    Except Err (Db × Option WorkLease) → LeaseWorld
  | .ok (db, issued) => ⟨db, now, issued.toList ++ w.granted⟩
  | .error _ => { w with now := now }

def LeaseWorld.unused (w : LeaseWorld) (owner : String) : Prop :=
  (∀ l ∈ w.granted, l.owner ≠ owner) ∧ ∀ s ∈ w.db.scopes.rows, s.owner ≠ some owner

/-- One atomic operation at a clock that does not run backwards. -/
structure LeaseStep (w : LeaseWorld) (op : LeaseOp × Time) (w' : LeaseWorld) : Prop where
  clock : w.now ≤ op.2
  fresh : ∀ owner, op.1.newOwner = some owner → w.unused owner
  result : w' = w.after op.2 (op.1.exec w.db op.2)

/-- The fence of a lease row. -/
def Db.leaseFence (db : Db) : LeaseRow → Option Int
  | .scope c => (db.scopes.get? c).map ScopeRow.fence
  | .worker w => (db.children.get? w).map ChildRow.fence

def leaseFencing : Fencing LeaseWorld LeaseRow WorkLease where
  key := WorkLease.row
  token := WorkLease.fence
  issued := LeaseWorld.granted
  live w l := l.fenced w.db w.now = true

namespace WorkLease

theorem holdsScope_iff {l : WorkLease} {now : Time} {s : ScopeRow} :
    l.holdsScope now s = true ↔ s.conversationId = l.conversationId ∧
      s.generation = l.generation ∧ s.cancelEpoch = l.cancelEpoch ∧ s.fence = l.fence ∧
      s.owner = some l.owner ∧ now < s.leaseUntil := by
  simp [holdsScope]

theorem holdsChild_iff {l : WorkLease} {w : String} {db : Db} {now : Time} {c : ChildRow} :
    l.holdsChild w db now c = true ↔ c.workId = w ∧ c.cancelEpoch = l.cancelEpoch ∧
      c.fence = l.fence ∧ c.owner = some l.owner ∧ now < c.leaseUntil ∧ c.archivedAt = none ∧
      db.conversationGeneration l.conversationId = some l.generation := by
  simp [holdsChild]

theorem worker_eq_some {l : WorkLease} {w : String} :
    l.worker = some w ↔ l.workId = some w ∧ w ≠ "" := by
  simp [worker, Option.filter_eq_some_iff]

theorem worker_eq_none {l : WorkLease} :
    l.worker = none ↔ l.workId = none ∨ l.workId = some "" := by
  cases h : l.workId <;> simp [worker, h]

end WorkLease

/-- A scope row after one operation: its fence never falls, and no lease at or
below the old fence holds it again. -/
structure ScopeRow.Fades (now : Time) (s t : ScopeRow) : Prop where
  fence_le : s.fence ≤ t.fence
  back : ∀ l : WorkLease, l.fence ≤ s.fence → l.holdsScope now t → l.holdsScope now s

/-- The same for a worker row, whose cancel epoch alone may end a lease. -/
structure ChildRow.Fades (db : Db) (now : Time) (c d : ChildRow) : Prop where
  fence_le : c.fence ≤ d.fence
  epoch_le : c.cancelEpoch ≤ d.cancelEpoch
  back : ∀ (l : WorkLease) (w : String), l.fence ≤ c.fence → l.cancelEpoch ≤ c.cancelEpoch →
    l.holdsChild w db now d → l.holdsChild w db now c

theorem ScopeRow.Fades.refl (now : Time) (s : ScopeRow) : s.Fades now s :=
  ⟨le_refl _, fun _ _ h => h⟩

theorem ChildRow.Fades.refl (db : Db) (now : Time) (c : ChildRow) : c.Fades db now c :=
  ⟨le_refl _, le_refl _, fun _ _ _ _ h => h⟩

/-- What one operation does to the lease rows, and the lease it may hand out. -/
structure LeaseEffect (now : Time) (db db' : Db) (issued : Option WorkLease) : Prop where
  scope : ∀ k s, db.scopes.get? k = some s → ∃ t, db'.scopes.get? k = some t ∧ s.Fades now t
  child : ∀ k c, db.children.get? k = some c →
    ∃ d, db'.children.get? k = some d ∧ c.Fades db' now d
  generation : ∀ k g, db.conversationGeneration k = some g →
    ∃ g', db'.conversationGeneration k = some g' ∧ g ≤ g'
  owner : ∀ t ∈ db'.scopes.rows, ∀ o, t.owner = some o →
    (∃ s ∈ db.scopes.rows, s.owner = some o) ∨ ∃ l, issued = some l ∧ l.workId = none ∧ l.owner = o
  stands : ∀ l, issued = some l → db'.leaseFence l.row = some l.fence
  above : ∀ l, issued = some l → ∀ f, db.leaseFence l.row = some f → f < l.fence
  worker : ∀ l, issued = some l → ∀ w, l.workId = some w →
    db'.conversationGeneration l.conversationId = some l.generation ∧
      ∀ c, db'.children.get? w = some c → l.cancelEpoch ≤ c.cancelEpoch

/-- Operations that only rewrite rows in place and hand out nothing. -/
theorem LeaseEffect.of_map {now : Time} {db db' : Db} {φ : ScopeRow → ScopeRow}
    {ψ : ChildRow → ChildRow} {χ : ConversationRow → ConversationRow}
    (hs : ∀ k, db'.scopes.get? k = (db.scopes.get? k).map φ) (hφ : ∀ s : ScopeRow, s.Fades now (φ s))
    (ho : ∀ s o, (φ s).owner = some o → s.owner = some o)
    (hc : ∀ k, db'.children.get? k = (db.children.get? k).map ψ) (hψ : ∀ c : ChildRow, c.Fades db' now (ψ c))
    (hg : ∀ k, db'.conversations.get? k = (db.conversations.get? k).map χ)
    (hχ : ∀ c, c.generation ≤ (χ c).generation) : LeaseEffect now db db' none where
  scope k s h := ⟨φ s, by simp [hs, h], hφ s⟩
  child k c h := ⟨ψ c, by simp [hc, h], hψ c⟩
  generation k g h := by
    obtain ⟨c, hk, rfl⟩ := Option.map_eq_some_iff.mp h
    exact ⟨_, by simp [Db.conversationGeneration, hg, hk], hχ c⟩
  owner t ht o h := by
    have hk := Table.mem_rows.mp ht
    rw [hs, Option.map_eq_some_iff] at hk
    obtain ⟨s, hmem, rfl⟩ := hk
    exact .inl ⟨s, Table.get?_mem hmem, ho s o h⟩
  stands l h := by simp at h
  above l h := by simp at h
  worker l h := by simp at h

theorem ScopeRow.Fades.update {now : Time} {p : ScopeRow → Bool} {f : ScopeRow → ScopeRow}
    (h : ∀ s, p s = true → s.Fades now (f s)) (s : ScopeRow) :
    s.Fades now (if p s then f s else s) := by
  by_cases hp : p s = true
  · simpa [hp] using h s hp
  · simpa [hp] using ScopeRow.Fades.refl now s

theorem ChildRow.Fades.update {db : Db} {now : Time} {p : ChildRow → Bool}
    {f : ChildRow → ChildRow} (h : ∀ c, p c = true → c.Fades db now (f c)) (c : ChildRow) :
    c.Fades db now (if p c then f c else c) := by
  by_cases hp : p c = true
  · simpa [hp] using h c hp
  · simpa [hp] using ChildRow.Fades.refl db now c

theorem ScopeRow.fades_revoke (now : Time) (s : ScopeRow) (g : Int) :
    s.Fades now { s with cancelEpoch := s.cancelEpoch + 1, fence := s.fence + 1, owner := none,
                         leaseUntil := 0, generation := g } where
  fence_le := by simp
  back l _ h := by simp [WorkLease.holdsScope] at h

theorem ChildRow.fades_revoke (db : Db) (now : Time) (c : ChildRow) :
    c.Fades db now { c with owner := none, leaseUntil := 0, cancelEpoch := c.cancelEpoch + 1 } where
  fence_le := le_refl _
  epoch_le := by simp
  back l w _ _ h := by simp [WorkLease.holdsChild] at h

theorem ScopeRow.fades_seize {now : Time} (s : ScopeRow) (owner : String) (u : Time) :
    s.Fades now { s with owner := some owner, leaseUntil := u, fence := s.fence + 1 } where
  fence_le := by simp
  back l hl h := by
    have hf := (WorkLease.holdsScope_iff.mp h).2.2.2.1
    dsimp only at hf
    omega

theorem ChildRow.fades_seize {db : Db} {now : Time} (c : ChildRow) (owner : String) (u : Time) :
    c.Fades db now { c with owner := some owner, leaseUntil := u, fence := c.fence + 1 } where
  fence_le := by simp
  epoch_le := le_refl _
  back l w hl _ h := by
    have hf := (WorkLease.holdsChild_iff.mp h).2.2.1
    dsimp only at hf
    omega

theorem ScopeRow.fades_held {now : Time} {s : ScopeRow} {l₀ : WorkLease}
    (h₀ : l₀.holdsScope now s) {o : Option String} (ho : ∀ x, o = some x → s.owner = some x)
    (u : Time) : s.Fades now { s with owner := o, leaseUntil := u } where
  fence_le := le_refl _
  back l _ h := by
    obtain ⟨hk, hg, he, hf, hown, -⟩ := WorkLease.holdsScope_iff.mp h
    obtain ⟨-, -, -, -, -, hlt⟩ := WorkLease.holdsScope_iff.mp h₀
    exact WorkLease.holdsScope_iff.mpr ⟨hk, hg, he, hf, ho _ hown, hlt⟩

theorem ChildRow.fades_held {db db₀ : Db} {now : Time} {c : ChildRow} {l₀ : WorkLease} {w₀ : String}
    (h₀ : l₀.holdsChild w₀ db₀ now c) {o : Option String} (ho : ∀ x, o = some x → c.owner = some x)
    (u : Time) : c.Fades db now { c with owner := o, leaseUntil := u } where
  fence_le := le_refl _
  epoch_le := le_refl _
  back l w _ _ h := by
    obtain ⟨hk, he, hf, hown, -, ha, hg⟩ := WorkLease.holdsChild_iff.mp h
    obtain ⟨-, -, -, -, hlt, -, -⟩ := WorkLease.holdsChild_iff.mp h₀
    exact WorkLease.holdsChild_iff.mpr ⟨hk, he, hf, ho _ hown, hlt, ha, hg⟩

theorem LeaseEffect.refl (now : Time) (db : Db) : LeaseEffect now db db none :=
  .of_map (φ := id) (ψ := id) (χ := id) (by simp) (ScopeRow.Fades.refl now) (fun _ _ h => h)
    (by simp) (ChildRow.Fades.refl db now) (by simp) fun _ => le_refl _

/-- `renew` and `release` touch only a row whose lease is still live. -/
theorem LeaseEffect.setLease (db : Db) (l : WorkLease) (now : Time)
    {owner : Option String → Option String} (ho : ∀ o x, owner o = some x → o = some x)
    (u : Time) : LeaseEffect now db (db.setLease l now owner u) none := by
  unfold Db.setLease
  split
  · refine .of_map (φ := id) (χ := id) (by simp) (ScopeRow.Fades.refl now) (fun _ _ h => h)
      (Table.get?_update _ _ _ (by intro; rfl)) (ChildRow.Fades.update fun c hc => ?_) (by simp)
      fun _ => le_refl _
    exact ChildRow.fades_held hc (ho _) u
  · refine .of_map (ψ := id) (χ := id) (Table.get?_update _ _ _ (by intro; rfl))
      (ScopeRow.Fades.update fun s hs => ?_) (fun s o h => ?_) (by simp)
      (ChildRow.Fades.refl _ now) (by simp) fun _ => le_refl _
    · exact ScopeRow.fades_held hs (ho _) u
    · split at h
      · exact ho _ _ h
      · exact h

theorem LeaseEffect.cancelInSession (db : Db) (now : Time) (conversationId : String)
    (generation : Option Int) :
    LeaseEffect now db (WorkRepository.cancelInSession db now conversationId generation) none := by
  refine .of_map (χ := id) (Table.get?_update _ _ _ (by intro; rfl))
    (ScopeRow.Fades.update fun s _ => s.fades_revoke now _) (fun s o h => ?_)
    (Table.get?_update _ _ _ (by intro; rfl)) (ChildRow.Fades.update fun c _ => c.fades_revoke _ now)
    (by simp [WorkRepository.cancelInSession]) fun _ => le_refl _
  split at h
  · simp at h
  · exact h

theorem LeaseEffect.stopOwnedExecution (db : Db) (now : Time) (identity : String)
    (reason : Option String) :
    LeaseEffect now db (Yuki.stopOwnedExecution db now identity reason) none :=
  .of_map (φ := id) (χ := id) (by simp [Yuki.stopOwnedExecution]) (ScopeRow.Fades.refl now)
    (fun _ _ h => h) (Table.get?_update _ _ _ (by intro; rfl))
    (ChildRow.Fades.update fun c _ => c.fades_revoke _ now)
    (by simp [Yuki.stopOwnedExecution]) fun _ => le_refl _

theorem LeaseEffect.bumpGeneration {db db' : Db} {now : Time} {conversationId : String} {g : Int}
    (h : bumpCanonicalGeneration db now conversationId = .ok (db', g)) :
    LeaseEffect now db db' none := by
  unfold bumpCanonicalGeneration at h
  split at h
  · simp at h
  · simp only [Except.ok.injEq, Prod.mk.injEq] at h
    obtain ⟨rfl, -⟩ := h
    refine .of_map (Table.get?_update _ _ _ (by intro; rfl))
      (ScopeRow.Fades.update fun s _ => s.fades_revoke now _) (fun s o h => ?_)
      (Table.get?_update _ _ _ (by intro; rfl)) (ChildRow.Fades.update fun c _ => c.fades_revoke _ now)
      (Table.get?_update _ _ _ (by intro; rfl)) fun c => ?_
    · split at h
      · simp at h
      · exact h
    · split <;> simp

/-- A scope is taken anew only by inserting its row or by seizing an expired one. -/
theorem acquire_cases {seen db db' : Db} {seenAt now : Time} {conversationId owner : String}
    {generation : Int} {seconds : Time} {issued : Option WorkLease}
    (h : WorkRepository.acquire seen seenAt db now conversationId generation seconds owner =
      .ok (db', issued)) :
    (db' = db ∧ issued = none) ∨
    (db.scopes.get? conversationId = none ∧
      db' = { db with
        scopes := db.scopes.insert
          ⟨conversationId, generation, 0, 1, some owner, now + seconds⟩ } ∧
      issued = some ⟨conversationId, generation, 0, 1, owner, none⟩) ∨
    ∃ s, db.scopes.get? conversationId = some s ∧ s.leaseUntil ≤ now ∧
      db' = { db with
        scopes := db.scopes.update (fun t => t.conversationId = conversationId) fun t =>
          { t with owner := some owner, leaseUntil := now + seconds, fence := t.fence + 1 } } ∧
      issued = some ⟨conversationId, generation, s.cancelEpoch, s.fence + 1, owner, none⟩ := by
  unfold WorkRepository.acquire at h
  split at h
  · simp at h
  split at h
  · simp_all
  split at h
  · simp_all
  split at h
  · rename_i hk
    simp only [Except.ok.injEq, Prod.mk.injEq] at h
    exact .inr (.inl ⟨hk, h.1.symm, h.2.symm⟩)
  · rename_i s hk
    split at h
    · rename_i hs
      simp only [Except.ok.injEq, Prod.mk.injEq] at h
      exact .inr (.inr ⟨s, hk, hs.2, h.1.symm, h.2.symm⟩)
    · simp_all

theorem LeaseEffect.acquire {seen db db' : Db} {seenAt now : Time} {conversationId owner : String}
    {generation : Int} {seconds : Time} {issued : Option WorkLease}
    (h : WorkRepository.acquire seen seenAt db now conversationId generation seconds owner =
      .ok (db', issued)) : LeaseEffect now db db' issued := by
  rcases acquire_cases h with ⟨rfl, rfl⟩ | ⟨hk, rfl, rfl⟩ | ⟨s, hk, -, rfl, rfl⟩
  · exact .refl now db'
  · exact {
      scope := fun k s hs => ⟨s, Table.get?_insert_of_some hs, .refl now s⟩
      child := fun k c hc => ⟨c, hc, .refl _ now c⟩
      generation := fun k g hg => ⟨g, hg, le_refl g⟩
      owner := fun t ht o ho => by
        rcases Table.mem_insert.mp ht with ht | ⟨rfl, -⟩
        · exact .inl ⟨t, ht, ho⟩
        · exact .inr ⟨_, rfl, rfl, Option.some.inj ho⟩
      stands := fun l hl => by
        obtain rfl := Option.some.inj hl
        simp only [Db.leaseFence, WorkLease.row]
        rw [Table.get?_insert_self (by exact hk)]
        rfl
      above := fun l hl f hf => by
        obtain rfl := Option.some.inj hl
        simp [Db.leaseFence, WorkLease.row, hk] at hf
      worker := fun l hl w hw => by
        obtain rfl := Option.some.inj hl
        simp at hw }
  · exact {
      scope := fun k s hs => by
        rw [Table.get?_update, hs]
        refine ⟨_, rfl, ?_⟩
        dsimp only
        split
        · exact s.fades_seize owner _
        · exact .refl now s
      child := fun k c hc => ⟨c, hc, .refl _ now c⟩
      generation := fun k g hg => ⟨g, hg, le_refl g⟩
      owner := fun t ht o ho => by
        obtain ⟨r, hr, rfl⟩ := List.mem_map.mp ht
        split at ho
        · exact .inr ⟨_, rfl, rfl, Option.some.inj ho⟩
        · exact .inl ⟨r, hr, ho⟩
      stands := fun l hl => by
        obtain rfl := Option.some.inj hl
        simp [Db.leaseFence, WorkLease.row, hk, Table.get?_key hk]
      above := fun l hl f hf => by
        obtain rfl := Option.some.inj hl
        simp only [Db.leaseFence, WorkLease.row, hk, Option.map_some, Option.some.injEq] at hf
        simp only
        omega
      worker := fun l hl w hw => by
        obtain rfl := Option.some.inj hl
        simp at hw }

/-- A worker row is claimed only when its lease ran out and its Work is current. -/
theorem acquireWorker_cases {db db' : Db} {now : Time} {identity owner : String}
    {issued : Option WorkLease}
    (h : SubagentRepository.acquire db now identity owner = .ok (db', issued)) :
    (issued = none ∧ db'.scopes = db.scopes ∧ db'.children = db.children ∧
      db'.conversations = db.conversations) ∨
    ∃ row claimed, db.works.get? identity = some row ∧ db.children.get? identity = some claimed ∧
      db.conversationGeneration row.conversationId = some row.generation ∧
      claimed.leaseUntil ≤ now ∧ claimed.archivedAt = none ∧
      issued = some ⟨row.conversationId, row.generation, claimed.cancelEpoch, claimed.fence + 1, owner,
        some identity⟩ ∧
      db'.scopes = db.scopes ∧ db'.conversations = db.conversations ∧
      db'.children = db.children.update (fun c => c.workId = identity) fun c =>
        { c with owner := some owner, leaseUntil := now + 60, fence := c.fence + 1 } := by
  unfold SubagentRepository.acquire at h
  split at h
  · simp_all
  rename_i row hrow
  split at h
  · simp_all
  split at h
  · simp only [Except.ok.injEq, Prod.mk.injEq] at h
    obtain ⟨rfl, rfl⟩ := h
    exact .inl ⟨rfl, rfl, rfl, rfl⟩
  rename_i hg
  split at h
  · simp_all
  rename_i claimed hc
  split at h
  · rename_i hl
    simp only [Except.ok.injEq, Prod.mk.injEq] at h
    obtain ⟨rfl, rfl⟩ := h
    exact .inr ⟨row, claimed, hrow, hc, not_not.mp hg, hl.1, hl.2, rfl, rfl, rfl, rfl⟩
  · simp_all

theorem LeaseEffect.acquireWorker {db db' : Db} {now : Time} {identity owner : String}
    {issued : Option WorkLease}
    (h : SubagentRepository.acquire db now identity owner = .ok (db', issued)) :
    LeaseEffect now db db' issued := by
  rcases acquireWorker_cases h with ⟨rfl, hs, hc, hg⟩ |
    ⟨row, claimed, -, hk, hgen, -, -, rfl, hs, hg, hc⟩
  · exact .of_map (φ := id) (ψ := id) (χ := id) (by simp [hs]) (ScopeRow.Fades.refl now)
      (fun _ _ h => h) (by simp [hc]) (ChildRow.Fades.refl _ now) (by simp [hg]) fun _ => le_refl _
  · have hgk : ∀ k, db'.conversationGeneration k = db.conversationGeneration k := by
      simp [Db.conversationGeneration, hg]
    exact {
      scope := fun k s h => ⟨s, by rw [hs, h], .refl now s⟩
      child := fun k c h => by
        rw [hc, Table.get?_update, h]
        refine ⟨_, rfl, ?_⟩
        dsimp only
        split
        · exact c.fades_seize owner _
        · exact .refl _ now c
      generation := fun k g h => ⟨g, by rw [hgk, h], le_refl g⟩
      owner := fun t ht o ho => .inl ⟨t, hs ▸ ht, ho⟩
      stands := fun l hl => by
        obtain rfl := Option.some.inj hl
        simp [Db.leaseFence, WorkLease.row, hc, hk, Table.get?_key hk]
      above := fun l hl f hf => by
        obtain rfl := Option.some.inj hl
        simp only [Db.leaseFence, WorkLease.row, hk, Option.map_some, Option.some.injEq] at hf
        simp only
        omega
      worker := fun l hl w hw => by
        obtain rfl := Option.some.inj hl
        obtain rfl := Option.some.inj hw
        refine ⟨by rw [hgk, hgen], fun c h => ?_⟩
        rw [hc, Table.get?_update, hk] at h
        obtain rfl := Option.some.inj h
        simp [Table.get?_key hk] }

theorem LeaseOp.effect {op : LeaseOp} {db db' : Db} {now : Time} {issued : Option WorkLease}
    (h : op.exec db now = .ok (db', issued)) : LeaseEffect now db db' issued := by
  cases op with
  | acquire => exact .acquire h
  | acquireWorker => exact .acquireWorker h
  | renew seen seenAt lease seconds =>
    simp only [LeaseOp.exec, WorkRepository.renew] at h
    split at h
    · simp [Except.map] at h
    split at h
    · simp only [Except.map, Except.ok.injEq, Prod.mk.injEq] at h
      obtain ⟨rfl, rfl⟩ := h
      exact .refl now db
    · simp only [Except.map, Except.ok.injEq, Prod.mk.injEq] at h
      obtain ⟨rfl, rfl⟩ := h
      exact .setLease db lease now (fun _ _ h => h) _
  | release seen seenAt lease =>
    simp only [LeaseOp.exec, WorkRepository.release] at h
    split at h
    · simp only [Except.map, Except.ok.injEq, Prod.mk.injEq] at h
      obtain ⟨rfl, rfl⟩ := h
      exact .refl now db
    · simp only [Except.map, Except.ok.injEq, Prod.mk.injEq] at h
      obtain ⟨rfl, rfl⟩ := h
      exact .setLease db lease now (fun _ _ h => by simp at h) _
  | cancelInSession conversationId generation =>
    simp only [LeaseOp.exec, Except.ok.injEq, Prod.mk.injEq] at h
    obtain ⟨rfl, rfl⟩ := h
    exact .cancelInSession db now conversationId generation
  | bumpGeneration conversationId =>
    cases hb : bumpCanonicalGeneration db now conversationId with
    | error e => simp [LeaseOp.exec, hb, Except.map] at h
    | ok r =>
      simp only [LeaseOp.exec, hb, Except.map, Except.ok.injEq, Prod.mk.injEq] at h
      obtain ⟨rfl, rfl⟩ := h
      exact .bumpGeneration hb
  | stopOwnedExecution identity reason =>
    simp only [LeaseOp.exec, Except.ok.injEq, Prod.mk.injEq] at h
    obtain ⟨rfl, rfl⟩ := h
    exact .stopOwnedExecution db now identity reason
  | tick =>
    simp only [LeaseOp.exec, Except.ok.injEq, Prod.mk.injEq] at h
    obtain ⟨rfl, rfl⟩ := h
    exact .refl now db

/-- An owner id in a handed out lease is the one the operation generated. -/
theorem LeaseOp.issued_owner {op : LeaseOp} {db db' : Db} {now : Time} {l : WorkLease}
    (h : op.exec db now = .ok (db', some l)) : op.newOwner = some l.owner := by
  cases op with
  | acquire =>
    rcases acquire_cases h with ⟨-, hl⟩ | ⟨-, -, hl⟩ | ⟨s, -, -, -, hl⟩
    · simp at hl
    · obtain rfl := Option.some.inj hl
      rfl
    · obtain rfl := Option.some.inj hl
      rfl
  | acquireWorker =>
    rcases acquireWorker_cases h with ⟨hl, -⟩ | ⟨row, claimed, -, -, -, -, -, hl, -⟩
    · simp at hl
    · obtain rfl := Option.some.inj hl
      rfl
  | renew seen seenAt lease seconds =>
    cases hr : WorkRepository.renew seen seenAt db now lease seconds <;>
      simp [LeaseOp.exec, hr, Except.map] at h
  | release seen seenAt lease =>
    cases hr : WorkRepository.release seen seenAt db now lease <;>
      simp [LeaseOp.exec, hr, Except.map] at h
  | bumpGeneration conversationId =>
    cases hb : bumpCanonicalGeneration db now conversationId <;>
      simp [LeaseOp.exec, hb, Except.map] at h
  | cancelInSession => simp [LeaseOp.exec] at h
  | stopOwnedExecution => simp [LeaseOp.exec] at h
  | tick => simp [LeaseOp.exec] at h

theorem LeaseStep.effect {w w' : LeaseWorld} {op : LeaseOp × Time} (h : LeaseStep w op w') :
    ∃ issued, w'.granted = issued.toList ++ w.granted ∧ w'.now = op.2 ∧
      LeaseEffect op.2 w.db w'.db issued ∧
      ∀ l, issued = some l → op.1.newOwner = some l.owner := by
  rw [h.result]
  cases he : op.1.exec w.db op.2 with
  | error e => exact ⟨none, rfl, rfl, .refl _ _, by simp⟩
  | ok r =>
    obtain ⟨db', issued⟩ := r
    exact ⟨issued, rfl, rfl, LeaseOp.effect he, fun l hl => LeaseOp.issued_owner (hl ▸ he)⟩

/-- What holds of every lease handed out so far. -/
structure LeaseInv (w : LeaseWorld) : Prop where
  standing : ∀ l ∈ w.granted, ∃ f, w.db.leaseFence l.row = some f ∧ l.fence ≤ f
  worker : ∀ l ∈ w.granted, ∀ id, l.workId = some id →
    (∀ c, w.db.children.get? id = some c → l.cancelEpoch ≤ c.cancelEpoch) ∧
      ∃ g, w.db.conversationGeneration l.conversationId = some g ∧ l.generation ≤ g
  stray : ∀ l ∈ w.granted, l.workId = some "" → ∀ s ∈ w.db.scopes.rows, s.owner ≠ some l.owner
  ordered : leaseFencing.Ordered w

theorem LeaseEffect.leaseFence_le {now : Time} {db db' : Db} {issued : Option WorkLease}
    (h : LeaseEffect now db db' issued) {row : LeaseRow} {f : Int}
    (hf : db.leaseFence row = some f) : ∃ f', db'.leaseFence row = some f' ∧ f ≤ f' := by
  cases row with
  | scope c =>
    obtain ⟨s, hs, rfl⟩ := Option.map_eq_some_iff.mp hf
    obtain ⟨t, ht, hst⟩ := h.scope c s hs
    exact ⟨t.fence, by simp [Db.leaseFence, ht], hst.fence_le⟩
  | worker w =>
    obtain ⟨c, hc, rfl⟩ := Option.map_eq_some_iff.mp hf
    obtain ⟨d, hd, hcd⟩ := h.child w c hc
    exact ⟨d.fence, by simp [Db.leaseFence, hd], hcd.fence_le⟩

namespace LeaseInv

variable {w w' : LeaseWorld} {op : LeaseOp × Time}

/-- A lease taken on a scope names that scope's row. -/
theorem scope_row (hi : LeaseInv w) {l : WorkLease} (hl : l ∈ w.granted) (hw : l.workId = none) :
    ∃ s, w.db.scopes.get? l.conversationId = some s ∧ l.fence ≤ s.fence := by
  obtain ⟨f, hf, hle⟩ := hi.standing l hl
  simp only [WorkLease.row, hw] at hf
  obtain ⟨s, hs, rfl⟩ := Option.map_eq_some_iff.mp hf
  exact ⟨s, hs, hle⟩

theorem child_row (hi : LeaseInv w) {l : WorkLease} (hl : l ∈ w.granted) {id : String}
    (hw : l.workId = some id) : ∃ c, w.db.children.get? id = some c ∧ l.fence ≤ c.fence ∧
      l.cancelEpoch ≤ c.cancelEpoch := by
  obtain ⟨f, hf, hle⟩ := hi.standing l hl
  simp only [WorkLease.row, hw] at hf
  obtain ⟨c, hc, rfl⟩ := Option.map_eq_some_iff.mp hf
  exact ⟨c, hc, hle, (hi.worker l hl id hw).1 c hc⟩

/-- A lease under the empty id reads a scope row, whose owner is never its own. -/
theorem not_fenced_stray (hi : LeaseInv w) {l : WorkLease} (hl : l ∈ w.granted)
    (hw : l.workId = some "") (now : Time) : ¬ l.fenced w.db now = true := by
  intro h
  have hn : l.worker = none := WorkLease.worker_eq_none.mpr (.inr hw)
  simp only [WorkLease.fenced, hn, List.any_eq_true] at h
  obtain ⟨s, hs, hh⟩ := h
  exact hi.stray l hl hw s hs (WorkLease.holdsScope_iff.mp hh).2.2.2.2.1

/-- A live lease is the one its row stands at. -/
theorem leaseFence_of_live (hi : LeaseInv w) {l : WorkLease} (hl : l ∈ w.granted)
    (hv : l.fenced w.db w.now = true) : w.db.leaseFence l.row = some l.fence := by
  cases hw : l.worker with
  | some id =>
    simp only [WorkLease.fenced, hw, List.any_eq_true] at hv
    obtain ⟨c, hc, hh⟩ := hv
    obtain ⟨hk, -, hf, -⟩ := WorkLease.holdsChild_iff.mp hh
    have hg : w.db.children.get? id = some c := hk ▸ Table.mem_rows.mp hc
    simp [Db.leaseFence, WorkLease.row, (WorkLease.worker_eq_some.mp hw).1, hg, hf]
  | none =>
    rcases WorkLease.worker_eq_none.mp hw with hn | hn
    · simp only [WorkLease.fenced, hw, List.any_eq_true] at hv
      obtain ⟨s, hs, hh⟩ := hv
      obtain ⟨hk, -, -, hf, -⟩ := WorkLease.holdsScope_iff.mp hh
      have hg : w.db.scopes.get? l.conversationId = some s := hk ▸ Table.mem_rows.mp hs
      simp [Db.leaseFence, WorkLease.row, hn, hg, hf]
    · exact absurd hv (hi.not_fenced_stray hl hn w.now)

theorem current (hi : LeaseInv w) : leaseFencing.Current w := by
  intro l hl l' hl' hv hv' (hk : l.row = l'.row)
  have h := hi.leaseFence_of_live hl hv
  rw [hk, hi.leaseFence_of_live hl' hv'] at h
  exact (Option.some.inj h).symm

theorem init (h : w.granted = []) : LeaseInv w where
  standing := by simp [h]
  worker := by simp [h]
  stray := by simp [h]
  ordered := by simp [Fencing.Ordered, leaseFencing, h]

/-- A newly handed out lease stands above every earlier one of its row. -/
theorem above (hi : LeaseInv w) {now : Time} {db' : Db} {l l' : WorkLease}
    (he : LeaseEffect now w.db db' (some l)) (hl' : l' ∈ w.granted) (hk : l.row = l'.row) :
    l'.fence < l.fence := by
  obtain ⟨f, hf, hle⟩ := hi.standing l' hl'
  have := he.above l rfl f (hk ▸ hf)
  omega

theorem step (hi : LeaseInv w) (h : LeaseStep w op w') : LeaseInv w' := by
  obtain ⟨issued, hg, hnow, he, hown⟩ := h.effect
  have hmem : ∀ l ∈ w'.granted, issued = some l ∨ l ∈ w.granted := by
    intro l hl
    rw [hg, List.mem_append, Option.mem_toList] at hl
    exact hl
  constructor
  · intro l hl
    rcases hmem l hl with hnew | hold
    · exact ⟨l.fence, he.stands l hnew, le_refl _⟩
    · obtain ⟨f, hf, hle⟩ := hi.standing l hold
      obtain ⟨f', hf', hle'⟩ := he.leaseFence_le hf
      exact ⟨f', hf', le_trans hle hle'⟩
  · intro l hl id hw
    rcases hmem l hl with hnew | hold
    · obtain ⟨hgen, hc⟩ := he.worker l hnew id hw
      exact ⟨hc, l.generation, hgen, le_refl _⟩
    · obtain ⟨-, g, hgen, hle⟩ := hi.worker l hold id hw
      obtain ⟨c, hc, -, hepoch⟩ := hi.child_row hold hw
      obtain ⟨g', hgen', hle'⟩ := he.generation _ g hgen
      obtain ⟨d, hd, hcd⟩ := he.child id c hc
      refine ⟨fun d' hd' => ?_, g', hgen', le_trans hle hle'⟩
      obtain rfl := Option.some.inj (hd.symm.trans hd')
      exact le_trans hepoch hcd.epoch_le
  · intro l hl hw t ht ho
    rcases he.owner t ht l.owner ho with ⟨s, hs, hso⟩ | ⟨l', hl', hw', ho'⟩
    · rcases hmem l hl with hnew | hold
      · exact (h.fresh l.owner (hown l hnew)).2 s hs hso
      · exact hi.stray l hold hw s hs hso
    · rcases hmem l hl with hnew | hold
      · obtain rfl := Option.some.inj (hl'.symm.trans hnew)
        rw [hw'] at hw
        exact absurd hw (by simp)
      · exact (h.fresh l'.owner (hown l' hl')).1 l hold ho'.symm
  · cases issued with
    | none =>
      have hg' : w'.granted = w.granted := hg
      simpa [Fencing.Ordered, leaseFencing, hg'] using hi.ordered
    | some l =>
      have hg' : w'.granted = l :: w.granted := hg
      have ho : w.granted.Pairwise _ := hi.ordered
      simp only [Fencing.Ordered, leaseFencing, hg', List.pairwise_cons]
      exact ⟨fun l' hl' hk => hi.above he hl' hk, ho⟩

/-- No operation brings a dead lease back. -/
theorem fade (hi : LeaseInv w) (h : LeaseStep w op w') {l : WorkLease} (hl : l ∈ w.granted)
    (hv : l.fenced w'.db w'.now = true) : l.fenced w.db w.now = true := by
  have hi' := hi.step h
  obtain ⟨issued, hg, hnow, he, -⟩ := h.effect
  have hl' : l ∈ w'.granted := by simp [hg, hl]
  cases hw : l.worker with
  | some id =>
    have hid := (WorkLease.worker_eq_some.mp hw).1
    obtain ⟨c, hc, hf, hep⟩ := hi.child_row hl hid
    obtain ⟨d, hd, hcd⟩ := he.child id c hc
    simp only [WorkLease.fenced, hw, List.any_eq_true] at hv ⊢
    obtain ⟨d', hd', hh⟩ := hv
    have hk := (WorkLease.holdsChild_iff.mp hh).1
    obtain rfl : d' = d := Option.some.inj ((hk ▸ Table.mem_rows.mp hd').symm.trans hd)
    rw [hnow] at hh
    obtain ⟨hk, he', hf', ho, hlt, ha, hgen⟩ :=
      WorkLease.holdsChild_iff.mp (hcd.back l id hf hep hh)
    obtain ⟨-, g, hg₀, hle⟩ := hi.worker l hl id hid
    obtain ⟨g', hg', hle'⟩ := he.generation _ g hg₀
    have hgl : g' = l.generation := Option.some.inj (hg'.symm.trans hgen)
    refine ⟨c, Table.get?_mem hc, WorkLease.holdsChild_iff.mpr
      ⟨hk, he', hf', ho, lt_of_le_of_lt h.clock hlt, ha, ?_⟩⟩
    rw [hg₀, show g = l.generation by omega]
  | none =>
    rcases WorkLease.worker_eq_none.mp hw with hn | hn
    · obtain ⟨s, hs, hf⟩ := hi.scope_row hl hn
      obtain ⟨t, ht, hst⟩ := he.scope _ s hs
      simp only [WorkLease.fenced, hw, List.any_eq_true] at hv ⊢
      obtain ⟨t', ht', hh⟩ := hv
      have hk := (WorkLease.holdsScope_iff.mp hh).1
      obtain rfl : t' = t := Option.some.inj ((hk ▸ Table.mem_rows.mp ht').symm.trans ht)
      rw [hnow] at hh
      obtain ⟨hk, hgen, he', hf', ho, hlt⟩ := WorkLease.holdsScope_iff.mp (hst.back l hf hh)
      exact ⟨s, Table.get?_mem hs, WorkLease.holdsScope_iff.mpr
        ⟨hk, hgen, he', hf', ho, lt_of_le_of_lt h.clock hlt⟩⟩
    · exact absurd hv (hi'.not_fenced_stray hl' hn _)

theorem respects (hi : LeaseInv w) (h : LeaseStep w op w') : leaseFencing.Respects w w' where
  issue := by
    obtain ⟨issued, hg, -, he, -⟩ := h.effect
    cases issued with
    | none => exact .inl hg
    | some l => exact .inr ⟨l, hg, fun l' hl' hk => hi.above he hl' hk⟩
  fade l hl hv := hi.fade h hl hv

end LeaseInv

/-- The fence of a row never falls on a run. -/
theorem leaseFence_le_of_run {w w' : LeaseWorld} {ops : List (LeaseOp × Time)}
    (hr : Run LeaseStep w ops w') {row : LeaseRow} {f : Int} (hf : w.db.leaseFence row = some f) :
    ∃ f', w'.db.leaseFence row = some f' ∧ f ≤ f' := by
  induction hr generalizing f with
  | nil => exact ⟨f, hf, le_refl f⟩
  | cons hs _ ih =>
    obtain ⟨issued, -, -, he, -⟩ := hs.effect
    obtain ⟨f₁, hf₁, hle₁⟩ := he.leaseFence_le hf
    obtain ⟨f₂, hf₂, hle₂⟩ := ih hf₁
    exact ⟨f₂, hf₂, le_trans hle₁ hle₂⟩

/-- Lease fencing, for every interleaving of the lease operations and the two
cancellations: at most one lease handed out for a row is live and it carries the
row's fence, a dead lease is never revived, and fences only grow. -/
theorem lease_fencing {w₀ w : LeaseWorld} {ops : List (LeaseOp × Time)} (h₀ : w₀.granted = [])
    (hr : Run LeaseStep w₀ ops w) :
    (∀ row, w.granted.countP (fun l => l.row = row ∧ l.fenced w.db w.now = true) ≤ 1) ∧
    (∀ l ∈ w.granted, l.fenced w.db w.now = true → w.db.leaseFence l.row = some l.fence) ∧
    (∀ l ∈ w.granted, l.fenced w.db w.now = false → ∀ ops' w', Run LeaseStep w ops' w' →
      l.fenced w'.db w'.now = false) ∧
    (∀ row f, w.db.leaseFence row = some f → ∀ ops' w', Run LeaseStep w ops' w' →
      ∃ f', w'.db.leaseFence row = some f' ∧ f ≤ f') ∧
    ∀ op w' l, LeaseStep w op w' → op.1.exec w.db op.2 = .ok (w'.db, some l) →
      w'.granted = l :: w.granted ∧ w'.db.leaseFence l.row = some l.fence ∧
        ∀ l' ∈ w.granted, l'.row = l.row → l'.fence < l.fence := by
  have hi : LeaseInv w := hr.invariant (fun _ _ _ hi h => hi.step h) (.init h₀)
  refine ⟨fun row => ?_, fun l hl hv => hi.leaseFence_of_live hl hv, fun l hl hd ops' w' hr' => ?_,
    fun row f hf ops' w' hr' => leaseFence_le_of_run hr' hf, fun op w' l hs he => ?_⟩
  · exact hi.ordered.countP_live hi.current (k := row) fun l hl => by
      simpa [leaseFencing] using hl
  · have hstep (s : LeaseWorld) (e : LeaseOp × Time) (t : LeaseWorld) (hi : LeaseInv s)
        (h : LeaseStep s e t) : LeaseInv t ∧ leaseFencing.Respects s t :=
      ⟨hi.step h, hi.respects h⟩
    have hdead := Fencing.dead_forever hstep hr' hi hl (by simpa [leaseFencing] using hd)
    simpa [leaseFencing] using hdead
  · have hw := hs.result
    rw [he] at hw
    have heff := LeaseOp.effect he
    refine ⟨by rw [hw]; rfl, heff.stands l rfl, fun l' hl' hk => hi.above heff hl' hk.symm⟩

/-- A conversation whose scope is taken, left to expire and taken again. -/
theorem lease_fencing_reacquired :
    let w₀ : LeaseWorld := ⟨{ conversations := ⟨[{ id := "c", generation := 1 }], by decide⟩ }, 0, []⟩
    let first : LeaseOp × Time := (.acquire w₀.db 0 "c" 1 60 "a", 0)
    let w₁ := w₀.after first.2 (first.1.exec w₀.db first.2)
    let second : LeaseOp × Time := (.acquire w₁.db 70 "c" 1 60 "b", 70)
    let w₂ := w₁.after second.2 (second.1.exec w₁.db second.2)
    w₂.granted = [⟨"c", 1, 0, 2, "b", none⟩, ⟨"c", 1, 0, 1, "a", none⟩] ∧
      w₂.granted.countP (fun l => l.row = .scope "c" ∧ l.fenced w₂.db w₂.now = true) ≤ 1 := by
  intro w₀ first w₁ second w₂
  have h₁ : LeaseStep w₀ first w₁ :=
    ⟨le_refl _, fun owner ho => ⟨by simp [w₀], by simp [w₀, Table.empty]⟩, rfl⟩
  have h₂ : LeaseStep w₁ second w₂ := by
    refine ⟨by decide +kernel, fun owner ho => ?_, rfl⟩
    obtain rfl : "b" = owner := Option.some.inj ho
    exact ⟨by decide +kernel, by decide +kernel⟩
  exact ⟨by decide +kernel, (lease_fencing rfl (.cons h₁ (.single h₂))).1 (.scope "c")⟩

end Yuki
