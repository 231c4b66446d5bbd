import Yuki.Lib.Transition
import Yuki.Agents.Projection

/-! The stored receipt of an operation depends on the events received and on
nothing of their order, their batches, or their repetitions. -/

namespace Yuki.ExternalAgents

variable {keys : AgentKeys} {deviceId : String} {events : List WireEvent}

/-! The events of one operation. -/

/-- The number its connector gave the event. -/
def WireEvent.order (event : WireEvent) : Int :=
  match event.sequence with
  | some (.int n) => n
  | _ => 0

/-- The state has nothing pending. -/
def WireEvent.ended (event : WireEvent) : Prop :=
  event.state.get "pending" = .bool false

instance (event : WireEvent) : Decidable event.ended :=
  inferInstanceAs (Decidable (_ = _))

def finalStatuses : List Json :=
  [.str "completed", .str "succeeded", .str "cancelled", .str "interrupted", .str "failed",
    .str "detached"]

/-- The operation as it was dispatched. -/
def AgentOperation.original (row : AgentOperation) : AgentOperation :=
  { row with sessionId := none, nativeExecutionId := none, resultJson := none }

/-- The native names a row is bound to, or may still be. -/
structure Bound (keys : AgentKeys) (native execution : String) (row : AgentOperation) : Prop where
  session : row.sessionId = none ∨ row.sessionId = some (keys.session row.instanceId native)
  execution : row.sessionObservation = true ∨ row.nativeExecutionId = none ∨
    row.nativeExecutionId = some execution

/-- Connector events of one operation: each with its own identity and number, under one session
and one execution, and nothing pending in the last one at most. -/
structure Series (keys : AgentKeys) (deviceId : String) (row : AgentOperation)
    (native execution : String) (events : List WireEvent) : Prop where
  named : row.id ≠ ""
  own : ∀ e ∈ events, e.operationId = some row.id ∧
    keys.instanceOf deviceId e.instanceId = some row.instanceId ∧ e.kind ≠ "delta"
  ids : ∀ e ∈ events, ∀ e' ∈ events, e.eventId = e'.eventId → e = e'
  orders : ∀ e ∈ events, ∀ e' ∈ events, e.order = e'.order → e = e'
  valid : ∀ e ∈ events, (e.payload.getD (.obj [])).isObj = true ∧ e.state.isObj = true ∧
    e.sequence = some (.int e.order) ∧ e.state.get "state_sequence" = .int e.order
  session : ∀ e ∈ events, ∀ s, e.sessionId.getD .null = .str s ∨
    e.state.get "session_id" = .str s → s = native
  execution : ∀ e ∈ events, ∀ s, e.executionId.getD .null = .str s ∨
    e.state.get "execution_id" = .str s → s = execution
  last : ∀ e ∈ events, e.ended → e.state.get "status" ∈ finalStatuses ∧
    ∀ e' ∈ events, e'.order ≤ e.order

/-! The parts of one event. -/

theorem bindSession_ok {native execution : String} {row : AgentOperation} {s : Json}
    (hb : Bound keys native execution row) (hs : ∀ n, s = .str n → n = native) :
    ∃ row', bindSession keys row s = .ok row' ∧ Bound keys native execution row' ∧
      row'.original = row.original ∧ row'.resultJson = row.resultJson := by
  cases s with
  | str n =>
    obtain rfl := hs n rfl
    exact ⟨_, if_pos hb.session, ⟨Or.inr rfl, hb.execution⟩, rfl, rfl⟩
  | _ => exact ⟨row, rfl, hb, rfl, rfl⟩

theorem bindExecution_ok {native execution : String} {row : AgentOperation} {x : Json}
    (hb : Bound keys native execution row) (hx : ∀ n, x = .str n → n = execution) :
    ∃ row', bindExecution row x = .ok row' ∧ Bound keys native execution row' ∧
      row'.original = row.original ∧ row'.resultJson = row.resultJson := by
  cases x with
  | str n =>
    obtain rfl := hx n rfl
    by_cases ho : row.sessionObservation = true
    · exact ⟨row, if_pos ho, hb, rfl, rfl⟩
    · have hn := hb.execution.resolve_left ho
      exact ⟨_, (if_neg ho).trans (if_pos hn), ⟨hb.session, Or.inr (Or.inr rfl)⟩, rfl, rfl⟩
  | _ => exact ⟨row, rfl, hb, rfl, rfl⟩

theorem bindNative_ok {native execution : String} {row : AgentOperation} {s x : Json}
    (hb : Bound keys native execution row) (hs : ∀ n, s = .str n → n = native)
    (hx : ∀ n, x = .str n → n = execution) :
    ∃ row', bindNative keys row s x = .ok row' ∧ Bound keys native execution row' ∧
      row'.original = row.original ∧ row'.resultJson = row.resultJson := by
  obtain ⟨row₁, h₁, hb₁, ho₁, hr₁⟩ := bindSession_ok hb hs
  obtain ⟨row₂, h₂, hb₂, ho₂, hr₂⟩ := bindExecution_ok hb₁ hx
  exact ⟨row₂, bind_eq_ok.mpr ⟨row₁, h₁, h₂⟩, hb₂, ho₂.trans ho₁, hr₂.trans hr₁⟩

theorem rebind_ok {native execution : String} {row : AgentOperation} (event : WireEvent)
    (hb : Bound keys native execution row)
    (hs : ∀ n, event.state.get "session_id" = .str n → n = native)
    (hx : ∀ n, event.state.get "execution_id" = .str n → n = execution) :
    ∃ row', rebind keys row event = .ok row' ∧ Bound keys native execution row' ∧
      row'.original = row.original ∧ row'.resultJson = row.resultJson := by
  unfold rebind
  split
  · exact bindNative_ok hb hs hx
  · exact ⟨row, rfl, hb, rfl, rfl⟩

theorem completionStatus_of_final {payload : Json} (h : payload.get "status" ∈ finalStatuses) :
    ∃ status, completionStatus payload = some status := by
  unfold completionStatus
  simp only [finalStatuses, List.mem_cons, List.not_mem_nil, or_false] at h
  rcases h with h | h | h | h | h | h
  · exact ⟨_, by rw [h]; rfl⟩
  · exact ⟨_, by rw [h]; rfl⟩
  · exact ⟨_, by rw [h]; rfl⟩
  · exact ⟨_, by rw [h]; rfl⟩
  · exact ⟨"failed", by simp [h]⟩
  · by_cases herror : (payload.get "error").truthy = true
    · exact ⟨"failed", by simp [h, herror]⟩
    · exact ⟨"succeeded", by simp [h, herror]⟩

/-! The tables of one operation. -/

/-- The run of an operation and its continuation, before and after the last receipt. -/
structure RunOf (store : AgentStore) (id : String) (ended : Prop) : Prop where
  run : ∃ run, store.runs.get? id = some run ∧ (run.status = .completed ↔ ended)
  ready : ended → store.continuations.get? id = some ⟨id, .ready, 0⟩
  none : ¬ ended → store.continuations.get? id = none

/-- A receipt that is not newer, or comes after the last one, changes nothing. -/
theorem project_stale {store : AgentStore} {row : AgentOperation} {result : Json}
    (h : row.previous.get "pending" = .bool false ∨ superseded row.previous result = true) :
    project keys store row result = .ok (store, row) := by
  unfold project
  rcases h with h | h
  · rw [if_pos (Or.inr h)]
  · by_cases hover : row.detachedAt.isSome = true ∨ row.previous.get "pending" = .bool false
    · rw [if_pos hover]
    · rw [if_neg hover, if_pos h]

/-- A newer receipt is stored, and completes the run where nothing is pending. -/
theorem project_newer (keys : AgentKeys) {store : AgentStore} (row : AgentOperation) {result : Json}
    (hopen : row.detachedAt = none) (hrunId : row.runId.getD "" ≠ "")
    (hprevious : row.previous.get "pending" ≠ .bool false)
    (hseq : superseded row.previous result = false) (hrun : RunOf store row.id False)
    (hfinal : result.get "pending" = .bool false → result.get "status" ∈ finalStatuses) :
    ∃ store', project keys store row result = .ok (store', { row with resultJson := some result }) ∧
      store'.operations = store.operations ∧ store'.events = store.events ∧
      store'.inputs = store.inputs ∧ RunOf store' row.id (result.get "pending" = .bool false) := by
  obtain ⟨run, hget, hstatus⟩ := hrun.run
  have hwaiting : run.status = .waiting := by
    cases hs : run.status with
    | waiting => rfl
    | completed => exact absurd (hstatus.mp hs) id
  have hid : run.requestId = row.id := (Table.get?_eq_some.mp hget).2
  unfold project
  rw [if_neg (by simp [hopen, hprevious]), if_neg (by simp [hseq]), if_neg hrunId]
  generalize hs₁ : { store with
    runs := store.runs.update
      (fun run => decide (run.requestId = row.id ∧ run.status = TaskRunStatus.waiting))
      fun run => { run with progress := row.sessionId } } = store₁
  have hget₁ : store₁.runs.get? row.id = some { run with progress := row.sessionId } := by
    rw [← hs₁, Table.get?_update, hget]
    simp [hid, hwaiting]
  have hnone : store₁.continuations.get? row.id = none := by
    rw [← hs₁]
    exact hrun.none id
  by_cases hp : result.get "pending" = .bool false
  · obtain ⟨status, hs⟩ := completionStatus_of_final (hfinal hp)
    have hcomplete : completeRun keys store₁ { row with resultJson := some result } result =
        .ok { store₁ with
          runs := store₁.runs.update (fun run => decide (run.requestId = row.id)) fun run =>
            { run with
              status := .completed
              completion := some
                (completionJson keys { row with resultJson := some result } result status) }
          continuations := store₁.continuations.insert ⟨row.id, .ready, 0⟩ } := by
      unfold completeRun
      simp only [hs, hget₁]
      rw [if_neg (by rw [hwaiting]; decide), if_neg (by simp [hnone])]
    simp only [if_pos hp, hcomplete]
    refine ⟨_, rfl, ?_, ?_, ?_, ⟨?_, fun _ => ?_, fun hn => absurd hp hn⟩⟩
    · rw [← hs₁]
    · rw [← hs₁]
    · rw [← hs₁]
    · rw [Table.get?_update, hget₁]
      exact ⟨_, rfl, by simp [hid, hp]⟩
    · exact Table.get?_insert_self hnone
  · simp only [if_neg hp]
    refine ⟨store₁, rfl, ?_, ?_, ?_, ⟨_, hget₁, ?_⟩, fun h => absurd h hp, fun _ => hnone⟩
    · rw [← hs₁]
    · rw [← hs₁]
    · rw [← hs₁]
    · simp [hwaiting, hp]

/-! What the events received so far have left. -/

/-- The stored receipt is the state with the greatest number. -/
def Stored (received : List WireEvent) (result : Option Json) : Prop :=
  received = [] ∧ result = none ∨
    ∃ d ∈ received, result = some d.state ∧ ∀ e ∈ received, e.order ≤ d.order

/-- The input of an event. -/
def inputKey (id : String) (event : WireEvent) : String :=
  "external-agent:" ++ event.eventId ++ ":" ++ id

structure Received (keys : AgentKeys) (deviceId : String) (dispatched : AgentOperation)
    (native execution : String) (before : List AgentInput) (events received : List WireEvent)
    (store : AgentStore) : Prop where
  subset : ∀ d ∈ received, d ∈ events
  row : ∃ row, store.operations.get? dispatched.id = some row ∧
    row.original = dispatched.original ∧ Bound keys native execution row ∧
    Stored received row.resultJson
  events : ∀ e ∈ events, store.events.get? (deviceId, e.eventId) =
    if e ∈ received then some ⟨deviceId, some dispatched.id, e.encode⟩ else none
  run : RunOf store dispatched.id (∃ d ∈ received, d.ended)
  inputs : ∀ i ∈ store.inputs.rows, i ∈ before ∨
    ∃ d ∈ received, ¬ d.ended ∧ i.event = d ∧ i.sourceKey = inputKey dispatched.id d

section

variable {dispatched : AgentOperation} {native execution : String} {before : List AgentInput}
  {received : List WireEvent} {store store' : AgentStore} {e : WireEvent}

theorem Received.congr {received' : List WireEvent}
    (h : Received keys deviceId dispatched native execution before events received store)
    (hmem : ∀ d, d ∈ received' ↔ d ∈ received) :
    Received keys deviceId dispatched native execution before events received' store := by
  have hover : (∃ d ∈ received', d.ended) ↔ ∃ d ∈ received, d.ended := by simp only [hmem]
  obtain ⟨row, hrow, ho, hb, hs⟩ := h.row
  refine ⟨fun d hd => h.subset d ((hmem d).mp hd), ⟨row, hrow, ho, hb, ?_⟩, ?_, ?_, ?_⟩
  · rcases hs with ⟨rfl, hn⟩ | ⟨d, hd, hr, hmax⟩
    · exact Or.inl ⟨List.eq_nil_iff_forall_not_mem.mpr fun d hd =>
        List.not_mem_nil ((hmem d).mp hd), hn⟩
    · exact Or.inr ⟨d, (hmem d).mpr hd, hr, fun e he => hmax e ((hmem e).mp he)⟩
  · simp only [hmem]
    exact h.events
  · rw [hover]
    exact h.run
  · simp only [hmem]
    exact h.inputs

theorem sameFact_encode (e : WireEvent) : sameFact e.encode e = true := by
  simp [sameFact]

/-- What the stored receipt says about a further event. -/
theorem Series.superseded (hser : Series keys deviceId dispatched native execution events)
    (hsub : ∀ d ∈ received, d ∈ events) (he : e ∈ events) (hnew : e ∉ received)
    {row : AgentOperation} (hs : Stored received row.resultJson) :
    (row.previous.get "pending" = .bool false ↔ ∃ d ∈ received, d.ended) ∧
      (superseded row.previous e.state = true ↔ ∃ d ∈ received, e.order ≤ d.order) := by
  rcases hs with ⟨rfl, hn⟩ | ⟨d, hd, hr, hmax⟩
  · have hp : row.previous = .obj [] := by rw [AgentOperation.previous, hn]; rfl
    rw [hp]
    refine ⟨iff_of_false (by decide) (by simp), iff_of_false ?_ (by simp)⟩
    simp [ExternalAgents.superseded]
  · have hp : row.previous = d.state := by rw [AgentOperation.previous, hr]; rfl
    have hseq : ∀ e ∈ events, e.state.get? "state_sequence" = some (.int e.order) := by
      intro e he
      have hv := (hser.valid e he).2.2.2
      cases hg : e.state.get? "state_sequence" with
      | none =>
        rw [Json.get_eq, hg] at hv
        cases hv
      | some v =>
        rw [Json.get_eq, hg] at hv
        exact congrArg some hv
    rw [hp]
    constructor
    · constructor
      · exact fun h => ⟨d, hd, h⟩
      · rintro ⟨d', hd', hover⟩
        have hle := (hser.last d' (hsub d' hd') hover).2 d (hsub d hd)
        obtain rfl := hser.orders d (hsub d hd) d' (hsub d' hd') (by
          have hge := hmax d' hd'
          omega)
        exact hover
    · have hsup : ExternalAgents.superseded d.state e.state = decide (e.order ≤ d.order) := by
        unfold ExternalAgents.superseded
        rw [hseq d (hsub d hd), Json.getD_eq, hseq e he]
        rfl
      rw [hsup, decide_eq_true_eq]
      constructor
      · exact fun h => ⟨d, hd, h⟩
      · rintro ⟨d', hd', hle⟩
        have hge := hmax d' hd'
        omega

theorem namedOperation_some {id : String} (hid : id ≠ "") {row : AgentOperation}
    (h : store.operations.get? id = some row) : namedOperation store (some id) = .ok (some row) := by
  unfold namedOperation
  split
  · rename_i hn
    cases hn
  · rename_i hn
    exact absurd (Option.some.inj hn) hid
  · rename_i id' _ hn
    obtain rfl := Option.some.inj hn
    rw [h]
    rfl

theorem original_field {row : AgentOperation} (ho : row.original = dispatched.original) :
    row.id = dispatched.id ∧ row.instanceId = dispatched.instanceId ∧
      row.runId = dispatched.runId ∧ row.detachedAt = dispatched.detachedAt := by
  have hid : row.original.id = dispatched.original.id := by rw [ho]
  have hinstance : row.original.instanceId = dispatched.original.instanceId := by rw [ho]
  have hrunId : row.original.runId = dispatched.original.runId := by rw [ho]
  have hdetached : row.original.detachedAt = dispatched.original.detachedAt := by rw [ho]
  exact ⟨hid, hinstance, hrunId, hdetached⟩

theorem get?_save (row : AgentOperation) {row' : AgentOperation} (h : store.operations.get? row'.id = some row) :
    (store.save row').operations.get? row'.id = some row' := by
  have hid : row.id = row'.id := (Table.get?_eq_some.mp h).2
  simp [AgentStore.save, h, hid]

/-- The projection of an event, stale or newer, and what it leaves. -/
theorem project_received
    (hser : Series keys deviceId dispatched native execution events)
    (hopen : dispatched.detachedAt = none) (hrunId : dispatched.runId.getD "" ≠ "")
    (hsubset : ∀ d ∈ received, d ∈ events) (he : e ∈ events) (hnew : e ∉ received)
    {row₂ : AgentOperation} (ho' : row₂.original = dispatched.original)
    (hb₂ : Bound keys native execution row₂) (hs' : Stored received row₂.resultJson)
    (hrun : RunOf store dispatched.id (∃ d ∈ received, d.ended)) :
    ∃ store₂ row₃, project keys store row₂ e.state = .ok (store₂, row₃) ∧
      store₂.operations = store.operations ∧ store₂.events = store.events ∧
      store₂.inputs = store.inputs ∧ RunOf store₂ dispatched.id (∃ d ∈ e :: received, d.ended) ∧
      (∀ run, store.runs.get? dispatched.id = some run → run.status = .completed →
        store₂.runs.get? dispatched.id = some run) ∧
      row₃.original = dispatched.original ∧ Bound keys native execution row₃ ∧
      Stored (e :: received) row₃.resultJson := by
  obtain ⟨hid, -, hrid, hdet⟩ := original_field ho'
  obtain ⟨hover, hsup⟩ := hser.superseded hsubset he hnew hs'
  by_cases hstale : row₂.previous.get "pending" = .bool false ∨
      superseded row₂.previous e.state = true
  · have hlow : ∃ d ∈ received, e.order ≤ d.order := by
      rcases hstale with hp | hp
      · obtain ⟨d, hd, hdover⟩ := hover.mp hp
        exact ⟨d, hd, (hser.last d (hsubset d hd) hdover).2 e he⟩
      · exact hsup.mp hp
    have hnotover : e.ended → ∃ d ∈ received, d.ended := by
      intro heover
      obtain ⟨d, hd, hle⟩ := hlow
      have hge := (hser.last e he heover).2 d (hsubset d hd)
      obtain rfl := hser.orders e he d (hsubset d hd) (by omega)
      exact absurd hd hnew
    have hiff : (∃ d ∈ e :: received, d.ended) ↔ ∃ d ∈ received, d.ended := by
      simp only [List.mem_cons, exists_eq_or_imp]
      exact or_iff_right_of_imp hnotover
    refine ⟨store, row₂, project_stale hstale, rfl, rfl, rfl, by rw [hiff]; exact hrun,
      fun run hget _ => hget, ho', hb₂, ?_⟩
    rcases hs' with ⟨rfl, -⟩ | ⟨d, hd, hres, hmax⟩
    · obtain ⟨d, hd, -⟩ := hlow
      cases hd
    · refine Or.inr ⟨d, List.mem_cons_of_mem _ hd, hres, fun e' he' => ?_⟩
      rcases List.mem_cons.mp he' with rfl | he'
      · obtain ⟨d', hd', hle⟩ := hlow
        have hge := hmax d' hd'
        omega
      · exact hmax e' he'
  · obtain ⟨hp, hq⟩ := not_or.mp hstale
    have hnone : ¬ ∃ d ∈ received, d.ended := fun hh => hp (hover.mpr hh)
    have hrun' : RunOf store row₂.id False := by
      rw [hid]
      have hf : (∃ d ∈ received, d.ended) ↔ False := iff_of_false hnone id
      rw [← hf]
      exact hrun
    obtain ⟨store₂, hproject, hops₂, hev₂, hin₂, hrun₂⟩ := project_newer keys row₂
      (by rw [hdet, hopen]) (by rw [hrid]; exact hrunId) hp
      (Bool.eq_false_iff.mpr hq) hrun' fun hh => (hser.last e he hh).1
    have hiff : (∃ d ∈ e :: received, d.ended) ↔ e.state.get "pending" = .bool false := by
      simp only [List.mem_cons, exists_eq_or_imp]
      exact or_iff_left hnone
    refine ⟨store₂, _, hproject, hops₂, hev₂, hin₂, ?_, fun run hget hdone => ?_, ho',
      ⟨hb₂.session, hb₂.execution⟩, Or.inr ⟨e, List.mem_cons_self, rfl, fun e' he' => ?_⟩⟩
    · rw [hiff, ← hid]
      exact hrun₂
    · obtain ⟨run', hget', hiff'⟩ := hrun'.run
      rw [hid, hget] at hget'
      obtain rfl := Option.some.inj hget'
      exact absurd (hiff'.mp hdone) id
    · rcases List.mem_cons.mp he' with rfl | he'
      · exact Int.le_refl _
      · have hlt : ¬ e.order ≤ e'.order := fun hle => hq (hsup.mpr ⟨e', he', hle⟩)
        omega

/-- A new event of the series moves the stored receipt as its number and state say. -/
theorem Received.applyEvent (live : String → Bool)
    (hser : Series keys deviceId dispatched native execution events)
    (hopen : dispatched.detachedAt = none) (hrunId : dispatched.runId.getD "" ≠ "")
    (h : Received keys deviceId dispatched native execution before events received store)
    (he : e ∈ events) (hnew : e ∉ received) {row : AgentOperation}
    (hrow : store.operations.get? dispatched.id = some row) :
    ∃ store', applyEvent keys live { store with
        events := store.events.insert ⟨deviceId, some dispatched.id, e.encode⟩ } row e = .ok store' ∧
      Received keys deviceId dispatched native execution before events (e :: received) store' ∧
      ∀ run, store.runs.get? dispatched.id = some run → run.status = .completed →
        store'.runs.get? dispatched.id = some run := by
  obtain ⟨row₀, hrow₀, ho, hb, hs⟩ := h.row
  obtain rfl := Option.some.inj (hrow.symm.trans hrow₀)
  obtain ⟨hv₁, hv₂, hv₃, hv₄⟩ := hser.valid e he
  have hvalid : e.valid = true := by simp [WireEvent.valid, hv₁, hv₂, hv₃, hv₄]
  obtain ⟨row₁, h₁, hb₁, ho₁, hr₁⟩ := bindNative_ok hb
    (fun n hn => hser.session e he n (Or.inl hn)) (fun n hn => hser.execution e he n (Or.inl hn))
  obtain ⟨row₂, h₂, hb₂, ho₂, hr₂⟩ := rebind_ok e hb₁
    (fun n hn => hser.session e he n (Or.inr hn)) (fun n hn => hser.execution e he n (Or.inr hn))
  have ho' := ho₂.trans (ho₁.trans ho)
  have hr' : row₂.resultJson = row.resultJson := hr₂.trans hr₁
  have hs' : Stored received row₂.resultJson := hr' ▸ hs
  generalize hstore : { store with
    events := store.events.insert ⟨deviceId, some dispatched.id, e.encode⟩ } = store₁
  have hevents : ∀ e' ∈ events, store₁.events.get? (deviceId, e'.eventId) =
      if e' ∈ e :: received then some ⟨deviceId, some dispatched.id, e'.encode⟩ else none := by
    intro e' he'
    rw [← hstore, Table.get?_insert, h.events e' he']
    by_cases hm : e' ∈ received
    · simp [hm]
    · by_cases heq : e' = e
      · subst heq
        simp [hm, WireEvent.encode]
      · have hne : e.eventId ≠ e'.eventId := fun hh => heq (hser.ids e he e' he' hh).symm
        simp [hm, heq, WireEvent.encode, hne]
  have hops : store₁.operations = store.operations := by rw [← hstore]
  have hruns : store₁.runs = store.runs := by rw [← hstore]
  have hrun₁ : RunOf store₁ dispatched.id (∃ d ∈ received, d.ended) := by
    have hr := h.run
    rw [← hstore]
    exact ⟨hr.run, hr.ready, hr.none⟩
  have hinputs : store₁.inputs = store.inputs := by rw [← hstore]
  obtain ⟨store₂, row₃, hproject, hops₂, hevents₂, hinputs₂, hrun₂, hkeep, ho₃, hb₃, hs₃⟩ :=
    project_received hser hopen hrunId h.subset he hnew ho' hb₂ hs' hrun₁
  rw [hruns] at hkeep
  have hid₃ := (original_field ho₃).1
  have hrow₃ : (store₂.save row₃).operations.get? dispatched.id = some row₃ := by
    rw [← hid₃]
    exact get?_save row (by rw [hid₃, hops₂, hops, hrow])
  have hold : ∀ i ∈ (store₂.save row₃).inputs.rows, i ∈ before ∨
      ∃ d ∈ e :: received, ¬ d.ended ∧ i.event = d ∧ i.sourceKey = inputKey dispatched.id d := by
    intro i hi
    have hi : i ∈ store.inputs.rows := by
      rw [← hinputs, ← hinputs₂]
      exact hi
    rcases h.inputs i hi with hb | ⟨d, hd, hh⟩
    · exact Or.inl hb
    · exact Or.inr ⟨d, List.mem_cons_of_mem _ hd, hh⟩
  have hreceived : ∀ inputs : Table AgentInput.sourceKey,
      (∀ i ∈ inputs.rows, i ∈ (store₂.save row₃).inputs.rows ∨ ¬ e.ended ∧ i.event = e ∧
        i.sourceKey = inputKey dispatched.id e) →
      Received keys deviceId dispatched native execution before events (e :: received)
        { store₂.save row₃ with inputs := inputs } := by
    intro inputs hin
    refine ⟨fun d hd => ?_, ⟨row₃, hrow₃, ho₃, hb₃, hs₃⟩, fun e' he' => ?_, ?_, fun i hi => ?_⟩
    · rcases List.mem_cons.mp hd with rfl | hd
      · exact he
      · exact h.subset d hd
    · show store₂.events.get? _ = _
      rw [hevents₂]
      exact hevents e' he'
    · exact ⟨hrun₂.run, hrun₂.ready, hrun₂.none⟩
    · rcases hin i hi with hi | hi
      · exact hold i hi
      · exact Or.inr ⟨e, List.mem_cons_self, hi⟩
  unfold ExternalAgents.applyEvent
  simp only [bind_eq_ok, require_eq_ok]
  by_cases hsend : e.state.get "pending" ≠ .bool false ∧
      (!decide (row.previous.get "pending" = .bool false)) = true ∧ live row₃.id = true
  · refine ⟨addInput (store₂.save row₃) row₃ e, ⟨(), hvalid, row₁, h₁, row₂, h₂, (store₂, row₃),
      hproject, if_pos hsend⟩, ?_, ?_⟩
    · unfold addInput
      cases row₃.workId with
      | none => exact hreceived _ fun i hi => Or.inl hi
      | some workId =>
        refine hreceived _ fun i hi => ?_
        rcases Table.mem_insert.mp hi with hi | ⟨rfl, -⟩
        · exact Or.inl hi
        · refine Or.inr ⟨hsend.1, rfl, ?_⟩
          rw [← hid₃]
          rfl
    · unfold addInput
      cases row₃.workId with
      | none => exact hkeep
      | some workId => exact hkeep
  · exact ⟨store₂.save row₃, ⟨(), hvalid, row₁, h₁, row₂, h₂, (store₂, row₃), hproject,
      if_neg hsend⟩, hreceived _ fun i hi => Or.inl hi, hkeep⟩

/-- One event of the series, new or repeated. -/
theorem Received.receiveEvent (live : String → Bool)
    (hser : Series keys deviceId dispatched native execution events)
    (hopen : dispatched.detachedAt = none) (hrunId : dispatched.runId.getD "" ≠ "")
    (h : Received keys deviceId dispatched native execution before events received store)
    (he : e ∈ events) :
    ∃ store', receiveEvent keys deviceId live store e = .ok store' ∧
      Received keys deviceId dispatched native execution before events (e :: received) store' ∧
      ∀ run, store.runs.get? dispatched.id = some run → run.status = .completed →
        store'.runs.get? dispatched.id = some run := by
  obtain ⟨hop, hinstance, -⟩ := hser.own e he
  obtain ⟨row, hrow, ho, -⟩ := h.row
  obtain ⟨hid, hin, -, hdet⟩ := original_field ho
  have hnamed := namedOperation_some hser.named hrow
  have hsame : ∀ r ∈ some row, r.instanceId = dispatched.instanceId := by
    intro r hr
    obtain rfl := Option.mem_some.mp hr
    exact hin
  have hevent := h.events e he
  unfold ExternalAgents.receiveEvent
  rw [hop]
  simp only [bind_eq_ok, expect_eq_ok, require_eq_ok, hinstance, hnamed]
  by_cases hm : e ∈ received
  · rw [if_pos hm] at hevent
    refine ⟨store, ⟨dispatched.instanceId, rfl, some row, rfl, (), hsame, ?_⟩,
      h.congr fun d => ?_, fun _ hget _ => hget⟩
    · rw [hevent]
      exact bind_eq_ok.mpr ⟨(), require_eq_ok.mpr (sameFact_encode e), rfl⟩
    · rw [List.mem_cons]
      exact or_iff_right_of_imp fun hh => hh ▸ hm
  · rw [if_neg hm] at hevent
    obtain ⟨store', happly, hrec, hkeep⟩ := h.applyEvent live hser hopen hrunId he hm hrow
    refine ⟨store', ⟨dispatched.instanceId, rfl, some row, rfl, (), hsame, ?_⟩, hrec, hkeep⟩
    rw [hevent]
    simp only [hdet, hopen, Option.isSome_none, Bool.false_eq_true, if_false, Option.map_some, hid]
    exact happly

theorem Received.foldlM (live : String → Bool)
    (hser : Series keys deviceId dispatched native execution events)
    (hopen : dispatched.detachedAt = none) (hrunId : dispatched.runId.getD "" ≠ "")
    (h : Received keys deviceId dispatched native execution before events received store)
    {batch : List WireEvent} (hbatch : ∀ e ∈ batch, e ∈ events) :
    ∃ store', batch.foldlM (ExternalAgents.receiveEvent keys deviceId live) store = .ok store' ∧
      Received keys deviceId dispatched native execution before events (batch ++ received) store' ∧
      ∀ run, store.runs.get? dispatched.id = some run → run.status = .completed →
        store'.runs.get? dispatched.id = some run := by
  induction batch generalizing store received with
  | nil => exact ⟨store, rfl, h, fun _ hget _ => hget⟩
  | cons e batch ih =>
    obtain ⟨store₁, h₁, hrec₁, hkeep₁⟩ :=
      h.receiveEvent live hser hopen hrunId (hbatch e List.mem_cons_self)
    obtain ⟨store₂, h₂, hrec₂, hkeep₂⟩ :=
      ih hrec₁ fun e' he' => hbatch e' (List.mem_cons_of_mem _ he')
    refine ⟨store₂, ?_, hrec₂.congr fun d => ?_, fun run hget hdone =>
      hkeep₂ run (hkeep₁ run hget hdone) hdone⟩
    · rw [List.foldlM_cons]
      exact bind_eq_ok.mpr ⟨store₁, h₁, h₂⟩
    · simp only [List.cons_append, List.mem_cons, List.mem_append]
      tauto

end

/-! Runs. -/

section

variable {dispatched : AgentOperation} {native execution : String} {before : List AgentInput}
  {received : List WireEvent} {store store' : AgentStore}

/-- The events that the calls of a run deliver. -/
def delivered (ds : List Delivery) : List WireEvent :=
  (ds.filter (·.deviceAllowed)).flatMap (·.events)

/-- A call with events of the series, each of them any number of times. -/
def Receives (keys : AgentKeys) (deviceId : String) (events : List WireEvent) (store : AgentStore)
    (d : Delivery) (store' : AgentStore) : Prop :=
  (∀ e ∈ d.events, e ∈ events) ∧ store' = store.receive keys deviceId d

theorem Received.receive
    (hser : Series keys deviceId dispatched native execution events)
    (hopen : dispatched.detachedAt = none) (hrunId : dispatched.runId.getD "" ≠ "")
    (h : Received keys deviceId dispatched native execution before events received store)
    {d : Delivery} (hd : Receives keys deviceId events store d store') :
    Received keys deviceId dispatched native execution before events
      (delivered [d] ++ received) store' ∧
      (d.deviceAllowed = true → receiveEvents keys deviceId store d = .ok store') ∧
      ∀ run, store.runs.get? dispatched.id = some run → run.status = .completed →
        store'.runs.get? dispatched.id = some run := by
  obtain ⟨hin, rfl⟩ := hd
  have hfilter : d.events.filter (fun event => decide (event.kind ≠ "delta")) = d.events :=
    List.filter_eq_self.mpr fun e he => decide_eq_true (hser.own e (hin e he)).2.2
  unfold AgentStore.receive receiveEvents
  simp only [hfilter]
  cases hallowed : d.deviceAllowed with
  | false =>
    have hdel : delivered [d] = [] := by simp [delivered, hallowed]
    rw [hdel]
    by_cases hnil : d.events = []
    · rw [if_pos hnil]
      exact ⟨h, fun hb => absurd hb Bool.false_ne_true, fun _ hget _ => hget⟩
    · rw [if_neg hnil]
      exact ⟨h, fun hb => absurd hb Bool.false_ne_true, fun _ hget _ => hget⟩
  | true =>
    have hdel : delivered [d] = d.events := by simp [delivered, hallowed]
    rw [hdel]
    by_cases hnil : d.events = []
    · rw [if_pos hnil, hnil]
      exact ⟨h, fun _ => rfl, fun _ hget _ => hget⟩
    · rw [if_neg hnil]
      obtain ⟨store', hfold, hrec, hkeep⟩ := h.foldlM d.live hser hopen hrunId hin
      have hok : (do
          require (true = true) AgentError.deviceRejected
          d.events.foldlM (ExternalAgents.receiveEvent keys deviceId d.live) store) =
            Except.ok store' :=
        bind_eq_ok.mpr ⟨(), require_eq_ok.mpr rfl, hfold⟩
      rw [hok]
      exact ⟨hrec, fun _ => rfl, hkeep⟩

theorem Received.runs
    (hser : Series keys deviceId dispatched native execution events)
    (hopen : dispatched.detachedAt = none) (hrunId : dispatched.runId.getD "" ≠ "")
    (h : Received keys deviceId dispatched native execution before events received store)
    {ds : List Delivery} (hr : Run (Receives keys deviceId events) store ds store') :
    Received keys deviceId dispatched native execution before events
      (delivered ds ++ received) store' ∧
      ∀ run, store.runs.get? dispatched.id = some run → run.status = .completed →
        store'.runs.get? dispatched.id = some run := by
  induction hr generalizing received with
  | nil => exact ⟨h, fun _ hget _ => hget⟩
  | @cons store store₁ store₂ d ds hd hr ih =>
    obtain ⟨h₁, -, hkeep₁⟩ := h.receive hser hopen hrunId hd
    obtain ⟨h₂, hkeep₂⟩ := ih h₁
    refine ⟨h₂.congr fun e => ?_, fun run hget hdone => hkeep₂ run (hkeep₁ run hget hdone) hdone⟩
    have hdel : delivered (d :: ds) = delivered [d] ++ delivered ds := by
      rw [delivered, delivered, delivered, ← List.flatMap_append, ← List.filter_append]
      rfl
    rw [hdel]
    simp only [List.mem_append]
    tauto

/-- The tables after the dispatch of an operation with a run, before its first event. -/
structure Dispatched (keys : AgentKeys) (deviceId : String) (native execution : String)
    (events : List WireEvent) (dispatched : AgentOperation) (store : AgentStore) : Prop where
  opened : dispatched.detachedAt = none
  runId : dispatched.runId.getD "" ≠ ""
  bound : Bound keys native execution dispatched
  result : dispatched.resultJson = none
  row : store.operations.get? dispatched.id = some dispatched
  run : ∃ run, store.runs.get? dispatched.id = some run ∧ run.status = .waiting
  continuation : store.continuations.get? dispatched.id = none
  events : ∀ e ∈ events, store.events.get? (deviceId, e.eventId) = none

theorem Dispatched.start
    (h : Dispatched keys deviceId native execution events dispatched store) :
    Received keys deviceId dispatched native execution store.inputs.rows events [] store := by
  obtain ⟨run, hget, hstatus⟩ := h.run
  refine ⟨nofun, ⟨dispatched, h.row, rfl, h.bound, Or.inl ⟨rfl, h.result⟩⟩, fun e he => ?_,
    ⟨⟨run, hget, ?_⟩, ?_, fun _ => h.continuation⟩, fun i hi => Or.inl hi⟩
  · simpa using h.events e he
  · simp [hstatus]
  · simp

/-- A stored receipt, and a later one: the same, or a newer one that ends no other. -/
def Newer (s s' : Json) : Prop :=
  s' = s ∨ s.get "pending" ≠ .bool false ∧ ∃ m n : Int, s.get "state_sequence" = .int m ∧
    s'.get "state_sequence" = .int n ∧ m < n

theorem Stored.newer {received' : List WireEvent}
    (hser : Series keys deviceId dispatched native execution events)
    (hsub : ∀ d ∈ received', d ∈ events) (hmono : ∀ d ∈ received, d ∈ received')
    {result result' : Option Json} (h : Stored received result) (h' : Stored received' result')
    {s : Json} (hs : result = some s) : ∃ s', result' = some s' ∧ Newer s s' := by
  rcases h with ⟨-, hn⟩ | ⟨d, hd, hr, -⟩
  · rw [hn] at hs
    cases hs
  rcases h' with ⟨rfl, -⟩ | ⟨d', hd', hr', hmax⟩
  · exact absurd (hmono d hd) List.not_mem_nil
  obtain rfl := Option.some.inj (hr.symm.trans hs)
  refine ⟨d'.state, hr', ?_⟩
  have hde := hsub d (hmono d hd)
  have hde' := hsub d' hd'
  have hle := hmax d (hmono d hd)
  by_cases heq : d' = d
  · exact Or.inl (by rw [heq])
  · have hne : d.order ≠ d'.order := fun hh => heq (hser.orders d hde d' hde' hh).symm
    refine Or.inr ⟨fun hover => ?_, d.order, d'.order, (hser.valid d hde).2.2.2,
      (hser.valid d' hde').2.2.2, by omega⟩
    have hge := (hser.last d hde hover).2 d' hde'
    omega

/-- However the events of an operation are ordered, batched and repeated: the stored receipt is
the newest state received, newer ones replace older ones only and the last one stays, each event
has one row and at most one input, and the run completes once, with the last event. -/
theorem delivery_independent
    (hser : Series keys deviceId dispatched native execution events) {start : AgentStore}
    (hstart : Dispatched keys deviceId native execution events dispatched start)
    {ds : List Delivery} (hr : Run (Receives keys deviceId events) start ds store) :
    (∃ row, store.operations.get? dispatched.id = some row ∧
      Stored (delivered ds) row.resultJson) ∧
    (∀ e ∈ delivered ds, ∃ record ∈ store.events.rows,
      (record.deviceId, record.event.eventId) = (deviceId, e.eventId) ∧
      ∀ r ∈ store.events.rows, (r.deviceId, r.event.eventId) = (deviceId, e.eventId) →
        r = record) ∧
    (∀ i ∈ store.inputs.rows, i ∉ start.inputs.rows → i.event ∈ delivered ds ∧ ¬ i.event.ended ∧
      ∀ i' ∈ store.inputs.rows, i' ∉ start.inputs.rows → i'.event = i.event → i' = i) ∧
    (∃ run, store.runs.get? dispatched.id = some run ∧
      (run.status = .completed ↔ ∃ e ∈ delivered ds, e.ended)) ∧
    (store.continuations.rows.filter fun c => decide (c.requestId = dispatched.id)).length =
      (if ∃ e ∈ delivered ds, e.ended then 1 else 0) ∧
    (∀ d store', Receives keys deviceId events store d store' → d.deviceAllowed = true →
      receiveEvents keys deviceId store d = .ok store') ∧
    ∀ ds' store', Run (Receives keys deviceId events) store ds' store' →
      (∀ row row' s, store.operations.get? dispatched.id = some row →
        store'.operations.get? dispatched.id = some row' → row.resultJson = some s →
        ∃ s', row'.resultJson = some s' ∧ Newer s s') ∧
      ∀ run, store.runs.get? dispatched.id = some run → run.status = .completed →
        store'.runs.get? dispatched.id = some run := by
  have hrec := (hstart.start.runs hser hstart.opened hstart.runId hr).1
  rw [List.append_nil] at hrec
  obtain ⟨row, hrow, -, -, hstored⟩ := hrec.row
  refine ⟨⟨row, hrow, hstored⟩, fun e he => ?_, fun i hi hnew => ?_, hrec.run.run, ?_,
    fun d store' hd hallowed => (hrec.receive hser hstart.opened hstart.runId hd).2.1 hallowed,
    fun ds' store' hr' => ?_⟩
  · have hget := hrec.events e (hrec.subset e he)
    rw [if_pos he] at hget
    obtain ⟨hmem, hkey⟩ := Table.get?_eq_some.mp hget
    refine ⟨_, hmem, hkey, fun r hr hk => ?_⟩
    exact Option.some.inj ((Table.get?_eq_some.mpr ⟨hr, hk⟩).symm.trans hget)
  · obtain ⟨d, hd, hover, hevent, hkey⟩ := (hrec.inputs i hi).resolve_left hnew
    refine ⟨hevent ▸ hd, hevent ▸ hover, fun i' hi' hnew' he => ?_⟩
    obtain ⟨d', -, -, hevent', hkey'⟩ := (hrec.inputs i' hi').resolve_left hnew'
    have hd' : d' = d := by rw [← hevent, ← hevent', he]
    have hsame : i'.sourceKey = i.sourceKey := by rw [hkey, hkey', hd']
    exact Option.some.inj ((Table.get?_eq_some.mpr ⟨hi', hsame⟩).symm.trans
      (Table.get?_eq_some.mpr ⟨hi, rfl⟩))
  · have hlength := Table.length_filter_key store.continuations dispatched.id
    rw [hlength]
    by_cases hover : ∃ e ∈ delivered ds, e.ended
    · rw [if_pos hover, hrec.run.ready hover]
      rfl
    · rw [if_neg hover, hrec.run.none hover]
      rfl
  · have hnext := (hrec.runs hser hstart.opened hstart.runId hr')
    refine ⟨fun row₁ row₂ s hrow₁ hrow₂ hs => ?_, hnext.2⟩
    obtain rfl := Option.some.inj (hrow.symm.trans hrow₁)
    obtain ⟨row', hrow', -, -, hstored'⟩ := hnext.1.row
    obtain rfl := Option.some.inj (hrow'.symm.trans hrow₂)
    exact hstored.newer hser hnext.1.subset (fun d hd => List.mem_append_right _ hd) hstored' hs

end

/-! A session of two events: the last one comes first, and both come again. -/

def nativeKeys : AgentKeys :=
  ⟨fun _ native => some native, fun _ native => native, fun _ native => native⟩

def sessionRow : AgentOperation :=
  { id := "o", instanceId := "i", action := "prompt", workId := some "w", runId := some "r" }

def turnStarted : WireEvent :=
  { eventId := "a", kind := "progress", instanceId := "i", operationId := some "o"
    sequence := some (.int 1)
    operationState := some (.obj [("state_sequence", .int 1), ("pending", .bool true)]) }

def turnCompleted : WireEvent :=
  { eventId := "b", kind := "completed", instanceId := "i", operationId := some "o"
    sequence := some (.int 2)
    operationState := some (.obj
      [("state_sequence", .int 2), ("pending", .bool false), ("status", .str "completed")]) }

def sessionStart : AgentStore :=
  ⟨Table.empty.insert sessionRow, Table.empty.insert { requestId := "o" }, .empty, .empty, .empty⟩

def sessionCalls : List Delivery :=
  [⟨[turnCompleted], true, fun _ => true⟩, ⟨[turnStarted, turnCompleted], true, fun _ => true⟩]

theorem session_series :
    Series nativeKeys "d" sessionRow "s" "x" [turnStarted, turnCompleted] where
  named := by decide
  own := by decide
  ids := by decide
  orders := by decide
  valid := by decide
  session e he s hs := by
    rcases List.mem_pair.mp he with rfl | rfl <;> rcases hs with hs | hs <;> exact nomatch hs
  execution e he s hs := by
    rcases List.mem_pair.mp he with rfl | rfl <;> rcases hs with hs | hs <;> exact nomatch hs
  last := by decide

theorem session_dispatched :
    Dispatched nativeKeys "d" "s" "x" [turnStarted, turnCompleted] sessionRow sessionStart where
  opened := rfl
  runId := by decide
  bound := ⟨Or.inl rfl, Or.inr (Or.inl rfl)⟩
  result := rfl
  row := by decide
  run := ⟨{ requestId := "o" }, by decide, rfl⟩
  continuation := rfl
  events e he := rfl

theorem delivery_independent_sample :
    ∃ store, Run (Receives nativeKeys "d" [turnStarted, turnCompleted]) sessionStart
        sessionCalls store ∧
      (∃ run, store.runs.get? "o" = some run ∧ run.status = .completed) ∧
      (store.continuations.rows.filter fun c => decide (c.requestId = "o")).length = 1 := by
  have hrun : Run (Receives nativeKeys "d" [turnStarted, turnCompleted]) sessionStart sessionCalls
      (sessionCalls.foldl (AgentStore.receive nativeKeys "d") sessionStart) :=
    .cons ⟨by decide, rfl⟩ (.cons ⟨by decide, rfl⟩ (.nil _))
  obtain ⟨-, -, -, ⟨run, hget, hdone⟩, hcontinuation, -⟩ :=
    delivery_independent session_series session_dispatched hrun
  have hover : ∃ e ∈ delivered sessionCalls, e.ended := by decide
  exact ⟨_, hrun, ⟨run, hget, hdone.mpr hover⟩, hcontinuation.trans (if_pos hover)⟩

/-- A token delta leaves no event, no receipt and no completion, whatever state it carries. -/
theorem delta_left_out :
    let delta := { turnCompleted with kind := "delta" }
    let store := sessionStart.receive nativeKeys "d" ⟨[delta], true, fun _ => true⟩
    (delta.ended ∧ delta.state.get "status" ∈ finalStatuses ∧
      delta.sequence = some (delta.state.get "state_sequence")) ∧
    store.events.get? ("d", delta.eventId) = none ∧
    (store.operations.get? "o").map (·.resultJson) = some none ∧
    (store.runs.get? "o").map (·.status) = some .waiting := by
  decide

end Yuki.ExternalAgents
