import Yuki.Effects.Dispatch
import Yuki.Effects.Evidence

/-! Effect receipts only move forward, and recording the same outcome again changes
nothing but the revision. -/

namespace Yuki

open Json WorkRepository

/-- A receipt without the revision of its invocation. -/
def unrevised (receipt : Json) : Json :=
  match receipt.get? "invocation" with
  | some v => if v.isObj then receipt.set "invocation" (v.erase "revision") else receipt
  | none => receipt

/-- The same row up to the revision of its invocation and the time of writing. -/
structure SameButRevision (e e' : EffectRow) : Prop where
  key : e'.effectKey = e.effectKey
  work : e'.workId = e.workId
  kind : e'.kind = e.kind
  state : e'.state = e.state
  receipt : Same (unrevised e'.receiptJson.value) (unrevised e.receiptJson.value)

/-- Whether an outcome drawn from a bare result says again what it said at first: only
under `unknown`, over a stored outcome without a role, may the drawn role disagree with
the one that was assumed. -/
def keepsUncertain (state : EffectState) (existing receipt : Json) : Bool :=
  state != .unknown || receipt.has "outcome" || !receipt.has "result" ||
    existing.has "side_effecting" ||
    match resultEvidence receipt existing with
    | .ok evidence => evidence.get "uncertain" == .bool true ||
        existing.truthy == (evidence.get "side_effecting").truthy
    | .error _ => true

/-- What a caller must leave to the host for a report to be repeatable. -/
def repeatable (stored : Json) (state : EffectState) (receipt : Json) : Bool :=
  !versionOne (receipt.get "invocation") &&
    keepsUncertain state (stored.getD "outcome" (.obj [])) receipt

/-! The members a report is composed of. -/

theorem hostField_eq_ok {previous candidate d : Json} {field : String} :
    hostField previous field candidate = .ok d ↔
      (∀ v w, previous.get? field = some v → candidate.get? field = some w → w.pyEq v = true) ∧
        d = (previous.get? field).elim candidate fun owned => candidate.set field owned := by
  unfold hostField
  cases hp : previous.get? field with
  | none =>
    simp only [Except.ok.injEq, reduceCtorEq, false_implies, implies_true, true_and, Option.elim]
    exact eq_comm
  | some owned =>
    simp only [bind_eq_ok, pure_eq_ok, require_eq_ok, Option.elim, exists_const]
    refine and_congr ?_ eq_comm
    cases candidate.get? field <;> simp

theorem get?_hostField {previous candidate d : Json} {field : String}
    (h : hostField previous field candidate = .ok d) (k : String) :
    d.get? k = if k = field then (previous.get? field).or (candidate.get? field)
      else candidate.get? k := by
  obtain ⟨-, rfl⟩ := hostField_eq_ok.mp h
  cases hp : previous.get? field with
  | none =>
    by_cases hk : k = field <;> simp [hk]
  | some owned => by_cases hk : k = field <;> simp [hk]

theorem isObj_hostField {previous candidate d : Json} {field : String}
    (h : hostField previous field candidate = .ok d) (hc : candidate.isObj = true) :
    d.isObj = true := by
  obtain ⟨-, rfl⟩ := hostField_eq_ok.mp h
  cases previous.get? field <;> simp [hc]

theorem isObj_completeOutcome {state : EffectState} {existing candidate candidate' : Json}
    (h : completeOutcome state existing candidate = .ok candidate') (hc : candidate.isObj = true) :
    candidate'.isObj = true := by
  unfold completeOutcome at h
  split at h
  · obtain rfl := pure_eq_ok.mp h
    exact hc
  obtain ⟨evidence, -, h⟩ := bind_eq_ok.mp h
  split at h
  · obtain ⟨-, -, h⟩ := bind_eq_ok.mp h
    obtain rfl := pure_eq_ok.mp h
    rfl
  · obtain rfl := pure_eq_ok.mp h
    cases evidence <;> simp [hc]

/-- Equal values are both dictionaries or neither, and agree under every key. -/
theorem Json.pyEq_isObj {a b : Json} (h : a.pyEq b = true) : a.isObj = b.isObj := by
  have hh : ∀ j : Json, (j.normalize number).isObj = j.isObj := by
    intro j
    cases j with
    | real m e => by_cases he : 0 ≤ e <;> simp [normalize, number, isObj, he]
    | _ => rfl
  rw [← hh a, ← hh b, show a.normalize number = b.normalize number by simpa [pyEq] using h]

theorem Json.pyEq_get {a b : Json} (h : a.pyEq b = true) (k : String) :
    (a.get k).pyEq (b.get k) = true := by
  have hg : ∀ j : Json, (j.normalize number).get k = (j.get k).normalize number := by
    intro j
    cases j with
    | obj fs =>
      rw [get_eq, get_eq, get?_obj, normalize, get?_obj, lookup_normalizeFields]
      cases fs.lookup k <;> rfl
    | real m e =>
      simp only [normalize, number]
      split <;> rfl
    | _ => rfl
  rw [pyEq, ← hg a, ← hg b, show a.normalize number = b.normalize number by simpa [pyEq] using h]
  simp

theorem versionOne_pyEq {a b : Json} (h : a.pyEq b = true) : versionOne a = versionOne b := by
  have hv := pyEq_get h "version"
  simp only [pyEq, beq_iff_eq] at hv
  simp only [versionOne, pyEq_isObj h, isOne, pyEq, hv]

theorem versionOne_same {a b : Json} (ho : a.isObj = b.isObj) (h : SameField a b "version") :
    versionOne a = versionOne b := by
  simp only [versionOne, ho, isOne, h.get.pyEq_left]

/-! The outcome a report takes over from the stored one. -/

theorem Evidence.json_same (e : Evidence) {se : Json} (h : Same se e.sideEffecting) (k : String) :
    SameField { e with sideEffecting := se }.json e.json k := by
  simp only [SameField, json, get?_obj, lookup_append, subject, verdict, extras, delivered,
    lookup_cons]
  cases e.action <;> by_cases hk : k = "side_effecting"
  all_goals simp [hk, lookup_cons, show se.sortKeys = e.sideEffecting.sortKeys from h]

theorem normalizeLegacyResult_toolName {value tool : Json} {providerId : String}
    {o : ToolExecutionResult} (h : normalizeLegacyResult value providerId tool = .ok o) :
    o.toolName = tool := by
  simp only [normalizeLegacyResult, bind_eq_ok] at h
  obtain ⟨-, -, h⟩ := h
  split at h
  · obtain rfl := pure_eq_ok.mp h
    rfl
  · simp only [bind_eq_ok, pure_eq_ok] at h
    obtain ⟨_, -, _, -, _, -, _, -, _, -, _, -, rfl⟩ := h
    rfl
  · obtain rfl := pure_eq_ok.mp h
    rfl

/-- The evidence of a bare result in its parts. -/
theorem resultEvidence_cases {candidate existing e : Json}
    (h : resultEvidence candidate existing = .ok e) :
    existing.isObj = true ∧ ∃ original ev,
      normalizeLegacyResult (candidate.get "result") "legacy"
        (existing.getD "tool" (.str "legacy_tool")) = .ok original ∧
      readExecution original (existing.getD "tool" (.str "legacy_tool"))
        (existing.getD "side_effecting" (.bool (original.mutationCommitted != some false)))
        (.obj []) = .ok ev ∧ e = ev.json := by
  simp only [resultEvidence, bind_eq_ok, require_eq_ok] at h
  obtain ⟨-, ho, original, hn, he⟩ := h
  rw [normalizeLegacyResult_toolName hn] at he
  obtain ⟨ev, hev, rfl⟩ := map_eq_ok.mp he
  exact ⟨ho, original, ev, hn, hev, rfl⟩

/-- Without arguments the role of a call is the one it was given. -/
theorem readExecution_bare {o : ToolExecutionResult} {tool se : Json} {e : Evidence}
    (h : readExecution o tool se (.obj []) = .ok e) :
    tool.isArr = false ∧ tool.isObj = false ∧ e.tool = tool ∧ e.sideEffecting = se ∧
      ∀ se', readExecution o tool se' (.obj []) = .ok { e with sideEffecting := se' } := by
  have hread : onlyIf ((tool == .str "external_agent" || tool == .str "local_device") &&
      (Json.obj []).isObj) false (((Json.obj []).get "action").hashedIn ["list", "get"]) =
      .ok false := by
    rw [onlyIf_eq_ok]
    cases (tool == .str "external_agent" || tool == .str "local_device") with
    | false => exact .inr ⟨rfl, rfl⟩
    | true => exact .inl ⟨rfl, rfl⟩
  simp only [readExecution, bind_eq_ok, pure_eq_ok] at h
  obtain ⟨sending, hs, reading, hr, process, hp, rfl⟩ := h
  obtain rfl : false = reading := Except.ok.inj (hread.symm.trans hr)
  have hs' := hs
  simp only [Json.hashedIn, bind_eq_ok, require_eq_ok] at hs'
  obtain ⟨-, ⟨harr, hobj⟩, -⟩ := hs'
  refine ⟨harr, hobj, rfl, rfl, fun se' => ?_⟩
  simp only [readExecution, bind_eq_ok, pure_eq_ok]
  exact ⟨sending, hs, false, hread, process, hp, rfl⟩

/-- A bare result read over an outcome that already holds its evidence reads the same. -/
theorem resultEvidence_repeat {candidate candidate' existing existing' e : Json}
    (h : resultEvidence candidate existing = .ok e)
    (hr : candidate'.get "result" = candidate.get "result") (ho : existing'.isObj = true)
    (ht : SameField existing' e "tool") (hs : SameField existing' e "side_effecting") :
    ∃ e', resultEvidence candidate' existing' = .ok e' ∧ ∀ k, SameField e' e k := by
  obtain ⟨-, original, ev, hn, hev, rfl⟩ := resultEvidence_cases h
  obtain ⟨harr, hobj, htool, hse, hany⟩ := readExecution_bare hev
  rw [SameField, ev.get?_tool] at ht
  rw [SameField, ev.get?_side_effecting] at hs
  obtain ⟨t, ht', het⟩ := Option.map_eq_some_iff.mp ht
  obtain ⟨se, hs', hes⟩ := Option.map_eq_some_iff.mp hs
  obtain rfl : ev.tool = t :=
    Same.eq_of_scalar (Eq.symm het) (by rw [htool, hobj]) (by rw [htool, harr])
  have hd : existing'.getD "tool" (.str "legacy_tool") =
      existing.getD "tool" (.str "legacy_tool") := by
    rw [getD_eq, ht', Option.getD_some, htool]
  have hn' := hn
  rw [← hr, ← hd] at hn'
  have hjson : Same se ev.sideEffecting := hes
  refine ⟨_, ?_, ev.json_same hjson⟩
  simp only [resultEvidence, bind_eq_ok, require_eq_ok]
  refine ⟨(), ho, original, hn', map_eq_ok.mpr ⟨_, ?_, rfl⟩⟩
  rw [normalizeLegacyResult_toolName hn', hd,
    show existing'.getD "side_effecting" (.bool (original.mutationCommitted != some false)) = se by
      rw [getD_eq, hs', Option.getD_some]]
  exact hany se

theorem resultEvidence_congr {candidate candidate' : Json} (existing : Json)
    (h : candidate'.get "result" = candidate.get "result") :
    resultEvidence candidate' existing = resultEvidence candidate existing := by
  simp only [resultEvidence, h]

theorem mergedUncertain_same (state : EffectState) {x y a b : Json}
    (h : SameField x y "side_effecting") (ha : SameField a b "uncertain") :
    Same (mergedUncertain state x a) (mergedUncertain state y b) := by
  have hr := h.getD (.refl (.bool true))
  exact .ite (by rw [hr.truthy]) hr (ha.getD (.refl _))

/-- An outcome merged with evidence it already holds is itself, up to `uncertain`. -/
theorem merge_absorb {x y added added' : Json} {u u' : Json} (hu : Same u' u)
    (hadd : ∀ k, SameField added' added k)
    (hy : ∀ k, SameField y ((x.merge added).set "uncertain" u) k) (k : String) :
    SameField ((y.merge added').set "uncertain" u') ((x.merge added).set "uncertain" u) k := by
  have hyk := hy k
  have hak := hadd k
  simp only [SameField, get?_set, get?_merge] at hyk hak ⊢
  split
  · exact congrArg some hu
  · rename_i hne
    rw [if_neg hne] at hyk
    cases ha' : added'.get? k with
    | none =>
      rw [ha', Option.map_none] at hak
      simpa [ha'] using hyk
    | some v =>
      cases ha : added.get? k with
      | none => simp [ha, ha'] at hak
      | some w => simpa [ha, ha'] using hak

/-- What is drawn from a bare result: its role is the stored one, if there is one. -/
structure Drawn (existing e : Json) (b u : Bool) : Prop where
  object : e.isObj = true
  truthy : e.truthy = true
  tool : (e.get? "tool").isSome
  role : e.get? "side_effecting" = some (existing.getD "side_effecting" (.bool b))
  uncertain : e.get? "uncertain" = some (.bool u)

theorem resultEvidence_drawn {candidate existing e : Json}
    (h : resultEvidence candidate existing = .ok e) : ∃ b u, Drawn existing e b u := by
  obtain ⟨-, original, ev, -, hread, rfl⟩ := resultEvidence_cases h
  obtain ⟨-, -, -, hse, -⟩ := readExecution_bare hread
  exact ⟨_, _, rfl, by simp [Evidence.json, Evidence.subject, Json.truthy],
    by rw [ev.get?_tool]; rfl, by rw [ev.get?_side_effecting, hse], ev.get?_uncertain⟩

theorem keepsUncertain_congr {state : EffectState} {existing receipt receipt' : Json}
    (ho : receipt'.get? "outcome" = receipt.get? "outcome")
    (hr : receipt'.get? "result" = receipt.get? "result") :
    keepsUncertain state existing receipt' = keepsUncertain state existing receipt := by
  have hg : receipt'.get "result" = receipt.get "result" := by rw [get_eq, get_eq, hr]
  simp only [keepsUncertain, has_eq, ho, hr, resultEvidence_congr existing hg]

/-- When the drawn outcome agrees with the assumed role. -/
theorem keepsUncertain_cases {state : EffectState} {existing receipt e : Json} {b u : Bool}
    (h : keepsUncertain state existing receipt = true) (ho : receipt.has "outcome" = false)
    (hr : receipt.has "result" = true) (he : resultEvidence receipt existing = .ok e)
    (hd : Drawn existing e b u) :
    state ≠ .unknown ∨ (existing.get? "side_effecting").isSome ∨ u = true ∨
      existing.truthy = b := by
  have hu : e.get "uncertain" = .bool u := by rw [get_eq, hd.uncertain]; rfl
  have hs : e.get "side_effecting" = existing.getD "side_effecting" (.bool b) := by
    rw [get_eq, hd.role]; rfl
  simp only [keepsUncertain, he, ho, hr, Bool.or_eq_true, bne_iff_ne, beq_iff_eq, hu, hs] at h
  rcases h with (((h | h) | h) | h) | h | h
  · exact .inl h
  · simp at h
  · simp at h
  · exact .inr (.inl h)
  · exact .inr (.inr (.inl (by simpa using h)))
  · cases hx : existing.get? "side_effecting" with
    | some v => exact .inr (.inl rfl)
    | none =>
      rw [getD_eq, hx] at h
      exact .inr (.inr (.inr h))

/-- Over evidence already merged into a stored outcome the same `uncertain` comes out. -/
theorem mergedUncertain_repeat {state : EffectState} {x y e e' : Json} {b u : Bool}
    (hd : Drawn x e b u) (hs : SameField y e "side_effecting") (hu : SameField e' e "uncertain")
    (hkeep : state ≠ .unknown ∨ (x.get? "side_effecting").isSome ∨ u = true ∨ b = true) :
    Same (mergedUncertain state y e') (mergedUncertain state x e) := by
  have hueq : Same (e'.getD "uncertain" (.bool false)) (e.getD "uncertain" (.bool false)) :=
    hu.getD (.refl _)
  by_cases hst : state = .unknown
  · have hrole : Same (y.getD "side_effecting" (.bool true)) (x.getD "side_effecting" (.bool b)) := by
      have hh := hs.getD (.refl (.bool true))
      rwa [e.getD_eq, hd.role] at hh
    cases hx : x.get? "side_effecting" with
    | some v =>
      rw [getD_eq (j := x), hx, Option.getD_some] at hrole
      refine .ite ?_ ?_ hueq <;> rw [x.getD_eq, hx, Option.getD_some]
      · rw [hrole.truthy]
      · exact hrole
    | none =>
      -- The assumed role is `true`, the drawn one is `b`.
      rw [getD_eq (j := x), hx, Option.getD_none] at hrole
      have hy := (hrole.symm.eq_bool b).mp rfl
      have hun : e'.getD "uncertain" (.bool false) = .bool u := by
        rw [e.getD_eq, hd.uncertain, Option.getD_some] at hueq
        exact (hueq.symm.eq_bool u).mp rfl
      have hb : b = true ∨ u = true := by
        rcases hkeep with h | h | h | h
        · exact absurd hst h
        · simp [hx] at h
        · exact .inr h
        · exact .inl h
      rw [mergedUncertain, mergedUncertain, hy, hun, x.getD_eq, hx, hst]
      rcases hb with rfl | rfl
      · exact .refl _
      · cases b <;> exact .refl _
  · have hst' : (state == .unknown) = false := by simpa using hst
    rw [mergedUncertain, mergedUncertain, hst']
    exact hueq

/-- A result reported again over the outcome it was merged into. -/
theorem drawn_over_merged {state : EffectState} {candidate again existing e y : Json} {b u : Bool}
    (he : resultEvidence candidate existing = .ok e) (hd : Drawn existing e b u)
    (hr : again.get "result" = candidate.get "result")
    (hy : Same y ((existing.merge e).set "uncertain" (mergedUncertain state existing e)))
    (hkeep : state ≠ .unknown ∨ (existing.get? "side_effecting").isSome ∨ u = true ∨ b = true) :
    ∃ e', resultEvidence again y = .ok e' ∧
      Same ((y.merge e').set "uncertain" (mergedUncertain state y e'))
        ((existing.merge e).set "uncertain" (mergedUncertain state existing e)) := by
  have hmem : ∀ k, (e.get? k).isSome → k ≠ "uncertain" → SameField y e k := by
    intro k hk hne
    obtain ⟨v, hv⟩ := Option.isSome_iff_exists.mp hk
    refine (hy.field k).trans (.of_eq ?_)
    rw [get?_set, if_neg hne, get?_merge, hv]
    rfl
  have hrole := hmem _ (by rw [hd.role]; rfl) (by decide : "side_effecting" ≠ "uncertain")
  obtain ⟨e', he', hsame⟩ := resultEvidence_repeat he hr (by rw [hy.isObj]; rfl)
    (hmem _ hd.tool (by decide)) hrole
  exact ⟨e', he', (same_obj_iff rfl rfl).mpr
    (merge_absorb (mergedUncertain_repeat hd hrole (hsame _) hkeep) hsame fun k => hy.field k)⟩

/-- A result reported again over the outcome that was drawn from it alone. -/
theorem drawn_over_drawn {state : EffectState} {candidate again existing e y : Json} {b u : Bool}
    (he : resultEvidence candidate existing = .ok e) (hd : Drawn existing e b u)
    (hr : again.get "result" = candidate.get "result") (hy : Same y e)
    (hx : existing.get? "side_effecting" = none)
    (hkeep : state ≠ .unknown ∨ u = true ∨ b = false) :
    ∃ e', resultEvidence again y = .ok e' ∧
      Same ((y.merge e').set "uncertain" (mergedUncertain state y e')) e := by
  obtain ⟨e', he', hsame⟩ := resultEvidence_repeat he hr (by rw [hy.isObj, hd.object])
    (hy.field _) (hy.field _)
  refine ⟨e', he', (same_obj_iff rfl hd.object).mpr fun k => ?_⟩
  by_cases hk : k = "uncertain"
  · subst hk
    have hrole : y.getD "side_effecting" (.bool true) = .bool b := by
      have hh := (hy.field "side_effecting").getD (.refl (.bool true))
      rw [e.getD_eq, hd.role, Option.getD_some, getD_eq (j := existing), hx, Option.getD_none] at hh
      exact (hh.symm.eq_bool b).mp rfl
    have hun : e'.getD "uncertain" (.bool false) = .bool u := by
      have hh := (hsame "uncertain").getD (.refl (.bool false))
      rw [e.getD_eq, hd.uncertain, Option.getD_some] at hh
      exact (hh.symm.eq_bool u).mp rfl
    refine .of_eq ?_
    rw [get?_set, if_pos rfl, hd.uncertain, mergedUncertain, hrole, hun]
    rcases hkeep with hk | rfl | rfl
    · simp [hk]
    · cases b <;> simp [truthy]
    · simp [truthy]
  · have hyk := hy.field k
    have hak := hsame k
    rw [SameField] at hyk hak ⊢
    rw [get?_set, if_neg hk, get?_merge]
    cases ha : e'.get? k with
    | none => simpa using hyk
    | some v => rw [ha] at hak; exact hak

theorem truthy_set (j : Json) (k : String) (v : Json) : (j.set k v).truthy = true := by
  have hne : setField k v j.fields ≠ [] := by
    cases j.fields with
    | nil => simp [setField]
    | cons f fs =>
      unfold setField
      split <;> simp
  simpa [Json.set, truthy] using hne

/-- The outcome a report without one takes, in its parts. -/
theorem completeOutcome_eq_ok {state : EffectState} {existing candidate done : Json}
    (hout : candidate.has "outcome" = false) :
    completeOutcome state existing candidate = .ok done ↔
      ∃ evidence, onlyIf (candidate.has "result") none
          ((resultEvidence candidate existing).map some) = .ok evidence ∧
        ((existing.truthy = true ∧ existing.isObj = true ∧ done = candidate.set "outcome"
            ((existing.merge (evidence.getD (.obj []))).set "uncertain"
              (mergedUncertain state existing (evidence.getD (.obj []))))) ∨
          (existing.truthy = false ∧
            done = evidence.elim candidate fun e => candidate.set "outcome" e)) := by
  rw [completeOutcome, hout, if_neg (by decide), bind_eq_ok]
  refine exists_congr fun evidence => and_congr_right fun _ => ?_
  cases ht : existing.truthy with
  | true =>
    simp only [if_true, bind_eq_ok, require_eq_ok, pure_eq_ok, exists_const, true_and,
      Bool.true_eq_false, false_and, or_false]
    exact and_congr_right fun _ => eq_comm
  | false =>
    simp only [Bool.false_eq_true, if_false, pure_eq_ok, false_and, true_and, false_or]
    exact eq_comm

/-- Completing a report over the outcome it led to leads to the same outcome. -/
theorem completeOutcome_repeat {state : EffectState} {existing candidate done again : Json}
    (stored : Json)
    (h : completeOutcome state existing candidate = .ok done)
    (ho : again.get? "outcome" = candidate.get? "outcome")
    (hr : again.get? "result" = candidate.get? "result")
    (hs : SameField stored done "outcome")
    (hkeep : keepsUncertain state existing candidate = true) :
    ∃ done', completeOutcome state (stored.getD "outcome" (.obj [])) again = .ok done' ∧
      SameField done' done "outcome" := by
  have hho : again.has "outcome" = candidate.has "outcome" := by rw [has_eq, has_eq, ho]
  have hhr : again.has "result" = candidate.has "result" := by rw [has_eq, has_eq, hr]
  have hgr : again.get "result" = candidate.get "result" := by rw [get_eq, get_eq, hr]
  cases hout : candidate.has "outcome" with
  | true =>
    rw [completeOutcome, if_pos hout] at h
    obtain rfl := pure_eq_ok.mp h
    exact ⟨again, by rw [completeOutcome, hho, if_pos hout]; rfl, .of_eq ho⟩
  | false =>
    -- The stored outcome is the one just written, if any was.
    have hstored : ∀ v, done.get? "outcome" = some v →
        Same (stored.getD "outcome" (.obj [])) v := by
      intro v hv
      rw [SameField, hv] at hs
      obtain ⟨y, hy, hsame⟩ := Option.map_eq_some_iff.mp hs
      rwa [getD_eq, hy]
    have hagain : ∀ {v w : Json}, Same w v → done.get? "outcome" = some v →
        SameField (again.set "outcome" w) done "outcome" := by
      intro v w hw hv
      rw [SameField, get?_set, if_pos rfl, hv]
      exact congrArg some hw
    obtain ⟨evidence, hev, hcase⟩ := (completeOutcome_eq_ok hout).mp h
    simp only [completeOutcome_eq_ok (hho.trans hout)]
    rcases onlyIf_eq_ok.mp hev with ⟨hres, hev⟩ | ⟨hres, rfl⟩
    · obtain ⟨e, he, rfl⟩ := map_eq_ok.mp hev
      obtain ⟨b, u, hd⟩ := resultEvidence_drawn he
      have hcases := keepsUncertain_cases hkeep hout hres he hd
      rcases hcase with ⟨ht, -, rfl⟩ | ⟨hf, rfl⟩
      · have hy := hstored _ (get?_set ..)
        obtain ⟨e', he', hsame⟩ := drawn_over_merged he hd hgr hy (by rwa [ht, @eq_comm Bool true b] at hcases)
        refine ⟨_, ⟨some e', ?_, .inl ⟨?_, ?_, rfl⟩⟩, hagain hsame (by simp)⟩
        · rw [hhr, hres, onlyIf, if_pos rfl, he']; rfl
        · rw [hy.truthy, truthy_set]
        · rw [hy.isObj, isObj_set]
      · have hy := hstored _ (get?_set ..)
        have hmiss : existing.get? "side_effecting" = none := by
          cases existing with
          | obj fs =>
            cases fs with
            | nil => rfl
            | cons f fs => simp [truthy] at hf
          | _ => rfl
        rw [hmiss, hf] at hcases
        obtain ⟨e', he', hsame⟩ := drawn_over_drawn he hd hgr hy hmiss (by simpa [eq_comm] using hcases)
        refine ⟨_, ⟨some e', ?_, .inl ⟨?_, ?_, rfl⟩⟩, hagain hsame (by simp)⟩
        · rw [hhr, hres, onlyIf, if_pos rfl, he']; rfl
        · rw [hy.truthy, hd.truthy]
        · rw [hy.isObj, hd.object]
    · have hnone : onlyIf (again.has "result") none ((resultEvidence again
          (stored.getD "outcome" (.obj []))).map some) = .ok none := by rw [hhr, hres]; rfl
      rcases hcase with ⟨ht, hobj, rfl⟩ | ⟨hf, hdone⟩
      · have hy := hstored _ (get?_set ..)
        have hsame := merge_absorb (mergedUncertain_same state
          ((hy.field "side_effecting").trans (.of_eq (by simp))) (.of_eq rfl))
          (fun _ => .of_eq rfl) hy.field
        refine ⟨_, ⟨none, hnone, .inl ⟨?_, ?_, rfl⟩⟩,
          hagain ((same_obj_iff rfl rfl).mpr hsame) (by simp)⟩
        · rw [hy.truthy, truthy_set]
        · rw [hy.isObj, isObj_set]
      · obtain rfl : done = candidate := hdone
        have hmiss : done.get? "outcome" = none := by simpa [has_eq] using hout
        rw [SameField, hmiss, Option.map_none, Option.map_eq_none_iff] at hs
        refine ⟨again, ⟨none, hnone, .inr ⟨?_, rfl⟩⟩, .of_eq ho⟩
        rw [getD_eq, hs]
        rfl

/-! A report repeated over the row it wrote. -/

/-- Two receipts with the same members up to the revision of the invocation. -/
structure SameOffRevision (a b : Json) : Prop where
  object : a.isObj = true ∧ b.isObj = true
  other : ∀ k, k ≠ "invocation" → SameField a b k
  invocation : SameField a b "invocation" ∨ ∃ v w, a.get? "invocation" = some v ∧
    b.get? "invocation" = some w ∧ v.isObj = true ∧ w.isObj = true ∧
    ∀ f, f ≠ "revision" → SameField v w f

theorem SameOffRevision.of_same {a b : Json} (ha : a.isObj = true) (hb : b.isObj = true)
    (h : ∀ k, SameField a b k) : SameOffRevision a b :=
  ⟨⟨ha, hb⟩, fun k _ => h k, .inl (h _)⟩

theorem isObj_unrevised {a : Json} (h : a.isObj = true) : (unrevised a).isObj = true := by
  unfold unrevised
  split
  · split <;> simp [h]
  · exact h

theorem get?_unrevised (a : Json) (k : String) :
    (unrevised a).get? k = if k = "invocation" then
      (a.get? k).map fun v => if v.isObj then v.erase "revision" else v else a.get? k := by
  unfold unrevised
  cases hi : a.get? "invocation" with
  | none => by_cases hk : k = "invocation" <;> simp [hk, hi]
  | some v =>
    by_cases hk : k = "invocation"
    · subst hk
      by_cases ho : v.isObj = true <;> simp [ho, hi]
    · by_cases ho : v.isObj = true <;> simp [ho, hk]

theorem SameOffRevision.unrevised {a b : Json} (h : SameOffRevision a b) :
    Same (Yuki.unrevised a) (Yuki.unrevised b) := by
  rw [same_obj_iff (isObj_unrevised h.object.1) (isObj_unrevised h.object.2)]
  intro k
  rw [SameField, get?_unrevised, get?_unrevised]
  by_cases hk : k = "invocation"
  · subst hk
    rw [if_pos rfl, if_pos rfl]
    rcases h.invocation with hs | ⟨v, w, hv, hw, hov, how, hf⟩
    · rw [SameField] at hs
      cases hv : a.get? "invocation" with
      | none =>
        rw [hv, Option.map_none, eq_comm, Option.map_eq_none_iff] at hs
        rw [hs]
      | some v =>
        rw [hv, Option.map_some] at hs
        obtain ⟨w, hw, he⟩ := Option.map_eq_some_iff.mp hs.symm
        have hvw : Same v w := Eq.symm he
        rw [hw, Option.map_some, Option.map_some, Option.map_some, Option.map_some]
        refine congrArg some (Same.ite (by rw [hvw.isObj]) ?_ hvw)
        exact (same_obj_iff rfl rfl).mpr fun f => (hvw.field f).erase
    · rw [hv, hw]
      simp only [Option.map_some, hov, how, if_true, Option.some.injEq]
      refine (same_obj_iff rfl rfl).mpr fun f => ?_
      rw [SameField, get?_erase, get?_erase]
      split
      · rfl
      · rename_i hne
        exact hf f hne
  · rw [if_neg hk, if_neg hk]
    exact h.other k hk

theorem succ_cases {v n : Json} (h : v.succ = .ok n) :
    n.isObj = false ∧ n.isArr = false ∧ ∃ m, n.succ = .ok m := by
  have hs : ∀ fuel a b, (shortReal fuel a b).isObj = false ∧ (shortReal fuel a b).isArr = false ∧
      ∃ m, (shortReal fuel a b).succ = .ok m := by
    intro fuel
    induction fuel with
    | zero =>
      intro a b
      refine ⟨rfl, rfl, ?_⟩
      by_cases hb : 0 ≤ b <;> simp [shortReal, succ, hb]
    | succ fuel ih =>
      intro a b
      unfold shortReal
      split
      · exact ⟨rfl, rfl, _, rfl⟩
      split
      · exact ih _ _
      · refine ⟨rfl, rfl, ?_⟩
        by_cases hb : 0 ≤ b <;> simp [succ, hb]
  cases v with
  | int n =>
    obtain rfl := Except.ok.inj h
    exact ⟨rfl, rfl, _, rfl⟩
  | bool b =>
    obtain rfl := Except.ok.inj h
    cases b <;> exact ⟨rfl, rfl, _, rfl⟩
  | real m e =>
    by_cases he : 0 ≤ e
    · simp only [succ, he, if_true, Except.ok.injEq] at h
      exact h ▸ hs _ _ _
    · simp only [succ, he, if_false, Except.ok.injEq] at h
      exact h ▸ hs _ _ _
  | _ => simp [succ] at h

/-- The metadata of a stored report is accepted again from a caller that leaves
version-1 invocations to the host. -/
theorem hostFields_repeat {previous receipt identified composed : Json} (candidate : Json)
    (hi : hostField previous "invocation" (.obj receipt.fields) = .ok identified)
    (hc : hostField previous "composition" identified = .ok composed)
    (hv : versionOne (receipt.get "invocation") = false)
    (hinv : versionOne (composed.get "invocation") = false →
      candidate.get? "invocation" = composed.get? "invocation")
    (hcomp : candidate.get? "composition" = composed.get? "composition") :
    ∃ identified' composed',
      hostField candidate.sortKeys "invocation" (.obj receipt.fields) = .ok identified' ∧
      hostField candidate.sortKeys "composition" identified' = .ok composed' ∧
      (∀ v, candidate.get? "invocation" = some v →
        composed'.get? "invocation" = some v.sortKeys) ∧
      (candidate.get? "invocation" = none → composed'.get? "invocation" = receipt.get? "invocation") ∧
      SameField composed' composed "composition" ∧
      ∀ k, k ≠ "invocation" → k ≠ "composition" →
        composed'.get? k = receipt.get? k ∧ composed.get? k = receipt.get? k := by
  have hri : ∀ k, (Json.obj receipt.fields).get? k = receipt.get? k := fun _ => rfl
  have hgi : composed.get? "invocation" =
      (previous.get? "invocation").or (receipt.get? "invocation") := by
    rw [get?_hostField hc, if_neg (by decide), get?_hostField hi, if_pos rfl, hri]
  have hgc : composed.get? "composition" =
      (previous.get? "composition").or (receipt.get? "composition") := by
    rw [get?_hostField hc, if_pos rfl, get?_hostField hi, if_neg (by decide), hri]
  obtain ⟨hokI, -⟩ := hostField_eq_ok.mp hi
  obtain ⟨hokC, -⟩ := hostField_eq_ok.mp hc
  have hcI : ∀ v w, candidate.sortKeys.get? "invocation" = some v →
      (Json.obj receipt.fields).get? "invocation" = some w → w.pyEq v = true := by
    intro v w hcv hrw
    have hnot : versionOne w = false := by
      rwa [get_eq, ← hri, hrw] at hv
    have hone : versionOne (composed.get "invocation") = false := by
      rw [get_eq, hgi]
      cases hp : previous.get? "invocation" with
      | none => rw [Option.none_or, ← hri, hrw]; exact hnot
      | some o => exact versionOne_pyEq (hokI o w hp hrw) ▸ hnot
    rw [get?_sortKeys, hinv hone, hgi] at hcv
    cases hp : previous.get? "invocation" with
    | none =>
      rw [hp, Option.none_or, ← hri, hrw, Option.map_some, Option.some.injEq] at hcv
      rw [← hcv, pyEq_sortKeys_right, pyEq_refl]
    | some o =>
      rw [hp, Option.some_or, Option.map_some, Option.some.injEq] at hcv
      rw [← hcv, pyEq_sortKeys_right]
      exact hokI o w hp hrw
  have hi' := hostField_eq_ok.mpr ⟨hcI, rfl⟩
  have hcC : ∀ v w, candidate.sortKeys.get? "composition" = some v →
      ((candidate.sortKeys.get? "invocation").elim (Json.obj receipt.fields) fun owned =>
        (Json.obj receipt.fields).set "invocation" owned).get? "composition" = some w →
      w.pyEq v = true := by
    intro v w hcv hrw
    rw [get?_hostField hi', if_neg (by decide), hri] at hrw
    rw [get?_sortKeys, hcomp, hgc] at hcv
    cases hp : previous.get? "composition" with
    | none =>
      rw [hp, Option.none_or, hrw, Option.map_some, Option.some.injEq] at hcv
      rw [← hcv, pyEq_sortKeys_right, pyEq_refl]
    | some o =>
      rw [hp, Option.some_or, Option.map_some, Option.some.injEq] at hcv
      rw [← hcv, pyEq_sortKeys_right]
      exact hokC o w hp (by rw [get?_hostField hi, if_neg (by decide), hri, hrw])
  have hc' := hostField_eq_ok.mpr ⟨hcC, rfl⟩
  refine ⟨_, _, hi', hc', fun v hcv => ?_, fun hcv => ?_, ?_, fun k hk hk' => ⟨?_, ?_⟩⟩
  · rw [get?_hostField hc', if_neg (by decide), get?_hostField hi', if_pos rfl, get?_sortKeys, hcv]
    rfl
  · rw [get?_hostField hc', if_neg (by decide), get?_hostField hi', if_pos rfl, get?_sortKeys, hcv]
    rfl
  · rw [SameField, get?_hostField hc', if_pos rfl, get?_hostField hi', if_neg (by decide),
      get?_sortKeys, hcomp, hri, hgc]
    cases previous.get? "composition" with
    | none => cases receipt.get? "composition" <;> simp
    | some o => simp
  · rw [get?_hostField hc', if_neg hk', get?_hostField hi', if_neg hk, hri]
  · rw [get?_hostField hc, if_neg hk', get?_hostField hi, if_neg hk, hri]

/-- A row in a final state that already says what is reported is left alone; an unknown
one is written again. -/
theorem settled_repeat {row : EffectRow} {state : EffectState} {candidate : Json}
    (hs : state ≠ .prepared) (hrow : row.state = state)
    (ho : row.receiptJson.value.isObj = true) (hc : candidate.isObj = true)
    (h : ∀ k, SameField candidate row.receiptJson.value k) :
    settled row state candidate = .ok (state != .unknown) := by
  unfold settled
  cases state with
  | prepared => exact absurd rfl hs
  | accepted =>
    have hcan := canonical_same h
    rw [hrow]
    simp only [reduceCtorEq, if_false, bind_eq_ok, require_eq_ok, pure_eq_ok, true_and]
    exact ⟨(), extends_same hcan, hcan.pyEq⟩
  | failed =>
    rw [hrow]
    simp only [bind_eq_ok, require_eq_ok, pure_eq_ok, true_and]
    exact ⟨(), ((same_obj_iff hc ho).mpr h).pyEq, rfl⟩
  | unknown =>
    rw [hrow]
    rfl

/-- A bumped invocation can be bumped again, and only its revision differs. -/
theorem bumpInvocation_repeat {done bumped again : Json} (h : bumpInvocation done = .ok bumped)
    (hb : bumped.isObj = true) (ha : again.isObj = true) (hs : ∀ k, SameField again bumped k) :
    ∃ bumped', bumpInvocation again = .ok bumped' ∧ SameOffRevision bumped' bumped := by
  unfold bumpInvocation
  dsimp only
  split
  · rename_i hv
    have hobj := versionOne_isObj hv
    have hinv := hs "invocation"
    obtain ⟨w, hw⟩ : ∃ w, again.get? "invocation" = some w := ⟨_, get?_invocation hobj⟩
    have hgw : again.get "invocation" = w := by rw [get_eq, hw, Option.getD_some]
    rw [hgw] at hv hobj ⊢
    rw [SameField, hw] at hinv
    obtain ⟨v, hbv, hvw⟩ := Option.map_eq_some_iff.mp hinv.symm
    have hsame : Same w v := Eq.symm hvw
    have hvone : versionOne v = true := by rw [← versionOne_same hsame.isObj (hsame.field _), hv]
    rcases bumpInvocation_cases h with ⟨hnone, rfl⟩ | ⟨revision, next, hone, hrev, hnext, rfl⟩
    · rw [get_eq, hbv, Option.getD_some, hvone] at hnone
      exact absurd hnone (by decide)
    · obtain ⟨hno, hna, m, hm⟩ := succ_cases hnext
      rw [get?_set, if_pos rfl, Option.some.injEq] at hbv
      have hr := hsame.field "revision"
      rw [SameField, ← hbv, get?_set, if_pos rfl] at hr
      obtain ⟨r, hwr, hrn⟩ := Option.map_eq_some_iff.mp hr
      obtain rfl : next = r := Same.eq_of_scalar (Eq.symm hrn) hno hna
      refine ⟨again.set "invocation" (w.set "revision" m), ?_, ⟨⟨rfl, hb⟩, fun k hk => ?_, .inr
        ⟨_, _, by rw [get?_set, if_pos rfl], by rw [get?_set, if_pos rfl, hbv], rfl, ?_, ?_⟩⟩⟩
      · simp only [bind_eq_ok, pure_eq_ok, expect_eq_ok]
        exact ⟨next, hwr, m, hm, rfl⟩
      · have hk' := hs k
        rwa [SameField, get?_set, if_neg hk, ← SameField]
      · exact versionOne_isObj hvone
      · intro f hf
        have hff := hsame.field f
        rwa [SameField, get?_set, if_neg hf, ← SameField]
  · exact ⟨again, rfl, .of_same ha hb hs⟩

theorem isObj_bumpInvocation {candidate candidate' : Json}
    (h : bumpInvocation candidate = .ok candidate') (hc : candidate.isObj = true) :
    candidate'.isObj = true := by
  rcases bumpInvocation_cases h with ⟨-, rfl⟩ | ⟨_, _, -, -, -, rfl⟩
  · exact hc
  · rfl

theorem get?_bumpInvocation {done bumped : Json} (h : bumpInvocation done = .ok bumped) {k : String}
    (hk : k ≠ "invocation") : bumped.get? k = done.get? k := by
  rcases bumpInvocation_cases h with ⟨-, rfl⟩ | ⟨_, _, -, -, -, rfl⟩
  · rfl
  · rw [get?_set, if_neg hk]

/-- What a report is completed to over the receipt it led to is that receipt again. -/
theorem completed_repeat {previous receipt identified composed done bumped : Json}
    {state : EffectState} (hrep : repeatable previous state receipt = true)
    (hi : hostField previous "invocation" (.obj receipt.fields) = .ok identified)
    (hc : hostField previous "composition" identified = .ok composed)
    (hdone : completeOutcome state (previous.getD "outcome" (.obj [])) composed = .ok done)
    (hb : bumpInvocation done = .ok bumped) :
    ∃ identified' composed' done',
      hostField bumped.sortKeys "invocation" (.obj receipt.fields) = .ok identified' ∧
      hostField bumped.sortKeys "composition" identified' = .ok composed' ∧
      completeOutcome state (bumped.sortKeys.getD "outcome" (.obj [])) composed' = .ok done' ∧
      done'.isObj = true ∧ ∀ k, SameField done' bumped k := by
  simp only [repeatable, Bool.and_eq_true, Bool.not_eq_true'] at hrep
  obtain ⟨hv, hkeep⟩ := hrep
  have hdother : ∀ k, k ≠ "outcome" → done.get? k = composed.get? k :=
    fun k hk => completeOutcome_get? hdone hk
  have hinv : versionOne (composed.get "invocation") = false →
      bumped.get? "invocation" = composed.get? "invocation" := by
    intro hone
    rcases bumpInvocation_cases hb with ⟨-, rfl⟩ | ⟨_, _, hbad, -, -, rfl⟩
    · exact hdother _ (by decide)
    · rw [get_eq, hdother _ (by decide), ← get_eq, hone] at hbad
      exact absurd hbad (by decide)
  obtain ⟨identified', composed', hi', hc', hsome, hnone, hcomp, hrest⟩ :=
    hostFields_repeat bumped hi hc hv hinv
      (by rw [get?_bumpInvocation hb (by decide), hdother _ (by decide)])
  have hout := hrest "outcome" (by decide) (by decide)
  have hres := hrest "result" (by decide) (by decide)
  obtain ⟨done', hdone', hdout⟩ := completeOutcome_repeat bumped.sortKeys hdone
    (hout.1.trans hout.2.symm) (hres.1.trans hres.2.symm)
    ((sameField_sortKeys bumped _).trans (.of_eq (get?_bumpInvocation hb (by decide))))
    (by rw [keepsUncertain_congr hout.2 hres.2]; exact hkeep)
  refine ⟨identified', composed', done', hi', hc', hdone', isObj_completeOutcome hdone'
    (isObj_hostField hc' (isObj_hostField hi' rfl)), fun k => ?_⟩
  by_cases hko : k = "outcome"
  · rw [hko]
    exact hdout.trans (.of_eq (get?_bumpInvocation hb (by decide)).symm)
  have hd' : SameField done' composed' k := .of_eq (completeOutcome_get? hdone' hko)
  by_cases hki : k = "invocation"
  · subst hki
    refine hd'.trans ?_
    rw [SameField]
    cases hbi : bumped.get? "invocation" with
    | some v => rw [hsome v hbi, Option.map_some, Option.map_some, sortKeys_sortKeys]
    | none =>
      -- Nothing to own: neither the row nor the caller names an invocation.
      have hcn : composed.get? "invocation" = none := by
        rcases bumpInvocation_cases hb with ⟨hone, rfl⟩ | ⟨_, _, -, -, -, rfl⟩
        · rw [← hdother _ (by decide), hbi]
        · simp at hbi
      rw [get?_hostField hc, if_neg (by decide), get?_hostField hi, if_pos rfl,
        Option.or_eq_none_iff] at hcn
      rw [hnone hbi, show receipt.get? "invocation" = none from hcn.2]
  · refine hd'.trans (SameField.trans ?_
      (.of_eq ((get?_bumpInvocation hb hki).trans (hdother k hko)).symm))
    by_cases hkc : k = "composition"
    · rw [hkc]
      exact hcomp
    · exact .of_eq ((hrest k hki hkc).1.trans (hrest k hki hkc).2.symm)

/-- Reporting again over the row that was written: nothing is written, or a receipt that
differs in the revision only. -/
theorem prepareRecord_repeat {existing : EffectRow} (row : EffectRow) {state : EffectState}
    {receipt candidate : Json} (hs : state ≠ .prepared)
    (h : prepareRecord existing state receipt = .ok (some candidate))
    (hrep : repeatable existing.receiptJson.value state receipt = true)
    (hstate : row.state = state) (htext : row.receiptJson = encodeJson candidate) :
    prepareRecord row state receipt = .ok none ∨
      ∃ candidate', prepareRecord row state receipt = .ok (some candidate') ∧
        SameOffRevision candidate' candidate := by
  simp only [prepareRecord, bind_eq_ok] at h
  obtain ⟨identified, hi, composed, hc, done, hdone, stop, -, h⟩ := h
  cases stop with
  | true => simp at h
  | false =>
    simp only [Bool.false_eq_true, if_false, bind_eq_ok, pure_eq_ok, Option.some.injEq] at h
    obtain ⟨bumped, hb, rfl⟩ := h
    have hbobj : bumped.isObj = true := isObj_bumpInvocation hb
      (isObj_completeOutcome hdone (isObj_hostField hc (isObj_hostField hi rfl)))
    obtain ⟨identified', composed', done', hi', hc', hdone', hobj', hall⟩ :=
      completed_repeat hrep hi hc hdone hb
    have hrow : row.receiptJson.value = bumped.sortKeys := by rw [htext]; rfl
    have hset : settled row state done' = .ok (state != .unknown) :=
      settled_repeat hs hstate (by rw [hrow, isObj_sortKeys, hbobj]) hobj' fun k =>
        (hall k).trans (by rw [hrow]; exact (sameField_sortKeys bumped k).symm)
    obtain ⟨bumped', hb', hsame⟩ := bumpInvocation_repeat hb hbobj hobj' hall
    simp only [prepareRecord, hrow, bind_eq_ok]
    cases hst : state != .unknown with
    | true =>
      exact .inl ⟨_, hi', _, hc', _, hdone', true, hst ▸ hset, rfl⟩
    | false =>
      refine .inr ⟨bumped', ⟨_, hi', _, hc', _, hdone', false, hst ▸ hset, ?_⟩, hsame⟩
      rw [if_neg (by decide)]
      exact bind_eq_ok.mpr ⟨_, hb', rfl⟩

theorem sourcesCurrent_same {db db' : Db} {candidate candidate' : Json} {media : Option MediaSource}
    {u : Unit} (h : sourcesCurrent db candidate media = .ok u)
    (ho : SameField candidate' candidate "outcome")
    (hp : db'.privacyGeneration = db.privacyGeneration)
    (hc : db'.conversations = db.conversations) : sourcesCurrent db' candidate' media = .ok () := by
  have hs : Same (candidate'.getD "outcome" (.obj [])) (candidate.getD "outcome" (.obj [])) :=
    ho.getD (.refl _)
  simp only [sourcesCurrent, bind_eq_ok, require_eq_ok] at h ⊢
  obtain ⟨-, hobj, -, hsrc, hmedia⟩ := h
  refine ⟨(), by rw [hs.isObj, hobj], (), ?_, ?_⟩
  · rwa [(hs.get _).truthy, (hs.get _).pyEq_left, hp]
  · rw [hp]
    simp only [Db.conversationGeneration, hc]
    exact hmedia

theorem keys_insertObjects (db : Db) (rows : List ObjectRow) (digest : String) :
    digest ∈ (db.insertObjects rows).objects.rows.map ObjectRow.sha256 ↔
      digest ∈ db.objects.rows.map ObjectRow.sha256 ∨ digest ∈ rows.map ObjectRow.sha256 := by
  unfold Db.insertObjects
  dsimp only
  generalize db.objects = objects
  induction rows generalizing objects with
  | nil => simp
  | cons r rows ih =>
    rw [List.foldl_cons, ih, Table.keys_insert, List.map_cons, List.mem_cons]
    tauto

/-- What a publication leaves alone. -/
theorem publishRefs_rest {db db' : Db} {now : Time} {policy : StoragePolicy} {workId : String}
    {prepared : List ObjectRow} (h : publishRefs db now policy workId prepared = .ok db') :
    db'.privacyGeneration = db.privacyGeneration ∧ db'.conversations = db.conversations ∧
      ∀ o ∈ prepared, o.sha256 ∈ db'.objects.rows.map ObjectRow.sha256 := by
  simp only [publishRefs, bind_eq_ok, pure_eq_ok] at h
  obtain ⟨-, -, -, -, -, -, rfl⟩ := h
  refine ⟨rfl, rfl, fun o ho => ?_⟩
  rw [Table.keys_update, keys_insertObjects]
  exact .inr (List.mem_map_of_mem ho)

/-- Objects once published are published again without touching a limit. -/
theorem publishRefs_repeat {db : Db} {now : Time} {policy : StoragePolicy} {workId : String}
    {prepared : List ObjectRow} (hw : prepared = [] ∨ (db.works.get? workId).isSome)
    (ho : ∀ o ∈ prepared, o.sha256 ∈ db.objects.rows.map ObjectRow.sha256) :
    ∃ db', publishRefs db now policy workId prepared = .ok db' := by
  have hadded : (prepared.filter fun o => o.sha256 ∉ db.objects.rows.map ObjectRow.sha256) = [] := by
    rw [List.filter_eq_nil_iff]
    simpa using ho
  simp only [publishRefs, bind_eq_ok, pure_eq_ok, require_eq_ok, hadded]
  exact ⟨_, (), by simp, (), hw, (), .inl trivial, rfl⟩

theorem publishRefs_work {db db' : Db} {now : Time} {policy : StoragePolicy} {workId : String}
    {prepared : List ObjectRow} (h : publishRefs db now policy workId prepared = .ok db') :
    prepared = [] ∨ (db'.works.get? workId).isSome := by
  have hu := (publishRefs_frame h).2
  simp only [publishRefs, bind_eq_ok, require_eq_ok] at h
  obtain ⟨-, -, -, hw, -⟩ := h
  rwa [hu.1]

theorem jsonAt_sortKeys_invocation {a b : Json} (h : SameOffRevision a b) {f : String}
    (hf : f ≠ "revision") :
    Sql.jsonAt a.sortKeys ["invocation", f] = Sql.jsonAt b.sortKeys ["invocation", f] := by
  simp only [Sql.jsonAt, get?_sortKeys]
  rcases h.invocation with hs | ⟨v, w, hv, hw, -, -, hs⟩
  · rw [show (a.get? "invocation").map sortKeys = (b.get? "invocation").map sortKeys from hs]
  · rw [hv, hw]
    simp only [Option.map_some, Option.bind_some, get?_sortKeys]
    rw [show (v.get? f).map sortKeys = (w.get? f).map sortKeys from hs f hf]

/-- The indexes on the children of an effect do not see the revision. -/
theorem childClash_repeat {db db' : Db} {key workId : String} {a b : Json}
    (h : db.childClash key workId (encodeJson b).value = false) (hs : SameOffRevision a b)
    (he : ∀ e ∈ db'.effects.rows, e.effectKey ≠ key → e ∈ db.effects.rows) :
    db'.childClash key workId (encodeJson a).value = false := by
  have hcall : childCall a.sortKeys = childCall b.sortKeys := by
    simp only [childCall, Sql.jsonExtract, Sql.jsonType,
      jsonAt_sortKeys_invocation hs (by decide : "version" ≠ "revision"),
      jsonAt_sortKeys_invocation hs (by decide : "parent_effect_key" ≠ "revision")]
  have hchild : ∀ names : List String, "revision" ∉ "parent_effect_key" :: names → ∀ r,
      sameChild names r a.sortKeys = sameChild names r b.sortKeys := by
    intro names hn r
    simp only [sameChild, hcall]
    congr 1
    rw [Bool.eq_iff_iff, List.all_eq_true, List.all_eq_true]
    refine forall₂_congr fun f hf => ?_
    rw [Sql.jsonExtract, Sql.jsonExtract, Sql.jsonExtract,
      jsonAt_sortKeys_invocation hs fun e => hn (e ▸ hf)]
  simp only [Db.childClash, List.any_eq_false] at h ⊢
  intro e hmem hclash
  simp only [Bool.and_eq_true, bne_iff_ne] at hclash
  refine h e (he e hmem hclash.1.1) ?_
  simp only [encodeJson, Bool.and_eq_true, bne_iff_ne] at hclash ⊢
  rwa [← hchild _ (by decide), ← hchild _ (by decide)]

/-- What a call that returns has done: nothing, or one write over the text it read. -/
theorem recordEffect_cases {seen s t : Db} {now : Time} {key : String} {state : EffectState}
    {receipt : Json} {policy : StoragePolicy} {prepared : List ObjectRow}
    {media : Option MediaSource}
    (h : recordEffect seen s now key state receipt policy prepared media = .ok (t, true)) :
    state ≠ .prepared ∧ ∃ existing, seen.effects.get? key = some existing ∧
      ((prepareRecord existing state receipt = .ok none ∧ t = s) ∨
        ∃ candidate e, prepareRecord existing state receipt = .ok (some candidate) ∧
          sourcesCurrent s candidate media = .ok () ∧ s.effects.get? key = some e ∧
          e.state = existing.state ∧ e.receiptJson = existing.receiptJson ∧
          s.childClash key e.workId (encodeJson candidate).value = false ∧
          onlyIf (!prepared.isEmpty) (s.setEffect key state (encodeJson candidate) now)
            (publishRefs (s.setEffect key state (encodeJson candidate) now) now policy
              existing.workId prepared) = .ok t) := by
  simp only [recordEffect, bind_eq_ok, require_eq_ok, expect_eq_ok] at h
  obtain ⟨-, hs, existing, hseen, candidate?, hp, h⟩ := h
  refine ⟨hs, existing, hseen, ?_⟩
  cases candidate? with
  | none => exact .inl ⟨hp, (Prod.mk.inj (pure_eq_ok.mp h)).1.symm⟩
  | some candidate =>
    obtain ⟨_, hsrc, h⟩ := bind_eq_ok.mp h
    split at h
    · exact absurd (Prod.mk.inj (pure_eq_ok.mp h)).2 (by decide)
    rename_i e he
    simp only [Option.filter_eq_some_iff, Bool.and_eq_true, beq_iff_eq] at he
    simp only [bind_eq_ok, require_eq_ok, pure_eq_ok] at h
    obtain ⟨-, hclash, published, hpub, h⟩ := h
    obtain ⟨rfl, -⟩ := Prod.mk.inj h
    exact .inr ⟨candidate, e, hp, hsrc, he.1, he.2.1, he.2.2, hclash, hpub⟩

/-- The row and the frame after a call that wrote. -/
theorem recordEffect_written {s t : Db} {now : Time} {key : String} {state : EffectState}
    {policy : StoragePolicy} {prepared : List ObjectRow} {e : EffectRow} {receipt : JsonText}
    {workId : String} (he : s.effects.get? key = some e)
    (h : onlyIf (!prepared.isEmpty) (s.setEffect key state receipt now)
      (publishRefs (s.setEffect key state receipt now) now policy workId prepared) = .ok t) :
    t.effects = (s.setEffect key state receipt now).effects ∧
      t.effects.get? key = some { e with state := state, receiptJson := receipt, updated := now } ∧
      t.privacyGeneration = s.privacyGeneration ∧ t.conversations = s.conversations ∧
      (prepared = [] ∨ (t.works.get? workId).isSome) ∧
      ∀ o ∈ prepared, o.sha256 ∈ t.objects.rows.map ObjectRow.sha256 := by
  have hget : (s.setEffect key state receipt now).effects.get? key =
      some { e with state := state, receiptJson := receipt, updated := now } := by
    rw [get?_setEffect, he, Option.map_some, if_pos (Table.get?_key he)]
  rcases onlyIf_eq_ok.mp h with ⟨-, hpub⟩ | ⟨hempty, rfl⟩
  · obtain ⟨hp, hc, hobj⟩ := publishRefs_rest hpub
    have heff := (publishRefs_frame hpub).1
    exact ⟨heff, by rw [heff, hget], hp, hc, publishRefs_work hpub, hobj⟩
  · have hnil : prepared = [] := by simpa using hempty
    exact ⟨rfl, hget, rfl, rfl, .inl hnil, by simp [hnil]⟩

/-- A call repeated at once returns again and changes no more than the revision. -/
theorem recordEffect_repeat {seen s t : Db} {now now' : Time} {key : String} {state : EffectState}
    {receipt : Json} {policy : StoragePolicy} {prepared : List ObjectRow}
    {media : Option MediaSource} {e : EffectRow} (hseen : seen.effects.get? key = some e)
    (hnow : s.effects.get? key = some e)
    (h : recordEffect seen s now key state receipt policy prepared media = .ok (t, true))
    (hrep : prepareRecord e state receipt = .ok none ∨
      repeatable e.receiptJson.value state receipt = true) :
    ∃ u f g, recordEffect t t now' key state receipt policy prepared media = .ok (u, true) ∧
      t.effects.get? key = some f ∧ u.effects.get? key = some g ∧ SameButRevision f g := by
  obtain ⟨hs, existing, hex, hcases⟩ := recordEffect_cases h
  obtain rfl : e = existing := Option.some.inj (hseen.symm.trans hex)
  have hskip : ∀ {r : Db} {row : EffectRow}, r.effects.get? key = some row →
      prepareRecord row state receipt = .ok none →
      recordEffect r r now' key state receipt policy prepared media = .ok (r, true) := by
    intro r row hr hprep
    simp only [recordEffect, bind_eq_ok, require_eq_ok, expect_eq_ok]
    exact ⟨(), hs, row, hr, none, hprep, rfl⟩
  rcases hcases with ⟨hprep, rfl⟩ | ⟨candidate, e', hprep, hsrc, he', -, -, hclash, hpub⟩
  · exact ⟨_, e, e, hskip hnow hprep, hnow, hnow, rfl, rfl, rfl, rfl, .refl _⟩
  obtain rfl : e = e' := Option.some.inj (hnow.symm.trans he')
  obtain ⟨hteff, hrow, hpriv, hconv, hwork, hobjects⟩ := recordEffect_written hnow hpub
  have hrep' : repeatable e.receiptJson.value state receipt = true := by
    rcases hrep with hnone | hrep
    · simp [hprep] at hnone
    · exact hrep
  let written : EffectRow :=
    { e with
      state := state
      receiptJson := encodeJson candidate
      updated := now }
  rcases prepareRecord_repeat written hs hprep hrep' rfl rfl with hnone | ⟨candidate', hprep', hsame⟩
  · exact ⟨t, _, _, hskip hrow hnone, hrow, hrow, rfl, rfl, rfl, rfl, .refl _⟩
  -- An unknown outcome is written once more, with the next revision.
  have hsrc' := sourcesCurrent_same hsrc (hsame.other _ (by decide)) hpriv hconv
  have hclash' : t.childClash key e.workId (encodeJson candidate').value = false := by
    refine childClash_repeat hclash hsame fun f hf hne => ?_
    rw [hteff] at hf
    obtain ⟨f', hf', rfl⟩ := List.mem_map.mp hf
    by_cases hk : f'.effectKey = key
    · simp [hk] at hne
    · simpa [hk] using hf'
  obtain ⟨u, hu⟩ : ∃ u, onlyIf (!prepared.isEmpty)
      (t.setEffect key state (encodeJson candidate') now')
      (publishRefs (t.setEffect key state (encodeJson candidate') now') now' policy e.workId
        prepared) = .ok u := by
    cases hp : !prepared.isEmpty with
    | false => exact ⟨_, rfl⟩
    | true => exact publishRefs_repeat hwork hobjects
  obtain ⟨-, hrow', -⟩ := recordEffect_written hrow hu
  refine ⟨u, _, _, ?_, hrow, hrow', rfl, rfl, rfl, rfl, ?_⟩
  · simp only [recordEffect, bind_eq_ok, require_eq_ok, expect_eq_ok]
    refine ⟨(), hs, _, hrow, _, hprep', ?_⟩
    simp only [bind_eq_ok]
    refine ⟨(), hsrc', ?_⟩
    rw [hrow]
    simp only [Option.filter_some, beq_self_eq_true, Bool.and_self, if_true, bind_eq_ok,
      require_eq_ok, pure_eq_ok]
    exact ⟨(), hclash', u, hu, rfl⟩
  · have hsort : ∀ a : Json, a.isObj = true → Same (unrevised a.sortKeys) (unrevised a) :=
      fun a ha => (SameOffRevision.of_same (by rw [isObj_sortKeys, ha]) ha
        (sameField_sortKeys a)).unrevised
    exact ((hsort _ hsame.object.1).trans hsame.unrevised).trans (hsort _ hsame.object.2).symm

/-- Effect receipts only move forward. Over any run of the receipt writers the states
settle and host metadata stays; and a report repeated at once, if it had nothing to
write or leaves version-1 invocations to the host and keeps its `uncertain`, returns
again and changes at most the revision. -/
theorem effect_receipts_forward {db db' : Db} {calls : List (Option EffectCall)}
    (hr : Run EffectStep db calls db') :
    EffectsForward db db' ∧
    ∀ {seen s t : Db} {now now' : Time} {key : String} {state : EffectState} {receipt : Json}
      {policy : StoragePolicy} {prepared : List ObjectRow} {media : Option MediaSource}
      {e : EffectRow}, seen.effects.get? key = some e → s.effects.get? key = some e →
      recordEffect seen s now key state receipt policy prepared media = .ok (t, true) →
      (prepareRecord e state receipt = .ok none ∨
        repeatable e.receiptJson.value state receipt = true) →
      ∃ u f g, recordEffect t t now' key state receipt policy prepared media = .ok (u, true) ∧
        t.effects.get? key = some f ∧ u.effects.get? key = some g ∧ SameButRevision f g :=
  have hstep (s : Db) (c : Option EffectCall) (t : Db) (_ : True) (h : EffectStep s c t) :
      True ∧ EffectsForward s t := ⟨trivial, h.forward⟩
  ⟨Run.rel EffectsForward.refl EffectsForward.trans hstep hr trivial,
    fun hseen hnow h hrep => recordEffect_repeat hseen hnow h hrep⟩

/-- One effect row, stored with a receipt. -/
def oneEffect (receipt : Json) : Db :=
  { effects := .insert .empty ⟨"k", "w", "tool", .prepared, encodeJson receipt, 0, 0⟩ }

/-- `record_effect` of one row without protocol objects or media. -/
def report (db : Db) (now : Time) (state : EffectState) (receipt : Json) : Except Err (Db × Bool) :=
  recordEffect db db now "k" state receipt ⟨0, 0⟩ [] none

def Db.uncertain (db : Db) : Option Json :=
  (db.effects.get? "k").map fun e => (e.receiptJson.value.get "outcome").get "uncertain"

theorem effect_receipts_forward_report :
    let db := oneEffect (.obj [("outcome", .obj [("side_effecting", .bool true)])])
    let receipt : Json := .obj [("result", .obj [("ok", .bool true)])]
    let t := committed db (report db 1 .unknown receipt)
    EffectsForward db t ∧ ∃ u f g, report t 2 .unknown receipt = .ok (u, true) ∧
      t.effects.get? "k" = some f ∧ u.effects.get? "k" = some g ∧ SameButRevision f g := by
  intro db receipt t
  have hrun : Run EffectStep db
      [some ⟨.record db "k" .unknown receipt ⟨0, 0⟩ [] none, 1, .ok true⟩] t :=
    .single (.of_result (by decide +kernel))
  have hok : ∀ x : Except Err (Db × Bool), x.toOption.map Prod.snd = some true →
      x = .ok (committed db x, true) := by
    intro x hx
    cases x with
    | error e => simp [Except.toOption] at hx
    | ok r => simpa [committed, Except.toOption, Prod.ext_iff] using hx
  have hget : db.effects.get? "k" = some ⟨"k", "w", "tool", .prepared, encodeJson
      (.obj [("outcome", .obj [("side_effecting", .bool true)])]), 0, 0⟩ := by rfl
  exact ⟨(effect_receipts_forward hrun).1, (effect_receipts_forward hrun).2 hget hget
    (hok _ (by decide +kernel)) (.inr (by decide +kernel))⟩

/-- Two reports that do not repeat: a caller's own version-1 invocation is in conflict with
the revision it was stored under, and a role drawn from the first report makes the second
one uncertain. -/
theorem repeated_report_differs :
    (let db := oneEffect (.obj [])
      let receipt : Json := .obj [("invocation", .obj [("revision", .int 0), ("version", .int 1)])]
      let t := committed db (report db 1 .accepted receipt)
      (report db 1 .accepted receipt).toOption.map Prod.snd = some true ∧
        (report t 2 .accepted receipt).toOption.map Prod.snd = none) ∧
    (let db := oneEffect (.obj [])
      let receipt : Json := .obj [("result", .obj [("ok", .bool true)])]
      let t := committed db (report db 1 .unknown receipt)
      let u := committed t (report t 2 .unknown receipt)
      (report db 1 .unknown receipt).toOption.map Prod.snd = some true ∧
        (report t 2 .unknown receipt).toOption.map Prod.snd = some true ∧
        t.uncertain = some (.bool false) ∧ u.uncertain = some (.bool true)) := by
  decide +kernel

end Yuki
