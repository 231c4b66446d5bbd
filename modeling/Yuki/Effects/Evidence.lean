import Yuki.Effects.Record

/-! Reading receipts back does not depend on the order of members: what a verdict
says of a receipt it also says of the receipt as it is stored. -/

namespace Yuki

open Json WorkRepository

/-- The members by which an accepted receipt is recognized. -/
def verdictKeys : List String :=
  ["ok", "pending", "uncertain", "executed", "status", "run_id"]

theorem lookup_retained (body : Json) (keep : Json → Bool) (names : List String) {k : String}
    (hk : k ∉ names) : (retained body keep names).lookup k = none := by
  induction names with
  | nil => rfl
  | cons n names ih =>
    simp only [List.mem_cons, not_or] at hk
    have hh : (retained body keep (n :: names)).lookup k = (retained body keep names).lookup k := by
      simp only [retained, List.filterMap_cons]
      split
      · rfl
      · rename_i v hv
        obtain ⟨w, -, rfl⟩ := Option.map_eq_some_iff.mp hv
        rw [lookup_cons, if_neg hk.1]
    rw [hh, ih hk.2]

namespace Evidence

variable (e : Evidence)

theorem lookup_subject {k : String} (hk : k ∈ ["ok", "pending", "uncertain", "executed", "status"]) :
    e.subject.lookup k = none := by
  have hr : ∀ keep, (retained e.body keep ["operation_id", "device_id", "instance_id", "session_id",
      "execution_id"]).lookup k = none ∧ (retained e.body keep ["operation_status", "native_status",
      "native_pending"]).lookup k = none ∧ (retained e.body keep ["request_id",
      "resource_request_id"]).lookup k = none := by
    intro keep
    refine ⟨lookup_retained _ _ _ ?_, lookup_retained _ _ _ ?_, lookup_retained _ _ _ ?_⟩ <;>
      (revert hk k; decide)
  simp only [List.mem_cons, List.not_mem_nil, or_false] at hk
  simp only [subject, lookup_append, hr]
  cases e.action <;> rcases hk with rfl | rfl | rfl | rfl | rfl <;> simp [lookup_cons]

theorem get?_ok : e.json.get? "ok" = some (.bool e.ok) := by
  rw [json, get?_obj, lookup_append, lookup_append, e.lookup_subject (by simp)]
  rfl

theorem get?_pending : e.json.get? "pending" = some (.bool e.pending) := by
  rw [json, get?_obj, lookup_append, lookup_append, e.lookup_subject (by simp)]
  rfl

theorem get?_uncertain : e.json.get? "uncertain" = some (.bool e.uncertain) := by
  rw [json, get?_obj, lookup_append, lookup_append, e.lookup_subject (by simp)]
  rfl

theorem get?_status : e.json.get? "status" = some e.status := by
  rw [json, get?_obj, lookup_append, lookup_append, e.lookup_subject (by simp)]
  rfl

theorem get?_executed : e.json.get? "executed" = some (e.body.getD "executed" (.bool true)) := by
  rw [json, get?_obj, lookup_append, lookup_append, e.lookup_subject (by simp)]
  simp [verdict, extras, lookup_cons, lookup_append]
  split <;> simp [lookup_cons]

theorem get?_tool : e.json.get? "tool" = some e.tool := by
  simp [json, subject]

theorem get?_side_effecting : e.json.get? "side_effecting" = some e.sideEffecting := by
  rw [json, get?_obj, subject]
  cases e.action <;> simp [lookup_cons]

theorem get?_run_id : e.json.get? "run_id" = some (e.body.get "run_id") := by
  rw [json, get?_obj, subject]
  cases e.action <;> simp [lookup_cons]

end Evidence

theorem Json.SameField.all_isBool {a b : Json} {k : String} (h : SameField a b k) :
    (a.get? k).all isBool = (b.get? k).all isBool := by
  rw [SameField] at h
  cases ha : a.get? k with
  | none =>
    cases hb : b.get? k with
    | none => rfl
    | some w => simp [ha, hb] at h
  | some v =>
    cases hb : b.get? k with
    | none => simp [ha, hb] at h
    | some w =>
      have hvw : Same v w := by simpa [ha, hb, Same] using h
      simp [hvw.isBool]

theorem Json.Same.hashedIn {v w : Json} (h : Same v w) (names : List String) :
    v.hashedIn names = w.hashedIn names := by
  simp only [Json.hashedIn, h.isArr, h.isObj, h.beq_str]

theorem Json.Same.noneOrZero {v w : Json} (h : Same v w) : v.noneOrZero = w.noneOrZero := by
  simp only [Json.noneOrZero, h.beq_null, h.pyEq_left]

theorem Json.Same.ite {a b c d : Json} {p q : Prop} [Decidable p] [Decidable q] (hpq : p ↔ q)
    (h : Same a b) (h' : Same c d) : Same (if p then a else c) (if q then b else d) := by
  by_cases hp : p
  · simpa [hp, hpq.mp hp] using h
  · rw [if_neg hp, if_neg fun hq => hp (hpq.mpr hq)]
    exact h'

theorem progressBody_same {d d' : Json} (h : Same d d') : Same (progressBody d) (progressBody d') := by
  have hv : Same (if d.isObj then d else .obj []) (if d'.isObj then d' else .obj []) :=
    .ite (by rw [h.isObj]) h (.refl _)
  exact .ite (by rw [(hv.get "progress").isObj]) (hv.get "progress") hv

theorem controlBody_same {body body' args args' : Json} (hb : Same body body')
    (ha : Same args args') : Same (controlBody body args) (controlBody body' args') := by
  have hact := ha.get "action"
  by_cases hs : (args.get "action").isStr = true
  · have he : args.get "action" = args'.get "action" :=
      hact.eq_of_scalar (by cases h : args.get "action" <;> simp_all [isStr, isObj])
        (by cases h : args.get "action" <;> simp_all [isStr, isArr])
    unfold controlBody
    rw [he]
    split
    · exact (hb.field _).getD hb
    · exact hb.get _
    all_goals first | exact hb | exact .refl _
  · have hs' : ¬ (args'.get "action").isStr = true := by rwa [← hact.isStr]
    have hn : ∀ b a : Json, ¬ (a.get "action").isStr = true → controlBody b a = .null := by
      intro b a hna
      unfold controlBody
      cases h : a.get "action" <;> simp_all [isStr]
    rw [hn _ _ hs, hn _ _ hs']
    exact .refl _

theorem controlAdmitted_same {c c' : Json} (h : Same c c') :
    controlAdmitted c = controlAdmitted c' := by
  simp only [controlAdmitted, h.isObj, (h.get _).beq_bool]

theorem effectStatus_same {b b' : Json} (h : Same b b') (admitted : Bool) :
    effectStatus admitted b = effectStatus admitted b' := by
  have hs := h.get "status"
  unfold effectStatus
  by_cases hstr : (b.get "status").isStr = true
  · rw [hs.eq_of_isStr hstr]
  · rw [if_neg hstr, if_neg fun h' => hstr (hs.isStr ▸ h')]

/-- What the verdict is drawn from agrees. -/
structure SameVerdict (e e' : Evidence) : Prop where
  ok : e.ok = e'.ok
  pending : e.pending = e'.pending
  uncertain : e.uncertain = e'.uncertain
  status : e.status = e'.status
  body : Same e.body e'.body

theorem SameVerdict.field {e e' : Evidence} (h : SameVerdict e e') {k : String}
    (hk : k ∈ verdictKeys) : SameField e.json e'.json k := by
  simp only [verdictKeys, List.mem_cons, List.not_mem_nil, or_false] at hk
  rcases hk with rfl | rfl | rfl | rfl | rfl | rfl
  · exact .of_eq (by rw [e.get?_ok, e'.get?_ok, h.ok])
  · exact .of_eq (by rw [e.get?_pending, e'.get?_pending, h.pending])
  · exact .of_eq (by rw [e.get?_uncertain, e'.get?_uncertain, h.uncertain])
  · rw [SameField, e.get?_executed, e'.get?_executed]
    exact congrArg some ((h.body.field "executed").getD (.refl _))
  · exact .of_eq (by rw [e.get?_status, e'.get?_status, h.status])
  · rw [SameField, e.get?_run_id, e'.get?_run_id]
    exact congrArg some (h.body.get "run_id")

/-- The parts of a result the verdict is drawn from agree. -/
structure SameResult (o o' : ToolExecutionResult) : Prop where
  ok : o.ok = o'.ok
  uncertain : o.uncertain = o'.uncertain
  data : Same o.data o'.data

/-- Only the core's own tools report a process. -/
theorem processReceipt_of_provider {o : ToolExecutionResult} (h : o.providerId ≠ "core") :
    processReceipt o = .ok (.obj []) := by
  have hh : (o.providerId == "core") = false := by simpa using h
  rw [processReceipt, hh]
  rfl

theorem readExecution_same {o o' : ToolExecutionResult} {tool se args args' : Json} {e : Evidence}
    (ho : SameResult o o') (hp : o.providerId ≠ "core") (hp' : o'.providerId ≠ "core")
    (ha : Same args args') (h : readExecution o tool se args = .ok e) :
    ∃ e', readExecution o' tool se args' = .ok e' ∧ SameVerdict e e' := by
  have hok : ∃ e', readExecution o' tool se args' = .ok e' := by
    simp only [readExecution, bind_eq_ok, pure_eq_ok] at h ⊢
    obtain ⟨sending, hs, reading, hr, -⟩ := h
    rw [ha.isObj, (ha.get "action").hashedIn] at hr
    exact ⟨_, sending, hs, reading, hr, _, processReceipt_of_provider hp', rfl⟩
  obtain ⟨e', he'⟩ := hok
  refine ⟨e', he', ?_⟩
  simp only [readExecution, bind_eq_ok, pure_eq_ok, processReceipt_of_provider hp,
    processReceipt_of_provider hp', Except.ok.injEq] at h he'
  obtain ⟨-, -, -, -, -, rfl, rfl⟩ := h
  obtain ⟨-, -, -, -, -, rfl, rfl⟩ := he'
  have hbody := progressBody_same ho.data
  have hctl : Same (if (tool == .str "external_agent" && args.isObj) = true then
        controlBody (progressBody o.data) args else .null)
      (if (tool == .str "external_agent" && args'.isObj) = true then
        controlBody (progressBody o'.data) args' else .null) :=
    .ite (by rw [ha.isObj]) (controlBody_same hbody ha) (.refl _)
  generalize (if (tool == .str "external_agent" && args.isObj) = true then
    controlBody (progressBody o.data) args else .null) = c at hctl
  generalize (if (tool == .str "external_agent" && args'.isObj) = true then
    controlBody (progressBody o'.data) args' else .null) = c' at hctl
  have heff : Same (if c.isObj = true then c else progressBody o.data)
      (if c'.isObj = true then c' else progressBody o'.data) :=
    .ite (by rw [hctl.isObj]) hctl hbody
  have hadm := controlAdmitted_same hctl
  refine ⟨?_, ?_, ?_, ?_, hbody⟩ <;> dsimp only
  · rw [hadm, ho.ok, (heff.get "error").truthy, effectStatus_same heff,
      (heff.get "exit_code").noneOrZero]
  · rw [hadm, (heff.get "pending").truthy, effectStatus_same heff]
  · rw [hadm, ho.uncertain, (heff.get "uncertain").truthy, effectStatus_same heff]
  · rw [hadm, effectStatus_same heff]

theorem boolField_same {raw raw' : Json} (h : Same raw raw') (key : String) :
    boolField raw key = boolField raw' key := by
  have hg := h.get key
  unfold boolField
  by_cases hn : raw.get key = .null
  · rw [hn, hg.eq_null.mp hn]
  by_cases hb : (raw.get key).isBool = true
  · cases hv : raw.get key with
    | bool b => rw [(hg.eq_bool b).mp hv]
    | _ => simp [hv, isBool] at hb
  · have hn' : raw'.get key ≠ .null := fun e => hn (hg.eq_null.mpr e)
    have hb' : ¬ (raw'.get key).isBool = true := hg.isBool ▸ hb
    cases hv : raw.get key <;> cases hw : raw'.get key <;> simp_all [isBool]

/-- A historical dictionary in its parts. -/
theorem normalizeLegacyResult_obj {raw : Json} {providerId : String} {tool : Json}
    {r : ToolExecutionResult} (ho : raw.isObj = true) :
    normalizeLegacyResult raw providerId tool = .ok r ↔
    ∃ okField committed fin retryable uncertain, boolField raw "ok" = .ok okField ∧
      boolField raw "mutation_committed" = .ok committed ∧
      boolField raw "finalize_after_commit" = .ok fin ∧
      boolField raw "retryable" = .ok retryable ∧ boolField raw "uncertain" = .ok uncertain ∧
      raw.get? "ok" ≠ some .null ∧
      historicalResult raw providerId tool okField committed retryable uncertain = r := by
  cases raw with
  | obj fs =>
    simp only [normalizeLegacyResult, bind_eq_ok, pure_eq_ok, require_eq_ok]
    constructor
    · rintro ⟨-, -, a, ha, b, hb, c, hc, d, hd, e, he, -, hn, hr⟩
      exact ⟨a, b, c, d, e, ha, hb, hc, hd, he, hn, hr⟩
    · rintro ⟨a, b, c, d, e, ha, hb, hc, hd, he, hn, hr⟩
      exact ⟨(), .inr rfl, a, ha, b, hb, c, hc, d, hd, e, he, (), hn, hr⟩
  | _ => simp [isObj] at ho

theorem normalizeLegacyResult_same {raw raw' : Json} {providerId : String} {tool : Json}
    {r : ToolExecutionResult} (ho : raw.isObj = true) (h : Same raw raw')
    (hr : normalizeLegacyResult raw providerId tool = .ok r) :
    ∃ r', normalizeLegacyResult raw' providerId tool = .ok r' ∧ r.ok = r'.ok ∧
      r.uncertain = r'.uncertain ∧ r.providerId = providerId ∧ r'.providerId = providerId := by
  obtain ⟨okField, committed, fin, retryable, uncertain, h₁, h₂, h₃, h₄, h₅, h₆, rfl⟩ :=
    (normalizeLegacyResult_obj ho).mp hr
  refine ⟨_, (normalizeLegacyResult_obj (h.isObj ▸ ho)).mpr ⟨okField, committed, fin, retryable,
    uncertain, boolField_same h _ ▸ h₁, boolField_same h _ ▸ h₂, boolField_same h _ ▸ h₃,
    boolField_same h _ ▸ h₄, boolField_same h _ ▸ h₅, fun e => h₆ ?_, rfl⟩, rfl, rfl, rfl, rfl⟩
  have hf := h.field "ok"
  rw [SameField, e] at hf
  cases hv : raw.get? "ok" with
  | none => simp [hv] at hf
  | some v =>
    have hs : v.sortKeys = Json.null.sortKeys := by simpa [hv] using hf
    rw [sortKeys_eq_null.mp hs]

theorem legacyPayload_same {v w : Json} (h : Same v w) :
    Same (legacyPayload v) (legacyPayload w) := by
  by_cases hs : v.isStr = true
  · rw [h.eq_of_isStr hs]
    exact .refl _
  · have hn : ∀ j : Json, ¬ j.isStr = true → legacyPayload j = j := by
      intro j hj
      cases j <;> simp_all [legacyPayload, isStr]
    rw [hn v hs, hn w (h.isStr ▸ hs)]
    exact h

theorem legacyEvidence_same {r r' : Json} (h : ∀ k, SameField r r' k) {tool : String} {e : Json}
    (he : legacyEvidence r tool = .ok e) :
    ∃ e', legacyEvidence r' tool = .ok e' ∧ ∀ k ∈ verdictKeys, SameField e e' k := by
  have hp := legacyPayload_same (h "result").get
  have hd : Same (legacyData (legacyPayload (r.get "result")))
      (legacyData (legacyPayload (r'.get "result"))) :=
    .ite (by rw [((hp.field "data").getD hp).isObj]) ((hp.field "data").getD hp) hp
  have hb := progressBody_same hd
  have hi := (h "invocation").getD (.refl (.obj []))
  simp only [legacyEvidence, bind_eq_ok, require_eq_ok] at he ⊢
  obtain ⟨-, ⟨ho, hok, ht⟩, -, hst, -, htr, -, hty, result, hn, he⟩ := he
  obtain ⟨result', hn', hrok, hru, hrp, hrp'⟩ := normalizeLegacyResult_same ho hp hn
  obtain ⟨ev, hev, rfl⟩ := map_eq_ok.mp he
  have hres : SameResult { result with data := legacyData (legacyPayload (r.get "result")) }
      { result' with data := legacyData (legacyPayload (r'.get "result")) } := ⟨hrok, hru, hd⟩
  have hargs : Same (if (r.getD "invocation" (.obj [])).isObj = true then
        .obj [("action", (r.getD "invocation" (.obj [])).get "action")] else .obj [])
      (if (r'.getD "invocation" (.obj [])).isObj = true then
        .obj [("action", (r'.getD "invocation" (.obj [])).get "action")] else .obj []) := by
    refine .ite (by rw [hi.isObj]) ?_ (.refl _)
    rw [same_obj_iff rfl rfl]
    intro k
    rw [SameField, get?_obj, get?_obj, lookup_cons, lookup_cons]
    split
    · exact congrArg some (hi.get "action")
    · rfl
  obtain ⟨ev', hev', hv⟩ := readExecution_same hres (by rw [hrp]; decide) (by rw [hrp']; decide)
    hargs hev
  refine ⟨ev'.json, ⟨(), ⟨hp.isObj ▸ ho, (hp.get "ok").isBool ▸ hok, fun e => ht ?_⟩, (), ?_, (),
    fun e => htr ?_, (), ?_, result', hn', map_eq_ok.mpr ⟨ev', hev', rfl⟩⟩, fun k hk => hv.field hk⟩
  · exact ((hp.get "truncated").eq_bool true).mpr e
  · rwa [← (hb.get "status").eq_null, ← (hb.get "status").isStr]
  · exact ((hb.get "truncated").eq_bool true).mpr e
  · simpa [← (hb.field _).all_isBool] using hty

theorem validEvidence_same {v w : Json} (h : Same v w) : validEvidence v = validEvidence w := by
  simp only [validEvidence, h.isObj, (h.get _).isBool, (h.get _).beq_bool, (h.get _).isStr,
    (h.get _).beq_null, (h.field _).all_isBool]

theorem originalTool_same {r r' : Json} (h : SameField r r' "invocation") (assumed : String) :
    originalTool r assumed = originalTool r' assumed := by
  have ht := (h.getD (.refl (.obj []))).get "tool_id"
  unfold originalTool
  by_cases hs : ((r.getD "invocation" (.obj [])).get "tool_id").isStr = true
  · rw [ht.eq_of_isStr hs]
  · have hs' := ht.isStr ▸ hs
    cases hv : (r.getD "invocation" (.obj [])).get "tool_id" <;>
      cases hw : (r'.getD "invocation" (.obj [])).get "tool_id" <;> simp_all [isStr]

theorem readEvidence_same {r r' : Json} (h : ∀ k, SameField r r' k) (tool : String) :
    ∀ k ∈ verdictKeys, SameField (readEvidence r tool) (readEvidence r' tool) k := by
  have ho := (h "outcome").get
  unfold readEvidence
  dsimp only
  rw [← validEvidence_same ho, ← ho.beq_null, ← show (r.get "outcome" == .obj []) =
    (r'.get "outcome" == .obj []) by rw [Bool.eq_iff_iff, beq_iff_eq, beq_iff_eq, ho.eq_emptyObj]]
  split
  · exact fun k _ => ho.field k
  split
  · intro k hk
    cases he : legacyEvidence r tool with
    | ok e =>
      obtain ⟨e', he', hv⟩ := legacyEvidence_same h he
      rw [he']
      exact hv k hk
    | error err =>
      cases he' : legacyEvidence r' tool with
      | ok e' =>
        obtain ⟨e, hok, -⟩ := legacyEvidence_same (fun k => (h k).symm) he'
        simp [he] at hok
      | error err' => exact .of_eq rfl
  · have hf : ∀ k, SameField (.obj (r.get "outcome").fields) (.obj (r'.get "outcome").fields) k :=
      fun k => ho.field k
    have hs : ∀ k, SameField
        (((((Json.obj (r.get "outcome").fields).set "ok" (.bool false)).set "uncertain"
          (.bool true)).set "side_effecting" (.bool true)).set "executed" (.bool true))
        (((((Json.obj (r'.get "outcome").fields).set "ok" (.bool false)).set "uncertain"
          (.bool true)).set "side_effecting" (.bool true)).set "executed" (.bool true)) k :=
      fun k => ((((hf k).set (.refl _)).set (.refl _)).set (.refl _)).set (.refl _)
    intro k _
    rw [← (hs "status").get.beq_null, ← (hs "status").get.isStr]
    split
    · exact hs k
    · exact (hs k).erase

/-- Naming the external agent writes its two members only. -/
theorem sameField_named (result invocation : Json) {k : String} (ht : k ≠ "tool")
    (ha : k ≠ "action") : SameField
      (if (invocation.get "tool_id" == .str "external_agent") = true then
        match invocation.get? "action" with
        | some action =>
          if (result.set "tool" (.str "external_agent")).has "action" = true then
            result.set "tool" (.str "external_agent")
          else (result.set "tool" (.str "external_agent")).set "action" action
        | none => result.set "tool" (.str "external_agent")
      else result) result k := by
  apply SameField.of_eq
  split
  · split
    · split <;> simp [ht, ha]
    · simp [ht]
  · rfl

/-- An accepted tool receipt means the same in whatever order its members stand. -/
theorem historicalEvidence_same {r r' : Json} (h : ∀ k, SameField r r' k) :
    ∀ k ∈ verdictKeys, SameField (historicalEvidence r .accepted "tool")
      (historicalEvidence r' .accepted "tool") k := by
  have hi := (h "invocation").getD (.refl (.obj []))
  have hr := readEvidence_same h (originalTool r "legacy_tool")
  intro k hk
  have hne : k ≠ "tool" ∧ k ≠ "action" := by
    revert k
    decide
  have hstatus := (hr "status" (by simp [verdictKeys])).get
  simp only [historicalEvidence, finalTransport, originalTool_same (h "invocation") "legacy_tool"]
    at hr hstatus ⊢
  refine (sameField_named _ _ hne.1 hne.2).trans
    (SameField.trans ?_ (sameField_named _ _ hne.1 hne.2).symm)
  simp only [← hstatus.beq_str]
  split
  · exact ((hr k hk).set (.refl _)).set (.refl _)
  split
  · exact (hr k hk).set (.refl _)
  · exact hr k hk

theorem canonical_same {r r' : Json} (h : ∀ k, SameField r r' k) :
    Same (canonical r) (canonical r') := by
  have hh := historicalEvidence_same h
  rw [same_obj_iff rfl rfl]
  intro k
  refine (h k).erase.set ?_
  simp only [List.map_cons, List.map_nil]
  rw [same_obj_iff rfl rfl]
  intro l
  simp only [SameField, get?_obj, lookup_cons, List.lookup_nil]
  have hg : ∀ n ∈ verdictKeys, ((historicalEvidence r .accepted "tool").get n).sortKeys =
      ((historicalEvidence r' .accepted "tool").get n).sortKeys := fun n hn => (hh n hn).get
  simp only [verdictKeys, List.mem_cons, List.not_mem_nil, or_false, forall_eq_or_imp,
    forall_eq] at hg
  obtain ⟨h₁, h₂, h₃, h₄, h₅, h₆⟩ := hg
  split_ifs <;> simp_all

theorem extends_same {a b : Json} (h : Same a b) : extends_ a b = true := by
  rw [extends_, List.all_eq_true]
  exact fun f _ => (h.get f.1).pyEq

end Yuki
