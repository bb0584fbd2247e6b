/-
# Prompts that page their evidence down

`engineering/revision_context.py` and `engineering/design_context.py`: where the whole state
does not fit the budget of a prompt, a capsule of it is sent instead, with the newest
evidence only, and with less of it at each attempt.

The design capsule keeps no evidence at the limit zero. The revision capsule slices from
`-max(0, limit)`, and a slice from zero is the whole list: the last attempt, which is to send
none, sends everything (`revisionExact_iff`). What the last attempt was to save is then
refused (`revisionBuilt_iff`).
-/
import OpenFoamAgent.Library.TrailingRuns
import OpenFoamAgent.Llm.Context

namespace OpenFoamAgent
namespace Engineering

open Llm Python

/-! ### Values of a payload -/

/-- `payload.get(key)`. -/
def fieldOf (payload : List (Text × Json)) (key : String) : Json :=
  (Json.lookup payload key).getD .null

/-- `payload.get(key) or []`. -/
def fieldOrEmpty (payload : List (Text × Json)) (key : String) : Json :=
  if (fieldOf payload key).truthy then fieldOf payload key else .list []

/-- `list(payload.get(key) or [])`: the items, the keys of an object, the characters of a
text. -/
def listField (payload : List (Text × Json)) (key : String) : Except PythonError (List Json) :=
  match fieldOrEmpty payload key with
  | .list items => .ok items
  | .dict entries => .ok (entries.map (.str ·.1))
  | .str t => .ok (t.map fun c => .str [c])
  | _ => .error .type

/-- `items[start:]`. -/
def fromIndex {α : Type} (start : ℤ) (items : List α) : List α :=
  if start < 0 then items.drop (items.length - start.natAbs) else items.drop start.toNat

/-! ### The revision capsule -/

/-- The capsule of `project_revision_capsule` around the evidence and the observations. -/
def revisionCapsule (payload : List (Text × Json)) (evidence observations : List Json) : Json :=
  .object
    [("state_mode", .str "human_revision_delta_v1".toList),
      ("phase", fieldOf payload "phase"),
      ("step", fieldOf payload "step"),
      ("confirmed_facts", fieldOrEmpty payload "confirmed_facts"),
      ("intake_sha256", fieldOf payload "intake_sha256"),
      ("baseline_plan_sha256", fieldOf payload "baseline_plan_sha256"),
      ("baseline_manifest_sha256", fieldOf payload "baseline_manifest_sha256"),
      ("baseline_plan_core", fieldOf payload "baseline_plan_core"),
      ("active_revision_proposal", fieldOf payload "active_revision_proposal"),
      ("feedback_observations", fieldOrEmpty payload "feedback_observations"),
      ("current_case_files", fieldOrEmpty payload "current_case_files"),
      ("mesh_evidence", fieldOf payload "mesh_evidence"),
      ("runtime_summary", fieldOf payload "runtime_summary"),
      ("recent_observations", .list observations),
      ("available_evidence", .list evidence),
      ("bindings", fieldOf payload "bindings"),
      ("budget", fieldOf payload "budget"),
      ("revision_contract", .object
        [("mode", .str "delta_only".toList),
          ("plan_update_interface",
            .str "prefer plan_patch; updated_plan is legacy compatibility only".toList),
          ("controller_preserves_immutable_plan_metadata", .bool true),
          ("case_mutation_authority", .str "CaseDeltaGraph".toList),
          ("read_exact_files_on_demand", .bool true)])]

/-- `project_revision_capsule`. -/
def projectRevisionCapsule (payload : List (Text × Json)) (evidenceLimit observationLimit : ℤ) :
    Except PythonError Json := do
  let evidence ← listField payload "available_evidence"
  let observations ← listField payload "recent_observations"
  return revisionCapsule payload (fromIndex (-max 0 evidenceLimit) evidence)
    (fromIndex (-max 0 observationLimit) observations)

/-! ### The design capsule -/

section
variable (print : Json → Text)

/-- `str(value)`; `print` gives it for values other than texts. -/
def strOf : Json → Text
  | .str t => t
  | value => print value

/-- `record.get(key, "")`. -/
def fieldOrText (record : List (Text × Json)) (key : String) : Json :=
  (Json.lookup record key).getD (.str [])

/-- A record of `_summary_only_evidence`. -/
def summaryOf (detailed : Bool) (record : List (Text × Json)) : Json :=
  .object
    ([("evidence_id", fieldOf record "evidence_id"),
      ("kind", fieldOf record "kind"),
      ("reference", .str (compactText (strOf print (fieldOrText record "reference")) 240)),
      ("summary", .str (compactText (strOf print (fieldOrText record "summary")) 360))] ++
      match fieldOf record "detail" with
      | .null => []
      | .str [] => []
      | detail =>
        if detailed then [("detail", .str (compactText (strOf print detail) 520))] else [])

/-- `_summary_only_evidence`. -/
def summaryOnlyEvidence (records : List Json) (keepDetail : ℕ) :
    Except PythonError (List Json) :=
  records.zipIdx.mapM fun record => do
    return summaryOf print (records.length - keepDetail ≤ record.2) (← record.1.entries)

/-- The names of `_minimal_environment_hint`. -/
def environmentNames : List Text :=
  ["openfoam_version", "version", "foam_version", "WM_PROJECT_VERSION", "foam_api",
    "installation", "platform", "checkMesh", "native_available"].map String.toList

/-- `isinstance(value, (str, int, float, bool)) or value is None`. -/
def isScalar : Json → Bool
  | .list _ => false
  | .dict _ => false
  | _ => true

/-- `_minimal_environment_hint`. -/
def minimalEnvironmentHint : Json → Json
  | .dict entries =>
    let result := entries.filter (·.1 ∈ environmentNames)
    if result.isEmpty then .dict ((entries.take 8).filter (isScalar ·.2)) else .dict result
  | value => value

/-- The number of all evidence that the context of a payload tells. -/
def evidenceTotal : Json → Json
  | .dict context => fieldOf context "total_observed"
  | _ => .null

/-- The evidence of `project_design_capsule`. -/
def designEvidence (evidenceLimit : ℤ) (evidence : List Json) : List Json :=
  if 0 ≤ evidenceLimit then
    if evidenceLimit = 0 then [] else fromIndex (-evidenceLimit) evidence
  else evidence

/-- The capsule of `project_design_capsule` around the evidence it shows. -/
def designCapsule (payload : List (Text × Json)) (evidenceShown : ℕ)
    (evidence gaps observations : List Json) : Json :=
  .object
    [("state_mode", .str "partitioned_engineering_design".toList),
      ("phase", fieldOf payload "phase"),
      ("step", fieldOf payload "step"),
      ("confirmed_intake", fieldOf payload "confirmed_intake"),
      ("engineering_assumption_policy", fieldOf payload "engineering_assumption_policy"),
      ("evidence_policy", fieldOf payload "evidence_policy"),
      ("verified_execution_candidates",
        (Json.lookup payload "verified_execution_candidates").getD (.list [])),
      ("evidence_retrieval_policy", fieldOf payload "evidence_retrieval_policy"),
      ("budget", fieldOf payload "budget"),
      ("available_evidence", .list evidence),
      ("evidence_context", (Json.lookup payload "evidence_context").getD (.dict [])),
      ("evidence_gap_status", .list (fromIndex (-3) gaps)),
      ("recent_observations", .list (fromIndex (-2) observations)),
      ("environment_hint", minimalEnvironmentHint (fieldOf payload "environment_hint")),
      ("context_partition", .object
        [("active", .bool true),
          ("evidence_shown", .ofNat evidenceShown),
          ("evidence_total", evidenceTotal (fieldOf payload "evidence_context")),
          ("semantics", .str ("Confirmed intake/contracts are complete. Evidence is a " ++
            "relevance/recency projection of a durable registry; absence from this capsule " ++
            "does not mean unsupported. Request only a genuinely missing tool/version " ++
            "fact.").toList)])]

/-- `project_design_capsule`. -/
def projectDesignCapsule (payload : List (Text × Json)) (evidenceLimit : ℤ) :
    Except PythonError Json := do
  let evidence := designEvidence evidenceLimit (← listField payload "available_evidence")
  let shown ← summaryOnlyEvidence print evidence (min 3 evidence.length)
  let gaps ← listField payload "evidence_gap_status"
  let observations ← listField payload "recent_observations"
  return designCapsule payload evidence.length shown gaps observations

/-! ### Attempts -/

/-- The first attempt from the `n`-th on whose capsule fits, and its number. A capsule over the
budget leads to the next attempt, any other exception out of the loop. -/
def firstFitting {α : Type} (capsuleOf : α → Except PythonError Json) (instruction : Text)
    (maxChars : ℤ) : ℕ → List α → Except PythonError (PromptBuildResult × Json × α × ℕ)
  | _, [] => .error .runtime
  | n, attempt :: attempts => do
    let capsule ← capsuleOf attempt
    match buildBoundedJsonPrompt instruction capsule maxChars with
    | .ok result => .ok (result, capsule, attempt, n)
    | .error .runtime => firstFitting capsuleOf instruction maxChars (n + 1) attempts
    | .error error => .error error

/-- The limits of evidence and observations that `build_partitioned_revision_prompt` tries. -/
def revisionAttempts : List (ℕ × ℕ) := [(4, 3), (2, 2), (1, 1), (0, 0)]

/-- `build_partitioned_revision_prompt`. -/
def buildPartitionedRevisionPrompt (instruction : Text) (payload : List (Text × Json))
    (maxChars : ℤ) : Except PythonError (PromptBuildResult × Json × Json) := do
  let (result, capsule, limits, index) ← firstFitting
    (fun limits => projectRevisionCapsule payload limits.1 limits.2) instruction maxChars 1
    revisionAttempts
  return (result, capsule, .object
    [("revisionPartitioned", .ofNat 1),
      ("revisionEvidenceLimit", .ofNat limits.1),
      ("revisionObservationLimit", .ofNat limits.2),
      ("revisionPartitionAttempts", .ofNat index)])

/-- The limits of evidence that `build_partitioned_design_prompt` tries, each once. -/
def designLimits (initialEvidenceLimit : ℤ) : List ℕ :=
  [initialEvidenceLimit, min initialEvidenceLimit 6, 4, 2, 0].foldl
    (fun limits candidate =>
      if candidate.toNat ∈ limits then limits else limits ++ [candidate.toNat]) []

/-- `build_partitioned_design_prompt`. -/
def buildPartitionedDesignPrompt (instruction : Text) (payload : List (Text × Json))
    (maxChars initialEvidenceLimit : ℤ) :
    Except PythonError (PromptBuildResult × Json × Json) := do
  let (result, capsule, evidenceLimit, index) ← firstFitting
    (fun limit : ℕ => projectDesignCapsule print payload limit) instruction maxChars 1
    (designLimits initialEvidenceLimit)
  return (result, capsule, .object
    [("partitioned", .ofNat 1),
      ("partitionEvidenceLimit", .ofNat evidenceLimit),
      ("partitionAttempts", .ofNat index)])

end

/-! ### Slices -/

theorem fromIndex_zero {α : Type} (items : List α) : fromIndex 0 items = items := rfl

theorem fromIndex_neg {α : Type} {limit : ℤ} (h : 0 < limit) (items : List α) :
    fromIndex (-limit) items = suffixOf limit.toNat items := by
  rw [fromIndex, if_pos (by omega), suffixOf, Int.natAbs_neg,
    show limit.natAbs = limit.toNat by omega]

theorem suffixOf_zero {α : Type} (items : List α) : suffixOf 0 items = [] := by
  rw [suffixOf, Nat.sub_zero, List.drop_length]

theorem suffixOf_map {α β : Type} (f : α → β) (n : ℕ) (items : List α) :
    suffixOf n (items.map f) = (suffixOf n items).map f := by
  rw [suffixOf, suffixOf, List.length_map, List.map_drop]

/-- The slice from the end keeps what the limit allows, unless the limit is zero. -/
theorem fromIndex_neg_max_iff {α : Type} (limit : ℤ) (items : List α) :
    fromIndex (-max 0 limit) items = suffixOf limit.toNat items ↔ 0 < limit ∨ items = [] := by
  by_cases h : 0 < limit
  · rw [max_eq_right h.le, fromIndex_neg h]
    exact iff_of_true rfl (.inl h)
  · rw [max_eq_left (not_lt.1 h), neg_zero, fromIndex_zero,
      show limit.toNat = 0 by omega, suffixOf_zero]
    exact (or_iff_right h).symm

/-! ### Payloads and their capsules -/

/-- A payload as the controllers write it: lists, or nothing, under the keys that are read as
lists, and objects as the records of evidence. -/
structure ContextPayload where
  entries : List (Text × Json)
  evidence : List (List (Text × Json))
  observations : List Json
  gaps : List Json
  listField_evidence : listField entries "available_evidence" = .ok (evidence.map .dict)
  listField_observations : listField entries "recent_observations" = .ok observations
  listField_gaps : listField entries "evidence_gap_status" = .ok gaps

/-- The revision capsule has the newest evidence and observations that its limits allow. -/
def RevisionExact (payload : ContextPayload) (evidenceLimit observationLimit : ℤ) : Prop :=
  ∃ capsule, projectRevisionCapsule payload.entries evidenceLimit observationLimit = .ok capsule ∧
    capsule.item "available_evidence" =
      .ok (.list (suffixOf evidenceLimit.toNat (payload.evidence.map .dict))) ∧
    capsule.item "recent_observations" =
      .ok (.list (suffixOf observationLimit.toNat payload.observations))

theorem projectRevisionCapsule_eq (payload : ContextPayload) (evidenceLimit observationLimit : ℤ) :
    projectRevisionCapsule payload.entries evidenceLimit observationLimit =
      .ok (revisionCapsule payload.entries
        (fromIndex (-max 0 evidenceLimit) (payload.evidence.map .dict))
        (fromIndex (-max 0 observationLimit) payload.observations)) := by
  rw [projectRevisionCapsule, payload.listField_evidence, payload.listField_observations]
  rfl

theorem item_revisionCapsule (payload : List (Text × Json)) (evidence observations : List Json) :
    (revisionCapsule payload evidence observations).item "available_evidence" =
        .ok (.list evidence) ∧
      (revisionCapsule payload evidence observations).item "recent_observations" =
        .ok (.list observations) := by
  constructor <;> rw [revisionCapsule, Json.object, Json.item, Json.lookup_object] <;> rfl

/-- **What the revision capsule keeps**: the newest items allowed, where no list with items
meets a limit below one. -/
theorem revisionExact_iff (payload : ContextPayload) (evidenceLimit observationLimit : ℤ) :
    RevisionExact payload evidenceLimit observationLimit ↔
      (0 < evidenceLimit ∨ payload.evidence = []) ∧
      (0 < observationLimit ∨ payload.observations = []) := by
  have hevidence : fromIndex (-max 0 evidenceLimit) (payload.evidence.map Json.dict) =
      suffixOf evidenceLimit.toNat (payload.evidence.map .dict) ↔
        0 < evidenceLimit ∨ payload.evidence = [] := by
    rw [fromIndex_neg_max_iff, List.map_eq_nil_iff]
  rw [← hevidence, ← fromIndex_neg_max_iff, RevisionExact, projectRevisionCapsule_eq]
  obtain ⟨hitem, hitem'⟩ := item_revisionCapsule payload.entries
    (fromIndex (-max 0 evidenceLimit) (payload.evidence.map .dict))
    (fromIndex (-max 0 observationLimit) payload.observations)
  constructor
  · rintro ⟨capsule, hcapsule, h, h'⟩
    obtain rfl := Except.ok.inj hcapsule
    rw [hitem, Except.ok.injEq, Json.list.injEq] at h
    rw [hitem', Except.ok.injEq, Json.list.injEq] at h'
    exact ⟨h, h'⟩
  · rintro ⟨h, h'⟩
    exact ⟨_, rfl, by rw [hitem, h], by rw [hitem', h']⟩

section
variable (print : Json → Text)

/-- An item that stands for a record of evidence: its identity and its texts, shortened. -/
def Summarizes (record : List (Text × Json)) (item : Json) : Prop :=
  item.item "evidence_id" = .ok (fieldOf record "evidence_id") ∧
    item.item "kind" = .ok (fieldOf record "kind") ∧
    item.item "reference" =
      .ok (.str (compactText (strOf print (fieldOrText record "reference")) 240)) ∧
    item.item "summary" =
      .ok (.str (compactText (strOf print (fieldOrText record "summary")) 360))

/-- The design capsule has one item for each of the newest records that its limit allows. -/
def DesignExact (payload : ContextPayload) (evidenceLimit : ℤ) : Prop :=
  ∃ capsule shown, projectDesignCapsule print payload.entries evidenceLimit = .ok capsule ∧
    capsule.item "available_evidence" = .ok (.list shown) ∧
    List.Forall₂ (Summarizes print) (suffixOf evidenceLimit.toNat payload.evidence) shown

theorem summarizes_summaryOf (detailed : Bool) (record : List (Text × Json)) :
    Summarizes print record (summaryOf print detailed record) := by
  refine ⟨?_, ?_, ?_, ?_⟩ <;> rw [summaryOf, Json.object, Json.item, Json.lookup_object] <;> rfl

/-- The records are summarised one by one, each as its place asks. -/
theorem mapM_summaryOf (total keepDetail n : ℕ) (records : List (List (Text × Json))) :
    ∃ shown, (((records.map Json.dict).zipIdx n).mapM fun record => do
        return summaryOf print (total - keepDetail ≤ record.2) (← record.1.entries)) =
          (.ok shown : Except PythonError (List Json)) ∧
      List.Forall₂ (Summarizes print) records shown := by
  induction records generalizing n with
  | nil => exact ⟨[], rfl, .nil⟩
  | cons record records ih =>
    obtain ⟨shown, hshown, hsummarizes⟩ := ih (n + 1)
    refine ⟨summaryOf print (total - keepDetail ≤ n) record :: shown, ?_,
      .cons (summarizes_summaryOf print _ record) hsummarizes⟩
    rw [List.map_cons, List.zipIdx_cons, List.mapM_cons, hshown]
    rfl

theorem designEvidence_map (evidenceLimit : ℤ) (records : List (List (Text × Json))) :
    designEvidence evidenceLimit (records.map Json.dict) =
      (if evidenceLimit < 0 then records else suffixOf evidenceLimit.toNat records).map .dict := by
  rw [designEvidence]
  rcases lt_trichotomy evidenceLimit 0 with h | rfl | h
  · rw [if_neg (by omega), if_pos h]
  · rw [if_pos le_rfl, if_pos rfl, if_neg (lt_irrefl 0), Int.toNat_zero, suffixOf_zero,
      List.map_nil]
  · rw [if_pos h.le, if_neg (by omega), if_neg (by omega), fromIndex_neg h, suffixOf_map]

/-- The capsule of a limit: what it keeps is every record where the limit is negative. -/
theorem projectDesignCapsule_eq (payload : ContextPayload) (evidenceLimit : ℤ) :
    ∃ shown, projectDesignCapsule print payload.entries evidenceLimit =
        .ok (designCapsule payload.entries shown.length shown payload.gaps
          payload.observations) ∧
      List.Forall₂ (Summarizes print)
        (if evidenceLimit < 0 then payload.evidence
          else suffixOf evidenceLimit.toNat payload.evidence) shown := by
  generalize hkept : (if evidenceLimit < 0 then payload.evidence
    else suffixOf evidenceLimit.toNat payload.evidence) = kept
  obtain ⟨shown, hshown, hsummarizes⟩ :=
    mapM_summaryOf print (kept.map Json.dict).length (min 3 (kept.map Json.dict).length) 0 kept
  refine ⟨shown, ?_, hsummarizes⟩
  rw [projectDesignCapsule, payload.listField_evidence, payload.listField_observations,
    payload.listField_gaps]
  have hevidence := designEvidence_map evidenceLimit payload.evidence
  rw [hkept] at hevidence
  have hsummary : summaryOnlyEvidence print (kept.map .dict)
      (min 3 (kept.map Json.dict).length) = .ok shown := hshown
  have hlength : (kept.map Json.dict).length = shown.length := by
    rw [List.length_map, hsummarizes.length_eq]
  rw [← hlength]
  change (do
    let shown ← summaryOnlyEvidence print
      (designEvidence evidenceLimit (payload.evidence.map .dict))
      (min 3 (designEvidence evidenceLimit (payload.evidence.map .dict)).length)
    return designCapsule payload.entries
      (designEvidence evidenceLimit (payload.evidence.map .dict)).length shown payload.gaps
      payload.observations : Except PythonError Json) = _
  rw [hevidence, hsummary]
  rfl

theorem item_designCapsule (payload : List (Text × Json)) (n : ℕ)
    (evidence gaps observations : List Json) :
    (designCapsule payload n evidence gaps observations).item "available_evidence" =
      .ok (.list evidence) := by
  rw [designCapsule, Json.object, Json.item, Json.lookup_object]
  rfl

/-- **What the design capsule keeps**: the newest records allowed, and all of them where the
limit is negative. -/
theorem designExact_iff (payload : ContextPayload) (evidenceLimit : ℤ) :
    DesignExact print payload evidenceLimit ↔ 0 ≤ evidenceLimit ∨ payload.evidence = [] := by
  obtain ⟨shown, hcapsule, hshown⟩ := projectDesignCapsule_eq print payload evidenceLimit
  rw [DesignExact, hcapsule]
  constructor
  · rintro ⟨capsule, shown', hcapsule', hitem, hshown'⟩
    obtain rfl := Except.ok.inj hcapsule'
    rw [item_designCapsule, Except.ok.injEq, Json.list.injEq] at hitem
    subst hitem
    by_cases h : 0 ≤ evidenceLimit
    · exact .inl h
    · have hlength := hshown.length_eq
      rw [if_pos (by omega), ← hshown'.length_eq, show evidenceLimit.toNat = 0 by omega,
        suffixOf_zero] at hlength
      exact .inr (List.eq_nil_of_length_eq_zero hlength)
  · intro h
    refine ⟨_, shown, rfl, item_designCapsule _ _ _ _ _, ?_⟩
    rcases h with h | h
    · rwa [if_neg (by omega)] at hshown
    · rw [h, suffixOf, List.drop_nil] at hshown ⊢
      rwa [ite_self] at hshown

end

/-! ### What fits a budget -/

/-- A level of compaction at which the prompt of a capsule keeps the budget. -/
def FitsBudget (instruction : Text) (maxChars : ℤ) (capsule : Json) : Prop :=
  ∃ limits ∈ levels, ((instruction ++ (candidateAt capsule limits).dumps).length : ℤ) ≤ maxChars

/-- The bounded builder returns a prompt exactly where one fits. -/
theorem buildBoundedJsonPrompt_cases {maxChars : ℤ} (h : 4000 ≤ maxChars) (instruction : Text)
    (capsule : Json) :
    (FitsBudget instruction maxChars capsule ∧ ∃ result,
        buildBoundedJsonPrompt instruction capsule maxChars = .ok result) ∨
      (¬ FitsBudget instruction maxChars capsule ∧
        buildBoundedJsonPrompt instruction capsule maxChars = .error .runtime) := by
  rw [buildBoundedJsonPrompt, if_neg (by omega)]
  dsimp only
  split
  · rename_i result hfind
    obtain ⟨level, hlevel, rfl⟩ := List.mem_map.1 (List.mem_of_find?_eq_some hfind)
    have hfits := List.find?_some hfind
    exact .inl ⟨⟨level.1, List.fst_mem_of_mem_zipIdx hlevel, of_decide_eq_true hfits⟩, _, rfl⟩
  · rename_i hfind
    refine .inr ⟨?_, rfl⟩
    rintro ⟨limits, hlimits, hfits⟩
    obtain ⟨i, hi, rfl⟩ := List.getElem_of_mem hlimits
    have hmem : (levels[i], i) ∈ levels.zipIdx :=
      List.mem_zipIdx_iff_getElem?.2 (List.getElem?_eq_getElem hi)
    exact List.find?_eq_none.1 hfind _ (List.mem_map_of_mem hmem) (decide_eq_true hfits)

/-- **The loop over the attempts**: it returns the prompt of a capsule that fits, or none of
them fits. -/
theorem firstFitting_cases {α : Type} {capsuleOf : α → Except PythonError Json} {shape : α → Json}
    {maxChars : ℤ} (hmax : 4000 ≤ maxChars) (instruction : Text) {attempts : List α}
    (h : ∀ a ∈ attempts, capsuleOf a = .ok (shape a)) (n : ℕ) :
    (∃ a ∈ attempts, ∃ result k, FitsBudget instruction maxChars (shape a) ∧
        buildBoundedJsonPrompt instruction (shape a) maxChars = .ok result ∧
        firstFitting capsuleOf instruction maxChars n attempts = .ok (result, shape a, a, k)) ∨
      ((∀ a ∈ attempts, ¬ FitsBudget instruction maxChars (shape a)) ∧
        firstFitting capsuleOf instruction maxChars n attempts = .error .runtime) := by
  induction attempts generalizing n with
  | nil => exact .inr ⟨fun a ha => absurd ha List.not_mem_nil, rfl⟩
  | cons a attempts ih =>
    have hcapsule := h a List.mem_cons_self
    rcases buildBoundedJsonPrompt_cases hmax instruction (shape a) with
      ⟨hfits, result, hresult⟩ | ⟨hnot, herror⟩
    · refine .inl ⟨a, List.mem_cons_self, result, n, hfits, hresult, ?_⟩
      simp only [firstFitting, hcapsule, bind, Except.bind, hresult]
    · have hstep : firstFitting capsuleOf instruction maxChars n (a :: attempts) =
          firstFitting capsuleOf instruction maxChars (n + 1) attempts := by
        simp only [firstFitting, hcapsule, bind, Except.bind, herror]
      rw [hstep]
      rcases ih (fun b hb => h b (List.mem_cons_of_mem _ hb)) (n + 1) with
        ⟨b, hb, result, k, hfound⟩ | ⟨hnone, herror'⟩
      · exact .inl ⟨b, List.mem_cons_of_mem _ hb, result, k, hfound⟩
      · refine .inr ⟨?_, herror'⟩
        rintro b hb
        rcases List.mem_cons.1 hb with rfl | hb
        · exact hnot
        · exact hnone b hb

/-- A budget below the least that the bounded builder takes. -/
theorem firstFitting_small {α : Type} {capsuleOf : α → Except PythonError Json} {maxChars : ℤ}
    (hmax : ¬ 4000 ≤ maxChars) (instruction : Text) {attempts : List α} (hne : attempts ≠ [])
    (h : ∀ a ∈ attempts, ∃ capsule, capsuleOf a = .ok capsule) (n : ℕ) :
    firstFitting capsuleOf instruction maxChars n attempts = .error .value := by
  cases attempts with
  | nil => exact absurd rfl hne
  | cons a attempts =>
    obtain ⟨capsule, hcapsule⟩ := h a List.mem_cons_self
    have herror : buildBoundedJsonPrompt instruction capsule maxChars = .error .value := by
      rw [buildBoundedJsonPrompt, if_pos (not_le.1 hmax)]
    simp only [firstFitting, hcapsule, bind, Except.bind, herror]

/-! ### The builders -/

/-- A prompt within the budget, or a `ContextBudgetError` where the capsule without any
evidence and observations does not fit either. -/
def RevisionBuilt (instruction : Text) (payload : ContextPayload) (maxChars : ℤ) : Prop :=
  (∃ result capsule metrics,
    buildPartitionedRevisionPrompt instruction payload.entries maxChars =
      .ok (result, capsule, metrics) ∧ (result.prompt.length : ℤ) ≤ maxChars) ∨
  (buildPartitionedRevisionPrompt instruction payload.entries maxChars = .error .runtime ∧
    ¬ FitsBudget instruction maxChars (revisionCapsule payload.entries [] []))

/-- The revision capsule of the newest items. -/
def newestRevision (payload : ContextPayload) (limits : ℕ × ℕ) : Json :=
  revisionCapsule payload.entries (suffixOf limits.1 (payload.evidence.map .dict))
    (suffixOf limits.2 payload.observations)

/-- The revision capsule with all the items: what the last attempt sends. -/
def wholeRevision (payload : ContextPayload) : Json :=
  revisionCapsule payload.entries (payload.evidence.map .dict) payload.observations

theorem projectRevisionCapsule_attempt (payload : ContextPayload) {limits : ℕ × ℕ}
    (h : limits ∈ revisionAttempts) :
    projectRevisionCapsule payload.entries limits.1 limits.2 =
      .ok (if limits = (0, 0) then wholeRevision payload else newestRevision payload limits) := by
  rw [projectRevisionCapsule_eq]
  simp only [revisionAttempts, List.mem_cons, List.not_mem_nil, or_false] at h
  rcases h with rfl | rfl | rfl | rfl <;> rfl

/-- **When the revision prompt is built or rightly refused**: where one of the first three
capsules fits, where everything fits, or where nothing does. -/
theorem revisionBuilt_iff (instruction : Text) (payload : ContextPayload) (maxChars : ℤ) :
    RevisionBuilt instruction payload maxChars ↔ 4000 ≤ maxChars ∧
      ((∃ limits ∈ [(4, 3), (2, 2), (1, 1)],
        FitsBudget instruction maxChars (newestRevision payload limits)) ∨
      FitsBudget instruction maxChars (wholeRevision payload) ∨
      ¬ FitsBudget instruction maxChars (revisionCapsule payload.entries [] [])) := by
  have hshape := fun limits (h : limits ∈ revisionAttempts) =>
    projectRevisionCapsule_attempt payload h
  by_cases hmax : 4000 ≤ maxChars
  · rw [and_iff_right hmax, RevisionBuilt, buildPartitionedRevisionPrompt]
    rcases firstFitting_cases hmax instruction hshape 1 with
      ⟨limits, hlimits, result, k, hfits, hresult, hfound⟩ | ⟨hnone, herror⟩
    · rw [hfound]
      refine iff_of_true (.inl ⟨result, _, _, rfl, (buildBoundedJsonPrompt_ok hresult).1⟩) ?_
      by_cases hzero : limits = (0, 0)
      · rw [if_pos hzero] at hfits
        exact .inr (.inl hfits)
      · rw [if_neg hzero] at hfits
        refine .inl ⟨limits, ?_, hfits⟩
        simp only [revisionAttempts, List.mem_cons, List.not_mem_nil, or_false] at hlimits ⊢
        tauto
    · rw [herror]
      have hfirst : ∀ limits ∈ [(4, 3), (2, 2), (1, 1)],
          ¬ FitsBudget instruction maxChars (newestRevision payload limits) := by
        intro limits hlimits
        have hmem : limits ∈ revisionAttempts := List.mem_append_left [(0, 0)] hlimits
        have hnot := hnone limits hmem
        rwa [if_neg (by rintro rfl; exact absurd hlimits (by decide))] at hnot
      have hlast : ¬ FitsBudget instruction maxChars (wholeRevision payload) :=
        hnone (0, 0) (by decide)
      constructor
      · rintro (⟨_, _, _, hok, -⟩ | ⟨-, hbare⟩)
        · cases hok
        · exact .inr (.inr hbare)
      · rintro (⟨limits, hlimits, hfits⟩ | hfits | hbare)
        · exact absurd hfits (hfirst limits hlimits)
        · exact absurd hfits hlast
        · exact .inr ⟨rfl, hbare⟩
  · rw [RevisionBuilt, buildPartitionedRevisionPrompt, firstFitting_small hmax instruction
      (by decide) (fun limits h => ⟨_, hshape limits h⟩) 1]
    refine iff_of_false ?_ fun h => hmax h.1
    rintro (⟨_, _, _, hok, -⟩ | ⟨herror, -⟩)
    · cases hok
    · cases herror

section
variable (print : Json → Text)

/-- A prompt within the budget, or a `ContextBudgetError` where the capsule without any
evidence does not fit either. -/
def DesignBuilt (instruction : Text) (payload : ContextPayload)
    (maxChars initialEvidenceLimit : ℤ) : Prop :=
  (∃ result capsule metrics,
    buildPartitionedDesignPrompt print instruction payload.entries maxChars
      initialEvidenceLimit = .ok (result, capsule, metrics) ∧
    (result.prompt.length : ℤ) ≤ maxChars) ∨
  (buildPartitionedDesignPrompt print instruction payload.entries maxChars
      initialEvidenceLimit = .error .runtime ∧
    ¬ FitsBudget instruction maxChars
      (designCapsule payload.entries 0 [] payload.gaps payload.observations))

theorem mem_designLimits_zero (initialEvidenceLimit : ℤ) :
    0 ∈ designLimits initialEvidenceLimit := by
  rw [designLimits, show [initialEvidenceLimit, min initialEvidenceLimit 6, 4, 2, 0] =
    [initialEvidenceLimit, min initialEvidenceLimit 6, 4, 2] ++ [0] from rfl, List.foldl_append,
    List.foldl_cons, List.foldl_nil]
  split_ifs with h
  · exact h
  · exact List.mem_append_right _ List.mem_cons_self

/-- **When the design prompt is built or rightly refused**: always, for the last attempt sends
no evidence. -/
theorem designBuilt_iff (instruction : Text) (payload : ContextPayload)
    (maxChars initialEvidenceLimit : ℤ) :
    DesignBuilt print instruction payload maxChars initialEvidenceLimit ↔ 4000 ≤ maxChars := by
  choose shown hshape hshown using
    fun limit : ℕ => projectDesignCapsule_eq print payload limit
  by_cases hmax : 4000 ≤ maxChars
  · refine iff_of_true ?_ hmax
    rw [DesignBuilt, buildPartitionedDesignPrompt]
    rcases firstFitting_cases hmax instruction (fun limit _ => hshape limit) 1 with
      ⟨limit, -, result, k, -, hresult, hfound⟩ | ⟨hnone, herror⟩
    · rw [hfound]
      exact .inl ⟨result, _, _, rfl, (buildBoundedJsonPrompt_ok hresult).1⟩
    · rw [herror]
      have hbare := hnone 0 (mem_designLimits_zero initialEvidenceLimit)
      have hempty : shown 0 = [] := by
        have hlength := (hshown 0).length_eq
        rw [Int.ofNat_zero, if_neg (lt_irrefl 0), Int.toNat_zero, suffixOf_zero] at hlength
        exact List.eq_nil_of_length_eq_zero hlength.symm
      rw [hempty] at hbare
      exact .inr ⟨rfl, hbare⟩
  · refine iff_of_false ?_ hmax
    rw [DesignBuilt, buildPartitionedDesignPrompt, firstFitting_small hmax instruction
      (List.ne_nil_of_mem (mem_designLimits_zero initialEvidenceLimit))
      (fun limit _ => ⟨_, hshape limit⟩) 1]
    rintro (⟨_, _, _, hok, -⟩ | ⟨herror, -⟩)
    · cases hok
    · cases herror

/-- What the capsules and the builders of prompts are for, at some limits and a budget. -/
structure PartitionedRightly (payload : ContextPayload)
    (evidenceLimit observationLimit designLimit : ℤ) (instruction : Text)
    (maxChars initialEvidenceLimit : ℤ) : Prop where
  revision : RevisionExact payload evidenceLimit observationLimit
  design : DesignExact print payload designLimit
  revisionPrompt : RevisionBuilt instruction payload maxChars
  designPrompt : DesignBuilt print instruction payload maxChars initialEvidenceLimit

/-- **Where the paging is right**: at limits above zero, or for nothing to page; and in a
budget that a newest slice fits, that everything fits, or that nothing fits. -/
theorem partitionedRightly_iff (payload : ContextPayload)
    (evidenceLimit observationLimit designLimit : ℤ) (instruction : Text)
    (maxChars initialEvidenceLimit : ℤ) :
    PartitionedRightly print payload evidenceLimit observationLimit designLimit instruction
        maxChars initialEvidenceLimit ↔
      ((0 < evidenceLimit ∨ payload.evidence = []) ∧
        (0 < observationLimit ∨ payload.observations = [])) ∧
      (0 ≤ designLimit ∨ payload.evidence = []) ∧
      4000 ≤ maxChars ∧
      ((∃ limits ∈ [(4, 3), (2, 2), (1, 1)],
        FitsBudget instruction maxChars (newestRevision payload limits)) ∨
      FitsBudget instruction maxChars (wholeRevision payload) ∨
      ¬ FitsBudget instruction maxChars (revisionCapsule payload.entries [] [])) := by
  rw [← revisionExact_iff, ← designExact_iff print]
  constructor
  · rintro ⟨hrevision, hdesign, hprompt, -⟩
    exact ⟨hrevision, hdesign, (revisionBuilt_iff instruction payload maxChars).1 hprompt⟩
  · rintro ⟨hrevision, hdesign, hmax, hfits⟩
    exact ⟨hrevision, hdesign, (revisionBuilt_iff instruction payload maxChars).2 ⟨hmax, hfits⟩,
      (designBuilt_iff print instruction payload maxChars initialEvidenceLimit).2 hmax⟩

end

/-- One record of evidence and nothing else. -/
def oneRecord : ContextPayload where
  entries := [("available_evidence".toList,
    .list [.dict [("evidence_id".toList, .str "ev_1".toList)]])]
  evidence := [[("evidence_id".toList, .str "ev_1".toList)]]
  observations := []
  gaps := []
  listField_evidence := rfl
  listField_observations := rfl
  listField_gaps := rfl

/-- No evidence allowed, and all of it sent. -/
theorem revision_zero_sends_all :
    ¬ ∀ (print : Json → Text) (payload : ContextPayload)
      (evidenceLimit observationLimit designLimit : ℤ) (instruction : Text)
      (maxChars initialEvidenceLimit : ℤ),
      PartitionedRightly print payload evidenceLimit observationLimit designLimit instruction
        maxChars initialEvidenceLimit := by
  intro h
  have hrevision := (h (fun _ => []) oneRecord 0 0 0 [] 8000 0).revision
  rw [revisionExact_iff] at hrevision
  exact absurd hrevision (by simp [oneRecord])

end Engineering
end OpenFoamAgent
