/-
# The assembly of authored tasks

What `accept_task` (`engineering/authoring_tasks.py`) makes of the response to the last task.
Each response was held to the field limits of `CaseAuthoringAction` by itself, while the
assembly joins the lists of all responses and holds the joined lists to the same limits.

The files of the tasks are those of the plan, so their limits cannot be passed. The
dictionaries to validate and the surfaces to check are not shared out among the tasks:
each response may name as many as one case plan may, and their union may name more.
-/
import OpenFoamAgent.Engineering.AuthoringTasks

namespace OpenFoamAgent
namespace Engineering

open Python Schemas

/-! ### Answers to the tasks -/

/-- A valid response that covers the files of its task, under its id and with its flag. -/
structure Answers (action : CaseAuthoringAction) (task : AuthoringTask) : Prop where
  valid : action.Validated false
  taskId : action.taskId = some task.id
  paths : action.paths.toFinset = task.paths.toFinset
  finality : action.deferNative ≠ task.isFinal

/-- The queue with the responses it holds. -/
def TaskQueue.holding (queue : TaskQueue) (responses : List CaseAuthoringAction) : TaskQueue :=
  { queue with responses, cursor := responses.length }

section

variable (reload : EngineeringPlan → Option EngineeringPlan) (order : SetOrder)
variable (plan : EngineeringPlan)

/-- `accept_task`, response after response, until one of them is refused or assembled. -/
def acceptAll (queue : TaskQueue) :
    List CaseAuthoringAction → Except AcceptError (TaskQueue × Option ExecuteCasePlanAction)
  | [] => .ok (queue, none)
  | action :: actions =>
    match acceptTask reload order queue action plan with
    | .ok (queue, none) => acceptAll queue actions
    | result => result

/-- The joined lists are within the limits of one case plan, and so is the manifest of the plan,
which reloads from its dump. -/
structure Fits (responses : List CaseAuthoringAction) : Prop where
  dictionaries : (responses.flatMap (·.validateDictionaries)).toFinset.card ≤ 40
  surfaces : (responses.flatMap (·.surfaceChecks)).toFinset.card ≤ 16
  manifest : plan.requiredCaseFiles.length ≤ 80 ∧
    ∀ path ∈ plan.requiredCaseFiles, isFilePath caseRoots path
  reloads : ∃ plan', reload plan = some plan' ∧ plan'.requiredCaseFiles = plan.requiredCaseFiles

end

variable {reload : EngineeringPlan → Option EngineeringPlan} {order : SetOrder}
variable {queue : TaskQueue} {plan : EngineeringPlan}

/-- What `compile_tasks` says of its tasks. -/
theorem compileTasks_tasks {digits : Text} {batches : List (List Text)}
    (h : compileTasks plan digits batches = some queue) :
    queue = queue.holding [] ∧ queue.planSha256 = ⟨plan⟩ ∧
      queue.tasks.flatMap (·.paths) = plan.requiredCaseFiles ∧ plan.requiredCaseFiles ≠ [] ∧
      ∀ i task, queue.tasks[i]? = some task →
        task.isFinal = decide (i + 1 = queue.tasks.length) := by
  unfold compileTasks at h
  dsimp only at h
  split_ifs at h with hempty hflat
  obtain rfl := Option.some.inj h
  refine ⟨rfl, rfl, ?_, (not_or.1 hempty).2, fun i task htask => ?_⟩
  · rw [List.flatMap_map]
    dsimp only
    rw [List.flatMap_def, List.zipIdx_map_fst, not_not.1 hflat]
  · rw [List.getElem?_map, List.getElem?_zipIdx] at htask
    cases hbatch : batches[i]? with
    | none => simp [hbatch] at htask
    | some batch =>
      rw [hbatch] at htask
      obtain rfl := Option.some.inj htask
      simp

/-- A response that answers the task at the cursor is held. -/
theorem acceptTask_of_answers {action : CaseAuthoringAction} {task : AuthoringTask}
    {responses : List CaseAuthoringAction} (hplan : queue.planSha256 = ⟨plan⟩)
    (htask : queue.tasks[responses.length]? = some task) (h : Answers action task) :
    acceptTask reload order (queue.holding responses) action plan =
      if responses.length + 1 < queue.tasks.length then
        .ok (queue.holding (responses ++ [action]), none)
      else if 1 < ((responses ++ [action]).filterMap (·.blockMesh)).length then
        .error .duplicateMesh
      else match ExecuteCasePlanAction.modelValidate reload order
          (assembled plan (responses ++ [action]) action).modelDump plan with
        | none => .error .invalidPlan
        | some final => .ok (queue.holding (responses ++ [action]), some final) := by
  have hcover : ¬ (action.taskId ≠ some task.id ∨ action.paths.toFinset ≠ task.paths.toFinset ∨
      ¬ action.paths.Nodup) := by
    simp only [ne_eq, not_or, not_not]
    exact ⟨h.taskId, h.paths, h.valid.nodup_paths⟩
  have hheld : queue.holding (responses ++ [action]) =
      { queue with responses := responses ++ [action], cursor := responses.length + 1 } := by
    rw [TaskQueue.holding, List.length_append, List.length_singleton]
  rw [hheld]
  unfold acceptTask TaskQueue.holding
  dsimp only
  rw [if_neg (not_not.2 hplan), htask]
  dsimp only
  refine (if_neg hcover).trans ((if_neg h.finality).trans ?_)
  split_ifs <;> rfl

/-- All responses but the last are held, one after the other. -/
theorem acceptAll_eq {taken actions : List CaseAuthoringAction} {last : CaseAuthoringAction}
    (hplan : queue.planSha256 = ⟨plan⟩)
    (h : List.Forall₂ Answers (taken ++ actions ++ [last]) queue.tasks) :
    acceptAll reload order plan (queue.holding taken) (actions ++ [last]) =
      acceptAll reload order plan (queue.holding (taken ++ actions)) [last] := by
  induction actions generalizing taken with
  | nil => rw [List.append_nil, List.nil_append]
  | cons action actions ih =>
    have hlength := h.length_eq
    simp only [List.length_append, List.length_cons, List.length_nil] at hlength
    obtain ⟨task, htask, hanswers⟩ : ∃ task, queue.tasks[taken.length]? = some task ∧
        Answers action task := by
      have hlt : taken.length < queue.tasks.length := by omega
      refine ⟨queue.tasks.get ⟨taken.length, hlt⟩, by simp, ?_⟩
      have hget := List.forall₂_iff_get.1 h |>.2 taken.length (by simp) hlt
      simpa using hget
    have hmore : taken.length + 1 < queue.tasks.length := by omega
    rw [List.cons_append, acceptAll, acceptTask_of_answers hplan htask hanswers, if_pos hmore]
    dsimp only
    rw [ih (by simpa using h)]
    simp

/-! ### The assembled plan is valid -/

theorem card_toFinset_eq (l : List Text) : l.toFinset.card = (fromKeys l).length := by
  rw [← List.toFinset_card_of_nodup (nodup_fromKeys l)]
  congr 1
  ext t
  rw [List.mem_toFinset, List.mem_toFinset, mem_fromKeys]

theorem isFilePath_nonBlank {r : List String} {path : Text} (h : isFilePath r path) :
    nonBlank path := by
  simp only [isFilePath, Bool.and_eq_true, List.any_eq_true] at h
  obtain ⟨-, root, -, h⟩ := h
  split at h
  · cases h
  · rename_i rest hrest
    obtain ⟨start, rfl, hstart⟩ := List.dropPrefix?_eq_some_iff.1 hrest
    refine nonBlank_of_notSpace (c := '/') ?_ (by decide)
    rw [eq_of_beq hstart]
    simp

/-- Joined hints of valid responses are not blank, and each is a path of the case. -/
theorem isFilePath_of_joined {hints : CaseAuthoringAction → List Text}
    {responses : List CaseAuthoringAction}
    (hvalid : ∀ r ∈ responses, (hints r).all (isFilePath caseRoots))
    {path : Text} (h : path ∈ fromKeys (responses.flatMap hints)) : isFilePath caseRoots path := by
  obtain ⟨r, hr, hmem⟩ := List.mem_flatMap.1 (mem_fromKeys.1 h)
  exact List.all_eq_true.1 (hvalid r hr) path hmem

/-- The checks of `validate_case_authoring`, by name. -/
structure Checks (execute : Bool) (a : CaseAuthoringAction) : Prop where
  some : a.paths ≠ []
  once : a.paths.Nodup
  dictionaries : a.validateDictionaries.Nodup ∧ a.validateDictionaries.all (isFilePath caseRoots)
  surfaces : a.surfaceChecks.Nodup ∧ a.surfaceChecks.all (isFilePath caseRoots)
  manifest : a.requiredCaseFiles.Nodup ∧ a.requiredCaseFiles.all (isFilePath caseRoots)
  typed : a.typedDictionaries.all fun d => d.path != blockMeshPath
  commands : a.meshCommands.all isCommandName
  either : (a.nativePipeline.isEmpty || a.meshCommands.isEmpty) = true
  native : (if a.deferNative then
      !execute && a.taskId.any (fun task => !task.isEmpty) && a.nativePipeline.isEmpty &&
        a.meshCommands.isEmpty
    else
      decide ((a.nativePipeline.filter fun c => c.command = "checkMesh".toList).map
        checkRegion).Nodup) = true

theorem checks_iff {execute : Bool} {a : CaseAuthoringAction} :
    a.validateCaseAuthoring execute = true ↔ Checks execute a := by
  unfold CaseAuthoringAction.validateCaseAuthoring
  simp only [Bool.and_eq_true, List.all_cons, List.all_nil, Bool.and_true, decide_eq_true_eq,
    Bool.not_eq_true', List.isEmpty_eq_false_iff]
  constructor
  · rintro ⟨⟨⟨⟨⟨⟨hsome, honce⟩, hdict, hsurf, hmanifest⟩, htyped⟩, hcommands⟩, heither⟩, hnative⟩
    exact ⟨hsome, honce, hdict, hsurf, hmanifest, htyped, hcommands, heither, hnative⟩
  · intro h
    exact ⟨⟨⟨⟨⟨⟨h.some, h.once⟩, h.dictionaries, h.surfaces, h.manifest⟩, h.typed⟩, h.commands⟩,
      h.either⟩, h.native⟩

theorem checks_of_validated {execute : Bool} {a : CaseAuthoringAction} (h : a.Validated execute) :
    Checks execute a :=
  let ⟨_, _, h⟩ := h
  checks_iff.1 (CaseAuthoringAction.modelValidate_eq_some.1 h).2

/-- The responses to all tasks of the plan. -/
structure Answered (plan : EngineeringPlan) (responses : List CaseAuthoringAction)
    (last : CaseAuthoringAction) : Prop where
  valid : ∀ r ∈ responses, r.Validated false
  paths : (responses.flatMap (·.paths)).Perm plan.requiredCaseFiles
  nodup : plan.requiredCaseFiles.Nodup
  nonempty : plan.requiredCaseFiles ≠ []
  among : last ∈ responses
  final : last.deferNative = false

namespace Answered

variable {responses : List CaseAuthoringAction} {last : CaseAuthoringAction}

theorem nodup_paths (h : Answered plan responses last) : (responses.flatMap (·.paths)).Nodup :=
  h.paths.nodup_iff.2 h.nodup

/-- One response at most brings the block mesh, whose path is assigned once. -/
theorem one_mesh (h : Answered plan responses last) :
    (responses.filterMap (·.blockMesh)).length ≤ 1 := by
  have hnd := ((paths_perm responses).nodup_iff.1 h.nodup_paths)
  have hmesh := (List.nodup_append.1 hnd).2.1
  rw [List.map_const'] at hmesh
  exact List.nodup_replicate.1 hmesh

theorem blockMesh_eq (h : Answered plan responses last) :
    (assembled plan responses last).blockMesh.toList = responses.filterMap (·.blockMesh) := by
  have hone := h.one_mesh
  rw [assembled]
  dsimp only
  generalize responses.filterMap (·.blockMesh) = meshes at hone ⊢
  cases meshes with
  | nil => rfl
  | cons mesh rest =>
    rw [List.length_cons] at hone
    rw [List.length_eq_zero_iff.1 (show rest.length = 0 by omega)]
    rfl

theorem paths_assembled (h : Answered plan responses last) :
    (assembled plan responses last).paths.Perm plan.requiredCaseFiles := by
  rw [CaseAuthoringAction.paths, h.blockMesh_eq]
  exact (paths_perm responses).symm.trans h.paths

/-- The required files are paths of checked files, so none of them is blank. -/
theorem manifest_nonBlank (h : Answered plan responses last) {path : Text}
    (hpath : path ∈ plan.requiredCaseFiles) : nonBlank path := by
  obtain ⟨r, hr, hmem⟩ := List.mem_flatMap.1 (h.paths.mem_iff.2 hpath)
  have hsound := (h.valid r hr).sound
  rw [CaseAuthoringAction.paths, List.append_assoc, List.mem_append, List.mem_append] at hmem
  rcases hmem with hmem | hmem | hmem
  · obtain ⟨f, hf, rfl⟩ := List.mem_map.1 hmem
    have hf := List.all_eq_true.1 hsound.files f hf
    simp only [CaseBundleFile.valid, Bool.and_eq_true] at hf
    exact isFilePath_nonBlank hf.2
  · obtain ⟨d, hd, rfl⟩ := List.mem_map.1 hmem
    have hd := List.all_eq_true.1 hsound.typed d hd
    simp only [TypedFoamDictionaryFile.valid, Bool.and_eq_true] at hd
    exact isFilePath_nonBlank hd.2
  · obtain ⟨mesh, -, rfl⟩ := List.mem_map.1 hmem
    exact isFilePath_nonBlank (r := caseRoots) (by decide)

/-- The assembled plan with its fields as the before-validator leaves them. -/
theorem normalized (h : Answered plan responses last) (order : SetOrder) :
    let raw := (assembled plan responses last).modelDump.normalizeAuthoringMirrors order
    raw.validateDictionaries = fromKeys (responses.flatMap (·.validateDictionaries)) ∧
      raw.surfaceChecks = fromKeys (responses.flatMap (·.surfaceChecks)) ∧
      raw.requiredCaseFiles = plan.requiredCaseFiles ∧ raw.meshCommands = last.meshCommands ∧
      raw.nativePipeline = last.modelDump.nativePipeline := by
  have hhints : ∀ {hints : CaseAuthoringAction → List Text},
      (∀ r ∈ responses, (hints r).all (isFilePath caseRoots)) →
      fromKeys ((fromKeys (responses.flatMap hints)).filter nonBlank) =
        fromKeys (responses.flatMap hints) := fun hvalid =>
    SettledHints.fromKeys_filter
      ⟨nodup_fromKeys _, fun _ ht => isFilePath_nonBlank (isFilePath_of_joined hvalid ht)⟩
  refine ⟨?_, ?_, ?_, ?_⟩
  · exact hhints fun r hr => (checks_of_validated (h.valid r hr)).dictionaries.2
  · exact hhints fun r hr => (checks_of_validated (h.valid r hr)).surfaces.2
  · exact SettledHints.fromKeys_filter ⟨h.nodup, fun _ => h.manifest_nonBlank⟩
  · obtain ⟨order', raw, hraw⟩ := h.valid last h.among
    obtain ⟨-, -, -, hfields⟩ := CaseAuthoringAction.ofFields_eq_some.1
      (CaseAuthoringAction.modelValidate_eq_some.1 hraw).1
    have hnative : (assembled plan responses last).modelDump.nativeHints = raw.nativeHints :=
      AuthoringPayload.nativeHints_of_hints (h.final.symm.trans hfields.deferNative.symm)
        hfields.nativePipeline.symm hfields.meshCommands.symm
    exact ⟨(congrArg Prod.snd hnative).trans hfields.meshCommands,
      (congrArg Prod.fst hnative).trans hfields.nativePipeline⟩

theorem lengths (h : Answered plan responses last) :
    (assembled plan responses last).files.length ≤ plan.requiredCaseFiles.length ∧
      (assembled plan responses last).typedDictionaries.length ≤ plan.requiredCaseFiles.length := by
  have hlength := h.paths_assembled.length_eq
  simp only [CaseAuthoringAction.paths, List.length_append, List.length_map] at hlength
  omega

/-- The checked fields of the last response. -/
theorem fieldsOf_last (h : Answered plan responses last) :
    ∃ raw : AuthoringPayload, CaseAuthoringAction.FieldsOf raw last :=
  let ⟨_, _, hraw⟩ := h.valid last h.among
  ⟨_, (CaseAuthoringAction.ofFields_eq_some.1
    (CaseAuthoringAction.modelValidate_eq_some.1 hraw).1).2.2.2⟩

/-- The field checks of the assembled plan, within the limits. -/
theorem ofFields_of_fits (h : Answered plan responses last) (hfits : Fits reload plan responses) :
    CaseAuthoringAction.ofFields
      ((assembled plan responses last).modelDump.normalizeAuthoringMirrors order) =
        some (assembled plan responses last) := by
  have hsound : (assembled plan responses last).Sound := sound_assembled h.valid h.nodup_paths
  obtain ⟨hfiles, htyped, hconflicts⟩ := hsound.normalize_modelDump order
  obtain ⟨hdict, hsurf, hmanifest, hcommands, hpipeline⟩ := h.normalized order
  obtain ⟨raw, hlast⟩ := h.fieldsOf_last
  refine CaseAuthoringAction.ofFields_eq_some.2 ⟨hfiles, hsound.files, ?_, {
    taskId := rfl
    deferNative := rfl
    goal := rfl
    blockMesh := rfl
    validateDictionaries := hdict
    surfaceChecks := hsurf
    meshCommands := hcommands
    nativePipeline := hpipeline
    commands := hlast.commands
    requiredCaseFiles := hmanifest
    rationale := rfl
    authoringConflicts := hconflicts.trans (h.valid last h.among).conflicts
    bounds := ?_ }⟩
  · rw [htyped]
    exact Traversal.mapM_map_eq_some fun d hd => TypedFoamDictionaryFile.ofRaw_modelDump
      (List.all_eq_true.1 hsound.typed d hd) (hsound.settled d hd)
  · -- the files are those of the manifest, the joined hints fit, the rest is the last response's
    have hlastBounds := hlast.bounds
    obtain ⟨hfew, htypedFew⟩ := h.lengths
    have hmany := hfits.manifest.1
    have hdictionaries : (fromKeys (responses.flatMap (·.validateDictionaries))).length ≤ 40 :=
      card_toFinset_eq _ ▸ hfits.dictionaries
    have hsurfaces : (fromKeys (responses.flatMap (·.surfaceChecks))).length ≤ 16 :=
      card_toFinset_eq _ ▸ hfits.surfaces
    simp only [lengthIn, Bool.and_eq_true, decide_eq_true_eq] at hlastBounds ⊢
    obtain ⟨⟨⟨⟨⟨⟨⟨⟨hgoal, -⟩, -⟩, -⟩, -⟩, hmesh⟩, hnative⟩, -⟩, hrationale⟩ := hlastBounds
    exact ⟨⟨⟨⟨⟨⟨⟨⟨hgoal, Nat.zero_le _, hfew.trans hmany⟩, Nat.zero_le _, htypedFew.trans hmany⟩,
      Nat.zero_le _, hdictionaries⟩, Nat.zero_le _, hsurfaces⟩, hmesh⟩, hnative⟩, Nat.zero_le _,
      hmany⟩, hrationale⟩

/-- The after-validator of the assembled plan, within the limits. -/
theorem checks_of_fits (h : Answered plan responses last) (hfits : Fits reload plan responses) :
    Checks true (assembled plan responses last) := by
  have hchecks := checks_of_validated (h.valid last h.among)
  have hnative := hchecks.native
  rw [h.final] at hnative
  exact {
    some := fun hnil => h.nonempty (List.perm_nil.1 (hnil ▸ h.paths_assembled.symm))
    once := h.paths_assembled.nodup_iff.2 h.nodup
    dictionaries := ⟨nodup_fromKeys _, List.all_eq_true.2 fun _ ht =>
      isFilePath_of_joined (fun r hr => (checks_of_validated (h.valid r hr)).dictionaries.2) ht⟩
    surfaces := ⟨nodup_fromKeys _, List.all_eq_true.2 fun _ ht =>
      isFilePath_of_joined (fun r hr => (checks_of_validated (h.valid r hr)).surfaces.2) ht⟩
    manifest := ⟨h.nodup, List.all_eq_true.2 hfits.manifest.2⟩
    typed := List.all_eq_true.2 fun d hd => by
      obtain ⟨r, hr, hmem⟩ := List.mem_flatMap.1 hd
      exact List.all_eq_true.1 (checks_of_validated (h.valid r hr)).typed d hmem
    commands := hchecks.commands
    either := hchecks.either
    native := hnative }

/-- **The assembly within the limits.** The responses to all tasks assemble to a valid plan when
the joined lists fit. -/
theorem modelValidate_of_fits (order : SetOrder) (h : Answered plan responses last)
    (hfits : Fits reload plan responses) :
    ∃ final, ExecuteCasePlanAction.modelValidate reload order
      (assembled plan responses last).modelDump plan = some final := by
  have haction : CaseAuthoringAction.modelValidate order true
      (assembled plan responses last).modelDump = some (assembled plan responses last) :=
    CaseAuthoringAction.modelValidate_eq_some.2
      ⟨h.ofFields_of_fits hfits, checks_iff.2 (h.checks_of_fits hfits)⟩
  obtain ⟨plan', hreload, hsame⟩ := hfits.reloads
  refine ⟨⟨assembled plan responses last, plan'⟩, ?_⟩
  simp only [ExecuteCasePlanAction.modelValidate, Option.bind_eq_bind, Option.bind_eq_some_iff,
    Option.guard_eq_some', Option.pure_def, Option.some.injEq]
  exact ⟨_, haction, plan', hreload, (), hsame.symm, rfl⟩

/-- The assembly beyond the limits is refused. -/
theorem fits_of_modelValidate (h : Answered plan responses last) {final : ExecuteCasePlanAction}
    (hfinal : ExecuteCasePlanAction.modelValidate reload order
      (assembled plan responses last).modelDump plan = some final) :
    Fits reload plan responses := by
  simp only [ExecuteCasePlanAction.modelValidate, Option.bind_eq_bind, Option.bind_eq_some_iff,
    Option.guard_eq_some', Option.pure_def, Option.some.injEq] at hfinal
  obtain ⟨action, haction, plan', hreload, -, hsame, -⟩ := hfinal
  replace haction : CaseAuthoringAction.modelValidate order true
      (assembled plan responses last).modelDump = some action := haction
  obtain ⟨hfields, hcheck⟩ := CaseAuthoringAction.modelValidate_eq_some.1 haction
  have hraw := (CaseAuthoringAction.ofFields_eq_some.1 hfields).2.2.2
  obtain ⟨hdict, hsurf, hmanifest, -, -⟩ := h.normalized order
  have hrequired : plan.requiredCaseFiles = action.requiredCaseFiles :=
    hmanifest.symm.trans hraw.requiredCaseFiles
  have hbounds := hraw.bounds
  simp only [lengthIn, Bool.and_eq_true, decide_eq_true_eq] at hbounds
  refine ⟨?_, ?_, ⟨?_, ?_⟩, plan', hreload, hsame.symm.trans hrequired.symm⟩
  · rw [card_toFinset_eq, ← hdict, hraw.validateDictionaries]
    exact hbounds.1.1.1.1.1.2.2
  · rw [card_toFinset_eq, ← hsurf, hraw.surfaceChecks]
    exact hbounds.1.1.1.1.2.2
  · rw [hrequired]
    exact hbounds.1.2.2
  · rw [hrequired]
    exact List.all_eq_true.1 (checks_iff.1 hcheck).manifest.2

end Answered

/-! ### The last task -/

theorem exists_answered {responses : List CaseAuthoringAction} {tasks : List AuthoringTask}
    (h : List.Forall₂ Answers responses tasks) {r : CaseAuthoringAction} (hr : r ∈ responses) :
    ∃ task ∈ tasks, Answers r task := by
  induction h with
  | nil => cases hr
  | cons hab _ ih =>
    rcases List.mem_cons.1 hr with rfl | hr
    · exact ⟨_, List.mem_cons_self, hab⟩
    · obtain ⟨task, htask, hanswer⟩ := ih hr
      exact ⟨task, List.mem_cons_of_mem _ htask, hanswer⟩

theorem forall₂_perm_of_answers {responses : List CaseAuthoringAction} {tasks : List AuthoringTask}
    (h : List.Forall₂ Answers responses tasks) (hnd : (tasks.flatMap (·.paths)).Nodup) :
    List.Forall₂ (fun (a : CaseAuthoringAction) (task : AuthoringTask) =>
      a.paths.Perm task.paths) responses tasks := by
  induction h with
  | nil => exact .nil
  | cons hab _ ih =>
    rw [List.flatMap_cons] at hnd
    obtain ⟨hhead, htail, -⟩ := List.nodup_append.1 hnd
    refine .cons ?_ (ih htail)
    exact (List.perm_ext_iff_of_nodup hab.valid.nodup_paths hhead).2 fun path => by
      rw [← List.mem_toFinset, hab.paths, List.mem_toFinset]

/-- **When the assembly succeeds.** For every plan, every queue compiled for it and every list of
valid responses that answer its tasks in order, the last one is assembled to a case plan exactly
when the distinct dictionaries to validate and the distinct surfaces to check of all responses
are within the limits of one plan, and the plan and its manifest are within theirs. -/
theorem acceptAll_assembles_iff {digits : Text} {batches : List (List Text)}
    {responses : List CaseAuthoringAction} (hq : compileTasks plan digits batches = some queue)
    (hanswers : List.Forall₂ Answers responses queue.tasks) :
    (∃ queue' final, acceptAll reload order plan queue responses = .ok (queue', some final)) ↔
      Fits reload plan responses := by
  obtain ⟨hstart, hplan, hpaths, hne, hfinal⟩ := compileTasks_tasks hq
  have hnonempty : responses ≠ [] := by
    rintro rfl
    rw [List.forall₂_nil_left_iff.1 hanswers] at hpaths
    exact hne hpaths.symm
  obtain ⟨actions, last, rfl⟩ : ∃ actions last, responses = actions ++ [last] :=
    ⟨_, _, (List.dropLast_concat_getLast hnonempty).symm⟩
  have hlength := hanswers.length_eq
  rw [List.length_append, List.length_singleton] at hlength
  obtain ⟨task, htask, hlast⟩ : ∃ task, queue.tasks[actions.length]? = some task ∧
      Answers last task := by
    have hlt : actions.length < queue.tasks.length := by omega
    refine ⟨queue.tasks.get ⟨actions.length, hlt⟩, by simp, ?_⟩
    have hget := List.forall₂_iff_get.1 hanswers |>.2 actions.length (by simp) hlt
    simpa using hget
  have hdeferred : last.deferNative = false := by
    have hflag := hlast.finality
    rw [hfinal _ _ htask, decide_eq_true hlength] at hflag
    simpa using hflag
  have hperm : ((actions ++ [last]).flatMap (·.paths)).Perm plan.requiredCaseFiles := by
    rw [← hpaths]
    exact flatMap_perm_of_forall₂ (forall₂_perm_of_answers hanswers (compileTasks_eq_some hq).2.2)
  have hanswered : Answered plan (actions ++ [last]) last := {
    valid := fun r hr => by
      obtain ⟨task, -, hanswer⟩ := exists_answered hanswers hr
      exact hanswer.valid
    paths := hperm
    nodup := hpaths ▸ (compileTasks_eq_some hq).2.2
    nonempty := hne
    among := by simp
    final := hdeferred }
  have hmore : ¬ actions.length + 1 < queue.tasks.length := by omega
  rw [hstart, acceptAll_eq hplan (by simpa using hanswers), List.nil_append, acceptAll,
    acceptTask_of_answers hplan htask hlast, if_neg hmore, if_neg (not_lt.2 hanswered.one_mesh)]
  constructor
  · rintro ⟨queue', final, h⟩
    cases hvalidate : ExecuteCasePlanAction.modelValidate reload order
        (assembled plan (actions ++ [last]) last).modelDump plan with
    | none =>
      rw [hvalidate] at h
      cases h
    | some result => exact hanswered.fits_of_modelValidate hvalidate
  · intro hfits
    obtain ⟨final, hvalidate⟩ := hanswered.modelValidate_of_fits order hfits
    rw [hvalidate]
    exact ⟨_, _, rfl⟩

theorem twoFileQueue_compiled :
    compileTasks twoFilePlan "d".toList
      [["system/controlDict".toList], ["system/fvSchemes".toList]] = some (twoFileQueue []) := by
  decide +kernel

theorem acceptAll_assembles_iff_twoFiles :
    (∃ queue' final, acceptAll some .listed twoFilePlan (twoFileQueue [])
      [conflictingResponse, finalResponse] = .ok (queue', some final)) ↔
      Fits some twoFilePlan [conflictingResponse, finalResponse] :=
  acceptAll_assembles_iff twoFileQueue_compiled
    (.cons ⟨conflictingResponse_validated, by decide +kernel, by decide +kernel, by decide⟩
      (.cons ⟨finalResponse_validated, by decide +kernel, by decide +kernel, by decide⟩ .nil))

/-! ### Too many surfaces over two tasks -/

/-- Surfaces to check, all different. -/
def surfaceHints (letter : Char) (count : ℕ) : List Text :=
  (List.range count).map fun i => "constant/triSurface/".toList ++ List.replicate (i + 1) letter

/-- A response of one raw file that names surfaces to check. -/
def surveyingResponse (task path : String) (deferNative : Bool) (surfaces : List Text) :
    CaseAuthoringAction where
  taskId := some task.toList
  deferNative := deferNative
  goal := "author".toList
  files := [⟨path.toList, "content".toList⟩]
  surfaceChecks := surfaces

/-- Two responses of nine and eight surfaces, each below the limit of sixteen. -/
def surveyingResponses : List CaseAuthoringAction :=
  [surveyingResponse "d:1" "system/controlDict" true (surfaceHints 'a' 9),
    surveyingResponse "d:2" "system/fvSchemes" false (surfaceHints 'b' 8)]

theorem surveyingResponse_answers :
    List.Forall₂ Answers surveyingResponses (twoFileQueue []).tasks :=
  .cons ⟨⟨.listed, _, (by decide +kernel :
      CaseAuthoringAction.modelValidate .listed false (surveyingResponse "d:1" "system/controlDict"
        true (surfaceHints 'a' 9)).modelDump = _)⟩, by decide +kernel, by decide +kernel, by decide⟩
    (.cons ⟨⟨.listed, _, (by decide +kernel :
      CaseAuthoringAction.modelValidate .listed false (surveyingResponse "d:2" "system/fvSchemes"
        false (surfaceHints 'b' 8)).modelDump = _)⟩, by decide +kernel, by decide +kernel,
      by decide⟩
    .nil)

/-- The seventeen surfaces of two acceptable responses are more than the assembled plan may name,
so that the last response is refused. -/
theorem seventeen_surfaces_refused :
    compileTasks twoFilePlan "d".toList
        [["system/controlDict".toList], ["system/fvSchemes".toList]] = some (twoFileQueue []) ∧
      List.Forall₂ Answers surveyingResponses (twoFileQueue []).tasks ∧
      acceptAll some .listed twoFilePlan (twoFileQueue []) surveyingResponses =
        .error .invalidPlan :=
  ⟨twoFileQueue_compiled, surveyingResponse_answers, by decide +kernel⟩

end Engineering
end OpenFoamAgent
