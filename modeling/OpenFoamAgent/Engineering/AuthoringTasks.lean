/-
# Partitioned authoring

`engineering/authoring_tasks.py`: a case too large for one prompt is authored in
tasks, each of which owns some of the required files. `accept_task` checks a response
against the task at the cursor and holds it; after the last one it assembles the files
of all responses into one executable case plan.

The other fields of the assembled plan, its conflict list among them, are those of the
last response. So the assembly keeps every file of every response, and the conflicts of
the earlier ones exactly when the last response carries them too.
-/
import OpenFoamAgent.Schemas.CasePlan

namespace OpenFoamAgent
namespace Engineering

open Python Schemas

/-- `task["authoring_task"]`. -/
structure AuthoringTask where
  id : Text
  paths : List Text
  isFinal : Bool
  deriving DecidableEq

/-- The queue that `compile_tasks` returns. The responses are held as they were dumped. -/
structure TaskQueue where
  planSha256 : Sha256 EngineeringPlan
  tasks : List AuthoringTask
  cursor : ℕ := 0
  responses : List CaseAuthoringAction := []
  deriving DecidableEq

/-- The end of `compile_tasks`: the tasks of the batches into which the context budget divided
the required files. `digits` are the leading hexadecimal digits of the plan's hash. -/
def compileTasks (plan : EngineeringPlan) (digits : Text) (batches : List (List Text)) :
    Option TaskQueue :=
  let paths := plan.requiredCaseFiles
  if ¬ paths.Nodup ∨ paths = [] then none
  else if batches.flatten ≠ paths then none
  else some {
    planSha256 := ⟨plan⟩
    tasks := batches.zipIdx.map fun batch => {
      id := digits ++ ':' :: (toString (batch.2 + 1)).toList
      paths := batch.1
      isFinal := batch.2 + 1 = batches.length } }

/-- The refusals of `accept_task`. -/
inductive AcceptError where
  | planChanged | noTask | coverage | finality | duplicateMesh | invalidPlan
  deriving DecidableEq

/-- The fields of the assembled plan. -/
def assembled (plan : EngineeringPlan) (responses : List CaseAuthoringAction)
    (last : CaseAuthoringAction) : CaseAuthoringAction :=
  { last with
    files := responses.flatMap (·.files)
    typedDictionaries := responses.flatMap (·.typedDictionaries)
    validateDictionaries := fromKeys (responses.flatMap (·.validateDictionaries))
    surfaceChecks := fromKeys (responses.flatMap (·.surfaceChecks))
    taskId := none
    deferNative := false
    blockMesh := (responses.filterMap (·.blockMesh)).head?
    requiredCaseFiles := plan.requiredCaseFiles }

section

variable (reload : EngineeringPlan → Option EngineeringPlan) (order : SetOrder)

/-- `accept_task`. -/
def acceptTask (queue : TaskQueue) (action : CaseAuthoringAction) (plan : EngineeringPlan) :
    Except AcceptError (TaskQueue × Option ExecuteCasePlanAction) :=
  if queue.planSha256 ≠ ⟨plan⟩ then .error .planChanged
  else match queue.tasks[queue.cursor]? with
  | none => .error .noTask
  | some task =>
    if action.taskId ≠ some task.id ∨ action.paths.toFinset ≠ task.paths.toFinset ∨
        ¬ action.paths.Nodup then .error .coverage
    else if action.deferNative = task.isFinal then .error .finality
    else
      let queue := { queue with
        responses := queue.responses ++ [action]
        cursor := queue.cursor + 1 }
      if queue.cursor < queue.tasks.length then .ok (queue, none)
      else if 1 < (queue.responses.filterMap (·.blockMesh)).length then .error .duplicateMesh
      else
        match ExecuteCasePlanAction.modelValidate reload order
          (assembled plan queue.responses action).modelDump plan with
        | none => .error .invalidPlan
        | some final => .ok (queue, some final)

/-- What an accepted response did to the queue. -/
structure AcceptedBy (queue : TaskQueue) (action : CaseAuthoringAction) (queue' : TaskQueue)
    (task : AuthoringTask) : Prop where
  current : queue.tasks[queue.cursor]? = some task
  paths : action.paths.toFinset = task.paths.toFinset
  nodup : action.paths.Nodup
  next : queue' = { queue with
    responses := queue.responses ++ [action]
    cursor := queue.cursor + 1 }

variable {reload order} {queue queue' : TaskQueue} {action : CaseAuthoringAction}
variable {plan : EngineeringPlan}

theorem acceptTask_eq_none (h : acceptTask reload order queue action plan = .ok (queue', none)) :
    ∃ task, AcceptedBy queue action queue' task := by
  unfold acceptTask at h
  split_ifs at h
  split at h
  · cases h
  · rename_i task htask
    split_ifs at h with hcover
    · dsimp only at h
      split_ifs at h
      · obtain ⟨rfl, -⟩ := Prod.mk.inj (Except.ok.inj h)
        simp only [ne_eq, not_or, not_not] at hcover
        exact ⟨task, htask, hcover.2.1, hcover.2.2, rfl⟩
      · split at h
        · cases h
        · cases (Prod.mk.inj (Except.ok.inj h)).2

theorem acceptTask_eq_some {final : ExecuteCasePlanAction}
    (h : acceptTask reload order queue action plan = .ok (queue', some final)) :
    ∃ task, AcceptedBy queue action queue' task ∧ queue'.tasks.length ≤ queue'.cursor ∧
      (queue'.responses.filterMap (·.blockMesh)).length ≤ 1 ∧
      ExecuteCasePlanAction.modelValidate reload order
        (assembled plan queue'.responses action).modelDump plan = some final := by
  unfold acceptTask at h
  split_ifs at h
  split at h
  · cases h
  · rename_i task htask
    split_ifs at h with hcover
    · dsimp only at h
      split_ifs at h with hmore hmesh
      · cases (Prod.mk.inj (Except.ok.inj h)).2
      · split at h
        · cases h
        · rename_i result hresult
          obtain ⟨rfl, hfinal⟩ := Prod.mk.inj (Except.ok.inj h)
          obtain rfl := Option.some.inj hfinal
          simp only [ne_eq, not_or, not_not] at hcover
          exact ⟨task, ⟨htask, hcover.2.1, hcover.2.2, rfl⟩, not_lt.1 hmore, not_lt.1 hmesh, hresult⟩

end

/-! ### Runs -/

/-- A run of accepted responses, none of them the last. Each call brings its own plan. -/
inductive Accepts (reload : EngineeringPlan → Option EngineeringPlan) :
    TaskQueue → List CaseAuthoringAction → TaskQueue → Prop
  | none {queue : TaskQueue} : Accepts reload queue [] queue
  | more {queue queue' queue'' : TaskQueue} {order : SetOrder} {action : CaseAuthoringAction}
      {actions : List CaseAuthoringAction} {plan : EngineeringPlan}
      (hrun : Accepts reload queue actions queue') (hvalid : action.Validated false)
      (hstep : acceptTask reload order queue' action plan = .ok (queue'', Option.none)) :
      Accepts reload queue (actions ++ [action]) queue''

/-- What a run of accepted responses has done to a queue. -/
structure Progress (queue : TaskQueue) (actions : List CaseAuthoringAction) (queue' : TaskQueue) :
    Prop where
  tasks : queue'.tasks = queue.tasks
  responses : queue'.responses = actions
  cursor : queue'.cursor = actions.length
  validated : ∀ a ∈ actions, a.Validated false
  covered : List.Forall₂ (fun (a : CaseAuthoringAction) (task : AuthoringTask) =>
    a.paths.Perm task.paths) actions (queue.tasks.take actions.length)

variable {reload : EngineeringPlan → Option EngineeringPlan} {order : SetOrder}
variable {queue queue' : TaskQueue} {plan : EngineeringPlan}

theorem compileTasks_eq_some {digits : Text} {batches : List (List Text)}
    (h : compileTasks plan digits batches = some queue) :
    queue.cursor = 0 ∧ queue.responses = [] ∧
      (queue.tasks.flatMap (·.paths)).Nodup := by
  unfold compileTasks at h
  dsimp only at h
  split_ifs at h with hempty hflat
  obtain rfl := Option.some.inj h
  obtain ⟨hnd, -⟩ := not_or.1 hempty
  refine ⟨rfl, rfl, ?_⟩
  rw [List.flatMap_map]
  dsimp only
  rw [List.flatMap_def, List.zipIdx_map_fst, not_not.1 hflat]
  exact not_not.1 hnd

theorem Progress.step {actions : List CaseAuthoringAction} {action : CaseAuthoringAction}
    {queue'' : TaskQueue} {task : AuthoringTask} (hp : Progress queue actions queue')
    (hnd : (queue.tasks.flatMap (·.paths)).Nodup) (hvalid : action.Validated false)
    (hstep : AcceptedBy queue' action queue'' task) :
    Progress queue (actions ++ [action]) queue'' := by
  have htask : queue.tasks[actions.length]? = some task := by
    rw [← hp.cursor, ← hp.tasks]
    exact hstep.current
  have hmem : task ∈ queue.tasks := List.mem_of_getElem? htask
  have hperm : action.paths.Perm task.paths :=
    (List.perm_ext_iff_of_nodup hstep.nodup ((List.nodup_flatMap.1 hnd).1 task hmem)).2
      fun path => by rw [← List.mem_toFinset, hstep.paths, List.mem_toFinset]
  rw [hstep.next]
  refine ⟨hp.tasks, ?_, ?_, fun a ha => ?_, ?_⟩
  · rw [hp.responses]
  · rw [hp.cursor, List.length_append, List.length_singleton]
  · rcases List.mem_append.1 ha with ha | ha
    · exact hp.validated a ha
    · exact List.mem_singleton.1 ha ▸ hvalid
  · rw [List.length_append, List.length_singleton, List.take_add_one, htask]
    exact List.rel_append hp.covered (.cons hperm .nil)

/-- **Accepted responses cover the tasks.** Every run of accepted responses holds one response
for each task passed, with the files of that task. -/
theorem progress_of_accepts {digits : Text} {batches : List (List Text)}
    {actions : List CaseAuthoringAction} (hq : compileTasks plan digits batches = some queue)
    (hrun : Accepts reload queue actions queue') : Progress queue actions queue' := by
  obtain ⟨hcursor, hresponses, hnd⟩ := compileTasks_eq_some hq
  induction hrun with
  | none => exact ⟨rfl, hresponses, hcursor, fun _ ha => by simp at ha, by simp⟩
  | more _ hvalid hstep ih =>
    obtain ⟨task, hby⟩ := acceptTask_eq_none hstep
    exact ih.step hnd hvalid hby

/-! ### The assembled plan -/

theorem flatMap_perm_of_forall₂ {actions : List CaseAuthoringAction} {tasks : List AuthoringTask}
    (h : List.Forall₂ (fun (a : CaseAuthoringAction) (task : AuthoringTask) =>
      a.paths.Perm task.paths) actions tasks) :
    (actions.flatMap (·.paths)).Perm (tasks.flatMap (·.paths)) := by
  induction h with
  | nil => exact .refl _
  | cons hab _ ih => exact hab.append ih

/-- The paths of the assembled plan are those of its responses. -/
theorem paths_perm (responses : List CaseAuthoringAction) :
    (responses.flatMap (·.paths)).Perm
      ((responses.flatMap (·.files)).map (·.path) ++
        (responses.flatMap (·.typedDictionaries)).map (·.path) ++
        (responses.filterMap (·.blockMesh)).map fun _ => blockMeshPath) := by
  have hmesh : (responses.filterMap (·.blockMesh)).map (fun _ => blockMeshPath) =
      responses.flatMap fun r => r.blockMesh.toList.map fun _ => blockMeshPath := by
    induction responses with
    | nil => rfl
    | cons r rs ih =>
      rw [List.filterMap_cons, List.flatMap_cons, ← ih]
      cases r.blockMesh <;> rfl
  rw [hmesh, List.map_flatMap, List.map_flatMap]
  exact ((List.flatMap_append_perm responses _ _).append_right _ |>.trans
    (List.flatMap_append_perm responses _ _)).symm

/-- The files of the responses, as one action with distinct paths. -/
theorem sound_assembled {responses : List CaseAuthoringAction} {last : CaseAuthoringAction}
    (hvalid : ∀ r ∈ responses, r.Validated false) (hnd : (responses.flatMap (·.paths)).Nodup) :
    (assembled plan responses last).Sound := by
  refine ⟨List.all_eq_true.2 fun f hf => ?_, List.all_eq_true.2 fun d hd => ?_, fun d hd => ?_, ?_⟩
  · obtain ⟨r, hr, hmem⟩ := List.mem_flatMap.1 hf
    exact List.all_eq_true.1 (hvalid r hr).sound.files f hmem
  · obtain ⟨r, hr, hmem⟩ := List.mem_flatMap.1 hd
    exact List.all_eq_true.1 (hvalid r hr).sound.typed d hmem
  · obtain ⟨r, hr, hmem⟩ := List.mem_flatMap.1 hd
    exact (hvalid r hr).sound.settled d hmem
  · exact (List.nodup_append.1 ((paths_perm responses).nodup_iff.1 hnd)).1

/-- The assembled plan holds every file of every response exactly once, and every conflict of
every response. -/
structure Assembles (responses : List CaseAuthoringAction) (final : CaseAuthoringAction) :
    Prop where
  files : final.files = responses.flatMap (·.files)
  typedDictionaries : final.typedDictionaries = responses.flatMap (·.typedDictionaries)
  blockMesh : final.blockMesh.toList = responses.filterMap (·.blockMesh)
  once : final.paths.Nodup
  conflicts : ∀ r ∈ responses, ∀ t ∈ r.authoringConflicts, t ∈ final.authoringConflicts

/-- **What the assembly keeps.** For every queue of tasks and every run of accepted responses, the
assembled plan holds every file of every response once; it holds every conflict exactly when
those of the earlier responses are among the last one's. -/
theorem assembles_iff {digits : Text} {batches : List (List Text)} {queue'' : TaskQueue}
    {plan' : EngineeringPlan} {actions : List CaseAuthoringAction} {last : CaseAuthoringAction}
    {final : ExecuteCasePlanAction} (hq : compileTasks plan digits batches = some queue)
    (hrun : Accepts reload queue actions queue') (hlast : last.Validated false)
    (hfinal : acceptTask reload order queue' last plan' = .ok (queue'', some final)) :
    Assembles (actions ++ [last]) final.action ↔
      ∀ r ∈ actions, ∀ t ∈ r.authoringConflicts, t ∈ last.authoringConflicts := by
  obtain ⟨-, -, hnd⟩ := compileTasks_eq_some hq
  obtain ⟨task, hby, hdone, hmesh, hvalidate⟩ := acceptTask_eq_some hfinal
  have hp := (progress_of_accepts hq hrun).step hnd hlast hby
  have hcovered := hp.covered
  have hall : queue.tasks.take (actions ++ [last]).length = queue.tasks := by
    rw [List.take_of_length_le]
    rw [← hp.tasks, ← hp.cursor]
    exact hdone
  rw [hall] at hcovered
  have hpaths : ((actions ++ [last]).flatMap (·.paths)).Nodup :=
    (flatMap_perm_of_forall₂ hcovered).nodup_iff.2 hnd
  rw [hp.responses] at hvalidate hmesh
  obtain ⟨hvalidated, hfiles, htyped, hblock, hconflicts⟩ :=
    ExecuteCasePlanAction.of_modelValidate (sound_assembled hp.validated hpaths) hvalidate
  have hlastConflicts : final.action.authoringConflicts = last.authoringConflicts :=
    hconflicts.trans hlast.conflicts
  have hmeshes : final.action.blockMesh.toList = (actions ++ [last]).filterMap (·.blockMesh) := by
    rw [hblock, assembled]
    dsimp only
    generalize (actions ++ [last]).filterMap (·.blockMesh) = meshes at hmesh ⊢
    cases meshes with
    | nil => rfl
    | cons mesh rest =>
      rw [List.length_cons] at hmesh
      rw [List.length_eq_zero_iff.1 (show rest.length = 0 by omega)]
      rfl
  constructor
  · intro h r hr t ht
    rw [← hlastConflicts]
    exact h.conflicts r (List.mem_append_left _ hr) t ht
  · intro h
    refine ⟨hfiles, htyped, hmeshes, hvalidated.nodup_paths, fun r hr t ht => ?_⟩
    rw [hlastConflicts]
    rcases List.mem_append.1 hr with hr | hr
    · exact h r hr t ht
    · exact List.mem_singleton.1 hr ▸ ht

/-! ### A conflict in the first of two tasks -/

/-- A plan that requires two files. -/
def twoFilePlan : EngineeringPlan := planRequiring ["system/controlDict", "system/fvSchemes"]

/-- Its queue, one task for each file, with the responses held so far. -/
def twoFileQueue (responses : List CaseAuthoringAction) : TaskQueue where
  planSha256 := ⟨twoFilePlan⟩
  tasks := [⟨"d:1".toList, ["system/controlDict".toList], false⟩,
    ⟨"d:2".toList, ["system/fvSchemes".toList], true⟩]
  cursor := responses.length
  responses := responses

/-- A response of one raw file, authored with the given contents. -/
def fileResponse (task path : String) (deferNative : Bool) (contents : List String) :
    AuthoringPayload where
  taskId := some task.toList
  deferNative := deferNative
  goal := "author".toList
  files := contents.map fun content => some ⟨.text path.toList, .text content.toList⟩

/-- The first response as it is held: the first content, and the conflict. -/
def conflictingResponse : CaseAuthoringAction where
  taskId := some "d:1".toList
  deferNative := true
  goal := "author".toList
  files := [⟨"system/controlDict".toList, "first".toList⟩]
  authoringConflicts := ["raw-file:system/controlDict".toList]

def finalResponse : CaseAuthoringAction where
  taskId := some "d:2".toList
  goal := "author".toList
  files := [⟨"system/fvSchemes".toList, "schemes".toList⟩]

/-- What the two responses are assembled to. -/
def twoFileResult : ExecuteCasePlanAction where
  action := {
    goal := "author".toList
    files := [⟨"system/controlDict".toList, "first".toList⟩,
      ⟨"system/fvSchemes".toList, "schemes".toList⟩]
    requiredCaseFiles := twoFilePlan.requiredCaseFiles }
  plan := twoFilePlan

theorem conflictingResponse_validated : conflictingResponse.Validated false :=
  ⟨.listed, fileResponse "d:1" "system/controlDict" true ["first", "second"], by decide +kernel⟩

theorem finalResponse_validated : finalResponse.Validated false :=
  ⟨.listed, fileResponse "d:2" "system/fvSchemes" false ["schemes"], by decide +kernel⟩

theorem twoFileQueue_accepts :
    Accepts some (twoFileQueue []) ([] ++ [conflictingResponse])
      (twoFileQueue [conflictingResponse]) :=
  .more .none conflictingResponse_validated
    (show acceptTask some .listed _ _ twoFilePlan = _ by decide +kernel)

theorem assembles_iff_twoFiles :
    Assembles ([conflictingResponse] ++ [finalResponse]) twoFileResult.action ↔
      ∀ r ∈ [conflictingResponse], ∀ t ∈ r.authoringConflicts,
        t ∈ finalResponse.authoringConflicts :=
  assembles_iff
    (show compileTasks twoFilePlan "d".toList
      [["system/controlDict".toList], ["system/fvSchemes".toList]] = some (twoFileQueue []) by
      decide +kernel)
    twoFileQueue_accepts finalResponse_validated
    (show acceptTask some .listed _ _ twoFilePlan =
      .ok (twoFileQueue [conflictingResponse, finalResponse], some twoFileResult) by decide +kernel)

/-- The two contents of `system/controlDict` differ, the first response records it, and the
assembled plan does not. -/
theorem assembly_loses_conflict :
    ∃ queue queue' queue'' actions last final,
      compileTasks twoFilePlan "d".toList
        [["system/controlDict".toList], ["system/fvSchemes".toList]] = some queue ∧
      Accepts some queue actions queue' ∧ last.Validated false ∧
      acceptTask some .listed queue' last twoFilePlan = .ok (queue'', some final) ∧
      ¬ Assembles (actions ++ [last]) final.action := by
  refine ⟨twoFileQueue [], twoFileQueue [conflictingResponse],
    twoFileQueue [conflictingResponse, finalResponse], [conflictingResponse], finalResponse,
    twoFileResult, by decide +kernel, twoFileQueue_accepts, finalResponse_validated,
    by decide +kernel, fun h => ?_⟩
  exact absurd (h.conflicts conflictingResponse (by simp) _ (List.mem_singleton_self _))
    (by decide +kernel)

end Engineering
end OpenFoamAgent
