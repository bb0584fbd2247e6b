/-
# Repairing a retained candidate

`apply_candidate_case_plan_repair` of `engineering/phases/authoring_controller.py` and
the conflict gate at the head of `execute_case_plan`. A candidate that reports
conflicts is kept; a repair drops, patches and replaces its files, and the result is
validated again from the dump of the candidate.

The dump carries the candidate's conflict list, which nothing clears. So a repaired
candidate reports every conflict of that list again, whatever the repair supplies, and
only conflicts inside typed dictionaries, which live in the dictionaries themselves, go
away with the content.
-/
import OpenFoamAgent.Library.Items
import OpenFoamAgent.Schemas.CasePlan

namespace OpenFoamAgent
namespace Engineering

open Python Schemas

/-- `CaseFilePatch`. -/
structure CaseFilePatch where
  path : Text
  old : Text
  new : Text
  deriving DecidableEq

/-- `CandidateCasePlanRepairAction`, with what its validation established. -/
structure CandidateRepair where
  patches : List CaseFilePatch := []
  replacementFiles : List CaseBundleFile := []
  typedDictionaries : List TypedFoamDictionaryFile := []
  dropPaths : List Text := []
  replacements_valid : ∀ f ∈ replacementFiles, f.valid
  typed_valid : ∀ d ∈ typedDictionaries, d.valid ∧ d.Settled

/-- The refusals of the repair. -/
inductive RepairError where
  | noTarget | notOnce | invalidFile | conflictingReplacement | bothForms | serialization
  | conflictingTyped | invalidPlan
  deriving DecidableEq

/-! ### The repair -/

/-- The files of a candidate while it is repaired: `raw`, `typed` and `block_mesh`. -/
structure Bundle where
  raw : List CaseBundleFile
  typed : List TypedFoamDictionaryFile
  blockMesh : Option BlockMesh

namespace Bundle

/-- `block_mesh = None` when its path is the given one. -/
def clearMesh (path : Text) (bundle : Bundle) : Bundle :=
  if path = blockMeshPath then { bundle with blockMesh := none } else bundle

/-- One path of `drop_paths`. -/
def drop (bundle : Bundle) (path : Text) : Bundle :=
  clearMesh path { bundle with
    raw := popItem (·.path) path bundle.raw
    typed := popItem (·.path) path bundle.typed }

variable (serialize : TypedFoamDictionaryFile → Option Text)

/-- The text a patch applies to. -/
def current (bundle : Bundle) (path : Text) : Except RepairError Text :=
  match bundle.raw.find? (·.path = path) with
  | some file => .ok file.content
  | none =>
    match bundle.typed.find? (·.path = path) with
    | none => .error .noTarget
    | some d => (serialize d).elim (.error .serialization) .ok

/-- One of the `patches`. -/
def patch (bundle : Bundle) (patch : CaseFilePatch) : Except RepairError Bundle := do
  let content ← bundle.current serialize patch.path
  if count patch.old content ≠ 1 then .error .notOnce
  else
    let file : CaseBundleFile := ⟨patch.path, replaceOnce patch.old patch.new content⟩
    if file.valid then
      .ok { bundle with
        raw := putItem (·.path) file bundle.raw
        typed := popItem (·.path) file.path bundle.typed }
    else .error .invalidFile

/-- One of the `replacement_files`; `seen` holds the contents met before. -/
def replace (seen : Dict Text Text) (bundle : Bundle) (file : CaseBundleFile) :
    Except RepairError (Dict Text Text × Bundle) :=
  if (seen.get file.path).any (· ≠ file.content) then .error .conflictingReplacement
  else if file.path ∈ bundle.typed.map (·.path) then .error .bothForms
  else .ok (seen.insert file.path file.content,
    clearMesh file.path { bundle with raw := putItem (·.path) file bundle.raw })

/-- One of the `typed_dictionaries`; `replaced` holds the paths of the replacement files. -/
def retype (replaced : List Text) (seen : Dict Text Text) (bundle : Bundle)
    (d : TypedFoamDictionaryFile) : Except RepairError (Dict Text Text × Bundle) := do
  let rendered ← (serialize d).elim (.error .serialization) .ok
  if (seen.get d.path).any (· ≠ rendered) then .error .conflictingTyped
  else if d.path ∈ replaced then .error .bothForms
  else .ok (seen.insert d.path rendered,
    clearMesh d.path { bundle with
      raw := popItem (·.path) d.path bundle.raw
      typed := putItem (·.path) d bundle.typed })

/-- The files of the repaired candidate. -/
def repair (bundle : Bundle) (repair : CandidateRepair) : Except RepairError Bundle := do
  let bundle := repair.dropPaths.foldl drop bundle
  let bundle ← repair.patches.foldlM (patch serialize) bundle
  let (_, bundle) ← repair.replacementFiles.foldlM (fun s file => replace s.1 s.2 file) (∅, bundle)
  let (_, bundle) ← repair.typedDictionaries.foldlM
    (fun s d => retype serialize (repair.replacementFiles.map (·.path)) s.1 s.2 d) (∅, bundle)
  return bundle

end Bundle

/-- `apply_candidate_case_plan_repair`. -/
def applyCandidateRepair (serialize : TypedFoamDictionaryFile → Option Text)
    (reload : EngineeringPlan → Option EngineeringPlan) (order : SetOrder)
    (candidate : ExecuteCasePlanAction) (repair : CandidateRepair) :
    Except RepairError ExecuteCasePlanAction := do
  let a := candidate.action
  let bundle ← Bundle.repair serialize ⟨a.files, a.typedDictionaries, a.blockMesh⟩ repair
  let rebuilt := { a with
    files := bundle.raw
    typedDictionaries := bundle.typed
    blockMesh := bundle.blockMesh }
  match ExecuteCasePlanAction.modelValidate reload order rebuilt.modelDump candidate.plan with
  | none => .error .invalidPlan
  | some repaired => .ok repaired

/-- The conflicts `execute_case_plan` refuses a candidate for. -/
def reportedConflicts (candidate : ExecuteCasePlanAction) : List Text :=
  candidate.action.authoringConflicts ++ candidate.action.typedDictionaries.flatMap fun d =>
    d.entryConflicts.map fun entry => "typed-entry:".toList ++ d.path ++ ':' :: entry

/-! ### What a repair keeps -/

namespace Bundle

/-- The files are checked and have distinct paths. -/
structure Sound (bundle : Bundle) : Prop where
  raw : ∀ f ∈ bundle.raw, f.valid
  typed : ∀ d ∈ bundle.typed, d.valid ∧ d.Settled
  rawNodup : (bundle.raw.map (·.path)).Nodup
  typedNodup : (bundle.typed.map (·.path)).Nodup
  disjoint : ∀ f ∈ bundle.raw, ∀ d ∈ bundle.typed, f.path ≠ d.path

variable {serialize : TypedFoamDictionaryFile → Option Text} {bundle bundle' : Bundle}

@[simp] theorem raw_clearMesh (path : Text) (bundle : Bundle) :
    (bundle.clearMesh path).raw = bundle.raw := by
  unfold clearMesh; split_ifs <;> rfl

@[simp] theorem typed_clearMesh (path : Text) (bundle : Bundle) :
    (bundle.clearMesh path).typed = bundle.typed := by
  unfold clearMesh; split_ifs <;> rfl

theorem Sound.clearMesh (h : bundle.Sound) (path : Text) : (bundle.clearMesh path).Sound := by
  constructor <;> simp only [raw_clearMesh, typed_clearMesh]
  exacts [h.raw, h.typed, h.rawNodup, h.typedNodup, h.disjoint]

theorem Sound.drop (h : bundle.Sound) (path : Text) : (bundle.drop path).Sound := by
  refine Sound.clearMesh ⟨fun f hf => h.raw f (mem_popItem.1 hf).1,
    fun d hd => h.typed d (mem_popItem.1 hd).1, nodup_popItem h.rawNodup,
    nodup_popItem h.typedNodup, fun f hf d hd => ?_⟩ path
  exact h.disjoint f (mem_popItem.1 hf).1 d (mem_popItem.1 hd).1

/-- A file put in the place of its typed dictionary. -/
theorem Sound.putRaw (h : bundle.Sound) {file : CaseBundleFile} (hvalid : file.valid) :
    Sound { bundle with
      raw := putItem (·.path) file bundle.raw
      typed := popItem (·.path) file.path bundle.typed } := by
  refine ⟨fun f hf => ?_, fun d hd => h.typed d (mem_popItem.1 hd).1, nodup_putItem h.rawNodup,
    nodup_popItem h.typedNodup, fun f hf d hd => ?_⟩
  · rcases mem_putItem.1 hf with rfl | ⟨hf, -⟩
    · exact hvalid
    · exact h.raw f hf
  · obtain ⟨hd, hne⟩ := mem_popItem.1 hd
    rcases mem_putItem.1 hf with rfl | ⟨hf, -⟩
    · exact hne.symm
    · exact h.disjoint f hf d hd

theorem patch_ok {p : CaseFilePatch} (h : bundle.patch serialize p = .ok bundle') :
    ∃ file : CaseBundleFile, file.path = p.path ∧ file.valid ∧ bundle' = { bundle with
      raw := putItem (·.path) file bundle.raw
      typed := popItem (·.path) file.path bundle.typed } := by
  unfold patch at h
  obtain ⟨content, -, h⟩ := Traversal.bind_eq_ok.1 h
  dsimp only at h
  split_ifs at h with hcount hvalid
  obtain rfl := Except.ok.inj h
  exact ⟨_, rfl, hvalid, rfl⟩

theorem replace_ok {seen seen' : Dict Text Text} {file : CaseBundleFile}
    (h : bundle.replace seen file = .ok (seen', bundle')) :
    file.path ∉ bundle.typed.map (·.path) ∧
      bundle' = clearMesh file.path { bundle with raw := putItem (·.path) file bundle.raw } := by
  unfold replace at h
  split_ifs at h with hprior htyped
  obtain ⟨-, rfl⟩ := Prod.mk.inj (Except.ok.inj h)
  exact ⟨htyped, rfl⟩

theorem retype_ok {replaced : List Text} {seen seen' : Dict Text Text}
    {d : TypedFoamDictionaryFile}
    (h : bundle.retype serialize replaced seen d = .ok (seen', bundle')) :
    d.path ∉ replaced ∧ bundle' = clearMesh d.path { bundle with
      raw := popItem (·.path) d.path bundle.raw
      typed := putItem (·.path) d bundle.typed } := by
  unfold retype at h
  obtain ⟨rendered, -, h⟩ := Traversal.bind_eq_ok.1 h
  split_ifs at h with hprior hreplaced
  obtain ⟨-, rfl⟩ := Prod.mk.inj (Except.ok.inj h)
  exact ⟨hreplaced, rfl⟩

theorem Sound.replace {seen seen' : Dict Text Text} {file : CaseBundleFile} (hb : bundle.Sound)
    (hvalid : file.valid) (h : bundle.replace seen file = .ok (seen', bundle')) :
    bundle'.Sound := by
  obtain ⟨hnot, rfl⟩ := replace_ok h
  suffices hput : Sound { bundle with raw := putItem (·.path) file bundle.raw } from
    hput.clearMesh file.path
  refine ⟨fun f hf => ?_, hb.typed, nodup_putItem hb.rawNodup, hb.typedNodup, fun f hf d hd => ?_⟩
  · rcases mem_putItem.1 hf with rfl | ⟨hf, -⟩
    · exact hvalid
    · exact hb.raw f hf
  · rcases mem_putItem.1 hf with rfl | ⟨hf, -⟩
    · exact fun heq => hnot (heq ▸ List.mem_map_of_mem hd)
    · exact hb.disjoint f hf d hd

theorem Sound.retype {replaced : List Text} {seen seen' : Dict Text Text}
    {d : TypedFoamDictionaryFile} (hb : bundle.Sound) (hvalid : d.valid ∧ d.Settled)
    (h : bundle.retype serialize replaced seen d = .ok (seen', bundle')) : bundle'.Sound := by
  obtain ⟨-, rfl⟩ := retype_ok h
  refine Sound.clearMesh ⟨fun f hf => hb.raw f (mem_popItem.1 hf).1, fun e he => ?_,
    nodup_popItem hb.rawNodup, nodup_putItem hb.typedNodup, fun f hf e he => ?_⟩ d.path
  · rcases mem_putItem.1 he with rfl | ⟨he, -⟩
    · exact hvalid
    · exact hb.typed e he
  · obtain ⟨hf, hne⟩ := mem_popItem.1 hf
    rcases mem_putItem.1 he with rfl | ⟨he, -⟩
    · exact hne
    · exact hb.disjoint f hf e he

/-- Dropping leaves a sound bundle, and no new typed dictionary. -/
theorem drops_sound (hb : bundle.Sound) (paths : List Text) :
    (paths.foldl drop bundle).Sound ∧ ∀ d ∈ (paths.foldl drop bundle).typed, d ∈ bundle.typed := by
  induction paths generalizing bundle with
  | nil => exact ⟨hb, fun _ hd => hd⟩
  | cons path paths ih =>
    obtain ⟨hsound, hsub⟩ := ih (hb.drop path)
    refine ⟨hsound, fun d hd => ?_⟩
    have hdrop := hsub d hd
    rw [drop, typed_clearMesh] at hdrop
    exact (mem_popItem.1 hdrop).1

/-- **What a repair leaves.** A repair that succeeds leaves checked files of distinct paths, and
each typed dictionary is one of the repair's, or one of the candidate's at a path that the
repair does not supply. -/
theorem repair_ok {r : CandidateRepair} (hb : bundle.Sound)
    (h : bundle.repair serialize r = .ok bundle') :
    bundle'.Sound ∧ ∀ d ∈ bundle'.typed, d ∈ r.typedDictionaries ∨
      (d ∈ bundle.typed ∧ d.path ∉ r.replacementFiles.map (·.path) ∧
        d.path ∉ r.typedDictionaries.map (·.path)) := by
  unfold repair at h
  obtain ⟨hdropped, hdroppedSub⟩ := drops_sound hb r.dropPaths
  obtain ⟨patched, hpatched, h⟩ := Traversal.bind_eq_ok.1 h
  obtain ⟨⟨seen, replaced⟩, hreplaced, h⟩ := Traversal.bind_eq_ok.1 h
  obtain ⟨⟨seen', retyped⟩, hretyped, h⟩ := Traversal.bind_eq_ok.1 h
  obtain rfl := Except.ok.inj h
  have hp : patched.Sound ∧ ∀ d ∈ patched.typed, d ∈ bundle.typed := by
    refine Traversal.foldlM_induct (P := fun _ b => b.Sound ∧ ∀ d ∈ b.typed, d ∈ bundle.typed)
      hpatched ⟨hdropped, hdroppedSub⟩ fun _ p _ b b' hb' hstep => ?_
    obtain ⟨file, -, hvalid, rfl⟩ := patch_ok hstep
    exact ⟨hb'.1.putRaw hvalid, fun d hd => hb'.2 d (mem_popItem.1 hd).1⟩
  have hr : replaced.Sound ∧ replaced.typed = patched.typed ∧
      ∀ f ∈ r.replacementFiles, f.path ∉ patched.typed.map (·.path) := by
    refine Traversal.foldlM_induct (P := fun done (s : Dict Text Text × Bundle) =>
      s.2.Sound ∧ s.2.typed = patched.typed ∧ ∀ f ∈ done, f.path ∉ patched.typed.map (·.path))
      hreplaced ⟨hp.1, rfl, fun _ hf => by simp at hf⟩ fun done f hf s s' hs hstep => ?_
    have hstep' : s.2.replace s.1 f = .ok (s'.1, s'.2) := hstep
    obtain ⟨hnot, heq⟩ := replace_ok hstep'
    refine ⟨hs.1.replace (r.replacements_valid f hf) hstep, ?_, fun g hg => ?_⟩
    · rw [heq, typed_clearMesh]
      exact hs.2.1
    · rcases List.mem_append.1 hg with hg | hg
      · exact hs.2.2 g hg
      · rw [List.mem_singleton.1 hg, ← hs.2.1]
        exact hnot
  refine Traversal.foldlM_induct (P := fun done (s : Dict Text Text × Bundle) =>
    s.2.Sound ∧ ∀ d ∈ s.2.typed, d ∈ done ∨ (d ∈ bundle.typed ∧
      d.path ∉ r.replacementFiles.map (·.path) ∧ d.path ∉ done.map (·.path)))
    hretyped ⟨hr.1, fun d hd => ?_⟩ fun done d hd s s' hs hstep => ?_
  · have hd' : d ∈ patched.typed := hr.2.1 ▸ hd
    refine .inr ⟨hp.2 d hd', fun hmem => ?_, List.not_mem_nil⟩
    obtain ⟨f, hf, hpath⟩ := List.mem_map.1 hmem
    exact hr.2.2 f hf (hpath ▸ List.mem_map_of_mem hd')
  · have hstep' : s.2.retype serialize (r.replacementFiles.map (·.path)) s.1 d = .ok (s'.1, s'.2) :=
      hstep
    obtain ⟨-, heq⟩ := retype_ok hstep'
    refine ⟨hs.1.retype (r.typed_valid d hd) hstep, fun e he => ?_⟩
    rw [heq, typed_clearMesh] at he
    rcases mem_putItem.1 he with rfl | ⟨he, hne⟩
    · exact .inl (List.mem_append_right _ (List.mem_singleton_self _))
    · rcases hs.2 e he with hdone | ⟨horig, hrep, hnot⟩
      · exact .inl (List.mem_append_left _ hdone)
      · refine .inr ⟨horig, hrep, fun hmem => ?_⟩
        rw [List.map_append, List.mem_append] at hmem
        exact hmem.elim hnot fun hlast => hne (List.mem_singleton.1 hlast)

end Bundle

/-! ### The conflict gate after a repair -/

/-- The paths a repair supplies content for. -/
def CandidateRepair.supplied (repair : CandidateRepair) : List Text :=
  repair.replacementFiles.map (·.path) ++ repair.typedDictionaries.map (·.path)

/-- The repair supplies content for every path the candidate reports a conflict at, and its own
dictionaries hold none. -/
structure Supplies (candidate : ExecuteCasePlanAction) (repair : CandidateRepair) : Prop where
  consistent : ∀ d ∈ repair.typedDictionaries, d.entryConflicts = []
  entries : ∀ d ∈ candidate.action.typedDictionaries, d.entryConflicts ≠ [] →
    d.path ∈ repair.supplied
  files : ∀ kind ∈ ["raw-file:", "typed-class:", "mixed-representation:"], ∀ path,
    kind.toList ++ path ∈ candidate.action.authoringConflicts → path ∈ repair.supplied

variable {serialize : TypedFoamDictionaryFile → Option Text}
variable {reload : EngineeringPlan → Option EngineeringPlan} {order : SetOrder}
variable {candidate repaired : ExecuteCasePlanAction} {repair : CandidateRepair}

/-- The files of a repaired candidate are sound, and its typed dictionaries are those of the repair
or of paths it does not supply. -/
theorem rebuilt_sound {bundle : Bundle} (hc : candidate.action.Validated true)
    (hbundle : Bundle.repair serialize ⟨candidate.action.files,
      candidate.action.typedDictionaries, candidate.action.blockMesh⟩ repair = .ok bundle) :
    (∀ d ∈ bundle.typed, d ∈ repair.typedDictionaries ∨
      (d ∈ candidate.action.typedDictionaries ∧ d.path ∉ repair.replacementFiles.map (·.path) ∧
        d.path ∉ repair.typedDictionaries.map (·.path))) ∧
    CaseAuthoringAction.Sound { candidate.action with
      files := bundle.raw
      typedDictionaries := bundle.typed
      blockMesh := bundle.blockMesh } := by
  have hsound := hc.sound
  obtain ⟨hfiles, htyped, hdisj⟩ := List.nodup_append.1 hsound.nodup
  obtain ⟨hb, hfrom⟩ := Bundle.repair_ok
    ⟨List.all_eq_true.1 hsound.files,
      fun d hd => ⟨List.all_eq_true.1 hsound.typed d hd, hsound.settled d hd⟩, hfiles, htyped,
      fun f hf d hd => hdisj _ (List.mem_map_of_mem hf) _ (List.mem_map_of_mem hd)⟩ hbundle
  refine ⟨hfrom, List.all_eq_true.2 hb.raw, List.all_eq_true.2 fun d hd => (hb.typed d hd).1,
    fun d hd => (hb.typed d hd).2, List.nodup_append.2 ⟨hb.rawNodup, hb.typedNodup, ?_⟩⟩
  intro a ha b hb' hab
  obtain ⟨f, hf, rfl⟩ := List.mem_map.1 ha
  obtain ⟨d, hd, rfl⟩ := List.mem_map.1 hb'
  exact hb.disjoint f hf d hd hab

/-- What the repaired candidate holds: the candidate's conflict list, and typed dictionaries of
the repair or of paths it does not supply. -/
theorem applyCandidateRepair_ok (hc : candidate.action.Validated true)
    (h : applyCandidateRepair serialize reload order candidate repair = .ok repaired) :
    repaired.action.authoringConflicts = candidate.action.authoringConflicts ∧
      ∀ d ∈ repaired.action.typedDictionaries, d ∈ repair.typedDictionaries ∨
        (d ∈ candidate.action.typedDictionaries ∧ d.path ∉ repair.supplied) := by
  unfold applyCandidateRepair at h
  obtain ⟨bundle, hbundle, h⟩ := Traversal.bind_eq_ok.1 h
  dsimp only at h
  split at h
  · cases h
  rename_i result hresult
  obtain rfl := Except.ok.inj h
  obtain ⟨hfrom, hrebuilt⟩ := rebuilt_sound hc hbundle
  obtain ⟨-, -, htypedEq, -, hconflicts⟩ :=
    ExecuteCasePlanAction.of_modelValidate hrebuilt hresult
  refine ⟨hconflicts.trans hc.conflicts, fun d hd => ?_⟩
  rw [htypedEq] at hd
  refine (hfrom d hd).imp id fun ⟨horig, hrep, hnot⟩ => ⟨horig, fun hmem => ?_⟩
  exact (List.mem_append.1 hmem).elim hrep hnot

/-- **When a repair clears the conflicts.** A repaired candidate reports none of the candidate's
conflicts, and the gate accepts it, exactly when the candidate's own conflict list is empty:
what it reports are entry conflicts of its typed dictionaries. -/
theorem clears_conflicts_iff (hc : candidate.action.Validated true)
    (hsupplies : Supplies candidate repair)
    (h : applyCandidateRepair serialize reload order candidate repair = .ok repaired) :
    ((∀ t ∈ reportedConflicts candidate, t ∉ reportedConflicts repaired) ∧
      reportedConflicts repaired = []) ↔ candidate.action.authoringConflicts = [] := by
  obtain ⟨hlist, htyped⟩ := applyCandidateRepair_ok hc h
  constructor
  · rintro ⟨-, hnone⟩
    rw [← hlist]
    exact (List.append_eq_nil_iff.1 hnone).1
  · intro hempty
    have hnone : reportedConflicts repaired = [] := by
      refine List.append_eq_nil_iff.2 ⟨hlist.trans hempty, List.flatMap_eq_nil_iff.2 fun d hd => ?_⟩
      have hentries : d.entryConflicts = [] := by
        rcases htyped d hd with hrep | ⟨horig, hnot⟩
        · exact hsupplies.consistent d hrep
        · by_contra hne
          exact hnot (hsupplies.entries d horig hne)
      rw [hentries, List.map_nil]
    exact ⟨fun t _ ht => List.not_mem_nil (hnone ▸ ht), hnone⟩

/-! ### A raw file authored twice -/

/-- A candidate of one file, which was authored with two contents. -/
def rawConflictCandidate : ExecuteCasePlanAction where
  action := {
    goal := "author".toList
    files := [⟨"system/controlDict".toList, "first".toList⟩]
    requiredCaseFiles := ["system/controlDict".toList]
    authoringConflicts := ["raw-file:system/controlDict".toList] }
  plan := planRequiring ["system/controlDict"]

/-- A repair that supplies the file anew. -/
def rawRepair : CandidateRepair where
  replacementFiles := [⟨"system/controlDict".toList, "third".toList⟩]
  replacements_valid := by decide +kernel
  typed_valid := fun d hd => absurd hd List.not_mem_nil

/-- What the repair makes of the candidate. -/
def rawRepaired : ExecuteCasePlanAction where
  action := { rawConflictCandidate.action with
    files := [⟨"system/controlDict".toList, "third".toList⟩] }
  plan := planRequiring ["system/controlDict"]

theorem rawConflictCandidate_validated : rawConflictCandidate.action.Validated true :=
  ⟨.listed, {
    goal := "author".toList
    files := ["first", "second"].map fun content =>
      some ⟨.text "system/controlDict".toList, .text content.toList⟩
    requiredCaseFiles := ["system/controlDict".toList] }, by decide +kernel⟩

theorem rawRepair_supplies : Supplies rawConflictCandidate rawRepair where
  consistent := fun d hd => absurd hd List.not_mem_nil
  entries := fun d hd => absurd hd List.not_mem_nil
  files := by
    intro kind hkind path hmem
    have htoken : kind.toList ++ path = "raw-file:system/controlDict".toList :=
      List.mem_singleton.1 hmem
    have hraw : "raw-file:system/controlDict".toList =
      "raw-file:".toList ++ "system/controlDict".toList := by decide +kernel
    rw [hraw] at htoken
    rcases List.mem_cons.1 hkind with rfl | hkind
    · rw [List.append_cancel_left htoken]
      decide +kernel
    · -- a token of another kind starts with another letter
      have hhead : (kind.toList ++ path).head? ≠ some 'r' := by
        rcases List.mem_cons.1 hkind with rfl | hkind
        · simp
        · rw [List.mem_singleton.1 hkind]
          simp
      exact absurd (htoken ▸ by decide +kernel) hhead

theorem rawRepair_ok : applyCandidateRepair (fun _ => some []) some .listed rawConflictCandidate
    rawRepair = .ok rawRepaired := by decide +kernel

theorem clears_conflicts_iff_raw :
    ((∀ t ∈ reportedConflicts rawConflictCandidate, t ∉ reportedConflicts rawRepaired) ∧
      reportedConflicts rawRepaired = []) ↔
      rawConflictCandidate.action.authoringConflicts = [] :=
  clears_conflicts_iff rawConflictCandidate_validated rawRepair_supplies rawRepair_ok

/-- **A supplied file keeps its conflict.** The repair supplies a consistent content for the only
path in conflict, and the repaired candidate reports the same conflict again. -/
theorem supplied_file_keeps_conflict :
    ∃ (candidate repaired : ExecuteCasePlanAction) (repair : CandidateRepair),
      candidate.action.Validated true ∧ Supplies candidate repair ∧
      applyCandidateRepair (fun _ => some []) some .listed candidate repair = .ok repaired ∧
      reportedConflicts candidate ≠ [] ∧
      reportedConflicts repaired = reportedConflicts candidate :=
  ⟨_, _, _, rawConflictCandidate_validated, rawRepair_supplies, rawRepair_ok, by decide +kernel,
    by decide +kernel⟩

end Engineering
end OpenFoamAgent
