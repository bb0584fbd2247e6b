/-
# Reloading an authored action

The dump of checked values passes the before-validators as it is. A list of hints that
was normalised once stays as it is, and so do the native commands: the second pass meets
no repetition, no blank text and the checks already at the end.
-/
import OpenFoamAgent.Schemas.AuthoringFields
import OpenFoamAgent.Schemas.TypedMerge

namespace OpenFoamAgent
namespace Schemas

open Python Repetitions

/-! ### Blank texts and hints -/

theorem nonBlank_of_notSpace {c : Char} {t : Text} (hc : c ∈ t) (h : isSpace c = false) :
    nonBlank t := by
  simp only [nonBlank, Bool.not_eq_true', List.isEmpty_eq_false_iff]
  intro hnil
  rw [stripBy_eq_nil.1 hnil c hc] at h
  cases h

theorem nonBlank_strip {t : Text} (h : strip t ≠ []) : nonBlank (strip t) := by
  simp only [nonBlank, Bool.not_eq_true', List.isEmpty_eq_false_iff]
  rw [strip, strip, stripBy_stripBy]
  exact h

theorem fromKeys_eq_self {l : List Text} (h : l.Nodup) : fromKeys l = l :=
  noteAll_of_nodup h

theorem nodup_fromKeys (l : List Text) : (fromKeys l).Nodup := nodup_noteAll l List.nodup_nil

theorem mem_fromKeys {l : List Text} {t : Text} : t ∈ fromKeys l ↔ t ∈ l := by
  simp [fromKeys, mem_noteAll]

/-- Hints that were normalised once. -/
def SettledHints (l : List Text) : Prop := l.Nodup ∧ ∀ t ∈ l, nonBlank t

theorem settledHints_fromKeys (l : List Text) : SettledHints (fromKeys (l.filter nonBlank)) :=
  ⟨nodup_fromKeys _, fun _ ht => (List.mem_filter.1 (mem_fromKeys.1 ht)).2⟩

theorem SettledHints.fromKeys_filter {l : List Text} (h : SettledHints l) :
    fromKeys (l.filter nonBlank) = l := by
  rw [List.filter_eq_self.2 h.2, fromKeys_eq_self h.1]

/-! ### Native commands -/

theorem moveLast_idem (last : Text) (l : List Text) :
    moveLast last (moveLast last l) = moveLast last l := by
  unfold moveLast
  split_ifs with hmem hmem'
  · simp
  · exact absurd (by simp) hmem'
  · rfl

theorem mem_moveLast {last : Text} {l : List Text} {t : Text} : t ∈ moveLast last l ↔ t ∈ l := by
  unfold moveLast
  split_ifs with hmem
  · by_cases ht : t = last
    · simp [ht, hmem]
    · simp [ht]
  · rfl

theorem nodup_moveLast {last : Text} {l : List Text} (h : l.Nodup) : (moveLast last l).Nodup := by
  unfold moveLast
  split_ifs
  · refine List.nodup_append.2 ⟨h.filter _, List.nodup_singleton _, fun a ha b hb hab => ?_⟩
    obtain rfl := List.mem_singleton.1 hb
    simp [hab] at ha
  · exact h

theorem SettledHints.moveLast {commands : List Text} (h : SettledHints commands) (last : Text) :
    SettledHints (moveLast last commands) :=
  ⟨nodup_moveLast h.1, fun t ht => h.2 t (mem_moveLast.1 ht)⟩

theorem orderPipeline_perm (l : List (Option RawCommand)) :
    (orderPipeline l).Perm (keepFirst (Option.map RawCommand.token) (fun _ => ())
      (fun _ => (none : Option Text)) [] l).1 := by
  unfold orderPipeline
  dsimp only
  refine List.perm_append_comm.trans ?_
  exact List.filter_append_perm (isCommand "checkMesh") _

theorem mem_of_mem_orderPipeline {l : List (Option RawCommand)} {item : Option RawCommand}
    (h : item ∈ orderPipeline l) : item ∈ l :=
  keepFirst_sublist.mem ((orderPipeline_perm l).mem_iff.1 h)

theorem orderPipeline_ne_nil {l : List (Option RawCommand)} (h : l ≠ []) : orderPipeline l ≠ [] := by
  intro hnil
  have hperm := orderPipeline_perm l
  rw [hnil, List.nil_perm] at hperm
  exact keepFirst_ne_nil h hperm

theorem orderPipeline_idem (l : List (Option RawCommand)) :
    orderPipeline (orderPipeline l) = orderPipeline l := by
  have hnd : ((orderPipeline l).filterMap (Option.map RawCommand.token)).Nodup :=
    ((orderPipeline_perm l).filterMap _).nodup_iff.2 nodup_keepFirst
  rw [orderPipeline, keepFirst_of_nodup hnd]
  dsimp only
  rw [orderPipeline]
  simp [List.filter_append, List.filter_filter]

namespace AuthoringPayload

theorem nativeHints_deferred {p : AuthoringPayload} (h : p.deferNative = true) :
    p.nativeHints = ([], []) := by
  simp [nativeHints, h]

/-- What the native hints of a payload are when they are not deferred. -/
theorem nativeHints_cases (p : AuthoringPayload) (h : p.deferNative = false) :
    (∃ commands : List Text, SettledHints commands ∧ "foamDictionary".toList ∉ commands ∧
      p.nativeHints = ([], moveLast "checkMesh".toList commands)) ∨
    (∃ pipeline : List (Option RawCommand), pipeline ≠ [] ∧
      (∀ item ∈ pipeline, isCommand "foamDictionary" item = false) ∧
      p.nativeHints = (orderPipeline pipeline, [])) := by
  unfold nativeHints
  rw [h]
  dsimp only
  rw [if_neg Bool.false_ne_true]
  split_ifs with hempty
  · refine .inl ⟨_, ⟨(nodup_fromKeys _).filter _, fun t ht => ?_⟩, ?_, rfl⟩
    · exact (settledHints_fromKeys p.meshCommands).2 t (List.mem_filter.1 ht).1
    · simp
  · refine .inr ⟨_, fun hnil => hempty (by rw [hnil]; rfl), fun item hitem => ?_, rfl⟩
    simpa using (List.mem_filter.1 hitem).2

/-- **Normalising native hints twice.** Hints that come from a payload stay as they are. -/
theorem nativeHints_of_hints {p q : AuthoringPayload} (hdefer : q.deferNative = p.deferNative)
    (hpipeline : q.nativePipeline = p.nativeHints.1) (hcommands : q.meshCommands = p.nativeHints.2) :
    q.nativeHints = p.nativeHints := by
  cases hp : p.deferNative with
  | true => rw [nativeHints_deferred hp, nativeHints_deferred (hdefer.trans hp)]
  | false =>
    have hq : q.deferNative = false := hdefer.trans hp
    rcases nativeHints_cases p hp with ⟨commands, hset, hfoam, heq⟩ | ⟨pipeline, hne, hfoam, heq⟩
    · rw [heq] at hpipeline hcommands ⊢
      have hkeep : (moveLast "checkMesh".toList commands).filter (· != "foamDictionary".toList) =
          moveLast "checkMesh".toList commands := List.filter_eq_self.2 fun t ht => by
        rw [bne_iff_ne]
        exact fun h => hfoam (h ▸ mem_moveLast.1 ht)
      unfold nativeHints
      simp only [hq, hpipeline, hcommands, (hset.moveLast _).fromKeys_filter, hkeep,
        moveLast_idem]
      rfl
    · rw [heq] at hpipeline hcommands ⊢
      have hkeep : (orderPipeline pipeline).filter (fun item => !isCommand "foamDictionary" item) =
          orderPipeline pipeline := List.filter_eq_self.2 fun item hitem => by
        rw [hfoam item (mem_of_mem_orderPipeline hitem), Bool.not_false]
      have hempty : (orderPipeline pipeline).isEmpty = false :=
        List.isEmpty_eq_false_iff.2 (orderPipeline_ne_nil hne)
      unfold nativeHints
      simp only [hq, hpipeline, hkeep, hempty, orderPipeline_idem]
      rfl

end AuthoringPayload

/-! ### Dumps -/

namespace TypedFoamDictionaryFile

/-- What `normalize_duplicate_entries` leaves as it is. -/
structure Settled (d : TypedFoamDictionaryFile) : Prop where
  entries : (d.entries.map (·.path)).Nodup
  nonBlank : ∀ t ∈ d.entryConflicts, nonBlank t
  bounded : d.entryConflicts.length ≤ conflictLimit

theorem keys_modelDump {d : TypedFoamDictionaryFile} (h : d.valid) :
    d.modelDump.entries.filterMap (Option.map RawEntry.key) = d.entries.map (·.path) := by
  simp only [valid, Bool.and_eq_true, List.all_eq_true] at h
  rw [modelDump, List.filterMap_map, ← List.filterMap_eq_map]
  refine List.filterMap_congr fun e he => ?_
  simp [FoamDictionaryEntry.key_modelDump (h.1.1.1.1 e he)]

theorem normalize_modelDump {d : TypedFoamDictionaryFile} (h : d.valid) (hset : d.Settled) :
    d.modelDump.normalizeDuplicateEntries = d.modelDump := by
  have hlog : d.modelDump.entryConflicts.filter Schemas.nonBlank = d.modelDump.entryConflicts :=
    List.filter_eq_self.2 hset.nonBlank
  have hwalk : d.modelDump.walkEntries = (d.modelDump.entries, d.modelDump.entryConflicts) := by
    rw [RawTyped.walkEntries, hlog]
    exact keepFirst_of_nodup (by rw [keys_modelDump h]; exact hset.entries)
  rw [RawTyped.normalizeDuplicateEntries, hwalk]
  dsimp only
  rw [List.take_of_length_le (show d.modelDump.entryConflicts.length ≤ _ from hset.bounded)]

theorem ofRaw_modelDump {d : TypedFoamDictionaryFile} (h : d.valid) (hset : d.Settled) :
    ofRaw (some d.modelDump) = some d :=
  ofRaw_eq_some.2 ⟨_, rfl, normalize_modelDump h hset, h⟩

/-- A validated dictionary is settled. -/
theorem settled_of_ofRaw {raw : Option RawTyped} {d : TypedFoamDictionaryFile}
    (h : ofRaw raw = some d) : d.Settled := by
  obtain ⟨r, rfl, hnorm, hvalid⟩ := ofRaw_eq_some.1 h
  have hentries : r.walkEntries.1 = d.modelDump.entries := congrArg RawTyped.entries hnorm
  have hconflicts : r.walkEntries.2.take conflictLimit = d.entryConflicts :=
    congrArg RawTyped.entryConflicts hnorm
  refine ⟨?_, fun t ht => ?_, ?_⟩
  · rw [← keys_modelDump hvalid, ← hentries]
    exact nodup_keepFirst
  · rw [← hconflicts, RawTyped.walkEntries, keepFirst_log] at ht
    rcases mem_noteAll.1 (List.mem_of_mem_take ht) with ht | ht
    · exact (List.mem_filter.1 ht).2
    · obtain ⟨item, -, hleaves⟩ := List.mem_filterMap.1 ht
      obtain ⟨k, b, hkey, -, -, htoken⟩ := leaves_eq_some.1 hleaves
      obtain ⟨e, rfl, rfl⟩ := Option.map_eq_some_iff.1 hkey
      unfold tokenOf at htoken
      split_ifs at htoken with hnil
      obtain rfl := Option.some.inj htoken
      exact nonBlank_strip hnil
  · rw [← hconflicts]
    exact List.length_take_le _ _

end TypedFoamDictionaryFile

/-- Raw files with distinct paths pass their walk as they are. -/
theorem walkFiles_modelDump {log : List Text} {files : List CaseBundleFile}
    (hvalid : files.all (·.valid)) (hnd : (files.map (·.path)).Nodup) :
    walkFiles log (files.map fun f => some f.modelDump) =
      (files.map fun f => some f.modelDump, log) := by
  refine keepFirst_of_nodup ?_
  have hkeys : (files.map fun f => some f.modelDump).filterMap (Option.map RawFile.key) =
      files.map (·.path) := by
    rw [List.filterMap_map, ← List.filterMap_eq_map]
    refine List.filterMap_congr fun f hf => ?_
    simp [CaseBundleFile.key_modelDump (List.all_eq_true.1 hvalid f hf)]
  rw [hkeys]
  exact hnd

/-- The walk over dictionaries of distinct paths lists them, and notes nothing. -/
theorem walkTyped_of_nodup (log : List Text) {ds : List RawTyped} (hnd : (ds.map (·.key)).Nodup) :
    (walkTyped log (ds.map some)).order = ds.map (·.key) ∧
      (∀ d ∈ ds, (walkTyped log (ds.map some)).byPath.get d.key = some d) ∧
      (walkTyped log (ds.map some)).log = log := by
  induction ds using List.reverseRecOn with
  | nil => exact ⟨rfl, by simp, rfl⟩
  | append_singleton ds d ih =>
    rw [List.map_append] at hnd
    obtain ⟨hinit, -, hdisj⟩ := List.nodup_append.1 hnd
    obtain ⟨horder, hget, hlog⟩ := ih hinit
    have hfresh : d.key ∉ ds.map (·.key) := fun hmem =>
      hdisj d.key hmem d.key (List.mem_singleton_self _) rfl
    have hnone : (walkTyped log (ds.map some)).byPath.get d.key = none := by
      rw [← Option.not_isSome_iff_eq_none, Option.isSome_iff_exists, ← mem_order, horder]
      exact hfresh
    rw [List.map_append, List.map_singleton, walkTyped_concat]
    generalize hwalk : (walkTyped log (ds.map some)).step (some d) = walk
    cases hwalk ▸ stepped (walkTyped log (ds.map some)) (some d) with
    | fresh =>
      refine ⟨by simp [horder], fun d' hd' => ?_, hlog⟩
      rw [Dict.get_insert]
      rcases List.mem_append.1 hd' with hd' | hd'
      · rw [if_neg fun h : d'.key = d.key => hfresh (h ▸ List.mem_map_of_mem hd')]
        exact hget d' hd'
      · obtain rfl := List.mem_singleton.1 hd'
        exact if_pos rfl
    | merged d prior hkey hprior =>
      rw [hnone] at hprior
      cases hprior

theorem result_walkTyped_of_nodup {log : List Text} {ds : List RawTyped}
    (hnd : (ds.map (·.key)).Nodup) : (walkTyped log (ds.map some)).result = ds.map some := by
  obtain ⟨horder, hget, -⟩ := walkTyped_of_nodup log hnd
  have hpass : (walkTyped log (ds.map some)).passthrough = [] := by
    rw [passthrough_walkTyped]
    simp
  rw [TypedWalk.result, horder, hpass, List.append_nil, List.map_map]
  exact List.map_congr_left hget

namespace CaseAuthoringAction

/-- The files of an action passed their checks and have distinct paths. -/
structure Sound (a : CaseAuthoringAction) : Prop where
  files : a.files.all (·.valid)
  typed : a.typedDictionaries.all (·.valid)
  settled : ∀ d ∈ a.typedDictionaries, d.Settled
  nodup : (a.files.map (·.path) ++ a.typedDictionaries.map (·.path)).Nodup

variable {a : CaseAuthoringAction}

theorem Sound.typedKeys (h : a.Sound) :
    (a.typedDictionaries.map (·.modelDump)).map (·.key) = a.typedDictionaries.map (·.path) := by
  rw [List.map_map]
  exact List.map_congr_left fun d hd =>
    TypedFoamDictionaryFile.key_modelDump (List.all_eq_true.1 h.typed d hd)

theorem Sound.typedNodup (h : a.Sound) :
    ((a.typedDictionaries.map (·.modelDump)).map (·.key)).Nodup := by
  rw [h.typedKeys]
  exact (List.nodup_append.1 h.nodup).2.1

theorem Sound.dump_typed (a : CaseAuthoringAction) :
    a.modelDump.typedDictionaries = (a.typedDictionaries.map (·.modelDump)).map some := by
  rw [List.map_map]
  rfl

theorem Sound.mixedPaths (h : a.Sound) : a.modelDump.mixedPaths = [] := by
  rw [AuthoringPayload.mixedPaths, List.filter_eq_nil_iff]
  intro path hpath hmem
  obtain ⟨item, hitem, hkey⟩ := List.mem_filterMap.1 (List.mem_dedup.1 hpath)
  obtain ⟨f, hf, rfl⟩ := List.mem_map.1 hitem
  have hfpath : f.path = path := by
    simpa [CaseBundleFile.key_modelDump (List.all_eq_true.1 h.files f hf)] using hkey
  rw [Sound.dump_typed, result_walkTyped_of_nodup h.typedNodup, List.map_map,
    decide_eq_true_eq] at hmem
  obtain ⟨r, hr, hrpath⟩ := List.mem_map.1 hmem
  obtain ⟨d, hd, rfl⟩ := List.mem_map.1 hr
  have hdpath : d.path = path := by
    simpa [typedPath, TypedFoamDictionaryFile.key_modelDump (List.all_eq_true.1 h.typed d hd)]
      using hrpath
  exact (List.nodup_append.1 h.nodup).2.2 f.path (List.mem_map_of_mem hf) d.path
    (List.mem_map_of_mem hd) (hfpath.trans hdpath.symm)

/-- The files and the conflicts of a dump pass the before-validator as they are. -/
theorem Sound.normalize_modelDump (h : a.Sound) (order : SetOrder) :
    (a.modelDump.normalizeAuthoringMirrors order).files = a.modelDump.files ∧
    (a.modelDump.normalizeAuthoringMirrors order).typedDictionaries =
      a.modelDump.typedDictionaries ∧
    (a.modelDump.normalizeAuthoringMirrors order).authoringConflicts =
      (a.authoringConflicts.filter nonBlank).take conflictLimit := by
  have hfiles : ∀ log, walkFiles log a.modelDump.files = (a.modelDump.files, log) := fun log =>
    walkFiles_modelDump h.files (List.nodup_append.1 h.nodup).1
  refine ⟨by simp only [AuthoringPayload.normalizeAuthoringMirrors, hfiles], ?_, ?_⟩
  · simp only [AuthoringPayload.normalizeAuthoringMirrors, AuthoringPayload.mergedTyped,
      h.mixedPaths, Sound.dump_typed, result_walkTyped_of_nodup h.typedNodup]
    simp
  · have hmixed : (order.list a.modelDump.mixedPaths) = [] := by
      rw [h.mixedPaths]
      exact List.perm_nil.1 (order.perm [])
    have hlog := (walkTyped_of_nodup a.modelDump.carried h.typedNodup).2.2
    simp only [AuthoringPayload.normalizeAuthoringMirrors, AuthoringPayload.conflictLog, hmixed,
      AuthoringPayload.mergedTyped, hfiles, Sound.dump_typed, hlog]
    rfl

/-- The checks of the fields of an action other than its files. -/
structure FieldsOf (raw : AuthoringPayload) (a : CaseAuthoringAction) : Prop where
  taskId : raw.taskId = a.taskId
  deferNative : raw.deferNative = a.deferNative
  goal : raw.goal = a.goal
  blockMesh : raw.blockMesh = a.blockMesh
  validateDictionaries : raw.validateDictionaries = a.validateDictionaries
  surfaceChecks : raw.surfaceChecks = a.surfaceChecks
  meshCommands : raw.meshCommands = a.meshCommands
  nativePipeline : raw.nativePipeline = a.modelDump.nativePipeline
  commands : a.nativePipeline.all (·.valid)
  requiredCaseFiles : raw.requiredCaseFiles = a.requiredCaseFiles
  rationale : raw.rationale = a.rationale
  authoringConflicts : raw.authoringConflicts = a.authoringConflicts
  bounds : lengthIn 1 1000 a.goal && lengthIn 0 80 a.files && lengthIn 0 80 a.typedDictionaries &&
    lengthIn 0 40 a.validateDictionaries && lengthIn 0 16 a.surfaceChecks &&
    lengthIn 0 12 a.meshCommands && lengthIn 0 20 a.nativePipeline &&
    lengthIn 0 80 a.requiredCaseFiles && lengthIn 0 200 a.rationale

theorem ofFields_eq_some {raw : AuthoringPayload} :
    ofFields raw = some a ↔
      raw.files = a.modelDump.files ∧ a.files.all (·.valid) ∧
      raw.typedDictionaries.mapM TypedFoamDictionaryFile.ofRaw = some a.typedDictionaries ∧
      FieldsOf raw a := by
  simp only [ofFields, Option.bind_eq_bind, Option.bind_eq_some_iff,
    mapM_ofRaw_eq_some CaseBundleFile.ofRaw_eq_some,
    mapM_ofRaw_eq_some NativeOpenFOAMCommand.ofRaw_eq_some,
    Option.guard_eq_some', Option.pure_def, Option.some.injEq]
  constructor
  · rintro ⟨files, ⟨hfiles, hvalid⟩, typed, htyped, pipeline, ⟨hpipeline, hcommands⟩, -, hbounds,
      rfl⟩
    exact ⟨hfiles, hvalid, htyped, ⟨rfl, rfl, rfl, rfl, rfl, rfl, rfl, hpipeline, hcommands, rfl,
      rfl, rfl, hbounds⟩⟩
  · rintro ⟨hfiles, hvalid, htyped, h⟩
    refine ⟨_, ⟨hfiles, hvalid⟩, _, htyped, _, ⟨h.nativePipeline, h.commands⟩, (), ?_, ?_⟩
    · rw [h.goal, h.validateDictionaries, h.surfaceChecks, h.meshCommands, h.requiredCaseFiles,
        h.rationale]
      exact h.bounds
    · rw [h.goal, h.validateDictionaries, h.surfaceChecks, h.meshCommands, h.requiredCaseFiles,
        h.rationale, h.taskId, h.deferNative, h.blockMesh, h.authoringConflicts]

theorem modelValidate_eq_some {order : SetOrder} {execute : Bool} {raw : AuthoringPayload} :
    modelValidate order execute raw = some a ↔
      ofFields (raw.normalizeAuthoringMirrors order) = some a ∧
        a.validateCaseAuthoring execute = true := by
  simp only [modelValidate, Option.bind_eq_bind, Option.bind_eq_some_iff, Option.guard_eq_some',
    Option.pure_def, Option.some.injEq]
  constructor
  · rintro ⟨b, hb, -, hcheck, rfl⟩
    exact ⟨hb, hcheck⟩
  · exact fun ⟨ha, hcheck⟩ => ⟨a, ha, (), hcheck, rfl⟩

theorem nodup_paths {execute : Bool} (h : a.validateCaseAuthoring execute = true) :
    a.paths.Nodup := by
  simp only [validateCaseAuthoring, Bool.and_eq_true, decide_eq_true_eq] at h
  tauto

/-- A validated action is sound. -/
theorem sound_of_modelValidate {order : SetOrder} {execute : Bool} {raw : AuthoringPayload}
    (h : modelValidate order execute raw = some a) : a.Sound := by
  obtain ⟨hfields, hcheck⟩ := modelValidate_eq_some.1 h
  obtain ⟨-, hfiles, htyped, -⟩ := ofFields_eq_some.1 hfields
  have hpaths := nodup_paths hcheck
  rw [paths] at hpaths
  refine ⟨hfiles, List.all_eq_true.2 fun d hd => ?_, fun d hd => ?_,
    (List.nodup_append.1 hpaths).1⟩
  · obtain ⟨item, -, hitem⟩ := Traversal.exists_mem_left htyped hd
    exact (TypedFoamDictionaryFile.ofRaw_eq_some.1 hitem).choose_spec.2.2
  · obtain ⟨item, -, hitem⟩ := Traversal.exists_mem_left htyped hd
    exact TypedFoamDictionaryFile.settled_of_ofRaw hitem

/-- What validating the dump of a sound action gives: its files, and its conflicts cut. -/
theorem Sound.of_modelValidate {b : CaseAuthoringAction} {order : SetOrder} {execute : Bool}
    (hsound : a.Sound) (h : modelValidate order execute a.modelDump = some b) :
    b.files = a.files ∧ b.typedDictionaries = a.typedDictionaries ∧ b.blockMesh = a.blockMesh ∧
      b.authoringConflicts = (a.authoringConflicts.filter nonBlank).take conflictLimit := by
  obtain ⟨hfields, -⟩ := modelValidate_eq_some.1 h
  obtain ⟨hfiles, -, htyped, hb⟩ := ofFields_eq_some.1 hfields
  obtain ⟨hnfiles, hntyped, hnconflicts⟩ := hsound.normalize_modelDump order
  have hreload : a.modelDump.typedDictionaries.mapM TypedFoamDictionaryFile.ofRaw =
      some a.typedDictionaries := Traversal.mapM_map_eq_some fun d hd =>
    TypedFoamDictionaryFile.ofRaw_modelDump (List.all_eq_true.1 hsound.typed d hd)
      (hsound.settled d hd)
  refine ⟨?_, ?_, hb.blockMesh.symm, hb.authoringConflicts.symm.trans hnconflicts⟩
  · have hdump : a.modelDump.files = b.modelDump.files := hnfiles.symm.trans hfiles
    refine (List.map_injective_iff.2 ?_ hdump).symm
    intro f g hfg
    cases f
    cases g
    simpa [CaseBundleFile.modelDump] using hfg
  · rw [hntyped, hreload] at htyped
    exact (Option.some.inj htyped).symm

end CaseAuthoringAction

/-! ### The conflicts of a payload -/

theorem tokenOf_eq_some {kind : String} {path t : Text} :
    tokenOf kind path = some t ↔ path ≠ [] ∧ kind.toList ++ path = t := by
  unfold tokenOf
  split_ifs with h <;> simp [h]

theorem nonBlank_token {kind : String} {path t : Text} {c : Char} (hc : c ∈ kind.toList)
    (hspace : isSpace c = false) (h : tokenOf kind path = some t) : nonBlank t := by
  obtain ⟨-, rfl⟩ := tokenOf_eq_some.1 h
  exact nonBlank_of_notSpace (List.mem_append_left _ hc) hspace

namespace AuthoringPayload

variable (order : SetOrder) (p : AuthoringPayload)

/-- The tokens of the payload's own repetitions, in the order the walks note them. -/
def foundTokens : List Text :=
  p.files.filterMap (leaves (Option.map RawFile.key) (Option.map fun f => f.content.strOrEmpty)
    (tokenOf "raw-file:") p.files) ++
  p.typedDictionaries.filterMap (leaves classKey classOf (tokenOf "typed-class:")
    p.typedDictionaries) ++
  (order.list p.mixedPaths).filterMap (tokenOf "mixed-representation:")

theorem conflictLog_eq : p.conflictLog order = noteAll p.carried (p.foundTokens order) := by
  rw [conflictLog, mergedTyped, log_walkTyped, keepFirst_log, walkFiles, keepFirst_log,
    foundTokens, noteAll_append, noteAll_append]

theorem nonBlank_conflictLog {t : Text} (h : t ∈ p.conflictLog order) : nonBlank t := by
  rw [conflictLog_eq, mem_noteAll] at h
  rcases h with h | h
  · exact (List.mem_filter.1 h).2
  · rcases List.mem_append.1 h with h | h
    · rcases List.mem_append.1 h with h | h
      · obtain ⟨item, -, hleaves⟩ := List.mem_filterMap.1 h
        obtain ⟨k, b, -, -, -, htoken⟩ := leaves_eq_some.1 hleaves
        exact nonBlank_token (c := 'r') (by decide) (by decide) htoken
      · obtain ⟨item, -, hleaves⟩ := List.mem_filterMap.1 h
        obtain ⟨k, b, -, -, -, htoken⟩ := leaves_eq_some.1 hleaves
        exact nonBlank_token (c := 't') (by decide) (by decide) htoken
    · obtain ⟨path, -, htoken⟩ := List.mem_filterMap.1 h
      exact nonBlank_token (c := 'm') (by decide) (by decide) htoken

end AuthoringPayload

namespace CaseAuthoringAction

variable {a : CaseAuthoringAction}

/-- The conflicts of a validated action are neither blank nor too many. -/
theorem conflicts_of_modelValidate {order : SetOrder} {execute : Bool} {raw : AuthoringPayload}
    (h : modelValidate order execute raw = some a) :
    (a.authoringConflicts.filter nonBlank).take conflictLimit = a.authoringConflicts := by
  obtain ⟨hfields, -⟩ := modelValidate_eq_some.1 h
  have ha : a.authoringConflicts = (raw.conflictLog order).take conflictLimit :=
    (ofFields_eq_some.1 hfields).2.2.2.authoringConflicts.symm
  rw [List.filter_eq_self.2 fun t ht =>
    raw.nonBlank_conflictLog order (List.mem_of_mem_take (ha ▸ ht)), ha, List.take_take,
    Nat.min_self]

/-- **Reloading an action.** The dump of a validated action validates to the same action. -/
theorem modelValidate_modelDump {order : SetOrder} {execute : Bool} {raw : AuthoringPayload}
    (h : modelValidate order execute raw = some a) :
    modelValidate order execute a.modelDump = some a := by
  have hsound := sound_of_modelValidate h
  obtain ⟨hfields, hcheck⟩ := modelValidate_eq_some.1 h
  obtain ⟨-, -, -, hraw⟩ := ofFields_eq_some.1 hfields
  obtain ⟨hfiles, htyped, hconflicts⟩ := hsound.normalize_modelDump order
  have hhints : a.modelDump.nativeHints = raw.nativeHints :=
    AuthoringPayload.nativeHints_of_hints hraw.deferNative.symm hraw.nativePipeline.symm
      hraw.meshCommands.symm
  have hlist : ∀ {l : List Text} (r : List Text), fromKeys (r.filter nonBlank) = l →
      fromKeys (l.filter nonBlank) = l := fun r hr =>
    (hr ▸ settledHints_fromKeys r).fromKeys_filter
  refine modelValidate_eq_some.2 ⟨ofFields_eq_some.2 ⟨hfiles, hsound.files, ?_, ?_⟩, hcheck⟩
  · rw [htyped]
    exact Traversal.mapM_map_eq_some fun d hd => TypedFoamDictionaryFile.ofRaw_modelDump
      (List.all_eq_true.1 hsound.typed d hd) (hsound.settled d hd)
  · exact {
      taskId := rfl
      deferNative := rfl
      goal := rfl
      blockMesh := rfl
      validateDictionaries := hlist _ hraw.validateDictionaries
      surfaceChecks := hlist _ hraw.surfaceChecks
      meshCommands := (congrArg Prod.snd hhints).trans hraw.meshCommands
      nativePipeline := (congrArg Prod.fst hhints).trans hraw.nativePipeline
      commands := hraw.commands
      requiredCaseFiles := hlist _ hraw.requiredCaseFiles
      rationale := rfl
      authoringConflicts := hconflicts.trans (conflicts_of_modelValidate h)
      bounds := hraw.bounds }

end CaseAuthoringAction

end Schemas
end OpenFoamAgent
