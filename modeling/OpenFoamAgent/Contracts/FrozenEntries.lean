/-
# What automatic repairs leave frozen

The approved case under any run of accepted and committed repairs: `Frozen` says
what every state of the run still has of it, and the scalar entries of
`system/controlDict` never grow from one commit to the next.

Two things are needed for it. The approval compares the path texts of a plan's
evidence with the path texts of a candidate, so a protected path must be written
as the seal writes it (`SpelledAsSealed`): the plan schema also admits
`system//fvSchemes`, which protects nothing. And a candidate is compared with
the text `read_text` gives, in which a carriage return ends a line comment, so a
file must have the scalar entries it is read with (`ReadsScalars`).
-/
import OpenFoamAgent.Contracts.ControlDict

namespace OpenFoamAgent
namespace Contracts

open Python Schemas Workspace ExecutionApproval

/-- `system/controlDict`. -/
def controlDictPath : Text := "system/controlDict".toList

/-- The text of the file of a path. -/
def fileText (w : CaseWorkspace) (path : Text) : Text :=
  decodeReplace ((w.tree.fileAt (locate path)).getD [])

theorem fileText_of_fileAt {w : CaseWorkspace} {path text : Text}
    (h : w.tree.fileAt (locate path) = some (encode text)) : fileText w path = text := by
  rw [fileText, h, Option.getD_some, decodeReplace_encode]

theorem fileText_congr {w w' : CaseWorkspace} {path : Text}
    (h : w'.tree.fileAt (locate path) = w.tree.fileAt (locate path)) :
    fileText w' path = fileText w path := by
  rw [fileText, fileText, h]

/-- The protected entries of a path. -/
def ExecutionApproval.protectedEntries (approval : ExecutionApproval) (path : Text) : List Text :=
  (approval.protectedRepairEntries.get path).getD []

/-- What the case `w'` still has of the approved case `w`. -/
structure Frozen (approval : ExecutionApproval) (w w' : CaseWorkspace) : Prop where
  /-- Files that are no numerical dictionary below `system/` and not `system/controlDict`. -/
  untouched : ∀ l, runtimeRepairPathKind (asPosix l) = none → w'.tree.fileAt l = w.tree.fileAt l
  /-- Entries of `controlDict` outside the mutable ones, and heads of protected entries. -/
  control : ∀ key, (key ∉ runtimeControlDictMutableEntries ∨
      ∃ path, locate path = locate controlDictPath ∧
        key ∈ frozenHeads (approval.protectedEntries path)) →
    entryPayload (fileText w' controlDictPath) key = entryPayload (fileText w controlDictPath) key
  /-- Scalar entries of the approved `controlDict`. -/
  reduced : ∀ key ∈ reducibleEntries,
    ((topLevelEntryPayloads (fileText w controlDictPath)).1.get key).isSome →
      Reduced key (fileText w controlDictPath) (fileText w' controlDictPath)
  /-- Protected entries of numerical dictionaries. -/
  numerical : ∀ path, runtimeRepairPathKind (asPosix (locate path)) = some .numericalDictionary →
    ∀ entry ∈ approval.protectedEntries path,
      canonicalPayload (literalEntryPayload (fileText w' path) entry) =
        canonicalPayload (literalEntryPayload (fileText w path) entry)
  /-- Protected files. -/
  files : ∀ path ∈ approval.protectedRepairFiles,
    w'.tree.fileAt (locate path) = w.tree.fileAt (locate path)

/-- A protected path that names a repairable file is the text the seal has for that file. -/
def SpelledAsSealed (approval : ExecutionApproval) : Prop :=
  ∀ path ∈ approval.protectedRepairEntries.keys ++ approval.protectedRepairFiles,
    (runtimeRepairPathKind (asPosix (locate path))).isSome → asPosix (locate path) = path

instance (approval : ExecutionApproval) : Decidable (SpelledAsSealed approval) :=
  inferInstanceAs (Decidable (∀ path ∈ _, _))

theorem mem_keys_of_protectedEntries {approval : ExecutionApproval} {path entry : Text}
    (h : entry ∈ approval.protectedEntries path) : path ∈ approval.protectedRepairEntries.keys := by
  by_contra hnot
  have hnone : approval.protectedRepairEntries.get path = none := AList.lookup_eq_none.2 hnot
  rw [protectedEntries, hnone] at h
  cases h

/-- The scalar entries of `controlDict` are those of the text it is read as. -/
def ReadsScalars (w : CaseWorkspace) : Prop :=
  ∀ key ∈ reducibleEntries,
    entryPayload (readBack (w.maxFileBytes + 1)
        ((w.tree.fileAt (locate controlDictPath)).getD [])) key =
      entryPayload (fileText w controlDictPath) key

instance (w : CaseWorkspace) : Decidable (ReadsScalars w) :=
  inferInstanceAs (Decidable (∀ key ∈ _, _))

/-- An accepted candidate is committed, and `controlDict` is only changed while it has the
scalar entries it is read with. -/
def CommittedExactly (s : RepairState) (a : RepairAttempt) : Prop :=
  s.Accepts a.changed →
    s.Commits a ∧ ((a.changed.get controlDictPath).isSome → ReadsScalars s.workspace)

instance (s : RepairState) (a : RepairAttempt) : Decidable (CommittedExactly s a) :=
  inferInstanceAs (Decidable (_ → _ ∧ (_ → ReadsScalars _)))

theorem asPosix_locate_controlDictPath : asPosix (locate controlDictPath) = controlDictPath := by
  decide +kernel

theorem kind_controlDictPath : runtimeRepairPathKind controlDictPath = some .controlDict := by
  decide +kernel

namespace Session

variable {approval : ExecutionApproval} {w : CaseWorkspace} {s : RepairState}

/-- The `controlDict` of a session: the approved file, or a chain from it. -/
theorem controlDict (hi : Issued approval w) (h : Session approval w s) :
    fileText s.workspace controlDictPath = fileText w controlDictPath ∨
      Chain approval .controlDict controlDictPath (fileText w controlDictPath)
        (fileText s.workspace controlDictPath) := by
  rcases h.file hi asPosix_locate_controlDictPath with hsame | ⟨kind, b, t, hkind, hb, ht, hchain⟩
  · exact .inl (fileText_congr hsame)
  · obtain rfl : kind = .controlDict := Option.some.inj (hkind.symm.trans kind_controlDictPath)
    rw [fileText_of_fileAt hb, fileText_of_fileAt ht]
    exact .inr hchain

theorem reduced (hi : Issued approval w) (h : Session approval w s) {key : Text}
    (hkey : key ∈ reducibleEntries)
    (hsome : ((topLevelEntryPayloads (fileText w controlDictPath)).1.get key).isSome) :
    Reduced key (fileText w controlDictPath) (fileText s.workspace controlDictPath) := by
  rcases h.controlDict hi with hsame | hchain
  · rw [hsame]
    exact .refl _ _
  · exact hchain.controlDict_reduced hkey hsome

/-- A session leaves frozen what the approval freezes. -/
theorem isFrozen (hi : Issued approval w) (hspelled : SpelledAsSealed approval)
    (h : Session approval w s) : Frozen approval w s.workspace := by
  have huntouched : ∀ l, runtimeRepairPathKind (asPosix l) = none →
      s.workspace.tree.fileAt l = w.tree.fileAt l := by
    intro l hl
    refine h.untouched l ?_
    rintro path hrep rfl
    obtain ⟨d, hd⟩ := Option.isSome_iff_exists.1 hrep.2
    have hkind := hrep.1
    rw [← (hi.approved path d hd).1, hl] at hkind
    cases hkind
  refine ⟨huntouched, fun key hkey => ?_, fun key => h.reduced hi, ?_, ?_⟩
  · rcases h.controlDict hi with hsame | hchain
    · rw [hsame]
    · refine hchain.controlDict_frozen (hkey.imp_right ?_)
      rintro ⟨path, hloc, hhead⟩
      obtain ⟨entry, hentry, -⟩ := List.mem_map.1 hhead
      have hpath := hspelled path (List.mem_append_left _ (mem_keys_of_protectedEntries hentry))
      rw [hloc, asPosix_locate_controlDictPath, kind_controlDictPath] at hpath
      rw [hpath rfl]
      exact hhead
  · intro path hkind entry hentry
    have hpath := hspelled path (List.mem_append_left _ (mem_keys_of_protectedEntries hentry))
      (by rw [hkind]; rfl)
    rcases h.file hi hpath with hsame | ⟨kind, b, t, hkind', hb, ht, hchain⟩
    · rw [fileText_congr hsame]
    · rw [hpath] at hkind
      obtain rfl : kind = .numericalDictionary := Option.some.inj (hkind'.symm.trans hkind)
      rw [fileText_of_fileAt hb, fileText_of_fileAt ht]
      exact hchain.numerical_frozen hentry
  · intro path hmem
    cases hkind : runtimeRepairPathKind (asPosix (locate path)) with
    | none => exact huntouched _ hkind
    | some kind =>
      have hpath := hspelled path (List.mem_append_right _ hmem) (by rw [hkind]; rfl)
      rcases h.file hi hpath with hsame | ⟨kind', b, t, -, hb, ht, hchain⟩
      · exact hsame
      · rw [hb, ht, hchain.protected_eq hmem]

/-- One commit never makes a scalar entry of the approved `controlDict` larger. -/
theorem attempt_reduced (hi : Issued approval w) (h : Session approval w s) {a : RepairAttempt}
    (ha : CommittedExactly s a) {key : Text} (hkey : key ∈ reducibleEntries)
    (hsome : ((topLevelEntryPayloads (fileText w controlDictPath)).1.get key).isSome) :
    Reduced key (fileText s.workspace controlDictPath)
      (fileText (s.attempt a).workspace controlDictPath) := by
  by_cases hacc : s.Accepts a.changed
  swap
  · rw [s.attempt_of_not_accepts hacc]
    exact .refl _ _
  obtain ⟨hcommit, hreads⟩ := ha hacc
  obtain ⟨hfiles, hothers⟩ := h.commit_files hi hacc hcommit
  cases hget : a.changed.get controlDictPath with
  | none =>
    refine .inl (congrArg (entryPayload · key) (fileText_congr (hothers _ ?_)))
    intro q proposed hq heq
    obtain ⟨d, hd⟩ := Option.isSome_iff_exists.1 (h.repairable_of_accepts hacc hq).2
    rw [← (hi.approved q d hd).1, ← heq, asPosix_locate_controlDictPath, hget] at hq
    cases hq
  | some proposed =>
    rw [fileText_of_fileAt (hfiles _ _ hget)]
    obtain ⟨approval', hcheck⟩ := RepairState.accepts_iff.1 hacc
    obtain ⟨kind, current, hauth, -⟩ := h.authorized hcheck hget
    obtain rfl : kind = .controlDict :=
      Option.some.inj (hauth.kind_eq.symm.trans kind_controlDictPath)
    -- the candidate is compared with the text that was read
    have hread : Reduced key (fileText s.workspace controlDictPath) current := by
      refine .inl ?_
      rw [(repairText_eq_ok hauth.read).2]
      exact hreads (by rw [hget]; rfl) key hkey
    by_cases heq : proposed = current
    · rwa [heq]
    · exact hread.trans ((checkControlDict_reduced (hauth.change heq) hkey).1
        (hread.isSome ((h.reduced hi hkey hsome).isSome hsome)))

end Session

/-- **Automatic repairs stay within the approval.** An approval whose protected paths are
written as the seal writes them, issued on the seal of a case: in every run of attempts whose
accepted candidates are committed, a rejected candidate changes nothing, every state still has
what the approval freezes, and between any two states the scalar entries of the approved
`controlDict` only become smaller. -/
theorem run_frozen {w : CaseWorkspace} {caseSeal : CaseSeal} {as : List RepairAttempt}
    (plan : EngineeringPlan) (limits : Option ResourceLimits) (hnamed : w.Named)
    (hseal : w.executionFileSeals = .ok caseSeal.files)
    (hspelled : SpelledAsSealed (.issue plan caseSeal limits))
    (hrun : Runs.Meets RepairState.attempt CommittedExactly ⟨.issue plan caseSeal limits, w⟩ as) :
    (∀ (s : RepairState) (a : RepairAttempt), ¬ s.Accepts a.changed → s.attempt a = s) ∧
    Frozen (.issue plan caseSeal limits) w
      (Runs.run RepairState.attempt ⟨.issue plan caseSeal limits, w⟩ as).workspace ∧
    ∀ before after, as = before ++ after → ∀ key ∈ reducibleEntries,
      ((topLevelEntryPayloads (fileText w controlDictPath)).1.get key).isSome →
        Reduced key
          (fileText (Runs.run RepairState.attempt ⟨.issue plan caseSeal limits, w⟩ before).workspace
            controlDictPath)
          (fileText (Runs.run RepairState.attempt ⟨.issue plan caseSeal limits, w⟩ as).workspace
            controlDictPath) := by
  have hi := Issued.issue plan limits hnamed hseal
  have hstep : ∀ s a, Session (.issue plan caseSeal limits) w s → CommittedExactly s a →
      Session (.issue plan caseSeal limits) w (s.attempt a) :=
    fun s a h ha => h.attempt hi fun hacc => .inl (ha hacc).1
  refine ⟨fun s a => s.attempt_of_not_accepts, ?_, ?_⟩
  · exact (Runs.invariant hstep hrun (.start hi)).isFrozen hi hspelled
  · rintro before after rfl key hkey hsome
    have hbefore := Runs.invariant hstep hrun.append_left (.start hi)
    rw [Runs.run_append]
    refine (Runs.invariant (P := fun s => Session (.issue plan caseSeal limits) w s ∧ Reduced key
      (fileText (Runs.run RepairState.attempt ⟨.issue plan caseSeal limits, w⟩ before).workspace
        controlDictPath) (fileText s.workspace controlDictPath)) ?_ hrun.append_right
      ⟨hbefore, .refl _ _⟩).2
    rintro s a ⟨h, hreduced⟩ ha
    exact ⟨hstep s a h ha, hreduced.trans (h.attempt_reduced hi ha hkey hsome)⟩

/-- A repair that reduces `deltaT`, one that is refused, and one of the numerics. -/
theorem run_frozen_example :
    let w := caseWith "deltaT 2e-3;\nendTime 10;\n"
    let approval := ExecutionApproval.issue (planWith [⟨controlDictPath, "endTime".toList, [], [], []⟩])
      (sealOf w (planWith [⟨controlDictPath, "endTime".toList, [], [], []⟩])) none
    Frozen approval w
      (Runs.run RepairState.attempt ⟨approval, w⟩
        [repairOf [("system/controlDict", "deltaT 1e-3;\nendTime 10;\n")],
          repairOf [("system/controlDict", "deltaT 2e-3;\nendTime 10;\n")],
          repairOf [("system/fvSchemes", "ddt steadyState;\n")]]).workspace :=
  (run_frozen _ none (CaseWorkspace.named_of_keys (by decide +kernel)) (by decide +kernel)
    (by decide +kernel) (by decide +kernel)).2.1

/-- The evidence path `system//fvSchemes` names the file that a repair of `system/fvSchemes`
rewrites, and does not protect it. -/
theorem alias_does_not_protect :
    let w := caseWith "deltaT 2e-3;\n"
    let plan := planWith [⟨"system//fvSchemes".toList, none, [], "Euler".toList, []⟩]
    let approval := ExecutionApproval.issue plan (sealOf w plan) none
    w.executionFileSeals = .ok (sealOf w plan).files ∧
      Runs.Meets RepairState.attempt CommittedExactly ⟨approval, w⟩
        [repairOf [("system/fvSchemes", "ddt steadyState;\n")]] ∧
      ¬ Frozen approval w (Runs.run RepairState.attempt ⟨approval, w⟩
        [repairOf [("system/fvSchemes", "ddt steadyState;\n")]]).workspace := by
  refine ⟨by decide +kernel, by decide +kernel, fun h => ?_⟩
  exact absurd (h.files "system//fvSchemes".toList (by decide +kernel)) (by decide +kernel)

/-- Carriage returns that comment entries out of the file, but not out of the text it is read
as: `deltaT` goes from 5 to 3 and back to 4. -/
example :
    let w := caseWith
      "//\n deltaT 5; adjustTimeStep\n//\n\x7b\n deltaT 3; adjustTimeStep false;\n//\n \x7d\n"
    let approval := ExecutionApproval.issue (planWith []) (sealOf w (planWith [])) none
    let run := fun as => (Runs.run RepairState.attempt ⟨approval, w⟩ as).workspace
    let commented := repairOf [("system/controlDict",
      "//\r deltaT 5; adjustTimeStep\n//\r\x7b\n deltaT 3; adjustTimeStep false;\n//\r \x7d\n")]
    let last := repairOf [("system/controlDict", "deltaT 4; adjustTimeStep false;\n")]
    entryPayload (fileText (run [commented]) controlDictPath) "deltaT".toList = some ["3".toList] ∧
      entryPayload (fileText (run [commented, last]) controlDictPath) "deltaT".toList =
        some ["4".toList] := by
  decide +kernel

end Contracts
end OpenFoamAgent
