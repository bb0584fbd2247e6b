/-
# What a verified seal says

`verify_seal` compares the current execution inputs with the sealed ones twice:
record by record under their paths, and through the digest of all records. A
digest stands for what was digested, so the two agree, and the seal of a case is
verified exactly on the workspaces that have the sealed files below `0/`,
`constant/` and `system/`, each with its content and origin, for the plan that
was sealed (`verifySeal_iff`).
-/
import OpenFoamAgent.Schemas.CasePlan
import OpenFoamAgent.Workspace.Seal

namespace OpenFoamAgent
namespace Workspace

open Python Schemas

/-- Two workspaces have the same execution inputs: the same files, with the same content and
origin. -/
structure SameInputs (w w' : CaseWorkspace) : Prop where
  files : ∀ l, underExecutionInput l → w'.tree.fileAt l = w.tree.fileAt l
  origins : ∀ l, underExecutionInput l → w.tree.isFile l →
    w'.fileOrigin (asPosix l) = w.fileOrigin (asPosix l)

namespace CaseWorkspace

variable {host : Host} {w w' : CaseWorkspace} {plan plan' : EngineeringPlan}
  {files files' : List CaseFileSeal}

/-! ### The records of a seal -/

/-- The record of the file at a place. -/
def recordAt (w : CaseWorkspace) (l : Location) (b : Bytes) : CaseFileSeal :=
  ⟨asPosix l, ⟨b⟩, b.length, w.fileOrigin (asPosix l)⟩

theorem sealFile_eq_recordAt {l : Location} {s : CaseFileSeal} (h : w.sealFile l = .ok s) :
    s = w.recordAt l ((w.tree.fileAt l).getD []) := by
  unfold sealFile at h
  split at h
  · cases h
  · split_ifs at h
    exact (Except.ok.inj h).symm

/-- The records are those of the files below the execution inputs. -/
theorem mem_executionFileSeals (h : w.executionFileSeals = .ok files) {s : CaseFileSeal} :
    s ∈ files ↔ ∃ l b, underExecutionInput l ∧ w.tree.fileAt l = some b ∧ s = w.recordAt l b := by
  have hmap := executionFileSeals_eq_ok h
  constructor
  · intro hs
    obtain ⟨l, hl, hseal⟩ := Traversal.ok_of_mem_mapM hmap hs
    obtain ⟨hin, hfile⟩ := mem_executionInputs.1 hl
    obtain ⟨b, hb⟩ := Option.isSome_iff_exists.1 hfile
    have hrecord := sealFile_eq_recordAt hseal
    rw [hb] at hrecord
    exact ⟨l, b, hin, hb, hrecord⟩
  · rintro ⟨l, b, hin, hb, rfl⟩
    have hl : l ∈ w.executionInputs := mem_executionInputs.2 ⟨hin, by rw [FileTree.isFile, hb]; rfl⟩
    obtain ⟨s, hs, hseal⟩ := Traversal.exists_mem_of_mapM hmap hl
    have hrecord := sealFile_eq_recordAt hseal
    rw [hb] at hrecord
    exact hrecord ▸ hs

theorem ne_nil_of_underExecutionInput {l : Location} (h : underExecutionInput l) : l ≠ [] := by
  rintro rfl
  cases h

/-- A record determines its file. -/
theorem recordAt_inj (hw : w.Named) (hw' : w'.Named) {l l' : Location} {b b' : Bytes}
    (hl : underExecutionInput l) (hl' : underExecutionInput l') (hb : w.tree.fileAt l = some b)
    (hb' : w'.tree.fileAt l' = some b') (h : asPosix l = asPosix l') : l = l' := by
  have hname := hw l (by rw [FileTree.isFile, hb]; rfl)
  have hname' := hw' l' (by rw [FileTree.isFile, hb']; rfl)
  rw [← locate_asPosix (ne_nil_of_underExecutionInput hl) hname, h,
    locate_asPosix (ne_nil_of_underExecutionInput hl') hname']

/-- **Equal records come from equal inputs.** -/
theorem sameInputs_of_records (hw : w.Named) (hw' : w'.Named)
    (h : w.executionFileSeals = .ok files) (h' : w'.executionFileSeals = .ok files')
    (hrecords : ∀ s, s ∈ files ↔ s ∈ files') : SameInputs w w' := by
  -- a file of the one is a file of the other, with its content and origin
  have hforth : ∀ l b, underExecutionInput l → w.tree.fileAt l = some b →
      w'.tree.fileAt l = some b ∧ w'.fileOrigin (asPosix l) = w.fileOrigin (asPosix l) := by
    intro l b hl hb
    have hmem := (hrecords _).1 ((mem_executionFileSeals h).2 ⟨l, b, hl, hb, rfl⟩)
    obtain ⟨l', b', hl', hb', heq⟩ := (mem_executionFileSeals h').1 hmem
    obtain ⟨hpath, hdigest, -, horigin⟩ := CaseFileSeal.mk.inj heq
    obtain rfl := recordAt_inj hw hw' hl hl' hb hb' hpath
    obtain rfl := Sha256.mk.inj hdigest
    exact ⟨hb', horigin.symm⟩
  have hback : ∀ l b, underExecutionInput l → w'.tree.fileAt l = some b →
      w.tree.fileAt l = some b := by
    intro l b hl hb
    have hmem := (hrecords _).2 ((mem_executionFileSeals h').2 ⟨l, b, hl, hb, rfl⟩)
    obtain ⟨l', b', hl', hb', heq⟩ := (mem_executionFileSeals h).1 hmem
    obtain ⟨hpath, hdigest, -⟩ := CaseFileSeal.mk.inj heq
    obtain rfl := recordAt_inj hw' hw hl hl' hb hb' hpath
    obtain rfl := Sha256.mk.inj hdigest
    exact hb'
  refine ⟨fun l hl => Option.ext fun b => ⟨hback l b hl, fun hb => (hforth l b hl hb).1⟩,
    fun l hl hfile => ?_⟩
  obtain ⟨b, hb⟩ := Option.isSome_iff_exists.1 hfile
  exact (hforth l b hl hb).2

/-- **Equal inputs have equal records**, in the same order. -/
theorem records_of_sameInputs (hsame : SameInputs w w') (h : w.executionFileSeals = .ok files)
    (h' : w'.executionFileSeals = .ok files') : files' = files := by
  have hinputs : w'.executionInputs = w.executionInputs := by
    refine List.Perm.eq_of_pairwise' (List.pairwise_insertionSort _ _)
      (List.pairwise_insertionSort _ _) ?_
    refine (List.perm_ext_iff_of_nodup ?_ ?_).2 fun l => ?_
    · exact (List.perm_insertionSort _ _).nodup_iff.2 (w'.tree.nodupKeys.filter _)
    · exact (List.perm_insertionSort _ _).nodup_iff.2 (w.tree.nodupKeys.filter _)
    · rw [mem_executionInputs, mem_executionInputs]
      refine and_congr_right fun hl => ?_
      rw [FileTree.isFile, FileTree.isFile, hsame.files l hl]
  have hseals := executionFileSeals_eq_ok h
  have hseals' := executionFileSeals_eq_ok h'
  rw [hinputs] at hseals'
  rw [Traversal.map_of_mapM hseals fun l _ s hs => sealFile_eq_recordAt hs,
    Traversal.map_of_mapM hseals' fun l _ s hs => sealFile_eq_recordAt hs]
  refine List.map_congr_left fun l hl => ?_
  obtain ⟨hin, hfile⟩ := mem_executionInputs.1 hl
  rw [recordAt, recordAt, hsame.files l hin, hsame.origins l hin hfile]

/-! ### The comparison -/

/-- A workspace with the sealed records is verified. -/
theorem verifySeal_of_records (h : w'.executionFileSeals = .ok files)
    (hplan : plan'.digest = plan.digest) :
    w'.verifySeal ⟨plan.digest, sealManifestDigest files, files⟩ plan' = .ok () := by
  set current : Dict Text CaseFileSeal := .ofItems (files.map fun item => (item.path, item))
    with hcurrent
  have hitem : ∀ item ∈ current.entries.map fun e => e.2, verifyFile current item = .ok () := by
    intro item hmem
    obtain ⟨⟨path, item⟩, hentry, rfl⟩ := List.mem_map.1 hmem
    have hget : current.get path = some item := AList.mem_lookup_iff.2 hentry
    obtain ⟨other, -, heq⟩ := List.mem_map.1 (Dict.mem_of_get_ofItems hget)
    obtain ⟨rfl, rfl⟩ := Prod.mk.inj heq
    unfold verifyFile
    rw [hget]
    dsimp only
    rw [if_neg (by simp), if_neg (by simp)]
  unfold verifySeal
  rw [if_neg (not_not.2 hplan), h]
  dsimp only
  have hkeys : ¬ ((∃ p ∈ current.keys, p ∉ current) ∨ ∃ p ∈ current.keys, p ∉ current) := by
    rintro (⟨p, hp, hnot⟩ | ⟨p, hp, hnot⟩)
    · exact hnot (AList.mem_keys.2 hp)
    · exact hnot (AList.mem_keys.2 hp)
  rw [← hcurrent, if_neg hkeys, Traversal.forM_eq_ok hitem]
  exact if_neg (not_not.2 rfl)

/-- A verified seal has the current records, in some order. -/
theorem of_verifySeal {caseSeal : CaseSeal} (h : w'.verifySeal caseSeal plan' = .ok ()) :
    plan'.digest = caseSeal.planSha256 ∧ ∃ files', w'.executionFileSeals = .ok files' ∧
      sealManifestDigest files' = caseSeal.manifestSha256 := by
  unfold verifySeal at h
  split_ifs at h with hplan
  split at h
  · cases h
  · rename_i files' hfiles
    dsimp only at h
    split_ifs at h with _ hmanifest
    · split at h
      · cases h
      · cases h
    · exact ⟨not_not.1 hplan, files', hfiles, not_not.1 hmanifest⟩

theorem mem_iff_of_sealManifestDigest (h : sealManifestDigest files' = sealManifestDigest files)
    (s : CaseFileSeal) : s ∈ files ↔ s ∈ files' := by
  have hsorted := Sha256.mk.inj h
  rw [← (List.perm_insertionSort (fun a b : CaseFileSeal => a.path ≤ b.path) files).mem_iff,
    ← hsorted, (List.perm_insertionSort _ _).mem_iff]

/-- What sealing returns. -/
theorem sealCase_eq_ok {caseSeal : CaseSeal} (h : w.sealCase host plan = .ok caseSeal) :
    ∃ files, w.executionFileSeals = .ok files ∧
      caseSeal = ⟨plan.digest, sealManifestDigest files, files⟩ := by
  unfold sealCase at h
  split_ifs at h
  split at h
  · cases h
  · split at h
    · cases h
    · split at h
      · cases h
      · cases h
      · rcases hfiles : w.executionFileSeals with e | files
        · rw [hfiles] at h
          cases h
        · rw [hfiles] at h
          exact ⟨files, rfl, (Except.ok.inj h).symm⟩

/-- **A seal is verified exactly on the sealed inputs.** The seal of a case verifies on the case
as it was sealed; on another workspace, and for another plan, it verifies exactly when the plan
has the sealed digest and the workspace, whose inputs can be sealed, has the same files below
`0/`, `constant/` and `system/` with the same content and origin. -/
theorem verifySeal_iff {caseSeal : CaseSeal} (h : w.sealCase host plan = .ok caseSeal)
    (hw : w.Named) (hw' : w'.Named) :
    w.verifySeal caseSeal plan = .ok () ∧
      (w'.verifySeal caseSeal plan' = .ok () ↔ plan'.digest = plan.digest ∧ SameInputs w w' ∧
        ∃ files, w'.executionFileSeals = .ok files) := by
  obtain ⟨files, hfiles, rfl⟩ := sealCase_eq_ok h
  refine ⟨verifySeal_of_records hfiles rfl, ?_, ?_⟩
  · intro hverify
    obtain ⟨hplan, files', hfiles', hmanifest⟩ := of_verifySeal hverify
    have hrecords := mem_iff_of_sealManifestDigest hmanifest
    exact ⟨hplan, sameInputs_of_records hw hw' hfiles hfiles' hrecords, files', hfiles'⟩
  · rintro ⟨hplan, hsame, files', hfiles'⟩
    obtain rfl := records_of_sameInputs hsame hfiles hfiles'
    exact verifySeal_of_records hfiles' hplan

/-- A case with one dictionary the agent wrote and one file of a native command. -/
def sealedCase : CaseWorkspace where
  tree := (∅ : FileTree Text Bytes)
    |>.insert ["constant".toList] .directory
    |>.insert ["constant".toList, "points".toList] (.file (encode "(0 0 0)".toList))
    |>.insert ["system".toList] .directory
    |>.insert ["system".toList, "controlDict".toList] (.file (encode "deltaT 1;".toList))
  authoredPaths := .ofList ["system/controlDict".toList]
  assetPaths := .ofList []

/-- The same case once the agent has written the native file again with its content. -/
def rewrittenCase : CaseWorkspace :=
  { sealedCase with authoredPaths := sealedCase.authoredPaths.add "constant/points".toList }

/-- The files of the two cases are equal, one origin is not, and the seal of the one fails on the
other. -/
theorem verifySeal_iff_origin :
    ∃ caseSeal, sealedCase.sealCase .reliable (planRequiring ["system/controlDict"]) = .ok caseSeal ∧
      sealedCase.verifySeal caseSeal (planRequiring ["system/controlDict"]) = .ok () ∧
      rewrittenCase.verifySeal caseSeal (planRequiring ["system/controlDict"]) ≠ .ok () := by
  have hseals : (sealedCase.sealCase .reliable (planRequiring ["system/controlDict"])).isOk := by
    decide +kernel
  rcases hseal : sealedCase.sealCase .reliable (planRequiring ["system/controlDict"])
    with e | caseSeal
  · rw [hseal] at hseals
    cases hseals
  have hiff : sealedCase.verifySeal caseSeal (planRequiring ["system/controlDict"]) = .ok () ∧
      (rewrittenCase.verifySeal caseSeal (planRequiring ["system/controlDict"]) = .ok () ↔ _) :=
    verifySeal_iff hseal (named_of_keys (by decide +kernel)) (named_of_keys (by decide +kernel))
  refine ⟨caseSeal, rfl, hiff.1, fun h => ?_⟩
  obtain ⟨-, hsame, -⟩ := hiff.2.1 h
  have horigin := hsame.origins ["constant".toList, "points".toList] rfl (by decide +kernel)
  have hnative : sealedCase.fileOrigin (asPosix ["constant".toList, "points".toList]) = .native := by
    decide +kernel
  have hagent : rewrittenCase.fileOrigin (asPosix ["constant".toList, "points".toList]) = .agent := by
    decide +kernel
  rw [hnative, hagent] at horigin
  cases horigin

end CaseWorkspace
end Workspace
end OpenFoamAgent
