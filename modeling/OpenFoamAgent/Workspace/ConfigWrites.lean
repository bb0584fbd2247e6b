/-
# Configurations beside a sealed case

`write_postprocess_config` of `tools/workspace.py`. `0/`, `constant/` and `system/` are sealed,
`postprocessConfig/` is not: a write below it, and a transaction of such writes, leaves a verified
seal verified (`SameSealed.verifySeal`). A rollback
may write through a symbolic link with the name of its temporary file, so no such link may stand
there.
-/
import OpenFoamAgent.Workspace.Rollback
import OpenFoamAgent.Workspace.SealVerification

namespace OpenFoamAgent
namespace Workspace

open Python Schemas CaseWorkspace

/-- The path text starts with `postprocessConfig/`. -/
def isConfigText (p : Text) : Bool := "postprocessConfig/".toList.isPrefixOf p

/-- The exceptions of `write_postprocess_config`. -/
inductive ConfigError where
  /-- `Post-processing configuration must live under postprocessConfig/.` -/
  | outside
  | write (e : CaseError)
  deriving DecidableEq

/-- `write_postprocess_config`. -/
def CaseWorkspace.writePostprocessConfig (host : Host) (w : CaseWorkspace)
    (relativeText content : Text) : CaseWorkspace × Except ConfigError Digest :=
  match CaseWorkspace.normalizedText relativeText with
  | .error e => (w, .error (.write (.check e)))
  | .ok path =>
    if isConfigText path then
      match w.writeText host path content with
      | (w', .error e) => (w', .error (.write e))
      | (w', .ok digest) => (w', .ok digest)
    else (w, .error .outside)

/-- All that a seal is made of is the same, and there is no new symbolic link. -/
structure SameSealed (w w' : CaseWorkspace) : Prop where
  files : ∀ l, underExecutionInput l → w'.tree.fileAt l = w.tree.fileAt l
  links : ∀ l, w'.tree.isLink l → w.tree.isLink l
  authored : ∀ l, underExecutionInput l →
    (asPosix l ∈ w'.authoredPaths ↔ asPosix l ∈ w.authoredPaths)
  assets : w'.assetPaths = w.assetPaths
  maxBytes : w'.maxExecutionBytes = w.maxExecutionBytes
  maxFiles : w'.maxExecutionFiles = w.maxExecutionFiles

/-! ### Configuration paths -/

section
variable {p : Text} {l : Location}

theorem exists_of_isConfigText (h : isConfigText p) :
    ∃ q, p = "postprocessConfig".toList ++ '/' :: q := by
  obtain ⟨q, rfl⟩ := List.isPrefixOf_iff_prefix.1 h
  exact ⟨q, by simp⟩

theorem locate_config (h : isConfigText p) :
    ∃ rest, locate p = "postprocessConfig".toList :: rest := by
  obtain ⟨q, rfl⟩ := exists_of_isConfigText h
  exact ⟨pathParts q, by rw [locate_eq_pathParts, pathParts_append_slash]; rfl⟩

theorem not_underExecutionInput_config (h : isConfigText p) :
    ¬ underExecutionInput (locate p) := by
  obtain ⟨rest, hrest⟩ := locate_config h
  rw [hrest]
  cases rest with
  | nil => decide
  | cons name rest => exact Bool.eq_false_iff.1 rfl

theorem not_underExecutionInput_temporary (h : isConfigText p) :
    ¬ underExecutionInput (rollbackTemporary (locate p)) := by
  obtain ⟨rest, hrest⟩ := locate_config h
  rw [hrest]
  rcases rest with _ | ⟨name, rest⟩
  · decide
  · rw [rollbackTemporary, List.dropLast_cons_of_ne_nil (List.cons_ne_nil _ _), List.cons_append]
    cases (name :: rest).dropLast ++
        ['.' :: ("postprocessConfig".toList :: name :: rest).getLastD [] ++
          ".rollback.tmp".toList] with
    | nil => decide
    | cons name rest => exact Bool.eq_false_iff.1 rfl

/-- The text of a configuration is that of no execution input. -/
theorem stripBy_config_ne (h : isConfigText p) (hl : underExecutionInput l) :
    stripBy (· == '/') p ≠ asPosix l := by
  obtain ⟨q, rfl⟩ := exists_of_isConfigText h
  rcases l with _ | ⟨top, _ | ⟨name, rest⟩⟩
  · cases hl
  · cases hl
  have htop : top ∈ executionInputTopLevel := of_decide_eq_true hl
  have hhead : (asPosix (top :: name :: rest)).head? ≠ some 'p' := by
    have hall : ∀ top ∈ executionInputTopLevel, top.head?.any (· ≠ 'p') := by decide
    have hne := hall top htop
    rw [asPosix, List.intercalate_cons_cons, List.append_assoc, List.head?_append]
    cases hhead : top.head? with
    | none =>
      rw [hhead] at hne
      cases hne
    | some c =>
      rw [hhead] at hne
      simpa using hne
  intro heq
  refine hhead (heq ▸ ?_)
  exact head?_stripBy rfl rfl

end

/-! ### Seals -/

namespace SameSealed

variable {w w' w'' : CaseWorkspace}

theorem refl (w : CaseWorkspace) : SameSealed w w :=
  ⟨fun _ _ => rfl, fun _ h => h, fun _ _ => Iff.rfl, rfl, rfl, rfl⟩

theorem of_within {S : Set Location} (h : Within S w w')
    (hS : ∀ l ∈ S, ¬ underExecutionInput l)
    (hauthored : ∀ l, underExecutionInput l →
      (asPosix l ∈ w'.authoredPaths ↔ asPosix l ∈ w.authoredPaths)) : SameSealed w w' where
  files l hl := h.tree.files l fun hmem => hS l hmem hl
  links := h.tree.links
  authored := hauthored
  assets := h.assetPaths
  maxBytes := by rw [h.settled]
  maxFiles := by rw [h.settled]

theorem executionInputs (h : SameSealed w w') : w'.executionInputs = w.executionInputs := by
  refine List.Perm.eq_of_pairwise' (List.pairwise_insertionSort _ _)
    (List.pairwise_insertionSort _ _) ?_
  refine (List.perm_ext_iff_of_nodup ?_ ?_).2 fun l => ?_
  · exact (List.perm_insertionSort _ _).nodup_iff.2 (w'.tree.nodupKeys.filter _)
  · exact (List.perm_insertionSort _ _).nodup_iff.2 (w.tree.nodupKeys.filter _)
  · rw [mem_executionInputs, mem_executionInputs]
    refine and_congr_right fun hl => ?_
    rw [FileTree.isFile, FileTree.isFile, h.files l hl]

theorem executionFileSeals {files : List CaseFileSeal} (h : SameSealed w w')
    (hfiles : w.executionFileSeals = .ok files) : w'.executionFileSeals = .ok files := by
  unfold CaseWorkspace.executionFileSeals at hfiles ⊢
  split at hfiles
  · cases hfiles
  rename_i hnone
  have hnone' : (w'.tree.keys.find? fun l => underExecutionInput l && w'.tree.isLink l) = none := by
    refine List.find?_eq_none.2 fun l _ hl => ?_
    rw [Bool.and_eq_true] at hl
    have hlink := h.links l hl.2
    have hmem : l ∈ w.tree.keys := by
      refine AList.mem_keys.1 (AList.lookup_isSome.1 ?_)
      unfold FileTree.isLink at hlink
      split at hlink
      · rename_i hlookup
        rw [hlookup]
        rfl
      · cases hlink
    exact List.find?_eq_none.1 hnone l hmem (by rw [hl.1, hlink]; rfl)
  rw [hnone']
  dsimp only at hfiles ⊢
  have hunder : ∀ l ∈ w.executionInputs, underExecutionInput l := fun l hl =>
    (mem_executionInputs.1 hl).1
  have hsizes : (w.executionInputs.map fun l => ((w'.tree.fileAt l).getD []).length) =
      w.executionInputs.map fun l => ((w.tree.fileAt l).getD []).length :=
    List.map_congr_left fun l hl => by rw [h.files l (hunder l hl)]
  have hseals : w.executionInputs.mapM w'.sealFile = w.executionInputs.mapM w.sealFile := by
    refine Traversal.mapM_congr fun l hl => ?_
    simp only [sealFile, fileOrigin, h.assets, h.authored l (hunder l hl), h.files l (hunder l hl)]
  rw [h.executionInputs, h.maxFiles, h.maxBytes, hsizes, hseals]
  exact hfiles

/-- **A verified seal stays verified.** -/
theorem verifySeal {caseSeal : CaseSeal} {plan : EngineeringPlan} (h : SameSealed w w')
    (hverified : w.verifySeal caseSeal plan = .ok ()) : w'.verifySeal caseSeal plan = .ok () := by
  obtain ⟨-, files, hfiles, -⟩ := of_verifySeal hverified
  unfold CaseWorkspace.verifySeal at hverified ⊢
  rw [h.executionFileSeals hfiles]
  rwa [hfiles] at hverified

end SameSealed

/-! ### Writes -/

namespace CaseWorkspace

variable {host : Host} {w w' : CaseWorkspace} {p c q : Text}

/-- The name of the temporary file of a rollback is no symbolic link. -/
def Untrapped (w : CaseWorkspace) : Prop :=
  ∀ p, isConfigText p → ¬ w.tree.isLink (rollbackTemporary (locate p))

theorem untrapped_of_keys (h : ∀ l ∈ w.tree.keys, w.tree.isLink l = false) : w.Untrapped := by
  intro p _ hlink
  refine Bool.eq_false_iff.1 (h _ ?_) hlink
  unfold FileTree.isLink at hlink
  split at hlink
  · rename_i heq
    exact AList.mem_keys.1 (AList.lookup_isSome.1 (by rw [heq]; rfl))
  · cases hlink

theorem Untrapped.mono (h : w.Untrapped) (hlinks : ∀ l, w'.tree.isLink l → w.tree.isLink l) :
    w'.Untrapped := fun p hp hlink => h p hp (hlinks _ hlink)

theorem atomicWrite_authoredPaths (host : Host) (w : CaseWorkspace) (p c : Text) (l : Location) :
    (w.atomicWrite host p l c).1.authoredPaths = w.authoredPaths := by
  unfold atomicWrite
  split
  · rfl
  · split <;> rfl

theorem writeText_authored (hq : stripBy (· == '/') p ≠ q) :
    q ∈ (w.writeText host p c).1.authoredPaths ↔ q ∈ w.authoredPaths := by
  unfold writeText
  split
  · exact Iff.rfl
  · split
    · exact Iff.rfl
    · rename_i path _
      have hauthored := atomicWrite_authoredPaths host w p c path
      split
      · rename_i w₁ e heq
        rw [heq] at hauthored
        exact (congrArg (q ∈ ·) hauthored).to_iff
      · rename_i w₁ heq
        rw [heq] at hauthored
        have hadd : q ∈ (w₁.author p).authoredPaths ↔ q ∈ w.authoredPaths := by
          rw [author, OrderedSet.mem_add, hauthored, or_iff_right hq.symm]
        split
        · exact hadd
        · exact hadd

theorem writeText_sameSealed (host : Host) (w : CaseWorkspace) (c : Text) (hp : isConfigText p) :
    SameSealed w (w.writeText host p c).1 := by
  refine .of_within (writeText_within host w p c) (fun l hl => ?_)
    fun l hl => writeText_authored (stripBy_config_ne hp hl)
  rw [hl]
  exact not_underExecutionInput_config hp

theorem writePostprocessConfig_sameSealed (host : Host) (w : CaseWorkspace) (p c : Text) :
    SameSealed w (w.writePostprocessConfig host p c).1 := by
  unfold writePostprocessConfig
  split
  · exact .refl w
  · rename_i path _
    split_ifs with hpath
    · have hwrite := writeText_sameSealed host w c hpath
      generalize w.writeText host path c = written at hwrite
      obtain ⟨w₁, r⟩ := written
      cases r <;> exact hwrite
    · exact .refl w

theorem writePostprocessConfig_ok {d : Digest}
    (h : w.writePostprocessConfig host p c = (w', .ok d)) : d = ⟨encode c⟩ := by
  unfold writePostprocessConfig at h
  split at h
  · cases h
  · split_ifs at h
    · split at h
      · cases h
      · rename_i hwrite
        cases h
        exact (writeText_ok hwrite).1
    · cases h

theorem adoptFiles_tree (authored : OrderedSet Text) (files : List CaseFileSeal)
    (w : CaseWorkspace) : (adoptFiles authored files w).1.tree = w.tree := by
  induction files generalizing authored w with
  | nil => rfl
  | cons item files ih =>
    unfold adoptFiles
    split
    · rfl
    · split <;> exact ih _ _

/-- An adoption reads the files. -/
theorem adoptAndVerify_tree (w : CaseWorkspace) (caseSeal : CaseSeal) (plan : EngineeringPlan) :
    (w.adoptAndVerify caseSeal plan).1.tree = w.tree := by
  have htree := adoptFiles_tree .empty caseSeal.files { w with assetPaths := .empty }
  unfold adoptAndVerify adoptSeal
  generalize adoptFiles .empty caseSeal.files { w with assetPaths := .empty } = adopted at htree
  obtain ⟨w', _ | authored⟩ := adopted <;> exact htree

theorem verifySeal_of_adoptAndVerify {caseSeal : CaseSeal} {plan : EngineeringPlan}
    (h : (w.adoptAndVerify caseSeal plan).2 = .ok ()) :
    (w.adoptAndVerify caseSeal plan).1.verifySeal caseSeal plan = .ok () := by
  unfold adoptAndVerify at h ⊢
  generalize w.adoptSeal caseSeal = adopted at h ⊢
  obtain ⟨w', _ | _⟩ := adopted
  · cases h
  · exact h

theorem rollback_authoredPaths (host : Host) (w : CaseWorkspace)
    (snapshots : List (Text × Option Bytes)) :
    (w.rollback host snapshots).1.authoredPaths = w.authoredPaths := by
  induction snapshots generalizing w with
  | nil => rfl
  | cons s snapshots ih =>
    unfold rollback
    split
    · rfl
    · split
      · rfl
      · exact ih _

/-- A transaction tracks no other paths than those of its changes. -/
theorem commitTextTransaction_authored_other {changes : List (Text × Text)}
    (hq : ∀ c ∈ changes, stripBy (· == '/') c.1 ≠ q) :
    q ∈ (w.commitTextTransaction host changes []).1.authoredPaths ↔ q ∈ w.authoredPaths := by
  cases hr : w.commitTextTransaction host changes [] with
  | mk w₁ r =>
    cases r with
    | ok digests =>
      rw [commitTextTransaction_authored hr]
      simp only [List.map_nil, List.not_mem_nil, not_false_eq_true, and_true, or_iff_left_iff_imp]
      rintro ⟨c, hc, rfl⟩
      exact absurd rfl (hq c hc)
    | error e =>
      unfold commitTextTransaction at hr
      split at hr
      · cases hr
        exact Iff.rfl
      · split at hr
        · cases hr
          exact Iff.rfl
        · rename_i snapshots _
          unfold commitOrRollback at hr
          split at hr
          · cases hr
          · rename_i w₂ _ _
            have hback := rollback_authoredPaths host { w₂ with authoredPaths := w.authoredPaths }
              snapshots
            split at hr
            · rename_i heq
              cases hr
              rw [heq] at hback
              exact (congrArg (q ∈ ·) hback).to_iff
            · rename_i heq
              cases hr
              rw [heq] at hback
              exact (congrArg (q ∈ ·) hback).to_iff

theorem commitTextTransaction_sameSealed (host : Host) (w : CaseWorkspace)
    {changes : List (Text × Text)} (htrap : w.Untrapped)
    (hconfig : ∀ c ∈ changes, isConfigText c.1) :
    SameSealed w (w.commitTextTransaction host changes []).1 := by
  have hauthored : ∀ l, underExecutionInput l →
      (asPosix l ∈ (w.commitTextTransaction host changes []).1.authoredPaths ↔
        asPosix l ∈ w.authoredPaths) := fun l hl =>
    commitTextTransaction_authored_other fun c hc => stripBy_config_ne (hconfig c hc) hl
  refine .of_within (S := transactionFootprint w (changes.map Prod.fst)) ?_ ?_ hauthored
  · unfold commitTextTransaction
    split
    · exact .refl _ w
    · rename_i drops hpre
      obtain rfl : drops = [] := List.eq_nil_iff_forall_not_mem.2 fun d hd => by
        obtain ⟨-, p, hp, -⟩ := (commitPreflight_eq_ok hpre).2 d hd
        cases hp
      split
      · exact .refl _ w
      · rename_i snapshots hsnap
        have hwithin := commitOrRollback_within hsnap fun p hp _ => ?_
        · rwa [List.append_nil] at hwithin
        · rw [List.append_nil] at hp
          obtain ⟨c, hc, rfl⟩ := List.mem_map.1 hp
          exact htrap c.1 (hconfig c hc)
  · rintro l ⟨p, hp, hl⟩
    obtain ⟨c, hc, rfl⟩ := List.mem_map.1 hp
    rcases hl with rfl | ⟨-, rfl⟩
    · exact not_underExecutionInput_config (hconfig c hc)
    · exact not_underExecutionInput_temporary (hconfig c hc)

end CaseWorkspace
end Workspace
end OpenFoamAgent
