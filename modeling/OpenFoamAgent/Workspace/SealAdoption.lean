/-
# What the adoption of a seal leaves tracked

`adopt_seal` of `tools/workspace.py` checks the sealed paths one after the other. It
gathers the paths of the agent in a set of its own, and the paths of the user's
assets in `_asset_paths` itself, which it empties first. So a sealed path that
does not resolve leaves `_authored_paths` alone and `_asset_paths` with the
assets sealed ahead of it.
-/
import OpenFoamAgent.Schemas.CasePlan
import OpenFoamAgent.Workspace.Seal

namespace OpenFoamAgent
namespace Workspace

open Python Schemas

/-- The sealed paths of an origin. -/
def sealedPaths (files : List CaseFileSeal) (origin : FileOrigin) : List Text :=
  (files.filter fun item => item.origin = origin).map fun item => item.path

namespace CaseWorkspace

/-- The file of a sealed path is there, behind no symbolic link. -/
def holdsSealed (w : CaseWorkspace) (item : CaseFileSeal) : Bool :=
  (w.resolveCasePath item.path true).isOk

/-- The sealed files ahead of the first that does not resolve. -/
def checkedFiles (w : CaseWorkspace) (files : List CaseFileSeal) : List CaseFileSeal :=
  files.takeWhile w.holdsSealed

/-- `w'` tracks the same paths as `w`. -/
structure SameTracking (w w' : CaseWorkspace) : Prop where
  authored : ∀ p, p ∈ w'.authoredPaths ↔ p ∈ w.authoredPaths
  assets : ∀ p, p ∈ w'.assetPaths ↔ p ∈ w.assetPaths

/-- `w` tracks the sealed paths and no others. -/
structure TracksSealed (w : CaseWorkspace) (files : List CaseFileSeal) : Prop where
  authored : ∀ p, p ∈ w.authoredPaths ↔ p ∈ sealedPaths files .agent
  assets : ∀ p, p ∈ w.assetPaths ↔ p ∈ sealedPaths files .userAsset

/-- The adoption is all or nothing: either it raises and the tracking is as before, or
it returns and the sealed paths are tracked. -/
structure AdoptsWhole (w : CaseWorkspace) (caseSeal : CaseSeal) : Prop where
  raises : ∀ e, (w.adoptSeal caseSeal).2 = .error e → SameTracking w (w.adoptSeal caseSeal).1
  returns : (w.adoptSeal caseSeal).2 = .ok () →
    TracksSealed (w.adoptSeal caseSeal).1 caseSeal.files

variable {w : CaseWorkspace} {files : List CaseFileSeal}

theorem sealedPaths_cons (item : CaseFileSeal) (files : List CaseFileSeal) (origin : FileOrigin) :
    sealedPaths (item :: files) origin =
      if item.origin = origin then item.path :: sealedPaths files origin
      else sealedPaths files origin := by
  unfold sealedPaths
  rw [List.filter_cons]
  split_ifs with h <;> simp_all

/-! ### The loop -/

theorem checkedFiles_cons (item : CaseFileSeal) (files : List CaseFileSeal) :
    w.checkedFiles (item :: files) =
      if w.holdsSealed item then item :: w.checkedFiles files else [] := by
  unfold checkedFiles
  rw [List.takeWhile_cons]

/-- Whether a sealed path resolves does not depend on the tracking. -/
theorem checkedFiles_withAssets (w : CaseWorkspace) (assetPaths : OrderedSet Text) :
    { w with assetPaths }.checkedFiles files = w.checkedFiles files := rfl

theorem checkedFiles_eq_self (h : files.all w.holdsSealed) : w.checkedFiles files = files :=
  List.takeWhile_eq_self_iff.2 (List.all_eq_true.1 h)

/-- What the loop leaves: it has gone over the files ahead of the first that does not
resolve, and it raises where there is one. -/
structure Adopted (authored : OrderedSet Text) (files : List CaseFileSeal) (w : CaseWorkspace)
    (out : CaseWorkspace × Except SealError (OrderedSet Text)) : Prop where
  authoredKept : out.1.authoredPaths = w.authoredPaths
  assets : ∀ p, p ∈ out.1.assetPaths ↔
    p ∈ w.assetPaths ∨ p ∈ sealedPaths (w.checkedFiles files) .userAsset
  returns : ∀ gathered, out.2 = .ok gathered → files.all w.holdsSealed ∧
    ∀ p, p ∈ gathered ↔ p ∈ authored ∨ p ∈ sealedPaths files .agent
  raises : ∀ e, out.2 = .error e → ¬ files.all w.holdsSealed

theorem adoptFiles_adopted (authored : OrderedSet Text) (files : List CaseFileSeal)
    (w : CaseWorkspace) : Adopted authored files w (adoptFiles authored files w) := by
  induction files generalizing authored w with
  | nil =>
    refine ⟨rfl, fun p => ?_, fun gathered h => ?_, nofun⟩
    · simp [adoptFiles, checkedFiles, sealedPaths]
    · obtain rfl := Except.ok.inj h
      simp [sealedPaths]
  | cons item files ih =>
    unfold adoptFiles
    cases hres : w.resolveCasePath item.path true with
    | error e =>
      have hnot : w.holdsSealed item = false := by rw [holdsSealed, hres]; rfl
      refine ⟨rfl, fun p => ?_, nofun, fun e' _ hall => ?_⟩
      · simp [checkedFiles_cons, hnot, sealedPaths]
      · simp [hnot] at hall
    | ok l =>
      have hholds : w.holdsSealed item = true := by rw [holdsSealed, hres]; rfl
      have hall : (item :: files).all w.holdsSealed = files.all w.holdsSealed := by
        rw [List.all_cons, hholds, Bool.true_and]
      have hchecked : w.checkedFiles (item :: files) = item :: w.checkedFiles files := by
        rw [checkedFiles_cons, if_pos hholds]
      cases horigin : item.origin with
      | agent =>
        obtain ⟨hkept, hassets, hreturns, hraises⟩ := ih (authored.add item.path) w
        refine ⟨hkept, fun p => ?_, fun gathered h => ?_, fun e h => ?_⟩
        · rw [hassets, hchecked, sealedPaths_cons, horigin, if_neg nofun]
        · obtain ⟨hfiles, hgathered⟩ := hreturns gathered h
          refine ⟨hall.trans hfiles, fun p => ?_⟩
          rw [hgathered, OrderedSet.mem_add, sealedPaths_cons, horigin, if_pos rfl, List.mem_cons]
          tauto
        · rw [hall]
          exact hraises e h
      | userAsset =>
        obtain ⟨hkept, hassets, hreturns, hraises⟩ :=
          ih authored { w with assetPaths := w.assetPaths.add item.path }
        refine ⟨hkept, fun p => ?_, fun gathered h => ?_, fun e h => ?_⟩
        · refine (hassets p).trans ?_
          rw [OrderedSet.mem_add, hchecked, sealedPaths_cons, horigin, if_pos rfl, List.mem_cons]
          tauto
        · obtain ⟨hfiles, hgathered⟩ := hreturns gathered h
          refine ⟨hall.trans hfiles, fun p => ?_⟩
          rw [hgathered, sealedPaths_cons, horigin, if_neg nofun]
        · rw [hall]
          exact hraises e h
      | native =>
        obtain ⟨hkept, hassets, hreturns, hraises⟩ := ih authored w
        refine ⟨hkept, fun p => ?_, fun gathered h => ?_, fun e h => ?_⟩
        · rw [hassets, hchecked, sealedPaths_cons, horigin, if_neg nofun]
        · obtain ⟨hfiles, hgathered⟩ := hreturns gathered h
          refine ⟨hall.trans hfiles, fun p => ?_⟩
          rw [hgathered, sealedPaths_cons, horigin, if_neg nofun]
        · rw [hall]
          exact hraises e h

/-! ### The adoption -/

/-- A seal whose paths all resolve is adopted whole. -/
theorem adoptSeal_of_holds (caseSeal : CaseSeal) (h : caseSeal.files.all w.holdsSealed) :
    (w.adoptSeal caseSeal).2 = .ok () ∧ TracksSealed (w.adoptSeal caseSeal).1 caseSeal.files := by
  have hloop := adoptFiles_adopted .empty caseSeal.files { w with assetPaths := .empty }
  unfold adoptSeal
  split
  · rename_i w' e heq
    rw [heq] at hloop
    exact absurd h (hloop.raises e rfl)
  · rename_i w' gathered heq
    rw [heq] at hloop
    refine ⟨rfl, fun p => ?_, fun p => ?_⟩
    · refine ((hloop.returns gathered rfl).2 p).trans ?_
      simp [OrderedSet.mem_def, OrderedSet.empty]
    · refine (hloop.assets p).trans ?_
      rw [checkedFiles_withAssets, checkedFiles_eq_self h]
      simp [OrderedSet.mem_def, OrderedSet.empty]

/-- Where a sealed path does not resolve the adoption raises: the paths of the agent are
as before, and the assets are those sealed ahead of it. -/
theorem adoptSeal_of_not_holds (caseSeal : CaseSeal) (h : ¬ caseSeal.files.all w.holdsSealed) :
    (∃ e, (w.adoptSeal caseSeal).2 = .error e) ∧
      (w.adoptSeal caseSeal).1.authoredPaths = w.authoredPaths ∧
      ∀ p, p ∈ (w.adoptSeal caseSeal).1.assetPaths ↔
        p ∈ sealedPaths (w.checkedFiles caseSeal.files) .userAsset := by
  have hloop := adoptFiles_adopted .empty caseSeal.files { w with assetPaths := .empty }
  unfold adoptSeal
  split
  · rename_i w' e heq
    rw [heq] at hloop
    refine ⟨⟨e, rfl⟩, hloop.authoredKept, fun p => (hloop.assets p).trans ?_⟩
    refine or_iff_right ?_
    simp [OrderedSet.mem_def, OrderedSet.empty]
  · rename_i w' gathered heq
    rw [heq] at hloop
    exact absurd (hloop.returns gathered rfl).1 h

/-- **`adopt_seal` is all or nothing exactly when every sealed path resolves, or the
user's assets sealed ahead of the first that does not are the assets tracked already.** -/
theorem adoptSeal_adoptsWhole_iff (w : CaseWorkspace) (caseSeal : CaseSeal) :
    AdoptsWhole w caseSeal ↔
      (∀ item ∈ caseSeal.files, w.holdsSealed item) ∨
        ∀ p, p ∈ w.assetPaths ↔ p ∈ sealedPaths (w.checkedFiles caseSeal.files) .userAsset := by
  rw [← List.all_eq_true]
  by_cases h : caseSeal.files.all w.holdsSealed
  · obtain ⟨hok, htracks⟩ := adoptSeal_of_holds caseSeal h
    refine iff_of_true ⟨fun e he => ?_, fun _ => htracks⟩ (.inl h)
    rw [hok] at he
    cases he
  · obtain ⟨⟨e, he⟩, hauthored, hassets⟩ := adoptSeal_of_not_holds caseSeal h
    refine ⟨fun hwhole => .inr fun p => ?_, fun hsame => ⟨fun _ _ => ⟨?_, fun p => ?_⟩, ?_⟩⟩
    · exact ((hwhole.raises e he).assets p).symm.trans (hassets p)
    · exact fun p => by rw [hauthored]
    · exact (hassets p).trans ((hsame.resolve_left h) p).symm
    · intro hok
      rw [he] at hok
      cases hok

/-- A case with one file of the user and none of the agent. -/
def importedCase : CaseWorkspace where
  tree := (∅ : FileTree Text Bytes)
    |>.insert ["constant".toList] .directory
    |>.insert ["constant".toList, "geometry.stl".toList] (.file (encode "solid".toList))
  authoredPaths := .ofList []
  assetPaths := .ofList ["constant/geometry.stl".toList]

/-- The seal of a run whose mesh is no longer there. -/
def lostSeal : CaseSeal where
  planSha256 := (planRequiring []).digest
  manifestSha256 := ⟨[]⟩
  files := [⟨"constant/polyMesh/points".toList, ⟨[]⟩, 0, .native⟩,
    ⟨"constant/geometry.stl".toList, ⟨encode "solid".toList⟩, 5, .userAsset⟩]

/-- The native file sealed first is gone: the adoption raises, and the user's file is no longer
a tracked asset. -/
theorem adoptSeal_forgets_asset :
    ¬ ∀ (w : CaseWorkspace) (caseSeal : CaseSeal), AdoptsWhole w caseSeal := by
  intro h
  have hraised : (importedCase.adoptSeal lostSeal).2 =
      .error (.check (.missing "constant/polyMesh/points".toList)) := by
    decide +kernel
  have hforgotten : "constant/geometry.stl".toList ∉
      (importedCase.adoptSeal lostSeal).1.assetPaths := by
    decide +kernel
  exact hforgotten (((h importedCase lostSeal).raises _ hraised).assets _ |>.2 (by decide +kernel))

end CaseWorkspace
end Workspace
end OpenFoamAgent
