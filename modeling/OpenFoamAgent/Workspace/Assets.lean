/-
# User assets under authoring

A user asset is a file whose path text is in `_asset_paths`. The four mutations
of `tools/workspace.py` refuse a text whose stripped form is in that set, and
write through `pathlib.Path`, which also drops empty and `.` components. This
module says what keeps the assets of a workspace as they are along any run of
mutations.

* A path text spares the assets when it names none of them, or names one by its
  registered text and is refused.
* A transaction that is rolled back writes `.NAME.rollback.tmp` next to each
  file it restores, whatever that name holds.
-/
import OpenFoamAgent.Library.Runs
import OpenFoamAgent.Workspace.Frames

namespace OpenFoamAgent
namespace Workspace

open Python Schemas CaseWorkspace

/-- The locations of the registered user assets. -/
def CaseWorkspace.assetLocations (w : CaseWorkspace) : Set Location :=
  {l | ∃ a ∈ w.assetPaths, locate a = l}

instance (w : CaseWorkspace) (l : Location) : Decidable (l ∈ w.assetLocations) :=
  inferInstanceAs (Decidable (∃ a ∈ w.assetPaths.items, locate a = l))

/-- The registered assets are the same ones, with the same bytes at their locations. -/
structure KeepsAssets (w w' : CaseWorkspace) : Prop where
  registered : w'.assetPaths = w.assetPaths
  bytes : ∀ a ∈ w.assetPaths, w'.tree.fileAt (locate a) = w.tree.fileAt (locate a)

theorem KeepsAssets.refl (w : CaseWorkspace) : KeepsAssets w w := ⟨rfl, fun _ _ => rfl⟩

theorem KeepsAssets.trans {w w' w'' : CaseWorkspace} (h : KeepsAssets w w')
    (h' : KeepsAssets w' w'') : KeepsAssets w w'' :=
  ⟨h'.registered.trans h.registered, fun a ha =>
    (h'.bytes a (h.registered ▸ ha)).trans (h.bytes a ha)⟩

/-- A mutation that writes outside the assets' locations keeps them. -/
theorem KeepsAssets.of_within {S : Set Location} {w w' : CaseWorkspace} (h : Within S w w')
    (hS : ∀ l ∈ S, l ∉ w.assetLocations) : KeepsAssets w w' :=
  ⟨h.assetPaths, fun a ha => h.tree.files _ fun hl => hS _ hl ⟨a, ha, rfl⟩⟩

/-! ### Runs of mutations -/

/-- The authoring operations. -/
inductive Mutation where
  | writeText (relativeText content : Text)
  | patchTextOnce (relativeText old new : Text)
  | delete (relativeText : Text)
  | commitTextTransaction (changes : List (Text × Text)) (dropPaths : List Text)

/-- The path texts a mutation is called with. -/
def Mutation.paths : Mutation → List Text
  | .writeText p _ => [p]
  | .patchTextOnce p _ _ => [p]
  | .delete p => [p]
  | .commitTextTransaction changes dropPaths => changes.map Prod.fst ++ dropPaths

/-- The path texts a rollback of the mutation restores. -/
def Mutation.restored : Mutation → List Text
  | .commitTextTransaction changes dropPaths => changes.map Prod.fst ++ dropPaths
  | _ => []

/-- The workspace after a mutation on some host, whether it returned or raised. -/
def CaseWorkspace.mutate (w : CaseWorkspace) (a : Host × Mutation) : CaseWorkspace :=
  match a.2 with
  | .writeText p c => (w.writeText a.1 p c).1
  | .patchTextOnce p old new => (w.patchTextOnce a.1 p old new).1
  | .delete p => (w.delete a.1 p).1
  | .commitTextTransaction changes dropPaths => (w.commitTextTransaction a.1 changes dropPaths).1

/-- The path text names no asset, or its stripped form is the registered text of one. -/
def NamesAssetsAsRegistered (w : CaseWorkspace) (p : Text) : Prop :=
  locate p ∈ w.assetLocations → stripBy (· == '/') p ∈ w.assetPaths

/-- The name of the temporary file that would restore `p` is free of assets and links. -/
def SparesTemporary (w : CaseWorkspace) (p : Text) : Prop :=
  w.tree.isFile (locate p) → rollbackTemporary (locate p) ∉ w.assetLocations ∧
    ¬ w.tree.isLink (rollbackTemporary (locate p))

/-- No path text of the mutation is an alias of an asset, and no file that a rollback of
it restores has an asset for a temporary name. -/
structure SparesAssets (w : CaseWorkspace) (a : Host × Mutation) : Prop where
  spelling : ∀ p ∈ a.2.paths, NamesAssetsAsRegistered w p
  temporary : ∀ p ∈ a.2.restored, SparesTemporary w p

instance (w : CaseWorkspace) (p : Text) : Decidable (NamesAssetsAsRegistered w p) :=
  inferInstanceAs (Decidable (_ → _))

instance (w : CaseWorkspace) (p : Text) : Decidable (SparesTemporary w p) :=
  inferInstanceAs (Decidable (_ → _))

instance (w : CaseWorkspace) (a : Host × Mutation) : Decidable (SparesAssets w a) :=
  decidable_of_iff ((∀ p ∈ a.2.paths, NamesAssetsAsRegistered w p) ∧
      ∀ p ∈ a.2.restored, SparesTemporary w p)
    ⟨fun h => ⟨h.1, h.2⟩, fun h => ⟨h.1, h.2⟩⟩

variable {host : Host} {w : CaseWorkspace}

theorem writeText_keepsAssets {p : Text} (h : NamesAssetsAsRegistered w p) (c : Text) :
    KeepsAssets w (w.writeText host p c).1 := by
  cases hd : w.validateCandidateText host p c with
  | error e => simpa [writeText, hd] using KeepsAssets.refl w
  | ok d =>
    refine .of_within (writeText_within host w p c) ?_
    rintro l rfl hl
    exact (validateCandidateText_eq_ok hd).2.1 (h hl)

theorem patchTextOnce_keepsAssets {p : Text} (h : NamesAssetsAsRegistered w p) (old new : Text) :
    KeepsAssets w (w.patchTextOnce host p old new).1 := by
  unfold patchTextOnce
  split_ifs
  · exact .refl w
  · split
    · exact .refl w
    · split_ifs
      · exact .refl w
      · exact .refl w
      · exact writeText_keepsAssets h _

theorem delete_keepsAssets {p : Text} (h : NamesAssetsAsRegistered w p) :
    KeepsAssets w (w.delete host p).1 := by
  by_cases ha : stripBy (· == '/') p ∈ w.assetPaths
  · unfold delete
    split
    · exact .refl w
    · rename_i n hn
      obtain rfl := normalizedText_eq_ok hn
      split
      · exact .refl w
      · rw [if_pos ha]
        exact .refl w
  · refine .of_within (delete_within host w p) ?_
    rintro l rfl hl
    exact ha (h hl)

theorem commitTextTransaction_keepsAssets {changes : List (Text × Text)} {dropPaths : List Text}
    (hspell : ∀ p ∈ changes.map Prod.fst ++ dropPaths, NamesAssetsAsRegistered w p)
    (htmp : ∀ p ∈ changes.map Prod.fst ++ dropPaths, SparesTemporary w p) :
    KeepsAssets w (w.commitTextTransaction host changes dropPaths).1 := by
  unfold commitTextTransaction
  split
  · exact .refl w
  · rename_i drops hpre
    obtain ⟨hchanges, hdrops⟩ := commitPreflight_eq_ok hpre
    split
    · exact .refl w
    · rename_i snapshots hsnap
      -- a dropped path is the stripped form of one the caller gave
      have hmem : ∀ p ∈ changes.map Prod.fst ++ drops,
          ∃ q ∈ changes.map Prod.fst ++ dropPaths, locate p = locate q ∧
            stripBy (· == '/') q ∉ w.assetPaths := by
        intro p hp
        rcases List.mem_append.1 hp with hp | hp
        · obtain ⟨c, hc, rfl⟩ := List.mem_map.1 hp
          exact ⟨c.1, List.mem_append_left _ hp, rfl, (hchanges c hc).1⟩
        · obtain ⟨hnot, q, hq, rfl⟩ := hdrops p hp
          exact ⟨q, List.mem_append_right _ hq, locate_stripBy q, hnot⟩
      refine .of_within (commitOrRollback_within hsnap ?_) ?_
      · intro p hp hfile
        obtain ⟨q, hq, hloc, -⟩ := hmem p hp
        rw [hloc] at hfile ⊢
        exact (htmp q hq hfile).2
      · rintro l ⟨p, hp, hl⟩ hasset
        obtain ⟨q, hq, hloc, hnot⟩ := hmem p hp
        rw [hloc] at hl
        rcases hl with rfl | ⟨hfile, rfl⟩
        · exact hnot (hspell q hq hasset)
        · exact (htmp q hq hfile).1 hasset

/-- One mutation that spares the assets keeps them. -/
theorem mutate_keepsAssets {a : Host × Mutation} (h : SparesAssets w a) :
    KeepsAssets w (w.mutate a) := by
  obtain ⟨host, m⟩ := a
  obtain ⟨hspell, htmp⟩ := h
  cases m with
  | writeText p c => exact writeText_keepsAssets (hspell p List.mem_cons_self) c
  | patchTextOnce p old new => exact patchTextOnce_keepsAssets (hspell p List.mem_cons_self) old new
  | delete p => exact delete_keepsAssets (hspell p List.mem_cons_self)
  | commitTextTransaction changes dropPaths =>
    exact commitTextTransaction_keepsAssets hspell htmp

/-- **User assets survive authoring.** From any workspace, in every run of mutations each of
which spares the assets of the workspace it finds, every state keeps the assets of every
earlier state: they stay registered, and the bytes at their locations stay. -/
theorem run_keepsAssets (w : CaseWorkspace) (before after : List (Host × Mutation))
    (h : Runs.Meets CaseWorkspace.mutate SparesAssets w (before ++ after)) :
    KeepsAssets (Runs.run CaseWorkspace.mutate w before)
      (Runs.run CaseWorkspace.mutate w (before ++ after)) := by
  rw [Runs.run_append]
  exact Runs.relation KeepsAssets.refl (fun _ _ _ => KeepsAssets.trans)
    (fun _ _ => mutate_keepsAssets) h.append_right

/-- A workspace with one user asset and one authored dictionary. -/
def exampleWorkspace : CaseWorkspace where
  tree := (∅ : FileTree Text Bytes)
    |>.insert ["constant".toList] .directory
    |>.insert ["constant".toList, "geom.stl".toList] (.file (encode "solid".toList))
    |>.insert ["system".toList] .directory
    |>.insert ["system".toList, "controlDict".toList] (.file (encode "deltaT 1;".toList))
  authoredPaths := .ofList ["system/controlDict".toList]
  assetPaths := .ofList ["constant/geom.stl".toList]

/-- A run that spares the assets: an asset named by its registered text is refused, another
file is rewritten and dropped. -/
theorem run_keepsAssets_example :
    KeepsAssets exampleWorkspace (Runs.run CaseWorkspace.mutate exampleWorkspace
      [(.reliable, .delete "/constant/geom.stl".toList),
        (.reliable, .commitTextTransaction [("constant/g".toList, "nu 1;".toList)]
          ["system/controlDict".toList])]) :=
  run_keepsAssets exampleWorkspace [] _ (by decide +kernel)

/-- The text `constant//geom.stl` reaches the asset `constant/geom.stl`: `write_text` returns
the digest of what it wrote over the user's file. -/
theorem writeText_alias_overwrites_asset :
    "constant/geom.stl".toList ∈ exampleWorkspace.assetPaths ∧
      (exampleWorkspace.writeText .reliable "constant//geom.stl".toList "x".toList).2 =
        .ok ⟨encode "x".toList⟩ ∧
      (exampleWorkspace.writeText .reliable "constant//geom.stl".toList "x".toList).1.tree.fileAt
        (locate "constant/geom.stl".toList) = some (encode "x".toList) ∧
      exampleWorkspace.tree.fileAt (locate "constant/geom.stl".toList) =
        some (encode "solid".toList) := by
  decide +kernel

/-- A rollback takes the asset whose name its temporary file has. -/
example :
    let w := { exampleWorkspace with
      tree := exampleWorkspace.tree.insert ["system".toList, ".controlDict.rollback.tmp".toList]
        (.file (encode "solid".toList))
      assetPaths := .ofList ["system/.controlDict.rollback.tmp".toList] }
    ((w.commitTextTransaction .reliable [("system/controlDict".toList, "deltaT 2;".toList),
      ("system/controlDict/a".toList, "b 1;".toList)] []).1.tree.fileAt
        (locate "system/.controlDict.rollback.tmp".toList)) = none := by
  decide +kernel

end Workspace
end OpenFoamAgent
