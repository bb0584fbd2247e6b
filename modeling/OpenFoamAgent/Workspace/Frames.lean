/-
# Where a mutation can change a file

The frame of each mutation of `tools/workspace.py`: the locations it may change.
`write_text`, `patch_text_once` and `delete` change the file their path names. A
transaction changes the files its paths name and, when it is rolled back, the
name `.NAME.rollback.tmp` next to each file it restores.

For a transaction that returns, `commitTextTransaction_ok` says what the files
then hold.
-/
import Mathlib.Data.Set.Insert
import OpenFoamAgent.Library.Traversal
import OpenFoamAgent.Workspace.Mutations

namespace OpenFoamAgent
namespace Workspace

open Python Schemas

/-- The step from `w` to `w'` changes files only in `S`, makes no symbolic link, and
leaves the limits and the registered assets alone. -/
structure Within (S : Set Location) (w w' : CaseWorkspace) : Prop where
  tree : w.tree.SameOutside S w'.tree
  settled : w' = { w with tree := w'.tree, authoredPaths := w'.authoredPaths }

namespace Within

variable {S T : Set Location} {w w' w'' : CaseWorkspace}

theorem refl (S : Set Location) (w : CaseWorkspace) : Within S w w := ⟨.refl S _, rfl⟩

theorem trans (h : Within S w w') (h' : Within S w' w'') : Within S w w'' :=
  ⟨h.tree.trans h'.tree, by rw [h'.settled, h.settled]⟩

theorem mono (hST : S ⊆ T) (h : Within S w w') : Within T w w' := ⟨h.tree.mono hST, h.settled⟩

theorem ofTree {tree : FileTree Text Bytes} (h : w.tree.SameOutside S tree) :
    Within S w { w with tree } := ⟨h, rfl⟩

theorem author (w : CaseWorkspace) (p : Text) : Within S w (w.author p) := ⟨.refl S _, rfl⟩

theorem withAuthored (h : Within S w w') (authoredPaths : OrderedSet Text) :
    Within S w { w' with authoredPaths } :=
  ⟨h.tree, by conv_lhs => rw [h.settled]⟩

theorem assetPaths (h : Within S w w') : w'.assetPaths = w.assetPaths := by
  rw [h.settled]

end Within

namespace CaseWorkspace

variable {host : Host} {w : CaseWorkspace}

theorem resolveCasePath_eq_ok {p : Text} {mustExist : Bool} {l : Location}
    (h : w.resolveCasePath p mustExist = .ok l) :
    l = locate p ∧ safeParts l ∧ ¬ w.tree.linkOnPath l ∧ (mustExist → w.tree.isFile l) := by
  unfold resolveCasePath at h
  split at h
  · cases h
  · rename_i relative hrel
    split_ifs at h with hlink hmiss
    obtain rfl := Except.ok.inj h
    obtain ⟨hl, hs, -⟩ := validateRelative_eq_ok hrel
    refine ⟨hl, hs, hlink, fun hm => ?_⟩
    simpa [hm] using hmiss

theorem normalizedText_eq_ok {p n : Text} (h : normalizedText p = .ok n) :
    n = stripBy (· == '/') p := by
  unfold normalizedText at h
  split at h
  · cases h
  · rename_i m hm
    obtain rfl := Except.ok.inj h
    exact normalized_eq_ok hm

theorem locate_stripBy (p : Text) : locate (stripBy (· == '/') p) = locate p := by
  rw [locate, stripBy_stripBy, locate]

theorem atomicWrite_within (host : Host) (w : CaseWorkspace) (p : Text) (target : Location) (c : Text) :
    Within {target} w (w.atomicWrite host p target c).1 := by
  unfold atomicWrite
  have hdirs := FileTree.SameOutside.makeDirectories (S := {target})
    (fun d => host.fails (.mkdir d) p) w.tree (FileTree.parents target)
  split
  · rename_i tree e heq
    rw [heq] at hdirs
    exact .ofTree hdirs
  · rename_i tree heq
    rw [heq] at hdirs
    split
    · exact .ofTree hdirs
    · rename_i tree' hrep
      exact .ofTree (hdirs.trans (.replaceFile (Set.mem_singleton _) hrep))

/-- `write_text` changes no file but the one its path names. -/
theorem writeText_within (host : Host) (w : CaseWorkspace) (p c : Text) :
    Within {locate p} w (w.writeText host p c).1 := by
  unfold writeText
  split
  · exact .refl _ w
  · split
    · exact .refl _ w
    · rename_i path hpath
      obtain ⟨rfl, -⟩ := resolveCasePath_eq_ok hpath
      have hw := atomicWrite_within host w p (locate p) c
      split
      · rename_i w' e heq; rwa [heq] at hw
      · rename_i w' heq
        rw [heq] at hw
        split <;> exact hw.trans (.author w' p)

/-- `patch_text_once` changes no file but the one its path names. -/
theorem patchTextOnce_within (host : Host) (w : CaseWorkspace) (p old new : Text) :
    Within {locate p} w (w.patchTextOnce host p old new).1 := by
  unfold patchTextOnce
  split_ifs
  · exact .refl _ w
  · split
    · exact .refl _ w
    · split_ifs
      · exact .refl _ w
      · exact .refl _ w
      · exact writeText_within host w p _

/-- `delete` changes no file but the one its path names. -/
theorem delete_within (host : Host) (w : CaseWorkspace) (p : Text) :
    Within {locate p} w (w.delete host p).1 := by
  unfold delete
  split
  · exact .refl _ w
  · rename_i n hn
    split
    · exact .refl _ w
    · rename_i path hpath
      obtain ⟨rfl, -⟩ := resolveCasePath_eq_ok hpath
      rw [normalizedText_eq_ok hn, locate_stripBy]
      split_ifs
      · exact .refl _ w
      · split
        · exact .refl _ w
        · rename_i tree hunlink
          have hroot : [] ∉ (FileTree.parents (locate p)).reverse := by
            simpa using FileTree.nil_notMem_parents (locate p)
          have hdirs := FileTree.SameOutside.removeEmptyDirectories (S := {locate p})
            (fun d => host.fails (.rmdir d) p) tree hroot
          exact ⟨(FileTree.SameOutside.unlink (Set.mem_singleton _) hunlink).trans hdirs, rfl⟩

/-! ### Transactions -/

theorem commitWrites_within (host : Host) (w : CaseWorkspace) {changes : List (Text × Text)}
    {S : Set Location} (hS : ∀ c ∈ changes, locate c.1 ∈ S) :
    Within S w (w.commitWrites host changes).1 := by
  induction changes generalizing w with
  | nil => exact .refl S w
  | cons c changes ih =>
    obtain ⟨p, content⟩ := c
    have hp : locate p ∈ S := hS (p, content) List.mem_cons_self
    unfold commitWrites
    split
    · exact .refl S w
    · rename_i target htarget
      obtain ⟨rfl, -⟩ := resolveCasePath_eq_ok htarget
      have hw := (atomicWrite_within host w p (locate p) content).mono
        (Set.singleton_subset_iff.2 hp)
      split
      · rename_i w' e heq; rwa [heq] at hw
      · rename_i w' heq
        rw [heq] at hw
        have htail := ih (w'.author p) fun c hc => hS c (List.mem_cons_of_mem _ hc)
        split
        · rename_i w'' e heq'
          rw [heq'] at htail
          exact (hw.trans (.author w' p)).trans htail
        · rename_i w'' digests heq'
          rw [heq'] at htail
          exact (hw.trans (.author w' p)).trans htail

theorem commitDrops_within (host : Host) (w : CaseWorkspace) {drops : List Text} {S : Set Location}
    (hS : ∀ p ∈ drops, locate p ∈ S) : Within S w (w.commitDrops host drops).1 := by
  induction drops generalizing w with
  | nil => exact .refl S w
  | cons p drops ih =>
    unfold commitDrops
    split
    · exact .refl S w
    · rename_i target htarget
      obtain ⟨rfl, -⟩ := resolveCasePath_eq_ok htarget
      split
      · exact .refl S w
      · rename_i tree hunlink
        have h1 : Within S w
            { w with tree, authoredPaths := w.authoredPaths.discard p } :=
          ⟨.unlink (hS p List.mem_cons_self) hunlink, rfl⟩
        exact h1.trans (ih _ fun q hq => hS q (List.mem_cons_of_mem _ hq))

theorem commitForward_within (host : Host) (w : CaseWorkspace) {changes : List (Text × Text)}
    {drops : List Text} {S : Set Location} (hc : ∀ c ∈ changes, locate c.1 ∈ S)
    (hd : ∀ p ∈ drops, locate p ∈ S) : Within S w (w.commitForward host changes drops).1 := by
  have hw := commitWrites_within host w hc
  unfold commitForward
  split
  · rename_i w' e heq; rwa [heq] at hw
  · rename_i w' digests heq
    rw [heq] at hw
    have hdrop := commitDrops_within host w' hd
    split
    · rename_i w'' e heq'
      rw [heq'] at hdrop
      exact hw.trans hdrop
    · rename_i w'' heq'
      rw [heq'] at hdrop
      split <;> exact hw.trans hdrop

theorem writeBytes_sameOutside {tree tree' : FileTree Text Bytes} {l : Location} {b : Bytes}
    (hlink : ¬ tree.isLink l) (h : writeBytes tree l b = .ok tree') :
    tree.SameOutside {l} tree' := by
  have hnot : ∀ b o, Node.file b ≠ (.link o : Node Text Bytes) := fun b o ho => by cases ho
  unfold writeBytes at h
  cases hn : tree.lookup l with
  | none =>
    rw [hn] at h
    obtain rfl := Except.ok.inj h
    exact .insert (Set.mem_singleton l) (hnot b)
  | some n =>
    rw [hn] at h
    cases n with
    | file _ =>
      obtain rfl := Except.ok.inj h
      exact .insert (Set.mem_singleton l) (hnot b)
    | directory => cases h
    | link o => exact absurd (by rw [FileTree.isLink, hn]) hlink

theorem rename_sameOutside {tree tree' : FileTree Text Bytes} {l k : Location}
    (hlink : ¬ tree.isLink l) (h : rename tree l k = .ok tree') :
    tree.SameOutside {k, l} tree' := by
  unfold rename at h
  split_ifs at h
  split at h
  · cases h
  · rename_i n hn
    cases h
    have hnot : ∀ o, n ≠ .link o := by
      rintro o rfl
      exact hlink (by simp [FileTree.isLink, hn])
    exact (FileTree.SameOutside.erase (by simp)).trans (.insert (by simp) hnot)

/-- The restoration of a file changes that file and the name its temporary file has. -/
theorem restoreFile_sameOutside (host : Host) (tree : FileTree Text Bytes) (p : Text) (target : Location)
    (b : Bytes) (hlink : ¬ tree.isLink (rollbackTemporary target)) :
    tree.SameOutside {target, rollbackTemporary target}
      (restoreFile host tree p target b).1 := by
  unfold restoreFile
  have hdirs := FileTree.SameOutside.makeDirectories
    (S := {target, rollbackTemporary target})
    (fun d => host.fails (.restoreMkdir d) p) tree (FileTree.parents target)
  split
  · rename_i tree' e heq; rwa [heq] at hdirs
  · rename_i tree' heq
    rw [heq] at hdirs
    have hlink' : ¬ tree'.isLink (rollbackTemporary target) := fun h => hlink (hdirs.links _ h)
    split
    · exact hdirs
    · rename_i tree'' hwrite
      have hw := writeBytes_sameOutside hlink' hwrite
      have h2 := hdirs.trans (hw.mono (by simp))
      have hlink'' : ¬ tree''.isLink (rollbackTemporary target) := fun h => hlink' (hw.links _ h)
      split_ifs
      · exact h2
      · split
        · exact h2
        · rename_i final hren
          exact h2.trans (rename_sameOutside hlink'' hren)

theorem unlinkIfPresent_sameOutside (host : Host) (tree : FileTree Text Bytes) (p : Text) (target : Location) :
    tree.SameOutside {target} (unlinkIfPresent host tree p target).1 := by
  unfold unlinkIfPresent
  split
  · rename_i tree' h; exact .unlink (Set.mem_singleton _) h
  · exact .refl _ tree
  · exact .refl _ tree

/-- A rollback changes the snapshotted files, and the temporary names next to those that
existed, when no temporary name is a symbolic link. -/
theorem rollback_within (host : Host) (w : CaseWorkspace) {snapshots : List (Text × Option Bytes)}
    {S : Set Location} (hS : ∀ s ∈ snapshots, locate s.1 ∈ S)
    (htmp : ∀ s ∈ snapshots, s.2.isSome → rollbackTemporary (locate s.1) ∈ S ∧
      ¬ w.tree.isLink (rollbackTemporary (locate s.1))) :
    Within S w (w.rollback host snapshots).1 := by
  induction snapshots generalizing w with
  | nil => exact .refl S w
  | cons s snapshots ih =>
    obtain ⟨p, payload⟩ := s
    have hp : locate p ∈ S := hS (p, payload) List.mem_cons_self
    unfold rollback
    split
    · exact .refl S w
    · rename_i target htarget
      obtain ⟨rfl, -⟩ := resolveCasePath_eq_ok htarget
      have hstep : w.tree.SameOutside S (restoreSnapshot host w.tree p (locate p) payload).1 := by
        cases payload with
        | none => exact (unlinkIfPresent_sameOutside host w.tree p _).mono (by simpa using hp)
        | some data =>
          obtain ⟨ht, hl⟩ := htmp (p, some data) List.mem_cons_self rfl
          exact (restoreFile_sameOutside host w.tree p _ data hl).mono
            (by simp [Set.insert_subset_iff, hp, ht])
      split
      · rename_i heq
        rw [heq] at hstep
        exact .ofTree hstep
      · rename_i tree heq
        rw [heq] at hstep
        refine (Within.ofTree hstep).trans (ih _ (fun s hs => hS s (List.mem_cons_of_mem _ hs)) ?_)
        intro s hs hsome
        obtain ⟨ht, hl⟩ := htmp s (List.mem_cons_of_mem _ hs) hsome
        exact ⟨ht, fun h => hl (hstep.links _ h)⟩

/-! ### What a mutation refuses -/

theorem validateCandidateText_eq_ok {p c : Text} {d : Digest}
    (h : w.validateCandidateText host p c = .ok d) :
    d = ⟨encode c⟩ ∧ stripBy (· == '/') p ∉ w.assetPaths ∧
      (encode c).length ≤ w.maxFileBytes := by
  unfold validateCandidateText at h
  split_ifs at h with hnul hlen
  split at h
  · cases h
  · split at h
    · cases h
    · rename_i n hn
      obtain rfl := normalizedText_eq_ok hn
      split_ifs at h with hasset
      split at h
      · cases h
      · cases h
        exact ⟨rfl, hasset, not_lt.1 hlen⟩

/-- A bundle without failures names no asset by its registered text, and no text of it
exceeds the limit. -/
theorem of_candidateSizes {files : List (Text × Text)}
    (h : (w.candidateSizes host files).1 = []) :
    ∀ c ∈ files, stripBy (· == '/') c.1 ∉ w.assetPaths ∧
      (encode c.2).length ≤ w.maxFileBytes := by
  induction files with
  | nil => simp
  | cons c files ih =>
    obtain ⟨p, content⟩ := c
    unfold candidateSizes at h
    dsimp only at h
    split at h
    · cases h
    · rename_i n hn
      split at h
      · cases h
      · rename_i d hd
        have htail : (w.candidateSizes host files).1 = [] := by
          split_ifs at h <;> exact h
        have hhead := (validateCandidateText_eq_ok hd).2
        rw [normalizedText_eq_ok hn, stripBy_stripBy] at hhead
        intro c hc
        rcases List.mem_cons.1 hc with rfl | hc
        · exact hhead
        · exact ih htail c hc

theorem candidateSizes_of_validateCandidateBundle {files : List (Text × Text)}
    {dropPaths : List Text} (h : w.validateCandidateBundle host files dropPaths = .ok []) :
    (w.candidateSizes host files).1 = [] := by
  unfold validateCandidateBundle at h
  split at h
  · cases h
  · rename_i heq; rw [heq]

theorem checkDrop_eq_ok {path : Text} (h : w.checkDrop path = .ok ()) :
    path ∉ w.assetPaths ∧ path ∈ w.authoredPaths := by
  unfold checkDrop at h
  split_ifs at h with ha hd
  exact ⟨ha, hd⟩

/-- A transaction that passes its checks writes and drops no path that names an asset by
its registered text, and writes no text above the limit. -/
theorem commitPreflight_eq_ok {changes : List (Text × Text)} {dropPaths drops : List Text}
    (h : w.commitPreflight host changes dropPaths = .ok drops) :
    (∀ c ∈ changes, stripBy (· == '/') c.1 ∉ w.assetPaths ∧
        (encode c.2).length ≤ w.maxFileBytes) ∧
      ∀ d ∈ drops, d ∉ w.assetPaths ∧ ∃ p ∈ dropPaths, d = stripBy (· == '/') p := by
  unfold commitPreflight at h
  split at h
  · cases h
  · cases h
  · rename_i hbundle
    refine ⟨of_candidateSizes
      (candidateSizes_of_validateCandidateBundle hbundle), ?_⟩
    split at h
    · cases h
    · rename_i normalizedDrops hnorm
      obtain ⟨⟨⟩, hall, h⟩ := Traversal.bind_eq_ok.1 h
      cases h
      intro d hd
      refine ⟨(checkDrop_eq_ok (Traversal.ok_of_forM hall hd)).1, ?_⟩
      obtain ⟨p, hp, hpn⟩ := Traversal.ok_of_mem_mapM hnorm (List.mem_eraseDups.1 hd)
      exact ⟨p, hp, normalizedText_eq_ok hpn⟩

/-- Every dropped path is among the drops of a transaction that passes its checks. -/
theorem commitPreflight_drops {changes : List (Text × Text)} {dropPaths drops : List Text}
    (h : w.commitPreflight host changes dropPaths = .ok drops) :
    ∀ p ∈ dropPaths, ∃ d ∈ drops, d = stripBy (· == '/') p := by
  unfold commitPreflight at h
  split at h
  · cases h
  · cases h
  · split at h
    · cases h
    · rename_i normalizedDrops hnorm
      obtain ⟨⟨⟩, -, h⟩ := Traversal.bind_eq_ok.1 h
      cases h
      intro p hp
      obtain ⟨d, hd, hpd⟩ := Traversal.exists_mem_of_mapM hnorm hp
      exact ⟨d, List.mem_eraseDups.2 hd, normalizedText_eq_ok hpd⟩

theorem snapshots_of_mapM {paths : List Text} {snapshots : List (Text × Option Bytes)}
    (h : paths.mapM w.snapshot = .ok snapshots) :
    ∀ s ∈ snapshots, s.1 ∈ paths ∧ s.2 = w.tree.fileAt (locate s.1) := by
  intro s hs
  obtain ⟨p, hp, hsnap⟩ := Traversal.ok_of_mem_mapM h hs
  unfold snapshot at hsnap
  split at hsnap
  · cases hsnap
  · rename_i target htarget
    obtain ⟨rfl, -⟩ := resolveCasePath_eq_ok htarget
    cases hsnap
    exact ⟨hp, rfl⟩

/-- The files a transaction touches, and the temporary names next to those that exist. -/
def transactionFootprint (w : CaseWorkspace) (ps : List Text) : Set Location :=
  {l | ∃ p ∈ ps, l = locate p ∨ (w.tree.isFile (locate p) ∧ l = rollbackTemporary (locate p))}

theorem commitOrRollback_within {changes : List (Text × Text)} {drops : List Text}
    {snapshots : List (Text × Option Bytes)}
    (hsnap : (touchedPaths host changes drops).mapM w.snapshot = .ok snapshots)
    (hlink : ∀ p ∈ changes.map Prod.fst ++ drops, w.tree.isFile (locate p) →
      ¬ w.tree.isLink (rollbackTemporary (locate p))) :
    Within (transactionFootprint w (changes.map Prod.fst ++ drops)) w
      (w.commitOrRollback host changes drops snapshots).1 := by
  have htouched : ∀ p ∈ touchedPaths host changes drops, p ∈ changes.map Prod.fst ++ drops :=
    fun p hp => List.mem_dedup.1 ((host.arrange_perm _).mem_iff.1 hp)
  have hforward := commitForward_within host w
    (S := transactionFootprint w (changes.map Prod.fst ++ drops))
    (fun c hc => ⟨c.1, List.mem_append_left _ (List.mem_map_of_mem hc), .inl rfl⟩)
    (fun p hp => ⟨p, List.mem_append_right _ hp, .inl rfl⟩)
  unfold commitOrRollback
  split
  · rename_i w' digests heq; rwa [heq] at hforward
  · rename_i w' e heq
    rw [heq] at hforward
    have hreset : Within (transactionFootprint w (changes.map Prod.fst ++ drops)) w
        { w' with authoredPaths := w.authoredPaths } := hforward.withAuthored w.authoredPaths
    have hback := rollback_within host { w' with authoredPaths := w.authoredPaths }
      (S := transactionFootprint w (changes.map Prod.fst ++ drops))
      (fun s hs => ⟨s.1, htouched _ (snapshots_of_mapM hsnap s hs).1, .inl rfl⟩)
      (fun s hs hsome => by
        obtain ⟨hmem, hpayload⟩ := snapshots_of_mapM hsnap s hs
        have hfile : w.tree.isFile (locate s.1) := by rwa [FileTree.isFile, ← hpayload]
        exact ⟨⟨s.1, htouched _ hmem, .inr ⟨hfile, rfl⟩⟩,
          fun h => hlink _ (htouched _ hmem) hfile (hforward.tree.links _ h)⟩)
    split
    · rename_i w'' e' heq'
      rw [heq'] at hback
      exact hreset.trans hback
    · rename_i w'' heq'
      rw [heq'] at hback
      exact hreset.trans hback

/-! ### Limits -/

theorem commitForward_limit (host : Host) (w : CaseWorkspace) (changes : List (Text × Text))
    (drops : List Text) : (w.commitForward host changes drops).1.maxFileBytes = w.maxFileBytes := by
  rw [(commitForward_within host w (S := Set.univ) (fun _ _ => Set.mem_univ _)
    fun _ _ => Set.mem_univ _).settled]

theorem rollback_limit (host : Host) (w : CaseWorkspace) (snapshots : List (Text × Option Bytes)) :
    (w.rollback host snapshots).1.maxFileBytes = w.maxFileBytes := by
  induction snapshots generalizing w with
  | nil => rfl
  | cons s snapshots ih =>
    unfold rollback
    split
    · rfl
    · split
      · rfl
      · exact ih _

/-- No transaction changes the file limit of the workspace, whether it returns or raises. -/
theorem commitTextTransaction_limit (host : Host) (w : CaseWorkspace)
    (changes : List (Text × Text)) (drops : List Text) :
    (w.commitTextTransaction host changes drops).1.maxFileBytes = w.maxFileBytes := by
  unfold commitTextTransaction
  split
  · rfl
  · split
    · rfl
    · rename_i drops' _ _ snapshots _
      have hforward := commitForward_limit host w changes drops'
      unfold commitOrRollback
      split
      · rename_i heq; rwa [heq] at hforward
      · rename_i w' e heq
        rw [heq] at hforward
        have hback := rollback_limit host { w' with authoredPaths := w.authoredPaths } snapshots
        split
        · rename_i heq'; rw [heq'] at hback; exact hback.trans hforward
        · rename_i heq'; rw [heq'] at hback; exact hback.trans hforward

/-! ### Single mutations that return -/

theorem atomicWrite_ok {w w' : CaseWorkspace} {p c : Text} {target : Location}
    (h : w.atomicWrite host p target c = (w', .ok ())) :
    w'.tree.fileAt target = some (encode c) := by
  unfold atomicWrite at h
  split at h
  · cases h
  · split at h
    · cases h
    · rename_i tree' hrep
      cases h
      unfold FileTree.replaceFile at hrep
      split_ifs at hrep
      cases hrep
      exact FileTree.fileAt_insert_self _ _ _

theorem writeText_ok {w w' : CaseWorkspace} {p c : Text} {d : Digest}
    (h : w.writeText host p c = (w', .ok d)) :
    d = ⟨encode c⟩ ∧ w'.tree.fileAt (locate p) = some (encode c) := by
  unfold writeText at h
  split at h
  · cases h
  · rename_i digest hdigest
    split at h
    · cases h
    · rename_i path hpath
      obtain ⟨rfl, -⟩ := resolveCasePath_eq_ok hpath
      split at h
      · cases h
      · rename_i w₁ hwrite
        split at h
        · cases h
        · cases h
          have hfile := atomicWrite_ok hwrite
          exact ⟨(validateCandidateText_eq_ok hdigest).1, hfile⟩

theorem patchTextOnce_ok {w w' : CaseWorkspace} {p old new : Text} {d : Digest}
    (h : w.patchTextOnce host p old new = (w', .ok d)) :
    w'.tree.fileAt (locate p) = some d.preimage := by
  unfold patchTextOnce at h
  split_ifs at h
  · cases h
  · split at h
    · cases h
    · split_ifs at h
      · cases h
      · cases h
      · obtain ⟨rfl, hfile⟩ := writeText_ok h
        exact hfile

theorem delete_ok {w w' : CaseWorkspace} {p : Text} (h : w.delete host p = (w', .ok ())) :
    w'.tree.fileAt (locate p) = none := by
  unfold delete at h
  split at h
  · cases h
  · rename_i n hn
    split at h
    · cases h
    · rename_i path hpath
      obtain ⟨rfl, -⟩ := resolveCasePath_eq_ok hpath
      rw [normalizedText_eq_ok hn, locate_stripBy] at h
      split_ifs at h
      · cases h
      · split at h
        · cases h
        · rename_i tree hunlink
          have hroot : [] ∉ (FileTree.parents (locate p)).reverse := by
            simpa using FileTree.nil_notMem_parents (locate p)
          have hdirs := FileTree.SameOutside.removeEmptyDirectories (S := ∅)
            (fun d => host.fails (.rmdir d) p) tree hroot
          obtain rfl := congrArg Prod.fst h
          refine (hdirs.files _ (Set.notMem_empty _)).trans ?_
          unfold FileTree.unlink at hunlink
          split_ifs at hunlink
          cases hunlink
          exact FileTree.fileAt_erase_self _ _

/-! ### Mutations that raise -/

theorem atomicWrite_error {w w' : CaseWorkspace} {p c : Text} {target : Location} {e : CaseError}
    (h : w.atomicWrite host p target c = (w', .error e)) (l : Location) :
    w'.tree.fileAt l = w.tree.fileAt l := by
  have hdirs := FileTree.SameOutside.makeDirectories (S := ∅)
    (fun d => host.fails (.mkdir d) p) w.tree (FileTree.parents target)
  unfold atomicWrite at h
  split at h
  · rename_i tree e' heq
    cases h
    rw [heq] at hdirs
    exact hdirs.files l (Set.notMem_empty l)
  · rename_i tree heq
    rw [heq] at hdirs
    split at h
    · cases h
      exact hdirs.files l (Set.notMem_empty l)
    · cases h

/-- After `write_text`, whether it raises or not, the file holds what it held or the new text. -/
theorem writeText_file (host : Host) (w : CaseWorkspace) (p c : Text) :
    (w.writeText host p c).1.tree.fileAt (locate p) = w.tree.fileAt (locate p) ∨
      (w.writeText host p c).1.tree.fileAt (locate p) = some (encode c) := by
  unfold writeText
  split
  · exact .inl rfl
  · split
    · exact .inl rfl
    · rename_i path hpath
      obtain ⟨rfl, -⟩ := resolveCasePath_eq_ok hpath
      split
      · rename_i w' e hwrite
        exact .inl (atomicWrite_error hwrite _)
      · rename_i w' hwrite
        have hfile := atomicWrite_ok hwrite
        split <;> exact .inr hfile

theorem resolveCasePath_of_missing {p : Text} (h : w.tree.fileAt (locate p) = none) (l : Location) :
    w.resolveCasePath p true ≠ .ok l := by
  intro hok
  obtain ⟨rfl, -, -, hfile⟩ := resolveCasePath_eq_ok hok
  have hsome := hfile rfl
  rw [FileTree.isFile, h] at hsome
  cases hsome

/-- The file that a check misses is not there. -/
theorem not_isFile_of_missing {p q : Text} {mustExist : Bool}
    (h : w.resolveCasePath p mustExist = .error (.missing q)) : ¬ w.tree.isFile (locate p) := by
  unfold resolveCasePath at h
  split at h
  · cases h
  · rename_i l hl
    obtain ⟨rfl, -⟩ := validateRelative_eq_ok hl
    split_ifs at h with hlink hfile
    · cases h
    · exact hfile.2

/-- A patch of a file that is not there changes nothing. -/
theorem patchTextOnce_of_missing (host : Host) {p old new : Text}
    (h : w.tree.fileAt (locate p) = none) : (w.patchTextOnce host p old new).1 = w := by
  unfold patchTextOnce
  split_ifs
  · rfl
  · split
    · rfl
    · rename_i current hread
      unfold readText at hread
      obtain ⟨l, hl, -⟩ := Traversal.bind_eq_ok.1 hread
      exact absurd hl (resolveCasePath_of_missing h l)

/-- A delete of a file that is not there changes nothing. -/
theorem delete_of_missing (host : Host) {p : Text} (h : w.tree.fileAt (locate p) = none) :
    (w.delete host p).1 = w := by
  unfold delete
  split
  · rfl
  · rename_i n hn
    split
    · rfl
    · rename_i l hl
      obtain rfl := normalizedText_eq_ok hn
      exact absurd hl (resolveCasePath_of_missing (by rwa [locate_stripBy]) l)

/-! ### Transactions that return -/

/-- The places the changed texts of a transaction go to. -/
def places (changes : List (Text × Text)) : List Location := changes.map fun c => locate c.1

theorem locate_mem_places (changes : List (Text × Text)) :
    ∀ c ∈ changes, locate c.1 ∈ {l | l ∈ places changes} := by
  intro c hc
  exact List.mem_map.2 ⟨c, hc, rfl⟩

/-- The changes give each place one text. -/
def Consistent (changes : List (Text × Text)) : Prop :=
  ∀ x ∈ changes, ∀ y ∈ changes, locate x.1 = locate y.1 → x.2 = y.2

theorem Consistent.tail {c : Text × Text} {changes : List (Text × Text)}
    (h : Consistent (c :: changes)) : Consistent changes :=
  fun x hx y hy => h x (List.mem_cons_of_mem _ hx) y (List.mem_cons_of_mem _ hy)

theorem consistent_of_nodup {changes : List (Text × Text)} (h : (places changes).Nodup) :
    Consistent changes := by
  intro x hx y hy heq
  rw [List.inj_on_of_nodup_map h hx hy heq]

/-- After the writes of a transaction that gives each place one text, every file named holds
its new text. -/
theorem commitWrites_ok {w w' : CaseWorkspace} {changes : List (Text × Text)}
    {digests : List (Text × Digest)} (hcons : Consistent changes)
    (h : w.commitWrites host changes = (w', .ok digests)) :
    ∀ c ∈ changes, w'.tree.fileAt (locate c.1) = some (encode c.2) := by
  induction changes generalizing w digests with
  | nil => simp
  | cons c changes ih =>
    obtain ⟨p, content⟩ := c
    unfold commitWrites at h
    split at h
    · cases h
    · rename_i target htarget
      obtain ⟨rfl, -⟩ := resolveCasePath_eq_ok htarget
      split at h
      · cases h
      · rename_i w₁ hwrite
        split at h
        · cases h
        · rename_i w₂ digests' hrest
          cases h
          intro c hc
          rcases List.mem_cons.1 hc with rfl | hc
          · by_cases hlater : locate p ∈ places changes
            · -- a later write to the place has the same text
              obtain ⟨x, hx, heq⟩ := List.mem_map.1 hlater
              have htext : x.2 = content :=
                hcons x (List.mem_cons_of_mem _ hx) _ List.mem_cons_self heq
              rw [← htext, ← heq]
              exact ih hcons.tail hrest x hx
            · have hwithin := commitWrites_within host (w₁.author p) (locate_mem_places changes)
              rw [hrest] at hwithin
              have hfile : w₁.tree.fileAt (locate p) = some (encode content) :=
                atomicWrite_ok hwrite
              exact (hwithin.tree.files _ hlater).trans hfile
          · exact ih hcons.tail hrest c hc

/-- The steps of a transaction that returns. -/
theorem commitTextTransaction_steps {w w' : CaseWorkspace} {changes : List (Text × Text)}
    {dropPaths : List Text} {digests : List (Text × Digest)}
    (h : w.commitTextTransaction host changes dropPaths = (w', .ok digests)) :
    ∃ drops w₁, w.commitPreflight host changes dropPaths = .ok drops ∧
      w.commitWrites host changes = (w₁, .ok digests) ∧
      w₁.commitDrops host drops = (w', .ok ()) := by
  unfold commitTextTransaction at h
  split at h
  · cases h
  · rename_i drops hpre
    split at h
    · cases h
    · unfold commitOrRollback at h
      split at h
      · rename_i w₁ digests' hforward
        cases h
        unfold commitForward at hforward
        split at hforward
        · cases hforward
        · rename_i w₂ digests'' hwrites
          split at hforward
          · cases hforward
          · rename_i w₃ hdropped
            split at hforward
            · cases hforward
            · cases hforward
              exact ⟨drops, w₂, hpre, hwrites, hdropped⟩
      · split at h <;> cases h

/-- After the drops of a transaction no dropped path names a file. -/
theorem commitDrops_ok {w w' : CaseWorkspace} {drops : List Text}
    (h : w.commitDrops host drops = (w', .ok ())) :
    ∀ p ∈ drops, w'.tree.fileAt (locate p) = none := by
  induction drops generalizing w with
  | nil => simp
  | cons p drops ih =>
    unfold commitDrops at h
    split at h
    · cases h
    · rename_i target htarget
      obtain ⟨rfl, -⟩ := resolveCasePath_eq_ok htarget
      split at h
      · cases h
      · rename_i tree hunlink
        intro q hq
        rcases List.mem_cons.1 hq with rfl | hq
        · by_cases hmem : locate q ∈ drops.map locate
          · obtain ⟨q', hq', heq⟩ := List.mem_map.1 hmem
            rw [← heq]
            exact ih h q' hq'
          · -- the later drops leave the place alone
            have hwithin := commitDrops_within host
              { w with tree, authoredPaths := w.authoredPaths.discard q }
              (S := {l | l ∈ drops.map locate}) fun q' hq' => List.mem_map_of_mem hq'
            rw [h] at hwithin
            rw [hwithin.tree.files _ hmem]
            unfold FileTree.unlink at hunlink
            split_ifs at hunlink
            cases hunlink
            exact FileTree.fileAt_erase_self _ _
        · exact ih h q hq

/-- A transaction that returns: each text is where its path says, each dropped path names no
file, and nothing else changed. -/
theorem commitTextTransaction_returns {w w' : CaseWorkspace} {changes : List (Text × Text)}
    {dropPaths : List Text} {digests : List (Text × Digest)} (hcons : Consistent changes)
    (hdisjoint : ∀ p ∈ dropPaths, locate p ∉ places changes)
    (h : w.commitTextTransaction host changes dropPaths = (w', .ok digests)) :
    (∀ c ∈ changes, w'.tree.fileAt (locate c.1) = some (encode c.2)) ∧
      (∀ p ∈ dropPaths, w'.tree.fileAt (locate p) = none) ∧
      Within {l | l ∈ places changes ∨ l ∈ dropPaths.map locate} w w' := by
  obtain ⟨drops, w₁, hpre, hwrites, hdropped⟩ := commitTextTransaction_steps h
  have hin : ∀ d ∈ drops, locate d ∈ dropPaths.map locate := by
    intro d hd
    obtain ⟨-, p, hp, rfl⟩ := (commitPreflight_eq_ok hpre).2 d hd
    exact locate_stripBy p ▸ List.mem_map_of_mem hp
  have hwriteWithin := commitWrites_within host w (locate_mem_places changes)
  rw [hwrites] at hwriteWithin
  have hdropWithin : Within {l | l ∈ dropPaths.map locate} w₁ (w₁.commitDrops host drops).1 :=
    commitDrops_within host w₁ hin
  rw [hdropped] at hdropWithin
  refine ⟨fun c hc => ?_, fun p hp => ?_, ?_⟩
  · have hnot : locate c.1 ∉ dropPaths.map locate := by
      intro hmem
      obtain ⟨p, hp, heq⟩ := List.mem_map.1 hmem
      exact hdisjoint p hp (heq ▸ locate_mem_places changes c hc)
    exact (hdropWithin.tree.files _ hnot).trans (commitWrites_ok hcons hwrites c hc)
  · obtain ⟨d, hd, rfl⟩ := commitPreflight_drops hpre p hp
    rw [← locate_stripBy p]
    exact commitDrops_ok hdropped _ hd
  · exact (hwriteWithin.mono fun l hl => .inl hl).trans (hdropWithin.mono fun l hl => .inr hl)

/-- A transaction without drops that returns: the texts are below the limit, each file
named holds its text, and no other file changed. -/
theorem commitTextTransaction_ok {w w' : CaseWorkspace} {changes : List (Text × Text)}
    {digests : List (Text × Digest)} (hnd : (places changes).Nodup)
    (h : w.commitTextTransaction host changes [] = (w', .ok digests)) :
    (∀ c ∈ changes, (encode c.2).length ≤ w.maxFileBytes) ∧
      (∀ c ∈ changes, w'.tree.fileAt (locate c.1) = some (encode c.2)) ∧
      Within {l | l ∈ places changes} w w' := by
  have hsizes : ∀ c ∈ changes, (encode c.2).length ≤ w.maxFileBytes := by
    obtain ⟨drops, w₁, hpre, -, -⟩ := commitTextTransaction_steps h
    exact fun c hc => ((commitPreflight_eq_ok hpre).1 c hc).2
  obtain ⟨hfiles, -, hwithin⟩ :=
    commitTextTransaction_returns (consistent_of_nodup hnd) (fun _ hp => absurd hp List.not_mem_nil) h
  exact ⟨hsizes, hfiles, hwithin.mono fun l hl => hl.resolve_right List.not_mem_nil⟩

theorem commitWrites_committed {w w' : CaseWorkspace} {changes : List (Text × Text)}
    {digests : List (Text × Digest)} (h : w.commitWrites host changes = (w', .ok digests)) :
    digests = changes.map (fun c => (stripBy (· == '/') c.1, ⟨encode c.2⟩)) ∧
      ∀ c ∈ changes, ∃ l, validateRelative c.1 = .ok l := by
  induction changes generalizing w digests with
  | nil =>
    cases h
    exact ⟨rfl, fun _ hc => absurd hc List.not_mem_nil⟩
  | cons c changes ih =>
    obtain ⟨p, content⟩ := c
    unfold commitWrites at h
    split at h
    · cases h
    · rename_i target htarget
      split at h
      · cases h
      · split at h
        · cases h
        · rename_i w₂ digests' hrest
          cases h
          obtain ⟨htail, hvalid⟩ := ih hrest
          have hhead : ∃ l, validateRelative p = .ok l := by
            unfold resolveCasePath at htarget
            split at htarget
            · cases htarget
            · rename_i l hl
              exact ⟨l, hl⟩
          exact ⟨by rw [htail, List.map_cons], List.forall_mem_cons.2 ⟨hhead, hvalid⟩⟩

/-- What a transaction that returns reports, and that the workspace accepts its paths. -/
theorem commitTextTransaction_committed {w w' : CaseWorkspace} {changes : List (Text × Text)}
    {drops : List Text} {digests : List (Text × Digest)}
    (h : w.commitTextTransaction host changes drops = (w', .ok digests)) :
    digests = changes.map (fun c => (stripBy (· == '/') c.1, ⟨encode c.2⟩)) ∧
      ∀ c ∈ changes, ∃ l, validateRelative c.1 = .ok l := by
  obtain ⟨_, _, -, hwrites, -⟩ := commitTextTransaction_steps h
  exact commitWrites_committed hwrites

end CaseWorkspace

end Workspace
end OpenFoamAgent
