/-
# What a failed transaction leaves

`commit_text_transaction` puts back the files it touched when its loop raises. It
puts a file back by way of `.NAME.rollback.tmp` next to it, and an absent one by
`unlink(missing_ok=True)`, which raises on a directory and below a file. So a
failed transaction leaves every file as it was when the places it names can be
put back one by one (`Restorable`, `commitTextTransaction_allOrNothing`), and may
stop half-way where one of them cannot (`directory_cuts_rollback`).
-/
import OpenFoamAgent.Library.Drift
import OpenFoamAgent.Workspace.Transactions

namespace OpenFoamAgent
namespace Workspace

open Python Schemas

variable {host : Host} {w w' : CaseWorkspace} {P : Set Location}

/-- The host carries out the calls of a rollback. -/
def Host.Restores (host : Host) : Prop :=
  ∀ p, host.fails .restore p = false ∧ host.fails .restoreUnlink p = false ∧
    ∀ d, host.fails (.restoreMkdir d) p = false

namespace CaseWorkspace

/-- The places a transaction names. -/
def requested (changes : List (Text × Text)) (dropPaths : List Text) : Set Location :=
  {l | l ∈ places changes ∨ l ∈ dropPaths.map locate}

/-- The places can be put back one by one: none is a directory, none lies below a file or below
another, and the temporary name next to a file is free and no directory on the way to one. -/
structure Restorable (w : CaseWorkspace) (P : Set Location) : Prop where
  notDirectory : ∀ l ∈ P, ¬ w.tree.isDirectory l
  notBelowFile : ∀ l ∈ P, ¬ w.tree.belowFile l
  apart : ∀ l ∈ P, ∀ k ∈ FileTree.parents l, k ∉ P
  temporary : ∀ l ∈ P, w.tree.isFile l → w.tree.lookup (rollbackTemporary l) = none ∧
    ∀ k ∈ P, rollbackTemporary l ∉ FileTree.parents k

/-- What a transaction promises: every file and the tracked paths are as before when it raises;
when it returns, the requested places hold what was requested, every other file is as before, and
the written paths are tracked and the dropped ones are not. -/
def AllOrNothing (w : CaseWorkspace) (changes : List (Text × Text)) (dropPaths : List Text) :
    Outcome (List (Text × Digest)) → Prop
  | (w', .error _) =>
    (∀ l, w'.tree.fileAt l = w.tree.fileAt l) ∧ w'.authoredPaths = w.authoredPaths
  | (w', .ok _) =>
    (∀ l, w'.tree.fileAt l = if l ∈ dropPaths.map locate then none
      else (lastText changes l).elim (w.tree.fileAt l) fun t => some (encode t)) ∧
    ∀ p, p ∈ w'.authoredPaths ↔
      (p ∈ w.authoredPaths ∨ ∃ c ∈ changes, stripBy (· == '/') c.1 = p) ∧
        p ∉ dropPaths.map (stripBy (· == '/'))

/-! ### The commit loop -/

theorem atomicWrite_drift {t : FileTree Text Bytes} {l : Location} (host : Host)
    (p content : Text) (h : t.Drift P w.tree) (hfree : t.Free P) (hl : l ∈ P) :
    t.Drift P (w.atomicWrite host p l content).1.tree := by
  have hdirs := h.makeDirectories hfree hl (fun d => host.fails (.mkdir d) p)
    (fun k (hk : k ∈ FileTree.parents l) => hk)
  unfold atomicWrite
  split
  · rename_i heq
    rwa [heq] at hdirs
  · rename_i tree heq
    rw [heq] at hdirs
    split
    · exact hdirs
    · rename_i tree' hreplace
      exact hdirs.replaceFile hl hreplace

theorem commitWrites_drift {t : FileTree Text Bytes} {changes : List (Text × Text)}
    (host : Host) (h : t.Drift P w.tree) (hfree : t.Free P) (hP : ∀ c ∈ changes, locate c.1 ∈ P) :
    t.Drift P (w.commitWrites host changes).1.tree := by
  induction changes generalizing w with
  | nil => exact h
  | cons c changes ih =>
    obtain ⟨p, content⟩ := c
    unfold commitWrites
    split
    · exact h
    · rename_i target htarget
      obtain ⟨rfl, -⟩ := resolveCasePath_eq_ok htarget
      have hwrite := atomicWrite_drift host p content h hfree (hP (p, content) List.mem_cons_self)
      split
      · rename_i heq
        rwa [heq] at hwrite
      · rename_i w₁ heq
        rw [heq] at hwrite
        have hrest := ih (w := w₁.author p) hwrite fun c hc => hP c (List.mem_cons_of_mem _ hc)
        split
        · rename_i heq'
          rwa [heq'] at hrest
        · rename_i heq'
          rwa [heq'] at hrest

theorem commitDrops_drift {t : FileTree Text Bytes} {drops : List Text} (host : Host)
    (h : t.Drift P w.tree) (hP : ∀ p ∈ drops, locate p ∈ P) :
    t.Drift P (w.commitDrops host drops).1.tree := by
  induction drops generalizing w with
  | nil => exact h
  | cons p drops ih =>
    unfold commitDrops
    split
    · exact h
    · rename_i target htarget
      obtain ⟨rfl, -⟩ := resolveCasePath_eq_ok htarget
      split
      · exact h
      · rename_i tree hunlink
        exact ih (h.unlink (hP p List.mem_cons_self) hunlink)
          fun q hq => hP q (List.mem_cons_of_mem _ hq)

/-- Wherever the loop stops, the tree has drifted at the requested places only. -/
theorem commitForward_drift {changes : List (Text × Text)} {drops : List Text} (host : Host)
    (hfree : w.tree.Free P) (hchanges : ∀ c ∈ changes, locate c.1 ∈ P)
    (hdrops : ∀ p ∈ drops, locate p ∈ P) :
    w.tree.Drift P (w.commitForward host changes drops).1.tree := by
  have hwrites := commitWrites_drift host (.refl P w.tree) hfree hchanges
  unfold commitForward
  split
  · rename_i heq
    rwa [heq] at hwrites
  · rename_i w₁ digests heq
    rw [heq] at hwrites
    have hdropped := commitDrops_drift host hwrites hdrops
    split
    · rename_i heq'
      rwa [heq'] at hdropped
    · rename_i heq'
      rw [heq'] at hdropped
      split <;> exact hdropped

/-! ### The rollback -/

theorem rollbackTemporary_ne (l : Location) : rollbackTemporary l ≠ l := by
  intro h
  have hlast := congrArg (fun k => (List.getLastD k []).length) h
  simp only [rollbackTemporary, List.getLastD_concat, List.length_append, List.length_cons] at hlast
  omega

/-- A place of the request can be put back, and the places that are as before stay so. -/
theorem restoreSnapshot_ok {t tree : FileTree Text Bytes} {p : Text} {l : Location}
    (hhost : host.Restores) (h : t.Drift P tree) (hfree : t.Free P) (hl : l ∈ P)
    (htemporary : t.isFile l → t.lookup (rollbackTemporary l) = none ∧
      ∀ k ∈ P, rollbackTemporary l ∉ FileTree.parents k) :
    ∃ tree', restoreSnapshot host tree p l (t.fileAt l) = (tree', .ok ()) ∧ t.Drift P tree' ∧
      tree'.fileAt l = t.fileAt l ∧
      ∀ k ∈ P, tree.fileAt k = t.fileAt k → tree'.fileAt k = t.fileAt k := by
  obtain ⟨hrestore, hunlinks, hmkdirs⟩ := hhost p
  rcases hbefore : t.fileAt l with _ | b
  · show ∃ tree', unlinkIfPresent host tree p l = _ ∧ _
    unfold unlinkIfPresent
    rw [hunlinks]
    rcases h.unlink_ok hfree hl with hok | ⟨hmissing, hnone⟩
    · rw [hok]
      refine ⟨_, rfl, h.erase hl, FileTree.fileAt_erase_self _ _, fun k _ hk => ?_⟩
      by_cases hkl : k = l
      · rw [hkl, FileTree.fileAt_erase_self, hbefore]
      · rw [FileTree.fileAt_erase_of_ne _ hkl, hk]
    · rw [hmissing]
      exact ⟨tree, rfl, h, by rw [FileTree.fileAt, hnone], fun _ _ hk => hk⟩
  · obtain ⟨hfreeName, hnoParent⟩ := htemporary (by rw [FileTree.isFile, hbefore]; rfl)
    obtain ⟨tree₁, hdirs, hdrift, hfiles, -⟩ := h.makeDirectories_ok hfree hl
      (fun d => host.fails (.restoreMkdir d) p) hmkdirs
      (fun k (hk : k ∈ FileTree.parents l) => hk)
    -- the temporary name holds a file of the transaction or nothing
    have hname : writeBytes tree₁ (rollbackTemporary l) b =
        .ok (tree₁.insert (rollbackTemporary l) (.file b)) := by
      unfold writeBytes
      rcases hdrift (rollbackTemporary l) with hsame | ⟨-, hfile⟩ | ⟨-, -, k, hk, hparent⟩
      · rw [hsame, hfreeName]
      · rcases hnode : tree₁.lookup (rollbackTemporary l) with _ | n
        · rfl
        · obtain ⟨c, rfl⟩ := hfile n hnode
          rfl
      · exact absurd hparent (hnoParent k hk)
    set tree₂ : FileTree Text Bytes := tree₁.insert (rollbackTemporary l) (.file b) with htree₂
    have htarget : ¬ tree₂.isDirectory l := by
      have hlookup : tree₂.lookup l = tree₁.lookup l :=
        AList.lookup_insert_ne (rollbackTemporary_ne l).symm
      have hdirectory := hdrift.isDirectory hfree hl
      unfold FileTree.isDirectory at hdirectory ⊢
      rwa [hlookup]
    have hrename : rename tree₂ (rollbackTemporary l) l =
        .ok ((tree₂.erase (rollbackTemporary l)).insert l (.file b)) := by
      unfold rename
      rw [if_neg htarget, htree₂, AList.lookup_insert]
    have herased : t.Drift P (tree₂.erase (rollbackTemporary l)) := by
      intro k
      by_cases hk : k = rollbackTemporary l
      · rw [hk, AList.lookup_erase, hfreeName]
        exact .inl rfl
      · rw [AList.lookup_erase_ne hk, htree₂, AList.lookup_insert_ne hk]
        exact hdrift k
    refine ⟨(tree₂.erase (rollbackTemporary l)).insert l (.file b), ?_, herased.insert hl b,
      FileTree.fileAt_insert_self _ _ _, fun k hk hkept => ?_⟩
    · show restoreFile host tree p l b = _
      unfold restoreFile
      rw [hdirs]
      dsimp only
      rw [hname]
      dsimp only
      rw [hrestore, hrename]
      rfl
    · by_cases hkl : k = l
      · rw [hkl, FileTree.fileAt_insert_self, hbefore]
      rw [FileTree.fileAt_insert_of_ne _ _ hkl]
      by_cases hkt : k = rollbackTemporary l
      · rw [hkt, FileTree.fileAt_erase_self, FileTree.fileAt, hfreeName]
      · rw [FileTree.fileAt_erase_of_ne _ hkt, htree₂, FileTree.fileAt_insert_of_ne _ _ hkt,
          hfiles, hkept]

/-- A text that resolved does so in a tree without new links. -/
theorem resolveCasePath_of_isLink {p : Text} {l : Location}
    (h : w.resolveCasePath p false = .ok l)
    (hlinks : ∀ k, w'.tree.isLink k → w.tree.isLink k) :
    w'.resolveCasePath p false = .ok l := by
  unfold resolveCasePath at h ⊢
  split at h
  · cases h
  · split_ifs at h with hlink
    · rw [if_neg, if_neg (fun hmust => Bool.false_ne_true hmust.1), h]
      intro hon
      obtain ⟨k, hk, hkl⟩ := List.any_eq_true.1 hon
      exact hlink (List.any_eq_true.2 ⟨k, hk, hlinks k hkl⟩)

/-- **The rollback returns** on every tree the loop can leave, and puts every place back. -/
theorem rollback_ok (hhost : host.Restores) (hfree : w.tree.Free P) (hP : w.Restorable P)
    {snapshots : List (Text × Option Bytes)}
    (hsnap : ∀ s ∈ snapshots, locate s.1 ∈ P ∧ s.2 = w.tree.fileAt (locate s.1) ∧
      w.resolveCasePath s.1 false = .ok (locate s.1))
    (h : w.tree.Drift P w'.tree) :
    ∃ w'', w'.rollback host snapshots = (w'', .ok ()) ∧ w.tree.Drift P w''.tree ∧
      w''.authoredPaths = w'.authoredPaths ∧
      (∀ s ∈ snapshots, w''.tree.fileAt (locate s.1) = w.tree.fileAt (locate s.1)) ∧
      ∀ k ∈ P, w'.tree.fileAt k = w.tree.fileAt k → w''.tree.fileAt k = w.tree.fileAt k := by
  induction snapshots generalizing w' with
  | nil => exact ⟨w', rfl, h, rfl, nofun, fun _ _ hk => hk⟩
  | cons s snapshots ih =>
    obtain ⟨p, payload⟩ := s
    obtain ⟨hp, hpayload, hresolve⟩ := hsnap (p, payload) List.mem_cons_self
    obtain rfl : payload = w.tree.fileAt (locate p) := hpayload
    obtain ⟨tree, hstep, hdrift, hself, hkept⟩ := restoreSnapshot_ok (p := p) hhost h hfree hp
      (hP.temporary _ hp)
    have hnext : w.tree.Drift P ({ w' with tree } : CaseWorkspace).tree := hdrift
    obtain ⟨w'', hrest, hdrift', hauthored, hall, hkept'⟩ :=
      ih (fun s hs => hsnap s (List.mem_cons_of_mem _ hs)) hnext
    refine ⟨w'', ?_, hdrift', hauthored, fun s hs => ?_, fun k hk hsame =>
      hkept' k hk (hkept k hk hsame)⟩
    · unfold rollback
      rw [resolveCasePath_of_isLink hresolve fun k hk => h.isLink hk]
      dsimp only
      rw [hstep]
      exact hrest
    · rcases List.mem_cons.1 hs with rfl | hs
      · exact hkept' _ hp hself
      · exact hall s hs

/-! ### The tracked paths -/

theorem atomicWrite_authored {p content : Text} {l : Location}
    (h : w.atomicWrite host p l content = (w', .ok ())) :
    w'.authoredPaths = w.authoredPaths := by
  unfold atomicWrite at h
  split at h
  · cases h
  · split at h
    · cases h
    · cases h
      rfl

theorem commitWrites_authored {changes : List (Text × Text)} {digests : List (Text × Digest)}
    (h : w.commitWrites host changes = (w', .ok digests)) (p : Text) :
    p ∈ w'.authoredPaths ↔
      p ∈ w.authoredPaths ∨ ∃ c ∈ changes, stripBy (· == '/') c.1 = p := by
  induction changes generalizing w digests with
  | nil =>
    cases h
    simp
  | cons c changes ih =>
    obtain ⟨q, content⟩ := c
    unfold commitWrites at h
    split at h
    · cases h
    · split at h
      · cases h
      · rename_i w₁ hwrite
        split at h
        · cases h
        · rename_i w₂ digests' hrest
          cases h
          rw [ih hrest]
          show p ∈ w₁.authoredPaths.add (stripBy (· == '/') q) ∨ _ ↔ _
          rw [OrderedSet.mem_add, atomicWrite_authored hwrite]
          simp only [List.mem_cons, exists_eq_or_imp, eq_comm (a := p)]
          tauto

theorem commitDrops_authored {drops : List Text} (h : w.commitDrops host drops = (w', .ok ()))
    (p : Text) : p ∈ w'.authoredPaths ↔ p ∈ w.authoredPaths ∧ p ∉ drops := by
  induction drops generalizing w with
  | nil =>
    cases h
    simp
  | cons q drops ih =>
    unfold commitDrops at h
    split at h
    · cases h
    · split at h
      · cases h
      · rw [ih h, OrderedSet.mem_discard, List.mem_cons]
        tauto

/-- **The tracked paths after a transaction.** -/
theorem commitTextTransaction_authored {changes : List (Text × Text)} {dropPaths : List Text}
    {digests : List (Text × Digest)}
    (h : w.commitTextTransaction host changes dropPaths = (w', .ok digests)) (p : Text) :
    p ∈ w'.authoredPaths ↔
      (p ∈ w.authoredPaths ∨ ∃ c ∈ changes, stripBy (· == '/') c.1 = p) ∧
        p ∉ dropPaths.map (stripBy (· == '/')) := by
  obtain ⟨drops, w₁, hpre, hwrites, hdropped⟩ := commitTextTransaction_steps h
  have hmem : p ∈ drops ↔ p ∈ dropPaths.map (stripBy (· == '/')) := by
    rw [List.mem_map]
    constructor
    · intro hp
      obtain ⟨-, q, hq, rfl⟩ := (commitPreflight_eq_ok hpre).2 p hp
      exact ⟨q, hq, rfl⟩
    · rintro ⟨q, hq, rfl⟩
      obtain ⟨d, hd, rfl⟩ := commitPreflight_drops hpre q hq
      exact hd
  rw [commitDrops_authored hdropped, commitWrites_authored hwrites, hmem]

/-! ### All or nothing -/

theorem resolveCasePath_of_snapshots {paths : List Text} {snapshots : List (Text × Option Bytes)}
    (h : paths.mapM w.snapshot = .ok snapshots) :
    ∀ p ∈ paths, w.resolveCasePath p false = .ok (locate p) ∧
      ∃ s ∈ snapshots, s.1 = p := by
  intro p hp
  obtain ⟨s, hs, hsnap⟩ := Traversal.exists_mem_of_mapM h hp
  unfold snapshot at hsnap
  split at hsnap
  · cases hsnap
  · rename_i target htarget
    cases hsnap
    obtain ⟨rfl, -⟩ := resolveCasePath_eq_ok htarget
    exact ⟨htarget, _, hs, rfl⟩

/-- The touched texts name the requested places. -/
theorem mem_requested_iff {changes : List (Text × Text)} {dropPaths drops : List Text}
    (hpre : w.commitPreflight host changes dropPaths = .ok drops) (l : Location) :
    l ∈ requested changes dropPaths ↔ ∃ p ∈ touchedPaths host changes drops, locate p = l := by
  simp only [requested, places, touchedPaths, Set.mem_ofPred_eq, (host.arrange_perm _).mem_iff,
    List.mem_dedup, List.mem_append, List.mem_map]
  constructor
  · rintro (⟨c, hc, rfl⟩ | ⟨p, hp, rfl⟩)
    · exact ⟨c.1, .inl ⟨c, hc, rfl⟩, rfl⟩
    · obtain ⟨d, hd, rfl⟩ := commitPreflight_drops hpre p hp
      exact ⟨_, .inr hd, locate_stripBy p⟩
  · rintro ⟨p, ⟨c, hc, rfl⟩ | hp, rfl⟩
    · exact .inl ⟨c, hc, rfl⟩
    · obtain ⟨-, q, hq, rfl⟩ := (commitPreflight_eq_ok hpre).2 p hp
      exact .inr ⟨q, hq, (locate_stripBy q).symm⟩

/-- **A transaction whose places can be put back is all or nothing**, wherever its loop is cut
short. -/
theorem commitTextTransaction_allOrNothing {changes : List (Text × Text)} {dropPaths : List Text}
    (hhost : host.Restores) (h : w.Restorable (requested changes dropPaths)) :
    w.AllOrNothing changes dropPaths (w.commitTextTransaction host changes dropPaths) := by
  rcases hcommit : w.commitTextTransaction host changes dropPaths with ⟨w', e | digests⟩
  · unfold commitTextTransaction at hcommit
    split at hcommit
    · cases hcommit
      exact ⟨fun _ => rfl, rfl⟩
    · rename_i drops hpre
      split at hcommit
      · cases hcommit
        exact ⟨fun _ => rfl, rfl⟩
      · rename_i snapshots hsnapshots
        have hresolved := resolveCasePath_of_snapshots hsnapshots
        have hfree : w.tree.Free (requested changes dropPaths) := by
          refine ⟨h.notDirectory, h.notBelowFile, fun l hl => ?_, h.apart⟩
          obtain ⟨p, hp, rfl⟩ := (mem_requested_iff hpre l).1 hl
          exact (resolveCasePath_eq_ok (hresolved p hp).1).2.2.1
        have hdrops : ∀ d ∈ drops, locate d ∈ requested changes dropPaths := fun d hd =>
          (mem_requested_iff hpre _).2 ⟨d, (host.arrange_perm _).mem_iff.2
            (List.mem_dedup.2 (List.mem_append_right _ hd)), rfl⟩
        have hdrift := commitForward_drift host hfree
          (fun c (hc : c ∈ changes) => .inl (List.mem_map_of_mem hc)) hdrops
        unfold commitOrRollback at hcommit
        split at hcommit
        · cases hcommit
        · rename_i w₁ e₁ hforward
          rw [hforward] at hdrift
          have hreset : w.tree.Drift (requested changes dropPaths)
            ({ w₁ with authoredPaths := w.authoredPaths } : CaseWorkspace).tree := hdrift
          have hsnap : ∀ s ∈ snapshots, locate s.1 ∈ requested changes dropPaths ∧
              s.2 = w.tree.fileAt (locate s.1) ∧
              w.resolveCasePath s.1 false = .ok (locate s.1) := by
            intro s hs
            obtain ⟨hmem, hpayload⟩ := snapshots_of_mapM hsnapshots s hs
            exact ⟨(mem_requested_iff hpre _).2 ⟨s.1, hmem, rfl⟩, hpayload, (hresolved _ hmem).1⟩
          obtain ⟨w₂, hback, hdrift', hauthored, hall, -⟩ :=
            rollback_ok hhost hfree h hsnap hreset
          rw [hback] at hcommit
          cases hcommit
          refine ⟨fun l => ?_, hauthored⟩
          by_cases hl : l ∈ requested changes dropPaths
          · obtain ⟨p, hp, rfl⟩ := (mem_requested_iff hpre l).1 hl
            obtain ⟨-, s, hs, rfl⟩ := hresolved p hp
            exact hall s hs
          · exact hdrift'.fileAt_of_notMem hl
  · exact ⟨commitTextTransaction_files hcommit, commitTextTransaction_authored hcommit⟩

/-! ### Examples -/

/-- A case with a mesh directory and one dictionary. -/
def meshedCase : CaseWorkspace where
  tree := (∅ : FileTree Text Bytes)
    |>.insert ["constant".toList] .directory
    |>.insert ["constant".toList, "polyMesh".toList] .directory
    |>.insert ["system".toList] .directory
    |>.insert ["system".toList, "controlDict".toList] (.file (encode "deltaT 1;".toList))
  authoredPaths := .ofList ["system/controlDict".toList]
  assetPaths := .ofList []

/-- A host that cannot write the text `system/b`. -/
def failingHost : Host :=
  { Host.reliable with fails := fun call p => call = .write ∧ p = "system/b".toList }

/-- Two writes, of which the second fails: the first is taken back. -/
theorem commitTextTransaction_allOrNothing_second :
    let changes := [("system/controlDict".toList, "deltaT 2;".toList),
      ("system/b".toList, "b 1;".toList)]
    (meshedCase.commitTextTransaction failingHost changes []).2 = .error (.os .host) ∧
      meshedCase.AllOrNothing changes [] (meshedCase.commitTextTransaction failingHost changes [])
    := by
  intro changes
  have hplaces : ∀ l ∈ places changes ++ [].map locate, ¬ meshedCase.tree.isDirectory l ∧
      ¬ meshedCase.tree.belowFile l ∧
      (∀ k ∈ FileTree.parents l, k ∉ places changes ++ [].map locate) ∧
      (meshedCase.tree.isFile l → meshedCase.tree.lookup (rollbackTemporary l) = none ∧
        ∀ k ∈ places changes ++ [].map locate, rollbackTemporary l ∉ FileTree.parents k) := by
    decide +kernel
  have hmem : ∀ l, l ∈ requested changes [] ↔ l ∈ places changes ++ [].map locate := fun l =>
    List.mem_append.symm
  refine ⟨by decide +kernel, commitTextTransaction_allOrNothing (fun _ => ⟨rfl, rfl, fun _ => rfl⟩)
    ⟨fun l hl => (hplaces l ((hmem l).1 hl)).1, fun l hl => (hplaces l ((hmem l).1 hl)).2.1,
      fun l hl k hk hin => (hplaces l ((hmem l).1 hl)).2.2.1 k hk ((hmem k).1 hin),
      fun l hl hfile => ?_⟩⟩
  obtain ⟨hnone, hparents⟩ := (hplaces l ((hmem l).1 hl)).2.2.2 hfile
  exact ⟨hnone, fun k hk => hparents k ((hmem k).1 hk)⟩

/-- A host without failures that visits a set from its end. -/
def reversingHost : Host :=
  { Host.reliable with arrange := List.reverse, arrange_perm := List.reverse_perm }

/-- **A place that is a directory cuts the rollback short.** The second write raises on the mesh
directory; the rollback visits that place first and raises there too, and the first file stays. -/
theorem directory_cuts_rollback :
    let changes := [("system/fvSchemes".toList, "a 1;".toList),
      ("constant/polyMesh".toList, "b 1;".toList)]
    meshedCase.commitPreflight reversingHost changes [] = .ok [] ∧
      (meshedCase.commitTextTransaction reversingHost changes []).2 = .error (.os .isDirectory) ∧
      ¬ meshedCase.AllOrNothing changes []
        (meshedCase.commitTextTransaction reversingHost changes []) := by
  intro changes
  have hraised : (meshedCase.commitTextTransaction reversingHost changes []).2 =
      .error (.os .isDirectory) := by
    decide +kernel
  have hleft : (meshedCase.commitTextTransaction reversingHost changes []).1.tree.fileAt
      ["system".toList, "fvSchemes".toList] ≠
        meshedCase.tree.fileAt ["system".toList, "fvSchemes".toList] := by
    decide +kernel
  refine ⟨by decide +kernel, hraised, fun hall => ?_⟩
  rcases hcommit : meshedCase.commitTextTransaction reversingHost changes [] with ⟨w', e | digests⟩
  · rw [hcommit] at hall hleft
    exact hleft (hall.1 _)
  · rw [hcommit] at hraised
    cases hraised

end CaseWorkspace
end Workspace
end OpenFoamAgent
