/-
# What a refused write leaves behind

`write_text` and `patch_text_once` of `tools/workspace.py` raise
`WorkspaceSafetyError` for a path or a content they refuse, before anything is
written, and for the total size of the authored files, which
`_assert_total_size` sums up when the file has been replaced and its path is
tracked. What is said here is when the file and the authored paths are as
before.
-/
import OpenFoamAgent.Workspace.Transactions

namespace OpenFoamAgent
namespace Workspace

open Python Schemas

/-- The exception is a `WorkspaceSafetyError`. The others are `OSError`s:
`resolve_case_path` raises `FileNotFoundError` for a missing file. -/
def CaseError.isSafetyError : CaseError → Bool
  | .check (.missing _) | .os _ => false
  | _ => true

namespace CaseWorkspace

variable (host : Host) (w : CaseWorkspace)

/-- A `WorkspaceSafetyError` leaves the file of the path and the authored paths as they were. -/
def SparesOnSafetyError (p : Text) (out : Outcome Digest) : Prop :=
  ∀ e, out.2 = .error e → e.isSafetyError →
    out.1.tree.fileAt (locate p) = w.tree.fileAt (locate p) ∧
      ∀ q, q ∈ out.1.authoredPaths ↔ q ∈ w.authoredPaths

/-- The checks of `write_text` pass and the host does not refuse the write. -/
def GetsWritten (p content : Text) : Prop :=
  (w.validateCandidateText host p content).isOk ∧
    (w.atomicWrite host p (locate p) content).2.isOk

/-- The size of the file of a path, 0 when there is none. -/
def sizeAt (q : Text) : ℕ := ((w.tree.fileAt (locate q)).getD []).length

/-- Its size once `content` is at `p`. -/
def sizeWith (p content q : Text) : ℕ :=
  if locate q = locate p then (encode content).length else w.sizeAt q

/-- With `content` at `p` the authored files stay within the total size, and each of
their paths resolves. -/
structure FitsBudget (p content : Text) : Prop where
  resolves : ∀ q ∈ w.authoredPaths, (w.resolveCasePath q false).isOk
  total : ((w.author p).authoredPaths.items.map (w.sizeWith p content)).sum ≤ w.maxTotalBytes

/-- The agent's file holds this content already. -/
def AlreadyHolds (p content : Text) : Prop :=
  w.tree.fileAt (locate p) = some (encode content) ∧
    stripBy (· == '/') p ∈ w.authoredPaths

variable {host w} {p content : Text}

/-! ### The total size -/

theorem resolveCasePath_isOk {q : Text} {mustExist : Bool}
    (h : (w.resolveCasePath q mustExist).isOk) :
    w.resolveCasePath q mustExist = .ok (locate q) := by
  rcases hres : w.resolveCasePath q mustExist with e | l
  · rw [hres] at h
    cases h
  · rw [(resolveCasePath_eq_ok hres).1]

/-- Only a path that must exist is missing. -/
theorem isSafetyError_of_resolve {q : Text} {e : CheckError}
    (h : w.resolveCasePath q false = .error e) : (CaseError.check e).isSafetyError := by
  unfold resolveCasePath at h
  split at h
  · cases h; rfl
  · split_ifs at h with hlink hmiss
    · cases h; rfl
    · exact absurd hmiss.1 (by decide)

theorem sizeAt_eq_zero {q : Text} (h : w.tree.isFile (locate q) = false) : w.sizeAt q = 0 := by
  rw [FileTree.isFile, Option.isSome_eq_false_iff, Option.isNone_iff_eq_none] at h
  rw [sizeAt, h]
  rfl

/-- The files among the authored paths have the sizes of all of them together. -/
theorem sum_filter_sizeAt (paths : List Text) :
    ((paths.filter fun q => w.tree.isFile (locate q)).map w.sizeAt).sum =
      (paths.map w.sizeAt).sum := by
  induction paths with
  | nil => rfl
  | cons q paths ih =>
    rw [List.filter_cons, List.map_cons, List.sum_cons, ← ih]
    cases h : w.tree.isFile (locate q) with
    | true => rw [if_pos rfl, List.map_cons, List.sum_cons]
    | false => rw [if_neg (by decide), sizeAt_eq_zero h, Nat.zero_add]

/-- Where each authored path resolves the check compares the sum of the sizes. -/
theorem totalSizeExceeded_eq_ok (h : ∀ q ∈ w.authoredPaths, (w.resolveCasePath q false).isOk) :
    w.totalSizeExceeded =
      .ok (decide ((w.authoredPaths.items.map w.sizeAt).sum > w.maxTotalBytes)) := by
  have hlist : w.listAuthored =
      .ok (w.authoredPaths.items.filter fun q => w.tree.isFile (locate q)) :=
    Traversal.filterMapM_eq_ok fun q hq =>
      Traversal.bind_eq_ok.2 ⟨_, resolveCasePath_isOk (h q hq), rfl⟩
  have hsizes : (w.authoredPaths.items.filter fun q => w.tree.isFile (locate q)).mapM w.fileSize =
      .ok ((w.authoredPaths.items.filter fun q => w.tree.isFile (locate q)).map w.sizeAt) := by
    refine Traversal.mapM_eq_ok fun q hq => ?_
    obtain ⟨hauthored, hfile⟩ := List.mem_filter.1 hq
    have hres := resolveCasePath_of_isFile (resolveCasePath_isOk (h q hauthored)) hfile
    exact Traversal.bind_eq_ok.2 ⟨_, hres, rfl⟩
  refine Traversal.bind_eq_ok.2 ⟨_, hlist, Traversal.bind_eq_ok.2 ⟨_, hsizes, ?_⟩⟩
  rw [sum_filter_sizeAt]
  rfl

/-- `_assert_total_size` returns exactly where each authored path resolves and the sizes
fit, and what it raises is a `WorkspaceSafetyError`. -/
theorem assertTotalSize_spec :
    (w.assertTotalSize = .ok () ↔ (∀ q ∈ w.authoredPaths, (w.resolveCasePath q false).isOk) ∧
      (w.authoredPaths.items.map w.sizeAt).sum ≤ w.maxTotalBytes) ∧
    ∀ e, w.assertTotalSize = .error e → e.isSafetyError := by
  unfold assertTotalSize
  by_cases h : ∀ q ∈ w.authoredPaths, (w.resolveCasePath q false).isOk
  · rw [totalSizeExceeded_eq_ok h]
    by_cases hsum : (w.authoredPaths.items.map w.sizeAt).sum > w.maxTotalBytes
    · rw [decide_eq_true hsum]
      refine ⟨iff_of_false nofun fun hfits => ?_, fun e he => ?_⟩
      · exact absurd hsum (Nat.not_lt.2 hfits.2)
      · cases he; rfl
    · rw [decide_eq_false hsum]
      exact ⟨iff_of_true rfl ⟨h, Nat.not_lt.1 hsum⟩, nofun⟩
  · have hraised : ∃ e, w.totalSizeExceeded = .error e ∧ (CaseError.check e).isSafetyError := by
      rcases hlist : w.listAuthored with e | authored
      · obtain ⟨q, -, he⟩ := Traversal.mem_of_filterMapM_eq_error hlist
        rcases Traversal.bind_eq_error.1 he with hres | ⟨l, -, he⟩
        · refine ⟨e, ?_, isSafetyError_of_resolve hres⟩
          rw [totalSizeExceeded, hlist]
          rfl
        · cases he
      · refine absurd (fun q hq => ?_) h
        obtain ⟨o, ho⟩ := Traversal.ok_of_filterMapM hlist hq
        obtain ⟨l, hl, -⟩ := Traversal.bind_eq_ok.1 ho
        rw [hl]
        rfl
    obtain ⟨e, he, hsafety⟩ := hraised
    rw [he]
    refine ⟨iff_of_false nofun fun hfits => h hfits.1, fun e' he' => ?_⟩
    cases he'
    exact hsafety

/-! ### The write -/

/-- Which paths resolve depends on the symbolic links only. -/
theorem resolveCasePath_isOk_iff {q : Text} : (w.resolveCasePath q false).isOk ↔
    '\\' ∉ q ∧ safeParts (locate q) ∧ ¬ w.tree.linkOnPath (locate q) := by
  constructor
  · intro h
    have hres := resolveCasePath_isOk h
    obtain ⟨-, hparts, hlink, -⟩ := resolveCasePath_eq_ok hres
    refine ⟨fun hslash => ?_, hparts, hlink⟩
    rw [resolveCasePath, validateRelative, normalized, if_pos hslash] at hres
    cases hres
  · rintro ⟨hslash, hparts, hlink⟩
    have hrel : validateRelative q = .ok (locate q) := by
      rw [validateRelative, normalized, if_neg hslash]
      exact if_pos hparts
    rw [resolveCasePath, hrel]
    dsimp only
    rw [if_neg hlink, if_neg (by simp)]
    rfl

/-- A write that succeeds makes no symbolic link and drops none. -/
theorem atomicWrite_isLink {w' : CaseWorkspace} (hpath : (w.resolveCasePath p false).isOk)
    (h : w.atomicWrite host p (locate p) content = (w', .ok ())) (k : Location) :
    w'.tree.isLink k = w.tree.isLink k := by
  have hlink : ¬ w.tree.isLink (locate p) := fun hlink =>
    (resolveCasePath_isOk_iff.1 hpath).2.2
      (List.any_eq_true.2 ⟨_, (List.mem_inits _ _).2 (List.prefix_refl _), hlink⟩)
  have hdirs := FileTree.isLink_makeDirectories (fun d => host.fails (.mkdir d) p) w.tree
    (FileTree.parents (locate p))
  unfold atomicWrite at h
  split at h
  · cases h
  · rename_i tree heq
    rw [heq] at hdirs
    split at h
    · cases h
    · rename_i tree' hreplace
      obtain ⟨rfl, -⟩ := Prod.mk.inj h
      unfold FileTree.replaceFile at hreplace
      split_ifs at hreplace
      cases hreplace
      rw [← hdirs] at hlink
      exact (FileTree.isLink_insert (n := .file (encode content)) hlink
        (fun _ h => by cases h) k).trans (hdirs k)

/-- A write sets the tree, and nothing else. -/
theorem atomicWrite_settled {w' : CaseWorkspace} {l : Location} {r : Except CaseError Unit}
    (h : w.atomicWrite host p l content = (w', r)) : w' = { w with tree := w'.tree } := by
  unfold atomicWrite at h
  split at h
  · cases h; rfl
  · split at h <;> cases h <;> rfl

/-- What a write raises is an `OSError`. -/
theorem atomicWrite_raises {w' : CaseWorkspace} {l : Location} {e : CaseError}
    (h : w.atomicWrite host p l content = (w', .error e)) : e.isSafetyError = false := by
  unfold atomicWrite at h
  split at h
  · cases h; rfl
  · split at h <;> cases h
    rfl

/-- After the write the check passes exactly where the authored files with this content
fit the budget. -/
theorem assertTotalSize_author_iff {w' : CaseWorkspace} (hpath : (w.resolveCasePath p false).isOk)
    (h : w.atomicWrite host p (locate p) content = (w', .ok ())) :
    (w'.author p).assertTotalSize = .ok () ↔ w.FitsBudget p content := by
  have hw' := atomicWrite_settled h
  have hframe := (atomicWrite_within host w p (locate p) content).tree.files
  rw [h] at hframe
  have hresolve : ∀ q, ((w'.author p).resolveCasePath q false).isOk ↔
      (w.resolveCasePath q false).isOk := by
    intro q
    have hlinks : w'.tree.isLink = w.tree.isLink := funext (atomicWrite_isLink hpath h)
    rw [resolveCasePath_isOk_iff, resolveCasePath_isOk_iff, FileTree.linkOnPath, author, hlinks,
      FileTree.linkOnPath]
  have hown : (w.resolveCasePath (stripBy (· == '/') p) false).isOk := by
    obtain ⟨hslash, hparts, hlink⟩ := resolveCasePath_isOk_iff.1 hpath
    rw [resolveCasePath_isOk_iff, locate_stripBy]
    exact ⟨fun hin => hslash (mem_of_mem_stripBy hin), hparts, hlink⟩
  have hsizes : (w'.author p).sizeAt = w.sizeWith p content := by
    funext q
    change ((w'.tree.fileAt (locate q)).getD []).length = _
    unfold sizeWith
    split_ifs with hq
    · rw [hq, atomicWrite_ok h]
      rfl
    · rw [hframe _ hq]
      rfl
  have hauthored : (w'.author p).authoredPaths = (w.author p).authoredPaths := by
    rw [hw']
    rfl
  have hmax : (w'.author p).maxTotalBytes = w.maxTotalBytes := by
    rw [hw']
    rfl
  rw [(assertTotalSize_spec (w := w'.author p)).1, hauthored, hsizes, hmax]
  constructor
  · rintro ⟨hall, htotal⟩
    exact ⟨fun q hq => (hresolve q).1 (hall q (OrderedSet.mem_add.2 (.inr hq))), htotal⟩
  · rintro ⟨hall, htotal⟩
    refine ⟨fun q hq => (hresolve q).2 ?_, htotal⟩
    rcases OrderedSet.mem_add.1 hq with rfl | hq
    · exact hown
    · exact hall q hq

theorem resolves_of_validateCandidateText
    (h : (w.validateCandidateText host p content).isOk) : (w.resolveCasePath p false).isOk := by
  unfold validateCandidateText at h
  split_ifs at h
  · cases h
  · cases h
  · split at h
    · cases h
    · rename_i l hl
      rw [hl]
      rfl

/-- A refused text is not written, and what a refused write raises is an `OSError`. -/
theorem writeText_of_not_getsWritten (h : ¬ w.GetsWritten host p content) :
    ∃ e, (w.writeText host p content).2 = .error e ∧
      (e.isSafetyError → (w.writeText host p content).1 = w) := by
  unfold writeText
  rcases hvalid : w.validateCandidateText host p content with e | digest
  · exact ⟨_, rfl, fun _ => rfl⟩
  · dsimp only
    rcases hpath : w.resolveCasePath p false with e | path
    · exact ⟨_, rfl, fun _ => rfl⟩
    · obtain ⟨rfl, -⟩ := resolveCasePath_eq_ok hpath
      dsimp only
      rcases hwrite : w.atomicWrite host p (locate p) content with ⟨w', e | ⟨⟩⟩
      · refine ⟨e, rfl, fun hsafety => ?_⟩
        rw [atomicWrite_raises hwrite] at hsafety
        cases hsafety
      · refine absurd ⟨?_, ?_⟩ h
        · rw [hvalid]; rfl
        · rw [hwrite]; rfl

/-- A text that is written is the file's content from then on, and the path is tracked. The
call raises exactly when the authored files do not fit the budget. -/
theorem writeText_of_getsWritten (h : w.GetsWritten host p content) :
    (w.writeText host p content).1.tree.fileAt (locate p) = some (encode content) ∧
      (w.writeText host p content).1.authoredPaths = (w.author p).authoredPaths ∧
      (w.FitsBudget p content → (w.writeText host p content).2.isOk) ∧
      (¬ w.FitsBudget p content →
        ∃ e, (w.writeText host p content).2 = .error e ∧ e.isSafetyError) := by
  obtain ⟨hvalid, hwrite⟩ := h
  have hpath := resolves_of_validateCandidateText hvalid
  unfold writeText
  rcases hdigest : w.validateCandidateText host p content with e | digest
  · rw [hdigest] at hvalid
    cases hvalid
  · rcases hout : w.atomicWrite host p (locate p) content with ⟨w', e | ⟨⟩⟩
    · rw [hout] at hwrite
      cases hwrite
    · have hfits := assertTotalSize_author_iff hpath hout
      have hauthored : (w'.author p).authoredPaths = (w.author p).authoredPaths := by
        rw [atomicWrite_settled hout]
        rfl
      have hfile : w'.tree.fileAt (locate p) = some (encode content) := atomicWrite_ok hout
      rw [resolveCasePath_isOk hpath]
      dsimp only
      rw [hout]
      dsimp only
      rcases hcheck : (w'.author p).assertTotalSize with e | ⟨⟩
      · rw [hcheck] at hfits
        have hnot : ¬ w.FitsBudget p content := fun hfit => nomatch hfits.2 hfit
        exact ⟨hfile, hauthored, fun hfit => absurd hfit hnot,
          fun _ => ⟨e, rfl, assertTotalSize_spec.2 e hcheck⟩⟩
      · exact ⟨hfile, hauthored, fun _ => rfl,
          fun hnot => absurd (hfits.1 hcheck) hnot⟩

/-- `write_text` spares the file and the authored paths on a `WorkspaceSafetyError` exactly
when it writes nothing, or the authored files fit the budget, or the file and the path are
there already. -/
theorem writeText_spares_iff (host : Host) (w : CaseWorkspace) (p content : Text) :
    w.SparesOnSafetyError p (w.writeText host p content) ↔
      (w.GetsWritten host p content → w.FitsBudget p content ∨ w.AlreadyHolds p content) := by
  by_cases h : w.GetsWritten host p content
  · obtain ⟨hfile, hauthored, hreturns, hraises⟩ := writeText_of_getsWritten h
    have hkept : (∀ q, q ∈ (w.author p).authoredPaths ↔ q ∈ w.authoredPaths) ↔
        stripBy (· == '/') p ∈ w.authoredPaths := by
      refine ⟨fun hall => (hall _).1 (OrderedSet.mem_add.2 (.inl rfl)), fun hin q => ?_⟩
      refine OrderedSet.mem_add.trans ⟨?_, .inr⟩
      rintro (rfl | hq)
      · exact hin
      · exact hq
    by_cases hfit : w.FitsBudget p content
    · refine iff_of_true (fun e he _ => ?_) fun _ => .inl hfit
      have hok := hreturns hfit
      rw [he] at hok
      cases hok
    · obtain ⟨e, he, hsafety⟩ := hraises hfit
      constructor
      · intro hspares _
        obtain ⟨hsame, hpaths⟩ := hspares e he hsafety
        rw [hauthored] at hpaths
        exact .inr ⟨hsame.symm.trans hfile, hkept.1 hpaths⟩
      · intro hcond e' _ _
        obtain ⟨hsame, hin⟩ := (hcond h).resolve_left hfit
        rw [hfile, hauthored]
        exact ⟨hsame.symm, hkept.2 hin⟩
  · obtain ⟨e, he, hsame⟩ := writeText_of_not_getsWritten h
    refine iff_of_true (fun e' he' hsafety => ?_) fun hwritten => absurd hwritten h
    obtain rfl := Except.error.inj (he.symm.trans he')
    rw [hsame hsafety]
    exact ⟨rfl, fun q => .rfl⟩

/-! ### The patch -/

/-- The text `patch_text_once` writes, where it gets that far. -/
def patchedContent (w : CaseWorkspace) (p old new : Text) : Option Text :=
  if old = [] then none
  else
    match w.readText p (w.maxFileBytes + 1) with
    | .error _ => none
    | .ok current =>
      if "\n... [truncated]".toList.isSuffixOf current ∨ count old current ≠ 1 then none
      else some (replaceOnce old new current)

theorem patchTextOnce_eq (host : Host) (w : CaseWorkspace) (p old new : Text) :
    match w.patchedContent p old new with
    | none => ∃ e, w.patchTextOnce host p old new = (w, .error e)
    | some content => w.patchTextOnce host p old new = w.writeText host p content := by
  unfold patchedContent patchTextOnce
  split_ifs with hold
  · exact ⟨_, rfl⟩
  · rcases hread : w.readText p (w.maxFileBytes + 1) with e | current
    · exact ⟨_, rfl⟩
    · dsimp only
      by_cases hcut : "\n... [truncated]".toList.isSuffixOf current
      · rw [if_pos (.inl hcut), if_pos hcut]
        exact ⟨_, rfl⟩
      · by_cases hcount : count old current ≠ 1
        · rw [if_pos (.inr hcount), if_neg hcut, if_pos hcount]
          exact ⟨_, rfl⟩
        · rw [if_neg (not_or.2 ⟨hcut, hcount⟩), if_neg hcut, if_neg hcount]

theorem patchTextOnce_spares_iff (host : Host) (w : CaseWorkspace) (p old new : Text) :
    w.SparesOnSafetyError p (w.patchTextOnce host p old new) ↔
      ∀ content, w.patchedContent p old new = some content → w.GetsWritten host p content →
        w.FitsBudget p content ∨ w.AlreadyHolds p content := by
  have heq := patchTextOnce_eq host w p old new
  rcases hcontent : w.patchedContent p old new with _ | content
  · rw [hcontent] at heq
    obtain ⟨e, he⟩ := heq
    rw [he]
    exact iff_of_true (fun _ _ _ => ⟨rfl, fun q => .rfl⟩) nofun
  · rw [hcontent] at heq
    rw [heq, writeText_spares_iff]
    refine ⟨fun h c hc => ?_, fun h => h content rfl⟩
    obtain rfl := Option.some.inj hc
    exact h

/-- **A refused call leaves the file and the authored paths as they were**, for `write_text`
and for `patch_text_once`, exactly when the call writes nothing, or the authored files fit the
budget with what it writes, or that is what the tracked file holds. -/
theorem mutations_spare_iff (host : Host) (w : CaseWorkspace) (p content old new : Text) :
    (w.SparesOnSafetyError p (w.writeText host p content) ↔
      (w.GetsWritten host p content → w.FitsBudget p content ∨ w.AlreadyHolds p content)) ∧
    (w.SparesOnSafetyError p (w.patchTextOnce host p old new) ↔
      ∀ patched, w.patchedContent p old new = some patched → w.GetsWritten host p patched →
        w.FitsBudget p patched ∨ w.AlreadyHolds p patched) :=
  ⟨writeText_spares_iff host w p content, patchTextOnce_spares_iff host w p old new⟩

/-- A case at its total size: ten bytes, which one dictionary holds. -/
def fullCase : CaseWorkspace where
  tree := (∅ : FileTree Text Bytes)
    |>.insert ["system".toList] .directory
    |>.insert ["system".toList, "controlDict".toList] (.file (encode "deltaT 1;\n".toList))
  maxTotalBytes := 10
  authoredPaths := .ofList ["system/controlDict".toList]
  assetPaths := .ofList []

/-- The total size is refused, and the file and its path are there. -/
theorem writeText_keeps_refused :
    ¬ ∀ host (w : CaseWorkspace) p content old new,
      w.SparesOnSafetyError p (w.writeText host p content) ∧
        w.SparesOnSafetyError p (w.patchTextOnce host p old new) := by
  intro h
  have hraised : (fullCase.writeText .reliable "system/fvSchemes".toList "a 1;".toList).2 =
      .error .totalSize := by
    decide +kernel
  have hspared := ((h .reliable fullCase "system/fvSchemes".toList "a 1;".toList [] []).1
    _ hraised rfl).1
  revert hspared
  decide +kernel

end CaseWorkspace
end Workspace
end OpenFoamAgent
