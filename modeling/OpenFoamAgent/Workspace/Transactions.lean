/-
# What a transaction leaves

After a transaction that returns, each place holds the text of the last change
that names it, under whatever path text, unless a dropped path names it too.
-/
import OpenFoamAgent.Workspace.Frames

namespace OpenFoamAgent
namespace Workspace

open Python Schemas

variable {host : Host} {w w' : CaseWorkspace}

/-- The text of the last change to a place. -/
def lastText (changes : List (Text × Text)) (l : Location) : Option Text :=
  (changes.filter fun c => locate c.1 = l).getLast?.map Prod.snd

theorem lastText_cons (c : Text × Text) (changes : List (Text × Text)) (l : Location) :
    lastText (c :: changes) l =
      (lastText changes l).or (if locate c.1 = l then some c.2 else none) := by
  unfold lastText
  rw [List.filter_cons]
  by_cases hc : locate c.1 = l
  · simp only [hc, decide_true, if_true, List.getLast?_cons]
    cases (changes.filter fun c => locate c.1 = l).getLast? <;> rfl
  · simp [hc]

theorem lastText_eq_none {changes : List (Text × Text)} {l : Location} :
    lastText changes l = none ↔ l ∉ CaseWorkspace.places changes := by
  simp [lastText, CaseWorkspace.places]

/-- The last change to a place is one of the changes. -/
theorem lastText_mem {changes : List (Text × Text)} {l : Location} {t : Text}
    (h : lastText changes l = some t) : ∃ c ∈ changes, locate c.1 = l ∧ c.2 = t := by
  obtain ⟨c, hc, rfl⟩ := Option.map_eq_some_iff.1 h
  have hmem := List.mem_of_getLast? hc
  rw [List.mem_filter] at hmem
  exact ⟨c, hmem.1, of_decide_eq_true hmem.2, rfl⟩

namespace CaseWorkspace

theorem commitWrites_last {changes : List (Text × Text)} {digests : List (Text × Digest)}
    (h : w.commitWrites host changes = (w', .ok digests)) (l : Location) :
    w'.tree.fileAt l = (lastText changes l).elim (w.tree.fileAt l) fun t => some (encode t) := by
  induction changes generalizing w digests with
  | nil =>
    cases h
    rfl
  | cons c changes ih =>
    obtain ⟨p, content⟩ := c
    unfold commitWrites at h
    split at h
    · cases h
    · rename_i target htarget
      obtain ⟨rfl, -⟩ := resolveCasePath_eq_ok htarget
      split at h
      · cases h
      · rename_i w₁ hwrite
        split at h
        · cases h
        · rename_i w₂ digests' hrest
          cases h
          rw [ih hrest, lastText_cons]
          rcases lastText changes l with _ | t
          · have hwithin := atomicWrite_within host w p (locate p) content
            rw [hwrite] at hwithin
            show w₁.tree.fileAt l = _
            by_cases hl : locate p = l
            · rw [if_pos hl, ← hl]
              exact atomicWrite_ok hwrite
            · rw [if_neg hl]
              exact hwithin.tree.files l (Ne.symm hl)
          · rfl

/-- **The files after a transaction.** -/
theorem commitTextTransaction_files {changes : List (Text × Text)} {dropPaths : List Text}
    {digests : List (Text × Digest)}
    (h : w.commitTextTransaction host changes dropPaths = (w', .ok digests)) (l : Location) :
    w'.tree.fileAt l = if l ∈ dropPaths.map locate then none
      else (lastText changes l).elim (w.tree.fileAt l) fun t => some (encode t) := by
  obtain ⟨drops, w₁, hpre, hwrites, hdropped⟩ := commitTextTransaction_steps h
  split_ifs with hl
  · obtain ⟨p, hp, rfl⟩ := List.mem_map.1 hl
    obtain ⟨d, hd, rfl⟩ := commitPreflight_drops hpre p hp
    rw [← locate_stripBy p]
    exact commitDrops_ok hdropped _ hd
  · have hin : ∀ d ∈ drops, locate d ∈ dropPaths.map locate := by
      intro d hd
      obtain ⟨-, p, hp, rfl⟩ := (commitPreflight_eq_ok hpre).2 d hd
      exact locate_stripBy p ▸ List.mem_map_of_mem hp
    have hwithin : Within {l | l ∈ dropPaths.map locate} w₁ (w₁.commitDrops host drops).1 :=
      commitDrops_within host w₁ hin
    rw [hdropped] at hwithin
    exact (hwithin.tree.files l hl).trans (commitWrites_last hwrites l)

end CaseWorkspace
/-! ### The preflight -/

namespace CaseWorkspace

/-- A text that resolves does so without its outer slashes. -/
theorem resolveCasePath_stripBy {p : Text} {l : Location}
    (h : w.resolveCasePath p true = .ok l) :
    w.resolveCasePath (stripBy (· == '/') p) true = .ok l := by
  obtain ⟨rfl, hsafe, hlink, hfile⟩ := resolveCasePath_eq_ok h
  have hplain : '\\' ∉ p := by
    unfold resolveCasePath at h
    split at h
    · cases h
    · rename_i hrel
      exact (validateRelative_eq_ok hrel).2.2
  have hrel : validateRelative (stripBy (· == '/') p) = .ok (locate p) := by
    have hstrip : '\\' ∉ stripBy (· == '/') p := fun hmem => hplain (mem_of_mem_stripBy hmem)
    unfold validateRelative normalized
    rw [if_neg hstrip, stripBy_stripBy]
    exact if_pos hsafe
  unfold resolveCasePath
  rw [hrel]
  dsimp only
  rw [if_neg hlink, if_neg fun hmiss => hmiss.2 (hfile rfl)]

/-- A text that resolves to a file resolves where the file must exist. -/
theorem resolveCasePath_of_isFile {p : Text} {l : Location}
    (h : w.resolveCasePath p false = .ok l) (hfile : w.tree.isFile l) :
    w.resolveCasePath p true = .ok l := by
  unfold resolveCasePath at h ⊢
  split at h
  · cases h
  · split_ifs at h with hlink
    obtain rfl := Except.ok.inj h
    rw [if_neg hlink, if_neg fun hmiss => hmiss.2 hfile]

/-- **When a checked transaction may begin.** A bundle without failures, whose drops are files,
passes the preflight exactly when each drop is tracked and no user asset. -/
theorem commitPreflight_isOk_iff {changes : List (Text × Text)} {dropPaths : List Text}
    (hbundle : w.validateCandidateBundle host changes dropPaths = .ok [])
    (hdrops : ∀ d ∈ dropPaths, ∃ l, w.resolveCasePath d true = .ok l) :
    (∃ drops, w.commitPreflight host changes dropPaths = .ok drops) ↔
      ∀ d ∈ dropPaths, stripBy (· == '/') d ∉ w.assetPaths ∧
        stripBy (· == '/') d ∈ w.authoredPaths := by
  obtain ⟨normalizedDrops, hnormalized⟩ :
      ∃ normalizedDrops, dropPaths.mapM normalizedText = .ok normalizedDrops := by
    unfold validateCandidateBundle at hbundle
    split at hbundle
    · cases hbundle
    · obtain ⟨dropped, hdropped, -⟩ := Traversal.bind_eq_ok.1 hbundle
      exact ⟨dropped, hdropped⟩
  constructor
  · rintro ⟨drops, hpreflight⟩ d hd
    obtain ⟨_, hmem, rfl⟩ := commitPreflight_drops hpreflight d hd
    unfold commitPreflight at hpreflight
    rw [hbundle] at hpreflight
    dsimp only at hpreflight
    rw [hnormalized] at hpreflight
    obtain ⟨⟨⟩, hall, hpreflight⟩ := Traversal.bind_eq_ok.1 hpreflight
    obtain rfl := Except.ok.inj hpreflight
    exact checkDrop_eq_ok (Traversal.ok_of_forM hall hmem)
  · intro htracked
    refine ⟨normalizedDrops.eraseDups, ?_⟩
    unfold commitPreflight
    rw [hbundle]
    dsimp only
    rw [hnormalized]
    refine Traversal.bind_eq_ok.2 ⟨⟨⟩, Traversal.forM_eq_ok fun d hd => ?_, rfl⟩
    obtain ⟨p, hp, hpd⟩ := Traversal.ok_of_mem_mapM hnormalized (List.mem_eraseDups.1 hd)
    obtain rfl := normalizedText_eq_ok hpd
    obtain ⟨l, hl⟩ := hdrops p hp
    obtain ⟨hasset, hauthored⟩ := htracked p hp
    unfold checkDrop
    rw [if_neg hasset, if_neg (not_not.2 hauthored), resolveCasePath_stripBy hl]

end CaseWorkspace

end Workspace
end OpenFoamAgent
