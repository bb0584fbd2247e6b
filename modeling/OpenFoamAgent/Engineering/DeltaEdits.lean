/-
# The edits a delta graph accepts

What is known of the files of a case delta once it was normalized without a
failure. By path text the edits are in order: a replaced text has one content, a
patched one holds what its patches leave of the committed text, and a dropped
one is neither (`normalized_of_edits`).
-/
import OpenFoamAgent.Engineering.CaseDeltaGraph
import OpenFoamAgent.Workspace.Transactions

namespace OpenFoamAgent
namespace Engineering

open Python Schemas Workspace

/-! ### The view -/

variable {w : CaseWorkspace} {plan : EngineeringPlan} {delta : CaseDelta} {view : Dict Text Text}

/-- The mark of a text that was cut. -/
def Truncated (t : Text) : Prop := "\n... [truncated]".toList.isSuffixOf t

/-- The view gives a path the text of its file, or a cut text. -/
def Shows (w : CaseWorkspace) (view : Dict Text Text) : Prop :=
  ∀ path t, view.get path = some t →
    Truncated t ∨ ∃ data, w.tree.fileAt (locate path) = some data ∧ t = viewText data

theorem shows_empty (w : CaseWorkspace) : Shows w ∅ := by
  intro path t ht
  rw [Dict.get_empty] at ht
  cases ht

theorem readText_eq_ok {path t : Text} {limit : ℕ} (h : w.readText path limit = .ok t) :
    Truncated t ∨ ∃ data, w.tree.fileAt (locate path) = some data ∧ t = viewText data := by
  unfold CaseWorkspace.readText at h
  obtain ⟨l, hl, h⟩ := Traversal.bind_eq_ok.1 h
  obtain ⟨rfl, -, -, hfile⟩ := CaseWorkspace.resolveCasePath_eq_ok hl
  obtain ⟨data, hdata⟩ := Option.isSome_iff_exists.1 (hfile rfl)
  obtain rfl := Except.ok.inj h
  rw [hdata, Option.getD_some]
  split_ifs
  · refine .inl ?_
    rw [Truncated, List.isSuffixOf_iff_suffix]
    exact List.suffix_append _ _
  · exact .inr ⟨data, rfl, rfl⟩

/-- The tracked files are the listed paths that are files. -/
theorem listAuthored_eq_ok {authored : List Text} (h : w.listAuthored = .ok authored)
    (path : Text) : path ∈ authored ↔ path ∈ w.authoredPaths ∧ w.tree.isFile (locate path) := by
  have hstep : ∀ p o, (do
      let l ← w.resolveCasePath p false
      return if w.tree.isFile l then some p else none : Except CheckError (Option Text)) = .ok o →
      o = if w.tree.isFile (locate p) then some p else none := by
    intro p o ho
    obtain ⟨l, hl, ho⟩ := Traversal.bind_eq_ok.1 ho
    obtain ⟨rfl, -⟩ := CaseWorkspace.resolveCasePath_eq_ok hl
    exact (Except.ok.inj ho).symm
  have hspec := Traversal.mem_of_filterMapM h (b := path)
  rw [hspec, OrderedSet.mem_def]
  constructor
  · rintro ⟨p, hp, hok⟩
    have := hstep p _ hok
    split_ifs at this with hfile
    obtain rfl := Option.some.inj this
    exact ⟨hp, hfile⟩
  · rintro ⟨hp, hfile⟩
    obtain ⟨o, ho⟩ := Traversal.ok_of_filterMapM h hp
    refine ⟨path, hp, ?_⟩
    rw [ho, hstep path o ho, if_pos hfile]

/-- The controller knows a path text: the file is tracked or required under it. -/
def Known (w : CaseWorkspace) (plan : EngineeringPlan) (path : Text) : Prop :=
  path ∈ w.authoredPaths ∨ path ∈ plan.requiredCaseFiles

/-- **The view** holds the known path texts that name a file, each with its text. -/
theorem effectiveView_eq_ok (h : effectiveView w plan = .ok view) :
    Shows w view ∧ ∀ path, path ∈ view ↔ Known w plan path ∧ w.tree.isFile (locate path) := by
  unfold effectiveView at h
  obtain ⟨authored, hauthored, h⟩ := Traversal.bind_eq_ok.1 h
  obtain ⟨view₁, hview₁, h⟩ := Traversal.bind_eq_ok.1 h
  have hmem := listAuthored_eq_ok hauthored
  have hfirst : Shows w view₁ ∧ ∀ path, path ∈ view₁ ↔ path ∈ authored := by
    refine Traversal.foldlM_induct (P := fun done v => Shows w v ∧ ∀ path, path ∈ v ↔ path ∈ done)
      hview₁ ⟨shows_empty w, by simp⟩ ?_
    rintro done path - v v' ⟨hshows, hkeys⟩ hstep
    unfold viewAuthored at hstep
    rcases hread : w.readText path (w.maxFileBytes + 1) with e | content
    · rw [hread] at hstep
      cases hstep
    · rw [hread] at hstep
      obtain rfl := Except.ok.inj hstep
      constructor
      · intro q t ht
        rw [Dict.get_insert] at ht
        split_ifs at ht with hq
        · subst hq
          obtain rfl := Option.some.inj ht
          exact readText_eq_ok hread
        · exact hshows q t ht
      · intro q
        rw [AList.mem_insert, hkeys]
        simp [or_comm]
  have hsecond : Shows w view ∧
      ∀ path, path ∈ view ↔ path ∈ authored ∨
        (path ∈ plan.requiredCaseFiles ∧ w.tree.isFile (locate path)) := by
    refine Traversal.foldlM_induct (P := fun done v => Shows w v ∧ ∀ path, path ∈ v ↔
      path ∈ authored ∨ (path ∈ done ∧ w.tree.isFile (locate path))) h
      ⟨hfirst.1, by simpa using hfirst.2⟩ ?_
    rintro done path - v v' ⟨hshows, hkeys⟩ hstep
    unfold viewRequired at hstep
    split_ifs at hstep with hin
    · obtain rfl := Except.ok.inj hstep
      refine ⟨hshows, fun q => ?_⟩
      rw [hkeys, List.mem_append, List.mem_singleton]
      constructor
      · exact Or.imp_right (And.imp_left .inl)
      · rintro (hq | ⟨hq | rfl, hfile⟩)
        · exact .inl hq
        · exact .inr ⟨hq, hfile⟩
        · exact (hkeys q).1 hin
    · split at hstep
      · rename_i hmissing
        obtain rfl := Except.ok.inj hstep
        refine ⟨hshows, fun q => ?_⟩
        rw [hkeys, List.mem_append, List.mem_singleton]
        constructor
        · exact Or.imp_right (And.imp_left .inl)
        · rintro (hq | ⟨hq | rfl, hfile⟩)
          · exact .inl hq
          · exact .inr ⟨hq, hfile⟩
          · exact absurd hfile (CaseWorkspace.not_isFile_of_missing hmissing)
      · cases hstep
      · rename_i l hl
        obtain rfl := Except.ok.inj hstep
        obtain ⟨rfl, -, -, hfile⟩ := CaseWorkspace.resolveCasePath_eq_ok hl
        obtain ⟨data, hdata⟩ := Option.isSome_iff_exists.1 (hfile rfl)
        constructor
        · intro q t ht
          rw [Dict.get_insert] at ht
          split_ifs at ht with hq
          · subst hq
            obtain rfl := Option.some.inj ht
            exact .inr ⟨data, hdata, by rw [hdata, Option.getD_some]⟩
          · exact hshows q t ht
        · intro q
          rw [AList.mem_insert, hkeys, List.mem_append, List.mem_singleton]
          constructor
          · rintro (rfl | hq | ⟨hq, hf⟩)
            · exact .inr ⟨.inr rfl, hfile rfl⟩
            · exact .inl hq
            · exact .inr ⟨.inl hq, hf⟩
          · rintro (hq | ⟨hq | rfl, hf⟩)
            · exact .inr (.inl hq)
            · exact .inr (.inr ⟨hq, hf⟩)
            · exact .inl rfl
  refine ⟨hsecond.1, fun path => ?_⟩
  rw [hsecond.2, hmem, Known]
  tauto

/-! ### The edits, by path text -/

/-- The exact patches applied one after the other, each to a text that holds its old part once. -/
def applyPatches : List CaseFilePatch → Text → Option Text
  | [], t => some t
  | p :: ps, t =>
    if p.old ≠ [] ∧ count p.old t = 1 then applyPatches ps (replaceOnce p.old p.new t) else none

theorem applyPatches_concat (ps : List CaseFilePatch) (p : CaseFilePatch) (t : Text) :
    applyPatches (ps ++ [p]) t = (applyPatches ps t).bind (applyPatches [p]) := by
  induction ps generalizing t with
  | nil => rfl
  | cons q ps ih =>
    rw [List.cons_append, applyPatches, applyPatches]
    split_ifs
    · exact ih _
    · rfl

namespace Edited

variable {s : Edited}

/-- A replacement without a failure. -/
theorem of_replace {file : Text × Text} (hnd : (s.changed.map Prod.fst).Nodup)
    (h : (s.replace file).failures = []) :
    s.failures = [] ∧ (∀ c ∈ s.changed, c.1 = file.1 → c = file) ∧
      s.replace file = { s with changed := putItem Prod.fst file s.changed } := by
  unfold replace at h ⊢
  split_ifs at h ⊢ with hother
  · simp [fail] at h
  · refine ⟨h, fun c hc hpath => ?_, rfl⟩
    rcases hlookup : s.changed.lookup file.1 with _ | content
    · have := List.lookup_eq_none_iff.1 hlookup c hc
      simp [hpath] at this
    · obtain ⟨before, after, hsplit, -⟩ := List.lookup_eq_some_iff.1 hlookup
      have hmem : (file.1, content) ∈ s.changed := by
        rw [hsplit]
        exact List.mem_append_right _ List.mem_cons_self
      have hsame : content = file.2 := by simpa [hlookup] using hother
      have hc' : c = (file.1, content) := List.inj_on_of_nodup_map hnd hc hmem hpath
      rw [hc', hsame]

/-- A patch without a failure. -/
theorem of_patch {replaced drops : List Text} {p : CaseFilePatch}
    (h : (s.patch replaced drops p).failures = []) :
    s.failures = [] ∧ p.path ∉ replaced ∧ p.path ∉ drops ∧
      ∃ current content, s.effective.get p.path = some current ∧ ¬ Truncated current ∧
        applyPatches [p] current = some content ∧
        s.patch replaced drops p = { s with
          effective := s.effective.insert p.path content
          changed := putItem Prod.fst (p.path, content) s.changed } := by
  have hfail : ∀ failure, (s.fail failure).failures ≠ [] := fun failure => by simp [fail]
  unfold patch at h ⊢
  by_cases hreplaced : p.path ∈ replaced
  · rw [if_pos hreplaced] at h
    exact absurd h (hfail _)
  by_cases hdrops : p.path ∈ drops
  · rw [if_neg hreplaced, if_pos hdrops] at h
    exact absurd h (hfail _)
  rw [if_neg hreplaced, if_neg hdrops] at h ⊢
  rcases hcurrent : s.effective.get p.path with _ | current
  · rw [hcurrent] at h
    exact absurd h (hfail _)
  rw [hcurrent] at h
  dsimp only at h ⊢
  split_ifs at h ⊢ with htruncated hempty hcount
  · exact absurd h (hfail _)
  · exact absurd h (hfail _)
  · exact absurd h (hfail _)
  · refine ⟨h, hreplaced, hdrops, current, replaceOnce p.old p.new current, rfl, htruncated, ?_, rfl⟩
    rw [applyPatches, if_pos ⟨hempty, not_not.1 hcount⟩]
    rfl

/-- A drop without a failure. -/
theorem of_drop {path : Text} (h : (s.drop path).failures = []) :
    s.failures = [] ∧ path ∉ s.changed.map Prod.fst ∧
      s.drop path = { s with effective := s.effective.erase path } := by
  unfold drop at h ⊢
  split_ifs at h ⊢ with hmem
  · simp [fail] at h
  · exact ⟨h, hmem, rfl⟩

end Edited

/-! ### The normalized delta -/

/-- The delta after its replacements. -/
structure Replaced (view : Dict Text Text) (files : List (Text × Text)) (s : Edited) : Prop where
  effective : s.effective = view
  nodup : (s.changed.map Prod.fst).Nodup
  mem : ∀ c, c ∈ s.changed ↔ c ∈ files

theorem nodup_foldl_replace (files : List (Text × Text)) {s : Edited}
    (h : (s.changed.map Prod.fst).Nodup) :
    ((files.foldl Edited.replace s).changed.map Prod.fst).Nodup := by
  induction files generalizing s with
  | nil => exact h
  | cons file files ih =>
    refine ih ?_
    unfold Edited.replace
    split_ifs
    · exact h
    · exact nodup_putItem h

theorem replaced_of_foldl {files : List (Text × Text)}
    (h : (files.foldl Edited.replace { effective := view }).failures = []) :
    Replaced view files (files.foldl Edited.replace { effective := view }) := by
  induction files using List.reverseRecOn with
  | nil => exact ⟨rfl, List.nodup_nil, fun _ => Iff.rfl⟩
  | append_singleton files file ih =>
    rw [List.foldl_append, List.foldl_cons, List.foldl_nil] at h ⊢
    set s := files.foldl Edited.replace { effective := view }
    have hnd : (s.changed.map Prod.fst).Nodup := nodup_foldl_replace files List.nodup_nil
    obtain ⟨hs, hsame, heq⟩ := Edited.of_replace hnd h
    have ih := ih hs
    rw [heq]
    refine ⟨ih.effective, nodup_putItem ih.nodup, fun c => ?_⟩
    rw [mem_putItem, List.mem_append, List.mem_singleton, ← ih.mem]
    constructor
    · rintro (hc | ⟨hc, -⟩)
      · exact .inr hc
      · exact .inl hc
    · rintro (hc | hc)
      · by_cases hpath : c.1 = file.1
        · exact .inl (hsame c hc hpath)
        · exact .inr ⟨hc, hpath⟩
      · exact .inl hc

/-- The patches of one path text. -/
def patchesOf (ps : List CaseFilePatch) (path : Text) : List CaseFilePatch :=
  ps.filter fun p => p.path = path

theorem patchesOf_concat_self (ps : List CaseFilePatch) (p : CaseFilePatch) :
    patchesOf (ps ++ [p]) p.path = patchesOf ps p.path ++ [p] := by
  simp [patchesOf]

theorem patchesOf_concat_of_ne (ps : List CaseFilePatch) {p : CaseFilePatch} {path : Text}
    (h : p.path ≠ path) : patchesOf (ps ++ [p]) path = patchesOf ps path := by
  simp [patchesOf, h]

/-- The delta after patches on top of the replacements `files`. -/
structure Patched (view : Dict Text Text) (files : List (Text × Text)) (drops : List Text)
    (ps : List CaseFilePatch) (s : Edited) : Prop where
  nodup : (s.changed.map Prod.fst).Nodup
  /-- The patched texts come behind the replaced ones, each where it was first patched. -/
  keys : ∃ replaced, (∀ path ∈ replaced, path ∈ files.map Prod.fst) ∧
    s.changed.map Prod.fst = replaced ++ (ps.map (·.path)).eraseDups
  replaced : ∀ c ∈ files, c ∈ s.changed
  origin : ∀ c ∈ s.changed, c ∈ files ∨ c.1 ∈ ps.map (·.path)
  untouched : ∀ path ∉ ps.map (·.path), s.effective.get path = view.get path
  apart : ∀ p ∈ ps, p.path ∉ files.map Prod.fst ∧ p.path ∉ drops
  patched : ∀ p ∈ ps, ∃ t t', view.get p.path = some t ∧ ¬ Truncated t ∧
    applyPatches (patchesOf ps p.path) t = some t' ∧ s.effective.get p.path = some t' ∧
    (p.path, t') ∈ s.changed

theorem Replaced.patched {files : List (Text × Text)} {s : Edited} (h : Replaced view files s)
    (drops : List Text) : Patched view files drops [] s where
  nodup := h.nodup
  keys := by
    refine ⟨s.changed.map Prod.fst, fun path hpath => ?_, (List.append_nil _).symm⟩
    obtain ⟨c, hc, rfl⟩ := List.mem_map.1 hpath
    exact List.mem_map_of_mem ((h.mem c).1 hc)
  replaced := fun c hc => (h.mem c).2 hc
  origin := fun c hc => .inl ((h.mem c).1 hc)
  untouched := fun _ _ => by rw [h.effective]
  apart := fun _ hp => absurd hp List.not_mem_nil
  patched := fun _ hp => absurd hp List.not_mem_nil

/-- One more patch without a failure. -/
theorem Patched.concat {files : List (Text × Text)} {drops replaced : List Text}
    {ps : List CaseFilePatch} {p : CaseFilePatch} {s : Edited}
    (hreplaced : ∀ path, path ∈ replaced ↔ path ∈ files.map Prod.fst)
    (h : Patched view files drops ps s) (hok : (s.patch replaced drops p).failures = []) :
    Patched view files drops (ps ++ [p]) (s.patch replaced drops p) := by
  obtain ⟨-, hnr, hnd, current, content, hget, hcut, happly, heq⟩ := Edited.of_patch hok
  have hnf : p.path ∉ files.map Prod.fst := mt (hreplaced _).2 hnr
  obtain ⟨before, hbefore, hkeys⟩ := h.keys
  rw [heq]
  constructor
  · exact nodup_putItem h.nodup
  · refine ⟨before, hbefore, ?_⟩
    have hmem : p.path ∈ s.changed.map Prod.fst ↔ p.path ∈ ps.map (·.path) := by
      rw [hkeys, List.mem_append, List.mem_eraseDups]
      exact or_iff_right fun hp => hnf (hbefore _ hp)
    rw [map_putItem, List.map_append, List.map_singleton]
    by_cases hp : p.path ∈ ps.map (·.path)
    · rw [if_pos (hmem.2 hp), Repetitions.eraseDups_concat_of_mem hp, hkeys]
    · rw [if_neg (mt hmem.1 hp), Repetitions.eraseDups_concat hp, hkeys, List.append_assoc]
  · intro c hc
    have hne : c.1 ≠ p.path := fun hpath => hnf (hpath ▸ List.mem_map_of_mem hc)
    exact mem_putItem.2 (.inr ⟨h.replaced c hc, hne⟩)
  · intro c hc
    rw [List.map_append, List.mem_append]
    rcases mem_putItem.1 hc with rfl | ⟨hc, -⟩
    · exact .inr (.inr (List.mem_singleton.2 rfl))
    · exact (h.origin c hc).imp_right .inl
  · intro path hpath
    rw [List.map_append, List.mem_append, not_or] at hpath
    have hne : path ≠ p.path := fun hp => hpath.2 (hp ▸ List.mem_singleton.2 rfl)
    exact (Dict.get_insert_of_ne _ _ hne).trans (h.untouched path hpath.1)
  · intro q hq
    rcases List.mem_append.1 hq with hq | hq
    · exact h.apart q hq
    · rw [List.mem_singleton.1 hq]
      exact ⟨hnf, hnd⟩
  · intro q hq
    by_cases hpath : q.path = p.path
    · rw [hpath, patchesOf_concat_self]
      have hstart : ∃ t, view.get p.path = some t ∧ ¬ Truncated t ∧
          applyPatches (patchesOf ps p.path) t = some current := by
        by_cases hbefore : p.path ∈ ps.map (·.path)
        · obtain ⟨q', hq', hpath'⟩ := List.mem_map.1 hbefore
          obtain ⟨t, t', hview, hfull, hchain, hget', -⟩ := h.patched q' hq'
          rw [hpath'] at hview hchain hget'
          obtain rfl := Option.some.inj (hget.symm.trans hget')
          exact ⟨t, hview, hfull, hchain⟩
        · have hnone : patchesOf ps p.path = [] := by
            refine List.filter_eq_nil_iff.2 fun q' hq' hpath' => hbefore ?_
            exact of_decide_eq_true hpath' ▸ List.mem_map_of_mem hq'
          rw [h.untouched _ hbefore] at hget
          exact ⟨current, hget, hcut, by rw [hnone]; rfl⟩
      obtain ⟨t, hview, hfull, hchain⟩ := hstart
      refine ⟨t, content, hview, hfull, ?_, Dict.get_insert_self _ _ _, mem_putItem.2 (.inl rfl)⟩
      rw [applyPatches_concat, hchain]
      exact happly
    · have hq : q ∈ ps := (List.mem_append.1 hq).resolve_right fun hq =>
        hpath (congrArg _ (List.mem_singleton.1 hq))
      obtain ⟨t, t', hview, hfull, hchain, hget', hmem⟩ := h.patched q hq
      refine ⟨t, t', hview, hfull, ?_, ?_, mem_putItem.2 (.inr ⟨hmem, hpath⟩)⟩
      · rwa [patchesOf_concat_of_ne ps (Ne.symm hpath)]
      · exact (Dict.get_insert_of_ne _ _ hpath).trans hget'

theorem failures_of_foldl_patch {drops replaced : List Text} {ps : List CaseFilePatch} {s : Edited}
    (h : (ps.foldl (Edited.patch replaced drops) s).failures = []) : s.failures = [] := by
  induction ps generalizing s with
  | nil => exact h
  | cons p ps ih => exact (Edited.of_patch (ih h)).1

theorem Patched.foldl {files : List (Text × Text)} {drops replaced : List Text}
    {ps : List CaseFilePatch} {s : Edited}
    (hreplaced : ∀ path, path ∈ replaced ↔ path ∈ files.map Prod.fst)
    (h : Patched view files drops [] s)
    (hok : (ps.foldl (Edited.patch replaced drops) s).failures = []) :
    Patched view files drops ps (ps.foldl (Edited.patch replaced drops) s) := by
  induction ps using List.reverseRecOn with
  | nil => exact h
  | append_singleton ps p ih =>
    rw [List.foldl_append, List.foldl_cons, List.foldl_nil] at hok ⊢
    exact (ih (Edited.of_patch hok).1).concat hreplaced hok

/-- The drops without a failure. -/
theorem of_foldl_drop {drops : List Text} {s : Edited}
    (h : (drops.foldl Edited.drop s).failures = []) :
    s.failures = [] ∧ (drops.foldl Edited.drop s).changed = s.changed ∧
      (∀ d ∈ drops, d ∉ s.changed.map Prod.fst) ∧
      ∀ path, path ∈ (drops.foldl Edited.drop s).effective ↔ path ∈ s.effective ∧ path ∉ drops := by
  induction drops generalizing s with
  | nil => exact ⟨h, rfl, fun _ hd => absurd hd List.not_mem_nil, by simp⟩
  | cons d drops ih =>
    rw [List.foldl_cons] at h ⊢
    obtain ⟨hs, hchanged, hapart, heffective⟩ := ih h
    obtain ⟨hs, hnot, heq⟩ := Edited.of_drop hs
    rw [heq] at hchanged hapart heffective ⊢
    refine ⟨hs, hchanged, List.forall_mem_cons.2 ⟨hnot, hapart⟩, fun path => ?_⟩
    rw [heffective, AList.mem_erase, List.mem_cons]
    tauto

/-- What is known of a delta that was normalized without a failure. -/
structure Normalized (view : Dict Text Text) (delta : CaseDelta) : Prop where
  edits : ∃ s, Patched view delta.replacements (activeDrops view delta) delta.patches s ∧
    s.changed = (normalizeEdits view delta).changed
  dropped : ∀ d ∈ activeDrops view delta, d ∉ (normalizeEdits view delta).changed.map Prod.fst
  effective : ∀ path, path ∈ (normalizeEdits view delta).effective ↔
    (path ∈ view ∧ path ∉ activeDrops view delta) ∨
      path ∈ (normalizeEdits view delta).changed.map Prod.fst

/-- **By path text the edits of an accepted delta are in order.** -/
theorem normalized_of_edits (h : (normalizeEdits view delta).failures = []) :
    Normalized view delta := by
  obtain ⟨hpatches, hchanged, hapart, heffective⟩ := of_foldl_drop h
  have hreplaced := replaced_of_foldl (failures_of_foldl_patch hpatches)
  set replaced := delta.replacements.foldl Edited.replace { effective := view }
  have hkeys : ∀ path, path ∈ replaced.changed.map Prod.fst ↔
      path ∈ delta.replacements.map Prod.fst := by
    intro path
    simp only [List.mem_map, hreplaced.mem]
  have hpatched := (hreplaced.patched (activeDrops view delta)).foldl hkeys hpatches
  refine ⟨⟨_, hpatched, hchanged.symm⟩, fun d hd => ?_, fun path => ?_⟩
  · exact hchanged ▸ hapart d hd
  · have hview : path ∈ (delta.patches.foldl (Edited.patch (replaced.changed.map Prod.fst)
        (activeDrops view delta)) replaced).effective ↔ path ∈ view := by
      rw [← Dict.get_isSome, ← Dict.get_isSome]
      by_cases hp : path ∈ delta.patches.map (·.path)
      · obtain ⟨p, hmem, rfl⟩ := List.mem_map.1 hp
        obtain ⟨t, t', ht, -, -, ht', -⟩ := hpatched.patched p hmem
        rw [ht, ht']
        rfl
      · rw [hpatched.untouched path hp]
    rw [← hview, ← heffective]
    exact Dict.mem_update

/-! ### The edits of a valid graph -/

variable {m : MeshHost} {registry : MeshRegistry} {graph : CaseDeltaGraph} {native : NativePart}

/-- The drops that are taken up are the known ones of files. -/
theorem Compiled.mem_drops (h : Compiled m registry w plan delta graph view native) {d : Text} :
    d ∈ graph.dropPaths ↔ d ∈ delta.dropPaths ∧ Known w plan d ∧ w.tree.isFile (locate d) := by
  rw [h.drops, activeDrops, List.mem_filter, List.mem_eraseDups, decide_eq_true_eq,
    (effectiveView_eq_ok h.view_eq).2]

/-- The normalization of an accepted delta. -/
theorem Compiled.normalized (h : Compiled m registry w plan delta graph view native) :
    (∃ s, Patched view delta.replacements graph.dropPaths delta.patches s ∧
      s.changed = graph.changedFiles) ∧
      ∀ d ∈ graph.dropPaths, d ∉ graph.changedFiles.map Prod.fst := by
  have hn := normalized_of_edits h.edits
  rw [h.changed, h.drops]
  exact ⟨hn.edits, hn.dropped⟩

end Engineering
end OpenFoamAgent
