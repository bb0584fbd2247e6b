/-
# What committing a delta leaves of each file

A delta edits files, and a file has many path texts. At each place the edits of
an accepted delta ought to be of one kind, and the commit ought to leave the
committed text with exactly these edits applied.

The compilation compares path texts, so both can fail: two texts of one file are
two files to it (`alias_conflict`), a drop under a text that is not tracked is
taken for stale, and patches are applied to the text as it is read, with its
line ends translated. `settled_iff` says that nothing else goes wrong.
-/
import OpenFoamAgent.Engineering.DeltaEdits

namespace OpenFoamAgent
namespace Engineering

open Python Schemas Workspace

/-! ### The edits of a place -/

/-- The replacements of the file at a place. -/
def replacementsAt (delta : CaseDelta) (l : Location) : List (Text × Text) :=
  delta.replacements.filter fun file => locate file.1 = l

/-- The patches of the file at a place. -/
def patchesAt (delta : CaseDelta) (l : Location) : List CaseFilePatch :=
  delta.patches.filter fun p => locate p.path = l

/-- The drops of the file at a place; where there is no file, there is nothing to drop. -/
def dropsAt (w : CaseWorkspace) (delta : CaseDelta) (l : Location) : List Text :=
  delta.dropPaths.filter fun path => locate path = l ∧ w.tree.isFile l

/-- The file at a place is replaced with one content only, patched or dropped, never two
of these. -/
structure OneKind (w : CaseWorkspace) (delta : CaseDelta) (l : Location) : Prop where
  contents : ∀ f ∈ replacementsAt delta l, ∀ g ∈ replacementsAt delta l, f.2 = g.2
  replaced : replacementsAt delta l ≠ [] → patchesAt delta l = [] ∧ dropsAt w delta l = []
  patched : patchesAt delta l ≠ [] → dropsAt w delta l = []

/-- The file at a place of `w'` is that of `w` with the edits of the place applied in order. -/
structure Applied (w w' : CaseWorkspace) (delta : CaseDelta) (l : Location) : Prop where
  untouched : replacementsAt delta l = [] → patchesAt delta l = [] → dropsAt w delta l = [] →
    w'.tree.fileAt l = w.tree.fileAt l
  replaced : ∀ f ∈ replacementsAt delta l, w'.tree.fileAt l = some (encode f.2)
  patched : patchesAt delta l ≠ [] → ∃ t t', w.tree.fileAt l = some (encode t) ∧
    applyPatches (patchesAt delta l) t = some t' ∧ w'.tree.fileAt l = some (encode t')
  dropped : dropsAt w delta l ≠ [] → w'.tree.fileAt l = none

/-! ### The condition -/

/-- No file is named by two path texts in edits that differ, and none is both replaced and
dropped under a text the controller does not know. -/
structure Unaliased (w : CaseWorkspace) (plan : EngineeringPlan) (delta : CaseDelta) : Prop where
  replacements : ∀ f ∈ delta.replacements, ∀ g ∈ delta.replacements,
    locate f.1 = locate g.1 → f.1 = g.1 ∨ f.2 = g.2
  patches : ∀ f ∈ delta.replacements, ∀ p ∈ delta.patches,
    locate f.1 = locate p.path → f.1 = p.path
  replacedDrops : ∀ f ∈ delta.replacements, ∀ d ∈ delta.dropPaths, w.tree.isFile (locate d) →
    locate f.1 = locate d → f.1 = d ∧ Known w plan d
  patchedDrops : ∀ p ∈ delta.patches, ∀ d ∈ delta.dropPaths, w.tree.isFile (locate d) →
    locate p.path = locate d → p.path = d

/-- Of the path texts under which a file is patched, the one that was last to come up. -/
def lastSpelling (delta : CaseDelta) (l : Location) : Option Text :=
  ((delta.patches.map (·.path)).eraseDups.filter fun path => locate path = l).getLast?

/-- The deltas whose edits are applied as they stand. -/
structure OrdinaryDelta (w : CaseWorkspace) (plan : EngineeringPlan) (delta : CaseDelta) :
    Prop extends Unaliased w plan delta where
  /-- A file to drop is dropped under some text the controller knows. -/
  drops : ∀ d ∈ delta.dropPaths, w.tree.isFile (locate d) →
    ∃ d' ∈ delta.dropPaths, locate d' = locate d ∧ Known w plan d'
  /-- A patched file is UTF-8 text without carriage returns. -/
  text : ∀ p ∈ delta.patches, ∃ t, w.tree.fileAt (locate p.path) = some (encode t) ∧ '\r' ∉ t
  /-- Where several path texts name a patched file, the patches under the last of them leave
  what all of them leave in order. -/
  spelling : ∀ l t path, w.tree.fileAt l = some (encode t) → lastSpelling delta l = some path →
    applyPatches (patchesOf delta.patches path) t = applyPatches (patchesAt delta l) t

/-! ### Carriage returns -/

/-- Where a text holds its old part, the replacement takes the first place of it. -/
theorem exists_replaceOnce_eq {old t : Text} (new : Text) (h : count old t ≠ 0) :
    ∃ before after, t = before ++ old ++ after ∧ replaceOnce old new t = before ++ new ++ after := by
  induction t with
  | nil => exact absurd rfl h
  | cons c cs ih =>
    by_cases hprefix : old.isPrefixOf (c :: cs)
    · obtain ⟨after, hafter⟩ := List.isPrefixOf_iff_prefix.1 hprefix
      refine ⟨[], after, hafter.symm, ?_⟩
      rw [replaceOnce, if_pos hprefix, ← hafter, List.drop_left]
      rfl
    · have hrest : count old cs ≠ 0 := by
        unfold count countFrom at h
        rwa [if_neg hprefix] at h
      obtain ⟨before, after, heq, hnew⟩ := ih hrest
      refine ⟨c :: before, after, by rw [heq]; rfl, ?_⟩
      rw [replaceOnce, if_neg hprefix, hnew]
      rfl

/-- The carriage returns of a list of texts. -/
def returns (ts : List Text) : ℕ := (ts.map (List.count '\r')).sum

/-- Patches trade the carriage returns of their old parts for those of their new ones. -/
theorem returns_applyPatches {ps : List CaseFilePatch} {t t' : Text}
    (h : applyPatches ps t = some t') :
    t'.count '\r' + returns (ps.map (·.old)) = t.count '\r' + returns (ps.map (·.new)) := by
  induction ps generalizing t with
  | nil =>
    obtain rfl := Option.some.inj h
    rfl
  | cons p ps ih =>
    rw [applyPatches] at h
    split_ifs at h with hmatch
    have hfound : count p.old t ≠ 0 := by
      rw [hmatch.2]
      exact one_ne_zero
    obtain ⟨before, after, rfl, hnew⟩ := exists_replaceOnce_eq p.new hfound
    have := ih h
    rw [hnew] at this
    simp only [returns, List.map_cons, List.sum_cons, List.count_append] at this ⊢
    omega

/-- The patches without those of one path text. -/
def patchesBut (ps : List CaseFilePatch) (path : Text) : List CaseFilePatch :=
  ps.filter fun p => p.path ≠ path

theorem returns_cons (t : Text) (ts : List Text) :
    returns (t :: ts) = t.count '\r' + returns ts := List.sum_cons

theorem returns_split (g : CaseFilePatch → Text) (ps : List CaseFilePatch) (path : Text) :
    returns (ps.map g) =
      returns ((patchesOf ps path).map g) + returns ((patchesBut ps path).map g) := by
  induction ps with
  | nil => rfl
  | cons p ps ih =>
    by_cases hp : p.path = path
    · have hof : patchesOf (p :: ps) path = p :: patchesOf ps path := by simp [patchesOf, hp]
      have hbut : patchesBut (p :: ps) path = patchesBut ps path := by simp [patchesBut, hp]
      rw [hof, hbut, List.map_cons, List.map_cons, returns_cons, returns_cons, ih, Nat.add_assoc]
    · have hof : patchesOf (p :: ps) path = patchesOf ps path := by simp [patchesOf, hp]
      have hbut : patchesBut (p :: ps) path = p :: patchesBut ps path := by simp [patchesBut, hp]
      rw [hof, hbut, List.map_cons, List.map_cons, returns_cons, returns_cons, ih]
      omega

/-- Where no path text loses carriage returns, the patches together lose none. -/
theorem returns_le_of_spellings {ps : List CaseFilePatch}
    (h : ∀ path, returns ((patchesOf ps path).map (·.old)) ≤
      returns ((patchesOf ps path).map (·.new))) :
    returns (ps.map (·.old)) ≤ returns (ps.map (·.new)) := by
  induction hn : ps.length using Nat.strong_induction_on generalizing ps with
  | _ n ih =>
    rcases ps with _ | ⟨p, ps⟩
    · exact le_rfl
    · -- the patches under the first path text, and the others
      have hshort : (patchesBut (p :: ps) p.path).length < n := by
        rw [← hn]
        exact List.length_filter_lt_length_iff_exists.2 ⟨p, List.mem_cons_self, by simp⟩
      have hothers : ∀ path, returns ((patchesOf (patchesBut (p :: ps) p.path) path).map (·.old)) ≤
          returns ((patchesOf (patchesBut (p :: ps) p.path) path).map (·.new)) := by
        intro path
        by_cases hpath : path = p.path
        · have hnone : patchesOf (patchesBut (p :: ps) p.path) path = [] := by
            refine List.filter_eq_nil_iff.2 fun q hq hqp => ?_
            have hne := of_decide_eq_true (List.mem_filter.1 hq).2
            exact hne ((of_decide_eq_true hqp).trans hpath)
          rw [hnone]
          exact le_rfl
        · have hsame : patchesOf (patchesBut (p :: ps) p.path) path = patchesOf (p :: ps) path := by
            rw [patchesOf, patchesBut, List.filter_filter, patchesOf]
            refine List.filter_congr fun q _ => ?_
            by_cases hq : q.path = path <;> simp [hq, hpath]
          rw [hsame]
          exact h path
      have hrest := ih _ hshort hothers rfl
      have hfirst := h p.path
      have hold := returns_split (·.old) (p :: ps) p.path
      have hnew := returns_split (·.new) (p :: ps) p.path
      omega

/-! ### The edits of an accepted delta -/

variable {m : MeshHost} {registry : MeshRegistry} {w w' : CaseWorkspace} {plan : EngineeringPlan}
  {delta : CaseDelta} {graph : CaseDeltaGraph} {view : Dict Text Text} {native : NativePart}

theorem mem_replacementsAt {l : Location} {f : Text × Text} :
    f ∈ replacementsAt delta l ↔ f ∈ delta.replacements ∧ locate f.1 = l := by
  simp [replacementsAt]

theorem mem_patchesAt {l : Location} {p : CaseFilePatch} :
    p ∈ patchesAt delta l ↔ p ∈ delta.patches ∧ locate p.path = l := by
  simp [patchesAt]

theorem mem_dropsAt {l : Location} {d : Text} :
    d ∈ dropsAt w delta l ↔ d ∈ delta.dropPaths ∧ locate d = l ∧ w.tree.isFile l := by
  simp [dropsAt]

/-- What is known of the edits of one place. -/
structure Located (w : CaseWorkspace) (plan : EngineeringPlan) (delta : CaseDelta)
    (changed : List (Text × Text)) (drops : List Text) : Prop where
  nodup : (changed.map Prod.fst).Nodup
  replaced : ∀ f ∈ delta.replacements, f ∈ changed
  origin : ∀ c ∈ changed, c ∈ delta.replacements ∨ ∃ p ∈ delta.patches, p.path = c.1
  apart : ∀ p ∈ delta.patches, p.path ∉ delta.replacements.map Prod.fst ∧ p.path ∉ drops
  /-- A patched text holds what its patches leave of the text read from the file. -/
  patched : ∀ p ∈ delta.patches, Known w plan p.path ∧ ∃ data t',
    w.tree.fileAt (locate p.path) = some data ∧
    applyPatches (patchesOf delta.patches p.path) (viewText data) = some t' ∧
    (p.path, t') ∈ changed
  mem_drops : ∀ d, d ∈ drops ↔ d ∈ delta.dropPaths ∧ Known w plan d ∧ w.tree.isFile (locate d)
  dropped : ∀ d ∈ drops, d ∉ changed.map Prod.fst
  keys : ∃ replaced, (∀ path ∈ replaced, path ∈ delta.replacements.map Prod.fst) ∧
    changed.map Prod.fst = replaced ++ (delta.patches.map (·.path)).eraseDups

theorem Compiled.located (h : Compiled m registry w plan delta graph view native) :
    Located w plan delta graph.changedFiles graph.dropPaths := by
  obtain ⟨⟨s, hs, hchanged⟩, hdropped⟩ := h.normalized
  obtain ⟨hshows, hview⟩ := effectiveView_eq_ok h.view_eq
  rw [← hchanged] at hdropped ⊢
  refine ⟨hs.nodup, hs.replaced, fun c hc => ?_, hs.apart, fun p hp => ?_, fun d => h.mem_drops,
    hdropped, hs.keys⟩
  · refine (hs.origin c hc).imp_right fun hmem => ?_
    obtain ⟨p, hp, hpath⟩ := List.mem_map.1 hmem
    exact ⟨p, hp, hpath⟩
  · obtain ⟨t, t', hget, hfull, hchain, -, hmem⟩ := hs.patched p hp
    have hin : p.path ∈ view := Dict.get_isSome.1 (by rw [hget]; rfl)
    obtain ⟨data, hdata, rfl⟩ := (hshows _ _ hget).resolve_left hfull
    exact ⟨((hview _).1 hin).1, data, t', hdata, hchain, hmem⟩

namespace Located

variable {changed : List (Text × Text)} {drops : List Text}

/-- **The edits of each place are of one kind** exactly when no file is edited under two path
texts. -/
theorem oneKind_iff (h : Located w plan delta changed drops) :
    (∀ l, OneKind w delta l) ↔ Unaliased w plan delta := by
  constructor
  · intro hone
    refine ⟨fun f hf g hg hfg => ?_, fun f hf p hp hfp => ?_, fun f hf d hd hfile hfd => ?_,
      fun p hp d hd hfile hpd => ?_⟩
    · exact .inr ((hone (locate g.1)).contents f (mem_replacementsAt.2 ⟨hf, hfg⟩) g
        (mem_replacementsAt.2 ⟨hg, rfl⟩))
    · have hmem := mem_replacementsAt.2 ⟨hf, hfp⟩
      obtain ⟨hnone, -⟩ := (hone (locate p.path)).replaced (List.ne_nil_of_mem hmem)
      exact absurd (mem_patchesAt.2 ⟨hp, rfl⟩) (hnone ▸ List.not_mem_nil)
    · have hmem := mem_replacementsAt.2 ⟨hf, hfd⟩
      obtain ⟨-, hnone⟩ := (hone (locate d)).replaced (List.ne_nil_of_mem hmem)
      exact absurd (mem_dropsAt.2 ⟨hd, rfl, hfile⟩) (hnone ▸ List.not_mem_nil)
    · have hmem := mem_patchesAt.2 ⟨hp, hpd⟩
      have hnone := (hone (locate d)).patched (List.ne_nil_of_mem hmem)
      exact absurd (mem_dropsAt.2 ⟨hd, rfl, hfile⟩) (hnone ▸ List.not_mem_nil)
  · intro hplain l
    constructor
    · intro f hfmem g hgmem
      obtain ⟨hf, hfl⟩ := mem_replacementsAt.1 hfmem
      obtain ⟨hg, rfl⟩ := mem_replacementsAt.1 hgmem
      rcases hplain.replacements f hf g hg hfl with hpath | hcontent
      · rw [List.inj_on_of_nodup_map h.nodup (h.replaced f hf) (h.replaced g hg) hpath]
      · exact hcontent
    · intro hne
      obtain ⟨f, hmem⟩ := List.exists_mem_of_ne_nil _ hne
      obtain ⟨hf, rfl⟩ := mem_replacementsAt.1 hmem
      constructor
      · refine List.eq_nil_iff_forall_not_mem.2 fun p hp => ?_
        obtain ⟨hp, hpl⟩ := mem_patchesAt.1 hp
        have hpath := hplain.patches f hf p hp hpl.symm
        exact (h.apart p hp).1 (hpath ▸ List.mem_map_of_mem hf)
      · refine List.eq_nil_iff_forall_not_mem.2 fun d hd => ?_
        obtain ⟨hd, hdl, hfile⟩ := mem_dropsAt.1 hd
        rw [← hdl] at hfile
        obtain ⟨hpath, hknown⟩ := hplain.replacedDrops f hf d hd hfile hdl.symm
        exact h.dropped d ((h.mem_drops d).2 ⟨hd, hknown, hfile⟩)
          (hpath ▸ List.mem_map_of_mem (h.replaced f hf))
    · intro hne
      obtain ⟨p, hmem⟩ := List.exists_mem_of_ne_nil _ hne
      obtain ⟨hp, rfl⟩ := mem_patchesAt.1 hmem
      refine List.eq_nil_iff_forall_not_mem.2 fun d hd => ?_
      obtain ⟨hd, hdl, hfile⟩ := mem_dropsAt.1 hd
      rw [← hdl] at hfile
      have hpath := hplain.patchedDrops p hp d hd hfile hdl.symm
      refine (h.apart p hp).2 (hpath ▸ (h.mem_drops d).2 ⟨hd, ?_, hfile⟩)
      exact hpath ▸ (h.patched p hp).1

/-! ### The last change to a place -/

/-- A place that is taken up for dropping has a drop and a file. -/
theorem dropsAt_ne_nil (h : Located w plan delta changed drops) {l : Location}
    (hl : l ∈ drops.map locate) : dropsAt w delta l ≠ [] := by
  obtain ⟨d, hd, rfl⟩ := List.mem_map.1 hl
  obtain ⟨hd, -, hfile⟩ := (h.mem_drops d).1 hd
  exact List.ne_nil_of_mem (mem_dropsAt.2 ⟨hd, rfl, hfile⟩)

/-- A place without patches holds the content of its replacements. -/
theorem lastText_replaced (h : Located w plan delta changed drops) {l : Location}
    (hone : OneKind w delta l) {f : Text × Text} (hf : f ∈ replacementsAt delta l) :
    lastText changed l = some f.2 := by
  obtain ⟨hf', hfl⟩ := mem_replacementsAt.1 hf
  have hin : l ∈ CaseWorkspace.places changed := List.mem_map.2 ⟨f, h.replaced f hf', hfl⟩
  obtain ⟨t, ht⟩ := Option.ne_none_iff_exists'.1 (mt lastText_eq_none.1 (not_not.2 hin))
  obtain ⟨c, hc, hcl, rfl⟩ := lastText_mem ht
  rcases h.origin c hc with hc | ⟨p, hp, hpath⟩
  · rw [ht, hone.contents c (mem_replacementsAt.2 ⟨hc, hcl⟩) f hf]
  · obtain ⟨hnone, -⟩ := hone.replaced (List.ne_nil_of_mem hf)
    have hmem := mem_patchesAt.2 ⟨hp, hpath.symm ▸ hcl⟩
    exact absurd hmem (hnone ▸ List.not_mem_nil)

/-- A place without replacements and patches is not changed. -/
theorem lastText_none (h : Located w plan delta changed drops) {l : Location}
    (hr : replacementsAt delta l = []) (hp : patchesAt delta l = []) :
    lastText changed l = none := by
  refine lastText_eq_none.2 fun hl => ?_
  obtain ⟨c, hc, hcl⟩ := List.mem_map.1 hl
  rcases h.origin c hc with hc | ⟨p, hpm, hpath⟩
  · exact absurd (mem_replacementsAt.2 ⟨hc, hcl⟩) (hr ▸ List.not_mem_nil)
  · exact absurd (mem_patchesAt.2 ⟨hpm, hpath.symm ▸ hcl⟩) (hp ▸ List.not_mem_nil)

/-- A patched place without replacements holds what the patches under its last path text leave. -/
theorem lastText_patched (h : Located w plan delta changed drops) {l : Location}
    (hr : replacementsAt delta l = []) (hp : patchesAt delta l ≠ []) :
    ∃ p ∈ patchesAt delta l, ∃ data t', lastSpelling delta l = some p.path ∧
      w.tree.fileAt l = some data ∧
      applyPatches (patchesOf delta.patches p.path) (viewText data) = some t' ∧
      lastText changed l = some t' := by
  obtain ⟨replaced, hreplaced, hkeys⟩ := h.keys
  have hfilter : ((changed.filter fun c => locate c.1 = l).map Prod.fst) =
      (delta.patches.map (·.path)).eraseDups.filter fun path => locate path = l := by
    have hmap : ((changed.filter fun c => locate c.1 = l).map Prod.fst) =
        (changed.map Prod.fst).filter fun path => locate path = l := by
      rw [List.filter_map]
      rfl
    have hbefore : replaced.filter (fun path => locate path = l) = [] := by
      refine List.filter_eq_nil_iff.2 fun path hpath hl => ?_
      obtain ⟨f, hf, rfl⟩ := List.mem_map.1 (hreplaced path hpath)
      have hmem := mem_replacementsAt.2 ⟨hf, of_decide_eq_true hl⟩
      exact absurd hmem (hr ▸ List.not_mem_nil)
    rw [hmap, hkeys, List.filter_append, hbefore, List.nil_append]
  obtain ⟨p₀, hat⟩ := List.exists_mem_of_ne_nil _ hp
  obtain ⟨hp₀, rfl⟩ := mem_patchesAt.1 hat
  obtain ⟨-, -, t₀, -, -, hmem₀⟩ := h.patched p₀ hp₀
  have hin : locate p₀.path ∈ CaseWorkspace.places changed := List.mem_map.2 ⟨_, hmem₀, rfl⟩
  obtain ⟨t, ht⟩ := Option.ne_none_iff_exists'.1 (mt lastText_eq_none.1 (not_not.2 hin))
  obtain ⟨c, hc, rfl⟩ := Option.map_eq_some_iff.1 ht
  have hlast : lastSpelling delta (locate p₀.path) = some c.1 := by
    rw [lastSpelling, ← hfilter, List.getLast?_map, hc]
    rfl
  obtain ⟨hcmem, hcl⟩ := List.mem_filter.1 (List.mem_of_getLast? hc)
  obtain ⟨p, hpm, hpath⟩ := (h.origin c hcmem).resolve_left fun hf =>
    absurd (mem_replacementsAt.2 ⟨hf, of_decide_eq_true hcl⟩) (hr ▸ List.not_mem_nil)
  obtain ⟨-, data, t', hdata, hchain, hmem⟩ := h.patched p hpm
  have hsame : (p.path, t') = c := List.inj_on_of_nodup_map h.nodup hmem hcmem hpath
  have hpl : locate p.path = locate p₀.path := hpath ▸ of_decide_eq_true hcl
  refine ⟨p, mem_patchesAt.2 ⟨hpm, hpl⟩, data, t', hpath ▸ hlast, hpl ▸ hdata, hchain, ?_⟩
  rw [ht, ← hsame]

/-- The text of a file without carriage returns, as the view shows it. -/
theorem viewText_encode {t : Text} (ht : '\r' ∉ t) : viewText (encode t) = t := by
  rw [viewText, decodeReplace_encode, universalNewlines_eq_self ht]

/-- The patches under one path text, applied to what the view shows, lose no carriage returns. -/
theorem returns_patchesOf_le (h : Located w plan delta changed drops) {p : CaseFilePatch}
    (hp : p ∈ delta.patches) :
    returns ((patchesOf delta.patches p.path).map (·.old)) ≤
      returns ((patchesOf delta.patches p.path).map (·.new)) := by
  obtain ⟨-, data, t', -, hchain, -⟩ := h.patched p hp
  have hcount := returns_applyPatches hchain
  have hzero : (viewText data).count '\r' = 0 :=
    List.count_eq_zero.2 (cr_notMem_universalNewlines _)
  omega

/-- Where the edits of a place are applied, a patched file has no carriage returns: they would
be translated on the one side and kept on the other. -/
theorem cr_notMem_of_applied (h : Located w plan delta changed drops) {l : Location} {t t' : Text}
    {p : CaseFilePatch} (hp : p ∈ patchesAt delta l)
    (hall : applyPatches (patchesAt delta l) t = some t')
    (hlast : applyPatches (patchesOf delta.patches p.path) (universalNewlines t) = some t') :
    '\r' ∉ t := by
  obtain ⟨-, rfl⟩ := mem_patchesAt.1 hp
  have hof : ∀ q ∈ patchesAt delta (locate p.path),
      patchesOf (patchesAt delta (locate p.path)) q.path = patchesOf delta.patches q.path := by
    intro q hq
    rw [patchesOf, patchesAt, List.filter_filter, patchesOf]
    refine List.filter_congr fun q' _ => ?_
    by_cases hpath : q'.path = q.path
    · simp [hpath, (mem_patchesAt.1 hq).2]
    · simp [hpath]
  have hothers : returns ((patchesBut (patchesAt delta (locate p.path)) p.path).map (·.old)) ≤
      returns ((patchesBut (patchesAt delta (locate p.path)) p.path).map (·.new)) := by
    refine returns_le_of_spellings fun path => ?_
    rcases hnil : patchesOf (patchesBut (patchesAt delta (locate p.path)) p.path) path with
      _ | ⟨q, qs⟩
    · exact le_rfl
    · have hq : q ∈ patchesOf (patchesBut (patchesAt delta (locate p.path)) p.path) path := by
        rw [hnil]
        exact List.mem_cons_self
      obtain ⟨hqbut, hqpath⟩ := List.mem_filter.1 hq
      obtain ⟨hqat, hqne⟩ := List.mem_filter.1 hqbut
      obtain rfl := of_decide_eq_true hqpath
      have hsame : patchesOf (patchesBut (patchesAt delta (locate p.path)) p.path) q.path =
          patchesOf delta.patches q.path := by
        rw [← hof q hqat, patchesOf, patchesBut, List.filter_filter, patchesOf]
        refine List.filter_congr fun q' _ => ?_
        by_cases hpath : q'.path = q.path
        · simp [hpath, of_decide_eq_true hqne]
        · simp [hpath]
      rw [← hnil, hsame]
      exact h.returns_patchesOf_le (mem_patchesAt.1 hqat).1
  have hzero : (universalNewlines t).count '\r' = 0 :=
    List.count_eq_zero.2 (cr_notMem_universalNewlines t)
  have hcountAll := returns_applyPatches hall
  have hcountLast := returns_applyPatches hlast
  rw [← hof p hp] at hcountLast
  have hold := returns_split (·.old) (patchesAt delta (locate p.path)) p.path
  have hnew := returns_split (·.new) (patchesAt delta (locate p.path)) p.path
  exact List.count_eq_zero.1 (by omega)

/-- The condition on the edits of one place, beside their being of one kind. -/
theorem applied_iff (h : Located w plan delta changed drops) (hone : ∀ l, OneKind w delta l)
    (hfiles : ∀ l, w'.tree.fileAt l = if l ∈ drops.map locate then none
      else (lastText changed l).elim (w.tree.fileAt l) fun t => some (encode t)) :
    (∀ l, Applied w w' delta l) ↔ OrdinaryDelta w plan delta := by
  -- a place that is not dropped
  have hkept : ∀ l, dropsAt w delta l = [] → w'.tree.fileAt l =
      (lastText changed l).elim (w.tree.fileAt l) fun t => some (encode t) := by
    intro l hl
    rw [hfiles, if_neg fun hmem => h.dropsAt_ne_nil hmem hl]
  have hreplaced : ∀ l, patchesAt delta l ≠ [] → replacementsAt delta l = [] :=
    fun l hp => by_contra fun hr => hp ((hone l).replaced hr).1
  constructor
  · intro happlied
    have hpatched : ∀ l, patchesAt delta l ≠ [] → ∃ p ∈ patchesAt delta l, ∃ t t',
        w.tree.fileAt l = some (encode t) ∧ '\r' ∉ t ∧ lastSpelling delta l = some p.path ∧
        applyPatches (patchesOf delta.patches p.path) t = some t' ∧
        applyPatches (patchesAt delta l) t = some t' := by
      intro l hne
      obtain ⟨t, t', hfile, hall, hafter⟩ := (happlied l).patched hne
      obtain ⟨p, hp, data, t'', hspelling, hdata, hchain, hlast⟩ :=
        h.lastText_patched (hreplaced l hne) hne
      obtain rfl := Option.some.inj (hfile.symm.trans hdata)
      rw [hkept l ((hone l).patched hne), hlast] at hafter
      obtain rfl := encode_injective (Option.some.inj hafter)
      have hcr : '\r' ∉ t := by
        refine h.cr_notMem_of_applied hp hall ?_
        rwa [viewText, decodeReplace_encode] at hchain
      rw [viewText_encode hcr] at hchain
      exact ⟨p, hp, t, t'', hfile, hcr, hspelling, hchain, hall⟩
    refine ⟨h.oneKind_iff.1 hone, fun d hd hfile => ?_, fun p hp => ?_, fun l t path ht hpath => ?_⟩
    · by_contra hnone
      have hne := List.ne_nil_of_mem (mem_dropsAt.2 ⟨hd, rfl, hfile⟩)
      have hnot : locate d ∉ drops.map locate := by
        intro hmem
        obtain ⟨d', hd', hloc⟩ := List.mem_map.1 hmem
        obtain ⟨hd', hknown, -⟩ := (h.mem_drops d').1 hd'
        exact hnone ⟨d', hd', hloc, hknown⟩
      have hnop : patchesAt delta (locate d) = [] := by_contra fun hp => hne ((hone _).patched hp)
      have hnor : replacementsAt delta (locate d) = [] :=
        by_contra fun hr => hne ((hone _).replaced hr).2
      have hgone := (happlied (locate d)).dropped hne
      rw [hfiles, if_neg hnot, h.lastText_none hnor hnop] at hgone
      rw [FileTree.isFile, show w.tree.fileAt (locate d) = none from hgone] at hfile
      cases hfile
    · obtain ⟨-, -, t, -, hfile, hcr, -⟩ :=
        hpatched (locate p.path) (List.ne_nil_of_mem (mem_patchesAt.2 ⟨hp, rfl⟩))
      exact ⟨t, hfile, hcr⟩
    · have hne : patchesAt delta l ≠ [] := by
        obtain ⟨hmem, hl⟩ := List.mem_filter.1 (List.mem_of_getLast? hpath)
        obtain ⟨p, hp, rfl⟩ := List.mem_map.1 (List.mem_eraseDups.1 hmem)
        exact List.ne_nil_of_mem (mem_patchesAt.2 ⟨hp, of_decide_eq_true hl⟩)
      obtain ⟨p, -, t₁, t', hfile, -, hspelling, hchain, hall⟩ := hpatched l hne
      obtain rfl := Option.some.inj (hpath.symm.trans hspelling)
      obtain rfl := encode_injective (Option.some.inj (ht.symm.trans hfile))
      rw [hchain, hall]
  · intro hord l
    constructor
    · intro hr hp hd
      rw [hkept l hd, h.lastText_none hr hp]
      rfl
    · intro f hf
      rw [hkept l ((hone l).replaced (List.ne_nil_of_mem hf)).2, h.lastText_replaced (hone l) hf]
      rfl
    · intro hne
      obtain ⟨p, hp, data, t', hspelling, hdata, hchain, hlast⟩ :=
        h.lastText_patched (hreplaced l hne) hne
      obtain ⟨hpm, rfl⟩ := mem_patchesAt.1 hp
      obtain ⟨t, hfile, hcr⟩ := hord.text p hpm
      obtain rfl := Option.some.inj (hfile.symm.trans hdata)
      rw [viewText_encode hcr, hord.spelling _ t _ hfile hspelling] at hchain
      refine ⟨t, t', hfile, hchain, ?_⟩
      rw [hkept _ ((hone _).patched hne), hlast]
      rfl
    · intro hne
      obtain ⟨d, hmem⟩ := List.exists_mem_of_ne_nil _ hne
      obtain ⟨hd, rfl, hfile⟩ := mem_dropsAt.1 hmem
      obtain ⟨d', hd', hloc, hknown⟩ := hord.drops d hd hfile
      have hin : d' ∈ drops := (h.mem_drops d').2 ⟨hd', hknown, hloc ▸ hfile⟩
      rw [hfiles, if_pos (hloc ▸ List.mem_map_of_mem hin)]

end Located

/-- **When committing an accepted delta does what its edits say.** The edits of each file are of
one kind exactly when no file is named by two path texts in edits that differ; and when the
commit returns, each file is the committed one with exactly its edits applied, in order, exactly
for the ordinary deltas. -/
theorem settled_iff {check : HeaderCheck}
    (hcompile : compileCaseDeltaGraph m check registry w plan delta = .ok graph)
    (hvalid : graph.Valid) :
    ((∀ l, OneKind w delta l) ↔ Unaliased w plan delta) ∧
      ∀ w' digests,
        w.commitTextTransaction m.host graph.changedFiles graph.dropPaths = (w', .ok digests) →
        ((∀ l, OneKind w delta l ∧ Applied w w' delta l) ↔ OrdinaryDelta w plan delta) := by
  obtain ⟨view, native, hgraph⟩ := compiled_of_valid hcompile hvalid
  have hlocated := hgraph.located
  refine ⟨hlocated.oneKind_iff, fun w' digests hcommit => ?_⟩
  have hfiles := CaseWorkspace.commitTextTransaction_files hcommit
  constructor
  · intro h
    exact (hlocated.applied_iff (fun l => (h l).1) hfiles).1 fun l => (h l).2
  · intro h l
    have hone := hlocated.oneKind_iff.2 h.toUnaliased
    exact ⟨hone l, (hlocated.applied_iff hone hfiles).2 h l⟩

/-! ### Two texts of one file -/

/-- A plan with the root scope. -/
def rootPlan : EngineeringPlan where
  caseName := "cavity".toList
  solver := "incompressibleFluid".toList
  solverProviderId := "foundation".toList
  execution := some
    { driver := "foamRun".toList, driverProviderId := "foundation".toList, scopes := [{}] }
  openfoamVersion := "13".toList
  problemInterpretation := "flow".toList
  temporalBehavior := .steady
  motionKind := .static
  meshMotionRequirement := .static
  meshStrategy := "blocks".toList
  confirmedIntakeSha256 := []

/-- A dictionary with the given body. -/
def dictionaryText (body : String) : Text :=
  "FoamFile\x7bversion 2.0;format ascii;class dictionary;object a;\x7d\n".toList ++ body.toList

/-- A case with one tracked file. -/
def smallCase : CaseWorkspace where
  tree := ((∅ : FileTree Text Bytes).insert ["system".toList] .directory).insert
    ["system".toList, "b".toList] (.file (encode (dictionaryText "b 1;\n")))
  authoredPaths := .ofList ["system/b".toList]
  assetPaths := .empty

/-- A machine on which an include leads below the directory of its file. -/
def plainHost : MeshHost :=
  ⟨Host.reliable, fun _ directory raw => some (directory ++ pathParts raw)⟩

/-- Two contents for `system/a`, under two texts of its path. -/
def aliasDelta : CaseDelta where
  replacements := [("system/a".toList, dictionaryText "a 1;\n"),
    ("system//a".toList, dictionaryText "a 2;\n")]

/-- The graph of a delta to the small case and what its commit leaves, where both return and the
graph is valid. -/
def settled (plan : EngineeringPlan) (delta : CaseDelta) :
    Option (CaseDeltaGraph × CaseWorkspace) :=
  match compileCaseDeltaGraph plainHost (fun _ _ _ => some []) .absent smallCase plan delta with
  | .error _ => none
  | .ok graph =>
    match smallCase.commitTextTransaction plainHost.host graph.changedFiles graph.dropPaths with
    | (_, .error _) => none
    | (w, .ok _) => if graph.failures = [] then some (graph, w) else none

theorem exists_of_settled {p : CaseDeltaGraph × CaseWorkspace → Bool}
    (h : (settled plan delta).any p = true) :
    ∃ graph, compileCaseDeltaGraph plainHost (fun _ _ _ => some []) .absent smallCase plan
        delta = .ok graph ∧ graph.Valid ∧
      ∃ w' digests, smallCase.commitTextTransaction plainHost.host graph.changedFiles
        graph.dropPaths = (w', .ok digests) ∧ p (graph, w') = true := by
  unfold settled at h
  split at h
  · cases h
  · rename_i graph hgraph
    split at h
    · cases h
    · rename_i w' digests hcommit
      split_ifs at h with hvalid
      · exact ⟨graph, hgraph, hvalid, w', digests, hcommit, h⟩
      · cases h

/-- **Two contents for one file pass** under two texts of its path: the graph is valid, the
commit returns, and the second content replaces the first without a word. -/
theorem alias_conflict :
    (∃ graph, compileCaseDeltaGraph plainHost (fun _ _ _ => some []) .absent smallCase rootPlan
        aliasDelta = .ok graph ∧ graph.Valid ∧
        ∃ w' digests, smallCase.commitTextTransaction plainHost.host graph.changedFiles
          graph.dropPaths = (w', .ok digests) ∧
          w'.tree.fileAt ["system".toList, "a".toList] = some (encode (dictionaryText "a 2;\n"))) ∧
      ¬ OneKind smallCase aliasDelta ["system".toList, "a".toList] := by
  have hsettles : (settled rootPlan aliasDelta).any (fun s =>
      s.2.tree.fileAt ["system".toList, "a".toList] == some (encode (dictionaryText "a 2;\n"))) =
      true := by
    decide +kernel
  obtain ⟨graph, hgraph, hvalid, w', digests, hcommit, hfile⟩ := exists_of_settled hsettles
  refine ⟨⟨graph, hgraph, hvalid, w', digests, hcommit, eq_of_beq hfile⟩, fun h => ?_⟩
  have hsame := h.contents ("system/a".toList, dictionaryText "a 1;\n") (by decide +kernel)
    ("system//a".toList, dictionaryText "a 2;\n") (by decide +kernel)
  exact absurd hsame (by decide +kernel)

/-- A delta that patches the tracked file and adds another. -/
def patchDelta : CaseDelta where
  replacements := [("system/a".toList, dictionaryText "a 1;\n")]
  patches := [⟨"system/b".toList, "b 1".toList, "b 2".toList⟩]

/-- The patched file of `settled_iff`, committed. -/
theorem settled_iff_patched :
    ∃ graph w' digests,
      compileCaseDeltaGraph plainHost (fun _ _ _ => some []) .absent smallCase rootPlan
        patchDelta = .ok graph ∧
      smallCase.commitTextTransaction plainHost.host graph.changedFiles graph.dropPaths =
        (w', .ok digests) ∧
      ((∀ l, OneKind smallCase patchDelta l ∧ Applied smallCase w' patchDelta l) ↔
        OrdinaryDelta smallCase rootPlan patchDelta) := by
  have hsettles : (settled rootPlan patchDelta).any (fun _ => true) = true := by
    decide +kernel
  obtain ⟨graph, hgraph, hvalid, w', digests, hcommit, -⟩ := exists_of_settled hsettles
  exact ⟨graph, w', digests, hgraph, hcommit, (settled_iff hgraph hvalid).2 w' digests hcommit⟩

end Engineering
end OpenFoamAgent
