/-
# A repaired candidate as an override

What `apply_candidate_case_plan_repair` does to the texts of a candidate. The
files of a candidate stand in three forms; each path renders to one text. The
edits of a repair are followed path by path (`repair_overrides`), and
`repair_accepts` says which repairs are taken: a path that is dropped or patched
and supplied as well is one of them, and a raw file in the place of a typed
dictionary is not.
-/
import OpenFoamAgent.Engineering.CandidateRepair
import OpenFoamAgent.Engineering.DeltaEdits

namespace OpenFoamAgent
namespace Engineering

open Python Schemas

/-! ### The texts of a bundle -/

/-- The patches of one path applied one after the other, each to a text that holds its old part
once and gives a file that passes its checks. -/
def patchFile (path : Text) : List CaseFilePatch → Text → Option Text
  | [], t => some t
  | p :: ps, t =>
    if count p.old t = 1 ∧ (CaseBundleFile.mk path (replaceOnce p.old p.new t)).valid then
      patchFile path ps (replaceOnce p.old p.new t)
    else none

theorem patchFile_append (path : Text) (ps qs : List CaseFilePatch) (t : Text) :
    patchFile path (ps ++ qs) t = (patchFile path ps t).bind (patchFile path qs) := by
  induction ps generalizing t with
  | nil => rfl
  | cons p ps ih =>
    rw [List.cons_append, patchFile, patchFile]
    split_ifs
    · exact ih _
    · rfl

namespace Bundle

/-- The raw file of a path. -/
def rawAt (b : Bundle) (path : Text) : Option CaseBundleFile := b.raw.find? (·.path = path)

/-- The typed dictionary of a path. -/
def typedAt (b : Bundle) (path : Text) : Option TypedFoamDictionaryFile :=
  b.typed.find? (·.path = path)

section
variable (serialize : TypedFoamDictionaryFile → Option Text) (render : BlockMesh → Option Text)

/-- The text that a patch of the path applies to, if there is one. -/
def textAt (b : Bundle) (path : Text) : Option Text :=
  (b.rawAt path).elim ((b.typedAt path).bind serialize) fun f => some f.content

/-- What a path renders to: no file, a file that cannot be rendered, or its text. -/
def rendered (b : Bundle) (path : Text) : Option (Option Text) :=
  match b.rawAt path with
  | some f => some (some f.content)
  | none =>
    match b.typedAt path with
    | some d => some (serialize d)
    | none => if path = blockMeshPath then b.blockMesh.map render else none

end

variable {serialize : TypedFoamDictionaryFile → Option Text} {render : BlockMesh → Option Text}
variable {b b' : Bundle} {path : Text}

theorem textAt_eq_some {t : Text} :
    b.textAt serialize path = some t ↔ b.current serialize path = .ok t := by
  unfold textAt current rawAt typedAt
  cases b.raw.find? (·.path = path) with
  | some f => simp
  | none =>
    cases b.typed.find? (·.path = path) with
    | none => simp
    | some d => cases hd : serialize d <;> simp [hd]

/-- Patches apply to what is rendered, and not to a block mesh. -/
theorem textAt_eq_some_iff (render : BlockMesh → Option Text) {t : Text} :
    b.textAt serialize path = some t ↔
    b.rendered serialize render path = some (some t) ∧
      ((b.rawAt path).isSome ∨ (b.typedAt path).isSome) := by
  unfold textAt rendered
  cases b.rawAt path with
  | some f => simp
  | none =>
    cases b.typedAt path with
    | some d => simp
    | none => simp

@[simp] theorem rawAt_clearMesh (q : Text) : (b.clearMesh q).rawAt path = b.rawAt path := by
  rw [rawAt, raw_clearMesh, rawAt]

@[simp] theorem typedAt_clearMesh (q : Text) : (b.clearMesh q).typedAt path = b.typedAt path := by
  rw [typedAt, typed_clearMesh, typedAt]

theorem blockMesh_clearMesh (q : Text) :
    (b.clearMesh q).blockMesh = if q = blockMeshPath then none else b.blockMesh := by
  unfold clearMesh
  split_ifs <;> rfl

/-! ### Drops -/

theorem drop_at (q path : Text) :
    (b.drop q).rawAt path = (if path = q then none else b.rawAt path) ∧
      (b.drop q).typedAt path = (if path = q then none else b.typedAt path) ∧
      (b.drop q).blockMesh = if q = blockMeshPath then none else b.blockMesh := by
  unfold drop
  rw [rawAt_clearMesh, typedAt_clearMesh, blockMesh_clearMesh]
  exact ⟨find?_popItem, find?_popItem, rfl⟩

/-- Nothing stands at a dropped path, and everything else stays. -/
theorem drops_at (paths : List Text) (path : Text) :
    (paths.foldl drop b).rawAt path = (if path ∈ paths then none else b.rawAt path) ∧
      (paths.foldl drop b).typedAt path = (if path ∈ paths then none else b.typedAt path) ∧
      (paths.foldl drop b).blockMesh = if blockMeshPath ∈ paths then none else b.blockMesh := by
  induction paths generalizing b with
  | nil => simp
  | cons q paths ih =>
    obtain ⟨hraw, htyped, hmesh⟩ := ih (b := b.drop q)
    obtain ⟨hraw', htyped', hmesh'⟩ := drop_at (b := b) q path
    rw [List.foldl_cons, hraw, htyped, hmesh, hraw', htyped', hmesh']
    refine ⟨?_, ?_, ?_⟩
    · by_cases hq : path = q <;> simp [hq]
    · by_cases hq : path = q <;> simp [hq]
    · by_cases hq : q = blockMeshPath
      · simp [hq]
      · simp [hq, Ne.symm hq]

/-! ### Patches -/

theorem patch_eq_ok_iff {p : CaseFilePatch} : b.patch serialize p = .ok b' ↔
    ∃ t t', b.textAt serialize p.path = some t ∧ patchFile p.path [p] t = some t' ∧
      b' = { b with
        raw := putItem (·.path) ⟨p.path, t'⟩ b.raw
        typed := popItem (·.path) p.path b.typed } := by
  unfold patch
  rw [Traversal.bind_eq_ok]
  simp only [textAt_eq_some, patchFile]
  constructor
  · rintro ⟨t, ht, h⟩
    split_ifs at h with hcount hvalid
    obtain rfl := Except.ok.inj h
    exact ⟨t, _, ht, if_pos ⟨not_not.1 hcount, hvalid⟩, rfl⟩
  · rintro ⟨t, t', ht, hpatch, rfl⟩
    split_ifs at hpatch with hcond
    obtain rfl := Option.some.inj hpatch
    exact ⟨t, ht, by rw [if_neg (not_not.2 hcond.1), if_pos hcond.2]⟩

/-- A bundle behind the patches `ps`. -/
structure PatchedBy (serialize : TypedFoamDictionaryFile → Option Text) (b : Bundle)
    (ps : List CaseFilePatch) (b' : Bundle) : Prop where
  patched : ∀ p ∈ ps, ∃ t t', b.textAt serialize p.path = some t ∧
    patchFile p.path (patchesOf ps p.path) t = some t' ∧
    b'.rawAt p.path = some ⟨p.path, t'⟩ ∧ b'.typedAt p.path = none
  kept : ∀ path ∉ ps.map (·.path),
    b'.rawAt path = b.rawAt path ∧ b'.typedAt path = b.typedAt path
  mesh : b'.blockMesh = b.blockMesh

theorem PatchedBy.nil : PatchedBy serialize b [] b :=
  ⟨fun _ hp => absurd hp List.not_mem_nil, fun _ _ => ⟨rfl, rfl⟩, rfl⟩

/-- The text of a path is the patched text. -/
theorem PatchedBy.textAt_eq {ps : List CaseFilePatch} (h : PatchedBy serialize b ps b')
    (path : Text) : b'.textAt serialize path =
      (b.textAt serialize path).bind (patchFile path (patchesOf ps path)) := by
  by_cases hmem : path ∈ ps.map (·.path)
  · obtain ⟨p, hp, rfl⟩ := List.mem_map.1 hmem
    obtain ⟨t, t', ht, hpatched, hraw, -⟩ := h.patched p hp
    rw [ht, Option.bind_some, hpatched, textAt, hraw]
    rfl
  · obtain ⟨hraw, htyped⟩ := h.kept path hmem
    have hnone : patchesOf ps path = [] := List.filter_eq_nil_iff.2 fun p hp hpath =>
      hmem (List.mem_map.2 ⟨p, hp, of_decide_eq_true hpath⟩)
    rw [hnone, textAt, hraw, htyped]
    exact (Option.bind_fun_some _).symm

theorem PatchedBy.concat {ps : List CaseFilePatch} (h : PatchedBy serialize b ps b')
    {p : CaseFilePatch} {b'' : Bundle} (hp : b'.patch serialize p = .ok b'') :
    PatchedBy serialize b (ps ++ [p]) b'' := by
  obtain ⟨t, t', ht, hpatch, rfl⟩ := patch_eq_ok_iff.1 hp
  rw [h.textAt_eq] at ht
  obtain ⟨t₀, ht₀, hbefore⟩ := Option.bind_eq_some_iff.1 ht
  have hwhole : patchFile p.path (patchesOf (ps ++ [p]) p.path) t₀ = some t' := by
    rw [patchesOf_concat_self, patchFile_append, hbefore]
    exact hpatch
  have hraw : ∀ path, rawAt { b' with
      raw := putItem (·.path) ⟨p.path, t'⟩ b'.raw
      typed := popItem (·.path) p.path b'.typed } path =
        if path = p.path then some ⟨p.path, t'⟩ else b'.rawAt path := fun _ => find?_putItem
  have htyped : ∀ path, typedAt { b' with
      raw := putItem (·.path) ⟨p.path, t'⟩ b'.raw
      typed := popItem (·.path) p.path b'.typed } path =
        if path = p.path then none else b'.typedAt path := fun _ => find?_popItem
  refine ⟨fun q hq => ?_, fun path hpath => ?_, h.mesh⟩
  · rw [hraw, htyped]
    by_cases hpath : q.path = p.path
    · rw [if_pos hpath, if_pos hpath, hpath]
      exact ⟨t₀, t', ht₀, hwhole, rfl, rfl⟩
    · rw [if_neg hpath, if_neg hpath, patchesOf_concat_of_ne ps (Ne.symm hpath)]
      refine h.patched q ((List.mem_append.1 hq).resolve_right fun hlast => hpath ?_)
      rw [List.mem_singleton.1 hlast]
  · rw [List.map_append, List.mem_append, not_or] at hpath
    have hne : path ≠ p.path := fun heq => hpath.2 (List.mem_singleton.2 heq)
    rw [hraw, htyped, if_neg hne, if_neg hne]
    exact h.kept path hpath.1

/-- The patches are taken, if and only if each path that is patched has a text to which its
patches apply in order. -/
theorem patches_accepted (ps : List CaseFilePatch) :
    (∃ b', ps.foldlM (patch serialize) b = .ok b') ↔
      ∀ p ∈ ps, ∃ t t', b.textAt serialize p.path = some t ∧
        patchFile p.path (patchesOf ps p.path) t = some t' := by
  constructor
  · rintro ⟨b', h⟩
    have hpatched : PatchedBy serialize b ps b' :=
      Traversal.foldlM_induct h .nil fun done p _ c c' hc hstep => hc.concat hstep
    intro p hp
    obtain ⟨t, t', ht, hpatch, -⟩ := hpatched.patched p hp
    exact ⟨t, t', ht, hpatch⟩
  · intro h
    obtain ⟨b', hb', -⟩ := Traversal.foldlM_progress (f := patch serialize)
      (P := PatchedBy serialize b) (l := ps) .nil fun done p rest heq c hc => by
        obtain ⟨t, t', ht, hpatch⟩ := h p (heq ▸ List.mem_append_right _ List.mem_cons_self)
        have hsplit : patchesOf ps p.path = patchesOf done p.path ++ [p] ++ patchesOf rest p.path := by
          rw [heq]
          simp [patchesOf]
        rw [hsplit, patchFile_append, patchFile_append] at hpatch
        obtain ⟨t₂, hpatch, -⟩ := Option.bind_eq_some_iff.1 hpatch
        obtain ⟨t₁, hbefore, hnext⟩ := Option.bind_eq_some_iff.1 hpatch
        have htext : c.textAt serialize p.path = some t₁ := by
          rw [hc.textAt_eq, ht]
          exact hbefore
        have hstep := patch_eq_ok_iff.2 ⟨t₁, t₂, htext, hnext, rfl⟩
        exact ⟨_, hstep, hc.concat hstep⟩
    exact ⟨b', hb'⟩

/-! ### Replacements -/

/-- A bundle behind the replacements `fs`, and the contents met. -/
structure ReplacedBy (b : Bundle) (fs : List CaseBundleFile) (s : Dict Text Text × Bundle) :
    Prop where
  seen : ∀ f ∈ fs, s.1.get f.path = some f.content
  unseen : ∀ path ∉ fs.map (·.path), s.1.get path = none
  replaced : ∀ f ∈ fs, s.2.rawAt f.path = some f
  kept : ∀ path ∉ fs.map (·.path), s.2.rawAt path = b.rawAt path
  typed : s.2.typed = b.typed
  mesh : s.2.blockMesh = if blockMeshPath ∈ fs.map (·.path) then none else b.blockMesh

theorem ReplacedBy.nil : ReplacedBy b [] (∅, b) :=
  ⟨fun _ hf => absurd hf List.not_mem_nil, fun _ _ => Dict.get_empty _,
    fun _ hf => absurd hf List.not_mem_nil, fun _ _ => rfl, rfl, rfl⟩

theorem replace_eq_ok_iff {seen : Dict Text Text} {f : CaseBundleFile}
    {s : Dict Text Text × Bundle} : b.replace seen f = .ok s ↔
      (∀ content, seen.get f.path = some content → content = f.content) ∧
      f.path ∉ b.typed.map (·.path) ∧ s = (seen.insert f.path f.content,
        clearMesh f.path { b with raw := putItem (·.path) f b.raw }) := by
  unfold replace
  have hseen : (seen.get f.path).any (· ≠ f.content) = true ↔
      ¬ ∀ content, seen.get f.path = some content → content = f.content := by
    cases seen.get f.path <;> simp
  split_ifs with hprior htyped
  · exact ⟨False.elim, fun h => absurd h.1 (hseen.1 hprior)⟩
  · exact ⟨False.elim, fun h => absurd htyped h.2.1⟩
  · have hagree := not_not.1 (mt hseen.2 hprior)
    exact ⟨fun h => ⟨hagree, htyped, (Except.ok.inj h).symm⟩, fun h => by rw [h.2.2]⟩

theorem ReplacedBy.concat {fs : List CaseBundleFile} {s s' : Dict Text Text × Bundle}
    (h : ReplacedBy b fs s) {f : CaseBundleFile} (hf : s.2.replace s.1 f = .ok s') :
    ReplacedBy b (fs ++ [f]) s' := by
  obtain ⟨hprior, -, rfl⟩ := replace_eq_ok_iff.1 hf
  have hpaths : (fs ++ [f]).map (·.path) = fs.map (·.path) ++ [f.path] := List.map_append
  have hraw : ∀ path, rawAt (clearMesh f.path { s.2 with raw := putItem (·.path) f s.2.raw }) path =
      if path = f.path then some f else s.2.rawAt path := fun path => by
    rw [rawAt_clearMesh]
    exact find?_putItem
  -- a file met before under the path of `f` is `f`
  have hsame : ∀ g ∈ fs, g.path = f.path → g = f := by
    intro g hg hpath
    have hcontent := hprior g.content (hpath ▸ h.seen g hg)
    obtain ⟨path, content⟩ := g
    obtain ⟨path', content'⟩ := f
    dsimp only at hpath hcontent
    rw [hpath, hcontent]
  constructor
  · intro g hg
    rcases List.mem_append.1 hg with hg | hg
    · by_cases hpath : g.path = f.path
      · rw [hsame g hg hpath]
        exact Dict.get_insert_self _ _ _
      · rw [Dict.get_insert_of_ne _ _ hpath]
        exact h.seen g hg
    · rw [List.mem_singleton.1 hg]
      exact Dict.get_insert_self _ _ _
  · intro path hpath
    rw [hpaths, List.mem_append, not_or, List.mem_singleton] at hpath
    rw [Dict.get_insert_of_ne _ _ hpath.2]
    exact h.unseen path hpath.1
  · intro g hg
    rw [hraw]
    rcases List.mem_append.1 hg with hg | hg
    · split_ifs with hpath
      · rw [hsame g hg hpath]
      · exact h.replaced g hg
    · rw [List.mem_singleton.1 hg, if_pos rfl]
  · intro path hpath
    rw [hpaths, List.mem_append, not_or, List.mem_singleton] at hpath
    rw [hraw, if_neg hpath.2]
    exact h.kept path hpath.1
  · rw [typed_clearMesh]
    exact h.typed
  · rw [blockMesh_clearMesh, hpaths]
    dsimp only
    rw [h.mesh]
    by_cases hpath : f.path = blockMeshPath
    · simp [hpath]
    · simp [hpath, Ne.symm hpath]

/-- The replacements are taken, if and only if those of one path agree and none of them stands in
the place of a typed dictionary. -/
theorem replacements_accepted (fs : List CaseBundleFile) :
    (∃ s, fs.foldlM (fun s f => replace s.1 s.2 f) (∅, b) = .ok s) ↔
      (∀ f ∈ fs, f.path ∉ b.typed.map (·.path)) ∧
        ∀ f ∈ fs, ∀ g ∈ fs, f.path = g.path → f.content = g.content := by
  constructor
  · rintro ⟨s, h⟩
    have hboth : ReplacedBy b fs s ∧ ∀ f ∈ fs, f.path ∉ b.typed.map (·.path) := by
      refine Traversal.foldlM_induct (P := fun done s => ReplacedBy b done s ∧
        ∀ f ∈ done, f.path ∉ b.typed.map (·.path)) h ⟨.nil, fun _ hf => absurd hf List.not_mem_nil⟩
        fun done f _ s s' hs hstep => ⟨hs.1.concat hstep, fun g hg => ?_⟩
      rcases List.mem_append.1 hg with hg | hg
      · exact hs.2 g hg
      · rw [List.mem_singleton.1 hg, ← hs.1.typed]
        exact (replace_eq_ok_iff.1 hstep).2.1
    refine ⟨hboth.2, fun f hf g hg hpath => ?_⟩
    have hf' := hboth.1.seen f hf
    rw [hpath, hboth.1.seen g hg] at hf'
    exact (Option.some.inj hf').symm
  · rintro ⟨htyped, hsame⟩
    obtain ⟨s, hs, -⟩ := Traversal.foldlM_progress
      (f := fun s f => replace (Prod.fst s) s.2 f) (P := ReplacedBy b) (l := fs) .nil
      fun done f rest heq s hs => by
        have hf : f ∈ fs := heq ▸ List.mem_append_right _ List.mem_cons_self
        have hprior : ∀ content, s.1.get f.path = some content → content = f.content := by
          intro content hcontent
          by_cases hmem : f.path ∈ done.map (·.path)
          · obtain ⟨g, hg, hpath⟩ := List.mem_map.1 hmem
            have hg' : g ∈ fs := heq ▸ List.mem_append_left _ hg
            rw [← hpath, hs.seen g hg] at hcontent
            rw [← Option.some.inj hcontent]
            exact hsame g hg' f hf hpath
          · rw [hs.unseen _ hmem] at hcontent
            cases hcontent
        have hplain : f.path ∉ s.2.typed.map (·.path) := by
          rw [hs.typed]
          exact htyped f hf
        have hstep := replace_eq_ok_iff.2 ⟨hprior, hplain, rfl⟩
        exact ⟨_, hstep, hs.concat hstep⟩
    exact ⟨s, hs⟩

/-! ### Typed dictionaries -/

/-- A bundle behind the typed dictionaries `ds`, and the renderings met. -/
structure RetypedBy (serialize : TypedFoamDictionaryFile → Option Text) (b : Bundle)
    (ds : List TypedFoamDictionaryFile) (s : Dict Text Text × Bundle) : Prop where
  seen : ∀ d ∈ ds, ∃ t, serialize d = some t ∧ s.1.get d.path = some t
  unseen : ∀ path ∉ ds.map (·.path), s.1.get path = none
  retyped : ∀ d ∈ ds, s.2.rawAt d.path = none ∧
    ∃ d', s.2.typedAt d.path = some d' ∧ serialize d' = serialize d
  kept : ∀ path ∉ ds.map (·.path),
    s.2.rawAt path = b.rawAt path ∧ s.2.typedAt path = b.typedAt path
  mesh : s.2.blockMesh = if blockMeshPath ∈ ds.map (·.path) then none else b.blockMesh

theorem RetypedBy.nil : RetypedBy serialize b [] (∅, b) :=
  ⟨fun _ hd => absurd hd List.not_mem_nil, fun _ _ => Dict.get_empty _,
    fun _ hd => absurd hd List.not_mem_nil, fun _ _ => ⟨rfl, rfl⟩, rfl⟩

theorem retype_eq_ok_iff {replaced : List Text} {seen : Dict Text Text}
    {d : TypedFoamDictionaryFile} {s : Dict Text Text × Bundle} :
    b.retype serialize replaced seen d = .ok s ↔
      ∃ t, serialize d = some t ∧ (∀ t', seen.get d.path = some t' → t' = t) ∧
        d.path ∉ replaced ∧ s = (seen.insert d.path t, clearMesh d.path { b with
          raw := popItem (·.path) d.path b.raw
          typed := putItem (·.path) d b.typed }) := by
  unfold retype
  rw [Traversal.bind_eq_ok]
  have hseen : ∀ t, (seen.get d.path).any (· ≠ t) = true ↔
      ¬ ∀ t', seen.get d.path = some t' → t' = t := fun t => by
    cases seen.get d.path <;> simp
  have hrender : ∀ t, (serialize d).elim (.error .serialization) .ok =
      (.ok t : Except RepairError Text) ↔ serialize d = some t := fun t => by
    cases serialize d <;> simp
  refine exists_congr fun t => and_congr (hrender t) ?_
  split_ifs with hprior hreplaced
  · exact ⟨False.elim, fun h => absurd h.1 ((hseen t).1 hprior)⟩
  · exact ⟨False.elim, fun h => absurd hreplaced h.2.1⟩
  · have hagree := not_not.1 (mt (hseen t).2 hprior)
    exact ⟨fun h => ⟨hagree, hreplaced, (Except.ok.inj h).symm⟩, fun h => by rw [h.2.2]⟩

theorem RetypedBy.concat {replaced : List Text} {ds : List TypedFoamDictionaryFile}
    {s s' : Dict Text Text × Bundle} (h : RetypedBy serialize b ds s)
    {d : TypedFoamDictionaryFile} (hd : s.2.retype serialize replaced s.1 d = .ok s') :
    RetypedBy serialize b (ds ++ [d]) s' := by
  obtain ⟨t, ht, hprior, -, rfl⟩ := retype_eq_ok_iff.1 hd
  have hpaths : (ds ++ [d]).map (·.path) = ds.map (·.path) ++ [d.path] := List.map_append
  have hraw : ∀ path, rawAt (clearMesh d.path { s.2 with
      raw := popItem (·.path) d.path s.2.raw
      typed := putItem (·.path) d s.2.typed }) path =
        if path = d.path then none else s.2.rawAt path := fun path => by
    rw [rawAt_clearMesh]
    exact find?_popItem
  have htyped : ∀ path, typedAt (clearMesh d.path { s.2 with
      raw := popItem (·.path) d.path s.2.raw
      typed := putItem (·.path) d s.2.typed }) path =
        if path = d.path then some d else s.2.typedAt path := fun path => by
    rw [typedAt_clearMesh]
    exact find?_putItem
  constructor
  · intro e he
    rcases List.mem_append.1 he with he | he
    · obtain ⟨t', ht', hget⟩ := h.seen e he
      refine ⟨t', ht', ?_⟩
      by_cases hpath : e.path = d.path
      · rw [hprior t' (hpath ▸ hget), hpath]
        exact Dict.get_insert_self _ _ _
      · rw [Dict.get_insert_of_ne _ _ hpath]
        exact hget
    · rw [List.mem_singleton.1 he]
      exact ⟨t, ht, Dict.get_insert_self _ _ _⟩
  · intro path hpath
    rw [hpaths, List.mem_append, not_or, List.mem_singleton] at hpath
    rw [Dict.get_insert_of_ne _ _ hpath.2]
    exact h.unseen path hpath.1
  · intro e he
    rw [hraw, htyped]
    rcases List.mem_append.1 he with he | he
    · split_ifs with hpath
      · obtain ⟨t', ht', hget⟩ := h.seen e he
        refine ⟨rfl, d, rfl, ?_⟩
        rw [ht, ht', hprior t' (hpath ▸ hget)]
      · exact h.retyped e he
    · rw [List.mem_singleton.1 he, if_pos rfl, if_pos rfl]
      exact ⟨rfl, d, rfl, rfl⟩
  · intro path hpath
    rw [hpaths, List.mem_append, not_or, List.mem_singleton] at hpath
    rw [hraw, htyped, if_neg hpath.2, if_neg hpath.2]
    exact h.kept path hpath.1
  · rw [blockMesh_clearMesh, hpaths]
    dsimp only
    rw [h.mesh]
    by_cases hpath : d.path = blockMeshPath
    · simp [hpath]
    · simp [hpath, Ne.symm hpath]

/-- The typed dictionaries are taken, if and only if they render, those of one path agree, and none
has the path of a replacement. -/
theorem typed_accepted (replaced : List Text) (ds : List TypedFoamDictionaryFile) :
    (∃ s, ds.foldlM (fun s d => retype serialize replaced s.1 s.2 d) (∅, b) = .ok s) ↔
      (∀ d ∈ ds, (serialize d).isSome ∧ d.path ∉ replaced) ∧
        ∀ d ∈ ds, ∀ e ∈ ds, d.path = e.path → serialize d = serialize e := by
  constructor
  · rintro ⟨s, h⟩
    have hboth : RetypedBy serialize b ds s ∧ ∀ d ∈ ds, d.path ∉ replaced := by
      refine Traversal.foldlM_induct (P := fun done s => RetypedBy serialize b done s ∧
        ∀ d ∈ done, d.path ∉ replaced) h ⟨.nil, fun _ hd => absurd hd List.not_mem_nil⟩
        fun done d _ s s' hs hstep => ⟨hs.1.concat hstep, fun e he => ?_⟩
      rcases List.mem_append.1 he with he | he
      · exact hs.2 e he
      · rw [List.mem_singleton.1 he]
        obtain ⟨t, -, -, hplain, -⟩ := retype_eq_ok_iff.1 hstep
        exact hplain
    refine ⟨fun d hd => ⟨?_, hboth.2 d hd⟩, fun d hd e he hpath => ?_⟩
    · obtain ⟨t, ht, -⟩ := hboth.1.seen d hd
      rw [ht, Option.isSome_some]
    · obtain ⟨t, ht, hget⟩ := hboth.1.seen d hd
      obtain ⟨t', ht', hget'⟩ := hboth.1.seen e he
      rw [hpath, hget'] at hget
      rw [ht, ht', Option.some.inj hget]
  · rintro ⟨hplain, hsame⟩
    obtain ⟨s, hs, -⟩ := Traversal.foldlM_progress
      (f := fun s d => retype serialize replaced (Prod.fst s) s.2 d)
      (P := RetypedBy serialize b) (l := ds) .nil fun done d rest heq s hs => by
        have hd : d ∈ ds := heq ▸ List.mem_append_right _ List.mem_cons_self
        obtain ⟨t, ht⟩ := Option.isSome_iff_exists.1 (hplain d hd).1
        have hprior : ∀ t', s.1.get d.path = some t' → t' = t := by
          intro t' hget
          by_cases hmem : d.path ∈ done.map (·.path)
          · obtain ⟨e, he, hpath⟩ := List.mem_map.1 hmem
            obtain ⟨t₀, ht₀, hget₀⟩ := hs.seen e he
            have he' : e ∈ ds := heq ▸ List.mem_append_left _ he
            rw [← hpath, hget₀] at hget
            have hrender := hsame e he' d hd hpath
            rw [ht₀, ht] at hrender
            rw [← Option.some.inj hget, Option.some.inj hrender]
          · rw [hs.unseen _ hmem] at hget
            cases hget
        obtain ⟨s', hstep⟩ : ∃ s', s.2.retype serialize replaced s.1 d = .ok s' :=
          ⟨_, retype_eq_ok_iff.2 ⟨t, ht, hprior, (hplain d hd).2, rfl⟩⟩
        exact ⟨s', hstep, hs.concat hstep⟩
    exact ⟨s, hs⟩

/-! ### The whole repair -/

/-- A repair whose edits are all taken. -/
structure Accepts (serialize : TypedFoamDictionaryFile → Option Text) (b : Bundle)
    (r : CandidateRepair) : Prop where
  patched : ∀ p ∈ r.patches, p.path ∉ r.dropPaths ∧ ∃ t t', b.textAt serialize p.path = some t ∧
    patchFile p.path (patchesOf r.patches p.path) t = some t'
  untyped : ∀ f ∈ r.replacementFiles, (b.typedAt f.path).isSome →
    f.path ∈ r.dropPaths ∨ f.path ∈ r.patches.map (·.path)
  sameContent : ∀ f ∈ r.replacementFiles, ∀ g ∈ r.replacementFiles, f.path = g.path →
    f.content = g.content
  rendered : ∀ d ∈ r.typedDictionaries,
    (serialize d).isSome ∧ d.path ∉ r.replacementFiles.map (·.path)
  sameRendering : ∀ d ∈ r.typedDictionaries, ∀ e ∈ r.typedDictionaries, d.path = e.path →
    serialize d = serialize e

theorem repair_eq_ok_iff {r : CandidateRepair} : b.repair serialize r = .ok b' ↔
    ∃ patched replaced seen, r.patches.foldlM (patch serialize) (r.dropPaths.foldl drop b) =
        .ok patched ∧
      r.replacementFiles.foldlM (fun s f => replace s.1 s.2 f) (∅, patched) = .ok replaced ∧
      r.typedDictionaries.foldlM (fun s d => retype serialize
        (r.replacementFiles.map (·.path)) s.1 s.2 d) (∅, replaced.2) = .ok (seen, b') := by
  unfold repair
  constructor
  · intro h
    obtain ⟨patched, hpatched, h⟩ := Traversal.bind_eq_ok.1 h
    obtain ⟨replaced, hreplaced, h⟩ := Traversal.bind_eq_ok.1 h
    obtain ⟨⟨seen, retyped⟩, hretyped, h⟩ := Traversal.bind_eq_ok.1 h
    obtain rfl := Except.ok.inj h
    exact ⟨patched, replaced, seen, hpatched, hreplaced, hretyped⟩
  · rintro ⟨patched, replaced, seen, hpatched, hreplaced, hretyped⟩
    refine Traversal.bind_eq_ok.2 ⟨patched, hpatched, ?_⟩
    refine Traversal.bind_eq_ok.2 ⟨replaced, hreplaced, ?_⟩
    exact Traversal.bind_eq_ok.2 ⟨_, hretyped, rfl⟩

theorem typedAt_eq_none : b.typedAt path = none ↔ path ∉ b.typed.map (·.path) := by
  unfold typedAt
  rw [List.find?_eq_none, List.mem_map, not_exists]
  exact forall_congr' fun d => by simp

theorem textAt_drops (paths : List Text) : (paths.foldl drop b).textAt serialize path =
    if path ∈ paths then none else b.textAt serialize path := by
  obtain ⟨hraw, htyped, -⟩ := drops_at (b := b) paths path
  unfold textAt
  rw [hraw, htyped]
  split_ifs <;> rfl

/-- Where a typed dictionary is left behind the drops and patches. -/
theorem PatchedBy.typedAt_eq_none {r : CandidateRepair} {patched : Bundle}
    (h : PatchedBy serialize (r.dropPaths.foldl drop b) r.patches patched) (path : Text) :
    patched.typedAt path = none ↔ ((b.typedAt path).isSome →
      path ∈ r.dropPaths ∨ path ∈ r.patches.map (·.path)) := by
  by_cases hpatch : path ∈ r.patches.map (·.path)
  · obtain ⟨p, hp, rfl⟩ := List.mem_map.1 hpatch
    obtain ⟨-, -, -, -, -, htyped⟩ := h.patched p hp
    exact iff_of_true htyped fun _ => .inr hpatch
  · obtain ⟨-, htyped, -⟩ := drops_at (b := b) r.dropPaths path
    rw [(h.kept path hpatch).2, htyped]
    by_cases hdrop : path ∈ r.dropPaths
    · simp [hdrop]
    · cases b.typedAt path <;> simp [hdrop, hpatch]

/-- **Which repairs are taken.** -/
theorem repair_accepts (r : CandidateRepair) :
    (∃ b', b.repair serialize r = .ok b') ↔ Accepts serialize b r := by
  have hpatchedBy : ∀ {patched : Bundle},
      r.patches.foldlM (patch serialize) (r.dropPaths.foldl drop b) = .ok patched →
        PatchedBy serialize (r.dropPaths.foldl drop b) r.patches patched := fun hpatched =>
    Traversal.foldlM_induct hpatched .nil fun done p _ c c' hc hstep => hc.concat hstep
  simp only [repair_eq_ok_iff]
  constructor
  · rintro ⟨b', patched, replaced, seen, hpatched, hreplaced, hretyped⟩
    have hpatches := (patches_accepted r.patches).1 ⟨patched, hpatched⟩
    obtain ⟨huntyped, hcontent⟩ := (replacements_accepted r.replacementFiles).1 ⟨_, hreplaced⟩
    obtain ⟨hrendered, hrendering⟩ := (typed_accepted _ r.typedDictionaries).1 ⟨_, hretyped⟩
    refine ⟨fun p hp => ?_, fun f hf => ?_, hcontent, hrendered, hrendering⟩
    · obtain ⟨t, t', ht, hpatch⟩ := hpatches p hp
      rw [textAt_drops] at ht
      split_ifs at ht with hdrop
      exact ⟨hdrop, t, t', ht, hpatch⟩
    · exact ((hpatchedBy hpatched).typedAt_eq_none f.path).1 (typedAt_eq_none.2 (huntyped f hf))
  · intro h
    obtain ⟨patched, hpatched⟩ : ∃ patched,
        r.patches.foldlM (patch serialize) (r.dropPaths.foldl drop b) = .ok patched :=
      (patches_accepted r.patches).2 fun p hp => by
        obtain ⟨hdrop, t, t', ht, hpatch⟩ := h.patched p hp
        exact ⟨t, t', by rw [textAt_drops, if_neg hdrop]; exact ht, hpatch⟩
    obtain ⟨replaced, hreplaced⟩ := (replacements_accepted (b := patched) r.replacementFiles).2
      ⟨fun f hf => typedAt_eq_none.1
        (((hpatchedBy hpatched).typedAt_eq_none f.path).2 (h.untyped f hf)), h.sameContent⟩
    obtain ⟨⟨seen, b'⟩, hretyped⟩ := (typed_accepted (b := replaced.2)
      (r.replacementFiles.map (·.path)) r.typedDictionaries).2 ⟨h.rendered, h.sameRendering⟩
    exact ⟨b', patched, replaced, seen, hpatched, hreplaced, hretyped⟩

/-- The texts `after` are the texts `base` with the edits of a repair in their place. -/
structure Overridden (serialize : TypedFoamDictionaryFile → Option Text) (r : CandidateRepair)
    (base after : Text → Option (Option Text)) : Prop where
  typed : ∀ d ∈ r.typedDictionaries, after d.path = some (serialize d)
  replaced : ∀ f ∈ r.replacementFiles, after f.path = some (some f.content)
  patched : ∀ p ∈ r.patches, p.path ∉ r.supplied → ∃ t t', base p.path = some (some t) ∧
    patchFile p.path (patchesOf r.patches p.path) t = some t' ∧ after p.path = some (some t')
  dropped : ∀ path ∈ r.dropPaths, path ∉ r.patches.map (·.path) → path ∉ r.supplied →
    after path = none
  kept : ∀ path, path ∉ r.dropPaths → path ∉ r.patches.map (·.path) → path ∉ r.supplied →
    after path = base path

theorem rendered_congr (hraw : b'.rawAt path = b.rawAt path)
    (htyped : b'.typedAt path = b.typedAt path)
    (hmesh : path = blockMeshPath → b'.blockMesh = b.blockMesh) :
    b'.rendered serialize render path = b.rendered serialize render path := by
  unfold rendered
  rw [hraw, htyped]
  split
  · rfl
  · split
    · rfl
    · split_ifs with hpath
      · rw [hmesh hpath]
      · rfl

/-- **What a repair makes of the texts.** -/
theorem repair_overrides {r : CandidateRepair} (h : b.repair serialize r = .ok b') :
    Overridden serialize r (b.rendered serialize render) (b'.rendered serialize render) := by
  have haccepts := (repair_accepts r).1 ⟨b', h⟩
  obtain ⟨patched, replaced, seen, hpatched, hreplaced, hretyped⟩ := repair_eq_ok_iff.1 h
  have hp : PatchedBy serialize (r.dropPaths.foldl drop b) r.patches patched :=
    Traversal.foldlM_induct hpatched .nil fun done p _ c c' hc hstep => hc.concat hstep
  have hr : ReplacedBy patched r.replacementFiles replaced :=
    Traversal.foldlM_induct hreplaced .nil fun done f _ s s' hs hstep => hs.concat hstep
  have ht : RetypedBy serialize replaced.2 r.typedDictionaries (seen, b') :=
    Traversal.foldlM_induct hretyped .nil fun done d _ s s' hs hstep => hs.concat hstep
  -- where the repair supplies nothing, the patched bundle shows
  have hplain : ∀ path, path ∉ r.supplied → b'.rawAt path = patched.rawAt path ∧
      b'.typedAt path = patched.typedAt path ∧
        (path = blockMeshPath → b'.blockMesh = patched.blockMesh) := by
    intro path hpath
    rw [CandidateRepair.supplied, List.mem_append, not_or] at hpath
    obtain ⟨hraw, htyped⟩ := ht.kept path hpath.2
    refine ⟨hraw.trans (hr.kept path hpath.1), ?_, ?_⟩
    · rw [htyped, typedAt, hr.typed, typedAt]
    · rintro rfl
      have hmesh : b'.blockMesh = replaced.2.blockMesh := by
        rw [ht.mesh, if_neg hpath.2]
      rw [hmesh, hr.mesh, if_neg hpath.1]
  refine ⟨fun d hd => ?_, fun f hf => ?_, fun p hp' hsupplied => ?_, fun path hdrop hpatch
    hsupplied => ?_, fun path hdrop hpatch hsupplied => ?_⟩
  · obtain ⟨hraw, d', htyped, hsame⟩ := ht.retyped d hd
    rw [rendered, hraw, htyped]
    exact congrArg some hsame
  · have hpath : f.path ∉ r.typedDictionaries.map (·.path) := by
      intro hmem
      obtain ⟨d, hd, hpath⟩ := List.mem_map.1 hmem
      exact (haccepts.rendered d hd).2 (List.mem_map.2 ⟨f, hf, hpath.symm⟩)
    rw [rendered, (ht.kept _ hpath).1, hr.replaced f hf]
  · obtain ⟨-, t, t', htext, hpatch⟩ := haccepts.patched p hp'
    obtain ⟨_, t'', htext', hpatch', hraw, -⟩ := hp.patched p hp'
    rw [textAt_drops, if_neg (haccepts.patched p hp').1, htext] at htext'
    obtain rfl := Option.some.inj htext'
    obtain rfl := Option.some.inj (hpatch.symm.trans hpatch')
    refine ⟨t, t', ((textAt_eq_some_iff render).1 htext).1, hpatch, ?_⟩
    rw [rendered, (hplain _ hsupplied).1, hraw]
  · obtain ⟨hraw, htyped, hmesh⟩ := hplain path hsupplied
    obtain ⟨hraw', htyped'⟩ := hp.kept path hpatch
    obtain ⟨hraw'', htyped'', -⟩ := drops_at (b := b) r.dropPaths path
    rw [rendered, hraw, hraw', hraw'', if_pos hdrop, htyped, htyped', htyped'', if_pos hdrop]
    dsimp only
    split_ifs with hpath
    · subst hpath
      rw [hmesh rfl, hp.mesh, (drops_at (b := b) r.dropPaths blockMeshPath).2.2, if_pos hdrop]
      rfl
    · rfl
  · obtain ⟨hraw, htyped, hmesh⟩ := hplain path hsupplied
    obtain ⟨hraw', htyped'⟩ := hp.kept path hpatch
    obtain ⟨hraw'', htyped'', hmesh''⟩ := drops_at (b := b) r.dropPaths path
    rw [if_neg hdrop] at hraw'' htyped''
    refine rendered_congr ?_ ?_ ?_
    · rw [hraw, hraw', hraw'']
    · rw [htyped, htyped', htyped'']
    · rintro rfl
      rw [hmesh rfl, hp.mesh, hmesh'', if_neg hdrop]

theorem bind_ne_error {α β ε : Type} {x : Except ε α} {f : α → Except ε β} {e : ε}
    (hx : x ≠ .error e) (hf : ∀ a, f a ≠ .error e) : x >>= f ≠ .error e := by
  cases x with
  | error e' =>
    rintro ⟨⟩
    exact hx rfl
  | ok a => exact hf a

theorem foldlM_ne_error {α σ ε : Type} {f : σ → α → Except ε σ} {e : ε}
    (hf : ∀ t a, f t a ≠ .error e) (l : List α) (s : σ) : l.foldlM f s ≠ .error e := by
  induction l generalizing s with
  | nil => exact nofun
  | cons a l ih =>
    rw [List.foldlM_cons]
    exact bind_ne_error (hf s a) ih

/-- The files are refused for reasons of their own. -/
theorem repair_ne_invalidPlan (r : CandidateRepair) :
    b.repair serialize r ≠ .error .invalidPlan := by
  have hpatch : ∀ (c : Bundle) (p : CaseFilePatch),
      c.patch serialize p ≠ .error .invalidPlan := by
    intro c p
    refine bind_ne_error ?_ fun t => ?_
    · unfold current
      split
      · simp
      · split
        · simp
        · rename_i d _
          cases serialize d <;> simp
    · dsimp only
      split_ifs <;> simp
  have hreplace : ∀ (s : Dict Text Text × Bundle) (f : CaseBundleFile),
      s.2.replace s.1 f ≠ .error .invalidPlan := by
    intro s f
    unfold replace
    split_ifs <;> simp
  have hretype : ∀ (s : Dict Text Text × Bundle) (d : TypedFoamDictionaryFile),
      s.2.retype serialize (r.replacementFiles.map (·.path)) s.1 d ≠ .error .invalidPlan := by
    intro s d
    refine bind_ne_error ?_ fun t => ?_
    · cases serialize d <;> simp
    · split_ifs <;> simp
  refine bind_ne_error (foldlM_ne_error hpatch _ _) fun patched => ?_
  refine bind_ne_error (foldlM_ne_error hreplace _ _) fun replaced => ?_
  exact bind_ne_error (foldlM_ne_error hretype _ _) fun retyped h => by cases h

end Bundle

/-! ### The claim of a repair -/

/-- The files of a candidate. -/
def candidateBundle (candidate : ExecuteCasePlanAction) : Bundle :=
  ⟨candidate.action.files, candidate.action.typedDictionaries, candidate.action.blockMesh⟩

namespace CandidateRepair

/-- The repair drops, patches or replaces one path in more than one way. -/
def EditsTwice (serialize : TypedFoamDictionaryFile → Option Text) (r : CandidateRepair) : Prop :=
  (∃ path ∈ r.dropPaths, path ∈ r.patches.map (·.path) ∨ path ∈ r.supplied) ∨
  (∃ p ∈ r.patches, p.path ∈ r.supplied) ∨
  (∃ f ∈ r.replacementFiles, f.path ∈ r.typedDictionaries.map (·.path)) ∨
  (∃ f ∈ r.replacementFiles, ∃ g ∈ r.replacementFiles, f.path = g.path ∧ f.content ≠ g.content) ∨
  ∃ d ∈ r.typedDictionaries, ∃ e ∈ r.typedDictionaries, d.path = e.path ∧
    serialize d ≠ serialize e

/-- The edits have their places: the patches apply to the texts of their paths, and the typed
dictionaries render. -/
structure Applies (serialize : TypedFoamDictionaryFile → Option Text) (r : CandidateRepair)
    (base : Text → Option (Option Text)) : Prop where
  patched : ∀ p ∈ r.patches, ∃ t t', base p.path = some (some t) ∧
    patchFile p.path (patchesOf r.patches p.path) t = some t'
  rendered : ∀ d ∈ r.typedDictionaries, (serialize d).isSome

end CandidateRepair

/-- What a repair of a candidate is to do. -/
structure Composes (serialize : TypedFoamDictionaryFile → Option Text) (render : BlockMesh → Option Text)
    (candidate : ExecuteCasePlanAction) (r : CandidateRepair)
    (result : Except RepairError ExecuteCasePlanAction) : Prop where
  /-- An edit that meets another one is refused. -/
  rejects : r.EditsTwice serialize → ∃ e, result = .error e ∧ e ≠ .invalidPlan
  /-- Other edits are taken; what they give is checked as a whole plan. -/
  returns : ¬ r.EditsTwice serialize →
    r.Applies serialize ((candidateBundle candidate).rendered serialize render) →
      (∃ repaired, result = .ok repaired) ∨ result = .error .invalidPlan
  /-- A candidate that is returned renders to the old texts with the edits in their place. -/
  overrides : ¬ r.EditsTwice serialize → ∀ repaired, result = .ok repaired →
    Bundle.Overridden serialize r ((candidateBundle candidate).rendered serialize render)
      ((candidateBundle repaired).rendered serialize render)

/-- The condition of a repair: edits that meet are refused for another reason, and edits that do
not meet replace no typed dictionary by a raw file, and patch no block mesh. -/
structure Separate (serialize : TypedFoamDictionaryFile → Option Text) (render : BlockMesh → Option Text)
    (bundle : Bundle) (r : CandidateRepair) : Prop where
  met : r.EditsTwice serialize → ¬ Bundle.Accepts serialize bundle r
  apart : ¬ r.EditsTwice serialize → r.Applies serialize (bundle.rendered serialize render) →
    (∀ f ∈ r.replacementFiles, f.path ∉ bundle.typed.map (·.path)) ∧
      ∀ p ∈ r.patches, (bundle.rawAt p.path).isSome ∨ (bundle.typedAt p.path).isSome

section
variable {serialize : TypedFoamDictionaryFile → Option Text} {render : BlockMesh → Option Text}
variable {reload : EngineeringPlan → Option EngineeringPlan} {order : SetOrder}
variable {candidate : ExecuteCasePlanAction} {r : CandidateRepair}

/-- Edits that do not meet are taken, if and only if each of them finds its form. -/
theorem accepts_iff_of_apart {bundle : Bundle} (hapart : ¬ r.EditsTwice serialize)
    (happlies : r.Applies serialize (bundle.rendered serialize render)) :
    Bundle.Accepts serialize bundle r ↔
      (∀ f ∈ r.replacementFiles, f.path ∉ bundle.typed.map (·.path)) ∧
        ∀ p ∈ r.patches, (bundle.rawAt p.path).isSome ∨ (bundle.typedAt p.path).isSome := by
  simp only [CandidateRepair.EditsTwice, not_or, not_exists, not_and] at hapart
  obtain ⟨hdrops, hpatches, hforms, hcontents, hrenderings⟩ := hapart
  constructor
  · intro h
    refine ⟨fun f hf => ?_, fun p hp => ?_⟩
    · rw [← Bundle.typedAt_eq_none, ← Option.not_isSome_iff_eq_none]
      intro hsome
      have hsupplied : f.path ∈ r.supplied := List.mem_append_left _ (List.mem_map_of_mem hf)
      rcases h.untyped f hf hsome with hdrop | hpatch
      · exact (hdrops f.path hdrop).2 hsupplied
      · obtain ⟨p, hp, hpath⟩ := List.mem_map.1 hpatch
        exact hpatches p hp (hpath ▸ hsupplied)
    · obtain ⟨-, t, t', ht, -⟩ := h.patched p hp
      exact ((Bundle.textAt_eq_some_iff render).1 ht).2
  · rintro ⟨huntyped, hfound⟩
    refine ⟨fun p hp => ⟨fun hdrop => ?_, ?_⟩, fun f hf hsome => ?_, fun f hf g hg hpath => ?_,
      fun d hd => ⟨happlies.rendered d hd, fun hmem => ?_⟩, fun d hd e he hpath => ?_⟩
    · exact (hdrops p.path hdrop).1 (List.mem_map_of_mem hp)
    · obtain ⟨t, t', ht, hpatch⟩ := happlies.patched p hp
      exact ⟨t, t', (Bundle.textAt_eq_some_iff render).2 ⟨ht, hfound p hp⟩, hpatch⟩
    · rw [Bundle.typedAt_eq_none.2 (huntyped f hf)] at hsome
      cases hsome
    · exact not_not.1 (hcontents f hf g hg hpath)
    · obtain ⟨f, hf, hpath⟩ := List.mem_map.1 hmem
      exact hforms f hf (hpath ▸ List.mem_map_of_mem hd)
    · exact not_not.1 (hrenderings d hd e he hpath)

/-- The result of a repair, by what becomes of the files. -/
theorem applyCandidateRepair_cases (serialize : TypedFoamDictionaryFile → Option Text)
    (reload : EngineeringPlan → Option EngineeringPlan) (order : SetOrder) (r : CandidateRepair)
    (hc : candidate.action.Validated true) :
    (∃ e, e ≠ .invalidPlan ∧ (candidateBundle candidate).repair serialize r = .error e ∧
      applyCandidateRepair serialize reload order candidate r = .error e) ∨
    ∃ bundle, (candidateBundle candidate).repair serialize r = .ok bundle ∧
      (applyCandidateRepair serialize reload order candidate r = .error .invalidPlan ∨
        ∃ repaired, applyCandidateRepair serialize reload order candidate r = .ok repaired ∧
          candidateBundle repaired = bundle) := by
  cases hrepair : (candidateBundle candidate).repair serialize r with
  | error e =>
    refine .inl ⟨e, ?_, rfl, ?_⟩
    · rintro rfl
      exact Bundle.repair_ne_invalidPlan r hrepair
    · unfold applyCandidateRepair
      exact congrArg (· >>= _) hrepair
  | ok bundle =>
    refine .inr ⟨bundle, rfl, ?_⟩
    have hcall : applyCandidateRepair serialize reload order candidate r =
        (ExecuteCasePlanAction.modelValidate reload order { candidate.action with
          files := bundle.raw
          typedDictionaries := bundle.typed
          blockMesh := bundle.blockMesh }.modelDump candidate.plan).elim
            (.error .invalidPlan) .ok := by
      unfold applyCandidateRepair
      refine (congrArg (· >>= _) hrepair).trans ?_
      dsimp only [bind, Except.bind]
      generalize ExecuteCasePlanAction.modelValidate reload order _ candidate.plan = validated
      cases validated <;> rfl
    rw [hcall]
    cases hvalidate : ExecuteCasePlanAction.modelValidate reload order { candidate.action with
        files := bundle.raw
        typedDictionaries := bundle.typed
        blockMesh := bundle.blockMesh }.modelDump candidate.plan with
    | none => exact .inl rfl
    | some repaired =>
      obtain ⟨-, hfiles, htyped, hmesh, -⟩ :=
        ExecuteCasePlanAction.of_modelValidate (rebuilt_sound hc hrepair).2 hvalidate
      refine .inr ⟨repaired, rfl, ?_⟩
      rw [candidateBundle, hfiles, htyped, hmesh]

/-- **When a repair is an override.** -/
theorem applyCandidateRepair_composes (hc : candidate.action.Validated true) :
    Composes serialize render candidate r
        (applyCandidateRepair serialize reload order candidate r) ↔
      Separate serialize render (candidateBundle candidate) r := by
  have haccepts : (∃ b', (candidateBundle candidate).repair serialize r = .ok b') ↔
      Bundle.Accepts serialize (candidateBundle candidate) r := Bundle.repair_accepts r
  rcases applyCandidateRepair_cases serialize reload order r hc with ⟨e, hne, hrepair, hresult⟩ |
    ⟨bundle, hrepair, hresult⟩
  · have hnot : ¬ Bundle.Accepts serialize (candidateBundle candidate) r := by
      rw [← haccepts, hrepair]
      exact nofun
    rw [hresult]
    constructor
    · refine fun h => ⟨fun _ => hnot, fun hapart happlies => ?_⟩
      rcases h.returns hapart happlies with ⟨repaired, hok⟩ | hinvalid
      · cases hok
      · exact absurd (Except.error.inj hinvalid) hne
    · refine fun h => ⟨fun _ => ⟨e, rfl, hne⟩, fun hapart happlies => ?_, fun _ _ hok => nomatch hok⟩
      exact absurd ((accepts_iff_of_apart hapart happlies).2 (h.apart hapart happlies)) hnot
  · have hyes : Bundle.Accepts serialize (candidateBundle candidate) r :=
      haccepts.1 ⟨bundle, hrepair⟩
    have hrefused : ∀ e, applyCandidateRepair serialize reload order candidate r = .error e →
        e = .invalidPlan := by
      intro e he
      rcases hresult with hinvalid | ⟨repaired, hok, -⟩
      · exact (Except.error.inj (hinvalid.symm.trans he)).symm
      · rw [hok] at he
        cases he
    constructor
    · refine fun h => ⟨fun htwice => ?_, fun hapart happlies =>
        (accepts_iff_of_apart hapart happlies).1 hyes⟩
      obtain ⟨e, he, hne⟩ := h.rejects htwice
      exact absurd (hrefused e he) hne
    · refine fun h => ⟨fun htwice => absurd hyes (h.met htwice), fun _ _ => ?_,
        fun _ repaired hok => ?_⟩
      · rcases hresult with hinvalid | ⟨repaired, hok, -⟩
        · exact .inr hinvalid
        · exact .inl ⟨repaired, hok⟩
      · rcases hresult with hinvalid | ⟨repaired', hok', hbundle⟩
        · rw [hinvalid] at hok
          cases hok
        · obtain rfl := Except.ok.inj (hok'.symm.trans hok)
          rw [hbundle]
          exact Bundle.repair_overrides hrepair

end

/-! ### A path that is dropped and supplied -/

theorem applyCandidateRepair_composes_raw :
    Composes (fun _ => some []) (fun _ => some []) rawConflictCandidate rawRepair
        (applyCandidateRepair (fun _ => some []) some .listed rawConflictCandidate rawRepair) ↔
      Separate (fun _ => some []) (fun _ => some []) (candidateBundle rawConflictCandidate)
        rawRepair :=
  applyCandidateRepair_composes rawConflictCandidate_validated

/-- A repair that drops the only file of a candidate and supplies it anew. -/
def twiceRepair : CandidateRepair where
  replacementFiles := rawRepair.replacementFiles
  dropPaths := ["system/controlDict".toList]
  replacements_valid := rawRepair.replacements_valid
  typed_valid := rawRepair.typed_valid

/-- A path that is dropped and replaced in one repair is not refused. -/
theorem dropped_path_replaced :
    ¬ ∀ serialize render reload order candidate r,
      CaseAuthoringAction.Validated true candidate.action →
        Composes serialize render candidate r
          (applyCandidateRepair serialize reload order candidate r) := by
  intro h
  have hok : applyCandidateRepair (fun _ => some []) some .listed rawConflictCandidate
      twiceRepair = .ok rawRepaired := by
    decide +kernel
  have htwice : twiceRepair.EditsTwice fun _ => some [] :=
    .inl ⟨_, List.mem_cons_self, .inr List.mem_cons_self⟩
  obtain ⟨e, he, -⟩ := (h _ (fun _ => some []) some .listed _ _
    rawConflictCandidate_validated).rejects htwice
  rw [hok] at he
  cases he

end Engineering
end OpenFoamAgent
