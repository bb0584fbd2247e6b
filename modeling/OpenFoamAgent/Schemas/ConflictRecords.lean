/-
# What the authoring normalisation loses

Two raw files of one path with different contents, two classes of one typed
dictionary, two values of one entry, a path authored raw and typed: the normalisation
keeps one side and records the path. The record is a list cut at forty tokens, while
a payload may hold many more conflicts.

`Lossless` says that everything dropped is kept elsewhere or recorded, `Recordable`
that the conflicts of the payload fit the cut lists. For every accepted payload the two
are the same, and validating the dump again changes nothing.
-/
import OpenFoamAgent.Schemas.AuthoringReload

namespace OpenFoamAgent
namespace Schemas

open Python Repetitions

namespace AuthoringPayload

variable (p : AuthoringPayload)

/-- The paths of the raw files. -/
def rawPaths : List Text := p.files.filterMap (Option.map RawFile.key)

/-- The paths of the typed dictionaries. -/
def typedPaths : List Text := p.typedDictionaries.filterMap (Option.map RawTyped.key)

/-- The conflict tokens of the payload: raw files of one path that differ, classes of one path
that differ, and paths that are both raw and typed. -/
def clashTokens : List Text :=
  clashes (Option.map RawFile.key) (Option.map fun f => f.content.strOrEmpty)
    (tokenOf "raw-file:") p.files ++
  clashes classKey classOf (tokenOf "typed-class:") p.typedDictionaries ++
  (p.rawPaths.filter (· ∈ p.typedPaths)).filterMap (tokenOf "mixed-representation:")

/-- The entries authored for a typed dictionary, over all its repetitions. -/
def entriesAt (path : Text) : List (Option RawEntry) :=
  (typedAt p.typedDictionaries path).flatMap (·.entries)

/-- The entry conflicts carried for a typed dictionary. -/
def carriedAt (path : Text) : List Text :=
  ((typedAt p.typedDictionaries path).flatMap (·.entryConflicts)).filter nonBlank

/-- The entry paths of a typed dictionary at which two authored values differ. -/
def entryClashesAt (path : Text) : List Text :=
  clashes (Option.map RawEntry.key) (Option.map fun e => canonicalTypedValue e.value.strOrEmpty)
    (tokenOf "") (p.entriesAt path)

/-- The conflicts of the payload fit the records: those among its files, and those among the
entries of every typed dictionary that no raw file replaces. -/
structure Recordable : Prop where
  conflicts : Fits conflictLimit p.carried p.clashTokens
  entries : ∀ path ∈ p.typedPaths, path ∉ p.rawPaths →
    Fits conflictLimit (p.carriedAt path) (p.entryClashesAt path)

/-- Everything authored is kept by the action, up to the surroundings of a typed value, or its
path is recorded as a conflict. -/
structure Lossless (a : CaseAuthoringAction) : Prop where
  file : ∀ f, some f ∈ p.files →
    (∃ g ∈ a.files, g.path = f.key ∧ g.content = f.content.strOrEmpty) ∨
      "raw-file:".toList ++ f.key ∈ a.authoringConflicts
  foamClass : ∀ d d', some d ∈ p.typedDictionaries → some d' ∈ p.typedDictionaries →
    d.key = d'.key → d.classesDiffer d' → "typed-class:".toList ++ d.key ∈ a.authoringConflicts
  dictionary : ∀ d, some d ∈ p.typedDictionaries → (∀ t ∈ a.typedDictionaries, t.path ≠ d.key) →
    "mixed-representation:".toList ++ d.key ∈ a.authoringConflicts
  entry : ∀ d, some d ∈ p.typedDictionaries → ∀ t ∈ a.typedDictionaries, t.path = d.key →
    ∀ e, some e ∈ d.entries →
      (∃ e' ∈ t.entries, e'.path = e.key ∧
        canonicalTypedValue e'.value = canonicalTypedValue e.value.strOrEmpty) ∨
      e.key ∈ t.entryConflicts
  blockMesh : a.blockMesh = p.blockMesh

end AuthoringPayload

/-! ### What an accepted payload holds -/

section Accepted

open CaseAuthoringAction

variable {order : SetOrder} {execute : Bool} {p : AuthoringPayload} {a : CaseAuthoringAction}

theorem files_of_modelValidate (h : modelValidate order execute p = some a) :
    (walkFiles p.carried p.files).1 = a.modelDump.files := by
  obtain ⟨hfields, -⟩ := modelValidate_eq_some.1 h
  exact (ofFields_eq_some.1 hfields).1

theorem typed_of_modelValidate (h : modelValidate order execute p = some a) :
    (p.mergedTyped.result.filter fun item => !(typedPath item ∈ p.mixedPaths)).mapM
      TypedFoamDictionaryFile.ofRaw = some a.typedDictionaries := by
  obtain ⟨hfields, -⟩ := modelValidate_eq_some.1 h
  exact (ofFields_eq_some.1 hfields).2.2.1

/-- A kept raw file is a file of the action. -/
theorem mem_files_of_kept (h : modelValidate order execute p = some a) {f : RawFile}
    (hf : some f ∈ (walkFiles p.carried p.files).1) :
    ∃ g ∈ a.files, g.path = f.key ∧ g.content = f.content.strOrEmpty ∧ g.path ≠ [] := by
  rw [files_of_modelValidate h] at hf
  obtain ⟨g, hg, hgf⟩ := List.mem_map.1 hf
  obtain rfl := Option.some.inj hgf
  have hvalid := List.all_eq_true.1 (sound_of_modelValidate h).files g hg
  refine ⟨g, hg, (CaseBundleFile.key_modelDump hvalid).symm, ?_, ?_⟩
  · rw [CaseBundleFile.modelDump, RawValue.strOrEmpty_text]
  · simp only [CaseBundleFile.valid, Bool.and_eq_true] at hvalid
    exact (isSpace_of_isFilePath (by decide) hvalid.2).1

theorem exists_kept_of_mem (log : List Text) {f : RawFile} (hf : some f ∈ p.files) :
    ∃ f', some f' ∈ (walkFiles log p.files).1 ∧ f'.key = f.key := by
  have hkey : Option.map RawFile.key (some f) = some f.key := rfl
  obtain ⟨b, hb⟩ := exists_firstOf hf hkey
  obtain ⟨f', rfl, hkey⟩ := Option.map_eq_some_iff.1 (of_firstOf hb).2
  exact ⟨f', mem_keepFirst_of_firstOf hb, hkey⟩

theorem nil_notMem_rawPaths (h : modelValidate order execute p = some a) : [] ∉ p.rawPaths := by
  intro hnil
  obtain ⟨item, hitem, hkey⟩ := List.mem_filterMap.1 hnil
  obtain ⟨f, rfl, hf⟩ := Option.map_eq_some_iff.1 hkey
  obtain ⟨f', hf', hkey'⟩ := exists_kept_of_mem p.carried hitem
  obtain ⟨g, -, hgpath, -, hne⟩ := mem_files_of_kept h hf'
  exact hne (hgpath.trans (hkey'.trans hf))

/-- No typed dictionary of an accepted payload lacks a path. -/
theorem key_ne_nil (h : modelValidate order execute p = some a) {d : RawTyped}
    (hd : some d ∈ p.typedDictionaries) : d.key ≠ [] := by
  intro hnil
  obtain ⟨m, hm, hmkey⟩ := exists_mem_result (walkFiles p.carried p.files).2 hd
  have hpath : typedPath (some m) = [] := hmkey.trans hnil
  have hkept : some m ∈ p.mergedTyped.result.filter
      fun item => !decide (typedPath item ∈ p.mixedPaths) := by
    refine List.mem_filter.2 ⟨hm, ?_⟩
    rw [hpath, Bool.not_eq_true', decide_eq_false_iff_not]
    intro hmixed
    exact nil_notMem_rawPaths h (List.mem_dedup.1 (List.mem_filter.1 hmixed).1)
  obtain ⟨t, -, ht⟩ := Traversal.exists_mem_right (typed_of_modelValidate h) hkept
  obtain ⟨r, hr, hnorm, hvalid⟩ := TypedFoamDictionaryFile.ofRaw_eq_some.1 ht
  obtain rfl := Option.some.inj hr
  have htpath : m.key = t.path := by
    rw [← TypedFoamDictionaryFile.key_modelDump hvalid, ← hnorm]
    rfl
  exact (isSpace_of_isFilePath (by decide) (TypedFoamDictionaryFile.valid_path hvalid)).1
    (htpath.symm.trans (hmkey.trans hnil))

theorem mem_typedPaths {path : Text} :
    path ∈ p.typedPaths ↔ ∃ d, some d ∈ p.typedDictionaries ∧ d.key = path := by
  simp [AuthoringPayload.typedPaths, List.mem_filterMap]

theorem mem_mixedPaths (h : modelValidate order execute p = some a) {path : Text} :
    path ∈ p.mixedPaths ↔ path ∈ p.rawPaths ∧ path ∈ p.typedPaths := by
  rw [AuthoringPayload.mixedPaths, List.mem_filter, List.mem_dedup, decide_eq_true_eq]
  refine and_congr_right fun hraw => ?_
  have hne : path ≠ [] := fun hnil => nil_notMem_rawPaths h (hnil ▸ hraw)
  rw [mem_typedPaths, List.mem_map]
  constructor
  · rintro ⟨item, hitem, rfl⟩
    cases item with
    | none => exact absurd rfl hne
    | some m =>
      obtain ⟨-, -, -, d, hd, hdkey⟩ := mergeAll_typedAt ((mem_result hne).1 hitem)
      exact ⟨d, hd, hdkey⟩
  · rintro ⟨d, hd, rfl⟩
    obtain ⟨m, hm, hmkey⟩ := exists_mem_result [] hd
    exact ⟨some m, hm, hmkey⟩

/-- A typed dictionary of the action is the merged dictionary of a path that no raw file
names, normalised. -/
theorem merged_of_mem_typed (h : modelValidate order execute p = some a)
    {t : TypedFoamDictionaryFile} (ht : t ∈ a.typedDictionaries) :
    ∃ m, mergeAll (typedAt p.typedDictionaries t.path) = some m ∧
      m.normalizeDuplicateEntries = t.modelDump ∧ t.path ∉ p.rawPaths := by
  obtain ⟨item, hitem, hraw⟩ := Traversal.exists_mem_left (typed_of_modelValidate h) ht
  obtain ⟨m, rfl, hnorm, hvalid⟩ := TypedFoamDictionaryFile.ofRaw_eq_some.1 hraw
  have hkey : m.key = t.path := by
    rw [← TypedFoamDictionaryFile.key_modelDump hvalid, ← hnorm]
    rfl
  have hne : m.key ≠ [] := hkey ▸
    (isSpace_of_isFilePath (by decide) (TypedFoamDictionaryFile.valid_path hvalid)).1
  obtain ⟨hmem, hmixed⟩ := List.mem_filter.1 hitem
  rw [Bool.not_eq_true', decide_eq_false_iff_not] at hmixed
  have hmerge := (mem_result hne).1 hmem
  refine ⟨m, hkey ▸ hmerge, hnorm, fun hraw => hmixed ?_⟩
  obtain ⟨-, -, -, d, hd, hdkey⟩ := mergeAll_typedAt hmerge
  have hraw' : m.key ∈ p.rawPaths := hkey ▸ hraw
  exact (mem_mixedPaths h).2 ⟨hraw', mem_typedPaths.2 ⟨d, hd, hdkey⟩⟩

/-- Every path of a typed dictionary that no raw file names has a dictionary in the action. -/
theorem exists_typed_of_path (h : modelValidate order execute p = some a) {path : Text}
    (htyped : path ∈ p.typedPaths) (hraw : path ∉ p.rawPaths) :
    ∃ t ∈ a.typedDictionaries, t.path = path := by
  obtain ⟨d, hd, rfl⟩ := mem_typedPaths.1 htyped
  obtain ⟨m, hm, hmkey⟩ := exists_mem_result (walkFiles p.carried p.files).2 hd
  have hkept : some m ∈ p.mergedTyped.result.filter
      fun item => !decide (typedPath item ∈ p.mixedPaths) := by
    refine List.mem_filter.2 ⟨hm, ?_⟩
    rw [Bool.not_eq_true', decide_eq_false_iff_not]
    intro hmixed
    exact hraw (hmkey ▸ ((mem_mixedPaths h).1 hmixed).1)
  obtain ⟨t, ht, hof⟩ := Traversal.exists_mem_right (typed_of_modelValidate h) hkept
  obtain ⟨r, hr, hnorm, hvalid⟩ := TypedFoamDictionaryFile.ofRaw_eq_some.1 hof
  obtain rfl := Option.some.inj hr
  refine ⟨t, ht, ?_⟩
  rw [← TypedFoamDictionaryFile.key_modelDump hvalid, ← hnorm]
  exact hmkey

/-! ### What is recorded -/

/-- The action records the conflict tokens exactly when they fit. -/
theorem records_clashTokens (h : modelValidate order execute p = some a) :
    (∀ t ∈ p.clashTokens, t ∈ a.authoringConflicts) ↔
      Fits conflictLimit p.carried p.clashTokens := by
  obtain ⟨hfields, -⟩ := modelValidate_eq_some.1 h
  have hcut : a.authoringConflicts = (p.conflictLog order).take conflictLimit :=
    (ofFields_eq_some.1 hfields).2.2.2.authoringConflicts.symm
  have hmixed : ∀ path, path ∈ order.list p.mixedPaths ↔
      path ∈ p.rawPaths.filter (· ∈ p.typedPaths) := fun path => by
    rw [(order.perm _).mem_iff, mem_mixedPaths h, List.mem_filter, decide_eq_true_eq]
  have hsame : ∀ t, t ∈ p.foundTokens order ↔ t ∈ p.clashTokens := fun t => by
    rw [AuthoringPayload.foundTokens, AuthoringPayload.clashTokens]
    simp only [List.mem_append, mem_filterMap_leaves]
    refine or_congr_right ?_
    simp only [List.mem_filterMap, hmixed]
  rw [hcut, AuthoringPayload.conflictLog_eq]
  exact forall_mem_take_of_same hsame

/-- Each item of a walk is kept or recorded exactly when the tokens of the clashes are. The kept
items are dumps of checked values, whose paths are their keys. -/
theorem kept_or_recorded_iff {ρ μ : Type} {rawKey rawValue : ρ → Text} {dump : μ → ρ}
    (path : μ → Text) {kind : String} {items : List (Option ρ)} {xs : List μ} {log : List Text}
    (cut : List Text)
    (hkept : (keepFirst (Option.map rawKey) (Option.map rawValue) (tokenOf kind) log items).1 =
      xs.map fun x => some (dump x))
    (hpath : ∀ x ∈ xs, rawKey (dump x) = path x ∧ path x ≠ []) :
    (∀ r, some r ∈ items → (∃ x ∈ xs, path x = rawKey r ∧ rawValue (dump x) = rawValue r) ∨
      kind.toList ++ rawKey r ∈ cut) ↔
    ∀ t ∈ clashes (Option.map rawKey) (Option.map rawValue) (tokenOf kind) items, t ∈ cut := by
  have hkey : ∀ r, some r ∈ items → rawKey r ≠ [] := by
    intro r hr
    have hkey : Option.map rawKey (some r) = some (rawKey r) := rfl
    obtain ⟨b, hb⟩ := exists_firstOf hr hkey
    have hmem : b ∈ (keepFirst (Option.map rawKey) (Option.map rawValue) (tokenOf kind) log items).1 :=
      mem_keepFirst_of_firstOf hb
    rw [hkept] at hmem
    obtain ⟨x, hx, rfl⟩ := List.mem_map.1 hmem
    obtain ⟨hxpath, hne⟩ := hpath x hx
    have hxkey : rawKey (dump x) = rawKey r := Option.some.inj (of_firstOf hb).2
    exact fun hnil => hne (hxpath.symm.trans (hxkey.trans hnil))
  have htoken : ∀ x ∈ items, ∀ k, x.map rawKey = some k → ∃ t, tokenOf kind k = some t := by
    intro x hx k hk
    obtain ⟨r, rfl, rfl⟩ := Option.map_eq_some_iff.1 hk
    exact ⟨_, if_neg (hkey r hx)⟩
  rw [← kept_or_mem_iff (fun k => hkept ▸ firstOf_keepFirst k) (hkept ▸ nodup_keepFirst) htoken]
  constructor
  · intro hall x hx k hk
    obtain ⟨r, rfl, rfl⟩ := Option.map_eq_some_iff.1 hk
    rcases hall r hx with ⟨y, hy, hypath, hyvalue⟩ | hrec
    · exact .inl ⟨_, List.mem_map_of_mem hy, congrArg some ((hpath y hy).1.trans hypath),
        congrArg some hyvalue⟩
    · exact .inr ⟨_, hrec, if_neg (hkey r hx)⟩
  · intro hall r hr
    rcases hall (some r) hr (rawKey r) rfl with ⟨b, hb, hbkey, hbvalue⟩ | ⟨t, ht, htok⟩
    · obtain ⟨y, hy, rfl⟩ := List.mem_map.1 hb
      exact .inl ⟨y, hy, (hpath y hy).1.symm.trans (Option.some.inj hbkey),
        Option.some.inj hbvalue⟩
    · obtain ⟨-, rfl⟩ := tokenOf_eq_some.1 htok
      exact .inr ht

theorem file_iff (h : modelValidate order execute p = some a) :
    (∀ f, some f ∈ p.files → (∃ g ∈ a.files, g.path = f.key ∧ g.content = f.content.strOrEmpty) ∨
      "raw-file:".toList ++ f.key ∈ a.authoringConflicts) ↔
    ∀ t ∈ clashes (Option.map RawFile.key) (Option.map fun f => f.content.strOrEmpty)
      (tokenOf "raw-file:") p.files, t ∈ a.authoringConflicts := by
  rw [← kept_or_recorded_iff CaseBundleFile.path a.authoringConflicts (files_of_modelValidate h)]
  · simp only [CaseBundleFile.modelDump, RawValue.strOrEmpty_text]
  · intro g hg
    have hvalid := List.all_eq_true.1 (sound_of_modelValidate h).files g hg
    have hfile : isFilePath caseRoots g.path := by
      simp only [CaseBundleFile.valid, Bool.and_eq_true] at hvalid
      exact hvalid.2
    exact ⟨CaseBundleFile.key_modelDump hvalid, (isSpace_of_isFilePath (by decide) hfile).1⟩

/-- Classes of one path that differ are recorded exactly when their tokens are. -/
theorem class_iff (h : modelValidate order execute p = some a) :
    (∀ d d', some d ∈ p.typedDictionaries → some d' ∈ p.typedDictionaries → d.key = d'.key →
      d.classesDiffer d' → "typed-class:".toList ++ d.key ∈ a.authoringConflicts) ↔
    ∀ t ∈ clashes classKey classOf (tokenOf "typed-class:") p.typedDictionaries,
      t ∈ a.authoringConflicts := by
  constructor
  · intro hall t ht
    obtain ⟨k, htoken, x, hx, y, hy, hkx, hky, hne⟩ := mem_clashes.1 ht
    obtain ⟨d, rfl, hd, hdk⟩ := classKey_eq_some.1 hkx
    obtain ⟨d', rfl, hd', hdk'⟩ := classKey_eq_some.1 hky
    obtain ⟨-, rfl⟩ := tokenOf_eq_some.1 htoken
    rw [← hdk]
    refine hall d d' hx hy (hdk.trans hdk'.symm) ?_
    simp only [RawTyped.classesDiffer, hd, hd', Bool.and_self, Bool.true_and, bne_iff_ne]
    exact fun heq => hne heq.symm
  · intro hall d d' hd hd' hkey hdiff
    simp only [RawTyped.classesDiffer, Bool.and_eq_true, bne_iff_ne] at hdiff
    refine hall _ (mem_clashes.2 ⟨d.key, if_neg (key_ne_nil h hd), _, hd, _, hd',
      classKey_eq_some.2 ⟨d, rfl, hdiff.1.1, rfl⟩,
      classKey_eq_some.2 ⟨d', rfl, hdiff.1.2, hkey.symm⟩, fun heq => hdiff.2 heq.symm⟩)

/-- A path authored raw and typed is recorded exactly when its token is. -/
theorem dictionary_iff (h : modelValidate order execute p = some a) :
    (∀ d, some d ∈ p.typedDictionaries → (∀ t ∈ a.typedDictionaries, t.path ≠ d.key) →
      "mixed-representation:".toList ++ d.key ∈ a.authoringConflicts) ↔
    ∀ t ∈ (p.rawPaths.filter (· ∈ p.typedPaths)).filterMap (tokenOf "mixed-representation:"),
      t ∈ a.authoringConflicts := by
  constructor
  · intro hall t ht
    obtain ⟨path, hpath, htoken⟩ := List.mem_filterMap.1 ht
    obtain ⟨hraw, htyped⟩ := List.mem_filter.1 hpath
    obtain ⟨d, hd, rfl⟩ := mem_typedPaths.1 (of_decide_eq_true htyped)
    obtain ⟨-, rfl⟩ := tokenOf_eq_some.1 htoken
    refine hall d hd fun t ht heq => ?_
    obtain ⟨-, -, -, hnot⟩ := merged_of_mem_typed h ht
    exact hnot (heq ▸ hraw)
  · intro hall d hd hnone
    have htyped : d.key ∈ p.typedPaths := mem_typedPaths.2 ⟨d, hd, rfl⟩
    have hraw : d.key ∈ p.rawPaths := by
      by_contra hraw
      obtain ⟨t, ht, htpath⟩ := exists_typed_of_path h htyped hraw
      exact hnone t ht htpath
    refine hall _ (List.mem_filterMap.2 ⟨d.key, List.mem_filter.2 ⟨hraw, decide_eq_true htyped⟩, ?_⟩)
    exact if_neg (key_ne_nil h hd)

/-- The entries of a typed dictionary are kept or recorded exactly when their conflicts fit. -/
theorem entry_iff (h : modelValidate order execute p = some a) {t : TypedFoamDictionaryFile}
    (ht : t ∈ a.typedDictionaries) :
    (∀ e, some e ∈ p.entriesAt t.path →
      (∃ e' ∈ t.entries, e'.path = e.key ∧
        canonicalTypedValue e'.value = canonicalTypedValue e.value.strOrEmpty) ∨
      e.key ∈ t.entryConflicts) ↔
    Fits conflictLimit (p.carriedAt t.path) (p.entryClashesAt t.path) := by
  obtain ⟨m, hmerge, hnorm, -⟩ := merged_of_mem_typed h ht
  obtain ⟨-, hentries, hconflicts, -⟩ := mergeAll_typedAt hmerge
  have hvalid := List.all_eq_true.1 (sound_of_modelValidate h).typed t ht
  have hkept : m.walkEntries.1 = t.entries.map fun e => some e.modelDump :=
    congrArg RawTyped.entries hnorm
  have hcut : t.entryConflicts = m.walkEntries.2.take conflictLimit :=
    (congrArg RawTyped.entryConflicts hnorm).symm
  rw [RawTyped.walkEntries, hentries, hconflicts] at hkept hcut
  have hentry : ∀ e ∈ t.entries, e.modelDump.key = e.path ∧ e.path ≠ [] := by
    intro e he
    simp only [TypedFoamDictionaryFile.valid, Bool.and_eq_true, List.all_eq_true] at hvalid
    have hvalid' := hvalid.1.1.1.1 e he
    have hpath : isEntryPath e.path := by
      simp only [FoamDictionaryEntry.valid, Bool.and_eq_true] at hvalid'
      exact hvalid'.1.2
    exact ⟨FoamDictionaryEntry.key_modelDump hvalid', (isSpace_of_isEntryPath hpath).1⟩
  have hiff := kept_or_recorded_iff FoamDictionaryEntry.path t.entryConflicts hkept hentry
  have hvalue : ∀ e : FoamDictionaryEntry, e.modelDump.value.strOrEmpty = e.value := fun e =>
    RawValue.strOrEmpty_text e.value
  simp only [hvalue] at hiff
  refine hiff.trans ?_
  rw [hcut, keepFirst_log]
  exact forall_mem_take_of_same fun _ => mem_filterMap_leaves

theorem mem_entriesAt {path : Text} {e : RawEntry} :
    some e ∈ p.entriesAt path ↔
      ∃ d, some d ∈ p.typedDictionaries ∧ d.key = path ∧ some e ∈ d.entries := by
  simp only [AuthoringPayload.entriesAt, List.mem_flatMap, mem_typedAt, and_assoc]

/-- **What the normalisation loses.** For every accepted payload, everything dropped is kept
elsewhere or recorded, and validating the dump changes nothing, exactly when the conflicts fit
their records. -/
theorem lossless_iff (h : modelValidate order execute p = some a) :
    (p.Lossless a ∧ modelValidate order execute a.modelDump = some a) ↔ p.Recordable := by
  constructor
  · rintro ⟨hl, -⟩
    refine ⟨(records_clashTokens h).1 fun t ht => ?_, fun path htyped hraw => ?_⟩
    · rcases List.mem_append.1 ht with ht | ht
      · rcases List.mem_append.1 ht with ht | ht
        · exact (file_iff h).1 hl.file t ht
        · exact (class_iff h).1 hl.foamClass t ht
      · exact (dictionary_iff h).1 hl.dictionary t ht
    · obtain ⟨t, ht, rfl⟩ := exists_typed_of_path h htyped hraw
      refine (entry_iff h ht).1 fun e he => ?_
      obtain ⟨d, hd, hkey, hed⟩ := mem_entriesAt.1 he
      exact hl.entry d hd t ht hkey.symm e hed
  · intro hr
    have htokens := (records_clashTokens h).2 hr.conflicts
    have hpart : ∀ t, t ∈ p.clashTokens → t ∈ a.authoringConflicts := htokens
    simp only [AuthoringPayload.clashTokens, List.mem_append] at hpart
    refine ⟨{
      file := (file_iff h).2 fun t ht => hpart t (.inl (.inl ht))
      foamClass := (class_iff h).2 fun t ht => hpart t (.inl (.inr ht))
      dictionary := (dictionary_iff h).2 fun t ht => hpart t (.inr ht)
      entry := fun d hd t ht hkey e he => ?_
      blockMesh := ?_ }, modelValidate_modelDump h⟩
    · obtain ⟨-, -, -, hnot⟩ := merged_of_mem_typed h ht
      have hfits := hr.entries t.path (mem_typedPaths.2 ⟨d, hd, hkey.symm⟩) hnot
      exact (entry_iff h ht).2 hfits e (mem_entriesAt.2 ⟨d, hd, hkey.symm, he⟩)
    · obtain ⟨hfields, -⟩ := modelValidate_eq_some.1 h
      exact (ofFields_eq_some.1 hfields).2.2.2.blockMesh.symm

end Accepted

/-! ### A dictionary with too many conflicts -/

/-- An entry named by `n + 1` times the letter `a`. -/
def letterEntry (value : String) (n : ℕ) : Option RawEntry :=
  some { path := .text (List.replicate (n + 1) 'a'), value := .text value.toList }

/-- A typed dictionary that authors `n` entries twice. -/
def doubledFile (n : ℕ) : RawTyped where
  path := .text "system/fvSchemes".toList
  entries := (List.range n).map (letterEntry "steady") ++ (List.range n).map (letterEntry "Euler")

/-- The payload that holds only this dictionary. -/
def doubled (n : ℕ) : AuthoringPayload where
  goal := "author".toList
  typedDictionaries := [some (doubledFile n)]

/-- What two entries authored twice with different values leave. -/
def doubledKept : CaseAuthoringAction where
  goal := "author".toList
  typedDictionaries := [{
    path := "system/fvSchemes".toList
    entries := [⟨['a'], "steady".toList⟩, ⟨['a', 'a'], "steady".toList⟩]
    entryConflicts := [['a'], ['a', 'a']] }]

theorem lossless_iff_doubled :
    ((doubled 2).Lossless doubledKept ∧
      CaseAuthoringAction.modelValidate .listed false doubledKept.modelDump = some doubledKept) ↔
    (doubled 2).Recordable :=
  lossless_iff (by decide +kernel)

/-- Neither the second value of the forty-first entry nor its path is in the action. -/
def losesLetterEntry (a : CaseAuthoringAction) : Bool :=
  a.typedDictionaries.any fun t => t.path = (doubledFile 41).key ∧
    (∀ e' ∈ t.entries, e'.path = List.replicate 41 'a' →
      canonicalTypedValue e'.value ≠ "Euler".toList) ∧
    List.replicate 41 'a' ∉ t.entryConflicts

/-- The two values of the forty-first entry differ, and no record says so. -/
theorem doubled_loses_conflict :
    ∃ p a, CaseAuthoringAction.modelValidate .listed false p = some a ∧ ¬ p.Lossless a := by
  have hcheck : ((CaseAuthoringAction.modelValidate .listed false (doubled 41)).map
      losesLetterEntry) = some true := by decide +kernel
  obtain ⟨a, ha, hloses⟩ := Option.map_eq_some_iff.1 hcheck
  refine ⟨doubled 41, a, ha, fun hl => ?_⟩
  simp only [losesLetterEntry, List.any_eq_true, decide_eq_true_eq] at hloses
  obtain ⟨t, ht, hpath, hvalues, hconflicts⟩ := hloses
  have hmem : letterEntry "Euler" 40 ∈ (doubledFile 41).entries :=
    List.mem_append_right _ (List.mem_map_of_mem (List.mem_range.2 (by decide)))
  have hname : ({ path := .text (List.replicate 41 'a'), value := .text "Euler".toList } :
      RawEntry).key = List.replicate 41 'a' := by decide +kernel
  rcases hl.entry _ (List.mem_singleton_self _) t ht hpath _ hmem with ⟨e', he', hkey, hvalue⟩ | hrec
  · exact hvalues e' he' (hkey.trans hname) (hvalue.trans (by decide +kernel))
  · exact hconflicts (hname ▸ hrec)

end Schemas
end OpenFoamAgent
