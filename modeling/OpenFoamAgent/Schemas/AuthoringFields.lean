/-
# The field checks of an authoring payload

One specification lemma for each model of `Schemas.Authoring`: a raw item passes its
field checks exactly when it is the dump of a valid value. A checked path holds no
white space, so the key the walks compare is the path itself.
-/
import OpenFoamAgent.Library.Traversal
import OpenFoamAgent.Schemas.Authoring

namespace OpenFoamAgent
namespace Schemas

open Python Repetitions

/-! ### Scalars -/

namespace RawValue

theorem asText_eq_some {v : RawValue} {t : Text} : v.asText = some t ↔ v = .text t := by
  cases v <;> simp [asText]

@[simp] theorem strOrEmpty_text (t : Text) : (text t).strOrEmpty = t := by
  cases t <;> rfl

theorem asTextOrNone_eq_some {v : RawValue} {o : Option Text} :
    v.asTextOrNone = some o ↔ v = o.elim .null .text := by
  cases v <;> cases o <;> simp [asTextOrNone]

end RawValue

/-! ### Paths -/

theorem isSpace_of_isFilePath {roots : List String} {path : Text}
    (hroots : ∀ root ∈ roots, root.toList.all isAsciiWord) (h : isFilePath roots path) :
    path ≠ [] ∧ ∀ c ∈ path, isSpace c = false := by
  simp only [isFilePath, Bool.and_eq_true, List.any_eq_true] at h
  obtain ⟨-, root, hroot, h⟩ := h
  split at h
  · cases h
  · rename_i rest hrest
    obtain ⟨front, rfl, hfront⟩ := List.dropPrefix?_eq_some_iff.1 hrest
    obtain rfl := eq_of_beq hfront
    simp only [Bool.and_eq_true, List.all_eq_true, Bool.or_eq_true, decide_eq_true_eq] at h
    refine ⟨by simp, fun c hc => ?_⟩
    rcases List.mem_append.1 hc with hc | hc
    · rcases List.mem_append.1 hc with hc | hc
      · exact isSpace_of_isAsciiWord (List.all_eq_true.1 (hroots root hroot) c hc)
      · rw [List.mem_singleton.1 hc]
        rfl
    · rcases h.2 c hc with hword | hmem
      · exact isSpace_of_isAsciiWord hword
      · simp only [List.mem_cons, List.not_mem_nil, or_false] at hmem
        rcases hmem with rfl | rfl | rfl <;> rfl

theorem strip_of_isFilePath {roots : List String} {path : Text}
    (hroots : ∀ root ∈ roots, root.toList.all isAsciiWord) (h : isFilePath roots path) :
    strip path = path :=
  strip_eq_self (isSpace_of_isFilePath hroots h).2

theorem mem_intercalate {sep c : Char} {segs : List Text} (h : c ∈ [sep].intercalate segs) :
    c = sep ∨ ∃ seg ∈ segs, c ∈ seg := by
  induction segs with
  | nil => cases h
  | cons seg segs ih =>
    cases segs with
    | nil => exact .inr ⟨seg, by simp, by simpa [List.intercalate] using h⟩
    | cons seg' segs =>
      rw [List.intercalate_cons_cons, List.mem_append, List.mem_append] at h
      rcases h with (h | h) | h
      · exact .inr ⟨seg, List.mem_cons_self, h⟩
      · exact .inl (List.mem_singleton.1 h)
      · exact (ih h).imp id fun ⟨s, hs, hc⟩ => ⟨s, List.mem_cons_of_mem _ hs, hc⟩

theorem isSpace_of_isEntryPath {path : Text} (h : isEntryPath path) :
    path ≠ [] ∧ ∀ c ∈ path, isSpace c = false := by
  have hseg : ∀ seg ∈ path.splitOn '.', seg ≠ [] ∧ ∀ c ∈ seg, isSpace c = false := by
    intro seg hseg
    have hword := List.all_eq_true.1 h seg hseg
    cases seg with
    | nil => cases hword
    | cons c cs =>
      simp only [isWord, Bool.and_eq_true, Bool.or_eq_true, beq_iff_eq, List.all_eq_true,
        decide_eq_true_eq, List.mem_cons, List.not_mem_nil, or_false] at hword
      refine ⟨List.cons_ne_nil c cs, fun d hd => ?_⟩
      rcases List.mem_cons.1 hd with rfl | hd
      · rcases hword.1 with hletter | rfl
        · exact isSpace_of_isAsciiWord (by simp [isAsciiWord, hletter])
        · rfl
      · rcases hword.2 d hd with hd | rfl | rfl | rfl
        · exact isSpace_of_isAsciiWord hd
        all_goals rfl
  have hjoin : ['.'].intercalate (path.splitOn '.') = path := List.intercalate_splitOn '.'
  refine ⟨?_, fun c hc => ?_⟩
  · rintro rfl
    exact (hseg [] (by simp)).1 rfl
  · rw [← hjoin] at hc
    rcases mem_intercalate hc with rfl | ⟨seg, hmem, hc⟩
    · rfl
    · exact (hseg seg hmem).2 c hc

/-! ### Field checks -/

namespace CaseBundleFile

/-- The checks of the fields and of `validate_path`. -/
def valid (f : CaseBundleFile) : Bool :=
  lengthIn 1 240 f.path && lengthIn 1 1000000 f.content && isFilePath caseRoots f.path

theorem ofRaw_eq_some {raw : Option RawFile} {f : CaseBundleFile} :
    ofRaw raw = some f ↔ raw = some f.modelDump ∧ f.valid := by
  simp only [ofRaw, Option.bind_eq_bind, Option.bind_eq_some_iff, RawValue.asText_eq_some,
    Option.guard_eq_some', Option.pure_def, Option.some.injEq]
  constructor
  · rintro ⟨⟨path, content⟩, rfl, p, rfl, c, rfl, -, hvalid, rfl⟩
    exact ⟨rfl, hvalid⟩
  · rintro ⟨rfl, hvalid⟩
    exact ⟨_, rfl, _, rfl, _, rfl, (), hvalid, rfl⟩

@[simp] theorem key_modelDump {f : CaseBundleFile} (h : f.valid) : f.modelDump.key = f.path := by
  simp only [valid, Bool.and_eq_true] at h
  rw [RawFile.key, modelDump, RawValue.strOrEmpty_text]
  exact strip_of_isFilePath (by decide) h.2

end CaseBundleFile

namespace FoamDictionaryEntry

/-- The checks of the fields. -/
def valid (e : FoamDictionaryEntry) : Bool :=
  lengthIn 1 300 e.path && isEntryPath e.path && lengthIn 1 20000 e.value

theorem ofRaw_eq_some {raw : Option RawEntry} {e : FoamDictionaryEntry} :
    ofRaw raw = some e ↔ raw = some e.modelDump ∧ e.valid := by
  simp only [ofRaw, Option.bind_eq_bind, Option.bind_eq_some_iff, RawValue.asText_eq_some,
    Option.guard_eq_some', Option.pure_def, Option.some.injEq]
  constructor
  · rintro ⟨⟨path, value⟩, rfl, p, rfl, v, rfl, -, hvalid, rfl⟩
    exact ⟨rfl, hvalid⟩
  · rintro ⟨rfl, hvalid⟩
    exact ⟨_, rfl, _, rfl, _, rfl, (), hvalid, rfl⟩

@[simp] theorem key_modelDump {e : FoamDictionaryEntry} (h : e.valid) :
    e.modelDump.key = e.path := by
  simp only [valid, Bool.and_eq_true] at h
  rw [RawEntry.key, modelDump, RawValue.strOrEmpty_text]
  exact strip_eq_self (isSpace_of_isEntryPath h.1.2).2

end FoamDictionaryEntry

namespace NativeOpenFOAMCommand

/-- The checks of the fields and of `validate_arguments`. -/
def valid (c : NativeOpenFOAMCommand) : Bool :=
  lengthIn 0 160 c.command && isCommandName c.command && lengthIn 0 24 c.arguments &&
    lengthIn 0 240 c.rationale && c.arguments.all isArgument

theorem ofRaw_eq_some {raw : Option RawCommand} {c : NativeOpenFOAMCommand} :
    ofRaw raw = some c ↔ raw = some c.modelDump ∧ c.valid := by
  simp only [ofRaw, Option.bind_eq_bind, Option.bind_eq_some_iff, RawValue.asText_eq_some,
    Option.guard_eq_some', Option.pure_def, Option.some.injEq]
  constructor
  · rintro ⟨⟨command, args, role, rationale⟩, rfl, p, rfl, as, has, r, rfl, ro, hro, ra, rfl, -,
      hvalid, rfl⟩
    have hargs : args = as.map .text := by
      have h₂ := Traversal.mapM_eq_some.1 has
      simp only [RawValue.asText_eq_some] at h₂
      rw [← List.forall₂_eq_eq_eq, List.forall₂_map_right_iff]
      exact h₂
    exact ⟨by simp [modelDump, hargs, NativeRole.text_of_ofText hro], hvalid⟩
  · rintro ⟨rfl, hvalid⟩
    exact ⟨_, rfl, _, rfl, _, Traversal.mapM_map_eq_some fun _ _ => rfl, _, rfl, _,
      NativeRole.ofText_text _, _, rfl, (), hvalid, rfl⟩

end NativeOpenFOAMCommand

/-- A list of raw items passes its field checks exactly when it is the dump of valid ones. -/
theorem mapM_ofRaw_eq_some {ρ μ : Type} {ofRaw : Option ρ → Option μ} {dump : μ → ρ}
    {valid : μ → Bool} (hraw : ∀ {raw x}, ofRaw raw = some x ↔ raw = some (dump x) ∧ valid x)
    {raws : List (Option ρ)} {xs : List μ} :
    raws.mapM ofRaw = some xs ↔ raws = xs.map (fun x => some (dump x)) ∧ xs.all valid := by
  rw [Traversal.mapM_eq_some]
  constructor
  · intro h
    induction h with
    | nil => exact ⟨rfl, rfl⟩
    | cons hab _ ih =>
      obtain ⟨rfl, hvalid⟩ := hraw.1 hab
      rw [List.map_cons, ← ih.1, List.all_cons, hvalid, ih.2]
      exact ⟨rfl, rfl⟩
  · rintro ⟨rfl, hall⟩
    rw [List.forall₂_map_left_iff, List.forall₂_same]
    exact fun x hx => hraw.2 ⟨rfl, List.all_eq_true.1 hall x hx⟩

namespace TypedFoamDictionaryFile

/-- The checks of the fields and of `validate_path_and_entries`. -/
def valid (d : TypedFoamDictionaryFile) : Bool :=
  d.entries.all (·.valid) && lengthIn 1 240 d.path &&
    d.foamClass.all (fun name => lengthIn 1 80 name && isClassName name) &&
    lengthIn 1 300 d.entries && isFilePath (caseRoots ++ ["postprocessConfig"]) d.path

theorem ofFields_eq_some {raw : RawTyped} {d : TypedFoamDictionaryFile} :
    ofFields raw = some d ↔ raw = d.modelDump ∧ d.valid := by
  simp only [ofFields, Option.bind_eq_bind, Option.bind_eq_some_iff, RawValue.asText_eq_some,
    RawValue.asTextOrNone_eq_some, mapM_ofRaw_eq_some FoamDictionaryEntry.ofRaw_eq_some,
    Option.guard_eq_some', Option.pure_def, Option.some.injEq]
  constructor
  · rintro ⟨p, hp, c, hc, es, ⟨hes, hall⟩, -, hvalid, rfl⟩
    refine ⟨?_, by simpa [valid, hall] using hvalid⟩
    cases raw
    simp_all [modelDump]
  · rintro ⟨rfl, hvalid⟩
    have hvalid' := hvalid
    simp only [valid, Bool.and_eq_true] at hvalid'
    exact ⟨_, rfl, _, rfl, _, ⟨rfl, hvalid'.1.1.1.1⟩, (), by simp_all [valid], rfl⟩

theorem ofRaw_eq_some {raw : Option RawTyped} {d : TypedFoamDictionaryFile} :
    ofRaw raw = some d ↔
      ∃ r, raw = some r ∧ r.normalizeDuplicateEntries = d.modelDump ∧ d.valid := by
  simp only [ofRaw, Option.bind_eq_bind, Option.bind_eq_some_iff, ofFields_eq_some]

theorem valid_path {d : TypedFoamDictionaryFile} (h : d.valid) :
    isFilePath (caseRoots ++ ["postprocessConfig"]) d.path := by
  simp only [valid, Bool.and_eq_true] at h
  exact h.2

@[simp] theorem key_modelDump {d : TypedFoamDictionaryFile} (h : d.valid) :
    d.modelDump.key = d.path := by
  rw [RawTyped.key, modelDump, RawValue.strOrEmpty_text]
  exact strip_of_isFilePath (by decide) (valid_path h)

end TypedFoamDictionaryFile

end Schemas
end OpenFoamAgent
