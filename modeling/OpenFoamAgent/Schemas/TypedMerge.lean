/-
# Merging typed dictionaries

The loop of `normalize_authoring_mirrors` over `typed_dictionaries`: the dictionaries
of one path become one, with the entries of all of them and the first class one of them
names. The conflicts it notes are those of a walk that keeps the first class of a path.
-/
import Mathlib.Data.List.ReduceOption
import OpenFoamAgent.Schemas.Authoring

namespace OpenFoamAgent
namespace Schemas

open Python Repetitions

/-- The dictionaries of a path. -/
def typedAt (typed : List (Option RawTyped)) (path : Text) : List RawTyped :=
  typed.reduceOption.filter (·.key = path)

/-- The dictionaries of a list merged into its first. -/
def mergeAll : List RawTyped → Option RawTyped
  | [] => none
  | d :: ds => some (ds.foldl RawTyped.merge d)

theorem mergeAll_concat (ds : List RawTyped) (d : RawTyped) :
    mergeAll (ds ++ [d]) = some ((mergeAll ds).elim d (·.merge d)) := by
  cases ds with
  | nil => rfl
  | cons d' ds => simp [mergeAll, List.foldl_append]

/-- What a merged dictionary holds. -/
theorem mergeAll_fields {ds : List RawTyped} {m : RawTyped} (h : mergeAll ds = some m) :
    m.entries = ds.flatMap (·.entries) ∧ m.entryConflicts = ds.flatMap (·.entryConflicts) ∧
      ∃ d ∈ ds, m.path = d.path := by
  induction ds using List.reverseRecOn generalizing m with
  | nil => cases h
  | append_singleton ds d ih =>
    rw [mergeAll_concat] at h
    obtain rfl := Option.some.inj h
    cases hds : mergeAll ds with
    | none =>
      have hnil : ds = [] := by
        cases ds with
        | nil => rfl
        | cons => cases hds
      subst hnil
      exact ⟨by simp, by simp, d, by simp, rfl⟩
    | some prior =>
      obtain ⟨hentries, hconflicts, d', hd', hpath⟩ := ih hds
      refine ⟨?_, ?_, d', by simp [hd'], hpath⟩
      · simp [RawTyped.merge, hentries]
      · simp [RawTyped.merge, hconflicts]

theorem typedAt_concat_some (typed : List (Option RawTyped)) (d : RawTyped) (path : Text) :
    typedAt (typed ++ [some d]) path =
      typedAt typed path ++ if d.key = path then [d] else [] := by
  rw [typedAt, typedAt, List.reduceOption_append, List.filter_append]
  split_ifs with h <;> simp [List.reduceOption, h]

theorem typedAt_concat_none (typed : List (Option RawTyped)) (path : Text) :
    typedAt (typed ++ [none]) path = typedAt typed path := by
  simp [typedAt, List.reduceOption]

theorem mem_typedAt {typed : List (Option RawTyped)} {path : Text} {d : RawTyped} :
    d ∈ typedAt typed path ↔ some d ∈ typed ∧ d.key = path := by
  simp [typedAt, List.reduceOption_mem_iff]

theorem walkTyped_concat (log : List Text) (typed : List (Option RawTyped)) (x : Option RawTyped) :
    walkTyped log (typed ++ [x]) = (walkTyped log typed).step x := by
  simp [walkTyped]

/-- What one item does to the walk over the typed dictionaries. -/
inductive Stepped (walk : TypedWalk) : Option RawTyped → TypedWalk → Prop
  | passthrough : Stepped walk none { walk with passthrough := walk.passthrough ++ [none] }
  | fresh (d : RawTyped) (hnew : d.key = [] ∨ walk.byPath.get d.key = none) :
      Stepped walk (some d)
        { walk with byPath := walk.byPath.insert d.key d, order := walk.order ++ [d.key] }
  | merged (d prior : RawTyped) (hkey : d.key ≠ []) (hprior : walk.byPath.get d.key = some prior) :
      Stepped walk (some d)
        { walk with
          byPath := walk.byPath.insert d.key (prior.merge d)
          log := if prior.classesDiffer d then note walk.log ("typed-class:".toList ++ d.key)
            else walk.log }

theorem stepped (walk : TypedWalk) (x : Option RawTyped) : Stepped walk x (walk.step x) := by
  cases x with
  | none => exact .passthrough
  | some d =>
    unfold TypedWalk.step
    by_cases hkey : d.key = []
    · simp only [if_pos hkey]
      exact .fresh d (.inl hkey)
    · simp only [if_neg hkey]
      cases hprior : walk.byPath.get d.key with
      | none => exact .fresh d (.inr hprior)
      | some prior => exact .merged d prior hkey hprior

section Walk

variable {log : List Text} {typed : List (Option RawTyped)}

theorem passthrough_walkTyped : (walkTyped log typed).passthrough = typed.filter (·.isNone) := by
  induction typed using List.reverseRecOn with
  | nil => rfl
  | append_singleton typed x ih =>
    rw [walkTyped_concat, List.filter_append, ← ih]
    generalize hwalk : (walkTyped log typed).step x = walk
    cases hwalk ▸ stepped (walkTyped log typed) x with
    | passthrough => rfl
    | fresh | merged => simp

/-- The order lists the paths that hold a dictionary. -/
theorem mem_order {path : Text} :
    path ∈ (walkTyped log typed).order ↔ ∃ m, (walkTyped log typed).byPath.get path = some m := by
  induction typed using List.reverseRecOn with
  | nil => simp [walkTyped]
  | append_singleton typed x ih =>
    rw [walkTyped_concat]
    generalize hwalk : (walkTyped log typed).step x = walk
    cases hwalk ▸ stepped (walkTyped log typed) x with
    | passthrough => exact ih
    | fresh d hnew =>
      dsimp only
      rw [Dict.get_insert, List.mem_append, List.mem_singleton, ih]
      split_ifs with hpath
      · simp [hpath]
      · simp [hpath]
    | merged d prior hkey hprior =>
      dsimp only
      rw [Dict.get_insert, ih]
      split_ifs with hpath
      · simp [hpath, hprior]
      · rfl

theorem key_of_get {path : Text} {m : RawTyped}
    (h : (walkTyped log typed).byPath.get path = some m) : m.key = path := by
  induction typed using List.reverseRecOn generalizing path m with
  | nil => simp [walkTyped] at h
  | append_singleton typed x ih =>
    rw [walkTyped_concat] at h
    generalize hwalk : (walkTyped log typed).step x = walk at h
    cases hwalk ▸ stepped (walkTyped log typed) x with
    | passthrough => exact ih h
    | fresh d hnew =>
      rw [Dict.get_insert] at h
      split_ifs at h with hpath
      · obtain rfl := Option.some.inj h
        exact hpath.symm
      · exact ih h
    | merged d prior hkey hprior =>
      rw [Dict.get_insert] at h
      split_ifs at h with hpath
      · obtain rfl := Option.some.inj h
        exact (ih hprior).trans hpath.symm
      · exact ih h

variable (log) in
theorem key_mem_order {d : RawTyped} (h : some d ∈ typed) :
    d.key ∈ (walkTyped log typed).order := by
  induction typed using List.reverseRecOn with
  | nil => cases h
  | append_singleton typed x ih =>
    rw [walkTyped_concat]
    generalize hwalk : (walkTyped log typed).step x = walk
    rcases List.mem_append.1 h with hold | hlast
    · cases hwalk ▸ stepped (walkTyped log typed) x with
      | passthrough | merged => exact ih hold
      | fresh => exact List.mem_append_left _ (ih hold)
    · obtain rfl := List.mem_singleton.1 hlast
      cases hwalk ▸ stepped (walkTyped log typed) (some d) with
      | fresh => exact List.mem_append_right _ (List.mem_singleton_self _)
      | merged d prior hkey hprior => exact mem_order.2 ⟨prior, hprior⟩

variable (log) in
/-- The dictionaries of a path are merged into the first of them. -/
theorem get_walkTyped {path : Text} (hpath : path ≠ []) :
    (walkTyped log typed).byPath.get path = mergeAll (typedAt typed path) := by
  induction typed using List.reverseRecOn with
  | nil => rfl
  | append_singleton typed x ih =>
    rw [walkTyped_concat]
    generalize hwalk : (walkTyped log typed).step x = walk
    cases hwalk ▸ stepped (walkTyped log typed) x with
    | passthrough => rw [typedAt_concat_none, ih]
    | fresh d hnew =>
      rw [typedAt_concat_some, Dict.get_insert]
      split_ifs with h₁ h₂ h₂
      · rw [mergeAll_concat, ← ih]
        rw [h₁, hnew.resolve_left (h₁ ▸ hpath)]
        rfl
      · exact absurd h₁.symm h₂
      · exact absurd h₂.symm h₁
      · rw [List.append_nil, ih]
    | merged d prior hkey hprior =>
      rw [typedAt_concat_some, Dict.get_insert]
      split_ifs with h₁ h₂ h₂
      · rw [mergeAll_concat, ← ih, h₁, hprior]
        rfl
      · exact absurd h₁.symm h₂
      · exact absurd h₂.symm h₁
      · rw [List.append_nil, ih]

theorem mergeAll_typedAt {path : Text} {m : RawTyped} (h : mergeAll (typedAt typed path) = some m) :
    m.key = path ∧ m.entries = (typedAt typed path).flatMap (·.entries) ∧
      m.entryConflicts = (typedAt typed path).flatMap (·.entryConflicts) ∧
      ∃ d, some d ∈ typed ∧ d.key = path := by
  obtain ⟨hentries, hconflicts, d, hd, hpath⟩ := mergeAll_fields h
  obtain ⟨hmem, hkey⟩ := mem_typedAt.1 hd
  refine ⟨?_, hentries, hconflicts, d, hmem, hkey⟩
  rw [RawTyped.key, hpath]
  exact hkey

/-- The dictionaries of the result, one for each path. -/
theorem mem_result {m : RawTyped} (hkey : m.key ≠ []) :
    some m ∈ (walkTyped log typed).result ↔ mergeAll (typedAt typed m.key) = some m := by
  rw [TypedWalk.result, List.mem_append, passthrough_walkTyped]
  constructor
  · rintro (hmem | hmem)
    · obtain ⟨path, -, hget⟩ := List.mem_map.1 hmem
      rw [← get_walkTyped log hkey, key_of_get hget]
      exact hget
    · simp at hmem
  · intro hmerge
    obtain ⟨-, -, -, d, hd, hdkey⟩ := mergeAll_typedAt hmerge
    refine .inl (List.mem_map.2 ⟨m.key, hdkey ▸ key_mem_order log hd, ?_⟩)
    rw [get_walkTyped log hkey, hmerge]

variable (log) in
/-- Every path of the input has a dictionary in the result. -/
theorem exists_mem_result {d : RawTyped} (hd : some d ∈ typed) :
    ∃ m, some m ∈ (walkTyped log typed).result ∧ m.key = d.key := by
  obtain ⟨m, hm⟩ := mem_order.1 (key_mem_order log hd)
  exact ⟨m, List.mem_append_left _ (List.mem_map.2 ⟨_, key_mem_order log hd, hm⟩), key_of_get hm⟩

/-! ### Classes -/

/-- The path of a typed item that names a class. -/
def classKey (item : Option RawTyped) : Option Text :=
  item.bind fun d => if d.foamClass.truthy then some d.key else none

/-- The class of a typed item. -/
def classOf (item : Option RawTyped) : RawValue := (item.map (·.foamClass)).getD .null

theorem classKey_eq_some {item : Option RawTyped} {path : Text} :
    classKey item = some path ↔ ∃ d, item = some d ∧ d.foamClass.truthy ∧ d.key = path := by
  cases item with
  | none => simp [classKey]
  | some d =>
    by_cases hclass : d.foamClass.truthy <;> simp [classKey, hclass]

theorem firstOf_class_eq_none {path : Text}
    (h : (walkTyped log typed).byPath.get path = none) : firstOf classKey typed path = none := by
  refine firstOf_eq_none.2 fun item hitem hkey => ?_
  obtain ⟨d, rfl, -, rfl⟩ := classKey_eq_some.1 hkey
  obtain ⟨m, hm⟩ := mem_order.1 (key_mem_order log hitem)
  rw [h] at hm
  cases hm

/-- The class of a dictionary is the first one that an item of its path names. -/
def ClassIs (first : Option (Option RawTyped)) (m : RawTyped) : Prop :=
  first.elim (m.foamClass.truthy = false) fun b =>
    m.foamClass = classOf b ∧ m.foamClass.truthy = true

/-- A merged dictionary has the first class that one of its parts names. -/
theorem foamClass_walkTyped {path : Text} (hpath : path ≠ []) {m : RawTyped}
    (h : (walkTyped log typed).byPath.get path = some m) :
    ClassIs (firstOf classKey typed path) m := by
  induction typed using List.reverseRecOn generalizing m with
  | nil => simp [walkTyped] at h
  | append_singleton typed x ih =>
    have hother : ∀ d, d.key ≠ path →
        firstOf classKey (typed ++ [some d]) path = firstOf classKey typed path := by
      intro d hd
      rw [firstOf_concat, if_neg, Option.or_none]
      rw [classKey_eq_some]
      rintro ⟨d', hd', -, hkey⟩
      exact hd (Option.some.inj hd' ▸ hkey)
    rw [walkTyped_concat] at h
    generalize hwalk : (walkTyped log typed).step x = walk at h
    cases hwalk ▸ stepped (walkTyped log typed) x with
    | passthrough =>
      rw [firstOf_concat, if_neg (by simp [classKey]), Option.or_none]
      exact ih h
    | fresh d hnew =>
      rw [Dict.get_insert] at h
      split_ifs at h with hkey
      · obtain rfl := Option.some.inj h
        have hnone := firstOf_class_eq_none (hnew.resolve_left (hkey ▸ hpath))
        rw [firstOf_concat, hkey, hnone, Option.none_or]
        by_cases hclass : d.foamClass.truthy <;> simp [classKey, ClassIs, hclass, classOf]
      · rw [hother d (Ne.symm hkey)]
        exact ih h
    | merged d prior hne hprior =>
      rw [Dict.get_insert] at h
      split_ifs at h with hkey
      · obtain rfl := Option.some.inj h
        have hclass := ih (hkey ▸ hprior)
        rw [firstOf_concat]
        cases hfirst : firstOf classKey typed path with
        | none =>
          rw [hfirst] at hclass
          have hprior' : prior.foamClass.truthy = false := hclass
          by_cases hd : d.foamClass.truthy <;>
            simp [classKey, ClassIs, hd, classOf, RawTyped.merge, hprior', hkey]
        | some b =>
          rw [hfirst] at hclass
          obtain ⟨heq, htruthy⟩ := hclass
          simp [ClassIs, RawTyped.merge, heq ▸ htruthy, heq]
      · rw [hother d (Ne.symm hkey)]
        exact ih h

theorem leaves_class_fresh {d : RawTyped}
    (hnew : d.key = [] ∨ (walkTyped log typed).byPath.get d.key = none) :
    leaves classKey classOf (tokenOf "typed-class:") (typed ++ [some d]) (some d) = none := by
  refine Option.eq_none_iff_forall_ne_some.2 fun t ht => ?_
  obtain ⟨path, b, hkey, hfirst, hne, htoken⟩ := leaves_eq_some.1 ht
  obtain ⟨d', hd', -, rfl⟩ := classKey_eq_some.1 hkey
  obtain rfl := Option.some.inj hd'
  have hpath : d.key ≠ [] := fun hnil => by simp [tokenOf, hnil] at htoken
  rw [firstOf_concat, firstOf_class_eq_none (hnew.resolve_left hpath), Option.none_or,
    if_pos hkey] at hfirst
  exact hne (Option.some.inj hfirst ▸ rfl)

theorem leaves_class_merged {d prior : RawTyped} (hkey : d.key ≠ [])
    (hprior : (walkTyped log typed).byPath.get d.key = some prior) :
    leaves classKey classOf (tokenOf "typed-class:") (typed ++ [some d]) (some d) =
      if prior.classesDiffer d then some ("typed-class:".toList ++ d.key) else none := by
  have hclass := foamClass_walkTyped hkey hprior
  by_cases hd : d.foamClass.truthy
  · have hself : classKey (some d) = some d.key := by simp [classKey, hd]
    rw [leaves, hself, Option.bind_some, firstOf_concat, if_pos hself]
    cases hfirst : firstOf classKey typed d.key with
    | none =>
      rw [hfirst] at hclass
      have hprior' : prior.foamClass.truthy = false := hclass
      simp [RawTyped.classesDiffer, hprior', classOf]
    | some b =>
      rw [hfirst] at hclass
      obtain ⟨heq, htruthy⟩ := hclass
      have hsome : classOf (some d) = d.foamClass := rfl
      have htoken : tokenOf "typed-class:" d.key = some ("typed-class:".toList ++ d.key) :=
        if_neg hkey
      have hdiffer : prior.classesDiffer d = !(prior.foamClass == d.foamClass) := by
        simp [RawTyped.classesDiffer, htruthy, hd, bne]
      rw [Option.some_or, Option.bind_some, htoken, hdiffer, ← heq, hsome]
      by_cases hsame : prior.foamClass = d.foamClass <;> simp [hsame]
  · have hself : classKey (some d) = none := by simp [classKey, hd]
    rw [leaves, hself]
    simp [RawTyped.classesDiffer, hd]

/-- The conflicts of the walk are those of classes that differ from the first of their path. -/
theorem log_walkTyped :
    (walkTyped log typed).log =
      (keepFirst classKey classOf (tokenOf "typed-class:") log typed).2 := by
  induction typed using List.reverseRecOn with
  | nil => rfl
  | append_singleton typed x ih =>
    rw [walkTyped_concat, keepFirst_concat, visit_log firstOf_keepFirst, ← ih]
    generalize hwalk : (walkTyped log typed).step x = walk
    cases hwalk ▸ stepped (walkTyped log typed) x with
    | passthrough => rfl
    | fresh d hnew =>
      rw [leaves_class_fresh hnew]
      rfl
    | merged d prior hkey hprior =>
      rw [leaves_class_merged hkey hprior]
      split_ifs <;> rfl

end Walk

end Schemas
end OpenFoamAgent
