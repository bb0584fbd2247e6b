/-
# What a chain of accepted changes does to the entries of a text

The per-entry content of `check_repair_delta`, one text against the next: which
entries of `system/controlDict` keep their canonical payload, which may only
become smaller, and what the protected entries of a numerical dictionary keep.
By induction over `Chain` the same holds of every authorized text against the
approved one.
-/
import OpenFoamAgent.Contracts.RepairRuns

namespace OpenFoamAgent
namespace Contracts

open Python Schemas Workspace ExecutionApproval

/-! ### Entries of a text -/

/-- The canonical payload of a top-level entry, `none` when the text does not have it. -/
def entryPayload (text key : Text) : Option (List Text) :=
  canonicalPayload ((topLevelEntryPayloads text).1.get key)

/-- The value of a top-level entry that is a positive finite scalar, in units. -/
def entryScalar (text key : Text) : Option ℕ :=
  (positiveScalar ((topLevelEntryPayloads text).1.get key) key).toOption

theorem parseFloat_strip {s t : Text} (h : strip s = strip t) : parseFloat s = parseFloat t := by
  unfold parseFloat
  rw [h]

theorem positiveScalar_label {value : Option Text} {label label' : Text} {n : ℕ}
    (h : positiveScalar value label = .ok n) : positiveScalar value label' = .ok n := by
  obtain ⟨hpos, v, rfl, hparse⟩ := positiveScalar_eq_ok h
  simp [positiveScalar, hparse, hpos]

theorem entryScalar_eq_some {text key : Text} {n : ℕ} (label : Text) :
    entryScalar text key = some n ↔
      positiveScalar ((topLevelEntryPayloads text).1.get key) label = .ok n := by
  unfold entryScalar
  constructor
  · intro h
    cases hs : positiveScalar ((topLevelEntryPayloads text).1.get key) key with
    | error e => rw [hs] at h; cases h
    | ok m =>
      rw [hs] at h
      cases h
      exact positiveScalar_label hs
  · intro h
    rw [positiveScalar_label h]
    rfl

/-- Entries of one canonical payload have one value. -/
theorem entryScalar_congr {s t key : Text} {n : ℕ} (h : entryPayload s key = entryPayload t key)
    (ht : entryScalar t key = some n) : entryScalar s key = some n := by
  rw [entryScalar_eq_some key] at ht ⊢
  obtain ⟨hpos, v, hv, hparse⟩ := positiveScalar_eq_ok ht
  obtain ⟨hne, hchars⟩ := of_parseFloat_finite hparse
  unfold entryPayload canonicalPayload at h
  rw [hv] at h
  obtain ⟨u, hu, hcanonical⟩ := Option.map_eq_some_iff.1 h
  rw [hu]
  have hstrip := strip_eq_of_canonicalFrom hcanonical hne hchars
  simp [positiveScalar, parseFloat_strip hstrip, hparse, hpos]

theorem get_isSome_of_entryPayload {s t key : Text} (h : entryPayload s key = entryPayload t key) :
    ((topLevelEntryPayloads s).1.get key).isSome = ((topLevelEntryPayloads t).1.get key).isSome := by
  unfold entryPayload canonicalPayload at h
  simpa using congrArg Option.isSome h

theorem get_isSome_of_entryScalar {text key : Text} {n : ℕ} (h : entryScalar text key = some n) :
    ((topLevelEntryPayloads text).1.get key).isSome := by
  obtain ⟨-, v, hv, -⟩ := positiveScalar_eq_ok ((entryScalar_eq_some key).1 h)
  rw [hv]
  rfl

/-! ### Reduced entries -/

/-- The entries of `controlDict` an accepted change may only reduce. -/
def reducibleEntries : List Text :=
  ["deltaT".toList, "maxDeltaT".toList, "maxCo".toList, "maxAlphaCo".toList]

/-- The entry of `t` is that of `s`, or both are positive scalars and that of `t` is not larger. -/
def Reduced (key s t : Text) : Prop :=
  entryPayload t key = entryPayload s key ∨
    ∃ m n, entryScalar s key = some m ∧ entryScalar t key = some n ∧ n ≤ m

namespace Reduced

variable {key s t u : Text}

theorem refl (key s : Text) : Reduced key s s := .inl rfl

theorem trans (h : Reduced key s t) (h' : Reduced key t u) : Reduced key s u := by
  rcases h with h | ⟨m, n, hm, hn, hle⟩
  · rcases h' with h' | ⟨m', n', hm', hn', hle'⟩
    · exact .inl (h'.trans h)
    · exact .inr ⟨m', n', entryScalar_congr h.symm hm', hn', hle'⟩
  · rcases h' with h' | ⟨m', n', hm', hn', hle'⟩
    · exact .inr ⟨m, n, hm, entryScalar_congr h' hn, hle⟩
    · obtain rfl : n = m' := Option.some.inj (hn.symm.trans hm')
      exact .inr ⟨m, n', hm, hn', hle'.trans hle⟩

/-- An entry that is there stays there. -/
theorem isSome (h : Reduced key s t) (hs : ((topLevelEntryPayloads s).1.get key).isSome) :
    ((topLevelEntryPayloads t).1.get key).isSome := by
  rcases h with h | ⟨-, n, -, hn, -⟩
  · rw [get_isSome_of_entryPayload h]
    exact hs
  · exact get_isSome_of_entryScalar hn

/-- The value of the entry of `t` is at most a bound on that of `s`. -/
theorem scalar (h : Reduced key s t) {m : ℕ} (hs : entryScalar s key = some m) :
    ∃ n, entryScalar t key = some n ∧ n ≤ m := by
  rcases h with h | ⟨m', n, hm, hn, hle⟩
  · exact ⟨m, entryScalar_congr h hs, le_rfl⟩
  · obtain rfl : m = m' := Option.some.inj (hs.symm.trans hm)
    exact ⟨n, hn, hle⟩

end Reduced

/-! ### Accepted changes of `controlDict` -/

theorem mem_changedEntries {s t key : Text} (h : entryPayload t key ≠ entryPayload s key) :
    key ∈ changedEntries (topLevelEntryPayloads s).1 (topLevelEntryPayloads t).1 := by
  rw [changedEntries, List.mem_filter, List.mem_dedup, List.mem_append]
  refine ⟨?_, decide_eq_true (Ne.symm h)⟩
  by_contra hnot
  obtain ⟨hs, ht⟩ := not_or.1 hnot
  exact h (by rw [entryPayload, entryPayload, Entries.get_eq_none hs, Entries.get_eq_none ht])

/-- An accepted change of `controlDict`: all three texts are read completely, and every entry
with another payload passed its check. -/
theorem checkControlDict_eq_ok {protectedEntries : List Text} {current proposed baseline : Text}
    (h : checkControlDict protectedEntries current proposed baseline = .ok ()) :
    (topLevelEntryPayloads current).2 ∧ (topLevelEntryPayloads baseline).2 ∧
      ∀ key, entryPayload proposed key ≠ entryPayload current key →
        key ∉ frozenHeads protectedEntries ∧ key ∈ runtimeControlDictMutableEntries ∧
        checkControlEntry (topLevelEntryPayloads current).1 (topLevelEntryPayloads proposed).1
          (topLevelEntryPayloads baseline).1 key = .ok () := by
  unfold checkControlDict at h
  dsimp only at h
  split_ifs at h with hcomplete hfrozen hforbidden horiginal
  obtain ⟨hcurrent, -⟩ : (topLevelEntryPayloads current).2 = true ∧
      (topLevelEntryPayloads proposed).2 = true := by simpa using hcomplete
  refine ⟨hcurrent, by simpa using horiginal, fun key hkey => ?_⟩
  have hmem := mem_changedEntries hkey
  refine ⟨fun hhead => ?_, ?_, Traversal.ok_of_forM h hmem⟩
  · exact hfrozen (List.ne_nil_of_mem (List.mem_filter.2 ⟨hmem, by simpa using hhead⟩))
  · by_contra hmutable
    exact hforbidden (List.ne_nil_of_mem (List.mem_filter.2 ⟨hmem, by simpa using hmutable⟩))

theorem orElse_of_ne_nil {value : Text} (h : value ≠ []) (b : Option Text) :
    orElse (some value) b = some value := by
  obtain ⟨c, cs, rfl⟩ := List.exists_cons_of_ne_nil h
  rfl

/-- A text whose entry is there, seen by the limit lookup of `checkReduction`: the limit is
the entry itself, also for `maxDeltaT`. -/
theorem limit_eq_get {text entry : Text} (hc : (topLevelEntryPayloads text).2)
    (hsome : ((topLevelEntryPayloads text).1.get entry).isSome) (b : Option Text) :
    (if entry = "maxDeltaT".toList then orElse ((topLevelEntryPayloads text).1.get entry) b
      else (topLevelEntryPayloads text).1.get entry) = (topLevelEntryPayloads text).1.get entry := by
  obtain ⟨payload, hget⟩ := Option.isSome_iff_exists.1 hsome
  split_ifs
  · rw [hget, orElse_of_ne_nil (payload_of_complete hc hget)]
  · rfl

/-- A changed scalar entry is at most its previous and its initial value, where these are. -/
theorem checkReduction_eq_ok {before after original : Entries} {entry : Text}
    (h : checkReduction before after original entry = .ok ()) :
    ∃ n previous initial, positiveScalar (after.get entry) entry = .ok n ∧
      positiveScalar (if entry = "maxDeltaT".toList
        then orElse (before.get entry) (before.get "deltaT".toList) else before.get entry)
        ("previous ".toList ++ entry) = .ok previous ∧
      positiveScalar (if entry = "maxDeltaT".toList
        then orElse (original.get entry) (original.get "deltaT".toList) else original.get entry)
        ("initial ".toList ++ entry) = .ok initial ∧
      n ≤ previous ∧ n ≤ initial := by
  unfold checkReduction at h
  obtain ⟨n, hn, h⟩ := Traversal.bind_eq_ok.1 h
  obtain ⟨previous, hp, h⟩ := Traversal.bind_eq_ok.1 h
  obtain ⟨initial, hi, h⟩ := Traversal.bind_eq_ok.1 h
  split_ifs at h with hle
  exact ⟨n, previous, initial, hn, hp, hi, by omega, by omega⟩

theorem ne_adjustTimeStep {key : Text} (h : key ∈ reducibleEntries) :
    key ≠ "adjustTimeStep".toList := by
  rintro rfl
  exact absurd h (by decide)

/-- An accepted change leaves an entry alone when it is not one of the mutable entries or is
the head of a protected one. -/
theorem checkControlDict_frozen {protectedEntries : List Text} {current proposed baseline : Text}
    (h : checkControlDict protectedEntries current proposed baseline = .ok ()) {key : Text}
    (hkey : key ∉ runtimeControlDictMutableEntries ∨ key ∈ frozenHeads protectedEntries) :
    entryPayload proposed key = entryPayload current key := by
  by_contra hne
  obtain ⟨hfrozen, hmutable, -⟩ := (checkControlDict_eq_ok h).2.2 key hne
  exact hkey.elim (absurd hmutable) hfrozen

/-- An accepted change reduces a scalar entry that is there, against the previous text and
against the baseline. -/
theorem checkControlDict_reduced {protectedEntries : List Text} {current proposed baseline : Text}
    (h : checkControlDict protectedEntries current proposed baseline = .ok ()) {key : Text}
    (hkey : key ∈ reducibleEntries) :
    (((topLevelEntryPayloads current).1.get key).isSome → Reduced key current proposed) ∧
      (entryPayload proposed key ≠ entryPayload current key →
        ((topLevelEntryPayloads baseline).1.get key).isSome → Reduced key baseline proposed) := by
  obtain ⟨hcurrent, hbaseline, hall⟩ := checkControlDict_eq_ok h
  by_cases hne : entryPayload proposed key = entryPayload current key
  · exact ⟨fun _ => .inl hne, fun h => absurd hne h⟩
  · have hentry := (hall key hne).2.2
    rw [checkControlEntry, if_neg (ne_adjustTimeStep hkey)] at hentry
    obtain ⟨n, previous, initial, hn, hp, hi, hle, hle'⟩ := checkReduction_eq_ok hentry
    refine ⟨fun hsome => ?_, fun _ hsome => ?_⟩
    · rw [limit_eq_get hcurrent hsome] at hp
      exact .inr ⟨previous, n, (entryScalar_eq_some _).2 hp, (entryScalar_eq_some _).2 hn, hle⟩
    · rw [limit_eq_get hbaseline hsome] at hi
      exact .inr ⟨initial, n, (entryScalar_eq_some _).2 hi, (entryScalar_eq_some _).2 hn, hle'⟩

/-! ### Chains -/

namespace Chain

variable {approval : ExecutionApproval} {path baseline text : Text}

/-- The frozen entries of an authorized `controlDict` are those of the approved one. -/
theorem controlDict_frozen (h : Chain approval .controlDict path baseline text) {key : Text}
    (hkey : key ∉ runtimeControlDictMutableEntries ∨
      key ∈ frozenHeads ((approval.protectedRepairEntries.get path).getD [])) :
    entryPayload text key = entryPayload baseline key := by
  induction h with
  | approved => rfl
  | change _ _ hchange ih => exact (checkControlDict_frozen hchange hkey).trans ih

/-- The scalar entries of the approved `controlDict` are only reduced. -/
theorem controlDict_reduced (h : Chain approval .controlDict path baseline text) {key : Text}
    (hkey : key ∈ reducibleEntries)
    (hsome : ((topLevelEntryPayloads baseline).1.get key).isSome) :
    Reduced key baseline text := by
  induction h with
  | approved => exact .refl key baseline
  | @change current proposed _ _ hchange ih =>
    by_cases hne : entryPayload proposed key = entryPayload current key
    · exact ih.trans (.inl hne)
    · exact (checkControlDict_reduced hchange hkey).2 hne hsome

/-- The protected entries of an authorized numerical dictionary are those of the approved
one. -/
theorem numerical_frozen (h : Chain approval .numericalDictionary path baseline text) {entry : Text}
    (hentry : entry ∈ (approval.protectedRepairEntries.get path).getD []) :
    canonicalPayload (literalEntryPayload text entry) =
      canonicalPayload (literalEntryPayload baseline entry) := by
  induction h with
  | approved => rfl
  | @change current proposed _ _ hchange ih =>
    have hone := Traversal.ok_of_forM hchange hentry
    refine Eq.trans ?_ ih
    unfold checkFrozenEntry at hone
    split at hone
    · rename_i before after hbefore hafter
      split_ifs at hone with heq
      rw [hbefore, hafter]
      exact (not_not.1 heq).symm
    · cases hone

/-- A protected file is never changed. -/
theorem protected_eq {kind : RepairKind} (h : Chain approval kind path baseline text)
    (hfile : path ∈ approval.protectedRepairFiles) : text = baseline := by
  induction h with
  | approved => rfl
  | change _ hnot _ _ => exact absurd hfile hnot

end Chain

end Contracts
end OpenFoamAgent
