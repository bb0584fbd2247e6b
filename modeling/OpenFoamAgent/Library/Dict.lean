/-
# Dictionaries

The `dict` of the language as a finite map: building one from its items, where a
later item replaces an earlier one of the same key.
-/
import Mathlib.Data.List.AList
import Mathlib.Data.List.Induction
import Mathlib.Tactic.Tauto

namespace OpenFoamAgent

/-- A `dict` with keys in `κ`. -/
abbrev Dict (κ α : Type) := AList (fun _ : κ => α)

namespace Dict

variable {κ α : Type} [DecidableEq κ]

/-- `{key(x): value(x) for x in items}`. -/
def ofItems (items : List (κ × α)) : Dict κ α :=
  items.foldl (fun d item => d.insert item.1 item.2) ∅

/-- `dict.items()`. -/
def items (d : Dict κ α) : List (κ × α) := d.entries.map fun e => (e.1, e.2)

/-- `dict.get`. -/
def get (d : Dict κ α) (k : κ) : Option α := d.lookup k

/-- `dict.update`, with the items of another dictionary. -/
def update (d : Dict κ α) (items : List (κ × α)) : Dict κ α :=
  items.foldl (fun d item => d.insert item.1 item.2) d

/-- `dict.setdefault`. -/
def setDefault (d : Dict κ α) (k : κ) (a : α) : Dict κ α :=
  if k ∈ d then d else d.insert k a

@[simp] theorem get_empty (k : κ) : get (∅ : Dict κ α) k = none := AList.lookup_empty k

@[simp] theorem get_insert_self (d : Dict κ α) (k : κ) (a : α) : get (d.insert k a) k = some a :=
  AList.lookup_insert d

theorem get_insert_of_ne (d : Dict κ α) {k k' : κ} (a : α) (h : k' ≠ k) :
    get (d.insert k a) k' = d.get k' :=
  AList.lookup_insert_ne h

theorem get_insert (d : Dict κ α) (k k' : κ) (a : α) :
    get (d.insert k a) k' = if k' = k then some a else d.get k' := by
  split_ifs with h
  · subst h; exact get_insert_self d k' a
  · exact get_insert_of_ne d a h

theorem get_isSome {d : Dict κ α} {k : κ} : (d.get k).isSome ↔ k ∈ d := AList.lookup_isSome

theorem get_setDefault_self (d : Dict κ α) (k : κ) (a : α) :
    get (d.setDefault k a) k = some ((d.get k).getD a) := by
  unfold setDefault
  split_ifs with h
  · obtain ⟨b, hb⟩ := Option.isSome_iff_exists.1 (get_isSome.2 h)
    rw [hb, Option.getD_some]
  · have hn : d.get k = none := Option.not_isSome_iff_eq_none.1 fun hs => h (get_isSome.1 hs)
    rw [get_insert_self, hn, Option.getD_none]

theorem get_setDefault_of_ne (d : Dict κ α) {k k' : κ} (a : α) (h : k' ≠ k) :
    get (d.setDefault k a) k' = d.get k' := by
  unfold setDefault
  split_ifs
  · rfl
  · exact get_insert_of_ne d a h

omit [DecidableEq κ] in
theorem map_fst_items (d : Dict κ α) : d.items.map Prod.fst = d.keys := by
  simp [items, AList.keys, List.keys, Function.comp_def]

omit [DecidableEq κ] in
theorem nodup_items (d : Dict κ α) : (d.items.map Prod.fst).Nodup := by
  rw [map_fst_items]
  exact d.keys_nodup

theorem mem_items {d : Dict κ α} {k : κ} {a : α} : (k, a) ∈ d.items ↔ d.get k = some a := by
  rw [← Option.mem_def, get, AList.mem_lookup_iff, items, List.mem_map]
  constructor
  · rintro ⟨⟨k', a'⟩, he, heq⟩
    obtain ⟨rfl, rfl⟩ := Prod.mk.inj heq
    exact he
  · exact fun h => ⟨⟨k, a⟩, h, rfl⟩

theorem get_eq_none_iff {d : Dict κ α} {k : κ} : d.get k = none ↔ k ∉ d.items.map Prod.fst := by
  rw [map_fst_items]
  exact AList.lookup_eq_none

theorem get_ofItems_concat (items : List (κ × α)) (item : κ × α) (k : κ) :
    get (ofItems (items ++ [item])) k = if k = item.1 then some item.2 else get (ofItems items) k := by
  rw [ofItems, List.foldl_append]
  exact get_insert _ _ _ _

theorem mem_of_get_ofItems {items : List (κ × α)} {k : κ} {a : α}
    (h : get (ofItems items) k = some a) : (k, a) ∈ items := by
  induction items using List.reverseRecOn with
  | nil => cases h
  | append_singleton items item ih =>
    rw [get_ofItems_concat] at h
    split_ifs at h with hk
    · obtain rfl := Option.some.inj h
      exact List.mem_append_right _ (by simp [hk])
    · exact List.mem_append_left _ (ih h)

/-- When all items of a key hold one value, the dictionary holds it too. -/
theorem get_ofItems {items : List (κ × α)} {k : κ} {a : α} (hmem : (k, a) ∈ items)
    (hall : ∀ b, (k, b) ∈ items → b = a) : get (ofItems items) k = some a := by
  induction items using List.reverseRecOn with
  | nil => cases hmem
  | append_singleton items item ih =>
    rw [get_ofItems_concat]
    split_ifs with hk
    · rw [hall item.2 (by simp [hk])]
    · rcases List.mem_append.1 hmem with hmem | hmem
      · exact ih hmem fun b hb => hall b (List.mem_append_left _ hb)
      · exact absurd (congrArg Prod.fst (List.mem_singleton.1 hmem)) hk

theorem exists_get_ofItems {items : List (κ × α)} {k : κ} (h : k ∈ items.map Prod.fst) :
    ∃ a, get (ofItems items) k = some a := by
  induction items using List.reverseRecOn with
  | nil => cases h
  | append_singleton items item ih =>
    rw [get_ofItems_concat]
    split_ifs with hk
    · exact ⟨item.2, rfl⟩
    · rw [List.map_append, List.mem_append] at h
      rcases h with h | h
      · exact ih h
      · exact absurd (List.mem_singleton.1 h) hk

/-! ### Updates and removals -/

theorem get_update_of_notMem {d : Dict κ α} {items : List (κ × α)} {k : κ}
    (h : k ∉ items.map Prod.fst) : get (d.update items) k = d.get k := by
  induction items generalizing d with
  | nil => rfl
  | cons item items ih =>
    obtain ⟨hne, htail⟩ := not_or.1 (fun hm => h (List.mem_cons.2 hm))
    exact (ih htail).trans (get_insert_of_ne d item.2 hne)

/-- An update with distinct keys holds each of its items. -/
theorem get_update_of_mem {d : Dict κ α} {items : List (κ × α)} {k : κ} {a : α}
    (hnd : (items.map Prod.fst).Nodup) (h : (k, a) ∈ items) :
    get (d.update items) k = some a := by
  induction items generalizing d with
  | nil => cases h
  | cons item items ih =>
    obtain ⟨hhead, htail⟩ := List.nodup_cons.1 hnd
    rcases List.mem_cons.1 h with rfl | hmem
    · exact (get_update_of_notMem hhead).trans (get_insert_self d k a)
    · exact ih htail hmem

/-- What an update holds is one of its items, or was held before under a key it leaves alone. -/
theorem of_get_update {d : Dict κ α} {items : List (κ × α)} {k : κ} {a : α}
    (h : get (d.update items) k = some a) :
    (k, a) ∈ items ∨ (k ∉ items.map Prod.fst ∧ d.get k = some a) := by
  induction items generalizing d with
  | nil => exact .inr ⟨List.not_mem_nil, h⟩
  | cons item items ih =>
    rcases ih h with hmem | ⟨hkeys, hget⟩
    · exact .inl (List.mem_cons_of_mem _ hmem)
    · by_cases hk : k = item.1
      · rw [hk, get_insert_self] at hget
        exact .inl (List.mem_cons.2 (.inl (Prod.ext hk (Option.some.inj hget).symm)))
      · rw [get_insert_of_ne _ _ hk] at hget
        exact .inr ⟨fun hm => (List.mem_cons.1 hm).elim hk hkeys, hget⟩

theorem mem_update {d : Dict κ α} {items : List (κ × α)} {k : κ} :
    k ∈ d.update items ↔ k ∈ d ∨ k ∈ items.map Prod.fst := by
  induction items generalizing d with
  | nil => simp [update]
  | cons item items ih =>
    have hstep : d.update (item :: items) = update (d.insert item.1 item.2) items := rfl
    rw [hstep, ih, AList.mem_insert, List.map_cons, List.mem_cons]
    tauto

@[simp] theorem get_erase_self (d : Dict κ α) (k : κ) : get (d.erase k) k = none :=
  AList.lookup_erase k d

theorem get_erase_of_ne (d : Dict κ α) {k k' : κ} (h : k' ≠ k) :
    get (d.erase k) k' = d.get k' :=
  AList.lookup_erase_ne h

theorem get_of_get_erase {d : Dict κ α} {k k' : κ} {a : α} (h : get (d.erase k) k' = some a) :
    k' ≠ k ∧ d.get k' = some a := by
  have hne : k' ≠ k := by
    rintro rfl
    rw [get_erase_self] at h
    cases h
  exact ⟨hne, by rwa [get_erase_of_ne d hne] at h⟩

/-- `{k: f(v) for k, v in d.items()}`. -/
def mapValues {β : Type} (f : α → β) (d : Dict κ α) : Dict κ β :=
  ⟨d.entries.map (Sigma.map id fun _ => f), by
    have hnodup := d.nodupKeys
    rwa [List.NodupKeys, List.keys, List.map_map]⟩

theorem get_mapValues {β : Type} (f : α → β) (d : Dict κ α) (k : κ) :
    (d.mapValues f).get k = (d.get k).map f :=
  List.dlookup_map₂ k

theorem mem_mapValues {β : Type} {f : α → β} {d : Dict κ α} {k : κ} :
    k ∈ d.mapValues f ↔ k ∈ d := by
  rw [← get_isSome, get_mapValues, Option.isSome_map, get_isSome]

end Dict
end OpenFoamAgent
