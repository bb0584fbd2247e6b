/-
# Repetitions and what is noted of them

A list of items, some of which name the same key. A walk keeps the first item of
every key; a later item whose value differs from the kept one leaves a token in
a log that holds no token twice.

A log is later cut to a bounded length. `Fits` says when every token of a list
survives the cut, `forall_mem_take_noteAll` that it says so.
-/
import Mathlib.Data.Finset.Card
import Mathlib.Data.List.Induction
import Mathlib.Data.List.Nodup

namespace OpenFoamAgent
namespace Repetitions

/-! ### Lists without repetitions -/

theorem eq_nil_of_eraseDups {α : Type} [BEq α] {l : List α} (h : l.eraseDups = []) : l = [] := by
  cases l with
  | nil => rfl
  | cons a l =>
    rw [List.eraseDups_cons] at h
    cases h

theorem eraseDups_concat {α : Type} [BEq α] [LawfulBEq α] {l : List α} {a : α} (ha : a ∉ l) :
    (l ++ [a]).eraseDups = l.eraseDups ++ [a] := by
  rw [List.eraseDups_append]
  simp [List.removeAll, List.eraseDups_cons, ha]

theorem eraseDups_concat_of_mem {α : Type} [BEq α] [LawfulBEq α] {l : List α} {a : α}
    (ha : a ∈ l) : (l ++ [a]).eraseDups = l.eraseDups := by
  rw [List.eraseDups_append]
  simp [List.removeAll, ha]

/-! ### The first item of each key -/

section FirstByKey

variable {α κ : Type} [DecidableEq κ] (key : α → κ)

/-- The items whose keys have not come up, each key once. -/
def firstByKey : List κ → List α → List α
  | _, [] => []
  | seen, a :: items =>
    if key a ∈ seen then firstByKey seen items else a :: firstByKey (key a :: seen) items

theorem firstByKey_sublist (seen : List κ) (items : List α) :
    (firstByKey key seen items).Sublist items := by
  induction items generalizing seen with
  | nil => exact List.Sublist.refl _
  | cons a items ih =>
    rw [firstByKey]
    split_ifs
    · exact (ih seen).cons a
    · exact (ih (key a :: seen)).cons_cons a

/-- Every key that is new is kept once. -/
theorem mem_map_firstByKey {seen : List κ} {items : List α} {k : κ} :
    k ∈ (firstByKey key seen items).map key ↔ k ∈ items.map key ∧ k ∉ seen := by
  induction items generalizing seen with
  | nil => simp [firstByKey]
  | cons a items ih =>
    rw [firstByKey]
    split_ifs with ha
    · rw [ih, List.map_cons, List.mem_cons]
      refine ⟨fun h => ⟨.inr h.1, h.2⟩, fun h => ⟨h.1.resolve_left fun heq => h.2 (heq ▸ ha), h.2⟩⟩
    · rw [List.map_cons, List.mem_cons, ih, List.map_cons, List.mem_cons, List.mem_cons, not_or]
      by_cases heq : k = key a
      · simp [heq, ha]
      · simp [heq]

/-- The keys of the items kept are distinct, and none of them came up before. -/
theorem nodup_firstByKey (seen : List κ) (items : List α) :
    ((firstByKey key seen items).map key).Nodup ∧
      ∀ k ∈ (firstByKey key seen items).map key, k ∉ seen := by
  induction items generalizing seen with
  | nil => exact ⟨List.nodup_nil, by simp [firstByKey]⟩
  | cons a items ih =>
    rw [firstByKey]
    split_ifs with ha
    · exact ih seen
    · obtain ⟨hnd, hfresh⟩ := ih (key a :: seen)
      rw [List.map_cons, List.nodup_cons]
      refine ⟨⟨fun hmem => hfresh _ hmem List.mem_cons_self, hnd⟩, fun k hk => ?_⟩
      rcases List.mem_cons.1 hk with rfl | hk
      · exact ha
      · exact fun hseen => hfresh k hk (List.mem_cons_of_mem _ hseen)

/-- What depends on keys alone holds of an item that is kept when it holds of any item. -/
theorem exists_mem_firstByKey {P : α → Prop} {items : List α}
    (hP : ∀ a b, key a = key b → (P a ↔ P b)) :
    (∃ a ∈ firstByKey key [] items, P a) ↔ ∃ a ∈ items, P a := by
  constructor
  · rintro ⟨a, ha, hPa⟩
    exact ⟨a, (firstByKey_sublist key [] items).subset ha, hPa⟩
  · rintro ⟨a, ha, hPa⟩
    have hkey : key a ∈ (firstByKey key [] items).map key :=
      (mem_map_firstByKey key).2 ⟨List.mem_map_of_mem ha, List.not_mem_nil⟩
    obtain ⟨b, hb, heq⟩ := List.mem_map.1 hkey
    exact ⟨b, hb, (hP b a heq).2 hPa⟩

/-- Items with distinct keys are all kept. -/
theorem firstByKey_eq_self {seen : List κ} {items : List α} (hnd : (items.map key).Nodup)
    (hfresh : ∀ a ∈ items, key a ∉ seen) : firstByKey key seen items = items := by
  induction items generalizing seen with
  | nil => rfl
  | cons a items ih =>
    obtain ⟨hnot, hnd⟩ := List.nodup_cons.1 hnd
    rw [firstByKey, if_neg (hfresh a List.mem_cons_self)]
    refine congrArg (a :: ·) (ih hnd fun b hb hseen => ?_)
    rcases List.mem_cons.1 hseen with heq | hseen
    · exact hnot (heq ▸ List.mem_map_of_mem hb)
    · exact hfresh b (List.mem_cons_of_mem _ hb) hseen

/-- With distinct keys there are two items when there is one beside the given one. -/
theorem two_le_length_iff {items : List α} (hnd : (items.map key).Nodup) {a : α} (ha : a ∈ items) :
    2 ≤ items.length ↔ ∃ b ∈ items, key b ≠ key a := by
  constructor
  · intro hlength
    by_contra hnone
    have hall : ∀ k ∈ items.map key, k = key a := by
      intro k hk
      obtain ⟨b, hb, rfl⟩ := List.mem_map.1 hk
      by_contra hne
      exact hnone ⟨b, hb, hne⟩
    have hle := (List.nodup_iff_count_le_one.1 hnd) (key a)
    rw [List.count_eq_length.2 fun k hk => (hall k hk).symm, List.length_map] at hle
    omega
  · rintro ⟨b, hb, hne⟩
    rcases items with _ | ⟨c, _ | ⟨d, rest⟩⟩
    · cases ha
    · obtain rfl := List.mem_singleton.1 ha
      obtain rfl := List.mem_singleton.1 hb
      exact absurd rfl hne
    · simp

end FirstByKey

/-! ### The log -/

section Log

variable {τ : Type} [DecidableEq τ]

/-- `if t not in log: log.append(t)`. -/
def note (log : List τ) (t : τ) : List τ := if t ∈ log then log else log ++ [t]

/-- `note` for each token in turn. -/
def noteAll (log ts : List τ) : List τ := ts.foldl note log

theorem noteAll_append (log ts us : List τ) :
    noteAll log (ts ++ us) = noteAll (noteAll log ts) us :=
  List.foldl_append

theorem noteAll_concat (log ts : List τ) (t : τ) :
    noteAll log (ts ++ [t]) = note (noteAll log ts) t :=
  noteAll_append log ts [t]

/-- The log grows at its end, by tokens it did not hold, each once. -/
theorem exists_noteAll_eq (log ts : List τ) :
    ∃ new, noteAll log ts = log ++ new ∧ new.Nodup ∧ ∀ t, t ∈ new ↔ t ∈ ts ∧ t ∉ log := by
  induction ts using List.reverseRecOn with
  | nil => exact ⟨[], by simp [noteAll], List.nodup_nil, by simp⟩
  | append_singleton ts t ih =>
    obtain ⟨new, heq, hnd, hnew⟩ := ih
    rw [noteAll_concat, heq, note]
    by_cases ht : t ∈ log ++ new
    · refine ⟨new, if_pos ht, hnd, fun u => ?_⟩
      rw [hnew u, List.mem_append, List.mem_singleton]
      constructor
      · exact fun h => ⟨.inl h.1, h.2⟩
      · rintro ⟨hu | rfl, hlog⟩
        · exact ⟨hu, hlog⟩
        · exact (hnew u).1 ((List.mem_append.1 ht).resolve_left hlog)
    · obtain ⟨htlog, htnew⟩ := not_or.1 (fun h => ht (List.mem_append.2 h))
      refine ⟨new ++ [t], by rw [if_neg ht, List.append_assoc], ?_, fun u => ?_⟩
      · exact List.nodup_append.2 ⟨hnd, List.nodup_singleton t, fun a ha b hb hab =>
          htnew (List.mem_singleton.1 hb ▸ hab ▸ ha)⟩
      · rw [List.mem_append, hnew u, List.mem_singleton, List.mem_append, List.mem_singleton]
        constructor
        · rintro (⟨hu, hlog⟩ | rfl)
          · exact ⟨.inl hu, hlog⟩
          · exact ⟨.inr rfl, htlog⟩
        · rintro ⟨hu | rfl, hlog⟩
          · exact .inl ⟨hu, hlog⟩
          · exact .inr rfl

theorem mem_noteAll {log ts : List τ} {t : τ} : t ∈ noteAll log ts ↔ t ∈ log ∨ t ∈ ts := by
  obtain ⟨new, heq, -, hnew⟩ := exists_noteAll_eq log ts
  rw [heq, List.mem_append, hnew t]
  by_cases ht : t ∈ log <;> simp [ht]

theorem noteAll_of_nodup {log ts : List τ} (h : (log ++ ts).Nodup) : noteAll log ts = log ++ ts := by
  induction ts using List.reverseRecOn with
  | nil => rw [List.append_nil]; rfl
  | append_singleton ts t ih =>
    rw [← List.append_assoc] at h
    obtain ⟨hinit, -, hdisj⟩ := List.nodup_append.1 h
    rw [noteAll_concat, ih hinit, note, if_neg, List.append_assoc]
    exact fun ht => hdisj t ht t (List.mem_singleton_self t) rfl

theorem nodup_noteAll {log : List τ} (ts : List τ) (h : log.Nodup) : (noteAll log ts).Nodup := by
  obtain ⟨new, heq, hnd, hnew⟩ := exists_noteAll_eq log ts
  rw [heq]
  exact List.nodup_append.2 ⟨h, hnd, fun a ha b hb hab => ((hnew b).1 hb).2 (hab ▸ ha)⟩

/-- Every token of `ts` is among the first `n` of the log once all of them are noted: those
the log holds already stand early enough, and the others have room. -/
def Fits (n : ℕ) (log ts : List τ) : Prop :=
  (∀ t ∈ ts, t ∈ log → t ∈ log.take n) ∧
    ((∀ t ∈ ts, t ∈ log) ∨ log.length + (ts.toFinset \ log.toFinset).card ≤ n)

theorem Fits.congr {n : ℕ} {log ts us : List τ} (h : ∀ t, t ∈ ts ↔ t ∈ us) :
    Fits n log ts ↔ Fits n log us := by
  have hset : ts.toFinset = us.toFinset := by
    ext t
    rw [List.mem_toFinset, List.mem_toFinset, h t]
  unfold Fits
  rw [hset]
  simp only [h]

/-- **What a cut log keeps.** After the tokens of `ts` are noted, the first `n` tokens of the
log include all of them exactly when they fit. -/
theorem forall_mem_take_noteAll {n : ℕ} {log ts : List τ} :
    (∀ t ∈ ts, t ∈ (noteAll log ts).take n) ↔ Fits n log ts := by
  obtain ⟨new, heq, hnd, hnew⟩ := exists_noteAll_eq log ts
  have hset : ts.toFinset \ log.toFinset = new.toFinset := by
    ext t
    rw [Finset.mem_sdiff, List.mem_toFinset, List.mem_toFinset, List.mem_toFinset, hnew t]
  have hcard : (ts.toFinset \ log.toFinset).card = new.length := by
    rw [hset, List.toFinset_card_of_nodup hnd]
  rw [heq, Fits, hcard]
  constructor
  · intro h
    refine ⟨fun t ht hlog => ?_, ?_⟩
    · rcases List.mem_append.1 (List.take_append ▸ h t ht) with hmem | hmem
      · exact hmem
      · exact absurd hlog ((hnew t).1 (List.mem_of_mem_take hmem)).2
    · rcases List.eq_nil_or_concat new with rfl | ⟨front, t, rfl⟩
      · exact .inl fun t ht => by
          by_contra hlog
          exact List.not_mem_nil ((hnew t).2 ⟨ht, hlog⟩)
      · refine .inr ?_
        obtain ⟨ht, hlog⟩ := (hnew t).1 (by simp)
        have hmem := h t ht
        rw [List.take_append] at hmem
        rcases List.mem_append.1 hmem with hmem | hmem
        · exact absurd (List.mem_of_mem_take hmem) hlog
        · -- the last new token survives only where the whole log does
          by_contra hlt
          rw [List.concat_eq_append] at hmem hnd hlt
          have hshort : n - log.length ≤ front.length := by
            simp only [List.length_append, List.length_singleton] at hlt
            omega
          rw [List.take_append_of_le_length hshort] at hmem
          exact (List.nodup_append.1 hnd).2.2 t (List.mem_of_mem_take hmem) t (by simp) rfl
  · rintro ⟨hold, hroom⟩ t ht
    rw [List.take_append]
    by_cases hlog : t ∈ log
    · exact List.mem_append_left _ (hold t ht hlog)
    · refine List.mem_append_right _ ?_
      have hlen := hroom.resolve_left fun hall => hlog (hall t ht)
      rw [List.take_of_length_le (by omega)]
      exact (hnew t).2 ⟨ht, hlog⟩

theorem forall_mem_take_of_same {n : ℕ} {log ts us : List τ} (h : ∀ t, t ∈ ts ↔ t ∈ us) :
    (∀ t ∈ us, t ∈ (noteAll log ts).take n) ↔ Fits n log us := by
  rw [← Fits.congr h, ← forall_mem_take_noteAll]
  simp only [h]

end Log

/-! ### The walk -/

section Walk

variable {α κ ν τ : Type} [DecidableEq κ] [DecidableEq ν] [DecidableEq τ]
variable (key : α → Option κ) (value : α → ν) (token : κ → Option τ)

/-- The first item of a key. -/
def firstOf (items : List α) (k : κ) : Option α := items.find? fun b => key b = some k

/-- One item of the walk: an item without a key is kept, so is the first of its key; a later
one goes, and leaves its key's token where its value is not the kept one. -/
def visit (walk : List α × List τ) (a : α) : List α × List τ :=
  match key a with
  | none => (walk.1 ++ [a], walk.2)
  | some k =>
    match firstOf key walk.1 k with
    | none => (walk.1 ++ [a], walk.2)
    | some b =>
      if value b = value a then walk
      else (walk.1, noteAll walk.2 (token k).toList)

/-- The walk over a list, with the log it starts from. -/
def keepFirst (log : List τ) (items : List α) : List α × List τ :=
  items.foldl (visit key value token) ([], log)

/-- The tokens of the items that differ from another item of their key. -/
def clashes (items : List α) : List τ :=
  items.filterMap fun a => (key a).bind fun k =>
    if ∃ b ∈ items, key b = some k ∧ value b ≠ value a then token k else none

/-- The token an item leaves when `items` come before it. -/
def leaves (items : List α) (a : α) : Option τ :=
  (key a).bind fun k => (firstOf key items k).bind fun b =>
    if value b = value a then none else token k

variable {key value token} {log : List τ} {items : List α}

omit [DecidableEq ν] [DecidableEq τ] in
theorem firstOf_eq_none {k : κ} : firstOf key items k = none ↔ ∀ a ∈ items, key a ≠ some k := by
  simp [firstOf]

omit [DecidableEq ν] [DecidableEq τ] in
theorem of_firstOf {k : κ} {b : α} (h : firstOf key items k = some b) :
    b ∈ items ∧ key b = some k :=
  ⟨List.mem_of_find?_eq_some h, by simpa using List.find?_some h⟩

omit [DecidableEq ν] [DecidableEq τ] in
theorem exists_firstOf {k : κ} {a : α} (ha : a ∈ items) (hk : key a = some k) :
    ∃ b, firstOf key items k = some b := by
  rw [← Option.ne_none_iff_exists']
  exact fun hnone => firstOf_eq_none.1 hnone a ha hk

omit [DecidableEq ν] [DecidableEq τ] in
theorem firstOf_concat (a : α) (k : κ) :
    firstOf key (items ++ [a]) k =
      (firstOf key items k).or (if key a = some k then some a else none) := by
  simp [firstOf, List.find?_append]

omit [DecidableEq κ] [DecidableEq ν] [DecidableEq τ] in
/-- An element of a list with distinct keys is known by its key. -/
theorem eq_of_nodup_filterMap {a b : α} {k : κ} (h : (items.filterMap key).Nodup) (ha : a ∈ items)
    (hb : b ∈ items) (hka : key a = some k) (hkb : key b = some k) : a = b := by
  induction items with
  | nil => cases ha
  | cons c items ih =>
    have hfresh : ∀ {x}, key c = some k → x ∈ items → key x ≠ some k := fun hc hx hkx => by
      rw [List.filterMap_cons_some hc] at h
      exact (List.nodup_cons.1 h).1 (List.mem_filterMap.2 ⟨_, hx, hkx⟩)
    have htail : (items.filterMap key).Nodup := by
      rw [List.filterMap_cons] at h
      split at h
      · exact h
      · exact (List.nodup_cons.1 h).2
    rcases List.mem_cons.1 ha with rfl | ha'
    · rcases List.mem_cons.1 hb with rfl | hb'
      · rfl
      · exact absurd hkb (hfresh hka hb')
    · rcases List.mem_cons.1 hb with rfl | hb'
      · exact absurd hka (hfresh hkb ha')
      · exact ih htail ha' hb'

/-- What one item does to the walk. -/
inductive Visited (key : α → Option κ) (value : α → ν) (token : κ → Option τ)
    (walk : List α × List τ) (a : α) : List α × List τ → Prop
  | unkeyed (hkey : key a = none) : Visited key value token walk a (walk.1 ++ [a], walk.2)
  | first (k : κ) (hkey : key a = some k) (hfirst : firstOf key walk.1 k = none) :
      Visited key value token walk a (walk.1 ++ [a], walk.2)
  | same (k : κ) (b : α) (hkey : key a = some k) (hfirst : firstOf key walk.1 k = some b)
      (heq : value b = value a) : Visited key value token walk a walk
  | clash (k : κ) (b : α) (hkey : key a = some k) (hfirst : firstOf key walk.1 k = some b)
      (hne : value b ≠ value a) :
      Visited key value token walk a (walk.1, noteAll walk.2 (token k).toList)

variable (key value token) in
theorem visited (walk : List α × List τ) (a : α) :
    Visited key value token walk a (visit key value token walk a) := by
  unfold visit
  split
  · exact .unkeyed ‹_›
  · split
    · exact .first _ ‹_› ‹_›
    · split_ifs with heq
      · exact .same _ _ ‹_› ‹_› heq
      · exact .clash _ _ ‹_› ‹_› heq

theorem keepFirst_concat (a : α) :
    keepFirst key value token log (items ++ [a]) =
      visit key value token (keepFirst key value token log items) a := by
  simp [keepFirst]

/-- The walk keeps, under every key, the first item of the list. -/
theorem firstOf_keepFirst (k : κ) :
    firstOf key (keepFirst key value token log items).1 k = firstOf key items k := by
  induction items using List.reverseRecOn generalizing k with
  | nil => rfl
  | append_singleton items a ih =>
    have hold {b : α} {k' : κ} (hk' : key a = some k')
        (hfirst : firstOf key (keepFirst key value token log items).1 k' = some b) :
        firstOf key (keepFirst key value token log items).1 k = firstOf key (items ++ [a]) k := by
      rw [firstOf_concat, ih]
      split_ifs with hk
      · obtain rfl : k' = k := Option.some.inj (hk'.symm.trans hk)
        rw [← ih, hfirst, Option.some_or]
      · rw [Option.or_none]
    rw [keepFirst_concat]
    have hvisit := visited key value token (keepFirst key value token log items) a
    generalize visit key value token (keepFirst key value token log items) a = walk at hvisit ⊢
    cases hvisit with
    | unkeyed | first => rw [firstOf_concat, firstOf_concat, ih]
    | same k' b hkey hfirst | clash k' b hkey hfirst => exact hold hkey hfirst

theorem keepFirst_sublist : (keepFirst key value token log items).1.Sublist items := by
  induction items using List.reverseRecOn with
  | nil => exact List.Sublist.refl _
  | append_singleton items a ih =>
    have hkeep := ih.trans (List.sublist_append_left items [a])
    rw [keepFirst_concat]
    have hvisit := visited key value token (keepFirst key value token log items) a
    generalize visit key value token (keepFirst key value token log items) a = walk at hvisit ⊢
    cases hvisit with
    | unkeyed | first => exact ih.append (List.Sublist.refl _)
    | same | clash => exact hkeep

theorem keepFirst_ne_nil (h : items ≠ []) : (keepFirst key value token log items).1 ≠ [] := by
  obtain ⟨front, a, rfl⟩ := (List.eq_nil_or_concat items).resolve_left h
  have hvisit := visited key value token (keepFirst key value token log front) a
  rw [List.concat_eq_append, keepFirst_concat]
  generalize visit key value token (keepFirst key value token log front) a = walk at hvisit ⊢
  cases hvisit with
  | unkeyed | first => exact List.append_ne_nil_of_right_ne_nil _ (List.cons_ne_nil _ _)
  | same k b hkey hfirst | clash k b hkey hfirst =>
    exact List.ne_nil_of_mem (of_firstOf hfirst).1

/-- No key is kept twice. -/
theorem nodup_keepFirst : ((keepFirst key value token log items).1.filterMap key).Nodup := by
  induction items using List.reverseRecOn with
  | nil => exact List.nodup_nil
  | append_singleton items a ih =>
    rw [keepFirst_concat]
    have hvisit := visited key value token (keepFirst key value token log items) a
    generalize visit key value token (keepFirst key value token log items) a = walk at hvisit ⊢
    cases hvisit with
    | unkeyed hkey => simpa [hkey] using ih
    | first k hkey hfirst =>
      have hnew : k ∉ (keepFirst key value token log items).1.filterMap key := fun hmem => by
        obtain ⟨b, hb, hkb⟩ := List.mem_filterMap.1 hmem
        exact firstOf_eq_none.1 hfirst b hb hkb
      rw [List.filterMap_append]
      refine List.nodup_append.2 ⟨ih, by simp [hkey], fun x hx y hy hxy => hnew ?_⟩
      obtain rfl : y = k := by simpa [hkey] using hy
      exact hxy ▸ hx
    | same | clash => exact ih

/-- An item that is not the first of its key is kept as the first one. -/
theorem mem_keepFirst_of_firstOf {k : κ} {b : α} (h : firstOf key items k = some b) :
    b ∈ (keepFirst key value token log items).1 :=
  (of_firstOf ((firstOf_keepFirst k).trans h)).1

/-- Items of distinct keys are all kept, and nothing is noted. -/
theorem keepFirst_of_nodup (h : (items.filterMap key).Nodup) :
    keepFirst key value token log items = (items, log) := by
  induction items using List.reverseRecOn with
  | nil => rfl
  | append_singleton items a ih =>
    rw [List.filterMap_append] at h
    obtain ⟨hitems, -, hdisj⟩ := List.nodup_append.1 h
    rw [keepFirst_concat, ih hitems, visit]
    split
    · rfl
    · rename_i k hkey
      have hnone : firstOf key items k = none := firstOf_eq_none.2 fun b hb hkb =>
        hdisj k (List.mem_filterMap.2 ⟨b, hb, hkb⟩) k (by simp [hkey]) rfl
      rw [hnone]

/-! ### What the walk notes -/

omit [DecidableEq τ] in
theorem leaves_concat {a a' : α} (ha : a ∈ items) :
    leaves key value token (items ++ [a']) a = leaves key value token items a := by
  unfold leaves
  cases hkey : key a with
  | none => rfl
  | some k =>
    obtain ⟨b, hb⟩ := exists_firstOf ha hkey
    simp only [Option.bind_some, firstOf_concat, hb, Option.some_or]

theorem visit_log {walk : List α × List τ} {a : α} {items : List α}
    (h : ∀ k, firstOf key walk.1 k = firstOf key items k) :
    (visit key value token walk a).2 =
      noteAll walk.2 (leaves key value token (items ++ [a]) a).toList := by
  unfold visit leaves
  cases hkey : key a with
  | none => rfl
  | some k =>
    simp only [Option.bind_some, h k, firstOf_concat, if_pos hkey]
    cases hfirst : firstOf key items k with
    | none =>
      have hself : (if value a = value a then none else token k) = none := if_pos rfl
      rw [Option.none_or, Option.bind_some, hself]
      rfl
    | some b =>
      rw [Option.some_or, Option.bind_some]
      dsimp only
      split_ifs
      · rfl
      · rfl

theorem keepFirst_log :
    (keepFirst key value token log items).2 =
      noteAll log (items.filterMap (leaves key value token items)) := by
  induction items using List.reverseRecOn with
  | nil => rfl
  | append_singleton items a ih =>
    have hold : items.filterMap (leaves key value token (items ++ [a])) =
        items.filterMap (leaves key value token items) :=
      List.filterMap_congr fun b hb => leaves_concat hb
    have hlast : [a].filterMap (leaves key value token (items ++ [a])) =
        (leaves key value token (items ++ [a]) a).toList := by
      cases h : leaves key value token (items ++ [a]) a <;> simp [h]
    rw [keepFirst_concat, visit_log firstOf_keepFirst, ih, List.filterMap_append, hold, hlast,
      noteAll_append]

omit [DecidableEq τ] in
theorem mem_clashes {t : τ} :
    t ∈ clashes key value token items ↔
      ∃ k, token k = some t ∧ ∃ a ∈ items, ∃ b ∈ items,
        key a = some k ∧ key b = some k ∧ value b ≠ value a := by
  unfold clashes
  rw [List.mem_filterMap]
  constructor
  · rintro ⟨a, ha, hbind⟩
    obtain ⟨k, hk, hif⟩ := Option.bind_eq_some_iff.1 hbind
    split_ifs at hif with hex
    obtain ⟨b, hb, hkb, hne⟩ := hex
    exact ⟨k, hif, a, ha, b, hb, hk, hkb, hne⟩
  · rintro ⟨k, htoken, a, ha, b, hb, hka, hkb, hne⟩
    refine ⟨a, ha, Option.bind_eq_some_iff.2 ⟨k, hka, ?_⟩⟩
    rw [if_pos ⟨b, hb, hkb, hne⟩, htoken]

omit [DecidableEq τ] in
theorem leaves_eq_some {a : α} {t : τ} :
    leaves key value token items a = some t ↔
      ∃ k b, key a = some k ∧ firstOf key items k = some b ∧ value b ≠ value a ∧
        token k = some t := by
  simp only [leaves, Option.bind_eq_some_iff, ne_eq]
  constructor
  · rintro ⟨k, hk, b, hb, hif⟩
    split_ifs at hif with hv
    exact ⟨k, b, hk, hb, hv, hif⟩
  · rintro ⟨k, b, hk, hb, hv, ht⟩
    exact ⟨k, hk, b, hb, by rw [if_neg hv, ht]⟩

omit [DecidableEq τ] in
/-- Two items of one key that differ do not both agree with the first one: the tokens left
are those of the clashes. -/
theorem mem_filterMap_leaves {t : τ} :
    t ∈ items.filterMap (leaves key value token items) ↔ t ∈ clashes key value token items := by
  rw [List.mem_filterMap, mem_clashes]
  constructor
  · rintro ⟨a, ha, hleaves⟩
    obtain ⟨k, b, hka, hb, hne, ht⟩ := leaves_eq_some.1 hleaves
    exact ⟨k, ht, a, ha, b, (of_firstOf hb).1, hka, (of_firstOf hb).2, hne⟩
  · rintro ⟨k, ht, a, ha, b, hb, hka, hkb, hne⟩
    obtain ⟨c, hc⟩ := exists_firstOf ha hka
    by_cases hca : value c = value a
    · exact ⟨b, hb, leaves_eq_some.2 ⟨k, c, hkb, hc, fun h => hne (h.symm.trans hca), ht⟩⟩
    · exact ⟨a, ha, leaves_eq_some.2 ⟨k, c, hka, hc, hca, ht⟩⟩

omit [DecidableEq τ] in
/-- **What the walk loses.** Whatever list `cut` holds of the tokens: every item is kept up to
its value, or its key's token is in `cut`, exactly when `cut` holds the tokens of all clashes. -/
theorem kept_or_mem_iff {kept : List α} {cut : List τ}
    (hkept : ∀ k, firstOf key kept k = firstOf key items k) (hnd : (kept.filterMap key).Nodup)
    (htoken : ∀ a ∈ items, ∀ k, key a = some k → ∃ t, token k = some t) :
    (∀ a ∈ items, ∀ k, key a = some k →
        (∃ b ∈ kept, key b = some k ∧ value b = value a) ∨ ∃ t ∈ cut, token k = some t) ↔
      ∀ t ∈ clashes key value token items, t ∈ cut := by
  constructor
  · intro h t ht
    obtain ⟨k, htk, a, ha, b, hb, hka, hkb, hne⟩ := mem_clashes.1 ht
    rcases h a ha k hka with ⟨c, hc, hkc, hca⟩ | ⟨u, hu, huk⟩
    · rcases h b hb k hkb with ⟨d, hd, hkd, hdb⟩ | ⟨u, hu, huk⟩
      · obtain rfl : c = d := eq_of_nodup_filterMap hnd hc hd hkc hkd
        exact absurd (hdb.symm.trans hca) hne
      · exact Option.some.inj (htk.symm.trans huk) ▸ hu
    · exact Option.some.inj (htk.symm.trans huk) ▸ hu
  · intro h a ha k hka
    obtain ⟨b, hb⟩ := exists_firstOf ha hka
    obtain ⟨hbmem, hkb⟩ := of_firstOf ((hkept k).trans hb)
    by_cases hba : value b = value a
    · exact .inl ⟨b, hbmem, hkb, hba⟩
    · obtain ⟨t, ht⟩ := htoken a ha k hka
      exact .inr ⟨t, h t (mem_clashes.2 ⟨k, ht, a, ha, b, (of_firstOf hb).1, hka, hkb, hba⟩), ht⟩

end Walk
end Repetitions
end OpenFoamAgent
