/-
# What a bounded prompt decodes to

The JSON of a prompt is read back by `json.loads` (`Json.loads_dumps`), and the value it
stands for is the payload with long texts and lists shortened around explicit markers
(`Abridged`): the texts keep a head and a tail, the lists their first and last elements and
the number of those in between. What stands under a protected key, however deep inside the
objects of the payload, is in it as it was (`valueAt_compact`).
-/
import OpenFoamAgent.Llm.Context
import OpenFoamAgent.Python.JsonDecoder

namespace OpenFoamAgent
namespace Llm

open Python

/-! ### Abridged values -/

/-- The element in the place of some omitted ones. -/
def omittedItems (n : ℕ) : Json := Json.object [("_model_context_omitted_items", .ofNat n)]

mutual

/-- A value with its long texts and lists shortened to the limits. -/
inductive Abridged (stringLimit listLimit : ℕ) : Json → Json → Prop
  | null : Abridged stringLimit listLimit .null .null
  | bool (b : Bool) : Abridged stringLimit listLimit (.bool b) (.bool b)
  | number (t : Text) : Abridged stringLimit listLimit (.number t) (.number t)
  | text {t : Text} (hfits : t.length ≤ stringLimit) :
      Abridged stringLimit listLimit (.str t) (.str t)
  | longText {head middle tail : Text} (hhead : head ≠ []) (htail : tail ≠ [])
      (hlong : stringLimit < (head ++ middle ++ tail).length)
      (hlength : (head ++ compactedMarker ++ tail).length = stringLimit) :
      Abridged stringLimit listLimit (.str (head ++ middle ++ tail))
        (.str (head ++ compactedMarker ++ tail))
  | list {xs ys : List Json} (hfits : xs.length ≤ listLimit)
      (hitems : AbridgedItems stringLimit listLimit xs ys) :
      Abridged stringLimit listLimit (.list xs) (.list ys)
  | longList {first omitted last first' last' : List Json} (hfirst : first ≠ [])
      (hlast : last ≠ []) (homitted : omitted ≠ [])
      (hlength : first.length + last.length = listLimit)
      (hfirst' : AbridgedItems stringLimit listLimit first first')
      (hlast' : AbridgedItems stringLimit listLimit last last') :
      Abridged stringLimit listLimit (.list (first ++ omitted ++ last))
        (.list (first' ++ omittedItems omitted.length :: last'))
  | dict {es es' : List (Text × Json)} (hentries : AbridgedEntries stringLimit listLimit es es') :
      Abridged stringLimit listLimit (.dict es) (.dict es')

inductive AbridgedItems (stringLimit listLimit : ℕ) : List Json → List Json → Prop
  | nil : AbridgedItems stringLimit listLimit [] []
  | cons {x y : Json} {xs ys : List Json} (hx : Abridged stringLimit listLimit x y)
      (hxs : AbridgedItems stringLimit listLimit xs ys) :
      AbridgedItems stringLimit listLimit (x :: xs) (y :: ys)

inductive AbridgedEntries (stringLimit listLimit : ℕ) :
    List (Text × Json) → List (Text × Json) → Prop
  | nil : AbridgedEntries stringLimit listLimit [] []
  | kept {key : Text} {x : Json} {es es' : List (Text × Json)} (hkey : key ∈ protectedKeys)
      (hes : AbridgedEntries stringLimit listLimit es es') :
      AbridgedEntries stringLimit listLimit ((key, x) :: es) ((key, x) :: es')
  | cons {key : Text} {x x' : Json} {es es' : List (Text × Json)} (hkey : key ∉ protectedKeys)
      (hx : Abridged stringLimit listLimit x x')
      (hes : AbridgedEntries stringLimit listLimit es es') :
      AbridgedEntries stringLimit listLimit ((key, x) :: es) ((key, x') :: es')

end

theorem abridged_compactText {limit : ℕ} (hlimit : 64 ≤ limit) (listLimit : ℕ) (t : Text) :
    Abridged limit listLimit (.str t) (.str (compactText t limit)) := by
  rw [compactText]
  by_cases hfits : t.length ≤ limit
  · rw [if_pos hfits]
    exact .text hfits
  · rw [if_neg hfits]
    have hmarker : compactedMarker.length = 35 := rfl
    have hhead : 1 ≤ (limit - compactedMarker.length) * 3 / 5 := by omega
    have htail : 1 ≤ limit - compactedMarker.length - (limit - compactedMarker.length) * 3 / 5 := by
      omega
    dsimp only
    rw [max_eq_right hhead, max_eq_right htail]
    generalize hh : (limit - compactedMarker.length) * 3 / 5 = head at hhead htail ⊢
    generalize hl : limit - compactedMarker.length - head = tail at htail ⊢
    have hsplit : t = t.take head ++ (t.take (t.length - tail)).drop head ++
        t.drop (t.length - tail) := by
      have hle : head ≤ t.length - tail := by omega
      have hfront : t.take head = (t.take (t.length - tail)).take head := by
        rw [List.take_take, Nat.min_eq_left hle]
      rw [hfront, List.take_append_drop, List.take_append_drop]
    have habridged : Abridged limit listLimit
        (.str (t.take head ++ (t.take (t.length - tail)).drop head ++ t.drop (t.length - tail)))
        (.str (t.take head ++ compactedMarker ++ t.drop (t.length - tail))) := by
      refine .longText ?_ ?_ ?_ ?_
      · intro hnil
        have := congrArg List.length hnil
        rw [List.length_take, List.length_nil] at this
        omega
      · intro hnil
        have := congrArg List.length hnil
        rw [List.length_drop, List.length_nil] at this
        omega
      · rw [← hsplit]
        omega
      · simp only [List.length_append, List.length_take, List.length_drop]
        omega
    rwa [← hsplit] at habridged

theorem AbridgedItems.take {stringLimit listLimit : ℕ} {xs ys : List Json}
    (h : AbridgedItems stringLimit listLimit xs ys) (n : ℕ) :
    AbridgedItems stringLimit listLimit (xs.take n) (ys.take n) := by
  induction xs generalizing ys n with
  | nil =>
    cases h
    rw [List.take_nil]
    exact .nil
  | cons x xs ih =>
    cases h with
    | cons hx hxs =>
      cases n with
      | zero => exact .nil
      | succ n => exact .cons hx (ih hxs n)

theorem AbridgedItems.drop {stringLimit listLimit : ℕ} {xs ys : List Json}
    (h : AbridgedItems stringLimit listLimit xs ys) (n : ℕ) :
    AbridgedItems stringLimit listLimit (xs.drop n) (ys.drop n) := by
  induction xs generalizing ys n with
  | nil =>
    cases h
    rw [List.drop_nil]
    exact .nil
  | cons x xs ih =>
    cases h with
    | cons hx hxs =>
      cases n with
      | zero => exact .cons hx hxs
      | succ n => exact ih hxs n

theorem length_compactItems (stringLimit listLimit : ℕ) (xs : List Json) :
    (compactItems stringLimit listLimit xs).length = xs.length := by
  induction xs with
  | nil => rfl
  | cons x xs ih => rw [compactItems, List.length_cons, List.length_cons, ih]

/-- The first and the last items, around the number of those between them. -/
theorem abridged_boundItems {stringLimit listLimit : ℕ} (hlimit : 2 ≤ listLimit) {xs : List Json}
    (h : AbridgedItems stringLimit listLimit xs (compactItems stringLimit listLimit xs)) :
    Abridged stringLimit listLimit (.list xs)
      (.list (boundItems listLimit (compactItems stringLimit listLimit xs))) := by
  have hlength := length_compactItems stringLimit listLimit xs
  generalize compactItems stringLimit listLimit xs = ys at h hlength ⊢
  rw [boundItems, hlength]
  by_cases hlong : listLimit < xs.length
  · rw [if_pos hlong]
    have hfirst : max 1 (listLimit / 2) = listLimit / 2 := max_eq_right (by omega)
    have hlast : max 1 (listLimit - listLimit / 2) = listLimit - listLimit / 2 :=
      max_eq_right (by omega)
    dsimp only
    rw [hfirst, hlast]
    generalize hl : listLimit - listLimit / 2 = last at hlast ⊢
    generalize hf : listLimit / 2 = first at hfirst hl ⊢
    have hle : first ≤ xs.length - last := by omega
    have hsplit : xs = xs.take first ++ (xs.take (xs.length - last)).drop first ++
        xs.drop (xs.length - last) := by
      have hfront : xs.take first = (xs.take (xs.length - last)).take first := by
        rw [List.take_take, Nat.min_eq_left hle]
      rw [hfront, List.take_append_drop, List.take_append_drop]
    have homitted : ((xs.take (xs.length - last)).drop first).length =
        xs.length - first - last := by
      rw [List.length_drop, List.length_take]
      omega
    have habridged : Abridged stringLimit listLimit
        (.list (xs.take first ++ (xs.take (xs.length - last)).drop first ++
          xs.drop (xs.length - last)))
        (.list (ys.take first ++ omittedItems ((xs.take (xs.length - last)).drop first).length ::
          ys.drop (xs.length - last))) := by
      refine .longList ?_ ?_ ?_ ?_ (h.take first) (h.drop (xs.length - last))
      · refine List.ne_nil_of_length_pos ?_
        rw [List.length_take]
        omega
      · refine List.ne_nil_of_length_pos ?_
        rw [List.length_drop]
        omega
      · refine List.ne_nil_of_length_pos ?_
        omega
      · rw [List.length_take, List.length_drop]
        omega
    rwa [← hsplit, homitted] at habridged
  · rw [if_neg hlong]
    exact .list (not_lt.1 hlong) h

mutual

/-- **Compaction abridges.** -/
theorem abridged_compactJsonValue {stringLimit listLimit : ℕ} (hstring : 64 ≤ stringLimit)
    (hlist : 2 ≤ listLimit) : ∀ v : Json,
      Abridged stringLimit listLimit v (compactJsonValue stringLimit listLimit v)
  | .null => .null
  | .bool b => .bool b
  | .number t => .number t
  | .str t => by
    rw [compactJsonValue, max_eq_right hstring]
    exact abridged_compactText hstring listLimit t
  | .list xs => by
    rw [compactJsonValue]
    exact abridged_boundItems hlist (abridged_compactItems hstring hlist xs)
  | .dict es => by
    rw [compactJsonValue]
    exact .dict (abridged_compactEntries hstring hlist es)

theorem abridged_compactItems {stringLimit listLimit : ℕ} (hstring : 64 ≤ stringLimit)
    (hlist : 2 ≤ listLimit) : ∀ xs : List Json,
      AbridgedItems stringLimit listLimit xs (compactItems stringLimit listLimit xs)
  | [] => .nil
  | x :: xs => by
    rw [compactItems]
    exact .cons (abridged_compactJsonValue hstring hlist x) (abridged_compactItems hstring hlist xs)

theorem abridged_compactEntries {stringLimit listLimit : ℕ} (hstring : 64 ≤ stringLimit)
    (hlist : 2 ≤ listLimit) : ∀ es : List (Text × Json),
      AbridgedEntries stringLimit listLimit es (compactEntries stringLimit listLimit es)
  | [] => .nil
  | e :: es => by
    have hes := abridged_compactEntries hstring hlist es
    have hx := abridged_compactJsonValue hstring hlist e.2
    obtain ⟨key, x⟩ := e
    rw [compactEntries]
    by_cases hkey : key ∈ protectedKeys
    · rw [if_pos hkey]
      exact .kept hkey hes
    · rw [if_neg hkey]
      exact .cons hkey hx hes

end

/-! ### Protected subtrees -/

/-- The value at the end of a way through the objects of a value. -/
def valueAt : List Text → Json → Option Json
  | [], v => some v
  | key :: path, .dict es => ((es.find? (·.1 = key)).map Prod.snd).bind (valueAt path)
  | _ :: _, _ => none

theorem find?_compactEntries (stringLimit listLimit : ℕ) (key : Text) (es : List (Text × Json)) :
    ((compactEntries stringLimit listLimit es).find? (·.1 = key)).map Prod.snd =
      ((es.find? (·.1 = key)).map Prod.snd).map fun x =>
        if key ∈ protectedKeys then x else compactJsonValue stringLimit listLimit x := by
  induction es with
  | nil => rfl
  | cons e es ih =>
    obtain ⟨k, x⟩ := e
    rw [compactEntries]
    by_cases hk : k = key
    · subst hk
      rw [List.find?_cons_of_pos (by simp), List.find?_cons_of_pos (by simp)]
      rfl
    · rw [List.find?_cons_of_neg (by simpa using hk), List.find?_cons_of_neg (by simpa using hk), ih]

/-- **What stands under a protected key is not changed.** -/
theorem valueAt_compact (stringLimit listLimit : ℕ) {key : Text} (hkey : key ∈ protectedKeys)
    (path : List Text) (v : Json) :
    valueAt (path ++ [key]) (compactJsonValue stringLimit listLimit v) =
      valueAt (path ++ [key]) v := by
  induction path generalizing v with
  | nil =>
    cases v with
    | dict es =>
      rw [compactJsonValue, List.nil_append, valueAt, valueAt, find?_compactEntries]
      cases (es.find? (·.1 = key)).map Prod.snd with
      | none => rfl
      | some x => rw [Option.map_some, if_pos hkey]
    | null => rfl
    | bool b => rfl
    | number t => rfl
    | str t => rfl
    | list xs => rfl
  | cons k path ih =>
    cases v with
    | dict es =>
      rw [compactJsonValue, List.cons_append, valueAt, valueAt, find?_compactEntries]
      cases (es.find? (·.1 = k)).map Prod.snd with
      | none => rfl
      | some x =>
        rw [Option.map_some, Option.bind_some, Option.bind_some]
        split_ifs
        · rfl
        · exact ih x
    | null => rfl
    | bool b => rfl
    | number t => rfl
    | str t => rfl
    | list xs => rfl

/-! ### Validity -/

theorem validItems_iff {xs : List Json} : Json.validItems xs = true ↔ ∀ x ∈ xs, x.valid = true := by
  induction xs with
  | nil => simp [Json.validItems]
  | cons x xs ih => rw [Json.validItems, Bool.and_eq_true, ih, List.forall_mem_cons]

theorem map_fst_compactEntries (stringLimit listLimit : ℕ) (es : List (Text × Json)) :
    (compactEntries stringLimit listLimit es).map Prod.fst = es.map Prod.fst := by
  induction es with
  | nil => rfl
  | cons e es ih =>
    obtain ⟨key, x⟩ := e
    rw [compactEntries, List.map_cons, List.map_cons, ih]

theorem valid_omittedItems {n : ℕ} (h : n ≤ Json.maxSize) : (omittedItems n).valid = true := by
  have hn := Json.valid_ofNat h
  simp [omittedItems, Json.object, Json.valid, Json.validEntries, hn]

theorem valid_boundItems {listLimit : ℕ} (hlimit : 2 ≤ listLimit) {xs : List Json}
    (h : (Json.list xs).valid = true) : (Json.list (boundItems listLimit xs)).valid = true := by
  rw [boundItems]
  by_cases hlong : listLimit < xs.length
  · rw [if_pos hlong]
    rw [Json.valid, Bool.and_eq_true, decide_eq_true_iff, validItems_iff] at h ⊢
    obtain ⟨hsize, hitems⟩ := h
    have hfirst : max 1 (listLimit / 2) = listLimit / 2 := max_eq_right (by omega)
    have hlast : max 1 (listLimit - listLimit / 2) = listLimit - listLimit / 2 :=
      max_eq_right (by omega)
    dsimp only
    rw [hfirst, hlast]
    refine ⟨?_, fun x hx => ?_⟩
    · simp only [List.length_append, List.length_cons, List.length_take, List.length_drop]
      omega
    · rcases List.mem_append.1 hx with hx | hx
      · exact hitems x (List.mem_of_mem_take hx)
      · rcases List.mem_cons.1 hx with rfl | hx
        · exact valid_omittedItems (by omega)
        · exact hitems x (List.mem_of_mem_drop hx)
  · rwa [if_neg hlong]

mutual

theorem valid_compactJsonValue {stringLimit listLimit : ℕ} (hlist : 2 ≤ listLimit) :
    ∀ v : Json, v.valid = true → (compactJsonValue stringLimit listLimit v).valid = true
  | .null => fun h => h
  | .bool _ => fun h => h
  | .number _ => fun h => h
  | .str _ => fun _ => rfl
  | .list xs => fun h => by
    rw [Json.valid, Bool.and_eq_true, decide_eq_true_iff] at h
    rw [compactJsonValue]
    refine valid_boundItems hlist ?_
    rw [Json.valid, length_compactItems, valid_compactItems hlist xs h.2, decide_eq_true h.1]
    rfl
  | .dict es => fun h => by
    rw [Json.valid, Bool.and_eq_true, decide_eq_true_iff] at h
    rw [compactJsonValue, Json.valid, map_fst_compactEntries,
      valid_compactEntries hlist es h.2, decide_eq_true h.1]
    rfl

theorem valid_compactItems {stringLimit listLimit : ℕ} (hlist : 2 ≤ listLimit) :
    ∀ xs : List Json, Json.validItems xs = true →
      Json.validItems (compactItems stringLimit listLimit xs) = true
  | [] => fun _ => rfl
  | x :: xs => fun h => by
    rw [Json.validItems, Bool.and_eq_true] at h
    rw [compactItems, Json.validItems, valid_compactJsonValue hlist x h.1,
      valid_compactItems hlist xs h.2]
    rfl

theorem valid_compactEntries {stringLimit listLimit : ℕ} (hlist : 2 ≤ listLimit) :
    ∀ es : List (Text × Json), Json.validEntries es = true →
      Json.validEntries (compactEntries stringLimit listLimit es) = true
  | [] => fun _ => rfl
  | e :: es => fun h => by
    rw [Json.validEntries, Bool.and_eq_true] at h
    have hx : (compactJsonValue stringLimit listLimit e.2).valid = true :=
      valid_compactJsonValue hlist e.2 h.1
    have hes : Json.validEntries (compactEntries stringLimit listLimit es) = true :=
      valid_compactEntries hlist es h.2
    obtain ⟨key, x⟩ := e
    rw [compactEntries, Json.validEntries, hes, Bool.and_true]
    dsimp only
    split_ifs
    · exact h.1
    · exact hx

end

/-! ### Prompts -/

/-- What a level makes of a payload. -/
def AbridgedAt : Option (ℕ × ℕ) → Json → Json → Prop
  | none => Eq
  | some limits => Abridged limits.1 limits.2

/-- The prompt of a level. -/
def promptAt (instruction : Text) (payload : Json) (limits : Option (ℕ × ℕ)) : Text :=
  instruction ++ (candidateAt payload limits).dumps

theorem limits_of_mem_levels {limits : ℕ × ℕ} (h : some limits ∈ levels) :
    64 ≤ limits.1 ∧ 2 ≤ limits.2 := by
  simp only [levels, List.mem_cons, List.not_mem_nil, reduceCtorEq, Option.some.injEq, false_or,
    or_false] at h
  rcases h with rfl | rfl | rfl | rfl <;> decide

/-- The payload at a level: read back, abridged, and whole under the protected keys. -/
theorem candidateAt_spec {payload : Json} (h : payload.valid = true) {limits : Option (ℕ × ℕ)}
    (hlimits : limits ∈ levels) :
    Json.loads (candidateAt payload limits).dumps = some (candidateAt payload limits) ∧
      AbridgedAt limits payload (candidateAt payload limits) ∧
      ∀ path, ∀ key ∈ protectedKeys, valueAt (path ++ [key]) (candidateAt payload limits) =
        valueAt (path ++ [key]) payload := by
  cases limits with
  | none => exact ⟨Json.loads_dumps h, rfl, fun _ _ _ => rfl⟩
  | some limits =>
    obtain ⟨hstring, hlist⟩ := limits_of_mem_levels hlimits
    exact ⟨Json.loads_dumps (valid_compactJsonValue hlist payload h),
      abridged_compactJsonValue hstring hlist payload,
      fun path key hkey => valueAt_compact _ _ hkey path payload⟩

/-- A prompt within its bound that decodes to the abridged payload, of the first level that
fits; or an exception where none does. -/
def BoundedOrRaised (instruction : Text) (payload : Json) (maxChars : ℤ) : Prop :=
  (buildBoundedJsonPrompt instruction payload maxChars = .error .value ∧ maxChars < 4000) ∨
  (buildBoundedJsonPrompt instruction payload maxChars = .error .runtime ∧
    ∀ limits ∈ levels, maxChars < (promptAt instruction payload limits).length) ∨
  ∃ result body shown limits,
    buildBoundedJsonPrompt instruction payload maxChars = .ok result ∧
    result.prompt = instruction ++ body ∧ (result.prompt.length : ℤ) ≤ maxChars ∧
    Json.loads body = some shown ∧
    levels[result.compactionLevel]? = some limits ∧ AbridgedAt limits payload shown ∧
    (∀ path, ∀ key ∈ protectedKeys,
      valueAt (path ++ [key]) shown = valueAt (path ++ [key]) payload) ∧
    ∀ (level : ℕ) (limits' : Option (ℕ × ℕ)), level < result.compactionLevel →
      levels[level]? = some limits' → maxChars < (promptAt instruction payload limits').length

/-- **What a bounded prompt decodes to.** -/
theorem buildBoundedJsonPrompt_exact (instruction : Text) {payload : Json}
    (h : payload.valid = true) (maxChars : ℤ) : BoundedOrRaised instruction payload maxChars := by
  by_cases hsmall : maxChars < 4000
  · exact .inl ⟨by rw [buildBoundedJsonPrompt, if_pos hsmall], hsmall⟩
  have hresults : ∀ i : ℕ, (levels.zipIdx.map fun level =>
      promptResult (instruction ++ (candidateAt payload level.1).dumps) level.2)[i]? =
        levels[i]?.map fun limits => promptResult (promptAt instruction payload limits) i := by
    intro i
    rw [List.getElem?_map, List.getElem?_zipIdx, Option.map_map, Nat.zero_add]
    rfl
  cases hfind : (levels.zipIdx.map fun level => promptResult
      (instruction ++ (candidateAt payload level.1).dumps) level.2).find?
        fun result => (result.promptChars : ℤ) ≤ maxChars with
  | none =>
    refine .inr (.inl ⟨?_, fun limits hlimits => ?_⟩)
    · rw [buildBoundedJsonPrompt, if_neg hsmall]
      dsimp only
      rw [hfind]
    · obtain ⟨i, hi, rfl⟩ := List.getElem_of_mem hlimits
      have hresult := hresults i
      rw [List.getElem?_eq_getElem hi, Option.map_some] at hresult
      have hlong := List.find?_eq_none.1 hfind _ (List.mem_of_getElem? hresult)
      rw [decide_eq_true_iff, not_le] at hlong
      exact hlong
  | some result =>
    obtain ⟨hfits, i, hi, rfl, hbefore⟩ := List.find?_eq_some_iff_getElem.1 hfind
    have hresult := hresults i
    rw [List.getElem?_eq_getElem hi] at hresult
    obtain ⟨limits, hlimits, hresult⟩ := Option.map_eq_some_iff.1 hresult.symm
    obtain ⟨hloads, habridged, hkept⟩ := candidateAt_spec h (List.mem_of_getElem? hlimits)
    rw [← hresult] at hfind hfits
    refine .inr (.inr ⟨promptResult (promptAt instruction payload limits) i,
      (candidateAt payload limits).dumps, candidateAt payload limits, limits, ?_, rfl,
      of_decide_eq_true hfits, hloads, hlimits, habridged, hkept,
      fun level limits' hlevel hlimits' => ?_⟩)
    · rw [buildBoundedJsonPrompt, if_neg hsmall]
      dsimp only
      rw [hfind]
    · have hother := hresults level
      have hnot := hbefore level hlevel
      rw [hlimits', Option.map_some] at hother
      obtain ⟨_, hother⟩ := List.getElem?_eq_some_iff.1 hother
      rw [hother, Bool.not_eq_true', decide_eq_false_iff_not, not_le] at hnot
      exact hnot

/-- Confirmed facts, a long log and many observations. -/
def longPayload : Json := .object
  [("confirmed_intake", .object [("facts", .ofTexts ["Re=1000".toList])]),
    ("log", .str (List.replicate 5000 'x')),
    ("observations", .list (List.replicate 100 (.number "0.5".toList)))]

theorem buildBoundedJsonPrompt_exact_long :
    BoundedOrRaised "Plan the case:\n".toList longPayload 6000 :=
  buildBoundedJsonPrompt_exact _ (by decide +kernel) _

end Llm
end OpenFoamAgent
