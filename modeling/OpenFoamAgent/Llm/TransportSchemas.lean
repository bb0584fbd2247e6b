/-
# What the strict transport keeps of a schema

A schema is clean where no property and no definition has the name of a keyword that the
rewriting looks at, where no tuple leaves open what follows its positional schemas, and where no
object is open. In a clean schema the rewriting of one object is told entry by entry
(`Rewritten`), and every fact about the whole goes from the schemas below an object to the
object: what is compiled has no default and no positional schemas, and is a fixed point
(`Schema.tidy`).
-/
import OpenFoamAgent.Llm.StructuredSchemas
import Mathlib.Data.List.Nodup

namespace OpenFoamAgent
namespace Llm

open Python
open Json (lookup)

/-! ### Entries of an object -/

theorem mem_pop {key : String} {es : List (Text × Json)} {e : Text × Json} :
    e ∈ pop key es ↔ e ∈ es ∧ e.1 ≠ key.toList := by
  rw [pop, List.mem_filter, decide_eq_true_iff]

theorem lookup_pop_self (key : String) (es : List (Text × Json)) :
    lookup (pop key es) key = none := by
  rw [lookup, Option.map_eq_none_iff, List.find?_eq_none]
  intro e he
  simpa using (List.mem_filter.1 he).2

theorem lookup_pop_of_ne {key key' : String} (h : key' ≠ key) (es : List (Text × Json)) :
    lookup (pop key es) key' = lookup es key' := by
  have hne : key.toList ≠ key'.toList := fun e => h (String.toList_injective e).symm
  induction es with
  | nil => rfl
  | cons e es ih =>
    by_cases he : e.1 = key.toList
    · rw [pop, List.filter_cons_of_neg (by simpa using he)]
      rw [lookup, lookup, List.find?_cons_of_neg (by rw [he]; simpa using hne)]
      exact ih
    · rw [pop, List.filter_cons_of_pos (by simpa using he)]
      by_cases hkey : e.1 = key'.toList
      · rw [lookup, lookup, List.find?_cons_of_pos (by simpa using hkey),
          List.find?_cons_of_pos (by simpa using hkey)]
      · rw [lookup, lookup, List.find?_cons_of_neg (by simpa using hkey),
          List.find?_cons_of_neg (by simpa using hkey)]
        exact ih

theorem pop_of_lookup {key : String} {es : List (Text × Json)} (h : lookup es key = none) :
    pop key es = es := by
  rw [lookup, Option.map_eq_none_iff, List.find?_eq_none] at h
  exact List.filter_eq_self.2 fun e he => by simpa using h e he

theorem set_of_lookup {key : String} {es : List (Text × Json)} {value : Json}
    (h : lookup es key = some value) : Json.set key value es = es := by
  induction es with
  | nil => cases h
  | cons e es ih =>
    rw [Json.set]
    by_cases he : e.1 = key.toList
    · rw [lookup, List.find?_cons_of_pos (by simpa using he)] at h
      rw [if_pos he, ← he, ← Option.some.inj h]
    · rw [lookup, List.find?_cons_of_neg (by simpa using he)] at h
      rw [if_neg he, ih h]

theorem lookup_mapValues (f : Json → Json) (es : List (Text × Json)) (key : String) :
    lookup (mapValues f es) key = (lookup es key).map f := by
  rw [lookup, lookup, mapValues, List.find?_map, Option.map_map, Option.map_map]
  rfl

theorem map_fst_mapValues (f : Json → Json) (es : List (Text × Json)) :
    (mapValues f es).map Prod.fst = es.map Prod.fst := by
  rw [mapValues, List.map_map]
  rfl

theorem lookup_of_mem {es : List (Text × Json)} (hes : (es.map Prod.fst).Nodup) {key : String}
    {value : Json} (h : (key.toList, value) ∈ es) : lookup es key = some value := by
  induction es with
  | nil => cases h
  | cons e es ih =>
    rw [List.map_cons, List.nodup_cons] at hes
    rcases List.mem_cons.1 h with rfl | h
    · rw [lookup, List.find?_cons_of_pos (by simp)]
      rfl
    · have hne : e.1 ≠ key.toList := fun heq => hes.1 (heq ▸ List.mem_map_of_mem h)
      rw [lookup, List.find?_cons_of_neg (by simpa using hne)]
      exact ih hes.2 h

theorem mem_of_lookup {es : List (Text × Json)} {key : String} {value : Json}
    (h : lookup es key = some value) : (key.toList, value) ∈ es := by
  obtain ⟨e, he, rfl⟩ := Option.map_eq_some_iff.1 h
  have hkey : e.1 = key.toList := by simpa using List.find?_some he
  rw [← hkey]
  exact List.mem_of_find?_eq_some he

theorem normalizeItems_eq (xs : List Json) : normalizeItems xs = xs.map normalizePrefixItems := by
  induction xs with
  | nil => rfl
  | cons x xs ih => rw [normalizeItems, ih, List.map_cons]

theorem normalizeEntries_eq (es : List (Text × Json)) :
    normalizeEntries es = mapValues normalizePrefixItems es := by
  induction es with
  | nil => rfl
  | cons e es ih => rw [normalizeEntries, ih, mapValues, mapValues, List.map_cons]

theorem compileItems_eq (xs : List Json) : compileItems xs = xs.map compileOpenaiStrict := by
  induction xs with
  | nil => rfl
  | cons x xs ih => rw [compileItems, ih, List.map_cons]

theorem compileEntries_eq (es : List (Text × Json)) :
    compileEntries es = mapValues compileOpenaiStrict es := by
  induction es with
  | nil => rfl
  | cons e es ih => rw [compileEntries, ih, mapValues, mapValues, List.map_cons]

/-! ### Values without objects of some kind -/

/-- The entries of every object in a value are as they should be. -/
inductive EveryDict (good : List (Text × Json) → Prop) : Json → Prop
  | null : EveryDict good .null
  | bool (b : Bool) : EveryDict good (.bool b)
  | number (t : Text) : EveryDict good (.number t)
  | str (t : Text) : EveryDict good (.str t)
  | list {xs : List Json} (h : ∀ x ∈ xs, EveryDict good x) : EveryDict good (.list xs)
  | dict {es : List (Text × Json)} (here : good es) (h : ∀ e ∈ es, EveryDict good e.2) :
      EveryDict good (.dict es)

theorem EveryDict.mono {good good' : List (Text × Json) → Prop} (hgood : ∀ es, good es → good' es)
    {value : Json} (h : EveryDict good value) : EveryDict good' value := by
  induction h with
  | null => exact .null
  | bool b => exact .bool b
  | number t => exact .number t
  | str t => exact .str t
  | list _ ih => exact .list ih
  | dict here _ ih => exact .dict (hgood _ here) ih

theorem itemPaths_eq {bad : List (Text × Json) → Bool} {xs : List Json}
    (h : ∀ x ∈ xs, ∀ path, objectPaths bad path x = []) (path : Text) (index : ℕ) :
    itemPaths bad path index xs = [] := by
  induction xs generalizing index with
  | nil => rfl
  | cons x xs ih =>
    obtain ⟨hx, hxs⟩ := List.forall_mem_cons.1 h
    rw [itemPaths, hx, ih hxs, List.append_nil]

theorem entryPaths_eq {bad : List (Text × Json) → Bool} {es : List (Text × Json)}
    (h : ∀ e ∈ es, ∀ path, objectPaths bad path e.2 = []) (path : Text) :
    entryPaths bad path es = [] := by
  induction es with
  | nil => rfl
  | cons e es ih =>
    obtain ⟨he, hes⟩ := List.forall_mem_cons.1 h
    rw [entryPaths, he, ih hes, List.append_nil]

/-- A walk over a value without objects of the kind it looks for finds nothing. -/
theorem EveryDict.objectPaths_eq {bad : List (Text × Json) → Bool} {value : Json}
    (h : EveryDict (fun es => bad es = false) value) (path : Text) :
    objectPaths bad path value = [] := by
  induction h generalizing path with
  | null | bool | number | str => rfl
  | list _ ih => exact itemPaths_eq ih path 0
  | dict here _ ih =>
    rw [objectPaths, here, entryPaths_eq ih]
    rfl

/-- A value without objects is not rewritten. -/
theorem EveryDict.rewritten {value : Json} (h : EveryDict (fun _ => False) value) :
    normalizePrefixItems value = value ∧ compileOpenaiStrict value = value := by
  induction h with
  | null | bool | number | str => exact ⟨rfl, rfl⟩
  | @list xs _ ih =>
    rw [normalizePrefixItems, compileOpenaiStrict, normalizeItems_eq, compileItems_eq]
    exact ⟨congrArg Json.list ((List.map_congr_left fun x hx => (ih x hx).1).trans (List.map_id _)),
      congrArg Json.list ((List.map_congr_left fun x hx => (ih x hx).2).trans (List.map_id _))⟩
  | dict here => exact here.elim

/-! ### Schemas -/

/-- The keywords whose values map names to schemas. -/
def mappingKeys : List String := ["properties", "$defs"]

/-- The keywords whose values are lists of schemas. -/
def listKeys : List String := ["prefixItems", "anyOf", "allOf"]

/-- The keywords whose values may hold objects. -/
def schemaKeys : List String := mappingKeys ++ listKeys ++ ["items", "default"]

/-- The values of the keywords of a schema without `oneOf` and arbitrary-key mappings. -/
structure Shaped (es : List (Text × Json)) : Prop where
  nodup : (es.map Prod.fst).Nodup
  mappings : ∀ key ∈ mappingKeys, ∀ v, lookup es key = some v →
    ∃ ps, v = .dict ps ∧ (ps.map Prod.fst).Nodup
  lists : ∀ key ∈ listKeys, ∀ v, lookup es key = some v → ∃ ss, v = .list ss
  items : ∀ v, lookup es "items" = some v → (∃ fs, v = .dict fs) ∨ ∃ b, v = .bool b
  additional : ∀ v, lookup es "additionalProperties" = some v → v = .bool false
  plain : ∀ e ∈ es, e.1 ∉ schemaKeys.map String.toList → EveryDict (fun _ => False) e.2
  oneOf : lookup es "oneOf" = none

/-- A schema as Pydantic writes it, without `oneOf` and arbitrary-key mappings; `good` holds of
the entries of the schema and of all schemas in it. -/
inductive Schema (good : List (Text × Json) → Prop) : Json → Prop
  | mk {es : List (Text × Json)} (here : good es) (shaped : Shaped es)
      (mapped : ∀ key ∈ mappingKeys, ∀ ps, lookup es key = some (.dict ps) →
        ∀ p ∈ ps, Schema good p.2)
      (listed : ∀ key ∈ listKeys, ∀ ss, lookup es key = some (.list ss) →
        ∀ s ∈ ss, Schema good s)
      (items : ∀ fs, lookup es "items" = some (.dict fs) → Schema good (.dict fs)) :
      Schema good (.dict es)

/-- Where an entry of a schema stands. -/
theorem Shaped.entry_cases {es : List (Text × Json)} (h : Shaped es) {e : Text × Json}
    (he : e ∈ es) :
    (∃ key ∈ mappingKeys, e.1 = key.toList ∧ ∃ ps, e.2 = .dict ps ∧ (ps.map Prod.fst).Nodup ∧
        lookup es key = some (.dict ps)) ∨
      (∃ key ∈ listKeys, e.1 = key.toList ∧ ∃ ss, e.2 = .list ss ∧
        lookup es key = some (.list ss)) ∨
      (e.1 = "items".toList ∧ ((∃ fs, e.2 = .dict fs ∧ lookup es "items" = some (.dict fs)) ∨
        ∃ b, e.2 = .bool b)) ∨
      (e.1 = "default".toList ∧ lookup es "default" = some e.2) ∨
      EveryDict (fun _ => False) e.2 := by
  obtain ⟨k, v⟩ := e
  by_cases hk : k ∈ schemaKeys.map String.toList
  · obtain ⟨key, hkey, rfl⟩ := List.mem_map.1 hk
    have hlookup := lookup_of_mem h.nodup he
    rcases List.mem_append.1 hkey with hkey | hkey
    · rcases List.mem_append.1 hkey with hkey | hkey
      · obtain ⟨ps, rfl, hps⟩ := h.mappings key hkey v hlookup
        exact .inl ⟨key, hkey, rfl, ps, rfl, hps, hlookup⟩
      · obtain ⟨ss, rfl⟩ := h.lists key hkey v hlookup
        exact .inr (.inl ⟨key, hkey, rfl, ss, rfl, hlookup⟩)
    · rcases List.mem_cons.1 hkey with rfl | hkey
      · rcases h.items v hlookup with ⟨fs, rfl⟩ | ⟨b, rfl⟩
        · exact .inr (.inr (.inl ⟨rfl, .inl ⟨fs, rfl, hlookup⟩⟩))
        · exact .inr (.inr (.inl ⟨rfl, .inr ⟨b, rfl⟩⟩))
      · obtain rfl := List.mem_singleton.1 hkey
        exact .inr (.inr (.inr (.inl ⟨rfl, hlookup⟩)))
  · exact .inr (.inr (.inr (.inr (h.plain _ he hk))))

/-- The names that the rewriting takes for keywords. -/
def reservedNames : List String :=
  ["default", "prefixItems", "properties", "oneOf", "additionalProperties"]

/-- Nothing behind the positional schemas of a tuple is left open. -/
def TupleBounded (es : List (Text × Json)) : Prop :=
  ∀ ss, lookup es "prefixItems" = some (.list ss) →
    (∃ fs, lookup es "items" = some (.dict fs)) ∨ lookup es "items" = some (.bool false) ∨
      ∃ n, lookup es "maxItems" = some (Json.ofNat n) ∧ n ≤ ss.length

/-- A schema of objects. -/
def IsObject (es : List (Text × Json)) : Prop :=
  (∃ ps, lookup es "properties" = some (.dict ps)) ∨
    lookup es "type" = some (.str "object".toList)

/-- No property and no definition has a reserved name, and no default holds an object that the
checks refuse. -/
structure Named (es : List (Text × Json)) : Prop where
  names : ∀ key ∈ mappingKeys, ∀ ps, lookup es key = some (.dict ps) →
    ∀ name ∈ reservedNames, lookup ps name = none
  defaults : ∀ v, lookup es "default" = some v →
    EveryDict (fun ds => openObject ds = false ∧ lookup ds "oneOf" = none) v

/-- The names are not reserved, no tuple is open and every object is closed. -/
structure Clean (es : List (Text × Json)) : Prop extends Named es where
  tuples : TupleBounded es
  closed : IsObject es → lookup es "additionalProperties" = some (.bool false)

/-! ### The checks let clean schemas through -/

theorem Schema.everyDict {J : Json} (h : Schema Clean J) :
    EveryDict (fun es => openObject es = false ∧ lookup es "oneOf" = none) J := by
  induction h with
  | @mk es here shaped _ _ _ mapped listed items =>
    refine .dict ⟨?_, shaped.oneOf⟩ fun e he => ?_
    · unfold openObject
      rcases hadditional : lookup es "additionalProperties" with _ | v
      · rfl
      · rw [shaped.additional v hadditional]
    · rcases shaped.entry_cases he with ⟨key, hkey, -, ps, heq, -, hlookup⟩ |
        ⟨key, hkey, -, ss, heq, hlookup⟩ | ⟨-, ⟨fs, heq, hlookup⟩ | ⟨b, heq⟩⟩ |
        ⟨-, hlookup⟩ | hplain
      · rw [heq]
        refine .dict ⟨?_, ?_⟩ (mapped key hkey ps hlookup)
        · rw [openObject, here.names key hkey ps hlookup "additionalProperties" (by decide)]
        · exact here.names key hkey ps hlookup "oneOf" (by decide)
      · rw [heq]
        exact .list (listed key hkey ss hlookup)
      · rw [heq]
        exact items fs hlookup
      · rw [heq]
        exact .bool b
      · exact here.defaults _ hlookup
      · exact hplain.mono fun _ hfalse => hfalse.elim

/-! ### Tuples -/

/-- `{"anyOf": schemas}` -/
def anyOfSchema (schemas : List Json) : Json := Json.object [("anyOf", .list schemas)]

/-- `_tuple_items_superset`, of schemas as they stand. -/
def tupleSchema (ss : List Json) : Json :=
  match ss with
  | [] => .dict []
  | _ =>
    match dedupeSchemas id ss with
    | [schema] => schema
    | unique => anyOfSchema unique

/-- The `items` that stand for the positional schemas `ss` and for what follows them. -/
def replacedItems (ss : List Json) (existing : Option Json) : Json :=
  match existing with
  | some (.dict es) => anyOfSchema (dedupeSchemas id [tupleSchema ss, .dict es])
  | _ => tupleSchema ss

/-- A schema as it stands and normalized. -/
def copied (s : Json) : Copied := (s, normalizePrefixItems s)

theorem dedupeSchemas_map {α β : Type} (f : α → β) (schema : β → Json) (values : List α) :
    dedupeSchemas schema (values.map f) =
      (dedupeSchemas (fun a => schema (f a)) values).map f := by
  unfold dedupeSchemas
  rw [List.foldl_map]
  have hstep : ∀ unique : List α,
      values.foldl (fun unique value =>
          if unique.any fun u => sameJson (schema u) (schema (f value)) then unique
          else unique ++ [f value]) (unique.map f) =
        (values.foldl (fun unique value =>
          if unique.any fun u => sameJson (schema (f u)) (schema (f value)) then unique
          else unique ++ [value]) unique).map f := by
    induction values with
    | nil => exact fun _ => rfl
    | cons v vs ih =>
      intro unique
      rw [List.foldl_cons, List.foldl_cons, List.any_map]
      by_cases h : (unique.any fun u => sameJson (schema (f u)) (schema (f v))) = true
      · rw [if_pos h, if_pos (by exact h)]
        exact ih unique
      · rw [if_neg h, if_neg (by exact h)]
        have hmap : unique.map f ++ [f v] = (unique ++ [v]).map f := by
          rw [List.map_append, List.map_singleton]
        rw [hmap]
        exact ih _
  exact hstep []

theorem normalizePrefixItems_dict (es : List (Text × Json)) :
    normalizePrefixItems (.dict es) =
      .dict (replaceTuple es (mapValues normalizePrefixItems es)) := by
  rw [normalizePrefixItems, normalizeEntries_eq]

theorem normalizePrefixItems_of_lookup {es : List (Text × Json)}
    (h : lookup es "prefixItems" = none) :
    normalizePrefixItems (.dict es) = .dict (mapValues normalizePrefixItems es) := by
  rw [normalizePrefixItems_dict, replaceTuple, copiedAt, h, Option.bind_none]
  dsimp only
  rw [pop_of_lookup (by rw [lookup_mapValues, h]; rfl)]

theorem anyOfCopied_map (us : List Json) :
    anyOfCopied (us.map copied) = copied (anyOfSchema us) := by
  have hnone : lookup [("anyOf".toList, Json.list us)] "prefixItems" = none := rfl
  rw [copied, anyOfSchema, Json.object, List.map_singleton, normalizePrefixItems_of_lookup hnone,
    mapValues, List.map_singleton, normalizePrefixItems, normalizeItems_eq, anyOfCopied,
    List.map_map, List.map_map]
  exact congrArg₂ Prod.mk (congrArg (fun xs => Json.object [("anyOf", .list xs)]) (List.map_id us))
    rfl

theorem tupleItemsSuperset_map (ss : List Json) :
    tupleItemsSuperset (ss.map copied) = copied (tupleSchema ss) := by
  unfold tupleItemsSuperset tupleSchema
  rcases ss with _ | ⟨s, ss⟩
  · rfl
  · have hdedupe : dedupeSchemas Prod.fst ((s :: ss).map copied) =
        (dedupeSchemas id (s :: ss)).map copied := dedupeSchemas_map ..
    rw [List.map_cons] at hdedupe ⊢
    dsimp only
    rw [hdedupe]
    rcases dedupeSchemas id (s :: ss) with _ | ⟨u, _ | ⟨u', us⟩⟩
    · exact anyOfCopied_map []
    · rfl
    · exact anyOfCopied_map (u :: u' :: us)

theorem tupleItems_map (ss : List Json) {existing : Option Json}
    (h : ∀ v, existing = some v → (∃ fs, v = .dict fs) ∨ ∃ b, v = .bool b) :
    tupleItems (ss.map copied) (existing.map copied) =
      some (normalizePrefixItems (replacedItems ss existing)) := by
  unfold tupleItems replacedItems
  rw [tupleItemsSuperset_map]
  rcases existing with _ | v
  · rfl
  · rcases h v rfl with ⟨fs, rfl⟩ | ⟨b, rfl⟩
    · have hdedupe : dedupeSchemas Prod.fst ([tupleSchema ss, .dict fs].map copied) =
          (dedupeSchemas id [tupleSchema ss, .dict fs]).map copied := dedupeSchemas_map ..
      have hany := (congrArg anyOfCopied hdedupe).trans (anyOfCopied_map _)
      exact congrArg some (congrArg Prod.snd hany)
    · rfl

/-- The `items` of a schema once its tuples are replaced. -/
def newItems (es : List (Text × Json)) : Option Json :=
  match lookup es "prefixItems" with
  | some (.list ss) => some (replacedItems ss (lookup es "items"))
  | _ => lookup es "items"

/-- The entries of a schema once its tuples are replaced. -/
abbrev normalized (es : List (Text × Json)) : List (Text × Json) :=
  replaceTuple es (mapValues normalizePrefixItems es)

theorem copiedAt_mapValues (es : List (Text × Json)) (key : String) :
    copiedAt es (mapValues normalizePrefixItems es) key = (lookup es key).map copied := by
  rw [copiedAt, lookup_mapValues]
  cases lookup es key <;> rfl

/-- The entries of a schema are normalized one by one, but for a tuple. -/
theorem Shaped.normalized_eq {es : List (Text × Json)} (h : Shaped es) :
    (lookup es "prefixItems" = none ∧ newItems es = lookup es "items" ∧
        normalized es = mapValues normalizePrefixItems es) ∨
      ∃ ss, lookup es "prefixItems" = some (.list ss) ∧
        newItems es = some (replacedItems ss (lookup es "items")) ∧
        normalized es =
          Json.set "items" (normalizePrefixItems (replacedItems ss (lookup es "items")))
            (pop "prefixItems" (mapValues normalizePrefixItems es)) := by
  rcases htuple : lookup es "prefixItems" with _ | v
  · refine .inl ⟨rfl, by rw [newItems, htuple], ?_⟩
    have heq := normalizePrefixItems_of_lookup htuple
    rw [normalizePrefixItems_dict] at heq
    exact Json.dict.inj heq
  · obtain ⟨ss, rfl⟩ := h.lists "prefixItems" (by decide) v htuple
    refine .inr ⟨ss, rfl, by rw [newItems, htuple], ?_⟩
    have hzip : ss.zip (ss.map normalizePrefixItems) = ss.map copied := by
      conv_lhs => rw [← List.map_id ss, List.map_map, List.zip_map']
      rfl
    rw [normalized, replaceTuple, copiedAt_mapValues, copiedAt_mapValues, htuple, Option.map_some,
      copied, normalizePrefixItems, normalizeItems_eq]
    dsimp only
    rw [hzip, tupleItems_map ss fun v hv => h.items v hv]

theorem Shaped.lookup_normalized {es : List (Text × Json)} (h : Shaped es) (key : String)
    (hitems : key ≠ "items") (htuple : key ≠ "prefixItems") :
    lookup (normalized es) key = (lookup es key).map normalizePrefixItems := by
  rcases h.normalized_eq with ⟨-, -, heq⟩ | ⟨ss, -, -, heq⟩
  · rw [heq, lookup_mapValues]
  · rw [heq, Json.lookup_set_of_ne _ _ hitems, lookup_pop_of_ne htuple, lookup_mapValues]

theorem Shaped.prefixItems_normalized {es : List (Text × Json)} (h : Shaped es) :
    lookup (normalized es) "prefixItems" = none := by
  rcases h.normalized_eq with ⟨hnone, -, heq⟩ | ⟨ss, -, -, heq⟩
  · rw [heq, lookup_mapValues, hnone]
    rfl
  · rw [heq, Json.lookup_set_of_ne _ _ (by decide), lookup_pop_self]

theorem Shaped.items_normalized {es : List (Text × Json)} (h : Shaped es) :
    lookup (normalized es) "items" = (newItems es).map normalizePrefixItems := by
  rcases h.normalized_eq with ⟨-, hnew, heq⟩ | ⟨ss, -, hnew, heq⟩
  · rw [heq, lookup_mapValues, hnew]
  · rw [heq, Json.lookup_set_self, hnew]
    rfl

theorem mem_set {key : String} {value : Json} {es : List (Text × Json)} {e : Text × Json}
    (h : e ∈ Json.set key value es) : e = (key.toList, value) ∨ e ∈ es := by
  induction es with
  | nil => exact .inl (List.mem_singleton.1 h)
  | cons f es ih =>
    rw [Json.set] at h
    split_ifs at h
    · rcases List.mem_cons.1 h with h | h
      · exact .inl h
      · exact .inr (List.mem_cons_of_mem _ h)
    · rcases List.mem_cons.1 h with h | h
      · exact .inr (h ▸ List.mem_cons_self)
      · exact (ih h).imp_right (List.mem_cons_of_mem _)

/-- Where an entry of the normalized schema comes from. -/
theorem Shaped.mem_normalized {es : List (Text × Json)} (h : Shaped es) {e : Text × Json}
    (he : e ∈ normalized es) :
    (∃ w, newItems es = some w ∧ e = ("items".toList, normalizePrefixItems w)) ∨
      ∃ v, (e.1, v) ∈ es ∧ e.1 ≠ "prefixItems".toList ∧ e.2 = normalizePrefixItems v := by
  rcases h.normalized_eq with ⟨hnone, -, heq⟩ | ⟨ss, -, hnew, heq⟩
  · rw [heq] at he
    obtain ⟨f, hf, rfl⟩ := List.mem_map.1 he
    refine .inr ⟨f.2, hf, fun hkey => ?_, rfl⟩
    have hsome : lookup es "prefixItems" = some f.2 := lookup_of_mem h.nodup (hkey ▸ hf)
    rw [hnone] at hsome
    cases hsome
  · rw [heq] at he
    rcases mem_set he with rfl | he
    · exact .inl ⟨_, hnew, rfl⟩
    · obtain ⟨hmem, hkey⟩ := mem_pop.1 he
      obtain ⟨f, hf, rfl⟩ := List.mem_map.1 hmem
      exact .inr ⟨f.2, hf, hkey, rfl⟩

/-! ### Objects -/

/-- The schema for the `codex` transport. -/
abbrev codex (schema : Json) : Json := transportSchema .codex schema

theorem compileOpenaiStrict_dict (es : List (Text × Json)) :
    compileOpenaiStrict (.dict es) =
      .dict (strictEntries es (mapValues compileOpenaiStrict es)) := by
  rw [compileOpenaiStrict, compileEntries_eq]

theorem normalizePrefixItems_ne_str {v : Json} (h : ∃ es, v = .dict es) (t : Text) :
    normalizePrefixItems v ≠ .str t := by
  obtain ⟨es, rfl⟩ := h
  rw [normalizePrefixItems_dict]
  exact Json.noConfusion

/-- A mapping from names that are not reserved is rewritten schema by schema. -/
theorem codex_mapping {ps : List (Text × Json)}
    (hnames : ∀ name ∈ reservedNames, lookup ps name = none)
    (hdict : ∀ p ∈ ps, ∃ es, p.2 = .dict es) : codex (.dict ps) = .dict (mapValues codex ps) := by
  have htuple := hnames "prefixItems" (by decide)
  have hdefault : lookup (mapValues compileOpenaiStrict (mapValues normalizePrefixItems ps))
      "default" = none := by
    rw [lookup_mapValues, lookup_mapValues, hnames "default" (by decide)]
    rfl
  have hproperties : lookup (mapValues normalizePrefixItems ps) "properties" = none := by
    rw [lookup_mapValues, hnames "properties" (by decide)]
    rfl
  have htype : ∀ t, lookup (mapValues normalizePrefixItems ps) "type" ≠ some (.str t) := by
    intro t heq
    rw [lookup_mapValues] at heq
    obtain ⟨v, hv, heq⟩ := Option.map_eq_some_iff.1 heq
    exact normalizePrefixItems_ne_str (hdict _ (mem_of_lookup hv)) t heq
  rw [codex, transportSchema, normalizePrefixItems_of_lookup htuple, compileOpenaiStrict_dict,
    strictEntries, pop_of_lookup hdefault, hproperties]
  dsimp only
  have hmap : mapValues compileOpenaiStrict (mapValues normalizePrefixItems ps) =
      mapValues codex ps := by
    rw [mapValues, mapValues, List.map_map]
    rfl
  rw [hmap]
  rcases hkind : lookup (mapValues normalizePrefixItems ps) "type" with _ | v
  · rfl
  · cases v with
    | str t => exact absurd hkind (htype t)
    | null | bool | number | list | dict => rfl

/-- What the rewriting makes of the entries `es` of a schema. -/
structure Rewritten (es fs : List (Text × Json)) : Prop where
  others : ∀ key, key ∉ ["default", "prefixItems", "items", "required", "additionalProperties"] →
    lookup fs key = (lookup es key).map codex
  default : lookup fs "default" = none
  prefixItems : lookup fs "prefixItems" = none
  items : lookup fs "items" = (newItems es).map codex
  required : ∀ ps, lookup es "properties" = some (.dict ps) →
    lookup fs "required" = some (Json.ofTexts (ps.map Prod.fst))
  kept : lookup es "properties" = none →
    lookup fs "required" = (lookup es "required").map codex
  closed : IsObject es → lookup fs "additionalProperties" = some (.bool false)
  additional : ∀ v, lookup fs "additionalProperties" = some v →
    v = .bool false ∧ (lookup es "additionalProperties" = some (.bool false) ∨ IsObject es)
  members : ∀ e ∈ fs, e.2 = .bool false ∨ (∃ names, e.2 = Json.ofTexts names) ∨
    (∃ w, newItems es = some w ∧ e.2 = codex w) ∨
      ∃ v, (e.1, v) ∈ es ∧ e.1 ≠ "default".toList ∧ e.1 ≠ "prefixItems".toList ∧ e.2 = codex v

/-- An entry that is neither added nor set by the rewriting of objects. -/
theorem Shaped.mem_rest {es : List (Text × Json)} (h : Shaped es) {e : Text × Json}
    (he : e ∈ pop "default" (mapValues compileOpenaiStrict (normalized es))) :
    (∃ w, newItems es = some w ∧ e.2 = codex w) ∨
      ∃ v, (e.1, v) ∈ es ∧ e.1 ≠ "default".toList ∧ e.1 ≠ "prefixItems".toList ∧
        e.2 = codex v := by
  obtain ⟨hmem, hdefault⟩ := mem_pop.1 he
  obtain ⟨f, hf, rfl⟩ := List.mem_map.1 hmem
  rcases h.mem_normalized hf with ⟨w, hw, rfl⟩ | ⟨v, hv, htuple, heq⟩
  · exact .inl ⟨w, hw, rfl⟩
  · exact .inr ⟨v, hv, hdefault, htuple, congrArg compileOpenaiStrict heq⟩

/-- The schemas of a mapping are objects. -/
theorem Schema.exists_dict {good : List (Text × Json) → Prop} {J : Json} (h : Schema good J) :
    ∃ es, J = .dict es := by
  cases h with
  | mk => exact ⟨_, rfl⟩

theorem lookup_codex (es : List (Text × Json)) {key : String} (v : Option Json)
    (h : lookup (normalized es) key = v.map normalizePrefixItems) :
    lookup (mapValues compileOpenaiStrict (normalized es)) key = v.map codex := by
  rw [lookup_mapValues, h, Option.map_map]
  rfl

/-- The entries of the normalized schema with their values compiled, but for the default. -/
abbrev restEntries (es : List (Text × Json)) : List (Text × Json) :=
  pop "default" (mapValues compileOpenaiStrict (normalized es))

theorem Shaped.lookup_rest {es : List (Text × Json)} (h : Shaped es) (key : String)
    (hdefault : key ≠ "default") (hitems : key ≠ "items") (htuple : key ≠ "prefixItems") :
    lookup (restEntries es) key = (lookup es key).map codex := by
  rw [restEntries, lookup_pop_of_ne hdefault]
  exact lookup_codex es _ (h.lookup_normalized key hitems htuple)

theorem strictEntries_of_properties {es ps : List (Text × Json)} (compiled : List (Text × Json))
    (h : lookup es "properties" = some (.dict ps)) :
    strictEntries es compiled = Json.set "additionalProperties" (.bool false)
      (Json.set "required" (Json.ofTexts (ps.map Prod.fst)) (pop "default" compiled)) := by
  rw [strictEntries, h]

theorem strictEntries_of_object {es compiled : List (Text × Json)}
    (hps : lookup es "properties" = none)
    (htype : lookup es "type" = some (.str "object".toList))
    (hadditional : lookup (pop "default" compiled) "additionalProperties" = none) :
    strictEntries es compiled =
      Json.set "additionalProperties" (.bool false) (pop "default" compiled) := by
  rw [strictEntries, hps]
  dsimp only
  rw [htype, hadditional]
  exact if_pos rfl

theorem strictEntries_of_rest {es compiled : List (Text × Json)}
    (hps : lookup es "properties" = none)
    (h : lookup es "type" = some (.str "object".toList) →
      lookup (pop "default" compiled) "additionalProperties" ≠ none) :
    strictEntries es compiled = pop "default" compiled := by
  rw [strictEntries, hps]
  dsimp only
  rcases htype : lookup es "type" with _ | v
  · rfl
  · rcases hadditional : lookup (pop "default" compiled) "additionalProperties" with _ | a
    · cases v with
      | str t =>
        refine if_neg fun ht => h ?_ hadditional
        rw [htype, ht]
      | null | bool | number | list | dict => rfl
    · cases v <;> rfl

/-- What is set in the entries of a schema: the required properties of an object, and that it has
no others. -/
theorem strictEntries_cases {es : List (Text × Json)} (shaped : Shaped es) (clean : Clean es) :
    (∃ ps, lookup es "properties" = some (.dict ps) ∧
      strictEntries (normalized es) (mapValues compileOpenaiStrict (normalized es)) =
        Json.set "additionalProperties" (.bool false)
          (Json.set "required" (Json.ofTexts (ps.map Prod.fst)) (restEntries es))) ∨
      (lookup es "properties" = none ∧ lookup es "type" = some (.str "object".toList) ∧
        strictEntries (normalized es) (mapValues compileOpenaiStrict (normalized es)) =
          Json.set "additionalProperties" (.bool false) (restEntries es)) ∨
      (lookup es "properties" = none ∧ (lookup es "type" = some (.str "object".toList) →
          lookup es "additionalProperties" = some (.bool false)) ∧
        strictEntries (normalized es) (mapValues compileOpenaiStrict (normalized es)) =
          restEntries es) := by
  have hproperties := shaped.lookup_normalized "properties" (by decide) (by decide)
  have htype := shaped.lookup_normalized "type" (by decide) (by decide)
  have hadditional := shaped.lookup_rest "additionalProperties" (by decide) (by decide)
    (by decide)
  rcases hps : lookup es "properties" with _ | v
  · rw [hps] at hproperties
    by_cases hobject : lookup es "type" = some (.str "object".toList)
    · rcases hfalse : lookup es "additionalProperties" with _ | v
      · rw [hfalse] at hadditional
        rw [hobject] at htype
        exact .inr (.inl ⟨rfl, hobject, strictEntries_of_object hproperties htype hadditional⟩)
      · obtain rfl := shaped.additional v hfalse
        rw [hfalse] at hadditional
        refine .inr (.inr ⟨rfl, fun _ => rfl, strictEntries_of_rest hproperties fun _ hnone => ?_⟩)
        rw [hnone] at hadditional
        cases hadditional
    · refine .inr (.inr ⟨rfl, fun h => absurd h hobject,
        strictEntries_of_rest hproperties fun h => absurd ?_ hobject⟩)
      rw [htype] at h
      obtain ⟨kind, hkind, heq⟩ := Option.map_eq_some_iff.1 h
      rw [hkind]
      cases kind with
      | str t => exact congrArg some heq
      | dict fs =>
        rw [normalizePrefixItems_dict] at heq
        cases heq
      | null | bool | number | list => cases heq
  · obtain ⟨ps, rfl, -⟩ := shaped.mappings "properties" (by decide) v hps
    have hnames := clean.names "properties" (by decide) ps hps
    rw [hps, Option.map_some,
      normalizePrefixItems_of_lookup (hnames "prefixItems" (by decide))] at hproperties
    have heq := strictEntries_of_properties (mapValues compileOpenaiStrict (normalized es))
      hproperties
    rw [map_fst_mapValues] at heq
    exact .inl ⟨ps, rfl, heq⟩

/-- **One schema**: what the rewriting makes of its entries. -/
theorem rewritten {es : List (Text × Json)} (shaped : Shaped es) (clean : Clean es) :
    ∃ fs, codex (.dict es) = .dict fs ∧ Rewritten es fs := by
  refine ⟨_, by rw [codex, transportSchema, normalizePrefixItems_dict, compileOpenaiStrict_dict],
    ?_⟩
  have hdefault : lookup (restEntries es) "default" = none := lookup_pop_self ..
  have htuple : lookup (restEntries es) "prefixItems" = none := by
    rw [restEntries, lookup_pop_of_ne (by decide)]
    exact lookup_codex es none shaped.prefixItems_normalized
  have hitems : lookup (restEntries es) "items" = (newItems es).map codex := by
    rw [restEntries, lookup_pop_of_ne (by decide)]
    exact lookup_codex es _ shaped.items_normalized
  have hrequired := shaped.lookup_rest "required" (by decide) (by decide) (by decide)
  have hadditional := shaped.lookup_rest "additionalProperties" (by decide) (by decide)
    (by decide)
  have hothers : ∀ key, key ∉ ["default", "prefixItems", "items", "required",
      "additionalProperties"] → lookup (restEntries es) key = (lookup es key).map codex := by
    intro key hkey
    simp only [List.mem_cons, not_or] at hkey
    exact shaped.lookup_rest key hkey.1 hkey.2.2.1 hkey.2.1
  have hfalse : ∀ v, lookup (restEntries es) "additionalProperties" = some v →
      v = .bool false ∧ lookup es "additionalProperties" = some (.bool false) := by
    intro v hv
    rw [hadditional] at hv
    obtain ⟨a, ha, rfl⟩ := Option.map_eq_some_iff.1 hv
    obtain rfl := shaped.additional a ha
    exact ⟨rfl, ha⟩
  have hmembers : ∀ e ∈ restEntries es, _ := fun e he => shaped.mem_rest he
  rcases strictEntries_cases shaped clean with ⟨ps, hps, heq⟩ | ⟨hps, htype, heq⟩ |
    ⟨hps, htype, heq⟩
  · have hobject : IsObject es := .inl ⟨ps, hps⟩
    have hset : ∀ {key : String}, key ≠ "required" → key ≠ "additionalProperties" →
        lookup (Json.set "additionalProperties" (.bool false)
          (Json.set "required" (Json.ofTexts (ps.map Prod.fst)) (restEntries es))) key =
            lookup (restEntries es) key := fun hr ha => by
      rw [Json.lookup_set_of_ne _ _ ha, Json.lookup_set_of_ne _ _ hr]
    rw [heq]
    refine ⟨fun key hkey => ?_, ?_, ?_, ?_, fun ps' hps' => ?_, fun hnone => ?_, fun _ => ?_,
      fun v hv => ?_, fun e he => ?_⟩
    · have hne := hkey
      simp only [List.mem_cons, not_or] at hne
      rw [hset hne.2.2.2.1 hne.2.2.2.2.1, hothers key hkey]
    · rw [hset (by decide) (by decide), hdefault]
    · rw [hset (by decide) (by decide), htuple]
    · rw [hset (by decide) (by decide), hitems]
    · rw [hps] at hps'
      obtain rfl := Json.dict.inj (Option.some.inj hps')
      rw [Json.lookup_set_of_ne _ _ (by decide), Json.lookup_set_self]
    · rw [hps] at hnone
      cases hnone
    · exact Json.lookup_set_self ..
    · rw [Json.lookup_set_self] at hv
      exact ⟨(Option.some.inj hv).symm, .inr hobject⟩
    · rcases mem_set he with rfl | he
      · exact .inl rfl
      · rcases mem_set he with rfl | he
        · exact .inr (.inl ⟨_, rfl⟩)
        · exact .inr (.inr (hmembers e he))
  · have hset : ∀ {key : String}, key ≠ "additionalProperties" →
        lookup (Json.set "additionalProperties" (.bool false) (restEntries es)) key =
          lookup (restEntries es) key := fun ha => Json.lookup_set_of_ne _ _ ha
    rw [heq]
    refine ⟨fun key hkey => ?_, ?_, ?_, ?_, fun ps hps' => ?_, fun _ => ?_, fun _ => ?_,
      fun v hv => ?_, fun e he => ?_⟩
    · have hne := hkey
      simp only [List.mem_cons, not_or] at hne
      rw [hset hne.2.2.2.2.1, hothers key hkey]
    · rw [hset (by decide), hdefault]
    · rw [hset (by decide), htuple]
    · rw [hset (by decide), hitems]
    · rw [hps] at hps'
      cases hps'
    · rw [hset (by decide), hrequired]
    · exact Json.lookup_set_self ..
    · rw [Json.lookup_set_self] at hv
      exact ⟨(Option.some.inj hv).symm, .inr (.inr htype)⟩
    · rcases mem_set he with rfl | he
      · exact .inl rfl
      · exact .inr (.inr (hmembers e he))
  · rw [heq]
    refine ⟨hothers, hdefault, htuple, hitems, fun ps hps' => ?_, fun _ => hrequired,
      fun hobject => ?_, fun v hv => ?_, fun e he => .inr (.inr (hmembers e he))⟩
    · rw [hps] at hps'
      cases hps'
    · rcases hobject with ⟨ps, hps'⟩ | hkind
      · rw [hps] at hps'
        cases hps'
      · rw [hadditional, htype hkind]
        rfl
    · obtain ⟨rfl, hes⟩ := hfalse v hv
      exact ⟨rfl, .inl hes⟩

/-! ### The items of a tuple -/

theorem mem_dedupeSchemas {α : Type} {schema : α → Json} {values : List α} {a : α}
    (h : a ∈ dedupeSchemas schema values) : a ∈ values := by
  unfold dedupeSchemas at h
  have hstep : ∀ unique : List α,
      a ∈ values.foldl (fun unique value =>
        if unique.any fun u => sameJson (schema u) (schema value) then unique
        else unique ++ [value]) unique → a ∈ unique ∨ a ∈ values := by
    clear h
    induction values with
    | nil => exact fun _ h => .inl h
    | cons v vs ih =>
      intro unique h
      rw [List.foldl_cons] at h
      rcases ih _ h with h | h
      · split_ifs at h
        · exact .inl h
        · rcases List.mem_append.1 h with h | h
          · exact .inl h
          · exact .inr (List.mem_cons.2 (.inl (List.mem_singleton.1 h)))
      · exact .inr (List.mem_cons_of_mem _ h)
  exact (hstep [] h).resolve_left List.not_mem_nil

/-- What holds of schemas and goes over to `anyOf` holds of the schema that stands for them. -/
theorem tupleSchema_of {P : Json → Prop} (nil : P (.dict []))
    (anyOf : ∀ us, (∀ u ∈ us, P u) → P (anyOfSchema us)) {ss : List Json}
    (hss : ∀ s ∈ ss, P s) : P (tupleSchema ss) := by
  unfold tupleSchema
  rcases ss with _ | ⟨s, ss⟩
  · exact nil
  · dsimp only
    have hmem : ∀ u ∈ dedupeSchemas id (s :: ss), P u := fun u hu => hss u (mem_dedupeSchemas hu)
    generalize dedupeSchemas id (s :: ss) = unique at hmem
    rcases unique with _ | ⟨u, _ | ⟨u', us⟩⟩
    · exact anyOf [] hmem
    · exact hmem u List.mem_cons_self
    · exact anyOf _ hmem

/-- What holds of schemas and goes over to `anyOf` holds of the items of a tuple. -/
theorem replacedItems_of {P : Json → Prop} (nil : P (.dict []))
    (anyOf : ∀ us, (∀ u ∈ us, P u) → P (anyOfSchema us)) {ss : List Json} (hss : ∀ s ∈ ss, P s)
    {existing : Option Json} (hexisting : ∀ fs, existing = some (.dict fs) → P (.dict fs)) :
    P (replacedItems ss existing) := by
  have htuple : P (tupleSchema ss) := tupleSchema_of nil anyOf hss
  unfold replacedItems
  rcases existing with _ | v
  · exact htuple
  · cases v with
    | dict fs =>
      refine anyOf _ fun u hu => ?_
      rcases List.mem_cons.1 (mem_dedupeSchemas hu) with rfl | hu
      · exact htuple
      · obtain rfl := List.mem_singleton.1 hu
        exact hexisting fs rfl
    | null | bool | number | str | list => exact htuple

/-- What holds of the schemas in `items` and `prefixItems`, and goes over to `anyOf`, holds of
the items that stand for them. -/
theorem Shaped.newItems_of {es : List (Text × Json)} (h : Shaped es) {P : Json → Prop}
    (nil : P (.dict [])) (anyOf : ∀ us, (∀ u ∈ us, P u) → P (anyOfSchema us))
    (bool : ∀ b, P (.bool b))
    (hss : ∀ ss, lookup es "prefixItems" = some (.list ss) → ∀ s ∈ ss, P s)
    (hitems : ∀ fs, lookup es "items" = some (.dict fs) → P (.dict fs)) {w : Json}
    (hw : newItems es = some w) : P w := by
  rcases h.normalized_eq with ⟨-, hnew, -⟩ | ⟨ss, htuple, hnew, -⟩
  · rw [hnew] at hw
    rcases h.items w hw with ⟨fs, rfl⟩ | ⟨b, rfl⟩
    · exact hitems fs hw
    · exact bool b
  · rw [hnew] at hw
    obtain rfl := Option.some.inj hw
    exact replacedItems_of nil anyOf (hss ss htuple) hitems

theorem lookup_anyOf {key : String} (h : key ≠ "anyOf") (v : Json) :
    lookup [("anyOf".toList, v)] key = none := by
  have hne : "anyOf".toList ≠ key.toList := fun e => h (String.toList_injective e).symm
  rw [lookup, List.find?_cons_of_neg (by simpa using hne)]
  rfl

theorem codex_anyOf (us : List Json) : codex (anyOfSchema us) = anyOfSchema (us.map codex) := by
  rw [codex, transportSchema, anyOfSchema, Json.object, List.map_singleton,
    normalizePrefixItems_of_lookup (lookup_anyOf (by decide) _), mapValues, List.map_singleton,
    compileOpenaiStrict_dict, mapValues, List.map_singleton, strictEntries_of_rest
      (lookup_anyOf (by decide) _) fun h => (by rw [lookup_anyOf (by decide)] at h; cases h),
    pop_of_lookup (lookup_anyOf (by decide) _), normalizePrefixItems, normalizeItems_eq,
    compileOpenaiStrict, compileItems_eq, List.map_map]
  rfl

/-! ### What is compiled is a fixed point -/

/-- The entries of an object that the rewriting leaves as it is. -/
structure Tidy (fs : List (Text × Json)) : Prop where
  default : lookup fs "default" = none
  prefixItems : lookup fs "prefixItems" = none
  properties : ∀ v, lookup fs "properties" = some v → ∃ qs, v = .dict qs
  required : ∀ qs, lookup fs "properties" = some (.dict qs) →
    lookup fs "required" = some (Json.ofTexts (qs.map Prod.fst))
  closed : IsObject fs → lookup fs "additionalProperties" = some (.bool false)
  oneOf : lookup fs "oneOf" = none
  additional : ∀ v, lookup fs "additionalProperties" = some v → v = .bool false

theorem Tidy.strictEntries_eq {fs : List (Text × Json)} (h : Tidy fs) :
    strictEntries fs fs = fs := by
  rcases hps : lookup fs "properties" with _ | v
  · rw [strictEntries_of_rest hps, pop_of_lookup h.default]
    intro htype
    rw [pop_of_lookup h.default, h.closed (.inr htype)]
    exact Option.some_ne_none _
  · obtain ⟨qs, rfl⟩ := h.properties v hps
    rw [strictEntries_of_properties _ hps, pop_of_lookup h.default,
      set_of_lookup (h.required qs hps), set_of_lookup (h.closed (.inl ⟨qs, hps⟩))]

theorem mapValues_of {f : Json → Json} {es : List (Text × Json)} (h : ∀ e ∈ es, f e.2 = e.2) :
    mapValues f es = es :=
  (List.map_congr_left fun e he => congrArg (Prod.mk e.1) (h e he)).trans (List.map_id _)

/-- A tidy value is not rewritten. -/
theorem EveryDict.fixed {value : Json} (h : EveryDict Tidy value) :
    normalizePrefixItems value = value ∧ compileOpenaiStrict value = value := by
  induction h with
  | null | bool | number | str => exact ⟨rfl, rfl⟩
  | @list xs _ ih =>
    rw [normalizePrefixItems, compileOpenaiStrict, normalizeItems_eq, compileItems_eq]
    exact ⟨congrArg Json.list ((List.map_congr_left fun x hx => (ih x hx).1).trans (List.map_id _)),
      congrArg Json.list ((List.map_congr_left fun x hx => (ih x hx).2).trans (List.map_id _))⟩
  | @dict es here _ ih =>
    rw [normalizePrefixItems_of_lookup here.prefixItems, compileOpenaiStrict_dict,
      mapValues_of fun e he => (ih e he).1, mapValues_of fun e he => (ih e he).2,
      here.strictEntries_eq]
    exact ⟨rfl, rfl⟩

theorem codex_eq_str {v : Json} {t : Text} (h : codex v = .str t) : v = .str t := by
  cases v with
  | str s => exact h
  | dict es =>
    rw [codex, transportSchema, normalizePrefixItems_dict, compileOpenaiStrict_dict] at h
    cases h
  | null | bool | number => cases h
  | list xs =>
    rw [codex, transportSchema, normalizePrefixItems, compileOpenaiStrict] at h
    cases h

/-- The mappings of a clean schema are rewritten schema by schema. -/
theorem codex_of_mapping {good : List (Text × Json) → Prop} {es : List (Text × Json)}
    (clean : Clean es) {key : String} (hkey : key ∈ mappingKeys) {ps : List (Text × Json)}
    (hps : lookup es key = some (.dict ps)) (hschema : ∀ p ∈ ps, Schema good p.2) :
    codex (.dict ps) = .dict (mapValues codex ps) :=
  codex_mapping (clean.names key hkey ps hps) fun p hp => (hschema p hp).exists_dict

theorem tidy_anyOf {us : List Json} (h : ∀ u ∈ us, EveryDict Tidy u) :
    EveryDict Tidy (anyOfSchema us) := by
  refine .dict ⟨?_, ?_, fun v hv => ?_, fun qs hqs => ?_, fun hobject => ?_, ?_, fun v hv => ?_⟩
    fun e he => ?_
  · exact lookup_anyOf (by decide) _
  · exact lookup_anyOf (by decide) _
  · rw [List.map_singleton, lookup_anyOf (by decide)] at hv
    cases hv
  · rw [List.map_singleton, lookup_anyOf (by decide)] at hqs
    cases hqs
  · rcases hobject with ⟨ps, hps⟩ | htype
    · rw [List.map_singleton, lookup_anyOf (by decide)] at hps
      cases hps
    · rw [List.map_singleton, lookup_anyOf (by decide)] at htype
      cases htype
  · exact lookup_anyOf (by decide) _
  · rw [List.map_singleton, lookup_anyOf (by decide)] at hv
    cases hv
  · obtain rfl := List.mem_singleton.1 he
    exact .list h

/-- A mapping from names that are not reserved is tidy if its schemas are. -/
theorem tidy_mapping {ps : List (Text × Json)}
    (hnames : ∀ name ∈ reservedNames, lookup ps name = none)
    (hdict : ∀ p ∈ ps, ∃ es, p.2 = .dict es) (h : ∀ p ∈ ps, EveryDict Tidy (codex p.2)) :
    EveryDict Tidy (.dict (mapValues codex ps)) := by
  have hnone : ∀ name ∈ reservedNames, lookup (mapValues codex ps) name = none := by
    intro name hname
    rw [lookup_mapValues, hnames name hname]
    rfl
  have hproperties := hnone "properties" (by decide)
  refine .dict ⟨hnone _ (by decide), hnone _ (by decide), fun v hv => ?_, fun qs hqs => ?_,
    fun hobject => ?_, hnone _ (by decide), fun v hv => ?_⟩ fun e he => ?_
  · rw [hproperties] at hv
    cases hv
  · rw [hproperties] at hqs
    cases hqs
  · rcases hobject with ⟨qs, hqs⟩ | htype
    · rw [hproperties] at hqs
      cases hqs
    · rw [lookup_mapValues] at htype
      obtain ⟨v, hv, hstr⟩ := Option.map_eq_some_iff.1 htype
      obtain ⟨es, hes⟩ := hdict _ (mem_of_lookup hv)
      have hv' := codex_eq_str hstr
      dsimp only at hes
      rw [hes] at hv'
      cases hv'
  · rw [hnone "additionalProperties" (by decide)] at hv
    cases hv
  · obtain ⟨p, hp, rfl⟩ := List.mem_map.1 he
    exact h p hp

/-- **Everything** in the compiled schema is tidy. -/
theorem Schema.tidy {J : Json} (h : Schema Clean J) : EveryDict Tidy (codex J) := by
  induction h with
  | @mk es here shaped hmapped hlisted hitems mapped listed items =>
    obtain ⟨fs, hfs, hrewritten⟩ := rewritten shaped here
    have hmapping : ∀ key ∈ mappingKeys, ∀ ps, lookup es key = some (.dict ps) →
        codex (.dict ps) = .dict (mapValues codex ps) := fun key hkey ps hps =>
      codex_of_mapping here hkey hps (hmapped key hkey ps hps)
    have hproperties := hrewritten.others "properties" (by decide)
    have htype := hrewritten.others "type" (by decide)
    have hps : ∀ v, lookup fs "properties" = some v → ∃ ps,
        lookup es "properties" = some (.dict ps) ∧ v = .dict (mapValues codex ps) := by
      intro v hv
      rw [hproperties] at hv
      obtain ⟨w, hw, rfl⟩ := Option.map_eq_some_iff.1 hv
      obtain ⟨ps, rfl, -⟩ := shaped.mappings "properties" (by decide) w hw
      exact ⟨ps, hw, hmapping "properties" (by decide) ps hw⟩
    rw [hfs]
    refine .dict ⟨hrewritten.default, hrewritten.prefixItems, fun v hv => ?_, fun qs hqs => ?_,
      fun hobject => hrewritten.closed ?_, ?_, fun v hv => (hrewritten.additional v hv).1⟩
      fun e he => ?_
    · obtain ⟨ps, -, rfl⟩ := hps v hv
      exact ⟨_, rfl⟩
    · obtain ⟨ps, hes, heq⟩ := hps _ hqs
      rw [Json.dict.inj heq, map_fst_mapValues]
      exact hrewritten.required ps hes
    · rcases hobject with ⟨qs, hqs⟩ | hkind
      · obtain ⟨ps, hes, -⟩ := hps _ hqs
        exact .inl ⟨ps, hes⟩
      · rw [htype] at hkind
        obtain ⟨v, hv, hstr⟩ := Option.map_eq_some_iff.1 hkind
        rw [codex_eq_str hstr] at hv
        exact .inr hv
    · rw [hrewritten.others "oneOf" (by decide), shaped.oneOf]
      rfl
    · rcases hrewritten.members e he with heq | ⟨names, heq⟩ | ⟨w, hw, heq⟩ |
        ⟨v, hv, hdefault, htuple, heq⟩
      · rw [heq]
        exact .bool false
      · rw [heq]
        refine .list fun x hx => ?_
        obtain ⟨t, -, rfl⟩ := List.mem_map.1 hx
        exact .str t
      · rw [heq]
        refine shaped.newItems_of (P := fun w => EveryDict Tidy (codex w)) ?_ (fun us hus => ?_)
          (fun b => .bool b) (listed "prefixItems" (by decide)) items hw
        · exact .dict ⟨rfl, rfl, fun _ hv => (by cases hv), fun _ hv => (by cases hv),
            fun hobject => (by rcases hobject with ⟨_, hv⟩ | hv <;> cases hv), rfl,
            fun _ hv => (by cases hv)⟩
            fun _ hmem => (by cases hmem)
        · rw [codex_anyOf]
          refine tidy_anyOf fun u hu => ?_
          obtain ⟨w, hw, rfl⟩ := List.mem_map.1 hu
          exact hus w hw
      · rw [heq]
        rcases shaped.entry_cases hv with ⟨key, hkey, -, ps, hdict, -, hlookup⟩ |
          ⟨key, hkey, -, ss, hlist, hlookup⟩ | ⟨-, ⟨fs, hdict, hlookup⟩ | ⟨b, hbool⟩⟩ |
          ⟨hkey, -⟩ | hplain
        · obtain rfl := hdict
          rw [hmapping key hkey ps hlookup]
          exact tidy_mapping (here.names key hkey ps hlookup)
            (fun p hp => (hmapped key hkey ps hlookup p hp).exists_dict)
            (mapped key hkey ps hlookup)
        · obtain rfl := hlist
          rw [codex, transportSchema, normalizePrefixItems, normalizeItems_eq, compileOpenaiStrict,
            compileItems_eq, List.map_map]
          refine .list fun x hx => ?_
          obtain ⟨s, hs, rfl⟩ := List.mem_map.1 hx
          exact listed key hkey ss hlookup s hs
        · obtain rfl := hdict
          exact items fs hlookup
        · obtain rfl := hbool
          exact .bool b
        · exact absurd hkey hdefault
        · obtain ⟨hnormalize, hcompile⟩ := hplain.rewritten
          have hsame : codex v = v := by
            rw [codex, transportSchema, hnormalize, hcompile]
          rw [hsame]
          exact hplain.mono fun _ hfalse => hfalse.elim

/-- The strict transport rewrites what it compiled to itself. -/
theorem Schema.codex_codex {J : Json} (h : Schema Clean J) : codex (codex J) = codex J := by
  obtain ⟨hnormalize, hcompile⟩ := h.tidy.fixed
  rw [codex, transportSchema, hnormalize, hcompile]

/-- The compiled schema has no default and no positional schemas anywhere. -/
theorem Schema.keywordPaths_eq {J : Json} (h : Schema Clean J) :
    keywordPaths (codex J) "default" = [] ∧ keywordPaths (codex J) "prefixItems" = [] :=
  ⟨(h.tidy.mono fun _ htidy => by rw [htidy.default]; rfl).objectPaths_eq _,
    (h.tidy.mono fun _ htidy => by rw [htidy.prefixItems]; rfl).objectPaths_eq _⟩

end Llm
end OpenFoamAgent
