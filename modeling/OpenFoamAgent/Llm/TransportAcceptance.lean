/-
# What the compiled schema accepts

The meaning of a JSON schema, keyword by keyword (`Admits`), and to what depth of references
and nested values it is followed (`AcceptsWithin`). What other keywords assert is left open: the
rewriting does not touch them.

The schema compiled for the strict transport accepts every instance of a clean schema in which
the objects have the declared properties (`AcceptsWithin.compiled`). A tuple is widened: its items
may be in any position. Where two positional schemas are the same one of them is dropped, so
that the argument needs that equal schemas accept the same (`AcceptsWithin.same`).
-/
import OpenFoamAgent.Llm.TransportSchemas
import Mathlib.Data.List.Perm.Subperm

namespace OpenFoamAgent
namespace Llm

open Python
open Json (lookup)

/-! ### Acceptance -/

/-- The names that a schema declares. -/
def declared (es : List (Text × Json)) : List Text :=
  match lookup es "properties" with
  | some (.dict ps) => ps.map Prod.fst
  | _ => []

/-- The number of positional schemas. -/
def tupleLength (es : List (Text × Json)) : ℕ :=
  match lookup es "prefixItems" with
  | some (.list ss) => ss.length
  | _ => 0

/-- The schema that a reference names. -/
def definition (defs : List (Text × Json)) (reference : Text) : Option Json :=
  if "#/$defs/".toList.isPrefixOf reference then
    (defs.find? (·.1 = reference.drop 8)).map Prod.snd
  else none

/-- The keywords whose meaning is told below. -/
def structuralKeys : List String :=
  ["properties", "required", "additionalProperties", "items", "prefixItems", "maxItems", "anyOf",
    "allOf", "$ref", "$defs", "default"]

variable (holds : String → Json → Json → Prop)

/-- A value is accepted by the keywords of a schema, where `accepts` tells what the schemas in it
accept. With `full` an object is to have all declared properties. -/
structure Admits (full : Bool) (defs : List (Text × Json)) (accepts : Json → Json → Prop)
    (es : List (Text × Json)) (v : Json) : Prop where
  properties : ∀ ps members, lookup es "properties" = some (.dict ps) → v = .dict members →
    ∀ p ∈ ps, ∀ m ∈ members, m.1 = p.1 → accepts p.2 m.2
  required : ∀ names members, lookup es "required" = some (Json.ofTexts names) →
    v = .dict members → ∀ name ∈ names, name ∈ members.map Prod.fst
  additional : ∀ members, lookup es "additionalProperties" = some (.bool false) →
    v = .dict members → ∀ m ∈ members, m.1 ∈ declared es
  items : ∀ s xs, lookup es "items" = some s → v = .list xs →
    ∀ x ∈ xs.drop (tupleLength es), accepts s x
  prefixItems : ∀ ss xs, lookup es "prefixItems" = some (.list ss) → v = .list xs →
    ∀ p ∈ ss.zip xs, accepts p.1 p.2
  maxItems : ∀ n xs, lookup es "maxItems" = some (Json.ofNat n) → v = .list xs → xs.length ≤ n
  anyOf : ∀ ss, lookup es "anyOf" = some (.list ss) → ∃ s ∈ ss, accepts s v
  allOf : ∀ ss, lookup es "allOf" = some (.list ss) → ∀ s ∈ ss, accepts s v
  ref : ∀ t, lookup es "$ref" = some (.str t) → ∃ d, definition defs t = some d ∧ accepts d v
  others : ∀ key a, key ∉ structuralKeys → lookup es key = some a → holds key a v
  full : full = true → IsObject es → ∀ members, v = .dict members →
    ∀ name ∈ declared es, name ∈ members.map Prod.fst

/-- A schema accepts a value, and it takes no more than `n` steps into references and into the
value to see it. -/
def AcceptsWithin (full : Bool) (defs : List (Text × Json)) : ℕ → Json → Json → Prop
  | 0, _, _ => False
  | _ + 1, .bool b, _ => b = true
  | n + 1, .dict es, v => Admits holds full defs (AcceptsWithin full defs n) es v
  | _ + 1, _, _ => False

/-- A schema accepts a value. -/
def Accepts (full : Bool) (defs : List (Text × Json)) (schema v : Json) : Prop :=
  ∃ n, AcceptsWithin holds full defs n schema v

variable {holds}

theorem Admits.mono {full : Bool} {defs : List (Text × Json)}
    {accepts accepts' : Json → Json → Prop} (hmono : ∀ s v, accepts s v → accepts' s v)
    {es : List (Text × Json)} {v : Json}
    (h : Admits holds full defs accepts es v) : Admits holds full defs accepts' es v where
  properties ps members hps hv p hp m hm heq :=
    hmono _ _ (h.properties ps members hps hv p hp m hm heq)
  required := h.required
  additional := h.additional
  items s xs hs hv x hx := hmono _ _ (h.items s xs hs hv x hx)
  prefixItems ss xs hss hv p hp := hmono _ _ (h.prefixItems ss xs hss hv p hp)
  maxItems := h.maxItems
  anyOf ss hss := by
    obtain ⟨s, hs, haccepts⟩ := h.anyOf ss hss
    exact ⟨s, hs, hmono _ _ haccepts⟩
  allOf ss hss s hs := hmono _ _ (h.allOf ss hss s hs)
  ref t ht := by
    obtain ⟨d, hd, haccepts⟩ := h.ref t ht
    exact ⟨d, hd, hmono _ _ haccepts⟩
  others := h.others
  full := h.full

theorem AcceptsWithin.succ {full : Bool} {defs : List (Text × Json)} {n : ℕ} {s v : Json}
    (h : AcceptsWithin holds full defs n s v) : AcceptsWithin holds full defs (n + 1) s v := by
  induction n generalizing s v with
  | zero => exact h.elim
  | succ n ih =>
    cases s with
    | bool b => exact h
    | dict es => exact Admits.mono (fun _ _ => ih) h
    | null | number | str | list => exact h.elim

theorem AcceptsWithin.mono {full : Bool} {defs : List (Text × Json)} {n m : ℕ} (hnm : n ≤ m)
    {s v : Json} (h : AcceptsWithin holds full defs n s v) :
    AcceptsWithin holds full defs m s v := by
  induction hnm with
  | refl => exact h
  | step _ ih => exact ih.succ

/-! ### Equal schemas -/

theorem sameEntries_iff {es fs : List (Text × Json)} : sameEntries es fs = true ↔
    ∀ e ∈ es, ∃ f, fs.find? (·.1 = e.1) = some f ∧ sameJson e.2 f.2 = true := by
  induction es with
  | nil => exact ⟨fun _ _ h => (by cases h), fun _ => rfl⟩
  | cons e es ih =>
    obtain ⟨k, v⟩ := e
    rw [sameEntries, Bool.and_eq_true, ih, List.forall_mem_cons]
    refine and_congr_left' ?_
    dsimp only
    generalize List.find? _ fs = found
    rcases found with _ | f
    · constructor
      · intro h
        cases h
      · rintro ⟨f, hf, -⟩
        cases hf
    · constructor
      · exact fun h => ⟨f, rfl, h⟩
      · rintro ⟨g, hg, hsame⟩
        rwa [Option.some.inj hg]

theorem sameItems_iff {xs ys : List Json} : sameItems xs ys = true ↔
    List.Forall₂ (fun x y => sameJson x y = true) xs ys := by
  induction xs generalizing ys with
  | nil => cases ys <;> simp [sameItems]
  | cons x xs ih => cases ys <;> simp [sameItems, ih]

theorem sameJson_dict {es : List (Text × Json)} {b : Json}
    (h : sameJson (.dict es) b = true) :
    ∃ fs, b = .dict fs ∧ es.length = fs.length ∧
      ∀ e ∈ es, ∃ f, fs.find? (·.1 = e.1) = some f ∧ sameJson e.2 f.2 = true := by
  cases b with
  | dict fs =>
    rw [sameJson, Bool.and_eq_true, beq_iff_eq, sameEntries_iff] at h
    exact ⟨fs, rfl, h⟩
  | null | bool | number | str | list => cases h

theorem sameJson_list {xs : List Json} {b : Json} (h : sameJson (.list xs) b = true) :
    ∃ ys, b = .list ys ∧ List.Forall₂ (fun x y => sameJson x y = true) xs ys := by
  cases b with
  | list ys => exact ⟨ys, rfl, sameItems_iff.1 (by rwa [sameJson] at h)⟩
  | null | bool | number | str | dict => cases h

/-- A value without objects is equal to no other. -/
theorem EveryDict.eq_of_same {a b : Json} (ha : EveryDict (fun _ => False) a)
    (h : sameJson a b = true) : b = a := by
  induction ha generalizing b with
  | null => cases b <;> first | rfl | cases h
  | bool x =>
    cases b with
    | bool y => rw [eq_of_beq h]
    | null | number | str | list | dict => cases h
  | number s =>
    cases b with
    | number t => rw [eq_of_beq h]
    | null | bool | str | list | dict => cases h
  | str s =>
    cases b with
    | str t => rw [eq_of_beq h]
    | null | bool | number | list | dict => cases h
  | list hplain ih =>
    obtain ⟨ys, rfl, hall⟩ := sameJson_list h
    refine congrArg Json.list ?_
    clear h hplain
    induction hall with
    | nil => rfl
    | cons hxy _ ih' =>
      obtain ⟨hx, hxs⟩ := List.forall_mem_cons.1 ih
      rw [hx hxy, ih' hxs]
  | dict here => exact here.elim

/-- Two objects with the same entries, in whatever order. -/
structure SameEntries (es fs : List (Text × Json)) : Prop where
  right : ∀ e ∈ es, ∃ f ∈ fs, f.1 = e.1 ∧ sameJson e.2 f.2 = true
  left : ∀ f ∈ fs, ∃ e ∈ es, e.1 = f.1 ∧ sameJson e.2 f.2 = true

theorem eq_of_key {es : List (Text × Json)} (h : (es.map Prod.fst).Nodup) {e f : Text × Json}
    (he : e ∈ es) (hf : f ∈ es) (hkey : e.1 = f.1) : e = f :=
  List.inj_on_of_nodup_map h he hf hkey

theorem sameEntries_of {es fs : List (Text × Json)} (hes : (es.map Prod.fst).Nodup)
    (hfs : (fs.map Prod.fst).Nodup) (hlength : es.length = fs.length)
    (h : ∀ e ∈ es, ∃ f, fs.find? (·.1 = e.1) = some f ∧ sameJson e.2 f.2 = true) :
    SameEntries es fs := by
  have hright : ∀ e ∈ es, ∃ f ∈ fs, f.1 = e.1 ∧ sameJson e.2 f.2 = true := by
    intro e he
    obtain ⟨f, hf, hsame⟩ := h e he
    exact ⟨f, List.mem_of_find?_eq_some hf, by simpa using List.find?_some hf, hsame⟩
  have hsubset : es.map Prod.fst ⊆ fs.map Prod.fst := by
    intro key hkey
    obtain ⟨e, he, rfl⟩ := List.mem_map.1 hkey
    obtain ⟨f, hf, hfe, -⟩ := hright e he
    exact hfe ▸ List.mem_map_of_mem hf
  -- as many keys, each once: none of them is left over
  have hperm := (List.subperm_of_subset hes hsubset).perm_of_length_le
    (by rw [List.length_map, List.length_map, hlength])
  refine ⟨hright, fun f hf => ?_⟩
  obtain ⟨e, he, hef⟩ := List.mem_map.1 (hperm.mem_iff.2 (List.mem_map_of_mem hf))
  obtain ⟨f', hf', hf'e, hsame⟩ := hright e he
  obtain rfl := eq_of_key hfs hf' hf (hf'e.trans hef)
  exact ⟨e, he, hef, hsame⟩

theorem SameEntries.lookup_right {es fs : List (Text × Json)} (h : SameEntries es fs)
    (hfs : (fs.map Prod.fst).Nodup) {key : String} {a : Json} (ha : lookup es key = some a) :
    ∃ b, lookup fs key = some b ∧ sameJson a b = true := by
  obtain ⟨f, hf, hkey, hsame⟩ := h.right _ (mem_of_lookup ha)
  dsimp only at hkey
  exact ⟨f.2, lookup_of_mem hfs (by rwa [← hkey]), hsame⟩

theorem SameEntries.lookup_left {es fs : List (Text × Json)} (h : SameEntries es fs)
    (hes : (es.map Prod.fst).Nodup) {key : String} {b : Json} (hb : lookup fs key = some b) :
    ∃ a, lookup es key = some a ∧ sameJson a b = true := by
  obtain ⟨e, he, hkey, hsame⟩ := h.left _ (mem_of_lookup hb)
  dsimp only at hkey
  exact ⟨e.2, lookup_of_mem hes (by rwa [← hkey]), hsame⟩

/-- A value without objects stands under the same key in both. -/
theorem SameEntries.lookup_plain {es fs : List (Text × Json)} (h : SameEntries es fs)
    (hfs : (fs.map Prod.fst).Nodup) {key : String} {a : Json} (ha : lookup es key = some a)
    (hplain : EveryDict (fun _ => False) a) : lookup fs key = some a := by
  obtain ⟨b, hb, hsame⟩ := h.lookup_right hfs ha
  rwa [hplain.eq_of_same hsame] at hb

theorem SameEntries.names {es fs : List (Text × Json)} (h : SameEntries es fs) (name : Text) :
    name ∈ es.map Prod.fst ↔ name ∈ fs.map Prod.fst := by
  constructor
  · intro hname
    obtain ⟨e, he, rfl⟩ := List.mem_map.1 hname
    obtain ⟨f, hf, hkey, -⟩ := h.right e he
    exact hkey ▸ List.mem_map_of_mem hf
  · intro hname
    obtain ⟨f, hf, rfl⟩ := List.mem_map.1 hname
    obtain ⟨e, he, hkey, -⟩ := h.left f hf
    exact hkey ▸ List.mem_map_of_mem he

/-- The keywords of a schema whose values hold no objects. -/
theorem Shaped.plain_of_lookup {es : List (Text × Json)} (h : Shaped es) {key : String} {a : Json}
    (hkey : key ∉ schemaKeys) (ha : lookup es key = some a) : EveryDict (fun _ => False) a := by
  refine h.plain _ (mem_of_lookup ha) fun hmem => hkey ?_
  obtain ⟨key', hkey', heq⟩ := List.mem_map.1 hmem
  rwa [← String.toList_injective heq]

theorem mem_declared {es : List (Text × Json)} {name : Text} : name ∈ declared es ↔
    ∃ ps, lookup es "properties" = some (.dict ps) ∧ name ∈ ps.map Prod.fst := by
  unfold declared
  constructor
  · intro h
    rcases hps : lookup es "properties" with _ | v
    · rw [hps] at h
      cases h
    · cases v with
      | dict ps =>
        rw [hps] at h
        exact ⟨ps, rfl, h⟩
      | null | bool | number | str | list =>
        rw [hps] at h
        cases h
  · rintro ⟨ps, hps, hname⟩
    rw [hps]
    exact hname

/-- The mappings of two equal schemas under a keyword. -/
theorem SameEntries.mapping {es fs : List (Text × Json)} (hes : Shaped es) (hfs : Shaped fs)
    (h : SameEntries es fs) (key : String) (hkey : key ∈ mappingKeys) :
    (∀ ps, lookup es key = some (.dict ps) →
      ∃ qs, lookup fs key = some (.dict qs) ∧ SameEntries ps qs) ∧
    ∀ qs, lookup fs key = some (.dict qs) →
      ∃ ps, lookup es key = some (.dict ps) ∧ SameEntries ps qs := by
  have hof : ∀ {ps qs : List (Text × Json)}, lookup es key = some (.dict ps) →
      lookup fs key = some (.dict qs) → sameJson (.dict ps) (.dict qs) = true →
        SameEntries ps qs := by
    intro ps qs hps hqs hsame
    obtain ⟨ps', heq, hnodup⟩ := hes.mappings key hkey _ hps
    obtain ⟨qs', heq', hnodup'⟩ := hfs.mappings key hkey _ hqs
    obtain ⟨qs'', heq'', hlength, hfind⟩ := sameJson_dict hsame
    obtain rfl := Json.dict.inj heq
    obtain rfl := Json.dict.inj heq'
    obtain rfl := Json.dict.inj heq''
    exact sameEntries_of hnodup hnodup' hlength hfind
  constructor
  · intro ps hps
    obtain ⟨b, hb, hsame⟩ := h.lookup_right hfs.nodup hps
    obtain ⟨qs, rfl, -⟩ := sameJson_dict hsame
    exact ⟨qs, hb, hof hps hb hsame⟩
  · intro qs hqs
    obtain ⟨a, ha, hsame⟩ := h.lookup_left hes.nodup hqs
    obtain ⟨ps, rfl, -⟩ := hes.mappings key hkey a ha
    exact ⟨ps, ha, hof ha hqs hsame⟩

/-- What two equal schemas have in common. -/
theorem same_declared {es fs : List (Text × Json)} (hes : Shaped es) (hfs : Shaped fs)
    (h : SameEntries es fs) :
    (∀ name, name ∈ declared es ↔ name ∈ declared fs) ∧ (IsObject es → IsObject fs) ∧
      tupleLength es = tupleLength fs := by
  obtain ⟨hright, hleft⟩ := h.mapping hes hfs "properties" (by decide)
  refine ⟨fun name => ?_, ?_, ?_⟩
  · rw [mem_declared, mem_declared]
    constructor
    · rintro ⟨ps, hps, hname⟩
      obtain ⟨qs, hqs, hsame⟩ := hright ps hps
      exact ⟨qs, hqs, (hsame.names name).1 hname⟩
    · rintro ⟨qs, hqs, hname⟩
      obtain ⟨ps, hps, hsame⟩ := hleft qs hqs
      exact ⟨ps, hps, (hsame.names name).2 hname⟩
  · rintro (⟨ps, hps⟩ | htype)
    · obtain ⟨qs, hqs, -⟩ := hright ps hps
      exact .inl ⟨qs, hqs⟩
    · exact .inr (h.lookup_plain hfs.nodup htype (.str _))
  · unfold tupleLength
    rcases htuple : lookup es "prefixItems" with _ | v
    · rcases htuple' : lookup fs "prefixItems" with _ | w
      · rfl
      · obtain ⟨a, ha, -⟩ := h.lookup_left hes.nodup htuple'
        rw [htuple] at ha
        cases ha
    · obtain ⟨ss, rfl⟩ := hes.lists "prefixItems" (by decide) v htuple
      obtain ⟨b, hb, hsame⟩ := h.lookup_right hfs.nodup htuple
      obtain ⟨ts, rfl, hall⟩ := sameJson_list hsame
      rw [hb]
      exact hall.length_eq

/-- Corresponding elements of two lists. -/
theorem forall₂_left {R : Json → Json → Prop} {ss ts : List Json} (h : List.Forall₂ R ss ts)
    {s : Json} (hs : s ∈ ss) : ∃ t ∈ ts, R s t := by
  induction h with
  | nil => cases hs
  | cons hab _ ih =>
    rcases List.mem_cons.1 hs with rfl | hs
    · exact ⟨_, List.mem_cons_self, hab⟩
    · obtain ⟨t, ht, hst⟩ := ih hs
      exact ⟨t, List.mem_cons_of_mem _ ht, hst⟩

theorem forall₂_zip {R : Json → Json → Prop} {ss ts xs : List Json} (h : List.Forall₂ R ss ts)
    {p : Json × Json} (hp : p ∈ ss.zip xs) : ∃ t ∈ ts, R p.1 t ∧ (t, p.2) ∈ ts.zip xs := by
  induction h generalizing xs with
  | nil => cases hp
  | cons hab _ ih =>
    cases xs with
    | nil => cases hp
    | cons x xs =>
      rw [List.zip_cons_cons] at hp
      rcases List.mem_cons.1 hp with rfl | hp
      · exact ⟨_, List.mem_cons_self, hab, by rw [List.zip_cons_cons]; exact List.mem_cons_self⟩
      · obtain ⟨t, ht, hst, hzip⟩ := ih hp
        exact ⟨t, List.mem_cons_of_mem _ ht, hst, by
          rw [List.zip_cons_cons]
          exact List.mem_cons_of_mem _ hzip⟩

theorem schemaKeys_subset {key : String} (h : key ∈ schemaKeys) : key ∈ structuralKeys := by
  revert key
  decide

theorem rewrittenKeys_subset {key : String}
    (h : key ∈ ["default", "prefixItems", "items", "required", "additionalProperties"]) :
    key ∈ structuralKeys := by
  revert key
  decide

/-- **Equal schemas** accept the same. -/
theorem AcceptsWithin.same {good : List (Text × Json) → Prop} {full : Bool}
    {defs : List (Text × Json)} {n : ℕ} {s t v : Json} (hs : Schema good s) (ht : Schema good t)
    (hsame : sameJson s t = true) (h : AcceptsWithin holds full defs n t v) :
    AcceptsWithin holds full defs n s v := by
  induction n generalizing s t v with
  | zero => exact h.elim
  | succ n ih =>
    cases hs with
    | @mk es _ shaped mapped listed items =>
      obtain ⟨fs, rfl, hlength, hfind⟩ := sameJson_dict hsame
      cases ht with
      | @mk _ _ shaped' tmapped tlisted items' =>
        have hentries := sameEntries_of shaped.nodup shaped'.nodup hlength hfind
        obtain ⟨hdeclared, hobject, htuple⟩ := same_declared shaped shaped' hentries
        have hplain : ∀ {key : String} {a : Json}, key ∉ schemaKeys → lookup es key = some a →
            lookup fs key = some a := fun hkey ha =>
          hentries.lookup_plain shaped'.nodup ha (shaped.plain_of_lookup hkey ha)
        have hlist : ∀ {key : String} {ss : List Json}, lookup es key = some (.list ss) →
            ∃ ts, lookup fs key = some (.list ts) ∧
              List.Forall₂ (fun x y => sameJson x y = true) ss ts := by
          intro key ss hss
          obtain ⟨b, hb, hsame⟩ := hentries.lookup_right shaped'.nodup hss
          obtain ⟨ts, rfl, hall⟩ := sameJson_list hsame
          exact ⟨ts, hb, hall⟩
        constructor
        · intro ps members hps hv p hp m hm heq
          obtain ⟨qs, hqs, hsame⟩ :=
            (hentries.mapping shaped shaped' "properties" (by decide)).1 ps hps
          obtain ⟨q, hq, hkey, hpq⟩ := hsame.right p hp
          exact ih (mapped "properties" (by decide) ps hps p hp)
            (tmapped "properties" (by decide) qs hqs q hq) hpq
            (h.properties qs members hqs hv q hq m hm (heq.trans hkey.symm))
        · intro names members hnames hv
          exact h.required names members (hplain (by decide) hnames) hv
        · intro members hfalse hv m hm
          exact (hdeclared _).2 (h.additional members (hplain (by decide) hfalse) hv m hm)
        · intro i xs hi hv x hx
          rw [htuple] at hx
          obtain ⟨b, hb, hsame⟩ := hentries.lookup_right shaped'.nodup hi
          have haccepts := h.items b xs hb hv x hx
          rcases shaped.items i hi with ⟨gs, rfl⟩ | ⟨c, rfl⟩
          · obtain ⟨gs', rfl, -⟩ := sameJson_dict hsame
            exact ih (items gs hi) (items' gs' hb) hsame haccepts
          · rwa [(EveryDict.bool c).eq_of_same hsame] at haccepts
        · intro ss xs hss hv p hp
          obtain ⟨ts, hts, hall⟩ := hlist hss
          obtain ⟨t, ht, hst, hzip⟩ := forall₂_zip hall hp
          exact ih (listed "prefixItems" (by decide) ss hss p.1 (List.of_mem_zip hp).1)
            (tlisted "prefixItems" (by decide) ts hts t ht) hst
            (h.prefixItems ts xs hts hv (t, p.2) hzip)
        · intro k xs hk hv
          exact h.maxItems k xs (hplain (by decide) hk) hv
        · intro ss hss
          obtain ⟨ts, hts, hall⟩ := hlist hss
          obtain ⟨t, ht, haccepts⟩ := h.anyOf ts hts
          obtain ⟨s, hs, hst⟩ := forall₂_left hall.flip ht
          exact ⟨s, hs, ih (listed "anyOf" (by decide) ss hss s hs)
            (tlisted "anyOf" (by decide) ts hts t ht) hst haccepts⟩
        · intro ss hss s hs
          obtain ⟨ts, hts, hall⟩ := hlist hss
          obtain ⟨t, ht, hst⟩ := forall₂_left hall hs
          exact ih (listed "allOf" (by decide) ss hss s hs)
            (tlisted "allOf" (by decide) ts hts t ht) hst (h.allOf ts hts t ht)
        · intro t ht
          exact h.ref t (hplain (by decide) ht)
        · intro key a hkey ha
          exact h.others key a hkey (hplain (fun hmem => hkey (schemaKeys_subset hmem)) ha)
        · intro hfull hes members hv name hname
          exact h.full hfull (hobject hes) members hv name ((hdeclared name).1 hname)

/-! ### The alternatives of a tuple -/

/-- `c` is one of the schemas that `w` is an `anyOf` of, `k` of them inside each other. -/
inductive Alternative : ℕ → Json → Json → Prop
  | self (w : Json) : Alternative 0 w w
  | anyOf {k : ℕ} {us : List Json} {u c : Json} (hu : u ∈ us) (h : Alternative k u c) :
      Alternative (k + 1) (anyOfSchema us) c

theorem Alternative.codex {k : ℕ} {w c : Json} (h : Alternative k w c) :
    Alternative k (codex w) (codex c) := by
  induction h with
  | self w => exact .self _
  | anyOf hu _ ih =>
    rw [codex_anyOf]
    exact .anyOf (List.mem_map_of_mem hu) ih

theorem acceptsWithin_anyOf {full : Bool} {defs : List (Text × Json)} {n : ℕ} {us : List Json}
    {u x : Json} (hu : u ∈ us) (h : AcceptsWithin holds full defs n u x) :
    AcceptsWithin holds full defs (n + 1) (anyOfSchema us) x := by
  have hnone : ∀ {key : String} {a : Json}, key ≠ "anyOf" →
      lookup [("anyOf".toList, Json.list us)] key = some a → False := by
    intro key a hkey ha
    rw [lookup_anyOf hkey] at ha
    cases ha
  have hsome : lookup [("anyOf".toList, Json.list us)] "anyOf" = some (.list us) := by
    rw [lookup, List.find?_cons_of_pos (by simp)]
    rfl
  change Admits holds full defs _ [("anyOf".toList, Json.list us)] x
  constructor
  · exact fun ps members hps => (hnone (by decide) hps).elim
  · exact fun names members hnames => (hnone (by decide) hnames).elim
  · exact fun members hfalse => (hnone (by decide) hfalse).elim
  · exact fun i xs hi => (hnone (by decide) hi).elim
  · exact fun ss xs hss => (hnone (by decide) hss).elim
  · exact fun k xs hk => (hnone (by decide) hk).elim
  · intro ss hss
    rw [hsome] at hss
    obtain rfl := Json.list.inj (Option.some.inj hss)
    exact ⟨u, hu, h⟩
  · exact fun ss hss => (hnone (by decide) hss).elim
  · exact fun t ht => (hnone (by decide) ht).elim
  · refine fun key a hkey ha => (hnone (fun heq => hkey ?_) ha).elim
    rw [heq]
    decide
  · rintro - (⟨ps, hps⟩ | htype)
    · exact (hnone (by decide) hps).elim
    · exact (hnone (by decide) htype).elim

theorem Alternative.accepts {full : Bool} {defs : List (Text × Json)} {k n : ℕ} {w c x : Json}
    (h : Alternative k w c) (hc : AcceptsWithin holds full defs n c x) :
    AcceptsWithin holds full defs (n + k) w x := by
  induction h with
  | self w => exact hc
  | anyOf hu _ ih => exact acceptsWithin_anyOf hu (ih hc)

theorem mem_foldl_dedupe {α : Type} {schema : α → Json} {a : α} {unique : List α}
    (h : a ∈ unique) (values : List α) :
    a ∈ values.foldl (fun unique value =>
      if unique.any fun u => sameJson (schema u) (schema value) then unique
      else unique ++ [value]) unique := by
  induction values generalizing unique with
  | nil => exact h
  | cons v vs ih =>
    rw [List.foldl_cons]
    split_ifs
    · exact ih h
    · exact ih (List.mem_append_left _ h)

/-- A schema that is dropped is equal to one that stays. -/
theorem exists_mem_dedupe {α : Type} (schema : α → Json) {values : List α} {a : α}
    (h : a ∈ values) :
    ∃ u ∈ dedupeSchemas schema values, u = a ∨ sameJson (schema u) (schema a) = true := by
  unfold dedupeSchemas
  have hstep : ∀ unique : List α, ∃ u ∈ values.foldl (fun unique value =>
      if unique.any fun u => sameJson (schema u) (schema value) then unique
      else unique ++ [value]) unique, u = a ∨ sameJson (schema u) (schema a) = true := by
    induction values with
    | nil => cases h
    | cons v vs ih =>
      intro unique
      rw [List.foldl_cons]
      rcases List.mem_cons.1 h with rfl | h
      · by_cases hany : (unique.any fun u => sameJson (schema u) (schema a)) = true
        · rw [if_pos hany]
          obtain ⟨u, hu, hsame⟩ := List.any_eq_true.1 hany
          exact ⟨u, mem_foldl_dedupe hu vs, .inr hsame⟩
        · rw [if_neg hany]
          have hmem : a ∈ unique ++ [a] := List.mem_append_right _ (List.mem_singleton_self a)
          exact ⟨a, mem_foldl_dedupe hmem vs, .inl rfl⟩
      · exact ih h _
  exact hstep []

theorem tupleSchema_alternative {ss : List Json} {s : Json} (hs : s ∈ ss) :
    ∃ c ∈ ss, (c = s ∨ sameJson c s = true) ∧ ∃ k ≤ 1, Alternative k (tupleSchema ss) c := by
  obtain ⟨c, hc, hsame⟩ := exists_mem_dedupe id hs
  refine ⟨c, mem_dedupeSchemas hc, hsame, ?_⟩
  unfold tupleSchema
  rcases ss with _ | ⟨t, ss⟩
  · cases hs
  · dsimp only
    generalize dedupeSchemas id (t :: ss) = unique at hc
    rcases unique with _ | ⟨u, _ | ⟨u', us⟩⟩
    · cases hc
    · obtain rfl := List.mem_singleton.1 hc
      exact ⟨0, Nat.zero_le 1, .self _⟩
    · exact ⟨1, le_rfl, .anyOf hc (.self _)⟩

/-- Each positional schema is an alternative of the new items, but for equal ones. -/
theorem replacedItems_alternative {ss : List Json} (existing : Option Json) {s : Json}
    (hs : s ∈ ss) : ∃ c ∈ ss, (c = s ∨ sameJson c s = true) ∧
      ∃ k ≤ 2, Alternative k (replacedItems ss existing) c := by
  obtain ⟨c, hc, hsame, k, hk, halternative⟩ := tupleSchema_alternative hs
  refine ⟨c, hc, hsame, ?_⟩
  have hplain : ∃ l ≤ 2, Alternative l (tupleSchema ss) c := ⟨k, hk.trans one_le_two, halternative⟩
  unfold replacedItems
  rcases existing with _ | v
  · exact hplain
  · cases v with
    | dict fs =>
      refine ⟨k + 1, Nat.succ_le_succ hk, .anyOf ?_ halternative⟩
      exact mem_foldl_dedupe (List.mem_singleton_self (tupleSchema ss)) [.dict fs]
    | null | bool | number | str | list => exact hplain

/-- What followed the positional schemas is an alternative as well, unless it is equal to what
stands for them. -/
theorem replacedItems_existing (ss : List Json) (fs : List (Text × Json)) :
    ∃ c, (c = .dict fs ∨ c = tupleSchema ss ∧ sameJson c (.dict fs) = true) ∧
      Alternative 1 (replacedItems ss (some (.dict fs))) c := by
  have hmem : Json.dict fs ∈ [tupleSchema ss, .dict fs] :=
    List.mem_cons_of_mem _ (List.mem_singleton_self _)
  obtain ⟨c, hc, hsame⟩ := exists_mem_dedupe id hmem
  refine ⟨c, ?_, .anyOf hc (.self c)⟩
  rcases List.mem_cons.1 (mem_dedupeSchemas hc) with rfl | hmem
  · exact hsame.imp_right fun h => ⟨rfl, h⟩
  · exact .inl (List.mem_singleton.1 hmem)

theorem schema_nil : Schema Clean (.dict []) := by
  have hclean : Clean [] := by
    refine ⟨⟨fun key _ ps hps => ?_, fun v hv => ?_⟩, fun ss hss => ?_, fun hobject => ?_⟩
    · cases hps
    · cases hv
    · cases hss
    · rcases hobject with ⟨ps, hps⟩ | htype
      · cases hps
      · cases htype
  have hshaped : Shaped [] := by
    refine ⟨List.nodup_nil, fun key _ v hv => ?_, fun key _ v hv => ?_, fun v hv => ?_,
      fun v hv => ?_, fun e he => ?_, rfl⟩
    · cases hv
    · cases hv
    · cases hv
    · cases hv
    · cases he
  refine .mk hclean hshaped (fun key _ ps hps => ?_) (fun key _ ss hss => ?_) fun fs hfs => ?_
  · cases hps
  · cases hss
  · cases hfs

/-- An `anyOf` of clean schemas is one. -/
theorem schema_anyOf {us : List Json} (h : ∀ u ∈ us, Schema Clean u) :
    Schema Clean (anyOfSchema us) := by
  have hnone : ∀ {key : String} {a : Json}, key ≠ "anyOf" →
      lookup [("anyOf".toList, Json.list us)] key = some a → False := by
    intro key a hkey ha
    rw [lookup_anyOf hkey] at ha
    cases ha
  have hlist : ∀ {key : String} {v : Json},
      lookup [("anyOf".toList, Json.list us)] key = some v → v = .list us := by
    intro key v hv
    obtain heq := List.mem_singleton.1 (mem_of_lookup hv)
    exact congrArg Prod.snd heq
  have hclean : Clean [("anyOf".toList, Json.list us)] := by
    refine ⟨⟨fun key _ ps hps => ?_, fun v hv => ?_⟩, fun ss hss => ?_, fun hobject => ?_⟩
    · cases hlist hps
    · exact (hnone (by decide) hv).elim
    · exact (hnone (by decide) hss).elim
    · rcases hobject with ⟨ps, hps⟩ | htype
      · cases hlist hps
      · cases hlist htype
  have hshaped : Shaped [("anyOf".toList, Json.list us)] := by
    refine ⟨List.nodup_singleton _, fun key hkey v hv => ?_, fun key _ v hv => ⟨us, hlist hv⟩,
      fun v hv => ?_, fun v hv => ?_, fun e he hkey => ?_, lookup_anyOf (by decide) _⟩
    · refine (hnone (fun heq => ?_) hv).elim
      rw [heq] at hkey
      revert hkey
      decide
    · exact (hnone (by decide) hv).elim
    · exact (hnone (by decide) hv).elim
    · obtain rfl := List.mem_singleton.1 he
      refine absurd (List.mem_map_of_mem ?_) hkey
      decide
  refine .mk hclean hshaped (fun key _ ps hps => ?_) (fun key _ ss hss => ?_) fun fs hfs => ?_
  · cases hlist hps
  · obtain rfl := Json.list.inj (hlist hss)
    exact h
  · cases hlist hfs

theorem schema_tuple {ss : List Json} (h : ∀ s ∈ ss, Schema Clean s) :
    Schema Clean (tupleSchema ss) :=
  tupleSchema_of schema_nil (fun _ => schema_anyOf) h

/-! ### The compiled schema accepts no less -/

theorem ofTexts_injective {ns ms : List Text} (h : Json.ofTexts ns = Json.ofTexts ms) : ns = ms :=
  List.map_injective_iff.2 (fun _ _ heq => Json.str.inj heq) (Json.list.inj h)

theorem codex_list (ss : List Json) : codex (.list ss) = .list (ss.map codex) := by
  rw [codex, transportSchema, normalizePrefixItems, normalizeItems_eq, compileOpenaiStrict,
    compileItems_eq, List.map_map]
  rfl

theorem EveryDict.codex_eq {v : Json} (h : EveryDict (fun _ => False) v) : codex v = v := by
  obtain ⟨hnormalize, hcompile⟩ := h.rewritten
  rw [codex, transportSchema, hnormalize, hcompile]

/-- A keyword whose value holds no objects is not rewritten. -/
theorem Shaped.lookup_plain {es fs : List (Text × Json)} (shaped : Shaped es)
    (h : Rewritten es fs) {key : String} (hkey : key ∉ schemaKeys)
    (hother : key ∉ ["default", "prefixItems", "items", "required", "additionalProperties"])
    {a : Json} (ha : lookup fs key = some a) : lookup es key = some a := by
  rw [h.others key hother] at ha
  obtain ⟨w, hw, rfl⟩ := Option.map_eq_some_iff.1 ha
  rw [(shaped.plain_of_lookup hkey hw).codex_eq, hw]

/-- The keywords whose values are rewritten and nothing else. -/
theorem kept_of_mem {key : String} (h : key ∈ mappingKeys ++ ["anyOf", "allOf"]) :
    key ∉ ["default", "prefixItems", "items", "required", "additionalProperties"] := by
  revert key
  decide

/-- A list of schemas is rewritten one by one. -/
theorem Shaped.lookup_listed {es fs : List (Text × Json)} (shaped : Shaped es)
    (h : Rewritten es fs) {key : String} (hkey : key ∈ ["anyOf", "allOf"]) {ts : List Json}
    (hts : lookup fs key = some (.list ts)) :
    ∃ ss, lookup es key = some (.list ss) ∧ ts = ss.map codex := by
  have hlist : key ∈ listKeys := List.mem_cons_of_mem _ hkey
  rw [h.others key (kept_of_mem (List.mem_append_right _ hkey))] at hts
  obtain ⟨w, hw, heq⟩ := Option.map_eq_some_iff.1 hts
  obtain ⟨ss, rfl⟩ := shaped.lists key hlist w hw
  rw [codex_list] at heq
  exact ⟨ss, hw, (Json.list.inj heq).symm⟩

/-- A mapping from names to schemas is rewritten schema by schema. -/
theorem Schema.lookup_mapping {es fs : List (Text × Json)} (clean : Clean es)
    (shaped : Shaped es) (h : Rewritten es fs) {key : String} (hkey : key ∈ mappingKeys)
    (mapped : ∀ ps, lookup es key = some (.dict ps) → ∀ p ∈ ps, Schema Clean p.2) {w : Json}
    (hw : lookup fs key = some w) :
    ∃ ps, lookup es key = some (.dict ps) ∧ w = .dict (mapValues codex ps) := by
  rw [h.others key (kept_of_mem (List.mem_append_left _ hkey))] at hw
  obtain ⟨v, hv, rfl⟩ := Option.map_eq_some_iff.1 hw
  obtain ⟨ps, rfl, -⟩ := shaped.mappings key hkey v hv
  exact ⟨ps, hv, codex_of_mapping clean hkey hv (mapped ps hv)⟩

theorem declared_rewritten {es fs : List (Text × Json)} (clean : Clean es) (shaped : Shaped es)
    (h : Rewritten es fs)
    (mapped : ∀ ps, lookup es "properties" = some (.dict ps) → ∀ p ∈ ps, Schema Clean p.2) :
    declared fs = declared es := by
  unfold declared
  rcases hps : lookup es "properties" with _ | v
  · rw [h.others "properties" (by decide), hps]
    rfl
  · obtain ⟨ps, rfl, -⟩ := shaped.mappings "properties" (by decide) v hps
    rw [h.others "properties" (by decide), hps, Option.map_some,
      codex_of_mapping clean (by decide) hps (mapped ps hps)]
    exact map_fst_mapValues codex ps

theorem definition_codex {defs : List (Text × Json)} {t : Text} {d : Json}
    (h : definition defs t = some d) :
    definition (mapValues codex defs) t = some (codex d) ∧ ∃ e ∈ defs, e.2 = d := by
  unfold definition at h ⊢
  split_ifs at h ⊢ with hreference
  · obtain ⟨e, he, rfl⟩ := Option.map_eq_some_iff.1 h
    refine ⟨?_, e, List.mem_of_find?_eq_some he, rfl⟩
    have hfind : (mapValues codex defs).find? (·.1 = t.drop 8) = some (e.1, codex e.2) := by
      rw [mapValues, List.find?_map]
      exact congrArg (Option.map _) he
    rw [hfind]
    rfl

theorem acceptsWithin_bool {full full' : Bool} {defs defs' : List (Text × Json)} {n m : ℕ}
    {b : Bool} {v : Json} (h : AcceptsWithin holds full defs n (.bool b) v) (hm : 0 < m) :
    AcceptsWithin holds full' defs' m (.bool b) v := by
  rcases n with _ | n
  · exact h.elim
  · obtain ⟨m, rfl⟩ := Nat.exists_eq_succ_of_ne_zero hm.ne'
    exact h

/-- Where an element of a list stands: under a positional schema or behind them. -/
theorem mem_zip_or_drop (ss : List Json) {xs : List Json} {x : Json} (hx : x ∈ xs) :
    (∃ s ∈ ss, (s, x) ∈ ss.zip xs) ∨ x ∈ xs.drop ss.length := by
  induction ss generalizing xs with
  | nil => exact .inr hx
  | cons s ss ih =>
    cases xs with
    | nil => cases hx
    | cons y ys =>
      rw [List.zip_cons_cons, List.length_cons, List.drop_succ_cons]
      rcases List.mem_cons.1 hx with rfl | hx
      · exact .inl ⟨s, List.mem_cons_self, List.mem_cons_self⟩
      · rcases ih hx with ⟨s', hs', hzip⟩ | hdrop
        · exact .inl ⟨s', List.mem_cons_of_mem _ hs', List.mem_cons_of_mem _ hzip⟩
        · exact .inr hdrop

/-- The elements of a tuple are accepted by the schema that stands for all positions. -/
theorem accepts_newItems {defs : List (Text × Json)} {n : ℕ} {es : List (Text × Json)} {v : Json}
    (clean : Clean es) (shaped : Shaped es)
    (listed : ∀ ss, lookup es "prefixItems" = some (.list ss) → ∀ s ∈ ss, Schema Clean s)
    (hitems : ∀ fs, lookup es "items" = some (.dict fs) → Schema Clean (.dict fs))
    (ih : ∀ s x, Schema Clean s → AcceptsWithin holds true defs n s x →
      AcceptsWithin holds false (mapValues codex defs) (3 * n) (codex s) x)
    (h : Admits holds true defs (AcceptsWithin holds true defs n) es v) {w : Json}
    (hw : newItems es = some w) {xs : List Json} (hv : v = .list xs) {x : Json} (hx : x ∈ xs) :
    AcceptsWithin holds false (mapValues codex defs) (3 * n + 2) (codex w) x := by
  have hle : 3 * n ≤ 3 * n + 2 := Nat.le_add_right _ _
  rcases shaped.normalized_eq with ⟨htuple, hnew, -⟩ | ⟨ss, htuple, hnew, -⟩
  · rw [hnew] at hw
    have hlength : tupleLength es = 0 := by rw [tupleLength, htuple]
    have haccepts := h.items w xs hw hv x (by rwa [hlength])
    rcases shaped.items w hw with ⟨fs, rfl⟩ | ⟨b, rfl⟩
    · exact (ih _ x (hitems fs hw) haccepts).mono hle
    · exact acceptsWithin_bool haccepts (Nat.succ_pos _)
  · rw [hnew] at hw
    obtain rfl := Option.some.inj hw
    have hlength : tupleLength es = ss.length := by rw [tupleLength, htuple]
    rcases mem_zip_or_drop ss hx with ⟨s, hs, hzip⟩ | hdrop
    · -- a positional schema accepts the element, and an equal one is an alternative
      have haccepts := h.prefixItems ss xs htuple hv (s, x) hzip
      obtain ⟨c, hc, hsame, k, hk, halternative⟩ :=
        replacedItems_alternative (lookup es "items") hs
      have hschema := listed ss htuple
      have hcx : AcceptsWithin holds true defs n c x := by
        rcases hsame with rfl | hsame
        · exact haccepts
        · exact AcceptsWithin.same (hschema c hc) (hschema s hs) hsame haccepts
      exact (halternative.codex.accepts (ih c x (hschema c hc) hcx)).mono
        (Nat.add_le_add_left hk _)
    · rw [← hlength] at hdrop
      rcases clean.tuples ss htuple with ⟨fs, hfs⟩ | hfalse | ⟨m, hmax, hm⟩
      · have haccepts := h.items _ xs hfs hv x hdrop
        obtain ⟨c, hc, halternative⟩ := replacedItems_existing ss fs
        rw [hfs]
        have hcx : Schema Clean c ∧ AcceptsWithin holds true defs n c x := by
          rcases hc with rfl | ⟨rfl, hsame⟩
          · exact ⟨hitems fs hfs, haccepts⟩
          · have htupleSchema := schema_tuple (listed ss htuple)
            exact ⟨htupleSchema, AcceptsWithin.same htupleSchema (hitems fs hfs) hsame haccepts⟩
        exact (halternative.codex.accepts (ih c x hcx.1 hcx.2)).mono (Nat.le_succ _)
      · have haccepts := h.items _ xs hfalse hv x hdrop
        rcases n with _ | n
        · exact haccepts.elim
        · cases haccepts
      · have hmaxLength := h.maxItems m xs hmax hv
        rw [hlength, List.drop_of_length_le (hmaxLength.trans hm)] at hdrop
        cases hdrop

/-- **The compiled schema** accepts every instance in which the objects have the declared
properties. -/
theorem AcceptsWithin.compiled {defs : List (Text × Json)} (hdefs : ∀ d ∈ defs, Schema Clean d.2)
    {n : ℕ} {J v : Json} (hJ : Schema Clean J) (h : AcceptsWithin holds true defs n J v) :
    AcceptsWithin holds false (mapValues codex defs) (3 * n) (codex J) v := by
  induction n generalizing J v with
  | zero => exact h.elim
  | succ n ih =>
    cases hJ with
    | @mk es clean shaped mapped listed items =>
      obtain ⟨fs, hfs, hrewritten⟩ := rewritten shaped clean
      have hclosed : ∀ a, lookup fs "additionalProperties" = some a →
          lookup es "additionalProperties" = some (.bool false) := by
        intro a ha
        rcases (hrewritten.additional a ha).2 with hfalse | hobject
        · exact hfalse
        · exact clean.closed hobject
      have hlist : ∀ {key : String} {ts : List Json}, key ∈ ["anyOf", "allOf"] →
          lookup fs key = some (.list ts) → ∃ ss, lookup es key = some (.list ss) ∧
            ts = ss.map codex ∧ ∀ s ∈ ss, Schema Clean s := by
        intro key ts hkey hts
        obtain ⟨ss, hss, rfl⟩ := shaped.lookup_listed hrewritten hkey hts
        exact ⟨ss, hss, rfl, listed key (List.mem_cons_of_mem _ hkey) ss hss⟩
      have hstep : ∀ s x, Schema Clean s → AcceptsWithin holds true defs n s x →
          AcceptsWithin holds false (mapValues codex defs) (3 * n + 2) (codex s) x :=
        fun s x hs haccepts => (ih hs haccepts).mono (Nat.le_add_right _ _)
      have h : Admits holds true defs (AcceptsWithin holds true defs n) es v := h
      rw [hfs, Nat.mul_succ]
      change Admits holds false _ (AcceptsWithin holds false _ (3 * n + 2)) fs v
      constructor
      · intro qs members hqs hv q hq m hm heq
        obtain ⟨ps, hps, hdict⟩ := Schema.lookup_mapping clean shaped hrewritten (by decide)
          (mapped "properties" (by decide)) hqs
        obtain rfl := Json.dict.inj hdict
        obtain ⟨p, hp, rfl⟩ := List.mem_map.1 hq
        exact hstep p.2 m.2 (mapped "properties" (by decide) ps hps p hp)
          (h.properties ps members hps hv p hp m hm heq)
      · intro names members hnames hv name hname
        rcases hps : lookup es "properties" with _ | a
        · rw [hrewritten.kept hps] at hnames
          obtain ⟨w, hw, heq⟩ := Option.map_eq_some_iff.1 hnames
          rw [(shaped.plain_of_lookup (by decide) hw).codex_eq] at heq
          exact h.required names members (by rw [hw, heq]) hv name hname
        · obtain ⟨ps, rfl, -⟩ := shaped.mappings "properties" (by decide) a hps
          rw [hrewritten.required ps hps] at hnames
          rw [← ofTexts_injective (Option.some.inj hnames)] at hname
          exact h.full rfl (.inl ⟨ps, hps⟩) members hv name (mem_declared.2 ⟨ps, hps, hname⟩)
      · intro members hfalse hv m hm
        rw [declared_rewritten clean shaped hrewritten (mapped "properties" (by decide))]
        exact h.additional members (hclosed _ hfalse) hv m hm
      · intro i xs hi hv x hx
        have hlength : tupleLength fs = 0 := by rw [tupleLength, hrewritten.prefixItems]
        rw [hrewritten.items] at hi
        obtain ⟨w, hw, rfl⟩ := Option.map_eq_some_iff.1 hi
        rw [hlength] at hx
        exact accepts_newItems clean shaped (listed "prefixItems" (by decide)) items
          (fun s x => ih) h hw hv hx
      · intro ss xs hss
        rw [hrewritten.prefixItems] at hss
        cases hss
      · intro k xs hk hv
        exact h.maxItems k xs (shaped.lookup_plain hrewritten (by decide) (by decide) hk) hv
      · intro ts hts
        obtain ⟨ss, hss, rfl, hschema⟩ := hlist (by decide) hts
        obtain ⟨s, hs, haccepts⟩ := h.anyOf ss hss
        exact ⟨_, List.mem_map_of_mem hs, hstep s v (hschema s hs) haccepts⟩
      · intro ts hts t ht
        obtain ⟨ss, hss, rfl, hschema⟩ := hlist (by decide) hts
        obtain ⟨s, hs, rfl⟩ := List.mem_map.1 ht
        exact hstep s v (hschema s hs) (h.allOf ss hss s hs)
      · intro t ht
        obtain ⟨d, hd, haccepts⟩ :=
          h.ref t (shaped.lookup_plain hrewritten (by decide) (by decide) ht)
        obtain ⟨hcodex, e, he, rfl⟩ := definition_codex hd
        exact ⟨_, hcodex, hstep _ v (hdefs e he) haccepts⟩
      · intro key a hkey ha
        refine h.others key a hkey (shaped.lookup_plain hrewritten
          (fun hmem => hkey (schemaKeys_subset hmem))
          (fun hmem => hkey (rewrittenKeys_subset hmem)) ha)
      · intro hfull
        cases hfull

end Llm
end OpenFoamAgent
