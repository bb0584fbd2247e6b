/-
# The declared properties of a compiled schema

What is to be found of a schema in the schema compiled from it: at each place the same declared
properties, and exactly these required (`Keeps`). The elements of a tuple lose their positions,
so their schemas are looked for among the alternatives of `items`.

A clean schema keeps its properties (`Schema.keeps`). A schema that the checks let through and
that keeps its properties has no property with a reserved name (`Keeps.named`): no compiled
object has an entry `default` or `prefixItems`, and none has `properties` alone, whatever it was
compiled from (`everyDict_codex`).
-/
import OpenFoamAgent.Llm.TransportAcceptance

namespace OpenFoamAgent
namespace Llm

open Python
open Json (lookup)

/-! ### What is kept -/

/-- The schemas of the elements of a list. -/
inductive Element (es : List (Text × Json)) : Json → Prop
  | position {ss : List Json} {s : Json} (htuple : lookup es "prefixItems" = some (.list ss))
      (hs : s ∈ ss) : Element es s
  | rest {gs : List (Text × Json)} (hitems : lookup es "items" = some (.dict gs)) :
      Element es (.dict gs)

/-- What the schema on the left declares is found in the schema on the right: the properties and
definitions under the same names, the former all required, and the schemas below in their
places. The schema of an element is one of the alternatives of the items. -/
inductive Keeps : Json → Json → Prop
  | mk {es fs : List (Text × Json)} (image : Json → Json)
      (names : ∀ key ∈ mappingKeys, ∀ ps, lookup es key = some (.dict ps) →
        ∃ qs, lookup fs key = some (.dict qs) ∧
          ∀ name, name ∈ qs.map Prod.fst ↔ name ∈ ps.map Prod.fst)
      (required : ∀ ps, lookup es "properties" = some (.dict ps) →
        ∃ names, lookup fs "required" = some (Json.ofTexts names) ∧
          ∀ name, name ∈ names ↔ name ∈ ps.map Prod.fst)
      (mapped : ∀ key ∈ mappingKeys, ∀ ps qs, lookup es key = some (.dict ps) →
        lookup fs key = some (.dict qs) → ∀ p ∈ ps, ∀ q ∈ qs, q.1 = p.1 → Keeps p.2 q.2)
      (lengths : ∀ key ∈ ["anyOf", "allOf"], ∀ ss, lookup es key = some (.list ss) →
        ∃ ts, lookup fs key = some (.list ts) ∧ ts.length = ss.length)
      (listed : ∀ key ∈ ["anyOf", "allOf"], ∀ ss ts, lookup es key = some (.list ss) →
        lookup fs key = some (.list ts) → ∀ p ∈ ss.zip ts, Keeps p.1 p.2)
      (alternatives : ∀ s, Element es s →
        ∃ w k, lookup fs "items" = some w ∧ Alternative k w (image s))
      (elements : ∀ s, Element es s → Keeps s (image s)) :
      Keeps (.dict es) (.dict fs)

theorem Element.schema {good : List (Text × Json) → Prop} {es : List (Text × Json)} {s : Json}
    (h : Element es s)
    (listed : ∀ key ∈ listKeys, ∀ ss, lookup es key = some (.list ss) → ∀ s ∈ ss, Schema good s)
    (items : ∀ gs, lookup es "items" = some (.dict gs) → Schema good (.dict gs)) :
    Schema good s := by
  cases h with
  | position htuple hs => exact listed "prefixItems" (by decide) _ htuple s hs
  | rest hitems => exact items _ hitems

theorem exists_zip_left {ss ts : List Json} (h : ts.length = ss.length) {s : Json}
    (hs : s ∈ ss) : ∃ t, (s, t) ∈ ss.zip ts := by
  induction ss generalizing ts with
  | nil => cases hs
  | cons s' ss ih =>
    cases ts with
    | nil => cases h
    | cons t ts =>
      rw [List.zip_cons_cons]
      rcases List.mem_cons.1 hs with rfl | hs
      · exact ⟨t, List.mem_cons_self⟩
      · obtain ⟨t', ht'⟩ := ih (Nat.succ.inj h) hs
        exact ⟨t', List.mem_cons_of_mem _ ht'⟩

/-- Corresponding places of two equal lists of schemas. -/
theorem forall₂_zip_zip {R : Json → Json → Prop} {cs ss ts : List Json}
    (h : List.Forall₂ R cs ss) {s t : Json} (hzip : (s, t) ∈ ss.zip ts) :
    ∃ c ∈ cs, R c s ∧ (c, t) ∈ cs.zip ts := by
  obtain ⟨c, hc, hcs, hct⟩ := forall₂_zip h.flip hzip
  exact ⟨c, hc, hcs, hct⟩

/-- The elements of two equal schemas. -/
theorem Element.same {es gs : List (Text × Json)} (hgs : Shaped gs) (h : SameEntries gs es)
    {s : Json} (hs : Element es s) :
    ∃ c, Element gs c ∧ sameJson c s = true := by
  cases hs with
  | position htuple hs =>
    obtain ⟨a, ha, hsame⟩ := h.lookup_left hgs.nodup htuple
    obtain ⟨cs, rfl⟩ := hgs.lists "prefixItems" (by decide) a ha
    obtain ⟨ss, heq, hall⟩ := sameJson_list hsame
    obtain rfl := Json.list.inj heq
    obtain ⟨c, hc, hcs⟩ := forall₂_left hall.flip hs
    exact ⟨c, .position ha hc, hcs⟩
  | rest hitems =>
    obtain ⟨a, ha, hsame⟩ := h.lookup_left hgs.nodup hitems
    rcases hgs.items a ha with ⟨cs, rfl⟩ | ⟨b, rfl⟩
    · exact ⟨_, .rest ha, hsame⟩
    · cases hsame

/-- What an equal schema declares is found in the same place. -/
theorem Keeps.same {good good' : List (Text × Json) → Prop} {s c t : Json} (hs : Schema good s)
    (hc : Schema good' c) (hsame : sameJson c s = true) (h : Keeps c t) : Keeps s t := by
  induction h generalizing s with
  | @mk gs fs image names required mapped lengths listed alternatives elements ihMapped ihListed
      ihElements =>
    cases hc with
    | mk _ hgs cmapped clisted citems =>
      obtain ⟨es, rfl, hlength, hfind⟩ := sameJson_dict hsame
      cases hs with
      | mk _ hes smapped slisted sitems =>
        have hentries := sameEntries_of hgs.nodup hes.nodup hlength hfind
        have hmapping : ∀ key ∈ mappingKeys, ∀ ps, lookup es key = some (.dict ps) →
            ∃ cs, lookup gs key = some (.dict cs) ∧ SameEntries cs ps := fun key hkey =>
          (hentries.mapping hgs hes key hkey).2
        have hlist : ∀ key ∈ ["anyOf", "allOf"], ∀ ss, lookup es key = some (.list ss) →
            ∃ cs, lookup gs key = some (.list cs) ∧
              List.Forall₂ (fun x y => sameJson x y = true) cs ss := by
          intro key hkey ss hss
          obtain ⟨a, ha, hsame⟩ := hentries.lookup_left hgs.nodup hss
          obtain ⟨cs, rfl⟩ := hgs.lists key (List.mem_cons_of_mem _ hkey) a ha
          obtain ⟨ss', heq, hall⟩ := sameJson_list hsame
          obtain rfl := Json.list.inj heq
          exact ⟨cs, ha, hall⟩
        have helement : ∀ s, Element es s → ∃ c, Element gs c ∧ sameJson c s = true :=
          fun s hs => hs.same hgs hentries
        choose! copy hcopy using helement
        refine .mk (fun s => image (copy s)) ?_ ?_ ?_ ?_ ?_ ?_ ?_
        · intro key hkey ps hps
          obtain ⟨cs, hcs, hsameNames⟩ := hmapping key hkey ps hps
          obtain ⟨qs, hqs, hnames⟩ := names key hkey cs hcs
          exact ⟨qs, hqs, fun name => (hnames name).trans (hsameNames.names name)⟩
        · intro ps hps
          obtain ⟨cs, hcs, hsameNames⟩ := hmapping "properties" (by decide) ps hps
          obtain ⟨listing, hlisting, hnames⟩ := required cs hcs
          exact ⟨listing, hlisting, fun name => (hnames name).trans (hsameNames.names name)⟩
        · intro key hkey ps qs hps hqs p hp q hq hname
          obtain ⟨cs, hcs, hsameEntries⟩ := hmapping key hkey ps hps
          obtain ⟨c, hc, hcp, hsamep⟩ := hsameEntries.left p hp
          exact ihMapped key hkey cs qs hcs hqs c hc q hq (hname.trans hcp.symm)
            (smapped key hkey ps hps p hp) (cmapped key hkey cs hcs c hc) hsamep
        · intro key hkey ss hss
          obtain ⟨cs, hcs, hall⟩ := hlist key hkey ss hss
          obtain ⟨ts, hts, hlen⟩ := lengths key hkey cs hcs
          exact ⟨ts, hts, hlen.trans hall.length_eq⟩
        · intro key hkey ss ts hss hts p hp
          obtain ⟨cs, hcs, hall⟩ := hlist key hkey ss hss
          obtain ⟨c, hc, hcp, hzip⟩ := forall₂_zip_zip hall hp
          have hkey' : key ∈ listKeys := List.mem_cons_of_mem _ hkey
          exact ihListed key hkey cs ts hcs hts (c, p.2) hzip
            (slisted key hkey' ss hss p.1 (List.of_mem_zip hp).1) (clisted key hkey' cs hcs c hc)
            hcp
        · exact fun s hs => alternatives (copy s) (hcopy s hs).1
        · intro s hs
          obtain ⟨hcopied, hsames⟩ := hcopy s hs
          refine ihElements (copy s) hcopied ?_ ?_ hsames
          · exact hs.schema slisted sitems
          · exact hcopied.schema clisted citems

/-! ### Clean schemas keep their properties -/

theorem keeps_nil : Keeps (.dict []) (codex (.dict [])) := by
  have hcodex : codex (.dict []) = .dict [] := rfl
  rw [hcodex]
  refine .mk id (fun key _ ps hps => ?_) (fun ps hps => ?_) (fun key _ ps qs hps => ?_)
    (fun key _ ss hss => ?_) (fun key _ ss ts hss => ?_) (fun s hs => ?_) (fun s hs => ?_)
  · cases hps
  · cases hps
  · cases hps
  · cases hss
  · cases hss
  · cases hs with
    | position htuple => cases htuple
    | rest hitems => cases hitems
  · cases hs with
    | position htuple => cases htuple
    | rest hitems => cases hitems

theorem mem_zip_map {f : Json → Json} {ss : List Json} {p : Json × Json}
    (h : p ∈ ss.zip (ss.map f)) : p.1 ∈ ss ∧ p.2 = f p.1 := by
  have hzip : ss.zip (ss.map f) = ss.map fun s => (s, f s) := by
    conv_lhs => rw [← List.map_id ss, List.map_map, List.zip_map']
    rfl
  rw [hzip] at h
  obtain ⟨s, hs, rfl⟩ := List.mem_map.1 h
  exact ⟨hs, rfl⟩

theorem keeps_anyOf {us : List Json} (h : ∀ u ∈ us, Keeps u (codex u)) :
    Keeps (anyOfSchema us) (codex (anyOfSchema us)) := by
  have hlist : ∀ {ws : List Json} {key : String} {v : Json},
      lookup [("anyOf".toList, Json.list ws)] key = some v → v = .list ws := by
    intro ws key v hv
    have heq := List.mem_singleton.1 (mem_of_lookup hv)
    exact congrArg Prod.snd heq
  have hkey : ∀ {ws ws' : List Json} {key : String} {v : Json},
      lookup [("anyOf".toList, Json.list ws)] key = some v →
        lookup [("anyOf".toList, Json.list ws')] key = some (.list ws') := by
    intro ws ws' key v hv
    have heq := List.mem_singleton.1 (mem_of_lookup hv)
    rw [String.toList_injective (congrArg Prod.fst heq), lookup, List.find?_cons_of_pos (by simp)]
    rfl
  have hnone : ∀ s, ¬ Element [("anyOf".toList, Json.list us)] s := by
    intro s hs
    cases hs with
    | position htuple =>
      rw [lookup_anyOf (by decide)] at htuple
      cases htuple
    | rest hitems =>
      rw [lookup_anyOf (by decide)] at hitems
      cases hitems
  rw [codex_anyOf]
  refine .mk id (fun key _ ps hps => ?_) (fun ps hps => ?_) (fun key _ ps qs hps => ?_)
    (fun key _ ss hss => ?_) (fun key _ ss ts hss hts p hp => ?_)
    (fun s hs => absurd hs (hnone s)) (fun s hs => absurd hs (hnone s))
  · cases hlist hps
  · cases hlist hps
  · cases hlist hps
  · obtain rfl := Json.list.inj (hlist hss)
    exact ⟨_, hkey hss, List.length_map ..⟩
  · obtain rfl := Json.list.inj (hlist hss)
    obtain rfl := Json.list.inj (hlist hts)
    obtain ⟨hmem, heq⟩ := mem_zip_map hp
    rw [heq]
    exact h p.1 hmem

/-- The schema of an element of a list is an alternative of the new items, and what it declares
is found there. -/
theorem element_kept {es : List (Text × Json)} (shaped : Shaped es)
    (listed : ∀ key ∈ listKeys, ∀ ss, lookup es key = some (.list ss) → ∀ s ∈ ss, Schema Clean s)
    (items : ∀ gs, lookup es "items" = some (.dict gs) → Schema Clean (.dict gs))
    (ihListed : ∀ ss, lookup es "prefixItems" = some (.list ss) → ∀ s ∈ ss, Keeps s (codex s))
    (ihItems : ∀ gs, lookup es "items" = some (.dict gs) → Keeps (.dict gs) (codex (.dict gs)))
    {s : Json} (hs : Element es s) :
    ∃ t, (∃ w k, newItems es = some w ∧ Alternative k (codex w) t) ∧ Keeps s t := by
  cases hs with
  | @position ss s htuple hs =>
    rcases shaped.normalized_eq with ⟨hnone, -⟩ | ⟨ss', htuple', hnew, -⟩
    · rw [htuple] at hnone
      cases hnone
    · rw [htuple] at htuple'
      obtain rfl := Json.list.inj (Option.some.inj htuple')
      obtain ⟨c, hc, hsame, k, -, halternative⟩ :=
        replacedItems_alternative (lookup es "items") hs
      have hschema := listed "prefixItems" (by decide) ss htuple
      refine ⟨codex c, ⟨_, k, hnew, halternative.codex⟩, ?_⟩
      rcases hsame with rfl | hsame
      · exact ihListed ss htuple c hc
      · exact (ihListed ss htuple c hc).same (hschema s hs) (hschema c hc) hsame
  | @rest gs hitems =>
    rcases shaped.normalized_eq with ⟨-, hnew, -⟩ | ⟨ss, htuple, hnew, -⟩
    · exact ⟨_, ⟨_, 0, hnew.trans hitems, .self _⟩, ihItems gs hitems⟩
    · obtain ⟨c, hc, halternative⟩ := replacedItems_existing ss gs
      rw [hitems] at hnew
      refine ⟨codex c, ⟨_, 1, hnew, halternative.codex⟩, ?_⟩
      rcases hc with rfl | ⟨rfl, hsame⟩
      · exact ihItems gs hitems
      · have hschema := listed "prefixItems" (by decide) ss htuple
        have htupleKeeps : Keeps (tupleSchema ss) (codex (tupleSchema ss)) :=
          tupleSchema_of (P := fun s => Keeps s (codex s)) keeps_nil (fun _ => keeps_anyOf)
            (ihListed ss htuple)
        exact htupleKeeps.same (items gs hitems) (schema_tuple hschema) hsame

/-- **A clean schema** keeps its properties, and these are required. -/
theorem Schema.keeps {J : Json} (h : Schema Clean J) : Keeps J (codex J) := by
  induction h with
  | @mk es clean shaped mapped listed items ihMapped ihListed ihItems =>
    obtain ⟨fs, hfs, hrewritten⟩ := rewritten shaped clean
    have hmapping : ∀ key ∈ mappingKeys, ∀ ps, lookup es key = some (.dict ps) →
        lookup fs key = some (.dict (mapValues codex ps)) := by
      intro key hkey ps hps
      rw [hrewritten.others key (kept_of_mem (List.mem_append_left _ hkey)), hps, Option.map_some,
        codex_of_mapping clean hkey hps (mapped key hkey ps hps)]
    have hlist : ∀ key ∈ ["anyOf", "allOf"], ∀ ss, lookup es key = some (.list ss) →
        lookup fs key = some (.list (ss.map codex)) := by
      intro key hkey ss hss
      rw [hrewritten.others key (kept_of_mem (List.mem_append_right _ hkey)), hss,
        Option.map_some, codex_list]
    have helement : ∀ s, Element es s →
        ∃ t, (∃ w k, newItems es = some w ∧ Alternative k (codex w) t) ∧ Keeps s t := fun s hs =>
      element_kept shaped listed items (ihListed "prefixItems" (by decide)) ihItems hs
    choose! image halternative hkept using helement
    rw [hfs]
    refine .mk image ?_ ?_ ?_ ?_ ?_ ?_ hkept
    · intro key hkey ps hps
      exact ⟨_, hmapping key hkey ps hps, fun name => by rw [map_fst_mapValues]⟩
    · exact fun ps hps => ⟨_, hrewritten.required ps hps, fun name => Iff.rfl⟩
    · intro key hkey ps qs hps hqs p hp q hq hname
      rw [hmapping key hkey ps hps] at hqs
      obtain rfl := Json.dict.inj (Option.some.inj hqs)
      obtain ⟨p', hp', rfl⟩ := List.mem_map.1 hq
      obtain ⟨ps', heq, hnodup⟩ := shaped.mappings key hkey _ hps
      obtain rfl := Json.dict.inj heq
      obtain rfl := eq_of_key hnodup hp' hp hname
      exact ihMapped key hkey ps hps p' hp'
    · exact fun key hkey ss hss => ⟨_, hlist key hkey ss hss, List.length_map ..⟩
    · intro key hkey ss ts hss hts p hp
      rw [hlist key hkey ss hss] at hts
      obtain rfl := Json.list.inj (Option.some.inj hts)
      obtain ⟨hmem, heq⟩ := mem_zip_map hp
      rw [heq]
      exact ihListed key (List.mem_cons_of_mem _ hkey) ss hss p.1 hmem
    · intro s hs
      obtain ⟨w, k, hw, hsame⟩ := halternative s hs
      exact ⟨codex w, k, by rw [hrewritten.items, hw, Option.map_some], hsame⟩

/-! ### What is never found in a compiled schema -/

mutual

theorem everyDict_true : ∀ v : Json, EveryDict (fun _ => True) v
  | .null => .null
  | .bool b => .bool b
  | .number t => .number t
  | .str t => .str t
  | .list xs => .list (everyDict_true_items xs)
  | .dict es => .dict trivial (everyDict_true_entries es)

theorem everyDict_true_items : ∀ (xs : List Json), ∀ x ∈ xs, EveryDict (fun _ => True) x
  | [], _, h => (List.not_mem_nil h).elim
  | y :: ys, x, h => by
    rcases List.mem_cons.1 h with heq | h
    · exact heq ▸ everyDict_true y
    · exact everyDict_true_items ys x h

theorem everyDict_true_entries :
    ∀ (es : List (Text × Json)), ∀ e ∈ es, EveryDict (fun _ => True) e.2
  | [], _, h => (List.not_mem_nil h).elim
  | (k, v) :: es, e, h => by
    rcases List.mem_cons.1 h with heq | h
    · exact heq ▸ everyDict_true v
    · exact everyDict_true_entries es e h

end

/-- An object without positional schemas. -/
abbrev NoTuple (es : List (Text × Json)) : Prop := lookup es "prefixItems" = none

theorem noTuple_anyOfCopied {cs : List Copied} (h : ∀ c ∈ cs, EveryDict NoTuple c.2) :
    EveryDict NoTuple (anyOfCopied cs).2 := by
  refine .dict (lookup_anyOf (by decide) _) fun e he => ?_
  obtain rfl := List.mem_singleton.1 he
  refine .list fun x hx => ?_
  obtain ⟨c, hc, rfl⟩ := List.mem_map.1 hx
  exact h c hc

theorem noTuple_superset {cs : List Copied} (h : ∀ c ∈ cs, EveryDict NoTuple c.2) :
    EveryDict NoTuple (tupleItemsSuperset cs).2 := by
  unfold tupleItemsSuperset
  rcases cs with _ | ⟨c, cs⟩
  · exact .dict rfl fun _ he => (List.not_mem_nil he).elim
  · dsimp only
    have hmem : ∀ u ∈ dedupeSchemas Prod.fst (c :: cs), EveryDict NoTuple u.2 :=
      fun u hu => h u (mem_dedupeSchemas hu)
    generalize dedupeSchemas Prod.fst (c :: cs) = unique at hmem
    rcases unique with _ | ⟨u, _ | ⟨u', us⟩⟩
    · exact noTuple_anyOfCopied hmem
    · exact hmem u List.mem_cons_self
    · exact noTuple_anyOfCopied hmem

theorem noTuple_tupleItems {cs : List Copied} (h : ∀ c ∈ cs, EveryDict NoTuple c.2)
    {existing : Option Copied} (hexisting : ∀ c, existing = some c → EveryDict NoTuple c.2)
    {w : Json} (hw : tupleItems cs existing = some w) : EveryDict NoTuple w := by
  have hsuperset := noTuple_superset h
  unfold tupleItems at hw
  rcases existing with _ | ⟨v, v'⟩
  · exact Option.some.inj hw ▸ hsuperset
  · cases v with
    | null | bool => exact Option.some.inj hw ▸ hsuperset
    | dict fs =>
      refine Option.some.inj hw ▸ noTuple_anyOfCopied fun c hc => ?_
      rcases List.mem_cons.1 (mem_dedupeSchemas hc) with rfl | hc
      · exact hsuperset
      · obtain rfl := List.mem_singleton.1 hc
        exact hexisting _ rfl
    | number | str | list => cases hw

theorem EveryDict.of_mem_values {good : List (Text × Json) → Prop} {f : Json → Json}
    {es : List (Text × Json)} (h : ∀ e ∈ es, EveryDict good (f e.2)) {e : Text × Json}
    (he : e ∈ mapValues f es) : EveryDict good e.2 := by
  obtain ⟨e', he', rfl⟩ := List.mem_map.1 he
  exact h e' he'

/-- The normalized schema has no positional schemas, whatever it was. -/
theorem noTuple_normalize (v : Json) : EveryDict NoTuple (normalizePrefixItems v) := by
  have hv := everyDict_true v
  induction hv with
  | null => exact .null
  | bool b => exact .bool b
  | number t => exact .number t
  | str t => exact .str t
  | list _ ih =>
    rw [normalizePrefixItems, normalizeItems_eq]
    refine .list fun x hx => ?_
    obtain ⟨y, hy, rfl⟩ := List.mem_map.1 hx
    exact ih y hy
  | @dict es _ _ ih =>
    rw [normalizePrefixItems_dict]
    have hvalues : ∀ e ∈ mapValues normalizePrefixItems es, EveryDict NoTuple e.2 :=
      fun e he => EveryDict.of_mem_values ih he
    have hrest : EveryDict NoTuple
        (.dict (pop "prefixItems" (mapValues normalizePrefixItems es))) :=
      .dict (lookup_pop_self ..) fun e he => hvalues e (mem_pop.1 he).1
    have hlookup : ∀ {key : String} {c : Copied},
        copiedAt es (mapValues normalizePrefixItems es) key = some c → EveryDict NoTuple c.2 := by
      intro key c hc
      rw [copiedAt_mapValues] at hc
      obtain ⟨a, ha, rfl⟩ := Option.map_eq_some_iff.1 hc
      exact ih _ (mem_of_lookup ha)
    rw [replaceTuple]
    rcases hcopied : copiedAt es (mapValues normalizePrefixItems es) "prefixItems" with
      _ | ⟨a, b⟩
    · exact hrest
    · have hb := hlookup hcopied
      cases a with
      | null | bool | number | str | dict => exact hrest
      | list ss =>
        cases b with
        | null | bool | number | str | dict => exact hrest
        | list ss' =>
          dsimp only
          rcases hitems : tupleItems (ss.zip ss')
            (copiedAt es (mapValues normalizePrefixItems es) "items") with _ | w
          · exact hrest
          · have hw : EveryDict NoTuple w := by
              refine noTuple_tupleItems (fun c hc => ?_) (fun c hc => hlookup hc) hitems
              cases hb with
              | list h => exact h c.2 (List.of_mem_zip hc).2
            cases hrest with
            | dict here h =>
              refine .dict ((Json.lookup_set_of_ne _ _ (by decide)).trans here) fun e he => ?_
              rcases mem_set he with rfl | he
              · exact hw
              · exact h e he

/-- What is true of every object that the strict transport makes. -/
structure Compiled (fs : List (Text × Json)) : Prop where
  default : lookup fs "default" = none
  prefixItems : lookup fs "prefixItems" = none
  closed : ∀ qs, lookup fs "properties" = some (.dict qs) →
    lookup fs "additionalProperties" ≠ none

/-- What the entries of an object are set to. -/
theorem strictEntries_shape (es compiled : List (Text × Json)) :
    strictEntries es compiled = pop "default" compiled ∨
      strictEntries es compiled = Json.set "additionalProperties" (.bool false)
        (pop "default" compiled) ∨
      ∃ names, strictEntries es compiled = Json.set "additionalProperties" (.bool false)
        (Json.set "required" (Json.ofTexts names) (pop "default" compiled)) := by
  unfold strictEntries
  dsimp only
  split
  · exact .inr (.inr ⟨_, rfl⟩)
  · split
    · split_ifs
      · exact .inr (.inl rfl)
      · exact .inl rfl
    · exact .inl rfl

theorem lookup_strictEntries {key : String}
    (hkey : key ∉ ["default", "required", "additionalProperties"])
    (es compiled : List (Text × Json)) :
    lookup (strictEntries es compiled) key = lookup compiled key := by
  simp only [List.mem_cons, not_or] at hkey
  obtain ⟨hdefault, hrequired, hadditional, -⟩ := hkey
  rcases strictEntries_shape es compiled with heq | heq | ⟨names, heq⟩
  · rw [heq, lookup_pop_of_ne hdefault]
  · rw [heq, Json.lookup_set_of_ne _ _ hadditional, lookup_pop_of_ne hdefault]
  · rw [heq, Json.lookup_set_of_ne _ _ hadditional, Json.lookup_set_of_ne _ _ hrequired,
      lookup_pop_of_ne hdefault]

theorem default_strictEntries (es compiled : List (Text × Json)) :
    lookup (strictEntries es compiled) "default" = none := by
  have hpop : lookup (pop "default" compiled) "default" = none := lookup_pop_self ..
  rcases strictEntries_shape es compiled with heq | heq | ⟨names, heq⟩
  · rw [heq, hpop]
  · rw [heq, Json.lookup_set_of_ne _ _ (by decide), hpop]
  · rw [heq, Json.lookup_set_of_ne _ _ (by decide), Json.lookup_set_of_ne _ _ (by decide), hpop]

theorem mem_strictEntries {es compiled : List (Text × Json)} {e : Text × Json}
    (h : e ∈ strictEntries es compiled) :
    e.2 = .bool false ∨ (∃ names, e.2 = Json.ofTexts names) ∨ e ∈ compiled := by
  have hpop : e ∈ pop "default" compiled → e ∈ compiled := fun he => (mem_pop.1 he).1
  rcases strictEntries_shape es compiled with heq | heq | ⟨names, heq⟩
  · rw [heq] at h
    exact .inr (.inr (hpop h))
  · rw [heq] at h
    rcases mem_set h with rfl | h
    · exact .inl rfl
    · exact .inr (.inr (hpop h))
  · rw [heq] at h
    rcases mem_set h with rfl | h
    · exact .inl rfl
    · rcases mem_set h with rfl | h
      · exact .inr (.inl ⟨names, rfl⟩)
      · exact .inr (.inr (hpop h))

theorem EveryDict.ofTexts {good : List (Text × Json) → Prop} (names : List Text) :
    EveryDict good (Json.ofTexts names) := by
  refine .list fun x hx => ?_
  obtain ⟨t, -, rfl⟩ := List.mem_map.1 hx
  exact .str t

theorem compiled_of_noTuple {v : Json} (h : EveryDict NoTuple v) :
    EveryDict Compiled (compileOpenaiStrict v) := by
  induction h with
  | null => exact .null
  | bool b => exact .bool b
  | number t => exact .number t
  | str t => exact .str t
  | list _ ih =>
    rw [compileOpenaiStrict, compileItems_eq]
    refine .list fun x hx => ?_
    obtain ⟨y, hy, rfl⟩ := List.mem_map.1 hx
    exact ih y hy
  | @dict es here _ ih =>
    have hvalues : ∀ e ∈ mapValues compileOpenaiStrict es, EveryDict Compiled e.2 :=
      fun e he => EveryDict.of_mem_values ih he
    rw [compileOpenaiStrict_dict]
    refine .dict ⟨default_strictEntries _ _, ?_, fun qs hqs => ?_⟩ fun e he => ?_
    · rw [lookup_strictEntries (by decide), lookup_mapValues, here]
      rfl
    · rw [lookup_strictEntries (by decide), lookup_mapValues] at hqs
      obtain ⟨w, hw, heq⟩ := Option.map_eq_some_iff.1 hqs
      cases w with
      | dict ps =>
        rw [strictEntries_of_properties _ hw, Json.lookup_set_self]
        exact Option.some_ne_none _
      | null | bool | number | str => cases heq
      | list xs =>
        rw [compileOpenaiStrict] at heq
        cases heq
    · rcases mem_strictEntries he with heq | ⟨names, heq⟩ | he
      · exact heq ▸ .bool false
      · exact heq ▸ .ofTexts names
      · exact hvalues e he

/-- **No object** that the strict transport makes has an entry `default` or `prefixItems`, and
none has `properties` alone, whatever it was made from. -/
theorem everyDict_codex (J : Json) : EveryDict Compiled (codex J) :=
  compiled_of_noTuple (noTuple_normalize J)

/-! ### What the checks tell -/

theorem of_itemPaths {bad : List (Text × Json) → Bool} {xs : List Json} {path : Text} {index : ℕ}
    (h : itemPaths bad path index xs = []) {x : Json} (hx : x ∈ xs) :
    ∃ path', objectPaths bad path' x = [] := by
  induction xs generalizing index with
  | nil => cases hx
  | cons y ys ih =>
    rw [itemPaths, List.append_eq_nil_iff] at h
    rcases List.mem_cons.1 hx with rfl | hx
    · exact ⟨_, h.1⟩
    · exact ih h.2 hx

theorem of_entryPaths {bad : List (Text × Json) → Bool} {es : List (Text × Json)} {path : Text}
    (h : entryPaths bad path es = []) {e : Text × Json} (he : e ∈ es) :
    ∃ path', objectPaths bad path' e.2 = [] := by
  induction es with
  | nil => cases he
  | cons f fs ih =>
    obtain ⟨k, v⟩ := f
    rw [entryPaths, List.append_eq_nil_iff] at h
    rcases List.mem_cons.1 he with rfl | he
    · exact ⟨_, h.1⟩
    · exact ih h.2 he

/-- A walk that finds nothing has seen every object. -/
theorem everyDict_of_objectPaths {bad : List (Text × Json) → Bool} {v : Json} {path : Text}
    (h : objectPaths bad path v = []) : EveryDict (fun es => bad es = false) v := by
  have hv := everyDict_true v
  induction hv generalizing path with
  | null => exact .null
  | bool b => exact .bool b
  | number t => exact .number t
  | str t => exact .str t
  | list _ ih =>
    refine .list fun x hx => ?_
    obtain ⟨path', hpath⟩ := of_itemPaths h hx
    exact ih x hx hpath
  | @dict es _ _ ih =>
    rw [objectPaths, List.append_eq_nil_iff] at h
    refine .dict ?_ fun e he => ?_
    · by_contra hbad
      rw [if_pos (by simpa using hbad)] at h
      cases h.1
    · obtain ⟨path', hpath⟩ := of_entryPaths h.2 he
      exact ih e he hpath

theorem EveryDict.and {good good' : List (Text × Json) → Prop} {v : Json}
    (h : EveryDict good v) (h' : EveryDict good' v) :
    EveryDict (fun es => good es ∧ good' es) v := by
  induction h with
  | null => exact .null
  | bool b => exact .bool b
  | number t => exact .number t
  | str t => exact .str t
  | list _ ih =>
    cases h' with
    | list h' => exact .list fun x hx => ih x hx (h' x hx)
  | dict here _ ih =>
    cases h' with
    | dict here' h' => exact .dict ⟨here, here'⟩ fun e he => ih e he (h' e he)

/-- The root of the schema of a model. -/
def ObjectRoot (J : Json) : Prop :=
  ∃ es, J = .dict es ∧ lookup es "anyOf" = none ∧
    lookup es "type" = some (.str "object".toList)

/-- **The checks** of a schema with the root of a model. -/
theorem validate_iff (name : Text) {J : Json} (hroot : ObjectRoot J) :
    validateStructuredOutputSchema name J = .ok () ↔
      EveryDict (fun es => openObject es = false ∧ lookup es "oneOf" = none) J := by
  have hsome : ∀ es : List (Text × Json), (lookup es "oneOf").isSome = false →
      lookup es "oneOf" = none := fun es h => Option.not_isSome_iff_eq_none.1 (by simp [h])
  constructor
  · intro h
    unfold validateStructuredOutputSchema at h
    split_ifs at h with hopen hone
    have hopen' := everyDict_of_objectPaths (not_not.1 hopen)
    have hone' := everyDict_of_objectPaths (not_not.1 hone)
    exact hopen'.and (hone'.mono hsome)
  · intro h
    obtain ⟨es, rfl, hanyOf, htype⟩ := hroot
    have hopen : dynamicObjectPaths (.dict es) = [] :=
      (h.mono fun _ hes => hes.1).objectPaths_eq _
    have hone : keywordPaths (.dict es) "oneOf" = [] :=
      (h.mono fun _ hes => by rw [hes.2]; rfl).objectPaths_eq _
    rw [validateStructuredOutputSchema, if_neg (not_not.2 hopen), if_neg (not_not.2 hone), hanyOf,
      htype]
    exact if_pos rfl

/-! ### Schemas that keep their properties have no reserved names -/

theorem lookup_eq_none_iff {es : List (Text × Json)} {key : String} :
    lookup es key = none ↔ key.toList ∉ es.map Prod.fst := by
  rw [lookup, Option.map_eq_none_iff, List.find?_eq_none, List.mem_map]
  constructor
  · rintro h ⟨e, he, hkey⟩
    exact h e he (by simpa using hkey)
  · intro h e he hkey
    exact h ⟨e, he, by simpa using hkey⟩

theorem Alternative.everyDict {good : List (Text × Json) → Prop} {k : ℕ} {w c : Json}
    (h : Alternative k w c) (hw : EveryDict good w) : EveryDict good c := by
  induction h with
  | self w => exact hw
  | anyOf hu _ ih =>
    cases hw with
    | dict _ hvalues =>
      cases hvalues _ (List.mem_singleton_self _) with
      | list hus => exact ih (hus _ hu)

theorem Keeps.exists_dict {J K : Json} (h : Keeps J K) : ∃ fs, K = .dict fs := by
  cases h with
  | mk => exact ⟨_, rfl⟩

/-- A mapping whose names are all found in a compiled mapping has no reserved names. -/
theorem names_of_compiled {ps qs : List (Text × Json)}
    (hchecked : openObject ps = false ∧ lookup ps "oneOf" = none) (hqs : Compiled qs)
    (hnames : ∀ name, name ∈ qs.map Prod.fst ↔ name ∈ ps.map Prod.fst)
    (hdict : ∀ p ∈ ps, ∃ es, p.2 = .dict es)
    (hmapped : ∀ p ∈ ps, ∀ q ∈ qs, q.1 = p.1 → ∃ fs, q.2 = .dict fs) :
    ∀ name ∈ reservedNames, lookup ps name = none := by
  have htransfer : ∀ {name : String}, lookup qs name = none ↔ lookup ps name = none := by
    intro name
    rw [lookup_eq_none_iff, lookup_eq_none_iff, hnames]
  have hadditional : lookup ps "additionalProperties" = none := by
    rcases hv : lookup ps "additionalProperties" with _ | v
    · rfl
    · -- the schema of such a property looks like one for arbitrary keys
      obtain ⟨es, hes⟩ := hdict _ (mem_of_lookup hv)
      dsimp only at hes
      have hopen := hchecked.1
      rw [openObject, hv, hes] at hopen
      cases hopen
  have hproperties : lookup ps "properties" = none := by
    rcases hv : lookup ps "properties" with _ | v
    · rfl
    · rcases hw : lookup qs "properties" with _ | w
      · rw [htransfer.1 hw] at hv
        cases hv
      · obtain ⟨fs, hfs⟩ := hmapped _ (mem_of_lookup hv) _ (mem_of_lookup hw) rfl
        dsimp only at hfs
        rw [hfs] at hw
        exact absurd (htransfer.2 hadditional) (hqs.closed fs hw)
  intro name hname
  simp only [reservedNames, List.mem_cons, List.not_mem_nil, or_false] at hname
  rcases hname with rfl | rfl | rfl | rfl | rfl
  · exact htransfer.1 hqs.default
  · exact htransfer.1 hqs.prefixItems
  · exact hproperties
  · exact hchecked.2
  · exact hadditional

/-- **A schema that the checks let through** and that keeps its properties has no reserved
names. -/
theorem Keeps.named {good : List (Text × Json) → Prop} {J K : Json} (h : Keeps J K)
    (hJ : Schema good J)
    (hchecked : EveryDict (fun es => openObject es = false ∧ lookup es "oneOf" = none) J)
    (hK : EveryDict Compiled K) : Schema Named J := by
  induction h with
  | @mk es fs image names required mapped lengths listed alternatives elements ihMapped ihListed
      ihElements =>
    cases hJ with
    | mk _ shaped smapped slisted sitems =>
      have hvalue : ∀ {key : String} {v : Json}, lookup es key = some v →
          EveryDict (fun es => openObject es = false ∧ lookup es "oneOf" = none) v := by
        intro key v hv
        cases hchecked with
        | dict _ hvalues => exact hvalues _ (mem_of_lookup hv)
      have himage : ∀ {key : String} {v : Json}, lookup fs key = some v →
          EveryDict Compiled v := by
        intro key v hv
        cases hK with
        | dict _ hvalues => exact hvalues _ (mem_of_lookup hv)
      have helement : ∀ s, Element es s → EveryDict Compiled (image s) := by
        intro s hs
        obtain ⟨w, k, hw, halternative⟩ := alternatives s hs
        exact halternative.everyDict (himage hw)
      refine .mk ⟨fun key hkey ps hps => ?_, fun v hv => hvalue hv⟩ shaped
        (fun key hkey ps hps p hp => ?_) (fun key hkey ss hss s hs => ?_) fun gs hgs => ?_
      · obtain ⟨qs, hqs, hnames⟩ := names key hkey ps hps
        have hschema := smapped key hkey ps hps
        have hmapped := mapped key hkey ps qs hps hqs
        cases hvalue hps with
        | dict hps' _ =>
          cases himage hqs with
          | dict hqs' _ =>
            exact names_of_compiled hps' hqs' hnames (fun p hp => (hschema p hp).exists_dict)
              fun p hp q hq hname => (hmapped p hp q hq hname).exists_dict
      · obtain ⟨qs, hqs, hnames⟩ := names key hkey ps hps
        obtain ⟨q, hq, hname⟩ := List.mem_map.1 ((hnames p.1).2 (List.mem_map_of_mem hp))
        have hschema := smapped key hkey ps hps p hp
        cases hvalue hps with
        | dict _ hps' =>
          cases himage hqs with
          | dict _ hqs' =>
            exact ihMapped key hkey ps qs hps hqs p hp q hq hname hschema (hps' p hp) (hqs' q hq)
      · have hschema := slisted key hkey ss hss s hs
        cases hvalue hss with
        | list hss' =>
          rcases List.mem_cons.1 hkey with rfl | hkey
          · have hs' : Element es s := .position hss hs
            exact ihElements s hs' hschema (hss' s hs) (helement s hs')
          · obtain ⟨ts, hts, hlength⟩ := lengths key hkey ss hss
            obtain ⟨t, hzip⟩ := exists_zip_left hlength hs
            cases himage hts with
            | list hts' =>
              exact ihListed key hkey ss ts hss hts (s, t) hzip hschema (hss' s hs)
                (hts' t (List.of_mem_zip hzip).2)
      · have hs : Element es (.dict gs) := .rest hgs
        exact ihElements _ hs (sitems gs hgs) (hvalue hgs) (helement _ hs)

/-! ### The compiled schema -/

/-- The definitions of a schema. -/
def definitions (J : Json) : List (Text × Json) :=
  match J with
  | .dict es =>
    match lookup es "$defs" with
    | some (.dict ds) => ds
    | _ => []
  | _ => []

/-- What the strict transport is to make of the schema `J` of the model `name`. -/
structure Transported (holds : String → Json → Json → Prop) (name : Text) (J K : Json) :
    Prop where
  compiled : compileTransportSchema name J .codex = .ok K
  keeps : Keeps J K
  noDefault : keywordPaths K "default" = []
  noPrefixItems : keywordPaths K "prefixItems" = []
  accepts : ∀ v, Accepts holds true (definitions J) J v →
    Accepts holds false (definitions K) K v
  fixed : compileTransportSchema name K .codex = .ok K

theorem compileTransportSchema_eq (name : Text) {J : Json} (backend : TransportBackend)
    (h : validateStructuredOutputSchema name J = .ok ()) :
    compileTransportSchema name J backend = .ok (transportSchema backend J) := by
  rw [compileTransportSchema, h]
  rfl

theorem of_compileTransportSchema {name : Text} {J K : Json} {backend : TransportBackend}
    (h : compileTransportSchema name J backend = .ok K) :
    validateStructuredOutputSchema name J = .ok () ∧ K = transportSchema backend J := by
  unfold compileTransportSchema at h
  rcases hchecked : validateStructuredOutputSchema name J with e | u
  · rw [hchecked] at h
    cases h
  · rw [hchecked] at h
    exact ⟨rfl, (Except.ok.inj h).symm⟩

theorem definitions_schema {J : Json} (h : Schema Clean J) :
    ∀ d ∈ definitions J, Schema Clean d.2 := by
  cases h with
  | @mk es clean shaped mapped listed items =>
    unfold definitions
    dsimp only
    rcases hdefs : lookup es "$defs" with _ | v
    · exact fun d hd => (List.not_mem_nil hd).elim
    · cases v with
      | dict ds => exact mapped "$defs" (by decide) ds hdefs
      | null | bool | number | str | list => exact fun d hd => (List.not_mem_nil hd).elim

theorem definitions_codex {J : Json} (h : Schema Clean J) :
    definitions (codex J) = mapValues codex (definitions J) := by
  cases h with
  | @mk es clean shaped mapped listed items =>
    obtain ⟨fs, hfs, hrewritten⟩ := rewritten shaped clean
    have hother := hrewritten.others "$defs" (by decide)
    rw [hfs]
    unfold definitions
    dsimp only
    rcases hdefs : lookup es "$defs" with _ | v
    · rw [hother, hdefs]
      rfl
    · obtain ⟨ds, rfl, -⟩ := shaped.mappings "$defs" (by decide) v hdefs
      rw [hother, hdefs, Option.map_some,
        codex_of_mapping clean (by decide) hdefs (mapped "$defs" (by decide) ds hdefs)]

theorem objectRoot_codex {J : Json} (h : Schema Clean J) (hroot : ObjectRoot J) :
    ObjectRoot (codex J) := by
  obtain ⟨es, rfl, hanyOf, htype⟩ := hroot
  cases h with
  | mk clean shaped =>
    obtain ⟨fs, hfs, hrewritten⟩ := rewritten shaped clean
    refine ⟨fs, hfs, ?_, ?_⟩
    · rw [hrewritten.others "anyOf" (by decide), hanyOf]
      rfl
    · rw [hrewritten.others "type" (by decide), htype]
      rfl

theorem Tidy.checked {fs : List (Text × Json)} (h : Tidy fs) :
    openObject fs = false ∧ lookup fs "oneOf" = none := by
  refine ⟨?_, h.oneOf⟩
  unfold openObject
  rcases hadditional : lookup fs "additionalProperties" with _ | v
  · rfl
  · rw [h.additional v hadditional]

/-- **A clean schema** is transported as it should be. -/
theorem Schema.transported (holds : String → Json → Json → Prop) (name : Text) {J : Json}
    (h : Schema Clean J) (hroot : ObjectRoot J) : Transported holds name J (codex J) := by
  have hfixed := (validate_iff name (objectRoot_codex h hroot)).2
    (h.tidy.mono fun _ htidy => htidy.checked)
  refine ⟨compileTransportSchema_eq name .codex ((validate_iff name hroot).2 h.everyDict), h.keeps,
    h.keywordPaths_eq.1, h.keywordPaths_eq.2, ?_, ?_⟩
  · rintro v ⟨n, hn⟩
    rw [definitions_codex h]
    exact ⟨3 * n, hn.compiled (definitions_schema h) h⟩
  · rw [compileTransportSchema_eq name .codex hfixed]
    exact congrArg Except.ok h.codex_codex

/-! ### A model with one field -/

/-- The schema of a text. -/
def textEntries : List (Text × Json) := [("type".toList, .str "string".toList)]

/-- The schema of a model with the text field `field`. -/
def recordEntries (field : String) : List (Text × Json) :=
  [("additionalProperties".toList, .bool false),
    ("properties".toList, .dict [(field.toList, .dict textEntries)]),
    ("required".toList, Json.ofTexts [field.toList]),
    ("type".toList, .str "object".toList)]

theorem schema_text {good : List (Text × Json) → Prop} (h : good textEntries) :
    Schema good (.dict textEntries) := by
  have hnone : ∀ key ∈ schemaKeys, lookup textEntries key = none := by decide
  refine .mk h ⟨by decide, fun key hkey v hv => ?_, fun key hkey v hv => ?_, fun v hv => ?_,
    fun v hv => ?_, fun e he _ => ?_, rfl⟩ (fun key hkey ps hps => ?_)
    (fun key hkey ss hss => ?_) fun gs hgs => ?_
  · rw [hnone key (List.mem_append_left _ (List.mem_append_left _ hkey))] at hv
    cases hv
  · rw [hnone key (List.mem_append_left _ (List.mem_append_right _ hkey))] at hv
    cases hv
  · cases hv
  · cases hv
  · obtain rfl := List.mem_singleton.1 he
    exact .str _
  · rw [hnone key (List.mem_append_left _ (List.mem_append_left _ hkey))] at hps
    cases hps
  · rw [hnone key (List.mem_append_left _ (List.mem_append_right _ hkey))] at hss
    cases hss
  · cases hgs

theorem lookup_record (field : String) :
    ∀ key ∈ schemaKeys, key ≠ "properties" → lookup (recordEntries field) key = none := by
  intro key hkey hne
  rw [lookup_eq_none_iff]
  revert key
  change ∀ key ∈ schemaKeys, key ≠ "properties" → key.toList ∉
    ["additionalProperties".toList, "properties".toList, "required".toList, "type".toList]
  decide

theorem schema_record {good : List (Text × Json) → Prop} (field : String)
    (h : good (recordEntries field)) (htext : good textEntries) :
    Schema good (.dict (recordEntries field)) := by
  have hproperties : lookup (recordEntries field) "properties" =
      some (.dict [(field.toList, .dict textEntries)]) := rfl
  have hlist : ∀ key ∈ listKeys, lookup (recordEntries field) key = none := fun key hkey =>
    lookup_record field key (List.mem_append_left _ (List.mem_append_right _ hkey)) fun heq => by
      rw [heq] at hkey
      revert hkey
      decide
  have hmapping : ∀ key ∈ mappingKeys, ∀ v, lookup (recordEntries field) key = some v →
      v = .dict [(field.toList, .dict textEntries)] := by
    intro key hkey v hv
    by_cases heq : key = "properties"
    · rw [heq, hproperties] at hv
      exact (Option.some.inj hv).symm
    · rw [lookup_record field key (List.mem_append_left _ (List.mem_append_left _ hkey)) heq] at hv
      cases hv
  refine .mk h ⟨?_, fun key hkey v hv => ?_, fun key hkey v hv => ?_, fun v hv => ?_,
    fun v hv => ?_, fun e he hplain => ?_, rfl⟩ (fun key hkey ps hps p hp => ?_)
    (fun key hkey ss hss => ?_) fun gs hgs => ?_
  · change ["additionalProperties".toList, "properties".toList, "required".toList,
      "type".toList].Nodup
    decide
  · exact ⟨_, hmapping key hkey v hv, List.nodup_singleton _⟩
  · rw [hlist key hkey] at hv
    cases hv
  · rw [lookup_record field "items" (by decide) (by decide)] at hv
    cases hv
  · exact (Option.some.inj hv).symm
  · simp only [recordEntries, List.mem_cons, List.not_mem_nil, or_false] at he
    rcases he with rfl | rfl | rfl | rfl
    · exact .bool false
    · exact absurd (List.mem_map_of_mem (by decide)) hplain
    · exact .ofTexts _
    · exact .str _
  · obtain rfl := Json.dict.inj (hmapping key hkey _ hps)
    obtain rfl := List.mem_singleton.1 hp
    exact schema_text htext
  · rw [hlist key hkey] at hss
    cases hss
  · rw [lookup_record field "items" (by decide) (by decide)] at hgs
    cases hgs

theorem root_record (field : String) : ObjectRoot (.dict (recordEntries field)) :=
  ⟨_, rfl, rfl, rfl⟩

theorem clean_text : Clean textEntries := by
  refine ⟨⟨fun key hkey ps hps => ?_, fun v hv => ?_⟩, fun ss hss => ?_, fun hobject => ?_⟩
  · have hnone : ∀ key ∈ mappingKeys, lookup textEntries key = none := by decide
    rw [hnone key hkey] at hps
    cases hps
  · cases hv
  · cases hss
  · rcases hobject with ⟨ps, hps⟩ | htype
    · cases hps
    · exact absurd (Json.str.inj (Option.some.inj htype)) (by decide)

theorem clean_record {field : String} (h : field ∉ reservedNames) :
    Clean (recordEntries field) := by
  refine ⟨⟨fun key hkey ps hps name hname => ?_, fun v hv => ?_⟩, fun ss hss => ?_, fun _ => rfl⟩
  · have hps' : ps = [(field.toList, .dict textEntries)] := by
      by_cases heq : key = "properties"
      · rw [heq] at hps
        exact (Json.dict.inj (Option.some.inj hps)).symm
      · rw [lookup_record field key (List.mem_append_left _ (List.mem_append_left _ hkey)) heq]
          at hps
        cases hps
    rw [hps', lookup_eq_none_iff, List.map_singleton, List.mem_singleton]
    exact fun heq => h (String.toList_injective heq ▸ hname)
  · rw [lookup_record field "default" (by decide) (by decide)] at hv
    cases hv
  · rw [lookup_record field "prefixItems" (by decide) (by decide)] at hss
    cases hss

/-! ### The strict transport -/

end Llm
end OpenFoamAgent
