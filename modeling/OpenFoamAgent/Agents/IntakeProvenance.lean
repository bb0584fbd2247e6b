/-
# What an accepted intake preserves

A specification that `validate_intake_provenance` lets pass, against the input of the
user: where the evidence of a fact stands, which fact carries a surviving assignment,
and which number stands for a number of the active turns
(`intake_preserves`).

Two numbers are close up to a relative error of `1e-12` or a difference of
`1e-12`. `numbers_not_preserved` shows what this and the other tolerances of the
validation let pass.
-/
import OpenFoamAgent.Agents.Intake

namespace OpenFoamAgent
namespace Agents

open Python Contracts

variable {unicode : UnicodeTables} {sha256 : Text → Text}

/-! ### Evidence -/

/-- A text stands at a position of another one. -/
def OccursAt (evidence text : Text) (position : ℕ) : Prop :=
  (text.drop position).take evidence.length = evidence

/-- The locator of the fact cuts its evidence out of the input it names, and the evidence
stands nowhere else. -/
def Located (sha256 : Text → Text) (sources : List EvidenceSource) (fact : IntakeFact) : Prop :=
  ∃ evidence, ∃ source ∈ sources, ∃ position,
    fact.evidence = some evidence ∧
      fact.evidenceLocator = some (locatorAt sha256 evidence source position) ∧
      OccursAt evidence source.text position ∧
      ∀ other ∈ sources, ∀ p, OccursAt evidence other.text p → other = source ∧ p = position

theorem mem_positions {evidence text : Text} (hne : evidence ≠ []) {p : ℕ} :
    p ∈ positions evidence text ↔ OccursAt evidence text p := by
  unfold positions OccursAt
  rw [List.mem_filter, List.isPrefixOf_iff_prefix, List.mem_range,
    List.prefix_iff_eq_take, eq_comm (a := evidence)]
  refine ⟨And.right, fun h => ⟨?_, h⟩⟩
  by_contra hlt
  rw [List.drop_eq_nil_of_le (by omega), List.take_nil] at h
  exact hne h.symm

/-- A list of one element comes from one place. -/
theorem eq_of_flatMap_singleton {α β : Type} {l : List α} {f : α → List β} {x : β}
    (h : l.flatMap f = [x]) :
    ∃ a ∈ l, f a = [x] ∧ ∀ b ∈ l, f b ≠ [] → b = a := by
  induction l with
  | nil => cases h
  | cons a l ih =>
    rw [List.flatMap_cons, List.append_eq_singleton_iff] at h
    rcases h with ⟨hnil, h⟩ | ⟨h, hnil⟩
    · obtain ⟨a', ha', hx, hunique⟩ := ih h
      refine ⟨a', List.mem_cons_of_mem _ ha', hx, fun b hb hne => ?_⟩
      rcases List.mem_cons.1 hb with rfl | hb
      · exact absurd hnil hne
      · exact hunique b hb hne
    · refine ⟨a, List.mem_cons_self, h, fun b hb hne => ?_⟩
      rcases List.mem_cons.1 hb with rfl | hb
      · rfl
      · exact absurd (List.flatMap_eq_nil_iff.1 hnil b hb) hne

/-- A located fact stands at the only place of its evidence. -/
theorem locateFact_spec {sources : List EvidenceSource} {fact fact' : IntakeFact}
    (h : locateFact sha256 sources fact = .ok fact') :
    (fact'.source = .user → Located sha256 sources fact') ∧
      fact' = { fact with evidenceLocator := fact'.evidenceLocator } := by
  unfold locateFact at h
  split at h
  · rename_i huser
    split at h
    · cases h
    · rename_i evidence hevidence
      obtain ⟨locator, hlocator, h⟩ := Traversal.bind_eq_ok.1 h
      have hfact : fact' = { fact with evidenceLocator := some locator } := by
        split at h
        · cases h
        · cases h
          rfl
      subst hfact
      refine ⟨fun _ => ?_, rfl⟩
      unfold issueUserEvidenceLocator at hlocator
      split at hlocator
      · cases hlocator
      rename_i hne
      split at hlocator
      · cases hlocator
      · rename_i locator' hsingle
        obtain rfl := Except.ok.inj hlocator
        obtain ⟨source, hsource, hpositions, hunique⟩ := eq_of_flatMap_singleton hsingle
        have hne : evidence ≠ [] := fun hnil => hne ⟨hnil, List.ne_nil_of_mem hsource⟩
        obtain ⟨position, hposition, hlocated⟩ := List.map_eq_singleton_iff.1 hpositions
        refine ⟨evidence, source, hsource, position, hevidence, congrArg some hlocated.symm, ?_,
          fun other hother p hp => ?_⟩
        · rw [← mem_positions hne, hposition]
          exact List.mem_cons_self
        · rw [← mem_positions hne] at hp
          have hother' := hunique other hother fun hnil => by
            rw [List.map_eq_nil_iff] at hnil
            rw [hnil] at hp
            cases hp
          subst hother'
          rw [hposition] at hp
          exact ⟨rfl, List.mem_singleton.1 hp⟩
      · cases hlocator
  · rename_i hsource
    cases h
    exact ⟨fun huser => absurd huser hsource, rfl⟩

/-! ### Numbers -/

/-- The numbers of a text are those of its parts, when the separator is no part of a number. -/
theorem finiteNumbers_intercalate {c : Char} (havoids : finiteNumberPattern.avoids c = true)
    (parts : List Text) :
    finiteNumbers (List.intercalate [c] parts) = parts.flatMap finiteNumbers := by
  unfold finiteNumbers
  rw [Pattern.findAll_intercalate havoids (by decide), List.filterMap_flatMap]

theorem finiteNumbers_joinLines (texts : List Text) :
    finiteNumbers (joinLines texts) = texts.flatMap finiteNumbers :=
  finiteNumbers_intercalate (by decide) texts

/-- The numbers of a fact are those of its value and of its unit. -/
theorem mem_finiteNumbers_factText {fact : IntakeFact} {n : Text × Binary64}
    (h : n ∈ finiteNumbers (factText fact)) :
    n ∈ finiteNumbers fact.value ∨ n ∈ finiteNumbers (fact.unit.getD []) := by
  unfold factText at h
  rw [finiteNumbers_intercalate (by decide)] at h
  obtain ⟨part, hpart, hn⟩ := List.mem_flatMap.1 h
  rcases List.mem_cons.1 (List.mem_filter.1 hpart).1 with rfl | hunit
  · exact .inl hn
  · obtain rfl := List.mem_singleton.1 hunit
    exact .inr hn

/-- The text holds one number with a unit, and this number is, in SI units, the quantity of the
fact; the fact states the quantity in its own unit. -/
def Conversion (fact : IntakeFact) (evidence token : Text) : Prop :=
  ∃ quantity unit scale offset si,
    fact.quantity = some quantity ∧ unitPairs evidence = [(token, unit)] ∧
      units.lookup unit = some (scale, offset, quantity.dimensions) ∧
      siValue quantity = .ok si ∧
      closeConversion (floatOf token * scale + offset) si = true ∧
      (∀ u ∈ fact.unit, u = quantity.unit) ∧
      ∃ n ∈ finiteNumbers fact.value, closeConversion n.2 quantity.value = true

theorem verifiedUnitSource_spec {fact : IntakeFact} {evidence : Text}
    {numbers : List (Text × Binary64)} (h : verifiedUnitSource fact evidence = .ok numbers) :
    ∀ n ∈ numbers, Conversion fact evidence n.1 ∧ n.2 = floatOf n.1 := by
  unfold verifiedUnitSource at h
  split at h
  · rename_i quantity value unit hquantity hpairs
    split at h
    · cases h
    rename_i scale offset dimensions hunit
    split at h
    · cases h
      exact nofun
    rename_i hdimensions
    split at h
    · cases h
    rename_i si hsi
    split at h
    · cases h
      exact nofun
    rename_i hclose
    split at h
    · cases h
    rename_i hfactUnit
    split at h
    · cases h
    rename_i hvalue
    cases h
    intro n hn
    obtain rfl := List.mem_singleton.1 hn
    refine ⟨⟨quantity, unit, scale, offset, si, hquantity, hpairs, ?_, hsi, by simpa using hclose,
      fun u hu => ?_, by simpa using hvalue⟩, rfl⟩
    · rw [hunit, Decidable.not_not.1 hdimensions]
    · by_contra hne
      exact hfactUnit ((Option.any_eq_true _ _).2 ⟨u, hu, by simpa using hne⟩)
  · cases h
    exact nofun

/-- A fact of the user holds a close number, or its evidence converts one. -/
def Represented (facts : List IntakeFact) (value : Binary64) : Prop :=
  ∃ fact ∈ facts, fact.source = .user ∧
    ((fact.category ≠ .context ∧
        ∃ n, (n ∈ finiteNumbers fact.value ∨ n ∈ finiteNumbers (fact.unit.getD [])) ∧
          closeNumber value n.2 = true) ∨
      ∃ token, Conversion fact (fact.evidence.getD []) token ∧
        closeNumber value (floatOf token) = true)

theorem represented_of_mem {facts : List IntakeFact} {numbers : List (Text × Binary64)}
    (h : representedNumbers facts = .ok numbers) {n : Text × Binary64} (hn : n ∈ numbers)
    {value : Binary64} (hclose : closeNumber value n.2 = true) : Represented facts value := by
  unfold representedNumbers at h
  obtain ⟨converted, hconverted, h⟩ := Traversal.bind_eq_ok.1 h
  cases h
  rcases List.mem_append.1 hn with hn | hn
  · rw [finiteNumbers_joinLines] at hn
    obtain ⟨text, htext, hn⟩ := List.mem_flatMap.1 hn
    obtain ⟨fact, hfact, rfl⟩ := List.mem_map.1 htext
    obtain ⟨hmem, hkind⟩ := List.mem_filter.1 hfact
    obtain ⟨hcategory, huser⟩ := of_decide_eq_true hkind
    exact ⟨fact, hmem, huser, .inl ⟨hcategory, n, mem_finiteNumbers_factText hn, hclose⟩⟩
  · obtain ⟨ns, hns, hn⟩ := List.mem_flatten.1 hn
    obtain ⟨fact, hfact, hok⟩ := Traversal.ok_of_mem_mapM hconverted hns
    unfold convertedNumbers at hok
    split at hok
    · rename_i huser
      obtain ⟨hconversion, hvalue⟩ := verifiedUnitSource_spec hok n hn
      exact ⟨fact, hfact, huser.1, .inr ⟨n.1, hconversion, hvalue ▸ hclose⟩⟩
    · cases hok
      cases hn

/-! ### Assignments -/

/-- The fact carries the value of an assignment. -/
def Carries (fact : IntakeFact) (o : Occurrence) : Prop :=
  finiteNumbers fact.value = [] ∨
    (∃ n ∈ finiteNumbers fact.value, closeNumber n.2 (floatOf o.value) = true) ∨
    ∃ token, Conversion fact o.evidence token

theorem checkAssignment_spec {spec : CFDIntakeSpec} {key : Text} {o : Occurrence}
    (h : checkAssignment spec (key, o) = .ok ()) :
    ∃ fact, targetFact spec key = some fact ∧ fact.source = .user ∧ Carries fact o := by
  unfold checkAssignment at h
  split at h
  · cases h
  rename_i fact hfact
  split at h
  · cases h
  rename_i hsource
  refine ⟨fact, hfact, Decidable.not_not.1 hsource, ?_⟩
  dsimp only at h
  split at h
  · split at h
    · cases h
    · obtain ⟨numbers, hnumbers, h⟩ := Traversal.bind_eq_ok.1 h
      split at h
      · cases h
      · rename_i hne
        obtain ⟨n, hn⟩ := List.exists_mem_of_ne_nil numbers hne
        exact .inr (.inr ⟨n.1, (verifiedUnitSource_spec hnumbers n hn).1⟩)
  · rename_i hvalues
    by_cases hnil : finiteNumbers fact.value = []
    · exact .inl hnil
    · have hany := not_and.1 hvalues hnil
      exact .inr (.inl (by simpa using hany))

/-! ### The validation -/

/-- The steps of a validation that lets a specification pass. -/
theorem validateIntakeProvenance_ok {spec spec' : CFDIntakeSpec} {request : UserRequest}
    (h : validateIntakeProvenance unicode sha256 spec request = .ok spec') :
    (∃ facts : List IntakeFact, facts.mapM (locateFact sha256 (userEvidenceSources request)) = .ok spec'.facts) ∧
      (∀ target ∈ cancelledTargets unicode request.turns, spec'.fact target = none) ∧
      (∀ assignment ∈ (readTurns unicode request.turns).occurrences.items,
        checkAssignment spec' assignment = .ok ()) ∧
      ∃ represented, representedNumbers spec'.facts = .ok represented ∧
        missingNumbers (finiteNumbers (joinLines (activeTexts unicode request.turns))) represented =
          [] := by
  unfold validateIntakeProvenance at h
  obtain ⟨facts, hfacts, h⟩ := Traversal.bind_eq_ok.1 h
  obtain ⟨⟨⟩, hcancelled, h⟩ := Traversal.bind_eq_ok.1 h
  obtain ⟨⟨⟩, hassignments, h⟩ := Traversal.bind_eq_ok.1 h
  obtain ⟨⟨⟩, hquantities, h⟩ := Traversal.bind_eq_ok.1 h
  obtain ⟨⟨⟩, hambiguities, h⟩ := Traversal.bind_eq_ok.1 h
  obtain ⟨represented, hrepresented, h⟩ := Traversal.bind_eq_ok.1 h
  dsimp only at h
  split at h
  · cases h
  rename_i hmissing
  obtain ⟨⟨⟩, hready, h⟩ := Traversal.bind_eq_ok.1 h
  cases h
  refine ⟨⟨_, hfacts⟩, fun target htarget => ?_, fun assignment hassignment =>
    Traversal.ok_of_forM hassignments hassignment, represented, hrepresented,
    Decidable.not_not.1 hmissing⟩
  have hnone := Traversal.ok_of_forM hcancelled htarget
  split at hnone
  · cases hnone
  · rename_i hsome
    exact Option.not_isSome_iff_eq_none.1 hsome

/-- **What an accepted intake preserves.** Each fact of the user stands at one place of the input,
each number of the active turns is represented by a fact of the user, and each surviving
assignment is carried by the fact of its target. -/
theorem intake_preserves {spec spec' : CFDIntakeSpec} {request : UserRequest}
    (h : validateIntakeProvenance unicode sha256 spec request = .ok spec') :
    (∀ fact ∈ spec'.facts, fact.source = .user →
        Located sha256 (userEvidenceSources request) fact) ∧
      (∀ text ∈ activeTexts unicode request.turns, ∀ n ∈ finiteNumbers text,
        Represented spec'.facts n.2) ∧
      ∀ t o, Survives unicode request.turns t o →
        ∃ fact, targetFact spec' t = some fact ∧ fact.source = .user ∧ Carries fact o := by
  obtain ⟨⟨facts, hfacts⟩, _, hassignments, represented, hrepresented, hmissing⟩ :=
    validateIntakeProvenance_ok h
  refine ⟨fun fact hfact => ?_, fun text htext n hn => ?_, fun t o hsurvives => ?_⟩
  · obtain ⟨_, _, hlocated⟩ := Traversal.ok_of_mem_mapM hfacts hfact
    exact (locateFact_spec hlocated).1
  · have hsupplied : n ∈ finiteNumbers (joinLines (activeTexts unicode request.turns)) := by
      rw [finiteNumbers_joinLines]
      exact List.mem_flatMap.2 ⟨text, htext, hn⟩
    unfold missingNumbers at hmissing
    rw [List.map_eq_nil_iff, List.filter_eq_nil_iff] at hmissing
    have hany := hmissing n hsupplied
    rw [Bool.not_eq_true, Bool.not_eq_false', List.any_eq_true] at hany
    obtain ⟨m, hm, hclose⟩ := hany
    exact represented_of_mem hrepresented hm hclose
  · exact checkAssignment_spec (hassignments (t, o) (Dict.mem_items.2 (get_of_survives _ hsurvives)))

/-! ### Requests -/

/-- A length of two millimetres, assigned by name. -/
def gapRequest : UserRequest := { prompt := "gap.width=2 mm".toList }

/-- The fact for it, in metres. -/
def gapFact : IntakeFact where
  id := "gap.width".toList
  category := .geometry
  value := "0.002".toList
  unit := some "m".toList
  quantity := some ⟨nearestBinary64 false 2 (-3), "m".toList, [0, 1, 0, 0, 0, 0, 0]⟩
  source := .user
  evidence := some "gap.width=2 mm".toList

/-- A specification that asks the user for more. -/
def blocked (facts : List IntakeFact) : CFDIntakeSpec := { facts, status := .needsUserInput }

/-- A fact behind the validation, located in the only turn. -/
def located (fact : IntakeFact) (turn : Text) (position : ℕ) : IntakeFact :=
  { fact with
    evidenceLocator := some (locatorAt id (fact.evidence.getD []) ⟨.conversationTurn, 0, turn⟩ position) }

/-- The converted length is accepted. -/
theorem intake_preserves_conversion :
    validateIntakeProvenance asciiTables id (blocked [gapFact]) gapRequest =
        .ok (blocked [located gapFact "gap.width=2 mm".toList 0]) ∧
      Located id (userEvidenceSources gapRequest) (located gapFact "gap.width=2 mm".toList 0) := by
  have h : validateIntakeProvenance asciiTables id (blocked [gapFact]) gapRequest =
      .ok (blocked [located gapFact "gap.width=2 mm".toList 0]) := by
    decide +kernel
  exact ⟨h, (intake_preserves h).1 (located gapFact "gap.width=2 mm".toList 0) List.mem_cons_self rfl⟩

/-- A fact of the user as a model states it. -/
def userFact (id value evidence : String) : IntakeFact where
  id := id.toList
  category := .property
  value := value.toList
  source := .user
  evidence := some evidence.toList

/-- A fact that converts the other number of its line. -/
def otherGapFact : IntakeFact :=
  { gapFact with
    value := "0.01".toList
    quantity := some ⟨nearestBinary64 false 1 (-2), "m".toList, [0, 1, 0, 0, 0, 0, 0]⟩
    evidence := some "width=5 or 10 mm".toList }

/-- The validation lets the facts pass for a conversation of one turn. -/
def Passes (facts : List IntakeFact) (turn : String) : Prop :=
  ∃ spec', validateIntakeProvenance asciiTables id (blocked facts) { prompt := turn.toList } =
    .ok spec'

/-- Numbers of the user that no fact preserves: one below `1e-12`, for which a number half as
large stands; one whose fact states no number; one whose fact converts another number of its
line. -/
theorem numbers_not_preserved :
    (Passes [userFact "flow.rate" "1e-13" "flow.rate=2e-13"] "flow.rate=2e-13" ∧
        ∃ stated represented,
          finiteNumbers "flow.rate=2e-13".toList = [("2e-13".toList, .finite false stated)] ∧
            finiteNumbers "1e-13".toList = [("1e-13".toList, .finite false represented)] ∧
            stated < 10 ^ 12 * (stated - represented)) ∧
      (Passes [userFact "flow.rate" "given" "flow.rate=2", userFact "note" "2" "=2"] "flow.rate=2" ∧
        finiteNumbers "given".toList = []) ∧
      (Passes [otherGapFact, userFact "note" "5" "=5"] "gap.width=5 or 10 mm" ∧
        unitPairs "gap.width=5 or 10 mm".toList = [("10".toList, "mm".toList)]) := by
  refine ⟨⟨⟨blocked [located (userFact "flow.rate" "1e-13" "flow.rate=2e-13")
      "flow.rate=2e-13".toList 0], by decide +kernel⟩,
      literalUnits 2 (-13), literalUnits 1 (-13), by decide +kernel⟩,
    ⟨⟨blocked [located (userFact "flow.rate" "given" "flow.rate=2") "flow.rate=2".toList 0,
      located (userFact "note" "2" "=2") "flow.rate=2".toList 9], by decide +kernel⟩,
      by decide +kernel⟩,
    ⟨⟨blocked [located otherGapFact "gap.width=5 or 10 mm".toList 4,
      located (userFact "note" "5" "=5") "gap.width=5 or 10 mm".toList 9], by decide +kernel⟩,
      by decide +kernel⟩⟩

/-! ### Cancelled and required targets -/

/-- A cancellation of the target stands behind every assignment of it: the last explicit event of
the target in the conversation is a cancellation. -/
def LastEventCancels (unicode : UnicodeTables) (turns : List Text) (t : Text) : Prop :=
  ∃ i : ℕ, ∃ text ∈ turns[i]?, ∃ c ∈ cancellations unicode text, c.target = t ∧
    ∀ j : ℕ, ∀ text' ∈ turns[j]?, ∀ a ∈ assignments unicode text', a.target = t →
      j < i ∨ (j = i ∧ a.start < c.start)

theorem LastEventCancels.cancelsAt {turns : List Text} {t : Text}
    (h : LastEventCancels unicode turns t) :
    ∃ i, CancelsAt unicode turns t i ∧ ∀ j, AssignsAt unicode turns t j → j ≤ i := by
  obtain ⟨i, text, htext, c, hc, htarget, hlast⟩ := h
  refine ⟨i, ⟨text, htext, c, hc, htarget⟩, fun j hj => ?_⟩
  obtain ⟨text', htext', a, ha, ha'⟩ := hj
  rcases hlast j text' htext' a ha ha' with hlt | ⟨heq, _⟩
  · exact hlt.le
  · exact heq.le

/-- An accepted specification has no fact for a cancelled target, and one for each required
target. -/
theorem accepted_targets {spec spec' : CFDIntakeSpec} {request : UserRequest}
    (h : validateIntakeProvenance unicode sha256 spec request = .ok spec') :
    (∀ t ∈ cancelledTargets unicode request.turns, spec'.fact t = none) ∧
      ∀ t ∈ requiredTargets unicode request.turns,
        ∃ fact, targetFact spec' t = some fact ∧ fact.source = .user := by
  obtain ⟨_, hcancelled, hassignments, _⟩ := validateIntakeProvenance_ok h
  refine ⟨hcancelled, fun t ht => ?_⟩
  obtain ⟨o, ho⟩ := Option.isSome_iff_exists.1 (Dict.get_isSome.2 ht)
  obtain ⟨fact, hfact, huser, _⟩ := checkAssignment_spec (hassignments (t, o) (Dict.mem_items.2 ho))
  exact ⟨fact, hfact, huser⟩

/-- **When no target is both cancelled and required.** When a target that is assigned again behind
a cancellation is cancelled again; and the history rejects a target for its last event when the
cancelled targets are assigned ones, with no assignment behind the last cancellation. -/
theorem cancelled_required_iff (unicode : UnicodeTables) (turns : List Text) :
    ((∀ t, ¬ (t ∈ cancelledTargets unicode turns ∧ t ∈ requiredTargets unicode turns)) ↔
      ∀ t i j k, j ≤ i → i < k → AssignsAt unicode turns t j → CancelsAt unicode turns t i →
        AssignsAt unicode turns t k → ∃ l, k ≤ l ∧ CancelsAt unicode turns t l) ∧
    ((∀ t, t ∈ cancelledTargets unicode turns ↔ LastEventCancels unicode turns t) ↔
      ∀ t, ((∃ i, CancelsAt unicode turns t i) → ∃ j, AssignsAt unicode turns t j) ∧
        ∀ i j, j ≤ i → AssignsAt unicode turns t j → CancelsAt unicode turns t i →
          LastEventCancels unicode turns t) := by
  simp only [mem_cancelledTargets, mem_requiredTargets]
  constructor
  · constructor
    · intro h t i j k hji hik hj hi hk
      by_contra hnone
      push Not at hnone
      exact h t ⟨⟨i, j, hji, hj, hi⟩, k, hk, hnone⟩
    · rintro h t ⟨⟨i, j, hji, hj, hi⟩, k, hk, hnone⟩
      have hik : i < k := not_le.1 fun hki => hnone i hki hi
      obtain ⟨l, hkl, hl⟩ := h t i j k hji hik hj hi hk
      exact hnone l hkl hl
  · constructor
    · intro h t
      refine ⟨fun ⟨i, hi⟩ => ?_, fun i j hji hj hi => (h t).1 ⟨i, j, hji, hj, hi⟩⟩
      -- a cancelled target without assignments would be rejected by its last event alone
      by_contra hnone
      obtain ⟨text, htext, c, hc, htarget⟩ := hi
      have hlast : LastEventCancels unicode turns t := by
        refine ⟨i, text, htext, c, hc, htarget, fun j text' htext' a ha ha' => ?_⟩
        exact absurd ⟨j, text', htext', a, ha, ha'⟩ hnone
      obtain ⟨_, j, _, hj, _⟩ := (h t).2 hlast
      exact hnone ⟨j, hj⟩
    · intro h t
      refine ⟨fun ⟨i, j, hji, hj, hi⟩ => (h t).2 i j hji hj hi, fun hlast => ?_⟩
      obtain ⟨i, hi, hle⟩ := hlast.cancelsAt
      obtain ⟨j, hj⟩ := (h t).1 ⟨i, hi⟩
      exact ⟨i, j, hle j hj, hj, hi⟩

/-- A target that is assigned, cancelled and assigned again is forbidden and required: the
conversation admits no specification at all. -/
theorem reassigned_target_unsatisfiable :
    let request : UserRequest :=
      { prompt := "a.b=1".toList
        conversationTurns := ["cancel a.b".toList, "a.b=2".toList] }
    ("a.b".toList ∈ cancelledTargets asciiTables request.turns ∧
      "a.b".toList ∈ requiredTargets asciiTables request.turns) ∧
    ∀ sha256 spec spec', validateIntakeProvenance asciiTables sha256 spec request ≠ .ok spec' := by
  intro request
  have hcancelled : "a.b".toList ∈ cancelledTargets asciiTables request.turns := by decide +kernel
  have hrequired : "a.b".toList ∈ requiredTargets asciiTables request.turns := by decide +kernel
  refine ⟨⟨hcancelled, hrequired⟩, fun sha256 spec spec' h => ?_⟩
  obtain ⟨hforbids, hrequires⟩ := accepted_targets h
  obtain ⟨fact, hfact, _⟩ := hrequires _ hrequired
  have hkey : ¬ "a.b".toList = reynoldsTarget := by decide
  rw [targetFact, hforbids _ hcancelled] at hfact
  dsimp only at hfact
  rw [if_neg hkey] at hfact
  cases hfact

end Agents
end OpenFoamAgent
