/-
# Which entry a patch gets

`BoundaryFieldInterpreter.resolve` against the precedence it models: an entry of the
patch's name before one of its groups, both before the automatic `empty` field, and the
patterns last; within a tier the last entry.

A pattern that Python cannot interpret could decide where it stands behind every
pattern that matches. `resolve` looks at such patterns only when none matches.
-/
import OpenFoamAgent.Verification.BoundaryFields

namespace OpenFoamAgent
namespace Verification
namespace Boundary

open Python Contracts

variable (fullmatch : Text → Text → Except Text Bool) (patch : MeshPatch)

/-! ### The tiers -/

namespace BoundarySelector

/-- Only OpenFOAM can expand the selector. -/
def dynamic (s : BoundarySelector) : Bool := s.key.patternState = .indeterminate

/-- The selector is the name of the patch. -/
def names (s : BoundarySelector) : Bool := s.key.patternState = .literal ∧ s.key.value = patch.name

/-- The selector is one of the patch's groups. -/
def ofGroup (s : BoundarySelector) : Bool :=
  s.key.patternState = .literal ∧ s.key.value ∈ patch.groups

/-- The selector is a pattern that matches the patch. -/
def fits (s : BoundarySelector) : Bool :=
  s.key.patternState = .pattern ∧ isMatch (fullmatch s.key.value patch.name)

/-- The selector is a pattern that the `re` module refuses. -/
def uninterpretable (s : BoundarySelector) : Bool :=
  s.key.patternState = .pattern ∧ !(fullmatch s.key.value patch.name).isOk

/-- The selector without its number. -/
def unnumbered (s : BoundarySelector) : BoundarySelector := { s with order := 0 }

/-- The tier of a selector, from the strongest on. An entry of another name has none. -/
def tier (s : BoundarySelector) : ℕ :=
  if s.dynamic then 0
  else if s.names patch then 1
  else if s.ofGroup patch then 2
  else if s.key.patternState = .pattern then 4
  else 5

end BoundarySelector

/-- The tier at which a patch is resolved. -/
def BoundaryMatchKind.tier : BoundaryMatchKind → ℕ
  | .indeterminate => 0
  | .exact => 1
  | .group => 2
  | .autoEmpty => 3
  | .regex => 4
  | .none => 5

/-- The last selector with a property. -/
def lastOf (p : BoundarySelector → Bool) (selectors : List BoundarySelector) :
    Option BoundarySelector := (selectors.filter p).getLast?

/-- No tier above the patterns decides. -/
structure LeftToPatterns (selectors : List BoundarySelector) : Prop where
  names : ∀ s ∈ selectors, ¬ s.names patch
  groups : ∀ s ∈ selectors, ¬ s.ofGroup patch
  empty : patch.patchType ≠ "empty".toList

/-- A refused pattern stands behind every pattern that matches. -/
def RefusedLast (selectors : List BoundarySelector) : Prop :=
  ∃ before s after, selectors = before ++ s :: after ∧ s.uninterpretable fullmatch patch ∧
    ∀ t ∈ after, ¬ t.fits fullmatch patch

/-- A construct that Python cannot interpret could decide. -/
def Undecided (selectors : List BoundarySelector) : Prop :=
  (∃ s ∈ selectors, s.dynamic) ∨
    LeftToPatterns patch selectors ∧ RefusedLast fullmatch patch selectors

/-- The patch gets this selector, or the automatic field, in this tier. -/
structure Gets (r : BoundaryResolution) (kind : BoundaryMatchKind)
    (selector : Option BoundarySelector) (fieldType : Text) : Prop where
  status : r.status = .resolved
  matchKind : r.matchKind = kind
  selector : r.selector = selector
  effectiveFieldType : r.effectiveFieldType = fieldType

/-- The resolution follows the precedence. -/
structure FollowsPrecedence (selectors : List BoundarySelector) (r : BoundaryResolution) :
    Prop where
  undecided : r.status = .indeterminate ↔ Undecided fullmatch patch selectors
  exact : ¬ Undecided fullmatch patch selectors → ∀ s,
    lastOf (·.names patch) selectors = some s → Gets r .exact (some s) s.fieldType
  group : ¬ Undecided fullmatch patch selectors → (∀ s ∈ selectors, ¬ s.names patch) → ∀ s,
    lastOf (·.ofGroup patch) selectors = some s → Gets r .group (some s) s.fieldType
  autoEmpty : ¬ Undecided fullmatch patch selectors → (∀ s ∈ selectors, ¬ s.names patch) →
    (∀ s ∈ selectors, ¬ s.ofGroup patch) → patch.patchType = "empty".toList →
      Gets r .autoEmpty none "empty".toList
  regex : ¬ Undecided fullmatch patch selectors → LeftToPatterns patch selectors → ∀ s,
    lastOf (·.fits fullmatch patch) selectors = some s → Gets r .regex (some s) s.fieldType
  missing : ¬ Undecided fullmatch patch selectors → LeftToPatterns patch selectors →
    (∀ s ∈ selectors, ¬ s.fits fullmatch patch) → r.status = .missing

/-- A resolution without the number of its selector. -/
def BoundaryResolution.unnumbered (r : BoundaryResolution) : BoundaryResolution :=
  { r with selector := r.selector.map (·.unnumbered) }

/-- The selectors of the tiers up to `k`, without their numbers. -/
def upToTier (k : ℕ) (selectors : List BoundarySelector) : List BoundarySelector :=
  (selectors.filter fun s => s.tier patch ≤ k).map (·.unnumbered)

/-- Selectors of weaker tiers, put in or taken out, change no resolution. -/
def KeepsResolved (selectors : BoundarySelectors) : Prop :=
  (resolve fullmatch patch selectors.entries).status = .resolved →
    ∀ selectors' : BoundarySelectors,
      let k := (resolve fullmatch patch selectors.entries).matchKind.tier
      upToTier patch k selectors'.entries = upToTier patch k selectors.entries →
      (resolve fullmatch patch selectors'.entries).unnumbered =
        (resolve fullmatch patch selectors.entries).unnumbered

/-! ### What a resolution is -/

variable {fullmatch patch}

theorem lastOf_eq_none {p : BoundarySelector → Bool} {selectors : List BoundarySelector} :
    lastOf p selectors = none ↔ ∀ s ∈ selectors, ¬ p s := by
  rw [lastOf, List.getLast?_eq_none_iff, List.filter_eq_nil_iff]

theorem of_lastOf {p : BoundarySelector → Bool} {selectors : List BoundarySelector}
    {s : BoundarySelector} (h : lastOf p selectors = some s) : s ∈ selectors ∧ p s :=
  List.mem_filter.1 (List.mem_of_getLast? h)

/-- Where the numbers grow along the list the highest is the last. -/
theorem argmax_eq_getLast {α : Type} {f : α → ℕ} {l : List α}
    (h : l.Pairwise fun a b => f a < f b) : l.argmax f = l.getLast? := by
  induction l using List.reverseRecOn with
  | nil => rfl
  | append_singleton l a ih =>
    obtain ⟨hl, -, hlast⟩ := List.pairwise_append.1 h
    rw [List.argmax_concat, ih hl, List.getLast?_concat]
    rcases hlast' : l.getLast? with _ | b
    · rfl
    · exact if_pos (hlast b (List.mem_of_getLast? hlast') a (List.mem_singleton_self a))

theorem regexErrors_ne_nil (selectors : List BoundarySelector) :
    regexErrors fullmatch patch (selectors.filter fun s => s.key.patternState = .pattern) ≠ [] ↔
      ∃ s ∈ selectors, s.uninterpretable fullmatch patch := by
  have hone : ∀ s : BoundarySelector, s.uninterpretable fullmatch patch ↔
      s.key.patternState = .pattern ∧ ∃ exc, fullmatch s.key.value patch.name = .error exc := by
    intro s
    rw [BoundarySelector.uninterpretable, decide_eq_true_iff]
    refine and_congr_right fun _ => ?_
    rcases fullmatch s.key.value patch.name with exc | found
    · exact iff_of_true rfl ⟨exc, rfl⟩
    · exact iff_of_false nofun nofun
  rw [Ne, List.eq_nil_iff_forall_not_mem, not_forall_not, regexErrors]
  simp only [List.mem_filterMap, List.mem_filter, decide_eq_true_eq, hone]
  constructor
  · rintro ⟨text, s, ⟨hs, hpattern⟩, htext⟩
    split at htext
    · rename_i exc herror
      exact ⟨s, hs, hpattern, exc, herror⟩
    · cases htext
  · rintro ⟨s, hs, hpattern, exc, herror⟩
    exact ⟨_, s, ⟨hs, hpattern⟩, by rw [herror]⟩

/-- The resolutions of a patch. -/
inductive ResolvedTo (fullmatch : Text → Text → Except Text Bool) (patch : MeshPatch)
    (selectors : List BoundarySelector) : BoundaryResolution → Prop
  | dynamic {r} (h : ∃ s ∈ selectors, s.dynamic) (hr : r.status = .indeterminate) :
    ResolvedTo fullmatch patch selectors r
  | exact {s} (hstatic : ∀ s ∈ selectors, ¬ s.dynamic)
    (hs : lastOf (·.names patch) selectors = some s) :
    ResolvedTo fullmatch patch selectors (resolvedBy patch .exact s
      [⟨"exact".toList, "matched ".toList ++ s.key.raw⟩])
  | group {s} (hstatic : ∀ s ∈ selectors, ¬ s.dynamic) (hnames : ∀ s ∈ selectors, ¬ s.names patch)
    (hs : lastOf (·.ofGroup patch) selectors = some s) :
    ResolvedTo fullmatch patch selectors (resolvedBy patch .group s
      [⟨"exact".toList, "no explicit patch entry matched".toList⟩,
        ⟨"group".toList, "matched group ".toList ++ s.key.raw⟩])
  | autoEmpty (hstatic : ∀ s ∈ selectors, ¬ s.dynamic)
    (hnames : ∀ s ∈ selectors, ¬ s.names patch) (hgroups : ∀ s ∈ selectors, ¬ s.ofGroup patch)
    (hempty : patch.patchType = "empty".toList) :
    ResolvedTo fullmatch patch selectors
      { patch
        status := .resolved
        matchKind := .autoEmpty
        effectiveFieldType := "empty".toList
        trace := [⟨"exact".toList, "no explicit patch entry matched".toList⟩,
          ⟨"group".toList, "no patchGroup entry matched".toList⟩, ⟨"auto_empty".toList,
            "mesh patch type is empty; OpenFOAM auto-empty fallback applies".toList⟩] }
  | regex {s} (hstatic : ∀ s ∈ selectors, ¬ s.dynamic) (hleft : LeftToPatterns patch selectors)
    (hs : lastOf (·.fits fullmatch patch) selectors = some s) :
    ResolvedTo fullmatch patch selectors (resolvedBy patch .regex s
      [⟨"exact".toList, "no explicit patch entry matched".toList⟩,
        ⟨"group".toList, "no patchGroup entry matched".toList⟩,
        ⟨"auto_empty".toList, "not applicable".toList⟩, ⟨"regex".toList,
          "matched ".toList ++ s.key.raw ++ "; later matching pattern wins".toList⟩])
  | refused {r} (hstatic : ∀ s ∈ selectors, ¬ s.dynamic) (hleft : LeftToPatterns patch selectors)
    (hfits : ∀ s ∈ selectors, ¬ s.fits fullmatch patch)
    (h : ∃ s ∈ selectors, s.uninterpretable fullmatch patch) (hr : r.status = .indeterminate) :
    ResolvedTo fullmatch patch selectors r
  | missing {r} (hstatic : ∀ s ∈ selectors, ¬ s.dynamic) (hleft : LeftToPatterns patch selectors)
    (hfits : ∀ s ∈ selectors, ¬ s.fits fullmatch patch)
    (h : ∀ s ∈ selectors, ¬ s.uninterpretable fullmatch patch) (hr : r.status = .missing) :
    ResolvedTo fullmatch patch selectors r

theorem resolve_resolvedTo (fullmatch : Text → Text → Except Text Bool) (patch : MeshPatch)
    (selectors : BoundarySelectors) :
    ResolvedTo fullmatch patch selectors.entries (resolve fullmatch patch selectors.entries) := by
  have hordered : ∀ p, highestOrder (selectors.entries.filter p) =
      (selectors.entries.filter p).getLast? := fun p =>
    argmax_eq_getLast (selectors.ordered.sublist List.filter_sublist)
  have hexact : ((selectors.entries.filter fun s => s.key.patternState = .literal).filter fun s =>
      s.key.value = patch.name).getLast? = lastOf (·.names patch) selectors.entries := by
    rw [List.filter_filter, lastOf]
    exact congrArg _ (List.filter_congr fun s _ => by
      rw [BoundarySelector.names, Bool.decide_and, Bool.and_comm])
  have hgroup : highestOrder ((selectors.entries.filter fun s =>
      s.key.patternState = .literal).filter fun s => s.key.value ∈ patch.groups) =
      lastOf (·.ofGroup patch) selectors.entries := by
    rw [List.filter_filter, hordered, lastOf]
    exact congrArg _ (List.filter_congr fun s _ => by
      rw [BoundarySelector.ofGroup, Bool.decide_and, Bool.and_comm])
  have hregex : highestOrder (matchesOf fullmatch patch (selectors.entries.filter fun s =>
      s.key.patternState = .pattern)) = lastOf (·.fits fullmatch patch) selectors.entries := by
    rw [matchesOf, List.filter_filter, hordered, lastOf]
    exact congrArg _ (List.filter_congr fun s _ => by
      rw [BoundarySelector.fits, Bool.decide_and, Bool.and_comm, Bool.decide_eq_true])
  have hunknown : (selectors.entries.filter fun s => s.key.patternState = .indeterminate) ≠ [] ↔
      ∃ s ∈ selectors.entries, s.dynamic := by
    rw [Ne, List.eq_nil_iff_forall_not_mem, not_forall_not]
    simp only [List.mem_filter, BoundarySelector.dynamic]
  have herrors : regexErrors fullmatch patch (selectors.entries.filter fun s =>
      s.key.patternState = .pattern) ≠ [] ↔
      ∃ s ∈ selectors.entries, s.uninterpretable fullmatch patch :=
    regexErrors_ne_nil selectors.entries
  unfold resolve
  dsimp only
  rw [hexact, hgroup, hregex]
  by_cases hdynamic : ∃ s ∈ selectors.entries, s.dynamic
  · rw [if_pos (hunknown.2 hdynamic)]
    exact .dynamic hdynamic rfl
  rw [if_neg (mt hunknown.1 hdynamic)]
  have hstatic : ∀ s ∈ selectors.entries, ¬ s.dynamic := fun s hs hs' => hdynamic ⟨s, hs, hs'⟩
  rcases hnames : lastOf (·.names patch) selectors.entries with _ | s
  · rw [lastOf_eq_none] at hnames
    rcases hgroups : lastOf (·.ofGroup patch) selectors.entries with _ | s
    · rw [lastOf_eq_none] at hgroups
      dsimp only
      by_cases hempty : patch.patchType = "empty".toList
      · rw [if_pos hempty]
        exact .autoEmpty hstatic hnames hgroups hempty
      rw [if_neg hempty]
      have hleft : LeftToPatterns patch selectors.entries := ⟨hnames, hgroups, hempty⟩
      rcases hfits : lastOf (·.fits fullmatch patch) selectors.entries with _ | s
      · rw [lastOf_eq_none] at hfits
        dsimp only
        by_cases herror : ∃ s ∈ selectors.entries, s.uninterpretable fullmatch patch
        · rw [if_pos (herrors.2 herror)]
          exact .refused hstatic hleft hfits herror rfl
        · rw [if_neg (mt herrors.1 herror)]
          exact .missing hstatic hleft hfits (fun s hs hs' => herror ⟨s, hs, hs'⟩) rfl
      · exact .regex hstatic hleft hfits
    · exact .group hstatic hnames hgroups
  · exact .exact hstatic hnames

/-! ### The precedence -/

/-- Nothing stronger decides and a pattern matches, but behind every pattern that matches there
is one the `re` module refuses. -/
structure Overlooked (fullmatch : Text → Text → Except Text Bool) (patch : MeshPatch)
    (selectors : List BoundarySelector) : Prop where
  static : ∀ s ∈ selectors, ¬ s.dynamic
  left : LeftToPatterns patch selectors
  fits : ∃ s ∈ selectors, s.fits fullmatch patch
  refused : RefusedLast fullmatch patch selectors

theorem refusedLast_of_no_fits {selectors : List BoundarySelector}
    (hfits : ∀ s ∈ selectors, ¬ s.fits fullmatch patch) :
    RefusedLast fullmatch patch selectors ↔
      ∃ s ∈ selectors, s.uninterpretable fullmatch patch := by
  constructor
  · rintro ⟨before, s, after, rfl, hs, -⟩
    exact ⟨s, by simp, hs⟩
  · rintro ⟨s, hmem, hs⟩
    obtain ⟨before, after, rfl⟩ := List.append_of_mem hmem
    refine ⟨before, s, after, rfl, hs, fun t ht => hfits t ?_⟩
    exact List.mem_append_right _ (List.mem_cons_of_mem _ ht)

theorem not_undecided {selectors : List BoundarySelector} (hstatic : ∀ s ∈ selectors, ¬ s.dynamic)
    (h : LeftToPatterns patch selectors → ¬ RefusedLast fullmatch patch selectors) :
    ¬ Undecided fullmatch patch selectors := by
  rintro (⟨s, hs, hdynamic⟩ | ⟨hleft, hrefused⟩)
  · exact hstatic s hs hdynamic
  · exact h hleft hrefused

theorem not_forall_of_lastOf {p : BoundarySelector → Bool} {selectors : List BoundarySelector}
    {s : BoundarySelector} (h : lastOf p selectors = some s) : ¬ ∀ t ∈ selectors, ¬ p t :=
  fun hall => hall s (of_lastOf h).1 (of_lastOf h).2

theorem ResolvedTo.follows {selectors : List BoundarySelector} {r : BoundaryResolution}
    (hr : ResolvedTo fullmatch patch selectors r)
    (hover : ¬ Overlooked fullmatch patch selectors) :
    FollowsPrecedence fullmatch patch selectors r := by
  cases hr with
  | dynamic h hr =>
    have hun : Undecided fullmatch patch selectors := .inl h
    exact ⟨iff_of_true hr hun, fun hnot => absurd hun hnot, fun hnot => absurd hun hnot,
      fun hnot => absurd hun hnot, fun hnot => absurd hun hnot, fun hnot => absurd hun hnot⟩
  | @exact s hstatic hs =>
    have hsome := not_forall_of_lastOf hs
    have hnot : ¬ Undecided fullmatch patch selectors :=
      not_undecided hstatic fun hleft => absurd hleft.names hsome
    refine ⟨iff_of_false nofun hnot, fun _ t ht => ?_, fun _ hnames => absurd hnames hsome,
      fun _ hnames => absurd hnames hsome, fun _ hleft => absurd hleft.names hsome,
      fun _ hleft => absurd hleft.names hsome⟩
    obtain rfl := Option.some.inj (hs.symm.trans ht)
    exact ⟨rfl, rfl, rfl, rfl⟩
  | @group s hstatic hnames hs =>
    have hsome := not_forall_of_lastOf hs
    have hnot : ¬ Undecided fullmatch patch selectors :=
      not_undecided hstatic fun hleft => absurd hleft.groups hsome
    refine ⟨iff_of_false nofun hnot, fun _ t ht => absurd hnames (not_forall_of_lastOf ht),
      fun _ _ t ht => ?_, fun _ _ hgroups => absurd hgroups hsome,
      fun _ hleft => absurd hleft.groups hsome, fun _ hleft => absurd hleft.groups hsome⟩
    obtain rfl := Option.some.inj (hs.symm.trans ht)
    exact ⟨rfl, rfl, rfl, rfl⟩
  | autoEmpty hstatic hnames hgroups hempty =>
    have hnot : ¬ Undecided fullmatch patch selectors :=
      not_undecided hstatic fun hleft => absurd hempty hleft.empty
    exact ⟨iff_of_false nofun hnot, fun _ t ht => absurd hnames (not_forall_of_lastOf ht),
      fun _ _ t ht => absurd hgroups (not_forall_of_lastOf ht),
      fun _ _ _ _ => ⟨rfl, rfl, rfl, rfl⟩, fun _ hleft => absurd hempty hleft.empty,
      fun _ hleft => absurd hempty hleft.empty⟩
  | @regex s hstatic hleft hs =>
    have hnot := not_undecided hstatic fun _ hrefused =>
      hover ⟨hstatic, hleft, ⟨s, of_lastOf hs⟩, hrefused⟩
    refine ⟨iff_of_false nofun hnot, fun _ t ht => absurd hleft.names (not_forall_of_lastOf ht),
      fun _ _ t ht => absurd hleft.groups (not_forall_of_lastOf ht),
      fun _ _ _ hempty => absurd hempty hleft.empty, fun _ _ t ht => ?_,
      fun _ _ hfits => absurd hfits (not_forall_of_lastOf hs)⟩
    obtain rfl := Option.some.inj (hs.symm.trans ht)
    exact ⟨rfl, rfl, rfl, rfl⟩
  | refused hstatic hleft hfits h hr =>
    have hun : Undecided fullmatch patch selectors :=
      .inr ⟨hleft, (refusedLast_of_no_fits hfits).2 h⟩
    exact ⟨iff_of_true hr hun, fun hnot => absurd hun hnot, fun hnot => absurd hun hnot,
      fun hnot => absurd hun hnot, fun hnot => absurd hun hnot, fun hnot => absurd hun hnot⟩
  | missing hstatic hleft hfits h hr =>
    have hnot := not_undecided hstatic fun _ hrefused => by
      obtain ⟨s, hs, hs'⟩ := (refusedLast_of_no_fits hfits).1 hrefused
      exact h s hs hs'
    refine ⟨iff_of_false (fun hin => ?_) hnot,
      fun _ t ht => absurd hleft.names (not_forall_of_lastOf ht),
      fun _ _ t ht => absurd hleft.groups (not_forall_of_lastOf ht),
      fun _ _ _ hempty => absurd hempty hleft.empty,
      fun _ _ t ht => absurd hfits (not_forall_of_lastOf ht), fun _ _ _ => hr⟩
    rw [hr] at hin
    cases hin

/-- A refused pattern that is overlooked leaves the patch resolved. -/
theorem ResolvedTo.resolved_of_overlooked {selectors : List BoundarySelector}
    {r : BoundaryResolution} (hr : ResolvedTo fullmatch patch selectors r)
    (hover : Overlooked fullmatch patch selectors) : r.status = .resolved := by
  obtain ⟨hstatic, -, ⟨s, hs, hfits⟩, -⟩ := hover
  cases hr with
  | dynamic h =>
    obtain ⟨t, ht, hdynamic⟩ := h
    exact absurd hdynamic (hstatic t ht)
  | refused _ _ hnofits => exact absurd hfits (hnofits s hs)
  | missing _ _ hnofits => exact absurd hfits (hnofits s hs)
  | exact | group | autoEmpty | regex => rfl

/-- `resolve` follows the precedence exactly where it overlooks no refused pattern. -/
theorem followsPrecedence_iff (fullmatch : Text → Text → Except Text Bool) (patch : MeshPatch)
    (selectors : BoundarySelectors) :
    FollowsPrecedence fullmatch patch selectors.entries
        (resolve fullmatch patch selectors.entries) ↔
      ¬ Overlooked fullmatch patch selectors.entries := by
  have hto := resolve_resolvedTo fullmatch patch selectors
  refine ⟨fun hfollows hover => ?_, hto.follows⟩
  have hstatus := hfollows.undecided.2 (.inr ⟨hover.left, hover.refused⟩)
  rw [hto.resolved_of_overlooked hover] at hstatus
  cases hstatus

/-! ### Weaker selectors -/

/-- The last selector with a property that only tiers up to `k` have does not depend on the
selectors of the other tiers. -/
theorem lastOf_upToTier {p : BoundarySelector → Bool} {k : ℕ} (hp : ∀ s, p s → s.tier patch ≤ k)
    (hnumber : ∀ s, p s.unnumbered = p s) (selectors : List BoundarySelector) :
    (lastOf p selectors).map (·.unnumbered) =
      ((upToTier patch k selectors).filter p).getLast? := by
  have hfilter : selectors.filter p =
      (selectors.filter fun s => s.tier patch ≤ k).filter (p ∘ (·.unnumbered)) := by
    rw [List.filter_filter]
    refine List.filter_congr fun s _ => ?_
    rw [Function.comp_apply, hnumber]
    cases h : p s with
    | false => rfl
    | true => rw [decide_eq_true (hp s h), Bool.and_true]
  rw [lastOf, upToTier, List.filter_map, List.getLast?_map, hfilter]

theorem tier_of_dynamic {s : BoundarySelector} (h : s.dynamic) : s.tier patch = 0 := if_pos h

theorem tier_of_names {s : BoundarySelector} (h : s.names patch) : s.tier patch ≤ 1 := by
  unfold BoundarySelector.tier
  rw [if_pos h]
  split_ifs <;> omega

theorem tier_of_ofGroup {s : BoundarySelector} (h : s.ofGroup patch) : s.tier patch ≤ 2 := by
  unfold BoundarySelector.tier
  rw [if_pos h]
  split_ifs <;> omega

theorem tier_of_fits {s : BoundarySelector} (h : s.fits fullmatch patch) : s.tier patch ≤ 4 := by
  have hpattern : s.key.patternState = .pattern := (of_decide_eq_true h).1
  unfold BoundarySelector.tier
  rw [if_pos hpattern]
  split_ifs <;> omega

/-- Selectors that differ in their numbers give the same resolution but for the number. -/
theorem resolvedBy_unnumbered {s s' : BoundarySelector} (h : s'.unnumbered = s.unnumbered)
    (kind : BoundaryMatchKind) (trace : Text → List ResolutionTraceStep) :
    (resolvedBy patch kind s' (trace s'.key.raw)).unnumbered =
      (resolvedBy patch kind s (trace s.key.raw)).unnumbered := by
  obtain ⟨key, order, body, fieldType⟩ := s
  obtain ⟨key', order', body', fieldType'⟩ := s'
  cases h
  rfl

theorem ResolvedTo.unnumbered_eq {selectors selectors' : List BoundarySelector}
    {r r' : BoundaryResolution} (hr : ResolvedTo fullmatch patch selectors r)
    (hr' : ResolvedTo fullmatch patch selectors' r') (hstatus : r.status = .resolved)
    (hsame : upToTier patch r.matchKind.tier selectors' =
      upToTier patch r.matchKind.tier selectors) :
    r'.unnumbered = r.unnumbered := by
  have hlast : ∀ p : BoundarySelector → Bool, (∀ s, p s → s.tier patch ≤ r.matchKind.tier) →
      (∀ s, p s.unnumbered = p s) →
      (lastOf p selectors').map (·.unnumbered) = (lastOf p selectors).map (·.unnumbered) := by
    intro p hp hnumber
    rw [lastOf_upToTier hp hnumber, lastOf_upToTier hp hnumber, hsame]
  have hnone : ∀ p : BoundarySelector → Bool, (∀ s, p s → s.tier patch ≤ r.matchKind.tier) →
      (∀ s, p s.unnumbered = p s) → (∀ s ∈ selectors, ¬ p s) → ∀ s ∈ selectors', ¬ p s := by
    intro p hp hnumber hall
    have := hlast p hp hnumber
    rw [lastOf_eq_none.2 hall, Option.map_none, Option.map_eq_none_iff] at this
    exact lastOf_eq_none.1 this
  have hsome : ∀ p : BoundarySelector → Bool, (∀ s, p s → s.tier patch ≤ r.matchKind.tier) →
      (∀ s, p s.unnumbered = p s) → ∀ s, lastOf p selectors = some s →
      ∃ s', lastOf p selectors' = some s' ∧ s'.unnumbered = s.unnumbered := by
    intro p hp hnumber s hs
    have := hlast p hp hnumber
    rw [hs, Option.map_some] at this
    exact Option.map_eq_some_iff.1 this
  have hdynamic : (∀ s ∈ selectors, ¬ s.dynamic) → ∀ s ∈ selectors', ¬ s.dynamic :=
    hnone _ (fun s hs => (tier_of_dynamic hs).le.trans (Nat.zero_le _)) fun s => rfl
  cases hr with
  | dynamic _ hr | refused _ _ _ _ hr | missing _ _ _ _ hr =>
    rw [hr] at hstatus
    cases hstatus
  | @exact s hstatic hs =>
    obtain ⟨s', hs', heq⟩ := hsome (·.names patch) (fun s => tier_of_names) (fun s => rfl) s hs
    have hnames := not_forall_of_lastOf hs'
    cases hr' with
    | dynamic h => exact absurd h (by simpa using hdynamic hstatic)
    | @exact t _ ht =>
      obtain rfl := Option.some.inj (hs'.symm.trans ht)
      exact resolvedBy_unnumbered heq .exact fun raw => [⟨"exact".toList, "matched ".toList ++ raw⟩]
    | group _ hno => exact absurd hno hnames
    | autoEmpty _ hno => exact absurd hno hnames
    | regex _ hleft | refused _ hleft | missing _ hleft => exact absurd hleft.names hnames
  | @group s hstatic hno hs =>
    have hno' := hnone (·.names patch) (fun s h => (tier_of_names h).trans (Nat.le_succ 1))
      (fun s => rfl) hno
    obtain ⟨s', hs', heq⟩ := hsome (·.ofGroup patch) (fun s => tier_of_ofGroup) (fun s => rfl) s hs
    have hgroups := not_forall_of_lastOf hs'
    cases hr' with
    | dynamic h => exact absurd h (by simpa using hdynamic hstatic)
    | exact _ ht => exact absurd hno' (not_forall_of_lastOf ht)
    | @group t _ _ ht =>
      obtain rfl := Option.some.inj (hs'.symm.trans ht)
      exact resolvedBy_unnumbered heq .group fun raw =>
        [⟨"exact".toList, "no explicit patch entry matched".toList⟩,
          ⟨"group".toList, "matched group ".toList ++ raw⟩]
    | autoEmpty _ _ hnogroups => exact absurd hnogroups hgroups
    | regex _ hleft | refused _ hleft | missing _ hleft => exact absurd hleft.groups hgroups
  | autoEmpty hstatic hno hgroups hempty =>
    have hno' := hnone (·.names patch) (fun s h => (tier_of_names h).trans (show 1 ≤ 3 by decide))
      (fun s => rfl) hno
    have hgroups' := hnone (·.ofGroup patch)
      (fun s h => (tier_of_ofGroup h).trans (show 2 ≤ 3 by decide)) (fun s => rfl) hgroups
    cases hr' with
    | dynamic h => exact absurd h (by simpa using hdynamic hstatic)
    | exact _ ht => exact absurd hno' (not_forall_of_lastOf ht)
    | group _ _ ht => exact absurd hgroups' (not_forall_of_lastOf ht)
    | autoEmpty => rfl
    | regex _ hleft | refused _ hleft | missing _ hleft => exact absurd hempty hleft.empty
  | @regex s hstatic hleft hs =>
    have hno' := hnone (·.names patch) (fun s h => (tier_of_names h).trans (show 1 ≤ 4 by decide))
      (fun s => rfl) hleft.names
    have hgroups' := hnone (·.ofGroup patch)
      (fun s h => (tier_of_ofGroup h).trans (show 2 ≤ 4 by decide)) (fun s => rfl) hleft.groups
    obtain ⟨s', hs', heq⟩ := hsome (·.fits fullmatch patch) (fun s => tier_of_fits)
      (fun s => rfl) s hs
    have hfits := not_forall_of_lastOf hs'
    cases hr' with
    | dynamic h => exact absurd h (by simpa using hdynamic hstatic)
    | exact _ ht => exact absurd hno' (not_forall_of_lastOf ht)
    | group _ _ ht => exact absurd hgroups' (not_forall_of_lastOf ht)
    | autoEmpty _ _ _ hempty => exact absurd hempty hleft.empty
    | @regex t _ _ ht =>
      obtain rfl := Option.some.inj (hs'.symm.trans ht)
      exact resolvedBy_unnumbered heq .regex fun raw =>
        [⟨"exact".toList, "no explicit patch entry matched".toList⟩,
          ⟨"group".toList, "no patchGroup entry matched".toList⟩,
          ⟨"auto_empty".toList, "not applicable".toList⟩, ⟨"regex".toList,
            "matched ".toList ++ raw ++ "; later matching pattern wins".toList⟩]
    | refused _ _ hnofits | missing _ _ hnofits => exact absurd hnofits hfits

/-- Weaker selectors never change a resolution. -/
theorem keepsResolved (fullmatch : Text → Text → Except Text Bool) (patch : MeshPatch)
    (selectors : BoundarySelectors) : KeepsResolved fullmatch patch selectors :=
  fun hstatus selectors' hsame => (resolve_resolvedTo fullmatch patch selectors).unnumbered_eq
    (resolve_resolvedTo fullmatch patch selectors') hstatus hsame

/-! ### Coverage -/

/-- Some selector applies to the patch. -/
def Applies (fullmatch : Text → Text → Except Text Bool) (patch : MeshPatch)
    (selectors : List BoundarySelector) : Prop :=
  ∃ s ∈ selectors, s.names patch ∨ s.ofGroup patch ∨ s.fits fullmatch patch

/-- Something may give the patch a field: a selector that applies, the automatic field of an
`empty` patch, or a construct that Python cannot interpret. -/
def Covered (fullmatch : Text → Text → Except Text Bool) (patch : MeshPatch)
    (selectors : List BoundarySelector) : Prop :=
  Applies fullmatch patch selectors ∨ patch.patchType = "empty".toList ∨
    ∃ s ∈ selectors, s.dynamic ∨ s.uninterpretable fullmatch patch

/-- The last patch of a name. -/
def lastNamed (patches : List MeshPatch) (name : Text) : Option MeshPatch :=
  (patches.filter fun patch => patch.name = name).getLast?

theorem missing_iff (fullmatch : Text → Text → Except Text Bool) (patch : MeshPatch)
    (selectors : BoundarySelectors) :
    (resolve fullmatch patch selectors.entries).status = .missing ↔
      ¬ Covered fullmatch patch selectors.entries := by
  have hto := resolve_resolvedTo fullmatch patch selectors
  generalize resolve fullmatch patch selectors.entries = r at hto
  cases hto with
  | dynamic h hr =>
    obtain ⟨s, hs, hdynamic⟩ := h
    rw [hr]
    exact iff_of_false nofun fun hnot => hnot (.inr (.inr ⟨s, hs, .inl hdynamic⟩))
  | exact _ hs =>
    obtain ⟨hmem, hnames⟩ := of_lastOf hs
    exact iff_of_false nofun fun hnot => hnot (.inl ⟨_, hmem, .inl hnames⟩)
  | group _ _ hs =>
    obtain ⟨hmem, hgroup⟩ := of_lastOf hs
    exact iff_of_false nofun fun hnot => hnot (.inl ⟨_, hmem, .inr (.inl hgroup)⟩)
  | autoEmpty _ _ _ hempty => exact iff_of_false nofun fun hnot => hnot (.inr (.inl hempty))
  | regex _ _ hs =>
    obtain ⟨hmem, hfits⟩ := of_lastOf hs
    exact iff_of_false nofun fun hnot => hnot (.inl ⟨_, hmem, .inr (.inr hfits)⟩)
  | refused _ _ _ h hr =>
    obtain ⟨s, hs, hrefused⟩ := h
    rw [hr]
    exact iff_of_false nofun fun hnot => hnot (.inr (.inr ⟨s, hs, .inr hrefused⟩))
  | missing hstatic hleft hfits h hr =>
    refine iff_of_true hr ?_
    rintro (⟨s, hs, hnames | hgroup | hfit⟩ | hempty | ⟨s, hs, hdynamic | hrefused⟩)
    · exact hleft.names s hs hnames
    · exact hleft.groups s hs hgroup
    · exact hfits s hs hfit
    · exact hleft.empty hempty
    · exact hstatic s hs hdynamic
    · exact h s hs hrefused

theorem get_resolveAll (patches : List MeshPatch) (selectors : List BoundarySelector)
    (name : Text) : (resolveAll fullmatch patches selectors).get name =
      (lastNamed patches name).map fun patch => resolve fullmatch patch selectors := by
  induction patches using List.reverseRecOn with
  | nil => rfl
  | append_singleton patches patch ih =>
    rw [resolveAll, List.map_append, List.map_singleton, Dict.get_ofItems_concat, ← resolveAll, ih,
      lastNamed, lastNamed, List.filter_append, List.filter_singleton]
    by_cases h : patch.name = name
    · rw [if_pos h.symm, decide_eq_true h, Bool.cond_true, List.getLast?_concat]
      rfl
    · rw [if_neg (Ne.symm h), decide_eq_false h, Bool.cond_false, List.append_nil]

/-- A name is reported missing exactly when nothing covers the last patch of that name. -/
theorem mem_missingPatches (patches : List MeshPatch) (selectors : BoundarySelectors)
    (name : Text) : name ∈ missingPatches fullmatch patches selectors.entries ↔
      ∃ patch, lastNamed patches name = some patch ∧
        ¬ Covered fullmatch patch selectors.entries := by
  rw [missingPatches, List.mem_insertionSort, List.mem_map]
  constructor
  · rintro ⟨⟨name', r⟩, hmem, rfl⟩
    obtain ⟨hitem, hmissing⟩ := List.mem_filter.1 hmem
    have hget := Dict.mem_items.1 hitem
    rw [get_resolveAll] at hget
    obtain ⟨patch, hlast, rfl⟩ := Option.map_eq_some_iff.1 hget
    exact ⟨patch, hlast, (missing_iff fullmatch patch selectors).1 (of_decide_eq_true hmissing)⟩
  · rintro ⟨patch, hlast, hcovered⟩
    have hget : (resolveAll fullmatch patches selectors.entries).get name =
        some (resolve fullmatch patch selectors.entries) := by
      rw [get_resolveAll, hlast, Option.map_some]
    refine ⟨(name, _), List.mem_filter.2 ⟨Dict.mem_items.2 hget, ?_⟩, rfl⟩
    exact decide_eq_true ((missing_iff fullmatch patch selectors).2 hcovered)

/-- No patch is reported missing that a selector applies to, exactly when of such a patch's name
the last one is covered. -/
theorem reports_iff (patches : List MeshPatch) (selectors : BoundarySelectors) :
    (∀ patch ∈ patches, Applies fullmatch patch selectors.entries →
      patch.name ∉ missingPatches fullmatch patches selectors.entries) ↔
      ∀ patch ∈ patches, Applies fullmatch patch selectors.entries →
        ∀ last, lastNamed patches patch.name = some last →
          Covered fullmatch last selectors.entries := by
  refine forall₂_congr fun patch _ => imp_congr_right fun _ => ?_
  rw [mem_missingPatches]
  constructor
  · intro h last hlast
    by_contra hcovered
    exact h ⟨last, hlast, hcovered⟩
  · rintro h ⟨last, hlast, hcovered⟩
    exact hcovered (h last hlast)

/-- **The boundary fields follow the precedence**, keep what is resolved when weaker selectors
come in, and report no patch missing that a selector applies to, exactly when no refused pattern
is overlooked, and no other patch of the name of a patch is left uncovered behind it. -/
theorem boundaryFields_follow_iff (fullmatch : Text → Text → Except Text Bool)
    (patches : List MeshPatch) (selectors : BoundarySelectors) :
    ((∀ patch ∈ patches, FollowsPrecedence fullmatch patch selectors.entries
        (resolve fullmatch patch selectors.entries) ∧ KeepsResolved fullmatch patch selectors) ∧
      ∀ patch ∈ patches, Applies fullmatch patch selectors.entries →
        patch.name ∉ missingPatches fullmatch patches selectors.entries) ↔
      (∀ patch ∈ patches, ¬ Overlooked fullmatch patch selectors.entries) ∧
      ∀ patch ∈ patches, Applies fullmatch patch selectors.entries →
        ∀ last, lastNamed patches patch.name = some last →
          Covered fullmatch last selectors.entries := by
  rw [reports_iff]
  refine and_congr_left fun _ => forall₂_congr fun patch _ => ?_
  rw [followsPrecedence_iff]
  exact and_iff_left (keepsResolved fullmatch patch selectors)

/-- A pattern `wall.*`, and behind it one whose repeated `*` the `re` module refuses. -/
def refusedBehind : BoundarySelectors where
  entries := [⟨⟨"\"wall.*\"".toList, "wall.*".toList, .string, .pattern⟩, 0, [], "noSlip".toList⟩,
    ⟨⟨"\"wall1**\"".toList, "wall1**".toList, .string, .pattern⟩, 1, [],
      "slip".toList⟩]
  ordered := by decide

/-- `re.fullmatch` on these patterns and `wall1`. -/
def wallMatches (pattern _name : Text) : Except Text Bool :=
  if pattern = "wall.*".toList then .ok true else .error "multiple repeat at position 6".toList

/-- The patch is resolved by the first pattern, and called proven. -/
theorem refused_pattern_overlooked :
    ¬ ∀ fullmatch (patches : List MeshPatch) (selectors : BoundarySelectors),
      (∀ patch ∈ patches, FollowsPrecedence fullmatch patch selectors.entries
          (resolve fullmatch patch selectors.entries) ∧ KeepsResolved fullmatch patch selectors) ∧
        ∀ patch ∈ patches, Applies fullmatch patch selectors.entries →
          patch.name ∉ missingPatches fullmatch patches selectors.entries := by
  intro h
  have hpatch := ((h wallMatches [⟨"wall1".toList, "wall".toList, [], 0⟩] refusedBehind).1 _
    (List.mem_singleton_self _)).1
  have hresolved : (resolve wallMatches ⟨"wall1".toList, "wall".toList, [], 0⟩
      refusedBehind.entries).status = .resolved := by
    decide +kernel
  have hundecided : Undecided wallMatches ⟨"wall1".toList, "wall".toList, [], 0⟩
      refusedBehind.entries := by
    refine .inr ⟨⟨by decide +kernel, by decide +kernel, by decide +kernel⟩, ?_⟩
    exact ⟨[refusedBehind.entries[0]], refusedBehind.entries[1], [], rfl, by decide +kernel, nofun⟩
  have := hpatch.undecided.2 hundecided
  rw [hresolved] at this
  cases this

end Boundary
end Verification
end OpenFoamAgent
