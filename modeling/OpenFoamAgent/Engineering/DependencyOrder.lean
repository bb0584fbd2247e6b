/-
# The stable order of native commands

`_stable_dependency_order` of `engineering/case_build_graph.py`, for any labels.
The function asks the contract of each command for its labels and renders them
for the scope of the command; here the rendered labels are an argument, and an
error is a scope that cannot be bound. `stableDependencyOrder_eq` says that the
labels of the registry are an instance.

A list of at least two commands is returned as it is, with a failure, when a
scope cannot be bound or a command produces, over others, what it consumes
itself. Otherwise the result is the least permutation of the list in which every
producer precedes its consumers (`stable_dependency_order`). A shorter list is
returned without a look at its labels.
-/
import OpenFoamAgent.Engineering.NativePipelines
import OpenFoamAgent.Schemas.CasePlan

namespace OpenFoamAgent
namespace Engineering

open Python Schemas

/-- The labels a command consumes and those it produces, or the exception of their rendering. -/
abbrev LabelTable := NativeOpenFOAMCommand → Except ScopeError (List Text × List Text)

/-- `_stable_dependency_order` over a table of labels. -/
def dependencyOrder (labelsOf : LabelTable) (items : List NativeOpenFOAMCommand) :
    List NativeOpenFOAMCommand × List DeltaFailure :=
  if items.length < 2 then (items, [])
  else
    let failures := items.filterMap fun item =>
      match labelsOf item with
      | .error e => some (.unboundOrder item.command e)
      | .ok _ => none
    if failures ≠ [] then (items, failures)
    else
      let labels := items.map fun item => (labelsOf item).toOption.getD ([], [])
      match Topological.order items.length (precedes labels) with
      | some order => (order.filterMap fun i => items[i]?, [])
      | none =>
        let indegree := (Topological.run items.length (precedes labels)).indegree
        (items, [.cycle ((items.zip indegree).filterMap fun item =>
          if item.2 > 0 then some item.1.command else none)])

theorem stableDependencyOrder_eq (plan : EngineeringPlan) :
    stableDependencyOrder plan = dependencyOrder (orderingLabels plan) := rfl

/-! ### What an order should be -/

/-- The command at the one position produces a label that the command at the other consumes. -/
def Feeds (labelsOf : LabelTable) (items : List NativeOpenFOAMCommand) (i j : ℕ) : Prop :=
  i ≠ j ∧ ∃ a b p c, items[i]? = some a ∧ items[j]? = some b ∧ labelsOf a = .ok p ∧
    labelsOf b = .ok c ∧ ∃ label ∈ p.2, label ∈ c.1

/-- The positions of a list, ordered so that every producer precedes its consumers. -/
structure Arrangement (labelsOf : LabelTable) (items : List NativeOpenFOAMCommand)
    (order : List ℕ) : Prop where
  perm : order.Perm (List.range items.length)
  producers : ∀ before j after, order = before ++ j :: after →
    ∀ i, Feeds labelsOf items i j → i ∈ before

/-- The scope of some command cannot be bound. -/
def Unbound (labelsOf : LabelTable) (items : List NativeOpenFOAMCommand) : Prop :=
  ∃ item ∈ items, ∃ e, labelsOf item = .error e

/-- Some command feeds itself, over other commands. -/
def FeedsItself (labelsOf : LabelTable) (items : List NativeOpenFOAMCommand) : Prop :=
  ∃ i, Relation.TransGen (Feeds labelsOf items) i i

/-- What the order and its failures are. -/
structure StablyOrdered (labelsOf : LabelTable) (items : List NativeOpenFOAMCommand)
    (result : List NativeOpenFOAMCommand × List DeltaFailure) : Prop where
  fails_iff : result.2 ≠ [] ↔
    2 ≤ items.length ∧ (Unbound labelsOf items ∨ FeedsItself labelsOf items)
  kept : result.2 ≠ [] → result.1 = items
  /-- An order without failure is the least arrangement of the positions. -/
  least : result.2 = [] → ∃ order, result.1 = order.filterMap (fun i => items[i]?) ∧
    Arrangement labelsOf items order ∧
    ∀ other, Arrangement labelsOf items other → order = other ∨ List.Lex (· < ·) order other

/-! ### The order of the positions -/

variable {labelsOf : LabelTable} {items : List NativeOpenFOAMCommand}

/-- The rendered labels, where all scopes are bound. -/
def labelList (labelsOf : LabelTable) (items : List NativeOpenFOAMCommand) :
    List (List Text × List Text) :=
  items.map fun item => (labelsOf item).toOption.getD ([], [])

/-- Where all scopes are bound, the edges that are sorted are those between producers and
consumers. -/
theorem edge_iff (hbound : ¬ Unbound labelsOf items) {i j : ℕ} :
    Topological.Edge items.length (precedes (labelList labelsOf items)) i j ↔
      Feeds labelsOf items i j := by
  have hlabels : ∀ {k : ℕ} {item : NativeOpenFOAMCommand}, items[k]? = some item →
      labelsOf item = .ok ((labelList labelsOf items).getD k ([], [])) := by
    intro k item hitem
    have hget : (labelList labelsOf items).getD k ([], []) =
        (labelsOf item).toOption.getD ([], []) := by
      rw [labelList, List.getD_eq_getElem?_getD, List.getElem?_map, hitem]
      rfl
    rw [hget]
    cases hitem' : labelsOf item with
    | error e => exact absurd ⟨item, List.mem_of_getElem? hitem, e, hitem'⟩ hbound
    | ok labels => rfl
  have hprecedes : precedes (labelList labelsOf items) i j = true ↔ i ≠ j ∧
      ∃ label ∈ ((labelList labelsOf items).getD i ([], [])).2,
        label ∈ ((labelList labelsOf items).getD j ([], [])).1 := by
    unfold precedes
    simp only [Bool.and_eq_true, bne_iff_ne, List.any_eq_true, decide_eq_true_eq, ne_eq]
  constructor
  · rintro ⟨hi, hj, hedge⟩
    obtain ⟨hne, hlabel⟩ := hprecedes.1 hedge
    have ha := List.getElem?_eq_getElem hi
    have hb := List.getElem?_eq_getElem hj
    exact ⟨hne, _, _, _, _, ha, hb, hlabels ha, hlabels hb, hlabel⟩
  · rintro ⟨hne, a, b, p, c, ha, hb, hp, hc, hlabel⟩
    obtain rfl := Except.ok.inj (hp.symm.trans (hlabels ha))
    obtain rfl := Except.ok.inj (hc.symm.trans (hlabels hb))
    exact ⟨(List.getElem?_eq_some_iff.1 ha).1, (List.getElem?_eq_some_iff.1 hb).1,
      hprecedes.2 ⟨hne, hlabel⟩⟩

/-- The edges that are sorted are those between producers and consumers. -/
theorem arrangement_iff (hbound : ¬ Unbound labelsOf items) {order : List ℕ} :
    Arrangement labelsOf items order ↔ order.Perm (List.range items.length) ∧
      Topological.Respects items.length (precedes (labelList labelsOf items)) order := by
  constructor
  · intro h
    refine ⟨h.perm, fun before j after heq i hi hedge => h.producers before j after heq i ?_⟩
    have hj : j < items.length := List.mem_range.1 (h.perm.mem_iff.1 (by simp [heq]))
    exact (edge_iff hbound).1 ⟨hi, hj, hedge⟩
  · rintro ⟨hperm, hrespects⟩
    refine ⟨hperm, fun before j after heq i hfeeds => ?_⟩
    obtain ⟨hi, -, hedge⟩ := (edge_iff hbound).2 hfeeds
    exact hrespects before j after heq i hi hedge

theorem feedsItself_iff (hbound : ¬ Unbound labelsOf items) :
    FeedsItself labelsOf items ↔
      Topological.Cyclic items.length (precedes (labelList labelsOf items)) := by
  have hrel : Feeds labelsOf items =
      Topological.Edge items.length (precedes (labelList labelsOf items)) := by
    funext i j
    exact propext (edge_iff hbound).symm
  unfold FeedsItself Topological.Cyclic
  rw [hrel]

/-! ### Short lists -/

/-- A list of at most one command has one arrangement. -/
theorem stablyOrdered_short (h : items.length < 2) : StablyOrdered labelsOf items (items, []) := by
  have hnone : ∀ i j, ¬ Feeds labelsOf items i j := by
    rintro i j ⟨hne, a, b, -, -, ha, hb, -⟩
    have hi := (List.getElem?_eq_some_iff.1 ha).1
    have hj := (List.getElem?_eq_some_iff.1 hb).1
    omega
  have hone : ∀ other : List ℕ, other.Perm (List.range items.length) →
      List.range items.length = other := by
    intro other hperm
    have hlength : items.length = 0 ∨ items.length = 1 := by omega
    rcases hlength with hzero | hone
    · rw [hzero] at hperm ⊢
      exact (List.perm_nil.1 hperm).symm
    · rw [hone] at hperm ⊢
      exact (List.perm_singleton.1 hperm).symm
  refine ⟨⟨fun hfail => absurd rfl hfail, fun hlong => absurd hlong.1 (not_le.2 h)⟩,
    fun hfail => absurd rfl hfail, fun _ => ⟨List.range items.length, ?_, ⟨.refl _, ?_⟩, ?_⟩⟩
  · exact (Topological.filterMap_getElem?_range items).symm
  · exact fun _ _ _ _ i hfeeds => absurd hfeeds (hnone i _)
  · exact fun other hother => .inl (hone other hother.perm)

/-! ### The theorem -/

theorem unbound_iff : Unbound labelsOf items ↔
    (items.filterMap fun item =>
      match labelsOf item with
      | .error e => some (DeltaFailure.unboundOrder item.command e)
      | .ok _ => none) ≠ [] := by
  rw [Ne, List.filterMap_eq_nil_iff]
  push Not
  refine exists_congr fun item => and_congr_right fun _ => ?_
  cases labelsOf item with
  | error e => simp
  | ok labels => simp

theorem dependencyOrder_stable (labelsOf : LabelTable) (items : List NativeOpenFOAMCommand) :
    StablyOrdered labelsOf items (dependencyOrder labelsOf items) := by
  by_cases hshort : items.length < 2
  · rw [dependencyOrder, if_pos hshort]
    exact stablyOrdered_short hshort
  have hlong : 2 ≤ items.length := not_lt.1 hshort
  by_cases hbound : Unbound labelsOf items
  · -- the failures name the commands whose scope cannot be bound
    have hfailures := unbound_iff.1 hbound
    have hresult : dependencyOrder labelsOf items = (items, items.filterMap fun item =>
        match labelsOf item with
        | .error e => some (DeltaFailure.unboundOrder item.command e)
        | .ok _ => none) := by
      rw [dependencyOrder, if_neg hshort]
      exact if_pos hfailures
    rw [hresult]
    exact ⟨⟨fun _ => ⟨hlong, .inl hbound⟩, fun _ => hfailures⟩, fun _ => rfl,
      fun hnil => absurd hnil hfailures⟩
  have hplain := not_not.1 (mt unbound_iff.2 hbound)
  have hresult : dependencyOrder labelsOf items =
      match Topological.order items.length (precedes (labelList labelsOf items)) with
      | some order => (order.filterMap fun i => items[i]?, [])
      | none => (items, [.cycle ((items.zip
          (Topological.run items.length (precedes (labelList labelsOf items))).indegree).filterMap
            fun item => if item.2 > 0 then some item.1.command else none)]) := by
    rw [dependencyOrder, if_neg hshort]
    exact if_neg (not_not.2 hplain)
  rw [hresult]
  cases horder : Topological.order items.length (precedes (labelList labelsOf items)) with
  | none =>
    have hcycle := (feedsItself_iff hbound).2 (Topological.order_eq_none_iff.1 horder)
    exact ⟨⟨fun _ => ⟨hlong, .inr hcycle⟩, fun _ => List.cons_ne_nil _ _⟩, fun _ => rfl, nofun⟩
  | some order =>
    have hacyclic : ¬ FeedsItself labelsOf items := fun hcycle => by
      rw [Topological.order_eq_none_iff.2 ((feedsItself_iff hbound).1 hcycle)] at horder
      cases horder
    refine ⟨⟨fun hfail => absurd rfl hfail, fun hfail => ?_⟩, fun hfail => absurd rfl hfail,
      fun _ => ⟨order, rfl, (arrangement_iff hbound).2 (Topological.order_respects horder), ?_⟩⟩
    · exact absurd hfail.2 (not_or.2 ⟨hbound, hacyclic⟩)
    · intro other hother
      obtain ⟨hperm, hrespects⟩ := (arrangement_iff hbound).1 hother
      exact Topological.order_least horder hperm hrespects

/-- **The stable order**, for any labels, and those of the registry among them. -/
theorem stable_dependency_order :
    (∀ labelsOf items, StablyOrdered labelsOf items (dependencyOrder labelsOf items)) ∧
      ∀ plan items, StablyOrdered (orderingLabels plan) items (stableDependencyOrder plan items) :=
  ⟨dependencyOrder_stable, fun plan items => by
    rw [stableDependencyOrder_eq]
    exact dependencyOrder_stable _ _⟩

/-- A patch command for a region that no scope of the plan has. -/
def strayCommand : NativeOpenFOAMCommand where
  command := "createPatch".toList
  arguments := ["-region".toList, "fluid".toList]
  role := .mesh

/-- A single command whose scope cannot be bound is returned without a failure. -/
theorem single_command_unbound :
    ¬ ((stableDependencyOrder (planRequiring []) [strayCommand]).2 ≠ [] ↔
      Unbound (orderingLabels (planRequiring [])) [strayCommand] ∨
        FeedsItself (orderingLabels (planRequiring [])) [strayCommand]) := by
  intro h
  have hstray : orderingLabels (planRequiring []) strayCommand =
      .error (.unbound (some "fluid".toList)) := by
    decide +kernel
  exact h.2 (.inl ⟨strayCommand, List.mem_cons_self, _, hstray⟩) rfl

end Engineering
end OpenFoamAgent
