/-
# What a successful report says about conservation

`_build_report` of `postprocessing/agent.py` keeps the analyses whose check is
still the plan's and whose sources are still current, and is successful only if
every resolved check has one of them and each of them passed.

A passed analysis balances the check it was made for as far as there was
something to evaluate: without a second saved time there is no interval, and an
approved check may leave the interfaces out (`Balanced`, `Evidenced`).
-/
import OpenFoamAgent.Library.Runs
import OpenFoamAgent.Library.Traversal
import OpenFoamAgent.Postprocessing.Conservation
import OpenFoamAgent.Schemas.CasePlan

namespace OpenFoamAgent
namespace Postprocessing

open Python Schemas Engineering

variable {saved : SavedFields} {check : ConservationCheck} {plan : EngineeringPlan}

/-- An analysis shows the balance of a check: every region has an interval, every interval
closes within its tolerance, and at every saved time the fluxes of every interface between two
regions of the check cancel within their tolerance. -/
structure Balanced (plan : EngineeringPlan) (check : ConservationCheck) (a : Analysis) : Prop where
  evaluated : ∀ r ∈ check.regions, ∃ i ∈ a.intervals, i.region = r.region
  closed : ∀ i ∈ a.intervals, (i.storageRate + i.outwardFlux - i.sourceRate).abs.le i.tolerance
  coupled : ∀ f ∈ plan.interfaces, f.region ∈ check.regions.map (·.region) →
    f.neighbourRegion ∈ check.regions.map (·.region) → ∀ name ∈ check.timeNames,
      ∃ row ∈ a.interfaces, row.pair = interfaceKey f ∧ parseFloat name = some row.time ∧
        row.residual.abs.le row.tolerance

/-- The part of the balance that a passed analysis shows: the intervals of checks with two times,
and the interfaces of checks that ask for them. -/
structure Evidenced (plan : EngineeringPlan) (check : ConservationCheck) (a : Analysis) :
    Prop where
  evaluated : 2 ≤ check.timeNames.length → ∀ r ∈ check.regions, ∃ i ∈ a.intervals,
    i.region = r.region
  closed : ∀ i ∈ a.intervals, (i.storageRate + i.outwardFlux - i.sourceRate).abs.le i.tolerance
  coupled : check.checkInterfaces → ∀ f ∈ plan.interfaces,
    f.region ∈ check.regions.map (·.region) → f.neighbourRegion ∈ check.regions.map (·.region) →
      ∀ name ∈ check.timeNames, ∃ row ∈ a.interfaces, row.pair = interfaceKey f ∧
        parseFloat name = some row.time ∧ row.residual.abs.le row.tolerance

/-! ### The loops of the analysis -/

theorem readSamples_times {kind : BalanceKind} {region : RegionBalance} {mesh : RegionMesh}
    {names : List Text} {evidence evidence' : Evidence} {samples : List Sample}
    (h : readSamples saved kind region mesh names evidence = .ok (samples, evidence')) :
    samples.map (fun s => some s.time) = names.map parseFloat := by
  induction names generalizing evidence samples with
  | nil =>
    cases h
    rfl
  | cons name names ih =>
    unfold readSamples at h
    obtain ⟨⟨sample, evidence₁⟩, hsample, h⟩ := Traversal.bind_eq_ok.1 h
    obtain ⟨⟨rest, evidence₂⟩, hrest, h⟩ := Traversal.bind_eq_ok.1 h
    cases h
    rw [List.map_cons, List.map_cons, ih hrest]
    congr 1
    unfold readSample at hsample
    obtain ⟨⟨fluxes, evidence₃⟩, -, hsample⟩ := Traversal.bind_eq_ok.1 hsample
    obtain ⟨⟨storage, evidence₄⟩, -, hsample⟩ := Traversal.bind_eq_ok.1 hsample
    obtain ⟨⟨source, evidence₅⟩, -, hsample⟩ := Traversal.bind_eq_ok.1 hsample
    rcases htime : parseFloat name with _ | time
    · rw [htime] at hsample
      cases hsample
    · rw [htime] at hsample
      obtain ⟨rfl, -⟩ := Prod.mk.inj (Except.ok.inj hsample)
      rfl

/-- An interval is of its region, and its verdict is the comparison of its residual. -/
theorem balanceInterval_eq_ok {region : Text} {a b : Sample} {i : BalanceInterval}
    (h : balanceInterval check region a b = .ok i) :
    i.region = region ∧
      i.passed = (i.storageRate + i.outwardFlux - i.sourceRate).abs.le i.tolerance := by
  unfold balanceInterval at h
  split at h
  · cases h
  · dsimp only at h
    split_ifs at h
    rw [Except.ok.injEq] at h
    subst h
    refine ⟨rfl, ?_⟩
    dsimp only

theorem balanceIntervals_eq_ok {region : Text} {samples : List Sample}
    {intervals : List BalanceInterval}
    (h : balanceIntervals check region samples = .ok intervals) :
    (∀ i ∈ intervals, i.region = region ∧
      i.passed = (i.storageRate + i.outwardFlux - i.sourceRate).abs.le i.tolerance) ∧
      (2 ≤ samples.length → intervals ≠ []) := by
  refine ⟨fun i hi => ?_, fun hlength hnil => ?_⟩
  · obtain ⟨pair, -, hpair⟩ := Traversal.ok_of_mem_mapM h hi
    exact balanceInterval_eq_ok hpair
  · obtain ⟨a, b, rest, rfl⟩ : ∃ a b rest, samples = a :: b :: rest := by
      rcases samples with _ | ⟨a, _ | ⟨b, rest⟩⟩
      · simp at hlength
      · simp at hlength
      · exact ⟨a, b, rest, rfl⟩
    obtain ⟨i, hi, -⟩ := Traversal.exists_mem_of_mapM h (a := (a, b)) (by simp)
    rw [hnil] at hi
    cases hi

/-- What the loop over the regions observes and evaluates. -/
theorem balanceRegions_eq_ok {regions : List RegionBalance} {evidence evidence' : Evidence}
    {observed : List (Text × List Sample)} {intervals : List BalanceInterval}
    (h : balanceRegions saved check regions evidence = .ok (observed, intervals, evidence')) :
    observed.map Prod.fst = regions.map (·.region) ∧
      (∀ o ∈ observed, o.2.map (fun s => some s.time) = check.timeNames.map parseFloat) ∧
      (∀ i ∈ intervals,
        i.passed = (i.storageRate + i.outwardFlux - i.sourceRate).abs.le i.tolerance) ∧
      (2 ≤ check.timeNames.length → ∀ r ∈ regions, ∃ i ∈ intervals, i.region = r.region) := by
  induction regions generalizing evidence observed intervals with
  | nil =>
    cases h
    simp
  | cons region regions ih =>
    unfold balanceRegions at h
    obtain ⟨⟨mesh, evidence₁⟩, -, h⟩ := Traversal.bind_eq_ok.1 h
    obtain ⟨⟨samples, evidence₂⟩, hsamples, h⟩ := Traversal.bind_eq_ok.1 h
    obtain ⟨first, hfirst, h⟩ := Traversal.bind_eq_ok.1 h
    obtain ⟨⟨observed', rest, evidence₃⟩, hrest, h⟩ := Traversal.bind_eq_ok.1 h
    cases h
    obtain ⟨hregions, htimes, hpassed, hsome⟩ := ih hrest
    obtain ⟨hintervals, hnonempty⟩ := balanceIntervals_eq_ok hfirst
    have hnames := readSamples_times hsamples
    refine ⟨by rw [List.map_cons, List.map_cons, hregions], ?_, ?_, fun htwo r hr => ?_⟩
    · intro o ho
      rcases List.mem_cons.1 ho with rfl | ho
      · exact hnames
      · exact htimes o ho
    · intro i hi
      rcases List.mem_append.1 hi with hi | hi
      · exact (hintervals i hi).2
      · exact hpassed i hi
    · rcases List.mem_cons.1 hr with rfl | hr
      · have hlength : samples.length = check.timeNames.length := by
          simpa using congrArg List.length hnames
        obtain ⟨i, hi⟩ := List.exists_mem_of_ne_nil _ (hnonempty (hlength ▸ htwo))
        exact ⟨i, List.mem_append_left _ hi, (hintervals i hi).1⟩
      · obtain ⟨i, hi, hregion⟩ := hsome htwo r hr
        exact ⟨i, List.mem_append_right _ hi, hregion⟩

theorem interfaceRow_eq_ok {f : RegionInterface} {x y : Sample} {row : InterfaceRow}
    (h : interfaceRow check f x y = .ok row) :
    row.pair = interfaceKey f ∧ row.time = x.time ∧
      row.passed = row.residual.abs.le row.tolerance := by
  unfold interfaceRow at h
  split at h
  · dsimp only at h
    rw [Except.ok.injEq] at h
    subst h
    exact ⟨rfl, rfl, rfl⟩
  · cases h

/-- The rows of an interface, one for each saved time. -/
theorem interfaceRows_eq_ok {f : RegionInterface} {xs ys : List Sample} {rows : List InterfaceRow}
    (h : ((xs.zip ys).mapM fun pair => interfaceRow check f pair.1 pair.2) = .ok rows)
    (hxs : xs.map (fun s => some s.time) = check.timeNames.map parseFloat)
    (hys : ys.map (fun s => some s.time) = check.timeNames.map parseFloat) :
    (∀ row ∈ rows, row.passed = row.residual.abs.le row.tolerance) ∧
      ∀ name ∈ check.timeNames, ∃ row ∈ rows, row.pair = interfaceKey f ∧
        parseFloat name = some row.time := by
  refine ⟨fun row hrow => ?_, fun name hname => ?_⟩
  · obtain ⟨pair, -, hpair⟩ := Traversal.ok_of_mem_mapM h hrow
    exact (interfaceRow_eq_ok hpair).2.2
  · have hlength : xs.length ≤ ys.length := by
      have hx := congrArg List.length hxs
      have hy := congrArg List.length hys
      rw [List.length_map, List.length_map] at hx hy
      omega
    have hmem : parseFloat name ∈ xs.map fun s => some s.time := hxs ▸ List.mem_map_of_mem hname
    obtain ⟨x, hx, htime⟩ := List.mem_map.1 hmem
    rw [← List.map_fst_zip hlength, List.mem_map] at hx
    obtain ⟨pair, hpair, rfl⟩ := hx
    obtain ⟨row, hrow, hpassed⟩ := Traversal.exists_mem_of_mapM h hpair
    obtain ⟨hkey, hrowTime, -⟩ := interfaceRow_eq_ok hpassed
    exact ⟨row, hrow, hkey, by rw [hrowTime, ← htime]⟩

/-- What the loop over the interfaces has done after some of them. -/
structure InterfacesDone (check : ConservationCheck) (observations : Dict Text (List Sample))
    (done : List RegionInterface)
    (state : List ((Text × Text) × Text × Text) × List InterfaceRow) : Prop where
  seen : ∀ f ∈ done, (observations.get f.region).isSome →
    (observations.get f.neighbourRegion).isSome → interfaceKey f ∈ state.1
  rows : ∀ key ∈ state.1, ∀ name ∈ check.timeNames, ∃ row ∈ state.2, row.pair = key ∧
    parseFloat name = some row.time
  passed : ∀ row ∈ state.2, row.passed = row.residual.abs.le row.tolerance

theorem InterfacesDone.step {observations : Dict Text (List Sample)} {done : List RegionInterface}
    {state state' : List ((Text × Text) × Text × Text) × List InterfaceRow} {f : RegionInterface}
    (h : InterfacesDone check observations done state)
    (htimes : ∀ region xs, observations.get region = some xs →
      xs.map (fun s => some s.time) = check.timeNames.map parseFloat)
    (hstep : interfaceStep check observations state f = .ok state') :
    InterfacesDone check observations (done ++ [f]) state' := by
  unfold interfaceStep at hstep
  split at hstep
  · rename_i hleft _
    obtain rfl := Except.ok.inj hstep
    refine ⟨fun g hg hregion hneighbour => ?_, h.rows, h.passed⟩
    rcases List.mem_append.1 hg with hg | hg
    · exact h.seen g hg hregion hneighbour
    · obtain rfl := List.mem_singleton.1 hg
      rw [hleft] at hregion
      cases hregion
  · rename_i xs ys hxs hys
    split_ifs at hstep with hcontains
    · obtain rfl := Except.ok.inj hstep
      refine ⟨fun g hg hregion hneighbour => ?_, h.rows, h.passed⟩
      rcases List.mem_append.1 hg with hg | hg
      · exact h.seen g hg hregion hneighbour
      · obtain rfl := List.mem_singleton.1 hg
        exact List.contains_iff_mem.1 hcontains
    · obtain ⟨rows, hrows, hstep⟩ := Traversal.bind_eq_ok.1 hstep
      obtain rfl := Except.ok.inj hstep
      obtain ⟨hpassed, hevery⟩ := interfaceRows_eq_ok hrows (htimes _ _ hxs) (htimes _ _ hys)
      refine ⟨fun g hg hregion hneighbour => ?_, fun key hkey name hname => ?_, fun row hrow => ?_⟩
      · rcases List.mem_append.1 hg with hg | hg
        · exact List.mem_cons_of_mem _ (h.seen g hg hregion hneighbour)
        · obtain rfl := List.mem_singleton.1 hg
          exact List.mem_cons_self
      · rcases List.mem_cons.1 hkey with rfl | hkey
        · obtain ⟨row, hrow, hrow'⟩ := hevery name hname
          exact ⟨row, List.mem_append_right _ hrow, hrow'⟩
        · obtain ⟨row, hrow, hrow'⟩ := h.rows key hkey name hname
          exact ⟨row, List.mem_append_left _ hrow, hrow'⟩
      · rcases List.mem_append.1 hrow with hrow | hrow
        · exact h.passed row hrow
        · exact hpassed row hrow
  · cases hstep

/-- **What a verified analysis shows.** -/
theorem evidenced_of_verified {a : Analysis} (h : analyzeConservation saved check plan = .ok a)
    (hverified : a.verified) : a.id = check.id ∧ a.contract = check ∧ Evidenced plan check a := by
  unfold analyzeConservation at h
  obtain ⟨layouts, -, h⟩ := Traversal.bind_eq_ok.1 h
  split_ifs at h with _ hinterfaces
  · obtain ⟨⟨observed, intervals, evidence⟩, hregions, h⟩ := Traversal.bind_eq_ok.1 h
    obtain ⟨⟨seen, rows⟩, hrows, h⟩ := Traversal.bind_eq_ok.1 h
    split_ifs at h
    obtain rfl := Except.ok.inj h
    obtain ⟨hobserved, htimes, hpassed, hsome⟩ := balanceRegions_eq_ok hregions
    have hall := Bool.and_eq_true_iff.1 hverified
    have hdone : InterfacesDone check (.ofItems observed) plan.interfaces (seen, rows) :=
      Traversal.foldlM_induct hrows ⟨nofun, nofun, nofun⟩ fun done f _ state state' hdone hstep =>
        hdone.step (fun region xs hget => htimes _ (Dict.mem_of_get_ofItems hget)) hstep
    refine ⟨rfl, rfl, hsome, fun i hi => ?_, fun _ f hf hregion hneighbour name hname => ?_⟩
    · rw [← hpassed i hi]
      exact List.all_eq_true.1 hall.1 i hi
    · rw [← hobserved] at hregion hneighbour
      obtain ⟨xs, hxs⟩ := Dict.exists_get_ofItems hregion
      obtain ⟨ys, hys⟩ := Dict.exists_get_ofItems hneighbour
      have hseen := hdone.seen f hf (by rw [hxs]; rfl) (by rw [hys]; rfl)
      obtain ⟨row, hrow, hpair, htime⟩ := hdone.rows _ hseen name hname
      refine ⟨row, hrow, hpair, htime, ?_⟩
      rw [← hdone.passed row hrow]
      exact List.all_eq_true.1 hall.2 row hrow
  · obtain ⟨⟨observed, intervals, evidence⟩, hregions, h⟩ := Traversal.bind_eq_ok.1 h
    obtain ⟨⟨seen, rows⟩, -, h⟩ := Traversal.bind_eq_ok.1 h
    split_ifs at h
    obtain rfl := Except.ok.inj h
    obtain ⟨-, -, hpassed, hsome⟩ := balanceRegions_eq_ok hregions
    have hall := Bool.and_eq_true_iff.1 hverified
    refine ⟨rfl, rfl, hsome, fun i hi => ?_, fun hchecks => absurd hchecks hinterfaces⟩
    rw [← hpassed i hi]
    exact List.all_eq_true.1 hall.1 i hi

/-! ### The report -/

/-- A plan with its conservation checks decoded. -/
structure BalancePlan where
  plan : EngineeringPlan
  checks : List ConservationCheck

/-- `AnalyzeConservationAction`: an analysis replaces the earlier ones of its check; an analysis
that raises leaves them. Where two checks have one id the last is meant. -/
def analyzeAction (p : BalancePlan) (analyses : List Analysis) (action : SavedFields × Text) :
    List Analysis :=
  match (Dict.ofItems (p.checks.map fun c => (c.id, c))).get action.2 with
  | none => analyses
  | some spec =>
    match analyzeConservation action.1 spec p.plan with
    | .error _ => analyses
    | .ok analysis => analyses.filter (·.id ≠ action.2) ++ [analysis]

/-- What else the report rests on. -/
structure OtherEvidence where
  /-- There is an artifact, a force analysis or a quantity analysis. -/
  present : Bool
  /-- `quantities_failed` -/
  quantitiesFailed : Bool

/-- `PostProcessingReport`, as far as conservation goes. -/
structure Report where
  success : Bool
  conservation : List Analysis

/-- The analysis is of a check the plan still has, and its sources are current. -/
def currentAnalysis (p : BalancePlan) (saved : SavedFields) (a : Analysis) : Bool :=
  ((p.checks.find? fun c => c.id = a.id).any fun spec => spec = a.contract) &&
    saved.sourcesCurrent a.sources

/-- `_build_report`. -/
def buildReport (p : BalancePlan) (saved : SavedFields) (other : OtherEvidence)
    (analyses : List Analysis) : Report :=
  let conservation := analyses.filter (currentAnalysis p saved)
  let required := (p.checks.filter fun c => c.resolutionState = .resolved).map (·.id)
  let missing := required.filter fun id => !(conservation.map (·.id)).contains id
  let balanceFailed := missing ≠ [] || conservation.any (!·.verified)
  { success := (other.present || conservation ≠ []) && !(balanceFailed || other.quantitiesFailed)
    conservation }

/-- Every resolved check of the plan is balanced by an analysis of the report. -/
def ReportSound (p : BalancePlan) (r : Report) : Prop :=
  r.success → ∀ c ∈ p.checks, c.resolutionState = .resolved →
    ∃ a ∈ r.conservation, a.contract = c ∧ Balanced p.plan c a

/-- The analyses of a run are what their checks gave on some saved fields. -/
def Analysed (p : BalancePlan) (analyses : List Analysis) : Prop :=
  ∀ a ∈ analyses, ∃ saved check, analyzeConservation saved check p.plan = .ok a

theorem analysed_step {p : BalancePlan} {analyses : List Analysis} (action : SavedFields × Text)
    (h : Analysed p analyses) : Analysed p (analyzeAction p analyses action) := by
  unfold analyzeAction
  split
  · exact h
  · split
    · exact h
    · rename_i analysis hanalysis
      intro a ha
      rcases List.mem_append.1 ha with ha | ha
      · exact h a (List.mem_of_mem_filter ha)
      · obtain rfl := List.mem_singleton.1 ha
        exact ⟨_, _, hanalysis⟩

theorem analysed_run (p : BalancePlan) (actions : List (SavedFields × Text)) :
    Analysed p (Runs.run (analyzeAction p) [] actions) := by
  induction actions using List.reverseRecOn with
  | nil => exact nofun
  | append_singleton actions action ih =>
    rw [Runs.run_append]
    exact analysed_step action ih

/-- What a successful report has for a resolved check whose id no other check has. -/
theorem exists_verified_of_success {p : BalancePlan} {other : OtherEvidence}
    {analyses : List Analysis} (h : (buildReport p saved other analyses).success = true)
    (hcheck : check ∈ p.checks) (hresolved : check.resolutionState = .resolved)
    (hid : ∀ d ∈ p.checks, d.id = check.id → d = check) :
    ∃ a ∈ (buildReport p saved other analyses).conservation, a.contract = check ∧ a.verified := by
  obtain ⟨-, hfailed⟩ := Bool.and_eq_true_iff.1 h
  rw [Bool.not_eq_true', Bool.or_eq_false_iff, Bool.or_eq_false_iff] at hfailed
  obtain ⟨⟨hmissing, hverified⟩, -⟩ := hfailed
  have hnil : ∀ id ∈ (p.checks.filter fun c => c.resolutionState = .resolved).map (·.id),
      id ∈ (analyses.filter (currentAnalysis p saved)).map (·.id) := by
    intro id hmem
    have hcontained := List.filter_eq_nil_iff.1 (not_not.1 (of_decide_eq_false hmissing)) id hmem
    rw [Bool.not_eq_true, Bool.not_eq_false'] at hcontained
    exact List.contains_iff_mem.1 hcontained
  obtain ⟨a, ha, haid⟩ := List.mem_map.1 (hnil check.id
    (List.mem_map_of_mem (List.mem_filter.2 ⟨hcheck, decide_eq_true hresolved⟩)))
  refine ⟨a, ha, ?_, ?_⟩
  · have hcurrent := (Bool.and_eq_true_iff.1 (List.mem_filter.1 ha).2).1
    obtain ⟨spec, hspec, heq⟩ := (Option.any_eq_true _ _).1 hcurrent
    have hspecId : spec.id = a.id := by simpa using List.find?_some hspec
    rw [← of_decide_eq_true heq]
    exact hid spec (List.mem_of_find?_eq_some hspec) (hspecId.trans haid)
  · have hpassed := List.any_eq_false.1 hverified a ha
    rwa [Bool.not_eq_true', Bool.not_eq_false] at hpassed

/-- **What is reported as conserved.** A verified analysis shows every interval of its check
within its tolerance, one for every region when the check has two times, and every interface at
every time when the check asks for them; and a report is successful only if every resolved check
whose id no other check has is shown so. -/
theorem evidenced_of_report (p : BalancePlan) :
    (∀ saved check a, analyzeConservation saved check p.plan = .ok a → a.verified →
      Evidenced p.plan check a) ∧
    ∀ actions saved other,
      (buildReport p saved other (Runs.run (analyzeAction p) [] actions)).success →
      ∀ c ∈ p.checks, c.resolutionState = .resolved → (∀ d ∈ p.checks, d.id = c.id → d = c) →
        ∃ a ∈ (buildReport p saved other (Runs.run (analyzeAction p) [] actions)).conservation,
          a.contract = c ∧ a.verified ∧ Evidenced p.plan c a := by
  refine ⟨fun saved check a h hverified => (evidenced_of_verified h hverified).2.2, ?_⟩
  intro actions saved other hsuccess c hc hresolved hid
  obtain ⟨a, ha, hcontract, hverified⟩ := exists_verified_of_success hsuccess hc hresolved hid
  obtain ⟨saved', check, hanalysis⟩ := analysed_run p actions a (List.mem_of_mem_filter ha)
  obtain ⟨-, hspec, hevidenced⟩ := evidenced_of_verified hanalysis hverified
  obtain rfl : check = c := hspec.symm.trans hcontract
  exact ⟨a, ha, hcontract, hverified, hevidenced⟩

/-! ### Examples -/

/-- Unit cubes with the patches `in` and `out`. The field `phi` enters at `in` and leaves at
`out`, the field `psi` leaves at both, and every other field is zero. -/
def cubes : SavedFields where
  readMesh := fun _ evidence =>
    .ok (⟨["in".toList, "out".toList], by decide, [.finite false (2 ^ 1074)]⟩, evidence)
  readVolumes := fun _ _ name _ _ _ => .error (.evidence name)
  readFluxes := fun _ _ name _ _ evidence =>
    .ok (fun patch =>
      if name = "phi".toList then [.finite (patch = "in".toList) (2 ^ 1074)]
      else if name = "psi".toList then [.finite false (2 ^ 1074)]
      else [0], evidence)
  sourcesCurrent := fun _ => true

/-- A resolved check of a steady balance without sources in the regions `fluid` and `solid`. -/
def steadyCheck (fluid solid : String) (times : List String) : ConservationCheck where
  id := "closure".toList
  kind := .mass
  resolutionState := .resolved
  regions := [{ region := "fluid".toList, fluxField := fluid.toList },
    { region := "solid".toList, fluxField := solid.toList }]
  timeNames := times.map String.toList

/-- A plan of two regions, the outlet of the one coupled to the inlet of the other. -/
def coupledPlan (checks : List ConservationCheck) : BalancePlan where
  plan := { planRequiring [] with
    regionLayouts := [{ region := "fluid".toList }, { region := "solid".toList }]
    interfaces := [⟨"fluid".toList, "out".toList, "solid".toList, "in".toList, []⟩] }
  checks

/-- The run of one analysis. -/
def closureRun : List (SavedFields × Text) := [(cubes, "closure".toList)]

/-- The report after one analysis. -/
def reportOn (checks : List ConservationCheck) : Report :=
  buildReport (coupledPlan checks) cubes ⟨false, false⟩
    (Runs.run (analyzeAction (coupledPlan checks)) [] closureRun)

/-- The report on two regions that balance, with the flux between them. -/
theorem evidenced_of_report_coupled :
    ∃ a ∈ (reportOn [steadyCheck "phi" "phi" ["0", "1"]]).conservation,
      a.contract = steadyCheck "phi" "phi" ["0", "1"] ∧ a.verified ∧
      Evidenced (coupledPlan [steadyCheck "phi" "phi" ["0", "1"]]).plan
        (steadyCheck "phi" "phi" ["0", "1"]) a :=
  (evidenced_of_report (coupledPlan [steadyCheck "phi" "phi" ["0", "1"]])).2 closureRun cubes
    ⟨false, false⟩ (by decide +kernel) _ List.mem_cons_self rfl
    fun _ hd _ => List.mem_singleton.1 hd

/-- **What passes unevaluated.** A check of one saved time has no interval: the report is
successful although twice the flux leaves `fluid`. A check that does not ask for the interfaces
passes although nothing arrives in `solid`. And where three checks have one id, the middle one is
never analysed. -/
theorem unevaluated_reports :
    let single := steadyCheck "psi" "phi" ["0"]
    let apart := { steadyCheck "phi" "still" ["0", "1"] with checkInterfaces := false }
    let outer := steadyCheck "phi" "phi" ["0", "1"]
    let inner := steadyCheck "psi" "psi" ["0", "1"]
    (single.validateBalance = .ok () ∧ ¬ ReportSound (coupledPlan [single]) (reportOn [single])) ∧
      (apart.validateBalance = .ok () ∧ ¬ ReportSound (coupledPlan [apart]) (reportOn [apart])) ∧
      (inner.validateBalance = .ok () ∧ outer.validateBalance = .ok () ∧
        ¬ ReportSound (coupledPlan [outer, inner, outer]) (reportOn [outer, inner, outer])) := by
  intro single apart outer inner
  refine ⟨⟨by decide +kernel, fun h => ?_⟩, ⟨by decide +kernel, fun h => ?_⟩,
    by decide +kernel, by decide +kernel, fun h => ?_⟩
  · obtain ⟨a, ha, -, hbalanced⟩ := h (by decide +kernel) single List.mem_cons_self rfl
    have hnone : ∀ a ∈ (reportOn [single]).conservation, a.intervals = [] := by decide +kernel
    obtain ⟨i, hi, -⟩ := hbalanced.evaluated _ List.mem_cons_self
    rw [hnone a ha] at hi
    cases hi
  · obtain ⟨a, ha, -, hbalanced⟩ := h (by decide +kernel) apart List.mem_cons_self rfl
    have hnone : ∀ a ∈ (reportOn [apart]).conservation, a.interfaces = [] := by decide +kernel
    obtain ⟨row, hrow, -⟩ := hbalanced.coupled _ List.mem_cons_self (by decide +kernel)
      (by decide +kernel) _ List.mem_cons_self
    rw [hnone a ha] at hrow
    cases hrow
  · obtain ⟨a, ha, hcontract, -⟩ := h (by decide +kernel) inner
      (List.mem_cons_of_mem _ List.mem_cons_self) rfl
    have hother : ∀ a ∈ (reportOn [outer, inner, outer]).conservation, a.contract ≠ inner := by
      decide +kernel
    exact hother a ha hcontract

end Postprocessing
end OpenFoamAgent
