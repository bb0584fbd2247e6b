/-
# Runs of the post-processing agent

What a run does whatever the model asks for, the tools answer and the processes leave. A process is
started on a dictionary whose content is the one last recorded for it, and on a case whose seal is
verified (`run_grounded`). The agent itself leaves the seal verified (`run_sealed`). A run that
returns has a report and waits for the review (`run_reviewed`), and a plan that ends it has run each
process on the dictionary the plan gave (`executeExecutionPlan_runs`).
-/
import OpenFoamAgent.Library.Repetitions
import OpenFoamAgent.Postprocessing.Agent

namespace OpenFoamAgent
namespace Postprocessing

open Python Schemas Workspace Workflow Tools

/-- What a process is started on. -/
structure Grounded (plan : EngineeringPlan) (caseSeal : CaseSeal) (start : PostProcessStart) :
    Prop where
  config : isConfigText start.spec.dictionaryPath
  dictionary : ∃ b, start.workspace.tree.fileAt (locate start.spec.dictionaryPath) = some b ∧
    latestConfigDigest start.events start.spec.dictionaryPath = some ⟨b⟩
  verified : start.workspace.verifySeal caseSeal plan = .ok ()

/-- The seal of a case is verified, and no rollback writes into it. -/
structure Quiet (plan : EngineeringPlan) (caseSeal : CaseSeal) (w : CaseWorkspace) : Prop where
  verified : w.verifySeal caseSeal plan = .ok ()
  untrapped : w.Untrapped

theorem Quiet.of_sameSealed {plan : EngineeringPlan} {caseSeal : CaseSeal} {w w' : CaseWorkspace}
    (h : Quiet plan caseSeal w) (hsame : SameSealed w w') : Quiet plan caseSeal w' :=
  ⟨hsame.verifySeal h.verified, h.untrapped.mono hsame.links⟩

/-- A plan gives a dictionary its content. -/
def PostProcessingExecutionPlan.Gives {A : Type} (isWord : Char → Bool)
    (p : PostProcessingExecutionPlan A) (path content : Text) : Prop :=
  (path, content) ∈ p.configs ∨
    ∃ item ∈ p.typedConfigs, item.path = path ∧ serializeFoamDictionary isWord item = .ok content

namespace PostProcessingSession

variable {A R W : Type} {t : PostProcessTools A R W} {plan : EngineeringPlan}
  {caseSeal : CaseSeal} {step : ℕ} {s s' s'' : PostProcessingSession R W}

/-- What the agent does in front of, between and behind its processes. -/
structure Advance (t : PostProcessTools A R W) (plan : EngineeringPlan) (caseSeal : CaseSeal)
    (s s' : PostProcessingSession R W) (new : List PostProcessStart) : Prop where
  starts : s'.starts = s.starts ++ new
  grounded : ∀ start ∈ new, Grounded plan caseSeal start
  processes : s'.processes = s.processes + new.length
  bounded : new ≠ [] → s'.processes ≤ t.policy.maxNativeCommands
  quiet : Quiet plan caseSeal s.workspace → (∀ start ∈ new, Quiet plan caseSeal start.left) →
    Quiet plan caseSeal s'.workspace

namespace Advance

variable {new new' : List PostProcessStart}

theorem of_same (hstarts : s'.starts = s.starts) (hprocesses : s'.processes = s.processes)
    (hworkspace : SameSealed s.workspace s'.workspace) : Advance t plan caseSeal s s' [] where
  starts := by rw [hstarts, List.append_nil]
  grounded start hstart := by cases hstart
  processes := hprocesses
  bounded h := absurd rfl h
  quiet h _ := h.of_sameSealed hworkspace

theorem refl (s : PostProcessingSession R W) : Advance t plan caseSeal s s [] :=
  .of_same rfl rfl (.refl _)

theorem trans (h : Advance t plan caseSeal s s' new) (h' : Advance t plan caseSeal s' s'' new') :
    Advance t plan caseSeal s s'' (new ++ new') where
  starts := by rw [h'.starts, h.starts, List.append_assoc]
  grounded start hstart := (List.mem_append.1 hstart).elim (h.grounded start) (h'.grounded start)
  processes := by rw [h'.processes, h.processes, List.length_append, Nat.add_assoc]
  bounded hne := by
    by_cases hnew' : new' = []
    · subst hnew'
      rw [List.append_nil] at hne
      rw [h'.processes]
      exact h.bounded hne
    · exact h'.bounded hnew'
  quiet hs hleft := h'.quiet
    (h.quiet hs fun start hstart => hleft start (List.mem_append_left _ hstart))
    fun start hstart => hleft start (List.mem_append_right _ hstart)

end Advance

/-- The agent advances from one session to another. -/
def Advances (t : PostProcessTools A R W) (plan : EngineeringPlan) (caseSeal : CaseSeal)
    (s s' : PostProcessingSession R W) : Prop := ∃ new, Advance t plan caseSeal s s' new

theorem Advances.refl (s : PostProcessingSession R W) : Advances t plan caseSeal s s :=
  ⟨[], .refl s⟩

theorem Advances.trans (h : Advances t plan caseSeal s s') (h' : Advances t plan caseSeal s' s'') :
    Advances t plan caseSeal s s'' := by
  obtain ⟨new, h⟩ := h
  obtain ⟨new', h'⟩ := h'
  exact ⟨new ++ new', h.trans h'⟩

theorem Advances.of_same (hstarts : s'.starts = s.starts) (hprocesses : s'.processes = s.processes)
    (hworkspace : SameSealed s.workspace s'.workspace) : Advances t plan caseSeal s s' :=
  ⟨[], .of_same hstarts hprocesses hworkspace⟩

theorem Advances.of_quiet (hstarts : s'.starts = s.starts)
    (hprocesses : s'.processes = s.processes)
    (hworkspace : Quiet plan caseSeal s.workspace → SameSealed s.workspace s'.workspace) :
    Advances t plan caseSeal s s' := by
  refine ⟨[], ?_, fun start hstart => (by cases hstart), hprocesses, fun h => absurd rfl h,
    fun h _ => h.of_sameSealed (hworkspace h)⟩
  rw [hstarts, List.append_nil]

theorem Advances.record (h : Advances t plan caseSeal s s') (event : RunEvent) :
    Advances t plan caseSeal s (s'.record event) := h.trans (.of_same rfl rfl (.refl _))

theorem Advances.file (h : Advances t plan caseSeal s s') (report : R) :
    Advances t plan caseSeal s (s'.file report) := h.trans (.of_same rfl rfl (.refl _))

/-! ### One action -/

theorem write_advances (t : PostProcessTools A R W) (plan : EngineeringPlan) (caseSeal : CaseSeal)
    (step : ℕ) (s : PostProcessingSession R W) (path content : Text) :
    Advances t plan caseSeal s (s.write t step path content).1 := by
  unfold write
  dsimp only
  split_ifs
  · exact .of_same rfl rfl (.refl _)
  · have hsame := CaseWorkspace.writePostprocessConfig_sameSealed t.host s.workspace path content
    generalize s.workspace.writePostprocessConfig t.host path content = written at hsame
    obtain ⟨w, r⟩ := written
    cases r <;> exact .of_same rfl rfl hsame

/-- What a process can do. -/
inductive Processed (t : PostProcessTools A R W) (plan : EngineeringPlan) (caseSeal : CaseSeal)
    (step : ℕ) (spec : PostProcessRunSpec) (s : PostProcessingSession R W) :
    PostProcessingSession R W × Except Fault RunEvent → Prop where
  | refused {world : W} {fault : Fault} :
      Processed t plan caseSeal step spec s ({ s with world }, .error fault)
  | exhausted (event : RunEvent) (hevent : event.success = false) :
      Processed t plan caseSeal step spec s (s, .ok event)
  | started {world : W} {tree : FileTree Text Bytes} {r : Except Fault RunEvent}
      (hgrounded : Grounded plan caseSeal ⟨spec, s.workspace, s.events, { s.workspace with tree }⟩)
      (hbudget : s.processes < t.policy.maxNativeCommands)
      (hevent : ∀ event, r = .ok event → event.actionType = runType) :
      Processed t plan caseSeal step spec s
        ({ s with
            workspace := { s.workspace with tree }
            world
            processes := s.processes + 1
            starts := s.starts ++ [⟨spec, s.workspace, s.events, { s.workspace with tree }⟩] }, r)

theorem event_eq_ok {policy : PostProcessingPolicy} {actionType output : Text}
    {success native : Bool} {event : RunEvent}
    (h : policy.event step actionType success output native = .ok event) :
    event.actionType = actionType ∧ event.success = success ∧
      event.outputExcerpt = boundedOutput policy.toEventPolicy output := by
  unfold PostProcessingPolicy.event at h
  split_ifs at h
  cases h
  exact ⟨rfl, rfl, rfl⟩

theorem caseFileDigest_eq_ok {w : CaseWorkspace} {p : Text} {d : Digest}
    (h : w.caseFileDigest p = .ok d) : ∃ b, w.tree.fileAt (locate p) = some b ∧ d = ⟨b⟩ := by
  unfold CaseWorkspace.caseFileDigest at h
  obtain ⟨l, hl, h⟩ := Traversal.bind_eq_ok.1 h
  obtain ⟨rfl, -, -, hfile⟩ := CaseWorkspace.resolveCasePath_eq_ok hl
  obtain ⟨b, hb⟩ := Option.isSome_iff_exists.1 (hfile rfl)
  rw [hb] at h
  cases h
  exact ⟨b, hb, rfl⟩

theorem runFoamPostProcess_processed (t : PostProcessTools A R W) (plan : EngineeringPlan)
    (caseSeal : CaseSeal) (step : ℕ) (spec : PostProcessRunSpec)
    (s : PostProcessingSession R W) :
    Processed t plan caseSeal step spec s (s.runFoamPostProcess t plan caseSeal step spec) := by
  have refused : Processed t plan caseSeal step spec s (s, .error .caught) :=
    @Processed.refused _ _ _ _ _ _ _ _ s s.world _
  unfold runFoamPostProcess
  split_ifs with hbudget hconfig
  · exact .exhausted _ rfl
  · split
    · rename_i current expected hcurrent hexpected
      split_ifs with hne
      · exact refused
      · split
        · exact refused
        · rename_i hverified
          obtain ⟨b, hb, rfl⟩ := caseFileDigest_eq_ok hcurrent
          rw [← not_not.1 hne] at hexpected
          generalize t.foamPostProcess spec s.workspace s.world = answer
          obtain ⟨fault | ⟨outcome, tree⟩, world⟩ := answer
          · exact .refused
          · have hgrounded : Grounded plan caseSeal
                ⟨spec, s.workspace, s.events, { s.workspace with tree }⟩ :=
              ⟨hconfig, ⟨b, hb, hexpected⟩, hverified⟩
            cases outcome with
            | raised fault =>
              exact .started hgrounded (not_le.1 hbudget) fun event h => (by cases h)
            | returned success output =>
              exact .started hgrounded (not_le.1 hbudget) fun event h => (event_eq_ok h).1
    · exact refused
  · exact refused

theorem Processed.advances {spec : PostProcessRunSpec}
    {r : PostProcessingSession R W × Except Fault RunEvent}
    (h : Processed t plan caseSeal step spec s r) : Advances t plan caseSeal s r.1 := by
  cases h with
  | refused => exact .of_same rfl rfl (.refl _)
  | exhausted => exact .refl s
  | @started world tree r hgrounded hbudget hevent =>
    refine ⟨[⟨spec, s.workspace, s.events, { s.workspace with tree }⟩], rfl, ?_, rfl,
      fun _ => hbudget, fun _ hleft => ?_⟩
    · intro start hstart
      rwa [List.mem_singleton.1 hstart]
    · exact hleft _ (List.mem_singleton_self _)

theorem perform_advances (t : PostProcessTools A R W) (plan : EngineeringPlan)
    (caseSeal : CaseSeal) (step : ℕ) (s : PostProcessingSession R W)
    (action : PostProcessingAction A) :
    Advances t plan caseSeal s (s.perform t plan caseSeal step action).1 := by
  cases action with
  | write path content => exact write_advances t plan caseSeal step s path content
  | run spec => exact (runFoamPostProcess_processed t plan caseSeal step spec s).advances
  | observe action =>
    unfold perform
    dsimp only
    generalize t.observe action s.workspace s.world = answer
    obtain ⟨fault | ⟨success, output⟩, world⟩ := answer
    · exact .of_same rfl rfl (.refl _)
    · exact .of_same rfl rfl (.refl _)
  | finish summary _ request =>
    unfold perform
    dsimp only
    split
    · exact .refl s
    · exact (Advances.refl s).file _
  | block reason =>
    unfold perform
    dsimp only
    split
    · exact .refl s
    · exact (Advances.refl s).file _

theorem dispatch_session (t : PostProcessTools A R W) (plan : EngineeringPlan)
    (caseSeal : CaseSeal) (step : ℕ) (s : PostProcessingSession R W)
    (action : PostProcessingAction A) :
    (s.dispatch t plan caseSeal step action).1 = (s.perform t plan caseSeal step action).1 := by
  unfold dispatch
  generalize s.perform t plan caseSeal step action = performed
  obtain ⟨s', (_ | _) | _⟩ := performed
  · rfl
  · rfl
  · rfl

theorem dispatch_advances (t : PostProcessTools A R W) (plan : EngineeringPlan)
    (caseSeal : CaseSeal) (step : ℕ) (s : PostProcessingSession R W)
    (action : PostProcessingAction A) :
    Advances t plan caseSeal s (s.dispatch t plan caseSeal step action).1 := by
  rw [dispatch_session]
  exact perform_advances t plan caseSeal step s action

/-! ### Plans -/

theorem dispatchAll_advances (t : PostProcessTools A R W) (plan : EngineeringPlan)
    (caseSeal : CaseSeal) (step : ℕ) (actions : List (PostProcessingAction A))
    (s : PostProcessingSession R W) :
    Advances t plan caseSeal s (dispatchAll t plan caseSeal step actions s).1 := by
  induction actions generalizing s with
  | nil => exact .refl s
  | cons action actions ih =>
    have hfirst := dispatch_advances t plan caseSeal step s action
    unfold dispatchAll
    generalize s.dispatch t plan caseSeal step action = dispatched at hfirst
    obtain ⟨s', _ | ⟨event, terminal⟩⟩ := dispatched
    · exact hfirst
    · dsimp only
      split_ifs
      · exact (hfirst.record event).trans (ih _)
      · exact hfirst.record event

theorem addConfig_config {g : Configs} (path content : Text)
    (h : ∀ c ∈ g.1, isConfigText c.1) : ∀ c ∈ (addConfig g path content).1, isConfigText c.1 := by
  unfold addConfig
  split_ifs with hpath
  · split
    · intro c hc
      rcases List.mem_append.1 hc with hc | hc
      · exact h c hc
      · rw [List.mem_singleton.1 hc]
        exact (Bool.and_eq_true_iff.1 hpath).1
    · split_ifs <;> exact h
  · exact h

theorem collectConfigs_config (isWord : Char → Bool) (p : PostProcessingExecutionPlan A) :
    ∀ c ∈ (collectConfigs isWord p).1, isConfigText c.1 := by
  unfold collectConfigs
  have hconfigs : ∀ (items : List (Text × Text)) (g : Configs), (∀ c ∈ g.1, isConfigText c.1) →
      ∀ c ∈ (items.foldl (fun g item => addConfig g item.1 item.2) g).1, isConfigText c.1 := by
    intro items
    induction items with
    | nil => exact fun g h => h
    | cons item items ih => exact fun g h => ih _ (addConfig_config item.1 item.2 h)
  have hstart := hconfigs p.configs ([], []) fun c hc => (by cases hc)
  generalize p.configs.foldl (fun g item => addConfig g item.1 item.2) ([], []) = g at hstart
  generalize p.typedConfigs = items
  induction items generalizing g with
  | nil => exact hstart
  | cons item items ih =>
    refine ih _ ?_
    dsimp only
    split
    · exact addConfig_config _ _ hstart
    · exact hstart

theorem compilePostprocessGraph_eq_ok {host : Host} {isWord : Char → Bool} {w : CaseWorkspace}
    {p : PostProcessingExecutionPlan A} {configs : List (Text × Text)}
    {failures : List GraphFailure}
    (h : compilePostprocessGraph host isWord w p = .ok (configs, failures)) :
    configs = (collectConfigs isWord p).1 ∧ (failures = [] → (collectConfigs isWord p).2 = []) := by
  unfold compilePostprocessGraph at h
  generalize collectConfigs isWord p = g at h
  obtain ⟨configs', failures'⟩ := g
  obtain ⟨bundle, -, h⟩ := Traversal.bind_eq_ok.1 h
  obtain ⟨runs, -, h⟩ := Traversal.bind_eq_ok.1 h
  obtain ⟨analyses, -, h⟩ := Traversal.bind_eq_ok.1 h
  cases h
  refine ⟨rfl, fun hnil => ?_⟩
  have hnil := Repetitions.eq_nil_of_eraseDups hnil
  simp only [List.append_eq_nil_iff] at hnil
  exact hnil.1.1.1

theorem executeExecutionPlan_advances (t : PostProcessTools A R W) (plan : EngineeringPlan)
    (caseSeal : CaseSeal) (step : ℕ) (s : PostProcessingSession R W)
    (p : PostProcessingExecutionPlan A) :
    Advances t plan caseSeal s (s.executeExecutionPlan t plan caseSeal step p).1 := by
  unfold executeExecutionPlan
  split
  · exact .refl s
  · split_ifs
    · exact (Advances.refl s).record _
    · exact .refl s
  · rename_i configs hcompile
    have hconfig : ∀ c ∈ configs, isConfigText c.1 := by
      rw [(compilePostprocessGraph_eq_ok hcompile).1]
      exact collectConfigs_config t.isWord p
    have hcommit : ∀ precommitted, Advances t plan caseSeal s
        { s with
          workspace := (s.workspace.commitTextTransaction t.host configs []).1
          precommitted } := fun precommitted =>
      .of_quiet rfl rfl fun hquiet =>
        CaseWorkspace.commitTextTransaction_sameSealed t.host s.workspace hquiet.untrapped hconfig
    generalize s.workspace.commitTextTransaction t.host configs [] = committed at hcommit
    obtain ⟨w, _ | digests⟩ := committed
    · exact hcommit s.precommitted
    · have hall := (hcommit (s.precommitted.update digests)).trans
        (dispatchAll_advances t plan caseSeal step (planActions p configs) _)
      dsimp only at hall ⊢
      split
      · rename_i hdispatched
        rwa [hdispatched] at hall
      · rename_i hdispatched
        rwa [hdispatched] at hall
      · rename_i hdispatched
        rw [hdispatched] at hall
        split
        · exact hall
        · split
          · exact hall.file _
          · exact (hall.file _).record _

theorem finishPartial_advances (s : PostProcessingSession R W) (reason : Text) :
    Advances t plan caseSeal s (s.finishPartial t reason).1 := by
  unfold finishPartial
  split
  · exact .refl s
  · exact (Advances.refl s).file _

/-! ### Runs -/

theorem turn_advances (t : PostProcessTools A R W) (plan : EngineeringPlan) (caseSeal : CaseSeal)
    (step : ℕ) (s : PostProcessingSession R W) :
    Advances t plan caseSeal s (s.turn t plan caseSeal step).1 := by
  unfold turn
  generalize t.generateTurn step s.workspace s.events s.world = answer
  obtain ⟨_ | a | p, world⟩ := answer
  all_goals
    have hworld : Advances t plan caseSeal s { s with world } := .of_same rfl rfl (.refl _)
  · exact hworld.trans (finishPartial_advances _ _)
  · have hdispatch := hworld.trans (dispatch_advances t plan caseSeal step { s with world } a)
    dsimp only at hdispatch ⊢
    generalize dispatch t plan caseSeal step { s with world } a = dispatched at hdispatch
    obtain ⟨s', _ | ⟨event, terminal⟩⟩ := dispatched
    · exact hdispatch.trans (finishPartial_advances _ _)
    · exact hdispatch.record event
  · have hplan := hworld.trans
      (executeExecutionPlan_advances t plan caseSeal step { s with world } p)
    dsimp only at hplan ⊢
    generalize executeExecutionPlan t plan caseSeal step { s with world } p = executed at hplan
    obtain ⟨s', _ | (_ | _)⟩ := executed
    · exact hplan.trans (finishPartial_advances _ _)
    · exact hplan
    · exact hplan

theorem turns_advances (t : PostProcessTools A R W) (plan : EngineeringPlan) (caseSeal : CaseSeal)
    (remaining step : ℕ) (s : PostProcessingSession R W) :
    Advances t plan caseSeal s (turns t plan caseSeal remaining step s).1 := by
  induction remaining generalizing step s with
  | zero => exact finishPartial_advances s _
  | succ remaining ih =>
    have hturn := turn_advances t plan caseSeal step s
    unfold turns
    generalize s.turn t plan caseSeal step = turned at hturn
    obtain ⟨s', _ | returns⟩ := turned
    · exact hturn.trans (ih _ _)
    · exact hturn

theorem run_advances (t : PostProcessTools A R W) (plan : EngineeringPlan) (caseSeal : CaseSeal)
    (s : PostProcessingSession R W) :
    (∃ e, (s.workspace.adoptAndVerify caseSeal plan).2 = .error e) ∧
        (s.run t plan caseSeal).1.starts = s.starts ∧
        (s.run t plan caseSeal).1.processes = s.processes ∨
      (s.workspace.adoptAndVerify caseSeal plan).2 = .ok () ∧
        Advances t plan caseSeal
          { s with workspace := (s.workspace.adoptAndVerify caseSeal plan).1 }
          (s.run t plan caseSeal).1 := by
  unfold run
  generalize s.workspace.adoptAndVerify caseSeal plan = adopted
  obtain ⟨w, e | _⟩ := adopted
  · refine .inl ⟨⟨e, rfl⟩, ?_⟩
    dsimp only
    split_ifs <;> exact ⟨rfl, rfl⟩
  · refine .inr ⟨rfl, ?_⟩
    have hturns := turns_advances t plan caseSeal t.policy.maxSteps 1
      ({ s with workspace := w }.transition .postprocessing)
    have hstart : Advances t plan caseSeal { s with workspace := w }
        ({ s with workspace := w }.transition .postprocessing) := .of_same rfl rfl (.refl _)
    exact hstart.trans hturns

/-- **What the processes are started on.** Each process of a run has a dictionary below
`postprocessConfig/` with the content last recorded for it, and a case whose seal is verified; and
there are never more of them than the budget leaves. -/
theorem run_grounded (t : PostProcessTools A R W) (plan : EngineeringPlan) (caseSeal : CaseSeal)
    (s : PostProcessingSession R W) :
    ∃ new, (s.run t plan caseSeal).1.starts = s.starts ++ new ∧
      (∀ start ∈ new, Grounded plan caseSeal start) ∧
      (s.run t plan caseSeal).1.processes = s.processes + new.length ∧
      (new ≠ [] → s.processes + new.length ≤ t.policy.maxNativeCommands) := by
  rcases run_advances t plan caseSeal s with ⟨-, hstarts, hprocesses⟩ | ⟨-, new, h⟩
  · exact ⟨[], by rw [hstarts, List.append_nil], fun start hstart => (by cases hstart), hprocesses,
      fun h => absurd rfl h⟩
  · exact ⟨new, h.starts, h.grounded, h.processes, fun hne => h.processes ▸ h.bounded hne⟩

/-- **The agent leaves the sealed inputs alone.** Where the seal is verified first, and every
process leaves it verified, it is verified at the end, whatever was written, committed or rolled
back in between. -/
theorem run_sealed (htrap : s.workspace.Untrapped)
    (hverified : (s.workspace.adoptAndVerify caseSeal plan).2 = .ok ())
    (hleft : ∀ start ∈ (s.run t plan caseSeal).1.starts.drop s.starts.length,
      Quiet plan caseSeal start.left) :
    (s.run t plan caseSeal).1.workspace.verifySeal caseSeal plan = .ok () := by
  rcases run_advances t plan caseSeal s with ⟨⟨e, he⟩, -⟩ | ⟨-, new, h⟩
  · cases he.symm.trans hverified
  · have hadopted : Quiet plan caseSeal (s.workspace.adoptAndVerify caseSeal plan).1 :=
      ⟨CaseWorkspace.verifySeal_of_adoptAndVerify hverified, htrap.mono fun l hl =>
        CaseWorkspace.adoptAndVerify_tree s.workspace caseSeal plan ▸ hl⟩
    rw [h.starts, List.drop_left] at hleft
    exact (h.quiet hadopted hleft).verified

/-! ### How a run ends -/

/-- The run is over: it returns with a report and waits for the review, or no partial report can be
built. -/
def Over (t : PostProcessTools A R W) (r : PostProcessingSession R W × Bool) : Prop :=
  r.2 = true ∧ r.1.currentState = .resultReviewRequired ∧ r.1.report.isSome ∨
    r.2 = false ∧ ∃ reason w events world fault,
      t.buildReport { limitations := [reason] } w events world = .error fault

theorem finishPartial_over (t : PostProcessTools A R W) (s : PostProcessingSession R W)
    (reason : Text) : Over t (s.finishPartial t reason) := by
  unfold finishPartial
  split
  · rename_i fault hreport
    exact .inr ⟨rfl, reason, _, _, _, fault, hreport⟩
  · exact .inl ⟨rfl, rfl, rfl⟩

theorem perform_terminal {action : PostProcessingAction A} {event : RunEvent}
    (h : s.perform t plan caseSeal step action = (s', .ok (event, true))) :
    s'.currentState = .resultReviewRequired ∧ s'.report.isSome := by
  have hmap : ∀ {r : Except Fault RunEvent} {b : Bool},
      r.map (·, b) = .ok (event, true) → b = true := by
    rintro (_ | _) b hr
    · cases hr
    · cases hr
      rfl
  cases action with
  | write path content => exact absurd (hmap (Prod.mk.inj h).2) (by decide)
  | run spec => exact absurd (hmap (Prod.mk.inj h).2) (by decide)
  | observe action =>
    unfold perform at h
    dsimp only at h
    split at h
    · cases h
    · exact absurd (hmap (Prod.mk.inj h).2) (by decide)
  | finish summary _ request =>
    unfold perform at h
    dsimp only at h
    split at h
    · cases h
    · obtain ⟨rfl, -⟩ := Prod.mk.inj h
      exact ⟨rfl, rfl⟩
  | block reason =>
    unfold perform at h
    dsimp only at h
    split at h
    · cases h
    · obtain ⟨rfl, -⟩ := Prod.mk.inj h
      exact ⟨rfl, rfl⟩

theorem dispatch_terminal {action : PostProcessingAction A} {event : RunEvent}
    (h : s.dispatch t plan caseSeal step action = (s', some (event, true))) :
    s'.currentState = .resultReviewRequired ∧ s'.report.isSome := by
  unfold dispatch at h
  split at h
  · rename_i hperform
    cases h
    exact perform_terminal hperform
  · cases h
  · cases h

theorem executeExecutionPlan_terminal {p : PostProcessingExecutionPlan A}
    (h : s.executeExecutionPlan t plan caseSeal step p = (s', some true)) :
    s'.currentState = .resultReviewRequired ∧ s'.report.isSome := by
  unfold executeExecutionPlan at h
  split at h
  · cases h
  · split_ifs at h <;> cases h
  · split at h
    · cases h
    · dsimp only at h
      split at h
      · cases h
      · cases h
      · split at h
        · cases h
        · split at h
          · cases h
          · cases h
            exact ⟨rfl, rfl⟩

theorem turn_over {returns : Bool}
    (h : s.turn t plan caseSeal step = (s', some returns)) : Over t (s', returns) := by
  have hpartial : ∀ s₁ : PostProcessingSession R W,
      ((s₁.finishPartial t isolatedText).1, some (s₁.finishPartial t isolatedText).2) =
        (s', some returns) → Over t (s', returns) := by
    intro s₁ heq
    obtain ⟨rfl, hreturns⟩ := Prod.mk.inj heq
    obtain rfl := Option.some.inj hreturns
    exact finishPartial_over t s₁ isolatedText
  unfold turn at h
  split at h
  · exact hpartial _ h
  · split at h
    · exact hpartial _ h
    · rename_i hplan
      cases h
      obtain ⟨hstate, hreport⟩ := executeExecutionPlan_terminal hplan
      exact .inl ⟨rfl, hstate, hreport⟩
    · cases h
  · split at h
    · exact hpartial _ h
    · rename_i event terminal hdispatch
      cases terminal with
      | false => cases h
      | true =>
        cases h
        obtain ⟨hstate, hreport⟩ := dispatch_terminal hdispatch
        exact .inl ⟨rfl, hstate, hreport⟩

theorem turns_over (t : PostProcessTools A R W) (plan : EngineeringPlan) (caseSeal : CaseSeal)
    (remaining step : ℕ) (s : PostProcessingSession R W) :
    Over t (turns t plan caseSeal remaining step s) := by
  induction remaining generalizing step s with
  | zero => exact finishPartial_over t s _
  | succ remaining ih =>
    unfold turns
    split
    · rename_i hturn
      exact turn_over hturn
    · exact ih _ _

/-- **A run ends in the review.** It returns with a report in `RESULT_REVIEW_REQUIRED`, whatever
fails in it; what leaves it is the exception of a sealed file that is gone, or of a report that
cannot be built. -/
theorem run_reviewed (t : PostProcessTools A R W) (plan : EngineeringPlan) (caseSeal : CaseSeal)
    (s : PostProcessingSession R W) :
    Over t (s.run t plan caseSeal) ∨ (s.run t plan caseSeal).2 = false ∧
      ∃ e, (s.workspace.adoptAndVerify caseSeal plan).2 = .error e ∧ e.isSafety = false := by
  unfold run
  generalize s.workspace.adoptAndVerify caseSeal plan = adopted
  obtain ⟨w, e | _⟩ := adopted
  · dsimp only
    split_ifs with hsafety
    · exact .inl (.inl ⟨rfl, rfl, rfl⟩)
    · exact .inr ⟨rfl, e, rfl, Bool.eq_false_of_not_eq_true hsafety⟩
  · exact .inl (turns_over t plan caseSeal _ 1 _)

/-! ### What a plan runs -/

theorem addConfig_nodup {g : Configs} (path content : Text) (h : (g.1.map Prod.fst).Nodup) :
    ((addConfig g path content).1.map Prod.fst).Nodup := by
  unfold addConfig
  split_ifs
  · split
    · rename_i hlookup
      rw [List.map_append, List.map_singleton]
      refine h.append (List.nodup_singleton _) (List.disjoint_singleton.2 fun hmem => ?_)
      obtain ⟨c, hc, rfl⟩ := List.mem_map.1 hmem
      exact absurd (List.lookup_eq_none_iff.1 hlookup c hc) (by simp)
    · split_ifs <;> exact h
  · exact h

theorem addConfig_kept {g : Configs} {path content : Text}
    (h : (addConfig g path content).2 = []) :
    g.2 = [] ∧ (∀ c ∈ g.1, c ∈ (addConfig g path content).1) ∧
      (path, content) ∈ (addConfig g path content).1 := by
  unfold addConfig at h ⊢
  split_ifs at h ⊢ with hpath
  · split at h
    · exact ⟨h, fun c hc => List.mem_append_left _ hc,
        List.mem_append_right _ (List.mem_singleton_self _)⟩
    · rename_i content' hlookup
      split_ifs at h ⊢ with hcontent
      · subst hcontent
        obtain ⟨before, behind, heq, -⟩ := List.lookup_eq_some_iff.1 hlookup
        exact ⟨h, fun c hc => hc, heq ▸ List.mem_append_right _ List.mem_cons_self⟩
      · simp at h
  · simp at h

/-- A step over the configurations of a plan: without a failure it keeps them, and collects what its
item gives. -/
structure Collects {I : Type} (f : Configs → I → Configs) (gives : I → Text × Text → Prop) :
    Prop where
  nodup : ∀ g i, (g.1.map Prod.fst).Nodup → ((f g i).1.map Prod.fst).Nodup
  kept : ∀ g i, (f g i).2 = [] →
    g.2 = [] ∧ (∀ c ∈ g.1, c ∈ (f g i).1) ∧ ∀ c, gives i c → c ∈ (f g i).1

theorem Collects.foldl {I : Type} {f : Configs → I → Configs} {gives : I → Text × Text → Prop}
    (hf : Collects f gives) : Collects (List.foldl f) fun items c => ∃ i ∈ items, gives i c where
  nodup g items := by
    induction items generalizing g with
    | nil => exact id
    | cons i items ih => exact fun h => ih _ (hf.nodup g i h)
  kept g items := by
    induction items generalizing g with
    | nil => exact fun h => ⟨h, fun c hc => hc, fun c ⟨i, hi, _⟩ => (by cases hi)⟩
    | cons i items ih =>
      intro h
      obtain ⟨hnil, hlater, hitems⟩ := ih _ h
      obtain ⟨hnil, hkept, hgives⟩ := hf.kept g i hnil
      refine ⟨hnil, fun c hc => hlater c (hkept c hc), ?_⟩
      rintro c ⟨j, hj, hc⟩
      rcases List.mem_cons.1 hj with rfl | hj
      · exact hlater c (hgives c hc)
      · exact hitems c ⟨j, hj, hc⟩

theorem collects_config : Collects (fun g (item : Text × Text) => addConfig g item.1 item.2)
    fun item c => c = item where
  nodup g item := addConfig_nodup item.1 item.2
  kept g item h := by
    obtain ⟨hnil, hkept, hmem⟩ := addConfig_kept h
    exact ⟨hnil, hkept, fun c hc => hc ▸ hmem⟩

theorem collects_typedConfig (isWord : Char → Bool) :
    Collects (fun g (item : TypedFoamDictionaryFile) =>
      match serializeFoamDictionary isWord item with
      | .ok content => addConfig g item.path content
      | .error e => (g.1, g.2 ++ [.serialization item.path e]))
    fun item c => item.path = c.1 ∧ serializeFoamDictionary isWord item = .ok c.2 where
  nodup g item h := by
    split
    · exact addConfig_nodup _ _ h
    · exact h
  kept g item := by
    split
    · rename_i content hcontent
      intro h
      obtain ⟨hnil, hkept, hmem⟩ := addConfig_kept h
      refine ⟨hnil, hkept, ?_⟩
      rintro ⟨path, content'⟩ ⟨rfl, hcontent'⟩
      rw [hcontent] at hcontent'
      cases hcontent'
      exact hmem
    · exact fun h => absurd h (by simp)

/-- Without a failure every content that is given is collected. -/
theorem collectConfigs_gives {isWord : Char → Bool} {p : PostProcessingExecutionPlan A}
    (h : (collectConfigs isWord p).2 = []) :
    ((collectConfigs isWord p).1.map Prod.fst).Nodup ∧ ∀ path content,
      p.Gives isWord path content → (path, content) ∈ (collectConfigs isWord p).1 := by
  have hconfigs := collects_config.foldl
  have htyped := (collects_typedConfig isWord).foldl
  obtain ⟨hnil, hlater, hgives⟩ := htyped.kept _ _ h
  refine ⟨htyped.nodup _ _ (hconfigs.nodup _ _ List.nodup_nil), ?_⟩
  rintro path content (hmem | hmem)
  · exact hlater _ ((hconfigs.kept _ _ hnil).2.2 _ ⟨_, hmem, rfl⟩)
  · exact hgives _ hmem

theorem latestConfigDigest_concat (events : List RunEvent) (event : RunEvent)
    (path : Text) : latestConfigDigest (events ++ [event]) path =
      (event.configDigest path).or (latestConfigDigest events path) := by
  rw [latestConfigDigest, List.reverse_append, List.reverse_singleton, List.singleton_append,
    List.findSome?_cons]
  cases event.configDigest path <;> rfl

theorem dispatch_success {action : PostProcessingAction A} {event : RunEvent}
    {terminal : Bool} (h : s.dispatch t plan caseSeal step action = (s', some (event, terminal)))
    (hevent : event.success = true) :
    s.perform t plan caseSeal step action = (s', .ok (event, terminal)) := by
  unfold dispatch at h
  split at h
  · rename_i hperform
    cases h
    exact hperform
  · cases h
    cases hevent
  · cases h

/-- A write that succeeds records the digest of its content. -/
theorem dispatch_write {path content : Text} {event : RunEvent} {terminal : Bool}
    (h : s.dispatch t plan caseSeal step (.write path content) = (s', some (event, terminal)))
    (hevent : event.success = true) :
    s'.events = s.events ∧ s'.starts = s.starts ∧
      ∀ q, event.configDigest q = if path = q then some ⟨encode content⟩ else none := by
  have hperform := dispatch_success h hevent
  unfold perform write at hperform
  dsimp only at hperform
  have hdigest : ∀ (d : Digest) (q : Text), (RunEvent.mk step writeType true [] false
      (some (path, d)) (by decide)).configDigest q = if path = q then some d else none :=
    fun d q => rfl
  split_ifs at hperform
  · cases hperform
    exact ⟨rfl, rfl, hdigest _⟩
  · split at hperform
    · cases hperform
    · rename_i hwrite
      cases hperform
      obtain rfl := CaseWorkspace.writePostprocessConfig_ok hwrite
      exact ⟨rfl, rfl, hdigest _⟩

/-- A process that succeeds was started on the dictionary that was recorded. -/
theorem dispatch_run {spec : PostProcessRunSpec} {event : RunEvent} {terminal : Bool}
    (h : s.dispatch t plan caseSeal step (.run spec) = (s', some (event, terminal)))
    (hevent : event.success = true) :
    s'.events = s.events ∧ (∀ q, event.configDigest q = none) ∧
      ∃ start, s'.starts = s.starts ++ [start] ∧ start.spec = spec ∧ start.events = s.events ∧
        Grounded plan caseSeal start := by
  have hperform := dispatch_success h hevent
  have hprocessed := runFoamPostProcess_processed t plan caseSeal step spec s
  unfold perform at hperform
  dsimp only at hperform
  generalize s.runFoamPostProcess t plan caseSeal step spec = r at hperform hprocessed
  cases hprocessed with
  | refused => cases hperform
  | exhausted event' hfailed =>
    cases hperform
    rw [hfailed] at hevent
    cases hevent
  | @started world tree r hgrounded _ htype =>
    cases r with
    | error fault => cases hperform
    | ok event' =>
      cases hperform
      refine ⟨rfl, fun q => ?_, _, rfl, rfl, rfl, hgrounded⟩
      rw [RunEvent.configDigest, htype event rfl]
      rfl

theorem dispatchAll_cons {action : PostProcessingAction A}
    {actions : List (PostProcessingAction A)}
    (h : dispatchAll t plan caseSeal step (action :: actions) s = (s', some true)) :
    ∃ s₁ event terminal, s.dispatch t plan caseSeal step action = (s₁, some (event, terminal)) ∧
      event.success = true ∧
      dispatchAll t plan caseSeal step actions (s₁.record event) = (s', some true) := by
  unfold dispatchAll at h
  split at h
  · cases h
  · rename_i s₁ event terminal hdispatch
    split_ifs at h with hevent
    · exact ⟨s₁, event, terminal, hdispatch, hevent, h⟩
    · cases h

theorem dispatchAll_append {before behind : List (PostProcessingAction A)}
    (h : dispatchAll t plan caseSeal step (before ++ behind) s = (s', some true)) :
    ∃ s₁, dispatchAll t plan caseSeal step before s = (s₁, some true) ∧
      dispatchAll t plan caseSeal step behind s₁ = (s', some true) := by
  induction before generalizing s with
  | nil => exact ⟨s, rfl, h⟩
  | cons action before ih =>
    obtain ⟨s₁, event, terminal, hdispatch, hevent, h⟩ := dispatchAll_cons h
    obtain ⟨s₂, hbefore, hbehind⟩ := ih h
    refine ⟨s₂, ?_, hbehind⟩
    unfold dispatchAll
    rw [hdispatch]
    dsimp only
    rwa [if_pos hevent]

/-- Behind the writes of a plan each path has the digest of its content. -/
theorem dispatchAll_writes {configs : List (Text × Text)} (hnodup : (configs.map Prod.fst).Nodup)
    (h : dispatchAll t plan caseSeal step (configs.map fun c => .write c.1 c.2) s =
      (s', some true)) :
    s'.starts = s.starts ∧
      (∀ c ∈ configs, latestConfigDigest s'.events c.1 = some ⟨encode c.2⟩) ∧
      ∀ q ∉ configs.map Prod.fst,
        latestConfigDigest s'.events q = latestConfigDigest s.events q := by
  induction configs generalizing s with
  | nil =>
    cases h
    exact ⟨rfl, fun c hc => (by cases hc), fun _ _ => rfl⟩
  | cons c configs ih =>
    rw [List.map_cons, List.nodup_cons] at hnodup
    obtain ⟨s₁, event, terminal, hdispatch, hevent, h⟩ := dispatchAll_cons h
    obtain ⟨hevents, hstarts, hdigest⟩ := dispatch_write hdispatch hevent
    obtain ⟨hstarts', hconfigs, hothers⟩ := ih hnodup.2 h
    have hlatest : ∀ q, latestConfigDigest (s₁.record event).events q =
        (if c.1 = q then some ⟨encode c.2⟩ else none).or (latestConfigDigest s.events q) := by
      intro q
      rw [← hevents, ← hdigest q]
      exact latestConfigDigest_concat _ _ _
    refine ⟨hstarts'.trans hstarts, fun d hd => ?_, fun q hq => ?_⟩
    · rcases List.mem_cons.1 hd with rfl | hd
      · rw [hothers _ hnodup.1, hlatest, if_pos rfl]
        rfl
      · exact hconfigs d hd
    · rw [List.map_cons, List.mem_cons, not_or] at hq
      rw [hothers q hq.2, hlatest, if_neg (Ne.symm hq.1)]
      rfl

/-- Each process of a plan is started on the dictionary that was recorded in front of them. -/
theorem dispatchAll_runs {specs : List PostProcessRunSpec}
    (h : dispatchAll t plan caseSeal step (specs.map .run) s = (s', some true)) :
    ∃ new, s'.starts = s.starts ++ new ∧ ∀ spec ∈ specs, ∃ start ∈ new, start.spec = spec ∧
      ∃ b, start.workspace.tree.fileAt (locate spec.dictionaryPath) = some b ∧
        latestConfigDigest s.events spec.dictionaryPath = some ⟨b⟩ := by
  induction specs generalizing s with
  | nil =>
    cases h
    exact ⟨[], (List.append_nil _).symm, fun spec hspec => (by cases hspec)⟩
  | cons spec specs ih =>
    obtain ⟨s₁, event, terminal, hdispatch, hevent, hrest⟩ := dispatchAll_cons h
    obtain ⟨hevents, hdigest, start, hstart, rfl, hbefore, hgrounded⟩ :=
      dispatch_run hdispatch hevent
    obtain ⟨new, hnew, hspecs⟩ := ih hrest
    have hlatest : ∀ q, latestConfigDigest (s₁.record event).events q =
        latestConfigDigest s.events q := by
      intro q
      rw [← hevents]
      refine (latestConfigDigest_concat _ _ _).trans ?_
      rw [hdigest]
      rfl
    refine ⟨start :: new, ?_, fun other hother => ?_⟩
    · rw [hnew]
      exact (congrArg (· ++ new) hstart).trans (List.append_assoc ..)
    · rcases List.mem_cons.1 hother with rfl | hother
      · obtain ⟨b, hb, hrecorded⟩ := hgrounded.dictionary
        rw [hbefore] at hrecorded
        exact ⟨start, List.mem_cons_self, rfl, b, hb, hrecorded⟩
      · obtain ⟨start', hstart', hspec, b, hb, hrecorded⟩ := hspecs other hother
        exact ⟨start', List.mem_cons_of_mem _ hstart', hspec, b, hb,
          (hlatest _).symm.trans hrecorded⟩

/-- **A plan runs what it wrote.** Where a plan ends the run, each of its processes was started, and
on the content the plan gives for its dictionary. -/
theorem executeExecutionPlan_runs {p : PostProcessingExecutionPlan A}
    (h : s.executeExecutionPlan t plan caseSeal step p = (s', some true)) :
    ∃ new, s'.starts = s.starts ++ new ∧ ∀ spec ∈ p.runs, ∃ start ∈ new, start.spec = spec ∧
      ∀ content, p.Gives t.isWord spec.dictionaryPath content →
        start.workspace.tree.fileAt (locate spec.dictionaryPath) = some (encode content) := by
  unfold executeExecutionPlan at h
  split at h
  · cases h
  · split_ifs at h <;> cases h
  · rename_i configs hcompile
    obtain ⟨hconfigs, hfailures⟩ := compilePostprocessGraph_eq_ok hcompile
    obtain ⟨hnodup, hgives⟩ := collectConfigs_gives (hfailures rfl)
    rw [← hconfigs] at hnodup hgives
    split at h
    · cases h
    · dsimp only at h
      split at h
      · cases h
      · cases h
      · rename_i w digests _ _ s₁ hdispatched
        have hstarts : s'.starts = s₁.starts := by
          split at h
          · cases h
          · split at h
            · cases h
            · cases h
              rfl
        unfold planActions at hdispatched
        rw [List.append_assoc, List.append_assoc] at hdispatched
        obtain ⟨s₂, hwrites, hdispatched⟩ := dispatchAll_append hdispatched
        obtain ⟨s₃, hruns, hrest⟩ := dispatchAll_append hdispatched
        obtain ⟨hstarts₂, hwritten, -⟩ := dispatchAll_writes hnodup hwrites
        obtain ⟨new, hnew, hspecs⟩ := dispatchAll_runs hruns
        obtain ⟨more, hmore⟩ := dispatchAll_advances t plan caseSeal step
          (p.forceAnalyses.map (fun a => .observe a.2) ++ p.analyses.map .observe) s₃
        rw [hrest] at hmore
        refine ⟨new ++ more, ?_, fun spec hspec => ?_⟩
        · rw [hstarts, hmore.starts, hnew, hstarts₂, List.append_assoc]
        · obtain ⟨start, hstart, rfl, b, hb, hrecorded⟩ := hspecs spec hspec
          refine ⟨start, List.mem_append_left _ hstart, rfl, fun content hcontent => ?_⟩
          have hdigest := hwritten _ (hgives _ _ hcontent)
          rw [hrecorded] at hdigest
          rw [hb, Sha256.mk.inj (Option.some.inj hdigest)]

/-! ### A run of one plan -/

/-- A plan with a dictionary and its process. -/
def forcesPlan : PostProcessingExecutionPlan Unit where
  configs := [("postprocessConfig/forces".toList, "type forces;".toList)]
  runs := [{ dictionaryPath := "postprocessConfig/forces".toList }]
  summary := []
  bounded := by decide

/-- A model that gives this plan, and a process that leaves the case as it is. -/
def forcesTools : PostProcessTools Unit Unit Unit where
  host := .reliable
  isWord _ := false
  actionType _ := []
  generateTurn _ _ _ _ := (some (.plan forcesPlan), ())
  observe _ _ _ := (.ok (true, []), ())
  foamPostProcess _ w _ := (.ok (.returned true "ok".toList, w.tree), ())
  buildReport _ _ _ _ := .ok ()
  preflightReport _ := ()
  summarized _ := true

/-- A case that was solved. -/
def solvedSession : PostProcessingSession Unit Unit where
  workspace := CaseWorkspace.sealedCase
  world := ()
  currentState := .executionDone

theorem eq_ok_of_isOk {ε : Type} {x : Except ε Unit} (h : x.isOk) : x = .ok () := by
  cases x with
  | error e => cases h
  | ok => rfl

theorem run_sealed_forces :
    ∃ caseSeal, CaseWorkspace.sealedCase.sealCase .reliable
        (planRequiring ["system/controlDict"]) = .ok caseSeal ∧
      let r := solvedSession.run forcesTools (planRequiring ["system/controlDict"]) caseSeal
      r.1.starts.length = 1 ∧
        r.1.workspace.verifySeal caseSeal (planRequiring ["system/controlDict"]) = .ok () := by
  have hrun : (CaseWorkspace.sealedCase.sealCase .reliable
      (planRequiring ["system/controlDict"])).toOption.any fun caseSeal =>
        let r := solvedSession.run forcesTools (planRequiring ["system/controlDict"]) caseSeal
        r.1.starts.length == 1 &&
          (CaseWorkspace.sealedCase.adoptAndVerify caseSeal
            (planRequiring ["system/controlDict"])).2.isOk &&
          r.1.starts.all fun start =>
            (start.left.verifySeal caseSeal (planRequiring ["system/controlDict"])).isOk &&
              start.left.tree.keys.all fun l => !start.left.tree.isLink l := by
    decide +kernel
  rcases hseal : CaseWorkspace.sealedCase.sealCase .reliable
    (planRequiring ["system/controlDict"]) with e | caseSeal
  · rw [hseal] at hrun
    cases hrun
  rw [hseal] at hrun
  simp only [Except.toOption, Option.any_some, Bool.and_eq_true, beq_iff_eq, List.all_eq_true,
    Bool.not_eq_true'] at hrun
  obtain ⟨⟨hlength, hverified⟩, hleft⟩ := hrun
  refine ⟨caseSeal, rfl, hlength, run_sealed ?_ (eq_ok_of_isOk hverified) fun start hstart => ?_⟩
  · exact CaseWorkspace.untrapped_of_keys (by decide +kernel)
  · obtain ⟨hstart, hlinks⟩ := hleft start hstart
    exact ⟨eq_ok_of_isOk hstart, CaseWorkspace.untrapped_of_keys hlinks⟩

theorem executeExecutionPlan_runs_forces :
    ∃ caseSeal, CaseWorkspace.sealedCase.sealCase .reliable
        (planRequiring ["system/controlDict"]) = .ok caseSeal ∧
      ∃ s', solvedSession.executeExecutionPlan forcesTools (planRequiring ["system/controlDict"])
          caseSeal 1 forcesPlan = (s', some true) ∧
        ∃ new, s'.starts = solvedSession.starts ++ new ∧
          ∀ spec ∈ forcesPlan.runs, ∃ start ∈ new, start.spec = spec ∧
            ∀ content, forcesPlan.Gives forcesTools.isWord spec.dictionaryPath content →
              start.workspace.tree.fileAt (locate spec.dictionaryPath) =
                some (encode content) := by
  have hrun : (CaseWorkspace.sealedCase.sealCase .reliable
      (planRequiring ["system/controlDict"])).toOption.any fun caseSeal =>
        (solvedSession.executeExecutionPlan forcesTools (planRequiring ["system/controlDict"])
          caseSeal 1 forcesPlan).2 == some true := by
    decide +kernel
  rcases hseal : CaseWorkspace.sealedCase.sealCase .reliable
    (planRequiring ["system/controlDict"]) with e | caseSeal
  · rw [hseal] at hrun
    cases hrun
  rw [hseal] at hrun
  have h : solvedSession.executeExecutionPlan forcesTools (planRequiring ["system/controlDict"])
      caseSeal 1 forcesPlan = (_, some true) := Prod.ext rfl (beq_iff_eq.1 hrun)
  exact ⟨caseSeal, rfl, _, h, executeExecutionPlan_runs h⟩

end PostProcessingSession
end Postprocessing
end OpenFoamAgent
