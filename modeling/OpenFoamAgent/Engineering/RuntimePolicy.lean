/-
# The two gates of a runtime repair

`check_repair_delta` authorizes a candidate before it is committed, the policy
of the runtime phase looks at each of its writes again when it is dispatched.
The first knows two kinds of files, the numerical dictionaries and
`system/controlDict`; the second admits the numerical dictionaries only.

An authorized path is spelled so that the registry holds it under the text of
its action, so no dispatched write changes the case again; what can still take
the approval is stale mesh evidence.
-/
import OpenFoamAgent.Contracts.RepairRuns
import OpenFoamAgent.Engineering.Deltas
import OpenFoamAgent.Library.Runs

namespace OpenFoamAgent
namespace Engineering

open Python Schemas Workspace Contracts Controller

/-! ### Authorized paths -/

theorem lastPart_append_slash (t : Text) : lastPart (t ++ ['/']) = [] := by
  have hsplit : (t ++ '/' :: []).splitOn '/' = t.splitOn '/' ++ [[]] := by
    rw [List.splitOn_append_cons_self]
    rfl
  rw [lastPart, hsplit, List.getLastD_concat]

/-- A path with a last part does not end in a slash. -/
theorem rdropWhile_slash {path : Text} (h : lastPart path ≠ []) :
    path.rdropWhile (· == '/') = path := by
  rw [List.rdropWhile_eq_self_iff]
  intro hne hlast
  refine h ?_
  have heq := List.dropLast_append_getLast hne
  rw [eq_of_beq hlast] at heq
  rw [← heq]
  exact lastPart_append_slash _

/-- The last part of a path is the name `PurePosixPath` gives it. -/
theorem purePosixName_eq_lastPart {path : Text} (hne : lastPart path ≠ [])
    (hdot : lastPart path ≠ ['.']) : purePosixName path = lastPart path := by
  unfold lastPart at *
  unfold purePosixName pathParts
  generalize path.splitOn '/' = parts at *
  induction parts using List.reverseRecOn with
  | nil => exact absurd rfl hne
  | append_singleton parts part _ =>
    rw [List.getLastD_concat] at hne hdot ⊢
    have hkeep : [part].filter (fun p => !p.isEmpty && p != ['.']) = [part] :=
      List.filter_eq_self.2 (by simp [hne, hdot])
    rw [List.filter_append, hkeep, List.getLastD_concat]

/-- A numerical dictionary below `system/`. -/
theorem numericalDictionary_path {path : Text}
    (h : runtimeRepairPathKind path = some .numericalDictionary) :
    "system/".toList <+: path ∧ lastPart path ∈ runtimeNumericalDictionaries := by
  unfold runtimeRepairPathKind at h
  split_ifs at h with hprefix hlast hcontrol
  · exact ⟨List.isPrefixOf_iff_prefix.1 (by simpa using hprefix), hlast⟩
  · cases h

theorem controlDict_path {path : Text} (h : runtimeRepairPathKind path = some .controlDict) :
    path = "system/controlDict".toList := by
  unfold runtimeRepairPathKind at h
  split_ifs at h with hprefix hlast hcontrol
  · cases h
  · exact hcontrol

theorem purePosixParts_system (t : Text) :
    purePosixParts ("system/".toList ++ t) = "system".toList :: pathParts t := by
  have hparts : pathParts ("system".toList ++ '/' :: t) = pathParts "system".toList ++ pathParts t :=
    pathParts_append_slash _ _
  exact hparts

theorem stripBy_system {t : Text} (h : lastPart ("system/".toList ++ t) ≠ []) :
    stripBy (· == '/') ("system/".toList ++ t) = "system/".toList ++ t :=
  rdropWhile_slash h

/-- The dispatcher admits every path of a numerical dictionary. -/
theorem numericalDictionary_admitted {path : Text}
    (h : runtimeRepairPathKind path = some .numericalDictionary) : RuntimePathAdmitted path := by
  obtain ⟨⟨t, rfl⟩, hlast⟩ := numericalDictionary_path h
  have hnames : ∀ name ∈ runtimeNumericalDictionaries, name ≠ [] ∧ name ≠ ['.'] := by decide
  obtain ⟨hne, hdot⟩ := hnames _ hlast
  exact ⟨by rw [purePosixParts_system]; rfl, by rwa [purePosixName_eq_lastPart hne hdot]⟩

/-- Of the authorized paths the dispatcher refuses `system/controlDict` only. -/
theorem authorized_admitted {path : Text} (h : (runtimeRepairPathKind path).isSome)
    (hcontrol : path ≠ "system/controlDict".toList) : RuntimePathAdmitted path := by
  cases hkind : runtimeRepairPathKind path with
  | none =>
    rw [hkind] at h
    cases h
  | some kind =>
    cases kind with
    | numericalDictionary => exact numericalDictionary_admitted hkind
    | controlDict => exact absurd (controlDict_path hkind) hcontrol

theorem controlDict_not_admitted : ¬ RuntimePathAdmitted "system/controlDict".toList := by
  decide +kernel

/-- An authorized path lies below `system/`, and the registry keys it by its own text. -/
theorem stripBy_authorized {path : Text} (h : (runtimeRepairPathKind path).isSome) :
    "system/".toList <+: path ∧ stripBy (· == '/') path = path := by
  cases hkind : runtimeRepairPathKind path with
  | none =>
    rw [hkind] at h
    cases h
  | some kind =>
    cases kind with
    | numericalDictionary =>
      obtain ⟨⟨t, rfl⟩, hlast⟩ := numericalDictionary_path hkind
      have hnames : ∀ name ∈ runtimeNumericalDictionaries, name ≠ [] := by decide
      exact ⟨⟨t, rfl⟩, stripBy_system (hnames _ hlast)⟩
    | controlDict =>
      obtain rfl := controlDict_path hkind
      exact ⟨by decide, by decide⟩

/-! ### Authorized deltas -/

/-- What `check_repair_delta` and the commit leave for the loop over the writes. -/
structure Audited (c : Controller) (writes : List (Text × Text)) : Prop where
  /-- The paths are distinct. -/
  nodup : (writes.map Prod.fst).Nodup
  /-- Each path is one that `check_repair_delta` can authorize. -/
  authorized : ∀ x ∈ writes, (runtimeRepairPathKind x.1).isSome
  /-- The workspace accepts each path. -/
  valid : ∀ x ∈ writes, ∃ l, validateRelative x.1 = .ok l
  /-- The registry holds each text. -/
  precommitted : ∀ x ∈ writes, c.Precommitted x.1 x.2

theorem authorizeRepair_eq_ok {c c' : Controller} {plan : EngineeringPlan}
    {changedFiles : Dict Text Text} (happroval : c.executionApproval.isSome)
    (h : c.authorizeRepair plan changedFiles = .ok c') :
    SameRound c c' ∧ c'.workspace = c.workspace ∧ c'.executionApproval.isSome ∧
      ∀ x ∈ changedFiles.items, (runtimeRepairPathKind x.1).isSome := by
  unfold authorizeRepair at h
  split at h
  · rename_i hnone
    rw [hnone] at happroval
    cases happroval
  · rename_i approval happ
    split at h
    · cases h
    · split at h
      · cases h
      · rename_i approval' hdelta
        cases h
        refine ⟨⟨rfl, rfl, rfl⟩, rfl, rfl, fun x hx => ?_⟩
        obtain ⟨kind, current, hauth, -⟩ :=
          (ExecutionApproval.checkRepairDelta_eq_ok hdelta).2.2 x.1 x.2 (Dict.mem_items.1 hx)
        rw [hauth.kind_eq]
        rfl

theorem commit_eq_ok {m : Machine} {c c' : Controller} {changes : List (Text × Text)}
    {drops : List Text} (h : c.commit m changes drops = (c', .ok ())) :
    ∃ w, c' = c.register w (changes.map fun x => (stripBy (· == '/') x.1, ⟨encode x.2⟩)) drops ∧
      ∀ x ∈ changes, ∃ l, validateRelative x.1 = .ok l := by
  unfold commit at h
  split at h
  · cases h
  · rename_i w committed hcommit
    obtain ⟨rfl, hvalid⟩ := CaseWorkspace.commitTextTransaction_committed hcommit
    cases h
    exact ⟨w, rfl, hvalid⟩

/-- An authorized delta that was committed is ready to be audited. -/
theorem audited_of_commit {m : Machine} {c c' : Controller} {changedFiles : Dict Text Text}
    (hauthorized : ∀ x ∈ changedFiles.items, (runtimeRepairPathKind x.1).isSome)
    (h : c.commit m changedFiles.items [] = (c', .ok ())) : Audited c' changedFiles.items := by
  obtain ⟨w, rfl, hvalid⟩ := commit_eq_ok h
  have hkeys : (changedFiles.items.map fun x =>
      (stripBy (· == '/') x.1, (⟨encode x.2⟩ : Digest))).map Prod.fst =
        changedFiles.items.map Prod.fst := by
    rw [List.map_map]
    exact List.map_congr_left fun x hx => (stripBy_authorized (hauthorized x hx)).2
  refine ⟨changedFiles.nodup_items, hauthorized, hvalid, fun x hx => ?_⟩
  refine Dict.get_update_of_mem (by rw [hkeys]; exact changedFiles.nodup_items) ?_
  exact List.mem_map.2 ⟨x, hx, by rw [(stripBy_authorized (hauthorized x hx)).2]⟩

namespace Audited

variable {m : Machine} {c : Controller} {path content : Text} {writes : List (Text × Text)}

theorem named (h : Audited c ((path, content) :: writes)) : (isMeshAffectingPath path).isOk := by
  have hauthorized : (runtimeRepairPathKind path).isSome := h.authorized _ List.mem_cons_self
  obtain ⟨⟨t, ht⟩, hstrip⟩ := stripBy_authorized hauthorized
  have hvalid : ∃ l, validateRelative path = .ok l := h.valid _ List.mem_cons_self
  obtain ⟨l, hl⟩ := hvalid
  obtain ⟨-, -, hbackslash⟩ := validateRelative_eq_ok hl
  have hnorm : CaseWorkspace.normalizedText path = .ok path := by
    unfold CaseWorkspace.normalizedText normalized
    rw [if_neg hbackslash, hstrip]
  have hparts : pathParts path = "system".toList :: pathParts t := by
    rw [← ht]
    exact pathParts_append_slash "system".toList t
  unfold isMeshAffectingPath
  rw [hnorm]
  dsimp only
  rw [hparts]
  dsimp only
  split_ifs <;> rfl

theorem not_reserved (h : Audited c ((path, content) :: writes)) :
    (CaseAction.write path content).reserved = false := by
  have hauthorized : (runtimeRepairPathKind path).isSome := h.authorized _ List.mem_cons_self
  obtain ⟨⟨t, rfl⟩, -⟩ := stripBy_authorized hauthorized
  rfl

/-- After a dispatch the rest of the delta is still to be audited. -/
theorem tail (h : Audited c ((path, content) :: writes)) {c' : Controller}
    (hfiles : c'.precommittedFiles = c.precommittedFiles ∨
      c'.precommittedFiles = c.precommittedFiles.erase path) : Audited c' writes := by
  obtain ⟨hhead, htail⟩ := List.nodup_cons.1 h.nodup
  refine ⟨htail, fun x hx => h.authorized x (List.mem_cons_of_mem _ hx),
    fun x hx => h.valid x (List.mem_cons_of_mem _ hx), fun x hx => ?_⟩
  have hpre : c.precommittedFiles.get x.1 = some ⟨encode x.2⟩ :=
    h.precommitted x (List.mem_cons_of_mem _ hx)
  have hne : x.1 ≠ path := fun heq => hhead (List.mem_map.2 ⟨x, hx, heq⟩)
  show c'.precommittedFiles.get x.1 = some ⟨encode x.2⟩
  rcases hfiles with hfiles | hfiles
  · rw [hfiles, hpre]
  · rw [hfiles, Dict.get_erase_of_ne _ hne, hpre]

end Audited

/-! ### Audited writes -/

/-- Nothing takes the approval: no mesh evidence is stale, or no write gets as far. -/
def ApprovalSettled (m : Machine) (c : Controller) : Prop :=
  c.MeshBudgetExhausted ∨ ¬ c.MeshStale m

theorem meshBudgetExhausted_record {c : Controller} {event : EngineeringEvent}
    (hmesh : event.meshCommandExecuted = false) (hfailed : event.success = false)
    (h : c.MeshBudgetExhausted) : (c.record event).MeshBudgetExhausted := by
  unfold MeshBudgetExhausted at h ⊢
  rwa [c.meshRepairStatus_record hmesh hfailed]

/-- The dispatch of a write of an audited delta touches neither the mesh evidence nor the
approval, and of the registry at most the entry of the write. -/
theorem dispatch_audited {m : Machine} {c : Controller} {path content : Text}
    {writes : List (Text × Text)} (h : Audited c ((path, content) :: writes))
    (hsettled : ApprovalSettled m c) {c' : Controller} {report : Option EngineeringEvent}
    (hd : Dispatched m c .runtimeRepair (.write path content) c' report) :
    c'.executionApproval = c.executionApproval ∧ c'.staleMesh m = c.staleMesh m ∧
      (c'.precommittedFiles = c.precommittedFiles ∨
        c'.precommittedFiles = c.precommittedFiles.erase path) := by
  have hstale : c.refusal (.write path content) = none → ¬ c.MeshStale m := by
    intro hrefusal
    exact hsettled.resolve_left (refusal_eq_none_iff.1 hrefusal).2
  have hsettle : ∀ b, c.refusal (.write path content) = none →
      ((c.perform m (.write path content)).1.settle m .runtimeRepair b).1.executionApproval =
          c.executionApproval ∧
        ((c.perform m (.write path content)).1.settle m .runtimeRepair b).1.staleMesh m =
          c.staleMesh m ∧
        ((c.perform m (.write path content)).1.settle m .runtimeRepair b).1.precommittedFiles =
          c.precommittedFiles.erase path := by
    intro b hrefusal
    rw [perform_precommitted (h.precommitted _ List.mem_cons_self)]
    have hnot : ¬ { c with precommittedFiles := c.precommittedFiles.erase path }.MeshStale m :=
      hstale hrefusal
    rw [settle_of_not_stale .runtimeRepair b hnot]
    exact ⟨rfl, rfl, rfl⟩
  cases hd with
  | unauthorized hpolicy hreport =>
    unfold phasePolicy runtimePolicy
    split_ifs <;> exact ⟨rfl, rfl, .inl rfl⟩
  | refused => exact ⟨rfl, rfl, .inl rfl⟩
  | unnamed => exact ⟨rfl, rfl, .inl rfl⟩
  | notPerformed hpolicy hrefusal hperformed hreport =>
    rw [perform_precommitted (h.precommitted _ List.mem_cons_self)]
    exact ⟨rfl, rfl, .inr rfl⟩
  | notSettled meshAffecting hpolicy hrefusal =>
    obtain ⟨happ, hmesh, hfiles⟩ := hsettle meshAffecting hrefusal
    exact ⟨happ, hmesh, .inr hfiles⟩
  | done meshAffecting hadmits =>
    obtain ⟨happ, hmesh, hfiles⟩ := hsettle meshAffecting hadmits.guards
    exact ⟨happ, hmesh, .inr hfiles⟩

/-- While the budget is exhausted no success is reported. -/
theorem notReported_of_budget {m : Machine} {c c' : Controller} {phase : Phase} {a : CaseAction}
    {report : Option EngineeringEvent} (hbudget : c.MeshBudgetExhausted)
    (hd : Dispatched m c phase a c' report) : NotReported a report := by
  have hrefusal : c.refusal a ≠ none := fun hnone => (refusal_eq_none_iff.1 hnone).2 hbudget
  cases hd with
  | unauthorized hpolicy hreport => exact hreport
  | refused => exact .inr ⟨_, rfl⟩
  | unnamed hpolicy hnone => exact absurd hnone hrefusal
  | notPerformed hpolicy hnone => exact absurd hnone hrefusal
  | notSettled meshAffecting hpolicy hnone => exact absurd hnone hrefusal
  | done meshAffecting hadmits => exact absurd hadmits.guards hrefusal

/-- A dispatched write of an audited delta leaves the rest of it to be audited, and keeps the
approval and the reason that keeps it. -/
theorem edit_audited {m : Machine} {c : Controller} {path content : Text}
    {writes : List (Text × Text)} (h : Audited c ((path, content) :: writes))
    (hsettled : ApprovalSettled m c) :
    Audited (c.edit m .runtimeRepair (.write path content)) writes ∧
      (c.edit m .runtimeRepair (.write path content)).executionApproval = c.executionApproval ∧
        ApprovalSettled m (c.edit m .runtimeRepair (.write path content)) := by
  have hd := dispatched m c .runtimeRepair (.write path content)
  have hround := dispatch_sameRound m c .runtimeRepair (.write path content)
  unfold edit
  generalize c.dispatch m .runtimeRepair (.write path content) = r at hd hround ⊢
  obtain ⟨c', report⟩ := r
  obtain ⟨happ, hmesh, hfiles⟩ := dispatch_audited h hsettled hd
  have hbudget : c.MeshBudgetExhausted → c'.MeshBudgetExhausted := by
    intro hb
    unfold MeshBudgetExhausted at hb ⊢
    rwa [hround.meshRepairStatus, hround.policy]
  have hstale : ¬ c.MeshStale m → ¬ c'.MeshStale m := by
    rintro hnot ⟨key, stale, heq⟩
    exact hnot ⟨key, stale, hmesh.symm.trans heq⟩
  cases report with
  | none => exact ⟨h.tail hfiles, happ, hsettled.imp hbudget hstale⟩
  | some event =>
    have htail : Audited (c'.record event) writes := h.tail hfiles
    refine ⟨htail, happ, ?_⟩
    rcases hsettled with hb | hnot
    · rcases notReported_of_budget hb hd with hnone | ⟨summary, hevent⟩
      · cases hnone
      · obtain rfl := Option.some.inj hevent
        exact .inl (meshBudgetExhausted_record rfl rfl (hbudget hb))
    · exact .inr (hstale hnot)

/-- What the dispatcher's policy asks of an edit of the runtime phase. -/
def AdmittedAtRuntime (c : Controller) (a : CaseAction) : Prop :=
  c.PolicyAdmits .runtimeRepair a.path

instance (c : Controller) (a : CaseAction) : Decidable (AdmittedAtRuntime c a) :=
  inferInstanceAs (Decidable (c.PolicyAdmits .runtimeRepair a.path))

/-- The write actions of texts. -/
abbrev writeActions (writes : List (Text × Text)) : List CaseAction :=
  writes.map fun x => .write x.1 x.2

theorem admitted_of_audited {m : Machine} {c : Controller} {writes : List (Text × Text)}
    (h : Audited c writes) (happroval : c.executionApproval.isSome)
    (hsettled : ApprovalSettled m c)
    (hcontrol : "system/controlDict".toList ∉ writes.map Prod.fst) :
    Runs.Meets (fun c a => c.edit m .runtimeRepair a) AdmittedAtRuntime c (writeActions writes) := by
  induction writes generalizing c with
  | nil => trivial
  | cons x writes ih =>
    obtain ⟨path, content⟩ := x
    obtain ⟨hhead, htail⟩ := not_or.1 fun hm => hcontrol (List.mem_cons.2 hm)
    have hpath : RuntimePathAdmitted path :=
      authorized_admitted (h.authorized _ List.mem_cons_self) (Ne.symm hhead)
    obtain ⟨hnext, happ, hset⟩ := edit_audited h hsettled
    exact ⟨fun _ => ⟨happroval, hpath⟩, ih hnext (by rw [happ]; exact happroval) hset htail⟩

/-- When mesh evidence is stale, the first write that goes through takes the approval. -/
theorem approval_edit_of_stale {m : Machine} {c : Controller} {path content : Text}
    {writes : List (Text × Text)} (h : Audited c ((path, content) :: writes))
    (hadmitted : AdmittedAtRuntime c (.write path content)) (hbudget : ¬ c.MeshBudgetExhausted)
    (hstale : c.MeshStale m) :
    (c.edit m .runtimeRepair (.write path content)).executionApproval = none := by
  have hperform := perform_precommitted (m := m) (h.precommitted _ List.mem_cons_self)
  have hadmits : c.Admits m .runtimeRepair (.write path content) := by
    obtain ⟨key, stale, heq⟩ := hstale
    refine ⟨hadmitted, refusal_eq_none_iff.2 ⟨h.not_reserved, hbudget⟩, h.named, ?_, ?_⟩
    · rw [hperform]
      rfl
    · rw [hperform]
      show (c.staleMesh m).isOk
      rw [heq]
      rfl
  have happroval : ∀ b,
      ((c.perform m (.write path content)).1.settle m .runtimeRepair b).1.executionApproval = none := by
    intro b
    rw [hperform]
    exact settle_approval_of_stale .runtimeRepair b hstale
  have hd := dispatched m c .runtimeRepair (.write path content)
  unfold edit
  generalize c.dispatch m .runtimeRepair (.write path content) = r at hd ⊢
  obtain ⟨c', report⟩ := r
  dsimp only at hd
  cases hd with
  | unauthorized hpolicy => exact absurd hadmits.policy hpolicy
  | refused hpolicy hrefusal => exact absurd (hrefusal.symm.trans hadmits.guards) (by simp)
  | unnamed hpolicy hrefusal hnamed => exact absurd hadmits.named hnamed
  | notPerformed hpolicy hrefusal hperformed => exact absurd hadmits.performed hperformed
  | notSettled meshAffecting hpolicy hrefusal hperformed hdigested =>
    exact absurd hadmits.digested hdigested
  | done meshAffecting => exact happroval meshAffecting

theorem admitted_iff_of_audited {m : Machine} {c : Controller} {writes : List (Text × Text)}
    (h : Audited c writes) (happroval : c.executionApproval.isSome) :
    Runs.Meets (fun c a => c.edit m .runtimeRepair a) AdmittedAtRuntime c (writeActions writes) ↔
      "system/controlDict".toList ∉ writes.map Prod.fst ∧
        (writes.length ≤ 1 ∨ c.MeshBudgetExhausted ∨ ¬ c.MeshStale m) := by
  constructor
  · intro hmeets
    constructor
    · intro hcontrol
      obtain ⟨x, hx, hpath⟩ := List.mem_map.1 hcontrol
      obtain ⟨before, after, rfl⟩ := List.append_of_mem hx
      have hadmitted := Runs.meets_iff.1 hmeets (writeActions before) (.write x.1 x.2)
        (writeActions after) (by simp)
      have hrefused := (hadmitted rfl).2
      rw [CaseAction.path, hpath] at hrefused
      exact controlDict_not_admitted hrefused
    · by_contra hnot
      obtain ⟨hlength, hrest⟩ := not_or.1 hnot
      obtain ⟨hbudget, hstale⟩ := not_or.1 hrest
      rcases writes with _ | ⟨⟨path, content⟩, _ | ⟨y, writes⟩⟩
      · exact hlength (by simp)
      · exact hlength (by simp)
      · have hnone := approval_edit_of_stale h hmeets.1 hbudget (not_not.1 hstale)
        have hsecond := (hmeets.2.1 rfl).1
        rw [hnone] at hsecond
        cases hsecond
  · rintro ⟨hcontrol, hlength | hsettled⟩
    · rcases writes with _ | ⟨⟨path, content⟩, _ | ⟨y, writes⟩⟩
      · trivial
      · have hpath : RuntimePathAdmitted path :=
          authorized_admitted (h.authorized _ List.mem_cons_self)
            fun heq => hcontrol (by rw [heq]; exact List.mem_cons_self)
        exact ⟨fun _ => ⟨happroval, hpath⟩, trivial⟩
      · simp at hlength
    · exact admitted_of_audited h happroval hsettled hcontrol

/-- The state in which the loop over the writes of a runtime repair starts, when the gates
accept the repair and the transaction returns. -/
def committedRepair (m : Machine) (c : Controller) (plan : EngineeringPlan)
    (changedFiles : Dict Text Text) : Option Controller :=
  match c.authorizeRepair plan changedFiles with
  | .error _ => none
  | .ok authorized =>
    match authorized.commit m changedFiles.items [] with
    | (_, .error _) => none
    | (committed, .ok ()) => some committed

/-- **The two gates:** every write of an authorized and committed repair is admitted by the
policy of the runtime phase exactly when the repair leaves `system/controlDict` alone and
nothing takes the approval between two of its writes. -/
theorem runtimeRepair_admitted_iff {m : Machine} {c committed : Controller}
    {plan : EngineeringPlan} {delta : Delta} (happroval : c.executionApproval.isSome)
    (hcommit : committedRepair m c plan delta.changedFiles = some committed) :
    Runs.Meets (fun c a => c.edit m .runtimeRepair a) AdmittedAtRuntime committed delta.writes ↔
      "system/controlDict".toList ∉ delta.changedFiles.items.map Prod.fst ∧
        (delta.changedFiles.items.length ≤ 1 ∨ c.MeshBudgetExhausted ∨ ¬ committed.MeshStale m) := by
  unfold committedRepair at hcommit
  split at hcommit
  · cases hcommit
  · rename_i authorized hgate
    split at hcommit
    · cases hcommit
    · rename_i committed' hcommitted
      obtain rfl := Option.some.inj hcommit
      obtain ⟨hround, -, happ, hkinds⟩ := authorizeRepair_eq_ok happroval hgate
      have haudited : Audited committed' delta.changedFiles.items :=
        audited_of_commit hkinds hcommitted
      obtain ⟨w, hregister, -⟩ := commit_eq_ok hcommitted
      have hround' : SameRound c committed' := by
        rw [hregister]
        exact hround.trans ⟨rfl, rfl, rfl⟩
      have hbudget : c.MeshBudgetExhausted ↔ committed'.MeshBudgetExhausted := by
        unfold MeshBudgetExhausted
        rw [hround'.meshRepairStatus, hround'.policy]
      rw [hbudget]
      exact admitted_iff_of_audited haudited (by rw [hregister]; exact happ)

/-- A session whose user approved the case of `caseWith`. -/
def approvedSession (controlDict : String) : Controller where
  workspace := caseWith controlDict
  engineeringPlan := some (planWith [])
  solveApproved := true
  caseSeal := some (sealOf (caseWith controlDict) (planWith []))
  executionApproval :=
    some (.issue (planWith []) (sealOf (caseWith controlDict) (planWith [])) none)

/-- A machine on which no call fails and no mesh digest is recorded. -/
def reliableMachine : Machine := ⟨.reliable, fun _ _ => .ok ⟨[]⟩⟩

/-- A delta of changed files. -/
def deltaOf (changed : List (String × String)) : Delta where
  changedFiles := .ofItems (changed.map fun x => (x.1.toList, x.2.toList))

theorem runtimeRepair_admitted_fvSchemes :
    ∃ committed, committedRepair reliableMachine (approvedSession "deltaT 1e-3;\n") (planWith [])
        (deltaOf [("system/fvSchemes", "ddt backward;\n")]).changedFiles = some committed ∧
      Runs.Meets (fun c a => c.edit reliableMachine .runtimeRepair a) AdmittedAtRuntime committed
        (deltaOf [("system/fvSchemes", "ddt backward;\n")]).writes := by
  have hsome : (committedRepair reliableMachine (approvedSession "deltaT 1e-3;\n") (planWith [])
      (deltaOf [("system/fvSchemes", "ddt backward;\n")]).changedFiles).isSome := by decide +kernel
  obtain ⟨committed, hcommitted⟩ := Option.isSome_iff_exists.1 hsome
  exact ⟨committed, hcommitted,
    (runtimeRepair_admitted_iff rfl hcommitted).2 ⟨by decide +kernel, .inl (by decide +kernel)⟩⟩

/-- A smaller `deltaT` is authorized and committed, and then refused: the case holds the new
text, the repair goes to user review, and the seal is the one of the old text. -/
theorem controlDict_repair_refused :
    ((committedRepair reliableMachine (approvedSession "deltaT 1e-3;\n") (planWith [])
        (deltaOf [("system/controlDict", "deltaT 5e-4;\n")]).changedFiles).map fun committed =>
          decide (Runs.Meets (fun c a => c.edit reliableMachine .runtimeRepair a) AdmittedAtRuntime
            committed (deltaOf [("system/controlDict", "deltaT 5e-4;\n")]).writes)) = some false ∧
      let repaired := (approvedSession "deltaT 1e-3;\n").executeRuntimeRepairPlan reliableMachine
        "incompressibleFluid".toList 0 (planWith [])
        (deltaOf [("system/controlDict", "deltaT 5e-4;\n")])
      repaired.2 = .failed ((CaseAction.write "system/controlDict".toList
          "deltaT 5e-4;\n".toList).failed (.rejected .reviewRequired)) ∧
        repaired.1.workspace.tree.fileAt ["system".toList, "controlDict".toList] =
          some (encode "deltaT 5e-4;\n".toList) ∧
        repaired.1.repairReviewRequired = some .reviewRequired ∧
        repaired.1.caseSeal = (approvedSession "deltaT 1e-3;\n").caseSeal := by
  decide +kernel

end Engineering
end OpenFoamAgent
