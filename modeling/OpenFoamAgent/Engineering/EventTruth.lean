/-
# Truthful events

A write that the registry of committed texts answers, and a delete that the
registry of committed drops answers, change nothing and are reported as done.
The report is true as long as the registry is `Honoured`: the file of each
entry holds the text of that entry, the place of each drop holds no file.

Entries are consumed one by one and stay behind when a sequence stops, so other
edits and other deltas can come in between. `Undisturbed` is what each step must
leave alone; along a run of such steps every reported edit is what the case
holds.
-/
import OpenFoamAgent.Contracts.RepairRuns
import OpenFoamAgent.Engineering.Deltas
import OpenFoamAgent.Library.Runs
import OpenFoamAgent.Workspace.Frames

namespace OpenFoamAgent
namespace Engineering

open Python Schemas Workspace Contracts Controller

/-! ### Runs -/

/-- A step of the controller: a delta is committed and registered, or an edit is dispatched. -/
inductive Operation where
  | commit (changedFiles : Dict Text Text) (dropPaths : List Text)
  | edit (phase : Phase) (a : CaseAction)

/-- The controller after a step, taken on a machine of its own. -/
def operate (c : Controller) (s : Machine × Operation) : Controller :=
  match s.2 with
  | .commit changedFiles dropPaths => (c.commit s.1 changedFiles.items dropPaths).1
  | .edit phase a => c.edit s.1 phase a

/-- Right after its event, the case holds what an edit says it left. -/
def Holds (w : CaseWorkspace) (a : CaseAction) (event : EngineeringEvent) : Prop :=
  match a with
  | .write path content =>
    event.artifactSha256 = some ⟨encode content⟩ ∧ w.tree.fileAt (locate path) = some (encode content)
  | .patch path _ _ =>
    ∃ b, event.artifactSha256 = some ⟨b⟩ ∧ w.tree.fileAt (locate path) = some b
  | .delete path => w.tree.fileAt (locate path) = none

/-- A successful event of the step is true of the case right after it. -/
def Truthful (c : Controller) (s : Machine × Operation) : Prop :=
  match s.2 with
  | .commit _ _ => True
  | .edit phase a => ∀ event, (c.dispatch s.1 phase a).2 = some event → event.success →
      Holds (c.dispatch s.1 phase a).1.workspace a event

/-- The registry is what the case holds. -/
structure Honoured (h : Holdings) : Prop where
  files : ∀ p d, h.precommittedFiles.get p = some d →
    h.workspace.tree.fileAt (locate p) = some d.preimage
  drops : ∀ p ∈ h.precommittedDrops, h.workspace.tree.fileAt (locate p) = none

/-! ### Steps that leave the registry alone -/

/-- The edit is answered by the registry, or leaves true what the entries say of its place. -/
def EditUndisturbed (c : Controller) (a : CaseAction) : Prop :=
  match a with
  | .write path content => c.Precommitted path content ∨
      ((∀ p d, c.precommittedFiles.get p = some d → locate p = locate path → d = ⟨encode content⟩) ∧
        ∀ p ∈ c.precommittedDrops, locate p ≠ locate path)
  | .patch path _ _ => ∀ p d, c.precommittedFiles.get p = some d → locate p ≠ locate path
  | .delete path => path ∈ c.precommittedDrops ∨
      ∀ p d, c.precommittedFiles.get p = some d → locate p ≠ locate path

/-- The delta gives each place one text or none, and of the entries it does not replace none is at a place
it changes. -/
structure CommitUndisturbed (c : Controller) (changes : List (Text × Text))
    (dropPaths : List Text) : Prop where
  consistent : CaseWorkspace.Consistent changes
  disjoint : ∀ p ∈ dropPaths, locate p ∉ CaseWorkspace.places changes
  files : ∀ p d, c.precommittedFiles.get p = some d →
    p ∈ changes.map (fun x => stripBy (· == '/') x.1) ∨
      (locate p ∉ CaseWorkspace.places changes ∧ locate p ∉ dropPaths.map locate)
  drops : ∀ p ∈ c.precommittedDrops, locate p ∉ CaseWorkspace.places changes

/-- The workspace `w` holds what the case of `c` holds wherever the registry has an entry. -/
def KeepsEntries (c : Controller) (w : CaseWorkspace) : Prop :=
  (∀ p d, c.precommittedFiles.get p = some d →
      w.tree.fileAt (locate p) = c.workspace.tree.fileAt (locate p)) ∧
    ∀ p ∈ c.precommittedDrops, w.tree.fileAt (locate p) = c.workspace.tree.fileAt (locate p)

/-- The step disturbs no entry of the registry. A transaction that raises has left the files of
the entries as they were. -/
def Undisturbed (c : Controller) (s : Machine × Operation) : Prop :=
  match s.2 with
  | .commit changedFiles dropPaths =>
    match c.workspace.commitTextTransaction s.1.host changedFiles.items dropPaths with
    | (w, .error _) => KeepsEntries c w
    | (_, .ok _) => CommitUndisturbed c changedFiles.items dropPaths
  | .edit phase a => c.PolicyAdmits phase a.path → c.refusal a = none → EditUndisturbed c a

theorem undisturbed_commit {m : Machine} {c : Controller} {changedFiles : Dict Text Text}
    {dropPaths : List Text} (hraise : ∀ w, KeepsEntries c w)
    (hreturn : CommitUndisturbed c changedFiles.items dropPaths) :
    Undisturbed c (m, .commit changedFiles dropPaths) := by
  unfold Undisturbed
  dsimp only
  split
  · exact hraise _
  · exact hreturn

/-! ### One step -/

theorem Honoured.keep {h h' : Holdings} (hh : Honoured h)
    (hfiles : ∀ p d, h'.precommittedFiles.get p = some d → h.precommittedFiles.get p = some d ∧
      h'.workspace.tree.fileAt (locate p) = h.workspace.tree.fileAt (locate p))
    (hdrops : ∀ p ∈ h'.precommittedDrops, p ∈ h.precommittedDrops ∧
      h'.workspace.tree.fileAt (locate p) = h.workspace.tree.fileAt (locate p)) : Honoured h' := by
  refine ⟨fun p d hp => ?_, fun p hp => ?_⟩
  · obtain ⟨hp', hfile⟩ := hfiles p d hp
    rw [hfile, hh.files p d hp']
  · obtain ⟨hp', hfile⟩ := hdrops p hp
    rw [hfile, hh.drops p hp']

variable {m : Machine} {c : Controller} {path content : Text}

theorem performWrite_honoured (hh : Honoured c.holdings)
    (hu : EditUndisturbed c (.write path content)) :
    Honoured (c.performWrite m path content).1.holdings := by
  unfold performWrite
  split_ifs with hpre
  · -- the entry is consumed
    exact hh.keep (fun p d hp => ⟨(Dict.get_of_get_erase hp).2, rfl⟩) fun p hp => ⟨hp, rfl⟩
  · obtain ⟨hfiles, hdrops⟩ := hu.resolve_left hpre
    have hwithin := CaseWorkspace.writeText_within m.host c.workspace path content
    have hplace := CaseWorkspace.writeText_file m.host c.workspace path content
    have hwrite : Honoured { c with
        workspace := (c.workspace.writeText m.host path content).1 }.holdings := by
      refine ⟨fun p d hp => ?_, fun p hp => ?_⟩
      · by_cases heq : locate p = locate path
        · obtain rfl := hfiles p d hp heq
          have hold : c.workspace.tree.fileAt (locate path) = some (encode content) :=
            heq ▸ hh.files p _ hp
          show (c.workspace.writeText m.host path content).1.tree.fileAt (locate p) =
            some (encode content)
          rw [heq]
          exact hplace.elim (fun h => h.trans hold) id
        · exact (hwithin.tree.files _ (by simpa using heq)).trans (hh.files p d hp)
      · exact (hwithin.tree.files _ (by simpa using hdrops p hp)).trans (hh.drops p hp)
    generalize c.workspace.writeText m.host path content = o at hwrite ⊢
    obtain ⟨w, r⟩ := o
    cases r <;> exact hwrite

/-- A change of one file that no entry names, made only where there is a file. -/
theorem honoured_of_within {w : CaseWorkspace} (hh : Honoured c.holdings)
    (hwithin : Within {locate path} c.workspace w)
    (hfiles : ∀ p d, c.precommittedFiles.get p = some d → locate p ≠ locate path)
    (hmissing : c.workspace.tree.fileAt (locate path) = none → w = c.workspace) :
    Honoured { c with workspace := w }.holdings := by
  refine ⟨fun p d hp => ?_, fun p hp => ?_⟩
  · exact (hwithin.tree.files _ (by simpa using hfiles p d hp)).trans (hh.files p d hp)
  · have habsent : c.workspace.tree.fileAt (locate p) = none := hh.drops p hp
    show w.tree.fileAt (locate p) = none
    by_cases heq : locate p = locate path
    · rw [hmissing (heq ▸ habsent), habsent]
    · rw [hwithin.tree.files _ (by simpa using heq), habsent]

theorem performPatch_honoured {old new : Text} (hh : Honoured c.holdings)
    (hu : EditUndisturbed c (.patch path old new)) :
    Honoured (c.afterMutation (c.workspace.patchTextOnce m.host path old new)).1.holdings := by
  have hpatch := honoured_of_within hh
    (CaseWorkspace.patchTextOnce_within m.host c.workspace path old new) hu
    (CaseWorkspace.patchTextOnce_of_missing m.host)
  generalize c.workspace.patchTextOnce m.host path old new = o at hpatch ⊢
  obtain ⟨w, r⟩ := o
  cases r <;> exact hpatch

theorem performDelete_honoured (hh : Honoured c.holdings) (hu : EditUndisturbed c (.delete path)) :
    Honoured (c.performDelete m path).1.holdings := by
  unfold performDelete
  split_ifs with hdrop
  · -- the entry is consumed
    exact hh.keep (fun p d hp => ⟨hp, rfl⟩) fun p hp => ⟨(OrderedSet.mem_discard.1 hp).2, rfl⟩
  · have hdelete := honoured_of_within hh (CaseWorkspace.delete_within m.host c.workspace path)
      (hu.resolve_left hdrop) (CaseWorkspace.delete_of_missing m.host)
    generalize c.workspace.delete m.host path = o at hdelete ⊢
    obtain ⟨w, r⟩ := o
    cases r <;> exact hdelete

/-- An edit that disturbs no entry keeps the registry honoured, whether it raises or not. -/
theorem perform_honoured {a : CaseAction} (hh : Honoured c.holdings) (hu : EditUndisturbed c a) :
    Honoured (c.perform m a).1.holdings := by
  cases a with
  | write path content => exact performWrite_honoured hh hu
  | patch path old new => exact performPatch_honoured hh hu
  | delete path => exact performDelete_honoured hh hu

/-- What an edit reports is what the case holds. -/
theorem perform_holds {a : CaseAction} {digest : Option Digest} (hh : Honoured c.holdings)
    (h : (c.perform m a).2 = .ok digest) :
    Holds (c.perform m a).1.workspace a (a.succeeded digest) := by
  cases a with
  | write path content =>
    by_cases hpre : c.Precommitted path content
    · rw [perform_precommitted hpre] at h ⊢
      cases h
      exact ⟨rfl, hh.files path _ hpre⟩
    · have hperform : c.perform m (.write path content) =
          (c.afterMutation (c.workspace.writeText m.host path content)).map id (Except.map some) := by
        show (c.performWrite m path content).map id (Except.map some) = _
        unfold performWrite
        rw [if_neg hpre]
      rw [hperform] at h ⊢
      cases hwrite : c.workspace.writeText m.host path content with
      | mk w r =>
        rw [hwrite] at h
        cases r with
        | error e => cases h
        | ok d =>
          cases h
          obtain ⟨rfl, hfile⟩ := CaseWorkspace.writeText_ok hwrite
          exact ⟨rfl, hfile⟩
  | patch path old new =>
    have hperform : c.perform m (.patch path old new) =
        (c.afterMutation (c.workspace.patchTextOnce m.host path old new)).map id
          (Except.map some) := rfl
    rw [hperform] at h ⊢
    cases hpatch : c.workspace.patchTextOnce m.host path old new with
    | mk w r =>
      rw [hpatch] at h
      cases r with
      | error e => cases h
      | ok d =>
        cases h
        exact ⟨d.preimage, rfl, CaseWorkspace.patchTextOnce_ok hpatch⟩
  | delete path =>
    by_cases hdrop : path ∈ c.precommittedDrops
    · have hperform : c.perform m (.delete path) =
          ({ c with precommittedDrops := c.precommittedDrops.discard path }, .ok none) := by
        show (c.performDelete m path).map id (Except.map fun _ => none) = _
        unfold performDelete
        rw [if_pos hdrop]
        rfl
      rw [hperform]
      exact hh.drops path hdrop
    · have hperform : c.perform m (.delete path) =
          (c.afterMutation (c.workspace.delete m.host path)).map id (Except.map fun _ => none) := by
        show (c.performDelete m path).map id (Except.map fun _ => none) = _
        unfold performDelete
        rw [if_neg hdrop]
      rw [hperform] at h ⊢
      cases hdelete : c.workspace.delete m.host path with
      | mk w r =>
        rw [hdelete] at h
        cases r with
        | error e => cases h
        | ok _ => exact CaseWorkspace.delete_ok hdelete

/-- A dispatched edit that disturbs no entry: the registry stays honoured, and a success is
true. -/
theorem dispatch_honoured {phase : Phase} {a : CaseAction} (hh : Honoured c.holdings)
    (hu : c.PolicyAdmits phase a.path → c.refusal a = none → EditUndisturbed c a) :
    Honoured (c.dispatch m phase a).1.holdings ∧ Truthful c (m, .edit phase a) := by
  have hfailed : ∀ {report : Option EngineeringEvent} {w : CaseWorkspace}, NotReported a report →
      ∀ event, report = some event → event.success → Holds w a event := by
    rintro _ w (rfl | ⟨summary, rfl⟩) event hevent hsuccess
    · cases hevent
    · cases hevent
      cases hsuccess
  have hsettle : ∀ b, ((c.perform m a).1.settle m phase b).1.holdings = (c.perform m a).1.holdings :=
    fun b => (settle_frame m _ phase b).1
  have hd := dispatched m c phase a
  unfold Truthful
  dsimp only
  generalize c.dispatch m phase a = r at hd ⊢
  obtain ⟨c', report⟩ := r
  dsimp only at hd ⊢
  cases hd with
  | unauthorized hpolicy hreport =>
    rw [(phasePolicy_frame c phase a.path).1]
    exact ⟨hh, hfailed hreport⟩
  | refused hpolicy hrefusal => exact ⟨hh, hfailed (.inr ⟨_, rfl⟩)⟩
  | unnamed hpolicy hrefusal hnamed hreport => exact ⟨hh, hfailed hreport⟩
  | notPerformed hpolicy hrefusal hperformed hreport =>
    exact ⟨perform_honoured hh (hu hpolicy hrefusal), hfailed hreport⟩
  | notSettled meshAffecting hpolicy hrefusal hperformed hdigested hreport =>
    rw [hsettle]
    exact ⟨perform_honoured hh (hu hpolicy hrefusal), hfailed hreport⟩
  | done meshAffecting hadmits hdigest =>
    rw [hsettle]
    refine ⟨perform_honoured hh (hu hadmits.policy hadmits.guards), fun event hevent _ => ?_⟩
    obtain rfl := Option.some.inj hevent
    have hworkspace : ((c.perform m a).1.settle m phase meshAffecting).1.workspace =
        (c.perform m a).1.workspace := congrArg Holdings.workspace (hsettle meshAffecting)
    rw [hworkspace]
    exact perform_holds hh hdigest

theorem mem_foldl_add {s : OrderedSet Text} {paths : List Text} {p : Text}
    (h : p ∈ paths.foldl OrderedSet.add s) : p ∈ s ∨ p ∈ paths := by
  induction paths generalizing s with
  | nil => exact .inl h
  | cons q paths ih =>
    rcases ih h with hs | hp
    · rcases OrderedSet.mem_add.1 hs with rfl | hs
      · exact .inr List.mem_cons_self
      · exact .inl hs
    · exact .inr (List.mem_cons_of_mem _ hp)

/-- A committed delta that disturbs no entry: the registry holds its texts and drops besides,
and is honoured. -/
theorem register_honoured {w : CaseWorkspace} {committed : List (Text × Digest)}
    {changes : List (Text × Text)} {dropPaths : List Text} (hh : Honoured c.holdings)
    (hu : CommitUndisturbed c changes dropPaths)
    (h : c.workspace.commitTextTransaction m.host changes dropPaths = (w, .ok committed)) :
    Honoured (c.register w committed dropPaths).holdings := by
  obtain ⟨hchanged, hdropped, hwithin⟩ :=
    CaseWorkspace.commitTextTransaction_returns hu.consistent hu.disjoint h
  obtain ⟨rfl, -⟩ := CaseWorkspace.commitTextTransaction_committed h
  refine ⟨fun p d hp => ?_, fun p hp => ?_⟩
  · show w.tree.fileAt (locate p) = some d.preimage
    rcases Dict.of_get_update hp with hmem | ⟨hkeys, hold⟩
    · obtain ⟨x, hx, heq⟩ := List.mem_map.1 hmem
      obtain ⟨rfl, rfl⟩ := Prod.mk.inj heq
      rw [CaseWorkspace.locate_stripBy]
      exact hchanged x hx
    · rw [List.map_map] at hkeys
      have hplace := (hu.files p d hold).resolve_left hkeys
      have hout : locate p ∉ {l | l ∈ CaseWorkspace.places changes ∨ l ∈ dropPaths.map locate} :=
        fun hin => hin.elim hplace.1 hplace.2
      exact (hwithin.tree.files _ hout).trans (hh.files p d hold)
  · show w.tree.fileAt (locate p) = none
    rcases mem_foldl_add hp with hold | hnew
    · by_cases hmem : locate p ∈ dropPaths.map locate
      · obtain ⟨q, hq, heq⟩ := List.mem_map.1 hmem
        rw [← heq]
        exact hdropped q hq
      · have hout : locate p ∉ {l | l ∈ CaseWorkspace.places changes ∨ l ∈ dropPaths.map locate} :=
          fun hin => hin.elim (hu.drops p hold) hmem
        exact (hwithin.tree.files _ hout).trans (hh.drops p hold)
    · exact hdropped p hnew

/-- A step that disturbs no entry keeps the registry honoured and reports the truth. -/
theorem operate_honoured {s : Machine × Operation} (hh : Honoured c.holdings)
    (hu : Undisturbed c s) : Honoured (operate c s).holdings ∧ Truthful c s := by
  obtain ⟨m, op⟩ := s
  cases op with
  | commit changedFiles dropPaths =>
    refine ⟨?_, trivial⟩
    show Honoured (c.commit m changedFiles.items dropPaths).1.holdings
    unfold Undisturbed at hu
    dsimp only at hu
    unfold commit
    cases hcommit : c.workspace.commitTextTransaction m.host changedFiles.items dropPaths with
    | mk w r =>
      rw [hcommit] at hu
      cases r with
      | error e => exact hh.keep (fun p d hp => ⟨hp, hu.1 p d hp⟩) fun p hp => ⟨hp, hu.2 p hp⟩
      | ok committed => exact register_honoured hh hu hcommit
  | edit phase a =>
    obtain ⟨hafter, htrue⟩ := dispatch_honoured (m := m) hh hu
    refine ⟨?_, htrue⟩
    show Honoured (c.edit m phase a).holdings
    unfold edit
    generalize c.dispatch m phase a = r at hafter ⊢
    obtain ⟨c', report⟩ := r
    cases report <;> exact hafter

/-! ### Every run -/

/-- A registry without entries is honoured. -/
theorem honoured_of_empty (hfiles : c.precommittedFiles = ∅) (hdrops : c.precommittedDrops.items = []) :
    Honoured c.holdings := by
  refine ⟨fun p d hp => ?_, fun p hp => ?_⟩
  · have hp' : c.precommittedFiles.get p = some d := hp
    rw [hfiles, Dict.get_empty] at hp'
    cases hp'
  · have hp' : p ∈ c.precommittedDrops.items := hp
    rw [hdrops] at hp'
    cases hp'

/-- **Truthful events:** from an empty registry on, along every run whose steps disturb no entry
of the registry, every entry is honoured before each step and every reported edit is what the
case holds right after it. -/
theorem run_truthful {steps : List (Machine × Operation)} (hfiles : c.precommittedFiles = ∅)
    (hdrops : c.precommittedDrops.items = []) (h : Runs.Meets operate Undisturbed c steps) :
    Runs.Meets operate (fun c s => Honoured c.holdings ∧ Truthful c s) c steps := by
  have hstart := honoured_of_empty hfiles hdrops
  clear hfiles hdrops
  induction steps generalizing c with
  | nil => trivial
  | cons s steps ih =>
    obtain ⟨hafter, htrue⟩ := operate_honoured hstart h.1
    exact ⟨⟨hstart, htrue⟩, ih h.2 hafter⟩

/-! ### Examples -/

/-- A machine on which no call fails. -/
def steadyMachine : Machine := ⟨.reliable, fun _ _ => .ok ⟨[]⟩⟩

/-- The dispatch of a write of `system/fvSchemes` in the preparation. -/
def writeSchemes (content : String) : Machine × Operation :=
  (steadyMachine, .edit .prepare (.write "system/fvSchemes".toList content.toList))

/-- The commit of `system/fvSchemes`. -/
def commitSchemes (content : String) : Machine × Operation :=
  (steadyMachine, .commit (.ofItems [("system/fvSchemes".toList, content.toList)]) [])

/-- A single patch of `system/fvSchemes`. -/
def patchSchemes (old new : String) : Machine × Operation :=
  (steadyMachine, .edit .prepare (.patch "system/fvSchemes".toList old.toList new.toList))

/-- A controller with an empty registry. -/
def newSession : Controller := { workspace := caseWith "deltaT 1e-3;\n" }

theorem run_truthful_audited : Runs.Meets operate (fun c s => Honoured c.holdings ∧ Truthful c s)
    newSession [commitSchemes "ddt backward;\n", writeSchemes "ddt backward;\n"] := by
  have hfile : ∀ p d, newSession.precommittedFiles.get p ≠ some d := by
    intro p d hp
    rw [show newSession.precommittedFiles = ∅ from rfl, Dict.get_empty] at hp
    cases hp
  have hdrop : ∀ p, p ∉ newSession.precommittedDrops := fun p hp => List.not_mem_nil hp
  have hcommit : Undisturbed newSession (commitSchemes "ddt backward;\n") :=
    undisturbed_commit
      (fun w => ⟨fun p d hp => absurd hp (hfile p d), fun p hp => absurd hp (hdrop p)⟩)
      ⟨CaseWorkspace.consistent_of_nodup (by decide +kernel), fun p hp => absurd hp List.not_mem_nil,
        fun p d hp => absurd hp (hfile p d), fun p hp => absurd hp (hdrop p)⟩
  exact run_truthful rfl rfl ⟨hcommit, fun _ _ => .inl (by decide +kernel), trivial⟩

/-- A delta is committed and its sequence stops, the file is patched, and the write of the
committed text is then reported as done: the file holds the patched text. -/
theorem patched_write_untruthful :
    (Runs.run operate newSession [commitSchemes "ddt backward;\n",
        patchSchemes "backward" "steadyState"]).workspace.tree.fileAt
          ["system".toList, "fvSchemes".toList] = some (encode "ddt steadyState;\n".toList) ∧
      ((Runs.run operate newSession [commitSchemes "ddt backward;\n",
        patchSchemes "backward" "steadyState"]).dispatch steadyMachine .prepare
          (.write "system/fvSchemes".toList "ddt backward;\n".toList)).2 =
        some ((CaseAction.write "system/fvSchemes".toList "ddt backward;\n".toList).succeeded
          (some ⟨encode "ddt backward;\n".toList⟩)) ∧
      ¬ Runs.Meets operate Truthful newSession [commitSchemes "ddt backward;\n",
        patchSchemes "backward" "steadyState", writeSchemes "ddt backward;\n"] := by
  have hevent : ((Runs.run operate newSession [commitSchemes "ddt backward;\n",
      patchSchemes "backward" "steadyState"]).dispatch steadyMachine .prepare
        (.write "system/fvSchemes".toList "ddt backward;\n".toList)).2 =
      some ((CaseAction.write "system/fvSchemes".toList "ddt backward;\n".toList).succeeded
        (some ⟨encode "ddt backward;\n".toList⟩)) := by decide +kernel
  refine ⟨by decide +kernel, hevent, fun h => ?_⟩
  have hheld := (h.2.2.1 _ hevent rfl).2
  revert hheld
  decide +kernel

end Engineering
end OpenFoamAgent
