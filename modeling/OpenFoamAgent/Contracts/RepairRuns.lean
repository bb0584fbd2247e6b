/-
# Runs of repair attempts

The part of `execute_runtime_repair_plan` of
`engineering/phases/repair_controller.py` that concerns the approval: a
candidate is checked by `check_repair_delta`, which records it, and is then
committed by `commit_text_transaction`, unless one of the returns in between
abandons it.

`Session` is what every such run keeps. It says where an authorized text comes
from: `Chain` leads to it from the approved text by changes that passed the
checks, each against the approved text as baseline. What the entries of a file
can be after a run is then an induction over `Chain`, without the maps.
-/
import OpenFoamAgent.Contracts.RepairDelta
import OpenFoamAgent.Library.Runs
import OpenFoamAgent.Workspace.Frames

namespace OpenFoamAgent
namespace Contracts

open Python Schemas Workspace ExecutionApproval

/-! ### Attempts -/

/-- An approval and the case it guards. -/
structure RepairState where
  approval : ExecutionApproval
  workspace : CaseWorkspace

/-- One repair attempt: its candidate, and whether the controller returns between the check
and the commit (another solver, the action budget, the toolchain preflight). -/
structure RepairAttempt where
  host : Host
  changed : Dict Text Text
  abandoned : Bool

namespace RepairState

/-- The commit of an attempt. -/
def commit (s : RepairState) (a : RepairAttempt) : Outcome (List (Text × Digest)) :=
  s.workspace.commitTextTransaction a.host a.changed.items []

/-- The check of an attempt and, when it accepts, the commit. -/
def attempt (s : RepairState) (a : RepairAttempt) : RepairState :=
  match s.approval.checkRepairDelta s.workspace a.changed with
  | .error _ => s
  | .ok approval =>
    if a.abandoned then { s with approval } else ⟨approval, (s.commit a).1⟩

/-- The candidate is accepted. -/
def Accepts (s : RepairState) (changed : Dict Text Text) : Prop :=
  (s.approval.checkRepairDelta s.workspace changed).isOk

instance (s : RepairState) (changed : Dict Text Text) : Decidable (s.Accepts changed) :=
  inferInstanceAs (Decidable ((s.approval.checkRepairDelta s.workspace changed).isOk = true))

theorem accepts_iff {s : RepairState} {changed : Dict Text Text} :
    s.Accepts changed ↔
      ∃ approval, s.approval.checkRepairDelta s.workspace changed = .ok approval := by
  unfold Accepts
  cases s.approval.checkRepairDelta s.workspace changed with
  | error e =>
    refine ⟨nofun, ?_⟩
    rintro ⟨approval, ⟨⟩⟩
  | ok approval => exact ⟨fun _ => ⟨approval, rfl⟩, fun _ => rfl⟩

/-- The attempt commits its candidate. -/
def Commits (s : RepairState) (a : RepairAttempt) : Prop :=
  a.abandoned = false ∧ (s.commit a).2.isOk

instance (s : RepairState) (a : RepairAttempt) : Decidable (s.Commits a) :=
  inferInstanceAs (Decidable (a.abandoned = false ∧ (s.commit a).2.isOk = true))

theorem Commits.ok {s : RepairState} {a : RepairAttempt} (h : s.Commits a) :
    ∃ digests, (s.commit a).2 = .ok digests := by
  obtain ⟨-, hok⟩ := h
  cases hcommit : (s.commit a).2 with
  | error e => rw [hcommit] at hok; cases hok
  | ok digests => exact ⟨digests, rfl⟩

/-- The attempt changes no file: it returns before the commit, or the transaction is rolled
back. -/
def Abandons (s : RepairState) (a : RepairAttempt) : Prop :=
  ∀ l, (s.attempt a).workspace.tree.fileAt l = s.workspace.tree.fileAt l

/-- A rejected candidate changes nothing. -/
theorem attempt_of_not_accepts {s : RepairState} {a : RepairAttempt}
    (h : ¬ s.Accepts a.changed) : s.attempt a = s := by
  unfold attempt
  split
  · rfl
  · rename_i approval hcheck
    exact absurd (accepts_iff.2 ⟨approval, hcheck⟩) h

/-- An accepted candidate is recorded whether it is committed or not. -/
theorem approval_attempt (s : RepairState) {a : RepairAttempt} {approval : ExecutionApproval}
    (hcheck : s.approval.checkRepairDelta s.workspace a.changed = .ok approval) :
    (s.attempt a).approval = approval := by
  unfold attempt
  rw [hcheck]
  dsimp only
  split_ifs <;> rfl

end RepairState

/-! ### Reading -/

/-- The cut of `read_text` behind `max_chars` characters. -/
def truncate (limit : ℕ) (text : Text) : Text :=
  if text.length > limit then text.take limit ++ "\n... [truncated]".toList else text

theorem truncate_truncate (limit : ℕ) (text : Text) :
    truncate limit (truncate limit text) = truncate limit text := by
  unfold truncate
  split_ifs
  · rw [List.take_append_of_le_length (by rw [List.length_take]; omega), List.take_take, min_self]
  · rfl
  · rfl

/-- The text `read_text` gives for the content of a file. -/
def readBack (limit : ℕ) (data : Bytes) : Text :=
  truncate limit (universalNewlines (decodeReplace data))

theorem cr_notMem_readBack (limit : ℕ) (data : Bytes) : '\r' ∉ readBack limit data := by
  have htext := cr_notMem_universalNewlines (decodeReplace data)
  unfold readBack truncate
  split_ifs
  · rw [List.mem_append, not_or]
    exact ⟨fun h => htext (List.mem_of_mem_take h), by decide⟩
  · exact htext

/-- A text that was read is read again as it is. -/
theorem readBack_encode_readBack (limit : ℕ) (data : Bytes) :
    readBack limit (encode (readBack limit data)) = readBack limit data := by
  rw [readBack, decodeReplace_encode, universalNewlines_eq_self (cr_notMem_readBack limit data)]
  exact truncate_truncate limit _

theorem repairText_eq_ok {w : CaseWorkspace} {path current : Text}
    (h : repairText w path = .ok current) :
    w.tree.isFile (locate path) ∧
      current = readBack (w.maxFileBytes + 1) ((w.tree.fileAt (locate path)).getD []) := by
  unfold repairText at h
  split at h
  · rename_i text hread
    cases h
    unfold CaseWorkspace.readText at hread
    obtain ⟨l, hl, hread⟩ := Traversal.bind_eq_ok.1 hread
    obtain ⟨rfl, -, -, hfile⟩ := CaseWorkspace.resolveCasePath_eq_ok hl
    cases hread
    exact ⟨hfile rfl, rfl⟩
  · cases h
  · cases h

/-! ### Where an authorized text comes from -/

/-- `text` is the approved content of the file of `path`, as `read_text` reads it. -/
structure ApprovedText (approval : ExecutionApproval) (limit : ℕ) (path text : Text) : Prop where
  approved : approval.approvedFiles.get path = some ⟨encode text⟩
  read : readBack limit (encode text) = text

theorem ApprovedText.unique {approval : ExecutionApproval} {limit : ℕ} {path s t : Text}
    (hs : ApprovedText approval limit path s) (ht : ApprovedText approval limit path t) : s = t := by
  have h : (⟨encode s⟩ : Digest) = ⟨encode t⟩ := Option.some.inj (hs.approved.symm.trans ht.approved)
  exact encode_injective (congrArg Sha256.preimage h)

/-- The texts that accepted changes lead to from the approved text `baseline`. -/
inductive Chain (approval : ExecutionApproval) (kind : RepairKind) (path baseline : Text) :
    Text → Prop
  | approved : Chain approval kind path baseline baseline
  | change {current proposed : Text} (h : Chain approval kind path baseline current)
      (hfile : path ∉ approval.protectedRepairFiles)
      (hchange : approval.checkChange kind path current proposed baseline = .ok ()) :
      Chain approval kind path baseline proposed

/-- The maps at a path name only texts that a chain leads to. -/
structure Sound (approval : ExecutionApproval) (limit : ℕ) (path : Text) (a : PathAuthority) :
    Prop where
  hash : ∀ d, a.hash = some d → ∃ kind baseline text, runtimeRepairPathKind path = some kind ∧
    ApprovedText approval limit path baseline ∧ d = ⟨encode text⟩ ∧
      Chain approval kind path baseline text
  baseline : ∀ text, a.baseline = some text → ApprovedText approval limit path text
  control : runtimeRepairPathKind path = some .controlDict → a.hash.isSome → a.baseline.isSome
  numerical : runtimeRepairPathKind path = some .numericalDictionary → a.baseline = none

theorem Sound.fresh (approval : ExecutionApproval) (limit : ℕ) (path : Text) :
    Sound approval limit path ⟨none, none, none⟩ :=
  ⟨nofun, nofun, fun _ h => absurd h (by decide), fun _ => rfl⟩

/-- The baseline matters to changes of `controlDict` only. -/
theorem ExecutionApproval.checkChange_numerical (approval : ExecutionApproval)
    (path current proposed b b' : Text) :
    approval.checkChange .numericalDictionary path current proposed b =
      approval.checkChange .numericalDictionary path current proposed b' := rfl

namespace ExecutionApproval.Authorized

variable {approval : ExecutionApproval} {w : CaseWorkspace} {a : PathAuthority}
  {path proposed current : Text} {kind : RepairKind}

/-- The text before an accepted change ends a chain. -/
theorem chain (h : approval.Authorized w a path proposed kind current)
    (hs : Sound approval (w.maxFileBytes + 1) path a) :
    (∃ baseline, ApprovedText approval (w.maxFileBytes + 1) path baseline ∧
      Chain approval kind path baseline current ∧
      (kind = .controlDict → a.baseline.getD current = baseline)) ∨
    ∃ baseline, ApprovedText approval (w.maxFileBytes + 1) path baseline ∧
      a.hash = some ⟨encode proposed⟩ ∧ Chain approval kind path baseline proposed := by
  have hcurrent := (repairText_eq_ok h.read).2
  have hbaseline : ∀ baseline, ApprovedText approval (w.maxFileBytes + 1) path baseline →
      a.baseline.isSome → a.baseline.getD current = baseline := by
    intro baseline happ hsome
    obtain ⟨text, htext⟩ := Option.isSome_iff_exists.1 hsome
    rw [htext, Option.getD_some]
    exact (hs.baseline text htext).unique happ
  rcases h.known with hknown | hknown | ⟨hknown, -⟩
  · have happ : ApprovedText approval (w.maxFileBytes + 1) path current :=
      ⟨hknown.symm, by rw [hcurrent, readBack_encode_readBack]⟩
    refine .inl ⟨current, happ, .approved, fun _ => ?_⟩
    cases hb : a.baseline with
    | none => rfl
    | some text => exact (hs.baseline text hb).unique happ
  · obtain ⟨kind', baseline, text, hkind, happ, htext, hchain⟩ := hs.hash _ hknown.symm
    obtain rfl : current = text := encode_injective (congrArg Sha256.preimage htext)
    obtain rfl : kind = kind' := Option.some.inj (h.kind_eq.symm.trans hkind)
    refine .inl ⟨baseline, happ, hchain, ?_⟩
    rintro rfl
    exact hbaseline baseline happ (hs.control hkind (by rw [← hknown]; rfl))
  · obtain ⟨kind', baseline, text, hkind, happ, htext, hchain⟩ := hs.hash _ hknown.symm
    obtain rfl : proposed = text := encode_injective (congrArg Sha256.preimage htext)
    obtain rfl : kind = kind' := Option.some.inj (h.kind_eq.symm.trans hkind)
    exact .inr ⟨baseline, happ, hknown.symm, hchain⟩

/-- An accepted text ends a chain, whether it changes the file or not. -/
theorem chain_proposed (h : approval.Authorized w a path proposed kind current)
    (hs : Sound approval (w.maxFileBytes + 1) path a) :
    ∃ baseline, ApprovedText approval (w.maxFileBytes + 1) path baseline ∧
      Chain approval kind path baseline proposed := by
  rcases h.chain hs with ⟨baseline, happ, hchain, hb⟩ | ⟨baseline, happ, -, hchain⟩
  · refine ⟨baseline, happ, ?_⟩
    by_cases heq : proposed = current
    · rwa [heq]
    · refine hchain.change (h.notFrozen heq) ?_
      have hchange := h.change heq
      cases kind with
      | numericalDictionary => rwa [checkChange_numerical _ _ _ _ _ baseline] at hchange
      | controlDict => rwa [hb rfl] at hchange
  · exact ⟨baseline, happ, hchain⟩

/-- The maps stay sound at a path whose new text they accept. -/
theorem sound_after (h : approval.Authorized w a path proposed kind current)
    (hs : Sound approval (w.maxFileBytes + 1) path a) :
    Sound approval (w.maxFileBytes + 1) path (a.after kind current proposed) := by
  unfold PathAuthority.after
  split_ifs with heq
  · exact hs
  obtain ⟨baseline, happ, hchain⟩ := h.chain_proposed hs
  refine ⟨?_, ?_, ?_, ?_⟩
  · intro d hd
    cases hd
    exact ⟨kind, baseline, proposed, h.kind_eq, happ, rfl, hchain⟩
  · intro text htext
    cases kind with
    | numericalDictionary => exact hs.baseline text htext
    | controlDict =>
      obtain rfl : a.baseline.getD current = text := Option.some.inj htext
      cases hb : a.baseline with
      | some text => exact hs.baseline text hb
      | none =>
        -- the first change of this file: nothing is authorized yet, so it has its approved text
        have hnone : a.hash = none := by
          refine Option.not_isSome_iff_eq_none.1 fun hsome => ?_
          have := hs.control h.kind_eq hsome
          rw [hb] at this
          exact Bool.noConfusion this
        rcases h.known with hk | hk | ⟨hk, -⟩
        · exact ⟨hk.symm, by rw [(repairText_eq_ok h.read).2, Option.getD_none,
            readBack_encode_readBack]⟩
        · rw [hnone] at hk; cases hk
        · rw [hnone] at hk; cases hk
  · intro hkind _
    obtain rfl : kind = .controlDict := Option.some.inj (h.kind_eq.symm.trans hkind)
    rfl
  · intro hkind
    obtain rfl : kind = .numericalDictionary := Option.some.inj (h.kind_eq.symm.trans hkind)
    exact hs.numerical hkind

end ExecutionApproval.Authorized

/-! ### Sessions -/

/-- `approval` was issued on the seal of the case `w`, and has checked no repair yet. -/
structure Issued (approval : ExecutionApproval) (w : CaseWorkspace) : Prop where
  approved : ∀ path d, approval.approvedFiles.get path = some d →
    asPosix (locate path) = path ∧ underExecutionInput (locate path) ∧
      ∃ data, w.tree.fileAt (locate path) = some data ∧ d = ⟨data⟩
  recorded : ∀ l data, underExecutionInput l → w.tree.fileAt l = some data →
    locate (asPosix l) = l ∧ approval.approvedFiles.get (asPosix l) = some ⟨data⟩
  fresh : ∀ path, approval.authority path = ⟨none, none, none⟩

theorem locate_asPosix_of_named {w : CaseWorkspace} (hnamed : w.Named) {l : Location} {data : Bytes}
    (hin : underExecutionInput l) (hdata : w.tree.fileAt l = some data) :
    locate (asPosix l) = l := by
  refine locate_asPosix ?_ (hnamed l (by rw [FileTree.isFile, hdata]; rfl))
  rintro rfl
  exact absurd hin (by decide)

/-- The approval of a plan on the seal of the current case. -/
theorem Issued.issue {w : CaseWorkspace} {caseSeal : CaseSeal} (plan : EngineeringPlan)
    (limits : Option ResourceLimits) (hnamed : w.Named)
    (hseal : w.executionFileSeals = .ok caseSeal.files) :
    Issued (.issue plan caseSeal limits) w := by
  have hitem : ∀ path d, (path, d) ∈ caseSeal.files.map (fun x => (x.path, x.sha256)) →
      ∃ l data, underExecutionInput l ∧ w.tree.fileAt l = some data ∧ path = asPosix l ∧
        d = ⟨data⟩ := by
    intro path d hmem
    obtain ⟨x, hx, heq⟩ := List.mem_map.1 hmem
    obtain ⟨rfl, rfl⟩ := Prod.mk.inj heq
    exact CaseWorkspace.of_mem_executionFileSeals hseal hx
  refine ⟨fun path d hget => ?_, fun l data hin hdata => ?_, fun path => rfl⟩
  · obtain ⟨l, data, hin, hdata, rfl, rfl⟩ := hitem path d (Dict.mem_of_get_ofItems hget)
    rw [locate_asPosix_of_named hnamed hin hdata]
    exact ⟨rfl, hin, data, hdata, rfl⟩
  · have hl := locate_asPosix_of_named hnamed hin hdata
    obtain ⟨x, hx, hpath, hsha⟩ := CaseWorkspace.exists_mem_executionFileSeals hseal hin hdata
    refine ⟨hl, Dict.get_ofItems (List.mem_map.2 ⟨x, hx, by rw [hpath, hsha]⟩) fun d hd => ?_⟩
    obtain ⟨l', data', hin', hdata', heq, rfl⟩ := hitem _ d hd
    have hl' := locate_asPosix_of_named hnamed hin' hdata'
    rw [← heq, hl] at hl'
    rw [← hl', hdata] at hdata'
    rw [Option.some.inj hdata']

/-- The approved files that `check_repair_delta` may authorize a change of. -/
def Repairable (approval : ExecutionApproval) (path : Text) : Prop :=
  (runtimeRepairPathKind path).isSome ∧ (approval.approvedFiles.get path).isSome

/-- What a run of attempts keeps, from the approval `approval` of the case `w` on. -/
structure Session (approval : ExecutionApproval) (w : CaseWorkspace) (s : RepairState) : Prop where
  frozen : SameFrozen approval s.approval
  limit : s.workspace.maxFileBytes = w.maxFileBytes
  sound : ∀ path, Sound approval (w.maxFileBytes + 1) path (s.approval.authority path)
  untouched : ∀ l, (∀ path, Repairable approval path → l ≠ locate path) →
    s.workspace.tree.fileAt l = w.tree.fileAt l
  placed : ∀ path, Repairable approval path →
    s.workspace.tree.fileAt (locate path) = w.tree.fileAt (locate path) ∨
    ∃ kind baseline text, runtimeRepairPathKind path = some kind ∧
      ApprovedText approval (w.maxFileBytes + 1) path baseline ∧
      s.workspace.tree.fileAt (locate path) = some (encode text) ∧
      Chain approval kind path baseline text

theorem ExecutionApproval.Authorized.of_sameFrozen {approval approval' : ExecutionApproval}
    {w : CaseWorkspace} {a : PathAuthority} {path proposed current : Text} {kind : RepairKind}
    (hf : SameFrozen approval approval')
    (h : approval'.Authorized w a path proposed kind current) :
    approval.Authorized w a path proposed kind current := by
  rw [hf] at h
  exact ⟨h.kind_eq, h.read, h.known, h.notFrozen, h.change⟩

theorem ExecutionApproval.Authorized.to_sameFrozen {approval approval' : ExecutionApproval}
    {w : CaseWorkspace} {a : PathAuthority} {path proposed current : Text} {kind : RepairKind}
    (hf : SameFrozen approval approval')
    (h : approval.Authorized w a path proposed kind current) :
    approval'.Authorized w a path proposed kind current := by
  rw [hf]
  exact ⟨h.kind_eq, h.read, h.known, h.notFrozen, h.change⟩

namespace Session

variable {approval : ExecutionApproval} {w : CaseWorkspace} {s : RepairState}

theorem start (hi : Issued approval w) : Session approval w ⟨approval, w⟩ :=
  ⟨.refl approval, rfl, fun path => by rw [hi.fresh path]; exact .fresh _ _ _, fun _ _ => rfl,
    fun _ _ => .inl rfl⟩

/-- An accepted candidate, path by path, in terms of the approval as it was issued. -/
theorem authorized (h : Session approval w s) {approval' : ExecutionApproval}
    {changed : Dict Text Text} (hcheck : s.approval.checkRepairDelta s.workspace changed = .ok approval')
    {path proposed : Text} (hget : changed.get path = some proposed) :
    ∃ kind current,
      approval.Authorized s.workspace (s.approval.authority path) path proposed kind current ∧
      approval'.authority path = (s.approval.authority path).after kind current proposed := by
  obtain ⟨-, -, hall⟩ := checkRepairDelta_eq_ok hcheck
  obtain ⟨kind, current, hauth, hafter⟩ := hall path proposed hget
  exact ⟨kind, current, hauth.of_sameFrozen h.frozen, hafter⟩

/-- The maps at a path are sound, for the file limit of the current case. -/
theorem sound_here (h : Session approval w s) (path : Text) :
    Sound approval (s.workspace.maxFileBytes + 1) path (s.approval.authority path) := by
  rw [h.limit]
  exact h.sound path

theorem repairable (h : Session approval w s) {path proposed current : Text} {kind : RepairKind}
    (hauth : approval.Authorized s.workspace (s.approval.authority path) path proposed kind current) :
    Repairable approval path := by
  obtain ⟨baseline, happ, -⟩ := hauth.chain_proposed (h.sound_here path)
  exact ⟨by rw [hauth.kind_eq]; rfl, by rw [happ.approved]; rfl⟩

theorem repairable_of_accepts (h : Session approval w s) {changed : Dict Text Text}
    (hacc : s.Accepts changed) {path proposed : Text} (hget : changed.get path = some proposed) :
    Repairable approval path := by
  obtain ⟨approval', hcheck⟩ := RepairState.accepts_iff.1 hacc
  obtain ⟨kind, current, hauth, -⟩ := h.authorized hcheck hget
  exact h.repairable hauth

/-- Two approved paths of one place are the same text. -/
theorem eq_of_locate (hi : Issued approval w) {p q : Text}
    (hp : (approval.approvedFiles.get p).isSome) (hq : (approval.approvedFiles.get q).isSome)
    (h : locate p = locate q) : p = q := by
  obtain ⟨d, hd⟩ := Option.isSome_iff_exists.1 hp
  obtain ⟨d', hd'⟩ := Option.isSome_iff_exists.1 hq
  rw [← (hi.approved p d hd).1, ← (hi.approved q d' hd').1, h]

/-- A committed candidate: its files hold its texts, and no other file changed. -/
theorem commit_files (hi : Issued approval w) (h : Session approval w s) {a : RepairAttempt}
    (hacc : s.Accepts a.changed) (hcommit : s.Commits a) :
    (∀ path proposed, a.changed.get path = some proposed →
      (s.attempt a).workspace.tree.fileAt (locate path) = some (encode proposed)) ∧
    ∀ l, (∀ path proposed, a.changed.get path = some proposed → l ≠ locate path) →
      (s.attempt a).workspace.tree.fileAt l = s.workspace.tree.fileAt l := by
  have hrep : ∀ path ∈ a.changed.items.map Prod.fst, Repairable approval path := by
    intro path hmem
    obtain ⟨⟨p, proposed⟩, hitem, rfl⟩ := List.mem_map.1 hmem
    exact h.repairable_of_accepts hacc (Dict.mem_items.1 hitem)
  have hplaces : (CaseWorkspace.places a.changed.items).Nodup := by
    have hmap : CaseWorkspace.places a.changed.items =
        (a.changed.items.map Prod.fst).map locate := by
      rw [List.map_map]; rfl
    rw [hmap]
    exact List.Nodup.map_on
      (fun p hp q hq heq => eq_of_locate hi (hrep p hp).2 (hrep q hq).2 heq) a.changed.nodup_items
  obtain ⟨approval', hcheck⟩ := RepairState.accepts_iff.1 hacc
  obtain ⟨digests, hok⟩ := hcommit.ok
  have hworkspace : (s.attempt a).workspace = (s.commit a).1 := by
    simp [RepairState.attempt, hcheck, hcommit.1]
  obtain ⟨-, hfiles, hwithin⟩ :=
    CaseWorkspace.commitTextTransaction_ok hplaces (Prod.ext rfl hok : s.commit a = (_, .ok digests))
  rw [hworkspace]
  refine ⟨fun path proposed hget => hfiles (path, proposed) (Dict.mem_items.2 hget), ?_⟩
  intro l hl
  refine hwithin.tree.files l ?_
  intro hmem
  obtain ⟨c, hc, rfl⟩ := List.mem_map.1 hmem
  exact hl c.1 c.2 (Dict.mem_items.1 hc) rfl

/-- The step lemma: an attempt keeps the session, whether its candidate is committed, is
abandoned or is rolled back. -/
theorem attempt (hi : Issued approval w) (h : Session approval w s) {a : RepairAttempt}
    (hsettled : s.Accepts a.changed → s.Commits a ∨ s.Abandons a) :
    Session approval w (s.attempt a) := by
  by_cases hacc : s.Accepts a.changed
  swap
  · rwa [s.attempt_of_not_accepts hacc]
  obtain ⟨approval', hcheck⟩ := RepairState.accepts_iff.1 hacc
  have happroval := s.approval_attempt hcheck
  have hlimit : (s.attempt a).workspace.maxFileBytes = s.workspace.maxFileBytes := by
    unfold RepairState.attempt
    rw [hcheck]
    dsimp only
    split_ifs
    · rfl
    · exact CaseWorkspace.commitTextTransaction_limit _ _ _ _
  obtain ⟨hfrozen, hother, -⟩ := checkRepairDelta_eq_ok hcheck
  refine ⟨?_, hlimit.trans h.limit, fun path => ?_, fun l hl => ?_, fun path hpath => ?_⟩
  · rw [happroval]
    exact h.frozen.trans hfrozen
  · rw [happroval]
    cases hget : a.changed.get path with
    | none =>
      rw [hother path hget]
      exact h.sound path
    | some proposed =>
      obtain ⟨kind, current, hauth, hafter⟩ := h.authorized hcheck hget
      rw [hafter, ← h.limit]
      exact hauth.sound_after (h.sound_here path)
  · rcases hsettled hacc with hcommit | habandon
    · rw [(h.commit_files hi hacc hcommit).2 l fun path proposed hget =>
        hl path (h.repairable_of_accepts hacc hget)]
      exact h.untouched l hl
    · rw [habandon l]
      exact h.untouched l hl
  · rcases hsettled hacc with hcommit | habandon
    · obtain ⟨hfiles, hothers⟩ := h.commit_files hi hacc hcommit
      cases hget : a.changed.get path with
      | none =>
        have hsame := hothers (locate path) fun q proposed hq heq => by
          obtain rfl := eq_of_locate hi hpath.2 (h.repairable_of_accepts hacc hq).2 heq
          rw [hget] at hq
          cases hq
        rw [hsame]
        exact h.placed path hpath
      | some proposed =>
        obtain ⟨kind, current, hauth, -⟩ := h.authorized hcheck hget
        obtain ⟨baseline, happ, hchain⟩ := hauth.chain_proposed (h.sound_here path)
        rw [h.limit] at happ
        exact .inr ⟨kind, baseline, proposed, hauth.kind_eq, happ, hfiles path proposed hget, hchain⟩
    · rw [habandon (locate path)]
      exact h.placed path hpath

/-- The file at a place, in terms of the path text a seal gives it: the file of the approved
case, or a text that accepted changes lead to from it. -/
theorem file (hi : Issued approval w) (h : Session approval w s) {path : Text}
    (hpath : asPosix (locate path) = path) :
    s.workspace.tree.fileAt (locate path) = w.tree.fileAt (locate path) ∨
    ∃ kind baseline text, runtimeRepairPathKind path = some kind ∧
      w.tree.fileAt (locate path) = some (encode baseline) ∧
      s.workspace.tree.fileAt (locate path) = some (encode text) ∧
      Chain approval kind path baseline text := by
  by_cases hrep : Repairable approval path
  · rcases h.placed path hrep with hsame | ⟨kind, baseline, text, hkind, happ, htext, hchain⟩
    · exact .inl hsame
    · obtain ⟨-, -, data, hdata, hd⟩ := hi.approved path _ happ.approved
      obtain rfl : encode baseline = data := congrArg Sha256.preimage hd
      exact .inr ⟨kind, baseline, text, hkind, hdata, htext, hchain⟩
  · refine .inl (h.untouched _ fun q hq heq => hrep ?_)
    obtain ⟨d, hd⟩ := Option.isSome_iff_exists.1 hq.2
    rw [← hpath, heq, (hi.approved q d hd).1]
    exact hq

end Session

/-! ### An approved case -/

/-- A plan whose evidence is the given entries of `system/controlDict` and other files. -/
def planWith (assertions : List CaseContentAssertion) : EngineeringPlan where
  caseName := "pipe".toList
  solver := "incompressibleFluid".toList
  solverProviderId := "p".toList
  openfoamVersion := "13".toList
  problemInterpretation := "laminar".toList
  temporalBehavior := .transient
  motionKind := .static
  meshMotionRequirement := .static
  meshStrategy := "blockMesh".toList
  confirmedFactBindings := [{ factId := "f".toList, caseAssertions := assertions }]
  confirmedIntakeSha256 := "0".toList

/-- A case with the given `controlDict`, and a numerical dictionary. -/
def caseWith (controlDict : String) : CaseWorkspace where
  tree := (∅ : FileTree Text Bytes)
    |>.insert ["system".toList] .directory
    |>.insert ["system".toList, "controlDict".toList] (.file (encode controlDict.toList))
    |>.insert ["system".toList, "fvSchemes".toList] (.file (encode "ddt Euler;\n".toList))
  authoredPaths := .ofList ["system/controlDict".toList, "system/fvSchemes".toList]
  assetPaths := .ofList []

/-- The seal of a case and a plan, empty when the case cannot be sealed. -/
def sealOf (w : CaseWorkspace) (plan : EngineeringPlan) : CaseSeal :=
  match w.sealCase .reliable plan with
  | .ok caseSeal => caseSeal
  | .error _ => ⟨plan.digest, ⟨[]⟩, []⟩

/-- An attempt that commits. -/
def repairOf (changed : List (String × String)) : RepairAttempt where
  host := .reliable
  changed := .ofItems (changed.map fun c => (c.1.toList, c.2.toList))
  abandoned := false

end Contracts
end OpenFoamAgent
