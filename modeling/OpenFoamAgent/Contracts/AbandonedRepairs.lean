/-
# Abandoned repairs and the authority of committed content

`check_repair_delta` records the digest of a candidate before the controller
decides whether to commit it. The record of a path holds one digest, so the
check of a candidate that is then abandoned replaces the digest of the content
that was committed before: the file is then neither approved nor authorized.
Only where the file still has its approved content nothing is lost.

A run goes on together with the approval it would have without the checks of
some of its abandoned candidates. `run_keepsAuthority`: as long as an abandoned
candidate changes only files that have their approved content, the seal check
accepts the current files, and every candidate the other approval accepts.
-/
import OpenFoamAgent.Contracts.RepairRuns

namespace OpenFoamAgent
namespace Contracts

open Python Schemas Workspace ExecutionApproval

/-! ### Runs with a forgetful approval -/

/-- A repair session, and the approval without the checks that are to be forgotten. -/
abbrev ShadowedState := RepairState × ExecutionApproval

/-- An attempt, and whether the second approval is not asked. -/
abbrev ShadowedAttempt := RepairAttempt × Bool

/-- The second approval checks what the first one checks, except the forgotten candidates. -/
def shadowAttempt (s : ShadowedState) (a : ShadowedAttempt) : ShadowedState :=
  (s.1.attempt a.1,
    if a.2 then s.2
    else
      match s.2.checkRepairDelta s.1.workspace a.1.changed with
      | .ok approval => approval
      | .error _ => s.2)

/-- An accepted candidate is committed, or changes no file and may be forgotten. -/
def Settles (s : ShadowedState) (a : ShadowedAttempt) : Prop :=
  s.1.Accepts a.1.changed → (s.1.Commits a.1 ∧ a.2 = false) ∨ s.1.Abandons a.1

/-- The candidate does not change the file, or the file has its approved content. -/
def SparesAuthority (s : RepairState) (path proposed : Text) : Prop :=
  (s.workspace.tree.fileAt (locate path)).map Sha256.mk = s.approval.approvedFiles.get path ∨
    s.workspace.tree.fileAt (locate path) = some (encode proposed) ∨
    readBack (s.workspace.maxFileBytes + 1) ((s.workspace.tree.fileAt (locate path)).getD []) = proposed

/-- An accepted candidate is committed, or spares the authority of every path it names. -/
def AbandonsApproved (s : ShadowedState) (a : ShadowedAttempt) : Prop :=
  s.1.Accepts a.1.changed → s.1.Commits a.1 ∨
    ∀ c ∈ a.1.changed.items, SparesAuthority s.1 c.1 c.2

instance (s : RepairState) (path proposed : Text) : Decidable (SparesAuthority s path proposed) :=
  inferInstanceAs (Decidable (_ ∨ _ ∨ _))

instance (s : ShadowedState) (a : ShadowedAttempt) : Decidable (AbandonsApproved s a) :=
  inferInstanceAs (Decidable (_ → _ ∨ ∀ c ∈ a.1.changed.items, SparesAuthority s.1 c.1 c.2))

theorem RepairState.abandons_of_abandoned {s : RepairState} {a : RepairAttempt}
    (h : a.abandoned = true) : s.Abandons a := by
  intro l
  unfold RepairState.attempt
  split
  · rfl
  · rw [if_pos h]

/-! ### Authorities that accept the same -/

/-- The text a path is read as is the approved one. -/
def ReadsApproved (approval : ExecutionApproval) (w : CaseWorkspace) (path : Text) : Prop :=
  approval.approvedFiles.get path =
    some ⟨encode (readBack (w.maxFileBytes + 1) ((w.tree.fileAt (locate path)).getD []))⟩

/-- Two authorities are the same, or the path is read as its approved text. -/
def Agree (approval : ExecutionApproval) (w : CaseWorkspace) (path : Text) (a b : PathAuthority) :
    Prop :=
  a = b ∨ ReadsApproved approval w path

theorem ReadsApproved.of_fileAt {approval : ExecutionApproval} {w w' : CaseWorkspace} {path : Text}
    (h : ReadsApproved approval w path) (hlimit : w'.maxFileBytes = w.maxFileBytes)
    (hfile : w'.tree.fileAt (locate path) = w.tree.fileAt (locate path)) :
    ReadsApproved approval w' path := by
  rw [ReadsApproved, hlimit, hfile]
  exact h

namespace ExecutionApproval.Authorized

variable {approval : ExecutionApproval} {w : CaseWorkspace} {a b : PathAuthority}
  {path proposed current : Text} {kind : RepairKind}

/-- Where the file has its approved content, an accepted candidate found the approved text. -/
theorem readsApproved (h : approval.Authorized w a path proposed kind current)
    (hs : Sound approval (w.maxFileBytes + 1) path a)
    (hfile : (w.tree.fileAt (locate path)).map Sha256.mk = approval.approvedFiles.get path) :
    ReadsApproved approval w path := by
  obtain ⟨baseline, happ, -⟩ := h.chain_proposed hs
  obtain ⟨data, hdata, hd⟩ := Option.map_eq_some_iff.1 (hfile.trans happ.approved)
  obtain rfl : data = encode baseline := congrArg Sha256.preimage hd
  rw [ReadsApproved, hdata, Option.getD_some, happ.read, happ.approved]

/-- Where the approved text is read, a sound authority has no other baseline. -/
theorem baseline_eq (h : approval.Authorized w a path proposed kind current)
    (hb : Sound approval (w.maxFileBytes + 1) path b) (hreads : ReadsApproved approval w path) :
    b.baseline.getD current = current := by
  have hcurrent := (repairText_eq_ok h.read).2
  cases hbase : b.baseline with
  | none => rfl
  | some text =>
    refine (hb.baseline text hbase).unique ⟨?_, by rw [hcurrent, readBack_encode_readBack]⟩
    rw [hcurrent]
    exact hreads

/-- Agreeing authorities authorize the same. -/
theorem of_agree (h : approval.Authorized w a path proposed kind current)
    (ha : Sound approval (w.maxFileBytes + 1) path a)
    (hb : Sound approval (w.maxFileBytes + 1) path b) (hagree : Agree approval w path a b) :
    approval.Authorized w b path proposed kind current := by
  rcases hagree with rfl | hreads
  · exact h
  · refine ⟨h.kind_eq, h.read, .inl ?_, h.notFrozen, fun hne => ?_⟩
    · rw [(repairText_eq_ok h.read).2]
      exact hreads.symm
    · have hchange := h.change hne
      rw [h.baseline_eq ha hreads] at hchange
      rwa [h.baseline_eq hb hreads]

/-- They still agree when both have recorded the candidate, whatever the file then holds, as
long as it is the candidate or what it was. -/
theorem agree_after {w' : CaseWorkspace} (h : approval.Authorized w a path proposed kind current)
    (ha : Sound approval (w.maxFileBytes + 1) path a)
    (hb : Sound approval (w.maxFileBytes + 1) path b) (hagree : Agree approval w path a b)
    (hlimit : w'.maxFileBytes = w.maxFileBytes)
    (hfile : w'.tree.fileAt (locate path) = some (encode proposed) ∨
      w'.tree.fileAt (locate path) = w.tree.fileAt (locate path)) :
    Agree approval w' path (a.after kind current proposed) (b.after kind current proposed) := by
  rcases hagree with rfl | hreads
  · exact .inl rfl
  · unfold PathAuthority.after
    split_ifs with heq
    · refine .inr ?_
      rcases hfile with hfile | hfile
      · subst heq
        rw [ReadsApproved, hfile, Option.getD_some, hlimit, (repairText_eq_ok h.read).2,
          readBack_encode_readBack]
        exact hreads
      · exact hreads.of_fileAt hlimit hfile
    · refine .inl ?_
      cases kind with
      | numericalDictionary => simp [ha.numerical h.kind_eq, hb.numerical h.kind_eq]
      | controlDict => simp [h.baseline_eq ha hreads, h.baseline_eq hb hreads]

end ExecutionApproval.Authorized

/-! ### The invariant -/

/-- Every repairable file has its approved content, or the one that is authorized. -/
def Backed (approval : ExecutionApproval) (w : CaseWorkspace) (s : RepairState) : Prop :=
  ∀ path, Repairable approval path →
    s.workspace.tree.fileAt (locate path) = w.tree.fileAt (locate path) ∨
    ∃ data, s.workspace.tree.fileAt (locate path) = some data ∧
      (s.approval.authority path).hash = some ⟨data⟩

/-- What a run with a forgetful approval keeps. -/
structure Shadowed (approval : ExecutionApproval) (w : CaseWorkspace) (s : ShadowedState) : Prop where
  session : Session approval w s.1
  backed : Backed approval w s.1
  frozen : SameFrozen approval s.2
  sound : ∀ path, Sound approval (w.maxFileBytes + 1) path (s.2.authority path)
  agree : ∀ path, Agree approval s.1.workspace path (s.1.approval.authority path) (s.2.authority path)

namespace Session

variable {approval : ExecutionApproval} {w : CaseWorkspace} {s : RepairState}

/-- Every attempt leaves the file of a path alone or puts the candidate there. -/
theorem fileAt_attempt (hi : Issued approval w) (h : Session approval w s) {a : RepairAttempt}
    (hsettled : s.Accepts a.changed → s.Commits a ∨ s.Abandons a) {path : Text}
    (hpath : (approval.approvedFiles.get path).isSome) :
    (∃ proposed, a.changed.get path = some proposed ∧ s.Accepts a.changed ∧ s.Commits a ∧
      (s.attempt a).workspace.tree.fileAt (locate path) = some (encode proposed)) ∨
    (s.attempt a).workspace.tree.fileAt (locate path) = s.workspace.tree.fileAt (locate path) := by
  by_cases hacc : s.Accepts a.changed
  swap
  · exact .inr (by rw [s.attempt_of_not_accepts hacc])
  rcases hsettled hacc with hcommit | habandon
  · obtain ⟨hfiles, hothers⟩ := h.commit_files hi hacc hcommit
    cases hget : a.changed.get path with
    | some proposed => exact .inl ⟨proposed, rfl, hacc, hcommit, hfiles path proposed hget⟩
    | none =>
      refine .inr (hothers _ fun q proposed hq heq => ?_)
      obtain rfl := eq_of_locate hi hpath (h.repairable_of_accepts hacc hq).2 heq
      rw [hget] at hq
      cases hq
  · exact .inr (habandon _)

theorem limit_attempt (h : Session approval w s) {a : RepairAttempt}
    (hnext : Session approval w (s.attempt a)) :
    (s.attempt a).workspace.maxFileBytes = s.workspace.maxFileBytes :=
  hnext.limit.trans h.limit.symm

/-- The approved content of a repairable path. -/
theorem fileAt_of_approved (hi : Issued approval w) {path : Text} {data : Bytes}
    (h : approval.approvedFiles.get path = some ⟨data⟩) : w.tree.fileAt (locate path) = some data := by
  obtain ⟨-, -, data', hdata, heq⟩ := hi.approved path _ h
  obtain rfl : data = data' := congrArg Sha256.preimage heq
  exact hdata

/-- The authority of committed content survives one attempt. -/
theorem backed_attempt (hi : Issued approval w) (h : Session approval w s) (hb : Backed approval w s)
    {a : RepairAttempt} (hsettled : s.Accepts a.changed → s.Commits a ∨ s.Abandons a)
    (hspares : s.Accepts a.changed → s.Commits a ∨
      ∀ c ∈ a.changed.items, SparesAuthority s c.1 c.2) :
    Backed approval w (s.attempt a) := by
  intro path hpath
  by_cases hacc : s.Accepts a.changed
  swap
  · rw [s.attempt_of_not_accepts hacc]
    exact hb path hpath
  obtain ⟨approval', hcheck⟩ := RepairState.accepts_iff.1 hacc
  obtain ⟨-, hother, -⟩ := checkRepairDelta_eq_ok hcheck
  rw [s.approval_attempt hcheck]
  cases hget : a.changed.get path with
  | none =>
    rw [hother path hget]
    rcases h.fileAt_attempt hi hsettled hpath.2 with ⟨proposed, hp, -⟩ | hfile
    · rw [hget] at hp; cases hp
    · rw [hfile]
      exact hb path hpath
  | some proposed =>
    obtain ⟨kind, current, hauth, hafter⟩ := h.authorized hcheck hget
    have hcurrent := (repairText_eq_ok hauth.read).2
    rw [hafter]
    rcases h.fileAt_attempt hi hsettled hpath.2 with ⟨proposed', hp, -, -, hfile⟩ | hfile
    · -- committed: the file holds the candidate, whose digest is recorded or was known
      obtain rfl : proposed = proposed' := Option.some.inj (hget.symm.trans hp)
      rw [hfile]
      unfold PathAuthority.after
      split_ifs with heq
      · subst heq
        rcases hauth.known with hk | hk | ⟨hk, -⟩
        · exact .inl (fileAt_of_approved hi hk.symm).symm
        · exact .inr ⟨_, rfl, hk.symm⟩
        · exact .inr ⟨_, rfl, hk.symm⟩
      · exact .inr ⟨_, rfl, rfl⟩
    · rw [hfile]
      unfold PathAuthority.after
      split_ifs with heq
      · exact hb path hpath
      · rcases hspares hacc with hcommit | hspares
        · -- a commit that leaves the file alone found the candidate there
          rw [← hfile, (h.commit_files hi hacc hcommit).1 path proposed hget]
          exact .inr ⟨_, rfl, rfl⟩
        · rcases hspares (path, proposed) (Dict.mem_items.2 hget) with happ | hsame | hread
          · obtain ⟨d, hd⟩ := Option.isSome_iff_exists.1 hpath.2
            rw [h.frozen] at happ
            obtain ⟨data, hdata, hdata'⟩ := Option.map_eq_some_iff.1 (happ.trans hd)
            rw [← hdata'] at hd
            exact .inl (hdata.trans (fileAt_of_approved hi hd).symm)
          · exact .inr ⟨_, hsame, rfl⟩
          · exact absurd (hread.symm.trans hcurrent.symm) heq

end Session

/-- Approvals that agree accept the same candidates. -/
theorem accepts_of_agree {approval a b : ExecutionApproval} {w : CaseWorkspace}
    (hfa : SameFrozen approval a) (hfb : SameFrozen approval b)
    (hsa : ∀ path, Sound approval (w.maxFileBytes + 1) path (a.authority path))
    (hsb : ∀ path, Sound approval (w.maxFileBytes + 1) path (b.authority path))
    (hagree : ∀ path, Agree approval w path (a.authority path) (b.authority path))
    {changed : Dict Text Text} (h : ∃ a', a.checkRepairDelta w changed = .ok a') :
    ∃ b', b.checkRepairDelta w changed = .ok b' := by
  obtain ⟨a', ha'⟩ := h
  refine exists_checkRepairDelta fun path proposed hget => ?_
  obtain ⟨kind, current, hauth, -⟩ := (checkRepairDelta_eq_ok ha').2.2 path proposed hget
  exact ⟨kind, current, ((hauth.of_sameFrozen hfa).of_agree (hsa path) (hsb path)
    (hagree path)).to_sameFrozen hfb⟩

theorem Agree.symm {approval : ExecutionApproval} {w : CaseWorkspace} {path : Text}
    {a b : PathAuthority} (h : Agree approval w path a b) : Agree approval w path b a :=
  h.imp_left Eq.symm

namespace Shadowed

variable {approval : ExecutionApproval} {w : CaseWorkspace} {s : ShadowedState}

theorem sound_here (h : Shadowed approval w s) (path : Text) :
    Sound approval (s.1.workspace.maxFileBytes + 1) path (s.2.authority path) := by
  rw [h.session.limit]
  exact h.sound path

theorem accepts_iff (h : Shadowed approval w s) (changed : Dict Text Text) :
    s.1.Accepts changed ↔ RepairState.Accepts ⟨s.2, s.1.workspace⟩ changed := by
  rw [RepairState.accepts_iff, RepairState.accepts_iff]
  exact ⟨accepts_of_agree h.session.frozen h.frozen h.session.sound_here h.sound_here h.agree,
    accepts_of_agree h.frozen h.session.frozen h.sound_here h.session.sound_here
      fun path => (h.agree path).symm⟩

/-- A path the candidate does not name: neither authority changes, nor the file. -/
theorem agree_of_get_eq_none (hi : Issued approval w) (h : Shadowed approval w s)
    {a : RepairAttempt} (hsettled : s.1.Accepts a.changed → s.1.Commits a ∨ s.1.Abandons a)
    {path : Text} (hget : a.changed.get path = none) {x y : PathAuthority}
    (hagree : Agree approval s.1.workspace path x y) :
    Agree approval (s.1.attempt a).workspace path x y := by
  rcases hagree with rfl | hreads
  · exact .inl rfl
  · have happ : (approval.approvedFiles.get path).isSome := by rw [hreads]; rfl
    rcases h.session.fileAt_attempt hi hsettled happ with ⟨proposed, hp, -⟩ | hfile
    · rw [hget] at hp; cases hp
    · exact .inr (hreads.of_fileAt (h.session.limit_attempt (h.session.attempt hi hsettled)) hfile)

/-- A candidate that both approvals record. -/
theorem agree_recorded (hi : Issued approval w) (h : Shadowed approval w s) {a : RepairAttempt}
    (hsettled : s.1.Accepts a.changed → s.1.Commits a ∨ s.1.Abandons a)
    {x y : ExecutionApproval} (hx : s.1.approval.checkRepairDelta s.1.workspace a.changed = .ok x)
    (hy : s.2.checkRepairDelta s.1.workspace a.changed = .ok y) (path : Text) :
    Agree approval (s.1.attempt a).workspace path (x.authority path) (y.authority path) := by
  obtain ⟨-, hxo, -⟩ := checkRepairDelta_eq_ok hx
  obtain ⟨-, hyo, hyall⟩ := checkRepairDelta_eq_ok hy
  cases hget : a.changed.get path with
  | none =>
    rw [hxo path hget, hyo path hget]
    exact h.agree_of_get_eq_none hi hsettled hget (h.agree path)
  | some proposed =>
    obtain ⟨kind, current, hauth, hafter⟩ := h.session.authorized hx hget
    obtain ⟨kind', current', hauth', hafter'⟩ := hyall path proposed hget
    obtain rfl : kind = kind' := Option.some.inj (hauth.kind_eq.symm.trans hauth'.kind_eq)
    obtain rfl : current = current' := Except.ok.inj (hauth.read.symm.trans hauth'.read)
    rw [hafter, hafter']
    refine hauth.agree_after (h.session.sound_here path) (h.sound_here path) (h.agree path)
      (h.session.limit_attempt (h.session.attempt hi hsettled)) ?_
    rcases h.session.fileAt_attempt hi hsettled (h.session.repairable hauth).2 with
      ⟨proposed', hp, -, -, hfile⟩ | hfile
    · obtain rfl : proposed = proposed' := Option.some.inj (hget.symm.trans hp)
      exact .inl hfile
    · exact .inr hfile

/-- A candidate that changes no file and that only the first approval records. -/
theorem agree_forgotten (hi : Issued approval w) (h : Shadowed approval w s) {a : RepairAttempt}
    (habandon : s.1.Abandons a) (hspares : s.1.Accepts a.changed → s.1.Commits a ∨
      ∀ c ∈ a.changed.items, SparesAuthority s.1 c.1 c.2)
    {x : ExecutionApproval} (hx : s.1.approval.checkRepairDelta s.1.workspace a.changed = .ok x)
    (path : Text) :
    Agree approval (s.1.attempt a).workspace path (x.authority path) (s.2.authority path) := by
  have hsettled : s.1.Accepts a.changed → s.1.Commits a ∨ s.1.Abandons a := fun _ => .inr habandon
  obtain ⟨-, hxo, -⟩ := checkRepairDelta_eq_ok hx
  cases hget : a.changed.get path with
  | none =>
    rw [hxo path hget]
    exact h.agree_of_get_eq_none hi hsettled hget (h.agree path)
  | some proposed =>
    obtain ⟨kind, current, hauth, hafter⟩ := h.session.authorized hx hget
    have hlimit := h.session.limit_attempt (h.session.attempt hi hsettled)
    have hstay : ReadsApproved approval s.1.workspace path →
        Agree approval (s.1.attempt a).workspace path (x.authority path) (s.2.authority path) :=
      fun hreads => .inr (hreads.of_fileAt hlimit (habandon _))
    have hreads : (s.1.workspace.tree.fileAt (locate path)).map Sha256.mk =
        approval.approvedFiles.get path → ReadsApproved approval s.1.workspace path :=
      hauth.readsApproved (h.session.sound_here path)
    -- the file holds the candidate, or it is as the candidate spares it
    have hspared : SparesAuthority s.1 path proposed := by
      have hacc := RepairState.accepts_iff.2 ⟨x, hx⟩
      rcases hspares hacc with hcommit | hspares
      · refine .inr (.inl ?_)
        rw [← habandon (locate path)]
        exact (h.session.commit_files hi hacc hcommit).1 path proposed hget
      · exact hspares (path, proposed) (Dict.mem_items.2 hget)
    rcases h.agree path with heq | happ
    swap
    · exact hstay happ
    rw [← heq, hafter]
    by_cases hsame : proposed = current
    · unfold PathAuthority.after
      rw [if_pos hsame]
      exact .inl rfl
    rw [hafter, ← heq] at hstay
    rcases hspared with happ | hholds | hread
    · rw [h.session.frozen] at happ
      exact hstay (hreads happ)
    · rcases hauth.known with hk | hk | ⟨hk, hbase⟩
      · refine hstay ?_
        rw [ReadsApproved, ← (repairText_eq_ok hauth.read).2]
        exact hk.symm
      · rcases h.backed path (h.session.repairable hauth) with hw | ⟨data, hdata, hhash⟩
        · obtain ⟨d, hd⟩ := Option.isSome_iff_exists.1 (h.session.repairable hauth).2
          obtain ⟨-, -, data, hdata, rfl⟩ := hi.approved path d hd
          exact hstay (hreads (by rw [hw, hdata, hd]; rfl))
        · have hdigest : (⟨encode current⟩ : Digest) = ⟨data⟩ := Option.some.inj (hk.trans hhash)
          obtain rfl : data = encode proposed := Option.some.inj (hdata.symm.trans hholds)
          exact absurd (encode_injective (congrArg Sha256.preimage hdigest)).symm hsame
      · -- the candidate was recorded before, for the same text
        refine .inl ?_
        unfold PathAuthority.after
        rw [if_neg hsame, hk, hbase]
        have hs := h.session.sound_here path
        cases kind with
        | numericalDictionary => rfl
        | controlDict =>
          obtain ⟨b, hb⟩ := Option.isSome_iff_exists.1 (hs.control hauth.kind_eq (by rw [← hk]; rfl))
          simp only [hb, Option.getD_some]
          rw [← hb]
    · exact absurd (hread.symm.trans (repairText_eq_ok hauth.read).2.symm) hsame

theorem start (hi : Issued approval w) : Shadowed approval w (⟨approval, w⟩, approval) :=
  ⟨.start hi, fun _ _ => .inl rfl, .refl approval,
    fun path => by rw [hi.fresh path]; exact .fresh _ _ _, fun _ => .inl rfl⟩

/-- The step lemma. -/
theorem attempt (hi : Issued approval w) (h : Shadowed approval w s) {a : ShadowedAttempt}
    (hsettles : Settles s a) (hspares : AbandonsApproved s a) :
    Shadowed approval w (shadowAttempt s a) := by
  have hsettled : s.1.Accepts a.1.changed → s.1.Commits a.1 ∨ s.1.Abandons a.1 :=
    fun hacc => (hsettles hacc).imp_left And.left
  have hsession := h.session.attempt hi hsettled
  have hbacked := h.session.backed_attempt hi h.backed hsettled hspares
  unfold shadowAttempt
  split_ifs with hforget
  · -- the second approval is not asked
    refine ⟨hsession, hbacked, h.frozen, h.sound, fun path => ?_⟩
    by_cases hacc : s.1.Accepts a.1.changed
    · obtain ⟨x, hx⟩ := RepairState.accepts_iff.1 hacc
      have habandon : s.1.Abandons a.1 := (hsettles hacc).resolve_left fun hc => by
        rw [hforget] at hc
        exact Bool.noConfusion hc.2
      rw [s.1.approval_attempt hx]
      exact h.agree_forgotten hi habandon hspares hx path
    · rw [s.1.attempt_of_not_accepts hacc]
      exact h.agree path
  · split
    · rename_i y hy
      obtain ⟨x, hx⟩ := RepairState.accepts_iff.1
        ((h.accepts_iff a.1.changed).2 (RepairState.accepts_iff.2 ⟨y, hy⟩))
      obtain ⟨hfrozen, hother, hall⟩ := checkRepairDelta_eq_ok hy
      refine ⟨hsession, hbacked, h.frozen.trans hfrozen, fun path => ?_, fun path => ?_⟩
      · cases hget : a.1.changed.get path with
        | none =>
          rw [hother path hget]
          exact h.sound path
        | some proposed =>
          obtain ⟨kind, current, hauth, hafter⟩ := hall path proposed hget
          rw [hafter, ← h.session.limit]
          exact (hauth.of_sameFrozen h.frozen).sound_after (h.sound_here path)
      · rw [s.1.approval_attempt hx]
        exact h.agree_recorded hi hsettled hx hy path
    · rename_i e he
      have hnot : ¬ s.1.Accepts a.1.changed := fun hacc => by
        obtain ⟨y, hy⟩ := RepairState.accepts_iff.1 ((h.accepts_iff a.1.changed).1 hacc)
        rw [he] at hy
        cases hy
      refine ⟨hsession, hbacked, h.frozen, h.sound, fun path => ?_⟩
      rw [s.1.attempt_of_not_accepts hnot]
      exact h.agree path

end Shadowed

/-! ### The seal of the current files -/

namespace Session

variable {approval : ExecutionApproval} {w : CaseWorkspace} {s : RepairState}

/-- A session has the files of the approved case. -/
theorem isFile_iff (hi : Issued approval w) (h : Session approval w s) (l : Location) :
    s.workspace.tree.isFile l ↔ w.tree.isFile l := by
  by_cases hl : ∃ path, Repairable approval path ∧ l = locate path
  · obtain ⟨path, hrep, rfl⟩ := hl
    rcases h.placed path hrep with hsame | ⟨kind, b, text, -, -, htext, -⟩
    · rw [FileTree.isFile, FileTree.isFile, hsame]
    · obtain ⟨d, hd⟩ := Option.isSome_iff_exists.1 hrep.2
      obtain ⟨-, -, data, hdata, -⟩ := hi.approved path d hd
      rw [FileTree.isFile, FileTree.isFile, htext, hdata]
      rfl
  · rw [FileTree.isFile, FileTree.isFile, h.untouched l fun path hrep heq => hl ⟨path, hrep, heq⟩]

/-- `check_repair_files` accepts the seal of files that are approved or authorized. -/
theorem checkRepairFiles_eq_ok (hi : Issued approval w) (hnamed : w.Named) (h : Session approval w s)
    (hb : Backed approval w s) {caseSeal : CaseSeal}
    (hseal : s.workspace.executionFileSeals = .ok caseSeal.files) :
    s.approval.checkRepairFiles caseSeal = .ok () := by
  have hnow : Issued (.issue (planWith []) caseSeal none) s.workspace :=
    .issue _ none (fun l hl => hnamed l ((h.isFile_iff hi l).1 hl)) hseal
  have hallowed : ∀ p ∈ s.approval.changedPaths
      (.ofItems (caseSeal.files.map fun x => (x.path, x.sha256))),
      s.approval.AllowedChange (.ofItems (caseSeal.files.map fun x => (x.path, x.sha256))) p := by
    intro p hp
    have hne := of_decide_eq_true (List.mem_filter.1 hp).2
    rw [h.frozen] at hne
    cases hcurrent : Dict.get (.ofItems (caseSeal.files.map fun x => (x.path, x.sha256))) p with
    | none =>
      cases happ : approval.approvedFiles.get p with
      | none => exact absurd (hcurrent.trans happ.symm) hne
      | some d =>
        obtain ⟨hpath, hin, data, hdata, -⟩ := hi.approved p d happ
        obtain ⟨data', hdata'⟩ := Option.isSome_iff_exists.1
          ((h.isFile_iff hi (locate p)).2 (by rw [FileTree.isFile, hdata]; rfl))
        have hrec := (hnow.recorded (locate p) data' hin hdata').2
        rw [hpath] at hrec
        cases hcurrent.symm.trans hrec
    | some d =>
      obtain ⟨hpath, hin, data, hdata, rfl⟩ := hnow.approved p d hcurrent
      have happroved : w.tree.fileAt (locate p) = some data →
          approval.approvedFiles.get p = some ⟨data⟩ := fun hw => by
        have hrec := (hi.recorded (locate p) data hin hw).2
        rwa [hpath] at hrec
      by_cases hrep : Repairable approval p
      · rcases hb p hrep with hsame | ⟨data', hdata', hhash⟩
        · exact absurd (hcurrent.trans (happroved (hsame ▸ hdata)).symm) hne
        · obtain rfl : data = data' := Option.some.inj (hdata.symm.trans hdata')
          exact ⟨hrep.1, by rw [hcurrent]; rfl, by rw [hcurrent]; exact hhash⟩
      · have hsame := h.untouched (locate p) fun q hq heq => hrep (by
          obtain ⟨d, hd⟩ := Option.isSome_iff_exists.1 hq.2
          rw [← hpath, heq, (hi.approved q d hd).1]
          exact hq)
        exact absurd (hcurrent.trans (happroved (hsame ▸ hdata)).symm) hne
  unfold checkRepairFiles
  dsimp only
  rw [if_neg]
  rw [not_not, List.filter_eq_nil_iff]
  intro p hp
  simpa using hallowed p hp

end Session

/-- **Committed content keeps its authority.** In a run of attempts that each commit an
accepted candidate or change no file, where an abandoned candidate changes only files that have
their approved content: `check_repair_files` accepts the seal of the current files, and a
candidate is accepted that would be accepted without the forgotten checks. -/
theorem run_keepsAuthority {w : CaseWorkspace} {caseSeal : CaseSeal} {as : List ShadowedAttempt}
    (plan : EngineeringPlan) (limits : Option ResourceLimits) (hnamed : w.Named)
    (hseal : w.executionFileSeals = .ok caseSeal.files)
    (hrun : Runs.Meets shadowAttempt (fun s a => Settles s a ∧ AbandonsApproved s a)
      (⟨.issue plan caseSeal limits, w⟩, .issue plan caseSeal limits) as) :
    let s := Runs.run shadowAttempt
      (⟨.issue plan caseSeal limits, w⟩, .issue plan caseSeal limits) as
    (∀ current : CaseSeal, s.1.workspace.executionFileSeals = .ok current.files →
      s.1.approval.checkRepairFiles current = .ok ()) ∧
    ∀ changed, RepairState.Accepts ⟨s.2, s.1.workspace⟩ changed → s.1.Accepts changed := by
  have hi := Issued.issue plan limits hnamed hseal
  have hstep : ∀ s a, Shadowed (.issue plan caseSeal limits) w s →
      Settles s a ∧ AbandonsApproved s a →
      Shadowed (.issue plan caseSeal limits) w (shadowAttempt s a) :=
    fun s a h ha => h.attempt hi ha.1 ha.2
  have h := Runs.invariant hstep hrun (.start hi)
  exact ⟨fun current hcurrent => h.session.checkRepairFiles_eq_ok hi hnamed h.backed hcurrent,
    fun changed => (h.accepts_iff changed).2⟩

/-- A repair of the approved file is abandoned, and another one committed. -/
theorem run_keepsAuthority_example :
    let w := caseWith "deltaT 2e-3;\n"
    let approval := ExecutionApproval.issue (planWith []) (sealOf w (planWith [])) none
    let s := Runs.run shadowAttempt (⟨approval, w⟩, approval)
      [({ repairOf [("system/fvSchemes", "ddt steadyState;\n")] with abandoned := true }, true),
        (repairOf [("system/fvSchemes", "ddt backward;\n")], false)]
    (∀ current : CaseSeal, s.1.workspace.executionFileSeals = .ok current.files →
      s.1.approval.checkRepairFiles current = .ok ()) ∧
    ∀ changed, RepairState.Accepts ⟨s.2, s.1.workspace⟩ changed → s.1.Accepts changed :=
  run_keepsAuthority _ none (CaseWorkspace.named_of_keys (by decide +kernel)) (by decide +kernel)
    ⟨⟨fun _ => .inr (RepairState.abandons_of_abandoned rfl), by decide +kernel⟩,
      ⟨fun _ => .inl (by decide +kernel), by decide +kernel⟩, trivial⟩

/-- One repair of a file is committed, the next one is abandoned: the committed content is no
longer authorized, and the candidate that would have been accepted is refused. -/
theorem abandoned_check_revokes :
    let w := caseWith "deltaT 2e-3;\n"
    let approval := ExecutionApproval.issue (planWith []) (sealOf w (planWith [])) none
    let committed := repairOf [("system/fvSchemes", "ddt backward;\n")]
    let abandoned := { repairOf [("system/fvSchemes", "ddt steadyState;\n")] with abandoned := true }
    let later := repairOf [("system/fvSchemes", "ddt CrankNicolson;\n")]
    let s := Runs.run RepairState.attempt ⟨approval, w⟩ [committed]
    let s' := Runs.run RepairState.attempt ⟨approval, w⟩ [committed, abandoned]
    s.Accepts abandoned.changed ∧ s.Accepts later.changed ∧
      s'.workspace.executionFileSeals = .ok (sealOf s'.workspace (planWith [])).files ∧
      s'.approval.checkRepairFiles (sealOf s'.workspace (planWith [])) =
        .error (.filesOutsideAuthorization ["system/fvSchemes".toList]) ∧
      ¬ s'.Accepts later.changed := by
  decide +kernel

end Contracts
end OpenFoamAgent
