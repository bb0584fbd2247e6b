/-
# What `check_repair_delta` accepts

The specification of `ExecutionApproval.check_repair_delta` that the results on
repair runs use. A turn of its loop reads and writes the three maps at its own
path only, so an accepted candidate is, path by path, an `Authorized` one, and
`PathAuthority.after` is what the maps then hold.
-/
import OpenFoamAgent.Contracts.Approval

namespace OpenFoamAgent
namespace Contracts

open Python Schemas Workspace

/-- The maps at a path after a turn of the loop. -/
def PathAuthority.after (a : PathAuthority) (kind : RepairKind) (current proposed : Text) :
    PathAuthority :=
  if proposed = current then a
  else
    { hash := some ⟨encode proposed⟩
      baseline := match kind with
        | .numericalDictionary => a.baseline
        | .controlDict => some (a.baseline.getD current)
      baseHash := some ⟨encode current⟩ }

namespace RepairMaps

theorem authority_authorize_self (maps : RepairMaps) (kind : RepairKind)
    {path current proposed : Text} (h : proposed ≠ current) :
    (maps.authorize kind path current proposed).authority path =
      (maps.authority path).after kind current proposed := by
  cases kind <;>
    simp [authorize, authority, PathAuthority.after, h, Dict.get_setDefault_self]

theorem authority_authorize_of_ne (maps : RepairMaps) (kind : RepairKind)
    {path q current proposed : Text} (h : q ≠ path) :
    (maps.authorize kind path current proposed).authority q = maps.authority q := by
  cases kind <;>
    simp [authorize, authority, Dict.get_insert_of_ne _ _ h, Dict.get_setDefault_of_ne _ _ h]

end RepairMaps

namespace ExecutionApproval

/-- The approval accepts the text `proposed` at `path` in place of `current`. -/
structure Authorized (approval : ExecutionApproval) (w : CaseWorkspace) (a : PathAuthority)
    (path proposed : Text) (kind : RepairKind) (current : Text) : Prop where
  kind_eq : runtimeRepairPathKind path = some kind
  read : repairText w path = .ok current
  known : approval.KnownBaseline a path current proposed
  notFrozen : proposed ≠ current → path ∉ approval.protectedRepairFiles
  change : proposed ≠ current →
    approval.checkChange kind path current proposed (a.baseline.getD current) = .ok ()

variable {approval : ExecutionApproval} {w : CaseWorkspace}

theorem repairPath_eq_ok_iff {maps maps' : RepairMaps} {path proposed : Text} :
    approval.repairPath w maps path proposed = .ok maps' ↔
      ∃ kind current, approval.Authorized w (maps.authority path) path proposed kind current ∧
        maps' = if proposed = current then maps else maps.authorize kind path current proposed := by
  unfold repairPath
  constructor
  · intro h
    split at h
    · cases h
    · rename_i kind hkind
      split at h
      · cases h
      · rename_i current hread
        split_ifs at h with hknown heq hfile
        · cases h
          exact ⟨kind, current, ⟨hkind, hread, hknown, (absurd heq ·), (absurd heq ·)⟩,
            (if_pos heq).symm⟩
        · split at h
          · cases h
          · rename_i hchange
            cases h
            exact ⟨kind, current, ⟨hkind, hread, hknown, fun _ => hfile, fun _ => hchange⟩,
              (if_neg heq).symm⟩
  · rintro ⟨kind, current, ⟨hkind, hread, hknown, hfile, hchange⟩, rfl⟩
    rw [hkind]
    dsimp only
    rw [hread]
    dsimp only
    rw [if_neg (not_not.2 hknown)]
    split_ifs with heq hfrozen
    · rfl
    · exact absurd hfrozen (hfile heq)
    · have hc := hchange heq
      simp only [RepairMaps.authority] at hc
      rw [hc]

/-- A turn of the loop leaves the maps at the other paths alone. -/
theorem authority_repairPath_of_ne {maps maps' : RepairMaps} {path proposed q : Text}
    (h : approval.repairPath w maps path proposed = .ok maps') (hq : q ≠ path) :
    maps'.authority q = maps.authority q := by
  obtain ⟨kind, current, -, rfl⟩ := repairPath_eq_ok_iff.1 h
  split_ifs
  · rfl
  · exact maps.authority_authorize_of_ne kind hq

/-- The loop over a candidate with distinct paths: each path is authorized on the maps as
they were before the loop. -/
theorem repairPaths_eq_ok {maps maps' : RepairMaps} {changed : List (Text × Text)}
    (hnd : (changed.map Prod.fst).Nodup) (h : approval.repairPaths w maps changed = .ok maps') :
    (∀ q ∉ changed.map Prod.fst, maps'.authority q = maps.authority q) ∧
      ∀ c ∈ changed, ∃ kind current,
        approval.Authorized w (maps.authority c.1) c.1 c.2 kind current ∧
          maps'.authority c.1 = (maps.authority c.1).after kind current c.2 := by
  induction changed generalizing maps with
  | nil =>
    cases h
    exact ⟨fun _ _ => rfl, fun _ hc => absurd hc List.not_mem_nil⟩
  | cons c changed ih =>
    obtain ⟨path, proposed⟩ := c
    obtain ⟨hhead, htail⟩ := List.nodup_cons.1 hnd
    unfold repairPaths at h
    split at h
    · cases h
    · rename_i maps₁ hstep
      obtain ⟨hother, hall⟩ := ih htail h
      refine ⟨fun q hq => ?_, fun c hc => ?_⟩
      · obtain ⟨hne, hq'⟩ : q ≠ path ∧ q ∉ changed.map Prod.fst := by simpa [not_or] using hq
        rw [hother q hq', authority_repairPath_of_ne hstep hne]
      · rcases List.mem_cons.1 hc with rfl | hmem
        · obtain ⟨kind, current, hauth, rfl⟩ := repairPath_eq_ok_iff.1 hstep
          refine ⟨kind, current, hauth, ?_⟩
          rw [hother path hhead]
          split_ifs with heq
          · simp [PathAuthority.after, heq]
          · exact maps.authority_authorize_self kind heq
        · have hne : c.1 ≠ path := by
            rintro rfl
            exact hhead (List.mem_map.2 ⟨c, hmem, rfl⟩)
          rw [← authority_repairPath_of_ne hstep hne]
          exact hall c hmem

/-- The loop accepts a candidate with distinct paths that is authorized path by path. -/
theorem exists_repairPaths {maps : RepairMaps} {changed : List (Text × Text)}
    (hnd : (changed.map Prod.fst).Nodup)
    (h : ∀ c ∈ changed, ∃ kind current,
      approval.Authorized w (maps.authority c.1) c.1 c.2 kind current) :
    ∃ maps', approval.repairPaths w maps changed = .ok maps' := by
  induction changed generalizing maps with
  | nil => exact ⟨maps, rfl⟩
  | cons c changed ih =>
    obtain ⟨path, proposed⟩ := c
    obtain ⟨hhead, htail⟩ := List.nodup_cons.1 hnd
    obtain ⟨kind, current, hauth⟩ := h _ List.mem_cons_self
    have hstep := repairPath_eq_ok_iff.2 ⟨kind, current, hauth, rfl⟩
    unfold repairPaths
    rw [hstep]
    refine ih htail fun c hc => ?_
    have hne : c.1 ≠ path := by
      rintro rfl
      exact hhead (List.mem_map.2 ⟨c, hc, rfl⟩)
    rw [authority_repairPath_of_ne hstep hne]
    exact h c (List.mem_cons_of_mem _ hc)

/-- The maps of an approval at one path. -/
def authority (approval : ExecutionApproval) (path : Text) : PathAuthority :=
  approval.repairMaps.authority path

/-- `approval'` freezes what `approval` freezes: only the three maps may differ. -/
def SameFrozen (approval approval' : ExecutionApproval) : Prop :=
  approval' = approval.withRepairMaps approval'.repairMaps

theorem SameFrozen.refl (approval : ExecutionApproval) : SameFrozen approval approval := rfl

theorem SameFrozen.trans {a b c : ExecutionApproval} (h : SameFrozen a b) (h' : SameFrozen b c) :
    SameFrozen a c := by
  rw [SameFrozen, h', h]
  rfl

/-- What an accepted candidate is, and what the approval is afterwards. -/
theorem checkRepairDelta_eq_ok {approval' : ExecutionApproval} {changed : Dict Text Text}
    (h : approval.checkRepairDelta w changed = .ok approval') :
    SameFrozen approval approval' ∧
      (∀ q, changed.get q = none → approval'.authority q = approval.authority q) ∧
      ∀ path proposed, changed.get path = some proposed → ∃ kind current,
        approval.Authorized w (approval.authority path) path proposed kind current ∧
          approval'.authority path = (approval.authority path).after kind current proposed := by
  unfold checkRepairDelta at h
  cases hloop : approval.repairPaths w approval.repairMaps changed.items with
  | error e => rw [hloop] at h; cases h
  | ok maps =>
    rw [hloop] at h
    cases h
    obtain ⟨hother, hall⟩ := repairPaths_eq_ok changed.nodup_items hloop
    exact ⟨rfl, fun q hq => hother q (Dict.get_eq_none_iff.1 hq), fun path proposed hget =>
      hall (path, proposed) (Dict.mem_items.2 hget)⟩

/-- A candidate that is authorized path by path is accepted. -/
theorem exists_checkRepairDelta {changed : Dict Text Text}
    (h : ∀ path proposed, changed.get path = some proposed → ∃ kind current,
      approval.Authorized w (approval.authority path) path proposed kind current) :
    ∃ approval', approval.checkRepairDelta w changed = .ok approval' := by
  have hall : ∀ c ∈ changed.items, ∃ kind current,
      approval.Authorized w (approval.repairMaps.authority c.1) c.1 c.2 kind current :=
    fun c hc => h c.1 c.2 (Dict.mem_items.1 hc)
  obtain ⟨maps, hmaps⟩ := exists_repairPaths changed.nodup_items hall
  exact ⟨approval.withRepairMaps maps, by rw [checkRepairDelta, hmaps]; rfl⟩

end ExecutionApproval

/-! ### The checks, read off -/

theorem positiveScalar_eq_ok {value : Option Text} {label : Text} {n : ℕ}
    (h : positiveScalar value label = .ok n) :
    0 < n ∧ ∃ v, value = some v ∧ parseFloat v = some (.finite false n) := by
  unfold positiveScalar at h
  split at h
  · cases h
  · rename_i v
    split at h
    · rename_i units hparse
      split_ifs at h with hpos
      cases h
      exact ⟨hpos, v, rfl, hparse⟩
    · cases h

end Contracts
end OpenFoamAgent
