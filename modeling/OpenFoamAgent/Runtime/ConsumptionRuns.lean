/-
# The budgets against what was really consumed

A completed row covers its process: it ran no longer than recorded, and the log
has no more bytes than recorded. So the sums that `run` compares with its limits
bound what all earlier processes used, and the timeout it grants fits the rest
of the wall budget (`meets_admitted`).

A row that ends by an exception or by the reconciliation records neither the
time nor the output, and a failed write leaves bytes in the log that no counter
has seen. Such an end is accounted for only when the process had used nothing
(`Accounted`); otherwise its share of the budgets is granted again
(`cancelled_run_forgotten`).
-/
import OpenFoamAgent.Runtime.LedgerRuns
import OpenFoamAgent.Runtime.ProcessConsumption

namespace OpenFoamAgent
namespace Runtime

open Python

/-- What all processes have really run. -/
def wallUsed (usage : List Usage) : ℕ := (usage.map (·.wall)).sum

/-- What all processes have really written. -/
def outputUsed (usage : List Usage) : ℕ := (usage.map (·.written)).sum

namespace Session

/-- A process is created within the budgets of its run: what is really used is below them, its
timeout fits the rest, and the reservations are within the limit. -/
def Admitted (s : Session) : SessionEvent → Prop
  | .create => ∀ records w, s.runner = some (records, some w) → w.phase = .reserved →
      wallUsed s.usage < w.limits.totalWallSeconds ∧
      outputUsed s.usage < w.limits.maxTotalOutputBytes ∧
      w.timeout + wallUsed s.usage ≤ w.limits.totalWallSeconds ∧
      records.length ≤ w.limits.limit
  | _ => True

/-- The process of the id is not dead with something used. -/
def Unused (s : Session) (id : ℕ) : Prop :=
  ∀ u ∈ s.usage, u.id = id → u.alive = false → u.wall = 0 ∧ u.written = 0

/-- Only a process that has used nothing ends by an exception or is reconciled, and a write that
fails leaves no byte. -/
def Accounted (s : Session) : SessionEvent → Prop
  | .abort _ _ => ∀ records w, s.runner = some (records, some w) → s.Unused w.id
  | .output _ (some written) => written = 0
  | .reconcile held persists => persists → ∀ row ∈ s.ledger.getD [], row.status.inFlight →
      s.gone held row → s.Unused row.id
  | _ => True

end Session

variable {s : Session} {rows records : List ProcessRow} {usage : List Usage} {w : Watch} {id : ℕ}

/-! ### Rows and usage -/

/-- A settled row records all that its process has used. -/
def Settles (rows : List ProcessRow) (usage : List Usage) : Prop :=
  ∀ row ∈ rows, row.status.inFlight = false → ∀ u ∈ usage, u.id = row.id →
    u.alive = false ∧ u.wall ≤ row.wallSeconds ∧ u.written ≤ row.outputBytes

/-- What bounds the usage of each row bounds the sum. -/
theorem sum_usage_le (used : Usage → ℕ) (recorded : ProcessRow → ℕ)
    (hids : usage.map (·.id) = rows.map (·.id))
    (h : ∀ row ∈ rows, ∀ u ∈ usage, u.id = row.id → used u ≤ recorded row) :
    (usage.map used).sum ≤ (rows.map recorded).sum := by
  induction rows generalizing usage with
  | nil =>
    rw [List.map_nil, List.map_eq_nil_iff] at hids
    rw [hids]
    simp
  | cons row rows ih =>
    obtain ⟨u, usage', rfl, hid, hids'⟩ := List.map_eq_cons_iff.1 hids
    have hhead := h row List.mem_cons_self u List.mem_cons_self hid
    have htail := ih hids' fun row' hrow' u' hu' =>
      h row' (List.mem_cons_of_mem _ hrow') u' (List.mem_cons_of_mem _ hu')
    simp only [List.map_cons, List.sum_cons]
    omega

/-- Dead processes stay as they are. -/
theorem Settles.map (h : Settles rows usage) {change : Usage → Usage}
    (hid : ∀ u, (change u).id = u.id) (hdead : ∀ u, u.alive = false → change u = u) :
    Settles rows (usage.map change) := by
  intro row hrow hsettled u hu hid'
  obtain ⟨old, hold, rfl⟩ := List.mem_map.1 hu
  have hold' := h row hrow hsettled old hold ((hid old).symm.trans hid')
  rw [hdead old hold'.1]
  exact hold'

/-- The process of a row in flight changes. -/
theorem Settles.updateUsage (h : Settles rows usage) {change : Usage → Usage}
    (hid : ∀ u, (change u).id = u.id) (hown : ∀ row ∈ rows, row.id = id → row.status.inFlight) :
    Settles rows (updateUsage usage id change) := by
  intro row hrow hsettled u hu hid'
  obtain ⟨old, hold, rfl⟩ := List.mem_map.1 hu
  by_cases heq : old.id = id
  · rw [if_pos heq] at hid'
    have hflight := hown row hrow (hid'.symm.trans ((hid old).trans heq))
    rw [hsettled] at hflight
    cases hflight
  · rw [if_neg heq] at hid' ⊢
    exact h row hrow hsettled old hold hid'

/-- The row of a run is settled with what its process has used. -/
theorem Settles.updateRow (h : Settles rows usage) (hsame : SameElse id rows records)
    {change : ProcessRow → ProcessRow} (hchange : OwnChange change)
    (hown : ∀ row, (change row).status.inFlight = false → ∀ u ∈ usage, u.id = id →
      u.alive = false ∧ u.wall ≤ (change row).wallSeconds ∧
        u.written ≤ (change row).outputBytes) :
    Settles (updateRow records id change) usage := by
  intro row hrow hsettled u hu hid
  obtain ⟨old, hold, rfl⟩ := List.mem_map.1 hrow
  by_cases heq : old.id = id
  · rw [if_pos heq] at hsettled hid ⊢
    exact hown old hsettled u hu (hid.trans ((hchange.id old).trans heq))
  · rw [if_neg heq] at hsettled hid ⊢
    exact h old ((hsame.mem hold).resolve_right heq) hsettled u hu hid

theorem updateUsage_ids (usage : List Usage) (id : ℕ) {change : Usage → Usage}
    (hid : ∀ u, (change u).id = u.id) :
    (updateUsage usage id change).map (·.id) = usage.map (·.id) := by
  rw [updateUsage, List.map_map]
  refine List.map_congr_left fun u _ => ?_
  rw [Function.comp_apply]
  split_ifs
  · exact hid u
  · rfl

theorem updateUsage_self (usage : List Usage) (id : ℕ) :
    updateUsage usage id (fun u => u) = usage := by
  simp [updateUsage]

/-- The process of a row that has one. -/
theorem mem_updateUsage {change : Usage → Usage} {u : Usage}
    (hu : u ∈ updateUsage usage id change) (heq : u.id = id) :
    ∃ old ∈ usage, old.id = id ∧ u = change old := by
  obtain ⟨old, hold, rfl⟩ := List.mem_map.1 hu
  by_cases hold' : old.id = id
  · exact ⟨old, hold, hold', if_pos hold'⟩
  · rw [if_neg hold'] at heq
    exact absurd heq hold'

theorem aliveIn_eq_false (h : aliveIn usage id = false) {u : Usage} (hu : u ∈ usage)
    (hid : u.id = id) : u.alive = false := by
  by_contra halive
  rw [aliveIn, List.any_eq_false] at h
  exact h u hu (by simp [hid, Bool.eq_true_of_not_eq_false halive])

/-! ### The invariant -/

/-- What is known while `_run_streaming` runs. -/
structure Watched (s : Session) (records : List ProcessRow) (w : Watch) : Prop where
  ledger : ∃ rows, s.ledger = some rows ∧ SameElse w.id rows records ∧ OnlyInFlight w.id rows
  /-- The clock and the counter cover the process. -/
  used : ∀ u ∈ s.usage, u.id = w.id → u.wall + w.started ≤ s.now ∧ u.written ≤ w.total
  /-- There is no process yet. -/
  fresh : w.phase = .reserved → s.ledger = some records ∧
    ∀ u ∈ s.usage, u.id = w.id → u.alive = false ∧ u.wall = 0 ∧ u.written = 0
  /-- The checks of `run`. -/
  checked : w.phase = .reserved → spentWall records < w.limits.totalWallSeconds ∧
    spentOutput records < w.limits.maxTotalOutputBytes ∧
    w.timeout + spentWall records ≤ w.limits.totalWallSeconds ∧
    records.length ≤ w.limits.limit

/-- The invariant of a session. -/
structure SessionInv (s : Session) : Prop where
  numbered : Numbered (s.ledger.getD [])
  ids : s.usage.map (·.id) = (s.ledger.getD []).map (·.id)
  settles : Settles (s.ledger.getD []) s.usage
  copy : ∀ records w, s.runner = some (records, w) → Numbered records
  unwritten : s.ledger = none → ∀ records w, s.runner = some (records, w) →
    records = [] ∨ records.any (·.status.inFlight)
  watched : ∀ records w, s.runner = some (records, some w) → Watched s records w

/-- The run keeps its row, its process and the ledger as they are, or leaves. -/
theorem SessionInv.leave (h : SessionInv s) (hrun : s.runner = some (records, some w)) :
    SessionInv { s with runner := some (records, none) } := by
  obtain ⟨rows, hrows, -, -⟩ := (h.watched _ _ hrun).ledger
  refine ⟨h.numbered, h.ids, h.settles, fun records' w' heq => ?_, fun hnone => ?_,
    fun records' w' heq => ?_⟩
  · obtain ⟨rfl, -⟩ := Prod.mk.inj (Option.some.inj heq)
    exact h.copy _ _ hrun
  · rw [hrows] at hnone
    cases hnone
  · cases (Prod.mk.inj (Option.some.inj heq)).2

/-- The run updates its row and ends. -/
theorem SessionInv.close (h : SessionInv s) (hrun : s.runner = some (records, some w))
    {change : ProcessRow → ProcessRow} (hchange : OwnChange change) (persists : Bool)
    (hown : ∀ row, ∀ u ∈ s.usage, u.id = w.id → u.alive = false ∧
      u.wall ≤ (change row).wallSeconds ∧ u.written ≤ (change row).outputBytes) :
    SessionInv (s.close records w.id change persists) := by
  obtain ⟨rows, hrows, hsame, -⟩ := (h.watched _ _ hrun).ledger
  have hupdate := sameElse_updateRow hchange records w.id
  have hcopy := hupdate.numbered (h.copy _ _ hrun)
  have hnew := hsame.trans hupdate
  have hsettles : Settles rows s.usage := by
    have := h.settles
    rwa [hrows] at this
  have hids : s.usage.map (·.id) = rows.map (·.id) := by
    have := h.ids
    rwa [hrows] at this
  have hrunner : ∀ records' w', (s.close records w.id change persists).runner =
      some (records', w') → records' = updateRow records w.id change ∧ w' = none := by
    intro records' w' heq
    obtain ⟨hrecords, hw⟩ := Prod.mk.inj (Option.some.inj heq)
    exact ⟨hrecords.symm, hw.symm⟩
  cases persists with
  | false =>
    refine ⟨h.numbered, h.ids, h.settles, fun records' w' heq => ?_, fun hnone => ?_,
      fun records' w' heq => ?_⟩
    · obtain ⟨rfl, -⟩ := hrunner records' w' heq
      exact hcopy
    · rw [show s.ledger = none from hnone] at hrows
      cases hrows
    · cases (hrunner records' _ heq).2
  | true =>
    refine ⟨hcopy, ?_, hsettles.updateRow hsame hchange fun row _ => hown row,
      fun records' w' heq => ?_, nofun, fun records' w' heq => ?_⟩
    · exact hids.trans hnew.ids.symm
    · obtain ⟨rfl, -⟩ := hrunner records' w' heq
      exact hcopy
    · cases (hrunner records' _ heq).2

/-- Time passes, or a process ends: a dead process stays as it is, and none gains on the clock. -/
theorem SessionInv.pass (h : SessionInv s) (ticks : ℕ) (change : Usage → Usage)
    (hid : ∀ u, (change u).id = u.id) (hdead : ∀ u, u.alive = false → change u = u)
    (hused : ∀ u, (change u).wall ≤ u.wall + ticks ∧ (change u).written = u.written) :
    SessionInv { s with now := s.now + ticks, usage := s.usage.map change } := by
  have hids : (s.usage.map change).map (·.id) = s.usage.map (·.id) := by
    rw [List.map_map]
    exact List.map_congr_left fun u _ => hid u
  refine ⟨h.numbered, hids.trans h.ids, h.settles.map hid hdead, h.copy, h.unwritten,
    fun records w hrun => ?_⟩
  have hwatched := h.watched records w hrun
  refine ⟨hwatched.ledger, fun u hu heq => ?_, fun hphase => ⟨(hwatched.fresh hphase).1,
    fun u hu heq => ?_⟩, hwatched.checked⟩
  · obtain ⟨old, hold, rfl⟩ := List.mem_map.1 hu
    have hold' := hwatched.used old hold ((hid old).symm.trans heq)
    have hnew := hused old
    dsimp only
    omega
  · obtain ⟨old, hold, rfl⟩ := List.mem_map.1 hu
    have hold' := (hwatched.fresh hphase).2 old hold ((hid old).symm.trans heq)
    rw [hdead old hold'.1]
    exact hold'

/-- Without a run there is nothing to watch. -/
theorem SessionInv.idle (h : SessionInv s) (runner : Option (List ProcessRow))
    (hcopy : ∀ records, runner = some records → Numbered records)
    (hunwritten : s.ledger = none → ∀ records, runner = some records →
      records = [] ∨ records.any (·.status.inFlight)) :
    SessionInv { s with runner := runner.map (·, none) } := by
  have hrunner : ∀ records w, runner.map (·, (none : Option Watch)) = some (records, w) →
      runner = some records ∧ w = none := by
    intro records w heq
    obtain ⟨records', hrecords', heq⟩ := Option.map_eq_some_iff.1 heq
    obtain ⟨rfl, rfl⟩ := Prod.mk.inj heq
    exact ⟨hrecords', rfl⟩
  refine ⟨h.numbered, h.ids, h.settles, fun records w heq => hcopy _ (hrunner _ _ heq).1,
    fun hnone records w heq => hunwritten hnone _ (hrunner _ _ heq).1, fun records w heq => ?_⟩
  cases (hrunner _ _ heq).2

theorem reconcileRows_ids (rows : List ProcessRow) :
    (Session.reconcileRows rows).map (·.id) = rows.map (·.id) := by
  rw [Session.reconcileRows, List.map_map]
  refine List.map_congr_left fun row _ => ?_
  rw [Function.comp_apply]
  split_ifs <;> rfl

theorem reconcileRows_numbered (h : Numbered rows) : Numbered (Session.reconcileRows rows) := by
  unfold Numbered at h ⊢
  rw [reconcileRows_ids, h, Session.reconcileRows, List.length_map]

/-- A row that is reconciled has no process, and what it had used nothing. -/
theorem SessionInv.reconcile (h : SessionInv s) (held : List ℕ)
    (hgone : (s.ledger.getD []).all fun row => !row.status.inFlight || s.gone held row)
    (haccounted : ∀ row ∈ s.ledger.getD [], row.status.inFlight → s.gone held row →
      s.Unused row.id) :
    SessionInv { s with
      ledger := some (Session.reconcileRows (s.ledger.getD []))
      runner := some (Session.reconcileRows (s.ledger.getD []), none) } := by
  have hnumbered := reconcileRows_numbered h.numbered
  refine ⟨hnumbered, h.ids.trans (reconcileRows_ids _).symm, ?_, fun records w heq => ?_, nofun,
    fun records w heq => ?_⟩
  · intro row hrow hsettled u hu hid
    obtain ⟨old, hold, rfl⟩ := List.mem_map.1 hrow
    by_cases hflight : old.status.inFlight = true
    · rw [if_pos hflight] at hid ⊢
      have hgone' : s.gone held old = true := by
        have := List.all_eq_true.1 hgone old hold
        rwa [hflight, Bool.not_true, Bool.false_or] at this
      have hdead : u.alive = false := by
        simp only [Session.gone, Bool.and_eq_true, Bool.not_eq_true'] at hgone'
        exact aliveIn_eq_false hgone'.1.2 hu hid
      obtain ⟨hwall, hwritten⟩ := haccounted old hold hflight hgone' u hu hid hdead
      exact ⟨hdead, hwall ▸ Nat.zero_le _, hwritten ▸ Nat.zero_le _⟩
    · rw [if_neg hflight] at hsettled hid ⊢
      exact h.settles old hold hsettled u hu hid
  · obtain ⟨rfl, -⟩ := Prod.mk.inj (Option.some.inj heq)
    exact hnumbered
  · cases (Prod.mk.inj (Option.some.inj heq)).2

theorem spentWall_append (rows : List ProcessRow) (command : List Text) (effect : Text) :
    spentWall (rows ++ [reservation rows command effect]) = spentWall rows := by
  unfold spentWall
  rw [List.map_append, List.sum_append]
  rfl

theorem spentOutput_append (rows : List ProcessRow) (command : List Text) (effect : Text) :
    spentOutput (rows ++ [reservation rows command effect]) = spentOutput rows := by
  unfold spentOutput
  rw [List.map_append, List.sum_append]
  rfl

/-- A run reserves its row, or is refused. -/
theorem SessionInv.start (h : SessionInv s) (hrun : s.runner = some (records, none))
    (request : NativeRequest) (refused persists : Bool) :
    SessionInv (s.start records request refused persists) := by
  have hcopy : Numbered records := h.copy _ _ hrun
  unfold Session.start
  dsimp only
  split_ifs with hrefused hwall houtput hlimit hpersists
  · exact h
  · exact h
  · exact h
  · exact h
  · rw [not_or, not_or] at hrefused
    obtain ⟨hsame, hsettled, -⟩ := hrefused
    have hsettled : ∀ row ∈ records, row.status.inFlight = false := by
      intro row hrow
      by_contra hflight
      exact hsettled (List.any_eq_true.2 ⟨row, hrow, by simpa using hflight⟩)
    -- a ledger that was never written is the empty copy
    have hledger : s.ledger.getD [] = records := by
      rcases hm : s.ledger with _ | rows
      · rcases h.unwritten hm _ _ hrun with hnil | hany
        · exact hnil.symm
        · obtain ⟨row, hrow, hflight⟩ := List.any_eq_true.1 hany
          rw [hsettled row hrow] at hflight
          cases hflight
      · rw [hm] at hsame
        simpa using hsame
    have hids : s.usage.map (·.id) = records.map (·.id) := hledger ▸ h.ids
    have hnew : ∀ u ∈ s.usage, u.id ≠ records.length + 1 := by
      intro u hu hid
      have hmem : records.length + 1 ∈ records.map (·.id) :=
        hids ▸ List.mem_map.2 ⟨u, hu, hid⟩
      rw [hcopy, List.mem_range'_1] at hmem
      omega
    have hnumbered := numbered_append hcopy request.command request.effect
    obtain ⟨honly, hspawn⟩ := onlyInFlight_append hcopy hsettled request.command request.effect
    have hown : ∀ u ∈ s.usage ++ [{ id := records.length + 1 }], u.id = records.length + 1 →
        u = { id := records.length + 1 } := by
      intro u hu hid
      rcases List.mem_append.1 hu with hu | hu
      · exact absurd hid (hnew u hu)
      · exact List.mem_singleton.1 hu
    refine ⟨hnumbered, ?_, ?_, fun records' w heq => ?_, nofun, fun records' w heq => ?_⟩
    · dsimp only
      rw [List.map_append, hids, Option.getD_some, List.map_append]
      rfl
    · intro row hrow hsettled' u hu hid
      rcases List.mem_append.1 hrow with hrow | hrow
      · rcases List.mem_append.1 hu with hu | hu
        · exact h.settles row (hledger ▸ hrow) hsettled' u hu hid
        · rw [List.mem_singleton.1 hu]
          exact ⟨rfl, Nat.zero_le _, Nat.zero_le _⟩
      · rw [List.mem_singleton.1 hrow] at hsettled'
        cases hsettled'
    · obtain ⟨rfl, -⟩ := Prod.mk.inj (Option.some.inj heq)
      exact hnumbered
    · obtain ⟨rfl, hw⟩ := Prod.mk.inj (Option.some.inj heq)
      obtain rfl := Option.some.inj hw
      refine ⟨⟨_, rfl, .refl _ _, honly⟩, fun u hu hid => ?_, fun _ => ⟨rfl, fun u hu hid => ?_⟩,
        fun _ => ?_⟩
      · rw [hown u hu hid]
        exact ⟨by simp, Nat.zero_le _⟩
      · rw [hown u hu hid]
        exact ⟨rfl, rfl, rfl⟩
      · rw [spentWall_append, spentOutput_append, List.length_append, List.length_singleton]
        dsimp only
        omega
  · refine h.idle (some _) (fun records' heq => ?_) fun _ records' heq => .inr ?_
    · obtain rfl := Option.some.inj heq
      exact numbered_append hcopy request.command request.effect
    · obtain rfl := Option.some.inj heq
      exact List.any_eq_true.2 ⟨_, List.mem_append_right _ List.mem_cons_self, rfl⟩

/-- The run goes on with its row and its process: the ledger is written or not. -/
theorem SessionInv.proceed (h : SessionInv s) (hrun : s.runner = some (records, some w))
    {records' : List ProcessRow} {ledger' : Option (List ProcessRow)} {change : Usage → Usage}
    {w' : Watch} (hcopy : SameElse w.id records records')
    (hid : ∀ u, (change u).id = u.id) (hw' : w'.id = w.id) (hphase : w'.phase ≠ .reserved)
    (hledger : ledger' = s.ledger ∨ ledger' = some records' ∧
      ∀ row ∈ records', row.id = w.id → row.status.inFlight)
    (hused : ∀ u ∈ s.usage, u.id = w.id →
      (change u).wall + w'.started ≤ s.now ∧ (change u).written ≤ w'.total) :
    SessionInv { s with
      ledger := ledger'
      runner := some (records', some w')
      usage := updateUsage s.usage w.id change } := by
  obtain ⟨rows, hrows, hsame, honly⟩ := (h.watched _ _ hrun).ledger
  have hnumbered : Numbered records' := hcopy.numbered (h.copy _ _ hrun)
  have hnew := hsame.trans hcopy
  have hids := updateUsage_ids s.usage w.id hid
  have hsettles : Settles rows s.usage := by
    have := h.settles
    rwa [hrows] at this
  have hold : s.usage.map (·.id) = rows.map (·.id) := by
    have := h.ids
    rwa [hrows] at this
  -- the ledger after the event, with the row of the run alone in flight
  obtain ⟨rows', hrows', hsame', hmirror, honly'⟩ : ∃ rows', ledger' = some rows' ∧
      SameElse w.id rows rows' ∧ SameElse w.id rows' records' ∧ OnlyInFlight w.id rows' := by
    rcases hledger with rfl | ⟨rfl, hflight⟩
    · exact ⟨rows, hrows, .refl _ _, hnew, honly⟩
    · exact ⟨records', rfl, hnew, .refl _ _, honly.sameElse hnew hflight⟩
  have hsettles' : Settles rows' s.usage := by
    intro row hrow hsettled
    have hne : row.id ≠ w.id := by
      intro heq
      have hflight := honly'.own row hrow heq
      rw [hsettled] at hflight
      cases hflight
    exact hsettles row ((hsame'.mem hrow).resolve_right hne) hsettled
  subst hrows'
  refine ⟨hsame'.numbered ?_, ?_, hsettles'.updateUsage hid honly'.own, fun records₀ w₀ heq => ?_,
    nofun, fun records₀ w₀ heq => ?_⟩
  · have := h.numbered
    rwa [hrows] at this
  · dsimp only
    rw [hids, hold, Option.getD_some, hsame'.ids]
  · obtain ⟨rfl, -⟩ := Prod.mk.inj (Option.some.inj heq)
    exact hnumbered
  · obtain ⟨rfl, hw₀⟩ := Prod.mk.inj (Option.some.inj heq)
    obtain rfl := Option.some.inj hw₀
    refine ⟨⟨rows', rfl, hw' ▸ hmirror, hw' ▸ honly'⟩, fun u hu heq => ?_,
      fun hreserved => absurd hreserved hphase, fun hreserved => absurd hreserved hphase⟩
    obtain ⟨old, hold, hid', rfl⟩ := mem_updateUsage hu (heq.trans hw')
    exact hused old hold hid'

/-- A run that has created its process records it as running. -/
theorem SessionInv.markRunning (h : SessionInv s) (hrun : s.runner = some (records, some w))
    (hphase : w.phase = .created) (pid : ℕ) {ledger' : Option (List ProcessRow)} {w' : Watch}
    (hw' : w' = w ∨ w' = { w with phase := .watching })
    (hledger : ledger' = s.ledger ∨ ledger' = some (updateRow records w.id (setRunning pid))) :
    SessionInv { s with
      ledger := ledger'
      runner := some (updateRow records w.id (setRunning pid), some w') } := by
  have hchange := ownChange_setRunning pid
  have hfields : w'.id = w.id ∧ w'.phase ≠ .reserved ∧ w'.started = w.started ∧
      w'.total = w.total := by
    rcases hw' with rfl | rfl
    · exact ⟨rfl, hphase ▸ nofun, rfl, rfl⟩
    · exact ⟨rfl, nofun, rfl, rfl⟩
  obtain ⟨hid, hreserved, hstarted, htotal⟩ := hfields
  have hflight : ∀ row ∈ updateRow records w.id (setRunning pid), row.id = w.id →
      row.status.inFlight := inFlight_updateRow fun _ => rfl
  have hused : ∀ u ∈ s.usage, u.id = w.id → u.wall + w'.started ≤ s.now ∧ u.written ≤ w'.total := by
    rw [hstarted, htotal]
    exact (h.watched _ _ hrun).used
  have hproceed : SessionInv { s with
      ledger := ledger'
      runner := some (updateRow records w.id (setRunning pid), some w')
      usage := updateUsage s.usage w.id fun u => u } :=
    h.proceed hrun (sameElse_updateRow hchange _ _) (fun _ => rfl) hid hreserved
      (hledger.imp_right fun heq => ⟨heq, hflight⟩) hused
  rwa [updateUsage_self] at hproceed

/-- The log and the counter grow alike, as long as no write fails part way. -/
theorem SessionInv.output (h : SessionInv s) (hrun : s.runner = some (records, some w))
    (hphase : w.phase = .watching) (size : ℕ) (failed : Option ℕ)
    (haccounted : s.Accounted (.output size failed)) :
    SessionInv (s.output records w size failed) := by
  have hused := (h.watched _ _ hrun).used
  have hreserved : w.phase ≠ .reserved := hphase ▸ nofun
  unfold Session.output
  dsimp only
  cases failed with
  | none =>
    refine h.proceed hrun (.refl _ _) (fun _ => rfl) rfl hreserved (.inl rfl)
      fun u hu hid => ⟨(hused u hu hid).1, ?_⟩
    exact Nat.add_le_add_right (hused u hu hid).2 _
  | some written =>
    have hnothing : written = 0 := haccounted
    refine h.proceed hrun (.refl _ _) (fun _ => rfl) rfl hreserved (.inl rfl)
      fun u hu hid => ⟨(hused u hu hid).1, ?_⟩
    rw [hnothing, Nat.zero_min]
    exact (hused u hu hid).2

/-- An event of a run. -/
theorem SessionInv.act (h : SessionInv s) (hrun : s.runner = some (records, some w))
    (event : SessionEvent) (haccounted : s.Accounted event) :
    SessionInv (s.act records w event) := by
  have hwatched := h.watched _ _ hrun
  cases event with
  | tick | exit | load | reconcile | crash | start => exact h
  | isolationFails persists =>
    dsimp only [Session.act]
    split_ifs with hphase
    · refine h.close hrun (ownChange_setStatus _) persists fun row u hu hid => ?_
      obtain ⟨hdead, hwall, hwritten⟩ := (hwatched.fresh hphase).2 u hu hid
      exact ⟨hdead, hwall ▸ Nat.zero_le _, hwritten ▸ Nat.zero_le _⟩
    · exact h
  | create =>
    dsimp only [Session.act]
    split_ifs with hphase
    · exact h.proceed hrun (.refl _ _) (fun _ => rfl) rfl nofun (.inl rfl) hwatched.used
    · exact h
  | markRunning pid persists =>
    dsimp only [Session.act]
    split_ifs with hphase hpersists
    · exact h.markRunning hrun hphase pid (.inr rfl) (.inr rfl)
    · exact h.markRunning hrun hphase pid (.inl rfl) (.inl rfl)
    · exact h
  | output size failed =>
    dsimp only [Session.act]
    split_ifs with hphase
    · exact h.output hrun hphase.1 size failed haccounted
    · exact h
  | abort cancelled persists =>
    dsimp only [Session.act]
    split_ifs with halive
    · exact h
    · refine h.close hrun (ownChange_setStatus _) persists fun row u hu hid => ?_
      have hdead := aliveIn_eq_false (by simpa using halive) hu hid
      obtain ⟨hwall, hwritten⟩ := haccounted records w hrun u hu hid hdead
      exact ⟨hdead, hwall ▸ Nat.zero_le _, hwritten ▸ Nat.zero_le _⟩
  | escape => exact h.leave hrun
  | finish ended returnCode persists =>
    dsimp only [Session.act]
    split_ifs with hfinished
    · refine h.close hrun (ownChange_setEnded _ _) persists fun row u hu hid => ?_
      have hused := hwatched.used u hu hid
      exact ⟨aliveIn_eq_false (by simpa using hfinished.2) hu hid, Nat.le_sub_of_add_le hused.1,
        hused.2⟩
    · exact h

/-- An accounted event keeps the invariant. -/
theorem session_step_inv (event : SessionEvent) (h : SessionInv s)
    (haccounted : s.Accounted event) : SessionInv (s.step event) := by
  unfold Session.step
  split
  next ticks =>
    -- tick
    refine h.pass ticks (Usage.tick ticks) (fun u => ?_) (fun u hdead => ?_) fun u => ?_
    · unfold Usage.tick
      split_ifs <;> rfl
    · unfold Usage.tick
      rw [hdead]
      rfl
    · unfold Usage.tick
      split_ifs
      · exact ⟨le_rfl, rfl⟩
      · exact ⟨Nat.le_add_right _ _, rfl⟩
  next id =>
    -- exit
    have hpass := h.pass 0 (fun u => if u.id = id then { u with alive := false } else u)
      (fun u => by split_ifs <;> rfl)
      (fun u hdead => by split_ifs <;> [exact Usage.ext rfl rfl rfl hdead.symm; rfl])
      (fun u => by split_ifs <;> exact ⟨le_rfl, rfl⟩)
    exact hpass
  next hnone =>
    -- load
    split_ifs with hnumbered
    · refine h.idle (some _) (fun records heq => ?_) fun hledger records heq => ?_
      · exact Option.some.inj heq ▸ hnumbered
      · rw [← Option.some.inj heq, hledger]
        exact .inl rfl
    · exact h
  next held persists hnone =>
    -- reconcile
    dsimp only
    split_ifs with hgone
    · exact h.reconcile held hgone.2.1 (haccounted hgone.2.2)
    · exact h
  next => exact h.idle none nofun fun _ => nofun
  next records request refused persists hrun => exact h.start hrun request refused persists
  next hrun _ _ _ => exact h.act hrun _ haccounted
  next => exact h

/-! ### Runs -/

/-- The invariant grants no process more than is left. -/
theorem SessionInv.admitted (h : SessionInv s) (event : SessionEvent) : s.Admitted event := by
  cases event with
  | create =>
    intro records w hrun hphase
    obtain ⟨hledger, hfresh⟩ := (h.watched _ _ hrun).fresh hphase
    obtain ⟨hwall, houtput, htimeout, hlimit⟩ := (h.watched _ _ hrun).checked hphase
    obtain ⟨rows, hrows, -, honly⟩ := (h.watched _ _ hrun).ledger
    obtain rfl := Option.some.inj (hledger.symm.trans hrows)
    have hids : s.usage.map (·.id) = records.map (·.id) := by
      have := h.ids
      rwa [hledger] at this
    have hsettles : Settles records s.usage := by
      have := h.settles
      rwa [hledger] at this
    have hcovered : ∀ row ∈ records, ∀ u ∈ s.usage, u.id = row.id →
        u.wall ≤ row.wallSeconds ∧ u.written ≤ row.outputBytes := by
      intro row hrow u hu hid
      by_cases hown : row.id = w.id
      · obtain ⟨-, hnowall, hnooutput⟩ := hfresh u hu (hid.trans hown)
        exact ⟨hnowall ▸ Nat.zero_le _, hnooutput ▸ Nat.zero_le _⟩
      · exact (hsettles row hrow (honly.settled row hrow hown) u hu hid).2
    have hwallUsed : wallUsed s.usage ≤ spentWall records :=
      sum_usage_le _ _ hids fun row hrow u hu hid => (hcovered row hrow u hu hid).1
    have houtputUsed : outputUsed s.usage ≤ spentOutput records :=
      sum_usage_le _ _ hids fun row hrow u hu hid => (hcovered row hrow u hu hid).2
    exact ⟨hwallUsed.trans_lt hwall, houtputUsed.trans_lt houtput, by omega, hlimit⟩
  | _ => trivial

/-- A workspace without a ledger and without a controller. -/
def Session.fresh : Session where
  now := 0
  ledger := none
  runner := none
  usage := []

theorem fresh_inv : SessionInv .fresh :=
  ⟨rfl, rfl, nofun, nofun, fun _ => nofun, nofun⟩

theorem meets_admitted_of_inv {events : List SessionEvent} (h : SessionInv s)
    (haccounted : Runs.Meets Session.step Session.Accounted s events) :
    Runs.Meets Session.step Session.Admitted s events := by
  induction events generalizing s with
  | nil => trivial
  | cons event events ih =>
    exact ⟨h.admitted event, ih (session_step_inv event h haccounted.1) haccounted.2⟩

/-- Where every process that has used something ends with a completed row, no process is created
beyond what the budgets leave of the real consumption. -/
theorem meets_admitted (events : List SessionEvent)
    (haccounted : Runs.Meets Session.step Session.Accounted .fresh events) :
    Runs.Meets Session.step Session.Admitted .fresh events :=
  meets_admitted_of_inv fresh_inv haccounted

/-- The limits of the runs below. -/
def hundredTicks : Allowance where
  totalWallSeconds := 100
  maxOutputBytes := 1024
  maxTotalOutputBytes := 1024
  limit := 40

/-- A process of 60 ticks ends, and the next is created with what is left. -/
theorem meets_admitted_second :
    let request : NativeRequest := ⟨[], [], 60, hundredTicks⟩
    let events := [.load, .start request false true, .create, .markRunning 7 true, .output 10 none,
      .tick 60, .exit 1, .finish none 0 true, .start request false true, .create]
    Runs.Meets Session.step Session.Admitted .fresh events ∧
      (Runs.run Session.step .fresh events).usage.map (·.id) = [1, 2] := by
  intro request events
  refine ⟨meets_admitted events ⟨trivial, trivial, trivial, trivial, trivial, trivial, trivial,
    trivial, trivial, trivial, trivial⟩, rfl⟩

/-- A process is interrupted when it has used the whole budget, and the next one is created with
all of it. -/
theorem cancelled_run_forgotten :
    ∃ events, ¬ Runs.Meets Session.step Session.Admitted .fresh events := by
  let request : NativeRequest := ⟨[], [], 100, hundredTicks⟩
  refine ⟨[.load, .start request false true, .create, .markRunning 7 true, .tick 100, .exit 1,
    .abort true true, .start request false true, .create], fun h => ?_⟩
  obtain ⟨-, -, -, -, -, -, -, -, hcreate, -⟩ := h
  exact absurd (hcreate _ _ rfl rfl).1 (by decide)

end Runtime
end OpenFoamAgent
