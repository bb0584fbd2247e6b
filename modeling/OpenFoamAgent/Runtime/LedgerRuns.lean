/-
# The ledger of concurrent runners

Whatever runners share a workspace and in whatever order they act, crash and are
made anew, the ledger only grows: a reservation stays, a settled row stays as it
is, and the row of a process in flight is written by the runner that reserved it
alone. A process is created only after its own row was written, while every
other row is settled (`run_orderly`).

The copy of a runner may be stale, but not between its check and the end of its
run: it holds the lock, so the others are idle (`Inv.held`), and the ledger is
its copy but for its own row (`Staged`).
-/
import Mathlib.Data.List.Forall2
import Mathlib.Data.List.Nodup
import OpenFoamAgent.Library.Runs
import OpenFoamAgent.Runtime.ProcessLedger

namespace OpenFoamAgent
namespace Runtime

open Python

variable {m m' : Machine} {i : ℕ} {r r' : Runner} {rows rows' : List ProcessRow} {id : ℕ}

/-! ### Rows -/

theorem forall₂_trans {α : Type} {R S T : α → α → Prop} (h : ∀ a b c, R a b → S b c → T a c)
    {as bs cs : List α} (hab : List.Forall₂ R as bs) (hbc : List.Forall₂ S bs cs) :
    List.Forall₂ T as cs := by
  induction hab generalizing cs with
  | nil =>
    cases hbc
    exact .nil
  | cons hr _ ih =>
    cases hbc with
    | cons hs htail => exact .cons (h _ _ _ hr hs) (ih htail)

/-- The rows differ at most in what happened to the row of an id. -/
def SameElse (id : ℕ) (rows rows' : List ProcessRow) : Prop :=
  List.Forall₂ (fun a b : ProcessRow => b.id = a.id ∧ b.command = a.command ∧
    b.effect = a.effect ∧ (a.id ≠ id → b = a)) rows rows'

/-- A later version of a row: the reservation is kept, and all of it once it is settled. -/
structure Keeps (a b : ProcessRow) : Prop where
  id : b.id = a.id
  command : b.command = a.command
  effect : b.effect = a.effect
  settled : a.status.inFlight = false → b = a

theorem Keeps.refl (a : ProcessRow) : Keeps a a := ⟨rfl, rfl, rfl, fun _ => rfl⟩

theorem Keeps.trans {a b c : ProcessRow} (h : Keeps a b) (h' : Keeps b c) : Keeps a c := by
  refine ⟨h'.id.trans h.id, h'.command.trans h.command, h'.effect.trans h.effect, fun ha => ?_⟩
  obtain rfl := h.settled ha
  exact h'.settled ha

/-- Every row of the one ledger is in the other, at its place and in a later version. -/
def Grows (ledger ledger' : Option (List ProcessRow)) : Prop :=
  ∀ rows, ledger = some rows → ∃ rows', ledger' = some rows' ∧
    List.Forall₂ Keeps rows (rows'.take rows.length)

theorem Grows.refl (ledger : Option (List ProcessRow)) : Grows ledger ledger := by
  intro rows h
  refine ⟨rows, h, ?_⟩
  rw [List.take_length]
  exact List.forall₂_same.2 fun a _ => .refl a

theorem Grows.trans {l l' l'' : Option (List ProcessRow)} (h : Grows l l') (h' : Grows l' l'') :
    Grows l l'' := by
  intro rows hrows
  obtain ⟨rows', hrows', hkeeps⟩ := h rows hrows
  obtain ⟨rows'', hrows'', hkeeps'⟩ := h' rows' hrows'
  refine ⟨rows'', hrows'', ?_⟩
  have hlength : rows.length ≤ rows'.length := by
    have := hkeeps.length_eq
    rw [List.length_take] at this
    omega
  have htake := List.forall₂_take rows.length hkeeps'
  rw [List.take_take, Nat.min_eq_left hlength] at htake
  exact forall₂_trans (R := Keeps) (S := Keeps) (fun _ _ _ => Keeps.trans) hkeeps htake

theorem Grows.append (rows tail : List ProcessRow) : Grows (some rows) (some (rows ++ tail)) := by
  intro rows' h
  obtain rfl := Option.some.inj h
  refine ⟨rows ++ tail, rfl, ?_⟩
  rw [List.take_left]
  exact List.forall₂_same.2 fun a _ => .refl a

theorem grows_none (ledger : Option (List ProcessRow)) : Grows none ledger := nofun

/-- What a change of the row of a runner keeps. -/
structure OwnChange (change : ProcessRow → ProcessRow) : Prop where
  id : ∀ row, (change row).id = row.id
  command : ∀ row, (change row).command = row.command
  effect : ∀ row, (change row).effect = row.effect

theorem ownChange_setStatus (status : RowStatus) : OwnChange (setStatus status) :=
  ⟨fun _ => rfl, fun _ => rfl, fun _ => rfl⟩

theorem ownChange_setRunning (pid : ℕ) : OwnChange (setRunning pid) :=
  ⟨fun _ => rfl, fun _ => rfl, fun _ => rfl⟩

theorem ownChange_setEnded (termination : Termination) (completion : Completion) :
    OwnChange (setEnded termination completion) :=
  ⟨fun _ => rfl, fun _ => rfl, fun _ => rfl⟩

theorem sameElse_updateRow {change : ProcessRow → ProcessRow} (h : OwnChange change)
    (rows : List ProcessRow) (id : ℕ) : SameElse id rows (updateRow rows id change) := by
  unfold SameElse updateRow
  rw [List.forall₂_map_right_iff]
  refine List.forall₂_same.2 fun a _ => ?_
  by_cases ha : a.id = id
  · rw [if_pos ha]
    exact ⟨h.id a, h.command a, h.effect a, fun hne => absurd ha hne⟩
  · rw [if_neg ha]
    exact ⟨rfl, rfl, rfl, fun _ => rfl⟩

theorem SameElse.refl (id : ℕ) (rows : List ProcessRow) : SameElse id rows rows :=
  List.forall₂_same.2 fun _ _ => ⟨rfl, rfl, rfl, fun _ => rfl⟩

theorem SameElse.trans (h : SameElse id rows rows') {rows'' : List ProcessRow}
    (h' : SameElse id rows' rows'') : SameElse id rows rows'' := by
  refine forall₂_trans (fun a b c hab hbc => ?_) h h'
  obtain ⟨hid, hcommand, heffect, hsame⟩ := hab
  obtain ⟨hid', hcommand', heffect', hsame'⟩ := hbc
  refine ⟨hid'.trans hid, hcommand'.trans hcommand, heffect'.trans heffect, fun hne => ?_⟩
  rw [hsame' (hid ▸ hne), hsame hne]

theorem SameElse.ids (h : SameElse id rows rows') : rows'.map (·.id) = rows.map (·.id) := by
  induction h with
  | nil => rfl
  | cons hab _ ih => rw [List.map_cons, List.map_cons, hab.1, ih]

theorem SameElse.numbered (h : SameElse id rows rows') (hrows : Numbered rows) :
    Numbered rows' := by
  have hids := h.ids
  have hlength := congrArg List.length hids
  rw [List.length_map, List.length_map] at hlength
  unfold Numbered at hrows ⊢
  rw [hids, hlength, hrows]

/-- A row of the later rows is the earlier row, or the one of the id. -/
theorem SameElse.mem (h : SameElse id rows rows') {row : ProcessRow} (hrow : row ∈ rows') :
    row ∈ rows ∨ row.id = id := by
  induction h with
  | nil => cases hrow
  | cons hab _ ih =>
    rename_i a b _ _ _
    rcases List.mem_cons.1 hrow with rfl | hrow
    · by_cases ha : a.id = id
      · exact .inr (hab.1.trans ha)
      · exact .inl (hab.2.2.2 ha ▸ List.mem_cons_self)
    · exact (ih hrow).imp_left (List.mem_cons_of_mem _)

/-- When only the row of the id was in flight, the later rows are later versions. -/
theorem SameElse.grows (h : SameElse id rows rows')
    (hown : ∀ row ∈ rows, row.id = id → row.status.inFlight) : Grows (some rows) (some rows') := by
  intro rows₀ heq
  obtain rfl := Option.some.inj heq
  refine ⟨rows', rfl, ?_⟩
  rw [List.take_of_length_le h.length_eq.ge]
  clear heq
  induction h with
  | nil => exact .nil
  | cons hab _ ih =>
    refine .cons ⟨hab.1, hab.2.1, hab.2.2.1, fun hsettled => hab.2.2.2 fun hid => ?_⟩
      (ih fun row hrow => hown row (List.mem_cons_of_mem _ hrow))
    have hflight := hown _ List.mem_cons_self hid
    rw [hsettled] at hflight
    cases hflight

theorem numbered_append (h : Numbered rows) (command : List Text) (effect : Text) :
    Numbered (rows ++ [reservation rows command effect]) := by
  unfold Numbered at h ⊢
  rw [List.map_append, h, List.length_append, List.length_singleton, List.range'_concat]
  simp [reservation, Nat.add_comm]

/-! ### The invariant -/

/-- The row a runner has reserved and not yet left. -/
def Stage.row : Stage → Option ℕ
  | reserved id | created id | watching id => some id
  | _ => none

/-- The row of an id is in flight, and every other row is settled. -/
structure OnlyInFlight (id : ℕ) (rows : List ProcessRow) : Prop where
  mem : ∃ row ∈ rows, row.id = id ∧ row.status.inFlight
  own : ∀ row ∈ rows, row.id = id → row.status.inFlight
  settled : ∀ row ∈ rows, row.id ≠ id → row.status.inFlight = false

theorem OnlyInFlight.sameElse (h : OnlyInFlight id rows) (hsame : SameElse id rows rows')
    (hown : ∀ row ∈ rows', row.id = id → row.status.inFlight) : OnlyInFlight id rows' := by
  refine ⟨?_, hown, fun row hrow hne => ?_⟩
  · obtain ⟨row, hrow, hid, -⟩ := h.mem
    have hmem : id ∈ rows'.map (·.id) := hsame.ids ▸ List.mem_map.2 ⟨row, hrow, hid⟩
    obtain ⟨row', hrow', hid'⟩ := List.mem_map.1 hmem
    exact ⟨row', hrow', hid', hown row' hrow' hid'⟩
  · exact h.settled row ((hsame.mem hrow).resolve_right hne) hne

/-- The row of an id has been changed to one in flight. -/
theorem inFlight_updateRow {change : ProcessRow → ProcessRow}
    (hflight : ∀ row, (change row).status.inFlight) :
    ∀ row ∈ updateRow rows id change, row.id = id → row.status.inFlight := by
  intro row hrow hid
  obtain ⟨old, -, rfl⟩ := List.mem_map.1 hrow
  by_cases hold : old.id = id
  · rw [if_pos hold]
    exact hflight old
  · rw [if_neg hold] at hid
    exact absurd hid hold

/-- What the ledger holds while a runner stands somewhere in `run`. -/
def Staged (m : Machine) (r : Runner) : Prop :=
  match r.stage with
  | .idle | .entered => True
  | .checked => (∀ rows, m.ledger = some rows → rows = r.records) ∧
      ∀ row ∈ r.records, row.status.inFlight = false
  | .reserved id => m.ledger = some r.records ∧ OnlyInFlight id r.records ∧ id ∉ m.created ∧
      ∀ row ∈ r.records, row.id = id → row.status = .spawnIntent
  | .created id | .watching id => ∃ rows, m.ledger = some rows ∧ SameElse id rows r.records ∧
      OnlyInFlight id rows

/-- The rows of a machine: they are numbered, and every process created has one of its own. -/
structure Coherent (m : Machine) : Prop where
  numbered : ∀ rows, m.ledger = some rows → Numbered rows
  nodup : m.created.Nodup
  recorded : ∀ id ∈ m.created, ∃ rows, m.ledger = some rows ∧ id ∈ rows.map (·.id)

/-- The invariant of concurrent runners. -/
structure Inv (m : Machine) : Prop extends Coherent m where
  held : ∀ i r, m.runners i = some r → r.stage ≠ .idle → m.lock = some i
  copies : ∀ i r, m.runners i = some r → Numbered r.records
  /-- Before the first write only a reservation that could not be written is remembered. -/
  unwritten : m.ledger = none → ∀ i r, m.runners i = some r →
    r.records = [] ∨ r.records.any (·.status.inFlight)
  staged : ∀ i r, m.runners i = some r → Staged m r

/-- What one action does to the ledger and to the processes. -/
structure Orderly (m m' : Machine) : Prop where
  grows : Grows m.ledger m'.ledger
  /-- A process is created for a written reservation, and every other row is settled. -/
  spawn : m'.created = m.created ∨ ∃ id rows, m'.created = m.created ++ [id] ∧
    m.ledger = some rows ∧ (∃ row ∈ rows, row.id = id ∧ row.status = .spawnIntent) ∧
    ∀ row ∈ rows, row.id ≠ id → row.status.inFlight = false
  /-- The ledger gets a reservation of the next id, or the row of the runner that reserved it is
  updated. -/
  write : m'.ledger = m.ledger ∨
    (∃ row, m'.ledger = some (m.ledger.getD [] ++ [row]) ∧ row.status = .spawnIntent) ∨
    ∃ i r id rows rows', m.runners i = some r ∧ r.stage.row = some id ∧ m.ledger = some rows ∧
      m'.ledger = some rows' ∧ SameElse id rows rows'

theorem Orderly.quiet (hledger : m'.ledger = m.ledger) (hcreated : m'.created = m.created) :
    Orderly m m' :=
  ⟨hledger ▸ .refl _, .inl hcreated, .inl hledger⟩

/-- A runner without the lock is idle. -/
theorem Inv.idle (h : Inv m) {j : ℕ} (hlock : m.lock = some i) (hj : m.runners j = some r)
    (hne : j ≠ i) : r.stage = .idle := by
  by_contra hstage
  exact hne (Option.some.inj ((h.held j r hj hstage).symm.trans hlock))

theorem staged_of_idle (hstage : r.stage = .idle) : Staged m r := by
  unfold Staged
  rw [hstage]
  trivial

/-- One runner acts and becomes `r'`. Unless it holds the lock the ledger and the processes stay
as they are. -/
theorem Inv.act (h : Inv m) (hrunners : m'.runners = Function.update m.runners i (some r'))
    (hshared : m.lock = some i ∨
      (m'.ledger = m.ledger ∧ m'.created = m.created ∧ (m.lock = none ∨ m'.lock = m.lock)))
    (hcoherent : Coherent m') (hlock : r'.stage ≠ .idle → m'.lock = some i)
    (hcopy : Numbered r'.records)
    (hunwritten : m'.ledger = none →
      m.ledger = none ∧ (r'.records = [] ∨ r'.records.any (·.status.inFlight)))
    (hstaged : Staged m' r') : Inv m' := by
  have hother : ∀ j r, m'.runners j = some r → j ≠ i → m.runners j = some r := by
    intro j r hj hne
    rwa [hrunners, Function.update_of_ne hne] at hj
  have hself : ∀ r, m'.runners i = some r → r = r' := by
    intro r hi
    rw [hrunners, Function.update_self] at hi
    exact (Option.some.inj hi).symm
  refine ⟨hcoherent, fun j r hj hstage => ?_, fun j r hj => ?_, fun hnone j r hj => ?_,
    fun j r hj => ?_⟩
  · by_cases hne : j = i
    · subst hne
      exact hlock (hself r hj ▸ hstage)
    · have hheld := h.held j r (hother j r hj hne) hstage
      rcases hshared with hi | ⟨-, -, hfree | hsame⟩
      · exact absurd (Option.some.inj (hheld.symm.trans hi)) hne
      · rw [hheld] at hfree
        cases hfree
      · rw [hsame, hheld]
  · by_cases hne : j = i
    · subst hne
      exact hself r hj ▸ hcopy
    · exact h.copies j r (hother j r hj hne)
  · by_cases hne : j = i
    · subst hne
      exact hself r hj ▸ (hunwritten hnone).2
    · exact h.unwritten (hunwritten hnone).1 j r (hother j r hj hne)
  · by_cases hne : j = i
    · subst hne
      exact hself r hj ▸ hstaged
    · have hj' := hother j r hj hne
      rcases hshared with hi | ⟨hledger, hcreated, -⟩
      · exact staged_of_idle (h.idle hi hj' hne)
      · have hold := h.staged j r hj'
        unfold Staged at hold ⊢
        rw [hledger, hcreated]
        exact hold

/-! ### Steps -/

/-- The runner that holds the lock leaves, without a write. -/
theorem Inv.leave (h : Inv m) (hlock : m.lock = some i) {records : List ProcessRow}
    (hcopy : Numbered records)
    (hunwritten : m.ledger = none → records = [] ∨ records.any (·.status.inFlight)) :
    Inv (m.leave i records) ∧ Orderly m (m.leave i records) :=
  ⟨h.act rfl (.inl hlock) ⟨h.numbered, h.nodup, h.recorded⟩ (fun hne => absurd rfl hne) hcopy
    (fun hnone => ⟨hnone, hunwritten hnone⟩) (staged_of_idle rfl), .quiet rfl rfl⟩

/-- The ledger and the copy of a runner that has reserved a row. -/
theorem Inv.own (h : Inv m) (hi : m.runners i = some r) (hrow : r.stage.row = some id) :
    m.lock = some i ∧ ∃ rows, m.ledger = some rows ∧ SameElse id rows r.records ∧
      OnlyInFlight id rows := by
  have hstaged := h.staged i r hi
  have hlock := h.held i r hi fun hidle => by rw [hidle] at hrow; cases hrow
  refine ⟨hlock, ?_⟩
  unfold Staged at hstaged
  obtain ⟨records, stage⟩ := r
  cases stage with
  | idle | entered | checked => cases hrow
  | reserved id' =>
    obtain rfl := Option.some.inj hrow
    exact ⟨_, hstaged.1, .refl _ _, hstaged.2.1⟩
  | created id' | watching id' =>
    obtain rfl := Option.some.inj hrow
    exact hstaged

/-- The updated row is written, or not. -/
theorem Inv.persist (h : Inv m) (hi : m.runners i = some r) (hrow : r.stage.row = some id)
    {change : ProcessRow → ProcessRow} (hchange : OwnChange change) (persists : Bool) :
    Coherent (m.persist persists (updateRow r.records id change)) ∧
      Orderly m (m.persist persists (updateRow r.records id change)) := by
  obtain ⟨-, rows, hrows, hsame, honly⟩ := h.own hi hrow
  cases persists with
  | false => exact ⟨⟨h.numbered, h.nodup, h.recorded⟩, .quiet rfl rfl⟩
  | true =>
    have hnew := hsame.trans (sameElse_updateRow hchange r.records id)
    refine ⟨⟨fun rows' h' => ?_, h.nodup, fun id' hid' => ?_⟩, ?_, .inl rfl, ?_⟩
    · obtain rfl := Option.some.inj h'
      exact hnew.numbered (h.numbered _ hrows)
    · obtain ⟨rows', hrows', hmem⟩ := h.recorded id' hid'
      obtain rfl := Option.some.inj (hrows.symm.trans hrows')
      exact ⟨_, rfl, hnew.ids ▸ hmem⟩
    · rw [hrows]
      exact hnew.grows honly.own
    · exact .inr (.inr ⟨i, r, id, rows, _, hi, hrow, hrows, rfl, hnew⟩)

/-- A runner updates its row and leaves. -/
theorem Inv.close (h : Inv m) (hi : m.runners i = some r) (hrow : r.stage.row = some id)
    {change : ProcessRow → ProcessRow} (hchange : OwnChange change) (persists : Bool) :
    Inv (m.close i (updateRow r.records id change) persists) ∧
      Orderly m (m.close i (updateRow r.records id change) persists) := by
  obtain ⟨hcoherent, horderly⟩ := h.persist hi hrow hchange persists
  obtain ⟨hlock, rows, hrows, -, -⟩ := h.own hi hrow
  have hledger : (m.persist persists (updateRow r.records id change)).ledger ≠ none := by
    cases persists with
    | false => exact fun hnone => by rw [Machine.persist] at hnone; simp [hrows] at hnone
    | true => exact nofun
  have hrunners : (m.close i (updateRow r.records id change) persists).runners =
      Function.update m.runners i (some ⟨updateRow r.records id change, .idle⟩) := by
    cases persists <;> rfl
  exact ⟨h.act hrunners (.inl hlock)
    ⟨hcoherent.numbered, hcoherent.nodup, hcoherent.recorded⟩ (fun hne => absurd rfl hne)
    ((sameElse_updateRow hchange _ _).numbered (h.copies i r hi))
    (fun hnone => absurd hnone hledger) (staged_of_idle rfl),
    horderly.grows, horderly.spawn, horderly.write⟩

/-- A settled ledger with a reservation at its end has only that in flight. -/
theorem onlyInFlight_append (hrows : Numbered rows)
    (hsettled : ∀ row ∈ rows, row.status.inFlight = false) (command : List Text) (effect : Text) :
    OnlyInFlight (rows.length + 1) (rows ++ [reservation rows command effect]) ∧
      ∀ row ∈ rows ++ [reservation rows command effect], row.id = rows.length + 1 →
        row.status = .spawnIntent := by
  have hids : ∀ row ∈ rows, row.id ≠ rows.length + 1 := by
    intro row hrow hid
    have hmem := List.mem_map_of_mem (f := fun row : ProcessRow => row.id) hrow
    rw [hrows, List.mem_range'_1] at hmem
    omega
  refine ⟨⟨⟨_, List.mem_append_right _ List.mem_cons_self, rfl, rfl⟩, fun row hrow hid => ?_,
    fun row hrow hid => ?_⟩, fun row hrow hid => ?_⟩
  · rcases List.mem_append.1 hrow with hrow | hrow
    · exact absurd hid (hids row hrow)
    · rw [List.mem_singleton.1 hrow]
      rfl
  · rcases List.mem_append.1 hrow with hrow | hrow
    · exact hsettled row hrow
    · rw [List.mem_singleton.1 hrow] at hid
      exact absurd rfl hid
  · rcases List.mem_append.1 hrow with hrow | hrow
    · exact absurd hid (hids row hrow)
    · rw [List.mem_singleton.1 hrow]
      rfl

/-- A checked runner reserves a row. -/
theorem Inv.reserve (h : Inv m) {records : List ProcessRow}
    (hi : m.runners i = some ⟨records, .checked⟩) (command : List Text) (effect : Text) :
    Inv ((m.persist true (records ++ [reservation records command effect])).put i
        ⟨records ++ [reservation records command effect], .reserved (records.length + 1)⟩) ∧
      Orderly m ((m.persist true (records ++ [reservation records command effect])).put i
        ⟨records ++ [reservation records command effect], .reserved (records.length + 1)⟩) := by
  obtain ⟨hsame, hsettled⟩ : (∀ rows, m.ledger = some rows → rows = records) ∧
      ∀ row ∈ records, row.status.inFlight = false := h.staged i _ hi
  have hlock := h.held i _ hi nofun
  have hcopy : Numbered records := h.copies i _ hi
  -- a ledger that was never written is the empty copy
  have hledger : m.ledger.getD [] = records := by
    rcases hm : m.ledger with _ | rows
    · rcases h.unwritten hm i _ hi with hnil | hany
      · exact hnil.symm
      · obtain ⟨row, hrow, hflight⟩ := List.any_eq_true.1 hany
        rw [hsettled row hrow] at hflight
        cases hflight
    · exact hsame rows hm
  have hids : ∀ id ∈ m.created, id ∈ records.map (·.id) := by
    intro id hid
    obtain ⟨rows, hrows, hmem⟩ := h.recorded id hid
    rwa [hsame rows hrows] at hmem
  have hnew : records.length + 1 ∉ m.created := by
    intro hid
    have hmem := hids _ hid
    rw [hcopy, List.mem_range'_1] at hmem
    omega
  have hnumbered := numbered_append hcopy command effect
  obtain ⟨honly, hspawn⟩ := onlyInFlight_append hcopy hsettled command effect
  refine ⟨h.act rfl (.inl hlock) ⟨?_, h.nodup, ?_⟩ (fun _ => hlock) hnumbered nofun
    ⟨rfl, honly, hnew, hspawn⟩, ?_, .inl rfl, ?_⟩
  · intro rows hrows
    obtain rfl := Option.some.inj hrows
    exact hnumbered
  · intro id hid
    refine ⟨_, rfl, ?_⟩
    rw [List.map_append]
    exact List.mem_append_left _ (hids id hid)
  · rcases hm : m.ledger with _ | rows
    · exact grows_none _
    · obtain rfl := hsame rows hm
      exact .append rows _
  · exact .inr (.inl ⟨_, by rw [hledger]; rfl, rfl⟩)

/-- A reserved runner creates its process. -/
theorem Inv.create (h : Inv m) {records : List ProcessRow}
    (hi : m.runners i = some ⟨records, .reserved id⟩) :
    Inv { m.put i ⟨records, .created id⟩ with created := m.created ++ [id] } ∧
      Orderly m { m.put i ⟨records, .created id⟩ with created := m.created ++ [id] } := by
  obtain ⟨hledger, honly, hnew, hspawn⟩ : m.ledger = some records ∧ OnlyInFlight id records ∧
      id ∉ m.created ∧ ∀ row ∈ records, row.id = id → row.status = .spawnIntent :=
    h.staged i _ hi
  have hlock := h.held i _ hi nofun
  have hcopy : Numbered records := h.copies i _ hi
  obtain ⟨row, hrow, hid, -⟩ := honly.mem
  have hcoherent : Coherent
      { m.put i ⟨records, .created id⟩ with created := m.created ++ [id] } := by
    refine ⟨h.numbered, ?_, fun id' hid' => ?_⟩
    · exact List.nodup_append.2 ⟨h.nodup, by simp, fun a ha b hb hab =>
        hnew (List.mem_singleton.1 hb ▸ hab ▸ ha)⟩
    · rcases List.mem_append.1 hid' with hid' | hid'
      · exact h.recorded id' hid'
      · obtain rfl := List.mem_singleton.1 hid'
        exact ⟨records, hledger, List.mem_map.2 ⟨row, hrow, hid⟩⟩
  have hwritten (hnone : m.ledger = none) : False := by
    rw [hledger] at hnone
    cases hnone
  refine ⟨h.act rfl (.inl hlock) hcoherent (fun _ => hlock) hcopy
    (fun hnone => (hwritten hnone).elim) ⟨records, hledger, .refl _ _, honly⟩, .refl _,
    .inr ⟨id, records, rfl, hledger, ⟨row, hrow, hid, hspawn row hrow hid⟩, honly.settled⟩,
    .inl rfl⟩

/-- A runner that has created its process records it as running, or stays where it is. -/
theorem Inv.markRunning (h : Inv m) {records : List ProcessRow}
    (hi : m.runners i = some ⟨records, .created id⟩) (pid : ℕ) (persists : Bool) :
    Inv ((m.persist persists (updateRow records id (setRunning pid))).put i
        ⟨updateRow records id (setRunning pid), if persists then .watching id else .created id⟩) ∧
      Orderly m ((m.persist persists (updateRow records id (setRunning pid))).put i
        ⟨updateRow records id (setRunning pid),
          if persists then .watching id else .created id⟩) := by
  have hchange := ownChange_setRunning pid
  obtain ⟨hcoherent, horderly⟩ := h.persist hi rfl hchange persists
  obtain ⟨hlock, rows, hrows, hsame, honly⟩ := h.own hi rfl
  have hcopy : Numbered records := h.copies i _ hi
  have hnew : Numbered (updateRow records id (setRunning pid)) :=
    (sameElse_updateRow hchange _ _).numbered hcopy
  cases persists with
  | false =>
    have hwritten (hnone : m.ledger = none) : False := by
      rw [hrows] at hnone
      cases hnone
    exact ⟨h.act rfl (.inl hlock) ⟨h.numbered, h.nodup, h.recorded⟩ (fun _ => hlock) hnew
      (fun hnone => (hwritten hnone).elim)
      ⟨rows, hrows, hsame.trans (sameElse_updateRow hchange _ _), honly⟩, .quiet rfl rfl⟩
  | true =>
    refine ⟨h.act rfl (.inl hlock) ⟨hcoherent.numbered, hcoherent.nodup, hcoherent.recorded⟩
      (fun _ => hlock) hnew nofun ⟨_, rfl, .refl _ _, ?_⟩,
      horderly.grows, horderly.spawn, horderly.write⟩
    exact honly.sameElse (hsame.trans (sameElse_updateRow hchange _ _))
      (inFlight_updateRow fun _ => rfl)

/-- A runner enters `run`, when the lock is free. -/
theorem Inv.enter (h : Inv m) {records : List ProcessRow}
    (hi : m.runners i = some ⟨records, .idle⟩) (hfree : m.lock = none) :
    Inv { m.put i ⟨records, .entered⟩ with lock := some i } := by
  have hcopy : Numbered records := h.copies i _ hi
  have hunwritten : m.ledger = none → records = [] ∨ records.any (·.status.inFlight) :=
    fun hnone => h.unwritten hnone i _ hi
  exact h.act rfl (.inr ⟨rfl, rfl, .inl hfree⟩) ⟨h.numbered, h.nodup, h.recorded⟩
    (fun _ => rfl) hcopy (fun hnone => ⟨hnone, hunwritten hnone⟩) trivial

/-- A controller makes a runner from the ledger. -/
theorem Inv.load (h : Inv m) (records : List ProcessRow) (hcopy : Numbered records)
    (hempty : m.ledger = none → records = []) : Inv (m.put i ⟨records, .idle⟩) :=
  h.act rfl (.inr ⟨rfl, rfl, .inr rfl⟩) ⟨h.numbered, h.nodup, h.recorded⟩
    (fun hne => absurd rfl hne) hcopy (fun hnone => ⟨hnone, .inl (hempty hnone)⟩)
    (staged_of_idle rfl)

/-- A runner that holds the lock has compared its copy with the ledger. -/
theorem Inv.check (h : Inv m) {records : List ProcessRow}
    (hi : m.runners i = some ⟨records, .entered⟩) (hsame : ¬ m.ledger.any (· ≠ records))
    (hsettled : ¬ records.any (·.status.inFlight)) : Inv (m.put i ⟨records, .checked⟩) := by
  have hlock := h.held i _ hi nofun
  have hcopy : Numbered records := h.copies i _ hi
  have hunwritten : m.ledger = none → records = [] ∨ records.any (·.status.inFlight) :=
    fun hnone => h.unwritten hnone i _ hi
  refine h.act rfl (.inl hlock) ⟨h.numbered, h.nodup, h.recorded⟩ (fun _ => hlock) hcopy
    (fun hnone => ⟨hnone, hunwritten hnone⟩) ⟨fun rows hrows => ?_, fun row hrow => ?_⟩
  · have hledger : m.ledger = some rows := hrows
    rw [hledger] at hsame
    simpa using hsame
  · by_contra hflight
    exact hsettled (List.any_eq_true.2 ⟨row, hrow, by simpa using hflight⟩)

/-- The controller of a runner dies, and with it the runner and its lock. -/
theorem Inv.crash (h : Inv m) (i : ℕ) :
    Inv { m with
      runners := Function.update m.runners i none
      lock := if m.lock = some i then none else m.lock } := by
  have hother : ∀ j r, Function.update m.runners i none j = some r →
      j ≠ i ∧ m.runners j = some r := by
    intro j r hj
    by_cases hne : j = i
    · rw [hne, Function.update_self] at hj
      cases hj
    · exact ⟨hne, by rwa [Function.update_of_ne hne] at hj⟩
  refine ⟨⟨h.numbered, h.nodup, h.recorded⟩, fun j r hj hstage => ?_,
    fun j r hj => h.copies j r (hother j r hj).2,
    fun hnone j r hj => h.unwritten hnone j r (hother j r hj).2,
    fun j r hj => h.staged j r (hother j r hj).2⟩
  obtain ⟨hne, hj'⟩ := hother j r hj
  have hheld := h.held j r hj' hstage
  dsimp only
  rw [if_neg fun hi => hne (Option.some.inj (hheld.symm.trans hi)), hheld]

/-- A runner that has reserved a row leaves without an update. -/
theorem Inv.escape (h : Inv m) {records : List ProcessRow} {stage : Stage}
    (hi : m.runners i = some ⟨records, stage⟩) (hrow : stage.row = some id) :
    Inv (m.leave i records) ∧ Orderly m (m.leave i records) := by
  obtain ⟨hlock, rows, hrows, -, -⟩ := h.own hi hrow
  refine h.leave hlock (h.copies i _ hi) fun hnone => ?_
  rw [hrows] at hnone
  cases hnone

theorem step_inv (h : Inv m) (event : ℕ × RunnerAction) :
    Inv (m.step event) ∧ Orderly m (m.step event) := by
  obtain ⟨i, action⟩ := event
  unfold Machine.step
  dsimp only
  split
  next hi =>
    -- load
    split
    next hnone =>
      exact ⟨h.load [] rfl fun _ => rfl, .quiet rfl rfl⟩
    next rows hrows =>
      split_ifs with hnumbered
      · refine ⟨h.load rows hnumbered fun hnone => ?_, .quiet rfl rfl⟩
        rw [hrows] at hnone
        cases hnone
      · exact ⟨h, .quiet rfl rfl⟩
  next => exact ⟨h.crash i, .quiet rfl rfl⟩
  next records hi =>
    -- enter
    split_ifs with hfree
    · exact ⟨h.enter hi hfree, .quiet rfl rfl⟩
    · exact ⟨h, .quiet rfl rfl⟩
  next records refused hi =>
    -- check
    split_ifs with hrefused
    · exact h.leave (h.held i _ hi nofun) (h.copies i _ hi) fun hnone => h.unwritten hnone i _ hi
    · rw [not_or, not_or] at hrefused
      exact ⟨h.check hi hrefused.1 hrefused.2.1, .quiet rfl rfl⟩
  next records command effect limit persists hi =>
    -- reserve
    have hlock := h.held i _ hi nofun
    have hcopy : Numbered records := h.copies i _ hi
    split_ifs with hlimit hpersists
    · exact h.leave hlock hcopy fun hnone => h.unwritten hnone i _ hi
    · exact h.reserve hi command effect
    · refine h.leave hlock (numbered_append hcopy command effect) fun _ => .inr ?_
      exact List.any_eq_true.2 ⟨_, List.mem_append_right _ List.mem_cons_self, rfl⟩
  next records id persists hi =>
    exact h.close hi rfl (ownChange_setStatus .isolationUnavailable) persists
  next records id hi => exact h.create hi
  next records id pid persists hi => exact h.markRunning hi pid persists
  next records id cancelled persists hi =>
    exact h.close hi rfl (ownChange_setStatus (.aborted cancelled)) persists
  next records id cancelled persists hi =>
    exact h.close hi rfl (ownChange_setStatus (.aborted cancelled)) persists
  next records id cancelled persists hi =>
    exact h.close hi rfl (ownChange_setStatus (.aborted cancelled)) persists
  next records id hi => exact h.escape hi rfl
  next records id hi => exact h.escape hi rfl
  next records id hi => exact h.escape hi rfl
  next records id termination completion persists hi =>
    exact h.close hi rfl (ownChange_setEnded termination completion) persists
  next => exact ⟨h, .quiet rfl rfl⟩

/-! ### Runs -/

/-- A workspace before its first controller. -/
def Machine.start (ledger : Option (List ProcessRow)) : Machine where
  ledger := ledger
  lock := none
  runners _ := none
  created := []

theorem start_inv {ledger : Option (List ProcessRow)}
    (hledger : ∀ rows, ledger = some rows → Numbered rows) : Inv (.start ledger) :=
  ⟨⟨hledger, .nil, nofun⟩, nofun, nofun, fun _ => nofun, nofun⟩

/-- The invariant holds along a run, and the ledger only grows. -/
theorem run_inv (h : Inv m) (events : List (ℕ × RunnerAction)) :
    Inv (Runs.run Machine.step m events) ∧
      Grows m.ledger (Runs.run Machine.step m events).ledger := by
  induction events generalizing m with
  | nil => exact ⟨h, .refl _⟩
  | cons event events ih =>
    obtain ⟨hinv, horderly⟩ := step_inv h event
    obtain ⟨hrun, hgrows⟩ := ih hinv
    exact ⟨hrun, horderly.grows.trans hgrows⟩

theorem Numbered.existsUnique (h : Numbered rows) (hid : id ∈ rows.map (·.id)) :
    ∃! row, row ∈ rows ∧ row.id = id := by
  obtain ⟨row, hrow, rfl⟩ := List.mem_map.1 hid
  have hnodup : (rows.map (·.id)).Nodup := h ▸ List.nodup_range'
  exact ⟨row, ⟨hrow, rfl⟩, fun other hother =>
    List.inj_on_of_nodup_map hnodup hother.1 hrow hother.2⟩

/-- However the calls of the runners interleave and wherever they crash, the rows of the ledger
are numbered and only grow, every process created has one row of its own, and the next action is
orderly too. -/
theorem run_orderly (ledger : Option (List ProcessRow))
    (hledger : ∀ rows, ledger = some rows → Numbered rows)
    (events : List (ℕ × RunnerAction)) :
    let m := Runs.run Machine.step (.start ledger) events
    Grows ledger m.ledger ∧ (∀ rows, m.ledger = some rows → Numbered rows) ∧
      m.created.Nodup ∧
      (∀ id ∈ m.created, ∃ rows, m.ledger = some rows ∧ ∃! row, row ∈ rows ∧ row.id = id) ∧
      ∀ event, Orderly m (m.step event) := by
  intro m
  obtain ⟨hinv, hgrows⟩ := run_inv (start_inv hledger) events
  refine ⟨hgrows, hinv.numbered, hinv.nodup, fun id hid => ?_, fun event => (step_inv hinv event).2⟩
  obtain ⟨rows, hrows, hmem⟩ := hinv.recorded id hid
  exact ⟨rows, hrows, (hinv.numbered rows hrows).existsUnique hmem⟩

/-- Two runners are made from a ledger of one row. The first runs a process and the second, whose
copy is stale then, is refused. -/
theorem run_orderly_stale :
    let row : ProcessRow := ⟨1, [], [], .ended .exited, some 7, some ⟨0, 3, 0, none⟩⟩
    let events := [(0, .load), (1, .load), (0, .enter), (0, .check false),
      (0, .reserve [] [] 40 true), (0, .create), (0, .markRunning 8 true), (1, .enter),
      (0, .finish .exited ⟨0, 5, 2, none⟩ true), (1, .enter), (1, .check false),
      (1, .reserve [] [] 40 true), (1, .create)]
    let m := Runs.run Machine.step (.start (some [row])) events
    m.created = [2] ∧ Grows (some [row]) m.ledger := by
  intro row events m
  have hledger : ∀ rows, some [row] = some rows → Numbered rows := by
    intro rows hrows
    obtain rfl := Option.some.inj hrows
    decide
  exact ⟨rfl, (run_orderly _ hledger events).1⟩

end Runtime
end OpenFoamAgent
