/-
# Interrupted preparations of a restart

What holds of the workspace wherever the preparation of a parallel restart may
be interrupted, and when it returns. Each move keeps the invariant `Moving`: an
entry is in the case, or in the archive at a place that the journal names.
-/
import OpenFoamAgent.Runtime.ParallelRestart
import OpenFoamAgent.Workflow.CheckpointStore

namespace OpenFoamAgent
namespace Runtime

open Python Schemas

section
variable {D : Type} (m : RestartModels D)

/-! ### Places -/

namespace CaseFiles

@[simp] theorem entry_without_self (c : CaseFiles D) (place : Place) :
    (c.without place).entry place = none := by
  obtain ⟨_ | processor, name⟩ := place
  · exact Dict.get_erase_self _ _
  · simp [entry, names, without]

theorem entry_without_of_ne (c : CaseFiles D) {place other : Place} (h : other ≠ place) :
    (c.without place).entry other = c.entry other := by
  obtain ⟨_ | processor, name⟩ := place <;> obtain ⟨_ | q, name'⟩ := other
  · exact Dict.get_erase_of_ne _ fun heq : name' = name => h (by rw [heq])
  · rfl
  · rfl
  · by_cases hq : q = processor
    · subst hq
      have hname : name' ≠ name := fun heq => h (by rw [heq])
      simp [entry, names, without, Dict.get_erase_of_ne _ hname]
    · simp [entry, names, without, hq]

/-- The case root, or the directory of a processor in it. -/
def IsRoot (c : CaseFiles D) : Option Text → Prop
  | none => True
  | some processor => isProcessor processor = true ∧ (c.root.get processor).isSome = true

end CaseFiles

/-- A name that is no number, or not later than a time. -/
def NotLater (selected : ℕ) (name : Text) : Prop :=
  ∀ number, parseFloat name = some number → ∃ value, timeKey number = some value ∧ value ≤ selected

/-- Every number among the names is the name of a time that was found. -/
theorem mem_timesFrom {entries : List (Text × Entry D)} {acc found : List (ℕ × Text)}
    (h : timesFrom entries acc = .ok found) :
    (∀ t ∈ acc, t ∈ found) ∧ ∀ name entry, (name, entry) ∈ entries →
      ∀ number, parseFloat name = some number →
        ∃ value, timeKey number = some value ∧ (value, name) ∈ found := by
  induction entries generalizing acc with
  | nil =>
    cases h
    exact ⟨fun _ ht => ht, nofun⟩
  | cons item rest ih =>
    obtain ⟨name, entry⟩ := item
    unfold timesFrom at h
    split at h
    · rename_i hnumber
      obtain ⟨hacc, hrest⟩ := ih h
      refine ⟨hacc, fun name' entry' hmem number hparsed => ?_⟩
      rcases List.mem_cons.1 hmem with heq | hmem
      · cases heq
        cases hnumber.symm.trans hparsed
      · exact hrest name' entry' hmem number hparsed
    · rename_i number hnumber
      split at h
      · rename_i value content hkey
        split_ifs at h
        obtain ⟨hacc, hrest⟩ := ih h
        refine ⟨fun t ht => hacc t (List.mem_append_left _ ht), ?_⟩
        intro name' entry' hmem number' hparsed
        rcases List.mem_cons.1 hmem with heq | hmem
        · cases heq
          cases hnumber.symm.trans hparsed
          exact ⟨value, hkey, hacc _ (List.mem_append_right _ (List.mem_singleton_self _))⟩
        · exact hrest name' entry' hmem number' hparsed
      · cases h

theorem mem_times {entries : Dict Text (Entry D)} {found : List (ℕ × Text)}
    (h : directoryTimes entries = .ok found) {name : Text} {entry : Entry D}
    (hentry : entries.get name = some entry) {number : Binary64}
    (hnumber : parseFloat name = some number) :
    ∃ value, timeKey number = some value ∧ (value, name) ∈ found :=
  (mem_timesFrom h).2 name entry (Dict.mem_items.2 hentry) number hnumber

/-- What is later than the selected time, in a root, is moved. -/
theorem mem_laterPlaces {c : CaseFiles D} {selected : ℕ} {roots : List (Option Text)}
    {moves : List Place} (h : laterPlaces c selected roots = .ok moves) {root : Option Text}
    (hroot : root ∈ roots) {name : Text} {entry : Entry D}
    (hentry : c.entry (root, name) = some entry) :
    (root, name) ∈ moves ∨ NotLater selected name := by
  induction roots generalizing moves with
  | nil => cases hroot
  | cons first rest ih =>
    unfold laterPlaces at h
    split at h
    · cases h
    · rename_i found hfound
      cases hrest : laterPlaces c selected rest with
      | error e =>
        rw [hrest] at h
        cases h
      | ok others =>
        rw [hrest] at h
        cases h
        rcases List.mem_cons.1 hroot with rfl | hroot
        · by_cases hlater : (root, name) ∈
              (found.filter fun t => selected < t.1).map fun t => (root, t.2)
          · exact .inl (List.mem_append_left _ hlater)
          · refine .inr fun number hnumber => ?_
            obtain ⟨value, hkey, hmem⟩ := mem_times hfound hentry hnumber
            refine ⟨value, hkey, not_lt.1 fun hlt => hlater ?_⟩
            exact List.mem_map.2 ⟨_, List.mem_filter.2 ⟨hmem, by simpa using hlt⟩, rfl⟩
        · exact (ih hrest hroot).imp_left (List.mem_append_right _)

/-- The ranks are all the processor directories of the case. -/
theorem mem_ranks {c : CaseFiles D} {count : ℕ} {roots : List Text} (h : ranks c count = .ok roots)
    {processor : Text} (hroot : c.IsRoot (some processor)) : processor ∈ roots := by
  unfold ranks at h
  dsimp only at h
  split_ifs at h with hranks
  cases h
  simp only [Bool.and_eq_true, List.all_eq_true] at hranks
  obtain ⟨entry, hentry⟩ := Option.isSome_iff_exists.1 hroot.2
  have hname : processor ∈ c.root.items.map Prod.fst :=
    List.mem_map.2 ⟨_, Dict.mem_items.2 hentry, rfl⟩
  exact List.contains_iff_mem.1 (hranks.1.1 processor (List.mem_filter.2 ⟨hname, hroot.1⟩))

/-! ### What the checks in front of the first step found -/

theorem inspectParallelRestart_eq_ok {c : CaseFiles D} {plan : EngineeringPlan}
    {timeName : Option Text} {r : ExecutionSpec × Snapshot × List (Option ℕ × RestartError)}
    (h : inspectParallelRestart m c plan timeName = .ok r) : plan.execution = some r.1 := by
  unfold inspectParallelRestart at h
  split at h
  · cases h
  · rename_i execution hexecution
    split_ifs at h
    repeat (split at h; · cases h)
    cases hfirst : firstSnapshot m c plan execution timeName.isNone ‹_› [] with
    | error e =>
      rw [hfirst] at h
      cases h
    | ok found =>
      rw [hfirst] at h
      cases h
      exact hexecution

theorem checkPreparation_eq_ok {d : Disk D} {plan : EngineeringPlan} {timeName : Option Text}
    {p : Preparation} (h : checkPreparation m d plan timeName = .ok p) :
    plan.execution = some p.execution ∧ directoryTime p.snapshot.timeName = some p.selected ∧
      d.journal = none := by
  unfold checkPreparation at h
  split at h
  · cases h
  · rename_i execution found rejected hfound
    split at h
    · cases h
    · rename_i selected hselected
      split at h
      · cases h
      · split at h
        · cases h
        · split_ifs at h with hjournal
          split at h
          · cases h
          · cases h
            refine ⟨inspectParallelRestart_eq_ok m hfound, ?_, by simpa using hjournal⟩
            unfold selectedTime at hselected
            split at hselected
            · cases hselected
            · cases hselected
              assumption

/-- A journal refuses every preparation, in front of its first step. -/
theorem prepareParallelRestart_of_journal {d : Disk D} (h : d.journal.isSome = true)
    (plan : EngineeringPlan) (timeName : Option Text) (id : Text) :
    ∃ e, prepareParallelRestart m d plan timeName id = .raised e := by
  unfold prepareParallelRestart
  cases hchecked : checkPreparation m d plan timeName with
  | error e => exact ⟨e, rfl⟩
  | ok p =>
    obtain ⟨-, -, hjournal⟩ := checkPreparation_eq_ok m hchecked
    rw [hjournal] at h
    cases h

/-! ### Interruptions -/

/-- An entry stands in the archive of an intent, at a place that the intent names. -/
structure Archived (intent : Intent) (s : Disk D) (place : Place) (entry : Entry D) : Prop where
  named : place ∈ intent.moves
  held : ∃ archive, s.archives intent.archive = some archive ∧
    archive.outputs.get place = some entry

/-- The intent is the journal or, when the journal is gone, the record of its archive. -/
def Journalled (s : Disk D) (intent : Intent) : Prop :=
  s.journal = some (some intent) ∨ s.journal = none ∧
    ∃ archive, s.archives intent.archive = some archive ∧ archive.transaction = some intent

/-- The machine, with the journal of a workspace. -/
def Disk.hostOf (s : Disk D) (host : Workflow.ControllerHost) : Workflow.ControllerHost :=
  { host with restartJournal := s.journal.isSome }

/-- What holds wherever the preparation of a restart of `d` may be interrupted. -/
structure Interrupted (d : Disk D) (plan : EngineeringPlan) (id : Text) (s : Disk D) : Prop where
  /-- Everything is still in its place, or in the archive that the journal names. -/
  kept : ∀ place entry, d.case.entry place = some entry → s.case.entry place = some entry ∨
    ∃ intent, Journalled s intent ∧ Archived intent s place entry
  /-- Without a journal only the archive directory is there, or the receipt is verified. -/
  unguarded : s.journal = none → s = d.makeArchive id ∨
    ∃ execution envelope, plan.execution = some execution ∧ s.receipt = some envelope ∧
      verifyRestart m s.case s.receipt s.receiptLink (updatedPlan m plan execution envelope) =
        .ok envelope.receipt
  /-- With a journal, preparations and checkpoints are refused. -/
  refused : s.journal.isSome = true →
    (∀ plan' timeName id', ∃ e, prepareParallelRestart m s plan' timeName id' = .raised e) ∧
      ∀ host agent file reconcile,
        ∃ e, Workflow.load (s.hostOf host) agent file reconcile = .error e

/-- What holds when the preparation returns. -/
structure Prepared (s : Disk D) (result : EngineeringPlan × Envelope) : Prop where
  journal : s.journal = none
  receipt : s.receipt = some result.2
  verified : verifyRestart m s.case s.receipt s.receiptLink result.1 = .ok result.2.receipt
  notLater : ∃ selected, directoryTime result.2.receipt.snapshot.timeName = some selected ∧
    ∀ root name entry, s.case.IsRoot root → s.case.entry (root, name) = some entry →
      NotLater selected name

/-- Moves are under way: those of the intent that are not in `rest` are made. -/
structure Moving (d : Disk D) (intent : Intent) (rest : List Place) (s : Disk D) : Prop where
  journal : s.journal = some (some intent)
  archive : (s.archives intent.archive).isSome = true
  kept : ∀ place entry, d.case.entry place = some entry →
    s.case.entry place = some entry ∨ Archived intent s place entry
  original : ∀ place entry, s.case.entry place = some entry → d.case.entry place = some entry
  gone : ∀ place ∈ intent.moves, place ∈ rest ∨ s.case.entry place = none

variable {m} {d s : Disk D} {plan : EngineeringPlan} {id : Text} {intent : Intent}
  {place : Place} {rest : List Place}

theorem load_of_journal (h : s.journal.isSome = true) (host : Workflow.ControllerHost)
    (agent : Workflow.EngineeringAgent) (file : Workflow.CheckpointFile) (reconcile : Bool) :
    ∃ e, Workflow.load (s.hostOf host) agent file reconcile = .error e := by
  refine Workflow.error_of_not_ok fun r hr => ?_
  obtain ⟨agent', state⟩ := r
  obtain ⟨payload, saved, records, s', hl⟩ := Workflow.load_eq_ok hr
  cases h.symm.trans (Workflow.checkQuiet_eq_ok.1 hl.quiet).2.1

/-- Behind the archive directory, as long as nothing has moved. -/
theorem interrupted_of_case (hcase : s.case = d.case) (hjournal : s.journal.isSome = true) :
    Interrupted m d plan id s where
  kept place entry h := .inl (hcase ▸ h)
  unguarded hnone := by
    rw [hnone] at hjournal
    cases hjournal
  refused h := ⟨prepareParallelRestart_of_journal m h, load_of_journal h⟩

theorem interrupted_makeArchive (hjournal : d.journal = none) :
    Interrupted m d plan id (d.makeArchive id) where
  kept _ _ h := .inl h
  unguarded _ := .inl rfl
  refused h := by
    have hnone : (d.makeArchive id).journal = none := hjournal
    rw [hnone] at h
    cases h

namespace Moving

theorem interrupted (h : Moving d intent rest s) : Interrupted m d plan id s where
  kept place entry hentry :=
    (h.kept place entry hentry).imp_right fun harchived => ⟨intent, .inl h.journal, harchived⟩
  unguarded hnone := by
    cases h.journal.symm.trans hnone
  refused hsome := ⟨prepareParallelRestart_of_journal m hsome, load_of_journal hsome⟩

/-- A change of an archive that keeps what was moved into it. -/
theorem updateArchive (h : Moving d intent rest s) (change : Archive D → Archive D)
    (hchange : ∀ archive, (change archive).outputs = archive.outputs) :
    Moving d intent rest (s.updateArchive intent.archive change) where
  journal := h.journal
  archive := by simpa [Disk.updateArchive] using h.archive
  kept place entry hentry := by
    refine (h.kept place entry hentry).imp_right fun harchived => ⟨harchived.named, ?_⟩
    obtain ⟨archive, harchive, hget⟩ := harchived.held
    exact ⟨change archive, by simp [Disk.updateArchive, harchive], by rwa [hchange]⟩
  original := h.original
  gone := h.gone

/-- A step that leaves the journal, the archives and the entries as they are. -/
theorem congr {s' : Disk D} (h : Moving d intent rest s) (hjournal : s'.journal = s.journal)
    (harchives : s'.archives = s.archives) (hentry : s'.case.entry = s.case.entry) :
    Moving d intent rest s' where
  journal := hjournal.trans h.journal
  archive := harchives ▸ h.archive
  kept place entry hd := by
    rw [hentry]
    exact (h.kept place entry hd).imp_right fun ha => ⟨ha.named, harchives ▸ ha.held⟩
  original := hentry ▸ h.original
  gone := hentry ▸ h.gone

/-- One move. -/
theorem moveInto (h : Moving d intent (place :: rest) s) (hplace : place ∈ intent.moves)
    {entry : Entry D} (hentry : s.case.entry place = some entry) :
    Moving d intent rest (s.moveInto intent.archive place entry) where
  journal := h.journal
  archive := by simpa [Disk.moveInto, Disk.updateArchive] using h.archive
  kept other content hother := by
    obtain ⟨archive, harchive⟩ := Option.isSome_iff_exists.1 h.archive
    have hmoved : (s.moveInto intent.archive place entry).archives intent.archive =
        some { archive with outputs := archive.outputs.insert place entry } := by
      simp [Disk.moveInto, Disk.updateArchive, harchive]
    by_cases heq : other = place
    · subst heq
      -- The entry in the case is the one that was there before.
      cases (h.original other entry hentry).symm.trans hother
      exact .inr ⟨hplace, _, hmoved, Dict.get_insert_self _ _ _⟩
    · rcases h.kept other content hother with hcase | harchived
      · exact .inl ((s.case.entry_without_of_ne heq).trans hcase)
      · obtain ⟨archive', harchive', hget⟩ := harchived.held
        cases harchive.symm.trans harchive'
        exact .inr ⟨harchived.named, _, hmoved, (Dict.get_insert_of_ne _ _ heq).trans hget⟩
  original other content hother := by
    by_cases heq : other = place
    · subst heq
      cases (s.case.entry_without_self other).symm.trans hother
    · exact h.original other content ((s.case.entry_without_of_ne heq).symm.trans hother)
  gone other hother := by
    by_cases heq : other = place
    · subst heq
      exact .inr (s.case.entry_without_self other)
    · refine (h.gone other hother).imp (fun hmem => (List.mem_cons.1 hmem).resolve_left heq)
        fun hnone => (s.case.entry_without_of_ne heq).trans hnone

end Moving

/-- The result of a verification is the content of the receipt. -/
theorem verifyRestart_eq_ok {c : CaseFiles D} {envelope : Envelope} {linked : Bool}
    {receipt : Receipt} (h : verifyRestart m c (some envelope) linked plan = .ok receipt) :
    receipt = envelope.receipt := by
  unfold verifyRestart at h
  split at h
  · cases h
  · split at h
    · cases h
    · dsimp only at h
      split_ifs at h
      split at h
      · cases h
      · split at h
        · cases h
        · split_ifs at h
          cases h
          rfl

/-! ### The transaction, phase by phase -/

/-- What a computation of the transaction from `s` keeps, and what it returns. -/
abbrev Guarded (m : RestartModels D) (d : Disk D) (plan : EngineeringPlan) (id : Text)
    (s : Disk D) (t : Transaction D) : Prop :=
  t.Crashes (Interrupted m d plan id) (Prepared m) s

/-- No root of the case has a later time than the selected one. -/
def Settled (s : Disk D) (selected : ℕ) : Prop :=
  ∀ root name entry, s.case.IsRoot root → s.case.entry (root, name) = some entry →
    NotLater selected name

theorem finishTransaction_guarded {execution : ExecutionSpec} {envelope : Envelope} {selected : ℕ}
    (hm : Moving d intent [] s) (hplan : plan.execution = some execution)
    (hreceipt : s.receipt = some envelope)
    (hselected : directoryTime envelope.receipt.snapshot.timeName = some selected)
    (hsettled : Settled s selected) :
    Guarded m d plan id s (finishTransaction m intent.archive intent
      (updatedPlan m plan execution envelope) envelope s) := by
  unfold finishTransaction
  split
  · exact .raised _
  · rename_i receipt hverify
    have hverified : verifyRestart m s.case s.receipt s.receiptLink
        (updatedPlan m plan execution envelope) = .ok envelope.receipt := by
      rw [hreceipt] at hverify ⊢
      rw [hverify, verifyRestart_eq_ok hverify]
    obtain ⟨archive, harchive⟩ := Option.isSome_iff_exists.1 hm.archive
    have hrecorded := hm.updateArchive
      (fun archive => { archive with transaction := some intent }) fun _ => rfl
    refine .after hrecorded.interrupted (.after ?_ (.returned ?_))
    · constructor
      · intro place entry hentry
        refine (hrecorded.kept place entry hentry).imp_right fun harchived => ?_
        exact ⟨intent, .inr ⟨rfl, { archive with transaction := some intent },
          by simp [Disk.updateArchive, harchive], rfl⟩, harchived.named, harchived.held⟩
      · exact fun _ => .inr ⟨execution, envelope, hplan, hreceipt, hverified⟩
      · nofun
    · exact ⟨rfl, hreceipt, hverified, selected, hselected, hsettled⟩

theorem placeReceipt_guarded {execution : ExecutionSpec} {envelope : Envelope} {selected : ℕ}
    (hm : Moving d intent [] s) (hplan : plan.execution = some execution)
    (hselected : directoryTime envelope.receipt.snapshot.timeName = some selected)
    (hsettled : Settled s selected) :
    Guarded m d plan id s (placeReceipt m intent.archive intent
      (updatedPlan m plan execution envelope) envelope s) := by
  unfold placeReceipt
  split_ifs
  · exact .raised _
  · have hstaged : ∀ temporary, Moving d intent [] { s with temporary := temporary } :=
      fun _ => hm.congr rfl rfl rfl
    have hplaced : Moving d intent [] { s with temporary := none, receipt := some envelope } :=
      hm.congr rfl rfl rfl
    exact .after (hstaged _).interrupted (.after (hstaged _).interrupted
      (.after hplaced.interrupted
        (finishTransaction_guarded hplaced hplan rfl hselected hsettled)))

theorem writeReceipt_guarded {p : Preparation} (hm : Moving d intent [] s)
    (hplan : plan.execution = some p.execution)
    (hselected : directoryTime p.snapshot.timeName = some p.selected)
    (hsettled : Settled s p.selected) :
    Guarded m d plan id s (writeReceipt m intent.archive plan p intent s) := by
  unfold writeReceipt
  split
  · exact .raised _
  · have hwritten : Moving d intent []
        { s with case := { s.case with controlDict := some p.modified } } := hm.congr rfl rfl rfl
    refine .after hwritten.interrupted ?_
    split
    · exact .raised _
    · exact placeReceipt_guarded hwritten hplan hselected hsettled

/-- The moves keep everything, whatever their number. -/
theorem moveOutputs_guarded {next : Disk D → Transaction D}
    (hnext : ∀ s', Moving d intent [] s' → Guarded m d plan id s' (next s'))
    (hrest : ∀ place ∈ rest, place ∈ intent.moves) (hm : Moving d intent rest s) :
    Guarded m d plan id s (moveOutputs intent.archive next rest s) := by
  induction rest generalizing s with
  | nil => exact hnext s hm
  | cons place rest ih =>
    obtain ⟨hplace, hrest⟩ := List.forall_mem_cons.1 hrest
    unfold moveOutputs
    split
    · exact .raised _
    · rename_i entry hentry
      have hmoved := hm.moveInto hplace hentry
      exact .after hmoved.interrupted (ih hrest hmoved)

/-- When nothing is left to be moved, no root has a later time. -/
theorem Moving.settled {roots : List Text} {count selected : ℕ} (hm : Moving d intent [] s)
    (hroots : ranks d.case count = .ok roots)
    (hmoves : laterPlaces d.case selected (roots.map some ++ [none]) = .ok intent.moves) :
    Settled s selected := by
  intro root name entry hroot hentry
  have hmem : root ∈ roots.map some ++ [none] := by
    cases root with
    | none => exact List.mem_append_right _ (List.mem_singleton_self _)
    | some processor =>
      obtain ⟨content, hcontent⟩ := Option.isSome_iff_exists.1 hroot.2
      have hd : d.case.root.get processor = some content :=
        hm.original (none, processor) content hcontent
      have hprocessor : d.case.IsRoot (some processor) :=
        ⟨hroot.1, Option.isSome_iff_exists.2 ⟨content, hd⟩⟩
      exact List.mem_append_left _ (List.mem_map.2 ⟨_, mem_ranks hroots hprocessor, rfl⟩)
  refine (mem_laterPlaces hmoves hmem (hm.original _ _ hentry)).resolve_left fun hmoved => ?_
  cases hentry.symm.trans ((hm.gone _ hmoved).resolve_left List.not_mem_nil)

theorem runTransaction_guarded {p : Preparation} {roots : List Text} {count : ℕ}
    (hplan : plan.execution = some p.execution)
    (hselected : directoryTime p.snapshot.timeName = some p.selected)
    (hroots : ranks d.case count = .ok roots) :
    Guarded m d plan id (d.makeArchive id)
      (runTransaction m id plan p roots (d.makeArchive id)) := by
  unfold runTransaction
  split
  · exact .raised _
  · rename_i moves hmoves
    let intent : Intent := ⟨id, p.snapshot.timeName, moves, ⟨p.original⟩⟩
    have hstart : Moving d intent moves
        { d.makeArchive id with journal := some (some intent) } :=
      { journal := rfl
        archive := by simp [Disk.makeArchive, intent]
        kept := fun _ _ h => .inl h
        original := fun _ _ h => h
        gone := fun _ h => .inl h }
    have hsaved := hstart.updateArchive
      (fun archive => { archive with controlBefore := some p.original }) fun _ => rfl
    refine .after (interrupted_of_case rfl rfl) (.after hstart.interrupted
      (.after hsaved.interrupted (moveOutputs_guarded (fun s' hs' => ?_) (fun _ h => h) hsaved)))
    exact writeReceipt_guarded hs' hplan hselected (hs'.settled hroots hmoves)

end

/-- **An interrupted preparation keeps everything.** Behind each step every entry of the case root
and of the processor directories is in its place, or in the archive that the journal names;
without the journal nothing but the archive directory is new, or the receipt is verified, and with
it checkpoints and preparations are refused. When the preparation returns, the journal is gone, no
root has a later time than the selected one, and the returned plan verifies. -/
theorem prepareParallelRestart_interrupted {D : Type} (m : RestartModels D) (d : Disk D)
    (plan : EngineeringPlan) (timeName : Option Text) (id : Text) :
    let t := prepareParallelRestart m d plan timeName id
    (∀ s ∈ t.states, Interrupted m d plan id s) ∧
      ∀ result, t.result = .ok result → Prepared m (t.last d) result := by
  suffices h : Guarded m d plan id d (prepareParallelRestart m d plan timeName id) from
    ⟨h.interrupted, h.returns⟩
  unfold prepareParallelRestart
  split
  · exact .raised _
  · rename_i p hchecked
    obtain ⟨hplan, hselected, hjournal⟩ := checkPreparation_eq_ok m hchecked
    split_ifs
    · exact .raised _
    · refine .after (interrupted_makeArchive hjournal) ?_
      split
      · exact .raised _
      · rename_i roots hroots
        exact runTransaction_guarded hplan hselected hroots

/-- A case on two ranks, with three times on each of them and two in the case root. -/
def rankedDisk : Disk ℕ where
  case :=
    { root := .ofItems [("processor0".toList, .directory 0), ("processor1".toList, .directory 1),
        ("0".toList, .directory 2), ("2".toList, .directory 3)]
      processors _ := .ofItems [("0".toList, .directory 4), ("1".toList, .directory 5),
        ("2".toList, .directory 6)]
      controlDict := some "startTime 0;".toList
      decomposeParDict := some [] }
  archives _ := none

/-- The receipt of a restart of `rankedDisk` at the time `1`. -/
def rankedReceipt : Receipt where
  snapshot :=
    { timeName := "1".toList
      ranks := 2
      files := []
      executionWithoutRestart :=
        ⟨{ driver := "foamRun".toList, driverProviderId := "org".toList, scopes := [{}] }⟩
      intakeSha256 := [] }
  rejected := []
  archive := "a".toList
  originalControlSha256 := ⟨"startTime 0;".toList⟩

/-- Ranks whose meshes and fields read no files, and an interval from `0` to `3`. -/
def rankedModels : RestartModels ℕ where
  parallel _ := .onRanks 0
  restart document := if document = [] then none else some ⟨"1".toList, ⟨rankedReceipt⟩⟩
  withRestart _ reference := if reference.isSome then "restart".toList else []
  inspectRank _ _ _ _ := .ok []
  decomposition _ _ := some ⟨[], ⟨[]⟩, 0⟩
  arrange _ := []
  interval _ _ _ := .ok ⟨true, .finite false 0, parseFloat "3".toList⟩
  rewrite _ name := .ok ("startTime ".toList ++ name ++ ";".toList)
  refusesWrite _ _ := none
  exceedsSize _ := none

/-- The archive directory of a preparation that returns is made in front of its journal. -/
theorem archive_without_journal :
    let t := prepareParallelRestart rankedModels rankedDisk Workflow.rankedPlan
      (some "1".toList) "a".toList
    t.result.isOk = true ∧ (rankedDisk.archives "a".toList).isNone = true ∧
      ∃ s ∈ t.states, (s.archives "a".toList).isSome = true ∧ s.journal = none ∧
        s.receipt = none := by
  intro t
  have hresult : t.result.isOk = true := by decide +kernel
  have hstate : t.states.any (fun s => (s.archives "a".toList).isSome && s.journal.isNone &&
      s.receipt.isNone) = true := by decide +kernel
  obtain ⟨s, hs, h⟩ := List.any_eq_true.1 hstate
  simp only [Bool.and_eq_true, Option.isNone_iff_eq_none] at h
  exact ⟨hresult, rfl, s, hs, h.1.1, h.1.2, h.2⟩

end Runtime
end OpenFoamAgent
