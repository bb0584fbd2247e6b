/-
# What a partitioned payload covers

The tasks that `compile_tasks` returns own the files of the plan in their order, each of
them once. The prompt of every task is within the budget and shows its projection. Every
confirmed fact is in some task, and a task holds the facts that its files are bound to and
those that no file is bound to, with all they depend on (`compileTasks_partitions`).
-/
import OpenFoamAgent.Engineering.AuthoringPartition

namespace OpenFoamAgent
namespace Engineering
namespace Partition

open Python Llm Schemas Worklist

/-! ### The closure -/

theorem exists_of_named {facts : List Fact} {id : Text} {item : Json}
    (h : named facts id = some item) : ⟨id, item⟩ ∈ facts := by
  obtain ⟨fact, hfact, heq⟩ := List.mem_map.1 (Dict.mem_of_get_ofItems h)
  obtain ⟨rfl, rfl⟩ := Prod.mk.inj heq
  exact hfact

theorem dependencies_eq_ok {facts : List Fact} {id : Text} {deps : List Text} :
    dependencies facts id = .ok deps ↔
      ∃ item, named facts id = some item ∧ dependsOn item = .ok deps := by
  unfold dependencies
  cases named facts id with
  | none => simp
  | some item => simp

theorem mem_allDependencies {facts : List Fact} {id : Text} {deps : List Text}
    (h : dependencies facts id = .ok deps) : ∀ dep ∈ deps, dep ∈ allDependencies facts := by
  obtain ⟨item, hitem, hdeps⟩ := dependencies_eq_ok.1 h
  intro dep hdep
  refine List.mem_flatMap.2 ⟨_, exists_of_named hitem, ?_⟩
  rw [hdeps]
  exact hdep

/-- **The closure**: the facts whose identifiers are reached, each of which names a fact. -/
theorem factClosure_ok {facts : List Fact} {ids : List Text} {closure : List Fact}
    (h : factClosure facts ids = .ok closure) :
    (∀ id, Reached (dependencies facts) ids id → ∃ item, named facts id = some item) ∧
      ∀ fact, fact ∈ closure ↔ fact ∈ facts ∧ Reached (dependencies facts) ids fact.id := by
  obtain ⟨selected, hselected, hclosure⟩ := Traversal.bind_eq_ok.1 h
  obtain rfl := Except.ok.inj hclosure
  obtain ⟨hsteps, hreached⟩ := closeOver_ok (fun _ _ => mem_allDependencies)
    (Nat.lt_succ_self _) hselected
  constructor
  · intro id hid
    obtain ⟨deps, hdeps⟩ := hsteps id hid
    obtain ⟨item, hitem, -⟩ := dependencies_eq_ok.1 hdeps
    exact ⟨item, hitem⟩
  · intro fact
    rw [List.mem_filter, decide_eq_true_iff, hreached]

/-! ### The intake of a task -/

/-- The facts of an intake, with those it carries as the provenance of others. -/
def intakeItems (intake : Json) : Except PythonError (List Fact) := do
  return (← intakeFacts intake) ++ (← provenance intake)

/-- The identifiers that a task with some files needs. -/
inductive Needed (facts items : List Fact) (bindings : List Binding) (paths : List Text) :
    Text → Prop
  /-- A fact that one of the files is bound to. -/
  | bound {binding : Binding} {path : Text} (hbinding : binding ∈ bindings)
      (hpath : path ∈ binding.paths) (hfile : path ∈ paths) :
      Needed facts items bindings paths binding.factId
  /-- A fact that no file is bound to. -/
  | unbound {fact : Fact} (hfact : fact ∈ facts)
      (hfree : ∀ binding ∈ bindings, binding.factId = fact.id → binding.paths = []) :
      Needed facts items bindings paths fact.id
  | dependency {id dep : Text} {item : Json} {deps : List Text}
      (h : Needed facts items bindings paths id) (hitem : named items id = some item)
      (hdeps : dependsOn item = .ok deps) (hdep : dep ∈ deps) :
      Needed facts items bindings paths dep

/-- Facts that were read from their items are read from them again. -/
def AsRead (facts : List Fact) : Prop := ∀ fact ∈ facts, Fact.read fact.item = .ok fact

theorem asRead_of_mapM {items : List Json} {facts : List Fact}
    (h : items.mapM Fact.read = .ok facts) : AsRead facts := by
  intro fact hfact
  obtain ⟨item, -, hitem⟩ := Traversal.ok_of_mem_mapM h hfact
  obtain ⟨value, -, hread⟩ := Traversal.bind_eq_ok.1 hitem
  obtain ⟨id, -, heq⟩ := Traversal.bind_eq_ok.1 hread
  obtain rfl := Except.ok.inj heq
  exact hitem

theorem AsRead.mapM {facts : List Fact} (h : AsRead facts) :
    (facts.map (·.item)).mapM Fact.read = .ok facts := by
  induction facts with
  | nil => rfl
  | cons fact facts ih =>
    rw [List.map_cons, List.mapM_cons, h fact List.mem_cons_self,
      ih fun f hf => h f (List.mem_cons_of_mem _ hf)]
    rfl

theorem intakeFacts_eq_ok {intake : Json} {facts : List Fact} :
    intakeFacts intake = .ok facts ↔ ∃ entries items, intake = .dict entries ∧
      Json.lookup entries "facts" = some (.list items) ∧ items.mapM Fact.read = .ok facts := by
  unfold intakeFacts
  constructor
  · intro h
    split at h
    · split at h
      · exact ⟨_, _, rfl, ‹_›, h⟩
      · cases h
    · cases h
  · rintro ⟨entries, items, rfl, hitems, h⟩
    dsimp only
    rw [hitems]
    exact h

/-- What a task carries of the intake. -/
structure Projects (facts items : List Fact) (bindings : List Binding) (paths : List Text)
    (intake : Json) : Prop where
  own : ∃ shown, intakeFacts intake = .ok shown ∧
    (∀ fact ∈ facts, Needed facts items bindings paths fact.id → fact ∈ shown) ∧
    ∀ fact ∈ facts, fact.id ∈ shown.map (·.id) → fact ∈ shown
  carried : ∃ shown, intakeItems intake = .ok shown ∧
    ∀ fact ∈ items, Needed facts items bindings paths fact.id → fact ∈ shown
  resolved : ∀ id, Needed facts items bindings paths id → ∃ fact ∈ items, fact.id = id

theorem provenance_eq_ok {intake : Json} {facts : List Fact} :
    provenance intake = .ok facts ↔ ∃ entries items, intake = .dict entries ∧
      (Json.lookup entries "provenance_dependencies").getD (.list []) = .list items ∧
      items.mapM Fact.read = .ok facts := by
  unfold provenance
  constructor
  · intro h
    obtain ⟨value, hvalue, h⟩ := Traversal.bind_eq_ok.1 h
    obtain ⟨items, hlist, hread⟩ := Traversal.bind_eq_ok.1 h
    unfold Json.getD at hvalue
    split at hvalue
    · obtain rfl := Except.ok.inj hvalue
      unfold Json.items at hlist
      split at hlist
      · obtain rfl := Except.ok.inj hlist
        exact ⟨_, _, rfl, ‹_›, hread⟩
      · cases hlist
    · cases hvalue
  · rintro ⟨entries, items, rfl, hitems, hread⟩
    refine Traversal.bind_eq_ok.2 ⟨_, rfl, Traversal.bind_eq_ok.2 ⟨items, ?_, hread⟩⟩
    rw [hitems]
    rfl

theorem reached_of_needed {facts items : List Fact} {bindings : List Binding} {paths : List Text}
    {id : Text} (h : Needed facts items bindings paths id) :
    Reached (dependencies items) (startIds facts bindings paths) id := by
  induction h with
  | bound hbinding hpath hfile =>
    refine .start (List.mem_append_left _ (List.mem_map.2 ⟨_, ?_, rfl⟩))
    refine List.mem_filter.2 ⟨hbinding, decide_eq_true (.inr ?_)⟩
    exact List.any_eq_true.2 ⟨_, hpath, decide_eq_true hfile⟩
  | @unbound fact hfact hfree =>
    refine .start (List.mem_append_right _ (List.mem_map.2 ⟨_, ?_, rfl⟩))
    refine List.mem_filter.2 ⟨hfact, decide_eq_true fun hmapped => ?_⟩
    obtain ⟨binding, hbinding, hid⟩ := List.mem_map.1 hmapped
    obtain ⟨hmem, hpaths⟩ := List.mem_filter.1 hbinding
    exact of_decide_eq_true hpaths (hfree binding hmem hid)
  | dependency _ hitem hdeps hdep ih =>
    exact .next ih (dependencies_eq_ok.2 ⟨_, hitem, hdeps⟩) hdep

theorem intakeFacts_withClosure {entries : List (Text × Json)} {facts closure : List Fact}
    (h : AsRead closure) :
    intakeFacts (.dict (withClosure entries facts closure)) = .ok (primary facts closure) := by
  have hread : AsRead (primary facts closure) :=
    fun fact hfact => h fact (List.mem_of_mem_filter hfact)
  refine intakeFacts_eq_ok.2 ⟨_, _, rfl, ?_, hread.mapM⟩
  unfold withClosure
  dsimp only
  split_ifs
  · rw [Json.lookup_set_of_ne _ _ (by decide), Json.lookup_set_self]
  · rw [Json.lookup_set_self]

theorem provenance_withClosure {entries : List (Text × Json)} {facts closure : List Fact}
    (h : AsRead closure) :
    provenance (.dict (withClosure entries facts closure)) =
      .ok (if (Json.lookup entries "provenance_dependencies").isSome then secondary facts closure
        else []) := by
  have hread : AsRead (secondary facts closure) :=
    fun fact hfact => h fact (List.mem_of_mem_filter hfact)
  unfold withClosure
  dsimp only
  split_ifs with hkey
  · refine provenance_eq_ok.2 ⟨_, _, rfl, ?_, hread.mapM⟩
    rw [Json.lookup_set_self]
    rfl
  · refine provenance_eq_ok.2 ⟨_, [], rfl, ?_, rfl⟩
    rw [Json.lookup_set_of_ne _ _ (by decide), Option.not_isSome_iff_eq_none.1 hkey]
    rfl

/-- **What a projected intake holds**: everything that a task with the files needs. -/
theorem projectIntake_ok {payload : Json} {paths : List Text} {p : ProjectedIntake}
    (h : projectIntake payload paths = .ok p) :
    ∃ plan intake facts bindings items,
      payload.item "frozen_engineering_plan" = .ok plan ∧
      payload.item "confirmed_intake" = .ok intake ∧ intakeFacts intake = .ok facts ∧
      planBindings plan = .ok bindings ∧ intakeItems intake = .ok items ∧
      Projects facts items bindings paths p.intake := by
  obtain ⟨plan, hplan, h⟩ := Traversal.bind_eq_ok.1 h
  obtain ⟨intake, hintake, h⟩ := Traversal.bind_eq_ok.1 h
  obtain ⟨facts, hfacts, h⟩ := Traversal.bind_eq_ok.1 h
  obtain ⟨bindings, hbindings, h⟩ := Traversal.bind_eq_ok.1 h
  obtain ⟨carried, hcarried, h⟩ := Traversal.bind_eq_ok.1 h
  obtain ⟨closure, hclosure, h⟩ := Traversal.bind_eq_ok.1 h
  obtain ⟨entries, hentries, h⟩ := Traversal.bind_eq_ok.1 h
  obtain rfl := Except.ok.inj h
  obtain ⟨hnamed, hmem⟩ := factClosure_ok hclosure
  obtain ⟨es, items, rfl, -, hread⟩ := intakeFacts_eq_ok.1 hfacts
  obtain rfl := Except.ok.inj hentries
  obtain ⟨es', carriedItems, heq, hkey, hcarriedRead⟩ := provenance_eq_ok.1 hcarried
  obtain rfl := Json.dict.inj heq
  have hclosureRead : AsRead closure := fun fact hfact =>
    (List.mem_append.1 ((hmem fact).1 hfact).1).elim (asRead_of_mapM hread fact)
      (asRead_of_mapM hcarriedRead fact)
  refine ⟨plan, _, facts, bindings, facts ++ carried, hplan, hintake, hfacts, hbindings, ?_, ?_⟩
  · exact Traversal.bind_eq_ok.2 ⟨_, hfacts, Traversal.bind_eq_ok.2 ⟨_, hcarried, rfl⟩⟩
  have hin : ∀ fact ∈ facts ++ carried, Needed facts (facts ++ carried) bindings paths fact.id →
      fact ∈ closure := fun fact hfact hneeded =>
    (hmem fact).2 ⟨hfact, reached_of_needed hneeded⟩
  refine ⟨⟨_, intakeFacts_withClosure hclosureRead, fun fact hfact hneeded => ?_,
      fun fact hfact hshown => ?_⟩,
    ⟨_, Traversal.bind_eq_ok.2 ⟨_, intakeFacts_withClosure hclosureRead,
      Traversal.bind_eq_ok.2 ⟨_, provenance_withClosure hclosureRead, rfl⟩⟩,
      fun fact hfact hneeded => ?_⟩, fun id hneeded => ?_⟩
  · refine List.mem_filter.2 ⟨hin fact (List.mem_append_left _ hfact) hneeded, ?_⟩
    exact decide_eq_true (List.mem_map.2 ⟨fact, hfact, rfl⟩)
  · obtain ⟨other, hother, hid⟩ := List.mem_map.1 hshown
    have hreached := ((hmem other).1 (List.mem_of_mem_filter hother)).2
    refine List.mem_filter.2 ⟨(hmem fact).2 ⟨List.mem_append_left _ hfact, ?_⟩,
      decide_eq_true (List.mem_map.2 ⟨fact, hfact, rfl⟩)⟩
    rwa [← hid]
  · by_cases hprimary : fact.id ∈ facts.map (·.id)
    · refine List.mem_append_left _ (List.mem_filter.2 ⟨hin fact hfact hneeded, ?_⟩)
      exact decide_eq_true hprimary
    · -- a fact that is only carried comes from the key
      rcases List.mem_append.1 hfact with hown | hfact'
      · exact absurd (List.mem_map.2 ⟨fact, hown, rfl⟩) hprimary
      · refine List.mem_append_right _ ?_
        have hsome : (Json.lookup es "provenance_dependencies").isSome := by
          rw [Option.isSome_iff_ne_none]
          intro hnone
          rw [hnone] at hkey
          obtain rfl := Json.list.inj hkey
          cases hcarriedRead
          cases hfact'
        rw [if_pos hsome]
        exact List.mem_filter.2 ⟨hin fact hfact hneeded, decide_eq_true hprimary⟩
  · obtain ⟨item, hitem⟩ := hnamed id (reached_of_needed hneeded)
    exact ⟨_, exists_of_named hitem, rfl⟩

/-! ### The tasks -/

variable {py : Interpreter} {instruction : Text} {payload : Json} {maxChars : ℤ}

theorem project_ok {paths : List Text} {compact : Bool} {result : List (Text × Json)}
    (h : project py payload paths compact = .ok result) :
    ∃ p, projectIntake payload paths = .ok p ∧
      Json.lookup result "confirmed_intake" = some p.intake := by
  obtain ⟨full, -, h⟩ := Traversal.bind_eq_ok.1 h
  obtain ⟨p, hp, h⟩ := Traversal.bind_eq_ok.1 h
  obtain ⟨pack, -, h⟩ := Traversal.bind_eq_ok.1 h
  obtain ⟨plan, -, h⟩ := Traversal.bind_eq_ok.1 h
  obtain ⟨evidence, -, h⟩ := Traversal.bind_eq_ok.1 h
  obtain ⟨carried, -, h⟩ := Traversal.bind_eq_ok.1 h
  obtain ⟨value, -, h⟩ := Traversal.bind_eq_ok.1 h
  obtain ⟨files, -, h⟩ := Traversal.bind_eq_ok.1 h
  obtain ⟨current, -, h⟩ := Traversal.bind_eq_ok.1 h
  obtain ⟨contract, -, h⟩ := Traversal.bind_eq_ok.1 h
  obtain rfl := Except.ok.inj h
  refine ⟨p, hp, ?_⟩
  simp only [Json.update, List.foldl_cons, List.foldl_nil]
  rw [Json.lookup_set_of_ne _ _ (by decide), Json.lookup_set_of_ne _ _ (by decide),
    Json.lookup_set_of_ne _ _ (by decide), Json.lookup_set_self]

/-- What a task of some files is. -/
structure Compiled (instruction : Text) (payload : Json) (maxChars : ℤ) (paths : List Text)
    (task : Json) : Prop where
  owns : taskPaths task = .ok paths
  intake : ∃ p, projectIntake payload paths = .ok p ∧ task.item "confirmed_intake" = .ok p.intake
  prompt : ∃ result, buildBoundedJsonPrompt instruction task maxChars = .ok result

theorem item_dict {entries : List (Text × Json)} {key : String} {value : Json} :
    (Json.dict entries).item key = .ok value ↔ Json.lookup entries key = some value := by
  unfold Json.item
  dsimp only
  cases Json.lookup entries key with
  | none => simp
  | some x => simp

theorem taskOf_ok {plan : Json} {count index : ℕ} {paths : List Text} {compact : Bool}
    {task : List (Text × Json)} (h : taskOf py payload plan count index paths compact = .ok task) :
    taskPaths (.dict task) = .ok paths ∧ ∃ p, projectIntake payload paths = .ok p ∧
      (Json.dict task).item "confirmed_intake" = .ok p.intake := by
  obtain ⟨result, hresult, h⟩ := Traversal.bind_eq_ok.1 h
  obtain rfl := Except.ok.inj h
  obtain ⟨p, hp, hintake⟩ := project_ok hresult
  constructor
  · refine Traversal.bind_eq_ok.2 ⟨_, item_dict.2 (Json.lookup_set_self _ _ _), ?_⟩
    refine Traversal.bind_eq_ok.2 ⟨.ofTexts paths, item_dict.2 ?_, Json.texts_ofTexts paths⟩
    rw [Json.lookup_object]
    rfl
  · refine ⟨p, hp, item_dict.2 ?_⟩
    rw [Json.lookup_set_of_ne _ _ (by decide)]
    exact hintake

theorem compileTask_ok {plan task : Json} {count : ℕ} {batch : (List Text × Bool) × ℕ}
    (h : compileTask py instruction payload plan maxChars count batch = .ok task) :
    Compiled instruction payload maxChars batch.1.1 task := by
  obtain ⟨entries, hentries, h⟩ := Traversal.bind_eq_ok.1 h
  split at h
  · rename_i result hresult
    obtain rfl := Except.ok.inj h
    obtain ⟨hpaths, hintake⟩ := taskOf_ok hentries
    exact ⟨hpaths, hintake, _, hresult⟩
  · split_ifs at h
    · cases h
    · obtain ⟨entries', hentries', h⟩ := Traversal.bind_eq_ok.1 h
      obtain ⟨result, hresult, h⟩ := Traversal.bind_eq_ok.1 h
      obtain rfl := Except.ok.inj h
      obtain ⟨hpaths, hintake⟩ := taskOf_ok hentries'
      exact ⟨hpaths, hintake, _, hresult⟩
  · cases h

/-! ### The partition -/

/-- What `compile_tasks` reads of a payload. -/
structure Contents (payload : Json) where
  plan : Json
  files : List Text
  intake : Json
  facts : List Fact
  items : List Fact
  bindings : List Binding
  plan_eq : payload.item "frozen_engineering_plan" = .ok plan
  files_eq : (plan.item "required_case_files").bind Json.texts = .ok files
  intake_eq : payload.item "confirmed_intake" = .ok intake
  facts_eq : intakeFacts intake = .ok facts
  items_eq : intakeItems intake = .ok items
  bindings_eq : planBindings plan = .ok bindings

theorem Contents.projects (c : Contents payload) {paths : List Text} {p : ProjectedIntake}
    (h : projectIntake payload paths = .ok p) :
    Projects c.facts c.items c.bindings paths p.intake := by
  obtain ⟨plan, intake, facts, bindings, items, hplan, hintake, hfacts, hbindings, hitems, hp⟩ :=
    projectIntake_ok h
  obtain rfl := Except.ok.inj (c.plan_eq.symm.trans hplan)
  obtain rfl := Except.ok.inj (c.intake_eq.symm.trans hintake)
  rw [Except.ok.inj (c.facts_eq.symm.trans hfacts), Except.ok.inj (c.items_eq.symm.trans hitems),
    Except.ok.inj (c.bindings_eq.symm.trans hbindings)]
  exact hp

/-- What the tasks of a payload are together. -/
structure Partitioned (instruction : Text) (maxChars : ℤ) (c : Contents payload)
    (tasks : List Json) : Prop where
  nodup : c.files.Nodup
  assigned : ∃ parts, tasks.mapM taskPaths = .ok parts ∧ parts.flatten = c.files
  bounded : ∀ task ∈ tasks, ∃ result,
    buildBoundedJsonPrompt instruction task maxChars = .ok result ∧
      (result.prompt.length : ℤ) ≤ maxChars ∧
      ∃ shown, Shows task shown ∧ result.prompt = instruction ++ shown.dumps
  covered : ∀ fact ∈ c.facts, ∃ task ∈ tasks, ∃ shown, taskFacts task = .ok shown ∧ fact ∈ shown
  closed : ∀ task ∈ tasks, ∃ paths intake, taskPaths task = .ok paths ∧
    task.item "confirmed_intake" = .ok intake ∧
    Projects c.facts c.items c.bindings paths intake

/-- What `compile_tasks` has checked where it returns. -/
theorem compileTasks_ok {queue : PartitionedQueue}
    (h : compileTasks py instruction payload maxChars = .ok queue) :
    ∃ plan files intake facts parts shown, payload.item "frozen_engineering_plan" = .ok plan ∧
      (plan.item "required_case_files").bind Json.texts = .ok files ∧
      payload.item "confirmed_intake" = .ok intake ∧ intakeFacts intake = .ok facts ∧
      (files.Nodup ∧ files ≠ []) ∧
      (∀ task ∈ queue.tasks, ∃ paths, Compiled instruction payload maxChars paths task) ∧
      (queue.tasks.mapM taskPaths = .ok parts ∧ parts.flatten = files) ∧
      queue.tasks.mapM taskFacts = .ok shown ∧
      facts.map (·.id) ⊆ shown.flatten.map (·.id) := by
  unfold compileTasks at h
  split_ifs at h
  · cases h
  obtain ⟨plan, hplan, h⟩ := Traversal.bind_eq_ok.1 h
  obtain ⟨value, hvalue, h⟩ := Traversal.bind_eq_ok.1 h
  obtain ⟨files, hfiles, h⟩ := Traversal.bind_eq_ok.1 h
  split_ifs at h with hmanifest
  · cases h
  obtain ⟨packing, -, h⟩ := Traversal.bind_eq_ok.1 h
  obtain ⟨packing, -, h⟩ := Traversal.bind_eq_ok.1 h
  obtain ⟨tasks, htasks, h⟩ := Traversal.bind_eq_ok.1 h
  obtain ⟨parts, hparts, h⟩ := Traversal.bind_eq_ok.1 h
  obtain ⟨shown, hshown, h⟩ := Traversal.bind_eq_ok.1 h
  obtain ⟨intake, hintake, h⟩ := Traversal.bind_eq_ok.1 h
  obtain ⟨facts, hfacts, h⟩ := Traversal.bind_eq_ok.1 h
  split_ifs at h with hcoverage
  · cases h
  obtain rfl := Except.ok.inj h
  simp only [not_or, not_not] at hmanifest hcoverage
  refine ⟨plan, files, intake, facts, parts, shown, hplan,
    Traversal.bind_eq_ok.2 ⟨value, hvalue, hfiles⟩, hintake, hfacts, hmanifest, ?_,
    ⟨hparts, hcoverage.1⟩, hshown, hcoverage.2.1⟩
  intro task htask
  obtain ⟨batch, -, hbatch⟩ := Traversal.ok_of_mem_mapM htasks htask
  exact ⟨_, compileTask_ok hbatch⟩

/-- **The partition**: whatever `compile_tasks` returns divides the files of the plan, keeps to
the budget, and covers the confirmed facts and what each task needs. -/
theorem compileTasks_partitions {queue : PartitionedQueue}
    (h : compileTasks py instruction payload maxChars = .ok queue) :
    ∃ c : Contents payload, Partitioned instruction maxChars c queue.tasks := by
  obtain ⟨plan, files, intake, facts, parts, shown, hplan, hfiles, hintake, hfacts, hmanifest,
    hcompiled, hparts, hshown, hcover⟩ := compileTasks_ok h
  have hfirst : ∃ task, task ∈ queue.tasks := by
    refine List.exists_mem_of_ne_nil _ fun hnil => hmanifest.2 ?_
    rw [hnil] at hparts
    cases hparts.1
    exact hparts.2.symm
  obtain ⟨task, htask⟩ := hfirst
  obtain ⟨paths, hpaths⟩ := hcompiled task htask
  obtain ⟨p, hp, -⟩ := hpaths.intake
  obtain ⟨plan', intake', -, bindings, items, hplan', hintake', -, hbindings, hitems, -⟩ :=
    projectIntake_ok hp
  obtain rfl := Except.ok.inj (hplan.symm.trans hplan')
  obtain rfl := Except.ok.inj (hintake.symm.trans hintake')
  let c : Contents payload := {
    plan := plan
    files := files
    intake := intake
    facts := facts
    items := items
    bindings := bindings
    plan_eq := hplan
    files_eq := hfiles
    intake_eq := hintake
    facts_eq := hfacts
    items_eq := hitems
    bindings_eq := hbindings }
  refine ⟨c, hmanifest.1, ⟨parts, hparts⟩, fun task htask => ?_, fun fact hfact => ?_,
    fun task htask => ?_⟩
  · obtain ⟨paths, hpaths⟩ := hcompiled task htask
    obtain ⟨result, hresult⟩ := hpaths.prompt
    exact ⟨result, hresult, buildBoundedJsonPrompt_ok hresult⟩
  · obtain ⟨other, hother, hid⟩ := List.mem_map.1 (hcover (List.mem_map.2 ⟨fact, hfact, rfl⟩))
    obtain ⟨own, hown, hin⟩ := List.mem_flatten.1 hother
    obtain ⟨task, htask, htaskFacts⟩ := Traversal.ok_of_mem_mapM hshown hown
    obtain ⟨paths, hpaths⟩ := hcompiled task htask
    obtain ⟨p, hp, hitem⟩ := hpaths.intake
    obtain ⟨own', hown', -, hwhole⟩ := (c.projects hp).own
    obtain ⟨intake', hintake', hread⟩ := Traversal.bind_eq_ok.1 htaskFacts
    obtain rfl := Except.ok.inj (hitem.symm.trans hintake')
    obtain rfl := Except.ok.inj (hread.symm.trans hown')
    exact ⟨task, htask, own, htaskFacts, hwhole fact hfact (List.mem_map.2 ⟨other, hin, hid⟩)⟩
  · obtain ⟨paths, hpaths⟩ := hcompiled task htask
    obtain ⟨p, hp, hitem⟩ := hpaths.intake
    exact ⟨paths, _, hpaths.owns, hitem, c.projects hp⟩

/-! ### A cavity -/

def jsonText (s : String) : Json := .str s.toList

def jsonTexts (l : List String) : Json := .list (l.map jsonText)

def cavityFact (id : String) (deps : List String) : Json :=
  .object [("id", jsonText id), ("depends_on", jsonTexts deps)]

def cavityBinding (id file : String) : Json :=
  .object [("fact_id", jsonText id), ("case_files", jsonTexts [file])]

/-- Two facts that depend on each other; a file is bound to one of them. -/
def cavityPayload : Json :=
  .object [
    ("frozen_engineering_plan", .object [
      ("required_case_files", jsonTexts ["0/U"]),
      ("confirmed_fact_bindings", .list [cavityBinding "a" "0/U"])]),
    ("confirmed_intake", .object [
      ("facts", .list [cavityFact "a" ["b"], cavityFact "b" ["a"]])]),
    ("implementation_evidence_pack", .object [
      ("records", .list []), ("file_coverage", .list []), ("complete", .bool false)])]

/-- The digests of the plan, of its intake and of its files. -/
def cavityInterpreter : Interpreter where
  repr _ := []
  sha256 data :=
    (match data.length with
      | 96 => "d012170faea72e903cf5ce3b7a85c9b5cc3cdef42ccbe120ef3a723c4b3022f6"
      | 71 => "9d34f3fe50b9de58f9baf60ff090e41abbe537c2e8f0ddd774ef2b96c77d95d6"
      | _ => "83420d50bd4cdfa444bd639a3e439714d924e0c9667d733bc12ca9dc3b6e6180").toList
  order := SetOrder.listed

theorem cavity_tasks : (compileTasks cavityInterpreter [] cavityPayload 5200).toOption.map
    (fun queue => queue.tasks.length) = some 1 := by
  decide +kernel

theorem compileTasks_partitions_cavity : ∃ queue,
    compileTasks cavityInterpreter [] cavityPayload 5200 = .ok queue ∧ queue.tasks.length = 1 ∧
      ∃ c : Contents cavityPayload, Partitioned [] 5200 c queue.tasks := by
  have h := cavity_tasks
  generalize hx : compileTasks cavityInterpreter [] cavityPayload 5200 = x at h ⊢
  cases x with
  | error e => cases h
  | ok queue => exact ⟨queue, rfl, Option.some.inj h, compileTasks_partitions hx⟩

end Partition
end Engineering
end OpenFoamAgent
