/-
# The history of mesh operations over a run

`MeshDependencyGraph.register` of `contracts/mesh_dependencies.py`, and the graph
objects of a run: each reads the registry, appends operations to its own list and
replaces the registry by it. In whatever order the calls come, the parents of an
operation are the earlier ones whose outputs overlap its inputs, and the registry
is accepted again as it was written (`MeshHistory.lawful_run`).

On such a history both searches of `dependencies` are exact: the operations are
those upstream of the region (`mem_withAncestors`), and the paths are the mesh
itself, theirs, and what the files there include (`dependencies_of_run`).
-/
import Mathlib.Logic.Relation
import OpenFoamAgent.Engineering.MeshDependencies
import OpenFoamAgent.Library.Runs
import OpenFoamAgent.Library.Traversal

namespace OpenFoamAgent
namespace Engineering

open Python Schemas Workspace

/-! ### Registration -/

/-- The arguments of `register`. -/
structure MeshRegistration where
  inputs : List Text
  outputs : List Text
  regions : List Text
  command : Document := []
  conservative : Bool := false

/-- The exceptions that `register` raises before it appends an operation. -/
inductive RegisterError where
  | path (e : MeshError)
  /-- `A mesh dependency operation must have output paths.` -/
  | noOutputs
  /-- `Mesh dependency history limit reached; explicit compaction required.` -/
  | historyLimit
  deriving DecidableEq

/-- `sorted({self._path(p) for p in paths})`. -/
def meshPaths (paths : List Text) : Except MeshError (List Text) :=
  match paths.mapM meshPath with
  | .error e => .error e
  | .ok paths => .ok (paths.dedup.insertionSort (· ≤ ·))

/-- The operations with an output that overlaps one of the inputs. -/
def parentsOf (operations : List MeshOperation) (inputs : List Text) : List ℕ :=
  (List.range operations.length).filter fun index =>
    operations[index]?.any fun node => inputs.any fun p => node.outputs.any (meshOverlap p)

/-- The operation that `register` appends. -/
def MeshRegistration.operation (r : MeshRegistration) (operations : List MeshOperation) :
    Except RegisterError MeshOperation :=
  match meshPaths r.inputs with
  | .error e => .error (.path e)
  | .ok inputs =>
    match meshPaths r.outputs with
    | .error e => .error (.path e)
    | .ok outputs =>
      if outputs = [] then .error .noOutputs
      else if 10000 ≤ operations.length then .error .historyLimit
      else .ok {
        inputs, outputs
        parents := parentsOf operations inputs
        regions := r.regions.dedup.insertionSort (· ≤ ·)
        command := r.command
        conservative := r.conservative }

theorem mem_parentsOf {operations : List MeshOperation} {inputs : List Text} {index : ℕ} :
    index ∈ parentsOf operations inputs ↔ ∃ earlier, operations[index]? = some earlier ∧
      ∃ p ∈ inputs, ∃ q ∈ earlier.outputs, meshOverlap p q = true := by
  rw [parentsOf, List.mem_filter, List.mem_range]
  constructor
  · rintro ⟨hindex, hany⟩
    obtain ⟨earlier, hearlier⟩ : ∃ earlier, operations[index]? = some earlier :=
      ⟨_, List.getElem?_eq_getElem hindex⟩
    rw [hearlier, Option.any_some] at hany
    obtain ⟨p, hp, hq⟩ := List.any_eq_true.1 hany
    obtain ⟨q, hq, hoverlap⟩ := List.any_eq_true.1 hq
    exact ⟨earlier, hearlier, p, hp, q, hq, hoverlap⟩
  · rintro ⟨earlier, hearlier, p, hp, q, hq, hoverlap⟩
    refine ⟨(List.getElem?_eq_some_iff.1 hearlier).1, ?_⟩
    rw [hearlier, Option.any_some]
    exact List.any_eq_true.2 ⟨p, hp, List.any_eq_true.2 ⟨q, hq, hoverlap⟩⟩

/-- The path of an operation is its own path. -/
theorem meshPath_idem {path p : Text} (h : meshPath path = .ok p) : meshPath p = .ok p := by
  unfold meshPath at h
  dsimp only at h
  split_ifs at h with hforeign
  obtain rfl := Except.ok.inj h
  rw [not_or, not_or] at hforeign
  obtain ⟨hslash, hdots, htop⟩ := hforeign
  unfold meshPath
  dsimp only
  rw [pathParts_rdropWhile, if_neg, List.rdropWhile_idempotent]
  rw [not_or, not_or]
  refine ⟨fun hhead => hslash ?_, hdots, htop⟩
  obtain ⟨rest, hrest⟩ := List.rdropWhile_prefix (· == '/') path
  rw [← hrest, List.head?_append, hhead, Option.some_or]

theorem meshPaths_eq_ok {paths ps : List Text} (h : meshPaths paths = .ok ps) :
    ∀ p ∈ ps, meshPath p = .ok p := by
  unfold meshPaths at h
  split at h
  · cases h
  · rename_i qs hqs
    obtain rfl := Except.ok.inj h
    intro p hp
    rw [List.mem_insertionSort, List.mem_dedup] at hp
    obtain ⟨path, -, hpath⟩ := Traversal.ok_of_mem_mapM hqs hp
    exact meshPath_idem hpath

/-- What `register` appends. -/
theorem MeshRegistration.operation_eq_ok {r : MeshRegistration} {operations : List MeshOperation}
    {node : MeshOperation} (h : r.operation operations = .ok node) :
    node.parents = parentsOf operations node.inputs ∧
      ∀ p ∈ node.inputs ++ node.outputs, meshPath p = .ok p := by
  unfold MeshRegistration.operation at h
  rcases hinputs : meshPaths r.inputs with e | inputs
  · rw [hinputs] at h
    cases h
  · rcases houtputs : meshPaths r.outputs with e | outputs
    · rw [hinputs, houtputs] at h
      cases h
    · rw [hinputs, houtputs] at h
      dsimp only at h
      split_ifs at h
      obtain rfl := Except.ok.inj h
      refine ⟨rfl, fun p hp => ?_⟩
      rcases List.mem_append.1 hp with hp | hp
      · exact meshPaths_eq_ok hinputs p hp
      · exact meshPaths_eq_ok houtputs p hp

/-! ### Lawful histories -/

/-- An operation reads what an earlier one wrote. -/
def ReadsFrom (node earlier : MeshOperation) : Prop :=
  ∃ p ∈ node.inputs, ∃ q ∈ earlier.outputs, meshOverlap p q = true

/-- Every operation was registered on the history before it. -/
structure Chronological (operations : List MeshOperation) : Prop where
  parents : ∀ {index : ℕ} {node : MeshOperation}, operations[index]? = some node →
    node.parents = parentsOf (operations.take index) node.inputs
  paths : ∀ {index : ℕ} {node : MeshOperation}, operations[index]? = some node →
    ∀ p ∈ node.inputs ++ node.outputs, meshPath p = .ok p

namespace Chronological

variable {operations : List MeshOperation}

theorem nil : Chronological [] where
  parents := fun h => by cases h
  paths := fun h => by cases h

/-- One more operation. -/
theorem append (h : Chronological operations) {node : MeshOperation}
    (hparents : node.parents = parentsOf operations node.inputs)
    (hpaths : ∀ p ∈ node.inputs ++ node.outputs, meshPath p = .ok p) :
    Chronological (operations ++ [node]) := by
  have hcases : ∀ {index other}, (operations ++ [node])[index]? = some other →
      (index < operations.length ∧ operations[index]? = some other) ∨
        (index = operations.length ∧ other = node) := by
    intro index other hother
    rcases Nat.lt_trichotomy index operations.length with hlt | rfl | hgt
    · exact .inl ⟨hlt, by rwa [List.getElem?_append_left hlt] at hother⟩
    · rw [List.getElem?_concat_length] at hother
      exact .inr ⟨rfl, (Option.some.inj hother).symm⟩
    · have hbound := (List.getElem?_eq_some_iff.1 hother).1
      rw [List.length_append, List.length_singleton] at hbound
      omega
  constructor
  · intro index other hother
    rcases hcases hother with ⟨hlt, hother⟩ | ⟨rfl, rfl⟩
    · rw [List.take_append_of_le_length hlt.le]
      exact h.parents hother
    · rw [List.take_left]
      exact hparents
  · intro index other hother
    rcases hcases hother with ⟨-, hother⟩ | ⟨-, rfl⟩
    · exact h.paths hother
    · exact hpaths

/-- **The parents** are the earlier operations whose outputs overlap the inputs. -/
theorem mem_parents (h : Chronological operations) {index : ℕ} {node : MeshOperation}
    (hnode : operations[index]? = some node) (parent : ℕ) :
    parent ∈ node.parents ↔
      parent < index ∧ ∃ earlier, operations[parent]? = some earlier ∧ ReadsFrom node earlier := by
  rw [h.parents hnode, mem_parentsOf]
  constructor
  · rintro ⟨earlier, hearlier, hreads⟩
    rw [List.getElem?_take] at hearlier
    split_ifs at hearlier with hlt
    exact ⟨hlt, earlier, hearlier, hreads⟩
  · rintro ⟨hlt, earlier, hearlier, hreads⟩
    exact ⟨earlier, by rw [List.getElem?_take, if_pos hlt, hearlier], hreads⟩

end Chronological

theorem checkHistory_eq_ok {nodes : List MeshOperation} {index : ℕ}
    (h : ∀ i node, nodes[i]? = some node → (∀ parent ∈ node.parents, parent < index + i) ∧
      ∀ p ∈ node.inputs ++ node.outputs, meshPath p = .ok p) :
    checkHistory index nodes = .ok () := by
  induction nodes generalizing index with
  | nil => rfl
  | cons node nodes ih =>
    obtain ⟨hparents, hpaths⟩ := h 0 node rfl
    have hbehind : node.parents.any (index ≤ ·) = false := by
      rw [List.any_eq_false]
      intro parent hparent
      have hlt := hparents parent hparent
      simpa using hlt
    unfold checkHistory
    rw [hbehind, if_neg Bool.false_ne_true, Traversal.mapM_eq_ok hpaths]
    refine ih fun i other hother => ?_
    obtain ⟨hparents, hpaths⟩ := h (i + 1) other hother
    exact ⟨fun parent hparent => by have := hparents parent hparent; omega, hpaths⟩

/-- A lawful history is read back. -/
theorem Chronological.load {operations : List MeshOperation} (h : Chronological operations) :
    (MeshRegistry.recorded operations).load = .ok operations := by
  have hcheck : checkHistory 0 operations = .ok () := by
    refine checkHistory_eq_ok fun i node hnode => ⟨fun parent hparent => ?_, h.paths hnode⟩
    rw [Nat.zero_add]
    exact ((h.mem_parents hnode parent).1 hparent).1
  simp only [MeshRegistry.load, hcheck]

/-! ### Runs -/

/-- The registry and the graph objects that have read it. -/
structure MeshHistory where
  registry : MeshRegistry := .absent
  graphs : List (List MeshOperation) := []

/-- A call. -/
inductive MeshCall where
  /-- `MeshDependencyGraph(workspace)`. -/
  | reload
  /-- `register` on one of the objects; the registry may refuse to be replaced. -/
  | register (graph : ℕ) (r : MeshRegistration) (written : Bool)

namespace MeshHistory

variable (size : List MeshOperation → ℕ)

/-- What a registry file of a history is to the next reader. -/
def persisted (operations : List MeshOperation) : MeshRegistry :=
  if 16000000 < size operations then .untrusted else .recorded operations

/-- The state after a call; one that raises before it appends changes nothing. -/
def step (s : MeshHistory) : MeshCall → MeshHistory
  | .reload =>
    match s.registry.load with
    | .error _ => s
    | .ok operations => { s with graphs := s.graphs ++ [operations] }
  | .register graph r written =>
    match s.graphs[graph]? with
    | none => s
    | some operations =>
      match r.operation operations with
      | .error _ => s
      | .ok node =>
        { registry := if written then persisted size (operations ++ [node]) else s.registry
          graphs := s.graphs.set graph (operations ++ [node]) }

/-- The state after some calls, where there was no registry at first. -/
def run (calls : List MeshCall) : MeshHistory := Runs.run (step size) {} calls

/-- Every object holds a lawful history, and so does the registry where it is not too large. -/
structure Lawful (s : MeshHistory) : Prop where
  graphs : ∀ operations ∈ s.graphs, Chronological operations
  registry : s.registry = .absent ∨
    ∃ operations, s.registry = persisted size operations ∧ Chronological operations

variable {size}

theorem load_persisted {operations : List MeshOperation} (h : Chronological operations) :
    (persisted size operations).load =
      if 16000000 < size operations then .error (.value .untrustedRegistry)
      else .ok operations := by
  unfold persisted
  split_ifs
  · rfl
  · exact h.load

theorem lawful_step {s : MeshHistory} (h : s.Lawful size) (call : MeshCall) :
    (s.step size call).Lawful size := by
  cases call with
  | reload =>
    rcases hload : s.registry.load with e | operations
    · simpa only [step, hload] using h
    · have hlawful : Chronological operations := by
        rcases h.registry with hs | ⟨recorded, hs, hrecorded⟩
        · rw [hs] at hload
          obtain rfl := Except.ok.inj hload
          exact .nil
        · rw [hs, load_persisted hrecorded] at hload
          split_ifs at hload
          obtain rfl := Except.ok.inj hload
          exact hrecorded
      simp only [step, hload]
      refine ⟨fun ops hops => ?_, h.registry⟩
      rcases List.mem_append.1 hops with hops | hops
      · exact h.graphs ops hops
      · rw [List.mem_singleton.1 hops]
        exact hlawful
  | register graph r written =>
    rcases hgraph : s.graphs[graph]? with _ | operations
    · simpa only [step, hgraph] using h
    · rcases hnode : r.operation operations with e | node
      · simpa only [step, hgraph, hnode] using h
      · obtain ⟨hparents, hpaths⟩ := MeshRegistration.operation_eq_ok hnode
        have hlawful := (h.graphs _ (List.mem_of_getElem? hgraph)).append hparents hpaths
        simp only [step, hgraph, hnode]
        refine ⟨fun ops hops => ?_, ?_⟩
        · rcases List.mem_or_eq_of_mem_set hops with hops | rfl
          · exact h.graphs ops hops
          · exact hlawful
        · cases written with
          | false => exact h.registry
          | true => exact .inr ⟨operations ++ [node], rfl, hlawful⟩

/-- Every state of a run is lawful. -/
theorem lawful_run (size : List MeshOperation → ℕ) (calls : List MeshCall) :
    (run size calls).Lawful size := by
  have hstart : ({} : MeshHistory).Lawful size :=
    ⟨fun _ h => absurd h List.not_mem_nil, .inl rfl⟩
  exact Runs.always (P := Lawful size) (fun _ call h => lawful_step h call) calls hstart

end MeshHistory

/-! ### The operations upstream of a region -/

section Upstream

variable (operations : List MeshOperation)

/-- The operation at a position names another as its parent. -/
def HasParent (index parent : ℕ) : Prop :=
  ∃ node, operations[index]? = some node ∧ parent ∈ node.parents

/-- An operation names the region, or writes its mesh. -/
def MakesMesh (region : Text) (index : ℕ) : Prop :=
  ∃ node, operations[index]? = some node ∧
    (region ∈ node.regions ∨ ∃ p ∈ node.outputs, meshOverlap (meshSink region) p = true)

/-- A position is reached backwards from an operation that produces the mesh of the region. -/
def Upstream (region : Text) (index : ℕ) : Prop :=
  ∃ sink, MakesMesh operations region sink ∧ Relation.ReflTransGen (HasParent operations) sink index

variable {operations}

theorem mem_producers {region : Text} {index : ℕ} :
    index ∈ producers operations region ↔ MakesMesh operations region index := by
  rw [producers, List.mem_filter, List.mem_range]
  constructor
  · rintro ⟨hindex, hany⟩
    rw [List.getElem?_eq_getElem hindex, Option.any_some, Bool.or_eq_true, decide_eq_true_eq,
      List.any_eq_true] at hany
    exact ⟨_, List.getElem?_eq_getElem hindex, hany⟩
  · rintro ⟨node, hnode, hmakes⟩
    refine ⟨(List.getElem?_eq_some_iff.1 hnode).1, ?_⟩
    rw [hnode, Option.any_some, Bool.or_eq_true, decide_eq_true_eq, List.any_eq_true]
    exact hmakes

theorem mem_parents_iff {index parent : ℕ} :
    parent ∈ (operations[index]?.elim [] (·.parents)) ↔ HasParent operations index parent := by
  unfold HasParent
  cases operations[index]? with
  | none => simp
  | some node => simp

/-- What holds of the search for ancestors. -/
structure Ascending (operations : List MeshOperation) (sinks todo selected : List ℕ) : Prop where
  nodup : selected.Nodup
  inside : ∀ x ∈ selected, x < operations.length
  sound : ∀ x ∈ selected, ∃ sink ∈ sinks, Relation.ReflTransGen (HasParent operations) sink x
  covered : ∀ x ∈ sinks, x ∈ selected
  pending : ∀ x ∈ todo, x ∈ selected
  /-- The parents of what is selected and not on the list are selected. -/
  closed : ∀ x ∈ selected, x ∈ todo ∨ ∀ parent, HasParent operations x parent → parent ∈ selected

namespace Ascending

variable {sinks todo selected : List ℕ}

theorem initial (hnodup : sinks.Nodup) (hinside : ∀ x ∈ sinks, x < operations.length) :
    Ascending operations sinks sinks sinks where
  nodup := hnodup
  inside := hinside
  sound := fun x hx => ⟨x, hx, .refl⟩
  covered := fun _ hx => hx
  pending := fun _ hx => hx
  closed := fun _ hx => .inl hx

/-- One position is taken off the list. -/
theorem turn {index : ℕ}
    (hops : ∀ x parent, HasParent operations x parent → parent < operations.length)
    (h : Ascending operations sinks (index :: todo) selected) {parents : List ℕ}
    (hparents : parents =
      ((operations[index]?.elim [] (·.parents)).dedup.filter (· ∉ selected))) :
    Ascending operations sinks (parents ++ todo) (selected ++ parents) := by
  have hmem : ∀ parent, parent ∈ parents ↔
      HasParent operations index parent ∧ parent ∉ selected := by
    intro parent
    rw [hparents, List.mem_filter, List.mem_dedup, mem_parents_iff, decide_eq_true_eq]
  obtain ⟨sink, hsink, hindex⟩ := h.sound index (h.pending index List.mem_cons_self)
  constructor
  · refine List.Nodup.append h.nodup ?_ fun x hx hparent => ((hmem x).1 hparent).2 hx
    rw [hparents]
    exact (List.nodup_dedup _).filter _
  · intro x hx
    rcases List.mem_append.1 hx with hx | hx
    · exact h.inside x hx
    · exact hops index x ((hmem x).1 hx).1
  · intro x hx
    rcases List.mem_append.1 hx with hx | hx
    · exact h.sound x hx
    · exact ⟨sink, hsink, hindex.tail ((hmem x).1 hx).1⟩
  · exact fun x hx => List.mem_append_left _ (h.covered x hx)
  · intro x hx
    rcases List.mem_append.1 hx with hx | hx
    · exact List.mem_append_right _ hx
    · exact List.mem_append_left _ (h.pending x (List.mem_cons_of_mem _ hx))
  · intro x hx
    rcases List.mem_append.1 hx with hx | hx
    · rcases h.closed x hx with hlist | hclosed
      · rcases List.mem_cons.1 hlist with rfl | hlist
        · refine .inr fun parent hparent => ?_
          by_cases hselected : parent ∈ selected
          · exact List.mem_append_left _ hselected
          · exact List.mem_append_right _ ((hmem parent).2 ⟨hparent, hselected⟩)
        · exact .inl (List.mem_append_right _ hlist)
      · exact .inr fun parent hparent => List.mem_append_left _ (hclosed parent hparent)
    · exact .inl (List.mem_append_left _ hx)

theorem length_le (h : Ascending operations sinks todo selected) :
    selected.length ≤ operations.length := by
  have hsubset : selected ⊆ List.range operations.length :=
    fun x hx => List.mem_range.2 (h.inside x hx)
  simpa using (List.subperm_of_subset h.nodup hsubset).length_le

/-- The list runs out before the turns do. -/
theorem withAncestors {n : ℕ}
    (hops : ∀ x parent, HasParent operations x parent → parent < operations.length)
    (h : Ascending operations sinks todo selected)
    (hn : todo.length + operations.length ≤ n + selected.length) :
    Ascending operations sinks []
      (Engineering.withAncestors operations n todo selected) := by
  induction n generalizing todo selected with
  | zero =>
    have hlength := h.length_le
    obtain rfl := List.eq_nil_of_length_eq_zero (l := todo) (by omega)
    exact h
  | succ n ih =>
    cases todo with
    | nil => exact h
    | cons index todo =>
      refine ih (h.turn hops rfl) ?_
      rw [List.length_append, List.length_append]
      rw [List.length_cons] at hn
      omega

end Ascending

/-- **The search for ancestors** finds what is reached backwards. -/
theorem mem_withAncestors (h : Chronological operations) (region : Text) (index : ℕ) :
    index ∈ withAncestors operations operations.length (producers operations region)
      (producers operations region) ↔ Upstream operations region index := by
  have hops : ∀ x parent, HasParent operations x parent → parent < operations.length := by
    rintro x parent ⟨node, hnode, hparent⟩
    obtain ⟨-, earlier, hearlier, -⟩ := (h.mem_parents hnode parent).1 hparent
    exact (List.getElem?_eq_some_iff.1 hearlier).1
  have hstart : Ascending operations (producers operations region)
      (producers operations region) (producers operations region) := by
    refine .initial (List.nodup_range.filter _) fun x hx => ?_
    obtain ⟨node, hnode, -⟩ := mem_producers.1 hx
    exact (List.getElem?_eq_some_iff.1 hnode).1
  have hend := hstart.withAncestors hops (n := operations.length) (by omega)
  constructor
  · intro hindex
    obtain ⟨sink, hsink, hreached⟩ := hend.sound index hindex
    exact ⟨sink, mem_producers.1 hsink, hreached⟩
  · rintro ⟨sink, hsink, hreached⟩
    induction hreached with
    | refl => exact hend.covered sink (mem_producers.2 hsink)
    | tail _ hparent ih => exact (hend.closed _ ih).resolve_left List.not_mem_nil _ hparent

theorem mem_selectedOperations (h : Chronological operations) {region : Text} {index : ℕ}
    {node : MeshOperation} : (index, node) ∈ selectedOperations operations region ↔
      operations[index]? = some node ∧ Upstream operations region index := by
  unfold selectedOperations
  dsimp only
  rw [List.mem_filterMap, ← mem_withAncestors h]
  constructor
  · rintro ⟨i, -, hi⟩
    split_ifs at hi with hselected
    obtain ⟨other, hother, hpair⟩ := Option.map_eq_some_iff.1 hi
    cases hpair
    exact ⟨hother, hselected⟩
  · rintro ⟨hnode, hselected⟩
    refine ⟨index, List.mem_range.2 (List.getElem?_eq_some_iff.1 hnode).1, ?_⟩
    rw [if_pos hselected, hnode, Option.map_some]

end Upstream

/-! ### The paths of a region -/

section Paths

variable (m : MeshHost) (w : CaseWorkspace) (operations : List MeshOperation) (region : Text)

/-- An input or an output of an operation upstream. -/
def UpstreamPath (path : Text) : Prop :=
  ∃ index node, Upstream operations region index ∧ operations[index]? = some node ∧
    (path ∈ node.inputs ∨ path ∈ node.outputs)

/-- A file has an include directive that leads to a path. -/
def Includes (file target : Text) : Prop :=
  ∃ l data text, w.resolveCasePath file false = .ok l ∧ w.tree.fileAt l = some data ∧
    data.length ≤ 2000000 ∧ decode data = some text ∧
      ∃ raw ∈ includeTargets (universalNewlines text), includedPath m w l.dropLast raw = .ok target

/-- A path at which the search for includes begins: the mesh, a path of an operation upstream,
or a sealed file below one of these. -/
def Searched (path : Text) : Prop :=
  (path = meshSink region ∨ UpstreamPath operations region path) ∨
    ∃ seals, w.executionFileSeals = .ok seals ∧ ∃ item ∈ seals, item.path = path ∧
      ∃ root, (root = meshSink region ∨ UpstreamPath operations region root) ∧
        root ++ ['/'] <+: path

variable {m w operations region}

theorem mem_rootPaths (h : Chronological operations) {path : Text} :
    path ∈ rootPaths operations region ↔
      path = meshSink region ∨ UpstreamPath operations region path := by
  rw [rootPaths, List.mem_dedup, List.mem_cons, List.mem_flatMap]
  refine or_congr_right ⟨?_, ?_⟩
  · rintro ⟨⟨index, node⟩, hnode, hpath⟩
    obtain ⟨hnode, hupstream⟩ := (mem_selectedOperations h).1 hnode
    exact ⟨index, node, hupstream, hnode, List.mem_append.1 hpath⟩
  · rintro ⟨index, node, hupstream, hnode, hpath⟩
    exact ⟨(index, node), (mem_selectedOperations h).2 ⟨hnode, hupstream⟩,
      List.mem_append.2 hpath⟩

theorem mem_includeStart (h : Chronological operations) {seals : List CaseFileSeal}
    (hseals : w.executionFileSeals = .ok seals) {path : Text} :
    path ∈ includeStart m operations region seals ↔ Searched w operations region path := by
  unfold includeStart Searched
  dsimp only
  rw [List.mem_append, (m.host.arrange_perm _).mem_iff, mem_rootPaths h, List.mem_filter,
    List.mem_map, List.any_eq_true]
  simp only [mem_rootPaths h, List.isPrefixOf_iff_prefix]
  refine or_congr_right ⟨?_, ?_⟩
  · rintro ⟨⟨item, hitem, rfl⟩, hbelow⟩
    exact ⟨seals, hseals, item, hitem, rfl, hbelow⟩
  · rintro ⟨seals', hseals', item, hitem, rfl, hbelow⟩
    obtain rfl := Except.ok.inj (hseals.symm.trans hseals')
    exact ⟨⟨item, hitem, rfl⟩, hbelow⟩

theorem mem_includesOf {file : Text} {targets : List Text}
    (h : includesOf m w file = .ok targets) (target : Text) :
    target ∈ targets ↔ Includes m w file target := by
  have hnone : (∀ l data text, w.resolveCasePath file false = .ok l →
      w.tree.fileAt l = some data → data.length ≤ 2000000 → decode data ≠ some text) →
      (target ∈ ([] : List Text) ↔ Includes m w file target) := by
    intro hno
    refine ⟨fun hmem => absurd hmem List.not_mem_nil, ?_⟩
    rintro ⟨l, data, text, hl, hdata, hsize, htext, -⟩
    exact absurd htext (hno l data text hl hdata hsize)
  unfold includesOf at h
  rcases hl : w.resolveCasePath file false with e | l
  · rw [hl] at h
    cases h
  rw [hl] at h
  dsimp only at h
  rcases hdata : w.tree.fileAt l with _ | data
  · rw [hdata] at h
    obtain rfl := Except.ok.inj h
    refine hnone fun l' data' text hl' hdata' => ?_
    obtain rfl := Except.ok.inj (hl.symm.trans hl')
    rw [hdata] at hdata'
    cases hdata'
  rw [hdata] at h
  dsimp only at h
  by_cases hsize : data.length > 2000000
  · rw [if_pos hsize] at h
    obtain rfl := Except.ok.inj h
    refine hnone fun l' data' text hl' hdata' hsize' => ?_
    obtain rfl := Except.ok.inj (hl.symm.trans hl')
    obtain rfl := Option.some.inj (hdata.symm.trans hdata')
    omega
  rw [if_neg hsize] at h
  rcases htext : decode data with _ | text
  · rw [htext] at h
    obtain rfl := Except.ok.inj h
    refine hnone fun l' data' text hl' hdata' _ => ?_
    obtain rfl := Except.ok.inj (hl.symm.trans hl')
    obtain rfl := Option.some.inj (hdata.symm.trans hdata')
    rw [htext]
    exact Option.some_ne_none text |>.symm
  rw [htext] at h
  dsimp only at h
  constructor
  · intro htarget
    obtain ⟨raw, hraw, hincluded⟩ := Traversal.ok_of_mem_mapM h htarget
    exact ⟨l, data, text, hl, hdata, not_lt.1 hsize, htext, raw, hraw, hincluded⟩
  · rintro ⟨l', data', text', hl', hdata', -, htext', raw, hraw, hincluded⟩
    obtain rfl := Except.ok.inj (hl.symm.trans hl')
    obtain rfl := Option.some.inj (hdata.symm.trans hdata')
    obtain rfl := Option.some.inj (htext.symm.trans htext')
    obtain ⟨target', htarget', hincluded'⟩ := Traversal.exists_mem_of_mapM h hraw
    obtain rfl := Except.ok.inj (hincluded.symm.trans hincluded')
    exact htarget'

/-- What a file includes is one of finitely many paths. -/
theorem mem_includeUniverse {file target : Text} (h : Includes m w file target) :
    target ∈ includeUniverse m w := by
  obtain ⟨l, data, text, -, hdata, -, htext, raw, hraw, hincluded⟩ := h
  have hentry : (⟨l, .file data⟩ : Σ _ : Location, Node Text Bytes) ∈ w.tree.entries := by
    refine AList.mem_lookup_iff.1 ?_
    unfold FileTree.fileAt at hdata
    split at hdata
    · rename_i b hb
      obtain rfl := Option.some.inj hdata
      exact hb
    · cases hdata
  refine List.mem_flatMap.2 ⟨_, hentry, ?_⟩
  dsimp only
  rw [htext, Option.elim_some]
  exact List.mem_filterMap.2 ⟨raw, hraw, by rw [hincluded]; rfl⟩

variable (m w operations region)

/-- `dependencies`, with a number of turns for the search. -/
def dependenciesWithin (turns : ℕ) : Except MeshError (List Text × List (ℕ × MeshOperation)) :=
  match sealing w.executionFileSeals with
  | .error e => .error e
  | .ok seals =>
    match explore (includesOf m w) turns (includeStart m operations region seals).reverse [] [] with
    | .error e => .error e
    | .ok included =>
      .ok (rootPaths operations region ++ included, selectedOperations operations region)

variable {m w operations region}

/-- The paths that a search reaches are finitely many. -/
theorem mem_of_reached {start : List Text} {path : Text}
    (h : Reached (includesOf m w) start path) : path ∈ start ++ includeUniverse m w := by
  cases h with
  | start hpath => exact List.mem_append_left _ hpath
  | next _ hstep hpath =>
    exact List.mem_append_right _ (mem_includeUniverse ((mem_includesOf hstep _).1 hpath))

/-- **The search ends**: turns beyond a bound are not needed. -/
theorem exists_dependenciesWithin (m : MeshHost) (w : CaseWorkspace)
    (operations : List MeshOperation) (region : Text) :
    ∃ bound, ∀ turns ≥ bound,
      dependenciesWithin m w operations region turns = dependencies m w operations region := by
  unfold dependenciesWithin dependencies
  rcases sealing w.executionFileSeals with e | seals
  · exact ⟨0, fun _ _ => rfl⟩
  · dsimp only
    generalize (includeStart m operations region seals).reverse = start
    refine ⟨start.length + (includeUniverse m w).length + 1, fun turns hturns => ?_⟩
    have hstable : explore (includesOf m w) turns start [] [] =
        explore (includesOf m w) (start.length + (includeUniverse m w).length + 1) start [] [] :=
      explore_stable (fun x hx => mem_of_reached hx)
        (by rw [List.length_append]; omega) (by rw [List.length_append]; omega)
    generalize explore (includesOf m w) turns start [] [] = found at hstable ⊢
    subst hstable
    rfl

theorem sealing_eq_ok {α : Type} {x : Except SealError α} {a : α} (h : sealing x = .ok a) :
    x = .ok a := by
  cases x with
  | ok b => exact congrArg _ (Except.ok.inj h)
  | error e => cases e <;> cases h

/-- What `dependencies` raises is raised by the seals, or by a path that the search reaches. -/
theorem dependencies_eq_error (h : Chronological operations) {e : MeshError}
    (herror : dependencies m w operations region = .error e) :
    sealing w.executionFileSeals = .error e ∨
      ∃ start path, Searched w operations region start ∧
        Relation.ReflTransGen (Includes m w) start path ∧ includesOf m w path = .error e := by
  unfold dependencies at herror
  rcases hseals : sealing w.executionFileSeals with e' | seals
  · rw [hseals] at herror
    exact .inl (congrArg _ (Except.error.inj herror))
  · rw [hseals] at herror
    dsimp only at herror
    rcases hexplore : explore (includesOf m w) _ _ [] [] with e' | included
    · rw [hexplore] at herror
      obtain rfl := Except.error.inj herror
      obtain ⟨path, hpath, hraises⟩ := reached_of_explore_eq_error
        (fun x hx => mem_of_reached hx) (by rw [List.length_append]; omega) hexplore
      obtain ⟨start, hstart, hreached⟩ := hpath.reflTransGen fun _ _ => mem_includesOf
      rw [List.mem_reverse, mem_includeStart h (sealing_eq_ok hseals)] at hstart
      exact .inr ⟨start, path, hstart, hreached, hraises⟩
    · rw [hexplore] at herror
      cases herror

/-- **The dependencies of a region**, where they are returned. -/
theorem dependencies_eq_ok (h : Chronological operations) {paths : List Text}
    {nodes : List (ℕ × MeshOperation)}
    (hok : dependencies m w operations region = .ok (paths, nodes)) :
    (∀ index node, (index, node) ∈ nodes ↔
        operations[index]? = some node ∧ Upstream operations region index) ∧
      ∀ path, path ∈ paths ↔
        (path = meshSink region ∨ UpstreamPath operations region path) ∨
          ∃ start, Searched w operations region start ∧
            Relation.TransGen (Includes m w) start path := by
  unfold dependencies at hok
  rcases hseals : sealing w.executionFileSeals with e' | seals
  · rw [hseals] at hok
    cases hok
  rw [hseals] at hok
  dsimp only at hok
  rcases hexplore : explore (includesOf m w) _ _ [] [] with e' | included
  · rw [hexplore] at hok
    cases hok
  rw [hexplore] at hok
  cases hok
  refine ⟨fun index node => mem_selectedOperations h, fun path => ?_⟩
  rw [List.mem_append, mem_rootPaths h,
    mem_explore_iff (fun x hx => mem_of_reached hx) (by rw [List.length_append]; omega)
      (fun _ _ => mem_includesOf) hexplore]
  simp only [List.mem_reverse, mem_includeStart h (sealing_eq_ok hseals)]

end Paths

/-! ### The whole run -/

/-- The parents of an operation are the earlier ones whose outputs overlap its inputs. -/
def ParentsExact (operations : List MeshOperation) : Prop :=
  ∀ index node, operations[index]? = some node → ∀ parent, parent ∈ node.parents ↔
    parent < index ∧ ∃ earlier, operations[parent]? = some earlier ∧ ReadsFrom node earlier

/-- **The mesh history of a run, and what a region depends on.** Every object of the run and the
registry hold a history with exact parents, and a registry that is not too large gives it back.
On such a history `dependencies` ends; it raises what the seals or a searched path raise, or
returns the operations upstream of the region, and the paths that are the mesh itself, theirs,
or included from a searched path on. -/
theorem dependencies_of_run (size : List MeshOperation → ℕ) (calls : List MeshCall)
    (m : MeshHost) (w : CaseWorkspace) :
    ((MeshHistory.run size calls).registry = .absent ∨
      ∃ operations, ParentsExact operations ∧ (MeshHistory.run size calls).registry.load =
        if 16000000 < size operations then .error (.value .untrustedRegistry)
        else .ok operations) ∧
    ∀ operations ∈ (MeshHistory.run size calls).graphs,
      ParentsExact operations ∧ ∀ region,
        (∃ bound, ∀ turns ≥ bound,
          dependenciesWithin m w operations region turns = dependencies m w operations region) ∧
        (∀ e, dependencies m w operations region = .error e →
          sealing w.executionFileSeals = .error e ∨
            ∃ start path, Searched w operations region start ∧
              Relation.ReflTransGen (Includes m w) start path ∧ includesOf m w path = .error e) ∧
        ∀ paths nodes, dependencies m w operations region = .ok (paths, nodes) →
          (∀ index node, (index, node) ∈ nodes ↔
            operations[index]? = some node ∧ Upstream operations region index) ∧
          ∀ path, path ∈ paths ↔
            (path = meshSink region ∨ UpstreamPath operations region path) ∨
              ∃ start, Searched w operations region start ∧
                Relation.TransGen (Includes m w) start path := by
  have hlawful := MeshHistory.lawful_run size calls
  refine ⟨hlawful.registry.imp_right ?_, fun operations hoperations => ?_⟩
  · rintro ⟨operations, hregistry, h⟩
    refine ⟨operations, fun index node hnode => h.mem_parents hnode, ?_⟩
    rw [hregistry, MeshHistory.load_persisted h]
  · have h := hlawful.graphs operations hoperations
    refine ⟨fun index node hnode => h.mem_parents hnode, fun region => ⟨?_, ?_, ?_⟩⟩
    · exact exists_dependenciesWithin m w operations region
    · exact fun e => dependencies_eq_error h
    · exact fun paths nodes => dependencies_eq_ok h

/-- A machine without links: an include leads below the directory of its file. -/
def linkFreeHost : MeshHost :=
  ⟨Host.reliable, fun _ directory raw => some (directory ++ pathParts raw)⟩

/-- A case with one file. -/
def caseOf (place : Location) (data : Bytes) : CaseWorkspace where
  tree := (∅ : FileTree Text Bytes).insert place (.file data)
  authoredPaths := .empty
  assetPaths := .empty

/-- A directive, and a comment in another encoding. -/
def latinText : Bytes := encode "#include \"a\"\n// ".toList ++ [233]

/-- The mesh itself is returned without any operation, and a file that is no UTF-8 text includes
nothing. -/
theorem dependencies_not_exact :
    ∃ operations ∈ (MeshHistory.run (fun _ => 0) [.reload]).graphs, ∃ paths nodes,
      dependencies linkFreeHost (caseOf (pathParts (meshSink [])) latinText) operations [] =
          .ok (paths, nodes) ∧
        meshSink [] ∈ paths ∧ ¬ UpstreamPath operations [] (meshSink []) ∧
        (caseOf (pathParts (meshSink [])) latinText).tree.fileAt (pathParts (meshSink [])) =
          some latinText ∧ "constant/a".toList ∉ paths := by
  refine ⟨[], by decide +kernel, ["constant/polyMesh".toList], [], by decide +kernel,
    by decide +kernel, ?_, by decide +kernel, by decide +kernel⟩
  rintro ⟨index, node, -, hnode, -⟩
  cases hnode

end Engineering
end OpenFoamAgent
