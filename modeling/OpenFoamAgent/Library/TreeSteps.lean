/-
# Calls on a tree, step by step

`mkdir -p` and the writing of a file as computations that may be interrupted, for a program whose
state holds a tree: `put` is the state with a tree in it. `Opened` and `lookup_opened` say what
directories may have been made, wherever the program stops.
-/
import OpenFoamAgent.Library.Interruptions
import OpenFoamAgent.Library.Subtrees

namespace OpenFoamAgent
namespace FileTree

variable {ν β σ ε : Type} [DecidableEq ν] {t t' t'' : FileTree ν β} {ls : List (List ν)}

/-- Of the directories `ls`, some were made, and nothing else has changed. -/
def Opened (ls : List (List ν)) (t t' : FileTree ν β) : Prop :=
  ∀ l, t'.lookup l = t.lookup l ∨
    l ∈ ls ∧ t.lookup l = none ∧ t'.lookup l = some .directory

namespace Opened

theorem refl (ls : List (List ν)) (t : FileTree ν β) : Opened ls t t := fun _ => .inl rfl

theorem lookup (h : Opened ls t t') {l : List ν} {n : Node ν β} (hn : t.lookup l = some n) :
    t'.lookup l = some n := by
  rcases h l with heq | ⟨-, hnone, -⟩
  · rw [heq, hn]
  · rw [hn] at hnone
    cases hnone

theorem of_notMem (h : Opened ls t t') {l : List ν} (hl : l ∉ ls) : t'.lookup l = t.lookup l := by
  rcases h l with heq | ⟨hmem, -⟩
  · exact heq
  · exact absurd hmem hl

/-- One more directory. -/
theorem cons {fails : Bool} {l : List ν} (hmade : makeDirectory fails t l = .ok t')
    (h : Opened ls t' t'') : Opened (l :: ls) t t'' := by
  intro k
  have hother := (lookup_makeDirectory hmade).2 k
  rcases h k with heq | ⟨hmem, hnone, hdir⟩
  · rcases hother with hsame | ⟨rfl, hnone, hdir⟩
    · exact .inl (heq.trans hsame)
    · exact .inr ⟨List.mem_cons_self, hnone, heq.trans hdir⟩
  · rcases hother with hsame | ⟨-, -, hdir'⟩
    · exact .inr ⟨List.mem_cons_of_mem _ hmem, hsame ▸ hnone, hdir⟩
    · exact absurd (hdir'.symm.trans hnone) nofun

end Opened

variable (put : FileTree ν β → σ) (raise : FsError → ε)

/-- `mkdir -p`, with the tree it leaves. -/
def makeDirectorySteps : List (List ν) → FileTree ν β → Steps σ ε (FileTree ν β)
  | [], t => .returned t
  | l :: ls, t =>
    match makeDirectory false t l with
    | .error e => .raised (raise e)
    | .ok t' => (makeDirectorySteps ls t').after (put t')

/-- Directories are made from the first one on, all of them when the call returns. -/
theorem makeDirectorySteps_opened (ls : List (List ν)) (t : FileTree ν β) :
    (makeDirectorySteps put raise ls t).Crashes
      (fun s => ∃ t', s = put t' ∧ Opened ls t t' ∧
        ∀ l, ls.head? = some l → t'.lookup l = some .directory)
      (fun s t' => s = put t' ∧ Opened ls t t' ∧ ∀ l ∈ ls, t'.lookup l = some .directory)
      (put t) := by
  induction ls generalizing t with
  | nil => exact .returned ⟨rfl, .refl _ _, nofun⟩
  | cons l ls ih =>
    unfold makeDirectorySteps
    split
    · exact .raised _
    · rename_i t' hmade
      have hl := (lookup_makeDirectory hmade).1
      refine Steps.Crashes.after ⟨t', rfl, (Opened.refl _ _).cons hmade, fun k hk => ?_⟩
        ((ih t').mono ?_ ?_)
      · obtain rfl := Option.some.inj hk
        exact hl
      · rintro s ⟨t'', rfl, hopened, -⟩
        refine ⟨t'', rfl, hopened.cons hmade, fun k hk => ?_⟩
        obtain rfl := Option.some.inj hk
        exact hopened.lookup hl
      · rintro s t'' ⟨rfl, hopened, hall⟩
        exact ⟨rfl, hopened.cons hmade, List.forall_mem_cons.2 ⟨hopened.lookup hl, hall⟩⟩

/-- `mkdir -p` returns exactly where nothing but directories is in the way. -/
theorem makeDirectorySteps_returns_iff (ls : List (List ν)) (hnodup : ls.Nodup)
    (t : FileTree ν β) :
    (∃ t', (makeDirectorySteps put raise ls t).result = .ok t') ↔
      ∀ l ∈ ls, ∀ n, t.lookup l = some n → n = .directory := by
  induction ls generalizing t with
  | nil => exact iff_of_true ⟨t, rfl⟩ nofun
  | cons l ls ih =>
    obtain ⟨hl, hnodup⟩ := List.nodup_cons.1 hnodup
    rw [List.forall_mem_cons]
    by_cases hfree : ∀ n, t.lookup l = some n → n = .directory
    · obtain ⟨t', hmade⟩ := makeDirectory_progress hfree
      rw [and_iff_right hfree, makeDirectorySteps, hmade]
      refine (ih hnodup t').trans (forall₂_congr fun k hk => ?_)
      rcases (lookup_makeDirectory hmade).2 k with heq | ⟨rfl, -⟩
      · rw [heq]
      · exact absurd hk hl
    · refine iff_of_false ?_ fun h => hfree h.1
      rintro ⟨t'', hresult⟩
      unfold makeDirectorySteps at hresult
      split at hresult
      · cases hresult
      · rename_i t' hmade
        refine hfree fun n hn => ?_
        have hdir := ((Opened.refl [] t').cons hmade).lookup hn
        exact (Option.some.inj (hdir.symm.trans (lookup_makeDirectory hmade).1))

/-- A file is written piece by piece. -/
def writeSteps (put : FileTree ν (List β) → σ) (l : List ν) (content : List β)
    (t : FileTree ν (List β)) : Steps σ ε (FileTree ν (List β)) :=
  ⟨content.inits.map fun written => put (t.insert l (.file written)),
    .ok (t.insert l (.file content))⟩

theorem writeSteps_written (put : FileTree ν (List β) → σ) (l : List ν) (content : List β)
    (t : FileTree ν (List β)) (d : σ) :
    (writeSteps put l content t : Steps σ ε (FileTree ν (List β))).Crashes
      (fun s => ∃ written, written <+: content ∧ s = put (t.insert l (.file written)))
      (fun s t' => s = put t' ∧ t' = t.insert l (.file content)) d := by
  refine ⟨fun s hs => ?_, fun t' ht' => ?_⟩
  · obtain ⟨written, hmem, rfl⟩ := List.mem_map.1 hs
    exact ⟨written, (List.mem_inits _ _).1 hmem, rfl⟩
  · obtain rfl := Except.ok.inj ht'
    refine ⟨?_, rfl⟩
    unfold Steps.last writeSteps
    rw [List.getLastD_eq_getLast?, List.getLast?_eq_getElem?, List.length_map, List.length_inits,
      List.getElem?_map, Nat.add_sub_cancel, List.getElem?_eq_getElem (by simp)]
    simp

end FileTree
end OpenFoamAgent
