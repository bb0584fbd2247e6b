/-
# Moving subtrees

The part of a tree below a name of its root, taken out of it (`dropTop`) and put below a place
of another tree (`graft`): a `rename` of a directory between two trees. What stood at
`name :: rest` is then at `place ++ rest` (`lookup_graft`), and nothing else has changed.
Subtrees moved one after the other keep `Relocated`: nothing is lost on the way.
-/
import Mathlib.Data.List.Induction
import Mathlib.Data.List.Infix
import OpenFoamAgent.Library.FileTree

namespace OpenFoamAgent
namespace FileTree

variable {ν β : Type} [DecidableEq ν]

/-- Something stands at a name of the root, or below it. -/
def hasTop (t : FileTree ν β) (name : ν) : Bool := t.keys.any fun l => l.head? = some name

/-- The tree without what stands at a name of its root and below it. -/
def dropTop (t : FileTree ν β) (name : ν) : FileTree ν β where
  entries := t.entries.filter fun e => e.1.head? ≠ some name
  nodupKeys := t.nodupKeys.sublist List.filter_sublist

/-- The tree with what stands in another at a name of the root and below it. -/
def graft (t source : FileTree ν β) (name : ν) (place : List ν) : FileTree ν β :=
  (source.entries.filter fun e => e.1.head? = some name).foldl
    (fun t e => t.insert (place ++ e.1.tail) e.2) t

theorem lookup_dropTop (t : FileTree ν β) (name : ν) (l : List ν) :
    (t.dropTop name).lookup l = if l.head? = some name then none else t.lookup l := by
  ext n
  rw [← Option.mem_def, AList.mem_lookup_iff, dropTop, List.mem_filter]
  split_ifs with h
  · simp [h]
  · rw [and_iff_left (by simp [h]), ← AList.mem_lookup_iff, Option.mem_def]

theorem fileAt_dropTop (t : FileTree ν β) {name : ν} {l : List ν} (h : l.head? ≠ some name) :
    (t.dropTop name).fileAt l = t.fileAt l := by
  rw [fileAt, lookup_dropTop, if_neg h, fileAt]

theorem keys_dropTop (t : FileTree ν β) (name : ν) :
    (t.dropTop name).keys = t.keys.filter fun l => l.head? ≠ some name := by
  unfold AList.keys List.keys dropTop
  rw [List.filter_map]
  rfl

/-- Entries of a subtree put below a place, one by one. -/
theorem lookup_foldl_insert {name : ν} {place : List ν} {es : List (Sigma fun _ => Node ν β)}
    (hnodup : es.NodupKeys) (hname : ∀ e ∈ es, e.1.head? = some name) (t : FileTree ν β)
    (rest : List ν) :
    (es.foldl (fun t e => t.insert (place ++ e.1.tail) e.2) t).lookup (place ++ rest) =
      (es.dlookup (name :: rest)).or (t.lookup (place ++ rest)) := by
  induction es generalizing t with
  | nil => rfl
  | cons e es ih =>
    obtain ⟨l, n⟩ := e
    obtain ⟨hnew, hnodup'⟩ := List.nodupKeys_cons.1 hnodup
    obtain ⟨hhead, hname'⟩ := List.forall_mem_cons.1 hname
    obtain ⟨tail, rfl⟩ := List.head?_eq_some_iff.1 hhead
    rw [List.foldl_cons, ih hnodup' hname']
    by_cases heq : tail = rest
    · subst heq
      rw [List.dlookup_eq_none.2 hnew, List.dlookup_cons_eq, Option.none_or]
      exact AList.lookup_insert t
    · rw [List.dlookup_cons_ne _ _ (by simpa using Ne.symm heq)]
      congr 1
      exact AList.lookup_insert_ne fun h => heq (List.append_cancel_left h).symm

theorem lookup_graft (t source : FileTree ν β) (name : ν) (place rest : List ν) :
    (t.graft source name place).lookup (place ++ rest) =
      (source.lookup (name :: rest)).or (t.lookup (place ++ rest)) := by
  have hlookup : (source.entries.filter fun e => e.1.head? = some name).dlookup (name :: rest) =
      source.lookup (name :: rest) := by
    have hsub : ((source.entries.filter fun e => e.1.head? = some name)).NodupKeys :=
      source.nodupKeys.sublist List.filter_sublist
    ext n
    rw [← Option.mem_def, List.mem_dlookup_iff hsub, List.mem_filter, and_iff_left (by simp),
      ← AList.mem_lookup_iff, Option.mem_def]
  rw [graft, lookup_foldl_insert (source.nodupKeys.sublist List.filter_sublist)
    (fun e he => by simpa using (List.mem_filter.1 he).2), hlookup]

theorem lookup_graft_of_not_prefix (t source : FileTree ν β) (name : ν) {place l : List ν}
    (h : ¬ place <+: l) : (t.graft source name place).lookup l = t.lookup l := by
  rw [graft]
  generalize source.entries.filter (fun e => e.1.head? = some name) = es
  induction es generalizing t with
  | nil => rfl
  | cons e es ih =>
    rw [List.foldl_cons, ih, AList.lookup_insert_ne]
    rintro rfl
    exact h (List.prefix_append _ _)

/-! ### Moves -/

/-- What the tree `t` held is in `t'`, or at the same place below `root` in `archive`. -/
def Relocated (root : List ν) (t t' archive : FileTree ν β) : Prop :=
  ∀ l, t'.lookup l = t.lookup l ∨
    t'.lookup l = none ∧ archive.lookup (root ++ l) = t.lookup l

namespace Relocated

variable {root : List ν} {t t' archive archive' : FileTree ν β}

theorem refl (root : List ν) (t archive : FileTree ν β) : Relocated root t t archive :=
  fun _ => .inl rfl

/-- One more move. -/
theorem move (h : Relocated root t t' archive) (name : ν) :
    Relocated root t (t'.dropTop name) (archive.graft t' name (root ++ [name])) := by
  intro l
  rw [lookup_dropTop]
  by_cases hl : l.head? = some name
  · obtain ⟨rest, rfl⟩ := List.head?_eq_some_iff.1 hl
    have hplace : root ++ name :: rest = root ++ [name] ++ rest := by simp
    rw [if_pos hl, hplace, lookup_graft, ← hplace]
    rcases h (name :: rest) with heq | ⟨hnone, heq⟩
    · rw [heq]
      rcases t.lookup (name :: rest) with _ | n
      · exact .inl rfl
      · exact .inr ⟨rfl, rfl⟩
    · rw [hnone]
      exact .inr ⟨rfl, heq⟩
  · have hbelow : ¬ root ++ [name] <+: root ++ l := by
      rw [List.prefix_append_right_inj]
      rintro ⟨rest, rfl⟩
      exact hl rfl
    rw [if_neg hl, lookup_graft_of_not_prefix _ _ _ hbelow]
    exact h l

/-- A change of the archive outside of the place. -/
theorem mono (h : Relocated root t t' archive)
    (hsame : ∀ l n, archive.lookup (root ++ l) = some n → archive'.lookup (root ++ l) = some n) :
    Relocated root t t' archive' := by
  intro l
  rcases h l with heq | ⟨hnone, heq⟩
  · exact .inl heq
  · rcases hold : t.lookup l with _ | n
    · exact .inl hnone
    · exact .inr ⟨hnone, hsame l n (heq.trans hold)⟩

theorem fileAt (h : Relocated root t t' archive) {l : List ν} {b : β}
    (hb : t.fileAt l = some b) :
    t'.fileAt l = some b ∨ archive.fileAt (root ++ l) = some b := by
  unfold FileTree.fileAt at hb ⊢
  rcases h l with heq | ⟨-, heq⟩
  · exact .inl (by rw [heq]; exact hb)
  · exact .inr (by rw [heq]; exact hb)

end Relocated

/-! ### Rooted trees -/

/-- Every node stands in a directory. -/
structure Rooted (t : FileTree ν β) : Prop where
  root : [] ∉ t.keys
  parent : ∀ l ∈ t.keys, t.isDirectory l.dropLast

namespace Rooted

variable {t : FileTree ν β} {l k : List ν}

theorem isDirectory_eq_lookup (hk : k ≠ []) :
    t.isDirectory k = true ↔ t.lookup k = some .directory := by
  unfold isDirectory
  split
  · exact absurd rfl hk
  · rename_i hlookup
    exact iff_of_true rfl hlookup
  · rename_i hother
    exact iff_of_false Bool.false_ne_true hother

theorem mem_keys_of_isDirectory (hk : k ≠ []) (h : t.isDirectory k) : k ∈ t.keys := by
  rw [isDirectory_eq_lookup hk] at h
  exact AList.mem_keys.1 (AList.lookup_isSome.1 (by rw [h]; rfl))

/-- Every node on the way to another is a directory. -/
theorem isDirectory_of_prefix (h : t.Rooted) (hl : l ∈ t.keys) (hk : k <+: l) (hne : k ≠ l) :
    t.isDirectory k := by
  induction l using List.reverseRecOn with
  | nil => exact absurd (List.prefix_nil.1 hk) hne
  | append_singleton l c ih =>
    have hparent := h.parent _ hl
    rw [List.dropLast_concat] at hparent
    rcases List.prefix_concat_iff.1 hk with rfl | hk
    · exact absurd rfl hne
    · by_cases heq : k = l
      · exact heq ▸ hparent
      · have hne' : l ≠ [] := by
          rintro rfl
          exact heq (List.prefix_nil.1 hk)
        exact ih (mem_keys_of_isDirectory hne' hparent) hk heq

theorem mem_keys_of_fileAt {b : β} (hb : t.fileAt l = some b) : l ∈ t.keys := by
  unfold FileTree.fileAt at hb
  split at hb
  · rename_i hlookup
    exact AList.mem_keys.1 (AList.lookup_isSome.1 (by rw [hlookup]; rfl))
  · cases hb

/-- No link stands on the way to a file. -/
theorem not_linkOnPath (h : t.Rooted) {b : β} (hb : t.fileAt l = some b) : ¬ t.linkOnPath l := by
  intro hlink
  obtain ⟨k, hk, hlink⟩ := List.any_eq_true.1 hlink
  unfold isLink at hlink
  split at hlink
  · rename_i target hlookup
    have hmem : k ∈ t.keys := AList.mem_keys.1 (AList.lookup_isSome.1 (by rw [hlookup]; rfl))
    by_cases heq : k = l
    · subst heq
      unfold FileTree.fileAt at hb
      rw [hlookup] at hb
      cases hb
    · have hdir := h.isDirectory_of_prefix (mem_keys_of_fileAt hb) ((List.mem_inits _ _).1 hk) heq
      rw [isDirectory_eq_lookup fun hnil => h.root (hnil ▸ hmem), hlookup] at hdir
      cases hdir
  · cases hlink

theorem dropTop (h : t.Rooted) (name : ν) : (t.dropTop name).Rooted where
  root hmem := by
    rw [keys_dropTop] at hmem
    exact h.root (List.mem_filter.1 hmem).1
  parent l hl := by
    rw [keys_dropTop, List.mem_filter, decide_eq_true_eq] at hl
    have hparent := h.parent l hl.1
    have hhead : l.dropLast ≠ [] → l.dropLast.head? ≠ some name := by
      rcases l with _ | ⟨a, _ | ⟨b, l⟩⟩
      · intro hne
        exact absurd rfl hne
      · intro hne
        exact absurd rfl hne
      · exact fun _ => hl.2
    by_cases hnil : l.dropLast = []
    · rw [hnil]
      rfl
    · rw [isDirectory_eq_lookup hnil] at hparent ⊢
      rw [lookup_dropTop, if_neg (hhead hnil), hparent]

end Rooted

/-! ### Directories -/

omit [DecidableEq ν] in
theorem nodup_inits (l : List ν) : l.inits.Nodup := by
  induction l with
  | nil => simp
  | cons a l ih =>
    rw [List.inits_cons, List.nodup_cons]
    exact ⟨by simp, ih.map (List.cons_injective)⟩

omit [DecidableEq ν] in
theorem nodup_parents (l : List ν) : (parents l).Nodup := (nodup_inits _).tail

theorem makeDirectory_progress {t : FileTree ν β} {l : List ν}
    (h : ∀ n, t.lookup l = some n → n = .directory) : ∃ t', makeDirectory false t l = .ok t' := by
  unfold makeDirectory
  rcases hlookup : t.lookup l with _ | n
  · exact ⟨_, rfl⟩
  · obtain rfl := h n hlookup
    exact ⟨_, rfl⟩

/-- A directory is made where nothing was. -/
theorem lookup_makeDirectory {fails : Bool} {t t' : FileTree ν β} {l : List ν}
    (h : makeDirectory fails t l = .ok t') :
    t'.lookup l = some .directory ∧ ∀ k, t'.lookup k = t.lookup k ∨
      k = l ∧ t.lookup k = none ∧ t'.lookup k = some .directory := by
  unfold makeDirectory at h
  split at h
  · rename_i hlookup
    cases h
    exact ⟨hlookup, fun k => .inl rfl⟩
  · cases h
  · rename_i hlookup
    split_ifs at h
    cases h
    refine ⟨AList.lookup_insert t, fun k => ?_⟩
    by_cases hk : k = l
    · subst hk
      exact .inr ⟨rfl, hlookup, AList.lookup_insert t⟩
    · exact .inl (AList.lookup_insert_ne hk)

end FileTree
end OpenFoamAgent
