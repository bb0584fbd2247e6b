/-
# File trees

A directory tree as a finite map from locations (the names on the way from the
root) to nodes, with the system calls a program makes on it: `mkdir -p`, the
atomic replacement of a file, `unlink`, `rmdir`. Every call may also fail for a
reason of the host, given by a Boolean argument.

The frame lemmas say what a call leaves as it was: the files at every location
it was not given. Directories come and go freely below them.
-/
import Mathlib.Data.List.AList

namespace OpenFoamAgent

/-- What a location of a tree holds: a file, a directory, or a symbolic link,
whose target is `none` when it leads out of the tree. -/
inductive Node (ν β : Type) where
  | file (content : β)
  | directory
  | link (target : Option (List ν))
  deriving DecidableEq

/-- A directory tree. The root `[]` is always a directory and is not stored. -/
abbrev FileTree (ν β : Type) := AList (fun _ : List ν => Node ν β)

/-- Why a system call failed. -/
inductive FsError where
  | notFound
  | notDirectory
  | isDirectory
  | exists
  | notEmpty
  | host
  deriving DecidableEq

namespace FileTree

variable {ν β : Type} [DecidableEq ν]

/-- The content of the regular file at `l`. -/
def fileAt (t : FileTree ν β) (l : List ν) : Option β :=
  match t.lookup l with
  | some (.file b) => some b
  | _ => none

def isFile (t : FileTree ν β) (l : List ν) : Bool := (t.fileAt l).isSome

def isLink (t : FileTree ν β) (l : List ν) : Bool :=
  match t.lookup l with
  | some (.link _) => true
  | _ => false

def isDirectory (t : FileTree ν β) (l : List ν) : Bool :=
  match l, t.lookup l with
  | [], _ => true
  | _, some .directory => true
  | _, _ => false

/-- Some component on the way to `l` is a symbolic link. -/
def linkOnPath (t : FileTree ν β) (l : List ν) : Bool := l.inits.any t.isLink

/-- `mkdir` of one directory that may exist already. -/
def makeDirectory (fails : Bool) (t : FileTree ν β) (l : List ν) : Except FsError (FileTree ν β) :=
  match t.lookup l with
  | some .directory => .ok t
  | some _ => .error .exists
  | none => if fails then .error .host else .ok (t.insert l .directory)

/-- `mkdir -p`: the directories `ls` from the outermost on. The directories made
before a failure stay. -/
def makeDirectories (fails : List ν → Bool) (t : FileTree ν β) :
    List (List ν) → FileTree ν β × Except FsError Unit
  | [] => (t, .ok ())
  | l :: ls =>
    match makeDirectory (fails l) t l with
    | .error e => (t, .error e)
    | .ok t' => makeDirectories fails t' ls

/-- The directories that hold `l`, without the root, from the outermost on. -/
def parents (l : List ν) : List (List ν) := l.dropLast.inits.tail

/-- A file is replaced or created at `l` in one step. -/
def replaceFile (fails : Bool) (t : FileTree ν β) (l : List ν) (b : β) :
    Except FsError (FileTree ν β) :=
  if t.isDirectory l then .error .isDirectory
  else if !t.isDirectory l.dropLast then .error .notDirectory
  else if fails then .error .host
  else .ok (t.insert l (.file b))

/-- Some name on the way to `l` is a file. -/
def belowFile (t : FileTree ν β) (l : List ν) : Bool := (parents l).any t.isFile

/-- `unlink`. -/
def unlink (fails : Bool) (t : FileTree ν β) (l : List ν) : Except FsError (FileTree ν β) :=
  if t.isDirectory l then .error .isDirectory
  else if (t.lookup l).isNone then .error (if t.belowFile l then .notDirectory else .notFound)
  else if fails then .error .host
  else .ok (t.erase l)

/-- Some node lies directly below `l`. -/
def hasChildren (t : FileTree ν β) (l : List ν) : Bool :=
  t.keys.any fun k => k != [] && k.dropLast == l

/-- `rmdir` of each of the directories `ls` in turn, up to the first that is missing or
not empty; it raises where the host refuses. -/
def removeEmptyDirectories (fails : List ν → Bool) (t : FileTree ν β) :
    List (List ν) → FileTree ν β × Except FsError Unit
  | [] => (t, .ok ())
  | l :: ls =>
    if t.isDirectory l && !t.hasChildren l then
      if fails l then (t, .error .host)
      else removeEmptyDirectories fails (t.erase l) ls
    else (t, .ok ())

/-! ### Single nodes -/

theorem fileAt_insert_self (t : FileTree ν β) (l : List ν) (b : β) :
    fileAt (t.insert l (.file b)) l = some b := by
  simp [fileAt]

theorem fileAt_insert_of_ne (t : FileTree ν β) {l k : List ν} (n : Node ν β) (h : k ≠ l) :
    fileAt (t.insert l n) k = t.fileAt k := by
  simp [fileAt, AList.lookup_insert_ne h]

theorem fileAt_erase_of_ne (t : FileTree ν β) {l k : List ν} (h : k ≠ l) :
    fileAt (t.erase l) k = t.fileAt k := by
  simp [fileAt, AList.lookup_erase_ne h]

theorem fileAt_erase_self (t : FileTree ν β) (l : List ν) : fileAt (t.erase l) l = none := by
  simp [fileAt]

theorem isLink_of_insert {t : FileTree ν β} {l k : List ν} {n : Node ν β}
    (hn : ∀ o, n ≠ .link o) (h : isLink (t.insert l n) k) : t.isLink k := by
  by_cases hk : k = l
  · subst hk
    unfold isLink at h
    rw [AList.lookup_insert] at h
    split at h
    · rename_i o heq; exact absurd (Option.some.inj heq) (hn o)
    · cases h
  · simpa [isLink, AList.lookup_insert_ne hk] using h

theorem isLink_of_erase {t : FileTree ν β} {l k : List ν} (h : isLink (t.erase l) k) :
    t.isLink k := by
  by_cases hk : k = l
  · subst hk; simp [isLink] at h
  · simpa [isLink, AList.lookup_erase_ne hk] using h

/-- A node over no link, and no link itself, changes no link. -/
theorem isLink_insert {t : FileTree ν β} {l : List ν} {n : Node ν β} (hl : ¬ t.isLink l)
    (hn : ∀ o, n ≠ .link o) (k : List ν) : isLink (t.insert l n) k = t.isLink k := by
  by_cases hk : k = l
  · subst hk
    rw [Bool.not_eq_true] at hl
    rw [hl, Bool.eq_false_iff]
    exact fun h => by rw [isLink_of_insert hn h] at hl; cases hl
  · simp [isLink, AList.lookup_insert_ne hk]

/-- Directories are only made where nothing is. -/
theorem isLink_makeDirectories (fails : List ν → Bool) (t : FileTree ν β) (ls : List (List ν))
    (k : List ν) : (makeDirectories fails t ls).1.isLink k = t.isLink k := by
  induction ls generalizing t with
  | nil => rfl
  | cons l ls ih =>
    unfold makeDirectories
    split
    · rfl
    · rename_i t' h
      rw [ih]
      unfold makeDirectory at h
      split at h
      · cases h; rfl
      · cases h
      · rename_i hnone
        split_ifs at h
        cases h
        have hl : ¬ t.isLink l := by simp [isLink, hnone]
        exact isLink_insert (n := .directory) hl nofun k

/-! ### Frames -/

/-- Outside the locations `S` the tree `t'` has the files of `t`, and it has no
symbolic link that `t` has not. -/
structure SameOutside (S : Set (List ν)) (t t' : FileTree ν β) : Prop where
  files : ∀ k ∉ S, t'.fileAt k = t.fileAt k
  links : ∀ k, t'.isLink k → t.isLink k

namespace SameOutside

variable {S T : Set (List ν)} {t t' t'' : FileTree ν β}

theorem refl (S : Set (List ν)) (t : FileTree ν β) : SameOutside S t t :=
  ⟨fun _ _ => rfl, fun _ h => h⟩

theorem trans (h : SameOutside S t t') (h' : SameOutside S t' t'') : SameOutside S t t'' :=
  ⟨fun k hk => (h'.files k hk).trans (h.files k hk), fun k hk => h.links k (h'.links k hk)⟩

theorem mono (hST : S ⊆ T) (h : SameOutside S t t') : SameOutside T t t' :=
  ⟨fun k hk => h.files k fun hS => hk (hST hS), h.links⟩

theorem insert {l : List ν} (hl : l ∈ S) {n : Node ν β} (hn : ∀ o, n ≠ .link o) :
    SameOutside S t (t.insert l n) :=
  ⟨fun _ hk => fileAt_insert_of_ne t n fun e => hk (e ▸ hl), fun _ => isLink_of_insert hn⟩

theorem erase {l : List ν} (hl : l ∈ S) : SameOutside S t (t.erase l) :=
  ⟨fun _ hk => fileAt_erase_of_ne t fun e => hk (e ▸ hl), fun _ => isLink_of_erase⟩

/-- No call makes a directory where a file is. -/
theorem makeDirectory {fails : Bool} {l : List ν} (h : makeDirectory fails t l = .ok t') :
    SameOutside S t t' := by
  unfold FileTree.makeDirectory at h
  split at h
  · cases h; exact .refl S t
  · cases h
  · rename_i hnone
    split_ifs at h
    cases h
    refine ⟨fun k _ => ?_, fun _ => isLink_of_insert nofun⟩
    by_cases hk : k = l
    · subst hk; simp [fileAt, hnone]
    · exact fileAt_insert_of_ne t _ hk

theorem makeDirectories (fails : List ν → Bool) (t : FileTree ν β) (ls : List (List ν)) :
    SameOutside S t (makeDirectories fails t ls).1 := by
  induction ls generalizing t with
  | nil => exact .refl S t
  | cons l ls ih =>
    unfold FileTree.makeDirectories
    split
    · exact .refl S t
    · rename_i t' h
      exact (makeDirectory h).trans (ih t')

theorem replaceFile {fails : Bool} {l : List ν} {b : β} (hl : l ∈ S)
    (h : replaceFile fails t l b = .ok t') : SameOutside S t t' := by
  unfold FileTree.replaceFile at h
  split_ifs at h
  cases h
  exact insert hl nofun

theorem unlink {fails : Bool} {l : List ν} (hl : l ∈ S) (h : unlink fails t l = .ok t') :
    SameOutside S t t' := by
  unfold FileTree.unlink at h
  split_ifs at h
  cases h
  exact erase hl

/-- A directory holds no content, so dropping it drops no file. -/
theorem erase_directory {l : List ν} (h : t.isDirectory l) (hl : l ≠ []) :
    SameOutside S t (t.erase l) := by
  refine ⟨fun k _ => ?_, fun _ => isLink_of_erase⟩
  by_cases hk : k = l
  · subst hk
    rw [fileAt_erase_self]
    unfold isDirectory at h
    split at h
    · exact absurd rfl hl
    · rename_i hd; simp [fileAt, hd]
    · cases h
  · exact fileAt_erase_of_ne t hk

theorem removeEmptyDirectories (fails : List ν → Bool) (t : FileTree ν β) {ls : List (List ν)}
    (hls : [] ∉ ls) : SameOutside S t (removeEmptyDirectories fails t ls).1 := by
  induction ls generalizing t with
  | nil => exact .refl S t
  | cons l ls ih =>
    have hl : l ≠ [] := fun e => hls (e ▸ List.mem_cons_self)
    have hls' : [] ∉ ls := fun hm => hls (List.mem_cons_of_mem _ hm)
    unfold FileTree.removeEmptyDirectories
    split_ifs with hd hf
    · exact .refl S t
    · exact (erase_directory (by simp_all) hl).trans (ih _ hls')
    · exact .refl S t

end SameOutside

omit [DecidableEq ν] in
theorem nil_notMem_parents (l : List ν) : [] ∉ parents l := by
  unfold parents
  cases l.dropLast with
  | nil => simp
  | cons a as => simp

end FileTree
end OpenFoamAgent
