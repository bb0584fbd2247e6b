/-
# Local includes

`materialize_local_includes` of `tools/dictionary_policy.py`: the include directives of a text are
replaced by the files they name, and those by theirs. The directory tree is what `pathlib` says of
it; of a file that cannot be read only the size may be known.

`Flattens` says what a flattened text is, without budgets and without the order of the checks. The
expansion returns exactly the flattened texts whose files and whose result stay within the budget
and whose result holds no directive (`materialize_iff`); the checks on the way ask for nothing more.
A result is flattened again to itself, wherever it stands (`materialize_again`).
-/
import OpenFoamAgent.Library.Traversal
import OpenFoamAgent.Python.Codec
import OpenFoamAgent.Python.RegexInfix
import OpenFoamAgent.Python.RegexSubstitution
import OpenFoamAgent.Schemas.Plan
import OpenFoamAgent.Workspace.Path

namespace OpenFoamAgent
namespace Tools

open Python Schemas Workspace
open Pattern
open Traversal (bind_eq_ok)

/-! ### The directives -/

/-- `_INCLUDE`. -/
def includeRe : Pattern :=
  .all [lineStart, spaces, exactly "#include", someSpace, exactly "\"",
    .group "name" (.plus (.one fun c => c != '"' && c != '\n')), exactly "\"", spaces,
    .optional (exactly ";"), spaces, lineEnd]

/-- `#\s*include`, in any case. -/
def directiveRe : Pattern := .all [exactly "#", spaces, word "include"]

/-- `match.group(1)`. -/
def includeName (m : Cursor) : Text := (m.group "name").getD []

/-! ### The tree -/

/-- What `pathlib` says of a tree. A location is the list of the names below `/`. -/
structure Disk where
  isSymlink : Location → Bool
  resolve : Location → Location
  /-- `stat().st_size`; `none` where it raises. -/
  size : Location → Option ℕ
  /-- `read_bytes()`; `none` where it raises. -/
  read : Location → Option Bytes
  size_eq : ∀ {l data}, read l = some data → size l = some data.length

/-- The exceptions of an expansion. -/
inductive IncludeError where
  /-- `Include depth limit exceeded.` -/
  | depthLimit
  /-- `Unsafe include target.` -/
  | unsafeTarget
  /-- `Include escapes its explicitly trusted tree or uses a symlink.` -/
  | escapes
  /-- `Include cycle detected.` -/
  | cycle
  /-- `Expanded include byte budget exceeded.` -/
  | budget
  /-- `Only standalone literal #include directives are supported for materialization.` -/
  | unsupported
  /-- An `OSError`. -/
  | unreadable
  /-- A `UnicodeDecodeError`. -/
  | undecodable
  deriving DecidableEq

/-- A record of a file that was read. -/
structure IncludeRecord where
  path : Text
  sha256 : Digest
  deriving DecidableEq

/-- What an expansion has read so far. -/
structure Expansion where
  consumed : ℕ := 0
  records : List IncludeRecord := []

/-- `path.parents`. -/
def parents (l : Location) : List Location := l.inits.dropLast

namespace Disk

variable (d : Disk)

/-- The target of a directive. -/
def target (root directory : Location) (stack : List Location) (name : Text) :
    Except IncludeError Location :=
  let relative := pathParts name
  if name.head? = some '/' ∨ "..".toList ∈ relative ∨ '$' ∈ name ∨ '\\' ∈ name then
    .error .unsafeTarget
  else
    let raw := directory ++ relative
    let path := d.resolve raw
    if ¬ root <+: path ∨ d.isSymlink raw ∨
        ((parents raw).filter (· ≠ root.dropLast)).any d.isSymlink then .error .escapes
    else if path ∈ stack then .error .cycle
    else .ok path

/-- The record of a file below `root`. -/
def record (root : Location) (file : Location × Bytes) : IncludeRecord :=
  ⟨asPosix (file.1.drop root.length), ⟨file.2⟩⟩

/-- The text of an included file. -/
def readInclude (root : Location) (maxBytes : ℕ) (path : Location) (s : Expansion) :
    Except IncludeError (Text × Expansion) :=
  match d.size path with
  | none => .error .unreadable
  | some size =>
    let consumed := s.consumed + size
    if maxBytes < consumed then .error .budget
    else
      match d.read path with
      | none => .error .unreadable
      | some data =>
        match decode data with
        | none => .error .undecodable
        | some text => .ok (text, ⟨consumed, s.records ++ [record root (path, data)]⟩)

end Disk

/-! ### The expansion -/

/-- `_INCLUDE.sub(replace, body)`, for a replacement that reads files. -/
def substitute (replace : Cursor → Expansion → Except IncludeError (Text × Expansion)) :
    List (Char ⊕ Cursor) → Expansion → Except IncludeError (Text × Expansion)
  | [], s => .ok ([], s)
  | .inl c :: parts, s => do
    let (rest, s) ← substitute replace parts s
    return (c :: rest, s)
  | .inr m :: parts, s => do
    let (text, s) ← replace m s
    let (rest, s) ← substitute replace parts s
    return (text ++ rest, s)

/-- The checks behind a substitution. -/
def checkResult (maxBytes : ℕ) (result : Text) : Except IncludeError Unit :=
  if (directiveRe.search result).isSome then .error .unsupported
  else if maxBytes < (encode result).length then .error .budget
  else .ok ()

/-- `expand`, for the levels that `max_depth` leaves above a stack. -/
def expand (d : Disk) (root : Location) (maxBytes : ℕ) :
    ℕ → Text → Location → List Location → Expansion → Except IncludeError (Text × Expansion)
  | 0, _, _, _, _ => .error .depthLimit
  | levels + 1, body, directory, stack, s => do
    let (result, s) ← substitute (fun m s => do
      let path ← d.target root directory stack (includeName m)
      let (text, s) ← d.readInclude root maxBytes path s
      expand d root maxBytes levels text path.dropLast (stack ++ [path]) s) (includeRe.cut body) s
    checkResult maxBytes result
    return (result, s)

/-- `materialize_local_includes`. -/
def materializeLocalIncludes (d : Disk) (text : Text) (parent root : Location)
    (maxBytes : ℕ := 1000000) (maxDepth : ℕ := 12) :
    Except IncludeError (Text × List IncludeRecord) := do
  let (result, s) ← expand d (d.resolve root) maxBytes (maxDepth + 1) text (d.resolve parent) [] {}
  return (result, s.records)

/-! ### Flattened texts -/

/-- **A flattened text**, with the files that were read for it in their order: each directive is
replaced by the flattened text of its target, which no file above it is. -/
inductive Flattens (d : Disk) (root : Location) (maxDepth : ℕ) :
    List Location → Location → List (Char ⊕ Cursor) → Text → List (Location × Bytes) → Prop where
  | nil {stack directory} : Flattens d root maxDepth stack directory [] [] []
  | kept {stack directory parts out files} (c : Char)
      (h : Flattens d root maxDepth stack directory parts out files) :
      Flattens d root maxDepth stack directory (.inl c :: parts) (c :: out) files
  | included {stack directory parts out files text out' files'} {m : Cursor} {path : Location}
      {data : Bytes} (htarget : d.target root directory stack (includeName m) = .ok path)
      (hdepth : stack.length < maxDepth) (hread : d.read path = some data)
      (hdecode : decode data = some text)
      (h' : Flattens d root maxDepth (stack ++ [path]) path.dropLast (includeRe.cut text) out'
        files')
      (h : Flattens d root maxDepth stack directory parts out files) :
      Flattens d root maxDepth stack directory (.inr m :: parts) (out' ++ out)
        ((path, data) :: files' ++ files)

/-- The bytes of some files. -/
def totalSize (files : List (Location × Bytes)) : ℕ := (files.map fun f => f.2.length).sum

theorem totalSize_append (files files' : List (Location × Bytes)) :
    totalSize (files ++ files') = totalSize files + totalSize files' := by
  rw [totalSize, List.map_append, List.sum_append]
  rfl

/-- The state behind some files. -/
def Expansion.after (s : Expansion) (root : Location) (files : List (Location × Bytes)) :
    Expansion := ⟨s.consumed + totalSize files, s.records ++ files.map (Disk.record root)⟩

theorem Expansion.after_append (s : Expansion) (root : Location)
    (files files' : List (Location × Bytes)) :
    s.after root (files ++ files') = (s.after root files).after root files' := by
  simp only [after, totalSize_append, List.map_append, List.append_assoc, Nat.add_assoc]

@[simp] theorem Expansion.after_nil (s : Expansion) (root : Location) : s.after root [] = s := by
  simp [after, totalSize]

variable {d : Disk} {root : Location} {maxBytes maxDepth : ℕ}

theorem readInclude_eq_ok {path : Location} {s s' : Expansion} {text : Text} :
    d.readInclude root maxBytes path s = .ok (text, s') ↔ ∃ data, d.read path = some data ∧
      decode data = some text ∧ s' = s.after root [(path, data)] ∧ s'.consumed ≤ maxBytes := by
  unfold Disk.readInclude
  constructor
  · intro h
    split at h
    · cases h
    · rename_i size hsize
      dsimp only at h
      split_ifs at h with hbudget
      split at h
      · cases h
      · rename_i data hread
        split at h
        · cases h
        · rename_i text' hdecode
          cases h
          have hlength := (d.size_eq hread).symm.trans hsize
          obtain rfl := Option.some.inj hlength
          refine ⟨data, hread, hdecode, ?_, not_lt.1 hbudget⟩
          simp [Expansion.after, totalSize]
  · rintro ⟨data, hread, hdecode, rfl, hbudget⟩
    have hbudget' : ¬ maxBytes < s.consumed + data.length := by
      simpa [Expansion.after, totalSize] using hbudget
    rw [d.size_eq hread]
    dsimp only
    rw [if_neg hbudget', hread]
    dsimp only
    rw [hdecode]
    simp [Expansion.after, totalSize]

/-! ### The checks -/

theorem directive_plain : directiveRe.plain = true := by decide

theorem checkResult_eq_ok {result : Text} : checkResult maxBytes result = .ok () ↔
    ¬ directiveRe.Occurs result ∧ (encode result).length ≤ maxBytes := by
  unfold checkResult
  rw [← search_isSome_iff directive_plain]
  split_ifs with hdirective hbudget
  · exact iff_of_false (fun h => by cases h) fun h => h.1 hdirective
  · exact iff_of_false (fun h => by cases h) fun h => absurd hbudget (not_lt.2 h.2)
  · exact iff_of_true rfl ⟨hdirective, not_lt.1 hbudget⟩

/-- A text that passes the checks has parts that do. -/
theorem checkResult_part {a t b : Text} (h : checkResult maxBytes (a ++ t ++ b) = .ok ()) :
    checkResult maxBytes t = .ok () := by
  obtain ⟨hdirective, hbudget⟩ := checkResult_eq_ok.1 h
  refine checkResult_eq_ok.2 ⟨fun ht => hdirective (ht.within directive_plain a b), ?_⟩
  rw [encode, List.flatMap_append, List.flatMap_append, List.length_append,
    List.length_append] at hbudget
  exact le_trans (by rw [encode]; omega) hbudget

/-! ### What an expansion returns -/

/-- The replacement of a directive. -/
def replaceInclude (d : Disk) (root : Location) (maxBytes levels : ℕ) (directory : Location)
    (stack : List Location) (m : Cursor) (s : Expansion) :
    Except IncludeError (Text × Expansion) := do
  let path ← d.target root directory stack (includeName m)
  let (text, s) ← d.readInclude root maxBytes path s
  expand d root maxBytes levels text path.dropLast (stack ++ [path]) s

theorem expand_eq_ok {levels : ℕ} {body : Text} {directory : Location} {stack : List Location}
    {s s' : Expansion} {out : Text} :
    expand d root maxBytes (levels + 1) body directory stack s = .ok (out, s') ↔
      substitute (replaceInclude d root maxBytes levels directory stack) (includeRe.cut body) s =
        .ok (out, s') ∧ checkResult maxBytes out = .ok () := by
  rw [expand]
  constructor
  · intro h
    obtain ⟨⟨result, s₁⟩, hsubstitute, h⟩ := bind_eq_ok.1 h
    obtain ⟨⟨⟩, hcheck, h⟩ := bind_eq_ok.1 h
    cases h
    exact ⟨hsubstitute, hcheck⟩
  · rintro ⟨hsubstitute, hcheck⟩
    exact bind_eq_ok.2 ⟨_, hsubstitute, bind_eq_ok.2 ⟨_, hcheck, rfl⟩⟩

/-- A loop whose replacements are flattened texts returns one. -/
theorem flattens_of_substitute {levels : ℕ} {stack : List Location} {directory : Location}
    (hreplace : ∀ {m s s' t}, replaceInclude d root maxBytes levels directory stack m s =
        .ok (t, s') → ∃ path data text files,
      d.target root directory stack (includeName m) = .ok path ∧ stack.length < maxDepth ∧
      d.read path = some data ∧ decode data = some text ∧
      Flattens d root maxDepth (stack ++ [path]) path.dropLast (includeRe.cut text) t files ∧
      s' = s.after root ((path, data) :: files) ∧ s'.consumed ≤ maxBytes)
    {parts : List (Char ⊕ Cursor)} {s s' : Expansion} {out : Text} (hs : s.consumed ≤ maxBytes)
    (h : substitute (replaceInclude d root maxBytes levels directory stack) parts s =
      .ok (out, s')) :
    ∃ files, Flattens d root maxDepth stack directory parts out files ∧ s' = s.after root files ∧
      s'.consumed ≤ maxBytes := by
  induction parts generalizing s out with
  | nil =>
    cases h
    exact ⟨[], .nil, (Expansion.after_nil _ root).symm, hs⟩
  | cons part parts ih =>
    cases part with
    | inl c =>
      obtain ⟨⟨rest, s₁⟩, hrest, h⟩ := bind_eq_ok.1 h
      cases h
      obtain ⟨files, hflattens, hafter, hbudget⟩ := ih hs hrest
      exact ⟨files, .kept c hflattens, hafter, hbudget⟩
    | inr m =>
      obtain ⟨⟨t, s₁⟩, hm, h⟩ := bind_eq_ok.1 h
      obtain ⟨⟨rest, s₂⟩, hrest, h⟩ := bind_eq_ok.1 h
      cases h
      obtain ⟨path, data, text, files', htarget, hdepth, hread, hdecode, hflattens', rfl,
        hbudget'⟩ := hreplace hm
      obtain ⟨files, hflattens, hafter, hbudget⟩ := ih hbudget' hrest
      exact ⟨_, .included htarget hdepth hread hdecode hflattens' hflattens,
        hafter.trans (s.after_append root _ files).symm, hbudget⟩

/-- What an expansion returns is flattened, and its files fit the budget. -/
theorem flattens_of_expand {levels : ℕ} {body : Text} {stack : List Location} {directory : Location}
    {s s' : Expansion} {out : Text} (hlevels : levels + stack.length = maxDepth + 1)
    (hs : s.consumed ≤ maxBytes)
    (h : expand d root maxBytes levels body directory stack s = .ok (out, s')) :
    ∃ files, Flattens d root maxDepth stack directory (includeRe.cut body) out files ∧
      s' = s.after root files ∧ s'.consumed ≤ maxBytes := by
  induction levels generalizing body stack directory s s' out with
  | zero => cases h
  | succ levels ih =>
    refine flattens_of_substitute ?_ hs (expand_eq_ok.1 h).1
    intro m s s' t hm
    obtain ⟨path, htarget, hm⟩ := bind_eq_ok.1 hm
    obtain ⟨⟨text, s₁⟩, hinclude, hm⟩ := bind_eq_ok.1 hm
    obtain ⟨data, hread, hdecode, rfl, hbudget⟩ := readInclude_eq_ok.1 hinclude
    cases levels with
    | zero => cases hm
    | succ levels =>
      have hlevels' : levels + 1 + (stack ++ [path]).length = maxDepth + 1 := by
        rw [List.length_append, List.length_singleton]
        omega
      obtain ⟨files, hflattens, hafter, hbudget'⟩ := ih hlevels' hbudget hm
      exact ⟨path, data, text, files, htarget, by omega, hread, hdecode, hflattens,
        hafter.trans (s.after_append root [(path, data)] files).symm, hbudget'⟩

/-- A flattened text is returned where its files fit the budget and its own checks pass: those of
its parts ask for nothing more. -/
theorem substitute_of_flattens {stack : List Location} {directory : Location}
    {parts : List (Char ⊕ Cursor)} {out : Text} {files : List (Location × Bytes)}
    (h : Flattens d root maxDepth stack directory parts out files) {levels : ℕ} {s : Expansion}
    (hlevels : levels + stack.length = maxDepth) (hbudget : s.consumed + totalSize files ≤ maxBytes)
    (hcheck : checkResult maxBytes out = .ok ()) :
    substitute (replaceInclude d root maxBytes levels directory stack) parts s =
      .ok (out, s.after root files) := by
  induction h generalizing levels s with
  | nil => rw [Expansion.after_nil, substitute]
  | kept c h ih =>
    have hrest := ih hlevels hbudget
      (checkResult_part (a := [c]) (b := []) (by simpa using hcheck))
    rw [substitute, hrest]
    rfl
  | @included stack directory parts out files text out' files' m path data htarget hdepth hread
      hdecode h' h ih' ih =>
    have hsplit : s.after root ((path, data) :: files' ++ files) =
        ((s.after root [(path, data)]).after root files').after root files := by
      rw [← Expansion.after_append, ← Expansion.after_append]
      rfl
    have htotal : totalSize ((path, data) :: files' ++ files) =
        totalSize [(path, data)] + totalSize files' + totalSize files := by
      rw [← totalSize_append, ← totalSize_append]
      rfl
    have hinclude : d.readInclude root maxBytes path s = .ok (text, s.after root [(path, data)]) :=
      readInclude_eq_ok.2 ⟨data, hread, hdecode, rfl, by
        dsimp only [Expansion.after]
        omega⟩
    obtain ⟨levels, rfl⟩ : ∃ k, levels = k + 1 := ⟨levels - 1, by omega⟩
    have hlevels' : levels + (stack ++ [path]).length = maxDepth := by
      rw [List.length_append, List.length_singleton]
      omega
    have hcheck' : checkResult maxBytes out' = .ok () :=
      checkResult_part (a := []) (b := out) (by simpa using hcheck)
    have hchild := expand_eq_ok.2 ⟨ih' (s := s.after root [(path, data)]) hlevels' (by
      dsimp only [Expansion.after]
      omega) hcheck', hcheck'⟩
    have hrest := ih (s := (s.after root [(path, data)]).after root files') hlevels (by
      dsimp only [Expansion.after]
      omega) (checkResult_part (a := out') (b := []) (by simpa using hcheck))
    have hreplace : replaceInclude d root maxBytes (levels + 1) directory stack m s =
        .ok (out', (s.after root [(path, data)]).after root files') :=
      bind_eq_ok.2 ⟨path, htarget, bind_eq_ok.2 ⟨_, hinclude, hchild⟩⟩
    rw [hsplit]
    exact bind_eq_ok.2 ⟨_, hreplace, bind_eq_ok.2 ⟨_, hrest, rfl⟩⟩

/-- **What a materialization returns.** The expansion returns a text exactly where it is the
flattened one, the files that were read and the text fit the budget of bytes, and the text holds no
directive; the records are those of the files, in their order. -/
theorem materialize_iff (d : Disk) (text : Text) (parent root : Location) (maxBytes maxDepth : ℕ)
    (out : Text) (records : List IncludeRecord) :
    materializeLocalIncludes d text parent root maxBytes maxDepth = .ok (out, records) ↔
      ∃ files, Flattens d (d.resolve root) maxDepth [] (d.resolve parent) (includeRe.cut text) out
          files ∧
        records = files.map (Disk.record (d.resolve root)) ∧ totalSize files ≤ maxBytes ∧
        (encode out).length ≤ maxBytes ∧ (directiveRe.search out).isNone := by
  have hcheck : (encode out).length ≤ maxBytes ∧ (directiveRe.search out).isNone ↔
      checkResult maxBytes out = .ok () := by
    rw [checkResult_eq_ok, ← search_isSome_iff directive_plain, Option.not_isSome_iff_eq_none,
      ← Option.isNone_iff_eq_none, and_comm]
  rw [hcheck]
  constructor
  · intro h
    obtain ⟨⟨result, s⟩, hexpand, h⟩ := bind_eq_ok.1 h
    cases h
    obtain ⟨files, hflattens, rfl, hbudget⟩ :=
      flattens_of_expand (s := {}) rfl (Nat.zero_le _) hexpand
    refine ⟨files, hflattens, rfl, ?_, (expand_eq_ok.1 hexpand).2⟩
    simpa [Expansion.after] using hbudget
  · rintro ⟨files, hflattens, rfl, hbudget, hcheck⟩
    have hsubstitute :=
      substitute_of_flattens (s := {}) hflattens rfl (by simpa using hbudget) hcheck
    refine bind_eq_ok.2 ⟨_, expand_eq_ok.2 ⟨hsubstitute, hcheck⟩, ?_⟩
    rfl

/-! ### A nested case -/

/-- A tree without symlinks that holds some files. -/
def diskOf (files : List (List String × String)) : Disk where
  isSymlink _ := false
  resolve l := l
  size l := (files.lookup (l.map .ofList)).map fun text => (encode text.toList).length
  read l := (files.lookup (l.map .ofList)).map fun text => encode text.toList
  size_eq h := by
    obtain ⟨text, htext, rfl⟩ := Option.map_eq_some_iff.1 h
    rw [htext]
    rfl

/-- A case in which an included file includes another one. -/
def nestedCase : Disk :=
  diskOf [(["case", "a"], "x 1;\n#include \"sub/b\"\n"), (["case", "sub", "b"], "y 2;\n")]

/-- The text of the nested case. -/
def nestedText : Text := "x 1;\ny 2;\n\nz 3;\n".toList

theorem nestedCase_materialized :
    materializeLocalIncludes nestedCase "#include \"a\"\nz 3;\n".toList ["case".toList]
        ["case".toList] 1000 12 =
      .ok (nestedText, [⟨"a".toList, ⟨encode "x 1;\n#include \"sub/b\"\n".toList⟩⟩,
        ⟨"sub/b".toList, ⟨encode "y 2;\n".toList⟩⟩]) := by
  decide +kernel

/-! ### The files that were read -/

/-- A file that an expansion may read: it lies below the root, and no symlink is on the way. -/
structure Confined (d : Disk) (root : Location) (record : IncludeRecord) (raw : Location) :
    Prop where
  below : root <+: d.resolve raw
  noLink : d.isSymlink raw = false
  noLinkAbove : ∀ p ∈ parents raw, p ≠ root.dropLast → d.isSymlink p = false
  path : record.path = asPosix ((d.resolve raw).drop root.length)
  read : d.read (d.resolve raw) = some record.sha256.preimage

theorem confined_of_target {directory : Location} {stack : List Location} {name : Text}
    {path : Location} {data : Bytes} (h : d.target root directory stack name = .ok path)
    (hread : d.read path = some data) :
    ∃ raw, Confined d root (Disk.record root (path, data)) raw := by
  unfold Disk.target at h
  dsimp only at h
  split_ifs at h with hname hescapes hcycle
  cases h
  rw [not_or, not_or, not_not] at hescapes
  obtain ⟨hbelow, hlink, habove⟩ := hescapes
  refine ⟨_, hbelow, Bool.eq_false_of_not_eq_true hlink, fun p hp hne => ?_, rfl, hread⟩
  by_contra hp'
  refine habove (List.any_eq_true.2 ⟨p, List.mem_filter.2 ⟨hp, ?_⟩, Bool.of_not_eq_false hp'⟩)
  exact decide_eq_true hne

theorem Flattens.confined {stack : List Location} {directory : Location}
    {parts : List (Char ⊕ Cursor)} {out : Text} {files : List (Location × Bytes)}
    (h : Flattens d root maxDepth stack directory parts out files) :
    ∀ file ∈ files, ∃ raw, Confined d root (Disk.record root file) raw := by
  induction h with
  | nil => exact fun file hfile => by cases hfile
  | kept c h ih => exact ih
  | included htarget hdepth hread hdecode h' h ih' ih =>
    intro file hfile
    rcases List.mem_append.1 hfile with hfile | hfile
    · rcases List.mem_cons.1 hfile with rfl | hfile
      · exact confined_of_target htarget hread
      · exact ih' file hfile
    · exact ih file hfile

/-- **What is read is trusted.** Every record of a materialization is of a file below the root, with
its digest, that no symlink leads to, and the bytes of all of them are within the budget. -/
theorem materialize_confined {text : Text} {parent : Location} {out : Text}
    {records : List IncludeRecord}
    (h : materializeLocalIncludes d text parent root maxBytes maxDepth = .ok (out, records)) :
    (∀ record ∈ records, ∃ raw, Confined d (d.resolve root) record raw) ∧
      (records.map fun record => record.sha256.preimage.length).sum ≤ maxBytes := by
  obtain ⟨files, hflattens, rfl, htotal, -⟩ := (materialize_iff ..).1 h
  constructor
  · intro record hrecord
    obtain ⟨file, hfile, rfl⟩ := List.mem_map.1 hrecord
    exact hflattens.confined file hfile
  · rw [List.map_map]
    exact htotal

theorem materialize_confined_nested :
    (∀ record ∈ [⟨"a".toList, ⟨encode "x 1;\n#include \"sub/b\"\n".toList⟩⟩,
        ⟨"sub/b".toList, ⟨encode "y 2;\n".toList⟩⟩],
      ∃ raw, Confined nestedCase ["case".toList] record raw) ∧ 27 ≤ 1000 :=
  materialize_confined nestedCase_materialized

/-! ### A second expansion -/

/-- An include directive holds what the check of the result looks for. -/
theorem directive_occurs {s m : Cursor} (h : m ∈ includeRe.run s) : directiveRe.Occurs s.ahead := by
  obtain ⟨s₁, hstart, h⟩ := List.mem_flatMap.1 h
  obtain ⟨s₂, hspaces, h⟩ := List.mem_flatMap.1 h
  obtain ⟨s₃, hword, -⟩ := List.mem_flatMap.1 h
  obtain ⟨before₁, hbefore₁⟩ := (run_reads hstart).suffix
  obtain ⟨before₂, hbefore₂⟩ := (run_reads hspaces).suffix
  have hword := run_exactly hword
  have hoccurs : directiveRe.Occurs "#include".toList :=
    (search_isSome_iff directive_plain _).1 (by decide +kernel)
  have hwithin := hoccurs.within directive_plain (before₁ ++ before₂) s₃.ahead
  rw [← hbefore₁, ← hbefore₂, hword]
  simpa only [List.append_assoc] using hwithin

/-- A text without directives is flattened to itself. -/
theorem flattens_kept (d : Disk) (root : Location) (maxDepth : ℕ) (stack : List Location)
    (directory : Location) (text : Text) :
    Flattens d root maxDepth stack directory (text.map .inl) text [] := by
  induction text with
  | nil => exact .nil
  | cons c cs ih => exact .kept c ih

/-- **A materialized text is final.** Materialized again, under any directory and in any tree, it
stays as it is and no file is read for it. -/
theorem materialize_again {text : Text} {parent : Location} {out : Text}
    {records : List IncludeRecord}
    (h : materializeLocalIncludes d text parent root maxBytes maxDepth = .ok (out, records))
    (d' : Disk) (parent' root' : Location) (maxDepth' : ℕ) :
    materializeLocalIncludes d' out parent' root' maxBytes maxDepth' = .ok (out, []) := by
  obtain ⟨-, -, -, -, hlength, hnone⟩ := (materialize_iff ..).1 h
  have habsent : ¬ directiveRe.Occurs out := by
    rw [← search_isSome_iff directive_plain, Option.not_isSome_iff_eq_none]
    exact Option.isNone_iff_eq_none.1 hnone
  have hcut : includeRe.cut out = out.map .inl := by
    refine cut_eq_map fun before rest behind hout => ?_
    by_contra hrun
    obtain ⟨m, hm⟩ := List.exists_mem_of_ne_nil _ hrun
    have hoccurs := (directive_occurs hm).within directive_plain before []
    rw [List.append_nil, ← hout] at hoccurs
    exact habsent hoccurs
  refine (materialize_iff ..).2 ⟨[], ?_, rfl, Nat.zero_le _, hlength, hnone⟩
  rw [hcut]
  exact flattens_kept ..

theorem materialize_again_nested :
    materializeLocalIncludes (diskOf []) nestedText [] [] 1000 0 = .ok (nestedText, []) :=
  materialize_again nestedCase_materialized _ _ _ _

end Tools
end OpenFoamAgent
