/-
# Case paths

`CaseWorkspace._normalized` and `CaseWorkspace._validate_relative` of
`tools/workspace.py`, with the reading of a relative path by `pathlib.Path`.

Two notions of a path's identity live side by side here. `normalized` is the
text without leading and trailing slashes, and the workspace keys its tracking
sets by it. `pathParts` is what the file system sees: `Path` also drops the
empty and `.` components inside the text. `locate_eq_pathParts` says that the
stripping never changes the place, `locate_asPosix` that every place has one
text of its own, the text a seal records.
-/
import OpenFoamAgent.Python.Text

namespace OpenFoamAgent
namespace Workspace

open Python

/-- A place below `case/`: the names on the way to it. -/
abbrev Location := List Text

/-- `_WRITABLE_TOP_LEVEL`. -/
def writableTopLevel : List Text :=
  ["0".toList, "constant".toList, "system".toList, "postprocessConfig".toList]

/-- `_EXECUTION_INPUT_TOP_LEVEL`. -/
def executionInputTopLevel : List Text :=
  ["0".toList, "constant".toList, "system".toList]

/-- `_SAFE_PART.fullmatch(part)`: one or more of `[A-Za-z0-9_.-]`. -/
def safePart (part : Text) : Bool :=
  !part.isEmpty && part.all fun c => isAsciiWord c || c == '.' || c == '-'

/-- `Path(text).parts` of a text that does not start with a slash. -/
def pathParts (t : Text) : Location :=
  (t.splitOn '/').filter fun p => !p.isEmpty && p != ['.']

/-- `"/".join(parts)`, the `as_posix()` of a relative path. -/
def asPosix (l : Location) : Text := ['/'].intercalate l

/-- The exceptions raised while a path text is read. -/
inductive PathError where
  /-- `Case paths must use forward slashes.` -/
  | backslash
  /-- `Unsafe case path: {relative_text!r}` -/
  | unsafePath (relativeText : Text)
  deriving DecidableEq

/-- `CaseWorkspace._normalized`. -/
def normalized (relativeText : Text) : Except PathError Text :=
  if '\\' ∈ relativeText then .error .backslash
  else .ok (stripBy (· == '/') relativeText)

/-- The condition of `_validate_relative` on the parts of a path. -/
def safeParts (parts : Location) : Bool :=
  match parts with
  | [] => false
  | top :: _ =>
    top ∈ writableTopLevel &&
      parts.all fun part => part != "..".toList && part != ".".toList && safePart part

/-- `CaseWorkspace._validate_relative`. The text is stripped of leading slashes,
so `relative.is_absolute()` is never the reason for a refusal. -/
def validateRelative (relativeText : Text) : Except PathError Location := do
  let text ← normalized relativeText
  let parts := pathParts text
  if safeParts parts then .ok parts else .error (.unsafePath relativeText)

/-- The place a path text names, whatever `validateRelative` says of it. -/
def locate (relativeText : Text) : Location := pathParts (stripBy (· == '/') relativeText)

/-! ### One place, many texts -/

theorem pathParts_append_slash (t u : Text) :
    pathParts (t ++ '/' :: u) = pathParts t ++ pathParts u := by
  rw [pathParts, List.splitOn_append_cons_self, List.filter_append]
  rfl

theorem pathParts_dropWhile (t : Text) : pathParts (t.dropWhile (· == '/')) = pathParts t := by
  induction t with
  | nil => rfl
  | cons c cs ih =>
    rw [List.dropWhile_cons]
    split_ifs with hc
    · rw [ih, eq_of_beq hc]
      exact (pathParts_append_slash [] cs).symm
    · rfl

theorem pathParts_rdropWhile (t : Text) : pathParts (t.rdropWhile (· == '/')) = pathParts t := by
  induction t using List.reverseRecOn with
  | nil => rfl
  | append_singleton cs c ih =>
    rw [List.rdropWhile_concat]
    split_ifs with hc
    · rw [ih, eq_of_beq hc, pathParts_append_slash]
      exact (List.append_nil _).symm
    · rfl

/-- The slashes that `_normalized` strips never change the place. -/
theorem locate_eq_pathParts (t : Text) : locate t = pathParts t := by
  rw [locate, stripBy, pathParts_rdropWhile, pathParts_dropWhile]

/-- A name a file system can hold. -/
def FileName (name : Text) : Prop := name ≠ [] ∧ '/' ∉ name ∧ name ≠ ['.']

instance (name : Text) : Decidable (FileName name) :=
  inferInstanceAs (Decidable (name ≠ [] ∧ '/' ∉ name ∧ name ≠ ['.']))

/-- The `as_posix()` text of a place names that place. -/
theorem locate_asPosix {l : Location} (hl : l ≠ []) (h : ∀ name ∈ l, FileName name) :
    locate (asPosix l) = l := by
  rw [locate_eq_pathParts, pathParts, asPosix,
    List.splitOn_intercalate _ (fun name hn => (h name hn).2.1) hl, List.filter_eq_self]
  intro name hn
  obtain ⟨hne, -, hdot⟩ := h name hn
  simp [hne, hdot]

theorem normalized_eq_ok {t n : Text} (h : normalized t = .ok n) : n = stripBy (· == '/') t := by
  unfold normalized at h
  split_ifs at h
  exact (Except.ok.inj h).symm

theorem validateRelative_eq_ok {t : Text} {l : Location} (h : validateRelative t = .ok l) :
    l = locate t ∧ safeParts l ∧ '\\' ∉ t := by
  unfold validateRelative normalized at h
  split_ifs at h with hb
  · cases h
  · simp only [bind, Except.bind] at h
    split_ifs at h with hs
    obtain rfl := Except.ok.inj h
    exact ⟨rfl, hs, hb⟩

end Workspace
end OpenFoamAgent
