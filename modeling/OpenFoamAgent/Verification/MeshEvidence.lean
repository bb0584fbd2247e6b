/-
# The evidence of a mesh check

`parse_check_mesh_evidence` of `verification/safety.py`: what a run of `checkMesh` shows of
a mesh, read from the captured output, or from its log where there is one. The log is read
line by line, within bounds, and only its summary lines are kept; a line that tells of a
fatal error or of a failed check, and whatever breaks the bounds, makes the evidence fail.

Where the log holds the captured output within the bounds, no line tells of a failure and no
summary breaks off at the end of a line, the two readings give the same evidence
(`parseCheckMeshEvidence_agrees`). The captured output itself is not asked for failures.
-/
import OpenFoamAgent.Python.Codec
import OpenFoamAgent.Python.Json
import OpenFoamAgent.Python.RegexTokens

namespace OpenFoamAgent
namespace Verification

open Python Pattern

/-! ### Summaries -/

/-- `\d`. -/
def isDigit (c : Char) : Bool := isAsciiDigit (asciiDigit c)

/-- `[-+0-9.eE]`. -/
def isNumeral (c : Char) : Bool := isAsciiDigit c || ['-', '+', '.', 'e', 'E'].contains c

/-- `_CELL_COUNT`. -/
def cellCountPattern : Pattern := ownSummary "cells:" isDigit

/-- `_NON_ORTHO`. -/
def nonOrthoPattern : Pattern := summary ["Mesh non-orthogonality Max:"] isNumeral

/-- `_SKEW`. -/
def skewPattern : Pattern := summary ["Max skewness", "="] isNumeral

/-- `_NEGATIVE`. -/
def negativePatterns : List Pattern :=
  [summary ["cells with negative volume", ":"] isDigit,
    summary ["negative volume cells", ":"] isDigit]

/-- `_MESH_OK`. -/
def meshOkPattern : Pattern := ownLine "Mesh OK."

/-- `Failed\s+\d+\s+mesh checks`. -/
def failedChecksPattern : Pattern :=
  .all [.exactly "Failed", .someSpace, .plus .digit, .someSpace, .exactly "mesh checks"]

/-- What the first match of a pattern captured. -/
def found (p : Pattern) (text : Text) : Option Text := (p.search text).map captured

/-- The digits that `int` takes. -/
def intDigits : ℕ := 4300

/-- `int(text)`, of digits. -/
def intOf (text : Text) : Except PythonError ℕ :=
  if intDigits < text.length then .error .value else .ok (digitsValue (text.map asciiDigit))

/-- `_int_match`. -/
def intMatch (p : Pattern) (text : Text) : Except PythonError (Option ℕ) :=
  match found p text with
  | some digits => do return some (← intOf digits)
  | none => .ok none

/-- `_float_match`. -/
def floatMatch (p : Pattern) (text : Text) : Except PythonError (Option Binary64) :=
  match found p text with
  | some numeral =>
    match parseFloat numeral with
    | some value => .ok (some value)
    | none => .error .value
  | none => .ok none

/-- The count of the first pattern of some that matches. -/
def firstIntMatch : List Pattern → Text → Except PythonError (Option ℕ)
  | [], _ => .ok none
  | p :: ps, text => if (found p text).isSome then intMatch p text else firstIntMatch ps text

/-! ### The log -/

/-- The lines of a stream, each with the element that ends it. -/
def cutLines {α : Type} (ends : α → Bool) : List α → List (List α)
  | [] => []
  | x :: xs =>
    if ends x then [x] :: cutLines ends xs
    else
      match cutLines ends xs with
      | [] => [[x]]
      | l :: ls => (x :: l) :: ls

/-- A line that may hold a summary. -/
def isSummaryLine (line : Text) : Bool :=
  ([cellCountPattern, nonOrthoPattern, skewPattern] ++ negativePatterns ++ [meshOkPattern]).any
    fun p => (p.search line).isSome

/-- A line that tells of a failure. -/
def tellsFailure (line : Text) : Bool :=
  contains "FOAM FATAL".toList line || (failedChecksPattern.search line).isSome

/-- What is kept of a log. -/
structure LogScan where
  selected : List Text := []
  failures : List String := []

/-- The bytes of a log, and of a line, and the summary lines that are read. -/
def logLimit : ℕ := 256 * 1024 * 1024

def lineLimit : ℕ := 65536

def summaryLimit : ℕ := 1000

/-- One line of a log. -/
def LogScan.next (scan : LogScan) (line : Text) : LogScan where
  selected := if isSummaryLine line then scan.selected ++ [line] else scan.selected
  failures :=
    if tellsFailure line then scan.failures ++ ["checkMesh logged a fatal or failed mesh check."]
    else scan.failures

/-- The lines of a log, and the message of the exception that ended them. -/
def scanLines : LogScan → List Bytes → LogScan × Option String
  | scan, [] => (scan, none)
  | scan, raw :: rest =>
    if lineLimit < raw.length then (scan, some "checkMesh log contains an overlong line.")
    else
      let scan := scan.next (decodeReplace raw)
      if summaryLimit < scan.selected.length then
        (scan, some "Too many mesh summaries; region-specific inspection is required.")
      else scanLines scan rest

/-! ### The evidence -/

/-- `ToolResult`, as far as it is read. -/
structure CheckMeshResult where
  success : Bool
  stdout : Text := []
  stderr : Text := []
  logPath : Text := []
  logSha256 : Text := []

/-- `MeshEvidence`. -/
structure MeshEvidence where
  commandSucceeded : Bool
  meshOk : Bool
  cellCount : Option ℕ
  maxNonOrthogonality : Option Binary64
  maxSkewness : Option Binary64
  negativeVolumeCells : Option ℕ
  rawLogSha256 : Text
  warnings : List String

/-- `MeshEvidence.passed`. -/
def MeshEvidence.passed (e : MeshEvidence) : Bool :=
  e.commandSucceeded && e.meshOk && e.cellCount.isSome &&
    (e.negativeVolumeCells = none || e.negativeVolumeCells = some 0)

/-- `_combined_output`. -/
def combinedOutput (result : CheckMeshResult) : Text :=
  List.intercalate ['\n'] ([result.stdout, result.stderr].filter (· ≠ []))

/-- The text that is read, its hash, and the failures met on the way to it. -/
structure MeshReading where
  text : Text
  hash : Text
  failures : List String

/-- The evidence of a text. -/
def evidenceOf (success : Bool) (reading : MeshReading) : Except PythonError MeshEvidence := do
  let negative ← firstIntMatch negativePatterns reading.text
  let cells ← intMatch cellCountPattern reading.text
  let nonOrtho ← floatMatch nonOrthoPattern reading.text
  let skew ← floatMatch skewPattern reading.text
  return {
    commandSucceeded := success && reading.failures.isEmpty
    meshOk := (meshOkPattern.search reading.text).isSome
    cellCount := cells
    maxNonOrthogonality := nonOrtho
    maxSkewness := skew
    negativeVolumeCells := negative
    rawLogSha256 := reading.hash
    warnings := reading.failures ++
      (if cells.isNone then ["checkMesh output did not expose a cell count."] else []) ++
      (if nonOrtho.isNone then ["checkMesh output did not expose maximum non-orthogonality."]
        else []) ++
      (if skew.isNone then ["checkMesh output did not expose maximum skewness."] else []) }

section
variable (sha256 : Bytes → Text) (files : Text → Except String Bytes)

/-- The captured output. -/
def readOutput (result : CheckMeshResult) : MeshReading :=
  ⟨combinedOutput result, sha256 (encode (combinedOutput result)), []⟩

/-- The log, where it is within the bounds. -/
def readLog (result : CheckMeshResult) (data : Bytes) : MeshReading :=
  if logLimit < data.length then
    { readOutput sha256 result with
      failures := ["checkMesh log exceeds bounded inspection size."] }
  else
    match scanLines {} (cutLines (· = 10) data) with
    | (scan, some message) =>
      { readOutput sha256 result with failures := scan.failures ++ [message] }
    | (scan, none) =>
      ⟨scan.selected.flatten, sha256 data, scan.failures ++
        if result.logSha256 ≠ [] ∧ sha256 data ≠ result.logSha256 then
          ["checkMesh log changed after capture."]
        else []⟩

/-- What the evidence is read from; `files` gives the bytes of a file or the text of the
exception that it raises. -/
def meshReading (result : CheckMeshResult) : MeshReading :=
  if result.logPath = [] then readOutput sha256 result
  else
    match files result.logPath with
    | .error message => { readOutput sha256 result with failures := [message] }
    | .ok data => readLog sha256 result data

/-- `parse_check_mesh_evidence`. -/
def parseCheckMeshEvidence (result : CheckMeshResult) : Except PythonError MeshEvidence :=
  evidenceOf result.success (meshReading sha256 files result)

end

/-! ### Lines -/

theorem flatten_cutLines {α : Type} (ends : α → Bool) (xs : List α) :
    (cutLines ends xs).flatten = xs := by
  induction xs with
  | nil => rfl
  | cons x xs ih =>
    rw [cutLines]
    split_ifs
    · rw [List.flatten_cons, ih]
      rfl
    · cases h : cutLines ends xs with
      | nil =>
        rw [h] at ih
        rw [← ih]
        rfl
      | cons l ls =>
        rw [h] at ih
        rw [← ih]
        rfl

theorem lined_cutLines (t : Text) : Lined (cutLines (· = '\n') t) := by
  induction t with
  | nil => trivial
  | cons c t ih =>
    rw [cutLines]
    by_cases hc : c = '\n'
    · rw [if_pos (decide_eq_true hc), hc]
      exact ⟨⟨[], List.not_mem_nil, .inl rfl⟩, ih⟩
    · rw [if_neg (by simpa using hc)]
      have hsingle : '\n' ∉ [c] := by simpa using Ne.symm hc
      cases h : cutLines (· = '\n') t with
      | nil => exact ⟨⟨[c], hsingle, .inr ⟨rfl, rfl⟩⟩, trivial⟩
      | cons l ls =>
        rw [h] at ih
        obtain ⟨⟨r, hr, hl⟩, hrest⟩ := ih
        have hcons : '\n' ∉ c :: r := fun hmem =>
          (List.mem_cons.1 hmem).elim (fun h => hc h.symm) hr
        refine ⟨⟨c :: r, hcons, ?_⟩, hrest⟩
        rcases hl with rfl | ⟨rfl, hls⟩
        · exact .inl rfl
        · exact .inr ⟨rfl, hls⟩

/-- The bytes of a character are not those of a newline. -/
theorem encodeChar_ne_newline {c : Char} (hc : c ≠ '\n') : ∀ b ∈ encodeChar c, b ≠ 10 := by
  have hr := char_toNat_range c
  have hn : c.toNat ≠ 10 := by
    intro h
    exact hc (by rw [← Char.ofNat_toNat c, h])
  have hbyte : ∀ n, n < 256 → n ≠ 10 → UInt8.ofNat n ≠ 10 := by
    intro n hlt hne heq
    have htoNat := congrArg UInt8.toNat heq
    rw [toNat_ofNat_of_lt hlt] at htoNat
    exact hne htoNat
  intro b hb
  unfold encodeChar at hb
  generalize c.toNat = n at hr hn hb
  dsimp only at hb
  split_ifs at hb <;> simp only [List.mem_cons, List.not_mem_nil, or_false] at hb
  · rw [hb]
    exact hbyte _ (by omega) hn
  · rcases hb with rfl | rfl <;> exact hbyte _ (by omega) (by omega)
  · rcases hb with rfl | rfl | rfl <;> exact hbyte _ (by omega) (by omega)
  · rcases hb with rfl | rfl | rfl | rfl <;> exact hbyte _ (by omega) (by omega)

theorem cutLines_bytes {bs : Bytes} (hne : bs ≠ []) (hbs : ∀ b ∈ bs, b ≠ 10) (rest : Bytes) :
    cutLines (· = 10) (bs ++ rest) =
      match cutLines (· = 10) rest with
      | [] => [bs]
      | l :: ls => (bs ++ l) :: ls := by
  induction bs with
  | nil => exact absurd rfl hne
  | cons b bs ih =>
    rw [List.forall_mem_cons] at hbs
    rw [List.cons_append, cutLines, if_neg (by simpa using hbs.1)]
    by_cases hnil : bs = []
    · subst hnil
      rw [List.nil_append]
      cases cutLines (· = 10) rest <;> rfl
    · rw [ih hnil hbs.2]
      cases cutLines (· = 10) rest <;> rfl

/-- A text is cut in the same way before and after it is encoded. -/
theorem cutLines_encode (t : Text) :
    cutLines (· = 10) (encode t) = (cutLines (· = '\n') t).map encode := by
  induction t with
  | nil => rfl
  | cons c t ih =>
    have hencode : encode (c :: t) = encodeChar c ++ encode t := rfl
    rw [hencode, cutLines]
    by_cases hc : c = '\n'
    · subst hc
      have hnewline : encodeChar '\n' = [10] := by decide
      rw [hnewline, List.singleton_append, cutLines, if_pos (by decide), if_pos (by decide), ih,
        List.map_cons]
      rfl
    · have hne : encodeChar c ≠ [] := by
        unfold encodeChar
        dsimp only
        split_ifs <;> simp
      rw [if_neg (by simpa using hc), cutLines_bytes hne (encodeChar_ne_newline hc), ih]
      cases cutLines (· = '\n') t with
      | nil => simp [encode]
      | cons l ls => simp [encode]

/-! ### Summaries on lines -/

/-- The words in front of the values that may stand anywhere on a line. -/
def summaryWords : List (List String) :=
  [["Mesh non-orthogonality Max:"], ["Max skewness", "="], ["cells with negative volume", ":"],
    ["negative volume cells", ":"]]

/-- No summary breaks off at the end of the line. -/
def unbroken (line : Text) : Bool :=
  (chomp line).tails.all (fun v => summaryWords.all fun words => !breaksOff words v) &&
    !breaksOff ["cells:"] ((chomp line).dropWhile isSpace)

theorem not_isDigit_of_isSpace {c : Char} (h : isSpace c = true) : isDigit c = false := by
  rw [isDigit, asciiDigit_of_isSpace h]
  simp only [isSpace, Bool.or_eq_true, Bool.and_eq_true, decide_eq_true_eq, beq_iff_eq] at h
  by_contra hdigit
  simp only [isAsciiDigit, Bool.not_eq_false, Bool.and_eq_true, decide_eq_true_eq] at hdigit
  have h0 : 48 ≤ c.toNat := hdigit.1
  have h9 : c.toNat ≤ 57 := hdigit.2
  omega

theorem not_isNumeral_of_isSpace {c : Char} (h : isSpace c = true) : isNumeral c = false := by
  have hdigit : isAsciiDigit c = false := by
    rw [← asciiDigit_of_isSpace h]
    exact not_isDigit_of_isSpace h
  rw [isNumeral, hdigit, Bool.false_or]
  by_contra hmem
  simp only [Bool.not_eq_false, List.contains_iff_mem, List.mem_cons, List.not_mem_nil,
    or_false] at hmem
  rcases hmem with rfl | rfl | rfl | rfl | rfl <;> revert h <;> decide

/-- A pattern is found line by line where no summary breaks off. -/
def ByLines (p : Pattern) : Prop :=
  ∀ ls : List Text, Lined ls → (∀ l ∈ ls, unbroken l = true) →
    found p ls.flatten = ls.findSome? (found p)

theorem byLines_summary {words : List String} {f : Char → Bool} (hmem : words ∈ summaryWords)
    (hf : ∀ c, isSpace c = true → f c = false) : ByLines (summary words f) := by
  have hdark : ∀ words ∈ summaryWords, ∀ w ∈ words, Dark (wordClasses w) := by
    intro words hwords w hw
    simp only [summaryWords, List.mem_cons, List.not_mem_nil, or_false] at hwords
    rcases hwords with rfl | rfl | rfl | rfl <;>
      simp only [List.mem_cons, List.not_mem_nil, or_false] at hw
    · rw [hw]
      exact dark_word (by decide)
    all_goals rcases hw with rfl | rfl <;> exact dark_word (by decide)
  have hnil : ∀ words ∈ summaryWords, words ≠ [] := by decide
  have hline : ∀ words ∈ summaryWords, ∀ w ∈ words, ∀ g ∈ wordClasses w, g '\n' = false := by
    decide
  intro ls hls hunbroken
  have hfound : found (summary words f) = findSummary words f :=
    funext fun t => search_summary (hdark words hmem) hf t
  rw [hfound]
  refine (findSummary_linewise (hnil words hmem) (hdark words hmem) (hf _ (by decide))
    (hline words hmem)).flatten hls fun l hl v hv => ?_
  have hl := (Bool.and_eq_true_iff.1 (hunbroken l hl)).1
  have hall := List.all_eq_true.1 (List.all_eq_true.1 hl v ((List.mem_tails _ _).2 hv)) words hmem
  simpa using hall

theorem byLines_cellCount : ByLines cellCountPattern := by
  have hdark : Dark (wordClasses "cells:") := dark_word (by decide)
  intro ls hls hunbroken
  have hfound : found cellCountPattern = findOwnSummary "cells:" isDigit :=
    funext fun t => search_ownSummary hdark (fun _ h => not_isDigit_of_isSpace h) t
  rw [hfound]
  refine (findOwnSummary_linewise hdark (by decide) (by decide)).flatten hls fun l hl => ?_
  simpa using (Bool.and_eq_true_iff.1 (hunbroken l hl)).2

theorem meshOk_lines {ls : List Text} (hls : Lined ls) :
    (meshOkPattern.search ls.flatten).isSome = ls.any fun l => (meshOkPattern.search l).isSome := by
  have hdark : Dark (exactClasses "Mesh OK.") := dark_exact (by decide)
  have hfound : ∀ t, (meshOkPattern.search t).isSome = (findOwnLine "Mesh OK." t).isSome := by
    intro t
    rw [← search_ownLine hdark t, Option.isSome_map]
    rfl
  have hflatten := (findOwnLine_linewise hdark (by decide)).flatten hls fun _ _ => trivial
  rw [hfound, hflatten, Bool.eq_iff_iff, List.findSome?_isSome_iff, List.any_eq_true]
  simp only [hfound]

/-! ### The two readings -/

/-- The patterns whose values are read. -/
def valuePatterns : List Pattern :=
  [cellCountPattern, nonOrthoPattern, skewPattern] ++ negativePatterns

theorem byLines_valuePatterns : ∀ p ∈ valuePatterns, ByLines p := by
  intro p hp
  simp only [valuePatterns, negativePatterns, List.cons_append, List.nil_append, List.mem_cons,
    List.not_mem_nil, or_false] at hp
  rcases hp with rfl | rfl | rfl | rfl | rfl
  · exact byLines_cellCount
  · exact byLines_summary (by decide) fun _ h => not_isNumeral_of_isSpace h
  · exact byLines_summary (by decide) fun _ h => not_isNumeral_of_isSpace h
  · exact byLines_summary (by decide) fun _ h => not_isDigit_of_isSpace h
  · exact byLines_summary (by decide) fun _ h => not_isDigit_of_isSpace h

/-- Two texts show the same of a mesh. -/
def SameFindings (a b : Text) : Prop :=
  (∀ p ∈ valuePatterns, found p a = found p b) ∧
    (meshOkPattern.search a).isSome = (meshOkPattern.search b).isSome

theorem isSummaryLine_of_found {p : Pattern} (hp : p ∈ valuePatterns) {line : Text}
    (h : (found p line).isSome) : isSummaryLine line = true := by
  refine List.any_eq_true.2 ⟨p, List.mem_append_left _ hp, ?_⟩
  rwa [found, Option.isSome_map] at h

theorem findSome?_filter {α β : Type} {f : α → Option β} {keep : α → Bool} {xs : List α}
    (h : ∀ x ∈ xs, (f x).isSome → keep x = true) :
    (xs.filter keep).findSome? f = xs.findSome? f := by
  induction xs with
  | nil => rfl
  | cons x xs ih =>
    rw [List.forall_mem_cons] at h
    rw [List.filter_cons, List.findSome?_cons]
    split_ifs with hx
    · rw [List.findSome?_cons, ih h.2]
    · cases hf : f x with
      | none => exact ih h.2
      | some b => exact absurd (h.1 (by rw [hf]; rfl)) hx

/-- **The summary lines** show what the text shows. -/
theorem sameFindings_selected {text : Text}
    (h : ∀ line ∈ cutLines (· = '\n') text, unbroken line = true) :
    SameFindings ((cutLines (· = '\n') text).filter isSummaryLine).flatten text := by
  have hlined := lined_cutLines text
  have hkeep := hlined.filter isSummaryLine
  have hflat := flatten_cutLines (· = '\n') text
  generalize cutLines (· = '\n') text = ls at h hlined hkeep hflat
  subst hflat
  constructor
  · intro p hp
    rw [byLines_valuePatterns p hp _ hkeep fun l hl => h l (List.mem_of_mem_filter hl),
      byLines_valuePatterns p hp _ hlined h]
    exact findSome?_filter fun line _ hfound => isSummaryLine_of_found hp hfound
  · rw [meshOk_lines hkeep, meshOk_lines hlined, List.any_filter]
    congr 1
    funext line
    cases hok : (meshOkPattern.search line).isSome with
    | false => rw [Bool.and_false]
    | true =>
      rw [Bool.and_true]
      exact List.any_eq_true.2 ⟨meshOkPattern, by simp, hok⟩

theorem intMatch_congr {p : Pattern} {a b : Text} (h : found p a = found p b) :
    intMatch p a = intMatch p b := by
  rw [intMatch, intMatch, h]

theorem floatMatch_congr {p : Pattern} {a b : Text} (h : found p a = found p b) :
    floatMatch p a = floatMatch p b := by
  rw [floatMatch, floatMatch, h]

theorem firstIntMatch_congr {ps : List Pattern} {a b : Text}
    (h : ∀ p ∈ ps, found p a = found p b) : firstIntMatch ps a = firstIntMatch ps b := by
  induction ps with
  | nil => rfl
  | cons p ps ih =>
    rw [List.forall_mem_cons] at h
    rw [firstIntMatch, firstIntMatch, intMatch_congr h.1, ih h.2, h.1]

/-- The evidence is what the findings show. -/
theorem evidenceOf_congr {a b : Text} (h : SameFindings a b) (success : Bool) (hash : Text)
    (failures : List String) :
    evidenceOf success ⟨a, hash, failures⟩ = evidenceOf success ⟨b, hash, failures⟩ := by
  obtain ⟨hvalues, hok⟩ := h
  have hnegative : firstIntMatch negativePatterns a = firstIntMatch negativePatterns b :=
    firstIntMatch_congr fun p hp => hvalues p (List.mem_append_right _ hp)
  rw [evidenceOf, evidenceOf]
  dsimp only
  rw [hnegative, intMatch_congr (hvalues cellCountPattern (by simp [valuePatterns])),
    floatMatch_congr (hvalues nonOrthoPattern (by simp [valuePatterns])),
    floatMatch_congr (hvalues skewPattern (by simp [valuePatterns])), hok]

/-- A log within the bounds, without a failure, is scanned to its end. -/
theorem scanLines_encode (ls : List Text) (scan : LogScan)
    (hlines : ∀ l ∈ ls, (encode l).length ≤ lineLimit)
    (hsummaries : (scan.selected ++ ls.filter isSummaryLine).length ≤ summaryLimit)
    (hfailures : ∀ l ∈ ls, tellsFailure l = false) :
    scanLines scan (ls.map encode) =
      (⟨scan.selected ++ ls.filter isSummaryLine, scan.failures⟩, none) := by
  induction ls generalizing scan with
  | nil => simp [scanLines]
  | cons l ls ih =>
    rw [List.forall_mem_cons] at hlines hfailures
    have hnext : scan.next l = ⟨scan.selected ++ [l].filter isSummaryLine, scan.failures⟩ := by
      rw [LogScan.next, hfailures.1, List.filter_singleton]
      cases isSummaryLine l <;> simp
    have hfilter : scan.selected ++ (l :: ls).filter isSummaryLine =
        (scan.next l).selected ++ ls.filter isSummaryLine := by
      rw [hnext, List.append_assoc, ← List.filter_append]
      rfl
    rw [hfilter] at hsummaries ⊢
    have hcount : ¬ summaryLimit < (scan.next l).selected.length := by
      rw [List.length_append] at hsummaries
      omega
    rw [List.map_cons, scanLines, if_neg (not_lt.2 hlines.1), decodeReplace_encode]
    dsimp only
    rw [if_neg hcount, ih (scan.next l) hlines.2 hsummaries hfailures.2, hnext]

section
variable (sha256 : Bytes → Text) (files : Text → Except String Bytes)

/-- The log holds the captured output, and is within the bounds. -/
structure LogHolds (result : CheckMeshResult) (data : Bytes) : Prop where
  captured : data = encode (combinedOutput result)
  unchanged : result.logSha256 = [] ∨ result.logSha256 = sha256 data
  size : data.length ≤ logLimit
  lines : ∀ line ∈ cutLines (· = '\n') (combinedOutput result), (encode line).length ≤ lineLimit
  summaries : ((cutLines (· = '\n') (combinedOutput result)).filter isSummaryLine).length ≤
    summaryLimit

/-- **The log and the captured output** give the same evidence. -/
theorem evidence_agrees {result : CheckMeshResult} {data : Bytes}
    (hfile : files result.logPath = .ok data) (hlog : LogHolds sha256 result data)
    (hfailures : ∀ line ∈ cutLines (· = '\n') (combinedOutput result), tellsFailure line = false)
    (hunbroken : ∀ line ∈ cutLines (· = '\n') (combinedOutput result), unbroken line = true) :
    parseCheckMeshEvidence sha256 files result =
      parseCheckMeshEvidence sha256 files { result with logPath := [] } := by
  obtain ⟨hcaptured, hunchanged, hsize, hlines, hsummaries⟩ := hlog
  rw [parseCheckMeshEvidence, parseCheckMeshEvidence, meshReading, meshReading]
  dsimp only
  rw [if_pos rfl]
  by_cases hpath : result.logPath = []
  · rw [if_pos hpath]
    rfl
  have hscan := scanLines_encode (cutLines (· = '\n') (combinedOutput result)) {} hlines
    hsummaries hfailures
  have hsame : ¬ (result.logSha256 ≠ [] ∧ sha256 data ≠ result.logSha256) := by
    rintro ⟨hne, hchanged⟩
    rcases hunchanged with h | h
    · exact hne h
    · exact hchanged h.symm
  have hread : readLog sha256 result data =
      ⟨((cutLines (· = '\n') (combinedOutput result)).filter isSummaryLine).flatten,
        sha256 (encode (combinedOutput result)), []⟩ := by
    rw [readLog, if_neg (not_lt.2 hsize)]
    subst hcaptured
    rw [cutLines_encode, hscan]
    dsimp only
    rw [if_neg hsame]
    rfl
  rw [if_neg hpath, hfile]
  dsimp only
  rw [hread]
  exact evidenceOf_congr (sameFindings_selected hunbroken) _ _ _

end

/-- What a scan that came to its end has met. -/
theorem scanLines_eq_none {ls : List Bytes} {scan scan' : LogScan}
    (h : scanLines scan ls = (scan', none)) :
    (∀ raw ∈ ls, raw.length ≤ lineLimit) ∧
      scan'.selected = scan.selected ++ (ls.map decodeReplace).filter isSummaryLine ∧
      (scan.selected.length ≤ summaryLimit → scan'.selected.length ≤ summaryLimit) ∧
      ((scan.failures ≠ [] ∨ ∃ raw ∈ ls, tellsFailure (decodeReplace raw) = true) →
        scan'.failures ≠ []) := by
  induction ls generalizing scan with
  | nil =>
    obtain rfl : scan = scan' := (Prod.mk.inj h).1
    simp
  | cons raw ls ih =>
    rw [scanLines] at h
    by_cases hlong : lineLimit < raw.length
    · rw [if_pos hlong] at h
      cases (Prod.mk.inj h).2
    · rw [if_neg hlong] at h
      dsimp only at h
      by_cases hmany : summaryLimit < (scan.next (decodeReplace raw)).selected.length
      · rw [if_pos hmany] at h
        cases (Prod.mk.inj h).2
      · rw [if_neg hmany] at h
        obtain ⟨hlines, hselected, hcount, hfailures⟩ := ih h
        refine ⟨?_, ?_, fun _ => hcount (not_lt.1 hmany), fun hmet => hfailures ?_⟩
        · rw [List.forall_mem_cons]
          exact ⟨not_lt.1 hlong, hlines⟩
        · rw [hselected, LogScan.next, List.map_cons, List.filter_cons]
          dsimp only
          split_ifs
          · rw [List.append_assoc, List.singleton_append]
          · rfl
        · rw [LogScan.next]
          dsimp only
          rcases hmet with hmet | ⟨raw', hraw', htells⟩
          · left
            split_ifs
            · simp
            · exact hmet
          · rcases List.mem_cons.1 hraw' with rfl | hraw'
            · left
              rw [if_pos htells]
              simp
            · exact .inr ⟨raw', hraw', htells⟩

section
variable (sha256 : Bytes → Text) (files : Text → Except String Bytes)

/-- The log cannot be read, breaks the bounds, tells of a failure or was changed. -/
def LogFails (result : CheckMeshResult) : Prop :=
  (∃ message, files result.logPath = .error message) ∨
    ∃ data, files result.logPath = .ok data ∧
      (logLimit < data.length ∨
        (∃ raw ∈ cutLines (· = 10) data,
          lineLimit < raw.length ∨ tellsFailure (decodeReplace raw) = true) ∨
        summaryLimit <
          (((cutLines (· = 10) data).map decodeReplace).filter isSummaryLine).length ∨
        (result.logSha256 ≠ [] ∧ sha256 data ≠ result.logSha256))

theorem failures_of_logFails {result : CheckMeshResult} (hpath : result.logPath ≠ [])
    (h : LogFails sha256 files result) : (meshReading sha256 files result).failures ≠ [] := by
  rw [meshReading, if_neg hpath]
  rcases h with ⟨message, hfile⟩ | ⟨data, hfile, h⟩
  · rw [hfile]
    exact List.cons_ne_nil message []
  rw [hfile]
  dsimp only
  rw [readLog]
  by_cases hsize : logLimit < data.length
  · rw [if_pos hsize]
    exact List.cons_ne_nil _ []
  rw [if_neg hsize]
  cases hscan : scanLines {} (cutLines (· = 10) data) with
  | mk scan ended =>
    cases ended with
    | some message =>
      dsimp only
      simp
    | none =>
      obtain ⟨hlines, hselected, hcount, hfailures⟩ := scanLines_eq_none hscan
      dsimp only
      rcases h with h | ⟨raw, hraw, hlong | htells⟩ | hmany | hchanged
      · exact absurd h hsize
      · exact absurd hlong (not_lt.2 (hlines raw hraw))
      · have := hfailures (.inr ⟨raw, hraw, htells⟩)
        simp [this]
      · have hle := hcount (Nat.zero_le _)
        rw [hselected] at hle
        exact absurd hmany (not_lt.2 hle)
      · rw [if_pos hchanged]
        simp

theorem passed_of_failures {success : Bool} {reading : MeshReading} {e : MeshEvidence}
    (h : evidenceOf success reading = .ok e) (hfailures : reading.failures ≠ []) :
    e.passed = false := by
  obtain ⟨negative, -, h⟩ := Traversal.bind_eq_ok.1 h
  obtain ⟨cells, -, h⟩ := Traversal.bind_eq_ok.1 h
  obtain ⟨nonOrtho, -, h⟩ := Traversal.bind_eq_ok.1 h
  obtain ⟨skew, -, h⟩ := Traversal.bind_eq_ok.1 h
  obtain rfl := Except.ok.inj h
  have hsome : reading.failures.isEmpty = false := by simpa using hfailures
  simp [MeshEvidence.passed, hsome]

/-- **The evidence of a mesh check**, read from a log. -/
theorem parseCheckMeshEvidence_log {result : CheckMeshResult} (hpath : result.logPath ≠ []) :
    (∀ data, files result.logPath = .ok data → LogHolds sha256 result data →
      (∀ line ∈ cutLines (· = '\n') (combinedOutput result), tellsFailure line = false) →
      (∀ line ∈ cutLines (· = '\n') (combinedOutput result), unbroken line = true) →
        parseCheckMeshEvidence sha256 files result =
          parseCheckMeshEvidence sha256 files { result with logPath := [] }) ∧
      (LogFails sha256 files result →
        ∀ e, parseCheckMeshEvidence sha256 files result = .ok e → e.passed = false) :=
  ⟨fun _ hfile hlog => evidence_agrees sha256 files hfile hlog,
    fun hfails _ he => passed_of_failures he (failures_of_logFails sha256 files hpath hfails)⟩

end

/-- A sound mesh, and one that failed a check. -/
def soundOutput : Text := "cells: 1\nMesh OK.\n".toList

def failedOutput : Text := "cells: 1\nMesh OK.\nFailed 1 mesh checks.\n".toList

/-- A run whose log holds its output. -/
def loggedRun (output : Text) : CheckMeshResult where
  success := true
  stdout := output
  logPath := "log".toList

/-- The log of a sound mesh, and the log of a failed one. -/
theorem parseCheckMeshEvidence_log_sound :
    (parseCheckMeshEvidence (fun _ => []) (fun _ => .ok (encode soundOutput))
        (loggedRun soundOutput) =
      parseCheckMeshEvidence (fun _ => []) (fun _ => .ok (encode soundOutput))
        { loggedRun soundOutput with logPath := [] }) ∧
      ∀ e, parseCheckMeshEvidence (fun _ => []) (fun _ => .ok (encode failedOutput))
        (loggedRun failedOutput) = .ok e → e.passed = false := by
  constructor
  · refine (parseCheckMeshEvidence_log _ _ (List.cons_ne_nil _ _)).1 _ rfl
      ⟨?_, .inl rfl, ?_, ?_, ?_⟩ ?_ ?_
    all_goals decide +kernel
  · refine (parseCheckMeshEvidence_log _ _ (List.cons_ne_nil _ _)).2 (.inr ⟨_, rfl, .inr (.inl ?_)⟩)
    refine ⟨encode "Failed 1 mesh checks.\n".toList, ?_, .inr ?_⟩
    all_goals decide +kernel

/-- A sound mesh whose cells are counted again and again. -/
def repeatedLines (n : ℕ) : List Text :=
  List.replicate n "cells: 1\n".toList ++ ["Mesh OK.\n".toList]

theorem lined_repeatedLines (n : ℕ) : Lined (repeatedLines n) := by
  induction n with
  | zero => exact ⟨⟨"Mesh OK.".toList, by decide, .inl rfl⟩, trivial⟩
  | succ n ih => exact ⟨⟨"cells: 1".toList, by decide, .inl rfl⟩, ih⟩

theorem cutLines_line {r : Text} (hr : '\n' ∉ r) (t : Text) :
    cutLines (· = '\n') (r ++ '\n' :: t) = (r ++ ['\n']) :: cutLines (· = '\n') t := by
  induction r with
  | nil => rfl
  | cons c r ih =>
    rw [List.mem_cons, not_or] at hr
    rw [List.cons_append, cutLines, if_neg (by simpa using Ne.symm hr.1), ih hr.2]
    rfl

theorem cutLines_repeatedLines (n : ℕ) :
    cutLines (· = '\n') (repeatedLines n).flatten = repeatedLines n := by
  induction n with
  | zero => rfl
  | succ n ih =>
    have hline : (repeatedLines (n + 1)).flatten =
        "cells: 1".toList ++ '\n' :: (repeatedLines n).flatten := rfl
    rw [hline, cutLines_line (by decide), ih]
    rfl

theorem mem_repeatedLines {n : ℕ} {l : Text} (h : l ∈ repeatedLines n) :
    l = "cells: 1\n".toList ∨ l = "Mesh OK.\n".toList :=
  (List.mem_append.1 h).imp List.eq_of_mem_replicate List.mem_singleton.1

theorem unbroken_repeatedLines {n : ℕ} : ∀ l ∈ repeatedLines n, unbroken l = true := by
  intro l hl
  rcases mem_repeatedLines hl with rfl | rfl <;> decide +kernel

/-- A count that is repeated shows no more than one. -/
theorem sameFindings_repeatedLines (n : ℕ) :
    SameFindings (repeatedLines (n + 1)).flatten (repeatedLines 1).flatten := by
  induction n with
  | zero => exact ⟨fun _ _ => rfl, rfl⟩
  | succ n ih =>
    refine ⟨fun p hp => ?_, ?_⟩
    · rw [← ih.1 p hp, byLines_valuePatterns p hp _ (lined_repeatedLines _) unbroken_repeatedLines,
        byLines_valuePatterns p hp _ (lined_repeatedLines _) unbroken_repeatedLines]
      have hmore : repeatedLines (n + 2) = "cells: 1\n".toList :: repeatedLines (n + 1) := rfl
      have hfirst : repeatedLines (n + 1) = "cells: 1\n".toList :: repeatedLines n := rfl
      rw [hmore, List.findSome?_cons, hfirst, List.findSome?_cons]
      cases found p "cells: 1\n".toList <;> rfl
    · rw [← ih.2, meshOk_lines (lined_repeatedLines _), meshOk_lines (lined_repeatedLines _)]
      have hmore : repeatedLines (n + 2) = "cells: 1\n".toList :: repeatedLines (n + 1) := rfl
      have hfirst : repeatedLines (n + 1) = "cells: 1\n".toList :: repeatedLines n := rfl
      rw [hmore, List.any_cons, hfirst, List.any_cons, ← Bool.or_assoc, Bool.or_self]

/-- Whether the evidence of a run passes. -/
def verdict (data : Bytes) (result : CheckMeshResult) : Option Bool :=
  (parseCheckMeshEvidence (fun _ => []) (fun _ => .ok data) result).toOption.map
    MeshEvidence.passed

/-- The log of a failed check fails, and so does one of more summaries than are read; the
captured output passes. -/
theorem parseCheckMeshEvidence_disagrees :
    (verdict (encode failedOutput) (loggedRun failedOutput) = some false ∧
        verdict (encode failedOutput) { loggedRun failedOutput with logPath := [] } = some true) ∧
      (verdict (encode (repeatedLines 1001).flatten) (loggedRun (repeatedLines 1001).flatten) ≠
          some true ∧
        verdict (encode (repeatedLines 1001).flatten)
          { loggedRun (repeatedLines 1001).flatten with logPath := [] } = some true) ∧
      verdict (encode "cells:\n1\nMesh OK.\n".toList) (loggedRun "cells:\n1\nMesh OK.\n".toList) =
          some false ∧
        verdict (encode "cells:\n1\nMesh OK.\n".toList)
          { loggedRun "cells:\n1\nMesh OK.\n".toList with logPath := [] } = some true := by
  refine ⟨⟨by decide +kernel, by decide +kernel⟩, ⟨fun hpassed => ?_, ?_⟩, by decide +kernel,
    by decide +kernel⟩
  · have hsummaries : summaryLimit < (((cutLines (· = 10)
        (encode (repeatedLines 1001).flatten)).map decodeReplace).filter isSummaryLine).length := by
      have hdecode : ∀ ls : List Text, (ls.map encode).map decodeReplace = ls := by
        intro ls
        rw [List.map_map]
        exact (List.map_congr_left fun l _ => decodeReplace_encode l).trans (List.map_id ls)
      have hkeep : ∀ l ∈ repeatedLines 1001, isSummaryLine l = true := by
        intro l hl
        rcases mem_repeatedLines hl with rfl | rfl <;> decide +kernel
      rw [cutLines_encode, hdecode, cutLines_repeatedLines, List.filter_eq_self.2 hkeep,
        repeatedLines, List.length_append, List.length_replicate]
      decide
    have hfailures : (meshReading (fun _ => []) (fun _ => .ok (encode (repeatedLines 1001).flatten))
        (loggedRun (repeatedLines 1001).flatten)).failures ≠ [] :=
      failures_of_logFails _ _ (List.cons_ne_nil _ _) (.inr ⟨_, rfl, .inr (.inr (.inl hsummaries))⟩)
    rw [verdict, parseCheckMeshEvidence] at hpassed
    cases hevidence : evidenceOf (loggedRun (repeatedLines 1001).flatten).success
        (meshReading (fun _ => []) (fun _ => .ok (encode (repeatedLines 1001).flatten))
          (loggedRun (repeatedLines 1001).flatten)) with
    | error e =>
      rw [hevidence] at hpassed
      cases hpassed
    | ok e =>
      rw [hevidence] at hpassed
      have htrue : e.passed = true := Option.some.inj hpassed
      rw [passed_of_failures hevidence hfailures] at htrue
      cases htrue
  · have hreading : meshReading (fun _ => []) (fun _ => .ok (encode (repeatedLines 1001).flatten))
        { loggedRun (repeatedLines 1001).flatten with logPath := [] } =
          ⟨(repeatedLines 1001).flatten, [], []⟩ := by
      have hne : (repeatedLines 1001).flatten ≠ [] := List.cons_ne_nil _ _
      rw [meshReading, if_pos rfl, readOutput, combinedOutput]
      simp [loggedRun, hne, List.intercalate]
    rw [verdict, parseCheckMeshEvidence, hreading,
      evidenceOf_congr (sameFindings_repeatedLines 1000)]
    decide +kernel

end Verification
end OpenFoamAgent
