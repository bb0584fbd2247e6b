/-
# What a successful run shows

`parse_runtime_stream` decides from what the accumulator holds at the end. Here
the accumulator is related to the lines of the whole stream (`Seen`): as long as
nothing invalid was met, the reads are the lines of the stream, the time fields
summarise the sequence of the `Time` values, and no line is fatal or reports a
value that is not finite.

A line that holds the banner of floating point trapping is not searched for
such values, whatever else it holds.
-/
import OpenFoamAgent.Library.Traversal
import OpenFoamAgent.Runtime.Parsers

namespace OpenFoamAgent
namespace Runtime

open Python RuntimeLogAccumulator

/-! ### Lines -/

/-- The lines of a stream, each with its newline. -/
def lines : Bytes → List Bytes
  | [] => []
  | b :: bs =>
    if b = 10 then [b] :: lines bs
    else
      match lines bs with
      | [] => [[b]]
      | l :: ls => (b :: l) :: ls

/-- The first line of a stream. -/
def firstLine (stream : Bytes) : Bytes :=
  stream.takeWhile (· ≠ 10) ++ (stream.dropWhile (· ≠ 10)).take 1

theorem firstLine_ne_nil {stream : Bytes} (h : stream ≠ []) : firstLine stream ≠ [] := by
  obtain ⟨b, bs, rfl⟩ := List.exists_cons_of_ne_nil h
  by_cases hb : b = 10 <;> simp [firstLine, hb]

theorem lines_eq {stream : Bytes} (h : stream ≠ []) :
    lines stream = firstLine stream :: lines (stream.drop (firstLine stream).length) := by
  induction stream with
  | nil => exact absurd rfl h
  | cons b bs ih =>
    by_cases hb : b = 10
    · subst hb
      rfl
    · have hfirst : firstLine (b :: bs) = b :: firstLine bs := by
        simp [firstLine, hb]
      rw [hfirst, lines, if_neg hb]
      cases bs with
      | nil => rfl
      | cons c cs => rw [ih (by simp), List.length_cons, List.drop_succ_cons]

/-- Reads that stay below the limit are the lines of the stream. -/
theorem reads_eq_lines {limit fuel : ℕ} {stream : Bytes} (hlimit : 0 < limit)
    (hfuel : stream.length ≤ fuel) (hshort : ∀ raw ∈ reads limit fuel stream, raw.length < limit) :
    reads limit fuel stream = lines stream := by
  induction fuel generalizing stream with
  | zero =>
    rw [List.length_eq_zero_iff.1 (Nat.le_zero.1 hfuel)]
    rfl
  | succ fuel ih =>
    rw [reads] at hshort ⊢
    by_cases hnil : stream = []
    · subst hnil
      simp [readline, lines]
    · have hread : readline limit stream = (firstLine stream).take limit := rfl
      have hpos : 0 < (firstLine stream).length :=
        List.length_pos_iff.2 (firstLine_ne_nil hnil)
      have hne : readline limit stream ≠ [] := by
        rw [hread, ← List.length_pos_iff, List.length_take]
        omega
      rw [if_neg hne] at hshort ⊢
      have hfirst : readline limit stream = firstLine stream := by
        have hlt := hshort _ List.mem_cons_self
        rw [hread, List.length_take] at hlt
        rw [hread, List.take_of_length_le (by omega)]
      rw [hfirst] at hshort ⊢
      rw [lines_eq hnil, ih (by rw [List.length_drop]; omega)
        fun raw hraw => hshort raw (List.mem_cons_of_mem _ hraw)]

/-! ### What a line says -/

/-- The line matches `FATAL_RE`. -/
def isFatal (line : Bytes) : Bool := (fatalRe.search (decodeReplace line)).isSome

/-- The line matches `NON_FINITE_RE`. -/
def reportsNonFinite (line : Bytes) : Bool := (nonFiniteRe.search (decodeReplace line)).isSome

/-- The line holds the banner of floating point trapping. -/
def hasBanner (line : Bytes) : Bool :=
  contains trappingBanner.toList (casefold (decodeReplace line))

/-- The line is an `End` line. -/
def isEnd (line : Bytes) : Bool := (endRe.fullmatch (strip (decodeReplace line))).isSome

/-- The line is a `Time` line. -/
def isTime (line : Bytes) : Bool := (timeRe.fullmatch (strip (decodeReplace line))).isSome

/-- The value of a `Time` line, when it is finite. -/
def timeOf (line : Bytes) : Option Units :=
  (timeRe.fullmatch (strip (decodeReplace line))).bind (finiteGroup · "time")

/-- The `Time` values of a log. -/
def times (log : List Bytes) : List Units := log.filterMap timeOf

/-- **What a log shows** of a run with an execution bound. -/
structure Shows (bound : ExecutionBoundContract) (log : List Bytes) : Prop where
  /-- An `End` line was seen. -/
  ended : ∃ l ∈ log, isEnd l
  /-- No line is longer than the bound. -/
  short : ∀ l ∈ log, l.length ≤ 65536
  notFatal : ∀ l ∈ log, ¬ isFatal l
  /-- Only a line of the banner holds a value that is not finite. -/
  finite : ∀ l ∈ log, reportsNonFinite l → hasBanner l
  /-- Every `Time` line gives a finite time. -/
  timed : ∀ l ∈ log, isTime l → (timeOf l).isSome
  /-- The times never decrease, and start no earlier than the start time. -/
  ascending : (bound.startTime :: times log).IsChain (· ≤ ·)
  steps : bound.minimumSteps ≤ ascents (bound.startTime :: times log)
  /-- A transient run reaches the end time. -/
  reached : bound.mode = .transient →
    ∃ endTime last, bound.endTime = some endTime ∧ (times log).getLast? = some last ∧
      reaches endTime last

/-! ### The stages of one line -/

/-- Nothing was met that fails a run. -/
structure Clean (a : RuntimeLogAccumulator) : Prop where
  valid : a.invalid = false
  notFatal : a.fatalLines = []
  finite : a.nonFinite = false

/-- The summary of the times. -/
def progress (a : RuntimeLogAccumulator) : Progress Units :=
  ⟨a.currentTime, a.progressSteps, a.timeReversed⟩

/-- A stage that says nothing about times and the end, and cleans nothing. -/
structure Passes (a a' : RuntimeLogAccumulator) : Prop where
  clean : Clean a' → Clean a
  progress_eq : progress a' = progress a
  ended : a'.endMarker = a.endMarker

variable {contract : LogContract} {a a' : RuntimeLogAccumulator} {line : Text}

theorem Passes.trans {b : RuntimeLogAccumulator} (h : Passes a b) (h' : Passes b a') : Passes a a' :=
  ⟨fun hc => h.clean (h'.clean hc), h'.progress_eq.trans h.progress_eq, h'.ended.trans h.ended⟩

theorem not_clean_invalid : ¬ Clean { a with invalid := true } := fun h => Bool.noConfusion h.valid

theorem passes_invalid : Passes a { a with invalid := true } :=
  ⟨fun h => (not_clean_invalid h).elim, rfl, rfl⟩

variable (contract a) in
theorem passes_flushStep : Passes a (a.flushStep contract) := by
  unfold flushStep
  split <;> exact ⟨fun h => ⟨h.valid, h.notFatal, h.finite⟩, rfl, rfl⟩

theorem clean_noteFatal (h : Clean (a.noteFatal line)) :
    a.noteFatal line = a ∧ fatalRe.search line = none := by
  have hnone := h.notFatal
  unfold noteFatal at hnone ⊢
  split_ifs at hnone ⊢ with hmore hfirst
  · simp at hnone
  · simp at hnone
  · exact ⟨rfl, by simpa [hnone] using hfirst⟩

theorem clean_noteNonFinite (h : Clean (a.noteNonFinite line)) :
    a.noteNonFinite line = a ∧
      ((nonFiniteRe.search line).isSome → contains trappingBanner.toList (casefold line)) := by
  have hfinite := h.finite
  unfold noteNonFinite at hfinite ⊢
  split_ifs at hfinite ⊢ with hmatch
  exact ⟨rfl, fun hsome => by_contra fun hbanner => hmatch ⟨hbanner, hsome⟩⟩

variable (contract a) in
theorem noteTime_eq (value : Units) :
    (Clean (a.noteTime contract value) → Clean a) ∧
      progress (a.noteTime contract value) = (progress a).note contract.startTime value ∧
      (a.noteTime contract value).endMarker = a.endMarker := by
  unfold noteTime
  split_ifs with hcurrent
  · exact ⟨id, (Progress.note_current contract.startTime hcurrent).symm, rfl⟩
  · have hpass := passes_flushStep contract a
    refine ⟨fun h => hpass.clean ⟨h.valid, h.notFatal, h.finite⟩, ?_, hpass.ended⟩
    rw [← hpass.progress_eq]
    rfl

theorem clean_readTime {stripped : Text} (h : Clean (a.readTime contract stripped)) :
    Clean a ∧ (a.readTime contract stripped).endMarker = a.endMarker ∧
      ((timeRe.fullmatch stripped).isSome →
        ((timeRe.fullmatch stripped).bind (finiteGroup · "time")).isSome) ∧
      progress (a.readTime contract stripped) = (progress a).noteAll contract.startTime
        ((timeRe.fullmatch stripped).bind (finiteGroup · "time")).toList := by
  unfold readTime at h ⊢
  cases hmatch : timeRe.fullmatch stripped with
  | none =>
    rw [hmatch] at h
    exact ⟨h, rfl, by simp, rfl⟩
  | some m =>
    rw [hmatch] at h
    cases hvalue : finiteGroup m "time" with
    | none =>
      simp only [hvalue] at h
      cases h.valid
    | some value =>
      simp only [hvalue] at h
      obtain ⟨hclean, hprogress, hend⟩ := noteTime_eq contract a value
      simp only [Option.bind_some, hvalue]
      exact ⟨hclean h, hend, fun _ => rfl, hprogress⟩

theorem passes_samples (residuals : List ResidualSample) (count : ℕ)
    (last : Dict Text ResidualSample) :
    Passes a { a with residuals := residuals, residualCount := count, lastResiduals := last } :=
  ⟨fun h => ⟨h.valid, h.notFatal, h.finite⟩, rfl, rfl⟩

theorem passes_noteResidual (sample : ResidualSample) : Passes a (a.noteResidual sample) := by
  unfold noteResidual
  extract_lets residuals kept
  have hkept : Passes a kept := passes_samples _ _ _
  split_ifs
  · exact hkept.trans passes_invalid
  · exact passes_samples _ _ _

theorem passes_readResidual (h : a.readResidual line = .ok a') : Passes a a' := by
  unfold readResidual at h
  split at h
  · obtain rfl := Except.ok.inj h
    exact ⟨id, rfl, rfl⟩
  · split at h
    · dsimp only at h
      split_ifs at h
      · obtain rfl := Except.ok.inj h
        exact passes_invalid
      · obtain rfl := Except.ok.inj h
        exact passes_noteResidual _
    · obtain rfl := Except.ok.inj h
      exact passes_invalid

variable (a line) in
theorem passes_readCourant : Passes a (a.readCourant line) := by
  unfold readCourant
  split
  · exact ⟨id, rfl, rfl⟩
  · split
    · exact passes_invalid
    · split_ifs
      · exact passes_invalid
      · exact ⟨fun h => ⟨h.valid, h.notFatal, h.finite⟩, rfl, rfl⟩

variable (a line) in
theorem passes_readContinuity : Passes a (a.readContinuity line) := by
  unfold readContinuity
  split
  · exact ⟨id, rfl, rfl⟩
  · split
    · exact passes_invalid
    · exact ⟨fun h => ⟨h.valid, h.notFatal, h.finite⟩, rfl, rfl⟩

variable (a) in
theorem readEnd_eq (stripped : Text) :
    (Clean (a.readEnd stripped) → Clean a) ∧ progress (a.readEnd stripped) = progress a ∧
      ((a.readEnd stripped).endMarker → a.endMarker ∨ (endRe.fullmatch stripped).isSome) := by
  unfold readEnd
  split_ifs with hend
  · exact ⟨fun h => ⟨h.valid, h.notFatal, h.finite⟩, rfl, fun _ => .inr hend⟩
  · exact ⟨id, rfl, .inl⟩

/-! ### The lines of a log -/

/-- What a clean accumulator says of the reads it was fed. -/
structure Seen (contract : LogContract) (log : List Bytes) (a : RuntimeLogAccumulator) : Prop where
  short : ∀ l ∈ log, l.length ≤ 65536
  notFatal : ∀ l ∈ log, ¬ isFatal l
  finite : ∀ l ∈ log, reportsNonFinite l → hasBanner l
  timed : ∀ l ∈ log, isTime l → (timeOf l).isSome
  progress_eq : progress a = ({} : Progress Units).noteAll contract.startTime (times log)
  ended : a.endMarker → ∃ l ∈ log, isEnd l

theorem Seen.feed {log : List Bytes} {raw : Bytes} (hseen : Clean a → Seen contract log a)
    (h : a.feed contract raw = .ok a') (hclean : Clean a') : Seen contract (log ++ [raw]) a' := by
  unfold RuntimeLogAccumulator.feed at h
  dsimp only at h
  split_ifs at h with hlong
  · obtain rfl := Except.ok.inj h
    exact Bool.noConfusion hclean.valid
  obtain ⟨b, hb, h⟩ := Traversal.bind_eq_ok.1 h
  obtain rfl := Except.ok.inj h
  -- the stages from the last one back to the first
  obtain ⟨hcleanEnd, hprogressEnd, hend⟩ := readEnd_eq
    ((b.readCourant (decodeReplace raw)).readContinuity (decodeReplace raw))
    (strip (decodeReplace raw))
  have hpass := ((passes_readResidual hb).trans (passes_readCourant b (decodeReplace raw))).trans
    (passes_readContinuity _ (decodeReplace raw))
  obtain ⟨hcleanTime, hendTime, htimed, hprogress⟩ := clean_readTime (hpass.clean (hcleanEnd hclean))
  obtain ⟨hfinite, hbanner⟩ := clean_noteNonFinite hcleanTime
  rw [hfinite] at hcleanTime
  obtain ⟨hfatal, hnone⟩ := clean_noteFatal hcleanTime
  rw [hfinite, hfatal] at hprogress hendTime
  rw [hfatal] at hcleanTime
  have hold := hseen ⟨hcleanTime.valid, hcleanTime.notFatal, hcleanTime.finite⟩
  have hlast : ∀ P : Bytes → Prop, (∀ l ∈ log, P l) → P raw → ∀ l ∈ log ++ [raw], P l := by
    intro P hlog hraw l hl
    rcases List.mem_append.1 hl with hl | hl
    · exact hlog l hl
    · exact List.mem_singleton.1 hl ▸ hraw
  refine ⟨hlast _ hold.short (not_lt.1 hlong), hlast _ hold.notFatal (by simp [isFatal, hnone]),
    hlast _ hold.finite hbanner, hlast _ hold.timed htimed, ?_, fun hmarker => ?_⟩
  · rw [hprogressEnd, hpass.progress_eq, hfinite, hfatal, hprogress, times, List.filterMap_append,
      Progress.noteAll_append, ← times]
    have htimes : List.filterMap timeOf [raw] = (timeOf raw).toList := by
      cases hraw : timeOf raw <;> simp [hraw]
    rw [htimes]
    exact congrArg (Progress.noteAll contract.startTime · (timeOf raw).toList) hold.progress_eq
  · rcases hend hmarker with hmarker | hraw
    · rw [hpass.ended, hfinite, hfatal, hendTime] at hmarker
      obtain ⟨l, hl, hend⟩ := hold.ended hmarker
      exact ⟨l, List.mem_append_left _ hl, hend⟩
    · exact ⟨raw, List.mem_append_right _ (List.mem_singleton_self raw), hraw⟩

/-- What the accumulator says of a whole log, when nothing in it fails a run. -/
theorem seen_of_feeds {log : List Bytes} (h : log.foldlM (RuntimeLogAccumulator.feed contract) {} =
    .ok a) (hclean : Clean a) : Seen contract log a :=
  Traversal.foldlM_induct (P := fun log a => Clean a → Seen contract log a) h
    (fun _ => ⟨by simp, by simp, by simp, by simp, rfl, fun h => Bool.noConfusion h⟩)
    (fun _ _ _ _ _ hseen hfeed => Seen.feed hseen hfeed) hclean

/-! ### The verdict -/

@[simp] theorem failIf_eq_nil {p : Prop} [Decidable p] {failure : EvidenceFailure} :
    failIf p failure = [] ↔ ¬ p := by
  unfold failIf
  split_ifs with hp <;> simp [hp]

/-- A process without failures ended well and left a clean log. -/
theorem processFailures_eq_nil {returnCode : ℤ} {driver reason : Text} :
    a.processFailures returnCode driver reason = [] ↔
      returnCode = 0 ∧ reason = "exited".toList ∧ a.endMarker ∧ Clean a ∧ a.timeReversed = false := by
  simp only [processFailures, List.append_eq_nil_iff, failIf_eq_nil, not_or, ne_eq, not_not,
    Bool.not_eq_true, Bool.not_eq_false]
  constructor
  · rintro ⟨⟨⟨⟨⟨hcode, hreason⟩, hend⟩, hfatal⟩, hfinite⟩, hvalid, hreversed⟩
    exact ⟨hcode, hreason, hend, ⟨hvalid, hfatal, hfinite⟩, hreversed⟩
  · rintro ⟨hcode, hreason, hend, ⟨hvalid, hfatal, hfinite⟩, hreversed⟩
    exact ⟨⟨⟨⟨⟨hcode, hreason⟩, hend⟩, hfatal⟩, hfinite⟩, hvalid, hreversed⟩

/-- An execution bound that is met: enough steps, and the end time of a transient run. -/
theorem of_boundTermination {bound : ExecutionBoundContract} {processSuccess : Bool}
    (h : (a.boundTermination bound processSuccess).1 = true) :
    bound.minimumSteps ≤ a.progressSteps ∧ (bound.mode = .transient →
      ∃ endTime last, bound.endTime = some endTime ∧ a.currentTime = some last ∧
        reaches endTime last) := by
  unfold boundTermination at h
  split_ifs at h with hsteps
  refine ⟨not_lt.1 hsteps, fun hmode => ?_⟩
  rw [hmode] at h
  cases hend : bound.endTime with
  | none => simp [hend] at h
  | some endTime =>
    simp only [hend] at h
    obtain ⟨last, hlast, hreaches⟩ := Option.any_eq_true .. |>.1 h
    exact ⟨endTime, last, rfl, hlast, hreaches⟩

theorem of_finish {runtime : RuntimeContract} {returnCode : ℤ} {driver reason : Text}
    {result : SimulationResult}
    (h : a.finish (.runtime runtime) returnCode driver reason = .ok result)
    (hsuccess : result.success) :
    (a.flushStep (.runtime runtime)).processFailures returnCode driver reason = [] ∧
      ((a.flushStep (.runtime runtime)).boundTermination runtime.executionBound true).1 = true := by
  unfold finish at h
  obtain ⟨⟨⟨termination, judged⟩, accepted, warnings⟩, hjudge, h⟩ := Traversal.bind_eq_ok.1 h
  obtain rfl := Except.ok.inj h
  simp only [Bool.and_eq_true, beq_iff_eq] at hsuccess
  obtain ⟨⟨⟨hprocess, -⟩, htermination⟩, -⟩ := hsuccess
  rw [judge, hprocess] at hjudge
  have hpair := congrArg (fun r => r.1.1) (Except.ok.inj hjudge)
  exact ⟨hprocess, hpair.trans htermination⟩

/-- **What success shows.** A run is reported as successful only if the process exited with return
code 0 and its whole output shows a clean run of the execution bound. -/
theorem shows_of_success {runtime : RuntimeContract} {returnCode : ℤ} {driver reason : Text}
    {stream : Bytes} {result : SimulationResult}
    (h : parseRuntimeStream (.runtime runtime) returnCode driver reason stream = .ok result)
    (hsuccess : result.success) :
    returnCode = 0 ∧ reason = "exited".toList ∧ Shows runtime.executionBound (lines stream) := by
  unfold parseRuntimeStream at h
  obtain ⟨a, hfeeds, hfinish⟩ := Traversal.bind_eq_ok.1 h
  obtain ⟨hprocess, htermination⟩ := of_finish hfinish hsuccess
  have hpass := passes_flushStep (.runtime runtime) a
  obtain ⟨hcode, hreason, hend, hclean, hreversed⟩ := processFailures_eq_nil.1 hprocess
  have hseen := seen_of_feeds hfeeds (hpass.clean hclean)
  rw [reads_eq_lines (by decide) le_rfl fun raw hraw => Nat.lt_succ_of_le (hseen.short raw hraw)]
    at hseen
  have hprogress := hpass.progress_eq.trans hseen.progress_eq
  rw [Progress.noteAll_eq] at hprogress
  simp only [progress, LogContract.startTime, Progress.mk.injEq, Option.or_none, Option.getD_none, Nat.zero_add,
    Bool.false_or] at hprogress
  obtain ⟨hcurrent, hsteps, hascending⟩ := hprogress
  obtain ⟨hminimum, hreached⟩ := of_boundTermination htermination
  refine ⟨hcode, hreason, hseen.ended (hpass.ended ▸ hend), hseen.short, hseen.notFatal,
    hseen.finite, hseen.timed, ?_, ?_, fun hmode => ?_⟩
  · rw [hreversed, eq_comm, Bool.not_eq_false'] at hascending
    exact of_decide_eq_true hascending
  · rw [← hsteps]
    exact hminimum
  · obtain ⟨endTime, last, hendTime, hlast, hreaches⟩ := hreached hmode
    exact ⟨endTime, last, hendTime, hcurrent ▸ hlast, hreaches⟩

/-! ### The banner of floating point trapping -/

/-- A transient run to time 2. -/
def twoSeconds : RuntimeContract where
  executionBound := {
    mode := .transient
    endTime := some (literalUnits 2 0) }

/-- A log of two steps behind a first line. -/
def logBehind (line : String) : Bytes :=
  encode (line.toList ++ "\nTime = 1s\nTime = 2s\n\nEnd\n".toList)

theorem exists_ok {ε α : Type} {x : Except ε α} {p : α → Bool} (h : x.toOption.any p) :
    ∃ r, x = .ok r ∧ p r := by
  cases x with
  | error e => cases h
  | ok r => exact ⟨r, rfl, h⟩

theorem shows_of_success_banner :
    (0 : ℤ) = 0 ∧ "exited".toList = "exited".toList ∧ Shows twoSeconds.executionBound
      (lines (logBehind "Enabling floating point exception trapping (FOAM_SIGFPE).")) := by
  have hrun : (parseRuntimeStream (.runtime twoSeconds) 0 "foamRun".toList "exited".toList
      (logBehind "Enabling floating point exception trapping (FOAM_SIGFPE).")).toOption.any
      SimulationResult.success := by decide +kernel
  obtain ⟨result, h, hsuccess⟩ := exists_ok hrun
  exact shows_of_success h hsuccess

/-- **The banner hides its line.** A run is reported as successful although a line of its output
reports a `nan`: the line holds the banner. -/
theorem banner_hides_nan :
    (∃ result, parseRuntimeStream (.runtime twoSeconds) 0 "foamRun".toList "exited".toList
      (logBehind "Enabling floating point exception trapping, T = nan") = .ok result ∧
        result.success) ∧
    ∃ line ∈ lines (logBehind "Enabling floating point exception trapping, T = nan"),
      line = encode "Enabling floating point exception trapping, T = nan\n".toList ∧
        reportsNonFinite line :=
  ⟨exists_ok (by decide +kernel), _, List.mem_cons_self, by decide +kernel⟩

end Runtime
end OpenFoamAgent
