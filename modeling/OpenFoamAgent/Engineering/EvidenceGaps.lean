/-
# The ledger of evidence gaps

`_gather_evidence` of `engineering/agent.py`, and the normalisation of a batch
that it begins with. The model asks for evidence under ids of its own, and the
ledger of the phase owns the ids: a parent it does not hold is cleared, a child
that collides is issued a fresh id, and a request under an id it holds is blocked.

A retrieval under a parent is a refinement of one that the ledger holds and that
is not satisfied, and the ids of the retrievals of a phase are distinct
(`gatherEvidence_of_run`). The first request of a batch to reuse an id of the
ledger without a parent is blocked; a second one with another content is not
(`gatherEvidence_reissues`).

What retrieval finds is given, as is the fingerprint of a content.
-/
import OpenFoamAgent.Library.Dict
import OpenFoamAgent.Library.Runs
import OpenFoamAgent.Python.Float

namespace OpenFoamAgent
namespace Engineering

open Python

/-! ### Requests -/

/-- What an `EvidenceGapRequest` asks for: its fields without the ids. -/
structure GapContent where
  missingEvidence : Text
  whyRequired : Text
  capabilityQueries : List Text := []
  referenceQueries : List Text := []
  referenceScope : Text := "all".toList
  readTopReferenceMatches : ℕ := 1
  targetCaseFiles : List Text := []
  evidencePolicy : Text := "deferred".toList
  riskLevel : Text := "medium".toList
  verificationStage : Text := "authoring".toList
  deriving DecidableEq

/-- `EvidenceGapRequest`. -/
structure EvidenceGapRequest where
  gapId : Text
  refinesGapId : Option Text := none
  content : GapContent
  deriving DecidableEq

/-- What the normalisation says about a request. -/
inductive GapNote where
  /-- `self-refining requested ID {requested_id} reissued as {effective_id}` -/
  | selfReissued (requestedId effectiveId : Text)
  /-- `self-refinement parent {requested_id} was unknown and was cleared` -/
  | selfCleared (requestedId : Text)
  /-- `duplicate in-batch requested ID {effective_id} reissued as {reissued}` -/
  | duplicateReissued (effectiveId reissued : Text)
  /-- `colliding requested ID {effective_id} reissued as {reissued}` -/
  | collidingReissued (effectiveId reissued : Text)
  /-- `unknown refinement parent {parent_id} cleared; request treated as a root gap` -/
  | parentCleared (parentId : Text)
  deriving DecidableEq

/-- A request as it is normalised, with the id it came under. -/
structure NormalizedGap where
  gap : EvidenceGapRequest
  requestedId : Text
  notes : List GapNote
  deriving DecidableEq

/-! ### Ids -/

/-- The number of an id that matches `G([0-9]{2,4})`. -/
def gapNumber : Text → Option ℕ
  | 'G' :: digits =>
    if digits.all isAsciiDigit ∧ 2 ≤ digits.length ∧ digits.length ≤ 4 then
      some (digitsValue digits)
    else none
  | _ => none

/-- `f"G{number:02d}"`. -/
def gapLabel (number : ℕ) : Text :=
  'G' :: ((if number < 10 then ['0'] else []) ++ Nat.toDigits 10 number)

/-- The candidates from an offset on: the first that is free. -/
def freeGapId (occupied : List Text) (start : ℕ) : ℕ → ℕ → Option Text
  | 0, _ => none
  | turns + 1, offset =>
    let candidate := gapLabel ((start - 1 + offset) % 9999 + 1)
    if candidate ∈ occupied then freeGapId occupied start turns (offset + 1) else some candidate

/-- `_next_evidence_gap_id`; none where the `RuntimeError` is raised, that all ids are taken. -/
def nextEvidenceGapId (occupied : List Text) : Option Text :=
  let start :=
    match (occupied.filterMap gapNumber).max? with
    | some number => if number < 9999 then number + 1 else 1
    | none => 1
  freeGapId occupied start 9999 0

theorem freeGapId_notMem {occupied : List Text} {start turns offset : ℕ} {id : Text}
    (h : freeGapId occupied start turns offset = some id) : id ∉ occupied := by
  induction turns generalizing offset with
  | zero => cases h
  | succ turns ih =>
    unfold freeGapId at h
    dsimp only at h
    split_ifs at h with hmem
    · exact ih h
    · obtain rfl := Option.some.inj h
      exact hmem

/-- An id that is issued is taken by nothing. -/
theorem nextEvidenceGapId_notMem {occupied : List Text} {id : Text}
    (h : nextEvidenceGapId occupied = some id) : id ∉ occupied :=
  freeGapId_notMem h

/-! ### Normalisation of a batch -/

section Normalization

variable (known reserved : List Text)

/-- A request that names itself as its parent: the id and the parent it goes on with. -/
def settleSelf (gap : EvidenceGapRequest) : Option (Text × Option Text × List GapNote) :=
  if gap.refinesGapId = some gap.gapId then
    if gap.gapId ∈ known then
      match nextEvidenceGapId (known ++ reserved) with
      | none => none
      | some issued => some (issued, gap.refinesGapId, [.selfReissued gap.gapId issued])
    else some (gap.gapId, none, [.selfCleared gap.gapId])
  else some (gap.gapId, gap.refinesGapId, [])

/-- An id that an earlier request of the batch has, or a child under an id of the ledger. -/
def settleCollision (effectiveId : Text) (parentId : Option Text) :
    Option (Text × List GapNote) :=
  if effectiveId ∈ reserved then
    match nextEvidenceGapId (known ++ reserved) with
    | none => none
    | some reissued => some (reissued, [.duplicateReissued effectiveId reissued])
  else if effectiveId ∈ known ∧ parentId ≠ none ∧ parentId ≠ some effectiveId then
    match nextEvidenceGapId (known ++ reserved) with
    | none => none
    | some reissued => some (reissued, [.collidingReissued effectiveId reissued])
  else some (effectiveId, [])

/-- A parent that the ledger does not hold is cleared. -/
def settleParent : Option Text → Option Text × List GapNote
  | none => (none, [])
  | some parentId =>
    if parentId ∈ known then (some parentId, []) else (none, [.parentCleared parentId])

/-- One request of a batch, where the ledger holds `known` and the requests before it were given
the ids `reserved`. -/
def normalizeGap (gap : EvidenceGapRequest) : Option NormalizedGap :=
  match settleSelf known reserved gap with
  | none => none
  | some (effectiveId, parentId, notes) =>
    match settleCollision known reserved effectiveId parentId with
    | none => none
    | some (gapId, notes') =>
      let (refinesGapId, notes'') := settleParent known parentId
      some ⟨{ gap with gapId, refinesGapId }, gap.gapId, notes ++ notes' ++ notes''⟩

variable (fingerprint : GapContent → Text)

/-- The loop of `_normalize_evidence_gap_batch`, which passes over exact duplicates. -/
def normalizeFrom : List Text → List (Text × Option Text × Text) → List EvidenceGapRequest →
    Option (List NormalizedGap)
  | _, _, [] => some []
  | reserved, seen, gap :: gaps =>
    let key := (gap.gapId, gap.refinesGapId, fingerprint gap.content)
    if key ∈ seen then normalizeFrom reserved seen gaps
    else
      match normalizeGap known reserved gap with
      | none => none
      | some n =>
        match normalizeFrom (n.gap.gapId :: reserved) (key :: seen) gaps with
        | none => none
        | some ns => some (n :: ns)

/-- `_normalize_evidence_gap_batch`. -/
def normalizeEvidenceGapBatch (gaps : List EvidenceGapRequest) : Option (List NormalizedGap) :=
  normalizeFrom known fingerprint [] [] gaps

end Normalization

/-! ### The ledger -/

/-- The status of an entry. -/
inductive GapStatus where
  | open | evidenceAvailable | stagnant | superseded | satisfied | retrievalUnavailable
  deriving DecidableEq

/-- An entry of the ledger. -/
structure GapEntry where
  missingEvidence : Text
  whyRequired : Text
  refinesGapId : Option Text
  requestedGapId : Text
  protocolNotes : List GapNote
  capabilityQueries : List Text
  referenceQueries : List Text
  seenIds : List Text := []
  retrievals : ℕ := 0
  lastNewCount : ℕ := 0
  status : GapStatus := .open
  supersededBy : Option Text := none
  deriving DecidableEq

/-- The ledger of a phase. -/
abbrev GapLedger := Dict Text GapEntry

/-- An exception of the search for evidence. -/
inductive RetrievalFault where
  /-- One that the dispatcher answers by disabling retrieval. -/
  | infrastructure
  | other
  deriving DecidableEq

/-- What becomes of a request. -/
inductive GapOutcome where
  /-- `already_retrieved_blocked` -/
  | alreadyRetrieved
  /-- `satisfied_parent_blocked` -/
  | satisfiedParent
  /-- `new_evidence`, or `no_new_evidence` where nothing is found. -/
  | retrieved (evidenceIds : List Text)
  | raised (fault : RetrievalFault)
  deriving DecidableEq

/-- The request led to a search. -/
def GapOutcome.performed : GapOutcome → Bool
  | alreadyRetrieved | satisfiedParent => false
  | retrieved _ | raised _ => true

/-- The exception, if one was raised. -/
def GapOutcome.fault : GapOutcome → Option RetrievalFault
  | raised fault => some fault
  | _ => none

/-- The entry made for a request. -/
def NormalizedGap.entry (n : NormalizedGap) : GapEntry where
  missingEvidence := n.gap.content.missingEvidence
  whyRequired := n.gap.content.whyRequired
  refinesGapId := n.gap.refinesGapId
  requestedGapId := n.requestedId
  protocolNotes := n.notes
  capabilityQueries := n.gap.content.capabilityQueries
  referenceQueries := n.gap.content.referenceQueries

/-- The ledger with the entry of a request, whose parent it supersedes. -/
def GapLedger.enter (ledger : GapLedger) (n : NormalizedGap) : GapLedger :=
  let entered := ledger.insert n.gap.gapId n.entry
  match n.gap.refinesGapId with
  | none => entered
  | some parentId =>
    match ledger.get parentId with
    | none => entered
    | some parent =>
      entered.insert parentId
        { parent with status := .superseded, supersededBy := some n.gap.gapId }

variable (retrieve : EvidenceGapRequest → Except RetrievalFault (List Text))

/-- One request in the loop of `_gather_evidence`. -/
def gatherGap (ledger : GapLedger) (n : NormalizedGap) : GapLedger × GapOutcome :=
  if n.gap.gapId ∈ ledger then (ledger, .alreadyRetrieved)
  else if ((n.gap.refinesGapId.bind ledger.get).any (·.status = .satisfied)) then
    (ledger, .satisfiedParent)
  else
    match retrieve n.gap with
    | .error fault => (ledger.enter n, .raised fault)
    | .ok evidenceIds =>
      ((ledger.enter n).insert n.gap.gapId
        { n.entry with
          seenIds := evidenceIds
          retrievals := 1
          lastNewCount := evidenceIds.length
          status := if evidenceIds = [] then .stagnant else .evidenceAvailable },
        .retrieved evidenceIds)

/-- The loop of `_gather_evidence`, which an exception ends. -/
def gatherFrom : GapLedger → List NormalizedGap → GapLedger × List (NormalizedGap × GapOutcome)
  | ledger, [] => (ledger, [])
  | ledger, n :: ns =>
    let (after, outcome) := gatherGap retrieve ledger n
    match outcome.fault with
    | some _ => (after, [(n, outcome)])
    | none =>
      let (final, results) := gatherFrom after ns
      (final, (n, outcome) :: results)

/-! ### Runs -/

/-- The agent's records of evidence retrieval, by phase. -/
structure GapState where
  ledger : Text → GapLedger := fun _ => ∅
  cycles : Text → ℕ := fun _ => 0
  disabled : Text → Bool := fun _ => false
  /-- The ids under which evidence was sought since the phase began. -/
  issued : Text → List Text := fun _ => []

/-- What happens to these records. -/
inductive GapAction where
  /-- `_gather_evidence`, with what the search for a request finds or raises. -/
  | gather (phase : Text) (gaps : List EvidenceGapRequest)
      (retrieve : EvidenceGapRequest → Except RetrievalFault (List Text))
  /-- `_mark_evidence_gaps_satisfied` -/
  | proceed (phase : Text)
  /-- The phase begins. -/
  | start (phase : Text)

/-- The ids under which a search was made. -/
def issuedIn (results : List (NormalizedGap × GapOutcome)) : List Text :=
  (results.filter (·.2.performed)).map (·.1.gap.gapId)

namespace GapState

variable (limit : Text → ℕ) (fingerprint : GapContent → Text)

/-- The ledger of a phase with the status of some entries changed. -/
def mark (s : GapState) (phase : Text) (statuses : List GapStatus) (status : GapStatus) :
    GapState :=
  { s with
    ledger := Function.update s.ledger phase ((s.ledger phase).mapValues fun entry =>
      if entry.status ∈ statuses then { entry with status } else entry) }

/-- `_mark_evidence_gaps_satisfied`. -/
def markEvidenceGapsSatisfied (s : GapState) (phase : Text) : GapState :=
  s.mark phase [.evidenceAvailable] .satisfied

/-- `_disable_evidence_retrieval`. -/
def disableEvidenceRetrieval (s : GapState) (phase : Text) : GapState :=
  { s.mark phase [.open, .evidenceAvailable, .stagnant] .retrievalUnavailable with
    disabled := Function.update s.disabled phase true
    cycles := Function.update s.cycles phase (limit phase) }

/-- The state after the loop over a batch. -/
def record (s : GapState) (phase : Text) (ledger : GapLedger)
    (results : List (NormalizedGap × GapOutcome)) : GapState :=
  { s with
    ledger := Function.update s.ledger phase ledger
    issued := Function.update s.issued phase (s.issued phase ++ issuedIn results) }

/-- `_gather_evidence`, and what the dispatcher makes of its exceptions; the results are those of
the requests it looked at. -/
def gatherEvidence (s : GapState) (phase : Text) (gaps : List EvidenceGapRequest)
    (retrieve : EvidenceGapRequest → Except RetrievalFault (List Text)) :
    GapState × List (NormalizedGap × GapOutcome) :=
  if s.disabled phase = true ∨ limit phase ≤ s.cycles phase then (s, [])
  else
    match normalizeEvidenceGapBatch (s.ledger phase).keys fingerprint gaps with
    | none => (s, [])
    | some ns =>
      let (ledger, results) := gatherFrom retrieve (s.ledger phase) ns
      let after := s.record phase ledger results
      match results.getLast?.bind (·.2.fault) with
      | some .infrastructure => (after.disableEvidenceRetrieval limit phase, results)
      | some .other => (after, results)
      | none =>
        if results.any (·.2.performed) then
          ({ after with cycles := Function.update s.cycles phase (s.cycles phase + 1) }, results)
        else (after, results)

/-- One action. -/
def act (s : GapState) : GapAction → GapState
  | .gather phase gaps retrieve => (s.gatherEvidence limit fingerprint phase gaps retrieve).1
  | .proceed phase => s.markEvidenceGapsSatisfied phase
  | .start phase =>
    { ledger := Function.update s.ledger phase ∅
      cycles := Function.update s.cycles phase 0
      disabled := Function.update s.disabled phase false
      issued := Function.update s.issued phase [] }

/-- The state after some actions. -/
def run (actions : List GapAction) : GapState := Runs.run (act limit fingerprint) {} actions

end GapState

/-! ### What normalisation gives -/

/-- What a request becomes, where the ledger holds `known` and the requests before it were given
the ids `reserved`. -/
structure Normalizes (known reserved : List Text) (gap : EvidenceGapRequest) (n : NormalizedGap) :
    Prop where
  requested : n.requestedId = gap.gapId
  content : n.gap.content = gap.content
  fresh : n.gap.gapId ∉ reserved
  /-- An id of the ledger is kept by a request without a parent alone. -/
  own : n.gap.gapId ∈ known → n.gap.gapId = gap.gapId ∧ gap.refinesGapId = none
  kept : gap.gapId ∉ reserved → gap.refinesGapId = none → n.gap.gapId = gap.gapId
  parent : n.gap.refinesGapId = gap.refinesGapId.filter (· ∈ known)

section Normalization

variable {known reserved : List Text}

theorem settleSelf_eq_some {gap : EvidenceGapRequest} {effectiveId : Text}
    {parentId : Option Text} {notes : List GapNote}
    (h : settleSelf known reserved gap = some (effectiveId, parentId, notes)) :
    parentId.filter (· ∈ known) = gap.refinesGapId.filter (· ∈ known) ∧
      (effectiveId ∈ known → effectiveId = gap.gapId ∧ parentId = gap.refinesGapId ∧
        parentId ≠ some effectiveId) ∧
      (gap.refinesGapId = none → effectiveId = gap.gapId ∧ parentId = none) := by
  unfold settleSelf at h
  by_cases hself : gap.refinesGapId = some gap.gapId
  · rw [if_pos hself] at h
    by_cases hknown : gap.gapId ∈ known
    · rw [if_pos hknown] at h
      rcases hissued : nextEvidenceGapId (known ++ reserved) with _ | issued
      · rw [hissued] at h
        cases h
      · rw [hissued] at h
        cases h
        refine ⟨rfl, fun hmem => ?_, fun hnone => ?_⟩
        · exact absurd (List.mem_append_left _ hmem) (nextEvidenceGapId_notMem hissued)
        · rw [hself] at hnone
          cases hnone
    · rw [if_neg hknown] at h
      cases h
      refine ⟨?_, fun hmem => absurd hmem hknown, fun hnone => ⟨rfl, rfl⟩⟩
      rw [hself, Option.filter_some, if_neg (by simpa using hknown), Option.filter_none]
  · rw [if_neg hself] at h
    cases h
    exact ⟨rfl, fun _ => ⟨rfl, rfl, hself⟩, fun hnone => ⟨rfl, hnone⟩⟩

theorem settleCollision_eq_some {effectiveId gapId : Text} {parentId : Option Text}
    {notes : List GapNote}
    (h : settleCollision known reserved effectiveId parentId = some (gapId, notes)) :
    gapId ∉ reserved ∧
      (gapId ∈ known → gapId = effectiveId ∧ (parentId = none ∨ parentId = some effectiveId)) ∧
      (effectiveId ∉ reserved → parentId = none → gapId = effectiveId) := by
  unfold settleCollision at h
  have hissues : ∀ {issued : Text}, nextEvidenceGapId (known ++ reserved) = some issued →
      issued ∉ known ∧ issued ∉ reserved := fun hissued =>
    not_or.1 (List.mem_append.not.1 (nextEvidenceGapId_notMem hissued))
  by_cases hreserved : effectiveId ∈ reserved
  · rw [if_pos hreserved] at h
    rcases hissued : nextEvidenceGapId (known ++ reserved) with _ | issued
    · rw [hissued] at h
      cases h
    · rw [hissued] at h
      cases h
      obtain ⟨hknown, hfresh⟩ := hissues hissued
      exact ⟨hfresh, fun hmem => absurd hmem hknown, fun hnot => absurd hreserved hnot⟩
  rw [if_neg hreserved] at h
  by_cases hcollides : effectiveId ∈ known ∧ parentId ≠ none ∧ parentId ≠ some effectiveId
  · rw [if_pos hcollides] at h
    rcases hissued : nextEvidenceGapId (known ++ reserved) with _ | issued
    · rw [hissued] at h
      cases h
    · rw [hissued] at h
      cases h
      obtain ⟨hknown, hfresh⟩ := hissues hissued
      exact ⟨hfresh, fun hmem => absurd hmem hknown, fun _ hnone => absurd hnone hcollides.2.1⟩
  · rw [if_neg hcollides] at h
    cases h
    refine ⟨hreserved, fun hmem => ⟨rfl, ?_⟩, fun _ _ => rfl⟩
    by_contra hparent
    exact hcollides ⟨hmem, not_or.1 hparent⟩

theorem settleParent_fst (parentId : Option Text) :
    (settleParent known parentId).1 = parentId.filter (· ∈ known) := by
  cases parentId with
  | none => rfl
  | some p =>
    rw [Option.filter_some, settleParent]
    split_ifs with hp hp' hp'
    · rfl
    · exact absurd (by simpa using hp) hp'
    · exact absurd (by simpa using hp') hp
    · rfl

theorem normalizeGap_eq_some {gap : EvidenceGapRequest} {n : NormalizedGap}
    (h : normalizeGap known reserved gap = some n) : Normalizes known reserved gap n := by
  unfold normalizeGap at h
  rcases hself : settleSelf known reserved gap with _ | ⟨effectiveId, parentId, notes⟩
  · rw [hself] at h
    cases h
  rcases hcollision : settleCollision known reserved effectiveId parentId with _ | ⟨gapId, notes'⟩
  · simp only [hself, hcollision] at h
    cases h
  simp only [hself, hcollision] at h
  cases h
  obtain ⟨hparent, heffective, hroot⟩ := settleSelf_eq_some hself
  obtain ⟨hfresh, hknown, hkept⟩ := settleCollision_eq_some hcollision
  constructor
  · rfl
  · rfl
  · exact hfresh
  · intro hmem
    obtain ⟨rfl, hno⟩ := hknown hmem
    obtain ⟨hid, hrefines, hself⟩ := heffective hmem
    exact ⟨hid, hrefines ▸ hno.resolve_right hself⟩
  · intro hnot hnone
    obtain ⟨rfl, hno⟩ := hroot hnone
    exact hkept hnot hno
  · exact (settleParent_fst parentId).trans hparent

variable {fingerprint : GapContent → Text}

/-- **A batch**: its ids are distinct, and every normalised request comes from one of the batch.
Of the ids of the ledger, those that are taken at that point were taken by requests without a
parent. -/
theorem normalizeFrom_eq_some {seen : List (Text × Option Text × Text)}
    {gaps : List EvidenceGapRequest} {ns : List NormalizedGap}
    (h : normalizeFrom known fingerprint reserved seen gaps = some ns) :
    (∀ n ∈ ns, n.gap.gapId ∉ reserved) ∧ (ns.map (·.gap.gapId)).Nodup ∧
      ∀ n ∈ ns, ∃ before gap after reserved', gaps = before ++ gap :: after ∧
        Normalizes known reserved' gap n ∧ ∀ id ∈ reserved', id ∈ known → id ∈ reserved ∨
          ∃ b ∈ before, b.gapId = id ∧ b.refinesGapId = none := by
  induction gaps generalizing reserved seen ns with
  | nil =>
    cases h
    exact ⟨fun _ hn => absurd hn List.not_mem_nil, .nil, fun _ hn => absurd hn List.not_mem_nil⟩
  | cons gap gaps ih =>
    unfold normalizeFrom at h
    dsimp only at h
    split_ifs at h with hseen
    · obtain ⟨hfresh, hnodup, hfrom⟩ := ih h
      refine ⟨hfresh, hnodup, fun n hn => ?_⟩
      obtain ⟨before, g, after, reserved', rfl, hnormalizes, htaken⟩ := hfrom n hn
      refine ⟨gap :: before, g, after, reserved', rfl, hnormalizes, fun id hid hknown => ?_⟩
      refine (htaken id hid hknown).imp_right ?_
      rintro ⟨b, hb, hgiven⟩
      exact ⟨b, List.mem_cons_of_mem _ hb, hgiven⟩
    · rcases hn : normalizeGap known reserved gap with _ | n
      · rw [hn] at h
        cases h
      rw [hn] at h
      dsimp only at h
      rcases hns : normalizeFrom known fingerprint (n.gap.gapId :: reserved)
        ((gap.gapId, gap.refinesGapId, fingerprint gap.content) :: seen) gaps with _ | ns'
      · rw [hns] at h
        cases h
      rw [hns] at h
      cases h
      have hnormalizes := normalizeGap_eq_some hn
      obtain ⟨hfresh, hnodup, hfrom⟩ := ih hns
      refine ⟨?_, ?_, ?_⟩
      · intro n' hn'
        rcases List.mem_cons.1 hn' with rfl | hn'
        · exact hnormalizes.fresh
        · exact fun hmem => hfresh n' hn' (List.mem_cons_of_mem _ hmem)
      · rw [List.map_cons, List.nodup_cons]
        refine ⟨fun hmem => ?_, hnodup⟩
        obtain ⟨n', hn', hid⟩ := List.mem_map.1 hmem
        exact hfresh n' hn' (hid ▸ List.mem_cons_self)
      · intro n' hn'
        rcases List.mem_cons.1 hn' with rfl | hn'
        · exact ⟨[], gap, gaps, reserved, rfl, hnormalizes, fun id hid _ => .inl hid⟩
        · obtain ⟨before, g, after, reserved', rfl, hnormalizes', htaken⟩ := hfrom n' hn'
          refine ⟨gap :: before, g, after, reserved', rfl, hnormalizes', fun id hid hknown => ?_⟩
          rcases htaken id hid hknown with hmem | ⟨b, hb, hgiven⟩
          · rcases List.mem_cons.1 hmem with rfl | hmem
            · obtain ⟨hid, hnone⟩ := hnormalizes.own hknown
              exact .inr ⟨gap, List.mem_cons_self, hid.symm, hnone⟩
            · exact .inl hmem
          · exact .inr ⟨b, List.mem_cons_of_mem _ hb, hgiven⟩

end Normalization

/-! ### What a request does to the ledger -/

/-- The ledger after a request has been entered. -/
structure Entered (ledger : GapLedger) (n : NormalizedGap) (ledger' : GapLedger) : Prop where
  refines : ∀ id, (ledger'.get id).map (·.refinesGapId) =
    if id = n.gap.gapId then some n.gap.refinesGapId else (ledger.get id).map (·.refinesGapId)
  /-- The entries but its own and its parent's are as they were. -/
  others : ∀ id, id ≠ n.gap.gapId → n.gap.refinesGapId ≠ some id → ledger'.get id = ledger.get id

theorem Entered.mem_iff {ledger ledger' : GapLedger} {n : NormalizedGap}
    (h : Entered ledger n ledger') {id : Text} :
    id ∈ ledger' ↔ id = n.gap.gapId ∨ id ∈ ledger := by
  have hrefines := congrArg Option.isSome (h.refines id)
  rw [Option.isSome_map] at hrefines
  rw [← Dict.get_isSome, hrefines]
  split_ifs with hid
  · exact ⟨fun _ => .inl hid, fun _ => rfl⟩
  · rw [Option.isSome_map, Dict.get_isSome]
    exact ⟨.inr, fun hor => hor.resolve_left hid⟩

theorem entered_enter {ledger : GapLedger} {n : NormalizedGap} (hfresh : n.gap.gapId ∉ ledger) :
    Entered ledger n (ledger.enter n) := by
  have hplain : Entered ledger n (ledger.insert n.gap.gapId n.entry) := by
    constructor
    · intro id
      rw [Dict.get_insert]
      split_ifs
      · rfl
      · rfl
    · exact fun id hid _ => Dict.get_insert_of_ne _ _ hid
  unfold GapLedger.enter
  dsimp only
  rcases hrefines : n.gap.refinesGapId with _ | parentId
  · exact hplain
  dsimp only
  rcases hparent : ledger.get parentId with _ | parent
  · exact hplain
  have hne : parentId ≠ n.gap.gapId := by
    rintro rfl
    exact hfresh (Dict.get_isSome.1 (by rw [hparent]; rfl))
  dsimp only
  constructor
  · intro id
    rw [Dict.get_insert]
    by_cases hid : id = parentId
    · rw [if_pos hid, if_neg (hid ▸ hne), hid, hparent]
      rfl
    · rw [if_neg hid]
      exact hplain.refines id
  · intro id hid hother
    have hnot : id ≠ parentId := fun heq => hother (by rw [hrefines, heq])
    rw [Dict.get_insert_of_ne _ _ hnot]
    exact Dict.get_insert_of_ne _ _ hid

/-- Another entry with the same parent, in the place of the request. -/
theorem Entered.insert {ledger ledger' : GapLedger} {n : NormalizedGap}
    (h : Entered ledger n ledger') {entry : GapEntry}
    (hentry : entry.refinesGapId = n.gap.refinesGapId) :
    Entered ledger n (ledger'.insert n.gap.gapId entry) := by
  constructor
  · intro id
    rw [Dict.get_insert]
    by_cases hid : id = n.gap.gapId
    · rw [if_pos hid, if_pos hid, Option.map_some, hentry]
    · rw [if_neg hid]
      exact h.refines id
  · intro id hid hother
    rw [Dict.get_insert_of_ne _ _ hid]
    exact h.others id hid hother

/-- **What one request does**: it is blocked where its id is in the ledger or its parent is
satisfied, and entered where evidence is sought. -/
theorem gatherGap_cases (ledger : GapLedger) (n : NormalizedGap) :
    (n.gap.gapId ∈ ledger ∧ gatherGap retrieve ledger n = (ledger, .alreadyRetrieved)) ∨
    (n.gap.gapId ∉ ledger ∧ gatherGap retrieve ledger n = (ledger, .satisfiedParent)) ∨
    (n.gap.gapId ∉ ledger ∧ (gatherGap retrieve ledger n).2.performed = true ∧
      (∀ id parent, n.gap.refinesGapId = some id → ledger.get id = some parent →
        parent.status ≠ .satisfied) ∧
      Entered ledger n (gatherGap retrieve ledger n).1) := by
  unfold gatherGap
  by_cases hmem : n.gap.gapId ∈ ledger
  · exact .inl ⟨hmem, if_pos hmem⟩
  rw [if_neg hmem]
  by_cases hsatisfied : (n.gap.refinesGapId.bind ledger.get).any (·.status = .satisfied)
  · exact .inr (.inl ⟨hmem, if_pos hsatisfied⟩)
  rw [if_neg hsatisfied]
  refine .inr (.inr ⟨hmem, ?_, ?_, ?_⟩)
  · rcases retrieve n.gap with fault | evidenceIds
    · rfl
    · rfl
  · intro id parent hid hparent hstatus
    refine hsatisfied ?_
    rw [hid, Option.bind_some, hparent, Option.any_some, decide_eq_true_eq]
    exact hstatus
  · rcases retrieve n.gap with fault | evidenceIds
    · exact entered_enter hmem
    · exact (entered_enter hmem).insert rfl

/-- The entries of a ledger stay, with their parents, and those that are satisfied stay so. -/
def Keeps (ledger ledger' : GapLedger) : Prop :=
  ∀ id entry, ledger.get id = some entry → ∃ entry', ledger'.get id = some entry' ∧
    (entry.status = .satisfied → entry'.status = .satisfied)

theorem Keeps.refl (ledger : GapLedger) : Keeps ledger ledger :=
  fun _ entry h => ⟨entry, h, fun hs => hs⟩

theorem Keeps.trans {a b c : GapLedger} (hab : Keeps a b) (hbc : Keeps b c) : Keeps a c := by
  intro id entry h
  obtain ⟨entry', h', hs⟩ := hab id entry h
  obtain ⟨entry'', h'', hs'⟩ := hbc id entry' h'
  exact ⟨entry'', h'', fun hsatisfied => hs' (hs hsatisfied)⟩

theorem Keeps.mem {ledger ledger' : GapLedger} (h : Keeps ledger ledger') {id : Text}
    (hid : id ∈ ledger) : id ∈ ledger' := by
  obtain ⟨entry, hentry⟩ := Option.isSome_iff_exists.1 (Dict.get_isSome.2 hid)
  obtain ⟨entry', hentry', -⟩ := h id entry hentry
  exact Dict.get_isSome.1 (by rw [hentry']; rfl)

theorem keeps_gatherGap (ledger : GapLedger) (n : NormalizedGap) :
    Keeps ledger (gatherGap retrieve ledger n).1 := by
  rcases gatherGap_cases retrieve ledger n with
    ⟨-, h⟩ | ⟨-, h⟩ | ⟨hfresh, -, hparent, hentered⟩
  · rw [h]
    exact .refl ledger
  · rw [h]
    exact .refl ledger
  · intro id entry hentry
    by_cases hrefines : n.gap.refinesGapId = some id
    · have hmem := hentered.mem_iff.2 (.inr (Dict.get_isSome.1 (by rw [hentry]; rfl)))
      obtain ⟨entry', hentry'⟩ := Option.isSome_iff_exists.1 (Dict.get_isSome.2 hmem)
      exact ⟨entry', hentry', fun hs => absurd hs (hparent id entry hrefines hentry)⟩
    · have hne : id ≠ n.gap.gapId := by
        rintro rfl
        exact hfresh (Dict.get_isSome.1 (by rw [hentry]; rfl))
      exact ⟨entry, (hentered.others id hne hrefines).trans hentry, fun hs => hs⟩

/-! ### What a batch does to the ledger -/

/-- Every parent of an entry is another entry. -/
def Parented (ledger : GapLedger) : Prop :=
  ∀ id parentId, (ledger.get id).map (·.refinesGapId) = some (some parentId) →
    parentId ∈ ledger ∧ parentId ≠ id

theorem parented_gatherGap {ledger : GapLedger} {n : NormalizedGap} (h : Parented ledger)
    (hknown : ∀ id, n.gap.refinesGapId = some id → id ∈ ledger) :
    Parented (gatherGap retrieve ledger n).1 := by
  rcases gatherGap_cases retrieve ledger n with
    ⟨-, hsame⟩ | ⟨-, hsame⟩ | ⟨hfresh, -, -, hentered⟩
  · rwa [hsame]
  · rwa [hsame]
  · intro id parentId hparent
    rw [hentered.refines] at hparent
    split_ifs at hparent with hid
    · have hmem := hknown parentId (Option.some.inj hparent)
      refine ⟨hentered.mem_iff.2 (.inr hmem), ?_⟩
      rintro rfl
      exact hfresh (hid ▸ hmem)
    · obtain ⟨hmem, hne⟩ := h id parentId hparent
      exact ⟨hentered.mem_iff.2 (.inr hmem), hne⟩

/-- The outcomes of a batch that starts on a ledger. -/
structure Gathered (ledger : GapLedger) (ns : List NormalizedGap) (ledger' : GapLedger)
    (results : List (NormalizedGap × GapOutcome)) : Prop where
  keeps : Keeps ledger ledger'
  parented : (∀ n ∈ ns, ∀ id, n.gap.refinesGapId = some id → id ∈ ledger) → Parented ledger →
    Parented ledger'
  mem_iff : ∀ id, id ∈ ledger' ↔ id ∈ ledger ∨ id ∈ issuedIn results
  fresh : ∀ id ∈ issuedIn results, id ∉ ledger
  nodup : (issuedIn results).Nodup
  starts : results.map (·.1) <+: ns
  blocked : ∀ r ∈ results, r.1.gap.gapId ∈ ledger → r.2 = .alreadyRetrieved
  unsatisfied : ∀ r ∈ results, r.2.performed = true → ∀ id parent,
    r.1.gap.refinesGapId = some id → ledger.get id = some parent → parent.status ≠ .satisfied

theorem issuedIn_cons (r : NormalizedGap × GapOutcome)
    (results : List (NormalizedGap × GapOutcome)) :
    issuedIn (r :: results) =
      (if r.2.performed = true then [r.1.gap.gapId] else []) ++ issuedIn results := by
  unfold issuedIn
  rw [List.filter_cons]
  split_ifs
  · rfl
  · rfl

/-- One request and the rest of the batch. -/
theorem Gathered.cons {ledger final : GapLedger} {n : NormalizedGap} {ns : List NormalizedGap}
    {results : List (NormalizedGap × GapOutcome)}
    (h : Gathered (gatherGap retrieve ledger n).1 ns final results) :
    Gathered ledger (n :: ns) final ((n, (gatherGap retrieve ledger n).2) :: results) := by
  have hkeeps := keeps_gatherGap retrieve ledger n
  have hmem : ∀ id, id ∈ (gatherGap retrieve ledger n).1 ↔ id ∈ ledger ∨
      id ∈ (if (gatherGap retrieve ledger n).2.performed = true then [n.gap.gapId] else []) := by
    intro id
    rcases gatherGap_cases retrieve ledger n with
      ⟨-, hsame⟩ | ⟨-, hsame⟩ | ⟨-, hperformed, -, hentered⟩
    · simp [hsame, GapOutcome.performed]
    · simp [hsame, GapOutcome.performed]
    · rw [hentered.mem_iff, if_pos hperformed, List.mem_singleton, or_comm]
  have hown : (gatherGap retrieve ledger n).2.performed = true → n.gap.gapId ∉ ledger := by
    intro hperformed
    rcases gatherGap_cases retrieve ledger n with
      ⟨-, hsame⟩ | ⟨hfresh, -⟩ | ⟨hfresh, -⟩
    · rw [hsame] at hperformed
      cases hperformed
    · exact hfresh
    · exact hfresh
  constructor
  · exact hkeeps.trans h.keeps
  · intro hknown hparented
    refine h.parented (fun n' hn' id hid => ?_) ?_
    · exact hkeeps.mem (hknown n' (List.mem_cons_of_mem _ hn') id hid)
    · exact parented_gatherGap retrieve hparented (hknown n List.mem_cons_self)
  · intro id
    rw [h.mem_iff, hmem, issuedIn_cons, List.mem_append, or_assoc]
  · intro id hid
    rw [issuedIn_cons] at hid
    rcases List.mem_append.1 hid with hid | hid
    · split_ifs at hid with hperformed
      · rw [List.mem_singleton.1 hid]
        exact hown hperformed
      · exact absurd hid List.not_mem_nil
    · exact fun hin => h.fresh id hid ((hmem id).2 (.inl hin))
  · rw [issuedIn_cons]
    refine List.Nodup.append ?_ h.nodup fun id hid hrest => ?_
    · split_ifs
      · exact List.nodup_singleton _
      · exact .nil
    · exact h.fresh id hrest ((hmem id).2 (.inr hid))
  · rw [List.map_cons]
    exact (List.prefix_cons_inj n).2 h.starts
  · intro r hr hid
    rcases List.mem_cons.1 hr with rfl | hr
    · rcases gatherGap_cases retrieve ledger n with
        ⟨-, hsame⟩ | ⟨hfresh, -⟩ | ⟨hfresh, -⟩
      · rw [hsame]
      · exact absurd hid hfresh
      · exact absurd hid hfresh
    · exact h.blocked r hr (hkeeps.mem hid)
  · intro r hr hperformed id parent hid hparent
    rcases List.mem_cons.1 hr with rfl | hr
    · rcases gatherGap_cases retrieve ledger n with
        ⟨-, hsame⟩ | ⟨-, hsame⟩ | ⟨-, -, hunsatisfied, -⟩
      · rw [hsame] at hperformed
        cases hperformed
      · rw [hsame] at hperformed
        cases hperformed
      · exact hunsatisfied id parent hid hparent
    · obtain ⟨parent', hparent', hstatus⟩ := hkeeps id parent hparent
      exact fun hs => h.unsatisfied r hr hperformed id parent' hid hparent' (hstatus hs)

theorem Gathered.nil (ledger : GapLedger) (ns : List NormalizedGap) :
    Gathered ledger ns ledger [] where
  keeps := .refl ledger
  parented := fun _ h => h
  mem_iff := fun id => by simp [issuedIn]
  fresh := fun _ h => absurd h List.not_mem_nil
  nodup := .nil
  starts := List.nil_prefix
  blocked := fun _ h => absurd h List.not_mem_nil
  unsatisfied := fun _ h => absurd h List.not_mem_nil

/-- **What a batch does.** -/
theorem gathered_gatherFrom (ledger : GapLedger) (ns : List NormalizedGap) :
    Gathered ledger ns (gatherFrom retrieve ledger ns).1 (gatherFrom retrieve ledger ns).2 := by
  induction ns generalizing ledger with
  | nil => exact .nil ledger []
  | cons n ns ih =>
    unfold gatherFrom
    dsimp only
    rcases (gatherGap retrieve ledger n).2.fault with _ | fault
    · exact (ih _).cons retrieve
    · exact (Gathered.nil _ ns).cons retrieve

/-! ### What holds over a run -/

namespace GapState

/-- Every parent is an entry, and the ledgers hold the distinct ids that were issued. -/
structure Lawful (s : GapState) : Prop where
  parented : ∀ phase, Parented (s.ledger phase)
  nodup : ∀ phase, (s.issued phase).Nodup
  mem_iff : ∀ phase id, id ∈ s.ledger phase ↔ id ∈ s.issued phase

variable {limit : Text → ℕ} {fingerprint : GapContent → Text} {s : GapState}

theorem Lawful.mark (h : s.Lawful) (phase : Text) (statuses : List GapStatus)
    (status : GapStatus) : (s.mark phase statuses status).Lawful := by
  have hmem : ∀ phase' id, id ∈ (s.mark phase statuses status).ledger phase' ↔
      id ∈ s.ledger phase' := by
    intro phase' id
    unfold GapState.mark
    dsimp only
    rw [Function.update_apply]
    split_ifs with hphase
    · rw [hphase, Dict.mem_mapValues]
    · rfl
  refine ⟨fun phase' id parentId hparent => ?_, h.nodup, fun phase' id => ?_⟩
  · rw [hmem]
    refine h.parented phase' id parentId ?_
    rw [← hparent]
    unfold GapState.mark
    dsimp only
    rw [Function.update_apply]
    split_ifs with hphase
    · rw [hphase, Dict.get_mapValues, Option.map_map]
      congr 1
      funext entry
      dsimp only [Function.comp]
      split_ifs
      · rfl
      · rfl
    · rfl
  · exact (hmem phase' id).trans (h.mem_iff phase' id)

theorem Lawful.disableEvidenceRetrieval (h : s.Lawful) (phase : Text) :
    (s.disableEvidenceRetrieval limit phase).Lawful := by
  have hmark := h.mark phase [.open, .evidenceAvailable, .stagnant] .retrievalUnavailable
  exact ⟨hmark.parented, hmark.nodup, hmark.mem_iff⟩

theorem Lawful.record (h : s.Lawful) {phase : Text} {ns : List NormalizedGap}
    {ledger : GapLedger} {results : List (NormalizedGap × GapOutcome)}
    (hgathered : Gathered (s.ledger phase) ns ledger results)
    (hknown : ∀ n ∈ ns, ∀ id, n.gap.refinesGapId = some id → id ∈ s.ledger phase) :
    (s.record phase ledger results).Lawful := by
  unfold GapState.record
  refine ⟨fun phase' => ?_, fun phase' => ?_, fun phase' id => ?_⟩
  · dsimp only
    rw [Function.update_apply]
    split_ifs
    · exact hgathered.parented hknown (h.parented phase)
    · exact h.parented phase'
  · dsimp only
    rw [Function.update_apply]
    split_ifs
    · refine List.Nodup.append (h.nodup phase) hgathered.nodup fun id hid hnew => ?_
      exact hgathered.fresh id hnew ((h.mem_iff phase id).2 hid)
    · exact h.nodup phase'
  · dsimp only
    rw [Function.update_apply, Function.update_apply]
    split_ifs
    · rw [hgathered.mem_iff, List.mem_append, h.mem_iff]
    · exact h.mem_iff phase' id

variable (limit fingerprint) in
/-- **A batch is refused as a whole, or looked at in order**; the records are then those of the
loop, but for the cycles and what an exception disables. -/
theorem gatherEvidence_cases (s : GapState) (phase : Text) (gaps : List EvidenceGapRequest)
    (retrieve : EvidenceGapRequest → Except RetrievalFault (List Text)) :
    s.gatherEvidence limit fingerprint phase gaps retrieve = (s, []) ∨
    ∃ ns after, normalizeEvidenceGapBatch (s.ledger phase).keys fingerprint gaps = some ns ∧
      (s.gatherEvidence limit fingerprint phase gaps retrieve).2 =
        (gatherFrom retrieve (s.ledger phase) ns).2 ∧
      after = s.record phase (gatherFrom retrieve (s.ledger phase) ns).1
        (gatherFrom retrieve (s.ledger phase) ns).2 ∧
      ((s.gatherEvidence limit fingerprint phase gaps retrieve).1 =
          after.disableEvidenceRetrieval limit phase ∨
        ∃ cycles, (s.gatherEvidence limit fingerprint phase gaps retrieve).1 =
          { after with cycles }) := by
  unfold gatherEvidence
  by_cases hclosed : s.disabled phase = true ∨ limit phase ≤ s.cycles phase
  · exact .inl (if_pos hclosed)
  rw [if_neg hclosed]
  rcases normalizeEvidenceGapBatch (s.ledger phase).keys fingerprint gaps with _ | ns
  · exact .inl rfl
  refine .inr ⟨ns, _, rfl, ?_, rfl, ?_⟩
  · dsimp only
    rcases (gatherFrom retrieve (s.ledger phase) ns).2.getLast?.bind (·.2.fault) with _ | fault
    · dsimp only
      split_ifs
      · rfl
      · rfl
    · cases fault with
      | infrastructure => rfl
      | other => rfl
  · dsimp only
    rcases (gatherFrom retrieve (s.ledger phase) ns).2.getLast?.bind (·.2.fault) with _ | fault
    · dsimp only
      split_ifs
      · exact .inr ⟨_, rfl⟩
      · exact .inr ⟨s.cycles, rfl⟩
    · cases fault with
      | infrastructure => exact .inl rfl
      | other => exact .inr ⟨s.cycles, rfl⟩

/-- The parents that are left after normalisation are in the ledger. -/
theorem known_of_normalized {phase : Text} {gaps : List EvidenceGapRequest}
    {ns : List NormalizedGap}
    (h : normalizeEvidenceGapBatch (s.ledger phase).keys fingerprint gaps = some ns) :
    ∀ n ∈ ns, ∀ id, n.gap.refinesGapId = some id → id ∈ s.ledger phase := by
  intro n hn id hid
  obtain ⟨-, -, hfrom⟩ := normalizeFrom_eq_some h
  obtain ⟨before, gap, after, reserved, -, hnormalizes, -⟩ := hfrom n hn
  rw [hnormalizes.parent, Option.filter_eq_some_iff, decide_eq_true_eq] at hid
  exact AList.mem_keys.2 hid.2

theorem Lawful.gatherEvidence (h : s.Lawful) (phase : Text) (gaps : List EvidenceGapRequest)
    (retrieve : EvidenceGapRequest → Except RetrievalFault (List Text)) :
    (s.gatherEvidence limit fingerprint phase gaps retrieve).1.Lawful := by
  rcases gatherEvidence_cases limit fingerprint s phase gaps retrieve with
    hsame | ⟨ns, after, hns, -, rfl, hafter⟩
  · rw [hsame]
    exact h
  · have hrecord := h.record (gathered_gatherFrom retrieve (s.ledger phase) ns)
      (known_of_normalized hns)
    rcases hafter with hafter | ⟨cycles, hafter⟩
    · rw [hafter]
      exact hrecord.disableEvidenceRetrieval phase
    · rw [hafter]
      exact ⟨hrecord.parented, hrecord.nodup, hrecord.mem_iff⟩

theorem Lawful.act (h : s.Lawful) (action : GapAction) :
    (s.act limit fingerprint action).Lawful := by
  cases action with
  | gather phase gaps retrieve => exact h.gatherEvidence phase gaps retrieve
  | proceed phase => exact h.mark phase [.evidenceAvailable] .satisfied
  | start phase =>
    unfold GapState.act
    refine ⟨fun phase' => ?_, fun phase' => ?_, fun phase' id => ?_⟩
    · dsimp only
      rw [Function.update_apply]
      split_ifs
      · intro id parentId hparent
        cases hparent
      · exact h.parented phase'
    · dsimp only
      rw [Function.update_apply]
      split_ifs
      · exact .nil
      · exact h.nodup phase'
    · dsimp only
      rw [Function.update_apply, Function.update_apply]
      split_ifs
      · exact iff_of_false (AList.notMem_empty id) List.not_mem_nil
      · exact h.mem_iff phase' id

theorem lawful_run (limit : Text → ℕ) (fingerprint : GapContent → Text)
    (actions : List GapAction) : (run limit fingerprint actions).Lawful := by
  have hstart : ({} : GapState).Lawful := by
    refine ⟨fun _ id parentId hparent => ?_, fun _ => .nil, fun _ id => ?_⟩
    · cases hparent
    · exact iff_of_false (AList.notMem_empty id) List.not_mem_nil
  exact Runs.always (P := Lawful) (fun _ action h => h.act action) actions hstart

end GapState

/-- How a request of a batch is answered, where `before` came before it. -/
structure GapAnswered (ledger : GapLedger) (before : List EvidenceGapRequest)
    (gap : EvidenceGapRequest) (r : NormalizedGap × GapOutcome) : Prop where
  requested : r.1.requestedId = gap.gapId
  content : r.1.gap.content = gap.content
  /-- Evidence is sought under a new id: as a refinement of a known parent that is not satisfied,
  or as a root, where the request names no known parent. -/
  performed : r.2.performed = true → r.1.gap.gapId ∉ ledger ∧
    ((∃ parentId parent, gap.refinesGapId = some parentId ∧
        r.1.gap.refinesGapId = some parentId ∧ ledger.get parentId = some parent ∧
        parent.status ≠ .satisfied) ∨
      (r.1.gap.refinesGapId = none ∧
        ∀ parentId, gap.refinesGapId = some parentId → parentId ∉ ledger))
  /-- The first request of a batch that reuses an id of the ledger without a parent is blocked. -/
  repeated : gap.gapId ∈ ledger → gap.refinesGapId = none →
    (∀ b ∈ before, b.gapId = gap.gapId → b.refinesGapId ≠ none) → r.2 = .alreadyRetrieved

theorem gapAnswered_of_gathered {ledger ledger' : GapLedger} {fingerprint : GapContent → Text}
    {gaps : List EvidenceGapRequest} {ns : List NormalizedGap}
    {results : List (NormalizedGap × GapOutcome)}
    (hns : normalizeEvidenceGapBatch ledger.keys fingerprint gaps = some ns)
    (h : Gathered ledger ns ledger' results) {r : NormalizedGap × GapOutcome} (hr : r ∈ results) :
    ∃ before gap after, gaps = before ++ gap :: after ∧ GapAnswered ledger before gap r := by
  obtain ⟨-, -, hfrom⟩ := normalizeFrom_eq_some hns
  have hmem : r.1 ∈ ns := h.starts.subset (List.mem_map_of_mem hr)
  obtain ⟨before, gap, after, reserved, hgaps, hnormalizes, htaken⟩ := hfrom r.1 hmem
  refine ⟨before, gap, after, hgaps, hnormalizes.requested, hnormalizes.content, ?_, ?_⟩
  · intro hperformed
    refine ⟨fun hid => ?_, ?_⟩
    · rw [h.blocked r hr hid] at hperformed
      cases hperformed
    · have hparent := hnormalizes.parent
      rcases hrefines : r.1.gap.refinesGapId with _ | parentId
      · refine .inr ⟨rfl, fun parentId hnamed hknown => ?_⟩
        rw [hrefines, hnamed, Option.filter_some,
          if_pos (decide_eq_true (AList.mem_keys.1 hknown))] at hparent
        cases hparent
      · rw [hrefines, eq_comm, Option.filter_eq_some_iff, decide_eq_true_eq] at hparent
        obtain ⟨parent, hentry⟩ := Option.isSome_iff_exists.1
          (Dict.get_isSome.2 (AList.mem_keys.2 hparent.2))
        exact .inl ⟨parentId, parent, hparent.1, rfl, hentry,
          h.unsatisfied r hr hperformed parentId parent hrefines hentry⟩
  · intro hknown hroot hfirst
    have hfree : gap.gapId ∉ reserved := by
      intro hreserved
      rcases htaken gap.gapId hreserved (AList.mem_keys.1 hknown) with hnil | ⟨b, hb, hid, hnone⟩
      · exact List.not_mem_nil hnil
      · exact hfirst b hb hid hnone
    exact h.blocked r hr (hnormalizes.kept hfree hroot ▸ hknown)

/-- **The ledger of evidence gaps.** After any history the ids issued in a phase are distinct and
are those of its ledger, and every parent is an entry other than its child. The ids of a further
batch are distinct, and every request it answers is answered as `GapAnswered` says. -/
theorem gatherEvidence_of_run (limit : Text → ℕ) (fingerprint : GapContent → Text)
    (actions : List GapAction) :
    (∀ phase, ((GapState.run limit fingerprint actions).issued phase).Nodup ∧
      ∀ id, id ∈ (GapState.run limit fingerprint actions).ledger phase ↔
        id ∈ (GapState.run limit fingerprint actions).issued phase) ∧
    (∀ phase id entry parentId,
      ((GapState.run limit fingerprint actions).ledger phase).get id = some entry →
        entry.refinesGapId = some parentId →
          parentId ∈ (GapState.run limit fingerprint actions).ledger phase ∧ parentId ≠ id) ∧
    ∀ phase gaps retrieve,
      (((GapState.run limit fingerprint actions).gatherEvidence limit fingerprint phase gaps
        retrieve).2.map (·.1.gap.gapId)).Nodup ∧
      ∀ r ∈ ((GapState.run limit fingerprint actions).gatherEvidence limit fingerprint phase gaps
        retrieve).2, ∃ before gap after, gaps = before ++ gap :: after ∧
          GapAnswered ((GapState.run limit fingerprint actions).ledger phase) before gap r := by
  have h := GapState.lawful_run limit fingerprint actions
  generalize GapState.run limit fingerprint actions = s at h ⊢
  refine ⟨fun phase => ⟨h.nodup phase, h.mem_iff phase⟩, ?_, fun phase gaps retrieve => ?_⟩
  · intro phase id entry parentId hentry hparent
    exact h.parented phase id parentId (by rw [hentry, Option.map_some, hparent])
  · rcases GapState.gatherEvidence_cases limit fingerprint s phase gaps retrieve with
      hsame | ⟨ns, after, hns, hresults, -, -⟩
    · rw [hsame]
      exact ⟨.nil, fun r hr => absurd hr List.not_mem_nil⟩
    · have hgathered := gathered_gatherFrom retrieve (s.ledger phase) ns
      rw [hresults]
      refine ⟨?_, fun r hr => gapAnswered_of_gathered hns hgathered hr⟩
      obtain ⟨-, hnodup, -⟩ := normalizeFrom_eq_some hns
      have hids := (hgathered.starts.map (·.gap.gapId)).sublist.nodup hnodup
      rwa [List.map_map] at hids

/-- A request for a content. -/
def gapOf (gapId : String) (refinesGapId : Option String) (missingEvidence : String) :
    EvidenceGapRequest where
  gapId := gapId.toList
  refinesGapId := refinesGapId.map String.toList
  content := ⟨missingEvidence.toList, [], [], [], [], 1, [], [], [], []⟩

/-- A request under an unknown parent is answered as a root; and the second request of a batch
that reuses an id of the ledger is answered as a new root. -/
theorem gatherEvidence_reissues :
    (∃ r ∈ ((GapState.run (fun _ => 3) (·.missingEvidence) []).gatherEvidence (fun _ => 3)
        (·.missingEvidence) "prepare".toList [gapOf "G31" (some "G99") "a"] fun _ => .ok []).2,
      r.2.performed = true ∧ r.1.gap.refinesGapId = none) ∧
    ∃ r ∈ ((GapState.run (fun _ => 3) (·.missingEvidence)
        [.gather "prepare".toList [gapOf "G01" none "a"] fun _ => .ok []]).gatherEvidence
        (fun _ => 3) (·.missingEvidence) "prepare".toList
        [gapOf "G01" none "b", gapOf "G01" none "a"] fun _ => .ok []).2,
      r.2.performed = true ∧ r.1.requestedId = "G01".toList ∧ r.1.gap.refinesGapId = none ∧
        "G01".toList ∈ (GapState.run (fun _ => 3) (·.missingEvidence)
          [.gather "prepare".toList [gapOf "G01" none "a"] fun _ => .ok []]).ledger
            "prepare".toList := by
  decide +kernel

end Engineering
end OpenFoamAgent
