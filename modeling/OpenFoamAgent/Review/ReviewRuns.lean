/-
# Runs of a review

A session is a run of reviews, decisions of the user, revisions and whatever else the program does.
The rest of the program leaves the feedback and the proposals alone and does not enter the states
that belong to the review (`Frame`).

In a run from a session without feedback the ids of the feedback are distinct and an active proposal
is about exactly one of them (`Orderly`). So a rejection goes back to the very gate at which that
feedback was given (`reject_returns`); and every feedback is kept as it was given, while its status
moves along `Advances` (`feedback_lifecycle`).
-/
import Mathlib.Logic.Relation
import OpenFoamAgent.Review.Feedback

namespace OpenFoamAgent
namespace Review

open Python Schemas Workspace Workflow
open OpenFoamAgent.Engineering (fourDigits)

/-! ### Sessions -/

/-- The state, and the proposal that a revision under way has read. -/
structure Session where
  state : ReviewState
  revising : Option RevisionProposal := none

/-- What the rest of the program may change. -/
structure Frame (s s' : ReviewState) : Prop where
  feedback : s'.humanFeedback = s.humanFeedback
  active : s'.activeRevisionProposal = s.activeRevisionProposal
  current : s'.currentState = s.currentState ∨
    s'.currentState ∉ [.feedbackReceived, .revisionReady, .complete]

/-- One step of a session. -/
inductive Step : Session → Session → Prop where
  | review (s : ReviewState) (statement : Text) (answer : Answer) :
    Step ⟨s, none⟩ ⟨(s.review statement answer).1, none⟩
  | reject {s s' : ReviewState} (h : s.rejectRevision = some s') : Step ⟨s, none⟩ ⟨s', none⟩
  | accept {s s' : ReviewState} (h : s.acceptResult = some s') : Step ⟨s, none⟩ ⟨s', none⟩
  | approve {s s' : ReviewState} {limits : Option Contracts.ResourceLimits}
    (h : s.approveSolve limits = some s') : Step ⟨s, none⟩ ⟨s', none⟩
  | start {s s' : ReviewState} {intact : Bool} (h : s.startRevision intact = some s') :
    Step ⟨s, none⟩ ⟨s', s.activeRevisionProposal⟩
  | work {s s' : ReviewState} {revising : Option RevisionProposal} (h : Frame s s') :
    Step ⟨s, revising⟩ ⟨s', revising⟩
  /-- The case is sealed, which ends a revision under way. -/
  | preview {s s' : ReviewState} {revising : Option RevisionProposal} {plan : EngineeringPlan}
    {caseSeal : CaseSeal} {record : Document} {native gate : Bool}
    (h : s.finishPreview plan caseSeal record native gate = some s') :
    Step ⟨s, revising⟩ ⟨s', none⟩
  /-- An exception behind the seal of a revision; the case is still the sealed one. -/
  | previewRaised {s s' : ReviewState} {proposal : RevisionProposal} {plan : EngineeringPlan}
    {caseSeal : CaseSeal} {record : Document} {native gate : Bool}
    (h : s.finishPreview plan caseSeal record native gate = some s') :
    Step ⟨s, some proposal⟩
      ⟨s'.restoreUnmutatedRevisionReady caseSeal.manifestSha256 proposal, none⟩
  /-- An exception of a turn of a revision. -/
  | raised (s : ReviewState) (proposal : RevisionProposal)
    (manifest : Sha256 (List CaseFileSeal)) :
    Step ⟨s, some proposal⟩ ⟨s.restoreUnmutatedRevisionReady manifest proposal, none⟩
  /-- A revision that ends without a seal. -/
  | returned (s : ReviewState) (proposal : RevisionProposal) :
    Step ⟨s, some proposal⟩ ⟨s, none⟩
  /-- The engine presents a result. -/
  | result {s : ReviewState} (h : s.currentState = .resultReviewRequired) :
    Step ⟨s, none⟩ ⟨s.markFeedbackAwaitingReview, none⟩

/-- A session without feedback. -/
structure Fresh (s : ReviewState) : Prop where
  feedback : s.humanFeedback = []
  active : s.activeRevisionProposal = none
  current : s.currentState ≠ .revisionReady

/-- The proposal is about this feedback alone. -/
def Concerns (s : ReviewState) (p : RevisionProposal) (f : HumanFeedback) : Prop :=
  f ∈ s.humanFeedback ∧ p.feedbackIds = [f.feedbackId]

/-- The feedback is numbered, and was given at a gate. -/
structure Recorded (s : ReviewState) : Prop where
  numbered : s.humanFeedback.map (·.feedbackId) =
    (List.range s.humanFeedback.length).map fun i => "hf-".toList ++ fourDigits (i + 1)
  gates : ∀ f ∈ s.humanFeedback, f.submittedState ∈ feedbackStates

/-- What holds of the active proposal. -/
structure Pending (x : Session) : Prop where
  active : ∀ p ∈ x.state.activeRevisionProposal, ∃ f, Concerns x.state p f ∧
    (f.status = .revisionProposed ∨ f.status = .revisionInProgress)
  ready : x.state.currentState = .revisionReady → x.revising = none ∧
    ∃ p ∈ x.state.activeRevisionProposal, p.requiresCaseRevision = true ∧
      p.requiresIntakeRevision = false ∧ ∃ f, Concerns x.state p f ∧ f.status = .revisionProposed
  revising : ∀ p ∈ x.revising, x.state.activeRevisionProposal = some p ∧
    p.requiresCaseRevision = true ∧ p.requiresIntakeRevision = false

/-- What holds of a session at every step. -/
structure Orderly (x : Session) : Prop extends Recorded x.state, Pending x

/-- The moves of the status of a feedback. -/
inductive Advances : FeedbackStatus → FeedbackStatus → Prop where
  | rejected : Advances .revisionProposed .proposalRejected
  | started : Advances .revisionProposed .revisionInProgress
  | restored : Advances .revisionInProgress .revisionProposed
  | revised : Advances .revisionInProgress .awaitingRerun
  /-- A case was sealed while the proposal was still active. -/
  | overtaken : Advances .revisionProposed .awaitingRerun
  | rerun : Advances .awaitingRerun .awaitingReview
  | reviewed : Advances .awaitingReview .resolved
  | accepted : Advances .revisionProposed .resolved
  | dismissed : Advances .unresolved .resolved

/-! ### Ids -/

theorem fourDigits_injective : Function.Injective fourDigits := by
  have hread : ∀ n, Nat.ofDigitChars 10 (fourDigits n) 0 = n := by
    intro n
    rw [fourDigits, List.leftpad, Nat.ofDigitChars_append, Nat.ofDigitChars_replicate_zero,
      Nat.mul_zero, Nat.ofDigitChars_ten_toDigits]
  intro m n h
  rw [← hread m, h, hread n]

section
variable {x y : Session} {s s' : ReviewState} {p : RevisionProposal} {f f' : HumanFeedback}

/-- The ids of the feedback are distinct. -/
theorem Orderly.nodup (h : Orderly x) : (x.state.humanFeedback.map (·.feedbackId)).Nodup := by
  rw [h.numbered]
  refine List.Nodup.map (fun m n heq => ?_) List.nodup_range
  exact Nat.succ_injective (fourDigits_injective (List.append_cancel_left heq))

/-- The feedback of a proposal is found by its id. -/
theorem Orderly.eq_of_mem (h : Orderly x) (hconcerns : Concerns x.state p f)
    (hmem : f' ∈ x.state.humanFeedback) : f'.feedbackId ∈ p.feedbackIds ↔ f' = f := by
  rw [hconcerns.2, List.mem_singleton]
  exact ⟨fun hid => List.inj_on_of_nodup_map h.nodup hmem hconcerns.1 hid, fun heq => by rw [heq]⟩

/-! ### Rewritten statuses -/

/-- Nothing but the status of a feedback is changed. -/
def Restatus (g : HumanFeedback → HumanFeedback) : Prop :=
  ∀ f, g f = { f with status := (g f).status }

theorem restatus_mark (ids : List Text) (status : FeedbackStatus) :
    Restatus (ReviewState.mark ids status) := by
  intro f
  unfold ReviewState.mark
  split_ifs <;> rfl

theorem restatus_proposeAgain (ids : List Text) : Restatus (ReviewState.proposeAgain ids) := by
  intro f
  unfold ReviewState.proposeAgain
  split_ifs <;> rfl

theorem restatus_resolve : Restatus ReviewState.resolve := by
  intro f
  unfold ReviewState.resolve
  split_ifs <;> rfl

theorem restatus_rerun : Restatus ReviewState.rerun := by
  intro f
  unfold ReviewState.rerun
  split_ifs <;> rfl

theorem Restatus.feedbackId {g : HumanFeedback → HumanFeedback} (hg : Restatus g)
    (f : HumanFeedback) : (g f).feedbackId = f.feedbackId := by
  rw [hg f]

theorem Restatus.submittedState {g : HumanFeedback → HumanFeedback} (hg : Restatus g)
    (f : HumanFeedback) : (g f).submittedState = f.submittedState := by
  rw [hg f]

theorem Concerns.map {g : HumanFeedback → HumanFeedback} (hg : Restatus g)
    (h : Concerns s p f) (hfeedback : s'.humanFeedback = s.humanFeedback.map g) :
    Concerns s' p (g f) := by
  refine ⟨?_, ?_⟩
  · rw [hfeedback]
    exact List.mem_map_of_mem h.1
  · rw [hg.feedbackId]
    exact h.2

/-- Statuses may be rewritten. -/
theorem Recorded.map {g : HumanFeedback → HumanFeedback} (h : Recorded s) (hg : Restatus g)
    (hfeedback : s'.humanFeedback = s.humanFeedback.map g) : Recorded s' := by
  constructor
  · rw [hfeedback, List.length_map, ← h.numbered, List.map_map]
    exact List.map_congr_left fun f _ => hg.feedbackId f
  · rw [hfeedback]
    intro f hf
    obtain ⟨f₀, hf₀, rfl⟩ := List.mem_map.1 hf
    rw [hg.submittedState]
    exact h.gates f₀ hf₀

/-- Feedback may be added. -/
theorem Recorded.append (h : Recorded s)
    (hid : f.feedbackId = "hf-".toList ++ fourDigits (s.humanFeedback.length + 1))
    (hgate : f.submittedState ∈ feedbackStates)
    (hfeedback : s'.humanFeedback = s.humanFeedback ++ [f]) : Recorded s' := by
  constructor
  · rw [hfeedback, List.map_append, h.numbered, List.length_append, List.length_singleton,
      List.range_succ, List.map_append, List.map_singleton, List.map_singleton, hid]
  · rw [hfeedback]
    intro f' hf'
    rcases List.mem_append.1 hf' with hf' | hf'
    · exact h.gates f' hf'
    · rw [List.mem_singleton.1 hf']
      exact hgate

end

/-! ### What the operations do -/

section
variable {s s' : ReviewState}

/-- How a review that records its feedback ends. -/
inductive Ending (s s' : ReviewState) (f : HumanFeedback) : Prop where
  | interrupted (hstatus : f.status = .unresolved)
    (hactive : s'.activeRevisionProposal = s.activeRevisionProposal)
    (hcurrent : s'.currentState = .feedbackReceived)
  | closed (hstatus : f.status = .unresolved ∨ f.status = .awaitingReview)
    (hactive : s'.activeRevisionProposal = none) (hcurrent : s'.currentState = s.currentState)
  | proposed (p : RevisionProposal) (hstatus : f.status = .revisionProposed)
    (hids : p.feedbackIds = [f.feedbackId]) (hactive : s'.activeRevisionProposal = some p)
    (hcurrent : s'.currentState = .engineeringReviewRequired ∨
      s'.currentState = .revisionReady ∧ p.requiresCaseRevision = true ∧
        p.requiresIntakeRevision = false)

/-- What a review records. -/
structure Records (s s' : ReviewState) (f : HumanFeedback) : Prop where
  feedback : s'.humanFeedback = s.humanFeedback ++ [f]
  feedbackId : f.feedbackId = "hf-".toList ++ fourDigits (s.humanFeedback.length + 1)
  submittedState : f.submittedState = s.currentState
  gate : s.currentState ∈ feedbackStates
  ending : Ending s s' f

theorem records_route (text : Text) {proposal : RevisionProposal}
    (hids : proposal.feedbackIds = [(s.newFeedback text).feedbackId])
    (hgate : s.currentState ∈ feedbackStates) :
    ∃ f, Records s (s.route (s.newFeedback text) proposal) f := by
  unfold ReviewState.route
  dsimp only
  split_ifs with hintake hcase hresult
  · exact ⟨_, rfl, rfl, rfl, hgate, .proposed proposal rfl hids rfl (.inl rfl)⟩
  · exact ⟨_, rfl, rfl, rfl, hgate,
      .proposed proposal rfl hids rfl (.inr ⟨rfl, hcase, by simpa using hintake⟩)⟩
  · exact ⟨_, rfl, rfl, rfl, hgate, .closed (.inr rfl) rfl rfl⟩
  · exact ⟨_, rfl, rfl, rfl, hgate, .closed (.inl rfl) rfl rfl⟩

/-- A review leaves the state alone, or records one feedback. -/
theorem review_cases (s : ReviewState) (statement : Text) (answer : Answer) :
    (s.review statement answer).1 = s ∨ ∃ f, Records s (s.review statement answer).1 f := by
  unfold ReviewState.review
  dsimp only
  by_cases hblank : strip statement = []
  · rw [if_pos hblank]
    exact .inl rfl
  rw [if_neg hblank]
  by_cases hgate : s.currentState ∈ feedbackStates
  swap
  · rw [if_pos hgate]
    exact .inl rfl
  rw [if_neg (not_not.2 hgate)]
  rcases s.engineeringPlan with _ | plan
  · exact .inl rfl
  rcases s.caseSeal with _ | caseSeal
  · exact .inl rfl
  dsimp only
  split_ifs with hvalid
  · exact .inl rfl
  have hgiveUp : ∃ f, Records s (s.giveUp (s.newFeedback (strip statement))) f :=
    ⟨_, rfl, rfl, rfl, hgate, .closed (.inl rfl) rfl rfl⟩
  refine .inr ?_
  cases answer with
  | interrupted => exact ⟨_, rfl, rfl, rfl, hgate, .interrupted rfl rfl rfl⟩
  | failed => exact hgiveUp
  | assessment a =>
    dsimp only
    split_ifs with hproposal
    · exact hgiveUp
    · exact records_route _ rfl hgate

theorem rejectRevision_eq_some (h : s.rejectRevision = some s') :
    ∃ p, s.activeRevisionProposal = some p ∧ s.currentState = .revisionReady ∧
      s'.humanFeedback = s.humanFeedback.map (ReviewState.mark p.feedbackIds .proposalRejected) ∧
      s'.activeRevisionProposal = none ∧ s'.currentState = s.rejectionTarget p ∧
      s'.engineeringPlan = s.engineeringPlan ∧ s'.caseSeal = s.caseSeal ∧
      s'.solveApproved = s.solveApproved ∧ s'.executionApproval = s.executionApproval := by
  unfold ReviewState.rejectRevision at h
  split at h
  · cases h
  · rename_i p hactive
    split_ifs at h with hcurrent
    cases h
    exact ⟨p, hactive, not_not.1 hcurrent, rfl, rfl, rfl, rfl, rfl, rfl, rfl⟩

theorem rejectionTarget_ne (s : ReviewState) (p : RevisionProposal) :
    s.rejectionTarget p ≠ .revisionReady := by
  unfold ReviewState.rejectionTarget
  dsimp only
  split_ifs <;> decide

theorem acceptResult_eq_some (h : s.acceptResult = some s') :
    s.resultAcceptanceBlockers = [] ∧ s'.humanFeedback = s.humanFeedback.map ReviewState.resolve ∧
      s'.activeRevisionProposal = none ∧ s'.currentState = .complete := by
  unfold ReviewState.acceptResult at h
  split_ifs at h with hblockers
  cases h
  exact ⟨not_not.1 hblockers, rfl, rfl, rfl⟩

theorem approveSolve_eq_some {limits : Option Contracts.ResourceLimits}
    (h : s.approveSolve limits = some s') :
    s'.humanFeedback = s.humanFeedback ∧ s'.activeRevisionProposal = s.activeRevisionProposal ∧
      s'.currentState = .simulation := by
  unfold ReviewState.approveSolve at h
  split_ifs at h
  split at h
  · cases h
    exact ⟨rfl, rfl, rfl⟩
  · cases h

theorem startRevision_eq_some {intact : Bool} (h : s.startRevision intact = some s') :
    ∃ p, s.activeRevisionProposal = some p ∧ s.currentState = .revisionReady ∧
      p.requiresIntakeRevision = false ∧
      s'.humanFeedback = s.humanFeedback.map (ReviewState.mark p.feedbackIds .revisionInProgress) ∧
      s'.activeRevisionProposal = some p ∧ s'.currentState = .engineering := by
  unfold ReviewState.startRevision at h
  split at h
  · rename_i p plan caseSeal hactive hplan hseal
    split_ifs at h with hcurrent hintake
    cases h
    exact ⟨p, hactive, not_not.1 hcurrent, by simpa using hintake, rfl, hactive, rfl⟩
  · cases h

/-- What a seal leaves of the feedback. -/
theorem finishPreview_eq_some {plan : EngineeringPlan} {caseSeal : CaseSeal} {record : Document}
    {native gate : Bool} (h : s.finishPreview plan caseSeal record native gate = some s') :
    (∀ p ∈ s.activeRevisionProposal, p.requiresCaseRevision = true →
      caseSeal.manifestSha256 ≠ p.baselineManifestSha256) ∧
    s'.currentState ∉ [.feedbackReceived, .revisionReady, .complete] ∧
    (s'.humanFeedback = s.humanFeedback ∧ s'.activeRevisionProposal = s.activeRevisionProposal ∨
      ∃ p, s.activeRevisionProposal = some p ∧ s'.activeRevisionProposal = none ∧
        s'.humanFeedback =
          s.humanFeedback.map (ReviewState.mark p.feedbackIds .awaitingRerun)) := by
  have hcurrent : ∀ u : ReviewState, (u.presentPreview native gate).currentState ∉
      [.feedbackReceived, .revisionReady, .complete] := by
    intro u
    change ReviewState.previewState native gate ∉ _
    cases native <;> cases gate <;> decide
  have hfeedback : ∀ u : ReviewState,
      (u.presentPreview native gate).humanFeedback = u.humanFeedback ∧
        (u.presentPreview native gate).activeRevisionProposal = u.activeRevisionProposal := by
    intro u
    cases native <;> cases gate <;> exact ⟨rfl, rfl⟩
  unfold ReviewState.finishPreview at h
  dsimp only at h
  split at h
  · rename_i hactive
    cases h
    rw [hactive]
    exact ⟨fun p hp => (by cases hp), hcurrent _, .inl (hfeedback _)⟩
  · rename_i p hactive
    split_ifs at h with hrefused
    have hchanged : ∀ q ∈ s.activeRevisionProposal, q.requiresCaseRevision = true →
        caseSeal.manifestSha256 ≠ q.baselineManifestSha256 := by
      intro q hq hcase heq
      obtain rfl := Option.some.inj (hactive.symm.trans hq)
      exact hrefused ⟨hcase, heq⟩
    split at h
    · cases h
      exact ⟨hchanged, hcurrent _, .inr ⟨p, hactive, (hfeedback _).2, (hfeedback _).1⟩⟩
    · cases h
      exact ⟨hchanged, hcurrent _, .inl (hfeedback _)⟩

/-- What a restored revision leaves of the feedback. -/
theorem restoreUnmutatedRevisionReady_cases (s : ReviewState)
    (manifest : Sha256 (List CaseFileSeal)) (p : RevisionProposal) :
    s.restoreUnmutatedRevisionReady manifest p = s ∨
      manifest = p.baselineManifestSha256 ∧
        (s.restoreUnmutatedRevisionReady manifest p).humanFeedback =
          s.humanFeedback.map (ReviewState.proposeAgain p.feedbackIds) ∧
        (s.restoreUnmutatedRevisionReady manifest p).activeRevisionProposal =
          s.activeRevisionProposal := by
  unfold ReviewState.restoreUnmutatedRevisionReady
  split
  · split_ifs with hplan hmanifest
    · exact .inl rfl
    · exact .inl rfl
    · exact .inr ⟨not_not.1 hmanifest, rfl, rfl⟩
  · exact .inl rfl

end

/-! ### Steps -/

section
variable {x y : Session} {s s' : ReviewState}

/-- The acceptance of a result. -/
def Accepts (x y : Session) : Prop :=
  x.revising = none ∧ x.state.acceptResult = some y.state ∧ y.revising = none

/-- How a step changes the feedback: statuses move, and feedback is added. -/
structure Moves (x y : Session) (g : HumanFeedback → HumanFeedback) (new : List HumanFeedback) :
    Prop where
  restatus : Restatus g
  feedback : y.state.humanFeedback = x.state.humanFeedback.map g ++ new
  advances : ∀ f ∈ x.state.humanFeedback, (g f).status = f.status ∨ Advances f.status (g f).status
  resolved : ∀ f ∈ x.state.humanFeedback, (g f).status = .resolved → f.status ≠ .resolved →
    Accepts x y

theorem restatus_id : Restatus id := fun _ => rfl

/-- A step that leaves the feedback alone. -/
theorem Moves.of_eq (h : y.state.humanFeedback = x.state.humanFeedback) : Moves x y id [] := by
  refine ⟨restatus_id, by rw [h, List.map_id, List.append_nil], fun f _ => .inl rfl, ?_⟩
  exact fun f _ hresolved hnot => absurd hresolved hnot

/-- A step that marks the feedback of the active proposal. -/
theorem Orderly.moves_mark (h : Orderly x) {p : RevisionProposal} {status : FeedbackStatus}
    (hp : x.state.activeRevisionProposal = some p)
    (hproposed : Advances .revisionProposed status)
    (hprogress : Advances .revisionInProgress status ∨ x.state.currentState = .revisionReady)
    (hresolved : status ≠ .resolved)
    (hfeedback : y.state.humanFeedback =
      x.state.humanFeedback.map (ReviewState.mark p.feedbackIds status)) :
    Moves x y (ReviewState.mark p.feedbackIds status) [] := by
  refine ⟨restatus_mark _ _, by rw [hfeedback, List.append_nil], fun f hf => ?_, fun f hf => ?_⟩
  · unfold ReviewState.mark
    split_ifs with hlinked
    · obtain ⟨f₀, hconcerns, hstatus⟩ := h.active p hp
      obtain rfl := (h.eq_of_mem hconcerns hf).1 hlinked
      refine .inr ?_
      rcases hprogress with hprogress | hready
      · rcases hstatus with hstatus | hstatus
        · rwa [hstatus]
        · rwa [hstatus]
      · obtain ⟨-, q, hq, -, -, f', hconcerns', hstatus'⟩ := h.ready hready
        obtain rfl := Option.some.inj (hp.symm.trans hq)
        obtain rfl := (h.eq_of_mem hconcerns' hf).1 hlinked
        rwa [hstatus']
    · exact .inl rfl
  · unfold ReviewState.mark
    split_ifs with hlinked
    · exact fun heq => absurd heq hresolved
    · exact fun heq hnot => absurd heq hnot

/-- A step that proposes what was in progress again. -/
theorem moves_proposeAgain {ids : List Text}
    (hfeedback : y.state.humanFeedback =
      x.state.humanFeedback.map (ReviewState.proposeAgain ids)) :
    Moves x y (ReviewState.proposeAgain ids) [] := by
  refine ⟨restatus_proposeAgain _, by rw [hfeedback, List.append_nil], fun f _ => ?_, fun f _ => ?_⟩
  · unfold ReviewState.proposeAgain
    split_ifs with hlinked
    · refine .inr ?_
      rw [hlinked.2]
      exact .restored
    · exact .inl rfl
  · unfold ReviewState.proposeAgain
    split_ifs with hlinked
    · exact fun heq => by cases heq
    · exact fun heq hnot => absurd heq hnot

/-- An exception of a revision leaves the feedback, or proposes it again. -/
theorem exists_moves_restored {manifest : Sha256 (List CaseFileSeal)} {p : RevisionProposal}
    {revising revising' : Option RevisionProposal} :
    ∃ g new, Moves ⟨s, revising⟩ ⟨s.restoreUnmutatedRevisionReady manifest p, revising'⟩ g new := by
  rcases restoreUnmutatedRevisionReady_cases s manifest p with hsame | ⟨-, hfeedback, -⟩
  · exact ⟨_, _, .of_eq (by rw [hsame])⟩
  · exact ⟨_, _, moves_proposeAgain hfeedback⟩

section
variable {plan : EngineeringPlan} {caseSeal : CaseSeal} {record : Document} {native gate : Bool}
  {revising revising' : Option RevisionProposal}

/-- A seal moves the feedback. -/
theorem Orderly.exists_moves_preview (hx : Orderly ⟨s, revising⟩)
    (h : s.finishPreview plan caseSeal record native gate = some s') :
    ∃ g new, Moves ⟨s, revising⟩ ⟨s', revising'⟩ g new := by
  obtain ⟨-, -, ⟨hfeedback, -⟩ | ⟨p, hp, -, hfeedback⟩⟩ := finishPreview_eq_some h
  · exact ⟨_, _, .of_eq hfeedback⟩
  · exact ⟨_, _, hx.moves_mark hp .overtaken (.inl .revised) (by decide) hfeedback⟩

/-- Behind the seal of a revision there is nothing to restore: its manifest is another one. -/
theorem Orderly.restore_preview {proposal : RevisionProposal} (hx : Orderly ⟨s, some proposal⟩)
    (h : s.finishPreview plan caseSeal record native gate = some s') :
    s'.restoreUnmutatedRevisionReady caseSeal.manifestSha256 proposal = s' := by
  obtain ⟨hactive, hcase, -⟩ := hx.revising proposal rfl
  rcases restoreUnmutatedRevisionReady_cases s' caseSeal.manifestSha256 proposal with
    hsame | ⟨hmanifest, -⟩
  · exact hsame
  · exact absurd hmanifest ((finishPreview_eq_some h).1 proposal hactive hcase)

end

/-- Every step moves the feedback. -/
theorem Orderly.exists_moves (hx : Orderly x) (h : Step x y) : ∃ g new, Moves x y g new := by
  cases h with
  | review s statement answer =>
    rcases review_cases s statement answer with hsame | ⟨f, hf⟩
    · exact ⟨_, _, .of_eq (by rw [hsame])⟩
    · refine ⟨id, [f], restatus_id, ?_, fun f _ => .inl rfl, fun f _ hresolved hnot => ?_⟩
      · rw [List.map_id]
        exact hf.feedback
      · exact absurd hresolved hnot
  | reject h =>
    obtain ⟨p, hp, hready, hfeedback, -⟩ := rejectRevision_eq_some h
    exact ⟨_, _, hx.moves_mark hp .rejected (.inr hready) (by decide) hfeedback⟩
  | accept h =>
    obtain ⟨-, hfeedback, -⟩ := acceptResult_eq_some h
    refine ⟨_, [], restatus_resolve, hfeedback.trans (List.append_nil _).symm, fun f _ => ?_,
      fun _ _ _ _ => ⟨rfl, h, rfl⟩⟩
    unfold ReviewState.resolve
    split_ifs with hopen
    · refine .inr ?_
      rcases List.mem_cons.1 hopen with hstatus | hopen
      · rw [hstatus]
        exact .reviewed
      rcases List.mem_cons.1 hopen with hstatus | hopen
      · rw [hstatus]
        exact .accepted
      · rw [List.mem_singleton.1 hopen]
        exact .dismissed
    · exact .inl rfl
  | approve h => exact ⟨_, _, .of_eq (approveSolve_eq_some h).1⟩
  | start h =>
    obtain ⟨p, hp, hready, -, hfeedback, -⟩ := startRevision_eq_some h
    exact ⟨_, _, hx.moves_mark hp .started (.inr hready) (by decide) hfeedback⟩
  | work h => exact ⟨_, _, .of_eq h.feedback⟩
  | preview h => exact hx.exists_moves_preview h
  | previewRaised h =>
    rw [hx.restore_preview h]
    exact hx.exists_moves_preview h
  | raised s proposal manifest => exact exists_moves_restored
  | returned s proposal => exact ⟨_, _, .of_eq rfl⟩
  | result h =>
    refine ⟨_, [], restatus_rerun, (List.append_nil _).symm, fun f _ => ?_, fun f _ => ?_⟩
    · unfold ReviewState.rerun
      split_ifs with hstatus
      · refine .inr ?_
        rw [hstatus]
        exact .rerun
      · exact .inl rfl
    · unfold ReviewState.rerun
      split_ifs with hstatus
      · exact fun heq => by cases heq
      · exact fun heq hnot => absurd heq hnot

/-- Without an active proposal nothing is pending. -/
theorem Pending.of_none (hactive : s.activeRevisionProposal = none)
    (hcurrent : s.currentState ≠ .revisionReady) : Pending ⟨s, none⟩ := by
  refine ⟨fun p hp => ?_, fun hready => absurd hready hcurrent, fun p hp => (by cases hp)⟩
  rw [hactive] at hp
  cases hp

/-- What is pending stays pending while the feedback and the proposal are left alone. -/
theorem Pending.of_frame {revising : Option RevisionProposal} (hx : Pending ⟨s, revising⟩)
    (hfeedback : s'.humanFeedback = s.humanFeedback)
    (hactive : s'.activeRevisionProposal = s.activeRevisionProposal)
    (hcurrent : s'.currentState = s.currentState ∨ s'.currentState ≠ .revisionReady) :
    Pending ⟨s', revising⟩ := by
  have hconcerns : ∀ p f, Concerns s p f → Concerns s' p f := by
    intro p f h
    rw [Concerns, hfeedback]
    exact h
  constructor
  · intro p hp
    rw [hactive] at hp
    obtain ⟨f, hf, hstatus⟩ := hx.active p hp
    exact ⟨f, hconcerns p f hf, hstatus⟩
  · intro hready
    rcases hcurrent with hcurrent | hcurrent
    · rw [hcurrent] at hready
      obtain ⟨hnone, p, hp, hcase, hintake, f, hf, hstatus⟩ := hx.ready hready
      rw [← hactive] at hp
      exact ⟨hnone, p, hp, hcase, hintake, f, hconcerns p f hf, hstatus⟩
    · exact absurd hready hcurrent
  · intro p hp
    rw [hactive]
    exact hx.revising p hp

/-- A revision that is over is not pending any more. -/
theorem Pending.over {revising : Option RevisionProposal} (hx : Pending ⟨s, revising⟩)
    (hcurrent : s.currentState ≠ .revisionReady) : Pending ⟨s, none⟩ :=
  ⟨hx.active, fun hready => absurd hready hcurrent, fun p hp => (by cases hp)⟩

/-- A new feedback and its proposal. -/
theorem Orderly.of_records {f : HumanFeedback} (hx : Orderly ⟨s, none⟩) (h : Records s s' f) :
    Orderly ⟨s', none⟩ := by
  have hgate : f.submittedState ∈ feedbackStates := h.submittedState ▸ h.gate
  have hrecorded : Recorded s' := hx.toRecorded.append h.feedbackId hgate h.feedback
  have hnone : ∀ p ∈ (none : Option RevisionProposal), s'.activeRevisionProposal = some p ∧
      p.requiresCaseRevision = true ∧ p.requiresIntakeRevision = false := fun p hp => by cases hp
  have hmem : f ∈ s'.humanFeedback := by
    rw [h.feedback]
    exact List.mem_append_right _ (.head _)
  have hgates : ∀ t, t ∈ feedbackStates → t ≠ .revisionReady := by decide
  refine { toRecorded := hrecorded, toPending := ?_ }
  cases h.ending with
  | interrupted hstatus hactive hcurrent =>
    refine ⟨fun p hp => ?_, fun hready => ?_, hnone⟩
    · rw [hactive] at hp
      obtain ⟨f', hf', hstatus'⟩ := hx.active p hp
      refine ⟨f', ⟨?_, hf'.2⟩, hstatus'⟩
      rw [h.feedback]
      exact List.mem_append_left _ hf'.1
    · cases hready.symm.trans hcurrent
  | closed hstatus hactive hcurrent =>
    exact .of_none hactive (hcurrent ▸ hgates _ h.gate)
  | proposed p hstatus hids hactive hcurrent =>
    refine ⟨fun q hq => ?_, fun hready => ?_, hnone⟩
    · obtain rfl := Option.some.inj (hactive.symm.trans hq)
      exact ⟨f, ⟨hmem, hids⟩, .inl hstatus⟩
    · rcases hcurrent with hcurrent | ⟨-, hcase, hintake⟩
      · cases hready.symm.trans hcurrent
      · exact ⟨rfl, p, hactive, hcase, hintake, f, ⟨hmem, hids⟩, hstatus⟩

/-- A seal leaves what is recorded. -/
theorem Recorded.preview {plan : EngineeringPlan} {caseSeal : CaseSeal} {record : Document}
    {native gate : Bool} (hs : Recorded s)
    (h : s.finishPreview plan caseSeal record native gate = some s') : Recorded s' := by
  obtain ⟨-, -, ⟨hfeedback, -⟩ | ⟨p, -, -, hfeedback⟩⟩ := finishPreview_eq_some h
  · exact hs.map restatus_id (by rw [hfeedback, List.map_id])
  · exact hs.map (restatus_mark _ _) hfeedback

/-- A revision under way does not wait for its confirmation. -/
theorem Pending.current_ne {proposal : RevisionProposal} (hx : Pending ⟨s, some proposal⟩) :
    s.currentState ≠ .revisionReady := by
  intro hready
  cases (hx.ready hready).1

/-- A revision that is confirmed. -/
theorem Orderly.pending_start {intact : Bool} (hx : Orderly ⟨s, none⟩)
    (h : s.startRevision intact = some s') : Pending ⟨s', s.activeRevisionProposal⟩ := by
  obtain ⟨p, hp, hready, hintake, hfeedback, hactive, hcurrent⟩ := startRevision_eq_some h
  obtain ⟨-, q, hq, hcase, -, f, hf, -⟩ := hx.ready hready
  obtain rfl := Option.some.inj (hp.symm.trans hq)
  constructor
  · intro r hr
    obtain rfl := Option.some.inj (hactive.symm.trans hr)
    refine ⟨_, hf.map (restatus_mark _ _) hfeedback, .inr ?_⟩
    unfold ReviewState.mark
    rw [if_pos ((hx.eq_of_mem hf hf.1).2 rfl)]
  · intro hwaiting
    cases hwaiting.symm.trans hcurrent
  · intro r hr
    obtain rfl := Option.some.inj (hp.symm.trans hr)
    exact ⟨hactive, hcase, hintake⟩

/-- A revision that raised. -/
theorem Orderly.pending_restored {proposal : RevisionProposal}
    (manifest : Sha256 (List CaseFileSeal)) (hx : Orderly ⟨s, some proposal⟩) :
    Pending ⟨s.restoreUnmutatedRevisionReady manifest proposal, none⟩ := by
  rcases restoreUnmutatedRevisionReady_cases s manifest proposal with
    hsame | ⟨-, hfeedback, hactive⟩
  · rw [hsame]
    exact hx.toPending.over hx.current_ne
  · obtain ⟨hproposal, hcase, hintake⟩ := hx.revising proposal rfl
    obtain ⟨f, hf, hstatus⟩ := hx.active proposal hproposal
    have hproposed : (ReviewState.proposeAgain proposal.feedbackIds f).status =
        .revisionProposed := by
      unfold ReviewState.proposeAgain
      split_ifs with hprogress
      · rfl
      · refine hstatus.resolve_right fun hprogress' => hprogress ⟨?_, hprogress'⟩
        exact (hx.eq_of_mem hf hf.1).2 rfl
    have hconcerns := hf.map (restatus_proposeAgain _) hfeedback
    refine ⟨fun p hp => ?_, fun _ => ⟨rfl, proposal, hactive.trans hproposal, hcase, hintake, _,
      hconcerns, hproposed⟩, fun p hp => (by cases hp)⟩
    obtain rfl := Option.some.inj ((hactive.trans hproposal).symm.trans hp)
    exact ⟨_, hconcerns, .inl hproposed⟩

/-- A case that is sealed. -/
theorem Orderly.pending_preview {revising : Option RevisionProposal} {plan : EngineeringPlan}
    {caseSeal : CaseSeal} {record : Document} {native gate : Bool}
    (hx : Orderly ⟨s, revising⟩)
    (h : s.finishPreview plan caseSeal record native gate = some s') : Pending ⟨s', none⟩ := by
  obtain ⟨-, hcurrent, hfeedback⟩ := finishPreview_eq_some h
  have hwaiting : s'.currentState ≠ .revisionReady := fun heq => hcurrent (by rw [heq]; decide)
  rcases hfeedback with ⟨hfeedback, hactive⟩ | ⟨p, -, hactive, -⟩
  · exact (hx.toPending.of_frame hfeedback hactive (.inr hwaiting)).over hwaiting
  · exact .of_none hactive hwaiting

/-- **Every step keeps a session orderly.** -/
theorem Orderly.step (hx : Orderly x) (h : Step x y) : Orderly y := by
  cases h with
  | review s statement answer =>
    rcases review_cases s statement answer with hsame | ⟨f, hf⟩
    · rw [hsame]
      exact hx
    · exact hx.of_records hf
  | reject h =>
    obtain ⟨p, -, -, hfeedback, hactive, hcurrent, -⟩ := rejectRevision_eq_some h
    refine { toRecorded := hx.toRecorded.map (restatus_mark _ _) hfeedback, toPending := ?_ }
    exact .of_none hactive (hcurrent ▸ rejectionTarget_ne _ p)
  | accept h =>
    obtain ⟨-, hfeedback, hactive, hcurrent⟩ := acceptResult_eq_some h
    refine { toRecorded := hx.toRecorded.map restatus_resolve hfeedback, toPending := ?_ }
    exact .of_none hactive (by rw [hcurrent]; decide)
  | approve h =>
    obtain ⟨hfeedback, hactive, hcurrent⟩ := approveSolve_eq_some h
    exact { toRecorded := hx.toRecorded.map restatus_id (by rw [hfeedback, List.map_id])
            toPending := hx.toPending.of_frame hfeedback hactive (.inr (by rw [hcurrent]; decide)) }
  | start h =>
    obtain ⟨p, -, -, -, hfeedback, -⟩ := startRevision_eq_some h
    exact { toRecorded := hx.toRecorded.map (restatus_mark _ _) hfeedback
            toPending := hx.pending_start h }
  | work h =>
    refine { toRecorded := hx.toRecorded.map restatus_id (by rw [h.feedback, List.map_id]),
             toPending := ?_ }
    refine hx.toPending.of_frame h.feedback h.active (h.current.imp_right fun hcurrent heq => ?_)
    exact hcurrent (by rw [heq]; decide)
  | preview h => exact { toRecorded := hx.toRecorded.preview h, toPending := hx.pending_preview h }
  | previewRaised h =>
    rw [hx.restore_preview h]
    exact { toRecorded := hx.toRecorded.preview h, toPending := hx.pending_preview h }
  | raised s proposal manifest =>
    refine { toRecorded := ?_, toPending := hx.pending_restored manifest }
    rcases restoreUnmutatedRevisionReady_cases s manifest proposal with hsame | ⟨-, hfeedback, -⟩
    · rw [hsame]
      exact hx.toRecorded
    · exact hx.toRecorded.map (restatus_proposeAgain _) hfeedback
  | returned s proposal =>
    exact { toRecorded := hx.toRecorded, toPending := hx.toPending.over hx.current_ne }
  | @result s h =>
    refine { toRecorded := hx.toRecorded.map restatus_rerun rfl, toPending := ?_ }
    refine ⟨fun p hp => ?_, fun hready => ?_, fun p hp => (by cases hp)⟩
    · obtain ⟨f, hf, hstatus⟩ := hx.active p hp
      have hsame : ReviewState.rerun f = f := by
        unfold ReviewState.rerun
        rcases hstatus with hstatus | hstatus <;> rw [hstatus] <;> rfl
      have hconcerns : Concerns s.markFeedbackAwaitingReview p (ReviewState.rerun f) :=
        hf.map restatus_rerun rfl
      rw [hsame] at hconcerns
      exact ⟨f, hconcerns, hstatus⟩
    · cases hready.symm.trans h

end

/-! ### Runs -/

section
variable {s₀ s : ReviewState} {x y : Session}

/-- **Every session is orderly.** -/
theorem orderly_of_run (hfresh : Fresh s₀) (h : Relation.ReflTransGen Step ⟨s₀, none⟩ x) :
    Orderly x := by
  induction h with
  | refl =>
    refine { toRecorded := ⟨?_, fun f hf => ?_⟩,
             toPending := .of_none hfresh.active hfresh.current }
    · change s₀.humanFeedback.map _ = (List.range s₀.humanFeedback.length).map _
      rw [hfresh.feedback]
      rfl
    · change f ∈ s₀.humanFeedback at hf
      rw [hfresh.feedback] at hf
      cases hf
  | tail _ hstep ih => exact ih.step hstep

/-- The rejection of the proposal about a feedback goes back to its gate. -/
theorem Orderly.rejectionTarget_eq {p : RevisionProposal} {f : HumanFeedback} (hx : Orderly x)
    (h : Concerns x.state p f) : x.state.rejectionTarget p = f.submittedState := by
  have hlinked : ∀ state : State,
      (x.state.humanFeedback.filter (·.feedbackId ∈ p.feedbackIds)).any
        (·.submittedState = state) = decide (f.submittedState = state) := by
    intro state
    rw [Bool.eq_iff_iff, List.any_eq_true, decide_eq_true_iff]
    constructor
    · rintro ⟨f', hf', hstate⟩
      obtain ⟨hmem, hid⟩ := List.mem_filter.1 hf'
      rw [← (hx.eq_of_mem h hmem).1 (of_decide_eq_true hid)]
      exact of_decide_eq_true hstate
    · intro hstate
      exact ⟨f, List.mem_filter.2 ⟨h.1, decide_eq_true ((hx.eq_of_mem h h.1).2 rfl)⟩,
        decide_eq_true hstate⟩
  have hgate := hx.gates f h.1
  unfold ReviewState.rejectionTarget
  dsimp only
  rw [hlinked, hlinked]
  revert hgate
  cases f.submittedState <;> decide

/-- **A rejection goes back to the gate.** In every run, where a proposal waits for the user, it is
about one feedback; its rejection returns to the gate at which that feedback was given, marks it and
leaves every other feedback, the case, the plan and the approval as they were. -/
theorem reject_returns (hfresh : Fresh s₀) (h : Relation.ReflTransGen Step ⟨s₀, none⟩ ⟨s, none⟩)
    (hready : s.currentState = .revisionReady) :
    ∃ p f s', s.activeRevisionProposal = some p ∧ Concerns s p f ∧
      s.rejectRevision = some s' ∧ s'.currentState = f.submittedState ∧
      s'.currentState ∈ feedbackStates ∧ s'.activeRevisionProposal = none ∧
      s'.humanFeedback = s.humanFeedback.map (fun f' =>
        if f' = f then { f' with status := .proposalRejected } else f') ∧
      s'.engineeringPlan = s.engineeringPlan ∧ s'.caseSeal = s.caseSeal ∧
      s'.solveApproved = s.solveApproved ∧ s'.executionApproval = s.executionApproval := by
  have hx := orderly_of_run hfresh h
  obtain ⟨-, p, hp, -, -, f, hf, -⟩ := hx.ready hready
  obtain ⟨s', hs'⟩ : ∃ s', s.rejectRevision = some s' := by
    unfold ReviewState.rejectRevision
    rw [show s.activeRevisionProposal = some p from hp]
    dsimp only
    rw [if_neg (not_not.2 hready)]
    exact ⟨_, rfl⟩
  obtain ⟨q, hq, -, hfeedback, hactive, hcurrent, hkept⟩ := rejectRevision_eq_some hs'
  obtain rfl := Option.some.inj (hq.symm.trans hp)
  have htarget : s'.currentState = f.submittedState :=
    hcurrent.trans (hx.rejectionTarget_eq (x := ⟨s, none⟩) hf)
  refine ⟨q, f, s', hq, hf, hs', htarget, htarget ▸ hx.gates f hf.1, hactive, ?_, hkept⟩
  rw [hfeedback]
  refine List.map_congr_left fun f' hf' => ?_
  unfold ReviewState.mark
  simp only [hx.eq_of_mem (x := ⟨s, none⟩) hf hf']

/-- A sealed case with a verified result. -/
def solvedCase : ReviewState where
  runId := "run-1".toList
  engineeringPlan := some (planRequiring ["system/controlDict"])
  caseSeal := some ⟨⟨planRequiring ["system/controlDict"]⟩, ⟨[]⟩, []⟩
  simulation := some ⟨true, true, 0, true, true, some true⟩
  currentState := .resultReviewRequired

theorem fresh_solvedCase : Fresh solvedCase := ⟨rfl, rfl, by decide⟩

/-- An assessment that asks for a case revision, or for none. -/
def meshAssessment (requiresCaseRevision : Bool) : FeedbackAssessment where
  findings := "The mesh is coarse.".toList
  requiresCaseRevision := requiresCaseRevision
  requiresIntakeRevision := false
  intakeRevisionReason := []
  reasoned h := by cases h
  routed h := by cases h

/-- The solved case behind a first review. -/
def reviewedCase (requiresCaseRevision : Bool) : ReviewState :=
  (solvedCase.review "too coarse".toList (.assessment (meshAssessment requiresCaseRevision))).1

theorem run_reviewedCase (requiresCaseRevision : Bool) :
    Relation.ReflTransGen Step ⟨solvedCase, none⟩ ⟨reviewedCase requiresCaseRevision, none⟩ :=
  .single (.review ..)

theorem reject_returns_solved :
    ∃ s', (reviewedCase true).rejectRevision = some s' ∧
      s'.currentState = .resultReviewRequired := by
  obtain ⟨p, f, s', -, hf, hs', hcurrent, -⟩ :=
    reject_returns fresh_solvedCase (run_reviewedCase true) (by decide +kernel)
  have hmem : f ∈ (reviewedCase true).humanFeedback := hf.1
  obtain rfl : f = { solvedCase.newFeedback "too coarse".toList with
      status := .revisionProposed } := List.mem_singleton.1 hmem
  exact ⟨s', hs', hcurrent⟩

/-- A result that was verified. -/
structure Verified (s : ReviewState) (result : SimulationResult) : Prop where
  simulation : s.simulation = some result
  success : result.success = true
  completed : result.completed = true
  terminationVerified : result.terminationVerified = true
  returnCode : result.returnCode = 0
  processSuccess : result.processSuccess = true
  outputsVerified : result.outputsVerified = some true

/-- Only a verified result is accepted. -/
theorem verified_of_accept {s' : ReviewState} (h : s.acceptResult = some s') :
    s.currentState = .resultReviewRequired ∧ ∃ result, Verified s result := by
  obtain ⟨hblockers, -⟩ := acceptResult_eq_some h
  unfold ReviewState.resultAcceptanceBlockers at hblockers
  split_ifs at hblockers with hcurrent
  refine ⟨not_not.1 hcurrent, ?_⟩
  split at hblockers
  · cases hblockers
  · rename_i result hresult
    dsimp only at hblockers
    -- Every branch but the one without a blocker contradicts the acceptance.
    split_ifs at hblockers with hcompleted <;> simp_all
    rename_i hprocess houtputs hsuccess
    exact ⟨result, hresult, hsuccess, hcompleted.1, hcompleted.2, hprocess.1, hprocess.2, houtputs⟩

/-- **The life of a feedback.** -/
theorem feedback_lifecycle (hfresh : Fresh s₀) (hx : Relation.ReflTransGen Step ⟨s₀, none⟩ x)
    (hy : Relation.ReflTransGen Step x y) {i : ℕ} {f : HumanFeedback}
    (hf : x.state.humanFeedback[i]? = some f) :
    ∃ status, y.state.humanFeedback[i]? = some { f with status := status } ∧
      Relation.ReflTransGen Advances f.status status ∧
      (status = .resolved → f.status ≠ .resolved → ∃ u u' result,
        Relation.ReflTransGen Step x ⟨u, none⟩ ∧ u.currentState = .resultReviewRequired ∧
          Verified u result ∧ u.acceptResult = some u' ∧
            Relation.ReflTransGen Step ⟨u', none⟩ y) := by
  induction hy with
  | refl => exact ⟨f.status, hf, .refl, fun hresolved hnot => absurd hresolved hnot⟩
  | @tail z w hz hstep ih =>
    obtain ⟨status, hstatus, hadvances, hresolved⟩ := ih
    obtain ⟨g, new, hmoves⟩ := (orderly_of_run hfresh (hx.trans hz)).exists_moves hstep
    set f' : HumanFeedback := { f with status := status }
    have hmem : f' ∈ z.state.humanFeedback := List.mem_of_getElem? hstatus
    refine ⟨(g f').status, ?_, ?_, fun hnow hnot => ?_⟩
    · rw [hmoves.feedback, List.getElem?_append_left, List.getElem?_map, hstatus, Option.map_some,
        hmoves.restatus f']
      rw [List.length_map]
      exact (List.getElem?_eq_some_iff.1 hstatus).1
    · rcases hmoves.advances f' hmem with hsame | hmove
      · rw [hsame]
        exact hadvances
      · exact hadvances.tail hmove
    · by_cases hthen : status = .resolved
      · obtain ⟨u, u', result, hu, hcurrent, hverified, haccept, hafter⟩ := hresolved hthen hnot
        exact ⟨u, u', result, hu, hcurrent, hverified, haccept, hafter.tail hstep⟩
      · obtain ⟨hidle, haccept, hidle'⟩ := hmoves.resolved f' hmem hnow hthen
        obtain ⟨hcurrent, result, hverified⟩ := verified_of_accept haccept
        obtain ⟨u, revising⟩ := z
        obtain ⟨u', revising'⟩ := w
        subst hidle hidle'
        exact ⟨u, u', result, hz, hcurrent, hverified, haccept, .refl⟩

/-- A feedback that needs no revision is resolved by the acceptance of the result. -/
theorem feedback_lifecycle_accepted : ∃ s', (reviewedCase false).acceptResult = some s' ∧
    s'.humanFeedback[0]?.map (·.status) = some .resolved ∧
    Relation.ReflTransGen Advances .awaitingReview .resolved := by
  obtain ⟨s', hs'⟩ : ∃ s', (reviewedCase false).acceptResult = some s' := ⟨_, rfl⟩
  obtain ⟨status, hfeedback, hadvances, -⟩ := feedback_lifecycle (i := 0) (f := {
      solvedCase.newFeedback "too coarse".toList with status := .awaitingReview })
    fresh_solvedCase (run_reviewedCase false) (.single (.accept hs')) rfl
  have hresolved : s'.humanFeedback[0]?.map (·.status) = some .resolved := by
    cases hs'
    rfl
  obtain rfl : status = .resolved := by
    rw [hfeedback] at hresolved
    exact Option.some.inj hresolved
  exact ⟨s', hs', hresolved, hadvances⟩

end

end Review
end OpenFoamAgent
