/-
# The upward zero crossings of the lift

`_upward_zero_crossings` of `postprocessing/analysis.py` takes every neighbouring pair of
samples whose first value is at most zero and whose second is positive, and
`analyze_force_coefficients` reads a shedding frequency off the times between them.

On a series at rising times the crossings rise, and neither nodes on the lines nor a positive
factor change them. They are the rises from a negative to a positive value, one each, exactly
where no sample at zero is followed by a positive one without a negative one before it
(`upwardZeroCrossings_iff`). Where the signal only touches zero from above, or begins at zero,
a crossing is counted and no cycle was completed (`touch_counted`).
-/
import OpenFoamAgent.Library.PiecewiseLinear
import OpenFoamAgent.Postprocessing.Quantities

namespace OpenFoamAgent
namespace Postprocessing

open PiecewiseLinear

/-! ### The frequency of the lift -/

section
variable {K : Type} [Field K] [LinearOrder K]

/-- Where the line from a sample to the next one is zero. -/
def crossingTime (p q : K × K) : K :=
  let denom := q.2 - p.2
  let fraction := if denom = 0 then 0 else -p.2 / denom
  p.1 + fraction * (q.1 - p.1)

/-- `_upward_zero_crossings`, of the times with the values of the signal. -/
def upwardZeroCrossings : Series K → List K
  | p :: q :: s =>
    if q.1 ≤ p.1 then upwardZeroCrossings (q :: s)
    else if p.2 ≤ 0 ∧ 0 < q.2 then crossingTime p q :: upwardZeroCrossings (q :: s)
    else upwardZeroCrossings (q :: s)
  | _ => []

/-- `[value - mean_cl for value in cls]`, with the times. -/
def meanFree (meanCl : K) (lift : Series K) : Series K := lift.map fun p => (p.1, p.2 - meanCl)

/-- `[b - a for a, b in zip(crossings, crossings[1:]) if b > a]`. -/
def crossingPeriods (crossings : List K) : List K :=
  ((crossings.zip crossings.tail).filter fun c => c.1 < c.2).map fun c => c.2 - c.1

/-- `frequency` and `periods_observed`. -/
structure SheddingEstimate (K : Type) where
  frequency : K
  periodsObserved : ℕ
  deriving DecidableEq

/-- The frequency of `analyze_force_coefficients`, from the retained lift and its mean. -/
def sheddingFrequency (lift : Series K) (meanCl : K) : Option (SheddingEstimate K) :=
  if lift.length < 5 then none
  else
    let crossings := upwardZeroCrossings (meanFree meanCl lift)
    if crossings.length < 3 then none
    else
      let periods := crossingPeriods crossings
      if periods = [] then none
      else
        let meanPeriod := periods.sum / periods.length
        if 0 < meanPeriod then some ⟨1 / meanPeriod, periods.length⟩ else none

/-- The frequency with the mean that `time_statistics` gives for the retained lift. -/
def liftFrequency (sqrt : K → K) (lift : Series K) :
    Except QuantityError (Option (SheddingEstimate K)) := do
  if 1 < lift.length then
    return sheddingFrequency lift (← timeStatistics sqrt lift).timeMean
  else return none

/-! ### What the crossings are to count -/

/-- A rise of the signal: a negative sample, a positive one, and between them zeros only. -/
structure Rise (s : Series K) (a b : K × K) : Prop where
  left : a ∈ s
  right : b ∈ s
  ordered : a.1 < b.1
  negative : a.2 < 0
  positive : 0 < b.2
  zeros : ∀ z ∈ s, a.1 < z.1 → z.1 < b.1 → z.2 = 0

/-- Between two times the signal was positive and then negative: from one rise to the next it
has gone through a whole cycle. -/
def CompletedCycle (s : Series K) (a b : K) : Prop :=
  ∃ p ∈ s, ∃ q ∈ s, a < p.1 ∧ 0 < p.2 ∧ p.1 < q.1 ∧ q.2 < 0 ∧ q.1 < b

/-- The estimate counts completed cycles: one between any two crossings, as many as there are
pairs of neighbouring crossings, in the time from the first to the last. -/
structure CountsCycles (s : Series K) (estimate : SheddingEstimate K) : Prop where
  completed : ∀ a ∈ upwardZeroCrossings s, ∀ b ∈ upwardZeroCrossings s, a < b →
    CompletedCycle s a b
  periods : estimate.periodsObserved + 1 = (upwardZeroCrossings s).length
  frequency : ∃ first ∈ (upwardZeroCrossings s).head?, ∃ last ∈ (upwardZeroCrossings s).getLast?,
    estimate.frequency = estimate.periodsObserved / (last - first)

/-- The crossings of a series are its rises, and belong to the signal and not to its nodes. -/
structure CountsRises (s : Series K) : Prop where
  increasing : (upwardZeroCrossings s).Pairwise (· < ·)
  rises : ∀ a b, Rise s a b → ∃! c, c ∈ upwardZeroCrossings s ∧ a.1 < c ∧ c < b.1
  crossings : ∀ c ∈ upwardZeroCrossings s,
    ∃! r : (K × K) × (K × K), Rise s r.1 r.2 ∧ r.1.1 < c ∧ c < r.2.1
  refined : ∀ s', Refines s s' → upwardZeroCrossings s' = upwardZeroCrossings s
  scaled : ∀ k, 0 < k → upwardZeroCrossings (s.map fun p => (p.1, k * p.2)) = upwardZeroCrossings s
  cycles : ∀ sqrt lift stats estimate, timeStatistics sqrt lift = .ok stats →
    meanFree stats.timeMean lift = s → liftFrequency sqrt lift = .ok (some estimate) →
      CountsCycles s estimate

/-- Every sample at zero that a positive one follows has a negative one before it, with zeros
only in between. -/
def FromNegative (s : Series K) : Prop :=
  ∀ p q, [p, q] <:+: s → p.2 = 0 → 0 < q.2 →
    ∃ a ∈ s, a.1 < p.1 ∧ a.2 < 0 ∧ ∀ z ∈ s, a.1 < z.1 → z.1 < p.1 → z.2 = 0

end

/-! ### Neighbouring samples -/

section
variable {K : Type} {s : List (K × K)} {p q x : K × K}

theorem mem_left (h : [p, q] <:+: s) : p ∈ s := h.subset List.mem_cons_self

theorem mem_right (h : [p, q] <:+: s) : q ∈ s :=
  h.subset (List.mem_cons_of_mem p List.mem_cons_self)

variable [LinearOrder K]

theorem eq_of_time (hs : Rising s) (hp : p ∈ s) (hq : q ∈ s) (h : p.1 = q.1) : p = q := by
  by_contra hne
  have hget := List.pairwise_iff_getElem.1 hs
  obtain ⟨i, hi, rfl⟩ := List.getElem_of_mem hp
  obtain ⟨j, hj, rfl⟩ := List.getElem_of_mem hq
  rcases lt_trichotomy i j with hij | rfl | hij
  · exact (hget i j hi hj hij).ne h
  · exact hne rfl
  · exact (hget j i hj hi hij).ne h.symm

/-- No sample stands between two neighbouring ones. -/
theorem outside_neighbours (hs : Rising s) (h : [p, q] <:+: s) (hx : x ∈ s) :
    p.1 < q.1 ∧ (x.1 ≤ p.1 ∨ q.1 ≤ x.1) := by
  obtain ⟨before, after, rfl⟩ := h
  rw [List.append_assoc] at hs hx
  obtain ⟨-, hrest, hbefore⟩ := List.pairwise_append.1 hs
  obtain ⟨hp, hrest⟩ := List.pairwise_cons.1 hrest
  obtain ⟨hq, -⟩ := List.pairwise_cons.1 hrest
  refine ⟨hp q List.mem_cons_self, ?_⟩
  rcases List.mem_append.1 hx with hx | hx
  · exact .inl (hbefore x hx p List.mem_cons_self).le
  · rcases List.mem_cons.1 hx with rfl | hx
    · exact .inl le_rfl
    · rcases List.mem_cons.1 hx with rfl | hx
      · exact .inr le_rfl
      · exact .inr (hq x hx).le

/-- A sample that is not the first has a neighbour before it. -/
theorem exists_neighbour (hs : Rising s) (hp : p ∈ s) (hq : q ∈ s) (h : p.1 < q.1) :
    ∃ n, [n, q] <:+: s ∧ p.1 ≤ n.1 := by
  obtain ⟨before, after, rfl⟩ := List.append_of_mem hq
  obtain ⟨hbefore, hrest, hcross⟩ := List.pairwise_append.1 hs
  have hmem : p ∈ before := by
    rcases List.mem_append.1 hp with hp | hp
    · exact hp
    · rcases List.mem_cons.1 hp with rfl | hp
      · exact absurd h (lt_irrefl _)
      · exact absurd h ((List.pairwise_cons.1 hrest).1 p hp).not_gt
  rcases List.eq_nil_or_concat before with rfl | ⟨front, n, rfl⟩
  · cases hmem
  · rw [List.concat_eq_append] at hmem hbefore ⊢
    refine ⟨n, ⟨front, after, by simp⟩, ?_⟩
    rcases List.mem_append.1 hmem with hmem | hmem
    · exact ((List.pairwise_append.1 hbefore).2.2 p hmem n List.mem_cons_self).le
    · rw [List.mem_singleton.1 hmem]

end

section
variable {K : Type} [Field K] [LinearOrder K] [IsStrictOrderedRing K] {s : Series K}
  {p q a b : K × K} {c : K}

/-! ### One crossing -/

/-- A pair of neighbouring samples that is taken. -/
structure Upward (s : Series K) (p q : K × K) : Prop where
  neighbours : [p, q] <:+: s
  left : p.2 ≤ 0
  right : 0 < q.2

theorem crossingTime_eq (h : p.2 ≤ 0 ∧ 0 < q.2) :
    crossingTime p q = p.1 + -p.2 / (q.2 - p.2) * (q.1 - p.1) := by
  have hne : q.2 - p.2 ≠ 0 := (sub_pos.2 (h.1.trans_lt h.2)).ne'
  rw [crossingTime, if_neg hne]

/-- The crossing lies between the two samples, at the first only if it is zero there. -/
theorem crossingTime_between (h : p.2 ≤ 0 ∧ 0 < q.2) (hpq : p.1 < q.1) :
    p.1 ≤ crossingTime p q ∧ crossingTime p q < q.1 ∧ (p.2 < 0 → p.1 < crossingTime p q) := by
  have hdenom : 0 < q.2 - p.2 := sub_pos.2 (h.1.trans_lt h.2)
  have hlength : 0 < q.1 - p.1 := sub_pos.2 hpq
  rw [crossingTime_eq h]
  have hlow : 0 ≤ -p.2 / (q.2 - p.2) := div_nonneg (neg_nonneg.2 h.1) hdenom.le
  have hhigh : -p.2 / (q.2 - p.2) < 1 := by
    rw [div_lt_one hdenom]
    linarith [h.2]
  refine ⟨le_add_of_nonneg_right (mul_nonneg hlow hlength.le), ?_, fun hneg => ?_⟩
  · nlinarith
  · exact lt_add_of_pos_right _ (mul_pos (div_pos (neg_pos.2 hneg) hdenom) hlength)

omit [IsStrictOrderedRing K] in
theorem crossingTime_of_zero (hp : p.2 = 0) : crossingTime p q = p.1 := by
  rw [crossingTime, hp, neg_zero, zero_div, ite_self, zero_mul, add_zero]

omit [IsStrictOrderedRing K] in
theorem upwardZeroCrossings_cons (hpq : p.1 < q.1) (s : Series K) :
    upwardZeroCrossings (p :: q :: s) =
      if p.2 ≤ 0 ∧ 0 < q.2 then crossingTime p q :: upwardZeroCrossings (q :: s)
      else upwardZeroCrossings (q :: s) := by
  rw [upwardZeroCrossings, if_neg hpq.not_ge]

omit [IsStrictOrderedRing K] in
/-- The crossings are those of the pairs that are taken. -/
theorem mem_upwardZeroCrossings (hs : Rising s) :
    c ∈ upwardZeroCrossings s ↔ ∃ p q, Upward s p q ∧ c = crossingTime p q := by
  induction s with
  | nil =>
    refine iff_of_false List.not_mem_nil ?_
    rintro ⟨p, q, h, -⟩
    exact absurd (mem_left h.neighbours) List.not_mem_nil
  | cons p s ih =>
    rcases s with _ | ⟨q, s⟩
    · refine iff_of_false List.not_mem_nil ?_
      rintro ⟨p', q', h, -⟩
      simpa using h.neighbours.length_le
    obtain ⟨hp, hrest⟩ := List.pairwise_cons.1 hs
    have hsplit : ∀ p' q', [p', q'] <:+: p :: q :: s ↔
        (p' = p ∧ q' = q) ∨ [p', q'] <:+: q :: s := by
      intro p' q'
      rw [List.infix_cons_iff, List.cons_prefix_cons, List.cons_prefix_cons]
      simp
    rw [upwardZeroCrossings_cons (hp q List.mem_cons_self)]
    have htail : (∃ p' q', Upward (p :: q :: s) p' q' ∧ c = crossingTime p' q') ↔
        ((p.2 ≤ 0 ∧ 0 < q.2) ∧ c = crossingTime p q) ∨ c ∈ upwardZeroCrossings (q :: s) := by
      rw [ih hrest]
      constructor
      · rintro ⟨p', q', h, rfl⟩
        rcases (hsplit p' q').1 h.neighbours with ⟨rfl, rfl⟩ | hin
        · exact .inl ⟨⟨h.left, h.right⟩, rfl⟩
        · exact .inr ⟨p', q', ⟨hin, h.left, h.right⟩, rfl⟩
      · rintro (⟨h, rfl⟩ | ⟨p', q', h, rfl⟩)
        · exact ⟨p, q, ⟨(hsplit p q).2 (.inl ⟨rfl, rfl⟩), h.1, h.2⟩, rfl⟩
        · exact ⟨p', q', ⟨(hsplit p' q').2 (.inr h.neighbours), h.left, h.right⟩, rfl⟩
    rw [htail]
    split_ifs with h
    · rw [List.mem_cons]
      tauto
    · tauto

theorem Upward.between (hs : Rising s) (h : Upward s p q) :
    p.1 ≤ crossingTime p q ∧ crossingTime p q < q.1 ∧ (p.2 < 0 → p.1 < crossingTime p q) :=
  crossingTime_between ⟨h.left, h.right⟩
    (outside_neighbours hs h.neighbours (mem_left h.neighbours)).1

theorem increasing_upwardZeroCrossings (hs : Rising s) :
    (upwardZeroCrossings s).Pairwise (· < ·) := by
  induction s with
  | nil => exact .nil
  | cons p s ih =>
    rcases s with _ | ⟨q, s⟩
    · exact .nil
    obtain ⟨hp, hrest⟩ := List.pairwise_cons.1 hs
    rw [upwardZeroCrossings_cons (hp q List.mem_cons_self)]
    split_ifs with h
    · refine (ih hrest).cons fun c hc => ?_
      obtain ⟨p', q', h', rfl⟩ := (mem_upwardZeroCrossings hrest).1 hc
      have hq : q.1 ≤ p'.1 := by
        rcases List.mem_cons.1 (mem_left h'.neighbours) with rfl | hmem
        · exact le_rfl
        · exact ((List.pairwise_cons.1 hrest).1 p' hmem).le
      exact ((crossingTime_between h (hp q List.mem_cons_self)).2.1.trans_le hq).trans_le
        (h'.between hrest).1
    · exact ih hrest

/-! ### Nodes on the lines, and factors -/

theorem sub_line {u : K} (hpq : p.1 < q.1) :
    line p q u - p.2 = (q.2 - p.2) * (u - p.1) / (q.1 - p.1) ∧
      q.2 - line p q u = (q.2 - p.2) * (q.1 - u) / (q.1 - p.1) := by
  have hlength : q.1 - p.1 ≠ 0 := (sub_pos.2 hpq).ne'
  rw [line]
  constructor
  · ring
  · field_simp
    ring

/-- A node on a line that rises through zero: the crossing is on one side of it. -/
theorem crossingTime_cut {u : K} (h : p.2 ≤ 0 ∧ 0 < q.2) (hpu : p.1 < u) (huq : u < q.1) :
    crossingTime p (u, line p q u) = crossingTime p q ∧
      crossingTime (u, line p q u) q = crossingTime p q := by
  obtain ⟨hleft, hright⟩ := sub_line (u := u) (hpu.trans huq)
  have hlength : q.1 - p.1 ≠ 0 := (sub_pos.2 (hpu.trans huq)).ne'
  have hdenom : q.2 - p.2 ≠ 0 := (sub_pos.2 (h.1.trans_lt h.2)).ne'
  have hu : u - p.1 ≠ 0 := (sub_pos.2 hpu).ne'
  have hu' : q.1 - u ≠ 0 := (sub_pos.2 huq).ne'
  have hne : line p q u - p.2 ≠ 0 := by
    rw [hleft]
    exact div_ne_zero (mul_ne_zero hdenom hu) hlength
  have hne' : q.2 - line p q u ≠ 0 := by
    rw [hright]
    exact div_ne_zero (mul_ne_zero hdenom hu') hlength
  unfold crossingTime
  dsimp only
  rw [if_neg hne, if_neg hne', if_neg hdenom, hleft, hright, line]
  constructor
  · field_simp
  · field_simp
    ring

/-- A line between values of one sign keeps it. -/
theorem line_sign {u : K} (hpu : p.1 < u) (huq : u < q.1) :
    (p.2 ≤ 0 → q.2 ≤ 0 → line p q u ≤ 0) ∧ (0 < p.2 → 0 < q.2 → 0 < line p q u) := by
  have hlength : 0 < q.1 - p.1 := sub_pos.2 (hpu.trans huq)
  have heq : line p q u = (p.2 * (q.1 - u) + q.2 * (u - p.1)) / (q.1 - p.1) := by
    rw [line]
    field_simp
    ring
  have hu : 0 < u - p.1 := sub_pos.2 hpu
  have hu' : 0 < q.1 - u := sub_pos.2 huq
  rw [heq]
  refine ⟨fun hp hq => ?_, fun hp hq => ?_⟩
  · exact div_nonpos_of_nonpos_of_nonneg (add_nonpos (mul_nonpos_of_nonpos_of_nonneg hp hu'.le)
      (mul_nonpos_of_nonpos_of_nonneg hq hu.le)) hlength.le
  · exact div_pos (add_pos (mul_pos hp hu') (mul_pos hq hu)) hlength

theorem upwardZeroCrossings_cut {u : K} (hpu : p.1 < u) (huq : u < q.1) (s : Series K) :
    upwardZeroCrossings (p :: (u, line p q u) :: q :: s) = upwardZeroCrossings (p :: q :: s) := by
  obtain ⟨hnonpos, hpositive⟩ := line_sign (p := p) (q := q) hpu huq
  rw [upwardZeroCrossings_cons hpu, upwardZeroCrossings_cons huq,
    upwardZeroCrossings_cons (hpu.trans huq)]
  dsimp only
  by_cases h : p.2 ≤ 0 ∧ 0 < q.2
  · obtain ⟨hbefore, hbehind⟩ := crossingTime_cut h hpu huq
    rw [if_pos h]
    rcases le_or_gt (line p q u) 0 with hle | hgt
    · rw [if_neg fun hup => hup.2.not_ge hle, if_pos ⟨hle, h.2⟩, hbehind]
    · rw [if_pos ⟨h.1, hgt⟩, if_neg fun hup => hup.1.not_gt hgt, hbefore]
  · rw [if_neg h]
    rcases le_or_gt q.2 0 with hq | hq
    · rw [if_neg fun hup : line p q u ≤ 0 ∧ 0 < q.2 => hup.2.not_ge hq]
      refine if_neg fun hup => ?_
      exact hup.2.not_ge (hnonpos hup.1 hq)
    · have hp : 0 < p.2 := lt_of_not_ge fun hp => h ⟨hp, hq⟩
      rw [if_neg fun hup : line p q u ≤ 0 ∧ 0 < q.2 => hup.1.not_gt (hpositive hp hq)]
      exact if_neg fun hup => hup.1.not_gt hp

theorem upwardZeroCrossings_insertNode {x : K × K} (hs : Rising s)
    (hx : valueAt s x.1 = some x.2) :
    upwardZeroCrossings (insertNode x s) = upwardZeroCrossings s := by
  induction s with
  | nil => cases hx
  | cons p s ih =>
    rw [insertNode]
    split_ifs with hlt heq
    · rw [valueAt_of_lt hlt] at hx
      cases hx
    · rfl
    · have hp : p.1 < x.1 := (not_lt.1 hlt).lt_of_ne (Ne.symm heq)
      rcases s with _ | ⟨q, s⟩
      · rw [valueAt, if_neg heq] at hx
        cases hx
      obtain ⟨hpq, hrest⟩ := List.pairwise_cons.1 hs
      have hpq := hpq q List.mem_cons_self
      rcases lt_or_ge x.1 q.1 with hq | hq
      · rw [valueAt_between hp hq] at hx
        have hline : x = (x.1, line p q x.1) := Prod.ext rfl (Option.some.inj hx).symm
        rw [insertNode, if_pos hq, hline]
        exact upwardZeroCrossings_cut hp hq s
      · rw [valueAt_cons hpq hq] at hx
        have hnext := ih hrest hx
        rw [insertNode, if_neg hq.not_gt] at hnext ⊢
        split_ifs at hnext ⊢ with heq'
        · rfl
        · rw [upwardZeroCrossings_cons hpq, upwardZeroCrossings_cons hpq, hnext]

theorem upwardZeroCrossings_refines {s' : Series K} (hs : Rising s) (h : Refines s s') :
    upwardZeroCrossings s' = upwardZeroCrossings s :=
  h.induction (motive := fun t => upwardZeroCrossings t = upwardZeroCrossings s) hs rfl
    fun _ _ hrising hx heq => (upwardZeroCrossings_insertNode hrising hx).trans heq

theorem upwardZeroCrossings_scaled {k : K} (hk : 0 < k) (s : Series K) :
    upwardZeroCrossings (s.map fun p => (p.1, k * p.2)) = upwardZeroCrossings s := by
  have hcrossing : ∀ p q : K × K,
      crossingTime (p.1, k * p.2) (q.1, k * q.2) = crossingTime p q := by
    intro p q
    have hdenom : k * q.2 - k * p.2 = k * (q.2 - p.2) := (mul_sub ..).symm
    unfold crossingTime
    dsimp only
    rw [hdenom]
    by_cases h : q.2 - p.2 = 0
    · rw [h, mul_zero, if_pos rfl, if_pos rfl]
    · rw [if_neg h, if_neg (mul_ne_zero hk.ne' h), ← mul_neg, mul_div_mul_left _ _ hk.ne']
  induction s with
  | nil => rfl
  | cons p s ih =>
    rcases s with _ | ⟨q, s⟩
    · rfl
    rw [List.map_cons] at ih
    rw [List.map_cons, List.map_cons, upwardZeroCrossings, upwardZeroCrossings, ih, hcrossing]
    have hpos : ∀ y : K, 0 < k * y ↔ 0 < y := fun y => mul_pos_iff_of_pos_left hk
    have hnonpos : k * p.2 ≤ 0 ↔ p.2 ≤ 0 := by rw [← not_lt, hpos, not_lt]
    simp only [hpos, hnonpos]

/-! ### Crossings and rises -/

/-- Every rise is crossed, once. -/
theorem existsUnique_crossing (hs : Rising s) (h : Rise s a b) :
    ∃! c, c ∈ upwardZeroCrossings s ∧ a.1 < c ∧ c < b.1 := by
  obtain ⟨n, hn, hle⟩ := exists_neighbour hs h.left h.right h.ordered
  have hnb := (outside_neighbours hs hn h.right).1
  have hvalue : n.2 ≤ 0 ∧ (a.1 = n.1 → n.2 < 0) := by
    rcases hle.eq_or_lt with heq | hlt
    · rw [← eq_of_time hs h.left (mem_left hn) heq]
      exact ⟨h.negative.le, fun _ => h.negative⟩
    · exact ⟨(h.zeros n (mem_left hn) hlt hnb).le, fun heq => absurd heq hlt.ne⟩
  have hup : Upward s n b := ⟨hn, hvalue.1, h.positive⟩
  obtain ⟨hlow, hhigh, hneg⟩ := hup.between hs
  refine ⟨crossingTime n b, ⟨(mem_upwardZeroCrossings hs).2 ⟨n, b, hup, rfl⟩, ?_, hhigh⟩, ?_⟩
  · rcases hle.eq_or_lt with heq | hlt
    · rw [heq]
      exact hneg (hvalue.2 heq)
    · exact hlt.trans_le hlow
  · rintro c ⟨hc, hac, hcb⟩
    obtain ⟨p, q, hpq, rfl⟩ := (mem_upwardZeroCrossings hs).1 hc
    obtain ⟨hpc, hcq, -⟩ := hpq.between hs
    -- the positive sample behind the crossing is the one of the rise
    have hbq : b.1 ≤ q.1 := le_of_not_gt fun hqb =>
      hpq.right.ne' (h.zeros q (mem_right hpq.neighbours) (hac.trans hcq) hqb)
    have hqb : q.1 ≤ b.1 := (outside_neighbours hs hpq.neighbours h.right).2.resolve_left
      (hpc.trans_lt hcb).not_ge
    obtain rfl := eq_of_time hs (mem_right hpq.neighbours) h.right (le_antisymm hqb hbq)
    have hnp : n.1 ≤ p.1 := (outside_neighbours hs hpq.neighbours (mem_left hn)).2.resolve_right
      hnb.not_ge
    have hpn : p.1 ≤ n.1 := (outside_neighbours hs hn (mem_left hpq.neighbours)).2.resolve_right
      (hpc.trans_lt hcq).not_ge
    rw [eq_of_time hs (mem_left hpq.neighbours) (mem_left hn) (le_antisymm hpn hnp)]

/-- The rise around a crossing, if there is one, is known by the crossing. -/
theorem Rise.unique {a' b' : K × K} (hs : Rising s) (hup : Upward s p q) (h : Rise s a b)
    (h' : Rise s a' b') (hin : a.1 < crossingTime p q ∧ crossingTime p q < b.1)
    (hin' : a'.1 < crossingTime p q ∧ crossingTime p q < b'.1) : a = a' ∧ b = b' := by
  obtain ⟨hlow, hhigh, -⟩ := hup.between hs
  have hright : ∀ {a b}, Rise s a b → a.1 < crossingTime p q → crossingTime p q < b.1 → b = q := by
    intro a b h hac hcb
    have hbq : b.1 ≤ q.1 := le_of_not_gt fun hqb =>
      hup.right.ne' (h.zeros q (mem_right hup.neighbours) (hac.trans hhigh) hqb)
    have hqb : q.1 ≤ b.1 := (outside_neighbours hs hup.neighbours h.right).2.resolve_left
      (hlow.trans_lt hcb).not_ge
    exact eq_of_time hs h.right (mem_right hup.neighbours) (le_antisymm hbq hqb)
  obtain rfl := hright h hin.1 hin.2
  obtain rfl := hright h' hin'.1 hin'.2
  refine ⟨eq_of_time hs h.left h'.left (le_antisymm ?_ ?_), rfl⟩
  · exact le_of_not_gt fun hlt => h'.zeros a h.left hlt h.ordered |>.not_lt h.negative
  · exact le_of_not_gt fun hlt => h.zeros a' h'.left hlt h'.ordered |>.not_lt h'.negative

/-- A pair that is taken lies in a rise if zeros stand only behind a negative sample. -/
theorem Upward.exists_rise (hs : Rising s) (hfrom : FromNegative s) (h : Upward s p q) :
    ∃ a, Rise s a q ∧ a.1 < crossingTime p q := by
  obtain ⟨hlow, -, hneg⟩ := h.between hs
  have hpq := (outside_neighbours hs h.neighbours (mem_left h.neighbours)).1
  rcases h.left.lt_or_eq with hlt | hzero
  · refine ⟨p, ⟨mem_left h.neighbours, mem_right h.neighbours, hpq, hlt, h.right,
      fun z hz hpz hzq => ?_⟩, hneg hlt⟩
    rcases (outside_neighbours hs h.neighbours hz).2 with hle | hge
    · exact absurd hpz hle.not_gt
    · exact absurd hzq hge.not_gt
  · obtain ⟨a, ha, hap, hneg, hzeros⟩ := hfrom p q h.neighbours hzero h.right
    refine ⟨a, ⟨ha, mem_right h.neighbours, hap.trans hpq, hneg, h.right, fun z hz haz hzq => ?_⟩,
      hap.trans_le hlow⟩
    rcases (outside_neighbours hs h.neighbours hz).2 with hle | hge
    · rcases hle.lt_or_eq with hlt | heq
      · exact hzeros z hz haz hlt
      · rw [eq_of_time hs hz (mem_left h.neighbours) heq, hzero]
    · exact absurd hzq hge.not_gt

/-- Between two crossings lies a whole cycle. -/
theorem completedCycle (hs : Rising s) (hfrom : FromNegative s) {c d : K}
    (hc : c ∈ upwardZeroCrossings s) (hd : d ∈ upwardZeroCrossings s) (hcd : c < d) :
    CompletedCycle s c d := by
  obtain ⟨p, q, hpq, rfl⟩ := (mem_upwardZeroCrossings hs).1 hc
  obtain ⟨p', q', hpq', rfl⟩ := (mem_upwardZeroCrossings hs).1 hd
  obtain ⟨hlow, hhigh, -⟩ := hpq.between hs
  obtain ⟨hlow', hhigh', -⟩ := hpq'.between hs
  obtain ⟨a, hrise, had⟩ := hpq'.exists_rise hs hfrom
  have hq := mem_right hpq.neighbours
  -- the pairs do not overlap, so the first rise is over before the second begins
  have hqp : q.1 ≤ p'.1 := by
    rcases (outside_neighbours hs hpq.neighbours (mem_left hpq'.neighbours)).2 with hle | hge
    · rcases hle.lt_or_eq with hlt | heq
      · have hout := outside_neighbours hs hpq'.neighbours (mem_left hpq.neighbours)
        have hq'p := hout.2.resolve_left hlt.not_ge
        exact absurd (hhigh'.trans_le (hq'p.trans hlow)) hcd.not_gt
      · obtain rfl := eq_of_time hs (mem_left hpq'.neighbours) (mem_left hpq.neighbours) heq
        have hqq : q.1 = q'.1 := le_antisymm
          ((outside_neighbours hs hpq.neighbours (mem_right hpq'.neighbours)).2.resolve_left
            (hlow'.trans_lt hhigh').not_ge)
          ((outside_neighbours hs hpq'.neighbours hq).2.resolve_left (hlow.trans_lt hhigh).not_ge)
        obtain rfl := eq_of_time hs hq (mem_right hpq'.neighbours) hqq
        exact absurd hcd (lt_irrefl _)
    · exact hge
  have hqa : q.1 < a.1 := by
    refine lt_of_not_ge fun hle => ?_
    rcases hle.lt_or_eq with hlt | heq
    · exact hpq.right.ne' (hrise.zeros q hq hlt (hqp.trans_lt (hlow'.trans_lt hhigh')))
    · rw [eq_of_time hs hrise.left hq heq] at hrise
      exact hrise.negative.not_gt hpq.right
  exact ⟨q, hq, a, hrise.left, hhigh, hpq.right, hqa, hrise.negative, had⟩

/-! ### The periods -/

omit [IsStrictOrderedRing K] in
theorem crossingPeriods_cons {c d : K} (h : c < d) (cs : List K) :
    crossingPeriods (c :: d :: cs) = (d - c) :: crossingPeriods (d :: cs) := by
  rw [crossingPeriods, List.tail_cons, List.zip_cons_cons,
    List.filter_cons_of_pos (by simpa using h), List.map_cons]
  rfl

omit [IsStrictOrderedRing K] in
/-- The periods between rising crossings: one fewer, and their sum is the time from the first to
the last. -/
theorem crossingPeriods_rising {c : K} {cs : List K} (h : (c :: cs).Pairwise (· < ·)) :
    (crossingPeriods (c :: cs)).length = cs.length ∧
      (crossingPeriods (c :: cs)).sum = (c :: cs).getLast (List.cons_ne_nil c cs) - c := by
  induction cs generalizing c with
  | nil => exact ⟨rfl, (sub_self c).symm⟩
  | cons d cs ih =>
    obtain ⟨hc, hrest⟩ := List.pairwise_cons.1 h
    obtain ⟨hlength, hsum⟩ := ih hrest
    rw [crossingPeriods_cons (hc d List.mem_cons_self), List.length_cons, List.sum_cons, hlength,
      hsum, List.getLast_cons (List.cons_ne_nil d cs)]
    exact ⟨rfl, by ring⟩

theorem countsCycles (hs : Rising s) (hfrom : FromNegative s) {lift : Series K} {meanCl : K}
    {estimate : SheddingEstimate K} (hmean : meanFree meanCl lift = s)
    (h : sheddingFrequency lift meanCl = some estimate) : CountsCycles s estimate := by
  have hcompleted : ∀ c ∈ upwardZeroCrossings s, ∀ d ∈ upwardZeroCrossings s, c < d →
      CompletedCycle s c d := fun c hc d hd hcd => completedCycle hs hfrom hc hd hcd
  have hincreasing := increasing_upwardZeroCrossings hs
  unfold sheddingFrequency at h
  rw [hmean] at h
  dsimp only at h
  suffices hperiods : estimate.periodsObserved + 1 = (upwardZeroCrossings s).length ∧
      ∃ first ∈ (upwardZeroCrossings s).head?, ∃ last ∈ (upwardZeroCrossings s).getLast?,
        estimate.frequency = estimate.periodsObserved / (last - first) from
    ⟨hcompleted, hperiods.1, hperiods.2⟩
  rcases hcrossings : upwardZeroCrossings s with _ | ⟨c, cs⟩
  · rw [hcrossings] at h
    simp at h
  · rw [hcrossings] at h hincreasing
    obtain ⟨hlength, hsum⟩ := crossingPeriods_rising hincreasing
    split_ifs at h
    obtain rfl := Option.some.inj h
    dsimp only
    rw [hlength, hsum, List.length_cons, List.getLast?_eq_getLast_of_ne_nil (List.cons_ne_nil c cs)]
    exact ⟨rfl, c, rfl, _, rfl, one_div_div _ _⟩

omit [IsStrictOrderedRing K] in
/-- The frequency of the lift is that of its mean-free signal. -/
theorem liftFrequency_eq {sqrt : K → K} {lift : Series K} {stats : TimeStatistics K}
    {estimate : SheddingEstimate K} (hstats : timeStatistics sqrt lift = .ok stats)
    (h : liftFrequency sqrt lift = .ok (some estimate)) :
    sheddingFrequency lift stats.timeMean = some estimate := by
  unfold liftFrequency at h
  split_ifs at h
  · rw [hstats] at h
    exact Except.ok.inj h
  · cases h

/-! ### When the crossings are the rises -/

/-- **The crossings of a series are its rises, exactly where every zero before a positive sample
comes from a negative one.** Then they are one for each rise, and a shedding frequency counts
completed cycles only. They rise, and they belong to the signal and not to its nodes, in any
case. -/
theorem upwardZeroCrossings_iff (hs : Rising s) : CountsRises s ↔ FromNegative s := by
  constructor
  · intro h p q hpq hzero hpos
    have hup : Upward s p q := ⟨hpq, hzero.le, hpos⟩
    obtain ⟨hlow, hhigh, -⟩ := hup.between hs
    have htime := crossingTime_of_zero (q := q) hzero
    obtain ⟨⟨a, b⟩, ⟨hrise, hac, hcb⟩, -⟩ :=
      h.crossings _ ((mem_upwardZeroCrossings hs).2 ⟨p, q, hup, rfl⟩)
    dsimp only at hrise hac hcb
    rw [htime] at hac hcb
    exact ⟨a, hrise.left, hac, hrise.negative, fun z hz haz hzp =>
      hrise.zeros z hz haz (hzp.trans hcb)⟩
  · intro hfrom
    refine ⟨increasing_upwardZeroCrossings hs, fun a b h => existsUnique_crossing hs h,
      fun c hc => ?_, fun s' h => upwardZeroCrossings_refines hs h,
      fun k hk => upwardZeroCrossings_scaled hk s,
      fun sqrt lift stats estimate hstats hmean h =>
        countsCycles hs hfrom hmean (liftFrequency_eq hstats h)⟩
    obtain ⟨p, q, hup, rfl⟩ := (mem_upwardZeroCrossings hs).1 hc
    obtain ⟨a, hrise, hac⟩ := hup.exists_rise hs hfrom
    refine ⟨(a, q), ⟨hrise, hac, (hup.between hs).2.1⟩, ?_⟩
    rintro ⟨a', b'⟩ ⟨hrise', hin'⟩
    obtain ⟨rfl, rfl⟩ := hrise'.unique hs hup hrise hin' ⟨hac, (hup.between hs).2.1⟩
    rfl

end

/-- A signal that goes through zero once, and comes from a negative value. -/
theorem upwardZeroCrossings_iff_once :
    Rising [((0 : ℚ), (-1 : ℚ)), (1, 0), (2, 1)] ∧
      (CountsRises [((0 : ℚ), (-1 : ℚ)), (1, 0), (2, 1)] ↔
        FromNegative [((0 : ℚ), (-1 : ℚ)), (1, 0), (2, 1)]) := by
  have hs : Rising [((0 : ℚ), (-1 : ℚ)), (1, 0), (2, 1)] := by
    unfold Rising
    decide
  exact ⟨hs, upwardZeroCrossings_iff hs⟩

/-- A signal that touches zero from above is counted as a crossing. -/
theorem touch_counted :
    Rising [((0 : ℚ), (1 : ℚ)), (1, 0), (2, 1)] ∧
      ¬ CountsRises [((0 : ℚ), (1 : ℚ)), (1, 0), (2, 1)] := by
  refine ⟨by unfold Rising; decide, fun h => ?_⟩
  obtain ⟨⟨a, b⟩, ⟨hrise, -⟩, -⟩ := h.crossings 1 (by decide +kernel)
  have hneg := hrise.negative
  have hmem := hrise.left
  simp only [List.mem_cons, List.not_mem_nil, or_false] at hmem
  rcases hmem with rfl | rfl | rfl <;> norm_num at hneg

end Postprocessing
end OpenFoamAgent
