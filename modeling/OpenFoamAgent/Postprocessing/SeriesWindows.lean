/-
# The windows of a series

The rows that `clean_series` keeps are those whose time is below the time of every later
row, whatever the number of restarts (`cleanSeries_survivors`).

A series at rising times is a piecewise linear function, and `interpolate` reads it
(`interpolate_eq`). A window shows the same function, its integrals are the sums of those
of its parts and do not depend on the nodes, and so the mean of the difference of two
series is the difference of their means; the variance is that of the function
(`window_sound`). All of this is exact, in any field with an order.
-/
import Mathlib.Data.Rat.Sqrt
import OpenFoamAgent.Library.PiecewiseLinear
import OpenFoamAgent.Library.Survivors
import OpenFoamAgent.Library.Traversal
import OpenFoamAgent.Postprocessing.Quantities

namespace OpenFoamAgent
namespace Postprocessing

open Python Survivors PiecewiseLinear

/-! ### Restarts -/

theorem Cleaning.retained_note (c : Cleaning) (sample : Units × Units) :
    (c.note sample).retained = push Prod.fst c.retained sample := by
  rw [note, push]
  rcases List.eq_nil_or_concat c.retained with h | ⟨front, last, h⟩
  · rw [h]
    rfl
  · rw [List.concat_eq_append] at h
    rw [h, List.getLast?_concat]
    dsimp only
    by_cases hle : sample.1 ≤ last.1
    · rw [if_pos hle]
    · rw [if_neg hle, List.rdropWhile_concat_neg _ _ _ (by simpa using hle)]

theorem foldlM_note {tc vc : ℕ} {rows : List (List Binary64)} {samples : List (Units × Units)}
    (h : rows.mapM (readSeriesRow tc vc) = .ok samples) (c : Cleaning) :
    rows.foldlM (fun c row => (readSeriesRow tc vc row).map c.note) c =
      .ok (samples.foldl Cleaning.note c) := by
  induction Traversal.forall₂_of_mapM h generalizing c with
  | nil => rfl
  | @cons row sample rows samples hrow hrows ih =>
    rw [List.foldlM_cons, hrow]
    rw [List.mapM_cons] at h
    obtain ⟨sample', -, h⟩ := Traversal.bind_eq_ok.1 h
    obtain ⟨rest, hrest, h⟩ := Traversal.bind_eq_ok.1 h
    cases h
    exact ih hrest _

/-- **What survives the restarts.** The rows whose time is below the time of every later row, in
their order. -/
theorem cleanSeries_survivors {timeColumn valueColumn : ℕ} {rows : List (List Binary64)}
    {samples : List (Units × Units)}
    (h : rows.mapM (readSeriesRow timeColumn valueColumn) = .ok samples) :
    ∃ c, cleanSeries timeColumn valueColumn rows = .ok c ∧
      c.retained = survivors Prod.fst samples ∧ c.retained.Pairwise (·.1 < ·.1) := by
  have hretained : ∀ (samples : List (Units × Units)) (c : Cleaning),
      (samples.foldl Cleaning.note c).retained = samples.foldl (push Prod.fst) c.retained := by
    intro samples
    induction samples with
    | nil => exact fun _ => rfl
    | cons sample samples ih =>
      intro c
      rw [List.foldl_cons, ih, Cleaning.retained_note, List.foldl_cons]
  have hsurvivors : (samples.foldl Cleaning.note {}).retained = survivors Prod.fst samples := by
    rw [hretained, foldl_push]
  refine ⟨_, foldlM_note h {}, hsurvivors, ?_⟩
  rw [hsurvivors]
  exact pairwise_survivors Prod.fst samples

/-- A table with a restart at its third row, which is repeated once. -/
theorem cleanSeries_survivors_restarted :
    ∃ c, cleanSeries 0 1 (([(1, 5), (3, 6), (2, 7), (2, 8), (4, 9)] : List (ℕ × ℕ)).map fun row =>
        [.finite false row.1, .finite false row.2]) = .ok c ∧
      c.retained = survivors Prod.fst [(1, 5), (3, 6), (2, 7), (2, 8), (4, 9)] ∧
      c.retained.Pairwise (·.1 < ·.1) :=
  cleanSeries_survivors rfl

example : survivors Prod.fst [((1 : ℤ), 5), (3, 6), (2, 7), (2, 8), (4, 9)] =
    [(1, 5), (2, 8), (4, 9)] := by decide

section
variable {K : Type} [Field K] [LinearOrder K]

/-! ### Interpolation -/

/-- A value that is there, or the refusal to extrapolate. -/
def observed (value : Option K) : Except QuantityError K := value.elim (.error .outside) .ok

omit [Field K] [LinearOrder K] in
theorem observed_eq_ok {value : Option K} {y : K} : observed value = .ok y ↔ value = some y := by
  cases value <;> simp [observed]

omit [Field K] in
theorem bisectLeft_cons_of_lt {p : K × K} {t : K} (h : p.1 < t) (s : Series K) :
    bisectLeft (p :: s) t = bisectLeft s t + 1 := by
  rw [bisectLeft, List.findIdx_cons, decide_eq_false h.not_ge]
  rfl

omit [Field K] in
theorem bisectLeft_cons_of_le {p : K × K} {t : K} (h : t ≤ p.1) (s : Series K) :
    bisectLeft (p :: s) t = 0 := by
  rw [bisectLeft, List.findIdx_cons, decide_eq_true h]
  rfl

/-- `interpolate` reads the piecewise linear function through the nodes. -/
theorem interpolate_eq {s : Series K} (h : Rising s) (t : K) :
    interpolate s t = observed (valueAt s t) := by
  induction s with
  | nil => rfl
  | cons p s ih =>
    obtain ⟨hp, hs⟩ := List.pairwise_cons.1 h
    rcases lt_trichotomy t p.1 with ht | rfl | ht
    · rw [valueAt_of_lt ht, interpolate, bisectLeft_cons_of_le ht.le]
      simp [ht.ne', observed]
    · rw [valueAt_head, interpolate, bisectLeft_cons_of_le le_rfl]
      simp [observed]
    · cases s with
      | nil =>
        rw [interpolate, bisectLeft_cons_of_lt ht, valueAt, if_neg ht.ne']
        rfl
      | cons q s =>
        have hpq := hp q List.mem_cons_self
        rcases lt_or_ge t q.1 with hq | hq
        · rw [valueAt_between ht hq, interpolate, bisectLeft_cons_of_lt ht,
            bisectLeft_cons_of_le hq.le]
          simp [hq.ne', observed, line]
        · rw [valueAt_cons hpq hq, ← ih hs, interpolate, bisectLeft_cons_of_lt ht, interpolate]
          rcases hq.eq_or_lt with rfl | hlt
          · rw [bisectLeft_cons_of_le le_rfl]
            simp
          · rw [bisectLeft_cons_of_lt hlt]
            simp

/-- A time of the range of a series. -/
def InRange (s : Series K) (t : K) : Prop :=
  (∃ p ∈ s.head?, p.1 ≤ t) ∧ ∃ q ∈ s.getLast?, t ≤ q.1

theorem InRange.exists_value {s : Series K} {t : K} (h : InRange s t) (hs : Rising s) :
    ∃ y, valueAt s t = some y := by
  obtain ⟨⟨p, hp, hpt⟩, q, hq, htq⟩ := h
  cases s with
  | nil => cases hp
  | cons p' s =>
    obtain rfl := Option.some.inj hp
    rw [List.getLast?_eq_some_getLast (List.cons_ne_nil p' s)] at hq
    obtain rfl := Option.some.inj hq
    exact exists_valueAt hpt htq hs

/-! ### Windows -/

theorem window_eq {s : Series K} {x y : K × K} (hs : Rising s) (hx : valueAt s x.1 = some x.2)
    (hy : valueAt s y.1 = some y.2) (hxy : x.1 < y.1) :
    window s (some x.1) (some y.1) = .ok (windowOf s x y) := by
  cases s with
  | nil => cases hx
  | cons p s =>
    rw [window, List.head?_cons, List.getLast?_eq_some_getLast (List.cons_ne_nil p s)]
    simp only [Option.getD_some, if_neg hxy.not_gt, if_pos hxy]
    rw [interpolate_eq hs, interpolate_eq hs, hx, hy]
    rfl

theorem window_instant {s : Series K} {x : K × K} (hs : Rising s)
    (hx : valueAt s x.1 = some x.2) : window s (some x.1) (some x.1) = .ok [x] := by
  cases s with
  | nil => cases hx
  | cons p s =>
    have hnone : (p :: s).filter (fun row => x.1 < row.1 ∧ row.1 < x.1) = [] :=
      List.filter_eq_nil_iff.2 fun row _ => by
        rw [decide_eq_true_iff]
        exact fun h => h.1.not_gt h.2
    rw [window, List.head?_cons, List.getLast?_eq_some_getLast (List.cons_ne_nil p s)]
    simp only [Option.getD_some, lt_irrefl, if_false]
    rw [interpolate_eq hs, hx, hnone]
    rfl

/-! ### Sums -/

variable [IsStrictOrderedRing K]

theorem foldlM_add {s : Series K} (hs : Rising s) (sums : TimeSums K) :
    ∃ deltas, (s.zip s.tail).foldlM TimeSums.add sums =
      .ok ⟨sums.integral + overSegments area s, sums.square + overSegments squareArea s, deltas⟩ := by
  induction s generalizing sums with
  | nil => exact ⟨sums.deltas, by simp [overSegments]; rfl⟩
  | cons p s ih =>
    cases s with
    | nil => exact ⟨sums.deltas, by simp [overSegments]; rfl⟩
    | cons q s =>
      obtain ⟨hp, hs⟩ := List.pairwise_cons.1 hs
      have hdt : ¬ q.1 - p.1 ≤ 0 := by
        rw [sub_nonpos, not_le]
        exact hp q List.mem_cons_self
      obtain ⟨deltas, hrest⟩ := ih hs
        ⟨sums.integral + area p q, sums.square + squareArea p q, sums.deltas ++ [q.1 - p.1]⟩
      refine ⟨deltas, ?_⟩
      have hadd : sums.add (p, q) = .ok
          ⟨sums.integral + area p q, sums.square + squareArea p q, sums.deltas ++ [q.1 - p.1]⟩ := by
        rw [area_eq, squareArea_eq]
        exact if_neg hdt
      rw [List.tail_cons, List.zip_cons_cons, List.foldlM_cons, hadd, overSegments, overSegments,
        ← add_assoc, ← add_assoc]
      exact hrest

theorem timeSums_eq {s : Series K} (hs : Rising s) :
    ∃ deltas, timeSums s = .ok ⟨overSegments area s, overSegments squareArea s, deltas⟩ := by
  obtain ⟨deltas, h⟩ := foldlM_add hs ⟨0, 0, []⟩
  rw [zero_add, zero_add] at h
  exact ⟨deltas, h⟩

theorem timeStatistics_eq (sqrt : K → K) {s : Series K} {p q : K × K} (hs : Rising s)
    (hp : s.head? = some p) (hq : s.getLast? = some q) (hpq : p.1 < q.1) :
    ∃ stats, timeStatistics sqrt s = .ok stats ∧ stats.duration = q.1 - p.1 ∧
      stats.integral = overSegments area s ∧
      stats.timeMean = overSegments area s / (q.1 - p.1) ∧
      stats.fluctuationRms = sqrt (max 0
        (variance (overSegments area s) (overSegments squareArea s) (q.1 - p.1))) := by
  obtain ⟨deltas, hsums⟩ := timeSums_eq hs
  match s with
  | [] => cases hp
  | [r] =>
    obtain rfl := Option.some.inj hp
    obtain rfl := Option.some.inj hq
    exact absurd hpq (lt_irrefl _)
  | first :: second :: rest =>
    obtain rfl := Option.some.inj hp
    have hlast : (second :: rest).getLastD second = q := by
      rw [List.getLast?_cons_cons] at hq
      rw [List.getLastD_eq_getLast?, hq]
      rfl
    rw [timeStatistics]
    simp only [hlast, if_neg hpq.not_ge]
    rw [hsums]
    exact ⟨_, rfl, rfl, rfl, rfl, rfl⟩

/-! ### Differences -/

omit [Field K] [IsStrictOrderedRing K] in
theorem pairwise_timesOf (a b : Series K) : (timesOf a b).Pairwise (· < ·) := by
  have hle := List.pairwise_insertionSort (r := (· ≤ ·)) (a.map Prod.fst ++ b.map Prod.fst).dedup
  have hnodup : (timesOf a b).Nodup :=
    (List.perm_insertionSort _ _).nodup_iff.2 (List.nodup_dedup _)
  exact (hle.and hnodup).imp fun h => h.1.lt_of_ne h.2

omit [Field K] [IsStrictOrderedRing K] in
theorem mem_timesOf {a b : Series K} {t : K} :
    t ∈ timesOf a b ↔ (∃ x ∈ a, x.1 = t) ∨ ∃ x ∈ b, x.1 = t := by
  rw [timesOf, List.mem_insertionSort, List.mem_dedup, List.mem_append, List.mem_map, List.mem_map]

omit [Field K] [IsStrictOrderedRing K] in
theorem head?_times {ts : List K} {a : K} (ha : a ∈ ts) (h : ts.Pairwise (· < ·))
    (hle : ∀ t ∈ ts, a ≤ t) : ts.head? = some a := by
  cases ts with
  | nil => cases ha
  | cons t ts =>
    rcases List.mem_cons.1 ha with rfl | hmem
    · rfl
    · exact absurd ((List.pairwise_cons.1 h).1 a hmem) (hle t List.mem_cons_self).not_gt

omit [Field K] [IsStrictOrderedRing K] in
theorem getLast?_times {ts : List K} {b : K} (hb : b ∈ ts) (h : ts.Pairwise (· < ·))
    (hle : ∀ t ∈ ts, t ≤ b) : ts.getLast? = some b := by
  rcases List.eq_nil_or_concat ts with rfl | ⟨front, t, rfl⟩
  · cases hb
  · rw [List.concat_eq_append] at hb h hle ⊢
    rcases List.mem_append.1 hb with hmem | hmem
    · have hlt := (List.pairwise_append.1 h).2.2 b hmem t (List.mem_singleton_self t)
      exact absurd hlt (hle t (by simp)).not_gt
    · rw [List.getLast?_concat, List.mem_singleton.1 hmem]

/-- The nodes of a function at given times. -/
def nodesAt (ts : List K) (value : K → K) : Series K := ts.map fun t => (t, value t)

omit [Field K] [LinearOrder K] [IsStrictOrderedRing K] in
theorem head?_nodesAt {ts : List K} {t : K} (h : ts.head? = some t) (value : K → K) :
    (nodesAt ts value).head? = some (t, value t) := by
  rw [nodesAt, List.head?_map, h]
  rfl

omit [Field K] [LinearOrder K] [IsStrictOrderedRing K] in
theorem getLast?_nodesAt {ts : List K} {t : K} (h : ts.getLast? = some t) (value : K → K) :
    (nodesAt ts value).getLast? = some (t, value t) := by
  rw [nodesAt, List.getLast?_map, h]
  rfl

omit [Field K] [IsStrictOrderedRing K] in
theorem rising_nodesAt {ts : List K} (h : ts.Pairwise (· < ·)) (value : K → K) :
    Rising (nodesAt ts value) :=
  List.pairwise_map.2 h

omit [IsStrictOrderedRing K] in
theorem refines_nodesAt {w : Series K} {ts : List K} {value : K → K} (hw : Rising w)
    (hts : ts.Pairwise (· < ·)) (hsub : ∀ x ∈ w, x.1 ∈ ts)
    (hvalue : ∀ t ∈ ts, valueAt w t = some (value t)) : Refines w (nodesAt ts value) where
  rising := rising_nodesAt hts value
  subset x hx := by
    refine List.mem_map.2 ⟨x.1, hsub x hx, Prod.ext rfl (Option.some.inj ?_)⟩
    rw [← hvalue x.1 (hsub x hx), valueAt_of_mem hw hx]
  on x hx := by
    obtain ⟨t, ht, rfl⟩ := List.mem_map.1 hx
    exact hvalue t ht

/-- Two windows of one interval, and the difference at the times of both. -/
theorem differenceOf_eq {w v : Series K} {f g : K → K} (hw : Rising w) (hv : Rising v)
    (hf : ∀ t ∈ timesOf w v, valueAt w t = some (f t))
    (hg : ∀ t ∈ timesOf w v, valueAt v t = some (g t)) :
    differenceOf w v = .ok (nodesAt (timesOf w v) fun t => f t - g t) ∧
      overSegments area (nodesAt (timesOf w v) fun t => f t - g t) =
        overSegments area w - overSegments area v := by
  have hts := pairwise_timesOf w v
  have hw' := (refines_nodesAt hw hts (fun x hx => mem_timesOf.2 (.inl ⟨x, hx, rfl⟩)) hf).refined hw
  have hv' := (refines_nodesAt hv hts (fun x hx => mem_timesOf.2 (.inr ⟨x, hx, rfl⟩)) hg).refined hv
  constructor
  · refine Traversal.mapM_eq_ok fun t ht => ?_
    rw [interpolate_eq hw, interpolate_eq hv, hf t ht, hg t ht]
    rfl
  · rw [nodesAt, overSegments_area_sub, ← hw'.overSegments_eq area additive_area,
      ← hv'.overSegments_eq area additive_area]
    rfl

/-! ### Variance -/

/-- The variance is the mean square of the deviation. -/
theorem variance_eq {s : Series K} {p q : K × K} (hp : s.head? = some p) (hq : s.getLast? = some q)
    (hpq : p.1 < q.1) :
    variance (overSegments area s) (overSegments squareArea s) (q.1 - p.1) =
      overSegments squareArea (s.map fun x => (x.1, x.2 - overSegments area s / (q.1 - p.1))) /
        (q.1 - p.1) := by
  have hne : q.1 - p.1 ≠ 0 := (sub_pos.2 hpq).ne'
  cases s with
  | nil => cases hp
  | cons p' s =>
    obtain rfl := Option.some.inj hp
    rw [List.getLast?_eq_some_getLast (List.cons_ne_nil p' s)] at hq
    rw [overSegments_squareArea_sub, overSegments_span, Option.some.inj hq, variance]
    field_simp
    ring

theorem variance_nonneg {s : Series K} {p q : K × K} (hs : Rising s) (hp : s.head? = some p)
    (hq : s.getLast? = some q) (hpq : p.1 < q.1) :
    0 ≤ variance (overSegments area s) (overSegments squareArea s) (q.1 - p.1) := by
  rw [variance_eq hp hq hpq]
  exact div_nonneg (overSegments_squareArea_nonneg (List.pairwise_map.2 hs)) (sub_pos.2 hpq).le

/-- There is no variance where all nodes have one value. -/
theorem variance_eq_zero {s : Series K} {p q : K × K} (hs : Rising s) (hp : s.head? = some p)
    (hq : s.getLast? = some q) (hpq : p.1 < q.1) :
    variance (overSegments area s) (overSegments squareArea s) (q.1 - p.1) = 0 ↔
      ∀ x ∈ s, x.2 = overSegments area s / (q.1 - p.1) := by
  have hne : q.1 - p.1 ≠ 0 := (sub_pos.2 hpq).ne'
  rw [variance_eq hp hq hpq, div_eq_zero_iff, or_iff_left hne]
  match s with
  | [] => cases hp
  | [r] =>
    obtain rfl := Option.some.inj hp
    obtain rfl := Option.some.inj hq
    exact absurd hpq (lt_irrefl _)
  | first :: second :: rest =>
    generalize overSegments area (first :: second :: rest) / (q.1 - p.1) = mean
    have hrising : Rising ((first :: second :: rest).map fun x => (x.1, x.2 - mean)) :=
      List.pairwise_map.2 hs
    have hzero : overSegments squareArea ((first :: second :: rest).map fun x => (x.1, x.2 - mean)) =
        0 ↔ ∀ y ∈ (first :: second :: rest).map fun x => (x.1, x.2 - mean), y.2 = 0 :=
      overSegments_squareArea_eq_zero hrising
    rw [hzero, List.forall_mem_map]
    exact forall₂_congr fun x _ => sub_eq_zero

/-! ### The laws of a window -/

/-- A series with interpolated nodes put in. -/
structure Inserted (w w' : Series K) : Prop where
  rising : Rising w'
  subset : w ⊆ w'
  on : ∀ x ∈ w', interpolate w x.1 = .ok x.2

/-- What the analysis says of a window `w` of the series `s` from `a` to `b`, with the sums of its
segments. -/
structure SoundWindow (sqrt : K → K) (s : Series K) (a b : K) (w : Series K)
    (sums : TimeSums K) : Prop where
  /-- The window shows the function of the series. -/
  shows : ∀ t, a ≤ t → t ≤ b → interpolate w t = interpolate s t
  /-- Its integrals are those of its parts. -/
  splits : ∀ m, a < m → m < b → ∃ l r ls rs,
    window s (some a) (some m) = .ok l ∧ timeSums l = .ok ls ∧
      window s (some m) (some b) = .ok r ∧ timeSums r = .ok rs ∧
      sums.integral = ls.integral + rs.integral ∧ sums.square = ls.square + rs.square
  /-- They do not depend on the nodes. -/
  inserts : ∀ w', Inserted w w' → ∃ sums', timeSums w' = .ok sums' ∧
    sums'.integral = sums.integral ∧ sums'.square = sums.square
  /-- The mean of a difference is the difference of the means. -/
  means : a < b → ∀ other, Rising other → InRange other a → InRange other b →
    ∃ v d stats stats' stats'', window other (some a) (some b) = .ok v ∧ differenceOf w v = .ok d ∧
      timeStatistics sqrt w = .ok stats ∧ timeStatistics sqrt v = .ok stats' ∧
      timeStatistics sqrt d = .ok stats'' ∧ stats''.timeMean = stats.timeMean - stats'.timeMean
  /-- What is reported is the root of a variance that is never negative, and zero for constants
  only. -/
  varies : a < b → 0 ≤ variance sums.integral sums.square (b - a) ∧
    (variance sums.integral sums.square (b - a) = 0 ↔ ∀ t u, a ≤ t → t ≤ b → a ≤ u → u ≤ b →
      interpolate s t = interpolate s u) ∧
    ∃ stats, timeStatistics sqrt w = .ok stats ∧ stats.integral = sums.integral ∧
      stats.fluctuationRms = sqrt (variance sums.integral sums.square (b - a))

/-- The sums of a series with more nodes. -/
theorem Inserted.sums {w w' : Series K} (hw : Rising w) (h : Inserted w w') :
    ∃ sums', timeSums w' = .ok sums' ∧ sums'.integral = overSegments area w ∧
      sums'.square = overSegments squareArea w := by
  have hrefines : Refines w w' := ⟨h.rising, h.subset, fun x hx => by
    rw [← observed_eq_ok, ← interpolate_eq hw, h.on x hx]⟩
  have hrefined := hrefines.refined hw
  obtain ⟨deltas, hsums⟩ := timeSums_eq h.rising
  exact ⟨_, hsums, hrefined.overSegments_eq area additive_area,
    hrefined.overSegments_eq squareArea additive_squareArea⟩

/-- The mean of the difference of two windows. -/
theorem windowOf_means (sqrt : K → K) {s other : Series K} {x y x' y' : K × K} (hs : Rising s)
    (ho : Rising other) (hx : valueAt s x.1 = some x.2) (hy : valueAt s y.1 = some y.2)
    (hx' : valueAt other x.1 = some x'.2) (hy' : valueAt other y.1 = some y'.2)
    (hxx : x'.1 = x.1) (hyy : y'.1 = y.1) (hxy : x.1 < y.1) :
    ∃ d stats stats' stats'', differenceOf (windowOf s x y) (windowOf other x' y') = .ok d ∧
      timeStatistics sqrt (windowOf s x y) = .ok stats ∧
      timeStatistics sqrt (windowOf other x' y') = .ok stats' ∧
      timeStatistics sqrt d = .ok stats'' ∧ stats''.timeMean = stats.timeMean - stats'.timeMean := by
  have hxy' : x'.1 < y'.1 := by rwa [hxx, hyy]
  rw [← hxx] at hx'
  rw [← hyy] at hy'
  have hw := rising_windowOf hs hxy
  have hv := rising_windowOf ho hxy'
  have hrange : ∀ t ∈ timesOf (windowOf s x y) (windowOf other x' y'), x.1 ≤ t ∧ t ≤ y.1 := by
    intro t ht
    rcases mem_timesOf.1 ht with ⟨z, hz, rfl⟩ | ⟨z, hz, rfl⟩
    · exact range_of_mem_windowOf hxy hz
    · rw [← hxx, ← hyy]
      exact range_of_mem_windowOf hxy' hz
  have hvalues : ∀ {s : Series K} {x y : K × K}, Rising s → valueAt s x.1 = some x.2 →
      valueAt s y.1 = some y.2 → x.1 < y.1 → ∀ t, x.1 ≤ t → t ≤ y.1 →
        valueAt (windowOf s x y) t = some ((valueAt (windowOf s x y) t).getD 0) := by
    intro s x y hs hx hy hxy t hxt hty
    have hrange : InRange (windowOf s x y) t := ⟨⟨x, rfl, hxt⟩, y, getLast?_windowOf s x y, hty⟩
    obtain ⟨z, hz⟩ := hrange.exists_value (rising_windowOf hs hxy)
    rw [hz, Option.getD_some]
  obtain ⟨hd, harea⟩ := differenceOf_eq hw hv
    (fun t ht => hvalues hs hx hy hxy t (hrange t ht).1 (hrange t ht).2)
    (fun t ht => hvalues ho hx' hy' hxy' t (hxx ▸ (hrange t ht).1) (hyy ▸ (hrange t ht).2))
  have htimes := pairwise_timesOf (windowOf s x y) (windowOf other x' y')
  have hhead := head?_times (mem_timesOf.2 (.inl ⟨x, mem_windowOf.2 (.inl rfl), rfl⟩)) htimes
    fun t ht => (hrange t ht).1
  have hlast := getLast?_times
    (mem_timesOf.2 (.inl ⟨y, mem_windowOf.2 (.inr (.inr rfl)), rfl⟩)) htimes
    fun t ht => (hrange t ht).2
  obtain ⟨stats, hstats, -, -, hmean, -⟩ :=
    timeStatistics_eq sqrt hw rfl (getLast?_windowOf s x y) hxy
  obtain ⟨stats', hstats', -, -, hmean', -⟩ :=
    timeStatistics_eq sqrt hv rfl (getLast?_windowOf other x' y') hxy'
  obtain ⟨stats'', hstats'', -, -, hmean'', -⟩ := timeStatistics_eq sqrt
    (rising_nodesAt htimes _) (head?_nodesAt hhead _) (getLast?_nodesAt hlast _) hxy
  refine ⟨_, stats, stats', stats'', hd, hstats, hstats', hstats'', ?_⟩
  rw [hmean'', hmean, hmean', harea, hxx, hyy]
  exact sub_div _ _ _

/-- A window has no variance where the function of the series is constant in it. -/
theorem windowOf_constant {s : Series K} {x y : K × K} (hs : Rising s)
    (hx : valueAt s x.1 = some x.2) (hy : valueAt s y.1 = some y.2) (hxy : x.1 < y.1) :
    variance (overSegments area (windowOf s x y)) (overSegments squareArea (windowOf s x y))
        (y.1 - x.1) = 0 ↔
      ∀ t u, x.1 ≤ t → t ≤ y.1 → x.1 ≤ u → u ≤ y.1 → interpolate s t = interpolate s u := by
  have hw := rising_windowOf hs hxy
  have hspan : overSegments (fun p q => q.1 - p.1) (windowOf s x y) = y.1 - x.1 := by
    rw [windowOf, overSegments_span]
    simp
  rw [variance_eq_zero hw rfl (getLast?_windowOf s x y) hxy]
  constructor
  · intro hall
    have hvalue : ∀ t, x.1 ≤ t → t ≤ y.1 → valueAt s t =
        some (overSegments area (windowOf s x y) / (y.1 - x.1)) := by
      intro t hxt hty
      rw [← valueAt_windowOf hs hx hy hxy hxt hty]
      exact valueAt_of_constant hw hall ⟨x, rfl, hxt⟩ ⟨y, getLast?_windowOf s x y, hty⟩
    intro t u hxt hty hxu huy
    rw [interpolate_eq hs, interpolate_eq hs, hvalue t hxt hty, hvalue u hxu huy]
  · intro hall
    have hnode : ∀ z ∈ windowOf s x y, z.2 = x.2 := by
      intro z hz
      obtain ⟨hxz, hzy⟩ := range_of_mem_windowOf hxy hz
      have heq := hall z.1 x.1 hxz hzy le_rfl hxy.le
      rw [interpolate_eq hs, interpolate_eq hs, ← valueAt_windowOf hs hx hy hxy hxz hzy,
        valueAt_of_mem hw hz, hx] at heq
      exact Except.ok.inj heq
    have hne : y.1 - x.1 ≠ 0 := (sub_pos.2 hxy).ne'
    intro z hz
    rw [hnode z hz, overSegments_area_constant hnode, hspan, mul_div_cancel_right₀ _ hne]

/-- **The windows of a series.** Every window inside the range of a rising series can be cut out,
and obeys the laws of the function that the series stands for. -/
theorem window_sound (sqrt : K → K) {s : Series K} {a b : K} (hs : Rising s) (hab : a ≤ b)
    (ha : InRange s a) (hb : InRange s b) :
    ∃ w sums, window s (some a) (some b) = .ok w ∧ timeSums w = .ok sums ∧
      SoundWindow sqrt s a b w sums := by
  obtain ⟨ya, hya⟩ := ha.exists_value hs
  obtain ⟨yb, hyb⟩ := hb.exists_value hs
  rcases hab.eq_or_lt with rfl | hlt
  · have hw : Rising [(a, ya)] := List.pairwise_singleton _ _
    refine ⟨[(a, ya)], ⟨0, 0, []⟩, window_instant (x := (a, ya)) hs hya, rfl, ?_, ?_, ?_, ?_, ?_⟩
    · intro t hat hta
      obtain rfl := le_antisymm hat hta
      rw [interpolate_eq hs, interpolate_eq hw, hya]
      exact congrArg observed (valueAt_head (a, ya) [])
    · exact fun m ham hma => absurd ham hma.not_gt
    · exact fun w' h => h.sums hw
    · exact fun h => absurd h (lt_irrefl a)
    · exact fun h => absurd h (lt_irrefl a)
  · have hx : valueAt s (a, ya).1 = some (a, ya).2 := hya
    have hy : valueAt s (b, yb).1 = some (b, yb).2 := hyb
    have hw := rising_windowOf (x := (a, ya)) (y := (b, yb)) hs hlt
    obtain ⟨deltas, hsums⟩ := timeSums_eq hw
    have hlast := getLast?_windowOf s (a, ya) (b, yb)
    refine ⟨_, _, window_eq hs hx hy hlt, hsums, ?_, ?_, ?_, ?_, ?_⟩
    · intro t hat htb
      rw [interpolate_eq hs, interpolate_eq hw, valueAt_windowOf hs hx hy hlt hat htb]
    · intro m ham hmb
      obtain ⟨ym, hym⟩ := InRange.exists_value (s := s) (t := m)
        ⟨ha.1.imp fun p hp => ⟨hp.1, hp.2.trans ham.le⟩,
          hb.2.imp fun q hq => ⟨hq.1, hmb.le.trans hq.2⟩⟩ hs
      have hm : valueAt s (m, ym).1 = some (m, ym).2 := hym
      obtain ⟨dl, hl⟩ := timeSums_eq (rising_windowOf (x := (a, ya)) (y := (m, ym)) hs ham)
      obtain ⟨dr, hr⟩ := timeSums_eq (rising_windowOf (x := (m, ym)) (y := (b, yb)) hs hmb)
      exact ⟨_, _, _, _, window_eq hs hx hm ham, hl, window_eq hs hm hy hmb, hr,
        overSegments_windowOf hs hx hm hy ham hmb additive_area,
        overSegments_windowOf hs hx hm hy ham hmb additive_squareArea⟩
    · exact fun w' h => h.sums hw
    · intro _ other ho ha' hb'
      obtain ⟨za, hza⟩ := ha'.exists_value ho
      obtain ⟨zb, hzb⟩ := hb'.exists_value ho
      have hza : valueAt other (a, za).1 = some (a, za).2 := hza
      have hzb : valueAt other (b, zb).1 = some (b, zb).2 := hzb
      obtain ⟨d, stats, stats', stats'', hd, hstats⟩ := windowOf_means sqrt
        hs ho hx hy hza hzb rfl rfl hlt
      exact ⟨_, d, stats, stats', stats'', window_eq ho hza hzb hlt, hd, hstats⟩
    · intro _
      have hnonneg := variance_nonneg hw rfl hlast hlt
      obtain ⟨stats, hstats, -, hintegral, -, hrms⟩ := timeStatistics_eq sqrt hw rfl hlast hlt
      refine ⟨hnonneg, windowOf_constant hs hx hy hlt, stats, hstats, hintegral, ?_⟩
      rw [hrms, max_eq_right hnonneg]

end

/-- A series that is cut between its first two nodes; the variance of the window is `1 / 9`. -/
theorem window_sound_step :
    ∃ w sums, window [((-1 : ℚ), (1 : ℚ)), (1, 1), (3, 0), (4, 2)] (some 0) (some 3) = .ok w ∧
      timeSums w = .ok sums ∧
      SoundWindow Rat.sqrt [(-1, 1), (1, 1), (3, 0), (4, 2)] 0 3 w sums :=
  window_sound Rat.sqrt (by norm_num [Rising]) (by norm_num)
    ⟨⟨(-1, 1), rfl, by norm_num⟩, (4, 2), rfl, by norm_num⟩
    ⟨⟨(-1, 1), rfl, by norm_num⟩, (4, 2), rfl, by norm_num⟩

end Postprocessing
end OpenFoamAgent
