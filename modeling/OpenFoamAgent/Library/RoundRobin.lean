/-
# Taking turns

Several sources are read in turns, one item each, until a budget is spent or all of them
are exhausted. A source is exhausted when a turn of it finds nothing left.

Whatever is done with the items, it is done with the taken ones, each once (`Scanned.visits`).
The counts of two sources differ by one at most, unless the one with fewer is exhausted
(`Scanned.fair`). The argument is about the round: before it every source that still has
items has given the same number of them (`Level`).
-/
import Mathlib.Algebra.BigOperators.Group.List.Basic
import Mathlib.Algebra.Order.BigOperators.Group.List
import Mathlib.Algebra.Order.Group.Nat
import Mathlib.Algebra.Ring.Nat

namespace OpenFoamAgent
namespace RoundRobin

variable {ι α σ : Type}

/-- A source of items: those taken so far, those still to come, and whether a turn found
nothing. -/
structure Source (ι α : Type) where
  label : ι
  taken : List α := []
  rest : List α
  exhausted : Bool := false

/-- A source at which nothing was taken yet. -/
def Source.ofItems (label : ι) (items : List α) : Source ι α := { label, rest := items }

/-- The label of a source and all of its items. -/
def Source.whole (q : Source ι α) : ι × List α := (q.label, q.taken ++ q.rest)

/-- The items taken from a source, under its label. -/
def Source.visited (q : Source ι α) : List (ι × α) := q.taken.map (Prod.mk q.label)

variable (act : ι → α → σ → σ) (budget : ℕ)

/-- The turn of one source; `t` is the number of items taken from all of them, and what was
made of them. -/
def visit (q : Source ι α) (t : ℕ × σ) : Source ι α × (ℕ × σ) :=
  if q.exhausted = true ∨ budget ≤ t.1 then (q, t)
  else
    match q.rest with
    | [] => ({ q with exhausted := true }, t)
    | a :: rest => ({ q with taken := q.taken ++ [a], rest }, (t.1 + 1, act q.label a t.2))

/-- One turn of every source. -/
def pass : List (Source ι α) → ℕ × σ → List (Source ι α) × (ℕ × σ)
  | [], t => ([], t)
  | q :: qs, t =>
    let v := visit act budget q t
    let p := pass qs v.2
    (v.1 :: p.1, p.2)

/-- Rounds go on while there is budget and a source that is not exhausted. -/
def rounds : ℕ → List (Source ι α) → ℕ × σ → List (Source ι α) × (ℕ × σ)
  | 0, qs, t => (qs, t)
  | n + 1, qs, t =>
    if t.1 < budget ∧ qs.any (!·.exhausted) = true then
      let p := pass act budget qs t
      rounds n p.1 p.2
    else (qs, t)

/-- The turns that a source can still have. -/
def turns (q : Source ι α) : ℕ := q.rest.length + if q.exhausted then 0 else 1

/-- The whole scan: there are no more rounds than turns. -/
def scan (qs : List (Source ι α)) (s : σ) : List (Source ι α) × (ℕ × σ) :=
  rounds act budget (qs.map turns).sum qs (0, s)

variable {act budget}

/-! ### One turn -/

variable (act budget) in
/-- What a turn does: nothing, or it finds the source exhausted, or it takes an item. -/
theorem visit_cases (q : Source ι α) (t : ℕ × σ) :
    ((q.exhausted = true ∨ budget ≤ t.1) ∧ visit act budget q t = (q, t)) ∨
      (q.exhausted = false ∧ t.1 < budget ∧ q.rest = [] ∧
        visit act budget q t = ({ q with exhausted := true }, t)) ∨
      (q.exhausted = false ∧ t.1 < budget ∧ ∃ a rest, q.rest = a :: rest ∧
        visit act budget q t =
          ({ q with taken := q.taken ++ [a], rest }, (t.1 + 1, act q.label a t.2))) := by
  unfold visit
  by_cases h : q.exhausted = true ∨ budget ≤ t.1
  · rw [if_pos h]
    exact .inl ⟨h, rfl⟩
  · rw [if_neg h]
    have hfresh : q.exhausted = false := Bool.eq_false_iff.2 fun he => h (.inl he)
    have hroom : t.1 < budget := Nat.lt_of_not_le fun hb => h (.inr hb)
    rcases hrest : q.rest with _ | ⟨a, rest⟩
    · exact .inr (.inl ⟨hfresh, hroom, rfl, rfl⟩)
    · exact .inr (.inr ⟨hfresh, hroom, a, rest, rfl, rfl⟩)

/-! ### What was made of the items -/

/-- The items of `vs` were taken one after the other between two states of a scan. -/
structure Visits (act : ι → α → σ → σ) (before after : List (Source ι α) × (ℕ × σ))
    (vs : List (ι × α)) : Prop where
  wholes : after.1.map Source.whole = before.1.map Source.whole
  total : after.2.1 = before.2.1 + vs.length
  result : after.2.2 = vs.foldl (fun s v => act v.1 v.2 s) before.2.2
  taken : (after.1.flatMap Source.visited).Perm (before.1.flatMap Source.visited ++ vs)

theorem Visits.refl (p : List (Source ι α) × (ℕ × σ)) : Visits act p p [] :=
  ⟨rfl, rfl, rfl, by rw [List.append_nil]⟩

theorem Visits.trans {p q r : List (Source ι α) × (ℕ × σ)} {vs ws : List (ι × α)}
    (h : Visits act p q vs) (k : Visits act q r ws) : Visits act p r (vs ++ ws) where
  wholes := k.wholes.trans h.wholes
  total := by rw [k.total, h.total, List.length_append, Nat.add_assoc]
  result := by rw [k.result, h.result, List.foldl_append]
  taken := by
    rw [← List.append_assoc]
    exact k.taken.trans (h.taken.append_right ws)

variable (act budget) in
theorem visits_visit (q : Source ι α) (t : ℕ × σ) :
    ∃ vs, Visits act ([q], t) ([(visit act budget q t).1], (visit act budget q t).2) vs := by
  rcases visit_cases act budget q t with
    ⟨-, h⟩ | ⟨-, -, -, h⟩ | ⟨-, -, a, rest, hrest, h⟩
  · rw [h]
    exact ⟨[], .refl _⟩
  · rw [h]
    exact ⟨[], rfl, rfl, rfl, by simp [Source.visited]⟩
  · rw [h]
    refine ⟨[(q.label, a)], ?_, rfl, rfl, ?_⟩
    · simp [Source.whole, hrest]
    · simp [Source.visited]

/-- The turn of the first source, and then those of the others. -/
theorem Visits.cons {q q' : Source ι α} {qs qs' : List (Source ι α)} {t t' t'' : ℕ × σ}
    {vs ws : List (ι × α)} (h : Visits act ([q], t) ([q'], t') vs)
    (k : Visits act (qs, t') (qs', t'') ws) :
    Visits act (q :: qs, t) (q' :: qs', t'') (vs ++ ws) where
  wholes := by
    have hhead := h.wholes
    have htail := k.wholes
    simp only [List.map_cons, List.map_nil, List.cons.injEq, and_true] at hhead htail ⊢
    exact ⟨hhead, htail⟩
  total := by rw [k.total, h.total, List.length_append, Nat.add_assoc]
  result := by rw [k.result, h.result, List.foldl_append]
  taken := by
    have hhead := h.taken
    have htail := k.taken
    simp only [List.flatMap_cons, List.flatMap_nil, List.append_nil] at hhead htail ⊢
    have hswap : (q.visited ++ vs ++ (qs.flatMap Source.visited ++ ws)).Perm
        (q.visited ++ qs.flatMap Source.visited ++ (vs ++ ws)) := by
      rw [List.append_assoc, List.append_assoc, ← List.append_assoc vs,
        ← List.append_assoc (qs.flatMap Source.visited)]
      exact (List.perm_append_comm.append_right ws).append_left q.visited
    exact (hhead.append htail).trans hswap

variable (act budget) in
theorem visits_pass (qs : List (Source ι α)) (t : ℕ × σ) :
    ∃ vs, Visits act (qs, t) (pass act budget qs t) vs := by
  induction qs generalizing t with
  | nil => exact ⟨[], .refl _⟩
  | cons q qs ih =>
    obtain ⟨vs, hvs⟩ := visits_visit act budget q t
    obtain ⟨ws, hws⟩ := ih (visit act budget q t).2
    exact ⟨vs ++ ws, hvs.cons hws⟩

variable (act budget) in
theorem visits_rounds (n : ℕ) (qs : List (Source ι α)) (t : ℕ × σ) :
    ∃ vs, Visits act (qs, t) (rounds act budget n qs t) vs := by
  induction n generalizing qs t with
  | zero => exact ⟨[], .refl _⟩
  | succ n ih =>
    rw [rounds]
    split_ifs
    · obtain ⟨vs, hvs⟩ := visits_pass act budget qs t
      obtain ⟨ws, hws⟩ := ih (pass act budget qs t).1 (pass act budget qs t).2
      exact ⟨vs ++ ws, hvs.trans hws⟩
    · exact ⟨[], .refl _⟩

/-! ### Two scans of the same sources -/

section
variable {τ : Type} {act' : ι → α → τ → τ} {R : σ → τ → Prop}

/-- Two states of a scan: as many items were taken, and what was made of them is related. -/
def Related (R : σ → τ → Prop) (t : ℕ × σ) (t' : ℕ × τ) : Prop := t.1 = t'.1 ∧ R t.2 t'.2

variable (hact : ∀ i a s s', R s s' → R (act i a s) (act' i a s'))
include hact

variable (budget) in
theorem visit_related (q : Source ι α) {t : ℕ × σ} {t' : ℕ × τ} (h : Related R t t') :
    (visit act budget q t).1 = (visit act' budget q t').1 ∧
      Related R (visit act budget q t).2 (visit act' budget q t').2 := by
  unfold visit
  rw [← h.1]
  split_ifs
  · exact ⟨rfl, h⟩
  · rcases q.rest with _ | ⟨a, rest⟩
    · exact ⟨rfl, h⟩
    · exact ⟨rfl, rfl, hact _ _ _ _ h.2⟩

variable (budget) in
theorem pass_related (qs : List (Source ι α)) {t : ℕ × σ} {t' : ℕ × τ} (h : Related R t t') :
    (pass act budget qs t).1 = (pass act' budget qs t').1 ∧
      Related R (pass act budget qs t).2 (pass act' budget qs t').2 := by
  induction qs generalizing t t' with
  | nil => exact ⟨rfl, h⟩
  | cons q qs ih =>
    obtain ⟨hq, ht⟩ := visit_related budget hact q h
    obtain ⟨hqs, ht'⟩ := ih ht
    exact ⟨congrArg₂ List.cons hq hqs, ht'⟩

variable (budget) in
theorem rounds_related (n : ℕ) (qs : List (Source ι α)) {t : ℕ × σ} {t' : ℕ × τ}
    (h : Related R t t') :
    (rounds act budget n qs t).1 = (rounds act' budget n qs t').1 ∧
      Related R (rounds act budget n qs t).2 (rounds act' budget n qs t').2 := by
  induction n generalizing qs t t' with
  | zero => exact ⟨rfl, h⟩
  | succ n ih =>
    rw [rounds, rounds, ← h.1]
    split_ifs
    · obtain ⟨hqs, ht⟩ := pass_related budget hact qs h
      dsimp only
      rw [← hqs]
      exact ih _ ht
    · exact ⟨rfl, h⟩

variable (budget) in
/-- Which items are taken does not depend on what is made of them. -/
theorem scan_related (qs : List (Source ι α)) {s : σ} {s' : τ} (h : R s s') :
    (scan act budget qs s).1 = (scan act' budget qs s').1 ∧
      R (scan act budget qs s).2.2 (scan act' budget qs s').2.2 := by
  obtain ⟨hqs, -, hstate⟩ := rounds_related budget hact (qs.map turns).sum qs
    (show Related R (0, s) (0, s') from ⟨rfl, h⟩)
  exact ⟨hqs, hstate⟩

end

/-! ### The rounds -/

/-- Before a round: a source that is not exhausted has given `r` items; an exhausted one has
given no more and has nothing left. -/
structure AtLevel (r : ℕ) (q : Source ι α) : Prop where
  fresh : q.exhausted = false → q.taken.length = r
  exhausted : q.exhausted = true → q.taken.length ≤ r ∧ q.rest = []

/-- In a round, and where the budget ends in one: a source has given what it had given before or
one item more. -/
structure NearLevel (r : ℕ) (q : Source ι α) : Prop where
  fresh : q.exhausted = false → q.taken.length = r ∨ q.taken.length = r + 1
  exhausted : q.exhausted = true → q.taken.length ≤ r ∧ q.rest = []

theorem AtLevel.near {r : ℕ} {q : Source ι α} (h : AtLevel r q) : NearLevel r q :=
  ⟨fun hq => .inl (h.fresh hq), h.exhausted⟩

variable (act budget) in
/-- The turn of one source at a level. -/
theorem AtLevel.visit {r : ℕ} {q : Source ι α} (h : AtLevel r q) (t : ℕ × σ) :
    NearLevel r (visit act budget q t).1 ∧
      (t.1 < budget → AtLevel (r + 1) (RoundRobin.visit act budget q t).1) := by
  rcases visit_cases act budget q t with
    ⟨hwhy, hv⟩ | ⟨hq, -, hrest, hv⟩ | ⟨hq, -, a, rest, -, hv⟩
  · rw [hv]
    refine ⟨h.near, fun hroom => ?_⟩
    have he : q.exhausted = true := hwhy.resolve_right hroom.not_ge
    obtain ⟨hle, hrest⟩ := h.exhausted he
    exact ⟨fun hq => absurd he (by rw [hq]; exact Bool.false_ne_true),
      fun _ => ⟨hle.trans r.le_succ, hrest⟩⟩
  · rw [hv]
    have hle := (h.fresh hq).le
    exact ⟨⟨fun hf => (by cases hf), fun _ => ⟨hle, hrest⟩⟩,
      fun _ => ⟨fun hf => (by cases hf), fun _ => ⟨hle.trans r.le_succ, hrest⟩⟩⟩
  · rw [hv]
    have hlength : (q.taken ++ [a]).length = r + 1 := by
      rw [List.length_append, h.fresh hq, List.length_singleton]
    have hnot : ∀ {P : Prop}, q.exhausted = true → P := by
      intro P he
      rw [hq] at he
      cases he
    exact ⟨⟨fun _ => .inr hlength, hnot⟩, fun _ => ⟨fun _ => hlength, hnot⟩⟩

variable (act budget) in
/-- One round, from a level: the sources lie between it and the next, and where the budget
lasted they are at the next. -/
theorem level_pass {r : ℕ} {qs : List (Source ι α)} (h : ∀ q ∈ qs, AtLevel r q) (t : ℕ × σ) :
    (∀ q ∈ (pass act budget qs t).1, NearLevel r q) ∧
      ((pass act budget qs t).2.1 < budget →
        ∀ q ∈ (pass act budget qs t).1, AtLevel (r + 1) q) := by
  induction qs generalizing t with
  | nil => exact ⟨List.forall_mem_nil _, fun _ => List.forall_mem_nil _⟩
  | cons q qs ih =>
    obtain ⟨hq, hqs⟩ := List.forall_mem_cons.1 h
    obtain ⟨hnear, hnext⟩ := hq.visit act budget t
    obtain ⟨hnear', hnext'⟩ := ih hqs (visit act budget q t).2
    refine ⟨List.forall_mem_cons.2 ⟨hnear, hnear'⟩, fun hroom =>
      List.forall_mem_cons.2 ⟨hnext ?_, hnext' hroom⟩⟩
    obtain ⟨vs, hvs⟩ := visits_pass act budget (q :: qs) t
    have htotal := hvs.total
    dsimp only at htotal
    omega

variable (act budget) in
/-- The rounds, from a level: the sources lie between one level and the next. -/
theorem level_rounds (n : ℕ) {r : ℕ} {qs : List (Source ι α)} (h : ∀ q ∈ qs, AtLevel r q)
    (t : ℕ × σ) : ∃ r', ∀ q ∈ (rounds act budget n qs t).1, NearLevel r' q := by
  induction n generalizing r qs t with
  | zero => exact ⟨r, fun q hq => (h q hq).near⟩
  | succ n ih =>
    rw [rounds]
    split_ifs
    · obtain ⟨hnear, hnext⟩ := level_pass act budget h t
      by_cases hroom : (pass act budget qs t).2.1 < budget
      · exact ih (hnext hroom) _
      · cases n with
        | zero => exact ⟨r, hnear⟩
        | succ n =>
          dsimp only
          rw [rounds, if_neg fun hc => hroom hc.1]
          exact ⟨r, hnear⟩
    · exact ⟨r, fun q hq => (h q hq).near⟩

/-- Of two sources near one level the one with fewer items is exhausted, unless the counts
differ by one at most. -/
theorem NearLevel.fair {r : ℕ} {p q : Source ι α} (hp : NearLevel r p) (hq : NearLevel r q)
    (h : p.taken.length + 1 < q.taken.length) : p.exhausted = true := by
  by_contra hfresh
  have hlow := hp.fresh (Bool.eq_false_iff.2 hfresh)
  have hhigh : q.taken.length ≤ r + 1 := by
    by_cases he : q.exhausted = true
    · exact (hq.exhausted he).1.trans r.le_succ
    · rcases hq.fresh (Bool.eq_false_iff.2 he) with heq | heq
      · exact heq.le.trans r.le_succ
      · exact heq.le
  omega

/-! ### The budget and the end -/

theorem visit_total_le {q : Source ι α} {t : ℕ × σ} (h : t.1 ≤ budget) :
    (visit act budget q t).2.1 ≤ budget := by
  rcases visit_cases act budget q t with
    ⟨-, hv⟩ | ⟨-, -, -, hv⟩ | ⟨-, hroom, a, rest, -, hv⟩
  · rwa [hv]
  · rwa [hv]
  · rw [hv]
    exact hroom

theorem pass_total_le {qs : List (Source ι α)} {t : ℕ × σ} (h : t.1 ≤ budget) :
    (pass act budget qs t).2.1 ≤ budget := by
  induction qs generalizing t with
  | nil => exact h
  | cons q qs ih => exact ih (visit_total_le h)

theorem rounds_total_le {n : ℕ} {qs : List (Source ι α)} {t : ℕ × σ} (h : t.1 ≤ budget) :
    (rounds act budget n qs t).2.1 ≤ budget := by
  induction n generalizing qs t with
  | zero => exact h
  | succ n ih =>
    rw [rounds]
    split_ifs
    · exact ih (pass_total_le h)
    · exact h

variable (act budget) in
/-- A turn takes one of the turns that are left, if there is budget. -/
theorem turns_visit (q : Source ι α) (t : ℕ × σ) :
    turns (visit act budget q t).1 ≤ turns q ∧
      (q.exhausted = false → t.1 < budget → turns (visit act budget q t).1 < turns q) := by
  rcases visit_cases act budget q t with
    ⟨hwhy, h⟩ | ⟨hq, -, hrest, h⟩ | ⟨hq, -, a, rest, hrest, h⟩
  · rw [h]
    refine ⟨le_rfl, fun hq hroom => ?_⟩
    rcases hwhy with he | hb
    · rw [hq] at he
      cases he
    · exact absurd hb hroom.not_ge
  · rw [h]
    simp [turns, hq]
  · rw [h]
    simp [turns, hq, hrest]

theorem turns_pass (qs : List (Source ι α)) (t : ℕ × σ) :
    ((pass act budget qs t).1.map turns).sum ≤ (qs.map turns).sum ∧
      (qs.any (!·.exhausted) = true → t.1 < budget →
        ((pass act budget qs t).1.map turns).sum < (qs.map turns).sum) := by
  induction qs generalizing t with
  | nil => exact ⟨le_rfl, fun h => by cases h⟩
  | cons q qs ih =>
    obtain ⟨hle, hlt⟩ := turns_visit act budget q t
    obtain ⟨hle', hlt'⟩ := ih (visit act budget q t).2
    simp only [pass, List.map_cons, List.sum_cons]
    refine ⟨Nat.add_le_add hle hle', fun hany hroom => ?_⟩
    by_cases hq : q.exhausted = true
    · have hskip : visit act budget q t = (q, t) := by
        rw [visit, if_pos (.inl hq)]
      rw [List.any_cons, hq, Bool.not_true, Bool.false_or] at hany
      rw [hskip] at hle hlt' ⊢
      exact Nat.add_lt_add_of_le_of_lt hle (hlt' hany hroom)
    · exact Nat.add_lt_add_of_lt_of_le (hlt (Bool.eq_false_iff.2 hq) hroom) hle'

/-- With as many rounds as there are turns left, the rounds end by themselves. -/
theorem rounds_end {n : ℕ} {qs : List (Source ι α)} {t : ℕ × σ} (h : (qs.map turns).sum ≤ n) :
    ¬ ((rounds act budget n qs t).2.1 < budget ∧
      (rounds act budget n qs t).1.any (!·.exhausted) = true) := by
  induction n generalizing qs t with
  | zero =>
    rintro ⟨-, hany⟩
    obtain ⟨q, hq, hfresh⟩ := List.any_eq_true.1 hany
    have hzero := List.sum_eq_zero_iff.1 (Nat.le_zero.1 h) (turns q) (List.mem_map_of_mem hq)
    simp only [Bool.not_eq_true'] at hfresh
    simp [turns, hfresh] at hzero
  | succ n ih =>
    rw [rounds]
    split_ifs with hgo
    · refine ih (Nat.le_of_lt_succ (lt_of_lt_of_le ?_ h))
      exact (turns_pass qs t).2 hgo.2 hgo.1
    · exact hgo

/-! ### The scan -/

/-- What a scan of fresh sources has done, which has the sources `qs` and the state `s'` at its
end: `vs` are the items it took, in the order it took them. -/
structure Scanned (act : ι → α → σ → σ) (budget : ℕ) (sources : List (ι × List α)) (s : σ)
    (qs : List (Source ι α)) (s' : σ) (vs : List (ι × α)) : Prop where
  wholes : qs.map Source.whole = sources
  bounded : vs.length ≤ budget
  result : s' = vs.foldl (fun s v => act v.1 v.2 s) s
  visits : vs.Perm (qs.flatMap Source.visited)
  fair : ∀ p ∈ qs, ∀ q ∈ qs, p.taken.length + 1 < q.taken.length → p.exhausted = true
  exhausted : ∀ q ∈ qs, q.exhausted = true → q.rest = []
  complete : vs.length = budget ∨ ∀ q ∈ qs, q.exhausted = true

theorem scanned (act : ι → α → σ → σ) (budget : ℕ) (sources : List (ι × List α)) (s : σ) :
    ∃ vs, Scanned act budget sources s
      (scan act budget (sources.map fun x => Source.ofItems x.1 x.2) s).1
      (scan act budget (sources.map fun x => Source.ofItems x.1 x.2) s).2.2 vs := by
  have hstart : ∀ q ∈ sources.map fun x => Source.ofItems x.1 x.2, AtLevel 0 q := by
    intro q hq
    obtain ⟨x, -, rfl⟩ := List.mem_map.1 hq
    exact ⟨fun _ => rfl, fun h => by cases h⟩
  have hnone : (sources.map fun x => Source.ofItems x.1 x.2).flatMap Source.visited = [] := by
    rw [List.flatMap_eq_nil_iff]
    intro q hq
    obtain ⟨x, -, rfl⟩ := List.mem_map.1 hq
    rfl
  have hwhole : (sources.map fun x => Source.ofItems x.1 x.2).map Source.whole = sources := by
    rw [List.map_map]
    exact List.map_id _
  unfold scan
  generalize sources.map (fun x => Source.ofItems x.1 x.2) = qs at *
  obtain ⟨vs, hvs⟩ := visits_rounds act budget (qs.map turns).sum qs (0, s)
  obtain ⟨r, hr⟩ := level_rounds act budget (qs.map turns).sum hstart (0, s)
  have htotal : _ = vs.length := hvs.total.trans (Nat.zero_add _)
  have hle : (rounds act budget (qs.map turns).sum qs (0, s)).2.1 ≤ budget :=
    rounds_total_le (Nat.zero_le budget)
  have hend : ¬ ((rounds act budget (qs.map turns).sum qs (0, s)).2.1 < budget ∧
      (rounds act budget (qs.map turns).sum qs (0, s)).1.any (!·.exhausted) = true) :=
    rounds_end le_rfl
  rw [htotal] at hle hend
  have htaken := hvs.taken
  dsimp only at htaken
  rw [hnone, List.nil_append] at htaken
  refine ⟨vs, hvs.wholes.trans hwhole, hle, hvs.result, htaken.symm,
    fun p hp q hq => (hr p hp).fair (hr q hq), fun q hq he => ((hr q hq).exhausted he).2, ?_⟩
  by_cases hroom : vs.length < budget
  · refine .inr fun q hq => ?_
    by_contra hfresh
    exact hend ⟨hroom, List.any_eq_true.2 ⟨q, hq, by simpa using hfresh⟩⟩
  · exact .inl (hle.antisymm (Nat.le_of_not_lt hroom))

end RoundRobin
end OpenFoamAgent
