/-
# Traversals that may raise

A loop that raises on the first element it refuses is `List.mapM` or `List.forM`
in `Except`. When it ends normally, every element was accepted, and every result
belongs to an element.
-/
import Mathlib.Data.List.Forall2

namespace OpenFoamAgent
namespace Traversal

variable {α β γ ε : Type}

theorem bind_eq_ok {x : Except ε α} {f : α → Except ε β} {b : β} :
    x >>= f = .ok b ↔ ∃ a, x = .ok a ∧ f a = .ok b := by
  cases x <;> simp [bind, Except.bind]

theorem bind_eq_error {x : Except ε α} {f : α → Except ε β} {e : ε} :
    x >>= f = .error e ↔ x = .error e ∨ ∃ a, x = .ok a ∧ f a = .error e := by
  cases x <;> simp [bind, Except.bind]

/-- A check that raises. -/
theorem guard_eq_ok {c : Prop} [Decidable c] {e : ε} {k : PUnit → Except ε α} {a : α} :
    (if c then (throw e >>= k) else k ⟨⟩) = .ok a ↔ ¬c ∧ k ⟨⟩ = .ok a := by
  by_cases hc : c
  · rw [if_pos hc]
    constructor
    · intro h
      cases h
    · intro h
      exact absurd hc h.1
  · rw [if_neg hc, and_iff_right hc]

theorem mapError_eq_ok {ε' : Type} {x : Except ε α} {f : ε → ε'} {a : α} :
    x.mapError f = .ok a ↔ x = .ok a := by
  cases x <;> simp [Except.mapError]

/-- The results of a traversal that ended normally stand in the order of its elements. -/
theorem forall₂_of_mapM {f : α → Except ε β} {l : List α} {r : List β} (h : l.mapM f = .ok r) :
    List.Forall₂ (fun a b => f a = .ok b) l r := by
  induction l generalizing r with
  | nil =>
    cases h
    exact .nil
  | cons a l ih =>
    rw [List.mapM_cons, bind_eq_ok] at h
    obtain ⟨b, hb, h⟩ := h
    obtain ⟨bs, hbs, h⟩ := bind_eq_ok.1 h
    cases h
    exact .cons hb (ih hbs)

theorem ok_of_mem_mapM {f : α → Except ε β} {l : List α} {r : List β} (h : l.mapM f = .ok r)
    {b : β} (hb : b ∈ r) : ∃ a ∈ l, f a = .ok b := by
  have h₂ := forall₂_of_mapM h
  clear h
  induction h₂ with
  | nil => cases hb
  | cons hab _ ih =>
    rcases List.mem_cons.1 hb with rfl | hb
    · exact ⟨_, List.mem_cons_self, hab⟩
    · obtain ⟨a, ha, hf⟩ := ih hb
      exact ⟨a, List.mem_cons_of_mem _ ha, hf⟩

theorem exists_mem_of_mapM {f : α → Except ε β} {l : List α} {r : List β} (h : l.mapM f = .ok r)
    {a : α} (ha : a ∈ l) : ∃ b ∈ r, f a = .ok b := by
  have h₂ := forall₂_of_mapM h
  clear h
  induction h₂ with
  | nil => cases ha
  | cons hab _ ih =>
    rcases List.mem_cons.1 ha with rfl | ha
    · exact ⟨_, List.mem_cons_self, hab⟩
    · obtain ⟨b, hb, hf⟩ := ih ha
      exact ⟨b, List.mem_cons_of_mem _ hb, hf⟩

/-- A traversal of elements that all give a result comes to its end. -/
theorem mapM_progress {f : α → Except ε β} {l : List α} (h : ∀ a ∈ l, ∃ b, f a = .ok b) :
    ∃ r, l.mapM f = .ok r := by
  induction l with
  | nil => exact ⟨[], rfl⟩
  | cons a l ih =>
    obtain ⟨⟨b, hb⟩, hl⟩ := List.forall_mem_cons.1 h
    obtain ⟨r, hr⟩ := ih hl
    exact ⟨b :: r, by rw [List.mapM_cons, hb, hr]; rfl⟩

/-- A traversal raises what one of its elements raises. -/
theorem mem_of_mapM_eq_error {f : α → Except ε β} {l : List α} {e : ε}
    (h : l.mapM f = .error e) : ∃ a ∈ l, f a = .error e := by
  induction l with
  | nil => cases h
  | cons a l ih =>
    rw [List.mapM_cons] at h
    rcases bind_eq_error.1 h with ha | ⟨b, -, h⟩
    · exact ⟨a, List.mem_cons_self, ha⟩
    · rcases bind_eq_error.1 h with hl | ⟨bs, -, h⟩
      · obtain ⟨a', ha', hf⟩ := ih hl
        exact ⟨a', List.mem_cons_of_mem _ ha', hf⟩
      · cases h

/-- A traversal whose results are those of a function is its map. -/
theorem map_of_mapM {f : α → Except ε β} {g : α → β} {l : List α} {r : List β}
    (h : l.mapM f = .ok r) (hg : ∀ a ∈ l, ∀ b, f a = .ok b → b = g a) : r = l.map g := by
  have h₂ := forall₂_of_mapM h
  clear h
  induction h₂ with
  | nil => rfl
  | cons hab _ ih =>
    rw [List.map_cons, hg _ List.mem_cons_self _ hab,
      ih fun a ha => hg a (List.mem_cons_of_mem _ ha)]

/-- A traversal whose elements give the results of a function gives its map. -/
theorem mapM_eq_ok {f : α → Except ε β} {g : α → β} {l : List α} (h : ∀ a ∈ l, f a = .ok (g a)) :
    l.mapM f = .ok (l.map g) := by
  obtain ⟨r, hr⟩ := mapM_progress fun a ha => ⟨g a, h a ha⟩
  rw [hr, map_of_mapM hr fun a ha b hb => Except.ok.inj (hb.symm.trans (h a ha))]

theorem mapM_congr {f f' : α → Except ε β} {l : List α} (h : ∀ a ∈ l, f a = f' a) :
    l.mapM f = l.mapM f' := by
  induction l with
  | nil => rfl
  | cons a l ih =>
    rw [List.mapM_cons, List.mapM_cons, h a List.mem_cons_self,
      ih fun a ha => h a (List.mem_cons_of_mem _ ha)]

theorem ok_of_forM {f : α → Except ε Unit} {l : List α} (h : l.forM f = .ok ⟨⟩) {a : α}
    (ha : a ∈ l) : f a = .ok ⟨⟩ := by
  induction l with
  | nil => cases ha
  | cons b l ih =>
    obtain ⟨⟨⟩, hb, h⟩ := bind_eq_ok.1 h
    rcases List.mem_cons.1 ha with rfl | ha
    · exact hb
    · exact ih h ha

theorem forM_eq_ok {f : α → Except ε Unit} {l : List α} (h : ∀ a ∈ l, f a = .ok ⟨⟩) :
    l.forM f = .ok ⟨⟩ := by
  induction l with
  | nil => rfl
  | cons a l ih =>
    exact bind_eq_ok.2 ⟨⟨⟩, h a List.mem_cons_self, ih fun b hb => h b (List.mem_cons_of_mem _ hb)⟩

theorem mem_of_filterMapM {f : α → Except ε (Option β)} {l : List α} {r : List β}
    (h : l.filterMapM f = .ok r) {b : β} : b ∈ r ↔ ∃ a ∈ l, f a = .ok (some b) := by
  induction l generalizing r with
  | nil =>
    cases h
    simp
  | cons a l ih =>
    rw [List.filterMapM_cons, bind_eq_ok] at h
    obtain ⟨o, ho, h⟩ := h
    cases o with
    | none => simp [ih h, ho]
    | some b' =>
      obtain ⟨bs, hbs, h⟩ := bind_eq_ok.1 h
      cases h
      simp [ih hbs, ho, eq_comm]

theorem ok_of_filterMapM {f : α → Except ε (Option β)} {l : List α} {r : List β}
    (h : l.filterMapM f = .ok r) {a : α} (ha : a ∈ l) : ∃ o, f a = .ok o := by
  induction l generalizing r with
  | nil => cases ha
  | cons b l ih =>
    rw [List.filterMapM_cons, bind_eq_ok] at h
    obtain ⟨o, ho, h⟩ := h
    rcases List.mem_cons.1 ha with rfl | ha
    · exact ⟨o, ho⟩
    · cases o with
      | none => exact ih h ha
      | some b' =>
        obtain ⟨bs, hbs, -⟩ := bind_eq_ok.1 h
        exact ih hbs ha

theorem filterMapM_progress {f : α → Except ε (Option β)} {l : List α}
    (h : ∀ a ∈ l, ∃ o, f a = .ok o) : ∃ r, l.filterMapM f = .ok r := by
  induction l with
  | nil => exact ⟨[], rfl⟩
  | cons a l ih =>
    obtain ⟨⟨o, ho⟩, hl⟩ := List.forall_mem_cons.1 h
    obtain ⟨r, hr⟩ := ih hl
    rw [List.filterMapM_cons, ho]
    cases o with
    | none => exact ⟨r, hr⟩
    | some b => exact ⟨b :: r, by rw [hr]; rfl⟩

/-- A traversal whose elements are kept as they are, or dropped, is a filter. -/
theorem filterMapM_eq_ok {f : α → Except ε (Option α)} {p : α → Bool} {l : List α}
    (h : ∀ a ∈ l, f a = .ok (if p a then some a else none)) :
    l.filterMapM f = .ok (l.filter p) := by
  induction l with
  | nil => rfl
  | cons a l ih =>
    obtain ⟨ha, hl⟩ := List.forall_mem_cons.1 h
    rw [List.filterMapM_cons, ha, ih hl, List.filter_cons]
    split_ifs <;> rfl

/-- A traversal raises what one of its elements raises. -/
theorem mem_of_filterMapM_eq_error {f : α → Except ε (Option β)} {l : List α} {e : ε}
    (h : l.filterMapM f = .error e) : ∃ a ∈ l, f a = .error e := by
  induction l with
  | nil => cases h
  | cons a l ih =>
    rw [List.filterMapM_cons] at h
    rcases bind_eq_error.1 h with ha | ⟨o, -, h⟩
    · exact ⟨a, List.mem_cons_self, ha⟩
    · cases o with
      | none =>
        obtain ⟨a', ha', hf⟩ := ih h
        exact ⟨a', List.mem_cons_of_mem _ ha', hf⟩
      | some b =>
        rcases bind_eq_error.1 h with hl | ⟨bs, -, h⟩
        · obtain ⟨a', ha', hf⟩ := ih hl
          exact ⟨a', List.mem_cons_of_mem _ ha', hf⟩
        · cases h

/-- A filter whose test always gives a result keeps the elements the test accepts. -/
theorem filterM_eq_ok {f : α → Except ε Bool} {p : α → Bool} {l : List α}
    (h : ∀ a ∈ l, f a = .ok (p a)) : l.filterM f = .ok (l.filter p) := by
  have haux : ∀ acc, l.filterAuxM f acc = .ok ((l.filter p).reverse ++ acc) := by
    induction l with
    | nil => exact fun acc => rfl
    | cons a l ih =>
      intro acc
      obtain ⟨ha, hl⟩ := List.forall_mem_cons.1 h
      refine bind_eq_ok.2 ⟨p a, ha, ?_⟩
      rw [ih hl, List.filter_cons]
      cases p a
      · rfl
      · rw [if_pos rfl, List.reverse_cons, List.append_assoc]
        rfl
  exact bind_eq_ok.2 ⟨_, haux [], by simp [pure, Except.pure]⟩

/-- A filter that ended normally kept the elements its test accepts. -/
theorem filter_of_filterM {f : α → Except ε Bool} {l r : List α} (h : l.filterM f = .ok r) :
    r = l.filter fun a => (f a).toOption.getD false := by
  have haux : ∀ acc r, l.filterAuxM f acc = .ok r →
      r = (l.filter fun a => (f a).toOption.getD false).reverse ++ acc := by
    clear h
    induction l with
    | nil => exact fun acc r h => (Except.ok.inj h).symm
    | cons a l ih =>
      intro acc r h
      obtain ⟨b, hb, h⟩ := bind_eq_ok.1 h
      have hrest := ih _ r h
      rw [List.filter_cons, hb]
      cases b
      · exact hrest
      · rw [hrest, if_pos (by rfl), List.reverse_cons, List.append_assoc]
        rfl
  obtain ⟨as, has, h⟩ := bind_eq_ok.1 h
  obtain rfl := Except.ok.inj h
  rw [haux [] as has, List.append_nil, List.reverse_reverse]

theorem mem_of_filterM {f : α → Except ε Bool} {l r : List α} (h : l.filterM f = .ok r) {a : α}
    (ha : a ∈ r) : a ∈ l := by
  rw [filter_of_filterM h] at ha
  exact List.mem_of_mem_filter ha

/-- A fold whose steps can all be taken comes to its end. -/
theorem foldlM_progress {σ : Type} {f : σ → α → Except ε σ} {P : List α → σ → Prop} {l : List α}
    {s : σ} (hinit : P [] s)
    (hstep : ∀ done a rest, l = done ++ a :: rest → ∀ t, P done t →
      ∃ t', f t a = .ok t' ∧ P (done ++ [a]) t') :
    ∃ s', l.foldlM f s = .ok s' ∧ P l s' := by
  suffices hsuff : ∀ rest done t, l = done ++ rest → P done t →
      ∃ s', rest.foldlM f t = .ok s' ∧ P l s' from hsuff l [] s rfl hinit
  intro rest
  induction rest with
  | nil =>
    rintro done t rfl hdone
    exact ⟨t, rfl, by rwa [List.append_nil]⟩
  | cons a rest ih =>
    intro done t heq hdone
    obtain ⟨t', ht', hnext⟩ := hstep done a rest heq t hdone
    obtain ⟨s', hs', hlast⟩ := ih (done ++ [a]) t' (by rw [heq, List.append_assoc]; rfl) hnext
    exact ⟨s', by rw [List.foldlM_cons, ht']; exact hs', hlast⟩

/-- A fold that may raise keeps what every step keeps; `P` may speak of the elements done. -/
theorem foldlM_induct {σ : Type} {f : σ → α → Except ε σ} {P : List α → σ → Prop} {l : List α}
    {s s' : σ} (h : l.foldlM f s = .ok s') (hinit : P [] s)
    (hstep : ∀ done, ∀ a ∈ l, ∀ t t', P done t → f t a = .ok t' → P (done ++ [a]) t') :
    P l s' := by
  suffices hsuff : ∀ rest done t, (∀ a ∈ rest, a ∈ l) → P done t → rest.foldlM f t = .ok s' →
      P (done ++ rest) s' from hsuff l [] s (fun _ ha => ha) hinit h
  intro rest
  induction rest with
  | nil =>
    intro done t _ hdone hrest
    obtain rfl := Except.ok.inj hrest
    rwa [List.append_nil]
  | cons a rest ih =>
    intro done t hmem hdone hrest
    rw [List.foldlM_cons, bind_eq_ok] at hrest
    obtain ⟨t', ht', hrest⟩ := hrest
    have hnext := hstep done a (hmem a List.mem_cons_self) t t' hdone ht'
    have := ih (done ++ [a]) t' (fun b hb => hmem b (List.mem_cons_of_mem _ hb)) hnext hrest
    rwa [List.append_assoc] at this

/-- A traversal in `Option` succeeds when every element does. -/
theorem mapM_eq_some {f : α → Option β} {l : List α} {r : List β} :
    l.mapM f = some r ↔ List.Forall₂ (fun a b => f a = some b) l r := by
  induction l generalizing r with
  | nil =>
    constructor
    · rintro ⟨⟩
      exact .nil
    · rintro ⟨⟩
      rfl
  | cons a l ih =>
    simp only [List.mapM_cons, Option.bind_eq_bind, Option.bind_eq_some_iff, ih,
      Option.pure_def, Option.some.injEq]
    constructor
    · rintro ⟨b, hb, bs, hbs, rfl⟩
      exact .cons hb hbs
    · intro h
      cases h with
      | cons hb hbs => exact ⟨_, hb, _, hbs, rfl⟩

theorem exists_mem_left {f : α → Option β} {l : List α} {r : List β} (h : l.mapM f = some r)
    {b : β} (hb : b ∈ r) : ∃ a ∈ l, f a = some b := by
  have h₂ := mapM_eq_some.1 h
  clear h
  induction h₂ with
  | nil => cases hb
  | cons hab _ ih =>
    rcases List.mem_cons.1 hb with rfl | hb
    · exact ⟨_, List.mem_cons_self, hab⟩
    · obtain ⟨a, ha, hf⟩ := ih hb
      exact ⟨a, List.mem_cons_of_mem _ ha, hf⟩

theorem exists_mem_right {f : α → Option β} {l : List α} {r : List β} (h : l.mapM f = some r)
    {a : α} (ha : a ∈ l) : ∃ b ∈ r, f a = some b := by
  have h₂ := mapM_eq_some.1 h
  clear h
  induction h₂ with
  | nil => cases ha
  | cons hab _ ih =>
    rcases List.mem_cons.1 ha with rfl | ha
    · exact ⟨_, List.mem_cons_self, hab⟩
    · obtain ⟨b, hb, hf⟩ := ih ha
      exact ⟨b, List.mem_cons_of_mem _ hb, hf⟩

/-- A traversal that undoes `g` on every element gives the elements back. -/
theorem mapM_map_eq_some {g : β → α} {f : α → Option β} {r : List β}
    (h : ∀ b ∈ r, f (g b) = some b) : (r.map g).mapM f = some r := by
  refine mapM_eq_some.2 (List.forall₂_map_left_iff.2 ?_)
  exact List.forall₂_same.2 h

end Traversal
end OpenFoamAgent
