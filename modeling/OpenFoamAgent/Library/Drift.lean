/-
# What an unfinished change may have done to a tree

A program that writes and drops files at known places, and makes the directories
on the way, may be cut short anywhere. `Drift` says what the tree then looks
like. The places are to be `Free`: none is a directory, none lies below a file
or below another of them. Then every single place can be put back: the
directories on the way can be made, and a file found there can be unlinked or
replaced (`Drift.makeDirectories_ok`, `Drift.unlink_ok`).
-/
import Mathlib.Data.List.Infix
import Mathlib.Data.Set.Insert
import OpenFoamAgent.Library.FileTree

namespace OpenFoamAgent
namespace FileTree

variable {ν β : Type} [DecidableEq ν] {P : Set (List ν)} {t t' : FileTree ν β} {l k : List ν}

/-- From `t` to `t'` the places `P` come to hold files or nothing, directories come up on the way
to them, and every other location keeps its node. -/
def Drift (P : Set (List ν)) (t t' : FileTree ν β) : Prop :=
  ∀ k, t'.lookup k = t.lookup k ∨ (k ∈ P ∧ ∀ n, t'.lookup k = some n → ∃ b, n = .file b) ∨
    (t.lookup k = none ∧ t'.lookup k = some .directory ∧ ∃ l ∈ P, k ∈ parents l)

/-- Files can be written at the places `P`: no directory is there, and no file or link and none
of the places is on the way. -/
structure Free (P : Set (List ν)) (t : FileTree ν β) : Prop where
  notDirectory : ∀ l ∈ P, ¬ t.isDirectory l
  notBelowFile : ∀ l ∈ P, ¬ t.belowFile l
  notLinked : ∀ l ∈ P, ¬ t.linkOnPath l
  apart : ∀ l ∈ P, ∀ k ∈ parents l, k ∉ P

omit [DecidableEq ν] in
theorem mem_parents (h : k ∈ parents l) : k ≠ [] ∧ k <+: l ∧ k ≠ l := by
  have hk : k ∈ l.dropLast.inits := List.mem_of_mem_tail h
  rw [List.mem_inits] at hk
  refine ⟨fun e => nil_notMem_parents l (e ▸ h), hk.trans (List.dropLast_prefix l), ?_⟩
  rintro rfl
  have hlen := hk.length_le
  rw [List.length_dropLast] at hlen
  have hpos : k.length = 0 := by omega
  rw [List.length_eq_zero_iff] at hpos
  subst hpos
  exact nil_notMem_parents [] h

namespace Free

/-- What is on the way to a place. -/
theorem parent (h : Free P t) (hl : l ∈ P) (hk : k ∈ parents l) :
    t.lookup k = none ∨ t.lookup k = some .directory := by
  rcases hn : t.lookup k with _ | n
  · exact .inl rfl
  · rcases n with b | _ | o
    · exact absurd (List.any_eq_true.2 ⟨k, hk, by simp [isFile, fileAt, hn]⟩)
        (h.notBelowFile l hl)
    · exact .inr rfl
    · have hlink : t.isLink k := by simp [isLink, hn]
      exact absurd (List.any_eq_true.2 ⟨k, (List.mem_inits _ _).2 (mem_parents hk).2.1, hlink⟩)
        (h.notLinked l hl)

/-- What is at a place. -/
theorem node (h : Free P t) (hl : l ∈ P) : ∀ n, t.lookup l = some n → ∃ b, n = .file b := by
  intro n hn
  rcases n with b | _ | o
  · exact ⟨b, rfl⟩
  · exact absurd (by unfold isDirectory; rw [hn]; cases l <;> rfl) (h.notDirectory l hl)
  · have hlink : t.isLink l := by simp [isLink, hn]
    exact absurd (List.any_eq_true.2 ⟨l, (List.mem_inits _ _).2 (List.prefix_refl l), hlink⟩)
      (h.notLinked l hl)

end Free

namespace Drift

theorem refl (P : Set (List ν)) (t : FileTree ν β) : Drift P t t := fun _ => .inl rfl

/-- The files outside the places stay. -/
theorem fileAt_of_notMem (h : Drift P t t') (hk : k ∉ P) : t'.fileAt k = t.fileAt k := by
  rcases h k with hsame | ⟨hin, -⟩ | ⟨hnone, hdir, -⟩
  · rw [fileAt, fileAt, hsame]
  · exact absurd hin hk
  · rw [fileAt, fileAt, hnone, hdir]

theorem isLink (h : Drift P t t') (hk : t'.isLink k) : t.isLink k := by
  unfold FileTree.isLink at hk ⊢
  rcases h k with hsame | ⟨-, hfile⟩ | ⟨-, hdir, -⟩
  · rwa [← hsame]
  · split at hk
    · rename_i o hlookup
      obtain ⟨b, hb⟩ := hfile _ hlookup
      cases hb
    · cases hk
  · rw [hdir] at hk
    cases hk

/-- A place that takes a file or loses one. -/
theorem change (h : Drift P t t') {t'' : FileTree ν β} (hl : l ∈ P)
    (hother : ∀ k, k ≠ l → t''.lookup k = t'.lookup k)
    (hself : ∀ n, t''.lookup l = some n → ∃ b, n = .file b) : Drift P t t'' := by
  intro k
  by_cases hk : k = l
  · subst hk
    exact .inr (.inl ⟨hl, hself⟩)
  · rw [hother k hk]
    exact h k

theorem insert (h : Drift P t t') (hl : l ∈ P) (b : β) : Drift P t (t'.insert l (.file b)) := by
  refine h.change hl (fun k hk => AList.lookup_insert_ne hk) fun n hn => ⟨b, ?_⟩
  rw [AList.lookup_insert] at hn
  exact (Option.some.inj hn).symm

theorem erase (h : Drift P t t') (hl : l ∈ P) : Drift P t (t'.erase l) := by
  refine h.change hl (fun k hk => AList.lookup_erase_ne hk) fun n hn => ?_
  rw [AList.lookup_erase] at hn
  cases hn

/-- On the way to a free place there are directories or nothing. -/
theorem parent (h : Drift P t t') (hfree : Free P t) (hl : l ∈ P) (hk : k ∈ parents l) :
    t'.lookup k = some .directory ∨ (t'.lookup k = none ∧ t.lookup k = none) := by
  rcases h k with hsame | ⟨hin, -⟩ | ⟨-, hdir, -⟩
  · rcases hfree.parent hl hk with hnone | hdir
    · exact .inr ⟨hsame.trans hnone, hnone⟩
    · exact .inl (hsame.trans hdir)
  · exact absurd hin (hfree.apart l hl k hk)
  · exact .inl hdir

/-- At a free place there is a file or nothing. -/
theorem node (h : Drift P t t') (hfree : Free P t) (hl : l ∈ P) :
    ∀ n, t'.lookup l = some n → ∃ b, n = .file b := by
  rcases h l with hsame | ⟨-, hfile⟩ | ⟨-, -, m, hm, hlm⟩
  · rw [hsame]
    exact hfree.node hl
  · exact hfile
  · exact absurd hl (hfree.apart m hm l hlm)

theorem isDirectory (h : Drift P t t') (hfree : Free P t) (hl : l ∈ P) : ¬ t'.isDirectory l := by
  intro hdir
  unfold FileTree.isDirectory at hdir
  split at hdir
  · exact hfree.notDirectory _ hl rfl
  · rename_i hlookup
    obtain ⟨b, hb⟩ := h.node hfree hl _ hlookup
    cases hb
  · cases hdir

theorem belowFile (h : Drift P t t') (hfree : Free P t) (hl : l ∈ P) : ¬ t'.belowFile l := by
  intro hbelow
  obtain ⟨k, hk, hfile⟩ := List.any_eq_true.1 hbelow
  unfold isFile fileAt at hfile
  rcases h.parent hfree hl hk with hdir | ⟨hnone, -⟩
  · rw [hdir] at hfile
    cases hfile
  · rw [hnone] at hfile
    cases hfile

/-! ### System calls -/

theorem makeDirectory (h : Drift P t t') (hfree : Free P t) (hl : l ∈ P) (hk : k ∈ parents l)
    {fails : Bool} {t'' : FileTree ν β} (hmake : makeDirectory fails t' k = .ok t'') :
    Drift P t t'' := by
  unfold FileTree.makeDirectory at hmake
  split at hmake
  · cases hmake
    exact h
  · cases hmake
  · rename_i hnone
    split_ifs at hmake
    cases hmake
    have habsent : t.lookup k = none := by
      rcases h.parent hfree hl hk with hdir | ⟨-, habsent⟩
      · rw [hdir] at hnone
        cases hnone
      · exact habsent
    intro m
    by_cases hm : m = k
    · subst hm
      exact .inr (.inr ⟨habsent, AList.lookup_insert _, l, hl, hk⟩)
    · rw [AList.lookup_insert_ne hm]
      exact h m

/-- The directories on the way to a free place, up to a failure of the host. -/
theorem makeDirectories (h : Drift P t t') (hfree : Free P t) (hl : l ∈ P)
    (fails : List ν → Bool) {ls : List (List ν)} (hls : ∀ k ∈ ls, k ∈ parents l) :
    Drift P t (makeDirectories fails t' ls).1 := by
  induction ls generalizing t' with
  | nil => exact h
  | cons k ls ih =>
    unfold FileTree.makeDirectories
    split
    · exact h
    · rename_i t'' hmake
      exact ih (h.makeDirectory hfree hl (hls k List.mem_cons_self) hmake)
        fun m hm => hls m (List.mem_cons_of_mem _ hm)

/-- Where the host does not fail the directories can be made, and no file changes. -/
theorem makeDirectories_ok (h : Drift P t t') (hfree : Free P t) (hl : l ∈ P)
    (fails : List ν → Bool) (hfails : ∀ d, fails d = false) {ls : List (List ν)}
    (hls : ∀ k ∈ ls, k ∈ parents l) :
    ∃ t'', FileTree.makeDirectories fails t' ls = (t'', .ok ()) ∧ Drift P t t'' ∧
      (∀ m, t''.fileAt m = t'.fileAt m) ∧ ∀ m, m ∉ parents l → t''.lookup m = t'.lookup m := by
  induction ls generalizing t' with
  | nil => exact ⟨t', rfl, h, fun _ => rfl, fun _ _ => rfl⟩
  | cons k ls ih =>
    have hk : k ∈ parents l := hls k List.mem_cons_self
    obtain ⟨t₁, hmake, hother⟩ : ∃ t₁, FileTree.makeDirectory (fails k) t' k = .ok t₁ ∧
        ∀ m, m ≠ k → t₁.lookup m = t'.lookup m := by
      unfold FileTree.makeDirectory
      rcases h.parent hfree hl hk with hdir | ⟨hnone, -⟩
      · rw [hdir]
        exact ⟨t', rfl, fun _ _ => rfl⟩
      · rw [hnone]
        dsimp only
        rw [if_neg (by rw [hfails]; exact Bool.false_ne_true)]
        exact ⟨_, rfl, fun m hm => AList.lookup_insert_ne hm⟩
    obtain ⟨t'', hrest, hdrift, hfiles, hkept⟩ := ih (h.makeDirectory hfree hl hk hmake)
      fun m hm => hls m (List.mem_cons_of_mem _ hm)
    refine ⟨t'', ?_, hdrift, fun m => (hfiles m).trans ?_, fun m hm => (hkept m hm).trans ?_⟩
    · unfold FileTree.makeDirectories
      rw [hmake]
      exact hrest
    · exact (SameOutside.makeDirectory (S := ∅) hmake).files m (Set.notMem_empty m)
    · exact hother m fun e => hm (e ▸ hk)

theorem replaceFile (h : Drift P t t') (hl : l ∈ P) {fails : Bool} {b : β} {t'' : FileTree ν β}
    (hreplace : replaceFile fails t' l b = .ok t'') : Drift P t t'' := by
  unfold FileTree.replaceFile at hreplace
  split_ifs at hreplace
  cases hreplace
  exact h.insert hl b

theorem unlink (h : Drift P t t') (hl : l ∈ P) {fails : Bool} {t'' : FileTree ν β}
    (hunlink : unlink fails t' l = .ok t'') : Drift P t t'' := by
  unfold FileTree.unlink at hunlink
  split_ifs at hunlink
  cases hunlink
  exact h.erase hl

/-- Where the host does not fail the file at a free place can be unlinked, if there is one. -/
theorem unlink_ok (h : Drift P t t') (hfree : Free P t) (hl : l ∈ P) :
    FileTree.unlink false t' l = .ok (t'.erase l) ∨
      (FileTree.unlink false t' l = .error .notFound ∧ t'.lookup l = none) := by
  unfold FileTree.unlink
  rw [if_neg (h.isDirectory hfree hl), if_neg (h.belowFile hfree hl)]
  rcases t'.lookup l with _ | n
  · exact .inr ⟨rfl, rfl⟩
  · exact .inl rfl

end Drift
end FileTree
end OpenFoamAgent
