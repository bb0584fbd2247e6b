/-
# Exact patches

What `patch_text_once` of `tools/workspace.py` and the patches of
`compile_case_delta_graph` make of the bytes of a file. Both count the fragment
in the text as it was read, without overlaps, and write the whole text back: so
a fragment that overlaps itself is counted once, and a file that is not read as
it stands (carriage returns, bytes that are not UTF-8) comes back changed.
`patch_exact` says when the patch is exact.
-/
import OpenFoamAgent.Contracts.RepairRuns
import OpenFoamAgent.Engineering.DeltaOutcomes
import OpenFoamAgent.Python.EncodedPieces

namespace OpenFoamAgent
namespace Engineering

open Python Schemas Workspace

/-! ### Occurrences -/

/-- The needle begins at this place. -/
def OccursAt {α : Type} (needle hay : List α) (start : ℕ) : Prop :=
  start ≤ hay.length ∧ needle <+: hay.drop start

theorem occursAt_iff {α : Type} {needle hay : List α} {start : ℕ} :
    OccursAt needle hay start ↔
      ∃ before after, hay = before ++ needle ++ after ∧ before.length = start := by
  constructor
  · rintro ⟨hle, after, hafter⟩
    refine ⟨hay.take start, after, ?_, by rw [List.length_take, Nat.min_eq_left hle]⟩
    rw [List.append_assoc, hafter, List.take_append_drop]
  · rintro ⟨before, after, rfl, rfl⟩
    refine ⟨by simp only [List.length_append]; omega, after, ?_⟩
    rw [List.append_assoc, List.drop_left]

/-- A match that is still to come: behind the characters that are passed stands the needle. -/
theorem exists_of_countFrom {needle t : Text} {skip : ℕ} (h : countFrom needle skip t ≠ 0) :
    ∃ before after, t = before ++ needle ++ after ∧ skip ≤ before.length := by
  induction t generalizing skip with
  | nil => exact absurd rfl h
  | cons c cs ih =>
    cases skip with
    | succ skip =>
      obtain ⟨before, after, rfl, hskip⟩ := ih h
      exact ⟨c :: before, after, rfl, Nat.succ_le_succ hskip⟩
    | zero =>
      by_cases hprefix : needle.isPrefixOf (c :: cs)
      · obtain ⟨after, hafter⟩ := List.isPrefixOf_iff_prefix.1 hprefix
        exact ⟨[], after, hafter.symm, Nat.zero_le _⟩
      · rw [countFrom, if_neg hprefix] at h
        obtain ⟨before, after, rfl, -⟩ := ih h
        exact ⟨c :: before, after, rfl, Nat.zero_le _⟩

/-- What occurs is counted. -/
theorem count_ne_zero {needle before after : Text} (h : needle ≠ []) :
    count needle (before ++ needle ++ after) ≠ 0 := by
  induction before with
  | nil =>
    obtain ⟨c, cs, rfl⟩ := List.exists_cons_of_ne_nil h
    have hprefix : (c :: cs).isPrefixOf (c :: (cs ++ after)) :=
      List.isPrefixOf_iff_prefix.2 ⟨after, rfl⟩
    rw [count, List.nil_append, List.cons_append, countFrom, if_pos hprefix]
    exact Nat.succ_ne_zero _
  | cons c cs ih =>
    rw [count, List.cons_append, List.cons_append, countFrom]
    split_ifs
    · exact Nat.succ_ne_zero _
    · exact ih

/-- What is counted twice occurs at two places. -/
theorem exists_of_one_lt_count {needle t : Text} (h : 1 < count needle t) :
    ∃ before after before' after', t = before ++ needle ++ after ∧
      t = before' ++ needle ++ after' ∧ before.length < before'.length := by
  induction t with
  | nil => exact absurd h (Nat.not_lt_zero _)
  | cons c cs ih =>
    rw [count, countFrom] at h
    by_cases hprefix : needle.isPrefixOf (c :: cs)
    · rw [if_pos hprefix] at h
      obtain ⟨after, hafter⟩ := List.isPrefixOf_iff_prefix.1 hprefix
      obtain ⟨before', after', rfl, -⟩ := exists_of_countFrom (Nat.ne_of_gt (Nat.lt_of_succ_lt_succ h))
      exact ⟨[], after, c :: before', after', hafter.symm, rfl, Nat.succ_pos _⟩
    · rw [if_neg hprefix] at h
      obtain ⟨before, after, before', after', heq, heq', hlt⟩ := ih h
      exact ⟨c :: before, after, c :: before', after', congrArg (c :: ·) heq,
        congrArg (c :: ·) heq', Nat.succ_lt_succ hlt⟩

/-! ### The patch -/

/-- The text that a patch makes of the text that was read, if it is not refused. -/
def patchedText (current old new : Text) : Option Text :=
  if "\n... [truncated]".toList.isSuffixOf current ∨ old = [] ∨ count old current ≠ 1 then none
  else some (replaceOnce old new current)

/-- The bytes with the fragment at one place replaced. -/
def splice (data : Bytes) (start : ℕ) (old new : Bytes) : Bytes :=
  data.take start ++ new ++ data.drop (start + old.length)

/-- A patch is exact: it is accepted exactly where the fragment is not empty and occurs at exactly
one place of the file, and the file has this place replaced and nothing else. -/
structure ExactPatch (data : Bytes) (old new : Text) (patched : Option Text) : Prop where
  accepts : patched.isSome ↔ old ≠ [] ∧ ∃! start, OccursAt (encode old) data start
  splices : ∀ content start, patched = some content → OccursAt (encode old) data start →
    encode content = splice data start (encode old) (encode new)

/-- What a call of `patch_text_once` does with the text that the patch makes: without one it
raises, and leaves the case as it is. -/
structure PatchedOnDisk (host : Host) (w : CaseWorkspace) (path old new : Text)
    (patched : Option Text) : Prop where
  refused : patched = none → ∃ e, w.patchTextOnce host path old new = (w, .error e)
  written : ∀ content, patched = some content →
    w.patchTextOnce host path old new = w.writeText host path content ∧
      ∀ w' digest, w.patchTextOnce host path old new = (w', .ok digest) →
        w'.tree.fileAt (locate path) = some (encode content)

/-- What the step of a delta does with the text that the patch makes. -/
structure PatchedInMemory (replaced drops : List Text) (s : Edited) (p : CaseFilePatch)
    (patched : Option Text) : Prop where
  refused : patched = none → ∃ failure, s.patch replaced drops p = s.fail failure
  written : ∀ content, patched = some content → s.patch replaced drops p =
    { s with
      effective := s.effective.insert p.path content
      changed := putItem Prod.fst (p.path, content) s.changed }

theorem patchTextOnce_patched (host : Host) {w : CaseWorkspace} {path current : Text}
    (old new : Text) (h : w.readText path (w.maxFileBytes + 1) = .ok current) :
    PatchedOnDisk host w path old new (patchedText current old new) := by
  have hcall : w.patchTextOnce host path old new =
      if old = [] then (w, .error .patchEmpty)
      else if "\n... [truncated]".toList.isSuffixOf current then
        (w, .error (.patchTooLarge path))
      else if count old current ≠ 1 then (w, .error (.patchMatches path (count old current)))
      else w.writeText host path (replaceOnce old new current) := by
    rw [CaseWorkspace.patchTextOnce, h]
  unfold patchedText
  constructor
  · intro hnone
    rw [hcall]
    split_ifs with hempty htruncated hcount
    · exact ⟨_, rfl⟩
    · exact ⟨_, rfl⟩
    · exact ⟨_, rfl⟩
    · rw [if_neg (by tauto)] at hnone
      cases hnone
  · intro content hsome
    split_ifs at hsome with hrefused
    obtain rfl := Option.some.inj hsome
    rw [not_or, not_or, not_not] at hrefused
    have hwrite : w.patchTextOnce host path old new =
        w.writeText host path (replaceOnce old new current) := by
      rw [hcall, if_neg hrefused.2.1, if_neg hrefused.1, if_neg (not_not.2 hrefused.2.2)]
    refine ⟨hwrite, fun w' digest hok => ?_⟩
    rw [hwrite] at hok
    exact (CaseWorkspace.writeText_ok hok).2

theorem Edited.patch_patched {replaced drops : List Text} {s : Edited} {p : CaseFilePatch}
    {current : Text} (h : s.effective.get p.path = some current) (hreplaced : p.path ∉ replaced)
    (hdrops : p.path ∉ drops) :
    PatchedInMemory replaced drops s p (patchedText current p.old p.new) := by
  have hstep : s.patch replaced drops p =
      if "\n... [truncated]".toList.isSuffixOf current then s.fail (.patchTooLarge p.path)
      else if p.old = [] then s.fail (.patchEmpty p.path)
      else if count p.old current ≠ 1 then s.fail (.patchMatches p.path (count p.old current))
      else
        { s with
          effective := s.effective.insert p.path (replaceOnce p.old p.new current)
          changed := putItem Prod.fst (p.path, replaceOnce p.old p.new current) s.changed } := by
    rw [Edited.patch, if_neg hreplaced, if_neg hdrops, h]
  unfold patchedText
  constructor
  · intro hnone
    rw [hstep]
    split_ifs with htruncated hempty hcount
    · exact ⟨_, rfl⟩
    · exact ⟨_, rfl⟩
    · exact ⟨_, rfl⟩
    · rw [if_neg (by tauto)] at hnone
      cases hnone
  · intro content hsome
    split_ifs at hsome with hrefused
    obtain rfl := Option.some.inj hsome
    rw [not_or, not_or, not_not] at hrefused
    rw [hstep, if_neg hrefused.1, if_neg hrefused.2.1, if_neg (not_not.2 hrefused.2.2)]

/-! ### When the patch is exact -/

/-- The file is read as it stands: it is UTF-8, and holds no carriage return. -/
def ReadPlainly (data : Bytes) : Prop := encode (viewText data) = data

/-- The condition of an exact patch. -/
def PatchesExactly (data : Bytes) (current old : Text) : Prop :=
  old = [] ∨
  (¬ Truncated current ∧ ReadPlainly data ∧ (count old current = 1 →
    ∀ i j, OccursAt (encode old) data i → OccursAt (encode old) data j → i = j)) ∨
  (¬ (¬ Truncated current ∧ ReadPlainly data) ∧ (Truncated current ∨ count old current ≠ 1) ∧
    ¬ ∃! start, OccursAt (encode old) data start)

variable {data : Bytes} {old new : Text}

/-- Around a fragment of its bytes, a plain file is the text around the fragment. -/
theorem ReadPlainly.around (h : ReadPlainly data) (hold : old ≠ []) {pre post : Bytes}
    (hdata : data = pre ++ encode old ++ post) :
    viewText data = decodeReplace pre ++ old ++ decodeReplace post := by
  have hdecoded := decodeReplace_encode (viewText data)
  rw [h] at hdecoded
  rw [← hdecoded, hdata, decodeReplace_around pre post hold]

/-- In a plain file, a fragment that occurs at one place is counted once. -/
theorem ReadPlainly.count_eq_one (h : ReadPlainly data) (hold : old ≠ [])
    (hone : ∃! start, OccursAt (encode old) data start) : count old (viewText data) = 1 := by
  obtain ⟨start, hstart, hunique⟩ := hone
  obtain ⟨pre, post, hdata, -⟩ := occursAt_iff.1 hstart
  have hpos : count old (viewText data) ≠ 0 := by
    rw [h.around hold hdata]
    exact count_ne_zero hold
  by_contra hne
  obtain ⟨before, after, before', after', hleft, hright, hlt⟩ :=
    exists_of_one_lt_count (show 1 < count old (viewText data) by omega)
  have hplace : ∀ {b a : Text}, viewText data = b ++ old ++ a →
      OccursAt (encode old) data (encode b).length := fun {b a} heq =>
    occursAt_iff.2 ⟨encode b, encode a, by rw [← encode_append, ← encode_append, ← heq, h], rfl⟩
  have hsame := (hunique _ (hplace hleft)).trans (hunique _ (hplace hright)).symm
  -- the later of the two places has more characters in front of it
  have hprefix : before <+: before' := by
    have hbefore : before <+: viewText data := ⟨old ++ after, by rw [hleft, List.append_assoc]⟩
    have hbefore' : before' <+: viewText data :=
      ⟨old ++ after', by rw [hright, List.append_assoc]⟩
    exact List.prefix_of_prefix_length_le hbefore hbefore' hlt.le
  obtain ⟨extra, rfl⟩ := hprefix
  rw [encode_append, List.length_append] at hsame
  have hextra : extra ≠ [] := by
    rintro rfl
    simp at hlt
  obtain ⟨c, cs, rfl⟩ := List.exists_cons_of_ne_nil hextra
  obtain ⟨lead, rest, hchar, -⟩ := encodeChar_shape c
  rw [encode_cons, hchar] at hsame
  simp at hsame

/-- A patch that leaves every byte outside the fragment as it was, was made on a plain file. -/
theorem readPlainly_of_splices {a b : Text} {pre post : Bytes} (hold : old ≠ [])
    (hview : viewText data = a ++ old ++ b) (hdata : data = pre ++ encode old ++ post)
    (hsplice : encode (a ++ new ++ b) = pre ++ encode new ++ post) : ReadPlainly data := by
  have hplain : '\r' ∉ a ++ old ++ b := hview ▸ cr_notMem_universalNewlines _
  simp only [List.mem_append, not_or] at hplain
  obtain ⟨⟨ha, hold'⟩, hb⟩ := hplain
  -- the carriage returns of the result are those of the new text
  have hreturns := congrArg (List.count 13) hsplice
  rw [count_encode, List.count_append, List.count_append, List.count_append, List.count_append,
    count_encode, List.count_eq_zero.2 ha, List.count_eq_zero.2 hb] at hreturns
  have hpre : pre.count 13 = 0 := by omega
  have hpost : post.count 13 = 0 := by omega
  rw [List.append_assoc pre] at hsplice
  rcases encode_eq_append hsplice with ⟨s, u, heq, rfl, hu⟩ | ⟨s, c, u, x, y, heq, rfl, hy, hc, hx,
    hne⟩
  · obtain ⟨v, rfl, rfl⟩ := exists_of_encode_append hu.symm
    rw [count_encode] at hpre hpost
    have hwhole : data = encode (s ++ old ++ v) := by rw [hdata, encode_append, encode_append]
    have hnone : '\r' ∉ s ++ old ++ v := by
      simp only [List.mem_append, not_or]
      exact ⟨⟨List.count_eq_zero.1 hpre, hold'⟩, List.count_eq_zero.1 hpost⟩
    rw [ReadPlainly, viewText, hwhole, decodeReplace_encode, universalNewlines_eq_self hnone]
  · -- the new text begins no character, so it is empty
    have hnew : new = [] := by
      by_contra hnew
      obtain ⟨d, ds, rfl⟩ := List.exists_cons_of_ne_nil hnew
      obtain ⟨lead, rest, hchar, hlead, -⟩ := encodeChar_shape d
      obtain ⟨b₀, bs, rfl⟩ := List.exists_cons_of_ne_nil hne
      rw [encode_cons, hchar, List.cons_append, List.cons_append, List.cons_append] at hy
      rw [(List.cons.inj hy).1] at hlead
      exact hlead (continuation_of_cut hc hx List.mem_cons_self)
    subst hnew
    have hpost' : post = y ++ encode u := hy
    have hleft : decodeReplace (encode s ++ x) = s ++ [Char.ofNat 0xfffd] := by
      rw [decodeReplace, decodeFrom_encode_append, decodeFrom_of_cut hc hx hne, List.map_append,
        List.map_map]
      congr 1
      exact List.map_id s
    have hright : decodeReplace post = (y.map fun _ => Char.ofNat 0xfffd) ++ u := by
      rw [decodeReplace, hpost', decodeFrom_continuations fun b hb => continuation_of_cut hc hx hb,
        decodeFrom_encode, List.map_append, List.map_map, List.map_map]
      congr 1
      exact List.map_id u
    have hlength := congrArg List.length heq
    have hmem : '\r' ∉ s ++ c :: u := heq ▸ by simp [ha, hb]
    have hview' : viewText data =
        decodeReplace (encode s ++ x) ++ old ++ decodeReplace post := by
      rw [viewText, hdata, decodeReplace_around _ _ hold]
      refine universalNewlines_eq_self ?_
      rw [hleft, hright]
      have hreplacement : '\r' ≠ Char.ofNat 0xfffd := by decide
      simp only [List.mem_append, List.mem_cons, not_or] at hmem
      simp [hmem.1, hmem.2.2, hold', hreplacement]
    -- the two halves were read as two characters, and one is written
    rw [hview, hleft, hright] at hview'
    have hchars := congrArg List.length hview'
    have hy' := List.length_pos_of_ne_nil hne
    simp only [List.length_append, List.length_cons, List.length_nil, List.length_map] at *
    omega

/-- A refusal is exact where the fragment does not occur at exactly one place. -/
theorem exactPatch_none (hold : old ≠ []) :
    ExactPatch data old new none ↔ ¬ ∃! start, OccursAt (encode old) data start := by
  constructor
  · exact fun h hone => Bool.false_ne_true (h.accepts.2 ⟨hold, hone⟩)
  · exact fun h => ⟨⟨nofun, fun hone => absurd hone.2 h⟩, nofun⟩

/-- A patch that was made is exact where the file is plain, and the fragment occurs nowhere else. -/
theorem exactPatch_replaceOnce (hold : old ≠ []) (hcount : count old (viewText data) = 1) :
    ExactPatch data old new (some (replaceOnce old new (viewText data))) ↔
      ReadPlainly data ∧
        ∀ i j, OccursAt (encode old) data i → OccursAt (encode old) data j → i = j := by
  obtain ⟨a, b, hview, hnew⟩ := exists_replaceOnce_eq new
    (show count old (viewText data) ≠ 0 by rw [hcount]; exact one_ne_zero)
  rw [hnew]
  have hsplice : ∀ {pre post : Bytes}, data = pre ++ encode old ++ post →
      splice data pre.length (encode old) (encode new) = pre ++ encode new ++ post := by
    rintro pre post rfl
    rw [splice, List.append_assoc pre, List.take_left, ← List.append_assoc pre,
      ← List.length_append, List.drop_left]
  constructor
  · intro h
    obtain ⟨-, start, hstart, hunique⟩ := h.accepts.1 rfl
    obtain ⟨pre, post, hdata, hlength⟩ := occursAt_iff.1 hstart
    have hbytes := h.splices _ start rfl hstart
    rw [← hlength, hsplice hdata] at hbytes
    exact ⟨readPlainly_of_splices hold hview hdata hbytes,
      fun i j hi hj => (hunique i hi).trans (hunique j hj).symm⟩
  · rintro ⟨hplain, hunique⟩
    have hdata : data = encode a ++ encode old ++ encode b := by
      rw [← encode_append, ← encode_append, ← hview, hplain]
    have hstart : OccursAt (encode old) data (encode a).length :=
      occursAt_iff.2 ⟨encode a, encode b, hdata, rfl⟩
    refine ⟨⟨fun _ => ⟨hold, _, hstart, fun j hj => hunique j _ hj hstart⟩, fun _ => rfl⟩, ?_⟩
    rintro content start ⟨⟩ hother
    rw [hunique start _ hother hstart, hsplice hdata, encode_append, encode_append]

/-- The patch of a text that was read is exact, if and only if the condition holds. -/
theorem exactPatch_iff {current : Text} (hread : Truncated current ∨ current = viewText data) :
    ExactPatch data old new (patchedText current old new) ↔ PatchesExactly data current old := by
  by_cases hold : old = []
  · rw [patchedText, if_pos (.inr (.inl hold))]
    exact ⟨fun _ => .inl hold, fun _ => ⟨⟨nofun, fun h => absurd hold h.1⟩, nofun⟩⟩
  rw [PatchesExactly, or_iff_right hold]
  by_cases hrefused : Truncated current ∨ count old current ≠ 1
  · have hnone : patchedText current old new = none :=
      if_pos (hrefused.imp id fun hcount => .inr hcount)
    rw [hnone, exactPatch_none hold]
    constructor
    · intro hone
      by_cases hplain : ¬ Truncated current ∧ ReadPlainly data
      · exact .inl ⟨hplain.1, hplain.2, fun hcount =>
          absurd hcount (hrefused.resolve_left hplain.1)⟩
      · exact .inr ⟨hplain, hrefused, hone⟩
    · rintro (⟨hwhole, hplain, -⟩ | ⟨-, -, hone⟩)
      · obtain rfl := hread.resolve_left hwhole
        exact fun hone => hrefused.resolve_left hwhole (hplain.count_eq_one hold hone)
      · exact hone
  · obtain ⟨hwhole, hcount⟩ := not_or.1 hrefused
    rw [not_not] at hcount
    obtain rfl := hread.resolve_left hwhole
    have hsome : patchedText (viewText data) old new =
        some (replaceOnce old new (viewText data)) := by
      refine if_neg ?_
      rintro (htruncated | hempty | hother)
      · exact hwhole htruncated
      · exact hold hempty
      · exact hother hcount
    rw [hsome, exactPatch_replaceOnce hold hcount]
    constructor
    · exact fun ⟨hplain, hunique⟩ => .inl ⟨hwhole, hplain, fun _ => hunique⟩
    · rintro (⟨-, hplain, hunique⟩ | ⟨-, hrefused', -⟩)
      · exact ⟨hplain, hunique hcount⟩
      · exact absurd hrefused' hrefused

/-- **When a patch is exact.** For `patch_text_once` on any file, and for the step of a delta on any
text that was read from one. -/
theorem patch_exact (data : Bytes) (current old new : Text) :
    (∀ host (w : CaseWorkspace) path,
      w.tree.fileAt (locate path) = some data →
      w.readText path (w.maxFileBytes + 1) = .ok current →
        PatchedOnDisk host w path old new (patchedText current old new) ∧
        (ExactPatch data old new (patchedText current old new) ↔
          PatchesExactly data current old)) ∧
    ∀ (s : Edited) replaced drops path,
      s.effective.get path = some current → Truncated current ∨ current = viewText data →
      path ∉ replaced → path ∉ drops →
        PatchedInMemory replaced drops s ⟨path, old, new⟩ (patchedText current old new) ∧
        (ExactPatch data old new (patchedText current old new) ↔
          PatchesExactly data current old) := by
  constructor
  · intro host w path hfile hcurrent
    refine ⟨patchTextOnce_patched host old new hcurrent, exactPatch_iff ?_⟩
    refine (readText_eq_ok hcurrent).imp id ?_
    rintro ⟨data', hfile', rfl⟩
    rw [Option.some.inj (hfile.symm.trans hfile')]
  · intro s replaced drops path hcurrent hread hreplaced hdrops
    exact ⟨Edited.patch_patched hcurrent hreplaced hdrops, exactPatch_iff hread⟩

/-- A fragment that overlaps itself is counted once, and patched. -/
theorem overlapping_fragment_patched :
    ¬ ∀ host (w : CaseWorkspace) path data old new patched,
      w.tree.fileAt (locate path) = some data → PatchedOnDisk host w path old new patched →
        ExactPatch data old new patched := by
  intro h
  let w := Contracts.caseWith "writeInterval 111;\n"
  have hread : w.readText "system/controlDict".toList (w.maxFileBytes + 1) =
      .ok "writeInterval 111;\n".toList := by
    decide +kernel
  have hpatched : patchedText "writeInterval 111;\n".toList "11".toList "2".toList =
      some "writeInterval 21;\n".toList := by
    decide +kernel
  have hdisk := patchTextOnce_patched .reliable "11".toList "2".toList hread
  have hexact := h .reliable w _ (encode "writeInterval 111;\n".toList) _ _ _ rfl hdisk
  rw [hpatched] at hexact
  obtain ⟨-, start, -, hunique⟩ := hexact.accepts.1 rfl
  have hfirst : OccursAt (encode "11".toList) (encode "writeInterval 111;\n".toList) 14 :=
    ⟨by decide, List.isPrefixOf_iff_prefix.1 (by decide +kernel)⟩
  have hsecond : OccursAt (encode "11".toList) (encode "writeInterval 111;\n".toList) 15 :=
    ⟨by decide, List.isPrefixOf_iff_prefix.1 (by decide +kernel)⟩
  have := (hunique 14 hfirst).trans (hunique 15 hsecond).symm
  omega

end Engineering
end OpenFoamAgent
