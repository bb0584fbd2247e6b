/-
# Imports that are taken up again

What a call of `ingest_request_assets` does on a workspace in which an earlier call was interrupted.
A file whose copy is recorded is skipped; one without a record is imported, and an import refuses a
place that holds something. So a call takes up the import of an admissible request exactly where
each copy that is already there has its record (`ingestRequestAssets_recovers_iff`): an
interruption between the copy and the registry is not recovered from.
-/
import Mathlib.Algebra.Order.BigOperators.Group.List
import OpenFoamAgent.Workspace.AssetImports
import OpenFoamAgent.Workspace.SealVerification

namespace OpenFoamAgent
namespace Workspace

open Python Schemas FileTree

/-! ### What sealing asks of a case -/

theorem not_exists_ok {ε α : Type} {e : ε} : ¬ ∃ a : α, (Except.error e : Except ε α) = .ok a := by
  rintro ⟨a, h⟩
  cases h

namespace CaseWorkspace

variable {w : CaseWorkspace}

/-- The links and the names below the inputs are such that they can be sealed. -/
def Sealable (w : CaseWorkspace) : Prop :=
  (∀ l, underExecutionInput l → ¬ w.tree.isLink l) ∧
    ∀ l, underExecutionInput l → w.tree.isFile l →
      (∃ relative, validateRelative (asPosix l) = .ok relative) ∧ (asPosix l).length ≤ 240

/-- The bytes of the inputs. -/
def inputBytes (w : CaseWorkspace) : ℕ :=
  (w.executionInputs.map fun l => ((w.tree.fileAt l).getD []).length).sum

theorem mem_keys_of_isLink {t : FileTree Text Bytes} {l : Location} (h : t.isLink l) :
    l ∈ t.keys := by
  unfold isLink at h
  split at h
  · rename_i hlookup
    exact AList.mem_keys.1 (AList.lookup_isSome.1 (by rw [hlookup]; rfl))
  · cases h

theorem sealFile_returns_iff (w : CaseWorkspace) (l : Location) :
    (∃ s, w.sealFile l = .ok s) ↔
      (∃ relative, validateRelative (asPosix l) = .ok relative) ∧ (asPosix l).length ≤ 240 := by
  unfold sealFile
  rcases validateRelative (asPosix l) with e | relative
  · exact iff_of_false not_exists_ok fun h => not_exists_ok h.1
  · dsimp only
    rw [and_iff_right ⟨relative, rfl⟩]
    by_cases hlong : (asPosix l).length > 240
    · rw [if_pos hlong]
      exact iff_of_false not_exists_ok (not_le.2 hlong)
    · rw [if_neg hlong]
      exact iff_of_true ⟨_, rfl⟩ (not_lt.1 hlong)

theorem executionFileSeals_returns_iff :
    (∃ files, w.executionFileSeals = .ok files) ↔
      w.Sealable ∧ w.executionInputs.length ≤ w.maxExecutionFiles ∧
        w.inputBytes ≤ w.maxExecutionBytes := by
  unfold executionFileSeals
  split
  · rename_i l hfind
    have hl := List.find?_some hfind
    rw [Bool.and_eq_true] at hl
    exact iff_of_false not_exists_ok fun h => h.1.1 l hl.1 hl.2
  · rename_i hfind
    have hlinks : ∀ l, underExecutionInput l → ¬ w.tree.isLink l := by
      intro l hl hlink
      have hnone := List.find?_eq_none.1 hfind l (mem_keys_of_isLink hlink)
      exact hnone (by rw [hl, hlink]; rfl)
    dsimp only
    by_cases hmany : w.executionInputs.length > w.maxExecutionFiles
    · rw [if_pos hmany]
      exact iff_of_false not_exists_ok fun h => absurd h.2.1 (not_le.2 hmany)
    · rw [if_neg hmany]
      by_cases hlarge : w.inputBytes > w.maxExecutionBytes
      · rw [inputBytes] at hlarge
        rw [if_pos hlarge]
        exact iff_of_false not_exists_ok fun h => absurd h.2.2 (not_le.2 hlarge)
      · rw [and_iff_left ⟨not_lt.1 hmany, not_lt.1 hlarge⟩]
        rw [inputBytes] at hlarge
        rw [if_neg hlarge]
        constructor
        · rintro ⟨files, hfiles⟩
          refine ⟨hlinks, fun l hl hfile => (sealFile_returns_iff w l).1 ?_⟩
          obtain ⟨s, -, hs⟩ := Traversal.exists_mem_of_mapM hfiles (mem_executionInputs.2 ⟨hl, hfile⟩)
          exact ⟨s, hs⟩
        · rintro ⟨-, hnames⟩
          refine Traversal.mapM_progress fun l hl => (sealFile_returns_iff w l).2 ?_
          obtain ⟨hin, hfile⟩ := mem_executionInputs.1 hl
          exact hnames l hin hfile

/-- The sizes in the seals are those of the inputs. -/
theorem sum_executionFileSeals {files : List CaseFileSeal} (h : w.executionFileSeals = .ok files) :
    (files.map (·.sizeBytes)).sum = w.inputBytes := by
  rw [Traversal.map_of_mapM (executionFileSeals_eq_ok h) fun l _ s hs => sealFile_eq_recordAt hs,
    List.map_map]
  rfl

end CaseWorkspace

/-! ### One more file -/

/-- The file `content` stands at `l` where nothing stood, in directories that were there or were
made for it. -/
structure Placed (l : Location) (content : Bytes) (t t' : FileTree Text Bytes) : Prop where
  new : t.lookup l = none
  file : t'.lookup l = some (.file content)
  other : ∀ k ≠ l, t'.lookup k = t.lookup k ∨
    k ∈ parents l ∧ t.lookup k = none ∧ t'.lookup k = some .directory

namespace Placed

variable {l : Location} {content : Bytes} {t t' : FileTree Text Bytes}

theorem fileAt (h : Placed l content t t') {k : Location} (hk : k ≠ l) :
    t'.fileAt k = t.fileAt k := by
  unfold FileTree.fileAt
  rcases h.other k hk with heq | ⟨-, hnone, hdir⟩
  · rw [heq]
  · rw [hnone, hdir]

theorem fileAt_self (h : Placed l content t t') : t'.fileAt l = some content := by
  rw [FileTree.fileAt, h.file]

theorem isLink (h : Placed l content t t') (k : Location) : t'.isLink k = t.isLink k := by
  unfold FileTree.isLink
  by_cases hk : k = l
  · rw [hk, h.file, h.new]
  · rcases h.other k hk with heq | ⟨-, hnone, hdir⟩
    · rw [heq]
    · rw [hnone, hdir]

theorem linkOnPath (h : Placed l content t t') (k : Location) :
    t'.linkOnPath k = t.linkOnPath k := by
  unfold FileTree.linkOnPath
  exact congrArg _ (funext h.isLink)

/-- A file that was there is still there. -/
theorem fileAt_of_some (h : Placed l content t t') {k : Location} {b : Bytes}
    (hb : t.fileAt k = some b) : t'.fileAt k = some b := by
  by_cases hk : k = l
  · rw [hk, FileTree.fileAt, h.new] at hb
    cases hb
  · rw [h.fileAt hk, hb]

end Placed

namespace CaseWorkspace

variable {w w' : CaseWorkspace} {l : Location} {content : Bytes}

/-- The inputs have one more. -/
theorem executionInputs_of_placed (h : Placed l content w.tree w'.tree)
    (hl : underExecutionInput l) : w'.executionInputs.Perm (l :: w.executionInputs) := by
  have hnew : l ∉ w.executionInputs := by
    intro hmem
    have hfile := (mem_executionInputs.1 hmem).2
    rw [isFile, FileTree.fileAt, h.new] at hfile
    cases hfile
  refine (List.perm_ext_iff_of_nodup ?_ (List.nodup_cons.2 ⟨hnew, ?_⟩)).2 fun k => ?_
  · exact (List.perm_insertionSort _ _).nodup_iff.2 (w'.tree.nodupKeys.filter _)
  · exact (List.perm_insertionSort _ _).nodup_iff.2 (w.tree.nodupKeys.filter _)
  · rw [List.mem_cons, mem_executionInputs, mem_executionInputs, isFile, isFile]
    by_cases hk : k = l
    · subst hk
      rw [h.fileAt_self]
      exact iff_of_true ⟨hl, rfl⟩ (.inl rfl)
    · rw [h.fileAt hk, or_iff_right hk]

theorem inputBytes_of_placed (h : Placed l content w.tree w'.tree) (hl : underExecutionInput l) :
    w'.inputBytes = content.length + w.inputBytes := by
  unfold inputBytes
  rw [((executionInputs_of_placed h hl).map _).sum_nat, List.map_cons, List.sum_cons, h.fileAt_self]
  congr 2
  refine List.map_congr_left fun k hk => ?_
  rw [h.fileAt]
  rintro rfl
  have hfile := (mem_executionInputs.1 hk).2
  rw [isFile, FileTree.fileAt, h.new] at hfile
  cases hfile

theorem sealable_of_placed (h : Placed l content w.tree w'.tree) (hl : underExecutionInput l)
    (hname : ∃ relative, validateRelative (asPosix l) = .ok relative) :
    w'.Sealable ↔ w.Sealable ∧ (asPosix l).length ≤ 240 := by
  unfold Sealable
  have hlinks : (∀ k, underExecutionInput k → ¬ w'.tree.isLink k) ↔
      ∀ k, underExecutionInput k → ¬ w.tree.isLink k :=
    forall₂_congr fun k _ => by rw [h.isLink]
  rw [hlinks, and_assoc]
  refine and_congr_right fun _ => ⟨fun hall => ⟨fun k hk hfile => ?_, ?_⟩, fun hall k hk hfile => ?_⟩
  · obtain ⟨b, hb⟩ := Option.isSome_iff_exists.1 hfile
    exact hall k hk (by rw [isFile, h.fileAt_of_some hb]; rfl)
  · exact (hall l hl (by rw [isFile, h.fileAt_self]; rfl)).2
  · by_cases heq : k = l
    · exact heq ▸ ⟨hname, hall.2⟩
    · rw [isFile, h.fileAt heq] at hfile
      exact hall.1 k hk hfile

end CaseWorkspace

/-! ### What a request needs -/

/-- The size of a file of the user. -/
def Requested.size (host : AssetHost) (q : Requested) : ℕ :=
  ((host.sources.fileAt q.source).getD []).length

/-- A request whose files pass the checks that do not look at the case. -/
structure Admissible (host : AssetHost) (w : CaseWorkspace) (qs : List Requested) : Prop where
  source : ∀ q ∈ qs, ∃ content, AssetRun.regularSource host q.source = .ok content ∧
    content.length ≤ maxAssetBytes ∧
    (∃ quality, host.basicQuality (q.source.getLastD []) content = .ok quality) ∧
    AssetRun.inspectSource host w (q.source.getLastD []) content = .ok ()
  writable : ∀ q ∈ qs, validateRelative q.casePath = .ok q.place
  same : ∀ q ∈ qs, ∀ q' ∈ qs, q.place = q'.place →
    host.sources.fileAt q.source = host.sources.fileAt q'.source
  apart : ∀ q ∈ qs, ∀ q' ∈ qs, q.place <+: q'.place → q.place = q'.place

/-- The recorded sources have not changed. -/
def Unchanged (host : AssetHost) (qs : List Requested) (records : List AssetRecord) : Prop :=
  ∀ q ∈ qs, ∀ record ∈ records, record.casePath = q.casePath →
    ∃ content, host.sources.fileAt q.source = some content ∧ record.sourceSha256 = ⟨content⟩

/-- The copies of the records are what they were. -/
def Intact (w : CaseWorkspace) (records : List AssetRecord) : Prop :=
  ∀ record ∈ records, ∃ l content, w.resolveCasePath record.casePath true = .ok l ∧
    w.tree.fileAt l = some content ∧ record.copySha256 = ⟨content⟩

/-- Nothing stands at a place, and only directories on the way to it. -/
structure Free (w : CaseWorkspace) (l : Location) : Prop where
  new : w.tree.lookup l = none
  unlinked : ¬ w.tree.linkOnPath l
  directories : ∀ k ∈ parents l, ∀ n, w.tree.lookup k = some n → n = .directory

/-- The requested files that have no record, one for each place. -/
def missing : List Text → List Requested → List Requested
  | _, [] => []
  | known, q :: qs =>
    if q.casePath ∈ known then missing known qs
    else q :: missing (known ++ [q.casePath]) qs

/-- The missing files fit into the limits of the case, one after the other. -/
def Fits (host : AssetHost) (w : CaseWorkspace) (qs : List Requested) : Prop :=
  qs = [] ∨ (w.Sealable ∧ w.executionInputs.length + qs.length ≤ w.maxExecutionFiles + 1 ∧
    w.inputBytes + (qs.map (·.size host)).sum ≤ w.maxExecutionBytes ∧
    ∀ q ∈ qs.dropLast, q.casePath.length ≤ 240)

/-- The files without a record can be imported. -/
structure Importable (host : AssetHost) (w : CaseWorkspace) (known : List Text)
    (qs : List Requested) : Prop where
  free : ∀ q ∈ qs, q.casePath ∉ known → Free w q.place
  fits : Fits host w (missing known qs)

/-! ### One import -/

namespace Admissible

variable {host : AssetHost} {w : CaseWorkspace} {qs : List Requested}

theorem mono {qs' : List Requested} (h : Admissible host w qs) (hsub : ∀ q ∈ qs', q ∈ qs) :
    Admissible host w qs' where
  source q hq := h.source q (hsub q hq)
  writable q hq := h.writable q (hsub q hq)
  same q hq q' hq' := h.same q (hsub q hq) q' (hsub q' hq')
  apart q hq q' hq' := h.apart q (hsub q hq) q' (hsub q' hq')

theorem place_eq (h : Admissible host w qs) {q q' : Requested} (hq : q ∈ qs) (hq' : q' ∈ qs)
    (heq : q.casePath = q'.casePath) : q.place = q'.place := by
  have hplace := h.writable q hq
  rw [heq, h.writable q' hq'] at hplace
  exact (Except.ok.inj hplace).symm

end Admissible

theorem fileAt_of_regularSource {host : AssetHost} {path : Location} {content : Bytes}
    (h : AssetRun.regularSource host path = .ok content) :
    host.sources.fileAt path = some content := by
  unfold AssetRun.regularSource at h
  split_ifs at h
  split at h
  · cases h
  · rename_i heq
    rw [heq, Except.ok.inj h]

/-- A place is free beside a new file as it was before it. -/
theorem free_of_placed {w w' : CaseWorkspace} {l k : Location} {content : Bytes}
    (h : Placed l content w.tree w'.tree) (hlk : ¬ l <+: k) (hkl : ¬ k <+: l) :
    Free w' k ↔ Free w k := by
  have hbelow : ∀ {a b : Location}, a ∈ parents b → a <+: b := by
    intro a b ha
    exact ((List.mem_inits _ _).1 (List.mem_of_mem_tail ha)).trans (List.dropLast_prefix b)
  have hk : k ≠ l := fun heq => hkl (heq ▸ List.prefix_refl _)
  have hsame : w'.tree.lookup k = w.tree.lookup k := by
    rcases h.other k hk with heq | ⟨hmem, -⟩
    · exact heq
    · exact absurd (hbelow hmem) hkl
  have hparents : (∀ p ∈ parents k, ∀ n, w'.tree.lookup p = some n → n = .directory) ↔
      ∀ p ∈ parents k, ∀ n, w.tree.lookup p = some n → n = .directory := by
    refine forall₂_congr fun p hp => ?_
    have hpl : p ≠ l := fun heq => hlk (heq ▸ hbelow hp)
    rcases h.other p hpl with heq | ⟨-, hnone, hdir⟩
    · rw [heq]
    · rw [hnone, hdir]
      exact iff_of_true (fun n hn => (Option.some.inj hn).symm) nofun
  constructor
  · rintro ⟨hnew, hlink, hdir⟩
    exact ⟨hsame ▸ hnew, h.linkOnPath k ▸ hlink, hparents.1 hdir⟩
  · rintro ⟨hnew, hlink, hdir⟩
    exact ⟨hsame.trans hnew, (h.linkOnPath k).symm ▸ hlink, hparents.2 hdir⟩

theorem fits_head {host : AssetHost} {w : CaseWorkspace} {q : Requested} {qs : List Requested}
    (h : Fits host w (q :: qs)) : (∃ files, w.executionFileSeals = .ok files) ∧
      w.inputBytes + q.size host ≤ w.maxExecutionBytes := by
  obtain ⟨⟨⟩⟩ | ⟨hseal, hcount, hsum, -⟩ := h
  rw [List.length_cons] at hcount
  rw [List.map_cons, List.sum_cons] at hsum
  rw [CaseWorkspace.executionFileSeals_returns_iff]
  exact ⟨⟨hseal, by omega, by omega⟩, by omega⟩

/-- The limits in front of an import, and those behind it. -/
theorem fits_cons_iff (qs : List Requested) {host : AssetHost} {w w' : CaseWorkspace}
    {q : Requested} {content : Bytes} (h : Placed q.place content w.tree w'.tree)
    (hfiles : w'.maxExecutionFiles = w.maxExecutionFiles)
    (hbytes : w'.maxExecutionBytes = w.maxExecutionBytes)
    (hname : validateRelative q.casePath = .ok q.place)
    (hsize : q.size host = content.length) :
    Fits host w (q :: qs) ↔
      ((∃ files, w.executionFileSeals = .ok files) ∧
        w.inputBytes + content.length ≤ w.maxExecutionBytes) ∧ Fits host w' qs := by
  have hlength := (CaseWorkspace.executionInputs_of_placed h q.under).length_eq
  have hinput := CaseWorkspace.inputBytes_of_placed h q.under
  have hseal := CaseWorkspace.sealable_of_placed h q.under ⟨_, hname⟩
  rw [List.length_cons] at hlength
  rw [CaseWorkspace.executionFileSeals_returns_iff]
  unfold Fits
  rw [hfiles, hbytes, hlength, hinput, hseal]
  rcases qs with _ | ⟨q', qs⟩
  · simp only [List.cons_ne_nil, false_or, List.length_singleton, List.map_cons, List.map_nil,
      List.sum_cons, List.sum_nil, hsize, List.dropLast_singleton, true_or, and_true]
    constructor
    · rintro ⟨hs, hcount, hsum, -⟩
      exact ⟨⟨hs, by omega, by omega⟩, by omega⟩
    · rintro ⟨⟨hs, hcount, hsum⟩, htotal⟩
      exact ⟨hs, by omega, by omega, nofun⟩
  · simp only [List.cons_ne_nil, false_or, List.length_cons, List.map_cons, List.sum_cons, hsize,
      List.dropLast_cons_cons, List.forall_mem_cons]
    constructor
    · rintro ⟨hs, hcount, hsum, hshort, hrest⟩
      exact ⟨⟨⟨hs, by omega, by omega⟩, by omega⟩, ⟨hs, hshort⟩, by omega, by omega, hrest⟩
    · rintro ⟨⟨⟨hs, hcount, hsum⟩, htotal⟩, ⟨-, hshort⟩, hcount', hsum', hrest⟩
      exact ⟨hs, by omega, by omega, hshort, hrest⟩

namespace AssetRun

variable {host : AssetHost} {s : AssetRun}

theorem notMem_parents {l : Location} (hl : l ≠ []) : l ∉ parents l := by
  intro hmem
  have hbelow := (List.mem_inits _ _).1 (List.mem_of_mem_tail hmem)
  have hlength := hbelow.length_le
  rw [List.length_dropLast] at hlength
  have hpos := List.length_pos_of_ne_nil hl
  omega

/-- The copy behind the directories above it. -/
theorem placeCopy_completes (content : Bytes) (s : AssetRun) {temporary target : Location}
    (hnew : s.workspace.tree.lookup target = none) (hne : target ≠ [])
    (htemporary : s.workspace.tree.lookup temporary = none) (hdiffer : temporary ≠ target) :
    (placeCopy temporary target content s).Completes
      (fun u tree => u = s.withTree tree ∧ Placed target content s.workspace.tree tree) s := by
  set written : FileTree Text Bytes := s.workspace.tree.insert temporary (.file content)
    with hwritten
  have hfile : written.lookup temporary = some (.file content) := AList.lookup_insert _
  have htarget : written.lookup target = none := by
    rw [hwritten, AList.lookup_insert_ne hdiffer.symm, hnew]
  have hplain : ¬ isDirectory written target := by
    rw [Rooted.isDirectory_eq_lookup hne, htarget]
    exact nofun
  have hreplace : replace written temporary target =
      .ok ((written.erase temporary).insert target (.file content)) := by
    unfold replace
    rw [if_neg hplain, hfile]
  have hplaced : Placed target content s.workspace.tree
      ((written.erase temporary).insert target (.file content)) := by
    refine ⟨hnew, AList.lookup_insert _, fun k hk => .inl ?_⟩
    rw [AList.lookup_insert_ne hk]
    by_cases htemp : k = temporary
    · rw [htemp, AList.lookup_erase, htemporary]
    · rw [AList.lookup_erase_ne htemp, hwritten, AList.lookup_insert_ne htemp]
  have hwrite : (writeSteps s.withTree temporary content s.workspace.tree :
      Steps AssetRun AssetError (FileTree Text Bytes)).Completes
      (fun u tree => u = s.withTree tree ∧ tree = written) s :=
    ⟨written, rfl, (writeSteps_written _ _ _ _ _).returns written rfl⟩
  refine hwrite.andThen ?_
  rintro u tree ⟨rfl, rfl⟩
  have hsame : ¬ (fileAt written temporary).map Sha256.mk ≠ some ⟨content⟩ := by
    rw [FileTree.fileAt, hfile]
    exact not_not.2 rfl
  rw [if_neg hsame, hreplace]
  exact .after (.returned ⟨rfl, hplaced⟩)

/-- A copy is made exactly where only directories are in its way. -/
theorem copySource_returns_iff (host : AssetHost) (content : Bytes) {target : Location}
    (hnew : s.workspace.tree.lookup target = none) (hne : target ≠ []) :
    ((∃ tree, (copySource host content target s).result = .ok tree) ↔
      ∀ k ∈ parents target, ∀ n, s.workspace.tree.lookup k = some n → n = .directory) ∧
    ∀ tree, (copySource host content target s).result = .ok tree →
      Placed target content s.workspace.tree tree ∧
        (copySource host content target s).last s = s.withTree tree := by
  have hmade : ∀ t, (makeDirectorySteps s.withTree AssetError.os (parents target)
        s.workspace.tree).result = .ok t →
      ∃ t', Placed target content s.workspace.tree t' ∧
        (copySource host content target s).result = .ok t' ∧
        (copySource host content target s).last s = s.withTree t' := by
    intro t ht
    obtain ⟨hlast, hopened, -⟩ := (makeDirectorySteps_opened s.withTree AssetError.os _ _).returns t ht
    have hlast' : (makeDirectorySteps s.withTree AssetError.os (parents target)
        s.workspace.tree).last s = s.withTree t := hlast
    have hnew' : t.lookup target = none := by
      rw [hopened.of_notMem (notMem_parents hne), hnew]
    obtain ⟨tree, hresult, hend, hplaced⟩ := placeCopy_completes content
      (s.withTree t) hnew' hne (host.temporary_new t target) (host.temporary_ne t target)
    refine ⟨tree, ⟨hnew, hplaced.file, fun k hk => ?_⟩, ?_, ?_⟩
    · rcases hplaced.other k hk with heq | ⟨hmem, hnone, hdir⟩
      · rw [heq]
        exact hopened k
      · rcases hopened k with heq | ⟨-, -, hdir'⟩
        · exact .inr ⟨hmem, heq ▸ hnone, hdir⟩
        · exact absurd (hdir'.symm.trans hnone) nofun
    · refine Steps.result_andThen.2 ⟨t, ht, ?_⟩
      rw [hlast']
      exact hresult
    · unfold copySource
      rw [Steps.last_andThen ht, hlast']
      exact hend
  refine ⟨?_, fun tree htree => ?_⟩
  · rw [← makeDirectorySteps_returns_iff s.withTree AssetError.os _ (nodup_parents _)]
    constructor
    · rintro ⟨tree, htree⟩
      obtain ⟨t, ht, -⟩ := Steps.result_andThen.1 htree
      exact ⟨t, ht⟩
    · rintro ⟨t, ht⟩
      obtain ⟨t', -, hresult, -⟩ := hmade t ht
      exact ⟨t', hresult⟩
  · obtain ⟨t, ht, -⟩ := Steps.result_andThen.1 htree
    obtain ⟨t', hplaced, hresult, hend⟩ := hmade t ht
    obtain rfl := Except.ok.inj (hresult.symm.trans htree)
    exact ⟨hplaced, hend⟩

/-- The workspace behind an import. -/
def imported (s : AssetRun) (tree : FileTree Text Bytes) (casePath : Text)
    (records : List AssetRecord) : AssetRun :=
  ((s.withTree tree).protect casePath).save records

variable {q : Requested} {content : Bytes} {approved : List Location}
  {records : List AssetRecord}

theorem resolveCasePath_of_true {w : CaseWorkspace} {text : Text} {l : Location}
    (h : w.resolveCasePath text true = .ok l) : w.resolveCasePath text false = .ok l := by
  unfold CaseWorkspace.resolveCasePath at h ⊢
  split at h
  · cases h
  · rename_i relative hrelative
    by_cases hlink : w.tree.linkOnPath relative
    · rw [if_pos hlink] at h
      cases h
    · rw [if_neg hlink] at h ⊢
      split_ifs at h
      rw [if_neg (by simp)]
      exact h

/-- A file whose copy is recorded is skipped. -/
theorem importFile_known (hsource : regularSource host q.source = .ok content)
    (happroved : q.source ∈ approved) (hsize : content.length ≤ maxAssetBytes)
    (hintact : Intact s.workspace records)
    (hunchanged : ∀ record ∈ records, record.casePath = q.casePath → record.sourceSha256 = ⟨content⟩)
    (hknown : q.casePath ∈ records.map (·.casePath)) :
    importFile host approved q records s = .returned records := by
  obtain ⟨record, hrecord⟩ : ∃ record, records.find? (·.casePath = q.casePath) = some record := by
    obtain ⟨record, hmem, hpath⟩ := List.mem_map.1 hknown
    exact Option.isSome_iff_exists.1 (List.find?_isSome.2 ⟨record, hmem, by simpa using hpath⟩)
  have hmem := List.mem_of_find?_eq_some hrecord
  have hpath : record.casePath = q.casePath := by simpa using List.find?_some hrecord
  obtain ⟨l, copy, hresolve, hcopy, hdigest⟩ := hintact record hmem
  rw [hpath] at hresolve
  unfold importFile
  rw [hsource]
  dsimp only
  rw [if_neg (not_not.2 happroved), if_neg (not_lt.2 hsize), resolveCasePath_of_true hresolve]
  dsimp only
  rw [hrecord]
  dsimp only
  rw [if_neg (not_not.2 (hunchanged record hmem hpath)), hcopy]
  exact if_neg (not_not.2 hdigest)

theorem checkNew_returns_iff (w : CaseWorkspace) (target : Location)
    (hquality : ∃ quality, host.basicQuality (q.source.getLastD []) content = .ok quality)
    (hinspect : inspectSource host w (q.source.getLastD []) content = .ok ()) :
    (∃ quality, checkNew host q content target w = .ok quality) ↔
      w.tree.lookup target = none ∧ (∃ files, w.executionFileSeals = .ok files) ∧
        w.inputBytes + content.length ≤ w.maxExecutionBytes := by
  obtain ⟨quality, hquality⟩ := hquality
  unfold checkNew
  rcases hlookup : w.tree.lookup target with _ | n
  · rw [if_neg (by simp), hquality]
    dsimp only
    rw [hinspect]
    dsimp only
    rcases hseals : w.executionFileSeals with e | files
    · exact iff_of_false not_exists_ok fun h => not_exists_ok h.2.1
    · dsimp only
      rw [CaseWorkspace.sum_executionFileSeals hseals, and_iff_right rfl,
        and_iff_right ⟨files, rfl⟩]
      by_cases hlimit : w.inputBytes + content.length > w.maxExecutionBytes
      · rw [if_pos hlimit]
        exact iff_of_false not_exists_ok (not_le.2 hlimit)
      · rw [if_neg hlimit]
        exact iff_of_true ⟨_, rfl⟩ (not_lt.1 hlimit)
  · rw [if_pos (show (some n).isSome = true from rfl)]
    refine iff_of_false not_exists_ok ?_
    rintro ⟨h, -⟩
    cases h

/-- A file without a record is imported exactly where its place is free and it fits. -/
theorem importFile_new (hsource : regularSource host q.source = .ok content)
    (happroved : q.source ∈ approved) (hsize : content.length ≤ maxAssetBytes)
    (hquality : ∃ quality, host.basicQuality (q.source.getLastD []) content = .ok quality)
    (hinspect : inspectSource host s.workspace (q.source.getLastD []) content = .ok ())
    (hplace : validateRelative q.casePath = .ok q.place)
    (hnew : q.casePath ∉ records.map (·.casePath)) :
    ((∃ r, (importFile host approved q records s).result = .ok r) ↔
      Free s.workspace q.place ∧ (∃ files, s.workspace.executionFileSeals = .ok files) ∧
        s.workspace.inputBytes + content.length ≤ s.workspace.maxExecutionBytes) ∧
    ∀ r, (importFile host approved q records s).result = .ok r →
      ∃ quality tree, r = records ++ [recordOf q content quality] ∧
        Placed q.place content s.workspace.tree tree ∧
        (importFile host approved q records s).last s = s.imported tree q.casePath r := by
  have hne : q.place ≠ [] := CaseWorkspace.ne_nil_of_underExecutionInput q.under
  have hfind : records.find? (·.casePath = q.casePath) = none := by
    refine List.find?_eq_none.2 fun record hmem heq => hnew ?_
    exact List.mem_map.2 ⟨record, hmem, by simpa using heq⟩
  have hresolve : s.workspace.resolveCasePath q.casePath false =
      if s.workspace.tree.linkOnPath q.place then .error (.symlink q.casePath) else .ok q.place := by
    unfold CaseWorkspace.resolveCasePath
    rw [hplace]
    simp
  unfold importFile
  rw [hsource]
  dsimp only
  rw [if_neg (not_not.2 happroved), if_neg (not_lt.2 hsize), hresolve]
  by_cases hlink : s.workspace.tree.linkOnPath q.place
  · rw [if_pos hlink]
    exact ⟨iff_of_false not_exists_ok fun h => h.1.unlinked hlink, fun r hr => (by cases hr)⟩
  rw [if_neg hlink]
  dsimp only
  rw [hfind]
  dsimp only
  have hcheck := checkNew_returns_iff s.workspace q.place hquality hinspect
  rcases hnewCheck : checkNew host q content q.place s.workspace with e | quality
  · rw [hnewCheck] at hcheck
    refine ⟨iff_of_false not_exists_ok fun h => ?_, fun r hr => (by cases hr)⟩
    obtain ⟨_, hok⟩ := hcheck.2 ⟨h.1.new, h.2⟩
    cases hok
  obtain ⟨hlookup, hfits⟩ := hcheck.1 ⟨quality, hnewCheck⟩
  obtain ⟨hcopy, houtcome⟩ := copySource_returns_iff host content hlookup hne
  have hlast : ∀ tree, (copySource host content q.place s).result = .ok tree →
      ((copySource host content q.place s).andThen s fun s _ =>
        Steps.after (s.protect q.casePath) (Steps.after ((s.protect q.casePath).save
          (records ++ [recordOf q content quality])) (.returned
            (records ++ [recordOf q content quality])))).last s =
        s.imported tree q.casePath (records ++ [recordOf q content quality]) := by
    intro tree htree
    rw [Steps.last_andThen htree, (houtcome tree htree).2, Steps.last_after, Steps.last_after]
    rfl
  dsimp only
  refine ⟨?_, fun r hr => ?_⟩
  · constructor
    · rintro ⟨r, hr⟩
      obtain ⟨tree, htree, -⟩ := Steps.result_andThen.1 hr
      exact ⟨⟨hlookup, hlink, hcopy.1 ⟨tree, htree⟩⟩, hfits⟩
    · rintro ⟨hfree, -⟩
      obtain ⟨tree, htree⟩ := hcopy.2 hfree.directories
      exact ⟨_, Steps.result_andThen.2 ⟨tree, htree, rfl⟩⟩
  · obtain ⟨tree, htree, hresult⟩ := Steps.result_andThen.1 hr
    obtain rfl : records ++ [recordOf q content quality] = r := Except.ok.inj hresult
    exact ⟨quality, tree, rfl, (houtcome tree htree).1, hlast tree htree⟩

/-! ### The files of a request -/

/-- What the imports of a run of files have done. -/
structure Taken (host : AssetHost) (all : List Requested) (s e : AssetRun)
    (records r : List AssetRecord) (qs : List Requested) : Prop where
  workspace : ∃ tree assetPaths, e.workspace = { s.workspace with tree, assetPaths }
  registry : e.registry = .records r ∨ r = records ∧ e.registry = s.registry
  recorded : ∀ q ∈ qs, q.casePath ∈ r.map (·.casePath)
  kept : ∀ record ∈ records, record ∈ r
  added : ∀ record ∈ r, record ∈ records ∨ record.casePath ∈ e.workspace.assetPaths
  protects : ∀ path ∈ s.workspace.assetPaths, path ∈ e.workspace.assetPaths
  intact : Intact e.workspace r
  unchanged : Unchanged host all r

theorem intact_imported {tree : FileTree Text Bytes} {casePath : Text} {r : List AssetRecord}
    {records : List AssetRecord} {l : Location} (h : Intact s.workspace records)
    (hplaced : Placed l content s.workspace.tree tree) :
    Intact (s.imported tree casePath r).workspace records := by
  intro record hrecord
  obtain ⟨k, b, hresolve, hb, hdigest⟩ := h record hrecord
  refine ⟨k, b, ?_, hplaced.fileAt_of_some hb, hdigest⟩
  unfold CaseWorkspace.resolveCasePath at hresolve ⊢
  split at hresolve
  · cases hresolve
  · rename_i relative hrelative
    split_ifs at hresolve with hlink' hfile
    obtain rfl := Except.ok.inj hresolve
    have hlink'' : ¬ tree.linkOnPath relative := by rwa [hplaced.linkOnPath]
    have hfile' : tree.isFile relative := by
      rw [isFile, hplaced.fileAt_of_some hb]
      rfl
    refine (if_neg hlink'').trans (if_neg ?_)
    rw [not_and_or, not_not]
    exact .inr hfile'

theorem intact_new {tree : FileTree Text Bytes} {r : List AssetRecord} {quality : Document}
    (hplaced : Placed q.place content s.workspace.tree tree)
    (hlink : ¬ s.workspace.tree.linkOnPath q.place)
    (hplace : validateRelative q.casePath = .ok q.place) :
    Intact (s.imported tree q.casePath r).workspace [recordOf q content quality] := by
  intro record hrecord
  obtain rfl := List.mem_singleton.1 hrecord
  refine ⟨q.place, content, ?_, hplaced.fileAt_self, rfl⟩
  have hlink' : ¬ tree.linkOnPath q.place := by rwa [hplaced.linkOnPath]
  have hfile : tree.isFile q.place := by
    rw [isFile, hplaced.fileAt_self]
    rfl
  unfold CaseWorkspace.resolveCasePath recordOf
  dsimp only
  rw [hplace]
  refine (if_neg hlink').trans (if_neg ?_)
  rw [not_and_or, not_not]
  exact .inr hfile

theorem intact_append {w : CaseWorkspace} {records r : List AssetRecord} (h : Intact w records)
    (h' : Intact w r) : Intact w (records ++ r) :=
  fun record hrecord => (List.mem_append.1 hrecord).elim (h record) (h' record)

theorem unchanged_new {w : CaseWorkspace} {all : List Requested} {quality : Document}
    (hadmissible : Admissible host w all) (hunchanged : Unchanged host all records)
    (hq : q ∈ all) (hsource : regularSource host q.source = .ok content) :
    Unchanged host all (records ++ [recordOf q content quality]) := by
  intro q' hq' record hrecord hpath
  rcases List.mem_append.1 hrecord with hrecord | hrecord
  · exact hunchanged q' hq' record hrecord hpath
  · obtain rfl := List.mem_singleton.1 hrecord
    have hplace := hadmissible.place_eq hq hq' hpath
    refine ⟨content, ?_, rfl⟩
    rw [← hadmissible.same q hq q' hq' hplace]
    exact fileAt_of_regularSource hsource

/-- Behind the import of a file, the others can be imported exactly when all of them could. -/
theorem importable_cons_iff {w w' : CaseWorkspace} {qs : List Requested} {known : List Text}
    (hadmissible : Admissible host w (q :: qs)) (hnew : q.casePath ∉ known)
    (hplaced : Placed q.place content w.tree w'.tree)
    (hfiles : w'.maxExecutionFiles = w.maxExecutionFiles)
    (hbytes : w'.maxExecutionBytes = w.maxExecutionBytes)
    (hsize : q.size host = content.length) (hlink : ¬ w.tree.linkOnPath q.place)
    (hdirectories : ∀ k ∈ parents q.place, ∀ n, w.tree.lookup k = some n → n = .directory) :
    Importable host w known (q :: qs) ↔
      ((∃ files, w.executionFileSeals = .ok files) ∧
        w.inputBytes + content.length ≤ w.maxExecutionBytes) ∧
      Importable host w' (known ++ [q.casePath]) qs := by
  have hmissing : missing known (q :: qs) = q :: missing (known ++ [q.casePath]) qs := if_neg hnew
  have hfits := fits_cons_iff (missing (known ++ [q.casePath]) qs) hplaced hfiles hbytes
    (hadmissible.writable q List.mem_cons_self) hsize
  -- the place of another file is as free as it was
  have hfree : ∀ q' ∈ qs, q'.casePath ≠ q.casePath → (Free w' q'.place ↔ Free w q'.place) := by
    intro q' hq' hne
    have hplaces : q'.place ≠ q.place := fun heq => hne (congrArg asPosix heq)
    refine free_of_placed hplaced (fun hbelow => hplaces ?_) fun hbelow => hplaces ?_
    · exact (hadmissible.apart q List.mem_cons_self q' (List.mem_cons_of_mem _ hq') hbelow).symm
    · exact hadmissible.apart q' (List.mem_cons_of_mem _ hq') q List.mem_cons_self hbelow
  have hself : Free w q.place := ⟨hplaced.new, hlink, hdirectories⟩
  constructor
  · rintro ⟨hall, hfit⟩
    obtain ⟨hstep, hrest⟩ := hfits.1 (hmissing ▸ hfit)
    refine ⟨hstep, ⟨fun q' hq' hq => ?_, hrest⟩⟩
    rw [List.mem_append, List.mem_singleton, not_or] at hq
    exact (hfree q' hq' hq.2).2 (hall q' (List.mem_cons_of_mem _ hq') hq.1)
  · rintro ⟨hstep, hall, hrest⟩
    refine ⟨fun q' hq' hq => ?_, hmissing ▸ hfits.2 ⟨hstep, hrest⟩⟩
    rcases List.mem_cons.1 hq' with rfl | hq'
    · exact hself
    · by_cases heq : q'.casePath = q.casePath
      · rw [hadmissible.place_eq (List.mem_cons_of_mem _ hq') List.mem_cons_self heq]
        exact hself
      · refine (hfree q' hq' heq).1 (hall q' hq' ?_)
        rw [List.mem_append, List.mem_singleton, not_or]
        exact ⟨hq, heq⟩

theorem Taken.refl {all : List Requested} (hintact : Intact s.workspace records)
    (hunchanged : Unchanged host all records) : Taken host all s s records records [] :=
  ⟨⟨_, _, rfl⟩, .inr ⟨rfl, rfl⟩, nofun, fun _ => id, fun _ => .inl, fun _ => id, hintact,
    hunchanged⟩

theorem admissible_of_workspace {w w' : CaseWorkspace} {qs : List Requested}
    (h : Admissible host w qs) (hw : ∃ tree assetPaths, w' = { w with tree, assetPaths }) :
    Admissible host w' qs := by
  obtain ⟨tree, assetPaths, rfl⟩ := hw
  exact ⟨h.source, h.writable, h.same, h.apart⟩

theorem map_casePath_append (records : List AssetRecord) (q : Requested) (content : Bytes)
    (quality : Document) :
    (records ++ [recordOf q content quality]).map (·.casePath) =
      records.map (·.casePath) ++ [q.casePath] := by
  rw [List.map_append]
  rfl

theorem importFiles_cons (approved : List Location) (q : Requested) (qs : List Requested)
    (records : List AssetRecord) (s : AssetRun) :
    importFiles host approved (q :: qs) records s =
      (importFile host approved q records s).andThen s fun s records =>
        importFiles host approved qs records s := rfl

/-- **A run of imports.** It returns exactly where the files without a record can be imported, and
then every file has its record. -/
theorem importFiles_taken {all qs : List Requested} (hadmissible : Admissible host s.workspace all)
    (hqs : ∀ q ∈ qs, q ∈ all) (happroved : ∀ q ∈ qs, q.source ∈ approved)
    (hintact : Intact s.workspace records) (hunchanged : Unchanged host all records) :
    ((∃ r, (importFiles host approved qs records s).result = .ok r) ↔
      Importable host s.workspace (records.map (·.casePath)) qs) ∧
    ∀ r, (importFiles host approved qs records s).result = .ok r →
      Taken host all s ((importFiles host approved qs records s).last s) records r qs := by
  induction qs generalizing s records with
  | nil =>
    refine ⟨iff_of_true ⟨records, rfl⟩ ⟨nofun, .inl rfl⟩, fun r hr => ?_⟩
    obtain rfl := Except.ok.inj hr
    exact .refl hintact hunchanged
  | cons q qs ih =>
    obtain ⟨hq, hqs'⟩ := List.forall_mem_cons.1 hqs
    obtain ⟨happrovedq, happroved'⟩ := List.forall_mem_cons.1 happroved
    obtain ⟨content, hsource, hsize, hquality, hinspect⟩ := hadmissible.source q hq
    have hfile := fileAt_of_regularSource hsource
    by_cases hknown : q.casePath ∈ records.map (·.casePath)
    · -- the file is recorded, and nothing happens
      have hskip : importFile host approved q records s = .returned records := by
        refine importFile_known hsource happrovedq hsize hintact (fun record hmem hpath => ?_) hknown
        obtain ⟨b, hb, hdigest⟩ := hunchanged q hq record hmem hpath
        rwa [Option.some.inj (hb.symm.trans hfile)] at hdigest
      obtain ⟨hreturns, houtcome⟩ := ih hadmissible hqs' happroved' hintact hunchanged
      have himportable : Importable host s.workspace (records.map (·.casePath)) (q :: qs) ↔
          Importable host s.workspace (records.map (·.casePath)) qs := by
        have hmissing : missing (records.map (·.casePath)) (q :: qs) =
            missing (records.map (·.casePath)) qs := if_pos hknown
        refine ⟨fun h => ⟨fun q' hq' => h.free q' (List.mem_cons_of_mem _ hq'), hmissing ▸ h.fits⟩,
          fun h => ⟨fun q' hq' hnew => ?_, hmissing ▸ h.fits⟩⟩
        rcases List.mem_cons.1 hq' with rfl | hq'
        · exact absurd hknown hnew
        · exact h.free q' hq' hnew
      rw [importFiles_cons, hskip, himportable]
      refine ⟨hreturns, fun r hr => ?_⟩
      have htaken := houtcome r hr
      refine { htaken with recorded := List.forall_mem_cons.2 ⟨?_, htaken.recorded⟩ }
      obtain ⟨record, hmem, hpath⟩ := List.mem_map.1 hknown
      exact List.mem_map.2 ⟨record, htaken.kept record hmem, hpath⟩
    · -- the file is imported, and the others behind it
      have hplace := hadmissible.writable q hq
      obtain ⟨hreturns, houtcome⟩ := importFile_new hsource happrovedq hsize hquality hinspect hplace
        hknown
      have hsizeq : q.size host = content.length := by rw [Requested.size, hfile, Option.getD_some]
      by_cases hresult : ∃ r, (importFile host approved q records s).result = .ok r
      · obtain ⟨r₁, hr₁⟩ := hresult
        obtain ⟨quality, tree, rfl, hplaced, hlast⟩ := houtcome r₁ hr₁
        obtain ⟨hfree, hfit⟩ := hreturns.1 ⟨_, hr₁⟩
        set s₁ := s.imported tree q.casePath (records ++ [recordOf q content quality]) with hs₁
        have hworkspace : ∃ tree assetPaths, s₁.workspace = { s.workspace with tree, assetPaths } :=
          ⟨_, _, rfl⟩
        have hintact₁ : Intact s₁.workspace (records ++ [recordOf q content quality]) :=
          intact_append (intact_imported hintact hplaced) (intact_new hplaced hfree.unlinked hplace)
        obtain ⟨hreturns₁, houtcome₁⟩ := ih (admissible_of_workspace hadmissible hworkspace) hqs'
          happroved' hintact₁ (unchanged_new hadmissible hunchanged hq hsource)
        have hplaced₁ : Placed q.place content s.workspace.tree s₁.workspace.tree := hplaced
        have himportable := importable_cons_iff (hadmissible.mono hqs) hknown hplaced₁ rfl rfl
          hsizeq hfree.unlinked hfree.directories
        rw [map_casePath_append] at hreturns₁
        rw [himportable, and_iff_right hfit, ← hreturns₁, importFiles_cons]
        refine ⟨?_, fun r hr => ?_⟩
        · constructor
          · rintro ⟨r, hr⟩
            obtain ⟨a, ha, hr⟩ := Steps.result_andThen.1 hr
            obtain rfl := Except.ok.inj (hr₁.symm.trans ha)
            rw [hlast] at hr
            exact ⟨r, hr⟩
          · rintro ⟨r, hr⟩
            exact ⟨r, Steps.result_andThen.2 ⟨_, hr₁, by rw [hlast]; exact hr⟩⟩
        · obtain ⟨a, ha, hr⟩ := Steps.result_andThen.1 hr
          obtain rfl := Except.ok.inj (hr₁.symm.trans ha)
          rw [hlast] at hr
          rw [Steps.last_andThen hr₁, hlast]
          have htaken := houtcome₁ r hr
          obtain ⟨tree', assetPaths', hworkspace'⟩ := htaken.workspace
          have hnew : q.casePath ∈ s₁.workspace.assetPaths := OrderedSet.mem_add.2 (.inl rfl)
          refine ⟨⟨tree', assetPaths', hworkspace'⟩, ?_, ?_, ?_, ?_, ?_, htaken.intact,
            htaken.unchanged⟩
          · rcases htaken.registry with hsaved | ⟨rfl, hsaved⟩
            · exact .inl hsaved
            · exact .inl hsaved
          · refine List.forall_mem_cons.2 ⟨?_, htaken.recorded⟩
            exact List.mem_map.2 ⟨_, htaken.kept _ (List.mem_append_right _ List.mem_cons_self), rfl⟩
          · exact fun record hmem => htaken.kept record (List.mem_append_left _ hmem)
          · intro record hmem
            rcases htaken.added record hmem with hmem | hmem
            · rcases List.mem_append.1 hmem with hmem | hmem
              · exact .inl hmem
              · obtain rfl := List.mem_singleton.1 hmem
                exact .inr (htaken.protects _ hnew)
            · exact .inr hmem
          · exact fun path hpath => htaken.protects path (OrderedSet.mem_add.2 (.inr hpath))
      · rw [importFiles_cons]
        refine ⟨iff_of_false ?_ fun h => hresult (hreturns.2 ?_), fun r hr => ?_⟩
        · rintro ⟨r, hr⟩
          obtain ⟨a, ha, -⟩ := Steps.result_andThen.1 hr
          exact hresult ⟨a, ha⟩
        · have hfits := h.fits
          rw [missing, if_neg hknown] at hfits
          exact ⟨h.free q List.mem_cons_self hknown, hsizeq ▸ fits_head hfits⟩
        · obtain ⟨a, ha, -⟩ := Steps.result_andThen.1 hr
          exact absurd ⟨a, ha⟩ hresult

/-! ### A whole request -/

/-- The files of a request, in the order of their import. -/
def requested (host : AssetHost) (maxFiles : ℕ) (request : AssetRequest) :
    Except AssetError (List Requested) :=
  match request.existingCase with
  | none | some [] => .ok (geometryFiles host request ++ additionalFiles host request)
  | some text =>
    match caseFiles host maxFiles (host.absolute text) with
    | .error e => .error e
    | .ok files => .ok (geometryFiles host request ++ additionalFiles host request ++
        requestedCase (host.absolute text) files)

/-- Which sources are approved does not matter as long as all of them are. -/
theorem importFiles_approved {approved' : List Location} {qs : List Requested}
    (h : ∀ q ∈ qs, q.source ∈ approved) (h' : ∀ q ∈ qs, q.source ∈ approved')
    (records : List AssetRecord) (s : AssetRun) :
    importFiles host approved qs records s = importFiles host approved' qs records s := by
  induction qs generalizing records s with
  | nil => rfl
  | cons q qs ih =>
    obtain ⟨hq, hqs⟩ := List.forall_mem_cons.1 h
    obtain ⟨hq', hqs'⟩ := List.forall_mem_cons.1 h'
    have hone : importFile host approved q records s = importFile host approved' q records s := by
      unfold importFile
      split
      · rfl
      · rw [if_neg (not_not.2 hq), if_neg (not_not.2 hq')]
    rw [importFiles_cons, importFiles_cons, hone]
    congr 1
    funext s records
    exact ih hqs hqs' records s

theorem importFiles_append (qs qs' : List Requested) (records : List AssetRecord) (s : AssetRun) :
    importFiles host approved (qs ++ qs') records s =
      (importFiles host approved qs records s).andThen s fun s records =>
        importFiles host approved qs' records s := by
  induction qs generalizing records s with
  | nil => rfl
  | cons q qs ih =>
    rw [List.cons_append, importFiles_cons, importFiles_cons, Steps.andThen_assoc]
    congr 1
    funext s records
    exact ih records s

/-- The whole request is one run of imports behind the opening of the registry. -/
theorem ingestRequestAssets_eq {request : AssetRequest} {qs : List Requested}
    (h : requested host s.workspace.maxExecutionFiles request = .ok qs) :
    ingestRequestAssets host request s =
      (openRegistry s).andThen s fun s records =>
        (importFiles host (qs.map (·.source)) qs records s).andThen s fun _ records =>
          .returned (publicSummary records) := by
  have hsub : ∀ {part : List Requested}, (∀ q ∈ part, q ∈ qs) → ∀ records s,
      importFiles host (part.map (·.source)) part records s =
        importFiles host (qs.map (·.source)) part records s := fun hpart records s =>
    importFiles_approved (fun q hq => List.mem_map_of_mem hq)
      (fun q hq => List.mem_map_of_mem (hpart q hq)) records s
  unfold ingestRequestAssets
  dsimp only
  congr 1
  funext s' records
  unfold requested at h
  rcases hcase : request.existingCase with _ | ⟨_ | ⟨c, text⟩⟩ <;> rw [hcase] at h
  · obtain rfl : _ = qs := Except.ok.inj h
    rw [hsub fun q hq => List.mem_append_left _ hq, importFiles_append, Steps.andThen_assoc]
    congr 1
    funext s records
    rw [hsub fun q hq => List.mem_append_right _ hq]
  · obtain rfl : _ = qs := Except.ok.inj h
    rw [hsub fun q hq => List.mem_append_left _ hq, importFiles_append, Steps.andThen_assoc]
    congr 1
    funext s records
    rw [hsub fun q hq => List.mem_append_right _ hq]
  · rcases hfiles : caseFiles host s.workspace.maxExecutionFiles (host.absolute (c :: text)) with
      e | files
    · simp only [hfiles] at h
      cases h
    · simp only [hfiles] at h
      obtain rfl := Except.ok.inj h
      rw [hsub fun q hq => List.mem_append_left _ (List.mem_append_left _ hq), importFiles_append,
        importFiles_append, Steps.andThen_assoc, Steps.andThen_assoc]
      congr 1
      funext s records
      rw [hsub fun q hq => List.mem_append_left _ (List.mem_append_right _ hq)]
      congr 1
      funext s records
      unfold importCaseTree
      dsimp only
      rw [hfiles]
      dsimp only
      rw [hsub fun q hq => List.mem_append_right _ hq]

/-! ### The registry -/

/-- Only the protected paths have changed, and none was dropped. -/
structure Protecting (s u : AssetRun) : Prop where
  registry : u.registry = s.registry
  workspace : ∃ assetPaths, u.workspace = { s.workspace with assetPaths }
  protects : ∀ path ∈ s.workspace.assetPaths, path ∈ u.workspace.assetPaths

theorem Protecting.refl (s : AssetRun) : Protecting s s := ⟨rfl, ⟨_, rfl⟩, fun _ => id⟩

theorem Protecting.protect (s : AssetRun) (path : Text) : Protecting s (s.protect path) :=
  ⟨rfl, ⟨_, rfl⟩, fun _ h => OrderedSet.mem_add.2 (.inr h)⟩

theorem Protecting.trans {u v : AssetRun} (h : Protecting s u) (h' : Protecting u v) :
    Protecting s v := by
  obtain ⟨assetPaths, hw⟩ := h.workspace
  obtain ⟨assetPaths', hw'⟩ := h'.workspace
  exact ⟨h'.registry.trans h.registry, ⟨assetPaths', by rw [hw', hw]⟩,
    fun path hpath => h'.protects path (h.protects path hpath)⟩

theorem Protecting.intact_iff {u : AssetRun} (h : Protecting s u) (records : List AssetRecord) :
    Intact u.workspace records ↔ Intact s.workspace records := by
  obtain ⟨assetPaths, hw⟩ := h.workspace
  rw [hw]
  rfl

/-- The constructor protects the paths of the records. -/
theorem adoptRecords_protecting (records : List AssetRecord) (s : AssetRun) :
    (adoptRecords records s).Crashes (Protecting s)
      (fun u _ => Protecting s u ∧ ∀ record ∈ records, record.casePath ∈ u.workspace.assetPaths)
      s := by
  induction records generalizing s with
  | nil => exact .returned ⟨.refl s, nofun⟩
  | cons record records ih =>
    unfold adoptRecords
    split
    · exact .raised _
    · split_ifs
      · exact .raised _
      · have hprotect := Protecting.protect s record.casePath
        refine .after hprotect ((ih _).mono (fun u hu => hprotect.trans hu) fun u _ hu => ?_)
        refine ⟨hprotect.trans hu.1, List.forall_mem_cons.2 ⟨?_, hu.2⟩⟩
        exact hu.1.protects _ (OrderedSet.mem_add.2 (.inl rfl))

theorem adoptRecords_returns_iff (records : List AssetRecord) (s : AssetRun) :
    (∃ a, (adoptRecords records s).result = .ok a) ↔ Intact s.workspace records := by
  induction records generalizing s with
  | nil => exact iff_of_true ⟨(), rfl⟩ nofun
  | cons record records ih =>
    have hcons : Intact s.workspace (record :: records) ↔
        (∃ l content, s.workspace.resolveCasePath record.casePath true = .ok l ∧
          s.workspace.tree.fileAt l = some content ∧ record.copySha256 = ⟨content⟩) ∧
        Intact s.workspace records := List.forall_mem_cons
    rw [hcons]
    unfold adoptRecords
    rcases hresolve : s.workspace.resolveCasePath record.casePath true with e | target
    · refine iff_of_false not_exists_ok ?_
      rintro ⟨⟨_, _, h, -⟩, -⟩
      cases h
    · have hfile : s.workspace.tree.isFile target := by
        unfold CaseWorkspace.resolveCasePath at hresolve
        split at hresolve
        · cases hresolve
        · split_ifs at hresolve with _ hmissing
          obtain rfl := Except.ok.inj hresolve
          rw [not_and_or, not_not] at hmissing
          exact hmissing.resolve_left fun h => h rfl
      obtain ⟨content, hcontent⟩ := Option.isSome_iff_exists.1 hfile
      dsimp only
      rw [hcontent, Option.getD_some]
      by_cases hdigest : (⟨content⟩ : Digest) ≠ record.copySha256
      · rw [if_pos hdigest]
        refine iff_of_false not_exists_ok ?_
        rintro ⟨⟨l, copy, hl, hcopy, heq⟩, -⟩
        obtain rfl := Except.ok.inj hl
        obtain rfl := Option.some.inj (hcopy.symm.trans hcontent)
        exact hdigest heq.symm
      · rw [if_neg hdigest, and_iff_right ⟨target, content, rfl, hcontent, (not_not.1 hdigest).symm⟩]
        exact (ih _).trans ((Protecting.protect s record.casePath).intact_iff records)

/-- **The registry is opened** exactly when it is no link and its copies are what they were. -/
theorem openRegistry_returns_iff (s : AssetRun) :
    ((∃ a, (openRegistry s).result = .ok a) ↔
      s.registry ≠ .symlink ∧ Intact s.workspace s.registry.rows) ∧
    (openRegistry s).Crashes (Protecting s) (fun u rows => Protecting s u ∧
      rows = s.registry.rows ∧ ∀ record ∈ rows, record.casePath ∈ u.workspace.assetPaths) s := by
  unfold openRegistry
  rcases s.registry with _ | _ | rows
  · exact ⟨iff_of_true ⟨_, rfl⟩ ⟨nofun, nofun⟩, .returned ⟨.refl s, rfl, nofun⟩⟩
  · exact ⟨iff_of_false not_exists_ok fun h => h.1 rfl, .raised _⟩
  · refine ⟨?_, (adoptRecords_protecting rows s).andThen fun u _ hu => .returned ⟨hu.1, rfl, hu.2⟩⟩
    rw [and_iff_right nofun]
    refine Iff.trans ?_ (adoptRecords_returns_iff rows s)
    constructor
    · rintro ⟨a, ha⟩
      obtain ⟨b, hb, -⟩ := Steps.result_andThen.1 ha
      exact ⟨b, hb⟩
    · rintro ⟨b, hb⟩
      exact ⟨rows, Steps.result_andThen.2 ⟨b, hb, rfl⟩⟩

/-- Every path has one record, and every copy is that of its source. -/
structure WellFormed (records : List AssetRecord) : Prop where
  paths : (records.map (·.casePath)).Nodup
  copies : ∀ record ∈ records, record.copySha256 = record.sourceSha256

theorem copySource_registry (content : Bytes) (target : Location) (s : AssetRun) :
    (copySource host content target s).Crashes (fun u => u.registry = s.registry)
      (fun u _ => u.registry = s.registry) s := by
  have hmade : (makeDirectorySteps s.withTree AssetError.os (parents target)
      s.workspace.tree).Crashes (fun u => u.registry = s.registry)
      (fun u _ => u.registry = s.registry) s := by
    refine (makeDirectorySteps_opened s.withTree AssetError.os _ _).mono ?_ ?_
    · rintro u ⟨t, rfl, -⟩
      rfl
    · rintro u t ⟨rfl, -⟩
      rfl
  refine hmade.andThen fun u t hu => ?_
  have hwritten : ∀ temporary, (writeSteps u.withTree temporary content u.workspace.tree :
      Steps AssetRun AssetError _).Crashes (fun v => v.registry = s.registry)
      (fun v _ => v.registry = s.registry) u := by
    refine fun temporary => (writeSteps_written u.withTree temporary content _ u).mono ?_ ?_
    · rintro v ⟨written, -, rfl⟩
      exact hu
    · rintro v t ⟨rfl, -⟩
      exact hu
  refine (hwritten _).andThen fun v t hv => ?_
  split_ifs
  · exact .after hv (.raised _)
  · split
    · exact .after hv (.raised _)
    · exact .after hv (.returned hv)

/-- The record of a new path keeps the records well formed. -/
theorem WellFormed.append (h : WellFormed records)
    (hnew : records.find? (·.casePath = q.casePath) = none) (content : Bytes) (quality : Document) :
    WellFormed (records ++ [recordOf q content quality]) where
  paths := by
    rw [map_casePath_append, List.nodup_append]
    refine ⟨h.paths, List.nodup_singleton _, fun path hpath path' hpath' heq => ?_⟩
    obtain rfl := List.mem_singleton.1 hpath'
    obtain ⟨record, hmem, rfl⟩ := List.mem_map.1 hpath
    exact List.find?_eq_none.1 hnew record hmem (by simpa using heq)
  copies record hmem := by
    rcases List.mem_append.1 hmem with hmem | hmem
    · exact h.copies record hmem
    · obtain rfl := List.mem_singleton.1 hmem
      rfl

/-- An import keeps the registry well formed wherever it is interrupted. -/
theorem importFile_wellFormed (hregistry : WellFormed s.registry.rows) (hrecords : WellFormed records)
    (q : Requested) : (importFile host approved q records s).Crashes
      (fun u => WellFormed u.registry.rows)
      (fun u r => WellFormed u.registry.rows ∧ WellFormed r) s := by
  unfold importFile
  split
  · exact .raised _
  rename_i content _
  split
  · exact .raised _
  split
  · exact .raised _
  split
  · exact .raised _
  rename_i target _
  split
  · -- a recorded file changes nothing
    split
    · exact .raised _
    split
    · exact .raised _
    split
    · exact .raised _
    · exact .returned ⟨hregistry, hrecords⟩
  · rename_i hfind
    split
    · exact .raised _
    rename_i quality _
    have hnew := hrecords.append hfind content quality
    have hcopied : (copySource host content target s).Crashes
        (fun u => WellFormed u.registry.rows) (fun u _ => WellFormed u.registry.rows) s :=
      (copySource_registry content target s).mono (fun u hu => hu ▸ hregistry)
        fun u _ hu => hu ▸ hregistry
    exact hcopied.andThen fun u _ hu => .after hu (.after hnew (.returned ⟨hnew, hnew⟩))

theorem importFiles_wellFormed (hregistry : WellFormed s.registry.rows)
    (hrecords : WellFormed records) (qs : List Requested) :
    (importFiles host approved qs records s).Crashes (fun u => WellFormed u.registry.rows)
      (fun u r => WellFormed u.registry.rows ∧ WellFormed r) s := by
  induction qs generalizing s records with
  | nil => exact .returned ⟨hregistry, hrecords⟩
  | cons q qs ih =>
    exact (importFile_wellFormed hregistry hrecords q).andThen fun u r hu => ih hu.1 hu.2

/-- **The registry is well formed wherever a call is interrupted.** -/
theorem ingestRequestAssets_wellFormed (hregistry : WellFormed s.registry.rows)
    (request : AssetRequest) : (ingestRequestAssets host request s).Crashes
      (fun u => WellFormed u.registry.rows) (fun u _ => WellFormed u.registry.rows) s := by
  unfold ingestRequestAssets
  have hopened : (openRegistry s).Crashes (fun u => WellFormed u.registry.rows)
      (fun u rows => WellFormed u.registry.rows ∧ WellFormed rows) s :=
    (openRegistry_returns_iff s).2.mono (fun u hu => hu.registry ▸ hregistry)
      fun u rows hu => ⟨hu.1.registry ▸ hregistry, hu.2.1 ▸ hregistry⟩
  refine hopened.andThen fun u rows hu => ?_
  refine (importFiles_wellFormed hu.1 hu.2 _).andThen fun u records hu => ?_
  refine (importFiles_wellFormed hu.1 hu.2 _).andThen fun u records hu => ?_
  split
  · exact .returned hu.1
  · exact .returned hu.1
  · unfold importCaseTree
    split
    · exact .raised _
    · exact (importFiles_wellFormed hu.1 hu.2 _).andThen fun u _ hu => .returned hu.1

/-! ### Taking up an import -/

/-- Every requested file has one record, with a copy of its source that is protected, and a further
call changes neither the registry nor the files. -/
structure Ingested (host : AssetHost) (request : AssetRequest) (qs : List Requested)
    (e : AssetRun) : Prop where
  copies : ∀ q ∈ qs, ∃ record content, e.registry.rows.filter (·.casePath = q.casePath) = [record] ∧
    host.sources.fileAt q.source = some content ∧ record.copySha256 = ⟨content⟩ ∧
    e.workspace.tree.fileAt q.place = some content ∧ q.casePath ∈ e.workspace.assetPaths
  again : ∃ summary, (ingestRequestAssets host request e).result = .ok summary
  unchanged : ∀ u ∈ (ingestRequestAssets host request e).states,
    u.workspace.tree = e.workspace.tree ∧ u.registry = e.registry

/-- The state from which a request can be taken up: the registry can be opened, the place of each
requested file that has no record is free, and these files fit into the case. -/
structure Recoverable (host : AssetHost) (s : AssetRun) (qs : List Requested) : Prop where
  registry : s.registry ≠ .symlink
  intact : Intact s.workspace s.registry.rows
  importable : Importable host s.workspace (s.registry.rows.map (·.casePath)) qs

/-- What an interrupted call leaves behind: one of the states behind its steps, or the one in front
of it. A new process has its own tracking sets. -/
def LeftBy (host : AssetHost) (request : AssetRequest) (r s : AssetRun) : Prop :=
  ∃ u, (u = r ∨ u ∈ (ingestRequestAssets host request r).states) ∧ s.registry = u.registry ∧
    ∃ assetPaths authoredPaths, s.workspace = { u.workspace with assetPaths, authoredPaths }

theorem wellFormed_of_leftBy {request : AssetRequest} {r : AssetRun}
    (hr : WellFormed r.registry.rows) (h : LeftBy host request r s) :
    WellFormed s.registry.rows := by
  obtain ⟨u, hu, hregistry, -⟩ := h
  rw [hregistry]
  rcases hu with rfl | hu
  · exact hr
  · exact (ingestRequestAssets_wellFormed hr request).interrupted u hu

variable {request : AssetRequest} {qs : List Requested}

/-- When a call returns, and what it has done then. -/
theorem ingestRequestAssets_taken
    (hrequested : requested host s.workspace.maxExecutionFiles request = .ok qs)
    (hadmissible : Admissible host s.workspace qs)
    (hunchanged : Unchanged host qs s.registry.rows) :
    ((∃ summary, (ingestRequestAssets host request s).result = .ok summary) ↔
      Recoverable host s qs) ∧
    ∀ summary, (ingestRequestAssets host request s).result = .ok summary →
      ∃ u r, Protecting s u ∧
        (∀ record ∈ s.registry.rows, record.casePath ∈ u.workspace.assetPaths) ∧
        Taken host qs u ((ingestRequestAssets host request s).last s) s.registry.rows r qs := by
  obtain ⟨hopens, hopened⟩ := openRegistry_returns_iff s
  have hrun : ∀ rows, (openRegistry s).result = .ok rows → rows = s.registry.rows ∧
      ∃ u, u = (openRegistry s).last s ∧ Protecting s u ∧
        (∀ record ∈ s.registry.rows, record.casePath ∈ u.workspace.assetPaths) ∧
        ((∃ r, (importFiles host (qs.map (·.source)) qs s.registry.rows u).result = .ok r) ↔
          Importable host s.workspace (s.registry.rows.map (·.casePath)) qs) ∧
        ∀ r, (importFiles host (qs.map (·.source)) qs s.registry.rows u).result = .ok r →
          Taken host qs u ((importFiles host (qs.map (·.source)) qs s.registry.rows u).last u)
            s.registry.rows r qs := by
    intro rows hrows
    obtain ⟨hprotecting, rfl, hprotected⟩ := hopened.returns rows hrows
    have hintact := (hprotecting.intact_iff _).2 (hopens.1 ⟨_, hrows⟩).2
    obtain ⟨assetPaths, hw⟩ := hprotecting.workspace
    have hadmissible' := admissible_of_workspace hadmissible ⟨s.workspace.tree, assetPaths, hw⟩
    have himportable : Importable host ((openRegistry s).last s).workspace
        (s.registry.rows.map (·.casePath)) qs ↔
        Importable host s.workspace (s.registry.rows.map (·.casePath)) qs := by
      rw [hw]
      exact ⟨fun h => ⟨fun q hq hnew => ⟨(h.free q hq hnew).1, (h.free q hq hnew).2,
        (h.free q hq hnew).3⟩, h.fits⟩, fun h => ⟨fun q hq hnew => ⟨(h.free q hq hnew).1,
        (h.free q hq hnew).2, (h.free q hq hnew).3⟩, h.fits⟩⟩
    have htaken := importFiles_taken hadmissible' (fun _ => id) (fun q => List.mem_map_of_mem) hintact
      hunchanged
    exact ⟨rfl, _, rfl, hprotecting, hprotected, htaken.1.trans himportable, htaken.2⟩
  rw [ingestRequestAssets_eq hrequested]
  refine ⟨?_, fun summary hsummary => ?_⟩
  · constructor
    · rintro ⟨summary, hsummary⟩
      obtain ⟨rows, hrows, hsummary⟩ := Steps.result_andThen.1 hsummary
      obtain ⟨rfl, u, rfl, -, -, hreturns, -⟩ := hrun rows hrows
      obtain ⟨r, hr, -⟩ := Steps.result_andThen.1 hsummary
      obtain ⟨hregistry, hintact⟩ := hopens.1 ⟨_, hrows⟩
      exact ⟨hregistry, hintact, hreturns.1 ⟨r, hr⟩⟩
    · rintro ⟨hregistry, hintact, himportable⟩
      obtain ⟨rows, hrows⟩ := hopens.2 ⟨hregistry, hintact⟩
      obtain ⟨rfl, u, rfl, -, -, hreturns, -⟩ := hrun rows hrows
      obtain ⟨r, hr⟩ := hreturns.2 himportable
      exact ⟨publicSummary r, Steps.result_andThen.2 ⟨_, hrows, Steps.result_andThen.2 ⟨r, hr, rfl⟩⟩⟩
  · obtain ⟨rows, hrows, hsummary⟩ := Steps.result_andThen.1 hsummary
    obtain ⟨rfl, u, rfl, hprotecting, hprotected, -, houtcome⟩ := hrun rows hrows
    obtain ⟨r, hr, -⟩ := Steps.result_andThen.1 hsummary
    rw [Steps.last_andThen hrows, Steps.last_andThen hr]
    exact ⟨_, r, hprotecting, hprotected, houtcome r hr⟩

/-- Where every file has its record, nothing is imported. -/
theorem importFiles_known {part : List Requested} (hadmissible : Admissible host s.workspace qs)
    (hpart : ∀ q ∈ part, q ∈ qs) (hintact : Intact s.workspace records)
    (hunchanged : Unchanged host qs records)
    (hknown : ∀ q ∈ part, q.casePath ∈ records.map (·.casePath)) :
    importFiles host (qs.map (·.source)) part records s = .returned records := by
  induction part with
  | nil => rfl
  | cons q part ih =>
    obtain ⟨hq, hpart⟩ := List.forall_mem_cons.1 hpart
    obtain ⟨hknownq, hknown⟩ := List.forall_mem_cons.1 hknown
    obtain ⟨content, hsource, hsize, -⟩ := hadmissible.source q hq
    have hskip : importFile host (qs.map (·.source)) q records s = .returned records := by
      refine importFile_known hsource (List.mem_map_of_mem hq) hsize hintact (fun record hmem hpath => ?_)
        hknownq
      obtain ⟨b, hb, hdigest⟩ := hunchanged q hq record hmem hpath
      rwa [Option.some.inj (hb.symm.trans (fileAt_of_regularSource hsource))] at hdigest
    rw [importFiles_cons, hskip]
    exact ih hpart hknown

theorem filter_eq_singleton {path : Text} {record : AssetRecord} (h : WellFormed records)
    (hmem : record ∈ records) (hpath : record.casePath = path) :
    records.filter (·.casePath = path) = [record] := by
  have hnodup : (records.filter (·.casePath = path)).Nodup := h.paths.of_map.filter _
  have hall : ∀ a, a ∈ records.filter (·.casePath = path) ↔ a ∈ [record] := by
    intro a
    rw [List.mem_filter, List.mem_singleton, decide_eq_true_eq]
    constructor
    · rintro ⟨ha, hpatha⟩
      exact List.inj_on_of_nodup_map h.paths ha hmem (hpatha.trans hpath.symm)
    · rintro rfl
      exact ⟨hmem, hpath⟩
  exact List.perm_singleton.1 ((List.perm_ext_iff_of_nodup hnodup (List.nodup_singleton _)).2 hall)

/-- What a call that returns has done. -/
theorem ingested_of_returns {summary : List AssetSummary} (hwell : WellFormed s.registry.rows)
    (hrequested : requested host s.workspace.maxExecutionFiles request = .ok qs)
    (hadmissible : Admissible host s.workspace qs)
    (hunchanged : Unchanged host qs s.registry.rows)
    (h : (ingestRequestAssets host request s).result = .ok summary) :
    Ingested host request qs ((ingestRequestAssets host request s).last s) := by
  have hrecoverable :=
    (ingestRequestAssets_taken hrequested hadmissible hunchanged).1.1 ⟨summary, h⟩
  obtain ⟨u, r, hprotecting, hprotected, htaken⟩ :=
    (ingestRequestAssets_taken hrequested hadmissible hunchanged).2 summary h
  have hwell' := (ingestRequestAssets_wellFormed hwell request).returns summary h
  generalize (ingestRequestAssets host request s).last s = e at htaken hwell' ⊢
  -- the registry that is left holds the records that were collected
  have hrows : e.registry.rows = r ∧ e.registry ≠ .symlink := by
    rcases htaken.registry with hsaved | ⟨rfl, hsame⟩
    · rw [hsaved]
      exact ⟨rfl, nofun⟩
    · rw [hsame, hprotecting.registry]
      exact ⟨rfl, hrecoverable.registry⟩
  have hworkspace : ∃ tree assetPaths, e.workspace = { s.workspace with tree, assetPaths } := by
    obtain ⟨assetPaths, hu⟩ := hprotecting.workspace
    obtain ⟨tree, assetPaths', he⟩ := htaken.workspace
    exact ⟨tree, assetPaths', by rw [he, hu]⟩
  have hadmissible' := admissible_of_workspace hadmissible hworkspace
  have hfiles : e.workspace.maxExecutionFiles = s.workspace.maxExecutionFiles := by
    obtain ⟨tree, assetPaths, he⟩ := hworkspace
    rw [he]
  obtain ⟨hopens, hopened⟩ := openRegistry_returns_iff e
  obtain ⟨rows, hopen⟩ := hopens.2 ⟨hrows.2, hrows.1.symm ▸ htaken.intact⟩
  obtain ⟨hprotecting', rfl, -⟩ := hopened.returns rows hopen
  obtain ⟨assetPaths, hlast⟩ := hprotecting'.workspace
  have hskip : importFiles host (qs.map (·.source)) qs e.registry.rows ((openRegistry e).last e) =
      .returned e.registry.rows := by
    rw [hrows.1]
    refine importFiles_known ?_ (fun _ => id) ?_ htaken.unchanged htaken.recorded
    · exact admissible_of_workspace hadmissible' ⟨e.workspace.tree, assetPaths, hlast⟩
    · exact (hprotecting'.intact_iff r).2 htaken.intact
  have hagain : ingestRequestAssets host request e =
      ⟨(openRegistry e).states, .ok (publicSummary e.registry.rows)⟩ := by
    rw [ingestRequestAssets_eq (hfiles.symm ▸ hrequested)]
    unfold Steps.andThen
    rw [hopen]
    dsimp only
    rw [hskip]
    exact congrArg (Steps.mk · _) (List.append_nil _)
  refine ⟨fun q hq => ?_, ⟨_, by rw [hagain]⟩, fun v hv => ?_⟩
  · obtain ⟨record, hmem, hpath⟩ := List.mem_map.1 (htaken.recorded q hq)
    obtain ⟨content, hcontent, hdigest⟩ := htaken.unchanged q hq record hmem hpath
    obtain ⟨l, copy, hresolve, hcopy, hcopied⟩ := htaken.intact record hmem
    have hl : l = q.place := by
      obtain ⟨relative, hrelative, rfl⟩ : ∃ relative,
          validateRelative record.casePath = .ok relative ∧ relative = l := by
        unfold CaseWorkspace.resolveCasePath at hresolve
        split at hresolve
        · cases hresolve
        · rename_i relative hrelative
          split_ifs at hresolve
          exact ⟨relative, hrelative, Except.ok.inj hresolve⟩
      rw [hpath, hadmissible.writable q hq] at hrelative
      exact (Except.ok.inj hrelative).symm
    have hsame : copy = content := by
      have hsource := hwell'.copies record (hrows.1.symm ▸ hmem)
      rw [hcopied, hdigest] at hsource
      exact Sha256.mk.inj hsource
    refine ⟨record, content, filter_eq_singleton hwell' (hrows.1.symm ▸ hmem) hpath, hcontent,
      hsame ▸ hcopied, hl ▸ hsame ▸ hcopy, ?_⟩
    rw [← hpath]
    rcases htaken.added record hmem with hold | hnew
    · exact htaken.protects _ (hprotected record hold)
    · exact hnew
  · rw [hagain] at hv
    have hprotects := hopened.interrupted v hv
    obtain ⟨assetPaths', hv'⟩ := hprotects.workspace
    exact ⟨by rw [hv'], hprotects.registry⟩

/-- **An interrupted import is taken up exactly where every copy has its record.** Whatever call was
interrupted, and wherever, a call for an admissible request returns and does what it should if and
only if the registry opens, the place of each requested file without a record is free, and these
files fit into the case as the interruption left it. -/
theorem ingestRequestAssets_recovers_iff (host : AssetHost) (interrupted request : AssetRequest)
    (r s : AssetRun) (qs : List Requested) (hr : WellFormed r.registry.rows)
    (hs : LeftBy host interrupted r s)
    (hrequested : requested host s.workspace.maxExecutionFiles request = .ok qs)
    (hadmissible : Admissible host s.workspace qs)
    (hunchanged : Unchanged host qs s.registry.rows) :
    ((∃ summary, (ingestRequestAssets host request s).result = .ok summary) ∧
      Ingested host request qs ((ingestRequestAssets host request s).last s)) ↔
    Recoverable host s qs := by
  have hwell := wellFormed_of_leftBy hr hs
  have hreturns := (ingestRequestAssets_taken hrequested hadmissible hunchanged).1
  constructor
  · rintro ⟨hsummary, -⟩
    exact hreturns.1 hsummary
  · intro hrecoverable
    obtain ⟨summary, hsummary⟩ := hreturns.2 hrecoverable
    exact ⟨⟨summary, hsummary⟩,
      ingested_of_returns hwell hrequested hadmissible hunchanged hsummary⟩

/-! ### Two surfaces -/

/-- A name of eight letters, where it is new. -/
def shortName : Text := ".asset-aaaaaaaa".toList

/-- A name that is longer than all others. -/
def longName (t : FileTree Text Bytes) (l : Location) : Text :=
  ".asset-".toList ++ .replicate (((l :: t.keys).map fun k => (k.getLastD []).length).sum) 'a'

def exampleName (t : FileTree Text Bytes) (l : Location) : Text :=
  if (t.lookup (l.dropLast ++ [shortName])).isNone ∧ l.dropLast ++ [shortName] ≠ l then shortName
  else longName t l

theorem length_le_sum {ls : List Location} {k : Location} (hk : k ∈ ls) :
    (k.getLastD []).length ≤ (ls.map fun k => (k.getLastD []).length).sum :=
  List.le_sum_of_mem (List.mem_map.2 ⟨k, hk, rfl⟩)

theorem length_longName (t : FileTree Text Bytes) (l : Location) :
    (longName t l).length = 7 + ((l :: t.keys).map fun k => (k.getLastD []).length).sum := by
  unfold longName
  generalize ((l :: t.keys).map fun k => (k.getLastD []).length).sum = n
  rw [List.length_append, List.length_replicate]
  exact congrArg (· + n) rfl

theorem longName_ne (t : FileTree Text Bytes) {l k : Location} (hk : k ∈ l :: t.keys) :
    l.dropLast ++ [longName t l] ≠ k := by
  intro heq
  have hle := length_le_sum hk
  rw [← heq, List.getLastD_concat, length_longName] at hle
  omega

theorem exampleName_new (t : FileTree Text Bytes) (l : Location) :
    t.lookup (l.dropLast ++ [exampleName t l]) = none := by
  by_cases hnew : (t.lookup (l.dropLast ++ [shortName])).isNone ∧ l.dropLast ++ [shortName] ≠ l
  · have hname : exampleName t l = shortName := if_pos hnew
    rw [hname]
    exact Option.isNone_iff_eq_none.1 hnew.1
  · have hname : exampleName t l = longName t l := if_neg hnew
    rw [hname]
    exact AList.lookup_eq_none.2 fun hmem =>
      longName_ne t (List.mem_cons_of_mem _ (AList.mem_keys.1 hmem)) rfl

theorem exampleName_ne (t : FileTree Text Bytes) (l : Location) :
    l.dropLast ++ [exampleName t l] ≠ l := by
  by_cases hnew : (t.lookup (l.dropLast ++ [shortName])).isNone ∧ l.dropLast ++ [shortName] ≠ l
  · have hname : exampleName t l = shortName := if_pos hnew
    rw [hname]
    exact hnew.2
  · have hname : exampleName t l = longName t l := if_neg hnew
    rw [hname]
    exact longName_ne t List.mem_cons_self

/-- A host with two surfaces. -/
def exampleHost : AssetHost where
  wordChar := fun _ => false
  sources := (∅ : FileTree Text Bytes)
    |>.insert ["data".toList] .directory
    |>.insert ["data".toList, "a.stl".toList] (.file [1])
    |>.insert ["data".toList, "b.stl".toList] (.file [2])
  absolute := pathParts
  basicQuality := fun _ _ => .ok []
  temporaryName := exampleName
  temporary_new := exampleName_new
  temporary_ne := exampleName_ne

/-- The request for both. -/
def exampleImport : AssetRequest := ⟨["/data/a.stl".toList, "/data/b.stl".toList], [], none⟩

def exampleFiles : List Requested :=
  [⟨["data".toList, "a.stl".toList], ["constant".toList, "triSurface".toList, "a.stl".toList], rfl⟩,
    ⟨["data".toList, "b.stl".toList], ["constant".toList, "triSurface".toList, "b.stl".toList], rfl⟩]

/-- A new run. -/
def exampleRun : AssetRun where
  workspace := { tree := ∅, authoredPaths := .empty, assetPaths := .empty }
  registry := .absent

/-- What an interruption behind some step leaves. -/
def interruptedAt (n : ℕ) : AssetRun :=
  (ingestRequestAssets exampleHost exampleImport exampleRun).states.getD n exampleRun

theorem leftBy_interruptedAt (n : ℕ) :
    LeftBy exampleHost exampleImport exampleRun (interruptedAt n) := by
  refine ⟨interruptedAt n, ?_, rfl, _, _, rfl⟩
  unfold interruptedAt
  rw [List.getD_eq_getElem?_getD]
  rcases hstate : (ingestRequestAssets exampleHost exampleImport exampleRun).states[n]? with _ | u
  · exact .inl rfl
  · exact .inr (List.mem_of_getElem? hstate)

theorem admissible_exampleFiles (w : CaseWorkspace) : Admissible exampleHost w exampleFiles where
  source := by
    have hstl : ∀ name ∈ ["a.stl".toList, "b.stl".toList],
        (suffix name).map asciiLower ∈ assetSuffixes := by decide +kernel
    refine List.forall_mem_cons.2 ⟨⟨[1], by decide +kernel, by decide +kernel, ⟨[], rfl⟩, ?_⟩,
      List.forall_mem_cons.2 ⟨⟨[2], by decide +kernel, by decide +kernel, ⟨[], rfl⟩, ?_⟩, nofun⟩⟩
    · exact if_pos (hstl _ List.mem_cons_self)
    · exact if_pos (hstl _ (List.mem_cons_of_mem _ List.mem_cons_self))
  writable := by decide +kernel
  same := by decide +kernel
  apart := by decide +kernel

theorem unchanged_interruptedAt (n : ℕ) (h : ∀ q ∈ exampleFiles,
    ∀ record ∈ (interruptedAt n).registry.rows, record.casePath = q.casePath →
      exampleHost.sources.fileAt q.source = some record.sourceSha256.preimage) :
    Unchanged exampleHost exampleFiles (interruptedAt n).registry.rows :=
  fun q hq record hrecord hpath => ⟨_, h q hq record hrecord hpath, rfl⟩

/-- An interruption behind the first record, with the second surface half written, is recovered
from. -/
theorem ingestRequestAssets_recovers_iff_example :
    (∃ summary, (ingestRequestAssets exampleHost exampleImport (interruptedAt 9)).result =
        .ok summary) ∧
      Ingested exampleHost exampleImport exampleFiles
        ((ingestRequestAssets exampleHost exampleImport (interruptedAt 9)).last
          (interruptedAt 9)) := by
  have hrequested : requested exampleHost (interruptedAt 9).workspace.maxExecutionFiles
      exampleImport = .ok exampleFiles := rfl
  have hunchanged := unchanged_interruptedAt 9 (by decide +kernel)
  have hreturns : (ingestRequestAssets exampleHost exampleImport (interruptedAt 9)).result.isOk := by
    decide +kernel
  have hsummary : ∃ summary, (ingestRequestAssets exampleHost exampleImport
      (interruptedAt 9)).result = .ok summary := by
    rcases hresult : (ingestRequestAssets exampleHost exampleImport (interruptedAt 9)).result
      with e | summary
    · rw [hresult] at hreturns
      cases hreturns
    · exact ⟨summary, rfl⟩
  have hrecoverable := (ingestRequestAssets_taken hrequested
    (admissible_exampleFiles (interruptedAt 9).workspace) hunchanged).1.1 hsummary
  exact (ingestRequestAssets_recovers_iff exampleHost exampleImport exampleImport exampleRun
    (interruptedAt 9) exampleFiles ⟨List.nodup_nil, nofun⟩ (leftBy_interruptedAt 9) hrequested
    (admissible_exampleFiles _) hunchanged).2 hrecoverable

/-- An interruption between the first copy and its record is not: the copy has no record, and every
later call refuses to overwrite it. -/
theorem unrecorded_copy_refused :
    LeftBy exampleHost exampleImport exampleRun (interruptedAt 4) ∧
      requested exampleHost (interruptedAt 4).workspace.maxExecutionFiles exampleImport =
        .ok exampleFiles ∧
      Admissible exampleHost (interruptedAt 4).workspace exampleFiles ∧
      Unchanged exampleHost exampleFiles (interruptedAt 4).registry.rows ∧
      (ingestRequestAssets exampleHost exampleImport exampleRun).result.isOk ∧
      (ingestRequestAssets exampleHost exampleImport (interruptedAt 4)).result =
        .error .overwrite :=
  ⟨leftBy_interruptedAt 4, rfl, admissible_exampleFiles _,
    unchanged_interruptedAt 4 (by decide +kernel), by decide +kernel, by decide +kernel⟩

end AssetRun

end Workspace
end OpenFoamAgent
