/-
# The reference index

`OpenFOAMReferenceIndex.search` of `tools/references.py`, with `_safe_files` and
`normalize_query`. The trees of the scopes are read in turns until the budget is spent, every
file is scored by the tokens of the query, and the best are returned with a snippet each. The
bodies that were read last are kept in a cache.

The bounds, the fairness, the ranking and the indifference to the cache hold of every search
(`search_spec`). The snippet is cut out of the body at the place where the first token stands
in the case-folded body, and folding makes some characters longer: a snippet holds the first
occurrence of a token exactly where that moves it by no more than the snippet's margin
(`Match.shows_iff`).
-/
import OpenFoamAgent.Library.RoundRobin
import OpenFoamAgent.Library.Shortlists
import OpenFoamAgent.Python.Regex
import OpenFoamAgent.Workspace.Path

namespace OpenFoamAgent
namespace Tools

open Python RoundRobin
open Workspace (Location asPosix)

/-! ### The trees -/

/-- What `stat` gives of a file that identifies its content. -/
structure FileStat where
  size : ℕ
  mtimeNs : ℕ
  ino : ℕ
  deriving DecidableEq

/-- An entry of a tree. Links, and what is neither a file nor a directory, are `other`. -/
inductive Entry where
  /-- A file, for which `stat` may raise. -/
  | file (stat : Option FileStat)
  | directory (entries : List (Text × Entry))
  | other

/-- A file of a tree. -/
structure FoundFile where
  place : Location
  stat : Option FileStat
  deriving DecidableEq

/-- The names and the files of a list of entries. -/
def filesIn : List (Text × Entry) → List (Text × Option FileStat)
  | [] => []
  | (name, .file stat) :: entries => (name, stat) :: filesIn entries
  | _ :: entries => filesIn entries

/-- Entries in the order of their names. -/
def byName {β : Type} (entries : List (Text × β)) : List (Text × β) :=
  entries.insertionSort fun e f => e.1 ≤ f.1

mutual

/-- `_safe_files`: the files of a directory in the order of their names, then those of its
directories. -/
def safeFiles : Entry → List FoundFile
  | .directory entries =>
    (byName (filesIn entries)).map (fun f => ⟨[f.1], f.2⟩) ++
      (byName (safeFilesIn entries)).flatMap fun d =>
        d.2.map fun f => { f with place := d.1 :: f.place }
  | _ => []

/-- The directories among some entries, each with its files. -/
def safeFilesIn : List (Text × Entry) → List (Text × List FoundFile)
  | [] => []
  | (name, entry) :: entries =>
    match entry with
    | .directory _ => (name, safeFiles entry) :: safeFilesIn entries
    | _ => safeFilesIn entries

end

/-- An official tree: its scope, the path of its root, and what is in it. -/
structure ReferenceRoot where
  scope : Text
  path : Text
  tree : Entry

/-- `ENV_ROOTS` -/
def envRoots : List Text := ["tutorials", "source", "etc", "modules"].map String.toList

/-- `OpenFOAMReferenceIndex.roots` -/
structure ReferenceRoots where
  items : List ReferenceRoot
  nodup : (items.map (·.scope)).Nodup
  known : ∀ r ∈ items, r.scope ∈ envRoots

/-! ### The cache -/

/-- The key of a body in the cache. -/
structure FileKey where
  path : Text
  stat : FileStat
  deriving DecidableEq

/-- `_content_cache`, the oldest body first. -/
abbrev ContentCache := List (FileKey × Text)

section
variable (content : FileKey → Option Text)

/-- The body of a file: empty where the file is long, and nothing where reading it raises. -/
def bodyOf (key : FileKey) : Option Text :=
  if key.stat.size ≤ 1000000 then content key else some []

/-- The body of a file by way of the cache, and the cache afterwards. -/
def fetchBody (key : FileKey) (cache : ContentCache) : Option Text × ContentCache :=
  match cache.lookup key with
  | some text => (some text, cache)
  | none =>
    match bodyOf content key with
    | none => (none, cache)
    | some text =>
      let extended := cache ++ [(key, text)]
      (some text, extended.drop (extended.length - 32))

end

/-! ### Scores and snippets -/

/-- The tables of Unicode that the search uses: `unicodedata.normalize("NFKC", text)`, the
`casefold` of a character, and the characters of `\w`. -/
structure UnicodeTables where
  nfkc : Text → Text
  folding : Char → Text
  wordChar : Char → Bool

variable (u : UnicodeTables)

/-- `text.casefold()` -/
def UnicodeTables.casefold (text : Text) : Text := text.flatMap u.folding

/-- `[\w.+-]+` -/
def UnicodeTables.queryToken : Pattern :=
  .group "token" (.plus (.one fun c => u.wordChar c || c == '.' || c == '+' || c == '-'))

/-- `normalize_query` -/
def normalizeQuery (query : Text) : List Text :=
  let tokens := (u.queryToken.findAll (u.casefold (u.nfkc query))).map fun m =>
    (m.group "token").getD []
  (tokens.filter fun token => !token.isEmpty).eraseDups

/-- `text.find(token)`, where the token stands in the text. -/
def findText (token text : Text) : Option ℕ :=
  (List.range (text.length + 1)).find? fun k => token.isPrefixOf (text.drop k)

/-- `first`: where the first of the tokens stands in the folded body. -/
def firstToken (tokens : List Text) (text : Text) : ℕ :=
  ((tokens.filterMap fun token => findText token (u.casefold text)).min?).getD 0

/-- Where the snippet is cut out of the body. -/
def snippetSpan (tokens : List Text) (text : Text) : ℕ × ℕ :=
  (firstToken u tokens text - 160, firstToken u tokens text + 500)

/-- `text[start:stop]` -/
def sliceText (text : Text) (start stop : ℕ) : Text := (text.take stop).drop start

/-- An entry of the returned list. -/
structure SearchResult where
  reference : Text
  scope : Text
  path : Text
  snippet : Text
  excerptSha256 : Text
  deriving DecidableEq

/-- An entry of `results`: the score, the reference and the entry to return. The body it was
made of is kept with it. -/
structure Match where
  score : ℕ
  reference : Text
  result : SearchResult
  body : Text
  deriving DecidableEq

/-- `score`, of the relative path of a file and of its body. -/
def searchScore (tokens : List Text) (relative body : Text) : ℕ :=
  4 * tokens.countP (fun token => contains token (u.casefold relative)) +
    tokens.countP (fun token => contains token (u.casefold body))

variable (sha256 : Text → Text)

/-- The entry of `results` for a file whose body was read; nothing where the score is zero. -/
def matchOf (tokens : List Text) (scope relative body : Text) : Option Match :=
  let score := searchScore u tokens relative body
  let span := snippetSpan u tokens body
  let snippet := sliceText body span.1 span.2
  let reference := scope ++ [':'] ++ relative
  if score = 0 then none
  else some
    { score, reference, body,
      result := { reference, scope, path := relative, snippet, excerptSha256 := sha256 snippet } }

/-- The order of the results: the higher score first, then the reference. -/
def Match.before (a b : Match) : Prop :=
  b.score < a.score ∨ (a.score = b.score ∧ a.reference ≤ b.reference)

instance : DecidableRel Match.before := fun a b =>
  inferInstanceAs (Decidable (b.score < a.score ∨ (a.score = b.score ∧ a.reference ≤ b.reference)))

/-! ### The search -/

variable (content : FileKey → Option Text)

/-- `str(path)` of a file below a root. -/
def pathBelow (root : ReferenceRoot) (relative : Text) : Text := root.path ++ ['/'] ++ relative

/-- `results`, and the cache. -/
structure Gathered where
  results : List Match
  cache : ContentCache

/-- What is done with a file: nothing is gathered of one that cannot be read. -/
def inspect (tokens : List Text) (root : ReferenceRoot) (f : FoundFile) (g : Gathered) : Gathered :=
  match f.stat with
  | none => g
  | some stat =>
    let relative := asPosix f.place
    let fetched := fetchBody content ⟨pathBelow root relative, stat⟩ g.cache
    match fetched.1 with
    | none => { g with cache := fetched.2 }
    | some body =>
      { results := g.results ++ (matchOf u sha256 tokens root.scope relative body).toList
        cache := fetched.2 }

/-- `last_search_metadata` -/
structure SearchMetadata where
  normalizedTokens : List Text
  inspectedByScope : List (Text × ℕ)
  exhaustedScopes : List Text
  possiblyTruncatedScopes : List Text
  uninspectedScopes : List Text
  fileBudget : ℕ
  deriving DecidableEq

/-- The metadata at the end of the scan of the sources `qs`, whose scopes are in order. -/
def searchMetadata (tokens : List Text) (maxFiles : ℕ)
    (qs : List (Source ReferenceRoot FoundFile)) : SearchMetadata where
  normalizedTokens := tokens
  inspectedByScope := qs.map fun q => (q.label.scope, q.taken.length)
  exhaustedScopes := (qs.filter (·.exhausted)).map (·.label.scope)
  possiblyTruncatedScopes := (qs.filter (!·.exhausted)).map (·.label.scope)
  uninspectedScopes := (qs.filter fun q => q.taken.length == 0).map (·.label.scope)
  fileBudget := maxFiles

/-- `results[:limit]`, and what a search leaves in the index. -/
structure SearchOutcome where
  chosen : List Match
  metadata : SearchMetadata
  cache : ContentCache

/-- The returned list. -/
def SearchOutcome.results (out : SearchOutcome) : List SearchResult := out.chosen.map (·.result)

/-- `_selected_roots` -/
def selectedRoots (roots : ReferenceRoots) (scope : Text) : Except Text (List ReferenceRoot) :=
  if scope = "all".toList then
    .ok (roots.items.insertionSort fun r s => r.scope ≤ s.scope)
  else if scope ∉ envRoots then .error ("Unsupported reference scope: ".toList ++ scope)
  else .ok (roots.items.find? fun r => r.scope = scope).toList

/-- The scan of the selected trees in turns. -/
def searchIn (tokens : List Text) (selected : List ReferenceRoot) (limit maxFiles : ℕ)
    (cache : ContentCache) : SearchOutcome :=
  let sources := selected.map fun r => (r, safeFiles r.tree)
  let scanned := scan (inspect u sha256 content tokens) maxFiles
    (sources.map fun x => Source.ofItems x.1 x.2) ⟨[], cache⟩
  { chosen := (scanned.2.2.results.insertionSort Match.before).take limit
    metadata := searchMetadata tokens maxFiles scanned.1
    cache := scanned.2.2.cache }

/-- `OpenFOAMReferenceIndex.search` -/
def search (roots : ReferenceRoots) (query scope : Text) (limit maxFiles : ℤ)
    (cache : ContentCache) : Except Text SearchOutcome :=
  if ¬ (1 ≤ maxFiles ∧ maxFiles ≤ 100000) ∨ ¬ (1 ≤ limit ∧ limit ≤ 100) then
    .error "Reference scan bounds are outside policy.".toList
  else
    (selectedRoots roots scope).map fun selected =>
      searchIn u sha256 content (normalizeQuery u query) selected limit.toNat maxFiles.toNat cache

/-- The caches that searches leave, from the empty one on. -/
inductive Reached : ContentCache → Prop
  | empty : Reached []
  | search {cache : ContentCache} (h : Reached cache) {roots : ReferenceRoots}
      {query scope : Text} {limit maxFiles : ℤ} {out : SearchOutcome}
      (hs : search u sha256 content roots query scope limit maxFiles cache = .ok out) :
      Reached out.cache

/-! ### The cache holds what is read -/

/-- Every body in the cache is the one that reading its file gives. -/
def Faithful (cache : ContentCache) : Prop := ∀ e ∈ cache, bodyOf content e.1 = some e.2

variable {content}

theorem fetchBody_faithful {cache : ContentCache} (h : Faithful content cache) (key : FileKey) :
    (fetchBody content key cache).1 = bodyOf content key ∧
      Faithful content (fetchBody content key cache).2 := by
  unfold fetchBody
  rcases hlookup : cache.lookup key with _ | text
  · dsimp only
    rcases hbody : bodyOf content key with _ | text
    · exact ⟨rfl, h⟩
    · refine ⟨rfl, fun e he => ?_⟩
      rcases List.mem_append.1 (List.mem_of_mem_drop he) with he | he
      · exact h e he
      · obtain rfl := List.mem_singleton.1 he
        exact hbody
  · dsimp only
    obtain ⟨before, after, rfl, -⟩ := List.lookup_eq_some_iff.1 hlookup
    exact ⟨(h (key, text) (by simp)).symm, h⟩

variable (content)

/-- What a file contributes to the results, whatever the cache. -/
def fileMatch (tokens : List Text) (root : ReferenceRoot) (f : FoundFile) : Option Match :=
  f.stat.bind fun stat =>
    (bodyOf content ⟨pathBelow root (asPosix f.place), stat⟩).bind fun body =>
      matchOf u sha256 tokens root.scope (asPosix f.place) body

variable {content}

theorem inspect_faithful {g : Gathered} (h : Faithful content g.cache) (tokens : List Text)
    (root : ReferenceRoot) (f : FoundFile) :
    (inspect u sha256 content tokens root f g).results =
        g.results ++ (fileMatch u sha256 content tokens root f).toList ∧
      Faithful content (inspect u sha256 content tokens root f g).cache := by
  unfold inspect fileMatch
  rcases f.stat with _ | stat
  · exact ⟨by simp, h⟩
  · obtain ⟨hbody, hcache⟩ := fetchBody_faithful h ⟨pathBelow root (asPosix f.place), stat⟩
    dsimp only
    rw [hbody, Option.bind_some]
    rcases bodyOf content ⟨pathBelow root (asPosix f.place), stat⟩ with _ | body
    · exact ⟨by simp, hcache⟩
    · exact ⟨rfl, hcache⟩

/-- The results of some files, one after the other. -/
theorem foldl_inspect {g : Gathered} (h : Faithful content g.cache) (tokens : List Text)
    (vs : List (ReferenceRoot × FoundFile)) :
    (vs.foldl (fun g v => inspect u sha256 content tokens v.1 v.2 g) g).results =
        g.results ++ vs.filterMap (fun v => fileMatch u sha256 content tokens v.1 v.2) ∧
      Faithful content
        (vs.foldl (fun g v => inspect u sha256 content tokens v.1 v.2 g) g).cache := by
  induction vs generalizing g with
  | nil => exact ⟨(List.append_nil _).symm, h⟩
  | cons v vs ih =>
    obtain ⟨hresults, hcache⟩ := inspect_faithful u sha256 h tokens v.1 v.2
    obtain ⟨hrest, hfaithful⟩ := ih hcache
    refine ⟨?_, hfaithful⟩
    rw [List.foldl_cons, hrest, hresults, List.append_assoc, List.filterMap_cons]
    rcases fileMatch u sha256 content tokens v.1 v.2 with _ | m <;> rfl

/-! ### What a search inspects -/

instance : Std.Total Match.before where
  total a b := by
    unfold Match.before
    rcases lt_trichotomy a.score b.score with h | h | h
    · exact .inr (.inl h)
    · rcases le_total a.reference b.reference with hle | hle
      · exact .inl (.inr ⟨h, hle⟩)
      · exact .inr (.inr ⟨h.symm, hle⟩)
    · exact .inl (.inl h)

instance : IsTrans Match Match.before where
  trans a b c := by
    rintro (hab | ⟨hab, hab'⟩) (hbc | ⟨hbc, hbc'⟩)
    · exact .inl (hbc.trans hab)
    · exact .inl (hbc ▸ hab)
    · exact .inl (hab ▸ hbc)
    · exact .inr ⟨hab.trans hbc, hab'.trans hbc'⟩

variable (content)

/-- What holds of a search in the selected trees, in which the files `inspected` of each were
inspected. -/
structure Ranked (tokens : List Text) (selected : List ReferenceRoot) (limit maxFiles : ℕ)
    (out : SearchOutcome) (inspected : List (ReferenceRoot × List FoundFile)) : Prop where
  scopes : inspected.map Prod.fst = selected
  prefixes : ∀ p ∈ inspected, p.2 <+: safeFiles p.1.tree
  counted : out.metadata.inspectedByScope = inspected.map fun p => (p.1.scope, p.2.length)
  bounded : (inspected.map fun p => p.2.length).sum ≤ maxFiles
  fair : ∀ p ∈ inspected, ∀ q ∈ inspected, p.2.length + 1 < q.2.length →
    p.2 = safeFiles p.1.tree
  complete : (inspected.map fun p => p.2.length).sum = maxFiles ∨
    ∀ p ∈ inspected, p.2 = safeFiles p.1.tree
  best : Shortlist Match.before limit
    (inspected.flatMap fun p => p.2.filterMap (fileMatch u sha256 content tokens p.1)) out.chosen

variable {content}

theorem searchIn_ranked {cache : ContentCache} (h : Faithful content cache) (tokens : List Text)
    (selected : List ReferenceRoot) (limit maxFiles : ℕ) :
    (∃ inspected, Ranked u sha256 content tokens selected limit maxFiles
        (searchIn u sha256 content tokens selected limit maxFiles cache) inspected) ∧
      Faithful content (searchIn u sha256 content tokens selected limit maxFiles cache).cache := by
  obtain ⟨vs, hvs⟩ := scanned (inspect u sha256 content tokens) maxFiles
    (selected.map fun r => (r, safeFiles r.tree)) ⟨[], cache⟩
  unfold searchIn
  dsimp only
  generalize scan (inspect u sha256 content tokens) maxFiles
    ((selected.map fun r => (r, safeFiles r.tree)).map fun x => Source.ofItems x.1 x.2)
    ⟨[], cache⟩ = r at *
  obtain ⟨hresults, hfaithful⟩ := foldl_inspect u sha256 (g := ⟨[], cache⟩) h tokens vs
  rw [← hvs.result] at hresults hfaithful
  refine ⟨⟨r.1.map fun q => (q.label, q.taken), ?_⟩, hfaithful⟩
  -- a source of the scan belongs to a selected root, and holds the files of its tree
  have hsource : ∀ q ∈ r.1, q.taken ++ q.rest = safeFiles q.label.tree := by
    intro q hq
    have hmem : q.whole ∈ selected.map fun r => (r, safeFiles r.tree) := by
      rw [← hvs.wholes]
      exact List.mem_map_of_mem hq
    obtain ⟨root, -, heq⟩ := List.mem_map.1 hmem
    obtain ⟨rfl, hfiles⟩ := Prod.mk.inj heq
    exact hfiles.symm
  have hfull : ∀ q ∈ r.1, q.exhausted = true → q.taken = safeFiles q.label.tree := by
    intro q hq he
    rw [← hsource q hq, hvs.exhausted q hq he, List.append_nil]
  have hsum : (r.1.map fun q => q.taken.length).sum = vs.length := by
    rw [hvs.visits.length_eq, List.length_flatMap]
    exact congrArg List.sum (List.map_congr_left fun q _ => (List.length_map _).symm)
  refine ⟨?_, ?_, ?_, ?_, ?_, ?_, ?_⟩
  · have hlabels := congrArg (List.map Prod.fst) hvs.wholes
    rw [List.map_map, List.map_map] at hlabels
    rw [List.map_map]
    exact hlabels.trans (List.map_id _)
  · intro p hp
    obtain ⟨q, hq, rfl⟩ := List.mem_map.1 hp
    exact ⟨q.rest, hsource q hq⟩
  · rw [List.map_map]
    rfl
  · rw [List.map_map]
    exact hsum.trans_le hvs.bounded
  · intro p hp p' hp' hlt
    obtain ⟨q, hq, rfl⟩ := List.mem_map.1 hp
    obtain ⟨q', hq', rfl⟩ := List.mem_map.1 hp'
    exact hfull q hq (hvs.fair q hq q' hq' hlt)
  · rw [List.map_map]
    rcases hvs.complete with hbudget | hall
    · exact .inl (hsum.trans hbudget)
    · refine .inr fun p hp => ?_
      obtain ⟨q, hq, rfl⟩ := List.mem_map.1 hp
      exact hfull q hq (hall q hq)
  · have hperm : r.2.2.results.Perm ((r.1.map fun q => (q.label, q.taken)).flatMap fun p =>
        p.2.filterMap (fileMatch u sha256 content tokens p.1)) := by
      rw [hresults, List.nil_append, List.flatMap_map]
      refine (hvs.visits.filterMap _).trans ?_
      rw [List.filterMap_flatMap]
      unfold Source.visited
      simp only [List.filterMap_map]
      exact .refl _
    exact (shortlist_take limit r.2.2.results).perm hperm

/-- Two faithful caches: the search chooses the same. -/
theorem searchIn_cache {cache cache' : ContentCache} (h : Faithful content cache)
    (h' : Faithful content cache') (tokens : List Text) (selected : List ReferenceRoot)
    (limit maxFiles : ℕ) :
    (searchIn u sha256 content tokens selected limit maxFiles cache).chosen =
        (searchIn u sha256 content tokens selected limit maxFiles cache').chosen ∧
      (searchIn u sha256 content tokens selected limit maxFiles cache).metadata =
        (searchIn u sha256 content tokens selected limit maxFiles cache').metadata := by
  let related := fun g g' : Gathered =>
    g.results = g'.results ∧ Faithful content g.cache ∧ Faithful content g'.cache
  have hstep : ∀ root f g g', related g g' → related (inspect u sha256 content tokens root f g)
      (inspect u sha256 content tokens root f g') := by
    rintro root f g g' ⟨hresults, hg, hg'⟩
    obtain ⟨hnew, hfaithful⟩ := inspect_faithful u sha256 hg tokens root f
    obtain ⟨hnew', hfaithful'⟩ := inspect_faithful u sha256 hg' tokens root f
    exact ⟨by rw [hnew, hnew', hresults], hfaithful, hfaithful'⟩
  have hstart : related ⟨[], cache⟩ ⟨[], cache'⟩ := ⟨rfl, h, h'⟩
  obtain ⟨hqs, hresults, -⟩ := scan_related maxFiles hstep
    ((selected.map fun r => (r, safeFiles r.tree)).map fun x => Source.ofItems x.1 x.2) hstart
  unfold searchIn
  dsimp only
  rw [hqs, hresults]
  exact ⟨rfl, rfl⟩

theorem search_eq {roots : ReferenceRoots} {query scope : Text} {limit maxFiles : ℤ}
    {cache : ContentCache} {out : SearchOutcome}
    (h : search u sha256 content roots query scope limit maxFiles cache = .ok out) :
    ∃ selected, selectedRoots roots scope = .ok selected ∧
      (∀ cache', search u sha256 content roots query scope limit maxFiles cache' =
        .ok (searchIn u sha256 content (normalizeQuery u query) selected limit.toNat
          maxFiles.toNat cache')) ∧
      out = searchIn u sha256 content (normalizeQuery u query) selected limit.toNat
        maxFiles.toNat cache := by
  unfold search at h ⊢
  split_ifs at h ⊢
  rcases hselected : selectedRoots roots scope with e | selected
  · rw [hselected] at h
    cases h
  · rw [hselected] at h
    exact ⟨selected, rfl, fun _ => rfl, (Except.ok.inj h).symm⟩

theorem Reached.faithful {cache : ContentCache} (h : Reached u sha256 content cache) :
    Faithful content cache := by
  induction h with
  | empty => exact List.forall_mem_nil _
  | search _ hs ih =>
    obtain ⟨selected, -, -, rfl⟩ := search_eq u sha256 hs
    exact (searchIn_ranked u sha256 ih ..).2

/-! ### Snippets -/

/-- Some token stands at the place `k` of the folded body and none before; its characters are
those from `i` up to `j` of the body. -/
structure FirstOccurrence (tokens : List Text) (body : Text) (k i j : ℕ) : Prop where
  none_before : ∀ l < k, ∀ token ∈ tokens, ¬ token <+: (u.casefold body).drop l
  start : (u.casefold (body.take i)).length ≤ k
  start_lt : k < (u.casefold (body.take (i + 1))).length
  token : ∃ token ∈ tokens, token <+: (u.casefold body).drop k ∧
    k + token.length ≤ (u.casefold (body.take j)).length ∧
    ∀ l < j, (u.casefold (body.take l)).length < k + token.length

/-- The snippet of a body holds the first occurrence of a token. -/
def ShowsFirst (tokens : List Text) (body : Text) : Prop :=
  ∃ k i j, FirstOccurrence u tokens body k i j ∧ (snippetSpan u tokens body).1 ≤ i ∧
    j ≤ (snippetSpan u tokens body).2

/-- Folding moves the first occurrence of a token by 160 characters at most, and it ends within
500 characters of its place in the folded body. -/
def FoldsLittle (tokens : List Text) (body : Text) : Prop :=
  ∃ k i j, FirstOccurrence u tokens body k i j ∧ k ≤ i + 160 ∧ j ≤ k + 500

theorem casefold_take_mono (body : Text) {i j : ℕ} (h : i ≤ j) :
    u.casefold (body.take i) <+: u.casefold (body.take j) := by
  have htake : body.take j = body.take i ++ (body.take j).drop i := by
    conv_lhs => rw [← List.take_append_drop i (body.take j)]
    rw [List.take_take, min_eq_left h]
  rw [htake, UnicodeTables.casefold, UnicodeTables.casefold, List.flatMap_append]
  exact List.prefix_append _ _

theorem casefold_take_le (body : Text) (i : ℕ) :
    (u.casefold (body.take i)).length ≤ (u.casefold body).length := by
  have hle := (casefold_take_mono u body (le_max_left i body.length)).length_le
  rwa [List.take_of_length_le (le_max_right i body.length)] at hle

theorem findText_eq_some {token text : Text} {k : ℕ} :
    findText token text = some k ↔
      token <+: text.drop k ∧ k ≤ text.length ∧ ∀ l < k, ¬ token <+: text.drop l := by
  simp only [findText, List.find?_range_eq_some, List.isPrefixOf_iff_prefix, List.mem_range,
    Nat.lt_succ_iff, Bool.not_eq_true', Bool.eq_false_iff, ne_eq]

theorem FirstOccurrence.firstToken_eq {tokens : List Text} {body : Text} {k i j : ℕ}
    (h : FirstOccurrence u tokens body k i j) : firstToken u tokens body = k := by
  have hk := h.start_lt.trans_le (casefold_take_le u body (i + 1))
  obtain ⟨token, hmem, htake, -⟩ := h.token
  have hmin : (tokens.filterMap fun token => findText token (u.casefold body)).min? = some k := by
    rw [List.min?_eq_some_iff]
    constructor
    · exact List.mem_filterMap.2 ⟨token, hmem, findText_eq_some.2
        ⟨htake, hk.le, fun l hl => h.none_before l hl token hmem⟩⟩
    · intro l hl
      obtain ⟨token', hmem', hfind⟩ := List.mem_filterMap.1 hl
      by_contra hlt
      exact h.none_before l (Nat.lt_of_not_le hlt) token' hmem' (findText_eq_some.1 hfind).1
  rw [firstToken, hmin, Option.getD_some]

theorem FirstOccurrence.span_iff {tokens : List Text} {body : Text} {k i j : ℕ}
    (h : FirstOccurrence u tokens body k i j) :
    ((snippetSpan u tokens body).1 ≤ i ∧ j ≤ (snippetSpan u tokens body).2) ↔
      (k ≤ i + 160 ∧ j ≤ k + 500) := by
  have hfirst := h.firstToken_eq
  unfold snippetSpan
  generalize firstToken u tokens body = first at hfirst ⊢
  subst hfirst
  dsimp only
  omega

/-- The snippet holds the first occurrence of a token exactly where folding moves it by little. -/
theorem showsFirst_iff (tokens : List Text) (body : Text) :
    ShowsFirst u tokens body ↔ FoldsLittle u tokens body := by
  constructor
  · rintro ⟨k, i, j, h, hspan⟩
    exact ⟨k, i, j, h, (h.span_iff u).1 hspan⟩
  · rintro ⟨k, i, j, h, hlittle⟩
    exact ⟨k, i, j, h, (h.span_iff u).2 hlittle⟩

/-! ### The whole search -/

variable (content)

/-- What a search is to do: it inspects files of the selected trees in turns within its budget,
chooses the best matches of them, chooses the same with every cache that searches leave, and
each snippet of a body with a token holds the first occurrence of one. -/
structure SearchesWell (roots : ReferenceRoots) (query scope : Text) (limit maxFiles : ℤ)
    (out : SearchOutcome) : Prop where
  ranked : ∃ selected inspected, selectedRoots roots scope = .ok selected ∧
    Ranked u sha256 content (normalizeQuery u query) selected limit.toNat maxFiles.toNat out
      inspected
  cached : ∀ cache', Reached u sha256 content cache' → ∃ out',
    search u sha256 content roots query scope limit maxFiles cache' = .ok out' ∧
      out'.results = out.results ∧ out'.metadata = out.metadata
  snippets : ∀ m ∈ out.chosen,
    (∃ token ∈ normalizeQuery u query, contains token (u.casefold m.body) = true) →
      ShowsFirst u (normalizeQuery u query) m.body

variable {content}

/-- **The search** does what it is to do exactly where the folding of the bodies that are shown
moves the first occurrence of a token by little. -/
theorem search_iff {roots : ReferenceRoots} {query scope : Text} {limit maxFiles : ℤ}
    {cache : ContentCache} (hcache : Reached u sha256 content cache) {out : SearchOutcome}
    (h : search u sha256 content roots query scope limit maxFiles cache = .ok out) :
    SearchesWell u sha256 content roots query scope limit maxFiles out ↔
      ∀ m ∈ out.chosen,
        (∃ token ∈ normalizeQuery u query, contains token (u.casefold m.body) = true) →
          FoldsLittle u (normalizeQuery u query) m.body := by
  obtain ⟨selected, hselected, hother, rfl⟩ := search_eq u sha256 h
  constructor
  · exact fun hspec m hm htoken => (showsFirst_iff u _ _).1 (hspec.snippets m hm htoken)
  · intro hfolds
    obtain ⟨⟨inspected, hranked⟩, -⟩ := searchIn_ranked u sha256 (hcache.faithful u sha256)
      (normalizeQuery u query) selected limit.toNat maxFiles.toNat
    refine ⟨⟨selected, inspected, hselected, hranked⟩, fun cache' hcache' => ?_,
      fun m hm htoken => (showsFirst_iff u _ _).2 (hfolds m hm htoken)⟩
    obtain ⟨hchosen, hmetadata⟩ := searchIn_cache u sha256 (hcache'.faithful u sha256)
      (hcache.faithful u sha256) (normalizeQuery u query) selected limit.toNat maxFiles.toNat
    exact ⟨_, hother cache', congrArg (List.map Match.result) hchosen, hmetadata⟩

/-! ### A body that folding makes longer -/

/-- The tables for a text in which only ASCII and `ß` matter. -/
def latinTables : UnicodeTables where
  nfkc := id
  folding := casefoldChar
  wordChar := isAsciiWord

/-- The tutorials with one file. -/
def oneFile : ReferenceRoots where
  items := [{
    scope := "tutorials".toList
    path := "/opt".toList
    tree := .directory [("notes".toList, .file (some ⟨400, 1, 1⟩))] }]
  nodup := List.nodup_singleton _
  known := by decide

/-- The first search for `foo`, where `body` is in the file. -/
def fooOutcome (body : Text) : SearchOutcome :=
  searchIn latinTables id (fun _ => some body) (normalizeQuery latinTables "foo".toList)
    oneFile.items 12 6000 []

theorem search_foo (body : Text) : search latinTables id (fun _ => some body) oneFile "foo".toList
    "all".toList 12 6000 [] = .ok (fooOutcome body) := by
  rw [search, if_neg (by decide)]
  rfl

/-- A body without letters that folding makes longer. -/
theorem search_iff_plain : search latinTables id (fun _ => some "a Foo".toList) oneFile
      "foo".toList "all".toList 12 6000 [] = .ok (fooOutcome "a Foo".toList) ∧
    (SearchesWell latinTables id (fun _ => some "a Foo".toList) oneFile "foo".toList "all".toList
        12 6000 (fooOutcome "a Foo".toList) ↔
      ∀ m ∈ (fooOutcome "a Foo".toList).chosen,
        (∃ token ∈ normalizeQuery latinTables "foo".toList,
            contains token (latinTables.casefold m.body) = true) →
          FoldsLittle latinTables (normalizeQuery latinTables "foo".toList) m.body) :=
  ⟨search_foo _, search_iff latinTables id .empty (search_foo _)⟩

/-- A body with letters in front of the token that folding makes longer. -/
def longBody : Text := List.replicate 161 'ß' ++ "foo".toList

theorem chosen_longBody : (fooOutcome longBody).chosen.map (·.body) = [longBody] ∧
    normalizeQuery latinTables "foo".toList = ["foo".toList] ∧
    contains "foo".toList (latinTables.casefold longBody) = true ∧
    firstToken latinTables ["foo".toList] longBody = 322 ∧
    (latinTables.casefold (longBody.take 162)).length = 323 := by
  decide +kernel

/-- The snippet of `longBody` begins behind the only token. -/
theorem snippet_misses : search latinTables id (fun _ => some longBody) oneFile "foo".toList
      "all".toList 12 6000 [] = .ok (fooOutcome longBody) ∧
    ¬ SearchesWell latinTables id (fun _ => some longBody) oneFile "foo".toList "all".toList
      12 6000 (fooOutcome longBody) := by
  obtain ⟨hchosen, htokens, htoken, hfirst, hlength⟩ := chosen_longBody
  refine ⟨search_foo _, fun h => ?_⟩
  have hmem : longBody ∈ (fooOutcome longBody).chosen.map (·.body) := by
    rw [hchosen]
    exact List.mem_singleton_self _
  obtain ⟨m, hm, hbody⟩ := List.mem_map.1 hmem
  have htoken' : contains "foo".toList (latinTables.casefold m.body) = true := by
    rw [hbody]
    exact htoken
  have hshows := h.snippets m hm
    ⟨"foo".toList, by rw [htokens]; exact List.mem_singleton_self _, htoken'⟩
  rw [htokens, hbody, showsFirst_iff] at hshows
  obtain ⟨k, i, j, hocc, hnear, -⟩ := hshows
  have hk := (hocc.firstToken_eq latinTables).symm.trans hfirst
  have hi : 162 ≤ i := by omega
  have hfolded := (casefold_take_mono latinTables longBody hi).length_le
  rw [hlength] at hfolded
  have hstart := hfolded.trans hocc.start
  rw [hk] at hstart
  exact absurd hstart (by decide)

end Tools
end OpenFoamAgent
