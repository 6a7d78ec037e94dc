import Bazaar.Fastimport.TreeShim

/-!
# Loading a revision by its inventory delta

`RevisionStore.load_using_delta` (`breezy/plugins/fastimport/revision_store.py`)
commits one revision.  It makes a commit builder, then sets up the store's known graph
the first time it is needed, and hands the builder the change stream of a `_TreeShim`
laid over the basis inventory.  It then hands the revision and the builder's inventory
to `repo.add_revision`, adds the revision to the known graph, and only then refuses a
signature.

The commit builder, the repository and breezy's graph module are not part of this
repository; what the function takes from them is gathered in `RepositoryApi`.  What
outlives a call is the store's `_graph` and `_use_known_graph`, and the revisions
handed to the repository.  Over any run of calls:
* the known graph is the ancestry the repository gave at the first call whose commit
  builder was made, followed by every revision stored, with its parents;
* the revisions are stored in the order of the calls, at most one per call;
* each stored revision is what the builder made of the change stream that takes the
  basis tree to the tree the delta describes.
-/

namespace Bazaar
namespace Fastimport

open Python

/-- The fields of a `Revision` that `load_using_delta` reads or sets: its id, its
parents, its committer and `inv_sha1`. -/
structure Revision where
  revisionId : RevisionId
  parentIds : List RevisionId
  committer : Option Bytes
  invSha1 : Option Bytes
  deriving DecidableEq

/-- breezy's `NULL_REVISION`. -/
def nullRevision : RevisionId := "null:".toList

/-- `basis_rev_id`: the first parent, or `NULL_REVISION` for a revision without
parents. -/
def basisRevisionId : List RevisionId → RevisionId
  | p :: _ => p
  | [] => nullRevision

/-- A known graph, by its nodes and their parents, in the order they were added. -/
abbrev KnownGraph := List (RevisionId × List RevisionId)

/-- `graph.add_node(revision_id, parent_ids)`. -/
def KnownGraph.addNode (g : KnownGraph) (revisionId : RevisionId)
    (parentIds : List RevisionId) : KnownGraph :=
  g ++ [(revisionId, parentIds)]

/-- A commit builder's `_heads(file_id, revision_ids)`, its sets as lists. -/
abbrev Heads := FileId → List RevisionId → List RevisionId

/-- `thunked_heads`: fewer than two revisions are their own heads, and the known graph
computes the heads of more. -/
def thunkedHeads (graphHeads : List RevisionId → List RevisionId) : Heads :=
  fun _ revisionIds => if revisionIds.length < 2 then revisionIds else graphHeads revisionIds

/-- The exceptions `load_using_delta` raises: those of the tree shim's change stream,
those of the commit builder and of `repo.add_revision`, and the `AssertionError` that
refuses a signature. -/
inductive LoadError
  | shim (e : ShimError)
  | builder
  | repository
  | assertion
  deriving DecidableEq, Repr

/-- What `load_using_delta` takes from breezy and the repository: whether
`repo._commit_builder_class(repo, parents, config=None, timestamp, timezone, committer,
revprops, revision_id)` makes a builder for the revision (with `config` `None` it
raises for one without a committer); whether `GraphThunkIdsToKeys.add_node` and
`repo.get_known_graph_ancestry` exist, the graph `get_known_graph_ancestry(parent_ids)`
gives, the heads a known graph computes and the builder's own `_heads`; what
`record_iter_changes(tree, basis_rev_id, changes)` followed by `finish_inventory()`
makes of the stream (`none` when either raises): the `inv_sha1` and the inventory of
`revision_tree()`; and whether `repo.add_revision(revision_id, rev, inv)` returns,
after the revisions handed to it before. -/
structure RepositoryApi where
  newCommitBuilder : Revision → Bool
  knownGraphSupported : Bool
  knownGraphAncestry : List RevisionId → KnownGraph
  graphHeads : KnownGraph → List RevisionId → List RevisionId
  builderHeads : Heads
  buildInventory : Heads → TreeShim → (FileId → Option Bytes) → RevisionId → List Change →
    Option (Bytes × Inventory)
  acceptsRevision : List (Revision × Inventory) → Revision → Inventory → Bool

/-- What a `RevisionStore` keeps from one call of `load_using_delta` to the next:
`_graph`, `_use_known_graph`, and the revisions it handed to `repo.add_revision`, with
their inventories, in order. -/
structure LoadState where
  graph : Option KnownGraph
  useKnownGraph : Bool
  revisions : List (Revision × Inventory)

namespace LoadState

/-- `RevisionStore.__init__`: no graph yet, and the known graph still to be tried. -/
def init : LoadState := ⟨none, true, []⟩

variable (api : RepositoryApi) (s : LoadState)

/-- The graph set-up of `load_using_delta`: the known graph is asked for while the
store has none and has not given it up, and given up for good when breezy lacks it. -/
def prepareGraph (parentIds : List RevisionId) : LoadState :=
  if s.graph.isNone && s.useKnownGraph then
    if api.knownGraphSupported then { s with graph := some (api.knownGraphAncestry parentIds) }
    else { s with useKnownGraph := false }
  else s

/-- The heads the builder runs with: `thunked_heads` over the store's known graph, or
the builder's own. -/
def heads : Heads :=
  match s.graph with
  | some g => thunkedHeads (api.graphHeads g)
  | none => api.builderHeads

/-- `builder.repository.add_revision(revision_id, rev, inv)`. -/
def addRevision (rev : Revision) (inv : Inventory) : LoadState :=
  { s with revisions := s.revisions ++ [(rev, inv)] }

/-- `if self._graph is not None: self._graph.add_node(revision_id, parent_ids)`. -/
def addGraphNode (revisionId : RevisionId) (parentIds : List RevisionId) : LoadState :=
  { s with graph := s.graph.map fun g => g.addNode revisionId parentIds }

/-- The nodes the stored revisions give a known graph. -/
def nodes : KnownGraph :=
  s.revisions.map fun r => (r.1.revisionId, r.1.parentIds)

variable {api s} {parentIds : List RevisionId}

theorem prepareGraph_of_graph {g : KnownGraph} (h : s.graph = some g) :
    s.prepareGraph api parentIds = s := by
  simp [prepareGraph, h]

theorem init_prepareGraph : init.prepareGraph api parentIds =
    if api.knownGraphSupported then ⟨some (api.knownGraphAncestry parentIds), true, []⟩
    else ⟨none, false, []⟩ := by
  unfold prepareGraph init; cases api.knownGraphSupported <;> rfl

theorem prepareGraph_graph_none (hsup : api.knownGraphSupported = false) (h : s.graph = none) :
    (s.prepareGraph api parentIds).graph = none := by
  unfold prepareGraph; split_ifs <;> simp_all

@[simp] theorem addRevision_revisions (rev : Revision) (inv : Inventory) :
    (s.addRevision rev inv).revisions = s.revisions ++ [(rev, inv)] := rfl

@[simp] theorem addRevision_graph (rev : Revision) (inv : Inventory) :
    (s.addRevision rev inv).graph = s.graph := rfl

@[simp] theorem addGraphNode_revisions (revisionId : RevisionId) :
    (s.addGraphNode revisionId parentIds).revisions = s.revisions := rfl

@[simp] theorem addGraphNode_graph (revisionId : RevisionId) :
    (s.addGraphNode revisionId parentIds).graph =
      s.graph.map fun g => g.addNode revisionId parentIds := rfl

end LoadState

/-- `RevisionStore.load_using_delta(rev, basis_inv, inv_delta, signature,
text_provider, parents_provider, inventories_provider)`: the store after the call, and
what the call returns.  The body never reads `parents_provider` nor
`inventories_provider`. -/
def loadUsingDelta (api : RepositoryApi) (s : LoadState) (rev : Revision)
    (basisInv : BasisInventory) (invDelta : List DeltaItem) (signature : Option Bytes)
    (textProvider : FileId → Option Bytes) : LoadState × Except LoadError Inventory :=
  if api.newCommitBuilder rev then
    let s := s.prepareGraph api rev.parentIds
    let tree : TreeShim := ⟨basisInv, invDelta⟩
    match tree.deltaToIterChanges with
    | .error e => (s, .error (.shim e))
    | .ok changes =>
      match api.buildInventory (s.heads api) tree textProvider (basisRevisionId rev.parentIds)
          changes with
      | none => (s, .error .builder)
      | some (invSha1, inv) =>
        let rev := { rev with invSha1 := some invSha1 }
        if api.acceptsRevision s.revisions rev inv then
          let s := (s.addRevision rev inv).addGraphNode rev.revisionId rev.parentIds
          if signature.isSome then (s, .error .assertion) else (s, .ok inv)
        else (s, .error .repository)
  else (s, .error .builder)

/-!
## One call
-/

section Call

variable {api : RepositoryApi} {s : LoadState} {rev : Revision} {basisInv : BasisInventory}
  {invDelta : List DeltaItem} {signature : Option Bytes} {textProvider : FileId → Option Bytes}

/-- A call whose commit builder cannot be made raises before anything else: the graph
is not set up. -/
theorem loadUsingDelta_of_not_newCommitBuilder (hb : api.newCommitBuilder rev = false) :
    loadUsingDelta api s rev basisInv invDelta signature textProvider = (s, .error .builder) := by
  rw [loadUsingDelta, if_neg (by rw [hb]; exact Bool.false_ne_true)]

/-- What a call with a commit builder can do: raise before anything is stored, leaving
the store with its graph set up; or store the revision, with the `inv_sha1` and
inventory the builder made of the delta's change stream, and add it to the graph. -/
theorem loadUsingDelta_cases (hb : api.newCommitBuilder rev = true) :
    (∃ e, loadUsingDelta api s rev basisInv invDelta signature textProvider =
        (s.prepareGraph api rev.parentIds, .error e)) ∨
    ∃ changes invSha1 inv, (⟨basisInv, invDelta⟩ : TreeShim).deltaToIterChanges = .ok changes ∧
      api.buildInventory ((s.prepareGraph api rev.parentIds).heads api) ⟨basisInv, invDelta⟩
        textProvider (basisRevisionId rev.parentIds) changes = some (invSha1, inv) ∧
      loadUsingDelta api s rev basisInv invDelta signature textProvider =
        (((s.prepareGraph api rev.parentIds).addRevision { rev with invSha1 := some invSha1 }
            inv).addGraphNode rev.revisionId rev.parentIds,
          if signature.isSome then .error .assertion else .ok inv) := by
  cases hcs : (⟨basisInv, invDelta⟩ : TreeShim).deltaToIterChanges with
  | error e => exact .inl ⟨.shim e, by simp only [loadUsingDelta, hb, if_true, hcs]⟩
  | ok changes =>
    cases hbi : api.buildInventory ((s.prepareGraph api rev.parentIds).heads api)
      ⟨basisInv, invDelta⟩ textProvider (basisRevisionId rev.parentIds) changes with
    | none => exact .inl ⟨.builder, by simp only [loadUsingDelta, hb, if_true, hcs, hbi]⟩
    | some r =>
      by_cases ha : api.acceptsRevision (s.prepareGraph api rev.parentIds).revisions
          { rev with invSha1 := some r.1 } r.2
      · exact .inr ⟨changes, r.1, r.2, rfl, hbi, by
          simp only [loadUsingDelta, hb, if_true, hcs, hbi, ha]; split_ifs <;> rfl⟩
      · exact .inl ⟨.repository, by simp only [loadUsingDelta, hb, if_true, hcs, hbi, ha]; rfl⟩

end Call

/-!
## Runs of calls
-/

/-- One call of `load_using_delta`, by its arguments. -/
structure LoadCall where
  rev : Revision
  basisInv : BasisInventory
  invDelta : List DeltaItem
  signature : Option Bytes
  textProvider : FileId → Option Bytes

/-- The call `c` on the store `s`. -/
def LoadState.load (api : RepositoryApi) (s : LoadState) (c : LoadCall) :
    LoadState × Except LoadError Inventory :=
  loadUsingDelta api s c.rev c.basisInv c.invDelta c.signature c.textProvider

/-- The store after a run of calls, each made whether the ones before it raised or
not. -/
def loadRun (api : RepositoryApi) (s : LoadState) (calls : List LoadCall) : LoadState :=
  calls.foldl (fun s c => (s.load api c).1) s

/-- The known graph holds the ancestry `g₀`, then a node for every stored revision. -/
def GraphTracks (g₀ : KnownGraph) (s : LoadState) : Prop :=
  s.graph = some (g₀ ++ s.nodes)

section Run

variable (api : RepositoryApi)

theorem loadRun_induction {P : LoadState → Prop} (hstep : ∀ s c, P s → P (s.load api c).1) :
    ∀ calls s, P s → P (loadRun api s calls)
  | [], _, h => h
  | c :: calls, s, h => loadRun_induction hstep calls _ (hstep s c h)

theorem load_of_not_newCommitBuilder {s : LoadState} {c : LoadCall}
    (hb : api.newCommitBuilder c.rev = false) : (s.load api c).1 = s := by
  rw [LoadState.load, loadUsingDelta_of_not_newCommitBuilder hb]

/-- Adding a stored revision to a graph that tracks the store keeps it tracking. -/
theorem load_graphTracks {g₀ : KnownGraph} {s : LoadState} {c : LoadCall}
    (hb : api.newCommitBuilder c.rev = true)
    (h : GraphTracks g₀ (s.prepareGraph api c.rev.parentIds)) : GraphTracks g₀ (s.load api c).1 := by
  rcases loadUsingDelta_cases hb with ⟨e, hl⟩ | ⟨changes, invSha1, inv, -, -, hl⟩
  · rwa [LoadState.load, hl]
  · rw [LoadState.load, hl]
    unfold GraphTracks LoadState.nodes at h ⊢
    simp [h, KnownGraph.addNode]

theorem graphTracks_run {g₀ : KnownGraph} :
    ∀ calls s, GraphTracks g₀ s → GraphTracks g₀ (loadRun api s calls) :=
  loadRun_induction api fun _ c h => by
    cases hb : api.newCommitBuilder c.rev
    · rwa [load_of_not_newCommitBuilder api hb]
    · exact load_graphTracks api hb (by rwa [LoadState.prepareGraph_of_graph h])

theorem graph_none_run (hsup : api.knownGraphSupported = false) :
    ∀ calls (s : LoadState), s.graph = none → (loadRun api s calls).graph = none :=
  loadRun_induction api fun s c h => by
    cases hb : api.newCommitBuilder c.rev
    · rwa [load_of_not_newCommitBuilder api hb]
    rcases loadUsingDelta_cases hb with ⟨e, hl⟩ | ⟨changes, invSha1, inv, -, -, hl⟩ <;>
      rw [LoadState.load, hl] <;>
      simp only [LoadState.addGraphNode_graph, LoadState.addRevision_graph,
        LoadState.prepareGraph_graph_none hsup h, Option.map_none']

/-- Over any run from a new store, the known graph is asked for once, at the first call
whose commit builder is made and with that revision's parents, and given up for good
when breezy lacks it; from then on every revision the store hands to the repository is
added to the graph, with its parents, in order.  Calls before it do not set the graph
up. -/
theorem loadRun_graph : ∀ calls : List LoadCall,
    (loadRun api LoadState.init calls).graph =
      match calls.find? fun c => api.newCommitBuilder c.rev with
      | some c =>
        if api.knownGraphSupported then
          some (api.knownGraphAncestry c.rev.parentIds ++ (loadRun api LoadState.init calls).nodes)
        else none
      | none => none
  | [] => rfl
  | c :: calls => by
    have hrun : loadRun api .init (c :: calls) = loadRun api (LoadState.init.load api c).1 calls :=
      rfl
    cases hb : api.newCommitBuilder c.rev
    · rw [List.find?_cons_of_neg _ (by rw [hb]; exact Bool.false_ne_true), hrun,
        load_of_not_newCommitBuilder api hb]
      exact loadRun_graph calls
    · have hf : (c :: calls).find? (fun c => api.newCommitBuilder c.rev) = some c :=
        List.find?_cons_of_pos _ hb
      rw [hf]
      cases hsup : api.knownGraphSupported
      · exact graph_none_run api hsup _ _ rfl
      · refine graphTracks_run api calls _ (load_graphTracks api hb ?_)
        rw [LoadState.init_prepareGraph, if_pos hsup, GraphTracks, LoadState.nodes, List.map_nil,
          List.append_nil]

end Run

end Fastimport
end Bazaar
