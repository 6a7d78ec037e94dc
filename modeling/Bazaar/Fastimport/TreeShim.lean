import Bazaar.Fastimport.RevisionStore
import Mathlib.Logic.Function.Basic

/-!
# The tree shim and its change stream

`RevisionStore.load_using_delta` (`breezy/plugins/fastimport/revision_store.py`) does
not build the new tree: it hands the commit builder a `_TreeShim`, the basis inventory
with an inventory delta laid over it, and rewrites the delta as the `iter_changes`
stream that `record_iter_changes` consumes.  Each item
`(old_path, new_path, file_id, ie)` of the delta becomes one change tuple whose old
side is read from the basis inventory and whose new side from `ie`.

The stream says what the delta says.  Applied to the basis, the new sides give the tree
the delta gives, on every field the stream carries; and when the delta names each file
once, each change starts from where the changes before it left its file, and the
shim's `id2path` agrees with the new path of every change.
-/

namespace Bazaar
namespace Fastimport

open Python

/-- An inventory entry with its `text_size`, which `_delta_to_iter_changes` compares
beside the fields `get_parents_and_revision_for_entry` reads. -/
structure SizedEntry extends InventoryEntry where
  textSize : Option Nat
  deriving DecidableEq

/-- The basis inventory, by what the shim asks of it: `get_entry` and `id2path`, whose
`NoSuchId` is `none`, and the file id of its root. -/
structure BasisInventory where
  getEntry : FileId → Option SizedEntry
  id2path : FileId → Option Bytes
  rootId : FileId

/-- An item `(old_path, new_path, file_id, ie)` of an inventory delta; `ie` is `none`
for a file the delta removes. -/
structure DeltaItem where
  oldPath : Option Bytes
  newPath : Option Bytes
  fileId : FileId
  entry : Option SizedEntry
  deriving DecidableEq

/-- `_TreeShim(repo, basis_inv, inv_delta, content_provider)`; the repository's texts
and the content provider are parameters of `getFileText`. -/
structure TreeShim where
  basisInv : BasisInventory
  invDelta : List DeltaItem

/-- The exceptions the shim raises. -/
inductive ShimError
  | noSuchId
  | notImplemented
  | assertion
  | attributeError
  | absent
  deriving DecidableEq, Repr

/-- `dict([(file_id, (new_path, ie)) for _, new_path, file_id, ie in inv_delta])`: the
items are stored one after the other, so a later item for a file replaces an earlier
one. -/
def newInfoById (invDelta : List DeltaItem) : FileId → Option (Option Bytes × Option SizedEntry) :=
  invDelta.foldl (fun d item => Function.update d item.fileId (some (item.newPath, item.entry)))
    fun _ => none

theorem newInfoById_of_mem {invDelta : List DeltaItem}
    (hnd : (invDelta.map DeltaItem.fileId).Nodup) {item : DeltaItem} (h : item ∈ invDelta) :
    newInfoById invDelta item.fileId = some (item.newPath, item.entry) :=
  foldl_update_of_mem DeltaItem.fileId (fun item => some (item.newPath, item.entry)) _ _ hnd _ h

theorem newInfoById_of_not_mem {invDelta : List DeltaItem} {fileId : FileId}
    (h : fileId ∉ invDelta.map DeltaItem.fileId) : newInfoById invDelta fileId = none :=
  foldl_update_of_not_mem DeltaItem.fileId _ _ _ h

/-!
## The tree the shim shows
-/

namespace TreeShim

variable (t : TreeShim)

/-- `_TreeShim.id2path(file_id)`: the new path of a file the delta names, `NoSuchId`
for one it removes, and the basis inventory's path otherwise. -/
def id2path (fileId : FileId) : Except ShimError Bytes :=
  match newInfoById t.invDelta fileId with
  | some (some newPath, _) => pure newPath
  | some (none, _) => throw .noSuchId
  | none =>
    match t.basisInv.id2path fileId with
    | some path => pure path
    | none => throw .noSuchId

/-- `_TreeShim.path2id(path)`: only the root's path is answered. -/
def path2id (path : Bytes) : Except ShimError FileId :=
  if path ≠ [] then throw .notImplemented else pure t.basisInv.rootId

/-- The `file_id` argument of `get_file_text` and `get_symlink_target`, looked up by
path when it is `None`. -/
def fileIdOf (path : Bytes) : Option FileId → Except ShimError FileId
  | some fileId => pure fileId
  | none => t.path2id path

/-- `_TreeShim.get_file_text(path, file_id)`, with `content_provider(file_id)` as
`contentProvider` (`none` for its `KeyError`) and the fulltext of a text key in the
repository as `texts` (`none` for an absent record). -/
def getFileText (contentProvider : FileId → Option Bytes)
    (texts : FileId × RevisionId → Option Bytes) (path : Bytes) (fileId : Option FileId) :
    Except ShimError Bytes := do
  let fileId ← t.fileIdOf path fileId
  match contentProvider fileId with
  | some text => pure text
  | none =>
    if (newInfoById t.invDelta fileId).isSome then throw .assertion
    let some oldIe := t.basisInv.getEntry fileId | throw .noSuchId
    let some text := texts (fileId, oldIe.revision) | throw .absent
    pure text

/-- `_TreeShim.get_symlink_target(path, file_id)`; a file the delta removes has no
entry, and reading its target raises `AttributeError`. -/
def getSymlinkTarget (path : Bytes) (fileId : Option FileId) : Except ShimError (Option Bytes) := do
  let fileId ← t.fileIdOf path fileId
  match newInfoById t.invDelta fileId with
  | some (_, some ie) => pure ie.symlinkTarget
  | some (_, none) => throw .attributeError
  | none =>
    match t.basisInv.getEntry fileId with
    | some oldIe => pure oldIe.symlinkTarget
    | none => throw .noSuchId

end TreeShim

/-!
## The change stream
-/

/-- One tuple of `iter_changes`: `(file_id, (old_path, new_path), content_changed,
(old_versioned, new_versioned), (old_parent_id, new_parent_id), (old_name, new_name),
(old_kind, new_kind), (old_exec, new_exec))`, with Python's `None` as `none`. -/
structure Change where
  fileId : FileId
  path : Option Bytes × Option Bytes
  contentChanged : Bool
  versioned : Bool × Bool
  parentId : Option FileId × Option FileId
  name : Option Bytes × Option Bytes
  kind : Option Kind × Option Kind
  executable : Option Bool × Option Bool
  deriving DecidableEq

/-- The change `_delta_to_iter_changes` yields for one item of the delta: a file new to
the basis is added, a file without a new entry removed, and otherwise its content
changed when its text's SHA-1 or size did. -/
def deltaChange (basisInv : BasisInventory) (item : DeltaItem) : Except ShimError Change :=
  match basisInv.getEntry item.fileId, item.entry with
  | none, none => throw .assertion
  | none, some ie =>
    pure ⟨item.fileId, (item.oldPath, item.newPath), true, (false, true),
      (none, ie.parentId), (none, some ie.name), (none, some ie.kind), (none, some ie.executable)⟩
  | some oldIe, none =>
    pure ⟨item.fileId, (item.oldPath, item.newPath), true, (true, false),
      (oldIe.parentId, none), (some oldIe.name, none), (some oldIe.kind, none),
      (some oldIe.executable, none)⟩
  | some oldIe, some ie =>
    pure ⟨item.fileId, (item.oldPath, item.newPath),
      ie.textSha1 != oldIe.textSha1 || ie.textSize != oldIe.textSize, (true, true),
      (oldIe.parentId, ie.parentId), (some oldIe.name, some ie.name),
      (some oldIe.kind, some ie.kind), (some oldIe.executable, some ie.executable)⟩

/-- `_TreeShim._delta_to_iter_changes()`, run to the end as `record_iter_changes`
runs it. -/
def TreeShim.deltaToIterChanges (t : TreeShim) : Except ShimError (List Change) :=
  t.invDelta.mapM (deltaChange t.basisInv)

/-!
## What a change says

A side of a change is what `iter_changes` tells of the file before or after: whether
it is versioned, and its parent, name, kind and executable bit.
-/

/-- One side of a change. -/
structure Side where
  versioned : Bool
  parentId : Option FileId
  name : Option Bytes
  kind : Option Kind
  executable : Option Bool
  deriving DecidableEq

/-- The side an inventory shows of a file: its entry's fields, or unversioned. -/
def Side.of : Option SizedEntry → Side
  | none => ⟨false, none, none, none, none⟩
  | some e => ⟨true, e.parentId, some e.name, some e.kind, some e.executable⟩

/-- The side before the change. -/
def Change.old (c : Change) : Side :=
  ⟨c.versioned.1, c.parentId.1, c.name.1, c.kind.1, c.executable.1⟩

/-- The side after the change. -/
def Change.new (c : Change) : Side :=
  ⟨c.versioned.2, c.parentId.2, c.name.2, c.kind.2, c.executable.2⟩

/-- Each change starts from the side the changes before it left its file on. -/
def Coherent : (FileId → Side) → List Change → Prop
  | _, [] => True
  | tree, c :: cs => c.old = tree c.fileId ∧ Coherent (Function.update tree c.fileId c.new) cs

/-- A basis inventory holding one entry, under root `R`. -/
def basisWith (e : SizedEntry) : BasisInventory :=
  ⟨fun f => if f = e.fileId then some e else none,
    fun f => if f = e.fileId then some e.name else none, ['R']⟩

/-- File `fileId` named `name` at the root, with a one-byte text. -/
def fileEntry (fileId name : Bytes) : SizedEntry :=
  ⟨⟨fileId, ['1'], name, .file, none, some ['s'], false, none⟩, some 1⟩

/-- File `A` moved from `a` to `b`, and file `B` added at `c`. -/
def renameAndAdd : TreeShim :=
  ⟨basisWith (fileEntry ['A'] ['a']),
    [⟨some ['a'], some ['b'], ['A'], some (fileEntry ['A'] ['b'])⟩,
      ⟨none, some ['c'], ['B'], some (fileEntry ['B'] ['c'])⟩]⟩

section Changes

variable {basisInv : BasisInventory} {item : DeltaItem} {c : Change}

/-- A change names its item's file and paths, shows the basis inventory's side of the
file before and the item's entry after. -/
theorem deltaChange_sides (h : deltaChange basisInv item = .ok c) :
    c.fileId = item.fileId ∧ c.path = (item.oldPath, item.newPath) ∧
      c.old = Side.of (basisInv.getEntry item.fileId) ∧ c.new = Side.of item.entry := by
  unfold deltaChange at h
  split at h <;> cases h <;> simp_all [Change.old, Change.new, Side.of]

/-- When the items name distinct files, each change starts from the basis inventory's
side of its file, which no change before it touched. -/
theorem coherent_forall₂ : ∀ {items : List DeltaItem} {cs : List Change} (tree : FileId → Side),
    List.Forall₂ (fun item c => deltaChange basisInv item = .ok c) items cs →
    (items.map DeltaItem.fileId).Nodup →
    (∀ item ∈ items, tree item.fileId = Side.of (basisInv.getEntry item.fileId)) →
      Coherent tree cs
  | _, _, _, .nil, _, _ => trivial
  | item :: items, c :: _, tree, .cons hc hcs, hnd, htree => by
    obtain ⟨hid, -, hold, -⟩ := deltaChange_sides hc
    rw [List.map_cons, List.nodup_cons] at hnd
    refine ⟨by rw [hold, hid, htree item (List.mem_cons_self _ _)], ?_⟩
    refine coherent_forall₂ _ hcs hnd.2 fun item' hitem' => ?_
    have hne : item'.fileId ≠ c.fileId := fun h =>
      hnd.1 (hid ▸ h ▸ List.mem_map_of_mem DeltaItem.fileId hitem')
    rw [Function.update_noteq hne, htree item' (List.mem_cons_of_mem _ hitem')]

end Changes

namespace TreeShim

variable {t : TreeShim} {cs : List Change}

/-- When the delta names each file once, the change stream is coherent: each change
starts from the side the changes before it left its file on. -/
theorem deltaToIterChanges_coherent (hnd : (t.invDelta.map DeltaItem.fileId).Nodup)
    (h : t.deltaToIterChanges = .ok cs) : Coherent (Side.of ∘ t.basisInv.getEntry) cs :=
  coherent_forall₂ _ (mapM_eq_ok h) hnd fun _ _ => rfl

theorem deltaToIterChanges_coherent_renameAndAdd :
    ∃ cs, renameAndAdd.deltaToIterChanges = .ok cs ∧
      Coherent (Side.of ∘ renameAndAdd.basisInv.getEntry) cs :=
  ⟨_, rfl, deltaToIterChanges_coherent (by decide) rfl⟩

/-- When the delta names each file once, the shim's `id2path` gives the new path of
every change in the stream, and `NoSuchId` for a file the change removes. -/
theorem id2path_of_change (hnd : (t.invDelta.map DeltaItem.fileId).Nodup)
    (h : t.deltaToIterChanges = .ok cs) {c : Change} (hc : c ∈ cs) :
    t.id2path c.fileId =
      match c.path.2 with
      | some path => .ok path
      | none => .error .noSuchId := by
  obtain ⟨item, hitem, hic⟩ := exists_of_mem_forall₂ (mapM_eq_ok h) hc
  obtain ⟨hid, hpath, -, -⟩ := deltaChange_sides hic
  rw [hid, hpath]
  simp only [id2path, newInfoById_of_mem hnd hitem]
  cases item.newPath <;> rfl

theorem id2path_of_change_renamed :
    ∃ cs, renameAndAdd.deltaToIterChanges = .ok cs ∧
      ∃ c ∈ cs, c.path.2 = some ['b'] ∧ renameAndAdd.id2path c.fileId = .ok ['b'] :=
  ⟨_, rfl, _, List.mem_cons_self _ _, rfl,
    @id2path_of_change renameAndAdd _ (by decide) rfl _ (List.mem_cons_self _ _)⟩

end TreeShim

end Fastimport
end Bazaar
