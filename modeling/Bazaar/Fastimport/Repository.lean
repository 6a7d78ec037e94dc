import Bazaar.Fastimport.TreeShim
import Mathlib.Data.List.Dedup

/-!
# Texts and inventories taken from the repository

Two helpers of `RevisionStore` (`breezy/plugins/fastimport/revision_store.py`) talk to
the repository directly.  `_load_texts` adds the text of every inventory entry the
repository has no text for: it collects the entries' text keys `(file_id, revision)`,
asks the repository which it holds, and calls `add_lines` for each missing one, in the
order of a Python `set`.  `_default_inventories_provider` reads an inventory for each
revision asked for, the empty one for a revision the repository lacks.

The texts the repository holds are a store; `_load_texts` is a step on it.  Its result
does not depend on the order the set is iterated in: each missing key gets the text
and parents the providers give for its file, and every other key keeps what it had.
The entries it loads come from `_non_root_entries_iter`.
-/

namespace Bazaar
namespace Fastimport

open Python

/-- A text key `(file_id, revision_id)`. -/
abbrev TextKey := FileId × RevisionId

/-- A text stored in the repository: the keys of its parents and its lines. -/
structure Text where
  parents : List TextKey
  lines : List Bytes
  deriving DecidableEq

/-- `repo.texts`, by the text it holds under each key. -/
abbrev Texts := TextKey → Option Text

/-- The keys of `text_keys`, a dict from each entry's `(file_id, revision)`. -/
def textKeys (entries : List InventoryEntry) : List TextKey :=
  (entries.map fun ie => (ie.fileId, ie.revision)).dedup

/-- `missing_texts = set(text_keys) - set(text_parent_map)`: the keys
`get_parent_map` finds no text for. -/
def missingTexts (texts : Texts) (entries : List InventoryEntry) : List TextKey :=
  (textKeys entries).filter fun key => (texts key).isNone

/-- The text the loop adds under `key`: the parents `parents_provider` and the lines
`text_provider` give, both asked for the key's file id only. -/
def newText (textProvider : FileId → List Bytes) (parentsProvider : FileId → List RevisionId)
    (key : TextKey) : Text :=
  ⟨(parentsProvider key.1).map fun p => (key.1, p), textProvider key.1⟩

/-- `repo.texts.add_lines(text_key, text_parents, lines)`. -/
def addLines (texts : Texts) (key : TextKey) (text : Text) : Texts :=
  Function.update texts key (some text)

/-- The loop of `_load_texts` over the missing keys in the order `order`. -/
def addMissing (textProvider : FileId → List Bytes) (parentsProvider : FileId → List RevisionId)
    (texts : Texts) (order : List TextKey) : Texts :=
  order.foldl (fun texts key => addLines texts key (newText textProvider parentsProvider key)) texts

/-- `_load_texts(revision_id, entries, text_provider, parents_provider)`, iterating the
set `missing_texts` in the order `missingTexts` lists it. -/
def loadTexts (textProvider : FileId → List Bytes) (parentsProvider : FileId → List RevisionId)
    (texts : Texts) (entries : List InventoryEntry) : Texts :=
  addMissing textProvider parentsProvider texts (missingTexts texts entries)

section Texts

variable (textProvider : FileId → List Bytes) (parentsProvider : FileId → List RevisionId)
  (texts : Texts) (entries : List InventoryEntry)

/-- Adding the texts of distinct keys, one after the other, leaves each key's new text
and every other key as it was, whatever the order. -/
theorem addMissing_apply {order : List TextKey} (hnd : order.Nodup) (k : TextKey) :
    addMissing textProvider parentsProvider texts order k =
      if k ∈ order then some (newText textProvider parentsProvider k) else texts k := by
  have hnd' : (order.map id).Nodup := by rwa [List.map_id]
  split_ifs with hk
  · exact foldl_update_of_mem id (fun key => some (newText textProvider parentsProvider key))
      order texts hnd' k hk
  · exact foldl_update_of_not_mem id _ order texts (by rwa [List.map_id])

theorem missingTexts_nodup : (missingTexts texts entries).Nodup :=
  (List.nodup_dedup _).filter _

theorem mem_missingTexts (k : TextKey) :
    k ∈ missingTexts texts entries ↔
      (texts k).isNone ∧ k ∈ entries.map fun ie => (ie.fileId, ie.revision) := by
  rw [missingTexts, textKeys, List.mem_filter, List.mem_dedup, and_comm]

/-- Whatever order the set `missing_texts` is iterated in, `_load_texts` leaves the
text and parents the providers give for the file under each entry's key that had no
text, and every other key as it was: it never replaces a text. -/
theorem addMissing_any_order {order : List TextKey}
    (horder : order.Perm (missingTexts texts entries)) (k : TextKey) :
    addMissing textProvider parentsProvider texts order k =
      if (texts k).isNone ∧ k ∈ entries.map (fun ie => (ie.fileId, ie.revision)) then
        some (newText textProvider parentsProvider k)
      else texts k := by
  rw [addMissing_apply _ _ _ (horder.nodup_iff.2 (missingTexts_nodup texts entries))]
  exact if_congr (horder.mem_iff.trans (mem_missingTexts texts entries k)) rfl rfl

/-- The texts of files `A` and `B`, missing from an empty repository, added `B` first. -/
theorem addMissing_any_order_swapped :
    addMissing (fun _ => [['x']]) (fun _ => [['0']]) (fun _ => none) [(['B'], ['1']), (['A'], ['1'])]
      (['A'], ['1']) = some ⟨[(['A'], ['0'])], [['x']]⟩ := by
  rw [addMissing_any_order _ _ _
    [(fileEntry ['A'] ['a']).toInventoryEntry, (fileEntry ['B'] ['b']).toInventoryEntry] (by decide)]
  decide

end Texts

/-!
## The entries of an inventory

`_non_root_entries_iter(inv, revision_id)` gives the entries whose texts
`_load_texts` is to load.  An inventory with `iter_non_root_entries` gives its entries
but the root.  Another gives `iter_entries()`, root first, and the root is dropped only
when the repository lacks rich roots; then its revision must be `revision_id`.
-/

/-- An inventory, by what `_non_root_entries_iter` asks of it: `iter_non_root_entries()`
when it has the method, and `iter_entries()`, root first. -/
structure EntriesInventory where
  nonRootEntries : Option (List InventoryEntry)
  entries : List (Bytes × InventoryEntry)

/-- The exceptions of `_non_root_entries_iter`: `StopIteration` from `next` on an
inventory without entries, and `IncompatibleRevision`. -/
inductive EntriesError
  | stopIteration
  | incompatibleRevision
  deriving DecidableEq, Repr

/-- `_non_root_entries_iter(inv, revision_id)`, with `repo.supports_rich_root()` as
`supportsRichRoot`. -/
def nonRootEntriesIter (supportsRichRoot : Bool) (inv : EntriesInventory)
    (revisionId : RevisionId) : Except EntriesError (List InventoryEntry) :=
  match inv.nonRootEntries with
  | some entries => pure entries
  | none =>
    if supportsRichRoot then pure (inv.entries.map Prod.snd)
    else
      match inv.entries with
      | [] => throw .stopIteration
      | (_, root) :: rest =>
        if root.revision ≠ revisionId then throw .incompatibleRevision
        else pure (rest.map Prod.snd)

/-!
## Inventories
-/

/-- `_default_inventories_provider(revision_ids)`, with `repo.has_revision` as
`hasRevision` and the root inventory of `repo.revision_tree(r)` as `revisionTree r`;
`revisionTree none` is the empty tree of `repo.revision_tree(None)`. -/
def defaultInventoriesProvider (hasRevision : RevisionId → Bool)
    (revisionTree : Option RevisionId → Inventory) (revisionIds : List RevisionId) :
    List RevisionId × List Inventory :=
  revisionIds.foldl (fun acc revisionId =>
    if hasRevision revisionId then (acc.1 ++ [revisionId], acc.2 ++ [revisionTree (some revisionId)])
    else (acc.1, acc.2 ++ [revisionTree none])) ([], [])

end Fastimport
end Bazaar
