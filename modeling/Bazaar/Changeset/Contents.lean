import Bazaar.Changeset.Ids

/-!
# File contents

`ChangesetTree.get_file` (`read_changeset.py`) gives the contents of a file of the new
tree: the patch noted at its new path, applied by `patched_file` to its old contents,
or the old contents alone when no patch was noted there.  Which file of the base tree
holds the old contents, `old_contents_id` decides in one of two ways.  By id, the
default, it is the file itself if the base tree has it.  By path, with
`contents_by_id` cleared as the tests do for patch-compatible renames, it is the file
the base tree has at the file's new path.

The two ways agree on a file of the base tree exactly when the changeset left its path
as it was.  The patches are a dict keyed by whatever `note_patch` was given; a file the
changeset deletes has the new path `None`, and gets the patch noted under `None`, if
any.

The patch tool and the base tree's `get_file` are not part of this file; they are the
parameters `patchedFile` and `baseFile`.
-/

namespace Bazaar
namespace Changeset

open Python

/-- `base_tree.has_id(file_id)`, as the tests' `MockTree` answers it: whether its
`id2path` finds a path. -/
def BaseTree.hasId (base : BaseTree) (fileId : FileId) : Bool :=
  (base.id2path fileId).isSome

/-- A `ChangesetTree` with what only `get_file` reads: `patches`, the patch noted at
each new path, `None` included, and `contents_by_id`. -/
structure PatchedTree where
  tree : ChangesetTree
  patches : Dict (Option Path) Bytes
  contentsById : Bool

/-- `ChangesetTree(base_tree)`: no patches, and old contents found by id. -/
def PatchedTree.init (baseTree : BaseTree) : PatchedTree :=
  ⟨ChangesetTree.init baseTree, fun _ => none, true⟩

/-- `note_patch(new_path, patch)`. -/
def PatchedTree.notePatch (t : PatchedTree) (newPath : Option Path) (patch : Bytes) :
    PatchedTree :=
  { t with patches := t.patches.set newPath patch }

/-- `old_contents_id(file_id)`: by id, the file itself if the base tree has it; by
path, the base tree's id at the file's new path, and `None` for a file without one,
since the tests' `path2id(None)` finds nothing.  `none` outside is the fuel of
`id2path` running out. -/
def ChangesetTree.oldContentsId (t : ChangesetTree) (contentsById : Bool) (fuel : Nat)
    (fileId : FileId) : Option (Option FileId) :=
  if contentsById then some (if t.baseTree.hasId fileId then some fileId else none)
  else (t.id2path fuel fileId).map fun newPath => newPath.bind t.baseTree.path2id

/-- The exceptions of `get_file`: `KeyError` from the base tree's `get_file` of a file
it holds no contents for, as the tests' `MockTree` raises it, and the assertion that
`patch` succeeded. -/
inductive ContentsError
  | keyError
  | assertion
  deriving DecidableEq, Repr

namespace PatchedTree

variable (baseFile : FileId → Option Bytes) (patchedFile : Bytes → Option Bytes → Option Bytes)

/-- `patch_original`: `base_tree.get_file(base_id)`, or `None` without a base id. -/
def patchOriginal : Option FileId → Except ContentsError (Option Bytes)
  | some baseId =>
    match baseFile baseId with
    | some contents => .ok (some contents)
    | none => .error .keyError
  | none => .ok none

/-- `patched_file(file_patch, original)`; `none` from `patchedFile` is the failed
assertion on `patch`. -/
def applyPatch (patch : Bytes) (original : Option Bytes) : Except ContentsError (Option Bytes) :=
  match patchedFile patch original with
  | some contents => .ok (some contents)
  | none => .error .assertion

/-- `get_file(file_id)`.  The old contents are read before the new path is looked up,
and the patch is looked up at the new path, `None` for a file without one.  `none`
outside is the fuel of `old_path` and `new_path` running out. -/
def getFile (t : PatchedTree) (fuel : Nat) (fileId : FileId) :
    Option (Except ContentsError (Option Bytes)) := do
  let baseId ← t.tree.oldContentsId t.contentsById fuel fileId
  match patchOriginal baseFile baseId with
  | .error e => pure (.error e)
  | .ok original => do
    let newPath ← t.tree.id2path fuel fileId
    pure <| match t.patches newPath with
      | none => .ok original
      | some patch => applyPatch patchedFile patch original

end PatchedTree

/-!
# By id and by path
-/

namespace ChangesetTree

variable {base : BaseTree} {t : ChangesetTree} {f : FileId} {o p : Path} {fuel : Nat}

theorem oldContentsId_byId (ho : t.baseTree.id2path f = some o) :
    t.oldContentsId true fuel f = some (some f) := by
  simp [oldContentsId, BaseTree.hasId, ho]

/-- The new path of a file of the base tree is normalized. -/
theorem IdsAgree.normal_of_base (h : t.IdsAgree) (ho : t.baseTree.id2path f = some o)
    (hp : t.id2path fuel f = some (some p)) : Normal p := by
  rcases id2path_eq_some_some hp with hn | ⟨-, o', ho', -, hnp⟩
  · simp [h.fresh f p hn] at ho
  · exact walk_normal (fun _ _ hr => (h.renames.normal _ _ ((h.renames.inverse _ _).1 hr)).1)
      (h.base.normal f o' ho') hnp

/-- On a file of the base tree, looking its old contents up by path finds the file
itself exactly when its path is unchanged. -/
theorem IdsAgree.byPath_eq_byId_iff (h : t.IdsAgree) (ho : t.baseTree.id2path f = some o) :
    t.oldContentsId false fuel f = t.oldContentsId true fuel f ↔
      t.id2path fuel f = some (some o) := by
  have hno := h.base.normal f o ho
  rw [oldContentsId_byId ho, oldContentsId]
  constructor
  · intro hmap
    obtain ⟨_ | p, hp, hpf⟩ := Option.map_eq_some'.1 hmap
    · cases hpf
    · have hfp := (h.base.inverse f p (h.normal_of_base ho hp)).2 hpf
      rw [ho, Option.some_inj] at hfp
      rwa [hfp]
  · intro hp
    rw [hp]
    exact congrArg some ((h.base.inverse f o hno).1 ho)

/-- On a base tree whose paths are normalized and whose maps are inverse, after renames
between normalized paths that rename no path twice and no two paths to one and
deletions, then new ids for unknown ids at paths without one, `old_contents_id` by path
and by id agree on a file of the base tree exactly when the changeset left its path as
it was: by path, a renamed file's old contents are looked up at its new path, and a
deleted file's are not found. -/
theorem Noted.oldContentsId_byPath_eq_byId_iff (hbase : base.Consistent) (ht : Noted base t)
    (ho : t.baseTree.id2path f = some o) (fuel : Nat) :
    t.oldContentsId false fuel f = t.oldContentsId true fuel f ↔
      t.id2path fuel f = some (some o) :=
  (ht.idsAgree hbase).byPath_eq_byId_iff ho

/-- `a/b` renamed to `c/b` through its directory: the two ways differ on file `A`. -/
theorem Noted.oldContentsId_byPath_eq_byId_iff_renamedAB :
    fileAtAB.Consistent ∧ Noted fileAtAB renamedAB ∧
      renamedAB.baseTree.id2path ['A'] = some ['a', '/', 'b'] ∧
      (renamedAB.oldContentsId false 3 ['A'] = renamedAB.oldContentsId true 3 ['A'] ↔
        renamedAB.id2path 3 ['A'] = some (some ['a', '/', 'b'])) :=
  ⟨fileAtAB_consistent, .edited renamedAB_edited, by decide,
    Noted.oldContentsId_byPath_eq_byId_iff fileAtAB_consistent (.edited renamedAB_edited)
      (by decide) 3⟩

end ChangesetTree

end Changeset
end Bazaar
