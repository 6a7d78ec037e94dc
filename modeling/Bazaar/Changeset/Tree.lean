import Bazaar.Changeset.PosixPath
import Mathlib.Logic.Function.Basic

/-!
# The changeset tree

`ChangesetTree` (`read_changeset.py`) is the tree a changeset describes, seen
through its base tree: renames, new file ids and deletions are noted against the
base tree, and `path2id` and `id2path` answer for the new tree.  A path of the new
tree is mapped back to the base tree by `old_path`, which looks the path up among
the renames and otherwise maps its directory and keeps the last component;
`new_path` goes the other way.

Both recurse on `os.path.split` directories.  That recursion need not end, so the
model counts the calls it may still make in a `fuel` argument, and returns `none`
when the fuel runs out.
-/

namespace Bazaar
namespace Changeset

open Python

/-- A file id. -/
abbrev FileId := Bytes

/-- A Python dict, by what `get` returns for each key. -/
abbrev Dict (κ ν : Type) := κ → Option ν

/-- `d[k] = v`. -/
def Dict.set {κ ν : Type} [DecidableEq κ] (d : Dict κ ν) (k : κ) (v : ν) : Dict κ ν :=
  Function.update d k (some v)

@[simp] theorem Dict.set_same {κ ν : Type} [DecidableEq κ] (d : Dict κ ν) (k : κ) (v : ν) :
    d.set k v k = some v := Function.update_same _ _ _

theorem Dict.set_ne {κ ν : Type} [DecidableEq κ] (d : Dict κ ν) {k k' : κ} (v : ν)
    (h : k' ≠ k) : d.set k v k' = d k' := Function.update_noteq h _ _

/-- Setting a key of one dict and the matching key of its inverse keeps them inverse,
if neither key was there. -/
theorem Dict.set_inverse {κ ν : Type} [DecidableEq κ] [DecidableEq ν] {d : Dict κ ν}
    {e : Dict ν κ} (h : ∀ k v, d k = some v ↔ e v = some k) {k : κ} {v : ν}
    (hk : d k = none) (hv : e v = none) (k' : κ) (v' : ν) :
    d.set k v k' = some v' ↔ e.set v k v' = some k' := by
  rcases eq_or_ne k' k with rfl | hkk <;> rcases eq_or_ne v' v with rfl | hvv
  · simp
  · simp [Dict.set_ne _ _ hvv, ← h, hk, hvv.symm]
  · simp [Dict.set_ne _ _ hkk, h, hv, hkk.symm]
  · simp [Dict.set_ne _ _ hkk, Dict.set_ne _ _ hvv, h]

/-!
# The tree
-/

/-- The base tree, by the two maps `ChangesetTree` reads of it (the tests use a
`MockTree` that keeps them in two dicts). -/
structure BaseTree where
  path2id : Dict Path FileId
  id2path : Dict FileId Path

/-- `ChangesetTree`.  The patches and `contents_by_id`, which only `get_file` reads,
are left out. -/
structure ChangesetTree where
  baseTree : BaseTree
  /-- `_renamed`: the old path of each renamed new path. -/
  renamed : Dict Path Path
  /-- `_renamed_r`: the new path of each renamed old path. -/
  renamedR : Dict Path Path
  /-- `_new_id`: the file id noted for a new path. -/
  newId : Dict Path FileId
  /-- `_new_id_r`: the new path noted for a file id. -/
  newIdR : Dict FileId Path
  deleted : List Path

/-- `ChangesetTree(base_tree)`. -/
def ChangesetTree.init (baseTree : BaseTree) : ChangesetTree :=
  ⟨baseTree, fun _ => none, fun _ => none, fun _ => none, fun _ => none, []⟩

/-!
# `old_path` and `new_path`

The two methods walk a path the same way, `old_path` looking it up in `_renamed`
and checking the result against `_renamed_r`, `new_path` the other way round.
`new_path` also checks `_renamed` once more before it recurses, but with the key
`None`, which is never there.
-/

/-- A path that is a key of `backward` has been renamed away: `None` instead. -/
def unlessKey (backward : Dict Path Path) : Option Path → Option Path
  | some p => if (backward p).isSome then none else some p
  | none => none

/-- The walk of `old_path` and `new_path`: a key of `forward` maps to its value;
any other path maps to its mapped directory joined with its name, or to itself
without a directory, unless that is a key of `backward`.  `none` outside is the
fuel running out.  `dirname is not ''` holds exactly when the directory is not
empty, since CPython keeps a single empty string. -/
def walk (forward backward : Dict Path Path) : Nat → Path → Option (Option Path)
  | 0, _ => none
  | fuel + 1, p =>
    match forward p with
    | some q => some (some q)
    | none =>
      if (split p).1 ≠ [] then
        (walk forward backward fuel (split p).1).map fun dir =>
          unlessKey backward (dir.map fun dir => join dir (split p).2)
      else some (unlessKey backward (some p))

section Walk

variable {forward backward : Dict Path Path} {fuel : Nat} {p q : Path}

@[simp] theorem unlessKey_none : unlessKey backward none = none := rfl

theorem unlessKey_eq_some {o : Option Path} :
    unlessKey backward o = some q ↔ o = some q ∧ backward q = none := by
  cases o with
  | none => simp [unlessKey]
  | some p => cases hb : backward p <;> simp [unlessKey, hb] <;> rintro rfl <;> simp [hb]

theorem walk_of_forward (h : forward p = some q) :
    walk forward backward (fuel + 1) p = some (some q) := by
  simp [walk, h]

theorem walk_of_name (h : forward p = none) (hs : (split p).1 = []) :
    walk forward backward (fuel + 1) p = some (unlessKey backward (some p)) := by
  simp [walk, h, hs]

theorem walk_of_dir (h : forward p = none) (hs : (split p).1 ≠ []) :
    walk forward backward (fuel + 1) p = (walk forward backward fuel (split p).1).map
      fun dir => unlessKey backward (dir.map fun dir => join dir (split p).2) := by
  simp [walk, h, hs]

end Walk

namespace ChangesetTree

/-- `note_rename(old_path, new_path)`; `none` is the `AssertionError`.  The first
assertion looks the old path up among the new paths, the second the new path among
the old ones. -/
def noteRename (t : ChangesetTree) (oldPath newPath : Path) : Option ChangesetTree :=
  if (t.renamed oldPath).isSome ∨ (t.renamedR newPath).isSome then none
  else some { t with renamed := t.renamed.set newPath oldPath,
                     renamedR := t.renamedR.set oldPath newPath }

theorem noteRename_eq_some {t t' : ChangesetTree} {oldPath newPath : Path} :
    t.noteRename oldPath newPath = some t' ↔ t.renamed oldPath = none ∧
      t.renamedR newPath = none ∧
        t' = { t with renamed := t.renamed.set newPath oldPath,
                      renamedR := t.renamedR.set oldPath newPath } := by
  unfold noteRename
  cases t.renamed oldPath <;> cases t.renamedR newPath <;> simp [@eq_comm _ t']

/-- `note_id(new_id, new_path)`. -/
@[simps]
def noteId (t : ChangesetTree) (newId : FileId) (newPath : Path) : ChangesetTree :=
  { t with newId := t.newId.set newPath newId, newIdR := t.newIdR.set newId newPath }

/-- `note_deletion(old_path)`. -/
@[simps]
def noteDeletion (t : ChangesetTree) (oldPath : Path) : ChangesetTree :=
  { t with deleted := t.deleted ++ [oldPath] }

/-- `old_path(new_path)`: the base tree's path for a path of the new tree. -/
def oldPath (t : ChangesetTree) (fuel : Nat) (newPath : Path) : Option (Option Path) :=
  walk t.renamed t.renamedR fuel newPath

/-- `new_path(old_path)`: the new tree's path for a path of the base tree. -/
def newPath (t : ChangesetTree) (fuel : Nat) (oldPath : Path) : Option (Option Path) :=
  walk t.renamedR t.renamed fuel oldPath

/-- `path2id(path)`. -/
def path2id (t : ChangesetTree) (fuel : Nat) (path : Path) : Option (Option FileId) :=
  match t.newId path with
  | some fileId => some (some fileId)
  | none => do
    let oldPath ← t.oldPath fuel path
    pure <| match oldPath with
      | none => none
      | some oldPath => if oldPath ∈ t.deleted then none else t.baseTree.path2id oldPath

/-- `id2path(file_id)`. -/
def id2path (t : ChangesetTree) (fuel : Nat) (fileId : FileId) : Option (Option Path) :=
  match t.newIdR fileId with
  | some path => some (some path)
  | none =>
    match t.baseTree.id2path fileId with
    | none => some none
    | some oldPath => if oldPath ∈ t.deleted then some none else t.newPath fuel oldPath

section Lookups

variable {t : ChangesetTree} {fuel : Nat} {p o : Path} {f : FileId}

theorem path2id_of_newId (h : t.newId p = some f) : t.path2id fuel p = some (some f) := by
  simp [path2id, h]

/-- Without a new id, `path2id` looks up the old path in the base tree. -/
theorem path2id_of_newId_none (h : t.newId p = none) :
    t.path2id fuel p = (t.oldPath fuel p).map fun
      | none => none
      | some o => if o ∈ t.deleted then none else t.baseTree.path2id o := by
  simp only [path2id, h]
  cases t.oldPath fuel p <;> rfl

theorem id2path_of_newIdR (h : t.newIdR f = some p) : t.id2path fuel f = some (some p) := by
  simp [id2path, h]

/-- Without a new path, `id2path` maps the base tree's path of the id. -/
theorem id2path_of_base (h : t.newIdR f = none) (ho : t.baseTree.id2path f = some o)
    (hd : o ∉ t.deleted) : t.id2path fuel f = t.newPath fuel o := by
  simp [id2path, h, ho, hd]

/-- Everything `path2id` can have done to return an id. -/
theorem path2id_eq_some_some (h : t.path2id fuel p = some (some f)) :
    t.newId p = some f ∨ t.newId p = none ∧ ∃ o, t.oldPath fuel p = some (some o) ∧
      o ∉ t.deleted ∧ t.baseTree.path2id o = some f := by
  cases hn : t.newId p with
  | some g => rw [path2id_of_newId hn] at h; cases h; exact .inl rfl
  | none =>
    rw [path2id_of_newId_none hn] at h
    obtain ⟨_ | o, ho, h⟩ := Option.map_eq_some'.1 h
    · cases h
    · by_cases hd : o ∈ t.deleted
      · simp [hd] at h
      · simp only [hd, if_false] at h
        exact .inr ⟨rfl, o, ho, hd, h⟩

/-- Everything `id2path` can have done to return a path. -/
theorem id2path_eq_some_some (h : t.id2path fuel f = some (some p)) :
    t.newIdR f = some p ∨ t.newIdR f = none ∧ ∃ o, t.baseTree.id2path f = some o ∧
      o ∉ t.deleted ∧ t.newPath fuel o = some (some p) := by
  cases hn : t.newIdR f with
  | some q => rw [id2path_of_newIdR hn] at h; cases h; exact .inl rfl
  | none =>
    cases ho : t.baseTree.id2path f with
    | none => simp [id2path, hn, ho] at h
    | some o =>
      by_cases hd : o ∈ t.deleted
      · simp [id2path, hn, ho, hd] at h
      · exact .inr ⟨rfl, o, rfl, hd, by rwa [id2path_of_base hn ho hd] at h⟩

end Lookups

end ChangesetTree

end Changeset
end Bazaar
