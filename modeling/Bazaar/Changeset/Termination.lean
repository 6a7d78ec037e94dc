import Bazaar.Changeset.Tree

/-!
# When `old_path` and `new_path` return

Both methods recurse on the directory `os.path.split` gives.  For a path that does
not start with `/` that directory is shorter than the path and does not start with
`/` either, so both methods return, and once the fuel is past the path's length the
model's answer no longer depends on it.  The directory of `/` is `/` again: a path
under it sends both methods into the same call for ever.
-/

namespace Bazaar
namespace Changeset

open Python

section Walk

variable {forward backward : Dict Path Path}

/-- Fuel beyond what a walk used changes nothing. -/
theorem walk_add {fuel : Nat} {p : Path} {r : Option Path}
    (h : walk forward backward fuel p = some r) (k : Nat) :
    walk forward backward (fuel + k) p = some r := by
  induction fuel generalizing p r with
  | zero => cases h
  | succ fuel ih =>
    rw [Nat.succ_add]
    cases hf : forward p with
    | some q => rwa [walk_of_forward hf] at h ⊢
    | none =>
      by_cases hs : (split p).1 = []
      · rwa [walk_of_name hf hs] at h ⊢
      · rw [walk_of_dir hf hs] at h ⊢
        obtain ⟨dir, hdir, rfl⟩ := Option.map_eq_some'.1 h
        rw [ih hdir, Option.map_some']

/-- Two walks from one path that both return, return the same. -/
theorem walk_deterministic {m n : Nat} {p : Path} {r r' : Option Path}
    (h : walk forward backward m p = some r) (h' : walk forward backward n p = some r') :
    r = r' := by
  rcases Nat.le_total m n with hmn | hnm
  · obtain ⟨k, rfl⟩ := Nat.exists_eq_add_of_le hmn
    exact Option.some_inj.1 ((walk_add h k).symm.trans h')
  · obtain ⟨k, rfl⟩ := Nat.exists_eq_add_of_le hnm
    exact Option.some_inj.1 (h.symm.trans (walk_add h' k))

/-- A walk from a path that does not start with `/` returns within one call per
character. -/
theorem walk_returns (p : Path) (hp : p.head? ≠ some '/') :
    ∃ r, walk forward backward (p.length + 1) p = some r := by
  cases hf : forward p with
  | some q => exact ⟨_, walk_of_forward hf⟩
  | none =>
    by_cases hs : (split p).1 = []
    · exact ⟨_, walk_of_name hf hs⟩
    · obtain ⟨hlt, hd⟩ := split_fst_lt hp hs
      obtain ⟨r, hr⟩ := walk_returns (split p).1 hd
      obtain ⟨k, hk⟩ := Nat.exists_eq_add_of_le hlt
      exact ⟨_, by rw [walk_of_dir hf hs, hk, walk_add hr k, Option.map_some']⟩
termination_by p.length

/-- Once the fuel is past the length of a path that does not start with `/`, the
walk returns one answer whatever the fuel. -/
theorem walk_eq_of_length_lt (p : Path) (hp : p.head? ≠ some '/') :
    ∃ r, ∀ fuel, p.length < fuel → walk forward backward fuel p = some r := by
  obtain ⟨r, hr⟩ := @walk_returns forward backward p hp
  refine ⟨r, fun fuel hfuel => ?_⟩
  obtain ⟨k, rfl⟩ := Nat.exists_eq_add_of_le hfuel
  exact walk_add hr k

/-- Unless `/` itself is renamed, the walk from `/` never returns. -/
theorem walk_root (h : forward ['/'] = none) :
    ∀ fuel, walk forward backward fuel ['/'] = none
  | 0 => rfl
  | fuel + 1 => by
    have hs : split ['/'] = (['/'], []) := by decide
    rw [walk_of_dir h (by simp [hs]), hs, walk_root h fuel, Option.map_none']

end Walk

namespace ChangesetTree

/-- `old_path('/a')` on a tree with no renames: `split('/a')` is `('/', 'a')`, and
`old_path('/')` calls itself. -/
theorem oldPath_root_never_returns (base : BaseTree) (fuel : Nat) :
    (init base).oldPath fuel ['/', 'a'] = none := by
  cases fuel with
  | zero => rfl
  | succ fuel =>
    have hs : split ['/', 'a'] = (['/'], ['a']) := by decide
    rw [oldPath, walk_of_dir rfl (by simp [hs]), hs, walk_root rfl, Option.map_none']

/-!
# Relative paths
-/

variable (t : ChangesetTree)

theorem path2id_returns (p : Path) (hp : p.head? ≠ some '/') :
    ∃ r, ∀ fuel, p.length < fuel → t.path2id fuel p = some r := by
  obtain ⟨r, hr⟩ := @walk_eq_of_length_lt t.renamed t.renamedR p hp
  cases h : t.newId p with
  | some f => exact ⟨some f, fun _ _ => by simp [path2id, h]⟩
  | none => exact ⟨_, fun fuel hfuel => by simp only [path2id, h, oldPath, hr fuel hfuel]; rfl⟩

theorem id2path_returns (f : FileId)
    (hf : ∀ o, t.baseTree.id2path f = some o → o.head? ≠ some '/') :
    ∃ r n, ∀ fuel, n < fuel → t.id2path fuel f = some r := by
  cases h : t.newIdR f with
  | some p => exact ⟨some p, 0, fun _ _ => by simp [id2path, h]⟩
  | none =>
    cases ho : t.baseTree.id2path f with
    | none => exact ⟨none, 0, fun _ _ => by simp [id2path, h, ho]⟩
    | some o =>
      by_cases hd : o ∈ t.deleted
      · exact ⟨none, 0, fun _ _ => by simp [id2path, h, ho, hd]⟩
      · obtain ⟨r, hr⟩ := @walk_eq_of_length_lt t.renamedR t.renamed o (hf o ho)
        exact ⟨r, o.length, fun fuel hfuel => by simp [id2path, h, ho, hd, newPath, hr fuel hfuel]⟩

/-- On paths that do not start with `/` all four lookups return, with an answer that
more fuel does not change. -/
theorem lookups_return (p : Path) (hp : p.head? ≠ some '/') (f : FileId)
    (hf : ∀ o, t.baseTree.id2path f = some o → o.head? ≠ some '/') :
    (∃ r, ∀ fuel, p.length < fuel → t.oldPath fuel p = some r) ∧
      (∃ r, ∀ fuel, p.length < fuel → t.newPath fuel p = some r) ∧
      (∃ r, ∀ fuel, p.length < fuel → t.path2id fuel p = some r) ∧
      ∃ r n, ∀ fuel, n < fuel → t.id2path fuel f = some r :=
  ⟨walk_eq_of_length_lt p hp, walk_eq_of_length_lt p hp, t.path2id_returns p hp,
    t.id2path_returns f hf⟩

/-- The base tree of the tests' `make_tree_2`, cut to one directory. -/
def grandparentTree : BaseTree where
  path2id p := if p = "grandparent".toList then some ['a'] else none
  id2path f := if f = ['a'] then some "grandparent".toList else none

theorem lookups_return_grandparent :
    "grandparent/parent".toList.head? ≠ some '/' ∧
      (∀ o, (init grandparentTree).baseTree.id2path ['a'] = some o → o.head? ≠ some '/') ∧
      (∃ r, ∀ fuel, "grandparent/parent".length < fuel →
        (init grandparentTree).oldPath fuel "grandparent/parent".toList = some r) ∧
      (∃ r, ∀ fuel, "grandparent/parent".length < fuel →
        (init grandparentTree).newPath fuel "grandparent/parent".toList = some r) ∧
      (∃ r, ∀ fuel, "grandparent/parent".length < fuel →
        (init grandparentTree).path2id fuel "grandparent/parent".toList = some r) ∧
      ∃ r n, ∀ fuel, n < fuel → (init grandparentTree).id2path fuel ['a'] = some r :=
  have hp : "grandparent/parent".toList.head? ≠ some '/' := by decide
  have hf : ∀ o, (init grandparentTree).baseTree.id2path ['a'] = some o →
      o.head? ≠ some '/' := by
    rintro o ⟨⟩
    decide
  ⟨hp, hf, lookups_return _ _ hp _ hf⟩

end ChangesetTree

end Changeset
end Bazaar
