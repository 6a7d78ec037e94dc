import Bazaar.Changeset.Tree

/-!
# Renames

`old_path` and `new_path` undo each other on normalized paths as long as the two
rename maps do: `_renamed` maps a new path to an old one exactly when `_renamed_r`
maps that old path back.  `note_rename` keeps the maps so only if the old path was
not renamed before and the new path was not a rename target before.  Its
assertions check the other two lookups: the old path among the new paths and the
new path among the old ones.  Renaming one path twice gets through them and leaves
`_renamed` with an entry `_renamed_r` no longer has.
-/

namespace Bazaar
namespace Changeset

open Python

/-!
# The walk, run backwards
-/

section Walk

variable {forward backward : Dict Path Path} {fuel : Nat} {p q : Path}

/-- Everything a walk that returns a path can have done. -/
theorem walk_eq_some_some (h : walk forward backward (fuel + 1) p = some (some q)) :
    forward p = some q ∨ forward p = none ∧ backward q = none ∧
      ((split p).1 = [] ∧ q = p ∨ (split p).1 ≠ [] ∧
        ∃ dir, walk forward backward fuel (split p).1 = some (some dir) ∧
          q = join dir (split p).2) := by
  cases hf : forward p with
  | some q' => rw [walk_of_forward hf] at h; cases h; exact .inl rfl
  | none =>
    refine .inr ⟨rfl, ?_⟩
    by_cases hs : (split p).1 = []
    · rw [walk_of_name hf hs, Option.some_inj, unlessKey_eq_some] at h
      obtain ⟨⟨⟩, hb⟩ := h
      exact ⟨hb, .inl ⟨hs, rfl⟩⟩
    · rw [walk_of_dir hf hs] at h
      obtain ⟨od, hdir, h⟩ := Option.map_eq_some'.1 h
      obtain ⟨hq, hb⟩ := unlessKey_eq_some.1 h
      obtain ⟨dir, rfl, rfl⟩ := Option.map_eq_some'.1 hq
      exact ⟨hb, .inr ⟨hs, dir, hdir, rfl⟩⟩

/-- With every value of `forward` normalized, a walk from a normalized path ends at
a normalized path. -/
theorem walk_normal (hf : ∀ p q, forward p = some q → Normal q) (hp : Normal p) :
    ∀ {fuel q}, walk forward backward fuel p = some (some q) → Normal q := by
  induction hp with
  | name hb hs =>
    rintro (_ | fuel) q h
    · cases h
    rcases walk_eq_some_some h with h | ⟨-, -, ⟨-, rfl⟩ | ⟨hne, -⟩⟩
    · exact hf _ _ h
    · exact .name hb hs
    · simp [split_of_not_mem hs] at hne
  | child hd hb hs ih =>
    rintro (_ | fuel) q h
    · cases h
    rcases walk_eq_some_some h with h | ⟨-, -, ⟨hnil, -⟩ | ⟨-, dir, hdir, rfl⟩⟩
    · exact hf _ _ h
    · simp [hd.split_child hs, hd.ne_nil] at hnil
    · rw [hd.split_child hs] at hdir ⊢
      rw [join_normal (ih hdir) hs]
      exact .child (ih hdir) hb hs

/-- With the two maps inverse and every value of `forward` normalized, the walk back
from where a walk from a normalized path ended returns to that path. -/
theorem walk_inverse (hinv : ∀ p q, forward p = some q ↔ backward q = some p)
    (hf : ∀ p q, forward p = some q → Normal q) (hp : Normal p) :
    ∀ {fuel q}, walk forward backward fuel p = some (some q) →
      ∃ fuel', walk backward forward fuel' q = some (some p) := by
  induction hp with
  | name hb hs =>
    rintro (_ | fuel) q h
    · cases h
    rcases walk_eq_some_some h with h | ⟨hfp, hbq, ⟨hnil, rfl⟩ | ⟨hne, -⟩⟩
    · exact ⟨1, walk_of_forward ((hinv _ _).1 h)⟩
    · exact ⟨1, by rw [walk_of_name hbq hnil]; simp [unlessKey, hfp]⟩
    · simp [split_of_not_mem hs] at hne
  | child hd hb hs ih =>
    rintro (_ | fuel) q h
    · cases h
    rcases walk_eq_some_some h with h | ⟨hfp, hbq, ⟨hnil, -⟩ | ⟨-, dir, hdir, rfl⟩⟩
    · exact ⟨1, walk_of_forward ((hinv _ _).1 h)⟩
    · simp [hd.split_child hs, hd.ne_nil] at hnil
    · rw [hd.split_child hs] at hdir hbq ⊢
      obtain ⟨fuel', hback⟩ := ih hdir
      have hdir' := walk_normal hf hd hdir
      rw [join_normal hdir' hs] at hbq ⊢
      refine ⟨fuel' + 1, ?_⟩
      rw [walk_of_dir hbq (by simp [hdir'.split_child hs, hdir'.ne_nil]), hdir'.split_child hs,
        hback, Option.map_some', Option.map_some', join_normal hd hs]
      simp [unlessKey, hfp]

end Walk

namespace ChangesetTree

/-!
# Rename maps that agree
-/

/-- `_renamed_r` maps an old path to a new one exactly when `_renamed` maps that new
path back, and every renamed path is normalized. -/
structure RenamesAgree (t : ChangesetTree) : Prop where
  inverse : ∀ o n, t.renamedR o = some n ↔ t.renamed n = some o
  normal : ∀ n o, t.renamed n = some o → Normal n ∧ Normal o

variable {t t' : ChangesetTree} {fuel : Nat} {p q : Path}

theorem RenamesAgree.newPath_oldPath (h : t.RenamesAgree) (hp : Normal p)
    (hq : t.newPath fuel p = some (some q)) : ∃ fuel', t.oldPath fuel' q = some (some p) :=
  walk_inverse h.inverse (fun _ _ hn => (h.normal _ _ ((h.inverse _ _).1 hn)).1) hp hq

theorem RenamesAgree.oldPath_newPath (h : t.RenamesAgree) (hq : Normal q)
    (hp : t.oldPath fuel q = some (some p)) : ∃ fuel', t.newPath fuel' p = some (some q) :=
  walk_inverse (fun _ _ => (h.inverse _ _).symm) (fun _ _ ho => (h.normal _ _ ho).2) hq hp

/-- A rename of a path not renamed before to a path no rename targets keeps the maps
in agreement. -/
theorem RenamesAgree.noteRename {o n : Path} (h : t.RenamesAgree) (ho : Normal o)
    (hn : Normal n) (hro : t.renamedR o = none) (hrn : t.renamed n = none)
    (ht : t.noteRename o n = some t') : t'.RenamesAgree := by
  obtain ⟨-, -, rfl⟩ := noteRename_eq_some.1 ht
  refine ⟨Dict.set_inverse h.inverse hro hrn, fun n' o' h' => ?_⟩
  rcases eq_or_ne n' n with rfl | hnn
  · simp only [Dict.set_same, Option.some_inj] at h'
    exact h' ▸ ⟨hn, ho⟩
  · exact h.normal _ _ (by simpa [Dict.set_ne _ _ hnn] using h')

theorem RenamesAgree.noteDeletion {o : Path} (h : t.RenamesAgree) :
    (t.noteDeletion o).RenamesAgree := ⟨h.inverse, h.normal⟩

/-!
# Runs of renames and deletions
-/

/-- The trees a changeset builds from a base tree by deletions and by renames of
normalized paths that rename no path twice and no two paths to one. -/
inductive Edited (base : BaseTree) : ChangesetTree → Prop
  | init : Edited base (init base)
  | rename {t t' : ChangesetTree} {o n : Path} : Edited base t → Normal o → Normal n →
      t.renamedR o = none → t.renamed n = none → t.noteRename o n = some t' →
      Edited base t'
  | deletion {t : ChangesetTree} (o : Path) : Edited base t → Edited base (t.noteDeletion o)

theorem Edited.renamesAgree {base : BaseTree} (ht : Edited base t) : t.RenamesAgree := by
  induction ht with
  | init => exact ⟨fun _ _ => ⟨nofun, nofun⟩, fun _ _ h => by cases h⟩
  | rename _ ho hn hro hrn ht ih => exact ih.noteRename ho hn hro hrn ht
  | deletion _ _ ih => exact ih.noteDeletion

/-- After renames that rename no path twice and no two paths to one, `new_path` and
`old_path` undo each other on normalized paths. -/
theorem newPath_iff_oldPath {base : BaseTree} (ht : Edited base t) (hp : Normal p)
    (hq : Normal q) :
    (∃ fuel, t.newPath fuel p = some (some q)) ↔ ∃ fuel, t.oldPath fuel q = some (some p) :=
  ⟨fun ⟨_, h⟩ => ht.renamesAgree.newPath_oldPath hp h,
    fun ⟨_, h⟩ => ht.renamesAgree.oldPath_newPath hq h⟩

/-- A base tree with one file, `A`, at `a/b`. -/
def fileAtAB : BaseTree where
  path2id p := if p = ['a', '/', 'b'] then some ['A'] else none
  id2path f := if f = ['A'] then some ['a', '/', 'b'] else none

/-- `fileAtAB` with its directory `a` renamed to `c`. -/
def renamedAB : ChangesetTree :=
  ((init fileAtAB).noteRename ['a'] ['c']).getD (init fileAtAB)

theorem renamedAB_edited : Edited fileAtAB renamedAB :=
  .rename .init (.name (by decide) (by decide)) (.name (by decide) (by decide)) rfl rfl rfl

theorem normal_ab : Normal ['a', '/', 'b'] :=
  .child (d := ['a']) (.name (by decide) (by decide)) (by decide) (by decide)

theorem normal_cb : Normal ['c', '/', 'b'] :=
  .child (d := ['c']) (.name (by decide) (by decide)) (by decide) (by decide)

theorem newPath_iff_oldPath_renamedAB :
    Edited fileAtAB renamedAB ∧ Normal ['a', '/', 'b'] ∧ Normal ['c', '/', 'b'] ∧
      ((∃ fuel, renamedAB.newPath fuel ['a', '/', 'b'] = some (some ['c', '/', 'b'])) ↔
        ∃ fuel, renamedAB.oldPath fuel ['c', '/', 'b'] = some (some ['a', '/', 'b'])) :=
  ⟨renamedAB_edited, normal_ab, normal_cb, newPath_iff_oldPath renamedAB_edited normal_ab normal_cb⟩

/-!
# Renaming one path twice
-/

/-- Renaming `a` to `b` and then to `c`: the assertions let both renames through,
`old_path('b')` is `a`, and `new_path('a')` is `c`, whatever the fuel. -/
theorem rename_twice_breaks_inverse (base : BaseTree) :
    ∃ t, ((init base).noteRename ['a'] ['b']).bind (fun t => t.noteRename ['a'] ['c']) =
      some t ∧ ∀ fuel, t.oldPath (fuel + 1) ['b'] = some (some ['a']) ∧
        t.newPath (fuel + 1) ['a'] = some (some ['c']) :=
  ⟨_, rfl, fun _ => ⟨walk_of_forward rfl, walk_of_forward rfl⟩⟩

end ChangesetTree

end Changeset
end Bazaar
