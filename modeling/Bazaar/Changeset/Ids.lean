import Bazaar.Changeset.Renames
import Bazaar.Changeset.Termination

/-!
# File ids

`path2id` and `id2path` undo each other on normalized paths when the base tree's
maps do, the rename maps agree, and every new id goes to a path that had none.
Neither method normalizes its argument, though: `os.path.split` drops the slashes
before a name, so `path2id('a//b')` finds the file at `a/b`, whose path is `a/b`.
-/

namespace Bazaar
namespace Changeset

open Python

/-- The base tree's paths are normalized, and on them its two maps are inverse. -/
structure BaseTree.Consistent (base : BaseTree) : Prop where
  normal : ∀ f p, base.id2path f = some p → Normal p
  inverse : ∀ f p, Normal p → (base.id2path f = some p ↔ base.path2id p = some f)

namespace ChangesetTree

variable {base : BaseTree} {t : ChangesetTree} {f : FileId} {p : Path}

/-!
# Runs
-/

/-- Renames and deletions first, then new ids: each for an id neither tree knows
and a path `path2id` finds no id for. -/
inductive Noted (base : BaseTree) : ChangesetTree → Prop
  | edited {t : ChangesetTree} : Edited base t → Noted base t
  | noteId {t : ChangesetTree} {f : FileId} {p : Path} : Noted base t →
      t.baseTree.id2path f = none → t.newIdR f = none →
      (∃ fuel, t.path2id fuel p = some none) → Noted base (t.noteId f p)

/-- What keeps `path2id` and `id2path` inverse: the base tree's maps are, the rename
maps agree, the new-id maps are inverse, a new id is not in the base tree, and the
base tree has no id for the old path of a path with a new id. -/
structure IdsAgree (t : ChangesetTree) : Prop where
  base : t.baseTree.Consistent
  renames : t.RenamesAgree
  newId : ∀ f p, t.newIdR f = some p ↔ t.newId p = some f
  fresh : ∀ f p, t.newIdR f = some p → t.baseTree.id2path f = none
  unused : ∀ f p fuel o, t.newId p = some f → t.oldPath fuel p = some (some o) →
    o ∉ t.deleted → t.baseTree.path2id o = none

theorem Edited.noIds (ht : Edited base t) :
    t.baseTree = base ∧ (∀ p, t.newId p = none) ∧ ∀ f, t.newIdR f = none := by
  induction ht with
  | init => exact ⟨rfl, fun _ => rfl, fun _ => rfl⟩
  | rename _ _ _ _ _ ht ih => obtain ⟨-, -, rfl⟩ := noteRename_eq_some.1 ht; exact ih
  | deletion _ _ ih => exact ih

theorem Edited.idsAgree (hbase : base.Consistent) (ht : Edited base t) : t.IdsAgree := by
  obtain ⟨hb, hn, hr⟩ := ht.noIds
  exact ⟨hb ▸ hbase, ht.renamesAgree, fun _ _ => by simp [hn, hr],
    fun _ _ h => by simp [hr] at h, fun _ _ _ _ h => by simp [hn] at h⟩

theorem newId_eq_none_of_path2id (h : t.path2id fuel p = some none) : t.newId p = none := by
  cases hn : t.newId p with
  | none => rfl
  | some g => rw [path2id_of_newId hn] at h; cases h

theorem IdsAgree.noteId (h : t.IdsAgree) (hf : t.baseTree.id2path f = none)
    (hfr : t.newIdR f = none) (hp : ∃ fuel, t.path2id fuel p = some none) :
    (t.noteId f p).IdsAgree := by
  obtain ⟨fuel₀, hp⟩ := hp
  have hnp := newId_eq_none_of_path2id hp
  refine ⟨h.base, ⟨h.renames.inverse, h.renames.normal⟩, Dict.set_inverse h.newId hfr hnp,
    fun f' p' h' => ?_, fun f' p' fuel o h' ho hd => ?_⟩
  · rcases eq_or_ne f' f with rfl | hff
    · exact hf
    · exact h.fresh f' p' (by simpa [Dict.set_ne _ _ hff] using h')
  · rcases eq_or_ne p' p with rfl | hpp
    · rw [path2id_of_newId_none hnp] at hp
      obtain ⟨r, hr, hnone⟩ := Option.map_eq_some'.1 hp
      obtain rfl := walk_deterministic hr ho
      simp only [ite_eq_left_iff] at hnone
      exact hnone hd
    · exact h.unused f' p' fuel o (by simpa [Dict.set_ne _ _ hpp] using h') ho hd

theorem Noted.idsAgree (hbase : base.Consistent) (ht : Noted base t) : t.IdsAgree := by
  induction ht with
  | edited ht => exact ht.idsAgree hbase
  | noteId _ hf hfr hp ih => exact ih.noteId hf hfr hp

/-!
# `path2id` and `id2path`
-/

theorem IdsAgree.id2path_iff_path2id (h : t.IdsAgree) (f : FileId) (hp : Normal p) :
    (∃ fuel, t.id2path fuel f = some (some p)) ↔ ∃ fuel, t.path2id fuel p = some (some f) := by
  constructor
  · rintro ⟨fuel, hf⟩
    rcases id2path_eq_some_some hf with hn | ⟨-, o, ho, hd, hnp⟩
    · exact ⟨0, path2id_of_newId ((h.newId f p).1 hn)⟩
    · have hno := h.base.normal f o ho
      have hbase := (h.base.inverse f o hno).1 ho
      obtain ⟨fuel', hold⟩ := h.renames.newPath_oldPath hno hnp
      cases hnew : t.newId p with
      | some g => simp [h.unused g p fuel' o hnew hold hd] at hbase
      | none => exact ⟨fuel', by rw [path2id_of_newId_none hnew, hold]; simp [hd, hbase]⟩
  · rintro ⟨fuel, hf⟩
    rcases path2id_eq_some_some hf with hn | ⟨-, o, ho, hd, hbo⟩
    · exact ⟨0, id2path_of_newIdR ((h.newId f p).2 hn)⟩
    · have hno : Normal o := walk_normal (fun _ _ h' => (h.renames.normal _ _ h').2) hp ho
      have hid := (h.base.inverse f o hno).2 hbo
      obtain ⟨fuel', hnew⟩ := h.renames.oldPath_newPath hp ho
      cases hr : t.newIdR f with
      | some q => simp [h.fresh f q hr] at hid
      | none => exact ⟨fuel', by rw [id2path_of_base hr hid hd, hnew]⟩

/-- After renames that rename no path twice and no two paths to one, deletions, and
new ids for unknown ids at paths without one, `id2path` and `path2id` undo each other
on normalized paths. -/
theorem id2path_iff_path2id_of_noted (hbase : base.Consistent) (ht : Noted base t)
    (f : FileId) (hp : Normal p) :
    (∃ fuel, t.id2path fuel f = some (some p)) ↔ ∃ fuel, t.path2id fuel p = some (some f) :=
  (ht.idsAgree hbase).id2path_iff_path2id f hp

theorem fileAtAB_consistent : fileAtAB.Consistent where
  normal f p h := by
    simp only [fileAtAB, Option.ite_none_right_eq_some, Option.some_inj] at h
    exact h.2 ▸ normal_ab
  inverse f p _ := by
    simp only [fileAtAB, Option.ite_none_right_eq_some, Option.some_inj]
    exact ⟨fun ⟨hf, hp⟩ => ⟨hp.symm, hf.symm⟩, fun ⟨hp, hf⟩ => ⟨hf.symm, hp.symm⟩⟩

theorem id2path_iff_path2id_of_noted_renamedAB :
    fileAtAB.Consistent ∧ Noted fileAtAB (renamedAB.noteId ['E'] ['d']) ∧
      Normal ['c', '/', 'b'] ∧
      ((∃ fuel, (renamedAB.noteId ['E'] ['d']).id2path fuel ['A'] = some (some ['c', '/', 'b'])) ↔
        ∃ fuel, (renamedAB.noteId ['E'] ['d']).path2id fuel ['c', '/', 'b'] = some (some ['A'])) :=
  have ht : Noted fileAtAB (renamedAB.noteId ['E'] ['d']) :=
    .noteId (.edited renamedAB_edited) (by decide) (by decide) ⟨2, by decide⟩
  ⟨fileAtAB_consistent, ht, normal_cb,
    id2path_iff_path2id_of_noted fileAtAB_consistent ht ['A'] normal_cb⟩

/-- On the one-file tree `path2id('a//b')` is `A`, but `id2path('A')` is `a/b`. -/
theorem path2id_double_slash :
    fileAtAB.Consistent ∧ ¬ ∀ f p, (∃ fuel, (init fileAtAB).id2path fuel f = some (some p)) ↔
      ∃ fuel, (init fileAtAB).path2id fuel p = some (some f) := by
  refine ⟨fileAtAB_consistent, fun h => ?_⟩
  obtain ⟨fuel, hf⟩ := (h ['A'] ['a', '/', '/', 'b']).2 ⟨4, by decide⟩
  rw [id2path_of_base rfl rfl (by decide)] at hf
  have hab : (init fileAtAB).newPath 4 ['a', '/', 'b'] = some (some ['a', '/', 'b']) := by
    decide
  simpa using walk_deterministic hf hab

/-!
# Iterating over the tree

`__iter__` yields the keys of `_new_id_r`, then every id of the base tree that
`id2path` finds a path for.  After a run of `note_*` calls each id with a path comes
out exactly once, since a new id is never one of the base tree's.
-/

/-- The second loop of `__iter__`, over the ids of the base tree: those `id2path` finds
a path for; `none` when the fuel runs out. -/
def iterBase (t : ChangesetTree) (fuel : Nat) : List FileId → Option (List FileId)
  | [] => some []
  | f :: fs => do
    let path ← t.id2path fuel f
    let rest ← t.iterBase fuel fs
    pure (if path.isNone then rest else f :: rest)

/-- `__iter__()`, with `newIds` the keys of `_new_id_r` in the dict's order and
`baseIds` the ids the base tree iterates over. -/
def iter (t : ChangesetTree) (fuel : Nat) (newIds baseIds : List FileId) :
    Option (List FileId) :=
  (t.iterBase fuel baseIds).map (newIds ++ ·)

/-- The base loop keeps, in order, the ids `id2path` finds a path for. -/
theorem iterBase_eq_some : ∀ {fs l : List FileId}, t.iterBase fuel fs = some l →
    l.Sublist fs ∧ ∀ f, f ∈ l ↔ f ∈ fs ∧ ∃ p, t.id2path fuel f = some (some p)
  | [], l, h => by cases h; simp
  | f :: fs, l, h => by
    obtain ⟨path, hp, h⟩ := Option.bind_eq_some.1 h
    obtain ⟨rest, hr, h⟩ := Option.bind_eq_some.1 h
    obtain ⟨hsub, hmem⟩ := iterBase_eq_some hr
    cases h
    cases path with
    | none =>
      refine ⟨hsub.cons f, fun g => ?_⟩
      by_cases hg : g = f
      · subst hg
        simp [hmem, hp]
      · simp [hmem, hg]
    | some q =>
      refine ⟨hsub.cons₂ f, fun g => ?_⟩
      by_cases hg : g = f
      · subst hg
        simp [hp]
      · simp [hmem, hg]

/-- A run of `note_*` calls gives new ids only to ids the base tree does not have. -/
theorem Noted.fresh (ht : Noted base t) :
    ∀ f p, t.newIdR f = some p → t.baseTree.id2path f = none := by
  induction ht with
  | edited ht => exact fun f p h => by simp [ht.noIds.2.2 f] at h
  | @noteId t g q _ hg _ _ ih =>
    intro f p h
    rcases eq_or_ne f g with rfl | hfg
    · exact hg
    · exact ih f p (by simpa [Dict.set_ne _ _ hfg] using h)

/-- After a run of `note_*` calls, what `__iter__` yields, when the lookups return, is
every id `id2path` finds a path for, each once. -/
theorem Noted.iter_eq_some (ht : Noted base t) {newIds baseIds : List FileId}
    (hnew : newIds.Nodup ∧ ∀ f, f ∈ newIds ↔ (t.newIdR f).isSome)
    (hbase : baseIds.Nodup ∧ ∀ f, f ∈ baseIds ↔ (t.baseTree.id2path f).isSome)
    {l : List FileId} (h : t.iter fuel newIds baseIds = some l) :
    l.Nodup ∧ ∀ f, f ∈ l ↔ ∃ p, t.id2path fuel f = some (some p) := by
  obtain ⟨lb, hlb, rfl⟩ := Option.map_eq_some'.1 h
  obtain ⟨hsub, hmem⟩ := iterBase_eq_some hlb
  have hnewPath : ∀ f ∈ newIds, ∃ p, t.newIdR f = some p := fun f hf =>
    Option.isSome_iff_exists.1 ((hnew.2 f).1 hf)
  refine ⟨List.nodup_append.2 ⟨hnew.1, hsub.nodup hbase.1, fun f hf hf' => ?_⟩, fun f => ?_⟩
  · obtain ⟨p, hp⟩ := hnewPath f hf
    have := (hbase.2 f).1 ((hmem f).1 hf').1
    simp [ht.fresh f p hp] at this
  · rw [List.mem_append, hmem]
    constructor
    · rintro (hf | ⟨-, hpath⟩)
      · obtain ⟨p, hp⟩ := hnewPath f hf
        exact ⟨p, id2path_of_newIdR hp⟩
      · exact hpath
    · rintro ⟨p, hp⟩
      rcases id2path_eq_some_some hp with hn | ⟨-, o, ho, -, -⟩
      · exact .inl ((hnew.2 f).2 (by simp [hn]))
      · exact .inr ⟨(hbase.2 f).2 (by simp [ho]), p, hp⟩

/-- When no path of the base tree starts with `/`, the base loop returns once the fuel
passes a bound. -/
theorem iterBase_returns (hrel : ∀ f o, t.baseTree.id2path f = some o → o.head? ≠ some '/') :
    ∀ fs : List FileId, ∃ n, ∀ fuel, n < fuel → (t.iterBase fuel fs).isSome
  | [] => ⟨0, fun _ _ => rfl⟩
  | f :: fs => by
    obtain ⟨r, m, hr⟩ := t.id2path_returns f (hrel f)
    obtain ⟨n, hn⟩ := iterBase_returns hrel fs
    refine ⟨max m n, fun fuel hfuel => ?_⟩
    obtain ⟨rest, hrest⟩ := Option.isSome_iff_exists.1 (hn fuel (by omega))
    simp [iterBase, hr fuel (by omega), hrest]

/-- After renames between normalized paths and deletions, then new ids, on a base tree
none of whose paths starts with `/`, `__iter__` returns once the fuel passes a bound,
and yields every id `id2path` finds a path for, each once. -/
theorem Noted.iter_returns (ht : Noted base t)
    (hrel : ∀ f o, t.baseTree.id2path f = some o → o.head? ≠ some '/') {newIds baseIds : List FileId}
    (hnew : newIds.Nodup ∧ ∀ f, f ∈ newIds ↔ (t.newIdR f).isSome)
    (hbase : baseIds.Nodup ∧ ∀ f, f ∈ baseIds ↔ (t.baseTree.id2path f).isSome) :
    ∃ n, ∀ fuel, n < fuel → ∃ l, t.iter fuel newIds baseIds = some l ∧ l.Nodup ∧
      ∀ f, f ∈ l ↔ ∃ p, t.id2path fuel f = some (some p) := by
  obtain ⟨n, hn⟩ := iterBase_returns hrel baseIds
  refine ⟨n, fun fuel hfuel => ?_⟩
  obtain ⟨lb, hlb⟩ := Option.isSome_iff_exists.1 (hn fuel hfuel)
  have h : t.iter fuel newIds baseIds = some (newIds ++ lb) := by simp [iter, hlb]
  exact ⟨_, h, ht.iter_eq_some hnew hbase h⟩

theorem Noted.iter_returns_renamedAB :
    ∃ n, ∀ fuel, n < fuel → ∃ l, (renamedAB.noteId ['E'] ['d']).iter fuel [['E']] [['A']] = some l ∧
      l.Nodup ∧ ∀ f, f ∈ l ↔ ∃ p, (renamedAB.noteId ['E'] ['d']).id2path fuel f = some (some p) :=
  Noted.iter_returns (.noteId (.edited renamedAB_edited) (by decide) (by decide) ⟨2, by decide⟩)
    (fun f o h => by
      change (if f = ['A'] then some ['a', '/', 'b'] else none) = some o at h
      split at h <;> cases h
      decide)
    ⟨by decide, fun f => by
      by_cases hf : f = ['E'] <;> simp [hf, Dict.set, renamedAB, noteRename, init]⟩
    ⟨by decide, fun f => by
      change f ∈ [['A']] ↔ (if f = ['A'] then some ['a', '/', 'b'] else none).isSome
      by_cases hf : f = ['A'] <;> simp [hf]⟩

end ChangesetTree

end Changeset
end Bazaar
