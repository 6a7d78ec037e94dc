import Bazaar.Python.Str
import Mathlib.Data.Finset.Basic

/-!
# Per-file heads in the fastimport revision store

`RevisionStore.get_parents_and_revision_for_entry`
(`breezy/plugins/fastimport/revision_store.py`) picks the per-file parents of an
inventory entry and the revision to record for it.  The commit builder's `_heads`
gives the heads among the revisions the parent inventories record for the file; the
loop lists them in the order of the first parent inventory recording each.  With one
head whose entry agrees with the new one, the file is unchanged and keeps that
head's revision; otherwise it gets the new revision.

Neither `_heads` nor `InventoryEntry.parent_candidates` is part of the repository:
both are parameters here.
-/

namespace Bazaar
namespace Fastimport

open Python

abbrev RevisionId := Bytes
abbrev FileId := Bytes

/-- `InventoryEntry.kind`: `'file'`, `'directory'`, `'symlink'` or `'tree-reference'`. -/
inductive Kind
  | file
  | directory
  | symlink
  | treeReference
  deriving DecidableEq, Repr

/-- An inventory entry, by the fields `get_parents_and_revision_for_entry` reads.
`text_sha1` and `executable` are read only for files, `symlink_target` only for
symlinks. -/
structure InventoryEntry where
  fileId : FileId
  revision : RevisionId
  name : Bytes
  kind : Kind
  parentId : Option FileId
  textSha1 : Option Bytes
  executable : Bool
  symlinkTarget : Option Bytes
  deriving DecidableEq

/-- `inv.get_entry(file_id)`; `none` is `NoSuchId`. -/
abbrev Inventory := FileId → Option InventoryEntry

/-- The state `start_new_revision` sets up, less the commit builder, which enters
through its `_heads`.  `__init__` never sets `_current_rev_id`: it is `none` until
`start_new_revision` runs. -/
structure RevisionStore where
  currentRevId : Option RevisionId
  revParentInvs : List Inventory

/-- The errors of `get_parents_and_revision_for_entry`: the `AttributeError` of reading
`_current_rev_id` before `start_new_revision` set it, the assertion that the entry is of
the started revision, and the `KeyError` of a head with no candidate entry. -/
inductive EntryError
  | attributeError
  | otherRevision
  | keyError
  deriving DecidableEq, Repr

/-- One round of the loop over the parent inventories, on `heads` and `head_set`. -/
def headsStep (fileId : FileId) :
    List RevisionId × Finset RevisionId → Inventory → List RevisionId × Finset RevisionId
  | (heads, headSet), inv =>
    match inv fileId with
    | none => (heads, headSet)
    | some e =>
      if e.revision ∈ headSet then (heads ++ [e.revision], headSet.erase e.revision)
      else (heads, headSet)

/-- Whether the entry changed since its one parent entry; more than one head counts
as a change. -/
def changed (parentEntry ie : InventoryEntry) (heads : List RevisionId) : Bool :=
  if 1 < heads.length then true
  else if parentEntry.name ≠ ie.name ∨ parentEntry.kind ≠ ie.kind ∨
      parentEntry.parentId ≠ ie.parentId then true
  else if ie.kind = .file then
    parentEntry.textSha1 ≠ ie.textSha1 ∨ parentEntry.executable ≠ ie.executable
  else if ie.kind = .symlink then parentEntry.symlinkTarget ≠ ie.symlinkTarget
  else false

/-- `get_parents_and_revision_for_entry(ie)`, for a commit builder whose `_heads` is
`heads` and with `parentCandidates` for `ie.parent_candidates`, whose dict is a list
of pairs in insertion order.  The assertion that `_current_rev_id` is not `None` never
fails once it is set, since a revision id is a string. -/
def getParentsAndRevisionForEntry
    (parentCandidates : InventoryEntry → List Inventory → List (RevisionId × InventoryEntry))
    (heads : FileId → List RevisionId → Finset RevisionId)
    (s : RevisionStore) (ie : InventoryEntry) :
    Except EntryError (List RevisionId × RevisionId) := do
  let some currentRevId := s.currentRevId | throw .attributeError
  if ie.revision ≠ currentRevId then throw .otherRevision
  let candidates := parentCandidates ie s.revParentInvs
  let headSet := heads ie.fileId (candidates.map Prod.fst)
  let hs := (s.revParentInvs.foldl (headsStep ie.fileId) ([], headSet)).1
  match hs with
  | [] => return ([], ie.revision)
  | h :: _ =>
    let some parentEntry := candidates.lookup h | throw .keyError
    return (hs, if changed parentEntry ie hs then ie.revision else parentEntry.revision)

/-!
# The heads, in order
-/

/-- The revisions the parent inventories record for a file, in order. -/
def recorded (fileId : FileId) (invs : List Inventory) : List RevisionId :=
  invs.filterMap fun inv => (inv fileId).map InventoryEntry.revision

theorem indexOf_cons_of_ne {a r : RevisionId} (L : List RevisionId) (h : a ≠ r) :
    (r :: L).indexOf a = L.indexOf a + 1 := by
  rw [List.indexOf_cons, beq_eq_false_iff_ne.2 (Ne.symm h)]
  rfl

theorem pairwise_indexOf_cons {r : RevisionId} {L T : List RevisionId} (hT : ∀ a ∈ T, a ≠ r)
    (h : T.Pairwise fun a b => L.indexOf a < L.indexOf b) :
    T.Pairwise fun a b => (r :: L).indexOf a < (r :: L).indexOf b :=
  h.imp_of_mem fun ha hb hab => by
    rw [indexOf_cons_of_ne _ (hT _ ha), indexOf_cons_of_ne _ (hT _ hb)]
    omega

/-- From `head_set` `S`, the loop adds the members of `S` the inventories record, each
once, in the order of their first recording. -/
theorem foldl_headsStep (fileId : FileId) :
    ∀ (invs : List Inventory) (hs : List RevisionId) (S : Finset RevisionId), ∃ T,
      (invs.foldl (headsStep fileId) (hs, S)).1 = hs ++ T ∧
      (∀ r, r ∈ T ↔ r ∈ S ∧ r ∈ recorded fileId invs) ∧
      T.Pairwise fun a b => (recorded fileId invs).indexOf a < (recorded fileId invs).indexOf b
  | [], hs, S => ⟨[], by simp, by simp [recorded], .nil⟩
  | inv :: invs, hs, S => by
    cases he : inv fileId with
    | none =>
      have hrec : recorded fileId (inv :: invs) = recorded fileId invs := by simp [recorded, he]
      obtain ⟨T, hT, hmem, hord⟩ := foldl_headsStep fileId invs hs S
      exact ⟨T, by simpa [headsStep, he] using hT, hrec ▸ hmem, hrec ▸ hord⟩
    | some e =>
      have hrec : recorded fileId (inv :: invs) = e.revision :: recorded fileId invs := by
        simp [recorded, he]
      rw [hrec]
      by_cases hS : e.revision ∈ S
      · obtain ⟨T, hT, hmem, hord⟩ :=
          foldl_headsStep fileId invs (hs ++ [e.revision]) (S.erase e.revision)
        have hne : ∀ a ∈ T, a ≠ e.revision := fun a ha => Finset.ne_of_mem_erase ((hmem a).1 ha).1
        refine ⟨e.revision :: T, by simpa [headsStep, he, hS] using hT, fun r => ?_, ?_⟩
        · by_cases hr : r = e.revision
          · simp [hr, hS]
          · simp [hr, hmem]
        · refine .cons (fun b hb => ?_) (pairwise_indexOf_cons hne hord)
          rw [indexOf_cons_of_ne _ (hne b hb)]
          simp [List.indexOf_cons]
      · obtain ⟨T, hT, hmem, hord⟩ := foldl_headsStep fileId invs hs S
        have hne : ∀ a ∈ T, a ≠ e.revision := fun a ha h => hS (h ▸ ((hmem a).1 ha).1)
        refine ⟨T, by simpa [headsStep, he, hS] using hT, fun r => ?_, pairwise_indexOf_cons hne hord⟩
        by_cases hr : r = e.revision
        · subst hr
          exact ⟨fun h => absurd rfl (hne _ h), fun h => absurd h.1 hS⟩
        · simp [hr, hmem]

/-!
# The revision to record
-/

/-- The parent entry agrees with the entry on name, kind and parent, on text and
executable bit for a file, and on the target for a symlink. -/
def Agrees (parentEntry ie : InventoryEntry) : Prop :=
  parentEntry.name = ie.name ∧ parentEntry.kind = ie.kind ∧ parentEntry.parentId = ie.parentId ∧
    (ie.kind = .file →
      parentEntry.textSha1 = ie.textSha1 ∧ parentEntry.executable = ie.executable) ∧
    (ie.kind = .symlink → parentEntry.symlinkTarget = ie.symlinkTarget)

theorem changed_eq_true_iff (parentEntry ie : InventoryEntry) (hs : List RevisionId) :
    changed parentEntry ie hs = true ↔ 1 < hs.length ∨ ¬ Agrees parentEntry ie := by
  unfold changed Agrees
  by_cases hl : 1 < hs.length
  · simp [hl]
  by_cases hb : parentEntry.name = ie.name ∧ parentEntry.kind = ie.kind ∧
      parentEntry.parentId = ie.parentId
  · obtain ⟨h1, h2, h3⟩ := hb
    cases h : ie.kind <;> simp [hl, h1, h2, h3, h, or_iff_not_imp_left]
  · have hnb : parentEntry.name ≠ ie.name ∨ parentEntry.kind ≠ ie.kind ∨
        parentEntry.parentId ≠ ie.parentId := by simpa only [not_and_or] using hb
    rw [if_neg hl, if_pos hnb]
    exact iff_of_true rfl (.inr fun h => hb ⟨h.1, h.2.1, h.2.2.1⟩)

/-- The per-file parents and revision of an entry, as `record_entry_contents` picks
them: each head of `H` once, in the order of first recording in `revs`; and the
revision of the one head whose candidate entry agrees with `ie`, or else the entry's
own. -/
structure ParentsAndRevision (H : Finset RevisionId) (revs : List RevisionId)
    (candidates : List (RevisionId × InventoryEntry)) (ie : InventoryEntry)
    (hs : List RevisionId) (rev : RevisionId) : Prop where
  mem : ∀ r, r ∈ hs ↔ r ∈ H
  nodup : hs.Nodup
  ordered : hs.Pairwise fun a b => revs.indexOf a < revs.indexOf b
  unchanged : ∀ h e, hs = [h] → candidates.lookup h = some e → Agrees e ie → rev = h
  changed : (¬ ∃ h e, hs = [h] ∧ candidates.lookup h = some e ∧ Agrees e ie) → rev = ie.revision

section Entry

variable (parentCandidates : InventoryEntry → List Inventory → List (RevisionId × InventoryEntry))
  (heads : FileId → List RevisionId → Finset RevisionId) (s : RevisionStore) (ie : InventoryEntry)

/-- With the store started for the entry's revision, `_heads` drawing from the revisions
the parent inventories record for the file, and a candidate entry of that revision for
every recorded revision, `get_parents_and_revision_for_entry` returns the heads in the
order of the first parent inventory recording them, and the one head's revision exactly
when its entry agrees with the new one. -/
theorem getParentsAndRevisionForEntry_heads (hcur : s.currentRevId = some ie.revision)
    (hH : ∀ r ∈ heads ie.fileId ((parentCandidates ie s.revParentInvs).map Prod.fst),
      r ∈ recorded ie.fileId s.revParentInvs)
    (hcand : ∀ r ∈ recorded ie.fileId s.revParentInvs,
      ∃ e, (parentCandidates ie s.revParentInvs).lookup r = some e ∧ e.revision = r) :
    ∃ hs rev, getParentsAndRevisionForEntry parentCandidates heads s ie = .ok (hs, rev) ∧
      ParentsAndRevision (heads ie.fileId ((parentCandidates ie s.revParentInvs).map Prod.fst))
        (recorded ie.fileId s.revParentInvs) (parentCandidates ie s.revParentInvs) ie hs rev := by
  obtain ⟨T, hT, hmem, hord⟩ := foldl_headsStep ie.fileId s.revParentInvs []
    (heads ie.fileId ((parentCandidates ie s.revParentInvs).map Prod.fst))
  have hmemH : ∀ r, r ∈ T ↔ r ∈ heads ie.fileId ((parentCandidates ie s.revParentInvs).map Prod.fst) :=
    fun r => ⟨fun h => ((hmem r).1 h).1, fun h => (hmem r).2 ⟨h, hH r h⟩⟩
  have hnodup : T.Nodup := hord.imp fun hab hEq => by subst hEq; exact lt_irrefl _ hab
  simp only [List.nil_append] at hT
  cases T with
  | nil =>
    refine ⟨[], ie.revision, ?_, hmemH, hnodup, hord,
      fun _ _ h => absurd h.symm (List.cons_ne_nil _ _), fun _ => rfl⟩
    simp [getParentsAndRevisionForEntry, hcur, hT]
  | cons h t =>
    obtain ⟨e, he, her⟩ := hcand h ((hmem h).1 (.head _)).2
    refine ⟨h :: t, if changed e ie (h :: t) then ie.revision else e.revision, ?_, hmemH, hnodup,
      hord, ?_, fun hne => ?_⟩
    · simp [getParentsAndRevisionForEntry, hcur, hT, he]
    · rintro _ _ ⟨rfl, rfl⟩ he' hagree
      cases he.symm.trans he'
      simp [(changed_eq_true_iff e ie [h]).not.2 (by simp [hagree]), her]
    · have : changed e ie (h :: t) = true := by
        rw [changed_eq_true_iff]
        cases t with
        | nil => exact .inr fun hagree => hne ⟨h, e, rfl, he, hagree⟩
        | cons _ _ => simp
      simp [this]

/-- The entry of file `F` in a revision: a file named `f` at the root. -/
def entryOfF (revision : RevisionId) : InventoryEntry :=
  ⟨['F'], revision, ['f'], .file, none, some ['s'], false, none⟩

/-- Revision `3` of `F` over parents recording it at `1`, `2` and `1` again. -/
def mergeStore : RevisionStore :=
  ⟨some ['3'], [fun _ => some (entryOfF ['1']), fun _ => some (entryOfF ['2']),
    fun _ => some (entryOfF ['1'])]⟩

theorem getParentsAndRevisionForEntry_heads_merge :
    ∃ hs rev, getParentsAndRevisionForEntry (fun _ _ => [(['1'], entryOfF ['1']),
        (['2'], entryOfF ['2'])]) (fun _ _ => {['2']}) mergeStore (entryOfF ['3']) = .ok (hs, rev) ∧
      ParentsAndRevision {['2']} (recorded ['F'] mergeStore.revParentInvs)
        [(['1'], entryOfF ['1']), (['2'], entryOfF ['2'])] (entryOfF ['3']) hs rev :=
  getParentsAndRevisionForEntry_heads _ _ _ _ rfl (by decide) fun r hr => by
    simp only [recorded, mergeStore, List.filterMap, Option.map_some', List.mem_cons,
      List.not_mem_nil, or_false] at hr
    rcases hr with rfl | rfl | rfl <;> exact ⟨_, rfl, rfl⟩

/-- `start_new_revision(revision, parents, parent_invs)`, on the state
`get_parents_and_revision_for_entry` reads. -/
def RevisionStore.startNewRevision (revisionId : RevisionId) (parentInvs : List Inventory) :
    RevisionStore :=
  ⟨some revisionId, parentInvs⟩

end Entry

end Fastimport
end Bazaar
