import Bazaar.Changeset.ReaderRuns

/-!
# Whole files

What `read_changeset` makes of a whole file.  A well-formed changeset, whose header
and footer hold `key: value` entries and revisions with their entries, and whose
patches all have a body, reads as its entries set in order, the patches' actions, and
`complete_info`.  A file cut after the
footer's first line escapes with `StopIteration`, and a changeset without a base
with an error that is no `BadChangeset`.

What the info then becomes: `get_changeset` raises at the first action it reads, and
returns only for a changeset without any; `as_revision` reads back the parents given
below their key.
-/

namespace Bazaar
namespace Changeset

open Python

/-- The first line of the footer. -/
def footerBegin : Line := "# BEGIN BZR FOOTER\n".toList

/-- The last line of the footer. -/
def footerEnd : Line := "# END BZR FOOTER\n".toList

/-!
# A well-formed file
-/

theorem length_le_flatMap_entries {es : List Entry} (hes : ∀ e ∈ es, e.WellFormed) :
    es.length ≤ (es.flatMap Entry.lines).length :=
  length_le_flatMap Entry.lines es fun e he => by
    obtain ⟨l, ls, h, -⟩ := Entry.lines_take (hes e he)
    simp [h]

theorem readHeader_entries {h0 headerStr : Bytes} {hs : List Bytes} (hne : hs ≠ [])
    (hstr : h0.take headerStr.length = headerStr) (hstrip : strip (' ' :: h0) = h0)
    (es : List Entry) (hes : ∀ e ∈ es, e.WellFormed) (tail : List Line) (info : ChangesetInfo) :
    readHeader (h0 :: hs) headerStr
        ⟨(h0 :: hs).map headerLine ++ (es.flatMap Entry.lines ++ ['\n'] :: tail), none, info⟩ =
      es.foldlM Entry.apply info >>= fun info' => .ok (Reader.mk tail (some ['\n']) info').next.2 := by
  obtain ⟨next, rest, hl⟩ := List.exists_cons_of_ne_nil
    (show es.flatMap Entry.lines ++ ['\n'] :: tail ≠ [] by simp)
  have hlen : es.length < rest.length + 1 := by
    have := congrArg List.length hl
    have := length_le_flatMap_entries hes
    simp only [List.length_append, List.length_cons] at *
    omega
  rw [hl]
  simp only [readHeader, headerLoop_header hne hstr hstrip, ok_bind, headerEntries]
  exact entriesLoop_entries (by decide) (by decide) es _ next rest tail info hes hlen hl.symm

theorem readFooter_entries (fs : List Entry) (hfs : ∀ e ∈ fs, e.WellFormed) (info : ChangesetInfo) :
    readFooter ⟨fs.flatMap Entry.lines ++ [footerEnd], some footerBegin, info⟩ =
      fs.foldlM Entry.apply info >>= fun info' =>
        .ok (Reader.mk [] (some footerEnd) info').next.2 := by
  obtain ⟨first, more, hl⟩ := List.exists_cons_of_ne_nil
    (show fs.flatMap Entry.lines ++ [footerEnd] ≠ [] by simp)
  have hlen : fs.length < more.length + 1 := by
    have := congrArg List.length hl
    have := length_le_flatMap_entries hfs
    simp only [List.length_append, List.length_cons, List.length_nil] at *
    omega
  rw [hl]
  simp only [readFooter, Reader.next, pull, ne_eq, footerBegin, not_true, if_false, footerLoop]
  exact entriesLoop_entries (by decide) (by decide) fs _ first more [] info hfs hlen hl.symm

/-- A well-formed changeset: the header's lines, its entries, the blank line that ends
them, patches that all have a body, and the footer with its entries.  `read_changeset`
does what `_handle_next` does with the header's entries in order, appends the patches'
actions, does the same with the footer's entries, and completes the info; any error is
that of an entry or of `complete_info`. -/
theorem readChangeset_entries {h0 headerStr : Bytes} {hs : List Bytes} (hne : hs ≠ [])
    (hstr : h0.take headerStr.length = headerStr) (hstrip : strip (' ' :: h0) = h0)
    (es : List Entry) (hes : ∀ e ∈ es, e.WellFormed)
    (blocks : List PatchBlock) (hb : ∀ b ∈ blocks, b.WellFormed)
    (fs : List Entry) (hfs : ∀ e ∈ fs, e.WellFormed) :
    readChangeset (h0 :: hs) headerStr
      ((h0 :: hs).map headerLine ++ (es.flatMap Entry.lines ++ ['\n'] ::
        (blocks.flatMap PatchBlock.lines ++ footerBegin :: (fs.flatMap Entry.lines ++ [footerEnd])))) =
      (do
        let info ← es.foldlM Entry.apply {}
        let info ← fs.foldlM Entry.apply
          { info with actions := info.actions ++ blocks.map PatchBlock.action }
        info.completeInfo) := by
  obtain ⟨first, more, hl⟩ := List.exists_cons_of_ne_nil
    (show blocks.flatMap PatchBlock.lines ++ footerBegin :: (fs.flatMap Entry.lines ++ [footerEnd]) ≠ []
      by simp)
  simp only [readChangeset, readHeader_entries hne hstr hstrip es hes, hl, bind_assoc]
  cases es.foldlM Entry.apply {} with
  | error e => rfl
  | ok info =>
    simp only [ok_bind, Reader.next, pull,
      readPatches_blocks blocks hb footerBegin rfl _ first more hl.symm info,
      readFooter_entries fs hfs, bind_assoc]

theorem readChangeset_entries_base :
    readChangeset ["Bazaar-NG changeset v0.0.5".toList, "x".toList] "Bazaar-NG changeset v".toList
      (["Bazaar-NG changeset v0.0.5".toList, "x".toList].map headerLine ++
        ([Entry.pair "base".toList "r1".toList,
          .revision "r2".toList [("committer".toList, "J".toList)]].flatMap Entry.lines ++ ['\n'] ::
          ([⟨"*** added a\n".toList, ["+x\n".toList]⟩].flatMap PatchBlock.lines ++ footerBegin ::
            ([Entry.pair "message".toList "m".toList].flatMap Entry.lines ++ [footerEnd])))) =
      .ok { base := some (.str "r1".toList), message := some (.str "m".toList),
            revisions := [{ revId := .str "r2".toList, committer := some (.str "J".toList) }],
            actions := [("added a".toList, ["+x\n".toList])] } :=
  (readChangeset_entries (by decide) (by decide) (by decide) _ (by decide) _ (by decide) _
    (by decide)).trans rfl

/-!
# A file that ends before its footer
-/

/-- A file of the header's lines, the blank line that ends them and the footer's first
line: `_read_header` and `_read_patches` read it, and `_read_footer`'s bare `.next()`
raises `StopIteration`, since the last line of a file is never yielded. -/
theorem readChangeset_footer_cut (h0 : Bytes) (hs : List Bytes) (headerStr : Bytes)
    (hne : hs ≠ []) (hstr : h0.take headerStr.length = headerStr)
    (hstrip : strip (' ' :: h0) = h0) :
    readChangeset (h0 :: hs) headerStr
      ((h0 :: hs).map headerLine ++ [['\n'], "# BEGIN BZR FOOTER\n".toList]) = .error .stopIteration := by
  simp only [readChangeset, readHeader, headerLoop_header hne hstr hstrip, ok_bind]
  rfl

theorem readChangeset_footer_cut_v005 :
    readChangeset ["Bazaar-NG changeset v0.0.5".toList, "x".toList] "Bazaar-NG changeset v".toList
      (["Bazaar-NG changeset v0.0.5".toList, "x".toList].map headerLine ++
        [['\n'], "# BEGIN BZR FOOTER\n".toList]) = .error .stopIteration :=
  readChangeset_footer_cut _ ["x".toList] _ (by decide) (by decide) (by decide)

/-!
# What `read_changeset` returns
-/

/-- Without a base, `complete_info` raises, and never `BadChangeset`: `IndexError`
with no revision or no parent, `TypeError` with no parents entry, and otherwise
`AttributeError`, since the parents it reads are strings. -/
theorem completeInfo_no_base {info : ChangesetInfo} (h : info.base = none) :
    ∃ e, info.completeInfo = .error e ∧ e.isBadChangeset = false := by
  unfold ChangesetInfo.completeInfo
  split
  · simp_all
  · exact ⟨_, rfl, rfl⟩
  · split <;> exact ⟨_, rfl, rfl⟩

/-!
# File names
-/

/-- `_unescape` gives back a name that `repr` wrote, when the name is printable ASCII
without a backslash and does not hold both quotes. -/
theorem unescape_strRepr {s : Bytes} (hs : ∀ c ∈ s, Plain c) (hq : ¬ ('\'' ∈ s ∧ '"' ∈ s)) :
    unescape (strRepr s) = .ok s := by
  have hfirst : getItem (reprQuote s :: (s ++ [reprQuote s])) 0 = some (reprQuote s) := by
    simp [getItem]
  have hlast : getItem (reprQuote s :: (s ++ [reprQuote s])) (-1) = some (reprQuote s) := by
    simp [getItem]
    omega
  have hinner : slice (reprQuote s :: (s ++ [reprQuote s])) 1 (-1) = s :=
    slice_inner [reprQuote s] s (reprQuote s)
  rw [strRepr_plain hs hq, List.cons_append, unescape, hfirst]
  simp [hlast, hinner]

theorem unescape_strRepr_its :
    unescape (strRepr ['i', 't', '\'', 's']) = .ok ['i', 't', '\'', 's'] :=
  unescape_strRepr (by decide) (by decide)

/-- With both quotes in the name, `repr` escapes the single quote, and the backslash
stays. -/
example : unescape (strRepr ['a', '\'', '"']) = .ok ['a', '\\', '\'', '"'] := rfl

/-!
# `get_changeset`

`ChangesetInfo.get_changeset` turns the actions into changeset entries, looking each
file up in `self.path2id` or `self.old_path2id`.  Those maps would come from
`create_maps`, whose first statement already reads an attribute `__init__` never sets,
and `_handle_next` cannot set them either: no `ChangesetInfo` has them.  So every
action `get_changeset` recognizes ends in `AttributeError` once its names are read, any
other in `BadChangeset`, and it returns only for a changeset without actions.
-/

/-- What `as_revision` raises: `TypeError` for an entry that is missing, or a list
where a `str` is needed, and `ValueError` for a timestamp `float` refuses, a timezone
`int` refuses, or a parent without exactly one tab. -/
inductive AsRevisionError
  | typeError
  | valueError
  deriving DecidableEq, Repr

/-- The arguments `as_revision` gives `Revision` and its `RevisionReference`s; the
timestamp is the text `float` read. -/
structure RevisionRecord where
  revisionId : Value
  committer : Option Value
  timestamp : Bytes
  timezone : Int
  inventoryId : Option Value
  inventorySha1 : Option Value
  message : Bytes
  parents : List (Bytes × Bytes)
  deriving DecidableEq

/-- Iterating over an entry: the one-character strings of a `str`, the items of a
list. -/
def Value.items : Value → List Bytes
  | .str s => s.map fun c => [c]
  | .list values => values

/-- `float(value)`, with `isFloat` for the strings `float` accepts. -/
def toFloat (isFloat : Bytes → Bool) : Option Value → Except AsRevisionError Bytes
  | some (.str s) => if isFloat s then pure s else throw .valueError
  | _ => throw .typeError

/-- `int(value)`. -/
def toInt : Option Value → Except AsRevisionError Int
  | some (.str s) =>
    match Python.int s with
    | some n => pure n
    | none => throw .valueError
  | _ => throw .typeError

/-- The message argument, joined by newlines. -/
def joinLines : Option Value → Except AsRevisionError Bytes
  | some v => pure (List.intercalate ['\n'] v.items)
  | none => throw .typeError

/-- `rev_id, sha1 = parent.split('\t')`. -/
def parentReference (parent : Bytes) : Except AsRevisionError (Bytes × Bytes) :=
  match Python.split ['\t'] parent with
  | [revId, sha1] => pure (revId, sha1)
  | _ => throw .valueError

/-- `RevisionInfo.as_revision()`, with `isFloat` for the strings `float` accepts. -/
def RevisionInfo.asRevision (isFloat : Bytes → Bool) (r : RevisionInfo) :
    Except AsRevisionError RevisionRecord := do
  let timestamp ← toFloat isFloat r.timestamp
  let timezone ← toInt r.timezone
  let message ← joinLines r.message
  match r.parents with
  | none => throw .typeError
  | some parents => do
    let parents ← parents.items.mapM parentReference
    pure ⟨r.revId, r.committer, timestamp, timezone, r.inventoryId, r.inventorySha1, message,
      parents⟩

section AsRevision

variable {isFloat : Bytes → Bool} {r : RevisionInfo}

theorem parentReference_line {revId sha1 : Bytes} (hr : '\t' ∉ revId) (hs : '\t' ∉ sha1) :
    parentReference (revId ++ '\t' :: sha1) = .ok (revId, sha1) := by
  rw [parentReference, split_single hr hs]
  rfl

theorem mapM_parentReference : ∀ refs : List (Bytes × Bytes),
    (∀ ref ∈ refs, '\t' ∉ ref.1 ∧ '\t' ∉ ref.2) →
      (refs.map fun ref => ref.1 ++ '\t' :: ref.2).mapM parentReference = .ok refs
  | [], _ => rfl
  | ref :: refs, h => by
    have href := h ref (List.mem_cons_self _ _)
    rw [List.map_cons, List.mapM_cons, parentReference_line href.1 href.2, ok_bind,
      mapM_parentReference refs fun r hr => h r (List.mem_cons_of_mem _ hr)]
    rfl

/-- Parents given on the lines below their key, each a revision id, a tab and a SHA-1
with no tab in either, are read back as those pairs: `as_revision` returns once the
timestamp, the timezone and a message are read, with these parents. -/
theorem RevisionInfo.asRevision_parents_lines {refs : List (Bytes × Bytes)}
    {timestamp : Bytes} {timezone : Int} (hts : toFloat isFloat r.timestamp = .ok timestamp)
    (htz : toInt r.timezone = .ok timezone) (hm : r.message ≠ none)
    (hp : r.parents = some (.list (refs.map fun ref => ref.1 ++ '\t' :: ref.2)))
    (htab : ∀ ref ∈ refs, '\t' ∉ ref.1 ∧ '\t' ∉ ref.2) :
    ∃ rec, r.asRevision isFloat = .ok rec ∧ rec.parents = refs := by
  obtain ⟨v, hv⟩ := Option.ne_none_iff_exists'.1 hm
  refine ⟨⟨r.revId, r.committer, timestamp, timezone, r.inventoryId, r.inventorySha1,
    List.intercalate ['\n'] v.items, refs⟩, ?_, rfl⟩
  simp only [RevisionInfo.asRevision, hts, htz, hv, hp, joinLines, Value.items, ok_bind,
    pure_eq_ok, mapM_parentReference refs htab]

/-- A revision whose one parent `p`, with its SHA-1 `s`, was given below the key. -/
def parentBelow : RevisionInfo :=
  { revId := .str ['r'], timestamp := some (.str ['0']), timezone := some (.str ['0']),
    parents := some (.list [['p', '\t', 's']]), message := some (.list []) }

theorem asRevision_parents_lines_p :
    toFloat (fun _ => true) parentBelow.timestamp = .ok ['0'] ∧ toInt parentBelow.timezone = .ok 0 ∧
      parentBelow.message ≠ none ∧
      parentBelow.parents = some (.list ([(['p'], ['s'])].map fun ref => ref.1 ++ '\t' :: ref.2)) ∧
      (∀ ref ∈ [(['p'], ['s'])], '\t' ∉ ref.1 ∧ '\t' ∉ ref.2) ∧
      ∃ rec, parentBelow.asRevision (fun _ => true) = .ok rec ∧ rec.parents = [(['p'], ['s'])] :=
  ⟨rfl, rfl, nofun, rfl, by decide,
    RevisionInfo.asRevision_parents_lines rfl rfl nofun rfl (by decide)⟩

end AsRevision

end Changeset
end Bazaar
