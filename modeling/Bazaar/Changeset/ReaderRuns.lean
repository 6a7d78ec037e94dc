import Bazaar.Changeset.Reader

/-!
# Runs of the reader

What `_read_patches` makes of a patch section, and what `read_changeset` does when the
file ends before its footer.  `_read_one_patch` takes the line after a meta line into
the body before it looks at the line after that, so a patch with a body reads exactly,
and a patch without one takes in the line that follows it.  `_read_footer` takes its
first line with a bare `.next()`, where `_read_header` ends its own loop with an
`else:` that raises `MalformedHeader`.
-/

namespace Bazaar
namespace Changeset

open Python

/-!
# Patches
-/

/-- A patch as the changeset writes it: its `***` meta line and its body. -/
structure PatchBlock where
  meta : Line
  body : List Line

def PatchBlock.lines (b : PatchBlock) : List Line := b.meta :: b.body

/-- A line `_read_one_patch` reads on past: it starts with neither `***` nor `#`. -/
def BodyLine (l : Line) : Prop := l.take 3 ≠ ['*', '*', '*'] ∧ l.take 1 ≠ ['#']

instance : DecidablePred BodyLine := fun _ => inferInstanceAs (Decidable (_ ∧ _))

/-- A line at which a patch body ends: the next meta line or a `#` line. -/
def BodyEnd (l : Line) : Prop := l.take 3 = ['*', '*', '*'] ∨ l.take 1 = ['#']

theorem take_one_of_meta {l : Line} (h : l.take 3 = ['*', '*', '*']) : l.take 1 ≠ ['#'] := by
  match l, h with
  | _ :: _, h => simp_all

/-- The body loop reads the lines up to the next meta or `#` line. -/
theorem patchLoop_body {next : Line} {rest : List Line} (hnext : BodyEnd next) :
    ∀ (lines : List Line) (x : Line) (xs : List Line), (∀ l ∈ xs, BodyLine l) →
      patchLoop lines (xs ++ next :: rest) x =
        (lines ++ x :: xs, decide (next.take 3 = ['*', '*', '*']), rest, next)
  | lines, x, [], _ => by
    by_cases h3 : next.take 3 = ['*', '*', '*']
    · simp [patchLoop, h3]
    · simp [patchLoop, h3, hnext.resolve_left h3]
  | lines, x, y :: ys, hxs => by
    have hy := hxs y (.head _)
    rw [List.cons_append, patchLoop, if_neg hy.1, if_neg hy.2,
      patchLoop_body hnext (lines ++ [x]) y ys fun l hl => hxs l (.tail _ hl)]
    simp

theorem readOnePatch_hash {h : Line} {rest : List Line} {info : ChangesetInfo}
    (hh : h.take 1 = ['#']) :
    readOnePatch ⟨rest, some h, info⟩ = .ok ((none, [], false), ⟨rest, some h, info⟩) := by
  simp only [readOnePatch, Reader.peekStarts, List.length_singleton, hh, decide_True, ok_bind,
    if_true, pure_eq_ok]

/-- A patch with a body reads as its action, its body, and whether a patch follows. -/
theorem readOnePatch_block {b : PatchBlock} {x next : Line} {xs rest : List Line}
    {info : ChangesetInfo} (hmeta : b.meta.take 3 = ['*', '*', '*']) (hbody : b.body = x :: xs)
    (hxs : ∀ l ∈ xs, BodyLine l) (hnext : BodyEnd next) :
    readOnePatch ⟨x :: (xs ++ next :: rest), some b.meta, info⟩ =
      .ok ((some (slice b.meta 4 (-1)), b.body, decide (next.take 3 = ['*', '*', '*'])),
        ⟨rest, some next, info⟩) := by
  simp [readOnePatch, Reader.peekStarts, take_one_of_meta hmeta, Reader.next, pull, hmeta,
    patchLoop_body hnext [] x xs hxs, hbody]

theorem length_le_flatMap {α β : Type} (f : α → List β) :
    ∀ (l : List α), (∀ a ∈ l, f a ≠ []) → l.length ≤ (l.flatMap f).length
  | [], _ => Nat.zero_le _
  | a :: l, h => by
    have := List.length_pos.2 (h a (.head _))
    have := length_le_flatMap f l fun b hb => h b (.tail _ hb)
    simp only [List.flatMap_cons, List.length_append, List.length_cons]
    omega

/-- A patch whose meta line starts with `***` and whose body is not empty and has no
meta or `#` line. -/
def PatchBlock.WellFormed (b : PatchBlock) : Prop :=
  b.meta.take 3 = ['*', '*', '*'] ∧ b.body ≠ [] ∧ ∀ l ∈ b.body, BodyLine l

instance : DecidablePred PatchBlock.WellFormed := fun _ => inferInstanceAs (Decidable (_ ∧ _))

/-- What `_read_patches` appends for the patches. -/
def PatchBlock.action (b : PatchBlock) : Bytes × List Line := (slice b.meta 4 (-1), b.body)

theorem patchesLoop_blocks {h : Line} {tail : List Line} (hh : h.take 1 = ['#']) :
    ∀ (blocks : List PatchBlock) (fuel : Nat) (first : Line) (rest : List Line)
      (info : ChangesetInfo), (∀ b ∈ blocks, b.WellFormed) → blocks.length < fuel →
      first :: rest = blocks.flatMap PatchBlock.lines ++ h :: tail →
      patchesLoop fuel ⟨rest, some first, info⟩ =
        .ok ⟨tail, some h, { info with actions := info.actions ++ blocks.map PatchBlock.action }⟩
  | _, 0, _, _, _, _, hf, _ => absurd hf (Nat.not_lt_zero _)
  | [], fuel + 1, first, rest, info, _, _, hl => by
    simp only [List.flatMap_nil, List.nil_append, List.cons.injEq] at hl
    obtain ⟨rfl, rfl⟩ := hl
    simp [patchesLoop, readOnePatch_hash hh]
  | b :: bs, fuel + 1, first, rest, info, hb, hf, hl => by
    obtain ⟨hmeta, hne, hbody⟩ := hb b (.head _)
    obtain ⟨x, xs, hx⟩ := List.exists_cons_of_ne_nil hne
    have hxs : ∀ l ∈ xs, BodyLine l := fun l hl => hbody l (hx ▸ .tail _ hl)
    simp only [List.flatMap_cons, PatchBlock.lines, hx, List.cons_append, List.append_assoc,
      List.cons.injEq] at hl
    obtain ⟨rfl, rfl⟩ := hl
    cases bs with
    | nil =>
      have hend : BodyEnd h := .inr hh
      rw [List.flatMap_nil, List.nil_append, patchesLoop, readOnePatch_block hmeta hx hxs hend]
      simp [hh, show h.take 3 ≠ ['*', '*', '*'] from fun h3 => take_one_of_meta h3 hh,
        PatchBlock.action]
    | cons b' bs' =>
      have hb' := hb b' (.tail _ (.head _))
      rw [List.flatMap_cons, PatchBlock.lines, List.cons_append, List.cons_append, patchesLoop,
        readOnePatch_block hmeta hx hxs (.inl hb'.1)]
      simp only [ok_bind, hb'.1, decide_True, if_true]
      rw [@patchesLoop_blocks h tail hh (b' :: bs') fuel b'.meta _ _ (fun c hc => hb c (.tail _ hc))
        (Nat.lt_of_succ_lt_succ hf) (by simp [PatchBlock.lines])]
      simp [PatchBlock.action]

/-- A patch section of well-formed patches followed by a `#` line: `_read_patches`
appends each patch's action and body, in order, and leaves the `#` line next. -/
theorem readPatches_blocks (blocks : List PatchBlock) (hb : ∀ b ∈ blocks, b.WellFormed)
    (h : Line) (hh : h.take 1 = ['#']) (tail : List Line) (first : Line) (rest : List Line)
    (hl : first :: rest = blocks.flatMap PatchBlock.lines ++ h :: tail) (info : ChangesetInfo) :
    readPatches ⟨rest, some first, info⟩ =
      .ok ⟨tail, some h, { info with actions := info.actions ++ blocks.map PatchBlock.action }⟩ := by
  have hlen := congrArg List.length hl
  simp only [List.length_cons, List.length_append] at hlen
  exact patchesLoop_blocks hh blocks (rest.length + 1) first rest info hb
    (by have := length_le_flatMap PatchBlock.lines blocks fun _ _ => List.cons_ne_nil _ _; omega) hl

theorem readPatches_blocks_added :
    readPatches ⟨["+x\n".toList, "# BEGIN BZR FOOTER\n".toList], some "*** added a\n".toList, {}⟩ =
      .ok ⟨[], some "# BEGIN BZR FOOTER\n".toList, { ({} : ChangesetInfo) with
        actions := [] ++ [⟨"*** added a\n".toList, ["+x\n".toList]⟩].map PatchBlock.action }⟩ :=
  readPatches_blocks [⟨"*** added a\n".toList, ["+x\n".toList]⟩] (by decide)
    "# BEGIN BZR FOOTER\n".toList (by decide) [] "*** added a\n".toList
    ["+x\n".toList, "# BEGIN BZR FOOTER\n".toList] rfl {}

/-- A patch without a body, as a pure rename writes it, and then the footer: the
footer's first line goes into the patch's body, and the line after it is next. -/
theorem readPatches_empty_body (info : ChangesetInfo) :
    readPatches ⟨["# BEGIN BZR FOOTER\n".toList, "# END BZR FOOTER\n".toList],
        some "*** renamed a => b\n".toList, info⟩ =
      .ok ⟨[], some "# END BZR FOOTER\n".toList, { info with actions := info.actions ++
        [("renamed a => b".toList, ["# BEGIN BZR FOOTER\n".toList])] }⟩ := by
  rfl

/-!
# The header
-/

/-- A line of the header as the changeset writes it: `# `, the line, and a newline. -/
def headerLine (h : Bytes) : Line := ['#', ' '] ++ h ++ ['\n']

theorem headerStep_found (headerStr h : Bytes) (hs : List Bytes) :
    headerStep headerStr true (h :: hs) (headerLine h) =
      .ok (if hs = [] then none else some (true, hs)) := by
  have hlast : slice (headerLine h) (-1) (headerLine h).length = ['\n'] := slice_last _ _
  have hinner : slice (headerLine h) 2 (-1) = h := slice_inner ['#', ' '] h '\n'
  rw [headerStep, if_pos rfl, hlast, if_neg (by simp [headerLine]), hinner, if_neg (by simp)]
  split <;> rfl

theorem headerStep_first {headerStr h : Bytes} (hs : List Bytes)
    (hstr : h.take headerStr.length = headerStr) (hstrip : strip (' ' :: h) = h) :
    headerStep headerStr false (h :: hs) (headerLine h) = .ok (some (true, hs)) := by
  have hlast : slice (headerLine h) (-1) (headerLine h).length = ['\n'] := slice_last _ _
  have hinner : slice (headerLine h) 1 (-1) = ' ' :: h := slice_inner ['#'] (' ' :: h) '\n'
  have hhash : (headerLine h).take 1 = ['#'] := rfl
  simp [headerStep, hhash, hlast, hinner, hstrip, hstr]

/-- Once the header's first line is found, its other lines are read up to the last,
which ends the loop with the line after it held. -/
theorem headerLoop_found (headerStr : Bytes) (next : Line) (rest : List Line) :
    ∀ (h : Bytes) (hs : List Bytes),
      headerLoop headerStr true (h :: hs) (hs.map headerLine ++ next :: rest) (some (headerLine h)) =
        .ok (rest, some next)
  | h, [] => by simp [headerLoop, headerStep_found]
  | h, h' :: hs => by
    rw [List.map_cons, List.cons_append, headerLoop, headerStep_found, if_neg (by simp)]
    exact headerLoop_found headerStr next rest h' hs

/-- The first loop of `_read_header` reads the header's lines and holds the line after
them. -/
theorem headerLoop_header {h0 headerStr : Bytes} {hs : List Bytes} (hne : hs ≠ [])
    (hstr : h0.take headerStr.length = headerStr) (hstrip : strip (' ' :: h0) = h0)
    (next : Line) (rest : List Line) :
    headerLoop headerStr false (h0 :: hs) ((h0 :: hs).map headerLine ++ next :: rest) none =
      .ok (rest, some next) := by
  obtain ⟨h1, hs', rfl⟩ := List.exists_cons_of_ne_nil hne
  rw [List.map_cons, List.cons_append, headerLoop, List.map_cons, List.cons_append, headerLoop,
    headerStep_first _ hstr hstrip]
  exact headerLoop_found headerStr next rest h1 hs'

/-!
# Entries
-/

/-- A `key: value` line of the header or the footer, with `indent` blanks before the
key. -/
def pairLine (indent : Nat) (key value : Bytes) : Line :=
  ['#'] ++ (List.replicate indent ' ' ++ (key ++ ':' :: ' ' :: value)) ++ ['\n']

/-- An entry `_read_next_entry` reads from a `key: value` line: the key has no colon and
does not start with a blank, and the value is not empty. -/
def PairEntry (e : Bytes × Bytes) : Prop := ':' ∉ e.1 ∧ e.1.take 1 ≠ [' '] ∧ e.2 ≠ []

instance : DecidablePred PairEntry := fun _ => inferInstanceAs (Decidable (_ ∧ _))

theorem readNextEntry_pair {key value : Bytes} (he : PairEntry (key, value)) (indent : Nat)
    (r : Reader) :
    readNextEntry (pairLine indent key value) indent r = .ok (some (underscored key, .str value), r) := by
  have htake : (pairLine indent key value).take 1 = ['#'] := rfl
  have hbody : slice (pairLine indent key value) 1 (-1) =
      List.replicate indent ' ' ++ (key ++ ':' :: ' ' :: value) := slice_inner ['#'] _ '\n'
  have hvalue : slice (key ++ ':' :: ' ' :: value) (key.length + 2)
      (key.length + (value.length + 1 + 1)) = value := by
    simpa using slice_suffix (key ++ [':', ' ']) value
  simp [readNextEntry, htake, hbody, find_colon_space he.1, slice_prefix, hvalue, he.2.2]

/-- A `key: value` line at indent 1 does not look like a revision's entry. -/
theorem pairLine_one_take {key value : Bytes} (he : PairEntry (key, value)) :
    (pairLine 1 key value).take 5 ≠ ['#', ' ', ' ', ' ', ' '] := by
  cases key with
  | nil => simp [pairLine]
  | cons c key =>
    have hc : c ≠ ' ' := fun h => he.2.1 (by simp [h])
    simp [pairLine, hc]

theorem pairLine_ne {stop : Line} (hstop : ':' ∉ stop) (indent : Nat) (key value : Bytes) :
    pairLine indent key value ≠ stop :=
  fun h => hstop (h ▸ by simp [pairLine])

/-- What `_handle_next` does with a `key: value` entry. -/
def setPair (info : ChangesetInfo) (e : Bytes × Bytes) : Except ReadError ChangesetInfo :=
  setOnce (info.slot (underscored e.1)) (underscored e.1) (.str e.2)

/-- What `_read_revision` does with a `key: value` entry. -/
def setField (rev : RevisionInfo) (f : Bytes × Bytes) : Except ReadError RevisionInfo :=
  setOnce (rev.slot (underscored f.1)) (underscored f.1) (.str f.2)

/-- `_handle_next` on a `key: value` line sets the attribute the key names. -/
theorem handleNext_pair {key value : Bytes} (he : PairEntry (key, value))
    (hrev : underscored key ≠ "revision".toList) (r : Reader) :
    handleNext (pairLine 1 key value) r =
      setPair r.info (key, value) >>= fun info => .ok { r with info } := by
  have hrev' : underscored key ≠ ['r', 'e', 'v', 'i', 's', 'i', 'o', 'n'] := hrev
  simp [handleNext, readNextEntry_pair he, hrev']
  rfl

/-- `_read_revision`'s loop over the revision's `key: value` lines, at indent 4, sets
them in order and stops before the first line without that indent. -/
theorem revisionLoop_fields {next : Line} (hnext : next.take 5 ≠ ['#', ' ', ' ', ' ', ' '])
    (tail : List Line) (info : ChangesetInfo) :
    ∀ (fs : List (Bytes × Bytes)) (fuel : Nat) (rev : RevisionInfo) (first : Line)
      (more : List Line), fs ≠ [] → (∀ f ∈ fs, PairEntry f) → fs.length < fuel →
      first :: more = fs.map (fun f => pairLine 4 f.1 f.2) ++ next :: tail →
      revisionLoop rev fuel ⟨more, some first, info⟩ =
        fs.foldlM setField rev >>= fun rev' => .ok (rev', ⟨tail, some next, info⟩)
  | [], _, _, _, _, h, _, _, _ => absurd rfl h
  | _ :: _, 0, _, _, _, _, _, h, _ => absurd h (Nat.not_lt_zero _)
  | f :: fs, fuel + 1, rev, first, more, _, hfs, hlen, hl => by
    simp only [List.map_cons, List.cons_append, List.cons.injEq] at hl
    obtain ⟨rfl, rfl⟩ := hl
    obtain ⟨y, ys, hy⟩ := List.exists_cons_of_ne_nil
      (show fs.map (fun f => pairLine 4 f.1 f.2) ++ next :: tail ≠ [] by simp)
    rw [hy, revisionLoop]
    simp only [Reader.next, pull, readNextEntry_pair (hfs f (.head _)) 4, ok_bind,
      List.foldlM_cons, bind_assoc]
    change (setField rev f >>= _) = (setField rev f >>= _)
    cases setField rev f with
    | error err => rfl
    | ok rev' =>
      cases fs with
      | nil =>
        simp only [List.map_nil, List.nil_append, List.cons.injEq] at hy
        obtain ⟨rfl, rfl⟩ := hy
        simp [Reader.peekStarts, hnext]
      | cons f' fs =>
        simp only [List.map_cons, List.cons_append, List.cons.injEq] at hy
        obtain ⟨rfl, rfl⟩ := hy
        have hpeek : ∀ rest, Reader.peekStarts ⟨rest, some (pairLine 4 f'.1 f'.2), info⟩
            ['#', ' ', ' ', ' ', ' '] = .ok true := fun _ => rfl
        rw [ok_bind, hpeek, ok_bind, if_pos rfl]
        exact revisionLoop_fields hnext tail info (f' :: fs) fuel rev' _ _ (List.cons_ne_nil _ _)
          (fun f h => hfs f (.tail _ h)) (Nat.lt_of_succ_lt_succ hlen) rfl

/-!
# Entries of the header and the footer
-/

/-- An entry of the header or the footer: `key: value`, or a revision with its
`key: value` entries. -/
inductive Entry
  | pair (key value : Bytes)
  | revision (revId : Bytes) (fields : List (Bytes × Bytes))
  deriving DecidableEq

/-- The lines of an entry. -/
def Entry.lines : Entry → List Line
  | .pair key value => [pairLine 1 key value]
  | .revision revId fields =>
    pairLine 1 "revision".toList revId :: fields.map fun f => pairLine 4 f.1 f.2

/-- An entry the reader reads back: a `key: value` entry whose key is not `revision`,
or a revision with an id and at least one entry. -/
def Entry.WellFormed : Entry → Prop
  | .pair key value => PairEntry (key, value) ∧ underscored key ≠ "revision".toList
  | .revision revId fields => revId ≠ [] ∧ fields ≠ [] ∧ ∀ f ∈ fields, PairEntry f

instance : DecidablePred Entry.WellFormed
  | .pair _ _ => inferInstanceAs (Decidable (_ ∧ _))
  | .revision _ _ => inferInstanceAs (Decidable (_ ∧ _ ∧ _))

/-- What `_handle_next` does with an entry. -/
def Entry.apply (info : ChangesetInfo) : Entry → Except ReadError ChangesetInfo
  | .pair key value => setPair info (key, value)
  | .revision revId fields => do
    let rev ← fields.foldlM setField { revId := .str revId }
    return { info with revisions := info.revisions ++ [rev] }

theorem Entry.lines_take {e : Entry} (he : e.WellFormed) :
    ∃ l ls, e.lines = l :: ls ∧ l.take 5 ≠ ['#', ' ', ' ', ' ', ' '] ∧ ':' ∈ l := by
  cases e with
  | pair key value => exact ⟨_, [], rfl, pairLine_one_take he.1, by simp [pairLine]⟩
  | revision revId fields => exact ⟨_, _, rfl, by simp [pairLine], by simp [pairLine]⟩

/-- The line after an entry is the next entry's first line or `stop`, and neither has a
revision entry's indent. -/
theorem lines_head {stop : Line} (hstop5 : stop.take 5 ≠ ['#', ' ', ' ', ' ', ' '])
    (tail : List Line) : ∀ {es : List Entry}, (∀ e ∈ es, e.WellFormed) →
      ∃ y ys, es.flatMap Entry.lines ++ stop :: tail = y :: ys ∧
        y.take 5 ≠ ['#', ' ', ' ', ' ', ' ']
  | [], _ => ⟨stop, tail, rfl, hstop5⟩
  | e :: _, hes => by
    obtain ⟨l, ls, hl, hl5, -⟩ := Entry.lines_take (hes e (.head _))
    exact ⟨l, _, by rw [List.flatMap_cons, hl, List.cons_append, List.cons_append], hl5⟩

/-- `_handle_next` on a revision line reads the revision's entries that follow it. -/
theorem handleNext_revision {revId : Bytes} {fields : List (Bytes × Bytes)}
    (he : (Entry.revision revId fields).WellFormed) {next : Line} {tail : List Line}
    (hnext : next.take 5 ≠ ['#', ' ', ' ', ' ', ' ']) (first : Line) (more : List Line)
    (hl : first :: more = fields.map (fun f => pairLine 4 f.1 f.2) ++ next :: tail)
    (info : ChangesetInfo) :
    handleNext (pairLine 1 "revision".toList revId) ⟨more, some first, info⟩ =
      (Entry.revision revId fields).apply info >>= fun info' => .ok ⟨tail, some next, info'⟩ := by
  obtain ⟨hid, hne, hfs⟩ := he
  have hlen : fields.length < more.length + 1 := by
    have := congrArg List.length hl
    simp at this
    omega
  have hkey : PairEntry ("revision".toList, revId) :=
    ⟨(by decide : ':' ∉ "revision".toList), (by decide : "revision".toList.take 1 ≠ [' ']), hid⟩
  simp only [handleNext, readNextEntry_pair hkey, ok_bind, readRevision,
    revisionLoop_fields hnext tail info fields _ _ first more hne hfs hlen hl, Entry.apply,
    bind_assoc]
  rfl

/-- The loop over entries, on the lines of entries and then `stop`, does what
`_handle_next` does with each entry in order; it ends having read `stop`, or at the end
of the file when `stop` is its last line. -/
theorem entriesLoop_entries {stop : Line} (hstop : ':' ∉ stop)
    (hstop5 : stop.take 5 ≠ ['#', ' ', ' ', ' ', ' ']) :
    ∀ (es : List Entry) (fuel : Nat) (first : Line) (more tail : List Line)
      (info : ChangesetInfo), (∀ e ∈ es, e.WellFormed) → es.length < fuel →
      first :: more = es.flatMap Entry.lines ++ stop :: tail →
      entriesLoop stop fuel ⟨more, some first, info⟩ =
        es.foldlM Entry.apply info >>= fun info' => .ok (Reader.mk tail (some stop) info').next.2
  | _, 0, _, _, _, _, _, h, _ => absurd h (Nat.not_lt_zero _)
  | [], fuel + 1, first, more, tail, info, _, _, hl => by
    simp only [List.flatMap_nil, List.nil_append, List.cons.injEq] at hl
    obtain ⟨rfl, rfl⟩ := hl
    cases more <;> simp [entriesLoop, Reader.next, pull]
  | e :: es, fuel + 1, first, more, tail, info, hes, hlen, hl => by
    have hwf := hes e (.head _)
    have ih := fun info' fst mr (h : fst :: mr = es.flatMap Entry.lines ++ stop :: tail) =>
      entriesLoop_entries hstop hstop5 es fuel fst mr tail info' (fun e' h => hes e' (.tail _ h))
        (Nat.lt_of_succ_lt_succ hlen) h
    obtain ⟨y, ys, hy, hy5⟩ := lines_head hstop5 tail fun e' h => hes e' (.tail _ h)
    obtain ⟨l, ls, hls, -, hcolon⟩ := Entry.lines_take hwf
    rw [List.flatMap_cons, hls, List.append_assoc, List.cons_append, List.cons.injEq] at hl
    obtain ⟨rfl, rfl⟩ := hl
    rw [entriesLoop, List.foldlM_cons, bind_assoc]
    cases e with
    | pair key value =>
      simp only [Entry.lines, List.cons.injEq] at hls
      obtain ⟨rfl, rfl⟩ := hls
      rw [List.nil_append, hy]
      simp only [Reader.next, pull, if_neg (pairLine_ne hstop 1 key value),
        handleNext_pair hwf.1 hwf.2, bind_assoc, Entry.apply]
      cases setPair info (key, value) with
      | error err => rfl
      | ok info' => exact ih info' y ys hy.symm
    | revision revId fields =>
      simp only [Entry.lines, List.cons.injEq] at hls
      obtain ⟨rfl, rfl⟩ := hls
      obtain ⟨z, zs, hz⟩ := List.exists_cons_of_ne_nil
        (show fields.map (fun f => pairLine 4 f.1 f.2) ++ (es.flatMap Entry.lines ++ stop :: tail) ≠ []
          by simp)
      rw [hz]
      have hz' : z :: zs = fields.map (fun f => pairLine 4 f.1 f.2) ++ y :: ys := by rw [← hy, ← hz]
      simp only [Reader.next, pull, if_neg (pairLine_ne hstop 1 _ revId),
        handleNext_revision hwf hy5 z zs hz' info, bind_assoc]
      cases (Entry.revision revId fields).apply info with
      | error err => rfl
      | ok info' => exact ih info' y ys hy.symm

end Changeset
end Bazaar