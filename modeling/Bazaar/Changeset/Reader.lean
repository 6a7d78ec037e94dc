import Bazaar.Python.Str

/-!
# Reading a changeset

`ChangesetReader` (`read_changeset.py`) reads a changeset file line by line: the
header with its key-value entries, the patches, and the footer.  Every part reads
through `_next()`, a generator over the file that holds one line back in
`_next_line`, so that the reader can peek at it.  A line is yielded only once the
line after it has been read, so the last line of the file is never yielded, and a
generator left by a `break` or a `return` leaves the file and `_next_line` where it
stopped.

The model passes the reader's state explicitly: the lines of the file not read yet,
`_next_line`, and the `ChangesetInfo` being filled.  A loop that only reads lines
recurses on the lines; a loop whose body calls another reader takes fuel, one round
per line of the file.
-/

namespace Bazaar
namespace Changeset

open Python

abbrev Line := Bytes

/-!
# The data
-/

/-- A value of the header: the text after `: `, or the lines `_read_many` collects. -/
inductive Value
  | str (s : Bytes)
  | list (values : List Bytes)
  deriving DecidableEq, Repr

/-- `RevisionInfo`: a revision entry of the header. -/
structure RevisionInfo where
  revId : Value
  sha1 : Option Value := none
  committer : Option Value := none
  date : Option Value := none
  timestamp : Option Value := none
  timezone : Option Value := none
  inventoryId : Option Value := none
  inventorySha1 : Option Value := none
  parents : Option Value := none
  message : Option Value := none
  deriving DecidableEq, Repr

/-- `ChangesetInfo`, by the attributes the reader sets; `new_file_ids` and `text_ids`,
which it never sets, appear only among the attribute names. -/
structure ChangesetInfo where
  committer : Option Value := none
  date : Option Value := none
  message : Option Value := none
  base : Option Value := none
  baseSha1 : Option Value := none
  treeRootId : Option Value := none
  fileIds : Option Value := none
  oldFileIds : Option Value := none
  revisions : List RevisionInfo := []
  actions : List (Bytes × List Line) := []
  deriving DecidableEq, Repr

/-- The messages of `MalformedHeader`. -/
inductive HeaderError
  /-- `'Found a header, but it was improperly formatted'` -/
  | improperlyFormatted
  /-- `'Found what looks like a header, but did not match'` -/
  | didNotMatch
  /-- `'Did not find an opening header'` -/
  | noOpeningHeader
  /-- `'Bzr header did not start with #'` -/
  | noHash
  /-- `'While looking for key: value pairs, did not find the colon %r'` -/
  | noColon (line : Bytes)
  /-- `'Duplicated Key: %s'` -/
  | duplicatedKey (key : Bytes)
  /-- `'Unknown Key: %s'` -/
  | unknownKey (key : Bytes)
  deriving DecidableEq, Repr

/-- What reading a changeset raises.  `outOfFuel` is the model's: the fuel the
loops get is enough for every file. -/
inductive ReadError
  | malformedHeader (e : HeaderError)
  /-- `'The first line of all patches should be a bzr meta line "***"'` -/
  | malformedPatches
  /-- `'Footer did not begin with BEGIN BZR FOOTER'` -/
  | malformedFooter
  /-- `BadChangeset('Could not properly parse the filename: %r')` -/
  | badFilename (name : Bytes)
  | stopIteration
  | indexError
  | typeError
  | attributeError
  | outOfFuel
  deriving DecidableEq, Repr

/-- `BadChangeset` and its subclasses. -/
def ReadError.isBadChangeset : ReadError → Bool
  | .malformedHeader _ | .malformedPatches | .malformedFooter | .badFilename _ => true
  | _ => false

/-!
# Attributes

`_handle_next` and `_read_revision` set an attribute named by a key once: a key that
names an attribute holding `None` sets it, one that names any other attribute is a
duplicate, and one that names none is unknown.
-/

/-- An attribute of an object, as `hasattr`, `getattr` and `setattr` see it. -/
inductive Slot (α : Type)
  /-- a data attribute with its value and its setter -/
  | field (value : Option Value) (set : Value → α)
  /-- an attribute that is never `None`: a method, a list, a class attribute -/
  | other
  /-- `__weakref__`: `None`, and `setattr` raises `AttributeError` -/
  | readOnly
  | absent

/-- The attributes every instance of a new-style class has, none of them `None`. -/
def objectAttrs : List String :=
  ["__class__", "__delattr__", "__dict__", "__doc__", "__format__", "__getattribute__",
    "__hash__", "__init__", "__module__", "__new__", "__reduce__", "__reduce_ex__",
    "__repr__", "__setattr__", "__sizeof__", "__str__", "__subclasshook__"]

/-- An attribute that holds `None` or a value. -/
def field {α : Type} (name : String) (key : Bytes) (value : Option Value) (set : Value → α)
    (otherwise : Slot α) : Slot α :=
  if key = name.toList then .field value set else otherwise

/-- The attributes of no data field. -/
def classSlot {α : Type} (others : List String) (key : Bytes) : Slot α :=
  if key ∈ (others ++ objectAttrs).map String.toList then .other
  else if key = "__weakref__".toList then .readOnly
  else .absent

def ChangesetInfo.slot (info : ChangesetInfo) (key : Bytes) : Slot ChangesetInfo :=
  field "committer" key info.committer (fun v => { info with committer := some v }) <|
  field "date" key info.date (fun v => { info with date := some v }) <|
  field "message" key info.message (fun v => { info with message := some v }) <|
  field "base" key info.base (fun v => { info with base := some v }) <|
  field "base_sha1" key info.baseSha1 (fun v => { info with baseSha1 := some v }) <|
  field "tree_root_id" key info.treeRootId (fun v => { info with treeRootId := some v }) <|
  field "file_ids" key info.fileIds (fun v => { info with fileIds := some v }) <|
  field "old_file_ids" key info.oldFileIds (fun v => { info with oldFileIds := some v }) <|
  classSlot ["revisions", "new_file_ids", "text_ids", "actions", "complete_info",
    "create_maps", "get_changeset"] key

def RevisionInfo.slot (rev : RevisionInfo) (key : Bytes) : Slot RevisionInfo :=
  field "sha1" key rev.sha1 (fun v => { rev with sha1 := some v }) <|
  field "committer" key rev.committer (fun v => { rev with committer := some v }) <|
  field "date" key rev.date (fun v => { rev with date := some v }) <|
  field "timestamp" key rev.timestamp (fun v => { rev with timestamp := some v }) <|
  field "timezone" key rev.timezone (fun v => { rev with timezone := some v }) <|
  field "inventory_id" key rev.inventoryId (fun v => { rev with inventoryId := some v }) <|
  field "inventory_sha1" key rev.inventorySha1 (fun v => { rev with inventorySha1 := some v }) <|
  field "parents" key rev.parents (fun v => { rev with parents := some v }) <|
  field "message" key rev.message (fun v => { rev with message := some v }) <|
  classSlot ["rev_id", "as_revision"] key

/-- `if hasattr(o, key): if getattr(o, key) is None: setattr(o, key, value) else: raise
MalformedHeader('Duplicated Key: %s') else: raise MalformedHeader('Unknown Key: %s')`. -/
def setOnce {α : Type} (slot : Slot α) (key : Bytes) (value : Value) : Except ReadError α :=
  match slot with
  | .field none set => .ok (set value)
  | .field (some _) _ | .other => .error (.malformedHeader (.duplicatedKey key))
  | .readOnly => .error .attributeError
  | .absent => .error (.malformedHeader (.unknownKey key))

/-!
# The line stream
-/

/-- The reader's state: the lines of the file not read yet, `_next_line`, and
`info`. -/
structure Reader where
  rest : List Line
  nextLine : Option Line
  info : ChangesetInfo

/-- One value of a `_next()` generator on the unread lines and `_next_line`: the held
line is yielded once the next line of the file takes its place, and the very first
line is only read.  `none`: the file is exhausted and the generator ends. -/
def pull : List Line → Option Line → Option Line × List Line × Option Line
  | [], nextLine => (none, [], nextLine)
  | line :: rest, none => pull rest (some line)
  | line :: rest, some last => (some last, rest, some line)

def Reader.next (r : Reader) : Option Line × Reader :=
  match pull r.rest r.nextLine with
  | (line, rest, nextLine) => (line, { r with rest, nextLine })

/-- `self._next_line[:len(p)] == p`; on `None` the slice raises `TypeError`. -/
def Reader.peekStarts (r : Reader) (p : Bytes) : Except ReadError Bool :=
  match r.nextLine with
  | none => .error .typeError
  | some line => .ok (line.take p.length = p)

/-!
# Key-value entries
-/

/-- The loop of `_read_many` after its first peek: each yielded line less `start` and
its last character, as long as the line after it starts with `start`. -/
def manyLoop (start : Bytes) (values : List Bytes) :
    List Line → Line → List Bytes × List Line × Line
  | [], nextLine => (values, [], nextLine)
  | line :: rest, last =>
    if line.take start.length = start then
      manyLoop start (values ++ [slice last start.length (-1)]) rest line
    else (values ++ [slice last start.length (-1)], rest, line)

/-- `_read_many(indent)`. -/
def readMany (indent : Nat) (r : Reader) : Except ReadError (List Bytes × Reader) := do
  let start := '#' :: List.replicate indent ' '
  let some nextLine := r.nextLine | throw .typeError
  if nextLine.take start.length ≠ start then return ([], r)
  match manyLoop start [] r.rest nextLine with
  | (values, rest, nextLine) => return (values, { r with rest, nextLine := some nextLine })

/-- `key.replace(' ', '_')`. -/
def underscored (key : Bytes) : Bytes := key.map fun c => if c = ' ' then '_' else c

/-- `_read_next_entry(line, indent)`: `none` for a blank line. -/
def readNextEntry (line : Line) (indent : Nat) (r : Reader) :
    Except ReadError (Option (Bytes × Value) × Reader) := do
  if line.take 1 ≠ ['#'] then throw (.malformedHeader .noHash)
  let line := slice line 1 (-1)
  let line := if line.take indent = List.replicate indent ' ' then line.drop indent else line
  if line = [] then return (none, r)
  let loc := find line [':', ' ']
  if loc ≠ -1 then
    let value := slice line (loc + 2) line.length
    if value = [] then
      let (values, r) ← readMany (indent + 3) r
      return (some (underscored (slice line 0 loc), .list values), r)
    else return (some (underscored (slice line 0 loc), .str value), r)
  else if slice line (-1) line.length = [':'] then
    let (values, r) ← readMany (indent + 3) r
    return (some (underscored (slice line 0 (-1)), .list values), r)
  else throw (.malformedHeader (.noColon line))

/-- The loop of `_read_revision`: every entry read goes to `rev_info`, as long as the
line after it starts with `#    `.  A blank entry has key `None`, and `hasattr` on it
raises `TypeError`. -/
def revisionLoop (revInfo : RevisionInfo) : Nat → Reader → Except ReadError (RevisionInfo × Reader)
  | 0, _ => throw .outOfFuel
  | fuel + 1, r =>
    match r.next with
    | (none, r) => return (revInfo, r)
    | (some line, r) => do
      let (entry, r) ← readNextEntry line 4 r
      let some (key, value) := entry | throw .typeError
      let revInfo ← setOnce (revInfo.slot key) key value
      if ← r.peekStarts ['#', ' ', ' ', ' ', ' '] then revisionLoop revInfo fuel r
      else return (revInfo, r)

/-- `_read_revision(rev_id)`. -/
def readRevision (revId : Value) (r : Reader) : Except ReadError Reader := do
  let (revInfo, r) ← revisionLoop { revId } (r.rest.length + 1) r
  return { r with info := { r.info with revisions := r.info.revisions ++ [revInfo] } }

/-- `_handle_next(line)`. -/
def handleNext (line : Line) (r : Reader) : Except ReadError Reader := do
  let (entry, r) ← readNextEntry line 1 r
  let some (key, value) := entry | return r
  if key = "revision".toList then readRevision value r
  else return { r with info := ← setOnce (r.info.slot key) key value }

/-!
# The header
-/

/-- One round of the first loop of `_read_header` on a yielded line, with `found` and
what is left of `header`; `none` is its `break`, once the header is all found. -/
def headerStep (headerStr : Bytes) (found : Bool) (header : List Bytes) (line : Line) :
    Except ReadError (Option (Bool × List Bytes)) :=
  if found then
    if line.take 2 ≠ ['#', ' '] ∨ slice line (-1) line.length ≠ ['\n'] then
      .error (.malformedHeader .improperlyFormatted)
    else match header with
      | [] => .error .indexError
      | h :: hs =>
        if slice line 2 (-1) ≠ h then .error (.malformedHeader .improperlyFormatted)
        else if hs = [] then .ok none
        else .ok (some (true, hs))
  else if line.take 1 = ['#'] ∧ slice line (-1) line.length = ['\n'] then
    if (strip (slice line 1 (-1))).take headerStr.length = headerStr then
      match header with
      | [] => .error .indexError
      | h :: hs =>
        if strip (slice line 1 (-1)) = h then .ok (some (true, hs))
        else .error (.malformedHeader .didNotMatch)
    else .ok (some (found, header))
  else .ok (some (found, header))

/-- The first loop of `_read_header`; running out of lines is its `else:`. -/
def headerLoop (headerStr : Bytes) (found : Bool) (header : List Bytes) :
    List Line → Option Line → Except ReadError (List Line × Option Line)
  | [], _ => .error (.malformedHeader .noOpeningHeader)
  | line :: rest, none => headerLoop headerStr found header rest (some line)
  | line :: rest, some last =>
    match headerStep headerStr found header last with
    | .error e => .error e
    | .ok none => .ok (rest, some line)
    | .ok (some (found, header)) => headerLoop headerStr found header rest (some line)

/-- The loops of `_read_header` and `_read_footer` over entries: each line yielded goes
to `_handle_next`, up to the line `stop` or the end of the file. -/
def entriesLoop (stop : Line) : Nat → Reader → Except ReadError Reader
  | 0, _ => throw .outOfFuel
  | fuel + 1, r =>
    match r.next with
    | (none, r) => return r
    | (some line, r) =>
      if line = stop then return r
      else do entriesLoop stop fuel (← handleNext line r)

/-- The second loop of `_read_header`: entries up to the blank line. -/
def headerEntries : Nat → Reader → Except ReadError Reader := entriesLoop ['\n']

/-- `_read_header()`, with `common.get_header()` and `common.header_str`. -/
def readHeader (header : List Bytes) (headerStr : Bytes) (r : Reader) :
    Except ReadError Reader := do
  let (rest, nextLine) ← headerLoop headerStr false header r.rest r.nextLine
  headerEntries (rest.length + 1) { r with rest, nextLine }

/-!
# The patches
-/

/-- The loop of `_read_one_patch` after the meta line: each yielded line goes to the
body, until the line after it starts with `***` (another patch follows) or `#`. -/
def patchLoop (lines : List Line) : List Line → Line → List Line × Bool × List Line × Line
  | [], nextLine => (lines, false, [], nextLine)
  | line :: rest, last =>
    if line.take 3 = ['*', '*', '*'] then (lines ++ [last], true, rest, line)
    else if line.take 1 = ['#'] then (lines ++ [last], false, rest, line)
    else patchLoop (lines ++ [last]) rest line

/-- `_read_one_patch()`: the action, the body, and whether another patch follows. -/
def readOnePatch (r : Reader) : Except ReadError ((Option Bytes × List Line × Bool) × Reader) := do
  if ← r.peekStarts ['#'] then return ((none, [], false), r)
  let (some line, r) := r.next | throw .stopIteration
  if line.take 3 ≠ ['*', '*', '*'] then throw .malformedPatches
  let some nextLine := r.nextLine | throw .stopIteration
  match patchLoop [] r.rest nextLine with
  | (lines, more, rest, nextLine) =>
    return ((some (slice line 4 (-1)), lines, more), { r with rest, nextLine := some nextLine })

/-- The loop of `_read_patches`. -/
def patchesLoop : Nat → Reader → Except ReadError Reader
  | 0, _ => throw .outOfFuel
  | fuel + 1, r => do
    let ((action, lines, more), r) ← readOnePatch r
    let r := match action with
      | some action => { r with info := { r.info with actions := r.info.actions ++ [(action, lines)] } }
      | none => r
    if more then patchesLoop fuel r else return r

/-- `_read_patches()`. -/
def readPatches (r : Reader) : Except ReadError Reader :=
  patchesLoop (r.rest.length + 1) r

/-!
# The footer and the result
-/

/-- The loop of `_read_footer`: entries up to `# END BZR FOOTER`. -/
def footerLoop : Nat → Reader → Except ReadError Reader := entriesLoop "# END BZR FOOTER\n".toList

/-- `_read_footer()`: its first line is taken with a bare `.next()`. -/
def readFooter (r : Reader) : Except ReadError Reader := do
  let (some line, r) := r.next | throw .stopIteration
  if line ≠ "# BEGIN BZR FOOTER\n".toList then throw .malformedFooter
  footerLoop (r.rest.length + 1) r

/-- `complete_info()`: without a base, `rev.parents[0].revision_id` of the last
revision, whose parents are strings. -/
def ChangesetInfo.completeInfo (info : ChangesetInfo) : Except ReadError ChangesetInfo :=
  match info.base, info.revisions.getLast? with
  | some _, _ => .ok info
  | none, none => .error .indexError
  | none, some rev =>
    match rev.parents with
    | none => .error .typeError
    | some (.str []) | some (.list []) => .error .indexError
    | some _ => .error .attributeError

/-!
# File names
-/

/-- `_unescape(name)`: the delimiter `name[0]` must end the name too.  The literals
`'\"'` and `"\'"` of its two `replace` calls are the one-character strings `"` and
`'`, so each replaces a quote by itself. -/
def unescape (name : Bytes) : Except ReadError Bytes :=
  match getItem name 0 with
  | none => .error .indexError
  | some delimiter =>
    if getItem name (-1) ≠ some delimiter then .error (.badFilename name)
    else .ok (replaceChar (replaceChar (slice name 1 (-1)) '"' ['"']) '\'' ['\''])

/-- `read_changeset(from_file)`, with `common.get_header()` and `common.header_str`. -/
def readChangeset (header : List Bytes) (headerStr : Bytes) (lines : List Line) :
    Except ReadError ChangesetInfo := do
  let r ← readHeader header headerStr ⟨lines, none, {}⟩
  let r ← readFooter (← readPatches r)
  r.info.completeInfo

end Changeset
end Bazaar
