import Bazaar.Python.Str

/-!
# Revision strings

`_parse_revision_str` (`bzrlib/option.py`) turns the argument of `--revision` into
the arguments of its `RevisionSpec` calls.  A string that starts with digits and a
colon is the old format, split at colons into numbers.  Any other string is split at
`..`, and a piece ending in `:` is taken for a namespace whose argument went on past
a `..`, as in `branch:../branch2`: the loop holds it back in `next_prefix`, with the
`..` put back, and puts it in front of the next piece that is neither empty nor ends
in `:`.  `RevisionSpec` raises `BzrError` for a string that neither starts with a
registered namespace nor reads as a number; its registry is a parameter here.
-/

namespace Bazaar
namespace Bzrlib

open Python

/-!
# `split('..')` and `'..'.join`
-/

/-- Put a character in front of the first piece. -/
def consHead (c : Char) : List Bytes → List Bytes
  | x :: xs => (c :: x) :: xs
  | [] => [[c]]

/-- `s.split('..')`: the pieces between the `..`s, found from the left. -/
def splitDots : Bytes → List Bytes
  | '.' :: '.' :: s => [] :: splitDots s
  | c :: s => consHead c (splitDots s)
  | [] => [[]]

/-- `'..'.join(pieces)`. -/
def joinDots (pieces : List Bytes) : Bytes :=
  List.intercalate ['.', '.'] pieces

@[simp] theorem joinDots_singleton (x : Bytes) : joinDots [x] = x := by
  simp [joinDots, List.intercalate]

/-- What `_parse_revision_str` passes to `RevisionSpec`. -/
inductive SpecArg
  | none
  | int (n : Int)
  | str (s : Bytes)
  deriving DecidableEq, Repr

/-- `re.compile('\d*:\d*').match(revstr)` succeeds: digits, then a colon. -/
def oldFormat (revstr : Bytes) : Bool :=
  (revstr.dropWhile Char.isDigit).head? == some ':'

/-- One round of the loop over `revstr.split('..')`, on the specs so far and
`next_prefix`. -/
def dotsStep : List SpecArg × Option Bytes → Bytes → List SpecArg × Option Bytes
  | (revs, nextPrefix), x =>
    if x = [] then (revs ++ [.none], nextPrefix)
    else if x.getLast? = some ':' then (revs, some (x ++ ['.', '.']))
    else (revs ++ [.str (nextPrefix.getD [] ++ x)], none)

/-- The arguments of the `RevisionSpec` calls of `_parse_revision_str(revstr)`, in
order; `none` is the `ValueError` of `int()` in the old format. -/
def revisionSpecArgs (revstr : Bytes) : Option (List SpecArg) :=
  if oldFormat revstr then
    (revstr.splitOn ':').mapM fun rev => if rev = [] then some .none else (int rev).map .int
  else
    match (splitDots revstr).foldl dotsStep ([], none) with
    | (revs, some nextPrefix) => some (revs ++ [.str nextPrefix])
    | (revs, none) => some revs

/-- What `_parse_revision_str` raises: the `ValueError` of `int()` in the old format,
and `RevisionSpec`'s `BzrError` "No namespace registered for string". -/
inductive RevisionError
  | valueError
  | noNamespace (spec : Bytes)
  deriving DecidableEq, Repr

/-- `RevisionSpec(spec)`.  The namespace registry is not part of this file: `accepts`
says which strings it finds a class for, those starting with a registered namespace
and those `int()` reads.  `None` and numbers are always taken. -/
def revisionSpec (accepts : Bytes → Bool) : SpecArg → Except RevisionError SpecArg
  | .none => .ok .none
  | .int n => .ok (.int n)
  | .str s => if accepts s then .ok (.str s) else .error (.noNamespace s)

/-- `_parse_revision_str(revstr)`.  Nothing but `int()` and `RevisionSpec` can fail in
its loops, and `int()` only feeds numbers to `RevisionSpec`, which takes them all; so
`RevisionSpec` called on the arguments in order raises where the loop does, at the
first string it refuses.  The deprecation warning is left out. -/
def parseRevisionStr (accepts : Bytes → Bool) (revstr : Bytes) :
    Except RevisionError (List SpecArg) :=
  match revisionSpecArgs revstr with
  | none => .error .valueError
  | some args => args.mapM (revisionSpec accepts)

/-- `RevisionSpec` returns its argument exactly when it is not a string it refuses. -/
theorem revisionSpec_ok_iff (accepts : Bytes → Bool) (a : SpecArg) :
    (∃ b, revisionSpec accepts a = .ok b) ↔ ∀ s, a = .str s → accepts s = true := by
  cases a with
  | str s => by_cases hs : accepts s = true <;> simp [revisionSpec, hs]
  | _ => simp [revisionSpec]

theorem revisionSpec_eq_ok {accepts : Bytes → Bool} (a b : SpecArg)
    (h : revisionSpec accepts a = .ok b) : a = b := by
  cases a with
  | str s => by_cases hs : accepts s = true <;> simp_all [revisionSpec]
  | _ => simpa [revisionSpec] using h

/-- The `RevisionSpec` calls give back their arguments exactly when every string among
them is accepted. -/
theorem mapM_revisionSpec_eq_ok_iff (accepts : Bytes → Bool) (args : List SpecArg) :
    args.mapM (revisionSpec accepts) = .ok args ↔
      ∀ s, SpecArg.str s ∈ args → accepts s = true := by
  rw [mapM_eq_ok_self revisionSpec_eq_ok]
  exact ⟨fun h s hs => (revisionSpec_ok_iff accepts _).1 (h _ hs) s rfl,
    fun h a ha => (revisionSpec_ok_iff accepts a).2 fun s hs => h s (hs ▸ ha)⟩

/-!
# Lossless splits

The loop gives back the pieces of `revstr.split('..')` in order, a held-back piece
joined with the next by `..`, as long as every piece ending in `:` is followed by a
piece that is neither empty nor ends in `:`.  An empty piece in between, a second
such piece, or the end of the string instead moves the held-back piece, drops it, or
gives it a `..` the string does not have.
-/

/-- Every piece that ends in `:` is followed by a piece that is neither empty nor
ends in `:`. -/
def Paired : List Bytes → Prop
  | [] => True
  | [x] => x.getLast? ≠ some ':'
  | x :: y :: l => (x.getLast? = some ':' → y ≠ [] ∧ y.getLast? ≠ some ':') ∧ Paired (y :: l)

instance decidablePaired : (l : List Bytes) → Decidable (Paired l)
  | [] => isTrue trivial
  | [x] => inferInstanceAs (Decidable (x.getLast? ≠ some ':'))
  | x :: y :: l =>
    have := decidablePaired (y :: l)
    inferInstanceAs (Decidable ((x.getLast? = some ':' → _) ∧ Paired (y :: l)))

theorem Paired.tail {y : Bytes} {l : List Bytes} (h : Paired (y :: l)) : Paired l := by
  match l, h with
  | [], _ => trivial
  | _ :: _, h => exact h.2

/-- A spec argument as text: `None` as the empty string. -/
def SpecArg.text : SpecArg → Bytes
  | .none => []
  | .int n => Python.str n
  | .str s => s

/-- `branch:..` splits into `branch:` and an empty piece.  The empty piece is passed
first, as `None`; `branch:` is held back to the end and then passed with a `..` after
it, so the arguments joined by `..` are `..branch:..`. -/
theorem parseRevisionStr_held_back_last (accepts : Bytes → Bool)
    (h : accepts "branch:..".toList = true) :
    parseRevisionStr accepts "branch:..".toList = .ok [.none, .str "branch:..".toList] ∧
      joinDots ([SpecArg.none, .str "branch:..".toList].map SpecArg.text) ≠
        "branch:..".toList := by
  have hargs : revisionSpecArgs "branch:..".toList = some [.none, .str "branch:..".toList] := by
    decide
  refine ⟨?_, by decide⟩
  rw [parseRevisionStr, hargs]
  exact (mapM_revisionSpec_eq_ok_iff accepts _).2 fun s hs => by simp_all

theorem parseRevisionStr_held_back_last_branch :
    "branch:".toList.isPrefixOf "branch:..".toList = true ∧
      parseRevisionStr "branch:".toList.isPrefixOf "branch:..".toList =
        .ok [.none, .str "branch:..".toList] ∧
      joinDots ([SpecArg.none, .str "branch:..".toList].map SpecArg.text) ≠
        "branch:..".toList :=
  ⟨by decide, parseRevisionStr_held_back_last _ (by decide)⟩

/-!
# The option tables

Importing `bzrlib.option` registers the global options in `Option.OPTIONS` by their
long names, then points some letters of `Option.SHORT_OPTIONS` at them.
`Option.short_name` looks an option up in `SHORT_OPTIONS` by its long name, and no
long name is a single letter: it answers `None` for every registered option, and
goes on doing so whatever letters `_global_short` adds.
-/

/-- The `type` of an option, the function that parses its argument. -/
inductive OptionType
  | str
  | unicode
  | parseRevisionStr
  | parseMergeType
  deriving DecidableEq, Repr

/-- `Option(name, help, type)`, a command line option. -/
structure CommandOption where
  name : Bytes
  help : Bytes
  type : Option OptionType
  deriving DecidableEq, Repr

/-- `Option.OPTIONS`, by long name, or `Option.SHORT_OPTIONS`, by letter. -/
abbrev OptionTable := Bytes → Option CommandOption

/-- The options the module registers with `_global_option(name, **kwargs)`, in order. -/
def globalOptions : List CommandOption :=
  [⟨"all".toList, [], none⟩, ⟨"basis".toList, [], some .str⟩,
    ⟨"diff-options".toList, [], some .str⟩, ⟨"help".toList, [], none⟩,
    ⟨"file".toList, [], some .unicode⟩, ⟨"force".toList, [], none⟩,
    ⟨"format".toList, [], some .unicode⟩, ⟨"forward".toList, [], none⟩,
    ⟨"message".toList, [], some .unicode⟩, ⟨"no-recurse".toList, [], none⟩,
    ⟨"profile".toList, [], none⟩, ⟨"revision".toList, [], some .parseRevisionStr⟩,
    ⟨"short".toList, [], none⟩, ⟨"show-ids".toList, "show internal object ids".toList, none⟩,
    ⟨"timezone".toList, [], some .str⟩, ⟨"verbose".toList, [], none⟩,
    ⟨"version".toList, [], none⟩, ⟨"email".toList, [], none⟩, ⟨"unchanged".toList, [], none⟩,
    ⟨"update".toList, [], none⟩, ⟨"long".toList, [], none⟩, ⟨"root".toList, [], some .str⟩,
    ⟨"no-backup".toList, [], none⟩, ⟨"merge-type".toList, [], some .parseMergeType⟩,
    ⟨"pattern".toList, [], some .str⟩, ⟨"quiet".toList, [], none⟩, ⟨"remember".toList, [], none⟩]

/-- `_global_option(name, **kwargs)`: `Option.OPTIONS[name] = Option(name, **kwargs)`. -/
def globalOption (options : OptionTable) (o : CommandOption) : OptionTable :=
  Function.update options o.name (some o)

/-- `Option.OPTIONS` once the module is imported. -/
def options : OptionTable := globalOptions.foldl globalOption fun _ => none

/-- The module's `Option.SHORT_OPTIONS[letter] = Option.OPTIONS[long_name]`, in order. -/
def shortAssignments : List (Char × Bytes) :=
  [('F', "file".toList), ('h', "help".toList), ('m', "message".toList),
    ('r', "revision".toList), ('v', "verbose".toList), ('l', "long".toList),
    ('q', "quiet".toList)]

/-- `Option.SHORT_OPTIONS` once the module is imported. -/
def shortOptions : OptionTable :=
  shortAssignments.foldl (fun table a => Function.update table [a.1] (options a.2)) fun _ => none

/-- The errors of `_global_short`: its assertion, and the `KeyError` of an unknown
long name. -/
inductive OptionError
  | assertion
  | keyError
  deriving DecidableEq, Repr

/-- `_global_short(short_name, long_name)`, on the tables it reads and writes. -/
def globalShort (options shortOptions : OptionTable) (shortName longName : Bytes) :
    Except OptionError OptionTable :=
  if (shortOptions shortName).isSome then throw .assertion
  else match options longName with
    | some o => pure (Function.update shortOptions shortName (some o))
    | none => throw .keyError

/-- `Option.short_name()`, with `Option.SHORT_OPTIONS` as it stands when called. -/
def CommandOption.shortName (shortOptions : OptionTable) (o : CommandOption) :
    Option CommandOption :=
  shortOptions o.name

theorem options_eq :
    options = globalOptions.foldl
      (fun (table : OptionTable) (o : CommandOption) => Function.update table o.name (some o))
      fun _ => none := rfl

/-- Every registered option is stored under its own name. -/
theorem options_eq_some {n : Bytes} {o : CommandOption} (h : options n = some o) :
    o ∈ globalOptions ∧ o.name = n := by
  rw [options_eq] at h
  rcases foldl_update_eq CommandOption.name some globalOptions _ n with h' | ⟨a, ha, rfl, h'⟩
  · rw [h'] at h
    cases h
  · rw [h'] at h
    cases h
    exact ⟨ha, rfl⟩

/-- A table whose every key is a single letter. -/
def LetterKeys (table : OptionTable) : Prop := ∀ k, (table k).isSome → k.length = 1

theorem shortOptions_letterKeys : LetterKeys shortOptions := by
  intro k hk
  by_contra hlen
  rw [shortOptions, foldl_update_of_not_mem (fun a : Char × Bytes => [a.1]) (fun a => options a.2)
    _ _ (by simp only [List.mem_map]; rintro ⟨a, -, rfl⟩; exact hlen rfl)] at hk
  cases hk

/-- `_global_short` with a single letter keeps every key of the short table a letter. -/
theorem globalShort_letterKeys {table table' : OptionTable} {shortName longName : Bytes}
    (htable : LetterKeys table) (hshort : shortName.length = 1)
    (h : globalShort options table shortName longName = .ok table') : LetterKeys table' := by
  unfold globalShort at h
  split_ifs at h
  split at h
  · cases h
    intro k hk
    by_cases hks : k = shortName
    · rw [hks, hshort]
    · rw [Function.update_noteq hks] at hk
      exact htable k hk
  · cases h

/-- A run of `_global_short` calls with single letters keeps every key of the short
table a letter. -/
theorem foldlM_globalShort_letterKeys : ∀ (calls : List (Bytes × Bytes)) (table table' : OptionTable),
    LetterKeys table → (∀ c ∈ calls, c.1.length = 1) →
    calls.foldlM (fun table c => globalShort options table c.1 c.2) table = .ok table' →
      LetterKeys table'
  | [], _, _, h, _, hrun => by cases hrun; exact h
  | c :: calls, table, table', h, hcalls, hrun => by
    rw [List.foldlM_cons] at hrun
    obtain ⟨table₁, h₁, hrun⟩ := bind_eq_ok.1 hrun
    exact foldlM_globalShort_letterKeys calls table₁ table'
      (globalShort_letterKeys h (hcalls c (List.mem_cons_self _ _)) h₁)
      (fun c' hc' => hcalls c' (List.mem_cons_of_mem _ hc')) hrun

theorem globalOptions_long : ∀ o ∈ globalOptions, 1 < o.name.length := by decide

/-- `Option.short_name()` answers `None` for every registered option, once the module
is imported and after any `_global_short` calls with single letters: it looks the long
name up in a table of letters. -/
theorem shortName_eq_none (calls : List (Bytes × Bytes)) {table : OptionTable}
    (hcalls : ∀ c ∈ calls, c.1.length = 1)
    (hrun : calls.foldlM (fun table c => globalShort options table c.1 c.2) shortOptions = .ok table)
    {n : Bytes} {o : CommandOption} (ho : options n = some o) : o.shortName table = none := by
  have hkeys := foldlM_globalShort_letterKeys calls _ _ shortOptions_letterKeys hcalls hrun
  have hlong := globalOptions_long o (options_eq_some ho).1
  cases h : table o.name with
  | none => exact h
  | some _ => exact absurd (hkeys o.name (by simp [h])) (by omega)

/-- `-r` is `--revision`, yet `short_name()` of `--revision` is `None`. -/
theorem shortName_revision :
    (shortOptions ['r']).map CommandOption.name = some "revision".toList ∧
      ∃ o, options "revision".toList = some o ∧ o.shortName shortOptions = none :=
  ⟨by decide, _, rfl,
    @shortName_eq_none [] _ (fun _ h => absurd h (List.not_mem_nil _)) rfl "revision".toList _ rfl⟩

end Bzrlib
end Bazaar
