import Mathlib.Data.Nat.Digits
import Mathlib.Data.List.Lex
import Mathlib.Data.Char
import Mathlib.Logic.Function.Basic

/-!
# Python 2 byte strings

The modelled modules run under Python 2, where a `str` is a byte string.  This
module gives the few `str` operations they call a meaning on lists of characters:
indexing and slicing with Python's negative positions, `str.index`, the builtin
`int()` on a decimal numeral and `str()` of an integer.  Each operation that can
raise returns an `Option`, `none` standing for the exception it raises.  A dict is a
function to `Option`, filled by `Function.update`.

Positions are integers, as in Python: the bencode decoder can compute negative
ones, and Python reads them from the end of the string.
-/

namespace Bazaar
namespace Python

/-- A Python 2 `str`: one `Char` a byte. -/
abbrev Bytes := List Char

/-!
# Indexing, slicing and searching
-/

/-- `x[i]`: a negative `i` counts back from the end; `none` is the `IndexError`. -/
def getItem (x : Bytes) (i : Int) : Option Char :=
  if i < 0 then
    if i + x.length < 0 then none else x[(i + x.length).toNat]?
  else x[i.toNat]?

/-- Where a slice bound `i` falls in a string of length `len`: a negative bound
counts back from the end, and the result is clamped into `0 .. len`. -/
def sliceBound (len : Nat) (i : Int) : Nat :=
  if i < 0 then (i + len).toNat else min i.toNat len

/-- `x[a:b]`. -/
def slice (x : Bytes) (a b : Int) : Bytes :=
  (x.drop (sliceBound x.length a)).take (sliceBound x.length b - sliceBound x.length a)

/-- `x.index(c, f)`: the first position from `f` on that holds `c`; `none` is the
`ValueError`. -/
def index (x : Bytes) (c : Char) (f : Int) : Option Int :=
  ((x.drop (sliceBound x.length f)).indexOf? c).map
    fun i => ((sliceBound x.length f + i : Nat) : Int)

@[simp] theorem getItem_natCast (x : Bytes) (n : Nat) : getItem x n = x[n]? := by
  simp [getItem]

@[simp] theorem sliceBound_natCast (len n : Nat) : sliceBound len n = min n len := by
  simp [sliceBound]

/-!
The lemmas below read the primitives at a position `p` from what the string holds
from `p` on, `x.drop p`.
-/

theorem drop_of_drop_append {x s r : Bytes} {p : Nat} (h : x.drop p = s ++ r) :
    x.drop (p + s.length) = r := by
  rw [← List.drop_drop, h, List.drop_left]

theorem getItem_of_drop {x r : Bytes} {p : Nat} {c : Char} (h : x.drop p = c :: r) :
    getItem x p = some c := by
  rw [getItem_natCast, ← Nat.add_zero p, ← List.getElem?_drop, h]
  simp

theorem sliceBound_neg_one (len : Nat) : sliceBound len (-1) = len - 1 := by
  rw [sliceBound, if_pos (by decide)]
  omega

/-- `(x + c)[-1:]` is `c`. -/
theorem slice_last (x : Bytes) (c : Char) : slice (x ++ [c]) (-1) (x ++ [c]).length = [c] := by
  rw [slice, sliceBound_natCast, sliceBound_neg_one]
  simp

/-- `(p + m + c)[len(p):-1]` is `m`. -/
theorem slice_inner (p m : Bytes) (c : Char) : slice (p ++ m ++ [c]) p.length (-1) = m := by
  rw [slice, sliceBound_natCast, sliceBound_neg_one]
  simp

theorem slice_of_drop {x s r : Bytes} {p : Nat} (h : x.drop p = s ++ r) :
    slice x p ((p + s.length : Nat) : Int) = s := by
  have hlen := congrArg List.length h
  simp only [List.length_drop, List.length_append] at hlen
  simp only [slice, sliceBound_natCast]
  by_cases hp : p ≤ x.length
  · rw [Nat.min_eq_left hp, Nat.min_eq_left (by omega), Nat.add_sub_cancel_left, h,
      List.take_left]
  · have hs : s = [] := List.eq_nil_of_length_eq_zero (by omega)
    simp [hs]

/-- `x[:len(x)]` of a longer string. -/
theorem slice_prefix (x r : Bytes) : slice (x ++ r) 0 x.length = x := by
  simpa using @slice_of_drop (x ++ r) x r 0 (by simp)

/-- `(p + x)[len(p):len(p + x)]` is `x`. -/
theorem slice_suffix (p x : Bytes) : slice (p ++ x) p.length (p ++ x).length = x := by
  simpa using @slice_of_drop (p ++ x) x [] p.length (by simp)

theorem indexOf?_append_cons {s : Bytes} {c : Char} (hc : c ∉ s) (suf : Bytes) :
    (s ++ c :: suf).indexOf? c = some s.length := by
  induction s with
  | nil => simp [List.indexOf?_cons]
  | cons a s ih =>
      have hac : a ≠ c := fun h => hc (h ▸ List.mem_cons_self a s)
      rw [List.cons_append, List.indexOf?_cons, ih (fun h => hc (List.mem_cons_of_mem a h))]
      simp [hac]

theorem index_of_drop {x s r : Bytes} {p : Nat} {c : Char} (hc : c ∉ s)
    (h : x.drop p = s ++ c :: r) : index x c p = some ((p + s.length : Nat) : Int) := by
  have hlen := congrArg List.length h
  simp only [List.length_drop, List.length_append, List.length_cons] at hlen
  simp only [index, sliceBound_natCast]
  rw [Nat.min_eq_left (by omega), h, indexOf?_append_cons hc r]
  rfl

/-!
# Decimal numerals

`int()` reads a numeral the way Python 2's `PyInt_FromString` does: blanks, an
optional sign, blanks again (`PyOS_strtoul` skips them after the sign), one or
more decimal digits, trailing blanks, and nothing else.  `str()` prints the
canonical numeral.
-/

/-- C's `isspace` in the C locale. -/
def isSpace (c : Char) : Bool :=
  c = ' ' || c = '\t' || c = '\n' || c = '\x0b' || c = '\x0c' || c = '\r'

/-- `s.strip()`: blanks removed from both ends. -/
def strip (s : Bytes) : Bytes :=
  ((s.dropWhile isSpace).reverse.dropWhile isSpace).reverse

/-- `s.find(sub)`: where `sub` first starts in `s`, or `-1`. -/
def find : Bytes → Bytes → Int
  | [], sub => if sub = [] then 0 else -1
  | c :: s, sub => if sub.isPrefixOf (c :: s) then 0 else
      if find s sub < 0 then -1 else find s sub + 1

/-- The loop of `s.split(sep)` over the characters left, with the piece read so far
reversed: a piece is cut where it first ends in `sep`. -/
def splitLoop (sep : Bytes) : Bytes → Bytes → List Bytes
  | piece, [] => [piece.reverse]
  | piece, c :: s =>
    if sep ≠ [] ∧ sep.reverse.isPrefixOf (c :: piece) then
      ((c :: piece).drop sep.length).reverse :: splitLoop sep [] s
    else splitLoop sep (c :: piece) s

/-- `s.split(sep)`: the pieces between the occurrences of `sep`, found from the left. -/
def split (sep s : Bytes) : List Bytes := splitLoop sep [] s

/-- At a one-character separator, `split` is `List.splitOn`. -/
theorem splitLoop_single (c : Char) : ∀ piece s : Bytes,
    splitLoop [c] piece s = List.splitOnP.go (· == c) s piece
  | _, [] => rfl
  | piece, d :: s => by
    have hcut : ([c] ≠ [] ∧ [c].reverse.isPrefixOf (d :: piece) = true) ↔ (d == c) = true := by
      simp only [List.reverse_singleton, List.isPrefixOf, Bool.and_true, beq_iff_eq]
      exact ⟨fun h => h.2.symm, fun h => ⟨List.cons_ne_nil _ _, h.symm⟩⟩
    rw [splitLoop, List.splitOnP.go, if_congr hcut rfl rfl, List.length_singleton, List.drop_one,
      List.tail_cons,
      splitLoop_single c [] s, splitLoop_single c (d :: piece) s]

theorem split_single_eq_splitOn (c : Char) (s : Bytes) : split [c] s = s.splitOn c :=
  splitLoop_single c [] s

/-- Split at a one-character separator, text holding it once is cut in two. -/
theorem split_single {c : Char} {a b : Bytes} (ha : c ∉ a) (hb : c ∉ b) :
    split [c] (a ++ c :: b) = [a, b] := by
  rw [split_single_eq_splitOn, List.splitOn, List.splitOnP_first (· == c) a (fun x hx h => ha (beq_iff_eq.1 h ▸ hx)) c
    (beq_self_eq_true c), List.splitOnP_eq_single (· == c) b (fun x hx h => hb (beq_iff_eq.1 h ▸ hx))]

/-- The `: ` after a key without a colon is where `find` first sees `: `. -/
theorem find_colon_space {key : Bytes} (hkey : ':' ∉ key) (value : Bytes) :
    find (key ++ ':' :: ' ' :: value) [':', ' '] = key.length := by
  induction key with
  | nil => simp [find]
  | cons c key ih =>
    have hc : c ≠ ':' := fun h => hkey (h ▸ List.mem_cons_self _ _)
    rw [List.cons_append, find, ih (fun h => hkey (List.mem_cons_of_mem _ h))]
    simp [hc.symm]

/-- The value of a decimal digit character. -/
def digitValue (c : Char) : Nat := c.toNat - '0'.toNat

/-- The value of a numeral, most significant digit first. -/
def numeralValue (ds : Bytes) : Nat := Nat.ofDigits 10 (ds.reverse.map digitValue)

/-- An optional sign in front of a numeral: whether it is `-`, and what follows. -/
def sign : Bytes → Bool × Bytes
  | [] => (false, [])
  | c :: t => if c = '-' then (true, t) else if c = '+' then (false, t) else (false, c :: t)

/-- `int(s)` on a `str`, in base 10; `none` is the `ValueError`. -/
def int (s : Bytes) : Option Int :=
  let t := (sign (s.dropWhile isSpace)).2.dropWhile isSpace
  let ds := t.takeWhile Char.isDigit
  if ds ≠ [] ∧ (t.dropWhile Char.isDigit).all isSpace then
    some (if (sign (s.dropWhile isSpace)).1 then -(numeralValue ds : Int) else numeralValue ds)
  else none

/-- The character of a decimal digit `d < 10`. -/
def digitChar (d : Nat) : Char := Char.ofNat ('0'.toNat + d)

/-- The decimal numeral of `n`, most significant digit first; `0` prints as `0`. -/
def decimal (n : Nat) : Bytes :=
  if n = 0 then ['0'] else ((Nat.digits 10 n).map digitChar).reverse

/-- `str(n)` of a Python `int` or `long`. -/
def str (n : Int) : Bytes :=
  if n < 0 then '-' :: decimal n.natAbs else decimal n.natAbs

@[simp] theorem str_natCast (n : Nat) : str n = decimal n := by
  simp [str]

theorem digitChar_isDigit : ∀ d, d < 10 → (digitChar d).isDigit := by decide

theorem digitValue_digitChar : ∀ d, d < 10 → digitValue (digitChar d) = d := by decide

theorem digitChar_eq_zero : ∀ d, d < 10 → digitChar d = '0' → d = 0 := by decide

theorem decimal_isDigit (n : Nat) : ∀ c ∈ decimal n, c.isDigit := by
  unfold decimal
  split
  · simp
  · simp only [List.mem_reverse, List.mem_map]
    rintro c ⟨d, hd, rfl⟩
    exact digitChar_isDigit d (Nat.digits_lt_base (by norm_num) hd)

theorem decimal_ne_nil (n : Nat) : decimal n ≠ [] := by
  unfold decimal
  split
  · simp
  · simpa [Nat.digits_eq_nil_iff_eq_zero]

theorem str_ne_nil (n : Int) : str n ≠ [] := by
  unfold str
  split
  · simp
  · exact decimal_ne_nil _

theorem numeralValue_decimal (n : Nat) : numeralValue (decimal n) = n := by
  unfold decimal numeralValue
  split
  · subst n; rfl
  · rw [List.reverse_reverse, List.map_map]
    have hid : ∀ d ∈ Nat.digits 10 n, (digitValue ∘ digitChar) d = d := fun d hd =>
      digitValue_digitChar d (Nat.digits_lt_base (by norm_num) hd)
    rw [List.map_congr_left hid, List.map_id', Nat.ofDigits_digits]

/-- A numeral printed by `decimal` has a leading `0` only when it is `0` itself. -/
theorem decimal_eq_zero_cons {n : Nat} {t : Bytes} (h : decimal n = '0' :: t) :
    n = 0 ∧ t = [] := by
  unfold decimal at h
  split at h
  · exact ⟨‹_›, (List.cons.inj h).2.symm⟩
  · rename_i hn
    exfalso
    have hne : Nat.digits 10 n ≠ [] := by simpa [Nat.digits_eq_nil_iff_eq_zero]
    have hlast := Nat.getLast_digit_ne_zero 10 hn
    have hhead : ((Nat.digits 10 n).map digitChar).reverse.head? =
        some (digitChar ((Nat.digits 10 n).getLast hne)) := by
      rw [List.head?_reverse, List.getLast?_map, List.getLast?_eq_getLast _ hne]
      rfl
    rw [h] at hhead
    exact hlast (digitChar_eq_zero _
      (Nat.digits_lt_base (by norm_num) (List.getLast_mem hne)) (Option.some.inj hhead).symm)

theorem str_mem {n : Int} {c : Char} (h : c ∈ str n) : c = '-' ∨ c.isDigit := by
  unfold str at h
  split at h
  · rcases List.mem_cons.mp h with rfl | h
    · exact .inl rfl
    · exact .inr (decimal_isDigit _ c h)
  · exact .inr (decimal_isDigit _ c h)

theorem not_mem_str_of_not_isDigit {n : Int} {c : Char} (hc : c ≠ '-')
    (hd : c.isDigit = false) : c ∉ str n := fun h => by
  rcases str_mem h with h | h
  · exact hc h
  · simp [hd] at h

/-- `str` never prints `-0`: a `-` is followed by a numeral that does not start
with `0`. -/
theorem str_eq_minus_cons {n : Int} {t : Bytes} (h : str n = '-' :: t) :
    ∃ d t', t = d :: t' ∧ d ≠ '0' := by
  unfold str at h
  split at h
  · rename_i hn
    obtain ⟨d, t', hd⟩ := List.exists_cons_of_ne_nil (decimal_ne_nil n.natAbs)
    refine ⟨d, t', (List.cons.inj h).2 ▸ hd, ?_⟩
    rintro rfl
    have := (decimal_eq_zero_cons hd).1
    omega
  · exact absurd (decimal_isDigit _ '-' (h ▸ List.mem_cons_self _ _)) (by decide)

/-- A numeral `str` prints with a leading `0` is `0` itself. -/
theorem str_eq_zero_cons {n : Int} {t : Bytes} (h : str n = '0' :: t) : t = [] := by
  unfold str at h
  split at h
  · exact absurd (List.cons.inj h).1 (by decide)
  · exact (decimal_eq_zero_cons h).2

theorem isDigit_of_isSpace {c : Char} (h : isSpace c) : c.isDigit = false := by
  simp only [isSpace, Bool.or_eq_true, decide_eq_true_eq] at h
  rcases h with (((((rfl | rfl) | rfl) | rfl) | rfl) | rfl) <;> rfl

/-- A run of digits reads as its value, and behind a `-` as its negation. -/
theorem int_of_isDigit {ds : Bytes} (hne : ds ≠ []) (hd : ∀ c ∈ ds, c.isDigit) :
    int ds = some (numeralValue ds : Int) ∧ int ('-' :: ds) = some (-(numeralValue ds : Int)) := by
  obtain ⟨c, t, rfl⟩ := List.exists_cons_of_ne_nil hne
  have hc : c.isDigit := hd c (List.mem_cons_self c t)
  have hsp : ¬ isSpace c := fun h => by simp [isDigit_of_isSpace h] at hc
  have hsign : sign (c :: t) = (false, c :: t) := by
    have hm : c ≠ '-' := by rintro rfl; exact absurd hc (by decide)
    have hp : c ≠ '+' := by rintro rfl; exact absurd hc (by decide)
    simp [sign, hm, hp]
  have hdrop : (c :: t).dropWhile isSpace = c :: t := List.dropWhile_cons_of_neg hsp
  have htake : (c :: t).takeWhile Char.isDigit = c :: t := List.takeWhile_eq_self_iff.mpr hd
  have hrest : (c :: t).dropWhile Char.isDigit = [] := List.dropWhile_eq_nil_iff.mpr hd
  constructor
  · simp [int, hdrop, hsign, htake, hrest]
  · have hneg : ('-' :: c :: t).dropWhile isSpace = '-' :: c :: t :=
      List.dropWhile_cons_of_neg (by decide)
    simp [int, hneg, sign, hdrop, htake, hrest]

theorem int_str (n : Int) : int (str n) = some n := by
  have h := int_of_isDigit (decimal_ne_nil n.natAbs) (decimal_isDigit n.natAbs)
  rw [numeralValue_decimal] at h
  unfold str
  split
  · rename_i hn
    rw [h.2, Int.ofNat_natAbs_of_nonpos hn.le, Int.neg_neg]
  · rename_i hn
    rw [h.1, Int.natAbs_of_nonneg (Int.not_lt.mp hn)]

/-!
# `repr` and `replace`

Python 2's `repr` of a `str` (`PyString_Repr`): single quotes, or double quotes when
the string holds a single quote and no double quote; the quote, a backslash, tab,
newline and carriage return escaped by a backslash, other bytes outside printable
ASCII as `\xhh`.
-/

/-- A lowercase hexadecimal digit. -/
def hexDigit (n : Nat) : Char := if n < 10 then Char.ofNat (48 + n) else Char.ofNat (87 + n)

/-- The quote `repr` puts around `s`. -/
def reprQuote (s : Bytes) : Char := if '\'' ∈ s ∧ '"' ∉ s then '"' else '\''

/-- How `repr` writes one byte inside the quote `q`. -/
def reprChar (q c : Char) : Bytes :=
  if c = q ∨ c = '\\' then ['\\', c]
  else if c = '\t' then ['\\', 't']
  else if c = '\n' then ['\\', 'n']
  else if c = '\r' then ['\\', 'r']
  else if c.toNat < 0x20 ∨ 0x7f ≤ c.toNat then
    ['\\', 'x', hexDigit (c.toNat % 256 / 16), hexDigit (c.toNat % 16)]
  else [c]

/-- `repr(s)` of a `str`. -/
def strRepr (s : Bytes) : Bytes :=
  reprQuote s :: s.flatMap (reprChar (reprQuote s)) ++ [reprQuote s]

/-- `s.replace(old, new)` for a one-character `old`. -/
def replaceChar (s : Bytes) (old : Char) (new : Bytes) : Bytes :=
  s.flatMap fun c => if c = old then new else [c]

@[simp] theorem replaceChar_self (s : Bytes) (c : Char) : replaceChar s c [c] = s := by
  induction s with
  | nil => rfl
  | cons d s ih =>
    rw [replaceChar, List.flatMap_cons, ← replaceChar, ih]
    by_cases h : d = c <;> simp [h]

/-- A printable ASCII byte other than the backslash. -/
def Plain (c : Char) : Prop := 0x20 ≤ c.toNat ∧ c.toNat < 0x7f ∧ c ≠ '\\'

instance : DecidablePred Plain := fun _ => inferInstanceAs (Decidable (_ ∧ _))

theorem reprChar_plain {q c : Char} (hc : Plain c) (hq : c ≠ q) : reprChar q c = [c] := by
  obtain ⟨h1, h2, hb⟩ := hc
  have ht : c ≠ '\t' := fun h => by subst h; simp at h1
  have hn : c ≠ '\n' := fun h => by subst h; simp at h1
  have hr : c ≠ '\r' := fun h => by subst h; simp at h1
  simp [reprChar, hq, hb, ht, hn, hr, Nat.not_lt.2 h1, Nat.not_le.2 h2]

/-- A string of plain bytes that does not hold both quotes: `repr` only puts quotes
around it. -/
theorem strRepr_plain {s : Bytes} (hs : ∀ c ∈ s, Plain c) (hq : ¬ ('\'' ∈ s ∧ '"' ∈ s)) :
    strRepr s = reprQuote s :: s ++ [reprQuote s] := by
  have hnq : reprQuote s ∉ s := by
    unfold reprQuote
    split_ifs with h
    · exact h.2
    · exact fun h' => h ⟨h', fun hd => hq ⟨h', hd⟩⟩
  have hmap : s.flatMap (reprChar (reprQuote s)) = s := by
    conv_rhs => rw [← List.flatMap_singleton' s]
    exact List.flatMap_congr fun c hc => reprChar_plain (hs c hc) fun h => hnq (h ▸ hc)
  rw [strRepr, hmap]

/-!
# Dicts built by assignment

A dict filled by `d[key(a)] = val(a)` for each `a` of a list, one after the other.
-/

section Assignments

variable {α κ ν : Type} [DecidableEq κ] (key : α → κ) (val : α → ν)

theorem foldl_update_of_not_mem : ∀ (l : List α) (d : κ → ν) {k : κ}, k ∉ l.map key →
    l.foldl (fun d a => Function.update d (key a) (val a)) d k = d k
  | [], _, _, _ => rfl
  | a :: l, d, k, hk => by
    rw [List.map_cons, List.mem_cons, not_or] at hk
    rw [List.foldl_cons, foldl_update_of_not_mem l _ hk.2, Function.update_noteq hk.1]

theorem foldl_update_of_mem : ∀ (l : List α) (d : κ → ν), (l.map key).Nodup → ∀ a ∈ l,
    l.foldl (fun d a => Function.update d (key a) (val a)) d (key a) = val a
  | [], _, _, _, ha => absurd ha (List.not_mem_nil _)
  | b :: l, d, hnd, a, ha => by
    rw [List.map_cons, List.nodup_cons] at hnd
    rw [List.foldl_cons]
    rcases List.mem_cons.1 ha with rfl | ha
    · rw [foldl_update_of_not_mem key val l _ hnd.1, Function.update_same]
    · exact foldl_update_of_mem l _ hnd.2 a ha

/-- Every value the dict holds was there before or is the value of an assignment to
its key. -/
theorem foldl_update_eq : ∀ (l : List α) (d : κ → ν) (k : κ),
    l.foldl (fun d a => Function.update d (key a) (val a)) d k = d k ∨
      ∃ a ∈ l, key a = k ∧ l.foldl (fun d a => Function.update d (key a) (val a)) d k = val a
  | [], _, _ => .inl rfl
  | a :: l, d, k => by
    rw [List.foldl_cons]
    rcases foldl_update_eq l _ k with h | ⟨b, hb, hbk, h⟩
    · by_cases hk : k = key a
      · subst hk
        exact .inr ⟨a, List.mem_cons_self _ _, rfl, by rw [h, Function.update_same]⟩
      · exact .inl (by rw [h, Function.update_noteq hk])
    · exact .inr ⟨b, List.mem_cons_of_mem _ hb, hbk, h⟩

end Assignments

/-!
# Exceptions

A function that raises returns `Except`; these lemmas run its binds.
-/

@[simp] theorem ok_bind {ε α β : Type} (a : α) (g : α → Except ε β) :
    (Except.ok a >>= g) = g a := rfl

@[simp] theorem pure_eq_ok {ε α : Type} (a : α) : (pure a : Except ε α) = .ok a := rfl

@[simp] theorem throw_eq_error {ε α : Type} (e : ε) : (throw e : Except ε α) = .error e := rfl

@[simp] theorem error_bind {ε α β : Type} (e : ε) (g : α → Except ε β) :
    (Except.error e >>= g) = .error e := rfl

/-- A bind returns only when its first step does and the rest returns from that. -/
theorem bind_eq_ok {ε α β : Type} {e : Except ε α} {g : α → Except ε β} {b : β} :
    (e >>= g) = .ok b ↔ ∃ a, e = .ok a ∧ g a = .ok b := by
  cases e <;> simp

/-- A `mapM` returns only when every element's step does, and pairs each element with
what its step returned. -/
theorem mapM_eq_ok {ε α β : Type} {f : α → Except ε β} :
    ∀ {l : List α} {ys : List β}, l.mapM f = .ok ys → List.Forall₂ (fun x y => f x = .ok y) l ys
  | [], ys, h => by cases h; exact .nil
  | x :: l, ys, h => by
    rw [List.mapM_cons] at h
    obtain ⟨y, hy, h⟩ := bind_eq_ok.1 h
    obtain ⟨ys', hys, h⟩ := bind_eq_ok.1 h
    cases h
    exact .cons hy (mapM_eq_ok hys)

/-- A `mapM` returns exactly when every element's step does. -/
theorem mapM_ok_iff {ε α β : Type} {f : α → Except ε β} :
    ∀ l : List α, (∃ ys, l.mapM f = .ok ys) ↔ ∀ x ∈ l, ∃ y, f x = .ok y
  | [] => iff_of_true ⟨[], rfl⟩ fun _ h => absurd h (List.not_mem_nil _)
  | x :: l => by
    rw [List.forall_mem_cons, ← mapM_ok_iff l, List.mapM_cons]
    cases f x <;> cases l.mapM f <;> simp

/-- A `mapM` whose steps give back their argument whenever they return gives back the
list exactly when every step returns. -/
theorem mapM_eq_ok_self {ε α : Type} {f : α → Except ε α} (hf : ∀ a b, f a = .ok b → a = b)
    (l : List α) : l.mapM f = .ok l ↔ ∀ a ∈ l, ∃ b, f a = .ok b := by
  rw [← mapM_ok_iff]
  refine ⟨fun h => ⟨l, h⟩, fun ⟨ys, h⟩ => ?_⟩
  have hl : l = ys := (congrFun (congrFun List.forall₂_eq_eq_eq l) ys).mp
    ((mapM_eq_ok h).imp hf)
  rwa [← hl] at h

theorem exists_of_mem_forall₂ {α β : Type} {R : α → β → Prop} :
    ∀ {as : List α} {bs : List β}, List.Forall₂ R as bs → ∀ {b}, b ∈ bs → ∃ a ∈ as, R a b
  | _, _, .nil, _, hb => absurd hb (List.not_mem_nil _)
  | a :: _, _, .cons hab hrest, _, hb => by
    rcases List.mem_cons.1 hb with rfl | hb
    · exact ⟨a, List.mem_cons_self _ _, hab⟩
    · obtain ⟨a', ha', h⟩ := exists_of_mem_forall₂ hrest hb
      exact ⟨a', List.mem_cons_of_mem _ ha', h⟩

end Python
end Bazaar
