import Bazaar.Bencode.Encode

/-!
# The bencode decoder

`BDecoder` reads a value at a position `f` of the input and returns it with the
position after it.  A dispatch table `decode_func` picks the reader from the
character at `f`: `l` a list, `d` a dict, `i` an integer, a digit a string.  Lists
and dicts loop until they meet the end marker `e`, reading each element through
the table again.

The Python decoder need not terminate, so the model counts the calls and loop
rounds it may still make in a `fuel` argument; running out of fuel is the error
`exhausted`, which the Python code never raises.
-/

namespace Bazaar
namespace Bencode

open Python

/-- How a decoder call ends when it does not return: the exception it raises, or
`exhausted` when the model's fuel runs out before it returns. -/
inductive DecodeError where
  | indexError
  | keyError
  | valueError
  | exhausted
  deriving DecidableEq, Repr

/-- A Python operation that raises `e` where the model returns `none`. -/
def orRaise {α : Type} (e : DecodeError) : Option α → Except DecodeError α
  | some a => .ok a
  | none => .error e

@[simp] theorem orRaise_some {α : Type} (e : DecodeError) (a : α) :
    orRaise e (some a) = .ok a := rfl

@[simp] theorem orRaise_none {α : Type} (e : DecodeError) : orRaise e (none : Option α) = .error e :=
  rfl

/-!
# Integers and strings
-/

/-- `decode_int(x, f)`. -/
def decodeInt (x : Bytes) (f : Int) : Except DecodeError (Value × Int) := do
  let f := f + 1
  let newf ← orRaise .valueError (index x 'e' f)
  let n ← orRaise .valueError (Python.int (slice x f newf))
  let c ← orRaise .indexError (getItem x f)
  if c = '-' then
    if (← orRaise .indexError (getItem x (f + 1))) = '0' then throw .valueError
  else if c = '0' ∧ newf ≠ f + 1 then throw .valueError
  pure (.int n, newf + 1)

/-- `decode_string(x, f)`. -/
def decodeString (x : Bytes) (f : Int) : Except DecodeError (Bytes × Int) := do
  let colon ← orRaise .valueError (index x ':' f)
  let n ← orRaise .valueError (Python.int (slice x f colon))
  if (← orRaise .indexError (getItem x f)) = '0' ∧ colon ≠ f + 1 then throw .valueError
  let colon := colon + 1
  pure (slice x colon (colon + n), colon + n)

/-- `decode_int` reads back what `encode_int` wrote, wherever it stands in the input
and whatever follows it. -/
theorem decodeInt_of_drop {x suf : Bytes} {p : Nat} {n : Int}
    (h : x.drop p = encodeInt n ++ suf) :
    decodeInt x p = .ok (.int n, ((p + (encodeInt n).length : Nat) : Int)) := by
  obtain ⟨c, t, hct⟩ := List.exists_cons_of_ne_nil (str_ne_nil n)
  have h1 : x.drop (p + 1) = str n ++ 'e' :: suf :=
    drop_of_drop_append (s := ['i']) (by simpa [encodeInt] using h)
  have hf : ((p + 1 : Nat) : Int) = (p : Int) + 1 := by push_cast; rfl
  have he : 'e' ∉ str n := not_mem_str_of_not_isDigit (by decide) (by decide)
  have hidx := index_of_drop he h1
  have hsl := slice_of_drop h1
  have hc : getItem x (p + 1 : Nat) = some c :=
    getItem_of_drop (r := t ++ 'e' :: suf) (by simp [h1, hct])
  rw [hf] at hidx hsl hc
  have hend : ((p + 1 + (str n).length : Nat) : Int) + 1 =
      ((p + (encodeInt n).length : Nat) : Int) := by
    simp [encodeInt]; omega
  simp only [decodeInt, hidx, hsl, int_str, hc, orRaise_some, ok_bind, hend]
  by_cases hm : c = '-'
  · subst hm
    obtain ⟨d, t', rfl, hd⟩ := str_eq_minus_cons hct
    have hd' : getItem x ((p : Int) + 1 + 1) = some d := by
      rw [← hf, show ((p + 1 : Nat) : Int) + 1 = ((p + 1 + 1 : Nat) : Int) by push_cast; rfl]
      exact getItem_of_drop (r := t' ++ 'e' :: suf)
        (drop_of_drop_append (s := ['-']) (by simp [h1, hct]))
    simp [hd', hd]
  · by_cases h0 : c = '0'
    · subst h0
      have hz : ((p + 1 + (str n).length : Nat) : Int) = (p : Int) + 1 + 1 := by
        rw [hct, str_eq_zero_cons hct]; simp
      simp [hm, hz]
    · simp [hm, h0]

/-- `decode_string` reads back what `encode_string` wrote, wherever it stands in the
input and whatever follows it. -/
theorem decodeString_of_drop {x suf s : Bytes} {p : Nat}
    (h : x.drop p = encodeString s ++ suf) :
    decodeString x p = .ok (s, ((p + (encodeString s).length : Nat) : Int)) := by
  obtain ⟨c, t, hct⟩ := List.exists_cons_of_ne_nil (str_ne_nil s.length)
  have h0 : x.drop p = str s.length ++ ':' :: (s ++ suf) := by simpa [encodeString] using h
  have hcolon : ':' ∉ str s.length := not_mem_str_of_not_isDigit (by decide) (by decide)
  have hc : getItem x p = some c :=
    getItem_of_drop (r := t ++ ':' :: (s ++ suf)) (by simp [h0, hct])
  have hcond : ¬ (c = '0' ∧ ((p + (str s.length).length : Nat) : Int) ≠ (p : Int) + 1) := by
    rintro ⟨rfl, hne⟩
    rw [hct, str_eq_zero_cons hct] at hne
    simp at hne
  have hend : ((p + (str s.length).length : Nat) : Int) + 1 + (s.length : Int) =
      ((p + (encodeString s).length : Nat) : Int) := by
    simp [encodeString]; omega
  have hsl : slice x (((p + (str s.length).length : Nat) : Int) + 1)
      ((p + (encodeString s).length : Nat) : Int) = s := by
    have hstart : ((p + (str s.length).length : Nat) : Int) + 1 =
        ((p + (str s.length ++ [':']).length : Nat) : Int) := by
      simp; omega
    rw [← hend, hstart, ← Nat.cast_add]
    exact slice_of_drop (drop_of_drop_append (by simpa using h0))
  simp only [decodeString, index_of_drop hcolon h0, slice_of_drop h0, int_str, hc,
    orRaise_some, ok_bind, if_neg hcond, hend, hsl]
  rfl

/-!
# Lists, dicts and the dispatch table
-/

mutual

/-- `self.decode_func[x[f]](x, f)`. -/
def decodeFunc (yieldTuples : Bool) : Nat → Bytes → Int → Except DecodeError (Value × Int)
  | 0, _, _ => throw .exhausted
  | fuel + 1, x, f => do
    let c ← orRaise .indexError (getItem x f)
    if c = 'l' then decodeList yieldTuples fuel x (f + 1) []
    else if c = 'd' then decodeDict yieldTuples fuel x (f + 1) none []
    else if c = 'i' then decodeInt x f
    else if c.isDigit then do
      let (s, f) ← decodeString x f
      pure (.str s, f)
    else throw .keyError

/-- The loop of `decode_list` at position `f`, with the items `r` read so far. -/
def decodeList (yieldTuples : Bool) :
    Nat → Bytes → Int → List Value → Except DecodeError (Value × Int)
  | 0, _, _, _ => throw .exhausted
  | fuel + 1, x, f, r => do
    if (← orRaise .indexError (getItem x f)) ≠ 'e' then
      let (v, f) ← decodeFunc yieldTuples fuel x f
      decodeList yieldTuples fuel x f (r ++ [v])
    else pure (seqOf yieldTuples r, f + 1)

/-- The loop of `decode_dict` at position `f`, after the key `lastkey`, with the
items `r` read so far.  Keys must come in strictly increasing order, so `r[k] = v`
adds a new item; Python 2 orders `None` below every string. -/
def decodeDict (yieldTuples : Bool) :
    Nat → Bytes → Int → Option Bytes → List (Bytes × Value) → Except DecodeError (Value × Int)
  | 0, _, _, _, _ => throw .exhausted
  | fuel + 1, x, f, lastkey, r => do
    if (← orRaise .indexError (getItem x f)) ≠ 'e' then
      let (k, f) ← decodeString x f
      if let some lk := lastkey then
        if k ≤ lk then throw .valueError
      let (v, f) ← decodeFunc yieldTuples fuel x f
      decodeDict yieldTuples fuel x f (some k) (r ++ [(k, v)])
    else pure (.dict r, f + 1)

end

/-!
One lemma per branch of the dispatch table and of each loop, so that later
proofs never unfold the decoder.
-/

section Branches

variable {yieldTuples : Bool} {fuel : Nat} {x : Bytes} {f : Int}

theorem decodeFunc_of_list (h : getItem x f = some 'l') :
    decodeFunc yieldTuples (fuel + 1) x f = decodeList yieldTuples fuel x (f + 1) [] := by
  simp [decodeFunc, h]

theorem decodeFunc_of_dict (h : getItem x f = some 'd') :
    decodeFunc yieldTuples (fuel + 1) x f = decodeDict yieldTuples fuel x (f + 1) none [] := by
  simp [decodeFunc, h]

theorem decodeFunc_of_int (h : getItem x f = some 'i') :
    decodeFunc yieldTuples (fuel + 1) x f = decodeInt x f := by
  simp [decodeFunc, h]

theorem decodeFunc_of_digit {c : Char} (h : getItem x f = some c) (hc : c.isDigit) :
    decodeFunc yieldTuples (fuel + 1) x f =
      decodeString x f >>= fun (s, f) => pure (.str s, f) := by
  have hl : c ≠ 'l' := by rintro rfl; exact absurd hc (by decide)
  have hd : c ≠ 'd' := by rintro rfl; exact absurd hc (by decide)
  have hi : c ≠ 'i' := by rintro rfl; exact absurd hc (by decide)
  simp [decodeFunc, h, hl, hd, hi, hc]

theorem decodeList_of_end {r : List Value} (h : getItem x f = some 'e') :
    decodeList yieldTuples (fuel + 1) x f r = .ok (seqOf yieldTuples r, f + 1) := by
  simp [decodeList, h]

theorem decodeList_of_item {r : List Value} {c : Char} (h : getItem x f = some c)
    (hc : c ≠ 'e') :
    decodeList yieldTuples (fuel + 1) x f r =
      decodeFunc yieldTuples fuel x f >>= fun (v, f) =>
        decodeList yieldTuples fuel x f (r ++ [v]) := by
  simp [decodeList, h, hc]

theorem decodeDict_of_end {lastkey : Option Bytes} {r : List (Bytes × Value)}
    (h : getItem x f = some 'e') :
    decodeDict yieldTuples (fuel + 1) x f lastkey r = .ok (.dict r, f + 1) := by
  simp [decodeDict, h]

theorem decodeDict_of_item {lastkey : Option Bytes} {r : List (Bytes × Value)} {c : Char}
    {k : Bytes} {f' : Int} (h : getItem x f = some c) (hc : c ≠ 'e')
    (hk : decodeString x f = .ok (k, f')) (hlt : ∀ lk ∈ lastkey, lk < k) :
    decodeDict yieldTuples (fuel + 1) x f lastkey r =
      decodeFunc yieldTuples fuel x f' >>= fun (v, f) =>
        decodeDict yieldTuples fuel x f (some k) (r ++ [(k, v)]) := by
  cases lastkey with
  | none => simp [decodeDict, h, hc, hk]
  | some lk =>
      have hnle : ¬ k ≤ lk := not_le.mpr (hlt lk rfl)
      simp [decodeDict, h, hc, hk, hnle]

end Branches

/-- `BDecoder.bdecode(x)`: the `IndexError`, `KeyError` and `OverflowError` a
reader raises become `ValueError`, and so does input left over after the value. -/
def BDecoder.bdecode (yieldTuples : Bool) (fuel : Nat) (x : Bytes) :
    Except DecodeError Value :=
  match decodeFunc yieldTuples fuel x 0 with
  | .ok (r, l) => if l ≠ x.length then .error .valueError else .ok r
  | .error .indexError => .error .valueError
  | .error .keyError => .error .valueError
  | .error e => .error e

/-- `bdecode = BDecoder().bdecode`. -/
def bdecode (fuel : Nat) (x : Bytes) : Except DecodeError Value :=
  BDecoder.bdecode false fuel x

/-- `bdecode_as_tuple = BDecoder(True).bdecode`. -/
def bdecodeAsTuple (fuel : Nat) (x : Bytes) : Except DecodeError Value :=
  BDecoder.bdecode true fuel x

end Bencode
end Bazaar
