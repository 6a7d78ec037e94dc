import Bazaar.Python.Str
import Mathlib.Data.List.Sort

/-!
# Bencode values and the encoder

`bencode` (`bzrlib/util/_bencode_py.py`) writes a Python value as a byte string:
an integer as `i<n>e`, a string as `<length>:<bytes>`, a list or a tuple as
`l...e`, a dict as `d...e` with its items in key order.  A `Bencached` object holds
an encoding made earlier and is written out as it is.

The encoder appends to a list `r` that `bencode` joins at the end; here each
encoding function returns the bytes it appends.
-/

namespace Bazaar
namespace Bencode

open Python

/-- The Python values `bencode` accepts, one constructor per entry of `encode_func`
(a `long` is an `int`, a `StaticTuple` a `tuple`).  `bencached w` is the object
`Bencached(bencode(w))`.  The decoder builds values of this type too, from `int`,
`str`, `list` or `tuple`, and `dict`. -/
inductive Value where
  | int (n : Int)
  | bool (b : Bool)
  | str (s : Bytes)
  | list (xs : List Value)
  | tuple (xs : List Value)
  | dict (items : List (Bytes × Value))
  | bencached (w : Value)
  deriving Inhabited

/-- Dict items ordered by key, as `sorted(x.items())` orders the items of a dict,
whose keys are distinct. -/
def keyLe {α : Type} (a b : Bytes × α) : Prop := a.1 ≤ b.1

instance {α : Type} : DecidableRel (@keyLe α) := fun a b =>
  inferInstanceAs (Decidable (a.1 ≤ b.1))

instance {α : Type} : IsTotal (Bytes × α) keyLe := ⟨fun a b => le_total a.1 b.1⟩

instance {α : Type} : IsTrans (Bytes × α) keyLe := ⟨fun _ _ _ => le_trans⟩

/-!
# The encoder
-/

/-- `encode_int`. -/
def encodeInt (x : Int) : Bytes := 'i' :: str x ++ ['e']

/-- `encode_string`. -/
def encodeString (x : Bytes) : Bytes := str x.length ++ ':' :: x

/-- `encode_dict`, given each item's key and the encoding of its value. -/
def encodeDict (items : List (Bytes × Bytes)) : Bytes :=
  'd' :: ((items.insertionSort keyLe).flatMap fun (k, e) => encodeString k ++ e) ++ ['e']

mutual

/-- `encode_func[type(x)](x, r)`: what it appends to `r`. -/
def encodeFunc : Value → Bytes
  | .int x => encodeInt x
  | .bool x => encodeInt (if x then 1 else 0)
  | .str x => encodeString x
  | .list x => 'l' :: encodeList x ++ ['e']
  | .tuple x => 'l' :: encodeList x ++ ['e']
  | .dict x => encodeDict (encodeItems x)
  | .bencached x => encodeFunc x

/-- The loop of `encode_list`. -/
def encodeList : List Value → Bytes
  | [] => []
  | i :: x => encodeFunc i ++ encodeList x

/-- Each dict item's key with the encoding of its value. -/
def encodeItems : List (Bytes × Value) → List (Bytes × Bytes)
  | [] => []
  | (k, v) :: x => (k, encodeFunc v) :: encodeItems x

end

@[simp] theorem encodeList_nil : encodeList [] = [] := rfl

@[simp] theorem encodeList_cons (v : Value) (vs : List Value) :
    encodeList (v :: vs) = encodeFunc v ++ encodeList vs := rfl

/-- `bencode(x)`. -/
def bencode (x : Value) : Bytes := encodeFunc x

/-!
# Well-formed values and what decoding gives back
-/

mutual

/-- Every dict inside `v` has distinct keys, as a Python dict does. -/
def Value.keysDistinct : Value → Bool
  | .list xs => listKeysDistinct xs
  | .tuple xs => listKeysDistinct xs
  | .dict items => decide (items.map Prod.fst).Nodup && itemsKeysDistinct items
  | .bencached w => w.keysDistinct
  | _ => true

/-- `Value.keysDistinct` for every element of a list. -/
def listKeysDistinct : List Value → Bool
  | [] => true
  | v :: vs => v.keysDistinct && listKeysDistinct vs

/-- `Value.keysDistinct` for every value of a dict. -/
def itemsKeysDistinct : List (Bytes × Value) → Bool
  | [] => true
  | (_, v) :: items => v.keysDistinct && itemsKeysDistinct items

end

/-- The sequence `decode_list` returns: a tuple when the decoder yields tuples. -/
def seqOf (yieldTuples : Bool) (r : List Value) : Value :=
  if yieldTuples then .tuple r else .list r

mutual

/-- What decoding `bencode v` gives back: tuples read as lists (lists as tuples when
the decoder yields tuples), booleans as `0` and `1`, `Bencached(bencode(w))` as `w`,
and a dict with its items in key order. -/
def Value.decoded (yieldTuples : Bool) : Value → Value
  | .int n => .int n
  | .bool b => .int (if b then 1 else 0)
  | .str s => .str s
  | .list xs => seqOf yieldTuples (decodedList yieldTuples xs)
  | .tuple xs => seqOf yieldTuples (decodedList yieldTuples xs)
  | .dict items => .dict ((decodedItems yieldTuples items).insertionSort keyLe)
  | .bencached w => w.decoded yieldTuples

/-- `Value.decoded` on every element of a list. -/
def decodedList (yieldTuples : Bool) : List Value → List Value
  | [] => []
  | v :: vs => v.decoded yieldTuples :: decodedList yieldTuples vs

/-- `Value.decoded` on every value of a dict. -/
def decodedItems (yieldTuples : Bool) : List (Bytes × Value) → List (Bytes × Value)
  | [] => []
  | (k, v) :: items => (k, v.decoded yieldTuples) :: decodedItems yieldTuples items

end

@[simp] theorem decodedList_nil (yieldTuples : Bool) : decodedList yieldTuples [] = [] := rfl

@[simp] theorem decodedList_cons (yieldTuples : Bool) (v : Value) (vs : List Value) :
    decodedList yieldTuples (v :: vs) = v.decoded yieldTuples :: decodedList yieldTuples vs :=
  rfl

/-!
# Shape of the encodings
-/

theorem encodeItems_eq_map (items : List (Bytes × Value)) :
    encodeItems items = items.map fun kv => (kv.1, encodeFunc kv.2) := by
  induction items with
  | nil => rfl
  | cons kv items ih => simp [encodeItems, ih]

theorem decodedItems_eq_map (yieldTuples : Bool) (items : List (Bytes × Value)) :
    decodedItems yieldTuples items = items.map fun kv => (kv.1, kv.2.decoded yieldTuples) := by
  induction items with
  | nil => rfl
  | cons kv items ih => simp [decodedItems, ih]

/-- Sorting the items by key commutes with anything done to their values. -/
theorem insertionSort_map_snd {α β : Type} (g : α → β) (items : List (Bytes × α)) :
    (items.map fun kv => (kv.1, g kv.2)).insertionSort keyLe =
      (items.insertionSort keyLe).map fun kv => (kv.1, g kv.2) :=
  (List.map_insertionSort keyLe keyLe (fun kv => (kv.1, g kv.2)) items
    fun _ _ _ _ => Iff.rfl).symm

theorem encodeDict_encodeItems (items : List (Bytes × Value)) :
    encodeDict (encodeItems items) =
      'd' :: ((items.insertionSort keyLe).flatMap fun kv =>
        encodeString kv.1 ++ encodeFunc kv.2) ++ ['e'] := by
  rw [encodeDict, encodeItems_eq_map, insertionSort_map_snd, List.flatMap_map]

/-- Every encoding starts with a character that is not the end marker `e`. -/
theorem encodeFunc_cons : ∀ v : Value, ∃ c t, encodeFunc v = c :: t ∧ c ≠ 'e'
  | .int _ => ⟨'i', _, rfl, by decide⟩
  | .bool _ => ⟨'i', _, rfl, by decide⟩
  | .str s => by
      obtain ⟨c, t, hc⟩ := List.exists_cons_of_ne_nil (decimal_ne_nil s.length)
      refine ⟨c, t ++ ':' :: s, ?_, ?_⟩
      · simp [encodeFunc, encodeString, hc]
      · rintro rfl
        exact absurd (decimal_isDigit s.length 'e' (hc ▸ List.mem_cons_self 'e' t)) (by decide)
  | .list _ => ⟨'l', _, rfl, by decide⟩
  | .tuple _ => ⟨'l', _, rfl, by decide⟩
  | .dict _ => ⟨'d', _, rfl, by decide⟩
  | .bencached w => by simpa [encodeFunc] using encodeFunc_cons w

end Bencode
end Bazaar
