import Bazaar.Bencode.Decode

/-!
# Decoding inverts encoding

`bdecode (bencode v)` gives back `v`, read the way the decoder reads it, for every
value whose dicts have distinct keys.  The proof follows the encoding.  A value's
encoding decodes to the value wherever it stands in the input and whatever follows
it, since the encoding is prefix-free; the list and dict loops read their items one
after the other; and a dict's items come out in the order `encode_dict` sorted them
into, which is the strictly increasing key order `decode_dict` insists on.
-/

namespace Bazaar
namespace Bencode

open Python

variable (yieldTuples : Bool)

/-- The encoding of `v` decodes to `v`, read back as the decoder reads it, wherever it
stands in the input and whatever follows it, given as much fuel as it is long. -/
def ReadsBack (v : Value) : Prop :=
  ∀ (x suf : Bytes) (p fuel : Nat), x.drop p = encodeFunc v ++ suf →
    (encodeFunc v).length ≤ fuel →
    decodeFunc yieldTuples fuel x p =
      .ok (v.decoded yieldTuples, ((p + (encodeFunc v).length : Nat) : Int))

/-- What the loop of `encode_dict` writes for items already in key order. -/
def itemsEncoding (l : List (Bytes × Value)) : Bytes :=
  l.flatMap fun kv => encodeString kv.1 ++ encodeFunc kv.2

theorem natCast_add_one (p : Nat) : (p : Int) + 1 = ((p + 1 : Nat) : Int) := by
  push_cast; rfl

theorem exists_succ_of_pos {fuel : Nat} (h : 0 < fuel) : ∃ k, fuel = k + 1 :=
  ⟨fuel - 1, by omega⟩

theorem encodeString_cons (k : Bytes) : ∃ c t, encodeString k = c :: t ∧ c.isDigit := by
  obtain ⟨c, t, hct⟩ := List.exists_cons_of_ne_nil (decimal_ne_nil k.length)
  exact ⟨c, t ++ ':' :: k, by simp [encodeString, hct],
    decimal_isDigit _ c (hct ▸ List.mem_cons_self c t)⟩

/-!
# The loops
-/

theorem decodeList_encodeList : ∀ (xs : List Value), (∀ v ∈ xs, ReadsBack yieldTuples v) →
    ∀ (x suf : Bytes) (p fuel : Nat) (r : List Value),
    x.drop p = encodeList xs ++ 'e' :: suf → (encodeList xs).length < fuel →
    decodeList yieldTuples fuel x p r =
      .ok (seqOf yieldTuples (r ++ decodedList yieldTuples xs),
        ((p + (encodeList xs).length + 1 : Nat) : Int))
  | [], _, x, suf, p, fuel, r, h, hf => by
      obtain ⟨fuel, rfl⟩ := exists_succ_of_pos hf
      rw [decodeList_of_end (getItem_of_drop (by simpa using h))]
      simp
  | v :: vs, hv, x, suf, p, fuel, r, h, hf => by
      obtain ⟨fuel, rfl⟩ := exists_succ_of_pos (Nat.lt_of_le_of_lt (Nat.zero_le _) hf)
      obtain ⟨c, t, hct, hce⟩ := encodeFunc_cons v
      have h1 : x.drop p = encodeFunc v ++ (encodeList vs ++ 'e' :: suf) := by
        simpa using h
      have hlen : (encodeList (v :: vs)).length =
          (encodeFunc v).length + (encodeList vs).length := by
        simp
      have hpos : 0 < (encodeFunc v).length := by simp [hct]
      have hc : getItem x p = some c :=
        getItem_of_drop (r := t ++ (encodeList vs ++ 'e' :: suf)) (by rw [h1, hct]; rfl)
      have hhead := hv v (List.mem_cons_self v vs) x _ p fuel h1 (by omega)
      have htail := decodeList_encodeList vs (fun w hw => hv w (List.mem_cons_of_mem v hw))
        x suf _ fuel (r ++ [v.decoded yieldTuples]) (drop_of_drop_append h1) (by omega)
      rw [decodeList_of_item hc hce, hhead, ok_bind]
      simp only [htail, hlen, decodedList_cons, List.append_assoc, List.singleton_append,
        Nat.add_assoc]

theorem decodeDict_itemsEncoding : ∀ (l : List (Bytes × Value)),
    (∀ kv ∈ l, ReadsBack yieldTuples kv.2) → l.Pairwise (fun a b => a.1 < b.1) →
    ∀ (x suf : Bytes) (p fuel : Nat) (lastkey : Option Bytes) (r : List (Bytes × Value)),
    (∀ lk ∈ lastkey, ∀ kv ∈ l, lk < kv.1) →
    x.drop p = itemsEncoding l ++ 'e' :: suf → (itemsEncoding l).length < fuel →
    decodeDict yieldTuples fuel x p lastkey r =
      .ok (.dict (r ++ l.map fun kv => (kv.1, kv.2.decoded yieldTuples)),
        ((p + (itemsEncoding l).length + 1 : Nat) : Int))
  | [], _, _, x, suf, p, fuel, lastkey, r, _, h, hf => by
      obtain ⟨fuel, rfl⟩ := exists_succ_of_pos hf
      rw [decodeDict_of_end (getItem_of_drop (by simpa [itemsEncoding] using h))]
      simp [itemsEncoding]
  | (k, v) :: l, hv, hl, x, suf, p, fuel, lastkey, r, hlast, h, hf => by
      obtain ⟨fuel, rfl⟩ := exists_succ_of_pos (Nat.lt_of_le_of_lt (Nat.zero_le _) hf)
      obtain ⟨c, t, hct, hcd⟩ := encodeString_cons k
      have hce : c ≠ 'e' := by rintro rfl; exact absurd hcd (by decide)
      have h1 : x.drop p =
          encodeString k ++ (encodeFunc v ++ (itemsEncoding l ++ 'e' :: suf)) := by
        simpa [itemsEncoding] using h
      have hlen : (itemsEncoding ((k, v) :: l)).length =
          (encodeString k).length + (encodeFunc v).length + (itemsEncoding l).length := by
        simp [itemsEncoding, Nat.add_assoc]
      have hc : getItem x p = some c :=
        getItem_of_drop (r := t ++ (encodeFunc v ++ (itemsEncoding l ++ 'e' :: suf)))
          (by rw [h1, hct]; rfl)
      have hkey := decodeString_of_drop h1
      have h2 := drop_of_drop_append h1
      have hstr : 0 < (encodeString k).length := by simp [hct]
      have hv' : ReadsBack yieldTuples v := hv (k, v) (List.mem_cons_self _ _)
      have hvpos : 0 < (encodeFunc v).length := by
        obtain ⟨c', t', hv'', -⟩ := encodeFunc_cons v
        simp [hv'']
      have hvalue := hv' x _ _ fuel h2 (by omega)
      have htail := decodeDict_itemsEncoding l (fun kv hkv => hv kv (List.mem_cons_of_mem _ hkv))
        (List.pairwise_cons.mp hl).2 x suf _ fuel (some k) (r ++ [(k, v.decoded yieldTuples)])
        (fun lk hlk kv hkv => Option.mem_some_iff.mp hlk ▸ (List.pairwise_cons.mp hl).1 kv hkv)
        (drop_of_drop_append h2) (by omega)
      rw [decodeDict_of_item hc hce hkey fun lk hlk => hlast lk hlk (k, v) (List.mem_cons_self _ _),
        hvalue, ok_bind]
      dsimp only
      rw [htail]
      simp [hlen, Nat.add_assoc]

/-!
# Every value reads back
-/

/-- Sorting items whose keys are distinct puts the keys in strictly increasing order. -/
theorem insertionSort_keys_lt {α : Type} {items : List (Bytes × α)}
    (h : (items.map Prod.fst).Nodup) :
    (items.insertionSort keyLe).Pairwise fun a b => a.1 < b.1 := by
  have hn : ((items.insertionSort keyLe).map Prod.fst).Nodup :=
    ((List.perm_insertionSort keyLe items).map Prod.fst).nodup_iff.mpr h
  rw [List.Nodup, List.pairwise_map] at hn
  exact ((List.sorted_insertionSort keyLe items).and hn).imp fun h => lt_of_le_of_ne h.1 h.2

theorem getItem_of_drop_cons {x suf t : Bytes} {p : Nat} {c : Char}
    (h : x.drop p = c :: t ++ suf) : getItem x p = some c :=
  getItem_of_drop (r := t ++ suf) h

/-- A list or a tuple reads back when its items do. -/
theorem readsBack_of_seq {v : Value} {xs : List Value}
    (henc : encodeFunc v = 'l' :: encodeList xs ++ ['e'])
    (hdec : v.decoded yieldTuples = seqOf yieldTuples (decodedList yieldTuples xs))
    (hxs : ∀ w ∈ xs, ReadsBack yieldTuples w) : ReadsBack yieldTuples v := by
  intro x suf p fuel h hf
  have h' : x.drop p = 'l' :: (encodeList xs ++ 'e' :: suf) := by simpa [henc] using h
  have hlen : (encodeFunc v).length = (encodeList xs).length + 2 := by simp [henc]
  obtain ⟨fuel, rfl⟩ := exists_succ_of_pos (Nat.lt_of_lt_of_le (by omega) hf)
  rw [decodeFunc_of_list (getItem_of_drop h'), natCast_add_one,
    decodeList_encodeList yieldTuples xs hxs x suf (p + 1) fuel []
      (drop_of_drop_append (s := ['l']) h') (by omega), hlen, hdec, List.nil_append]
  congr 3
  omega

mutual

theorem readsBack : ∀ v : Value, v.keysDistinct → ReadsBack yieldTuples v
  | .int n, _ => fun x suf p fuel h hf => by
      obtain ⟨fuel, rfl⟩ := exists_succ_of_pos (Nat.lt_of_lt_of_le (by simp [encodeFunc, encodeInt]) hf)
      rw [decodeFunc_of_int (getItem_of_drop_cons h), decodeInt_of_drop h]
      rfl
  | .bool b, _ => fun x suf p fuel h hf => by
      obtain ⟨fuel, rfl⟩ := exists_succ_of_pos (Nat.lt_of_lt_of_le (by simp [encodeFunc, encodeInt]) hf)
      rw [decodeFunc_of_int (getItem_of_drop_cons h), decodeInt_of_drop h]
      rfl
  | .str s, _ => fun x suf p fuel h hf => by
      obtain ⟨c, t, hct, hcd⟩ := encodeString_cons s
      obtain ⟨fuel, rfl⟩ := exists_succ_of_pos (Nat.lt_of_lt_of_le (by simp [encodeFunc, hct]) hf)
      rw [decodeFunc_of_digit (getItem_of_drop_cons (t := t) (by rw [h]; exact congrArg (· ++ suf) hct)) hcd,
        decodeString_of_drop h]
      rfl
  | .list xs, hk => readsBack_of_seq yieldTuples rfl rfl (readsBack_list xs hk)
  | .tuple xs, hk => readsBack_of_seq yieldTuples rfl rfl (readsBack_list xs hk)
  | .dict items, hk => fun x suf p fuel h hf => by
      have hk : (items.map Prod.fst).Nodup ∧ itemsKeysDistinct items = true :=
        let h := Bool.and_eq_true_iff.1 hk
        ⟨of_decide_eq_true h.1, h.2⟩
      have henc : encodeFunc (.dict items) =
          'd' :: itemsEncoding (items.insertionSort keyLe) ++ ['e'] :=
        encodeDict_encodeItems items
      have h' : x.drop p = 'd' :: (itemsEncoding (items.insertionSort keyLe) ++ 'e' :: suf) := by
        simpa [henc] using h
      have hlen : (encodeFunc (.dict items)).length =
          (itemsEncoding (items.insertionSort keyLe)).length + 2 := by
        simp [henc]
      obtain ⟨fuel, rfl⟩ := exists_succ_of_pos (Nat.lt_of_lt_of_le (by omega) hf)
      have hread : ∀ kv ∈ items.insertionSort keyLe, ReadsBack yieldTuples kv.2 := fun kv hkv =>
        readsBack_items items hk.2 kv ((List.perm_insertionSort keyLe items).subset hkv)
      rw [decodeFunc_of_dict (getItem_of_drop h'), natCast_add_one,
        decodeDict_itemsEncoding yieldTuples _ hread (insertionSort_keys_lt hk.1) x suf (p + 1)
          fuel none [] (fun _ h => absurd h (Option.not_mem_none _))
          (drop_of_drop_append (s := ['d']) h') (by omega), hlen]
      simp only [Value.decoded, List.nil_append, decodedItems_eq_map, insertionSort_map_snd]
      congr 3
      omega
  | .bencached w, hk => fun x suf p fuel h hf => readsBack w hk x suf p fuel h hf

theorem readsBack_list : ∀ xs : List Value, listKeysDistinct xs →
    ∀ v ∈ xs, ReadsBack yieldTuples v
  | [], _ => fun _ h => absurd h (List.not_mem_nil _)
  | v :: vs, hk => by
      simp only [listKeysDistinct, Bool.and_eq_true] at hk
      intro w hw
      rcases List.mem_cons.mp hw with h | hw
      · exact h ▸ readsBack v hk.1
      · exact readsBack_list vs hk.2 w hw

theorem readsBack_items : ∀ items : List (Bytes × Value), itemsKeysDistinct items →
    ∀ kv ∈ items, ReadsBack yieldTuples kv.2
  | [], _ => fun _ h => absurd h (List.not_mem_nil _)
  | (k, v) :: items, hk => by
      simp only [itemsKeysDistinct, Bool.and_eq_true] at hk
      intro kv hkv
      rcases List.mem_cons.mp hkv with h | hkv
      · exact h ▸ readsBack v hk.1
      · exact readsBack_items items hk.2 kv hkv

end

/-- `BDecoder.bdecode` reads back the encoding of every value whose dicts have
distinct keys, given as much fuel as the encoding is long. -/
theorem BDecoder.bdecode_encodeFunc {v : Value} (hv : v.keysDistinct) {fuel : Nat}
    (hf : (bencode v).length ≤ fuel) :
    BDecoder.bdecode yieldTuples fuel (bencode v) = .ok (v.decoded yieldTuples) := by
  have h := readsBack yieldTuples v hv (bencode v) [] 0 fuel (by simp [bencode]) hf
  simp only [Nat.zero_add, Nat.cast_zero] at h
  rw [BDecoder.bdecode, h]
  simp [bencode]

/-- `bdecode(bencode(v))` is `v` with tuples read as lists, booleans as `0` and `1`,
each `Bencached(bencode(w))` as `w` and dict items in key order, and
`bdecode_as_tuple(bencode(v))` the same with lists read as tuples, for every value
whose dicts have distinct keys.  The decoder needs no more fuel than the encoding is
long. -/
theorem bdecode_bencode (v : Value) (hv : v.keysDistinct) (fuel : Nat)
    (hf : (bencode v).length ≤ fuel) :
    bdecode fuel (bencode v) = .ok (v.decoded false) ∧
      bdecodeAsTuple fuel (bencode v) = .ok (v.decoded true) :=
  ⟨BDecoder.bdecode_encodeFunc false hv hf, BDecoder.bdecode_encodeFunc true hv hf⟩

theorem bdecode_bencode_unsorted_dict :
    (Value.dict [(['b'], .tuple [.int (-7), .bool true]),
        (['a'], .bencached (.str ['e', ':']))]).keysDistinct ∧
      (bdecode (bencode (.dict [(['b'], .tuple [.int (-7), .bool true]),
          (['a'], .bencached (.str ['e', ':']))])).length
        (bencode (.dict [(['b'], .tuple [.int (-7), .bool true]),
          (['a'], .bencached (.str ['e', ':']))])) =
        .ok ((Value.dict [(['b'], .tuple [.int (-7), .bool true]),
          (['a'], .bencached (.str ['e', ':']))]).decoded false) ∧
      bdecodeAsTuple (bencode (.dict [(['b'], .tuple [.int (-7), .bool true]),
          (['a'], .bencached (.str ['e', ':']))])).length
        (bencode (.dict [(['b'], .tuple [.int (-7), .bool true]),
          (['a'], .bencached (.str ['e', ':']))])) =
        .ok ((Value.dict [(['b'], .tuple [.int (-7), .bool true]),
          (['a'], .bencached (.str ['e', ':']))]).decoded true)) :=
  ⟨by decide, bdecode_bencode _ (by decide) _ le_rfl⟩

end Bencode
end Bazaar
