import Bazaar.Bencode.RoundTrip

/-!
# What the decoder returns is read back from its own encoding

The decoder does not insist on the canonical encoding: `int()` lets a `+` sign, blanks
and leading zeros through in places (see `Bencode.Malformed`).  What it returns is
canonical all the same.  It builds integers, strings, lists (tuples when it yields
tuples) and dicts whose keys come in strictly increasing order, since `decode_dict`
raises on a key not above the one before.  Such a value is its own `Value.decoded`
and has distinct keys, so by `bdecode_bencode` its encoding decodes to it again:
decoding, encoding and decoding once more gives what the first decoding gave.
-/

namespace Bazaar
namespace Bencode

open Python

variable (yieldTuples : Bool)

mutual

/-- A value as the decoder builds it: no booleans and no `Bencached`, sequences of the
one kind the decoder yields, dict keys strictly increasing. -/
def Value.canonical : Value → Bool
  | .int _ => true
  | .bool _ => false
  | .str _ => true
  | .list xs => !yieldTuples && listCanonical xs
  | .tuple xs => yieldTuples && listCanonical xs
  | .dict items => decide ((items.map Prod.fst).Pairwise (· < ·)) && itemsCanonical items
  | .bencached _ => false

/-- `Value.canonical` for every element of a list. -/
def listCanonical : List Value → Bool
  | [] => true
  | v :: vs => v.canonical && listCanonical vs

/-- `Value.canonical` for every value of a dict. -/
def itemsCanonical : List (Bytes × Value) → Bool
  | [] => true
  | (_, v) :: items => v.canonical && itemsCanonical items

end

theorem listCanonical_append (r : List Value) (v : Value) :
    listCanonical yieldTuples (r ++ [v]) = (listCanonical yieldTuples r && v.canonical yieldTuples) := by
  induction r with
  | nil => simp [listCanonical]
  | cons w r ih => simp [listCanonical, ih, Bool.and_assoc]

theorem itemsCanonical_append (r : List (Bytes × Value)) (k : Bytes) (v : Value) :
    itemsCanonical yieldTuples (r ++ [(k, v)]) =
      (itemsCanonical yieldTuples r && v.canonical yieldTuples) := by
  induction r with
  | nil => simp [itemsCanonical]
  | cons kw r ih => simp [itemsCanonical, ih, Bool.and_assoc]

theorem seqOf_canonical {r : List Value} (h : listCanonical yieldTuples r) :
    (seqOf yieldTuples r).canonical yieldTuples := by
  cases yieldTuples <;> simpa [seqOf, Value.canonical] using h

/-!
# The decoder builds canonical values
-/

theorem decodeInt_canonical {x : Bytes} {f f' : Int} {v : Value}
    (h : decodeInt x f = .ok (v, f')) : v.canonical yieldTuples := by
  unfold decodeInt at h
  simp only [bind_eq_ok] at h
  obtain ⟨newf, -, n, -, c, -, h⟩ := h
  suffices v = .int n by rw [this]; rfl
  split at h
  · obtain ⟨d, -, h⟩ := bind_eq_ok.1 h
    split at h <;> cases h
    rfl
  · split at h <;> cases h
    rfl

/-- What the dict loop keeps of the items `r` read so far: their keys strictly increase
and none is above `lastkey`, which is `none` only before the first. -/
def DictRead (lastkey : Option Bytes) (r : List (Bytes × Value)) : Prop :=
  (r.map Prod.fst).Pairwise (· < ·) ∧ ∀ kv ∈ r, ∃ lk, lastkey = some lk ∧ kv.1 ≤ lk

theorem DictRead.nil : DictRead none [] := ⟨.nil, fun _ h => absurd h (List.not_mem_nil _)⟩

/-- A key above `lastkey` extends what the loop has read. -/
theorem DictRead.append {lastkey : Option Bytes} {r : List (Bytes × Value)} {k : Bytes}
    (h : DictRead lastkey r) (hlt : ∀ lk ∈ lastkey, lk < k) (v : Value) :
    DictRead (some k) (r ++ [(k, v)]) := by
  have hr : ∀ kv ∈ r, kv.1 < k := fun kv hkv => by
    obtain ⟨lk, rfl, hle⟩ := h.2 kv hkv
    exact lt_of_le_of_lt hle (hlt lk rfl)
  refine ⟨?_, fun kv hkv => ⟨k, rfl, ?_⟩⟩
  · rw [List.map_append, List.pairwise_append]
    refine ⟨h.1, List.pairwise_singleton _ _, fun a ha b hb => ?_⟩
    obtain ⟨kv, hkv, rfl⟩ := List.mem_map.1 ha
    obtain ⟨_, hkv', rfl⟩ := List.mem_map.1 hb
    rw [List.mem_singleton.1 hkv']
    exact hr kv hkv
  · rcases List.mem_append.1 hkv with hkv | hkv
    · exact le_of_lt (hr kv hkv)
    · rw [List.mem_singleton.1 hkv]

/-- One round of the dict loop that returns: the end marker, or a key above `lastkey`
followed by a value. -/
theorem decodeDict_ok {fuel : Nat} {x : Bytes} {f : Int} {lastkey : Option Bytes}
    {r : List (Bytes × Value)} {res : Value × Int}
    (h : decodeDict yieldTuples (fuel + 1) x f lastkey r = .ok res) :
    res = (.dict r, f + 1) ∨ ∃ k g w g', (∀ lk ∈ lastkey, lk < k) ∧
      decodeFunc yieldTuples fuel x g = .ok (w, g') ∧
      decodeDict yieldTuples fuel x g' (some k) (r ++ [(k, w)]) = .ok res := by
  cases hc : getItem x f with
  | none => simp only [decodeDict, hc, orRaise_none, error_bind, reduceCtorEq] at h
  | some c =>
    by_cases he : c = 'e'
    · subst he
      exact .inl (Except.ok.inj ((decodeDict_of_end hc).symm.trans h)).symm
    cases hk : decodeString x f with
    | error e =>
      simp only [decodeDict, hc, orRaise_some, ok_bind, he, hk, ne_eq, not_false_eq_true,
        if_true, error_bind, reduceCtorEq] at h
    | ok kg =>
      obtain ⟨k, g⟩ := kg
      by_cases hlt : ∀ lk ∈ lastkey, lk < k
      · obtain ⟨⟨w, g'⟩, hw, h⟩ := bind_eq_ok.1 (decodeDict_of_item hc he hk hlt ▸ h)
        exact .inr ⟨k, g, w, g', hlt, hw, h⟩
      · obtain ⟨lk, rfl, hle⟩ : ∃ lk, lastkey = some lk ∧ k ≤ lk := by
          simpa [Option.mem_def] using hlt
        simp only [decodeDict, hc, orRaise_some, ok_bind, he, hk, hle, ne_eq, not_false_eq_true,
          if_true, throw_eq_error, error_bind, reduceCtorEq] at h

/-- Every value the decoder returns is canonical: by induction on the fuel, for the
dispatch and for both loops at once. -/
theorem decode_canonical : ∀ fuel : Nat,
    (∀ x f v f', decodeFunc yieldTuples fuel x f = .ok (v, f') → v.canonical yieldTuples) ∧
    (∀ x f r v f', listCanonical yieldTuples r →
      decodeList yieldTuples fuel x f r = .ok (v, f') → v.canonical yieldTuples) ∧
    (∀ x f lastkey r v f', DictRead lastkey r → itemsCanonical yieldTuples r →
      decodeDict yieldTuples fuel x f lastkey r = .ok (v, f') → v.canonical yieldTuples)
  | 0 => ⟨fun _ _ _ _ h => (nomatch h), fun _ _ _ _ _ _ h => (nomatch h),
      fun _ _ _ _ _ _ _ _ h => (nomatch h)⟩
  | fuel + 1 => by
    obtain ⟨ihF, ihL, ihD⟩ := decode_canonical fuel
    refine ⟨fun x f v f' h => ?_, fun x f r v f' hr h => ?_, fun x f lastkey r v f' hd hr h => ?_⟩
    · cases hc : getItem x f with
      | none => simp [decodeFunc, hc] at h
      | some c =>
        by_cases hl : c = 'l'
        · subst hl
          exact ihL _ _ [] _ _ rfl (decodeFunc_of_list hc ▸ h)
        by_cases hd : c = 'd'
        · subst hd
          exact ihD _ _ none [] _ _ DictRead.nil rfl (decodeFunc_of_dict hc ▸ h)
        by_cases hi : c = 'i'
        · subst hi
          exact decodeInt_canonical yieldTuples (decodeFunc_of_int hc ▸ h)
        by_cases hdig : c.isDigit
        · obtain ⟨⟨s, g⟩, -, h⟩ := bind_eq_ok.1 (decodeFunc_of_digit hc hdig ▸ h)
          cases h
          rfl
        · simp [decodeFunc, hc, hl, hd, hi, hdig] at h
    · cases hc : getItem x f with
      | none => simp [decodeList, hc] at h
      | some c =>
        by_cases he : c = 'e'
        · subst he
          cases (decodeList_of_end hc).symm.trans h
          exact seqOf_canonical yieldTuples hr
        · obtain ⟨⟨w, g⟩, hw, h⟩ := bind_eq_ok.1 (decodeList_of_item hc he ▸ h)
          refine ihL _ _ _ _ _ ?_ h
          simp [listCanonical_append, hr, ihF _ _ _ _ hw]
    · rcases decodeDict_ok yieldTuples h with h | ⟨k, g, w, g', hlt, hw, h⟩
      · cases h
        simp [Value.canonical, hd.1, hr]
      · exact ihD _ _ _ _ _ _ (hd.append hlt w)
          (by simp [itemsCanonical_append, hr, ihF _ _ _ _ hw]) h

/-!
# A canonical value is what its encoding decodes to
-/

mutual

theorem canonical_decoded : ∀ v : Value, v.canonical yieldTuples →
    v.keysDistinct ∧ v.decoded yieldTuples = v
  | .int _, _ => ⟨rfl, rfl⟩
  | .str _, _ => ⟨rfl, rfl⟩
  | .list xs, h => by
      obtain ⟨hy, hxs⟩ := Bool.and_eq_true_iff.1 h
      obtain ⟨hk, hd⟩ := listCanonical_decoded xs hxs
      refine ⟨hk, ?_⟩
      rw [Value.decoded, hd, seqOf, if_neg (by simpa using hy)]
  | .tuple xs, h => by
      obtain ⟨hy, hxs⟩ := Bool.and_eq_true_iff.1 h
      obtain ⟨hk, hd⟩ := listCanonical_decoded xs hxs
      refine ⟨hk, ?_⟩
      rw [Value.decoded, hd, seqOf, if_pos hy]
  | .dict items, h => by
      obtain ⟨hlt, hitems⟩ := Bool.and_eq_true_iff.1 h
      have hlt : (items.map Prod.fst).Pairwise (· < ·) := of_decide_eq_true hlt
      obtain ⟨hk, hd⟩ := itemsCanonical_decoded items hitems
      have hsorted : items.Sorted keyLe :=
        (List.pairwise_map.1 hlt).imp fun hab => le_of_lt hab
      have hnodup : (items.map Prod.fst).Nodup := hlt.imp ne_of_lt
      refine ⟨Bool.and_eq_true_iff.2 ⟨decide_eq_true hnodup, hk⟩, ?_⟩
      rw [Value.decoded, hd, hsorted.insertionSort_eq]
  | .bool _, h => absurd h (by simp [Value.canonical])
  | .bencached _, h => absurd h (by simp [Value.canonical])

theorem listCanonical_decoded : ∀ xs : List Value, listCanonical yieldTuples xs →
    listKeysDistinct xs ∧ decodedList yieldTuples xs = xs
  | [], _ => ⟨rfl, rfl⟩
  | v :: vs, h => by
      obtain ⟨hv, hvs⟩ := Bool.and_eq_true_iff.1 h
      obtain ⟨hk, hd⟩ := canonical_decoded v hv
      obtain ⟨hks, hds⟩ := listCanonical_decoded vs hvs
      simp [listKeysDistinct, hk, hks, hd, hds]

theorem itemsCanonical_decoded : ∀ items : List (Bytes × Value), itemsCanonical yieldTuples items →
    itemsKeysDistinct items ∧ decodedItems yieldTuples items = items
  | [], _ => ⟨rfl, rfl⟩
  | (k, v) :: items, h => by
      obtain ⟨hv, hitems⟩ := Bool.and_eq_true_iff.1 h
      obtain ⟨hk, hd⟩ := canonical_decoded v hv
      obtain ⟨hks, hds⟩ := itemsCanonical_decoded items hitems
      simp [itemsKeysDistinct, decodedItems, hk, hks, hd, hds]

end

theorem BDecoder.bdecode_ok {fuel : Nat} {x : Bytes} {v : Value}
    (h : BDecoder.bdecode yieldTuples fuel x = .ok v) :
    ∃ l, decodeFunc yieldTuples fuel x 0 = .ok (v, l) := by
  unfold BDecoder.bdecode at h
  split at h
  · next r l hr =>
    split at h
    · cases h
    · cases h
      exact ⟨l, hr⟩
  all_goals cases h

/-- Whatever `BDecoder.bdecode` returns, encoded again, decodes to itself, given as much
fuel as the encoding is long: for `bdecode` and `bdecode_as_tuple` alike. -/
theorem BDecoder.bdecode_reencode {fuel fuel' : Nat} {x : Bytes} {v : Value}
    (h : BDecoder.bdecode yieldTuples fuel x = .ok v) (hf : (bencode v).length ≤ fuel') :
    BDecoder.bdecode yieldTuples fuel' (bencode v) = .ok v := by
  obtain ⟨l, hl⟩ := BDecoder.bdecode_ok yieldTuples h
  obtain ⟨hk, hd⟩ := canonical_decoded yieldTuples v ((decode_canonical yieldTuples fuel).1 x 0 v l hl)
  rw [BDecoder.bdecode_encodeFunc yieldTuples hk hf, hd]

/-- `i+05e` decodes to `5`, whose encoding `i5e` decodes to `5` again. -/
theorem bdecode_reencode_plus :
    BDecoder.bdecode false 1 ['i', '+', '0', '5', 'e'] = .ok (.int 5) ∧
      BDecoder.bdecode false 3 (bencode (.int 5)) = .ok (.int 5) :=
  ⟨rfl, @BDecoder.bdecode_reencode false 1 3 ['i', '+', '0', '5', 'e'] _ rfl
    (by simp [bencode, encodeFunc, encodeInt, Python.str, decimal, digitChar])⟩

end Bencode
end Bazaar
