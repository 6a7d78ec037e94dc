import Bazaar.Bencode.RoundTrip

/-!
# Input the decoder should reject

`decode_int` and `decode_string` check for a leading `0` and for `-0`, but take the
numeral itself from Python's `int()`, which also accepts a `+` sign and blanks.
`decode_dict` reads each key with `decode_string` directly, without the digit that
`decode_func` requires before it dispatches to `decode_string`, so a key may have a
negative length and send the position back.
-/

namespace Bazaar
namespace Bencode

open Python

/-!
# A negative key length
-/

/-- The decoder called at the start of `d-4:`: the key `-4:` is read as the empty
string ending at position `0`, where the same dict starts again. -/
theorem decodeFunc_dict_negative_key (yieldTuples : Bool) :
    ∀ fuel, decodeFunc yieldTuples fuel ['d', '-', '4', ':'] 0 = .error .exhausted ∧
      decodeFunc yieldTuples (fuel + 1) ['d', '-', '4', ':'] 0 = .error .exhausted
  | 0 => ⟨rfl, rfl⟩
  | fuel + 1 => by
      refine ⟨(decodeFunc_dict_negative_key yieldTuples fuel).2, ?_⟩
      rw [decodeFunc_of_dict (x := ['d', '-', '4', ':']) (f := 0) (by decide),
        decodeDict_of_item (x := ['d', '-', '4', ':']) (f := 0 + 1) (c := '-') (by decide)
          (by decide) (show decodeString ['d', '-', '4', ':'] (0 + 1) = .ok ([], 0) by rfl)
          fun _ h => absurd h (Option.not_mem_none _)]
      simp [(decodeFunc_dict_negative_key yieldTuples fuel).1]

/-- On `d-4:` `decode_string` moves the position back from `1` to `0`, and `bdecode`
never returns, whatever fuel it is given. -/
theorem bdecode_dict_negative_key_length :
    decodeString ['d', '-', '4', ':'] 1 = .ok ([], 0) ∧
      ∀ fuel, bdecode fuel ['d', '-', '4', ':'] = .error .exhausted := by
  refine ⟨rfl, fun fuel => ?_⟩
  simp [bdecode, BDecoder.bdecode, (decodeFunc_dict_negative_key false fuel).1]

/-!
# A numeral with a sign
-/

/-- `bdecode` accepts `i+1e` and returns `1`, whose encoding is `i1e`. -/
theorem bdecode_plus_sign :
    bdecode 1 ['i', '+', '1', 'e'] = .ok (.int 1) ∧
      bencode (.int 1) = ['i', '1', 'e'] := by
  refine ⟨rfl, ?_⟩
  simp [bencode, encodeFunc, encodeInt, Python.str, decimal, digitChar]

end Bencode
end Bazaar
