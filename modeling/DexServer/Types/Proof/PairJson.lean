import DexServer.Sample
import DexServer.Types.PairJson

/-!
# Pairs and tokens do not read back from JSON

The first number of a pair or of a token is a `float64` in the map it is decoded into, and the
decoder asserts that it is an `int`: it panics on whatever the server writes.
-/

namespace Dex

open Lib

/-- The panic of `v.(int)` on a number. -/
def notAnInt : Err := .panic "interface conversion: interface \x7b\x7d is float64, not int"

theorem Json.dynMap_obj (m : List (String × Json)) : (Json.obj m).dynMap = .ok (Json.dynFields m) :=
  rfl

theorem Json.get_fees {key : String} (hm : key ≠ "makeFee") (ht : key ≠ "takeFee")
    (m : List (String × Json)) (makeFee takeFee : Option Int) :
    Json.get (m ++ optionalNumber "makeFee" makeFee ++ optionalNumber "takeFee" takeFee) key =
      Json.get m key := by
  unfold optionalNumber
  rw [Json.get_optional_ne ht, Json.get_optional_ne hm]

theorem PairValue.unmarshalJSON_marshalJSON (c : Codec) (p receiver : PairValue) :
    receiver.unmarshalJSON c.eth (p.marshalJSON c) = .error notAnInt := by
  unfold unmarshalJSON marshalJSON
  rw [Json.dynMap_obj, ok_bind]
  simp only [Json.get_dynFields, ne_eq, String.reduceEq, not_false_eq_true, Json.get_fees]
  rfl

/-- An id of another length than 12 bytes panics before. -/
theorem objectIdHex_hexText (id : List Byte) :
    objectIdHex (hexText id) =
      if id.length = 12 then .ok id
      else .error (.panic ("invalid input to ObjectIdHex: " ++ (hexText id).quote)) := by
  rw [objectIdHex, hexBytes_hexText]

theorem TokenValue.unmarshalJSON_number (c : Codec) (receiver : TokenValue)
    {m : List (String × Json)} {id symbol : String} {decimals : Decimal}
    (hid : Json.get m "id" = .str id) (hsymbol : Json.get m "symbol" = .str symbol)
    (hdecimals : Json.get m "decimals" = .num decimals) :
    receiver.unmarshalJSON c (.obj m) = (objectIdHex id).bind fun _ => .error notAnInt := by
  unfold unmarshalJSON
  rw [Json.dynMap_obj, ok_bind, Json.get_dynFields, Json.get_dynFields, Json.get_dynFields, hid,
    hsymbol, hdecimals, Json.dyn_str_asString, ok_bind]
  cases objectIdHex id <;> rfl

theorem TokenValue.unmarshalJSON_marshalJSON (c : Codec) (t receiver : TokenValue) :
    receiver.unmarshalJSON c (t.marshalJSON c) =
      .error (if t.id.length = 12 then notAnInt
        else .panic ("invalid input to ObjectIdHex: " ++ (hexText t.id).quote)) := by
  rw [marshalJSON, unmarshalJSON_number c receiver (Json.get_fees (by decide) (by decide) _ _ _)
    (Json.get_fees (by decide) (by decide) _ _ _) (Json.get_fees (by decide) (by decide) _ _ _),
    objectIdHex_hexText]
  split <;> rfl

/-- Whatever the server writes for a pair or a token, reading it is a panic. -/
theorem pairs_tokens_never_read (c : Codec) :
    (∀ p receiver : PairValue, receiver.unmarshalJSON c.eth (p.marshalJSON c) = .error notAnInt) ∧
      ∀ t receiver : TokenValue, ∃ msg, receiver.unmarshalJSON c (t.marshalJSON c) =
        .error (.panic msg) := by
  refine ⟨PairValue.unmarshalJSON_marshalJSON c, fun t receiver => ?_⟩
  rw [TokenValue.unmarshalJSON_marshalJSON]
  split
  · exact ⟨_, rfl⟩
  · exact ⟨_, rfl⟩

def Env.sampleCodec : Codec := (Env.sample .stored).codec

/-- A pair of two tokens of 18 decimals, as it is written. -/
theorem pair_json_panics :
    let p : PairValue := { PairValue.zero with
      baseTokenSymbol := "ZRX", baseTokenAddress := 3, baseTokenDecimals := 18,
      quoteTokenSymbol := "WETH", quoteTokenAddress := 4, quoteTokenDecimals := 18,
      makeFee := some 1, takeFee := some 2 }
    PairValue.zero.unmarshalJSON Env.sampleCodec.eth (p.marshalJSON Env.sampleCodec) =
      .error notAnInt :=
  PairValue.unmarshalJSON_marshalJSON _ _ _

end Dex
