import DexServer.Types.Crypto

/-!
# JSON values, and numbers as text

What `encoding/json` makes of a message when it is decoded into an `interface{}`, and the type
assertions of the code. `toBigInt` reads a number from its decimal text.
-/

namespace Dex

/-- A number as it is written: `mantissa * 10 ^ exponent`. -/
structure Decimal where
  mantissa : Int
  exponent : Int
  deriving DecidableEq, Repr

inductive Json
  | null
  | bool (b : Bool)
  | num (x : Decimal)
  | str (s : String)
  | arr (xs : List Json)
  | obj (fields : List (String × Json))

namespace Json

/-- `m[key]`: the last of equal keys is kept, a missing one reads as `nil`. -/
def get (m : List (String × Json)) (key : String) : Json := (m.reverse.lookup key).getD .null

theorem lookup_ne {key k : String} (h : key ≠ k) (v : Json) (m : List (String × Json)) :
    List.lookup key ((k, v) :: m) = List.lookup key m := by
  have hb : (key == k) = false := by simpa using h
  rw [List.lookup_cons, hb]

theorem get_optional {α : Type} (m : List (String × Json)) (key : String) (f : α → Json)
    (v : Option α) : get (m ++ (v.map fun a => (key, f a)).toList) key =
      match v with
      | some a => f a
      | none => get m key := by
  cases v with
  | none => simp
  | some a => simp [get]

theorem get_optional_ne {α : Type} {key k : String} (h : key ≠ k) (m : List (String × Json))
    (f : α → Json) (v : Option α) :
    get (m ++ (v.map fun a => (k, f a)).toList) key = get m key := by
  cases v with
  | none => simp
  | some a => simp [get, lookup_ne h]

/-- The error of decoding a value into a map. -/
def notAMap (value : String) : String :=
  "json: cannot unmarshal " ++ value ++ " into Go value of type map[string]interface \x7b\x7d"

/-- `json.Unmarshal` into a `map[string]interface{}`: `null` leaves it empty. -/
def toMap : Json → Except String (List (String × Json))
  | obj fields => .ok fields
  | null => .ok []
  | bool _ => .error (notAMap "bool")
  | num _ => .error (notAMap "number")
  | str _ => .error (notAMap "string")
  | arr _ => .error (notAMap "array")

/-- `v == nil`. -/
def isNull : Json → Bool
  | null => true
  | _ => false

/-- `v.(string)`. -/
def asString : Json → Except String String
  | str s => .ok s
  | _ => .error "interface conversion"

/-- `v.(float64)`. -/
def asFloat64 : Json → Except String Decimal
  | num x => .ok x
  | _ => .error "interface conversion"

/-- `v.(map[string]interface{})`. -/
def asMap : Json → Except String (List (String × Json))
  | obj fields => .ok fields
  | _ => .error "interface conversion"

end Json

/-- A signature under the keys `v`, `r`, `s`. -/
def Json.asSignature (v r s : String) (eth : Eth) (byteOf : Decimal → Byte) (signature : Json) :
    Except String Signature := do
  let sig ← signature.asMap
  let v ← (Json.get sig v).asFloat64
  let r ← (Json.get sig r).asString
  let s ← (Json.get sig s).asString
  pure ⟨byteOf v, eth.hexToHash r, eth.hexToHash s⟩

/-- The digits of a decimal number. -/
def digits (ds : List Char) : Option Nat :=
  if ds ≠ [] ∧ ds.all Char.isDigit then some (Nat.ofDigitChars 10 ds 0) else none

/-- `SetString(s, 10)`, when it succeeds. -/
def setString (s : String) : Option Int :=
  match s.toList with
  | '-' :: ds => (digits ds).map fun n => -(n : Int)
  | '+' :: ds => (digits ds).map fun n => (n : Int)
  | ds => (digits ds).map fun n => (n : Int)

/-- `math.ToBigInt`: it does not look whether `SetString` fails, which leaves the value
undefined. -/
def toBigInt (undefinedInt : String → Int) (s : String) : Int := (setString s).getD (undefinedInt s)

/-- `big.Int.String` of a number that may be nil. -/
def bigString : Option Int → String
  | some n => toString n
  | none => "<nil>"

/-! ## The text of a number reads back -/

theorem digits_toDigits (n : Nat) : digits (Nat.toDigits 10 n) = some n := by
  have hne : Nat.toDigits 10 n ≠ [] := Nat.toDigits_ne_nil
  have hall : (Nat.toDigits 10 n).all Char.isDigit = true :=
    List.all_eq_true.2 fun c hc => Nat.isDigit_of_mem_toDigits (by decide) (by decide) hc
  rw [digits, if_pos ⟨hne, hall⟩, Nat.ofDigitChars_ten_toDigits]

theorem not_mem_toDigits {c : Char} (hc : c.isDigit = false) (n : Nat) (ds : List Char) :
    Nat.toDigits 10 n ≠ c :: ds := by
  intro h
  have hd : c.isDigit := Nat.isDigit_of_mem_toDigits (by decide) (by decide)
    (h ▸ List.mem_cons_self : c ∈ Nat.toDigits 10 n)
  rw [hc] at hd
  cases hd

theorem setString_repr (n : Nat) : setString n.repr = some (n : Int) := by
  unfold setString
  rw [Nat.toList_repr]
  split
  · exact absurd ‹_› (not_mem_toDigits (by decide) n _)
  · exact absurd ‹_› (not_mem_toDigits (by decide) n _)
  · rw [digits_toDigits]
    rfl

theorem setString_toString (n : Int) : setString (toString n) = some n := by
  cases n with
  | ofNat n => exact setString_repr n
  | negSucc n =>
    have hlist : (toString (Int.negSucc n)).toList = '-' :: Nat.toDigits 10 (n + 1) := by
      show ("-" ++ (n + 1).repr).toList = _
      rw [String.toList_append, Nat.toList_repr]
      rfl
    unfold setString
    rw [hlist]
    simp only [digits_toDigits]
    rfl

/-- A nil number is written as a text that is none. -/
theorem setString_bigString (n : Option Int) : setString (bigString n) = n := by
  cases n with
  | none => decide
  | some n => exact setString_toString n

@[simp] theorem toBigInt_repr (f : String → Int) (n : Int) : toBigInt f n.repr = n := by
  rw [toBigInt, ← Int.toString_eq_repr, setString_toString]
  rfl

end Dex
