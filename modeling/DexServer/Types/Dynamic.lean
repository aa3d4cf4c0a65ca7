import DexServer.Types.Json
import DexServer.Types.Operator

/-!
# Values of dynamic type

What `encoding/json` makes of a text when it is decoded into an `interface{}`: a number becomes a
`float64`, whatever it was encoded from. A type assertion on a value of another type is a panic.
-/

namespace Dex

/-- A value in an `interface{}`. -/
inductive Dyn
  | nil
  | bool (b : Bool)
  | int (n : Int)
  | float64 (x : Decimal)
  | string (s : String)
  | slice (xs : List Dyn)
  | map (m : List (String × Dyn))

mutual

/-- `json.Unmarshal` of a value. -/
def Json.dyn : Json → Dyn
  | .null => .nil
  | .bool b => .bool b
  | .num x => .float64 x
  | .str s => .string s
  | .arr xs => .slice (dynList xs)
  | .obj fields => .map (dynFields fields)

def Json.dynList : List Json → List Dyn
  | [] => []
  | x :: xs => x.dyn :: dynList xs

def Json.dynFields : List (String × Json) → List (String × Dyn)
  | [] => []
  | (k, v) :: fields => (k, v.dyn) :: dynFields fields

end

mutual

/-- `json.Marshal` of a value. -/
def Dyn.json : Dyn → Json
  | .nil => .null
  | .bool b => .bool b
  | .int n => .num ⟨n, 0⟩
  | .float64 x => .num x
  | .string s => .str s
  | .slice xs => .arr (jsonList xs)
  | .map m => .obj (jsonFields m)

def Dyn.jsonList : List Dyn → List Json
  | [] => []
  | x :: xs => x.json :: jsonList xs

def Dyn.jsonFields : List (String × Dyn) → List (String × Json)
  | [] => []
  | (k, v) :: m => (k, v.json) :: jsonFields m

end

namespace Dyn

/-- `m[key]`: the last of equal keys is kept, a missing one reads as `nil`. -/
def get (m : List (String × Dyn)) (key : String) : Dyn := (m.reverse.lookup key).getD .nil

/-- The name of the type of a value. -/
def typeName : Dyn → String
  | nil => "nil"
  | bool _ => "bool"
  | int _ => "int"
  | float64 _ => "float64"
  | string _ => "string"
  | slice _ => "[]interface \x7b\x7d"
  | map _ => "map[string]interface \x7b\x7d"

/-- A type assertion that fails. -/
def conversion (v : Dyn) (type : String) : Err :=
  .panic ("interface conversion: interface \x7b\x7d is " ++ v.typeName ++ ", not " ++ type)

/-- `v.(string)`. -/
def asString : Dyn → Except Err String
  | string s => .ok s
  | v => .error (v.conversion "string")

/-- `v.(int)`. -/
def asInt : Dyn → Except Err Int
  | int n => .ok n
  | v => .error (v.conversion "int")

/-- `v.(bool)`. -/
def asBool : Dyn → Except Err Bool
  | bool b => .ok b
  | v => .error (v.conversion "bool")

/-- `v.(map[string]interface{})`. -/
def asMap : Dyn → Except Err (List (String × Dyn))
  | map m => .ok m
  | v => .error (v.conversion "map[string]interface \x7b\x7d")

/-- `if v != nil { … = set(v.(T)) }`, where `assert` is the assertion. -/
def ifSet {α β : Type} (assert : Dyn → Except Err β) (v : Dyn) (a : α) (set : β → α) :
    Except Err α :=
  match v with
  | nil => .ok a
  | v => (assert v).map set

theorem ifSet_keeps {α β : Type} {assert : Dyn → Except Err β} {v : Dyn} {a a' : α} {set : β → α}
    (P : α → Prop) (ha : P a) (hset : ∀ b, P (set b))
    (h : v.ifSet assert a set = .ok a') : P a' := by
  unfold ifSet at h
  split at h
  · cases h
    exact ha
  · cases hb : assert v with
    | error e =>
      rw [hb] at h
      cases h
    | ok b =>
      rw [hb] at h
      cases h
      exact hset b

end Dyn

/-- `json.Unmarshal` into a `map[string]interface{}`. -/
def Json.dynMap (j : Json) : Except Err (List (String × Dyn)) :=
  (j.toMap.map Json.dynFields).mapError .msg

theorem Json.dynFields_eq_map (m : List (String × Json)) :
    Json.dynFields m = m.map fun p => (p.1, p.2.dyn) := by
  induction m with
  | nil => rw [Json.dynFields, List.map_nil]
  | cons p m ih => rw [Json.dynFields, List.map_cons, ih]

theorem Json.dyn_str_asString (s : String) : (Json.str s).dyn.asString = .ok s := rfl

/-- No number is an `int`: what is set if it is one stays as it is. -/
theorem Json.ifSet_asInt_eq {α : Type} {j : Json} {a b : α} {set : Int → α}
    (h : j.dyn.ifSet Dyn.asInt a set = .ok b) : b = a := by
  cases j with
  | null =>
    cases h
    rfl
  | _ => cases h

theorem Json.dynMap_eq_ok {j : Json} {pair : List (String × Dyn)} (h : j.dynMap = .ok pair) :
    ∃ m, pair = Json.dynFields m := by
  cases j with
  | null | obj =>
    cases h
    exact ⟨_, rfl⟩
  | _ => cases h

theorem Json.get_dynFields (m : List (String × Json)) (key : String) :
    Dyn.get (Json.dynFields m) key = (Json.get m key).dyn := by
  rw [Json.dynFields_eq_map, Dyn.get, Json.get, ← List.map_reverse]
  induction m.reverse with
  | nil =>
    simp only [List.map_nil, List.lookup_nil, Option.getD_none]
    rw [Json.dyn]
  | cons p ps ih =>
    rw [List.map_cons, List.lookup_cons, List.lookup_cons]
    cases key == p.1 with
    | true => rfl
    | false => exact ih

end Dex
