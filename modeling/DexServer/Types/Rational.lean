import DexServer.Lib.Numeral

/-!
# Rational numbers from text (`big.Rat.SetString`)

What `math/big` makes of a text: a fraction `a/b` of whole numbers, or a number with an optional
point and an optional exponent. Both may be written in base 2, 8, 10 or 16, with `_` between the
digits. `RatText.scan` reads the text, `RatText.rat` computes the number. A text is the list of its
characters: those outside of ASCII are no part of any number, so the bytes they are made of do not
matter.
-/

namespace Dex

open Lib

/-- The bases that a prefix can choose. -/
inductive Radix
  | bin
  | oct
  | dec
  | hex
  deriving DecidableEq, Repr

def Radix.base : Radix → Nat
  | bin => 2
  | oct => 8
  | dec => 10
  | hex => 16

/-- The letter of a prefix, behind a zero. -/
def basePrefix : Char → Option Radix
  | 'b' | 'B' => some .bin
  | 'o' | 'O' => some .oct
  | 'x' | 'X' => some .hex
  | _ => none

/-- The value of a digit; `MaxBase + 1` for what is no digit of any base. -/
def digitVal (c : Char) : Nat :=
  if '0' ≤ c ∧ c ≤ '9' then c.toNat - '0'.toNat
  else if 'a' ≤ c ∧ c ≤ 'z' then c.toNat - 'a'.toNat + 10
  else if 'A' ≤ c ∧ c ≤ 'Z' then c.toNat - 'A'.toNat + 10
  else 63

def numerals : Alphabet Char := ⟨digitVal, '_', '.'⟩

/-- A number as `nat.scan` returns it. Its `count` is that of the digits, or, where there was a
point, minus that of the digits behind it. -/
structure NatText where
  value : Nat
  radix : Radix
  count : Int
  deriving DecidableEq, Repr

/-- The number of the digits that were read, of which there must be one. -/
def NatText.ofScanned (radix : Radix) (out : Scanned × List Char) : Option (NatText × List Char) :=
  if out.1.count = 0 then none
  else
    let count : Int :=
      match out.1.point with
      | none => out.1.count
      | some dp => dp - out.1.count
    some (⟨out.1.value, radix, count⟩, out.2)

/-- `nat.scan` with base 0. The source remembers a separator out of place until the digits end and
fails then; here the scan fails at once. -/
def natScan (fracOk : Bool) : List Char → Option (NatText × List Char)
  | '0' :: c :: r =>
    match basePrefix c with
    | some radix => scan numerals radix.base fracOk .digit .start r >>= NatText.ofScanned radix
    | none =>
      if fracOk then scan numerals 10 true .digit ⟨0, 1, none⟩ (c :: r) >>= NatText.ofScanned .dec
      else do
        -- a leading zero is the prefix of an octal number, unless it is the whole number
        let (s, r) ← scan numerals 8 false .digit .start (c :: r)
        if s.count = 0 then some (⟨0, .dec, 1⟩, r) else NatText.ofScanned .oct (s, r)
  | r => scan numerals 10 fracOk .other .start r >>= NatText.ofScanned .dec

def scanSign : List Char → Bool × List Char
  | '+' :: r => (false, r)
  | '-' :: r => (true, r)
  | r => (false, r)

def signed (neg : Bool) (n : Nat) : Int :=
  if neg then -n else n

/-- The base that an exponent is for. -/
inductive ExponentBase
  | two
  | ten
  deriving DecidableEq, Repr

def ExponentBase.base : ExponentBase → Nat
  | two => 2
  | ten => 10

/-- The letter of an exponent. -/
def exponentBase : Char → Option ExponentBase
  | 'e' | 'E' => some .ten
  | 'p' | 'P' => some .two
  | _ => none

/-- `scanExponent`, before the exponent is parsed as an `int64`. -/
def scanExponent : List Char → Option (ExponentBase × Int × List Char)
  | [] => some (.ten, 0, [])
  | ch :: r =>
    match exponentBase ch with
    | none => some (.ten, 0, ch :: r)
    | some ebase => do
      let (neg, r) := scanSign r
      let (s, r) ← scan numerals 10 false .other .start r
      if s.count = 0 then none else some (ebase, signed neg s.value, r)

/-- What was read of a text. -/
inductive RatText
  | fraction (a : Int) (b : Nat)
  | number (neg : Bool) (mantissa : NatText) (ebase : ExponentBase) (exp : Int)
  deriving DecidableEq, Repr

/-- A whole number: the text ends with it. -/
def scanWhole (r : List Char) : Option Nat := do
  let (n, r) ← natScan false r
  if r = [] then some n.value else none

namespace RatText

def scanFraction (a b : List Char) : Option RatText := do
  let (neg, a) := scanSign a
  let a ← scanWhole a
  let b ← scanWhole b
  if b = 0 then none else some (.fraction (signed neg a) b)

def scanNumber (r : List Char) : Option RatText := do
  let (neg, r) := scanSign r
  let (mantissa, r) ← natScan true r
  let (ebase, exp, r) ← scanExponent r
  if r = [] then some (.number neg mantissa ebase exp) else none

/-- A text with a slash is a fraction, at the first one. -/
def scan (r : List Char) : Option RatText :=
  match r.dropWhile (· ≠ '/') with
  | _ :: b => scanFraction (r.takeWhile (· ≠ '/')) b
  | [] => scanNumber r

end RatText

/-- The power of 5 in `base ^ d`. -/
def Radix.exp5 : Radix → Int → Int
  | dec, d => d
  | _, _ => 0

/-- The power of 2 in `base ^ d`. -/
def Radix.exp2 : Radix → Int → Int
  | dec, d | bin, d => d
  | oct, d => d * 3
  | hex, d => d * 4

def ExponentBase.exp5 : ExponentBase → Int → Int
  | ten, e => e
  | two, _ => 0

namespace RatText

/-- The number read: none if the exponent is no `int64` or the powers are too large. The source adds
the powers as `int64`; a sum that wraps is out of the limits either way. -/
def rat : RatText → Option Rat
  | fraction a b => some (mkRat a b)
  | number neg m ebase exp =>
    if ¬ (-2 ^ 63 ≤ exp ∧ exp < 2 ^ 63) then none
    else if m.value = 0 then some 0
    else
      let d := min m.count 0
      let exp5 := m.radix.exp5 d + ebase.exp5 exp
      let exp2 := m.radix.exp2 d + exp
      if 1000000 < exp5.natAbs then none
      else if 10000000 < exp2.natAbs then none
      else some (mkRat (signed neg (m.value * 5 ^ exp5.toNat * 2 ^ exp2.toNat))
        (5 ^ (-exp5).toNat * 2 ^ (-exp2).toNat))

end RatText

/-- `big.Rat.SetString` -/
def ratSetString (s : String) : Option Rat :=
  RatText.scan s.toList >>= RatText.rat

end Dex
