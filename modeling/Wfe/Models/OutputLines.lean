import Wfe.Library.Binary64
import Wfe.Models.Text

/-!
# Output lines

The text functions that read step outputs: lines, numbers by trial parsing, and the marker
`##wfe[output name=value]` by which a command hands values to its workflow.

## Main definitions

* `Text.lines`: `str::lines`
* `Text.parseI64`, `Text.parseF64`: `str::parse::<i64>` and `str::parse::<f64>`
* `parseOutputLine`: the name and value of an output line
* `jsonOfF64`: `serde_json::json!` of a double
-/

namespace Wfe

namespace Text

/-! ## Lines -/

/-- A line without a carriage return at its end. -/
def stripCr (line : List Char) : List Char :=
  if line.getLast? = some '\r' then line.dropLast else line

/-- The lines of what stands between newlines. Only a line that ends with a newline loses a carriage
return, and nothing is a line after the last newline. -/
def linesOf : List (List Char) → List (List Char)
  | [] => []
  | [last] => if last = [] then [] else [last]
  | line :: next :: rest => stripCr line :: linesOf (next :: rest)

/-- `str::lines`. -/
def lines (text : List Char) : List (List Char) := linesOf (text.splitOn '\n')

/-! ## Numbers -/

/-- The sign of a number, true for minus, and what follows it. -/
def splitSign : List Char → Bool × List Char
  | '-' :: cs => (true, cs)
  | '+' :: cs => (false, cs)
  | cs => (false, cs)

/-- `str::parse::<i64>`: an optional sign and digits, without overflow. -/
def parseI64 (s : List Char) : Option Int :=
  let (negative, digits) := splitSign s
  let value : Int := if negative then -digitsValue digits else digitsValue digits
  if digits ≠ [] ∧ digits.all Char.isDigit ∧ -2 ^ 63 ≤ value ∧ value < 2 ^ 63 then some value
  else none

/-- The exponent of a decimal number, `e` with a sign and digits. -/
def parseExponent : List Char → Option Int
  | [] => some 0
  | c :: cs =>
    let (negative, digits) := splitSign cs
    if (c = 'e' ∨ c = 'E') ∧ digits ≠ [] ∧ digits.all Char.isDigit then
      some (if negative then -digitsValue digits else digitsValue digits)
    else none

/-- Digits with an optional point among or around them, and an optional exponent. -/
def parseDecimal (s : List Char) : Option UInt64 :=
  let int := s.takeWhile Char.isDigit
  let afterInt := s.dropWhile Char.isDigit
  let (frac, rest) := match afterInt with
    | '.' :: cs => (cs.takeWhile Char.isDigit, cs.dropWhile Char.isDigit)
    | cs => ([], cs)
  if int = [] ∧ frac = [] then none
  else (parseExponent rest).map fun e =>
    let scale : Int := e - frac.length
    Binary64.ofRatio (digitsValue (int ++ frac) * 10 ^ scale.toNat) (10 ^ (-scale).toNat)

/-- `str::parse::<f64>`: a decimal number, `inf`, `infinity` or `nan` in any case, with an optional
sign. -/
def parseF64 (s : List Char) : Option UInt64 :=
  let (negative, cs) := splitSign s
  let name := String.ofList (cs.map Char.toLower)
  let magnitude :=
    if name = "inf" ∨ name = "infinity" then some Binary64.infinity
    else if name = "nan" then some Binary64.nan
    else parseDecimal cs
  magnitude.map fun bits => if negative then bits ||| Binary64.signBit else bits

example : parseI64 "-042".toList = some (-42) ∧ parseI64 "+".toList = none ∧
    parseF64 "-.5e1".toList = some 0xC014000000000000 ∧ parseF64 "1e".toList = none ∧
    parseF64 "-Inf".toList = some 0xFFF0000000000000 := by decide

end Text

/-- `Value::from` of an `i64`. -/
def jsonOfI64 (n : Int) : Json :=
  if 0 ≤ n then .number (.posInt (UInt64.ofNat n.toNat)) else .number (.negInt (Int64.ofInt n))

/-- `Value::from` of an `f64`: infinities and NaNs are null. -/
def jsonOfF64 (bits : UInt64) : Json :=
  if Binary64.isFinite bits then .number (.float bits) else .null

/-! ## Markers -/

/-- `str::strip_prefix`. -/
def stripPrefix (pre s : List Char) : Option (List Char) :=
  if pre.isPrefixOf s then some (s.drop pre.length) else none

/-- `str::strip_suffix` with a character. -/
def stripLast (c : Char) (s : List Char) : Option (List Char) :=
  if s.getLast? = some c then some s.dropLast else none

/-- The trimmed name and the value of a line `##wfe[output name=value]`. -/
def parseOutputLine (line : List Char) : Option (String × List Char) := do
  let rest ← stripPrefix "##wfe[output ".toList line
  let rest ← stripLast ']' rest
  if '=' ∈ rest then
    some (String.ofList (Text.trimChars (rest.takeWhile (· != '='))),
      (rest.dropWhile (· != '=')).drop 1)
  else none

end Wfe
