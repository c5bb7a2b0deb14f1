import Wfe.Models.Json
import Mathlib.Data.List.Basic

/-!
# Text helpers of the Rust standard library

The string functions the engine calls, on the characters of a string: splitting, trimming,
number parsing, and the text of a JSON value.

## Main definitions

* `Text.split`, `Text.trim`, `Text.stripSuffix`: `str::split`, `str::trim`, `str::strip_suffix`
* `Text.parseU64`: `str::parse::<u64>` and, on 64-bit targets, `str::parse::<usize>`
* `Json.display`: `Display` of `serde_json::Value`
-/

namespace Wfe

namespace Text

/-- `str::split` at a character. -/
def split (s : String) (c : Char) : List String := (s.toList.splitOn c).map String.ofList

/-- The Unicode property `White_Space`. -/
def isWhitespace (c : Char) : Bool :=
  let n := c.toNat
  (9 ≤ n && n ≤ 13) || n = 32 || n = 0x85 || n = 0xA0 || n = 0x1680
    || (0x2000 ≤ n && n ≤ 0x200A) || n = 0x2028 || n = 0x2029 || n = 0x202F || n = 0x205F
    || n = 0x3000

def trimChars (cs : List Char) : List Char :=
  ((cs.dropWhile isWhitespace).reverse.dropWhile isWhitespace).reverse

/-- `str::trim`. -/
def trim (s : String) : String := String.ofList (trimChars s.toList)

/-- `str::strip_suffix`. -/
def stripSuffix (s suffix : String) : Option String :=
  if suffix.toList.isSuffixOf s.toList then
    some (String.ofList (s.toList.take (s.toList.length - suffix.toList.length)))
  else none

/-- The number written by decimal digits, most significant first. -/
def digitsValue (cs : List Char) : Nat :=
  cs.foldl (fun acc c => 10 * acc + (c.toNat - '0'.toNat)) 0

/-- `str::parse::<u64>`: an optional plus sign and at least one digit, without overflow. -/
def parseU64 (s : String) : Option Nat :=
  let digits := match s.toList with
    | '+' :: rest => rest
    | cs => cs
  if digits ≠ [] ∧ digits.all Char.isDigit ∧ digitsValue digits < 2 ^ 64 then
    some (digitsValue digits)
  else none

/-- `str::contains` of a string. -/
def contains (s sub : String) : Bool := s.toList.tails.any fun t => sub.toList.isPrefixOf t

/-- `[String]::join`. -/
def join (sep : String) : List String → String
  | [] => ""
  | [s] => s
  | s :: ss => s ++ sep ++ join sep ss

end Text

namespace Json

/-- One character of a JSON string, escaped. -/
def escapeChar (c : Char) : String :=
  if c = '"' then "\\\"" else if c = '\\' then "\\\\"
  else if c = '\n' then "\\n" else if c = '\r' then "\\r" else if c = '\t' then "\\t"
  else if c.toNat = 8 then "\\b" else if c.toNat = 12 then "\\f"
  else if c.toNat < 32 then
    "\\u00" ++ String.ofList [(c.toNat / 16).digitChar, (c.toNat % 16).digitChar]
  else c.toString

def quote (s : String) : String := "\"" ++ String.join (s.toList.map escapeChar) ++ "\""

mutual

/-- `Display` of `serde_json::Value`: compact JSON. The digits of a float are Lean's. -/
def display : Json → String
  | null => "null"
  | bool b => if b then "true" else "false"
  | number (.posInt n) => ToString.toString n.toNat
  | number (.negInt n) => ToString.toString n.toInt
  | number (.float bits) => ToString.toString (Float.ofBits bits)
  | string s => quote s
  | array xs => "[" ++ Text.join "," (displayList xs) ++ "]"
  | object m => "\x7b" ++ Text.join "," (displayObject m) ++ "\x7d"

def displayList : List Json → List String
  | [] => []
  | x :: xs => display x :: displayList xs

def displayObject : List (String × Json) → List String
  | [] => []
  | (k, v) :: m => (quote k ++ ":" ++ display v) :: displayObject m

end

end Json

end Wfe
