import TypedTrees.Text.Unprintable
import TypedTrees.Text.Combining
/-!
Quoted text. Quotes, backslashes, characters without a printed form and combining characters are
written with a backslash, so that a quoted text stays on one line and shows what it holds. Two
settings exist: `Quoting.value` for string values, `Quoting.listing` for names in a listing.
-/
namespace TypedTrees

/-- What a way of quoting decides. -/
structure Quoting where
  /-- Whether the single quote is escaped too. -/
  singleQuote : Bool
  /-- Whether a combining character is escaped everywhere, and not only in front. -/
  combiningEverywhere : Bool

namespace Quoting

/-- String values in the text of a tree or value. -/
def value : Quoting where
  singleQuote := true
  combiningEverywhere := false

/-- Names in the listing of a registry. -/
def listing : Quoting where
  singleQuote := false
  combiningEverywhere := true

/-- One character in escaped form, given whether a combining character is to be escaped here. -/
def escape (quoting : Quoting) (combining : Bool) (c : Char) : List Char :=
  if c = '\x00' then ['\\', '0']
  else if c = '\t' then ['\\', 't']
  else if c = '\r' then ['\\', 'r']
  else if c = '\n' then ['\\', 'n']
  else if c = '\\' ∨ c = '\x22' ∨ (c = '\x27' ∧ quoting.singleQuote) then ['\\', c]
  else if (combining && isCombining c) || isUnprintable c then
    ['\\', 'u', '\x7b'] ++ Nat.toDigits 16 c.toNat ++ ['\x7d']
  else [c]

/-- The characters of a text in escaped form. -/
def escapeAll (quoting : Quoting) : List Char → List Char
  | [] => []
  | c :: rest =>
    quoting.escape true c ++ rest.flatMap (quoting.escape quoting.combiningEverywhere)

/-- A text in double quotes. -/
def quote (quoting : Quoting) (s : String) : String :=
  "\"" ++ String.ofList (quoting.escapeAll s.toList) ++ "\""

end Quoting

end TypedTrees
