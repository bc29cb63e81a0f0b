import FgGas.Machine.Nesting
import FgGas.Machine.Stable

/-!
# Documents in an error message

`withoutDocuments` (`src/common/buckets/error-key.js`): the groups in braces and brackets that hold
no bracket of their kind are replaced, again and again until none is, but for the indexes of one to
three digits, which stay. What a text's brackets come to is read off its marks: its braces and
brackets, and its indexes.
-/

namespace FgGas.Buckets

open Machine

/-- Braces and square brackets. -/
inductive Bracket
  | brace
  | square
  deriving DecidableEq, Repr

/-- The opening character. -/
def Bracket.left : Bracket → Char
  | .brace => '\x7b'
  | .square => '['

/-- The closing character. -/
def Bracket.right : Bracket → Char
  | .brace => '\x7d'
  | .square => ']'

/-- What a character opens. -/
def Bracket.ofLeft (c : Char) : Option Bracket :=
  if c = Bracket.brace.left then some .brace else if c = Bracket.square.left then some .square
  else none

/-- What a character closes. -/
def Bracket.ofRight (c : Char) : Option Bracket :=
  if c = Bracket.brace.right then some .brace else if c = Bracket.square.right then some .square
  else none

/-- `[^{}]` or `[^[\]]`. -/
def Bracket.plain (k : Bracket) (c : Char) : Bool := c ≠ k.left && c ≠ k.right

/-- `INNER_BRACES` at the start of a text: what it matches. -/
def innerBraces : List Char → Option (List Char)
  | [] => none
  | c :: cs => (Bracket.ofLeft c).bind fun k ↦
      if (cs.dropWhile k.plain).head? = some k.right then
        some (c :: (cs.takeWhile k.plain ++ [k.right]))
      else none

/-- `/^\[\d{1,3}\]$/`. -/
def isIndex (group : List Char) : Bool :=
  let digits := (group.drop 1).dropLast
  group = '[' :: (digits ++ [']']) && 1 ≤ digits.length && digits.length ≤ 3 &&
    digits.all Char.isDigit

/-- `VALUE`. -/
def valueText : List Char := "<v>".toList

/-- `replaceInner` of what is left after some more characters. -/
def replaceAfter : ℕ → List Char → List Char
  | _, [] => []
  | skip + 1, _ :: cs => replaceAfter skip cs
  | 0, c :: cs =>
      match innerBraces (c :: cs) with
      | some group =>
          (if isIndex group then group else valueText) ++ replaceAfter (group.length - 1) cs
      | none => c :: replaceAfter 0 cs

/-- `current.replace(INNER_BRACES, …)`. -/
def replaceInner (text : List Char) : List Char := replaceAfter 0 text

/-- `withoutDocuments`, in at most so many turns of its loop. -/
def withoutDocuments (turns : ℕ) (text : List Char) : Option (List Char) :=
  untilStable replaceInner turns text

/-- `marks` of what is left after some more characters. -/
def marksAfter : ℕ → List Char → List (Mark Bracket)
  | _, [] => []
  | skip + 1, _ :: cs => marksAfter skip cs
  | 0, c :: cs =>
      match (innerBraces (c :: cs)).filter isIndex with
      | some group => .atom :: marksAfter (group.length - 1) cs
      | none =>
          ((Bracket.ofLeft c).map Mark.opening).toList ++
            ((Bracket.ofRight c).map Mark.closing).toList ++ marksAfter 0 cs

/-- The braces, brackets and indexes of a text. -/
def marks (text : List Char) : List (Mark Bracket) := marksAfter 0 text

end FgGas.Buckets
