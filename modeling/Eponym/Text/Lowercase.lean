/-
# Lower case

Names are compared without regard to letter case by comparing their lower-case
forms.  The forms are those of the Unicode standard: one character becomes one,
with two exceptions.  The capital dotted I becomes an i and a combining dot, and
a capital sigma at the end of a word becomes a final sigma.
-/
import Eponym.Text.Lowercase.Table

namespace Eponym.Text

/-! ## Single characters -/

/-- The lower-case form of a character that does not depend on its neighbours. -/
def lowercaseChar (c : Char) : List Char :=
  if c.toNat < 128 then [c.toLower]
  else if c = '\u0130' then ['i', '\u0307']
  else match lowercaseRanges.find? (·.covers c.toNat) with
    | some r => [Char.ofNat (c.toNat + r.shift).toNat]
    | none => [c]

/-! ## A sigma at the end of a word -/

/-- Whether the next letter of a text has case, what is not a letter skipped. -/
def startsCased (s : List Char) : Bool :=
  match s.dropWhile fun c => inRanges caseIgnorableRanges c.toNat with
  | [] => false
  | c :: _ => inRanges casedRanges c.toNat

/-- Whether a sigma ends its word, given the text before it, reversed, and after it. -/
def endsWord (before after : List Char) : Bool :=
  startsCased before && !startsCased after

/-! ## Whole texts -/

/-- The lower-case form of a text that stands after `before`, which is reversed. -/
def lowercaseFrom (before : List Char) : List Char → List Char
  | [] => []
  | c :: rest =>
    (if c = 'Σ' then [if endsWord before rest then 'ς' else 'σ'] else lowercaseChar c)
      ++ lowercaseFrom (c :: before) rest

/-- The lower-case form of a text. -/
def lowercase (s : String) : String := String.ofList (lowercaseFrom [] s.toList)

example : lowercase "ΟΔΟΣ" = "οδος" := by decide +kernel
example : lowercase "\u0130X" = "i\u0307x" := by decide +kernel

end Eponym.Text
