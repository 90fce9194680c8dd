/-
# Colours

Text on a terminal is coloured, dimmed or made bold by control sequences around it.
-/

namespace Eponym.Command

/-- The colours that text is shown in. -/
inductive Colour where
  | red
  | green
  | yellow
  | cyan
  | brightGreen
  | brightBlue
  deriving DecidableEq

/-- The number of a colour in a control sequence. -/
def Colour.code : Colour → Nat
  | red => 31
  | green => 32
  | yellow => 33
  | cyan => 36
  | brightGreen => 92
  | brightBlue => 94

/-- The text in a colour. -/
def Colour.paint (c : Colour) (s : String) : String := s!"\x1b[{c.code}m{s}\x1b[39m"

/-- The text in faint letters. -/
def dimmed (s : String) : String := s!"\x1b[2m{s}\x1b[0m"

/-- The text in bold letters. -/
def bold (s : String) : String := s!"\x1b[1m{s}\x1b[0m"

/-- The text as a heading. -/
def heading (s : String) : String := bold (Colour.brightBlue.paint s)

end Eponym.Command
