/-!
# Styled text

Pieces of text in a terminal style: an escape sequence in front and a reset
behind, also around nothing.  A reset inside the text would end the style, so
the style starts again after it.  With colour turned off the text stays bare.
-/

namespace SchemaGraph.Text

/-- A terminal style. -/
inductive Style where
  | bold
  | dimmed
  | green
  | yellow
  | cyan
  deriving DecidableEq, Repr

/-- The number of a style in escape sequences. -/
def Style.code : Style → Nat
  | .bold => 1
  | .dimmed => 2
  | .green => 32
  | .yellow => 33
  | .cyan => 36

/-- The escape sequence that starts a style. -/
def Style.start (style : Style) : String := "\x1b[" ++ toString style.code ++ "m"

/-- The escape sequence that ends every style. -/
def reset : String := "\x1b[0m"

/-- The characters with others after each reset among them. -/
def afterResets (more : List Char) : List Char → List Char
  | '\x1b' :: '[' :: '0' :: 'm' :: rest => reset.toList ++ more ++ afterResets more rest
  | c :: rest => c :: afterResets more rest
  | [] => []

/-- A text in a style, if colour is on. -/
def styled (color : Bool) (style : Style) (s : String) : String :=
  if color then
    style.start ++ String.ofList (afterResets style.start.toList s.toList) ++ reset
  else s

end SchemaGraph.Text
