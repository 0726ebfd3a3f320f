/-!
# Styled text

On a terminal, parts of the output are set in colours and in bold or dimmed type.  Every styled
text carries its own codes and ends with a reset.
-/

namespace SelectAlgebra

/-- The colours of styled text. -/
inductive Color where
  | red
  | green
  | yellow
  | cyan
  | white
deriving DecidableEq

/-- The code of a colour of the foreground. -/
def Color.code : Color → String
  | red => "31"
  | green => "32"
  | yellow => "33"
  | cyan => "36"
  | white => "37"

/-- How a text looks. -/
structure Style where
  bold : Bool := false
  dimmed : Bool := false
  color : Option Color := none
deriving DecidableEq

namespace Style

/-- The style with bold type. -/
def inBold (s : Style) : Style :=
  { s with bold := true }

/-- Plain dimmed type. -/
def dim : Style :=
  { dimmed := true }

/-- Plain type in a colour. -/
def ofColor (c : Color) : Style :=
  { color := some c }

/-- The sequence that ends a styled text. -/
def reset : List Char :=
  "\x1B[0m".toList

/-- The sequence that begins a text of the style. -/
def start (s : Style) : List Char :=
  let codes := (if s.bold then ["1"] else []) ++ (if s.dimmed then ["2"] else []) ++
    (s.color.map Color.code).toList
  ("\x1B[" ++ ";".intercalate codes ++ "m").toList

/-- The text with `again` behind each reset that it holds. -/
def afterResets (again : List Char) : List Char → List Char
  | [] => []
  | c :: cs =>
    if reset.isPrefixOf (c :: cs) then
      reset ++ again ++ afterResets again (cs.drop (reset.length - 1))
    else c :: afterResets again cs
termination_by cs => cs.length
decreasing_by
  · simp only [List.length_drop, List.length_cons]
    omega
  · simp

end Style

/-- Whether text is styled. -/
structure Palette where
  enabled : Bool
deriving DecidableEq

/-- The text in a style. -/
def Palette.paint (p : Palette) (s : Style) (text : String) : String :=
  if p.enabled then
    String.ofList (s.start ++ Style.afterResets s.start text.toList ++ Style.reset)
  else text

/-- Without styles, text is left as it is. -/
@[simp]
theorem Palette.paint_disabled (s : Style) (text : String) :
    Palette.paint ⟨false⟩ s text = text := by
  simp [paint]

/-- The text with spaces behind it up to a number of characters. -/
def padRight (width : Nat) (text : String) : String :=
  text ++ String.ofList (List.replicate (width - text.toList.length) ' ')

end SelectAlgebra
