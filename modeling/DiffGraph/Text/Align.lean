/-!
# Aligned text

Filling a text up to a width, counted in code points, and grouping the digits of a number.
-/

namespace DiffGraph.Text

def repeated (c : Char) (n : Nat) : String := String.ofList (List.replicate n c)

/-- Blanks before the text up to a width; a longer text is left as it is. -/
def alignRight (width : Nat) (s : String) : String := repeated ' ' (width - s.length) ++ s

/-- Blanks after the text up to a width; a longer text is left as it is. -/
def alignLeft (width : Nat) (s : String) : String := s ++ repeated ' ' (width - s.length)

/-- Digits, last one first, with a comma after every third one that has a further digit. -/
def groupReversed : List Char → List Char
  | a :: b :: c :: d :: rest => a :: b :: c :: ',' :: groupReversed (d :: rest)
  | digits => digits

/-- A natural with a comma between groups of three digits. -/
def grouped (n : Nat) : String :=
  String.ofList (groupReversed (toString n).toList.reverse).reverse

/-- The texts of a list with a separator between neighbours. -/
def separated (separator : String) (parts : List String) : String :=
  separator.intercalate parts

end DiffGraph.Text
