import LoxInterpreter.Text.Illustration

/-!
# Issues

What a complaint about a program consists of: a headline, illustrations of the places it is about,
and footers. An illustration keeps the text it was made for.
-/

namespace LoxInterpreter

/-- A place in a text that an issue points at. -/
structure Annotation where
  source : String
  /-- The line number to show, which the offset does not have to agree with. -/
  line : Int
  offset : Nat
  /-- How many characters to underline. -/
  width : Int
  caption : String
  deriving DecidableEq, Inhabited

/-- The quoted line with its underlining. -/
def Annotation.illustrate (a : Annotation) : String :=
  (Excerpt.locate a.source a.offset).illustrate a.line a.width a.caption

/-- A complaint. -/
structure Issue where
  headline : String
  annotations : List Annotation
  footers : List String
  deriving DecidableEq, Inhabited

/-- The full text of an issue. -/
def Issue.text (i : Issue) : String :=
  "\n".intercalate (i.headline :: i.annotations.map Annotation.illustrate ++ i.footers)

end LoxInterpreter
