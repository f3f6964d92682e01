/-!
# Outbursts

Complaints open with an outburst put together at random. The throws of the dice are given in
advance and repeat, so that a report is a function of its input.
-/

namespace LoxInterpreter

/-- Throws that repeat in a cycle, and how many have been used. -/
structure Dice where
  faces : List Nat
  used : Nat
  deriving DecidableEq, Repr, Inhabited

namespace Dice

/-- Dice that show the given faces over and over; without faces they always show zero. -/
def ofFaces (faces : List Nat) : Dice := ⟨faces, 0⟩

/-- The face that the next throw shows. -/
def face (d : Dice) : Nat :=
  d.faces.getD (d.used % d.faces.length) 0

/-- Choose among some texts. -/
def choose (d : Dice) (texts : List String) : String × Dice :=
  (texts.getD (d.face % texts.length) "", { d with used := d.used + 1 })

/-- What an outburst may begin with. -/
def particles : List String := ["Oh, ", "Well, ", "Hmm. ", "", ""]

/-- The exclamations. -/
def exclamations : List String :=
  ["Bother", "Drat", "Fiddlesticks", "Goodness", "Nuts", "Rats", "Heavens", "Oops", "Shucks",
    "Yikes"]

/-- What an outburst may end with. -/
def resignations : List String :=
  ["That program will not run as written.", "I cannot continue.", "Something is amiss.",
    "Have a look at the following:"]

/-- Three throws make an outburst. -/
def outburst (d : Dice) : String × Dice :=
  let (particle, d) := d.choose particles
  let (exclamation, d) := d.choose exclamations
  let (resignation, d) := d.choose resignations
  (particle ++ exclamation ++ "! " ++ resignation, d)

end Dice

end LoxInterpreter
