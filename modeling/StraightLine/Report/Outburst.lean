/-!
Outbursts: what a report exclaims before it complains. The three parts are picked one after another.
-/

namespace StraightLine

/-- Where to pick each part of an outburst. -/
structure Pick where
  particle : Int
  oath : Int
  resignation : Int
  deriving DecidableEq, Repr

namespace Outburst

def particles : List String :=
  ["Oh, ", "Well, ", "Aw, ", "", ""]

def oaths : List String :=
  ["Ack", "ARGH", "Blargh", "Brrr", "Burr", "Crud", "Curses", "Drat", "Flurries", "Frostbite",
  "Good Grief", "Great Scott", "Heavens", "Hail and Sleet", "Icicles", "Jeepers", "Nuts", "Rats",
  "Snowballs", "Whiteout"]

def resignations : List String :=
  ["I am undone.", "I cannot continue.", "The path before me is snowed over.",
  "I have no idea what the right answer is.", "I need to ask for help."]

/-- The entry at a place, counted around the list as often as it takes. -/
def choose (entries : List String) (place : Int) : String :=
  entries.getD (place % entries.length).toNat ""

def text (pick : Pick) : String :=
  choose particles pick.particle ++ choose oaths pick.oath ++ "! " ++
    choose resignations pick.resignation

end Outburst

end StraightLine
