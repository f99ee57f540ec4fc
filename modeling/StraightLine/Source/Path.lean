/-!
Names of files in a normal form: repeated and trailing slashes and parts that stay in place are
dropped, so that two spellings of one name are equal. A step to the parent stays as it is.
-/

namespace StraightLine

/-- Where a path begins. Exactly two slashes in front are a root of their own. -/
inductive Root where
  | here
  | root
  | doubleRoot
  deriving DecidableEq, Repr

def Root.text : Root → String
  | .here => ""
  | .root => "/"
  | .doubleRoot => "//"

/-- The root that the slashes in front of a path stand for. -/
def Root.ofSlashes : Nat → Root
  | 0 => .here
  | 2 => .doubleRoot
  | _ => .root

structure Path where
  root : Root
  parts : List String
  deriving DecidableEq, Repr

namespace Path

def ofString (written : String) : Path where
  root := .ofSlashes (written.toList.takeWhile (· = '/')).length
  parts := (written.splitOn "/").filter fun part => part ≠ "" ∧ part ≠ "."

/-- The normal form as text; the path without root and parts is a point. -/
def text (path : Path) : String :=
  if path.root = .here ∧ path.parts = [] then "."
  else path.root.text ++ "/".intercalate path.parts

end Path

end StraightLine
