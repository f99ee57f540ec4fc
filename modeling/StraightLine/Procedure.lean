import StraightLine.Fault
import StraightLine.Value

/-!
Procedures: what programs call by name. A procedure writes a text that its arguments determine and
yields the unit value. The output takes every text, in whatever encoding it is kept.
-/

namespace StraightLine

structure Procedure where
  name : String
  output : List Value → String

namespace Procedure

/-- The texts of the arguments with a space between neighbours. -/
def spaced (args : List Value) : String :=
  " ".intercalate (args.map Value.written)

def write : Procedure := ⟨"WRITE", spaced⟩

def writeLine : Procedure := ⟨"WRITELN", fun args => spaced args ++ "\n"⟩

/-- The procedures that every program may call. -/
def standard : List Procedure := [write, writeLine]

/-- The standard procedures and then those given, or the first name that is not new. -/
def table (given : List Procedure) : Except Fault (List Procedure) :=
  given.foldlM add standard
where
  add (known : List Procedure) (p : Procedure) : Except Fault (List Procedure) :=
    if known.any (·.name = p.name) then .error (.registeredTwice p.name) else .ok (known ++ [p])

/-- The standard procedure of a name. -/
def named? (name : String) : Option Procedure :=
  standard.find? (·.name = name)

/-- What the standard procedure of a name writes. -/
def outputOf (name : String) (args : List Value) : Except Fault String :=
  match named? name with
  | some p => .ok (p.output args)
  | none => .error (.unknownProcedure name)

end Procedure

end StraightLine
