import StraightLine.Double.Layout
import StraightLine.Text.Quoted

/-!
The values of a run, their kinds and their texts.
-/

namespace StraightLine

/-- The kinds that a variable may be declared as. -/
inductive Kind where
  | text
  | integer
  | decimal
  deriving DecidableEq, Repr

namespace Kind

/-- The word for the kind in a program. -/
def keyword : Kind → String
  | .text => "str"
  | .integer => "int"
  | .decimal => "dec"

/-- The word for the kind in the record of a variable. -/
def label : Kind → String
  | .text => "STR"
  | .integer => "INT"
  | .decimal => "DEC"

def ofKeyword? (word : String) : Option Kind :=
  if word = text.keyword then some .text
  else if word = integer.keyword then some .integer
  else if word = decimal.keyword then some .decimal
  else none

theorem ofKeyword?_eq_some_iff {word : String} {kind : Kind} :
    ofKeyword? word = some kind ↔ word = kind.keyword := by
  unfold ofKeyword?
  constructor
  · intro h
    split at h
    · cases h; assumption
    · split at h
      · cases h; assumption
      · split at h
        · cases h; assumption
        · cases h
  · rintro rfl
    cases kind <;> decide

end Kind

/-- What an evaluation yields. A declaration yields the variable it declares, and a procedure yields
the unit value. -/
inductive Value where
  | unit
  | text (chars : String)
  | integer (n : Int)
  | decimal (x : Double)
  | declared (name : String) (type : Kind) (value : Value)
  deriving DecidableEq

namespace Value

instance : Inhabited Value := ⟨.unit⟩

/-- The kind of a value; the unit value and variables have none. -/
def kind? : Value → Option Kind
  | .text _ => some .text
  | .integer _ => some .integer
  | .decimal _ => some .decimal
  | .unit => none
  | .declared .. => none

/-- Decimals as programs write them: positional for at most fifteen digits before the point, and an
integral decimal without a point. -/
def decimalLayout : Double.Layout where
  least := -4
  greatest := 14
  integralEnd := []
  exponentMark := 'E'
  notANumber := "NaN"
  infinity := "Infinity"

/-- Decimals inside the record of a variable: always with a point or an exponent. -/
def recordLayout : Double.Layout where
  least := -4
  greatest := 15
  integralEnd := ['.', '0']
  exponentMark := 'e'
  notANumber := "nan"
  infinity := "inf"

/-- The text of an integer. Values are words, which are of nineteen digits at most. -/
def integerText (n : Int) : String :=
  String.ofList (Text.integerText n)

def decimalText (x : Double) : String :=
  x.write decimalLayout

/-- A value as it stands inside the record of a variable. -/
def record : Value → String
  | .unit => "None"
  | .text chars => Text.quoted chars
  | .integer n => integerText n
  | .decimal x => x.write recordLayout
  | .declared name type value =>
    "Variable(name=" ++ Text.quoted name ++ ", declared_type=<VariableType." ++ type.label ++ ": " ++
      Text.quoted type.keyword ++ ">, value=" ++ value.record ++ ")"

/-- The text of a value, as programs write and concatenate it. -/
def written : Value → String
  | .unit => ""
  | .text chars => chars
  | .integer n => integerText n
  | .decimal x => decimalText x
  | .declared name type value => record (.declared name type value)

end Value

end StraightLine
