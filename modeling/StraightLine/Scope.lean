import StraightLine.Value

/-!
The scope of a run: the variables declared so far, in the order of their declaration. A name is
declared once, and what is declared is neither changed nor forgotten.
-/

namespace StraightLine

/-- A name with the kind it was declared as and the value it was given, whatever that value's kind. -/
structure Variable where
  name : String
  type : Kind
  value : Value
  deriving DecidableEq

/-- The variable as the value of its declaration. -/
def Variable.asValue (v : Variable) : Value :=
  .declared v.name v.type v.value

structure Scope where
  toList : List Variable
  distinct : (toList.map Variable.name).Nodup
  deriving DecidableEq

namespace Scope

def empty : Scope := ⟨[], List.nodup_nil⟩

instance : Inhabited Scope := ⟨empty⟩

/-- The declared names, in the order of their declaration. -/
def names (scope : Scope) : List String :=
  scope.toList.map Variable.name

def size (scope : Scope) : Nat :=
  scope.toList.length

def contains (scope : Scope) (name : String) : Bool :=
  scope.names.contains name

/-- The variable of a name. -/
def find? (scope : Scope) (name : String) : Option Variable :=
  scope.toList.find? (·.name = name)

/-- The scope with one more variable, if its name is new. -/
def declare? (scope : Scope) (v : Variable) : Option Scope :=
  if h : v.name ∈ scope.names then none
  else some ⟨scope.toList ++ [v], by
    rw [List.map_append]
    exact List.nodup_append.2 ⟨scope.distinct, by simp, by
      rintro a ha b hb rfl
      simp only [List.map_cons, List.map_nil, List.mem_singleton] at hb
      exact h (hb ▸ ha)⟩⟩

/-- The names of a scope between brackets. -/
def text (scope : Scope) : String :=
  "<Environment " ++ ", ".intercalate scope.names ++ ">"

theorem ext {e f : Scope} (h : e.toList = f.toList) : e = f := by
  cases e
  cases f
  cases h
  rfl

theorem declare?_eq_none_iff {scope : Scope} {v : Variable} :
    scope.declare? v = none ↔ v.name ∈ scope.names := by
  unfold declare?
  split <;> simp [*]

theorem toList_of_declare? {scope later : Scope} {v : Variable}
    (h : scope.declare? v = some later) : later.toList = scope.toList ++ [v] := by
  unfold declare? at h
  split at h
  · cases h
  · cases h
    rfl

theorem find?_isSome_iff {scope : Scope} {name : String} :
    (scope.find? name).isSome ↔ name ∈ scope.names := by
  simp [find?, names]

/-- A scope that another one continues knows its variables too. -/
theorem find?_of_prefix {scope later : Scope} (h : scope.toList <+: later.toList) {name : String}
    {v : Variable} (hv : scope.find? name = some v) : later.find? name = some v := by
  obtain ⟨added, hadded⟩ := h
  rw [find?, ← hadded, List.find?_append]
  rw [find?] at hv
  rw [hv]
  rfl

theorem find?_of_mem {scope : Scope} {v : Variable} (h : v ∈ scope.toList) :
    scope.find? v.name = some v := by
  rcases scope with ⟨vs, hdistinct⟩
  rw [find?]
  induction vs with
  | nil => cases h
  | cons w ws ih =>
    rw [List.map_cons, List.nodup_cons] at hdistinct
    rcases List.mem_cons.1 h with rfl | hmem
    · simp
    · have hname : w.name ≠ v.name := fun heq => hdistinct.1 (heq ▸ List.mem_map_of_mem hmem)
      rw [List.find?_cons_of_neg (by simpa using hname)]
      exact ih hdistinct.2 hmem

end Scope

end StraightLine
