import StraightLine.Tree.Span

/-!
The parts of trees and their spots. Induction over trees reaches every tree of a list, and where a
tree has a span, its ends are spots of the tree or the spot of the built-in token.
-/

namespace StraightLine.Tree

/-- Induction over trees; at a call and at a program it holds of every tree in the list. -/
@[elab_as_elim, induction_eliminator]
theorem induction {motive : Tree → Prop}
    (name : ∀ n, motive (.name n))
    (literal : ∀ kind text spot, motive (.literal kind text spot))
    (identifier : ∀ n, motive (.identifier n))
    (parentheses : ∀ inner, motive inner → motive (.parentheses inner))
    (binary : ∀ lhs op rhs, motive lhs → motive rhs → motive (.binary lhs op rhs))
    (call : ∀ callee args, (∀ a ∈ args, motive a) → motive (.call callee args))
    (declaration : ∀ keyword n initial, motive initial → motive (.declaration keyword n initial))
    (program : ∀ statements, (∀ s ∈ statements, motive s) → motive (.program statements))
    (phrase : motive .phrase) (expression : motive .expression) (t : Tree) : motive t := by
  refine @Tree.rec motive (fun ts => ∀ t ∈ ts, motive t) name literal identifier parentheses
    binary call declaration program phrase expression ?_ ?_ t
  · intro u hu
    cases hu
  · intro head tail hhead htail u hu
    rcases List.mem_cons.mp hu with rfl | hu
    · exact hhead
    · exact htail u hu

/-- The trees right below a tree in reading order, each name it is written with among them. -/
@[simp]
def children : Tree → List Tree
  | .name _ | .literal .. | .phrase | .expression => []
  | .identifier n => [.name n]
  | .parentheses inner => [inner]
  | .binary lhs op rhs => [lhs, .name op.name, rhs]
  | .call callee args => .name callee :: args
  | .declaration keyword n initial => [.name keyword, .name n, initial]
  | .program statements => statements

/-- That a tree occurs in another at some depth, or is the whole of it. -/
inductive IsPartOf (g : Tree) : Tree → Prop where
  | whole : IsPartOf g g
  | inChild {c t : Tree} (hc : c ∈ t.children) (h : IsPartOf g c) : IsPartOf g t

theorem IsPartOf.trans {g c t : Tree} (hg : g.IsPartOf c) (hc : c.IsPartOf t) : g.IsPartOf t := by
  induction hc with
  | whole => exact hg
  | inChild hmem _ ih => exact .inChild hmem ih

theorem IsPartOf.child {c t root : Tree} (h : t.IsPartOf root) (hc : c ∈ t.children) :
    c.IsPartOf root :=
  IsPartOf.trans (.inChild hc .whole) h

/-- That no part of a tree has a property, nor the tree itself. -/
def Lacks (t : Tree) (p : Tree → Prop) : Prop :=
  ∀ g : Tree, g.IsPartOf t → ¬p g

variable {p : Tree → Prop}

theorem Lacks.whole {t : Tree} (h : t.Lacks p) : ¬p t :=
  h t .whole

theorem Lacks.child {c t : Tree} (h : t.Lacks p) (hc : c ∈ t.children) : c.Lacks p :=
  fun g hg => h g (hg.trans (.inChild hc .whole))

theorem lacks_iff {t : Tree} : t.Lacks p ↔ ¬p t ∧ ∀ c ∈ t.children, c.Lacks p := by
  refine ⟨fun h => ⟨h.whole, fun c hc => h.child hc⟩, ?_⟩
  rintro ⟨hwhole, hchildren⟩ g hg
  cases hg with
  | whole => exact hwhole
  | inChild hc hg => exact hchildren _ hc g hg

/-! ### Spots -/

mutual

/-- The spots of all tokens of a tree, in reading order. -/
@[simp]
def spots : Tree → List Int
  | .name n => [n.spot]
  | .literal _ _ spot => [spot]
  | .identifier n => [n.spot]
  | .parentheses inner => inner.spots
  | .binary lhs op rhs => lhs.spots ++ op.spot :: rhs.spots
  | .call callee args => callee.spot :: spotsOfAll args
  | .declaration keyword n initial => keyword.spot :: n.spot :: initial.spots
  | .program statements => spotsOfAll statements
  | .phrase => []
  | .expression => []

@[simp]
def spotsOfAll : List Tree → List Int
  | [] => []
  | t :: ts => t.spots ++ spotsOfAll ts

end

theorem mem_spotsOfAll {ts : List Tree} {spot : Int} :
    spot ∈ spotsOfAll ts ↔ ∃ t ∈ ts, spot ∈ t.spots := by
  induction ts with
  | nil => simp
  | cons t ts ih => simp [ih]

theorem sublist_spotsOfAll {t : Tree} {ts : List Tree} (h : t ∈ ts) :
    t.spots.Sublist (spotsOfAll ts) := by
  induction ts with
  | nil => cases h
  | cons u us ih =>
      rw [spotsOfAll]
      rcases List.mem_cons.mp h with rfl | h
      · exact List.sublist_append_left _ _
      · exact (ih h).trans (List.sublist_append_right _ _)

/-- A tree has no spots but its children's, unless it is a leaf. -/
theorem spotsOfAll_children_sublist (t : Tree) : (spotsOfAll t.children).Sublist t.spots := by
  cases t <;> simp [Operator.name]

/-- The spots of a part stand in the same order among those of the whole. -/
theorem IsPartOf.spots_sublist {g t : Tree} (h : g.IsPartOf t) : g.spots.Sublist t.spots := by
  induction h with
  | whole => exact List.Sublist.refl _
  | inChild hmem _ ih =>
      exact ih.trans ((sublist_spotsOfAll hmem).trans (spotsOfAll_children_sublist _))

theorem IsPartOf.spots_subset {g t : Tree} (h : g.IsPartOf t) : g.spots ⊆ t.spots :=
  h.spots_sublist.subset

/-! ### Spans -/

attribute [simp] firstSpot lastSpot lastSpotOfLast

theorem lastSpotOfLast_eq (spot : Int) (ts : List Tree) :
    lastSpotOfLast spot ts = match ts.getLast? with
      | none => .ok spot
      | some t => t.lastSpot := by
  induction ts with
  | nil => rfl
  | cons t ts ih =>
      cases ts with
      | nil => rfl
      | cons u us => rw [lastSpotOfLast, ih, List.getLast?_cons_cons]

theorem mem_spots_of_firstSpot {t : Tree} {spot : Int} (h : t.firstSpot = .ok spot) :
    spot = 0 ∨ spot ∈ t.spots := by
  induction t with
  | name n | literal kind text n | identifier n =>
      cases h
      simp
  | parentheses inner ih => exact ih h
  | binary lhs op rhs ihl _ =>
      rw [firstSpot] at h
      rw [spots, List.mem_append]
      exact (ihl h).imp_right Or.inl
  | call callee args _ =>
      cases h
      simp
  | declaration keyword n initial _ =>
      cases h
      simp
  | program statements ih =>
      cases statements with
      | nil =>
          cases h
          exact Or.inl rfl
      | cons first rest =>
          rw [firstSpot] at h
          have hfirst := ih first List.mem_cons_self h
          rw [spots, mem_spotsOfAll]
          exact hfirst.imp_right fun hmem => ⟨first, List.mem_cons_self, hmem⟩
  | phrase | expression => cases h

theorem mem_spots_of_lastSpot {t : Tree} {spot : Int} (h : t.lastSpot = .ok spot) :
    spot = 0 ∨ spot ∈ t.spots := by
  induction t with
  | name n | literal kind text n | identifier n =>
      cases h
      simp
  | parentheses inner ih => exact ih h
  | binary lhs op rhs _ ihr =>
      rw [lastSpot] at h
      rw [spots, List.mem_append, List.mem_cons]
      exact (ihr h).imp_right fun hmem => Or.inr (Or.inr hmem)
  | call callee args ih =>
      rw [lastSpot, lastSpotOfLast_eq] at h
      rw [spots, List.mem_cons, mem_spotsOfAll]
      split at h
      · cases h
        exact Or.inr (Or.inl rfl)
      · rename_i last hlast
        have hmem := List.mem_of_getLast? hlast
        exact (ih last hmem h).imp_right fun hspot => Or.inr ⟨last, hmem, hspot⟩
  | declaration keyword n initial ih =>
      rw [lastSpot] at h
      rw [spots, List.mem_cons, List.mem_cons]
      exact (ih h).imp_right fun hmem => Or.inr (Or.inr hmem)
  | program statements ih =>
      rw [lastSpot, lastSpotOfLast_eq] at h
      rw [spots, mem_spotsOfAll]
      split at h
      · cases h
        exact Or.inl rfl
      · rename_i last hlast
        have hmem := List.mem_of_getLast? hlast
        exact (ih last hmem h).imp_right fun hspot => ⟨last, hmem, hspot⟩
  | phrase | expression => cases h

theorem fault_of_firstSpot {t : Tree} {f : Fault} (h : t.firstSpot = .error f) :
    ∃ c, f = .withoutSpan c := by
  induction t with
  | name n | literal kind text spot | identifier n | call callee args _
  | declaration keyword n initial _ => cases h
  | parentheses inner ih => exact ih h
  | binary lhs op rhs ihl _ => exact ihl h
  | program statements ih =>
      cases statements with
      | nil => cases h
      | cons first rest => exact ih first List.mem_cons_self h
  | phrase | expression =>
      cases h
      exact ⟨_, rfl⟩

theorem fault_of_lastSpot {t : Tree} {f : Fault} (h : t.lastSpot = .error f) :
    ∃ c, f = .withoutSpan c := by
  induction t with
  | name n | literal kind text spot | identifier n => cases h
  | parentheses inner ih | declaration keyword n initial ih => exact ih h
  | binary lhs op rhs _ ihr => exact ihr h
  | call callee ts ih | program ts ih =>
      rw [lastSpot, lastSpotOfLast_eq] at h
      split at h
      · cases h
      · rename_i last hlast
        exact ih last (List.mem_of_getLast? hlast) h
  | phrase | expression =>
      cases h
      exact ⟨_, rfl⟩

/-- A tree without a span ends in a tree that has no tokens. -/
theorem fault_of_span {t : Tree} {f : Fault} (h : t.span = .error f) : ∃ c, f = .withoutSpan c := by
  rw [span] at h
  rcases Fault.of_bind h with hfirst | ⟨first, -, h⟩
  · exact fault_of_firstSpot hfirst
  · rcases Fault.of_bind h with hlast | ⟨last, -, h⟩
    · exact fault_of_lastSpot hlast
    · cases h

/-- That a tree has a first token and a last one. -/
def HasSpan (t : Tree) : Prop :=
  (∃ first, t.firstSpot = .ok first) ∧ ∃ last, t.lastSpot = .ok last

theorem HasSpan.exists_span {t : Tree} (h : t.HasSpan) :
    ∃ first last, t.span = .ok (first, last) ∧ t.firstSpot = .ok first ∧ t.lastSpot = .ok last := by
  obtain ⟨⟨first, hfirst⟩, last, hlast⟩ := h
  refine ⟨first, last, ?_, hfirst, hlast⟩
  rw [span, hfirst, hlast]
  rfl

/-- A call has a span if each of its arguments has one. -/
theorem hasSpan_call {callee : Name} {args : List Tree} (h : ∀ a ∈ args, a.HasSpan) :
    (Tree.call callee args).HasSpan := by
  refine ⟨⟨callee.spot, rfl⟩, ?_⟩
  rw [lastSpot, lastSpotOfLast_eq]
  split
  · exact ⟨_, rfl⟩
  · rename_i last hlast
    exact (h last (List.mem_of_getLast? hlast)).2

theorem hasSpan_program {statements : List Tree} (h : ∀ s ∈ statements, s.HasSpan) :
    (Tree.program statements).HasSpan := by
  constructor
  · cases statements with
    | nil => exact ⟨0, rfl⟩
    | cons first rest => exact (h first List.mem_cons_self).1
  · rw [lastSpot, lastSpotOfLast_eq]
    split
    · exact ⟨_, rfl⟩
    · rename_i last hlast
      exact (h last (List.mem_of_getLast? hlast)).2

end StraightLine.Tree
