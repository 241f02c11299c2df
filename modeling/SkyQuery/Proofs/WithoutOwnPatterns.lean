import SkyQuery.Proofs.Dialect.Places
import SkyQuery.Proofs.OwnPattern

/-!
# Trees without own patterns

A pattern that says nothing can be taken away from every signature that is attached to a call. The
tree that is left has the same text, the same names and the same tests of relations.
-/

namespace SkyQuery

namespace Operand

mutual
/-- The tree, with every attached signature that has the own pattern of its call without it. -/
def withoutOwnPatterns : Operand → Operand
  | .number t pos => .number t pos
  | .string t pos => .string t pos
  | .column c => .column c
  | .binary l op r pos => .binary (withoutOwnPatterns l) op (withoutOwnPatterns r) pos
  | .unary op x pos => .unary op (withoutOwnPatterns x) pos
  | .concat xs pos => .concat (withoutOwnPatternsEach xs) pos
  | .scalar f args pos => .scalar f (withoutOwnPatternsEach args) pos
  | .cast x target pos => .cast (withoutOwnPatterns x) target pos
  | .udf name args definition pos =>
    .udf name (withoutOwnPatternsEach args)
      (definition.map (Signature.withoutOwnPattern name args.length)) pos
  | .point s x y pos =>
    .point (withoutOwnPatterns s) (withoutOwnPatterns x) (withoutOwnPatterns y) pos
  | .circle s x y r pos =>
    .circle (withoutOwnPatterns s) (withoutOwnPatterns x) (withoutOwnPatterns y)
      (withoutOwnPatterns r) pos
  | .box s x y w h pos =>
    .box (withoutOwnPatterns s) (withoutOwnPatterns x) (withoutOwnPatterns y)
      (withoutOwnPatterns w) (withoutOwnPatterns h) pos
  | .polygon s vs pos => .polygon (withoutOwnPatterns s) (withoutOwnPatternsVertices vs) pos
  | .region t pos => .region (withoutOwnPatterns t) pos
  | .extract part g pos => .extract part (withoutOwnPatterns g) pos
  | .relate relation l r pos => .relate relation (withoutOwnPatterns l) (withoutOwnPatterns r) pos

def withoutOwnPatternsEach : List Operand → List Operand
  | [] => []
  | x :: xs => withoutOwnPatterns x :: withoutOwnPatternsEach xs

def withoutOwnPatternsVertices : List (Operand × Operand) → List (Operand × Operand)
  | [] => []
  | (x, y) :: vs => (withoutOwnPatterns x, withoutOwnPatterns y) :: withoutOwnPatternsVertices vs
end

theorem withoutOwnPatternsEach_eq (xs : List Operand) :
    withoutOwnPatternsEach xs = xs.map withoutOwnPatterns := by
  induction xs with
  | nil => rfl
  | cons x xs ih => simp [withoutOwnPatternsEach, ih]

theorem name_withoutOwnPatterns (o : Operand) : o.withoutOwnPatterns.name = o.name := by
  cases o with
  | unary op x pos => rw [withoutOwnPatterns, name, name, name_withoutOwnPatterns x]
  | _ => simp [withoutOwnPatterns, name]

theorem precedence_withoutOwnPatterns (o : Operand) :
    o.withoutOwnPatterns.precedence = o.precedence := by
  cases o <;> simp [withoutOwnPatterns, precedence]

theorem isEmptyString_withoutOwnPatterns (o : Operand) :
    o.withoutOwnPatterns.isEmptyString = o.isEmptyString := by
  cases o <;> simp [withoutOwnPatterns, isEmptyString]

theorem withoutOwnPatterns_ne_number {o : Operand} (h : ∀ t pos, o ≠ .number t pos) (t : String)
    (pos : Option Span) : o.withoutOwnPatterns ≠ .number t pos := by
  cases o with
  | number t pos => exact absurd rfl (h t pos)
  | _ => simp [withoutOwnPatterns]

mutual
/-- The query text does not show the patterns. -/
theorem adql_withoutOwnPatterns (o : Operand) : o.withoutOwnPatterns.adql = o.adql := by
  cases o with
  | number | string | column => rw [withoutOwnPatterns]
  | binary l op r pos =>
    rw [withoutOwnPatterns, adql, adql, precedence_withoutOwnPatterns,
      precedence_withoutOwnPatterns, adql_withoutOwnPatterns l, adql_withoutOwnPatterns r]
  | unary op x pos =>
    rw [withoutOwnPatterns, adql, adql, precedence_withoutOwnPatterns, adql_withoutOwnPatterns x]
  | concat xs pos => rw [withoutOwnPatterns, adql, adql, atoms_withoutOwnPatterns xs]
  | scalar _ args pos | udf _ args _ pos =>
    rw [withoutOwnPatterns, adql, adql, adqls_withoutOwnPatterns args]
  | cast x target pos => rw [withoutOwnPatterns, adql, adql, adql_withoutOwnPatterns x]
  | point s x y pos =>
    rw [withoutOwnPatterns, adql, adql, systemAdql, systemAdql, isEmptyString_withoutOwnPatterns,
      adql_withoutOwnPatterns s, adql_withoutOwnPatterns x, adql_withoutOwnPatterns y]
  | circle s x y r pos =>
    rw [withoutOwnPatterns, adql, adql, systemAdql, systemAdql, isEmptyString_withoutOwnPatterns,
      adql_withoutOwnPatterns s, adql_withoutOwnPatterns x, adql_withoutOwnPatterns y,
      adql_withoutOwnPatterns r]
  | box s x y w h pos =>
    rw [withoutOwnPatterns, adql, adql, systemAdql, systemAdql, isEmptyString_withoutOwnPatterns,
      adql_withoutOwnPatterns s, adql_withoutOwnPatterns x, adql_withoutOwnPatterns y,
      adql_withoutOwnPatterns w, adql_withoutOwnPatterns h]
  | polygon s vs pos =>
    rw [withoutOwnPatterns, adql, adql, systemAdql, systemAdql, isEmptyString_withoutOwnPatterns,
      adql_withoutOwnPatterns s, vertexAdqls_withoutOwnPatterns vs]
  | region t pos => rw [withoutOwnPatterns, adql, adql, adql_withoutOwnPatterns t]
  | extract part g pos => rw [withoutOwnPatterns, adql, adql, adql_withoutOwnPatterns g]
  | relate relation l r pos =>
    rw [withoutOwnPatterns, adql, adql, adql_withoutOwnPatterns l, adql_withoutOwnPatterns r]

theorem adqls_withoutOwnPatterns (xs : List Operand) :
    adqls (withoutOwnPatternsEach xs) = adqls xs := by
  cases xs with
  | nil => rfl
  | cons x xs =>
    rw [withoutOwnPatternsEach, adqls, adqls, adql_withoutOwnPatterns x,
      adqls_withoutOwnPatterns xs]

theorem atoms_withoutOwnPatterns (xs : List Operand) :
    atoms (withoutOwnPatternsEach xs) = atoms xs := by
  cases xs with
  | nil => rfl
  | cons x xs =>
    rw [withoutOwnPatternsEach, atoms, atoms, precedence_withoutOwnPatterns,
      adql_withoutOwnPatterns x, atoms_withoutOwnPatterns xs]

theorem vertexAdqls_withoutOwnPatterns (vs : List (Operand × Operand)) :
    vertexAdqls (withoutOwnPatternsVertices vs) = vertexAdqls vs := by
  match vs with
  | [] => rfl
  | (x, y) :: vs =>
    rw [withoutOwnPatternsVertices, vertexAdqls, vertexAdqls, adql_withoutOwnPatterns x,
      adql_withoutOwnPatterns y, vertexAdqls_withoutOwnPatterns vs]
end

theorem literalRegion_of_ne_string {o : Operand} (h : ∀ t p, o ≠ .string t p)
    (pos : Option Span) : o.literalRegion pos = .error (.geometry (.notLiteral o.adql) pos) := by
  cases o with
  | string t p => exact absurd rfl (h t p)
  | _ => rfl

/-- The fault of a region without a literal shows the operand, though not its patterns. -/
theorem literalRegion_withoutOwnPatterns (text : Operand) (pos : Option Span) :
    text.withoutOwnPatterns.literalRegion pos = text.literalRegion pos := by
  by_cases hstring : ∃ t p, text = .string t p
  · obtain ⟨t, p, rfl⟩ := hstring
    rw [withoutOwnPatterns]
  · have hother : ∀ t p, text ≠ .string t p := fun t p h => hstring ⟨t, p, h⟩
    have hwithout : ∀ t p, text.withoutOwnPatterns ≠ .string t p := by
      cases text with
      | string t p => exact absurd rfl (hother t p)
      | _ => simp [withoutOwnPatterns]
    rw [literalRegion_of_ne_string hother, literalRegion_of_ne_string hwithout,
      adql_withoutOwnPatterns]

end Operand

namespace Condition

mutual
def withoutOwnPatterns : Condition → Condition
  | .compare l op r pos => .compare l.withoutOwnPatterns op r.withoutOwnPatterns pos
  | .isNull x negated pos => .isNull x.withoutOwnPatterns negated pos
  | .between x low high negated pos =>
    .between x.withoutOwnPatterns low.withoutOwnPatterns high.withoutOwnPatterns negated pos
  | .all cs => .all (withoutOwnPatternsEach cs)
  | .any cs => .any (withoutOwnPatternsEach cs)
  | .not c => .not (withoutOwnPatterns c)

def withoutOwnPatternsEach : List Condition → List Condition
  | [] => []
  | c :: cs => withoutOwnPatterns c :: withoutOwnPatternsEach cs
end

theorem keepsTests_withoutOwnPatterns : KeepsTests Operand.withoutOwnPatterns where
  relate k a b p := ⟨_, _, _, rfl⟩
  number t p := ⟨_, rfl⟩
  of_relate {o} h := by cases o <;> simp_all [Operand.withoutOwnPatterns]
  of_number {o} h := by cases o <;> simp_all [Operand.withoutOwnPatterns]

end Condition

namespace Source

def ruleWithoutOwnPatterns : JoinRule → JoinRule
  | .on c => .on c.withoutOwnPatterns
  | rule => rule

def withoutOwnPatterns : Source → Source
  | .table name as pos => .table name as pos
  | .join l natural kind r rule pos =>
    .join (withoutOwnPatterns l) natural kind (withoutOwnPatterns r) (ruleWithoutOwnPatterns rule)
      pos

end Source

def SelectItem.withoutOwnPatterns : SelectItem → SelectItem
  | .value x as => .value x.withoutOwnPatterns as
  | item => item

def OrderKey.withoutOwnPatterns : OrderKey → OrderKey
  | .value x => .value x.withoutOwnPatterns
  | .index i => .index i

def OrderItem.withoutOwnPatterns (o : OrderItem) : OrderItem :=
  { o with key := o.key.withoutOwnPatterns }

/-- The query, with every attached signature that has the own pattern of its call without it. -/
def Query.withoutOwnPatterns (q : Query) : Query :=
  { q with
    items := q.items.map SelectItem.withoutOwnPatterns
    sources := q.sources.map Source.withoutOwnPatterns
    filter := q.filter.map Condition.withoutOwnPatterns
    groups := q.groups.map Operand.withoutOwnPatterns
    having := q.having.map Condition.withoutOwnPatterns
    order := q.order.map OrderItem.withoutOwnPatterns }

end SkyQuery
