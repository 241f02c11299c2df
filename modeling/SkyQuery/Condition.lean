import SkyQuery.Operand.Adql
import SkyQuery.Operand.Equality

/-!
# Search conditions
-/

namespace SkyQuery

inductive Comparison where
  | eq | ne | lt | le | gt | ge | like | notLike | ilike | notIlike
  deriving DecidableEq, Repr

namespace Comparison

def symbol : Comparison → String
  | .eq => "="
  | .ne => "<>"
  | .lt => "<"
  | .le => "<="
  | .gt => ">"
  | .ge => ">="
  | .like => "LIKE"
  | .notLike => "NOT LIKE"
  | .ilike => "ILIKE"
  | .notIlike => "NOT ILIKE"

def all : List Comparison :=
  [.eq, .ne, .lt, .le, .gt, .ge, .like, .notLike, .ilike, .notIlike]

def ofSymbol? (symbol : String) : Option Comparison := all.find? fun op => op.symbol == symbol

end Comparison

inductive Condition where
  | compare (l : Operand) (op : Comparison) (r : Operand) (pos : Option Span)
  | isNull (x : Operand) (negated : Bool) (pos : Option Span)
  | between (x low high : Operand) (negated : Bool) (pos : Option Span)
  | all (cs : List Condition)
  | any (cs : List Condition)
  | not (c : Condition)

namespace Condition

/-- From the first place to the last, if both are known. -/
def spanOf (ps : List (Option Span)) : Option Span :=
  match ps.head?.join, ps.getLast?.join with
  | some first, some last => some (.between first last)
  | _, _ => none

mutual
/-- The place of a condition; that of a group reaches from its first member to its last. -/
def position : Condition → Option Span
  | .compare _ _ _ pos => pos
  | .isNull _ _ pos => pos
  | .between _ _ _ _ pos => pos
  | .all cs => spanOf (positions cs)
  | .any cs => spanOf (positions cs)
  | .not c => position c

/-- The places of the members. -/
def positions : List Condition → List (Option Span)
  | [] => []
  | c :: cs => position c :: positions cs
end

def feature : Condition → Feature
  | .compare _ .ilike _ _ => .ilike
  | .compare _ .notIlike _ _ => .ilike
  | .compare .. => .comparison
  | .isNull .. => .isNull
  | .between .. => .between
  | .all _ => .and
  | .any _ => .or
  | .not _ => .not

/-- Whether the condition is a conjunction or a disjunction. -/
def isGroup : Condition → Bool
  | .all _ => true
  | .any _ => true
  | _ => false

mutual
/-- The canonical query text. -/
def adql : Condition → String
  | .compare l op r _ => l.adql ++ " " ++ op.symbol ++ " " ++ r.adql
  | .isNull x negated _ => x.adql ++ (if negated then " IS NOT NULL" else " IS NULL")
  | .between x low high negated _ =>
    x.adql ++ (if negated then " NOT BETWEEN " else " BETWEEN ") ++ low.adql ++ " AND " ++ high.adql
  | .all cs => Text.joinWith " AND " (members cs)
  | .any cs => Text.joinWith " OR " (members cs)
  | .not c => "NOT " ++ Operand.wrapped c.isGroup (adql c)

/-- The texts of the members, groups in parentheses. -/
def members : List Condition → List String
  | [] => []
  | c :: cs => Operand.wrapped c.isGroup (adql c) :: members cs
end

mutual
/-- Whether two trees are equal. -/
def sameTree : Condition → Condition → Bool
  | .compare l op r p, c =>
    match c with
    | .compare l' op' r' p' => decide (l = l') && decide (op = op') && decide (r = r') && decide (p = p')
    | _ => false
  | .isNull x n p, c =>
    match c with
    | .isNull x' n' p' => decide (x = x') && decide (n = n') && decide (p = p')
    | _ => false
  | .between x l h n p, c =>
    match c with
    | .between x' l' h' n' p' =>
      decide (x = x') && decide (l = l') && decide (h = h') && decide (n = n') && decide (p = p')
    | _ => false
  | .all cs, c =>
    match c with
    | .all cs' => sameAll cs cs'
    | _ => false
  | .any cs, c =>
    match c with
    | .any cs' => sameAll cs cs'
    | _ => false
  | .not d, c =>
    match c with
    | .not d' => sameTree d d'
    | _ => false

def sameAll : List Condition → List Condition → Bool
  | [], ds => ds.isEmpty
  | c :: cs, ds =>
    match ds with
    | d :: ds => sameTree c d && sameAll cs ds
    | [] => false
end

mutual
theorem sameTree_iff : ∀ a b : Condition, sameTree a b = true ↔ a = b
  | .compare l op r p, c => by cases c <;> simp [sameTree, and_assoc]
  | .isNull x n p, c => by cases c <;> simp [sameTree, and_assoc]
  | .between x l h n p, c => by cases c <;> simp [sameTree, and_assoc]
  | .all cs, c => by cases c <;> simp [sameTree, sameAll_iff cs]
  | .any cs, c => by cases c <;> simp [sameTree, sameAll_iff cs]
  | .not d, c => by cases c <;> simp [sameTree, sameTree_iff d]

theorem sameAll_iff : ∀ xs ys : List Condition, sameAll xs ys = true ↔ xs = ys
  | [], ys => by cases ys <;> simp [sameAll]
  | x :: xs, ys => by cases ys <;> simp [sameAll, sameTree_iff x, sameAll_iff xs]
end

instance : DecidableEq Condition := fun a b =>
  decidable_of_iff (sameTree a b = true) (sameTree_iff a b)

end Condition

end SkyQuery
