import SkyQuery.FeatureSet
import SkyQuery.Node

/-!
# Validation against the enabled features

Both walks keep the nodes still to be visited on a stack, so the depth of a query costs no calls. The
next node is taken from the end of the stack and its parts are put there in its place. They are
turned around first, since the leftmost part has to be taken first. One walk collects every node
that is not enabled and the other stops at the first.
-/

namespace SkyQuery.Validation

/-- Puts the parts of a node on the stack with the leftmost one on top. Only the new segment of the
stack is turned around. -/
def pushParts (stack : Array Node) (n : Node) : Array Node :=
  let start := stack.size
  let grown := stack ++ n.children.toArray
  grown.extract 0 start ++ (grown.extract start).reverse

theorem pushParts_eq (stack : Array Node) (n : Node) :
    pushParts stack n = stack ++ n.children.toArray.reverse := by
  simp [pushParts, Array.extract_append]

theorem toList_pushParts (stack : Array Node) (n : Node) :
    (pushParts stack n).toList = stack.toList ++ n.children.reverse := by
  simp [pushParts_eq]

/-- A stack with a top is the rest of the stack with the top pushed on it. -/
theorem toList_of_back? {stack : Array Node} {n : Node} (h : stack.back? = some n) :
    stack.toList = stack.pop.toList ++ [n] := by
  obtain ⟨rest, rfl⟩ := Array.back?_eq_some_iff.mp h
  simp

/-- Every visit makes the stack lighter. -/
theorem weights_pushParts_lt {stack : Array Node} {n : Node} (h : stack.back? = some n) :
    Node.weights (pushParts stack.pop n).toList < Node.weights stack.toList := by
  have := Node.weights_children_lt n
  rw [toList_pushParts, toList_of_back? h]
  simp
  omega

/-- Adds the error for a node that is not enabled. -/
def record (enabled : FeatureSet) (found : Array Error) (n : Node) : Array Error :=
  if enabled.isEnabled n.feature then found else found.push (n.unsupported none)

/-- The errors for all nodes that are not enabled, among those on the stack and their parts, after
the errors found before. -/
def collect (enabled : FeatureSet) (stack : Array Node) (found : Array Error) : Array Error :=
  match _h : stack.back? with
  | none => found
  | some n => collect enabled (pushParts stack.pop n) (record enabled found n)
termination_by Node.weights stack.toList
decreasing_by exact weights_pushParts_lt ‹_›

/-- Fails at the first node that is not enabled, among those on the stack and their parts. -/
def scan (enabled : FeatureSet) (stack : Array Node) : Except Error Unit :=
  match _h : stack.back? with
  | none => .ok ()
  | some n =>
    if enabled.isEnabled n.feature then scan enabled (pushParts stack.pop n)
    else .error (n.unsupported none)
termination_by Node.weights stack.toList
decreasing_by exact weights_pushParts_lt ‹_›

/-- All that a tree asks for and is not enabled, in the order of the text. -/
def unsupported (root : Node) (enabled : FeatureSet) : List Error :=
  (collect enabled #[root] #[]).toList

/-- Succeeds when everything the tree asks for is enabled. -/
def check (root : Node) (enabled : FeatureSet) : Except Error Unit :=
  scan enabled #[root]

end SkyQuery.Validation
