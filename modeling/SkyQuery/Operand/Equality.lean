import SkyQuery.Operand.Basic

/-!
# Equality of operands

Two operands are equal when their trees are, the places of all nodes included.
-/

namespace SkyQuery.Operand

mutual
/-- Whether two trees are equal. -/
def sameTree : Operand → Operand → Bool
  | .number t p, o =>
    match o with
    | .number t' p' =>
      decide (t = t') && decide (p = p')
    | _ => false
  | .string t p, o =>
    match o with
    | .string t' p' =>
      decide (t = t') && decide (p = p')
    | _ => false
  | .column c, o =>
    match o with
    | .column c' =>
      decide (c = c')
    | _ => false
  | .binary l op r p, o =>
    match o with
    | .binary l' op' r' p' =>
      sameTree l l' && decide (op = op') && sameTree r r' && decide (p = p')
    | _ => false
  | .unary op x p, o =>
    match o with
    | .unary op' x' p' =>
      decide (op = op') && sameTree x x' && decide (p = p')
    | _ => false
  | .concat xs p, o =>
    match o with
    | .concat xs' p' =>
      sameAll xs xs' && decide (p = p')
    | _ => false
  | .scalar f xs p, o =>
    match o with
    | .scalar f' xs' p' =>
      decide (f = f') && sameAll xs xs' && decide (p = p')
    | _ => false
  | .cast x t p, o =>
    match o with
    | .cast x' t' p' =>
      sameTree x x' && decide (t = t') && decide (p = p')
    | _ => false
  | .udf n xs d p, o =>
    match o with
    | .udf n' xs' d' p' =>
      decide (n = n') && sameAll xs xs' && decide (d = d') && decide (p = p')
    | _ => false
  | .point s x y p, o =>
    match o with
    | .point s' x' y' p' =>
      sameTree s s' && sameTree x x' && sameTree y y' && decide (p = p')
    | _ => false
  | .circle s x y r p, o =>
    match o with
    | .circle s' x' y' r' p' =>
      sameTree s s' && sameTree x x' && sameTree y y' && sameTree r r' && decide (p = p')
    | _ => false
  | .box s x y w h p, o =>
    match o with
    | .box s' x' y' w' h' p' =>
      sameTree s s' && sameTree x x' && sameTree y y' && sameTree w w' && sameTree h h' && decide (p = p')
    | _ => false
  | .polygon s vs p, o =>
    match o with
    | .polygon s' vs' p' =>
      sameTree s s' && sameVertices vs vs' && decide (p = p')
    | _ => false
  | .region t p, o =>
    match o with
    | .region t' p' =>
      sameTree t t' && decide (p = p')
    | _ => false
  | .extract k g p, o =>
    match o with
    | .extract k' g' p' =>
      decide (k = k') && sameTree g g' && decide (p = p')
    | _ => false
  | .relate k l r p, o =>
    match o with
    | .relate k' l' r' p' =>
      decide (k = k') && sameTree l l' && sameTree r r' && decide (p = p')
    | _ => false

def sameAll : List Operand → List Operand → Bool
  | [], ys => ys.isEmpty
  | x :: xs, ys =>
    match ys with
    | y :: ys => sameTree x y && sameAll xs ys
    | [] => false

def sameVertices : List (Operand × Operand) → List (Operand × Operand) → Bool
  | [], ws => ws.isEmpty
  | (x, y) :: vs, ws =>
    match ws with
    | (x', y') :: ws => sameTree x x' && sameTree y y' && sameVertices vs ws
    | [] => false
end

mutual
theorem sameTree_iff : ∀ a b : Operand, sameTree a b = true ↔ a = b
  | .number t p, o => by
    cases o <;> simp [sameTree]
  | .string t p, o => by
    cases o <;> simp [sameTree]
  | .column c, o => by
    cases o <;> simp [sameTree]
  | .binary l op r p, o => by
    cases o <;> simp [sameTree, sameTree_iff l, sameTree_iff r, and_assoc]
  | .unary op x p, o => by
    cases o <;> simp [sameTree, sameTree_iff x, and_assoc]
  | .concat xs p, o => by
    cases o <;> simp [sameTree, sameAll_iff xs]
  | .scalar f xs p, o => by
    cases o <;> simp [sameTree, sameAll_iff xs, and_assoc]
  | .cast x t p, o => by
    cases o <;> simp [sameTree, sameTree_iff x, and_assoc]
  | .udf n xs d p, o => by
    cases o <;> simp [sameTree, sameAll_iff xs, and_assoc]
  | .point s x y p, o => by
    cases o <;> simp [sameTree, sameTree_iff s, sameTree_iff x, sameTree_iff y, and_assoc]
  | .circle s x y r p, o => by
    cases o <;> simp [sameTree, sameTree_iff s, sameTree_iff x, sameTree_iff y, sameTree_iff r, and_assoc]
  | .box s x y w h p, o => by
    cases o <;> simp [sameTree, sameTree_iff s, sameTree_iff x, sameTree_iff y, sameTree_iff w, sameTree_iff h, and_assoc]
  | .polygon s vs p, o => by
    cases o <;> simp [sameTree, sameTree_iff s, sameVertices_iff vs, and_assoc]
  | .region t p, o => by
    cases o <;> simp [sameTree, sameTree_iff t]
  | .extract k g p, o => by
    cases o <;> simp [sameTree, sameTree_iff g, and_assoc]
  | .relate k l r p, o => by
    cases o <;> simp [sameTree, sameTree_iff l, sameTree_iff r, and_assoc]

theorem sameAll_iff : ∀ xs ys : List Operand, sameAll xs ys = true ↔ xs = ys
  | [], ys => by cases ys <;> simp [sameAll]
  | x :: xs, ys => by cases ys <;> simp [sameAll, sameTree_iff x, sameAll_iff xs]

theorem sameVertices_iff : ∀ vs ws : List (Operand × Operand), sameVertices vs ws = true ↔ vs = ws
  | [], ws => by cases ws <;> simp [sameVertices]
  | (x, y) :: vs, ws => by
    cases ws with
    | nil => simp [sameVertices]
    | cons w ws =>
      obtain ⟨x', y'⟩ := w
      simp [sameVertices, sameTree_iff x, sameTree_iff y, sameVertices_iff vs]
end

instance : DecidableEq Operand := fun a b =>
  decidable_of_iff (sameTree a b = true) (sameTree_iff a b)

end SkyQuery.Operand
