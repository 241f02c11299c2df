import SkyQuery.Proofs.CallNames
import SkyQuery.Proofs.Dialect.Alike
import SkyQuery.Proofs.Dialect.Faults
import SkyQuery.Proofs.Dialect.Worded
import SkyQuery.Proofs.WithoutOwnPatterns

/-!
# A call under its own pattern

A signature whose pattern is the own pattern of a call is as good as one without a pattern. What a
call becomes differs, a text as it is or a node with arguments, but nothing around it tells the two
apart. So a whole query has the same text or the same fault.
-/

namespace SkyQuery

open Sql (Expr Style)

/-- Something holds of the name, the number of arguments and the attached signature of every call
in a tree. -/
def Node.EveryCall (p : String → Nat → Option Signature → Prop) (root : Node) : Prop :=
  ∀ name args definition pos, Within (.operand (.udf name args definition pos)) root →
    p name args.length definition

section EveryCall

variable {p : String → Nat → Option Signature → Prop} {m n : Node} {x o : Operand}

theorem Node.EveryCall.part (h : n.EveryCall p) (hm : Node.Part m n) : m.EveryCall p :=
  fun name args definition pos hcall => h name args definition pos (hcall.tail hm)

theorem Node.everyCall_of_children
    (h : ∀ name args definition pos, n = .operand (.udf name args definition pos) →
      p name args.length definition)
    (hparts : ∀ m ∈ n.children, m.EveryCall p) : n.EveryCall p := by
  intro name args definition pos hcall
  rcases hcall.cases_tail with heq | ⟨m, hm, hmn⟩
  · exact h name args definition pos heq
  · exact hparts m (Node.mem_children_of_part hmn) name args definition pos hm

theorem Node.EveryCall.operand (h : (Node.operand o).EveryCall p) (hx : Operand.Part x o) :
    (Node.operand x).EveryCall p :=
  h.part (.operand x o hx)

end EveryCall

namespace Dialect

variable {d : Dialect} {functions : Option Registry}

/-- The dialect with other declared functions. -/
def withFunctions (d : Dialect) (functions : Option Registry) : Dialect :=
  { d with functions := functions }

/-- The pattern that a call is written by. -/
def patternOf (d : Dialect) (name : String) (count : Nat) (attached : Option Signature) :
    Option String :=
  (d.definitionOf name count attached).bind Signature.pattern

/-- The patterns of a call, before and after a change of the functions, are the same unless they are
its own one. -/
def KeepsPattern (d : Dialect) (functions : Option Registry) (name : String) (count : Nat)
    (attached : Option Signature) : Prop :=
  Signature.telling name count (d.patternOf name count attached) =
    Signature.telling name count ((d.withFunctions functions).patternOf name count
      (attached.map (Signature.withoutOwnPattern name count)))

section Calls

variable {name : String} {attached : Option Signature} {xs ys : List Expr}

/-- The text of an argument, counted from one. -/
def argumentText (name : String) (texts : List String) : Nat → Except Error String
  | 0 => .error (.lowering (.placeholder 0 name))
  | i + 1 =>
    match texts[i]? with
    | some text => .ok text
    | none => .error (.lowering (.placeholder (i + 1) name))

theorem argumentText_of_lt (name : String) (texts : List String) (i : Nat) (hi : i < texts.length) :
    argumentText name texts (i + 1) = .ok texts[i] := by
  rw [argumentText, List.getElem?_eq_getElem hi]

/-- Only the texts of the arguments enter a pattern. -/
theorem udfCall_of_pattern {pattern : String}
    (h : d.patternOf name xs.length attached = some pattern) :
    d.udfCall name attached xs = (do
      let text ← Pattern.expand pattern (argumentText name (xs.map (Expr.sql d.style)))
      return .verbatim text) := by
  rw [patternOf] at h
  rw [udfCall, h]
  refine congrArg (fun arg => Pattern.expand pattern arg >>= fun text =>
    (pure (Expr.verbatim text) : Except Error Expr)) (funext fun k => ?_)
  cases k with
  | zero => rfl
  | succ i =>
    simp only [argumentText, List.getElem?_map]
    cases xs[i]? <;> rfl

/-- Without a pattern, and with its own one, a call is written with its name and arguments. -/
theorem udfCall_of_telling_none
    (h : Signature.telling name xs.length (d.patternOf name xs.length attached) = none) :
    ∃ e, d.udfCall name attached xs = .ok e ∧ Alike d.style e (.call name xs) := by
  cases hpattern : d.patternOf name xs.length attached with
  | none => exact ⟨.call name xs, udfCall_of_no_pattern hpattern, .refl _⟩
  | some pattern =>
    have hown := Signature.telling_eq_none_iff.1 h pattern hpattern
    obtain ⟨⟨hname, hcount⟩, rfl⟩ := Signature.isOwnPattern_iff.1 hown
    refine ⟨.verbatim ((Expr.call name xs).sql d.style), ?_, .verbatim_call name xs⟩
    rw [← List.length_map (Expr.sql d.style)] at hcount hpattern
    have hexpand := Signature.expand_ownPattern hname hcount
      (argumentText_of_lt name (xs.map (Expr.sql d.style)))
    rw [List.length_map] at hexpand hpattern
    rw [udfCall_of_pattern hpattern, hexpand, Expr.sql, Expr.sqls_eq]
    rfl

/-- Calls with alike arguments are alike if their patterns say the same. -/
theorem agree_udfCall (hkeeps : d.KeepsPattern functions name xs.length attached)
    (h : List.Forall₂ (Alike d.style) xs ys) :
    Agree (Alike d.style) (d.udfCall name attached xs)
      ((d.withFunctions functions).udfCall name
        (attached.map (Signature.withoutOwnPattern name xs.length)) ys) := by
  have hlength := h.length_eq
  rw [KeepsPattern] at hkeeps
  cases htelling : Signature.telling name xs.length (d.patternOf name xs.length attached) with
  | none =>
    obtain ⟨e, he, halike⟩ := udfCall_of_telling_none htelling
    rw [hkeeps, hlength] at htelling
    obtain ⟨e', he', halike'⟩ := udfCall_of_telling_none htelling
    rw [he, hlength, he']
    exact .ok ((halike.trans (.call name h)).trans halike'.symm)
  | some pattern =>
    have hpattern := Signature.eq_some_of_telling htelling
    rw [hkeeps] at htelling
    have hpattern' := Signature.eq_some_of_telling htelling
    rw [hlength] at hpattern'
    rw [udfCall_of_pattern hpattern, hlength, udfCall_of_pattern hpattern', Alike.map_sql h]
    exact .of_eq .refl _

end Calls

theorem alike_operation {style : Style} {l r l' r' : Expr} (op : Arithmetic)
    (hl : Alike style l l') (hr : Alike style r r') :
    Alike style (d.operation l op r) (d.operation l' op r') := by
  rw [operation, operation]
  split
  · exact (hl.operation .bitOr hr).operation .sub (hl.operation .bitAnd hr)
  · exact hl.operation op.sqlOperator hr

section Operands

open Operand

/-- An operand is written as before, and its fault is the same, after own patterns are taken away
and the functions are changed. -/
def StaysAlike (d : Dialect) (functions : Option Registry) (o : Operand) : Prop :=
  Agree (Alike d.style) (d.operand o) ((d.withFunctions functions).operand o.withoutOwnPatterns)

variable {pos : Option Span}

theorem staysAlike_unary (op : Sign) {x : Operand} (hx : d.StaysAlike functions x) :
    d.StaysAlike functions (.unary op x pos) := by
  rw [StaysAlike, withoutOwnPatterns]
  cases op with
  | bitNot =>
    rw [operand, operand]
    exact hx.map fun x x' halike => halike.unary .bitNot
  | negative =>
    by_cases hnumber : ∃ t place, x = .number t place
    · obtain ⟨t, place, rfl⟩ := hnumber
      rw [withoutOwnPatterns, operand, operand]
      exact .of_eq .refl _
    · have hother : ∀ t place, x ≠ .number t place := fun t place heq => hnumber ⟨t, place, heq⟩
      rw [operand_negative hother, operand_negative (withoutOwnPatterns_ne_number hother)]
      exact hx.map fun x x' halike => halike.unary .neg

theorem staysAlike_udf {name : String} {args : List Operand} {definition : Option Signature}
    (hkeeps : d.KeepsPattern functions name args.length definition)
    (hargs : Agree (List.Forall₂ (Alike d.style)) (d.operands args)
      ((d.withFunctions functions).operands (withoutOwnPatternsEach args))) :
    d.StaysAlike functions (.udf name args definition pos) := by
  rw [StaysAlike, withoutOwnPatterns, operand, operand]
  refine hargs.bind_of_ok fun xs xs' hxs halike => ?_
  rw [← length_of_operands hxs] at hkeeps ⊢
  exact agree_udfCall hkeeps halike

theorem staysAlike_region (hd : d.KeepsAlike) {text : Operand}
    (htext : d.StaysAlike functions text) : d.StaysAlike functions (.region text pos) := by
  rw [StaysAlike, withoutOwnPatterns, operand, operand, literalRegion_withoutOwnPatterns]
  cases hregion : d.geometry.region with
  | ofText f =>
    rw [show (d.withFunctions functions).geometry.region = .ofText f from hregion]
    exact htext.map fun x x' halike => hd.regionOfText f hregion halike
  | ofLiteral f =>
    rw [show (d.withFunctions functions).geometry.region = .ofLiteral f from hregion]
    exact .of_eq .refl _

theorem staysAlike_extract (hd : d.KeepsAlike) (part : Extraction) {g : Operand}
    (hg : d.StaysAlike functions g) : d.StaysAlike functions (.extract part g pos) := by
  rw [StaysAlike, withoutOwnPatterns, operand.eq_def, operand.eq_def (d.withFunctions functions)]
  dsimp only [withFunctions]
  split
  · exact .ok (.refl _)
  · exact hg.map fun g g' halike => hd.extract _ halike

mutual
/-- So it is if the change keeps all other patterns of the calls. -/
theorem agree_operand (hd : d.KeepsAlike) (o : Operand)
    (h : (Node.operand o).EveryCall (d.KeepsPattern functions)) : d.StaysAlike functions o := by
  cases o with
  | number t pos | string t pos | column c =>
    rw [StaysAlike, withoutOwnPatterns, operand, operand]
    exact .of_eq .refl _
  | binary l op r pos =>
    rw [StaysAlike, withoutOwnPatterns, operand, operand]
    refine (agree_operand hd l (h.operand (.binaryLeft ..))).bind fun l l' hl => ?_
    exact (agree_operand hd r (h.operand (.binaryRight ..))).map fun r r' hr =>
      alike_operation op hl hr
  | unary op x pos =>
    exact staysAlike_unary op (agree_operand hd x (h.operand (.unary ..)))
  | concat xs pos =>
    rw [StaysAlike, withoutOwnPatterns, operand, operand]
    exact (agree_operands hd xs fun x hx => h.operand (.concat _ _ x hx)).map fun xs xs' halike =>
      .sequence .concat true halike
  | scalar f args pos =>
    rw [StaysAlike, withoutOwnPatterns, operand, operand]
    exact (agree_operands hd args fun x hx => h.operand (.scalar _ _ _ x hx)).map
      fun xs xs' halike => hd.scalar f xs xs' halike
  | cast x target pos =>
    rw [StaysAlike, withoutOwnPatterns, operand, operand]
    exact (agree_operand hd x (h.operand (.cast ..))).map fun x x' halike =>
      halike.cast (d.nativeType target)
  | udf name args definition pos =>
    exact staysAlike_udf (h name args definition pos .refl)
      (agree_operands hd args fun x hx => h.operand (.udf _ _ _ _ x hx))
  | point s x y pos =>
    rw [StaysAlike, withoutOwnPatterns, operand, operand]
    refine (agree_operand hd x (h.operand (.pointFirst ..))).bind fun x x' hx => ?_
    exact (agree_operand hd y (h.operand (.pointSecond ..))).map fun y y' hy => hd.point hx hy
  | circle s x y r pos =>
    rw [StaysAlike, withoutOwnPatterns, operand, operand]
    refine (agree_operand hd x (h.operand (.circleFirst ..))).bind fun x x' hx => ?_
    refine (agree_operand hd y (h.operand (.circleSecond ..))).bind fun y y' hy => ?_
    exact (agree_operand hd r (h.operand (.circleRadius ..))).map fun r r' hr => hd.circle hx hy hr
  | box s x y width height pos =>
    rw [StaysAlike, withoutOwnPatterns, operand, operand]
    refine (agree_operand hd x (h.operand (.boxFirst ..))).bind fun x x' hx => ?_
    refine (agree_operand hd y (h.operand (.boxSecond ..))).bind fun y y' hy => ?_
    refine (agree_operand hd width (h.operand (.boxWidth ..))).bind fun w w' hw => ?_
    exact (agree_operand hd height (h.operand (.boxHeight ..))).map fun e e' he =>
      hd.box hx hy hw he
  | polygon s vs pos =>
    rw [StaysAlike, withoutOwnPatterns, operand, operand]
    exact (agree_vertices hd vs (fun x y hv => h.operand (.vertexFirst _ _ _ x y hv))
      fun x y hv => h.operand (.vertexSecond _ _ _ x y hv)).map fun vs vs' halike =>
        hd.polygon halike
  | region text pos =>
    exact staysAlike_region hd (agree_operand hd text (h.operand (.region ..)))
  | extract part g pos =>
    exact staysAlike_extract hd part (agree_operand hd g (h.operand (.extract ..)))
  | relate relation l r pos =>
    rw [StaysAlike, withoutOwnPatterns, operand, operand]
    refine (agree_operand hd l (h.operand (.relateLeft ..))).bind fun l l' hl => ?_
    exact (agree_operand hd r (h.operand (.relateRight ..))).map fun r r' hr =>
      hd.relate relation hl hr

theorem agree_operands (hd : d.KeepsAlike) (xs : List Operand)
    (h : ∀ x ∈ xs, (Node.operand x).EveryCall (d.KeepsPattern functions)) :
    Agree (List.Forall₂ (Alike d.style)) (d.operands xs)
      ((d.withFunctions functions).operands (withoutOwnPatternsEach xs)) := by
  cases xs with
  | nil => exact .ok .nil
  | cons x xs =>
    rw [withoutOwnPatternsEach, operands, operands]
    refine (agree_operand hd x (h x List.mem_cons_self)).bind fun e e' he => ?_
    exact (agree_operands hd xs fun y hy => h y (List.mem_cons_of_mem _ hy)).map fun es es' hes =>
      .cons he hes

theorem agree_vertices (hd : d.KeepsAlike) (vs : List (Operand × Operand))
    (hfirst : ∀ x y, (x, y) ∈ vs → (Node.operand x).EveryCall (d.KeepsPattern functions))
    (hsecond : ∀ x y, (x, y) ∈ vs → (Node.operand y).EveryCall (d.KeepsPattern functions)) :
    Agree (List.Forall₂ (Alike.Vertices d.style)) (d.vertices vs)
      ((d.withFunctions functions).vertices (withoutOwnPatternsVertices vs)) := by
  match vs with
  | [] => exact .ok .nil
  | (x, y) :: vs =>
    rw [withoutOwnPatternsVertices, vertices, vertices]
    refine (agree_operand hd x (hfirst x y List.mem_cons_self)).bind fun e e' he => ?_
    refine (agree_operand hd y (hsecond x y List.mem_cons_self)).bind fun f f' hf => ?_
    exact (agree_vertices hd vs (fun x y hv => hfirst x y (List.mem_cons_of_mem _ hv))
      fun x y hv => hsecond x y (List.mem_cons_of_mem _ hv)).map fun es es' hes =>
        .cons ⟨he, hf⟩ hes
end

end Operands

theorem alike_comparedSide {x y : Expr} (op : Comparison) (h : Alike d.style x y) :
    Alike d.style (d.comparedSide op x) (d.comparedSide op y) := by
  rw [comparedSide, comparedSide]
  split
  · exact h.call_one "LOWER"
  · exact h

theorem alike_comparison {l r l' r' : Expr} (op : Comparison) (hl : Alike d.style l l')
    (hr : Alike d.style r r') : Alike d.style (d.comparison l op r) (d.comparison l' op r') := by
  rw [comparison_eq, comparison_eq]
  exact (alike_comparedSide op hl).binary _ false (alike_comparedSide op hr)

theorem agree_comparison (hd : d.KeepsAlike) (l : Operand) (op : Comparison) (r : Operand)
    (hl : (Node.operand l).EveryCall (d.KeepsPattern functions))
    (hr : (Node.operand r).EveryCall (d.KeepsPattern functions)) :
    Agree (Alike d.style)
      (do
        let l ← d.operand l
        let r ← d.operand r
        return d.comparison l op r)
      (do
        let l ← (d.withFunctions functions).operand l.withoutOwnPatterns
        let r ← (d.withFunctions functions).operand r.withoutOwnPatterns
        return (d.withFunctions functions).comparison l op r) := by
  refine (agree_operand hd l hl).bind fun x x' hx => ?_
  exact (agree_operand hd r hr).map fun y y' hy => alike_comparison op hx hy

mutual
theorem agree_condition (hd : d.KeepsAlike) (c : Condition)
    (h : (Node.condition c).EveryCall (d.KeepsPattern functions)) :
    Agree (Alike d.style) (d.condition c)
      ((d.withFunctions functions).condition c.withoutOwnPatterns) := by
  cases c with
  | compare l op r pos =>
    have hl := h.part (.compareLeft ..)
    have hr := h.part (.compareRight ..)
    rw [Condition.withoutOwnPatterns, condition, condition,
      Condition.relationTest_map Condition.keepsTests_withoutOwnPatterns l op r pos pos]
    rw [show (d.withFunctions functions).booleanRelations = d.booleanRelations from rfl]
    cases d.booleanRelations with
    | false => exact agree_comparison hd l op r hl hr
    | true =>
      cases htest : (Condition.compare l op r pos).relationTest with
      | none => exact agree_comparison hd l op r hl hr
      | some t =>
        obtain ⟨g, negated⟩ := t
        have hg : (Node.operand g).EveryCall (d.KeepsPattern functions) := by
          obtain ⟨_, _, _, ⟨rfl, _⟩ | ⟨rfl, _⟩⟩ := relationTest_eq_some htest
          · exact hl
          · exact hr
        refine (agree_operand hd g hg).map fun x x' halike => ?_
        cases negated with
        | false => exact halike
        | true => exact halike.unary .not
  | isNull x negated pos =>
    rw [Condition.withoutOwnPatterns, condition, condition]
    exact (agree_operand hd x (h.part (.isNull ..))).map fun x x' halike => halike.isNull negated
  | between x low high negated pos =>
    rw [Condition.withoutOwnPatterns, condition, condition]
    refine (agree_operand hd x (h.part (.between ..))).bind fun x x' hx => ?_
    refine (agree_operand hd low (h.part (.betweenLow ..))).bind fun low low' hlow => ?_
    exact (agree_operand hd high (h.part (.betweenHigh ..))).map fun high high' hhigh =>
      hx.between negated hlow hhigh
  | all cs =>
    rw [Condition.withoutOwnPatterns, condition, condition]
    exact (agree_members hd cs fun c hc => h.part (.all cs c hc)).map fun xs xs' halike =>
      .sequence .and false halike
  | any cs =>
    rw [Condition.withoutOwnPatterns, condition, condition]
    exact (agree_members hd cs fun c hc => h.part (.any cs c hc)).map fun xs xs' halike =>
      .sequence .or false halike
  | not c =>
    rw [Condition.withoutOwnPatterns, condition, condition]
    exact (agree_condition hd c (h.part (.not c))).map fun x x' halike =>
      halike.grouping.unary .not

theorem agree_members (hd : d.KeepsAlike) (cs : List Condition)
    (h : ∀ c ∈ cs, (Node.condition c).EveryCall (d.KeepsPattern functions)) :
    Agree (List.Forall₂ (Alike d.style)) (d.members cs)
      ((d.withFunctions functions).members (Condition.withoutOwnPatternsEach cs)) := by
  cases cs with
  | nil => exact .ok .nil
  | cons c cs =>
    rw [Condition.withoutOwnPatternsEach, members, members]
    refine (agree_condition hd c (h c List.mem_cons_self)).bind fun x x' hx => ?_
    exact (agree_members hd cs fun c hc => h c (List.mem_cons_of_mem _ hc)).map fun xs xs' hxs =>
      .cons hx.grouping hxs
end

/-- A condition that is left out has no text. -/
theorem agree_optionalCondition (hd : d.KeepsAlike) (c : Option Condition)
    (h : ∀ x ∈ c, (Node.condition x).EveryCall (d.KeepsPattern functions)) :
    Agree (fun x y => x.toList.map (Expr.sql d.style) = y.toList.map (Expr.sql d.style))
      (d.optionalCondition c)
      ((d.withFunctions functions).optionalCondition (c.map Condition.withoutOwnPatterns)) := by
  cases c with
  | none => exact .ok rfl
  | some c =>
    exact (agree_condition hd c (h c rfl)).map fun x x' halike =>
      congrArg (fun text => [text]) halike.sql

theorem agree_joinRule (hd : d.KeepsAlike) (rule : JoinRule)
    (h : ∀ c, rule = .on c → (Node.condition c).EveryCall (d.KeepsPattern functions)) :
    Agree (fun a b => Sql.ruleSql d.style a.1 a.2 = Sql.ruleSql d.style b.1 b.2)
      (d.joinRule rule)
      ((d.withFunctions functions).joinRule (Source.ruleWithoutOwnPatterns rule)) := by
  cases rule with
  | on c =>
    exact (agree_condition hd c (h c rfl)).map fun x x' halike => by
      rw [Sql.ruleSql, Sql.ruleSql, halike.sql]
  | _ => exact .ok rfl

theorem agree_source (hd : d.KeepsAlike) (s : Source)
    (h : (Node.source s).EveryCall (d.KeepsPattern functions)) :
    Agree (fun a b => a.sql d.style = b.sql d.style) (d.source s)
      ((d.withFunctions functions).source s.withoutOwnPatterns) := by
  induction s with
  | table name as pos => exact .ok rfl
  | join l natural kind r rule pos ihl ihr =>
    have hrule : ∀ c, rule = .on c → (Node.condition c).EveryCall (d.KeepsPattern functions) := by
      rintro c rfl
      exact h.part (.joinOn ..)
    rw [Source.withoutOwnPatterns, source, source]
    refine (agree_joinRule hd rule hrule).bind fun a b hab => ?_
    refine (ihl (h.part (.joinLeft ..))).bind fun l l' hl => ?_
    refine (ihr (h.part (.joinRight ..))).map fun r r' hr => ?_
    rw [Sql.Source.sql, Sql.Source.sql, hl, hr, hab]

theorem agree_sources (hd : d.KeepsAlike) (ss : List Source)
    (h : ∀ s ∈ ss, (Node.source s).EveryCall (d.KeepsPattern functions)) :
    Agree (fun a b => a.map (Sql.Source.sql d.style) = b.map (Sql.Source.sql d.style))
      (d.sources ss)
      ((d.withFunctions functions).sources (ss.map Source.withoutOwnPatterns)) := by
  induction ss with
  | nil => exact .ok rfl
  | cons s ss ih =>
    rw [List.map_cons, sources, sources]
    refine (agree_source hd s (h s List.mem_cons_self)).bind fun a a' ha => ?_
    refine (ih fun s hs => h s (List.mem_cons_of_mem _ hs)).map fun as as' has => ?_
    rw [List.map_cons, List.map_cons, ha, has]

/-- An item without an alias is named after its operand, and the name shows no pattern. -/
theorem agree_item (hd : d.KeepsAlike) (i : SelectItem)
    (h : ∀ x as, i = .value x as → (Node.operand x).EveryCall (d.KeepsPattern functions)) :
    Agree (fun a b => a.sql d.style = b.sql d.style) (d.item i)
      ((d.withFunctions functions).item i.withoutOwnPatterns) := by
  cases i with
  | value x as =>
    rw [SelectItem.withoutOwnPatterns, item.eq_def, item.eq_def]
    dsimp only
    rw [x.name_withoutOwnPatterns]
    refine (agree_operand hd x (h x as rfl)).map fun e e' halike => ?_
    rw [Sql.Selection.sql, Sql.Selection.sql, halike.sql]
    rfl
  | _ => exact .ok rfl

theorem agree_items (hd : d.KeepsAlike) (is : List SelectItem)
    (h : ∀ x as, .value x as ∈ is → (Node.operand x).EveryCall (d.KeepsPattern functions)) :
    Agree (fun a b => a.map (Sql.Selection.sql d.style) = b.map (Sql.Selection.sql d.style))
      (d.items is)
      ((d.withFunctions functions).items (is.map SelectItem.withoutOwnPatterns)) := by
  induction is with
  | nil => exact .ok rfl
  | cons i is ih =>
    rw [List.map_cons, items, items]
    have hi : ∀ x as, i = .value x as →
        (Node.operand x).EveryCall (d.KeepsPattern functions) := by
      rintro x as rfl
      exact h x as List.mem_cons_self
    refine (agree_item hd i hi).bind fun a a' ha => ?_
    refine (ih fun x as hx => h x as (List.mem_cons_of_mem _ hx)).map fun as as' has => ?_
    rw [List.map_cons, List.map_cons, ha, has]

theorem agree_orderKey (hd : d.KeepsAlike) (key : OrderKey)
    (h : ∀ x, key = .value x → (Node.operand x).EveryCall (d.KeepsPattern functions)) :
    Agree (Alike d.style) (d.orderKey key)
      ((d.withFunctions functions).orderKey key.withoutOwnPatterns) := by
  cases key with
  | value x => exact agree_operand hd x (h x rfl)
  | index i => exact .ok (.refl _)

theorem agree_ordering (hd : d.KeepsAlike) (os : List OrderItem)
    (h : ∀ x descending, ⟨.value x, descending⟩ ∈ os →
      (Node.operand x).EveryCall (d.KeepsPattern functions)) :
    Agree (fun a b => a.map (Sql.Ordering.sql d.style) = b.map (Sql.Ordering.sql d.style))
      (d.ordering os)
      ((d.withFunctions functions).ordering (os.map OrderItem.withoutOwnPatterns)) := by
  induction os with
  | nil => exact .ok rfl
  | cons o os ih =>
    rw [List.map_cons, ordering, ordering]
    obtain ⟨key, descending⟩ := o
    have hkey : ∀ x, key = .value x →
        (Node.operand x).EveryCall (d.KeepsPattern functions) := by
      rintro x rfl
      exact h x descending List.mem_cons_self
    refine (agree_orderKey hd key hkey).bind fun a a' ha => ?_
    refine (ih fun x descending hx => h x descending (List.mem_cons_of_mem _ hx)).map
      fun as as' has => ?_
    rw [List.map_cons, List.map_cons, Sql.Ordering.sql, Sql.Ordering.sql, ha.sql, has]
    rfl

/-- A query is written as before, or has the same fault. -/
theorem agree_statement (hd : d.KeepsAlike) (q : Query)
    (h : (Node.query q).EveryCall (d.KeepsPattern functions)) :
    Agree (fun a b => a.sql d.style = b.sql d.style) (d.statement q)
      ((d.withFunctions functions).statement q.withoutOwnPatterns) := by
  have hitems : ∀ x as, .value x as ∈ q.items →
      (Node.operand x).EveryCall (d.KeepsPattern functions) :=
    fun x as hx => h.part (.item q x as hx)
  have horder : ∀ x descending, ⟨.value x, descending⟩ ∈ q.order →
      (Node.operand x).EveryCall (d.KeepsPattern functions) :=
    fun x descending hx => h.part (.order q x descending hx)
  rw [statement, statement, Query.withoutOwnPatterns]
  dsimp only
  rw [← Operand.withoutOwnPatternsEach_eq]
  refine (agree_items hd q.items hitems).bind fun items items' hitems => ?_
  refine (Agree.of_eq (R := Eq) (fun _ => rfl) (d.limit q.top q.offset)).bind ?_
  rintro limit _ rfl
  refine (agree_sources hd q.sources fun s hs => h.part (.source q s hs)).bind
    fun sources sources' hsources => ?_
  refine (agree_optionalCondition hd q.filter fun c hc => h.part (.filter q c hc)).bind
    fun filter filter' hfilter => ?_
  refine (agree_operands hd q.groups fun x hx => h.part (.group q x hx)).bind
    fun groups groups' hgroups => ?_
  refine (agree_optionalCondition hd q.having fun c hc => h.part (.having q c hc)).bind
    fun having' having'' hhaving => ?_
  exact (agree_ordering hd q.order horder).map fun order order' horder =>
    Alike.statement rfl hitems hsources hfilter hgroups hhaving horder rfl rfl

theorem queryText_withoutOwnPatterns (hd : d.KeepsAlike) {q : Query}
    (h : (Node.query q).EveryCall (d.KeepsPattern functions)) :
    d.queryText q = (d.withFunctions functions).queryText q.withoutOwnPatterns :=
  ((agree_statement hd q h).map fun _ _ hsql => hsql).eq

theorem operandText_withoutOwnPatterns (hd : d.KeepsAlike) {o : Operand}
    (h : (Node.operand o).EveryCall (d.KeepsPattern functions)) :
    d.operandText o = (d.withFunctions functions).operandText o.withoutOwnPatterns :=
  ((agree_operand hd o h).map fun _ _ halike => halike.sql).eq

theorem KeepsAlike.withFunctions (hd : d.KeepsAlike) : (d.withFunctions functions).KeepsAlike :=
  ⟨hd.scalar, hd.point, hd.circle, hd.box, hd.polygon, hd.regionOfText, hd.extract, hd.relate⟩

/-- A signature that is attached to a call goes before all declared ones. -/
theorem keepsPattern_some (name : String) (count : Nat) (s : Signature) :
    d.KeepsPattern functions name count (some s) :=
  (Signature.telling_telling name count s.pattern).symm

theorem keepsPattern_same (name : String) (count : Nat) (attached : Option Signature) :
    d.KeepsPattern d.functions name count attached := by
  cases attached with
  | some s => exact keepsPattern_some name count s
  | none => rfl

/-- Own patterns of attached signatures do not show in the text. -/
theorem queryText_of_withoutOwnPatterns_eq (hd : d.KeepsAlike) {q q' : Query}
    (h : q.withoutOwnPatterns = q'.withoutOwnPatterns) : d.queryText q = d.queryText q' := by
  have hone : ∀ p : Query, d.queryText p = d.queryText p.withoutOwnPatterns := fun p =>
    queryText_withoutOwnPatterns hd fun name args attached _ _ =>
      keepsPattern_same name args.length attached
  rw [hone q, h, ← hone q']

theorem operandText_of_withoutOwnPatterns_eq (hd : d.KeepsAlike) {o o' : Operand}
    (h : o.withoutOwnPatterns = o'.withoutOwnPatterns) : d.operandText o = d.operandText o' := by
  have hone : ∀ p : Operand, d.operandText p = d.operandText p.withoutOwnPatterns := fun p =>
    operandText_withoutOwnPatterns hd fun name args attached _ _ =>
      keepsPattern_same name args.length attached
  rw [hone o, h, ← hone o']

/-- The calls that a declared signature is for are all written under one name. Declared names ignore
letter case. -/
def SpelledAs (name : String) (arity : Nat) (called : String) (count : Nat)
    (attached : Option Signature) : Prop :=
  attached = none → count = arity → Text.lowercase called = Text.lowercase name → called = name

/-- A signature without a pattern is declared for the name. -/
structure DeclaresBare (d : Dialect) (r : Registry) (name : String) (arity : Nat) : Prop where
  functions : d.functions = some r
  isRegular : Text.isRegular name = true
  arity_lt : arity < Text.bound64
  bare : ∃ s, r.lookup name arity = some s ∧ s.pattern = none

section Declared

variable {r r' : Registry} {name : String} {arity : Nat}

theorem DeclaresBare.exists_setPattern (h : d.DeclaresBare r name arity) :
    ∃ r', r.setPattern name arity (Signature.ownPattern name arity) = .ok r' := by
  obtain ⟨s, hlookup, -⟩ := h.bare
  obtain rfl : s.arity = arity := (Registry.lookup_eq_some hlookup).2
  have hrange := Signature.inRange_ownPattern h.isRegular h.arity_lt
  rw [Registry.setPattern, hlookup]
  exact ⟨_, bind_eq_ok_iff.2 ⟨_, Signature.setPattern_eq_ok_iff.2 ⟨hrange, rfl⟩, rfl⟩⟩

theorem keepsPattern_setPattern (h : d.DeclaresBare r name arity)
    (hset : r.setPattern name arity (Signature.ownPattern name arity) = .ok r') {called : String}
    {count : Nat} {attached : Option Signature}
    (hspelled : SpelledAs name arity called count attached) :
    d.KeepsPattern (some r') called count attached := by
  cases attached with
  | some t => exact keepsPattern_some called count t
  | none =>
    obtain ⟨s, hlookup, hbare⟩ := h.bare
    have hd : d.patternOf called count none = (r.lookup called count).bind Signature.pattern := by
      rw [patternOf, definitionOf, h.functions]
      rfl
    have hd' : (d.withFunctions (some r')).patternOf called count none =
        (r'.lookup called count).bind Signature.pattern := rfl
    rw [KeepsPattern, hd, Option.map_none, hd', Registry.lookup_setPattern hlookup hset]
    split
    · next hanswers =>
      obtain ⟨hname, harity⟩ := Registry.answers_of_lookup hlookup
      rw [Registry.answers, Bool.and_eq_true, beq_iff_eq, beq_iff_eq] at hanswers
      obtain rfl : count = arity := hanswers.2.symm.trans harity
      obtain rfl : called = name := hspelled rfl rfl (hanswers.1.symm.trans hname)
      rw [hlookup, Option.bind_some, Option.bind_some, hbare]
      exact (Signature.telling_ownPattern h.isRegular h.arity_lt).symm
    · rfl

end Declared

/-- The own pattern of a call changes nothing. Where the signature is attached to the call this holds
for every query and operand: those that are the same without own patterns have the same text or the
same fault. Where the signature is declared it is shared by all calls that it is for, in any letter
case, and these have to be written under one name. -/
theorem text_ownPattern (hd : IsOffered d) :
    (∀ q q' : Query, q.withoutOwnPatterns = q'.withoutOwnPatterns →
      d.queryText q = d.queryText q') ∧
    (∀ o o' : Operand, o.withoutOwnPatterns = o'.withoutOwnPatterns →
      d.operandText o = d.operandText o') ∧
    ∀ (r : Registry) (name : String) (arity : Nat), d.DeclaresBare r name arity →
      ∃ r', r.setPattern name arity (Signature.ownPattern name arity) = .ok r' ∧
        (∀ q : Query, (Node.query q).EveryCall (SpelledAs name arity) →
          (d.withFunctions (some r')).queryText q = d.queryText q) ∧
        ∀ o : Operand, (Node.operand o).EveryCall (SpelledAs name arity) →
          (d.withFunctions (some r')).operandText o = d.operandText o := by
  have hkeeps := hd.keepsAlike
  refine ⟨fun q q' h => queryText_of_withoutOwnPatterns_eq hkeeps h,
    fun o o' h => operandText_of_withoutOwnPatterns_eq hkeeps h, fun r name arity hbare => ?_⟩
  obtain ⟨r', hset⟩ := hbare.exists_setPattern
  have hcalls : ∀ {root : Node}, root.EveryCall (SpelledAs name arity) →
      root.EveryCall (d.KeepsPattern (some r')) :=
    fun h called args attached pos hcall =>
      keepsPattern_setPattern hbare hset (h called args attached pos hcall)
  have hkeeps' : (d.withFunctions (some r')).KeepsAlike := hkeeps.withFunctions
  refine ⟨r', hset, fun q hq => ?_, fun o ho => ?_⟩
  · calc (d.withFunctions (some r')).queryText q
        = (d.withFunctions (some r')).queryText q.withoutOwnPatterns :=
          queryText_withoutOwnPatterns hkeeps' fun name args attached _ _ =>
            keepsPattern_same name args.length attached
      _ = d.queryText q := (queryText_withoutOwnPatterns hkeeps (hcalls hq)).symm
  · calc (d.withFunctions (some r')).operandText o
        = (d.withFunctions (some r')).operandText o.withoutOwnPatterns :=
          operandText_withoutOwnPatterns hkeeps' fun name args attached _ _ =>
            keepsPattern_same name args.length attached
      _ = d.operandText o := (operandText_withoutOwnPatterns hkeeps (hcalls ho)).symm

section Examples

/-- A function of eleven numbers. -/
def totalFunction : Signature where
  name := "total"
  parameters := List.replicate 11 { name := "x", type := .ofKind .real }
  result := .ofKind .real

/-- The negative of a call with eleven arguments, the last of them a call without any. -/
def negativeTotal (total unit : Option Signature) : Operand :=
  .unary .negative (.udf "total"
    (List.replicate 10 (.number "1" none) ++ [.udf "unit" [] unit none]) total none) none

theorem everyCall_negativeTotal :
    (Node.operand (negativeTotal none none)).EveryCall (SpelledAs "total" 11) := by
  have hunit : (Node.operand (.udf "unit" [] none none)).EveryCall (SpelledAs "total" 11) := by
    refine Node.everyCall_of_children ?_ (by simp [Node.children, Operand.children])
    rintro name args definition pos ⟨⟩ - ⟨⟩
  have hone : (Node.operand (.number "1" none)).EveryCall (SpelledAs "total" 11) :=
    Node.everyCall_of_children (by simp) (by simp [Node.children, Operand.children])
  refine Node.everyCall_of_children (by simp [negativeTotal]) ?_
  rintro m hm
  obtain rfl : m = .operand _ := List.mem_singleton.1 hm
  refine Node.everyCall_of_children ?_ ?_
  · rintro name args definition pos ⟨⟩ - - -
    rfl
  · intro m hm
    obtain ⟨x, hx, rfl⟩ := List.mem_map.1 hm
    rcases List.mem_append.1 hx with hx | hx
    · rw [List.eq_of_mem_replicate hx]
      exact hone
    · rw [List.mem_singleton.1 hx]
      exact hunit

theorem text_ownPattern_total :
    let d := sqlite {} (.ofList [totalFunction])
    let unit : Signature := { name := "unit", parameters := [], result := .ofKind .real }
    let o := negativeTotal (some totalFunction) (some unit)
    let o' := negativeTotal
      (some { totalFunction with
        pattern := some "total($1, $2, $3, $4, $5, $6, $7, $8, $9, $10, $11)" })
      (some { unit with pattern := some "unit()" })
    let q : Query := { items := [.value o none] }
    let q' : Query := { items := [.value o' none] }
    IsOffered d ∧ q ≠ q' ∧ q.withoutOwnPatterns = q'.withoutOwnPatterns ∧
      d.queryText q = d.queryText q' ∧ d.operandText o = d.operandText o' ∧
      d.DeclaresBare (.ofList [totalFunction]) "total" 11 ∧
      ∃ r', (Registry.ofList [totalFunction]).setPattern "total" 11
          (Signature.ownPattern "total" 11) = .ok r' ∧
        (d.withFunctions (some r')).queryText { items := [.value (negativeTotal none none) none] } =
          d.queryText { items := [.value (negativeTotal none none) none] } ∧
        (d.withFunctions (some r')).operandText (negativeTotal none none) =
          d.operandText (negativeTotal none none) := by
  have hoffered := IsOffered.sqlite {} (.ofList [totalFunction])
  have hbare : (sqlite {} (.ofList [totalFunction])).DeclaresBare (.ofList [totalFunction])
      "total" 11 :=
    ⟨rfl, by decide, by decide, totalFunction, by decide +kernel, rfl⟩
  have hitems : (Node.query { items := [.value (negativeTotal none none) none] }).EveryCall
      (SpelledAs "total" 11) := by
    refine Node.everyCall_of_children (by simp) ?_
    rintro m hm
    obtain rfl : m = .operand _ := List.mem_singleton.1 hm
    exact everyCall_negativeTotal
  obtain ⟨hqueries, hoperands, hdeclared⟩ := text_ownPattern hoffered
  obtain ⟨r', hset, hquery, hoperand⟩ := hdeclared _ "total" 11 hbare
  exact ⟨hoffered, by decide +kernel, by decide +kernel, hqueries _ _ (by decide +kernel),
    hoperands _ _ (by decide +kernel), hbare, r', hset, hquery _ hitems,
    hoperand _ everyCall_negativeTotal⟩

/-- A declared function of one number. -/
def fooFunction : Signature where
  name := "foo"
  parameters := [{ name := "x", type := .ofKind .integer }]
  result := .ofKind .integer

/-- Two calls of one function in different letter case. -/
def fooQuery : Query :=
  { items := [.value (.udf "foo" [.number "1" none] none none) none,
      .value (.udf "FOO" [.number "2" none] none none) none]
    sources := [.table { name := .regular "t" } none none] }

/-- The own pattern of the first call is not the own one of the second, which has it as well. -/
theorem queryText_ownPattern_otherCase :
    (Registry.ofList [fooFunction]).setPattern "foo" 1 "foo($1)" =
        .ok (.ofList [{ fooFunction with pattern := some "foo($1)" }]) ∧
      (postgres {} (.ofList [fooFunction])).queryText fooQuery =
        .ok "SELECT foo(1) AS \"foo\", FOO(2) AS \"FOO\"\nFROM t" ∧
      (postgres {} (.ofList [{ fooFunction with pattern := some "foo($1)" }])).queryText fooQuery =
        .ok "SELECT foo(1) AS \"foo\", foo(2) AS \"FOO\"\nFROM t" := by
  decide +kernel

end Examples

end Dialect

end SkyQuery
