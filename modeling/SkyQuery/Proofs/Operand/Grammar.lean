import Mathlib.Tactic.IntervalCases
import SkyQuery.Operand.Basic
import SkyQuery.Operand.Adql
import SkyQuery.Proofs.Brackets
import SkyQuery.Proofs.Lexer

/-!
# Reading operands

An expression is read by the table of its operators. Concatenation binds weakest, then come the
binary operators level by level, and signs bind tightest. Operators of one level group to the left. A
minus is a binary operator behind a value and a sign elsewhere. What is in parentheses is read on its
own, as the arguments of a call or as one value.
-/

namespace SkyQuery.Grammar

/-- The binary operators from the weakest level to the tightest. -/
def table : List (List (String × Arithmetic)) :=
  [[("|", .bitOr)], [("^", .bitXor)], [("&", .bitAnd)], [("+", .sum), ("-", .sub)],
    [("*", .mult), ("/", .div)]]

def signs : List (String × Sign) := [("-", .negative), ("~", .bitNot)]

/-- A lexeme, or the operands in parentheses if they can be read. -/
inductive Piece where
  | lexeme (l : Lexeme)
  | group (inside : Option (List Operand))

/-- Whether it is the given mark. -/
def Piece.isMark (t : String) : Piece → Bool
  | .lexeme (.mark s) => s == t
  | _ => false

/-- What a piece is among others. -/
inductive Symbol where
  | operator (op : Arithmetic)
  | sign (op : Sign)
  | piece (p : Piece)

/-- Whether it is a point. -/
def Symbol.isPoint : Symbol → Bool
  | .piece p => p.isMark "."
  | _ => false

/-- The operator, if it belongs to the given level. -/
def Symbol.operator? (level : List Arithmetic) : Symbol → Option Arithmetic
  | .operator op => if op ∈ level then some op else none
  | _ => none

section Reading

/-- The symbols of the pieces, which may follow a value. -/
def symbols (behind : Bool) : List Piece → List Symbol
  | [] => []
  | .lexeme (.mark t) :: ps =>
    ((if behind then (table.flatten.lookup t).map .operator else (signs.lookup t).map .sign).getD
      (.piece (.lexeme (.mark t)))) :: symbols false ps
  | p :: ps => .piece p :: symbols true ps

/-- A name, which is delimited if it is quoted. -/
def name? : List Symbol → Option Identifier
  | [.piece (.lexeme (.word t))] => some ⟨t, false⟩
  | [.piece (.lexeme (.quoted .name t))] => some ⟨t, true⟩
  | _ => none

/-- The column with the given path. -/
def column? : List Identifier → Option Column
  | [n] => some ⟨none, n, none, none⟩
  | [t, n] => some ⟨some ⟨none, none, t⟩, n, none, none⟩
  | [s, t, n] => some ⟨some ⟨none, some s, t⟩, n, none, none⟩
  | [c, s, t, n] => some ⟨some ⟨some c, some s, t⟩, n, none, none⟩
  | _ => none

/-- The call of a function, which is user defined unless the language has one of that name. -/
def call (name : String) (args : List Operand) : Operand :=
  match ScalarFunction.ofName? name with
  | some f => .scalar f args none
  | none => .udf name args none none

/-- The only one of a list. -/
def single? : List Operand → Option Operand
  | [x] => some x
  | _ => none

/-- A value without operators. -/
def atom : List Symbol → Option Operand
  | [.piece (.lexeme (.number t))] => some (.number t none)
  | [.piece (.lexeme (.quoted .string t))] => some (.string t none)
  | [.piece (.group inside)] => inside.bind single?
  | [.piece (.lexeme (.word f)), .piece (.group inside)] => inside.map (call f)
  | ss => (((ss.splitOnP Symbol.isPoint).mapM name?).bind column?).map .column

def signed : List Symbol → Option Operand
  | .sign op :: ss => (signed ss).map fun x => .unary op x none
  | ss => atom ss

/-- What is in front of the first operator of a level, and each of its operators with what follows. -/
def segments (level : List Arithmetic) : List Symbol → List Symbol × List (Arithmetic × List Symbol)
  | [] => ([], [])
  | s :: ss =>
    match s.operator? level with
    | some op => ([], (op, (segments level ss).1) :: (segments level ss).2)
    | none => (s :: (segments level ss).1, (segments level ss).2)

/-- An operand with binary operators of the given levels. -/
def binary : List (List Arithmetic) → List Symbol → Option Operand
  | [], ss => signed ss
  | level :: tighter, ss =>
    (binary tighter (segments level ss).1).bind fun first =>
      (segments level ss).2.foldlM
        (fun x (op, part) => (binary tighter part).map fun y => .binary x op y none) first

def levels : List (List Arithmetic) := table.map (List.map Prod.snd)

/-- A value, or the concatenation of several. -/
def concatenation : List Operand → Operand
  | [x] => x
  | xs => .concat xs none

def arithmetic (ps : List Piece) : Option Operand := binary levels (symbols false ps)

def expression (ps : List Piece) : Option Operand :=
  ((ps.splitOnP (Piece.isMark "||")).mapM arithmetic).map concatenation

/-- What stands between parentheses. -/
def arguments : List Piece → Option (List Operand)
  | [] => some []
  | ps => (ps.splitOnP (Piece.isMark ",")).mapM expression

mutual
def piece : Bracketed → Piece
  | .lexeme l => .lexeme l
  | .group ts => .group (arguments (pieces ts))

def pieces : List Bracketed → List Piece
  | [] => []
  | t :: ts => piece t :: pieces ts
end

/-- The operand that a text is read as. -/
def read (text : String) : Option Operand :=
  ((lex [] text).bind Bracketed.ofLexemes?).bind fun ts => expression (pieces ts)

end Reading

theorem pieces_eq (ts : List Bracketed) : pieces ts = ts.map piece := by
  induction ts with
  | nil => rfl
  | cons t ts ih => simp [pieces, ih]

@[simp] theorem isMark_piece (s : String) (t : Bracketed) : (piece t).isMark s = t.isMark s := by
  cases t with
  | lexeme l => cases l <;> rfl
  | group ts => rfl

section Levels

variable {level : List Arithmetic} {tighter : List (List Arithmetic)} {ss rs : List Symbol}

theorem segments_of_none (h : ∀ s ∈ ss, s.operator? level = none) : segments level ss = (ss, []) := by
  induction ss with
  | nil => rfl
  | cons s ss ih =>
    have hs := h s List.mem_cons_self
    have hss := ih fun t ht => h t (List.mem_cons_of_mem s ht)
    simp [segments, hs, hss]

/-- The last operator of a level comes with what follows it. -/
theorem segments_append {op : Arithmetic} (hop : op ∈ level)
    (hrs : ∀ s ∈ rs, s.operator? level = none) :
    segments level (ss ++ .operator op :: rs) =
      ((segments level ss).1, (segments level ss).2 ++ [(op, rs)]) := by
  induction ss with
  | nil => simp [segments, Symbol.operator?, hop, segments_of_none hrs]
  | cons s ss ih =>
    rw [List.cons_append, segments, ih, segments]
    cases s.operator? level <;> rfl

/-- A level without operators is passed over. -/
theorem binary_of_none (h : ∀ s ∈ ss, s.operator? level = none) :
    binary (level :: tighter) ss = binary tighter ss := by
  rw [binary, segments_of_none h]
  cases binary tighter ss <;> rfl

/-- The last operator of a level is the root. -/
theorem binary_operator {op : Arithmetic} {x y : Operand} (hop : op ∈ level)
    (hx : binary (level :: tighter) ss = some x) (hy : binary tighter rs = some y)
    (hrs : ∀ s ∈ rs, s.operator? level = none) :
    binary (level :: tighter) (ss ++ .operator op :: rs) = some (.binary x op y none) := by
  rw [binary] at hx ⊢
  rw [segments_append hop hrs]
  obtain ⟨first, hfirst, hfold⟩ := Option.bind_eq_some_iff.1 hx
  rw [hfirst, Option.bind_some, List.foldlM_append, hfold]
  simp [hy]

/-- The levels from a given strength on. -/
def levelsFrom (p : ℕ) : List (List Arithmetic) := levels.drop (p - 1)

/-- The table orders the operators by their strengths. -/
theorem levelsFrom_eq {p : ℕ} (h : 1 ≤ p) (hp : p < Operand.unaryPrecedence) :
    ∃ level, levelsFrom p = level :: levelsFrom (p + 1) ∧
      ∀ op, op ∈ level ↔ op.precedence = p := by
  have hp : p < 6 := hp
  interval_cases p <;>
    exact ⟨_, rfl, fun op => by cases op <;> decide⟩

theorem levelsFrom_unary {p : ℕ} (hp : Operand.unaryPrecedence ≤ p) : levelsFrom p = [] := by
  have hlength : levels.length ≤ p - 1 := by
    have hp : 6 ≤ p := hp
    have hlevels : levels.length = 5 := rfl
    omega
  exact List.drop_eq_nil_of_le hlength

end Levels

section Factors

/-- A text that stands for an operand between operators. Its own operators bind with the given
strength at least, and a value is at its end. -/
structure Factor (p : ℕ) (ts : List Bracketed) (x : Operand) : Prop where
  ends : ∀ ps, symbols false (pieces ts ++ ps) = symbols false (pieces ts) ++ symbols true ps
  unjoined : ∀ t ∈ ts, t.isMark "||" = false
  unlisted : ∀ t ∈ ts, t.isMark "," = false
  tight : ∀ op, .operator op ∈ symbols false (pieces ts) → p ≤ op.precedence
  reads : binary (levelsFrom p) (symbols false (pieces ts)) = some x

variable {p k : ℕ} {ts us : List Bracketed} {x y : Operand}

/-- A level below the strength of all operators has none of them. -/
theorem Factor.operator?_eq_none (h : Factor (p + 1) ts x) {level : List Arithmetic}
    (hlevel : ∀ op, op ∈ level ↔ op.precedence = p) :
    ∀ s ∈ symbols false (pieces ts), s.operator? level = none := by
  intro s hs
  cases s with
  | operator op =>
    have htight := h.tight op hs
    have hnot : op ∉ level := fun hop => by
      have hstrength := (hlevel op).1 hop
      omega
    simp [Symbol.operator?, hnot]
  | sign op => rfl
  | piece q => rfl

theorem Factor.pred (h : Factor (p + 1) ts x) (hp : 1 ≤ p) : Factor p ts x := by
  refine ⟨h.ends, h.unjoined, h.unlisted, fun op hop => Nat.le_of_succ_le (h.tight op hop), ?_⟩
  have hreads := h.reads
  by_cases hunary : p < Operand.unaryPrecedence
  · obtain ⟨level, heq, hlevel⟩ := levelsFrom_eq hp hunary
    rw [heq, binary_of_none (h.operator?_eq_none hlevel), hreads]
  · rw [levelsFrom_unary (by omega)] at hreads ⊢
    exact hreads

/-- An operand can stand where a weaker one can. -/
theorem Factor.weaken (h : Factor p ts x) (hk : 1 ≤ k) (hkp : k ≤ p) : Factor k ts x := by
  induction p, hkp using Nat.le_induction with
  | base => exact h
  | succ p hkp ih => exact ih (h.pred (hk.trans hkp))

theorem Factor.arithmetic (h : Factor p ts x) (hp : 1 ≤ p) : arithmetic (pieces ts) = some x :=
  (h.weaken le_rfl hp).reads

theorem Factor.expression (h : Factor p ts x) (hp : 1 ≤ p) : expression (pieces ts) = some x := by
  have hsplit : (pieces ts).splitOnP (Piece.isMark "||") = [pieces ts] :=
    List.splitOnP_eq_singleton (by simpa [pieces_eq] using h.unjoined)
  simp [Grammar.expression, hsplit, h.arithmetic hp, concatenation]

theorem symbols_operator (op : Arithmetic) (ps : List Piece) :
    symbols true (.lexeme (.mark op.symbol) :: ps) = .operator op :: symbols false ps := by
  cases op <;> rfl

theorem symbols_sign (op : Sign) (ps : List Piece) :
    symbols false (.lexeme (.mark op.symbol) :: ps) = .sign op :: symbols false ps := by
  cases op <;> rfl

/-- A binary operation groups to the left. -/
theorem Factor.operator {op : Arithmetic} (hx : Factor op.precedence ts x)
    (hy : Factor (op.precedence + 1) us y) :
    Factor op.precedence (ts ++ .lexeme (.mark op.symbol) :: us) (.binary x op y none) := by
  have happend : ∀ ps, symbols false (pieces (ts ++ .lexeme (.mark op.symbol) :: us) ++ ps) =
      symbols false (pieces ts) ++ .operator op :: symbols false (pieces us ++ ps) := by
    intro ps
    have hpieces : pieces (ts ++ .lexeme (.mark op.symbol) :: us) ++ ps =
        pieces ts ++ .lexeme (.mark op.symbol) :: (pieces us ++ ps) := by
      simp [pieces_eq, piece]
    rw [hpieces, hx.ends, symbols_operator]
  have hsymbols := happend []
  rw [List.append_nil, List.append_nil] at hsymbols
  refine ⟨?_, ?_, ?_, ?_, ?_⟩
  · intro ps
    rw [happend, hsymbols, hy.ends, List.append_assoc, List.cons_append]
  · have hmark : (Bracketed.lexeme (.mark op.symbol)).isMark "||" = false := by cases op <;> rfl
    exact List.forall_mem_append.2 ⟨hx.unjoined, List.forall_mem_cons.2 ⟨hmark, hy.unjoined⟩⟩
  · have hmark : (Bracketed.lexeme (.mark op.symbol)).isMark "," = false := by cases op <;> rfl
    exact List.forall_mem_append.2 ⟨hx.unlisted, List.forall_mem_cons.2 ⟨hmark, hy.unlisted⟩⟩
  · intro other hother
    rw [hsymbols] at hother
    rcases List.mem_append.1 hother with hother | hother
    · exact hx.tight other hother
    · rcases List.mem_cons.1 hother with heq | hother
      · cases heq
        exact le_rfl
      · exact Nat.le_of_succ_le (hy.tight other hother)
  · have hbounds : 1 ≤ op.precedence ∧ op.precedence < Operand.unaryPrecedence := by
      cases op <;> decide
    obtain ⟨level, heq, hlevel⟩ := levelsFrom_eq hbounds.1 hbounds.2
    have hreads := hx.reads
    rw [heq] at hreads
    rw [hsymbols, heq]
    exact binary_operator ((hlevel op).2 rfl) hreads hy.reads (hy.operator?_eq_none hlevel)

theorem Factor.sign {op : Sign} (h : Factor Operand.atomPrecedence ts x) :
    Factor Operand.unaryPrecedence (.lexeme (.mark op.symbol) :: ts) (.unary op x none) := by
  have hsymbols : ∀ ps, symbols false (pieces (.lexeme (.mark op.symbol) :: ts) ++ ps) =
      .sign op :: symbols false (pieces ts ++ ps) := fun ps => symbols_sign op _
  have hwhole : symbols false (pieces (.lexeme (.mark op.symbol) :: ts)) =
      .sign op :: symbols false (pieces ts) := symbols_sign op _
  refine ⟨?_, ?_, ?_, ?_, ?_⟩
  · intro ps
    rw [hsymbols, hwhole, h.ends, List.cons_append]
  · exact List.forall_mem_cons.2 ⟨by cases op <;> rfl, h.unjoined⟩
  · exact List.forall_mem_cons.2 ⟨by cases op <;> rfl, h.unlisted⟩
  · intro other hother
    rw [hwhole] at hother
    exact Nat.le_of_succ_le (h.tight other (by simpa using hother))
  · have hreads : signed (symbols false (pieces ts)) = some x := h.reads
    rw [hwhole, levelsFrom_unary le_rfl, binary, signed, hreads]
    rfl

end Factors

section Lists

variable {ι : Type} {xs : List ι} {k : ι → List Bracketed} {r : ι → Operand}

theorem pieces_intercalate (t : String) (tss : List (List Bracketed)) :
    pieces ([.lexeme (.mark t)].intercalate tss) =
      [.lexeme (.mark t)].intercalate (tss.map pieces) := by
  have hpieces : pieces = List.map piece := funext pieces_eq
  rw [hpieces, map_intercalate]
  rfl

/-- What is between marks of one kind is found between them. -/
theorem splitOnP_pieces {t : String} (hne : xs ≠ []) (h : ∀ x ∈ xs, ∀ u ∈ k x, u.isMark t = false) :
    (pieces ([.lexeme (.mark t)].intercalate (xs.map k))).splitOnP (Piece.isMark t) =
      xs.map fun x => pieces (k x) := by
  rw [pieces_intercalate, List.map_map]
  refine splitOnP_intercalate (by simp [Piece.isMark]) (by simpa using hne) ?_
  intro ps hps
  obtain ⟨x, hx, rfl⟩ := List.mem_map.1 hps
  simpa [pieces_eq] using h x hx

theorem expression_concat (hlength : 2 ≤ xs.length)
    (h : ∀ x ∈ xs, Factor Operand.atomPrecedence (k x) (r x)) :
    expression (pieces ([.lexeme (.mark "||")].intercalate (xs.map k))) =
      some (.concat (xs.map r) none) := by
  have hne : xs ≠ [] := by
    rintro rfl
    simp at hlength
  have hreads : ∀ x ∈ xs, arithmetic (pieces (k x)) = some (r x) :=
    fun x hx => (h x hx).arithmetic (by decide)
  have hmembers : concatenation (xs.map r) = .concat (xs.map r) none := by
    unfold concatenation
    split
    · rename_i x hx
      have hone := congrArg List.length hx
      simp at hone
      omega
    · rfl
  rw [expression, splitOnP_pieces hne fun x hx => (h x hx).unjoined, mapM_eq_some hreads,
    Option.map_some, hmembers]

/-- A text that can stand between commas, which is one expression. -/
structure Argument (ts : List Bracketed) (x : Operand) : Prop where
  unlisted : ∀ t ∈ ts, t.isMark "," = false
  reads : expression (pieces ts) = some x

theorem Factor.argument {p : ℕ} {ts : List Bracketed} {x : Operand} (h : Factor p ts x)
    (hp : 1 ≤ p) : Argument ts x :=
  ⟨h.unlisted, h.expression hp⟩

theorem arguments_intercalate (h : ∀ x ∈ xs, Argument (k x) (r x)) :
    arguments (pieces ([.lexeme (.mark ",")].intercalate (xs.map k))) = some (xs.map r) := by
  cases hxs : xs with
  | nil => rfl
  | cons x rest =>
    have hne : xs ≠ [] := by simp [hxs]
    have hsplit := splitOnP_pieces hne fun x hx => (h x hx).unlisted
    rw [← hxs, arguments.eq_2, hsplit, mapM_eq_some fun x hx => (h x hx).reads]
    intro hnil
    rw [hnil, hxs] at hsplit
    have hempty : [] = pieces (k x) := (List.cons.inj hsplit).1
    have hreads := (h x (by simp [hxs])).reads
    rw [← hempty] at hreads
    cases hreads

end Lists

section Atoms

variable {ts : List Bracketed} {x : Operand}

/-- A text without operators. -/
theorem factor_atom
    (hends : ∀ ps, symbols false (pieces ts ++ ps) = (pieces ts).map .piece ++ symbols true ps)
    (hmarks : ∀ t ∈ ts, t.isMark "||" = false ∧ t.isMark "," = false)
    (hreads : atom ((pieces ts).map .piece) = some x) : Factor Operand.atomPrecedence ts x := by
  have hsymbols : symbols false (pieces ts) = (pieces ts).map .piece := by
    simpa [symbols] using hends []
  refine ⟨?_, fun t ht => (hmarks t ht).1, fun t ht => (hmarks t ht).2, ?_, ?_⟩
  · rw [hsymbols]
    exact hends
  · rw [hsymbols]
    simp
  · rw [hsymbols, levelsFrom_unary (by decide), binary]
    cases hpieces : pieces ts <;> rw [hpieces] at hreads <;> exact hreads

theorem factor_number (t : String) :
    Factor Operand.atomPrecedence [.lexeme (.number t)] (.number t none) :=
  factor_atom (fun _ => rfl) (by simp [Bracketed.isMark]) rfl

theorem factor_string (t : String) :
    Factor Operand.atomPrecedence [.lexeme (.quoted .string t)] (.string t none) :=
  factor_atom (fun _ => rfl) (by simp [Bracketed.isMark]) rfl

/-- Parentheses make an atom of every expression. -/
theorem Argument.group (h : Argument ts x) : Factor Operand.atomPrecedence [.group ts] x := by
  have harguments : arguments (pieces ts) = some [x] := by
    have hone : arguments (pieces ([.lexeme (.mark ",")].intercalate ([()].map fun _ => ts))) =
        some ([()].map fun _ => x) := arguments_intercalate fun _ _ => h
    simpa using hone
  refine factor_atom (fun _ => rfl) (by simp [Bracketed.isMark]) ?_
  simp [pieces, piece, harguments, atom, single?]

theorem factor_call (f : String) {args : List Operand} (h : arguments (pieces ts) = some args) :
    Factor Operand.atomPrecedence [.lexeme (.word f), .group ts] (call f args) := by
  refine factor_atom (fun _ => rfl) (by simp [Bracketed.isMark]) ?_
  simp [pieces, piece, h, atom]

def nameLexeme (i : Identifier) : Lexeme :=
  if i.delimited then .quoted .name i.name else .word i.name

/-- The text of names with points between them. -/
def path (is : List Identifier) : List Bracketed :=
  [.lexeme (.mark ".")].intercalate (is.map fun i => [.lexeme (nameLexeme i)])

theorem nameLexeme_cases (i : Identifier) :
    (∃ t, nameLexeme i = .word t) ∨ ∃ t, nameLexeme i = .quoted .name t := by
  unfold nameLexeme
  split
  · exact .inr ⟨_, rfl⟩
  · exact .inl ⟨_, rfl⟩

theorem name?_nameLexeme (i : Identifier) : name? [.piece (.lexeme (nameLexeme i))] = some i := by
  obtain ⟨name, delimited⟩ := i
  cases delimited <;> rfl

theorem pieces_path_cons (i j : Identifier) (is : List Identifier) :
    pieces (path (i :: j :: is)) =
      .lexeme (nameLexeme i) :: .lexeme (.mark ".") :: pieces (path (j :: is)) := rfl

/-- The symbols of a path are its pieces. -/
theorem symbols_path {is : List Identifier} (hne : is ≠ []) (ps : List Piece) :
    symbols false (pieces (path is) ++ ps) = (pieces (path is)).map .piece ++ symbols true ps := by
  have hname : ∀ i qs, symbols false (.lexeme (nameLexeme i) :: qs) =
      .piece (.lexeme (nameLexeme i)) :: symbols true qs := by
    intro i qs
    rcases nameLexeme_cases i with ⟨t, ht⟩ | ⟨t, ht⟩ <;> rw [ht] <;> rfl
  have hpoint : ∀ qs, symbols true (.lexeme (.mark ".") :: qs) =
      .piece (.lexeme (.mark ".")) :: symbols false qs := fun qs => rfl
  induction is with
  | nil => exact absurd rfl hne
  | cons i is ih =>
    cases is with
    | nil => exact hname i ps
    | cons j is =>
      have htail := ih (by simp)
      rw [pieces_path_cons, List.cons_append, List.cons_append, hname, hpoint, htail]
      rfl

theorem atom_path {is : List Identifier} (hne : is ≠ []) :
    atom ((pieces (path is)).map .piece) = (column? is).map .column := by
  have hsplit : ((pieces (path is)).map .piece).splitOnP Symbol.isPoint =
      is.map fun i => [.piece (.lexeme (nameLexeme i))] := by
    rw [path, pieces_intercalate, map_intercalate, List.map_map, List.map_map]
    refine splitOnP_intercalate rfl (by simpa using hne) ?_
    intro ss hss
    obtain ⟨i, -, rfl⟩ := List.mem_map.1 hss
    rcases nameLexeme_cases i with ⟨t, ht⟩ | ⟨t, ht⟩ <;>
      simp [pieces, piece, ht, Symbol.isPoint, Piece.isMark]
  have hnames : (is.map fun i => [.piece (.lexeme (nameLexeme i))]).mapM name? =
      some (is.map id) := mapM_eq_some fun i _ => name?_nameLexeme i
  have hatom : atom ((pieces (path is)).map .piece) =
      (((((pieces (path is)).map .piece).splitOnP Symbol.isPoint).mapM name?).bind column?).map
        .column := by
    cases is with
    | nil => exact absurd rfl hne
    | cons i is =>
      cases is with
      | nil =>
        rcases nameLexeme_cases i with ⟨t, ht⟩ | ⟨t, ht⟩ <;> simp [path, pieces, piece, ht, atom]
      | cons j is =>
        rw [pieces_path_cons]
        rcases nameLexeme_cases i with ⟨t, ht⟩ | ⟨t, ht⟩ <;> rw [ht] <;> rfl
  rw [hatom, hsplit, hnames, List.map_id]
  rfl

/-- A catalog is given with a schema only. -/
def IsFullPath (c : Column) : Prop := ∀ t ∈ c.table, t.schema = none → t.catalog = none

theorem factor_column {c : Column} (h : IsFullPath c) :
    Factor Operand.atomPrecedence (path c.identifiers)
      (.column { c with type := none, pos := none }) := by
  have hne : c.identifiers ≠ [] := by simp [Column.identifiers]
  have hcolumn : column? c.identifiers = some { c with type := none, pos := none } := by
    obtain ⟨table, name, type, pos⟩ := c
    rcases table with - | ⟨catalog, schema, t⟩
    · rfl
    · cases schema with
      | none =>
        obtain rfl : catalog = none := h _ rfl rfl
        rfl
      | some s => cases catalog <;> rfl
  refine factor_atom (symbols_path hne) ?_ (by rw [atom_path hne, hcolumn]; rfl)
  intro t ht
  rcases mem_intercalate ht with rfl | ⟨ts, hts, ht⟩
  · exact ⟨rfl, rfl⟩
  · obtain ⟨i, -, rfl⟩ := List.mem_map.1 hts
    obtain rfl := List.mem_singleton.1 ht
    rcases nameLexeme_cases i with ⟨u, hu⟩ | ⟨u, hu⟩ <;> simp [hu, Bracketed.isMark]

end Atoms

end SkyQuery.Grammar
