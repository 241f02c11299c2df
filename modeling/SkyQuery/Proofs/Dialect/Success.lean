import SkyQuery.Proofs.Dialect.Faults
import SkyQuery.Proofs.Dialect.Worded
import SkyQuery.Proofs.Operand.Integer

/-!
# Which queries become SQL

The faults of a query are all at three kinds of nodes: hexadecimal literals that are no numbers of
64 bits, regions that are not literal or cannot be written, and an offset that the options refuse.
Every other node becomes SQL as soon as the parts that are lowered do.
-/

namespace SkyQuery

namespace Operand

/-- The digits behind the mark of a hexadecimal literal, which may follow a plus sign, denote a
number of 64 bits. -/
def FitsWord (text : String) : Prop :=
  ∃ digits n, (text.toList.drop 2 = digits ∨ text.toList.drop 2 = '+' :: digits) ∧
    Text.numberOf 16 digits = some n ∧ n < 2 ^ 64

theorem decimalText_isOk_iff (text : String) :
    (∃ t, decimalText text = .ok t) ↔ (isHexadecimal text = true → FitsWord text) := by
  have hnumeral : (∃ n, Text.readNumeral 16 Text.bound64 (text.toList.drop 2) = .ok n) ↔
      FitsWord text :=
    Text.readNumeral_isOk_iff (by decide) (by decide)
  rw [decimalText]
  by_cases hhex : isHexadecimal text = true
  · rw [if_pos hhex]
    simp only [hhex, forall_const]
    refine Iff.trans ?_ hnumeral
    cases Text.readNumeral 16 Text.bound64 (text.toList.drop 2) <;> simp
  · rw [if_neg hhex]
    exact ⟨fun _ h => absurd h hhex, fun _ => ⟨text, rfl⟩⟩

end Operand

namespace Region

mutual
/-- Whether the region is a complement or has one in it. -/
def hasComplement : Region → Bool
  | .combined _ _ ms => anyComplement ms
  | .not .. => true
  | _ => false

def anyComplement : List Region → Bool
  | [] => false
  | r :: rs => hasComplement r || anyComplement rs
end

end Region

namespace Dialect

theorem Postgres.region_isOk_iff (r : Region) (pos : Option Span) :
    (∃ x, Postgres.region r pos = .ok x) ↔ r.isSimple = true := by
  cases r with
  | combined | not =>
    refine iff_of_false ?_ Bool.false_ne_true
    rintro ⟨x, h⟩
    cases h
  | _ => exact iff_of_true ⟨_, rfl⟩ rfl

theorem Sqlite.length_of_regions {rs : List Region} {pos : Option Span} {xs : List Sql.Expr}
    (h : Sqlite.regions rs pos = .ok xs) : xs.length = rs.length := by
  induction rs generalizing xs with
  | nil =>
    rw [Sqlite.regions] at h
    cases h
    rfl
  | cons r rs ih =>
    rw [Sqlite.regions] at h
    obtain ⟨x, -, h⟩ := bind_eq_ok_iff.1 h
    obtain ⟨xs, hxs, h⟩ := bind_eq_ok_iff.1 h
    cases h
    rw [List.length_cons, List.length_cons, ih hxs]

mutual
/-- A valid region is written unless there is a complement in it. There are always members to be
combined. -/
theorem Sqlite.region_isOk_iff (r : Region) (pos : Option Span) (hr : r.isValid = true) :
    (∃ x, Sqlite.region r pos = .ok x) ↔ (!r.hasComplement) = true := by
  cases r with
  | combined f how ms =>
    rw [Region.isValid, Bool.and_eq_true, decide_eq_true_eq] at hr
    rw [Region.hasComplement, ← Sqlite.regions_isOk_iff ms pos hr.2, Sqlite.region]
    constructor
    · rintro ⟨x, h⟩
      obtain ⟨xs, hxs, -⟩ := bind_eq_ok_iff.1 h
      exact ⟨xs, hxs⟩
    · rintro ⟨xs, hxs⟩
      have hlength := Sqlite.length_of_regions hxs
      rw [hxs]
      cases xs with
      | nil =>
        rw [← hlength] at hr
        simp at hr
      | cons x xs => exact ⟨_, rfl⟩
  | not f r =>
    rw [Sqlite.region]
    refine iff_of_false ?_ Bool.false_ne_true
    rintro ⟨x, h⟩
    cases h
  | _ =>
    rw [Sqlite.region]
    exact iff_of_true ⟨_, rfl⟩ rfl

theorem Sqlite.regions_isOk_iff (rs : List Region) (pos : Option Span)
    (hrs : Region.allValid rs = true) :
    (∃ xs, Sqlite.regions rs pos = .ok xs) ↔ (!Region.anyComplement rs) = true := by
  cases rs with
  | nil =>
    rw [Sqlite.regions]
    exact iff_of_true ⟨_, rfl⟩ rfl
  | cons r rs =>
    rw [Region.allValid, Bool.and_eq_true] at hrs
    rw [Region.anyComplement, Bool.not_or, Bool.and_eq_true, ← Sqlite.region_isOk_iff r pos hrs.1,
      ← Sqlite.regions_isOk_iff rs pos hrs.2, Sqlite.regions]
    exact exists_ok_bind_iff fun _ => exists_ok_map
end

end Dialect

namespace Node

/-- The parts that are lowered together with a node. -/
def loweredParts : Node → List Node
  | .operand o => o.loweredParts.map .operand
  | n => n.children

/-- A node that is lowered together with a root, the root among them. -/
def LoweredWithin (n root : Node) : Prop :=
  Relation.ReflTransGen (fun m n => m ∈ n.loweredParts) n root

theorem mem_children_of_mem_loweredParts {m n : Node} (h : m ∈ n.loweredParts) :
    m ∈ n.children := by
  cases n with
  | operand o =>
    obtain ⟨x, hx, rfl⟩ := List.mem_map.1 h
    exact List.mem_map_of_mem (Operand.mem_children_of_mem_loweredParts hx)
  | _ => exact h

theorem weight_lt_of_mem_loweredParts {m n : Node} (h : m ∈ n.loweredParts) :
    m.weight < n.weight :=
  weight_lt_of_mem_children (mem_children_of_mem_loweredParts h)

theorem forall_loweredWithin_iff {p : Node → Prop} {root : Node} :
    (∀ n, LoweredWithin n root → p n) ↔
      p root ∧ ∀ m ∈ root.loweredParts, ∀ n, LoweredWithin n m → p n := by
  constructor
  · exact fun h => ⟨h root .refl, fun m hm n hn => h n (hn.tail hm)⟩
  · rintro ⟨hroot, hparts⟩ n hn
    rcases hn.cases_tail with rfl | ⟨m, hnm, hm⟩
    · exact hroot
    · exact hparts m hm n hnm

/-- The only query in a tree is the root. -/
theorem eq_of_query_loweredWithin {p q : Query} (h : LoweredWithin (.query p) (.query q)) :
    p = q := by
  rcases h.cases_head with heq | ⟨n, hpart, -⟩
  · cases heq
    rfl
  · cases part_of_mem_children (mem_children_of_mem_loweredParts hpart)

end Node

/-- What is asked of an operand apart from its parts, where some regions can be written. -/
def Operand.IsFaultless (writable : Region → Bool) : Operand → Prop
  | .number t _ => isHexadecimal t = true → FitsWord t
  | .region text _ =>
    ∃ t pos r, text = .string t pos ∧ Region.ofStcs t = .ok r ∧ writable r = true
  | _ => True

theorem Operand.isFaultless_of_isLoweredByParts {writable : Region → Bool} {o : Operand}
    (h : o.isLoweredByParts = true) : o.IsFaultless writable := by
  cases o with
  | number | region => cases h
  | _ => trivial

/-- What is asked of a node apart from its parts, where offsets are treated in some way. -/
def Node.IsFaultless (writable : Region → Bool) (policy : OffsetPolicy) : Node → Prop
  | .operand o => o.IsFaultless writable
  | .query q => ¬ (q.offset.isSome = true ∧ q.top = none ∧ policy = .reject)
  | _ => True

namespace Dialect

/-- A dialect that writes some of the literal regions and knows all coordinate systems, and whose
functions have their patterns in range. -/
structure WritesRegions (d : Dialect) (writable : Region → Bool) : Prop where
  functions : ∀ r ∈ d.functions, r.HasRange
  system : d.geometry.fixedSystem.isSome = true
  region : ∃ f, d.geometry.region = .ofLiteral f ∧ ∀ r pos, r.isValid = true →
    ((∃ x, f r pos = .ok x) ↔ writable r = true)

theorem writesRegions_postgres (options : DialectOptions) {functions : Registry}
    (h : functions.HasRange) : (postgres options functions).WritesRegions Region.isSimple where
  functions := by
    rintro r ⟨⟩
    exact h
  system := rfl
  region := ⟨_, rfl, fun r pos _ => Postgres.region_isOk_iff r pos⟩

theorem writesRegions_sqlite (options : DialectOptions) {functions : Registry}
    (h : functions.HasRange) :
    (sqlite options functions).WritesRegions fun r => !r.hasComplement where
  functions := by
    rintro r ⟨⟩
    exact h
  system := rfl
  region := ⟨_, rfl, Sqlite.region_isOk_iff⟩

/-- The node becomes SQL. -/
def Accepts (d : Dialect) : Node → Prop
  | .operand o => ∃ x, d.operand o = .ok x
  | .condition c => ∃ x, d.condition c = .ok x
  | .source s => ∃ x, d.source s = .ok x
  | .offset _ => True
  | .query q => ∃ x, d.statement q = .ok x

variable {d : Dialect} {writable : Region → Bool}

theorem operand_region_isOk_iff (hd : d.WritesRegions writable) (text : Operand)
    (pos : Option Span) :
    (∃ x, d.operand (.region text pos) = .ok x) ↔
      ∃ t p r, text = .string t p ∧ Region.ofStcs t = .ok r ∧ writable r = true := by
  obtain ⟨f, hf, hwritable⟩ := hd.region
  rw [operand, hf]
  constructor
  · rintro ⟨x, h⟩
    obtain ⟨r, hr, hx⟩ := bind_eq_ok_iff.1 h
    cases text with
    | string t p =>
      have hvalid := Region.isValid_of_ofStcs hr
      exact ⟨t, p, r, rfl, hr, (hwritable r pos hvalid).1 ⟨x, hx⟩⟩
    | _ => cases hr
  · rintro ⟨t, p, r, rfl, hr, hr'⟩
    obtain ⟨x, hx⟩ := (hwritable r pos (Region.isValid_of_ofStcs hr)).2 hr'
    exact ⟨x, bind_eq_ok_iff.2 ⟨r, hr, hx⟩⟩

theorem accepts_operand_iff (hd : d.WritesRegions writable) {o : Operand} (ho : o.IsDeclaredCall) :
    d.Accepts (.operand o) ↔ o.IsFaultless writable ∧
      ∀ m ∈ (Node.operand o).loweredParts, d.Accepts m := by
  cases hparts : o.isLoweredByParts with
  | true =>
    have hrests := restsOn_loweredParts hd.functions ho hparts
    rw [Node.loweredParts, List.forall_mem_map]
    exact ⟨fun h => ⟨Operand.isFaultless_of_isLoweredByParts hparts, hrests.isOk_iff.1 h⟩,
      fun h => hrests.isOk_iff.2 h.2⟩
  | false =>
    cases o with
    | number t pos =>
      rw [Accepts, operand, exists_ok_map, Operand.decimalText_isOk_iff]
      exact (and_iff_left (List.forall_mem_nil _)).symm
    | region text pos =>
      rw [Accepts, operand_region_isOk_iff hd]
      refine (and_iff_left_of_imp ?_).symm
      rintro ⟨t, p, r, rfl, -⟩
      exact List.forall_mem_singleton.2 ⟨.string t, rfl⟩
    | extract part g pos =>
      cases part with
      | coordSys =>
        obtain ⟨system, hsystem⟩ := Option.isSome_iff_exists.1 hd.system
        have hok : d.operand (.extract .coordSys g pos) = .ok system := by
          rw [operand.eq_def]
          dsimp only
          rw [hsystem]
        exact iff_of_true ⟨system, hok⟩ ⟨trivial, List.forall_mem_nil _⟩
      | _ => cases hparts
    | _ => cases hparts

theorem members_isOk_iff (cs : List Condition) :
    (∃ xs, d.members cs = .ok xs) ↔ ∀ m ∈ cs.map .condition, d.Accepts m := by
  induction cs with
  | nil => exact iff_of_true ⟨[], rfl⟩ (List.forall_mem_nil _)
  | cons c cs ih =>
    rw [members, List.map_cons, List.forall_mem_cons, ← ih]
    exact exists_ok_bind_iff fun _ => exists_ok_map

theorem accepts_condition_iff (c : Condition) :
    d.Accepts (.condition c) ↔ ∀ m ∈ Node.ofCondition c, d.Accepts m := by
  cases c with
  | compare l op r pos =>
    rw [Accepts, condition, Node.ofCondition, List.forall_mem_cons, List.forall_mem_singleton]
    split
    · next g negated _ htest =>
      obtain ⟨t, p, ht, hsides⟩ := relationTest_eq_some htest
      have hliteral : d.Accepts (.operand (.number t p)) := by
        rcases ht with rfl | rfl
        · exact ⟨.number "1", rfl⟩
        · exact ⟨.number "0", rfl⟩
      rw [exists_ok_map]
      rcases hsides with ⟨rfl, rfl⟩ | ⟨rfl, rfl⟩
      · exact (and_iff_left hliteral).symm
      · exact (and_iff_right hliteral).symm
    · exact exists_ok_bind_iff fun _ => exists_ok_map
  | isNull x negated pos =>
    rw [Accepts, condition, Node.ofCondition, List.forall_mem_singleton]
    exact exists_ok_map
  | between x low high negated pos =>
    rw [Accepts, condition, Node.ofCondition, List.forall_mem_cons, List.forall_mem_cons,
      List.forall_mem_singleton]
    exact exists_ok_bind_iff fun _ => exists_ok_bind_iff fun _ => exists_ok_map
  | all cs =>
    rw [Accepts, condition, Node.ofCondition, exists_ok_map, members_isOk_iff]
  | any cs =>
    rw [Accepts, condition, Node.ofCondition, exists_ok_map, members_isOk_iff]
  | not c =>
    rw [Accepts, condition, Node.ofCondition, List.forall_mem_singleton]
    exact exists_ok_map

theorem joinRule_isOk_iff (rule : JoinRule) :
    (∃ x, d.joinRule rule = .ok x) ↔ ∀ m ∈ Node.ofRule rule, d.Accepts m := by
  cases rule with
  | unrestricted => exact iff_of_true ⟨_, rfl⟩ (List.forall_mem_nil _)
  | on c =>
    rw [joinRule, Node.ofRule, List.forall_mem_singleton]
    exact exists_ok_map
  | shared columns =>
    rw [Node.ofRule, List.forall_mem_map]
    exact iff_of_true ⟨_, rfl⟩ fun c _ => ⟨_, rfl⟩

theorem accepts_source_iff (s : Source) :
    d.Accepts (.source s) ↔ ∀ m ∈ Node.ofSource s, d.Accepts m := by
  cases s with
  | table name as pos => exact iff_of_true ⟨_, rfl⟩ (List.forall_mem_nil _)
  | join l natural kind r rule pos =>
    rw [Accepts, source, Node.ofSource, List.forall_mem_append, List.forall_mem_cons,
      List.forall_mem_singleton, ← joinRule_isOk_iff, and_comm]
    exact exists_ok_bind_iff fun _ => exists_ok_bind_iff fun _ => exists_ok_map

theorem sources_isOk_iff (ss : List Source) :
    (∃ xs, d.sources ss = .ok xs) ↔ ∀ m ∈ ss.map .source, d.Accepts m := by
  induction ss with
  | nil => exact iff_of_true ⟨[], rfl⟩ (List.forall_mem_nil _)
  | cons s ss ih =>
    rw [sources, List.map_cons, List.forall_mem_cons, ← ih]
    exact exists_ok_bind_iff fun _ => exists_ok_map

theorem operands_isOk_iff (xs : List Operand) :
    (∃ es, d.operands xs = .ok es) ↔ ∀ m ∈ xs.map .operand, d.Accepts m := by
  rw [List.forall_mem_map]
  exact (RestsOn.operands xs).isOk_iff

theorem optionalCondition_isOk_iff (c : Option Condition) :
    (∃ x, d.optionalCondition c = .ok x) ↔ ∀ m ∈ c.toList.map .condition, d.Accepts m := by
  cases c with
  | none => exact iff_of_true ⟨none, rfl⟩ (List.forall_mem_nil _)
  | some c =>
    rw [optionalCondition, exists_ok_map, Option.toList_some, List.map_singleton,
      List.forall_mem_singleton]
    rfl

theorem item_isOk_iff (i : SelectItem) :
    (∃ x, d.item i = .ok x) ↔ ∀ m ∈ Node.ofItem i, d.Accepts m := by
  cases i with
  | value x as =>
    rw [Node.ofItem, List.forall_mem_singleton]
    exact exists_ok_map
  | _ => exact iff_of_true ⟨_, rfl⟩ (List.forall_mem_nil _)

theorem items_isOk_iff (is : List SelectItem) :
    (∃ xs, d.items is = .ok xs) ↔ ∀ m ∈ is.flatMap Node.ofItem, d.Accepts m := by
  induction is with
  | nil => exact iff_of_true ⟨[], rfl⟩ (List.forall_mem_nil _)
  | cons i is ih =>
    rw [items, List.flatMap_cons, List.forall_mem_append, ← ih, ← item_isOk_iff]
    exact exists_ok_bind_iff fun _ => exists_ok_map

theorem orderKey_isOk_iff (o : OrderItem) :
    (∃ x, d.orderKey o.key = .ok x) ↔ ∀ m ∈ Node.ofOrder o, d.Accepts m := by
  obtain ⟨key, descending⟩ := o
  cases key with
  | value x =>
    rw [Node.ofOrder, List.forall_mem_singleton]
    rfl
  | index i => exact iff_of_true ⟨_, rfl⟩ (List.forall_mem_nil _)

theorem ordering_isOk_iff (os : List OrderItem) :
    (∃ xs, d.ordering os = .ok xs) ↔ ∀ m ∈ os.flatMap Node.ofOrder, d.Accepts m := by
  induction os with
  | nil => exact iff_of_true ⟨[], rfl⟩ (List.forall_mem_nil _)
  | cons o os ih =>
    rw [ordering, List.flatMap_cons, List.forall_mem_append, ← ih, ← orderKey_isOk_iff]
    exact exists_ok_bind_iff fun _ => exists_ok_map

theorem limit_isOk_iff (top : Option Nat) (offset : Option Offset) :
    (∃ x, d.limit top offset = .ok x) ↔
      ¬ (offset.isSome = true ∧ top = none ∧ d.options.offsetPolicy = .reject) := by
  rw [limit.eq_def]
  cases top with
  | some n => simp
  | none =>
    cases offset with
    | none => simp
    | some o => cases d.options.offsetPolicy <;> simp

theorem accepts_query_iff (q : Query) :
    d.Accepts (.query q) ↔ (Node.query q).IsFaultless writable d.options.offsetPolicy ∧
      ∀ m ∈ Node.ofQuery q, d.Accepts m := by
  have hstatement : d.Accepts (.query q) ↔ _ :=
    exists_ok_bind_iff fun _ => exists_ok_bind_iff fun _ => exists_ok_bind_iff fun _ =>
      exists_ok_bind_iff fun _ => exists_ok_bind_iff fun _ => exists_ok_bind_iff fun _ =>
        exists_ok_map
  rw [hstatement, items_isOk_iff, limit_isOk_iff, sources_isOk_iff, optionalCondition_isOk_iff,
    operands_isOk_iff, optionalCondition_isOk_iff, ordering_isOk_iff, Node.ofQuery]
  simp only [List.forall_mem_append, Node.IsFaultless]
  have hoffset : ∀ m ∈ q.offset.toList.map Node.offset, d.Accepts m := by
    rw [List.forall_mem_map]
    exact fun _ _ => trivial
  tauto

/-- A node becomes SQL if it has no fault itself and its parts become SQL. -/
theorem accepts_step (hd : d.WritesRegions writable) {n : Node}
    (hcall : ∀ o, n = .operand o → o.IsDeclaredCall) :
    d.Accepts n ↔ n.IsFaultless writable d.options.offsetPolicy ∧
      ∀ m ∈ n.loweredParts, d.Accepts m := by
  cases n with
  | operand o => exact accepts_operand_iff hd (hcall o rfl)
  | condition c => exact (accepts_condition_iff c).trans (and_iff_right trivial).symm
  | source s => exact (accepts_source_iff s).trans (and_iff_right trivial).symm
  | offset o => exact iff_of_true trivial ⟨trivial, List.forall_mem_nil _⟩
  | query q => exact accepts_query_iff q

/-- So a tree becomes SQL if no node that is lowered has a fault itself. -/
theorem accepts_iff (hd : d.WritesRegions writable) (root : Node)
    (hcalls : ∀ o, Node.LoweredWithin (.operand o) root → o.IsDeclaredCall) :
    d.Accepts root ↔
      ∀ n : Node, n.LoweredWithin root → n.IsFaultless writable d.options.offsetPolicy := by
  rw [accepts_step hd fun o ho => hcalls o (ho ▸ .refl), Node.forall_loweredWithin_iff]
  refine and_congr_right fun _ => forall₂_congr fun m hm => ?_
  exact accepts_iff hd m fun o ho => hcalls o (ho.tail hm)
termination_by root.weight
decreasing_by exact Node.weight_lt_of_mem_loweredParts hm

end Dialect

/-- Nothing that is lowered with the query is at fault, where some regions can be written and
offsets are treated in some way. -/
structure Query.IsFaultless (q : Query) (writable : Region → Bool) (policy : OffsetPolicy) :
    Prop where
  /-- Hexadecimal literals denote numbers of 64 bits. -/
  numbers : ∀ t pos, Node.LoweredWithin (.operand (.number t pos)) (.query q) →
    Operand.isHexadecimal t = true → Operand.FitsWord t
  /-- The argument of a region is a literal string that denotes a region that can be written. -/
  regions : ∀ text pos, Node.LoweredWithin (.operand (.region text pos)) (.query q) →
    ∃ t place r, text = .string t place ∧ Region.ofStcs t = .ok r ∧ writable r = true
  /-- An offset without a limit is not refused. -/
  offset : ¬ (q.offset.isSome = true ∧ q.top = none ∧ policy = .reject)

namespace Dialect

variable {d : Dialect} {writable : Region → Bool}

theorem queryText_isOk_iff (hd : d.WritesRegions writable) (q : Query)
    (hcalls : ∀ o, Node.LoweredWithin (.operand o) (.query q) → o.IsDeclaredCall) :
    (∃ sql, d.queryText q = .ok sql) ↔ q.IsFaultless writable d.options.offsetPolicy := by
  have hnodes : (∃ sql, d.queryText q = .ok sql) ↔ _ :=
    exists_ok_map.trans (accepts_iff hd (.query q) hcalls)
  rw [hnodes]
  constructor
  · intro h
    exact ⟨fun t pos hn => h _ hn, fun text pos hn => h _ hn, h _ .refl⟩
  · intro h n hn
    cases n with
    | operand o =>
      cases o with
      | number t pos => exact h.numbers t pos hn
      | region text pos => exact h.regions text pos hn
      | _ => trivial
    | query p =>
      obtain rfl := Node.eq_of_query_loweredWithin hn
      exact h.offset
    | _ => trivial

/-- A query becomes SQL in both databases unless something that is lowered with it is at fault. The
databases differ in the regions that they can write: simple ones, and those without complements. Its
calls stand as their definitions were accepted for them, so calls whose arguments were edited
afterwards are left out. -/
theorem query_succeeds_iff (options : DialectOptions) {functions : Registry}
    (hfunctions : functions.Reachable) {q : Query}
    (hcalls : ∀ o, Node.LoweredWithin (.operand o) (.query q) → o.IsDeclaredCall) :
    ((∃ sql, (postgres options functions).queryText q = .ok sql) ↔
        q.IsFaultless Region.isSimple options.offsetPolicy) ∧
      ((∃ sql, (sqlite options functions).queryText q = .ok sql) ↔
        q.IsFaultless (fun r => !r.hasComplement) options.offsetPolicy) :=
  ⟨queryText_isOk_iff (writesRegions_postgres options hfunctions.hasRange) q hcalls,
    queryText_isOk_iff (writesRegions_sqlite options hfunctions.hasRange) q hcalls⟩

section Union

def unionText : String := "UNION (POSITION 1 2 POSITION 3 4)"

/-- A call that takes one with a definition of its own, the coordinate system of what is no region,
and a union. -/
def unionQuery : Query :=
  .select [.value (.udf "gap" [.number "0xFF" none, gapArgument] none none) none,
    .value (.extract .coordSys (.region (.string "NOWHERE" none) none) none) none,
    .value (.region (.string unionText none) none) none]

def unionOperands : List Operand :=
  [.udf "gap" [.number "0xFF" none, gapArgument] none none, .number "0xFF" none, gapArgument,
    .number "1" none, .string "x" none,
    .extract .coordSys (.region (.string "NOWHERE" none) none) none,
    .region (.string unionText none) none, .string unionText none]

theorem ofStcs_unionText :
    ∃ r, Region.ofStcs unionText = .ok r ∧ (!r.isSimple && !r.hasComplement) = true := by
  have h : ((Region.ofStcs unionText).toOption.any fun r => !r.isSimple && !r.hasComplement) =
      true := by decide +kernel
  cases hr : Region.ofStcs unionText with
  | error e =>
    rw [hr] at h
    cases h
  | ok r =>
    rw [hr] at h
    exact ⟨r, rfl, h⟩

theorem loweredParts_unionOperands :
    ∀ o ∈ unionOperands, ∀ x ∈ o.loweredParts, x ∈ unionOperands := by
  refine List.forall_iff_forall_mem.1 ⟨?_, ?_, ?_, ?_, ?_, ?_, ?_, ?_⟩
  all_goals simp [Operand.loweredParts, Operand.children, unionOperands, gapArgument]

theorem loweredParts_unionQuery :
    ∀ n ∈ (Node.query unionQuery).loweredParts, n ∈ unionOperands.map Node.operand := by
  have hparts : (Node.query unionQuery).loweredParts = unionQuery.items.flatMap Node.ofItem := rfl
  rw [hparts]
  simp [unionQuery, Query.select, Node.ofItem, unionOperands]

theorem mem_unionOperands {o : Operand}
    (h : Node.LoweredWithin (.operand o) (.query unionQuery)) : o ∈ unionOperands := by
  have hall : ∀ n, Node.LoweredWithin n (.query unionQuery) →
      n = .query unionQuery ∨ n ∈ unionOperands.map Node.operand := by
    intro n hn
    induction hn using Relation.ReflTransGen.head_induction_on with
    | refl => exact .inl rfl
    | head hpart _ ih =>
      rcases ih with rfl | hmem
      · exact .inr (loweredParts_unionQuery _ hpart)
      · obtain ⟨x, hx, rfl⟩ := List.mem_map.1 hmem
        obtain ⟨y, hy, rfl⟩ := List.mem_map.1 hpart
        exact .inr (List.mem_map_of_mem (loweredParts_unionOperands x hx y hy))
  rcases hall _ h with h | h
  · cases h
  · exact (List.mem_map_of_injective fun _ _ => Node.operand.inj).1 h

/-- A union is written in one of the databases only. What is asked only for its coordinate system is
at fault in neither. -/
theorem query_succeeds_iff_union :
    (¬ ∃ sql, (postgres {} gapRegistry).queryText unionQuery = .ok sql) ∧
      ∃ sql, (sqlite {} gapRegistry).queryText unionQuery = .ok sql := by
  obtain ⟨r, hr, hshape⟩ := ofStcs_unionText
  rw [Bool.and_eq_true, Bool.not_eq_true'] at hshape
  have hcalls : ∀ o, Node.LoweredWithin (.operand o) (.query unionQuery) → o.IsDeclaredCall := by
    have hoperands : ∀ o ∈ unionOperands, o.IsDeclaredCall := List.forall_iff_forall_mem.1
      ⟨nofun, trivial, isDeclaredCall_gapArgument, trivial, trivial, trivial, trivial, trivial⟩
    exact fun o ho => hoperands o (mem_unionOperands ho)
  obtain ⟨hpostgres, hsqlite⟩ := query_succeeds_iff {} reachable_gapRegistry hcalls
  rw [hpostgres, hsqlite]
  constructor
  · intro h
    have hregion : Node.LoweredWithin (.operand (.region (.string unionText none) none))
        (.query unionQuery) := by
      refine .single ?_
      exact List.mem_of_getLast? rfl
    obtain ⟨t, place, s, htext, hs, hsimple⟩ := h.regions _ _ hregion
    cases htext
    rw [hr] at hs
    cases hs
    rw [hshape.1] at hsimple
    cases hsimple
  · refine ⟨fun t pos hn => ?_, fun text pos hn => ?_, nofun⟩
    · have hmem : (t = "0xFF" ∧ pos = none) ∨ t = "1" ∧ pos = none := by
        simpa [unionOperands, gapArgument] using mem_unionOperands hn
      rcases hmem with ⟨rfl, -⟩ | ⟨rfl, -⟩
      · exact fun _ => ⟨['F', 'F'], 255, .inl rfl, by decide, by decide⟩
      · exact fun hhex => absurd hhex (by decide)
    · have htext : text = .string unionText none ∧ pos = none := by
        simpa [unionOperands, gapArgument] using mem_unionOperands hn
      exact ⟨unionText, none, r, htext.1, hr, hshape.2⟩

end Union

end Dialect

end SkyQuery
