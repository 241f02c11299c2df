import SkyQuery.Proofs.Dialect.Shown
import SkyQuery.Proofs.Lowercase

/-!
# What labels stand for

A table is declared under a label, and columns are qualified by that label. Labels are always quoted
and qualifiers are quoted if tables are. So the two stand for the same name unless labels and tables
are treated differently and the name has letters in upper case.
-/

namespace SkyQuery

namespace Sql

/-- The name that a database takes: a quoted one as it is, another in lower case. -/
def Name.denoted (n : Name) : String := if n.quoted then n.name else Text.lowercase n.name

theorem denoted_mkQuoted (name : String) : (Name.mkQuoted name).denoted = name := rfl

/-- The labels of the tables of a source, from the left to the right. -/
def Source.labels : Source → List Name
  | .table _ as => as.toList
  | .join l _ _ r _ _ => l.labels ++ r.labels

def Statement.labels (s : Statement) : List Name := s.sources.flatMap Source.labels

end Sql

/-- The labels of the tables of a source, from the left to the right. -/
def Source.labels : Source → List Identifier
  | .table _ as _ => as.toList
  | .join l _ _ r _ _ => l.labels ++ r.labels

def Query.labels (q : Query) : List Identifier := q.sources.flatMap Source.labels

namespace Dialect

variable {d : Dialect}

theorem labels_source {s : Source} {x : Sql.Source} (h : d.source s = .ok x) :
    x.labels = s.labels.map d.labelName := by
  induction s generalizing x with
  | table name as pos =>
    cases h
    cases as <;> rfl
  | join l natural kind r rule pos hl hr =>
    rw [source] at h
    obtain ⟨⟨on, shared⟩, -, h⟩ := bind_eq_ok_iff.1 h
    obtain ⟨l', hl', h⟩ := bind_eq_ok_iff.1 h
    obtain ⟨r', hr', h⟩ := bind_eq_ok_iff.1 h
    cases h
    rw [Sql.Source.labels, Source.labels, hl hl', hr hr', List.map_append]

theorem labels_sources {ss : List Source} {xs : List Sql.Source} (h : d.sources ss = .ok xs) :
    xs.flatMap Sql.Source.labels = (ss.flatMap Source.labels).map d.labelName := by
  induction ss generalizing xs with
  | nil =>
    rw [sources] at h
    cases h
    rfl
  | cons s ss ih =>
    rw [sources] at h
    obtain ⟨x, hx, h⟩ := bind_eq_ok_iff.1 h
    obtain ⟨xs, hxs, h⟩ := bind_eq_ok_iff.1 h
    cases h
    rw [List.flatMap_cons, List.flatMap_cons, labels_source hx, ih hxs, List.map_append]

theorem labels_statement {q : Query} {s : Sql.Statement} (h : d.statement q = .ok s) :
    s.labels = q.labels.map d.labelName := by
  rw [statement] at h
  obtain ⟨items, -, h⟩ := bind_eq_ok_iff.1 h
  obtain ⟨limit, -, h⟩ := bind_eq_ok_iff.1 h
  obtain ⟨sources, hsources, h⟩ := bind_eq_ok_iff.1 h
  obtain ⟨filter, -, h⟩ := bind_eq_ok_iff.1 h
  obtain ⟨groups, -, h⟩ := bind_eq_ok_iff.1 h
  obtain ⟨having', -, h⟩ := bind_eq_ok_iff.1 h
  obtain ⟨order, -, h⟩ := bind_eq_ok_iff.1 h
  cases h
  exact labels_sources hsources

theorem denoted_sqlName (i : Identifier) (role : NameRole) :
    (d.sqlName i role).denoted =
      if i.delimited || d.options.caseSensitivity.of role then i.name else Text.lowercase i.name :=
  rfl

theorem denoted_labelName (i : Identifier) :
    (d.labelName i).denoted =
      if i.delimited || d.options.caseSensitivity.label then i.name
      else Text.lowercase i.name := by
  rw [labelName, apply_ite Sql.Name.denoted, Sql.denoted_mkQuoted, Sql.denoted_mkQuoted]

theorem columnPath_of_unqualified {c : Column} {a : Identifier} (h : c.table = some { name := a }) :
    d.columnPath c = [d.sqlName a .table, d.sqlName c.name .column] := by
  rw [columnPath, h]
  rfl

theorem labelName_denotes_iff (a : Identifier) :
    (d.labelName a).denoted = (d.sqlName a .table).denoted ↔
      a.delimited = true ∨
        d.options.caseSensitivity.label = d.options.caseSensitivity.table ∨
        Text.lowercase a.name = a.name := by
  rw [denoted_labelName, denoted_sqlName, CaseSensitivity.of]
  cases a.delimited with
  | true => simp
  | false =>
    cases d.options.caseSensitivity.label with
    | true => cases d.options.caseSensitivity.table <;> simp [eq_comm]
    | false => cases d.options.caseSensitivity.table <;> simp

/-- The labels of a statement are those of the query, and its names are those of the columns that
are shown. A column qualified by a label is found under that label unless the label is not
delimited, is not in lower case and is treated otherwise than the names of tables. -/
theorem label_denotes_qualifier_iff (hd : IsOffered d) {q : Query} {s : Sql.Statement}
    (h : d.statement q = .ok s) :
    s.labels = q.labels.map d.labelName ∧
      (∀ path, s.Has (· = .field path) ↔
        ∃ c, Node.ShownWithin d (.operand (.column c)) (.query q) ∧ d.columnPath c = path) ∧
      ∀ a ∈ q.labels, ∀ c : Column, Node.ShownWithin d (.operand (.column c)) (.query q) →
        c.table = some { name := a } →
          ∃ label ∈ s.labels, ∃ qualifier,
            label = d.labelName a ∧
              s.Has (· = .field [qualifier, d.sqlName c.name .column]) ∧
              (label.denoted = qualifier.denoted ↔
                a.delimited = true ∨
                  d.options.caseSensitivity.label = d.options.caseSensitivity.table ∨
                  Text.lowercase a.name = a.name) := by
  have hlabels := labels_statement h
  have hfields : ∀ path, s.Has (· = .field path) ↔
      ∃ c, Node.ShownWithin d (.operand (.column c)) (.query q) ∧ d.columnPath c = path := by
    intro path
    have hexhibits : d.Exhibits (· = .field path) (.query q) ↔ s.Has (· = .field path) := by
      simp [Exhibits, h]
    have haccepts : d.Accepts (.query q) := ⟨s, h⟩
    rw [← hexhibits]
    exact exhibits_field_iff hd haccepts path
  refine ⟨hlabels, hfields, fun a ha c hc htable => ?_⟩
  have hlabel : d.labelName a ∈ s.labels := by
    rw [hlabels]
    exact List.mem_map_of_mem ha
  have hfield := (hfields _).2 ⟨c, hc, columnPath_of_unqualified htable⟩
  exact ⟨d.labelName a, hlabel, d.sqlName a .table, rfl, hfield, labelName_denotes_iff a⟩

/-- The query `SELECT Bar.x FROM foo AS Bar`. -/
def labelled : Query where
  items :=
    [.value (.column { table := some { name := .regular "Bar" }, name := .regular "x" }) none]
  sources := [.table { name := .regular "foo" } (some (.regular "Bar")) none]

/-- Where neither labels nor tables keep their case, the qualifier is not quoted and is folded to
the label. -/
theorem label_denotes_qualifier_iff_folded :
    ∃ s, (postgres {} .empty).statement labelled = .ok s ∧
      s.labels = [.mkQuoted "bar"] ∧
      ∃ label ∈ s.labels, ∃ qualifier,
        s.Has (· = .field [qualifier, ⟨"x", false⟩]) ∧ label.denoted = qualifier.denoted := by
  let d := postgres {} .empty
  obtain ⟨s, hs⟩ : ∃ s, d.statement labelled = .ok s := ⟨_, rfl⟩
  obtain ⟨hlabels, -, hall⟩ := label_denotes_qualifier_iff (.postgres {} .empty) hs
  have hshown : Node.ShownWithin d
      (.operand (.column { table := some { name := .regular "Bar" }, name := .regular "x" }))
      (.query labelled) := .single List.mem_cons_self
  obtain ⟨label, hmem, qualifier, -, hfield, hiff⟩ :=
    hall (.regular "Bar") List.mem_cons_self _ hshown rfl
  have hlower : Text.lowercase "Bar" = "bar" := by decide +kernel
  refine ⟨s, hs, ?_, label, hmem, qualifier, hfield, hiff.2 (.inr (.inl rfl))⟩
  rw [hlabels, ← hlower]
  rfl

/-- Where only tables keep their case, a table is declared under one name and referred to under
another. -/
theorem label_quoted_apart :
    (postgres { caseSensitivity := { table := true } } .empty).queryText labelled =
        .ok "SELECT \"Bar\".x AS \"x\"\nFROM \"foo\" AS \"bar\"" ∧
      ∃ s, (postgres { caseSensitivity := { table := true } } .empty).statement labelled = .ok s ∧
        s.labels = [.mkQuoted "bar"] ∧
        s.Has (· = .field [.mkQuoted "Bar", ⟨"x", false⟩]) ∧
        (Sql.Name.mkQuoted "bar").denoted ≠ (Sql.Name.mkQuoted "Bar").denoted := by
  refine ⟨by decide +kernel, _, rfl, by decide +kernel, ?_, by decide⟩
  exact .inl ⟨_, List.mem_cons_self, rfl⟩

end Dialect

end SkyQuery
