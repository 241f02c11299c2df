import Mathlib.Data.List.Basic
import SkyQuery.Config
import SkyQuery.Dialect.Lowering

/-!
# Limits and offsets of a configured dialect

The lines for the limit and the offset of a query follow the text of the query without them. What
stands in front of an offset when no limit is wanted is settled by the options of the dialect. A
document either gives no options, and a dialect has its own, or it gives some, and then what they
leave out is the same for all dialects.
-/

namespace SkyQuery

namespace Sql.Statement

theorem clause_nil (keyword : String) : clause keyword [] = "" := rfl

/-- The lines for the limit and the offset stand behind all others. The definition is opened as it
stands, because the equation of this long text takes too much time to derive. -/
theorem sql_unpaged (style : Style) (s : Statement) :
    s.sql style = sql style { s with limit := none, offset := none } ++
      clause "LIMIT" (s.limit.toList.map (Limit.sql style)) ++
      clause "OFFSET" (s.offset.toList.map toString) := by
  delta sql
  simp only [Option.toList_none, List.map_nil, clause_nil, String.append_empty]

end Sql.Statement

/-- The query without a limit and without an offset. -/
def Query.unpaged (q : Query) : Query := { q with top := none, offset := none }

namespace Dialect

variable {d : Dialect} {q : Query} {sql : String}

theorem statement_unpaged {s : Sql.Statement} (h : d.statement q = .ok s) :
    d.statement q.unpaged = .ok { s with limit := none, offset := none } ∧
      d.limit q.top q.offset = .ok s.limit ∧ s.offset = q.offset.map Offset.value := by
  rw [statement] at h
  obtain ⟨items, hitems, h⟩ := bind_eq_ok_iff.1 h
  obtain ⟨limit, hlimit, h⟩ := bind_eq_ok_iff.1 h
  obtain ⟨sources, hsources, h⟩ := bind_eq_ok_iff.1 h
  obtain ⟨filter, hfilter, h⟩ := bind_eq_ok_iff.1 h
  obtain ⟨groups, hgroups, h⟩ := bind_eq_ok_iff.1 h
  obtain ⟨having', hhaving, h⟩ := bind_eq_ok_iff.1 h
  obtain ⟨order, horder, ⟨⟩⟩ := bind_eq_ok_iff.1 h
  refine ⟨?_, hlimit, rfl⟩
  simp only [statement, Query.unpaged, hitems, hsources, hfilter, hgroups, hhaving, horder]
  rfl

/-- A query that becomes SQL does so without its limit and its offset, and has a line for each of
them behind that text. -/
theorem queryText_unpaged (h : d.queryText q = .ok sql) :
    ∃ head limit, d.queryText q.unpaged = .ok head ∧ d.limit q.top q.offset = .ok limit ∧
      sql = head ++ Sql.Statement.clause "LIMIT" (limit.toList.map (Sql.Limit.sql d.style)) ++
        Sql.Statement.clause "OFFSET" ((q.offset.map Offset.value).toList.map toString) := by
  rw [queryText] at h
  obtain ⟨s, hs, ⟨⟩⟩ := bind_eq_ok_iff.1 h
  obtain ⟨hunpaged, hlimit, hoffset⟩ := statement_unpaged hs
  refine ⟨_, s.limit, bind_eq_ok_iff.2 ⟨_, hunpaged, rfl⟩, hlimit, ?_⟩
  rw [← hoffset]
  exact Sql.Statement.sql_unpaged d.style s

/-- The line in front of an offset, by the policy for offsets without a limit. -/
def limitBefore (policy : OffsetPolicy) (unbounded : String) (top : Option Nat) : String :=
  match top, policy with
  | some n, _ => "\nLIMIT " ++ toString n
  | none, .withUnboundedLimit => "\nLIMIT " ++ unbounded
  | none, _ => ""

theorem clause_limit {top : Option Nat} {o : Offset} {limit : Option Sql.Limit}
    (h : d.limit top (some o) = .ok limit) :
    Sql.Statement.clause "LIMIT" (limit.toList.map (Sql.Limit.sql d.style)) =
      limitBefore d.options.offsetPolicy d.style.unboundedLimit top := by
  cases top with
  | some n =>
    cases h
    rfl
  | none =>
    rw [Dialect.limit] at h
    cases hpolicy : d.options.offsetPolicy <;> rw [hpolicy] at h <;> cases h <;> rfl

end Dialect

theorem OffsetPolicy.ofKey?_eq_some_iff {name : String} {p : OffsetPolicy} :
    ofKey? name = some p ↔ p.key = name := by
  constructor
  · intro h
    simpa using List.find?_some h
  · rintro rfl
    cases p <;> rfl

namespace Config

open Toml (Value)

/-- The root of a document is a table. -/
theorem exists_table_of_ofText? {text : String} {v : Value} (h : Toml.ofText? text = some v) :
    ∃ entries, v = .table entries := by
  rw [Toml.ofText?] at h
  obtain ⟨statements, -, h⟩ := Option.bind_eq_some_iff.1 h
  obtain ⟨⟨origin, es⟩, -, ⟨⟩⟩ := Option.bind_eq_some_iff.1 h
  exact ⟨_, Toml.Table.toValue.eq_1 origin es⟩

/-- The policy for offsets in the options of a dialect, if they set one. -/
def policyValue? (options : Value) : Option Value :=
  ((fields? ["case_sensitivity", "offset_policy"] options).getD []).lookup "offset_policy"

theorem offsetPolicy_of_options? {v : Value} {o : DialectOptions} (h : options? v = some o) :
    match policyValue? v with
    | none => o.offsetPolicy = .standalone
    | some p => choice? p = some o.offsetPolicy.key := by
  rw [options?] at h
  obtain ⟨entries, hentries, h⟩ := Option.bind_eq_some_iff.1 h
  obtain ⟨cases', -, h⟩ := Option.bind_eq_some_iff.1 h
  obtain ⟨policy, hpolicy, ⟨⟩⟩ := Option.bind_eq_some_iff.1 h
  rw [policyValue?, hentries, Option.getD_some]
  rw [field] at hpolicy
  cases hp : entries.lookup "offset_policy" with
  | none =>
    rw [hp] at hpolicy
    cases hpolicy
    rfl
  | some p =>
    rw [hp] at hpolicy
    obtain ⟨name, hname, hkey⟩ := Option.bind_eq_some_iff.1 hpolicy
    rw [OffsetPolicy.ofKey?_eq_some_iff] at hkey
    dsimp only
    rw [hkey, hname]

theorem options_of_ofToml {text : String} {c : Config} (h : ofToml text = .ok c) :
    ∃ entries, Toml.ofText? text = some (.table entries) ∧
      match entries.lookup "dialect" with
      | none => c.options = none
      | some v => ∃ o, c.options = some o ∧ options? v = some o := by
  rw [ofToml] at h
  split at h
  · cases h
  · next v hv =>
    split at h
    · cases h
    · next c' hc =>
      cases h
      obtain ⟨entries, rfl⟩ := exists_table_of_ofText? hv
      refine ⟨entries, hv, ?_⟩
      rw [ofValue?] at hc
      obtain ⟨entries', ⟨⟩, hc⟩ := Option.bind_eq_some_iff.1 hc
      obtain ⟨-, -, hc⟩ := Option.bind_eq_some_iff.1 hc
      obtain ⟨version, -, hc⟩ := Option.bind_eq_some_iff.1 hc
      obtain ⟨toggles, -, hc⟩ := Option.bind_eq_some_iff.1 hc
      obtain ⟨functions, -, hc⟩ := Option.bind_eq_some_iff.1 hc
      obtain ⟨options, hoptions, ⟨⟩⟩ := Option.bind_eq_some_iff.1 hc
      rw [field] at hoptions
      cases hdialect : entries.lookup "dialect" with
      | none =>
        rw [hdialect] at hoptions
        cases hoptions
        rfl
      | some v =>
        rw [hdialect] at hoptions
        obtain ⟨o, ho, ⟨⟩⟩ := Option.map_eq_some_iff.1 hoptions
        exact ⟨o, rfl, ho⟩

/-- The line for the limit in front of an offset: the number of rows that is asked for, or else no
bound, where a document gives no options or sets that policy. Options that do not set a policy are
like those that set the offset to stand alone. -/
def limitLine (entries : List (String × Value)) (top : Option Nat) : String :=
  match top, entries.lookup "dialect" with
  | some n, _ => "\nLIMIT " ++ toString n
  | none, none => "\nLIMIT -1"
  | none, some options =>
    match (policyValue? options).bind choice? with
    | some "with_unbounded_limit" => "\nLIMIT -1"
    | _ => ""

theorem limitLine_eq {entries : List (String × Value)} {options : Option DialectOptions}
    (h : match entries.lookup "dialect" with
      | none => options = none
      | some v => ∃ o, options = some o ∧ options? v = some o) (top : Option Nat) :
    limitLine entries top =
      Dialect.limitBefore (options.getD Dialect.Sqlite.defaultOptions).offsetPolicy "-1" top := by
  cases top with
  | some n => rfl
  | none =>
    cases hdialect : entries.lookup "dialect" with
    | none =>
      rw [hdialect] at h
      dsimp only at h
      rw [h]
      simp only [limitLine, hdialect]
      rfl
    | some v =>
      rw [hdialect] at h
      obtain ⟨o, rfl, ho⟩ := h
      have hpolicy := offsetPolicy_of_options? ho
      cases hvalue : policyValue? v with
      | none =>
        rw [hvalue] at hpolicy
        simp only [limitLine, hdialect, hvalue, Option.getD_some, hpolicy]
        rfl
      | some p =>
        rw [hvalue] at hpolicy
        simp only [limitLine, hdialect, hvalue, Option.getD_some, Option.bind_some, hpolicy]
        cases o.offsetPolicy <;> rfl

/-- A query with an offset that becomes SQL in the dialect of a document is the text of the query
without limit and offset, with the line for the limit and the line for the offset behind it. So a
limit stands directly in front of the offset if the query asks for it, or if the document has no
options for the dialect; options for anything else take the limit away. -/
theorem sqlite_offset_lines {text : String} {c : Config} {d : Dialect} {q : Query} {o : Offset}
    {sql : String} (hc : ofToml text = .ok c) (hd : c.sqlite = .ok d) (ho : q.offset = some o)
    (hsql : d.queryText q = .ok sql) :
    ∃ entries head, Toml.ofText? text = some (.table entries) ∧
      d.queryText q.unpaged = .ok head ∧
      sql = head ++ limitLine entries q.top ++ "\nOFFSET " ++ toString o.value := by
  obtain ⟨entries, hentries, hoptions⟩ := options_of_ofToml hc
  obtain ⟨functions, -, ⟨⟩⟩ := bind_eq_ok_iff.1 hd
  obtain ⟨head, limit, hhead, hlimit, rfl⟩ := Dialect.queryText_unpaged hsql
  refine ⟨entries, head, hentries, hhead, ?_⟩
  rw [ho] at hlimit ⊢
  have hoffset : Sql.Statement.clause "OFFSET" (((some o).map Offset.value).toList.map toString) =
      "\nOFFSET " ++ toString o.value := rfl
  rw [Dialect.clause_limit hlimit, limitLine_eq hoptions, hoffset, ← String.append_assoc]
  rfl

/-- All rows of a table from the eleventh on. -/
def rowsFromTenth : Query :=
  { Query.selectFrom [.all] ⟨none, none, ⟨"foo", false⟩⟩ with offset := some { value := 10 } }

/-- Without options there is a limit in front of the offset. -/
theorem sqlite_offset_lines_without_options :
    let text := "version = \"2.0\"\n"
    let d := Dialect.sqlite Dialect.Sqlite.defaultOptions .empty
    ofToml text = .ok { version := .v20 } ∧ sqlite { version := .v20 } = .ok d ∧
      ∃ entries head, Toml.ofText? text = some (.table entries) ∧
        d.queryText rowsFromTenth.unpaged = .ok head ∧
        "SELECT *\nFROM foo\nLIMIT -1\nOFFSET 10" =
          head ++ limitLine entries none ++ "\nOFFSET " ++ toString 10 := by
  have hc : ofToml "version = \"2.0\"\n" = .ok { version := .v20 } := by decide +kernel
  have hd : sqlite { version := .v20 } =
      .ok (Dialect.sqlite Dialect.Sqlite.defaultOptions .empty) := rfl
  have ho : rowsFromTenth.offset = some { value := 10 } := rfl
  have hsql : (Dialect.sqlite Dialect.Sqlite.defaultOptions .empty).queryText rowsFromTenth =
      .ok "SELECT *\nFROM foo\nLIMIT -1\nOFFSET 10" := rfl
  obtain ⟨entries, head, hentries, hhead, hlines⟩ := sqlite_offset_lines hc hd ho hsql
  exact ⟨hc, hd, entries, head, hentries, hhead, hlines⟩

/-- A document that only says how columns are compared takes the limit away, although it does not
name the policy for offsets. -/
theorem sqlite_bare_offset :
    let text := "[dialect.case_sensitivity]\ncolumn = true\n"
    let options : DialectOptions := { caseSensitivity := { column := true } }
    Text.contains text "offset_policy" = false ∧
      ofToml text = .ok { options := some options } ∧
      sqlite { options := some options } = .ok (Dialect.sqlite options .empty) ∧
      (Dialect.sqlite options .empty).queryText rowsFromTenth =
        .ok "SELECT *\nFROM foo\nOFFSET 10" := by
  have hc : ofToml "[dialect.case_sensitivity]\ncolumn = true\n" =
      .ok { options := some { caseSensitivity := { column := true } } } := by decide +kernel
  exact ⟨by decide +kernel, hc, rfl, rfl⟩

end Config

end SkyQuery
