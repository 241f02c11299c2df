import Mathlib.Data.List.Infix
import SkyQuery.Dialect.Sqlite

/-!
# Declared types and column affinity

SQLite looks for keywords in the declared type of a column, in any ASCII letter case and anywhere in
the name, and the first keyword in a fixed order settles how the column stores its values. A declared
name that is taken for a type and written again as a native one gives the name of that affinity,
except where the name says VARYING without any keyword for integers or texts.
-/

namespace SkyQuery

namespace Text

theorem occursIn_iff (part whole : List Char) :
    occursIn part whole = true ↔ part <:+: whole := by
  induction whole with
  | nil => rw [occursIn, List.isEmpty_iff, List.infix_nil]
  | cons c rest ih =>
    rw [occursIn, Bool.or_eq_true, ih, List.isPrefixOf_iff_prefix, List.infix_cons_iff]

end Text

namespace Dialect.Sqlite

/-- How a column stores its values. -/
inductive Affinity where
  | integer | text | blob | real | numeric
  deriving DecidableEq, Repr

def Affinity.name : Affinity → String
  | .integer => "INTEGER"
  | .text => "TEXT"
  | .blob => "BLOB"
  | .real => "REAL"
  | .numeric => "NUMERIC"

theorem Affinity.name_eq_text_iff {a : Affinity} : a.name = "TEXT" ↔ a = .text := by
  cases a <;> decide

/-- The keyword occurs in the name, whose ASCII letters may have any case. -/
def Mentions (name keyword : String) : Prop := keyword.toList <:+: name.toList.map Char.toUpper

instance (name keyword : String) : Decidable (Mentions name keyword) :=
  inferInstanceAs (Decidable (keyword.toList <:+: name.toList.map Char.toUpper))

/-- The affinity of a column with a declared type. -/
def affinity (name : String) : Affinity :=
  if Mentions name "INT" then .integer
  else if Mentions name "CHAR" ∨ Mentions name "CLOB" ∨ Mentions name "TEXT" then .text
  else if Mentions name "BLOB" then .blob
  else if Mentions name "REAL" ∨ Mentions name "FLOA" ∨ Mentions name "DOUB" then .real
  else .numeric

/-- The names that stand for geometries, which have no affinity of their own. -/
def geometryNames : List String := ["POINT", "POLYGON", "MULTIPOLYGON", "GEOMETRY"]

/-- The name says that a length varies, but not that it is one of characters. -/
def VariesWithoutText (name : String) : Prop :=
  Mentions name "VARYING" ∧ affinity name ≠ .integer ∧ affinity name ≠ .text

instance (name : String) : Decidable (VariesWithoutText name) :=
  inferInstanceAs (Decidable (Mentions name "VARYING" ∧ affinity name ≠ .integer ∧
    affinity name ≠ .text))

theorem contains_upperAscii_iff (name keyword : String) :
    Text.contains (Text.upperAscii name) keyword = true ↔ Mentions name keyword := by
  rw [Text.contains, Text.occursIn_iff, Text.upperAscii, String.toList_ofList, Mentions]

theorem Mentions.of_part {name longer keyword : String} (h : Mentions name longer)
    (hkeyword : keyword.toList <:+: longer.toList) : Mentions name keyword :=
  hkeyword.trans h

theorem mentions_of_startsWith {name start : String}
    (h : Text.startsWith (Text.upperAscii name) start = true) : Mentions name start := by
  rw [Text.startsWith, Text.upperAscii, String.toList_ofList, List.isPrefixOf_iff_prefix] at h
  exact h.isInfix

/-- Only the affinity of its kind is left of the type behind a declared name. The word VARYING is
one more keyword for texts, and names of times are written as texts where nothing comes before. -/
theorem nativeType_ofDeclared {name : String} (modifiers : List String)
    (hgeometry : Text.upperAscii name ∉ geometryNames) :
    nativeType ((ofDeclared (Text.upperAscii name) modifiers).named name) =
      if Mentions name "INT" then "INTEGER"
      else if Mentions name "VARYING" ∨ Mentions name "CHAR" ∨ Mentions name "CLOB" ∨
        Mentions name "TEXT" then "TEXT"
      else if Mentions name "BLOB" then "BLOB"
      else if Mentions name "REAL" ∨ Mentions name "FLOA" ∨ Mentions name "DOUB" then "REAL"
      else if Mentions name "DATE" ∨ Mentions name "TIME" then "TEXT"
      else "NUMERIC" := by
  simp only [geometryNames, List.mem_cons, List.not_mem_nil, or_false, not_or] at hgeometry
  obtain ⟨hpoint, hpolygon, hmulti, hany⟩ := hgeometry
  rw [ofDeclared, if_neg hpoint, if_neg (not_or.2 ⟨hpolygon, hmulti⟩), if_neg hany]
  simp only [Bool.or_eq_true, or_assoc, contains_upperAscii_iff]
  by_cases hsmall : Text.startsWith (Text.upperAscii name) "SMALLINT" = true ∨
      Text.startsWith (Text.upperAscii name) "TINYINT" = true
  · have hint : Mentions name "INT" :=
      hsmall.elim (fun h => (mentions_of_startsWith h).of_part (by decide))
        fun h => (mentions_of_startsWith h).of_part (by decide)
    rw [if_pos hsmall, if_pos hint]
    rfl
  rw [if_neg hsmall]
  by_cases hint : Mentions name "INT"
  · rw [if_pos hint, if_pos hint]
    rfl
  rw [if_neg hint, if_neg hint]
  by_cases hlong : Mentions name "CLOB" ∨ Mentions name "TEXT"
  · rw [if_pos hlong, if_pos (.inr (.inr hlong))]
    rfl
  rw [if_neg hlong]
  by_cases hvarying : Mentions name "VARCHAR" ∨ Mentions name "VARYING"
  · have htext : Mentions name "VARYING" ∨ Mentions name "CHAR" ∨ Mentions name "CLOB" ∨
        Mentions name "TEXT" := hvarying.symm.imp_right fun h => .inl (h.of_part (by decide))
    rw [if_pos hvarying, if_pos htext]
    rfl
  rw [if_neg hvarying]
  by_cases hchar : Mentions name "CHAR"
  · rw [if_pos hchar, if_pos (.inr (.inl hchar))]
    rfl
  have hnone : ¬ (Mentions name "VARYING" ∨ Mentions name "CHAR" ∨ Mentions name "CLOB" ∨
      Mentions name "TEXT") :=
    not_or.2 ⟨fun h => hvarying (.inr h), not_or.2 ⟨hchar, hlong⟩⟩
  rw [if_neg hchar, if_neg hnone]
  split_ifs <;> rfl

theorem nativeType_ofNativeType (code : Int) {name : String} (modifiers : List String)
    (hname : name ≠ "") (hgeometry : Text.upperAscii name ∉ geometryNames)
    (hdate : ¬ Mentions name "DATE") (htime : ¬ Mentions name "TIME") :
    nativeType (ofNativeType code name modifiers) =
      if VariesWithoutText name then "TEXT" else (affinity name).name := by
  have htimes : ¬ (Mentions name "DATE" ∨ Mentions name "TIME") := not_or.2 ⟨hdate, htime⟩
  rw [ofNativeType, if_neg hname, nativeType_ofDeclared modifiers hgeometry, if_neg htimes]
  by_cases hint : Mentions name "INT"
  · have haffinity : affinity name = .integer := if_pos hint
    rw [if_pos hint, if_neg fun h => h.2.1 haffinity, haffinity]
    rfl
  rw [if_neg hint]
  by_cases hchar : Mentions name "CHAR" ∨ Mentions name "CLOB" ∨ Mentions name "TEXT"
  · have haffinity : affinity name = .text := by rw [affinity, if_neg hint, if_pos hchar]
    rw [if_pos (.inr hchar), if_neg fun h => h.2.2 haffinity, haffinity]
    rfl
  by_cases hvarying : Mentions name "VARYING"
  · have hvaries : VariesWithoutText name := by
      refine ⟨hvarying, ?_, ?_⟩
      all_goals
        rw [affinity, if_neg hint, if_neg hchar]
        split_ifs <;> decide
    rw [if_pos (.inl hvarying), if_pos hvaries]
  · have hvaries : ¬ VariesWithoutText name := fun h => hvarying h.1
    rw [if_neg (not_or.2 ⟨hvarying, hchar⟩), if_neg hvaries, affinity, if_neg hint, if_neg hchar]
    split_ifs <;> rfl

/-- A declared name comes back as the name of its affinity, unless it says VARYING without a keyword
for integers or texts: then it comes back as TEXT, which is not its affinity. -/
theorem nativeType_affinity_iff (code : Int) {name : String} (modifiers : List String)
    (hname : name ≠ "") (hgeometry : Text.upperAscii name ∉ geometryNames)
    (hdate : ¬ Mentions name "DATE") (htime : ¬ Mentions name "TIME") :
    (nativeType (ofNativeType code name modifiers) = (affinity name).name ↔
      ¬ VariesWithoutText name) ∧
    (VariesWithoutText name → nativeType (ofNativeType code name modifiers) = "TEXT") := by
  rw [nativeType_ofNativeType code modifiers hname hgeometry hdate htime]
  by_cases hvaries : VariesWithoutText name
  · rw [if_pos hvaries]
    refine ⟨iff_of_false (fun htext => ?_) (not_not.2 hvaries), fun _ => rfl⟩
    exact hvaries.2.2 (Affinity.name_eq_text_iff.1 htext.symm)
  · rw [if_neg hvaries]
    exact ⟨iff_of_true rfl hvaries, fun h => absurd h hvaries⟩

/-- A name in letters of both cases with keywords of three affinities, and a name of varying bits. -/
theorem nativeType_affinity_iff_mixed :
    nativeType (ofNativeType 2 "Double Blob clOb(9)" ["9"]) = "TEXT" ∧
      affinity "Double Blob clOb(9)" = .text ∧
      nativeType (ofNativeType 3 "bit Varying" []) = "TEXT" ∧
      affinity "bit Varying" = .numeric := by
  have hmixed : affinity "Double Blob clOb(9)" = .text := by decide
  have hbits : affinity "bit Varying" = .numeric := by decide
  refine ⟨?_, hmixed, ?_, hbits⟩
  · rw [(nativeType_affinity_iff 2 ["9"] (by decide) (by decide) (by decide) (by decide)).1.2
      fun h => h.2.2 hmixed, hmixed]
    rfl
  · exact (nativeType_affinity_iff 3 [] (by decide) (by decide) (by decide) (by decide)).2
      (by decide)

/-- Bits of varying length are declared without a keyword, so that they are numeric. -/
theorem nativeType_bit_varying :
    nativeType (ofNativeType 0 "BIT VARYING" []) ≠ (affinity "BIT VARYING").name := by
  decide

end Dialect.Sqlite

end SkyQuery
