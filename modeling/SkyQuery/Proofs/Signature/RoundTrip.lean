import SkyQuery.Proofs.Operand.Integer
import SkyQuery.Proofs.Signature.Spelling

/-!
# The round trip of signatures

A text denotes a signature if it spells one with types of known kinds that take the lengths they
are given. Every signature of that form is denoted by its canonical text. A number that needs more
than 32 bits is read as no length at all, for every kind.
-/

namespace SkyQuery

namespace DataKind

theorem isPlainName_name (k : DataKind) : Text.isPlainName k.name = true := by
  cases k <;> decide

theorem ofName?_name (k : DataKind) : ofName? k.name = some k := by
  cases k <;> decide

end DataKind

namespace DataType

/-- A type that a signature can declare. -/
structure IsDeclarable (t : DataType) : Prop where
  known : t.kind ≠ .unknown ∧ t.kind ≠ .unknownNumeric
  nativeName_eq : t.nativeName = none
  hasLength : ∀ n ∈ t.length, t.kind.hasLength = true
  /-- Lengths are numbers of 32 bits. -/
  length_lt : ∀ n ∈ t.length, n < Text.bound32

end DataType

namespace Signature

/-- The type that a spelling stands for. -/
structure TypeSpelling.Denotes (t : TypeSpelling) (type : DataType) : Prop where
  kind : DataKind.ofName? t.name.1 = some type.kind
  declarable : type.IsDeclarable
  length : type.length =
    t.digits?.bind fun digits => (Text.numberOf 10 digits).filter (· < Text.bound32)

theorem length_written (t : TypeSpelling) :
    t.written.length =
      t.digits?.bind fun digits => (Text.numberOf 10 digits).filter (· < Text.bound32) := by
  obtain ⟨name, length⟩ := t
  cases length with
  | none => rfl
  | some l =>
    have hnumber := Text.numberOf_decimal l.digits.2.1 l.digits.2.2
    exact Text.readDecimal?_eq (by decide) (Text.head?_ne_plus_of_numberOf hnumber)

theorem resolve_eq_ok_iff {t : Reader.WrittenType} {type : DataType} :
    resolve t = .ok type ↔
      DataKind.ofName? t.name = some type.kind ∧
        (type.kind ≠ .unknown ∧ type.kind ≠ .unknownNumeric) ∧ type.nativeName = none ∧
          (∀ n ∈ type.length, type.kind.hasLength = true) ∧ type.length = t.length := by
  obtain ⟨name, length⟩ := t
  obtain ⟨kind, length', nativeName⟩ := type
  rw [resolve]
  dsimp only
  split
  · next hname => simp [hname]
  · next hname =>
    rw [hname]
    grind
  · next hname =>
    rw [hname]
    grind
  · next k hunknown hnumeric hname =>
    rw [hname]
    cases length with
    | none =>
      rw [Except.ok.injEq, DataType.ofKind, DataType.mk.injEq]
      constructor
      · rintro ⟨rfl, rfl, rfl⟩
        exact ⟨rfl, ⟨hunknown, hnumeric⟩, rfl, nofun, rfl⟩
      · rintro ⟨hkind, -, rfl, -, rfl⟩
        exact ⟨Option.some.inj hkind, rfl, rfl⟩
    | some n =>
      dsimp only
      split
      · next htakes =>
        rw [Except.ok.injEq, DataType.sized, DataType.mk.injEq]
        constructor
        · rintro ⟨rfl, rfl, rfl⟩
          exact ⟨rfl, ⟨hunknown, hnumeric⟩, rfl, fun _ _ => htakes, rfl⟩
        · rintro ⟨hkind, -, rfl, -, rfl⟩
          exact ⟨Option.some.inj hkind, rfl, rfl⟩
      · next hrefuses =>
        constructor
        · intro h
          cases h
        · rintro ⟨hkind, -, -, htakes, rfl⟩
          cases hkind
          exact absurd (htakes n rfl) hrefuses

theorem TypeSpelling.resolve_written {t : TypeSpelling} {type : DataType} :
    resolve t.written = .ok type ↔ t.Denotes type := by
  rw [resolve_eq_ok_iff, length_written]
  constructor
  · rintro ⟨hkind, hknown, hnative, htakes, hlength⟩
    refine ⟨hkind, ⟨hknown, hnative, htakes, fun n hn => ?_⟩, hlength⟩
    rw [hlength] at hn
    obtain ⟨digits, -, hdigits⟩ := Option.bind_eq_some_iff.1 hn
    exact of_decide_eq_true (Option.filter_eq_some_iff.1 hdigits).2
  · rintro ⟨hkind, ⟨hknown, hnative, htakes, -⟩, hlength⟩
    exact ⟨hkind, hknown, hnative, htakes, hlength⟩

/-- The signature that a spelling stands for. -/
structure Spelling.Denotes (w : Spelling) (s : Signature) : Prop where
  name : s.name = w.name.1
  parameters : List.Forall₂ (fun p q => q.name = p.name.1 ∧ p.type.Denotes q.type)
    w.parameters s.parameters
  result : w.result.Denotes s.result
  pattern : s.pattern = none

theorem resolveParameters_written {ps : List ParameterSpelling} {qs : List Parameter} :
    resolveParameters (ps.map ParameterSpelling.written) = .ok qs ↔
      List.Forall₂ (fun p q => q.name = p.name.1 ∧ p.type.Denotes q.type) ps qs := by
  induction ps generalizing qs with
  | nil =>
    rw [List.forall₂_nil_left_iff, List.map_nil, resolveParameters, Except.ok.injEq]
    exact eq_comm
  | cons p ps ih =>
    rw [List.forall₂_cons_left_iff, List.map_cons, ParameterSpelling.written, resolveParameters]
    cases hfirst : resolve p.type.written with
    | error fault =>
      constructor
      · intro h
        cases h
      · rintro ⟨q, -, ⟨-, htype⟩, -, -⟩
        rw [TypeSpelling.resolve_written.2 htype] at hfirst
        cases hfirst
    | ok type =>
      cases hothers : resolveParameters (ps.map ParameterSpelling.written) with
      | error fault =>
        constructor
        · intro h
          cases h
        · rintro ⟨q, others, -, htail, -⟩
          rw [ih.2 htail] at hothers
          cases hothers
      | ok others =>
        constructor
        · intro h
          cases h
          exact ⟨_, others, ⟨rfl, TypeSpelling.resolve_written.1 hfirst⟩, ih.1 hothers, rfl⟩
        · rintro ⟨⟨name, type'⟩, others', ⟨rfl, htype⟩, htail, rfl⟩
          have hsame := hfirst.symm.trans (TypeSpelling.resolve_written.2 htype)
          have htails := hothers.symm.trans (ih.2 htail)
          cases hsame
          cases htails
          rfl

/-- A text that is spelled as a signature denotes what the spelling stands for, if that is a
signature. -/
theorem ofText_eq_ok_iff {text : String} {w : Spelling} (hw : w.text = text.toList)
    {s : Signature} : ofText text = .ok s ↔ w.Denotes s := by
  rw [ofText, Reader.complete?_writtenSignature.2 ⟨w, hw, rfl⟩]
  dsimp only [Spelling.written]
  cases hparameters : resolveParameters (w.parameters.map ParameterSpelling.written) with
  | error fault =>
    constructor
    · intro h
      cases h
    · intro h
      rw [resolveParameters_written.2 h.parameters] at hparameters
      cases hparameters
  | ok parameters =>
    cases hresult : resolve w.result.written with
    | error fault =>
      constructor
      · intro h
        cases h
      · intro h
        rw [TypeSpelling.resolve_written.2 h.result] at hresult
        cases hresult
    | ok result =>
      constructor
      · intro h
        cases h
        exact ⟨rfl, resolveParameters_written.1 hparameters,
          TypeSpelling.resolve_written.1 hresult, rfl⟩
      · rintro ⟨hname, hps, htype, hpattern⟩
        have hsame := hparameters.symm.trans (resolveParameters_written.2 hps)
        have hsameResult := hresult.symm.trans (TypeSpelling.resolve_written.2 htype)
        obtain ⟨name, ps, type, pattern⟩ := s
        cases hname
        cases hpattern
        cases hsame
        cases hsameResult
        rfl

/-- Only texts that are spelled as signatures denote one. -/
theorem exists_spelling {text : String} {s : Signature} (h : ofText text = .ok s) :
    ∃ w : Spelling, w.text = text.toList ∧ w.Denotes s := by
  have hread : ∃ v, Reader.complete? Reader.writtenSignature text.toList = some v := by
    rw [ofText] at h
    split at h
    · cases h
    · next hread => exact ⟨_, hread⟩
  obtain ⟨v, hv⟩ := hread
  obtain ⟨w, hw, -⟩ := Reader.complete?_writtenSignature.1 hv
  exact ⟨w, hw, (ofText_eq_ok_iff hw).1 h⟩

/-- A signature of plain names and of types that can be declared, without a pattern. -/
structure IsCanonical (s : Signature) : Prop where
  name : Text.isPlainName s.name = true
  parameterNames : ∀ p ∈ s.parameters, Text.isPlainName p.name = true
  parameterTypes : ∀ p ∈ s.parameters, p.type.IsDeclarable
  result : s.result.IsDeclarable
  pattern : s.pattern = none

theorem Spelling.Denotes.isCanonical {w : Spelling} {s : Signature} (h : w.Denotes s) :
    s.IsCanonical := by
  have hparameters : ∀ {ps : List ParameterSpelling} {qs : List Parameter},
      List.Forall₂ (fun p q => q.name = p.name.1 ∧ p.type.Denotes q.type) ps qs →
        ∀ q ∈ qs, Text.isPlainName q.name = true ∧ q.type.IsDeclarable := by
    intro ps qs hall
    induction hall with
    | nil => nofun
    | @cons p q ps qs hhead htail ih =>
      refine List.forall_mem_cons.2 ⟨⟨?_, hhead.2.declarable⟩, ih⟩
      rw [hhead.1]
      exact p.name.2
  refine ⟨?_, fun q hq => (hparameters h.parameters q hq).1,
    fun q hq => (hparameters h.parameters q hq).2, h.result.declarable, h.pattern⟩
  rw [h.name]
  exact w.name.2

/-- The digits of a number, as it is written. -/
def digitsOf (n : ℕ) : Digits :=
  ⟨Nat.toDigits 10 n, Nat.toDigits_ne_nil, fun _ hc => Double.toDigits_isDigit hc⟩

/-- A type without blanks. -/
def typeSpelling (t : DataType) : TypeSpelling where
  name := ⟨t.kind.name, t.kind.isPlainName_name⟩
  length := t.length.map fun n => ⟨.none, .none, digitsOf n, .none⟩

theorem text_typeSpelling (t : DataType) : (typeSpelling t).text = t.text.toList := by
  obtain ⟨kind, length, nativeName⟩ := t
  cases length with
  | none => simp [typeSpelling, TypeSpelling.text, DataType.text]
  | some n =>
    simp [typeSpelling, TypeSpelling.text, DataType.text, LengthSpelling.text, Blanks.none, digitsOf,
      toString, Nat.repr]

theorem typeSpelling_denotes {t : DataType} (ht : t.IsDeclarable) : (typeSpelling t).Denotes t := by
  refine ⟨t.kind.ofName?_name, ht, ?_⟩
  obtain ⟨kind, length, nativeName⟩ := t
  cases length with
  | none => rfl
  | some n =>
    have hlt : n < Text.bound32 := ht.length_lt n rfl
    simp [typeSpelling, TypeSpelling.digits?, digitsOf, Text.numberOf_toDigits, Option.filter_some,
      hlt]

/-- A parameter with one blank before its type and one behind its comma. -/
def parameterSpelling (p : Parameter) (h : Text.isPlainName p.name = true) :
    ParameterSpelling where
  beforeComma := .none
  behindComma := .one
  name := ⟨p.name, h⟩
  gap := .one
  gap_ne_nil := List.cons_ne_nil ' ' []
  type := typeSpelling p.type

theorem text_parameterSpelling (p : Parameter) (h : Text.isPlainName p.name = true) :
    (parameterSpelling p h).text = (p.name ++ " " ++ p.type.text).toList := by
  simp [parameterSpelling, ParameterSpelling.text, Blanks.one, text_typeSpelling]

theorem flatMap_parameterSpelling (ps : List Parameter)
    (h : ∀ p ∈ ps, Text.isPlainName p.name = true) :
    (ps.pmap parameterSpelling h).flatMap ParameterSpelling.textBehindComma =
      (ps.map fun p => p.name ++ " " ++ p.type.text).flatMap fun t => ", ".toList ++ t.toList := by
  induction ps with
  | nil => rfl
  | cons p ps ih =>
    rw [List.pmap_cons, List.flatMap_cons, ih, ParameterSpelling.textBehindComma,
      text_parameterSpelling]
    simp [parameterSpelling, Blanks.none, Blanks.one]

theorem listText_parameterSpelling (ps : List Parameter)
    (h : ∀ p ∈ ps, Text.isPlainName p.name = true) :
    ParameterSpelling.listText (ps.pmap parameterSpelling h) =
      (Text.joinWith ", " (ps.map fun p => p.name ++ " " ++ p.type.text)).toList := by
  cases ps with
  | nil => rfl
  | cons p ps =>
    rw [List.pmap_cons, ParameterSpelling.listText, flatMap_parameterSpelling,
      text_parameterSpelling, List.map_cons, Text.toList_joinWith_cons]

theorem parameterSpelling_denotes {ps : List Parameter}
    (hnames : ∀ p ∈ ps, Text.isPlainName p.name = true) (htypes : ∀ p ∈ ps, p.type.IsDeclarable) :
    List.Forall₂ (fun p q => q.name = p.name.1 ∧ p.type.Denotes q.type)
      (ps.pmap parameterSpelling hnames) ps := by
  induction ps with
  | nil => exact .nil
  | cons p ps ih =>
    rw [List.forall_mem_cons] at htypes
    exact .cons ⟨rfl, typeSpelling_denotes htypes.1⟩ (ih _ htypes.2)

/-- The canonical text of a canonical signature denotes the signature. -/
theorem IsCanonical.ofText_text {s : Signature} (h : s.IsCanonical) : ofText s.text = .ok s := by
  let w : Spelling := ⟨.none, ⟨s.name, h.name⟩, .none, .none,
    s.parameters.pmap parameterSpelling h.parameterNames, .none, .one, .one, typeSpelling s.result,
    .none⟩
  have hw : w.text = s.text.toList := by
    simp [w, Spelling.text, Blanks.none, Blanks.one, listText_parameterSpelling, text_typeSpelling,
      Signature.text]
  exact (ofText_eq_ok_iff hw).2 ⟨rfl, parameterSpelling_denotes h.parameterNames h.parameterTypes,
    typeSpelling_denotes h.result, h.pattern⟩

/-- A canonical signature is read from its own text, and whatever is read from a text is canonical,
so it is read from its own text again. -/
theorem ofText_roundTrip :
    (∀ s : Signature, s.IsCanonical → ofText s.text = .ok s) ∧
      ∀ text s, ofText text = .ok s → s.IsCanonical ∧ ofText s.text = .ok s := by
  refine ⟨fun s h => h.ofText_text, fun text s h => ?_⟩
  obtain ⟨w, -, hw⟩ := exists_spelling h
  exact ⟨hw.isCanonical, hw.isCanonical.ofText_text⟩

/-- A function with a parameter of a given length. -/
def splitSignature : Signature :=
  ⟨"split", [⟨"str", .ofKind .varChar⟩, ⟨"sep", .sized .varChar 4294967295⟩], .ofKind .varChar, none⟩

theorem ofText_roundTrip_blanks :
    let text := " split(str\tVARCHAR , sep varchar ( 04294967295 ))->VarChar\n"
    ofText text = .ok splitSignature ∧ splitSignature.IsCanonical ∧
      splitSignature.text = "split(str VARCHAR, sep VARCHAR(4294967295)) -> VARCHAR" ∧
      ofText splitSignature.text = .ok splitSignature := by
  have hread : ofText " split(str\tVARCHAR , sep varchar ( 04294967295 ))->VarChar\n" =
      .ok splitSignature := by decide +kernel
  have hcanonical := (ofText_roundTrip.2 _ _ hread).1
  exact ⟨hread, hcanonical, by decide +kernel, ofText_roundTrip.1 splitSignature hcanonical⟩

/-- The types of a signature, the result the last of them. -/
def types (s : Signature) : List DataType := s.parameters.map Parameter.type ++ [s.result]

/-- What becomes of digits that are written as the length of a type: the type has that length, and
takes lengths, if the number has 32 bits. Otherwise it has none. -/
def KeepsLength (digits : List Char) (type : DataType) : Prop :=
  ∃ n, Text.numberOf 10 digits = some n ∧
    (n < Text.bound32 → type.kind.hasLength = true ∧ type.length = some n) ∧
    (Text.bound32 ≤ n → type.length = none)

theorem TypeSpelling.Denotes.keepsLength {t : TypeSpelling} {type : DataType} (h : t.Denotes type)
    {digits : List Char} (hdigits : t.digits? = some digits) : KeepsLength digits type := by
  obtain ⟨l, -, rfl⟩ := Option.map_eq_some_iff.1 hdigits
  have hnumber := Text.numberOf_decimal l.digits.2.1 l.digits.2.2
  refine ⟨_, hnumber, fun hlt => ?_, fun hle => ?_⟩
  · have hlength : type.length = some (Double.natOfDigits l.digits.1) := by
      rw [h.length, hdigits, Option.bind_some, hnumber, Option.filter_some, if_pos (by simpa using hlt)]
    exact ⟨h.declarable.hasLength _ hlength, hlength⟩
  · rw [h.length, hdigits, Option.bind_some, hnumber, Option.filter_some,
      if_neg (by simpa using hle)]

/-- A text that denotes a signature is spelled as one, and however it is, the lengths that are
written in it are those of the types, but for numbers that need more than 32 bits: these leave the
type without a length, whatever its kind. -/
theorem ofText_lengths {text : String} {s : Signature} (h : ofText text = .ok s) :
    (∃ w : Spelling, w.text = text.toList) ∧
      ∀ w : Spelling, w.text = text.toList →
        List.Forall₂ (fun (t : TypeSpelling) type =>
          ∀ digits, t.digits? = some digits → KeepsLength digits type) w.types s.types := by
  refine ⟨(exists_spelling h).imp fun w hw => hw.1, fun w hw => ?_⟩
  have hdenotes := (ofText_eq_ok_iff hw).1 h
  refine List.rel_append ?_ (.cons (fun digits => hdenotes.result.keepsLength) .nil)
  rw [List.forall₂_map_left_iff, List.forall₂_map_right_iff]
  exact hdenotes.parameters.imp fun p q hpq digits => hpq.2.keepsLength

theorem ofText_lengths_mixed :
    let text := "f(a CHAR( 012 ), b BINARY (4294967295)) -> VARCHAR(99999999999999999999)"
    ∃ s, ofText text = .ok s ∧ (∃ w : Spelling, w.text = text.toList) ∧
      ∀ w : Spelling, w.text = text.toList →
        List.Forall₂ (fun (t : TypeSpelling) type =>
          ∀ digits, t.digits? = some digits → KeepsLength digits type) w.types s.types := by
  have hread : ofText "f(a CHAR( 012 ), b BINARY (4294967295)) -> VARCHAR(99999999999999999999)" =
      .ok ⟨"f", [⟨"a", .sized .char 12⟩, ⟨"b", .sized .binary 4294967295⟩], .ofKind .varChar, none⟩ := by
    decide +kernel
  exact ⟨_, hread, ofText_lengths hread⟩

/-- A length that needs more than 32 bits is lost, and a type that takes no lengths is accepted
with it. -/
theorem ofText_loses_long_lengths :
    ofText "f(a INTEGER(4294967296)) -> CHAR(4294967296)" =
        .ok ⟨"f", [⟨"a", .ofKind .integer⟩], .ofKind .char, none⟩ ∧
      DataKind.integer.hasLength = false ∧
      ofText "f(a INTEGER(4294967295)) -> CHAR(4294967296)" =
        .error (.signature "f(a INTEGER(4294967295)) -> CHAR(4294967296)"
          (.lengthNotTaken .integer)) := by
  exact ⟨by decide +kernel, rfl, by decide +kernel⟩

end Signature

end SkyQuery
