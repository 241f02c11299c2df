/-!
# Text: joining, quoting and ASCII letter case

Quoting doubles the delimiter inside the quoted text, so that the delimiter alone ends it.
-/

namespace SkyQuery.Text

/-- The texts in order, with `separator` between neighbours. -/
def joinWith (separator : String) : List String → String
  | [] => ""
  | [t] => t
  | t :: u :: rest => t ++ separator ++ joinWith separator (u :: rest)

@[simp] theorem joinWith_nil (separator : String) : joinWith separator [] = "" := rfl

@[simp] theorem joinWith_singleton (separator t : String) : joinWith separator [t] = t := rfl

theorem joinWith_cons_cons (separator t u : String) (rest : List String) :
    joinWith separator (t :: u :: rest) = t ++ separator ++ joinWith separator (u :: rest) := rfl

/-- Behind the first text each one follows its separator. -/
theorem toList_joinWith_cons (separator t : String) (ts : List String) :
    (joinWith separator (t :: ts)).toList =
      t.toList ++ ts.flatMap fun u => separator.toList ++ u.toList := by
  induction ts generalizing t with
  | nil => simp
  | cons u ts ih => simp [joinWith_cons_cons, ih]

/-- Every `delimiter` written twice. -/
def doubling (delimiter : Char) : List Char → List Char
  | [] => []
  | c :: rest =>
    if c = delimiter then delimiter :: delimiter :: doubling delimiter rest
    else c :: doubling delimiter rest

/-- The text between two delimiters, with the delimiters inside it doubled. -/
def quote (delimiter : Char) (text : String) : String :=
  String.ofList (delimiter :: (doubling delimiter text.toList ++ [delimiter]))

/-- Whether two texts agree up to the case of ASCII letters. -/
def sameIgnoringCase (a b : String) : Bool :=
  a.toList.map Char.toLower == b.toList.map Char.toLower

theorem sameIgnoringCase_iff (a b : String) :
    sameIgnoringCase a b = true ↔ a.toList.map Char.toLower = b.toList.map Char.toLower := by
  simp [sameIgnoringCase]

@[simp] theorem sameIgnoringCase_refl (a : String) : sameIgnoringCase a a = true := by
  simp [sameIgnoringCase]

/-- The text with its ASCII letters in lower case. -/
def lowerAscii (text : String) : String :=
  String.ofList (text.toList.map Char.toLower)

/-- The text with its ASCII letters in upper case. -/
def upperAscii (text : String) : String :=
  String.ofList (text.toList.map Char.toUpper)

/-- Whether `part` occurs as a block of neighbours in `whole`. -/
def occursIn (part : List Char) : List Char → Bool
  | [] => part.isEmpty
  | c :: rest => part.isPrefixOf (c :: rest) || occursIn part rest

/-- Whether the text `part` occurs in `whole`. -/
def contains (whole part : String) : Bool :=
  occursIn part.toList whole.toList

/-- Whether `whole` begins with `part`. -/
def startsWith (whole part : String) : Bool :=
  part.toList.isPrefixOf whole.toList

/-- The number of bytes of a text in UTF-8. -/
def byteCount : List Char → Nat
  | [] => 0
  | c :: rest => c.utf8Size + byteCount rest

end SkyQuery.Text
