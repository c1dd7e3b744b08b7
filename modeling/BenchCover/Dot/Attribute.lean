import BenchCover.Text.Blank

/-!
# Attributes

Looking up an attribute in the attribute list of a DOT statement.  The list is not parsed as a
whole: a value is found behind the name and the sign `=`, where the name must be a whole word, so
that `label` is not found inside `xlabel`.

* A quoted value ends before the next quote that no backslash escapes.  Its text is raw, with the
  backslashes in it.
* A bare value ends before the next blank, comma or closing bracket.
-/

namespace BenchCover.Dot

/-- Whether an attribute name can start behind a character, or at the start of the list. -/
def startsWord : (previous : Option Char) → Bool
  | none => true
  | some c => Text.isBlank c || c = ',' || c = '['

/-- The text behind the first occurrence of a key that starts a word. -/
def afterKey (key : List Char) : (previous : Option Char) → List Char → Option (List Char)
  | _, [] => none
  | previous, c :: rest =>
    if startsWord previous && key.isPrefixOf (c :: rest) then
      some ((c :: rest).drop key.length)
    else
      afterKey key (some c) rest

/-- The text up to the next quote that is not escaped, or all of it if there is none. -/
def takeQuoted : List Char → List Char
  | [] => []
  | '"' :: _ => []
  | '\\' :: c :: rest => '\\' :: c :: takeQuoted rest
  | c :: rest => c :: takeQuoted rest

def takeValue : List Char → List Char
  | '"' :: quoted => takeQuoted quoted
  | bare => bare.takeWhile fun c => !(Text.isBlank c || c = ',' || c = ']')

/-- **The raw value of an attribute** in an attribute list. -/
def attribute? (name : String) (list : List Char) : Option (List Char) :=
  (afterKey (name.toList ++ ['=']) none list).map takeValue

end BenchCover.Dot
