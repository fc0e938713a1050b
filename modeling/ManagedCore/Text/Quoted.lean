import ManagedCore.Text.Invisible

/-!
# Quoted text

Names and text keys are shown between double quotes. A quote and a backslash get a backslash, tab,
newline, carriage return and the null character have letters of their own, every other character
without a glyph is spelled by its code point, and all else stands for itself.
-/

namespace ManagedCore.Text

/-- A code point in hexadecimal, between braces. -/
def codePointEscape (c : Char) : List Char :=
  '\\' :: 'u' :: '\x7b' :: Nat.toDigits 16 c.toNat ++ ['\x7d']

/-- How one character stands inside quotes. -/
def quotedChar (c : Char) : List Char :=
  if c = '"' then ['\\', '"']
  else if c = '\\' then ['\\', '\\']
  else if c = '\n' then ['\\', 'n']
  else if c = '\t' then ['\\', 't']
  else if c = '\r' then ['\\', 'r']
  else if c.toNat = 0 then ['\\', '0']
  else if c.toNat < 32 || c.toNat = 127 then codePointEscape c
  else if c.toNat < 128 then [c]
  else if isInvisible c then codePointEscape c
  else [c]

/-- Text between double quotes. -/
def quoted (text : String) : String :=
  String.ofList ('"' :: text.toList.flatMap quotedChar ++ ['"'])

example : quotedChar 'é' = ['é'] ∧ quotedChar '\x7f' = "\\u\x7b7f\x7d".toList := by decide +kernel

/-- A list between brackets, from the texts of its items. -/
def bracketed (items : List String) : String :=
  "[" ++ ", ".intercalate items ++ "]"

/-- A record: its name, then the named texts of its fields between braces. -/
def labelled (name : String) (fields : List (String × String)) : String :=
  name ++ " \x7b " ++ ", ".intercalate (fields.map fun (label, text) => label ++ ": " ++ text)
    ++ " \x7d"

/-- An optional index: the word `None`, or the index inside the name of its kind. -/
def optional (text : Option String) : String :=
  match text with
  | none => "None"
  | some text => "Some(" ++ text ++ ")"

end ManagedCore.Text
