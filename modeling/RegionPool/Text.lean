import RegionPool.Text.Invisible

/-!
# Texts that show values

Configurations, pools and buffers are shown as records, `Name { field: value, … }`. A label is
shown in quotes with the characters escaped that a reader could not see or would mistake:

* `quoted` puts a string in quotes;
* `optional` shows a value that may be missing;
* `record` shows a named list of fields.
-/

namespace RegionPool.Text

/-! ### Characters -/

/-- The number of a character in lower-case hexadecimal digits, without leading zeros. -/
def codePoint (c : Char) : List Char := Nat.toDigits 16 c.toNat

/-- One character of a quoted text. -/
def escape (c : Char) : List Char :=
  if c = '"' then ['\\', '"']
  else if c = '\\' then ['\\', '\\']
  else if c = '\t' then ['\\', 't']
  else if c = '\n' then ['\\', 'n']
  else if c = '\r' then ['\\', 'r']
  else if c.toNat = 0 then ['\\', '0']
  -- Apostrophes need no escape: the text stands between quotes.
  else if isInvisible c then ['\\', 'u', '\x7b'] ++ codePoint c ++ ['\x7d']
  else [c]

/-! ### Values -/

/-- A string in quotes. -/
def quoted (s : String) : String := String.ofList ('"' :: s.toList.flatMap escape ++ ['"'])

/-- A value that may be missing. -/
def optional (show? : Option String) : String :=
  match show? with
  | none => "None"
  | some text => "Some(" ++ text ++ ")"

/-- A record: its name and its fields in order, each with the text of its value. -/
def record (name : String) (fields : List (String × String)) : String :=
  name ++ " \x7b " ++ ", ".intercalate (fields.map fun (field, value) => field ++ ": " ++ value)
    ++ " \x7d"

end RegionPool.Text
