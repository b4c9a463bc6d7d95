import AddonWatch.Text.Unprintable

namespace AddonWatch

/-- A code point in lowercase hexadecimal, without padding. -/
def hexCode (c : Char) : String :=
  String.ofList ("\\u\x7b".toList ++ Nat.toDigits 16 c.toNat ++ "\x7d".toList)

/-- Inside quotes the quote, the backslash and four controls have short escapes, and every other
unprintable character is written by its code point. -/
def quoteChar (c : Char) : String :=
  if c = '"' then "\\\""
  else if c = '\\' then "\\\\"
  else if c = '\n' then "\\n"
  else if c = '\r' then "\\r"
  else if c = '\t' then "\\t"
  else if c = '\x00' then "\\0"
  else if isUnprintable c then hexCode c
  else c.toString

/-- A string between double quotes, so that its ends and its invisible characters can be seen. -/
def quote (s : String) : String :=
  "\"" ++ String.join (s.toList.map quoteChar) ++ "\""

/-- A set of names in braces, each quoted. -/
def quoteSet (names : List String) : String :=
  "\x7b" ++ ", ".intercalate (names.map quote) ++ "\x7d"

end AddonWatch
