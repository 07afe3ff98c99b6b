import HdlExpr.Text.Printable

/-!
# Quoted text

Text between double quotes on one line of printable characters.  The seven common controls, the
backslash and the quote have short escapes; any other character that does not print is written
by its code point in hexadecimal.  JSON has escapes of its own.  The line and paragraph separators
are escaped there too, and, where the text may end up in a web page, the characters that mean
something there.
-/

namespace HdlExpr.Text

/-- The lower case hexadecimal digits of `n`, filled with zeros to `width` digits. -/
def hexDigits (width n : Nat) : List Char :=
  let digits := Nat.toDigits 16 n
  List.replicate (width - digits.length) '0' ++ digits

def escape (c : Char) : List Char :=
  if c = '"' then ['\\', '"']
  else if c = '\\' then ['\\', '\\']
  else if isPrintable c then [c]
  else match c.toNat with
    | 7 => ['\\', 'a']
    | 8 => ['\\', 'b']
    | 9 => ['\\', 't']
    | 10 => ['\\', 'n']
    | 11 => ['\\', 'v']
    | 12 => ['\\', 'f']
    | 13 => ['\\', 'r']
    | n =>
      if n < 0x80 then '\\' :: 'x' :: hexDigits 2 n
      else if n < 0x10000 then '\\' :: 'u' :: hexDigits 4 n
      else '\\' :: 'U' :: hexDigits 8 n

def quote (s : String) : String :=
  String.ofList ('"' :: s.toList.flatMap escape ++ ['"'])

/-! ## Strings in JSON -/

def jsonEscape (forWeb : Bool) (c : Char) : List Char :=
  match c with
  | '"' => ['\\', '"']
  | '\\' => ['\\', '\\']
  | '\n' => ['\\', 'n']
  | '\r' => ['\\', 'r']
  | '\t' => ['\\', 't']
  | '\x08' => ['\\', 'b']
  | '\x0c' => ['\\', 'f']
  | c =>
    let n := c.toNat
    let web := forWeb && (c == '<' || c == '>' || c == '&')
    if n < 0x20 || n == 0x2028 || n == 0x2029 || web then '\\' :: 'u' :: hexDigits 4 n else [c]

def jsonString (forWeb : Bool) (s : String) : String :=
  String.ofList ('"' :: s.toList.flatMap (jsonEscape forWeb) ++ ['"'])

end HdlExpr.Text
