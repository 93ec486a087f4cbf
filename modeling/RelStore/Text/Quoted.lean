/-
Quoted text.

A string is shown between double quotes so that it can be read back from one line: a quote and a
backslash get a backslash before them, the four usual controls get their letter, and every other
character that is not visible is named by its code point in hexadecimal.

* `Quoted.char` — how one character is shown;
* `Quoted.text` — how a string is shown.
-/
import RelStore.Text.Visible

namespace RelStore.Quoted

/-- How one character is shown inside a quoted text. -/
def char (c : Char) : List Char :=
  match c with
  | '"' => ['\\', '"']
  | '\\' => ['\\', '\\']
  | '\t' => ['\\', 't']
  | '\n' => ['\\', 'n']
  | '\r' => ['\\', 'r']
  | '\x00' => ['\\', '0']
  | c =>
    if Visible.isVisible c then [c]
    else ['\\', 'u', '\x7b'] ++ Nat.toDigits 16 c.toNat ++ ['\x7d']

/-- A string between double quotes, on one line. -/
def text (s : String) : String :=
  String.ofList ('"' :: s.toList.flatMap char ++ ['"'])

end RelStore.Quoted
