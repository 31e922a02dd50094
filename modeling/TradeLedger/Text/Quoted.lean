/-
Text in double quotes, as it is shown in a message: quotes, backslashes and the common controls are
escaped by a letter, and other characters that do not show by their code in braces.
-/
import TradeLedger.Text.Printable

namespace TradeLedger.Text

/-- The escape of a code point: its hexadecimal digits in braces. -/
def codeEscape (c : Char) : List Char :=
  '\\' :: 'u' :: '\x7b' :: Nat.toDigits 16 c.toNat ++ ['\x7d']

/-- How a character is shown between quotes. -/
def shown (c : Char) : List Char :=
  match c with
  | '\x00' => ['\\', '0']
  | '\t' => ['\\', 't']
  | '\r' => ['\\', 'r']
  | '\n' => ['\\', 'n']
  | '\\' => ['\\', '\\']
  | '"' => ['\\', '"']
  | c => if isPrintable c then [c] else codeEscape c

def quoted (s : String) : String := String.ofList ('"' :: s.toList.flatMap shown ++ ['"'])

end TradeLedger.Text
