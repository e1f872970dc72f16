import SimpleLR.Text.Combining
import SimpleLR.Text.Printable

/-!
# Quoted names

Names are arbitrary text, so a message shows them between quotation marks, with everything escaped
that would end the quotation early or could not be seen on a page.
-/
namespace SimpleLR.Text

/-- How a character is written between quotation marks, when the characters that are not shown as
themselves are given. -/
def escapeBy (hidden : Char → Bool) (c : Char) : List Char :=
  match c with
  | '"' => ['\\', '"']
  | '\\' => ['\\', '\\']
  | '\t' => ['\\', 't']
  | '\r' => ['\\', 'r']
  | '\n' => ['\\', 'n']
  | '\x00' => ['\\', '0']
  | c =>
    if hidden c then ['\\', 'u', '\x7b'] ++ Nat.toDigits 16 c.toNat ++ ['\x7d']
    else [c]

/-- A text between quotation marks, when the characters that are not shown as themselves are given. -/
def quoteBy (hidden : Char → Bool) (s : String) : String :=
  String.ofList ('"' :: s.toList.flatMap (escapeBy hidden) ++ ['"'])

/-- Whether a character would not be seen on a page, or not in its place. -/
def isHidden (c : Char) : Bool := !isPrintable c || isCombining c

/-- A text between quotation marks. -/
def quote (s : String) : String := quoteBy isHidden s

end SimpleLR.Text
