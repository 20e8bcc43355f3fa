import Conic.Text.Unprintable
import Conic.Text.GraphemeExtend

/-!
# Quoted text

Text between double quotes, with everything escaped that would not show as itself: the quote and the
backslash, the control characters that have a letter, and by code point the rest of what is
unprintable or would join the character before it.
-/

namespace Conic.Text

/-- The escape of a character that has a short one. -/
def shortEscape? : Char → Option Char
  | '"' => some '"'
  | '\\' => some '\\'
  | '\n' => some 'n'
  | '\r' => some 'r'
  | '\t' => some 't'
  | '\x00' => some '0'
  | _ => none

/-- The halfwidth sound marks. They belong to the character before them, yet take up a place of
their own. -/
def isSoundMark (c : Char) : Bool := c == '\uff9e' || c == '\uff9f'

/-- One character as it is written between quotes. -/
def quotedChar (c : Char) : List Char :=
  match shortEscape? c with
  | some e => ['\\', e]
  | none =>
    if isUnprintable c || (isGraphemeExtend c && !isSoundMark c) then
      ['\\', 'u', '\x7b'] ++ Nat.toDigits 16 c.toNat ++ ['\x7d']
    else [c]

/-- A string as it is written between quotes. -/
def quoted (s : String) : String :=
  String.ofList ('"' :: s.toList.flatMap quotedChar ++ ['"'])

end Conic.Text
