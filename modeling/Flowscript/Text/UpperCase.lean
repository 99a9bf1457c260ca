/-
  Flowscript.Text.UpperCase

  Upper case, as far as it decides whether a text is a given ASCII word: the small
  letters of ASCII, and the few characters outside ASCII whose capitals are ASCII.
  Every other character is left as it is, since its capital is not ASCII.
-/

namespace Flowscript.Text

/-- The capitals of one character, if they are ASCII. -/
def asciiUpperChar (c : Char) : List Char :=
  match c.toNat with
  | 0xDF => ['S', 'S']
  | 0x131 => ['I']
  | 0x17F => ['S']
  | 0xFB00 => ['F', 'F']
  | 0xFB01 => ['F', 'I']
  | 0xFB02 => ['F', 'L']
  | 0xFB03 => ['F', 'F', 'I']
  | 0xFB04 => ['F', 'F', 'L']
  | 0xFB05 => ['S', 'T']
  | 0xFB06 => ['S', 'T']
  | _ => [c.toUpper]

/-- Upper case, for comparison with ASCII words. -/
def asciiUpper (s : List Char) : List Char := s.flatMap asciiUpperChar

@[simp] theorem asciiUpper_nil : asciiUpper [] = [] := rfl

end Flowscript.Text
