/-!
Names and strings in the generated code.

A name is made a valid identifier character by character.  A string stands between double quotes
with everything escaped that would end it, start an interpolation or not show.
-/

namespace LarkPhp.Php

/-! ### Names -/

/-- What becomes of a character of a name. -/
def mungeChar : Char → List Char
  | '-' => ['_']
  | '?' => ['_', '_', 'Q']
  | '!' => ['_', '_', 'E']
  | '*' => ['_', '_', 'S']
  | '>' => ['_', '_', 'G', 'T']
  | '<' => ['_', '_', 'L', 'T']
  | '=' => ['_', '_', 'E', 'Q']
  | '/' => ['_', '_', 'S', 'L']
  | '+' => ['_', '_', 'P']
  | '%' => ['_', '_', 'P', 'C']
  | '&' => ['_', '_', 'A']
  | '.' => ['_', '_', 'D']
  | '\'' => ['_', '_', 'Q', 'T']
  | c => [c]

/-- The identifier for a name. -/
def munge (name : String) : String := String.ofList (name.toList.flatMap mungeChar)

/-- The variable for a name. -/
def variableName (name : String) : String := "$" ++ munge name

/-! ### Strings -/

/-- A digit of a number below 16. -/
def hexDigit (n : Nat) : Char := if n < 10 then Char.ofNat (48 + n) else Char.ofNat (55 + n)

/-- How a character stands between double quotes. -/
def escape (c : Char) : List Char :=
  match c with
  | '\\' => ['\\', '\\']
  | '"' => ['\\', '"']
  | '$' => ['\\', '$']
  | '\n' => ['\\', 'n']
  | '\r' => ['\\', 'r']
  | '\t' => ['\\', 't']
  | '\x0b' => ['\\', 'v']
  | '\x0c' => ['\\', 'f']
  | '\x1b' => ['\\', 'e']
  | c =>
    if c.toNat < 32 ∨ c.toNat = 127 then
      ['\\', 'x', hexDigit (c.toNat / 16), hexDigit (c.toNat % 16)]
    else [c]

/-- A string literal. -/
def quote (s : String) : String := String.ofList ('"' :: s.toList.flatMap escape ++ ['"'])

end LarkPhp.Php
