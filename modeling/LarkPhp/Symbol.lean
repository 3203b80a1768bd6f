/-!
Symbols: names, qualified by a namespace or not.

A symbol that was written has generation 0.  The n-th symbol drawn from a supply of fresh names
has generation n, and the generation is part of the symbol, so a drawn symbol differs from every
written one, however that is spelled.
-/

namespace LarkPhp

/-- A name with its namespace, if it has one, and the generation it was drawn in. -/
structure Symbol where
  qualifier : Option String
  name : String
  generation : Nat
deriving DecidableEq, Inhabited

namespace Symbol

/-- The unqualified symbol `name`. -/
def plain (name : String) : Symbol := ⟨none, name, 0⟩

/-- The symbol `name` of the namespace `home`. -/
def qualified (home name : String) : Symbol := ⟨some home, name, 0⟩

/-- The symbol a text spells.  The first `/` ends the namespace if there is something on both
sides of it; otherwise it is a character of the name. -/
def ofWritten (text : String) : Symbol :=
  let home := text.toList.takeWhile (· != '/')
  let name := (text.toList.dropWhile (· != '/')).tail
  if home.isEmpty || name.isEmpty then plain text
  else qualified (String.ofList home) (String.ofList name)

/-- The n-th fresh symbol. -/
def fresh (n : Nat) : Symbol := ⟨none, "__lark_" ++ toString n, n⟩

/-- The written form, `home/name` or `name`. -/
def text (s : Symbol) : String :=
  match s.qualifier with
  | some home => home ++ "/" ++ s.name
  | none => s.name

/-- Whether the symbol was drawn from a supply. -/
def generated (s : Symbol) : Bool := s.generation != 0

/-- Whether the symbol is the written, unqualified `name`. -/
def isPlain (s : Symbol) (name : String) : Bool := s == plain name

/-- The written form, with the generation of a drawn symbol shown after a `#`. -/
def inspect (s : Symbol) : String :=
  if s.generated then "Symbol(" ++ s.text ++ "#" ++ toString s.generation ++ ")"
  else "Symbol(" ++ s.text ++ ")"

/-- Whether the symbol is qualified by the namespace of the host language. -/
def ofHost (s : Symbol) : Bool := s.qualifier == some "php"

/-- Whether the symbol is the name of a class of the host language, which starts at the root of all
classes. -/
def isClassName (s : Symbol) : Bool := s.qualifier.isNone && s.name.toList.head? == some '\\'

/-! ### Drawn symbols -/

@[simp] theorem generated_plain (name : String) : (plain name).generated = false := rfl

@[simp] theorem generated_qualified (home name : String) :
    (qualified home name).generated = false := rfl

@[simp] theorem generated_fresh_succ (n : Nat) : (fresh (n + 1)).generated = true := rfl

theorem fresh_injective {m n : Nat} (h : fresh m = fresh n) : m = n :=
  congrArg generation h

end Symbol

end LarkPhp
