/-!
Settings of the generated code.
-/

namespace LarkPhp.Php

/-- Settings of the generated code. -/
structure Config where
  /-- The namespace of the classes that values are built from at run time. -/
  runtime : String
  /-- The key under which the definitions are kept. -/
  globalsKey : String
  /-- One level of indentation. -/
  indent : String
  /-- Whether each top-level form is preceded by its place in the source. -/
  locationComments : Bool
  /-- Whether the code starts with an opening tag. -/
  openTag : Bool
deriving DecidableEq

namespace Config

/-- The usual settings. -/
def standard : Config := ⟨"\\Lark\\Lang", "__lark", "    ", false, false⟩

instance : Inhabited Config := ⟨standard⟩

/-- A class of the runtime. -/
def runtimeClass (c : Config) (name : String) : String := c.runtime ++ "\\" ++ name

end Config

end LarkPhp.Php
