import LarkPhp.Form.Equality

/-!
Hashing of forms, for any hashers.

A form hands itself to a hasher in pieces, its constructor first.  Tuples and arrays hand over their
elements in order.  Sets and tables hand over their size and the sum, modulo 2^64, of what their
elements or entries hash to on their own, so that the order does not matter.  The hasher for the
elements of sets and tables is another one than the hasher that takes in the whole.
-/

namespace LarkPhp

/-- What a hasher takes in at a time. -/
inductive Piece where
  /-- Which constructor follows. -/
  | tag (n : Nat)
  | byte (value : UInt8)
  | integer (value : Int64)
  | word (value : UInt64)
  /-- How many elements follow or are summed up. -/
  | size (n : Nat)
  | text (value : String)
deriving DecidableEq

/-- Something that takes in pieces one after the other and ends with a hash value. -/
structure Hasher (σ : Type) where
  start : σ
  take : σ → Piece → σ
  finish : σ → UInt64

/-- The hash of pieces. -/
def Hasher.digest {σ : Type} (h : Hasher σ) (pieces : List Piece) : UInt64 :=
  h.finish (pieces.foldl h.take h.start)

namespace Form

/-- The pieces of a symbol: namespace, name and generation. -/
def symbolPieces (s : Symbol) : List Piece :=
  (match s.qualifier with
    | none => [.tag 0]
    | some home => [.tag 1, .text home]) ++ [.text s.name, .word (UInt64.ofNat s.generation)]

mutual
/-- The pieces of a form, where elements of sets and entries of tables are hashed by `element`. -/
def pieces (element : List Piece → UInt64) : Form → List Piece
  | .nil => [.tag 0]
  | .bool b => [.tag 1, .byte (if b then 1 else 0)]
  | .int n => [.tag 2, .integer n]
  | .float bits => [.tag 3, .word bits]
  | .str s => [.tag 4, .text s]
  | .keyword s => [.tag 5, .text s]
  | .symbol s _ => .tag 6 :: symbolPieces s
  | .tuple _ xs _ => .tag 7 :: .size xs.length :: piecesAll element xs
  | .table es _ => [.tag 8, .size es.length, .word (sumEntries element es)]
  | .set xs _ => [.tag 9, .size xs.length, .word (sumAll element xs)]
  | .array xs _ => .tag 10 :: .size xs.length :: piecesAll element xs

/-- The pieces of forms in order. -/
def piecesAll (element : List Piece → UInt64) : List Form → List Piece
  | [] => []
  | x :: xs => pieces element x ++ piecesAll element xs

/-- The sum of the forms' own hashes. -/
def sumAll (element : List Piece → UInt64) : List Form → UInt64
  | [] => 0
  | x :: xs => element (pieces element x) + sumAll element xs

/-- The sum of the entries' own hashes; the key of an entry is taken in first. -/
def sumEntries (element : List Piece → UInt64) : List (Form × Form) → UInt64
  | [] => 0
  | (k, v) :: es => element (pieces element k ++ pieces element v) + sumEntries element es
end

/-- The state of a hasher after it took in a form, with another hasher for elements and entries. -/
def feed {σ τ : Type} (element : Hasher τ) (h : Hasher σ) (f : Form) (state : σ) : σ :=
  (f.pieces element.digest).foldl h.take state

/-- The hash of a form. -/
def hash {σ τ : Type} (element : Hasher τ) (h : Hasher σ) (f : Form) : UInt64 :=
  h.finish (f.feed element h h.start)

end Form

/-- Multiplies by an odd constant after each word is mixed in. -/
def Hasher.multiplicative : Hasher UInt64 where
  start := 0xcbf29ce484222325
  take
    | acc, .tag n | acc, .size n => mix acc (UInt64.ofNat n)
    | acc, .byte b => mix acc b.toUInt64
    | acc, .integer n => mix acc n.toUInt64
    | acc, .word w => mix acc w
    | acc, .text s => s.foldl (fun acc c => mix acc c.val.toUInt64) acc
  finish acc := acc
where
  mix (acc w : UInt64) : UInt64 := (acc ^^^ w) * 0x100000001b3

instance : Hashable Form := ⟨Form.hash Hasher.multiplicative Hasher.multiplicative⟩

end LarkPhp
