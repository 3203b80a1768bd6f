import LarkPhp.Distinct
import LarkPhp.Form.Equality

/-!
Sets, tables and arrays of forms as collections in their own right.

A set keeps the first of equal elements.  A table keeps the first of equal keys and its position,
and the value that was put in last.  An array keeps everything.
-/

namespace LarkPhp

/-! ### Sets -/

/-- A set of forms, in the order of first insertion. -/
structure FormSet where
  elements : List Form
  span : Option Span

namespace FormSet

/-- The set of the given forms. -/
def ofList (xs : List Form) : FormSet := ⟨Distinct.ofList xs, none⟩

def toForm (s : FormSet) : Form := .set s.elements s.span

def contains (s : FormSet) (x : Form) : Bool := s.elements.contains x

/-- Puts `x` in front, unless it is there already. -/
def cons (s : FormSet) (x : Form) : FormSet :=
  if s.contains x then s else { s with elements := x :: s.elements }

/-- Puts `x` at the end, unless it is there already. -/
def push (s : FormSet) (x : Form) : FormSet := { s with elements := Distinct.add s.elements x }

/-- Puts all elements of `t` at the end that are not there already. -/
def concat (s t : FormSet) : FormSet :=
  { s with elements := Distinct.addAll s.elements t.elements }

/-- The elements of `s`, then the new ones of `t`. -/
def union (s t : FormSet) : FormSet := s.concat t

/-- The elements of `s` that `t` holds too. -/
def inter (s t : FormSet) : FormSet := ofList (s.elements.filter t.contains)

/-- The elements of `s` that `t` does not hold. -/
def diff (s t : FormSet) : FormSet := ofList (s.elements.filter fun x => !t.contains x)

def first? (s : FormSet) : Option Form := s.elements.head?

/-- All but the first element; nothing of an empty set. -/
def rest (s : FormSet) : List Form := s.elements.tail

/-- All but the first element, if there is a first one. -/
def rest? (s : FormSet) : Option (List Form) := s.elements.tail?

end FormSet

/-! ### Tables -/

/-- A table from forms to forms, in the order of first insertion of the keys. -/
structure FormTable where
  entries : List (Form × Form)
  span : Option Span

namespace FormTable

/-- The entries after `v` was put in under `k`. -/
def put (k v : Form) : List (Form × Form) → List (Form × Form)
  | [] => [(k, v)]
  | (k', v') :: es => if k == k' then (k', v) :: es else (k', v') :: put k v es

/-- The value that stood under `k`, and the entries after `v` was put in there. -/
def replace (k v : Form) : List (Form × Form) → Option Form × List (Form × Form)
  | [] => (none, [(k, v)])
  | (k', v') :: es =>
    if k == k' then (some v', (k', v) :: es)
    else
      let (old, es) := replace k v es
      (old, (k', v') :: es)

def empty : FormTable := ⟨[], none⟩

def toForm (t : FormTable) : Form := .table t.entries t.span

/-- The value under `k`. -/
def get? (t : FormTable) (k : Form) : Option Form :=
  (t.entries.find? fun e => k == e.1).map Prod.snd

def contains (t : FormTable) (k : Form) : Bool := t.entries.any fun e => k == e.1

/-- Puts `v` in under `k`. -/
def insert (t : FormTable) (k v : Form) : FormTable := { t with entries := put k v t.entries }

/-- Puts `v` in under `k`, and gives back what was there before. -/
def exchange (t : FormTable) (k v : Form) : Option Form × FormTable :=
  let (old, entries) := replace k v t.entries
  (old, { t with entries })

/-- The table that results from putting in the pairs in order. -/
def ofList (es : List (Form × Form)) : FormTable := es.foldl (fun t e => t.insert e.1 e.2) empty

end FormTable

/-! ### Arrays -/

/-- A sequence of forms that can grow. -/
structure FormArray where
  elements : List Form
  span : Option Span

namespace FormArray

def ofList (xs : List Form) : FormArray := ⟨xs, none⟩

def toForm (a : FormArray) : Form := .array a.elements a.span

def push (a : FormArray) (x : Form) : FormArray := { a with elements := a.elements ++ [x] }

def get? (a : FormArray) (i : Nat) : Option Form := a.elements[i]?

end FormArray

end LarkPhp
