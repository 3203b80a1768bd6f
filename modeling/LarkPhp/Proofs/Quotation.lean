import LarkPhp.Proofs.CodeGrammar
import LarkPhp.Proofs.Places

/-!
Quoted data can be told apart by its code.

The expression for a form is a word, a string literal or a call of a constructor, and the next character
that can end a word says which of the three it is.  So expressions can be read back, whatever follows
them: escapes are undone one by one, arguments are read up to the closing parenthesis, and the class and
the constructor say what the arguments were put together to (`readsBack`).  What is read back is the
form without its places, if it holds no doubles and its symbols are the ones that their texts spell;
expressions for different such forms therefore differ (`value_injective`).
-/

namespace LarkPhp

/-! ### Legible data -/

namespace Form

mutual
/-- Whether there is no double in the form, at any level. -/
def floatless : Form → Bool
  | .float _ => false
  | .tuple _ xs _ | .set xs _ | .array xs _ => floatlessAll xs
  | .table es _ => floatlessEntries es
  | _ => true

/-- Whether there is no double in the forms. -/
def floatlessAll : List Form → Bool
  | [] => true
  | f :: fs => f.floatless && floatlessAll fs

/-- Whether there is no double in the keys and values. -/
def floatlessEntries : List (Form × Form) → Bool
  | [] => true
  | (k, f) :: es => k.floatless && f.floatless && floatlessEntries es
end

/-- The form holds no doubles, and its symbols are the ones that their texts spell. -/
structure Legible (f : Form) : Prop where
  floatless : f.floatless = true
  spelled : ∀ x ∈ f.symbols, Symbol.ofWritten x.text = x

theorem floatlessAll_eq (fs : List Form) : floatlessAll fs = fs.all floatless := by
  induction fs with
  | nil => rfl
  | cons f fs ih => rw [floatlessAll, ih, List.all_cons]

theorem floatlessEntries_eq (es : List (Form × Form)) :
    floatlessEntries es = (Analysis.flatten es).all floatless := by
  induction es with
  | nil => rfl
  | cons e es ih =>
    obtain ⟨k, f⟩ := e
    rw [floatlessEntries, ih, Bool.and_assoc]
    rfl

theorem Legible.part {f g : Form} (h : f.Legible) (hg : g ∈ f.parts) : g.Legible := by
  have hparts : f.parts.all Form.floatless = true := by
    have hf := h.floatless
    cases f with
    | table es p => exact (floatlessEntries_eq es).symm.trans hf
    | tuple d xs p => exact (floatlessAll_eq xs).symm.trans hf
    | set xs p => exact (floatlessAll_eq xs).symm.trans hf
    | array xs p => exact (floatlessAll_eq xs).symm.trans hf
    | _ => rfl
  exact ⟨List.all_eq_true.1 hparts g hg, fun x hx => h.spelled x (mem_symbols_of_part hg hx)⟩

end Form

namespace Php

/-! ### Literals -/

/-- The number a hexadecimal digit stands for. -/
def hexValue (c : Char) : Nat := if c.toNat < 65 then c.toNat - 48 else c.toNat - 55

/-- The character an escape of one letter stands for. -/
def unescape : Char → Char
  | 'n' => '\n'
  | 'r' => '\r'
  | 't' => '\t'
  | 'v' => '\x0b'
  | 'f' => '\x0c'
  | 'e' => '\x1b'
  | c => c

/-- Puts a character before what was read. -/
def consChar (c : Char) (read : List Char × List Char) : List Char × List Char :=
  (c :: read.1, read.2)

/-- Reads a literal up to its closing quote. -/
def readLiteral : List Char → Option (List Char × List Char)
  | [] => none
  | '"' :: r => some ([], r)
  | '\\' :: 'x' :: a :: b :: r =>
    (readLiteral r).map (consChar (.ofNat (16 * hexValue a + hexValue b)))
  | '\\' :: c :: r => (readLiteral r).map (consChar (unescape c))
  | c :: r => (readLiteral r).map (consChar c)

theorem hexValue_hexDigit {k : Nat} (h : k < 16) : hexValue (hexDigit k) = k := by
  have hdigits : ∀ k < 16, hexValue (hexDigit k) = k := by decide
  exact hdigits k h

theorem readLiteral_escape (c : Char) (r : List Char) :
    readLiteral (escape c ++ r) = (readLiteral r).map (consChar c) := by
  unfold escape
  split
  iterate 9 rfl
  · next hbackslash hquote _ _ _ _ _ _ _ =>
    split
    · next hcontrol =>
      have hhigh : c.toNat / 16 < 16 := by omega
      have hlow : c.toNat % 16 < 16 := Nat.mod_lt _ (by decide)
      show (readLiteral r).map (consChar (.ofNat _)) = _
      rw [hexValue_hexDigit hhigh, hexValue_hexDigit hlow, Nat.div_add_mod, Char.ofNat_toNat]
    · rw [List.singleton_append, readLiteral]
      all_goals grind

theorem readLiteral_quote (cs r : List Char) :
    readLiteral (cs.flatMap escape ++ '"' :: r) = some (cs, r) := by
  induction cs with
  | nil => rfl
  | cons c cs ih =>
    rw [List.flatMap_cons, List.append_assoc, readLiteral_escape, ih]
    rfl

/-! ### Words -/

/-- A reader that takes characters of one kind stops where they end. -/
theorem span_append {p : Char → Bool} {w r : List Char} (hw : ∀ c ∈ w, p c = true)
    (hr : ∀ c ∈ r.head?, p c = false) :
    (w ++ r).takeWhile p = w ∧ (w ++ r).dropWhile p = r := by
  rw [List.takeWhile_append_of_pos hw, List.dropWhile_append_of_pos hw]
  cases r with
  | nil => exact ⟨List.append_nil w, rfl⟩
  | cons c r =>
    rw [List.takeWhile_cons, List.dropWhile_cons, hr c rfl]
    exact ⟨List.append_nil w, rfl⟩

/-- Whether a character ends a word. -/
def endsWord (c : Char) : Bool := [',', '(', ')', '"'].contains c

/-- A text that is part of one word. -/
def Unbroken (w : List Char) : Prop := ∀ c ∈ w, endsWord c = false

instance (w : List Char) : Decidable (Unbroken w) := List.decidableBAll (endsWord · = false) w

theorem Unbroken.passed {w : List Char} (h : Unbroken w) : ∀ c ∈ w, (!endsWord c) = true := by
  intro c hc
  rw [h c hc]
  rfl

/-- What can follow an expression: the next argument, the end of the arguments or nothing. -/
inductive Follows : List Char → Prop
  | nothing : Follows []
  | next {r} : Follows (',' :: r)
  | close {r} : Follows (')' :: r)

/-- The number that a word spells. -/
def readInt : List Char → Int
  | '-' :: ds => -Nat.ofDigitChars 10 ds 0
  | ds => Nat.ofDigitChars 10 ds 0

/-- The scalar that a word spells. -/
def readWord (w : List Char) : Option Form :=
  if w = [] then none
  else if w = "null".toList then some .nil
  else if w = "true".toList then some (.bool true)
  else if w = "false".toList then some (.bool false)
  else some (.int (.ofInt (readInt w)))

/-- A number is written as its digits, after a sign if it is negative. -/
theorem toList_toString_int (n : Int) :
    (toString n).toList =
      if 0 ≤ n then Nat.toDigits 10 n.toNat else '-' :: Nat.toDigits 10 (-n).toNat := by
  have hdigits : ∀ k : Nat, k.repr.toList = Nat.toDigits 10 k := fun _ => String.toList_ofList
  rw [Int.toString_eq_repr, Int.repr_eq_if]
  split
  · exact hdigits _
  · rw [String.toList_append, hdigits]
    rfl

theorem readInt_toString (n : Int) : readInt (toString n).toList = n := by
  rw [toList_toString_int]
  split
  · next hn =>
    unfold readInt
    split
    · next ds hds =>
      have hsign : '-' ∈ Nat.toDigits 10 n.toNat := by
        rw [hds]
        exact List.mem_cons_self
      cases isDigit_of_mem hsign
    · rw [Nat.ofDigitChars_ten_toDigits]
      omega
  · next hn =>
    show -(Nat.ofDigitChars 10 (Nat.toDigits 10 (-n).toNat) 0 : Int) = n
    rw [Nat.ofDigitChars_ten_toDigits]
    omega

theorem mem_toString_int {n : Int} {c : Char} (h : c ∈ (toString n).toList) :
    c = '-' ∨ c.isDigit = true := by
  rw [toList_toString_int] at h
  split at h
  · exact .inr (isDigit_of_mem h)
  · exact (List.mem_cons.1 h).imp_right isDigit_of_mem

theorem not_mem_toString_int (n : Int) {c : Char} (h : (c != '-' && !c.isDigit) = true) :
    c ∉ (toString n).toList := by
  intro hc
  rcases mem_toString_int hc with rfl | hdigit
  · cases h
  · rw [hdigit, Bool.not_true, Bool.and_false] at h
    cases h

theorem unbroken_toString_int (n : Int) : Unbroken (toString n).toList := by
  have hends : [',', '(', ')', '"'].all (fun c => c != '-' && !c.isDigit) = true := by decide
  intro c hc
  rw [Bool.eq_false_iff]
  intro hend
  exact not_mem_toString_int n (List.all_eq_true.1 hends c (List.contains_iff_mem.1 hend)) hc

theorem readWord_toString (n : Int64) : readWord (toString n.toInt).toList = some (.int n) := by
  -- No word for another scalar is a number, since it has a letter in it.
  have hword : ∀ (w : List Char) (c : Char), c ∈ w → (c != '-' && !c.isDigit) = true →
      (toString n.toInt).toList ≠ w := by
    rintro _ c hc hletter rfl
    exact not_mem_toString_int _ hletter hc
  have hempty : (toString n.toInt).toList ≠ [] := by
    rw [Ne, String.toList_eq_nil_iff]
    exact toString_int_ne_empty _
  unfold readWord
  rw [if_neg hempty, if_neg (hword _ 'l' (by decide) (by decide)),
    if_neg (hword _ 'e' (by decide) (by decide)), if_neg (hword _ 'e' (by decide) (by decide)),
    readInt_toString, Int64.ofInt_toInt]

/-! ### Calls -/

/-- Keys and values, taken in turn. -/
def takeTurns : List Form → List (Form × Form)
  | k :: v :: fs => (k, v) :: takeTurns fs
  | _ => []

/-- What a call of a constructor of the runtime builds. -/
def rebuild : String → List Form → Option Form
  | "\\Lark\\Lang\\Keyword::create", [.str s] => some (.keyword s)
  | "\\Lark\\Lang\\Symbol::create", [.str s] => some (.symbol (.ofWritten s) none)
  | "\\Lark\\Lang\\Tuple::create", fs => some (.tuple .paren fs none)
  | "\\Lark\\Lang\\Tuple::createBracket", fs => some (.tuple .bracket fs none)
  | "\\Lark\\Lang\\Table::fromKVs", fs => some (.table (takeTurns fs) none)
  | "\\Lark\\Lang\\Set::create", fs => some (.set fs none)
  | "\\Lark\\Lang\\PArray::create", fs => some (.array fs none)
  | _, _ => none

theorem takeTurns_flatten (es : List (Form × Form)) : takeTurns (Analysis.flatten es) = es := by
  induction es with
  | nil => rfl
  | cons e es ih =>
    obtain ⟨k, v⟩ := e
    exact congrArg ((k, v) :: ·) ih

/-- Skips the comma between two arguments. -/
def skipComma : List Char → List Char
  | ',' :: ' ' :: r => r
  | r => r

/-- The word at the start of a text. -/
def firstWord (cs : List Char) : List Char := cs.takeWhile (!endsWord ·)

/-- What stands after the word at the start of a text. -/
def afterWord (cs : List Char) : List Char := cs.dropWhile (!endsWord ·)

mutual
/-- Reads an expression; `fuel` bounds the number of steps. -/
def readForm : (fuel : Nat) → List Char → Option (Form × List Char)
  | 0, _ => none
  | fuel + 1, cs =>
    match afterWord cs with
    | '"' :: r => (readLiteral r).map fun read => (.str (.ofList read.1), read.2)
    | '(' :: r =>
      (readArgs fuel r).bind fun read => (rebuild (.ofList (firstWord cs)) read.1).map (·, read.2)
    | r => (readWord (firstWord cs)).map (·, r)

/-- Reads arguments up to the closing parenthesis. -/
def readArgs : (fuel : Nat) → List Char → Option (List Form × List Char)
  | 0, _ => none
  | fuel + 1, cs =>
    match readForm fuel cs, cs with
    | some (f, r), _ => (readArgs fuel (skipComma r)).map fun read => (f :: read.1, read.2)
    | none, ')' :: r => some ([], r)
    | none, _ => none
end

section Steps
variable {fuel : Nat} {w r : List Char}

theorem firstWord_append (hw : Unbroken w) (hr : ∀ c ∈ r.head?, endsWord c = true) :
    firstWord (w ++ r) = w :=
  (span_append hw.passed fun c hc => by rw [hr c hc, Bool.not_true]).1

theorem afterWord_append (hw : Unbroken w) (hr : ∀ c ∈ r.head?, endsWord c = true) :
    afterWord (w ++ r) = r :=
  (span_append hw.passed fun c hc => by rw [hr c hc, Bool.not_true]).2

theorem Follows.head (h : Follows r) : ∀ c ∈ r.head?, endsWord c = true := by
  cases h <;> rintro c ⟨⟩ <;> rfl

theorem readForm_word (hw : Unbroken w) (hr : Follows r) :
    readForm (fuel + 1) (w ++ r) = (readWord w).map (·, r) := by
  unfold readForm
  rw [afterWord_append hw hr.head, firstWord_append hw hr.head]
  cases hr <;> rfl

theorem readForm_literal (s : String) :
    readForm (fuel + 1) ((quote s).toList ++ r) = some (.str s, r) := by
  have hquote : (quote s).toList ++ r = [] ++ '"' :: (s.toList.flatMap escape ++ '"' :: r) := by
    simp [quote]
  unfold readForm
  rw [hquote, afterWord_append (by decide) (by rintro c ⟨⟩; rfl)]
  show (readLiteral _).map _ = _
  rw [readLiteral_quote, Option.map_some, String.ofList_toList]

theorem readForm_call {name : String} (hname : Unbroken name.toList) :
    readForm (fuel + 1) (name.toList ++ '(' :: r) =
      (readArgs fuel r).bind fun read => (rebuild name read.1).map (·, read.2) := by
  have hopen : ∀ c ∈ ('(' :: r).head?, endsWord c = true := by rintro c ⟨⟩; rfl
  unfold readForm
  rw [afterWord_append hname hopen, firstWord_append hname hopen, String.ofList_toList]
  rfl

theorem readArgs_close : readArgs (fuel + 1) (')' :: r) = some ([], r) := by
  cases fuel <;> rfl

theorem readArgs_cons {cs : List Char} {f : Form} (h : readForm fuel cs = some (f, r)) :
    readArgs (fuel + 1) cs =
      (readArgs fuel (skipComma r)).map fun read => (f :: read.1, read.2) := by
  simp only [readArgs, h]

/-- After the first argument the others follow, with a comma before them if there are any. -/
theorem exists_commas_cons (t : String) (ts : List String) (r : List Char) :
    ∃ rest, (commas (t :: ts)).toList ++ ')' :: r = t.toList ++ rest ∧ Follows rest ∧
      skipComma rest = (commas ts).toList ++ ')' :: r := by
  cases ts with
  | nil => exact ⟨')' :: r, by rw [commas, String.intercalate_singleton], .close, rfl⟩
  | cons u us =>
    refine ⟨',' :: ' ' :: ((commas (u :: us)).toList ++ ')' :: r), ?_, .next, rfl⟩
    simp [commas, String.intercalate_cons_cons]

end Steps

/-! ### Forms read back -/

/-- The expression for the form is read back as the form without its places, whatever follows it,
once there is fuel enough. -/
def ReadsBack (f : Form) : Prop :=
  ∃ least, ∀ fuel, least ≤ fuel → ∀ r, Follows r →
    readForm fuel ((value .standard f).toList ++ r) = some (f.unplaced, r)

theorem readsBack_word {f : Form} {w : List Char} (htext : (value .standard f).toList = w)
    (hw : Unbroken w) (hread : readWord w = some f.unplaced) : ReadsBack f := by
  refine ⟨1, fun fuel hfuel r hr => ?_⟩
  obtain ⟨fuel, rfl⟩ := Nat.exists_eq_add_of_le' hfuel
  rw [htext, readForm_word hw hr, hread, Option.map_some]

theorem readsBack_str (s : String) : ReadsBack (.str s) := by
  refine ⟨1, fun fuel hfuel r _ => ?_⟩
  obtain ⟨fuel, rfl⟩ := Nat.exists_eq_add_of_le' hfuel
  exact readForm_literal s

/-- Arguments are read back one by one. -/
theorem readArgs_commas {fs : List Form} (h : ∀ f ∈ fs, ReadsBack f) :
    ∃ least, ∀ fuel, least ≤ fuel → ∀ r,
      readArgs fuel ((commas (fs.map (value .standard))).toList ++ ')' :: r) =
        some (fs.map Form.unplaced, r) := by
  induction fs with
  | nil =>
    refine ⟨1, fun fuel hfuel r => ?_⟩
    obtain ⟨fuel, rfl⟩ := Nat.exists_eq_add_of_le' hfuel
    exact readArgs_close
  | cons f fs ih =>
    obtain ⟨hf, hfs⟩ := List.forall_mem_cons.1 h
    obtain ⟨m, hm⟩ := hf
    obtain ⟨n, hn⟩ := ih hfs
    refine ⟨max m n + 1, fun fuel hfuel r => ?_⟩
    obtain ⟨fuel, rfl⟩ := Nat.exists_eq_add_of_le' (Nat.le_of_add_left_le hfuel)
    obtain ⟨rest, htext, hfollows, hskip⟩ :=
      exists_commas_cons (value .standard f) (fs.map (value .standard)) r
    rw [List.map_cons, htext, readArgs_cons (hm fuel (by omega) rest hfollows), hskip,
      hn fuel (by omega) r]
    rfl

theorem readsBack_construct {f : Form} (cls constructor : String) (args : List Form)
    (htext : value .standard f = construct .standard cls constructor (args.map (value .standard)))
    (hname : Unbroken (Config.standard.runtimeClass cls ++ "::" ++ constructor).toList)
    (hargs : ∀ g ∈ args, ReadsBack g)
    (hrebuild : rebuild (Config.standard.runtimeClass cls ++ "::" ++ constructor)
      (args.map Form.unplaced) = some f.unplaced) : ReadsBack f := by
  obtain ⟨n, hn⟩ := readArgs_commas hargs
  refine ⟨n + 1, fun fuel hfuel r _ => ?_⟩
  obtain ⟨fuel, rfl⟩ := Nat.exists_eq_add_of_le' (Nat.le_of_add_left_le hfuel)
  have hcall : (value .standard f).toList ++ r =
      (Config.standard.runtimeClass cls ++ "::" ++ constructor).toList ++
        '(' :: ((commas (args.map (value .standard))).toList ++ ')' :: r) := by
    rw [htext, construct]
    simp
  rw [hcall, readForm_call hname, hn fuel (by omega) r, Option.bind_some, hrebuild, Option.map_some]

/-- Data without doubles is read back as it was, without its places. -/
theorem readsBack {f : Form} (h : f.Legible) : ReadsBack f := by
  induction f using Form.ind with
  | _ f ih =>
    have hparts : ∀ g ∈ f.parts, ReadsBack g := fun g hg => ih g hg (h.part hg)
    have hstr : ∀ s, ∀ g ∈ [Form.str s], ReadsBack g := by
      intro s
      exact List.forall_mem_singleton.2 (readsBack_str s)
    cases f with
    | nil => exact readsBack_word (w := "null".toList) rfl (by decide) rfl
    | bool b =>
      cases b with
      | false => exact readsBack_word (w := "false".toList) rfl (by decide) rfl
      | true => exact readsBack_word (w := "true".toList) rfl (by decide) rfl
    | int n => exact readsBack_word rfl (unbroken_toString_int _) (readWord_toString n)
    | float bits => cases h.floatless
    | str s => exact readsBack_str s
    | keyword s => exact readsBack_construct "Keyword" "create" [.str s] rfl (by decide) (hstr s) rfl
    | symbol x p =>
      refine readsBack_construct "Symbol" "create" [.str x.text] rfl (by decide) (hstr x.text) ?_
      have hx := h.spelled x (by simp [Form.symbols])
      show some (Form.symbol (.ofWritten x.text) none) = _
      rw [hx]
      rfl
    | tuple d xs p =>
      cases d with
      | paren =>
        exact readsBack_construct "Tuple" "create" xs (by rw [value, values_eq]) (by decide) hparts
          (by rw [← Form.unplacedAll_eq]; rfl)
      | bracket =>
        exact readsBack_construct "Tuple" "createBracket" xs (by rw [value, values_eq]) (by decide)
          hparts (by rw [← Form.unplacedAll_eq]; rfl)
    | table es p =>
      refine readsBack_construct "Table" "fromKVs" (Analysis.flatten es)
        (by rw [value, entryValues_eq]) (by decide) hparts ?_
      show some (Form.table (takeTurns ((Analysis.flatten es).map Form.unplaced)) none) = _
      rw [← Form.flatten_unplacedEntries, takeTurns_flatten]
      rfl
    | set xs p =>
      exact readsBack_construct "Set" "create" xs (by rw [value, values_eq]) (by decide) hparts
        (by rw [← Form.unplacedAll_eq]; rfl)
    | array xs p =>
      exact readsBack_construct "PArray" "create" xs (by rw [value, values_eq]) (by decide) hparts
        (by rw [← Form.unplacedAll_eq]; rfl)

/-- Forms with the same expression are the same up to places, if they hold no doubles and their
symbols are the ones that their texts spell. -/
theorem value_injective {a b : Form} (ha : a.Legible) (hb : b.Legible)
    (h : value .standard a = value .standard b) : a.unplaced = b.unplaced := by
  obtain ⟨m, hm⟩ := readsBack ha
  obtain ⟨n, hn⟩ := readsBack hb
  have hreada := hm (max m n) (Nat.le_max_left m n) [] .nothing
  have hreadb := hn (max m n) (Nat.le_max_right m n) [] .nothing
  rw [h, hreadb] at hreada
  exact (congrArg Prod.fst (Option.some.inj hreada)).symm

/-- A table whose texts hold quotes, commas and parentheses, at a place. -/
def quotedTable (p : Option Span) : Form :=
  .table [(.str "\"), \\", .tuple .bracket [.int (-1), .symbol (.ofWritten "a/b") p] p),
    (.keyword "$k, (", .set [.nil, .bool true] p)] p

theorem legible_quotedTable (p : Option Span) : (quotedTable p).Legible where
  floatless := rfl
  spelled := by
    have hsymbols : ∀ x ∈ [Symbol.ofWritten "a/b"], Symbol.ofWritten x.text = x := by decide
    exact hsymbols

theorem value_injective_quotedTable :
    (quotedTable none).Legible ∧ (quotedTable (some default)).Legible ∧
      value .standard (quotedTable none) = value .standard (quotedTable (some default)) ∧
      (quotedTable none).unplaced = (quotedTable (some default)).unplaced :=
  ⟨legible_quotedTable _, legible_quotedTable _, rfl,
    value_injective (legible_quotedTable _) (legible_quotedTable _) rfl⟩

end Php

end LarkPhp
