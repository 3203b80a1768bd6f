import LarkPhp.Php.Text

/-!
String literals as the host reads them.

The host reads a literal between double quotes byte by byte.  A backslash starts an escape: a letter, up
to two hexadecimal or three octal digits, or a code point between braces.  A backslash before anything
else stands for itself.  A dollar before a name or a brace, and a brace before a dollar, start an
interpolation.  The first other quote ends the literal.

`Literal.read` follows these rules on any text.  What `quote` writes is read back as the string it was
written for, up to its closing quote and no further, whatever follows it (`Literal.read_quote`).
-/

namespace LarkPhp.Php.Literal

/-- The bytes of a text. -/
def bytes (s : String) : List UInt8 := s.toUTF8.data.toList

/-! ### Digits -/

/-- The number that a hexadecimal digit stands for. -/
def hex? (b : UInt8) : Option Nat :=
  let n := b.toNat
  if 48 ≤ n ∧ n ≤ 57 then some (n - 48)
  else if 65 ≤ n ∧ n ≤ 70 then some (n - 55)
  else if 97 ≤ n ∧ n ≤ 102 then some (n - 87)
  else none

/-- The number that an octal digit stands for. -/
def octal? (b : UInt8) : Option Nat :=
  if 48 ≤ b.toNat ∧ b.toNat ≤ 55 then some (b.toNat - 48) else none

/-- Reads as many digits as there are, but no more than `most`. -/
def digits (digit? : UInt8 → Option Nat) : (most : Nat) → List UInt8 → List Nat × List UInt8
  | 0, bs => ([], bs)
  | _ + 1, [] => ([], [])
  | most + 1, b :: bs =>
    match digit? b with
    | some d => (d :: (digits digit? most bs).1, (digits digit? most bs).2)
    | none => ([], b :: bs)

/-- The number that digits stand for, the first of them the greatest. -/
def number (base : Nat) (ds : List Nat) : Nat := ds.foldl (fun n d => base * n + d) 0

/-! ### Escapes -/

/-- The escapes of one letter, and what they stand for. -/
def letters : List (Char × Char) :=
  [('\\', '\\'), ('"', '"'), ('$', '$'), ('n', '\n'), ('r', '\r'), ('t', '\t'), ('v', '\x0b'),
    ('f', '\x0c'), ('e', '\x1b')]

/-- What an escape of one letter stands for. -/
def letter? (b : UInt8) : Option UInt8 :=
  (letters.find? fun e => e.1.toUInt8 == b).map (·.2.toUInt8)

/-- The bytes of a code point. -/
def encode (n : Nat) : List UInt8 :=
  if n < 0x80 then [.ofNat n]
  else if n < 0x800 then [.ofNat (0xC0 + n / 64), .ofNat (0x80 + n % 64)]
  else if n < 0x10000 then
    [.ofNat (0xE0 + n / 4096), .ofNat (0x80 + n / 64 % 64), .ofNat (0x80 + n % 64)]
  else
    [.ofNat (0xF0 + n / 262144), .ofNat (0x80 + n / 4096 % 64), .ofNat (0x80 + n / 64 % 64),
      .ofNat (0x80 + n % 64)]

/-- Reads a code point up to its closing brace. -/
def codePoint? (bs : List UInt8) : Option (List UInt8 × List UInt8) :=
  match digits hex? bs.length bs with
  | (d :: ds, b :: rest) =>
    if b = '\x7d'.toUInt8 ∧ number 16 (d :: ds) ≤ 0x10FFFF then
      some (encode (number 16 (d :: ds)), rest)
    else none
  | _ => none

/-- Reads what stands behind a backslash: the bytes that the escape stands for, and the rest.  Only a
code point can be malformed. -/
def escape? : List UInt8 → Option (List UInt8 × List UInt8)
  | [] => some (['\\'.toUInt8], [])
  | b :: bs =>
    match letter? b with
    | some v => some ([v], bs)
    | none =>
      if b = 'x'.toUInt8 then
        match digits hex? 2 bs with
        | ([], _) => some (['\\'.toUInt8, b], bs)
        | (ds, rest) => some ([.ofNat (number 16 ds)], rest)
      else if b = 'u'.toUInt8 ∧ bs.head? = some '\x7b'.toUInt8 then codePoint? bs.tail
      else
        match digits octal? 3 (b :: bs) with
        | ([], _) => some (['\\'.toUInt8, b], bs)
        | (ds, rest) => some ([.ofNat (number 8 ds)], rest)

theorem length_digits_le (digit? : UInt8 → Option Nat) (most : Nat) (bs : List UInt8) :
    (digits digit? most bs).2.length ≤ bs.length := by
  fun_induction digits digit? most bs with
  | case1 | case2 | case4 => exact Nat.le_refl _
  | case3 most b bs d _ ih => exact Nat.le_succ_of_le ih

theorem length_codePoint?_le {bs v rest : List UInt8} (h : codePoint? bs = some (v, rest)) :
    rest.length ≤ bs.length := by
  have hle := length_digits_le hex? bs.length bs
  unfold codePoint? at h
  split at h
  · next d ds b rest' hds =>
    rw [hds] at hle
    split at h
    · cases h
      exact Nat.le_of_succ_le hle
    · cases h
  · cases h

/-- An escape takes nothing back. -/
theorem length_escape?_le {bs v rest : List UInt8} (h : escape? bs = some (v, rest)) :
    rest.length ≤ bs.length := by
  unfold escape? at h
  split at h
  · cases h
    exact Nat.le_refl _
  next b bs =>
  split at h
  · cases h
    exact Nat.le_succ _
  split at h
  · have hle := length_digits_le hex? 2 bs
    split at h
    · cases h
      exact Nat.le_succ _
    · next hds =>
      cases h
      rw [hds] at hle
      exact Nat.le_succ_of_le hle
  split at h
  · have hle := length_codePoint?_le h
    rw [List.length_tail] at hle
    exact Nat.le_trans hle (Nat.le_trans (Nat.sub_le _ _) (Nat.le_succ _))
  · have hle := length_digits_le octal? 3 (b :: bs)
    split at h
    · cases h
      exact Nat.le_succ _
    · next hds =>
      cases h
      rw [hds] at hle
      exact hle

/-! ### Reading -/

/-- What reading a literal comes to. -/
inductive Reading where
  /-- The literal has this value, and this follows its closing quote. -/
  | closed (value rest : List UInt8)
  /-- A variable is interpolated. -/
  | interpolated
  /-- There is no closing quote. -/
  | unfinished
  /-- There is no literal, or an escape in it is malformed. -/
  | malformed
deriving DecidableEq

/-- The reading of a literal that starts with more bytes. -/
def Reading.after (v : List UInt8) : Reading → Reading
  | closed value rest => closed (v ++ value) rest
  | r => r

/-- Whether a byte can start a name. -/
def startsName (b : UInt8) : Bool :=
  let n := b.toNat
  (65 ≤ n && n ≤ 90) || (97 ≤ n && n ≤ 122) || n == 95 || 128 ≤ n

/-- Whether an interpolation starts here. -/
def interpolates : List UInt8 → Bool
  | a :: b :: _ =>
    (a == '$'.toUInt8 && (startsName b || b == '\x7b'.toUInt8))
      || (a == '\x7b'.toUInt8 && b == '$'.toUInt8)
  | _ => false

/-- Reads a literal behind its opening quote. -/
def readBody : List UInt8 → Reading
  | [] => .unfinished
  | b :: bs =>
    if b = '"'.toUInt8 then .closed [] bs
    else if b = '\\'.toUInt8 then
      match _h : escape? bs with
      | some (v, rest) => (readBody rest).after v
      | none => .malformed
    else if interpolates (b :: bs) then .interpolated
    else (readBody bs).after [b]
termination_by bs => bs.length
decreasing_by
  · exact Nat.lt_succ_of_le (length_escape?_le ‹_›)
  · exact Nat.lt_succ_self _

/-- Reads a literal at the start of a text. -/
def read : List UInt8 → Reading
  | [] => .malformed
  | b :: bs => if b = '"'.toUInt8 then readBody bs else .malformed

theorem readBody_quote (r : List UInt8) : readBody ('"'.toUInt8 :: r) = .closed [] r := by
  rw [readBody, if_pos rfl]

theorem readBody_escape {bs v rest : List UInt8} (h : escape? bs = some (v, rest)) :
    readBody ('\\'.toUInt8 :: bs) = (readBody rest).after v := by
  rw [readBody, if_neg (by decide), if_pos rfl]
  split
  · next v' rest' h' =>
    rw [h] at h'
    cases h'
    rfl
  · next h' =>
    rw [h] at h'
    cases h'

/-- A byte that is neither a quote nor a backslash stands for itself where no interpolation starts. -/
theorem readBody_plain {b : UInt8} {bs : List UInt8} (hquote : b ≠ '"'.toUInt8)
    (hbackslash : b ≠ '\\'.toUInt8) (h : interpolates (b :: bs) = false) :
    readBody (b :: bs) = (readBody bs).after [b] := by
  rw [readBody, if_neg hquote, if_neg hbackslash, if_neg (by rw [h]; exact Bool.false_ne_true)]

theorem Reading.after_nil (r : Reading) : r.after [] = r := by
  cases r <;> rfl

theorem Reading.after_append (v w : List UInt8) (r : Reading) :
    r.after (v ++ w) = (r.after w).after v := by
  cases r with
  | closed => exact congrArg (Reading.closed · _) (List.append_assoc v w _)
  | interpolated | unfinished | malformed => rfl

/-! ### Bytes of texts -/

/-- The bytes of characters. -/
def encoded (cs : List Char) : List UInt8 := cs.flatMap String.utf8EncodeChar

theorem bytes_ofList (cs : List Char) : bytes (String.ofList cs) = encoded cs := by
  unfold bytes encoded
  show (String.ofList cs).toByteArray.data.toList = _
  rw [String.toByteArray_ofList, List.utf8Encode, List.toList_data_toByteArray]

theorem bytes_eq (s : String) : bytes s = encoded s.toList := by
  rw [← bytes_ofList, String.ofList_toList]

theorem encoded_append (cs ds : List Char) : encoded (cs ++ ds) = encoded cs ++ encoded ds :=
  List.flatMap_append

/-- A character of seven bits is one byte. -/
theorem utf8EncodeChar_of_lt {c : Char} (h : c.toNat < 128) :
    String.utf8EncodeChar c = [c.toUInt8] := by
  have hle : c.val.toNat ≤ 127 := Nat.le_of_lt_succ h
  unfold String.utf8EncodeChar
  rw [if_pos hle]
  rfl

theorem toUInt8_ne {c d : Char} (hc : c.toNat < 128) (hd : d.toNat < 128) (h : c ≠ d) :
    c.toUInt8 ≠ d.toUInt8 := by
  intro heq
  have hnat := congrArg UInt8.toNat heq
  have hvalue : ∀ x : Char, x.toUInt8.toNat = x.toNat % 256 := fun x => rfl
  rw [hvalue, hvalue] at hnat
  exact h (Char.toNat_inj.1 (by omega))

/-- The bytes of any other character have eight bits. -/
theorem le_of_mem_utf8EncodeChar {c : Char} (h : 128 ≤ c.toNat) {b : UInt8}
    (hb : b ∈ String.utf8EncodeChar c) : 128 ≤ b.toNat := by
  have hlt : ¬ c.val.toNat ≤ 127 := Nat.not_le_of_lt h
  unfold String.utf8EncodeChar at hb
  simp only [if_neg hlt] at hb
  split at hb
  · simp only [List.mem_cons, List.not_mem_nil, or_false] at hb
    rcases hb with rfl | rfl <;> simp only [UInt8.toNat_ofNat'] <;> omega
  split at hb
  · simp only [List.mem_cons, List.not_mem_nil, or_false] at hb
    rcases hb with rfl | rfl | rfl <;> simp only [UInt8.toNat_ofNat'] <;> omega
  · simp only [List.mem_cons, List.not_mem_nil, or_false] at hb
    rcases hb with rfl | rfl | rfl | rfl <;> simp only [UInt8.toNat_ofNat'] <;> omega

/-! ### What `quote` writes -/

section Quote
variable {r : List UInt8}

theorem interpolates_eq_false {b : UInt8} (hdollar : b ≠ '$'.toUInt8)
    (hbrace : b = '\x7b'.toUInt8 → r.head? ≠ some '$'.toUInt8) : interpolates (b :: r) = false := by
  cases r with
  | nil => rfl
  | cons a r =>
    have hpair : ¬ (b = '\x7b'.toUInt8 ∧ a = '$'.toUInt8) := by
      rintro ⟨hb, rfl⟩
      exact hbrace hb rfl
    simpa [interpolates, hdollar] using hpair

/-- Bytes of eight bits stand for themselves. -/
theorem readBody_high {v : List UInt8} (h : ∀ b ∈ v, 128 ≤ b.toNat) :
    readBody (v ++ r) = (readBody r).after v := by
  induction v with
  | nil => exact (Reading.after_nil _).symm
  | cons b v ih =>
    obtain ⟨hb, hv⟩ := List.forall_mem_cons.1 h
    have hne : ∀ c : Char, c.toUInt8.toNat < 128 → b ≠ c.toUInt8 := by
      rintro c hc rfl
      exact absurd hb (Nat.not_le_of_lt hc)
    have hplain : interpolates (b :: (v ++ r)) = false :=
      interpolates_eq_false (hne '$' (by decide)) fun hbrace => absurd hbrace (hne '\x7b' (by decide))
    rw [List.cons_append, readBody_plain (hne '"' (by decide)) (hne '\\' (by decide)) hplain, ih hv]
    exact (Reading.after_append [b] v _).symm

/-- An escape by two hexadecimal digits takes these two and nothing of what follows. -/
theorem escape?_hex {m n : Nat} (hm : m < 16) (hn : n < 16) :
    escape? ('x'.toUInt8 :: (hexDigit m).toUInt8 :: (hexDigit n).toUInt8 :: r) =
      some ([.ofNat (16 * m + n)], r) := by
  have hdigit : ∀ k < 16, hex? (hexDigit k).toUInt8 = some k := by decide
  have hdigits : digits hex? 2 ((hexDigit m).toUInt8 :: (hexDigit n).toUInt8 :: r) = ([m, n], r) := by
    simp only [digits, hdigit m hm, hdigit n hn]
  have hletter : letter? 'x'.toUInt8 = none := by decide
  simp only [escape?, hletter, hdigits, if_true, number, List.foldl_cons, List.foldl_nil, Nat.mul_zero,
    Nat.zero_add]

/-- A character that is escaped is read back, and reading goes on behind it. -/
theorem readBody_escaped (c : Char) (hr : r.head? ≠ some '$'.toUInt8) :
    readBody (encoded (escape c) ++ r) = (readBody r).after (String.utf8EncodeChar c) := by
  unfold escape
  split
  iterate 9 exact readBody_escape rfl
  next hbackslash hquote hdollar _ _ _ _ _ _ =>
  split
  · next hcontrol =>
    have hhigh : c.toNat / 16 < 16 := by omega
    have hlow : c.toNat % 16 < 16 := Nat.mod_lt _ (by decide)
    have hdigit : ∀ k < 16, (hexDigit k).toNat < 128 := by decide
    have hencoded : encoded ['\\', 'x', hexDigit (c.toNat / 16), hexDigit (c.toNat % 16)] ++ r =
        '\\'.toUInt8 :: 'x'.toUInt8 :: (hexDigit (c.toNat / 16)).toUInt8
          :: (hexDigit (c.toNat % 16)).toUInt8 :: r := by
      simp only [encoded, List.flatMap_cons, List.flatMap_nil,
        utf8EncodeChar_of_lt (hdigit _ hhigh), utf8EncodeChar_of_lt (hdigit _ hlow)]
      rfl
    rw [hencoded, readBody_escape (escape?_hex hhigh hlow), Nat.div_add_mod,
      utf8EncodeChar_of_lt (by omega)]
    rfl
  · have hencoded : encoded [c] = String.utf8EncodeChar c := List.flatMap_singleton _ _
    rw [hencoded]
    by_cases hlt : c.toNat < 128
    · have hne : ∀ d : Char, d.toNat < 128 → c ≠ d → c.toUInt8 ≠ d.toUInt8 :=
        fun d hd h => toUInt8_ne hlt hd h
      rw [utf8EncodeChar_of_lt hlt]
      exact readBody_plain (hne '"' (by decide) hquote) (hne '\\' (by decide) hbackslash)
        (interpolates_eq_false (hne '$' (by decide) hdollar) fun _ => hr)
    · exact readBody_high fun b hb => le_of_mem_utf8EncodeChar (Nat.le_of_not_lt hlt) hb

theorem head?_utf8EncodeChar {c : Char} (h : c ≠ '$') :
    (String.utf8EncodeChar c ++ r).head? ≠ some '$'.toUInt8 := by
  by_cases hlt : c.toNat < 128
  · rw [utf8EncodeChar_of_lt hlt]
    intro heq
    exact toUInt8_ne hlt (by decide) h (Option.some.inj heq)
  · have hhigh := fun b hb => le_of_mem_utf8EncodeChar (b := b) (Nat.le_of_not_lt hlt) hb
    cases hbytes : String.utf8EncodeChar c with
    | nil => exact absurd hbytes String.utf8EncodeChar_ne_nil
    | cons b bs =>
      intro heq
      have hb : 128 ≤ b.toNat := hhigh b (by rw [hbytes]; exact List.mem_cons_self)
      rw [Option.some.inj heq] at hb
      exact absurd hb (by decide)

theorem exists_escape_cons (c : Char) : ∃ d ds, escape c = d :: ds ∧ d ≠ '$' := by
  unfold escape
  split
  iterate 9 exact ⟨_, _, rfl, by decide⟩
  next hdollar _ _ _ _ _ _ =>
  split
  · exact ⟨_, _, rfl, by decide⟩
  · exact ⟨_, _, rfl, hdollar⟩

/-- No escaped text starts with a dollar. -/
theorem head?_escapes (cs : List Char) (t : List UInt8) :
    (encoded (cs.flatMap escape) ++ '"'.toUInt8 :: t).head? ≠ some '$'.toUInt8 := by
  cases cs with
  | nil => exact fun heq => absurd (Option.some.inj heq) (by decide)
  | cons c cs =>
    obtain ⟨d, ds, hescape, hd⟩ := exists_escape_cons c
    rw [List.flatMap_cons, hescape, List.cons_append, encoded, List.flatMap_cons, List.append_assoc]
    exact head?_utf8EncodeChar hd

theorem readBody_escapes (cs : List Char) (t : List UInt8) :
    readBody (encoded (cs.flatMap escape) ++ '"'.toUInt8 :: t) = .closed (encoded cs) t := by
  induction cs with
  | nil => exact readBody_quote t
  | cons c cs ih =>
    rw [List.flatMap_cons, encoded_append, List.append_assoc,
      readBody_escaped c (head?_escapes cs t), ih]
    rfl

end Quote

/-- **A string literal is read back as its string.**  Whatever follows it, the literal ends at its own
closing quote, nothing in it is interpolated, and its value is the string it was written for. -/
theorem read_quote (s : String) (t : List UInt8) : read (bytes (quote s) ++ t) = .closed (bytes s) t := by
  have hquote : bytes (quote s) ++ t =
      '"'.toUInt8 :: (encoded (s.toList.flatMap escape) ++ '"'.toUInt8 :: t) := by
    rw [quote, bytes_ofList, List.cons_append]
    show '"'.toUInt8 :: (encoded (s.toList.flatMap escape ++ ['"']) ++ t) = _
    rw [encoded_append, List.append_assoc]
    rfl
  rw [hquote, read, if_pos rfl, readBody_escapes, bytes_eq]

/-- A dollar that is not escaped, as `quote` never writes it. -/
example : read (bytes "\"a $b\"") = .interpolated := by decide +kernel

/-- An escape takes two hexadecimal digits if there are two, and less otherwise. -/
example : read (bytes "\"\\x412\\x4g\\101\\q\";") = .closed (bytes "A2\x04gA\\q") (bytes ";") := by
  decide +kernel

end LarkPhp.Php.Literal
