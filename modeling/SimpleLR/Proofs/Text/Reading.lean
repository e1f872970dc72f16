import SimpleLR.Text.Quoted
import Mathlib.Data.List.Basic
import Mathlib.Tactic.Common

/-!
# Reading texts back

A message is put together from fixed words, numbers and quoted names. Each of them can be taken off the front
of a text again: fixed words because they are known, a number because it ends where the digits end, and a
quoted name because every quotation mark in it is escaped. It does not matter for this which characters are
written by their code points.
-/
namespace SimpleLR.Text

/-- What is left of a text behind some words. -/
def skip (words : String) (text : List Char) : Option (List Char) := text.dropPrefix? words.toList

/-- The number in front of a text, and what is left behind it. -/
def readNumber (text : List Char) : Nat × List Char :=
  (Nat.ofDigitChars 10 (text.takeWhile Char.isDigit) 0, text.dropWhile Char.isDigit)

/-- The number that a hexadecimal digit stands for. -/
def hexDigit (c : Char) : Nat :=
  if c.isDigit then c.toNat - '0'.toNat else c.toNat - 'a'.toNat + 10

/-- The number that hexadecimal digits stand for. -/
def ofHex (digits : List Char) : Nat := digits.foldl (fun n c => 16 * n + hexDigit c) 0

/-- The character that is written behind a backslash, and what is left. -/
def readEscaped : List Char → Option (Char × List Char)
  | '"' :: text => some ('"', text)
  | '\\' :: text => some ('\\', text)
  | 't' :: text => some ('\t', text)
  | 'r' :: text => some ('\r', text)
  | 'n' :: text => some ('\n', text)
  | '0' :: text => some ('\x00', text)
  | 'u' :: '\x7b' :: text =>
    some (Char.ofNat (ofHex (text.takeWhile (· ≠ '\x7d'))), (text.dropWhile (· ≠ '\x7d')).tail)
  | _ => none

/-- The character in front of what stands between quotation marks, and what is left. -/
def readChar : List Char → Option (Char × List Char)
  | [] => none
  | c :: text => if c = '\\' then readEscaped text else if c = '"' then none else some (c, text)

theorem length_lt_of_readEscaped {c : Char} {text rest : List Char}
    (h : readEscaped text = some (c, rest)) : rest.length < text.length := by
  unfold readEscaped at h
  split at h
  case h_7 text =>
    have hdrop := (List.dropWhile_sublist (l := text) (· ≠ '\x7d')).length_le
    rw [Option.some.injEq, Prod.mk.injEq] at h
    rw [← h.2, List.length_tail, List.length_cons, List.length_cons]
    omega
  all_goals simp at h
  all_goals simp [h.2]

theorem length_lt_of_readChar {c : Char} {text rest : List Char}
    (h : readChar text = some (c, rest)) : rest.length < text.length := by
  cases text with
  | nil => simp [readChar] at h
  | cons d text =>
    rw [readChar] at h
    split at h
    · have hlt := length_lt_of_readEscaped h
      simp
      omega
    · simp at h
      simp [h.2]

/-- The characters before the closing quotation mark, and what is left behind it. -/
def readChars (text : List Char) : Option (List Char × List Char) :=
  match _h : readChar text with
  | some (c, rest) => (readChars rest).map fun p => (c :: p.1, p.2)
  | none => text.head?.bind fun c => if c = '"' then some ([], text.tail) else none
termination_by text.length
decreasing_by exact length_lt_of_readChar _h

/-- The name in front of a text, and what is left. -/
def readQuoted (text : List Char) : Option (String × List Char) := do
  let text ← skip "\"" text
  let (name, rest) ← readChars text
  return (String.ofList name, rest)

/-- The number behind some words, and what is left. -/
def readNumberAfter (words : String) (text : List Char) : Option (Nat × List Char) :=
  (skip words text).map readNumber

/-- The name behind some words, and what is left. -/
def readQuotedAfter (words : String) (text : List Char) : Option (String × List Char) :=
  (skip words text).bind readQuoted

@[simp] theorem toString_text (s : String) : toString s = s := rfl

theorem skip_append (words : String) (text : List Char) :
    skip words (words.toList ++ text) = some text := by
  simp [skip, List.dropPrefix?_append_of_beq]

theorem readNumber_append (n : Nat) (text : List Char) (h : ∀ c ∈ text.head?, c.isDigit = false) :
    readNumber (Nat.toDigits 10 n ++ text) = (n, text) := by
  have hdigits : ∀ c ∈ Nat.toDigits 10 n, c.isDigit = true := fun c =>
    Nat.isDigit_of_mem_toDigits (by decide) (by decide)
  have hend : text.takeWhile Char.isDigit = [] ∧ text.dropWhile Char.isDigit = text := by
    cases text with
    | nil => simp
    | cons c text => simp [h c rfl]
  simp [readNumber, List.takeWhile_append_of_pos hdigits, List.dropWhile_append_of_pos hdigits, hend]

@[simp] theorem readNumber_append_cons (n : Nat) {c : Char} (hc : c.isDigit = false)
    (text : List Char) : readNumber (Nat.toDigits 10 n ++ c :: text) = (n, c :: text) :=
  readNumber_append n (c :: text) (by simpa using hc)

@[simp] theorem readNumber_toDigits (n : Nat) : readNumber (Nat.toDigits 10 n) = (n, []) := by
  simpa using readNumber_append n [] (by simp)

theorem hexDigit_digitChar {n : Nat} (h : n < 16) : hexDigit n.digitChar = n := by
  have hall : ∀ n < 16, hexDigit n.digitChar = n := by decide
  exact hall n h

theorem ofHex_toDigits (n : Nat) : ofHex (Nat.toDigits 16 n) = n := by
  induction n using Nat.strongRecOn with
  | ind n ih =>
    by_cases hn : n < 16
    · simp [ofHex, Nat.toDigits_of_lt_base hn, hexDigit_digitChar hn]
    · have hfront := ih (n / 16) (by omega)
      have hlast := hexDigit_digitChar (Nat.mod_lt n (by decide : 0 < 16))
      rw [Nat.toDigits_of_base_le (by decide) (by omega), ofHex, List.foldl_append]
      change 16 * ofHex (Nat.toDigits 16 (n / 16)) + hexDigit (n % 16).digitChar = n
      rw [hfront, hlast, Nat.div_add_mod]

/-- Hexadecimal digits go on up to the brace behind them. -/
theorem toDigits_ne_brace (n : Nat) : ∀ c ∈ Nat.toDigits 16 n, c ≠ '\x7d' := by
  induction n using Nat.strongRecOn with
  | ind n ih =>
    have hdigit : ∀ n < 16, n.digitChar ≠ '\x7d' := by decide
    by_cases hn : n < 16
    · simp [Nat.toDigits_of_lt_base hn, hdigit n hn]
    · rw [Nat.toDigits_of_base_le (by decide) (by omega)]
      simp only [List.mem_append, List.mem_singleton]
      rintro c (hc | rfl)
      · exact ih (n / 16) (by omega) c hc
      · exact hdigit _ (Nat.mod_lt n (by decide))

theorem readChar_escapeBy (hidden : Char → Bool) (c : Char) (text : List Char) :
    readChar (escapeBy hidden c ++ text) = some (c, text) := by
  unfold escapeBy
  split
  · rfl
  · rfl
  · rfl
  · rfl
  · rfl
  · rfl
  · rename_i hquote hbackslash _ _ _ _
    split
    · have hbrace : ∀ d ∈ Nat.toDigits 16 c.toNat, decide (d ≠ '\x7d') = true := fun d hd =>
        decide_eq_true (toDigits_ne_brace _ d hd)
      simp only [List.cons_append, List.nil_append, List.append_assoc, readChar, readEscaped,
        if_pos]
      rw [List.takeWhile_append_of_pos hbrace, List.dropWhile_append_of_pos hbrace]
      simp [ofHex_toDigits]
    · simp only [List.cons_append, List.nil_append, readChar, if_neg hquote, if_neg hbackslash]

/-- What stands between quotation marks ends at the first mark that is not escaped. -/
theorem readChars_flatMap (hidden : Char → Bool) (cs text : List Char) :
    readChars (cs.flatMap (escapeBy hidden) ++ '"' :: text) = some (cs, text) := by
  induction cs with
  | nil =>
    rw [List.flatMap_nil, List.nil_append, readChars]
    simp [readChar]
  | cons c cs ih =>
    rw [List.flatMap_cons, List.append_assoc, readChars, readChar_escapeBy]
    simp [ih]

@[simp] theorem readQuoted_append (hidden : Char → Bool) (name : String) (text : List Char) :
    readQuoted ((quoteBy hidden name).toList ++ text) = some (name, text) := by
  have hmark : (quoteBy hidden name).toList ++ text =
      "\"".toList ++ (name.toList.flatMap (escapeBy hidden) ++ '"' :: text) := by
    simp [quoteBy]
  rw [readQuoted, hmark, skip_append, Option.bind_eq_bind, Option.bind_some, readChars_flatMap]
  simp

@[simp] theorem readQuoted_quoteBy (hidden : Char → Bool) (name : String) :
    readQuoted (quoteBy hidden name).toList = some (name, []) := by
  simpa using readQuoted_append hidden name []

/-- A name is not quoted without a quotation mark. -/
@[simp] theorem readQuoted_cons {c : Char} (hc : c ≠ '"') (text : List Char) :
    readQuoted (c :: text) = none := by
  simp [readQuoted, skip, List.dropPrefix?, hc]

end SimpleLR.Text
