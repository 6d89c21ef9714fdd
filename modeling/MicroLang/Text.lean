/-!
# Byte strings

Source code, names, messages and file contents are all byte strings.  Columns and offsets count
bytes, and bytes that belong to no UTF-8 sequence have to survive from input to output, so the
carrier is a list of bytes and not a string of characters.  This module holds the carrier, the
conversion from string literals, decimal numerals, and the few list operations that every other
module uses: cutting at a separator byte and trimming at either end.
-/

namespace MicroLang

/-- A byte string. -/
abbrev Text := List UInt8

namespace Text

/-- The UTF-8 bytes of a string. -/
def ofString (s : String) : Text := s.toList.flatMap String.utf8EncodeChar

/-! ### Numerals -/

/-- The ASCII digit of `d`, meant for `d < 10`. -/
def digit (d : Nat) : UInt8 := UInt8.ofNat (48 + d)

def isDigit (b : UInt8) : Bool := 48 ≤ b && b ≤ 57

def isLetter (b : UInt8) : Bool := (97 ≤ b && b ≤ 122) || (65 ≤ b && b ≤ 90)

/-- Decimal numeral without leading zeros. -/
def ofNat (n : Nat) : Text := (Nat.toDigits 10 n).map fun c => UInt8.ofNat c.toNat

/-- Decimal numeral of an integer, with a minus sign in front of a negative one. -/
def ofInt : Int → Text
  | .ofNat n => ofNat n
  | .negSucc n => 45 :: ofNat (n + 1)

/-- The number that a run of digits denotes in base ten. -/
def toNat (t : Text) : Nat := t.foldl (fun n b => 10 * n + (b.toNat - 48)) 0

/-! ### Cutting and trimming -/

/-- The pieces between the occurrences of a separator byte; one more than there are separators. -/
def split (sep : UInt8) : Text → List Text
  | [] => [[]]
  | b :: t =>
    if b = sep then [] :: split sep t
    else match split sep t with
      | [] => [[b]]
      | piece :: rest => (b :: piece) :: rest

/-- Drops the longest suffix on which `p` holds throughout. -/
def trimRight (p : UInt8 → Bool) (t : Text) : Text := (t.reverse.dropWhile p).reverse

/-- Drops the longest stretch on which `p` holds at either end. -/
def trim (p : UInt8 → Bool) (t : Text) : Text := trimRight p (t.dropWhile p)

/-- What follows `start` in `t`, if `t` begins with it. -/
def after? : Text → Text → Option Text
  | [], t => some t
  | _ :: _, [] => none
  | a :: start, b :: t => if a = b then after? start t else none

theorem after?_eq_some_iff (start t rest : Text) :
    after? start t = some rest ↔ t = start ++ rest := by
  induction start generalizing t with
  | nil => simp only [after?, Option.some.injEq, List.nil_append]
  | cons a start ih =>
    cases t with
    | nil => simp only [after?, reduceCtorEq, List.cons_append, List.nil_eq, List.cons_ne_nil]
    | cons b t =>
      by_cases h : a = b
      · subst h
        simp only [after?, if_true, ih, List.cons_append, List.cons.injEq, true_and]
      · simp only [after?, if_neg h, reduceCtorEq, List.cons_append, List.cons.injEq, false_iff,
          not_and]
        intro hba
        exact absurd hba.symm h

end Text

/-- The bytes of a string literal. -/
abbrev text (s : String) : Text := Text.ofString s

end MicroLang
