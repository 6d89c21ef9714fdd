import MicroLang.Text.Numeral
import MicroLang.Yaml.Node

/-!
# Values of YAML scalars

A plain scalar without a tag is a null or a truth value if it is spelled like one, and a string
otherwise as far as settings are concerned.  A tag of the standard types must fit the spelling; with any
other tag a scalar is a string.
-/

namespace MicroLang.Yaml

inductive Value where
  | null
  | boolean (b : Bool) (spelling : Text)
  | string (t : Text)
  /-- A number or a time, of which only the spelling is kept. -/
  | number (spelling : Text)
deriving DecidableEq, Repr

def isOneOf (words : List String) (t : Text) : Bool := words.any fun w => text w = t

def isNull (t : Text) : Bool := isOneOf ["", "~", "null", "Null", "NULL"] t

def truth? (t : Text) : Option Bool :=
  if isOneOf ["true", "True", "TRUE"] t then some true
  else if isOneOf ["false", "False", "FALSE"] t then some false
  else none

namespace Value

/-- The text of a value that is no null. -/
def text? : Value → Option Text
  | .null => none
  | .boolean _ t => some t
  | .string t => some t
  | .number t => some t

/-- The truth value of a value.  Some strings are taken for one. -/
def bool? : Value → Option Bool
  | .boolean b _ => some b
  | .string t =>
    if isOneOf ["y", "Y", "yes", "Yes", "YES", "on", "On", "ON"] t then some true
    else if isOneOf ["n", "N", "no", "No", "NO", "off", "Off", "OFF"] t then some false
    else none
  | _ => none

end Value

/-! ### Numbers and times -/

/-- A whole number of 64 bits.  A leading zero means base eight unless a letter names another base. -/
def isInteger (t : Text) : Bool :=
  let t := t.filter (· ≠ 95)
  let digits := Text.unsigned t
  let limit :=
    if t.head? = some 45 then Nat.pow 2 63 + 1
    else if t.head? = some 43 then Nat.pow 2 63
    else Nat.pow 2 64
  let inBase := fun base (ds : Text) =>
    ds.all (fun b => (Text.hexValue? b).any (· < base)) && Text.numeral base ds < limit
  match digits with
  | [] => false
  | [48] => true
  | 48 :: letter :: rest =>
    let named := fun base => !rest.isEmpty && inBase base rest
    if letter = 120 || letter = 88 then named 16
    else if letter = 111 || letter = 79 then named 8
    else if letter = 98 || letter = 66 then named 2
    else inBase 8 (letter :: rest)
  | ds => inBase 10 ds

/-- A decimal number of double precision, or one of the special numbers. -/
def isFloat (t : Text) : Bool :=
  let bare := Text.unsigned t
  let parts := Text.DecimalParts.ofText (bare.filter (· ≠ 95))
  let exponent := Text.unsigned parts.exponent
  isOneOf [".inf", ".Inf", ".INF"] bare || isOneOf [".nan", ".NaN", ".NAN"] t
    || (bare.head? ≠ some 95 && (parts.whole ++ parts.fraction ++ exponent).all Text.isDigit
      && !(parts.whole.isEmpty && parts.fraction.isEmpty)
      && (!parts.hasExponent || !exponent.isEmpty)
      && parts.isRepresentable)

/-- One or two digits whose number lies between two bounds. -/
def isField (low high : Nat) (t : Text) : Bool :=
  (t.length = 1 || t.length = 2) && t.all Text.isDigit && low ≤ Text.toNat t && Text.toNat t ≤ high

def isDate (t : Text) : Bool :=
  match Text.split 45 t with
  | [y, m, d] =>
    y.length = 4 && y.all Text.isDigit && isField 1 12 m
      && isField 1 (Text.daysIn (Text.toNat y) (Text.toNat m)) d
  | _ => false

def isClock (t : Text) : Bool :=
  let whole := t.takeWhile (· ≠ 46)
  let fraction := t.drop whole.length
  (fraction.isEmpty || (2 ≤ fraction.length && (fraction.drop 1).all Text.isDigit))
    && match Text.split 58 whole with
      | [h, m, s] => isField 0 23 h && isField 0 59 m && isField 0 59 s
      | _ => false

/-- An offset from universal time. -/
def isZone (t : Text) : Bool :=
  match t with
  | [90] => true
  | sign :: offset =>
    (sign = 43 || sign = 45) && offset.length = 5 && match Text.split 58 offset with
      | [h, m] => h.length = 2 && isField 0 24 h && isField 0 60 m
      | _ => false
  | [] => false

/-- A date, with a blank and a time of day, or with the letter for a time and an offset. -/
def isTime (t : Text) : Bool :=
  let date := t.takeWhile fun b => Text.isDigit b || b = 45
  let clock := (t.drop (date.length + 1)).takeWhile fun b => Text.isDigit b || b = 58 || b = 46
  let zone := t.drop (date.length + 1 + clock.length)
  isDate date && match (t.drop date.length).head? with
    | none => true
    | some b =>
      isClock clock && (if b = 32 then zone.isEmpty else (b = 84 || b = 116) && isZone zone)

/-! ### Bytes in base 64 -/

/-- The number of a digit in base 64. -/
def sextet? (b : UInt8) : Option Nat :=
  if 65 ≤ b && b ≤ 90 then some (b.toNat - 65)
  else if 97 ≤ b && b ≤ 122 then some (b.toNat - 71)
  else if Text.isDigit b then some (b.toNat + 4)
  else if b = 43 then some 62
  else if b = 47 then some 63
  else none

/-- The bytes of digits in base 64, four at a time; the last four may have one or two fill bytes. -/
def ofBase64? : Text → Option Text
  | [] => some []
  | [a, b, 61, 61] =>
    match sextet? a, sextet? b with
    | some a, some b => some [UInt8.ofNat (a * 4 + b / 16)]
    | _, _ => none
  | [a, b, c, 61] =>
    match sextet? a, sextet? b, sextet? c with
    | some a, some b, some c =>
      some [UInt8.ofNat (a * 4 + b / 16), UInt8.ofNat (b % 16 * 16 + c / 4)]
    | _, _, _ => none
  | a :: b :: c :: d :: t =>
    match sextet? a, sextet? b, sextet? c, sextet? d, ofBase64? t with
    | some a, some b, some c, some d, some rest =>
      some (UInt8.ofNat (a * 4 + b / 16) :: UInt8.ofNat (b % 16 * 16 + c / 4)
        :: UInt8.ofNat (c % 4 * 64 + d) :: rest)
    | _, _, _, _, _ => none
  | _ => none

/-! ### Scalars -/

/-- The value of a scalar without a tag. -/
def untagged (isPlain : Bool) (t : Text) : Value :=
  if !isPlain then .string t
  else if isNull t then .null
  else match truth? t with
    | some b => .boolean b t
    | none => .string t

/-- The value of a scalar with a tag; nothing if the tag does not fit. -/
def taggedValue? (tag t : Text) : Option Value :=
  if tag = text "!!null" then if isNull t then some .null else none
  else if tag = text "!!bool" then (truth? t).map fun b => .boolean b t
  else if tag = text "!!int" then if isInteger t then some (.number t) else none
  else if tag = text "!!float" then if isInteger t || isFloat t then some (.number t) else none
  else if tag = text "!!timestamp" then if isTime t then some (.number t) else none
  else if tag = text "!!binary" then
    (ofBase64? (t.filter fun b => b ≠ 10 && b ≠ 13)).map Value.string
  else some (.string t)

/-- The value of a scalar, or of the scalar that an alias stands for. -/
def Node.value? : Node → Option Value
  | .scalar (some tag) _ t => taggedValue? tag t
  | .scalar none isPlain t => some (untagged isPlain t)
  | .alias _ (some target) => target.value?
  | _ => none

end MicroLang.Yaml
