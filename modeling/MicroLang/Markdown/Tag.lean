import MicroLang.Markdown.Line
import MicroLang.Text.Punctuation

/-!
# Angle brackets

Text in angle brackets can be an address, which is a link to itself, or raw HTML: a tag, a comment, a
processing instruction, a declaration or a character data section.  At the start of a line raw HTML
opens a block, and the kind of the block says where it ends.
-/

namespace MicroLang.Markdown

/-- What follows the first occurrence of a mark. -/
def afterMark? (mark : Text) : Text → Option Text
  | [] => Text.after? mark []
  | b :: t => (Text.after? mark (b :: t)).orElse fun _ => afterMark? mark t

/-! ### Addresses -/

/-- The bytes of the part of a mail address before the at sign. -/
def isMailByte (b : UInt8) : Bool :=
  Text.isLetter b || Text.isDigit b || (text ".!#$%&'*+/=?^_`\x7b|\x7d~-").contains b

/-- What follows a label of a host name: at most sixty-three letters, digits and hyphens, the first
and the last of them not a hyphen. -/
def afterHostLabel? (t : Text) : Option Text :=
  let isHostByte := fun b => Text.isLetter b || Text.isDigit b || b = 45
  let label := Text.trimRight (· = 45) ((t.takeWhile isHostByte).take 63)
  match label with
  | [] => none
  | b :: _ => if b = 45 then none else some (t.drop label.length)

/-- What follows the labels of a host name that a text starts with.  The first argument bounds their
number. -/
def afterHost : Nat → Text → Text
  | 0, t => t
  | bound + 1, t =>
    match t with
    | 46 :: rest => ((afterHostLabel? rest).map (afterHost bound)).getD t
    | _ => t

/-- What follows a mail address. -/
def afterMail? (t : Text) : Option Text :=
  let user := t.takeWhile isMailByte
  match user.isEmpty, t.drop user.length with
  | false, 64 :: host => (afterHostLabel? host).map (afterHost host.length)
  | _, _ => none

/-- What follows an absolute link: a scheme of two to thirty-three bytes, a colon and anything but
angle brackets, blanks and control characters. -/
def afterLink? (t : Text) : Option Text :=
  let scheme := t.takeWhile fun b =>
    Text.isLetter b || Text.isDigit b || b = 43 || b = 45 || b = 46
  match (t.head?.map Text.isLetter).getD false, t.drop scheme.length with
  | true, 58 :: rest =>
    if 2 ≤ scheme.length && scheme.length ≤ 33 then
      some (rest.dropWhile fun b => 32 < b && b ≠ 60 && b ≠ 62)
    else none
  | _, _ => none

/-- What follows an address, from behind the opening bracket on. -/
def afterAddress? (t : Text) : Option Text :=
  match (afterMail? t).orElse fun _ => afterLink? t with
  | some (62 :: rest) => some rest
  | _ => none

/-! ### Tags -/

def isTagByte (b : UInt8) : Bool := Text.isLetter b || Text.isDigit b || b = 45

/-- What follows the value of an attribute: a quoted text, or bytes without quotes, equals signs,
angle brackets, backticks and blanks. -/
def afterValue? (t : Text) : Option Text :=
  match t with
  | 34 :: t => afterMark? [34] t
  | 39 :: t => afterMark? [39] t
  | _ =>
    let rest := t.dropWhile fun b =>
      32 < b && b ≠ 34 && b ≠ 39 && b ≠ 60 && b ≠ 61 && b ≠ 62 && b ≠ 96
    if rest.length = t.length then none else some rest

/-- What follows an attribute of a tag with the blanks in front of it. -/
def afterAttribute? (t : Text) : Option Text :=
  let name := t.dropWhile isSpacing
  let startsName := fun b => Text.isLetter b || b = 95 || b = 58
  if name.length = t.length || !(name.head?.map startsName).getD false then none
  else
    let rest := name.dropWhile fun b =>
      Text.isLetter b || Text.isDigit b || b = 95 || b = 58 || b = 46 || b = 45
    match rest.dropWhile isSpacing with
    | 61 :: value => some ((afterValue? (value.dropWhile isSpacing)).getD rest)
    | _ => some rest

/-- What follows the attributes of a tag.  The first argument bounds their number. -/
def afterAttributes : Nat → Text → Text
  | 0, t => t
  | bound + 1, t =>
    match afterAttribute? t with
    | some rest => afterAttributes bound rest
    | none => t

/-- What follows the name of a tag. -/
def afterName? (t : Text) : Option Text :=
  if (t.head?.map Text.isLetter).getD false then some (t.dropWhile isTagByte) else none

/-- What follows the blanks and line ends before the closing bracket of a tag. -/
def afterTagBlanks : Text → Text
  | 13 :: 10 :: t => afterTagBlanks t
  | b :: t => if b = 32 || b = 9 || b = 10 then afterTagBlanks t else b :: t
  | [] => []

/-- What follows an opening tag, from behind its bracket on. -/
def afterOpeningTag? (t : Text) : Option Text :=
  match (afterName? t).map fun rest => afterTagBlanks (afterAttributes rest.length rest) with
  | some (62 :: rest) => some rest
  | some (47 :: 62 :: rest) => some rest
  | _ => none

/-- What follows a closing tag, from behind its slash on. -/
def afterClosingTag? (t : Text) : Option Text :=
  match (afterName? t).map afterTagBlanks with
  | some (62 :: rest) => some rest
  | _ => none

/-- What follows raw HTML, from behind its opening bracket on. -/
def afterRaw? (t : Text) : Option Text :=
  match t with
  | 47 :: tag => afterClosingTag? tag
  | 33 :: 45 :: 45 :: 62 :: rest => some rest
  | 33 :: 45 :: 45 :: 45 :: 62 :: rest => some rest
  | 33 :: 45 :: 45 :: rest => afterMark? (text "-->") rest
  | 63 :: _ => afterMark? (text "?>") t
  | 33 :: b :: _ =>
    if 65 ≤ b && b ≤ 90 then afterMark? [62] t
    else (Text.after? (text "![CDATA[") t).bind fun _ => afterMark? (text "]]>") t
  | _ => afterOpeningTag? t

/-! ### Blocks of raw HTML -/

/-- Where a block of raw HTML ends. -/
inductive RawEnd where
  /-- With a line that closes an element of raw text. -/
  | closingTag
  /-- With a line that holds a mark. -/
  | mark (m : Text)
  /-- Before a blank line. -/
  | blankLine
deriving DecidableEq, Repr

/-- The elements whose content is raw text. -/
def rawElements : List Text := [text "script", text "pre", text "style", text "textarea"]

/-- The elements whose tags open a block wherever they start a line. -/
def blockElements : List Text :=
  ["address", "article", "aside", "base", "basefont", "blockquote", "body", "caption", "center", "col",
    "colgroup", "dd", "details", "dialog", "dir", "div", "dl", "dt", "fieldset", "figcaption", "figure",
    "footer", "form", "frame", "frameset", "h1", "h2", "h3", "h4", "h5", "h6", "head", "header", "hr",
    "html", "iframe", "legend", "li", "link", "main", "menu", "menuitem", "meta", "nav", "noframes",
    "ol", "optgroup", "option", "p", "param", "search", "section", "summary", "table", "tbody", "td",
    "tfoot", "th", "thead", "title", "tr", "track", "ul"].map Text.ofString

/-- The text with its ASCII letters in lower case. -/
def lowerAscii (t : Text) : Text := t.map fun b => if 65 ≤ b && b ≤ 90 then b + 32 else b

/-- The name that a text starts with, in lower case. -/
def elementName (t : Text) : Text := lowerAscii (t.takeWhile isTagByte)

/-- Whether nothing but a line end is left. -/
def isLineEnd (t : Text) : Bool := t.isEmpty || t = [10] || t = [13, 10]

/-- Whether a line closes an element of raw text. -/
def closesRawElement (line : Text) : Bool :=
  let lower := lowerAscii line
  rawElements.any fun name => (afterMark? (text "</" ++ name ++ [62]) lower).isSome

/-- Whether the block ends with a line. -/
def RawEnd.isMet (e : RawEnd) (line : Text) : Bool :=
  match e with
  | .closingTag => closesRawElement line
  | .mark m => (afterMark? m line).isSome
  | .blankLine => false

/-- The name of the complete tag that is all a line holds, from behind the opening bracket on, and
whether it is a closing tag with attributes. -/
def loneTag? (t : Text) : Option (Text × Bool) :=
  let isClosing := t.head? = some 47
  let name := if isClosing then (t.drop 1).dropWhile (· = 32) else t
  match afterName? name with
  | none => none
  | some rest =>
    let tail := afterAttributes rest.length rest
    let ended := match tail.dropWhile (· = 32) with
      | 62 :: t => isLineEnd (t.dropWhile (· = 32))
      | 47 :: 62 :: t => isLineEnd (t.dropWhile (· = 32))
      | _ => false
    let attributed := isClosing && (t.drop 1).head? ≠ some 32 && tail.length ≠ rest.length
    if ended then some (elementName name, attributed) else none

/-- Whether a lone tag opens a block.  Tags of block elements always do; a closing tag with attributes,
a tag of a raw text element and a tag that would interrupt a paragraph do not. -/
def opensLone (interrupts : Bool) (tag : Text × Bool) : Bool :=
  blockElements.contains tag.1
    || !(interrupts || tag.2 || [text "script", text "style", text "pre"].contains tag.1)

/-- Whether a text, from behind an opening bracket on, starts with a tag of a block element. -/
def startsBlockElement (t : Text) : Bool :=
  let name := match t with
    | 47 :: rest => rest.dropWhile (· = 32)
    | _ => t
  match afterName? name with
  | none => false
  | some rest =>
    blockElements.contains (elementName name)
      && (isLineEnd rest || rest.head? = some 32 || rest.head? = some 62 || rest.take 2 = [47, 62])

/-- Whether a text, from behind an opening bracket on, starts with a tag of a raw text element. -/
def startsRawElement (t : Text) : Bool :=
  let rest := t.dropWhile isTagByte
  let separated := match rest with
    | [] => true
    | b :: _ => isSpacing b || b = 12 || b = 62 || rest.take 2 = [47, 62]
  rawElements.contains (elementName t) && separated

/-- The end of the block of raw HTML that a line opens.  A tag of any other element opens one only if
it stands alone, and never interrupts a paragraph. -/
def rawStart? (interrupts : Bool) (line : Text) : Option RawEnd :=
  match line.dropWhile (· = 32) with
  | 60 :: t =>
    if startsRawElement t then some .closingTag
    else if (Text.after? (text "!--") t).isSome then some (.mark (text "-->"))
    else if t.head? = some 63 then some (.mark (text "?>"))
    else if t.head? = some 33 && ((t.drop 1).head?.map fun b => 65 ≤ b && b ≤ 90).getD false then
      some (.mark [62])
    else if (Text.after? (text "![CDATA[") t).isSome then some (.mark (text "]]>"))
    else if startsBlockElement t || ((loneTag? t).map (opensLone interrupts)).getD false then
      some .blankLine
    else none
  | _ => none

end MicroLang.Markdown
