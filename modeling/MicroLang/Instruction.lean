import MicroLang.Text

/-!
# Instructions

The target is a list of instructions, each a mnemonic with its operands.  Seven opcodes have a mnemonic;
codes beyond them are representable and are shown by their number.
-/

namespace MicroLang

inductive Opcode where
  | declare | add | sub | store | read | write | halt
  | unnamed (code : UInt8)
deriving DecidableEq, Repr

namespace Opcode

/-- The opcodes that have a mnemonic, in the order of their codes. -/
def named : List Opcode := [.declare, .add, .sub, .store, .read, .write, .halt]

/-- The opcode with the given code. -/
def ofCode (code : UInt8) : Opcode := named.getD code.toNat (.unnamed code)

def code : Opcode → Nat
  | .declare => 0
  | .add => 1
  | .sub => 2
  | .store => 3
  | .read => 4
  | .write => 5
  | .halt => 6
  | .unnamed code => code.toNat

/-- The mnemonic as it stands in listings. -/
def mnemonic : Opcode → Text
  | .declare => text "Declare"
  | .add => text "ADD"
  | .sub => text "SUB"
  | .store => text "Store"
  | .read => text "Read"
  | .write => text "Write"
  | .halt => text "Halt"
  | .unnamed code => text "Opcode(" ++ Text.ofNat code.toNat ++ text ")"

/-- How many operands an instruction takes. -/
def operandCount : Opcode → Nat
  | .add | .sub => 3
  | .declare | .store | .read | .write => 2
  | .halt | .unnamed _ => 0

/-- The opcode with the given mnemonic. -/
def ofMnemonic? (word : Text) : Option Opcode := named.find? fun op => op.mnemonic = word

theorem ofMnemonic?_mnemonic {op : Opcode} (h : op ∈ named) :
    ofMnemonic? op.mnemonic = some op := by
  simp only [named, List.mem_cons, List.not_mem_nil, or_false] at h
  rcases h with h | h | h | h | h | h | h <;> subst h <;> decide

end Opcode

/-- A mnemonic with its operands. -/
structure Instruction where
  opcode : Opcode
  operands : List Text := []
deriving DecidableEq, Repr

namespace Instruction

/-- The only type of the language, the second operand of `Declare`, `Read` and `Write`. -/
def integerType : Text := MicroLang.text "Integer"

/-- The mnemonic and the operands, with a comma and a blank between operands. -/
def text (i : Instruction) : Text :=
  if i.operands.isEmpty then i.opcode.mnemonic
  else i.opcode.mnemonic ++ MicroLang.text " " ++ (MicroLang.text ", ").intercalate i.operands

/-- One instruction per line. -/
def listing (is : List Instruction) : Text := is.flatMap fun i => i.text ++ MicroLang.text "\n"

theorem listing_append (is js : List Instruction) :
    listing (is ++ js) = listing is ++ listing js := by
  simp only [listing, List.flatMap_append]

end Instruction

end MicroLang
