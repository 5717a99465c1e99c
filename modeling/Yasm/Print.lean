import Yasm.Bytecode
import Yasm.Symrec

/-! The debug dump of bytecode.c and symrec.c, as a list of pieces: the text of one
`fprintf`, or a call of a printer outside this code at the indent current at the call. -/

namespace Yasm

def pad (indent : Nat) : String := "".pushn ' ' indent

def hexDigits (n : Nat) : String := String.mk (Nat.toDigits 16 n)

inductive PrintOut where
  | text (s : String)
  | exprPrint (p : Word)
  | sectionPrint (p : Word) (indent : Nat)
  | archPrint (bc : Bytecode) (indent : Nat)
  | ofDataPrint (vis : SymVisibility) (data : Option Nat) (indent : Nat)

def Dataval.print (indent : Nat) : Dataval → List PrintOut
  | .empty => [.text (pad indent ++ "Empty\n")]
  | .expr expn => [.text (pad indent ++ "Expr="), .exprPrint (.expr expn), .text "\n"]
  | .string strVal => [.text (pad indent ++ "String=" ++ strVal ++ "\n")]

def dvsPrint (indent : Nat) (head : List Dataval) : List PrintOut :=
  head.flatMap (Dataval.print indent)

/-- The `switch` of `bc_print`. A type at or above `type_max` is printed as unknown and
the dump goes on. -/
def BcContents.print (arch : ArchBc) (indent : Nat) (bc : Bytecode) :
    BcContents → List PrintOut
  | .empty => [.text (pad indent ++ "_Empty_\n")]
  | .data datahead size =>
    [.text (pad indent ++ "_Data_\n"),
      .text (pad (indent + 1) ++ "Final Element Size=" ++ toString size.toNat ++ "\n"),
      .text (pad (indent + 1) ++ "Elements:\n")] ++ dvsPrint (indent + 2) datahead
  | .reserve numitems itemsize =>
    [.text (pad indent ++ "_Reserve_\n"), .text (pad indent ++ "Num Items="),
      .exprPrint (.expr numitems),
      .text ("\n" ++ pad indent ++ "Item Size=" ++ toString itemsize.toNat ++ "\n")]
  | .arch type .. =>
    if type < arch.typeMax then [.archPrint bc indent]
    else [.text (pad indent ++ "_Unknown_\n")]

def Bytecode.printCommon (indent : Nat) (bc : Bytecode) : List PrintOut :=
  .text (pad indent ++ "Multiple=") ::
    (match bc.multiple with
      | none => .text "nil (1)"
      | some e => .exprPrint (.expr e)) ::
    [.text ("\n" ++ pad indent ++ "Length=" ++ toString bc.len ++ "\n"),
      .text (pad indent ++ "Filename=\"" ++ bc.filename.getD "<UNKNOWN>" ++
        "\" Line Number=" ++ toString bc.lineno ++ "\n"),
      .text (pad indent ++ "Offset=" ++ hexDigits bc.offset ++ "\n")]

def bcPrint (arch : ArchBc) (indent : Nat) (bc : Bytecode) : List PrintOut :=
  bc.contents.print arch indent bc ++ bc.printCommon indent

def bcsPrint (arch : ArchBc) (indent : Nat) (head : List Bytecode) : List PrintOut :=
  head.flatMap fun bc => .text (pad indent ++ "Next Bytecode:\n") :: bcPrint arch (indent + 1) bc

def SymStatus.text (s : SymStatus) : String :=
  if s = {} then "None\n"
  else (if s.used then "Used," else "") ++ (if s.defined then "Defined," else "") ++
    (if s.valued then "Valued," else "") ++ (if s.notInTable then "Not in Table," else "") ++
    "\n"

def SymVisibility.text (v : SymVisibility) : String :=
  if v = symLocal then "Local\n"
  else (if v.global then "Global," else "") ++ (if v.common then "Common," else "") ++
    (if v.external then "Extern," else "") ++ "\n"

def Symrec.printKind (arch : ArchBc) (bcAt : Word → Bytecode) (indent : Nat) (sym : Symrec) :
    List PrintOut :=
  match sym.type with
  | .unknown => [.text (pad indent ++ "-Unknown (Common/Extern)-\n")]
  | .equ =>
    [.text (pad indent ++ "_EQU_\n"), .text (pad indent ++ "Expn="), .exprPrint sym.value.word0,
      .text "\n"]
  | .label =>
    .text (pad indent ++ "_Label_\n" ++ pad indent ++ "Section:\n") ::
      .sectionPrint sym.value.word0 (indent + 1) ::
      match sym.value.word1 with
      | .null => [.text (pad indent ++ "First bytecode\n")]
      | w => .text (pad indent ++ "Preceding bytecode:\n") :: bcPrint arch (indent + 1) (bcAt w)

/-- `symrec_print`. Backend data is printed for the GLOBAL bit and for the COMMON bit
only. -/
def symrecPrint (arch : ArchBc) (bcAt : Word → Bytecode) (indent : Nat) (sym : Symrec) :
    List PrintOut :=
  sym.printKind arch bcAt indent ++
    [.text (pad indent ++ "Status=" ++ sym.status.text),
      .text (pad indent ++ "Visibility=" ++ sym.visibility.text)] ++
    (if sym.visibility.global then
      [.text (pad indent ++ "Global object format-specific data:\n"),
        .ofDataPrint symGlobal sym.ofDataVisG (indent + 1)]
    else []) ++
    (if sym.visibility.common then
      [.text (pad indent ++ "Common/Extern object format-specific data:\n"),
        .ofDataPrint symCommon sym.ofDataVisCe (indent + 1)]
    else []) ++
    [.text (pad indent ++ "Filename=\"" ++ sym.filename.getD "(NULL)" ++ "\" Line Number=" ++
      toString sym.line ++ "\n")]

def symrecPrintWrapper (arch : ArchBc) (bcAt : Word → Bytecode) (indent : Nat) (sym : Symrec)
    (out : List PrintOut) : Bool × List PrintOut :=
  (true, out ++ .text (pad indent ++ "Symbol \x60" ++ sym.name ++ "\x27\n") ::
    symrecPrint arch bcAt (indent + 1) sym)

def symrecPrintAll (arch : ArchBc) (bcAt : Word → Bytecode) (indent : Nat)
    (order : List Symrec) : List PrintOut :=
  (symrecTraverse (symrecPrintWrapper arch bcAt indent) order []).2

end Yasm
