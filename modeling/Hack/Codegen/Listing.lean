/-
What a person reads about compiled code: the listing, which shows every source line with the code
made from it and the address of each instruction, and the printed form of an error.
-/
import Hack.Codegen.Code
namespace Hack.Codegen

open Text Vm

/-! ## Listing -/

/-- How wide the rules above and below a listing are. -/
def ruleWidth : Nat := 64

def dashes (n : Nat) : String :=
  String.ofList (List.replicate n '-')

/-- The upper rule shows the path; its width counts bytes. -/
def header (path : String) : String :=
  let title := "[" ++ path ++ "]"
  dashes 8 ++ "+------" ++ title ++ dashes (ruleWidth - (title.utf8ByteSize + 15))

def footer : String :=
  dashes 8 ++ "+" ++ dashes (ruleWidth - 9)

/-- The left margin of a row without an address. -/
def margin : String :=
  String.ofList (List.replicate 8 ' ')

def sourceRow (line : SourceLine) : String :=
  margin ++ "| " ++ padLeft 4 (toString (line.index + 1)) ++ ": " ++
    Colour.magenta.paint (String.ofList (trim line.raw.toList))

/-- The row of an output line, if the next instruction has address `pc`. -/
def codeRow (pc : Nat) (l : Line) : String :=
  if l.isCode then "[" ++ hex4 pc ++ "]  |       " ++ l.painted else margin ++ "|     " ++ l.painted

/-- The rows of output lines and the address behind them. -/
def codeRows (pc : Nat) : List Line → List String × Nat
  | [] => ([], pc)
  | l :: rest =>
    let (rows, stop) := codeRows (if l.isCode then pc + 1 else pc) rest
    (codeRow pc l :: rows, stop)

/-- The rows of spans, `rows` being those before. -/
def spanRows (output : Array Line) (rows : Array String) (pc : Nat) : List Span → Array String
  | [] => rows
  | span :: rest =>
    let (code, stop) := codeRows pc (output.extract span.start span.stop).toList
    spanRows output ((rows.push (sourceRow span.line)).appendList code) stop rest

def listing (unit : Source) (code : Code) : List String :=
  ((spanRows code.output #[header unit.path] 0 code.spans).push footer).toList

/-! ## Errors -/

/-- An error's text with the line that caused it. -/
def Diagnosis.rows (d : Diagnosis) : List String :=
  let number := toString (d.index + 1)
  let bar := "      " ++ Colour.blue.paint "|"
  [errorTag ++ ": " ++ d.cause.message,
    "     " ++ Colour.blue.paint "-->" ++ " " ++ underlined (d.file ++ ":" ++ number),
    bar,
    " " ++ Colour.blue.paint (padLeft 4 number ++ " |") ++ " " ++ d.raw,
    bar]

end Hack.Codegen
