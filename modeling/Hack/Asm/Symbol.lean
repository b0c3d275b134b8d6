/-
Symbols of the assembly language: which texts are symbols, and which symbols stand for fixed
addresses. The five pointer names come before the register names in the table, so that an address
is named after its pointer where it has one.
-/
namespace Hack.Symbol

/-! ## Shape -/

def isSymbolChar (c : Char) : Bool :=
  c.isAlphanum || c == '_' || c == '.' || c == '$' || c == ':'

/-- A symbol is a non-empty run of ASCII letters, digits and `_ . $ :` that starts with no digit. -/
def isSymbol : List Char → Bool
  | [] => false
  | c :: rest => !c.isDigit && isSymbolChar c && rest.all isSymbolChar

/-! ## Fixed addresses -/

/-- The cell with the address of the first free stack slot. -/
def sp : String := "SP"

/-- The cells with the base addresses of the four segments that move. -/
def lcl : String := "LCL"
def arg : String := "ARG"
def this : String := "THIS"
def that : String := "THAT"

/-- Where the screen's memory map starts. -/
def screenBase : UInt16 := 0x4000

/-- The keyboard's cell. -/
def keyboard : UInt16 := 0x6000

/-- The names `R0` to `R15` of the first sixteen cells. -/
def registers : List (String × UInt16) :=
  [("R0", 0), ("R1", 1), ("R2", 2), ("R3", 3), ("R4", 4), ("R5", 5), ("R6", 6), ("R7", 7),
    ("R8", 8), ("R9", 9), ("R10", 10), ("R11", 11), ("R12", 12), ("R13", 13), ("R14", 14),
    ("R15", 15)]

def predefinedTable : List (String × UInt16) :=
  [(sp, 0), (lcl, 1), (arg, 2), (this, 3), (that, 4)] ++ registers ++
    [("SCREEN", screenBase), ("KBD", keyboard)]

/-- The fixed address of a name. -/
def predefined? (name : String) : Option UInt16 :=
  predefinedTable.lookup name

/-- The first name of a fixed address. -/
def predefinedName? (addr : UInt16) : Option String :=
  (predefinedTable.find? fun entry => entry.2 = addr).map (·.1)

/-- The name of an address stands for that address. -/
theorem predefined?_of_predefinedName? {addr : UInt16} {name : String}
    (h : predefinedName? addr = some name) : predefined? name = some addr := by
  have table : ∀ entry ∈ predefinedTable, predefined? entry.1 = some entry.2 := by decide
  obtain ⟨entry, hfind, rfl⟩ := Option.map_eq_some_iff.1 h
  have haddr : entry.2 = addr := by simpa using List.find?_some hfind
  rw [table entry (List.mem_of_find?_eq_some hfind), haddr]

end Hack.Symbol
