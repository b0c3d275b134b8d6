/-
Marked text: a YAML stream as a list of characters that know where they stand. Line ends are made
uniform before the marks are put on.
-/
namespace Hack.Yaml

/-! ## Characters -/

/-- The characters a stream may hold. -/
def isAllowed (c : Char) : Bool :=
  c = '\t' || c = '\n' || c = '\r' || (0x20 ≤ c.toNat && c.toNat ≤ 0x7E) || c.toNat = 0x85 ||
    (0xA0 ≤ c.toNat && c.toNat ≤ 0xFFFD) || 0x10000 ≤ c.toNat

def isBreak (c : Char) : Bool :=
  c = '\n' || c = '\u2028' || c = '\u2029'

def isSpace (c : Char) : Bool :=
  c = ' ' || c = '\t'

/-- Writes every line end of one line feed, one carriage return, both or a next-line character as
one line feed. -/
def unifyBreaks : List Char → List Char
  | '\r' :: '\n' :: rest => '\n' :: unifyBreaks rest
  | c :: rest => (if c = '\r' ∨ c.toNat = 0x85 then '\n' else c) :: unifyBreaks rest
  | [] => []

/-! ## Places -/

structure Place where
  line : Nat
  column : Nat
  /-- How many bytes of UTF-8 stand before. -/
  index : Nat

/-- The place behind a character. -/
def Place.after (p : Place) (c : Char) : Place :=
  let index := p.index + c.utf8Size
  if isBreak c then ⟨p.line + 1, 0, index⟩ else ⟨p.line, p.column + 1, index⟩

/-- A character and its place. -/
structure Mark where
  char : Char
  place : Place

abbrev Marks := List Mark

def markFrom (p : Place) : List Char → Marks
  | [] => []
  | c :: rest => ⟨c, p⟩ :: markFrom (p.after c) rest

/-- The marked text of a stream, unless it holds a character that none may hold. -/
def mark? (s : List Char) : Option Marks :=
  if s.all isAllowed then some (markFrom ⟨0, 0, 0⟩ (unifyBreaks s)) else none

/-! ## Looking ahead -/

/-- Whether a blank, a line end or the end of the stream comes next. -/
def atGap : Marks → Bool
  | [] => true
  | m :: _ => isSpace m.char || isBreak m.char

def atChar (c : Char) (s : Marks) : Bool :=
  s.head?.any fun m => m.char = c

/-- Whether a line starts with three times the given character and then a gap. -/
def atTriple (c : Char) : Marks → Bool
  | m₁ :: m₂ :: m₃ :: rest =>
    m₁.place.column = 0 && m₁.char = c && m₂.char = c && m₃.char = c && atGap rest
  | _ => false

/-- Whether a document's start or end mark comes next. -/
def atDocumentMark (s : Marks) : Bool :=
  atTriple '-' s || atTriple '.' s

def text (s : Marks) : List Char :=
  s.map (·.char)

end Hack.Yaml
