/-
Scalars: values written as text. A plain scalar runs over lines until a mark ends it, a quoted one
until its quote, a block scalar while lines keep its indentation. Line ends inside are folded: one
becomes a blank, and of several the first is dropped.
-/
import Hack.Yaml.Mark
namespace Hack.Yaml

/-- How a scalar was written, as far as its meaning depends on it. -/
inductive Style
  | plain | quoted | literal | folded
  deriving DecidableEq, Repr

/-! ## Gaps between words -/

/-- Blanks and line ends between two words. -/
structure Gap where
  /-- The blanks before the first line end, first one last. -/
  blanks : List Char := []
  /-- The line ends, first one last. -/
  breaks : List Char := []
  /-- Whether a line end was met, or skipped by an escape before the gap. -/
  broken : Bool := false

/-- Reads a gap. If `indent` is given, no tab may stand before that column of a line. -/
def Gap.read (indent : Option Nat) (g : Gap) : Marks → Option (Gap × Marks)
  | [] => some (g, [])
  | m :: rest =>
    if isSpace m.char then
      if g.broken && m.char = '\t' && indent.any (m.place.column < ·) then none
      else if g.broken then g.read indent rest
      else ({ g with blanks := m.char :: g.blanks } : Gap).read indent rest
    else if isBreak m.char then
      ({ blanks := [], breaks := m.char :: g.breaks, broken := true } : Gap).read indent rest
    else some (g, m :: rest)

/-- What a gap stands for between two words. -/
def Gap.fold (g : Gap) : List Char :=
  match g.breaks.reverse with
  | [] => g.blanks.reverse
  | first :: rest => if first = '\n' then (if rest = [] then [' '] else rest) else first :: rest

/-! ## Plain scalars -/

def flowMarks : List Char := [',', '[', ']', '{', '}']

/-- The rest of a word. In a flow collection a colon may not stand before a mark of the
collection. -/
def plainWord (flow : Bool) : Marks → Option (List Char × Marks)
  | [] => some ([], [])
  | m :: rest =>
    if isSpace m.char || isBreak m.char then some ([], m :: rest)
    else if flow && m.char = ':' && rest.head?.any fun n => n.char = '?' || n.char ∈ flowMarks then
      none
    else if m.char = ':' && atGap rest || flow && m.char ∈ flowMarks then some ([], m :: rest)
    else (plainWord flow rest).map fun p => (m.char :: p.1, p.2)

/-- The column of the next character. -/
def column? (s : Marks) : Option Nat :=
  s.head?.map (·.place.column)

/-- Reads words and gaps, with one unit of fuel to a word; `broken` says whether the gap before the
first word went over a line end. The answer says so of the gap after the last. -/
def plainFrom (flow : Bool) (indent : Nat) (broken : Bool) :
    Nat → Marks → Option (List Char × Bool × Marks)
  | 0, _ => none
  | fuel + 1, s =>
    if atDocumentMark s || atChar '#' s then some ([], broken, s)
    else do
      let (word, rest) ← plainWord flow s
      let broken := broken && word.isEmpty
      if !atGap rest || rest.isEmpty then some (word, broken, rest)
      else
        let (gap, rest) ← ({ broken := broken } : Gap).read (some indent) rest
        if !flow && (column? rest).any (· < indent) then some (word, gap.broken, rest)
        else
          let (more, broken, rest) ← plainFrom flow indent gap.broken fuel rest
          some (if more.isEmpty then word else word ++ gap.fold ++ more, broken, rest)

/-- A plain scalar, whether it ended behind a line end, and the text behind it. Here and below
`fuel` is more than the length of the text. -/
def plain (flow : Bool) (indent fuel : Nat) (s : Marks) : Option (List Char × Bool × Marks) :=
  plainFrom flow indent false fuel s

/-! ## Quoted scalars -/

/-- The characters that a backslash and one letter stand for. -/
def escapes : List (Char × Char) :=
  [('0', '\x00'), ('a', '\x07'), ('b', '\x08'), ('t', '\t'), ('\t', '\t'), ('n', '\n'),
    ('v', '\x0b'), ('f', '\x0c'), ('r', '\r'), ('e', '\x1b'), (' ', ' '), ('"', '"'), ('/', '/'),
    ('\\', '\\'), ('N', '\u0085'), ('_', '\u00A0'), ('L', '\u2028'), ('P', '\u2029')]

/-- How many hexadecimal digits follow a letter that starts a numeric escape. -/
def escapeDigits : List (Char × Nat) :=
  [('x', 2), ('u', 4), ('U', 8)]

def hexDigit? (c : Char) : Option Nat :=
  if c.isDigit then some (c.toNat - '0'.toNat)
  else if 'a' ≤ c ∧ c ≤ 'f' then some (c.toNat - 'a'.toNat + 10)
  else if 'A' ≤ c ∧ c ≤ 'F' then some (c.toNat - 'A'.toNat + 10)
  else none

/-- The character with the code point that `n` digits spell. -/
def hexChar? (n : Nat) (s : List Char) : Option Char := do
  let digits ← (s.take n).mapM hexDigit?
  let code := digits.foldl (fun v d => 16 * v + d) 0
  if digits.length = n ∧ code.isValidChar then some (Char.ofNat code) else none

/-- What the text behind a backslash stands for, and how many characters it has. -/
def escape? : List Char → Option (Char × Nat)
  | [] => none
  | c :: rest =>
    match escapes.lookup c with
    | some d => some (d, 1)
    | none => do
      let n ← escapeDigits.lookup c
      let d ← hexChar? n rest
      some (d, n + 1)

/-- Reads one word of a scalar in double quotes, with one unit of fuel to a character; the flag
says whether an escaped line end follows it. -/
def doubleWord : Nat → Marks → Option (List Char × Bool × Marks)
  | 0, _ => none
  | _ + 1, [] => some ([], false, [])
  | fuel + 1, m :: rest =>
    if isSpace m.char || isBreak m.char || m.char = '"' then some ([], false, m :: rest)
    else if m.char = '\\' then
      if rest.head?.any fun n => isBreak n.char then some ([], true, rest.tail)
      else do
        let (c, n) ← escape? (text (rest.take 9))
        let (word, broken, rest) ← doubleWord fuel (rest.drop n)
        some (c :: word, broken, rest)
    else (doubleWord fuel rest).map fun p => (m.char :: p.1, p.2)

/-- Reads one word of a scalar in single quotes; two quotes stand for one. -/
def singleWord : Marks → List Char × Marks
  | [] => ([], [])
  | m :: rest =>
    if isSpace m.char || isBreak m.char then ([], m :: rest)
    else if m.char = '\'' then
      match rest with
      | n :: after =>
        if n.char = '\'' then
          let (word, rest) := singleWord after
          ('\'' :: word, rest)
        else ([], m :: rest)
      | [] => ([], [m])
    else
      let (word, rest) := singleWord rest
      (m.char :: word, rest)

def quotedWord (double : Bool) (fuel : Nat) (s : Marks) : Option (List Char × Bool × Marks) :=
  if double then doubleWord fuel s
  else
    let (word, rest) := singleWord s
    some (word, false, rest)

/-- Reads words and gaps up to the quote, with one unit of fuel to a word. -/
def quotedFrom (double : Bool) : Nat → Marks → Option (List Char × Marks)
  | 0, _ => none
  | fuel + 1, s =>
    if atDocumentMark s then none
    else do
      let (word, escaped, rest) ← quotedWord double (fuel + 1) s
      if rest.isEmpty && !escaped then none
      else if !escaped && atChar (if double then '"' else '\'') rest then some (word, rest.tail)
      else
        let (gap, rest) ← ({ broken := escaped } : Gap).read none rest
        let (more, rest) ← quotedFrom double fuel rest
        some (word ++ (if escaped then gap.breaks.reverse else gap.fold) ++ more, rest)

/-- A quoted scalar whose opening quote has been read. -/
def quoted (double : Bool) (fuel : Nat) (s : Marks) : Option (List Char × Marks) :=
  quotedFrom double fuel s

/-! ## Block scalars -/

/-- What becomes of the line ends behind the last line. -/
inductive Chomp
  | strip | clip | keep
  deriving DecidableEq, Repr

structure BlockHeader where
  chomp : Chomp := .clip
  /-- How far the lines are indented beyond the parent, if said. -/
  indent : Option Nat := none

def chomp? (c : Char) : Option Chomp :=
  if c = '-' then some .strip else if c = '+' then some .keep else none

/-- A digit other than zero. -/
def increment? (c : Char) : Option Nat :=
  if c.isDigit ∧ c ≠ '0' then some (c.toNat - '0'.toNat) else none

/-- The header has at most one chomping mark and one digit, in either order. -/
def blockHeader : Marks → Option (BlockHeader × Marks)
  | [] => some ({}, [])
  | m :: rest =>
    match chomp? m.char with
    | some chomp =>
      match rest with
      | n :: after =>
        if n.char.isDigit then (increment? n.char).map fun i => (⟨chomp, some i⟩, after)
        else some (⟨chomp, none⟩, rest)
      | [] => some (⟨chomp, none⟩, [])
    | none =>
      if m.char.isDigit then do
        let i ← increment? m.char
        match rest with
        | n :: after =>
          match chomp? n.char with
          | some chomp => some (⟨chomp, some i⟩, after)
          | none => some (⟨.clip, some i⟩, rest)
        | [] => some (⟨.clip, some i⟩, [])
      else some ({}, m :: rest)

/-- Skips blanks and a comment to the end of the line, which must come then. -/
def endOfLine (s : Marks) : Option Marks :=
  let s := s.dropWhile fun m => isSpace m.char
  let s := if atChar '#' s then s.dropWhile fun m => !isBreak m.char else s
  match s with
  | [] => some []
  | m :: rest => if isBreak m.char then some rest else none

/-- Skips the indentation of a line and all empty lines before it. Without a known indentation it
is the widest one met. Answers with the widest column, the line ends and the text behind. -/
def blockBreaks (indent : Option Nat) (widest : Nat) (breaks : List Char) :
    Marks → Option (Nat × List Char × Marks)
  | [] => some (widest, breaks.reverse, [])
  | m :: rest =>
    let inside := indent.all (m.place.column < ·)
    if inside && m.char = ' ' then blockBreaks indent (max widest (m.place.column + 1)) breaks rest
    else if inside && m.char = '\t' then none
    else if isBreak m.char then blockBreaks indent widest (m.char :: breaks) rest
    else some (widest, breaks.reverse, m :: rest)

/-- What has been read of a block scalar. -/
structure BlockText where
  /-- The pieces of text, last one first. -/
  pieces : List (List Char) := []
  /-- The line end behind the last line. -/
  lineEnd : List Char := []
  /-- The line ends of the empty lines after it. -/
  breaks : List Char := []
  /-- Whether the last line started with a blank, which keeps line ends next to it from folding. -/
  spaced : Bool := false

/-- Adds a line, folding the line end before it where that is called for. -/
def BlockText.add (folded : Bool) (b : BlockText) (line : List Char) : BlockText :=
  let spaced := line.head?.any isSpace
  let folds := folded && b.lineEnd = ['\n'] && !b.spaced && !spaced
  let joint := if folds then (if b.breaks.isEmpty then [' '] else []) else b.lineEnd
  { pieces := (joint ++ b.breaks ++ line) :: b.pieces, spaced := spaced }

/-- Reads lines at column `indent`, with one unit of fuel to a line. -/
def blockLines (folded : Bool) (indent : Nat) (b : BlockText) :
    Nat → Marks → Option (BlockText × Marks)
  | 0, _ => none
  | fuel + 1, s =>
    if column? s = some indent then do
      let line := s.takeWhile fun m => !isBreak m.char
      let rest := s.dropWhile fun m => !isBreak m.char
      let b := { b.add folded (text line) with lineEnd := text (rest.take 1) }
      let (_, breaks, rest) ← blockBreaks (some indent) 0 [] rest.tail
      blockLines folded indent { b with breaks := breaks } fuel rest
    else some (b, s)

/-- A block scalar whose mark has been read; `parent` is one more than the column of the
surrounding collection, zero if there is none. -/
def block (folded : Bool) (parent fuel : Nat) (s : Marks) : Option (List Char × Marks) := do
  let (header, s) ← blockHeader s
  let s ← endOfLine s
  let known := header.indent.map fun i => (parent - 1) + i
  let (widest, breaks, s) ← blockBreaks known 0 [] s
  let indent := known.getD (max widest (max parent 1))
  let (b, s) ← blockLines folded indent { breaks := breaks } fuel s
  let tail := match header.chomp with
    | .strip => []
    | .clip => b.lineEnd
    | .keep => b.lineEnd ++ b.breaks
  some (b.pieces.reverse.flatten ++ tail, s)

end Hack.Yaml
