/-
Tokens of a YAML stream. Collections that are written by indentation get marks where they start and
end. A value's key is only known to be one when its colon comes, so every token that could start a
key leaves a slot before it, which the colon fills.
-/
import Hack.Yaml.Tag
namespace Hack.Yaml

/-! ## Tokens -/

inductive Token
  | version (major minor : Nat)
  /-- What a handle stands for. -/
  | tagHandle (handle : List Char) (start : Tag)
  | documentStart
  | documentEnd
  | blockSequence
  | blockMapping
  | blockEnd
  | flowSequence
  | flowSequenceEnd
  | flowMapping
  | flowMappingEnd
  /-- A dash. -/
  | entry
  | comma
  | key
  | value
  | alias (name : List Char)
  | anchor (name : List Char)
  | tag (t : WrittenTag)
  | scalar (style : Style) (text : List Char)
  deriving DecidableEq, Repr

/-- A token, or the place of a mark that a later colon may call for. -/
inductive Slot
  | token (t : Token)
  | unused
  | key
  /-- A key that opens a mapping. -/
  | firstKey

def Slot.tokens : Slot → List Token
  | .token t => [t]
  | .unused => []
  | .key => [.key]
  | .firstKey => [.blockMapping, .key]

/-! ## State -/

/-- A token that a colon would make a key. -/
structure Candidate where
  slot : Nat
  place : Place
  /-- Whether the token stands where only a key may stand. -/
  required : Bool

structure Lexer where
  slots : Array Slot := #[]
  /-- One more than the columns of the open block collections, innermost first. -/
  indents : List Nat := []
  /-- The candidate of every open flow collection, innermost first, and of the block around. -/
  candidates : List (Option Candidate) := [none]
  /-- Whether a key may start here. -/
  keyAllowed : Bool := true

namespace Lexer

/-- One more than the column of the innermost block collection, zero outside of all. -/
def indent (l : Lexer) : Nat :=
  l.indents.headD 0

def inFlow (l : Lexer) : Bool :=
  l.candidates.length > 1

def push (l : Lexer) (t : Token) : Lexer :=
  { l with slots := l.slots.push (.token t) }

def setKeyAllowed (l : Lexer) (allowed : Bool) : Lexer :=
  { l with keyAllowed := allowed }

/-! ## Indentation -/

/-- Opens a block collection if `column` lies behind the innermost one. -/
def openBlock (l : Lexer) (column : Nat) (t : Token) : Lexer :=
  if !l.inFlow && l.indent < column + 1 then
    { l.push t with indents := (column + 1) :: l.indents }
  else l

/-- Closes the block collections that start behind `limit`, one more than a column. -/
def closeBlocks (l : Lexer) (limit : Nat) : Lexer :=
  if l.inFlow then l
  else
    let closed := l.indents.takeWhile (limit < ·)
    { l with
      slots := closed.foldl (fun slots _ => slots.push (.token .blockEnd)) l.slots
      indents := l.indents.drop closed.length }

/-! ## Candidates for keys -/

/-- Drops the innermost candidate, which must not have been a required key. -/
def dropCandidate (l : Lexer) : Option Lexer :=
  match l.candidates with
  | some c :: outer => if c.required then none else some { l with candidates := none :: outer }
  | _ => some l

/-- Notes that the token at `place` may be a key. -/
def addCandidate (l : Lexer) (place : Place) : Option Lexer :=
  if l.keyAllowed then do
    let required := !l.inFlow && l.indent = place.column + 1
    let l ← l.dropCandidate
    let candidate : Candidate := ⟨l.slots.size, place, required⟩
    some { l with
      slots := l.slots.push .unused
      candidates := some candidate :: l.candidates.tail }
  else some l

/-- The longest key, in bytes. -/
def maxKeyLength : Nat := 1024

/-- Drops candidates that can be keys no more: a key and its colon share a line. -/
def dropStale (l : Lexer) (place : Place) : Option Lexer := do
  let candidates ← l.candidates.mapM fun
    | none => some none
    | some c =>
      if c.place.line < place.line || c.place.index + maxKeyLength < place.index then
        if c.required then none else some none
      else some (some c)
  some { l with candidates := candidates }

/-! ## Tokens of one character -/

def openFlow (l : Lexer) (place : Place) (t : Token) : Option Lexer := do
  let l ← l.addCandidate place
  some { l.push t with candidates := none :: l.candidates, keyAllowed := true }

def closeFlow (l : Lexer) (t : Token) : Option Lexer := do
  let l ← l.dropCandidate
  let candidates := if l.inFlow then l.candidates.tail else l.candidates
  some { l.push t with candidates := candidates, keyAllowed := false }

def comma (l : Lexer) : Option Lexer := do
  let l ← l.dropCandidate
  some ((l.push .comma).setKeyAllowed true)

/-- A mark that opens a block collection where it is the first of its kind. -/
def blockMark (l : Lexer) (place : Place) (collection t : Token) (keyAfter : Bool) :
    Option Lexer := do
  if !l.inFlow && !l.keyAllowed then none
  let l ← (l.openBlock place.column collection).dropCandidate
  some ((l.push t).setKeyAllowed keyAfter)

/-- A colon fills the slot of its key, or stands for an empty key. -/
def colon (l : Lexer) (place : Place) : Option Lexer :=
  match l.candidates with
  | some c :: outer =>
    let opens := !l.inFlow && l.indent < c.place.column + 1
    let indents := if opens then (c.place.column + 1) :: l.indents else l.indents
    some { l with
      slots := (l.slots.setIfInBounds c.slot (if opens then .firstKey else .key)).push
        (.token .value)
      indents := indents
      candidates := none :: outer
      keyAllowed := false }
  | _ =>
    if !l.inFlow && !l.keyAllowed then none
    else
      let l := l.openBlock place.column .blockMapping
      some ((l.push .value).setKeyAllowed (!l.inFlow))

/-- A mark at the start of a line, where all block collections end. -/
def documentMark (l : Lexer) (t : Token) : Option Lexer := do
  let l ← (l.closeBlocks 0).dropCandidate
  some ((l.push t).setKeyAllowed false)

end Lexer

/-! ## Longer tokens -/

/-- Marks that may follow a name. -/
def nameEnds : List Char := ['?', ':', ',', ']', '}', '%', '@', '`']

/-- The name of an anchor or an alias, which a gap or one of a few marks must follow. -/
def anchorName (s : Marks) : Option (List Char × Marks) :=
  let name := s.takeWhile fun m => isNameChar m.char
  let rest := s.dropWhile fun m => isNameChar m.char
  if name.isEmpty then none
  else if atGap rest || rest.head?.any fun m => m.char ∈ nameEnds then some (text name, rest)
  else none

/-! ## Directives -/

def skipBlanks (s : Marks) : Marks :=
  s.dropWhile fun m => isSpace m.char

/-- A number of at most nine digits. -/
def versionNumber (s : Marks) : Option (Nat × Marks) :=
  let digits := text (s.takeWhile fun m => m.char.isDigit)
  if digits.isEmpty || digits.length > 9 then none
  else
    some (digits.foldl (fun n c => 10 * n + (c.toNat - '0'.toNat)) 0,
      s.dropWhile fun m => m.char.isDigit)

/-- Two numbers with a point between them. -/
def versionDirective (s : Marks) : Option (Token × Marks) := do
  let (major, s) ← versionNumber (skipBlanks s)
  if !atChar '.' s then none
  let (minor, s) ← versionNumber s.tail
  some (.version major minor, s)

/-- An exclamation mark, or a name between two of them. -/
def tagHandle (s : Marks) : Option (List Char × Marks) :=
  if !atChar '!' s then none
  else
    let name := text (s.tail.takeWhile fun m => isNameChar m.char)
    let s := s.tail.dropWhile fun m => isNameChar m.char
    if atChar '!' s then some ('!' :: name ++ ['!'], s.tail)
    else if name.isEmpty then some (['!'], s)
    else none

/-- A handle and what it stands for. -/
def tagDirective (s : Marks) : Option (Token × Marks) := do
  let (handle, s) ← tagHandle (skipBlanks s)
  if !s.head?.any fun m => isSpace m.char then none
  let s := skipBlanks s
  let uri := text (s.takeWhile fun m => isTagChar true m.char)
  if uri.isEmpty then none
  let start ← tagOctets uri
  let s := s.dropWhile fun m => isTagChar true m.char
  if atGap s then some (.tagHandle handle start, s) else none

/-- A directive behind its percent sign fills its line, a comment apart. -/
def directive (s : Marks) : Option (Token × Marks) := do
  let name := text (s.takeWhile fun m => isNameChar m.char)
  let s := s.dropWhile fun m => isNameChar m.char
  if !atGap s then none
  let (t, s) ← if name = "YAML".toList then versionDirective s
    else if name = "TAG".toList then tagDirective s
    else none
  some (t, ← endOfLine s)

/-! ## The whole stream -/

/-- Skips blanks, line ends and comments, and a byte order mark at the start of a line. Blanks that
indent a line may not be tabs. -/
def skipGap (flow : Bool) (keyAllowed comment : Bool) : Marks → Bool × Marks
  | [] => (keyAllowed, [])
  | m :: rest =>
    if isBreak m.char then skipGap flow (keyAllowed || !flow) false rest
    else if comment then skipGap flow keyAllowed true rest
    else if m.char = ' ' || m.char = '\t' && (flow || !keyAllowed) ||
        m.char = '\uFEFF' && m.place.column = 0 then
      skipGap flow keyAllowed false rest
    else if m.char = '#' then skipGap flow keyAllowed true rest
    else (keyAllowed, m :: rest)

/-- Marks that start no plain scalar. -/
def indicators : List Char :=
  ['-', '?', ':', ',', '[', ']', '{', '}', '#', '&', '*', '!', '|', '>', '\'', '"', '%', '@', '`']

/-- Whether a plain scalar starts with `c` if `rest` comes after it. -/
def startsPlain (flow : Bool) (c : Char) (rest : Marks) : Bool :=
  !(isSpace c || isBreak c || c ∈ indicators) ||
    c = '-' && !rest.head?.any (fun m => isSpace m.char) ||
    !flow && (c = '?' || c = ':') && !atGap rest

namespace Lexer

/-- Adds a token that may be a key. -/
def candidateToken (l : Lexer) (place : Place) (t : Token) : Option Lexer := do
  let l ← l.addCandidate place
  some ((l.push t).setKeyAllowed false)

def blockScalar (l : Lexer) (fuel : Nat) (folded : Bool) (s : Marks) :
    Option (Lexer × Marks) := do
  let l ← l.dropCandidate
  let (value, rest) ← block folded l.indent fuel s
  some ((l.push (.scalar (if folded then .folded else .literal) value)).setKeyAllowed true, rest)

def quotedScalar (l : Lexer) (fuel : Nat) (place : Place) (double : Bool) (s : Marks) :
    Option (Lexer × Marks) := do
  let (value, rest) ← quoted double fuel s
  let l ← l.candidateToken place (.scalar .quoted value)
  some (l, rest)

def plainScalar (l : Lexer) (fuel : Nat) (place : Place) (s : Marks) :
    Option (Lexer × Marks) := do
  let (value, broken, rest) ← plain l.inFlow l.indent fuel s
  let l ← l.candidateToken place (.scalar .plain value)
  some (if broken then l.setKeyAllowed true else l, rest)

/-- Adds the token that starts with `m`; `fuel` is more than the length of the text. -/
def next (l : Lexer) (fuel : Nat) (m : Mark) (rest : Marks) : Option (Lexer × Marks) :=
  let flow := l.inFlow
  let c := m.char
  let place := m.place
  if place.column = 0 && c = '%' then do
    let l ← (l.closeBlocks 0).dropCandidate
    let (t, rest) ← directive rest
    some ((l.push t).setKeyAllowed false, rest)
  else if atTriple '-' (m :: rest) then
    (l.documentMark .documentStart).map (·, rest.drop 2)
  else if atTriple '.' (m :: rest) then
    (l.documentMark .documentEnd).map (·, rest.drop 2)
  else if c = '[' then (l.openFlow place .flowSequence).map (·, rest)
  else if c = '{' then (l.openFlow place .flowMapping).map (·, rest)
  else if c = ']' then (l.closeFlow .flowSequenceEnd).map (·, rest)
  else if c = '}' then (l.closeFlow .flowMappingEnd).map (·, rest)
  else if c = ',' then l.comma.map (·, rest)
  else if c = '-' && atGap rest then
    (l.blockMark place .blockSequence .entry true).map (·, rest)
  else if c = '?' && (flow || atGap rest) then
    (l.blockMark place .blockMapping .key (!flow)).map (·, rest)
  else if c = ':' && (flow || atGap rest) then (l.colon place).map (·, rest)
  else if c = '*' then do
    let (name, rest) ← anchorName rest
    (l.candidateToken place (.alias name)).map (·, rest)
  else if c = '&' then do
    let (name, rest) ← anchorName rest
    (l.candidateToken place (.anchor name)).map (·, rest)
  else if c = '!' then do
    let (t, rest) ← writtenTag flow rest
    (l.candidateToken place (.tag t)).map (·, rest)
  else if c = '|' && !flow then l.blockScalar fuel false rest
  else if c = '>' && !flow then l.blockScalar fuel true rest
  else if c = '\'' then l.quotedScalar fuel place false rest
  else if c = '"' then l.quotedScalar fuel place true rest
  else if startsPlain flow c rest then l.plainScalar fuel place (m :: rest)
  else none

/-- Reads tokens to the end of the stream. A token has at least one character, so fuel that is more
than the length of the text stays so. -/
def readAll (l : Lexer) : Nat → Marks → Option Lexer
  | 0, _ => none
  | fuel + 1, s =>
    match skipGap l.inFlow l.keyAllowed false s with
    | (_, []) => (l.closeBlocks 0).dropCandidate
    | (allowed, m :: rest) => do
      let l ← (l.setKeyAllowed allowed).dropStale m.place
      let (l, rest) ← (l.closeBlocks (m.place.column + 1)).next (fuel + 1) m rest
      readAll l fuel rest

end Lexer

/-- The tokens of a stream. -/
def tokens? (s : Marks) : Option (List Token) := do
  let l ← ({} : Lexer).readAll (s.length + 1) s
  some (l.slots.toList.flatMap Slot.tokens)

end Hack.Yaml
