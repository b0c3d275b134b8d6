/-
Nodes: the values of a YAML stream as a tree. A stream holds at most one document here. An anchor
gives its node a number, and an alias stands for the node with a number, be it behind the alias or
around it.
-/
import Hack.Yaml.Token
namespace Hack.Yaml

inductive Node
  | scalar (tag : Option Tag) (style : Style) (text : String)
  | sequence (items : List Node)
  | mapping (entries : List (Node × Node))
  | alias (number : Nat)

structure Document where
  root : Node
  /-- The nodes that aliases may stand for, by their numbers. -/
  numbered : List (Nat × Node)

/-- What a node stands for. -/
def Document.follow (d : Document) : Node → Node
  | .alias number => (d.numbered.lookup number).getD (.alias number)
  | n => n

/-! ## Reading state -/

structure Reading where
  tokens : List Token
  /-- The names of anchors with their numbers, each name once. -/
  names : List (List Char × Nat) := []
  numbered : List (Nat × Node) := []
  /-- What the handles of tags stand for. -/
  handles : List (List Char × Tag) := [(['!'], Tag.bare), (['!', '!'], Tag.standard "")]

abbrev Reader := StateT Reading Option

def peek : Reader (Option Token) := do
  pure (← get).tokens.head?

def advance : Reader PUnit :=
  modify fun r => { r with tokens := r.tokens.tail }

/-- Whether the next token is one of a few. -/
def atToken (ts : List Token) : Reader Bool := do
  pure ((← peek).any (· ∈ ts))

/-- Reads one token if it comes next. -/
def accept (t : Token) : Reader Bool := do
  if (← peek) = some t then do advance; pure true else pure false

def expect (t : Token) : Reader PUnit := do
  if ← accept t then pure ⟨⟩ else failure

/-! ## Anchors -/

/-- Gives a name a number, which is how many names there were before; the node that had the number
loses it. So a name that is used again shares its number with the next new one. -/
def takeNumber (name : List Char) : Reader Nat := do
  let r ← get
  let n := r.names.length
  set { r with
    names := (name, n) :: r.names.filter (·.1 ≠ name)
    numbered := r.numbered.filter (·.1 ≠ n) }
  pure n

/-- Notes a node that had got a number before it was read, unless a node inside took the number. -/
def noteNode (number : Nat) (n : Node) : Reader PUnit :=
  modify fun r =>
    if (r.numbered.lookup number).isSome then r
    else { r with numbered := (number, n) :: r.numbered }

def aliasNode (name : List Char) : Reader Node := do
  match (← get).names.lookup name with
  | some number => pure (.alias number)
  | none => failure

/-! ## Properties -/

/-- Anchor and tag of a node. -/
structure Properties where
  anchor : Option (List Char) := none
  tag : Option Tag := none

def Properties.present (p : Properties) : Bool :=
  p.anchor.isSome || p.tag.isSome

/-- A handle must be known. -/
def resolveTag (t : WrittenTag) : Reader Tag := do
  if t.handle = [] then pure t.suffix
  else match (← get).handles.lookup t.handle with
    | some start => pure (start ++ t.suffix)
    | none => failure

/-- At most one anchor and one tag, in either order. -/
def properties : Reader Properties := do
  match ← peek with
  | some (.anchor name) => do
    advance
    match ← peek with
    | some (.tag t) => do
      advance
      pure ⟨some name, some (← resolveTag t)⟩
    | _ => pure ⟨some name, none⟩
  | some (.tag t) => do
    advance
    let tag ← resolveTag t
    match ← peek with
    | some (.anchor name) => do
      advance
      pure ⟨some name, some tag⟩
    | _ => pure ⟨none, some tag⟩
  | _ => pure {}

def emptyNode (p : Properties) : Node :=
  .scalar p.tag .plain ""

/-- A scalar that has been written; the bare tag says nothing of it. -/
def scalarNode (p : Properties) (style : Style) (text : List Char) : Node :=
  .scalar (p.tag.filter (· ≠ Tag.bare)) style (String.ofList text)

/-! ## Nodes -/

mutual

/-- Reads a node. Only in block context may it be a collection written by indentation, and only as
a part of a mapping a sequence that is not indented. -/
def readNode (block unindented : Bool) : Nat → Reader Node
  | 0 => failure
  | fuel + 1 => do
    match ← peek with
    | some (.alias name) => do
      advance
      aliasNode name
    | _ => do
      let p ← properties
      match p.anchor with
      | none => readContent block unindented p fuel
      | some name => do
        let number ← takeNumber name
        let n ← readContent block unindented p fuel
        noteNode number n
        pure n

/-- Reads a node without its properties. -/
def readContent (block unindented : Bool) (p : Properties) : Nat → Reader Node
  | 0 => failure
  | fuel + 1 => do
    match ← peek with
    | some (.scalar style text) => do
      advance
      pure (scalarNode p style text)
    | some .flowSequence => do
      advance
      .sequence <$> readFlowItems true fuel
    | some .flowMapping => do
      advance
      .mapping <$> readFlowEntries true fuel
    | some .entry =>
      if unindented then .sequence <$> readUnindented fuel
      else if p.present then pure (emptyNode p)
      else failure
    | some .blockSequence =>
      if block then do
        advance
        .sequence <$> readItems fuel
      else if p.present then pure (emptyNode p)
      else failure
    | some .blockMapping =>
      if block then do
        advance
        .mapping <$> readEntries fuel
      else if p.present then pure (emptyNode p)
      else failure
    | _ => if p.present then pure (emptyNode p) else failure

/-- Reads a node, or nothing if one of `stops` comes next. -/
def readUnless (stops : List Token) (block unindented : Bool) : Nat → Reader Node
  | 0 => failure
  | fuel + 1 => do
    if ← atToken stops then pure (emptyNode {}) else readNode block unindented fuel

/-- Reads the items of an indented sequence and its end. -/
def readItems : Nat → Reader (List Node)
  | 0 => failure
  | fuel + 1 => do
    if ← accept .entry then do
      let n ← readUnless [.entry, .blockEnd] true false fuel
      (n :: ·) <$> readItems fuel
    else do
      expect .blockEnd
      pure []

/-- Reads the items of a sequence that has no indentation and so no end of its own. -/
def readUnindented : Nat → Reader (List Node)
  | 0 => failure
  | fuel + 1 => do
    if ← accept .entry then do
      let n ← readUnless [.entry, .key, .value, .blockEnd] true false fuel
      (n :: ·) <$> readUnindented fuel
    else pure []

/-- Reads the entries of an indented mapping and its end. -/
def readEntries : Nat → Reader (List (Node × Node))
  | 0 => failure
  | fuel + 1 => do
    if ← accept .key then do
      let k ← readUnless [.key, .value, .blockEnd] true true fuel
      let v ← if ← accept .value then readUnless [.key, .value, .blockEnd] true true fuel
        else pure (emptyNode {})
      ((k, v) :: ·) <$> readEntries fuel
    else do
      expect .blockEnd
      pure []

/-- Reads the value of a key in a flow collection, if there is one. -/
def readFlowValue (stop : Token) : Nat → Reader Node
  | 0 => failure
  | fuel + 1 => do
    if ← accept .value then readUnless [.comma, stop] false false fuel else pure (emptyNode {})

/-- Reads the key of a mapping that is an item of a flow sequence. A key that is left out takes
the token in its place with it. -/
def readItemKey : Nat → Reader Node
  | 0 => failure
  | fuel + 1 => do
    if ← atToken [.value, .comma, .flowSequenceEnd] then do
      advance
      pure (emptyNode {})
    else readNode false false fuel

/-- Reads items up to the closing bracket; a key among them makes a mapping of one entry. -/
def readFlowItems (first : Bool) : Nat → Reader (List Node)
  | 0 => failure
  | fuel + 1 => do
    if ← accept .flowSequenceEnd then pure []
    else do
      if !first then expect .comma
      if ← accept .flowSequenceEnd then pure []
      else if ← accept .key then do
        let k ← readItemKey fuel
        let v ← readFlowValue .flowSequenceEnd fuel
        (.mapping [(k, v)] :: ·) <$> readFlowItems false fuel
      else do
        let n ← readNode false false fuel
        (n :: ·) <$> readFlowItems false fuel

/-- Reads entries up to the closing brace; one without a key mark has no value. -/
def readFlowEntries (first : Bool) : Nat → Reader (List (Node × Node))
  | 0 => failure
  | fuel + 1 => do
    if ← accept .flowMappingEnd then pure []
    else do
      if !first then expect .comma
      if ← accept .flowMappingEnd then pure []
      else if ← accept .key then do
        let k ← readUnless [.value, .comma, .flowMappingEnd] false false fuel
        let v ← readFlowValue .flowMappingEnd fuel
        ((k, v) :: ·) <$> readFlowEntries false fuel
      else do
        let k ← readNode false false fuel
        ((k, emptyNode {}) :: ·) <$> readFlowEntries false fuel

end

/-! ## Documents -/

/-- Reads directives, each version at most once and each handle at most once. -/
def readDirectives (version : Bool) (handles : List (List Char)) : Nat → Reader PUnit
  | 0 => failure
  | fuel + 1 => do
    match ← peek with
    | some (.version major minor) =>
      if version || major ≠ 1 || (minor ≠ 1 && minor ≠ 2) then failure
      else do
        advance
        readDirectives true handles fuel
    | some (.tagHandle handle start) =>
      if handle ∈ handles then failure
      else do
        advance
        modify fun r => { r with handles := (handle, start) :: r.handles }
        readDirectives version (handle :: handles) fuel
    | _ => pure ⟨⟩

def startsDocument : Option Token → Bool
  | none | some .documentStart | some .documentEnd => true
  | some (.version ..) | some (.tagHandle ..) => true
  | _ => false

/-- Skips marks of a document's end, after which the stream must end. -/
def readEnd : Nat → Reader PUnit
  | 0 => failure
  | fuel + 1 => do
    match ← peek with
    | none => pure ⟨⟩
    | some .documentEnd => do
      advance
      readEnd fuel
    | some _ => failure

/-- Reads the only document, if there is one. -/
def readDocument (fuel : Nat) : Reader (Option Node) := do
  match ← peek with
  | none => pure none
  | some t => do
    let n ← if startsDocument (some t) && t ≠ .documentEnd then do
        readDirectives false [] fuel
        expect .documentStart
        if startsDocument (← peek) then pure (emptyNode {}) else readNode true false fuel
      else readNode true false fuel
    readEnd fuel
    pure (some n)

/-- The document of a stream: nothing if the stream is no YAML or holds several documents, and
none if it is empty. -/
def document? (s : List Char) : Option (Option Document) := do
  let tokens ← tokens? (← mark? s)
  let (root, r) ← (readDocument (4 * tokens.length + 8)).run { tokens := tokens }
  some (root.map fun root => ⟨root, r.numbered⟩)

end Hack.Yaml
