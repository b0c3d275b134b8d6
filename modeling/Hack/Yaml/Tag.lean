/-
Tags: what kind of value a node is said to be. A tag is a run of octets, written in angle brackets
or as a handle with a suffix; percent escapes spell octets that have no sign of their own.
-/
import Hack.Yaml.Scalar
namespace Hack.Yaml

/-! ## Tags -/

abbrev Tag := List UInt8

/-- The octets of ASCII text. -/
def octets (s : List Char) : List UInt8 :=
  s.map Char.toUInt8

/-- A tag of the kinds that every stream knows. -/
def Tag.standard (kind : String) : Tag :=
  octets ("tag:yaml.org,2002:" ++ kind).toList

/-- The tag that asks for no kind. -/
def Tag.bare : Tag :=
  octets ['!']

/-- Whether a tag is one of the stream's own. -/
def Tag.isLocal (t : Tag) : Bool :=
  t.head? = Tag.bare.head?

/-- Whether the octets of a tag are text. -/
def Tag.isText (t : Tag) : Bool :=
  (String.fromUTF8? ⟨t.toArray⟩).isSome

/-! ## Escapes -/

def isNameChar (c : Char) : Bool :=
  c.isAlphanum || c = '_' || c = '-'

/-- The characters of a tag; only a tag in angle brackets may hold marks of flow collections. -/
def isTagChar (verbatim : Bool) (c : Char) : Bool :=
  isNameChar c || c ∈ [';', '/', '?', ':', '@', '&', '=', '+', '$', '.', '!', '~', '*', '\'', '(',
    ')', '%'] || verbatim && c ∈ [',', '[', ']']

/-- How many octets go on with a character that starts with `lead`. -/
def continuations? (lead : UInt8) : Option Nat :=
  if lead &&& 0x80 = 0 then some 0
  else if lead &&& 0xE0 = 0xC0 then some 1
  else if lead &&& 0xF0 = 0xE0 then some 2
  else if lead &&& 0xF8 = 0xF0 then some 3
  else none

/-- How many octets are pending behind an escaped one, if `pending` were before it. -/
def pendingAfter? (pending : Nat) (octet : UInt8) : Option Nat :=
  if pending = 0 then continuations? octet
  else if octet &&& 0xC0 = 0x80 then some (pending - 1)
  else none

/-- Replaces the escapes of ASCII text by their octets; the next `pending` octets must be escaped
and go on with a character. -/
def unescape (pending : Nat) : List Char → Option (List UInt8)
  | [] => if pending = 0 then some [] else none
  | '%' :: high :: low :: rest => do
    let octet := UInt8.ofNat (16 * (← hexDigit? high) + (← hexDigit? low))
    let more ← unescape (← pendingAfter? pending octet) rest
    some (octet :: more)
  | c :: rest =>
    if c = '%' ∨ pending ≠ 0 then none else (unescape 0 rest).map (c.toUInt8 :: ·)

/-- The octets that a part of a tag spells; a zero octet ends them. -/
def tagOctets (s : List Char) : Option (List UInt8) :=
  (unescape 0 s).map fun t => t.takeWhile (· ≠ 0)

/-! ## Reading -/

/-- A tag as it stands in the stream; without a handle the suffix is all of it. -/
structure WrittenTag where
  handle : List Char
  suffix : List UInt8
  deriving DecidableEq, Repr

/-- A tag in angle brackets, behind its opening bracket. -/
def verbatimTag (s : Marks) : Option (WrittenTag × Marks) :=
  let uri := s.takeWhile fun m => isTagChar true m.char
  match s.dropWhile fun m => isTagChar true m.char with
  | m :: rest =>
    if m.char = '>' && !uri.isEmpty then (tagOctets (text uri)).map fun t => (⟨[], t⟩, rest)
    else none
  | [] => none

/-- A tag's handle ends with its second exclamation mark; without one the handle is the first. -/
def handleOf (s : List Char) : List Char × List Char :=
  let name := s.takeWhile isNameChar
  match s.dropWhile isNameChar with
  | '!' :: suffix => ('!' :: name ++ ['!'], suffix)
  | _ => (['!'], s)

/-- A tag behind its first exclamation mark. -/
def shortTag (s : Marks) : Option (WrittenTag × Marks) := do
  let (handle, suffix) := handleOf (text (s.takeWhile fun m => isTagChar false m.char))
  if suffix.isEmpty && handle ≠ ['!'] then none
  let suffix ← tagOctets suffix
  let tag := if suffix.isEmpty && handle = ['!'] then ⟨[], Tag.bare⟩ else ⟨handle, suffix⟩
  some (tag, s.dropWhile fun m => isTagChar false m.char)

/-- A tag behind its exclamation mark; a gap must follow it, or a comma in a flow collection. -/
def writtenTag (flow : Bool) (s : Marks) : Option (WrittenTag × Marks) := do
  let (t, rest) ← if atChar '<' s then verbatimTag s.tail else shortTag s
  if atGap rest || flow && atChar ',' rest then some (t, rest) else none

end Hack.Yaml
