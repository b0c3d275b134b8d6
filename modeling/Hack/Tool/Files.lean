/-
Files as a value: which files there are below the working directory and what they hold. A path is
walked part by part, each part but the last in a directory. Of what lies elsewhere only the
directories above the working directory, the root and a few devices are known, and new files can
be made below the working directory and the directories above it.
-/
import Hack.Text.Read
namespace Hack.Tool

open Text

inductive Entry
  | file (bytes : ByteArray)
  | directory
  /-- A device that holds nothing and takes everything. -/
  | sink
  /-- A device that takes nothing. -/
  | full
  /-- A device that prints what it takes. -/
  | screen

/-- The names that lead from the working directory to a place, or from the root if the first of
them is `/`. Places above the working directory start with `..`. -/
abbrev Location := List String

structure Files where
  entries : List (Location × Entry) := []

/-- What is found at a path. -/
inductive Found
  | nothing
  | directory
  | file (bytes : ByteArray)

/-- Why a text could not be put into a file. -/
inductive WriteFault
  | create | write
  deriving DecidableEq, Repr

namespace Files

/-! ## Places -/

def root : Location :=
  ["/"]

/-- What is always there besides the working directory and those above it. The input is empty, and
what goes to the error output is lost; both and the output have a number too. -/
def standing : List (Location × Entry) :=
  [(root, .directory), (root ++ ["dev"], .directory), (root ++ ["dev", "null"], .sink),
    (root ++ ["dev", "full"], .full), (root ++ ["dev", "stdin"], .sink),
    (root ++ ["dev", "stdout"], .screen), (root ++ ["dev", "stderr"], .sink)] ++
  [["dev", "fd"], ["proc", "self", "fd"]].flatMap fun place =>
    [(root ++ place.take 1, .directory), (root ++ place.take 2, .directory),
      (root ++ place, .directory), (root ++ place ++ ["0"], .sink),
      (root ++ place ++ ["1"], .screen), (root ++ place ++ ["2"], .sink)]

/-- Whether a place is the working directory or one above it. -/
def isAbove (place : Location) : Bool :=
  place.all (· = "..")

def entry? (f : Files) (place : Location) : Option Entry :=
  if isAbove place then some .directory else (standing ++ f.entries).lookup place

def isDirectory (f : Files) (place : Location) : Bool :=
  match f.entry? place with
  | some .directory => true
  | _ => false

/-- Where `..` leads. -/
def parent (place : Location) : Location :=
  if isAbove place then place ++ [".."] else if place = root then root else place.dropLast

/-- How many bytes a name may have. -/
def nameLimit : Nat := 255

/-- How many bytes a path may have. -/
def pathLimit : Nat := 4095

/-- Where the parts of a path lead; the last one need not exist. -/
def walk (f : Files) (place : Location) : List String → Option Location
  | [] => some place
  | part :: rest =>
    if !f.isDirectory place ∨ nameLimit < part.utf8ByteSize then none
    else if part = "" ∨ part = "." then f.walk place rest
    else if part = ".." then f.walk (parent place) rest
    else f.walk (place ++ [part]) rest

def parts (path : String) : List String :=
  (splitAt '/' path.toList).map String.ofList

def locate (f : Files) (path : String) : Option Location :=
  if path = "" ∨ pathLimit < path.utf8ByteSize then none
  else f.walk (if path.toList.head? = some '/' then root else []) (parts path)

/-! ## Reading -/

def read (f : Files) (path : String) : Found :=
  match (f.locate path).bind f.entry? with
  | none | some .full | some .screen => .nothing
  | some .sink => .file ByteArray.empty
  | some .directory => .directory
  | some (.file bytes) => .file bytes

/-! ## Writing -/

/-- Puts an entry in the place of another or adds it. -/
def put (f : Files) (place : Location) (e : Entry) : Files :=
  if (f.entries.lookup place).isSome then
    ⟨f.entries.map fun old => if old.1 = place then (place, e) else old⟩
  else ⟨f.entries ++ [(place, e)]⟩

/-- The files after a text was written, and what that printed. -/
structure Written where
  files : Files
  printed : String

/-- Replaces the content of a place or makes a file there. -/
def writeAt (f : Files) (place : Location) (text : String) : Except WriteFault Written :=
  match f.entry? place with
  | some .directory => .error .create
  | some .sink => .ok ⟨f, ""⟩
  | some .full => if text = "" then .ok ⟨f, ""⟩ else .error .write
  | some .screen => .ok ⟨f, text⟩
  | some (.file _) => .ok ⟨f.put place (.file text.toUTF8), ""⟩
  | none =>
    if place.head? = root.head? then .error .create
    else .ok ⟨f.put place (.file text.toUTF8), ""⟩

def write (f : Files) (path text : String) : Except WriteFault Written :=
  match f.locate path with
  | none => .error .create
  | some place => f.writeAt place text

/-! ## Making -/

/-- Adds the directories above a place that are missing. -/
def putParents (f : Files) (place : Location) : Files :=
  (List.range place.length).foldl
    (fun f n => if (f.entry? (place.take n)).isSome then f else f.put (place.take n) .directory) f

/-- Adds an entry at a path, with the directories above it. -/
def add (f : Files) (path : String) (e : Entry) : Files :=
  let place := (parts path).filter fun part => part ≠ "" ∧ part ≠ "."
  if place = [] then f else (f.putParents place).put place e

def ofList (entries : List (String × Entry)) : Files :=
  entries.foldl (fun f entry => f.add entry.1 entry.2) {}

end Files

end Hack.Tool
