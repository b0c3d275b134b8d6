/-
Path names. Slashes separate the parts of a path, and empty parts and `.` at its end do not count:
the part before them is the file's name, unless it is `..`. The extension of a name is what follows
its last dot, which may not be its first character.
-/
import Hack.Text.Read
namespace Hack.Path

open Text

/-! ## Name and extension -/

/-- The parts of a path up to the last one that counts. -/
def parts (path : List Char) : List (List Char) :=
  ((splitAt '/' path).reverse.dropWhile fun part => part = [] ∨ part = ['.']).reverse

/-- The last part, if it can be a file's name. -/
def name? (path : List Char) : Option (List Char) :=
  (parts path).getLast?.filter (· ≠ ['.', '.'])

/-- A name cut at its last dot, if a character precedes that dot. -/
def cutExtension (name : List Char) : List Char × Option (List Char) :=
  match cutLast '.' name with
  | some (stem, extension) => if stem = [] then (name, none) else (stem, some extension)
  | none => (name, none)

def stem? (path : List Char) : Option (List Char) :=
  (name? path).map fun name => (cutExtension name).1

def extension? (path : List Char) : Option (List Char) :=
  (name? path).bind fun name => (cutExtension name).2

/-- Whether a path has the given lower-case extension in any mixture of cases. -/
def hasExtension (extension path : List Char) : Bool :=
  (extension? path).any fun e => e.map Char.toLower == extension

/-! ## Replacing the extension -/

/-- Puts a new extension behind the stem and drops what follows the name; a path without a name is
left alone. -/
def setExtension (extension path : List Char) : List Char :=
  match stem? path with
  | some stem =>
    List.intercalate ['/'] ((parts path).dropLast ++ [stem ++ '.' :: extension])
  | none => path

/-- Takes as many characters from the end of the path as the old extension has, then sets the new
one: for a stem `.` this leaves `..`, which is no name, and the path stays so. -/
def withExtension (extension path : List Char) : List Char :=
  match extension? path with
  | some old => setExtension extension (path.take (path.length - old.length))
  | none => setExtension extension path

end Hack.Path
