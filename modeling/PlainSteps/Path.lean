/-!
# File paths

* `Path.join` : a path below another.
* `Path.below` : the path of a file given by its components.
* `Path.above` : the paths of the folders above a path.
* `Path.isStorable` : whether all names in a path are short enough for files.
* `Path.extension?` : what follows the last point of a file's name.
* `Path.before` : the order of paths, component by component.
-/

namespace PlainSteps.Path

/-- The path `part` below `base`; an absolute path stays as it is. -/
def join (base part : String) : String :=
  if part.toList.head? == some '/' then part
  else if base.isEmpty || base.toList.getLast? == some '/' then base ++ part
  else base ++ "/" ++ part

/-- The path of a file below `base`, given by its components. -/
def below (base : String) (components : List String) : String :=
  components.foldl join base

def components (path : String) : List String :=
  (path.splitOn "/").filter fun c => !c.isEmpty && c != "."

/-- The paths of the folders above a path, the outermost first. -/
def above (path : String) : List String :=
  let parts := path.splitOn "/"
  let starts := (List.range parts.length).map fun n => "/".intercalate (parts.take n)
  starts.filter (!·.isEmpty)

/-- How many bytes the name of a file may have. -/
def longestName : Nat := 255

/-- Whether no name in a path is too long for a file. -/
def isStorable (path : String) : Bool :=
  (components path).all fun c => c.utf8ByteSize ≤ longestName

/-- What follows the last point of a file's name. A name that only begins with a point has no
extension. -/
def extension? (name : String) : Option String :=
  let tail := name.toList.reverse
  let extension := tail.takeWhile (· != '.')
  let stem := (tail.dropWhile (· != '.')).drop 1
  if name == ".." || stem.isEmpty then none else some (String.ofList extension.reverse)

/-- Whether a path comes before another, or is the same; the components are compared one by one. -/
def before (a b : List String) : Bool :=
  !decide (b < a)

end PlainSteps.Path
