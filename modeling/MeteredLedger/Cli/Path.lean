/-!
# File names inside paths

The file name of a path is its last component, and the extension of a file name
is what follows its last dot, unless that dot comes first. `withExtension`
gives the default output of a command from its input.
-/

namespace MeteredLedger.Cli.Path

/-- Drops, from the end of a path that is given reversed, separators and
components that stay where they are. -/
def dropStays : List Char → List Char
  | '/' :: rest => dropStays rest
  | '.' :: '/' :: rest => dropStays rest
  | rest => rest

/-- The file name at the end of a path, after the part that leads to it. A path
that ends by naming a directory through dots has none. -/
def splitName? (path : List Char) : Option (List Char × List Char) :=
  let reversed := dropStays path.reverse
  let name := (reversed.takeWhile (· != '/')).reverse
  if name = [] ∨ name = ['.'] ∨ name = ['.', '.'] then none
  else some ((reversed.dropWhile (· != '/')).reverse, name)

/-- The stem of a file name and its extension, which may be absent. -/
def splitExtension (name : List Char) : List Char × Option (List Char) :=
  match name.reverse.dropWhile (· != '.') with
  | [] => (name, none)
  | [_] => (name, none)
  | _ :: stem => (stem.reverse, some (name.reverse.takeWhile (· != '.')).reverse)

/-- The path without the characters of its extension. The dot stays. -/
def dropExtension (path : List Char) : List Char :=
  match splitName? path with
  | none => path
  | some (_, name) =>
    match (splitExtension name).2 with
    | none => path
    | some ext => path.take (path.length - ext.length)

/-- Gives a path an extension, in place of one that it has. The old extension
is dropped first, so a path that names a directory without it (`..a` without
the `a`) is left there. -/
def withExtension (path ext : List Char) : List Char :=
  match splitName? (dropExtension path) with
  | none => dropExtension path
  | some (parent, name) => parent ++ (splitExtension name).1 ++ '.' :: ext

end MeteredLedger.Cli.Path
