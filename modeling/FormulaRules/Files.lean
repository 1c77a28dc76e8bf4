/-!
# Files

Whoever runs a command supplies a function from paths to what is read there. Reading fails
with one of a few faults. A path may go through the present folder as often as it likes:
neither a part `.` nor a repeated slash changes what it names.
-/

namespace FormulaRules

/-- Why nothing is read at a path. -/
inductive ReadFault
  | notFound
  | isDirectory
  /-- The path leads through a file, or ends in a slash behind one. -/
  | notDirectory
  | denied
  /-- What is stored is no text. -/
  | notText
  | other
deriving DecidableEq, Repr, Inhabited

/-- The wording of a fault. -/
def ReadFault.message : ReadFault → String
  | notFound => "no such file"
  | isDirectory => "is a directory"
  | notDirectory => "not a directory"
  | denied => "permission denied"
  | notText => "not a text in UTF-8"
  | other => "cannot be read"

/-- What is read at a path. -/
abbrev Files := String → Except ReadFault String

namespace Path

/-- The parts of a path between slashes that do not stand for the present folder. -/
def parts (path : String) : List String :=
  (path.splitOn "/").filter fun part => part != "" && part != "."

/-- Whether a path can only name a folder. -/
def namesFolder (path : String) : Bool :=
  match (path.splitOn "/").getLast? with
  | some last => last == "" || last == "."
  | none => false

/-- The part of a file name after its last point. A point at the start of a name does not
count. -/
def extension? (path : String) : Option String := do
  let name ← (parts path).getLast?
  let backwards := name.toList.reverse
  match backwards.dropWhile (· != '.') with
  | _ :: _ :: _ =>
    if name = ".." then none else some (String.ofList (backwards.takeWhile (· != '.')).reverse)
  | _ => none

end Path

/-- The files of a folder without further folders, where paths start from this folder. -/
def Files.ofFolder (entries : List (String × String)) : Files := fun path =>
  if path == "" || path.startsWith "/" then .error .notFound
  else match Path.parts path with
    | [] => .error .isDirectory
    | name :: rest =>
      match entries.lookup name with
      | none => .error .notFound
      | some text =>
        if rest.isEmpty && !Path.namesFolder path then .ok text else .error .notDirectory

end FormulaRules
