/-!
# Trees of files

The files that a run of the program can see: a directory of files and directories. A path is walked
component by component from the directory that the run starts in. Nothing is known about the
directories above that one, except that they exist.
-/

namespace FloatLang.Cli

/-- A file or a directory. -/
inductive FileTree
  | file (content : ByteArray)
  | directory (entries : List (String × FileTree))

/-- Why a file cannot be read. -/
inductive FileError
  | missing
  | notDirectory
  | isDirectory
  | nameTooLong
deriving DecidableEq

namespace FileError

def code : FileError → Nat
  | missing => 2
  | notDirectory => 20
  | isDirectory => 21
  | nameTooLong => 36

/-- The words that the system has for this error. -/
def text : FileError → String
  | missing => "No such file or directory"
  | notDirectory => "Not a directory"
  | isDirectory => "Is a directory"
  | nameTooLong => "File name too long"

def message (e : FileError) : String := e.text ++ " (os error " ++ toString e.code ++ ")"

def ofCode? (n : Nat) : Option FileError :=
  [missing, notDirectory, isDirectory, nameTooLong].find? fun e ↦ e.code == n

end FileError

namespace FileTree

/-- The number of bytes that a component of a path may have. -/
def maxName : Nat := 255

/-- The number of bytes that a path may have. -/
def maxPath : Nat := 4095

/-- Walks the components of a path from `here`, with the directories that lead there, the nearest
one first. An empty component, as the one behind a final slash, stays in its directory. -/
def walk (above : List FileTree) (here : FileTree) : List String → Except FileError FileTree
  | [] => .ok here
  | name :: path =>
    match here with
    | file _ => .error .notDirectory
    | directory entries =>
      if name = "" ∨ name = "." then walk above here path
      else if name = ".." then
        match above with
        | [] => walk [] (directory []) path
        | up :: above => walk above up path
      else if maxName < name.utf8ByteSize then .error .nameTooLong
      else
        match entries.lookup name with
        | none => .error .missing
        | some next => walk (here :: above) next path

/-- Reads the file at a path. A path that starts at the root leads out of the tree. -/
def read (tree : FileTree) (path : String) : Except FileError ByteArray := do
  if maxPath < path.utf8ByteSize then throw .nameTooLong
  let start := if path.startsWith "/" then directory [] else tree
  match ← walk [] start (path.splitOn "/") with
  | file content => return content
  | directory _ => throw .isDirectory

end FileTree

end FloatLang.Cli
