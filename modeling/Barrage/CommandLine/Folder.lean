/-
An empty folder, and the files that can be made in it.

This stands for the paths of the operating system when a run is to be repeated without one.
It serves such runs only: no theorem is about it, and `invoke` takes any answer to whether
a file can be made.

A path is followed part by part.  Empty parts and single dots stay where they are, double
dots lead to the folder above, and every other part but the last would have to be a
folder, which an empty folder does not have.  What is outside the folder is not known:
there too no named folder is taken to be there, but a file can be made.
-/
namespace Barrage.CommandLine.Folder

/-- Why a file cannot be made. -/
inductive Refusal where
  | noSuchFile
  | isDirectory
  | nameTooLong
  deriving DecidableEq

def Refusal.message : Refusal → String
  | noSuchFile => "No such file or directory (os error 2)"
  | isDirectory => "Is a directory (os error 21)"
  | nameTooLong => "File name too long (os error 36)"

/-- The longest name of a file or folder, in bytes. -/
def longestName : Nat := 255

/-- The longest path, in bytes. -/
def longestPath : Nat := 4095

/-- Whether a part of a path stays in the folder where it is. -/
def stays (part : String) : Bool :=
  part = "" || part = "."

/-- Whether a part of a path leads to a folder that is there. -/
def leadsOn (part : String) : Bool :=
  stays part || part = ".."

/-- Why a part of a path cannot be used as a name, if it cannot. -/
def checkName (part : String) : Except Refusal Unit :=
  if longestName < part.utf8ByteSize then .error .nameTooLong else .ok ()

/-- Goes through the folders that lead to a file. -/
def follow : (folders : List String) → Except Refusal Unit
  | [] => .ok ()
  | part :: rest =>
    if leadsOn part then follow rest
    else do
      checkName part
      throw .noSuchFile

/-- The name of the file that is made for a path, unless it is made outside the folder. -/
def entry (path : String) : Except Refusal (Option String) :=
  if path = "" then .error .noSuchFile
  else if longestPath < path.utf8ByteSize then .error .nameTooLong
  else
    let parts := path.splitOn "/"
    let named := parts.reverse.dropWhile (· = "")
    match named with
    | [] => .error .isDirectory
    | name :: before => do
      follow before.reverse
      if leadsOn name || parts.getLast? = some "" then
        throw .isDirectory
      checkName name
      let inside := parts.head? ≠ some "" && before.all stays
      return if inside then some name else none

/-- Why no file can be made for a path, if none can. -/
def refusal (path : String) : Option String :=
  match entry path with
  | .ok _ => none
  | .error e => some e.message

end Barrage.CommandLine.Folder
