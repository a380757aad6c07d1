import SnapshotStore.Text.Pieces
import SnapshotStore.Text.Quoted
import SnapshotStore.Text.Terminated

namespace SnapshotStore

-- A path as the caller wrote it. Nothing is normalised.
structure Path where
  text : String
  deriving DecidableEq, Inhabited

namespace Path

-- The part up to and including the last slash.
def directoryPart (p : Path) : List Char :=
  (p.text.toList.reverse.dropWhile (· != '/')).reverse

def fileName (p : Path) : List Char :=
  (p.text.toList.reverse.takeWhile (· != '/')).reverse

-- Stem and extension of a file name. The extension keeps its dot.
def splitExtension (name : List Char) : List Char × List Char :=
  if name = ['.', '.'] then
    (name, [])
  else
    match name.reverse.dropWhile (· != '.') with
    | [] => (name, [])
    | [_] => (name, [])
    | _ :: stem => (stem.reverse, '.' :: (name.reverse.takeWhile (· != '.')).reverse)

def extension (p : Path) : List Char :=
  (splitExtension p.fileName).2

def replaceExtension (p : Path) (ext : List Char) : Path :=
  ⟨String.ofList (p.directoryPart ++ (splitExtension p.fileName).1 ++ ext)⟩

-- The sibling that a new version is written to before it takes the place of the file itself.
-- A file name without an extension is treated as if it ended in ".json".
def temporary (p : Path) : Path :=
  let ext := if p.extension.isEmpty then ".json".toList else p.extension
  p.replaceExtension (ext ++ ".tmp".toList)

-- The operating system stops reading a path at a null character.
def systemText (p : Path) : List Char :=
  Text.beforeNull p.text.toList

-- The longest path and the longest single name the operating system accepts, in bytes.
def pathLimit : Nat := 4095

def nameLimit : Nat := 255

def isTooLong (p : Path) : Bool :=
  pathLimit < (String.ofList p.systemText).utf8ByteSize

def isAbsolute (p : Path) : Bool :=
  p.systemText.head? == some '/'

def endsWithSlash (p : Path) : Bool :=
  p.systemText.getLast? == some '/'

-- Repeated slashes count once.
def names (p : Path) : List String :=
  ((Text.pieces '/' p.systemText).filter (!·.isEmpty)).map String.ofList

-- The names to walk. A slash at the end asks for a directory, as a final "." does.
def steps (p : Path) : List String :=
  if p.endsWithSlash then p.names ++ ["."] else p.names

def quoted (p : Path) : String :=
  Text.quoted p.text

end Path

end SnapshotStore
