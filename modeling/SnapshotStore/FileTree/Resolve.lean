import SnapshotStore.Errno
import SnapshotStore.FileTree.Basic

namespace SnapshotStore

-- Where a walk ends: at a node, or at a name that an existing directory does not have.
inductive Landing where
  | found (location : Location) (node : Node)
  | missing (parent : Location) (name : String)
  deriving DecidableEq

-- What a walk meets first: its end, an error, or a link to follow before the remaining names.
inductive Stop where
  | landed (landing : Landing)
  | refused (reason : Errno)
  | link (target : Path) (parent : Location) (rest : List String)

-- The last name of a path, if it is an ordinary one. The flag tells whether a slash follows it.
inductive LastName where
  | ordinary (name : String) (slash : Bool)
  | special

namespace FileTree

-- After more links than these a walk gives up, so that a cycle of links ends.
def linkLimit : Nat := 40

-- Walks names until the end or the first link that has to be followed.
def walk (tree : FileTree) (followLast : Bool) : Location → List String → Stop
  | here, [] => .landed (.found here .directory)
  | here, name :: rest =>
    if name = "." then tree.walk followLast here rest
    else if name = ".." then tree.walk followLast here.tail rest
    else if Path.nameLimit < name.utf8ByteSize then .refused .nameTooLong
    else
      match tree.node? (name :: here) with
      | none => if rest.isEmpty then .landed (.missing here name) else .refused .noEntry
      | some .directory => tree.walk followLast (name :: here) rest
      | some (.link target) =>
        if rest.isEmpty && !followLast then .landed (.found (name :: here) (.link target))
        else .link target here rest
      | some node =>
        if rest.isEmpty then .landed (.found (name :: here) node) else .refused .notDirectory

-- The directory that a path starts from.
def start (path : Path) (here : Location) : Location :=
  if path.isAbsolute then [] else here

def follow (tree : FileTree) (followLast : Bool) :
    Nat → Location → List String → Except Errno Landing
  | links, here, names =>
    match tree.walk followLast here names with
    | .landed landing => .ok landing
    | .refused reason => .error reason
    | .link target parent rest =>
      match links with
      | 0 => .error .tooManyLinks
      | links + 1 => tree.follow followLast links (start target parent) (target.steps ++ rest)

-- No path is empty or longer than the system's limit.
def checkLength (path : Path) : Except Errno Unit :=
  if path.systemText.isEmpty then .error .noEntry
  else if path.isTooLong then .error .nameTooLong
  else .ok ()

def resolve (tree : FileTree) (followLast : Bool) (path : Path) : Except Errno Landing := do
  checkLength path
  tree.follow followLast linkLimit (start path tree.home) path.steps

-- The directory that holds a path's last name, and that name.
def parentOf (tree : FileTree) (path : Path) : Except Errno (Location × LastName) := do
  checkLength path
  match path.names.getLast? with
  | none => .ok (start path tree.home, .special)
  | some name =>
    match ← tree.follow true linkLimit (start path tree.home) path.names.dropLast with
    | .found parent .directory =>
      if name = "." || name = ".." then .ok (parent, .special)
      else .ok (parent, .ordinary name path.endsWithSlash)
    | .found _ _ => .error .notDirectory
    | .missing _ _ => .error .noEntry

end FileTree

end SnapshotStore
