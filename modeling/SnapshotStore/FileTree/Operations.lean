import SnapshotStore.FileTree.Resolve

namespace SnapshotStore

-- The three ways in which reading a whole file can fail.
inductive ReadFault where
  | open
  | size
  | read
  deriving DecidableEq

namespace FileTree

def stat (tree : FileTree) (path : Path) : Except Errno Node := do
  match ← tree.resolve true path with
  | .found _ node => .ok node
  | .missing _ _ => .error .noEntry

def exists? (tree : FileTree) (path : Path) : Bool :=
  match tree.stat path with
  | .ok _ => true
  | .error _ => false

def isDirectory (tree : FileTree) (path : Path) : Bool :=
  match tree.stat path with
  | .ok .directory => true
  | _ => false

-- The bytes of a node, read from its start to the size it has at that moment.
def contents : Node → Except ReadFault Bytes
  | .file content => .ok content
  | .directory => .error .read
  | .link _ => .error .open
  | .socket => .error .open
  | .device .sink => .ok []
  | .device .full => .ok []
  | .device .unsized => .error .size
  | .device .cut => .error .read
  | .device (.sealed _) => .error .open

-- The content of a plain file, links followed.
def fileContent? (tree : FileTree) (path : Path) : Option Bytes :=
  match tree.stat path with
  | .ok (.file content) => some content
  | _ => none

-- Opens a file for writing: a plain file is emptied, and a missing one is created, also at the
-- far end of a dangling link.
def create (tree : FileTree) (path : Path) : Except Errno (Location × FileTree) := do
  match ← tree.resolve true path with
  | .found location (.file _) =>
    if tree.isClosed location.tail then .error .accessDenied
    else .ok (location, tree.set location (.file []))
  | .found location (.device .sink) => .ok (location, tree)
  | .found location (.device .full) => .ok (location, tree)
  | .found _ (.device _) => .error .accessDenied
  | .found _ .directory => .error .isDirectory
  | .found _ .socket => .error .noDevice
  | .found _ (.link _) => .error .tooManyLinks
  | .missing parent name =>
    if tree.isClosed parent then .error .accessDenied
    else .ok (name :: parent, tree.set (name :: parent) (.file []))

-- Writes at the end of a file that was opened before.
def append (tree : FileTree) (location : Location) (bytes : Bytes) : Except Errno FileTree :=
  match tree.node? location with
  | some (.file content) => .ok (tree.set location (.file (content ++ bytes)))
  | some (.device .full) => if bytes.isEmpty then .ok tree else .error .noSpace
  | _ => .ok tree

-- Moves a file over another name in one step. Neither name is followed if it is a link, and a
-- directory is neither moved nor replaced.
def rename (tree : FileTree) (source target : Path) : Except Errno FileTree := do
  let (sourceParent, sourceLast) ← tree.parentOf source
  let (targetParent, targetLast) ← tree.parentOf target
  match sourceLast, targetLast with
  | .ordinary sourceName sourceSlash, .ordinary targetName targetSlash =>
    if Path.nameLimit < sourceName.utf8ByteSize then .error .nameTooLong
    else
      match tree.node? (sourceName :: sourceParent) with
      | none => .error .noEntry
      | some .directory => .error .invalid
      | some node =>
        if Path.nameLimit < targetName.utf8ByteSize then .error .nameTooLong
        else if sourceSlash || targetSlash then .error .notDirectory
        else if tree.node? (targetName :: targetParent) = some .directory then
          .error .isDirectory
        else if tree.isClosed sourceParent || tree.isClosed targetParent then
          .error .accessDenied
        else
          .ok ((tree.erase (sourceName :: sourceParent)).set (targetName :: targetParent) node)
  | _, _ => .error .busy

-- The location of a path's last name, the name itself not followed.
def entryOf (tree : FileTree) (path : Path) : Except Errno Location := do
  match ← tree.parentOf path with
  | (parent, .ordinary name _) =>
    if Path.nameLimit < name.utf8ByteSize then .error .nameTooLong else .ok (name :: parent)
  | (_, .special) => .error .invalid

-- Removes a name that is not a directory. Nothing happens if that is not possible.
def discard (tree : FileTree) (path : Path) : FileTree :=
  match tree.entryOf path with
  | .ok location =>
    match tree.node? location with
    | none => tree
    | some .directory => tree
    | some _ => if tree.isClosed location.tail then tree else tree.erase location
  | .error _ => tree

-- Removes a name with everything below it.
def removeAll (tree : FileTree) (path : Path) : FileTree :=
  match tree.entryOf path with
  | .ok location => if tree.isClosed location.tail then tree else tree.prune location
  | .error _ => tree

-- Gives a file new content, creating it if needed. Nothing happens if that is not possible.
def write (tree : FileTree) (path : Path) (bytes : Bytes) : FileTree :=
  match tree.create path with
  | .ok (location, opened) =>
    match opened.append location bytes with
    | .ok written => written
    | .error _ => opened
  | .error _ => tree

-- Adds a node under a name that is free in a directory that is not closed.
def add (tree : FileTree) (path : Path) (node : Node) : FileTree :=
  match tree.parentOf path with
  | .ok (parent, .ordinary name false) =>
    if Path.nameLimit < name.utf8ByteSize || tree.isClosed parent then tree
    else
      match tree.node? (name :: parent) with
      | none => tree.set (name :: parent) node
      | some _ => tree
  | _ => tree

-- A link keeps of its target what the system reads of it, which is neither empty nor too long. The
-- target need not exist.
def addLink (tree : FileTree) (target path : Path) : FileTree :=
  match checkLength target with
  | .ok _ => tree.add path (.link ⟨Text.terminated target.text⟩)
  | .error _ => tree

-- Descends along names and creates the directories that are missing, up to the first one that
-- cannot be created.
def descend (tree : FileTree) : Location → List String → FileTree
  | _, [] => tree
  | here, name :: rest =>
    if name = "." then tree.descend here rest
    else if name = ".." then tree.descend here.tail rest
    else if Path.nameLimit < name.utf8ByteSize then tree
    else
      match tree.node? (name :: here) with
      | none =>
        if tree.isClosed here then tree
        else (tree.set (name :: here) .directory).descend (name :: here) rest
      | some _ =>
        match tree.follow true linkLimit here [name] with
        | .ok (.found location .directory) => tree.descend location rest
        | _ => tree

def makeDirectories (tree : FileTree) (path : Path) : FileTree :=
  match checkLength path with
  | .ok _ => tree.descend (start path tree.home) path.names
  | .error _ => tree

-- Everything below the home directory, by its path relative to that directory, in the order of
-- these paths.
def listing (tree : FileTree) : List (String × Node) :=
  let below := tree.nodes.entries.filterMap fun (location, node) =>
    if tree.home.isSuffixOf location && tree.home.length < location.length then
      let names := (location.take (location.length - tree.home.length)).reverse
      some ("/".intercalate names, node)
    else
      none
  below.mergeSort fun a b => decide (a.1 ≤ b.1)

end FileTree

end SnapshotStore
