import SnapshotStore.Bytes
import SnapshotStore.Path
import SnapshotStore.Table

namespace SnapshotStore

-- The names that lead to a place, the innermost first, so that its parent is its tail. The root is
-- empty, and always a directory.
abbrev Location := List String

-- Nodes that are opened, read and written in a way of their own.
inductive Device where
  -- reads as empty and swallows what is written
  | sink
  -- reads as empty and refuses what is written
  | full
  -- is only read and has no size that could be determined
  | unsized
  -- is only read and ends before the size that it announces
  | cut
  -- a plain file that may be neither read nor written, whatever is in it
  | sealed (content : Bytes)
  deriving DecidableEq

inductive Node where
  | file (content : Bytes)
  | directory
  | link (target : Path)
  -- a node that cannot be opened
  | socket
  | device (kind : Device)
  deriving DecidableEq

-- In a closed directory no name is added, moved or removed, and plain files can only be read.
-- Relative paths start at the home directory.
structure FileTree where
  nodes : Table Location Node
  home : Location
  closed : List Location

namespace FileTree

instance : Inhabited FileTree := ⟨⟨Table.empty, [], []⟩⟩

def node? (tree : FileTree) (location : Location) : Option Node :=
  if location = [] then some .directory else tree.nodes.get location

def isClosed (tree : FileTree) (directory : Location) : Bool :=
  tree.closed.contains directory

def set (tree : FileTree) (location : Location) (node : Node) : FileTree :=
  { tree with nodes := tree.nodes.set location node }

def erase (tree : FileTree) (location : Location) : FileTree :=
  { tree with nodes := tree.nodes.erase location }

-- Erases a location and everything below it.
def prune (tree : FileTree) (location : Location) : FileTree :=
  { tree with nodes := tree.nodes.restrict fun l => !location.isSuffixOf l }

theorem node?_set (tree : FileTree) (location l : Location) (node : Node) :
    (tree.set location node).node? l =
      if l = [] then some .directory
      else if location = l then some node else tree.node? l := by
  by_cases h : l = []
  · simp [node?, h]
  · simp [node?, set, h, Table.get_set]

theorem node?_erase (tree : FileTree) (location l : Location) :
    (tree.erase location).node? l =
      if l = [] then some .directory
      else if location = l then none else tree.node? l := by
  by_cases h : l = []
  · simp [node?, h]
  · simp [node?, erase, h, Table.get_erase]

end FileTree

end SnapshotStore
