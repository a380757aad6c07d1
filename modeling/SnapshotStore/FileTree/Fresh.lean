import SnapshotStore.FileTree.Resolve

namespace SnapshotStore.FileTree

-- The same node under several names of one directory.
def under (directory : Location) (node : Node) (names : List String) : List (Location × Node) :=
  names.map fun name => (name :: directory, node)

def systemDirectories : List (Location × Node) :=
  under [] .directory
      ["bin", "boot", "dev", "etc", "home", "lib", "media", "mnt", "opt", "proc", "root", "run",
        "sbin", "srv", "sys", "usr", "var"] ++
    under ["dev"] .directory ["fd", "pts", "shm"] ++
    under ["proc"] .directory
      ["bus", "driver", "fs", "irq", "net", "self", "sys", "sysvipc", "thread-self", "tty"] ++
    under ["self", "proc"] .directory ["attr", "fd", "fdinfo", "net", "ns", "task"] ++
    under ["sys"] .directory
      ["block", "bus", "class", "dev", "devices", "firmware", "fs", "kernel", "module", "power"]

-- Nothing has opened a terminal, so that one cannot be opened.
def devices : List (Location × Node) :=
  under ["dev"] (.device .sink) ["null", "random", "urandom", "zero"] ++
    under ["dev"] (.device .full) ["full"] ++
    under ["dev"] (.device .unsized) ["ptmx"] ++
    under ["dev"] .socket ["tty"]

-- Most files about the system and the process tell no size before they are read, and a few tell
-- the size zero.
def reports : List (Location × Node) :=
  under ["proc"] (.device .unsized)
      ["buddyinfo", "cgroups", "cmdline", "consoles", "cpuinfo", "crypto", "devices", "diskstats",
        "execdomains", "filesystems", "interrupts", "iomem", "ioports", "kallsyms", "loadavg",
        "locks", "meminfo", "misc", "mounts", "partitions", "softirqs", "stat", "swaps", "uptime",
        "version", "vmstat", "zoneinfo"] ++
    under ["self", "proc"] (.device .unsized)
      ["cgroup", "comm", "cpuset", "gid_map", "io", "limits", "maps", "mountinfo", "mounts",
        "mountstats", "numa_maps", "oom_score", "sched", "schedstat", "smaps", "smaps_rollup",
        "stat", "statm", "status", "uid_map", "wchan"] ++
    under ["self", "proc"] (.file [])
      ["auxv", "cmdline", "coredump_filter", "environ", "loginuid", "oom_adj", "oom_score_adj",
        "sessionid"] ++
    under ["kernel", "sys"] (.device .cut) ["uevent_seqnum"]

def settings : List (Location × Node) :=
  under ["etc"] (.file (Bytes.ofText "localhost\n")) ["hostname"] ++
    under ["etc"] (.file (Bytes.ofText "127.0.0.1\tlocalhost\n")) ["hosts"] ++
    under ["etc"] (.file (Bytes.ofText "root:x:0:\n")) ["group", "passwd"]

def pathTo (location : Location) : Path :=
  ⟨"/" ++ "/".intercalate location.reverse⟩

-- What a process finds of itself: where it stands, its root and its program, which is no text.
def ofProcess (home : Location) : List (Location × Node) :=
  under ["self", "proc"] (.link (pathTo home)) ["cwd"] ++
    under ["self", "proc"] (.link (pathTo [])) ["root"] ++
    under ["self", "proc"] (.file [0x7f, 0x45, 0x4c, 0x46, 0xff]) ["exe"]

-- A location with every directory that leads to it.
def withAncestors : Location → List (Location × Node)
  | [] => []
  | name :: parent => (name :: parent, .directory) :: withAncestors parent

-- What a process finds that has just been given an empty home directory. All that is the system's
-- own is closed.
def fresh (home : Location) : FileTree where
  nodes :=
    .ofEntries (systemDirectories ++ devices ++ reports ++ settings ++ ofProcess home ++
      under [] .directory ["tmp"] ++ withAncestors home)
  home := home
  closed :=
    ([] :: systemDirectories.map (·.1)).filter fun directory =>
      directory.isEmpty || !directory.isSuffixOf home

end SnapshotStore.FileTree
