import SnapshotStore.Errno
import SnapshotStore.Path
import SnapshotStore.Text.Printed
import SnapshotStore.Text.Terminated

namespace SnapshotStore

open Text

inductive ErrorKind where
  | io
  | serialize
  | deserialize
  | config
  deriving DecidableEq

namespace ErrorKind

def text : ErrorKind → String
  | .io => "i/o error"
  | .serialize => "serialization error"
  | .deserialize => "deserialization error"
  | .config => "config error"

def code : ErrorKind → Nat
  | .io => 0
  | .serialize => 1
  | .deserialize => 2
  | .config => 3

def ofCode? (n : Int) : Option ErrorKind :=
  [io, serialize, deserialize, config].find? fun kind => (kind.code : Int) = n

-- The text of a kind given by number. A number that stands for no kind still has a text.
def textOfCode (n : Int) : String :=
  match ofCode? n with
  | some kind => kind.text
  | none => "unknown error"

end ErrorKind

inductive IoCause where
  | stat (path : Path) (reason : Errno)
  | directory (path : Path)
  | openForReading (path : Path)
  | size (path : Path)
  | read (path : Path)
  | openTemporary (temporary : Path)
  | writeTemporary (temporary : Path)
  | rename (temporary path : Path) (reason : Errno)
  | other (text : String)
  deriving DecidableEq

def IoCause.message : IoCause → String
  | .stat path reason => "failed to stat " ++ path.text ++ ": " ++ reason.message
  | .directory path => "is a directory: " ++ path.text
  | .openForReading path => "failed to open file for reading: " ++ path.text
  | .size path => "failed to determine size of file: " ++ path.text
  | .read path => "failed to read file: " ++ path.text
  | .openTemporary temporary => "failed to open temp file for writing: " ++ temporary.text
  | .writeTemporary temporary => "failed to write temp file: " ++ temporary.text
  | .rename temporary path reason =>
    "failed to rename " ++ temporary.text ++ " to " ++ path.text ++ ": " ++ reason.message
  | .other text => text

inductive DecodeCause where
  | integerKey (text : String)
  | booleanKey (text : String)
  | notText
  | badHeader
  | unterminated (line : Nat)
  | noTab (line : Nat)
  | badEscape (line : Nat)
  | other (text : String)
  deriving DecidableEq

def DecodeCause.message : DecodeCause → String
  | .integerKey text => "invalid integer key: '" ++ text ++ "'"
  | .booleanKey text => "invalid boolean key: '" ++ text ++ "'"
  | .notText => "not utf-8"
  | .badHeader => "bad header"
  | .unterminated line => "unterminated line " ++ printed line
  | .noTab line => "no tab in line " ++ printed line
  | .badEscape line => "bad escape in line " ++ printed line
  | .other text => text

inductive ConfigCause where
  | noBackend
  | noPersistence
  | noSerializer
  | noStore
  | noListener
  | noChannel
  | channelRequired
  | noFlushFunction
  | flushInterval
  | policyInterval (milliseconds : Int64)
  | emptyPath
  | directoryPath (path : Path)
  | other (text : String)
  deriving DecidableEq

def ConfigCause.message : ConfigCause → String
  | .noBackend => "backend cannot be null"
  | .noPersistence => "persistence cannot be null"
  | .noSerializer => "serializer cannot be null"
  | .noStore => "store cannot be null"
  | .noListener => "listener cannot be null"
  | .noChannel => "nudge channel cannot be null"
  | .channelRequired => "background policy requires a nudge channel"
  | .noFlushFunction => "flush function cannot be empty"
  | .flushInterval => "flush interval must be greater than 0"
  | .policyInterval milliseconds =>
    "background flush interval must be greater than 0, got " ++ printed milliseconds ++ "ms"
  | .emptyPath => "path cannot be empty"
  | .directoryPath path => "path is a directory: " ++ path.text
  | .other text => text

inductive StoreError where
  | io (cause : IoCause)
  | serialize (text : String)
  | deserialize (cause : DecodeCause)
  | config (cause : ConfigCause)
  deriving DecidableEq

namespace StoreError

def kind : StoreError → ErrorKind
  | .io _ => .io
  | .serialize _ => .serialize
  | .deserialize _ => .deserialize
  | .config _ => .config

-- The text without the kind.
def message : StoreError → String
  | .io cause => cause.message
  | .serialize text => text
  | .deserialize cause => cause.message
  | .config cause => cause.message

-- The text as it is shown. It ends at a null character, should the message have one.
def what (error : StoreError) : String :=
  terminated (error.kind.text ++ ": " ++ error.message)

-- An error that some code outside the library raises with its own words.
def ofText (kind : ErrorKind) (text : String) : StoreError :=
  match kind with
  | .io => .io (.other text)
  | .serialize => .serialize text
  | .deserialize => .deserialize (.other text)
  | .config => .config (.other text)

end StoreError

-- What the caller's own code raises is an error of the store, or some other exception with a text
-- or without one.
inductive Failure where
  | store (error : StoreError)
  | exception (text : String)
  -- something raised that carries no text
  | unknown
  deriving DecidableEq

-- The text that is shown, for a failure that has one.
def Failure.what? : Failure → Option String
  | .store error => some error.what
  | .exception text => some (terminated text)
  | .unknown => none

end SnapshotStore
