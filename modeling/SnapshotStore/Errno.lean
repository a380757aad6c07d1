namespace SnapshotStore

inductive Errno where
  | accessDenied
  | noEntry
  | noDevice
  | busy
  | notDirectory
  | isDirectory
  | invalid
  | noSpace
  | nameTooLong
  | tooManyLinks
  deriving DecidableEq

def Errno.message : Errno → String
  | .accessDenied => "Permission denied"
  | .noEntry => "No such file or directory"
  | .noDevice => "No such device or address"
  | .busy => "Device or resource busy"
  | .notDirectory => "Not a directory"
  | .isDirectory => "Is a directory"
  | .invalid => "Invalid argument"
  | .noSpace => "No space left on device"
  | .nameTooLong => "File name too long"
  | .tooManyLinks => "Too many levels of symbolic links"

-- Whether a look at a path was refused because there is nothing there.
def Errno.isAbsence : Errno → Bool
  | .noEntry => true
  | .notDirectory => true
  | _ => false

end SnapshotStore
