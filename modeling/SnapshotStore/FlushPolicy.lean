import SnapshotStore.Failure

namespace SnapshotStore

open Text

inductive FlushPolicy where
  | writeThrough
  | background (milliseconds : Int64)
  | callerDriven
  deriving DecidableEq

namespace FlushPolicy

instance : Inhabited FlushPolicy := ⟨callerDriven⟩

inductive Kind where
  | writeThrough
  | background
  | callerDriven
  deriving DecidableEq

def kind : FlushPolicy → Kind
  | .writeThrough => .writeThrough
  | .background _ => .background
  | .callerDriven => .callerDriven

def Kind.name : Kind → String
  | .writeThrough => "WriteThrough"
  | .background => "BackgroundInterval"
  | .callerDriven => "CallerDriven"

-- Zero for the policies that have no timer.
def interval : FlushPolicy → Int64
  | .background milliseconds => milliseconds
  | _ => 0

def isBackground (policy : FlushPolicy) : Bool :=
  policy.kind = .background

-- There is no upper limit: an interval that no clock can measure means nudges alone.
def validate : FlushPolicy → Except StoreError Unit
  | .background milliseconds =>
    if milliseconds ≤ 0 then .error (.config (.policyInterval milliseconds)) else .ok ()
  | _ => .ok ()

def describe (policy : FlushPolicy) : String :=
  match policy with
  | .background milliseconds => policy.kind.name ++ "(" ++ printed milliseconds ++ "ms)"
  | _ => policy.kind.name

end FlushPolicy

end SnapshotStore
