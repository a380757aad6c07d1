import SnapshotStore.Failure

namespace SnapshotStore

open Text

class KeyCodec (α : Type) where
  encode : α → String
  decode : String → Except StoreError α

structure IntegerFormat where
  signed : Bool
  bits : Nat
  deriving DecidableEq

namespace IntegerFormat

def i8 : IntegerFormat := ⟨true, 8⟩
def u8 : IntegerFormat := ⟨false, 8⟩
def i16 : IntegerFormat := ⟨true, 16⟩
def u16 : IntegerFormat := ⟨false, 16⟩
def i32 : IntegerFormat := ⟨true, 32⟩
def u32 : IntegerFormat := ⟨false, 32⟩
def i64 : IntegerFormat := ⟨true, 64⟩
def u64 : IntegerFormat := ⟨false, 64⟩

def least (format : IntegerFormat) : Int :=
  if format.signed then -(Int.pow 2 (format.bits - 1)) else 0

def greatest (format : IntegerFormat) : Int :=
  if format.signed then Int.pow 2 (format.bits - 1) - 1 else Int.pow 2 format.bits - 1

def Holds (format : IntegerFormat) (n : Int) : Prop :=
  format.least ≤ n ∧ n ≤ format.greatest

instance (format : IntegerFormat) (n : Int) : Decidable (format.Holds n) :=
  inferInstanceAs (Decidable (_ ∧ _))

-- The number that one or more decimal digits denote.
def magnitude? (digits : List Char) : Option Nat :=
  if digits.isEmpty || !digits.all Char.isDigit then none
  else some (Nat.ofDigitChars 10 digits 0)

def number? (format : IntegerFormat) : List Char → Option Int
  | '-' :: digits =>
    if format.signed then (magnitude? digits).map fun n => -(n : Int) else none
  | digits => (magnitude? digits).map Int.ofNat

-- Leading zeros are read but never written.
def encode (n : Int) : String :=
  decimal n

def decode (format : IntegerFormat) (text : String) : Except StoreError Int :=
  match format.number? text.toList with
  | some n =>
    if format.Holds n then .ok n else .error (.deserialize (.integerKey text))
  | none => .error (.deserialize (.integerKey text))

end IntegerFormat

instance : KeyCodec String where
  encode := id
  decode := .ok

instance : KeyCodec Bool where
  encode value := if value then "true" else "false"
  decode text :=
    if text = "true" then .ok true
    else if text = "false" then .ok false
    else .error (.deserialize (.booleanKey text))

instance : KeyCodec Int64 where
  encode value := IntegerFormat.encode value.toInt
  decode text := (IntegerFormat.i64.decode text).map Int64.ofInt

end SnapshotStore
