namespace SnapshotStore.Text

def decimal (n : Int) : String :=
  match n with
  | .ofNat m => String.ofList (Nat.toDigits 10 m)
  | .negSucc m => String.ofList ('-' :: Nat.toDigits 10 (m + 1))

class Printed (α : Type) where
  printed : α → String

export Printed (printed)

instance : Printed String := ⟨id⟩

instance : Printed Nat := ⟨fun n => decimal n⟩

instance : Printed Int64 := ⟨fun n => decimal n.toInt⟩

end SnapshotStore.Text
