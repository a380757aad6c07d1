namespace SnapshotStore

abbrev Bytes := List UInt8

namespace Bytes

def ofText (text : String) : Bytes :=
  text.toUTF8.data.toList

-- Overlong forms, surrogates and cut sequences are not texts.
def toText? (bytes : Bytes) : Option String :=
  String.fromUTF8? ⟨bytes.toArray⟩

end Bytes

end SnapshotStore
