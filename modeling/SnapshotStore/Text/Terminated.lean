namespace SnapshotStore.Text

def beforeNull (text : List Char) : List Char :=
  text.takeWhile (· != '\x00')

-- What such a reader sees of a text.
def terminated (text : String) : String :=
  String.ofList (beforeNull text.toList)

end SnapshotStore.Text
