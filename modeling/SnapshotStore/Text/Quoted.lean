namespace SnapshotStore.Text

def escaped : List Char → List Char
  | [] => []
  | c :: rest => if c = '"' || c = '\\' then '\\' :: c :: escaped rest else c :: escaped rest

def quoted (text : String) : String :=
  "\"" ++ String.ofList (escaped text.toList) ++ "\""

end SnapshotStore.Text
