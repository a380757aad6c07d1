import SnapshotStore.KeyCodec
import SnapshotStore.Serializer.Basic
import SnapshotStore.Text.Pieces

namespace SnapshotStore.Lines

def header : List Char := "#snapshot\n".toList

def escape : List Char → List Char
  | [] => []
  | '\\' :: rest => '\\' :: '\\' :: escape rest
  | '\t' :: rest => '\\' :: 't' :: escape rest
  | '\n' :: rest => '\\' :: 'n' :: escape rest
  | c :: rest => c :: escape rest

def unescape : List Char → Option (List Char)
  | [] => some []
  | '\\' :: '\\' :: rest => (unescape rest).map ('\\' :: ·)
  | '\\' :: 't' :: rest => (unescape rest).map ('\t' :: ·)
  | '\\' :: 'n' :: rest => (unescape rest).map ('\n' :: ·)
  | '\\' :: _ => none
  | c :: rest => (unescape rest).map (c :: ·)

section Entries

variable {K V : Type} [KeyCodec K] [KeyCodec V]

def encodeText {α : Type} [KeyCodec α] (x : α) : List Char :=
  escape (KeyCodec.encode x).toList

-- A tab in a text is escaped, so that the first one of a line ends the key.
def encodeLine (entry : K × V) : List Char :=
  encodeText entry.1 ++ '\t' :: encodeText entry.2 ++ ['\n']

def encode (entries : List (K × V)) : List Char :=
  header ++ entries.flatMap encodeLine

def decodeText {α : Type} [KeyCodec α] (line : Nat) (text : List Char) : Except StoreError α :=
  match unescape text with
  | some plain => KeyCodec.decode (String.ofList plain)
  | none => .error (.deserialize (.badEscape line))

-- The key is decoded before the value, so that its fault is the one reported.
def decodeLine (line : Nat) (text : List Char) : Except StoreError (K × V) :=
  match text.dropWhile (· != '\t') with
  | [] => .error (.deserialize (.noTab line))
  | _ :: rest => do
    let key ← decodeText line (text.takeWhile (· != '\t'))
    let value ← decodeText line rest
    .ok (key, value)

-- The stretch after the last newline has to be empty.
def decodeLines : Nat → List (List Char) → Except StoreError (List (K × V))
  | _, [] => .ok []
  | line, [last] =>
    if last.isEmpty then .ok [] else .error (.deserialize (.unterminated line))
  | line, text :: next :: rest => do
    let entry ← decodeLine line text
    let entries ← decodeLines (line + 1) (next :: rest)
    .ok (entry :: entries)

def decode (text : List Char) : Except StoreError (List (K × V)) :=
  if header.isPrefixOf text then
    decodeLines 1 (Text.pieces '\n' (text.drop header.length))
  else
    .error (.deserialize .badHeader)

def deserialize (bytes : Bytes) : Except StoreError (List (K × V)) :=
  match bytes.toText? with
  | some text => decode text.toList
  | none => .error (.deserialize .notText)

-- Entries with equal keys keep their order.
def serialize (le : K → K → Bool) (entries : List (K × V)) : Bytes :=
  .ofText (String.ofList (encode (entries.mergeSort fun a b => le a.1 b.1)))

def serializer (le : K → K → Bool) : Serializer K V where
  serialize entries := .ok (serialize le entries)
  deserialize bytes := (deserialize bytes).mapError .store

end Entries

end SnapshotStore.Lines
