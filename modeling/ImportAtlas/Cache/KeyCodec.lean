import ImportAtlas.Module.Basic
import ImportAtlas.Text.Binary

/-!
Lists of module keys as octets: their number, then each key as its name, a mark that tells whether
there is a file, and the file. Reading stops behind the last key.
-/

set_option autoImplicit false

namespace ImportAtlas.KeyCodec

open Text (putSize putText takeSize takeText)

def putFile : Option Path → List UInt8
  | none => [0]
  | some file => 1 :: putText file.text

def takeFile : List UInt8 → Option (Option Path × List UInt8)
  | 0 :: r => some (none, r)
  | 1 :: r => (takeText r).map fun (text, r) => (some ⟨text⟩, r)
  | _ => none

def putKey (key : ModuleKey) : List UInt8 :=
  putText key.name ++ putFile key.file

def takeKey (bytes : List UInt8) : Option (ModuleKey × List UInt8) := do
  let (name, r) ← takeText bytes
  let (file, r) ← takeFile r
  some (⟨name, file⟩, r)

def takeKeys : (count : Nat) → List UInt8 → Option (List ModuleKey × List UInt8)
  | 0, r => some ([], r)
  | count + 1, r => do
    let (key, r) ← takeKey r
    let (keys, r) ← takeKeys count r
    some (key :: keys, r)

def encode (keys : List ModuleKey) : List UInt8 :=
  putSize keys.length ++ keys.flatMap putKey

/-- The list of keys at the front of some octets. -/
def decode (bytes : List UInt8) : Option (List ModuleKey) := do
  let (count, r) ← takeSize bytes
  let (keys, _) ← takeKeys count r
  some keys

end ImportAtlas.KeyCodec
