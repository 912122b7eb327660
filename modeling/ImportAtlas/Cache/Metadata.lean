import ImportAtlas.Json
import ImportAtlas.Path

/-!
What is noted beside a stored list of keys.
-/

set_option autoImplicit false

namespace ImportAtlas

/-- A time since the beginning of 1970. -/
structure Time where
  seconds : Nat
  nanoseconds : Nat
  deriving DecidableEq, Repr, Inhabited

namespace Time

def perSecond : Nat := 1000000000

def toJson (t : Time) : Json :=
  .ofFields [("secs_since_epoch", .ofNat t.seconds), ("nanos_since_epoch", .ofNat t.nanoseconds)]

/-- The time of the given parts. Nanoseconds in excess of a second are carried over; the seconds
must fit into sixty-three bits. -/
def ofValues (seconds nanoseconds : Json) : Option Time := do
  let s ← seconds.natBelow? UInt64.size
  let n ← nanoseconds.natBelow? UInt32.size
  let carried := s + n / perSecond
  if 2 * carried < UInt64.size then some ⟨carried, n % perSecond⟩ else none

/-- The time that a value describes. An object has no other keys. -/
def ofJson? : Json → Option Time
  | .object fields =>
    match Json.lookup? ["secs_since_epoch", "nanos_since_epoch"] fields with
    | some [some seconds, some nanoseconds] =>
      if fields.length = 2 then ofValues seconds nanoseconds else none
    | _ => none
  | .array [seconds, nanoseconds] => ofValues seconds nanoseconds
  | _ => none

end Time

/-- The notes on a stored list of keys: the version of its form, when it was stored, how many keys
there are, the version of the program that stored it, and the roots it is for. -/
structure Metadata where
  version : Nat
  createdAt : Time
  entryCount : Nat
  writerVersion : String
  roots : List Path
  deriving DecidableEq, Repr

namespace Metadata

def toJson (m : Metadata) : Json :=
  .ofFields [("version", .ofNat m.version), ("created_at", m.createdAt.toJson),
    ("entry_count", .ofNat m.entryCount), ("writer_version", .ofText m.writerVersion),
    ("roots", .array (m.roots.map fun root => .ofText root.text))]

def pathsOf : Json → Option (List Path)
  | .array items => (items.mapM Json.string?).map fun texts => texts.map Path.mk
  | _ => none

def ofValues (version createdAt entryCount writerVersion roots : Json) : Option Metadata := do
  let version ← version.natBelow? UInt32.size
  let createdAt ← Time.ofJson? createdAt
  let entryCount ← entryCount.natBelow? UInt64.size
  let writerVersion ← writerVersion.string?
  let roots ← pathsOf roots
  some { version, createdAt, entryCount, writerVersion, roots }

def fieldNames : List String :=
  ["version", "created_at", "entry_count", "writer_version", "roots"]

def ofJson? : Json → Option Metadata
  | .object fields =>
    match Json.lookup? fieldNames fields with
    | some [some version, some createdAt, some entryCount, some writerVersion, some roots] =>
      ofValues version createdAt entryCount writerVersion roots
    | _ => none
  | .array [version, createdAt, entryCount, writerVersion, roots] =>
    ofValues version createdAt entryCount writerVersion roots
  | _ => none

def print (m : Metadata) : String :=
  m.toJson.pretty

def parse (text : String) : Option Metadata :=
  (Json.parse text).bind ofJson?

end Metadata

end ImportAtlas
