/-!
What is asked of the library that makes files of keys shorter: what it packs, it unpacks again. How a
packed file looks is left to the library.
-/

set_option autoImplicit false

namespace ImportAtlas

/-- A lossless compression of octets. -/
class Compression where
  pack : List UInt8 → List UInt8
  /-- None if the octets are not a packed file. -/
  unpack : List UInt8 → Option (List UInt8)
  unpack_pack : ∀ content, unpack (pack content) = some content

end ImportAtlas
