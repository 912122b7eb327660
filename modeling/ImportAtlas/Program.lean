/-!
The name and version of the program.
-/

set_option autoImplicit false

namespace ImportAtlas

def programName : String := "python-module-index"

def programVersion : String := "0.1.0"

end ImportAtlas
