/-!
# About

The name the interpreter goes by and the version of its language.
-/

namespace IntScript.About

def name : String := "freestyle"

def version : String := "0.3.0"

end IntScript.About
