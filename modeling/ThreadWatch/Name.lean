/-!
# Class names

A class name is written with slashes inside class files and with dots in front of people.
-/

namespace ThreadWatch

def toDotted (name : String) : String := name.map fun c => if c = '/' then '.' else c

def toInternal (name : String) : String := name.map fun c => if c = '.' then '/' else c

end ThreadWatch
