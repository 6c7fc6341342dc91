/-!
# Names of types

How the name of a type is put together from the names of its parts: `[T]`, `[K:V]`, `T?`, `T!E`,
a declared name with its arguments in angle brackets, `fn name(A, B) R`, and `$T` for an open
parameter. A function without a value to return has no return part. Whether a name is generic is
a question about its text.
-/

namespace TypedValues.TypeName

/-- The mark in front of the name of an open parameter. -/
def genericMark : Char := '$'

def commaSeparated : List String → String
  | [] => ""
  | [name] => name
  | name :: rest => name ++ ", " ++ commaSeparated rest

/-- A name that may be left out, with a blank in front. -/
def afterBlank : Option String → String
  | none => ""
  | some name => " " ++ name

/-- The arguments of a struct as part of its name. -/
def arguments : List String → String
  | [] => ""
  | names => "<" ++ commaSeparated names ++ ">"

def list (elem : String) : String := "[" ++ elem ++ "]"
def map (key value : String) : String := "[" ++ key ++ ":" ++ value ++ "]"
def maybe (inner : String) : String := inner ++ "?"
def result (ok err : String) : String := ok ++ "!" ++ err
def struct (name : String) (args : List String) : String := name ++ arguments args

/-- The name of a function, from its declared name and the names of the types of its parameters
and of its return type. -/
def function (name : Option String) (params : List String) (ret : Option String) : String :=
  "fn" ++ afterBlank name ++ "(" ++ commaSeparated params ++ ")" ++ afterBlank ret

def var (name : String) : String := String.singleton genericMark ++ name

/-- Whether a name has the mark of an open parameter in it. -/
def isGeneric (name : String) : Bool := name.toList.contains genericMark

end TypedValues.TypeName
