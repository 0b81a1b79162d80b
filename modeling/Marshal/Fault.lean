import Marshal.Number.Decimal
import Marshal.Text.Units
import Marshal.Value

namespace Marshal

inductive ErrorKind where
  | error | type | range | malformed | reference
deriving DecidableEq, Repr

def ErrorKind.name : ErrorKind → String
  | error => "Error"
  | type => "TypeError"
  | range => "RangeError"
  | malformed => "SyntaxError"
  | reference => "ReferenceError"

inductive Direction where
  | serialize | deserialize
deriving DecidableEq, Repr

def Direction.name : Direction → String
  | serialize => "serialize"
  | deserialize => "deserialize"

/-- What a codec can raise of its own. -/
inductive Cause where
  | error (kind : ErrorKind) (message : String)
  /-- A scalar raised in place of an error. -/
  | scalar (value : Value)
deriving DecidableEq, Repr

/-- The failures of a registry. -/
inductive RegistryError where
  | unregisteredTag (tag : String)
  | codecFailure (tag typeName : String) (direction : Direction) (cause : Cause)
  | duplicateTag (tag boundType requestedType : String)
  | depthExceeded (limit : Number)
  | reservedTag (tag : String)
  | invalidEnvelope (reason : String)
deriving DecidableEq, Repr

/-- Anything an operation can fail with. -/
inductive Fault where
  | registry (error : RegistryError)
  | cause (cause : Cause)
  /-- An error with a message that has no text. Whoever asks for the text fails with what that
  raises. -/
  | wordless (kind : ErrorKind) (raised : Fault)
deriving DecidableEq, Repr

/-- Stands where an operation on values fails without a wording of its own. -/
def unspecified : String := "<engine>"

namespace Fault

def error (message : String) : Fault := .cause (.error .error message)
def typeError (message : String) : Fault := .cause (.error .type message)
def rangeError (message : String) : Fault := .cause (.error .range message)

/-- A value of the wrong sort was used. -/
def misuse : Fault := typeError unspecified
def outOfRange : Fault := rangeError unspecified
def malformed : Fault := .cause (.error .malformed unspecified)

end Fault

def Value.scalarText : Value → String
  | .null => "null"
  | .undefined => "undefined"
  | .bool b => if b then "true" else "false"
  | .number x => x.text
  | .string s => s
  | .brokenText units => String.ofList (Text.charsOfUnits units)
  | .bigint n => toString n
  | .symbol _ => "Symbol()"
  | .object _ => "[object Object]"

namespace Cause

def message : Cause → String
  | error _ text => text
  | scalar value => value.scalarText

end Cause

namespace RegistryError

def code : RegistryError → String
  | unregisteredTag .. => "UnregisteredTag"
  | codecFailure .. => "CodecFailure"
  | duplicateTag .. => "DuplicateTagConflict"
  | depthExceeded .. => "DepthExceeded"
  | reservedTag .. => "ReservedTag"
  | invalidEnvelope .. => "InvalidEnvelope"

def message : RegistryError → String
  | unregisteredTag tag => s!"No codec registered for tag \"{tag}\""
  | codecFailure tag typeName direction cause =>
    s!"Failed to {direction.name} {typeName} with codec \"{tag}\": {cause.message}"
  | duplicateTag tag boundType requestedType =>
    s!"Tag \"{tag}\" is already bound to {boundType}, cannot bind it to {requestedType}"
  | depthExceeded limit =>
    s!"Representation nesting exceeded {limit.text} levels (cyclic values are not supported)"
  | reservedTag tag => s!"Tag \"{tag}\" is reserved for the fallback codec"
  | invalidEnvelope reason => s!"Invalid serialized envelope: {reason}"

end RegistryError

end Marshal
