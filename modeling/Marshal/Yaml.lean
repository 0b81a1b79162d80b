import Marshal.Number.Decimal

namespace Marshal

/-- What a document in the markup language stands for. A replacement stands for each surrogate that
an escape leaves alone, in texts as in names. -/
inductive Yaml where
  | null
  | bool (b : Bool)
  | number (x : Number)
  | text (s : String)
  | list (items : List Yaml)
  /-- Values under names; a name met again keeps its place and takes the later value. -/
  | mapping (entries : List (String × Yaml))
  /-- A value of another sort, of which only the text matters. -/
  | other (shown : String)

namespace Yaml

/-- The value under a name; nothing for what is no mapping. -/
def field (v : Yaml) (name : String) : Option Yaml :=
  match v with
  | mapping entries => entries.lookup name
  | _ => none

/-- Absence and the null count as not given. -/
def given (v : Option Yaml) : Option Yaml :=
  match v with
  | some null => none
  | v => v

def text? : Yaml → Option String
  | text s => some s
  | _ => none

/-- Null, false, the zeros, not-a-number and the empty text. -/
def isVoid : Yaml → Bool
  | null => true
  | bool b => !b
  | number x => x.isNaN || x.equals Number.zero
  | text s => s.isEmpty
  | _ => false

def isMapping : Yaml → Bool
  | mapping _ | other _ => true
  | _ => false

def isNull : Yaml → Bool
  | null => true
  | _ => false

mutual

/-- The text of a value: lists join their items with commas, and what a mapping holds is not shown.
A mapping with an entry of the name `toString` has no text. -/
def shown? : Yaml → Option String
  | null => some "null"
  | bool b => some (if b then "true" else "false")
  | number x => some x.text
  | text s => some s
  | list items => shownItems? items
  | mapping entries => if (entries.lookup "toString").isSome then none else some "[object Object]"
  | other shown => some shown

/-- The items of a list, in which a null is empty. -/
def shownItems? : List Yaml → Option String
  | [] => some ""
  | item :: rest => do
    let text ← if item.isNull then some "" else shown? item
    if rest.isEmpty then return text
    return text ++ "," ++ (← shownItems? rest)

end

end Yaml

end Marshal
