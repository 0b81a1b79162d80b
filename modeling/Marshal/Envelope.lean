import Marshal.MessagePack.Reader
import Marshal.MessagePack.Writer
import Marshal.Tree

namespace Marshal.Envelope

open Marshal.Action

def packValue (v : Value) : Action ByteArray := MessagePack.encode .envelope v

def pack (t : Tree) : Action ByteArray := do
  let (v, g) := (← get).embed t
  set g
  packValue (v.getD .undefined)

def invalid (reason : String) : Fault := .registry (.invalidEnvelope reason)

def notNode (path : String) : Fault := invalid (path ++ " is not a \x7btag, data\x7d object")

def slotPath (path : String) (i : Nat) : String := path ++ ".data[" ++ toString i ++ "]"

/-- Reads a value as a tree, every slot of which is a leaf or a node. The fault names the path to
the first value, from left to right, that is neither. The fuel bounds the nesting. -/
def check (g : Graph) : (fuel : Nat) → (path : String) → Value → Except Fault Tree
  | 0, _, _ => .error .outOfRange
  | fuel + 1, path, v =>
    match g.node? v with
    | none => .error (notNode path)
    | some (tag, data) =>
      if g.isBytes data then .ok (.packed tag data)
      else do
        let slots ← ((g.items? data).getD []).zipIdx.mapM fun (item, i) =>
          match item with
          | none => .ok .hole
          | some w => if g.isLeaf w then .ok (.leaf w) else check g fuel (slotPath path i) w
        return .tuple tag ((g.objectOf? data).bind (·.kind)) slots

def reason : Fault → String
  | .registry error => error.message
  | .cause cause => cause.message
  -- reading a buffer raises nothing of that sort
  | .wordless .. => unspecified

/-- Unpacks a buffer, which has to hold a tree and nothing else. The stack is taken to hold any
nesting that comes to an end: there is fuel for one level more than there are objects. -/
def unpack (bytes : ByteArray) : Action Tree := do
  let v ← tryCatch (MessagePack.decode .envelope bytes) fun fault => throw (invalid (reason fault))
  let g ← get
  match check g (g.size + 2) "$" v with
  | .ok t => return t
  | .error fault => throw fault

end Marshal.Envelope
