import Marshal.Json.Codec
import Marshal.MessagePack.Reader

namespace Marshal

/-- Turns whole values into bytes and back. -/
structure ByteCodec where
  name : String
  encode : Value → Action ByteArray
  decode : ByteArray → Action Value

namespace ByteCodec

def messagePack : ByteCodec := ⟨"msgpack", MessagePack.encode .whole, MessagePack.decode .whole⟩

def json : ByteCodec := ⟨"json", Json.encode, Json.decode⟩

end ByteCodec

end Marshal
