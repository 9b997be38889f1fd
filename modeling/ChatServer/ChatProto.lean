import ChatServer.ChatApp
import ChatServer.Lib.WireFormat

/-!
The messages of chat.proto in the wire format. The classes are generated code,
and what is proved of the program holds for any serialisers and parsers of which
it assumes that parsing undoes serialisation; these are such ones. The parsers
accept what the serialisers emit and nothing else.
-/
namespace ChatServer.ChatProto

open Lib.WireFormat

section Client

/-- The member of the `oneof` that is set. -/
def clientFields : ClientMessage → List Field
  | .login req => [⟨1, .bytes (encodeFields (stringField 1 req.username))⟩]
  | .globalChat req => [⟨2, .bytes (encodeFields (stringField 1 req.text))⟩]
  | .privateChat req =>
      [⟨3, .bytes (encodeFields (stringField 1 req.targetUsername ++ stringField 2 req.text))⟩]
  | .joinRoom req => [⟨4, .bytes (encodeFields (stringField 1 req.roomName))⟩]
  | .roomChat req =>
      [⟨5, .bytes (encodeFields (stringField 1 req.roomName ++ stringField 2 req.text))⟩]
  | .payloadNotSet => []

def serializeClient (msg : ClientMessage) : Bytes := encodeFields (clientFields msg)

def readClient : List Field → Option ClientMessage
  | [] => some .payloadNotSet
  | [⟨1, .bytes b⟩] => do
      let fields ← decodeFields b
      some (.login ⟨← asString (lookup 1 fields)⟩)
  | [⟨2, .bytes b⟩] => do
      let fields ← decodeFields b
      some (.globalChat ⟨← asString (lookup 1 fields)⟩)
  | [⟨3, .bytes b⟩] => do
      let fields ← decodeFields b
      some (.privateChat ⟨← asString (lookup 1 fields), ← asString (lookup 2 fields)⟩)
  | [⟨4, .bytes b⟩] => do
      let fields ← decodeFields b
      some (.joinRoom ⟨← asString (lookup 1 fields)⟩)
  | [⟨5, .bytes b⟩] => do
      let fields ← decodeFields b
      some (.roomChat ⟨← asString (lookup 1 fields), ← asString (lookup 2 fields)⟩)
  | _ => none

def parseClient : Parser := fun s => (decodeFields s).bind readClient

theorem parse_serializeClient (msg : ClientMessage) :
    parseClient (serializeClient msg) = some msg := by
  rw [parseClient, serializeClient, decode_encodeFields, Option.bind_some]
  cases msg with
  | login req => simp [clientFields, readClient, decode_encodeFields]
  | globalChat req => simp [clientFields, readClient, decode_encodeFields]
  | privateChat req =>
    simp [clientFields, readClient, decode_encodeFields, lookup_stringField_ne]
  | joinRoom req => simp [clientFields, readClient, decode_encodeFields]
  | roomChat req =>
    simp [clientFields, readClient, decode_encodeFields, lookup_stringField_ne]
  | payloadNotSet => rfl

end Client

section Server

def serverFields : ServerMessage → List Field
  | .loginResponse resp =>
      [⟨1, .bytes (encodeFields (uintField 1 resp.success.toNat ++ stringField 2 resp.message))⟩]
  | .chatBroadcast resp =>
      [⟨2, .bytes (encodeFields (stringField 1 resp.sender ++ (stringField 2 resp.text ++
        (stringField 3 resp.originRoom ++ uintField 4 resp.timestamp))))⟩]
  | .privateChat resp =>
      [⟨3, .bytes (encodeFields (stringField 1 resp.sender ++ (stringField 2 resp.text ++
        uintField 3 resp.timestamp)))⟩]
  | .error resp => [⟨4, .bytes (encodeFields (stringField 1 resp.reason))⟩]

def serializeServer (msg : ServerMessage) : Bytes := encodeFields (serverFields msg)

def readServer : List Field → Option ServerMessage
  | [⟨1, .bytes b⟩] => do
      let fields ← decodeFields b
      some (.loginResponse ⟨(← asUint (lookup 1 fields)) ≠ 0, ← asString (lookup 2 fields)⟩)
  | [⟨2, .bytes b⟩] => do
      let fields ← decodeFields b
      some (.chatBroadcast ⟨← asString (lookup 1 fields), ← asString (lookup 2 fields),
        ← asString (lookup 3 fields), ← asUint (lookup 4 fields)⟩)
  | [⟨3, .bytes b⟩] => do
      let fields ← decodeFields b
      some (.privateChat ⟨← asString (lookup 1 fields), ← asString (lookup 2 fields),
        ← asUint (lookup 3 fields)⟩)
  | [⟨4, .bytes b⟩] => do
      let fields ← decodeFields b
      some (.error ⟨← asString (lookup 1 fields)⟩)
  | _ => none

def parseServer (s : Bytes) : Option ServerMessage :=
  ((decodeFields s).bind readServer).filter fun msg => serializeServer msg = s

theorem read_serverFields (msg : ServerMessage) : readServer (serverFields msg) = some msg := by
  cases msg with
  | loginResponse resp =>
    obtain ⟨success, message⟩ := resp
    cases success <;>
      simp [serverFields, readServer, decode_encodeFields, lookup_stringField_ne,
        lookup_uintField_ne]
  | chatBroadcast resp =>
    simp [serverFields, readServer, decode_encodeFields, lookup_stringField_ne,
      lookup_uintField_ne]
  | privateChat resp =>
    simp [serverFields, readServer, decode_encodeFields, lookup_stringField_ne,
      lookup_uintField_ne]
  | error resp => simp [serverFields, readServer, decode_encodeFields]

theorem parse_serializeServer (msg : ServerMessage) :
    parseServer (serializeServer msg) = some msg := by
  have hread : (decodeFields (serializeServer msg)).bind readServer = some msg := by
    rw [serializeServer, decode_encodeFields, Option.bind_some, read_serverFields]
  rw [parseServer, hread]
  simp

theorem serialize_parseServer {s : Bytes} {msg : ServerMessage} (h : parseServer s = some msg) :
    serializeServer msg = s := by
  simpa using (Option.filter_eq_some_iff.mp h).2

end Server

end ChatServer.ChatProto
