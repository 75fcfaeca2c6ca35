import EdhocLab.Bytes

/-! # Settings of an engine

The revision of the protocol, the layout of combined requests, what an engine is configured with,
and the profiles under which a resource uses the handshake.
-/
namespace EdhocLab

/-- A revision of the protocol. -/
inductive Version
  | v14
  | v15
  | v16
  | v17
  | v18
  | v19
  | v20
  | v21
  | v22
  | v23
  deriving DecidableEq, Repr

namespace Version

def number : Version → Nat
  | v14 => 14
  | v15 => 15
  | v16 => 16
  | v17 => 17
  | v18 => 18
  | v19 => 19
  | v20 => 20
  | v21 => 21
  | v22 => 22
  | v23 => 23

def all : List Version := [v14, v15, v16, v17, v18, v19, v20, v21, v22, v23]

/-- The lower case name. -/
def name (version : Version) : String := "v" ++ toString version.number

/-- The revision with the given lower case name. -/
def ofName? (name : String) : Option Version := all.find? fun version => version.name == name

/-- Transcript hashes leave out credentials, and the first key is extracted without salt. -/
def bareTranscript (version : Version) : Bool := version.number ≤ 15

/-- Plaintexts may start with padding, and authorization data comes in pairs. -/
def paddedPlaintext (version : Version) : Bool := version.number ≤ 17

/-- The identifier of the Responder is sent outside of the second ciphertext. -/
def outerResponderId (version : Version) : Bool := version.number ≤ 19

end Version

/-- The layout of a request with message 3 and a protected payload. -/
inductive CombinedLayout
  /-- Two byte strings. -/
  | v06
  /-- A byte string and the protected payload as it is. -/
  | v07
  deriving DecidableEq, Repr

namespace CombinedLayout

def name : CombinedLayout → String
  | v06 => "v06"
  | v07 => "v07"

def ofName? : String → Option CombinedLayout
  | "v06" => some v06
  | "v07" => some v07
  | _ => none

end CombinedLayout

/-- A text that names no revision or layout. -/
inductive VersionError
  | unknown (given : String)
  deriving DecidableEq, Repr

def VersionError.message : VersionError → String
  | unknown given => "Unknown version: " ++ given

/-- The lower case form of a text, with other than ASCII letters left alone. -/
def asciiLower (s : String) : String := s.map Char.toLower

/-- The revision with the given name in any case. -/
def Version.parse (s : String) : Except VersionError Version :=
  match ofName? (asciiLower s) with
  | some version => .ok version
  | none => .error (.unknown s)

/-- The layout with the given name in any case. -/
def CombinedLayout.parse (s : String) : Except VersionError CombinedLayout :=
  match ofName? (asciiLower s) with
  | some layout => .ok layout
  | none => .error (.unknown s)

/-- How an engine is run. -/
structure Settings where
  version : Version := .v23
  combinedLayout : CombinedLayout := .v07
  isInitiator : Bool := true
  isCoapClient : Bool := true
  /-- Whether requests carry a connection identifier in front of the message. -/
  cxCorrelation : Bool := true
  /-- Whether a session is reset completely between runs. -/
  sessionReset : Bool := true
  /-- The authentication method. -/
  method : UInt8 := 0
  connectionId : Bytes := [0x36]
  forcedSenderId : Option Bytes := none
  forcedRecipientId : Option Bytes := none
  /-- The resource that handshake messages are exchanged on. -/
  edhocUri : String := "coap://localhost:5683/.well-known/edhoc"
  /-- The resource whose application data is protected. -/
  oscoreUri : String := "coap://localhost:5683/app"
  replayWindow : Nat := 32
  maxUnfragmentedSize : Nat := 4096
  deriving DecidableEq, Repr

namespace Settings

/-- Requests we send start with the connection identifier of the peer. -/
def prependsOnSend (s : Settings) : Bool := s.isCoapClient && s.cxCorrelation

/-- Requests we receive start with our own connection identifier. -/
def prependsOnReceive (s : Settings) : Bool := !s.isCoapClient && s.cxCorrelation

/-- The Initiator is also the CoAP client. -/
def clientInitiated (s : Settings) : Bool := s.isInitiator == s.isCoapClient

end Settings

/-! ### Finite sets of numbers, as lists in ascending order without repetition -/

namespace Ascending

variable {α : Type} [LT α] [DecidableLT α] [DecidableEq α]

def insert (n : α) : List α → List α
  | [] => [n]
  | m :: ms => if n < m then n :: m :: ms else if n = m then m :: ms else m :: insert n ms

def ofList (ns : List α) : List α := ns.foldl (fun sorted n => insert n sorted) []

end Ascending

/-- How a resource uses the handshake. -/
structure AppProfile where
  /-- The allowed authentication methods, ascending. -/
  methods : List UInt8 := [0, 1, 2, 3]
  useMessage4 : Bool := false
  useOscore : Bool := true
  supportsCombinedRequest : Bool := true
  deriving DecidableEq, Repr

/-- Whether the profile allows an authentication method. -/
def AppProfile.allows (profile : AppProfile) (method : Int) : Bool :=
  profile.methods.any fun m => (m.toNat : Int) == method

end EdhocLab
