import EdhocLab.Settings

/-! # Configuration records

Settings and profiles as they stand in a configuration: members by name, or a list with the
members by position.  Unknown names are ignored, and a member of the wrong kind or out of range
refuses the whole record.
-/
namespace EdhocLab

/-- A value of a configuration, in whatever notation it was written. -/
inductive Datum
  | null
  | flag (value : Bool)
  | integer (value : Int)
  /-- A number that is no integer. -/
  | fraction
  | text (value : String)
  | list (items : List Datum)
  | record (members : List (String × Datum))
  deriving Inhabited

namespace Datum

def flag? : Datum → Option Bool
  | flag value => some value
  | _ => none

def text? : Datum → Option String
  | text value => some value
  | _ => none

/-- A number from zero up to, but not including, a limit. -/
def natBelow? (limit : Nat) : Datum → Option Nat
  | integer value => if 0 ≤ value ∧ value < limit then some value.toNat else none
  | _ => none

def byte? (d : Datum) : Option UInt8 := (d.natBelow? 256).map UInt8.ofNat

def bytes? : Datum → Option Bytes
  | list items => items.mapM byte?
  | _ => none

/-- Null, or what `read` reads. -/
def optional? {α : Type} (read : Datum → Option α) : Datum → Option (Option α)
  | null => some none
  | d => (read d).map some

/-- The name of a choice, written as text or as the only member of a record. -/
def choice? : Datum → Option String
  | text value => some value
  | record [(name, null)] => some name
  | _ => none

/-- Whether the datum may hold a record of `size` members. -/
def holdsRecord (size : Nat) : Datum → Bool
  | list items => items.length ≤ size
  | record _ => true
  | _ => false

/-- The member with the given position and name. -/
def member? (d : Datum) (position : Nat) (name : String) : Option Datum :=
  match d with
  | list items => items[position]?
  | record members => members.lookup name
  | _ => none

/-- A member that must be present. -/
def required? {α : Type} (d : Datum) (position : Nat) (name : String)
    (read : Datum → Option α) : Option α := do
  read (← d.member? position name)

/-- A member that has a default. -/
def defaulted? {α : Type} (d : Datum) (position : Nat) (name : String)
    (read : Datum → Option α) (default : α) : Option α :=
  match d.member? position name with
  | some value => read value
  | none => some default

end Datum

/-- Missing members take their defaults. -/
def Settings.ofDatum? (d : Datum) : Option Settings := do
  guard (d.holdsRecord 14)
  let s : Settings := {}
  return {
    version := ← d.defaulted? 0 "protocol_version" (·.choice?.bind Version.ofName?) s.version
    combinedLayout := ← d.defaulted? 1 "combined_message_version"
      (·.choice?.bind CombinedLayout.ofName?) s.combinedLayout
    isInitiator := ← d.defaulted? 2 "is_initiator" Datum.flag? s.isInitiator
    isCoapClient := ← d.defaulted? 3 "is_coap_client" Datum.flag? s.isCoapClient
    cxCorrelation := ← d.defaulted? 4 "cx_correlation" Datum.flag? s.cxCorrelation
    sessionReset := ← d.defaulted? 5 "session_reset" Datum.flag? s.sessionReset
    method := ← d.defaulted? 6 "method" Datum.byte? s.method
    connectionId := ← d.defaulted? 7 "connection_id" Datum.bytes? s.connectionId
    forcedSenderId := ← d.defaulted? 8 "force_oscore_sender_id" (Datum.optional? Datum.bytes?)
      s.forcedSenderId
    forcedRecipientId := ← d.defaulted? 9 "force_oscore_recipient_id"
      (Datum.optional? Datum.bytes?) s.forcedRecipientId
    edhocUri := ← d.defaulted? 10 "edhoc_uri" Datum.text? s.edhocUri
    oscoreUri := ← d.defaulted? 11 "oscore_uri" Datum.text? s.oscoreUri
    replayWindow := ← d.defaulted? 12 "oscore_replay_window" (Datum.natBelow? (2 ^ 32))
      s.replayWindow
    maxUnfragmentedSize := ← d.defaulted? 13 "max_unfragmented_size" (Datum.natBelow? (2 ^ 64))
      s.maxUnfragmentedSize }

/-- All members must be present. -/
def AppProfile.ofDatum? (d : Datum) : Option AppProfile := do
  guard (d.holdsRecord 4)
  return {
    methods := Ascending.ofList (← d.required? 0 "methods" Datum.bytes?)
    useMessage4 := ← d.required? 1 "use_message_4" Datum.flag?
    useOscore := ← d.required? 2 "use_oscore" Datum.flag?
    supportsCombinedRequest := ← d.required? 3 "supports_combined_request" Datum.flag? }

/-- No member is needed in a record of settings. -/
theorem Settings.ofDatum?_empty :
    Settings.ofDatum? (.record []) = some {} ∧ Settings.ofDatum? (.list []) = some {} := ⟨rfl, rfl⟩

end EdhocLab
