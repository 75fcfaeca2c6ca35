import EdhocLab.Aead.Algorithm
import EdhocLab.Coap.Packet

/-! # Failures of message protection -/
namespace EdhocLab.Oscore

inductive Error
  /-- The message has no OSCORE option. -/
  | noOption
  /-- The request lacks its key identifier or partial IV, or no request was sent yet. -/
  | noKidPiv
  /-- The message was received before or is too old. -/
  | replayDetected
  /-- The message has an option that cannot be protected. -/
  | unsupportedOption (number : Nat)
  /-- What was decrypted has no code. -/
  | emptyPlaintext
  /-- No context is installed for the URI. -/
  | unknownContext (uri : String)
  /-- The requested key is too long. -/
  | keyLength
  | aead (failure : Aead.Failure)
  | coap (error : Coap.Error)
  deriving DecidableEq, Repr

/-- The names of the options that cannot be protected. -/
def optionName : Nat → String
  | 6 => "Observe"
  | 23 => "Block2"
  | 27 => "Block1"
  | 28 => "Size2"
  | 60 => "Size1"
  | n => "Unknown(" ++ toString n ++ ")"

def Error.message : Error → String
  | noOption => "CoAP message doesn't contain OSCORE option"
  | noKidPiv => "CoAP request doesn't have kid or piv"
  | replayDetected => "This message has been received already"
  | unsupportedOption number => "Message contains an unsupported option: " ++ optionName number
  | emptyPlaintext => "Decrypted plaintext is empty"
  | unknownContext uri => "No OSCORE security context for " ++ uri
  | keyLength => "invalid number of blocks, too large output"
  | aead failure => failure.message
  | coap error => error.message

end EdhocLab.Oscore
