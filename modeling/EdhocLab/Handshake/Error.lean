import EdhocLab.Cbor.Value
import EdhocLab.Key.Basic
import EdhocLab.Oscore.Error

/-! # Failures of the handshake

Why a message was refused or cannot be built, each with the text that is logged.
-/
namespace EdhocLab.Handshake

/-- The elements of messages and plaintexts. -/
inductive Field
  | leadingTrue
  | method
  | suitesI
  | gX
  | cI
  | cR
  | cX
  | gYCiphertext2
  | ciphertext3
  | ciphertext4
  | idCred
  | idCredR
  | idCredI
  | signatureOrMac2
  | signatureOrMac3
  | errCode
  | errInfo
  | diagMsg
  deriving DecidableEq, Repr

def Field.name : Field → String
  | leadingTrue => "true"
  | method => "METHOD"
  | suitesI => "SUITES_I"
  | gX => "G_X"
  | cI => "C_I"
  | cR => "C_R"
  | cX => "C_X"
  | gYCiphertext2 => "G_Y_CIPHERTEXT_2"
  | ciphertext3 => "CIPHERTEXT_3"
  | ciphertext4 => "CIPHERTEXT_4"
  | idCred => "ID_CRED"
  | idCredR => "ID_CRED_R"
  | idCredI => "ID_CRED_I"
  | signatureOrMac2 => "Signature_or_MAC_2"
  | signatureOrMac3 => "Signature_or_MAC_3"
  | errCode => "ERR_CODE"
  | errInfo => "ERR_INFO"
  | diagMsg => "DIAG_MSG"

/-- The ways in which a message misses its structure. -/
inductive Defect
  | missing (field : Field)
  | wrongType (field : Field)
  | emptyMessage1
  | noLeadingTrue
  | negativeSuite
  | tooFewSuites
  | invalidSuite
  | shortCiphertext2
  | trailingItems (message : Nat)
  | trailingErrorItems
  | emptyPlaintext (message : Nat)
  | equalIdentifiers
  | authorizationData
  | noDiagnostic
  | invalidSuitesR
  | unsupportedCode
  | itemCount
  deriving DecidableEq, Repr

def Defect.message : Defect → String
  | missing field => field.name
  | wrongType field => "Invalid type of " ++ field.name
  | emptyMessage1 => "Empty message 1"
  | noLeadingTrue => "No true in front of message 1"
  | negativeSuite => "Negative cipher suite in SUITES_I"
  | tooFewSuites => "Too few cipher suites in SUITES_I"
  | invalidSuite => "Invalid cipher suite in SUITES_I"
  | shortCiphertext2 => "G_Y_CIPHERTEXT_2 too short"
  | trailingItems message => "Trailing items in message " ++ toString message
  | trailingErrorItems => "Trailing items in error message"
  | emptyPlaintext message => "Empty PLAINTEXT_" ++ toString message
  | equalIdentifiers => "C_R equal to C_I"
  | authorizationData => "Processing EAD"
  | noDiagnostic => "No diagnostic message"
  | invalidSuitesR => "Invalid SUITES_R"
  | unsupportedCode => "Unsupported error code"
  | itemCount => "Wrong number of items"

inductive Error
  | cbor (error : Cbor.Error)
  | malformed (defect : Defect)
  /-- An identifier of a wrong type or in another form than the canonical one. -/
  | invalidIdentifier (field : Field)
  | unknownSession
  | noConnectionId
  | unknownIdentity
  | ownIdentity
  | missingCredential
  | unsupportedSuite
  | unsupportedMethod (method : Int)
  | noCommonSuite
  /-- A hook refused the authorization data. -/
  | authorization (reason : String)
  | key (error : Key.Error)
  | aead (failure : Aead.Failure)
  | kdfLength
  | unknownProfile
  | oscore (error : Oscore.Error)
  deriving DecidableEq, Repr

def Error.message : Error → String
  | cbor error => error.message
  | malformed defect => "Malformed message: " ++ defect.message
  | invalidIdentifier field => "Invalid type or encoding of " ++ field.name
  | unknownSession => "EDHOC session not found"
  | noConnectionId => "No connection identifier is available"
  | unknownIdentity => "The identity of the peer is not recognized"
  | ownIdentity => "The identity of the peer is equal to my own"
  | missingCredential => "Unable to retrieve the credential"
  | unsupportedSuite => "Cipher suite unsupported"
  | unsupportedMethod method => "Authentication method " ++ toString method ++ " is not supported"
  | noCommonSuite => "Impossible to agree on a mutually supported cipher suite"
  | authorization reason => "EAD processing failed: " ++ reason
  | key error => error.message
  | aead failure => failure.message
  | kdfLength => "Invalid length for the EDHOC KDF"
  | unknownProfile => "No application profile for the resource"
  | oscore error => error.message

end EdhocLab.Handshake
