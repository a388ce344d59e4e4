import JointSchnorr.Wire.Format

/-!
# What travels in JSON

Besides plain public keys and signatures, six kinds of message travel between the parties of a
session and its aggregator, each with one field. `Kind` lists all eight kinds by name.
-/

namespace JointSchnorr.Wire

namespace Format

/-- A party announces its public key. -/
def publicKeyMessage : Format PublicKey := publicKey.message "public_key".toList

/-- The aggregator announces the sum of the public keys. -/
def aggregateKeyMessage : Format PublicKey := publicKey.message "public_key".toList

/-- A party announces its public nonce. -/
def publicNonceMessage : Format PublicKey := publicKey.message "public_nonce".toList

/-- The aggregator announces the sum of the public nonces. -/
def aggregateNonceMessage : Format PublicKey := publicKey.message "public_nonce".toList

/-- A party announces its share. -/
def shareMessage : Format Signature := signature.message "partial_signature".toList

/-- The aggregator announces the joint signature. -/
def jointSignatureMessage : Format Signature := signature.message "signature".toList

end Format

/-- The kinds of value that are written in JSON. -/
inductive Kind where
  | publicKey
  | signature
  | publicKeyMessage
  | aggregateKeyMessage
  | publicNonceMessage
  | aggregateNonceMessage
  | shareMessage
  | jointSignatureMessage
deriving DecidableEq

namespace Kind

/-- All kinds. -/
def all : List Kind :=
  [publicKey, signature, publicKeyMessage, aggregateKeyMessage, publicNonceMessage,
    aggregateNonceMessage, shareMessage, jointSignatureMessage]

/-- The name of a kind. -/
def name : Kind → String
  | publicKey => "PublicKey"
  | signature => "Signature"
  | publicKeyMessage => "PublicKeyMessage"
  | aggregateKeyMessage => "AggregatedPublicKeyMessage"
  | publicNonceMessage => "PublicNonceMessage"
  | aggregateNonceMessage => "AggregatedNonceMessage"
  | shareMessage => "PartialSignatureMessage"
  | jointSignatureMessage => "AggregatedSignatureMessage"

/-- The kind of a name. -/
def ofName? (name : String) : Option Kind := all.find? fun k => k.name == name

/-- The text of the value of this kind that a text holds. -/
def recode (k : Kind) (text : String) : Except Fault String :=
  let cs := text.toList
  let written := match k with
    | publicKey => Format.publicKey.recode cs
    | signature => Format.signature.recode cs
    | publicKeyMessage => Format.publicKeyMessage.recode cs
    | aggregateKeyMessage => Format.aggregateKeyMessage.recode cs
    | publicNonceMessage => Format.publicNonceMessage.recode cs
    | aggregateNonceMessage => Format.aggregateNonceMessage.recode cs
    | shareMessage => Format.shareMessage.recode cs
    | jointSignatureMessage => Format.jointSignatureMessage.recode cs
  written.map String.ofList

end Kind

end JointSchnorr.Wire
