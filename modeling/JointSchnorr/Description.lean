import JointSchnorr.Aggregator
import JointSchnorr.Signatory

/-!
# Descriptions

The texts that describe values to a developer. A secret is never shown, and of a point there is
only a placeholder.
-/

namespace JointSchnorr

/-- The text of a record: its name, and its fields with their texts. -/
def describeRecord (name : String) (fields : List (String × String)) : String :=
  name ++ " \x7b " ++ ", ".intercalate (fields.map fun (field, text) => field ++ ": " ++ text) ++
    " \x7d"

/-- Decimal bytes in brackets. -/
def describeBytes (bs : Bytes) : String :=
  "[" ++ ", ".intercalate (bs.map fun b => toString b.toNat) ++ "]"

/-- The text that stands for any point. -/
def Point.placeholder : String := "<point>"

/-- The text of a public key. -/
def PublicKey.description (_ : PublicKey) : String :=
  describeRecord "PublicKey" [("point", Point.placeholder)]

/-- The text of a private key, which shows the public key only. -/
def PrivateKey.description (x : PrivateKey) : String :=
  describeRecord "PrivateKey" [("public_key", x.publicKey.description)]

/-- The text of a nonce, which shows the public nonce only. -/
def Nonce.description (k : Nonce) : String :=
  describeRecord "RandomNonce" [("r_public", k.publicNonce.description)]

/-- The text of a signature. -/
def Signature.description (σ : Signature) : String :=
  describeRecord "Signature"
    [("r", "CompressedEdwardsY: " ++ describeBytes σ.r.toList),
     ("s", "Scalar\x7b\n\tbytes: " ++ describeBytes σ.s.encode.toList ++ ",\n\x7d")]

/-- The text of a signatory at any stage. -/
def Signatory.description (p : Signatory) : String :=
  describeRecord "Signatory"
    [("public_key", p.key.publicKey.description), ("message_len", toString p.message.length)]

namespace Curve

/-- The name of the curve. -/
def name : String := "ed25519"

/-- A name in quotes. -/
def quotedName : String := "\"" ++ name ++ "\""

/-- The text of the curve's parameters. -/
def description : String :=
  describeRecord "Curve"
    [("name", quotedName), ("basepoint", Point.placeholder),
     ("order", describeBytes Scalar.orderOctets.toList)]

end Curve

/-- The text of an aggregator at any stage. -/
def Aggregator.description (a : Aggregator) : String :=
  describeRecord "Aggregator"
    [("curve", Curve.quotedName), ("parties_quantity", toString a.parties),
     ("message", "\"" ++ a.message.hex ++ "\"")]

end JointSchnorr
