import JointSchnorr.Bytes.Lemmas
import JointSchnorr.Description
import JointSchnorr.Journal.Operation
import JointSchnorr.Journal.Setup
import JointSchnorr.Scalar.Lemmas
import JointSchnorr.Session
import JointSchnorr.Wire.Message
import JointSchnorr.Proofs.Curve.Prime
import JointSchnorr.Proofs.Curve.Coordinates
import JointSchnorr.Proofs.Curve.Group
import JointSchnorr.Proofs.Curve.BasePoint
import JointSchnorr.Proofs.Curve.Encoding
import JointSchnorr.Proofs.Encoding.Scalar
import JointSchnorr.Proofs.Encoding.Signature
import JointSchnorr.Proofs.Aggregates
import JointSchnorr.Proofs.Shares
import JointSchnorr.Proofs.JointSigning
import JointSchnorr.Proofs.Session.Rounds
import JointSchnorr.Proofs.Session.Soundness
import JointSchnorr.Proofs.Session.Signatories
import JointSchnorr.Proofs.Session.Agreement
import JointSchnorr.Proofs.Session.Completeness
import JointSchnorr.Proofs.Binding
import JointSchnorr.Proofs.Extraction
import JointSchnorr.Proofs.Session.Blame
import JointSchnorr.Proofs.Encoding.Draw
import JointSchnorr.Proofs.SigningAlone
import JointSchnorr.Proofs.Tampering.Secrets
import JointSchnorr.Proofs.Session.LastParty
import JointSchnorr.Proofs.EncodedVerification
import JointSchnorr.Proofs.Session.Reordering
import JointSchnorr.Proofs.Session.Steps
import JointSchnorr.Proofs.Session.Lives
import JointSchnorr.Proofs.KeyMaterial
import JointSchnorr.Proofs.Session.Provenance
import JointSchnorr.Proofs.Curve.Parts
import JointSchnorr.Proofs.MixedOrder
import JointSchnorr.Proofs.Session.Footprints
import JointSchnorr.Proofs.Session.Outcomes
import JointSchnorr.Proofs.Subgroups
import JointSchnorr.Proofs.Session.Independence
import JointSchnorr.Proofs.Curve.Decoding
import JointSchnorr.Proofs.Encoding.PublicKey
import JointSchnorr.Proofs.Encoding.Secret
import JointSchnorr.Proofs.Addition
import JointSchnorr.Proofs.Commitment
import JointSchnorr.Proofs.EncodedSigning
import JointSchnorr.Proofs.Encoding.Canonical
import JointSchnorr.Proofs.Sampling
import JointSchnorr.Proofs.Wire.Writing
import JointSchnorr.Proofs.Wire.Kinds
import JointSchnorr.Proofs.Text
import JointSchnorr.Proofs.Pattern.Progress
import JointSchnorr.Proofs.Pattern.Depth
import JointSchnorr.Proofs.Journal.Directives
import JointSchnorr.Proofs.Journal.Filter
import JointSchnorr.Proofs.Journal.Records
import JointSchnorr.Proofs.Journal.Operations
import JointSchnorr.Proofs.Journal.Setup
