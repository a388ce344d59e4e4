import JointSchnorr.Journal.Mark
import JointSchnorr.Session

/-!
# The journals of operations

What each operation of the library enters into its journal. Reading or drawing a secret leaves
an event for each zero; signing, verifying, combining and the rounds of a session are spans.
-/

namespace JointSchnorr.Journal

/-- Reading a secret. -/
def decodeSecret (what : Encoded) (bs : Bytes) : List Mark :=
  if bs.length = 32 ∧ Scalar.ofBytes bs = 0 then [.event (.zeroSecret what)] else []

/-- Reading a private key. -/
def decodePrivateKey (bs : Bytes) : List Mark := decodeSecret .privateKey bs

/-- Reading a nonce. -/
def decodeNonce (bs : Bytes) : List Mark := decodeSecret .secretNonce bs

/-- Drawing a secret: every block before the one that is taken has failed. -/
def drawSecret (script : Bytes) : List Mark :=
  let zeros := match Secret.draw script with
    | .ok (_, rest) => (script.length - rest.length) / 64 - 1
    | .error _ => script.length / 64
  List.replicate zeros (.event .zeroDraw)

/-- Signing with an encoded nonce. -/
def signFromScalar (nonce : Bytes) : List Mark := within .signFromScalar (decodeNonce nonce)

/-- Signing with a drawn nonce. -/
def sign (script : Bytes) : List Mark := within .sign (drawSecret script)

/-- Verifying a signature. -/
def verify (σ : Signature) : List Mark :=
  within .verify
    (if (Point.decodeLarge? σ.r).isNone then [.event .invalidCommitment] else [])

/-- Verifying encodings, which reaches the signature only when both can be read. -/
def verifyBytes (key signature : Bytes) : List Mark :=
  match PublicKey.decode key, Signature.decode signature with
  | .ok _, .ok σ => verify σ
  | _, _ => []

/-- Computing a share from encodings: the nonce is read when the private key and the aggregate
key have been. -/
def partialSign (privateKey aggregateKey nonce : Bytes) : List Mark :=
  within .partialSign <|
    match PrivateKey.decode privateKey, PublicKey.decode aggregateKey with
    | .error _, _ => decodePrivateKey privateKey
    | .ok _, .error _ => []
    | .ok _, .ok _ => decodeNonce nonce

/-- Combining shares. -/
def combine (shares : List Signature) : List Mark :=
  within (.combine shares.length) <|
    match Signature.combine shares with
    | .error (.inconsistentCommitment i) => [.event (.foreignCommitment i)]
    | .error (.malformedInput _) => [.event .invalidCommonCommitment]
    | _ => []

/-- The third round of the aggregator. -/
def aggregateShares (a : Aggregator.AwaitingShares) (shares : List Signature) : List Mark :=
  within (.aggregateShares shares.length) <|
    if shares.length = a.parties then
      match a.walk 0 shares with
      | .passed => combine shares
      | .refused i | .outOfRange i => [.event (.invalidShare i)]
    else []

/-- The acceptance of a signature, which is verified if it carries the aggregate nonce. -/
def accept (p : Signatory.AwaitingSignature) (σ : Signature) : List Mark :=
  if σ.r = p.aggregateNonce.encode then verify σ else []

/-- Reading or drawing the private key of a signatory. -/
def newSignatory : Session.KeySource → List Mark
  | .encoded bs => decodePrivateKey bs
  | .drawn script => drawSecret script

/-- A step of a session. What fails before its stage is asked for leaves no mark. -/
def step (s : Session) : Session.Step → List Mark
  | .create _ _ key => newSignatory key
  | .generateNonce id script X =>
    match Session.resolveAggregate s.aggregateKey X, (s.seats id).occupant with
    | .ok _, .party (.awaitingKey _) => drawSecret script
    | _, _ => []
  | .partialSign id R =>
    match Session.resolveAggregate s.aggregateNonce R, (s.seats id).occupant with
    | .ok _, .party (.awaitingNonce _) => within .signatoryShare []
    | _, _ => []
  | .accept id source =>
    match s.resolveAccepted source, (s.seats id).occupant with
    | .ok σ, .party (.awaitingSignature p) => accept p σ
    | _, _ => []
  | .showSignatory _ => []
  | .openAggregator _ _ => []
  | .aggregateKeys keys =>
    match Session.resolveAll (s.resolvePoint Seat.key) keys, s.aggregator with
    | .ok Xs, some (.awaitingKeys _) => within (.aggregateKeys Xs.length) []
    | _, _ => []
  | .aggregateNonces nonces =>
    match Session.resolveAll (s.resolvePoint Seat.nonce) nonces, s.aggregator with
    | .ok Rs, some (.awaitingNonces _) => within (.aggregateNonces Rs.length) []
    | _, _ => []
  | .aggregateSignatures shares =>
    match Session.resolveAll s.resolveSignature shares, s.aggregator with
    | .ok σs, some (.awaitingShares a) => aggregateShares a σs
    | _, _ => []
  | .showAggregator =>
    match s.aggregator with
    | some (.finalized a) => verify a.signature
    | _ => []

end JointSchnorr.Journal
