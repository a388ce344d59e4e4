import JointSchnorr.Aggregator
import JointSchnorr.Signatory

/-!
# Sessions

A session has a seat for a signatory under each name, at most one aggregator, and the
aggregates of the last successful rounds. A seat keeps the key, the nonce and the share that
were published from it last, even when its signatory is used up or another one takes the seat.
The steps of a session create, advance and show the signatories and the aggregator. A step
first resolves its arguments, which may refer to what was published, then looks for its
signatory and the stage it needs; up to there a failure changes nothing. A transition that
fails after that uses up its signatory or the aggregator.

`step` is the whole behaviour of a session, and `run` the answers to a list of steps.
-/

namespace JointSchnorr

/-- Who sits under a name. -/
inductive Occupant where
  /-- No signatory was created under the name. -/
  | nobody
  /-- A transition of the signatory has failed. -/
  | spent
  | party (p : Signatory)
deriving DecidableEq

/-- The place of a name in a session. -/
structure Seat where
  occupant : Occupant
  /-- The public key published last. -/
  key : Option PublicKey
  /-- The public nonce published last. -/
  nonce : Option PublicKey
  /-- The share published last. -/
  share : Option Signature
deriving DecidableEq

/-- The seat that no signatory has taken. -/
def Seat.vacant : Seat := ⟨.nobody, none, none, none⟩

/-- A signing session. -/
structure Session where
  seats : String → Seat
  aggregator : Option Aggregator
  /-- The result of the last successful first round. -/
  aggregateKey : Option PublicKey
  /-- The result of the last successful second round. -/
  aggregateNonce : Option PublicKey
  /-- The result of the last successful third round. -/
  jointSignature : Option Signature

namespace Session

/-- The session in which nothing has happened. -/
def empty : Session := ⟨fun _ => Seat.vacant, none, none, none, none⟩

/-- Replaces the seat of a name. -/
def setSeat (s : Session) (id : String) (seat : Seat) : Session :=
  { s with seats := fun other => if other = id then seat else s.seats other }

@[simp] theorem setSeat_seats_self (s : Session) (id : String) (seat : Seat) :
    (s.setSeat id seat).seats id = seat := by
  simp [setSeat]

theorem setSeat_seats_of_ne (s : Session) {id other : String} (seat : Seat)
    (h : other ≠ id) : (s.setSeat id seat).seats other = s.seats other := by
  simp [setSeat, h]

/-! ## Steps and answers -/

/-- Where a new signatory has its private key from. -/
inductive KeySource where
  | encoded (bs : Bytes)
  | drawn (script : Bytes)

/-- Where a round has a public key or nonce from. -/
inductive PointSource where
  | encoded (bs : Bytes)
  | published (id : String)

/-- Where a round or an acceptance has a signature from. -/
inductive SignatureSource where
  | encoded (bs : Bytes)
  | given (σ : Signature)
  | published (id : String)
  /-- A published share with a scalar added to its response. -/
  | shiftedShare (id : String) (t : Scalar)
  /-- The last joint signature with a scalar added to its response. -/
  | shiftedJoint (t : Scalar)

/-- A step of a session. An omitted aggregate or signature is the last one published. -/
inductive Step where
  | create (id : String) (message : Bytes) (key : KeySource)
  | generateNonce (id : String) (script : Bytes) (aggregateKey : Option Bytes)
  | partialSign (id : String) (aggregateNonce : Option Bytes)
  | accept (id : String) (signature : Option SignatureSource)
  | showSignatory (id : String)
  | openAggregator (parties : Nat) (message : Bytes)
  | aggregateKeys (keys : List PointSource)
  | aggregateNonces (nonces : List PointSource)
  | aggregateSignatures (shares : List SignatureSource)
  | showAggregator

/-- What a step looks for in the session. -/
inductive Lookup where
  | party
  | aggregate
  | signature
  | reference
deriving DecidableEq

/-- Why a step fails. -/
inductive Failure where
  | refused (e : Error)
  /-- The signatory or the aggregator is not at the stage that the step needs. -/
  | unavailable
  /-- The session has nothing of the kind that the step refers to. -/
  | missing (what : Lookup)
deriving DecidableEq

/-- What a step that succeeds answers. -/
inductive Answer where
  | publicKey (X : PublicKey)
  /-- The public nonce, and the count of random bytes drawn for it. -/
  | publicNonce (R : PublicKey) (drawn : Nat)
  | share (σ : Signature)
  | accepted (σ : Signature) (aggregateKey : PublicKey)
  | signatory (party : Signatory)
  | spentSignatory
  | opened
  | aggregateKey (X : PublicKey)
  | aggregateNonce (R : PublicKey)
  | jointSignature (σ : Signature)
  | aggregator (a : Aggregator)
  | noAggregator

/-! ## Arguments -/

/-- Reads an encoded aggregate, or takes the last one. -/
def resolveAggregate (last : Option PublicKey) :
    Option Bytes → Except Failure PublicKey
  | some bs => (PublicKey.decode bs).mapError .refused
  | none => match last with
    | some X => .ok X
    | none => .error (.missing .aggregate)

/-- Something published from a seat. -/
def resolveReference {α : Type} : Option α → Except Failure α
  | some a => .ok a
  | none => .error (.missing .reference)

/-- Reads a point, or takes the one that a seat keeps: its key or its nonce. -/
def resolvePoint (s : Session) (kept : Seat → Option PublicKey) :
    PointSource → Except Failure PublicKey
  | .encoded bs => (PublicKey.decode bs).mapError .refused
  | .published id => resolveReference (kept (s.seats id))

/-- Reads a signature, or takes one that was published. -/
def resolveSignature (s : Session) : SignatureSource → Except Failure Signature
  | .encoded bs => (Signature.decode bs).mapError .refused
  | .given σ => .ok σ
  | .published id => resolveReference (s.seats id).share
  | .shiftedShare id t => (resolveReference (s.seats id).share).map (·.shift t)
  | .shiftedJoint t => (resolveReference s.jointSignature).map (·.shift t)

/-- Resolves a list from its head. -/
def resolveAll {α β : Type} (resolve : α → Except Failure β) :
    List α → Except Failure (List β)
  | [] => .ok []
  | a :: as => do
    let b ← resolve a
    let bs ← resolveAll resolve as
    return b :: bs

/-! ## Signatories -/

/-- The first stage of a signatory. -/
def newSignatory (message : Bytes) : KeySource → Except Error Signatory.AwaitingKey
  | .encoded bs => (PrivateKey.decode bs).map fun key => ⟨key, message⟩
  | .drawn script => (Signatory.generate message script).map Prod.fst

/-- Uses up the signatory under a name. -/
def spend (s : Session) (id : String) : Session :=
  s.setSeat id { s.seats id with occupant := .spent }

/-- Creates a signatory under a name, in place of any other one. What that one published stays,
but for its key. -/
def create (s : Session) (id : String) (message : Bytes) (key : KeySource) :
    Session × Except Failure Answer :=
  match newSignatory message key with
  | .error e => (s, .error (.refused e))
  | .ok p =>
    let X := p.key.publicKey
    (s.setSeat id { s.seats id with occupant := .party (.awaitingKey p), key := some X },
      .ok (.publicKey X))

/-- Lets a signatory draw its nonce. -/
def generateNonce (s : Session) (id : String) (script : Bytes) (aggregateKey : Option Bytes) :
    Session × Except Failure Answer :=
  match resolveAggregate s.aggregateKey aggregateKey with
  | .error f => (s, .error f)
  | .ok X => match (s.seats id).occupant with
    | .nobody => (s, .error (.missing .party))
    | .party (.awaitingKey p) => match p.generateNonce X script with
      | .error e => (s.spend id, .error (.refused e))
      | .ok (q, rest) =>
        let R := q.nonce.publicNonce
        (s.setSeat id { s.seats id with occupant := .party (.awaitingNonce q), nonce := some R },
          .ok (.publicNonce R (script.length - rest.length)))
    | _ => (s, .error .unavailable)

/-- Lets a signatory compute its share. -/
def partialSign (s : Session) (id : String) (aggregateNonce : Option Bytes) :
    Session × Except Failure Answer :=
  match resolveAggregate s.aggregateNonce aggregateNonce with
  | .error f => (s, .error f)
  | .ok R => match (s.seats id).occupant with
    | .nobody => (s, .error (.missing .party))
    | .party (.awaitingNonce p) =>
      let (q, σ) := p.partialSign R
      (s.setSeat id { s.seats id with occupant := .party (.awaitingSignature q), share := some σ },
        .ok (.share σ))
    | _ => (s, .error .unavailable)

/-- The signature to accept: the one given, or the last joint signature. -/
def resolveAccepted (s : Session) : Option SignatureSource → Except Failure Signature
  | some source => s.resolveSignature source
  | none => match s.jointSignature with
    | some σ => .ok σ
    | none => .error (.missing .signature)

/-- Lets a signatory accept a signature. -/
def accept (s : Session) (id : String) (signature : Option SignatureSource) :
    Session × Except Failure Answer :=
  match s.resolveAccepted signature with
  | .error f => (s, .error f)
  | .ok σ => match (s.seats id).occupant with
    | .nobody => (s, .error (.missing .party))
    | .party (.awaitingSignature p) => match p.accept σ with
      | .error e => (s.spend id, .error (.refused e))
      | .ok q =>
        (s.setSeat id { s.seats id with occupant := .party (.finalized q) },
          .ok (.accepted q.signature q.aggregateKey))
    | _ => (s, .error .unavailable)

/-- Shows a signatory. -/
def showSignatory (s : Session) (id : String) : Except Failure Answer :=
  match (s.seats id).occupant with
  | .nobody => .error (.missing .party)
  | .spent => .ok .spentSignatory
  | .party p => .ok (.signatory p)

/-! ## The aggregator -/

/-- Opens an aggregator; an earlier one is dropped in any case. -/
def openAggregator (s : Session) (parties : Nat) (message : Bytes) :
    Session × Except Failure Answer :=
  match Aggregator.start parties message with
  | .error e => ({ s with aggregator := none }, .error (.refused e))
  | .ok a => ({ s with aggregator := some (.awaitingKeys a) }, .ok .opened)

/-- Runs the first round. -/
def aggregateKeys (s : Session) (keys : List PointSource) : Session × Except Failure Answer :=
  match resolveAll (s.resolvePoint Seat.key) keys with
  | .error f => (s, .error f)
  | .ok Xs => match s.aggregator with
    | some (.awaitingKeys a) => match a.aggregateKeys Xs with
      | .error e => ({ s with aggregator := none }, .error (.refused e))
      | .ok b =>
        ({ s with aggregator := some (.awaitingNonces b), aggregateKey := some b.aggregateKey },
          .ok (.aggregateKey b.aggregateKey))
    | _ => (s, .error .unavailable)

/-- Runs the second round. -/
def aggregateNonces (s : Session) (nonces : List PointSource) :
    Session × Except Failure Answer :=
  match resolveAll (s.resolvePoint Seat.nonce) nonces with
  | .error f => (s, .error f)
  | .ok Rs => match s.aggregator with
    | some (.awaitingNonces a) => match a.aggregateNonces Rs with
      | .error e => ({ s with aggregator := none }, .error (.refused e))
      | .ok b =>
        ({ s with
            aggregator := some (.awaitingShares b)
            aggregateNonce := some b.aggregateNonce },
          .ok (.aggregateNonce b.aggregateNonce))
    | _ => (s, .error .unavailable)

/-- Runs the third round. -/
def aggregateSignatures (s : Session) (shares : List SignatureSource) :
    Session × Except Failure Answer :=
  match resolveAll s.resolveSignature shares with
  | .error f => (s, .error f)
  | .ok σs => match s.aggregator with
    | some (.awaitingShares a) => match a.aggregateSignatures σs with
      | .error e => ({ s with aggregator := none }, .error (.refused e))
      | .ok b =>
        ({ s with aggregator := some (.finalized b), jointSignature := some b.signature },
          .ok (.jointSignature b.signature))
    | _ => (s, .error .unavailable)

/-- Shows the aggregator. -/
def showAggregator (s : Session) : Answer :=
  match s.aggregator with
  | some a => .aggregator a
  | none => .noAggregator

/-! ## Runs -/

/-- The session after a step, and the step's answer. -/
def step (s : Session) : Step → Session × Except Failure Answer
  | .create id message key => s.create id message key
  | .generateNonce id script X => s.generateNonce id script X
  | .partialSign id R => s.partialSign id R
  | .accept id σ => s.accept id σ
  | .showSignatory id => (s, s.showSignatory id)
  | .openAggregator parties message => s.openAggregator parties message
  | .aggregateKeys keys => s.aggregateKeys keys
  | .aggregateNonces nonces => s.aggregateNonces nonces
  | .aggregateSignatures shares => s.aggregateSignatures shares
  | .showAggregator => (s, .ok s.showAggregator)

/-- The session after a list of steps, and their answers. -/
def run (s : Session) : List Step → Session × List (Except Failure Answer)
  | [] => (s, [])
  | t :: ts =>
    let (s₁, answer) := s.step t
    let (s₂, answers) := s₁.run ts
    (s₂, answer :: answers)

end Session

end JointSchnorr
