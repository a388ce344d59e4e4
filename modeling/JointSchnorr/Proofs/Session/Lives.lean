import Mathlib
import JointSchnorr.Proofs.Session.Steps

/-!
# Lives of signatories

A run of a session leaves a history under each name: which signatories were created, which nonces
they drew, which shares they issued, what they accepted and which of their transitions failed. An
event is read off a step and its answer, without a look at the signatory (`event?`), and the events
tell all that is published under the name (`published_eq`).

Whatever steps a run takes, the history of a name is a row of lives, each of one signatory from its
creation on (`Lives`). A signatory draws one nonce, issues one share with it and accepts one
signature, in this order, or stops earlier, and a failed transition is the end of its life. So a
nonce signs once (`nonce_signs_once`). A step has no effect under a name, or that of one event on
the occupant of the seat (`step_effect`).
-/

namespace JointSchnorr.Session

/-! ## Histories -/

/-- What happens to a signatory. -/
inductive Event where
  | created (key : PrivateKey) (message : Bytes)
  /-- It draws a nonce under an aggregate key, with `count` random bytes. -/
  | drew (aggregateKey : PublicKey) (nonce : Nonce) (count : Nat)
  /-- It issues its share under an aggregate nonce. -/
  | signed (aggregateNonce : PublicKey) (share : Signature)
  | accepted (signature : Signature) (aggregateKey : PublicKey)
  /-- A transition of it fails. -/
  | failed (e : Error)
deriving DecidableEq

/-- The answer that makes an event known. -/
def Event.answer? : Event → Option Answer
  | created x _ => some (.publicKey x.publicKey)
  | drew _ k count => some (.publicNonce k.publicNonce count)
  | signed _ σ => some (.share σ)
  | accepted σ X => some (.accepted σ X)
  | failed _ => none

/-- What a step with this answer does to the signatory that it names. Keys, aggregates and nonces
are what the step's own arguments stand for in the session before it. -/
def event? (s : Session) : Step → Except Failure Answer → Option Event
  | .create _ m key, .ok (.publicKey _) =>
    (newSignatory m key).toOption.map fun p => .created p.key p.message
  | .generateNonce _ script given, .ok (.publicNonce _ count) => do
    let X ← (resolveAggregate s.aggregateKey given).toOption
    let (k, _) ← (Nonce.generate script).toOption
    return .drew X k count
  | .partialSign _ given, .ok (.share σ) =>
    (resolveAggregate s.aggregateNonce given).toOption.map fun R => .signed R σ
  | .accept _ _, .ok (.accepted σ X) => some (.accepted σ X)
  | .generateNonce _ _ _, .error f =>
    if f = .refused .randomness then some (.failed .randomness) else none
  | .accept _ _, .error f =>
    if f = .refused .invalidSignature then some (.failed .invalidSignature) else none
  | _, _ => none

/-- What a step does to the signatory under a name. -/
def eventFor (s : Session) (id : String) (t : Step) : Option Event :=
  if t.subject = some id then s.event? t (s.step t).2 else none

/-- What a step publishes from the signatory under a name. -/
def answerFor (s : Session) (id : String) (t : Step) : Option Answer :=
  if t.subject = some id then (s.step t).2.toOption else none

/-- What a run does to the signatories under a name. -/
def history (s : Session) (id : String) : List Step → List Event
  | [] => []
  | t :: ts => (s.eventFor id t).toList ++ (s.step t).1.history id ts

/-- What a run publishes from the signatories under a name. -/
def published (s : Session) (id : String) : List Step → List Answer
  | [] => []
  | t :: ts => (s.answerFor id t).toList ++ (s.step t).1.published id ts

/-! ## Lives -/

/-- The life of a signatory with key `x` and message `m` after its creation, and what has become of
it. -/
inductive Life (x : PrivateKey) (m : Bytes) : List Event → Occupant → Prop where
  | created : Life x m [] (.party (.awaitingKey ⟨x, m⟩))
  | drawFailed : Life x m [.failed .randomness] .spent
  | drew (X : PublicKey) (k : Nonce) (count : Nat) :
      Life x m [.drew X k count] (.party (.awaitingNonce ⟨x, m, X, k⟩))
  | signed (X : PublicKey) (k : Nonce) (count : Nat) (R : PublicKey) :
      Life x m [.drew X k count, .signed R (Context.share ⟨X, R, m⟩ x k)]
        (.party (.awaitingSignature ⟨x, m, X, R⟩))
  | refused (X : PublicKey) (k : Nonce) (count : Nat) (R : PublicKey) :
      Life x m
        [.drew X k count, .signed R (Context.share ⟨X, R, m⟩ x k), .failed .invalidSignature]
        .spent
  | accepted (X : PublicKey) (k : Nonce) (count : Nat) (R : PublicKey) (σ : Signature) :
      Life x m [.drew X k count, .signed R (Context.share ⟨X, R, m⟩ x k), .accepted σ X]
        (.party (.finalized ⟨x, m, X, σ⟩))

/-- A row of lives, each begun by a creation, and what has become of the last one. -/
inductive Lives : List Event → Occupant → Prop where
  | nobody : Lives [] .nobody
  | next {x : PrivateKey} {m : Bytes} {earlier life : List Event} {o o' : Occupant}
      (h : Lives earlier o) (hlife : Life x m life o') :
      Lives (earlier ++ .created x m :: life) o'

/-- What an event makes of the occupant of a seat. -/
inductive Event.Moves : Event → Occupant → Occupant → Prop where
  | created (x : PrivateKey) (m : Bytes) (o : Occupant) :
      Moves (.created x m) o (.party (.awaitingKey ⟨x, m⟩))
  | drew (p : Signatory.AwaitingKey) (X : PublicKey) (k : Nonce) (count : Nat) :
      Moves (.drew X k count) (.party (.awaitingKey p))
        (.party (.awaitingNonce ⟨p.key, p.message, X, k⟩))
  | drawFailed (p : Signatory.AwaitingKey) :
      Moves (.failed .randomness) (.party (.awaitingKey p)) .spent
  | signed (p : Signatory.AwaitingNonce) (R : PublicKey) :
      Moves (.signed R (p.partialSign R).2) (.party (.awaitingNonce p))
        (.party (.awaitingSignature (p.partialSign R).1))
  | accepted (p : Signatory.AwaitingSignature) (σ : Signature) :
      Moves (.accepted σ p.aggregateKey) (.party (.awaitingSignature p))
        (.party (.finalized ⟨p.key, p.message, p.aggregateKey, σ⟩))
  | refused (p : Signatory.AwaitingSignature) :
      Moves (.failed .invalidSignature) (.party (.awaitingSignature p)) .spent

/-- An event goes on with the life of a signatory or begins another one. -/
theorem Life.moves {x : PrivateKey} {m : Bytes} {life : List Event} {o o' : Occupant} {e : Event}
    (h : Life x m life o) (he : e.Moves o o') :
    Life x m (life ++ [e]) o' ∨ ∃ y m', e = .created y m' ∧ Life y m' [] o' := by
  -- any event but a creation fixes the stage before it, and the stage fixes the life so far
  cases he with
  | created y m' => exact .inr ⟨y, m', rfl, .created⟩
  | drew p X k count =>
    cases h
    exact .inl (.drew X k count)
  | drawFailed p =>
    cases h
    exact .inl .drawFailed
  | signed p R =>
    cases h with
    | drew X k count => exact .inl (.signed X k count R)
  | accepted p σ =>
    cases h with
    | signed X k count R => exact .inl (.accepted X k count R σ)
  | refused p =>
    cases h with
    | signed X k count R => exact .inl (.refused X k count R)

theorem Lives.moves {es : List Event} {o o' : Occupant} {e : Event} (h : Lives es o)
    (he : e.Moves o o') : Lives (es ++ [e]) o' := by
  cases h with
  | nobody =>
    cases he with
    | created x m => exact Lives.nobody.next .created
  | @next x m earlier life _ _ hearlier hlife =>
    rcases hlife.moves he with hgoes | ⟨y, m', rfl, hnew⟩
    · rw [List.append_assoc, List.cons_append]
      exact hearlier.next hgoes
    · exact (hearlier.next hlife).next hnew

/-! ## Steps -/

/-- The effect of a step under a name, told by its event and its answer: none, or what the event
makes of the occupant. -/
inductive Effect (o o' : Occupant) : Option Event → Option Answer → Prop where
  | nothing (h : o' = o) : Effect o o' none none
  | event {e : Event} (h : e.Moves o o') : Effect o o' (some e) e.answer?

theorem Effect.lives {es : List Event} {o o' : Occupant} {e : Option Event} {a : Option Answer}
    (heffect : Effect o o' e a) (h : Lives es o) : Lives (es ++ e.toList) o' := by
  cases heffect with
  | nothing hsame =>
    rw [Option.toList_none, List.append_nil, hsame]
    exact h
  | event hmoves => exact h.moves hmoves

theorem Effect.answer_eq {o o' : Occupant} {e : Option Event} {a : Option Answer}
    (heffect : Effect o o' e a) : a.toList = e.toList.filterMap Event.answer? := by
  cases heffect with
  | nothing hsame => rfl
  | @event e hmoves => cases e <;> rfl

section Steps

variable (s : Session) (id : String)

theorem create_effect (m : Bytes) (key : KeySource) :
    Effect (s.seats id).occupant ((s.create id m key).1.seats id).occupant
      (s.event? (.create id m key) (s.create id m key).2) (s.create id m key).2.toOption := by
  rcases s.create_cases id m key with ⟨e, hs⟩ | ⟨p, hp, hs⟩
  · rw [hs]
    exact .nothing rfl
  · rw [hs, event?, hp, setSeat_seats_self]
    exact .event (.created p.key p.message _)

theorem generateNonce_effect (script : Bytes) (given : Option Bytes) :
    Effect (s.seats id).occupant ((s.generateNonce id script given).1.seats id).occupant
      (s.event? (.generateNonce id script given) (s.generateNonce id script given).2)
      (s.generateNonce id script given).2.toOption := by
  rcases s.generateNonce_cases id script given with
    ⟨f, hf, hs⟩ | ⟨X, p, hX, hp, ⟨-, hs⟩ | ⟨k, rest, hk, hs⟩⟩
  · rw [hs, event?, if_neg hf]
    exact .nothing rfl
  · rw [hs, event?, if_pos rfl, spend, setSeat_seats_self, hp]
    exact .event (.drawFailed p)
  · rw [hs, event?, hX, hk, setSeat_seats_self, hp]
    exact .event (.drew p X k _)

theorem partialSign_effect (given : Option Bytes) :
    Effect (s.seats id).occupant ((s.partialSign id given).1.seats id).occupant
      (s.event? (.partialSign id given) (s.partialSign id given).2)
      (s.partialSign id given).2.toOption := by
  rcases s.partialSign_cases id given with ⟨f, hs⟩ | ⟨R, p, hR, hp, hs⟩
  · rw [hs]
    exact .nothing rfl
  · rw [hs, event?, hR, setSeat_seats_self, hp]
    exact .event (.signed p R)

theorem accept_effect (given : Option SignatureSource) :
    Effect (s.seats id).occupant ((s.accept id given).1.seats id).occupant
      (s.event? (.accept id given) (s.accept id given).2) (s.accept id given).2.toOption := by
  rcases s.accept_cases id given with
    ⟨f, hf, hs⟩ | ⟨σ, p, -, hp, ⟨-, hs⟩ | ⟨-, hs⟩⟩
  · rw [hs, event?, if_neg hf]
    exact .nothing rfl
  · rw [hs, event?, if_pos rfl, spend, setSeat_seats_self, hp]
    exact .event (.refused p)
  · rw [hs, setSeat_seats_self, hp]
    exact .event (.accepted p σ)

/-- What a step can do under a name. -/
theorem step_effect (t : Step) :
    Effect (s.seats id).occupant ((s.step t).1.seats id).occupant (s.eventFor id t)
      (s.answerFor id t) := by
  by_cases ht : t.subject = some id
  · rw [eventFor, answerFor, if_pos ht, if_pos ht]
    cases t with
    | create name m key =>
      obtain rfl := Option.some.inj ht
      exact s.create_effect name m key
    | generateNonce name script given =>
      obtain rfl := Option.some.inj ht
      exact s.generateNonce_effect name script given
    | partialSign name given =>
      obtain rfl := Option.some.inj ht
      exact s.partialSign_effect name given
    | accept name given =>
      obtain rfl := Option.some.inj ht
      exact s.accept_effect name given
    | _ => exact absurd ht (by simp [Step.subject])
  · rw [eventFor, answerFor, if_neg ht, if_neg ht, seats_step_of_subject_ne ht]
    exact .nothing rfl

/-! ## Runs -/

theorem run_lives (ts : List Step) {es : List Event} (h : Lives es (s.seats id).occupant) :
    Lives (es ++ s.history id ts) ((s.run ts).1.seats id).occupant := by
  -- the row of lives before the run carries the induction, so it varies with the session
  induction ts generalizing s es with
  | nil => rwa [history, List.append_nil]
  | cons t ts ih =>
    rw [history, ← List.append_assoc]
    exact ih (s.step t).1 ((s.step_effect id t).lives h)

/-- A run publishes what its events make known. -/
theorem published_eq (ts : List Step) :
    s.published id ts = (s.history id ts).filterMap Event.answer? := by
  induction ts generalizing s with
  | nil => rfl
  | cons t ts ih =>
    rw [published, history, List.filterMap_append, ih (s.step t).1, (s.step_effect id t).answer_eq]

end Steps

/-- **A nonce signs once.** Whatever steps a run takes, what happens under a name is a row of lives.
Each signatory draws at most one nonce and then issues at most one share, which is the share of its
key and of this nonce in the context of its own message, the aggregate key of the draw and the
aggregate nonce of the signing; and nothing follows a failed transition before another creation.
No answer is left out of the row. -/
theorem nonce_signs_once (id : String) (ts : List Step) :
    Lives (empty.history id ts) ((empty.run ts).1.seats id).occupant ∧
      empty.published id ts = (empty.history id ts).filterMap Event.answer? :=
  ⟨empty.run_lives id ts .nobody, empty.published_eq id ts⟩

/-- The first signatory has no random bytes to draw from, the second one issues its share, and the
requests out of order leave no trace. -/
example :
    let x : PrivateKey := ⟨⟨5, by decide⟩⟩
    let k : Nonce := ⟨⟨Scalar.ofBytes (List.replicate 64 1), by decide +kernel⟩⟩
    let B : PublicKey := ⟨Point.base⟩
    empty.history "a"
      [.create "a" [1] (.encoded x.encode.toList),
        .generateNonce "a" [] (some B.encode.toList),
        .partialSign "a" (some B.encode.toList),
        .create "a" [1] (.encoded x.encode.toList),
        .partialSign "a" (some B.encode.toList),
        .generateNonce "a" (List.replicate 64 1) (some B.encode.toList),
        .partialSign "a" (some B.encode.toList),
        .partialSign "a" (some B.encode.toList)] =
      [.created x [1], .failed .randomness, .created x [1], .drew B k 64,
        .signed B (Context.share ⟨B, B, [1]⟩ x k)] := by
  decide +kernel

end JointSchnorr.Session
