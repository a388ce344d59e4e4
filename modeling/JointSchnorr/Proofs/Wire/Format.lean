import Mathlib
import JointSchnorr.Proofs.Encoding.Key
import JointSchnorr.Proofs.Outcome
import JointSchnorr.Wire.Message

/-!
# Values read from JSON

A value is read from JSON by the decoder of its bytes and in no other way: a text is read exactly if
it holds an array of bytes in the right place and the decoder takes these bytes (`Through`). A
message frames the place of its value by tokens alone, whatever the value is (`Framed`), so this
holds in messages as well. It follows that the keys and nonces in JSON are those that the decoder of
public keys lets through (`exists_decode_of_mem_keyFormats`).
-/

namespace JointSchnorr.Wire.Format

variable {α β : Type} {f : Format α} {g : Format β} {decode : β → Except Error α}

/-- Any array of bytes. -/
def octets : Format Bytes := ofBytes (fun _ => true) .ok id

theorem ofBytes_read_eq_ok_iff {fits : Nat → Bool} {decode : Bytes → Except Error α}
    {encode : α → Bytes} {ts rest : List Token} {a : α} :
    (ofBytes fits decode encode).read ts = .ok (a, rest) ↔
      ∃ b, readBytes ts = some (b, rest) ∧ fits b.length = true ∧ decode b = .ok a := by
  constructor
  · intro h
    simp only [ofBytes] at h
    split at h
    · cases h
    · next b tail hb =>
      split at h
      · next hfits =>
        split at h
        · next c hd =>
          cases h
          exact ⟨b, hb, hfits, hd⟩
        · cases h
      · cases h
  · rintro ⟨b, hb, hfits, hd⟩
    simp only [ofBytes, hb, hfits, if_true, hd]

theorem octets_read_eq_ok_iff {ts rest : List Token} {b : Bytes} :
    octets.read ts = .ok (b, rest) ↔ readBytes ts = some (b, rest) := by
  rw [octets, ofBytes_read_eq_ok_iff]
  simp

theorem decode_eq_ok_iff {text : List Char} {a : α} :
    f.decode text = .ok a ↔ f.read (tokens text) = .ok (a, []) := by
  rw [Format.decode, bind_eq_ok_iff]
  constructor
  · rintro ⟨⟨b, rest⟩, hread, h⟩
    dsimp only at h
    split at h
    · next hrest =>
      subst hrest
      obtain rfl := Except.ok.inj h
      exact hread
    · cases h
  · intro h
    exact ⟨_, h, rfl⟩

/-! ## Messages -/

/-- The tokens are a message around the value at which `inner` begins and behind which `tail` is
left; `rest` is left behind the message. -/
inductive Framed (name : List Char) : (ts inner tail rest : List Token) → Prop where
  | array {inner rest} : Framed name (.openArray :: inner) inner (.closeArray :: rest) rest
  | object {ts inner tail rest} :
    walk (name.map Char.toNat) .nameOrClose [] ts = some (.field (.colon :: inner)) →
    walk (name.map Char.toNat) .more [] tail = some (.closed rest) →
    Framed name (.openObject :: ts) inner tail rest

theorem message_read_eq_ok_iff {name : List Char} {ts rest : List Token} {a : α} :
    (f.message name).read ts = .ok (a, rest) ↔
      ∃ inner tail, Framed name ts inner tail rest ∧ f.read inner = .ok (a, tail) := by
  constructor
  · intro h
    simp only [message] at h
    split at h
    · obtain ⟨⟨b, tail⟩, hb, h⟩ := bind_eq_ok_iff.1 h
      dsimp only at h
      split at h
      · cases h
        exact ⟨_, _, .array, hb⟩
      · cases h
    · split at h
      · next hfield =>
        obtain ⟨⟨b, tail⟩, hb, h⟩ := bind_eq_ok_iff.1 h
        split at h
        · next hclosed =>
          cases h
          exact ⟨_, _, .object hfield hclosed, hb⟩
        · cases h
      · cases h
    · cases h
  · rintro ⟨inner, tail, hframed, hread⟩
    cases hframed with
    | array =>
      simp only [message]
      exact bind_eq_ok_iff.2 ⟨_, hread, rfl⟩
    | object hfield hclosed =>
      simp only [message, hfield]
      refine bind_eq_ok_iff.2 ⟨_, hread, ?_⟩
      simp only [hclosed]
      rfl

/-! ## Formats on top of others -/

/-- `f` reads where `g` does and what `decode` makes of the value there. -/
def Through (f : Format α) (g : Format β) (decode : β → Except Error α) : Prop :=
  ∀ ts a rest, f.read ts = .ok (a, rest) ↔ ∃ b, g.read ts = .ok (b, rest) ∧ decode b = .ok a

theorem through_ofBytes {fits : Nat → Bool} {decode : Bytes → Except Error α}
    (hfits : ∀ b a, decode b = .ok a → fits b.length = true) (encode : α → Bytes) :
    (ofBytes fits decode encode).Through octets decode := by
  intro ts a rest
  rw [ofBytes_read_eq_ok_iff]
  simp only [octets_read_eq_ok_iff]
  constructor
  · rintro ⟨b, hb, -, hd⟩
    exact ⟨b, hb, hd⟩
  · rintro ⟨b, hb, hd⟩
    exact ⟨b, hb, hfits b a hd, hd⟩

/-- A message frames one value as it frames the other. -/
theorem Through.message (h : f.Through g decode) (name : List Char) :
    (f.message name).Through (g.message name) decode := by
  intro ts a rest
  simp only [message_read_eq_ok_iff, h _ _ _]
  constructor
  · rintro ⟨inner, tail, hframed, b, hb, hd⟩
    exact ⟨b, ⟨inner, tail, hframed, hb⟩, hd⟩
  · rintro ⟨b, ⟨inner, tail, hframed, hb⟩, hd⟩
    exact ⟨inner, tail, hframed, b, hb, hd⟩

theorem Through.decode_eq_ok_iff (h : f.Through g decode) {text : List Char} {a : α} :
    f.decode text = .ok a ↔ ∃ b, g.decode text = .ok b ∧ decode b = .ok a := by
  simp only [Format.decode_eq_ok_iff, h _ _ _]

theorem through_publicKey : publicKey.Through octets PublicKey.decode := by
  refine through_ofBytes ?_ _
  intro b X h
  obtain ⟨o, ho, -⟩ := Option.bind_eq_some_iff.1 (PublicKey.decode_eq_ok_iff.1 h).1
  rw [Octets.ofList?_eq_some_iff.1 ho, o.length_toList]
  rfl

theorem through_signature : signature.Through octets Signature.decode :=
  through_ofBytes (fun _ _ _ => rfl) _

/-- The formats of keys and nonces, plain and in messages. -/
def keyFormats : List (Format PublicKey) :=
  [publicKey, publicKeyMessage, aggregateKeyMessage, publicNonceMessage, aggregateNonceMessage]

theorem exists_decode_of_mem_keyFormats {f : Format PublicKey} (hf : f ∈ keyFormats)
    {text : List Char} {X : PublicKey} (h : f.decode text = .ok X) :
    ∃ bs, PublicKey.decode bs = .ok X := by
  have hthrough : ∃ g : Format Bytes, f.Through g PublicKey.decode := by
    simp only [keyFormats, List.mem_cons, List.not_mem_nil, or_false] at hf
    rcases hf with rfl | rfl | rfl | rfl | rfl
    · exact ⟨_, through_publicKey⟩
    all_goals exact ⟨_, through_publicKey.message _⟩
  obtain ⟨g, hg⟩ := hthrough
  obtain ⟨b, -, hb⟩ := hg.decode_eq_ok_iff.1 h
  exact ⟨b, hb⟩

end JointSchnorr.Wire.Format
