import Mathlib
import JointSchnorr.Proofs.Encoding.PublicKey
import JointSchnorr.Proofs.Encoding.Signature
import JointSchnorr.Proofs.Wire.Writing

/-!
# The JSON form of every kind of value

Each kind of value that is written in JSON is the bytes of a key or of a signature in a place of its
own (`Kind.encodes`). Whatever spelling a text has, the bytes in that place decide whether it is
read and as what (`Encodes.decode_eq_ok_iff`), and a value that its bytes are decoded to is read
back from the text that is written for it (`Encodes.readsBack`). So all the spellings of a value
have one normal form (`Kind.json_normal_form`).
-/

namespace JointSchnorr.Wire

/-- The format puts the encoding of a value where `g` puts bytes, and decodes the bytes that `g`
finds there. -/
structure Format.Encodes {α : Type} (f : Format α) (g : Format Bytes)
    (decode : Bytes → Except Error α) (encode : α → Bytes) : Prop where
  through : f.Through g decode
  write_eq : ∀ a, f.write a = g.write (encode a)
  bytesReadBack : ∀ b, g.ReadsBack b

namespace Format.Encodes

variable {α : Type} {f : Format α} {g : Format Bytes} {decode : Bytes → Except Error α}
  {encode : α → Bytes} {a : α}

theorem message {name : List Char} (h : f.Encodes g decode encode) (hname : IsName name) :
    (f.message name).Encodes (g.message name) decode encode where
  through := h.through.message name
  write_eq a := by simp only [Format.message, h.write_eq]
  bytesReadBack b := (h.bytesReadBack b).message hname

theorem readsBack (h : f.Encodes g decode encode) (ha : decode (encode a) = .ok a) :
    f.ReadsBack a := by
  intro cs
  rw [h.write_eq]
  exact (h.through _ _ _).2 ⟨encode a, h.bytesReadBack _ cs, ha⟩

end Format.Encodes

/-! ## The eight kinds -/

/-- What the bytes in a text encode. -/
inductive Content where
  | key
  | signature
deriving DecidableEq

namespace Content

/-- The values of a content. -/
def Value : Content → Type
  | key => PublicKey
  | signature => Signature

def format : (c : Content) → Format c.Value
  | key => Format.publicKey
  | signature => Format.signature

def decode : (c : Content) → Bytes → Except Error c.Value
  | key => PublicKey.decode
  | signature => Signature.decode

def encode : (c : Content) → c.Value → Bytes
  | key => fun X => X.encode.toList
  | signature => fun σ => σ.encode.toList

/-- No key is of small order, and the commitment of a signature is a point. -/
def Valid : (c : Content) → c.Value → Prop
  | key => fun X => ¬ X.point.IsSmallOrder
  | signature => fun σ => (Point.decode? σ.r).isSome = true

/-- What bytes have to be for a value to be read from them. -/
def Wellformed : Content → Bytes → Prop
  | key => fun b => ∃ P : Point, P.WrittenAs b ∧ ¬ P.IsSmallOrder
  | signature => Signature.Wellformed

variable {c : Content} {v : c.Value} {b : Bytes}

theorem encodes (c : Content) : c.format.Encodes Format.octets c.decode c.encode := by
  cases c with
  | key => exact ⟨Format.through_publicKey, fun _ => rfl, Format.octets_readsBack⟩
  | signature => exact ⟨Format.through_signature, fun _ => rfl, Format.octets_readsBack⟩

theorem decode_encode (h : c.Valid v) : c.decode (c.encode v) = .ok v := by
  cases c with
  | key => exact PublicKey.decode_encode (X := v) h
  | signature => exact Signature.decode_eq_ok_iff.2 ⟨rfl, h⟩

theorem valid_of_decode (h : c.decode b = .ok v) : c.Valid v := by
  cases c with
  | key => exact (PublicKey.decode_eq_ok_iff_writtenAs.1 h).2
  | signature => exact (Signature.decode_eq_ok_iff.1 h).2

theorem exists_decode_iff : (∃ v, c.decode b = .ok v) ↔ c.Wellformed b := by
  cases c with
  | key =>
    constructor
    · rintro ⟨X, h⟩
      exact ⟨X.point, PublicKey.decode_eq_ok_iff_writtenAs.1 h⟩
    · rintro ⟨P, h⟩
      exact ⟨⟨P⟩, PublicKey.decode_eq_ok_iff_writtenAs.2 h⟩
  | signature => exact Signature.exists_decode_iff

end Content

namespace Kind

def content : Kind → Content
  | signature | shareMessage | jointSignatureMessage => .signature
  | publicKey | publicKeyMessage | aggregateKeyMessage | publicNonceMessage
  | aggregateNonceMessage => .key

/-- The name of the field that a message has. -/
def field? : Kind → Option (List Char)
  | publicKey | signature => none
  | publicKeyMessage | aggregateKeyMessage => some "public_key".toList
  | publicNonceMessage | aggregateNonceMessage => some "public_nonce".toList
  | shareMessage => some "partial_signature".toList
  | jointSignatureMessage => some "signature".toList

/-- The format `f` in the place where texts of this kind have their content. -/
def around {α : Type} (k : Kind) (f : Format α) : Format α :=
  match k.field? with
  | none => f
  | some name => f.message name

/-- How texts of a kind are read and written. -/
def format (k : Kind) : Format k.content.Value := k.around k.content.format

/-- Texts of a kind with any bytes as their content. -/
def octets (k : Kind) : Format Bytes := k.around Format.octets

theorem recode_eq (k : Kind) (text : String) :
    k.recode text = (k.format.recode text.toList).map String.ofList := by
  cases k <;> rfl

theorem isName_of_field? {k : Kind} {name : List Char} (h : k.field? = some name) :
    Format.IsName name := by
  cases k <;> cases h <;> simp [Format.IsName, Token.IsPlain]

theorem encodes (k : Kind) : k.format.Encodes k.octets k.content.decode k.content.encode := by
  unfold format octets around
  cases h : k.field? with
  | none => exact k.content.encodes
  | some name => exact k.content.encodes.message (isName_of_field? h)

theorem format_decode_eq_ok_iff {k : Kind} {text : List Char} {v : k.content.Value} :
    k.format.decode text = .ok v ↔
      ∃ b, k.octets.decode text = .ok b ∧ k.content.decode b = .ok v :=
  k.encodes.through.decode_eq_ok_iff

theorem format_decode_write {k : Kind} {v : k.content.Value} (h : k.content.Valid v) :
    k.format.decode (k.format.write v) = .ok v :=
  (k.encodes.readsBack (Content.decode_encode h)).decode_write

theorem recode_eq_ok_iff {k : Kind} {text t : String} :
    k.recode text = .ok t ↔
      ∃ v, k.format.decode text.toList = .ok v ∧ t.toList = k.format.write v := by
  rw [recode_eq, Format.recode]
  cases k.format.decode text.toList with
  | error e => simp [Except.map]
  | ok v =>
    simp only [Except.map, Except.ok.injEq, exists_eq_left']
    constructor
    · rintro rfl
      exact String.toList_ofList
    · intro h
      rw [← h, String.ofList_toList]

/-- **All spellings have one normal form.** The public part of a secret and a point that passed as a
key are valid, and what is written for a valid value is read as that value. A text is read exactly
if it holds, in the place that its kind has for them, bytes that make a value: the encoding of a
point that is not of small order, or of a point and a number below `N`. What is written for the
value in a text depends on the value alone, is read as the same value and is left as it is from then
on. -/
theorem json_normal_form :
    (∀ k : Secret, Content.key.Valid k.publicPart) ∧
    (∀ P X, PublicKey.ofPoint P = .ok X → Content.key.Valid X) ∧
    ∀ k : Kind,
      (∀ v : k.content.Value, k.content.Valid v → k.format.decode (k.format.write v) = .ok v) ∧
      (∀ text : String, (∃ t, k.recode text = .ok t) ↔
        ∃ b, k.octets.decode text.toList = .ok b ∧ k.content.Wellformed b) ∧
      ∀ (text : String) (v : k.content.Value), k.format.decode text.toList = .ok v →
        k.content.Valid v ∧
        (∃ b, k.octets.decode text.toList = .ok b ∧ k.content.Wellformed b ∧
          k.content.decode b = .ok v) ∧
        ∃ t, k.recode text = .ok t ∧ t.toList = k.format.write v ∧
          k.format.decode t.toList = .ok v ∧ k.recode t = .ok t := by
  refine ⟨Secret.not_isSmallOrder, ?_, fun k => ⟨fun v hv => format_decode_write hv, ?_, ?_⟩⟩
  · intro P X h
    obtain ⟨rfl, hX⟩ := PublicKey.ofPoint_eq_ok_iff.1 h
    exact hX
  · intro text
    simp only [recode_eq_ok_iff, format_decode_eq_ok_iff, ← Content.exists_decode_iff]
    constructor
    · rintro ⟨t, v, ⟨b, hb, hv⟩, -⟩
      exact ⟨b, hb, v, hv⟩
    · rintro ⟨b, hb, v, hv⟩
      exact ⟨String.ofList (k.format.write v), v, ⟨b, hb, hv⟩, String.toList_ofList⟩
  · intro text v h
    obtain ⟨b, hb, hv⟩ := format_decode_eq_ok_iff.1 h
    have hvalid := Content.valid_of_decode hv
    have hwrite : (String.ofList (k.format.write v)).toList = k.format.write v :=
      String.toList_ofList
    have hback : k.format.decode (String.ofList (k.format.write v)).toList = .ok v := by
      rw [hwrite]
      exact format_decode_write hvalid
    exact ⟨hvalid, ⟨b, hb, Content.exists_decode_iff.1 ⟨v, hv⟩, hv⟩, _,
      recode_eq_ok_iff.2 ⟨v, h, hwrite⟩, hwrite, hback, recode_eq_ok_iff.2 ⟨v, hback, hwrite⟩⟩

/-! A key message that is not in its normal form, and a signature message in the form of an array
whose response is the largest that is read or the first that is not. -/

/-- The aggregate key that all bits set encode, in a message with blanks, further fields and an
escape in the name of its own. -/
def wordyKey : List Char :=
  " \x7b \"x\" : [true, \x7b\"\":-0.5e1\x7d],\n\"public\\u005fkey\" : ".toList ++
    writeBytes (List.replicate 32 255) ++ ", \"y\":null\x7d\t".toList

/-- A signature with the response `s`, in a message in the form of an array. -/
def bareSignature (s : Nat) : List Char :=
  '[' :: writeBytes (Signature.unreducedNeutral ++ Bytes.digits 32 s) ++ [' ', ']']

theorem json_normal_form_wordyKey :
    (∃ t, aggregateKeyMessage.recode (String.ofList wordyKey) = .ok t ∧
      t.toList = Format.aggregateKeyMessage.write PublicKey.eighteenthRow ∧
      t.toList ≠ wordyKey ∧ aggregateKeyMessage.recode t = .ok t) ∧
    (∃ t, jointSignatureMessage.recode (String.ofList (bareSignature (N - 1))) = .ok t) ∧
    ¬ ∃ t, jointSignatureMessage.recode (String.ofList (bareSignature N)) = .ok t := by
  refine ⟨?_, ?_, ?_⟩
  · obtain ⟨-, -, hread⟩ := json_normal_form.2.2 aggregateKeyMessage
    have hkey : PublicKey.decode (List.replicate 32 255) = .ok PublicKey.eighteenthRow :=
      PublicKey.decode_eq_ok_iff.2 ⟨by decide +kernel, by decide +kernel⟩
    have hbytes : aggregateKeyMessage.octets.decode wordyKey = .ok (List.replicate 32 255) := by
      decide +kernel
    have hdecode : aggregateKeyMessage.format.decode (String.ofList wordyKey).toList =
        .ok PublicKey.eighteenthRow := by
      rw [String.toList_ofList]
      exact format_decode_eq_ok_iff.2 ⟨_, hbytes, hkey⟩
    obtain ⟨-, -, t, hrecode, hwrite, -, hagain⟩ := hread _ _ hdecode
    refine ⟨t, hrecode, hwrite, ?_, hagain⟩
    rw [hwrite]
    intro h
    exact absurd (congrArg List.head? h) (by decide)
  · have hbytes : jointSignatureMessage.octets.decode (bareSignature (N - 1)) =
        .ok (Signature.unreducedNeutral ++ Bytes.digits 32 (N - 1)) := by
      decide +kernel
    refine ((json_normal_form.2.2 jointSignatureMessage).2.1 _).2
      ⟨Signature.unreducedNeutral ++ Bytes.digits 32 (N - 1), ?_, ?_⟩
    · rw [String.toList_ofList]
      exact hbytes
    · exact ⟨by decide, ⟨0, Signature.writtenAs_unreducedNeutral _⟩, by decide +kernel⟩
  · have hbytes : jointSignatureMessage.octets.decode (bareSignature N) =
        .ok (Signature.unreducedNeutral ++ Bytes.digits 32 N) := by
      decide +kernel
    rw [(json_normal_form.2.2 jointSignatureMessage).2.1, String.toList_ofList, hbytes]
    rintro ⟨b, hb, hwellformed⟩
    obtain rfl := Except.ok.inj hb
    exact absurd hwellformed.response (by decide +kernel)

end Kind

end JointSchnorr.Wire
