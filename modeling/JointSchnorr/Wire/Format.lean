import JointSchnorr.PublicKey
import JointSchnorr.Signature
import JointSchnorr.Wire.Token

/-!
# The JSON form of keys and signatures

A public key is an array of its 32 bytes and a signature an array of its 64; a message is an
object with one field of a given name. Reading goes through the tokens from left to right and
stops at the first fault. The bytes of an array are judged when the array closes, before
anything behind it. Further fields of an object are passed over, whatever their value; a field
of the name that is read must occur once. In place of the object, an array of the one value
is read too.
-/

namespace JointSchnorr.Wire

/-- Why a text is not read. -/
inductive Fault where
  /-- The text is not JSON of the form that is due. -/
  | unfit
  /-- The bytes are no key or signature. -/
  | refused (e : Error)
deriving DecidableEq

/-! ## Arrays of bytes -/

/-- The bytes of an array after one of its elements, and the tokens behind it. -/
def moreBytes : List Token → Option (Bytes × List Token)
  | .closeArray :: rest => some ([], rest)
  | .comma :: .number (some n) :: rest =>
    if n < 256 then (moreBytes rest).map fun (bs, rest) => (UInt8.ofNat n :: bs, rest) else none
  | _ => none

/-- The bytes of an array, and the tokens behind it. -/
def readBytes : List Token → Option (Bytes × List Token)
  | .openArray :: .closeArray :: rest => some ([], rest)
  | .openArray :: .number (some n) :: rest => moreBytes (.comma :: .number (some n) :: rest)
  | _ => none

/-- The text of an array of bytes. -/
def writeBytes (bs : Bytes) : List Char :=
  '[' :: List.intercalate [','] (bs.map fun b => Nat.toDigits 10 b.toNat) ++ [']']

/-! ## Fields of an object -/

/-- What is due within an object or array. -/
inductive Due where
  | value
  | valueOrClose
  | name
  | nameOrClose
  | colon
  | more
deriving DecidableEq

/-- An object or an array that is open. -/
inductive Nest where
  | object
  | array
deriving DecidableEq

/-- What is due after a token at which a value begins. -/
def afterValueToken (inside : List Nest) : Token → Option (Due × List Nest)
  | .word | .number _ | .text _ => some (.more, inside)
  | .openArray => some (.valueOrClose, .array :: inside)
  | .openObject => some (.nameOrClose, .object :: inside)
  | _ => none

/-- What is due after a token between the fields of an object, and what is open then within
that object, innermost first. -/
def advance : Due → List Nest → Token → Option (Due × List Nest)
  | .value, inside, t => afterValueToken inside t
  | .valueOrClose, .array :: inside, .closeArray => some (.more, inside)
  | .valueOrClose, inside, t => afterValueToken inside t
  | .name, inside, .text _ => some (.colon, inside)
  | .nameOrClose, .object :: inside, .closeObject => some (.more, inside)
  | .nameOrClose, inside, .text _ => some (.colon, inside)
  | .colon, inside, .colon => some (.value, inside)
  | .more, .array :: inside, .comma => some (.value, .array :: inside)
  | .more, .array :: inside, .closeArray => some (.more, inside)
  | .more, .object :: inside, .closeObject => some (.more, inside)
  | .more, inside, .comma => some (.name, inside)
  | _, _, _ => none

/-- Where a walk through the fields of an object ends. -/
inductive Stop where
  /-- Behind the name that was looked for. -/
  | field (rest : List Token)
  /-- Behind the object. -/
  | closed (rest : List Token)
deriving DecidableEq

/-- Walks through the fields of an object to a field called `name` or to the end of the object.
The object's own names must be strings of characters; in the values passed over that is not
looked at. -/
def walk (name : List Nat) : Due → List Nest → List Token → Option Stop
  | _, _, [] => none
  | due, inside, t :: ts =>
    match due, inside, t with
    | .name, [], .text units | .nameOrClose, [], .text units =>
      if ¬ wellPaired units then none
      else if units = name then some (.field ts)
      else walk name .colon [] ts
    | .nameOrClose, [], .closeObject | .more, [], .closeObject => some (.closed ts)
    | _, _, _ => match advance due inside t with
      | some (due, inside) => walk name due inside ts
      | none => none

/-! ## Formats -/

/-- How a kind of value is read from tokens and written as text. -/
structure Format (α : Type) where
  /-- The value at the head of the tokens, and the tokens behind it. -/
  read : List Token → Except Fault (α × List Token)
  write : α → List Char

namespace Format

variable {α : Type}

/-- A value written as an array of bytes; `fits` tells the lengths of array that are read. -/
def ofBytes (fits : Nat → Bool) (decode : Bytes → Except Error α) (encode : α → Bytes) :
    Format α where
  read ts := match readBytes ts with
    | none => .error .unfit
    | some (bs, rest) =>
      if fits bs.length then
        match decode bs with
        | .ok a => .ok (a, rest)
        | .error e => .error (.refused e)
      else .error .unfit
  write a := writeBytes (encode a)

/-- A public key is an array of 32 bytes. -/
def publicKey : Format PublicKey :=
  ofBytes (· == 32) PublicKey.decode fun X => X.encode.toList

/-- A signature is an array of bytes. -/
def signature : Format Signature :=
  ofBytes (fun _ => true) Signature.decode fun σ => σ.encode.toList

/-- A message: an object with the one field `name`, whose value is of the format `f`. -/
def message (name : List Char) (f : Format α) : Format α where
  read
    | .openArray :: ts => do
      let (a, rest) ← f.read ts
      match rest with
      | .closeArray :: rest => return (a, rest)
      | _ => .error .unfit
    | .openObject :: ts =>
      let units := name.map Char.toNat
      match walk units .nameOrClose [] ts with
      | some (.field (.colon :: ts)) => do
        let (a, rest) ← f.read ts
        match walk units .more [] rest with
        | some (.closed rest) => return (a, rest)
        | _ => .error .unfit
      | _ => .error .unfit
    | _ => .error .unfit
  write a := '\x7b' :: '\"' :: name ++ '\"' :: ':' :: f.write a ++ ['\x7d']

/-- The value that a text holds, with nothing behind it but blanks. -/
def decode (f : Format α) (text : List Char) : Except Fault α := do
  let (a, rest) ← f.read (tokens text)
  if rest = [] then return a else .error .unfit

/-- The text of the value that a text holds. -/
def recode (f : Format α) (text : List Char) : Except Fault (List Char) :=
  (f.decode text).map f.write

end Format

end JointSchnorr.Wire
