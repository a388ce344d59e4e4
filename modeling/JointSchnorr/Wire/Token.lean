import JointSchnorr.Bytes

/-!
# JSON tokens

`tokens` cuts a JSON text into tokens, one character after the other. A text that breaks off
or goes wrong yields a `fault` after the tokens before it, so a reader meets a fault only when
it comes to that place. Of a number the only thing kept is its value, if it is written plainly
as an unsigned integer; of a string, its code units, in which escapes stand for the unit that
they write.
-/

namespace JointSchnorr.Wire

/-- A JSON token. -/
inductive Token where
  | openArray
  | closeArray
  | openObject
  | closeObject
  | comma
  | colon
  /-- One of the words `true`, `false` and `null`. -/
  | word
  /-- A number, with its value if it has no sign, fraction or exponent. -/
  | number (plain : Option Nat)
  /-- A string, by its code units. -/
  | text (units : List Nat)
  /-- No token begins here, or the text ends inside one. -/
  | fault
deriving DecidableEq

namespace Token

/-- Where the scan stands within a token. -/
inductive Scan where
  /-- Between tokens. -/
  | idle
  /-- In a word, of which these characters are due. -/
  | word (due : List Char)
  /-- After a minus sign. -/
  | minus
  /-- After the digits before a point; nothing but a zero may begin with a zero. -/
  | whole (plain : Option Nat) (isZero : Bool)
  /-- After a decimal point. -/
  | point
  /-- After a digit behind the point. -/
  | fraction
  /-- After the letter of an exponent. -/
  | exponent
  /-- After the sign of an exponent. -/
  | exponentSign
  /-- After a digit of an exponent. -/
  | power
  /-- In a string, with its units so far, last one first. -/
  | text (units : List Nat)
  /-- After a backslash. -/
  | escape (units : List Nat)
  /-- In a four-digit escape, with the digits left to come and the value so far. -/
  | unit (units : List Nat) (left value : Nat)
  /-- After a fault. -/
  | dead
deriving DecidableEq

/-- The value of a decimal digit. -/
def digit? (c : Char) : Option Nat :=
  if '0' ≤ c ∧ c ≤ '9' then some (c.toNat - 48) else none

/-- The four characters that may stand between tokens. -/
def isBlank (c : Char) : Bool := c = ' ' || c = '\n' || c = '\t' || c = '\r'

/-- The scan after a character at which a token may begin. -/
def start (c : Char) : Scan × List Token :=
  if isBlank c then (.idle, [])
  else if c = '[' then (.idle, [.openArray])
  else if c = ']' then (.idle, [.closeArray])
  else if c = '\x7b' then (.idle, [.openObject])
  else if c = '\x7d' then (.idle, [.closeObject])
  else if c = ',' then (.idle, [.comma])
  else if c = ':' then (.idle, [.colon])
  else if c = '\"' then (.text [], [])
  else if c = '-' then (.minus, [])
  else if c = 't' then (.word ['r', 'u', 'e'], [])
  else if c = 'f' then (.word ['a', 'l', 's', 'e'], [])
  else if c = 'n' then (.word ['u', 'l', 'l'], [])
  else match digit? c with
    | some n => (.whole (some n) (n == 0), [])
    | none => (.dead, [.fault])

/-- The scan after a number has ended before the character. -/
def endNumber (plain : Option Nat) (c : Char) : Scan × List Token :=
  ((start c).1, .number plain :: (start c).2)

/-- The unit that a one-letter escape writes. -/
def escaped? (c : Char) : Option Nat :=
  if c = '\"' ∨ c = '\\' ∨ c = '/' then some c.toNat
  else if c = 'b' then some 8
  else if c = 'f' then some 12
  else if c = 'n' then some 10
  else if c = 'r' then some 13
  else if c = 't' then some 9
  else none

/-- A scan that has gone wrong. -/
def wrong : Scan × List Token := (.dead, [.fault])

/-- The scan after one more character, and the tokens that end with it. -/
def next : Scan → Char → Scan × List Token
  | .idle, c => start c
  | .word [], _ => wrong
  | .word (d :: due), c =>
    if c ≠ d then wrong
    else if due = [] then (.idle, [.word]) else (.word due, [])
  | .minus, c => match digit? c with
    | some n => (.whole none (n == 0), [])
    | none => wrong
  | .whole plain isZero, c => match digit? c with
    | some n => if isZero then wrong else (.whole (plain.map (10 * · + n)) false, [])
    | none =>
      if c = '.' then (.point, [])
      else if c = 'e' ∨ c = 'E' then (.exponent, [])
      else endNumber plain c
  | .point, c => match digit? c with
    | some _ => (.fraction, [])
    | none => wrong
  | .fraction, c => match digit? c with
    | some _ => (.fraction, [])
    | none => if c = 'e' ∨ c = 'E' then (.exponent, []) else endNumber none c
  | .exponent, c => match digit? c with
    | some _ => (.power, [])
    | none => if c = '+' ∨ c = '-' then (.exponentSign, []) else wrong
  | .exponentSign, c => match digit? c with
    | some _ => (.power, [])
    | none => wrong
  | .power, c => match digit? c with
    | some _ => (.power, [])
    | none => endNumber none c
  | .text units, c =>
    if c = '\"' then (.idle, [.text units.reverse])
    else if c = '\\' then (.escape units, [])
    else if c.toNat < 32 then wrong
    else (.text (c.toNat :: units), [])
  | .escape units, c =>
    if c = 'u' then (.unit units 4 0, [])
    else match escaped? c with
      | some u => (.text (u :: units), [])
      | none => wrong
  | .unit units left value, c => match Bytes.hexValue? c with
    | some n =>
      let value := 16 * value + n
      if left ≤ 1 then (.text (value :: units), []) else (.unit units (left - 1) value, [])
    | none => wrong
  | .dead, _ => (.dead, [])

/-- The tokens that end with the text. -/
def finish : Scan → List Token
  | .idle => []
  | .dead => []
  | .whole plain _ => [.number plain]
  | .fraction => [.number none]
  | .power => [.number none]
  | _ => [.fault]

/-- The tokens of a text that begins where the scan stands. -/
def scan : Scan → List Char → List Token
  | state, [] => finish state
  | state, c :: cs => (next state c).2 ++ scan (next state c).1 cs

end Token

/-- The tokens of a JSON text. -/
def tokens (text : List Char) : List Token := Token.scan .idle text

/-- Whether surrogates stand in pairs of a high and a low one, so that the units write a
string of characters. -/
def wellPaired : List Nat → Bool
  | [] => true
  | u :: us =>
    if 0xD800 ≤ u ∧ u < 0xDC00 then
      match us with
      | [] => false
      | v :: vs => 0xDC00 ≤ v && v < 0xE000 && wellPaired vs
    else if 0xDC00 ≤ u ∧ u < 0xE000 then false
    else wellPaired us

end JointSchnorr.Wire
