import Mathlib.Algebra.Order.Ring.Int
import Marginalis.Attachments
import Marginalis.ConsentForm
import Marginalis.NotePatch

/-!
# Headers of MCP requests

A header map has byte strings under lower-case names, a name any number of times. What the MCP
endpoint reads of it are texts : the bearer token (`bearerToken`), the media types that the client
accepts (`acceptsMediaType`) and sends (`contentTypeIsJson`), the origin and the headers of the
protocol.
-/

namespace Marginalis

/-! ## Texts of headers -/

/-- The headers, in the order in which they were sent. -/
abbrev HeaderMap := List (String × List UInt8)

namespace HeaderMap

variable (headers : HeaderMap)

/-- `get` : the first value under a name. -/
def get (name : String) : Option (List UInt8) := headers.lookup name

/-- `get_all`. -/
def getAll (name : String) : List (List UInt8) :=
  (headers.filter fun header => header.1 = name).map Prod.snd

end HeaderMap

/-- `HeaderValue::to_str` : visible ASCII, spaces and tabs. -/
def headerText (value : List UInt8) : Option String :=
  if value.all fun b => b = 9 || (32 ≤ b && b < 127) then
    some (String.ofList (value.map fun b => Char.ofNat b.toNat))
  else none

/-- `header_value`. -/
def headerValue (headers : HeaderMap) (name : String) : Option String :=
  (headers.get name).bind headerText

/-- `eq_ignore_ascii_case`. -/
def eqIgnoreAsciiCase (s t : List Char) : Bool := s.map Char.toLower = t.map Char.toLower

/-! ## Quality values -/

/-- A decimal number, without its sign : the digits before and after the point, and the exponent. -/
structure DecimalLiteral where
  whole : List Char
  fraction : List Char
  exponent : ℤ
  deriving DecidableEq, Repr

namespace DecimalLiteral

/-- The digits of an exponent, after an optional sign. -/
def parseExponent (s : List Char) : Option ℤ :=
  let digits := if s.head? = some '-' ∨ s.head? = some '+' then s.tail else s
  if digits ≠ [] ∧ digits.all Char.isDigit = true then
    some (if s.head? = some '-' then -(Nat.ofDigitChars 10 digits 0 : ℤ)
      else (Nat.ofDigitChars 10 digits 0 : ℤ))
  else none

/-- The numbers that `str::parse::<f32>()` takes, other than infinity and NaN. -/
def parse (s : List Char) : Option DecimalLiteral := do
  let unsigned := if s.head? = some '-' ∨ s.head? = some '+' then s.tail else s
  let mantissa := unsigned.takeWhile fun c => c ≠ 'e' ∧ c ≠ 'E'
  let scientific := unsigned.dropWhile fun c => c ≠ 'e' ∧ c ≠ 'E'
  let whole := mantissa.takeWhile fun c => c ≠ '.'
  let fraction := (mantissa.dropWhile fun c => c ≠ '.').tail
  let exponent ← if scientific = [] then some 0 else parseExponent scientific.tail
  if whole ++ fraction ≠ [] ∧ (whole ++ fraction).all Char.isDigit = true then
    some ⟨whole, fraction, exponent⟩
  else none

/-- The number is rounded to zero : it is at most half of the least positive `f32`. -/
def roundsToZero (literal : DecimalLiteral) : Bool :=
  let digits := Nat.ofDigitChars 10 (literal.whole ++ literal.fraction) 0
  let scale := literal.exponent - literal.fraction.length
  digits * 10 ^ scale.toNat * 2 ^ 150 ≤ 10 ^ (-scale).toNat

end DecimalLiteral

example : (DecimalLiteral.parse "0.000".toList).map DecimalLiteral.roundsToZero = some true := by
  decide

/-! ## Media types -/

/-- The parameter refuses the media type it stands at. -/
def refusesMediaType (parameter : List Char) : Bool :=
  match splitOnce ['='] (trim parameter) with
  | none => false
  | some (name, value) =>
    eqIgnoreAsciiCase name "q".toList && ((DecimalLiteral.parse (trim value)).any
      DecimalLiteral.roundsToZero)

/-- `accepts_media_type`. -/
def acceptsMediaType (headers : HeaderMap) (expected : String) : Bool :=
  (headers.getAll "accept").any fun value =>
    (headerText value).any fun value =>
      (value.toList.splitOn ',').any fun item =>
        let parts := item.splitOn ';'
        eqIgnoreAsciiCase (trim (parts.headD [])) expected.toList &&
          !parts.tail.any refusesMediaType

/-- `content_type_is_json`. -/
def contentTypeIsJson (headers : HeaderMap) : Bool :=
  (headerValue headers "content-type").any fun value =>
    eqIgnoreAsciiCase (trim ((value.toList.splitOn ';').headD [])) "application/json".toList

/-! ## Bearer tokens -/

inductive BearerToken
  | missing
  | malformed
  | value (token : String)
  deriving DecidableEq, Repr

/-- `bearer_token`. -/
def bearerToken (headers : HeaderMap) : BearerToken :=
  match headers.get "authorization" with
  | none => .missing
  | some value =>
    match headerText value with
    | none => .malformed
    | some value =>
      match splitAsciiWhitespace value with
      | [scheme, token] =>
        if eqIgnoreAsciiCase scheme.toList "bearer".toList then .value token else .malformed
      | _ => .malformed

end Marginalis
