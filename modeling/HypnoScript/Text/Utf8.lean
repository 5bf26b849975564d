/-
# UTF-8

`encode` writes a text as octets, `decode` reads it back.  Octets that are not the UTF-8 form of any
text are refused where the first faulty sequence starts; the refusal tells how many of its octets
were good, and what is wrong:

* the first octet starts no sequence;
* an octet does not go on with the sequence, which also keeps out forms that are longer than need
  be, surrogates and numbers beyond the last code point;
* the octets end inside the sequence.
-/
import HypnoScript.Text.Spelling

namespace HypnoScript
namespace Text
namespace Utf8

/-- What is wrong with a sequence of octets. -/
inductive Flaw where
  | start
  | continuation
  | truncated
  deriving DecidableEq, Repr

/-- A faulty sequence: its first octet, where it starts, and how many of its octets are good. -/
structure Failure where
  first : UInt8
  offset : Nat
  good : Nat
  flaw : Flaw
  deriving DecidableEq, Repr

/-- What is wrong, in words. -/
def Flaw.message : Flaw → String
  | .start => "invalid start byte"
  | .continuation => "invalid continuation byte"
  | .truncated => "unexpected end of data"

/-- Where and why decoding stopped. -/
def Failure.message (f : Failure) : String :=
  "'utf-8' codec can't decode " ++
    (if f.good = 1 then
        "byte 0x" ++ String.ofList (hexDigits 2 f.first.toNat) ++ s!" in position {f.offset}"
      else s!"bytes in position {f.offset}-{f.offset + f.good - 1}") ++
    ": " ++ f.flaw.message

/-- The octets of a text. -/
def encode (t : Text) : List UInt8 := t.flatMap String.utf8EncodeChar

/-- Whether an octet goes on with a sequence. -/
def isTail (b : UInt8) : Bool := 0x80 ≤ b && b ≤ 0xBF

/-- Whether an octet may be the second one of a sequence with this first octet. -/
def isSecond (first b : UInt8) : Bool :=
  if first = 0xE0 then 0xA0 ≤ b && b ≤ 0xBF
  else if first = 0xED then 0x80 ≤ b && b ≤ 0x9F
  else if first = 0xF0 then 0x90 ≤ b && b ≤ 0xBF
  else if first = 0xF4 then 0x80 ≤ b && b ≤ 0x8F
  else isTail b

/-- The six bits that an octet adds to a sequence. -/
def bits (b : UInt8) : Nat := b.toNat % 64

/-- A character in front of what has been decoded behind it. -/
def push (n : Nat) : Except Failure Text → Except Failure Text
  | .ok t => .ok (Char.ofNat n :: t)
  | .error e => .error e

/-- The text of some octets, the first of which stands at `offset`. -/
def decodeFrom (offset : Nat) : List UInt8 → Except Failure Text
  | [] => .ok []
  | a :: bs =>
    let fail (good : Nat) (flaw : Flaw) : Except Failure Text := .error ⟨a, offset, good, flaw⟩
    if a < 0x80 then push a.toNat (decodeFrom (offset + 1) bs)
    else if 0xC2 ≤ a ∧ a ≤ 0xDF then
      match bs with
      | [] => fail 1 .truncated
      | b :: bs =>
        if isTail b then push (a.toNat % 32 * 64 + bits b) (decodeFrom (offset + 2) bs)
        else fail 1 .continuation
    else if 0xE0 ≤ a ∧ a ≤ 0xEF then
      match bs with
      | [] => fail 1 .truncated
      | [b] => if isSecond a b then fail 2 .truncated else fail 1 .continuation
      | b :: c :: bs =>
        if !isSecond a b then fail 1 .continuation
        else if !isTail c then fail 2 .continuation
        else push ((a.toNat % 16 * 64 + bits b) * 64 + bits c) (decodeFrom (offset + 3) bs)
    else if 0xF0 ≤ a ∧ a ≤ 0xF4 then
      match bs with
      | [] => fail 1 .truncated
      | [b] => if isSecond a b then fail 2 .truncated else fail 1 .continuation
      | [b, c] =>
        if !isSecond a b then fail 1 .continuation
        else if !isTail c then fail 2 .continuation
        else fail 3 .truncated
      | b :: c :: d :: bs =>
        if !isSecond a b then fail 1 .continuation
        else if !isTail c then fail 2 .continuation
        else if !isTail d then fail 3 .continuation
        else
          push (((a.toNat % 8 * 64 + bits b) * 64 + bits c) * 64 + bits d)
            (decodeFrom (offset + 4) bs)
    else fail 1 .start

/-- The text of some octets. -/
def decode (bs : List UInt8) : Except Failure Text := decodeFrom 0 bs

end Utf8

/-- The text with every line ending, be it a carriage return, a newline or both, as a newline. -/
def unifyNewlines : Text → Text
  | [] => []
  | '\r' :: '\n' :: cs => '\n' :: unifyNewlines cs
  | '\r' :: cs => '\n' :: unifyNewlines cs
  | c :: cs => c :: unifyNewlines cs

end Text
end HypnoScript
