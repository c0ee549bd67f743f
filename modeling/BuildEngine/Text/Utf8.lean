/-!
# UTF-8

Decoding of bytes to characters. Bytes that are no UTF-8 are reported with the place of the
first byte that does not belong and with the length of the sequence that it spoils.
-/

namespace BuildEngine.Text

/-- The contents of a file. -/
abbrev Bytes := List UInt8

/-- The bytes of a text. -/
def encode (s : String) : Bytes :=
  s.toUTF8.toList

/-- Why bytes are no text: the sequence at this index is wrong after `length` bytes, or it is
cut off by the end. -/
inductive Utf8Error where
  | invalid (start length : Nat)
  | incomplete (start : Nat)
deriving DecidableEq, Repr

/-- The message of a decoding error. -/
def Utf8Error.message : Utf8Error → String
  | invalid start length =>
    "invalid utf-8 sequence of " ++ toString length ++ " bytes from index " ++ toString start
  | incomplete start => "incomplete utf-8 byte sequence from index " ++ toString start

namespace Utf8

/-- A byte that goes on with a sequence. -/
def isContinuation (b : UInt8) : Bool :=
  0x80 ≤ b && b ≤ 0xBF

/-- The second bytes that may follow the first byte of a sequence of three or four: those that
make neither an overlong form, nor a surrogate, nor a number beyond the last code point. -/
def allowsSecond (first second : UInt8) : Bool :=
  if first = 0xE0 then 0xA0 ≤ second && second ≤ 0xBF
  else if first = 0xED then 0x80 ≤ second && second ≤ 0x9F
  else if first = 0xF0 then 0x90 ≤ second && second ≤ 0xBF
  else if first = 0xF4 then 0x80 ≤ second && second ≤ 0x8F
  else isContinuation second

/-- The payload of a byte below its marker bits. -/
def payload (b : UInt8) (modulus : Nat) : Nat :=
  b.toNat % modulus

/-- The characters of bytes, the first of which has index `start`. -/
def decodeFrom (start : Nat) : Bytes → Except Utf8Error (List Char)
  | [] => .ok []
  | a :: rest =>
    if a < 0x80 then do
      return Char.ofNat a.toNat :: (← decodeFrom (start + 1) rest)
    else if 0xC2 ≤ a && a ≤ 0xDF then
      match rest with
      | [] => .error (.incomplete start)
      | b :: rest =>
        if isContinuation b then do
          let c := Char.ofNat (payload a 32 * 64 + payload b 64)
          return c :: (← decodeFrom (start + 2) rest)
        else .error (.invalid start 1)
    else if 0xE0 ≤ a && a ≤ 0xEF then
      match rest with
      | [] => .error (.incomplete start)
      | b :: rest =>
        if !allowsSecond a b then .error (.invalid start 1)
        else
          match rest with
          | [] => .error (.incomplete start)
          | c :: rest =>
            if isContinuation c then do
              let c := Char.ofNat ((payload a 16 * 64 + payload b 64) * 64 + payload c 64)
              return c :: (← decodeFrom (start + 3) rest)
            else .error (.invalid start 2)
    else if 0xF0 ≤ a && a ≤ 0xF4 then
      match rest with
      | [] => .error (.incomplete start)
      | b :: rest =>
        if !allowsSecond a b then .error (.invalid start 1)
        else
          match rest with
          | [] => .error (.incomplete start)
          | c :: rest =>
            if !isContinuation c then .error (.invalid start 2)
            else
              match rest with
              | [] => .error (.incomplete start)
              | d :: rest =>
                if isContinuation d then do
                  let c := Char.ofNat
                    (((payload a 8 * 64 + payload b 64) * 64 + payload c 64) * 64 + payload d 64)
                  return c :: (← decodeFrom (start + 4) rest)
                else .error (.invalid start 3)
    else .error (.invalid start 1)

/-- The characters that a repaired text shows for one wrong byte sequence. -/
def replacement : Char := '\uFFFD'

/-- The characters of bytes, with a replacement character for every wrong sequence. -/
def repair (fuel : Nat) (bytes : Bytes) : List Char :=
  match fuel with
  | 0 => []
  | fuel + 1 =>
    match decodeFrom 0 bytes with
    | .ok cs => cs
    | .error (.incomplete start) =>
      (decodeFrom 0 (bytes.take start)).toOption.getD [] ++ [replacement]
    | .error (.invalid start length) =>
      (decodeFrom 0 (bytes.take start)).toOption.getD [] ++
        replacement :: repair fuel (bytes.drop (start + length))

end Utf8

/-- The text of bytes. -/
def decode (bytes : Bytes) : Except Utf8Error String :=
  (Utf8.decodeFrom 0 bytes).map String.ofList

/-- The text of bytes, with a replacement character for every sequence that is no UTF-8. -/
def decodeLossy (bytes : Bytes) : String :=
  String.ofList (Utf8.repair (bytes.length + 1) bytes)

end BuildEngine.Text
