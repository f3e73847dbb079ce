/-
UTF-8. Octets are decoded character by character; the first octets that belong to no character are a fault. A fault
covers the octets that could still have begun a character.

- `decode` is the text of octets, or the first fault.
- `Fault.message` says what a fault is reported as.
- `encode` is the octets of a text.
-/

namespace CodecCompiler.Text.Utf8

inductive Reason where
  /-- no character begins with this octet -/
  | start
  /-- the next octet cannot follow -/
  | continuation
  /-- the octets end inside a character -/
  | truncated
  deriving DecidableEq, Repr

/-- the first octets that cannot be decoded -/
structure Fault where
  position : Nat
  length : Nat
  /-- the octet at the position -/
  octet : Nat
  reason : Reason
  deriving DecidableEq, Repr

def Reason.message : Reason → String
  | start => "invalid start byte"
  | continuation => "invalid continuation byte"
  | truncated => "unexpected end of data"

/-- two hexadecimal digits -/
def hexOctet (n : Nat) : String := String.ofList ['0', 'x', Nat.digitChar (n / 16), Nat.digitChar (n % 16)]

def Fault.message (f : Fault) : String :=
  let place :=
    if f.length = 1 then "byte " ++ hexOctet f.octet ++ " in position " ++ toString f.position
    else "bytes in position " ++ toString f.position ++ "-" ++ toString (f.position + f.length - 1)
  "'utf-8' codec can't decode " ++ place ++ ": " ++ f.reason.message

/-- an octet inside a character -/
def isTail (n : Nat) : Bool := 0x80 ≤ n && n < 0xC0

/-- can the octet `second` follow the octet `lead` -/
def mayFollow (lead second : Nat) : Bool :=
  isTail second && (if lead = 0xE0 then 0xA0 ≤ second
    else if lead = 0xED then second < 0xA0
    else if lead = 0xF0 then 0x90 ≤ second
    else if lead = 0xF4 then second < 0x90
    else true)

/-- the characters of the octets from a position on -/
def decodeFrom (position : Nat) : List UInt8 → Except Fault (List Char)
  | [] => .ok []
  | octet :: rest =>
    let a := octet.toNat
    let fault (length : Nat) (reason : Reason) : Except Fault (List Char) := .error ⟨position, length, a, reason⟩
    if a < 0x80 then (decodeFrom (position + 1) rest).map (Char.ofNat a :: ·)
    else if a < 0xC2 ∨ 0xF5 ≤ a then fault 1 .start
    else
      match rest with
      | [] => fault 1 .truncated
      | second :: rest =>
        let b := second.toNat
        if !mayFollow a b then fault 1 .continuation
        else if a < 0xE0 then
          (decodeFrom (position + 2) rest).map (Char.ofNat ((a - 0xC0) * 0x40 + (b - 0x80)) :: ·)
        else
          match rest with
          | [] => fault 2 .truncated
          | third :: rest =>
            let c := third.toNat
            if !isTail c then fault 2 .continuation
            else if a < 0xF0 then
              let code := ((a - 0xE0) * 0x40 + (b - 0x80)) * 0x40 + (c - 0x80)
              (decodeFrom (position + 3) rest).map (Char.ofNat code :: ·)
            else
              match rest with
              | [] => fault 3 .truncated
              | fourth :: rest =>
                let d := fourth.toNat
                if !isTail d then fault 3 .continuation
                else
                  let code := (((a - 0xF0) * 0x40 + (b - 0x80)) * 0x40 + (c - 0x80)) * 0x40 + (d - 0x80)
                  (decodeFrom (position + 4) rest).map (Char.ofNat code :: ·)

/-- the text of octets -/
def decode (octets : List UInt8) : Except Fault String := (decodeFrom 0 octets).map String.ofList

/-- the octets of a text -/
def encode (s : String) : List UInt8 := s.toUTF8.toList

end CodecCompiler.Text.Utf8
