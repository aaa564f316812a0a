import SnlFront.Text.Quoted

/-!
# Decoding UTF-8

The octets of a file are read as UTF-8. A sequence starts with a lead octet, which says how many
continuation octets follow and, for four leads, narrows the range of the first of them so that no
overlong form, surrogate or number beyond the last code point can be written. Decoding stops at the
first octet that no character can contain, and the fault names the octets of the broken sequence.

## Main definitions

* `Utf8.lead?`: what a lead octet announces.
* `Utf8.decode`: the characters of a list of octets, or the first fault.
* `Utf8.Fault.message`: the wording of a fault.
-/

namespace SnlFront.Text.Utf8

/-- What is wrong with a sequence of octets. -/
inductive Reason
  | invalidStart
  | invalidContinuation
  | unexpectedEnd
deriving DecidableEq, Repr

/-- A broken sequence: its first octet, the offset of that octet and the number of octets that
belong to the sequence. -/
structure Fault where
  first : UInt8
  offset : Nat
  length : Nat
  reason : Reason
deriving DecidableEq, Repr

/-- What a lead octet announces: the bits it contributes, how many continuation octets follow, and
the range allowed for the first of them. -/
structure Lead where
  bits : Nat
  tails : Nat
  low : UInt8
  high : UInt8
deriving DecidableEq, Repr

/-- Read a lead octet. -/
def lead? (b : UInt8) : Option Lead :=
  if b ≤ 0x7f then some ⟨b.toNat, 0, 0x80, 0xbf⟩
  else if b < 0xc2 then none
  else if b ≤ 0xdf then some ⟨b.toNat - 0xc0, 1, 0x80, 0xbf⟩
  else if b = 0xe0 then some ⟨0, 2, 0xa0, 0xbf⟩
  else if b = 0xed then some ⟨0xd, 2, 0x80, 0x9f⟩
  else if b ≤ 0xef then some ⟨b.toNat - 0xe0, 2, 0x80, 0xbf⟩
  else if b = 0xf0 then some ⟨0, 3, 0x90, 0xbf⟩
  else if b ≤ 0xf3 then some ⟨b.toNat - 0xf0, 3, 0x80, 0xbf⟩
  else if b = 0xf4 then some ⟨4, 3, 0x80, 0x8f⟩
  else none

/-- A sequence that is being read: its first octet and offset, the number of octets read, the bits
gathered so far, and what is still expected. -/
structure Pending where
  first : UInt8
  offset : Nat
  length : Nat
  bits : Nat
  tails : Nat
  low : UInt8
  high : UInt8
deriving DecidableEq, Repr

/-- The fault of a sequence that breaks off. -/
def Pending.fault (p : Pending) (reason : Reason) : Fault := ⟨p.first, p.offset, p.length, reason⟩

/-- Decode octets from an offset on, with the sequence that is being read, if any. -/
def decodeFrom (offset : Nat) : Option Pending → List UInt8 → Except Fault (List Char)
  | none, [] => .ok []
  | some p, [] => .error (p.fault .unexpectedEnd)
  | none, b :: bs =>
    match lead? b with
    | none => .error ⟨b, offset, 1, .invalidStart⟩
    | some lead =>
      if lead.tails = 0 then
        (decodeFrom (offset + 1) none bs).map (Char.ofNat lead.bits :: ·)
      else
        decodeFrom (offset + 1)
          (some ⟨b, offset, 1, lead.bits, lead.tails, lead.low, lead.high⟩) bs
  | some p, b :: bs =>
    if p.low ≤ b ∧ b ≤ p.high then
      let bits := 64 * p.bits + (b.toNat - 0x80)
      if p.tails ≤ 1 then
        (decodeFrom (offset + 1) none bs).map (Char.ofNat bits :: ·)
      else
        decodeFrom (offset + 1)
          (some ⟨p.first, p.offset, p.length + 1, bits, p.tails - 1, 0x80, 0xbf⟩) bs
    else
      .error (p.fault .invalidContinuation)

/-- Decode a whole list of octets. -/
def decode (bs : List UInt8) : Except Fault (List Char) := decodeFrom 0 none bs

/-- The wording of a reason. -/
def Reason.message : Reason → String
  | .invalidStart => "invalid start byte"
  | .invalidContinuation => "invalid continuation byte"
  | .unexpectedEnd => "unexpected end of data"

/-- The wording of a fault: one octet is shown, of several only the offsets are given. -/
def Fault.message (f : Fault) : String :=
  let place :=
    if f.length = 1 then
      "byte 0x" ++ String.ofList (hexDigits 2 f.first.toNat) ++ " in position " ++ toString f.offset
    else
      "bytes in position " ++ toString f.offset ++ "-" ++ toString (f.offset + f.length - 1)
  "'utf-8' codec can't decode " ++ place ++ ": " ++ f.reason.message

example : (decode [0xc3, 0xa9]).toOption = some ['é'] := by decide +kernel
example : decode [0x41, 0xed, 0xa0, 0x80] = .error ⟨0xed, 1, 1, .invalidContinuation⟩ := rfl
example : decode [0xf0, 0x90, 0x80] = .error ⟨0xf0, 0, 3, .unexpectedEnd⟩ := rfl

end SnlFront.Text.Utf8
