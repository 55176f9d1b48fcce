import Folio.Text.Quoted

/-!
# Texts as bytes

Files hold texts in UTF-8. Where bytes are no such text, the fault is described by the first
sequence that is broken: the longest stretch that could still have become a character.
-/

namespace Folio.Utf8

/-- Why a sequence of bytes is broken. -/
inductive Reason where
  | invalidStart
  | invalidContinuation
  | unexpectedEnd
  deriving DecidableEq, Repr

def Reason.message : Reason → Text
  | invalidStart => "invalid start byte"
  | invalidContinuation => "invalid continuation byte"
  | unexpectedEnd => "unexpected end of data"

/-- A broken sequence: where it stands, its first byte, its length and what is wrong. -/
structure Fault where
  position : Nat
  first : UInt8
  length : Nat
  reason : Reason
  deriving DecidableEq, Repr

def Fault.message (fault : Fault) : Text :=
  if fault.length = 1 then
    "'utf-8' codec can't decode byte 0x" ++ Text.hex 2 fault.first.toNat ++ " in position " ++
      Text.ofNat fault.position ++ ": " ++ fault.reason.message
  else
    "'utf-8' codec can't decode bytes in position " ++ Text.ofNat fault.position ++ "-" ++
      Text.ofNat (fault.position + fault.length - 1) ++ ": " ++ fault.reason.message

/-- What stands at the beginning of some bytes: a character, or a broken sequence, and how many
bytes it takes. -/
inductive Reading where
  | char (code size : Nat)
  | broken (reason : Reason) (size : Nat)
  deriving DecidableEq, Repr

/-- A byte that continues a sequence. -/
def isContinuation (byte : Nat) : Bool := 0x80 ≤ byte && byte ≤ 0xBF

/-- The number of continuation bytes behind a first byte. -/
def continuations? (first : Nat) : Option Nat :=
  if first < 0x80 then some 0
  else if 0xC2 ≤ first && first ≤ 0xDF then some 1
  else if 0xE0 ≤ first && first ≤ 0xEF then some 2
  else if 0xF0 ≤ first && first ≤ 0xF4 then some 3
  else none

/-- May the byte come second, behind this first byte? Overlong forms, surrogates and code points
beyond the last one are refused here. -/
def isSecond (first second : Nat) : Bool :=
  isContinuation second &&
    (if first = 0xE0 then 0xA0 ≤ second
     else if first = 0xED then second ≤ 0x9F
     else if first = 0xF0 then 0x90 ≤ second
     else if first = 0xF4 then second ≤ 0x8F
     else true)

/-- Read the rest of a sequence of which `size` bytes, with the given code, have been read. -/
def readRest (code size : Nat) : (missing : Nat) → List UInt8 → Reading
  | 0, _ => .char code size
  | _ + 1, [] => .broken .unexpectedEnd size
  | missing + 1, byte :: rest =>
    if isContinuation byte.toNat then
      readRest (code * 64 + (byte.toNat - 0x80)) (size + 1) missing rest
    else .broken .invalidContinuation size

/-- What stands at the beginning of some bytes. -/
def read (first : UInt8) (rest : List UInt8) : Reading :=
  match continuations? first.toNat with
  | none => .broken .invalidStart 1
  | some 0 => .char first.toNat 1
  | some (missing + 1) =>
    let code := first.toNat - (if missing = 0 then 0xC0 else if missing = 1 then 0xE0 else 0xF0)
    match rest with
    | [] => .broken .unexpectedEnd 1
    | second :: others =>
      if isSecond first.toNat second.toNat then
        readRest (code * 64 + (second.toNat - 0x80)) 2 missing others
      else .broken .invalidContinuation 1

/-- The first broken sequence, after dropping the bytes of a character read earlier. -/
def faultFrom : (position covered : Nat) → List UInt8 → Option Fault
  | _, _, [] => none
  | position, covered + 1, _ :: rest => faultFrom (position + 1) covered rest
  | position, 0, first :: rest =>
    match read first rest with
    | .char _ size => faultFrom (position + 1) (size - 1) rest
    | .broken reason size => some ⟨position, first, size, reason⟩

/-- The first broken sequence of some bytes. -/
def fault? (bytes : ByteArray) : Option Fault := faultFrom 0 0 bytes.toList

def decode (bytes : ByteArray) : Except Fault Text :=
  match String.fromUTF8? bytes with
  | some text => .ok text.toList
  | none => .error ((fault? bytes).getD ⟨0, 0, 1, .invalidStart⟩)

def encode (text : Text) : ByteArray := (String.ofList text).toUTF8

/-- The number of bytes of a text. -/
def size (text : Text) : Nat := text.foldl (fun n c => n + c.utf8Size) 0

/-- The text of some bytes with every broken sequence shown as a replacement character, after
dropping the bytes of a sequence read earlier. -/
def decodeLossyFrom : (covered : Nat) → List UInt8 → Text
  | _, [] => []
  | covered + 1, _ :: rest => decodeLossyFrom covered rest
  | 0, first :: rest =>
    match read first rest with
    | .char code size => Char.ofNat code :: decodeLossyFrom (size - 1) rest
    | .broken _ size => Char.ofNat 0xFFFD :: decodeLossyFrom (size - 1) rest

/-- The text of some bytes with every broken sequence shown as a replacement character. -/
def decodeLossy (bytes : List UInt8) : Text := decodeLossyFrom 0 bytes

end Folio.Utf8
