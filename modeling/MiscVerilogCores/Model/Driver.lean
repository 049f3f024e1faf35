import MiscVerilogCores.Library.Text

/-! # The driver's view of the telemetry, `driver/src/telemetry.rs` and `driver/src/read_logger.rs`

The bytes that were read from the log are written as text, and each of its words is shown with its fields. -/

namespace MiscVerilogCores.Driver

/-! ## The dump -/

/-- The state of the loop over the bytes. -/
structure Pairing where
  words : List (BitVec 16)
  odd : Bool
  low : BitVec 16

def Pairing.push (s : Pairing) (b : BitVec 8) : Pairing :=
  let x := b.setWidth 16
  if s.odd then { s with words := s.words ++ [(x <<< 8) ||| s.low], odd := false }
  else { s with low := x, odd := true }

/-- The character behind a word. -/
def separator (count : ℕ) : Char :=
  match count % 16 with
  | 15 => '\n'
  | 1 | 3 | 5 | 7 | 9 | 11 | 13 => ' '
  | _ => '-'

/-- The text of some bytes, of which `first` is the first one. -/
def hexdump (first : BitVec 8) (bytes : List (BitVec 8)) : List Char :=
  let s := bytes.foldl Pairing.push ⟨[], false, first.setWidth 16⟩
  s.words.zipIdx.flatMap fun (w, count) => Text.upperHex 4 w.toNat ++ [separator count]

namespace Telemetry

/-- Without bytes there is no first one to index. -/
def toHexdump : List (BitVec 8) → Option (List Char)
  | [] => none
  | b :: bytes => some (hexdump b (b :: bytes))

end Telemetry

namespace ReadLogger

def toHexdump : List (BitVec 8) → List Char
  | [] => "<none>\n".toList
  | b :: bytes => hexdump b (b :: bytes)

/-! ## The samples -/

/-- The state field, or blanks if it has not changed. -/
def stateName (val prev : BitVec 32) : String :=
  if val &&& 0x07 = prev &&& 0x07 then "       "
  else
    match (val &&& 0x07).toNat with
    | 0x00 => "ST_IDLE"
    | 0x01 => "ST_RECV"
    | 0x02 => "ST_RESP"
    | 0x03 => "ST_DROP"
    | 0x04 => "ST_SEND"
    | 0x05 => "ST_WAIT"
    | _ => "- XXX -"

def pidName (pid : BitVec 32) : String :=
  match pid.toNat with
  | 0x0 => " n/a "
  | 0x1 => " OUT "
  | 0x2 => " ACK "
  | 0x3 => "DATA0"
  | 0x4 => "PING "
  | 0x5 => " SOF "
  | 0x6 => "NYET "
  | 0x7 => "DATA2"
  | 0x8 => "SPLIT"
  | 0x9 => " IN  "
  | 0xa => " NAK "
  | 0xb => "DATA1"
  | 0xc => " ERR "
  | 0xd => "SETUP"
  | 0xe => "STALL"
  | 0xf => "MDATA"
  | _ => " --- "

/-! The fields of a sample. -/

def sof (val : BitVec 32) : BitVec 32 := (val >>> 20) &&& 0x07ff

def pid (val : BitVec 32) : BitVec 32 := (val >>> 4) &&& 0x0f

def ep1 (val : BitVec 32) : BitVec 32 := (val >>> 8) &&& 0x0f

def ep2 (val : BitVec 32) : BitVec 32 := (val >>> 12) &&& 0x0f

def ep3 (val : BitVec 32) : BitVec 32 := (val >>> 16) &&& 0x0f

def rx (val : BitVec 32) : String := if (val >>> 3) &&& 0x01 = 0x01 then "RX" else "  "

/-- A number in decimal, with blanks in front. -/
def padded (width n : ℕ) : List Char := (Nat.toDigits 10 n).leftpad width ' '

/-- The line of a sample. -/
def toState (seq : ℕ) (val prev : BitVec 32) : List Char :=
  "@".toList ++ padded 5 seq ++ "  -> 0x".toList ++ Text.upperHex 8 val.toNat ++ " \x7b SOF = ".toList ++
    padded 4 (sof val).toNat ++ " : ".toList ++ (stateName val prev).toList ++ " : ".toList ++
    (pidName (pid val)).toList ++ " : ".toList ++ (rx val).toList ++ " : ".toList ++
    Text.upperHex 1 (ep1 val).toNat ++ " : ".toList ++ Text.upperHex 1 (ep2 val).toNat ++ " : ".toList ++
    Text.upperHex 1 (ep3 val).toNat ++ " \x7d".toList

/-- `u32::from_le_bytes` of each four bytes; what is left over is not looked at. -/
def samples : List (BitVec 8) → List (BitVec 32)
  | b0 :: b1 :: b2 :: b3 :: bytes => (b3 ++ b2 ++ b1 ++ b0 : BitVec 32) :: samples bytes
  | _ => []

/-- The lines of the loop: each sample is shown with the one before it. -/
def linesFrom (seq : ℕ) (prev : BitVec 32) : List (BitVec 32) → List (List Char)
  | [] => []
  | sample :: more => toState seq sample prev :: linesFrom (seq + 1) sample more

def logLines (result : List (BitVec 8)) : List (List Char) := linesFrom 0 0xffffffff (samples result)

end ReadLogger

end MiscVerilogCores.Driver
