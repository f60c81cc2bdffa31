import RegionPool.Bytes

/-!
# Short texts for byte runs

Short runs are shown in full as hexadecimal digits (`hex`); long ones by their ends and a checksum
(`fnv1a`, the 32-bit Fowler–Noll–Vo sum in the order "exclusive-or, then multiply").
-/

namespace RegionPool.Bytes

/-- The lower-case hexadecimal digit of a number below sixteen. -/
def hexDigit (n : Nat) : Char := if n < 10 then Char.ofNat (48 + n) else Char.ofNat (87 + n)

/-- Two lower-case hexadecimal digits a byte. -/
def hex (bytes : Bytes) : String :=
  String.ofList (bytes.flatMap fun b => [hexDigit (b.toNat / 16), hexDigit (b.toNat % 16)])

/-- The 32-bit checksum of a run. -/
def fnv1a (bytes : Bytes) : UInt32 :=
  bytes.foldl (fun sum b => (sum ^^^ b.toUInt32) * 16777619) 2166136261

/-- The longest run that is shown in full. -/
def shownInFull : Nat := 64

/-- How a run is shown. -/
inductive Summary where
  /-- All digits. -/
  | full (digits : String)
  /-- Length, checksum, and the digits of the first and last eight bytes. -/
  | ends (length : Nat) (checksum : UInt32) (first last : String)
  deriving Repr, DecidableEq

/-- Runs of up to `shownInFull` bytes are shown in full. -/
def summary (bytes : Bytes) : Summary :=
  let length := bytes.length
  if length ≤ shownInFull then .full (hex bytes)
  else .ends length (fnv1a bytes) (hex (bytes.take 8)) (hex (bytes.drop (length - 8)))

end RegionPool.Bytes
