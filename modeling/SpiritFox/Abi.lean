/-!
# Result codes

The codes of `include/sf.h` that every component returns. Functions that return a code or a value are modelled with
`Except SfError`; `SfError.code` is the number a caller sees.
-/

namespace SpiritFox

inductive SfError where
  | invalid
  | denied
  | badFormat
  | badSignature
  | abiMismatch
  | dependency
  | busy
  | draining
  | timeout
  | deviceGone
  | notSeekable
  | staleHandle
  | revoked
  | restartRequired
  | wouldBlock
  | notFound
  | readOnly
  | noSpace
  | eventOverflow
  | commitUncertain
  | versionRejected
  deriving DecidableEq, Repr

/-- The numbers of the enumeration in `include/sf.h`. -/
def SfError.code : SfError → Int
  | .invalid => -1
  | .denied => -2
  | .badFormat => -3
  | .badSignature => -4
  | .abiMismatch => -5
  | .dependency => -6
  | .busy => -7
  | .draining => -8
  | .timeout => -9
  | .deviceGone => -10
  | .notSeekable => -11
  | .staleHandle => -12
  | .revoked => -13
  | .restartRequired => -14
  | .wouldBlock => -15
  | .notFound => -16
  | .readOnly => -17
  | .noSpace => -18
  | .eventOverflow => -19
  | .commitUncertain => -20
  | .versionRejected => -21

theorem SfError.code_neg (e : SfError) : e.code < 0 := by cases e <;> decide

theorem SfError.code_ne_zero (e : SfError) : e.code ≠ 0 := Int.ne_of_lt e.code_neg

/-- A SHA-256 digest. -/
abbrev Digest := Vector UInt8 32

end SpiritFox
