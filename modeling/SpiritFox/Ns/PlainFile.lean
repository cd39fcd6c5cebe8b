import SpiritFox.Ns.Runs

/-!
# A plain file

`PlainFile` says what a file is for its users: an array of bytes, and a cursor for each open description.
-/

namespace SpiritFox.Ns

structure PlainFile where
  content : List UInt8
  cursor : DescId → Nat

namespace PlainFile

def capacity : Nat := 16384

variable (f : PlainFile) (d : DescId)

def moveTo (offset : Nat) : PlainFile := { f with cursor := Function.update f.cursor d offset }

def bytesAt (offset bytes : Nat) : List UInt8 := (f.content.drop offset).take bytes

def read (bytes : Nat) : List UInt8 × PlainFile :=
  (f.bytesAt (f.cursor d) bytes, f.moveTo d (f.cursor d + (f.bytesAt (f.cursor d) bytes).length))

/-- The gap before the data is zero, and what is behind them stays. -/
def spliced (content : List UInt8) (offset : Nat) (data : List UInt8) : List UInt8 :=
  content.take offset ++ List.replicate (offset - content.length) 0 ++ data ++ content.drop (offset + data.length)

/-- All of the data or nothing. -/
def write (data : List UInt8) : Option (Nat × PlainFile) :=
  if data = [] then some (0, f)
  else if capacity < f.cursor d + data.length then none
  else some (data.length, { f with content := spliced f.content (f.cursor d) data }.moveTo d (f.cursor d + data.length))

def seek (offset : Nat) : Option (Nat × PlainFile) :=
  if f.content.length < offset then none else some (offset, f.moveTo d offset)

def truncate (bytes : Nat) : Option (Unit × PlainFile) :=
  if capacity < bytes then none
  else some ((), { f with content := f.content.take bytes ++ List.replicate (bytes - f.content.length) 0 })

end PlainFile

theorem length_spliced (content : List UInt8) (offset : Nat) (data : List UInt8) :
    (PlainFile.spliced content offset data).length = max content.length (offset + data.length) := by
  simp only [PlainFile.spliced, List.length_append, List.length_take, List.length_replicate, List.length_drop]
  omega

theorem moveTo_cursor (f : PlainFile) (d : DescId) : f.moveTo d (f.cursor d) = f := by simp [PlainFile.moveTo]

end SpiritFox.Ns
