import San2.Stream.CIStreamRW
import San2.Utils.CDataPack

/-!
# Length-prefixed messages

`CLenValueSeparator` puts the length of a message in front of it, as a 32-bit
number in big-endian order.
-/

namespace San2.Stream.CLenValueSeparator

open Utils

variable {σ : Type} (m_rw : CIStreamRW σ)

/-- `readMessage` replaces `out`; when it fails, `out` holds what was read so far
of the message itself. -/
def readMessage (host : ByteOrder) : StateT σ Option (Bool × Bytes) := do
  let (ok, btmp) ← m_rw.readExactNumBytesAppend [] 4
  if !ok then return (false, [])
  let iSize := Endian.sanUBe32toh host (UInt32.ofNat (host.load (btmp.take 4)))
  m_rw.readExactNumBytesAppend [] iSize.toNat

/-- `CLenValueSeparator::writeMessage`: the length, then the data. -/
def writeMessage (host : ByteOrder) (data : Bytes) : StateT σ Option Bool :=
  let iMessageSize := Endian.sanUHtobe32 host (UInt32.ofNat data.length)
  m_rw.writeAll (host.store 4 iMessageSize.toNat ++ data)

end San2.Stream.CLenValueSeparator
