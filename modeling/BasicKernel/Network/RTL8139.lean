import BasicKernel.Basic.Outcome

set_option autoImplicit false

/-! # `RTL8139.c`

The driver of the network card: its buffers, the ring of received messages, sending and
receiving. An array of bytes has its size in its type, and an access outside it is an error.
What the card answers (its status register, its own MAC address) and what it puts into the
receive buffer are inputs.

The modules beside this one are about the copies (`Network/Bounds.lean`), the ring
(`Network/Messages.lean`), and a message from one machine to another (`Network/Wire.lean`).
-/

namespace BasicKernel

/-! ## Arrays of bytes

An index is tested against the size at every access, as a copy in C does not do. -/

/-- An array of `n` bytes. -/
abbrev Bytes (n : Nat) := Fin n → UInt8

namespace Bytes

variable {n : Nat}

def get (a : Bytes n) (i : Nat) : Except Stop UInt8 :=
  if h : i < n then .ok (a ⟨i, h⟩) else .error .outOfBounds

def set (a : Bytes n) (i : Nat) (c : UInt8) : Except Stop (Bytes n) :=
  if h : i < n then .ok (Function.update a ⟨i, h⟩ c) else .error .outOfBounds

/-- The byte at an offset that is known to be inside. -/
def byte (a : Bytes n) (i : Nat) : UInt8 := if h : i < n then a ⟨i, h⟩ else 0

end Bytes

/-- The loop of `mymemcpy`, with the iterations that are left. -/
def copyBytes {m n : Nat} (src : Bytes n) : Nat → Bytes m → Nat → Nat → Except Stop (Bytes m)
  | 0, dest, _, _ => .ok dest
  | len + 1, dest, d, s => do
      let dest ← dest.set d (← src.get s)
      copyBytes src len dest (d + 1) (s + 1)

/-- `mymemcpy(dest + d, src + s, length)` -/
def mymemcpy {m n : Nat} (dest : Bytes m) (d : Nat) (src : Bytes n) (s length : Nat) :
    Except Stop (Bytes m) :=
  copyBytes src length dest d s

/-! ## Data -/

abbrev MAC_SIZE : Nat := 6

instance : NeZero MAC_SIZE := ⟨by decide⟩

/-- The size of the array `msg` of an `ethMsg`. -/
abbrev MSG_SIZE : Nat := 1000

abbrev PAYLOAD_SIZE : Nat := 1000

abbrev MESSAGE_BUFFER_SIZE : Nat := 100

instance : NeZero MESSAGE_BUFFER_SIZE := ⟨by decide⟩

abbrev TR_BUFFER_SIZE : Nat := 8 * 1024

abbrev RE_BUFFER_SIZE : Nat := 8 * 1024 + 16 + 1500

/-- `sizeof(ethFrame)`: two bytes of padding follow `payload`. -/
abbrev ETH_FRAME_SIZE : Nat := 1020

def BROADCAST : UInt8 := 0xFF

def CHECK_TOK : UInt16 := 0x4

def CHECK_ROK : UInt16 := 0x1

def CLEAR_TOK : UInt16 := 0xFB

def CLEAR_ROK : UInt16 := 0xFE

def CLEAR_OWN : Nat := 0xFFF

/-- `ethMsg` -/
structure EthMsg where
  mac : Bytes MAC_SIZE
  msg : Bytes MSG_SIZE
  length : UInt16
  type : UInt8

/-- `ethFrame`, as the sender fills it. -/
structure EthFrame where
  macDest : Bytes MAC_SIZE
  macSrc : Bytes MAC_SIZE
  length : UInt16
  payload : Bytes PAYLOAD_SIZE
  frameCheck : UInt32

/-- `ethFrame`, as the receiver finds it: the bytes of the structure. -/
abbrev RawFrame := Bytes ETH_FRAME_SIZE

namespace RawFrame

def macDest (f : RawFrame) (i : Fin MAC_SIZE) : UInt8 := Bytes.byte f i

/-- The field `length` is at offset 12, low byte first. -/
def length (f : RawFrame) : UInt16 := (Bytes.byte f 12).toUInt16 + (Bytes.byte f 13).toUInt16 * 256

/-- The offset of the field `payload`. -/
def payload : Nat := 14

end RawFrame

/-- The static variables of the driver. Of the transmit buffers only the first is used. -/
structure RTL8139 where
  trBuffer : Bytes TR_BUFFER_SIZE
  reBuffer : Bytes RE_BUFFER_SIZE
  messages : Fin MESSAGE_BUFFER_SIZE → RawFrame
  nexToWrite : Fin MESSAGE_BUFFER_SIZE
  nextToRead : Fin MESSAGE_BUFFER_SIZE

/-- The static variables as their initialisers leave them. -/
def RTL8139.static : RTL8139 := ⟨fun _ => 0, fun _ => 0, fun _ _ => 0, 0, 0⟩

/-! ## Sending -/

/-- `transmit`: the new transmit buffer and the number of bytes that the card is told to send. The
field `length` is stored through a `char`, and so is `frameCheck`. -/
def transmit (s : RTL8139) (frame : EthFrame) : Except Stop (Nat × RTL8139) := do
  let length := 0
  let buffer ← mymemcpy s.trBuffer length frame.macDest 0 MAC_SIZE
  let length := length + MAC_SIZE
  let buffer ← mymemcpy buffer length frame.macSrc 0 MAC_SIZE
  let length := length + MAC_SIZE
  let buffer ← buffer.set length frame.length.toUInt8
  let length := length + 2
  let buffer ← mymemcpy buffer length frame.payload 0 frame.length.toNat
  let length := length + frame.length.toNat
  let buffer ← buffer.set length frame.frameCheck.toUInt8
  let length := length + 2
  return (length &&& CLEAR_OWN, { s with trBuffer := buffer })

/-- `sendMsg`, on a card with the address `mac`. `payload` is what the local `frame` holds. -/
def sendMsg (s : RTL8139) (mac : Bytes MAC_SIZE) (payload : Bytes PAYLOAD_SIZE)
    (message : EthMsg) : Except Stop (Nat × RTL8139) := do
  let payload ← payload.set 0 message.type
  let payload ← mymemcpy payload 1 message.msg 0 message.length.toNat
  transmit s
    { macDest := message.mac
      macSrc := mac
      length := message.length + 1
      payload := payload
      frameCheck := message.type.toUInt32 }

/-! ## Receiving -/

/-- `getMsg`: its result, and what it leaves in `*msg`. -/
def getMsg (s : RTL8139) (msg : EthMsg) : Except Stop (Nat × EthMsg × RTL8139) := do
  if s.nextToRead = s.nexToWrite then
    return (0, msg, s)
  let frame := s.messages s.nextToRead
  let mac ← mymemcpy msg.mac 0 frame MAC_SIZE MAC_SIZE
  let length := frame.length - 1
  let type ← frame.get RawFrame.payload
  let text ← mymemcpy msg.msg 0 frame (RawFrame.payload + 1) length.toNat
  return (length.toNat + MAC_SIZE + 2, ⟨mac, text, length, type⟩,
    { s with nextToRead := s.nextToRead + 1 })

def isForMe (mac : Bytes MAC_SIZE) (frame : RawFrame) : Bool :=
  decide (∀ i, frame.macDest i = mac i) || decide (∀ i, frame.macDest i = BROADCAST)

/-- `(ethFrame *) (reBuffer+4)` -/
def RTL8139.received (s : RTL8139) : RawFrame := fun i => s.reBuffer.byte (4 + i)

/-- `rtlHandler`, for what the status register holds: the value that is written back to the
register, if any, and the new state. Both pointers wrap at the end of the ring. -/
def rtlHandler (s : RTL8139) (mac : Bytes MAC_SIZE) (status : UInt16) :
    Option UInt16 × RTL8139 :=
  if status &&& CHECK_ROK ≠ 0 then
    let frame := s.received
    if (s.messages s.nexToWrite).macDest 0 = 0 ∧ isForMe mac frame then
      (some (status &&& CLEAR_ROK),
        { s with
          messages := Function.update s.messages s.nexToWrite frame
          nexToWrite := s.nexToWrite + 1 })
    else (some (status &&& CLEAR_ROK), s)
  else if status &&& CHECK_TOK ≠ 0 then (some (status &&& CLEAR_TOK), s)
  else (none, s)

end BasicKernel
