import DogeCash.Foundation.Frames
import DogeCash.Primitives.Serialize

/-! # Messages on a connection

A message is a header of 24 bytes, with the size and a checksum of the data, and the data.
`BeginMessage` and `EndMessage` build it and queue it; `SocketSendData` hands as much of the
queue to the socket as that takes. On the other side `ReceiveMsgBytes` takes whatever bytes
arrive together and puts them where they belong: in the buffer for the header, or in that for
the data. `ProcessMessages` looks at the messages that are complete.

`none` stands for an assertion that fails, or a copy that leaves its buffer.
-/

namespace DogeCash

/-- What the connection takes from elsewhere. -/
structure NetEnv where
  /-- `Params().MessageStart()` -/
  messageStart : List UInt8
  messageStart_length : messageStart.length = 4
  /-- `Hash` of the data of a message. -/
  hash : List UInt8 → UInt256

/-- `MAX_PROTOCOL_MESSAGE_LENGTH` -/
def maxProtocolMessageLength : ℕ := 2 * 1024 * 1024

/-- `CMessageHeader::COMMAND_SIZE` -/
def commandSize : ℕ := 12

/-- `CMessageHeader::HEADER_SIZE` -/
def headerSize : ℕ := 24

def littleEndian (number : UInt32) : List UInt8 :=
  [.ofNat number.toNat, .ofNat (number.toNat / 2 ^ 8), .ofNat (number.toNat / 2 ^ 16),
    .ofNat (number.toNat / 2 ^ 24)]

def ofLittleEndian : List UInt8 → UInt32
  | [first, second, third, fourth] =>
    .ofNat (first.toNat + 2 ^ 8 * second.toNat + 2 ^ 16 * third.toNat + 2 ^ 24 * fourth.toNat)
  | _ => 0

structure CMessageHeader where
  pchMessageStart : List UInt8
  pchCommand : List UInt8
  nMessageSize : UInt32
  nChecksum : UInt32

namespace CMessageHeader

/-- The header that `CMessageHeader()` makes. -/
def null (env : NetEnv) : CMessageHeader where
  pchMessageStart := env.messageStart
  pchCommand := List.replicate commandSize 0
  nMessageSize := 0xffffffff
  nChecksum := 0

def ofCommand (env : NetEnv) (pszCommand : List UInt8) (nMessageSizeIn : UInt32) :
    CMessageHeader where
  pchMessageStart := env.messageStart
  pchCommand := (pszCommand ++ List.replicate commandSize 0).take commandSize
  nMessageSize := nMessageSizeIn
  nChecksum := 0

def serialize (hdr : CMessageHeader) : List UInt8 :=
  hdr.pchMessageStart ++ (hdr.pchCommand ++
    (littleEndian hdr.nMessageSize ++ littleEndian hdr.nChecksum))

/-- Read a header. It fails at the end of the data. -/
def deserialize (bytes : List UInt8) : Option CMessageHeader :=
  if bytes.length < headerSize then none
  else some {
    pchMessageStart := bytes.take 4
    pchCommand := (bytes.drop 4).take commandSize
    nMessageSize := ofLittleEndian ((bytes.drop 16).take 4)
    nChecksum := ofLittleEndian ((bytes.drop 20).take 4) }

def getCommand (hdr : CMessageHeader) : List UInt8 := hdr.pchCommand.takeWhile (· ≠ 0)

def isValid (env : NetEnv) (hdr : CMessageHeader) : Bool :=
  hdr.pchMessageStart = env.messageStart ∧
    (hdr.pchCommand.takeWhile (· ≠ 0)).all (fun letter => 0x20 ≤ letter ∧ letter ≤ 0x7e) ∧
    (hdr.pchCommand.dropWhile (· ≠ 0)).all (· = 0) ∧ hdr.nMessageSize.toNat ≤ maxSize

end CMessageHeader

/-- `memcpy(&buffer[position], source, count)` -/
def memcpy (buffer : List UInt8) (position : ℕ) (source : List UInt8) (count : ℕ) :
    Option (List UInt8) :=
  if position + count ≤ buffer.length ∧ count ≤ source.length then
    some (buffer.take position ++ (source.take count ++ buffer.drop (position + count)))
  else none

def NetEnv.checksum (env : NetEnv) (data : List UInt8) : UInt32 := .ofNat (env.hash data).toNat

/-! ## Receiving -/

structure CNetMessage where
  inData : Bool := false
  hdrbuf : List UInt8 := List.replicate headerSize 0
  hdr : CMessageHeader
  nHdrPos : ℕ := 0
  vRecv : List UInt8 := []
  nDataPos : ℕ := 0

namespace CNetMessage

def complete (msg : CNetMessage) : Bool := msg.inData && msg.hdr.nMessageSize.toNat == msg.nDataPos

/-- `readHeader`, with the number it returns. -/
def readHeader (pch : List UInt8) (msg : CNetMessage) : Option (CNetMessage × Int) :=
  let nRemaining := 24 - msg.nHdrPos
  let nCopy := min nRemaining pch.length
  (memcpy msg.hdrbuf msg.nHdrPos pch nCopy).map fun hdrbuf =>
    let msg := { msg with hdrbuf := hdrbuf, nHdrPos := msg.nHdrPos + nCopy }
    if msg.nHdrPos < 24 then (msg, nCopy)
    else
      match CMessageHeader.deserialize msg.hdrbuf with
      | none => (msg, -1)
      | some hdr =>
        let msg := { msg with hdr := hdr, hdrbuf := msg.hdrbuf.drop headerSize }
        if maxSize < hdr.nMessageSize.toNat then (msg, -1)
        else ({ msg with inData := true }, nCopy)

def resize (data : List UInt8) (size : ℕ) : List UInt8 :=
  data.take size ++ List.replicate (size - data.length) 0

/-- `readData`, with the number it returns. -/
def readData (pch : List UInt8) (msg : CNetMessage) : Option (CNetMessage × Int) :=
  let nRemaining := msg.hdr.nMessageSize.toNat - msg.nDataPos
  let nCopy := min nRemaining pch.length
  let vRecv :=
    if msg.vRecv.length < msg.nDataPos + nCopy then
      resize msg.vRecv (min msg.hdr.nMessageSize.toNat (msg.nDataPos + nCopy + 256 * 1024))
    else msg.vRecv
  (memcpy vRecv msg.nDataPos pch nCopy).map fun vRecv =>
    ({ msg with vRecv := vRecv, nDataPos := msg.nDataPos + nCopy }, nCopy)

/-- One round of `ReceiveMsgBytes` for a message. -/
def absorb (pch : List UInt8) (msg : CNetMessage) : Option (CNetMessage × Int) :=
  if msg.inData then msg.readData pch else msg.readHeader pch

def oversized (msg : CNetMessage) : Bool :=
  msg.inData && decide (maxProtocolMessageLength < msg.hdr.nMessageSize.toNat)

end CNetMessage

/-- What `ProcessMessages` makes of a complete message. -/
inductive Inspection where
  | invalidMessageStart
  | errorsInHeader
  | checksumError
  | processed (strCommand : List UInt8) (vRecv : List UInt8)

namespace NetEnv

variable (env : NetEnv)

/-- The checks of `ProcessMessages`. -/
def inspect (msg : CNetMessage) : Inspection :=
  if msg.hdr.pchMessageStart ≠ env.messageStart then .invalidMessageStart
  else if !msg.hdr.isValid env then .errorsInHeader
  else if env.checksum (msg.vRecv.take msg.hdr.nMessageSize.toNat) ≠ msg.hdr.nChecksum then
    .checksumError
  else .processed msg.hdr.getCommand msg.vRecv

def currentMessage (vRecvMsg : List CNetMessage) : List CNetMessage × CNetMessage :=
  match vRecvMsg.getLast? with
  | none => (vRecvMsg, { hdr := .null env })
  | some msg => if msg.complete then (vRecvMsg, { hdr := .null env }) else (vRecvMsg.dropLast, msg)

/-- The loop of `ReceiveMsgBytes`, with a bound for the rounds; and whether it returns true. -/
def receiveLoop : ℕ → List UInt8 → List CNetMessage → Option (List CNetMessage × Bool)
  | _, [], vRecvMsg => some (vRecvMsg, true)
  | 0, _ :: _, _ => none
  | rounds + 1, pch, vRecvMsg =>
    let current := env.currentMessage vRecvMsg
    match current.2.absorb pch with
    | none => none
    | some (msg, handled) =>
      if handled < 0 then some (current.1 ++ [msg], false)
      else if msg.oversized then some (current.1 ++ [msg], false)
      else receiveLoop rounds (pch.drop handled.toNat) (current.1 ++ [msg])

def receiveMsgBytes (pch : List UInt8) (vRecvMsg : List CNetMessage) :
    Option (List CNetMessage × Bool) :=
  env.receiveLoop pch.length pch vRecvMsg

/-- A call for each piece, until one is refused. -/
def receivePieces : List (List UInt8) → List CNetMessage → Option (List CNetMessage × Bool)
  | [], vRecvMsg => some (vRecvMsg, true)
  | piece :: rest, vRecvMsg =>
    match env.receiveMsgBytes piece vRecvMsg with
    | none => none
    | some (vRecvMsg, false) => some (vRecvMsg, false)
    | some (vRecvMsg, true) => receivePieces rest vRecvMsg

end NetEnv

/-! ## Sending -/

structure SendQueue where
  ssSend : List UInt8 := []
  vSendMsg : List (List UInt8) := []
  nSendOffset : ℕ := 0
  nSendSize : ℕ := 0

namespace SendQueue

/-- `SocketSendData`, from the call of `send` with some number on: the queue afterwards, and the
bytes that the socket took. `send` takes at most what it is given; a negative number is an
error. -/
def sendLoop (send : ℕ → Int) : ℕ → List (List UInt8) → ℕ → ℕ →
    Option ((List (List UInt8) × ℕ × ℕ) × List UInt8)
  | _, [], nSendOffset, nSendSize =>
    if nSendOffset = 0 ∧ nSendSize = 0 then some (([], 0, 0), []) else none
  | call, data :: rest, nSendOffset, nSendSize =>
    if data.length ≤ nSendOffset then none
    else
      let nBytes := (min (send call) (data.length - nSendOffset)).toNat
      let taken := (data.drop nSendOffset).take nBytes
      if nBytes = 0 then some ((data :: rest, nSendOffset, nSendSize), [])
      else if nSendOffset + nBytes = data.length then
        (sendLoop send (call + 1) rest 0 (nSendSize - data.length)).map fun outcome =>
          (outcome.1, taken ++ outcome.2)
      else some ((data :: rest, nSendOffset + nBytes, nSendSize), taken)

def socketSendData (send : ℕ → Int) (queue : SendQueue) : Option (SendQueue × List UInt8) :=
  (sendLoop send 0 queue.vSendMsg queue.nSendOffset queue.nSendSize).map fun outcome =>
    ({ queue with
        vSendMsg := outcome.1.1, nSendOffset := outcome.1.2.1, nSendSize := outcome.1.2.2 },
      outcome.2)

def beginMessage (env : NetEnv) (pszCommand : List UInt8) (queue : SendQueue) : Option SendQueue :=
  if queue.ssSend.length ≠ 0 then none
  else some { queue with ssSend := (CMessageHeader.ofCommand env pszCommand 0).serialize }

/-- What `EndMessage` makes of the message: it sets the size and the checksum. -/
def sealMessage (env : NetEnv) (ssSend : List UInt8) : Option (List UInt8) :=
  let nSize := UInt32.ofNat (ssSend.length - headerSize)
  (memcpy ssSend 16 (littleEndian nSize) 4).bind fun sized =>
    if sized.length < 24 then none
    else memcpy sized 20 (littleEndian (env.checksum (sized.drop headerSize))) 4

/-- `EndMessage`. When nothing is queued before, the message is sent right away. -/
def endMessage (env : NetEnv) (send : ℕ → Int) (queue : SendQueue) :
    Option (SendQueue × List UInt8) :=
  if queue.ssSend.length = 0 then some (queue, [])
  else
    (sealMessage env queue.ssSend).bind fun data =>
      let queued := { queue with
        ssSend := []
        vSendMsg := queue.vSendMsg ++ [data]
        nSendSize := queue.nSendSize + data.length }
      if queue.vSendMsg.isEmpty then queued.socketSendData send else some (queued, [])

end SendQueue

/-! ## Steps -/

/-- A message to be sent: a command that fits in the header, and data up to the length that
the protocol allows. -/
structure Message where
  command : List UInt8
  payload : List UInt8
  printable : ∀ letter ∈ command, 0x20 ≤ letter ∧ letter ≤ 0x7e
  command_fits : command.length ≤ commandSize
  payload_fits : payload.length ≤ maxProtocolMessageLength

/-- A connection: the queue of the sender, the bytes under way, and the messages of the
receiver. The messages that were queued are kept for reference. -/
structure PeerConnection where
  queue : SendQueue := {}
  wire : List UInt8 := []
  vRecvMsg : List CNetMessage := []
  queued : List Message := []

/-- What happens on a connection: a message is queued, the queue is sent again, with the
outcomes of `send`, or some bytes arrive. -/
inductive NetAction where
  | push (message : Message) (send : ℕ → Int)
  | send (send : ℕ → Int)
  | arrive (nBytes : ℕ)

/-- A step. `none` also stands for a receiver that refuses the bytes. -/
def NetEnv.step (env : NetEnv) : NetAction → PeerConnection → Option PeerConnection
  | .push message send, conn =>
    (conn.queue.beginMessage env message.command).bind fun queue =>
      (({ queue with ssSend := queue.ssSend ++ message.payload } : SendQueue).endMessage env
        send).map fun outcome => { conn with
          queue := outcome.1
          wire := conn.wire ++ outcome.2
          queued := conn.queued ++ [message] }
  | .send send, conn =>
    (conn.queue.socketSendData send).map fun outcome => { conn with
      queue := outcome.1
      wire := conn.wire ++ outcome.2 }
  | .arrive nBytes, conn =>
    match env.receiveMsgBytes (conn.wire.take nBytes) conn.vRecvMsg with
    | some (vRecvMsg, true) => some { conn with
        wire := conn.wire.drop nBytes
        vRecvMsg := vRecvMsg }
    | _ => none

end DogeCash
