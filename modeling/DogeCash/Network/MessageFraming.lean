import DogeCash.Foundation.Run
import DogeCash.Network.Messages
import DogeCash.Primitives.BlockEncoding

/-! # Messages arrive as they were sent

The bytes of a connection are frames (`messageLayout`): a header that says how long the data
are. What the receiver holds is what these frames say, however the bytes are cut
(`Receiving`, `Refused`), and the sender never loses or repeats a byte. So the receiver has the
first of the messages that were queued, whole and in order (`messages_delivered`).
-/

namespace DogeCash

open List (append_assoc append_nil drop_drop drop_left' flatten_cons length_append length_drop
  length_map length_take map_cons mem_map mem_singleton take_append_drop take_left'
  take_of_length_le)
open Option (bind_some map_some some_inj)
open CMessageHeader (getCommand ofCommand)

/-! ## Headers -/

theorem ofLittleEndian_littleEndian (number : UInt32) :
    ofLittleEndian (littleEndian number) = number := by
  have bound := number.toNat_lt
  rw [← UInt32.toNat_inj, littleEndian, ofLittleEndian, UInt32.toNat_ofNat']
  simp only [UInt8.toNat_ofNat']
  omega

theorem littleEndian_ofLittleEndian (first second third fourth : UInt8) :
    littleEndian (ofLittleEndian [first, second, third, fourth]) =
      [first, second, third, fourth] := by
  have bounds := And.intro (And.intro first.toNat_lt second.toNat_lt)
    (And.intro third.toNat_lt fourth.toNat_lt)
  rw [ofLittleEndian, littleEndian]
  simp only [List.cons.injEq, ← UInt8.toNat_inj, UInt8.toNat_ofNat', UInt32.toNat_ofNat', and_true]
  omega

theorem length_littleEndian (number : UInt32) : (littleEndian number).length = 4 := rfl

variable {bytes : List UInt8} {position count : ℕ} {queue : SendQueue}

theorem littleEndian_ofLittleEndian_of_length (four : bytes.length = 4) :
    littleEndian (ofLittleEndian bytes) = bytes := by
  obtain ⟨first, second, third, fourth, rfl⟩ := List.length_eq_four.mp four
  exact littleEndian_ofLittleEndian first second third fourth

namespace CMessageHeader

/-- The fields have the sizes of the source. -/
structure WellFormed (hdr : CMessageHeader) : Prop where
  start : hdr.pchMessageStart.length = 4
  command : hdr.pchCommand.length = commandSize

variable {hdr : CMessageHeader} {bytes : List UInt8}

theorem length_serialize (wellFormed : hdr.WellFormed) : hdr.serialize.length = headerSize := by
  rw [serialize, length_append, length_append, length_append, wellFormed.start, wellFormed.command]
  rfl

theorem deserialize_isSome (length : bytes.length = headerSize) :
    ∃ hdr, deserialize bytes = some hdr := by
  rw [deserialize, if_neg (by rw [length]; exact lt_irrefl _)]
  exact ⟨_, rfl⟩

theorem deserialize_serialize (wellFormed : hdr.WellFormed) :
    deserialize hdr.serialize = some hdr := by
  have dropStart : hdr.serialize.drop 4 = hdr.pchCommand ++
      (littleEndian hdr.nMessageSize ++ littleEndian hdr.nChecksum) :=
    drop_left' wellFormed.start
  have dropCommand : hdr.serialize.drop 16 =
      littleEndian hdr.nMessageSize ++ littleEndian hdr.nChecksum := by
    rw [← drop_drop (i := 12) (j := 4), dropStart]
    exact drop_left' wellFormed.command
  have dropSize : hdr.serialize.drop 20 = littleEndian hdr.nChecksum := by
    rw [← drop_drop (i := 4) (j := 16), dropCommand]
    exact drop_left' (length_littleEndian _)
  rw [deserialize, if_neg (by rw [length_serialize wellFormed]; exact lt_irrefl _), dropStart,
    dropCommand, dropSize, take_left' wellFormed.command,
    take_left' (length_littleEndian _), take_of_length_le (length_littleEndian _).le,
    ofLittleEndian_littleEndian, ofLittleEndian_littleEndian, serialize,
    take_left' wellFormed.start]

theorem serialize_of_deserialize (length : bytes.length = headerSize)
    (decodes : deserialize bytes = some hdr) : hdr.serialize = bytes ∧ hdr.WellFormed := by
  have size : bytes.length = 24 := length
  rw [deserialize, if_neg (by rw [length]; exact lt_irrefl _), some_inj] at decodes
  subst decodes
  refine ⟨?_, ?_, ?_⟩
  · have lengthSize : ((bytes.drop 16).take 4).length = 4 := by
      rw [length_take, length_drop]
      omega
    have lengthChecksum : ((bytes.drop 20).take 4).length = 4 := by
      rw [length_take, length_drop]
      omega
    have dropSize : (bytes.drop 16).drop 4 = bytes.drop 20 := drop_drop
    have dropCommand : (bytes.drop 4).drop commandSize = bytes.drop 16 := drop_drop
    have all : (bytes.drop 20).take 4 = bytes.drop 20 := by
      refine take_of_length_le ?_
      rw [length_drop]
      omega
    rw [serialize]
    rw [littleEndian_ofLittleEndian_of_length lengthSize,
      littleEndian_ofLittleEndian_of_length lengthChecksum, all, ← dropSize,
      take_append_drop, ← dropCommand, take_append_drop, take_append_drop]
  · rw [length_take]
    omega
  · rw [length_take, length_drop, size]
    rfl

end CMessageHeader

def messageLayout : FrameLayout UInt8 where
  headerSize := headerSize
  bodySize header := ((CMessageHeader.deserialize header).map (·.nMessageSize.toNat)).getD 0
  limit := maxProtocolMessageLength
  header_pos := by decide

theorem bodySize_of_deserialize {hdr : CMessageHeader}
    (decodes : CMessageHeader.deserialize bytes = some hdr) :
    messageLayout.bodySize bytes = hdr.nMessageSize.toNat := by
  rw [messageLayout]
  dsimp only
  rw [decodes]
  rfl

/-! ## Copies -/

theorem memcpy_eq {buffer source : List UInt8} (inside : position + count ≤ buffer.length)
    (enough : count ≤ source.length) :
    memcpy buffer position source count =
      some (buffer.take position ++ (source.take count ++ buffer.drop (position + count))) :=
  if_pos ⟨inside, enough⟩

theorem memcpy_spec (buffer source : List UInt8) (position count : ℕ)
    (inside : position + count ≤ buffer.length) (enough : count ≤ source.length) :
    ∃ after, memcpy buffer position source count = some after ∧ after.length = buffer.length ∧
      after.take (position + count) = buffer.take position ++ source.take count := by
  refine ⟨_, memcpy_eq inside enough, ?_, ?_⟩
  · rw [length_append, length_append, length_take, length_take, length_drop]
    omega
  · rw [← append_assoc]
    refine take_left' ?_
    rw [length_append, length_take, length_take]
    omega

theorem memcpy_append {first second third source : List UInt8}
    (position_eq : first.length = position) (count_eq : second.length = count)
    (enough : source.length = count) :
    memcpy (first ++ (second ++ third)) position source count =
      some (first ++ (source ++ third)) := by
  subst position_eq count_eq
  rw [memcpy_eq]
  · rw [List.take_left, take_of_length_le enough.le, ← append_assoc first second,
      drop_left' (by rw [length_append])]
  · rw [length_append, length_append]
    omega
  · exact enough.ge

/-! ## The receiver -/

namespace CNetMessage

variable {msg : CNetMessage} {pch : List UInt8}

structure InHeader (msg : CNetMessage) : Prop where
  inData : msg.inData = false
  hdrbuf : msg.hdrbuf.length = 24
  nHdrPos : msg.nHdrPos < 24
  vRecv : msg.vRecv = []
  nDataPos : msg.nDataPos = 0

structure InBody (msg : CNetMessage) : Prop where
  inData : msg.inData = true
  hdrbuf : msg.hdrbuf = []
  nHdrPos : msg.nHdrPos = 24
  wellFormed : msg.hdr.WellFormed
  allowed : msg.hdr.nMessageSize.toNat ≤ maxProtocolMessageLength
  inside : msg.nDataPos ≤ msg.vRecv.length
  bounded : msg.vRecv.length ≤ msg.hdr.nMessageSize.toNat

def raw (msg : CNetMessage) : List UInt8 :=
  if msg.inData then msg.hdr.serialize ++ msg.vRecv.take msg.nDataPos
  else msg.hdrbuf.take msg.nHdrPos

def Open (msg : CNetMessage) : Prop :=
  msg.InHeader ∨ msg.InBody ∧ msg.nDataPos < msg.hdr.nMessageSize.toNat

structure Whole (msg : CNetMessage) : Prop extends msg.InBody where
  full : msg.nDataPos = msg.hdr.nMessageSize.toNat

theorem InHeader.raw_eq (inHeader : msg.InHeader) : msg.raw = msg.hdrbuf.take msg.nHdrPos := by
  rw [raw, inHeader.inData]
  rfl

theorem InBody.raw_eq (inBody : msg.InBody) :
    msg.raw = msg.hdr.serialize ++ msg.vRecv.take msg.nDataPos := by
  rw [raw, inBody.inData]
  rfl

theorem Open.not_complete (isOpen : msg.Open) : msg.complete = false := by
  rcases isOpen with inHeader | ⟨inBody, below⟩
  · rw [complete, inHeader.inData]
    rfl
  · rw [complete, inBody.inData, Bool.true_and, beq_eq_false_iff_ne]
    omega

theorem Whole.complete (whole : msg.Whole) : msg.complete = true := by
  rw [CNetMessage.complete, whole.inData, Bool.true_and, beq_iff_eq]
  exact whole.full.symm

theorem InBody.open_or_whole (inBody : msg.InBody) : msg.Open ∨ msg.Whole := by
  have inside := inBody.inside
  have bounded := inBody.bounded
  by_cases full : msg.nDataPos = msg.hdr.nMessageSize.toNat
  · exact .inr ⟨inBody, full⟩
  · exact .inl (.inr ⟨inBody, by omega⟩)

theorem Whole.length (whole : msg.Whole) : msg.vRecv.length = msg.hdr.nMessageSize.toNat := by
  have inside := whole.inside
  have bounded := whole.bounded
  have full := whole.full
  omega

def frame (msg : CNetMessage) : List UInt8 × List UInt8 := (msg.hdr.serialize, msg.vRecv)

theorem Whole.raw_eq (whole : msg.Whole) : msg.raw = msg.frame.1 ++ msg.frame.2 := by
  rw [whole.toInBody.raw_eq, take_of_length_le, frame]
  rw [whole.length, whole.full]

theorem Whole.isFrame (whole : msg.Whole) : messageLayout.IsFrame msg.frame := by
  have size := bodySize_of_deserialize (CMessageHeader.deserialize_serialize whole.wellFormed)
  refine ⟨CMessageHeader.length_serialize whole.wellFormed, ?_, ?_⟩
  · rw [frame, size]
    exact whole.length
  · rw [frame, size]
    exact whole.allowed

theorem Whole.eq_of_frame {other : CNetMessage} (whole : msg.Whole) (otherWhole : other.Whole)
    (same : msg.frame = other.frame) : msg = other := by
  obtain ⟨headers, data⟩ := Prod.mk.inj same
  have hdrs : msg.hdr = other.hdr := by
    rw [← some_inj, ← CMessageHeader.deserialize_serialize whole.wellFormed,
      ← CMessageHeader.deserialize_serialize otherWhole.wellFormed, headers]
  have positions : msg.nDataPos = other.nDataPos := by
    rw [whole.full, otherWhole.full, hdrs]
  have hdrbufs := whole.hdrbuf.trans otherWhole.hdrbuf.symm
  have hdrPositions := whole.nHdrPos.trans otherWhole.nHdrPos.symm
  have phases := whole.inData.trans otherWhole.inData.symm
  cases msg
  cases other
  simp only [CNetMessage.mk.injEq]
  exact ⟨phases, hdrbufs, hdrs, hdrPositions, data, positions⟩

theorem eq_of_map_frame {first second : List CNetMessage} (firstWhole : ∀ msg ∈ first, msg.Whole)
    (secondWhole : ∀ msg ∈ second, msg.Whole)
    (same : first.map CNetMessage.frame = second.map CNetMessage.frame) : first = second := by
  induction first generalizing second with
  | nil => exact (List.map_eq_nil_iff.mp same.symm).symm
  | cons msg rest ih =>
    cases second with
    | nil => cases same
    | cons other others =>
      obtain ⟨here, later⟩ := List.cons.inj same
      obtain ⟨msgWhole, restWhole⟩ := List.forall_mem_cons.mp firstWhole
      obtain ⟨otherWhole, othersWhole⟩ := List.forall_mem_cons.mp secondWhole
      rw [msgWhole.eq_of_frame otherWhole here, ih restWhole othersWhole later]

/-- What a round does with the first bytes it is given: it refuses the message when a header
is whole that asks for too much, or it takes them. -/
inductive Round (msg : CNetMessage) (pch : List UInt8) : CNetMessage × Int → Prop
  | refused (after : CNetMessage) (handled : Int) (taken : ℕ)
      (refuses : handled < 0 ∨ after.oversized = true) (notComplete : after.complete = false)
      (header : (msg.raw ++ pch.take taken).length = headerSize)
      (long : maxProtocolMessageLength < messageLayout.bodySize (msg.raw ++ pch.take taken)) :
      Round msg pch (after, handled)
  | taken (after : CNetMessage) (taken : ℕ) (some : 0 < taken) (inside : taken ≤ pch.length)
      (allowed : after.oversized = false) (raw : after.raw = msg.raw ++ pch.take taken)
      (phase : after.Open ∧ after.raw ≠ [] ∨ after.Whole) : Round msg pch (after, taken)

theorem readHeader_round (inHeader : msg.InHeader) (more : pch ≠ []) :
    ∃ outcome, msg.readHeader pch = some outcome ∧ Round msg pch outcome := by
  have nonempty := List.length_pos_of_ne_nil more
  have before := inHeader.nHdrPos
  unfold readHeader
  dsimp only
  generalize count_eq : min (24 - msg.nHdrPos) pch.length = nCopy
  obtain ⟨hdrbuf, copied, length, begins⟩ := memcpy_spec msg.hdrbuf pch msg.nHdrPos nCopy
    (by rw [inHeader.hdrbuf]; omega) (by omega)
  rw [inHeader.hdrbuf] at length
  rw [copied, map_some]
  refine ⟨_, rfl, ?_⟩
  split_ifs with partly
  · have after : InHeader { msg with hdrbuf := hdrbuf, nHdrPos := msg.nHdrPos + nCopy } :=
      ⟨inHeader.inData, length, partly, inHeader.vRecv, inHeader.nDataPos⟩
    have raw : CNetMessage.raw { msg with hdrbuf := hdrbuf, nHdrPos := msg.nHdrPos + nCopy } =
        msg.raw ++ pch.take nCopy := by
      rw [after.raw_eq, inHeader.raw_eq]
      exact begins
    refine .taken _ nCopy (by omega) (by omega) ?_ raw (.inl ⟨.inl after, ?_⟩)
    · rw [oversized, after.inData, Bool.false_and]
    · refine List.ne_nil_of_length_pos ?_
      rw [raw, length_append, length_take]
      omega
  · have all : hdrbuf = msg.raw ++ pch.take nCopy := by
      rw [inHeader.raw_eq, ← begins, take_of_length_le]
      omega
    obtain ⟨hdr, decodes⟩ := CMessageHeader.deserialize_isSome length
    obtain ⟨serialized, wellFormed⟩ := CMessageHeader.serialize_of_deserialize length decodes
    have size := bodySize_of_deserialize decodes
    rw [all] at length size serialized
    rw [decodes]
    dsimp only
    split_ifs with tooLong
    · refine .refused _ (-1) nCopy (.inl (by decide)) ?_ length ?_
      · rw [complete, inHeader.inData, Bool.false_and]
      · rw [size]
        exact lt_trans (by decide) tooLong
    · have done : hdrbuf.drop headerSize = [] := by
        rw [all]
        exact List.drop_of_length_le length.le
      by_cases long : maxProtocolMessageLength < hdr.nMessageSize.toNat
      · refine .refused _ nCopy nCopy (.inr ?_) ?_ length (by rw [size]; exact long)
        · exact decide_eq_true long
        · rw [complete, Bool.true_and, beq_eq_false_iff_ne]
          dsimp only
          rw [inHeader.nDataPos]
          omega
      · have inBody : InBody { msg with
            inData := true, hdrbuf := hdrbuf.drop headerSize, hdr := hdr
            nHdrPos := msg.nHdrPos + nCopy } := by
          refine ⟨rfl, done, ?_, wellFormed, not_lt.mp long, ?_, ?_⟩
          · dsimp only
            omega
          · exact inHeader.nDataPos.le.trans (Nat.zero_le _)
          · rw [inHeader.vRecv]
            exact Nat.zero_le _
        have bytes : hdr.serialize ++ msg.vRecv.take msg.nDataPos = msg.raw ++ pch.take nCopy := by
          rw [serialized, inHeader.vRecv, List.take_nil, append_nil]
        have raw := inBody.raw_eq.trans bytes
        refine .taken _ nCopy (by omega) (by omega) ?_ raw ?_
        · exact decide_eq_false long
        · rcases inBody.open_or_whole with isOpen | whole
          · refine .inl ⟨isOpen, List.ne_nil_of_length_pos ?_⟩
            rw [raw, length]
            decide
          · exact .inr whole

theorem length_resize (data : List UInt8) (size : ℕ) : (resize data size).length = size := by
  rw [resize, length_append, length_take, List.length_replicate]
  omega

theorem take_resize {data : List UInt8} {size count : ℕ} (inside : count ≤ data.length)
    (kept : count ≤ size) : (resize data size).take count = data.take count := by
  rw [resize, List.take_append_of_le_length, List.take_take, min_eq_left kept]
  rw [length_take]
  omega

theorem readData_round (inBody : msg.InBody)
    (below : msg.nDataPos < msg.hdr.nMessageSize.toNat) (more : pch ≠ []) :
    ∃ outcome, msg.readData pch = some outcome ∧ Round msg pch outcome := by
  have nonempty := List.length_pos_of_ne_nil more
  have inside := inBody.inside
  have bounded := inBody.bounded
  unfold readData
  dsimp only
  generalize count_eq : min (msg.hdr.nMessageSize.toNat - msg.nDataPos) pch.length = nCopy
  generalize grown_eq : (if msg.vRecv.length < msg.nDataPos + nCopy then
    resize msg.vRecv (min msg.hdr.nMessageSize.toNat (msg.nDataPos + nCopy + 256 * 1024))
    else msg.vRecv) = grown
  have grows : msg.nDataPos + nCopy ≤ grown.length ∧
      grown.length ≤ msg.hdr.nMessageSize.toNat ∧
      grown.take msg.nDataPos = msg.vRecv.take msg.nDataPos := by
    rw [← grown_eq]
    split_ifs with short
    · rw [length_resize, take_resize inside (by omega)]
      exact ⟨by omega, by omega, rfl⟩
    · exact ⟨by omega, bounded, rfl⟩
  obtain ⟨vRecv, copied, length, begins⟩ := memcpy_spec grown pch msg.nDataPos nCopy grows.1
    (by omega)
  rw [copied, map_some]
  have after : InBody { msg with vRecv := vRecv, nDataPos := msg.nDataPos + nCopy } :=
    ⟨inBody.inData, inBody.hdrbuf, inBody.nHdrPos, inBody.wellFormed, inBody.allowed,
      length ▸ grows.1, length ▸ grows.2.1⟩
  have raw : CNetMessage.raw { msg with vRecv := vRecv, nDataPos := msg.nDataPos + nCopy } =
      msg.raw ++ pch.take nCopy := by
    rw [after.raw_eq, inBody.raw_eq, append_assoc, ← grows.2.2, ← begins]
  refine ⟨_, rfl, .taken _ nCopy (by omega) (by omega) ?_ raw ?_⟩
  · rw [oversized, after.inData, Bool.true_and]
    exact decide_eq_false (not_lt.mpr inBody.allowed)
  · rcases after.open_or_whole with isOpen | whole
    · refine .inl ⟨isOpen, List.ne_nil_of_length_pos ?_⟩
      rw [raw, length_append, length_take]
      omega
    · exact .inr whole

theorem absorb_round (isOpen : msg.Open) (more : pch ≠ []) :
    ∃ outcome, msg.absorb pch = some outcome ∧ Round msg pch outcome := by
  unfold absorb
  rcases isOpen with inHeader | ⟨inBody, below⟩
  · rw [inHeader.inData, if_neg Bool.false_ne_true]
    exact readHeader_round inHeader more
  · rw [inBody.inData, if_pos rfl]
    exact readData_round inBody below more

end CNetMessage

/-- The receiver has taken a stream: whole messages, and at most one that is open. -/
inductive Receiving : List CNetMessage → List UInt8 → Prop
  | idle (done : List CNetMessage) (whole : ∀ msg ∈ done, msg.Whole) :
      Receiving done (done.flatMap CNetMessage.raw)
  | busy (done : List CNetMessage) (msg : CNetMessage) (whole : ∀ msg ∈ done, msg.Whole)
      (isOpen : msg.Open) (begun : msg.raw ≠ []) :
      Receiving (done ++ [msg]) (done.flatMap CNetMessage.raw ++ msg.raw)

/-- The receiver has refused a stream: after whole messages, a header asks for too much. -/
inductive Refused : List CNetMessage → List UInt8 → Prop
  | intro (done : List CNetMessage) (msg : CNetMessage) (header rest : List UInt8)
      (whole : ∀ msg ∈ done, msg.Whole) (notComplete : msg.complete = false)
      (length : header.length = headerSize)
      (long : maxProtocolMessageLength < messageLayout.bodySize header) :
      Refused (done ++ [msg]) (done.flatMap CNetMessage.raw ++ (header ++ rest))

variable {env : NetEnv} {vRecvMsg : List CNetMessage} {stream : List UInt8}

variable {done : List CNetMessage} {msg : CNetMessage}

theorem flatMap_raw (whole : ∀ msg ∈ done, msg.Whole) :
    done.flatMap CNetMessage.raw =
      (done.map CNetMessage.frame).flatMap fun frame => frame.1 ++ frame.2 := by
  rw [List.flatMap_map]
  exact List.flatMap_congr fun msg mem => (whole msg mem).raw_eq

theorem frames_raw (whole : ∀ msg ∈ done, msg.Whole) (rest : List UInt8) :
    messageLayout.frames (done.flatMap CNetMessage.raw ++ rest) =
      (done.map CNetMessage.frame ++ (messageLayout.frames rest).1,
        (messageLayout.frames rest).2) := by
  rw [flatMap_raw whole]
  refine FrameLayout.frames_flatMap _ rest fun frame mem => ?_
  obtain ⟨msg, inside, rfl⟩ := mem_map.mp mem
  exact (whole msg inside).isFrame

theorem frames_open (isOpen : msg.Open) : messageLayout.frames msg.raw = ([], .waiting) := by
  rcases isOpen with inHeader | ⟨inBody, below⟩
  · rw [inHeader.raw_eq]
    refine FrameLayout.frames_of_short ?_
    rw [length_take]
    have before := inHeader.nHdrPos
    change _ < 24
    omega
  · rw [inBody.raw_eq]
    have size := bodySize_of_deserialize (CMessageHeader.deserialize_serialize inBody.wellFormed)
    refine FrameLayout.frames_of_open (CMessageHeader.length_serialize inBody.wellFormed) ?_ ?_
    · rw [size]
      exact inBody.allowed
    · rw [size, length_take]
      omega

theorem filter_complete (whole : ∀ msg ∈ done, msg.Whole) :
    done.filter CNetMessage.complete = done :=
  List.filter_eq_self.mpr fun msg mem => (whole msg mem).complete

theorem filter_complete_append (whole : ∀ msg ∈ done, msg.Whole)
    (notComplete : msg.complete = false) :
    (done ++ [msg]).filter CNetMessage.complete = done := by
  rw [List.filter_append, filter_complete whole, List.filter_cons_of_neg, List.filter_nil,
    append_nil]
  rw [notComplete]
  exact Bool.false_ne_true

theorem Receiving.frames (receiving : Receiving vRecvMsg stream) :
    messageLayout.frames stream =
      ((vRecvMsg.filter CNetMessage.complete).map CNetMessage.frame, .waiting) := by
  cases receiving with
  | idle done whole =>
    have nothing : messageLayout.frames [] = ([], .waiting) :=
      FrameLayout.frames_of_short (show 0 < 24 by decide)
    have read := frames_raw whole []
    rw [append_nil, nothing, append_nil] at read
    rw [filter_complete whole, read]
  | busy done msg whole isOpen begun =>
    rw [frames_raw whole, frames_open isOpen, append_nil,
      filter_complete_append whole isOpen.not_complete]

theorem Refused.frames (refused : Refused vRecvMsg stream) :
    messageLayout.frames stream =
      ((vRecvMsg.filter CNetMessage.complete).map CNetMessage.frame, .refused) := by
  cases refused with
  | intro done msg header rest whole notComplete length long =>
    rw [frames_raw whole, FrameLayout.frames_of_long length long, append_nil,
      filter_complete_append whole notComplete]

theorem Refused.append (refused : Refused vRecvMsg stream) (more : List UInt8) :
    Refused vRecvMsg (stream ++ more) := by
  cases refused with
  | intro done msg header rest whole notComplete length long =>
    rw [append_assoc, append_assoc]
    exact .intro done msg header (rest ++ more) whole notComplete length long

theorem whole_of_complete (taken : Receiving vRecvMsg stream ∨ Refused vRecvMsg stream)
    (mem : msg ∈ vRecvMsg.filter CNetMessage.complete) : msg.Whole := by
  rcases taken with receiving | refused
  · cases receiving with
    | idle done whole => exact whole msg (List.mem_of_mem_filter mem)
    | busy done last whole isOpen begun =>
      rw [filter_complete_append whole isOpen.not_complete] at mem
      exact whole msg mem
  · cases refused with
    | intro done last header rest whole notComplete length long =>
      rw [filter_complete_append whole notComplete] at mem
      exact whole msg mem

theorem Receiving.split (receiving : Receiving vRecvMsg stream) :
    ∃ incomplete, vRecvMsg = vRecvMsg.filter CNetMessage.complete ++ incomplete ∧
      incomplete.length ≤ 1 ∧ (∀ msg ∈ incomplete, msg.Open ∧ msg.raw ≠ []) ∧
      stream = (vRecvMsg.filter CNetMessage.complete).flatMap CNetMessage.raw ++
        incomplete.flatMap CNetMessage.raw := by
  cases receiving with
  | idle _ whole =>
    rw [filter_complete whole]
    refine ⟨[], (append_nil _).symm, Nat.zero_le _, nofun, ?_⟩
    rw [List.flatMap_nil, append_nil]
  | busy done msg whole isOpen begun =>
    rw [filter_complete_append whole isOpen.not_complete]
    refine ⟨[msg], rfl, le_rfl, ?_, ?_⟩
    · intro other mem
      rw [mem_singleton.mp mem]
      exact ⟨isOpen, begun⟩
    · rw [List.flatMap_singleton]

theorem currentMessage_spec (env : NetEnv) (receiving : Receiving vRecvMsg stream) :
    (∀ msg ∈ (env.currentMessage vRecvMsg).1, msg.Whole) ∧
      (env.currentMessage vRecvMsg).2.Open ∧
      stream = (env.currentMessage vRecvMsg).1.flatMap CNetMessage.raw ++
        (env.currentMessage vRecvMsg).2.raw := by
  have fresh : CNetMessage.InHeader { hdr := .null env } :=
    ⟨rfl, List.length_replicate, show 0 < 24 by decide, rfl, rfl⟩
  cases receiving with
  | idle _ whole =>
    have current : env.currentMessage vRecvMsg = (vRecvMsg, { hdr := .null env }) := by
      unfold NetEnv.currentMessage
      cases last : vRecvMsg.getLast? with
      | none => rfl
      | some msg => exact if_pos (whole msg (List.mem_of_getLast? last)).complete
    rw [current]
    refine ⟨whole, .inl fresh, ?_⟩
    rw [fresh.raw_eq, List.take_zero, append_nil]
  | busy done msg whole isOpen begun =>
    have current : env.currentMessage (done ++ [msg]) = (done, msg) := by
      unfold NetEnv.currentMessage
      rw [List.getLast?_concat]
      dsimp only
      rw [isOpen.not_complete, if_neg Bool.false_ne_true, List.dropLast_concat]
    rw [current]
    exact ⟨whole, isOpen, rfl⟩

theorem receiveLoop_spec (env : NetEnv) {rounds : ℕ} {pch : List UInt8}
    (enough : pch.length ≤ rounds) (receiving : Receiving vRecvMsg stream) :
    ∃ after ok, env.receiveLoop rounds pch vRecvMsg = some (after, ok) ∧
      (ok = true ∧ Receiving after (stream ++ pch) ∨
        ok = false ∧ Refused after (stream ++ pch)) := by
  induction rounds generalizing pch vRecvMsg stream with
  | zero =>
    have empty : pch = [] := List.length_eq_zero_iff.mp (by omega)
    subst empty
    exact ⟨vRecvMsg, true, rfl, .inl ⟨rfl, by rw [append_nil]; exact receiving⟩⟩
  | succ rounds ih =>
    cases pch with
    | nil => exact ⟨vRecvMsg, true, rfl, .inl ⟨rfl, by rw [append_nil]; exact receiving⟩⟩
    | cons byte rest =>
      generalize bytes_eq : byte :: rest = pch at enough
      have more : pch ≠ [] := by
        rw [← bytes_eq]
        exact List.cons_ne_nil _ _
      obtain ⟨whole, isOpen, split⟩ := currentMessage_spec env receiving
      obtain ⟨⟨msg, handled⟩, absorbed, round⟩ := CNetMessage.absorb_round isOpen more
      have unfolds : env.receiveLoop (rounds + 1) pch vRecvMsg =
          if handled < 0 then some ((env.currentMessage vRecvMsg).1 ++ [msg], false)
          else if msg.oversized then some ((env.currentMessage vRecvMsg).1 ++ [msg], false)
          else env.receiveLoop rounds (pch.drop handled.toNat)
            ((env.currentMessage vRecvMsg).1 ++ [msg]) := by
        rw [← bytes_eq, NetEnv.receiveLoop, bytes_eq, absorbed]
        exact nofun
      rw [unfolds]
      cases round with
      | refused _ _ taken refuses notComplete header long =>
        refine ⟨(env.currentMessage vRecvMsg).1 ++ [msg], false, ?_, .inr ⟨rfl, ?_⟩⟩
        · rcases refuses with negative | oversized
          · rw [if_pos negative]
          · split_ifs
            · rfl
            · rfl
        · rw [split, append_assoc, ← take_append_drop taken pch, ← append_assoc
            (CNetMessage.raw _)]
          exact .intro _ msg _ _ whole notComplete header long
      | taken _ taken positive inside allowed raw phase =>
        rw [if_neg (by omega), allowed, if_neg Bool.false_ne_true, Int.toNat_natCast]
        have next : Receiving ((env.currentMessage vRecvMsg).1 ++ [msg])
            (stream ++ pch.take taken) := by
          rw [split, append_assoc, ← raw]
          rcases phase with ⟨stillOpen, begun⟩ | wholeNow
          · exact .busy _ msg whole stillOpen begun
          · have all : ∀ other ∈ (env.currentMessage vRecvMsg).1 ++ [msg], other.Whole := by
              intro other mem
              rcases List.mem_append.mp mem with before | last
              · exact whole other before
              · rw [mem_singleton.mp last]
                exact wholeNow
            have idle := Receiving.idle _ all
            rw [List.flatMap_append, List.flatMap_singleton] at idle
            exact idle
        obtain ⟨after, ok, looped, result⟩ := ih
          (show (pch.drop taken).length ≤ rounds by rw [length_drop]; omega) next
        rw [append_assoc, take_append_drop] at result
        exact ⟨after, ok, looped, result⟩

theorem receivePieces_spec (env : NetEnv) (pieces : List (List UInt8))
    (receiving : Receiving vRecvMsg stream) :
    ∃ after ok, env.receivePieces pieces vRecvMsg = some (after, ok) ∧
      (ok = true ∧ Receiving after (stream ++ pieces.flatten) ∨
        ok = false ∧ Refused after (stream ++ pieces.flatten)) := by
  induction pieces generalizing vRecvMsg stream with
  | nil =>
    refine ⟨vRecvMsg, true, rfl, .inl ⟨rfl, ?_⟩⟩
    rw [List.flatten_nil, append_nil]
    exact receiving
  | cons piece rest ih =>
    obtain ⟨next, ok, received, result⟩ := receiveLoop_spec env (le_refl piece.length) receiving
    rw [NetEnv.receivePieces, NetEnv.receiveMsgBytes, received, flatten_cons, ← append_assoc]
    rcases result with ⟨rfl, taken⟩ | ⟨rfl, refused⟩
    · exact ih taken
    · exact ⟨next, false, rfl, .inr ⟨rfl, refused.append _⟩⟩

theorem receivePieces_cut (env : NetEnv) {first second : List (List UInt8)}
    (same : first.flatten = second.flatten) :
    ∃ firstAfter secondAfter ok, env.receivePieces first [] = some (firstAfter, ok) ∧
      env.receivePieces second [] = some (secondAfter, ok) ∧
      firstAfter.filter CNetMessage.complete = secondAfter.filter CNetMessage.complete := by
  have start : Receiving [] [] := .idle [] nofun
  have results : ∀ pieces : List (List UInt8), ∃ after ok,
      env.receivePieces pieces [] = some (after, ok) ∧
        messageLayout.frames pieces.flatten =
          ((after.filter CNetMessage.complete).map CNetMessage.frame,
            if ok then .waiting else .refused) ∧
        ∀ msg ∈ after.filter CNetMessage.complete, msg.Whole := by
    intro pieces
    obtain ⟨after, ok, received, result⟩ := receivePieces_spec env pieces start
    refine ⟨after, ok, received, ?_⟩
    rcases result with ⟨rfl, taken⟩ | ⟨rfl, refused⟩
    · exact ⟨taken.frames, fun msg => whole_of_complete (.inl taken)⟩
    · exact ⟨refused.frames, fun msg => whole_of_complete (.inr refused)⟩
  obtain ⟨firstAfter, firstOk, firstReceived, firstFrames, firstWhole⟩ := results first
  obtain ⟨secondAfter, secondOk, secondReceived, secondFrames, secondWhole⟩ := results second
  rw [same, secondFrames] at firstFrames
  obtain ⟨messages, ends⟩ := Prod.mk.inj firstFrames
  have oks : secondOk = firstOk := by
    cases firstOk with
    | false =>
      cases secondOk with
      | false => rfl
      | true => cases ends
    | true =>
      cases secondOk with
      | false => cases ends
      | true => rfl
  subst oks
  exact ⟨firstAfter, secondAfter, secondOk, firstReceived, secondReceived,
    CNetMessage.eq_of_map_frame firstWhole secondWhole messages.symm⟩

/-! ## The sender -/

/-- The queue of the sender, with the offset in its first element. -/
structure Queued (vSendMsg : List (List UInt8)) (nSendOffset nSendSize : ℕ) : Prop where
  nonempty : ∀ data ∈ vSendMsg, 0 < data.length
  offset : ∀ data ∈ vSendMsg.head?, nSendOffset < data.length
  idle : vSendMsg = [] → nSendOffset = 0
  size : nSendSize = vSendMsg.flatten.length

/-- `SocketSendData` finds its assertions fulfilled, and hands over the bytes in order. -/
theorem sendLoop_spec (send : ℕ → Int) {vSendMsg : List (List UInt8)} {nSendOffset nSendSize : ℕ}
    (queued : Queued vSendMsg nSendOffset nSendSize) (call : ℕ) :
    ∃ outcome, SendQueue.sendLoop send call vSendMsg nSendOffset nSendSize = some outcome ∧
      Queued outcome.1.1 outcome.1.2.1 outcome.1.2.2 ∧
      vSendMsg.flatten.drop nSendOffset = outcome.2 ++ outcome.1.1.flatten.drop outcome.1.2.1 := by
  induction vSendMsg generalizing nSendOffset nSendSize call with
  | nil =>
    have offset := queued.idle rfl
    have size : nSendSize = 0 := queued.size
    subst offset size
    exact ⟨(([], 0, 0), []), rfl, queued, rfl⟩
  | cons data rest ih =>
    have below : nSendOffset < data.length := queued.offset data rfl
    have size : nSendSize = data.length + rest.flatten.length := by
      rw [queued.size, flatten_cons, length_append]
    unfold SendQueue.sendLoop
    rw [if_neg (by omega)]
    dsimp only
    generalize count_eq : (min (send call) (data.length - nSendOffset)).toNat = nBytes
    have within : nSendOffset + nBytes ≤ data.length := by omega
    have dropped : (data :: rest).flatten.drop nSendOffset =
        data.drop nSendOffset ++ rest.flatten := by
      rw [flatten_cons, List.drop_append_of_le_length below.le]
    split_ifs with nothing all
    · exact ⟨_, rfl, queued, rfl⟩
    · have others : Queued rest 0 (nSendSize - data.length) := by
        refine ⟨fun other mem => queued.nonempty other (List.mem_cons_of_mem _ mem), ?_,
          fun _ => rfl, by omega⟩
        exact fun other first =>
          queued.nonempty other (List.mem_cons_of_mem _ (List.mem_of_mem_head? first))
      obtain ⟨outcome, sent, kept, order⟩ := ih others (call + 1)
      refine ⟨(outcome.1, (data.drop nSendOffset).take nBytes ++ outcome.2),
        by rw [sent, map_some], kept, ?_⟩
      rw [dropped, append_assoc, ← order, List.drop_zero, take_of_length_le]
      rw [length_drop]
      omega
    · refine ⟨_, rfl, ⟨queued.nonempty, ?_, nofun, queued.size⟩, ?_⟩
      · intro first isFirst
        cases isFirst
        dsimp only
        omega
      · rw [dropped, flatten_cons, List.drop_append_of_le_length within, ← append_assoc,
          ← drop_drop, take_append_drop]

def SendQueue.InOrder (queue : SendQueue) : Prop :=
  Queued queue.vSendMsg queue.nSendOffset queue.nSendSize

def SendQueue.unsent (queue : SendQueue) : List UInt8 :=
  queue.vSendMsg.flatten.drop queue.nSendOffset

theorem socketSendData_spec (send : ℕ → Int) (inOrder : queue.InOrder) :
    ∃ after taken, queue.socketSendData send = some (after, taken) ∧
      after.ssSend = queue.ssSend ∧ after.InOrder ∧ queue.unsent = taken ++ after.unsent := by
  obtain ⟨outcome, sent, kept, order⟩ := sendLoop_spec send inOrder 0
  rw [SendQueue.socketSendData, sent, map_some]
  exact ⟨_, _, rfl, rfl, kept, order⟩

theorem inOrder_append (inOrder : queue.InOrder) {data : List UInt8} (nonempty : 0 < data.length) :
    SendQueue.InOrder { queue with
        vSendMsg := queue.vSendMsg ++ [data], nSendSize := queue.nSendSize + data.length } ∧
      SendQueue.unsent { queue with
        vSendMsg := queue.vSendMsg ++ [data], nSendSize := queue.nSendSize + data.length } =
        queue.unsent ++ data := by
  have inside : queue.nSendOffset ≤ queue.vSendMsg.flatten.length := by
    cases messages : queue.vSendMsg with
    | nil => exact (inOrder.idle messages).le
    | cons first rest =>
      have below := inOrder.offset first (by rw [messages]; rfl)
      rw [flatten_cons, length_append]
      omega
  refine ⟨⟨?_, ?_, ?_, ?_⟩, ?_⟩
  · intro other mem
    rcases List.mem_append.mp mem with before | last
    · exact inOrder.nonempty other before
    · rw [mem_singleton.mp last]
      exact nonempty
  · intro first isFirst
    cases messages : queue.vSendMsg with
    | nil =>
      rw [messages] at isFirst
      cases isFirst
      rw [inOrder.idle messages]
      exact nonempty
    | cons head rest =>
      rw [messages] at isFirst
      exact inOrder.offset first (by rw [messages]; exact isFirst)
  · intro empty
    exact absurd empty (List.append_ne_nil_of_right_ne_nil _ (List.cons_ne_nil _ _))
  · rw [inOrder.size, List.flatten_append, length_append, List.flatten_singleton]
  · rw [SendQueue.unsent, SendQueue.unsent, List.flatten_append, List.flatten_singleton,
      List.drop_append_of_le_length inside]

namespace Message

variable (env : NetEnv) (message : Message)

def header : CMessageHeader :=
  { ofCommand env message.command (.ofNat message.payload.length) with
    nChecksum := env.checksum message.payload }

def frame : List UInt8 × List UInt8 := ((message.header env).serialize, message.payload)

theorem header_wellFormed : (message.header env).WellFormed where
  start := env.messageStart_length
  command := by
    rw [header, ofCommand, length_take, length_append, List.length_replicate]
    omega

theorem nMessageSize_header : (message.header env).nMessageSize.toNat = message.payload.length := by
  have fits := message.payload_fits
  refine Nat.mod_eq_of_lt (lt_of_le_of_lt fits ?_)
  decide

theorem isFrame : messageLayout.IsFrame (message.frame env) := by
  have size := bodySize_of_deserialize
    (CMessageHeader.deserialize_serialize (message.header_wellFormed env))
  rw [nMessageSize_header] at size
  refine ⟨CMessageHeader.length_serialize (message.header_wellFormed env), size.symm, ?_⟩
  rw [frame, size]
  exact message.payload_fits

theorem sealMessage_eq (start payload : List UInt8) (length : start.length = 16) :
    SendQueue.sealMessage env (start ++ (littleEndian 0 ++ (littleEndian 0 ++ payload))) =
      some (start ++ (littleEndian (.ofNat payload.length) ++
        (littleEndian (env.checksum payload) ++ payload))) := by
  have payloadSize : (start ++ (littleEndian 0 ++ (littleEndian 0 ++ payload))).length -
      headerSize = payload.length := by
    rw [length_append, length_append, length_append, length, length_littleEndian]
    change 16 + (4 + (4 + payload.length)) - 24 = _
    omega
  unfold SendQueue.sealMessage
  rw [payloadSize]
  dsimp only
  rw [memcpy_append length (length_littleEndian 0) (length_littleEndian _), bind_some]
  generalize sizeEq : littleEndian (.ofNat payload.length) = size
  have lengthSize : size.length = 4 := by
    rw [← sizeEq]
    rfl
  have data : (start ++ (size ++ (littleEndian 0 ++ payload))).drop headerSize = payload := by
    rw [← append_assoc, ← append_assoc]
    refine drop_left' ?_
    rw [length_append, length_append, length, lengthSize]
    rfl
  rw [data, if_neg, ← append_assoc start,
    memcpy_append (by rw [length_append, length, lengthSize]) (length_littleEndian 0)
      (length_littleEndian _), append_assoc]
  rw [length_append, length_append, length_append, length, lengthSize, length_littleEndian]
  omega

theorem sealMessage_message :
    SendQueue.sealMessage env ((ofCommand env message.command 0).serialize ++
      message.payload) = some ((message.frame env).1 ++ (message.frame env).2) := by
  have wellFormed := message.header_wellFormed env
  have sealed := sealMessage_eq env
    ((message.header env).pchMessageStart ++ (message.header env).pchCommand) message.payload (by
      rw [length_append, wellFormed.start, wellFormed.command]
      rfl)
  have before : (ofCommand env message.command 0).serialize ++ message.payload =
      (message.header env).pchMessageStart ++ (message.header env).pchCommand ++
        (littleEndian 0 ++ (littleEndian 0 ++ message.payload)) := by
    rw [CMessageHeader.serialize, append_assoc, append_assoc, append_assoc, append_assoc]
    rfl
  rw [before, sealed, frame, CMessageHeader.serialize]
  simp only [append_assoc]
  rfl

end Message

/-! ## The connection -/

def sentBytes (env : NetEnv) (messages : List Message) : List UInt8 :=
  (messages.map (Message.frame env)).flatMap fun frame => frame.1 ++ frame.2

theorem sentBytes_append (env : NetEnv) (messages : List Message) (message : Message) :
    sentBytes env (messages ++ [message]) =
      sentBytes env messages ++ ((message.frame env).1 ++ (message.frame env).2) := by
  rw [sentBytes, sentBytes, List.map_append, List.flatMap_append, List.map_singleton,
    List.flatMap_singleton]

/-- Sender, wire and receiver agree: what arrived, what is under way and what is still queued
are the messages, one after another. -/
structure PeerConnection.Sound (env : NetEnv) (conn : PeerConnection) : Prop where
  ssSend : conn.queue.ssSend = []
  inOrder : conn.queue.InOrder
  stream : ∃ received, Receiving conn.vRecvMsg received ∧
    received ++ (conn.wire ++ conn.queue.unsent) = sentBytes env conn.queued

/-- What the receiver should have: the first messages that were queued, whole and as
`ProcessMessages` accepts them, and at most one incomplete message; all of them when nothing is
left under way. -/
def PeerConnection.Delivered (env : NetEnv) (conn : PeerConnection) : Prop :=
  ∃ done incomplete : List CNetMessage, conn.vRecvMsg = done ++ incomplete ∧
    (∀ msg ∈ done, msg.complete = true) ∧ incomplete.length ≤ 1 ∧
    (∀ msg ∈ incomplete, msg.complete = false) ∧
    done.map env.inspect = (conn.queued.take done.length).map (fun message =>
      .processed message.command message.payload) ∧
    (conn.queue.vSendMsg = [] → conn.wire = [] → done.length = conn.queued.length ∧ incomplete = [])

theorem frames_sentBytes (env : NetEnv) (messages : List Message) :
    messageLayout.frames (sentBytes env messages) =
      (messages.map (Message.frame env), .waiting) := by
  have nothing : messageLayout.frames [] = ([], .waiting) :=
    FrameLayout.frames_of_short (show 0 < 24 by decide)
  have read := FrameLayout.frames_flatMap (messages.map (Message.frame env)) []
    (fun frame mem => by
      obtain ⟨message, -, rfl⟩ := mem_map.mp mem
      exact message.isFrame env)
  rw [append_nil, nothing, append_nil] at read
  exact read

theorem pchCommand_header (env : NetEnv) (message : Message) :
    (message.header env).pchCommand =
      message.command ++ List.replicate (commandSize - message.command.length) 0 := by
  rw [Message.header, ofCommand, List.take_append,
    take_of_length_le message.command_fits, List.take_replicate, min_eq_left (by omega)]

theorem Message.ne_zero (message : Message) {letter : UInt8} (mem : letter ∈ message.command) :
    letter ≠ 0 := by
  rintro rfl
  exact absurd (message.printable 0 mem).1 (by decide)

theorem takeWhile_command (env : NetEnv) (message : Message) :
    (message.header env).pchCommand.takeWhile (· ≠ 0) = message.command := by
  rw [pchCommand_header, List.takeWhile_append_of_pos, List.takeWhile_replicate]
  · exact append_nil _
  · exact fun letter mem => decide_eq_true (message.ne_zero mem)

theorem dropWhile_command (env : NetEnv) (message : Message) :
    (message.header env).pchCommand.dropWhile (· ≠ 0) =
      List.replicate (commandSize - message.command.length) 0 := by
  rw [pchCommand_header, List.dropWhile_append_of_pos, List.dropWhile_replicate]
  · rfl
  · exact fun letter mem => decide_eq_true (message.ne_zero mem)

theorem isValid_header (env : NetEnv) (message : Message) :
    (message.header env).isValid env = true := by
  rw [CMessageHeader.isValid, decide_eq_true_eq, takeWhile_command, dropWhile_command]
  refine ⟨rfl, ?_, ?_, ?_⟩
  · rw [List.all_eq_true]
    exact fun letter mem => decide_eq_true (message.printable letter mem)
  · rw [List.all_eq_true]
    exact fun letter mem => decide_eq_true (List.eq_of_mem_replicate mem)
  · rw [message.nMessageSize_header env]
    exact message.payload_fits.trans (by decide)

theorem inspect_of_frame (env : NetEnv) (whole : msg.Whole) {message : Message}
    (same : msg.frame = message.frame env) :
    env.inspect msg = .processed message.command message.payload := by
  obtain ⟨headers, data⟩ := Prod.mk.inj same
  have hdr : msg.hdr = message.header env := by
    rw [← some_inj, ← CMessageHeader.deserialize_serialize whole.wellFormed,
      ← CMessageHeader.deserialize_serialize (message.header_wellFormed env), headers]
  have size := whole.length
  rw [NetEnv.inspect, take_of_length_le size.le, hdr, data, isValid_header,
    getCommand, takeWhile_command]
  exact (if_neg (not_not.mpr rfl)).trans
    ((if_neg Bool.false_ne_true).trans (if_neg (not_not.mpr rfl)))

/-- What `ProcessMessage` reads of a message with the command `block`, and what it leaves. -/
def NetEnv.readBlock (env : NetEnv) (serializeHash : List UInt8 → UInt256) (sizes : ElementSizes)
    (msg : CNetMessage) : Option (Wire.CBlock × List UInt8) :=
  match env.inspect msg with
  | .processed strCommand vRecv =>
    if strCommand = "block".toUTF8.toList then Wire.CBlock.unserialize serializeHash sizes vRecv
    else none
  | _ => none

namespace PeerConnection

variable {conn : PeerConnection} {env : NetEnv}

theorem sound_initial (env : NetEnv) : Sound env {} where
  ssSend := rfl
  inOrder := ⟨nofun, nofun, fun _ => rfl, rfl⟩
  stream := ⟨[], .idle [] nofun, rfl⟩

theorem map_inspect {done : List CNetMessage} {messages : List Message}
    (whole : ∀ msg ∈ done, msg.Whole)
    (same : done.map CNetMessage.frame = messages.map (Message.frame env)) :
    done.map env.inspect =
      messages.map fun message => .processed message.command message.payload := by
  induction done generalizing messages with
  | nil =>
    rw [List.map_eq_nil_iff.mp same.symm]
    rfl
  | cons msg rest ih =>
    cases messages with
    | nil => cases same
    | cons message others =>
      obtain ⟨here, later⟩ := List.cons.inj same
      obtain ⟨msgWhole, restWhole⟩ := List.forall_mem_cons.mp whole
      rw [map_cons, map_cons, inspect_of_frame env msgWhole here, ih restWhole later]

theorem Sound.delivered (sound : conn.Sound env) : conn.Delivered env := by
  obtain ⟨received, receiving, stream⟩ := sound.stream
  have whole : ∀ msg ∈ conn.vRecvMsg.filter CNetMessage.complete, msg.Whole :=
    fun msg => whole_of_complete (.inl receiving)
  obtain ⟨incomplete, split, few, notWhole, bytes⟩ := receiving.split
  have frames := receiving.frames
  have first : (conn.vRecvMsg.filter CNetMessage.complete).map CNetMessage.frame <+:
      conn.queued.map (Message.frame env) := by
    have longer : (messageLayout.frames received).1 <+: (messageLayout.frames (received ++ _)).1 :=
      FrameLayout.frames_prefix received (conn.wire ++ conn.queue.unsent)
    rw [stream, frames_sentBytes, frames] at longer
    exact longer
  generalize conn.vRecvMsg.filter CNetMessage.complete = complete at *
  have sent : complete.map CNetMessage.frame =
      (conn.queued.take complete.length).map (Message.frame env) := by
    rw [List.map_take, ← length_map CNetMessage.frame]
    exact List.prefix_iff_eq_take.mp first
  refine ⟨complete, incomplete, split, fun msg mem => (whole msg mem).complete, few,
    fun msg mem => (notWhole msg mem).1.not_complete, map_inspect whole sent, ?_⟩
  intro allSent allArrived
  rw [SendQueue.unsent, allSent, allArrived, List.flatten_nil, List.drop_nil, append_nil,
    append_nil] at stream
  rw [stream, frames_sentBytes] at frames
  have all : conn.queued.map (Message.frame env) = complete.map CNetMessage.frame :=
    (Prod.mk.inj frames).1
  rw [stream, sentBytes, all, ← flatMap_raw whole] at bytes
  refine ⟨?_, ?_⟩
  · rw [← length_map CNetMessage.frame, ← all, length_map]
  · cases incomplete with
    | nil => rfl
    | cons msg rest =>
      have nothing : (msg :: rest).flatMap CNetMessage.raw = [] :=
        List.self_eq_append_right.mp bytes
      rw [List.flatMap_cons, List.append_eq_nil_iff] at nothing
      exact absurd nothing.1 (notWhole msg List.mem_cons_self).2

theorem beginMessage_eq (env : NetEnv) (pszCommand : List UInt8) {queue : SendQueue}
    (ssSend : queue.ssSend = []) :
    queue.beginMessage env pszCommand = some { queue with
      ssSend := (ofCommand env pszCommand 0).serialize } := by
  rw [SendQueue.beginMessage, ssSend]
  exact if_neg (not_not.mpr rfl)

theorem endMessage_spec (env : NetEnv) (send : ℕ → Int) (message : Message) {queue : SendQueue}
    (ssSend : queue.ssSend = (ofCommand env message.command 0).serialize ++ message.payload)
    (inOrder : queue.InOrder) :
    ∃ after taken, queue.endMessage env send = some (after, taken) ∧ after.ssSend = [] ∧
      after.InOrder ∧
      queue.unsent ++ ((message.frame env).1 ++ (message.frame env).2) = taken ++ after.unsent := by
  have sealed := message.sealMessage_message env
  rw [← ssSend] at sealed
  have nonempty : queue.ssSend.length ≠ 0 := by
    intro empty
    rw [List.length_eq_zero_iff.mp empty] at sealed
    cases sealed
  have positive : 0 < ((message.frame env).1 ++ (message.frame env).2).length := by
    have header : (message.frame env).1.length = 24 := (message.isFrame env).header
    rw [length_append, header]
    omega
  generalize (message.frame env).1 ++ (message.frame env).2 = data at sealed positive ⊢
  obtain ⟨queued, bytes⟩ := inOrder_append inOrder positive
  rw [SendQueue.endMessage, if_neg nonempty, sealed, bind_some]
  split_ifs with first
  · have emptied : SendQueue.InOrder { queue with
        ssSend := []
        vSendMsg := queue.vSendMsg ++ [data]
        nSendSize := queue.nSendSize + data.length } := queued
    obtain ⟨after, taken, sends, stays, ordered, order⟩ := socketSendData_spec send emptied
    exact ⟨after, taken, sends, stays, ordered, bytes.symm.trans order⟩
  · exact ⟨_, _, rfl, rfl, queued, bytes.symm⟩

theorem step_sound (action : NetAction) (sound : conn.Sound env) :
    ∃ after, env.step action conn = some after ∧ after.Sound env := by
  obtain ⟨received, receiving, stream⟩ := sound.stream
  cases action with
  | push message send =>
    have inOrder : SendQueue.InOrder { conn.queue with
        ssSend := (ofCommand env message.command 0).serialize ++ message.payload } := sound.inOrder
    obtain ⟨after, taken, ends, ssSend, inOrder, order⟩ :=
      endMessage_spec env send message rfl inOrder
    rw [NetEnv.step, beginMessage_eq env _ sound.ssSend, bind_some, ends, map_some]
    refine ⟨_, rfl, ssSend, inOrder, received, receiving, ?_⟩
    rw [sentBytes_append, ← stream]
    simp only [append_assoc]
    rw [← order]
    rfl
  | send send =>
    obtain ⟨after, taken, sends, ssSend, inOrder, order⟩ := socketSendData_spec send sound.inOrder
    rw [NetEnv.step, sends, map_some]
    refine ⟨_, rfl, ssSend.trans sound.ssSend, inOrder, received, receiving, ?_⟩
    rw [← stream, order]
    simp
  | arrive nBytes =>
    obtain ⟨after, ok, arrives, result⟩ :=
      receiveLoop_spec env (le_refl (conn.wire.take nBytes).length) receiving
    rcases result with ⟨rfl, taken⟩ | ⟨-, refused⟩
    · rw [NetEnv.step, NetEnv.receiveMsgBytes, arrives]
      refine ⟨_, rfl, sound.ssSend, sound.inOrder, _, taken, ?_⟩
      rw [← stream, append_assoc, ← append_assoc (conn.wire.take nBytes), take_append_drop]
    · have rest : received ++ conn.wire.take nBytes ++
          (conn.wire.drop nBytes ++ conn.queue.unsent) = sentBytes env conn.queued := by
        rw [← stream, append_assoc, ← append_assoc (conn.wire.take nBytes), take_append_drop]
      have stays := FrameLayout.frames_of_refused (received ++ conn.wire.take nBytes)
        (conn.wire.drop nBytes ++ conn.queue.unsent) (by rw [refused.frames])
      rw [rest, frames_sentBytes, refused.frames] at stays
      cases (Prod.mk.inj stays).2

/-- **Messages are framed exactly.** Whatever is queued, however `send` takes the bytes and
however they arrive, no assertion fails and nothing is refused, and the receiver always has the
first of the messages, whole and as they were queued, and all of them when all bytes have
arrived. Whatever the bytes are, how they are cut changes neither the complete messages nor
whether they are refused. -/
theorem messages_delivered (env : NetEnv) (actions : List NetAction) :
    (run env.step actions {}).isSome ∧
      RunStays env.step (PeerConnection.Delivered env) actions {} ∧
      ∀ first second : List (List UInt8), first.flatten = second.flatten →
        ∃ firstAfter secondAfter ok,
          env.receivePieces first [] = some (firstAfter, ok) ∧
          env.receivePieces second [] = some (secondAfter, ok) ∧
          firstAfter.filter CNetMessage.complete = secondAfter.filter CNetMessage.complete := by
  have meets : RunMeets env.step (fun _ _ => True) actions {} :=
    RunMeets.of_forall (fun _ _ _ => trivial) _
  obtain ⟨performed, stays⟩ := meets.performed (Sound env)
    (fun action before _ sound => step_sound action sound) (sound_initial env)
  exact ⟨performed, stays.imp fun conn sound => sound.delivered,
    fun first second same => receivePieces_cut env same⟩

/-- **Blocks arrive as they were sent.** In every state of a connection the whole messages
received are the first of those queued, with at most one incomplete message behind them, and each
one that was queued with the encoding of a block is read as that block, up to what is only in
memory. -/
theorem blocks_arrive (env : NetEnv) (serializeHash : List UInt8 → UInt256) (sizes : ElementSizes)
    (actions : List NetAction) :
    RunStays env.step (fun conn => ∃ done incomplete, conn.vRecvMsg = done ++ incomplete ∧
      (∀ msg ∈ done, msg.complete = true) ∧ incomplete.length ≤ 1 ∧
      (∀ msg ∈ incomplete, msg.complete = false) ∧
      done.map env.inspect = (conn.queued.take done.length).map (fun message =>
        .processed message.command message.payload) ∧
      (conn.queue.vSendMsg = [] → conn.wire = [] →
        done.length = conn.queued.length ∧ incomplete = []) ∧
      ∀ pair ∈ done.zip conn.queued, ∀ block : Wire.CBlock, block.Sized → block.InForm →
        pair.2.command = "block".toUTF8.toList → pair.2.payload = block.serialize →
        env.readBlock serializeHash sizes pair.1 = some (block.reread serializeHash, []))
      actions {} := by
  refine (RunMeets.of_forall (fun _ _ _ => trivial) _ |>.performed (Sound env)
    (fun action before _ sound => step_sound action sound) (sound_initial env)).2.imp
      fun conn sound => ?_
  obtain ⟨done, incomplete, split, whole, few, cut, processed, all⟩ := sound.delivered
  refine ⟨done, incomplete, split, whole, few, cut, processed, all, ?_⟩
  rintro ⟨msg, message⟩ mem block sized form command payload
  obtain ⟨i, here⟩ := List.mem_iff_getElem?.mp mem
  obtain ⟨received, queued⟩ := List.getElem?_zip_eq_some.mp here
  have inside : i < done.length := (List.getElem?_eq_some_iff.mp received).1
  have same := congrArg (·[i]?) processed
  simp only [List.getElem?_map, List.getElem?_take_of_lt inside, received, queued, map_some,
    some_inj] at same
  have reads : Wire.CBlock.unserialize serializeHash sizes (block.serialize ++ []) = _ :=
    Wire.CBlock.unserialize_serialize sizes sized form []
  rw [NetEnv.readBlock, same]
  dsimp only
  rw [if_pos command, payload, ← append_nil block.serialize, reads]

end PeerConnection

end DogeCash
