import Mathlib.Data.List.Basic

/-! # Frames in a stream

A stream of frames: a header of a fixed size, which says how long the body is, and the body.
`frames` reads all frames that a stream begins with, and says whether it stops because the
next one is not whole or because its body would be longer than allowed. What is read of a stream
is read of every longer one (`frames_prefix`), and frames written one after another are read
again (`frames_flatMap`).
-/

namespace DogeCash

open List (append_assoc drop_left' length_take_of_le nil_prefix take_append_drop take_left')

variable {α : Type*}

/-- How frames are written. -/
structure FrameLayout (α : Type*) where
  headerSize : ℕ
  bodySize : List α → ℕ
  limit : ℕ
  header_pos : 0 < headerSize

/-- Why no further frame is read. -/
inductive StreamEnd where
  | waiting
  | refused

namespace FrameLayout

variable (layout : FrameLayout α)

/-- A header and a body that belong together. -/
structure IsFrame (frame : List α × List α) : Prop where
  header : frame.1.length = layout.headerSize
  body : frame.2.length = layout.bodySize frame.1
  allowed : layout.bodySize frame.1 ≤ layout.limit

/-- The frames that a stream begins with. -/
def frames (stream : List α) : List (List α × List α) × StreamEnd :=
  if stream.length < layout.headerSize then ([], .waiting)
  else
    let header := stream.take layout.headerSize
    let body := stream.drop layout.headerSize
    if layout.limit < layout.bodySize header then ([], .refused)
    else if body.length < layout.bodySize header then ([], .waiting)
    else
      let later := frames (body.drop (layout.bodySize header))
      ((header, body.take (layout.bodySize header)) :: later.1, later.2)
  termination_by stream.length
  decreasing_by
    have pos := layout.header_pos
    simp only [List.length_drop]
    omega

variable {layout} {header body rest : List α}

theorem frames_of_short (short : rest.length < layout.headerSize) :
    layout.frames rest = ([], .waiting) := by
  rw [frames, if_pos short]

section Header

variable (whole : header.length = layout.headerSize)
include whole

private theorem not_short : ¬(header ++ rest).length < layout.headerSize := by
  rw [List.length_append]
  omega

theorem frames_of_long (long : layout.limit < layout.bodySize header) :
    layout.frames (header ++ rest) = ([], .refused) := by
  rw [frames, if_neg (not_short whole)]
  rw [take_left' whole, if_pos long]

theorem frames_of_open (allowed : layout.bodySize header ≤ layout.limit)
    (short : rest.length < layout.bodySize header) :
    layout.frames (header ++ rest) = ([], .waiting) := by
  rw [frames, if_neg (not_short whole)]
  rw [take_left' whole, drop_left' whole, if_neg (Nat.not_lt.mpr allowed), if_pos short]

end Header

theorem frames_cons {frame : List α × List α} (isFrame : layout.IsFrame frame) :
    layout.frames (frame.1 ++ (frame.2 ++ rest)) =
      (frame :: (layout.frames rest).1, (layout.frames rest).2) := by
  rw [frames, if_neg (not_short isFrame.header)]
  rw [take_left' isFrame.header, drop_left' isFrame.header, if_neg (Nat.not_lt.mpr isFrame.allowed),
    take_left' isFrame.body, drop_left' isFrame.body, if_neg]
  rw [List.length_append, isFrame.body]
  omega

theorem frames_flatMap (written : List (List α × List α)) (rest : List α)
    (areFrames : ∀ frame ∈ written, layout.IsFrame frame) :
    layout.frames (written.flatMap (fun frame => frame.1 ++ frame.2) ++ rest) =
      (written ++ (layout.frames rest).1, (layout.frames rest).2) := by
  induction written with
  | nil => rfl
  | cons frame later ih =>
    obtain ⟨first, others⟩ := List.forall_mem_cons.mp areFrames
    rw [List.flatMap_cons, append_assoc, append_assoc, frames_cons first, ih others]
    rfl

/-- A stream ends within a header, is refused or ends within a body, or begins with a frame. -/
@[elab_as_elim]
theorem frames_induction {motive : List α → Prop}
    (short : ∀ stream, stream.length < layout.headerSize → motive stream)
    (long : ∀ header rest, header.length = layout.headerSize →
      layout.limit < layout.bodySize header → motive (header ++ rest))
    (within : ∀ header rest, header.length = layout.headerSize →
      layout.bodySize header ≤ layout.limit → rest.length < layout.bodySize header →
        motive (header ++ rest))
    (whole : ∀ frame rest, layout.IsFrame frame → motive rest →
      motive (frame.1 ++ (frame.2 ++ rest)))
    (stream : List α) : motive stream := by
  induction stream using FrameLayout.frames.induct layout with
  | case1 stream tooShort => exact short stream tooShort
  | case2 stream tooShort header tooLong =>
    rw [← take_append_drop layout.headerSize stream]
    exact long _ _ (length_take_of_le (Nat.not_lt.mp tooShort)) tooLong
  | case3 stream tooShort header body tooLong notWhole =>
    rw [← take_append_drop layout.headerSize stream]
    exact within _ _ (length_take_of_le (Nat.not_lt.mp tooShort)) (Nat.not_lt.mp tooLong)
      notWhole
  | case4 stream tooShort header body tooLong notWhole ih =>
    have isFrame : layout.IsFrame (header, body.take (layout.bodySize header)) := by
      refine ⟨length_take_of_le (Nat.not_lt.mp tooShort), ?_, Nat.not_lt.mp tooLong⟩
      exact length_take_of_le (Nat.not_lt.mp notWhole)
    have split : stream = header ++ (body.take (layout.bodySize header) ++
        body.drop (layout.bodySize header)) := by
      rw [take_append_drop, take_append_drop]
    rw [split]
    exact whole _ _ isFrame ih

theorem frames_prefix (stream more : List α) :
    (layout.frames stream).1 <+: (layout.frames (stream ++ more)).1 := by
  induction stream using layout.frames_induction with
  | short stream tooShort =>
    rw [frames_of_short tooShort]
    exact nil_prefix
  | long header rest size tooLong =>
    rw [frames_of_long size tooLong]
    exact nil_prefix
  | within header rest size allowed notWhole =>
    rw [frames_of_open size allowed notWhole]
    exact nil_prefix
  | whole frame rest isFrame ih =>
    rw [append_assoc, append_assoc, frames_cons isFrame, frames_cons isFrame]
    exact List.prefix_cons_inj _ |>.mpr ih

theorem frames_of_refused (stream more : List α) (refused : (layout.frames stream).2 = .refused) :
    layout.frames (stream ++ more) = layout.frames stream := by
  induction stream using layout.frames_induction with
  | short stream tooShort =>
    rw [frames_of_short tooShort] at refused
    cases refused
  | long header rest size tooLong =>
    rw [append_assoc, frames_of_long size tooLong, frames_of_long size tooLong]
  | within header rest size allowed notWhole =>
    rw [frames_of_open size allowed notWhole] at refused
    cases refused
  | whole frame rest isFrame ih =>
    rw [frames_cons isFrame] at refused
    rw [append_assoc, append_assoc, frames_cons isFrame, frames_cons isFrame, ih refused]

end FrameLayout

end DogeCash
