import Semihosting.Fault
import Semihosting.Riff.Frame

/-!
# Writing a region

A writer holds the bytes written so far. It appends whole frames, or the frame of a region that is
built on the side first; a build that fails leaves no trace. The result can be closed into a
container of any form.
-/
namespace Semihosting.Riff

/-- A region under construction. -/
structure Writer where
  bytes : Bytes
  deriving DecidableEq, Repr

namespace Writer

def empty : Writer := ⟨[]⟩

def length (writer : Writer) : Nat := writer.bytes.length

/-- Appends a frame. A payload whose size does not fit in 32 bits is refused. -/
def push (writer : Writer) (tag : FourCC) (payload : Bytes) : Except Fault Writer :=
  if offsetSpace ≤ payload.length then .error (.sizeOverflow writer.length payload.length)
  else .ok ⟨writer.bytes ++ (Frame.mk tag payload).bytes⟩

/-- Builds a region behind a header on the side, and appends the frame that has both as its
payload. The writer that builds starts with the header in place. -/
def pushNested (writer : Writer) (tag : FourCC) (header : Bytes)
    (build : Writer → Except Fault Writer) : Except Fault Writer :=
  (build ⟨header⟩).bind fun inner => writer.push tag inner.bytes

/-- Closes the region into a container of the given form. The container's size counts the form and
has to fit in 32 bits. -/
def container (writer : Writer) (form : FourCC) : Except Fault Bytes :=
  if offsetSpace ≤ writer.length + 4 then .error (.sizeOverflow 4 writer.length)
  else .ok ((Header.mk .riff (writer.length + 4)).bytes ++ form.bytes ++ writer.bytes)

theorem push_eq_ok {writer : Writer} {tag : FourCC} {payload : Bytes}
    (fits : payload.length < offsetSpace) :
    writer.push tag payload = .ok ⟨writer.bytes ++ (Frame.mk tag payload).bytes⟩ := by
  simp [push, Nat.not_le_of_lt fits]

theorem container_eq_ok {writer : Writer} {form : FourCC}
    (fits : writer.length + 4 < offsetSpace) :
    writer.container form =
      .ok ((Header.mk .riff (writer.length + 4)).bytes ++ form.bytes ++ writer.bytes) := by
  simp [container, Nat.not_le_of_lt fits]

/-- A writer that took a frame has its bytes at the end. -/
theorem eq_of_push {writer after : Writer} {tag : FourCC} {payload : Bytes}
    (pushed : writer.push tag payload = .ok after) :
    after = ⟨writer.bytes ++ (Frame.mk tag payload).bytes⟩ := by
  unfold push at pushed
  split at pushed
  · cases pushed
  · cases pushed
    rfl

theorem lt_of_container {writer : Writer} {form : FourCC} {bytes : Bytes}
    (closed : writer.container form = .ok bytes) : writer.length + 4 < offsetSpace := by
  unfold container at closed
  split at closed
  · cases closed
  next fits => exact Nat.lt_of_not_le fits

end Writer

end Semihosting.Riff
