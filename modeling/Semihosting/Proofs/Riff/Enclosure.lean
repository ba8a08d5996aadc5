import Semihosting.Riff.Container
import Semihosting.Riff.Writer

/-!
# Bodies in containers

What a container that was read says about its buffer, and what a writer puts around a body. Main
statement: the body comes out of its container as it went in (`Container.read_wrap`).
-/
namespace Semihosting.Riff

namespace Container

def wrap (body : Bytes) : Bytes :=
  (Header.mk .riff (body.length + formWidth)).bytes ++ FourCC.semi.bytes ++ body

theorem length_wrap (body : Bytes) : (wrap body).length = headerWidth + body.length := by
  simp only [wrap, List.length_append, Header.length_bytes, FourCC.length_bytes]
  rfl

/-- A header of the right size in front of a form and a body is read for its form, whatever follows
the body. -/
theorem read_enclosed (form : FourCC) {body : Bytes} (rest : Bytes)
    (short : body.length + formWidth < offsetSpace) :
    read ((Header.mk .riff (body.length + formWidth)).bytes ++ form.bytes ++ body ++ rest) =
      if form = .semi then .ok ⟨body.length + formWidth, body⟩ else .error (.badForm form) := by
  have header : Header.split? ((Header.mk .riff (body.length + formWidth)).bytes ++ form.bytes ++
      body ++ rest) = some (⟨.riff, body.length + formWidth⟩, form.bytes ++ (body ++ rest)) := by
    rw [List.append_assoc, List.append_assoc]
    exact Header.split?_bytes _ _ short
  have opening : splitForm? (form.bytes ++ (body ++ rest)) = some (form, body ++ rest) := rfl
  have enough : ¬(form.bytes ++ (body ++ rest)).length < body.length + formWidth := by
    simp only [List.length_append, FourCC.length_bytes, formWidth]
    omega
  rw [read, header]
  simp only [ne_eq, not_true_eq_false, if_false, if_neg enough,
    if_neg (Nat.not_lt_of_le (Nat.le_add_left formWidth body.length)), opening, ite_not]
  rw [Nat.add_sub_cancel, List.take_left]

/-- The body of a container is what was put into it, whatever follows the container. -/
theorem read_wrap {body : Bytes} (rest : Bytes) (short : body.length + formWidth < offsetSpace) :
    read (wrap body ++ rest) = .ok ⟨body.length + formWidth, body⟩ := by
  rw [wrap, read_enclosed .semi rest short, if_pos rfl]

/-- A container that was read declares its form and its body, which are all in the buffer. -/
theorem size_of_read {buffer : Bytes} {container : Container}
    (accepted : read buffer = .ok container) :
    container.size = container.body.length + formWidth ∧ container.size < offsetSpace ∧
      Header.width + container.size ≤ buffer.length := by
  unfold read at accepted
  split at accepted
  · cases accepted
  next header behind found =>
    have total := Header.length_of_split? found
    have small := Header.size_lt_of_split? found
    split at accepted
    · cases accepted
    · split at accepted
      · cases accepted
      next enough =>
        split at accepted
        · cases accepted
        next formed =>
          split at accepted
          · cases accepted
          next form region rest =>
            split at accepted
            · cases accepted
            · cases accepted
              -- All tests are passed, and what is left is the form and the region behind it.
              have length : behind.length = formWidth + region.length := by
                unfold splitForm? at rest
                split at rest
                · cases rest
                  simp only [List.length_cons, formWidth]
                  omega
                · cases rest
              simp only [List.length_take]
              omega

theorem eq_of_splitForm? {bytes rest : Bytes} {form : FourCC}
    (taken : splitForm? bytes = some (form, rest)) : bytes = form.bytes ++ rest := by
  unfold splitForm? at taken
  split at taken
  · cases taken
    rfl
  · cases taken

/-- A container that was read is its body with the wrapping in front, and whatever follows it. -/
theorem eq_of_read {buffer : Bytes} {container : Container}
    (accepted : read buffer = .ok container) :
    ∃ tail, buffer = wrap container.body ++ tail := by
  obtain ⟨size, -, inside⟩ := size_of_read accepted
  unfold read at accepted
  split at accepted
  · cases accepted
  next header behind found =>
    have front := Header.eq_of_split? found
    split at accepted
    · cases accepted
    next magic =>
      split at accepted
      · cases accepted
      · split at accepted
        · cases accepted
        · split at accepted
          · cases accepted
          next form region formed =>
            split at accepted
            · cases accepted
            next semi =>
              cases accepted
              refine ⟨region.drop (header.size - formWidth), ?_⟩
              have opening := eq_of_splitForm? formed
              rw [Decidable.not_not.mp semi] at opening
              have declared : Header.mk .riff header.size = header := by
                rw [← Decidable.not_not.mp magic]
              -- The declared size is that of the form and of the body behind it.
              simp only at size
              rw [wrap, ← size, declared, List.append_assoc, List.append_assoc,
                List.take_append_drop, front, opening]

end Container

theorem Writer.container_semi {writer : Writer}
    (short : writer.bytes.length + formWidth < offsetSpace) :
    writer.container .semi = .ok (Container.wrap writer.bytes) :=
  container_eq_ok short

end Semihosting.Riff
