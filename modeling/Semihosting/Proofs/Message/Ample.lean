import Semihosting.Proofs.Message.Reading
import Semihosting.Proofs.Request.Reencoding

/-!
# Limits that are ample

A chunk takes eight bytes at least, and a parameter slot one. So limits that are as large as a
message, in these units, never end its run, however malformed it is. Main statement:
`run_ne_limit`.
-/
namespace Semihosting

open Riff (Chunk Container Frame Header Walk WireFrame formWidth offsetSpace)

/-- Limits that so many bytes cannot reach. -/
structure Limits.Ample (limits : Limits) (size : Nat) : Prop where
  chunks : size ≤ Header.width * limits.maxChunks.toNat
  calls : size ≤ limits.maxCalls.toNat
  parameters : size ≤ limits.maxParameters.toNat

theorem Limits.Ample.mono {limits : Limits} {small large : Nat} (ample : limits.Ample large)
    (le : small ≤ large) : limits.Ample small where
  chunks := Nat.le_trans le ample.chunks
  calls := Nat.le_trans le ample.calls
  parameters := Nat.le_trans le ample.parameters

theorem Limits.ample_unbounded {size : Nat} (short : size < offsetSpace) :
    Limits.unbounded.Ample size where
  chunks := Nat.le_trans (Nat.le_of_lt short) (by decide)
  calls := Nat.le_trans (Nat.le_of_lt short) (by decide)
  parameters := Nat.le_trans (Nat.le_of_lt short) (by decide)

theorem Limits.Ample.length_le {limits : Limits} {frames : List WireFrame}
    (ample : limits.Ample (WireFrame.concat frames).length) :
    frames.length ≤ limits.maxChunks.toNat := by
  have width := WireFrame.width_mul_length_le frames
  exact Nat.le_of_mul_le_mul_left (Nat.le_trans width ample.chunks) (by decide)

/-! ### Walks -/

namespace Riff

namespace Chunk

/-- Where no chunk can be read, the sizes are to blame. -/
theorem isSizeViolation_of_split {offset : Nat} {bytes : Bytes} {fault : Fault}
    (short : offset + bytes.length < offsetSpace) (failed : split offset bytes = .error fault) :
    fault.isSizeViolation = true := by
  rw [split, if_neg (Nat.not_le_of_lt short)] at failed
  split at failed
  · cases failed
    rfl
  · -- There is a header; whatever is wrong behind it is wrong with the declared size.
    unfold takePayload at failed
    split at failed
    · cases failed
      rfl
    · split at failed
      · cases failed
        rfl
      · have padding := map_eq_error_iff.mp failed
        unfold dropPadding at padding
        split at padding
        · cases padding
        · split at padding
          · cases padding
            rfl
          · split at padding
            · cases padding
              rfl
            · cases padding

theorem size_le_extent {chunks : List Chunk} {chunk : Chunk} (member : chunk ∈ chunks) :
    chunk.size ≤ extent chunks := by
  induction chunks with
  | nil => exact absurd member List.not_mem_nil
  | cons first rest ih =>
    rw [extent_cons, Frame.span]
    rcases List.mem_cons.mp member with rfl | later
    · omega
    · have bound := ih later
      omega

theorem length_le_extent (chunks : List Chunk) : chunks.length ≤ extent chunks := by
  induction chunks with
  | nil => exact Nat.le_refl _
  | cons first rest ih =>
    rw [extent_cons, Frame.span, List.length_cons, Header.width]
    omega

end Chunk

/-- A chunk has eight bytes at least, so a region that is short enough never has too many. -/
theorem Walk.fault_ne_limit {region : Bytes} {maxChunks : UInt32} {bound : Bound} {max : Nat}
    (short : region.length < offsetSpace)
    (ample : region.length ≤ Header.width * maxChunks.toNat) :
    (start region maxChunks).trail.fault ≠ some (.limitExceeded bound max) := by
  intro limited
  have ready : (start region maxChunks).Ready := ready_start short
  obtain ⟨frames, rest, front, counted, -, ends⟩ := exists_frames ready
  have behind := ready_past ready front counted
  rw [limited] at ends
  cases ends with
  | full more full =>
    -- The frames before the end already use up all the bytes.
    have total := congrArg List.length front
    have width := WireFrame.width_mul_length_le frames
    have counted : maxChunks.toNat ≤ 0 + frames.length := full
    have left : 0 < rest.length := List.length_pos_iff.mpr more
    simp only [start, List.length_append] at total
    simp only [Header.width] at ample width
    omega
  | broken more room failed =>
    have size := Chunk.isSizeViolation_of_split behind.inBounds failed
    cases size

theorem Container.read_ne_limit {bound : Bound} {max : Nat} (buffer : Bytes) :
    read buffer ≠ .error (.limitExceeded bound max) := by
  intro limited
  unfold read at limited
  split at limited
  · cases limited
  · split at limited
    · cases limited
    · split at limited
      · cases limited
      · split at limited
        · cases limited
        · split at limited
          · cases limited
          · split at limited <;> cases limited

end Riff

/-! ### Calls -/

namespace Request

variable {config : Configuration} {limits : Limits} {bound : Bound} {max : Nat}

theorem absorb_ne_limit {request : Request} {chunk : Chunk}
    (room : request.parameters.length + chunk.size ≤ limits.maxParameters.toNat) :
    request.absorb config limits chunk ≠ .error (.limitExceeded bound max) := by
  intro limited
  unfold absorb at limited
  split at limited
  · unfold addParameters at limited
    split at limited
    · cases limited
    · split at limited
      next excess =>
        -- A slot takes at least one byte.
        have slots := Nat.div_le_self chunk.payload.length config.slotWidth
        rw [Chunk.size] at room
        omega
      · cases limited
  · split at limited
    · unfold addData at limited
      split at limited <;> cases limited
    · cases limited

theorem Absorbs.length_parameters_le {request after : Request} {chunk : Chunk}
    (absorbed : Absorbs config limits request chunk after) :
    after.parameters.length ≤ request.parameters.length + chunk.size := by
  cases absorbed with
  | parameters _ _ _ =>
    have slots := Nat.div_le_self chunk.payload.length config.slotWidth
    rw [List.length_append, length_readSlots, Chunk.size]
    omega
  | data _ _ => exact Nat.le_add_right _ _
  | skipped _ _ => exact Nat.le_add_right _ _

theorem foldlM_ne_limit {request : Request} {chunks : List Chunk}
    (room : request.parameters.length + Chunk.extent chunks ≤ limits.maxParameters.toNat) :
    chunks.foldlM (absorb config limits) request ≠ .error (.limitExceeded bound max) := by
  induction chunks generalizing request with
  | nil =>
    intro limited
    cases limited
  | cons chunk rest ih =>
    intro limited
    rw [Chunk.extent_cons, Frame.span] at room
    rw [List.foldlM_cons] at limited
    rcases bind_eq_error_iff.mp limited with first | ⟨middle, first, later⟩
    · exact absorb_ne_limit (by omega) first
    · have grown := (absorbs_of_absorb first).length_parameters_le
      exact ih (by omega) later

theorem decode_ne_limit {payload : Bytes} (short : payload.length < offsetSpace)
    (ample : limits.Ample payload.length) :
    decode config limits payload ≠ .error (.limitExceeded bound max) := by
  intro limited
  unfold decode at limited
  split at limited
  · cases limited
  · rcases bind_eq_error_iff.mp limited with opcode | ⟨opcode, -, folded⟩
    · unfold readOpcode at opcode
      dsimp only at opcode
      split at opcode <;> cases opcode
    · have region : (payload.drop config.callHeaderWidth).length ≤ payload.length := by
        rw [List.length_drop]
        omega
      have inside := ample.mono region
      have fits := Nat.lt_of_le_of_lt region short
      have extent := (Walk.extent_trail_le limits.maxChunks fits).1
      rw [Walk.fold_eq] at folded
      -- Either a parameter list is over the bound, or the walk met the bound on chunks.
      rcases bind_eq_error_iff.mp folded with gathered | ⟨request, -, concluded⟩
      · refine foldlM_ne_limit ?_ gathered
        have room := inside.parameters
        simp only [bare, List.length_nil]
        omega
      · apply Walk.fault_ne_limit fits inside.chunks
        exact Trail.conclude_eq_error_iff.mp concluded

end Request

/-! ### Messages -/

namespace Message

variable {limits : Limits} {bound : Bound} {max : Nat}

theorem negotiate_ne_limit (chunk : Chunk) :
    Configuration.negotiate chunk ≠ .error (.limitExceeded bound max) := by
  intro limited
  have widths (field : Field) (bytes : Nat) :
      Configuration.checkWidth field bytes ≠ .error (.limitExceeded bound max) := by
    intro limited
    unfold Configuration.checkWidth at limited
    split at limited <;> cases limited
  unfold Configuration.negotiate at limited
  split at limited
  · cases limited
  · split at limited
    · split at limited
      · cases limited
      · rcases bind_eq_error_iff.mp limited with intSize | ⟨_, -, ptrSize⟩
        · exact widths _ _ intSize
        · exact widths _ _ (map_eq_error_iff.mp ptrSize)
    · cases limited

/-- While there is room for one more call and for all of a chunk inside it, the chunk is not refused
for a limit. -/
theorem Progress.accept_ne_limit {progress : Progress} {chunk : Chunk}
    (room : progress.calls < limits.maxCalls.toNat) (short : chunk.size < offsetSpace)
    (ample : limits.Ample chunk.size) :
    progress.accept limits chunk ≠ .error (.limitExceeded bound max) := by
  intro limited
  unfold accept at limited
  split at limited
  · exact negotiate_ne_limit chunk (map_eq_error_iff.mp limited)
  · split at limited
    · rw [acceptCall, if_neg (Nat.not_le_of_lt room)] at limited
      split at limited
      · cases limited
      · exact Request.decode_ne_limit short ample (map_eq_error_iff.mp limited)
    · split at limited
      · unfold acceptResult at limited
        split at limited
        · cases limited
        · have result := map_eq_error_iff.mp limited
          unfold Response.decodeResult at result
          split at result <;> cases result
      · split at limited
        · have error := map_eq_error_iff.mp limited
          unfold Response.decodeError at error
          split at error <;> cases error
        · cases limited

theorem Progress.Accepts.calls_le {progress after : Progress} {chunk : Chunk}
    {event : Option Event} (accepted : progress.Accepts limits chunk event after) :
    after.calls ≤ progress.calls + 1 := by
  cases accepted with
  | call => exact Nat.le_refl _
  | configured | result | error | skipped => exact Nat.le_succ _

/-- No transcript ends at a limit if there is room for as many calls as there are chunks. -/
theorem transcript_ne_limit {chunks : List Chunk} {fault : Option Fault} (progress : Progress)
    (room : progress.calls + chunks.length ≤ limits.maxCalls.toNat)
    (short : ∀ chunk ∈ chunks, chunk.size < offsetSpace)
    (ample : ∀ chunk ∈ chunks, limits.Ample chunk.size)
    (other : fault ≠ some (.limitExceeded bound max)) :
    (transcript limits progress.config progress.calls chunks fault).fault ≠
      some (.limitExceeded bound max) := by
  induction chunks generalizing progress with
  | nil => exact other
  | cons chunk rest ih =>
    rw [List.length_cons] at room
    rw [transcript_cons]
    cases outcome : progress.accept limits chunk with
    | error refused =>
      intro limited
      cases Option.some.inj limited
      exact Progress.accept_ne_limit (by omega) (short chunk List.mem_cons_self)
        (ample chunk List.mem_cons_self) outcome
    | ok pair =>
      obtain ⟨event, after⟩ := pair
      -- A chunk makes one call at most, so there is room left for those behind it.
      have counted := (Progress.accepts_of_accept outcome).calls_le
      have later := ih after (by omega) (fun chunk member => short chunk (.tail _ member))
        (fun chunk member => ample chunk (.tail _ member))
      cases event with
      | none => exact later
      | some event => exact later

/-- Under limits that are ample for its body, no run of a message ends with a limit. -/
theorem run_ne_limit {buffer : Bytes} {container : Container}
    (opened : Container.read buffer = .ok container)
    (ample : limits.Ample container.body.length) {trail : Trail Event}
    (read : run limits buffer = .ok trail) : trail.fault ≠ some (.limitExceeded bound max) := by
  obtain ⟨size, small, -⟩ := Container.size_of_read opened
  have short : container.body.length < offsetSpace := by omega
  rw [run_eq, opened] at read
  cases read
  have extent := (Walk.extent_trail_le limits.maxChunks short).1
  have chunks := Chunk.length_le_extent (Walk.start container.body limits.maxChunks).trail.items
  -- No chunk of the body is longer than the body.
  have inside (chunk : Chunk)
      (member : chunk ∈ (Walk.start container.body limits.maxChunks).trail.items) :
      chunk.size ≤ container.body.length :=
    Nat.le_trans (Chunk.size_le_extent member) extent
  apply transcript_ne_limit Progress.start
  · have calls := ample.calls
    simp only [Progress.start]
    omega
  · exact fun chunk member => Nat.lt_of_le_of_lt (inside chunk member) short
  · exact fun chunk member => ample.mono (inside chunk member)
  · exact Walk.fault_ne_limit short ample.chunks

end Message

end Semihosting
