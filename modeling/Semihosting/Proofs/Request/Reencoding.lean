import Semihosting.Proofs.Request.RoundTrip

/-!
# Calls that were read

Whatever chunks a call was made of, the request that is read from it has slots of the negotiated
width, no more of them than may be, and a canonical payload no longer than the one it came from.
No chunk adds more to the canonical payload than it took up itself (`Absorbs.bodySize_le`), which
carries over to the whole call. Main statement: `admitted_of_decode`.
-/
namespace Semihosting.Request

open Riff (Chunk Frame Walk offsetSpace)

/-- What holds of a request while its chunks are read. -/
structure Admitted (config : Configuration) (limits : Limits) (request : Request) : Prop where
  opcode : request.opcode.toNat < 256 ^ config.intSize.bytes
  widths : ∀ parameter ∈ request.parameters, parameter.width = config.slotWidth
  counted : request.parameters.length ≤ limits.maxParameters.toNat

theorem Admitted.fits {config : Configuration} {limits : Limits} {request : Request}
    (admitted : Admitted config limits request) : request.Fits config where
  opcode := admitted.opcode
  parameters := by
    intro parameter member
    rw [← admitted.widths parameter member]
    exact parameter.raw_lt

theorem admitted_bare {config : Configuration} {opcode : UInt32} (limits : Limits)
    (fits : opcode.toNat < 256 ^ config.intSize.bytes) : Admitted config limits (bare opcode) where
  opcode := fits
  widths := by
    intro parameter member
    exact absurd member List.not_mem_nil
  counted := Nat.zero_le _

/-- What a chunk adds to a request, by the kind of the chunk. -/
inductive Absorbs (config : Configuration) (limits : Limits) (request : Request) (chunk : Chunk) :
    Request → Prop
  | parameters : chunk.tag = .parm → chunk.size % config.slotWidth = 0 →
      request.parameters.length + chunk.size / config.slotWidth ≤ limits.maxParameters.toNat →
      Absorbs config limits request chunk
        { request with parameters := request.parameters ++ readSlots config chunk.payload }
  | data : chunk.tag = .data → request.data = none →
      Absorbs config limits request chunk { request with data := some chunk.payload }
  | skipped : chunk.tag ≠ .parm → chunk.tag ≠ .data → Absorbs config limits request chunk request

/-- Whatever is taken in is taken in in one of the ways that `Absorbs` lists. -/
theorem absorbs_of_absorb {config : Configuration} {limits : Limits} {request after : Request}
    {chunk : Chunk} (absorbed : request.absorb config limits chunk = .ok after) :
    Absorbs config limits request chunk after := by
  unfold absorb at absorbed
  split at absorbed
  next tag =>
    unfold addParameters at absorbed
    split at absorbed
    · cases absorbed
    next whole =>
      split at absorbed
      · cases absorbed
      next room =>
        cases absorbed
        exact .parameters tag (Decidable.not_not.mp whole) (Nat.le_of_not_lt room)
  next notParameters =>
    split at absorbed
    next tag =>
      unfold addData at absorbed
      split at absorbed
      · cases absorbed
      next vacant =>
        cases absorbed
        exact .data tag vacant
    next notData =>
      cases absorbed
      exact .skipped notParameters notData

theorem absorb_of_absorbs {config : Configuration} {limits : Limits} {request after : Request}
    {chunk : Chunk} (absorbed : Absorbs config limits request chunk after) :
    request.absorb config limits chunk = .ok after := by
  cases absorbed with
  | parameters tag whole room =>
    have whole : ¬chunk.payload.length % config.slotWidth ≠ 0 := not_not_intro whole
    rw [absorb, if_pos tag, addParameters, if_neg whole]
    exact if_neg (Nat.not_lt_of_le room)
  | data tag vacant =>
    rw [absorb, if_neg (by rw [tag]; decide), if_pos tag, addData, vacant]
  | skipped notParameters notData =>
    rw [absorb, if_neg notParameters, if_neg notData]

/-! ### Slots -/

theorem length_slots {width : Nat} (positive : 0 < width) (bytes : Bytes) :
    (slots width bytes).length = bytes.length / width := by
  fun_induction slots width bytes with
  | case1 bytes none =>
    rcases none with zero | short
    · omega
    · rw [Nat.div_eq_of_lt short]
      rfl
  | case2 bytes more ih =>
    have enough : width ≤ bytes.length := by omega
    rw [List.length_cons, ih, List.length_drop, Nat.div_eq_sub_div positive enough]

theorem length_readSlots (config : Configuration) (payload : Bytes) :
    (readSlots config payload).length = payload.length / config.slotWidth := by
  rw [readSlots, List.length_map, length_slots config.slotWidth_pos]

theorem width_of_mem_readSlots {config : Configuration} {payload : Bytes} {parameter : Parameter}
    (member : parameter ∈ readSlots config payload) : parameter.width = config.slotWidth := by
  obtain ⟨slot, -, rfl⟩ := List.mem_map.mp member
  exact clampWidth_slotWidth config

/-! ### Single chunks -/

/-- A chunk inside a call leaves the request one that can be written again. -/
theorem Admitted.absorb {config : Configuration} {limits : Limits} {request after : Request}
    {chunk : Chunk} (admitted : Admitted config limits request)
    (absorbed : Absorbs config limits request chunk after) : Admitted config limits after := by
  cases absorbed with
  | parameters _ _ room =>
    refine ⟨admitted.opcode, ?_, ?_⟩
    · intro parameter member
      rcases List.mem_append.mp member with held | added
      · exact admitted.widths parameter held
      · exact width_of_mem_readSlots added
    · rw [List.length_append, length_readSlots]
      exact room
  | data _ _ => exact ⟨admitted.opcode, admitted.widths, admitted.counted⟩
  | skipped _ _ => exact admitted

/-- Slots that come in several lists take no more room in one. -/
theorem parametersSize_add_le (config : Configuration) (held added : Nat) :
    parametersSize config (held + added) ≤
      parametersSize config held + Frame.span (config.slotWidth * added) := by
  -- The first list brings its header along; later ones are written without theirs.
  cases held with
  | zero =>
    cases added with
    | zero => exact Nat.zero_le _
    | succ added =>
      rw [Nat.zero_add]
      exact Nat.le_add_left _ _
  | succ held =>
    have size : parametersSize config (held + 1 + added) =
        Frame.span (config.slotWidth * (held + 1) + config.slotWidth * added) := by
      rw [← Nat.mul_add, Nat.succ_add]
      rfl
    rw [size]
    exact Frame.span_add_le _ _

/-- A chunk adds no more to the canonical payload than it took up itself. -/
theorem Absorbs.bodySize_le {config : Configuration} {limits : Limits} {request after : Request}
    {chunk : Chunk} (absorbed : Absorbs config limits request chunk after) :
    bodySize config after ≤ bodySize config request + Frame.span chunk.size := by
  cases absorbed with
  | parameters _ whole _ =>
    have slots : config.slotWidth * (chunk.payload.length / config.slotWidth) = chunk.size :=
      Nat.mul_div_cancel' (Nat.dvd_of_mod_eq_zero whole)
    have grown := parametersSize_add_le config request.parameters.length
      (chunk.payload.length / config.slotWidth)
    rw [slots] at grown
    simp only [bodySize, List.length_append, length_readSlots]
    omega
  | data _ vacant =>
    have block : dataSize (some chunk.payload) = Frame.span chunk.size := rfl
    simp only [bodySize, block]
    omega
  | skipped _ _ => exact Nat.le_add_right _ _

/-! ### Whole calls -/

theorem Admitted.foldlM {config : Configuration} {limits : Limits} {request after : Request}
    {chunks : List Chunk} (admitted : Admitted config limits request)
    (absorbed : chunks.foldlM (Request.absorb config limits) request = .ok after) :
    Admitted config limits after ∧
      bodySize config after ≤ bodySize config request + Chunk.extent chunks := by
  induction chunks generalizing request with
  | nil =>
    cases absorbed
    exact ⟨admitted, Nat.le_refl _⟩
  | cons chunk rest ih =>
    rw [List.foldlM_cons] at absorbed
    obtain ⟨middle, first, others⟩ := bind_eq_ok_iff.mp absorbed
    have step := absorbs_of_absorb first
    -- No chunk adds more to the canonical body than it takes up itself.
    have grown := step.bodySize_le
    obtain ⟨last, size⟩ := ih (admitted.absorb step) others
    refine ⟨last, ?_⟩
    rw [Chunk.extent_cons]
    omega

/-- An opcode has room in the header that it was read from. -/
theorem opcode_of_readOpcode {config : Configuration} {payload : Bytes} {opcode : UInt32}
    (enough : config.callHeaderWidth ≤ payload.length)
    (read : readOpcode config payload = .ok opcode) :
    opcode.toNat < 256 ^ config.intSize.bytes := by
  have wide := config.intSize_le_callHeaderWidth
  have length : (payload.take config.intSize.bytes).length = config.intSize.bytes := by
    rw [List.length_take]
    omega
  have narrow : (payload.take config.intSize.bytes).length ≤ 8 := by
    rw [length]
    exact config.intSize.bytes_le
  -- So few bytes spell a number that as few bytes can hold.
  have bound := config.order.read_lt_of_length narrow
  rw [length] at bound
  simp only [readOpcode] at read
  split at read
  next small =>
    cases read
    rwa [UInt32.toNat_ofNat_of_lt' small]
  · cases read

/-- A request that was read is within the limits, and its canonical payload is no longer than the
payload it was read from. -/
theorem admitted_of_decode {config : Configuration} {limits : Limits} {payload : Bytes}
    {request : Request} (short : payload.length < offsetSpace)
    (decoded : decode config limits payload = .ok request) :
    Admitted config limits request ∧ payloadSize config request ≤ payload.length := by
  unfold decode at decoded
  split at decoded
  · cases decoded
  next enough =>
    have enough := Nat.le_of_not_lt enough
    obtain ⟨opcode, read, folded⟩ := bind_eq_ok_iff.mp decoded
    rw [Walk.fold_eq] at folded
    obtain ⟨after, absorbed, concluded⟩ := bind_eq_ok_iff.mp folded
    obtain ⟨-, rfl⟩ := Trail.conclude_eq_ok_iff.mp concluded
    have region : (payload.drop config.callHeaderWidth).length < offsetSpace := by
      rw [List.length_drop]
      omega
    -- The chunks take up no more than the region, and the request starts out empty.
    have extent := (Walk.extent_trail_le limits.maxChunks region).1
    have start := admitted_bare limits (opcode_of_readOpcode enough read)
    obtain ⟨admitted, size⟩ := start.foldlM absorbed
    have empty : bodySize config (bare opcode) = 0 := rfl
    rw [List.length_drop] at extent
    refine ⟨admitted, ?_⟩
    rw [payloadSize]
    omega

end Semihosting.Request
