import Semihosting.Message.Calls
import Semihosting.Proofs.Message.Refinement
import Semihosting.Proofs.Request.RoundTrip

/-!
# Messages of one request

A request is written as a message of two chunks, a configuration and a call. Main result: the writer
accepts exactly the requests that fit, the message is read as the one call it was written for, and
that call is written as the same message (`request_message_round_trips`).
-/
namespace Semihosting

open Riff (Container FourCC Frame Header Walk Writer WireFrame formWidth offsetSpace)

theorem Configuration.negotiate_payload (config : Configuration) (offset : Nat) :
    Configuration.negotiate ⟨.cnfg, offset, config.payload⟩ = .ok config := by
  obtain ⟨intSize, ptrSize, order⟩ := config
  cases intSize <;> cases ptrSize <;> cases order <;> rfl

namespace Message

def callsOf (events : List Event) : List Call := events.filterMap Event.call?

/-- The two frames of a message that makes one call. -/
def requestFrames (config : Configuration) (request : Request) : List Frame :=
  [⟨.cnfg, config.payload⟩, ⟨.call, request.payload config⟩]

def requestBody (config : Configuration) (request : Request) : Bytes :=
  (requestFrames config request).flatMap Frame.bytes

/-- The size that the container of a message with one call declares. -/
def requestSize (config : Configuration) (request : Request) : Nat :=
  formWidth + Frame.span Configuration.payloadWidth + Frame.span (request.payloadSize config)

theorem length_requestBody (config : Configuration) (request : Request) :
    (requestBody config request).length + formWidth = requestSize config request := by
  have config_size := Frame.length_bytes ⟨.cnfg, config.payload⟩
  have call_size := Frame.length_bytes ⟨.call, request.payload config⟩
  simp only [Configuration.length_payload, Request.length_payload] at config_size call_size
  simp only [requestBody, requestFrames, List.flatMap_cons, List.flatMap_nil, List.append_nil,
    List.length_append, config_size, call_size, requestSize, Frame.span]
  omega

theorem payloadSize_lt {config : Configuration} {request : Request}
    (short : requestSize config request < offsetSpace) :
    request.payloadSize config < offsetSpace := by
  simp only [requestSize, Frame.span] at short
  omega

/-! ### Writing -/

theorem ofRequest_eq (config : Configuration) (request : Request) :
    ofRequest config request =
      (request.write config ⟨(Frame.mk .cnfg config.payload).bytes⟩).bind fun writer =>
        writer.container .semi := by
  rw [ofRequest, Writer.push_eq_ok (by rw [Configuration.length_payload]; decide)]
  rfl

theorem ofRequest_eq_ok {config : Configuration} {request : Request}
    (fits : request.Fits config) (short : requestSize config request < offsetSpace) :
    ofRequest config request = .ok (Container.wrap (requestBody config request)) := by
  have whole : (Frame.mk .cnfg config.payload).bytes ++
      (Frame.mk .call (request.payload config)).bytes = requestBody config request := by
    simp only [requestBody, requestFrames, List.flatMap_cons, List.flatMap_nil, List.append_nil]
  rw [ofRequest_eq, Request.write_eq_ok fits _ (payloadSize_lt short), whole]
  exact Writer.container_semi (by rwa [length_requestBody])

/-- A message that was written has room in its header and its slots for the whole request. -/
theorem fits_of_ofRequest {config : Configuration} {request : Request} {message : Bytes}
    (written : ofRequest config request = .ok message) : request.Fits config := by
  rw [ofRequest_eq] at written
  obtain ⟨writer, wrote, -⟩ := bind_eq_ok_iff.mp written
  exact Request.fits_of_write wrote

/-- A message that was written has a size of 32 bits. -/
theorem requestSize_lt_of_ofRequest {config : Configuration} {request : Request} {message : Bytes}
    (written : ofRequest config request = .ok message) :
    requestSize config request < offsetSpace := by
  rw [ofRequest_eq] at written
  obtain ⟨writer, wrote, closed⟩ := bind_eq_ok_iff.mp written
  have whole : writer.bytes = requestBody config request := by
    rw [Request.eq_of_write wrote]
    simp only [requestBody, requestFrames, List.flatMap_cons, List.flatMap_nil, List.append_nil]
  have short := Writer.lt_of_container closed
  rw [Writer.length, whole] at short
  rw [← length_requestBody]
  exact short

/-! ### Reading -/

theorem foldl_noteCall (events : List Event) (calls : List Call) :
    events.foldl noteCall calls = calls ++ callsOf events := by
  induction events generalizing calls with
  | nil => exact (List.append_nil calls).symm
  | cons event rest ih =>
    rw [List.foldl_cons, ih]
    cases event with
    | call made => simp [noteCall, callsOf, Event.call?]
    | configured _ | response _ => rfl

/-- The calls in a message are those of its transcript. -/
theorem calls_eq (limits : Limits) (buffer : Bytes) :
    calls limits buffer = (Container.read buffer).bind fun container =>
      let chunks := (Walk.start container.body limits.maxChunks).trail
      let run := transcript limits none 0 chunks.items chunks.fault
      run.conclude (callsOf run.items) := by
  rw [calls, Decoder.ofMessage]
  cases Container.read buffer with
  | error fault => rfl
  | ok container =>
    have run : (Decoder.start limits container.body).trail = _ := Decoder.trail_eq_transcript rfl
    simp only [Except.map, Except.bind]
    rw [Decoder.fold_eq, foldl_noteCall, run, List.nil_append]
    rfl

theorem transcript_request {config : Configuration} {limits : Limits} {payload : Bytes}
    {request : Request} (front behind : Nat) (one : 1 ≤ limits.maxCalls.toNat)
    (decoded : Request.decode config limits payload = .ok request) :
    transcript limits none 0 [⟨.cnfg, front, config.payload⟩, ⟨.call, behind, payload⟩] none =
      ⟨[.configured config, .call ⟨config, request⟩], none⟩ := by
  have known : Request.decodeChunk (some config) limits ⟨.call, behind, payload⟩ = .ok request :=
    (decodeChunk_of_tag rfl).trans decoded
  have room : ¬limits.maxCalls.toNat ≤ 0 := by omega
  have tag : (FourCC.call = .cnfg) = False := by decide
  simp only [transcript, if_true, Configuration.negotiate_payload, tag, if_false, if_neg room,
    known]
  rfl

/-- A message of one request is read as that call, if its payload is read as the request. -/
theorem calls_wrap_requestBody {config : Configuration} {limits : Limits} {request again : Request}
    (short : requestSize config request < offsetSpace) (chunks : 2 ≤ limits.maxChunks.toNat)
    (one : 1 ≤ limits.maxCalls.toNat)
    (decoded : Request.decode config limits (request.payload config) = .ok again) :
    calls limits (Container.wrap (requestBody config request)) = .ok [⟨config, again⟩] := by
  -- The bound on the container bounds its body and both payloads in it.
  have size := length_requestBody config request
  have opened : Container.read (Container.wrap (requestBody config request) ++ []) = _ :=
    Container.read_wrap [] (by omega)
  have fits : (Frame.mk .call (request.payload config)).payload.length < offsetSpace := by
    rw [Request.length_payload]
    exact payloadSize_lt short
  have fits' : (Frame.mk .cnfg config.payload).payload.length < offsetSpace := by
    rw [Configuration.length_payload]
    decide
  have wires : WireFrame.concat [.ofFrame _ fits', .ofFrame _ fits] = requestBody config request :=
    rfl
  have body : (WireFrame.concat [.ofFrame _ fits', .ofFrame _ fits]).length < offsetSpace := by
    rw [wires]
    omega
  have trail : (Walk.start _ limits.maxChunks).trail = _ := Walk.trail_start_concat body chunks
  rw [wires] at trail
  rw [List.append_nil] at opened
  rw [calls_eq, opened]
  simp only [Except.bind, trail]
  rw [WireFrame.chunksFrom_cons, WireFrame.chunksFrom_cons, WireFrame.chunksFrom_nil]
  simp only [WireFrame.chunkAt, WireFrame.ofFrame]
  rw [transcript_request _ _ one decoded]
  rfl

theorem requestBody_slotted {config : Configuration} {request : Request}
    (fits : request.Fits config) :
    requestBody config (request.slotted config) = requestBody config request := by
  rw [requestBody, requestBody, requestFrames, requestFrames, Request.payload_slotted fits]

theorem requestSize_slotted (config : Configuration) (request : Request) :
    requestSize config (request.slotted config) = requestSize config request := by
  rw [requestSize, requestSize, Request.payloadSize_slotted]

/-- A request is written if and only if it fits; otherwise the first value that does not is
reported, the opcode before the parameters. The message of a request that fits is read, under all
limits that leave room for it, as one call with the same configuration, opcode and data and with the
parameters in slots of the negotiated width. Written again, that call gives the same message. -/
theorem request_message_round_trips (config : Configuration) (request : Request)
    (short : requestSize config request < offsetSpace) :
    ((∃ message, ofRequest config request = .ok message) ↔ request.Fits config) ∧
    (256 ^ config.intSize.bytes ≤ request.opcode.toNat →
      ofRequest config request = .error (.invalidField .opcode request.opcode.toNat)) ∧
    (request.opcode.toNat < 256 ^ config.intSize.bytes →
      ∀ before parameter behind, request.parameters = before ++ parameter :: behind →
        (∀ earlier ∈ before, earlier.raw < 256 ^ config.slotWidth) →
        256 ^ config.slotWidth ≤ parameter.raw →
        ofRequest config request = .error (.invalidField .parameter parameter.raw)) ∧
    (∀ message, ofRequest config request = .ok message →
      message.length = Header.width + requestSize config request ∧
      ∀ limits : Limits, 2 ≤ limits.maxChunks.toNat → 1 ≤ limits.maxCalls.toNat →
        request.parameters.length ≤ limits.maxParameters.toNat →
        calls limits message = .ok [⟨config, request.slotted config⟩] ∧
        ofRequest config (request.slotted config) = .ok message) := by
  refine ⟨⟨?_, ?_⟩, ?_, ?_, ?_⟩
  -- Only what fits is written, and there is room for what fits.
  · rintro ⟨message, written⟩
    exact fits_of_ofRequest written
  · intro fits
    exact ⟨_, ofRequest_eq_ok fits short⟩
  · intro wide
    rw [ofRequest_eq, Request.write_of_opcode wide]
    rfl
  · intro narrow before parameter behind split fit wide
    rw [ofRequest_eq, Request.write_of_parameter narrow split fit wide]
    rfl
  -- What was written is the canonical message, whose reading is known.
  · intro message written
    have fits := fits_of_ofRequest written
    rw [ofRequest_eq_ok fits short] at written
    cases written
    refine ⟨?_, fun limits chunks one slots => ⟨?_, ?_⟩⟩
    · have size := length_requestBody config request
      have around : Container.headerWidth = Header.width + formWidth := rfl
      rw [Container.length_wrap, around]
      omega
    · have decoded := Request.decode_payload fits.opcode (payloadSize_lt short) chunks slots
      exact calls_wrap_requestBody short chunks one decoded
    · rw [ofRequest_eq_ok fits.slotted (by rwa [requestSize_slotted]), requestBody_slotted fits]

/-- Slots of one byte, which leave a parameter list of odd size. -/
def narrowConfig : Configuration := ⟨.one, .one, .big⟩

/-- A request with one wide and two narrow parameters and with an empty data block. -/
def narrowRequest : Request :=
  ⟨5, [.ofNat 0xFF 8, .ofNat 0 1, .ofNat 7 2], some []⟩

theorem narrow_message_round_trips :
    requestSize narrowConfig narrowRequest < offsetSpace ∧
    (∃ message, ofRequest narrowConfig narrowRequest = .ok message ∧
      calls ⟨2, 1, 3⟩ message =
        .ok [⟨narrowConfig, 5, [.ofNat 0xFF 1, .ofNat 0 1, .ofNat 7 1], some []⟩]) ∧
    requestSize narrowConfig (.bare 0x100) < offsetSpace ∧
    ofRequest narrowConfig (.bare 0x100) = .error (.invalidField .opcode 0x100) ∧
    requestSize narrowConfig ⟨5, [.ofNat 1 8, .ofNat 0x100 2, .ofNat 0x200 2], none⟩ < offsetSpace ∧
    ofRequest narrowConfig ⟨5, [.ofNat 1 8, .ofNat 0x100 2, .ofNat 0x200 2], none⟩ =
      .error (.invalidField .parameter 0x100) := by
  have short : requestSize narrowConfig narrowRequest < offsetSpace := by decide
  have short' : requestSize narrowConfig (.bare 0x100) < offsetSpace := by decide
  have short'' : requestSize narrowConfig
      ⟨5, [.ofNat 1 8, .ofNat 0x100 2, .ofNat 0x200 2], none⟩ < offsetSpace := by decide
  obtain ⟨written, -, -, read⟩ := request_message_round_trips _ _ short
  obtain ⟨message, made⟩ := written.mpr ⟨by decide, by decide⟩
  refine ⟨short, ⟨message, made, ?_⟩, short', ?_, short'', ?_⟩
  · exact ((read message made).2 ⟨2, 1, 3⟩ (by decide) (by decide) (by decide)).1
  · exact (request_message_round_trips _ _ short').2.1 (by decide)
  · exact (request_message_round_trips _ _ short'').2.2.1 (by decide) [.ofNat 1 8] _ _ rfl
      (by decide) (by decide)

end Message

end Semihosting
