import Mathlib.Algebra.GroupWithZero.Nat
import Semihosting.Proofs.Message.Run
import Semihosting.Proofs.Request.Reencoding

/-!
# What events are made of

An event is read from the bytes between the places where the reader stands before and behind it, and
says no more than these bytes hold. No two events share any, so the length of the body bounds how
much a run yields and how often a reader has to be asked. Main result: `run_is_bounded_by_body`.
-/
namespace Semihosting

open Riff (Chunk Container Frame Header Walk WireFrame offsetSpace)

/-- The number of bytes that a call says something with: its header, its slots and its data. -/
def Call.footprint (call : Call) : Nat :=
  call.config.callHeaderWidth + call.config.slotWidth * call.request.parameters.length
    + call.request.data.elim 0 List.length

namespace Request

theorem slots_le_parametersSize (config : Configuration) (count : Nat) :
    config.slotWidth * count ≤ parametersSize config count := by
  cases count with
  | zero => exact Nat.le_refl _
  | succ count =>
    simp only [parametersSize, Frame.span]
    omega

theorem length_le_dataSize (data : Option Bytes) : data.elim 0 List.length ≤ dataSize data := by
  cases data with
  | none => exact Nat.le_refl _
  | some data =>
    simp only [Option.elim_some, dataSize, Frame.span]
    omega

end Request

/-- What a call says something with was part of the payload that it was read from. -/
theorem Call.footprint_le_of_decode {config : Configuration} {limits : Limits} {payload : Bytes}
    {request : Request} (short : payload.length < offsetSpace)
    (decoded : Request.decode config limits payload = .ok request) :
    Call.footprint ⟨config, request⟩ ≤ payload.length := by
  -- The canonical payload is no longer than the one that was read, and it has room for all of
  -- these.
  have size := (Request.admitted_of_decode short decoded).2
  have slots := Request.slots_le_parametersSize config request.parameters.length
  have data := Request.length_le_dataSize request.data
  simp only [Request.payloadSize, Request.bodySize] at size
  simp only [footprint]
  omega

/-! ### Places in a region -/

namespace Riff.Walk

variable {region : Bytes} {walk after : Walk} {chunk : Chunk}

/-- A walk stands inside the region: what it has not read lies behind its cursor. -/
structure Inside (region : Bytes) (walk : Walk) : Prop where
  cursor : walk.cursor ≤ region.length
  unread : walk.unread = region.drop walk.cursor

theorem inside_start (region : Bytes) (maxChunks : UInt32) :
    (start region maxChunks).Inside region where
  cursor := Nat.zero_le _
  unread := rfl

theorem cursor_past_singleton (walk : Walk) (frame : WireFrame) (rest : Bytes) :
    (walk.past [frame] rest).cursor = walk.cursor + frame.bytes.length := by
  rw [cursor_past, WireFrame.concat_cons, WireFrame.concat_nil, List.append_nil]

theorem Inside.past {frame : WireFrame} {rest : Bytes} (inside : walk.Inside region)
    (front : walk.unread = frame.bytes ++ rest) : (walk.past [frame] rest).Inside region := by
  have length := congrArg List.length front
  rw [inside.unread, List.length_drop, List.length_append] at length
  have cursor := inside.cursor
  constructor
  · rw [cursor_past_singleton]
    omega
  · rw [unread_past, cursor_past_singleton, ← List.drop_drop, ← inside.unread, front,
      List.drop_left]

/-- Whatever a walk answers, it stays inside its region. -/
theorem Inside.next {answer : Option (Except Fault Chunk)} (inside : walk.Inside region)
    (answered : walk.next = (answer, after)) : after.Inside region := by
  rcases answer with _ | fault | chunk
  · rw [eq_of_next_none answered]
    exact inside
  · rw [eq_of_next_error answered]
    exact ⟨inside.cursor, inside.unread⟩
  · obtain ⟨frame, rest, front, -, -, rfl⟩ := eq_past_of_next answered
    exact inside.past front

end Riff.Walk

/-! ### Single events -/

namespace Message

variable {limits : Limits} {region : Bytes}

def Event.footprint (event : Event) : Nat := event.call?.elim 0 Call.footprint

theorem Progress.Accepts.footprint_le {progress after : Progress} {chunk : Chunk} {event : Event}
    (accepted : progress.Accepts limits chunk (some event) after)
    (short : chunk.size < offsetSpace) : event.footprint ≤ chunk.size := by
  cases accepted with
  | call _ _ _ decoded => exact Call.footprint_le_of_decode short decoded
  | configured | result | error => exact Nat.zero_le _

theorem Progress.Accepts.length_parameters_le {progress after : Progress} {chunk : Chunk}
    {event : Event} {call : Call} (accepted : progress.Accepts limits chunk (some event) after)
    (short : chunk.size < offsetSpace) (made : event.call? = some call) :
    call.request.parameters.length ≤ limits.maxParameters.toNat := by
  cases accepted with
  | call _ _ _ decoded =>
    cases made
    exact (Request.admitted_of_decode short decoded).1.counted
  | configured | result | error => cases made

namespace Decoder

/-- What an event takes out of the reader that yields it, and what it may not exceed. -/
structure Pays (decoder : Decoder) (event : Event) (after : Decoder) : Prop where
  limits : after.limits = decoder.limits
  maxChunks : after.walk.maxChunks = decoder.walk.maxChunks
  cursor : decoder.walk.cursor + Header.width + event.footprint ≤ after.walk.cursor
  seen : decoder.walk.seen < after.walk.seen
  room : after.walk.seen ≤ after.walk.maxChunks.toNat
  parameters : ∀ call, event.call? = some call →
    call.request.parameters.length ≤ decoder.limits.maxParameters.toNat

/-- Every event is paid for with bytes that lie between the places of the reader before and behind
it, whatever was passed over on the way. -/
theorem pays_of_next {decoder after : Decoder} {event : Event}
    (answer : decoder.next = (some (.ok event), after)) : decoder.Pays event after := by
  fun_induction next decoder with
  | case1 => cases answer
  | case2 => cases answer
  | case3 => cases answer
  | case4 => cases answer
  | case5 decoder alive chunk walk read progress accepted ih =>
    obtain ⟨frame, rest, -, -, -, rfl⟩ := Walk.eq_past_of_next read
    -- A chunk that is passed over only adds to what the event behind it takes.
    have later := ih answer
    have cursor := later.cursor
    have seen := later.seen
    rw [Walk.cursor_past] at cursor
    rw [Walk.seen_past] at seen
    exact ⟨later.limits, later.maxChunks, by omega, by omega, later.room, later.parameters⟩
  | case6 decoder alive chunk walk read event progress accepted =>
    cases answer
    obtain ⟨frame, rest, front, room, rfl, rfl⟩ := Walk.eq_past_of_next read
    have accepted := Progress.accepts_of_accept accepted
    have footprint : event.footprint ≤ frame.payload.length := accepted.footprint_le frame.fits
    refine ⟨rfl, rfl, ?_, Nat.lt_succ_self _, room, ?_⟩
    · rw [Walk.cursor_past_singleton, WireFrame.length_bytes]
      omega
    · exact fun call made => accepted.length_parameters_le frame.fits made

theorem inside_next {decoder after : Decoder} {answer : Option (Except Fault Event)}
    (inside : decoder.walk.Inside region) (answered : decoder.next = (answer, after)) :
    after.walk.Inside region := by
  fun_induction next decoder with
  | case1 =>
    cases answered
    exact inside
  | case2 decoder alive walk ended =>
    cases answered
    exact inside.next ended
  | case3 decoder alive fault walk failed =>
    cases answered
    exact inside.next failed
  | case4 decoder alive chunk walk read fault refused =>
    cases answered
    exact inside.next read
  | case5 decoder alive chunk walk read progress accepted ih => exact ih (inside.next read) answered
  | case6 decoder alive chunk walk read event progress accepted =>
    cases answered
    exact inside.next read

/-! ### Runs -/

theorem advance_succ (decoder : Decoder) (asked : Nat) :
    decoder.advance (asked + 1) = (decoder.advance asked).next.2 :=
  Function.iterate_succ_apply' _ asked decoder

theorem inside_advance {decoder : Decoder} (inside : decoder.walk.Inside region) (asked : Nat) :
    (decoder.advance asked).walk.Inside region := by
  induction asked with
  | zero => exact inside
  | succ asked ih =>
    rw [advance_succ]
    exact inside_next ih rfl

end Decoder

/-- What events take out of a body: a header for each, and what its calls are made of. -/
def takenUp (events : List Event) : Nat :=
  Header.width * events.length + ((callsOf events).map Call.footprint).sum

theorem takenUp_cons (event : Event) (rest : List Event) :
    takenUp (event :: rest) = Header.width + event.footprint + takenUp rest := by
  have calls : ((callsOf (event :: rest)).map Call.footprint).sum =
      event.footprint + ((callsOf rest).map Call.footprint).sum := by
    rw [callsOf, List.filterMap_cons, Event.footprint]
    cases event.call? with
    | none => exact (Nat.zero_add _).symm
    | some call => exact List.sum_cons
  rw [takenUp, takenUp, calls, List.length_cons, Nat.mul_succ]
  omega

namespace Decoder

/-- The events of a run are made of bytes that the reader had still before it. -/
theorem takenUp_trail_le {decoder : Decoder} (inside : decoder.walk.Inside region) :
    decoder.walk.cursor + takenUp decoder.trail.items ≤ region.length := by
  fun_induction trail decoder with
  | case1 => exact inside.cursor
  | case2 => exact inside.cursor
  | case3 decoder event after read ih =>
    have paid := (pays_of_next read).cursor
    have rest := ih (inside_next inside read)
    simp only [Trail.cons, takenUp_cons]
    omega

theorem length_trail_le (decoder : Decoder)
    (room : decoder.walk.seen ≤ decoder.walk.maxChunks.toNat) :
    decoder.walk.seen + decoder.trail.items.length ≤ decoder.walk.maxChunks.toNat := by
  fun_induction trail decoder with
  | case1 => exact room
  | case2 => exact room
  | case3 decoder event after read ih =>
    have paid := pays_of_next read
    have seen := paid.seen
    have rest := ih paid.room
    rw [paid.maxChunks] at rest
    simp only [Trail.cons, List.length_cons]
    omega

/-- No call in a run has more parameters than the limits allow. -/
theorem parameters_of_trail {decoder : Decoder} {call : Call}
    (made : call ∈ callsOf decoder.trail.items) :
    call.request.parameters.length ≤ decoder.limits.maxParameters.toNat := by
  fun_induction trail decoder with
  | case1 => cases made
  | case2 => cases made
  | case3 decoder event after read ih =>
    have paid := pays_of_next read
    obtain ⟨event', member, same⟩ := List.mem_filterMap.mp made
    rcases List.mem_cons.mp member with rfl | later
    · exact paid.parameters call same
    · rw [← paid.limits]
      exact ih (List.mem_filterMap.mpr ⟨event', later, same⟩)

end Decoder

/-- A run has no more calls than the limits allow. -/
theorem Decoder.callsOf_trail_start_le (limits : Limits) (body : Bytes) :
    (callsOf (start limits body).trail.items).length ≤ limits.maxCalls.toNat := by
  have bound := length_calls_le Progress.start (Walk.start body limits.maxChunks).trail.items
    (Walk.start body limits.maxChunks).trail.fault (Nat.zero_le limits.maxCalls.toNat)
  have run : (start limits body).trail = _ := trail_eq_transcript rfl
  rw [Progress.start, Nat.zero_add] at bound
  rw [run]
  exact bound

/-- Whatever a message holds, the limits and the length of its body bound what its run yields: the
events, the calls among them, the parameters of each, and all that the calls say taken together.
Each event moves the cursor within the body by a header and by what it says, so that no two events
say something with the same byte. Once a reader was asked for every header that the body has room
for and for a fault, it answers with nothing. -/
theorem run_is_bounded_by_body (limits : Limits) (buffer : Bytes) (container : Container)
    (opened : Container.read buffer = .ok container) :
    ∃ decoder, Decoder.ofMessage limits buffer = .ok decoder ∧
      (∀ asked, (decoder.advance asked).next.1 = decoder.trail.answers[asked]?) ∧
      decoder.trail.items.length ≤ min limits.maxChunks.toNat (container.body.length / 8) ∧
      (callsOf decoder.trail.items).length ≤ limits.maxCalls.toNat ∧
      (∀ call ∈ callsOf decoder.trail.items,
        call.request.parameters.length ≤ limits.maxParameters.toNat) ∧
      ((callsOf decoder.trail.items).map Call.footprint).sum ≤ container.body.length ∧
      (∀ asked event after, (decoder.advance asked).next = (some (.ok event), after) →
        (decoder.advance asked).walk.cursor + 8 + event.footprint ≤ after.walk.cursor ∧
        after.walk.cursor ≤ container.body.length) ∧
      ∀ asked, container.body.length / 8 + 2 ≤ asked + 1 →
        (decoder.advance asked).next.1 = none := by
  have started : Decoder.ofMessage limits buffer = .ok (Decoder.start limits container.body) := by
    rw [Decoder.ofMessage, opened]
    rfl
  have inside : (Decoder.start limits container.body).walk.Inside container.body :=
    Walk.inside_start container.body limits.maxChunks
  have chunks := Decoder.length_trail_le (Decoder.start limits container.body) (Nat.zero_le _)
  have calls := Decoder.callsOf_trail_start_le limits container.body
  have taken := Decoder.takenUp_trail_le inside
  -- Headers alone already bound the number of events.
  have events : (Decoder.start limits container.body).trail.items.length ≤
      container.body.length / 8 := by
    rw [takenUp, Header.width] at taken
    omega
  refine ⟨_, started, Decoder.next_advance _, Nat.le_min.mpr ⟨?_, events⟩, calls, ?_, ?_, ?_, ?_⟩
  · exact Nat.le_trans (Nat.le_add_left _ _) chunks
  · exact fun call made => Decoder.parameters_of_trail made
  · rw [takenUp] at taken
    omega
  · intro asked event after answer
    have behind := Decoder.inside_next (Decoder.inside_advance inside asked) answer
    exact ⟨(Decoder.pays_of_next answer).cursor, behind.cursor⟩
  · intro asked late
    have answers := (Decoder.start limits container.body).trail.length_answers_le
    rw [Decoder.next_advance]
    exact List.getElem?_eq_none (by omega)

/-- A chunk that is passed over, a configuration, a call of two slots and three bytes of data, and
one byte that is no chunk. -/
def loadedBody : Bytes :=
  [Frame.mk .data [1], ⟨.cnfg, [1, 1, 0, 0]⟩, ⟨.call, [7, 0, 0, 0] ++
    [Frame.mk .parm [1, 2], ⟨.data, [9, 9, 9]⟩].flatMap Frame.bytes⟩].flatMap Frame.bytes ++ [0]

/-- What the loaded body says before its last byte. -/
def loadedEvents : List Event :=
  [.configured ⟨.one, .one, .little⟩,
    .call ⟨⟨.one, .one, .little⟩, 7, [.ofNat 1 1, .ofNat 2 1], some [9, 9, 9]⟩]

theorem loaded_run_is_bounded :
    Container.read (Container.wrap loadedBody) = .ok ⟨61, loadedBody⟩ ∧
    ∃ decoder, Decoder.ofMessage ⟨4, 1, 2⟩ (Container.wrap loadedBody) = .ok decoder ∧
      decoder.trail = ⟨loadedEvents, some (.truncated 8 1)⟩ ∧
      loadedEvents.length ≤ min 4 (57 / 8) ∧
      ((callsOf loadedEvents).map Call.footprint).sum ≤ 57 ∧
      (∀ event after, (decoder.advance 1).next = (some (.ok event), after) →
        (decoder.advance 1).walk.cursor + 8 + event.footprint ≤ after.walk.cursor ∧
        after.walk.cursor ≤ 57) ∧
      (decoder.advance 8).next.1 = none := by
  have accepted : Container.read (Container.wrap loadedBody) = .ok ⟨61, loadedBody⟩ :=
    Container.read_wrap [] (by decide)
  have computed : run ⟨4, 1, 2⟩ (Container.wrap loadedBody) =
      .ok ⟨loadedEvents, some (.truncated 8 1)⟩ := by
    rw [run_eq]
    decide +kernel
  obtain ⟨decoder, opened, -, events, -, -, footprint, moved, ended⟩ :=
    run_is_bounded_by_body ⟨4, 1, 2⟩ _ _ accepted
  rw [run, opened] at computed
  have trail : decoder.trail = ⟨loadedEvents, some (.truncated 8 1)⟩ := Except.ok.inj computed
  rw [trail] at events footprint
  exact ⟨accepted, decoder, opened, trail, events, footprint, moved 1, ended 8 (by decide)⟩

end Message

end Semihosting
