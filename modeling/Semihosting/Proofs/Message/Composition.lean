import Semihosting.Proofs.Message.Capacity
import Semihosting.Proofs.Message.Extension

/-!
# Bodies one behind the other

A body that is read on its own says the same behind another body that is read: it cannot see what
the other left in effect, because whatever it needs it announces itself. Main results: chunks that
are accepted from the start are accepted behind any others with the same events (`Reads.behind`),
and decoding two bodies in one container is decoding each and joining what they say
(`messages_compose`).
-/
namespace Semihosting.Message

open Riff (Chunk Container Walk WireFrame formWidth offsetSpace)
open Riff.WireFrame (concat chunksFrom)

variable {limits : Limits} {progress after earlier : Progress} {frames others : List WireFrame}
  {events later : List Event}

/-- What is remembered if earlier chunks were read before: their configuration stays in effect until
another one is announced. -/
def Progress.behind (earlier progress : Progress) : Progress :=
  ⟨progress.config.or earlier.config, earlier.calls + progress.calls⟩

@[simp] theorem Progress.behind_start (earlier : Progress) : earlier.behind .start = earlier := rfl

/-! ### Chunks behind other chunks -/

/-- A chunk is taken alike behind earlier calls, as long as there is room for those as well. -/
theorem Progress.Accepts.behind {chunk : Chunk} {event : Option Event}
    (accepted : progress.Accepts limits chunk event after)
    (room : earlier.calls + after.calls ≤ limits.maxCalls.toNat) :
    (earlier.behind progress).Accepts limits chunk event (earlier.behind after) := by
  -- A chunk that needs a configuration found one, and that one still comes first.
  have covers {config : Configuration} (known : progress.config = some config) :
      (earlier.behind progress).config = some config := by
    simp [Progress.behind, known]
  cases accepted with
  | configured tag negotiated => exact .configured tag negotiated
  | call tag _ known decoded => exact .call tag room (covers known) decoded
  | result tag known decoded => exact .result tag (covers known) decoded
  | error tag decoded => exact .error tag decoded
  | skipped notConfiguration notCall notResult notError =>
    exact .skipped notConfiguration notCall notResult notError

/-- Chunks that are accepted from nothing are accepted behind others, with the same events. -/
theorem Reads.behind (reads : Reads limits progress frames events after)
    (room : earlier.calls + after.calls ≤ limits.maxCalls.toNat) :
    Reads limits (earlier.behind progress) frames events (earlier.behind after) := by
  induction reads with
  | nil => exact .nil _
  | cons accepted rest ih =>
    -- Calls only accumulate, so there was room for those made so far.
    have counted := rest.callCount
    exact .cons (accepted.behind (by omega)) (ih room)

/-- Behind frames that are accepted, the transcript is that of what follows them. -/
theorem Reads.transcript_append (reads : Reads limits progress frames events after)
    (offset : Nat) (chunks : List Chunk) (fault : Option Fault) :
    transcript limits progress.config progress.calls (chunksFrom offset frames ++ chunks) fault =
      ⟨events ++ (transcript limits after.config after.calls chunks fault).items,
        (transcript limits after.config after.calls chunks fault).fault⟩ := by
  induction reads generalizing offset with
  | nil => rfl
  | @cons progress _ _ frame _ event _ accepted _ ih =>
    -- A chunk means the same wherever it stands.
    have blind : progress.accept limits (frame.chunkAt offset) =
        progress.accept limits (frame.chunkAt 0) := rfl
    rw [WireFrame.chunksFrom_cons, List.cons_append, transcript_cons, blind,
      Progress.accept_of_accepts accepted]
    simp only [ih, List.append_assoc]
    cases event <;> rfl

/-! ### Bodies -/

/-- A body that is read without a fault is a sequence of frames that are accepted in turn. -/
theorem reads_of_run_wrap {body : Bytes} (short : body.length + formWidth < offsetSpace)
    (read : run limits (Container.wrap body) = .ok ⟨events, none⟩) :
    ∃ frames after, body = concat frames ∧ frames.length ≤ limits.maxChunks.toNat ∧
      Reads limits .start frames events after := by
  obtain ⟨frames, tail, after, framed, room, reads⟩ := run_eq_ok_iff.mp read
  have opened := Container.read_wrap [] short
  rw [List.append_nil, framed.read] at opened
  exact ⟨frames, after, (Container.mk.inj (Except.ok.inj opened)).2.symm, room, reads⟩

/-- Whatever stands behind frames that are read, their events come first. -/
theorem run_wrap_append {back : Bytes}
    (short : (concat frames).length + back.length + formWidth < offsetSpace)
    (room : frames.length ≤ limits.maxChunks.toNat)
    (reads : Reads limits .start frames events after) :
    ∃ rest fault,
      run limits (Container.wrap (concat frames ++ back)) = .ok ⟨events ++ rest, fault⟩ := by
  have fits : (concat frames ++ back).length + formWidth < offsetSpace := by
    rw [List.length_append]
    exact short
  have opened := Container.read_wrap [] fits
  rw [List.append_nil] at opened
  have ready : (Walk.start (concat frames ++ back) limits.maxChunks).Ready :=
    Walk.ready_start (by omega)
  have walked := Walk.trail_past ready rfl (by simpa only [Walk.start, Nat.zero_add] using room)
  rw [run_eq, opened]
  simp only [Except.map, walked]
  exact ⟨_, _, congrArg Except.ok (reads.transcript_append 0 _ _)⟩

/-- Two bodies that are read on their own are read one behind the other. -/
theorem run_wrap_concat
    (short : (concat frames).length + (concat others).length + formWidth < offsetSpace)
    {middle : Progress} (reads : Reads .unbounded .start frames events middle)
    (reads' : Reads .unbounded .start others later after) :
    run .unbounded (Container.wrap (concat frames ++ concat others)) =
      .ok ⟨events ++ later, none⟩ := by
  have fits : (concat (frames ++ others)).length + formWidth < offsetSpace := by
    rw [WireFrame.concat_append, List.length_append]
    exact short
  -- There are no more calls than frames, and no more frames than bytes.
  have room : middle.calls + after.calls ≤ Limits.unbounded.maxCalls.toNat := by
    have first := reads.callCount
    have second := reads'.callCount
    have made : callCount frames ≤ frames.length := List.countP_le_length
    have made' : callCount others ≤ others.length := List.countP_le_length
    have width := WireFrame.width_mul_length_le (frames ++ others)
    have bound : offsetSpace ≤ Limits.unbounded.maxCalls.toNat := by decide
    simp only [Progress.start, Riff.Header.width, List.length_append] at first second width
    omega
  have framed : Framed (Container.wrap (concat (frames ++ others)) ++ []) (frames ++ others) [] :=
    ⟨fits, rfl⟩
  have later := reads'.behind room
  rw [Progress.behind_start] at later
  have joined := (run_unbounded_eq_ok_iff framed).mpr ⟨_, reads.append later⟩
  rwa [List.append_nil, WireFrame.concat_append] at joined

theorem foldl_noteReply (said : Reply) (events : List Event) :
    events.foldl noteReply said =
      ⟨(replyOf events).config.or said.config, said.responses ++ (replyOf events).responses⟩ := by
  induction events generalizing said with
  | nil => simp [replyOf, Reply.empty]
  | cons event rest ih =>
    have behind : replyOf (event :: rest) = rest.foldl noteReply (noteReply .empty event) := rfl
    rw [List.foldl_cons, behind, ih, ih (noteReply .empty event)]
    cases event <;> simp [noteReply, Reply.empty]

/-- Later events add their responses, and replace the configuration if they have one. -/
theorem replyOf_append (events later : List Event) :
    replyOf (events ++ later) =
      ⟨(replyOf later).config.or (replyOf events).config,
        (replyOf events).responses ++ (replyOf later).responses⟩ := by
  rw [replyOf, List.foldl_append, foldl_noteReply]
  rfl

/-- Decoding is compositional. If a body is read without limits and without a fault, its events come
first whatever is put behind it. If what is put behind it is a body that is read on its own, the
events of both are read one after the other. The calls are then those of the first body and those of
the second, and so are the responses; the configuration of the reply is that of the second body,
or that of the first if the second announces none. -/
theorem messages_compose {front back : Bytes}
    (short : front.length + back.length + formWidth < offsetSpace)
    (read : run .unbounded (Container.wrap front) = .ok ⟨events, none⟩) :
    (∃ trail, run .unbounded (Container.wrap (front ++ back)) = .ok trail ∧
      events <+: trail.items) ∧
    ∀ later, run .unbounded (Container.wrap back) = .ok ⟨later, none⟩ →
      run .unbounded (Container.wrap (front ++ back)) = .ok ⟨events ++ later, none⟩ ∧
      ∃ made made' said said',
        calls .unbounded (Container.wrap front) = .ok made ∧
        calls .unbounded (Container.wrap back) = .ok made' ∧
        calls .unbounded (Container.wrap (front ++ back)) = .ok (made ++ made') ∧
        reply .unbounded (Container.wrap front) = .ok said ∧
        reply .unbounded (Container.wrap back) = .ok said' ∧
        reply .unbounded (Container.wrap (front ++ back)) =
          .ok ⟨said'.config.or said.config, said.responses ++ said'.responses⟩ := by
  -- The first body is all frames, so nothing of the second can change how they are read.
  obtain ⟨frames, middle, rfl, room, reads⟩ := reads_of_run_wrap (by omega) read
  constructor
  · obtain ⟨rest, fault, joined⟩ := run_wrap_append short room reads
    exact ⟨_, joined, List.prefix_append events rest⟩
  · intro later read'
    obtain ⟨others, after, rfl, -, reads'⟩ := reads_of_run_wrap (by omega) read'
    have joined := run_wrap_concat short reads reads'
    refine ⟨joined, callsOf events, callsOf later, replyOf events, replyOf later, ?_⟩
    simp only [calls_eq_ok_iff, reply_eq_ok_iff]
    refine ⟨⟨_, read, rfl⟩, ⟨_, read', rfl⟩, ⟨_, joined, List.filterMap_append⟩, ⟨_, read, rfl⟩,
      ⟨_, read', rfl⟩, _, joined, replyOf_append events later⟩

/-- A configuration and a call under it. -/
def askingBody : Bytes :=
  [Riff.Frame.mk .cnfg [1, 1, 0, 0], ⟨.call, [7, 0, 0, 0]⟩].flatMap Riff.Frame.bytes

/-- An error, and a result under a configuration of its own. -/
def answeringBody : Bytes :=
  [Riff.Frame.mk .erro [3, 0, 0, 0], ⟨.cnfg, [2, 4, 1, 0]⟩, ⟨.retn, [0xFF, 0xFE, 0, 1]⟩].flatMap
    Riff.Frame.bytes

def askingEvents : List Event :=
  [.configured ⟨.one, .one, .little⟩, .call ⟨⟨.one, .one, .little⟩, .bare 7⟩]

def answeringEvents : List Event :=
  [.response (.error 3), .configured ⟨.two, .four, .big⟩, .response (.result (-2) 1)]

theorem asking_composes_with_answering :
    askingBody.length + answeringBody.length + formWidth < offsetSpace ∧
    run .unbounded (Container.wrap askingBody) = .ok ⟨askingEvents, none⟩ ∧
    run .unbounded (Container.wrap answeringBody) = .ok ⟨answeringEvents, none⟩ ∧
    run .unbounded (Container.wrap (askingBody ++ answeringBody)) =
      .ok ⟨askingEvents ++ answeringEvents, none⟩ ∧
    askingBody.length + [0x52, 0x45].length + formWidth < offsetSpace ∧
    ∃ trail, run .unbounded (Container.wrap (askingBody ++ [0x52, 0x45])) = .ok trail ∧
      askingEvents <+: trail.items := by
  have short : askingBody.length + answeringBody.length + formWidth < offsetSpace := by decide
  have short' : askingBody.length + [0x52, 0x45].length + formWidth < offsetSpace := by decide
  have read : run .unbounded (Container.wrap askingBody) = .ok ⟨askingEvents, none⟩ := by
    decide +kernel
  have read' : run .unbounded (Container.wrap answeringBody) = .ok ⟨answeringEvents, none⟩ := by
    decide +kernel
  exact ⟨short, read, read', ((messages_compose short read).2 _ read').1, short',
    (messages_compose short' read).1⟩

end Semihosting.Message
