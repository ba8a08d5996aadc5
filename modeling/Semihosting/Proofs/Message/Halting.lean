import Semihosting.Proofs.Message.Reading
import Semihosting.Proofs.Riff.Halting

/-!
# Readers that stop for good

A decoder stops at its first fault although its walk may have chunks left to read. What it had
agreed on by then is what the frames in front of the place to blame announced. Main results: the
configuration of a decoder follows from the events that it has yielded (`Decoder.config_advance`),
and walks and decoders meet one fault at most and do not move behind it (`readers_stop_for_good`).
-/
namespace Semihosting.Message

open Riff (Chunk Container Frame Walk WireFrame offsetSpace)
open Riff.WireFrame (concat chunksFrom)

def announced (frames : List WireFrame) : List Configuration :=
  frames.filterMap fun frame => (Configuration.negotiate (frame.chunkAt 0)).toOption

/-- What a fault is due to behind frames of a body: the walk goes no further, or what stands there
is a chunk that is refused under what the frames said. -/
inductive Decoder.Blames (limits : Limits) (body : Bytes) (frames : List WireFrame)
    (progress : Progress) : Fault → Prop
  | walk {fault} : Walk.Blames body limits.maxChunks frames.length (concat frames).length fault →
      Blames limits body frames progress fault
  | chunk {fault chunk next} : frames.length < limits.maxChunks.toNat →
      Chunk.readAt body (concat frames).length = .ok (chunk, next) →
      progress.accept limits chunk = .error fault → Blames limits body frames progress fault

/-- A decoder of a body meets the fault when it was asked so often before. Until then it answers
with the events of the frames, and afterwards what they announced last stays in effect. -/
structure Decoder.Halts (decoder : Decoder) (body : Bytes) (asked : Nat) (fault : Fault)
    (frames : List WireFrame) (events : List Event) (progress : Progress) : Prop where
  front : concat frames <+: body
  reads : Reads decoder.limits .start frames events progress
  counted : events.length = asked
  answered : ∀ earlier < asked, (decoder.advance earlier).next.1 = events[earlier]?.map .ok
  blames : Blames decoder.limits body frames progress fault
  config : ∀ later > asked, (decoder.advance later).config = (announced frames).getLast?

variable {limits : Limits} {progress after : Progress} {frames : List WireFrame}
  {events : List Event} {fault : Fault}

/-! ### Configurations in effect -/

theorem settle_eq (config : Option Configuration) (frame : WireFrame) :
    settle config frame = (Configuration.negotiate (frame.chunkAt 0)).toOption.or config := by
  by_cases tag : frame.tag = .cnfg
  · rw [settle, if_pos tag]
    cases Configuration.negotiate (frame.chunkAt 0) <;> rfl
  · have refused : Configuration.negotiate (frame.chunkAt 0) =
        .error (.invalidField .chunkId frame.tag.toNat) := if_pos tag
    rw [settle, if_neg tag, refused]
    rfl

theorem settled_eq (config : Option Configuration) (frames : List WireFrame) :
    settled config frames = (announced frames).getLast?.or config := by
  induction frames generalizing config with
  | nil => rfl
  | cons frame frames ih =>
    have later : settled config (frame :: frames) = settled (settle config frame) frames := rfl
    rw [later, ih, settle_eq, announced, announced, List.filterMap_cons]
    cases (Configuration.negotiate (frame.chunkAt 0)).toOption with
    | none => rfl
    | some first => simp [List.getLast?_cons]

/-- The configuration behind frames can be told from their events. -/
theorem Reads.inEffect (reads : Reads limits progress frames events after) :
    after.config = Message.inEffect progress.config events := by
  induction reads with
  | nil => rfl
  | @cons progress middle _ _ _ event _ accepted _ ih =>
    rw [ih]
    cases event with
    | none => rw [accepted.eq_of_skipped, Option.toList_none, List.nil_append]
    | some event =>
      rw [Option.toList_some, List.singleton_append, inEffect_cons, accepted.stands.2]

namespace Decoder

/-- A decoder changes its configuration only by an event that says so. -/
theorem config_of_next {decoder after : Decoder} {answer : Option (Except Fault Event)}
    (answered : decoder.next = (answer, after)) :
    after.config = inEffect decoder.config (answer.bind Except.toOption).toList := by
  fun_induction next decoder with
  | case1 | case2 | case3 | case4 =>
    cases answered
    rfl
  | case5 decoder alive chunk walk read progress accepted ih =>
    -- A chunk that is passed over leaves the configuration as it is.
    rw [ih answered, config, (Progress.accepts_of_accept accepted).eq_of_skipped]
    rfl
  | case6 decoder alive chunk walk read event progress accepted =>
    cases answered
    exact (Progress.accepts_of_accept accepted).stands.2

/-- However often a decoder was asked, its configuration is the one in effect behind the events it
has yielded. -/
theorem config_advance (decoder : Decoder) (asked : Nat) :
    (decoder.advance asked).config = inEffect decoder.config (decoder.trail.items.take asked) := by
  induction asked generalizing decoder with
  | zero => rfl
  | succ asked ih =>
    have first : decoder.advance (asked + 1) = decoder.next.2.advance asked :=
      Function.iterate_succ_apply _ asked decoder
    rw [first]
    rcases answer : decoder.next with ⟨_ | fault | event, after⟩
    · -- Nothing is left to say, now or later, so the configuration stays.
      obtain ⟨now, later⟩ := leaves.ended answer
      rw [ih, config_of_next answer, now, later, Trail.items_done, List.take_nil, List.take_nil]
      rfl
    · obtain ⟨now, later⟩ := leaves.failed answer
      rw [ih, config_of_next answer, now, later, Trail.items_done, Trail.items_broken,
        List.take_nil, List.take_nil]
      rfl
    · rw [ih, config_of_next answer, leaves.read answer]
      exact (inEffect_cons decoder.config event _).symm

end Decoder

/-! ### Faults of transcripts -/

@[simp] theorem Event.fault_before (event : Option Event) (rest : Trail Event) :
    (Event.before event rest).fault = rest.fault := by
  cases event <;> rfl

/-- A transcript that ends in a fault is that of frames that are accepted, up to the frame that is
refused or to where the chunks end. -/
theorem exists_front_of_fault {ended : Option Fault} (progress : Progress) (offset : Nat)
    (failed : (transcript limits progress.config progress.calls
      (chunksFrom offset frames) ended).fault = some fault) :
    ∃ front back after, frames = front ++ back ∧
      Reads limits progress front (transcript limits progress.config progress.calls
        (chunksFrom offset frames) ended).items after ∧
      (back = [] ∧ ended = some fault ∨
        ∃ frame later, back = frame :: later ∧
          after.accept limits (frame.chunkAt 0) = .error fault) := by
  induction frames generalizing progress offset with
  | nil => exact ⟨[], [], progress, rfl, .nil progress, Or.inl ⟨rfl, failed⟩⟩
  | cons frame frames ih =>
    -- What a chunk says does not depend on where it stands.
    have blind : progress.accept limits (frame.chunkAt offset) =
        progress.accept limits (frame.chunkAt 0) := rfl
    rw [WireFrame.chunksFrom_cons, transcript_cons, blind] at failed ⊢
    cases outcome : progress.accept limits (frame.chunkAt 0) with
    | error refusal =>
      rw [outcome] at failed
      cases failed
      exact ⟨[], frame :: frames, progress, rfl, .nil progress,
        Or.inr ⟨frame, frames, rfl, outcome⟩⟩
    | ok pair =>
      obtain ⟨event, middle⟩ := pair
      simp only [outcome, Event.fault_before] at failed
      obtain ⟨front, back, after, rfl, reads, blamed⟩ := ih middle _ failed
      refine ⟨frame :: front, back, after, rfl, ?_, blamed⟩
      simp only [Event.items_before]
      exact .cons (Progress.accepts_of_accept outcome) reads

/-! ### Where a decoder halts -/

/-- Wherever a decoder fails, frames at the front of the body account for its answers so far, and
what stands behind them for the fault. -/
theorem Decoder.exists_halts {body : Bytes} {asked : Nat} (short : body.length < offsetSpace)
    (failed : ((start limits body).advance asked).next.1 = some (.error fault)) :
    ∃ frames events progress,
      Halts (start limits body) body asked fault frames events progress := by
  have ready : (Walk.start body limits.maxChunks).Ready := Walk.ready_start short
  obtain ⟨frames, rest, front, room, items, ends⟩ := Walk.exists_frames ready
  have front : body = concat frames ++ rest := front
  have room : frames.length ≤ limits.maxChunks.toNat := by simpa [Walk.start] using room
  have run : (start limits body).trail = transcript limits none 0
      (chunksFrom 0 frames) (Walk.start body limits.maxChunks).trail.fault := by
    rw [trail_eq_transcript rfl]
    exact congrArg (transcript limits none 0 · _) items
  rw [next_advance] at failed
  -- A fault comes behind all items, so these are what was answered before it.
  obtain ⟨last, ended⟩ := Trail.answers_eq_error_iff.mp failed
  rw [run] at ended
  obtain ⟨accepted, others, progress, split, reads, blamed⟩ :=
    exists_front_of_fault Progress.start 0 ended
  have reads : Reads limits .start accepted (start limits body).trail.items progress := by
    rw [run]
    exact reads
  refine ⟨accepted, _, progress, ?_, reads, last.symm, ?_, ?_, ?_⟩
  · rw [front, split, WireFrame.concat_append, List.append_assoc]
    exact List.prefix_append _ _
  · intro earlier before
    rw [next_advance, Trail.answers, List.getElem?_append_left (by simpa [← last] using before),
      List.getElem?_map]
  · rcases blamed with ⟨rfl, walked⟩ | ⟨frame, later, rfl, refused⟩
    · -- All chunks were accepted, so the fault is that of the walk.
      rw [List.append_nil] at split
      subst split
      rw [walked] at ends
      exact .walk (Walk.blames_of_ends front room ends)
    · -- A frame was refused, and it stands right behind the accepted ones.
      have chunk : Chunk.readAt body (concat accepted).length =
          .ok (frame.chunkAt (concat accepted).length,
            (concat accepted).length + frame.bytes.length) := by
        refine Chunk.readAt_eq_ok_iff.mpr ⟨short, frame, concat later ++ rest, ?_, rfl, rfl⟩
        rw [front, split, WireFrame.concat_append, List.append_assoc, List.drop_left,
          WireFrame.concat_cons, List.append_assoc]
      have few : accepted.length < limits.maxChunks.toNat := by
        rw [split, List.length_append, List.length_cons] at room
        omega
      exact .chunk few chunk refused
  · intro later behind
    have all : (start limits body).trail.items.take later = (start limits body).trail.items :=
      List.take_of_length_le (by omega)
    rw [config_advance, all]
    calc inEffect none (start limits body).trail.items
        = progress.config := reads.inEffect.symm
      _ = settled none accepted := reads.settled
      _ = (announced accepted).getLast? := by rw [settled_eq, Option.or_none]

/-- A walk over any region and a decoder of any message are done once they have answered with a
fault or with nothing, so that they meet one fault at most. Behind its fault a walk stands at the
place that is to blame, right behind the chunks it has read, and does not move from there. Behind
its fault a decoder keeps the configuration that was announced last in front of the place to blame,
also if what stands there is itself an announcement. -/
theorem readers_stop_for_good (region : Bytes) (maxChunks : UInt32) (limits : Limits)
    (buffer : Bytes) (container : Container) (accepted : Container.read buffer = .ok container) :
    Fused (fun asked => ((Walk.start region maxChunks).advance asked).next.1) ∧
    (∀ asked fault, ((Walk.start region maxChunks).advance asked).next.1 = some (.error fault) →
      ∃ frames, Walk.Halts region maxChunks asked fault frames) ∧
    ∃ decoder, Decoder.ofMessage limits buffer = .ok decoder ∧
      Fused (fun asked => (decoder.advance asked).next.1) ∧
      ∀ asked fault, (decoder.advance asked).next.1 = some (.error fault) →
        ∃ frames events progress,
          decoder.Halts container.body asked fault frames events progress := by
  have opened : Decoder.ofMessage limits buffer = .ok (Decoder.start limits container.body) := by
    rw [Decoder.ofMessage, accepted]
    rfl
  have short : container.body.length < offsetSpace := by
    obtain ⟨size, small, -⟩ := Container.size_of_read accepted
    omega
  refine ⟨Walk.leaves.fused _, fun _ _ => Walk.exists_halts, _, opened, Decoder.leaves.fused _, ?_⟩
  exact fun _ _ => Decoder.exists_halts short

/-- Widths of two and four bytes, then widths that are refused, and then a call. -/
def contestedBody : Bytes :=
  [Frame.mk .cnfg [2, 4, 1, 0], ⟨.cnfg, [9, 4, 1, 0]⟩, ⟨.call, [7, 0, 0, 0]⟩].flatMap Frame.bytes

theorem contested_message_stops_for_good :
    Container.read (Container.wrap contestedBody) = .ok ⟨40, contestedBody⟩ ∧
    (∃ frames, Walk.Halts contestedBody 2 2 (.limitExceeded .chunks 2) frames) ∧
    ∃ decoder, Decoder.ofMessage .unbounded (Container.wrap contestedBody) = .ok decoder ∧
      (∃ frames events progress,
        decoder.Halts contestedBody 1 (.invalidField .intSize 9) frames events progress) ∧
      ∀ later > 1, (decoder.advance later).next.1 = none ∧
        (decoder.advance later).config = some ⟨.two, .four, .big⟩ := by
  have accepted : Container.read (Container.wrap contestedBody) = .ok ⟨40, contestedBody⟩ := by
    decide +kernel
  obtain ⟨-, walks, decoder, opened, fused, halts⟩ :=
    readers_stop_for_good contestedBody 2 .unbounded _ _ accepted
  have started : decoder = Decoder.start .unbounded contestedBody := by
    cases opened
    rfl
  have failed : (decoder.advance 1).next.1 = some (.error (.invalidField .intSize 9)) := by
    rw [started]
    decide +kernel
  -- One later call settles all of them: the configuration has stopped changing.
  have soon : (decoder.advance 2).config = some ⟨.two, .four, .big⟩ := by
    rw [started]
    decide +kernel
  obtain ⟨frames, events, progress, halted⟩ := halts 1 _ failed
  refine ⟨accepted, walks 2 _ (by decide +kernel), decoder, opened, ⟨_, _, _, halted⟩, ?_⟩
  intro later behind
  constructor
  · exact fused.silent 1 later behind (by simp [failed])
  · rw [halted.config later behind, ← halted.config 2 (Nat.lt_succ_self 1), soon]

end Semihosting.Message
