import Semihosting.Proofs.Message.Run

/-!
# Two readings of one message

Whoever reads a message for its calls and whoever reads it for its reply go through the same events,
and each takes note of what concerns it. Dealing out the events by what they say leaves none over,
and what is dealt to the calls and to the reply is what these come to (`foldl_noteReply_of_dealt`).
Main result: the two readings fail together and for the same fault, and otherwise share the events
out between them (`calls_and_reply_agree`).
-/
namespace Semihosting.Message

open Riff (Container)

/-- Every event goes to the configurations, to the calls or to the responses. Each of these keeps
the order of the events. -/
inductive Dealt : List Event → List Configuration → List Call → List Response → Prop
  | nil : Dealt [] [] [] []
  | configured (config) {events configs made said} : Dealt events configs made said →
      Dealt (.configured config :: events) (config :: configs) made said
  | call (call) {events configs made said} : Dealt events configs made said →
      Dealt (.call call :: events) configs (call :: made) said
  | response (response) {events configs made said} : Dealt events configs made said →
      Dealt (.response response :: events) configs made (response :: said)

variable {events : List Event} {configs : List Configuration} {made : List Call}
  {said : List Response}

theorem exists_dealt (events : List Event) :
    ∃ configs made said, Dealt events configs made said := by
  induction events with
  | nil => exact ⟨[], [], [], .nil⟩
  | cons event rest ih =>
    obtain ⟨configs, made, said, dealt⟩ := ih
    cases event with
    | configured config => exact ⟨_, _, _, .configured config dealt⟩
    | call call => exact ⟨_, _, _, .call call dealt⟩
    | response response => exact ⟨_, _, _, .response response dealt⟩

theorem Dealt.callsOf_eq (dealt : Dealt events configs made said) : callsOf events = made := by
  induction dealt with
  | nil => rfl
  | configured _ _ ih | response _ _ ih => exact ih
  | call call _ ih => exact congrArg (call :: ·) ih

/-- A later configuration takes the place of an earlier one; responses are put behind each other. -/
theorem foldl_noteReply_of_dealt (dealt : Dealt events configs made said) (reply : Reply) :
    events.foldl noteReply reply = ⟨configs.getLast?.or reply.config, reply.responses ++ said⟩ := by
  induction dealt generalizing reply with
  | nil => simp only [List.foldl_nil, List.getLast?_nil, Option.none_or, List.append_nil]
  | @configured config events configs made said _ ih =>
    rw [List.foldl_cons, ih, List.getLast?_cons]
    cases configs.getLast? <;> rfl
  | call call _ ih => exact ih reply
  | response response _ ih =>
    rw [List.foldl_cons, ih]
    simp only [noteReply, List.append_assoc, List.singleton_append]

theorem Dealt.replyOf_eq (dealt : Dealt events configs made said) :
    replyOf events = ⟨configs.getLast?, said⟩ := by
  rw [replyOf, foldl_noteReply_of_dealt dealt]
  simp only [Reply.empty, Option.or_none, List.nil_append]

/-- Reading a message for its calls and for its reply fails at the same time, for the fault of the
container or the one that ends the run. If neither fails, the calls and the responses are those
among the events, in order, the configuration of the reply is the last one that was announced, if
there is one, and there is no event besides the configurations, the calls and the responses. -/
theorem calls_and_reply_agree (limits : Limits) (buffer : Bytes) :
    (∀ fault, calls limits buffer = .error fault ↔ reply limits buffer = .error fault) ∧
    (∀ fault, calls limits buffer = .error fault ↔
      Container.read buffer = .error fault ∨
        ∃ events, run limits buffer = .ok ⟨events, some fault⟩) ∧
    ∀ made said, calls limits buffer = .ok made ∧ reply limits buffer = .ok said ↔
      ∃ events configs, run limits buffer = .ok ⟨events, none⟩ ∧
        Dealt events configs made said.responses ∧ said.config = configs.getLast? := by
  refine ⟨?_, ?_, ?_⟩
  · intro fault
    rw [calls_eq_yielded, reply_eq_yielded, yielded_eq_error_iff, yielded_eq_error_iff]
  · intro fault
    rw [calls_eq_yielded, yielded_eq_error_iff]
  · intro made said
    rw [calls_eq_ok_iff, reply_eq_ok_iff]
    constructor
    · -- Both readings end with the one run there is.
      rintro ⟨⟨events, read, rfl⟩, ⟨others, read', rfl⟩⟩
      obtain rfl : events = others := by
        rw [read] at read'
        exact (Trail.mk.inj (Except.ok.inj read')).1
      obtain ⟨configs, made, said, dealt⟩ := exists_dealt events
      rw [dealt.callsOf_eq, dealt.replyOf_eq]
      exact ⟨events, configs, read, dealt, rfl⟩
    · -- The events can be dealt in one way only, so they give back what was dealt.
      rintro ⟨events, configs, read, dealt, last⟩
      have same : replyOf events = said := by
        rw [dealt.replyOf_eq, ← last]
      exact ⟨⟨events, read, dealt.callsOf_eq⟩, events, read, same⟩

-- An error needs no configuration, and a reply that holds nothing else has none.
example : reply .standard (Container.wrap (Riff.Frame.mk .erro [3, 0, 0, 0]).bytes) =
    .ok ⟨none, [.error 3]⟩ := by decide +kernel

end Semihosting.Message
