import Semihosting.Message.Decoder
import Semihosting.Proofs.Outcomes
import Semihosting.Proofs.Riff.Traversal

/-!
# Transcripts

What a message says is settled by its chunks from left to right: each chunk is read under the
configuration announced last and the number of calls so far, and the first fault ends the message.
Main statements: a transcript takes one chunk at a time as a reader does (`transcript_cons`), every
call in it stands under the configuration that was announced last before it
(`stands_of_transcript`), and there are no more calls in it than may be (`length_calls_le`).
-/
namespace Semihosting.Message

open Riff (Chunk)

/-- What chunks say when they are read from left to right, with the configuration in effect and the
number of calls before them, and with the fault behind them if there is one. -/
def transcript (limits : Limits) :
    Option Configuration → Nat → List Chunk → Option Fault → Trail Event
  | _, _, [], fault => ⟨[], fault⟩
  | config, calls, chunk :: rest, fault =>
    if chunk.tag = .cnfg then
      match Configuration.negotiate chunk with
      | .error fault => .broken fault
      | .ok config => (transcript limits (some config) calls rest fault).cons (.configured config)
    else if chunk.tag = .call then
      -- The bound on calls comes before the want of a configuration.
      if limits.maxCalls.toNat ≤ calls then .broken (.limitExceeded .calls limits.maxCalls.toNat)
      else match config with
        | none => .broken .notConfigured
        | some config =>
          match Request.decodeChunk (some config) limits chunk with
          | .error fault => .broken fault
          | .ok request =>
            (transcript limits (some config) (calls + 1) rest fault).cons (.call ⟨config, request⟩)
    else if chunk.tag = .retn then
      match config with
      | none => .broken .notConfigured
      | some config =>
        match Response.decodeResult config chunk.payload with
        | .error fault => .broken fault
        | .ok response =>
          (transcript limits (some config) calls rest fault).cons (.response response)
    else if chunk.tag = .erro then
      match Response.decodeError chunk.payload with
      | .error fault => .broken fault
      | .ok response => (transcript limits config calls rest fault).cons (.response response)
    else transcript limits config calls rest fault

/-- The configuration in effect behind some events. -/
def inEffect : Option Configuration → List Event → Option Configuration
  | config, [] => config
  | _, .configured config :: rest => inEffect (some config) rest
  | config, .call _ :: rest => inEffect config rest
  | config, .response _ :: rest => inEffect config rest

/-- What an event takes for granted of the configuration in effect before it. -/
def Event.Stands (config : Option Configuration) : Event → Prop
  | .call made => config = some made.config
  | .response (.result _ _) => ∃ known, config = some known
  | _ => True

def Event.call? : Event → Option Call
  | .call made => some made
  | _ => none

/-- The event of a chunk, if it has one, goes before what the chunks behind it say. -/
def Event.before (event : Option Event) (rest : Trail Event) : Trail Event :=
  match event with
  | none => rest
  | some event => rest.cons event

@[simp] theorem Event.items_before (event : Option Event) (rest : Trail Event) :
    (Event.before event rest).items = event.toList ++ rest.items := by
  cases event <;> rfl

/-! ### Single chunks -/

/-- What a chunk says and what is remembered behind it, by the kind of the chunk. -/
inductive Progress.Accepts (limits : Limits) (progress : Progress) (chunk : Chunk) :
    Option Event → Progress → Prop
  | configured {config} : chunk.tag = .cnfg → Configuration.negotiate chunk = .ok config →
      Accepts limits progress chunk (some (.configured config))
        { progress with config := some config }
  | call {config request} : chunk.tag = .call → progress.calls < limits.maxCalls.toNat →
      progress.config = some config → Request.decode config limits chunk.payload = .ok request →
      Accepts limits progress chunk (some (.call ⟨config, request⟩))
        { progress with calls := progress.calls + 1 }
  | result {config response} : chunk.tag = .retn → progress.config = some config →
      Response.decodeResult config chunk.payload = .ok response →
      Accepts limits progress chunk (some (.response response)) progress
  | error {response} : chunk.tag = .erro → Response.decodeError chunk.payload = .ok response →
      Accepts limits progress chunk (some (.response response)) progress
  | skipped : chunk.tag ≠ .cnfg → chunk.tag ≠ .call → chunk.tag ≠ .retn → chunk.tag ≠ .erro →
      Accepts limits progress chunk none progress

theorem Progress.accepts_of_accept {limits : Limits} {progress after : Progress} {chunk : Chunk}
    {event : Option Event} (accepted : progress.accept limits chunk = .ok (event, after)) :
    progress.Accepts limits chunk event after := by
  -- One case for each kind of chunk, in the order in which the kinds are told apart.
  unfold accept at accepted
  split at accepted
  next tag =>
    obtain ⟨config, negotiated, same⟩ := map_eq_ok_iff.mp accepted
    cases same
    exact .configured tag negotiated
  next notConfiguration =>
    split at accepted
    next tag =>
      unfold acceptCall at accepted
      split at accepted
      · cases accepted
      next room =>
        split at accepted
        · cases accepted
        next config known =>
          obtain ⟨request, decoded, same⟩ := map_eq_ok_iff.mp accepted
          cases same
          exact .call tag (Nat.lt_of_not_le room) known decoded
    next notCall =>
      split at accepted
      next tag =>
        unfold acceptResult at accepted
        split at accepted
        · cases accepted
        next config known =>
          obtain ⟨response, decoded, same⟩ := map_eq_ok_iff.mp accepted
          cases same
          exact .result tag known decoded
      next notResult =>
        split at accepted
        next tag =>
          obtain ⟨response, decoded, same⟩ := map_eq_ok_iff.mp accepted
          cases same
          exact .error tag decoded
        next notError =>
          cases accepted
          exact .skipped notConfiguration notCall notResult notError

theorem Progress.accept_of_accepts {limits : Limits} {progress after : Progress} {chunk : Chunk}
    {event : Option Event} (accepted : progress.Accepts limits chunk event after) :
    progress.accept limits chunk = .ok (event, after) := by
  cases accepted with
  | configured tag negotiated =>
    rw [accept, if_pos tag, acceptConfiguration, negotiated]
    rfl
  | call tag room known decoded =>
    rw [accept, if_neg (by rw [tag]; decide), if_pos tag, acceptCall,
      if_neg (Nat.not_le_of_lt room), known]
    simp only [decoded, Except.map]
  | result tag known decoded =>
    rw [accept, if_neg (by rw [tag]; decide), if_neg (by rw [tag]; decide), if_pos tag,
      acceptResult, known]
    simp only [decoded, Except.map]
  | error tag decoded =>
    rw [accept, if_neg (by rw [tag]; decide), if_neg (by rw [tag]; decide),
      if_neg (by rw [tag]; decide), if_pos tag, acceptError, decoded]
    rfl
  | skipped notConfiguration notCall notResult notError =>
    rw [accept, if_neg notConfiguration, if_neg notCall, if_neg notResult, if_neg notError]

theorem decodeChunk_of_tag {config : Configuration} {limits : Limits} {chunk : Chunk}
    (tag : chunk.tag = .call) :
    Request.decodeChunk (some config) limits chunk =
      Request.decode config limits chunk.payload := by
  simp [Request.decodeChunk, tag]

/-- The transcript takes one chunk at a time, as a reader does. -/
theorem transcript_cons (limits : Limits) (progress : Progress) (chunk : Chunk)
    (rest : List Chunk) (fault : Option Fault) :
    transcript limits progress.config progress.calls (chunk :: rest) fault =
      match progress.accept limits chunk with
      | .error fault => .broken fault
      | .ok (event, after) =>
        Event.before event (transcript limits after.config after.calls rest fault) := by
  obtain ⟨config, calls⟩ := progress
  simp only [transcript, Progress.accept]
  -- Both sides test the tag in the same order.
  split
  next tag =>
    simp only [Progress.acceptConfiguration]
    cases Configuration.negotiate chunk <;> rfl
  · split
    next tag =>
      simp only [Progress.acceptCall, decodeChunk_of_tag tag]
      split
      · rfl
      · cases config with
        | none => rfl
        | some config =>
          dsimp only
          cases Request.decode config limits chunk.payload <;> rfl
    · split
      next tag =>
        cases config with
        | none => rfl
        | some config =>
          simp only [Progress.acceptResult]
          cases Response.decodeResult config chunk.payload <;> rfl
      · split
        next tag =>
          simp only [Progress.acceptError]
          cases Response.decodeError chunk.payload <;> rfl
        · rfl

/-! ### Events and the configuration in effect -/

theorem announced_of_inEffect {start : Option Configuration} {events : List Event}
    {config : Configuration} (known : inEffect start events = some config) :
    start = some config ∨ .configured config ∈ events := by
  induction events generalizing start with
  | nil => exact Or.inl known
  | cons event rest ih =>
    cases event with
    | configured other =>
      rcases ih known with same | later
      · cases same
        exact Or.inr List.mem_cons_self
      · exact Or.inr (List.mem_cons_of_mem _ later)
    | call _ => exact (ih known).imp_right (List.mem_cons_of_mem _)
    | response _ => exact (ih known).imp_right (List.mem_cons_of_mem _)

private theorem error_of_decodeError {payload : Bytes} {response : Response}
    (decoded : Response.decodeError payload = .ok response) : ∃ code, response = .error code := by
  unfold Response.decodeError at decoded
  split at decoded
  · cases decoded
    exact ⟨_, rfl⟩
  · cases decoded

/-- An event relies on the configuration in effect, and only a new configuration changes that. -/
theorem Progress.Accepts.stands {limits : Limits} {progress after : Progress} {chunk : Chunk}
    {event : Event} (accepted : progress.Accepts limits chunk (some event) after) :
    event.Stands progress.config ∧ after.config = inEffect progress.config [event] := by
  cases accepted with
  | configured _ _ => exact ⟨trivial, rfl⟩
  | call _ _ known _ => exact ⟨known, rfl⟩
  | @result config response _ known _ =>
    cases response with
    | result _ _ => exact ⟨⟨config, known⟩, rfl⟩
    | error _ => exact ⟨trivial, rfl⟩
  | error _ decoded =>
    obtain ⟨code, rfl⟩ := error_of_decodeError decoded
    exact ⟨trivial, rfl⟩

theorem Progress.Accepts.eq_of_skipped {limits : Limits} {progress after : Progress}
    {chunk : Chunk} (accepted : progress.Accepts limits chunk none after) : after = progress := by
  cases accepted with
  | skipped => rfl

theorem inEffect_cons (config : Option Configuration) (event : Event) (rest : List Event) :
    inEffect config (event :: rest) = inEffect (inEffect config [event]) rest := by
  cases event <;> rfl

/-- Every event stands under the configuration that is in effect behind the events before it. -/
theorem stands_of_transcript {limits : Limits} {chunks : List Chunk} {fault : Option Fault}
    {before behind : List Event} {event : Event} (progress : Progress)
    (split : (transcript limits progress.config progress.calls chunks fault).items =
      before ++ event :: behind) : event.Stands (inEffect progress.config before) := by
  induction chunks generalizing progress before with
  | nil => simp [transcript] at split
  | cons chunk rest ih =>
    rw [transcript_cons] at split
    cases outcome : progress.accept limits chunk with
    | error fault => simp [outcome, Trail.broken] at split
    | ok pair =>
      obtain ⟨said, after⟩ := pair
      have accepted := Progress.accepts_of_accept outcome
      simp only [outcome, Event.items_before] at split
      -- A chunk that says nothing leaves the split as it is; any other takes its first event.
      cases said with
      | none =>
        rw [← accepted.eq_of_skipped]
        exact ih after split
      | some first =>
        obtain ⟨stands, config⟩ := accepted.stands
        cases before with
        | nil =>
          obtain ⟨rfl, -⟩ := List.cons.inj split
          exact stands
        | cons head before =>
          obtain ⟨rfl, later⟩ := List.cons.inj split
          rw [inEffect_cons, ← config]
          exact ih after later

theorem Progress.Accepts.config {limits : Limits} {progress after : Progress} {chunk : Chunk}
    {event : Option Event} {config : Configuration}
    (accepted : progress.Accepts limits chunk event after) (known : after.config = some config) :
    progress.config = some config ∨ Configuration.negotiate chunk = .ok config := by
  cases accepted with
  | configured _ negotiated =>
    cases known
    exact Or.inr negotiated
  | call | result | error | skipped => exact Or.inl known

/-- A call was decoded from a chunk. The configuration it stands under was in effect from the start
or was announced by an earlier chunk. -/
theorem exists_chunk_of_call {limits : Limits} {chunks : List Chunk} {fault : Option Fault}
    {call : Call} (progress : Progress)
    (member : .call call ∈
      (transcript limits progress.config progress.calls chunks fault).items) :
    ∃ before chunk behind, chunks = before ++ chunk :: behind ∧
      Request.decode call.config limits chunk.payload = .ok call.request ∧
      0 < limits.maxCalls.toNat ∧
      (progress.config = some call.config ∨
        ∃ source ∈ before, Configuration.negotiate source = .ok call.config) := by
  induction chunks generalizing progress with
  | nil => simp [transcript] at member
  | cons chunk rest ih =>
    rw [transcript_cons] at member
    cases outcome : progress.accept limits chunk with
    | error fault => simp [outcome, Trail.broken] at member
    | ok pair =>
      obtain ⟨said, after⟩ := pair
      have accepted := Progress.accepts_of_accept outcome
      simp only [outcome, Event.items_before, List.mem_append, Option.mem_toList] at member
      -- The call is what this chunk says, or it comes from a chunk behind this one.
      rcases member with now | later
      · cases accepted with
        | call _ room known decoded =>
          cases now
          exact ⟨[], chunk, rest, rfl, decoded, Nat.zero_lt_of_lt room, Or.inl known⟩
        | configured | result | error | skipped => cases now
      · obtain ⟨before, source, behind, rfl, decoded, room, announced⟩ := ih after later
        refine ⟨chunk :: before, source, behind, rfl, decoded, room, ?_⟩
        -- What is in effect behind this chunk may have been announced by this very chunk.
        rcases announced with known | ⟨announcement, member, negotiated⟩
        · rcases accepted.config known with earlier | negotiated
          · exact Or.inl earlier
          · exact Or.inr ⟨chunk, List.mem_cons_self, negotiated⟩
        · exact Or.inr ⟨announcement, List.mem_cons_of_mem _ member, negotiated⟩

theorem Progress.Accepts.calls {limits : Limits} {progress after : Progress} {chunk : Chunk}
    {event : Option Event} (accepted : progress.Accepts limits chunk event after) :
    after.calls = progress.calls + (event.toList.filterMap Event.call?).length ∧
      (progress.calls ≤ limits.maxCalls.toNat → after.calls ≤ limits.maxCalls.toNat) := by
  cases accepted with
  | call _ room _ _ => exact ⟨rfl, fun _ => room⟩
  | configured | result | error | skipped => exact ⟨rfl, id⟩

theorem length_calls_le {limits : Limits} (progress : Progress) (chunks : List Chunk)
    (fault : Option Fault) (room : progress.calls ≤ limits.maxCalls.toNat) :
    progress.calls +
      ((transcript limits progress.config progress.calls chunks fault).items.filterMap
        Event.call?).length ≤ limits.maxCalls.toNat := by
  induction chunks generalizing progress with
  | nil => exact room
  | cons chunk rest ih =>
    rw [transcript_cons]
    cases outcome : progress.accept limits chunk with
    | error fault => exact room
    | ok pair =>
      obtain ⟨said, after⟩ := pair
      obtain ⟨counted, bounded⟩ := (Progress.accepts_of_accept outcome).calls
      -- The chunk's own call is already part of what is counted before the others.
      have later := ih after (bounded room)
      simp only [Event.items_before, List.filterMap_append, List.length_append]
      omega

end Semihosting.Message
