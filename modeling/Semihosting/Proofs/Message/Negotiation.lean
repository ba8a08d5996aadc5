import Semihosting.Proofs.Configuration.Sources
import Semihosting.Proofs.Json.Reading
import Semihosting.Proofs.Message.Run
import Semihosting.Proofs.Replay.Survival

/-!
# Negotiated configurations

A configuration that a message mentions was announced by a chunk of that message, and every
configuration keeps the sizes that depend on it small. Main result: whatever gives a configuration
gives it for the same terms, announcements are judged in one order, and what a message mentions is
no exception (`sources_agree_on_allowed_terms`).
-/
namespace Semihosting

open Riff (Chunk Container Walk)

/-! ### Sizes -/

namespace Configuration

/-- The sizes that depend on a configuration are small. -/
structure Compact (config : Configuration) : Prop where
  slot : config.slotWidth ∈ widths
  header : config.callHeaderWidth ∈ [4, 8]
  result : config.returnPayloadSize ≤ 16
  written : ∀ value errno,
    ((Response.result value errno).payload config).length = config.returnPayloadSize

theorem slotWidth_mem (config : Configuration) : config.slotWidth ∈ widths := by
  obtain ⟨ints, ptrs⟩ := config.terms_allowed
  rw [slotWidth]
  rcases Nat.le_total config.intSize.bytes config.ptrSize.bytes with narrower | wider
  · rwa [Nat.max_eq_right narrower]
  · rwa [Nat.max_eq_left wider]

theorem callHeaderWidth_mem (config : Configuration) : config.callHeaderWidth ∈ [4, 8] := by
  rw [callHeaderWidth]
  cases config.intSize <;> decide

theorem compact (config : Configuration) : config.Compact where
  slot := config.slotWidth_mem
  header := config.callHeaderWidth_mem
  result := Response.payloadSize_le config (.result 0 0)
  written value errno := Response.length_payload config (.result value errno)

end Configuration

/-! ### Each kind of source reaches every configuration -/

def Configuration.listed (config : Configuration) : Json :=
  .array [.ofNat config.intSize.bytes, .ofNat config.ptrSize.bytes, config.order.toJson]

theorem Source.written_listed (config : Configuration) :
    (Source.written config.listed.compact).PutsForward config.terms := by
  have writable : config.listed.Writable := by
    apply Json.writable_array
    simp [Json.writable_ofNat, ByteOrder.toJson, Json.writable_ofText]
  exact ⟨config.listed, Json.read?_compact writable, config.order.toJson, .name,
    .array (Nat.le_refl 3)⟩

/-! ### What a message mentions -/

namespace Message

/-- A chunk of the message announces the configuration. -/
def Announces (limits : Limits) (buffer : Bytes) (config : Configuration) : Prop :=
  ∃ container, Container.read buffer = .ok container ∧
    ∃ chunk ∈ (Walk.start container.body limits.maxChunks).trail.items,
      Configuration.negotiate chunk = .ok config

/-- The configuration stands in an event of the message, in a call or in the reply. -/
inductive Mentions (limits : Limits) (buffer : Bytes) (config : Configuration) : Prop
  | configured {trail} : run limits buffer = .ok trail → .configured config ∈ trail.items →
      Mentions limits buffer config
  | called {trail request} : run limits buffer = .ok trail → .call ⟨config, request⟩ ∈ trail.items →
      Mentions limits buffer config
  | calls {made request} : calls limits buffer = .ok made → ⟨config, request⟩ ∈ made →
      Mentions limits buffer config
  | reply {responses} : reply limits buffer = .ok ⟨some config, responses⟩ →
      Mentions limits buffer config

theorem exists_chunk_of_configured {limits : Limits} {chunks : List Chunk} {fault : Option Fault}
    {config : Configuration} (progress : Progress)
    (member : .configured config ∈
      (transcript limits progress.config progress.calls chunks fault).items) :
    ∃ chunk ∈ chunks, Configuration.negotiate chunk = .ok config := by
  induction chunks generalizing progress with
  | nil => simp [transcript] at member
  | cons chunk rest ih =>
    rw [transcript_cons] at member
    cases outcome : progress.accept limits chunk with
    | error fault => simp [outcome, Trail.broken] at member
    | ok pair =>
      obtain ⟨said, after⟩ := pair
      have accepted := Progress.accepts_of_accept outcome
      simp only [outcome, Event.items_before, List.mem_append, Option.mem_toList] at member
      rcases member with now | later
      -- Only a chunk that announces a configuration becomes an event of this kind.
      · cases accepted with
        | configured _ negotiated =>
          cases now
          exact ⟨chunk, List.mem_cons_self, negotiated⟩
        | call | result | error | skipped => cases now
      · obtain ⟨source, behind, negotiated⟩ := ih after later
        exact ⟨source, List.mem_cons_of_mem _ behind, negotiated⟩

theorem config_foldl_noteReply (events : List Event) (said : Reply) :
    (events.foldl noteReply said).config = inEffect said.config events := by
  induction events generalizing said with
  | nil => rfl
  | cons event rest ih =>
    rw [List.foldl_cons, ih]
    cases event <;> rfl

section Mentions

variable {limits : Limits} {buffer : Bytes} {config : Configuration} {trail : Trail Event}

theorem announces_of_configured (read : run limits buffer = .ok trail)
    (member : .configured config ∈ trail.items) : Announces limits buffer config := by
  rw [run_eq] at read
  obtain ⟨container, opened, rfl⟩ := map_eq_ok_iff.mp read
  exact ⟨container, opened, exists_chunk_of_configured Progress.start member⟩

/-- The configuration of a call was announced by the message that the call is in. -/
theorem announces_of_call {request : Request} (read : run limits buffer = .ok trail)
    (member : .call ⟨config, request⟩ ∈ trail.items) : Announces limits buffer config := by
  rw [run_eq] at read
  obtain ⟨container, opened, rfl⟩ := map_eq_ok_iff.mp read
  obtain ⟨before, chunk, behind, split, -, -, announced⟩ :=
    exists_chunk_of_call Progress.start member
  -- Nothing is in effect at the start of a message.
  obtain ⟨source, earlier, negotiated⟩ := announced.resolve_left (Option.some_ne_none config).symm
  refine ⟨container, opened, source, ?_, negotiated⟩
  rw [split]
  exact List.mem_append_left _ earlier

/-- A message mentions no configuration that it does not announce. -/
theorem Mentions.announces (mentioned : Mentions limits buffer config) :
    Announces limits buffer config := by
  cases mentioned with
  | configured read member => exact announces_of_configured read member
  | called read member => exact announces_of_call read member
  | calls decoded member =>
    obtain ⟨events, read, rfl⟩ := calls_eq_ok_iff.mp decoded
    exact announces_of_call read (call_mem_of_callsOf member)
  | reply decoded =>
    obtain ⟨events, read, said⟩ := reply_eq_ok_iff.mp decoded
    have known := congrArg Reply.config said
    rw [replyOf, config_foldl_noteReply] at known
    have announced := (announced_of_inEffect known).resolve_left (Option.some_ne_none config).symm
    exact announces_of_configured read announced

end Mentions

end Message

namespace Configuration

/-- The terms of configurations are the allowed ones. Numbers, announcements and texts give a
configuration exactly if they put forward its terms, so only for allowed terms and the same one for
the same terms; all allowed terms can be put forward in each way. An announcement of fewer than four
bytes is short, and any other is judged by its first three bytes: the byte order first, then the
width of integers, then that of pointers. The payload of a configuration announces it, whatever
follows. Every configuration is compact, and one that a message mentions was announced in it. -/
theorem sources_agree_on_allowed_terms :
    (∀ terms : Terms, (∃ config : Configuration, config.terms = terms) ↔ terms.Allowed) ∧
    (∀ (source : Source) config,
      source.configuration? = some config ↔ source.PutsForward config.terms) ∧
    (∀ source : Source,
      source.configuration?.isSome ↔ ∃ terms, source.PutsForward terms ∧ terms.Allowed) ∧
    (∀ (source other : Source) terms, source.PutsForward terms → other.PutsForward terms →
      source.configuration? = other.configuration?) ∧
    (∀ terms : Terms, terms.Allowed → ∃ payload text,
      (∀ offset, (Source.announced ⟨.cnfg, offset, payload⟩).PutsForward terms) ∧
      (Source.written text).PutsForward terms) ∧
    (∀ offset payload outcome,
      negotiate ⟨.cnfg, offset, payload⟩ = outcome ↔ Judged payload outcome) ∧
    (∀ (offset offset' : Nat) (int ptr order reserved reserved' : UInt8) (rest rest' : Bytes),
      negotiate ⟨.cnfg, offset, int :: ptr :: order :: reserved :: rest⟩ =
        negotiate ⟨.cnfg, offset', int :: ptr :: order :: reserved' :: rest'⟩) ∧
    (∀ (config : Configuration) (offset : Nat) (rest : Bytes),
      negotiate ⟨.cnfg, offset, config.payload ++ rest⟩ = .ok config) ∧
    (∀ config : Configuration, config.Compact) ∧
    (∀ limits buffer config, Message.Mentions limits buffer config →
      Message.Announces limits buffer config) := by
  refine ⟨fun _ => exists_terms_iff, fun _ _ => Source.configuration?_eq_some_iff,
    fun _ => Source.isSome_configuration?_iff, fun _ _ _ => Source.configuration?_congr, ?_,
    fun _ _ _ => negotiate_eq_iff, ?_, ?_, compact, fun _ _ _ => Message.Mentions.announces⟩
  · intro terms allowed
    obtain ⟨config, rfl⟩ := exists_terms_iff.mpr allowed
    have announced := config.announced_payload []
    rw [List.append_nil] at announced
    exact ⟨config.payload, _, fun _ => ⟨rfl, announced⟩, Source.written_listed config⟩
  · intro offset offset' int ptr order reserved reserved' rest rest'
    rw [negotiate_cons, negotiate_cons]
  · intro config offset rest
    exact negotiate_of_judged offset (.agreed (config.announced_payload rest))

/-- A configuration with its fields out of order, one that is not known, and a nested order. -/
def nestedText : String :=
  "\x7b\"endianness\":\x7b\"Big\":null\x7d,\"x\":[7],\"ptr_size\":4, \"int_size\":2\x7d"

theorem sources_agree_on_nested_text :
    (Source.written nestedText).configuration? = some ⟨.two, .four, .big⟩ ∧
      (Source.announced ⟨.cnfg, 7, [2, 4, 1, 9, 9]⟩).configuration? =
        (Source.written nestedText).configuration? ∧
      negotiate ⟨.cnfg, 0, [3, 5, 2, 0]⟩ = .error (.invalidField .byteOrder 2) := by
  obtain ⟨-, gives, -, agree, -, judged, -⟩ := sources_agree_on_allowed_terms
  have written : (Source.written nestedText).configuration? = some ⟨.two, .four, .big⟩ := by
    decide +kernel
  have announced : (Source.announced ⟨.cnfg, 7, [2, 4, 1, 9, 9]⟩).configuration? =
      some ⟨.two, .four, .big⟩ := by decide
  refine ⟨written, ?_, (judged _ _ _).mpr (.byteOrder rfl (by decide))⟩
  exact agree _ _ _ ((gives _ _).mp announced) ((gives _ _).mp written)

end Configuration

end Semihosting
