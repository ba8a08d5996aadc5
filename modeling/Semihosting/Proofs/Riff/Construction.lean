import Semihosting.Proofs.Riff.Recognition
import Semihosting.Riff.Script

/-!
# What scripts build

A script completes frames in the order of its steps until it is abandoned. The payload of a nested
step is its header and the frames of its own steps; if these are abandoned, the step completes no
frame and the script goes on. This meaning is defined on trees of steps, without a writer. Main
results: a writer holds the frames of the completed steps behind what it held before, a nested step
that fails leaves no trace in it, and walking the region gives the completed steps back at every
depth (`script_builds_completed_steps`).
-/
namespace Semihosting.Riff

namespace Step

/-- The fault with which steps are given up at their own level, if they are. -/
def abandonment (steps : List Step) : Option Fault :=
  steps.findSome? fun
    | .abandon fault => some fault
    | _ => none

/-- The frames that steps complete until they are given up. -/
def frames : List Step → List Frame
  | [] => []
  | .push tag payload :: rest => ⟨tag, payload⟩ :: frames rest
  | .nested tag header inner :: rest =>
    if (abandonment inner).isSome then frames rest
    else ⟨tag, header ++ (frames inner).flatMap Frame.bytes⟩ :: frames rest
  | .abandon _ :: _ => []
termination_by steps => sizeOf steps
decreasing_by
  all_goals
    simp only [List.cons.sizeOf_spec, push.sizeOf_spec, nested.sizeOf_spec]
    omega

/-- The region that the frames of completed steps make up. -/
def region (steps : List Step) : Bytes := (frames steps).flatMap Frame.bytes

/-- The records that steps leave on a writer of the given length. A nested step comes behind its
own steps, which run on a writer that holds the header. -/
def recordsFrom (length : Nat) : List Step → List Record
  | [] => []
  | .push _ payload :: rest =>
    ⟨length + Frame.span payload.length, none⟩ ::
      recordsFrom (length + Frame.span payload.length) rest
  | .nested _ header inner :: rest =>
    recordsFrom header.length inner ++
      match abandonment inner with
      | none =>
        ⟨length + Frame.span (header.length + (region inner).length), none⟩ ::
          recordsFrom (length + Frame.span (header.length + (region inner).length)) rest
      | some fault => ⟨length, some fault⟩ :: recordsFrom length rest
  | .abandon _ :: _ => []
termination_by steps => sizeOf steps
decreasing_by
  all_goals
    simp only [List.cons.sizeOf_spec, push.sizeOf_spec, nested.sizeOf_spec]
    omega

/-- All payloads in a tree of steps are shorter than 4 GiB. -/
inductive Fits : List Step → Prop
  | nil : Fits []
  | push {tag payload rest} : payload.length < offsetSpace → Fits rest →
      Fits (.push tag payload :: rest)
  | nested {tag header inner rest} : header.length + (region inner).length < offsetSpace →
      Fits inner → Fits rest → Fits (.nested tag header inner :: rest)
  | abandon {fault rest} : Fits rest → Fits (.abandon fault :: rest)

/-- Chunks are what walking the region of some steps gives back: those that were completed, in
order, and behind the header of a nested one the chunks of its own steps. -/
inductive GivesBack : List Step → List Chunk → Prop
  | nil : GivesBack [] []
  | push {tag payload rest offset chunks} : GivesBack rest chunks →
      GivesBack (.push tag payload :: rest) (⟨tag, offset, payload⟩ :: chunks)
  | nested {tag header inner rest offset payload found chunks} : abandonment inner = none →
      payload.take header.length = header →
      (Walk.whole (payload.drop header.length)).trail = ⟨found, none⟩ → GivesBack inner found →
      GivesBack rest chunks →
      GivesBack (.nested tag header inner :: rest) (⟨tag, offset, payload⟩ :: chunks)
  | dropped {tag header inner rest fault chunks} : abandonment inner = some fault →
      GivesBack rest chunks → GivesBack (.nested tag header inner :: rest) chunks
  | abandon {fault rest} : GivesBack (.abandon fault :: rest) []

/-! ### Steps in order -/

@[simp] theorem abandonment_nil : abandonment [] = none := rfl

@[simp] theorem abandonment_push (tag : FourCC) (payload : Bytes) (rest : List Step) :
    abandonment (.push tag payload :: rest) = abandonment rest := rfl

@[simp] theorem abandonment_nested (tag : FourCC) (header : Bytes) (inner rest : List Step) :
    abandonment (.nested tag header inner :: rest) = abandonment rest := rfl

@[simp] theorem abandonment_abandon (fault : Fault) (rest : List Step) :
    abandonment (.abandon fault :: rest) = some fault := rfl

theorem abandonment_append (before behind : List Step) :
    abandonment (before ++ behind) = (abandonment before).or (abandonment behind) :=
  List.findSome?_append

section

variable {tag : FourCC} {header payload : Bytes} {inner rest : List Step}

theorem frames_completed (completed : abandonment inner = none) :
    frames (.nested tag header inner :: rest) = ⟨tag, header ++ region inner⟩ :: frames rest := by
  rw [frames, completed]
  rfl

theorem frames_dropped {fault : Fault} (dropped : abandonment inner = some fault) :
    frames (.nested tag header inner :: rest) = frames rest := by
  rw [frames, dropped]
  rfl

@[simp] theorem region_nil : region [] = [] := by rw [region, frames, List.flatMap_nil]

@[simp] theorem region_push :
    region (.push tag payload :: rest) = (Frame.mk tag payload).bytes ++ region rest := by
  rw [region, frames, List.flatMap_cons, region]

theorem region_completed (completed : abandonment inner = none) :
    region (.nested tag header inner :: rest) =
      (Frame.mk tag (header ++ region inner)).bytes ++ region rest := by
  rw [region, frames_completed completed, List.flatMap_cons]
  rfl

theorem region_dropped {fault : Fault} (dropped : abandonment inner = some fault) :
    region (.nested tag header inner :: rest) = region rest := by
  rw [region, frames_dropped dropped, region]

@[simp] theorem region_abandon (fault : Fault) : region (.abandon fault :: rest) = [] := by
  rw [region, frames, List.flatMap_nil]

end

/-- What is behind steps that are not given up is carried out in its turn. -/
theorem frames_append {before behind : List Step} (alive : abandonment before = none) :
    frames (before ++ behind) = frames before ++ frames behind := by
  induction before with
  | nil => rw [frames, List.nil_append, List.nil_append]
  | cons first rest ih =>
    cases first with
    | push tag payload => rw [List.cons_append, frames, frames, ih alive, List.cons_append]
    | nested tag header inner =>
      rw [List.cons_append, frames, frames, ih alive]
      cases abandonment inner <;> rfl
    | abandon fault => cases alive

/-- Unless some steps are abandoned, their region goes on with that of the steps behind them. -/
theorem region_append {before behind : List Step} (alive : abandonment before = none) :
    region (before ++ behind) = region before ++ region behind := by
  rw [region, frames_append alive, List.flatMap_append, region, region]

theorem fits_append {before behind : List Step} :
    Fits (before ++ behind) ↔ Fits before ∧ Fits behind := by
  induction before with
  | nil => exact ⟨fun small => ⟨.nil, small⟩, And.right⟩
  | cons first rest ih =>
    constructor
    · intro small
      cases small with
      | push fits others => exact ⟨.push fits (ih.mp others).1, (ih.mp others).2⟩
      | nested fits inside others =>
        exact ⟨.nested fits inside (ih.mp others).1, (ih.mp others).2⟩
      | abandon others => exact ⟨.abandon (ih.mp others).1, (ih.mp others).2⟩
    · rintro ⟨front, back⟩
      cases front with
      | push fits others => exact .push fits (ih.mpr ⟨others, back⟩)
      | nested fits inside others => exact .nested fits inside (ih.mpr ⟨others, back⟩)
      | abandon others => exact .abandon (ih.mpr ⟨others, back⟩)

end Step

/-! ### Running a script -/

theorem Writer.length_append (bytes : Bytes) (frame : Frame) :
    (Writer.mk (bytes ++ frame.bytes)).length =
      (Writer.mk bytes).length + Frame.span frame.payload.length := by
  rw [Writer.length, List.length_append, Frame.length_bytes]
  rfl

namespace Script

open Step

/-- A script that hands a frame to its writer goes on behind it. -/
theorem complete_push (script : Script) {tag : FourCC} {payload : Bytes}
    (fits : payload.length < offsetSpace) :
    script.complete (script.writer.push tag payload) =
      ⟨⟨script.writer.bytes ++ (Frame.mk tag payload).bytes⟩,
        script.records ++ [⟨script.writer.length + Frame.span payload.length, none⟩],
        script.abandoned⟩ := by
  rw [Writer.push_eq_ok fits, complete, Writer.length_append]

theorem run_cons_of_alive {script : Script} {first : Step} {rest : List Step}
    (alive : (step script first).abandoned = none) :
    run script (first :: rest) = run (step script first) rest := by
  rw [run]
  simp only [alive, Option.isSome_none, Bool.false_eq_true, if_false]

theorem step_push (script : Script) (tag : FourCC) {payload : Bytes}
    (fits : payload.length < offsetSpace) :
    step script (.push tag payload) =
      ⟨⟨script.writer.bytes ++ (Frame.mk tag payload).bytes⟩,
        script.records ++ [⟨script.writer.length + Frame.span payload.length, none⟩],
        script.abandoned⟩ := by
  rw [step, complete_push _ fits]

/-- A nested region that was built to its end becomes a frame. -/
theorem step_completed (script : Script) (tag : FourCC) {header parts : Bytes} {inner : List Step}
    {records : List Step.Record} (fits : header.length + parts.length < offsetSpace)
    (built : run (start ⟨header⟩) inner = ⟨⟨header ++ parts⟩, records, none⟩) :
    step script (.nested tag header inner) =
      ⟨⟨script.writer.bytes ++ (Frame.mk tag (header ++ parts)).bytes⟩,
        script.records ++ records ++
          [⟨script.writer.length + Frame.span (header.length + parts.length), none⟩],
        script.abandoned⟩ := by
  rw [← List.length_append] at fits
  rw [step, built]
  simp only [Script.built, Writer.pushNested, Except.bind, ← List.length_append]
  exact complete_push { script with records := script.records ++ records } fits

/-- A nested region that is given up leaves its records and nothing else. -/
theorem step_dropped (script : Script) (tag : FourCC) {header : Bytes} {inner : List Step}
    {writer : Writer} {records : List Step.Record} {fault : Fault}
    (built : run (start ⟨header⟩) inner = ⟨writer, records, some fault⟩) :
    step script (.nested tag header inner) =
      ⟨script.writer, script.records ++ records ++ [⟨script.writer.length, some fault⟩],
        script.abandoned⟩ := by
  rw [step, built]
  rfl

/-- A script that runs on a writer leaves there what its steps mean. -/
theorem run_eq {steps : List Step} (small : Fits steps) (script : Script)
    (alive : script.abandoned = none) :
    run script steps =
      ⟨⟨script.writer.bytes ++ region steps⟩,
        script.records ++ recordsFrom script.writer.length steps, abandonment steps⟩ := by
  -- The induction goes into the nested steps as well as along the list.
  induction small generalizing script with
  | nil =>
    rw [run, region_nil, recordsFrom, List.append_nil, List.append_nil, abandonment_nil, ← alive]
  | @push tag payload rest fits _ ih =>
    have pushed := step_push script tag fits
    rw [alive] at pushed
    rw [run_cons_of_alive (by rw [pushed]), pushed, ih _ rfl]
    simp only [region_push, recordsFrom, abandonment_push, Writer.length_append,
      List.append_assoc, List.singleton_append]
  | @nested tag header inner rest fits _ _ ihInner ih =>
    have built := ihInner (start ⟨header⟩) rfl
    cases given : abandonment inner with
    | none =>
      rw [given] at built
      have completed := step_completed script tag fits built
      rw [alive] at completed
      rw [run_cons_of_alive (by rw [completed]), completed, ih _ rfl]
      simp only [region_completed given, recordsFrom, given, abandonment_nested,
        Writer.length_append, List.length_append, List.append_assoc, List.singleton_append]
      rfl
    | some fault =>
      rw [given] at built
      have dropped := step_dropped script tag built
      rw [alive] at dropped
      rw [run_cons_of_alive (by rw [dropped]), dropped, ih _ rfl]
      simp only [region_dropped given, recordsFrom, given, abandonment_nested,
        List.append_assoc, List.singleton_append]
      rfl
  | @abandon fault rest _ _ =>
    rw [run, step]
    simp only [Option.isSome_some, if_true, region_abandon, recordsFrom, abandonment_abandon,
      List.append_nil]

theorem writer_run {steps : List Step} (small : Fits steps) (writer : Writer) :
    (run (start writer) steps).writer = ⟨writer.bytes ++ region steps⟩ := by
  rw [run_eq small _ rfl]
  rfl

/-- A nested region that is given up makes its step fail and stays without effect. -/
theorem run_dropped {before behind inner : List Step} {tag : FourCC} {header : Bytes}
    {fault : Fault} (small : Fits (before ++ .nested tag header inner :: behind))
    (alive : abandonment before = none) (dropped : abandonment inner = some fault)
    (writer : Writer) :
    (∀ reached : Writer,
      reached.pushNested tag header (fun inside => (run (start inside) inner).built) =
        .error fault) ∧
    (run (start writer) (before ++ [.nested tag header inner])).writer =
      (run (start writer) before).writer ∧
    (run (start writer) (before ++ .nested tag header inner :: behind)).writer =
      (run (start writer) (before ++ behind)).writer ∧
    (run (start writer) (before ++ .nested tag header inner :: behind)).abandoned =
      (run (start writer) (before ++ behind)).abandoned := by
  obtain ⟨front, back⟩ := fits_append.mp small
  -- Payloads stay small when the step is left out and when the script ends with it.
  have without : Fits (before ++ behind) := by
    cases back with
    | nested _ _ others => exact fits_append.mpr ⟨front, others⟩
  have upTo : Fits (before ++ [.nested tag header inner]) := by
    cases back with
    | nested fits inside _ => exact fits_append.mpr ⟨front, .nested fits inside .nil⟩
  refine ⟨?_, ?_, ?_, ?_⟩
  · intro reached
    cases back with
    | nested _ inside _ =>
      rw [Writer.pushNested, run_eq inside _ rfl, dropped]
      rfl
  · rw [writer_run upTo, writer_run front, region_append alive, region_dropped dropped, region_nil,
      List.append_nil]
  · rw [writer_run small, writer_run without, region_append alive, region_append alive,
      region_dropped dropped]
  · rw [run_eq small _ rfl, run_eq without _ rfl]
    simp only [abandonment_append, abandonment_nested]

end Script

/-! ### Walking what was built -/

/-- A chunk as it is written, wherever it stands. -/
def Chunk.frame (chunk : Chunk) : Frame := ⟨chunk.tag, chunk.payload⟩

theorem WireFrame.map_frame_chunksFrom (offset : Nat) (wires : List WireFrame) :
    (chunksFrom offset wires).map Chunk.frame = wires.map toFrame := by
  induction wires generalizing offset with
  | nil => rfl
  | cons wire rest ih =>
    rw [chunksFrom_cons, List.map_cons, List.map_cons, ih]
    rfl

namespace Step

open WireFrame (chunksFrom)

theorem exists_trail {steps : List Step} (short : (region steps).length < offsetSpace) :
    ∃ wires : List WireFrame, wires.map WireFrame.toFrame = frames steps ∧
      (Walk.whole (region steps)).trail = ⟨chunksFrom 0 wires, none⟩ := by
  obtain ⟨wires, same, bytes⟩ := WireFrame.exists_wires short
  refine ⟨wires, same, ?_⟩
  rw [region, ← bytes] at short ⊢
  exact Walk.trail_whole_concat short

/-- The walk of a region gives back the payload of every completed step, and inside a nested one the
steps that it was made of. -/
theorem givesBack_chunksFrom {steps : List Step} (small : Fits steps) {wires : List WireFrame}
    (offset : Nat) (same : wires.map WireFrame.toFrame = frames steps) :
    GivesBack steps (chunksFrom offset wires) := by
  induction small generalizing wires offset with
  | nil =>
    rw [frames, List.map_eq_nil_iff] at same
    subst same
    exact .nil
  | push _ _ ih =>
    rw [frames, List.map_eq_cons_iff] at same
    obtain ⟨wire, others, rfl, frame, same⟩ := same
    rw [WireFrame.chunksFrom_cons, WireFrame.chunkAt, frame]
    exact .push (ih _ same)
  | @nested tag header inner rest fits _ _ ihInner ih =>
    cases given : abandonment inner with
    | none =>
      rw [frames_completed given, List.map_eq_cons_iff] at same
      obtain ⟨wire, others, rfl, frame, same⟩ := same
      -- Behind its header the payload is a region of its own.
      have short : (region inner).length < offsetSpace := by omega
      obtain ⟨found, parts, trail⟩ := exists_trail short
      rw [WireFrame.chunksFrom_cons, WireFrame.chunkAt, frame]
      refine .nested given List.take_left ?_ (ihInner 0 parts) (ih _ same)
      rw [List.drop_left]
      exact trail
    | some fault =>
      rw [frames_dropped given] at same
      exact .dropped given (ih _ same)
  | abandon _ _ =>
    rw [frames, List.map_eq_nil_iff] at same
    subst same
    exact .abandon

end Step

section

open Step

/-- A script leaves its writer with the frames of its completed steps behind what was there, and at
every point the writer is as long as these bytes. A nested step whose own steps are given up fails
with their fault, leaves the writer as it was, and later steps run as if it had not been tried.
Walking what was built gives back the completed steps, and walking the payload of a nested one
behind its header gives back its own, down to every depth. -/
theorem script_builds_completed_steps {steps : List Step} (small : Fits steps) (writer : Writer) :
    Script.run (.start writer) steps =
      ⟨⟨writer.bytes ++ region steps⟩, recordsFrom writer.length steps, abandonment steps⟩ ∧
    (∀ before behind, steps = before ++ behind →
      (Script.run (.start writer) before).writer = ⟨writer.bytes ++ region before⟩ ∧
      (Script.run (.start writer) before).writer.length =
        writer.length + (region before).length) ∧
    (∀ before tag header inner behind fault, steps = before ++ .nested tag header inner :: behind →
      abandonment before = none → abandonment inner = some fault →
      (∀ reached : Writer,
        reached.pushNested tag header (fun inside => (Script.run (.start inside) inner).built) =
          .error fault) ∧
      (Script.run (.start writer) (before ++ [.nested tag header inner])).writer =
        (Script.run (.start writer) before).writer ∧
      (Script.run (.start writer) steps).writer =
        (Script.run (.start writer) (before ++ behind)).writer ∧
      (Script.run (.start writer) steps).abandoned =
        (Script.run (.start writer) (before ++ behind)).abandoned) ∧
    ((region steps).length < offsetSpace → ∃ chunks,
      (Walk.whole (Script.run (.start .empty) steps).writer.bytes).trail = ⟨chunks, none⟩ ∧
      chunks.map Chunk.frame = frames steps ∧ GivesBack steps chunks) := by
  refine ⟨Script.run_eq small _ rfl, ?_, ?_, ?_⟩
  · rintro before behind rfl
    rw [Script.writer_run (fits_append.mp small).1]
    exact ⟨rfl, List.length_append⟩
  · rintro before tag header inner behind fault rfl alive dropped
    exact Script.run_dropped small alive dropped writer
  · intro short
    obtain ⟨wires, same, trail⟩ := exists_trail short
    refine ⟨WireFrame.chunksFrom 0 wires, ?_, ?_, givesBack_chunksFrom small 0 same⟩
    · rw [Script.writer_run small]
      exact trail
    · rw [WireFrame.map_frame_chunksFrom, same]

/-- The steps of a region with an odd header, a failure at either level, and no proper end. -/
def tangled : List Step :=
  [.push .data [7],
    .nested .call [1, 2, 3]
      [.push .parm [9], .nested .data [] [.push .parm [], .abandon .duplicateData]],
    .nested .retn [4] [.push .data [5], .abandon .notConfigured],
    .push .parm [],
    .abandon .duplicateData,
    .push .data [6]]

theorem fits_tangled : Fits tangled := by
  refine .push (by decide) (.nested ?_ (.push (by decide) (.nested ?_ ?_ .nil)) (.nested ?_ ?_
    (.push (by decide) (.abandon (.push (by decide) .nil)))))
  · rw [region_push, region_dropped rfl, region_nil]
    decide
  · rw [region_push, region_abandon]
    decide
  · exact .push (by decide) (.abandon .nil)
  · rw [region_push, region_abandon]
    decide
  · exact .push (by decide) (.abandon .nil)

theorem script_builds_tangled :
    Fits tangled ∧
    (Script.run (.start .empty) tangled).abandoned = some .duplicateData ∧
    (Script.run (.start .empty) tangled).writer =
      (Script.run (.start .empty) [.push .data [7], .nested .call [1, 2, 3] [.push .parm [9]],
        .push .parm []]).writer ∧
    (region tangled).length < offsetSpace ∧
    ∃ chunks, (Walk.whole (Script.run (.start .empty) tangled).writer.bytes).trail =
      ⟨chunks, none⟩ ∧ GivesBack tangled chunks := by
  obtain ⟨whole, -, atomic, walked⟩ := script_builds_completed_steps fits_tangled .empty
  have short : (region tangled).length < offsetSpace := by
    have built : (Script.run (.start .empty) tangled).writer.bytes = region tangled := by
      rw [whole]
      rfl
    rw [← built]
    decide +kernel
  obtain ⟨chunks, trail, -, back⟩ := walked short
  obtain ⟨-, -, without, -⟩ := atomic
    [.push .data [7], .nested .call [1, 2, 3]
      [.push .parm [9], .nested .data [] [.push .parm [], .abandon .duplicateData]]]
    .retn [4] [.push .data [5], .abandon .notConfigured] _ .notConfigured rfl rfl rfl
  refine ⟨fits_tangled, ?_, ?_, short, chunks, trail, back⟩
  · rw [whole]
    rfl
  · rw [without]
    decide +kernel

end

end Semihosting.Riff
