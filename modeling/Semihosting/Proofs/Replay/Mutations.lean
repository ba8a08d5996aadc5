import Semihosting.Proofs.Outcomes
import Semihosting.Proofs.Replay.Accounting

/-!
# What mutations do

A mutation overwrites four bytes, cuts bytes off the end, appends one to fifteen bytes, or changes
one byte; where there is no byte to change, nothing is. Main statements: these are exactly the forms
to which some generator varies an input (`mutated_iff`), and a run replays each entry and behind it
as many of its mutations as asked for (`varied_inputs`).
-/
namespace Semihosting.Replay

/-- What a mutation can make of an input. -/
inductive Mutated : Bytes → Bytes → Prop
  | overwritten (front back : Bytes) {old new : Bytes} : old.length = 4 → new.length = 4 →
      Mutated (front ++ old ++ back) (front ++ new ++ back)
  | cut (front : Bytes) {back : Bytes} : back ≠ [] → Mutated (front ++ back) front
  | extended (input : Bytes) {tail : Bytes} : tail ≠ [] → tail.length < 16 →
      Mutated input (input ++ tail)
  | changed (front back : Bytes) {old new : UInt8} : new ≠ old →
      Mutated (front ++ old :: back) (front ++ new :: back)
  | untouched : Mutated [] []

/-! ### Every mutation is one of these -/

section

variable [Generator] {α β : Type}

/-- Whatever is drawn, the result is as described. -/
def Yields (draw : Draw α) (holds : α → Prop) : Prop := ∀ state, holds (draw.run state).1

theorem Yields.pure {result : α} {holds : α → Prop} (known : holds result) :
    Yields (Pure.pure result) holds :=
  fun _ => known

theorem Yields.bind {draw : Draw α} {next : α → Draw β} {holds : β → Prop}
    (all : ∀ drawn, Yields (next drawn) holds) : Yields (draw >>= next) holds :=
  fun _ => all _ _

theorem yields_overwriteWindow {input : Bytes} (long : 4 ≤ input.length) :
    Yields (overwriteWindow input) (Mutated input) := by
  refine .bind fun ⟨position, inside⟩ => .bind fun size => .pure ?_
  have split : input.take position ++ (input.drop position).take 4 ++ input.drop (position + 4) =
      input := by
    rw [List.append_assoc, ← List.drop_drop, List.take_append_drop, List.take_append_drop]
  have window : ((input.drop position).take 4).length = 4 := by
    rw [List.length_take, List.length_drop]
    omega
  have mutated := Mutated.overwritten (input.take position) (input.drop (position + 4)) window
    (Bytes.length_ofNat 4 size.toNat)
  rwa [split] at mutated

theorem yields_cutEnd {input : Bytes} (room : 0 < input.length) :
    Yields (cutEnd input room) (Mutated input) := by
  refine .bind fun ⟨length, _, short⟩ => .pure ?_
  have rest : input.drop length ≠ [] := by simp [short]
  have mutated := Mutated.cut (input.take length) rest
  rwa [List.take_append_drop] at mutated

theorem yields_appendBytes (input : Bytes) : Yields (appendBytes input) (Mutated input) := by
  refine .bind fun ⟨count, least, most⟩ => .bind fun ⟨tail, length⟩ => .pure ?_
  have nonempty : tail ≠ [] := List.length_pos_iff.mp (Nat.lt_of_lt_of_eq least length.symm)
  exact .extended input nonempty (Nat.lt_of_le_of_lt (Nat.le_of_eq length) most)

theorem yields_flipByte (input : Bytes) : Yields (flipByte input) (Mutated input) := by
  refine .bind fun ⟨position, _, below⟩ => ?_
  dsimp only
  split
  next inside =>
    refine .bind fun ⟨mask, nonzero⟩ => .pure ?_
    have split : input.take position ++ input[position] :: input.drop (position + 1) = input := by
      rw [List.getElem_cons_drop, List.take_append_drop]
    have differs : input[position] ^^^ mask ≠ input[position] := by
      intro same
      apply nonzero
      rwa [← UInt8.xor_right_inj, UInt8.xor_zero]
    have mutated := Mutated.changed (input.take position) (input.drop (position + 1)) differs
    rw [split] at mutated
    rwa [List.modify_eq_take_cons_drop inside]
  next outside =>
    -- A position was drawn for an input without bytes.
    have empty : input = [] := List.eq_nil_of_length_eq_zero (by
      have : Nat.max input.length 1 = max input.length 1 := rfl
      omega)
    subst empty
    exact .pure .untouched

/-- Whatever is drawn on the way, the outcome is a mutation of the input. -/
theorem yields_mutate (input : Bytes) : Yields (mutate input) (Mutated input) := by
  refine .bind fun way => ?_
  match way with
  | 0 =>
    dsimp only
    split
    next long => exact yields_overwriteWindow long
    · exact yields_flipByte input
  | 1 =>
    dsimp only
    split
    next room => exact yields_cutEnd room
    · exact yields_flipByte input
  | 2 => exact yields_appendBytes input
  | 3 => exact yields_flipByte input

end

/-! ### Some generator gives each of these -/

section

variable {generator : Generator} {input : Bytes} {state after : generator.State}

theorem run_mutate_zero (drawn : generator.way.run state = (0, after)) (long : 4 ≤ input.length) :
    (mutate input).run state = (overwriteWindow input).run after := by
  rw [mutate, run_bind, drawn]
  dsimp only
  rw [if_pos long]

theorem run_mutate_one (drawn : generator.way.run state = (1, after)) (room : 0 < input.length) :
    (mutate input).run state = (cutEnd input room).run after := by
  rw [mutate, run_bind, drawn]
  dsimp only
  rw [dif_pos room]

theorem run_mutate_two (drawn : generator.way.run state = (2, after)) :
    (mutate input).run state = (appendBytes input).run after := by
  rw [mutate, run_bind, drawn]

theorem run_mutate_three (drawn : generator.way.run state = (3, after)) :
    (mutate input).run state = (flipByte input).run after := by
  rw [mutate, run_bind, drawn]

end

/-- Draws that are settled beforehand, so far as they are in range. -/
structure Script where
  way : Fin 4
  /-- The way that is drawn second. -/
  next : Fin 4
  number : Nat
  word : UInt32
  mask : {mask : UInt8 // mask ≠ 0}
  bytes : Bytes

/-- The generator that draws what a script says. -/
abbrev scripted : Generator where
  State := Script
  ofSeed _ := ⟨0, 0, 0, 0, ⟨1, by decide⟩, []⟩
  way script := (script.way, { script with way := script.next })
  upTo last script :=
    (if fits : script.number ≤ last then ⟨script.number, fits⟩ else ⟨0, Nat.zero_le last⟩, script)
  between least bound room script :=
    (if fits : least ≤ script.number ∧ script.number < bound then ⟨script.number, fits⟩
      else ⟨least, Nat.le_refl least, room⟩, script)
  word script := (script.word, script)
  mask script := (script.mask, script)
  bytes count script :=
    (if fits : script.bytes.length = count then ⟨script.bytes, fits⟩
      else ⟨List.replicate count 0, List.length_replicate⟩, script)

section

variable {input : Bytes} {script : Script}

theorem scripted_upTo {last : Nat} (fits : script.number ≤ last) :
    (scripted.upTo last).run script = (⟨script.number, fits⟩, script) :=
  Prod.ext (dif_pos fits) rfl

theorem scripted_between {least bound : Nat} (room : least < bound)
    (fits : least ≤ script.number ∧ script.number < bound) :
    (scripted.between least bound room).run script = (⟨script.number, fits⟩, script) :=
  Prod.ext (dif_pos fits) rfl

theorem scripted_bytes {count : Nat} (fits : script.bytes.length = count) :
    (scripted.bytes count).run script = (⟨script.bytes, fits⟩, script) :=
  Prod.ext (dif_pos fits) rfl

theorem scripted_overwriteWindow (word : script.way = 3) (fits : script.number ≤ input.length - 4) :
    ((@overwriteWindow scripted input).run script).1 =
      input.take script.number ++ Bytes.ofNat 4 script.word.toNat ++
        input.drop (script.number + 4) := by
  have hostile : ((@hostileSize scripted).run script).1 = script.word := by
    obtain ⟨way, next, number, size, mask, bytes⟩ := script
    subst word
    rfl
  unfold overwriteWindow
  rw [run_bind, scripted_upTo fits, run_bind, hostile]
  rfl

theorem scripted_cutEnd (fits : script.number < input.length) (room : 0 < input.length) :
    ((@cutEnd scripted input room).run script).1 = input.take script.number := by
  unfold cutEnd
  rw [run_bind, scripted_between room ⟨Nat.zero_le _, fits⟩]
  rfl

theorem scripted_appendBytes (fits : 1 ≤ script.number ∧ script.number < 16)
    (counted : script.bytes.length = script.number) :
    ((@appendBytes scripted input).run script).1 = input ++ script.bytes := by
  unfold appendBytes
  rw [run_bind, scripted_between _ fits, run_bind, scripted_bytes counted]
  rfl

theorem scripted_flipByte (inside : script.number < input.length) :
    ((@flipByte scripted input).run script).1 =
      input.modify script.number fun byte => byte ^^^ script.mask := by
  have fits : script.number < Nat.max input.length 1 :=
    Nat.lt_of_lt_of_le inside (Nat.le_max_left _ _)
  unfold flipByte
  rw [run_bind, scripted_between _ ⟨Nat.zero_le _, fits⟩]
  dsimp only
  rw [if_pos inside]
  rfl

end

/-- No mutation is out of reach: some generator draws what it takes. -/
theorem exists_generator {input output : Bytes} (mutated : Mutated input output) :
    ∃ (generator : Generator) (state : generator.State), ((mutate input).run state).1 = output := by
  -- One generator is enough, since its states settle the draws.
  refine ⟨scripted, ?_⟩
  cases mutated with
  | @overwritten front back old new four four' =>
    have long : 4 ≤ (front ++ old ++ back).length := by simp; omega
    have fits : front.length ≤ (front ++ old ++ back).length - 4 := by simp; omega
    have word : Bytes.ofNat 4 (UInt32.ofNat (Bytes.toNat new)).toNat = new := by
      have small := Bytes.toNat_lt new
      rw [four'] at small
      rw [UInt32.toNat_ofNat_of_lt' small, ← four', Bytes.ofNat_toNat]
    have behind : (front ++ old ++ back).drop (front.length + 4) = back := by
      rw [← four, ← List.length_append, List.drop_left]
    refine ⟨⟨0, 3, front.length, .ofNat (Bytes.toNat new), ⟨1, by decide⟩, []⟩, ?_⟩
    rw [run_mutate_zero rfl long, scripted_overwriteWindow rfl fits, word, behind,
      List.append_assoc front old, List.take_left]
  | @cut _ back rest =>
    have short : output.length < (output ++ back).length := by
      simpa using List.length_pos_iff.mpr rest
    have room : 0 < (output ++ back).length := Nat.zero_lt_of_lt short
    refine ⟨⟨1, 0, output.length, 0, ⟨1, by decide⟩, []⟩, ?_⟩
    rw [run_mutate_one rfl room, scripted_cutEnd short, List.take_left]
  | @extended _ tail nonempty short =>
    have fits : 1 ≤ tail.length ∧ tail.length < 16 := ⟨List.length_pos_iff.mpr nonempty, short⟩
    refine ⟨⟨2, 0, tail.length, 0, ⟨1, by decide⟩, tail⟩, ?_⟩
    rw [run_mutate_two rfl, scripted_appendBytes fits rfl]
  | @changed front back old new differs =>
    have mask : old ^^^ new ≠ 0 := by
      intro zero
      apply differs
      rw [← UInt8.xor_right_inj, zero, UInt8.xor_self]
    have flipped : old ^^^ (old ^^^ new) = new := by
      rw [← UInt8.xor_assoc, UInt8.xor_self, UInt8.zero_xor]
    have inside : front.length < (front ++ old :: back).length := by simp
    refine ⟨⟨3, 0, front.length, 0, ⟨old ^^^ new, mask⟩, []⟩, ?_⟩
    rw [run_mutate_three rfl, scripted_flipByte inside, List.modify_eq_take_cons_drop inside]
    simp [flipped]
  | untouched => exact ⟨⟨3, 0, 0, 0, ⟨1, by decide⟩, []⟩, rfl⟩

/-- An input can be varied to exactly its mutations. -/
theorem mutated_iff {input output : Bytes} :
    Mutated input output ↔
      ∃ (generator : Generator) (state : generator.State), ((mutate input).run state).1 = output := by
  constructor
  · exact exists_generator
  · rintro ⟨generator, state, rfl⟩
    exact yields_mutate input state

/-! ### Runs -/

/-- Each entry of a corpus, and behind it so many of its mutations. -/
inductive Varied (iterations : Nat) : List Entry → List Bytes → Prop
  | nil : Varied iterations [] []
  | cons {entry : Entry} {rest : List Entry} {forms later : List Bytes} :
      forms.length = iterations → (∀ form ∈ forms, Mutated entry.bytes form) →
      Varied iterations rest later → Varied iterations (entry :: rest) (entry.bytes :: forms ++ later)

theorem mutated_of_mem_variations [Generator] (input : Bytes) (count : Nat)
    (state : Generator.State) :
    ∀ form ∈ (variations mutate input count state).1, Mutated input form := by
  induction count with
  | zero => simp [variations]
  | succ count ih =>
    rw [variations, List.forall_mem_append, List.forall_mem_singleton]
    exact ⟨ih, yields_mutate input _⟩

/-- The inputs of a run are the entries and their mutations, whatever is drawn. -/
theorem varied_inputs [Generator] (iterations : Nat) (corpus : List Entry)
    (state : Generator.State) :
    Varied iterations corpus (inputs mutate iterations corpus state).1 := by
  induction corpus generalizing state with
  | nil => exact .nil
  | cons entry rest ih =>
    exact .cons (length_variations mutate entry.bytes iterations state)
      (mutated_of_mem_variations entry.bytes iterations state) (ih _)

end Semihosting.Replay
