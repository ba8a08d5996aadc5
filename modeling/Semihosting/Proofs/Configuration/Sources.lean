import Semihosting.Json.Forms
import Semihosting.Proofs.Json.Records
import Semihosting.Proofs.Outcomes

/-!
# Where configurations come from

A configuration is made from numbers, from the payload of a chunk or from a JSON text. Each of them
puts forward terms, which may ask for widths that no configuration has. Main statements: a source
gives a configuration exactly if it puts forward that configuration's terms
(`Source.configuration?_eq_some_iff`), so sources that put forward the same terms give the same
(`Source.configuration?_congr`); and a chunk is judged by its first three bytes in a fixed order
(`negotiate_eq_iff`).
-/
namespace Semihosting

open Riff (Chunk)

/-- Two widths in bytes and a byte order, whether a configuration can have them or not. -/
structure Terms where
  intSize : Nat
  ptrSize : Nat
  order : ByteOrder
  deriving DecidableEq, Repr

def widths : List Nat := [1, 2, 4, 8]

def Terms.Allowed (terms : Terms) : Prop :=
  terms.intSize ∈ widths ∧ terms.ptrSize ∈ widths

def Configuration.terms (config : Configuration) : Terms :=
  ⟨config.intSize.bytes, config.ptrSize.bytes, config.order⟩

theorem Width.exists_bytes_iff {bytes : Nat} :
    (∃ width : Width, width.bytes = bytes) ↔ bytes ∈ widths := by
  constructor
  · rintro ⟨width, rfl⟩
    cases width <;> decide
  · intro member
    simp only [widths, List.mem_cons, List.not_mem_nil, or_false] at member
    rcases member with rfl | rfl | rfl | rfl
    exacts [⟨.one, rfl⟩, ⟨.two, rfl⟩, ⟨.four, rfl⟩, ⟨.eight, rfl⟩]

namespace Configuration

/-- Terms are those of a configuration exactly if they are allowed. -/
theorem exists_terms_iff {terms : Terms} :
    (∃ config : Configuration, config.terms = terms) ↔ terms.Allowed := by
  rw [Terms.Allowed, ← Width.exists_bytes_iff, ← Width.exists_bytes_iff]
  constructor
  · rintro ⟨config, rfl⟩
    exact ⟨⟨config.intSize, rfl⟩, ⟨config.ptrSize, rfl⟩⟩
  · rintro ⟨⟨int, ints⟩, ⟨ptr, ptrs⟩⟩
    refine ⟨⟨int, ptr, terms.order⟩, ?_⟩
    simp [Configuration.terms, ints, ptrs]

end Configuration

/-! ### What a payload puts forward -/

/-- The first three of at least four bytes put the terms forward. -/
def Terms.Announced (terms : Terms) (payload : Bytes) : Prop :=
  ∃ (intSize ptrSize order reserved : UInt8) (rest : Bytes),
    payload = intSize :: ptrSize :: order :: reserved :: rest ∧
      intSize.toNat = terms.intSize ∧ ptrSize.toNat = terms.ptrSize ∧ order = terms.order.code

theorem ByteOrder.code_injective {left right : ByteOrder} (same : left.code = right.code) :
    left = right := by
  cases left <;> cases right <;> first | rfl | cases same

/-- A payload announces one set of terms at most. -/
theorem Terms.Announced.unique {terms other : Terms} {payload : Bytes}
    (announced : terms.Announced payload) (also : other.Announced payload) : terms = other := by
  obtain ⟨int, ptr, order, reserved, rest, rfl, ints, ptrs, orders⟩ := announced
  obtain ⟨_, _, _, _, _, same, ints', ptrs', orders'⟩ := also
  cases same
  obtain ⟨intSize, ptrSize, order⟩ := terms
  cases ByteOrder.code_injective (orders.symm.trans orders')
  simp_all

/-- The payload of a configuration announces its terms, whatever follows it. -/
theorem Configuration.announced_payload (config : Configuration) (rest : Bytes) :
    config.terms.Announced (config.payload ++ rest) := by
  obtain ⟨intSize, ptrSize, order⟩ := config
  refine ⟨_, _, _, _, rest, rfl, ?_, ?_, rfl⟩
  · cases intSize <;> rfl
  · cases ptrSize <;> rfl

namespace Configuration

/-- How a payload is judged: its length first, then the byte order, then the two widths. -/
inductive Judged (payload : Bytes) : Except Fault Configuration → Prop
  | short : payload.length < 4 → Judged payload (.error (.shortPayload .cnfg 4 payload.length))
  | byteOrder {int ptr order reserved rest} :
      payload = int :: ptr :: order :: reserved :: rest → order.toNat ∉ [0, 1] →
      Judged payload (.error (.invalidField .byteOrder order.toNat))
  | intSize {int ptr order reserved rest} :
      payload = int :: ptr :: order :: reserved :: rest → order.toNat ∈ [0, 1] →
      int.toNat ∉ widths → Judged payload (.error (.invalidField .intSize int.toNat))
  | ptrSize {int ptr order reserved rest} :
      payload = int :: ptr :: order :: reserved :: rest → order.toNat ∈ [0, 1] →
      int.toNat ∈ widths → ptr.toNat ∉ widths →
      Judged payload (.error (.invalidField .ptrSize ptr.toNat))
  | agreed {config : Configuration} : config.terms.Announced payload → Judged payload (.ok config)

end Configuration

theorem ByteOrder.exists_code_iff {code : UInt8} :
    (∃ order : ByteOrder, order.code = code) ↔ code.toNat ∈ [0, 1] := by
  constructor
  · rintro ⟨order, rfl⟩
    cases order <;> decide
  · intro member
    simp only [List.mem_cons, List.not_mem_nil, or_false] at member
    rcases member with zero | one
    · exact ⟨.little, UInt8.toNat_inj.mp zero.symm⟩
    · exact ⟨.big, UInt8.toNat_inj.mp one.symm⟩

theorem ByteOrder.ofCode?_eq_none_iff {code : UInt8} :
    ofCode? code = none ↔ code.toNat ∉ [0, 1] := by
  rw [← exists_code_iff, Option.eq_none_iff_forall_ne_some]
  simp only [ne_eq, ofCode?_eq_some_iff, not_exists, eq_comm (a := code)]

theorem Width.ofBytes?_eq_none_iff {bytes : Nat} : ofBytes? bytes = none ↔ bytes ∉ widths := by
  rw [← exists_bytes_iff, Option.eq_none_iff_forall_ne_some]
  simp only [ne_eq, ofBytes?_eq_some_iff, not_exists, eq_comm (a := bytes)]

namespace Configuration

theorem make_eq_ok_iff_terms {terms : Terms} {config : Configuration} :
    make terms.intSize terms.ptrSize terms.order = .ok config ↔ config.terms = terms := by
  obtain ⟨int, ptr, order⟩ := terms
  rw [make_eq_ok_iff, Configuration.terms, Terms.mk.injEq]
  simp only [eq_comm]

theorem make_of_intSize {intSize ptrSize : Nat} {order : ByteOrder} (bad : intSize ∉ widths) :
    make intSize ptrSize order = .error (.invalidField .intSize intSize) := by
  rw [make, checkWidth, Width.ofBytes?_eq_none_iff.mpr bad]
  rfl

theorem make_of_ptrSize {intSize ptrSize : Nat} {order : ByteOrder} (good : intSize ∈ widths)
    (bad : ptrSize ∉ widths) :
    make intSize ptrSize order = .error (.invalidField .ptrSize ptrSize) := by
  obtain ⟨width, rfl⟩ := Width.exists_bytes_iff.mpr good
  simp only [make, checkWidth, Width.ofBytes?_bytes, Width.ofBytes?_eq_none_iff.mpr bad]
  rfl

theorem negotiate_cons (offset : Nat) (int ptr order reserved : UInt8) (rest : Bytes) :
    negotiate ⟨.cnfg, offset, int :: ptr :: order :: reserved :: rest⟩ =
      match ByteOrder.ofCode? order with
      | none => .error (.invalidField .byteOrder order.toNat)
      | some order => make int.toNat ptr.toNat order := rfl

/-- Negotiation comes to the outcome of the judgement. -/
theorem negotiate_of_judged {payload : Bytes} {outcome : Except Fault Configuration} (offset : Nat)
    (judged : Judged payload outcome) : negotiate ⟨.cnfg, offset, payload⟩ = outcome := by
  cases judged with
  -- The payload is taken apart as far as negotiation looks at it.
  | short short =>
    match payload with
    | [] | [_] | [_, _] | [_, _, _] => rfl
    | int :: ptr :: order :: reserved :: rest =>
      simp only [List.length_cons] at short
      omega
  | byteOrder split bad =>
    rw [split, negotiate_cons, ByteOrder.ofCode?_eq_none_iff.mpr bad]
  | intSize split named bad =>
    obtain ⟨order, rfl⟩ := ByteOrder.exists_code_iff.mpr named
    rw [split, negotiate_cons, ByteOrder.ofCode?_code]
    exact make_of_intSize bad
  | ptrSize split named good bad =>
    obtain ⟨order, rfl⟩ := ByteOrder.exists_code_iff.mpr named
    rw [split, negotiate_cons, ByteOrder.ofCode?_code]
    exact make_of_ptrSize good bad
  | agreed announced =>
    obtain ⟨int, ptr, order, reserved, rest, rfl, ints, ptrs, rfl⟩ := announced
    rw [negotiate_cons, ByteOrder.ofCode?_code, ints, ptrs]
    exact make_eq_ok_iff_terms.mpr rfl

/-- Every payload is judged, so negotiation has no outcome other than those. -/
theorem exists_judged (payload : Bytes) : ∃ outcome, Judged payload outcome := by
  match payload with
  | [] | [_] | [_, _] | [_, _, _] => exact ⟨_, .short (by simp)⟩
  | int :: ptr :: code :: reserved :: rest =>
    by_cases named : code.toNat ∈ [0, 1]
    · by_cases ints : int.toNat ∈ widths
      · by_cases ptrs : ptr.toNat ∈ widths
        · obtain ⟨order, rfl⟩ := ByteOrder.exists_code_iff.mpr named
          obtain ⟨config, same⟩ := exists_terms_iff.mpr
            (show Terms.Allowed ⟨int.toNat, ptr.toNat, order⟩ from ⟨ints, ptrs⟩)
          exact ⟨.ok config, .agreed ⟨_, _, _, _, _, rfl, by simp [same]⟩⟩
        · exact ⟨_, .ptrSize rfl named ints ptrs⟩
      · exact ⟨_, .intSize rfl named ints⟩
    · exact ⟨_, .byteOrder rfl named⟩

/-- The byte order is judged before the widths, and the integer width before the pointer width. -/
theorem negotiate_eq_iff {offset : Nat} {payload : Bytes} {outcome : Except Fault Configuration} :
    negotiate ⟨.cnfg, offset, payload⟩ = outcome ↔ Judged payload outcome := by
  constructor
  · rintro rfl
    obtain ⟨outcome, judged⟩ := exists_judged payload
    rwa [negotiate_of_judged offset judged]
  · exact negotiate_of_judged offset

/-- A chunk is negotiated exactly if it is tagged for it and announces the terms. -/
theorem negotiate_eq_ok_iff {chunk : Chunk} {config : Configuration} :
    negotiate chunk = .ok config ↔ chunk.tag = .cnfg ∧ config.terms.Announced chunk.payload := by
  obtain ⟨tag, offset, payload⟩ := chunk
  by_cases known : tag = .cnfg
  · subst known
    rw [negotiate_eq_iff]
    constructor
    · intro judged
      cases judged with
      | agreed announced => exact ⟨rfl, announced⟩
    · rintro ⟨-, announced⟩
      exact .agreed announced
  · simp [negotiate, known]

end Configuration

/-! ### What a text puts forward -/

/-- An order is spelled as its name, or as an object that gives its name a null. -/
inductive ByteOrder.Spelled (order : ByteOrder) : Json → Prop
  | name : Spelled order (.ofText order.name)
  | variant : Spelled order (.object [(some order.name, .scalar .null)])

/-- A record of all three fields, the widths as integers, puts the terms forward. -/
def Terms.Recorded (terms : Terms) (json : Json) : Prop :=
  ∃ order, terms.order.Spelled order ∧ json.Gives Configuration.fieldNames
    [some (.ofNat terms.intSize), some (.ofNat terms.ptrSize), some order]

namespace ByteOrder

theorem ofName?_eq_some_iff {name : String} {order : ByteOrder} :
    ofName? name = some order ↔ name = order.name := by
  unfold ofName?
  constructor
  · intro named
    split at named
    next little =>
      cases named
      exact little
    · split at named
      next big =>
        cases named
        exact big
      · cases named
  · rintro rfl
    cases order <;> decide

theorem ofJson?_eq_some_iff {json : Json} {order : ByteOrder} :
    ofJson? json = some order ↔ order.Spelled json := by
  constructor
  · intro read
    unfold ofJson? at read
    split at read
    next name =>
      rw [ofName?_eq_some_iff.mp read]
      exact .name
    next object _ =>
      split at read
      next name found =>
        rw [Json.variant?_eq_some_iff.mp found, ofName?_eq_some_iff.mp read]
        exact .variant
      · cases read
  · intro spelled
    cases spelled with
    | name => exact ofName?_eq_some_iff.mpr rfl
    | variant => exact ofName?_eq_some_iff.mpr rfl

end ByteOrder

theorem Json.naturalBelow?_eq_some_iff {bound value : Nat} {json : Json} :
    json.naturalBelow? bound = some value ↔ json = .ofNat value ∧ value < bound := by
  constructor
  · intro read
    obtain ⟨number, found, rfl⟩ := Option.map_eq_some_iff.mp read
    obtain ⟨rfl, natural, below⟩ := integerWithin?_eq_some_iff.mp found
    obtain ⟨value, rfl⟩ := Int.eq_ofNat_of_zero_le natural
    refine ⟨rfl, ?_⟩
    simp only [Int.toNat_natCast]
    omega
  · rintro ⟨rfl, below⟩
    have found : (ofNat value).integerWithin? 0 ((bound : Int) - 1) = some (value : Int) :=
      integerWithin?_eq_some_iff.mpr ⟨rfl, by omega, by omega⟩
    rw [naturalBelow?, found]
    rfl

theorem lt_of_mem_widths {bytes : Nat} (member : bytes ∈ widths) : bytes < 256 := by
  revert bytes
  decide

namespace Configuration

theorem terms_allowed (config : Configuration) : config.terms.Allowed :=
  exists_terms_iff.mp ⟨config, rfl⟩

/-- Reading a record judges it as strictly as negotiating does. -/
theorem ofJson?_eq_some_iff {json : Json} {config : Configuration} :
    ofJson? json = some config ↔ config.terms.Recorded json := by
  constructor
  · intro read
    unfold ofJson? at read
    split at read
    next fields =>
      simp only [Option.bind_eq_bind, Option.bind_eq_some_iff, toOption_eq_some_iff,
        Json.naturalBelow?_eq_some_iff, make_eq_ok_iff] at read
      obtain ⟨_, ⟨rfl, -⟩, _, ⟨rfl, -⟩, _, spelled, rfl, rfl, rfl⟩ := read
      exact ⟨_, ByteOrder.ofJson?_eq_some_iff.mp spelled, Json.record?_eq_some_iff.mp fields⟩
    · cases read
  · rintro ⟨order, spelled, gives⟩
    -- The widths of a configuration are small enough for the bytes that are read.
    obtain ⟨ints, ptrs⟩ := config.terms_allowed
    have int := Json.naturalBelow?_eq_some_iff.mpr ⟨rfl, lt_of_mem_widths ints⟩
    have ptr := Json.naturalBelow?_eq_some_iff.mpr ⟨rfl, lt_of_mem_widths ptrs⟩
    rw [ofJson?, Json.record?_eq_some_iff.mpr gives]
    simp only [int, ptr, ByteOrder.ofJson?_eq_some_iff.mpr spelled, Option.bind_eq_bind,
      Option.bind_some, toOption_eq_some_iff]
    exact make_eq_ok_iff_terms.mpr rfl

end Configuration

theorem Json.ofNat_injective {left right : Nat} (same : ofNat left = ofNat right) :
    left = right := by
  have numbers : (left : Int) = right := by simpa [ofNat, ofInt] using same
  exact Int.ofNat.inj numbers

theorem ByteOrder.Spelled.unique {order other : ByteOrder} {json : Json}
    (spelled : order.Spelled json) (also : other.Spelled json) : order = other :=
  Option.some.inj ((ofJson?_eq_some_iff.mpr spelled).symm.trans (ofJson?_eq_some_iff.mpr also))

theorem Terms.Recorded.unique {terms other : Terms} {json : Json} (recorded : terms.Recorded json)
    (also : other.Recorded json) : terms = other := by
  obtain ⟨_, spelled, gives⟩ := recorded
  obtain ⟨_, spelled', gives'⟩ := also
  -- A value gives its names no two lists of values.
  have fields :=
    (Json.record?_eq_some_iff.mpr gives).symm.trans (Json.record?_eq_some_iff.mpr gives')
  simp only [Option.some.injEq, List.cons.injEq, and_true] at fields
  obtain ⟨ints, ptrs, rfl⟩ := fields
  rw [Terms.mk.injEq]
  exact ⟨Json.ofNat_injective ints, Json.ofNat_injective ptrs, spelled.unique spelled'⟩

/-! ### Sources -/

inductive Source where
  | given (terms : Terms)
  | announced (chunk : Chunk)
  | written (text : String)

namespace Source

def configuration? : Source → Option Configuration
  | given terms => (Configuration.make terms.intSize terms.ptrSize terms.order).toOption
  | announced chunk => (Configuration.negotiate chunk).toOption
  | written text => (Json.read? text).bind Configuration.ofJson?

/-- The terms that a source puts forward. -/
def PutsForward (terms : Terms) : Source → Prop
  | given own => own = terms
  | announced chunk => chunk.tag = .cnfg ∧ terms.Announced chunk.payload
  | written text => ∃ json, Json.read? text = some json ∧ terms.Recorded json

/-- A source gives a configuration if it puts forward the terms of that configuration. -/
theorem configuration?_eq_some_iff {source : Source} {config : Configuration} :
    source.configuration? = some config ↔ source.PutsForward config.terms := by
  cases source with
  | given terms =>
    rw [configuration?, toOption_eq_some_iff, Configuration.make_eq_ok_iff_terms]
    exact eq_comm
  | announced chunk =>
    rw [configuration?, toOption_eq_some_iff]
    exact Configuration.negotiate_eq_ok_iff
  | written text =>
    simp only [configuration?, PutsForward, Option.bind_eq_some_iff,
      Configuration.ofJson?_eq_some_iff]

theorem PutsForward.unique {source : Source} {terms other : Terms}
    (forward : source.PutsForward terms) (also : source.PutsForward other) : terms = other := by
  cases source with
  | given _ => exact forward.symm.trans also
  | announced chunk => exact forward.2.unique also.2
  | written text =>
    obtain ⟨json, read, recorded⟩ := forward
    obtain ⟨_, read', recorded'⟩ := also
    cases read.symm.trans read'
    exact recorded.unique recorded'

/-- A source gives a configuration exactly if it puts forward terms that are allowed. -/
theorem isSome_configuration?_iff {source : Source} :
    source.configuration?.isSome ↔ ∃ terms, source.PutsForward terms ∧ terms.Allowed := by
  rw [Option.isSome_iff_exists]
  constructor
  · rintro ⟨config, made⟩
    exact ⟨config.terms, configuration?_eq_some_iff.mp made, config.terms_allowed⟩
  · rintro ⟨terms, forward, allowed⟩
    obtain ⟨config, rfl⟩ := Configuration.exists_terms_iff.mpr allowed
    exact ⟨config, configuration?_eq_some_iff.mpr forward⟩

/-- Which of its sources terms come from makes no difference. -/
theorem configuration?_congr {source other : Source} {terms : Terms}
    (forward : source.PutsForward terms) (also : other.PutsForward terms) :
    source.configuration? = other.configuration? := by
  apply Option.ext
  intro config
  rw [configuration?_eq_some_iff, configuration?_eq_some_iff]
  constructor
  · intro here
    rwa [here.unique forward]
  · intro there
    rwa [there.unique also]

end Source

end Semihosting
