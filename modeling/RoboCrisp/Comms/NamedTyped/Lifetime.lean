import RoboCrisp.Comms.Module
import RoboCrisp.Comms.NamedTyped.Lemmas

namespace RoboCrisp.Comms

open RoboCrisp.Stream RoboCrisp.Util

-- The states that inputs and sensors pass through from their construction on.

-- reset() of decl-defn-macros.hh. The length of the name stays behind.
def NamedTyped.reset (obj : NamedTyped) : NamedTyped := { obj with name := none, owns_name := false }

namespace ModuleInput

def reset (mi : ModuleInput) : ModuleInput := { mi with toNamedTyped := mi.toNamedTyped.reset }

-- What the move constructor and operator =(ModuleInput&&) leave of their argument, and what an
-- assignment of the object to itself leaves. The object that is moved to is as the argument was.
def movedFrom (mi : ModuleInput) : ModuleInput := { mi with name := none }

def moveAssignedFrom (mi : ModuleInput) : ModuleInput := { mi with name := none, owns_name := false }

def moveSelf (mi : ModuleInput) : ModuleInput := mi.reset

inductive Reached [Heap] : ModuleInput → Prop
  | empty : Reached ModuleInput.empty
  | declare (name : Option CString) (id : UInt8) (data_type : DataDeclaration) (owns_name : Bool) :
      Reached (ModuleInput.declare name id data_type owns_name)
  | copy {mi mi' : ModuleInput} (h : Reached mi) (hcopy : mi.copy = some mi') : Reached mi'
  | moved_from {mi : ModuleInput} (h : Reached mi) : Reached mi.movedFrom
  | move_assigned_from {mi : ModuleInput} (h : Reached mi) : Reached mi.moveAssignedFrom
  | move_self {mi : ModuleInput} (h : Reached mi) : Reached mi.moveSelf
  | reset {mi : ModuleInput} (h : Reached mi) : Reached mi.reset
  | decode {buf buf' : DecodeBuffer} {r : DecodeResult} {out : ModuleInput}
      (hdecode : ModuleInput.decode buf = some ((r, out), buf')) : Reached out
  | renumber {mi : ModuleInput} (id : UInt8) (h : Reached mi) : Reached { mi with input_id := id }

end ModuleInput

-- A pointer behind which there is at least the name. A null pointer is never followed.
def Readable (name : Option Bytes) (name_length : UInt8) : Prop :=
  name = none ∨ ∃ chars, NameIs name name_length chars

namespace Sensor

def reset (s : Sensor) : Sensor := { s with toNamedTyped := s.toNamedTyped.reset }

-- Sensor<>::Sensor(uint16_t, SensorType, SensorReportingMode, uint8_t, DataType&&, const char*)
def construct (id : BitVec 10) (type : SensorType) (mode : SensorReportingMode) (name_length : UInt8)
    (data_type : DataDeclaration) (name : Option Bytes) : Sensor where
  name_length := name_length
  data_type := data_type
  name := name
  owns_name := false
  id := id
  type := type.code
  reporting_mode := mode.code

-- What the move constructor and operator =(Sensor&&) leave of their argument, also when that is
-- the object itself. The pointer stays.
def movedFrom (s : Sensor) : Sensor := { s with owns_name := false }

-- A name that another object owns has been deleted there.
def released (s : Sensor) : Sensor := { s with name := s.name.map fun _ => [] }

inductive Reached [Heap] : Sensor → Prop
  | empty : Reached Sensor.empty
  | construct (id : BitVec 10) (type : SensorType) (mode : SensorReportingMode) {name_length : UInt8}
      (data_type : DataDeclaration) {name : Option Bytes} (hname : Readable name name_length) :
      Reached (Sensor.construct id type mode name_length data_type name)
  | copy {s s' : Sensor} (h : Reached s) (hcopy : s.copy = some s') : Reached s'
  | moved_from {s : Sensor} (h : Reached s) : Reached s.movedFrom
  | released {s : Sensor} (h : Reached s) (howns : s.owns_name = false) : Reached s.released
  | reset {s : Sensor} (h : Reached s) : Reached s.reset
  | decode {buf buf' : DecodeBuffer} {r : DecodeResult} {out : Sensor}
      (hdecode : Sensor.decode buf = some ((r, out), buf')) : Reached out
  | renumber {s : Sensor} (id : BitVec 10) (h : Reached s) : Reached { s with id }

end Sensor

theorem NameCopied.readable {owns_name : Bool} {name_length : UInt8} {name name' : Option Bytes}
    (h : NameCopied owns_name name_length name name') (hname : Readable name name_length) :
    Readable name' name_length := by
  cases h with
  | shared _ => exact hname
  | owned _ _ hcopy => exact .inr ⟨_, nameIs_of_length (length_strncpy hcopy)⟩

-- An input never has a pointer to less than its name.
theorem ModuleInput.Reached.readable [Heap] {mi : ModuleInput} (h : mi.Reached) :
    Readable mi.name mi.name_length := by
  induction h with
  | empty => exact .inl rfl
  | declare name id data_type owns_name =>
      exact .inr (NamedTyped.spelled_ofName name data_type owns_name)
  | copy _ hcopy ih =>
      obtain ⟨named, hnamed, hcopy⟩ := Option.bind_eq_some_iff.mp hcopy
      obtain rfl := Option.some.inj hcopy
      obtain ⟨name, hcopied, rfl⟩ := NamedTyped.copy_cases hnamed
      exact hcopied.readable ih
  | moved_from _ _ => exact .inl rfl
  | move_assigned_from _ _ => exact .inl rfl
  | move_self _ _ => exact .inl rfl
  | reset _ _ => exact .inl rfl
  | decode hdecode =>
      obtain ⟨out, _, hout, hdecode⟩ := bind_eq_some_iff.mp hdecode
      obtain ⟨hpair, -⟩ := Prod.mk.inj (pure_eq_some_iff.mp hdecode)
      obtain ⟨-, rfl⟩ := Prod.mk.inj hpair
      exact .inr (yields_spelled _ _ _ hout)
  | renumber id _ ih => exact ih

-- A sensor that owns its name never has a pointer to less than that.
theorem Sensor.Reached.readable [Heap] {s : Sensor} (h : s.Reached) (howns : s.owns_name = true) :
    Readable s.name s.name_length := by
  induction h with
  | empty => exact .inl rfl
  | construct id type mode data_type hname => exact hname
  | copy _ hcopy ih =>
      obtain ⟨named, hnamed, hcopy⟩ := Option.bind_eq_some_iff.mp hcopy
      obtain rfl := Option.some.inj hcopy
      obtain ⟨name, hcopied, rfl⟩ := NamedTyped.copy_cases hnamed
      exact hcopied.readable (ih howns)
  | moved_from _ _ => cases howns
  | released _ hborrowed _ =>
      exact absurd (hborrowed.symm.trans howns) (by simp)
  | reset _ _ => exact .inl rfl
  | decode hdecode =>
      obtain ⟨out, _, hout, hdecode⟩ := bind_eq_some_iff.mp hdecode
      obtain ⟨hpair, -⟩ := Prod.mk.inj (pure_eq_some_iff.mp hdecode)
      obtain ⟨-, rfl⟩ := Prod.mk.inj hpair
      exact .inr (yields_spelled _ _ _ hout)
  | renumber id _ ih => exact ih howns

end RoboCrisp.Comms
