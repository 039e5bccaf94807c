import RoboCrisp.Comms.Module

namespace RoboCrisp.Comms

open RoboCrisp.Stream RoboCrisp.Util

structure Configuration where
  num_modules : UInt8
  modules : SArray Module
  next_module_id : UInt8
deriving DecidableEq

-- What add_module passes on to a constructor of Module.
inductive ModuleArgs
  | none
  | declare (name : Option CString) (inputs_capacity sensors_capacity : UInt8)
  | copy (m : Module)

-- The arguments go by value through add_module and emplace before they reach the
-- constructor, so that a module is copied three times.
def ModuleArgs.construct : ModuleArgs → Option Module
  | .none => some Module.empty
  | .declare name inputs_capacity sensors_capacity =>
      some (Module.declare name inputs_capacity sensors_capacity)
  | .copy m => m.copy >>= Module.copy >>= Module.copy

namespace Configuration

-- offsetof(Configuration, modules)
def HeaderSize : Nat := 1

-- Configuration(uint8_t modules_alloc)
def empty (modules_alloc : UInt8) : Configuration where
  num_modules := 0
  modules := .alloc modules_alloc.toNat
  next_module_id := 0

def reset (c : Configuration) : Configuration where
  num_modules := 0
  modules := c.modules.clear
  next_module_id := 0

-- The copy constructor.
def copy (c : Configuration) : Option Configuration := do
  let modules ← c.modules.copy Module.copy
  return { c with modules }

-- What a move out of the object leaves of it. Only the array is touched.
def movedFrom (c : Configuration) : Configuration := { c with modules := c.modules.movedFrom }

-- operator =(const Configuration&) from another object, and from the object itself
def assign (c o : Configuration) : Option Configuration := do
  let modules ← c.modules.assign Module.copy o.modules
  return { num_modules := o.num_modules, modules, next_module_id := o.next_module_id }

def assignSelf (c : Configuration) : Configuration := { c with modules := c.modules.assignSelf }

-- operator =(Configuration&&) from another object, and from the object itself
def moveAssign (_ o : Configuration) : Configuration := o

def moveSelf (c : Configuration) : Configuration := { c with modules := c.modules.moveSelf }

def get_encoded_size (c : Configuration) : Option Nat :=
  (List.range c.num_modules.toNat).foldlM (fun out i => do
    let m ← c.modules.get i
    let size ← m.get_encoded_size
    return out + size) HeaderSize

-- The loop over the modules that returns the first failure.
def encode_modules : List Module → Encode
  | [] => pure .SUCCESS
  | m :: rest => m.encode.andThen (encode_modules rest)

def encode (c : Configuration) : Encode :=
  (write [c.num_modules]).andThen do
    let modules ← StateT.lift c.modules.elems
    encode_modules modules

-- if ( (r = modules.emplace().decode(buf)) != DecodeResult::SUCCESS ) return r;
def decode_module [Heap] : DecodeResult × SArray Module → Decode (DecodeResult × SArray Module)
  | (r, modules) =>
      if r ≠ .SUCCESS then return (r, modules)
      else do
        let (r, m) ← Module.empty.decode
        let modules ← StateT.lift (modules.push m)
        return (r, modules)

def decode [Heap] (c : Configuration) : Decode (DecodeResult × Configuration) := do
  let c := c.reset
  match ← read 1 with
  | some [num_modules] => do
      let c := { c with num_modules, modules := c.modules.ensure_capacity num_modules.toNat }
      let (r, modules) ← Decoder.iterate decode_module num_modules.toNat (.SUCCESS, c.modules)
      return (r, { c with modules })
  | _ => return (.BUFFER_UNDERFLOW, c)

-- TranscodeAsType out; out.decode(buf); return out;
def decode_copy [Heap] : Decode Configuration := do
  let (_, out) ← (empty 0).decode
  return out

-- operator ==
def eq (c o : Configuration) : Option Bool :=
  if c.num_modules = o.num_modules then eqEach Module.eq c.modules o.modules c.num_modules.toNat
  else some false

-- The id is set in place after the element has been constructed.
def add_module (c : Configuration) (args : ModuleArgs) : Option Configuration := do
  let out ← args.construct
  let modules ← c.modules.push { out with id := c.next_module_id }
  return { num_modules := c.num_modules + 1, modules, next_module_id := c.next_module_id + 1 }

-- A call of `f` on the module at index `i`.
def update (c : Configuration) (i : Nat) (f : Module → Option Module) : Option Configuration := do
  let m ← c.modules.get i
  let m ← f m
  let modules ← c.modules.modify i fun _ => m
  return { c with modules }

end Configuration

end RoboCrisp.Comms
