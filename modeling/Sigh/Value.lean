import Sigh.Ty
import Sigh.Fault

namespace Sigh

/-- A value of a running program. -/
inductive Value where
  | int (value : Int64)
  | float (value : Float)
  | bool (value : Bool)
  | str (value : String)
  | null
  | array (addr : Nat)
  | struct (addr : Nat)
  | closure (fn : Nat) (frame : Nat)
  | method (receiver : Nat) (fn : Nat)
  | print
  | ctor (decl : Nat) (frame : Nat)
  | type (t : Ty)
  deriving Repr, Inhabited

namespace Value

/-- The short name of the value's kind, used in fault messages. -/
def kindName : Value → String
  | int _ => "Int"
  | float _ => "Float"
  | bool _ => "Bool"
  | str _ => "String"
  | null => "Null"
  | array _ => "array"
  | struct _ => "struct"
  | closure .. | method .. | print | ctor .. => "function"
  | type _ => "Type"

/-- `==` of the language: numbers by value, an integer beside a float as a float, strings by
content, arrays and instances by address, functions by code and frame. -/
def equals : Value → Value → Bool
  | int a, int b => a == b
  | float a, float b => a == b
  | int a, float b => a.toFloat == b
  | float a, int b => a == b.toFloat
  | bool a, bool b => a == b
  | str a, str b => a == b
  | null, null => true
  | print, print => true
  | array a, array b => a == b
  | struct a, struct b => a == b
  | closure f e, closure g d => f == g && e == d
  | method r f, method s g => r == s && f == g
  | ctor a e, ctor b d => a == b && e == d
  | type a, type b => a == b
  | _, _ => false

/-- The initial value of a variable of type `t` in a sized array. -/
def default : Ty → Value
  | .int => int 0
  | .float => float 0.0
  | .bool => bool false
  | _ => null

end Value

/-- What a heap address holds. -/
inductive Object where
  | array (items : Array Value)
  | inst (decl : Nat) (frame : Nat) (fields : Array Value)
  deriving Repr, Inhabited

/-- The frame of one running scope: its slots, the frame of the enclosing scope, and for a
method's receiver frame, the receiver instance. -/
structure Frame where
  slots : Array Value
  parent : Option Nat
  receiver : Option Nat
  deriving Repr, Inhabited

/-- The state of a running program: heap objects and frames by address, and the output so far. -/
structure Machine where
  objects : Array Object
  frames : Array Frame
  output : String
  deriving Inhabited

namespace Machine

/-- A machine with nothing allocated and no output. -/
def empty : Machine := ⟨#[], #[], ""⟩

/-- Stores an object at a fresh address. -/
def alloc (m : Machine) (o : Object) : Nat × Machine :=
  (m.objects.size, { m with objects := m.objects.push o })

/-- The elements of the array at `addr`. -/
def items? (m : Machine) (addr : Nat) : Option (Array Value) :=
  match m.objects[addr]? with
  | some (.array items) => some items
  | _ => none

/-- The struct instance at `addr`: its declaration, frame and fields. -/
def inst? (m : Machine) (addr : Nat) : Option (Nat × Nat × Array Value) :=
  match m.objects[addr]? with
  | some (.inst decl frame fields) => some (decl, frame, fields)
  | _ => none

/-- Stores a frame at a fresh address. -/
def pushFrame (m : Machine) (f : Frame) : Nat × Machine :=
  (m.frames.size, { m with frames := m.frames.push f })

/-- The frame `hops` parents up from `frame`. -/
def ancestor (m : Machine) (frame : Nat) : Nat → Except Fault Nat
  | 0 => .ok frame
  | hops + 1 =>
    match m.frames[frame]?.bind (·.parent) with
    | some parent => m.ancestor parent hops
    | none => .error (.internal "scope chain is shorter than expected")

/-- The value in a slot of a frame. -/
def slot (m : Machine) (frame slot : Nat) : Except Fault Value :=
  match m.frames[frame]?.bind (·.slots[slot]?) with
  | some v => .ok v
  | none => .error (.internal "variable slot out of range")

/-- Checks that a frame has a slot. -/
def slotExists (m : Machine) (frame slot : Nat) : Except Fault Unit :=
  if (m.frames[frame]?.map fun f => decide (slot < f.slots.size)).getD false then .ok ()
  else .error (.internal "variable slot out of range")

/-- Stores a value in a slot of a frame; a slot that does not exist is left alone. -/
def writeSlot (m : Machine) (frame slot : Nat) (v : Value) : Machine :=
  { m with frames := m.frames.modify frame fun f => { f with slots := f.slots.setIfInBounds slot v } }

/-- The receiver instance of a method's receiver frame. -/
def receiverOf (m : Machine) (frame : Nat) : Except Fault Nat :=
  match m.frames[frame]?.bind (·.receiver) with
  | some r => .ok r
  | none => .error (.internal "method frame without a receiver")

/-- The fields of the instance at `addr`. -/
def fields (m : Machine) (addr : Nat) : Array Value :=
  match m.inst? addr with
  | some (_, _, fs) => fs
  | none => #[]

/-- Checks that the instance at `addr` has a field. -/
def fieldExists (m : Machine) (addr field : Nat) : Except Fault Unit :=
  match m.objects[addr]? with
  | some (.inst _ _ fs) => if field < fs.size then .ok () else .error (.internal "unknown field")
  | _ => .error (.internal "unknown field")

/-- Stores a value in a field of the instance at `addr`; a field that does not exist is left
alone. -/
def writeField (m : Machine) (addr field : Nat) (v : Value) : Machine :=
  { m with objects := m.objects.modify addr fun o =>
      match o with
      | .inst decl frame fs => .inst decl frame (fs.setIfInBounds field v)
      | other => other }

/-- Stores a value at a position of the array at `addr`; a position that does not exist is left
alone. -/
def writeItem (m : Machine) (addr index : Nat) (v : Value) : Machine :=
  { m with objects := m.objects.modify addr fun o =>
      match o with
      | .array items => .array (items.setIfInBounds index v)
      | other => other }

theorem alloc_fst (m : Machine) (o : Object) : (m.alloc o).1 = m.objects.size := rfl

theorem alloc_objects (m : Machine) (o : Object) :
    (m.alloc o).2.objects = m.objects.push o := rfl

theorem alloc_frames (m : Machine) (o : Object) : (m.alloc o).2.frames = m.frames := rfl

theorem pushFrame_fst (m : Machine) (f : Frame) : (m.pushFrame f).1 = m.frames.size := rfl

theorem pushFrame_frames (m : Machine) (f : Frame) :
    (m.pushFrame f).2.frames = m.frames.push f := rfl

theorem pushFrame_objects (m : Machine) (f : Frame) : (m.pushFrame f).2.objects = m.objects := rfl

theorem writeSlot_objects (m : Machine) (frame slot : Nat) (v : Value) :
    (m.writeSlot frame slot v).objects = m.objects := rfl

theorem writeSlot_frames_size (m : Machine) (frame slot : Nat) (v : Value) :
    (m.writeSlot frame slot v).frames.size = m.frames.size := by
  simp [writeSlot]

theorem writeField_frames (m : Machine) (addr field : Nat) (v : Value) :
    (m.writeField addr field v).frames = m.frames := rfl

theorem writeField_objects_size (m : Machine) (addr field : Nat) (v : Value) :
    (m.writeField addr field v).objects.size = m.objects.size := by
  simp [writeField]

theorem writeItem_frames (m : Machine) (addr index : Nat) (v : Value) :
    (m.writeItem addr index v).frames = m.frames := rfl

theorem writeItem_objects_size (m : Machine) (addr index : Nat) (v : Value) :
    (m.writeItem addr index v).objects.size = m.objects.size := by
  simp [writeItem]

end Machine

/-- Computations on the machine that may stop with a fault. -/
abbrev Op := ExceptT Fault (StateM Machine)

/-- Allocates an array holding `items`. -/
def newArray (items : Array Value) : Op Value :=
  modifyGet fun m => let (a, m) := m.alloc (.array items); (.array a, m)

/-- The elements of an array value; `null` is a null pointer with the given context. -/
def arrayItems (v : Value) (context : String) : Op (Array Value) := do
  match v with
  | .array addr =>
    match (← get).items? addr with
    | some items => pure items
    | none => throw (.internal "unknown array")
  | .null => throw (.nullPointer context)
  | other => throw (.unsupportedOperands ("expected an array, found " ++ other.kindName))

end Sigh
