import LoxLang.RuntimeError
import LoxLang.Value

/-!
# The store

Frames hold the variables of scopes, objects hold fields. A frame knows the frame it is enclosed
by, which is older than the frame itself.

* `Store.chain`: a frame and the frames around it, the innermost first;
* `Store.get`, `Store.assign`: a variable by name, in the first frame of the chain that binds it;
* `Store.getAt`, `Store.assignAt`: a variable by name in the frame at a given distance.
-/

namespace LoxLang

structure Frame where
  bindings : Bindings Value
  enclosing : Option FrameId

instance : Inhabited Frame := ⟨⟨[], none⟩⟩

structure Object where
  ofClass : Class
  fields : Bindings Value

structure Store where
  frames : Array Frame
  objects : Array Object
  /-- The next stamp for a function or a class. -/
  nextStamp : Nat

namespace Store

/-- Nothing at all. -/
def empty : Store := ⟨#[], #[], 0⟩

/-- The frame of an identity; where there is none, an empty one. -/
def frame (s : Store) (f : FrameId) : Frame := s.frames[f]?.getD ⟨[], none⟩

/-- The frame right around a frame. -/
def enclosing? (s : Store) (f : FrameId) : Option FrameId := (s.frame f).enclosing

/-- What a frame itself binds a name to. -/
def local? (s : Store) (f : FrameId) (name : String) : Option Value :=
  (s.frame f).bindings.find? name

/-- Whether a frame itself binds a name. -/
def binds (s : Store) (f : FrameId) (name : String) : Bool := (s.local? f name).isSome

/-- Adds a frame. -/
def newFrame (s : Store) (enclosing : Option FrameId) (bindings : Bindings Value) :
    FrameId × Store :=
  (s.frames.size, { s with frames := s.frames.push ⟨bindings, enclosing⟩ })

/-- Binds a name in a frame. -/
def define (s : Store) (f : FrameId) (name : String) (value : Value) : Store :=
  { s with frames := s.frames.modify f fun fr =>
      { fr with bindings := fr.bindings.insert name value } }

/-- A frame and the frames around it. -/
def chain (s : Store) (f : FrameId) : List FrameId :=
  match s.enclosing? f with
  | none => [f]
  | some e => if e < f then f :: chain s e else [f]
termination_by f

/-- The first frame of the chain that binds a name. -/
def binder? (s : Store) (f : FrameId) (name : String) : Option FrameId :=
  (s.chain f).find? (s.binds · name)

/-- The variable as seen from a frame. -/
def get (s : Store) (f : FrameId) (name : String) (line : Nat) : Except RuntimeError Value :=
  match (s.binder? f name).bind (s.local? · name) with
  | some value => .ok value
  | none => .error (.undefinedVariable name line)

/-- The frame in which an assignment as seen from a frame takes place. -/
def assignee (s : Store) (f : FrameId) (name : String) (line : Nat) :
    Except RuntimeError FrameId :=
  match s.binder? f name with
  | some b => .ok b
  | none => .error (.undefinedVariable name line)

/-- Assigns to the variable as seen from a frame. -/
def assign (s : Store) (f : FrameId) (name : String) (value : Value) (line : Nat) :
    Except RuntimeError Store :=
  (s.assignee f name line).map fun b => s.define b name value

/-- The frame a number of steps out, or else the number of the step that has no frame. -/
def climb (s : Store) : Nat → FrameId → Except Nat FrameId
  | 0, f => .ok f
  | distance + 1, f =>
    match s.enclosing? f with
    | none => .error 1
    | some e => (climb s distance e).mapError (· + 1)

def ancestor (s : Store) (f : FrameId) (distance : Nat) : Except RuntimeError FrameId :=
  (s.climb distance f).mapError fun step =>
    .unresolved ("<frame " ++ digitsOf step ++ ">") distance

/-- The variable that a frame at a distance binds. -/
def getAt (s : Store) (f : FrameId) (distance : Nat) (name : String) :
    Except RuntimeError Value := do
  match s.local? (← s.ancestor f distance) name with
  | some value => .ok value
  | none => .error (.unresolved name distance)

/-- The frame at a distance, which must bind the name. -/
def assigneeAt (s : Store) (f : FrameId) (distance : Nat) (name : String) :
    Except RuntimeError FrameId := do
  let target ← s.ancestor f distance
  if s.binds target name then return target else throw (.unresolved name distance)

/-- Assigns to the variable that a frame at a distance binds. -/
def assignAt (s : Store) (f : FrameId) (distance : Nat) (name : String) (value : Value) :
    Except RuntimeError Store :=
  (s.assigneeAt f distance name).map fun b => s.define b name value

/-- A function from its declaration, closing over a frame. -/
def newClosure (s : Store) (declaration : FunctionDecl) (frame : FrameId) (isInitializer : Bool) :
    Closure × Store :=
  (⟨s.nextStamp, declaration, frame, isInitializer⟩, { s with nextStamp := s.nextStamp + 1 })

/-- The methods of a class, closing over a frame; the last one of a name counts. -/
def newMethods (frame : FrameId) :
    List FunctionDecl → Bindings Closure → Store → Bindings Closure × Store
  | [], methods, s => (methods, s)
  | f :: rest, methods, s =>
    let (closure, s) := s.newClosure f frame f.isInitializer
    newMethods frame rest (methods.insert f.name.name closure) s

/-- A class from its declaration. -/
def newClass (s : Store) (name : String) (methods : List FunctionDecl) (frame : FrameId) :
    Class × Store :=
  let (methods, s) := newMethods frame methods [] s
  (⟨s.nextStamp, name, methods⟩, { s with nextStamp := s.nextStamp + 1 })

/-- A new object of a class, without fields. -/
def newObject (s : Store) (c : Class) : ObjectId × Store :=
  (s.objects.size, { s with objects := s.objects.push ⟨c, []⟩ })

/-- Sets a field of an object. -/
def setField (s : Store) (o : ObjectId) (name : String) (value : Value) : Store :=
  { s with objects := s.objects.modify o fun obj =>
      { obj with fields := obj.fields.insert name value } }

/-- A method with `this` bound to an object, in a frame of its own. -/
def bindMethod (s : Store) (method : Closure) (o : ObjectId) : Closure × Store :=
  let (frame, s) := s.newFrame (some method.frame) [("this", .object o)]
  s.newClosure method.declaration frame method.isInitializer

/-- What an object has under a name: a field, or else a method of its class. -/
inductive Property
  | field (value : Value)
  | method (f : Closure)

def property (s : Store) (o : ObjectId) (name : Identifier) : Except RuntimeError Property :=
  let obj? := s.objects[o]?
  match obj?.bind (·.fields.find? name.name), obj?.bind (·.ofClass.method? name.name) with
  | some value, _ => .ok (.field value)
  | none, some f => .ok (.method f)
  | none, none => .error (.undefinedProperty name.name name.line)

end Store

end LoxLang
