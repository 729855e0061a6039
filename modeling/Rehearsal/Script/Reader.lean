import Rehearsal.Script.Syntax

/-! Scripts read from JSON. -/

namespace Rehearsal.Script
set_option autoImplicit false

/-- A field as a value; one that is missing has the value given. -/
def valueField (name : String) (missing : Value) (j : Json) : Value :=
  ((j.field? name).map Value.ofJson).getD missing

def textField (name missing : String) (j : Json) : String :=
  ((j.field? name).bind Json.str?).getD missing

def textField? (name : String) (j : Json) : Option String := (j.field? name).bind Json.str?

def listField (name : String) (j : Json) : List Json := ((j.field? name).map Json.items).getD []

def flagField (name : String) (j : Json) : Bool := ((j.field? name).bind Json.bool?).getD false

/-- A parameter by its name and marks: `a=` is optional, `a/` takes no name, `a!` takes nothing but
its name, `*a` and `**a` collect. -/
def readParameter (s : String) : Parameter :=
  match s.toList with
  | '*' :: '*' :: cs => ⟨String.ofList cs, .keywords, true⟩
  | '*' :: cs => ⟨String.ofList cs, .variadic, true⟩
  | cs =>
    let optional := cs.getLast? == some '='
    let cs := if optional then cs.dropLast else cs
    match cs.getLast? with
    | some '/' => ⟨String.ofList cs.dropLast, .positionalOnly, optional⟩
    | some '!' => ⟨String.ofList cs.dropLast, .keywordOnly, optional⟩
    | _ => ⟨String.ofList cs, .plain, optional⟩

def readSignature (j : Json) : Signature := (j.items.filterMap Json.str?).map readParameter

def readAspect : String → Option Aspect
  | "nth" => some .call
  | "index" => some .index
  | "scenario" => some .scenario
  | "feature" => some .feature
  | "result" => some .result
  | _ => none

def readOnly (j : Json) : List (Aspect × Value) :=
  match j.field? "only" with
  | some only => only.fields.filterMap fun (k, v) => (readAspect k).map fun a => (a, Value.ofJson v)
  | none => []

def readOperand (j : Json) : Operand :=
  match textField? "arg" j with
  | some name => .parameter name
  | none => .literal (valueField "value" .null j)

def readWanted (j : Json) : Wanted :=
  match textField? "class" j with
  | some path => .contextClass path
  | none => .loose ((j.field? "tags").map Value.ofJson |>.getD (Value.ofJson j))

/-- The body of an action lies inside it, so reading it comes to an end. -/
theorem sizeOf_field?_lt {name : String} {j field : Json} (h : j.field? name = some field) :
    sizeOf field < sizeOf j := by
  cases j with
  | obj fields =>
    simp only [Json.field?, Option.map_eq_some_iff] at h
    obtain ⟨⟨k, v⟩, hf, rfl⟩ := h
    have hm : (k, v) ∈ fields := List.mem_reverse.1 (List.mem_of_find?_eq_some hf)
    have hl := List.sizeOf_lt_of_mem hm
    simp only [Prod.mk.sizeOf_spec, Json.obj.sizeOf_spec] at hl ⊢
    omega
  | _ => simp [Json.field?] at h

theorem sizeOf_mem_items_le {j item : Json} (h : item ∈ j.items) : sizeOf item < sizeOf j := by
  cases j with
  | arr xs =>
    simp only [Json.items] at h
    have hl := List.sizeOf_lt_of_mem h
    simp only [Json.arr.sizeOf_spec]
    omega
  | _ => simp [Json.items] at h

def readAction (j : Json) : Action :=
  let key := textField "key" "" j
  let body : List Action :=
    match hb : j.field? "body" with
    | some b => b.items.attach.map fun ⟨item, hi⟩ =>
        have := sizeOf_field?_lt hb
        have := sizeOf_mem_items_le hi
        readAction item
    | none => []
  let deed : Deed :=
    match textField "do" "" j with
    | "log" => .log (valueField "text" .null j)
    | "who" => .who
    | "args" => .args
    | "scope" => .scope
    | "set" => .set key (readOperand j)
    | "append" => .append key (readOperand j)
    | "get" => .get key
    | "expect" => .expect key (readOperand j) (valueField "message" (.text "expectation failed") j)
    | "raise" => .raise (textField "type" "Exception" j) ((j.field? "message").map Value.ofJson)
    | "abort" => .abort ((j.field? "reason").map Value.ofJson)
    | "return" => .give (readOperand j)
    | "return_new" => .giveNew (textField "class" "" j)
    | "main" => .visit .main body
    | "sub" => .visit (.sub (textField "alias" "" j)) body
    | "cap" => .visit (.capable (readWanted ((j.field? "capability").getD .null))) body
    | _ => .idle
  .mk (readOnly j) deed
termination_by sizeOf j
decreasing_by omega

def readDecorator (j : Json) : Option Decorator :=
  match textField? "step" j, textField? "hook" j with
  | some keyword, _ =>
    some (.step keyword (valueField "pattern" .null j) (valueField "priority" (.int 0) j)
      (valueField "types" .null j))
  | none, some phase =>
    some (if flagField "bare" j then .bareHook phase else .hook phase (valueField "tags" .null j))
  | none, none => (j.field? "context").map fun c => .context (Value.ofJson c)

def readDecorators (name : String) (j : Json) : List Decorator :=
  (listField name j).filterMap readDecorator

def readShape (j : Json) : Shape :=
  match textField? "builtin" j, j.field? "value" with
  | some name, _ => .builtin name
  | none, some v => .plain (Value.ofJson v)
  | none, none => if flagField "callable" j then .callableObject else .function

/-- A function; one without a name goes by the name given. -/
def readFunction (missing : String) (j : Json) : FunctionSpec :=
  let wraps :=
    match h : j.field? "wraps" with
    | some inner =>
      have := sizeOf_field?_lt h
      if inner.isNull then none else some (readFunction "inner" inner)
    | none => none
  { name := textField "name" missing j
    module := textField? "module" j
    qualname := textField? "qualname" j
    line := ((j.field? "line").bind Json.int?).getD 1
    params := (j.field? "params").map readSignature
    body := (listField "body" j).map readAction
    decorators := readDecorators "decorators" j
    wraps := wraps
    shape := readShape j }
termination_by sizeOf j

def readWrapping : String → Wrapping
  | "static" => .static
  | "class" => .ofClass
  | _ => .plain

mutual

def readClass (j : Json) : ClassSpec :=
  let init := (j.field? "init").filter fun i => !i.isNull
  .mk (textField "name" "" j) ((listField "bases" j).filterMap Json.str?)
    (init.map (readFunction "__init__"))
    (match h : j.field? "members" with
    | some ms => ms.items.attach.map fun ⟨m, hm⟩ =>
        have := sizeOf_field?_lt h
        have := sizeOf_mem_items_le hm
        readMember m
    | none => [])
    (readDecorators "decorators" j)
termination_by sizeOf j

def readMember (j : Json) : MemberSpec :=
  match h : j.field? "nested" with
  | some c =>
    have := sizeOf_field?_lt h
    .nested (textField "name" "" j) (readClass c)
  | none =>
    .function (readFunction "fn" j) (readWrapping (textField "kind" "" j))
      (readDecorators "outer_decorators" j)
termination_by sizeOf j

end

def readItem (j : Json) : Option String × ItemSpec :=
  let given := textField? "as" j
  match j.field? "class", j.field? "func", textField? "ref" j with
  | some c, _, _ => (given, .classItem (readClass c))
  | none, some f, _ => (given, .function (readFunction "fn" f))
  | none, none, some path => (given, .reference path)
  | none, none, none => (given.or (textField? "name" j), .value (valueField "value" .null j))

def readModule (j : Json) : ModuleSpec :=
  ⟨textField "name" "" j, (listField "items" j).map readItem⟩

end Rehearsal.Script
