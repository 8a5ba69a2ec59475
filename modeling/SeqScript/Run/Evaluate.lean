import SeqScript.Run.Context
import SeqScript.Value.Written

/-!
Evaluating expressions. Operands, elements and arguments are evaluated from left to right. Before
every expression, every statement and every element an abort that was requested stops the run.
What a stopped evaluation has changed stays changed.
-/
namespace SeqScript

abbrev Eval (σ α : Type) := ExceptT Stop (StateM (State σ)) α

namespace Eval

variable {σ : Type} (ctx : Context σ)

def raise {α : Type} (cause : Cause) (location : Option Location) : Eval σ α :=
  throw (.fault ⟨cause, location⟩)

def store : Eval σ (Store σ) := do return (← get).store

def heap : Eval σ Heap := do return (← store).heap

def setStore (s : Store σ) : Eval σ Unit := modify fun state => { state with store := s }

def setHeap (h : Heap) : Eval σ Unit := do setStore { ← store with heap := h }

def ofFault {α : Type} : Except Fault α → Eval σ α
  | .ok a => pure a
  | .error f => throw (.fault f)

def alloc (o : Object) : Eval σ Value := do
  let (r, h) := (← heap).alloc o
  setHeap h
  return .object r

def record (e : Event) : Eval σ Unit :=
  modify fun state => { state with trace := state.trace ++ [⟨e, state.store.heap⟩] }

/- Records an event and tells its listener; without a listener it did not happen. -/
def emit (kind : EventKind) (e : Event) : Eval σ Unit := do
  match ctx.listener kind with
  | none => pure ()
  | some listener =>
    record e
    let (stop, s) := listener e (← store)
    setStore s
    match stop with
    | none => pure ()
    | some stop => throw stop

def log (v : Value) : Eval σ Unit := do
  match ctx.listener .logged with
  | none => record (.console ((← heap).output v))
  | some _ => emit ctx .logged (.logged v)

def checkAborted (location : Option Location) : Eval σ Unit := do
  if ctx.hasSignal && (← store).aborted then raise .aborted location

def expectCount (function : Text) (args : List Value) (count : Nat)
    (location : Option Location) : Except Fault Unit :=
  if args.length = count then .ok ()
  else .error ⟨.argumentCount function count args.length, location⟩

def argumentFault (h : Heap) (function expected : Text) (v : Value)
    (location : Option Location) : Fault :=
  ⟨.argumentType function expected (h.typeName v), location⟩

def anyElements : Text := text "a list, tuple or string"

def elementsOf (h : Heap) (function : Text) (v : Value) (location : Option Location) :
    Except Fault (List Value) :=
  match h.elements? v with
  | some vs => .ok vs
  | none => .error (argumentFault h function anyElements v location)

def listOf (h : Heap) (function : Text) (v : Value) (location : Option Location) :
    Except Fault Ref :=
  match h.list? v with
  | some r => .ok r
  | none => .error (argumentFault h function (text "a list") v location)

def first (args : List Value) : Value := args.headD .none

def second (args : List Value) : Value := args.getD 1 .none

def lengthOf (h : Heap) (args : List Value) (location : Option Location) :
    Except Fault Value := do
  let name := Builtin.name .len
  expectCount name args 1 location
  match h.length? (first args) with
  | some n => return .number (.ofNat n)
  | none => throw (argumentFault h name anyElements (first args) location)

def appendTo (h : Heap) (args : List Value) (location : Option Location) :
    Except Fault Heap := do
  let name := Builtin.name .append
  expectCount name args 2 location
  let r ← listOf h name (first args) location
  h.append r (second args) location

def extendWith (h : Heap) (args : List Value) (location : Option Location) :
    Except Fault Heap := do
  let name := Builtin.name .extend
  expectCount name args 2 location
  let r ← listOf h name (first args) location
  let vs ← elementsOf h name (second args) location
  h.extend r vs location

def convertedElements (h : Heap) (b : Builtin) (args : List Value) (location : Option Location) :
    Except Fault (List Value) := do
  if args.isEmpty then return []
  expectCount b.name args 1 location
  elementsOf h b.name (first args) location

def logAll : List Value → Eval σ Unit
  | [] => pure ()
  | v :: rest => do
    log ctx v
    logAll rest

def applyBuiltin (b : Builtin) (args : List Value) (location : Option Location) :
    Eval σ Value := do
  match b with
  | .len => ofFault (lengthOf (← heap) args location)
  | .append =>
    setHeap (← ofFault (appendTo (← heap) args location))
    return .none
  | .extend =>
    setHeap (← ofFault (extendWith (← heap) args location))
    return .none
  | .list =>
    let items ← ofFault (convertedElements (← heap) b args location)
    alloc (.list ctx.domain items)
  | .tuple =>
    let items ← ofFault (convertedElements (← heap) b args location)
    match (← heap).tuple? (first args) with
    | some r => return .object r
    | none => alloc (.tuple items)
  | .print =>
    logAll ctx args
    return .none

/- Waits for an answer. A pending abort comes before every answer, and a timeout before none. -/
def await (name : Text) (location : Option Location) (l : Later) : Eval σ Value := do
  checkAborted ctx location
  let expire : Eval σ Value :=
    match ctx.timeout with
    | some ms => raise (.timedOut name ms) location
    | none => throw .stalled
  match l with
  | .resolves v => return v
  | .rejects stop => throw stop
  | .hangs => expire
  | .aborts =>
    setStore { ← store with aborted := true }
    checkAborted ctx location
    expire

def applyHost (f : HostFunction σ) (name : Text) (args : List Value)
    (location : Option Location) : Eval σ Value := do
  let (reply, s) := f ⟨args, location, ctx.domain⟩ (← store)
  setStore s
  match reply with
  | .value v => return v
  | .raised stop => throw stop
  | .later l => await ctx name location l

def apply (f : Callable σ) (name : Text) (args : List Value) (location : Option Location) :
    Eval σ Value :=
  match f with
  | .builtin b => applyBuiltin ctx b args location
  | .host f => applyHost ctx f name args location

def invoke (f : Callable σ) (name : Text) (args : List Value) (location : Option Location) :
    Eval σ Value := do
  emit ctx .call (.call name args)
  let v ← apply ctx f name args location
  emit ctx .returned (.returned name v)
  return v

def lookup (name : Text) (location : Option Location) : Eval σ Value := do
  match (← store).bindings.get? name with
  | some v => return v
  | none => raise (.undefinedVariable name) location

def function (name : Text) (location : Option Location) : Eval σ (Callable σ) :=
  match ctx.functions.get? name with
  | some f => pure f
  | none => raise (.undefinedFunction name) location

def applyUnary (op : UnaryOp) (v : Value) (location : Option Location) : Eval σ Value := do
  match op with
  | .not => return .bool (!(← heap).truthy v)
  | .negate =>
    match v with
    | .scalar (.number x) => return .number x.negate
    | v => raise (.operandType ((← heap).typeName v)) location

def elementAt (h : Heap) (object index : Value) (location : Option Location) :
    Except Fault Value :=
  match object with
  | .scalar s => .error ⟨.notSubscriptable s.typeName, location⟩
  | .object r =>
    match index with
    | .scalar (.number x) =>
      if x.isInteger then
        match h.element? r x with
        | some v => .ok v
        | none => .error (h.outOfRange r x location)
      else .error ⟨.fractionalIndex (h.kind r) x, location⟩
    | index => .error ⟨.indexType (h.kind r) (h.typeName index), location⟩

def allocSequence (kind : SequenceKind) (items : List Value) : Eval σ Value :=
  match kind with
  | .list => alloc (.list ctx.domain items)
  | .tuple => alloc (.tuple items)

mutual

def expr (e : Expr) : Eval σ Value := do
  match e with
  | .literal s span =>
    checkAborted ctx span.location?
    return .scalar s
  | .sequence kind elements span =>
    checkAborted ctx span.location?
    let items ← slots (.sequence kind elements span) 0 elements
    allocSequence ctx kind items
  | .name n span =>
    checkAborted ctx span.location?
    lookup n span.location?
  | .call callee args span =>
    checkAborted ctx span.location?
    let f ← function ctx callee span.location?
    let vs ← exprs args
    invoke ctx f callee vs span.location?
  | .subscript object index span =>
    checkAborted ctx span.location?
    let o ← expr object
    let i ← expr index
    ofFault (elementAt (← heap) o i span.location?)
  | .unary op operand span =>
    checkAborted ctx span.location?
    let v ← expr operand
    applyUnary op v span.location?

def slots (literal : Expr) (index : Nat) : List (Option Expr) → Eval σ (List Value)
  | [] => return []
  | none :: _ => do
    checkAborted ctx literal.span.location?
    raise (.missingElement (literal.summary ctx.limits) index) literal.span.location?
  | some e :: rest => do
    checkAborted ctx literal.span.location?
    let v ← expr e
    let vs ← slots literal (index + 1) rest
    return v :: vs

def exprs : List Expr → Eval σ (List Value)
  | [] => return []
  | e :: rest => do
    let v ← expr e
    let vs ← exprs rest
    return v :: vs

end

def bind (name : Text) (v : Value) : Eval σ Unit := do
  let s ← store
  setStore { s with bindings := s.bindings.set name v }

def statement (s : Statement) : Eval σ Value := do
  checkAborted ctx s.span.location?
  match s with
  | .expression e _ => expr ctx e
  | .assignment target value _ =>
    let v ← expr ctx value
    bind target v
    return v

end Eval

end SeqScript
