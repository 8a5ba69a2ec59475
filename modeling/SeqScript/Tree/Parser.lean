import SeqScript.Token.Lexer
import SeqScript.Tree.Basic

/-!
From tokens to trees. The parser is a machine that consumes one token at a time: its state holds
the brackets that are open, what was read inside each of them, and the unary operators that wait
for their operand. A token either leads to the next state or is refused, and what is refused is
the first token with which no tree can begin.

Newlines separate statements. Between brackets they are skipped behind an opening bracket, around
an item and behind a comma. One parenthesised expression without a comma is that expression.
-/
namespace SeqScript.Parser

inductive Opening where
  | list
  | group
  | call (callee : Text)
  deriving DecidableEq, Repr

def Opening.closer : Opening → Closer
  | .list => .bracket
  | .group | .call _ => .paren

abbrev Operators := List (UnaryOp × Location)

inductive Frame where
  | subscript (object : Expr) (outer : Operators)
  | items (opening : Opening) (start : Location) (read : List Expr) (outer : Operators)
  deriving Repr

inductive Base where
  | lone
  | statement (before : List Statement)
  | assignment (before : List Statement) (target : Text) (start : Location)
  deriving Repr

structure Nest where
  base : Base
  frames : List Frame
  operators : Operators
  deriving Repr

inductive State where
  | between (before : List Statement)
  -- An operand must begin.
  | operand (nest : Nest)
  -- As `operand`, save that newlines are skipped and items may end.
  | item (nest : Nest)
  | target (before : List Statement) (name : Text) (span : Span)
  | name (nest : Nest) (name : Text) (span : Span)
  | value (nest : Nest) (e : Expr)
  -- A whole expression with a newline behind it.
  | spaced (nest : Nest) (e : Expr)
  | script (statements : List Statement) (stop : Location)
  | lone (e : Expr)
  deriving Repr

def Base.nest (b : Base) : Nest := ⟨b, [], []⟩

def applyAll (operators : Operators) (e : Expr) : Expr :=
  operators.foldl (fun e o => .unary o.1 e ⟨o.2, e.span.stop⟩) e

def elements (items : List Expr) : List (Option Expr) := items.map some

def Opening.whole (o : Opening) (items : List Expr) (span : Span) : Expr :=
  match o with
  | .list => .sequence .list (elements items) span
  | .group => .sequence .tuple (elements items) span
  | .call callee => .call callee items span

def Opening.wholeWithLast (o : Opening) (items : List Expr) (last : Expr) (span : Span) : Expr :=
  match o, items with
  | .group, [] => last
  | o, items => o.whole (items ++ [last]) span

def finishStatement (before : List Statement) (statement : Statement) (t : Token) :
    Except Cause State :=
  match t.kind with
  | .newline => .ok (.between (before ++ [statement]))
  | .endOfInput => .ok (.script (before ++ [statement]) t.span.stop)
  | kind => .error (.unexpectedToken kind t.value)

def Base.finish (b : Base) (e : Expr) (t : Token) : Except Cause State :=
  match b with
  | .statement before => finishStatement before (.expression e e.span) t
  | .assignment before target start =>
    finishStatement before (.assignment target e ⟨start, e.span.stop⟩) t
  | .lone =>
    match t.kind with
    | .newline => .ok (.spaced Base.lone.nest e)
    | .endOfInput => .ok (.lone e)
    | kind => .error (.unexpectedToken kind t.value)

def finish (base : Base) (frames : List Frame) (e : Expr) (t : Token) : Except Cause State :=
  match frames with
  | [] => base.finish e t
  | .subscript object outer :: rest =>
    if t.kind = .closeBracket then
      .ok (.value ⟨base, rest, outer⟩ (.subscript object e ⟨object.span.start, t.span.stop⟩))
    else if t.kind = .newline then .ok (.spaced ⟨base, frames, []⟩ e)
    else .error (.expectedCloser .bracket t.kind)
  | .items opening start read outer :: rest =>
    if t.kind = opening.closer.kind then
      .ok (.value ⟨base, rest, outer⟩ (opening.wholeWithLast read e ⟨start, t.span.stop⟩))
    else if t.kind = .comma then
      .ok (.item ⟨base, .items opening start (read ++ [e]) outer :: rest, []⟩)
    else if t.kind = .newline then .ok (.spaced ⟨base, frames, []⟩ e)
    else .error (.expectedCloser opening.closer t.kind)

def behindValue (nest : Nest) (e : Expr) (t : Token) : Except Cause State :=
  if t.kind = .openBracket then
    .ok (.item ⟨nest.base, .subscript e nest.operators :: nest.frames, []⟩)
  else finish nest.base nest.frames (applyAll nest.operators e) t

def behindName (nest : Nest) (name : Text) (span : Span) (t : Token) : Except Cause State :=
  if t.kind = .openParen then
    .ok (.item ⟨nest.base, .items (.call name) span.start [] nest.operators :: nest.frames, []⟩)
  else behindValue nest (.name name span) t

def beginOperand (nest : Nest) (t : Token) : Except Cause State :=
  let opened (o : Opening) : State :=
    .item ⟨nest.base, .items o t.span.start [] nest.operators :: nest.frames, []⟩
  let waiting (op : UnaryOp) : State :=
    .operand { nest with operators := (op, t.span.start) :: nest.operators }
  let read (value : Scalar) : State := .value nest (.literal value t.span)
  match t.kind with
  | .minus => .ok (waiting .negate)
  | .notWord => .ok (waiting .not)
  | .number => .ok (read (.number (.ofNumeral t.value)))
  | .string => .ok (read (.string t.value))
  | .trueWord => .ok (read (.bool true))
  | .falseWord => .ok (read (.bool false))
  | .noneWord => .ok (read .none)
  | .openBracket => .ok (opened .list)
  | .openParen => .ok (opened .group)
  | .identifier => .ok (.name nest t.value t.span)
  | kind => .error (.unexpectedToken kind t.value)

def beginItem (nest : Nest) (t : Token) : Except Cause State :=
  if t.kind = .newline then .ok (.item nest)
  else
    match nest.frames with
    | .items opening start read outer :: rest =>
      if t.kind = opening.closer.kind then
        .ok (.value ⟨nest.base, rest, outer⟩ (opening.whole read ⟨start, t.span.stop⟩))
      else beginOperand nest t
    | _ => beginOperand nest t

def beginStatement (before : List Statement) (t : Token) : Except Cause State :=
  match t.kind with
  | .newline => .ok (.between before)
  | .endOfInput => .ok (.script before t.span.stop)
  | .identifier => .ok (.target before t.value t.span)
  | _ => beginOperand (Base.statement before).nest t

def behindTarget (before : List Statement) (name : Text) (span : Span) (t : Token) :
    Except Cause State :=
  if t.kind = .assign then .ok (.operand (Base.assignment before name span.start).nest)
  else behindName (Base.statement before).nest name span t

def advance (s : State) (t : Token) : Except Cause State :=
  match s with
  | .between before => beginStatement before t
  | .operand nest => beginOperand nest t
  | .item nest => beginItem nest t
  | .target before name span => behindTarget before name span t
  | .name nest name span => behindName nest name span t
  | .value nest e => behindValue nest e t
  | .spaced nest e => finish nest.base nest.frames e t
  | .script statements stop => .ok (.script statements stop)
  | .lone e => .ok (.lone e)

def step (s : State) (t : Token) : Except Fault State :=
  match advance s t with
  | .ok s => .ok s
  | .error cause => .error ⟨cause, some t.span.start⟩

def run (s : State) (tokens : List Token) : Except Fault State := tokens.foldlM step s

def unfinished : Fault := ⟨.unexpectedToken .endOfInput [], none⟩

def startOf (tokens : List Token) : Location :=
  match tokens with
  | [] => .first
  | t :: _ => t.span.start

def scriptOfTokens (tokens : List Token) : Except Fault Script :=
  match run (.between []) tokens with
  | .ok (.script statements stop) => .ok ⟨statements, ⟨startOf tokens, stop⟩⟩
  | .ok _ => .error unfinished
  | .error f => .error f

def exprOfTokens (tokens : List Token) : Except Fault Expr :=
  match run (.item Base.lone.nest) tokens with
  | .ok (.lone e) => .ok e
  | .ok _ => .error unfinished
  | .error f => .error f

def script (source : Text) : Except Fault Script :=
  match Lexer.tokenize source with
  | .ok tokens => scriptOfTokens tokens
  | .error f => .error f

def expression (source : Text) : Except Fault Expr :=
  match Lexer.tokenize source with
  | .ok tokens => exprOfTokens tokens
  | .error f => .error f

end SeqScript.Parser
