import AdjointDiff.Program.Arg
import AdjointDiff.Tape.Record
import AdjointDiff.Tape.Sweep
import AdjointDiff.Tape.Report

set_option autoImplicit false

namespace AdjointDiff

inductive Term where
  | lit (a : Arg)
  | ref (name : String)
  | mkHandle (value index : Arg)
  | list (ts : List Term)

abbrev Env := List (String × Var Float)

mutual

def Term.eval (env : Env) : Term → Except Fault Arg
  | .lit a => .ok a
  | .ref n =>
    match env.lookup n with
    | some v => .ok (.handle v)
    | none => .error (.unboundName n)
  | .mkHandle v i => Arg.handle <$> Arg.mkHandle v i
  | .list ts => Arg.list <$> Term.evalList env ts

def Term.evalList (env : Env) : List Term → Except Fault (List Arg)
  | [] => .ok []
  | t :: ts => do
    let a ← Term.eval env t
    let as ← Term.evalList env ts
    pure (a :: as)

end

inductive Builder where
  | input | add | addConst | sub | subConst | rsubConst | mul | mulConst | neg | div | pow
  | powConst | sin | cos | exp | log | sqrt | normalCdf
deriving Repr, DecidableEq

namespace Builder

def name : Builder → String
  | input => "input"
  | add => "add"
  | addConst => "add_const"
  | sub => "sub"
  | subConst => "sub_const"
  | rsubConst => "rsub_const"
  | mul => "mul"
  | mulConst => "mul_const"
  | neg => "neg"
  | div => "div"
  | pow => "pow"
  | powConst => "pow_const"
  | sin => "sin"
  | cos => "cos"
  | exp => "exp"
  | log => "log"
  | sqrt => "sqrt"
  | normalCdf => "norm_cdf"

def all : List Builder :=
  [input, add, addConst, sub, subConst, rsubConst, mul, mulConst, neg, div, pow, powConst, sin,
   cos, exp, log, sqrt, normalCdf]

def ofName? (s : String) : Option Builder := all.find? (·.name == s)

def params : Builder → List String
  | input => ["x", "tape"]
  | add | sub | mul | div | pow => ["x", "y", "tape"]
  | addConst | subConst | mulConst => ["x", "c", "tape"]
  | rsubConst => ["c", "x", "tape"]
  | powConst => ["x", "p", "tape"]
  | neg | sin | cos | exp | log | sqrt | normalCdf => ["x", "tape"]

end Builder

inductive Reply where
  | handle (v : Var Float)
  | index (n : Nat)
  | entry (e : Entry Float)
  | size (n : Nat) (interpreted : Bool)
  | nothing
  | reals (xs : List Float)
  | summary (s : Summary)
  | echo (a : Arg)
  | entries (es : List (Entry Float))

/-- A step of a program, without its name. -/
inductive Action where
  | build (b : Builder) (args : List Term)
  | manual (args : List Term) (value previous : Option Term)
  | manualChain (args : List Term)
  | append (kind operand1 operand2 value extra : Option Term)
  | get (index : Option Term)
  | size
  | interpret (output : Option Term)
  | extractGradient
  | checkTopological
  | summary (verbose : Option Term)
  | value (arg : Term)
  | entries

structure Step where
  action : Action
  name : Option String

namespace Program

open Recorder

def operandThenConstant (cname : String) (record : Var Float → Float → Recorder Float (Var Float))
    (x c : Arg) : Recorder Float (Var Float) := do
  let v ← lift (x.asHandle "x")
  let k ← lift (c.asReal cname)
  record v k

def callBuilder (b : Builder) (args : List Arg) : Recorder Float (Var Float) :=
  match b, args with
  | .input, [x] => do Record.input (← lift (x.asReal "input value"))
  | .add, [x, y] => do Record.add (← lift (x.asHandle "x")) (← lift (y.asHandle "y"))
  | .sub, [x, y] => do Record.sub (← lift (x.asHandle "x")) (← lift (y.asHandle "y"))
  | .mul, [x, y] => do Record.mul (← lift (x.asHandle "x")) (← lift (y.asHandle "y"))
  | .div, [x, y] => do Record.div (← lift (x.asHandle "x")) (← lift (y.asHandle "y"))
  | .pow, [x, y] => do Record.pow (← lift (x.asHandle "x")) (← lift (y.asHandle "y"))
  | .addConst, [x, c] => operandThenConstant "c" Record.addConst x c
  | .mulConst, [x, c] => operandThenConstant "c" Record.mulConst x c
  | .powConst, [x, p] => operandThenConstant "p" Record.powConst x p
  | .subConst, [x, c] => do
    let k ← lift (c.asReal "c")
    let v ← lift (x.asHandle "x")
    Record.addConst v (-k)
  | .rsubConst, [c, x] => do
    let v ← lift (x.asHandle "x")
    let m ← Record.neg v
    let k ← lift (c.asReal "c")
    Record.addConst m k
  | .neg, [x] => do Record.neg (← lift (x.asHandle "x"))
  | .sin, [x] => do Record.sin (← lift (x.asHandle "x"))
  | .cos, [x] => do Record.cos (← lift (x.asHandle "x"))
  | .exp, [x] => do Record.exp (← lift (x.asHandle "x"))
  | .log, [x] => do Record.log (← lift (x.asHandle "x"))
  | .sqrt, [x] => do Record.sqrt (← lift (x.asHandle "x"))
  | .normalCdf, [x] => do Record.normalCdf (← lift (x.asHandle "x"))
  | _, _ => throw (Fault.arity b.name b.params (args.length + 1))

def callManual (operand partial_ : Arg) (value previous : Option Arg) :
    Recorder Float (Var Float) := do
  let x ← lift (operand.asHandle "operand")
  let p ← lift (partial_.asReal "partial")
  let prev ← match previous with
    | some (.handle v) => pure (some v)
    | some Arg.none | none => pure none
    | some a => throw (.notHandle "previous" a.typeName)
  let value ← match prev, value with
    | some v, none | some v, some Arg.none => pure (Arg.real v.value)
    | none, none | none, some Arg.none => throw .manualValueMissing
    | _, some a => pure a
  let y ← lift (value.asReal "value")
  Record.manual x p y prev

def chainLinks : Var Float → List Arg → List Arg → Recorder Float (Var Float)
  | out, x :: xs, p :: ps => do
    let next ← callManual x p none (some (.handle out))
    chainLinks next xs ps
  | out, _, _ => pure out

def callManualChain (operands partials value : Arg) : Recorder Float (Var Float) :=
  match operands, partials with
  | .list xs, .list ps =>
    if xs.length != ps.length then throw (.chainLengths xs.length ps.length)
    else match xs, ps with
      | x :: xs, p :: ps => do
        let first ← callManual x p (some value) none
        chainLinks first xs ps
      | _, _ => throw .chainEmpty
  | .list _, a | a, _ => throw (.badCall ("object of type '" ++ a.typeName ++ "' has no len()"))

/-- An operand of a raw entry, kept as given: nothing, an integer, a truth value, a double, or a
value of another type. -/
def rawOperand : Option Arg → Option Operand
  | none | some Arg.none => none
  | some (.int i) => some (.int i)
  | some (.flag b) => some (.flag b)
  | some (.real x) => some (.real x)
  | some a => some (.other a.typeName)

def rawFields (kind value extra : Option Arg) : Except Fault (Kind × Float × Float) := do
  let k ← match kind with
    | some (.text s) =>
      match Kind.ofTag? s with
      | some k => pure k
      | none => throw (.notKind "str")
    | some a => throw (.notKind a.typeName)
    | none => throw (.notKind "NoneType")
  let v ← match value with
    | some a => a.toReal
    | none => pure 0.0
  let e ← match extra with
    | some a => a.toReal
    | none => pure 0.0
  pure (k, v, e)

def appendRaw (kind operand1 operand2 value extra : Option Arg) : Recorder Float Nat := do
  let (k, v, e) ← lift (rawFields kind value extra)
  let t ← get
  let (t', i) ← lift (t.append k (rawOperand operand1) (rawOperand operand2) v e)
  set t'
  pure i

def lookup (index : Arg) : Recorder Float (Entry Float) := do
  let t ← get
  let i ← lift (Operand.lookup t.size (rawOperand (some index)))
  lift (t.get? i)

def sweep (output : Option Arg) : Recorder Float Unit := do
  Tape.checkSweepable
  let t ← get
  let start ← match output with
    | none | some Arg.none => pure ((t.size : Int) - 1)
    | some (.handle v) => pure v.index
    | some (.int i) => pure i
    | some a => throw (.notOutput a.typeName)
  Tape.sweepFrom start

def evalOpt (env : Env) : Option Term → Except Fault (Option Arg)
  | none => .ok none
  | some t => some <$> t.eval env

/-- Run one action: its reply and the text it printed. -/
def runAction (env : Env) : Action → Recorder Float (Reply × String)
  | .build b args => do
    let as ← lift (Term.evalList env args)
    pure (.handle (← callBuilder b as), "")
  | .manual args value previous => do
    let as ← lift (Term.evalList env args)
    let value ← lift (evalOpt env value)
    let previous ← lift (evalOpt env previous)
    match as with
    | [x, p] => pure (.handle (← callManual x p value previous), "")
    | _ => throw (Fault.arity "manual" ["operand", "partial", "tape"] (as.length + 1))
  | .manualChain args => do
    let as ← lift (Term.evalList env args)
    match as with
    | [xs, ps, v] => pure (.handle (← callManualChain xs ps v), "")
    | _ => throw (Fault.arity "manual_chain" ["operands", "partials", "value", "tape"]
        (as.length + 1))
  | .append kind o1 o2 value extra => do
    let kind ← lift (evalOpt env kind)
    let o1 ← lift (evalOpt env o1)
    let o2 ← lift (evalOpt env o2)
    let value ← lift (evalOpt env value)
    let extra ← lift (evalOpt env extra)
    pure (.index (← appendRaw kind o1 o2 value extra), "")
  | .get index => do
    let i ← lift (evalOpt env index)
    pure (.entry (← lookup (i.getD Arg.none)), "")
  | .size => do
    let t ← get
    pure (.size t.size t.interpreted, "")
  | .interpret output => do
    let o ← lift (evalOpt env output)
    sweep o
    pure (.nothing, "")
  | .extractGradient => do
    let t ← get
    pure (.reals (← lift t.gradient?), "")
  | .checkTopological => do
    let t ← get
    lift t.checkTopological
    pure (.nothing, "")
  | .summary verbose => do
    let v ← lift (evalOpt env verbose)
    let t ← get
    let s ← lift t.summary
    let printed := if (v.getD Arg.none).truthy then t.report s else ""
    pure (.summary s, printed)
  | .value arg => do
    let a ← lift (arg.eval env)
    match a with
    | .handle v => pure (.reals [v.value], "")
    | a => pure (.echo a, "")
  | .entries => do
    let t ← get
    pure (.entries t.entries.toList, "")

def bind (env : Env) (name : Option String) (r : Reply) : Env :=
  match name, r with
  | some n, .handle v => (n, v) :: env
  | _, _ => env

def runAll (env : Env) (t : Tape Float) : List Step → List (Except Fault Reply) × String × Tape Float
  | [] => ([], "", t)
  | s :: rest =>
    let (r, t') := Recorder.run (runAction env s.action) t
    match r with
    | .ok (reply, printed) =>
      let (rs, out, t'') := runAll (bind env s.name reply) t' rest
      (.ok reply :: rs, printed ++ out, t'')
    | .error f =>
      let (rs, out, t'') := runAll env t' rest
      (.error f :: rs, out, t'')

/-- Run steps until one refuses: the names bound at the end and the printed text. -/
def runUntilRefused (env : Env) : List Step → Recorder Float (Env × String)
  | [] => pure (env, "")
  | s :: rest => do
    let (reply, printed) ← runAction env s.action
    let (env', out) ← runUntilRefused (bind env s.name reply) rest
    pure (env', printed ++ out)

end Program

end AdjointDiff
