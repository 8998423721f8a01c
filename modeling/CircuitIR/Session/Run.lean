import CircuitIR.Session.Function
import CircuitIR.Session.Operator

/-!
# Sessions

A session runs steps in order over named values and a store. A step that fails binds no name and changes
nothing, and the steps after it still run.
-/

namespace CircuitIR

/-- An argument of a step: a value, a name, or a container of arguments. -/
inductive Argument where
  | value (d : Datum)
  | name (s : String)
  | list (as : List Argument)
  | tuple (as : List Argument)
  | dict (entries : List (Argument × Argument))
  | resolver (entries : List (String × Argument))
deriving Inhabited

inductive StepAction where
  | make (className : String) (args : List Argument) (named : List (String × Argument))
  | function (name : String) (args : List Argument)
  | method (receiver : String) (name : String) (args : List Argument)
  | attribute (receiver : String) (name : String)
  | assign (receiver : String) (name : String) (args : List Argument)
  | operator (name : String) (args : List Argument)

/-- A step with the name that its result is bound to. -/
structure Step where
  action : StepAction
  bind : Option String

inductive Outcome where
  | value (d : Datum)
  | fault (f : Fault)
  /-- The step uses a name that is not bound. -/
  | unbound
deriving Inhabited

/-- The state between steps. -/
structure Session where
  store : Store
  names : List (String × Datum)

namespace Session

def start : Session := ⟨.empty, []⟩

/-- The value of a name, with the current contents of all objects. -/
def lookUp (s : Session) (name : String) : Option Datum :=
  (s.names.lookup name).map s.store.refresh

mutual

/-- The value of an argument; `none` if a name is not bound. -/
def evaluate (s : Session) : Argument → Option Datum
  | .value d => some d
  | .name n => s.lookUp n
  | .list as => (evaluateAll s as).map .list
  | .tuple as => (evaluateAll s as).map .tuple
  | .dict es => (evaluateEntries s es).map fun es => .dict (Datum.ofEntries es)
  | .resolver es => (evaluateNamed s es).map .resolver

def evaluateAll (s : Session) : List Argument → Option (List Datum)
  | [] => some []
  | a :: as => do
    let d ← evaluate s a
    let ds ← evaluateAll s as
    return d :: ds

def evaluateEntries (s : Session) : List (Argument × Argument) → Option (List (Datum × Datum))
  | [] => some []
  | (k, a) :: es => do
    let k ← evaluate s k
    let d ← evaluate s a
    let ds ← evaluateEntries s es
    return (k, d) :: ds

def evaluateNamed (s : Session) : List (String × Argument) → Option (List (String × Datum))
  | [] => some []
  | (n, a) :: es => do
    let d ← evaluate s a
    let ds ← evaluateNamed s es
    return (n, d) :: ds

end

/-- The action of a step on the values of its arguments; `none` if a name is not bound. -/
def action (s : Session) : StepAction → Option (Action Datum)
  | .make className args named => do
    let args ← s.evaluateAll args
    let named ← s.evaluateNamed named
    return Action.construct className args named
  | .function name args => do
    let args ← s.evaluateAll args
    return Action.function name args
  | .method receiver name args => do
    let receiver ← s.lookUp receiver
    let args ← s.evaluateAll args
    return receiver.invoke name args
  | .attribute receiver name => do
    let receiver ← s.lookUp receiver
    return (receiver.attribute name : Except Fault Datum)
  | .assign receiver name args => do
    let receiver ← s.lookUp receiver
    let args ← s.evaluateAll args
    return Action.oneArgument args (receiver.assign name)
  | .operator name args => do
    let args ← s.evaluateAll args
    return Action.operator name args

/-- The session with a name bound to a value. -/
def bindName (s : Session) (name : Option String) (d : Datum) : Session :=
  match name with
  | some n => { s with names := (n, d) :: s.names }
  | none => s

/-- What a step does to the log beside the entries of its action. -/
def resets : StepAction → Bool
  | .function "log.reset_call_order" [] => true
  | _ => false

def step (s : Session) (st : Step) : Session × List LogEvent × Outcome :=
  match s.action st.action with
  | none => (s, [], .unbound)
  | some act =>
    let t := act.run s.store
    let events := t.entries.map LogEvent.written ++ (if resets st.action then [.reset] else [])
    match t.result with
    | .ok (d, store) => (({ s with store := store }).bindName st.bind d, events, .value d)
    | .error f => (s, events, .fault f)

def run (s : Session) : List Step → List LogEvent × List Outcome
  | [] => ([], [])
  | st :: steps =>
    let (s, events, outcome) := s.step st
    let (laterEvents, outcomes) := s.run steps
    (events ++ laterEvents, outcome :: outcomes)

end Session

/-- The outcomes of steps from an empty session on, and the numbered log entries of its one handler. -/
def runSteps (steps : List Step) : List NumberedEntry × List Outcome :=
  let (events, outcomes) := Session.start.run steps
  (numberEntries 1 0 events, outcomes)

end CircuitIR
