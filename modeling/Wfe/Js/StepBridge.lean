import Wfe.Executor.Provider
import Wfe.Library.Steps

/-!
# The bridge to JavaScript steps

A step written in JavaScript runs on the thread of its runtime. `JsStepBody::run` sends a request
through a bounded channel and waits for the answer; the executor loop of `bootstrap.js` takes the
requests one at a time, calls the function registered for the step type, and answers by the number
of the request. The numbers come from a counter per registration, so requests of different step
types carry the same ones.

## Main definitions

* `StepRequest`, `serializeContext`: what is sent
* `deserializeExecutionResult`: how an answer is read
* `Bridge`, `Event`, `Bridge.step`: the callers, the channel and the executor loops
-/

namespace Wfe.Js

/-! ## What crosses the bridge -/

/-- `StepRequest`. The field `caller` is the call of `JsStepBody::run` that holds the other end of
`response_tx`. -/
structure StepRequest where
  requestId : UInt32
  stepType : String
  context : Json
  caller : Nat
deriving DecidableEq, Repr

/-- A JSON object with these fields, in key order. -/
def jsonObject (fields : List (String × Json)) : Json := .object (Object.extend [] fields)

/-- An optional value: `None` is `null`. -/
def jsonOption {α : Type} (encode : α → Json) : Option α → Json
  | none => .null
  | some a => encode a

def jsonNat (n : Nat) : Json := .number (.posInt (UInt64.ofNat n))

/-- `{:?}` of a `WorkflowStatus`. -/
def debugStatus : WorkflowStatus → String
  | .runnable => "Runnable"
  | .suspended => "Suspended"
  | .complete => "Complete"
  | .terminated => "Terminated"

/-- `serialize_context`. The text of a time is chrono's. -/
def serializeContext (toRfc3339 : DateTime → String) (ctx : StepExecutionContext) : Json :=
  jsonObject [
    ("item", jsonOption id ctx.item),
    ("persistenceData", jsonOption id ctx.persistenceData),
    ("step", jsonObject [
      ("id", jsonNat ctx.step.id),
      ("name", jsonOption .string ctx.step.name),
      ("stepType", .string ctx.step.stepType),
      ("stepConfig", jsonOption id ctx.step.stepConfig)]),
    ("workflow", jsonObject [
      ("id", .string ctx.workflow.id),
      ("definitionId", .string ctx.workflow.workflowDefinitionId),
      ("version", jsonNat ctx.workflow.version),
      ("status", .string (debugStatus ctx.workflow.status)),
      ("data", ctx.workflow.data),
      ("createTime", .string (toRfc3339 ctx.workflow.createTime))]),
    ("pointer", jsonObject [
      ("id", .string ctx.executionPointer.id),
      ("stepId", jsonNat ctx.executionPointer.stepId),
      ("stepName", jsonOption .string ctx.executionPointer.stepName),
      ("retryCount", jsonNat ctx.executionPointer.retryCount)])]

/-- The fields of `JsExecutionResult`, in the order of their declaration. -/
def resultFields : List String :=
  ["proceed", "outcomeValue", "sleepFor", "persistenceData", "eventName", "eventKey",
    "branchValues", "outputData"]

/-- A struct is read from an object, or from an array of exactly its fields. -/
def structFields : Json → Option Object
  | .object m => some m
  | .array xs => if xs.length = resultFields.length then some (resultFields.zip xs) else none
  | _ => none

/-- An optional field: one that is missing and one that is `null` are both `None`. -/
def optionalField {α : Type} (decode : Json → Option α) (m : Object) (key : String) :
    Option (Option α) :=
  match m.get key with
  | none | some .null => some none
  | some v => (decode v).map some

/-- A field with a default: one that is `null` has a value, of the wrong type. -/
def defaultField {α : Type} (decode : Json → Option α) (default : α) (m : Object) (key : String) :
    Option α :=
  match m.get key with
  | none => some default
  | some v => decode v

/-- `serde_json::from_value` at `JsExecutionResult`, and the conversion to `ExecutionResult`. -/
def readExecutionResult (value : Json) : Option ExecutionResult := do
  let m ← structFields value
  let proceed ← defaultField Json.asBool true m "proceed"
  let outcomeValue ← optionalField some m "outcomeValue"
  let sleepFor ← optionalField Json.asU64 m "sleepFor"
  let persistenceData ← optionalField some m "persistenceData"
  let eventName ← optionalField Json.asStr m "eventName"
  let eventKey ← optionalField Json.asStr m "eventKey"
  let branchValues ← optionalField Json.asArray m "branchValues"
  let outputData ← optionalField some m "outputData"
  return {
    proceed
    outcomeValue
    sleepFor := sleepFor.map (· * 1000000)
    persistenceData
    eventName
    eventKey
    branchValues
    outputData }

/-- `deserialize_execution_result`. The text that says what is wrong with a value is serde's. -/
def deserializeExecutionResult (describe : Json → String) (value : Json) :
    Except WfeError ExecutionResult :=
  match readExecutionResult value with
  | some result => .ok result
  | none =>
    .error (.stepExecution
      ("failed to deserialize ExecutionResult from JS: " ++ describe value))

/-! ## The executor loop -/

/-- What comes of the call of a step function: the value its promise resolves to, with `undefined`
as `null`, or the message of what was thrown, the conversion of the value included. Of `null` and
`undefined`, thrown by a function, no message can be taken. -/
inductive Outcome
  | resolved (value : Json)
  | thrown (message : String)
  | unreported
deriving DecidableEq, Repr

/-- Which values `||` keeps. -/
def truthy : Json → Bool
  | .null => false
  | .bool b => b
  | .number (.posInt n) => n ≠ 0
  | .number (.negInt n) => n ≠ 0
  | .number (.float bits) => bits <<< 1 ≠ 0
  | .string s => s ≠ ""
  | .array _ | .object _ => true

/-- `{ proceed: true }`. -/
def proceedResult : Json := .object [("proceed", .bool true)]

/-- What `op_step_executor_respond` sends for a result and an error. -/
def response (result : Option Json) (error : Option String) : Except String Json :=
  match error with
  | some e => .error e
  | none => .ok (result.getD proceedResult)

/-- What the loop answers. Where no message can be taken the handler of errors fails itself. -/
def Outcome.response : Outcome → Option (Except String Json)
  | resolved v => some (Js.response (some (if truthy v then v else proceedResult)) none)
  | thrown message => some (Js.response none (some message))
  | unreported => none

def noStepFunction (stepType : String) : Outcome :=
  .thrown ("No step function registered for \"" ++ stepType ++ "\"")

variable {F : Type}

/-- An answer: the request it is for, the function that was called on its context, and what came of
the call. -/
structure Answer (F : Type) where
  request : StepRequest
  function : Option F
  outcome : Outcome
deriving DecidableEq

/-- A call of `JsStepBody::run` waits for room in the channel, then for the answer, and returns when
it gets one or `response_tx` is dropped. -/
inductive CallerState (F : Type)
  | sending
  | waiting
  | answered (answer : Answer F)
  | dropped
deriving DecidableEq

/-- A call of `JsStepBody::run` with its request. -/
structure Caller (F : Type) where
  request : StepRequest
  state : CallerState F
deriving DecidableEq

/-- The receiver gets the message if it is still there. -/
def Caller.deliver (c : Caller F) (answer : Answer F) : Caller F :=
  match c.state with
  | .waiting => { c with state := .answered answer }
  | _ => c

/-- The sender is dropped. -/
def Caller.drop (c : Caller F) : Caller F :=
  match c.state with
  | .waiting => { c with state := .dropped }
  | _ => c

/-- What `JsStepBody::run` returns. -/
def Caller.result (describe : Json → String) (c : Caller F) :
    Option (Except WfeError ExecutionResult) :=
  match c.state with
  | .sending | .waiting => none
  | .dropped => some (.error (.stepExecution "step response channel dropped"))
  | .answered answer => answer.outcome.response.map fun response =>
    match response with
    | .error message => .error (.stepExecution message)
    | .ok value => deserializeExecutionResult describe value

/-- An executor loop: about to poll, in the poll with the receiver, handed a request, awaiting the
function, ended without an answer to its request, or ended between requests. -/
inductive ExecutorLoop (F : Type)
  | ready
  | polling
  | received (request : StepRequest)
  | calling (request : StepRequest) (fn : F)
  | failed (request : StepRequest)
  | stopped
deriving DecidableEq

/-- The state of the bridge. `receiver` says that `step_request_rx` is in its place. -/
structure Bridge (F : Type) where
  registrations : List (String × UInt32) := []
  stepFunctions : String → Option F
  channel : List StepRequest := []
  receiver : Bool := true
  inflight : UInt32 → Option Nat := fun _ => none
  callers : List (Caller F) := []
  loops : List (ExecutorLoop F) := []
  answers : List (Answer F) := []

/-- What happens at the bridge. A function registered as a falsy value counts as none. -/
inductive Event (F : Type)
  | registerStep (stepType : String)
  | registerStepFunction (stepType : String) (fn : Option F)
  | startExecutorLoop
  | run (registration : Nat) (context : StepExecutionContext)
  | send (caller : Nat)
  | poll (loop : Nat)
  | recv (loop : Nat)
  | dispatch (loop : Nat)
  | settle (loop : Nat) (outcome : Outcome)

namespace Bridge

/-- A new bridge. The object that holds the step functions starts with those it inherits. -/
def start (inherited : String → Option F) : Bridge F := { stepFunctions := inherited }

/-- `op_step_executor_respond`: fails if no request with this number is in flight. -/
def respond (answer : Answer F) (σ : Bridge F) : Option (Bridge F) :=
  (σ.inflight answer.request.requestId).map fun c => { σ with
    inflight := Function.update σ.inflight answer.request.requestId none
    callers := σ.callers.modify c (·.deliver answer)
    answers := σ.answers ++ [answer] }

/-- The loop answers. If that fails it tries again with the error, fails again, and ends. -/
def answerFrom (l : Nat) (answer : Answer F) (σ : Bridge F) : Bridge F :=
  match respond answer σ with
  | some σ' => { σ' with loops := σ'.loops.set l .ready }
  | none => { σ with loops := σ.loops.set l .stopped }

/-- `op_register_step`. -/
def registerStep (stepType : String) (σ : Bridge F) : Bridge F :=
  { σ with registrations := σ.registrations ++ [(stepType, 0)] }

/-- `JsStepBody::run`, up to where it waits for room in the channel. -/
def beginRun (toRfc3339 : DateTime → String) (registration : Nat) (ctx : StepExecutionContext)
    (σ : Bridge F) : Option (Bridge F) :=
  match σ.registrations[registration]? with
  | none => none
  | some (stepType, counter) =>
    if ctx.step.stepType = stepType then
      some { σ with
        registrations := σ.registrations.set registration (stepType, counter + 1)
        callers := σ.callers ++ [{
          request := {
            requestId := counter
            stepType := ctx.step.stepType
            context := serializeContext toRfc3339 ctx
            caller := σ.callers.length }
          state := .sending }] }
    else
      none

/-- The channel takes a request when it has room. -/
def send (capacity : Nat) (c : Nat) (σ : Bridge F) : Option (Bridge F) :=
  match σ.callers[c]? with
  | some ⟨request, .sending⟩ =>
    if σ.channel.length < capacity then
      some { σ with
        channel := σ.channel ++ [request]
        callers := σ.callers.set c ⟨request, .waiting⟩ }
    else
      none
  | _ => none

/-- `op_step_executor_poll`, up to where it waits: only one poll has the receiver, and the loop ends
on the error of another. -/
def poll (l : Nat) (σ : Bridge F) : Option (Bridge F) :=
  match σ.loops[l]? with
  | some .ready =>
    some (
      if σ.receiver then { σ with receiver := false, loops := σ.loops.set l .polling }
      else { σ with loops := σ.loops.set l .stopped })
  | _ => none

/-- The poll returns with a request. The sender that was in flight under its number is dropped. -/
def recv (l : Nat) (σ : Bridge F) : Option (Bridge F) :=
  match σ.loops[l]?, σ.channel with
  | some .polling, request :: rest =>
    some { σ with
      channel := rest
      receiver := true
      inflight := Function.update σ.inflight request.requestId (some request.caller)
      callers :=
        match σ.inflight request.requestId with
        | some c => σ.callers.modify c Caller.drop
        | none => σ.callers
      loops := σ.loops.set l (.received request) }
  | _, _ => none

/-- The loop looks the function up, and calls it or answers that there is none. -/
def dispatch (l : Nat) (σ : Bridge F) : Option (Bridge F) :=
  match σ.loops[l]? with
  | some (.received request) =>
    match σ.stepFunctions request.stepType with
    | some fn => some { σ with loops := σ.loops.set l (.calling request fn) }
    | none => some (answerFrom l ⟨request, none, noStepFunction request.stepType⟩ σ)
  | _ => none

/-- The call ends, and the loop answers. Without an answer it ends, and the request stays in
flight. -/
def settle (l : Nat) (outcome : Outcome) (σ : Bridge F) : Option (Bridge F) :=
  match σ.loops[l]? with
  | some (.calling request fn) =>
    match outcome.response with
    | some _ => some (answerFrom l ⟨request, some fn, outcome⟩ σ)
    | none => some { σ with loops := σ.loops.set l (.failed request) }
  | _ => none

variable (toRfc3339 : DateTime → String) (capacity : Nat)

/-- The state after an event, if it can happen. -/
def step (σ : Bridge F) : Event F → Option (Bridge F)
  | .registerStep stepType => some (registerStep stepType σ)
  | .registerStepFunction stepType fn =>
    some { σ with stepFunctions := Function.update σ.stepFunctions stepType fn }
  | .startExecutorLoop => some { σ with loops := σ.loops ++ [.ready] }
  | .run registration ctx => beginRun toRfc3339 registration ctx σ
  | .send c => send capacity c σ
  | .poll l => poll l σ
  | .recv l => recv l σ
  | .dispatch l => dispatch l σ
  | .settle l outcome => settle l outcome σ

end Bridge

end Wfe.Js
