import RyanAI.Lib.Json

/-!
# Approval of tool calls

The output of a message holds the tool calls that the model asked for, in a batch, and the results of those that were
resolved. Every transaction reads it under the lock of the chat, changes it and stores it in the normal form of
`normalize_tool_output`: the user approves, rejects or answers a call (`resolveToolCallOutput`), the runner takes the
next approved call (`startToolCall`) and stores the result of the one it has executed (`completeToolCall`).

Call ids are those of `item.get('call_id') or item.get('id')`.
-/

namespace RyanAI.Chat.ToolApproval

open RyanAI.Lib

/-! ## The output of a message -/

inductive CallStatus where
  | pending
  | queued
  | requiresApproval
  | inProgress
  | completed
  | failed
  | rejected
  | incomplete
  | unknown
  | other (text : String)
  deriving DecidableEq

/-- A `function_call`. -/
structure Call where
  callId : String
  name : String
  status : CallStatus
  approved : Bool
  deriving DecidableEq

/-- A `function_call_output`. -/
structure CallResult where
  callId : String
  status : CallStatus
  content : Json
  deriving DecidableEq

/-- An output item; `continuation` is the empty message to go on with. -/
inductive Item where
  | call (call : Call)
  | result (result : CallResult)
  | continuation
  | other (content : Json)
  deriving DecidableEq

structure Saved where
  output : List Item
  done : Bool
  deriving DecidableEq

def callOf : Item → Option Call
  | .call call => some call
  | _ => none

def resultIdOf : Item → Option String
  | .result result => some result.callId
  | _ => none

def calls (output : List Item) : List Call := output.filterMap callOf

def results (output : List Item) : List String := output.filterMap resultIdOf

def CallStatus.awaits : CallStatus → Bool
  | .pending | .queued | .requiresApproval => true
  | _ => false

/-- The call has no result in `resolved`, and it waits or is being executed. -/
def isPending (resolved : List String) (call : Call) : Bool :=
  decide (call.callId ∉ resolved) && (call.status.awaits || decide (call.status = .inProgress))

/-- `pending_tool_calls`. -/
def pendingToolCalls (output : List Item) : List Call := (calls output).filter (isPending (results output))

def modifyFirst (p : Call → Bool) (f : Call → Call) : List Item → List Item
  | [] => []
  | .call call :: rest => if p call then .call (f call) :: rest else .call call :: modifyFirst p f rest
  | item :: rest => item :: modifyFirst p f rest

def setStatus (status : CallStatus) (call : Call) : Call := { call with status := status }

def pairItem (resolved : List String) : Item → Item
  | .call call =>
    if call.status = .completed ∧ call.callId ∉ resolved then .call (setStatus .unknown call) else .call call
  | item => item

/-- `pair_results`, for one round. -/
def pairResults (round : List Item) : List Item := round.map (pairItem (results round))

def sameKey : Item → Item → Bool
  | .call a, .call b => decide (a.callId = b.callId ∧ a.callId ≠ "")
  | .result a, .result b => decide (a.callId = b.callId ∧ a.callId ≠ "")
  | _, _ => false

/-- `{**old, **new}`; `approved` is stored only where it is true. -/
def mergeItem : Item → Item → Item
  | .call old, .call new => .call { new with approved := new.approved || old.approved }
  | _, new => new

def startsRound (round : List Item) (item : Item) : Bool :=
  (round.getLast?.bind resultIdOf).isSome && (resultIdOf item).isNone

def normalizeStep (acc : List Item × List Item) (item : Item) : List Item × List Item :=
  let acc := if startsRound acc.2 item then (acc.1 ++ pairResults acc.2, []) else acc
  if acc.2.any (sameKey item) then
    (acc.1, acc.2.map fun old => if sameKey item old then mergeItem old item else old)
  else (acc.1, acc.2 ++ [item])

/-- `normalize_tool_output`. -/
def normalizeToolOutput (output : List Item) : List Item :=
  let acc := output.foldl normalizeStep ([], [])
  acc.1 ++ pairResults acc.2

def save (saved : Saved) : Saved := { saved with output := normalizeToolOutput saved.output }

/-! ## The user resolves a call -/

inductive Action where
  | approve
  | reject
  | answer
  deriving DecidableEq

/-- `ResolveToolCallForm`. -/
structure ResolveToolCallForm where
  callId : String
  action : Action
  answers : Option Json
  timedOut : Bool

inductive ResolveError where
  | noAccess
  | messageNotFound
  | otherUser
  | toolCallNotFound
  | alreadyResolved
  | askUserNeedsAnswer
  | noAnswersAccepted
  | answersRequired
  deriving DecidableEq

def ResolveError.response : ResolveError → ℕ × String
  | .noAccess => (401, "You do not have permission to access this resource. Please contact your administrator for assistance.")
  | .messageNotFound => (404, "We could not find what you're looking for :/")
  | .otherUser => (403, "You do not have permission to access this resource. Please contact your administrator for assistance.")
  | .toolCallNotFound => (404, "Tool call not found.")
  | .alreadyResolved => (409, "Tool call has already been resolved.")
  | .askUserNeedsAnswer => (400, "ask_user requires an answer or deny.")
  | .noAnswersAccepted => (400, "Tool call does not accept answers.")
  | .answersRequired => (400, "Answers are required for ask_user.")

inductive Resume where
  | tools
  | model
  deriving DecidableEq

def answerPayload (form : ResolveToolCallForm) : Json :=
  if form.timedOut then
    .obj [("status", .str "cancelled"), ("answers", .obj []), ("timed_out", .bool true)]
  else .obj [("status", .str "answered"), ("answers", Json.orElse (form.answers.getD .null) (.obj []))]

def applyAction (form : ResolveToolCallForm) (call : Call) (output : List Item) : Except ResolveError (List Item) :=
  let isCall := fun c : Call => decide (c.callId = form.callId)
  match form.action with
  | .approve =>
    if call.name = "ask_user" then .error .askUserNeedsAnswer
    else .ok (modifyFirst isCall (fun c => { c with status := .queued, approved := true }) output)
  | .reject =>
    .ok (modifyFirst isCall (setStatus .rejected) output ++
      [.result ⟨form.callId, .rejected, .str "Error: tool call rejected by user."⟩])
  | .answer =>
    if call.name ≠ "ask_user" then .error .noAnswersAccepted
    else if form.answers.isNone && !form.timedOut then .error .answersRequired
    else
      .ok (modifyFirst isCall (setStatus .completed) output ++ [.result ⟨form.callId, .completed, answerPayload form⟩])

def isActive (output : List Item) : Bool :=
  (pendingToolCalls output).any fun call => call.approved || decide (call.status = .inProgress)

def resumeBatch (action : Action) (active : Bool) (output : List Item) : List Item × Option Resume :=
  if active then (output, none)
  else if action = .approve then (output, some .tools)
  else if (pendingToolCalls output).isEmpty then (output ++ [.continuation], some .model)
  else (modifyFirst (isPending (results output)) (setStatus .pending) output, none)

/-- `resolve_tool_call_output`. -/
def resolveToolCallOutput (accessible own : Bool) (form : ResolveToolCallForm) (message : Option Saved) :
    Except ResolveError (Saved × Option Resume) :=
  if !accessible then .error .noAccess
  else
    match message with
    | none => .error .messageNotFound
    | some saved =>
      if !own then .error .otherUser
      else
        match (calls saved.output).find? fun c => decide (c.callId = form.callId) with
        | none => .error .toolCallNotFound
        | some call =>
          if form.callId ∈ results saved.output ∨ call.status.awaits = false ∨ call.approved = true then
            .error .alreadyResolved
          else
            match applyAction form call saved.output with
            | .error error => .error error
            | .ok output =>
              let resumed := resumeBatch form.action (isActive saved.output) output
              .ok (save ⟨resumed.1, false⟩, resumed.2)

def isRunnable (full : Bool) (resolved : List String) (call : Call) : Bool :=
  isPending resolved call && decide (call.name ≠ "ask_user") && (call.approved || full)

/-- `resume_tool_calls` at the start of a round: the call to execute. -/
def startToolCall (full : Bool) (saved : Saved) : Saved × Option Call :=
  let resolved := results saved.output
  if (pendingToolCalls saved.output).any fun call => decide (call.status = .inProgress) then (save saved, none)
  else
    match (calls saved.output).find? (isRunnable full resolved) with
    | none =>
      (save { saved with output := modifyFirst (isPending resolved) (setStatus .pending) saved.output }, none)
    | some call =>
      (save ⟨modifyFirst (isRunnable full resolved) (setStatus .inProgress) saved.output, false⟩,
        some (setStatus .inProgress call))

inductive CompleteError where
  | messageNotFound
  | notRunning
  deriving DecidableEq

def CompleteError.response : CompleteError → ℕ × String
  | .messageNotFound => (404, "We could not find what you're looking for :/")
  | .notRunning => (409, "Tool call is no longer running.")

/-- `complete_tool_call`: the stored message and the output to go on with. -/
def completeToolCall (call : Call) (status : CallStatus) (content : Json) (message : Option Saved) :
    Except CompleteError (Saved × List Item) :=
  match message with
  | none => .error .messageNotFound
  | some saved =>
    let resolved := results saved.output
    let isCall := fun c : Call => isPending resolved c && decide (c.callId = call.callId)
    match (calls saved.output).find? isCall with
    | none => .error .notRunning
    | some running =>
      if running.status ≠ .inProgress then .error .notRunning
      else
        let output := modifyFirst isCall
          (fun c => { call with approved := call.approved || c.approved }) saved.output ++
            [.result ⟨call.callId, status, content⟩]
        let isNext := fun c : Call => isPending (results output) c && !c.approved
        if status = .incomplete then .ok (save ⟨output, true⟩, output)
        else if (pendingToolCalls output).isEmpty then
          let output := output ++ [.continuation]
          .ok (save ⟨output, saved.done⟩, output)
        else
          let output := modifyFirst isNext (setStatus .pending) output
          .ok (save ⟨output, saved.done⟩, output)

end RyanAI.Chat.ToolApproval
