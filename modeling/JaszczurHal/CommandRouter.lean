import JaszczurHal.CommandTypes
import JaszczurHal.HandleRuns

/-!
# The command router

`hal_command_router`: commands registered by name in the slots of a context,
contexts reached through the handle pool. A call takes a lease, works under
the context's mutex and gives the lease back; a dispatch leaves the mutex while
its handler runs, so any other call can come in between.
-/

set_option autoImplicit false

namespace JaszczurHal.CommandRouter
open JaszczurHal.HalStatus JaszczurHal.CommandTypes JaszczurHal.HandlePool

structure Config extends Limits where
  width : PointerWidth
  maxCommands : ℕ
  maxInstances : ℕ
  maxCommands_pos : 1 ≤ maxCommands
  maxCommands_le : maxCommands ≤ 64
  maxInstances_pos : 1 ≤ maxInstances
  maxInstances_le : maxInstances ≤ 16

def handleKind : ℕ := 11
def callbackStorageSize : ℕ := 16

def Config.shape (c : Config) : Shape where
  width := c.width
  capacity := c.maxInstances
  kind := handleKind
  capacity_pos := c.maxInstances_pos
  capacity_le := c.maxInstances_le.trans (by decide)
  kind_pos := by decide
  kind_le := by decide

inductive Invoke
  | publicHandler
  | erased (function : ℕ)
  deriving DecidableEq

/-- What a used slot holds; its callback is `callback_size` bytes. -/
structure Registration where
  name : List UInt8
  allowedSources : UInt32
  requiredSecurity : UInt32
  invoke : Invoke
  callback : List UInt8
  user : ℕ
  deriving DecidableEq

structure CommandSlot where
  registration : Option Registration
  activeDispatches : UInt32

def CommandSlot.zero : CommandSlot := ⟨none, 0⟩

abbrev Commands (c : Config) := Fin c.maxCommands → CommandSlot

structure Context (c : Config) where
  allocated : Bool
  isDefault : Bool
  commands : Commands c

def Context.cleared (c : Config) : Context c := ⟨false, false, fun _ => .zero⟩

/-- A status and its text; `none` is `hal_status_to_string` of the status. -/
structure Reply where
  status : Status
  message : Option String
  deriving DecidableEq

def Reply.of (status : Status) : Reply := ⟨status, none⟩

/-- `jh_command_router_definition_t`; `name` is the memory at the pointer. -/
structure Definition where
  name : Option (List UInt8)
  allowedSources : UInt32
  requiredSecurity : UInt32
  invoke : Option Invoke
  callback : Option (List UInt8)
  user : ℕ

structure PublicDefinition where
  name : Option (List UInt8)
  allowedSources : UInt32
  requiredSecurity : UInt32
  handler : Option ℕ
  user : ℕ

structure Request where
  source : ℤ
  encoding : ℤ
  command : Option (List UInt8)
  arguments : Option (List UInt8)
  argumentsLength : ℕ
  securityFlags : UInt32

variable {c : Config}

def commandName (l : Limits) (name : Option (List UInt8)) : Option (List UInt8) :=
  name.bind fun bytes => (nameValid l bytes).map fun length => bytes.take length

def pointerBytes (w : PointerWidth) (address : ℕ) : List UInt8 :=
  (List.range (w.bits/8)).map fun i => UInt8.ofNat (address >>> (8*i))

def checkDefinition (l : Limits) (d : Definition) : Option Registration :=
  match commandName l d.name, d.invoke, d.callback with
  | some name, some invoke, some callback =>
    if d.allowedSources = 0 || d.allowedSources &&& ~~~sourceMaskAll ≠ 0 ||
        d.requiredSecurity &&& ~~~securityAll ≠ 0 || callback.length = 0 ||
        callback.length > callbackStorageSize then
      none
    else
      some ⟨name, d.allowedSources, d.requiredSecurity, invoke, callback, d.user⟩
  | _, _, _ => none

def makePublicDefinition (w : PointerWidth) (d : PublicDefinition) : Option Definition :=
  d.handler.map fun handler =>
    ⟨d.name, d.allowedSources, d.requiredSecurity, some .publicHandler,
      some (pointerBytes w handler), d.user⟩

def checkRequest (l : Limits) (r : Request) : Option (List UInt8) :=
  if !sourceValid r.source || !encodingValid r.encoding then none
  else
    match commandName l r.command with
    | none => none
    | some name =>
      if (r.argumentsLength > 0 && r.arguments.isNone) ||
          r.securityFlags &&& ~~~securityAll ≠ 0 then none
      else some name

def findCommand (commands : Commands c) (name : List UInt8) : Option (Fin c.maxCommands) :=
  (List.finRange c.maxCommands).find? fun j =>
    (commands j).registration.any fun r => r.name = name

def findUnused (commands : Commands c) : Option (Fin c.maxCommands) :=
  (List.finRange c.maxCommands).find? fun j => (commands j).registration.isNone

def anyActive (commands : Commands c) : Bool :=
  (List.finRange c.maxCommands).any fun j => (commands j).activeDispatches ≠ 0

def putCommand (commands : Commands c) (j : Fin c.maxCommands) (r : Registration) : Commands c :=
  Function.update commands j ⟨some r, 0⟩

def removeCommand (commands : Commands c) (j : Fin c.maxCommands) : Commands c :=
  Function.update commands j .zero

def registerCommand (commands : Commands c) (r : Registration) (replaceExisting : Bool) :
    Status × Commands c :=
  match findCommand commands r.name with
  | some j =>
    if !replaceExisting then (.eexist, commands)
    else if (commands j).activeDispatches ≠ 0 then (.ebusy, commands)
    else (.ok, putCommand commands j r)
  | none =>
    match findUnused commands with
    | none => (.enomem, commands)
    | some j => (.ok, putCommand commands j r)

def unregisterCommand (commands : Commands c) (name : List UInt8) : Status × Commands c :=
  match findCommand commands name with
  | none => (.enoent, commands)
  | some j =>
    if (commands j).activeDispatches ≠ 0 then (.ebusy, commands)
    else (.ok, removeCommand commands j)

def unregisterMatching (commands : Commands c) (name handler : List UInt8) (user : ℕ) :
    Status × Commands c :=
  match findCommand commands name with
  | none => (.enoent, commands)
  | some j =>
    if (commands j).registration.all fun r =>
        r.invoke ≠ .publicHandler || r.callback.length ≠ handler.length || r.user ≠ user ||
          r.callback ≠ handler then
      (.ebusy, commands)
    else if (commands j).activeDispatches ≠ 0 then (.ebusy, commands)
    else (.ok, removeCommand commands j)

def clearCommands (commands : Commands c) : Status × Commands c :=
  if anyActive commands then (.ebusy, commands) else (.ok, fun _ => .zero)

def admitDispatch (commands : Commands c) (request : Request) (name : List UInt8) :
    Except Reply (Fin c.maxCommands × Registration) :=
  match findCommand commands name with
  | none => .error ⟨.enoent, some "unknown command"⟩
  | some j =>
    match (commands j).registration with
    | none => .error ⟨.enoent, some "unknown command"⟩
    | some r =>
      if r.allowedSources &&& sourceMask request.source = 0 then
        .error ⟨.eperm, some "source not allowed"⟩
      else if request.securityFlags &&& r.requiredSecurity ≠ r.requiredSecurity then
        .error ⟨.eauth, some "security policy not met"⟩
      else
        .ok (j, r)

def handlerReply (handlerStatus : Status) (response : Reply) : Reply :=
  let handlerStatus := if handlerStatus = .none then .einternal else handlerStatus
  let response :=
    if handlerStatus ≠ .ok && response.status = .ok then Reply.of handlerStatus else response
  if response.status = .none then Reply.of .einternal else response

inductive Call
  | destroy (router : ℕ)
  | register (registration : Registration) (replaceExisting : Bool)
  | unregister (name : List UInt8)
  | unregisterIfMatches (name handler : List UInt8) (user : ℕ)
  | clear
  | dispatch (request : Request) (name : List UInt8)

inductive ApiCall
  | destroy
  | registerErased (definition : Definition)
  | register (definition : PublicDefinition)
  | registerUnique (definition : PublicDefinition)
  | unregister (name : Option (List UInt8))
  | unregisterIfMatches (name : Option (List UInt8)) (handler : Option ℕ) (user : ℕ)
  | clear
  | dispatch (request : Option Request)

def registerCall (c : Config) (definition : Option Definition) (replaceExisting : Bool) :
    Except Reply Call :=
  match definition.bind (checkDefinition c.toLimits) with
  | none => .error (Reply.of .einval)
  | some r => .ok (.register r replaceExisting)

def prepare (c : Config) (router : ℕ) : ApiCall → Except Reply Call
  | .destroy => .ok (.destroy router)
  | .registerErased d => registerCall c (some d) true
  | .register d => registerCall c (makePublicDefinition c.width d) true
  | .registerUnique d => registerCall c (makePublicDefinition c.width d) false
  | .unregister name =>
    match commandName c.toLimits name with
    | none => .error (Reply.of .einval)
    | some name => .ok (.unregister name)
  | .unregisterIfMatches name handler user =>
    match commandName c.toLimits name, handler with
    | some name, some handler =>
      .ok (.unregisterIfMatches name (pointerBytes c.width handler) user)
    | _, _ => .error (Reply.of .einval)
  | .clear => .ok .clear
  | .dispatch request =>
    match request.bind fun r => (checkRequest c.toLimits r).map fun name => (r, name) with
    | none => .error ⟨.einval, some "invalid request"⟩
    | some (r, name) => .ok (.dispatch r name)

/-- Where a call is: it holds its lease and waits for the mutex, its handler
runs, it is about to end the lease, or it has returned. `final` replies stand
even when ending the lease fails. -/
inductive Phase (c : Config)
  | entered (call : Call)
  | running (slot : Fin c.maxCommands)
  | leaving (reply : Reply) (final : Bool)
  | done

structure Operation (c : Config) where
  lease : Lease (Fin c.maxInstances)
  phase : Phase c

structure State (c : Config) where
  slots : Slots c.shape (Fin c.maxInstances)
  contexts : Fin c.maxInstances → Context c
  operations : List (Operation c)
  defaultRouter : Option ℕ

def start (c : Config) : State c :=
  ⟨fun _ => Slot.zero _, fun _ => .cleared c, [], none⟩

inductive Event (c : Config)
  | created (router : ℕ)
  | refused (reply : Reply)
  | invoked (context : Fin c.maxInstances) (slot : Fin c.maxCommands)
      (registration : Registration) (request : Request)
  | returned (operation : ℕ) (reply : Reply)

/-- `allocate_context_locked`. A context that is not allocated is already clear,
so the path that clears it again changes nothing. -/
def allocateContext (s : State c) (isDefault : Bool) : Except Status (ℕ × State c) :=
  match (List.finRange c.maxInstances).find? fun i => !(s.contexts i).allocated with
  | none => .error .enomem
  | some i =>
    match allocate s.slots (some i) with
    | .error status =>
      .error status
    | .ok (handle, slots) =>
      .ok (handle, { s with
        slots := slots
        contexts := Function.update s.contexts i ⟨true, isDefault, fun _ => .zero⟩ })

def setPhase (s : State c) (k : ℕ) (lease : Lease (Fin c.maxInstances)) (phase : Phase c) :
    State c :=
  { s with operations := s.operations.set k ⟨lease, phase⟩ }

def setCommands (s : State c) (i : Fin c.maxInstances) (commands : Commands c) : State c :=
  { s with contexts := Function.update s.contexts i { s.contexts i with commands := commands } }

/-- What a call does between locking and unlocking the context's mutex. -/
def body (s : State c) (k : ℕ) (lease : Lease (Fin c.maxInstances)) (call : Call) :
    State c × List (Event c) :=
  let context := s.contexts lease.token
  let leave (s : State c) (status : Status) : State c × List (Event c) :=
    (setPhase s k lease (.leaving (Reply.of status) false), [])
  if !leaseIsOpen s.slots lease || !context.allocated then leave s .euninit
  else
    match call with
    | .destroy router =>
      if context.isDefault then leave s .eperm
      else if anyActive context.commands then leave s .ebusy
      else
        match beginClose s.slots router with
        | .error status => (setPhase s k lease (.leaving (Reply.of status) true), [])
        | .ok (token, slots) =>
          let status : Status := if token.isSome then .einternal else .ok
          (setPhase { s with slots := slots } k lease
            (.leaving (Reply.of status) (status ≠ .ok)), [])
    | .register r replaceExisting =>
      let (status, commands) := registerCommand context.commands r replaceExisting
      leave (setCommands s lease.token commands) status
    | .unregister name =>
      let (status, commands) := unregisterCommand context.commands name
      leave (setCommands s lease.token commands) status
    | .unregisterIfMatches name handler user =>
      let (status, commands) := unregisterMatching context.commands name handler user
      leave (setCommands s lease.token commands) status
    | .clear =>
      let (status, commands) := clearCommands context.commands
      leave (setCommands s lease.token commands) status
    | .dispatch request name =>
      match admitDispatch context.commands request name with
      | .error reply => (setPhase s k lease (.leaving reply false), [])
      | .ok (j, r) =>
        (setPhase (setCommands s lease.token (Function.update context.commands j
            { context.commands j with
              activeDispatches := (context.commands j).activeDispatches+1 }))
          k lease (.running j), [.invoked lease.token j r request])

def afterHandler (s : State c) (k : ℕ) (lease : Lease (Fin c.maxInstances))
    (j : Fin c.maxCommands) (reply : Reply) : State c :=
  let commands := (s.contexts lease.token).commands
  if (commands j).registration.isNone || (commands j).activeDispatches = 0 then
    setPhase s k lease (.leaving ⟨.einternal, some "dispatch state lost"⟩ false)
  else
    setPhase (setCommands s lease.token (Function.update commands j
        { commands j with activeDispatches := (commands j).activeDispatches-1 }))
      k lease (.leaving reply false)

def finish (s : State c) (k : ℕ) (lease : Lease (Fin c.maxInstances)) (reply : Reply)
    (final : Bool) : State c × List (Event c) :=
  match endOperation s.slots lease with
  | .error status =>
    (setPhase s k lease .done, [.returned k (if final then reply else Reply.of status)])
  | .ok (none, lease, slots) =>
    (setPhase { s with slots := slots } k lease .done, [.returned k reply])
  | .ok (some i, lease, slots) =>
    if i = lease.token then
      (setPhase { s with
          slots := slots
          contexts := Function.update s.contexts i (.cleared c) } k lease .done,
        [.returned k reply])
    else
      (setPhase { s with slots := slots } k lease .done,
        [.returned k (if final then reply else Reply.of .einternal)])

inductive Action
  | create
  | default
  | enter (router : ℕ) (call : ApiCall)
  | body (operation : ℕ)
  | handlerReturns (operation : ℕ) (status : Status) (response : Reply)
  | finish (operation : ℕ)

def step (s : State c) : Action → State c × List (Event c)
  | .create =>
    match allocateContext s false with
    | .error status => (s, [.refused (Reply.of status)])
    | .ok (handle, s) => (s, [.created handle])
  | .default =>
    match s.defaultRouter.filter fun handle => (resolve s.slots handle).isOk with
    | some handle => (s, [.created handle])
    | none =>
      match allocateContext s true with
      | .error status => ({ s with defaultRouter := none }, [.refused (Reply.of status)])
      | .ok (handle, s) => ({ s with defaultRouter := some handle }, [.created handle])
  | .enter router call =>
    match prepare c router call with
    | .error reply => (s, [.refused reply])
    | .ok call =>
      match acquire s.slots router with
      | .error _ => (s, [.refused (Reply.of .euninit)])
      | .ok (lease, slots) =>
        ({ s with slots := slots, operations := s.operations ++ [⟨lease, .entered call⟩] }, [])
  | .body k =>
    match s.operations[k]? with
    | some ⟨lease, .entered call⟩ => body s k lease call
    | _ => (s, [])
  | .handlerReturns k status response =>
    match s.operations[k]? with
    | some ⟨lease, .running j⟩ => (afterHandler s k lease j (handlerReply status response), [])
    | _ => (s, [])
  | .finish k =>
    match s.operations[k]? with
    | some ⟨lease, .leaving reply final⟩ => finish s k lease reply final
    | _ => (s, [])

def run (s : State c) : List Action → State c × List (Event c)
  | [] => (s, [])
  | a :: as =>
    let (s', es) := step s a
    let (s'', es') := run s' as
    (s'', es ++ es')

end JaszczurHal.CommandRouter
