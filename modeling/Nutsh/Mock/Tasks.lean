/-
The tasks of a mock server.

A mutation that is accepted answers a task.  The task goes one step further with every read of it by its
identifier, through the statuses the server was built with, and what the mutation is for happens with the last
step: a machine is switched on or off, a row is removed or added, an alert is resolved.  A task that is cancelled
goes no further, and the server can be told that the tasks of an operation fail, or stand still.

Main definitions:

* `Builder`, `Store`, `MockTask`, `Server` — what a server is built with, its lists, a task, and the server;
* `applyEffect` — what a successful task did;
* `Server.advance` — one step of a task;
* `Server.get`, `Server.mutate` — the requests.

Main results:

* `Server.get_server` — what a read does to the server, beside its answer;
* `applyEffect_agree` — an effect does not depend on the list of the tasks;
* `applyEffect_within` — an effect leaves open whether a task can be cancelled.
-/
import Nutsh.Lib.IndexMap
import Nutsh.Lib.Rows
import Nutsh.Lib.Split
import Nutsh.Mock.Lists

set_option relaxedAutoImplicit false
set_option autoImplicit false

namespace Nutsh.Mock

/-! ### Values -/

/-- An object with a member under a key, in place of one that it had. -/
def put (v : Json) (key : String) (value : Json) : Json :=
  match v with
  | .obj members => .obj (IndexMap.put key value members)
  | v => v

/-- An object without a member. -/
def without (v : Json) (key : String) : Json :=
  match v with
  | .obj members => .obj (members.filter fun m => m.1 != key)
  | v => v

/-- The text of a member. -/
def textAt (v : Json) (key : String) : Option String := (v.get key).bind Json.asStr

/-- What stands before and after the last occurrence of `sep`. -/
def rsplitOnce (sep s : String) : Option (String × String) :=
  (Text.splitOnceList sep.toList.reverse s.toList.reverse).map fun p =>
    (String.ofList p.2.reverse, String.ofList p.1.reverse)

/-- The text with `new` in place of the first occurrence of `old`. -/
def replaceOnce (old new s : String) : String :=
  match Text.splitOnce old s with
  | some (head, tail) => head ++ new ++ tail
  | none => s

/-! ### The lists -/

/-- The lists of a server by their paths. -/
structure Store where
  lists : IndexMap String (List Json) := IndexMap.empty

namespace Store

def has (s : Store) (path : String) : Bool := (s.lists.get? path).isSome

def list (s : Store) (path : String) : Option (List Json) := s.lists.get? path

/-- The row of an identifier in a list. -/
def entity (s : Store) (listPath idKey extId : String) : Option Json :=
  (s.list listPath).bind (Rows.find (textAt · idKey) extId)

/-- A list with its rows changed, where there is one. -/
def modify (s : Store) (listPath : String) (f : List Json → List Json) : Store :=
  match s.list listPath with
  | some items => { lists := s.lists.insert listPath (f items) }
  | none => s

def replace (s : Store) (listPath idKey extId : String) (entity : Json) : Store :=
  s.modify listPath (Rows.replace (textAt · idKey) extId entity)

def remove (s : Store) (listPath idKey extId : String) : Store :=
  s.modify listPath (Rows.remove (textAt · idKey) extId)

def push (s : Store) (listPath : String) (entity : Json) : Store :=
  { lists := s.lists.insert listPath ((s.list listPath).getD [] ++ [entity]) }

end Store

/-! ### The server -/

/-- What a mock server is built with: its lists as they are first, and what becomes of its tasks. -/
structure Builder extends Shared where
  /-- Where the tasks are listed. -/
  tasksPath : String
  username : String := "admin"
  /-- The statuses and the progress a task walks through. -/
  taskSteps : List (String × ℕ) := [("QUEUED", 0), ("RUNNING", 0), ("RUNNING", 50), ("SUCCEEDED", 100)]
  /-- The operations whose tasks fail, and those whose tasks stand still. -/
  failTask : List String := []
  stallTask : List String := []
  /-- The kinds and actions that are refused. -/
  forbidAction : List (String × String) := []
  liveClock : Bool := false
  /-- The tag of a row. -/
  etagOf : Json → String
  /-- Whether a constant body, as text, is the one that was sent. -/
  sameBody : String → Option Json → Bool

/-- What an answer draws: the times it reads off the clock, and the identifiers it makes up. -/
structure Draws where
  now : ℕ → String
  uuid : ℕ → String

/-- The row a task is about. -/
structure Target where
  listPath : String
  idKey : String
  extId : String
  deriving DecidableEq

/-- A task, beside the row that shows it. -/
structure MockTask where
  /-- The state the next read shows; past the last one when the task has ended. -/
  step : ℕ := 0
  operation : String
  target : Option Target := none
  canceling : Bool := false
  /-- The path of the action in the catalog. -/
  actionPath : Option String := none
  /-- The path the mutation was sent to. -/
  path : String
  body : Option Json := none

structure Server where
  store : Store
  tasks : String → Option MockTask := fun _ => none

variable (b : Builder) (d : Draws)

def createdAt (i : ℕ) : String := if b.liveClock then d.now i else "2026-09-05T09:59:00Z"

def doneAt (i : ℕ) : String := if b.liveClock then d.now i else "2026-09-05T10:00:00Z"

def steppedAt (i step : ℕ) : String :=
  if b.liveClock then d.now i
  else "2026-09-05T09:59:" ++ String.ofList ((toString (min step 59)).toList.leftpad 2 '0') ++ "Z"

/-! ### What a task does -/

/-- The list of all hosts, for the list of the hosts of a cluster. -/
def topLevelHosts (listPath : String) : Option String := do
  let (head, tail) ← Text.splitOnce "/config/clusters/" listPath
  let (_, rest) ← Text.splitOnce "/" tail
  if rest = "hosts" then some (head ++ "/config/hosts") else none

/-- The recovery point a creation adds. -/
def recoveryPoint (body : Option Json) : Json :=
  let text := fun key => body.bind (textAt · key)
  let vm := ((body.bind (·.get "vmRecoveryPoints")).bind Json.asArray).bind (·[0]?) |>.bind (textAt · "vmExtId")
  let rp := Json.obj [
    ("$objectType", .str "dataprotection.v4.config.RecoveryPoint"),
    ("extId", .str (d.uuid 0)),
    ("name", .str ((text "name").getD "recovery point")),
    ("status", .str "COMPLETE"),
    ("recoveryPointType", .str ((text "recoveryPointType").getD "CRASH_CONSISTENT")),
    ("creationTime", .str (doneAt b d 1)),
    ("vmRecoveryPoints", .arr [.obj [("extId", .str (d.uuid 1)), ("vmExtId", .str (vm.getD ""))]])]
  match text "expirationTime" with
  | some expiry => put rp "expirationTime" (.str expiry)
  | none => rp

/-- What becomes of the row a task is about. -/
inductive Change where
  | leave
  | write (row : Json)
  | add (row : Json)
  | drop

/-- The operations that switch a machine on, and those that switch it off. -/
def switchesOn : List String := ["power-on", "power-cycle", "reset", "reboot", "guest-reboot"]

def switchesOff : List String := ["power-off", "shutdown", "guest-shutdown"]

/-- The copy of a machine, which is off and so has no host. -/
def cloned (t : MockTask) (target : Target) (e : Json) : Json :=
  let name := (t.body.bind (textAt · "name")).getD ((textAt e "name").getD "vm" ++ "-clone")
  let copy := put (put (put e target.idKey (.str (d.uuid 0))) "name" (.str name)) "powerState" (.str "OFF")
  let copy := without copy "host"
  let copy := if (copy.get "createTime").isSome then put copy "createTime" (.str (doneAt b d 1)) else copy
  if (copy.get "updateTime").isSome then put copy "updateTime" (.str (doneAt b d 2)) else copy

/-- The end of the path of an action. -/
def MockTask.action (t : MockTask) : Option String :=
  (t.actionPath.bind (rsplitOnce "/$actions/")).map Prod.snd

/-- What a task makes of its row: by its action first, then by its operation. -/
def change (t : MockTask) (target : Target) (e : Json) : Change :=
  let action := t.action
  if action = some "manage-alert" then
    match t.body.bind (textAt · "actionType") with
    | some "RESOLVE" => .write
        (put (put (put (put e "isResolved" (.bool true)) "status" (.str "RESOLVED"))
          "resolvedTime" (.str (doneAt b d 1))) "resolvedByUsername" (.str b.username))
    | some "ACKNOWLEDGE" => .write
        (put (put (put (put e "isAcknowledged" (.bool true)) "status" (.str "ACKNOWLEDGED"))
          "acknowledgedTime" (.str (doneAt b d 1))) "acknowledgedByUsername" (.str b.username))
    | _ => .leave
  else if action = some "enter-host-maintenance" then .write (put e "maintenanceState" (.str "IN_MAINTENANCE"))
  else if action = some "exit-host-maintenance" then .write (put e "maintenanceState" (.str "NORMAL"))
  else if action = some "migrate-to-host" then
    match (t.body.bind (·.get "host")).bind (textAt · "extId") with
    | some host => .write (put e "host" (.obj [("extId", .str host)]))
    | none => .leave
  else if action = some "clone" ∧ Text.endsWith "/ahv/config/vms" target.listPath then .add (cloned b d t target e)
  else if switchesOn.contains t.operation then .write (put e "powerState" (.str "ON"))
  else if switchesOff.contains t.operation then .write (put e "powerState" (.str "OFF"))
  else if t.operation = "delete" then .drop
  else .leave

/-- What a successful task did.  A creation has no row; the one with an effect is that of a recovery point. -/
def applyEffect (store : Store) (t : MockTask) : Store :=
  match t.target with
  | none =>
      if Text.endsWith "/config/recovery-points" t.path then store.push t.path (recoveryPoint b d t.body) else store
  | some target =>
      match store.entity target.listPath target.idKey target.extId with
      | none => store
      | some e =>
          match change b d t target e with
          | .leave => store
          | .add copy => store.push target.listPath copy
          | .drop => store.remove target.listPath target.idKey target.extId
          | .write e =>
              let store := store.replace target.listPath target.idKey target.extId e
              -- A host is in two lists, and a change has to show in both.
              match topLevelHosts target.listPath with
              | some top => store.replace top target.idKey target.extId e
              | none => store

namespace Server

variable (s : Server)

/-- The row of a task. -/
def row (extId : String) : Option Json := s.store.entity b.tasksPath "extId" extId

/-- The row of a task that is being cancelled: it is shown so once, and is cancelled then. -/
def canceledRow (t : MockTask) (e : Json) : Json :=
  if textAt e "status" = some "CANCELING" then
    put (put (put (put e "status" (.str "CANCELED")) "completedTime" (.str (doneAt b d 0)))
      "lastUpdatedTime" (.str (doneAt b d 0))) "isCancelable" (.bool false)
  else put (put e "status" (.str "CANCELING")) "lastUpdatedTime" (.str (steppedAt b d 0 t.step))

/-- Whether a step is the last. -/
def terminal (t : MockTask) : Bool := t.step + 1 == b.taskSteps.length

def failing (t : MockTask) : Bool := b.failTask.contains t.operation

/-- The row of a task that has come to a status. -/
def shownRow (status : String) (progress : ℕ) (moment : String) (e : Json) : Json :=
  let e := put (put (put e "status" (.str status)) "progressPercentage" (.num (.int progress)))
    "lastUpdatedTime" (.str moment)
  if status ≠ "QUEUED" ∧ (e.get "startedTime").isNone then put e "startedTime" (.str moment) else e

/-- The row of a task that has ended. -/
def endedRow (t : MockTask) (moment : String) (e : Json) : Json :=
  let e := put (put e "completedTime" (.str moment)) "isCancelable" (.bool false)
  if failing b t then
    put e "errorMessages" (.arr [.obj [("message", .str (t.operation ++ " failed in the mock")),
      ("severity", .str "ERROR"), ("code", .str "MOCK-1")]])
  else e

/-- The row of a task after a step. -/
def steppedRow (t : MockTask) (status : String) (progress : ℕ) (e : Json) : Json :=
  let status := if terminal b t && failing b t then "FAILED" else status
  let moment := if terminal b t then doneAt b d 0 else steppedAt b d 0 t.step
  let e := shownRow status progress moment e
  if terminal b t then endedRow b t moment e else e

/-- One step of a task, applied on a read by its identifier before the answer. -/
def advance (extId : String) : Server :=
  match s.tasks extId with
  | none => s
  | some t =>
      match s.row b extId with
      | none => s
      | some e =>
          if t.canceling then
            { store := s.store.replace b.tasksPath "extId" extId (canceledRow b d t e)
              tasks :=
                if textAt e "status" = some "CANCELING" then Function.update s.tasks extId none else s.tasks }
          else if b.stallTask.contains t.operation then s
          else
            match b.taskSteps[t.step]? with
            | none => s
            | some (status, progress) =>
                let store := if terminal b t && !failing b t then applyEffect b d s.store t else s.store
                { store := store.replace b.tasksPath "extId" extId (steppedRow b d t status progress e)
                  tasks := Function.update s.tasks extId (some { t with step := t.step + 1 }) }

/-! ### Reading -/

/-- The answers of a server, beside those that refuse. -/
inductive Answer where
  | list (body : Json)
  | entity (etag : String) (body : Json)
  | cancelling
  | task (extId : String)

/-- Why a request is refused. -/
inductive Refusal where
  | listing (why : Refused)
  | error (status : ℕ) (message : String)

/-- The server as one that lists. -/
def listing : Shared := { b.toShared with lists := s.store.lists.entries }

def metadata : Json := .obj [("flags", .arr []), ("links", .arr [])]

/-- A read of a row, `otherwise` where there is neither the row nor its list. -/
def getRow (apiPath : String) (otherwise : Except Refusal Answer) : Server × Except Refusal Answer :=
  match rsplitOnce "/" apiPath with
  | none => (s, otherwise)
  | some (listPath, extId) =>
      let s := if listPath = b.tasksPath then s.advance b d extId else s
      match s.store.entity listPath (idKeyFor b.kinds listPath) extId with
      | some e => (s, .ok (.entity (b.etagOf e) (.obj [("data", e), ("metadata", metadata)])))
      | none =>
          if s.store.has listPath then (s, .error (.error 404 ("no entity " ++ extId))) else (s, otherwise)

/-- A read: of a list, of a row, or of a list that the catalog has and the server does not. -/
def get (F : Doubles) (apiPath : String) (query : Params) : Server × Except Refusal Answer :=
  let listed := (s.listing b).getList F apiPath query
  let answer := (listed.map Answer.list).mapError Refusal.listing
  match listed with
  | .error (.paging _) | .error (.filter _) => (s, answer)
  | _ => if s.store.has apiPath then (s, answer) else s.getRow b d apiPath answer

/-- The task whose row is at a path. -/
def polledAt (apiPath : String) : Option String :=
  (rsplitOnce "/" apiPath).bind fun p => if p.1 = b.tasksPath ∧ (s.row b p.2).isSome then some p.2 else none

/-- The task a read is of, where its row is listed. -/
def polled (F : Doubles) (apiPath : String) (query : Params) : Option String :=
  match (s.listing b).getList F apiPath query with
  | .error (.paging _) | .error (.filter _) => none
  | _ => if s.store.has apiPath then none else s.polledAt b apiPath

/-! ### Changing -/

/-- A request that changes something. -/
structure Mutation where
  method : Method
  apiPath : String
  /-- Whether it names itself. -/
  requestId : Bool
  ifMatch : Option String := none
  body : Option Json := none

/-- The action of the catalog behind a request, with its kind; of those that share an endpoint, the one whose body
was sent, or else the first. -/
def catalogActionOf (r : Mutation) : Option (Kind × Action) :=
  b.kinds.findSome? fun k =>
    let sharing := k.actions.filter fun a => a.method == r.method && sameShape a.path r.apiPath
    sharing.head?.map fun first =>
      (k, (sharing.find? fun a => a.body.any fun text => b.sameBody text r.body).getD first)

/-- The row a mutation is on, `none` for a creation. -/
def targetOf (r : Mutation) (found : Option (Kind × Action)) : Except Refusal (Option Target) :=
  if r.method ≠ .post ∨ Text.contains "/$actions/" r.apiPath then
    let entityPath := ((Text.splitOnce "/$actions/" r.apiPath).map Prod.fst).getD r.apiPath
    match rsplitOnce "/" entityPath with
    | none => .error (.error 404 "bad path")
    | some (listPath, extId) =>
        -- The actions of a host are under `/operations/`, its row is not.
        let listPath := if s.store.has listPath then listPath else replaceOnce "/operations/" "/config/" listPath
        let idKey := idKeyFor b.kinds listPath
        match s.store.entity listPath idKey extId with
        | none => .error (.error 404 ("no entity " ++ extId))
        | some e =>
            let wantsEtag := found.all fun p => p.2.needsEtag
            match wantsEtag, r.ifMatch with
            | true, none => .error (.error 400 "If-Match header is required")
            | true, some tag =>
                if tag ≠ b.etagOf e then .error (.error 412 "ETag mismatch")
                else .ok (some { listPath, idKey, extId })
            | false, some _ => .error (.error 400 "no If-Match expected for this action")
            | false, none => .ok (some { listPath, idKey, extId })
  else if !s.store.has r.apiPath && !b.kinds.any (fun k => sameShape k.listPath r.apiPath) then
    .error (.error 404 ("unknown path " ++ r.apiPath))
  else .ok none

/-- A body is refused where an action takes none, and required where it needs one. -/
def bodyOf (r : Mutation) (found : Option (Kind × Action)) : Except Refusal Unit :=
  if Text.contains "/$actions/" r.apiPath then
    match found with
    | some (_, action) =>
        if !action.takesBody && r.body.isSome then .error (.error 400 "no body expected for this action")
        else if action.needsBody && r.body.isNone then .error (.error 400 "request body required")
        else .ok ()
    | none => .ok ()
  else .ok ()

/-- The task that a request is to cancel. -/
def cancelOf (r : Mutation) : Option String :=
  (Text.stripPrefix b.tasksPath r.apiPath).bind fun rest =>
    (Text.stripPrefix "/" rest).bind fun rest => Text.stripSuffix "/$actions/cancel" rest

/-- The statuses of a task that cannot be cancelled. -/
def settled : List String := ["SUCCEEDED", "FAILED", "CANCELING", "CANCELED"]

def cancelable (e : Json) : Bool :=
  ((e.get "isCancelable").bind Json.asBool) == some true && !settled.contains ((textAt e "status").getD "")

/-- A task is cancelled; one that the server did not make is taken up for it. -/
def cancel (r : Mutation) (extId : String) : Except Refusal (Server × Answer) :=
  match (s.row b extId).filter cancelable with
  | none => .error (.error 400 "task is not cancelable")
  | some e =>
      let t := (s.tasks extId).getD { operation := (textAt e "operation").getD "", path := r.apiPath }
      if t.canceling then .error (.error 400 "task is not cancelable")
      else .ok ({ s with tasks := Function.update s.tasks extId (some { t with canceling := true }) }, .cancelling)

/-- The identifier of the task that is made next. -/
def taskId : String := "ZXJnb24=:" ++ d.uuid 0

/-- The row of a new task. -/
def taskRow (t : MockTask) : Json :=
  let affected := t.target.toList.map fun target =>
    let name := (s.store.entity target.listPath target.idKey target.extId).bind fun e => nameKeys.findSome? (textAt e ·)
    Json.obj [("extId", .str target.extId), ("rel", .str "mock"), ("name", .str (name.getD target.extId))]
  let description :=
    match affected.head?.bind (textAt · "name") with
    | some name => t.operation ++ " on " ++ name
    | none => t.operation
  let (status, progress) := b.taskSteps.head?.getD ("QUEUED", 0)
  let created := createdAt b d 0
  let row := Json.obj [
    ("$objectType", .str "prism.v4.config.Task"),
    ("extId", .str (taskId d)),
    ("operation", .str t.operation),
    ("operationDescription", .str description),
    ("status", .str status),
    ("progressPercentage", .num (.int progress)),
    ("createdTime", .str created),
    ("lastUpdatedTime", .str created),
    ("isCancelable", .bool true),
    ("numberOfSubtasks", .num (.int 0)),
    ("numberOfEntitiesAffected", .num (.int affected.length)),
    ("entitiesAffected", .arr affected),
    ("subSteps", .arr [])]
  -- A task that is queued has not started.
  if status ≠ "QUEUED" then put row "startedTime" (.str created) else row

/-- A task is made, and its row is listed. -/
def startTask (t : MockTask) : Server :=
  { store := s.store.push b.tasksPath (taskRow b d s t), tasks := Function.update s.tasks (taskId d) (some t) }

/-- The name of a method, as an operation that the catalog has no action for. -/
def methodName : Method → String
  | .get => "get"
  | .post => "post"
  | .put => "put"
  | .patch => "patch"
  | .delete => "delete"

/-- The task a request asks for. -/
def asked (r : Mutation) (found : Option (Kind × Action)) (target : Option Target) : MockTask :=
  { operation := (found.map fun p => p.2.name).getD (methodName r.method)
    target
    actionPath := found.map fun p => p.2.path
    path := r.apiPath
    body := r.body }

/-- A mutation: refused, a task cancelled, or a task made. -/
def mutate (r : Mutation) : Except Refusal (Server × Answer) :=
  if !r.requestId then .error (.error 400 "NTNX-Request-Id header is required")
  else
    let found := catalogActionOf b r
    match found.filter fun p => b.forbidAction.contains (p.1.id, p.2.name) with
    | some (kind, action) =>
        .error (.error 403 (action.name ++ " on " ++ kind.id ++ " is not permitted for this account"))
    | none =>
        match s.targetOf b r found with
        | .error e => .error e
        | .ok target =>
            match bodyOf r found with
            | .error e => .error e
            | .ok () =>
                match cancelOf b r with
                | some extId => s.cancel b r extId
                | none => .ok (s.startTask b d (asked r found target), .task (taskId d))

end Server

/-! ### Lists after an operation -/

theorem splitOnceList_eq {sep : List Char} {cs a c : List Char} (h : Text.splitOnceList sep cs = some (a, c)) :
    cs = a ++ sep ++ c := by
  induction cs generalizing a with
  | nil =>
      rw [Text.splitOnceList] at h
      split at h
      · rename_i hsep
        cases h
        rw [List.isEmpty_iff.1 hsep]
        rfl
      · cases h
  | cons x cs ih =>
      rw [Text.splitOnceList] at h
      split at h
      · rename_i hsep
        obtain ⟨rest, hrest⟩ := List.isPrefixOf_iff_prefix.1 hsep
        cases h
        rw [← hrest, List.drop_left]
        rfl
      · rw [Option.map_eq_some_iff] at h
        obtain ⟨⟨a', c'⟩, hsplit, hp⟩ := h
        cases hp
        rw [ih hsplit]
        rfl

theorem get_put_ne {v : Json} {key key' : String} (h : key' ≠ key) (value : Json) :
    (put v key value).get key' = v.get key' := by
  cases v with
  | obj members => rw [put, Json.get_obj, Json.get_obj, IndexMap.lookup_put, if_neg h]
  | null | bool _ | num _ | str _ | arr _ => rfl

theorem get_put_self {v x : Json} {key' : String} (h : v.get key' = some x) (key : String) (value : Json) :
    (put v key value).get key = some value := by
  cases v with
  | obj members => rw [put, Json.get_obj, IndexMap.lookup_put, if_pos rfl]
  | null | bool _ | num _ | str _ | arr _ => cases h

namespace Store

variable {s s' : Store} {p q : String}

theorem list_modify (s : Store) (p q : String) (f : List Json → List Json) :
    (s.modify p f).list q = if q = p then (s.list p).map f else s.list q := by
  rw [modify]
  cases hp : s.list p with
  | none =>
      by_cases h : q = p
      · rw [if_pos h, h]
        exact hp
      · rw [if_neg h]
  | some items => exact IndexMap.get?_insert ..

theorem list_push (s : Store) (p q : String) (e : Json) :
    (s.push p e).list q = if q = p then some ((s.list p).getD [] ++ [e]) else s.list q :=
  IndexMap.get?_insert ..

theorem entity_of_list (h : s.list p = s'.list p) (idKey extId : String) :
    s.entity p idKey extId = s'.entity p idKey extId := by
  rw [entity, entity, h]

theorem textAt_of_entity {idKey extId : String} {e : Json} (h : s.entity p idKey extId = some e) :
    textAt e idKey = some extId := by
  obtain ⟨items, -, hfind⟩ := Option.bind_eq_some_iff.1 h
  exact Rows.key_of_find (textAt · idKey) hfind

/-- Two stores have the same lists, but for one. -/
def Agree (p : String) (s s' : Store) : Prop := ∀ q, q ≠ p → s.list q = s'.list q

theorem Agree.trans {t : Store} (h : Agree p s s') (h' : Agree p s' t) : Agree p s t :=
  fun q hq => (h q hq).trans (h' q hq)

theorem Agree.symm (h : Agree p s s') : Agree p s' s := fun q hq => (h q hq).symm

theorem agree_modify (s : Store) (p : String) (f : List Json → List Json) : Agree p s (s.modify p f) := by
  intro q hq
  rw [list_modify, if_neg hq]

theorem agree_push (s : Store) (p : String) (e : Json) : Agree p s (s.push p e) := by
  intro q hq
  rw [list_push, if_neg hq]

theorem Agree.modify (h : Agree p s s') (q : String) (f : List Json → List Json) :
    Agree p (s.modify q f) (s'.modify q f) := by
  intro r hr
  rw [list_modify, list_modify]
  by_cases hrq : r = q
  · rw [if_pos hrq, if_pos hrq, h q (hrq ▸ hr)]
  · rw [if_neg hrq, if_neg hrq, h r hr]

theorem Agree.push (h : Agree p s s') (q : String) (e : Json) : Agree p (s.push q e) (s'.push q e) := by
  intro r hr
  rw [list_push, list_push]
  by_cases hrq : r = q
  · rw [if_pos hrq, if_pos hrq, h q (hrq ▸ hr)]
  · rw [if_neg hrq, if_neg hrq, h r hr]

/-- A row that is found in a list was found in it before, and the two agree in some respect. -/
def Within (P : Json → Json → Prop) (p : String) (s s' : Store) : Prop :=
  ∀ extId e', s'.entity p "extId" extId = some e' → ∃ e, s.entity p "extId" extId = some e ∧ P e e'

variable {P : Json → Json → Prop}

theorem within_of_list (hP : ∀ e, P e e) (h : s'.list p = s.list p) : Within P p s s' := by
  intro extId e' he
  rw [entity_of_list h] at he
  exact ⟨e', he, hP e'⟩

theorem within_of_rows {f : List Json → List Json}
    (h : ∀ items, s.list p = some items → Rows.Within (textAt · "extId") P items (f items)) :
    Within P p s (s.modify p f) := by
  intro extId e' he
  rw [entity, list_modify, if_pos rfl] at he
  obtain ⟨items', hitems', hfind⟩ := Option.bind_eq_some_iff.1 he
  obtain ⟨items, hitems, rfl⟩ := Option.map_eq_some_iff.1 hitems'
  obtain ⟨e, hfind, hP⟩ := h items hitems extId e' hfind
  exact ⟨e, by rw [entity, hitems]; exact hfind, hP⟩

/-- A row in place of one it agrees with. -/
theorem within_replace (hP : ∀ e, P e e) {extId : String} {e new : Json} (he : s.entity p "extId" extId = some e)
    (hnew : textAt new "extId" = some extId) (h : P e new) : Within P p s (s.replace p "extId" extId new) := by
  refine within_of_rows fun items hitems => ?_
  rw [entity, hitems] at he
  exact Rows.within_replace hP he hnew h

theorem within_remove (hP : ∀ e, P e e) (extId : String) : Within P p s (s.remove p "extId" extId) :=
  within_of_rows fun items _ => Rows.within_remove hP extId items

end Store

/-! ### Effects -/

theorem text_of_splitOnce {sep s head tail : String} (h : Text.splitOnce sep s = some (head, tail)) :
    s.toList = head.toList ++ sep.toList ++ tail.toList := by
  obtain ⟨⟨a, c⟩, hsplit, hp⟩ := Option.map_eq_some_iff.1 h
  cases hp
  rw [String.toList_ofList, String.toList_ofList]
  exact splitOnceList_eq hsplit

/-- The list of the tasks does not end as others do. -/
theorem not_endsWith {p tail : String} (hp : Text.endsWith "/config/tasks" p = true)
    (htail : ¬ tail.toList <:+ "/config/tasks".toList ∧ ¬ "/config/tasks".toList <:+ tail.toList) :
    Text.endsWith tail p = false := by
  rw [Text.endsWith, List.isSuffixOf_iff_suffix] at hp
  rw [Text.endsWith, ← Bool.not_eq_true, List.isSuffixOf_iff_suffix]
  intro h
  obtain hle | hle := Nat.le_total tail.toList.length "/config/tasks".toList.length
  · exact htail.1 (List.suffix_of_suffix_length_le h hp hle)
  · exact htail.2 (List.suffix_of_suffix_length_le hp h hle)

/-- The hosts of a cluster are not listed where the tasks are, nor are all hosts. -/
theorem topLevelHosts_of_tasks {p : String} (hp : Text.endsWith "/config/tasks" p = true) :
    topLevelHosts p = none := by
  by_contra h
  obtain ⟨top, htop⟩ := Option.ne_none_iff_exists'.1 h
  simp only [topLevelHosts, Option.bind_eq_bind, Option.bind_eq_some_iff, Prod.exists] at htop
  obtain ⟨head, tail, hhead, mid, rest, htail, hrest⟩ := htop
  split at hrest
  · rename_i hhosts
    subst hhosts
    have hends : Text.endsWith "/hosts" p = true := by
      rw [Text.endsWith, List.isSuffixOf_iff_suffix]
      refine ⟨head.toList ++ "/config/clusters/".toList ++ mid.toList, ?_⟩
      rw [text_of_splitOnce hhead, text_of_splitOnce htail]
      simp
    rw [not_endsWith hp (by decide)] at hends
    cases hends
  · cases hrest

theorem topLevelHosts_ne {p listPath top : String} (hp : Text.endsWith "/config/tasks" p = true)
    (h : topLevelHosts listPath = some top) : top ≠ p := by
  rintro rfl
  simp only [topLevelHosts, Option.bind_eq_bind, Option.bind_eq_some_iff, Prod.exists] at h
  obtain ⟨head, tail, hhead, mid, rest, htail, hrest⟩ := h
  split at hrest
  · cases hrest
    have hends : Text.endsWith "/config/hosts" (head ++ "/config/hosts") = true := by
      rw [Text.endsWith, List.isSuffixOf_iff_suffix, String.toList_append]
      exact List.suffix_append _ _
    rw [not_endsWith hp (by decide)] at hends
    cases hends
  · cases hrest

variable {b : Builder} {d : Draws} {s s' : Store} {t : MockTask} {p : String}

/-- What is written in place of a row has its identifier, and can be cancelled as it could. -/
theorem change_write {target : Target} {e e' : Json} (h : change b d t target e = .write e') :
    e'.get "extId" = e.get "extId" ∧ e'.get "isCancelable" = e.get "isCancelable" := by
  rw [change] at h
  repeat' split at h
  all_goals cases h
  all_goals simp [get_put_ne]

/-- Only an alert has a status that is written. -/
theorem change_status {target : Target} {e e' : Json} (h : change b d t target e = .write e')
    (ht : t.action ≠ some "manage-alert") : e'.get "status" = e.get "status" := by
  rw [change, if_neg ht] at h
  repeat' split at h
  all_goals cases h
  all_goals simp [get_put_ne]

/-- The copy of a row is added to a list of machines. -/
theorem change_add {target : Target} {e copy : Json} (h : change b d t target e = .add copy) :
    Text.endsWith "/ahv/config/vms" target.listPath = true := by
  rw [change] at h
  repeat' split at h
  all_goals try cases h
  rename_i hclone
  exact hclone.2

/-- The row that was written, in the list of all hosts as well. -/
def written (store : Store) (target : Target) (e : Json) : Store :=
  match topLevelHosts target.listPath with
  | some top => (store.replace target.listPath target.idKey target.extId e).replace top target.idKey target.extId e
  | none => store.replace target.listPath target.idKey target.extId e

/-- What an effect on a row is. -/
theorem applyEffect_of_target {target : Target} (ht : t.target = some target) : applyEffect b d s t =
    match s.entity target.listPath target.idKey target.extId with
    | none => s
    | some e =>
        match change b d t target e with
        | .leave => s
        | .add copy => s.push target.listPath copy
        | .drop => s.remove target.listPath target.idKey target.extId
        | .write e => written s target e := by
  rw [applyEffect, ht]
  dsimp only
  cases s.entity target.listPath target.idKey target.extId with
  | none => rfl
  | some e =>
      dsimp only
      cases change b d t target e <;> rfl

/-- An effect on a row of a list changes no other list, unless it is that of a host. -/
theorem agree_applyEffect {target : Target} (ht : t.target = some target)
    (htop : topLevelHosts target.listPath = none) : Store.Agree target.listPath s (applyEffect b d s t) := by
  rw [applyEffect_of_target ht]
  cases s.entity target.listPath target.idKey target.extId with
  | none => exact fun q _ => rfl
  | some e =>
      dsimp only
      cases change b d t target e with
      | leave => exact fun q _ => rfl
      | add copy => exact Store.agree_push _ _ _
      | drop => exact Store.agree_modify _ _ _
      | write e =>
          dsimp only [written]
          rw [htop]
          exact Store.agree_modify _ _ _

/-- **An effect does not depend on the list of the tasks**, which it may change. -/
theorem applyEffect_agree (hp : Text.endsWith "/config/tasks" p = true) (h : Store.Agree p s s') :
    Store.Agree p (applyEffect b d s t) (applyEffect b d s' t) := by
  cases ht : t.target with
  | none =>
      rw [applyEffect, applyEffect, ht]
      dsimp only
      split
      · exact h.push _ _
      · exact h
  | some target =>
      by_cases hlist : target.listPath = p
      · subst hlist
        have htop := topLevelHosts_of_tasks hp
        exact (agree_applyEffect ht htop).symm.trans (h.trans (agree_applyEffect ht htop))
      · rw [applyEffect_of_target ht, applyEffect_of_target ht, Store.entity_of_list (h _ hlist)]
        cases s'.entity target.listPath target.idKey target.extId with
        | none => exact h
        | some e =>
            dsimp only
            cases change b d t target e with
            | leave => exact h
            | add copy => exact h.push _ _
            | drop => exact h.modify _ _
            | write e =>
                dsimp only [written]
                cases topLevelHosts target.listPath with
                | none => exact h.modify _ _
                | some top => exact (h.modify _ _).modify _ _

/-- **An effect keeps of the tasks what it keeps of a row it writes**: it may take one away, and adds none. -/
theorem applyEffect_within {P : Json → Json → Prop} (hP : ∀ e, P e e) (hp : Text.endsWith "/config/tasks" p = true)
    (ht : ∀ target, t.target = some target → target.listPath = p → target.idKey = "extId" ∧
      ∀ e e', change b d t target e = .write e' → P e e') :
    Store.Within P p s (applyEffect b d s t) := by
  cases htarget : t.target with
  | none =>
      rw [applyEffect, htarget]
      dsimp only
      split
      · rename_i hend
        refine Store.within_of_list hP ?_
        rw [Store.list_push, if_neg]
        rintro rfl
        rw [not_endsWith hp (by decide)] at hend
        cases hend
      · exact Store.within_of_list hP rfl
  | some target =>
      obtain ⟨listPath, idKey, extId⟩ := target
      rw [applyEffect_of_target htarget]
      dsimp only
      by_cases hlist : listPath = p
      · subst hlist
        obtain ⟨hid, hwrite⟩ := ht _ htarget rfl
        obtain rfl : idKey = "extId" := hid
        cases he : s.entity listPath "extId" extId with
        | none => exact Store.within_of_list hP rfl
        | some e =>
            dsimp only
            cases hchange : change b d t ⟨listPath, "extId", extId⟩ e with
            | leave => exact Store.within_of_list hP rfl
            | add copy =>
                have hend := change_add hchange
                rw [not_endsWith hp (by decide)] at hend
                cases hend
            | drop => exact Store.within_remove hP extId
            | write e' =>
                dsimp only [written]
                rw [topLevelHosts_of_tasks hp]
                refine Store.within_replace hP he ?_ (hwrite e e' hchange)
                rw [textAt, (change_write hchange).1]
                exact Store.textAt_of_entity he
      · refine Store.within_of_list hP ?_
        cases s.entity listPath idKey extId with
        | none => rfl
        | some e =>
            dsimp only
            cases change b d t ⟨listPath, idKey, extId⟩ e with
            | leave => rfl
            | add copy => rw [Store.list_push, if_neg (Ne.symm hlist)]
            | drop => rw [Store.remove, Store.list_modify, if_neg (Ne.symm hlist)]
            | write e' =>
                dsimp only [written]
                cases htop : topLevelHosts listPath with
                | none =>
                    dsimp only [Store.replace]
                    rw [Store.list_modify, if_neg (Ne.symm hlist)]
                | some top =>
                    dsimp only [Store.replace]
                    rw [Store.list_modify, if_neg (topLevelHosts_ne hp htop).symm, Store.list_modify,
                      if_neg (Ne.symm hlist)]

/-! ### Requests -/

namespace Server

variable {s : Server} {extId : String} {e : Json}

/-- What a step does to a task that is listed. -/
inductive Advanced (b : Builder) (d : Draws) (s : Server) (extId : String) (e : Json) : Server → Prop where
  | untouched (h : s.tasks extId = none) : Advanced b d s extId e s
  | canceling (t : MockTask) (ht : s.tasks extId = some t) (hc : t.canceling = true) (e' : Json)
      (hkey : textAt e' "extId" = some extId) (hstatus : textAt e' "status" ≠ some "SUCCEEDED")
      (tasks : String → Option MockTask) (htasks : tasks = s.tasks ∨ tasks = Function.update s.tasks extId none) :
      Advanced b d s extId e { store := s.store.replace b.tasksPath "extId" extId e', tasks }
  | still (t : MockTask) (ht : s.tasks extId = some t) (hc : t.canceling = false)
      (h : b.stallTask.contains t.operation = true ∨ b.taskSteps.length ≤ t.step) : Advanced b d s extId e s
  | stepped (t : MockTask) (ht : s.tasks extId = some t) (hc : t.canceling = false)
      (hstall : b.stallTask.contains t.operation = false) (status : String) (progress : ℕ)
      (hstep : b.taskSteps[t.step]? = some (status, progress)) :
      Advanced b d s extId e
        { store := (if terminal b t && !failing b t then applyEffect b d s.store t else s.store).replace b.tasksPath
            "extId" extId (steppedRow b d t status progress e)
          tasks := Function.update s.tasks extId (some { t with step := t.step + 1 }) }

theorem textAt_put_ne {v : Json} {key key' : String} (h : key' ≠ key) (value : Json) :
    textAt (put v key value) key' = textAt v key' := by
  rw [textAt, textAt, get_put_ne h]

theorem textAt_put_self {v : Json} {key' text : String} (h : textAt v key' = some text) (key value : String) :
    textAt (put v key (.str value)) key = some value := by
  obtain ⟨x, hx, -⟩ := Option.bind_eq_some_iff.1 h
  rw [textAt, get_put_self hx]
  rfl

/-- The row of a task that is being cancelled is its row still, and reads so. -/
theorem canceledRow_spec {t : MockTask} (h : textAt e "extId" = some extId) :
    textAt (canceledRow b d t e) "extId" = some extId ∧ textAt (canceledRow b d t e) "status" ≠ some "SUCCEEDED" := by
  rw [canceledRow]
  split
  · refine ⟨by simp [textAt_put_ne, h], ?_⟩
    rw [textAt_put_ne (by decide), textAt_put_ne (by decide), textAt_put_ne (by decide), textAt_put_self h]
    decide
  · refine ⟨by simp [textAt_put_ne, h], ?_⟩
    rw [textAt_put_ne (by decide), textAt_put_self h]
    decide

theorem shownRow_spec (status : String) (progress : ℕ) (moment : String) (h : textAt e "extId" = some extId) :
    textAt (shownRow status progress moment e) "extId" = some extId ∧
      textAt (shownRow status progress moment e) "status" = some status := by
  have hself : textAt (put e "status" (.str status)) "status" = some status := textAt_put_self h _ _
  rw [shownRow]
  split
  · simp [textAt_put_ne, h, hself]
  · simp [textAt_put_ne, h, hself]

theorem endedRow_spec (t : MockTask) (moment : String) (h : textAt e "extId" = some extId) :
    textAt (endedRow b t moment e) "extId" = some extId ∧
      textAt (endedRow b t moment e) "status" = textAt e "status" ∧
      (endedRow b t moment e).get "isCancelable" = some (.bool false) := by
  have hid : textAt (put e "completedTime" (.str moment)) "extId" = some extId := by simp [textAt_put_ne, h]
  obtain ⟨x, hx, -⟩ := Option.bind_eq_some_iff.1 hid
  rw [endedRow]
  split
  · simp [textAt_put_ne, get_put_ne, get_put_self hx, h]
  · simp [textAt_put_ne, get_put_self hx, h]

/-- The row of a task after a step is its row still, and shows the status of the step. -/
theorem steppedRow_spec {t : MockTask} {status : String} {progress : ℕ} (h : textAt e "extId" = some extId) :
    textAt (steppedRow b d t status progress e) "extId" = some extId ∧
      textAt (steppedRow b d t status progress e) "status" =
        some (if terminal b t && failing b t then "FAILED" else status) := by
  have hshown (moment : String) :=
    shownRow_spec (if terminal b t && failing b t then "FAILED" else status) progress moment h
  rw [steppedRow]
  split
  · obtain ⟨hid, hstatus⟩ := hshown (doneAt b d 0)
    obtain ⟨hid', hstatus', -⟩ := endedRow_spec (b := b) t (doneAt b d 0) hid
    exact ⟨hid', hstatus'.trans hstatus⟩
  · exact hshown (steppedAt b d 0 t.step)

/-- The last step leaves nothing to cancel. -/
theorem steppedRow_terminal {t : MockTask} {status : String} {progress : ℕ} (h : textAt e "extId" = some extId)
    (ht : terminal b t = true) :
    (steppedRow b d t status progress e).get "isCancelable" = some (.bool false) := by
  rw [steppedRow, if_pos ht]
  exact (endedRow_spec t _ (shownRow_spec _ _ _ h).1).2.2

theorem advanced (hrow : s.row b extId = some e) : Advanced b d s extId e (s.advance b d extId) := by
  have hkey := Store.textAt_of_entity hrow
  rw [advance]
  cases ht : s.tasks extId with
  | none => exact .untouched ht
  | some t =>
      dsimp only
      rw [hrow]
      dsimp only
      split
      · rename_i hc
        obtain ⟨hid, hstatus⟩ := canceledRow_spec (b := b) (d := d) (t := t) hkey
        refine .canceling t ht hc _ hid hstatus _ ?_
        split
        · exact .inr rfl
        · exact .inl rfl
      · rename_i hc
        rw [Bool.not_eq_true] at hc
        split
        · rename_i hstall
          exact .still t ht hc (.inl hstall)
        · rename_i hstall
          rw [Bool.not_eq_true] at hstall
          cases hstep : b.taskSteps[t.step]? with
          | none => exact .still t ht hc (.inr (List.getElem?_eq_none_iff.1 hstep))
          | some p => exact .stepped t ht hc hstall p.1 p.2 hstep

/-- A task whose row is not listed goes no further. -/
theorem advance_of_row (h : s.row b extId = none) : s.advance b d extId = s := by
  rw [advance]
  cases s.tasks extId with
  | none => rfl
  | some t =>
      dsimp only
      rw [h]

/-- The server after a read of a row. -/
theorem getRow_server (apiPath : String) (otherwise : Except Refusal Answer) :
    (s.getRow b d apiPath otherwise).1 = (s.polledAt b apiPath).elim s (s.advance b d) := by
  rw [getRow, polledAt]
  cases rsplitOnce "/" apiPath with
  | none => rfl
  | some p =>
      obtain ⟨listPath, extId⟩ := p
      dsimp only [Option.bind_some]
      have hserver : (if listPath = b.tasksPath then s.advance b d extId else s) =
          (if listPath = b.tasksPath ∧ (s.row b extId).isSome then some extId else none).elim s (s.advance b d) := by
        by_cases hlist : listPath = b.tasksPath
        · cases hrow : s.row b extId with
          | none => simp [hlist, advance_of_row hrow]
          | some e => simp [hlist]
        · simp [hlist]
      rw [← hserver]
      generalize (if listPath = b.tasksPath then s.advance b d extId else s) = s'
      split
      · rfl
      · split <;> rfl

/-- **What a read does to the server**, whatever it answers: the task it is of goes one step further. -/
theorem get_server (F : Doubles) (apiPath : String) (query : Params) :
    (s.get b d F apiPath query).1 = (s.polled b F apiPath query).elim s (s.advance b d) := by
  rw [get, polled]
  split
  · rfl
  · rfl
  · split
    · rfl
    · exact getRow_server _ _

/-- What a mutation that is not refused does. -/
inductive Mutated (b : Builder) (d : Draws) (s : Server) (r : Mutation) : Server → Answer → Prop where
  | cancelled (extId : String) (h : cancelOf b r = some extId) (e : Json) (he : s.row b extId = some e)
      (hc : cancelable e = true) (t : MockTask) (ht : t.canceling = false)
      (hfrom : s.tasks extId = some t ∨ s.tasks extId = none ∧ t.target = none) :
      Mutated b d s r { s with tasks := Function.update s.tasks extId (some { t with canceling := true }) } .cancelling
  | begun (t : MockTask) (hstep : t.step = 0) (hc : t.canceling = false)
      (htarget : ∀ target, t.target = some target → target.idKey = idKeyFor b.kinds target.listPath) :
      Mutated b d s r (s.startTask b d t) (.task (taskId d))

theorem targetOf_idKey {r : Mutation} {found : Option (Kind × Action)} {target : Target}
    (h : s.targetOf b r found = .ok (some target)) : target.idKey = idKeyFor b.kinds target.listPath := by
  rw [targetOf] at h
  dsimp only at h
  repeat' split at h
  all_goals cases h
  all_goals rfl

theorem mutated {r : Mutation} {s' : Server} {a : Answer} (h : s.mutate b d r = .ok (s', a)) :
    Mutated b d s r s' a := by
  rw [mutate] at h
  dsimp only at h
  split at h
  · cases h
  split at h
  · cases h
  split at h
  · cases h
  rename_i target htarget
  split at h
  · cases h
  split at h
  · rename_i extId hcancel
    rw [cancel] at h
    dsimp only at h
    split at h
    · cases h
    rename_i e he
    obtain ⟨hrow, hc⟩ := Option.filter_eq_some_iff.1 he
    split at h
    · cases h
    rename_i ht
    rw [Bool.not_eq_true] at ht
    cases h
    refine .cancelled extId hcancel e hrow hc _ ht ?_
    cases htasks : s.tasks extId with
    | none => exact .inr ⟨rfl, rfl⟩
    | some t => exact .inl rfl
  · cases h
    exact .begun _ rfl rfl fun target' ht => targetOf_idKey (htarget.trans (congrArg _ ht))

end Server

end Nutsh.Mock
