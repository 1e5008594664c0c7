/-
Entities: the JSON of one row and what every view needs of it without knowing its kind.

Main definitions:

* `Entity` — a row: its kind, its id, its name, the entity tag of its GET and its JSON;
* `Entity.new` — an entity read out of JSON, its id and name found through the catalog.
-/
import Nutsh.Catalog

set_option relaxedAutoImplicit false
set_option autoImplicit false

namespace Nutsh

/-- The properties tried, in order, for the name of an entity. -/
def nameKeys : List String :=
  ["name", "hostName", "templateName", "title", "displayName", "username", "operation", "key",
    "clusterName", "containerName", "serviceName", "clientName", "ownerName"]

/-- One entity of a kind. -/
structure Entity where
  kind : Kind
  extId : String
  name : String
  /-- The `ETag` header of a single-entity GET. -/
  etag : Option String := none
  raw : Json

namespace Entity

/-- The id a document carries under the key of its kind, empty when it carries none. -/
def extIdOf (kind : Kind) (raw : Json) : String :=
  ((raw.get kind.extIdKey).bind Json.asStr).getD ""

/-- The name of a document: the curated path first, then the usual keys, then its id. -/
def nameOf (kind : Kind) (raw : Json) : String :=
  let named := if kind.namePath = "" then none else (Path.first raw kind.namePath).bind Json.asStr
  let keyed := nameKeys.findSome? fun k => (raw.get k).bind Json.asStr
  (named.or keyed).getD (extIdOf kind raw)

/-- The entity a document of a kind is. -/
def new (kind : Kind) (raw : Json) (etag : Option String) : Entity :=
  { kind, extId := extIdOf kind raw, name := nameOf kind raw, etag, raw }

end Entity

/-! ### A row to run the definitions on -/

/-- The kind of virtual machines, with no action. -/
def vmKind : Kind :=
  { id := "vmm.ahv.config.Vm", «namespace» := "vmm", display := "VMs",
    listPath := "/vmm/v4.0/ahv/config/vms", getPath := some "/vmm/v4.0/ahv/config/vms/{extId}" }

/-- A virtual machine of an id and a name. -/
def vm (extId name : String) : Entity :=
  Entity.new vmKind (.obj [("extId", .str extId), ("name", .str name)]) none

end Nutsh
