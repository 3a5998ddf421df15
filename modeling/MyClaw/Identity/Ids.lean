import MyClaw.Scheduler.Types

set_option autoImplicit false

/-!
# Identifiers

An identifier `<namespace>/<type>/<uuid>` (`ids/mod.rs`) and the directory of the entity it names.

## Main definitions

* `Fqid`, `Fqid.parse` — a parsed identifier.
* `bareDirNameOf` — the name of the directory, with the uuid parser as its only parameter.
-/

namespace MyClaw

/-- `Fqid`: a parsed identifier, with its uuid in the standard form. -/
structure Fqid where
  nspace : String
  typeSeg : String
  uuid : String

/-- `Fqid::parse`. -/
def Fqid.parse (parseUuid : String → Option String) (s nspace : String) : Option Fqid :=
  match splitOnce '/' s.toList with
  | none => none
  | some (ns, rest) =>
    if String.ofList ns ≠ nspace then none
    else
      match splitOnce '/' rest with
      | none => none
      | some (typeSeg, uuid) =>
        if typeSeg = [] ∨ uuid = [] then none
        else
          (parseUuid (String.ofList uuid)).map fun standard =>
            ⟨String.ofList ns, String.ofList typeSeg, standard⟩

/-- `bare_dir_name`. -/
def bareDirNameOf (parseUuid : String → Option String) (id : String) : String :=
  match Fqid.parse parseUuid id defaultNamespace with
  | some f => f.uuid
  | none => dirName id

end MyClaw
