import Runbook.Data.Value
import Runbook.Document.Load

/-!
# Load options as data

Every field may be missing, and then has its default.
-/

namespace Runbook.Data

open Document (Options)

def encodeOptions (o : Options) : Value :=
  .object [("default_parallel", .bool o.defaultParallel),
    ("strict_includes", .bool o.strictIncludes),
    ("load_sibling_conf", .bool o.siblingConfig),
    ("conf_suffix", .string o.configSuffix)]

/-- A field of an object, or its default when the object lacks it. -/
def optionalField? {α : Type} (v : Value) (name : String) (decode : Value → Option α) (default : α) :
    Option α :=
  match v.field? name with
  | some x => decode x
  | none => some default

def decodeOptions? (v : Value) : Option Options := do
  let _ ← v.object?
  let o : Options := {}
  return {
    defaultParallel := ← optionalField? v "default_parallel" Value.bool? o.defaultParallel
    strictIncludes := ← optionalField? v "strict_includes" Value.bool? o.strictIncludes
    siblingConfig := ← optionalField? v "load_sibling_conf" Value.bool? o.siblingConfig
    configSuffix := ← optionalField? v "conf_suffix" Value.string? o.configSuffix }

end Runbook.Data
