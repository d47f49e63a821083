/-!
# Where a reference stands

The package, the imports and the enclosing types of a reference decide what its class name means.
-/

namespace Jsni

structure ImportContext where
  package : Option String := none
  /-- Single-type imports. -/
  imports : List String := []
  /-- Packages and types imported on demand, without their `.*`. -/
  onDemand : List String := []
  /-- Enclosing types, innermost first. -/
  enclosing : List String := []
deriving DecidableEq, Repr, Inhabited

namespace ImportContext

/-- What an on-demand import names: the text before its `.*`. -/
def onDemandTarget? (imported : String) : Option String :=
  match imported.toList.reverse with
  | '*' :: '.' :: rest => some (String.ofList rest.reverse)
  | _                  => none

/-- The context of a list of imports as written after `import`. -/
def ofImports (package : Option String) (imports enclosing : List String) : ImportContext where
  package
  imports := imports.filter (onDemandTarget? · |>.isNone)
  onDemand := imports.filterMap onDemandTarget?
  enclosing

end ImportContext

end Jsni
