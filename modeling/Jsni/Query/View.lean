import Jsni.Query.Basic
import Jsni.Table

/-!
# Terms as a table
-/

namespace Jsni.Query

def Term.cells (t : Term) : List String :=
  [toString t.position, t.text, if t.quoted then "true" else "false"]

def render (query : String) : String :=
  match terms query with
  | [] => "No terms."
  | ts => Table.render ["position", "text", "quoted"] (ts.map Term.cells)

end Jsni.Query
