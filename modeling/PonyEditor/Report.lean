import PonyEditor.Diagnostic
import PonyEditor.Text.Path
import PonyEditor.View

/-!
# Reports

The diagnostics of one compiler run, held until the next run or until the text changes.  Shown in
a text, each becomes an underline; one whose line is not in the text is not shown.
-/

namespace PonyEditor

/-- A span to mark in the text, with what is wrong there. -/
structure Underline where
  span : Span
  message : String
  deriving DecidableEq, Repr

/-- The underlines of diagnostics in a text. -/
def View.underlines {σ : Type} [Lined σ] (v : View σ) (ds : List Diagnostic) : List Underline :=
  ds.filterMap fun d => (v.spanAt? d.line d.column).map fun span => ⟨span, d.message⟩

/-- The diagnostics of one compiler run. -/
structure Report where
  diagnostics : List Diagnostic := []
  deriving DecidableEq, Repr

namespace Report

/-- The report of a compiler's output. -/
def ofOutput (output : String) : Report := ⟨Diagnostic.ofOutput output⟩

/-- The number of diagnostics. -/
def size (r : Report) : Nat := r.diagnostics.length

/-- Whether there are no diagnostics. -/
def isEmpty (r : Report) : Bool := r.diagnostics.isEmpty

/-- Drops all diagnostics; says whether there were any. -/
def clear (r : Report) : Bool × Report := (!r.isEmpty, {})

/-- The diagnostics in a file. -/
def forFile (r : Report) (file : String) : List Diagnostic :=
  r.diagnostics.filter fun d => Path.ofString d.file = Path.ofString file

end Report
end PonyEditor
