import PageQueries.Main
import PageQueries.Proofs.Classification.Partition
import PageQueries.Proofs.Fence.LineEnds
import PageQueries.Proofs.Preprocessor.Correlation
import PageQueries.Proofs.Preprocessor.Reextraction
import PageQueries.Proofs.Script.Blocks
import PageQueries.Proofs.Script.Literal
import PageQueries.Proofs.Script.Names
import PageQueries.Proofs.Script.Scopes
import PageQueries.Proofs.Command.Agreement
import PageQueries.Proofs.Store.Corruption
import PageQueries.Proofs.Store.History
import PageQueries.Proofs.Markup.Entities
import PageQueries.Proofs.Record
import PageQueries.Proofs.Preprocessor.Failure
import PageQueries.Proofs.Store.Listing
import PageQueries.Proofs.Script.Missing
import PageQueries.Proofs.Fence.Written
import PageQueries.Proofs.RouteKey
import PageQueries.Proofs.Settings.Loading
import PageQueries.Proofs.Settings.Valid
import PageQueries.Proofs.Classification.Assignments
import PageQueries.Proofs.Command.Refusals
import PageQueries.Proofs.Command.Report
