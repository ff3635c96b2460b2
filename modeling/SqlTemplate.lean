import SqlTemplate.CommandLine.Start
import SqlTemplate.Proofs.Text.Place
import SqlTemplate.Proofs.Text.Scan
import SqlTemplate.Proofs.Text.Words
import SqlTemplate.Proofs.Keyword.Spelling
import SqlTemplate.Proofs.Keyword.FreeStanding
import SqlTemplate.Proofs.Clause.Reading
import SqlTemplate.Proofs.Clause.Places
import SqlTemplate.Proofs.Clause.Grammar
import SqlTemplate.Proofs.Pruning.Edits
import SqlTemplate.Proofs.Pruning.Run
import SqlTemplate.Proofs.Pruning.Promotion
import SqlTemplate.Proofs.Filter.Clauses
import SqlTemplate.Proofs.Filter.Run
import SqlTemplate.Proofs.Filter.Pruned
import SqlTemplate.Proofs.Placeholder.Places
import SqlTemplate.Proofs.Placeholder.Seams
import SqlTemplate.Proofs.Placeholder.Cut
import SqlTemplate.Proofs.Bindings.Arrangement
import SqlTemplate.Proofs.Pruning.Script
import SqlTemplate.Proofs.Pruning.Placeholders
import SqlTemplate.Proofs.Pruning.Renaming
import SqlTemplate.Proofs.Query.Slots
import SqlTemplate.Proofs.Clause.UpperBounds
import SqlTemplate.Proofs.Clause.Placeholders
import SqlTemplate.Proofs.Pruning.Rewriting
import SqlTemplate.Proofs.Pruning.Record
import SqlTemplate.Proofs.Pruning.Permuted
import SqlTemplate.Proofs.Pruning.ConnectorNames
import SqlTemplate.Proofs.Query.Values
import SqlTemplate.Proofs.Query.Positional
import SqlTemplate.Proofs.Query.Unbound
import SqlTemplate.Proofs.Query.QuestionMarks
import SqlTemplate.Proofs.Number.Numeral
import SqlTemplate.Proofs.Literal.Assignment
import SqlTemplate.Proofs.Literal.Kinds
import SqlTemplate.Proofs.Literal.RoundTrip
import SqlTemplate.Proofs.Pruning.LeftOut
import SqlTemplate.Proofs.Pruning.Owed
import SqlTemplate.Proofs.Pruning.Length
import SqlTemplate.Proofs.Query.Retained
import SqlTemplate.Proofs.Query.Lookup
import SqlTemplate.Proofs.CommandLine.Precedence
import SqlTemplate.Proofs.Query.Permuted
import SqlTemplate.Proofs.Placeholder.Colons
import SqlTemplate.Proofs.Text.Capitals
import SqlTemplate.Proofs.Clause.Capitals
