import TripleQuery.Graphs.Databases
import TripleQuery.Session.Call
import TripleQuery.Statements.Listing
import TripleQuery.Proofs.Condition.Acceptance
import TripleQuery.Proofs.Iri.Characters
import TripleQuery.Proofs.Query.Assembly
import TripleQuery.Proofs.Query.Columns
import TripleQuery.Proofs.Names
import TripleQuery.Proofs.Query.Naming
import TripleQuery.Proofs.Query.StatementColumns
import TripleQuery.Proofs.Session.OneCall
import TripleQuery.Proofs.Session.History
import TripleQuery.Proofs.Session.StatementRows
import TripleQuery.Proofs.Text.Apart
import TripleQuery.Proofs.Shown.Pattern
import TripleQuery.Proofs.Shown.Expression
import TripleQuery.Proofs.Shown.Column
import TripleQuery.Proofs.Shown.Query
import TripleQuery.Proofs.Condition.Written
import TripleQuery.Proofs.Errors.Condition
import TripleQuery.Proofs.Errors.Query
import TripleQuery.Proofs.Expansion.Condition
import TripleQuery.Proofs.Expansion.Query
import TripleQuery.Proofs.Iri.Authority
import TripleQuery.Proofs.Iri.Grammar
import TripleQuery.Proofs.Iri.Host
import TripleQuery.Proofs.Server.Canonical
import TripleQuery.Proofs.Session.Accepted
import TripleQuery.Proofs.Statements.Meaning
import TripleQuery.Proofs.Statements.Renaming
import TripleQuery.Proofs.Session.References
import TripleQuery.Proofs.Session.LocalGraphs
import TripleQuery.Proofs.Session.WrittenNames
import TripleQuery.Proofs.Session.StatementLiterals
import TripleQuery.Proofs.Query.Projection
import TripleQuery.Proofs.Server.Rewriting
import TripleQuery.Proofs.Expansion.Token
import TripleQuery.Proofs.Shown.Strands
import TripleQuery.Proofs.Condition.Restriction
import TripleQuery.Proofs.Statements.Tables
import TripleQuery.Proofs.Errors.Statements
import TripleQuery.Proofs.Statements.Gathered
import TripleQuery.Proofs.Statements.Agreement
import TripleQuery.Proofs.Session.Deletion
import TripleQuery.Proofs.Graphs.Written
import TripleQuery.Proofs.Graphs.Databases
import TripleQuery.Proofs.Expansion.ReadAlike
import TripleQuery.Proofs.Session.Interchangeable
import TripleQuery.Proofs.Expansion.Stability
