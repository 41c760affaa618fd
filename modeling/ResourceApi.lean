import ResourceApi.Access.Policy
import ResourceApi.Failure
import ResourceApi.Http.Route
import ResourceApi.Http.Service
import ResourceApi.Json.Basic
import ResourceApi.Json.Display
import ResourceApi.Json.Equality
import ResourceApi.Json.Reader
import ResourceApi.Json.Reading
import ResourceApi.Json.Writer
import ResourceApi.Mutation.Execution
import ResourceApi.Mutation.JoinRows
import ResourceApi.Mutation.Node
import ResourceApi.Mutation.Reader
import ResourceApi.Mutation.Result
import ResourceApi.Mutation.Rules
import ResourceApi.Mutation.Validation
import ResourceApi.Number.Digits
import ResourceApi.Number.Double
import ResourceApi.Number.Numeral
import ResourceApi.Number.Word
import ResourceApi.Proofs.Json.Equality
import ResourceApi.Proofs.Json.Keyed
import ResourceApi.Proofs.Json.Members
import ResourceApi.Proofs.Json.Reading
import ResourceApi.Proofs.Mutation.Accepted
import ResourceApi.Proofs.Mutation.Detached
import ResourceApi.Proofs.Mutation.Linked
import ResourceApi.Proofs.Mutation.Met
import ResourceApi.Proofs.Mutation.Mirrored
import ResourceApi.Proofs.Mutation.Obeyed
import ResourceApi.Proofs.Mutation.Performed
import ResourceApi.Proofs.Mutation.Placed
import ResourceApi.Proofs.Mutation.Reading
import ResourceApi.Proofs.Mutation.Related
import ResourceApi.Proofs.Mutation.Rules
import ResourceApi.Proofs.Mutation.Scoped
import ResourceApi.Proofs.Mutation.Single
import ResourceApi.Proofs.Mutation.Synced
import ResourceApi.Proofs.Mutation.Syncing
import ResourceApi.Proofs.Mutation.Unlinked
import ResourceApi.Proofs.Mutation.WellFormed
import ResourceApi.Proofs.Number.Exact
import ResourceApi.Proofs.Outcome
import ResourceApi.Proofs.Query.Handed
import ResourceApi.Proofs.Query.Sorting
import ResourceApi.Proofs.Query.Truth
import ResourceApi.Proofs.Query.Unordered
import ResourceApi.Proofs.Relation.BroughtIn
import ResourceApi.Proofs.Relation.Handed
import ResourceApi.Proofs.Relation.Linked
import ResourceApi.Proofs.Relation.Reached
import ResourceApi.Proofs.Resource.Built
import ResourceApi.Proofs.Resource.Complete
import ResourceApi.Proofs.Resource.Configured
import ResourceApi.Proofs.Resource.Followed
import ResourceApi.Proofs.Resource.Listed
import ResourceApi.Proofs.Resource.Paths
import ResourceApi.Proofs.Rule.Asked
import ResourceApi.Proofs.Rule.Expanded
import ResourceApi.Proofs.Rule.Merged
import ResourceApi.Proofs.Rule.Met
import ResourceApi.Proofs.Rule.Obeyed
import ResourceApi.Proofs.Rule.Placed
import ResourceApi.Proofs.Search.Accepted
import ResourceApi.Proofs.Search.Aggregated
import ResourceApi.Proofs.Search.Alike
import ResourceApi.Proofs.Search.Answered
import ResourceApi.Proofs.Search.Attached
import ResourceApi.Proofs.Search.Carried
import ResourceApi.Proofs.Search.Compiled
import ResourceApi.Proofs.Search.Complement
import ResourceApi.Proofs.Search.Composed
import ResourceApi.Proofs.Search.Described
import ResourceApi.Proofs.Search.Distributed
import ResourceApi.Proofs.Search.Fetched
import ResourceApi.Proofs.Search.Filtered
import ResourceApi.Proofs.Search.Grammar
import ResourceApi.Proofs.Search.Handed
import ResourceApi.Proofs.Search.Heard
import ResourceApi.Proofs.Search.Included
import ResourceApi.Proofs.Search.Joined
import ResourceApi.Proofs.Search.Limited
import ResourceApi.Proofs.Search.Loaded
import ResourceApi.Proofs.Search.Measured
import ResourceApi.Proofs.Search.Modest
import ResourceApi.Proofs.Search.Named
import ResourceApi.Proofs.Search.Paged
import ResourceApi.Proofs.Search.Pages
import ResourceApi.Proofs.Search.Picked
import ResourceApi.Proofs.Search.Planned
import ResourceApi.Proofs.Search.Precedence
import ResourceApi.Proofs.Search.Readable
import ResourceApi.Proofs.Search.Returned
import ResourceApi.Proofs.Search.Routes
import ResourceApi.Proofs.Search.Shown
import ResourceApi.Proofs.Search.Steps
import ResourceApi.Proofs.Search.Told
import ResourceApi.Proofs.Search.Unfiltered
import ResourceApi.Proofs.Search.Unseen
import ResourceApi.Proofs.Search.Validated
import ResourceApi.Proofs.Search.Walked
import ResourceApi.Proofs.Search.WellFormed
import ResourceApi.Proofs.Session.Added
import ResourceApi.Proofs.Session.AllOrNothing
import ResourceApi.Proofs.Session.Alone
import ResourceApi.Proofs.Session.Authorized
import ResourceApi.Proofs.Session.Borne
import ResourceApi.Proofs.Session.Cleared
import ResourceApi.Proofs.Session.Found
import ResourceApi.Proofs.Session.Held
import ResourceApi.Proofs.Session.InStep
import ResourceApi.Proofs.Session.Indifferent
import ResourceApi.Proofs.Session.Joined
import ResourceApi.Proofs.Session.Lifecycle
import ResourceApi.Proofs.Session.Lives
import ResourceApi.Proofs.Session.Moves
import ResourceApi.Proofs.Session.Numbered
import ResourceApi.Proofs.Session.Ready
import ResourceApi.Proofs.Session.Records
import ResourceApi.Proofs.Session.Rows
import ResourceApi.Proofs.Session.Standing
import ResourceApi.Proofs.Session.Synced
import ResourceApi.Proofs.Session.Taken
import ResourceApi.Proofs.Session.Values
import ResourceApi.Proofs.Session.Written
import ResourceApi.Proofs.Storage.Order
import ResourceApi.Proofs.Storage.Tables
import ResourceApi.Proofs.Text.Label
import ResourceApi.Proofs.Text.Path
import ResourceApi.Proofs.Text.Words
import ResourceApi.Proofs.Told
import ResourceApi.Query.Basic
import ResourceApi.Query.Evaluation
import ResourceApi.Query.Name
import ResourceApi.Query.Related
import ResourceApi.Query.Sql
import ResourceApi.Relation.Declaration
import ResourceApi.Relation.Kind
import ResourceApi.Relation.Link
import ResourceApi.Relation.Rules
import ResourceApi.Resource.Declaration
import ResourceApi.Resource.Definition
import ResourceApi.Resource.Graph
import ResourceApi.Resource.Paths
import ResourceApi.Rule.Attribute
import ResourceApi.Rule.Check
import ResourceApi.Rule.Constraint
import ResourceApi.Schema.Table
import ResourceApi.Search.Comparison
import ResourceApi.Search.Execution
import ResourceApi.Search.Plan
import ResourceApi.Search.Reader
import ResourceApi.Search.Rules
import ResourceApi.Search.Scope
import ResourceApi.Search.Specification
import ResourceApi.Search.Validation
import ResourceApi.Session.Event
import ResourceApi.Session.Operations
import ResourceApi.Session.Record
import ResourceApi.Session.Records
import ResourceApi.Session.Work
import ResourceApi.Settings
import ResourceApi.Storage.Binding
import ResourceApi.Storage.Cell
import ResourceApi.Storage.Database
import ResourceApi.Storage.Moment
import ResourceApi.Text.Blank
import ResourceApi.Text.Cased
import ResourceApi.Text.Cut
import ResourceApi.Text.DecimalDigit
import ResourceApi.Text.Encoding
import ResourceApi.Text.Integer
import ResourceApi.Text.LowerCase
import ResourceApi.Text.Path
import ResourceApi.Text.Pattern
import ResourceApi.Text.Percent
import ResourceApi.Text.Quoted
import ResourceApi.Text.Shown
import ResourceApi.Text.SnakeCase
import ResourceApi.Text.Utf8
