import SchemaSql.Main
import SchemaSql.Proofs.Argument.Integers
import SchemaSql.Proofs.Argument.Replaced
import SchemaSql.Proofs.Binding.Failing
import SchemaSql.Proofs.Binding.Passes
import SchemaSql.Proofs.Blanking.Command
import SchemaSql.Proofs.Catalog.DefaultSchema
import SchemaSql.Proofs.Catalog.Indexes
import SchemaSql.Proofs.Catalog.Listing
import SchemaSql.Proofs.Catalog.Naming
import SchemaSql.Proofs.Catalog.Preloaded
import SchemaSql.Proofs.Catalog.Snapshot
import SchemaSql.Proofs.Catalog.Transparent
import SchemaSql.Proofs.Command.Dataless
import SchemaSql.Proofs.Command.Identities
import SchemaSql.Proofs.Command.Keys
import SchemaSql.Proofs.Command.Markable
import SchemaSql.Proofs.Command.Meaning
import SchemaSql.Proofs.Command.Paged
import SchemaSql.Proofs.Command.Queried
import SchemaSql.Proofs.Command.ReadBack
import SchemaSql.Proofs.Command.Reported
import SchemaSql.Proofs.Command.Restricted
import SchemaSql.Proofs.Command.Shape
import SchemaSql.Proofs.Command.Updated
import SchemaSql.Proofs.Dialect.Decorated
import SchemaSql.Proofs.Execution.Transacted
import SchemaSql.Proofs.Name.Quoted
import SchemaSql.Proofs.PostgreSql.Restated
import SchemaSql.Proofs.Statement.Stretches
import SchemaSql.Proofs.Strictness.Command
import SchemaSql.Proofs.Value.Integers
import SchemaSql.Record
