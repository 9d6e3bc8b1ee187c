import PolicyValues.Text.Scan
import PolicyValues.DataType
import PolicyValues.Registry
import PolicyValues.Json.Reader
import PolicyValues.Attribute.Json
import PolicyValues.Settings.Layers
import PolicyValues.Proofs.Temporal.Order
import PolicyValues.Proofs.Temporal.Run
import PolicyValues.Proofs.Temporal.Inverse
import PolicyValues.Proofs.Temporal.YearMonth
import PolicyValues.Proofs.Duration.Exact
import PolicyValues.Proofs.Conversion.Agreement
import PolicyValues.Proofs.Value.JsonRoundTrip
import PolicyValues.Proofs.Temporal.Instants
import PolicyValues.Proofs.Duration.Grammar
import PolicyValues.Proofs.Network.Shown
import PolicyValues.Proofs.Binary.Canonical
import PolicyValues.Proofs.Registry.Tags
import PolicyValues.Proofs.Settings.Layers
import PolicyValues.Proofs.Conversion.Members
import PolicyValues.Proofs.Calendar.Order
import PolicyValues.Proofs.Temporal.EarlyDays
import PolicyValues.Proofs.Temporal.Monotone
import PolicyValues.Proofs.Temporal.Shift
import PolicyValues.Proofs.Temporal.FieldOrder
import PolicyValues.Proofs.Temporal.DayClock
import PolicyValues.Proofs.Temporal.OffsetClocks
import PolicyValues.Proofs.Duration.Canonical
import PolicyValues.Proofs.Duration.CarriedText
import PolicyValues.Proofs.Duration.Months
import PolicyValues.Proofs.Duration.Millis
import PolicyValues.Proofs.Temporal.LongYear
import PolicyValues.Proofs.Binary.Blame
import PolicyValues.Proofs.Name.RoundTrip
import PolicyValues.Proofs.Text.Endings
import PolicyValues.Proofs.Name.HostMatches
import PolicyValues.Proofs.Name.MailboxPatterns
import PolicyValues.Proofs.Network.PortsBehind
import PolicyValues.Proofs.Name.UriPieces
import PolicyValues.Proofs.Conversion.Leaves
import PolicyValues.Proofs.Registry.Collapse
import PolicyValues.Proofs.Value.Integers
import PolicyValues.Proofs.Text.Scanners
import PolicyValues.Proofs.Value.JsonIntegers
