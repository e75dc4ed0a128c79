import Gears.Approval.Runs
import Gears.Broker.Reading
import Gears.Durable.Finality
import Gears.Durable.Progress
import Gears.Durable.Refresh
import Gears.Gateway.Enforce
import Gears.Groups.Runs
import Gears.Ledger.ArReclass
import Gears.Ledger.Chain
import Gears.Ledger.FxColumn
import Gears.Ledger.RefundRuns
import Gears.Ledger.Reversal
import Gears.Ledger.Settlement
import Gears.Ledger.Translate
import Gears.OData.Like
import Gears.OData.Pages
import Gears.Orders.ClaimRuns
import Gears.Outbox.Deliveries
import Gears.Policy.Decide
import Gears.Pricing.EndedRuns
import Gears.Pricing.TemporaryRuns
import Gears.Pricing.Windows
import Gears.Quotas.History
import Gears.Quotas.Thresholds
import Gears.Settings.Fresh
import Gears.Tenants.Closure
