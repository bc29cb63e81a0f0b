import FgGas.Machine.Run
import FgGas.Events.Attempts
import FgGas.Events.AuditedTransaction
import FgGas.Events.Deadline
import FgGas.Events.EditRevision
import FgGas.Events.FifoLock
import FgGas.Events.InboxDelivery
import FgGas.Store.Sound
import FgGas.Payments.ExactlyOnce
import FgGas.Agreements.ActionOnce
import FgGas.Agreements.CarriedValues
import FgGas.Agreements.IdentitiesOnce
import FgGas.Agreements.Pinned
import FgGas.Agreements.CreationOnce
import FgGas.Grants.ApplySerial
import FgGas.Grants.EntitlementsKept
import FgGas.Grants.DeclaredPositions
import FgGas.Buckets.SummaryCounts
import FgGas.Agreements.Validate
import FgGas.Agreements.Loading
import FgGas.Grants.SeriesKept
import FgGas.Grants.FetchedKept
import FgGas.Grants.RolledForward
import FgGas.Events.Completion
import FgGas.Events.Links
import FgGas.Buckets.StoredValues
import FgGas.Buckets.PlanChoice
import FgGas.Events.PayloadChanges
import FgGas.Payments.Totals
import FgGas.Grants.EnteredValues
import FgGas.Grants.InvokedUrl
import FgGas.Events.DispatchOrder
import FgGas.Grants.Semver
import FgGas.Buckets.ErrorKey
import FgGas.Buckets.Documents
import FgGas.Grants.VersionFilesKept
import FgGas.Grants.FetchDefinitionsOnce
import FgGas.Events.PollLoop
import FgGas.Events.PollPass
import FgGas.Events.NoRowStuck
import FgGas.Processes.SequenceProtocol
import FgGas.Processes.CreationValues
import FgGas.Processes.OutputReads
import FgGas.Pages.RenderedPage
import FgGas.Pages.PrintedPages
import FgGas.Pages.Submission
import FgGas.AllowLists.AllowList
import FgGas.AllowLists.Form
import FgGas.AllowLists.Resubmission
