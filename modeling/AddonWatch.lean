import AddonWatch.Addon.Definition
import AddonWatch.Cluster.Announcement
import AddonWatch.Cluster.Journal
import AddonWatch.Cluster.StatusWrite
import AddonWatch.Json.Writer
import AddonWatch.Rehearsal.Report
import AddonWatch.Proofs.Silence
import AddonWatch.Proofs.Convergence
import AddonWatch.Proofs.UpToDate
import AddonWatch.Proofs.Accounting
import AddonWatch.Proofs.Bookkeeping
import AddonWatch.Proofs.Intent
import AddonWatch.Proofs.Shutdown
import AddonWatch.Proofs.Resync
import AddonWatch.Proofs.Ascent
import AddonWatch.Proofs.Tally
import AddonWatch.Proofs.Standstill
import AddonWatch.Proofs.Vacancy
import AddonWatch.Proofs.Undisturbed
import AddonWatch.Proofs.Pace
import AddonWatch.Proofs.Deadlines
import AddonWatch.Proofs.Unwedged
import AddonWatch.Proofs.Errand
import AddonWatch.Proofs.DecisionTable
import AddonWatch.Proofs.Leftovers
import AddonWatch.Proofs.Lifecycle
import AddonWatch.Proofs.Departures
import AddonWatch.Proofs.Fingerprints
import AddonWatch.Proofs.Reflection
import AddonWatch.Proofs.Preservation
import AddonWatch.Proofs.ParallelClosing
import AddonWatch.Proofs.Independence
import AddonWatch.Proofs.DelaySequence
import AddonWatch.Proofs.ReadBack
import AddonWatch.Proofs.Outcomes
