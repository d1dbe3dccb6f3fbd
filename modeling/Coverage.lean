import Coverage.Main
import Coverage.Session.Run
import Coverage.Proofs.Cache.FiniteMap
import Coverage.Proofs.Cache.Reimport
import Coverage.Proofs.Trace.Agreement
import Coverage.Proofs.Trace.Edits
import Coverage.Proofs.Trace.RoundTrip
import Coverage.Proofs.Script.SourceOrder
import Coverage.Proofs.Bundle.NormalForm
import Coverage.Proofs.Bundle.RoundTrip
import Coverage.Proofs.Session.Attempts
import Coverage.Proofs.Session.Balance
import Coverage.Proofs.Session.Confined
import Coverage.Proofs.Session.Failures
import Coverage.Proofs.Session.HandedOn
import Coverage.Proofs.Session.Interleaving
import Coverage.Proofs.Session.Reports
import Coverage.Proofs.Session.Snapshots
import Coverage.Proofs.SiteMap.NormalForm
import Coverage.Proofs.SiteMap.Onward
import Coverage.Proofs.SiteMap.Positions
import Coverage.Proofs.Hits.Calls
import Coverage.Proofs.Hits.Entries
import Coverage.Proofs.Hits.Progress
import Coverage.Proofs.Hits.Readings
