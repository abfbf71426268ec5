import Pipeline.Planner
import Pipeline.Graph.Report
import Pipeline.Settings.Load
import Pipeline.Proofs.Comeback
import Pipeline.Proofs.ValidateAfterEdits
import Pipeline.Proofs.Alike
import Pipeline.Proofs.Remainder
import Pipeline.Proofs.Dialogue
import Pipeline.Proofs.Connector
import Pipeline.Proofs.Rebuild
import Pipeline.Proofs.Rename.Script
import Pipeline.Proofs.Regroup
import Pipeline.Proofs.FailedInsert
import Pipeline.Proofs.Route
import Pipeline.Proofs.Removal
import Pipeline.Proofs.Reconfigure
import Pipeline.Proofs.Commute
import Pipeline.Proofs.QueueCoherence
import Pipeline.Proofs.Override
import Pipeline.Proofs.Line
