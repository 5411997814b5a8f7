import AlertLedger.Channel
import AlertLedger.Main
import AlertLedger.Proofs.FailedIntake
import AlertLedger.Proofs.MongoPages
import AlertLedger.Proofs.PermittedRun
import AlertLedger.Proofs.RecordRoundTrip
import AlertLedger.Proofs.RedisMirror
import AlertLedger.Proofs.SharedSweep
import AlertLedger.Proofs.StoresAgree
import AlertLedger.Proofs.ChangingCapacities
import AlertLedger.Proofs.ResetMetrics
import AlertLedger.Proofs.SnapshotMap
import AlertLedger.Proofs.ServedPlans
import AlertLedger.Proofs.SharedServer
import AlertLedger.Proofs.SweepReport
import AlertLedger.Proofs.TimestampBounds
import AlertLedger.Proofs.TimestampsOnWire
import AlertLedger.Proofs.WholeMessages
import AlertLedger.Proofs.LatestStates
import AlertLedger.Proofs.GlobRules
import AlertLedger.Proofs.WholeDoubles
import AlertLedger.Proofs.TimestampTexts
