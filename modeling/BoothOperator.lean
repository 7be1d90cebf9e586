import BoothOperator.Events.Splitting
import BoothOperator.Pipeline.Agreement
import BoothOperator.Pipeline.Finality
import BoothOperator.Pipeline.TranscriptRuns
import BoothOperator.Processing.Exclusion
import BoothOperator.Questions.Replays
import BoothOperator.Status.History
import BoothOperator.Push.Delivery
import BoothOperator.Archive.Closure
import BoothOperator.Archive.EndedEras
import BoothOperator.Installations.Summary
import BoothOperator.Events.Redelivery
import BoothOperator.Events.Broadcasts
import BoothOperator.Status.Reconciliation
import BoothOperator.Push.MessageAlerts
import BoothOperator.Push.QueueHigh
import BoothOperator.Processing.Atomicity
import BoothOperator.Pipeline.NoSpeech
import BoothOperator.Installations.Rollover
import BoothOperator.Uploads.Requests
import BoothOperator.Uploads.Idempotence
import BoothOperator.Purges.Audio
import BoothOperator.Installations.EraLock
import BoothOperator.Calls.Eras
import BoothOperator.Access.TokenCache
import BoothOperator.Access.Renewals
import BoothOperator.Access.LoginRuns
import BoothOperator.Access.RefreshRuns
import BoothOperator.Access.ReturnTo
import BoothOperator.Pipeline.Translations
import BoothOperator.Pipeline.PushReplay
import BoothOperator.Pipeline.Submissions
import BoothOperator.Pipeline.RepeatedVerdicts
import BoothOperator.Installations.CarryForward
import BoothOperator.Listings.Completeness
import BoothOperator.Listings.Instructions
import BoothOperator.Archive.TarRoundtrip
import BoothOperator.Archive.TarTermination
import BoothOperator.Access.StatusSocket
import BoothOperator.Access.ForwardedFor
import BoothOperator.Status.Pruner
import BoothOperator.Processing.SuccessiveClaims
import BoothOperator.Lib.IpAddress
import BoothOperator.Access.ProxyRules
import BoothOperator.Reports.LocalDays
import BoothOperator.Access.Freshness
import BoothOperator.Console.Collapse
import BoothOperator.Console.CurrentStatus
import BoothOperator.Console.LiveHistory
import BoothOperator.Pipeline.Sweeper
import BoothOperator.Reports.OverviewCache
import BoothOperator.Audit.Throttle
import BoothOperator.Audit.Metadata
import BoothOperator.Installations.Backfill
import BoothOperator.Languages.Tags
import BoothOperator.Access.SignedCookies
import BoothOperator.Access.RefreshBackoffs
import BoothOperator.Reports.PrometheusQueries
import BoothOperator.TranslationLayers
import BoothOperator.Reports.OverviewTotals
import BoothOperator.Live.StatusHub
import BoothOperator.Console.Connection
import BoothOperator.Console.Bridge
import BoothOperator.Access.Revalidation
import BoothOperator.Audit.Trail
import BoothOperator.Push.FanOuts
