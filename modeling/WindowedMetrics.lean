import WindowedMetrics.Actor.Journal
import WindowedMetrics.Clock
import WindowedMetrics.Counter
import WindowedMetrics.HitRatio.Basic
import WindowedMetrics.Phaser
import WindowedMetrics.Proofs.Actor.Bounded
import WindowedMetrics.Proofs.Actor.Wakeup
import WindowedMetrics.Proofs.Cached
import WindowedMetrics.Proofs.Checked.Policies
import WindowedMetrics.Proofs.Executor.Alone
import WindowedMetrics.Proofs.Executor.Once
import WindowedMetrics.Proofs.Ranking.Admission
import WindowedMetrics.Proofs.Ranking.Construction
import WindowedMetrics.Proofs.Ranking.Contended
import WindowedMetrics.Proofs.Ranking.Offers
import WindowedMetrics.Proofs.Ranking.Partition
import WindowedMetrics.Proofs.Ranking.Standings
import WindowedMetrics.Proofs.Ranking.Taken
import WindowedMetrics.Proofs.Rolling.Repeats
import WindowedMetrics.Proofs.Rolling.Representation
import WindowedMetrics.Proofs.Window.Decay
import WindowedMetrics.Proofs.Window.Race
import WindowedMetrics.Proofs.Window.Resets
import WindowedMetrics.Ranking.Retained
import WindowedMetrics.Reservoir.Basic
