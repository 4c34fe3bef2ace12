import CloudLabs.Http.Chain
import CloudLabs.Http.Paths
import CloudLabs.Http.Shutdown
import CloudLabs.Http.Upstream
import CloudLabs.KvStore.Client
import CloudLabs.KvStore.Conf
import CloudLabs.KvStore.Convergence
import CloudLabs.KvStore.Exchange
import CloudLabs.KvStore.Hops
import CloudLabs.KvStore.Launch
import CloudLabs.KvStore.Matching
import CloudLabs.KvStore.RecoveryLoop
import CloudLabs.KvStore.Restart
import CloudLabs.KvStore.Session
import CloudLabs.Sudoku.Generator
import CloudLabs.Sudoku.Modes
import CloudLabs.Sudoku.Restore
import CloudLabs.Sudoku.Answers
import CloudLabs.Sudoku.Torus
